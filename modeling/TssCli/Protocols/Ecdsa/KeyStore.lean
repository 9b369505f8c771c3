import TssCli.Common.Hex
import TssCli.Protocols.HdKeys
import TssCli.Protocols.Keygen

/-!
# The ECDSA key store

The file in which a party keeps what a key generation left it, as
`run_pubkey_or_sign` reads it, and the key it then works with: the root, or the
child at a path with its tweak.
-/

namespace TssCli

/-! ## Reading scalars and points -/

/-- What the curve library reads scalars and points from. -/
structure CurveReader (F G : Type) where
  /-- `Scalar::from_bytes`. -/
  scalarFromBytes : List UInt8 → Option F
  /-- `Point::from_coords`. -/
  fromCoords : Nat → Nat → Option G

/-- A scalar is read from `32` big-endian bytes of an integer below the order, and a
point from its coordinates. -/
structure CurveReader.Documented {F G : Type} (reader : CurveReader F G) (curve : Curve F G) :
    Prop where
  scalarFromBytes : ∀ bytes a, reader.scalarFromBytes bytes = some a ↔
    bytes.length = 32 ∧ fromBytes bytes = curve.toBigint a
  fromCoords : ∀ x y p, reader.fromCoords x y = some p ↔
    curve.xCoord p = some x ∧ curve.yCoord p = some y

namespace Ecdsa

/-! ## The store -/

/-- `Keys`. -/
structure Keys (F G DK EK : Type) where
  uI : F
  yI : G
  dk : DK
  ek : EK
  partyIndex : Nat

/-- `SharedKeys`. -/
structure SharedKeys (F G : Type) where
  y : G
  xI : F

/-- The tuple in a store. -/
structure KeyStore (F G DK EK : Type) where
  partyKeys : Keys F G DK EK
  chainCode : F
  sharedKeys : SharedKeys F G
  partyId : Nat
  vssSchemeVec : List (Vss G)
  paillierKeyVector : List EK
  ySum : G

section

variable {F G DK EK : Type}

/-- What `run_pubkey_or_sign` reads of a store, with the chain code that may be
given in its stead. -/
def readStore (json : Codec (KeyStore F G DK EK)) (reader : CurveReader F G) (data : String)
    (chainCodeHex : String) : Except Panic (KeyStore F G DK EK) := do
  let store ← json.read data
  if chainCodeHex = "" then return store else
  match (hexDecode chainCodeHex.toList).bind reader.scalarFromBytes with
  | some chainCode => return { store with chainCode }
  | none => .error .unwrapErr

variable [AddCommGroup G] [SMul F G] [Add F] [Zero F] (curve : Curve F G) (hmac : Hmac)

/-- The tweak and the key: none and the root, or those at the path. -/
def keyAt (chainCode : F) (ySum : G) (path : String) : Except Panic (F × G) :=
  if path = "" then .ok (0, ySum)
  else do
    let chainCode := chainCode • curve.generator
    let child ← getHdKey curve hmac ySum path chainCode
    return (child.2, child.1)

end

/-- The key at a path is the root plus the tweak times the generator, and there is no
tweak at the root. -/
theorem keyAt_child {F G : Type} [Field F] [AddCommGroup G] [Module F G] {curve : Curve F G}
    {hmac : Hmac} {chainCode f : F} {ySum child : G} {path : String}
    (h : keyAt curve hmac chainCode ySum path = .ok (f, child)) :
    child = ySum + f • curve.generator ∧ (path = "" → f = 0) := by
  unfold keyAt at h
  split at h
  next =>
    obtain ⟨rfl, rfl⟩ := Prod.mk.inj (Except.ok.inj h)
    simp
  next hpath =>
    obtain ⟨out, hout, h⟩ := except_bind_ok h
    obtain ⟨rfl, rfl⟩ := Prod.mk.inj (Except.ok.inj h)
    exact ⟨getHdKey_child hout, fun hroot => absurd hroot hpath⟩

end Ecdsa

end TssCli
