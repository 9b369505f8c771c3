import TssCli.Protocols.Additive
import TssCli.Protocols.Ecdsa.KeyStore
import TssCli.Protocols.Secp256k1

/-!
# The conversion of old key stores

Version 0.1.0 wrote scalars and coordinates as hexadecimal numerals, without
leading zeros, and took the generator for chain code.  `convert_store_file` reads
such a store and writes the current one, with the chain code `1`.

Coordinates are read as integers, whatever their length.  A scalar is read from
bytes, and only an odd number of digits is filled up, to an even one.  So a scalar
below `2 ^ 248` has fewer bytes than `32` and is refused (`convertOldFE_eq`), and the
conversion loses nothing exactly when both scalars of the store have `32`
(`store_conversion`).
-/

namespace TssCli

namespace Ecdsa

/-! ## The code -/

/-- `OldGE`. -/
structure OldGE where
  x : String
  y : String

/-- `OldKeys`. -/
structure OldKeys (DK EK : Type) where
  uI : String
  yI : OldGE
  dk : DK
  ek : EK
  partyIndex : Nat

/-- `OldSharedKeys`. -/
structure OldSharedKeys where
  y : OldGE
  xI : String

/-- `OldVerifiableSS`, with its parameters. -/
structure OldVerifiableSS where
  threshold : Nat
  shareCount : Nat
  commitments : List OldGE

/-- The tuple in an old store. -/
structure OldStore (DK EK : Type) where
  partyKeys : OldKeys DK EK
  sharedKeys : OldSharedKeys
  partyId : Nat
  vssSchemeVec : List OldVerifiableSS
  paillierKeyVector : List EK
  ySum : OldGE

section

variable {F G DK EK : Type} (reader : CurveReader F G)

/-- `convert_old_GE`. -/
def convertOldGE (old : OldGE) : Except Panic G :=
  match fromHex old.x.toList, fromHex old.y.toList with
  | some oldX, some oldY =>
      match reader.fromCoords oldX oldY with
      | some p => .ok p
      | none => .error .unwrapErr
  | _, _ => .error .unwrapErr

/-- `convert_old_FE`. -/
def convertOldFE (old : String) : Except Panic F :=
  let digits := if old.length % 2 ≠ 0 then '0' :: old.toList else old.toList
  match (hexDecode digits).bind reader.scalarFromBytes with
  | some a => .ok a
  | none => .error .unwrapErr

/-- `convert_old_vss`. -/
def convertOldVss (vss : OldVerifiableSS) : Except Panic (Vss G) := do
  let commitments ← vss.commitments.mapM (convertOldGE reader)
  return { threshold := vss.threshold, shareCount := vss.shareCount, commitments }

variable [One F]

/-- The store that takes the place of an old one. -/
def convertStore (old : OldStore DK EK) : Except Panic (KeyStore F G DK EK) := do
  let uI ← convertOldFE reader old.partyKeys.uI
  let yI ← convertOldGE reader old.partyKeys.yI
  let y ← convertOldGE reader old.sharedKeys.y
  let xI ← convertOldFE reader old.sharedKeys.xI
  let ySum ← convertOldGE reader old.ySum
  let vssSchemeVec ← old.vssSchemeVec.mapM (convertOldVss reader)
  return { partyKeys := { uI, yI, dk := old.partyKeys.dk, ek := old.partyKeys.ek,
                          partyIndex := old.partyKeys.partyIndex },
           chainCode := 1, sharedKeys := { y, xI }, partyId := old.partyId, vssSchemeVec,
           paillierKeyVector := old.paillierKeyVector, ySum }

/-- `convert_store_file`, from the text it reads to the one it writes. -/
def convertStoreFile (oldJson : Codec (OldStore DK EK)) (json : Codec (KeyStore F G DK EK))
    (data : String) : Except Panic String := do
  let old ← oldJson.read data
  let store ← convertStore reader old
  return json.encode store

end

/-! ## Old stores -/

/-- A hexadecimal numeral without leading zeros. -/
def Numeral (text : String) (n : Nat) : Prop :=
  fromHex text.toList = some n ∧ (text.toList.head? = some '0' → n = 0)

section

variable {F G DK EK : Type} (curve : Curve F G)

/-- A scalar that is not zero is written as a numeral. -/
def SpellsScalar (old : String) (a : F) : Prop :=
  0 < curve.toBigint a ∧ Numeral old (curve.toBigint a)

/-- A point of the curve is written by the numerals of its coordinates. -/
def SpellsPoint (old : OldGE) (p : G) : Prop :=
  ∃ x y, curve.xCoord p = some x ∧ curve.yCoord p = some y ∧ Numeral old.x x ∧ Numeral old.y y

/-- The parameters and the commitments in their order. -/
structure SpellsVss (old : OldVerifiableSS) (vss : Vss G) : Prop where
  threshold : old.threshold = vss.threshold
  shareCount : old.shareCount = vss.shareCount
  commitments : List.Forall₂ (SpellsPoint curve) old.commitments vss.commitments

/-- A store of version 0.1.0, with what is in it.  It has no chain code. -/
structure OldStore.Spells (old : OldStore DK EK) (store : KeyStore F G DK EK) : Prop where
  uI : SpellsScalar curve old.partyKeys.uI store.partyKeys.uI
  yI : SpellsPoint curve old.partyKeys.yI store.partyKeys.yI
  dk : old.partyKeys.dk = store.partyKeys.dk
  ek : old.partyKeys.ek = store.partyKeys.ek
  partyIndex : old.partyKeys.partyIndex = store.partyKeys.partyIndex
  y : SpellsPoint curve old.sharedKeys.y store.sharedKeys.y
  xI : SpellsScalar curve old.sharedKeys.xI store.sharedKeys.xI
  partyId : old.partyId = store.partyId
  vssSchemeVec : List.Forall₂ (SpellsVss curve) old.vssSchemeVec store.vssSchemeVec
  paillierKeyVector : old.paillierKeyVector = store.paillierKeyVector
  ySum : SpellsPoint curve old.ySum store.ySum

variable [AddCommGroup G] [SMul F G] [Add F] [Zero F] [One F] (hmac : Hmac)
  (reader : CurveReader F G) (oldJson : Codec (OldStore DK EK)) (json : Codec (KeyStore F G DK EK))

/-- The old store is converted to one that is read back with everything in it, and
every path leads to the child that the generator as chain code leads to. -/
def Converts (data : String) (store : KeyStore F G DK EK) : Prop :=
  ∃ text chainCode, convertStoreFile reader oldJson json data = .ok text ∧
    readStore json reader text "" = .ok { store with chainCode } ∧
    ∀ path, path ≠ "" → keyAt curve hmac chainCode store.ySum path =
      (getHdKey curve hmac store.ySum path curve.generator).map Prod.swap

end

/-! ## What is read -/

section

variable {F G DK EK : Type} {curve : Curve F G} {reader : CurveReader F G}

theorem convertOldGE_eq (hreader : reader.Documented curve) {old : OldGE} {p : G}
    (h : SpellsPoint curve old p) : convertOldGE reader old = .ok p := by
  obtain ⟨x, y, hx, hy, hold, hold'⟩ := h
  simp only [convertOldGE, hold.1, hold'.1, (hreader.fromCoords x y p).mpr ⟨hx, hy⟩]

theorem mapM_forall₂ {α β : Type} {f : α → Except Panic β} {r : α → β → Prop}
    (hf : ∀ a b, r a b → f a = .ok b) :
    ∀ {l : List α} {l' : List β}, List.Forall₂ r l l' → l.mapM f = .ok l'
  | _, _, .nil => rfl
  | a :: l, b :: l', .cons h hl => by
      rw [List.mapM_cons, hf a b h, except_ok_bind, mapM_forall₂ hf hl]
      rfl

theorem convertOldVss_eq (hreader : reader.Documented curve) {old : OldVerifiableSS} {vss : Vss G}
    (h : SpellsVss curve old vss) : convertOldVss reader old = .ok vss := by
  have hcommitments : old.commitments.mapM (convertOldGE reader) = .ok vss.commitments :=
    mapM_forall₂ (fun _ _ hp => convertOldGE_eq hreader hp) h.commitments
  rw [convertOldVss, hcommitments, h.threshold, h.shareCount]
  rfl

/-- A scalar is read exactly when it has `32` bytes. -/
theorem convertOldFE_eq (hreader : reader.Documented curve) {old : String} {a : F}
    (h : SpellsScalar curve old a) (hlt : curve.toBigint a < 2 ^ 256) :
    convertOldFE reader old =
      if 2 ^ 248 ≤ curve.toBigint a then .ok a else .error .unwrapErr := by
  obtain ⟨hpos, hvalue, hhead⟩ := h
  have hne : old.toList.head? ≠ some '0' := fun hzero => hpos.ne' (hhead hzero)
  have h₆₂ := length_of_fromHex (k := 62) hvalue hne
  have h₆₄ := length_of_fromHex (k := 64) hvalue hne
  obtain ⟨digits, hdigits, hfrom, hlen, heven⟩ : ∃ digits : List Char,
      digits = (if old.length % 2 ≠ 0 then '0' :: old.toList else old.toList) ∧
      fromHex digits = some (curve.toBigint a) ∧
      digits.length = old.toList.length + old.toList.length % 2 ∧ digits.length % 2 = 0 := by
    refine ⟨_, rfl, ?_⟩
    rw [← String.length_toList]
    split
    next hodd =>
      refine ⟨fromHex_zero_cons hvalue, ?_⟩
      rw [List.length_cons]
      omega
    next => exact ⟨hvalue, by omega⟩
  obtain ⟨bytes, hdecode, hlength, hbytes⟩ := hexDecode_of_fromHex hfrom heven
  rw [convertOldFE, ← hdigits]
  simp only [hdecode, Option.bind_some]
  have hiff : bytes.length = 32 ↔ 2 ^ 248 ≤ curve.toBigint a := by
    norm_num at h₆₂ h₆₄ hlt ⊢
    omega
  by_cases hle : 2 ^ 248 ≤ curve.toBigint a
  · rw [if_pos hle, (hreader.scalarFromBytes bytes a).mpr ⟨hiff.mpr hle, hbytes⟩]
  · rw [if_neg hle]
    cases hread : reader.scalarFromBytes bytes with
    | none => rfl
    | some b => exact absurd (hiff.mp ((hreader.scalarFromBytes bytes b).mp hread).1) hle

variable [One F] {old : OldStore DK EK} {store : KeyStore F G DK EK}

/-- With `32` bytes in both scalars everything in the store is read. -/
theorem convertStore_eq (hreader : reader.Documented curve) (h : old.Spells curve store)
    (hlt : ∀ a, curve.toBigint a < 2 ^ 256)
    (hu : 2 ^ 248 ≤ curve.toBigint store.partyKeys.uI)
    (hx : 2 ^ 248 ≤ curve.toBigint store.sharedKeys.xI) :
    convertStore reader old = .ok { store with chainCode := 1 } := by
  have hvss : old.vssSchemeVec.mapM (convertOldVss reader) = .ok store.vssSchemeVec :=
    mapM_forall₂ (fun _ _ hvss => convertOldVss_eq hreader hvss) h.vssSchemeVec
  rw [convertStore, convertOldFE_eq hreader h.uI (hlt _), if_pos hu, convertOldGE_eq hreader h.yI,
    convertOldGE_eq hreader h.y, convertOldFE_eq hreader h.xI (hlt _), if_pos hx,
    convertOldGE_eq hreader h.ySum, hvss]
  simp only [except_ok_bind, h.dk, h.ek, h.partyIndex, h.partyId, h.paillierKeyVector]
  rfl

/-- A store that is converted has `32` bytes in both scalars. -/
theorem of_convertStore (hreader : reader.Documented curve) (h : old.Spells curve store)
    (hlt : ∀ a, curve.toBigint a < 2 ^ 256) {store' : KeyStore F G DK EK}
    (hok : convertStore reader old = .ok store') :
    2 ^ 248 ≤ curve.toBigint store.partyKeys.uI ∧
      2 ^ 248 ≤ curve.toBigint store.sharedKeys.xI := by
  have hscalar : ∀ {text : String} {a b : F}, SpellsScalar curve text a →
      convertOldFE reader text = .ok b → 2 ^ 248 ≤ curve.toBigint a := by
    intro text a b htext hread
    rw [convertOldFE_eq hreader htext (hlt a)] at hread
    by_contra hle
    rw [if_neg hle] at hread
    cases hread
  obtain ⟨uI, hu, hok⟩ := except_bind_ok hok
  obtain ⟨yI, _, hok⟩ := except_bind_ok hok
  obtain ⟨y, _, hok⟩ := except_bind_ok hok
  obtain ⟨xI, hx, _⟩ := except_bind_ok hok
  exact ⟨hscalar h.uI hu, hscalar h.xI hx⟩

end

end Ecdsa

section

variable {F G DK EK : Type} [Field F] [AddCommGroup G] [Module F G] {curve : Curve F G}
  {reader : CurveReader F G} {hmac : Hmac}

/-- The conversion of an old store loses nothing exactly when neither of its scalars
has fewer than `32` bytes. -/
theorem store_conversion (hcurve : curve.Documented) (hreader : reader.Documented curve)
    (hmac : Hmac) (oldJson : Codec (Ecdsa.OldStore DK EK)) (json : Codec (Ecdsa.KeyStore F G DK EK))
    {data : String} {old : Ecdsa.OldStore DK EK} {store : Ecdsa.KeyStore F G DK EK}
    (hdata : oldJson.decode data = some old) (h : old.Spells curve store) :
    Ecdsa.Converts curve hmac reader oldJson json data store ↔
      2 ^ 248 ≤ curve.toBigint store.partyKeys.uI ∧
        2 ^ 248 ≤ curve.toBigint store.sharedKeys.xI := by
  have hread : oldJson.read data = .ok old := by rw [Codec.read, hdata]
  constructor
  · rintro ⟨text, _, hconvert, -, -⟩
    rw [Ecdsa.convertStoreFile, hread] at hconvert
    obtain ⟨store', hstore, -⟩ := except_bind_ok (except_ok_bind old _ ▸ hconvert)
    exact Ecdsa.of_convertStore hreader h hcurve.toBigint_lt hstore
  · rintro ⟨hu, hx⟩
    refine ⟨json.encode { store with chainCode := 1 }, 1, ?_, ?_, fun path hpath => ?_⟩
    · rw [Ecdsa.convertStoreFile, hread, except_ok_bind,
        Ecdsa.convertStore_eq hreader h hcurve.toBigint_lt hu hx]
      rfl
    · rw [Ecdsa.readStore, Codec.read_encode]
      rfl
    · simp only [Ecdsa.keyAt, if_neg hpath, one_smul]
      cases getHdKey curve hmac store.ySum path curve.generator <;> rfl

end

/-! ## Stores -/

namespace Ecdsa

instance : Countable OldGE :=
  Function.Injective.countable (f := fun p => (p.x, p.y)) fun p q h => by
    cases p; cases q; simp_all

instance : Countable OldSharedKeys :=
  Function.Injective.countable (f := fun k => (k.y, k.xI)) fun k l h => by
    cases k; cases l; simp_all

instance : Countable OldVerifiableSS :=
  Function.Injective.countable (f := fun v => (v.threshold, v.shareCount, v.commitments))
    fun v w h => by cases v; cases w; simp_all

section

variable {F G DK EK : Type} [Countable F] [Countable G] [Countable DK] [Countable EK]

instance : Countable (OldKeys DK EK) :=
  Function.Injective.countable (f := fun k => (k.uI, k.yI, k.dk, k.ek, k.partyIndex))
    fun k l h => by cases k; cases l; simp_all

instance : Countable (OldStore DK EK) :=
  Function.Injective.countable (f := fun s => (s.partyKeys, s.sharedKeys, s.partyId,
    s.vssSchemeVec, s.paillierKeyVector, s.ySum)) fun s r h => by cases s; cases r; simp_all

instance : Countable (Keys F G DK EK) :=
  Function.Injective.countable (f := fun k => (k.uI, k.yI, k.dk, k.ek, k.partyIndex))
    fun k l h => by cases k; cases l; simp_all

instance : Countable (SharedKeys F G) :=
  Function.Injective.countable (f := fun k => (k.y, k.xI)) fun k l h => by
    cases k; cases l; simp_all

instance : Countable (KeyStore F G DK EK) :=
  Function.Injective.countable (f := fun s => (s.partyKeys, s.chainCode, s.sharedKeys, s.partyId,
    s.vssSchemeVec, s.paillierKeyVector, s.ySum)) fun s r h => by cases s; cases r; simp_all

end

open Secp256k1

/-- An old store of two parties, in which all points are one. -/
def sampleOld (uI xI : String) (p : OldGE) : OldStore Unit Nat where
  partyKeys := { uI, yI := p, dk := (), ek := 1, partyIndex := 1 }
  sharedKeys := { y := p, xI }
  partyId := 1
  vssSchemeVec := [⟨1, 2, [p, p]⟩, ⟨1, 2, [p, p]⟩]
  paillierKeyVector := [1, 2]
  ySum := p

/-- What is in it. -/
def sampleStore (uI xI p : ZMod order) : KeyStore (ZMod order) (ZMod order) Unit Nat where
  partyKeys := { uI, yI := p, dk := (), ek := 1, partyIndex := 1 }
  chainCode := 0
  sharedKeys := { y := p, xI }
  partyId := 1
  vssSchemeVec := [⟨1, 2, [p, p]⟩, ⟨1, 2, [p, p]⟩]
  paillierKeyVector := [1, 2]
  ySum := p

theorem sampleOld_spells {curve : Curve (ZMod order) (ZMod order)} {u x : String}
    {uI xI p : ZMod order} {old : OldGE} (hu : SpellsScalar curve u uI)
    (hx : SpellsScalar curve x xI) (hp : SpellsPoint curve old p) :
    (sampleOld u x old).Spells curve (sampleStore uI xI p) where
  uI := hu
  yI := hp
  dk := rfl
  ek := rfl
  partyIndex := rfl
  y := hp
  xI := hx
  partyId := rfl
  vssSchemeVec :=
    have hvss : SpellsVss curve ⟨1, 2, [old, old]⟩ ⟨1, 2, [p, p]⟩ :=
      ⟨rfl, rfl, .cons hp (.cons hp .nil)⟩
    .cons hvss (.cons hvss .nil)
  paillierKeyVector := rfl
  ySum := hp

/-- Scalars are read modulo the order of secp256k1, and points of the additive group
from their equal coordinates. -/
def additiveReader : CurveReader (ZMod order) (ZMod order) where
  scalarFromBytes bytes :=
    if bytes.length = 32 ∧ fromBytes bytes < order then some (fromBytes bytes : ZMod order) else none
  fromCoords x y := if x = y ∧ x ≠ 0 ∧ x < order then some (x : ZMod order) else none

theorem additiveReader_documented : additiveReader.Documented (additiveCurve order) where
  scalarFromBytes bytes a := by
    constructor
    · intro h
      simp only [additiveReader] at h
      split at h
      next hbytes =>
        obtain rfl := Option.some.inj h
        exact ⟨hbytes.1, (ZMod.val_cast_of_lt hbytes.2).symm⟩
      next => cases h
    · rintro ⟨hlength, hvalue⟩
      simp only [additiveReader, hvalue, hlength, additiveCurve, ZMod.val_lt a, and_self, if_true,
        ZMod.natCast_val, ZMod.cast_id', id_eq]
  fromCoords x y p := by
    constructor
    · intro h
      simp only [additiveReader] at h
      split at h
      next hxy =>
        obtain ⟨rfl, hne, hlt⟩ := hxy
        obtain rfl := Option.some.inj h
        have hval : (x : ZMod order).val = x := ZMod.val_cast_of_lt hlt
        have hp : (x : ZMod order) ≠ 0 := fun hzero => hne (by rw [← hval, hzero, ZMod.val_zero])
        exact ⟨(if_neg hp).trans (congrArg some hval), (if_neg hp).trans (congrArg some hval)⟩
      next => cases h
    · rintro ⟨hx, hy⟩
      simp only [additiveCurve] at hx hy
      split at hx
      next => cases hx
      next hp =>
        rw [if_neg hp] at hy
        obtain rfl := Option.some.inj hx
        obtain rfl := Option.some.inj hy
        have hne : p.val ≠ 0 := fun hzero => hp ((ZMod.val_eq_zero p).mp hzero)
        simp only [additiveReader, ZMod.val_lt p, hne, ne_eq, not_false_eq_true, and_self, if_true,
          ZMod.natCast_val, ZMod.cast_id', id_eq]

theorem spellsScalar_cast {curve : Curve (ZMod order) (ZMod order)}
    (hcurve : curve.toBigint = ZMod.val) {text : String} {n : Nat} (hpos : 0 < n) (hlt : n < order)
    (h : Numeral text n) : SpellsScalar curve text (n : ZMod order) := by
  have hval : curve.toBigint (n : ZMod order) = n := by
    rw [hcurve]
    exact ZMod.val_cast_of_lt hlt
  rw [SpellsScalar, hval]
  exact ⟨hpos, h⟩

theorem numeral_full :
    Numeral "8000000000000000000000000000000000000000000000000000000000000000" (2 ^ 255) := by
  unfold Numeral
  decide +kernel

theorem numeral_short :
    Numeral "80000000000000000000000000000000000000000000000000000000000000" (2 ^ 247) := by
  unfold Numeral
  decide +kernel

/-- The points of secp256k1 are read from their coordinates. -/
noncomputable def secp256k1Reader : CurveReader (ZMod order) (ZMod order) where
  scalarFromBytes := additiveReader.scalarFromBytes
  fromCoords x y :=
    Function.partialInv (fun p => (secp256k1.xCoord p, secp256k1.yCoord p)) (some x, some y)

/-- The generator of secp256k1. -/
def oldBase : OldGE where
  x := "79be667ef9dcbbac55a06295ce870b07029bfcdb2dce28d959f2815b16f81798"
  y := "483ada7726a3c4655da4fbfc0e1108a8fd17b448a68554199c47d08ffb10d4b8"

theorem oldBase_spells : SpellsPoint secp256k1 oldBase 1 := by
  have hbase : coordinates (1 : ZMod order).val = base := by decide +kernel
  have hone : (1 : ZMod order) ≠ 0 := one_ne_zero
  refine ⟨base.1, base.2, ?_, ?_, ?_⟩
  · show (if (1 : ZMod order) = 0 then none else some (coordinates (1 : ZMod order).val).1) = _
    rw [if_neg hone, hbase]
  · show (if (1 : ZMod order) = 0 then none else some (coordinates (1 : ZMod order).val).2) = _
    rw [if_neg hone, hbase]
  · unfold Numeral
    decide +kernel

end Ecdsa

open Secp256k1

/-- A store with scalars of `32` bytes over the additive group. -/
theorem store_conversion_full :
    Ecdsa.Converts (additiveCurve order) (fun _ _ => []) Ecdsa.additiveReader (.ofCountable _)
      (.ofCountable _)
      ((Codec.ofCountable (Ecdsa.OldStore Unit Nat)).encode (Ecdsa.sampleOld
        "8000000000000000000000000000000000000000000000000000000000000000"
        "8000000000000000000000000000000000000000000000000000000000000000" ⟨"5", "5"⟩))
      (Ecdsa.sampleStore (2 ^ 255 : Nat) (2 ^ 255 : Nat) 5) := by
  have hscalar : Ecdsa.SpellsScalar (additiveCurve order) _ ((2 ^ 255 : Nat) : ZMod order) :=
    Ecdsa.spellsScalar_cast rfl (by decide) (by decide) Ecdsa.numeral_full
  have hpoint : Ecdsa.SpellsPoint (additiveCurve order) ⟨"5", "5"⟩ 5 :=
    ⟨5, 5, by decide +kernel, by decide +kernel, by unfold Ecdsa.Numeral; decide⟩
  refine (store_conversion (additiveCurve_documented order (by decide) (by decide))
    Ecdsa.additiveReader_documented _ _ _ (Codec.decode_encode _ _)
    (Ecdsa.sampleOld_spells hscalar hscalar hpoint)).mpr ?_
  have hval : ((2 ^ 255 : Nat) : ZMod order).val = 2 ^ 255 := ZMod.val_cast_of_lt (by decide)
  refine ⟨?_, ?_⟩
  · exact (show 2 ^ 248 ≤ 2 ^ 255 by decide).trans_eq hval.symm
  · exact (show 2 ^ 248 ≤ 2 ^ 255 by decide).trans_eq hval.symm

/-- A store over secp256k1 with a scalar of `31` bytes is well formed and is not
converted. -/
theorem store_conversion_short :
    (Ecdsa.sampleOld "80000000000000000000000000000000000000000000000000000000000000"
        "8000000000000000000000000000000000000000000000000000000000000000"
        Ecdsa.oldBase).Spells secp256k1
      (Ecdsa.sampleStore (2 ^ 247 : Nat) (2 ^ 255 : Nat) 1) ∧
    ¬ Ecdsa.Converts secp256k1 (fun _ _ => []) Ecdsa.secp256k1Reader (.ofCountable _)
      (.ofCountable _)
      ((Codec.ofCountable (Ecdsa.OldStore Unit Nat)).encode (Ecdsa.sampleOld
        "80000000000000000000000000000000000000000000000000000000000000"
        "8000000000000000000000000000000000000000000000000000000000000000" Ecdsa.oldBase))
      (Ecdsa.sampleStore (2 ^ 247 : Nat) (2 ^ 255 : Nat) 1) := by
  refine ⟨Ecdsa.sampleOld_spells
    (Ecdsa.spellsScalar_cast rfl (by decide) (by decide) Ecdsa.numeral_short)
    (Ecdsa.spellsScalar_cast rfl (by decide) (by decide) Ecdsa.numeral_full)
    Ecdsa.oldBase_spells, ?_⟩
  rintro ⟨text, _, hconvert, -, -⟩
  have hshort : Ecdsa.convertOldFE Ecdsa.secp256k1Reader
      "80000000000000000000000000000000000000000000000000000000000000" = .error .unwrapErr := by
    decide +kernel
  rw [Ecdsa.convertStoreFile, Codec.read_encode, except_ok_bind] at hconvert
  obtain ⟨store, hstore, -⟩ := except_bind_ok hconvert
  obtain ⟨uI, hu, -⟩ := except_bind_ok hstore
  exact absurd (hshort.symm.trans hu) nofun

end TssCli
