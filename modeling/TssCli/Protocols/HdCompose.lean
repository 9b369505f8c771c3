import TssCli.Protocols.HdKeys
import TssCli.Protocols.Secp256k1

/-!
# Composition of derivations

`hd_key` takes the first step of a path on its own.  It is given the chain code
as an integer, and reads the point back from the bytes of that integer, while
the fold over the rest of the path keeps points.  The two agree although the
integer loses the zero bytes that an encoding begins with (`pointFromBytes_bytesInt`):
the encodings of secp256k1 begin with `2` or `3` (`secp256k1_no_leadingZero`), and
`from_bytes` of Ed25519 puts the zero bytes back.

So deriving along `p` and then along `q` is deriving along `p ++ q`
(`derivation_composes`).
-/

namespace TssCli

section

variable {F G : Type} [Field F] [AddCommGroup G] [Module F G]

/-- What the documentation says of encodings: all points but the identity have
encodings of one length, which can be read. -/
structure Curve.Compressed (curve : Curve F G) (length : Nat) : Prop where
  length_pos : 0 < length
  length_pointBytes : ∀ p, p ≠ 0 → (curve.pointBytes p).length = length
  pointFromBytes_pointBytes : ∀ p, p ≠ 0 → curve.pointFromBytes (curve.pointBytes p) = some p

/-- `Point::from_bytes` reads a shorter string as if it was filled up with zero bytes in
front, which is so on Ed25519. -/
def Curve.Padded (curve : Curve F G) (length : Nat) : Prop :=
  ∀ bytes, bytes ≠ [] → bytes.length ≤ length → curve.pointFromBytes bytes =
    curve.pointFromBytes (List.replicate (length - bytes.length) 0 ++ bytes)

variable (curve : Curve F G) (hmac : Hmac)

/-- The integer of the compressed encoding. -/
def Curve.bytesInt (point : G) : Nat := fromBytes (curve.pointBytes point)

/-- The rounds of the fold along a path. -/
def hdWalk (path : List Int) (pubkey chainCode : G) : G × F × G :=
  path.foldl (hdStep curve hmac) (pubkey, 0, chainCode)

/-- The encoding of the point begins with a zero byte. -/
def Curve.LeadingZero (point : G) : Prop := (curve.pointBytes point).head? = some 0

/-- Deriving along `p` and along `q` from there, and along `p ++ q` at once, all
succeed and agree. -/
def Composes (p q : List Int) (pubkey chainCode : G) : Prop :=
  ∃ pubkey₁ f₁ chainCode₁ pubkey₂ f₂ chainCode₂,
    hdKey curve hmac p pubkey (curve.bytesInt chainCode) = .ok (pubkey₁, f₁, chainCode₁) ∧
    hdKey curve hmac q pubkey₁ (curve.bytesInt chainCode₁) = .ok (pubkey₂, f₂, chainCode₂) ∧
    hdKey curve hmac (p ++ q) pubkey (curve.bytesInt chainCode) =
      .ok (pubkey₂, f₁ + f₂, chainCode₂)

variable {curve hmac} {length : Nat}

/-! ## The first step -/

/-- The tweak of a walk starts where it is told to. -/
theorem foldl_hdStep_add : ∀ (path : List Int) (pubkey chainCode : G) (f : F),
    path.foldl (hdStep curve hmac) (pubkey, f, chainCode) =
      ((hdWalk curve hmac path pubkey chainCode).1,
        f + (hdWalk curve hmac path pubkey chainCode).2.1,
        (hdWalk curve hmac path pubkey chainCode).2.2)
  | [], pubkey, chainCode, f => by simp [hdWalk]
  | index :: rest, pubkey, chainCode, f => by
      have ih := foldl_hdStep_add rest
      rw [hdWalk, List.foldl_cons, List.foldl_cons]
      simp only [hdStep]
      rw [ih, ih _ _ (_ + 0)]
      simp only [Prod.mk.injEq, true_and, and_true]
      ring

theorem hdWalk_append (p q : List Int) (pubkey chainCode : G) :
    hdWalk curve hmac (p ++ q) pubkey chainCode =
      ((hdWalk curve hmac q (hdWalk curve hmac p pubkey chainCode).1
          (hdWalk curve hmac p pubkey chainCode).2.2).1,
        (hdWalk curve hmac p pubkey chainCode).2.1 +
          (hdWalk curve hmac q (hdWalk curve hmac p pubkey chainCode).1
            (hdWalk curve hmac p pubkey chainCode).2.2).2.1,
        (hdWalk curve hmac q (hdWalk curve hmac p pubkey chainCode).1
          (hdWalk curve hmac p pubkey chainCode).2.2).2.2) := by
  rw [hdWalk, List.foldl_append]
  exact foldl_hdStep_add q _ _ _

omit [Field F] [Module F G] in
/-- The point is read back from the integer of its encoding. -/
theorem pointFromBytes_bytesInt (h : curve.Compressed length)
    (hread : curve.Padded length ∨ ∀ a, a ≠ 0 → ¬ curve.LeadingZero a) {point : G}
    (hne : point ≠ 0) :
    curve.pointFromBytes (toBytes (curve.bytesInt point)) = some point := by
  have hlength := h.length_pointBytes point hne
  have hbytes : curve.pointBytes point ≠ [] :=
    List.length_pos_iff.mp (hlength.symm ▸ h.length_pos)
  rw [Curve.bytesInt]
  cases hread with
  | inl hpad =>
      have hle := length_toBytes_fromBytes hbytes
      rw [hlength] at hle
      rw [hpad _ (toBytes_ne_nil _) hle, ← hlength, replicate_append_toBytes hbytes,
        h.pointFromBytes_pointBytes point hne]
  | inr hzero =>
      rw [toBytes_fromBytes hbytes (hzero point hne), h.pointFromBytes_pointBytes point hne]

/-- `hd_key` is a walk: its first step is a round of the fold. -/
theorem hdKey_eq_walk (h : curve.Compressed length)
    (hread : curve.Padded length ∨ ∀ a, a ≠ 0 → ¬ curve.LeadingZero a) {path : List Int}
    (hpath : path ≠ []) (pubkey : G) {chainCode : G} (hne : chainCode ≠ 0) :
    hdKey curve hmac path pubkey (curve.bytesInt chainCode) =
      .ok (hdWalk curve hmac path pubkey chainCode) := by
  have hpoint := pointFromBytes_bytesInt h hread hne
  cases path with
  | nil => exact absurd rfl hpath
  | cons first rest =>
      rw [hdKey, hpoint]
      simp only [hdWalk, List.foldl_cons, hdStep, add_zero, Curve.bytesInt]

/-! ## Two paths -/

/-- Derivation along `p` and then along `q` is derivation along `p ++ q`, for every chain
code, be it encoded with leading zero bytes or not. -/
theorem derivation_composes (h : curve.Compressed length)
    (hread : curve.Padded length ∨ ∀ a, a ≠ 0 → ¬ curve.LeadingZero a) {p q : List Int}
    (hp : p ≠ []) (hq : q ≠ []) {pubkey chainCode : G} (hne : chainCode ≠ 0)
    (hne₁ : (hdWalk curve hmac p pubkey chainCode).2.2 ≠ 0) :
    Composes curve hmac p q pubkey chainCode := by
  refine ⟨_, _, _, _, _, _, hdKey_eq_walk h hread hp pubkey hne, hdKey_eq_walk h hread hq _ hne₁, ?_⟩
  rw [hdKey_eq_walk h hread (by simp [hp]) pubkey hne, hdWalk_append]
  rfl

end

/-- No encoding of secp256k1 begins with a zero byte, but that of the identity. -/
theorem secp256k1_no_leadingZero (a : ZMod Secp256k1.order) (ha : a ≠ 0) :
    ¬ secp256k1.LeadingZero a := by
  intro h
  rw [Curve.LeadingZero, secp256k1_pointBytes ha] at h
  have hhead := Option.some.inj h
  split at hhead
  next => exact absurd hhead (by decide)
  next => exact absurd hhead (by decide)

/-- A curve of five points with encodings of two bytes. -/
def fivePoints : Curve (ZMod 5) (ZMod 5) :=
  { additiveCurve 5 with
    pointBytes := fun x => [2, UInt8.ofNat x.val]
    pointFromBytes bytes := if bytes.length = 2 then some (bytes.getLastD 0).toNat else none }

theorem fivePoints_compressed : fivePoints.Compressed 2 where
  length_pos := by decide
  length_pointBytes := by decide
  pointFromBytes_pointBytes := by decide

theorem fivePoints_no_leadingZero (a : ZMod 5) : ¬ fivePoints.LeadingZero a :=
  fun h => absurd (Option.some.inj h) (by decide)

/-- The same points with encodings that begin with a zero byte, read also without it. -/
def fivePadded : Curve (ZMod 5) (ZMod 5) :=
  { additiveCurve 5 with
    pointBytes := fun x => [0, UInt8.ofNat x.val]
    pointFromBytes bytes := if bytes.length ≤ 2 then some (bytes.getLastD 0).toNat else none }

theorem fivePadded_compressed : fivePadded.Compressed 2 where
  length_pos := by decide
  length_pointBytes := by decide
  pointFromBytes_pointBytes := by decide

theorem fivePadded_padded : fivePadded.Padded 2 := by
  intro bytes hne hle
  have hlast : (List.replicate (2 - bytes.length) 0 ++ bytes).getLastD 0 = bytes.getLastD 0 := by
    rw [List.getLastD_eq_getLast?, List.getLastD_eq_getLast?, List.getLast?_append_of_ne_nil _ hne]
  have hlength : (List.replicate (2 - bytes.length) 0 ++ bytes).length ≤ 2 := by
    rw [List.length_append, List.length_replicate, Nat.sub_add_cancel hle]
  simp only [fivePadded, hlast]
  rw [if_pos hle, if_pos hlength]

/-- Two paths of one step each, with encodings that begin with `2` as on secp256k1, and with
encodings that lose a zero byte as on Ed25519. -/
theorem derivation_composes_five :
    Composes fivePoints (fun _ _ => List.replicate 64 1) [1] [2] (1 : ZMod 5) 2 ∧
    fivePadded.LeadingZero 2 ∧
    Composes fivePadded (fun _ _ => List.replicate 64 1) [1] [2] (1 : ZMod 5) 2 :=
  ⟨derivation_composes fivePoints_compressed (Or.inr fun a _ => fivePoints_no_leadingZero a) (by simp)
      (by simp) (by decide) (by decide +kernel), rfl,
    derivation_composes fivePadded_compressed (Or.inl fivePadded_padded) (by simp) (by simp)
      (by decide) (by decide +kernel)⟩

end TssCli
