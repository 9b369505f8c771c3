import Mathlib.Tactic.Abel
import TssCli.Protocols.Curve

/-!
# Derived keys

A path of indices leads from a public key to a child key.  Every step adds a
multiple of the generator, the left half of an HMAC under the chain code, and
the chain code goes on with the right half.  The sum of the left halves is the
tweak of the path: the child is the public key plus the tweak times the
generator (`getHdKey_child`).  `leftHalves` walks the path without the sum, and
`derived_key` says that the tweak is the sum over this walk.
-/

namespace TssCli

/-! ## The code -/

/-- HMAC-SHA512, from a key and a message. -/
abbrev Hmac : Type := List UInt8 → List UInt8 → List UInt8

section

variable {F G : Type} (curve : Curve F G) (hmac : Hmac)

/-- The two halves of the HMAC of a step, as scalars. -/
def hdHalves (chainCodeBi : Nat) (pubkey : G) (index : Int) : F × F :=
  let mask := 2 ^ 256 - 1
  let pubKeyBi := fromBytes (curve.pointBytes pubkey)
  let f := fromBytes (hmac (toBytes chainCodeBi) (toBytes pubKeyBi ++ toBytes index.natAbs))
  (curve.ofBigint (f >>> 256), curve.ofBigint (f &&& mask))

variable [AddCommGroup G] [SMul F G] [Add F]

/-- One round of the fold over the rest of the path. -/
def hdStep (acc : G × F × G) (index : Int) : G × F × G :=
  let f := hdHalves curve hmac (fromBytes (curve.pointBytes acc.2.2)) acc.1 index
  (acc.1 + f.1 • curve.generator, f.1 + acc.2.1, f.2 • acc.2.2)

/-- `hd_key`. -/
def hdKey (locationInHir : List Int) (pubkey : G) (chainCodeBi : Nat) :
    Except Panic (G × F × G) :=
  match locationInHir with
  | [] => .error .outOfBounds
  | first :: rest =>
      let f := hdHalves curve hmac chainCodeBi pubkey first
      match curve.pointFromBytes (toBytes chainCodeBi) with
      | none => .error .unwrapErr
      | some point =>
          .ok (rest.foldl (hdStep curve hmac)
            (pubkey + f.1 • curve.generator, f.1, f.2 • point))

/-- `char::is_whitespace`, the Unicode property `White_Space`. -/
def isWhitespace (c : Char) : Bool :=
  let n := c.toNat
  9 ≤ n ∧ n ≤ 13 ∨ n = 0x20 ∨ n = 0x85 ∨ n = 0xA0 ∨ n = 0x1680 ∨ 0x2000 ≤ n ∧ n ≤ 0x200A ∨
    n = 0x2028 ∨ n = 0x2029 ∨ n = 0x202F ∨ n = 0x205F ∨ n = 0x3000

/-- `s.trim()`. -/
def trim (s : List Char) : List Char :=
  ((s.dropWhile isWhitespace).reverse.dropWhile isWhitespace).reverse

/-- The indices of a path. -/
def pathVector (path : String) : Except Panic (List Int) :=
  (path.toList.splitOn '/').mapM fun s =>
    match fromDecimal (trim s) with
    | some index => .ok index
    | none => .error .unwrapErr

example : pathVector "0/ 1 2\u00A0/-3" = .ok [0, 12, -3] := by decide +kernel

/-- `get_hd_key`. -/
def getHdKey (ySum : G) (path : String) (chainCode : G) : Except Panic (G × F) := do
  let path ← pathVector path
  let child ← hdKey curve hmac path ySum (fromBytes (curve.pointBytes chainCode))
  return (child.1, child.2.1)

end

/-! ## Tweaks -/

section

variable {F G : Type} [Field F] [AddCommGroup G] [Module F G] {curve : Curve F G} {hmac : Hmac}

theorem hdStep_child {y : G} {acc : G × F × G} (h : acc.1 = y + acc.2.1 • curve.generator)
    (index : Int) :
    (hdStep curve hmac acc index).1 = y + (hdStep curve hmac acc index).2.1 • curve.generator := by
  simp only [hdStep, h, add_smul]
  abel

/-- Along the path the key is the first one plus the sum of the left halves. -/
theorem foldl_hdStep_child {y : G} : ∀ {path : List Int} {acc : G × F × G},
    acc.1 = y + acc.2.1 • curve.generator →
    (path.foldl (hdStep curve hmac) acc).1 =
      y + (path.foldl (hdStep curve hmac) acc).2.1 • curve.generator
  | [], _, h => h
  | index :: _, _, h => by
      rw [List.foldl_cons]
      exact foldl_hdStep_child (hdStep_child h index)

theorem hdKey_child {path : List Int} {y : G} {chainCodeBi : Nat} {out : G × F × G}
    (h : hdKey curve hmac path y chainCodeBi = .ok out) :
    out.1 = y + out.2.1 • curve.generator := by
  unfold hdKey at h
  split at h
  next => cases h
  next first rest =>
    simp only at h
    split at h
    next => cases h
    next point hpoint =>
      obtain rfl := Except.ok.inj h
      exact foldl_hdStep_child rfl

/-- The child key is the public key plus the tweak times the generator. -/
theorem getHdKey_child {y chainCode child : G} {path : String} {f : F}
    (h : getHdKey curve hmac y path chainCode = .ok (child, f)) :
    child = y + f • curve.generator := by
  obtain ⟨indices, _, h⟩ := except_bind_ok h
  obtain ⟨out, hout, h⟩ := except_bind_ok h
  obtain ⟨rfl, rfl⟩ := Prod.mk.inj (Except.ok.inj h)
  exact hdKey_child hout

/-! ## The left halves of a path -/

variable (curve hmac)

/-- The left half of the HMAC of a step. -/
def leftHalf (chainCodeBi : Nat) (pubkey : G) (index : Int) : Nat :=
  fromBytes (hmac (toBytes chainCodeBi)
    (toBytes (fromBytes (curve.pointBytes pubkey)) ++ toBytes index.natAbs)) >>> 256

/-- The left halves of all steps of a path, from a public key and a chain code
given as an integer and as a point. -/
def leftHalves : List Int → G → Nat → G → List Nat
  | [], _, _, _ => []
  | index :: rest, pubkey, chainCodeBi, chainCode =>
      let f := hdHalves curve hmac chainCodeBi pubkey index
      let next := f.2 • chainCode
      leftHalf curve hmac chainCodeBi pubkey index ::
        leftHalves rest (pubkey + f.1 • curve.generator) (fromBytes (curve.pointBytes next)) next

variable {curve hmac}

/-- The fold adds up the left halves. -/
theorem foldl_hdStep_tweak : ∀ (path : List Int) (acc : G × F × G),
    (path.foldl (hdStep curve hmac) acc).2.1 =
      acc.2.1 + ((leftHalves curve hmac path acc.1 (fromBytes (curve.pointBytes acc.2.2))
        acc.2.2).map curve.ofBigint).sum
  | [], acc => by simp [leftHalves]
  | index :: rest, acc => by
      have hstep : (hdStep curve hmac acc index).2.1 = curve.ofBigint (leftHalf curve hmac
          (fromBytes (curve.pointBytes acc.2.2)) acc.1 index) + acc.2.1 := rfl
      rw [List.foldl_cons, foldl_hdStep_tweak rest, leftHalves, List.map_cons, List.sum_cons, hstep,
        add_comm _ acc.2.1, add_assoc]
      rfl

theorem hdKey_tweak {path : List Int} {y : G} {chainCodeBi : Nat} {out : G × F × G}
    (h : hdKey curve hmac path y chainCodeBi = .ok out) :
    ∃ chainCode, curve.pointFromBytes (toBytes chainCodeBi) = some chainCode ∧
      out.2.1 = ((leftHalves curve hmac path y chainCodeBi chainCode).map curve.ofBigint).sum := by
  unfold hdKey at h
  split at h
  next => cases h
  next first rest =>
    simp only at h
    split at h
    next => cases h
    next chainCode hpoint =>
      obtain rfl := Except.ok.inj h
      refine ⟨chainCode, hpoint, ?_⟩
      rw [foldl_hdStep_tweak, leftHalves, List.map_cons, List.sum_cons]
      rfl

/-- A derived key is the public key plus the tweak times the generator, and the
tweak is the sum of the left halves of all steps.  So the secret of the child is
that of the public key plus the tweak. -/
theorem derived_key {y chainCode child : G} {path : String} {f : F}
    (h : getHdKey curve hmac y path chainCode = .ok (child, f)) :
    child = y + f • curve.generator ∧
    (∃ indices point, pathVector path = .ok indices ∧
      curve.pointFromBytes (toBytes (fromBytes (curve.pointBytes chainCode))) = some point ∧
      f = ((leftHalves curve hmac indices y (fromBytes (curve.pointBytes chainCode))
        point).map curve.ofBigint).sum) ∧
    ∀ x : F, y = x • curve.generator → child = (x + f) • curve.generator := by
  have hchild := getHdKey_child h
  refine ⟨hchild, ?_, fun x hx => ?_⟩
  · obtain ⟨indices, hpath, h⟩ := except_bind_ok h
    obtain ⟨out, hout, h⟩ := except_bind_ok h
    obtain ⟨-, rfl⟩ := Prod.mk.inj (Except.ok.inj h)
    obtain ⟨point, hpoint, hsum⟩ := hdKey_tweak hout
    exact ⟨indices, point, hpath, hpoint, hsum⟩
  · rw [hchild, hx, add_smul]

/-- A path of three steps over the field of five elements, with an HMAC that
repeats one byte. -/
theorem derived_key_three :
    getHdKey (additiveCurve 5) (fun _ _ => List.replicate 64 1) (1 : ZMod 5) "1/2/3" 2 =
      .ok (2, 1) ∧
    (2 : ZMod 5) = (1 + 1 : ZMod 5) • (additiveCurve 5).generator := by
  have h : getHdKey (additiveCurve 5) (fun _ _ => List.replicate 64 1) (1 : ZMod 5) "1/2/3" 2 =
      .ok (2, 1) := by decide +kernel
  exact ⟨h, (derived_key h).2.2 1 (by decide)⟩

end

/-- The additive group has a key at every path of one step. -/
theorem getHdKey_additive {p : Nat} [Fact p.Prime] (hmac : Hmac) (y chainCode : ZMod p) :
    ∃ child f, getHdKey (additiveCurve p) hmac y "1" chainCode = .ok (child, f) := by
  have hpath : pathVector "1" = .ok [1] := by decide
  have hbytes : ∀ x : ZMod p, (additiveCurve p).pointFromBytes
      (toBytes (fromBytes ((additiveCurve p).pointBytes x))) = some ↑(fromBytes (toBytes x.val)) := by
    intro x
    rw [toBytes_fromBytes]
    · rfl
    · exact List.cons_ne_nil _ _
    · show some (2 : UInt8) ≠ some 0
      decide
  simp only [getHdKey, hpath, except_ok_bind, hdKey, hbytes]
  exact ⟨_, _, rfl⟩

end TssCli
