import Mathlib.Data.List.AList
import Mathlib.Data.Countable.Basic
import Mathlib.Logic.Equiv.List

/-!
# The Rust the program is written in

The handlers of the manager and the protocol code of the clients stop by
panicking: on `unwrap`, on an out-of-bounds index, on a failed `assert!`, and,
in a build with overflow checks, on an arithmetic overflow.  A computation that
may panic is an `Except Panic`.  One that also draws UUIDs from `Uuid::new_v4`
is a `Rust`, whose state counts the UUIDs drawn so far.

A release build has no overflow checks and its `+` and `-` wrap, so the checked
operations take the build's setting as an argument.

JSON is a `Codec`: a text for each value and the reader that inverts it.
-/

namespace TssCli

/-! ## Panics -/

/-- The ways the program panics. -/
inductive Panic where
  /-- Arithmetic overflow, in a build with overflow checks. -/
  | overflow
  /-- `unwrap` of a `None`. -/
  | unwrapNone
  /-- `unwrap` or `expect` of an `Err`. -/
  | unwrapErr
  /-- An index past the end of a vector or slice. -/
  | outOfBounds
  /-- A failed `assert!` or `assert_eq!`. -/
  | assertFailed
  /-- A lock whose holder panicked. -/
  | poisoned
  /-- A poll that ran into its timeout. -/
  | pollTimeout
deriving DecidableEq, Repr

/-- A computation that may panic and draws UUIDs.  The state is the number of
UUIDs drawn. -/
abbrev Rust (α : Type) : Type := StateT Nat (Except Panic) α

theorem except_bind_ok {α β : Type} {x : Except Panic α} {f : α → Except Panic β} {b : β}
    (h : (x >>= f) = .ok b) : ∃ a, x = .ok a ∧ f a = .ok b := by
  cases x with
  | error e => cases h
  | ok a => exact ⟨a, rfl, h⟩

theorem Rust.bind_ok {α β : Type} {x : Rust α} {f : α → Rust β} {k k'' : Nat} {b : β}
    (h : (x >>= f).run k = .ok (b, k'')) :
    ∃ a k', x.run k = .ok (a, k') ∧ (f a).run k' = .ok (b, k'') := by
  rw [StateT.run_bind] at h
  obtain ⟨⟨a, k'⟩, hx, hf⟩ := except_bind_ok h
  exact ⟨a, k', hx, hf⟩

theorem Rust.lift_ok {α : Type} {x : Except Panic α} {k k' : Nat} {a : α}
    (h : (liftM x : Rust α).run k = .ok (a, k')) : x = .ok a ∧ k' = k := by
  cases x with
  | error e => cases h
  | ok b => cases h; exact ⟨rfl, rfl⟩

theorem except_ok_bind {α β : Type} (a : α) (f : α → Except Panic β) : (.ok a >>= f) = f a := rfl

theorem Rust.lift_ok_bind {α β : Type} (a : α) (f : α → Rust β) :
    ((liftM (.ok a : Except Panic α) : Rust α) >>= f) = f a := rfl

theorem Rust.run_bind_of_ok {α β : Type} {x : Rust α} {k k' : Nat} {a : α}
    (h : x.run k = .ok (a, k')) (f : α → Rust β) : (x >>= f).run k = (f a).run k' := by
  rw [StateT.run_bind, h]
  rfl

theorem Rust.pure_ok {α : Type} {a b : α} {k k' : Nat}
    (h : (pure a : Rust α).run k = .ok (b, k')) : b = a ∧ k' = k := by
  cases h; exact ⟨rfl, rfl⟩

/-- The computation does not panic when `k` UUIDs have been drawn. -/
def Rust.Succeeds {α : Type} (x : Rust α) (k : Nat) : Prop := ∃ a k', x.run k = .ok (a, k')

theorem Rust.succeeds_pure {α : Type} (a : α) (k : Nat) : (pure a : Rust α).Succeeds k :=
  ⟨a, k, rfl⟩

theorem Rust.succeeds_bind_of_run {α β : Type} {x : Rust α} {k k' : Nat} {a : α}
    (h : x.run k = .ok (a, k')) (f : α → Rust β) :
    (x >>= f).Succeeds k ↔ (f a).Succeeds k' := by
  rw [Rust.Succeeds, Rust.run_bind_of_ok h, Rust.Succeeds]

/-- What goes on after `x` and never panics leaves it to `x`. -/
theorem Rust.succeeds_bind_iff {α β : Type} {x : Rust α} {f : α → Rust β} {k : Nat}
    (hf : ∀ a k', x.run k = .ok (a, k') → (f a).Succeeds k') :
    (x >>= f).Succeeds k ↔ x.Succeeds k := by
  constructor
  · rintro ⟨b, k'', h⟩
    obtain ⟨a, k', hx, -⟩ := Rust.bind_ok h
    exact ⟨a, k', hx⟩
  · rintro ⟨a, k', hx⟩
    exact (Rust.succeeds_bind_of_run hx f).mpr (hf a k' hx)

theorem Rust.succeeds_lift_iff {α : Type} {x : Except Panic α} {k : Nat} :
    (liftM x : Rust α).Succeeds k ↔ ∃ a, x = .ok a := by
  constructor
  · rintro ⟨a, k', h⟩
    exact ⟨a, (Rust.lift_ok h).1⟩
  · rintro ⟨a, rfl⟩
    exact ⟨a, k, rfl⟩

instance exceptDecidableEq {ε α : Type} [DecidableEq ε] [DecidableEq α] :
    DecidableEq (Except ε α)
  | .ok a, .ok b => decidable_of_iff (a = b) (by simp)
  | .error a, .error b => decidable_of_iff (a = b) (by simp)
  | .ok _, .error _ => isFalse nofun
  | .error _, .ok _ => isFalse nofun

/-! ## Machine integers -/

/-- `a + b` on `u16`. -/
def addU16 (overflowChecks : Bool) (a b : UInt16) : Except Panic UInt16 :=
  if overflowChecks && decide (UInt16.size ≤ a.toNat + b.toNat) then .error .overflow
  else .ok (a + b)

/-- `a - b` on `u64`. -/
def subU64 (overflowChecks : Bool) (a b : UInt64) : Except Panic UInt64 :=
  if overflowChecks && decide (a.toNat < b.toNat) then .error .overflow
  else .ok (a - b)

/-- `u16::try_from(n).unwrap()` of a `usize`. -/
def u16TryFrom (n : Nat) : Except Panic UInt16 :=
  if n < UInt16.size then .ok (UInt16.ofNat n) else .error .unwrapErr

/-- The value of a digit string. -/
def digitsValue (digits : List Char) : Nat :=
  digits.foldl (fun acc c => 10 * acc + (c.toNat - '0'.toNat)) 0

/-- `s.parse::<u16>().unwrap()`: an optional `+`, then at least one digit. -/
def parseU16 (s : String) : Except Panic UInt16 :=
  let digits := if s.toList.head? = some '+' then s.toList.tail else s.toList
  if digits ≠ [] ∧ digits.all Char.isDigit = true ∧ digitsValue digits < UInt16.size then
    .ok (UInt16.ofNat (digitsValue digits))
  else .error .unwrapErr

theorem addU16_ok {c : Bool} {a b r : UInt16} (h : addU16 c a b = .ok r) : r = a + b := by
  unfold addU16 at h
  split at h
  · cases h
  · exact (Except.ok.inj h).symm

theorem addU16_iff {c : Bool} {a b : UInt16} :
    (∃ r, addU16 c a b = .ok r) ↔ (c = true → a.toNat + b.toNat < UInt16.size) := by
  unfold addU16
  split
  next h =>
    rw [Bool.and_eq_true, decide_eq_true_eq] at h
    exact ⟨fun ⟨_, hr⟩ => (nomatch hr), fun hlt => absurd (hlt h.1) (Nat.not_lt.mpr h.2)⟩
  next h =>
    rw [Bool.and_eq_true, decide_eq_true_eq, not_and, Nat.not_le] at h
    exact ⟨fun _ => h, fun _ => ⟨_, rfl⟩⟩

theorem u16TryFrom_ok {n : Nat} {r : UInt16} (h : u16TryFrom n = .ok r) :
    r = UInt16.ofNat n ∧ r.toNat = n := by
  unfold u16TryFrom at h
  split at h
  next hn =>
    obtain rfl := Except.ok.inj h
    exact ⟨rfl, UInt16.toNat_ofNat_of_lt' hn⟩
  next => cases h

theorem u16TryFrom_of_lt {n : Nat} (h : n < UInt16.size) :
    u16TryFrom n = .ok (UInt16.ofNat n) := by
  rw [u16TryFrom, if_pos h]

theorem subU64_of_le (c : Bool) {a b : UInt64} (h : b.toNat ≤ a.toNat) :
    subU64 c a b = .ok (a - b) := by
  rw [subU64, decide_eq_false (by omega), Bool.and_false]
  rfl

/-! ## Iterating over a collection -/

section

variable {α : Type} {f : α → Except Panic Bool} {p : α → Bool}

/-- `Iterator::all`, when it does not panic. -/
theorem allM_ok (hf : ∀ a b, f a = .ok b → b = p a) :
    ∀ {l : List α} {b : Bool}, l.allM f = .ok b → b = l.all p
  | [], b, h => (Except.ok.inj h).symm
  | a :: l, b, h => by
      rw [List.allM] at h
      obtain ⟨c, hc, h⟩ := except_bind_ok h
      obtain rfl := hf a c hc
      cases hp : p a with
      | true =>
          rw [hp] at h
          rw [allM_ok hf h, List.all_cons, hp, Bool.true_and]
      | false =>
          rw [hp] at h
          rw [← Except.ok.inj h, List.all_cons, hp, Bool.false_and]

/-- `Iterator::all` of a test that does not panic. -/
theorem allM_eq (hf : ∀ a, f a = .ok (p a)) : ∀ l : List α, l.allM f = .ok (l.all p)
  | [] => rfl
  | a :: l => by
      rw [List.allM, hf a, List.all_cons]
      cases hp : p a with
      | true => exact allM_eq hf l
      | false => rfl

theorem filterAuxM_ok (hf : ∀ a b, f a = .ok b → b = p a) :
    ∀ {l acc r : List α}, l.filterAuxM f acc = .ok r → r = (l.filter p).reverse ++ acc
  | [], acc, r, h => by
      rw [← Except.ok.inj h, List.filter_nil, List.reverse_nil, List.nil_append]
  | a :: l, acc, r, h => by
      rw [List.filterAuxM] at h
      obtain ⟨c, hc, h⟩ := except_bind_ok h
      obtain rfl := hf a c hc
      rw [filterAuxM_ok hf h]
      cases hp : p a <;> simp [hp]

/-- `Iterator::filter`, when it does not panic. -/
theorem filterM_ok (hf : ∀ a b, f a = .ok b → b = p a) {l r : List α}
    (h : l.filterM f = .ok r) : r = l.filter p := by
  rw [List.filterM] at h
  obtain ⟨r', hr', h⟩ := except_bind_ok h
  rw [← Except.ok.inj h, filterAuxM_ok hf hr', List.append_nil, List.reverse_reverse]

theorem filterAuxM_eq (hf : ∀ a, f a = .ok (p a)) :
    ∀ l acc : List α, l.filterAuxM f acc = .ok ((l.filter p).reverse ++ acc)
  | [], acc => rfl
  | a :: l, acc => by
      rw [List.filterAuxM, hf a]
      show l.filterAuxM f (cond (p a) (a :: acc) acc) = _
      rw [filterAuxM_eq hf l]
      cases hp : p a <;> simp [hp]

/-- `Iterator::filter` by a test that does not panic. -/
theorem filterM_eq (hf : ∀ a, f a = .ok (p a)) (l : List α) : l.filterM f = .ok (l.filter p) := by
  rw [List.filterM, filterAuxM_eq hf]
  show Except.ok ((l.filter p).reverse ++ []).reverse = _
  rw [List.append_nil, List.reverse_reverse]

end

/-! ## JSON -/

/-- The text `serde_json` writes for a value, and its reader. -/
structure Codec (α : Type) where
  /-- `serde_json::to_string`. -/
  encode : α → String
  /-- `serde_json::from_str`. -/
  decode : String → Option α
  /-- Reading what was written gives the value back. -/
  decode_encode : ∀ a, decode (encode a) = some a

attribute [simp] Codec.decode_encode

/-- `serde_json::from_str(s).unwrap()`. -/
def Codec.read {α : Type} (c : Codec α) (s : String) : Except Panic α :=
  match c.decode s with
  | some a => .ok a
  | none => .error .unwrapErr

theorem Codec.read_iff {α : Type} {c : Codec α} {s : String} :
    (∃ a, c.read s = .ok a) ↔ ∃ a, c.decode s = some a := by
  unfold Codec.read
  cases h : c.decode s with
  | none => exact ⟨fun ⟨_, hr⟩ => (nomatch hr), fun ⟨_, hd⟩ => (nomatch hd)⟩
  | some a => exact ⟨fun _ => ⟨a, rfl⟩, fun _ => ⟨a, rfl⟩⟩

@[simp] theorem Codec.read_encode {α : Type} (c : Codec α) (a : α) :
    c.read (c.encode a) = .ok a := by
  simp [Codec.read]

/-- The values of a countable type can be written as texts. -/
noncomputable def Codec.ofCountable (α : Type) [Countable α] : Codec α where
  encode a := String.ofList (List.replicate ((exists_injective_nat α).choose a) '0')
  decode s := Function.partialInv (exists_injective_nat α).choose s.toList.length
  decode_encode a := by
    rw [String.toList_ofList, List.length_replicate]
    exact Function.partialInv_left (exists_injective_nat α).choose_spec a

instance countableUInt16 : Countable UInt16 :=
  Function.Injective.countable fun _ _ h => UInt16.toNat_inj.mp h

instance countableUInt64 : Countable UInt64 :=
  Function.Injective.countable fun _ _ h => UInt64.toNat_inj.mp h

instance countableChar : Countable Char :=
  Function.Injective.countable fun _ _ h => Char.toNat_inj.mp h

instance countableString : Countable String :=
  Function.Injective.countable fun _ _ h => String.toList_inj.mp h

end TssCli
