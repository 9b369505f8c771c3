import Mathlib.Algebra.Order.BigOperators.Group.Finset
import Mathlib.Data.Fintype.Basic
import Mathlib.Logic.Function.Basic

/-!
# Scripts over a mailbox

A script is the program of one party among several that talk through a shared
map from keys to values: it posts a value under a key, awaits the value under a
key, fails, or returns.

A script on its own is followed in two ways.  `Executes` runs it on a given list
of operations, whatever the awaited values are.  `Tracks` runs it against an
oracle `mail` that says what is posted under each key: the script posts only
what the oracle says, and returns or fails with an excuse.  A script that tracks
the oracle and executes operations that agree with it returns what it returns on
its track (`Tracks.executes`).

Keys have a rank, and on its track a script posts only above the ranks it has
awaited so far.  This is what rules out deadlock when many scripts run together.
-/

namespace Mailbox

/-! ## Scripts -/

/-- The program of one party. -/
inductive Script (κ ν ε α : Type) : Type where
  | ret (a : α)
  | fail (e : ε)
  | post (k : κ) (v : ν) (next : Script κ ν ε α)
  | await (k : κ) (next : ν → Script κ ν ε α)

namespace Script

variable {κ ν ε α β γ σ : Type}

/-- Run one script after another. -/
def bind : Script κ ν ε α → (α → Script κ ν ε β) → Script κ ν ε β
  | ret a, f => f a
  | fail e, _ => fail e
  | post k v next, f => post k v (next.bind f)
  | await k next, f => await k fun v => (next v).bind f

instance : Monad (Script κ ν ε) where
  pure := ret
  bind := bind

/-- A computation without messages. -/
def ofExcept : Except ε α → Script κ ν ε α
  | .ok a => ret a
  | .error e => fail e

instance : MonadLift (Except ε) (Script κ ν ε) where
  monadLift := ofExcept

theorem bind_ret : ∀ s : Script κ ν ε α, s.bind ret = s
  | ret _ => rfl
  | fail _ => rfl
  | post k v next => congrArg (post k v) (bind_ret next)
  | await k next => congrArg (await k) (funext fun v => bind_ret (next v))

theorem bind_assoc (f : α → Script κ ν ε β) (g : β → Script κ ν ε γ) :
    ∀ s : Script κ ν ε α, (s.bind f).bind g = s.bind fun a => (f a).bind g
  | ret _ => rfl
  | fail _ => rfl
  | post k v next => congrArg (post k v) (bind_assoc f g next)
  | await k next => congrArg (await k) (funext fun v => bind_assoc f g (next v))

instance : LawfulMonad (Script κ ν ε) :=
  LawfulMonad.mk' _ bind_ret (fun _ _ => rfl) fun s f g => bind_assoc f g s

@[simp] theorem lift_ok (a : α) : (liftM (.ok a : Except ε α) : Script κ ν ε α) = pure a := rfl

@[simp] theorem lift_error (e : ε) :
    (liftM (.error e : Except ε α) : Script κ ν ε α) = fail e := rfl

/-! ## One script on given operations -/

/-- An operation of a party on the mailbox. -/
inductive Op (κ ν : Type) where
  | posted (k : κ) (v : ν)
  | got (k : κ) (v : ν)

/-- The script does the operations, in order, and returns. -/
inductive Executes : Script κ ν ε α → List (Op κ ν) → α → Prop where
  | ret {a : α} : Executes (ret a) [] a
  | post {k : κ} {v : ν} {next : Script κ ν ε α} {ops : List (Op κ ν)} {a : α} :
      Executes next ops a → Executes (post k v next) (.posted k v :: ops) a
  | await {k : κ} {v : ν} {next : ν → Script κ ν ε α} {ops : List (Op κ ν)} {a : α} :
      Executes (next v) ops a → Executes (await k next) (.got k v :: ops) a

/-- A script in sequence does the operations of the first, and then those of the
second. -/
theorem Executes.of_bind {f : α → Script κ ν ε β} {ops : List (Op κ ν)} {b : β} :
    ∀ {s : Script κ ν ε α}, Executes (s >>= f) ops b →
      ∃ ops₁ ops₂ a, ops = ops₁ ++ ops₂ ∧ Executes s ops₁ a ∧ Executes (f a) ops₂ b
  | .ret a, h => ⟨[], ops, a, rfl, .ret, h⟩
  | .fail _, h => nomatch h
  | .post k v next, .post h => by
      obtain ⟨ops₁, ops₂, a, rfl, h₁, h₂⟩ := of_bind (s := next) h
      exact ⟨.posted k v :: ops₁, ops₂, a, rfl, .post h₁, h₂⟩
  | .await k next, .await (v := v) h => by
      obtain ⟨ops₁, ops₂, a, rfl, h₁, h₂⟩ := of_bind (s := next v) h
      exact ⟨.got k v :: ops₁, ops₂, a, rfl, .await h₁, h₂⟩

/-- The reverse: one execution after another. -/
theorem Executes.bind {s : Script κ ν ε α} {f : α → Script κ ν ε β} {ops ops' : List (Op κ ν)}
    {a : α} {b : β} (h : Executes s ops a) (hf : Executes (f a) ops' b) :
    Executes (s >>= f) (ops ++ ops') b := by
  induction h with
  | ret => exact hf
  | post _ ih => exact .post (ih hf)
  | await _ ih => exact .await (ih hf)

theorem Executes.of_lift {x : Except ε α} {ops : List (Op κ ν)} {a : α}
    (h : Executes (liftM x : Script κ ν ε α) ops a) : x = .ok a ∧ ops = [] := by
  cases x with
  | error e => cases h
  | ok b => cases h; exact ⟨rfl, rfl⟩

theorem Executes.of_pure {a b : α} {ops : List (Op κ ν)}
    (h : Executes (pure a : Script κ ν ε α) ops b) : b = a ∧ ops = [] := by
  cases h
  exact ⟨rfl, rfl⟩

/-- Whatever the script gets is under a key of `P`. -/
def GetsOnly (P : κ → Prop) (s : Script κ ν ε α) : Prop :=
  ∀ (ops : List (Op κ ν)) (a : α), Executes s ops a → ∀ (k : κ) (v : ν), .got k v ∈ ops → P k

theorem GetsOnly.mono {P Q : κ → Prop} {s : Script κ ν ε α} (h : GetsOnly P s)
    (hPQ : ∀ k, P k → Q k) : GetsOnly Q s :=
  fun ops a hex k v hgot => hPQ k (h ops a hex k v hgot)

theorem GetsOnly.lift {P : κ → Prop} (x : Except ε α) :
    GetsOnly P (liftM x : Script κ ν ε α) := by
  intro ops a h k v hgot
  obtain ⟨_, rfl⟩ := h.of_lift
  cases hgot

theorem GetsOnly.post {P : κ → Prop} (k : κ) (v : ν) {next : Script κ ν ε α}
    (h : GetsOnly P next) : GetsOnly P (post k v next) := by
  intro ops a hex k' v' hgot
  cases hex with
  | post hex =>
      cases hgot with
      | tail _ hgot => exact h _ _ hex _ _ hgot

theorem GetsOnly.pure {P : κ → Prop} (a : α) : GetsOnly P (pure a : Script κ ν ε α) := .lift (.ok a)

theorem GetsOnly.bind {P : κ → Prop} {s : Script κ ν ε α} {f : α → Script κ ν ε β}
    (h : GetsOnly P s) (hf : ∀ a, GetsOnly P (f a)) : GetsOnly P (s >>= f) := by
  intro ops b hex k v hgot
  obtain ⟨ops₁, ops₂, a, rfl, hex₁, hex₂⟩ := hex.of_bind
  rcases List.mem_append.mp hgot with hgot | hgot
  · exact h _ _ hex₁ _ _ hgot
  · exact hf a _ _ hex₂ _ _ hgot

theorem GetsOnly.foldlM {P : κ → Prop} {step : σ → β → Script κ ν ε σ}
    (h : ∀ x b, GetsOnly P (step x b)) :
    ∀ (l : List β) (x : σ), GetsOnly P (l.foldlM step x)
  | [], x => .pure x
  | b :: l, x => by
      rw [List.foldlM_cons]
      exact (h x b).bind fun x' => GetsOnly.foldlM h l x'

/-- `ops'` is left of `ops` after operations that get only under keys of `P`. -/
def Leaves (P : κ → Prop) (ops ops' : List (Op κ ν)) : Prop :=
  ∃ ops₁, ops = ops₁ ++ ops' ∧ ∀ (k : κ) (v : ν), .got k v ∈ ops₁ → P k

theorem Leaves.trans {P : κ → Prop} {ops ops' ops'' : List (Op κ ν)} (h : Leaves P ops ops')
    (h' : Leaves P ops' ops'') : Leaves P ops ops'' := by
  obtain ⟨ops₁, rfl, h₁⟩ := h
  obtain ⟨ops₂, rfl, h₂⟩ := h'
  refine ⟨ops₁ ++ ops₂, (List.append_assoc ..).symm, fun k v hgot => ?_⟩
  exact (List.mem_append.mp hgot).elim (h₁ k v) (h₂ k v)

/-- What is got under another key is got by what is left. -/
theorem Leaves.got_mem {P : κ → Prop} {ops ops' : List (Op κ ν)} {k : κ} {v : ν}
    (h : Leaves P ops ops') (hk : ¬ P k) (hgot : .got k v ∈ ops) : .got k v ∈ ops' := by
  obtain ⟨ops₁, rfl, h₁⟩ := h
  exact (List.mem_append.mp hgot).resolve_left fun hgot => hk (h₁ k v hgot)

theorem Leaves.subset {P : κ → Prop} {ops ops' : List (Op κ ν)} (h : Leaves P ops ops') :
    ops' ⊆ ops := by
  obtain ⟨ops₁, rfl, _⟩ := h
  exact List.subset_append_right ..

theorem GetsOnly.of_bind {P : κ → Prop} {s : Script κ ν ε α} {f : α → Script κ ν ε β}
    {ops : List (Op κ ν)} {b : β} (hs : GetsOnly P s) (h : Executes (s >>= f) ops b) :
    ∃ ops₁ ops₂ a, Executes s ops₁ a ∧ Leaves P ops ops₂ ∧ Executes (f a) ops₂ b := by
  obtain ⟨ops₁, ops₂, a, rfl, h₁, h₂⟩ := h.of_bind
  exact ⟨ops₁, ops₂, a, h₁, ⟨ops₁, rfl, hs ops₁ a h₁⟩, h₂⟩

/-! ## One script against an oracle -/

section

variable (mail : κ → Option ν) (rank : κ → Nat) (excused : ε → Prop)

/-- Against the oracle the script returns `a`, or fails with an excuse.  What it
posts is what the oracle says, at ranks above `r` and above the ranks awaited
before; `r'` bounds all ranks awaited. -/
inductive Tracks : Nat → Script κ ν ε α → Nat → α → Prop where
  | ret {r r' : Nat} {a : α} : r ≤ r' → Tracks r (ret a) r' a
  | fail {r r' : Nat} {e : ε} {a : α} : excused e → Tracks r (fail e) r' a
  | post {r r' : Nat} {k : κ} {v : ν} {next : Script κ ν ε α} {a : α} :
      mail k = some v → r < rank k → Tracks r next r' a → Tracks r (post k v next) r' a
  | await {r r' : Nat} {k : κ} {v : ν} {next : ν → Script κ ν ε α} {a : α} :
      mail k = some v → Tracks (max r (rank k)) (next v) r' a → Tracks r (await k next) r' a

/-- The number of posts and awaits on the track. -/
def depth : Script κ ν ε α → Nat
  | ret _ => 0
  | fail _ => 0
  | post _ _ next => next.depth + 1
  | await k next =>
      match mail k with
      | some v => (next v).depth + 1
      | none => 0

/-- On its track the script posts under `k`. -/
inductive Posts : Script κ ν ε α → κ → Prop where
  | here {k : κ} {v : ν} {next : Script κ ν ε α} : Posts (post k v next) k
  | post {k k' : κ} {v : ν} {next : Script κ ν ε α} : Posts next k → Posts (post k' v next) k
  | await {k k' : κ} {v : ν} {next : ν → Script κ ν ε α} :
      mail k' = some v → Posts (next v) k → Posts (await k' next) k

/-- On its track the script awaits `k`. -/
inductive Awaits : Script κ ν ε α → κ → Prop where
  | here {k : κ} {next : ν → Script κ ν ε α} : Awaits (await k next) k
  | post {k k' : κ} {v : ν} {next : Script κ ν ε α} : Awaits next k → Awaits (post k' v next) k
  | await {k k' : κ} {v : ν} {next : ν → Script κ ν ε α} :
      mail k' = some v → Awaits (next v) k → Awaits (await k' next) k

end

section

variable {mail : κ → Option ν} {rank : κ → Nat} {excused : ε → Prop} {s : Script κ ν ε α}
  {f : α → Script κ ν ε β} {r r' r'' : Nat} {a : α} {b : β} {k : κ}

/-- A track is one after fewer awaits, too. -/
theorem Tracks.lower (h : Tracks mail rank excused r s r' a) : ∀ {r₀ : Nat}, r₀ ≤ r →
    Tracks mail rank excused r₀ s r' a := by
  induction h with
  | ret hle => exact fun h₀ => .ret (Nat.le_trans h₀ hle)
  | fail he => exact fun _ => .fail he
  | post hk hr _ ih => exact fun h₀ => .post hk (Nat.lt_of_le_of_lt h₀ hr) (ih h₀)
  | await hk _ ih => exact fun h₀ => .await hk (ih (max_le_max_right _ h₀))

/-- More is excused. -/
theorem Tracks.excuse {excused' : ε → Prop} (he : ∀ e, excused e → excused' e)
    (h : Tracks mail rank excused r s r' a) : Tracks mail rank excused' r s r' a := by
  induction h with
  | ret hle => exact .ret hle
  | fail h => exact .fail (he _ h)
  | post hk hr _ ih => exact .post hk hr ih
  | await hk _ ih => exact .await hk ih

theorem Tracks.bind (h : Tracks mail rank excused r s r' a)
    (hf : Tracks mail rank excused r' (f a) r'' b) :
    Tracks mail rank excused r (s >>= f) r'' b := by
  induction h with
  | ret hle => exact hf.lower hle
  | fail he => exact .fail he
  | post hk hr _ ih => exact .post hk hr (ih hf)
  | await hk _ ih => exact .await hk (ih hf)

theorem Tracks.pure : Tracks mail rank excused r (pure a : Script κ ν ε α) r a := .ret le_rfl

/-- A computation that ends as on the track, or fails with an excuse. -/
theorem Tracks.lift {x : Except ε α} (h : x = .ok a ∨ ∃ e, x = .error e ∧ excused e) :
    Tracks mail rank excused r (liftM x : Script κ ν ε α) r a := by
  rcases h with rfl | ⟨e, rfl, he⟩
  · exact .pure
  · exact .fail he

/-- A loop whose rounds stay at one rank. -/
theorem Tracks.foldlM {step : σ → β → Script κ ν ε σ} (next : σ → β → σ) :
    ∀ {l : List β} {x : σ},
      (∀ b ∈ l, ∀ x, Tracks mail rank excused r (step x b) r (next x b)) →
      Tracks mail rank excused r (l.foldlM step x) r (l.foldl next x)
  | [], _, _ => .pure
  | b :: l, x, h => by
      rw [List.foldlM_cons]
      exact (h b (List.mem_cons_self ..) x).bind
        (Tracks.foldlM next fun b' hb' => h b' (List.mem_cons_of_mem _ hb'))

/-- A track without failures is executed on what the oracle says. -/
theorem Tracks.exists_executes (h : Tracks mail rank (fun _ => False) r s r' a) :
    ∃ ops, Executes s ops a ∧ ∀ k v, Op.got k v ∈ ops → mail k = some v := by
  induction h with
  | ret => exact ⟨[], .ret, by simp⟩
  | fail he => exact he.elim
  | post _ _ _ ih =>
      obtain ⟨ops, hex, hops⟩ := ih
      exact ⟨_, .post hex, by simpa using hops⟩
  | await hk _ ih =>
      obtain ⟨ops, hex, hops⟩ := ih
      refine ⟨_, .await hex, fun k v hv => ?_⟩
      rcases List.mem_cons.mp hv with he | hv
      · obtain ⟨rfl, rfl⟩ := Op.got.inj he
        exact hk
      · exact hops k v hv

theorem Tracks.ret_eq {b : α}
    (h : Tracks mail rank excused r (Script.ret b : Script κ ν ε α) r' a) : b = a := by
  cases h with | ret => rfl

theorem Tracks.fail_excused {e : ε}
    (h : Tracks mail rank excused r (Script.fail e : Script κ ν ε α) r' a) : excused e := by
  cases h with | fail he => exact he

/-- What is posted is what the oracle says, above the ranks awaited before. -/
theorem Tracks.posts (h : Tracks mail rank excused r s r' a) (hp : Posts mail s k) :
    r < rank k ∧ (mail k).isSome = true := by
  induction h with
  | ret => cases hp
  | fail => cases hp
  | post hk hr _ ih =>
      cases hp with
      | here => exact ⟨hr, by simp [hk]⟩
      | post hp => exact ih hp
  | await hk _ ih =>
      cases hp with
      | await hk' hp =>
          obtain rfl := Option.some.inj (hk.symm.trans hk')
          obtain ⟨hlt, hsome⟩ := ih hp
          exact ⟨Nat.lt_of_le_of_lt (Nat.le_max_left _ _) hlt, hsome⟩

/-- What a script still posts when it awaits `k` ranks above `k`. -/
theorem Tracks.posts_await {next : ν → Script κ ν ε α} {k' : κ}
    (h : Tracks mail rank excused r (Script.await k next) r' a)
    (hp : Posts mail (Script.await k next) k') :
    rank k < rank k' := by
  cases h with
  | await hk ht =>
      cases hp with
      | await hk' hp =>
          obtain rfl := Option.some.inj (hk.symm.trans hk')
          exact Nat.lt_of_le_of_lt (Nat.le_max_right _ _) (ht.posts hp).1

theorem Posts.bind_left (h : Posts mail s k) : Posts mail (s >>= f) k := by
  induction h with
  | here => exact .here
  | post _ ih => exact .post ih
  | await hk _ ih => exact .await hk ih

/-- What is awaited on a track, the oracle has. -/
theorem Tracks.awaits (h : Tracks mail rank excused r s r' a) (ha : Awaits mail s k) :
    (mail k).isSome = true := by
  induction h with
  | ret => cases ha
  | fail => cases ha
  | post _ _ _ ih =>
      cases ha with
      | post ha => exact ih ha
  | await hk _ ih =>
      cases ha with
      | here => simp [hk]
      | await hk' ha =>
          obtain rfl := Option.some.inj (hk.symm.trans hk')
          exact ih ha

theorem Posts.bind_right (hno : ∀ e, ¬ excused e) (h : Tracks mail rank excused r s r' a)
    (hf : Posts mail (f a) k) : Posts mail (s >>= f) k := by
  induction h with
  | ret => exact hf
  | fail he => exact absurd he (hno _)
  | post _ _ _ ih => exact .post (ih hf)
  | await hk _ ih => exact .await hk (ih hf)

/-- A loop posts what one of its rounds posts. -/
theorem Posts.foldlM {step : σ → β → Script κ ν ε σ} (next : σ → β → σ)
    (hno : ∀ e, ¬ excused e) {b : β} (hb : ∀ x, Posts mail (step x b) k) :
    ∀ {l : List β} {x : σ},
      (∀ b ∈ l, ∀ x, Tracks mail rank excused r (step x b) r (next x b)) → b ∈ l →
      Posts mail (l.foldlM step x) k
  | [], _, _, hmem => absurd hmem List.not_mem_nil
  | b' :: l, x, h, hmem => by
      rw [List.foldlM_cons]
      rcases List.mem_cons.mp hmem with rfl | hmem
      · exact (hb x).bind_left
      · exact Posts.bind_right hno (h b' (List.mem_cons_self ..) x)
          (Posts.foldlM next hno hb (fun b hb => h b (List.mem_cons_of_mem _ hb)) hmem)

end

/-! ## A part in a session -/

section

variable (mail : κ → Option ν) (rank : κ → Nat) (excused : ε → Prop) (owed : κ → Prop)

/-- The script tracks the oracle, and unless something is excused it posts what it
owes at the ranks it passes. -/
structure Plays (r : Nat) (s : Script κ ν ε α) (r' : Nat) (a : α) : Prop where
  tracks : Tracks mail rank excused r s r' a
  posts : (∀ e, ¬ excused e) → ∀ k, owed k → r < rank k → rank k ≤ r' → Posts mail s k

end

section

variable {mail : κ → Option ν} {rank : κ → Nat} {excused : ε → Prop} {owed : κ → Prop}
  {s : Script κ ν ε α} {f : α → Script κ ν ε β} {r r' r'' : Nat} {a : α} {b : β}

/-- Within one rank nothing is owed. -/
theorem Tracks.plays (h : Tracks mail rank excused r s r a) :
    Plays mail rank excused owed r s r a :=
  ⟨h, fun _ _ _ hlt hle => absurd hle (Nat.not_le.mpr hlt)⟩

theorem Plays.pure : Plays mail rank excused owed r (pure a : Script κ ν ε α) r a :=
  Tracks.pure.plays

theorem Plays.bind (h : Plays mail rank excused owed r s r' a)
    (hf : Plays mail rank excused owed r' (f a) r'' b) :
    Plays mail rank excused owed r (s >>= f) r'' b := by
  refine ⟨h.tracks.bind hf.tracks, fun hno k hk hlt hle => ?_⟩
  rcases Nat.lt_or_ge r' (rank k) with hgt | hge
  · exact Posts.bind_right hno h.tracks (hf.posts hno k hk hgt hle)
  · exact (h.posts hno k hk hlt hge).bind_left

/-- Two scripts that play their part together, and one after them. -/
theorem Plays.bind₂ {γ : Type} {c : γ} {g : β → Script κ ν ε γ}
    (h : Plays mail rank excused owed r (s >>= f) r' b)
    (hg : Plays mail rank excused owed r' (g b) r'' c) :
    Plays mail rank excused owed r (s >>= fun x => f x >>= g) r'' c := by
  exact LawfulMonad.bind_assoc s f g ▸ h.bind hg

end

end Script

/-! ## An oracle given by letters -/

section

variable {ℓ κ ν : Type}

/-- What is posted, when each letter goes under its address. -/
noncomputable def addressed (address : ℓ → κ) (content : ℓ → Option ν) (k : κ) : Option ν :=
  (Function.partialInv address k).bind content

/-- The rank of a key, by the letter that goes there. -/
noncomputable def rankOf (address : ℓ → κ) (rank : ℓ → Nat) (k : κ) : Nat :=
  ((Function.partialInv address k).map rank).getD 0

variable {address : ℓ → κ} {content : ℓ → Option ν}

theorem addressed_apply (hinj : Function.Injective address) (l : ℓ) :
    addressed address content (address l) = content l := by
  simp [addressed, Function.partialInv_left hinj]

theorem rankOf_apply (hinj : Function.Injective address) (rank : ℓ → Nat) (l : ℓ) :
    rankOf address rank (address l) = rank l := by
  simp [rankOf, Function.partialInv_left hinj]

/-- A key that holds mail is the address of a letter. -/
theorem addressed_some (hinj : Function.Injective address) {k : κ} {v : ν}
    (h : addressed address content k = some v) : ∃ l, k = address l ∧ content l = some v := by
  obtain ⟨l, hl, hc⟩ := Option.bind_eq_some_iff.mp h
  exact ⟨l, ((hinj.isPartialInv l k).mp hl).symm, hc⟩

end

end Mailbox
