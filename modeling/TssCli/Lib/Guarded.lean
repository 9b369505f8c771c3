import Mathlib.Data.Set.Insert
import TssCli.Lib.Net

/-!
# Guarded posts

What a party may post can depend on the keys it has handled before, that is posted
or got.  `Guarded may after A s` says that the script `s` of a party that has
handled the keys `A` posts only what it may, whatever it gets, and that `after`
holds of the keys it has handled when it returns.  A `Triple` is that from any keys
of which `before` holds, and its rules follow the script.

In every run a guarded script might post what it has posted (`may_of_posted`), and
what a party has handled was posted before, or written by other programs
(`handled_origin`).
-/

namespace Mailbox

open Transition

namespace Script

section

variable {κ ν ε α β σ : Type}

/-! ## Scripts -/

/-- From the keys handled so far the script posts only what it may, and `after`
holds of those handled when it returns. -/
inductive Guarded (may : Set κ → κ → Prop) (after : Set κ → Prop) :
    Set κ → Script κ ν ε α → Prop where
  | ret {A : Set κ} {a : α} : after A → Guarded may after A (ret a)
  | fail {A : Set κ} {e : ε} : Guarded may after A (fail e)
  | post {A : Set κ} {k : κ} {v : ν} {next : Script κ ν ε α} :
      may A k → Guarded may after (insert k A) next → Guarded may after A (post k v next)
  | await {A : Set κ} {k : κ} {next : ν → Script κ ν ε α} :
      (∀ v, Guarded may after (insert k A) (next v)) → Guarded may after A (await k next)

/-- From any keys of which `before` holds. -/
def Triple (may : Set κ → κ → Prop) (before : Set κ → Prop) (s : Script κ ν ε α)
    (after : Set κ → Prop) : Prop :=
  ∀ A, before A → Guarded may after A s

/-- What holds of some keys holds of more. -/
def Lasting (p : Set κ → Prop) : Prop := ∀ A B, A ⊆ B → p A → p B

variable {may : Set κ → κ → Prop} {A : Set κ} {s : Script κ ν ε α} {f : α → Script κ ν ε β}
  {before between after : Set κ → Prop}

theorem Guarded.weaken {after' : Set κ → Prop} (h : Guarded may after A s)
    (hafter : ∀ A, after A → after' A) : Guarded may after' A s := by
  induction h with
  | ret ha => exact .ret (hafter _ ha)
  | fail => exact .fail
  | post hk _ ih => exact .post hk ih
  | await _ ih => exact .await ih

/-- What has been handled stays handled. -/
theorem Guarded.grows (h : Guarded may after A s) :
    Guarded may (fun A' => after A' ∧ A ⊆ A') A s := by
  induction h with
  | ret ha => exact .ret ⟨ha, subset_rfl⟩
  | fail => exact .fail
  | post hk _ ih =>
      exact .post hk (ih.weaken fun A' h => ⟨h.1, (Set.subset_insert _ _).trans h.2⟩)
  | await _ ih =>
      exact .await fun v =>
        (ih v).weaken fun A' h => ⟨h.1, (Set.subset_insert _ _).trans h.2⟩

theorem Guarded.bind (h : Guarded may between A s)
    (hf : ∀ a A', between A' → Guarded may after A' (f a)) : Guarded may after A (s >>= f) := by
  induction h with
  | ret ha => exact hf _ _ ha
  | fail => exact .fail
  | post hk _ ih => exact .post hk ih
  | await _ ih => exact .await ih

/-! ## Rules -/

theorem Triple.pure {a : α} : Triple may before (pure a : Script κ ν ε α) before :=
  fun _ h => .ret h

theorem Triple.fail {e : ε} : Triple may before (fail e : Script κ ν ε α) after := fun _ _ => .fail

/-- A computation without messages. -/
theorem Triple.lift {x : Except ε α} : Triple may before (liftM x : Script κ ν ε α) before := by
  cases x with
  | error e => exact Triple.fail
  | ok a => exact Triple.pure

theorem Triple.bind (h : Triple may before s between) (hf : ∀ a, Triple may between (f a) after) :
    Triple may before (s >>= f) after :=
  fun A hA => (h A hA).bind fun a => hf a

/-- A computation without messages, and a script after it. -/
theorem Triple.lift_bind {x : Except ε α} (hf : ∀ a, Triple may before (f a) after) :
    Triple may before ((liftM x : Script κ ν ε α) >>= f) after :=
  Triple.lift.bind hf

/-- What lasts may be added on both sides. -/
theorem Triple.frame {p : Set κ → Prop} (h : Triple may before s after) (hp : Lasting p) :
    Triple may (fun A => before A ∧ p A) s (fun A => after A ∧ p A) :=
  fun A hA => (h A hA.1).grows.weaken fun A' h' => ⟨h'.1, hp A A' h'.2 hA.2⟩

/-- A loop whose rounds keep an assertion. -/
theorem Triple.foldlM {step : σ → β → Script κ ν ε σ} :
    ∀ {l : List β} {x : σ}, (∀ b ∈ l, ∀ x, Triple may before (step x b) before) →
      Triple may before (l.foldlM step x) before
  | [], _, _ => Triple.pure
  | b :: l, x, h => by
      rw [List.foldlM_cons]
      exact (h b (List.mem_cons_self ..) x).bind fun x' =>
        Triple.foldlM fun b' hb' => h b' (List.mem_cons_of_mem _ hb')

theorem Triple.mapM {f : β → Script κ ν ε σ} :
    ∀ {l : List β}, (∀ b ∈ l, Triple may before (f b) before) → Triple may before (l.mapM f) before
  | [], _ => Triple.pure
  | b :: l, h => by
      rw [List.mapM_cons]
      refine (h b (List.mem_cons_self ..)).bind fun _ => ?_
      exact (Triple.mapM fun b' hb' => h b' (List.mem_cons_of_mem _ hb')).bind fun _ => Triple.pure

/-- A loop each of whose rounds brings about something that lasts. -/
theorem Triple.foldlM_each {step : σ → β → Script κ ν ε σ} {each : β → Set κ → Prop}
    (heach : ∀ b, Lasting (each b)) :
    ∀ {l : List β} {x : σ},
      (∀ b ∈ l, ∀ x, Triple may before (step x b) fun A => before A ∧ each b A) →
      Triple may before (l.foldlM step x) fun A => before A ∧ ∀ b ∈ l, each b A
  | [], _, _ => fun _ hA => .ret ⟨hA, by simp⟩
  | b :: l, x, h => by
      rw [List.foldlM_cons]
      refine (h b (List.mem_cons_self ..) x).bind fun x' A hA => ?_
      have htail := Triple.foldlM_each heach (x := x') fun b' hb' =>
        h b' (List.mem_cons_of_mem _ hb')
      exact (htail.frame (heach b) A hA).weaken fun A' h' =>
        ⟨h'.1.1, List.forall_mem_cons.mpr ⟨h'.2, h'.1.2⟩⟩

end

end Script

/-! ## Runs -/

section

variable {ι κ ν ε α : Type} {start net : Net ι κ ν ε α}
  {tr later earlier : List (NetEvent ι κ ν ε)} {i : ι} {k : κ} {v : ν}
  {may : ι → Set κ → κ → Prop} {after : ι → Set κ → Prop}

/-- The keys a party has posted or got. -/
def handled (tr : List (NetEvent ι κ ν ε)) (i : ι) : Set κ :=
  {k | ∃ v, .posted i k v ∈ tr ∨ .got i k v ∈ tr}

/-- Neither the other parties nor other programs change what a party has handled. -/
theorem handled_cons {e : NetEvent ι κ ν ε} (hposted : ∀ k v, e ≠ .posted i k v)
    (hgot : ∀ k v, e ≠ .got i k v) : handled (e :: tr) i = handled tr i := by
  ext k
  simp [handled, Ne.symm (hposted k _), Ne.symm (hgot k _)]

theorem handled_posted : handled (.posted i k v :: tr) i = insert k (handled tr i) := by
  ext k'
  simp only [handled, Set.mem_insert_iff, Set.mem_ofPred_eq, List.mem_cons, reduceCtorEq, false_or,
    NetEvent.posted.injEq, true_and]
  constructor
  · rintro ⟨v', (⟨rfl, -⟩ | h) | h⟩
    · exact Or.inl rfl
    · exact Or.inr ⟨v', Or.inl h⟩
    · exact Or.inr ⟨v', Or.inr h⟩
  · rintro (rfl | ⟨v', h | h⟩)
    · exact ⟨v, Or.inl (Or.inl ⟨rfl, rfl⟩)⟩
    · exact ⟨v', Or.inl (Or.inr h)⟩
    · exact ⟨v', Or.inr h⟩

theorem handled_got : handled (.got i k v :: tr) i = insert k (handled tr i) := by
  ext k'
  simp only [handled, Set.mem_insert_iff, Set.mem_ofPred_eq, List.mem_cons, reduceCtorEq, false_or,
    NetEvent.got.injEq, true_and]
  constructor
  · rintro ⟨v', h | ⟨rfl, -⟩ | h⟩
    · exact Or.inr ⟨v', Or.inl h⟩
    · exact Or.inl rfl
    · exact Or.inr ⟨v', Or.inr h⟩
  · rintro (rfl | ⟨v', h | h⟩)
    · exact ⟨v, Or.inr (Or.inl ⟨rfl, rfl⟩)⟩
    · exact ⟨v', Or.inl h⟩
    · exact ⟨v', Or.inr (Or.inr h)⟩

variable [DecidableEq ι] [DecidableEq κ]

/-- In every run the scripts that are left are guarded. -/
theorem guarded_run (h : ∀ i, (start.scripts i).Guarded (may i) (after i) ∅)
    (hrun : NetRun start net tr) :
    ∀ i, (net.scripts i).Guarded (may i) (after i) (handled tr i) := by
  refine Run.invariant
    (fun net tr => ∀ i, (net.scripts i).Guarded (may i) (after i) (handled tr i)) ?_ ?_ hrun
  · rintro net rfl i
    have hnone : handled ([] : List (NetEvent ι κ ν ε)) i = ∅ := by simp [handled]
    rw [hnone]
    exact h i
  · intro net e net' tr _ ih hs i
    have hi := ih i
    cases hs with
    | @posted j k v next hj =>
        by_cases hij : i = j
        · subst hij
          rw [hj] at hi
          cases hi with
          | post _ hnext => simpa [handled_posted] using hnext
        · rw [handled_cons (by simp [Ne.symm hij]) (by simp)]
          simpa [hij] using hi
    | @got j k v next hj _ =>
        by_cases hij : i = j
        · subst hij
          rw [hj] at hi
          cases hi with
          | await hnext => simpa [handled_got] using hnext v
        · rw [handled_cons (by simp) (by simp [Ne.symm hij])]
          simpa [hij] using hi
    | @gaveUp j k next e hj =>
        rw [handled_cons (by simp) (by simp)]
        by_cases hij : i = j
        · subst hij
          simpa using Script.Guarded.fail
        · simpa [hij] using hi
    | foreign =>
        rw [handled_cons (by simp) (by simp)]
        exact hi
    | expired =>
        rw [handled_cons (by simp) (by simp)]
        exact hi

/-- What was posted might be. -/
theorem may_of_posted (h : ∀ i, (start.scripts i).Guarded (may i) (after i) ∅)
    (hrun : NetRun start net (later ++ .posted i k v :: earlier)) : may i (handled earlier i) k := by
  obtain ⟨net₀, net₁, hearlier, hs⟩ := hrun.split
  have hi := guarded_run h hearlier i
  cases hs with
  | posted hscript =>
      rw [hscript] at hi
      cases hi with
      | post hmay _ => exact hmay

/-- What is in the mailbox was there at the start, or was posted or written. -/
theorem stored_origin (hrun : NetRun start net tr) (hv : net.store k = some v) :
    start.store k = some v ∨ (∃ i, .posted i k v ∈ tr) ∨ .foreign k v ∈ tr := by
  have := Run.invariant (fun net tr => ∀ k v, net.store k = some v →
    start.store k = some v ∨ (∃ i, .posted i k v ∈ tr) ∨ .foreign k v ∈ tr) ?_ ?_ hrun
  · exact this k v hv
  · rintro net rfl k v hv
    exact Or.inl hv
  · intro net e net' tr _ ih hs k v hv
    have old : net.store k = some v →
        start.store k = some v ∨ (∃ i, .posted i k v ∈ e :: tr) ∨ .foreign k v ∈ e :: tr := by
      intro hv
      rcases ih k v hv with h | ⟨i, h⟩ | h
      · exact Or.inl h
      · exact Or.inr (Or.inl ⟨i, List.mem_cons_of_mem _ h⟩)
      · exact Or.inr (Or.inr (List.mem_cons_of_mem _ h))
    cases hs with
    | @posted i k' v' next hi =>
        change Function.update net.store k' (some v') k = some v at hv
        by_cases hk : k = k'
        · rw [hk, Function.update_self] at hv
          rw [hk, Option.some.inj hv]
          exact Or.inr (Or.inl ⟨i, List.mem_cons_self ..⟩)
        · rw [Function.update_of_ne hk] at hv
          exact old hv
    | got _ _ => exact old hv
    | gaveUp _ => exact old hv
    | @foreign k' v' =>
        change Function.update net.store k' (some v') k = some v at hv
        by_cases hk : k = k'
        · rw [hk, Function.update_self] at hv
          rw [hk, Option.some.inj hv]
          exact Or.inr (Or.inr (List.mem_cons_self ..))
        · rw [Function.update_of_ne hk] at hv
          exact old hv
    | @expired k' =>
        change Function.update net.store k' none k = some v at hv
        by_cases hk : k = k'
        · rw [hk, Function.update_self] at hv
          cases hv
        · rw [Function.update_of_ne hk] at hv
          exact old hv

/-- What a party has handled was in the mailbox at the start, or was posted or
written. -/
theorem handled_origin (hrun : NetRun start net tr) (hk : k ∈ handled tr i) :
    ∃ v, start.store k = some v ∨ (∃ j, .posted j k v ∈ tr) ∨ .foreign k v ∈ tr := by
  obtain ⟨v, hposted | hgot⟩ := hk
  · exact ⟨v, Or.inr (Or.inl ⟨i, hposted⟩)⟩
  · obtain ⟨later, earlier, rfl⟩ := List.append_of_mem hgot
    obtain ⟨net₀, net₁, hearlier, hs⟩ := hrun.split
    have hsub : ∀ {e : NetEvent ι κ ν ε}, e ∈ earlier → e ∈ later ++ .got i k v :: earlier :=
      fun he => List.mem_append_right _ (List.mem_cons_of_mem _ he)
    cases hs with
    | got _ hv =>
        rcases stored_origin hearlier hv with h | ⟨j, h⟩ | h
        · exact ⟨v, Or.inl h⟩
        · exact ⟨v, Or.inr (Or.inl ⟨j, hsub h⟩)⟩
        · exact ⟨v, Or.inr (Or.inr (hsub h))⟩

end

end Mailbox
