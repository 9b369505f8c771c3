import TssCli.Lib.Retries

/-!
# Parties that arrive late

The parties of a net need not be there from the start.  Here some processes share a
mailbox, and each of them may arrive at one of the places of a net, if it is free, with
the script of that place.  From then on it moves as the party there.

Nobody can tell.  What the processes do in the mailbox is a run of the net over links
that fail, in which the parties that have not arrived have not moved yet (`Arrived`).
-/

namespace Mailbox

open Transition

section

variable {ι κ ν ε α π : Type}

/-- Who has arrived stands where the party of its place does, and the other parties
stand at the start. -/
structure Arrivals (start net : Net ι κ ν ε α) (store : κ → Option ν)
    (place : π → Option (ι × Script κ ν ε α)) : Prop where
  store : net.store = store
  here : ∀ p i s, place p = some (i, s) → net.scripts i = s
  apart : ∀ p q i s t, place p = some (i, s) → place q = some (i, t) → p = q
  absent : ∀ i, (∀ p s, place p ≠ some (i, s)) → net.scripts i = start.scripts i

variable {start net : Net ι κ ν ε α} {store store' : κ → Option ν}
  {place : π → Option (ι × Script κ ν ε α)} {p : π} {i : ι} {s t : Script κ ν ε α}

/-- Before anybody has arrived. -/
theorem Arrivals.none (hstore : start.store = store) (hplace : ∀ p, place p = none) :
    Arrivals start start store place where
  store := hstore
  here p i s hp := by
    rw [hplace] at hp
    cases hp
  apart p q i s t hp := by
    rw [hplace] at hp
    cases hp
  absent _ _ := rfl

/-- The mailbox changes on both sides. -/
theorem Arrivals.rewrite (h : Arrivals start net store place) (store' : κ → Option ν) :
    Arrivals start { net with store := store' } store' place :=
  { h with store := rfl }

section

variable [DecidableEq π]

/-- A process arrives at a free place. -/
theorem Arrivals.arrives (h : Arrivals start net store place) (hp : place p = .none)
    (hfree : ∀ q s, place q ≠ some (i, s)) :
    Arrivals start net store (Function.update place p (some (i, start.scripts i))) where
  store := h.store
  here q j s hq := by
    by_cases hqp : q = p
    · subst hqp
      rw [Function.update_self] at hq
      cases hq
      exact h.absent i hfree
    · rw [Function.update_of_ne hqp] at hq
      exact h.here q j s hq
  apart q q' j s t hq hq' := by
    by_cases hqp : q = p <;> by_cases hqp' : q' = p
    · rw [hqp, hqp']
    · subst hqp
      rw [Function.update_self] at hq
      rw [Function.update_of_ne hqp'] at hq'
      cases hq
      exact absurd hq' (hfree q' t)
    · subst hqp'
      rw [Function.update_self] at hq'
      rw [Function.update_of_ne hqp] at hq
      cases hq'
      exact absurd hq (hfree q s)
    · rw [Function.update_of_ne hqp] at hq
      rw [Function.update_of_ne hqp'] at hq'
      exact h.apart q q' j s t hq hq'
  absent j hj := by
    refine h.absent j fun q s hq => ?_
    have hqp : q ≠ p := by
      rintro rfl
      rw [hp] at hq
      cases hq
    exact hj q s (by rw [Function.update_of_ne hqp, hq])

/-- A process that has arrived moves as the party of its place. -/
theorem Arrivals.moves [DecidableEq ι] (h : Arrivals start net store place)
    (hp : place p = some (i, s)) (t : Script κ ν ε α) :
    Arrivals start { net with scripts := Function.update net.scripts i t } store
      (Function.update place p (some (i, t))) where
  store := h.store
  here q j s' hq := by
    by_cases hqp : q = p
    · subst hqp
      rw [Function.update_self] at hq
      cases hq
      exact Function.update_self ..
    · rw [Function.update_of_ne hqp] at hq
      have hji : j ≠ i := by
        rintro rfl
        exact hqp (h.apart q p j s' s hq hp)
      exact (Function.update_of_ne hji _ _).trans (h.here q j s' hq)
  apart q q' j s₁ s₂ hq hq' := by
    have old : ∀ {q j s'}, Function.update place p (some (i, t)) q = some (j, s') →
        ∃ s', place q = some (j, s') := by
      intro q j s' hq
      by_cases hqp : q = p
      · subst hqp
        rw [Function.update_self] at hq
        cases hq
        exact ⟨s, hp⟩
      · rw [Function.update_of_ne hqp] at hq
        exact ⟨s', hq⟩
    obtain ⟨s₁', hq⟩ := old hq
    obtain ⟨s₂', hq'⟩ := old hq'
    exact h.apart q q' j s₁' s₂' hq hq'
  absent j hj := by
    have hji : j ≠ i := by
      rintro rfl
      exact hj p t (Function.update_self ..)
    refine (Function.update_of_ne hji _ _).trans (h.absent j fun q s' hq => ?_)
    have hqp : q ≠ p := by
      rintro rfl
      rw [hp] at hq
      cases hq
      exact hji rfl
    exact hj q s' (by rw [Function.update_of_ne hqp, hq])

end

/-! ## Runs -/

section

variable [DecidableEq ι] [DecidableEq κ] {tr : List (LinkEvent ι κ ν ε)}

/-- What the processes have done is a run of the net over links that fail. -/
def Arrived (start : Net ι κ ν ε α) (store : κ → Option ν)
    (place : π → Option (ι × Script κ ν ε α)) (tr : List (LinkEvent ι κ ν ε)) : Prop :=
  ∃ net, LinkRun start net tr ∧ Arrivals start net store place

theorem Arrived.none (hstore : start.store = store) (hplace : ∀ p, place p = .none) :
    Arrived start store place [] :=
  ⟨start, .start rfl, .none hstore hplace⟩

/-- Somebody else writes. -/
theorem Arrived.foreign (h : Arrived start store place tr) (k : κ) (v : ν) :
    Arrived start (Function.update store k (some v)) place (.step (.foreign k v) :: tr) := by
  obtain ⟨net, hrun, harr⟩ := h
  obtain rfl := harr.store
  exact ⟨_, hrun.snoc (.step .foreign), harr.rewrite _⟩

theorem Arrived.expired (h : Arrived start store place tr) (k : κ) :
    Arrived start (Function.update store k .none) place (.step (.expired k) :: tr) := by
  obtain ⟨net, hrun, harr⟩ := h
  obtain rfl := harr.store
  exact ⟨_, hrun.snoc (.step .expired), harr.rewrite _⟩

theorem Arrived.unheard (h : Arrived start store place tr) {k : κ} {v : ν}
    {next : Script κ ν ε α} (hp : place p = some (i, .post k v next)) :
    Arrived start (Function.update store k (some v)) place (.unheard i k v :: tr) := by
  obtain ⟨net, hrun, harr⟩ := h
  obtain rfl := harr.store
  exact ⟨_, hrun.snoc (.unheard (harr.here p i _ hp)), harr.rewrite _⟩

section

variable [DecidableEq π]

theorem Arrived.arrives (h : Arrived start store place tr) (hp : place p = .none)
    (hfree : ∀ q s, place q ≠ some (i, s)) :
    Arrived start store (Function.update place p (some (i, start.scripts i))) tr := by
  obtain ⟨net, hrun, harr⟩ := h
  exact ⟨net, hrun, harr.arrives hp hfree⟩

section

variable (h : Arrived start store place tr) {k : κ} {v : ν}

include h

theorem Arrived.posted {next : Script κ ν ε α} (hp : place p = some (i, .post k v next)) :
    Arrived start (Function.update store k (some v)) (Function.update place p (some (i, next)))
      (.step (.posted i k v) :: tr) := by
  obtain ⟨net, hrun, harr⟩ := h
  obtain rfl := harr.store
  exact ⟨_, hrun.snoc (.step (.posted (harr.here p i _ hp))), (harr.moves hp next).rewrite _⟩

theorem Arrived.got {next : ν → Script κ ν ε α} (hp : place p = some (i, .await k next))
    (hv : store k = some v) :
    Arrived start store (Function.update place p (some (i, next v))) (.step (.got i k v) :: tr) := by
  obtain ⟨net, hrun, harr⟩ := h
  obtain rfl := harr.store
  exact ⟨_, hrun.snoc (.step (.got (harr.here p i _ hp) hv)), harr.moves hp (next v)⟩

theorem Arrived.gaveUp {next : ν → Script κ ν ε α} (hp : place p = some (i, .await k next)) (e : ε) :
    Arrived start store (Function.update place p (some (i, .fail e)))
      (.step (.gaveUp i e) :: tr) := by
  obtain ⟨net, hrun, harr⟩ := h
  exact ⟨_, hrun.snoc (.step (.gaveUp (harr.here p i _ hp))), harr.moves hp (.fail e)⟩

theorem Arrived.broke (hp : place p = some (i, s)) (e : ε) :
    Arrived start store (Function.update place p (some (i, .fail e))) (.broke i e :: tr) := by
  obtain ⟨net, hrun, harr⟩ := h
  exact ⟨_, hrun.snoc .broke, harr.moves hp (.fail e)⟩

end

end

end

end

end Mailbox
