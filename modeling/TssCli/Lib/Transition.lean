/-!
# Runs of a labelled transition system

A run is a sequence of labelled steps from an initial state.  Its trace lists
the labels, newest first.  `Run.invariant` is the induction every safety
property goes by: the property holds at the start, and a step from a state that
a run reaches keeps it.
-/

namespace Transition

variable {σ ℓ : Type}

/-- A run with its trace, newest label first. -/
inductive Run (init : σ → Prop) (step : σ → ℓ → σ → Prop) : σ → List ℓ → Prop where
  | start {s : σ} : init s → Run init step s []
  | snoc {s s' : σ} {l : ℓ} {tr : List ℓ} :
      Run init step s tr → step s l s' → Run init step s' (l :: tr)

variable {init : σ → Prop} {step : σ → ℓ → σ → Prop}

/-- A step of a run comes after the run of the steps before it. -/
theorem Run.split {earlier : List ℓ} {l : ℓ} : ∀ {later : List ℓ} {s : σ},
    Run init step s (later ++ l :: earlier) → ∃ s₀ s₁, Run init step s₀ earlier ∧ step s₀ l s₁
  | [], _, .snoc hrun hs => ⟨_, _, hrun, hs⟩
  | _ :: _, _, .snoc hrun _ => Run.split hrun

/-- A run is a run of its first steps and one of the others from where they end. -/
theorem Run.splitAt {earlier : List ℓ} : ∀ {later : List ℓ} {s : σ},
    Run init step s (later ++ earlier) →
    ∃ s₀, Run init step s₀ earlier ∧ Run (fun s => s = s₀) step s later
  | [], s, hrun => ⟨s, hrun, .start rfl⟩
  | _ :: _, _, .snoc hrun hs => by
      obtain ⟨s₀, hearlier, hlater⟩ := Run.splitAt hrun
      exact ⟨s₀, hearlier, hlater.snoc hs⟩

/-- A run goes on as a run from where it ends. -/
theorem Run.append {s : σ} {earlier : List ℓ} (h : Run init step s earlier) :
    ∀ {later : List ℓ} {s' : σ}, Run (fun s' => s' = s) step s' later →
      Run init step s' (later ++ earlier)
  | [], _, .start rfl => h
  | _ :: _, _, .snoc hrun hs => (h.append hrun).snoc hs

/-- Where labels determine steps, the trace of a run determines where it ends. -/
theorem Run.functional (hinit : ∀ s s', init s → init s' → s = s')
    (hstep : ∀ s l s₁ s₂, step s l s₁ → step s l s₂ → s₁ = s₂) :
    ∀ {tr : List ℓ} {s s' : σ}, Run init step s tr → Run init step s' tr → s = s'
  | [], _, _, .start h, .start h' => hinit _ _ h h'
  | _ :: _, _, _, .snoc hrun hs, .snoc hrun' hs' => by
      obtain rfl := Run.functional hinit hstep hrun hrun'
      exact hstep _ _ _ _ hs hs'

/-- What holds at the start and is kept by every step of a run holds of the run. -/
theorem Run.invariant (I : σ → List ℓ → Prop) (hstart : ∀ s, init s → I s [])
    (hstep : ∀ s l s' tr, Run init step s tr → I s tr → step s l s' → I s' (l :: tr))
    {s : σ} {tr : List ℓ} (h : Run init step s tr) : I s tr := by
  induction h with
  | start h0 => exact hstart _ h0
  | snoc hrun hs ih => exact hstep _ _ _ _ hrun ih hs

/-- The same under a condition that every label of the run meets. -/
theorem Run.invariant_of (I : σ → List ℓ → Prop) (ok : ℓ → Prop)
    (hstart : ∀ s, init s → I s [])
    (hstep : ∀ s l s' tr, Run init step s tr → I s tr → ok l → step s l s' → I s' (l :: tr))
    {s : σ} {tr : List ℓ} (h : Run init step s tr) (hok : ∀ l ∈ tr, ok l) : I s tr := by
  induction h with
  | start h0 => exact hstart _ h0
  | snoc hrun hs ih =>
      have hprev := ih fun l hl => hok l (List.mem_cons_of_mem _ hl)
      exact hstep _ _ _ _ hrun hprev (hok _ (List.mem_cons_self ..)) hs

end Transition
