import Mathlib.Data.List.Range
import Mathlib.Data.List.Nodup

/-!
# A supply of names that is shared

Several parts of a system draw names from one supply, given by a counter.  What one
part has drawn is a list of the counter's values, and a supply of its own: its
`j`-th name is the one at `f j`, where `f` is injective and follows the list.

`Drawn mine P issued` says that `P` holds of the part for every such `f`, when
`issued` names have been drawn in all, those of `mine` by the part.  So a run of the
part can be followed step by step, before it is known what it will draw next.
-/

namespace Supply

/-- Where no name is given twice, it is given at one place. -/
theorem eq_of_nodup {ℓ ν : Type} {f : ℓ → Option ν} {l : List ℓ} (h : (l.filterMap f).Nodup)
    {x y : ℓ} {a : ν} (hx : x ∈ l) (hy : y ∈ l) (hfx : f x = some a) (hfy : f y = some a) :
    x = y := by
  by_contra hne
  have hpair := List.pairwise_filterMap.mp h
  have : Std.Symm fun x y : ℓ => ∀ a, f x = some a → ∀ b, f y = some b → a ≠ b :=
    ⟨fun _ _ hab b hb a ha => (hab a ha b hb).symm⟩
  exact hpair.forall hx hy hne a hfx a hfy rfl

section

variable {P Q : (f : Nat → Nat) → Function.Injective f → Nat → Prop} {mine mine' : Nat → Prop}
  {issued issued' : Nat}

/-- The part has drawn some of the `issued` names, its own, and `P` holds however it
goes on. -/
def Drawn (mine : Nat → Prop) (P : (f : Nat → Nat) → Function.Injective f → Nat → Prop)
    (issued : Nat) : Prop :=
  ∃ drawn : List Nat, drawn.Nodup ∧ (∀ x ∈ drawn, x < issued ∧ mine x) ∧
    ∀ f hf, (∀ j x, drawn[j]? = some x → f j = x) → P f hf drawn.length

theorem Drawn.none (h : ∀ f hf, P f hf 0) : Drawn mine P issued :=
  ⟨[], .nil, by simp, fun f hf _ => h f hf⟩

/-- The part goes on without drawing a name. -/
theorem Drawn.stay (h : Drawn mine P issued) (hle : issued ≤ issued')
    (hmine : ∀ x, mine x → mine' x) (hstep : ∀ f hf n, P f hf n → Q f hf n) :
    Drawn mine' Q issued' := by
  obtain ⟨drawn, hnodup, hlt, h⟩ := h
  exact ⟨drawn, hnodup, fun x hx => ⟨(hlt x hx).1.trans_le hle, hmine x (hlt x hx).2⟩,
    fun f hf hj => hstep f hf _ (h f hf hj)⟩

/-- The part draws all the names from `issued` to `issued'`. -/
theorem Drawn.draw (h : Drawn mine P issued) (hle : issued ≤ issued')
    (hmine : ∀ x, mine x ∨ (issued ≤ x ∧ x < issued') → mine' x)
    (hstep : ∀ f hf n, P f hf n → (∀ i < issued' - issued, f (n + i) = issued + i) →
      Q f hf (n + (issued' - issued))) : Drawn mine' Q issued' := by
  obtain ⟨drawn, hnodup, hlt, h⟩ := h
  refine ⟨drawn ++ List.range' issued (issued' - issued), ?_, fun x hx => ?_, fun f hf hj => ?_⟩
  · refine List.Nodup.append hnodup List.nodup_range' fun x hx hx' => ?_
    have := (hlt x hx).1
    have := (List.mem_range'_1.mp hx').1
    omega
  · rcases List.mem_append.mp hx with hx | hx
    · exact ⟨(hlt x hx).1.trans_le hle, hmine x (Or.inl (hlt x hx).2)⟩
    · have hrange := List.mem_range'_1.mp hx
      have hx' : x < issued' := by omega
      exact ⟨hx', hmine x (Or.inr ⟨hrange.1, hx'⟩)⟩
  · rw [List.length_append, List.length_range']
    refine hstep f hf _ (h f hf fun j x hx => hj j x ?_) fun i hi => hj _ _ ?_
    · rw [List.getElem?_append_left (List.getElem?_eq_some_iff.mp hx).1]
      exact hx
    · rw [List.getElem?_append_right (Nat.le_add_right _ _), Nat.add_sub_cancel_left,
        List.getElem?_range' hi, Nat.one_mul]

/-- Some supply goes on after what has been drawn. -/
theorem Drawn.exists (h : Drawn mine P issued) :
    ∃ f hf n, P f hf n ∧ ∀ j < n, mine (f j) := by
  obtain ⟨drawn, hnodup, hlt, h⟩ := h
  let f : Nat → Nat := fun j => drawn[j]?.getD (issued + j)
  have inside : ∀ {j x}, drawn[j]? = some x → f j = x ∧ f j < issued := by
    intro j x hx
    have hfx : f j = x := by simp [f, hx]
    exact ⟨hfx, hfx ▸ (hlt x (List.mem_of_getElem? hx)).1⟩
  have beyond : ∀ {j}, drawn[j]? = Option.none → f j = issued + j := by
    intro j hj
    simp [f, hj]
  have hf : Function.Injective f := by
    intro i j hij
    cases hi : drawn[i]? with
    | none =>
        have := beyond hi
        cases hj : drawn[j]? with
        | none =>
            have := beyond hj
            omega
        | some y =>
            have := (inside hj).2
            omega
    | some x =>
        obtain ⟨hix, hlti⟩ := inside hi
        cases hj : drawn[j]? with
        | none =>
            have := beyond hj
            omega
        | some y =>
            obtain ⟨hiy, -⟩ := inside hj
            refine (List.getElem?_inj (List.getElem?_eq_some_iff.mp hi).1 hnodup).mp ?_
            rw [hi, hj, ← hix, ← hiy, hij]
  refine ⟨f, hf, _, h f hf fun j x hx => (inside hx).1, fun j hj => ?_⟩
  rw [(inside (List.getElem?_eq_getElem hj)).1]
  exact (hlt _ (List.getElem_mem hj)).2

end

end Supply
