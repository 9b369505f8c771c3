import TssCli.Lib.Retries

/-!
# Runs that can still end

Over links that fail, too, every party stays on its track, and what it has not posted yet
it still posts, as long as nobody stops and nothing of the oracle expires
(`pending_linkRun`).  So from wherever such a run has come to, the parties can go on until
all have returned (`Pending.completes`).
-/

namespace Mailbox

open Transition

section

variable {ι κ ν ε α : Type} {mail : κ → Option ν} {rank : κ → Nat} {result : ι → α}
  {start net net' : Net ι κ ν ε α}

/-- Nobody stops, and under the keys of the oracle only the parties write, and nothing
expires. -/
def LinkEvent.Harmless (mail : κ → Option ν) : LinkEvent ι κ ν ε → Prop
  | .step (.foreign k _) => mail k = none
  | .step (.expired k) => mail k = none
  | .step (.gaveUp _ _) => False
  | .broke _ _ => False
  | _ => True

/-- A mailbox that has everything of the oracle that there was. -/
theorem Pending.rewrite (h : Pending mail start net)
    (hon : OnTrack mail rank (fun _ => False) result start) {store : κ → Option ν}
    (hstore : ∀ k, mail k ≠ none → net.store k ≠ none → store k ≠ none) :
    Pending mail start { net with store } where
  posts j k hp := by
    obtain ⟨r, r', ht⟩ := hon.scripts j
    exact (h.posts j k hp).imp_left (hstore k (Option.isSome_iff_ne_none.mp (ht.posts hp).2))
  awaits := h.awaits

section

variable [DecidableEq ι] [DecidableEq κ]

/-- A party that stops for good, or gives up, has failed in the end. -/
theorem LinkRun.failed {tr : List (LinkEvent ι κ ν ε)} (hrun : LinkRun start net tr) {i : ι} {e : ε}
    (h : .broke i e ∈ tr ∨ .step (.gaveUp i e) ∈ tr) : ∃ e, net.scripts i = .fail e := by
  refine Run.invariant (fun net tr => .broke i e ∈ tr ∨ .step (.gaveUp i e) ∈ tr →
    ∃ e, net.scripts i = .fail e) ?_ ?_ hrun h
  · rintro net - (h | h) <;> cases h
  · intro net l net' tr _ ih hs h
    have stays : ∀ {j : ι} {s : Script κ ν ε α},
        (∀ e, net.scripts j = .fail e → ∃ e, s = .fail e) →
        (∃ e, net.scripts i = .fail e) → ∃ e, Function.update net.scripts j s i = .fail e := by
      rintro j s hj ⟨e, hi⟩
      by_cases hij : i = j
      · subst hij
        rw [Function.update_self]
        exact hj e hi
      · rw [Function.update_of_ne hij]
        exact ⟨e, hi⟩
    cases hs with
    | @broke j e' =>
        by_cases hij : i = j
        · subst hij
          exact ⟨e', Function.update_self ..⟩
        · refine stays (fun e' _ => ⟨_, rfl⟩) (ih ?_)
          rcases h with h | h
          · rcases List.mem_cons.mp h with he | h
            · cases he
              exact absurd rfl hij
            · exact Or.inl h
          · exact Or.inr (List.mem_of_ne_of_mem (by simp) h)
    | unheard =>
        exact ih (h.imp (List.mem_of_ne_of_mem (by simp)) (List.mem_of_ne_of_mem (by simp)))
    | step hs =>
        have old : ∀ {e' : NetEvent ι κ ν ε}, e' ≠ .gaveUp i e →
            (.broke i e ∈ LinkEvent.step e' :: tr ∨ .step (.gaveUp i e) ∈ LinkEvent.step e' :: tr) →
            .broke i e ∈ tr ∨ .step (.gaveUp i e) ∈ tr := fun hne h =>
          h.imp (List.mem_of_ne_of_mem (by simp))
            (List.mem_of_ne_of_mem fun he => hne (LinkEvent.step.inj he).symm)
        cases hs with
        | posted hj => exact stays (fun e he => by rw [hj] at he; cases he) (ih (old (by simp) h))
        | got hj hv => exact stays (fun e he => by rw [hj] at he; cases he) (ih (old (by simp) h))
        | @gaveUp j k next e' hj =>
            by_cases hij : i = j
            · subst hij
              exact ⟨e', Function.update_self ..⟩
            · refine stays (fun e' _ => ⟨_, rfl⟩) (ih (old (fun he => ?_) h))
              cases he
              exact hij rfl
        | foreign => exact ih (old (by simp) h)
        | expired => exact ih (old (by simp) h)

/-- A party that goes on is on its track, and still posts what it has to. -/
theorem Pending.move {e : NetEvent ι κ ν ε} (h : Pending mail start net)
    (hon : OnTrack mail rank (fun _ => False) result net) (hm : e.IsMove)
    (hs : NetStep net e net') :
    OnTrack mail rank (fun _ => False) result net' ∧ Pending mail start net' := by
  refine ⟨hon.step ?_ hs, h.step hon hm hs⟩
  cases e with
  | posted => trivial
  | got => trivial
  | gaveUp => exact hm.elim
  | foreign => exact hm.elim
  | expired => exact hm.elim

/-- A step over the links keeps the parties on their tracks, and what is to come. -/
theorem LinkStep.pending {l : LinkEvent ι κ ν ε}
    (hstart : OnTrack mail rank (fun _ => False) result start)
    (hon : OnTrack mail rank (fun _ => False) result net) (h : Pending mail start net)
    (hl : l.Harmless mail) (hs : LinkStep net l net') :
    OnTrack mail rank (fun _ => False) result net' ∧ Pending mail start net' := by
  have stays : ∀ {k k' : κ} {v : ν}, net.store k ≠ none →
      Function.update net.store k' (some v) k ≠ none := by
    intro k k' v hk
    by_cases hkk : k = k'
    · rw [hkk, Function.update_self]
      exact Option.some_ne_none v
    · rwa [Function.update_of_ne hkk]
  cases hs with
  | broke => exact hl.elim
  | @unheard i k v next hi =>
      -- The post is handled, so the mailbox is as after the party has gone on.
      have hmoved := hon.step (e := .posted i k v) trivial (.posted hi)
      exact ⟨⟨hon.scripts, hmoved.store⟩, h.rewrite hstart fun _ _ hk => stays hk⟩
  | step hs =>
      cases hs with
      | @posted i k v _ hi => exact h.move (e := .posted i k v) hon trivial (.posted hi)
      | @got i k v _ hi hv => exact h.move (e := .got i k v) hon trivial (.got hi hv)
      | gaveUp => exact hl.elim
      | @foreign k v =>
          exact ⟨hon.step (e := .foreign k v) hl .foreign, h.rewrite hstart fun _ _ hk => stays hk⟩
      | @expired k =>
          refine ⟨hon.step (e := .expired k) trivial .expired, h.rewrite hstart fun k' hm hk => ?_⟩
          have hkk : k' ≠ k := by
            rintro rfl
            exact hm hl
          rwa [Function.update_of_ne hkk]

/-- Wherever a run over the links has come to, the parties are on their tracks, and what
they have not posted is still to come. -/
theorem pending_linkRun {tr : List (LinkEvent ι κ ν ε)}
    (hstart : OnTrack mail rank (fun _ => False) result start) (hrun : LinkRun start net tr)
    (hl : ∀ l ∈ tr, l.Harmless mail) :
    OnTrack mail rank (fun _ => False) result net ∧ Pending mail start net := by
  refine Run.invariant_of
    (fun net _ => OnTrack mail rank (fun _ => False) result net ∧ Pending mail start net)
    (LinkEvent.Harmless mail) ?_ ?_ hrun hl
  · rintro net rfl
    exact ⟨hstart, fun _ _ hp => Or.inr hp, fun _ _ ha => ha⟩
  · intro net l net' _ _ ih hl hs
    exact hs.pending hstart ih.1 ih.2 hl

/-- From there the parties alone go on until all have returned. -/
theorem Pending.completes [Fintype ι] (hfed : Fed mail start) :
    ∀ {net : Net ι κ ν ε α}, OnTrack mail rank (fun _ => False) result net →
      Pending mail start net →
      ∃ net' more, NetRun net net' more ∧ (∀ e ∈ more, e.IsMove) ∧
        ∀ i, net'.scripts i = .ret (result i) := by
  intro net
  induction hn : ∑ i, (net.scripts i).depth mail using Nat.strongRecOn generalizing net with
  | ind n ih =>
      intro hon h
      rcases h.progress hon hfed with hall | ⟨e, net', he, hs⟩
      · exact ⟨net, [], .start rfl, by simp, hall⟩
      · obtain ⟨i, hlt, hother⟩ := hon.depth_lt he hs
        have hsum : ∑ j, (net'.scripts j).depth mail < n := by
          rw [← hn]
          refine Finset.sum_lt_sum (fun j _ => ?_) ⟨i, Finset.mem_univ i, hlt⟩
          by_cases hj : j = i
          · exact hj ▸ hlt.le
          · rw [hother j hj]
        obtain ⟨hon', h'⟩ := h.move hon he hs
        obtain ⟨net'', more, hrun, hmore, hall⟩ := ih _ hsum rfl hon' h'
        have hfirst : NetRun net net' [e] := .snoc (.start rfl) hs
        refine ⟨net'', more ++ [e], hfirst.append hrun, fun e' he' => ?_, hall⟩
        rcases List.mem_append.mp he' with he' | he'
        · exact hmore e' he'
        · exact List.mem_singleton.mp he' ▸ he

end

end

end Mailbox
