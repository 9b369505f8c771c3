import TssCli.Lib.Retries

/-!
# Scripts whose results are mapped

A script does the same whatever its result is made into.  So a run of scripts whose
results are mapped is one of the scripts themselves (`NetRun.unmap`), and a mapped
script posts what the script posts.
-/

namespace Mailbox

open Transition

section

variable {ι κ ν ε α β : Type}

namespace Script

variable {f : α → β} {s : Script κ ν ε α}

theorem map_eq_ret {b : β} (h : f <$> s = ret b) : ∃ a, s = ret a ∧ f a = b := by
  cases s with
  | ret a => exact ⟨a, rfl, Script.ret.inj h⟩
  | fail => cases h
  | post => cases h
  | await => cases h

theorem map_eq_fail {e : ε} (h : f <$> s = fail e) : s = fail e := by
  cases s with
  | fail e' =>
      obtain rfl := Script.fail.inj h
      rfl
  | ret => cases h
  | post => cases h
  | await => cases h

theorem map_eq_post {k : κ} {v : ν} {next : Script κ ν ε β} (h : f <$> s = post k v next) :
    ∃ next', s = post k v next' ∧ f <$> next' = next := by
  cases s with
  | ret => cases h
  | fail => cases h
  | await => cases h
  | post k' v' next' =>
      obtain ⟨rfl, rfl, hnext⟩ := Script.post.inj h
      exact ⟨next', rfl, hnext⟩

theorem map_eq_await {k : κ} {next : ν → Script κ ν ε β} (h : f <$> s = await k next) :
    ∃ next', s = await k next' ∧ ∀ v, f <$> next' v = next v := by
  cases s with
  | ret => cases h
  | fail => cases h
  | post => cases h
  | await k' next' =>
      obtain ⟨rfl, hnext⟩ := Script.await.inj h
      exact ⟨next', rfl, fun v => congrFun hnext v⟩

theorem Executes.of_map {ops : List (Op κ ν)} {b : β} (h : Executes (f <$> s) ops b) :
    ∃ a, Executes s ops a ∧ b = f a := by
  rw [map_eq_pure_bind] at h
  obtain ⟨ops₁, ops₂, a, rfl, hs, hf⟩ := h.of_bind
  obtain ⟨rfl, rfl⟩ := hf.of_pure
  exact ⟨a, by rwa [List.append_nil], rfl⟩

theorem PostsOnly.map {P : κ → Prop} (f : α → β) :
    ∀ {s : Script κ ν ε α}, s.PostsOnly P → (f <$> s).PostsOnly P
  | ret _, _ => trivial
  | fail _, _ => trivial
  | post _ _ _, h => ⟨h.1, h.2.map f⟩
  | await _ _, h => fun v => (h v).map f

end Script

/-- The scripts of the net with their results mapped. -/
def Net.map (f : α → β) (net : Net ι κ ν ε α) : Net ι κ ν ε β where
  store := net.store
  scripts i := f <$> net.scripts i

theorem Net.map_update [DecidableEq ι] (f : α → β) (net : Net ι κ ν ε α) (store : κ → Option ν)
    (i : ι) (s : Script κ ν ε α) :
    Net.map f { store, scripts := Function.update net.scripts i s } =
      { store, scripts := Function.update (net.map f).scripts i (f <$> s) } := by
  unfold Net.map
  congr 1
  funext j
  by_cases hj : j = i
  · subst hj
    simp
  · simp [hj]

variable [DecidableEq ι] [DecidableEq κ] {f : α → β} {start net : Net ι κ ν ε α}
  {mapped : Net ι κ ν ε β} {tr : List (NetEvent ι κ ν ε)} {e : NetEvent ι κ ν ε}

/-- A step of the mapped scripts is one of the scripts. -/
theorem NetStep.unmap (h : NetStep (net.map f) e mapped) :
    ∃ net', NetStep net e net' ∧ net'.map f = mapped := by
  cases h with
  | @posted i k v next hi =>
      obtain ⟨next', hi', rfl⟩ := Script.map_eq_post hi
      exact ⟨_, .posted hi', net.map_update f _ i next'⟩
  | @got i k v next hi hv =>
      obtain ⟨next', hi', hnext⟩ := Script.map_eq_await hi
      exact ⟨_, .got hi' hv, by rw [net.map_update f, hnext]; rfl⟩
  | @gaveUp i k next e hi =>
      obtain ⟨next', hi', -⟩ := Script.map_eq_await hi
      exact ⟨_, .gaveUp hi', net.map_update f _ i (.fail e)⟩
  | foreign => exact ⟨_, .foreign, rfl⟩
  | expired => exact ⟨_, .expired, rfl⟩

/-- A run of the mapped scripts is one of the scripts. -/
theorem NetRun.unmap (h : NetRun (start.map f) mapped tr) :
    ∃ net, NetRun start net tr ∧ net.map f = mapped := by
  refine Run.invariant (fun mapped tr => ∃ net, NetRun start net tr ∧ net.map f = mapped) ?_ ?_ h
  · rintro mapped rfl
    exact ⟨start, .start rfl, rfl⟩
  · rintro mapped e mapped' tr - ⟨net, hrun, rfl⟩ hs
    obtain ⟨net', hs', hmap⟩ := hs.unmap
    exact ⟨net', hrun.snoc hs', hmap⟩

end

end Mailbox
