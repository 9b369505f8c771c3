import TssCli.Lib.Script
import TssCli.Lib.Transition

/-!
# Nets of scripts

A `Net` is a mailbox with the scripts that are left to the parties.  Its runs
interleave the parties in any order, with entries expiring, other programs
writing in between, and parties giving up on what they await.

If every script tracks an oracle, then in every run every party stays on its
track (`onTrack_run`): a party that returns has returned what it returns against
the oracle, and one that fails has an excuse.  And as long as nothing expires
and nobody gives up, the run goes on until all have returned (`completes`).
-/

namespace Mailbox

open Transition

/-! ## Nets -/

section

variable {ι κ ν ε α : Type}

/-- The mailbox and what is left of the parties' scripts. -/
structure Net (ι κ ν ε α : Type) where
  store : κ → Option ν
  scripts : ι → Script κ ν ε α

/-- An event at the mailbox. -/
inductive NetEvent (ι κ ν ε : Type) where
  | posted (i : ι) (k : κ) (v : ν)
  | got (i : ι) (k : κ) (v : ν)
  /-- A party stops waiting. -/
  | gaveUp (i : ι) (e : ε)
  /-- Some other program writes. -/
  | foreign (k : κ) (v : ν)
  | expired (k : κ)

/-- Other programs keep away from the keys of the oracle, and who gives up has
an excuse. -/
def NetEvent.Allowed (mail : κ → Option ν) (excused : ε → Prop) : NetEvent ι κ ν ε → Prop
  | .foreign k _ => mail k = none
  | .gaveUp _ e => excused e
  | _ => True

/-- Every party is on its track, and under the keys of the oracle the map holds
what the oracle says. -/
structure OnTrack (mail : κ → Option ν) (rank : κ → Nat) (excused : ε → Prop) (result : ι → α)
    (net : Net ι κ ν ε α) : Prop where
  scripts : ∀ i, ∃ r r', (net.scripts i).Tracks mail rank excused r r' (result i)
  store : ∀ k v w, net.store k = some v → mail k = some w → v = w

variable {mail : κ → Option ν} {rank : κ → Nat} {excused : ε → Prop} {result : ι → α}
  {net : Net ι κ ν ε α}

/-- A party that has returned has returned its result. -/
theorem OnTrack.returned (h : OnTrack mail rank excused result net) {i : ι} {a : α}
    (hi : net.scripts i = .ret a) : a = result i := by
  obtain ⟨r, r', ht⟩ := h.scripts i
  rw [hi] at ht
  exact ht.ret_eq

/-- A party that has failed has an excuse. -/
theorem OnTrack.failed (h : OnTrack mail rank excused result net) {i : ι} {e : ε}
    (hi : net.scripts i = .fail e) : excused e := by
  obtain ⟨r, r', ht⟩ := h.scripts i
  rw [hi] at ht
  exact ht.fail_excused

variable [DecidableEq ι] [DecidableEq κ] {start net' : Net ι κ ν ε α}
  {tr : List (NetEvent ι κ ν ε)} {e : NetEvent ι κ ν ε}

/-- One step of some party, or of nobody. -/
inductive NetStep : Net ι κ ν ε α → NetEvent ι κ ν ε → Net ι κ ν ε α → Prop where
  | posted {net : Net ι κ ν ε α} {i : ι} {k : κ} {v : ν} {next : Script κ ν ε α} :
      net.scripts i = .post k v next →
      NetStep net (.posted i k v)
        { store := Function.update net.store k (some v),
          scripts := Function.update net.scripts i next }
  | got {net : Net ι κ ν ε α} {i : ι} {k : κ} {v : ν} {next : ν → Script κ ν ε α} :
      net.scripts i = .await k next → net.store k = some v →
      NetStep net (.got i k v)
        { net with scripts := Function.update net.scripts i (next v) }
  | gaveUp {net : Net ι κ ν ε α} {i : ι} {k : κ} {next : ν → Script κ ν ε α} {e : ε} :
      net.scripts i = .await k next →
      NetStep net (.gaveUp i e) { net with scripts := Function.update net.scripts i (.fail e) }
  | foreign {net : Net ι κ ν ε α} {k : κ} {v : ν} :
      NetStep net (.foreign k v) { net with store := Function.update net.store k (some v) }
  | expired {net : Net ι κ ν ε α} {k : κ} :
      NetStep net (.expired k) { net with store := Function.update net.store k none }

/-- A run of the scripts from a given map. -/
abbrev NetRun (start : Net ι κ ν ε α) : Net ι κ ν ε α → List (NetEvent ι κ ν ε) → Prop :=
  Run (fun net => net = start) NetStep

theorem OnTrack.step (h : OnTrack mail rank excused result net) (hok : e.Allowed mail excused)
    (hs : NetStep net e net') : OnTrack mail rank excused result net' := by
  have scripts : ∀ {i : ι} {next : Script κ ν ε α},
      (∃ r r', next.Tracks mail rank excused r r' (result i)) →
      ∀ j, ∃ r r', (Function.update net.scripts i next j).Tracks mail rank excused r r' (result j) := by
    intro i next hnext
    rw [Function.forall_update_iff net.scripts
      fun j s => ∃ r r', s.Tracks mail rank excused r r' (result j)]
    exact ⟨hnext, fun j _ => h.scripts j⟩
  have store : ∀ {k : κ} {o : Option ν}, (∀ v w, o = some v → mail k = some w → v = w) →
      ∀ k' v w, Function.update net.store k o k' = some v → mail k' = some w → v = w := by
    intro k o ho
    rw [Function.forall_update_iff net.store
      fun k' o => ∀ v w, o = some v → mail k' = some w → v = w]
    exact ⟨ho, fun k' _ => h.store k'⟩
  cases hs with
  | @posted i k v next hi =>
      obtain ⟨r, r', ht⟩ := h.scripts i
      rw [hi] at ht
      cases ht with
      | post hk _ ht =>
          refine ⟨scripts ⟨r, r', ht⟩, store fun v' w hv hw => ?_⟩
          rw [hk] at hw
          rw [← Option.some.inj hv, Option.some.inj hw]
  | @got i k v next hi hv =>
      obtain ⟨r, r', ht⟩ := h.scripts i
      rw [hi] at ht
      cases ht with
      | @await _ _ _ w _ _ hk ht =>
          obtain rfl := h.store k v w hv hk
          exact ⟨scripts ⟨_, r', ht⟩, h.store⟩
  | @gaveUp i k next e hi => exact ⟨scripts ⟨0, 0, .fail hok⟩, h.store⟩
  | @foreign k v =>
      refine ⟨h.scripts, store fun v' w _ hw => ?_⟩
      rw [show mail k = none from hok] at hw
      cases hw
  | @expired k => exact ⟨h.scripts, store fun v w hv _ => nomatch hv⟩

/-- Whatever the interleaving, every party stays on its track. -/
theorem onTrack_run (h : OnTrack mail rank excused result start) (hrun : NetRun start net tr)
    (hok : ∀ e ∈ tr, e.Allowed mail excused) : OnTrack mail rank excused result net := by
  refine Run.invariant_of (fun net _ => OnTrack mail rank excused result net)
    (NetEvent.Allowed mail excused) ?_ ?_ hrun hok
  · rintro net rfl
    exact h
  · intro net e net' _ _ ih hok hs
    exact ih.step hok hs

/-! ## Progress -/

/-- Every key that a script awaits is posted by some script. -/
def Fed (mail : κ → Option ν) (start : Net ι κ ν ε α) : Prop :=
  ∀ i k, (start.scripts i).Awaits mail k → ∃ j, (start.scripts j).Posts mail k

/-- While nothing expires and nobody gives up, what a script has not posted yet
it still posts, and what it awaits it has awaited from the start. -/
structure Pending (mail : κ → Option ν) (start net : Net ι κ ν ε α) : Prop where
  posts : ∀ j k, (start.scripts j).Posts mail k →
    net.store k ≠ none ∨ (net.scripts j).Posts mail k
  awaits : ∀ i k, (net.scripts i).Awaits mail k → (start.scripts i).Awaits mail k

/-- A party posts or gets. -/
def NetEvent.IsMove : NetEvent ι κ ν ε → Prop
  | .posted _ _ _ => True
  | .got _ _ _ => True
  | _ => False

theorem Pending.step (h : Pending mail start net)
    (hon : OnTrack mail rank (fun _ => False) result net) (hmove : e.IsMove)
    (hs : NetStep net e net') : Pending mail start net' := by
  have awaits : ∀ {i : ι} {next : Script κ ν ε α},
      (∀ k, next.Awaits mail k → (net.scripts i).Awaits mail k) →
      ∀ j k, (Function.update net.scripts i next j).Awaits mail k →
        (start.scripts j).Awaits mail k := by
    intro i next hnext
    rw [Function.forall_update_iff net.scripts
      fun j s => ∀ k, s.Awaits mail k → (start.scripts j).Awaits mail k]
    exact ⟨fun k hk => h.awaits i k (hnext k hk), fun j _ => h.awaits j⟩
  have stored : ∀ {k k' : κ} {v : ν}, net.store k ≠ none →
      Function.update net.store k' (some v) k ≠ none := by
    intro k k' v hk
    by_cases hkk : k = k'
    · rw [hkk, Function.update_self]
      exact Option.some_ne_none v
    · rwa [Function.update_of_ne hkk]
  cases hs with
  | @posted i k v next hi =>
      refine ⟨fun j k' hp => ?_, awaits fun k' hk => by rw [hi]; exact .post hk⟩
      rcases h.posts j k' hp with hst | hpost
      · exact Or.inl (stored hst)
      · by_cases hj : j = i
        · rw [hj] at hpost ⊢
          rw [hi] at hpost
          cases hpost with
          | here =>
              left
              show Function.update net.store k (some v) k ≠ none
              rw [Function.update_self]
              exact Option.some_ne_none v
          | post hpost =>
              right
              show (Function.update net.scripts i next i).Posts mail k'
              rwa [Function.update_self]
        · right
          show (Function.update net.scripts i next j).Posts mail k'
          rwa [Function.update_of_ne hj]
  | @got i k v next hi hv =>
      obtain ⟨r, r', ht⟩ := hon.scripts i
      rw [hi] at ht
      cases ht with
      | @await _ _ _ w _ _ hk ht =>
          obtain rfl := hon.store k v w hv hk
          refine ⟨fun j k' hp => ?_, awaits fun k' hk' => by rw [hi]; exact .await hk hk'⟩
          rcases h.posts j k' hp with hst | hpost
          · exact Or.inl hst
          · right
            show (Function.update net.scripts i (next v) j).Posts mail k'
            by_cases hj : j = i
            · rw [hj, Function.update_self]
              rw [hj, hi] at hpost
              cases hpost with
              | await hk' hpost =>
                  rw [hk] at hk'
                  rwa [Option.some.inj hk']
            · rwa [Function.update_of_ne hj]
  | gaveUp => exact hmove.elim
  | foreign => exact hmove.elim
  | expired => exact hmove.elim

/-- Some party can go on, or all have returned: the party that awaits the key of
least rank finds it posted. -/
theorem Pending.progress (h : Pending mail start net)
    (hon : OnTrack mail rank (fun _ => False) result net)
    (hfed : Fed mail start) :
    (∀ i, net.scripts i = .ret (result i)) ∨ ∃ e net', e.IsMove ∧ NetStep net e net' := by
  have waiting : ∀ n i k next, rank k = n → net.scripts i = .await k next →
      ∃ e net', e.IsMove ∧ NetStep net e net' := by
    intro n
    induction n using Nat.strongRecOn with
    | ind n ih =>
        intro i k next hn hi
        cases hst : net.store k with
        | some v => exact ⟨.got i k v, _, trivial, .got hi hst⟩
        | none =>
            have hawaits : (net.scripts i).Awaits mail k := by
              rw [hi]
              exact .here
            obtain ⟨j, hj⟩ := hfed i k (h.awaits i k hawaits)
            rcases h.posts j k hj with hne | hpost
            · exact absurd hst hne
            · cases hs : net.scripts j with
              | ret a =>
                  rw [hs] at hpost
                  cases hpost
              | fail e => exact (hon.failed hs).elim
              | post k' v' next' => exact ⟨.posted j k' v', _, trivial, .posted hs⟩
              | await k' next' =>
                  rw [hs] at hpost
                  obtain ⟨r, r', ht⟩ := hon.scripts j
                  rw [hs] at ht
                  exact ih (rank k') (hn ▸ ht.posts_await hpost) j k' next' rfl hs
  by_cases hall : ∀ i, net.scripts i = .ret (result i)
  · exact Or.inl hall
  · obtain ⟨i, hi⟩ := not_forall.mp hall
    right
    cases hs : net.scripts i with
    | ret a => exact absurd (hon.returned hs ▸ hs) hi
    | fail e => exact (hon.failed hs).elim
    | post k v next => exact ⟨.posted i k v, _, trivial, .posted hs⟩
    | await k next => exact waiting _ i k next rfl hs

/-- A run of the parties alone, in which nothing expires. -/
theorem pending_run (h : OnTrack mail rank (fun _ => False) result start)
    (hrun : NetRun start net tr) (hmove : ∀ e ∈ tr, e.IsMove) :
    OnTrack mail rank (fun _ => False) result net ∧ Pending mail start net := by
  have allowed : ∀ {e : NetEvent ι κ ν ε}, e.IsMove → e.Allowed mail (fun _ => False) := by
    intro e he
    cases e <;> first | exact trivial | exact he.elim
  refine Run.invariant_of
    (fun net _ => OnTrack mail rank (fun _ => False) result net ∧ Pending mail start net)
    NetEvent.IsMove ?_ ?_ hrun hmove
  · rintro net rfl
    exact ⟨h, fun _ _ hp => Or.inr hp, fun _ _ ha => ha⟩
  · intro net e net' _ _ ih hok hs
    exact ⟨ih.1.step (allowed hok) hs, ih.2.step ih.1 hok hs⟩

/-- A move shortens the track of its party. -/
theorem OnTrack.depth_lt (h : OnTrack mail rank (fun _ => False) result net) (hm : e.IsMove)
    (hs : NetStep net e net') :
    ∃ i, (net'.scripts i).depth mail < (net.scripts i).depth mail ∧
      ∀ j, j ≠ i → net'.scripts j = net.scripts j := by
  cases hs with
  | @posted i k v next hi =>
      refine ⟨i, ?_, fun j hj => Function.update_of_ne hj _ _⟩
      show (Function.update net.scripts i next i).depth mail < _
      rw [Function.update_self, hi]
      exact Nat.lt_succ_self _
  | @got i k v next hi hv =>
      obtain ⟨r, r', ht⟩ := h.scripts i
      rw [hi] at ht
      cases ht with
      | @await _ _ _ w _ _ hk ht =>
          obtain rfl := h.store k v w hv hk
          refine ⟨i, ?_, fun j hj => Function.update_of_ne hj _ _⟩
          show (Function.update net.scripts i (next v) i).depth mail < _
          rw [Function.update_self, hi, Script.depth, hk]
          exact Nat.lt_succ_self _
  | gaveUp => exact hm.elim
  | foreign => exact hm.elim
  | expired => exact hm.elim

/-- Every run of the parties alone goes on until all have returned. -/
theorem completes [Fintype ι] (h : OnTrack mail rank (fun _ => False) result start)
    (hfed : Fed mail start) :
    ∀ {net : Net ι κ ν ε α} {tr : List (NetEvent ι κ ν ε)}, NetRun start net tr →
      (∀ e ∈ tr, e.IsMove) → ∃ net' more, NetRun start net' (more ++ tr) ∧
        (∀ e ∈ more, e.IsMove) ∧ ∀ i, net'.scripts i = .ret (result i) := by
  intro net
  induction hn : ∑ i, (net.scripts i).depth mail using Nat.strongRecOn generalizing net with
  | ind n ih =>
      intro tr hrun hmove
      obtain ⟨hon, hpending⟩ := pending_run h hrun hmove
      rcases hpending.progress hon hfed with hall | ⟨e, net', he, hs⟩
      · exact ⟨net, [], hrun, by simp, hall⟩
      · obtain ⟨i, hlt, hother⟩ := hon.depth_lt he hs
        have hsum : ∑ j, (net'.scripts j).depth mail < n := by
          rw [← hn]
          refine Finset.sum_lt_sum (fun j _ => ?_) ⟨i, Finset.mem_univ i, hlt⟩
          by_cases hj : j = i
          · exact hj ▸ hlt.le
          · rw [hother j hj]
        obtain ⟨net'', more, hrun', hmore, hall⟩ := ih _ hsum rfl (hrun.snoc hs)
          (List.forall_mem_cons.mpr ⟨he, hmove⟩)
        refine ⟨net'', more ++ [e], ?_, ?_, hall⟩
        · rw [List.append_assoc]
          exact hrun'
        · intro e' he'
          rcases List.mem_append.mp he' with he' | he'
          · exact hmore e' he'
          · exact List.mem_singleton.mp he' ▸ he

end

/-! ## One party of a run -/

section

variable {ι κ ν ε α : Type} [DecidableEq ι] [DecidableEq κ] {start net : Net ι κ ν ε α}
  {tr : List (NetEvent ι κ ν ε)}

/-- A party that has returned has executed its script. -/
theorem executes_of_returned (hrun : NetRun start net tr) {i : ι} {a : α}
    (h : net.scripts i = .ret a) : ∃ ops, Script.Executes (start.scripts i) ops a := by
  have hinv : ∀ i ops, Script.Executes (net.scripts i) ops a →
      ∃ ops, Script.Executes (start.scripts i) ops a := by
    refine Run.invariant (fun net _ => ∀ i ops, Script.Executes (net.scripts i) ops a →
      ∃ ops, Script.Executes (start.scripts i) ops a) ?_ ?_ hrun
    · rintro net rfl i ops h
      exact ⟨ops, h⟩
    · intro net e net' tr _ ih hs
      have moved : ∀ {i : ι} {s : Script κ ν ε α},
          (∀ ops, Script.Executes s ops a → ∃ ops, Script.Executes (net.scripts i) ops a) →
          ∀ j ops, Script.Executes (Function.update net.scripts i s j) ops a →
            ∃ ops, Script.Executes (start.scripts j) ops a := by
        intro i s hnext j ops h
        by_cases hj : j = i
        · subst hj
          rw [Function.update_self] at h
          obtain ⟨ops, h⟩ := hnext ops h
          exact ih j ops h
        · rw [Function.update_of_ne hj] at h
          exact ih j ops h
      cases hs with
      | posted hi =>
          refine moved fun ops h => ?_
          rw [hi]
          exact ⟨_, .post h⟩
      | got hi hv =>
          refine moved fun ops h => ?_
          rw [hi]
          exact ⟨_, .await h⟩
      | gaveUp hi => exact moved fun ops h => by cases h
      | foreign => exact ih
      | expired => exact ih
  exact hinv i [] (h ▸ .ret)

end

/-! ## Moves of given parties -/

section

variable {ι κ ν ε α β : Type} {start net : Net ι κ ν ε α} {tr : List (NetEvent ι κ ν ε)} {l : List ι}

/-- A party of the list posts or gets. -/
def NetEvent.MoveOf (l : List ι) : NetEvent ι κ ν ε → Prop
  | .posted i _ _ => i ∈ l
  | .got i _ _ => i ∈ l
  | _ => False

theorem NetEvent.MoveOf.mono {l' : List ι} (hsub : l ⊆ l') {e : NetEvent ι κ ν ε}
    (h : e.MoveOf l) : e.MoveOf l' := by
  cases e with
  | posted i k v => exact hsub h
  | got i k v => exact hsub h
  | _ => exact h

variable [DecidableEq ι] [DecidableEq κ]

end

/-! ## One party among strangers -/

section

variable {κ ν ε α : Type}

/-- One party with an empty mailbox. -/
def alone (s : Script κ ν ε α) : Net Unit κ ν ε α where
  store _ := none
  scripts _ := s

/-- An operation of a party with a rushing environment, newest event first: what
is awaited is written just before. -/
def Script.Op.rushed : Script.Op κ ν → List (NetEvent Unit κ ν ε)
  | .posted k v => [.posted () k v]
  | .got k v => [.got () k v, .foreign k v]

/-- Every execution of a script is a run among strangers that write what is awaited
at the last moment. -/
theorem Script.Executes.rushed [DecidableEq κ] {start : Net Unit κ ν ε α} {s : Script κ ν ε α}
    {ops : List (Op κ ν)} {a : α} (h : Executes s ops a) :
    ∀ {net : Net Unit κ ν ε α} {tr : List (NetEvent Unit κ ν ε)}, NetRun start net tr →
      net.scripts () = s →
      ∃ net', NetRun start net' (ops.reverse.flatMap Op.rushed ++ tr) ∧ net'.scripts () = .ret a := by
  induction h with
  | ret => exact fun hrun hs => ⟨_, hrun, hs⟩
  | post _ ih =>
      intro net tr hrun hs
      obtain ⟨net', hrun', ha⟩ := ih (hrun.snoc (.posted hs)) (by simp)
      exact ⟨net', by simpa [Op.rushed] using hrun', ha⟩
  | @await k v _ _ _ _ ih =>
      intro net tr hrun hs
      have hwritten := hrun.snoc (.foreign (k := k) (v := v))
      obtain ⟨net', hrun', ha⟩ := ih
        (hwritten.snoc (.got (i := ()) hs (Function.update_self ..))) (by simp)
      exact ⟨net', by simpa [Op.rushed] using hrun', ha⟩

end

end Mailbox
