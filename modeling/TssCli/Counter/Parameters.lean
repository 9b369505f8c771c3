import TssCli.Counter.Numbers

/-!
# The parameters of a key generation group

The counter of a curve stores a number and a UUID, but not the parameters its
group is for, and the next request compares the number with its own `parties`.
So a request joins whatever group it finds unfinished by its own count, and the
members of a group agree on their parameters exactly when every request that
joins carries those of the one before it.
-/

namespace TssCli

open Transition

/-- `parties` and `threshold` as the clients parse them. -/
def Params.sizes (params : Params) : Except Panic UInt16 × Except Panic UInt16 :=
  (parseU16 params.parties, parseU16 params.threshold)

/-- Requests answered with one UUID carried the same parties and threshold. -/
def Homogeneous (tr : List KeygenEvent) : Prop :=
  ∀ c c' s s', .request c ∈ tr → .request c' ∈ tr → c.answer = .ok s → c'.answer = .ok s' →
    s.uuid = s'.uuid → c.params.sizes = c'.params.sizes

/-- The request finds a counter below its own `parties`. -/
def KeygenRecord.FindsUnfinished (c : KeygenRecord) : Prop :=
  ∃ before parties, c.before = some before ∧ parseU16 c.params.parties = .ok parties ∧
    before.number < parties

/-- The request carries the parties and threshold of the one answered last on
its curve. -/
def KeygenRecord.RepeatsLast (c : KeygenRecord) (earlier : List KeygenEvent) : Prop :=
  ∀ d s, lastAnswered c.curve earlier = some (d, s) → c.params.sizes = d.params.sizes

/-- Every request that finds an unfinished group repeats the last parameters. -/
def JoinersRepeat : List KeygenEvent → Prop
  | [] => True
  | .expired _ :: tr => JoinersRepeat tr
  | .request c :: tr => (c.FindsUnfinished → c.RepeatsLast tr) ∧ JoinersRepeat tr

section

variable {env : Env} {json : Codec PartySignup} {m m' : CounterState} {tr : List KeygenEvent}
  {e : KeygenEvent} {c : KeygenRecord} {s : PartySignup} {parties : UInt16}

/-- An answered request keeps a homogeneous run homogeneous if it agrees with
the requests answered with its UUID. -/
theorem homogeneous_answered (ha : c.answer = .ok s) :
    Homogeneous (.request c :: tr) ↔ Homogeneous tr ∧
      ∀ d t, .request d ∈ tr → d.answer = .ok t → t.uuid = s.uuid →
        c.params.sizes = d.params.sizes :=
  groupsAgree_answered ha

/-- An event without an answer changes no group. -/
theorem homogeneous_quiet (hquiet : ∀ c s, e = .request c → c.answer ≠ .ok s) :
    Homogeneous (e :: tr) ↔ Homogeneous tr := by
  have old : ∀ {c s}, KeygenEvent.request c ∈ e :: tr → c.answer = .ok s → .request c ∈ tr := by
    intro c s hc ha
    exact List.mem_of_ne_of_mem (fun he => hquiet c s he.symm ha) hc
  constructor
  · intro h c c' s s' hc hc'
    exact h c c' s s' (List.mem_cons_of_mem _ hc) (List.mem_cons_of_mem _ hc')
  · intro h c c' s s' hc hc' ha ha'
    exact h c c' s s' (old hc ha) (old hc' ha') ha ha'

/-- The requests answered with the UUID of the request agree with it exactly
when it repeats the last parameters, if it joins at all. -/
theorem joins_iff (hhom : Homogeneous tr) (hstore : StoreInv json m tr)
    (hnumbers : NumbersInv env m tr) (hparse : parseU16 c.params.parties = .ok parties)
    (hbefore : c.before = counterAt json m.db (keygenKey c.curve))
    (hcounts : Counts env parties c.before m.issued s m'.issued) :
    (∀ d t, .request d ∈ tr → d.answer = .ok t → t.uuid = s.uuid →
        c.params.sizes = d.params.sizes) ↔
      (c.FindsUnfinished → c.RepeatsLast tr) := by
  rcases hstore.group hbefore hcounts with ⟨d, t, hb, hlast, hlt, rfl⟩ | ⟨j, hdone, hj, -, rfl⟩
  · -- the request joins the group of `d`
    obtain ⟨hd, hans, -⟩ := lastAnswered_mem tr hlast
    constructor
    · rintro h - d' t' hlast'
      obtain ⟨rfl, rfl⟩ := Prod.mk.inj (Option.some.inj (hlast.symm.trans hlast'))
      exact h d t hd hans rfl
    · intro h d' t' hd' hans' hu
      rw [h ⟨t, parties, hb, hparse, hlt⟩ d t hlast]
      exact hhom d d' t t' hd hd' hans hans' hu.symm
  · -- the request starts a group
    constructor
    · rintro - ⟨t, parties', hb, hparse', hlt⟩
      obtain rfl := Except.ok.inj (hparse.symm.trans hparse')
      exact absurd hlt (UInt16.not_lt.mpr (hdone t hb))
    · intro _ d t hd hans hu
      exact absurd hu (hnumbers.not_answered hj t (mem_answersOf.mpr ⟨d, hd, hans⟩))

end

/-- The groups of a run are homogeneous exactly when every request that finds an
unfinished group carries the parameters of the one answered before it. -/
theorem keygen_homogeneous {env : Env} {json : Codec PartySignup} {m : CounterState}
    {tr : List KeygenEvent} (h : KeygenRun env json m tr) : Homogeneous tr ↔ JoinersRepeat tr := by
  refine Run.invariant (fun _ tr => Homogeneous tr ↔ JoinersRepeat tr) ?_ ?_ h
  · rintro m rfl
    exact ⟨fun _ => trivial, fun _ c c' s s' hc => by cases hc⟩
  · intro m e m' tr hrun ih hstep
    have hstore := KeygenRun.storeInv hrun
    have hnumbers := KeygenRun.numbersInv hrun
    rcases hstep.cases hstore with ⟨key, rfl, rfl⟩ | ⟨c, p, rfl, ha, hparse, rfl⟩ |
      ⟨c, s, parties, rfl, ha, hparse, hbefore, hcounts, -, -⟩
    · rw [homogeneous_quiet (fun c s he => by cases he), ih, JoinersRepeat]
    · have hfails : ¬ c.FindsUnfinished := by
        rintro ⟨t, parties, -, hparse', -⟩
        rw [hparse] at hparse'
        cases hparse'
      rw [homogeneous_quiet, ih, JoinersRepeat]
      · exact ⟨fun htail => ⟨fun hc => absurd hc hfails, htail⟩, fun hall => hall.2⟩
      · intro d t he hans
        rw [← KeygenEvent.request.inj he, ha] at hans
        cases hans
    · rw [homogeneous_answered ha, JoinersRepeat, ← ih, and_comm]
      exact and_congr_left fun hhom => joins_iff hhom hstore hnumbers hparse hbefore hcounts

/-- Two requests for groups of three around one for a group of two, newest first. -/
def mixedRequests : List (Params × String) :=
  [(⟨"3", "1"⟩, "ECDSA"), (⟨"2", "1"⟩, "ECDSA"), (⟨"3", "1"⟩, "ECDSA")]

/-- Two requests for a group of three, newest first. -/
def equalRequests : List (Params × String) :=
  [(⟨"3", "1"⟩, "ECDSA"), (⟨"3", "1"⟩, "ECDSA")]

theorem keygen_homogeneous_equal :
    Homogeneous (playKeygen defaultEnv tallyCodec equalRequests).2 := by
  refine (keygen_homogeneous (playKeygen_run defaultEnv tallyCodec equalRequests)).mpr ?_
  refine ⟨?_, ?_, trivial⟩
  · intro _ d s hd
    obtain ⟨rfl, rfl⟩ := Prod.mk.inj (Option.some.inj hd)
    decide
  · intro _ d s hd
    cases hd

/-- A key generation for two joins one for three. -/
theorem keygen_mixed : ¬ ∀ (env : Env) (json : Codec PartySignup) (m : CounterState)
    (tr : List KeygenEvent), KeygenRun env json m tr → Homogeneous tr := by
  intro hlaw
  have hhom := hlaw _ _ _ _ (playKeygen_run defaultEnv tallyCodec mixedRequests)
  obtain ⟨c, hc, c', hc', s, hs, s', hs', hu, hne⟩ :
      ∃ c, .request c ∈ (playKeygen defaultEnv tallyCodec mixedRequests).2 ∧
        ∃ c', .request c' ∈ (playKeygen defaultEnv tallyCodec mixedRequests).2 ∧
          ∃ s, c.answer = .ok s ∧ ∃ s', c'.answer = .ok s' ∧
            s.uuid = s'.uuid ∧ c.params.sizes ≠ c'.params.sizes := by
    refine ⟨_, List.mem_cons_of_mem _ (List.mem_cons_self ..), _,
      List.mem_cons_of_mem _ (List.mem_cons_of_mem _ (List.mem_cons_self ..)),
      ⟨2, "u"⟩, by decide, ⟨1, "u"⟩, by decide, rfl, by decide⟩
  exact hne (hhom c c' s s' hc hc' hs hs' hu)

end TssCli
