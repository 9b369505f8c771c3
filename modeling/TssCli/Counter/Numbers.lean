import TssCli.Counter.Run

/-!
# Numbers in a key generation group

The answers with one UUID carry the numbers `1`, `2`, up to `k`, in this order.
`NumbersInv` ties this to the store: the stored counter of a curve is the newest
answer with its UUID, so the next number under that UUID is the one after it,
and a new UUID starts at `1`.
-/

namespace TssCli

open Transition

/-- The answer of a request. -/
def KeygenEvent.answer : KeygenEvent → Option PartySignup
  | .request c => c.answer.toOption
  | .expired _ => none

/-- The answers of a run, oldest first. -/
def answersOf (tr : List KeygenEvent) : List PartySignup :=
  (tr.filterMap KeygenEvent.answer).reverse

/-- The numbers answered with a UUID, oldest first. -/
def numbersOf (uuid : String) (tr : List KeygenEvent) : List Nat :=
  ((answersOf tr).filter fun s => s.uuid = uuid).map fun s => s.number.toNat

/-- What a run keeps of its answers. -/
structure NumbersInv (env : Env) (m : CounterState) (tr : List KeygenEvent) : Prop where
  /-- Answered UUIDs have been drawn. -/
  issued : ∀ s ∈ answersOf tr, ∃ j, j < m.issued ∧ s.uuid = env.uuid j
  /-- The numbers of a group count up from `1`. -/
  counted : ∀ uuid, ∃ k, numbersOf uuid tr = List.range' 1 k
  /-- The last answer on a curve is the last of its group. -/
  last : ∀ curve c s, lastAnswered curve tr = some (c, s) →
    numbersOf s.uuid tr = List.range' 1 s.number.toNat
  /-- A group is of one curve. -/
  curves : ∀ c c' s s', .request c ∈ tr → .request c' ∈ tr → c.answer = .ok s →
    c'.answer = .ok s' → s.uuid = s'.uuid → c.curve = c'.curve
  /-- A number is within the range its request asked for. -/
  ranges : ∀ c n, .request c ∈ tr → parseU16 c.params.parties = .ok n → 1 ≤ n →
    ∃ s, c.answer = .ok s ∧ 1 ≤ s.number ∧ s.number ≤ n

section

variable {env : Env} {json : Codec PartySignup} {m m' : CounterState} {tr : List KeygenEvent}
  {e : KeygenEvent} {c : KeygenRecord} {s : PartySignup} {uuid : String}

theorem mem_answersOf : s ∈ answersOf tr ↔ ∃ c, .request c ∈ tr ∧ c.answer = .ok s := by
  rw [answersOf, List.mem_reverse, List.mem_filterMap]
  constructor
  · rintro ⟨e, he, hs⟩
    cases e with
    | expired key => cases hs
    | request c =>
        refine ⟨c, he, ?_⟩
        cases ha : c.answer with
        | ok s' =>
            rw [KeygenEvent.answer, ha] at hs
            rw [Option.some.inj hs]
        | error p =>
            rw [KeygenEvent.answer, ha] at hs
            cases hs
  · rintro ⟨c, hc, ha⟩
    refine ⟨.request c, hc, ?_⟩
    rw [KeygenEvent.answer, ha]
    rfl

theorem answersOf_answered (ha : c.answer = .ok s) (tr : List KeygenEvent) :
    answersOf (.request c :: tr) = answersOf tr ++ [s] := by
  have hs : (KeygenEvent.request c).answer = some s := by
    rw [KeygenEvent.answer, ha]
    rfl
  rw [answersOf, List.filterMap_cons_some hs, List.reverse_cons, answersOf]

theorem answersOf_failed {p : Panic} (ha : c.answer = .error p) (tr : List KeygenEvent) :
    answersOf (.request c :: tr) = answersOf tr := by
  have hs : (KeygenEvent.request c).answer = none := by
    rw [KeygenEvent.answer, ha]
    rfl
  rw [answersOf, List.filterMap_cons_none hs, answersOf]

theorem numbersOf_same (ha : c.answer = .ok s) (tr : List KeygenEvent) :
    numbersOf s.uuid (.request c :: tr) = numbersOf s.uuid tr ++ [s.number.toNat] := by
  simp [numbersOf, answersOf_answered ha]

theorem numbersOf_other (ha : c.answer = .ok s) (hu : s.uuid ≠ uuid) (tr : List KeygenEvent) :
    numbersOf uuid (.request c :: tr) = numbersOf uuid tr := by
  simp [numbersOf, answersOf_answered ha, hu]

/-- Nothing was answered with a UUID that is drawn later. -/
theorem NumbersInv.not_answered (h : NumbersInv env m tr) {j : Nat} (hj : m.issued ≤ j) :
    ∀ s ∈ answersOf tr, s.uuid ≠ env.uuid j := by
  intro s hs hu
  obtain ⟨i, hi, hi'⟩ := h.issued s hs
  have := env.uuid_injective (hi'.symm.trans hu)
  omega

theorem NumbersInv.numbersOf_new (h : NumbersInv env m tr) {j : Nat} (hj : m.issued ≤ j) :
    numbersOf (env.uuid j) tr = [] := by
  rw [numbersOf, List.map_eq_nil_iff, List.filter_eq_nil_iff]
  intro s hs
  simpa using h.not_answered hj s hs

/-- A request of a run with one more is that one, or an earlier one. -/
theorem mem_keygens {d : KeygenRecord} (hd : .request d ∈ .request c :: tr) :
    d = c ∨ .request d ∈ tr := by
  cases List.mem_cons.mp hd with
  | inl he => exact Or.inl (KeygenEvent.request.inj he)
  | inr ht => exact Or.inr ht

/-- The requests of every group agree on `f`. -/
def GroupsAgree {β : Type} (f : KeygenRecord → β) (tr : List KeygenEvent) : Prop :=
  ∀ c c' s s', .request c ∈ tr → .request c' ∈ tr → c.answer = .ok s → c'.answer = .ok s' →
    s.uuid = s'.uuid → f c = f c'

/-- They do with an answered request that agrees with the requests answered with its
UUID. -/
theorem groupsAgree_answered {β : Type} {f : KeygenRecord → β} (ha : c.answer = .ok s) :
    GroupsAgree f (.request c :: tr) ↔ GroupsAgree f tr ∧
      ∀ d t, .request d ∈ tr → d.answer = .ok t → t.uuid = s.uuid → f c = f d := by
  constructor
  · intro h
    constructor
    · intro d d' t t' hd hd'
      exact h d d' t t' (List.mem_cons_of_mem _ hd) (List.mem_cons_of_mem _ hd')
    · intro d t hd hans hu
      exact h c d s t (List.mem_cons_self ..) (List.mem_cons_of_mem _ hd) ha hans hu.symm
  · rintro ⟨htail, hnew⟩ d d' t t' hd hd' hans hans' hu
    rcases mem_keygens hd with rfl | hold <;> rcases mem_keygens hd' with rfl | hold'
    · rfl
    · obtain rfl := Except.ok.inj (hans.symm.trans ha)
      exact hnew d' t' hold' hans' hu.symm
    · obtain rfl := Except.ok.inj (hans'.symm.trans ha)
      exact (hnew d t hold hans hu).symm
    · exact htail d d' t t' hold hold' hans hans' hu

section

variable {parties : UInt16} (h : NumbersInv env m tr) (hstore : StoreInv json m tr)
  (hbefore : c.before = counterAt json m.db (keygenKey c.curve))
  (hcounts : Counts env parties c.before m.issued s m'.issued)

include h hstore hbefore hcounts

/-- The numbers of the group that a request is answered from. -/
theorem NumbersInv.numbersOf_answered (ha : c.answer = .ok s) :
    numbersOf s.uuid (.request c :: tr) = List.range' 1 s.number.toNat := by
  rw [numbersOf_same ha]
  rcases hstore.group hbefore hcounts with ⟨d, t, -, hlast, hlt, rfl⟩ | ⟨j, -, hj, -, rfl⟩
  · dsimp only
    rw [h.last _ d t hlast, toNat_add_one_of_lt hlt, List.range'_1_concat, Nat.add_comm 1]
  · dsimp only
    rw [h.numbersOf_new hj]
    rfl

/-- The requests answered earlier with the same UUID are for the same curve. -/
theorem NumbersInv.curve_answered {d : KeygenRecord} {s' : PartySignup} (hd : .request d ∈ tr)
    (hd' : d.answer = .ok s') (hu : s'.uuid = s.uuid) : c.curve = d.curve := by
  rcases hstore.group hbefore hcounts with ⟨d', t, -, hlast, -, rfl⟩ | ⟨j, -, hj, -, rfl⟩
  · obtain ⟨hmem, hans, hcurve⟩ := lastAnswered_mem tr hlast
    rw [← hcurve]
    exact (h.curves d d' s' t hd hmem hd' hans hu).symm
  · exact absurd hu (h.not_answered hj s' (mem_answersOf.mpr ⟨d, hd, hd'⟩))

/-- The UUID of the answer has been drawn. -/
theorem NumbersInv.issued_answered : ∃ j, j < m'.issued ∧ s.uuid = env.uuid j := by
  rcases hstore.group hbefore hcounts with ⟨d, t, -, hlast, -, rfl⟩ | ⟨j, -, -, hj, rfl⟩
  · obtain ⟨hmem, hans, -⟩ := lastAnswered_mem tr hlast
    obtain ⟨j, hj, he⟩ := h.issued t (mem_answersOf.mpr ⟨d, hmem, hans⟩)
    exact ⟨j, hj.trans_le hcounts.le, he⟩
  · exact ⟨j, hj, rfl⟩

end

/-- An answered request keeps the numbers. -/
theorem NumbersInv.answered {parties : UInt16} (h : NumbersInv env m tr)
    (hstore : StoreInv json m tr) (ha : c.answer = .ok s)
    (hparse : parseU16 c.params.parties = .ok parties)
    (hbefore : c.before = counterAt json m.db (keygenKey c.curve))
    (hcounts : Counts env parties c.before m.issued s m'.issued) :
    NumbersInv env m' (.request c :: tr) := by
  have hcurve : ∀ d t, .request d ∈ tr → d.answer = .ok t → t.uuid = s.uuid → c.curve = d.curve :=
    fun _ _ hd hans hu => h.curve_answered hstore hbefore hcounts hd hans hu
  constructor
  · intro s' hs'
    rw [answersOf_answered ha, List.mem_append, List.mem_singleton] at hs'
    rcases hs' with hs' | rfl
    · obtain ⟨j, hj, he⟩ := h.issued s' hs'
      exact ⟨j, hj.trans_le hcounts.le, he⟩
    · exact h.issued_answered hstore hbefore hcounts
  · intro uuid
    by_cases hu : s.uuid = uuid
    · subst hu
      exact ⟨_, h.numbersOf_answered hstore hbefore hcounts ha⟩
    · rw [numbersOf_other ha hu]
      exact h.counted uuid
  · intro curve d t hlast
    by_cases hc : c.curve = curve
    · subst hc
      rw [lastAnswered_answered ha] at hlast
      obtain ⟨rfl, rfl⟩ := Prod.mk.inj (Option.some.inj hlast)
      exact h.numbersOf_answered hstore hbefore hcounts ha
    · rw [lastAnswered_other hc] at hlast
      obtain ⟨hmem, hans, hdcurve⟩ := lastAnswered_mem tr hlast
      by_cases hu : s.uuid = t.uuid
      · exact absurd ((hcurve d t hmem hans hu.symm).trans hdcurve) hc
      · rw [numbersOf_other ha hu]
        exact h.last curve d t hlast
  · exact (groupsAgree_answered ha).mpr ⟨h.curves, hcurve⟩
  · intro d n hd hn hone
    rcases mem_keygens hd with rfl | hd
    · obtain rfl := Except.ok.inj (hparse.symm.trans hn)
      exact ⟨s, ha, hcounts.range hone⟩
    · exact h.ranges d n hd hn hone

/-- A step without an answer keeps the numbers. -/
theorem NumbersInv.weaken (h : NumbersInv env m tr) (hissued : m'.issued = m.issued)
    (hanswers : answersOf (e :: tr) = answersOf tr)
    (hlast : ∀ curve, lastAnswered curve (e :: tr) = lastAnswered curve tr)
    (hfailed : ∀ c, e = .request c →
      ∃ p, c.answer = .error p ∧ parseU16 c.params.parties = .error p) :
    NumbersInv env m' (e :: tr) := by
  have hnumbers : ∀ uuid, numbersOf uuid (e :: tr) = numbersOf uuid tr := by
    intro uuid
    rw [numbersOf, hanswers, numbersOf]
  have old : ∀ {c s}, KeygenEvent.request c ∈ e :: tr → c.answer = .ok s → .request c ∈ tr := by
    intro c s hc ha
    cases List.mem_cons.mp hc with
    | inl he =>
        obtain ⟨p, hp, -⟩ := hfailed c he.symm
        rw [hp] at ha
        cases ha
    | inr hc => exact hc
  constructor
  · rw [hanswers, hissued]
    exact h.issued
  · intro uuid
    rw [hnumbers]
    exact h.counted uuid
  · intro curve c s hl
    rw [hlast] at hl
    rw [hnumbers]
    exact h.last curve c s hl
  · intro c c' s s' hc hc' ha ha'
    exact h.curves c c' s s' (old hc ha) (old hc' ha') ha ha'
  · intro c n hc hn hone
    cases List.mem_cons.mp hc with
    | inl he =>
        obtain ⟨p, -, hp⟩ := hfailed c he.symm
        rw [hp] at hn
        cases hn
    | inr hc => exact h.ranges c n hc hn hone

/-- The numbers of every run. -/
theorem KeygenRun.numbersInv (h : KeygenRun env json m tr) : NumbersInv env m tr := by
  refine Run.invariant (fun m tr => NumbersInv env m tr) ?_ ?_ h
  · rintro m rfl
    refine ⟨?_, fun uuid => ⟨0, rfl⟩, ?_, ?_, ?_⟩
    · intro s hs
      cases hs
    · intro curve c s hl
      cases hl
    · intro c c' s s' hc
      cases hc
    · intro c n hc
      cases hc
  · intro m e m' tr hrun hinv hstep
    have hstore := KeygenRun.storeInv hrun
    rcases hstep.cases hstore with ⟨key, rfl, rfl⟩ | ⟨c, p, rfl, ha, hparse, rfl⟩ |
      ⟨c, s, parties, rfl, ha, hparse, hbefore, hcounts, -, -⟩
    · exact hinv.weaken rfl rfl (fun _ => rfl) (fun c hc => by cases hc)
    · refine hinv.weaken rfl (answersOf_failed ha tr) (fun _ => lastAnswered_failed ha tr) ?_
      intro d hd
      obtain rfl := KeygenEvent.request.inj hd
      exact ⟨p, ha, hparse⟩
    · exact hinv.answered hstore ha hparse hbefore hcounts

/-- Answers whose numbers do not repeat within a group do not repeat. -/
theorem NumbersInv.nodup (h : NumbersInv env m tr) : (answersOf tr).Nodup := by
  rw [List.nodup_iff_count_le_one]
  intro s
  have hgroup : ((answersOf tr).filter fun s' => s'.uuid = s.uuid).Nodup := by
    refine List.Nodup.of_map (fun s => s.number.toNat) ?_
    obtain ⟨k, hk⟩ := h.counted s.uuid
    rw [numbersOf] at hk
    rw [hk]
    exact List.nodup_range'
  rw [← List.count_filter (p := fun s' => s'.uuid = s.uuid) (by simp)]
  exact List.nodup_iff_count_le_one.mp hgroup s

end

/-- Numbers are never shared: no answer is given twice, the answers with one
UUID count up from `1` and are of one curve, and a request for at least one
party is answered within its range. -/
theorem keygen_numbers {env : Env} {json : Codec PartySignup} {m : CounterState}
    {tr : List KeygenEvent} (h : KeygenRun env json m tr) :
    (answersOf tr).Nodup ∧
    (∀ uuid, ∃ k, numbersOf uuid tr = List.range' 1 k) ∧
    (∀ c c' s s', .request c ∈ tr → .request c' ∈ tr → c.answer = .ok s → c'.answer = .ok s' →
      s.uuid = s'.uuid → c.curve = c'.curve) ∧
    (∀ c n, .request c ∈ tr → parseU16 c.params.parties = .ok n → 1 ≤ n →
      ∃ s, c.answer = .ok s ∧ 1 ≤ s.number ∧ s.number ≤ n) :=
  have hinv := KeygenRun.numbersInv h
  ⟨hinv.nodup, hinv.counted, hinv.curves, hinv.ranges⟩

/-- Three requests for groups of two, newest first. -/
def threeRequests : List (Params × String) :=
  [(⟨"2", "1"⟩, "ECDSA"), (⟨"2", "1"⟩, "ECDSA"), (⟨"2", "1"⟩, "ECDSA")]

/-- The third request starts a new group. -/
theorem keygen_numbers_three :
    answersOf (playKeygen defaultEnv tallyCodec threeRequests).2 =
      [⟨1, "u"⟩, ⟨2, "u"⟩, ⟨1, "uu"⟩] ∧
    (answersOf (playKeygen defaultEnv tallyCodec threeRequests).2).Nodup :=
  ⟨by decide, (keygen_numbers (playKeygen_run defaultEnv tallyCodec threeRequests)).1⟩

end TssCli
