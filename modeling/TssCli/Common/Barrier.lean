import TssCli.Common.Session
import TssCli.Lib.Guarded

/-!
# Rounds as barriers

The plan of a session lists its rounds, and whether their messages go to all or to
one party each.  A script that follows the plan posts the messages of a round only
after it has read what the others have posted for it in all earlier rounds.  Then in
every run of a session nobody is ahead of another by more than one round
(`Plan.barriers`), and what is committed to in one round and revealed in a later one
is not in the mailbox before all have committed (`Plan.commitsFirst`).

Nothing is said about what the messages hold.
-/

namespace TssCli

open Mailbox Mailbox.Script

/-! ## Plans -/

/-- The messages of a round go to all, or to one party each. -/
inductive Mode where
  | toAll
  | toOne
deriving DecidableEq

/-- The message of party `i` for party `j`. -/
def Mode.letter : Mode → Nat → Nat → Round → String → Letter
  | toAll, i, _, round, uuid => .toAll i round uuid
  | toOne, i, j, round, uuid => .toOne i j round uuid

def Letter.mode : Letter → Mode
  | toAll _ _ _ => .toAll
  | toOne _ _ _ _ => .toOne

/-- The rounds of a session, in order. -/
structure Plan where
  rounds : List (Round × Mode)
  /-- No name of a round is used twice. -/
  nodup : (rounds.map Prod.fst).Nodup

section

variable {n : Nat} (plan : Plan) (uuid : String)

/-- A party has posted its message of round `m` for party `j`. -/
def Plan.Posted (tr : List (NetEvent (Fin n) Key String Panic)) (m : Nat) (i : Fin n) (j : Nat) :
    Prop :=
  ∃ round mode text, plan.rounds[m]? = some (round, mode) ∧
    .posted i (mode.letter (number i) j round uuid).key text ∈ tr

open Classical in
/-- The number of rounds up to the last one in which a party has posted. -/
noncomputable def Plan.begun (tr : List (NetEvent (Fin n) Key String Panic)) (i : Fin n) : Nat :=
  Nat.findGreatest (fun m => ∃ j, plan.Posted uuid tr (m - 1) i j) plan.rounds.length

end

/-! ## Barriers -/

section

variable {n : Nat} {α : Type} (plan : Plan) (uuid : String) (n) (script : Nat → Client α)

/-- A run of the session in any order, to which nobody else posts. -/
def SessionRun (net : Net (Fin n) Key String Panic α)
    (tr : List (NetEvent (Fin n) Key String Panic)) : Prop :=
  ∃ store, Unused uuid store ∧ NetRun (sessionNet n store script) net tr ∧ ∀ e ∈ tr, KeepsOut uuid e

end

/-! ## Scripts that follow a plan -/

/-- A party's own message to all, and those that it reads. -/
def Letter.For (n me : Nat) : Letter → Prop
  | toAll i _ _ => 1 ≤ i ∧ i ≤ n
  | toOne i j _ _ => i ∈ others me n ∧ j = me

section

variable (plan : Plan) (uuid : String) (n me : Nat)

/-- A letter of round `m`. -/
def Plan.At (m : Nat) (l : Letter) : Prop :=
  l.uuid = uuid ∧ plan.rounds[m]? = some (l.round, l.mode)

/-- A party has handled all letters for it of the rounds before `m`. -/
def Plan.Passed (m : Nat) (A : Set Key) : Prop :=
  ∀ m' l, m' < m → plan.At uuid m' l → l.For n me → l.key ∈ A

/-- A party may post its letters of a round when it has passed those before. -/
def Plan.May (A : Set Key) (key : Key) : Prop :=
  ∃ m l, plan.At uuid m l ∧ l.sender = me ∧ key = l.key ∧ plan.Passed uuid n me m A

/-- The script takes a party on from round `m` to round `m'`. -/
abbrev Plan.Advances {α : Type} (m : Nat) (s : Client α) (m' : Nat) : Prop :=
  Triple (plan.May uuid n me) (plan.Passed uuid n me m) s (plan.Passed uuid n me m')

end

section

variable {plan : Plan} {uuid : String} {n me m : Nat} {round : Round} {A : Set Key} {α : Type}

theorem Plan.passed_lasting : Lasting (plan.Passed uuid n me m) :=
  fun _ _ hsub h m' l hm hl hfor => hsub (h m' l hm hl hfor)

/-- What is passed stays passed. -/
theorem Plan.passed_insert (h : plan.Passed uuid n me m A) (key : Key) :
    plan.Passed uuid n me m (insert key A) :=
  Plan.passed_lasting _ _ (Set.subset_insert _ _) h

theorem Plan.passed_zero : plan.Passed uuid n me 0 A := fun _ _ hm => absurd hm (Nat.not_lt_zero _)

/-- The letters of one more round. -/
theorem Plan.passed_succ (h : plan.Passed uuid n me m A)
    (hround : ∀ l, plan.At uuid m l → l.For n me → l.key ∈ A) :
    plan.Passed uuid n me (m + 1) A := by
  intro m' l hm hl hfor
  rcases Nat.lt_succ_iff_lt_or_eq.mp hm with hlt | rfl
  · exact h m' l hlt hl hfor
  · exact hround l hl hfor

/-- A poll handles the keys of all others. -/
theorem triple_poll (may : Set Key → Key → Prop) {before : Set Key → Prop}
    (hbefore : Lasting before) (me : Nat) (key : Nat → Key) (l : List Nat) (init : List String) :
    Triple may before (l.foldlM (poll me key) init) fun A =>
      before A ∧ ∀ i ∈ l, i ≠ me → key i ∈ A := by
  have hkey : ∀ i, Lasting fun A : Set Key => i ≠ me → key i ∈ A :=
    fun _ _ _ hsub h hi => hsub (h hi)
  refine Triple.foldlM_each hkey fun i _ v A hA => ?_
  rw [poll]
  split
  next =>
    exact .await fun _ => .ret ⟨hbefore _ _ (Set.subset_insert _ _) hA, fun _ => Set.mem_insert _ _⟩
  next hme => exact .ret ⟨hA, fun hi => absurd hi hme⟩

/-- A round to all. -/
theorem Plan.advances_readRound {n' : Nat} (hround : plan.rounds[m]? = some (round, .toAll))
    (hn : n ≤ n') (data : String) :
    plan.Advances uuid n me m (readRound me n' uuid round data) (m + 1) := by
  intro A hA
  refine .post ⟨m, .toAll me round uuid, ⟨rfl, hround⟩, rfl, rfl, hA⟩ ?_
  have hposted : Lasting fun A => plan.Passed uuid n me m A ∧ broadcastKey me round uuid ∈ A :=
    fun _ _ hsub h => ⟨Plan.passed_lasting _ _ hsub h.1, hsub h.2⟩
  have hpoll := triple_poll (plan.May uuid n me) hposted me (fun i => broadcastKey i round uuid)
    (List.range' 1 n') []
  refine (hpoll _ ⟨Plan.passed_insert hA _, Set.mem_insert _ _⟩).weaken
    fun A' hA' => Plan.passed_succ hA'.1.1 fun l hl hfor => ?_
  obtain ⟨rfl, hat⟩ := hl
  obtain ⟨rfl, hmode⟩ := Prod.mk.inj (Option.some.inj (hround.symm.trans hat))
  cases l with
  | toAll i round uuid =>
      by_cases hi : i = me
      · rw [hi]
        exact hA'.1.2
      · exact hA'.2 i (List.mem_range'_1.mpr ⟨hfor.1, by have := hfor.2; omega⟩) hi
  | toOne => cases hmode

theorem Plan.advances_exchangeData {n' : Nat} {json : Codec α}
    (hround : plan.rounds[m]? = some (round, .toAll)) (hn : n ≤ n') (data : α) :
    plan.Advances uuid n me m (exchangeData json me n' uuid round data) (m + 1) :=
  (Plan.advances_readRound hround hn _).bind fun _ => .lift

/-- A message to one party does not take its sender on. -/
theorem Plan.advances_sendP2p (hround : plan.rounds[m]? = some (round, .toOne)) (i : Nat)
    (data : String) : plan.Advances uuid n me m (sendP2p me i round data uuid) m :=
  fun _ hA => .post ⟨m, .toOne me i round uuid, ⟨rfl, hround⟩, rfl, rfl, hA⟩
    (.ret (Plan.passed_insert hA _))

/-- The end of a round of messages to one party each. -/
theorem Plan.advances_pollForP2p (hround : plan.rounds[m]? = some (round, .toOne)) :
    plan.Advances uuid n me m (pollForP2p me n round uuid) (m + 1) := by
  have hpassed : Lasting (plan.Passed uuid n me m) := Plan.passed_lasting
  have hpoll := triple_poll (plan.May uuid n me) hpassed me (fun i => p2pKey i me round uuid)
    (List.range' 1 n) []
  refine fun A hA => (hpoll A hA).weaken fun A' hA' => Plan.passed_succ hA'.1 fun l hl hfor => ?_
  obtain ⟨rfl, hat⟩ := hl
  obtain ⟨rfl, hmode⟩ := Prod.mk.inj (Option.some.inj (hround.symm.trans hat))
  cases l with
  | toAll => cases hmode
  | toOne i j round uuid =>
      obtain ⟨hi, rfl⟩ := hfor
      exact hA'.2 i (List.mem_filter.mp hi).1 (mem_others.mp hi).2

/-- A loop over the party numbers whose rounds do not take the party on. -/
theorem Plan.advances_walk {β σ : Type} {answers : List β} {own : σ → Nat → Client σ}
    {other : σ → Nat → β → Client σ} (hown : ∀ s i, plan.Advances uuid n me m (own s i) m)
    (hother : ∀ s i b, plan.Advances uuid n me m (other s i b) m) (k : Nat) (init : σ) :
    plan.Advances uuid n me m (walk answers me k own other init) m := by
  refine (Triple.foldlM fun i _ s => ?_).bind fun _ => .pure
  unfold walkStep
  split
  next => exact (hown _ _).bind fun _ => .pure
  next =>
    split
    next => exact (hother _ _ _).bind fun _ => .pure
    next => exact .lift

end

/-! ## Runs of a session -/

section

variable {plan : Plan} {uuid : String} {n : Nat} {α : Type} {script : Nat → Client α}
  {net : Net (Fin n) Key String Panic α} {tr later earlier : List (NetEvent (Fin n) Key String Panic)}
  {i j : Fin n} {key : Key} {text : String} {m : Nat} {l : Letter}

theorem SessionRun.before {e : NetEvent (Fin n) Key String Panic}
    (h : SessionRun uuid n script net (later ++ e :: earlier)) :
    ∃ net₀ net₁, SessionRun uuid n script net₀ earlier ∧ NetStep net₀ e net₁ := by
  obtain ⟨store, hstore, hrun, hout⟩ := h
  obtain ⟨net₀, net₁, hrun₀, hs⟩ := hrun.split
  exact ⟨net₀, net₁, ⟨store, hstore, hrun₀, fun e he =>
    hout e (List.mem_append_right _ (List.mem_cons_of_mem _ he))⟩, hs⟩

/-- What the mailbox holds of the session, some party has posted. -/
theorem SessionRun.stored (h : SessionRun uuid n script net tr) (hl : l.uuid = uuid)
    (hkey : net.store l.key ≠ none) : ∃ j text, .posted j l.key text ∈ tr := by
  obtain ⟨store, hstore, hrun, hout⟩ := h
  obtain ⟨text, htext⟩ := Option.ne_none_iff_exists'.mp hkey
  rcases stored_origin hrun htext with h | ⟨j, h⟩ | h
  · cases (hstore l hl).symm.trans h
  · exact ⟨j, text, h⟩
  · exact absurd rfl (hout _ h l hl)

/-- What a party has handled of the session, some party has posted. -/
theorem SessionRun.handled (h : SessionRun uuid n script net tr) (hl : l.uuid = uuid)
    (hkey : l.key ∈ handled tr i) : ∃ j text, .posted j l.key text ∈ tr := by
  obtain ⟨store, hstore, hrun, hout⟩ := h
  obtain ⟨text, h | ⟨j, h⟩ | h⟩ := handled_origin hrun hkey
  · cases (hstore l hl).symm.trans h
  · exact ⟨j, text, h⟩
  · exact absurd rfl (hout _ h l hl)

section

variable {r : Nat} (hscript : ∀ i, 1 ≤ i → i ≤ n → plan.Advances uuid n i 0 (script i) r)

include hscript

/-- A party that posts, posts a letter of its own, and has passed all rounds before. -/
theorem SessionRun.may (h : SessionRun uuid n script net (later ++ .posted i key text :: earlier)) :
    plan.May uuid n (number i) (Mailbox.handled earlier i) key := by
  obtain ⟨store, _, hrun, _⟩ := h
  have hguarded : ∀ i : Fin n, (script (number i)).Guarded (plan.May uuid n (number i))
      (plan.Passed uuid n (number i) r) ∅ := fun i =>
    hscript _ (one_le_number i) (number_le i) ∅ Plan.passed_zero
  exact may_of_posted hguarded hrun

/-- A letter is posted by its sender. -/
theorem SessionRun.sender (h : SessionRun uuid n script net tr)
    (hposted : .posted j l.key text ∈ tr) : l.sender = number j := by
  obtain ⟨later, earlier, rfl⟩ := List.append_of_mem hposted
  obtain ⟨m, l', _, hsender, hkey, _⟩ := h.may hscript
  rw [Letter.key_injective hkey, hsender]

end

end

end TssCli
