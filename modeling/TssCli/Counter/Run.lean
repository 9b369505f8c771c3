import TssCli.Lib.Transition
import TssCli.Common.Manager

/-!
# Runs of key generation sign-ups

`signup_keygen` keeps one counter per curve: the number and the UUID of its last
answer.  A run is any sequence of its requests, on any curves and with any
parameters, with entries of the map expiring in between.

`Counts` lists what a request can be answered with: the number after the stored
one under the stored UUID, or `1` under a new UUID.  `StoreInv` says what a run
keeps of the store: a stored counter is the last answer on its curve.
-/

namespace TssCli

open Transition

/-! ## The manager over time -/

/-- The part of the manager `signup_keygen` uses. -/
structure CounterState where
  db : Db
  /-- The number of UUIDs drawn. -/
  issued : Nat
  /-- Whether a handler panicked while it held the lock. -/
  poisoned : Bool

/-- The manager as `run_manager` starts it. -/
def CounterState.init : CounterState where
  db := fun _ => none
  issued := 0
  poisoned := false

/-- One request, the counter it found and its answer. -/
structure KeygenRecord where
  params : Params
  curve : String
  before : Option PartySignup
  answer : Except Panic PartySignup
deriving DecidableEq

/-- What happens at the manager. -/
inductive KeygenEvent where
  | request (record : KeygenRecord)
  | expired (key : Key)

/-- The counter stored under a key. -/
def counterAt (json : Codec PartySignup) (db : Db) (key : Key) : Option PartySignup :=
  (db key).bind json.decode

/-- `signup_keygen` and its lock.  `parties` is parsed before the lock is taken,
and a panic after that poisons the lock. -/
def serveKeygen (env : Env) (json : Codec PartySignup) (m : CounterState) (params : Params)
    (curve : String) : CounterState × Except Panic PartySignup :=
  match parseU16 params.parties with
  | .error panic => (m, .error panic)
  | .ok _ =>
    if m.poisoned then (m, .error .poisoned)
    else match (signupKeygen env json params curve m.db).run m.issued with
      | .ok ((partySignup, db), issued) => ({ m with db, issued }, .ok partySignup)
      | .error panic => ({ m with poisoned := true }, .error panic)

/-- The record of a request. -/
def keygenRecordOf (env : Env) (json : Codec PartySignup) (m : CounterState) (params : Params)
    (curve : String) : KeygenRecord where
  params := params
  curve := curve
  before := counterAt json m.db (keygenKey curve)
  answer := (serveKeygen env json m params curve).2

/-- One step of the manager. -/
inductive KeygenStep (env : Env) (json : Codec PartySignup) :
    CounterState → KeygenEvent → CounterState → Prop where
  | request {m : CounterState} (params : Params) (curve : String) :
      KeygenStep env json m (.request (keygenRecordOf env json m params curve))
        (serveKeygen env json m params curve).1
  | expired {m : CounterState} (key : Key) :
      KeygenStep env json m (.expired key) { m with db := Function.update m.db key none }

/-- A run of key generation sign-ups. -/
abbrev KeygenRun (env : Env) (json : Codec PartySignup) : CounterState → List KeygenEvent → Prop :=
  Run (fun m => m = CounterState.init) (KeygenStep env json)

/-! ## One request -/

/-- The answer to a request for `parties` that finds the counter `before`, and
the UUIDs drawn before and after it. -/
inductive Counts (env : Env) (parties : UInt16) :
    Option PartySignup → Nat → PartySignup → Nat → Prop where
  /-- The next number of the stored group. -/
  | next {c : PartySignup} {k : Nat} :
      c.number < parties → Counts env parties (some c) k ⟨c.number + 1, c.uuid⟩ k
  /-- The first number of a new group. -/
  | first {before : Option PartySignup} {k j : Nat} :
      (∀ c, before = some c → parties ≤ c.number) → k ≤ j →
      Counts env parties before k ⟨1, env.uuid j⟩ (j + 1)

section

variable {env : Env} {json : Codec PartySignup} {parties : UInt16}

theorem keygenKey_injective : Function.Injective keygenKey :=
  fun _ _ h => String.append_right_inj _ |>.mp h

/-- A counter below `parties` can be incremented. -/
theorem addU16_one_of_lt (c : Bool) {number : UInt16} (h : number < parties) :
    addU16 c number 1 = .ok (number + 1) := by
  have hlt : number.toNat < parties.toNat := h
  have hmax : parties.toNat < UInt16.size := parties.toNat_lt
  have hone : (1 : UInt16).toNat = 1 := rfl
  rw [addU16, hone, decide_eq_false (by omega), Bool.and_false]
  rfl

theorem toNat_add_one_of_lt {number : UInt16} (h : number < parties) :
    (number + 1).toNat = number.toNat + 1 := by
  have hlt : number.toNat < parties.toNat := h
  have hmax : parties.toNat < 2 ^ 16 := parties.toNat_lt
  have hone : (1 : UInt16).toNat = 1 := rfl
  rw [UInt16.toNat_add, hone, Nat.mod_eq_of_lt (by omega)]

/-- `next` on the counter `c`. -/
theorem nextSignup_run (env : Env) (c : PartySignup) (parties : UInt16) (k : Nat) :
    (nextSignup env c parties).run k =
      if c.number < parties then .ok (⟨c.number + 1, c.uuid⟩, k)
      else .ok (⟨1, env.uuid k⟩, k + 1) := by
  unfold nextSignup
  split
  next h =>
    rw [addU16_one_of_lt env.overflowChecks h]
    rfl
  next => rfl

theorem nextSignup_le {c s : PartySignup} {k k' : Nat}
    (h : (nextSignup env c parties).run k = .ok (s, k')) : k ≤ k' := by
  rw [nextSignup_run] at h
  split at h
  next => rw [(Prod.mk.inj (Except.ok.inj h)).2]
  next =>
    rw [← (Prod.mk.inj (Except.ok.inj h)).2]
    exact Nat.le_succ k

/-- An answered request counts on from some counter, and stores the answer. -/
theorem signupKeygen_ok {params : Params} {curve : String} {db db' : Db} {s : PartySignup}
    {k k' : Nat} (h : (signupKeygen env json params curve db).run k = .ok ((s, db'), k')) :
    ∃ parties c k₁, parseU16 params.parties = .ok parties ∧ k ≤ k₁ ∧
      (nextSignup env c parties).run k₁ = .ok (s, k') ∧
      db' = set db { key := keygenKey curve, value := json.encode s } := by
  obtain ⟨parties, k₀, h₀, hread⟩ := Rust.bind_ok h
  obtain ⟨hparse, rfl⟩ := Rust.lift_ok h₀
  obtain ⟨c, k₁, h₁, hnext⟩ := Rust.bind_ok hread
  obtain ⟨s', k₂, h₂, hstore⟩ := Rust.bind_ok hnext
  obtain ⟨hp, rfl⟩ := Rust.pure_ok hstore
  obtain ⟨rfl, rfl⟩ := Prod.mk.inj hp
  refine ⟨parties, c, k₁, hparse, ?_, h₂, rfl⟩
  unfold readCounter at h₁
  split at h₁
  next => rw [(Rust.lift_ok h₁).2]
  next =>
    obtain ⟨u, k₃, h₃, h₄⟩ := Rust.bind_ok h₁
    rw [(Rust.pure_ok h₄).2, (newUuid_ok h₃).2]
    exact Nat.le_succ _

/-- A request that finds the counter `c` counts on from it. -/
theorem signupKeygen_stored (env : Env) {params : Params} {curve : String} {db : Db} {c : PartySignup}
    (hparse : parseU16 params.parties = .ok parties)
    (hdb : db (keygenKey curve) = some (json.encode c)) (k : Nat) :
    (signupKeygen env json params curve db).run k =
      if c.number < parties then
        .ok ((⟨c.number + 1, c.uuid⟩,
          set db ⟨keygenKey curve, json.encode ⟨c.number + 1, c.uuid⟩⟩), k)
      else
        .ok ((⟨1, env.uuid k⟩, set db ⟨keygenKey curve, json.encode ⟨1, env.uuid k⟩⟩), k + 1) := by
  have hcounter : readCounter env json db (keygenKey curve) =
      liftM (json.read (json.encode c)) := by
    rw [readCounter, hdb]
  unfold signupKeygen
  rw [hparse, Rust.lift_ok_bind, hcounter, json.read_encode, Rust.lift_ok_bind]
  split
  next h =>
    rw [Rust.run_bind_of_ok (by rw [nextSignup_run, if_pos h])]
    rfl
  next h =>
    rw [Rust.run_bind_of_ok (by rw [nextSignup_run, if_neg h])]
    rfl

/-- A request with a number of parties is answered, if the stored counter can be read. -/
theorem signupKeygen_run (env : Env) (json : Codec PartySignup) {params : Params}
    (curve : String) {db : Db} (hparse : parseU16 params.parties = .ok parties)
    (hread : ∀ o, db (keygenKey curve) = some o → ∃ c, o = json.encode c) (k : Nat) :
    ∃ s k', (signupKeygen env json params curve db).run k =
        .ok ((s, set db { key := keygenKey curve, value := json.encode s }), k') ∧
      Counts env parties (counterAt json db (keygenKey curve)) k s k' := by
  cases hdb : db (keygenKey curve) with
  | none =>
      have hcounter : (readCounter env json db (keygenKey curve)).run k =
          .ok (⟨0, env.uuid k⟩, k + 1) := by
        rw [readCounter, hdb]
        rfl
      have hbefore : counterAt json db (keygenKey curve) = none := by rw [counterAt, hdb]; rfl
      unfold signupKeygen
      rw [hbefore, hparse, Rust.lift_ok_bind, Rust.run_bind_of_ok hcounter]
      by_cases h : (0 : UInt16) < parties
      · refine ⟨⟨1, env.uuid k⟩, k + 1, ?_, .first (by simp) (Nat.le_refl k)⟩
        rw [Rust.run_bind_of_ok (by rw [nextSignup_run, if_pos h])]
        rfl
      · refine ⟨⟨1, env.uuid (k + 1)⟩, k + 2, ?_, .first (by simp) (Nat.le_succ k)⟩
        rw [Rust.run_bind_of_ok (by rw [nextSignup_run, if_neg h])]
        rfl
  | some o =>
      obtain ⟨c, rfl⟩ := hread o hdb
      have hbefore : counterAt json db (keygenKey curve) = some c := by
        rw [counterAt, hdb, Option.bind_some, json.decode_encode]
      rw [hbefore]
      have hrun := signupKeygen_stored env hparse hdb k
      split at hrun
      next h => exact ⟨_, _, hrun, .next h⟩
      next h =>
        refine ⟨_, _, hrun, .first ?_ (Nat.le_refl k)⟩
        intro c' hc
        rw [← Option.some.inj hc]
        exact UInt16.not_lt.mp h

theorem Counts.le {before : Option PartySignup} {k k' : Nat} {s : PartySignup}
    (h : Counts env parties before k s k') : k ≤ k' := by
  cases h with
  | next => exact Nat.le_refl k
  | first _ hle => omega

/-- A number given to a request for at least one party is within its range. -/
theorem Counts.range {before : Option PartySignup} {k k' : Nat} {s : PartySignup}
    (h : Counts env parties before k s k') (hparties : 1 ≤ parties) :
    1 ≤ s.number ∧ s.number ≤ parties := by
  cases h with
  | next hlt =>
      have hnat := toNat_add_one_of_lt hlt
      constructor
      · rw [UInt16.le_iff_toNat_le, hnat]
        exact Nat.succ_le_succ (Nat.zero_le _)
      · rw [UInt16.le_iff_toNat_le, hnat]
        exact hlt
  | first => exact ⟨UInt16.le_refl 1, hparties⟩

end

/-! ## The store of a run -/

/-- The last request on a curve that was answered, and its answer. -/
def lastAnswered (curve : String) : List KeygenEvent → Option (KeygenRecord × PartySignup)
  | [] => none
  | .expired _ :: tr => lastAnswered curve tr
  | .request c :: tr =>
    match c.answer with
    | .ok s => if c.curve = curve then some (c, s) else lastAnswered curve tr
    | .error _ => lastAnswered curve tr

/-- What a run keeps of the store. -/
structure StoreInv (json : Codec PartySignup) (m : CounterState) (tr : List KeygenEvent) :
    Prop where
  /-- No handler panics while it holds the lock. -/
  unpoisoned : m.poisoned = false
  /-- A stored counter is the last answer on its curve. -/
  stored : ∀ curve o, m.db (keygenKey curve) = some o →
    ∃ c s, lastAnswered curve tr = some (c, s) ∧ o = json.encode s

section

variable {env : Env} {json : Codec PartySignup} {m m' : CounterState} {tr : List KeygenEvent}
  {e : KeygenEvent} {c : KeygenRecord} {s : PartySignup} {curve : String}

theorem lastAnswered_mem : ∀ (tr : List KeygenEvent), lastAnswered curve tr = some (c, s) →
    .request c ∈ tr ∧ c.answer = .ok s ∧ c.curve = curve
  | .expired _ :: tr, h => by
      obtain ⟨hmem, hrest⟩ := lastAnswered_mem tr h
      exact ⟨List.mem_cons_of_mem _ hmem, hrest⟩
  | .request d :: tr, h => by
      rw [lastAnswered] at h
      split at h
      next s' ha =>
        split at h
        next hc =>
          obtain ⟨rfl, rfl⟩ := Prod.mk.inj (Option.some.inj h)
          exact ⟨List.mem_cons_self .., ha, hc⟩
        next =>
          obtain ⟨hmem, hrest⟩ := lastAnswered_mem tr h
          exact ⟨List.mem_cons_of_mem _ hmem, hrest⟩
      next =>
        obtain ⟨hmem, hrest⟩ := lastAnswered_mem tr h
        exact ⟨List.mem_cons_of_mem _ hmem, hrest⟩

theorem StoreInv.found (h : StoreInv json m tr)
    (hc : counterAt json m.db (keygenKey curve) = some s) :
    ∃ c, lastAnswered curve tr = some (c, s) := by
  unfold counterAt at hc
  cases hdb : m.db (keygenKey curve) with
  | none =>
      rw [hdb] at hc
      cases hc
  | some o =>
      obtain ⟨c, s', hlast, rfl⟩ := h.stored curve o hdb
      rw [hdb, Option.bind_some, json.decode_encode] at hc
      rw [Option.some.inj hc] at hlast
      exact ⟨c, hlast⟩

/-- The group a request is answered from: the one of the last answer on its
curve, or a new one. -/
theorem StoreInv.group {parties : UInt16} (h : StoreInv json m tr)
    (hbefore : c.before = counterAt json m.db (keygenKey c.curve))
    (hcounts : Counts env parties c.before m.issued s m'.issued) :
    (∃ d t, c.before = some t ∧ lastAnswered c.curve tr = some (d, t) ∧ t.number < parties ∧
      s = ⟨t.number + 1, t.uuid⟩) ∨
    (∃ j, (∀ t, c.before = some t → parties ≤ t.number) ∧ m.issued ≤ j ∧ j < m'.issued ∧
      s = ⟨1, env.uuid j⟩) := by
  generalize c.before = before at hbefore hcounts
  generalize hk : m'.issued = k' at hcounts
  cases hcounts with
  | @next t _ hlt =>
      obtain ⟨d, hlast⟩ := h.found hbefore.symm
      exact Or.inl ⟨d, t, rfl, hlast, hlt, rfl⟩
  | first hdone hle => exact Or.inr ⟨_, hdone, hle, Nat.lt_succ_self _, rfl⟩

/-- A step forgets an entry, fails a request without a number of parties, or
answers a request. -/
theorem KeygenStep.cases (hinv : StoreInv json m tr) (h : KeygenStep env json m e m') :
    (∃ key, e = .expired key ∧ m' = { m with db := Function.update m.db key none }) ∨
    (∃ c p, e = .request c ∧ c.answer = .error p ∧ parseU16 c.params.parties = .error p ∧ m' = m) ∨
    (∃ c s parties, e = .request c ∧ c.answer = .ok s ∧
      parseU16 c.params.parties = .ok parties ∧
      c.before = counterAt json m.db (keygenKey c.curve) ∧
      Counts env parties c.before m.issued s m'.issued ∧ m'.poisoned = m.poisoned ∧
      m'.db = set m.db { key := keygenKey c.curve, value := json.encode s }) := by
  cases h with
  | expired key => exact Or.inl ⟨key, rfl, rfl⟩
  | request params curve =>
      cases hparse : parseU16 params.parties with
      | error p =>
          have hserve : serveKeygen env json m params curve = (m, .error p) := by
            rw [serveKeygen, hparse]
          refine Or.inr (Or.inl ⟨_, p, rfl, ?_, hparse, ?_⟩)
          · rw [keygenRecordOf, hserve]
          · rw [hserve]
      | ok parties =>
          have hread : ∀ o, m.db (keygenKey curve) = some o → ∃ c, o = json.encode c := by
            intro o ho
            obtain ⟨c, s, -, he⟩ := hinv.stored curve o ho
            exact ⟨s, he⟩
          obtain ⟨s, k', hrun, hcounts⟩ := signupKeygen_run env json curve hparse hread m.issued
          have hserve : serveKeygen env json m params curve =
              ({ m with db := set m.db ⟨keygenKey curve, json.encode s⟩, issued := k' }, .ok s) := by
            rw [serveKeygen, hparse]
            dsimp only
            rw [if_neg (Bool.eq_false_iff.mp hinv.unpoisoned), hrun]
          refine Or.inr (Or.inr ⟨_, s, parties, rfl, ?_, hparse, rfl, ?_, ?_, ?_⟩)
          · rw [keygenRecordOf, hserve]
          · rw [hserve]
            exact hcounts
          · rw [hserve]
          · rw [hserve]
            rfl

theorem lastAnswered_answered (ha : c.answer = .ok s) (tr : List KeygenEvent) :
    lastAnswered c.curve (.request c :: tr) = some (c, s) := by
  rw [lastAnswered, ha]
  exact if_pos rfl

theorem lastAnswered_other (hc : c.curve ≠ curve) (tr : List KeygenEvent) :
    lastAnswered curve (.request c :: tr) = lastAnswered curve tr := by
  rw [lastAnswered]
  split
  next => exact if_neg hc
  next => rfl

theorem lastAnswered_failed {p : Panic} (ha : c.answer = .error p) (tr : List KeygenEvent) :
    lastAnswered curve (.request c :: tr) = lastAnswered curve tr := by
  rw [lastAnswered, ha]

/-- Every step keeps the store. -/
theorem StoreInv.step (h : StoreInv json m tr) (hstep : KeygenStep env json m e m') :
    StoreInv json m' (e :: tr) := by
  rcases hstep.cases h with ⟨key, rfl, rfl⟩ | ⟨c, p, rfl, ha, -, rfl⟩ |
    ⟨c, s, parties, rfl, ha, -, -, -, hpois, hdb⟩
  · refine ⟨h.unpoisoned, fun curve o ho => ?_⟩
    by_cases hkey : keygenKey curve = key
    · rw [hkey] at ho
      simp at ho
    · dsimp only at ho
      rw [Function.update_of_ne hkey] at ho
      exact h.stored curve o ho
  · refine ⟨h.unpoisoned, fun curve o ho => ?_⟩
    rw [lastAnswered_failed ha]
    exact h.stored curve o ho
  · refine ⟨hpois.trans h.unpoisoned, fun curve o ho => ?_⟩
    rw [hdb] at ho
    by_cases hcurve : c.curve = curve
    · subst hcurve
      refine ⟨c, s, lastAnswered_answered ha tr, ?_⟩
      simpa [set, eq_comm] using ho
    · have hkey : keygenKey curve ≠ keygenKey c.curve :=
        fun he => hcurve (keygenKey_injective he).symm
      rw [set, Function.update_of_ne hkey] at ho
      rw [lastAnswered_other hcurve]
      exact h.stored curve o ho

/-- The store of every run. -/
theorem KeygenRun.storeInv (h : KeygenRun env json m tr) : StoreInv json m tr := by
  refine Run.invariant (fun m tr => StoreInv json m tr) ?_ ?_ h
  · rintro m rfl
    exact ⟨rfl, fun curve o ho => by cases ho⟩
  · intro m e m' tr _ hinv hstep
    exact hinv.step hstep

end

/-! ## Runs that are played -/

/-- A list of requests, newest first, with nothing expiring in between. -/
def playKeygen (env : Env) (json : Codec PartySignup) :
    List (Params × String) → CounterState × List KeygenEvent
  | [] => (.init, [])
  | (params, curve) :: earlier =>
    let (m, tr) := playKeygen env json earlier
    ((serveKeygen env json m params curve).1,
      .request (keygenRecordOf env json m params curve) :: tr)

theorem playKeygen_run (env : Env) (json : Codec PartySignup) :
    ∀ requests, KeygenRun env json (playKeygen env json requests).1 (playKeygen env json requests).2
  | [] => .start rfl
  | (params, curve) :: earlier => (playKeygen_run env json earlier).snoc (.request params curve)

/-- Counters written as a tally and the UUID. -/
def tallyCodec : Codec PartySignup where
  encode s := String.ofList (List.replicate s.number.toNat 'I' ++ '-' :: s.uuid.toList)
  decode t :=
    match t.toList.dropWhile (· == 'I') with
    | '-' :: uuid =>
      some ⟨UInt16.ofNat (t.toList.takeWhile (· == 'I')).length, String.ofList uuid⟩
    | _ => none
  decode_encode s := by
    have hdrop : (List.replicate s.number.toNat 'I' ++ '-' :: s.uuid.toList).dropWhile (· == 'I') =
        '-' :: s.uuid.toList := by
      rw [List.dropWhile_append_of_pos (by simp)]
      rfl
    have htake : (List.replicate s.number.toNat 'I' ++ '-' :: s.uuid.toList).takeWhile (· == 'I') =
        List.replicate s.number.toNat 'I' := by
      rw [List.takeWhile_append_of_pos (by simp)]
      simp
    simp [hdrop, htake]

end TssCli
