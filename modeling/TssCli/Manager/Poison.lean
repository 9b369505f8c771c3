import TssCli.Manager.Retry
import TssCli.Room.Panics

/-!
# Requests that poison the lock

A handler that panics with the lock in its hand stops the manager for good: every
later `write().unwrap()` panics.  `AnyRun` is a run of requests by anybody: `set`
takes any key and any text, and a sign-up any numbers.

Two things are left to the requests.  A sign-up decodes what it finds under its key,
and `set` writes there too.  And the numbers of a room can leave the range of `u16`
(`RoomFits`).  Where the requests keep to both (`Harmless`), the records stay
readable and the lock is never poisoned.  `Answerable` is the exact condition of one
step.
-/

namespace TssCli

open Transition

/-! ## The store -/

/-- What is stored under the key, if anything is, can be read. -/
def Legible {α : Type} (json : Codec α) (db : Db) (key : Key) : Prop :=
  ∀ text, db key = some text → ∃ a, json.decode text = some a

section

variable (keygenJson : Codec PartySignup) (roomJson : Codec SigningRoom)

/-- The entry does not put an unreadable text in the place of a record. -/
structure Readable (entry : Entry) : Prop where
  counter : ∀ curve, entry.key = keygenKey curve → ∃ s, keygenJson.decode entry.value = some s
  room : ∀ request, entry.key = signKey request → ∃ r, roomJson.decode entry.value = some r

/-- All records can be read. -/
structure Records (db : Db) : Prop where
  counters : ∀ curve, Legible keygenJson db (keygenKey curve)
  rooms : ∀ request, Legible roomJson db (signKey request)

/-- The entry a request stores, if it stores one. -/
inductive Stores : ManagerRequest → Entry → Prop where
  | posted (entry : Entry) : Stores (.set entry) entry
  | counted {params : Params} {curve : String} (s : PartySignup) :
      Stores (.signupKeygen params curve) ⟨keygenKey curve, keygenJson.encode s⟩
  | seated {request : PartySignupRequestBody} (r : SigningRoom) :
      Stores (.signupSign request) ⟨signKey request, roomJson.encode r⟩

end

/-! ## Runs -/

/-- What happens at the manager, with the manager it happens to. -/
structure ManagerRecord where
  before : ManagerState
  event : ManagerEvent

section

variable (env : Env) (keygenJson : Codec PartySignup) (roomJson : Codec SigningRoom)

/-- One request of anybody, at any time past the timeout, or the end of an entry's
time. -/
inductive AnyStep : ManagerState → ManagerRecord → ManagerState → Prop where
  | request {m : ManagerState} {clock : Clock} (request : ManagerRequest) :
      clock.All (env.signupTimeout ≤ ·) →
      AnyStep m ⟨m, .request clock request⟩ (handle env keygenJson roomJson m clock request).1
  | expired {m : ManagerState} (key : Key) :
      AnyStep m ⟨m, .expired key⟩ { m with db := Function.update m.db key none }

/-- A run of requests by anybody. -/
abbrev AnyRun : ManagerState → List ManagerRecord → Prop :=
  Run (fun m => m = ManagerState.init) (AnyStep env keygenJson roomJson)

/-- The request is no danger to the manager `c.before`. -/
def Harmless (c : ManagerRecord) : Prop :=
  match c.event with
  | .request _ (.set entry) => Readable keygenJson roomJson entry
  | .request clock (.signupSign request) =>
      RoomFits env clock request (roomAt roomJson c.before.db (signKey request))
  | .request _ (.get _) => True
  | .request _ (.signupKeygen _ _) => True
  | .expired _ => True

/-- The manager `c.before`, not poisoned, gets through the request. -/
def Answerable (c : ManagerRecord) : Prop :=
  match c.event with
  -- `parties` is parsed before the lock is taken
  | .request _ (.signupKeygen params curve) =>
      (∃ parties, parseU16 params.parties = .ok parties) →
        Legible keygenJson c.before.db (keygenKey curve)
  | .request clock (.signupSign request) =>
      Legible roomJson c.before.db (signKey request) ∧
        RoomFits env clock request (roomAt roomJson c.before.db (signKey request))
  | .request _ (.get _) => True
  | .request _ (.set _) => True
  | .expired _ => True

/-- The manager after requests at one time, newest first, with the record of each. -/
def playManager (now : UInt64) : List ManagerRequest → ManagerState × List ManagerRecord
  | [] => (.init, [])
  | request :: earlier =>
    let (m, records) := playManager now earlier
    ((handle env keygenJson roomJson m now request).1, ⟨m, .request now request⟩ :: records)

end

section

variable {env : Env} {keygenJson : Codec PartySignup} {roomJson : Codec SigningRoom}
  {m m' : ManagerState} {tr : List ManagerRecord} {c : ManagerRecord} {clock : Clock}
  {entry : Entry} {db : Db}

/-! ## What is stored can be read -/

/-- What a sign-up stores is a record of its kind under a key of its kind. -/
theorem Stores.readable {request : ManagerRequest} (h : Stores keygenJson roomJson request entry)
    (hset : request = .set entry → Readable keygenJson roomJson entry) :
    Readable keygenJson roomJson entry := by
  cases h with
  | posted => exact hset rfl
  | counted s =>
      exact ⟨fun _ _ => ⟨s, keygenJson.decode_encode s⟩,
        fun request he => absurd he.symm (keygenKey_ne_signKey _ request)⟩
  | @seated request r =>
      exact ⟨fun curve he => absurd he (keygenKey_ne_signKey curve request),
        fun _ _ => ⟨r, roomJson.decode_encode r⟩⟩

theorem Legible.update {α : Type} {json : Codec α} {key key' : Key} {text : Option String}
    (h : Legible json db key)
    (ht : ∀ t, key' = key → text = some t → ∃ a, json.decode t = some a) :
    Legible json (Function.update db key' text) key := by
  intro t hdb
  by_cases hkey : key' = key
  · rw [← hkey, Function.update_self] at hdb
    exact ht t hkey hdb
  · rw [Function.update_of_ne (Ne.symm hkey)] at hdb
    exact h t hdb

theorem Records.stored (h : Records keygenJson roomJson db)
    (he : Readable keygenJson roomJson entry) : Records keygenJson roomJson (set db entry) where
  counters := fun curve => (h.counters curve).update fun t hkey ht => by
    cases ht
    exact he.counter curve hkey
  rooms := fun request => (h.rooms request).update fun t hkey ht => by
    cases ht
    exact he.room request hkey

theorem Records.expire (h : Records keygenJson roomJson db) (key : Key) :
    Records keygenJson roomJson (Function.update db key none) where
  counters := fun curve => (h.counters curve).update fun _ _ ht => by cases ht
  rooms := fun request => (h.rooms request).update fun _ _ ht => by cases ht

/-- A request stores one entry or none. -/
theorem handle_stores (m : ManagerState) (clock : Clock) (request : ManagerRequest) :
    (handle env keygenJson roomJson m clock request).1.db = m.db ∨
      ∃ entry, Stores keygenJson roomJson request entry ∧
        (handle env keygenJson roomJson m clock request).1.db = set m.db entry := by
  cases request with
  | get key =>
      rw [handle]
      split <;> exact Or.inl rfl
  | set entry =>
      rw [handle]
      split
      next => exact Or.inl rfl
      next => exact Or.inr ⟨entry, .posted entry, rfl⟩
  | signupKeygen params curve =>
      rw [handle_keygen]
      unfold serveKeygen
      split
      next => exact Or.inl rfl
      next =>
        split
        next => exact Or.inl rfl
        next =>
          split
          next s db issued hrun =>
            obtain ⟨_, _, _, -, -, -, rfl⟩ := signupKeygen_ok hrun
            exact Or.inr ⟨_, .counted s, rfl⟩
          next => exact Or.inl rfl
  | signupSign request =>
      rw [handle_sign]
      unfold serve
      split
      next => exact Or.inl rfl
      next =>
        split
        next answer db issued hrun =>
          obtain ⟨stored, -, rfl⟩ := signupSign_ok hrun
          cases stored with
          | none => exact Or.inl rfl
          | some r => exact Or.inr ⟨_, .seated r, rfl⟩
        next => exact Or.inl rfl

/-- A harmless step keeps the records readable. -/
theorem Records.step (h : Records keygenJson roomJson m.db)
    (hs : AnyStep env keygenJson roomJson m c m') (hc : Harmless env keygenJson roomJson c) :
    Records keygenJson roomJson m'.db := by
  cases hs with
  | expired key => exact h.expire key
  | @request clock request hclock =>
      rcases handle_stores m clock request with hdb | ⟨entry, hstores, hdb⟩
      · rw [hdb]
        exact h
      · rw [hdb]
        refine h.stored (hstores.readable fun he => ?_)
        rw [he] at hc
        exact hc

/-! ## Which requests panic -/

theorem readRoom_iff {key : Key} :
    (∃ before, readRoom roomJson db key = .ok before) ↔ Legible roomJson db key := by
  unfold readRoom Legible
  cases db key with
  | none => exact iff_of_true ⟨_, rfl⟩ fun _ h => (nomatch h)
  | some text =>
      constructor
      · rintro ⟨before, h⟩ t ht
        obtain ⟨r, hr, -⟩ := except_bind_ok h
        cases ht
        exact Codec.read_iff.mp ⟨r, hr⟩
      · intro h
        obtain ⟨r, hr⟩ := Codec.read_iff.mpr (h text rfl)
        refine ⟨some r, ?_⟩
        dsimp only
        rw [hr]
        rfl

theorem signupSign_succeeds (hclock : clock.All (env.signupTimeout ≤ ·))
    {request : PartySignupRequestBody} {k : Nat} :
    (signupSign env clock request roomJson db).Succeeds k ↔
      Legible roomJson db (signKey request) ∧
        RoomFits env clock request (roomAt roomJson db (signKey request)) := by
  have htells : clock.All (TellsTimeout env) := hclock.mono fun _ => tellsTimeout_of_le
  constructor
  · rintro ⟨⟨answer, db'⟩, k', h⟩
    obtain ⟨before, k₁, h₁, -⟩ := Rust.bind_ok h
    obtain ⟨stored, hroom, -⟩ := signupSign_ok h
    exact ⟨readRoom_iff.mp ⟨before, (Rust.lift_ok h₁).1⟩,
      (signupRoom_succeeds htells).mp ⟨_, _, hroom⟩⟩
  · rintro ⟨hlegible, hfits⟩
    obtain ⟨before, hread⟩ := readRoom_iff.mpr hlegible
    rw [← readRoom_ok hread] at hfits
    unfold signupSign
    dsimp only
    rw [hread, Rust.lift_ok_bind]
    refine (Rust.succeeds_bind_iff fun _ k' _ => ?_).mpr ((signupRoom_succeeds htells).mpr hfits)
    exact Rust.succeeds_pure _ k'

theorem readCounter_succeeds {key : Key} {k : Nat} :
    (readCounter env keygenJson db key).Succeeds k ↔ Legible keygenJson db key := by
  unfold readCounter Legible
  cases db key with
  | none => exact iff_of_true ⟨_, _, rfl⟩ fun _ h => (nomatch h)
  | some text =>
      rw [Rust.succeeds_lift_iff, Codec.read_iff]
      exact ⟨fun h t ht => by cases ht; exact h, fun h => h text rfl⟩

theorem signupKeygen_succeeds {params : Params} {curve : String} {parties : UInt16} {k : Nat}
    (hparse : parseU16 params.parties = .ok parties) :
    (signupKeygen env keygenJson params curve db).Succeeds k ↔
      Legible keygenJson db (keygenKey curve) := by
  unfold signupKeygen
  rw [hparse, Rust.lift_ok_bind]
  refine (Rust.succeeds_bind_iff fun s k' _ => ?_).trans readCounter_succeeds
  have hnext := nextSignup_run env s parties k'
  split at hnext
  next => exact (Rust.succeeds_bind_of_run hnext _).mpr (Rust.succeeds_pure _ _)
  next => exact (Rust.succeeds_bind_of_run hnext _).mpr (Rust.succeeds_pure _ _)

/-- A poisoned lock stays poisoned. -/
theorem handle_poisoned (hp : m.poisoned = true) (clock : Clock) (request : ManagerRequest) :
    (handle env keygenJson roomJson m clock request).1.poisoned = true := by
  cases request with
  | get key =>
      rw [handle, if_pos hp]
      exact hp
  | set entry =>
      rw [handle, if_pos hp]
      exact hp
  | signupKeygen params curve =>
      rw [handle_keygen]
      unfold serveKeygen
      split
      next => exact hp
      next =>
        rw [if_pos hp]
        exact hp
  | signupSign request =>
      rw [handle_sign, serve_poisoned env roomJson clock request hp]
      exact hp

theorem serveKeygen_healthy {m : CounterState} (hp : m.poisoned = false) {params : Params}
    {curve : String} :
    (serveKeygen env keygenJson m params curve).1.poisoned = false ↔
      ((∃ parties, parseU16 params.parties = .ok parties) →
        Legible keygenJson m.db (keygenKey curve)) := by
  unfold serveKeygen
  split
  next p hparse =>
    refine iff_of_true hp fun h => ?_
    obtain ⟨parties, hok⟩ := h
    rw [hparse] at hok
    cases hok
  next parties hparse =>
    have hiff : (signupKeygen env keygenJson params curve m.db).Succeeds m.issued ↔
      Legible keygenJson m.db (keygenKey curve) := signupKeygen_succeeds hparse
    rw [if_neg (Bool.eq_false_iff.mp hp)]
    split
    next hrun => exact iff_of_true hp fun _ => hiff.mp ⟨_, _, hrun⟩
    next p hrun =>
      refine iff_of_false Bool.false_ne_true.symm fun h => ?_
      obtain ⟨_, _, hok⟩ := hiff.mpr (h ⟨parties, hparse⟩)
      rw [hrun] at hok
      cases hok

theorem serve_healthy (hp : m.poisoned = false) (hclock : clock.All (env.signupTimeout ≤ ·))
    {request : PartySignupRequestBody} :
    (serve env roomJson m clock request).1.poisoned = false ↔
      Legible roomJson m.db (signKey request) ∧
        RoomFits env clock request (roomAt roomJson m.db (signKey request)) := by
  have hiff : (signupSign env clock request roomJson m.db).Succeeds m.issued ↔ _ :=
    signupSign_succeeds hclock
  unfold serve
  rw [if_neg (Bool.eq_false_iff.mp hp)]
  split
  next hrun => exact iff_of_true hp (hiff.mp ⟨_, _, hrun⟩)
  next p hrun =>
    refine iff_of_false Bool.false_ne_true.symm fun h => ?_
    obtain ⟨_, _, hok⟩ := hiff.mpr h
    rw [hrun] at hok
    cases hok

/-- A request poisons the lock exactly when the manager does not get through it. -/
theorem handle_healthy (hp : m.poisoned = false) (hclock : clock.All (env.signupTimeout ≤ ·))
    (request : ManagerRequest) :
    (handle env keygenJson roomJson m clock request).1.poisoned = false ↔
      Answerable env keygenJson roomJson ⟨m, .request clock request⟩ := by
  cases request with
  | get key =>
      rw [handle, if_neg (Bool.eq_false_iff.mp hp)]
      exact iff_of_true hp trivial
  | set entry =>
      rw [handle, if_neg (Bool.eq_false_iff.mp hp)]
      exact iff_of_true hp trivial
  | signupKeygen params curve => exact serveKeygen_healthy (m := ⟨m.db, m.issued, m.poisoned⟩) hp
  | signupSign request => exact serve_healthy hp hclock

/-- One step poisons the lock exactly when it is a request the manager does not get
through. -/
theorem AnyStep.poisoned_iff (hs : AnyStep env keygenJson roomJson m c m') :
    m'.poisoned = false ↔ m.poisoned = false ∧ Answerable env keygenJson roomJson c := by
  cases hs with
  | expired key => exact ⟨fun hp => ⟨hp, trivial⟩, fun h => h.1⟩
  | @request clock request hclock =>
      cases hp : m.poisoned with
      | true =>
          rw [handle_poisoned hp]
          exact iff_of_false Bool.false_ne_true.symm fun h => by cases h.1
      | false =>
          rw [handle_healthy hp hclock]
          exact ⟨fun h => ⟨rfl, h⟩, fun h => h.2⟩

/-- On readable records a harmless request is answered. -/
theorem Harmless.answerable (h : Harmless env keygenJson roomJson c)
    (hdb : Records keygenJson roomJson c.before.db) : Answerable env keygenJson roomJson c := by
  obtain ⟨m, e⟩ := c
  cases e with
  | expired => trivial
  | request clock request =>
      cases request with
      | get => trivial
      | set => trivial
      | signupKeygen params curve => exact fun _ => hdb.counters curve
      | signupSign request => exact ⟨hdb.rooms request, h⟩

/-- A run of harmless steps keeps the records readable and the lock whole. -/
theorem AnyRun.harmless (h : AnyRun env keygenJson roomJson m tr)
    (hc : ∀ c ∈ tr, Harmless env keygenJson roomJson c) :
    Records keygenJson roomJson m.db ∧ m.poisoned = false := by
  refine Run.invariant_of (fun m _ => Records keygenJson roomJson m.db ∧ m.poisoned = false)
    (Harmless env keygenJson roomJson) ?_ ?_ h hc
  · rintro m rfl
    exact ⟨⟨fun _ _ ht => (nomatch ht), fun _ _ ht => (nomatch ht)⟩, rfl⟩
  · intro m c m' tr _ hinv hharm hs
    refine ⟨hinv.1.step hs hharm, hs.poisoned_iff.mpr ⟨hinv.2, hharm.answerable ?_⟩⟩
    cases hs with
    | expired => exact hinv.1
    | request => exact hinv.1

/-- The lock is whole as long as the manager got through all requests. -/
theorem AnyRun.poisoned_iff (h : AnyRun env keygenJson roomJson m tr) :
    m.poisoned = false ↔ ∀ c ∈ tr, Answerable env keygenJson roomJson c := by
  refine Run.invariant
    (fun m tr => m.poisoned = false ↔ ∀ c ∈ tr, Answerable env keygenJson roomJson c) ?_ ?_ h
  · rintro m rfl
    exact iff_of_true rfl fun _ hc => by cases hc
  · intro m c m' tr _ hinv hs
    rw [hs.poisoned_iff, hinv, List.forall_mem_cons, and_comm]

/-- The requests played make a run. -/
theorem playManager_run (env : Env) (keygenJson : Codec PartySignup) (roomJson : Codec SigningRoom)
    {now : UInt64} (hnow : env.signupTimeout ≤ now) : ∀ requests : List ManagerRequest,
      AnyRun env keygenJson roomJson (playManager env keygenJson roomJson now requests).1
        (playManager env keygenJson roomJson now requests).2
  | [] => .start rfl
  | request :: earlier =>
      (playManager_run env keygenJson roomJson hnow earlier).snoc (.request request
        (Clock.all_steady hnow))

end

/-- Whatever requests come, the lock stays whole exactly as long as the manager gets
through them: a sign-up finds a text that can be read and no number of its room is
out of range.  The texts can be read as long as nobody sets another one under the
key of a record. -/
theorem never_poisoned {env : Env} {keygenJson : Codec PartySignup} {roomJson : Codec SigningRoom}
    {m : ManagerState} {tr : List ManagerRecord} (h : AnyRun env keygenJson roomJson m tr) :
    (m.poisoned = false ↔ ∀ c ∈ tr, Answerable env keygenJson roomJson c) ∧
    ((∀ c ∈ tr, Harmless env keygenJson roomJson c) → m.poisoned = false) :=
  ⟨h.poisoned_iff, fun hc => (h.harmless hc).2⟩

/-- A readable room, put into the store by hand, and a sign-up that takes a seat in it. -/
theorem never_poisoned_set :
    (playManager defaultEnv tallyCodec (Codec.ofCountable SigningRoom) 10
      [.signupSign (requestOf 1 ""),
        .set ⟨roomKey, (Codec.ofCountable SigningRoom).encode
          (SigningRoom.fresh defaultEnv 0 "m" 2)⟩]).1.poisoned = false := by
  refine (never_poisoned (playManager_run defaultEnv tallyCodec _ (by decide) _)).2 fun c hc => ?_
  rcases List.mem_cons.mp hc with rfl | hc
  · show RoomFits defaultEnv (10 : UInt64) (requestOf 1 "") (roomAt _ (set _ _) roomKey)
    rw [roomAt, set, Function.update_self, Option.bind_some, Codec.decode_encode]
    refine ⟨fun hneeds => ?_, fun r he _ => ?_, fun r he hterm => ?_⟩
    · cases hneeds.1
    · cases he
      exact .fresh defaultEnv (10 : UInt64) _ 0 "m" 2
    · cases he
      cases hterm
  · obtain rfl := List.mem_singleton.mp hc
    exact ⟨fun curve he => absurd he (keygenKey_ne_signKey curve _),
      fun _ _ => ⟨_, Codec.decode_encode _ _⟩⟩

/-- Two ways to stop the manager.  A text that is no counter is set under the key of
a counter, and the next sign-up for a key generation reads it.  And a sign-up with
the largest threshold asks a checked build for a room of one more. -/
theorem poisoned_by_requests :
    (∃ m tr, AnyRun defaultEnv tallyCodec (Codec.ofCountable SigningRoom) m tr ∧
      tr.map ManagerRecord.event = [.request (10 : UInt64) (.signupKeygen ⟨"2", "1"⟩ "ECDSA"),
        .request (10 : UInt64) (.set ⟨"signup-keygen-ECDSA", ""⟩)] ∧ m.poisoned = true) ∧
    (∃ m tr, AnyRun defaultEnv tallyCodec (Codec.ofCountable SigningRoom) m tr ∧
      tr.map ManagerRecord.event =
        [.request (10 : UInt64) (.signupSign { requestOf 1 "" with threshold := 65535 })] ∧
      m.poisoned = true) :=
  ⟨⟨_, _, playManager_run defaultEnv tallyCodec _ (by decide) [_, _], rfl, by decide⟩,
    ⟨_, _, playManager_run defaultEnv tallyCodec _ (by decide) [_], rfl, by decide⟩⟩

end TssCli
