import TssCli.Common.SigningRoom

/-!
# The manager's handlers

The manager is a web server around one map from keys to texts, behind a lock.
The clients post and read their messages with `set` and `get`, take a number for
a key generation with `signup_keygen` and a seat in a signing room with
`signup_sign`.  The sign-up handlers keep their own records in the same map, as
JSON.

`signup_sign` answers from eight places.  `Handles` lists them, one constructor
each, with what is checked on the way there and what is stored.  `signupSign_ok`
says it lists all of them, and every fact about runs is proved from it.
-/

namespace TssCli

/-! ## Requests and answers -/

abbrev Key : Type := String

/-- The map of the manager.  An expired entry is gone. -/
abbrev Db : Type := Key → Option String

structure PartySignup where
  number : UInt16
  uuid : String
deriving DecidableEq, Repr

structure PartySignupRequestBody where
  threshold : UInt16
  roomId : String
  /-- The id of the party in the key generation. -/
  partyNumber : UInt16
  /-- Empty in a fresh sign-up, else the UUID an earlier answer gave. -/
  partyUuid : String
  curveName : String
deriving DecidableEq, Repr

structure Params where
  parties : String
  threshold : String
deriving DecidableEq, Repr

structure Entry where
  key : Key
  value : String
deriving DecidableEq, Repr

structure ManagerError where
  error : String
deriving DecidableEq, Repr

/-- `Result<SigningPartySignup, ManagerError>`. -/
abbrev SignupAnswer : Type := Except ManagerError SigningPartySignup

/-! ## The message handlers -/

/-- `get`. -/
def get (db : Db) (key : Key) : Except ManagerError Entry :=
  match db key with
  | some v => .ok { key, value := v }
  | none => .error { error := "Key not found: " ++ key }

/-- `set`. -/
def set (db : Db) (entry : Entry) : Db := Function.update db entry.key (some entry.value)

/-! ## Sign-up for a key generation -/

/-- The key of the counter of a curve. -/
def keygenKey (curve : String) : Key := "signup-keygen-" ++ curve

/-- The stored counter, or a new one at `0`. -/
def readCounter (env : Env) (json : Codec PartySignup) (db : Db) (key : Key) :
    Rust PartySignup :=
  match db key with
  | some o => json.read o
  | none => do return { number := 0, uuid := ← newUuid env }

/-- The next number of the group, or the first of a new group. -/
def nextSignup (env : Env) (clientSignup : PartySignup) (parties : UInt16) : Rust PartySignup :=
  if clientSignup.number < parties then do
    return { number := ← addU16 env.overflowChecks clientSignup.number 1,
             uuid := clientSignup.uuid }
  else do return { number := 1, uuid := ← newUuid env }

/-- `signup_keygen`. -/
def signupKeygen (env : Env) (json : Codec PartySignup) (params : Params) (curve : String)
    (db : Db) : Rust (PartySignup × Db) := do
  let parties ← parseU16 params.parties
  let clientSignup ← readCounter env json db (keygenKey curve)
  let partySignup ← nextSignup env clientSignup parties
  return (partySignup, set db { key := keygenKey curve, value := json.encode partySignup })

/-! ## Sign-up for a signing -/

/-- The key of the room a request is for. -/
def signKey (request : PartySignupRequestBody) : Key :=
  "signup-sign-" ++ request.curveName ++ request.roomId

def errTerminated : ManagerError := { error := "Room signup phase is terminated" }

def errFull : ManagerError := { error := "Room is full, all members active" }

def errNoParty : ManagerError :=
  { error := "No party found with the given uuid, probably replaced due to timeout" }

def errActive : ManagerError :=
  { error := "Received a re-signup request for an active party. Request ignored" }

section Handler

variable (env : Env) (clock : Clock) (request : PartySignupRequestBody)

/-- A new room of the size the request asks for. -/
def newRoom : Rust SigningRoom := do
  SigningRoom.new env request.roomId (← addU16 env.overflowChecks request.threshold 1)

/-- The branch of a room past its sign-up: a member is informed, a room of
timed-out members is renewed, and anybody else is turned away. -/
def enterRoom (signingRoom : SigningRoom) : Rust (Except SignupAnswer SigningRoom) :=
  if signingRoom.lastStage ≠ .signup then
    if signingRoom.hasMember request.partyNumber request.partyUuid then do
      return .error (.ok (← signingRoom.getSignupInfo env clock.info request.partyNumber))
    else do
      let allInactive ← signingRoom.areAllMembersInactive env clock.inactive
      if allInactive then return .ok (← newRoom env request)
      else return .error (.error errTerminated)
  else return .ok signingRoom

/-- `is_full() && are_all_members_active() && new_signup_request`. -/
def refuses (signingRoom : SigningRoom) : Except Panic Bool :=
  if signingRoom.isFull then do
    return (← signingRoom.areAllMembersActive env clock.active) && request.partyUuid.isEmpty
  else return false

/-- The seat given or refused in an open room, with the room to store. -/
def signupParty (signingRoom : SigningRoom) : Rust (SignupAnswer × Option SigningRoom) := do
  let refused ← refuses env clock request signingRoom
  if refused then return (.error errFull, none)
  else if request.partyUuid.isEmpty = false then
    if signingRoom.hasMember request.partyNumber request.partyUuid = false then
      return (.error errNoParty, none)
    else
      let (partySignup, room) ← signingRoom.updatePing env clock request.partyNumber
      return (.ok partySignup, some room)
  else if request.partyNumber ∈ signingRoom.memberInfo then
    let active ← signingRoom.isMemberActive env clock.member request.partyNumber
    if active then return (.error errActive, none)
    else
      let (partySignup, room) ← signingRoom.replaceParty env clock.ping request.partyNumber
      return (.ok partySignup, some room)
  else
    let (partySignup, room) ← signingRoom.addParty env clock.ping request.partyNumber
    return (.ok partySignup, some room)

/-- `hm.insert(key, ..)`, unless the handler returned before it. -/
def storeRoom (json : Codec SigningRoom) (db : Db) (key : Key) : Option SigningRoom → Db
  | some room => set db { key, value := json.encode room }
  | none => db

/-- The body of `signup_sign` after the lookup.  `before` is the stored room, and
the result is the answer and the room to store, if the handler gets there. -/
def signupRoom (before : Option SigningRoom) : Rust (SignupAnswer × Option SigningRoom) := do
  let signingRoom ← before.elim (newRoom env request) pure
  match ← enterRoom env clock request signingRoom with
  | .error answer => return (answer, none)
  | .ok signingRoom => signupParty env clock request signingRoom

/-- `hm.get(&key)`, decoded. -/
def readRoom (json : Codec SigningRoom) (db : Db) (key : Key) :
    Except Panic (Option SigningRoom) :=
  match db key with
  | some o => do return some (← json.read o)
  | none => return none

/-- `signup_sign`. -/
def signupSign (json : Codec SigningRoom) (db : Db) : Rust (SignupAnswer × Db) := do
  let key := signKey request
  let before ← readRoom json db key
  let (answer, stored) ← signupRoom env clock request before
  return (answer, storeRoom json db key stored)

end Handler

/-! ## The exits of `signup_sign` -/

section Exits

variable (env : Env) (clock : Clock) (request : PartySignupRequestBody)

/-- `r` is an open room the request finds at `before`: the stored one, or a new
one where there was none or where all members of a full, closed room are timed
out.  `k` counts the UUIDs drawn. -/
inductive Opens : Option SigningRoom → Nat → SigningRoom → Nat → Prop where
  | stored {r : SigningRoom} {k : Nat} :
      r.lastStage = .signup → Opens (some r) k r k
  | created {k : Nat} :
      Opens none k (SigningRoom.fresh env k request.roomId (request.threshold + 1)) (k + 1)
  | renewed {r : SigningRoom} {k : Nat} :
      r.lastStage = .terminated →
      r.hasMember request.partyNumber request.partyUuid = false →
      r.isFull = true →
      (∀ x ∈ r.memberInfo.values, timedOut env (clock.inactive x) x = true) →
      Opens (some r) k (SigningRoom.fresh env k request.roomId (request.threshold + 1)) (k + 1)

/-- One request: the room stored before and after, the UUIDs drawn before and
after, and the answer. -/
inductive Handles : Option SigningRoom → Nat → Option SigningRoom → Nat → SignupAnswer → Prop where
  /-- A member of a closed room polls. -/
  | informed {r : SigningRoom} {info : SigningPartyInfo} {k : Nat} :
      r.lastStage = .terminated →
      r.memberInfo.lookup request.partyNumber = some info →
      info.partyId = request.partyUuid →
      r.activeCount env clock.info < UInt16.size →
      Handles (some r) k (some r) k (.ok (r.infoFor env clock.info info))
  /-- A stranger asks for a closed room that is still alive. -/
  | turnedAway {r : SigningRoom} {k : Nat} :
      r.lastStage = .terminated →
      r.hasMember request.partyNumber request.partyUuid = false →
      ¬ (r.isFull = true ∧ ∀ x ∈ r.memberInfo.values, timedOut env (clock.inactive x) x = true) →
      Handles (some r) k (some r) k (.error errTerminated)
  /-- A fresh sign-up finds the room full and everybody active. -/
  | full {before : Option SigningRoom} {r : SigningRoom} {k k' : Nat} :
      Opens env clock request before k r k' →
      request.partyUuid = "" → r.isFull = true →
      (∀ x ∈ r.memberInfo.values, timedOut env (clock.active x) x = false) →
      Handles before k before k' (.error errFull)
  /-- A poll with a UUID the party does not hold. -/
  | unknownUuid {before : Option SigningRoom} {r : SigningRoom} {k k' : Nat} :
      Opens env clock request before k r k' →
      request.partyUuid ≠ "" →
      r.hasMember request.partyNumber request.partyUuid = false →
      Handles before k before k' (.error errNoParty)
  /-- A member polls while the room is open. -/
  | pinged {before : Option SigningRoom} {r r' : SigningRoom} {info : SigningPartyInfo}
      {k k' : Nat} :
      Opens env clock request before k r k' →
      request.partyUuid ≠ "" →
      r.memberInfo.lookup request.partyNumber = some info →
      info.partyId = request.partyUuid →
      r' = (r.seat request.partyNumber { info with lastPing := clock.ping }).settle env clock →
      r'.activeCount env clock.info < UInt16.size →
      Handles before k (some r') k'
        (.ok (r'.infoFor env clock.info { info with lastPing := clock.ping }))
  /-- A fresh sign-up of a member that is not timed out. -/
  | stillActive {before : Option SigningRoom} {r : SigningRoom} {info : SigningPartyInfo}
      {k k' : Nat} :
      Opens env clock request before k r k' →
      request.partyUuid = "" →
      r.memberInfo.lookup request.partyNumber = some info →
      timedOut env clock.member info = false →
      Handles before k before k' (.error errActive)
  /-- A fresh sign-up of a timed-out member renews its UUID. -/
  | replaced {before : Option SigningRoom} {r : SigningRoom} {old : SigningPartyInfo}
      {k k' : Nat} :
      Opens env clock request before k r k' →
      request.partyUuid = "" →
      r.memberInfo.lookup request.partyNumber = some old →
      timedOut env clock.member old = true →
      Handles before k
        (some (r.seat request.partyNumber ⟨env.uuid k', old.partyOrder, clock.ping⟩)) (k' + 1)
        (.ok ⟨old.partyOrder, env.uuid k', "", 0⟩)
  /-- A fresh sign-up of a party number the room does not know. -/
  | added {before : Option SigningRoom} {r : SigningRoom} {k k' : Nat} :
      Opens env clock request before k r k' →
      request.partyUuid = "" →
      r.memberInfo.lookup request.partyNumber = none →
      ¬ (r.isFull = true ∧ ∀ x ∈ r.memberInfo.values, timedOut env (clock.active x) x = false) →
      Handles before k
        (some (r.seat request.partyNumber
          ⟨env.uuid k', UInt16.ofNat r.memberInfo.len + 1, clock.ping⟩)) (k' + 1)
        (.ok ⟨UInt16.ofNat r.memberInfo.len + 1, env.uuid k', "", 0⟩)

end Exits

/-- The room stored under a key. -/
def roomAt (json : Codec SigningRoom) (db : Db) (key : Key) : Option SigningRoom :=
  (db key).bind json.decode

section ExitLemmas

open SigningRoom

variable {env : Env} {clock : Clock} {request : PartySignupRequestBody}

theorem newRoom_ok {k k' : Nat} {r : SigningRoom} (h : (newRoom env request).run k = .ok (r, k')) :
    r = fresh env k request.roomId (request.threshold + 1) ∧ k' = k + 1 := by
  obtain ⟨size, k₁, h₁, h₂⟩ := Rust.bind_ok h
  obtain ⟨hsize, rfl⟩ := Rust.lift_ok h₁
  rw [addU16_ok hsize] at h₂
  exact new_ok h₂

/-- A stored or new room is entered at one of three exits. -/
theorem enterRoom_ok {room : SigningRoom} {k k' : Nat} {res : Except SignupAnswer SigningRoom}
    (h : (enterRoom env clock request room).run k = .ok (res, k')) :
    (∃ a, res = .error a ∧ Handles env clock request (some room) k (some room) k' a) ∨
    (∃ r, res = .ok r ∧ Opens env clock request (some room) k r k') := by
  unfold enterRoom at h
  split at h
  next hstage =>
    have hterm : room.lastStage = .terminated := by
      cases hs : room.lastStage with
      | signup => exact absurd hs hstage
      | terminated => rfl
    split at h
    next hmem =>
      obtain ⟨s, k₁, h₁, h₂⟩ := Rust.bind_ok h
      obtain ⟨hs, rfl⟩ := Rust.lift_ok h₁
      obtain ⟨rfl, rfl⟩ := Rust.pure_ok h₂
      obtain ⟨info, hl, rfl, hlt⟩ := getSignupInfo_ok hs
      obtain ⟨info', hl', hid⟩ := hasMember_iff.mp hmem
      obtain rfl : info = info' := by rw [hl] at hl'; exact Option.some.inj hl'
      exact Or.inl ⟨_, rfl, .informed hterm hl hid hlt⟩
    next hmem =>
      have hmem := Bool.eq_false_iff.mpr hmem
      obtain ⟨b, k₁, h₁, h₂⟩ := Rust.bind_ok h
      obtain ⟨hb, rfl⟩ := Rust.lift_ok h₁
      have hb := areAllMembersInactive_ok hb
      split at h₂
      next hin =>
        rw [hin, eq_comm, Bool.and_eq_true, List.all_eq_true] at hb
        obtain ⟨r, k₂, h₃, h₄⟩ := Rust.bind_ok h₂
        obtain ⟨rfl, rfl⟩ := Rust.pure_ok h₄
        obtain ⟨rfl, rfl⟩ := newRoom_ok h₃
        exact Or.inr ⟨_, rfl, .renewed hterm hmem hb.1 hb.2⟩
      next hin =>
        rw [Bool.eq_false_iff.mpr hin, eq_comm, Bool.eq_false_iff, Ne, Bool.and_eq_true,
          List.all_eq_true] at hb
        obtain ⟨rfl, rfl⟩ := Rust.pure_ok h₂
        exact Or.inl ⟨_, rfl, .turnedAway hterm hmem hb⟩
  next hstage =>
    obtain ⟨rfl, rfl⟩ := Rust.pure_ok h
    exact Or.inr ⟨_, rfl, .stored (not_not.mp hstage)⟩

theorem refuses_ok {room : SigningRoom} {b : Bool} (h : refuses env clock request room = .ok b) :
    b = true ↔ room.isFull = true ∧
      (∀ x ∈ room.memberInfo.values, timedOut env (clock.active x) x = false) ∧
      request.partyUuid = "" := by
  unfold refuses at h
  split at h
  next hf =>
    obtain ⟨c, hc, h⟩ := except_bind_ok h
    rw [← Except.ok.inj h, areAllMembersActive_ok hc]
    simp [hf, List.all_eq_true, String.isEmpty_iff]
  next hf =>
    rw [← Except.ok.inj h]
    simp [hf]

theorem mem_iff_lookup {m : MemberInfo} {n : UInt16} :
    n ∈ m ↔ ∃ info, m.lookup n = some info := by
  rw [← AList.lookup_isSome, Option.isSome_iff_exists]

/-- An open room answers at one of six exits. -/
theorem signupParty_ok {before : Option SigningRoom} {room : SigningRoom} {k₀ k k' : Nat}
    {answer : SignupAnswer} {stored : Option SigningRoom}
    (hopen : Opens env clock request before k₀ room k)
    (h : (signupParty env clock request room).run k = .ok ((answer, stored), k')) :
    (stored = none ∧ Handles env clock request before k₀ before k' answer) ∨
    (∃ r, stored = some r ∧ Handles env clock request before k₀ (some r) k' answer) := by
  obtain ⟨b, k₁, h₁, h₂⟩ := Rust.bind_ok h
  obtain ⟨hb, rfl⟩ := Rust.lift_ok h₁
  have hb := refuses_ok hb
  split at h₂
  next hrefused =>
    obtain ⟨hf, hall, hempty⟩ := hb.mp hrefused
    obtain ⟨hp, rfl⟩ := Rust.pure_ok h₂
    obtain ⟨rfl, rfl⟩ := Prod.mk.inj hp
    exact Or.inl ⟨rfl, .full hopen hempty hf hall⟩
  next hrefused =>
    split at h₂
    next hpoll =>
      have hne : request.partyUuid ≠ "" := by
        intro he
        rw [he] at hpoll
        exact absurd hpoll (by decide)
      split at h₂
      next hmem =>
        obtain ⟨hp, rfl⟩ := Rust.pure_ok h₂
        obtain ⟨rfl, rfl⟩ := Prod.mk.inj hp
        exact Or.inl ⟨rfl, .unknownUuid hopen hne hmem⟩
      next hmem =>
        obtain ⟨⟨s, r⟩, k₂, h₃, h₄⟩ := Rust.bind_ok h₂
        obtain ⟨hs, rfl⟩ := Rust.lift_ok h₃
        obtain ⟨hp, rfl⟩ := Rust.pure_ok h₄
        obtain ⟨rfl, rfl⟩ := Prod.mk.inj hp
        obtain ⟨info, hl, hr, rfl, hlt⟩ := updatePing_ok hs
        obtain ⟨info', hl', hid⟩ := hasMember_iff.mp (Bool.not_eq_false _ ▸ hmem)
        obtain rfl : info = info' := by rw [hl] at hl'; exact Option.some.inj hl'
        exact Or.inr ⟨r, rfl, .pinged hopen hne hl hid hr hlt⟩
    next hpoll =>
      have hempty : request.partyUuid = "" := by
        rw [Bool.not_eq_false, String.isEmpty_iff] at hpoll
        exact hpoll
      split at h₂
      next hmem =>
        obtain ⟨c, k₂, h₃, h₄⟩ := Rust.bind_ok h₂
        obtain ⟨hc, rfl⟩ := Rust.lift_ok h₃
        obtain ⟨info, hl, hc⟩ := isMemberActive_ok hc
        split at h₄
        next hact =>
          obtain ⟨hp, rfl⟩ := Rust.pure_ok h₄
          obtain ⟨rfl, rfl⟩ := Prod.mk.inj hp
          rw [hact, eq_comm, Bool.not_eq_true'] at hc
          exact Or.inl ⟨rfl, .stillActive hopen hempty hl hc⟩
        next hact =>
          obtain ⟨⟨s, r⟩, k₃, h₅, h₆⟩ := Rust.bind_ok h₄
          obtain ⟨hp, rfl⟩ := Rust.pure_ok h₆
          obtain ⟨rfl, rfl⟩ := Prod.mk.inj hp
          obtain ⟨old, hl', rfl, rfl, rfl⟩ := replaceParty_ok h₅
          obtain rfl : info = old := by rw [hl] at hl'; exact Option.some.inj hl'
          rw [Bool.eq_false_iff.mpr hact, eq_comm, Bool.not_eq_false'] at hc
          exact Or.inr ⟨_, rfl, .replaced hopen hempty hl hc⟩
      next hmem =>
        obtain ⟨⟨s, r⟩, k₃, h₅, h₆⟩ := Rust.bind_ok h₂
        obtain ⟨hp, rfl⟩ := Rust.pure_ok h₆
        obtain ⟨rfl, rfl⟩ := Prod.mk.inj hp
        obtain ⟨rfl, rfl, rfl⟩ := addParty_ok h₅
        refine Or.inr ⟨_, rfl, .added hopen hempty (AList.lookup_eq_none.mpr hmem) ?_⟩
        intro hfull
        exact hrefused (hb.mpr ⟨hfull.1, hfull.2, hempty⟩)

theorem enterRoom_open {room : SigningRoom} (k : Nat) (h : room.lastStage = .signup) :
    (enterRoom env clock request room).run k = .ok (.ok room, k) := by
  unfold enterRoom
  rw [if_neg (not_not.mpr h)]
  rfl

/-- The body of `signup_sign` answers before it comes to an open room, or goes on
with one. -/
theorem signupRoom_cases {before stored : Option SigningRoom} {k k' : Nat} {answer : SignupAnswer}
    (h : (signupRoom env clock request before).run k = .ok ((answer, stored), k')) :
    (stored = none ∧ Handles env clock request before k before k' answer) ∨
    (∃ r k₁, Opens env clock request before k r k₁ ∧
      (signupParty env clock request r).run k₁ = .ok ((answer, stored), k')) := by
  obtain ⟨room, k₁, h₁, h₂⟩ := Rust.bind_ok h
  obtain ⟨res, k₂, h₃, h₄⟩ := Rust.bind_ok h₂
  cases before with
  | none =>
      obtain ⟨rfl, rfl⟩ := newRoom_ok h₁
      rw [enterRoom_open _ rfl] at h₃
      cases h₃
      exact Or.inr ⟨_, _, .created, h₄⟩
  | some r =>
      obtain ⟨rfl, rfl⟩ := Rust.pure_ok h₁
      rcases enterRoom_ok h₃ with ⟨a, rfl, hh⟩ | ⟨r, rfl, hopen⟩
      · obtain ⟨hp, rfl⟩ := Rust.pure_ok h₄
        obtain ⟨rfl, rfl⟩ := Prod.mk.inj hp
        exact Or.inl ⟨rfl, hh⟩
      · exact Or.inr ⟨_, _, hopen, h₄⟩

/-- The body of `signup_sign` answers at one of the exits. -/
theorem signupRoom_ok {before stored : Option SigningRoom} {k k' : Nat} {answer : SignupAnswer}
    (h : (signupRoom env clock request before).run k = .ok ((answer, stored), k')) :
    Handles env clock request before k (stored.or before) k' answer := by
  rcases signupRoom_cases h with ⟨rfl, hh⟩ | ⟨r, k₁, hopen, hp⟩
  · exact hh
  · rcases signupParty_ok hopen hp with ⟨rfl, hh⟩ | ⟨r', rfl, hh⟩
    · exact hh
    · exact hh

theorem readRoom_ok {json : Codec SigningRoom} {db : Db} {key : Key} {before : Option SigningRoom}
    (h : readRoom json db key = .ok before) : before = roomAt json db key := by
  unfold readRoom at h
  rw [roomAt]
  cases hdb : db key with
  | none =>
      rw [hdb] at h
      exact (Except.ok.inj h).symm
  | some o =>
      rw [hdb] at h
      obtain ⟨r, hr, h⟩ := except_bind_ok h
      rw [← Except.ok.inj h, Option.bind_some]
      unfold Codec.read at hr
      split at hr
      next r' hr' => rw [hr', Except.ok.inj hr]
      next => cases hr

/-- The handler is the body on the decoded room, and then the store. -/
theorem signupSign_ok {json : Codec SigningRoom} {db db' : Db} {k k' : Nat} {answer : SignupAnswer}
    (h : (signupSign env clock request json db).run k = .ok ((answer, db'), k')) :
    ∃ stored, (signupRoom env clock request (roomAt json db (signKey request))).run k =
        .ok ((answer, stored), k') ∧
      db' = storeRoom json db (signKey request) stored := by
  obtain ⟨before, k₁, h₁, h₂⟩ := Rust.bind_ok h
  obtain ⟨hread, rfl⟩ := Rust.lift_ok h₁
  obtain ⟨⟨a, stored⟩, k₂, h₃, h₄⟩ := Rust.bind_ok h₂
  obtain ⟨hp, rfl⟩ := Rust.pure_ok h₄
  obtain ⟨rfl, rfl⟩ := Prod.mk.inj hp
  rw [← readRoom_ok hread]
  exact ⟨stored, h₃, rfl⟩

theorem storeRoom_roomAt (json : Codec SigningRoom) (db : Db) (key : Key)
    (stored : Option SigningRoom) :
    roomAt json (storeRoom json db key stored) key = stored.or (roomAt json db key) := by
  cases stored with
  | none => rfl
  | some r => simp [roomAt, storeRoom, set]

theorem storeRoom_other (json : Codec SigningRoom) (db : Db) {key key' : Key}
    (stored : Option SigningRoom) (h : key' ≠ key) :
    storeRoom json db key stored key' = db key' := by
  cases stored with
  | none => rfl
  | some r => exact Function.update_of_ne h _ _

end ExitLemmas

end TssCli
