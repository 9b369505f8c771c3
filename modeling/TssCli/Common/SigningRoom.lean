import TssCli.Lib.AssocValues
import TssCli.Common.Rust

/-!
# The signing room

`SigningRoom` is the record the manager keeps for one signing: who has signed
up under which `party_number`, in which order, and when each was last heard of.
A room starts in the stage `signup` and is closed, to the stage `terminated`,
by the ping that finds it full with enough active members.

The methods read the clock with `SystemTime::now` at every use, in whole seconds since
the epoch: once for a ping, and once for each member that they look at.  `Clock` has the
readings of one request.  They do not go back (`Clock.Ordered`), and a second may end
between any two of them.
-/

namespace TssCli

/-! ## Data -/

/-- The manager's surroundings: the build, the environment variable
`TSS_MANAGER_SIGNUP_TIMEOUT` and the UUIDs it will draw. -/
structure Env where
  /-- Whether `+` and `-` check for overflow. -/
  overflowChecks : Bool
  /-- Seconds without a ping after which a member is timed out. -/
  signupTimeout : UInt64
  /-- The text of the `k`-th UUID drawn. -/
  uuid : Nat → String
  /-- UUIDs are fresh. -/
  uuid_injective : Function.Injective uuid
  /-- No UUID is the empty string. -/
  uuid_ne_empty : ∀ k, uuid k ≠ ""

/-- `Uuid::new_v4().to_string()`. -/
def newUuid (env : Env) : Rust String := fun k => .ok (env.uuid k, k + 1)

/-- A debug build with the default timeout. -/
def defaultEnv : Env where
  overflowChecks := true
  signupTimeout := 2
  uuid k := String.ofList (List.replicate (k + 1) 'u')
  uuid_injective := by
    intro i j h
    have hlist := congrArg (fun s => s.toList.length) h
    simpa using hlist
  uuid_ne_empty := by
    intro k h
    have hlist := congrArg (fun s => s.toList.length) h
    simp at hlist

/-- A member of a room. -/
structure SigningPartyInfo where
  partyId : String
  partyOrder : UInt16
  lastPing : UInt64
deriving DecidableEq, Repr

/-- The manager's answer to a sign-up request. -/
structure SigningPartySignup where
  partyOrder : UInt16
  partyUuid : String
  roomUuid : String
  totalJoined : UInt16
deriving DecidableEq, Repr

/-- The two values of `last_stage`.  The code compares it with `"signup"` only. -/
inductive Stage where
  | signup
  | terminated
deriving DecidableEq, Repr

/-- `HashMap<u16, SigningPartyInfo>`. -/
abbrev MemberInfo : Type := AList fun _ : UInt16 => SigningPartyInfo

/-- A signing room. -/
structure SigningRoom where
  /-- Set by the clients, used during sign-up. -/
  roomId : String
  /-- Set by the manager, used during the rounds. -/
  roomUuid : String
  roomSize : UInt16
  memberInfo : MemberInfo
  lastStage : Stage
deriving DecidableEq

namespace MemberInfo

/-- `HashMap::values`. -/
def values (m : MemberInfo) : List SigningPartyInfo := AssocValues.values m

/-- `HashMap::len`. -/
def len (m : MemberInfo) : Nat := m.values.length

/-- `map.get(&key).unwrap()`. -/
def getUnwrap (m : MemberInfo) (partyNumber : UInt16) : Except Panic SigningPartyInfo :=
  match m.lookup partyNumber with
  | some info => .ok info
  | none => .error .unwrapNone

end MemberInfo

instance : Countable SigningPartyInfo :=
  Function.Injective.countable (β := String × UInt16 × UInt64)
    (f := fun x => (x.partyId, x.partyOrder, x.lastPing)) fun x y h => by cases x; cases y; simp_all

instance : Countable MemberInfo :=
  Function.Injective.countable (f := AList.entries) fun _ _ h => AList.ext h

instance : Countable Stage :=
  Function.Injective.countable (f := fun s => s == Stage.signup) fun x y h => by
    cases x <;> cases y <;> simp_all

instance : Countable SigningRoom :=
  Function.Injective.countable
    (f := fun r => (r.roomId, r.roomUuid, r.roomSize, r.memberInfo, r.lastStage)) fun x y h => by
      cases x; cases y; simp_all

/-! ## The clock -/

/-- A reading of the clock for each member that is looked at.  A map has no order of its
own, so they come in any order. -/
abbrev Readings : Type := SigningPartyInfo → UInt64

/-- All within one second. -/
instance : Coe UInt64 Readings := ⟨fun now _ => now⟩

/-- The readings of the clock while one request is handled. -/
structure Clock where
  /-- In `are_all_members_inactive`. -/
  inactive : Readings
  /-- In `are_all_members_active`. -/
  active : Readings
  /-- In `is_member_active`. -/
  member : UInt64
  /-- For a `last_ping`. -/
  ping : UInt64
  /-- In `update_ping`. -/
  enough : Readings
  /-- In `close_signup_window`. -/
  closing : Readings
  /-- In `get_signup_info`. -/
  info : Readings
  /-- When the request has been handled. -/
  stop : UInt64

/-- A request that is handled within one second. -/
abbrev Clock.steady (now : UInt64) : Clock where
  inactive := now
  active := now
  member := now
  ping := now
  enough := now
  closing := now
  info := now
  stop := now

instance : Coe UInt64 Clock := ⟨Clock.steady⟩

/-- The clock does not go back, from `start` on.  The readings are in the order in which
`signup_sign` comes to them. -/
structure Clock.Ordered (clock : Clock) (start : UInt64) : Prop where
  inactive : ∀ x, start ≤ clock.inactive x
  active : ∀ x y, clock.inactive x ≤ clock.active y
  member : ∀ x, clock.active x ≤ clock.member
  ping : clock.member ≤ clock.ping
  enough : ∀ x, clock.ping ≤ clock.enough x
  closing : ∀ x y, clock.enough x ≤ clock.closing y
  info : ∀ x y, clock.closing x ≤ clock.info y
  stop : ∀ x, clock.info x ≤ clock.stop

/-- Each reading of the clock is `ok`. -/
structure Clock.All (ok : UInt64 → Prop) (clock : Clock) : Prop where
  inactive : ∀ x, ok (clock.inactive x)
  active : ∀ x, ok (clock.active x)
  member : ok clock.member
  ping : ok clock.ping
  enough : ∀ x, ok (clock.enough x)
  closing : ∀ x, ok (clock.closing x)
  info : ∀ x, ok (clock.info x)

section

variable {ok ok' : UInt64 → Prop} {clock : Clock} {start start' now : UInt64}

theorem Clock.ordered_steady (h : start ≤ now) : (Clock.steady now).Ordered start where
  inactive := fun _ => h
  active := fun _ _ => UInt64.le_refl _
  member := fun _ => UInt64.le_refl _
  ping := UInt64.le_refl _
  enough := fun _ => UInt64.le_refl _
  closing := fun _ _ => UInt64.le_refl _
  info := fun _ _ => UInt64.le_refl _
  stop := fun _ => UInt64.le_refl _

theorem Clock.Ordered.of_le (h : clock.Ordered start) (hle : start' ≤ start) :
    clock.Ordered start' :=
  { h with inactive := fun x => UInt64.le_trans hle (h.inactive x) }

theorem Clock.all_steady (h : ok now) : (Clock.steady now).All ok :=
  ⟨fun _ => h, fun _ => h, h, h, fun _ => h, fun _ => h, fun _ => h⟩

theorem Clock.All.mono (h : clock.All ok) (himp : ∀ t, ok t → ok' t) : clock.All ok' where
  inactive := fun x => himp _ (h.inactive x)
  active := fun x => himp _ (h.active x)
  member := himp _ h.member
  ping := himp _ h.ping
  enough := fun x => himp _ (h.enough x)
  closing := fun x => himp _ (h.closing x)
  info := fun x => himp _ (h.info x)

/-- A clock that does not go back is read between the start and the stop. -/
theorem Clock.Ordered.all (h : clock.Ordered start) :
    clock.All fun t => start ≤ t ∧ t ≤ clock.stop := by
  let x₀ : SigningPartyInfo := ⟨"", 0, 0⟩
  have active := fun x => UInt64.le_trans (h.inactive x) (h.active x x)
  have member := UInt64.le_trans (active x₀) (h.member x₀)
  have ping := UInt64.le_trans member h.ping
  have enough := fun x => UInt64.le_trans ping (h.enough x)
  have closing := fun x => UInt64.le_trans (enough x) (h.closing x x)
  have info := fun x => UInt64.le_trans (closing x) (h.info x x)
  have closing' := fun x => UInt64.le_trans (h.info x x) (h.stop x)
  have enough' := fun x => UInt64.le_trans (h.closing x x) (closing' x)
  have ping' := UInt64.le_trans (h.enough x₀) (enough' x₀)
  have member' := UInt64.le_trans h.ping ping'
  have active' := fun x => UInt64.le_trans (h.member x) member'
  have inactive' := fun x => UInt64.le_trans (h.active x x) (active' x)
  exact {
    inactive := fun x => ⟨h.inactive x, inactive' x⟩
    active := fun x => ⟨active x, active' x⟩
    member := ⟨member, member'⟩
    ping := ⟨ping, ping'⟩
    enough := fun x => ⟨enough x, enough' x⟩
    closing := fun x => ⟨closing x, closing' x⟩
    info := fun x => ⟨info x, h.stop x⟩ }

theorem Clock.Ordered.le_stop (h : clock.Ordered start) : start ≤ clock.stop :=
  UInt64.le_trans h.all.ping.1 h.all.ping.2

end

/-! ## The methods -/

namespace SigningRoom

section

variable (env : Env)

def new (roomId : String) (size : UInt16) : Rust SigningRoom := do
  let roomUuid ← newUuid env
  return { roomId, roomUuid, roomSize := size, memberInfo := ∅, lastStage := .signup }

def newSignParty (partyOrder : UInt16) : Rust SigningPartySignup := do
  let partyUuid ← newUuid env
  return { partyOrder, partyUuid, roomUuid := "", totalJoined := 0 }

def isFull (room : SigningRoom) : Bool := decide (room.roomSize.toNat ≤ room.memberInfo.len)

def isTimeout (now : UInt64) (party : SigningPartyInfo) : Except Panic Bool := do
  let deadline ← subU64 env.overflowChecks now env.signupTimeout
  return decide (party.lastPing < deadline)

def addParty (now : UInt64) (room : SigningRoom) (partyNumber : UInt16) :
    Rust (SigningPartySignup × SigningRoom) := do
  let len ← u16TryFrom room.memberInfo.len
  let partySignup ← newSignParty env (← addU16 env.overflowChecks len 1)
  let info : SigningPartyInfo :=
    { partyId := partySignup.partyUuid, partyOrder := partySignup.partyOrder, lastPing := now }
  return (partySignup, { room with memberInfo := room.memberInfo.insert partyNumber info })

def replaceParty (now : UInt64) (room : SigningRoom) (partyNumber : UInt16) :
    Rust (SigningPartySignup × SigningRoom) := do
  let oldParty ← room.memberInfo.getUnwrap partyNumber
  let partySignup ← newSignParty env oldParty.partyOrder
  let info : SigningPartyInfo :=
    { partyId := partySignup.partyUuid, partyOrder := partySignup.partyOrder, lastPing := now }
  return (partySignup, { room with memberInfo := room.memberInfo.insert partyNumber info })

def areAllMembersActive (now : Readings) (room : SigningRoom) : Except Panic Bool :=
  room.memberInfo.values.allM fun x => do return !(← isTimeout env (now x) x)

def areAllMembersInactive (now : Readings) (room : SigningRoom) : Except Panic Bool :=
  if room.isFull then room.memberInfo.values.allM fun x => isTimeout env (now x) x
  else return false

def isMemberActive (now : UInt64) (room : SigningRoom) (partyNumber : UInt16) :
    Except Panic Bool := do
  let partyData ← room.memberInfo.getUnwrap partyNumber
  return !(← isTimeout env now partyData)

def activeMembers (now : Readings) (room : SigningRoom) : Except Panic (List SigningPartyInfo) :=
  room.memberInfo.values.filterM fun x => do return !(← isTimeout env (now x) x)

def closeSignupWindow (now : Readings) (room : SigningRoom) : Except Panic SigningRoom := do
  let activeMembers ← room.activeMembers env now
  if room.isFull && decide (room.roomSize.toNat ≤ activeMembers.length) then
    return { room with lastStage := .terminated }
  else
    return room

def hasMember (room : SigningRoom) (partyNumber : UInt16) (partyUuid : String) : Bool :=
  match room.memberInfo.lookup partyNumber with
  | some info => info.partyId == partyUuid
  | none => false

def getSignupInfo (now : Readings) (room : SigningRoom) (partyNumber : UInt16) :
    Except Panic SigningPartySignup := do
  let memberInfo ← room.memberInfo.getUnwrap partyNumber
  let roomUuid := if room.lastStage = .signup then "" else room.roomUuid
  let totalJoined ← u16TryFrom (← room.activeMembers env now).length
  return { partyOrder := memberInfo.partyOrder, partyUuid := memberInfo.partyId,
           roomUuid, totalJoined }

/-- The `if` of `update_ping`. -/
def closeIfEnough (clock : Clock) (room : SigningRoom) : Except Panic SigningRoom :=
  if room.isFull then do
    let activeMembers ← room.activeMembers env clock.enough
    if room.roomSize.toNat ≤ activeMembers.length then room.closeSignupWindow env clock.closing
    else return room
  else return room

def updatePing (clock : Clock) (room : SigningRoom) (partyNumber : UInt16) :
    Except Panic (SigningPartySignup × SigningRoom) := do
  let partyData ← room.memberInfo.getUnwrap partyNumber
  let pinged : SigningRoom :=
    { room with
      memberInfo := room.memberInfo.insert partyNumber { partyData with lastPing := clock.ping } }
  let closed ← pinged.closeIfEnough env clock
  return (← closed.getSignupInfo env clock.info partyNumber, closed)

end

end SigningRoom

/-! ## What the methods do when they do not panic

A timed-out member is told by the wrapping subtraction, in either build. -/

/-- The deadline a member misses by having been silent for too long. -/
def timedOut (env : Env) (now : UInt64) (party : SigningPartyInfo) : Bool :=
  decide (party.lastPing < now - env.signupTimeout)

theorem newUuid_ok {env : Env} {k k' : Nat} {u : String}
    (h : (newUuid env).run k = .ok (u, k')) : u = env.uuid k ∧ k' = k + 1 := by
  cases h; exact ⟨rfl, rfl⟩

namespace SigningRoom

section

variable {env : Env} {now : Readings} {t : UInt64} {clock : Clock} {room : SigningRoom}
  {n : UInt16}

/-- The room with `info` in the seat of party number `n`. -/
def seat (room : SigningRoom) (n : UInt16) (info : SigningPartyInfo) : SigningRoom :=
  { room with memberInfo := room.memberInfo.insert n info }

/-- The room with sign-up closed. -/
def close (room : SigningRoom) : SigningRoom := { room with lastStage := .terminated }

/-- The number of members that are not timed out. -/
def activeCount (env : Env) (now : Readings) (room : SigningRoom) : Nat :=
  (room.memberInfo.values.filter fun x => !timedOut env (now x) x).length

/-- The room is full, and enough members are active both times. -/
def Settles (env : Env) (clock : Clock) (room : SigningRoom) : Prop :=
  room.isFull = true ∧ room.roomSize.toNat ≤ room.activeCount env clock.enough ∧
    room.roomSize.toNat ≤ room.activeCount env clock.closing

instance (env : Env) (clock : Clock) (room : SigningRoom) : Decidable (room.Settles env clock) :=
  inferInstanceAs (Decidable (_ ∧ _))

/-- The room after a ping: closed when it is full and enough members are active. -/
def settle (env : Env) (clock : Clock) (room : SigningRoom) : SigningRoom :=
  if room.Settles env clock then room.close else room

/-- The answer the room gives the member `info`. -/
def infoFor (env : Env) (now : Readings) (room : SigningRoom) (info : SigningPartyInfo) :
    SigningPartySignup where
  partyOrder := info.partyOrder
  partyUuid := info.partyId
  roomUuid := if room.lastStage = .signup then "" else room.roomUuid
  totalJoined := UInt16.ofNat (room.activeCount env now)

/-- An open room nobody has joined. -/
def fresh (env : Env) (k : Nat) (roomId : String) (size : UInt16) : SigningRoom where
  roomId := roomId
  roomUuid := env.uuid k
  roomSize := size
  memberInfo := ∅
  lastStage := .signup

theorem getUnwrap_ok {m : MemberInfo} {info : SigningPartyInfo}
    (h : m.getUnwrap n = .ok info) : m.lookup n = some info := by
  unfold MemberInfo.getUnwrap at h
  split at h
  next info' hl => rw [hl, Except.ok.inj h]
  next => cases h

theorem new_ok {roomId : String} {size : UInt16} {k k' : Nat} {r : SigningRoom}
    (h : (new env roomId size).run k = .ok (r, k')) :
    r = fresh env k roomId size ∧ k' = k + 1 := by
  cases h; exact ⟨rfl, rfl⟩

theorem isTimeout_ok {party : SigningPartyInfo} {b : Bool}
    (h : isTimeout env t party = .ok b) : b = timedOut env t party := by
  obtain ⟨d, hd, h⟩ := except_bind_ok h
  unfold subU64 at hd
  split at hd
  next => cases hd
  next => rw [← Except.ok.inj h, ← Except.ok.inj hd, timedOut]

theorem notTimeout_ok {party : SigningPartyInfo} {b : Bool}
    (h : (do return !(← isTimeout env t party) : Except Panic Bool) = .ok b) :
    b = !timedOut env t party := by
  obtain ⟨c, hc, h⟩ := except_bind_ok h
  rw [← Except.ok.inj h, isTimeout_ok hc]

theorem areAllMembersActive_ok {b : Bool} (h : room.areAllMembersActive env now = .ok b) :
    b = room.memberInfo.values.all fun x => !timedOut env (now x) x :=
  allM_ok (fun _ _ => notTimeout_ok) h

theorem areAllMembersInactive_ok {b : Bool} (h : room.areAllMembersInactive env now = .ok b) :
    b = (room.isFull && room.memberInfo.values.all fun x => timedOut env (now x) x) := by
  unfold areAllMembersInactive at h
  split at h
  next hf => rw [hf, Bool.true_and]; exact allM_ok (fun _ _ => isTimeout_ok) h
  next hf => rw [← Except.ok.inj h, Bool.eq_false_iff.mpr hf, Bool.false_and]

theorem isMemberActive_ok {b : Bool} (h : room.isMemberActive env t n = .ok b) :
    ∃ info, room.memberInfo.lookup n = some info ∧ b = !timedOut env t info := by
  obtain ⟨info, hi, h⟩ := except_bind_ok h
  exact ⟨info, getUnwrap_ok hi, notTimeout_ok h⟩

theorem activeMembers_ok {l : List SigningPartyInfo} (h : room.activeMembers env now = .ok l) :
    l.length = room.activeCount env now := by
  rw [filterM_ok (fun _ _ => notTimeout_ok) h, activeCount]

theorem hasMember_iff {id : String} : room.hasMember n id = true ↔
    ∃ info, room.memberInfo.lookup n = some info ∧ info.partyId = id := by
  unfold hasMember
  cases hl : room.memberInfo.lookup n with
  | none => simp
  | some info => simp

theorem getSignupInfo_ok {s : SigningPartySignup} (h : room.getSignupInfo env now n = .ok s) :
    ∃ info, room.memberInfo.lookup n = some info ∧ s = room.infoFor env now info ∧
      room.activeCount env now < UInt16.size := by
  obtain ⟨info, hi, h⟩ := except_bind_ok h
  obtain ⟨l, hl, h⟩ := except_bind_ok h
  obtain ⟨t, ht, h⟩ := except_bind_ok h
  refine ⟨info, getUnwrap_ok hi, ?_, ?_⟩
  · rw [← Except.ok.inj h, (u16TryFrom_ok ht).1, activeMembers_ok hl]
    rfl
  · rw [← activeMembers_ok hl, ← (u16TryFrom_ok ht).2]
    exact t.toNat_lt

theorem newSignParty_ok {order : UInt16} {k k' : Nat} {s : SigningPartySignup}
    (h : (newSignParty env order).run k = .ok (s, k')) :
    s = ⟨order, env.uuid k, "", 0⟩ ∧ k' = k + 1 := by
  cases h; exact ⟨rfl, rfl⟩

theorem addParty_ok {k k' : Nat} {s : SigningPartySignup} {r : SigningRoom}
    (h : (room.addParty env t n).run k = .ok ((s, r), k')) :
    k' = k + 1 ∧ s = ⟨UInt16.ofNat room.memberInfo.len + 1, env.uuid k, "", 0⟩ ∧
      r = room.seat n ⟨env.uuid k, UInt16.ofNat room.memberInfo.len + 1, t⟩ := by
  obtain ⟨len, k₁, h₁, h'⟩ := Rust.bind_ok h
  obtain ⟨hlen, rfl⟩ := Rust.lift_ok h₁
  obtain ⟨order, k₂, h₂, h''⟩ := Rust.bind_ok h'
  obtain ⟨horder, rfl⟩ := Rust.lift_ok h₂
  obtain ⟨s', k₃, h₃, hret⟩ := Rust.bind_ok h''
  obtain ⟨rfl, rfl⟩ := newSignParty_ok h₃
  obtain ⟨hp, rfl⟩ := Rust.pure_ok hret
  obtain ⟨rfl, rfl⟩ := Prod.mk.inj hp
  rw [addU16_ok horder, (u16TryFrom_ok hlen).1]
  exact ⟨rfl, rfl, rfl⟩

theorem replaceParty_ok {k k' : Nat} {s : SigningPartySignup} {r : SigningRoom}
    (h : (room.replaceParty env t n).run k = .ok ((s, r), k')) :
    ∃ old, room.memberInfo.lookup n = some old ∧ k' = k + 1 ∧
      s = ⟨old.partyOrder, env.uuid k, "", 0⟩ ∧
      r = room.seat n ⟨env.uuid k, old.partyOrder, t⟩ := by
  obtain ⟨old, k₁, h₁, h'⟩ := Rust.bind_ok h
  obtain ⟨hold, rfl⟩ := Rust.lift_ok h₁
  obtain ⟨s', k₂, h₂, hret⟩ := Rust.bind_ok h'
  obtain ⟨rfl, rfl⟩ := newSignParty_ok h₂
  obtain ⟨hp, rfl⟩ := Rust.pure_ok hret
  obtain ⟨rfl, rfl⟩ := Prod.mk.inj hp
  exact ⟨old, getUnwrap_ok hold, rfl, rfl, rfl⟩

theorem closeSignupWindow_ok {r : SigningRoom} (h : room.closeSignupWindow env now = .ok r) :
    r = if room.isFull = true ∧ room.roomSize.toNat ≤ room.activeCount env now then room.close
      else room := by
  obtain ⟨l, hl, h⟩ := except_bind_ok h
  have hlen := activeMembers_ok hl
  rw [← hlen]
  split at h
  next hc =>
    rw [Bool.and_eq_true, decide_eq_true_eq] at hc
    rw [if_pos hc]
    exact (Except.ok.inj h).symm
  next hc =>
    rw [Bool.and_eq_true, decide_eq_true_eq] at hc
    rw [if_neg hc]
    exact (Except.ok.inj h).symm

theorem closeIfEnough_ok {r : SigningRoom} (h : room.closeIfEnough env clock = .ok r) :
    r = room.settle env clock := by
  unfold closeIfEnough at h
  split at h
  next hfull =>
    obtain ⟨l, hl, h⟩ := except_bind_ok h
    have hlen := activeMembers_ok hl
    split at h
    next hc =>
      rw [closeSignupWindow_ok h]
      exact if_congr ⟨fun hcl => ⟨hcl.1, hlen ▸ hc, hcl.2⟩, fun hcl => ⟨hcl.1, hcl.2.2⟩⟩ rfl rfl
    next hc =>
      rw [settle, if_neg fun hcl => hc (hlen ▸ hcl.2.1)]
      exact (Except.ok.inj h).symm
  next hfull =>
    rw [settle, if_neg fun hcl => hfull hcl.1]
    exact (Except.ok.inj h).symm

@[simp] theorem settle_memberInfo :
    (room.settle env clock).memberInfo = room.memberInfo := by
  unfold settle
  split <;> rfl

theorem updatePing_ok {s : SigningPartySignup} {r : SigningRoom}
    (h : room.updatePing env clock n = .ok (s, r)) :
    ∃ info, room.memberInfo.lookup n = some info ∧
      r = (room.seat n { info with lastPing := clock.ping }).settle env clock ∧
      s = r.infoFor env clock.info { info with lastPing := clock.ping } ∧
      r.activeCount env clock.info < UInt16.size := by
  obtain ⟨info, hinfo, h⟩ := except_bind_ok h
  obtain ⟨r', hr', h⟩ := except_bind_ok h
  obtain ⟨s', hs', h⟩ := except_bind_ok h
  obtain ⟨rfl, rfl⟩ := Prod.mk.inj (Except.ok.inj h)
  obtain ⟨info', hl', hs, hlt⟩ := getSignupInfo_ok hs'
  refine ⟨info, getUnwrap_ok hinfo, closeIfEnough_ok hr', ?_, hlt⟩
  rw [closeIfEnough_ok hr', settle_memberInfo, AList.lookup_insert] at hl'
  rw [hs, ← Option.some.inj hl']

end

end SigningRoom

end TssCli
