import TssCli.Lib.Transition
import TssCli.Room.WellFormed

/-!
# Runs of sign-up requests

A run of the manager is any sequence of `signup_sign` requests, from any
clients, for any rooms, at times that never go back, with entries of the map
expiring in between.  The trace keeps a record of each request: the room at its
key before and after, and the answer.

A record *closes* a room when the room was open before and is closed after.
`RunInv` ties the stored rooms and all answers so far to the closing records: a
stored closed room is one that some record closed, no two records close rooms
of one UUID unless the rooms are the same, and an answer that carries a room
UUID reads a member of the room closed under it.
-/

namespace TssCli

open AssocValues Transition

/-! ## The manager over time -/

/-- The manager between requests. -/
structure ManagerState where
  db : Db
  /-- The number of UUIDs drawn. -/
  issued : Nat
  /-- Whether a handler panicked while it held the lock. -/
  poisoned : Bool
  /-- The time at which the last request was done. -/
  clock : UInt64

/-- The manager as `run_manager` starts it. -/
def ManagerState.init : ManagerState where
  db := fun _ => none
  issued := 0
  poisoned := false
  clock := 0

/-- One request and the room at its key before and after. -/
structure SignRecord where
  clock : Clock
  request : PartySignupRequestBody
  before : Option SigningRoom
  after : Option SigningRoom
  answer : Except Panic SignupAnswer

/-- What happens at the manager. -/
inductive SignEvent where
  | request (record : SignRecord)
  | expired (key : Key)

/-- `signup_sign` behind the lock.  A panic poisons the lock, and a poisoned lock
fails every request. -/
def serve (env : Env) (json : Codec SigningRoom) (m : ManagerState) (clock : Clock)
    (request : PartySignupRequestBody) : ManagerState × Except Panic SignupAnswer :=
  if m.poisoned then ({ m with clock := clock.stop }, .error .poisoned)
  else match (signupSign env clock request json m.db).run m.issued with
    | .ok ((answer, db), issued) => ({ m with db, issued, clock := clock.stop }, .ok answer)
    | .error panic => ({ m with poisoned := true, clock := clock.stop }, .error panic)

/-- The record of a request. -/
def recordOf (env : Env) (json : Codec SigningRoom) (m : ManagerState) (clock : Clock)
    (request : PartySignupRequestBody) : SignRecord where
  clock := clock
  request := request
  before := roomAt json m.db (signKey request)
  after := roomAt json (serve env json m clock request).1.db (signKey request)
  answer := (serve env json m clock request).2

/-- One step of the manager. -/
inductive SignStep (env : Env) (json : Codec SigningRoom) :
    ManagerState → SignEvent → ManagerState → Prop where
  | request {m : ManagerState} {clock : Clock} {request : PartySignupRequestBody} :
      clock.Ordered m.clock →
      SignStep env json m (.request (recordOf env json m clock request))
        (serve env json m clock request).1
  | expired {m : ManagerState} {key : Key} :
      SignStep env json m (.expired key) { m with db := Function.update m.db key none }

/-- A run of sign-up requests. -/
abbrev SignRun (env : Env) (json : Codec SigningRoom) : ManagerState → List SignEvent → Prop :=
  Run (fun m => m = ManagerState.init) (SignStep env json)

/-- The record's request closed its room, as `r`. -/
def SignRecord.Closes (c : SignRecord) (r : SigningRoom) : Prop :=
  ∃ r₀, c.before = some r₀ ∧ r₀.lastStage = .signup ∧
    c.after = some r ∧ r.lastStage = .terminated

/-- The record's request was answered with `s`. -/
def SignRecord.Answers (c : SignRecord) (s : SigningPartySignup) : Prop :=
  c.answer = .ok (.ok s)

/-- The answer `s` is read off the seat `info` of the closed room `r`. -/
structure SignRecord.Reads (env : Env) (c : SignRecord) (s : SigningPartySignup)
    (r : SigningRoom) (info : SigningPartyInfo) : Prop where
  after : c.after = some r
  closed : c.before = some r ∨ c.Closes r
  roomUuid : r.roomUuid = s.roomUuid
  seat : r.memberInfo.lookup c.request.partyNumber = some info
  order : info.partyOrder = s.partyOrder
  id : info.partyId = s.partyUuid
  poll : s.partyUuid = c.request.partyUuid
  total : s.totalJoined = UInt16.ofNat (r.activeCount env c.clock.info)

/-! ## One step, seen from the store -/

section

variable {env : Env} {json : Codec SigningRoom} {m : ManagerState} {clock : Clock}
  {request : PartySignupRequestBody}

/-- A request either fails and leaves the map alone, or is handled at its key
and leaves every other key alone. -/
theorem serve_cases (env : Env) (json : Codec SigningRoom) (m : ManagerState) (clock : Clock)
    (request : PartySignupRequestBody) :
    (∃ p, (recordOf env json m clock request).answer = .error p ∧
      (serve env json m clock request).1.db = m.db ∧
      (serve env json m clock request).1.issued = m.issued) ∨
    (∃ answer, (recordOf env json m clock request).answer = .ok answer ∧
      Handles env clock request (recordOf env json m clock request).before m.issued
        (recordOf env json m clock request).after (serve env json m clock request).1.issued answer ∧
      ∀ key, key ≠ signKey request → (serve env json m clock request).1.db key = m.db key) := by
  unfold recordOf serve
  dsimp only
  split
  next => exact Or.inl ⟨.poisoned, rfl, rfl, rfl⟩
  next =>
    split
    next answer db issued h =>
      obtain ⟨stored, hroom, rfl⟩ := signupSign_ok h
      refine Or.inr ⟨answer, rfl, ?_, fun key hkey => storeRoom_other json m.db stored hkey⟩
      dsimp only
      rw [storeRoom_roomAt]
      exact signupRoom_ok hroom
    next p h => exact Or.inl ⟨p, rfl, rfl, rfl⟩

theorem roomAt_congr {db db' : Db} {key : Key} (h : db' key = db key) :
    roomAt json db' key = roomAt json db key := by
  rw [roomAt, roomAt, h]

/-- The handler does to the room it reads what its body does. -/
theorem serve_of_room (request : PartySignupRequestBody) {before stored : Option SigningRoom}
    {answer : SignupAnswer} {k' : Nat} (hp : m.poisoned = false)
    (hread : readRoom json m.db (signKey request) = .ok before)
    (hroom : (signupRoom env clock request before).run m.issued = .ok ((answer, stored), k')) :
    serve env json m clock request =
      ({ m with
          db := storeRoom json m.db (signKey request) stored, issued := k', clock := clock.stop },
        .ok answer) := by
  have hrun : (signupSign env clock request json m.db).run m.issued =
      .ok ((answer, storeRoom json m.db (signKey request) stored), k') := by
    rw [signupSign, hread, Rust.lift_ok_bind, Rust.run_bind_of_ok hroom]
    rfl
  rw [serve, hp, if_neg Bool.false_ne_true, hrun]

theorem readRoom_storeRoom {db : Db} {key : Key} {before : Option SigningRoom}
    (h : readRoom json db key = .ok before) (stored : Option SigningRoom) :
    readRoom json (storeRoom json db key stored) key = .ok (stored.or before) := by
  cases stored with
  | none => exact h
  | some r =>
      have hdb : storeRoom json db key (some r) key = some (json.encode r) :=
        Function.update_self ..
      rw [readRoom, hdb]
      dsimp only
      rw [Codec.read_encode]
      rfl

end

/-! ## The invariant of a run -/

/-- What ties the stored rooms and the answers to the closing records. -/
structure RunInv (env : Env) (json : Codec SigningRoom) (m : ManagerState) (tr : List SignEvent) :
    Prop where
  /-- Stored rooms are well formed. -/
  roomOk : ∀ key r, roomAt json m.db key = some r → RoomOk env m.issued r
  /-- Rooms under different keys have different UUIDs. -/
  apart : ∀ key key' r r', roomAt json m.db key = some r → roomAt json m.db key' = some r' →
    r.roomUuid = r'.roomUuid → key = key'
  /-- A stored closed room was closed by some request. -/
  logged : ∀ key r, roomAt json m.db key = some r → r.lastStage = .terminated →
    ∃ c, .request c ∈ tr ∧ c.Closes r
  /-- No room of the UUID of a stored open room has been closed. -/
  unlogged : ∀ key r, roomAt json m.db key = some r → r.lastStage = .signup →
    ∀ c r', .request c ∈ tr → c.Closes r' → r'.roomUuid ≠ r.roomUuid
  /-- Closed rooms are well formed. -/
  closedOk : ∀ c r, .request c ∈ tr → c.Closes r → RoomOk env m.issued r
  /-- One room is closed per UUID. -/
  closedOnce : ∀ c c' r r', .request c ∈ tr → .request c' ∈ tr → c.Closes r → c'.Closes r' →
    r.roomUuid = r'.roomUuid → r = r'
  /-- An answer with a room UUID reads a seat of the room closed under it. -/
  answered : ∀ c s, .request c ∈ tr → c.Answers s → s.roomUuid ≠ "" →
    ∃ d r info, .request d ∈ tr ∧ d.Closes r ∧ c.Reads env s r info

section

variable {env : Env} {json : Codec SigningRoom} {m m' : ManagerState} {tr : List SignEvent}
  {e : SignEvent} {c : SignRecord} {answer : SignupAnswer}

/-- A step either keeps every stored room, or forgets one, or handles one request. -/
theorem SignStep.cases (h : SignStep env json m e m') :
    (∃ key, e = .expired key ∧ m'.issued = m.issued ∧
      ∀ key' r, roomAt json m'.db key' = some r → roomAt json m.db key' = some r) ∨
    (∃ c p, e = .request c ∧ c.answer = .error p ∧ c.before = c.after ∧
      m'.db = m.db ∧ m'.issued = m.issued) ∨
    (∃ c answer, e = .request c ∧ c.answer = .ok answer ∧
      c.before = roomAt json m.db (signKey c.request) ∧
      c.after = roomAt json m'.db (signKey c.request) ∧
      Handles env c.clock c.request c.before m.issued c.after m'.issued answer ∧
      ∀ key, key ≠ signKey c.request → roomAt json m'.db key = roomAt json m.db key) := by
  cases h with
  | @expired key =>
      refine Or.inl ⟨key, rfl, rfl, fun key' r hr => ?_⟩
      by_cases hk : key' = key
      · rw [hk] at hr
        simp [roomAt] at hr
      · rwa [roomAt_congr (Function.update_of_ne hk none m.db)] at hr
  | @request clock request hclock =>
      rcases serve_cases env json m clock request with ⟨p, ha, hdb, hissued⟩ | ⟨a, ha, hh, hother⟩
      · refine Or.inr (Or.inl ⟨_, p, rfl, ha, ?_, hdb, hissued⟩)
        simp only [recordOf, hdb]
      · exact Or.inr (Or.inr ⟨_, a, rfl, ha, rfl, rfl, hh, fun key hk => roomAt_congr (hother key hk)⟩)

/-- The room a record closes has the UUID it had while it was open. -/
theorem Handles.closes_uuid {k k' : Nat} {r r₀ : SigningRoom}
    (h : Handles env c.clock c.request c.before k c.after k' answer)
    (hcl : c.Closes r) (hbefore : c.before = some r₀) : r₀.roomUuid = r.roomUuid := by
  obtain ⟨r₁, hb, hopen, ha, hterm⟩ := hcl
  rw [hbefore] at hb
  obtain rfl := Option.some.inj hb
  rw [ha, hbefore] at h
  rcases h.closing hterm with he | ⟨r₂, info, he, -, -, hr, -⟩
  · rw [Option.some.inj he]
  · rw [hr, Option.some.inj he]
    rfl

theorem not_closes_of_eq {r : SigningRoom} (h : c.before = c.after) : ¬ c.Closes r := by
  rintro ⟨r₀, hb, hopen, ha, hterm⟩
  rw [h, ha] at hb
  rw [Option.some.inj hb, hopen] at hterm
  cases hterm

/-- The request that closes a room is a ping that finds it full and enough members
active. -/
theorem Handles.closed {k k' : Nat} {r : SigningRoom}
    (h : Handles env c.clock c.request c.before k c.after k' answer) (hcl : c.Closes r) :
    r.Settles env c.clock := by
  obtain ⟨r₀, hb, hopen, ha, hterm⟩ := hcl
  rw [ha] at h
  rcases h.closing hterm with hb' | ⟨r₁, info, -, -, -, rfl, hsettles⟩
  · rw [hb] at hb'
    rw [Option.some.inj hb', hterm] at hopen
    cases hopen
  · exact hsettles

/-- A step that closes a room handles a request. -/
theorem SignStep.closes {r : SigningRoom} (h : SignStep env json m e m') (he : e = .request c)
    (hcl : c.Closes r) : ∃ answer, c.after = roomAt json m'.db (signKey c.request) ∧
      Handles env c.clock c.request c.before m.issued c.after m'.issued answer := by
  subst he
  rcases h.cases with ⟨key, he, -⟩ | ⟨c', p, he, -, hba, -⟩ |
    ⟨c', answer, he, -, -, hafter, hh, -⟩
  · cases he
  · obtain rfl := SignEvent.request.inj he
    exact absurd hcl (not_closes_of_eq hba)
  · obtain rfl := SignEvent.request.inj he
    exact ⟨answer, hafter, hh⟩

/-- An answered request of a run was handled. -/
theorem SignRun.handled (h : SignRun env json m tr) (hc : .request c ∈ tr)
    (ha : c.answer = .ok answer) :
    ∃ k k', Handles env c.clock c.request c.before k c.after k' answer := by
  obtain ⟨later, earlier, rfl⟩ := List.append_of_mem hc
  obtain ⟨m₀, m₁, -, hs⟩ := Run.split h
  rcases hs.cases with ⟨key, he, -⟩ | ⟨c', p, he, hp, -⟩ | ⟨c', answer', he, ha', -, -, hh, -⟩
  · cases he
  · obtain rfl := SignEvent.request.inj he
    rw [ha] at hp
    cases hp
  · obtain rfl := SignEvent.request.inj he
    obtain rfl := Except.ok.inj (ha.symm.trans ha')
    exact ⟨_, _, hh⟩

/-- An answer with a room UUID is read off the room stored afterwards, which is closed. -/
theorem Handles.reads {k k' : Nat} {s : SigningPartySignup}
    (h : Handles env c.clock c.request c.before k c.after k' (.ok s)) (hs : s.roomUuid ≠ "") :
    ∃ r info, c.after = some r ∧ r.lastStage = .terminated ∧ c.Reads env s r info := by
  obtain ⟨r, info, hr, hterm, hu, hl, horder, hid, hpoll, htotal⟩ := h.answered hs
  refine ⟨r, info, hr, hterm, hr, ?_, hu, hl, horder, hid, hpoll, htotal⟩
  rw [hr] at h
  rcases h.closing hterm with hb | ⟨r₀, -, hb, hopen, -⟩
  · exact Or.inl hb
  · exact Or.inr ⟨r₀, hb, hopen, hr, hterm⟩

theorem runInv_init : RunInv env json ManagerState.init [] where
  roomOk := by intro key r h; simp [ManagerState.init, roomAt] at h
  apart := by intro key key' r r' h; simp [ManagerState.init, roomAt] at h
  logged := by intro key r h; simp [ManagerState.init, roomAt] at h
  unlogged := by intro key r h; simp [ManagerState.init, roomAt] at h
  closedOk := by intro c r h; cases h
  closedOnce := by intro c c' r r' h; cases h
  answered := by intro c s h; cases h

/-- A step that only forgets rooms, or fails, keeps the invariant. -/
theorem RunInv.weaken (h : RunInv env json m tr) (hissued : m'.issued = m.issued)
    (hrooms : ∀ key r, roomAt json m'.db key = some r → roomAt json m.db key = some r)
    (hclose : ∀ c r, e = .request c → ¬ c.Closes r)
    (hanswer : ∀ c s, e = .request c → ¬ c.Answers s) : RunInv env json m' (e :: tr) := by
  have old : ∀ {c r}, SignEvent.request c ∈ e :: tr → c.Closes r → .request c ∈ tr := by
    intro c r hc hcl
    exact List.mem_of_ne_of_mem (fun he => hclose c r he.symm hcl) hc
  constructor
  · intro key r hr
    rw [hissued]
    exact h.roomOk key r (hrooms key r hr)
  · intro key key' r r' hr hr' hu
    exact h.apart key key' r r' (hrooms key r hr) (hrooms key' r' hr') hu
  · intro key r hr hterm
    obtain ⟨c, hc, hcl⟩ := h.logged key r (hrooms key r hr) hterm
    exact ⟨c, List.mem_cons_of_mem _ hc, hcl⟩
  · intro key r hr hopen c r' hc hcl
    exact h.unlogged key r (hrooms key r hr) hopen c r' (old hc hcl) hcl
  · intro c r hc hcl
    rw [hissued]
    exact h.closedOk c r (old hc hcl) hcl
  · intro c c' r r' hc hc' hcl hcl'
    exact h.closedOnce c c' r r' (old hc hcl) (old hc' hcl') hcl hcl'
  · intro c s hc ha hs
    have hold := List.mem_of_ne_of_mem (fun he => hanswer c s he.symm ha) hc
    obtain ⟨d, r, info, hd, hdr⟩ := h.answered c s hold ha hs
    exact ⟨d, r, info, List.mem_cons_of_mem _ hd, hdr⟩

/-- A request of a run with one more is that one, or an earlier one. -/
theorem mem_requests {d : SignRecord} (hd : .request d ∈ .request c :: tr) :
    d = c ∨ .request d ∈ tr := by
  cases List.mem_cons.mp hd with
  | inl he => exact Or.inl (SignEvent.request.inj he)
  | inr ht => exact Or.inr ht

/-- A room that is stored after a request is the one that it leaves, or was there before. -/
theorem room_after {key : Key} {r : SigningRoom}
    (hafter : c.after = roomAt json m'.db (signKey c.request))
    (hother : ∀ key, key ≠ signKey c.request → roomAt json m'.db key = roomAt json m.db key)
    (hr : roomAt json m'.db key = some r) :
    (key = signKey c.request ∧ c.after = some r) ∨
      (key ≠ signKey c.request ∧ roomAt json m.db key = some r) := by
  by_cases hkey : key = signKey c.request
  · exact Or.inl ⟨hkey, by rw [hafter, ← hkey, hr]⟩
  · exact Or.inr ⟨hkey, by rw [← hother key hkey, hr]⟩

theorem RunInv.before_ok (h : RunInv env json m tr)
    (hbefore : c.before = roomAt json m.db (signKey c.request)) {b : SigningRoom}
    (hb : c.before = some b) : RoomOk env m.issued b := h.roomOk _ b (hbefore ▸ hb)

section

variable (h : RunInv env json m tr) (hbefore : c.before = roomAt json m.db (signKey c.request))
  (hh : Handles env c.clock c.request c.before m.issued c.after m'.issued answer)

include h hbefore hh

/-- An open room that the request closes was not closed before. -/
theorem RunInv.not_closed_before {c' : SignRecord} {r r' : SigningRoom} (hc' : .request c' ∈ tr)
    (hcl' : c'.Closes r') (hcl : c.Closes r) : r'.roomUuid ≠ r.roomUuid := by
  obtain ⟨r₀, hb, hopen, -⟩ := id hcl
  rw [← hh.closes_uuid hcl hb]
  exact h.unlogged _ r₀ (hbefore ▸ hb) hopen c' r' hc' hcl'

/-- The room that the request leaves is none of those under other keys. -/
theorem RunInv.apart_after {key : Key} {r r' : SigningRoom} (hkey : key ≠ signKey c.request)
    (hr : roomAt json m.db key = some r) (hr' : c.after = some r') : r'.roomUuid ≠ r.roomUuid := by
  intro hu
  have hcl := hr' ▸ hh
  rcases hcl.uuid with ⟨b, hb, hbu⟩ | ⟨hu', -⟩
  · exact hkey (h.apart key _ r b hr (hbefore ▸ hb) (hu.symm.trans hbu.symm))
  · exact (h.roomOk key r hr).uuidIssued.ne_next (Nat.le_refl _) (hu.symm.trans hu')

/-- A closed room that the request leaves was closed by it, or before. -/
theorem RunInv.logged_after {r : SigningRoom} (hr : c.after = some r)
    (hterm : r.lastStage = .terminated) : ∃ d, .request d ∈ .request c :: tr ∧ d.Closes r := by
  have hcl := hr ▸ hh
  rcases hcl.closing hterm with hb | ⟨r₀, info, hb, hopen, -⟩
  · obtain ⟨d, hd, hdr⟩ := h.logged _ r (hbefore ▸ hb) hterm
    exact ⟨d, List.mem_cons_of_mem _ hd, hdr⟩
  · exact ⟨c, List.mem_cons_self .., r₀, hb, hopen, hr, hterm⟩

/-- No room of the UUID of an open room that the request leaves was closed before. -/
theorem RunInv.unlogged_after {r r' : SigningRoom} {d : SignRecord} (hr : c.after = some r)
    (hopen : r.lastStage = .signup) (hd : .request d ∈ tr) (hdr : d.Closes r') :
    r'.roomUuid ≠ r.roomUuid := by
  have hnext : r.roomUuid = env.uuid m.issued → r'.roomUuid ≠ r.roomUuid := by
    intro hu
    rw [hu]
    exact (h.closedOk d r' hd hdr).uuidIssued.ne_next (Nat.le_refl _)
  have hcl := hr ▸ hh
  rcases hcl.uuid with ⟨b, hb, hbu⟩ | ⟨hu', -⟩
  · cases hstage : b.lastStage with
    | signup =>
        rw [← hbu]
        exact h.unlogged _ b (hbefore ▸ hb) hstage d r' hd hdr
    | terminated =>
        rw [hb] at hcl
        rcases hcl.frozen hstage with he | ⟨r₁, he, hu₁, -⟩
        · rw [Option.some.inj he, hstage] at hopen
          cases hopen
        · rw [← Option.some.inj he] at hu₁
          exact hnext hu₁
  · exact hnext hu'

end

/-- A handled request keeps the invariant. -/
theorem RunInv.handled (h : RunInv env json m tr) (ha : c.answer = .ok answer)
    (hbefore : c.before = roomAt json m.db (signKey c.request))
    (hafter : c.after = roomAt json m'.db (signKey c.request))
    (hh : Handles env c.clock c.request c.before m.issued c.after m'.issued answer)
    (hother : ∀ key, key ≠ signKey c.request → roomAt json m'.db key = roomAt json m.db key) :
    RunInv env json m' (.request c :: tr) := by
  have hle := hh.le
  have hok : ∀ b, c.before = some b → RoomOk env m.issued b := fun _ hb => h.before_ok hbefore hb
  have hroom := fun {key r} (hr : roomAt json m'.db key = some r) => room_after hafter hother hr
  constructor
  · intro key r hr
    rcases hroom hr with ⟨-, hr⟩ | ⟨-, hr⟩
    · exact hh.roomOk hok r hr
    · exact (h.roomOk key r hr).mono hle
  · intro key key' r r' hr hr' hu
    rcases hroom hr with ⟨hkey, hr⟩ | ⟨hkey, hr⟩ <;> rcases hroom hr' with ⟨hkey', hr'⟩ | ⟨hkey', hr'⟩
    · rw [hkey, hkey']
    · exact absurd hu (h.apart_after hbefore hh hkey' hr' hr)
    · exact absurd hu.symm (h.apart_after hbefore hh hkey hr hr')
    · exact h.apart key key' r r' hr hr' hu
  · intro key r hr hterm
    rcases hroom hr with ⟨-, hr⟩ | ⟨-, hr⟩
    · exact h.logged_after hbefore hh hr hterm
    · obtain ⟨d, hd, hdr⟩ := h.logged key r hr hterm
      exact ⟨d, List.mem_cons_of_mem _ hd, hdr⟩
  · intro key r hr hopen d r' hd hdr
    rcases hroom hr with ⟨-, hr⟩ | ⟨hkey, hr⟩ <;> rcases mem_requests hd with rfl | hd
    · obtain ⟨-, -, -, hr', hterm⟩ := hdr
      rw [hr] at hr'
      rw [← Option.some.inj hr', hopen] at hterm
      cases hterm
    · exact h.unlogged_after hbefore hh hr hopen hd hdr
    · obtain ⟨r₀, -, -, hr', -⟩ := hdr
      exact h.apart_after hbefore hh hkey hr hr'
    · exact h.unlogged key r hr hopen d r' hd hdr
  · intro d r hd hdr
    rcases mem_requests hd with rfl | hd
    · obtain ⟨-, -, -, hr, -⟩ := hdr
      exact hh.roomOk hok r hr
    · exact (h.closedOk d r hd hdr).mono hle
  · intro d d' r r' hd hd' hdr hdr' hu
    rcases mem_requests hd with rfl | hold <;> rcases mem_requests hd' with rfl | hold'
    · obtain ⟨-, -, -, hr, -⟩ := hdr
      obtain ⟨-, -, -, hr', -⟩ := hdr'
      rw [hr] at hr'
      exact Option.some.inj hr'
    · exact absurd hu.symm (h.not_closed_before hbefore hh hold' hdr' hdr)
    · exact absurd hu (h.not_closed_before hbefore hh hold hdr hdr')
    · exact h.closedOnce d d' r r' hold hold' hdr hdr' hu
  · intro d s hd has hs
    rcases mem_requests hd with rfl | hd
    · obtain rfl := Except.ok.inj (has.symm.trans ha)
      obtain ⟨r', info, hr', hterm, hread⟩ := hh.reads hs
      obtain ⟨d', hd', hdr'⟩ := h.logged_after hbefore hh hr' hterm
      exact ⟨d', r', info, hd', hdr', hread⟩
    · obtain ⟨d', r', info, hd', hrest⟩ := h.answered d s hd has hs
      exact ⟨d', r', info, List.mem_cons_of_mem _ hd', hrest⟩

theorem runInv_step (h : RunInv env json m tr) (hs : SignStep env json m e m') :
    RunInv env json m' (e :: tr) := by
  rcases hs.cases with ⟨key, rfl, hissued, hrooms⟩ | ⟨c, p, rfl, ha, hba, hdb, hissued⟩ |
    ⟨c, answer, rfl, ha, hbefore, hafter, hh, hother⟩
  · exact h.weaken hissued hrooms (fun _ _ he => by cases he) (fun _ _ he => by cases he)
  · refine h.weaken hissued (fun key r hr => hdb ▸ hr) (fun c' r he => ?_) (fun c' s he => ?_)
    · obtain rfl := SignEvent.request.inj he
      exact not_closes_of_eq hba
    · obtain rfl := SignEvent.request.inj he
      intro has
      rw [SignRecord.Answers, ha] at has
      cases has
  · exact h.handled ha hbefore hafter hh hother

/-- Every run keeps the invariant. -/
theorem runInv_run (h : SignRun env json m tr) : RunInv env json m tr := by
  refine Run.invariant (RunInv env json) ?_ ?_ h
  · rintro m rfl
    exact runInv_init
  · intro m e m' tr _ hinv hs
    exact runInv_step hinv hs

end

/-! ## Runs at one key

A run whose requests are all for one room can be followed on the room alone. -/

/-- Some run with this trace leaves `before` under `key`, with `k` UUIDs drawn,
the last request at `t` and the lock healthy. -/
def Reaches (env : Env) (json : Codec SigningRoom) (key : Key) (tr : List SignEvent)
    (before : Option SigningRoom) (k : Nat) (t : UInt64) : Prop :=
  ∃ m, SignRun env json m tr ∧ m.db key = before.map json.encode ∧ m.issued = k ∧
    m.poisoned = false ∧ m.clock = t

section

variable {env : Env} {json : Codec SigningRoom} {key : Key} {tr : List SignEvent}
  {before stored : Option SigningRoom} {k k' : Nat} {t : UInt64} {clock : Clock}
  {request : PartySignupRequestBody} {answer : SignupAnswer}

theorem reaches_init (json : Codec SigningRoom) : Reaches env json key [] none 0 0 :=
  ⟨_, .start rfl, rfl, rfl, rfl, rfl⟩

/-- The handler does to a stored room what its body does. -/
theorem signupSign_run {db : Db} (hdb : db (signKey request) = before.map json.encode)
    (h : (signupRoom env clock request before).run k = .ok ((answer, stored), k')) :
    (signupSign env clock request json db).run k =
      .ok ((answer, storeRoom json db (signKey request) stored), k') := by
  have hread : readRoom json db (signKey request) = .ok before := by
    unfold readRoom
    rw [hdb]
    cases before with
    | none => rfl
    | some r => simp [bind, Except.bind, pure, Except.pure]
  unfold signupSign
  rw [StateT.run_bind, hread]
  show ((signupRoom env clock request before).run k >>= _) = _
  rw [h]
  rfl

/-- One more request, followed on the room. -/
theorem Reaches.answered (h : Reaches env json key tr before k t) (hkey : signKey request = key)
    (ht : clock.Ordered t)
    (hroom : (signupRoom env clock request before).run k = .ok ((answer, stored), k')) :
    Reaches env json key
      (.request ⟨clock, request, before, stored.or before, .ok answer⟩ :: tr)
      (stored.or before) k' clock.stop := by
  subst hkey
  obtain ⟨m, hrun, hdb, rfl, hp, rfl⟩ := h
  have hserve : serve env json m clock request =
      ({ m with
          db := storeRoom json m.db (signKey request) stored, issued := k', clock := clock.stop },
        .ok answer) := by
    rw [serve, hp, if_neg Bool.false_ne_true, signupSign_run hdb hroom]
  have hbefore : roomAt json m.db (signKey request) = before := by
    rw [roomAt, hdb]
    cases before <;> simp
  have hrec : recordOf env json m clock request =
      ⟨clock, request, before, stored.or before, .ok answer⟩ := by
    rw [recordOf, hserve]
    simp only [storeRoom_roomAt, hbefore]
  refine ⟨(serve env json m clock request).1, ?_, ?_, ?_, ?_, ?_⟩
  · rw [← hrec]
    exact hrun.snoc (.request ht)
  · rw [hserve]
    cases stored with
    | none => exact hdb
    | some r => simp [storeRoom, set]
  · rw [hserve]
  · rw [hserve]
    exact hp
  · rw [hserve]

end

/-- What is known of a run for one room. -/
structure Played where
  records : List SignRecord
  room : Option SigningRoom
  issued : Nat
  clock : UInt64

/-- One more request for the room under `key`, if it comes in time and does not panic. -/
def playStep (env : Env) (key : Key) (s : Played) (now : UInt64)
    (request : PartySignupRequestBody) : Option Played :=
  if signKey request = key ∧ s.clock ≤ now then
    match (signupRoom env now request s.room).run s.issued with
    | .ok ((answer, stored), issued) =>
        some { records := ⟨now, request, s.room, stored.or s.room, .ok answer⟩ :: s.records,
               room := stored.or s.room, issued, clock := now }
    | .error _ => none
  else none

/-- Requests for the room under `key`, oldest first. -/
def play (env : Env) (key : Key) (s : Played) :
    List (UInt64 × PartySignupRequestBody) → Option Played
  | [] => some s
  | (now, request) :: rest => (playStep env key s now request).bind fun s' => play env key s' rest

/-- No request yet. -/
def Played.init : Played where
  records := []
  room := none
  issued := 0
  clock := 0

section

variable {env : Env} {json : Codec SigningRoom} {key : Key}

theorem reaches_playStep {s s' : Played} {now : UInt64} {request : PartySignupRequestBody}
    (h : Reaches env json key (s.records.map .request) s.room s.issued s.clock)
    (hs : playStep env key s now request = some s') :
    Reaches env json key (s'.records.map .request) s'.room s'.issued s'.clock := by
  unfold playStep at hs
  split at hs
  next hc =>
    split at hs
    next answer stored issued hroom =>
      obtain rfl := Option.some.inj hs
      exact h.answered hc.1 (Clock.ordered_steady hc.2) hroom
    next => cases hs
  next => cases hs

theorem reaches_play : ∀ {requests : List (UInt64 × PartySignupRequestBody)} {s s' : Played},
    Reaches env json key (s.records.map .request) s.room s.issued s.clock →
    play env key s requests = some s' →
    Reaches env json key (s'.records.map .request) s'.room s'.issued s'.clock
  | [], s, s', h, hs => by
      obtain rfl := Option.some.inj hs
      exact h
  | (now, request) :: rest, s, s', h, hs => by
      obtain ⟨s₁, h₁, hs⟩ := Option.bind_eq_some_iff.mp hs
      exact reaches_play (reaches_playStep h h₁) hs

/-- Requests for one room that do not panic are a run of the manager. -/
theorem signRun_play (json : Codec SigningRoom)
    {requests : List (UInt64 × PartySignupRequestBody)} {s : Played}
    (h : play env key .init requests = some s) :
    ∃ m, SignRun env json m (s.records.map .request) := by
  obtain ⟨m, hrun, -⟩ := reaches_play (reaches_init json : Reaches env json key _ _ _ _) h
  exact ⟨m, hrun⟩

end

/-- A request for the room of message `"m"` in a signing with `threshold = 1`. -/
def requestOf (partyNumber : UInt16) (partyUuid : String) : PartySignupRequestBody where
  threshold := 1
  roomId := "m"
  partyNumber := partyNumber
  partyUuid := partyUuid
  curveName := "ECDSA"

def roomKey : Key := signKey (requestOf 1 "")

end TssCli
