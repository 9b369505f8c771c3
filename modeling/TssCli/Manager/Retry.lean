import TssCli.Common.Delivery
import TssCli.Counter.Run
import TssCli.Room.Repeats
import TssCli.Room.Run

/-!
# Requests that are sent twice

`postb` sends a request again when the connection fails, also when only the
response was lost.  So the manager may handle a request twice in a row, and the
client goes on with the second answer.

Getting, setting and polling do nothing the second time (`Unchanged`).  A fresh
sign-up for a signing that was given a seat is turned down the second time, by
the guard against a re-signup of an active party.  A sign-up for a key
generation takes a second number.
-/

namespace TssCli

open AssocValues Transition

/-! ## The four handlers -/

/-- The requests the clients send through `postb`. -/
inductive ManagerRequest where
  | get (key : Key)
  | set (entry : Entry)
  | signupKeygen (params : Params) (curve : String)
  | signupSign (request : PartySignupRequestBody)

/-- What a handler returns. -/
inductive Reply where
  | entry (answer : Except ManagerError Entry)
  | stored
  | keygen (partySignup : PartySignup)
  | sign (answer : SignupAnswer)
deriving DecidableEq

/-- The reply without the UUIDs a sign-up generates. -/
def Reply.seat : Reply → Reply
  | .keygen s => .keygen { s with uuid := "" }
  | .sign (.ok s) => .sign (.ok { s with partyUuid := "" })
  | reply => reply

section

variable (env : Env) (keygenJson : Codec PartySignup) (roomJson : Codec SigningRoom)

/-- The handlers behind the lock. -/
def handle (m : ManagerState) (clock : Clock) :
    ManagerRequest → ManagerState × Except Panic Reply
  | .get key =>
    if m.poisoned then ({ m with clock := clock.stop }, .error .poisoned)
    else ({ m with clock := clock.stop }, .ok (.entry (get m.db key)))
  | .set entry =>
    if m.poisoned then ({ m with clock := clock.stop }, .error .poisoned)
    else ({ m with db := set m.db entry, clock := clock.stop }, .ok .stored)
  | .signupKeygen params curve =>
    let (c, answer) := serveKeygen env keygenJson ⟨m.db, m.issued, m.poisoned⟩ params curve
    ({ db := c.db, issued := c.issued, poisoned := c.poisoned, clock := clock.stop },
      answer.map .keygen)
  | .signupSign request =>
    let (m', answer) := serve env roomJson m clock request
    (m', answer.map .sign)

/-- The request handled once more, at the same time. -/
def handleAgain (m : ManagerState) (now : UInt64) (request : ManagerRequest) :
    ManagerState × Except Panic Reply :=
  handle env keygenJson roomJson (handle env keygenJson roomJson m now request).1 now request

/-- What happens at the manager. -/
inductive ManagerEvent where
  | request (clock : Clock) (request : ManagerRequest)
  | expired (key : Key)

/-- The clients set the keys of their letters only. -/
def ManagerRequest.Sent : ManagerRequest → Prop
  | .set entry => ∃ letter : Letter, entry.key = letter.key
  | _ => True

/-- One request, or the end of an entry's time. -/
inductive ManagerStep : ManagerState → ManagerEvent → ManagerState → Prop where
  | request {m : ManagerState} {clock : Clock} {request : ManagerRequest} :
      clock.Ordered m.clock → request.Sent →
      ManagerStep m (.request clock request) (handle env keygenJson roomJson m clock request).1
  | expired {m : ManagerState} {key : Key} :
      ManagerStep m (.expired key) { m with db := Function.update m.db key none }

/-- A run of all handlers. -/
abbrev ManagerRun : ManagerState → List ManagerEvent → Prop :=
  Run (fun m => m = ManagerState.init) (ManagerStep env keygenJson roomJson)

/-! ## What twice is to once -/

/-- The second handling leaves the store and repeats the reply.  The client sees
any panic as the same error page. -/
structure Unchanged (m : ManagerState) (now : UInt64) (request : ManagerRequest) : Prop where
  store : (handleAgain env keygenJson roomJson m now request).1.db =
    (handle env keygenJson roomJson m now request).1.db
  reply : (handleAgain env keygenJson roomJson m now request).2.toOption =
    (handle env keygenJson roomJson m now request).2.toOption

/-- The second handling leaves the store and refuses the seat given by the first. -/
structure TurnedDown (m : ManagerState) (now : UInt64) (request : PartySignupRequestBody) :
    Prop where
  store : (handleAgain env keygenJson roomJson m now (.signupSign request)).1.db =
    (handle env keygenJson roomJson m now (.signupSign request)).1.db
  reply : ∃ e, (e = errActive ∨ e = errFull) ∧
    (handleAgain env keygenJson roomJson m now (.signupSign request)).2 = .ok (.sign (.error e))

/-- The second handling takes the number after `s`, or the first of a new group. -/
structure TakesNext (m : ManagerState) (now : UInt64) (params : Params) (curve : String)
    (parties : UInt16) (s s' : PartySignup) : Prop where
  reply : (handleAgain env keygenJson roomJson m now (.signupKeygen params curve)).2 =
    .ok (.keygen s')
  store : (handleAgain env keygenJson roomJson m now (.signupKeygen params curve)).1.db =
    set (handle env keygenJson roomJson m now (.signupKeygen params curve)).1.db
      { key := keygenKey curve, value := keygenJson.encode s' }
  next : s.number < parties → s' = ⟨s.number + 1, s.uuid⟩
  first : parties ≤ s.number →
    s' = ⟨1, env.uuid (handle env keygenJson roomJson m now (.signupKeygen params curve)).1.issued⟩
  sameNumber : s'.number = s.number ↔ parties ≤ 1

end

section

variable {env : Env} {keygenJson : Codec PartySignup} {roomJson : Codec SigningRoom}
  {m m' : ManagerState} {tr : List ManagerEvent} {e : ManagerEvent} {now : UInt64}

/-! ## The rooms of a run -/

/-- Stored rooms are well formed. -/
def RoomsOk (env : Env) (roomJson : Codec SigningRoom) (m : ManagerState) : Prop :=
  ∀ (request : PartySignupRequestBody) r, roomAt roomJson m.db (signKey request) = some r →
    RoomOk env m.issued r

theorem keygenKey_ne_signKey (curve : String) (request : PartySignupRequestBody) :
    signKey request ≠ keygenKey curve := by
  intro h
  have hlist := congrArg String.toList h
  simp [signKey, keygenKey, String.toList_append] at hlist

/-- A sign-up for a key generation touches its counter alone. -/
theorem serveKeygen_other (env : Env) (json : Codec PartySignup) (m : CounterState)
    (params : Params) (curve : String) :
    m.issued ≤ (serveKeygen env json m params curve).1.issued ∧
      ∀ key, key ≠ keygenKey curve → (serveKeygen env json m params curve).1.db key = m.db key := by
  unfold serveKeygen
  split
  next => exact ⟨Nat.le_refl _, fun _ _ => rfl⟩
  next =>
    split
    next => exact ⟨Nat.le_refl _, fun _ _ => rfl⟩
    next =>
      split
      next s db issued h =>
        obtain ⟨parties, c, k₁, -, hle, hnext, -⟩ := signupKeygen_ok h
        exact ⟨hle.trans (nextSignup_le hnext), fun key hkey => signupKeygen_other h hkey⟩
      next => exact ⟨Nat.le_refl _, fun _ _ => rfl⟩

/-- A step that leaves the rooms alone keeps them well formed. -/
theorem RoomsOk.mono (h : RoomsOk env roomJson m) (hissued : m.issued ≤ m'.issued)
    (hdb : ∀ request, m'.db (signKey request) = m.db (signKey request)) :
    RoomsOk env roomJson m' := by
  intro request r hr
  rw [roomAt_congr (hdb request)] at hr
  exact (h request r hr).mono hissued

/-- Every step keeps the rooms well formed. -/
theorem RoomsOk.step (h : RoomsOk env roomJson m)
    (hs : ManagerStep env keygenJson roomJson m e m') : RoomsOk env roomJson m' := by
  cases hs with
  | @expired key =>
      intro request r hr
      by_cases hkey : signKey request = key
      · rw [hkey] at hr
        simp [roomAt] at hr
      · rw [roomAt_congr (Function.update_of_ne hkey none m.db)] at hr
        exact h request r hr
  | @request clock request hclock hsent =>
      cases request with
      | get key =>
          rw [handle]
          split
          next => exact h.mono (Nat.le_refl _) fun _ => rfl
          next => exact h.mono (Nat.le_refl _) fun _ => rfl
      | set entry =>
          rw [handle]
          split
          next => exact h.mono (Nat.le_refl _) fun _ => rfl
          next =>
            obtain ⟨letter, hkey⟩ := hsent
            refine h.mono (Nat.le_refl _) fun request => Function.update_of_ne ?_ _ _
            rw [hkey]
            exact (letter.key_ne_signKey request).symm
      | signupKeygen params curve =>
          obtain ⟨hle, hother⟩ :=
            serveKeygen_other env keygenJson ⟨m.db, m.issued, m.poisoned⟩ params curve
          exact h.mono hle fun request => hother _ (keygenKey_ne_signKey curve request)
      | signupSign request =>
          rcases serve_cases env roomJson m clock request with ⟨p, -, hdb, hissued⟩ |
            ⟨answer, -, hh, hother⟩
          · exact h.mono hissued.ge fun _ => by rw [handle, hdb]
          · intro request' r hr
            by_cases hkey : signKey request' = signKey request
            · rw [hkey] at hr
              exact hh.roomOk (fun b hb => h request b hb) r hr
            · have hdb := hother _ hkey
              rw [handle, roomAt_congr hdb] at hr
              exact (h request' r hr).mono hh.le

theorem ManagerRun.roomsOk (h : ManagerRun env keygenJson roomJson m tr) :
    RoomsOk env roomJson m := by
  refine Run.invariant (fun m _ => RoomsOk env roomJson m) ?_ ?_ h
  · rintro m rfl request r hr
    cases hr
  · intro m e m' tr _ hinv hs
    exact hinv.step hs

/-! ## Getting and setting -/

theorem unchanged_get (key : Key) : Unchanged env keygenJson roomJson m now (.get key) := by
  cases hp : m.poisoned with
  | true => constructor <;> simp [handleAgain, handle, hp]
  | false => constructor <;> simp [handleAgain, handle, hp]

theorem unchanged_set (entry : Entry) : Unchanged env keygenJson roomJson m now (.set entry) := by
  cases hp : m.poisoned with
  | true => constructor <;> simp [handleAgain, handle, hp]
  | false => constructor <;> simp [handleAgain, handle, hp, set]

/-! ## Signing up for a signing -/

section

variable {request : PartySignupRequestBody} {before stored stored' : Option SigningRoom}
  {answer answer' : SignupAnswer} {k' k'' : Nat}

/-- Once the lock is poisoned the handler does nothing. -/
theorem serve_poisoned (env : Env) (json : Codec SigningRoom) (clock : Clock)
    (request : PartySignupRequestBody) (hp : m.poisoned = true) :
    serve env json m clock request = ({ m with clock := clock.stop }, .error .poisoned) := by
  rw [serve, if_pos hp]

theorem handle_sign (m : ManagerState) (clock : Clock) (request : PartySignupRequestBody) :
    handle env keygenJson roomJson m clock (.signupSign request) =
      ((serve env roomJson m clock request).1, (serve env roomJson m clock request).2.map .sign) :=
  rfl

theorem handleAgain_sign (m : ManagerState) (now : UInt64) (request : PartySignupRequestBody) :
    handleAgain env keygenJson roomJson m now (.signupSign request) =
      ((serve env roomJson (serve env roomJson m now request).1 now request).1,
        (serve env roomJson (serve env roomJson m now request).1 now request).2.map .sign) := rfl

/-- A request that fails fails again. -/
theorem unchanged_failed {p : Panic}
    (h : (serve env roomJson m now request).2 = .error p) :
    Unchanged env keygenJson roomJson m now (.signupSign request) := by
  have hpois : (serve env roomJson m now request).1.poisoned = true := by
    unfold serve at h ⊢
    split
    next hp => exact hp
    next hp =>
      rw [if_neg hp] at h
      split at h
      next => cases h
      next => rfl
  constructor
  · rw [handleAgain_sign, serve_poisoned env roomJson now request hpois, handle_sign]
  · rw [handleAgain_sign, serve_poisoned env roomJson now request hpois, handle_sign, h]
    rfl

/-- The second handling, followed on the room the first one leaves. -/
theorem handleAgain_of_room (keygenJson : Codec PartySignup) (hp : m.poisoned = false)
    (hread : readRoom roomJson m.db (signKey request) = .ok before)
    (hroom : (signupRoom env now request before).run m.issued = .ok ((answer, stored), k'))
    (hagain : (signupRoom env now request (stored.or before)).run k' = .ok ((answer', stored'), k''))
    (hstored : stored' = none ∨ stored' = stored) :
    (handleAgain env keygenJson roomJson m now (.signupSign request)).1.db =
        (handle env keygenJson roomJson m now (.signupSign request)).1.db ∧
      (handleAgain env keygenJson roomJson m now (.signupSign request)).2 =
        .ok (.sign answer') := by
  have hfirst := serve_of_room request hp hread hroom
  have hread' := readRoom_storeRoom hread stored
  rw [handleAgain_sign, handle_sign, hfirst]
  dsimp only
  rw [serve_of_room (m := ⟨storeRoom roomJson m.db (signKey request) stored, k', m.poisoned, now⟩)
    request hp hread' hagain]
  refine ⟨?_, rfl⟩
  rcases hstored with rfl | rfl
  · rfl
  · cases stored' with
    | none => rfl
    | some r => exact Function.update_idem _ _ _

/-- A request that is answered runs the body on the room it reads. -/
theorem serve_answered {clock : Clock} (h : (serve env roomJson m clock request).2 = .ok answer) :
    m.poisoned = false ∧ ∃ before stored k',
      readRoom roomJson m.db (signKey request) = .ok before ∧
      before = roomAt roomJson m.db (signKey request) ∧
      (signupRoom env clock request before).run m.issued = .ok ((answer, stored), k') := by
  unfold serve at h
  split at h
  next => cases h
  next hp =>
    split at h
    next answer' db issued hrun =>
      obtain rfl := Except.ok.inj h
      obtain ⟨before, k₁, h₁, h₂⟩ := Rust.bind_ok hrun
      obtain ⟨hread, rfl⟩ := Rust.lift_ok h₁
      obtain ⟨⟨a, stored⟩, k₂, h₃, h₄⟩ := Rust.bind_ok h₂
      obtain ⟨hpair, rfl⟩ := Rust.pure_ok h₄
      obtain ⟨rfl, -⟩ := Prod.mk.inj hpair
      exact ⟨Bool.eq_false_iff.mpr hp, before, stored, _, hread, readRoom_ok hread, h₃⟩
    next => cases h

/-- An answer that stores nothing is given again, and nothing is stored. -/
theorem unchanged_unstored (hp : m.poisoned = false)
    (hread : readRoom roomJson m.db (signKey request) = .ok before)
    (hroom : (signupRoom env now request before).run m.issued = .ok ((answer, none), k')) :
    Unchanged env keygenJson roomJson m now (.signupSign request) := by
  obtain ⟨k'', hagain⟩ := signupRoom_repeats hroom k'
  obtain ⟨hstore, hreply⟩ := handleAgain_of_room keygenJson hp hread hroom hagain
    (Or.inl rfl)
  refine ⟨hstore, ?_⟩
  rw [hreply, handle_sign, serve_of_room request hp hread hroom]
  rfl

/-- A poll, and a fresh sign-up that is refused, change nothing the second time. -/
theorem unchanged_sign (request : PartySignupRequestBody)
    (h : request.partyUuid ≠ "" ∨
      ∀ s, (handle env keygenJson roomJson m now (.signupSign request)).2 ≠ .ok (.sign (.ok s))) :
    Unchanged env keygenJson roomJson m now (.signupSign request) := by
  cases ha : (serve env roomJson m now request).2 with
  | error p => exact unchanged_failed ha
  | ok answer =>
      obtain ⟨hp, before, stored, k', hread, -, hroom⟩ := serve_answered ha
      cases stored with
      | none => exact unchanged_unstored hp hread hroom
      | some r =>
          by_cases hfresh : request.partyUuid = ""
          · obtain ⟨-, ⟨s, rfl⟩, -⟩ := signupRoom_seated hfresh hroom
            have hrefused := h.resolve_left (not_not.mpr hfresh)
            refine absurd ?_ (hrefused s)
            rw [handle_sign, ha]
            rfl
          · obtain ⟨stored', hstored, hagain⟩ := signupRoom_polls_again hfresh hroom k'
            obtain ⟨hstore, hreply⟩ :=
              handleAgain_of_room keygenJson hp hread hroom hagain hstored
            refine ⟨hstore, ?_⟩
            rw [hreply, handle_sign, ha]
            rfl

/-- A fresh sign-up that was given a seat is turned down the second time. -/
theorem turnedDown_sign (hrooms : RoomsOk env roomJson m) (hfresh : request.partyUuid = "")
    (hnow : env.signupTimeout ≤ now) {s : SigningPartySignup}
    (h : (handle env keygenJson roomJson m now (.signupSign request)).2 = .ok (.sign (.ok s))) :
    TurnedDown env keygenJson roomJson m now request := by
  have hnow' : env.signupTimeout.toNat ≤ now.toNat := hnow
  have ha : (serve env roomJson m now request).2 = .ok (.ok s) := by
    rw [handle_sign] at h
    cases ha : (serve env roomJson m now request).2 with
    | error p =>
        rw [ha] at h
        cases h
    | ok answer =>
        rw [ha] at h
        cases h
        rfl
  obtain ⟨hp, before, stored, k', hread, hbefore, hroom⟩ := serve_answered ha
  cases stored with
  | none =>
      -- only a member without a UUID could be answered so
      have hh := signupRoom_ok hroom
      have known : ∀ {r : SigningRoom} {j : Nat} {order : UInt16}, m.issued ≤ j →
          some (r.seat request.partyNumber ⟨env.uuid j, order, now⟩) ≠ before := by
        rintro r j order hj rfl
        have hok := hrooms request _ hbefore.symm
        have hl : (r.seat request.partyNumber ⟨env.uuid j, order, now⟩).memberInfo.lookup
            request.partyNumber = some ⟨env.uuid j, order, now⟩ := AList.lookup_insert _
        exact (hok.idsIssued _ (mem_values_of_lookup hl)).ne_next hj rfl
      generalize hans : (Except.ok s : SignupAnswer) = answer at hh
      generalize hafter : (none : Option SigningRoom).or before = after at hh
      cases hh with
      | @informed r info _ _ hl hid _ =>
          have hok := hrooms request r hbefore.symm
          have hissued := hok.idsIssued info (mem_values_of_lookup hl)
          exact absurd (hid.trans hfresh) hissued.ne_empty
      | turnedAway => cases hans
      | full => cases hans
      | unknownUuid => cases hans
      | pinged _ hpoll => exact absurd hfresh hpoll
      | stillActive => cases hans
      | replaced hopen => exact absurd hafter.symm (known hopen.le)
      | added hopen => exact absurd hafter.symm (known hopen.le)
  | some r =>
      obtain ⟨hopen, -, info, hl, hping⟩ := signupRoom_seated hfresh hroom
      have hactive : timedOut env now info = false := by
        rw [Bool.eq_false_iff, Ne, timedOut_iff hnow', hping]
        omega
      obtain ⟨e, he, hagain⟩ :=
        signupRoom_turns_down (tellsTimeout_of_le hnow) hfresh hopen hl hactive k'
      obtain ⟨hstore, hreply⟩ :=
        handleAgain_of_room keygenJson hp hread hroom hagain (Or.inl rfl)
      exact ⟨hstore, e, he, hreply⟩

end

/-! ## Signing up for a key generation -/

section

variable {params : Params} {curve : String} {parties : UInt16} {s : PartySignup}

theorem handle_keygen (m : ManagerState) (clock : Clock) (params : Params) (curve : String) :
    handle env keygenJson roomJson m clock (.signupKeygen params curve) =
      (⟨(serveKeygen env keygenJson ⟨m.db, m.issued, m.poisoned⟩ params curve).1.db,
          (serveKeygen env keygenJson ⟨m.db, m.issued, m.poisoned⟩ params curve).1.issued,
          (serveKeygen env keygenJson ⟨m.db, m.issued, m.poisoned⟩ params curve).1.poisoned,
            clock.stop⟩,
        (serveKeygen env keygenJson ⟨m.db, m.issued, m.poisoned⟩ params curve).2.map .keygen) := rfl

/-- The handler when it does not panic. -/
theorem serveKeygen_of_run {c : CounterState} {db : Db} {k' : Nat}
    (hparse : parseU16 params.parties = .ok parties) (hp : c.poisoned = false)
    (h : (signupKeygen env keygenJson params curve c.db).run c.issued = .ok ((s, db), k')) :
    serveKeygen env keygenJson c params curve = ({ c with db, issued := k' }, .ok s) := by
  rw [serveKeygen, hparse]
  dsimp only
  rw [if_neg (Bool.eq_false_iff.mp hp), h]

/-- An answer is the handler's, on an unpoisoned lock. -/
theorem serveKeygen_answered {c : CounterState} {params : Params}
    (h : (serveKeygen env keygenJson c params curve).2 = .ok s) :
    c.poisoned = false ∧ ∃ db k',
      (signupKeygen env keygenJson params curve c.db).run c.issued = .ok ((s, db), k') := by
  unfold serveKeygen at h
  split at h
  next => cases h
  next =>
    split at h
    next => cases h
    next hp =>
      split at h
      next s' db k' hrun =>
        obtain rfl := Except.ok.inj h
        exact ⟨Bool.eq_false_iff.mpr hp, db, k', hrun⟩
      next => cases h

/-- A request that fails leaves the store, and fails again. -/
theorem serveKeygen_failed {c : CounterState} {p : Panic}
    (h : (serveKeygen env keygenJson c params curve).2 = .error p) :
    (serveKeygen env keygenJson c params curve).1.db = c.db ∧ ∃ p',
      serveKeygen env keygenJson (serveKeygen env keygenJson c params curve).1 params curve =
        ((serveKeygen env keygenJson c params curve).1, .error p') := by
  unfold serveKeygen at h ⊢
  cases hparse : parseU16 params.parties with
  | error p => exact ⟨rfl, p, rfl⟩
  | ok n =>
      rw [hparse] at h
      dsimp only at h ⊢
      cases hp : c.poisoned with
      | true =>
          refine ⟨rfl, .poisoned, ?_⟩
          simp [hp]
      | false =>
          rw [hp, if_neg Bool.false_ne_true] at h
          rw [if_neg Bool.false_ne_true]
          split at h
          next => cases h
          next hrun =>
            rw [hrun]
            exact ⟨rfl, .poisoned, rfl⟩

theorem unchanged_keygen (params : Params) (curve : String)
    (h : ∀ s, (handle env keygenJson roomJson m now (.signupKeygen params curve)).2 ≠
      .ok (.keygen s)) :
    Unchanged env keygenJson roomJson m now (.signupKeygen params curve) := by
  cases ha : (serveKeygen env keygenJson ⟨m.db, m.issued, m.poisoned⟩ params curve).2 with
  | ok s =>
      refine absurd ?_ (h s)
      rw [handle_keygen, ha]
      rfl
  | error p =>
      obtain ⟨hdb, p', hagain⟩ := serveKeygen_failed ha
      constructor
      · rw [handleAgain, handle_keygen, handle_keygen, hagain]
      · rw [handleAgain, handle_keygen, handle_keygen, hagain, ha]
        rfl

/-- The number of an answer is at least `1`, and `1` in a group of one. -/
theorem nextSignup_number {c : PartySignup} {k k' : Nat}
    (h : (nextSignup env c parties).run k = .ok (s, k')) :
    1 ≤ s.number.toNat ∧ (parties.toNat ≤ 1 → s.number.toNat = 1) := by
  rw [nextSignup_run] at h
  split at h
  next hlt =>
    obtain ⟨rfl, -⟩ := Prod.mk.inj (Except.ok.inj h)
    have hlt' : c.number.toNat < parties.toNat := hlt
    rw [toNat_add_one_of_lt hlt]
    omega
  next =>
    obtain ⟨rfl, -⟩ := Prod.mk.inj (Except.ok.inj h)
    exact ⟨Nat.le_refl 1, fun _ => rfl⟩

/-- A request that was answered takes the number after its own. -/
theorem takesNext_keygen (hparse : parseU16 params.parties = .ok parties)
    (h : (handle env keygenJson roomJson m now (.signupKeygen params curve)).2 =
      .ok (.keygen s)) :
    ∃ s', TakesNext env keygenJson roomJson m now params curve parties s s' := by
  have ha : (serveKeygen env keygenJson ⟨m.db, m.issued, m.poisoned⟩ params curve).2 = .ok s := by
    rw [handle_keygen] at h
    cases ha : (serveKeygen env keygenJson ⟨m.db, m.issued, m.poisoned⟩ params curve).2 with
    | error p =>
        rw [ha] at h
        cases h
    | ok s' =>
        rw [ha] at h
        cases h
        rfl
  obtain ⟨hp, db, k', hrun⟩ := serveKeygen_answered ha
  obtain ⟨parties', c, k₁, hparse', -, hnext, rfl⟩ := signupKeygen_ok hrun
  obtain rfl := Except.ok.inj (hparse.symm.trans hparse')
  obtain ⟨hpos, hone⟩ := nextSignup_number hnext
  have hfirst := serveKeygen_of_run hparse hp hrun
  have hdb : set m.db ⟨keygenKey curve, keygenJson.encode s⟩ (keygenKey curve) =
      some (keygenJson.encode s) := Function.update_self ..
  have hstored := signupKeygen_stored env hparse hdb k'
  have hcmp : s.number < parties ↔ s.number.toNat < parties.toNat := UInt16.lt_iff_toNat_lt
  by_cases hlt : s.number < parties
  · rw [if_pos hlt] at hstored
    have hsecond := serveKeygen_of_run
      (c := ⟨set m.db ⟨keygenKey curve, keygenJson.encode s⟩, k', m.poisoned⟩) hparse hp hstored
    refine ⟨_, ?_, ?_, fun _ => rfl, fun hle => absurd hlt (UInt16.not_lt.mpr hle), ?_⟩
    · rw [handleAgain, handle_keygen, handle_keygen, hfirst]
      exact congrArg (fun r => r.2.map Reply.keygen) hsecond
    · rw [handleAgain, handle_keygen, handle_keygen, hfirst]
      exact congrArg (fun r => r.1.db) hsecond
    · rw [← UInt16.toNat_inj, toNat_add_one_of_lt hlt, UInt16.le_iff_toNat_le]
      have := hcmp.mp hlt
      show _ ↔ _ ≤ 1
      omega
  · rw [if_neg hlt] at hstored
    have hsecond := serveKeygen_of_run
      (c := ⟨set m.db ⟨keygenKey curve, keygenJson.encode s⟩, k', m.poisoned⟩) hparse hp hstored
    refine ⟨⟨1, env.uuid k'⟩, ?_, ?_, fun h => absurd h hlt, fun _ => ?_, ?_⟩
    · rw [handleAgain, handle_keygen, handle_keygen, hfirst]
      exact congrArg (fun r => r.2.map Reply.keygen) hsecond
    · rw [handleAgain, handle_keygen, handle_keygen, hfirst]
      exact congrArg (fun r => r.1.db) hsecond
    · rw [handle_keygen, hfirst]
    · rw [← UInt16.toNat_inj, UInt16.le_iff_toNat_le]
      have := mt hcmp.mpr hlt
      show 1 = _ ↔ _ ≤ 1
      omega

end

end

/-- A request handled twice in a row.  Getting, setting, polling, and all that is
refused or fails, change nothing the second time.  A fresh sign-up that was
given a seat is turned down, and a sign-up for a key generation takes the next
number, which is the same one only in a group of at most one party. -/
theorem retry_law {env : Env} {keygenJson : Codec PartySignup} {roomJson : Codec SigningRoom}
    {m : ManagerState} {tr : List ManagerEvent} (h : ManagerRun env keygenJson roomJson m tr)
    (now : UInt64) :
    (∀ key, Unchanged env keygenJson roomJson m now (.get key)) ∧
    (∀ entry, Unchanged env keygenJson roomJson m now (.set entry)) ∧
    (∀ request, (request.partyUuid ≠ "" ∨
        ∀ s, (handle env keygenJson roomJson m now (.signupSign request)).2 ≠ .ok (.sign (.ok s))) →
      Unchanged env keygenJson roomJson m now (.signupSign request)) ∧
    (∀ request s, request.partyUuid = "" → env.signupTimeout ≤ now →
      (handle env keygenJson roomJson m now (.signupSign request)).2 = .ok (.sign (.ok s)) →
      TurnedDown env keygenJson roomJson m now request) ∧
    (∀ params curve, (∀ s, (handle env keygenJson roomJson m now (.signupKeygen params curve)).2 ≠
        .ok (.keygen s)) →
      Unchanged env keygenJson roomJson m now (.signupKeygen params curve)) ∧
    (∀ params curve parties s, parseU16 params.parties = .ok parties →
      (handle env keygenJson roomJson m now (.signupKeygen params curve)).2 = .ok (.keygen s) →
      ∃ s', TakesNext env keygenJson roomJson m now params curve parties s s') :=
  ⟨unchanged_get, unchanged_set, unchanged_sign,
    fun _ _ hfresh hnow hs => turnedDown_sign h.roomsOk hfresh hnow hs, unchanged_keygen,
    fun _ _ _ _ => takesNext_keygen⟩

/-- The first sign-up of a room, sent twice. -/
theorem retry_law_first : TurnedDown defaultEnv tallyCodec (Codec.ofCountable SigningRoom)
    ManagerState.init 10 (requestOf 1 "") := by
  have hrun : ManagerRun defaultEnv tallyCodec (Codec.ofCountable SigningRoom) .init [] :=
    .start rfl
  have hread : readRoom (Codec.ofCountable SigningRoom) ManagerState.init.db
      (signKey (requestOf 1 "")) = .ok none := rfl
  obtain ⟨-, -, -, hfresh, -⟩ := retry_law hrun 10
  refine hfresh (requestOf 1 "") ⟨1, "uu", "", 0⟩ rfl (by decide) ?_
  rw [handle_sign, serve_of_room (requestOf 1 "") rfl hread rfl]
  rfl

/-- A sign-up for a key generation of two, sent twice, takes both numbers. -/
theorem retry_takes_two : ¬ ∀ (env : Env) (keygenJson : Codec PartySignup)
    (roomJson : Codec SigningRoom) (m : ManagerState) (tr : List ManagerEvent) (now : UInt64)
    (request : ManagerRequest), ManagerRun env keygenJson roomJson m tr → m.clock ≤ now →
    request.Sent →
    (handleAgain env keygenJson roomJson m now request).2.toOption.map Reply.seat =
      (handle env keygenJson roomJson m now request).2.toOption.map Reply.seat := by
  intro hlaw
  have hsame := hlaw defaultEnv tallyCodec (Codec.ofCountable SigningRoom) .init [] 0
    (.signupKeygen ⟨"2", "1"⟩ "ECDSA") (.start rfl) (UInt64.le_refl 0) trivial
  have hfirst : (handle defaultEnv tallyCodec (Codec.ofCountable SigningRoom) .init (0 : UInt64)
      (.signupKeygen ⟨"2", "1"⟩ "ECDSA")).2 = .ok (.keygen ⟨1, "u"⟩) := by decide
  have hsecond : (handleAgain defaultEnv tallyCodec (Codec.ofCountable SigningRoom) .init 0
      (.signupKeygen ⟨"2", "1"⟩ "ECDSA")).2 = .ok (.keygen ⟨2, "u"⟩) := by decide
  rw [hfirst, hsecond] at hsame
  exact absurd hsame (by decide)

end TssCli
