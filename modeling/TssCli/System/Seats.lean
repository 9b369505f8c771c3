import TssCli.Counter.Numbers
import TssCli.Manager.Handlers
import TssCli.Room.Agreement
import TssCli.Room.OneMessage
import TssCli.Room.Recovery
import TssCli.Room.Seats
import TssCli.System.Session

/-!
# Seats in the world

Every client with a seat got it from an answer of the manager.  A client that signed up
for a signing holds a seat of a room, and two clients never hold the same one, since the
party UUID of each was drawn for it (`SystemRun.apart`).  A client that signed up for a
key generation holds a number of a group, which is answered once.

So the clients with seats of one UUID are parties of one session, each another one
(`WorldRun.signSeats`, `WorldRun.keygenSeats`).
-/

namespace TssCli

open AssocValues Mailbox Transition Supply

/-! ## Fresh sign-ups -/

/-- The party UUID that a fresh sign-up is answered with. -/
def SignEvent.joined : SignEvent → Option String
  | .request c =>
    if c.request.partyUuid = "" then
      match c.answer with
      | .ok (.ok s) => some s.partyUuid
      | _ => none
    else none
  | .expired _ => none

section

variable {env : Env} {json : Codec SigningRoom} {m m' : ManagerState} {tr : List SignEvent}
  {e : SignEvent} {c : SignRecord} {clock : Clock} {request : PartySignupRequestBody}
  {before after : Option SigningRoom} {k k' : Nat} {s : SigningPartySignup} {id : String}

theorem SignEvent.joined_eq_some : e.joined = some id ↔
    ∃ c s, e = .request c ∧ c.request.partyUuid = "" ∧ c.Answers s ∧ s.partyUuid = id := by
  constructor
  · intro h
    cases e with
    | expired key => cases h
    | request c =>
        unfold SignEvent.joined at h
        dsimp only at h
        split at h
        next hfresh =>
          split at h
          next s ha => exact ⟨c, s, rfl, hfresh, ha, Option.some.inj h⟩
          next => cases h
        next => cases h
  · rintro ⟨c, s, rfl, hfresh, ha, rfl⟩
    have ha : c.answer = .ok (.ok s) := ha
    unfold SignEvent.joined
    dsimp only
    rw [if_pos hfresh, ha]

/-- A fresh sign-up that is answered draws its party UUID. -/
theorem Handles.joined (h : Handles env clock request before k after k' (.ok s))
    (hfresh : request.partyUuid = "") (hok : ∀ r, before = some r → RoomOk env k r) :
    ∃ j, k ≤ j ∧ j < k' ∧ s.partyUuid = env.uuid j := by
  generalize ha : (Except.ok s : SignupAnswer) = answer at h
  cases h with
  | turnedAway => cases ha
  | full => cases ha
  | unknownUuid => cases ha
  | stillActive => cases ha
  | pinged _ hpoll => exact absurd hfresh hpoll
  | @informed r info _ _ hl hid _ =>
      have hissued := (hok r rfl).idsIssued info (mem_values_of_lookup hl)
      exact absurd (hid.trans hfresh) hissued.ne_empty
  | replaced hopen =>
      cases ha
      exact ⟨_, hopen.le, Nat.lt_succ_self _, rfl⟩
  | added hopen =>
      cases ha
      exact ⟨_, hopen.le, Nat.lt_succ_self _, rfl⟩

/-- No party UUID is given to two fresh sign-ups. -/
theorem SignRun.joined_nodup (h : SignRun env json m tr) :
    (tr.filterMap SignEvent.joined).Nodup := by
  suffices hinv : (tr.filterMap SignEvent.joined).Nodup ∧
      ∀ id ∈ tr.filterMap SignEvent.joined, Issued env m.issued id from hinv.1
  refine Run.invariant (fun m tr => (tr.filterMap SignEvent.joined).Nodup ∧
    ∀ id ∈ tr.filterMap SignEvent.joined, Issued env m.issued id) ?_ ?_ h
  · rintro m rfl
    exact ⟨.nil, by simp⟩
  · intro m e m' tr hrun ⟨hnodup, hissued⟩ hs
    cases he : e.joined with
    | none =>
        rw [List.filterMap_cons_none he]
        refine ⟨hnodup, fun id hid => (hissued id hid).mono ?_⟩
        rcases hs.cases with ⟨_, -, hm, -⟩ | ⟨_, _, -, -, -, -, hm⟩ | ⟨_, _, -, -, -, -, hh, -⟩
        · exact hm.ge
        · exact hm.ge
        · exact hh.le
    | some id =>
        rw [List.filterMap_cons_some he]
        obtain ⟨c, s, rfl, hfresh, ha, rfl⟩ := SignEvent.joined_eq_some.mp he
        have ha : c.answer = .ok (.ok s) := ha
        rcases hs.cases with ⟨_, he, -⟩ | ⟨c', p, he, hp, -⟩ | ⟨c', answer, he, ha', hb, -, hh, -⟩
        · cases he
        · cases he
          rw [ha] at hp
          cases hp
        · cases he
          rw [ha] at ha'
          cases ha'
          obtain ⟨j, hle, hlt, hj⟩ := hh.joined hfresh fun r hr =>
            (runInv_run hrun).roomOk _ r (hb ▸ hr)
          refine ⟨List.nodup_cons.mpr ⟨fun hmem => ?_, hnodup⟩, fun id hid => ?_⟩
          · exact (hissued _ hmem).ne_next hle hj
          · rcases List.mem_cons.mp hid with rfl | hid
            · exact ⟨j, hlt, hj⟩
            · exact (hissued id hid).mono (hle.trans hlt.le)

end

/-! ## What a call of `signup` has heard -/

/-- A fresh sign-up of the history was answered with the party UUID. -/
def JoinedAs (history : List (Bool × SignRecord)) (id : String) : Prop :=
  ∃ late c s, (late, c) ∈ history ∧ c.request.partyUuid = "" ∧ c.Answers s ∧ s.partyUuid = id

/-- The request is one of a call with these arguments. -/
structure SignupArgs.Asks (args : SignupArgs) (request : PartySignupRequestBody) : Prop where
  threshold : parseU16 args.params.threshold = .ok request.threshold
  roomId : request.roomId = args.roomId
  partyNumber : request.partyNumber = args.partyId
  curveName : request.curveName = args.curveName

/-- Where a call of `signup` stands after its history. -/
def SignupCall.Follows (args : SignupArgs) (history : List (Bool × SignRecord)) :
    SignupCall → Prop
  | .first request => request.partyUuid = "" ∧ args.Asks request
  | .polling loop => JoinedAs history loop.partyUuid ∧ args.Asks loop.request
  | .returned p n => ∃ late c s, (late, c) ∈ history ∧ c.Answers s ∧
      p = ⟨s.partyOrder, s.roomUuid⟩ ∧ n = s.totalJoined ∧ s.roomUuid ≠ "" ∧
      JoinedAs history c.request.partyUuid ∧ args.Asks c.request
  | .panicked => True

section

variable {args : SignupArgs} {history : List (Bool × SignRecord)} {call : SignupCall}
  {loop : Polling} {late : Bool} {c : SignRecord} {s : SigningPartySignup} {id : String}

theorem JoinedAs.cons (h : JoinedAs history id) (x : Bool × SignRecord) :
    JoinedAs (x :: history) id := by
  obtain ⟨late, c, s, hmem, hrest⟩ := h
  exact ⟨late, c, s, List.mem_cons_of_mem _ hmem, hrest⟩

theorem signup_follows (args : SignupArgs) : (signup args).Follows args [] := by
  unfold signup
  split
  next threshold hparse => exact ⟨rfl, hparse, rfl, rfl, rfl⟩
  next => trivial

/-- The loop goes on, or it returns the last answer. -/
theorem Polling.next_follows (hjoined : JoinedAs history loop.partyUuid)
    (hasks : args.Asks loop.request)
    (hreturned : loop.partySignup.uuid ≠ "" →
      (SignupCall.returned loop.partySignup loop.lastTotalJoined).Follows args history) :
    (loop.next late).Follows args history := by
  unfold Polling.next
  split
  next =>
    split
    next => trivial
    next => exact ⟨hjoined, hasks⟩
  next hne =>
    refine hreturned fun he => hne ?_
    rw [he]
    rfl

/-- The request of a call and its answer.  An answer with a room UUID is one to a poll. -/
theorem SignupCall.Follows.receive (h : call.Follows args history)
    (hr : call.request = some c.request)
    (hpoll : ∀ s, c.Answers s → s.roomUuid ≠ "" → c.request.partyUuid = s.partyUuid) :
    (call.receive late c.answer).Follows args ((late, c) :: history) := by
  unfold SignupCall.receive
  split
  next request s ha =>
    cases hr
    obtain ⟨hfresh, hasks⟩ := h
    have ha : c.Answers s := ha
    have hjoined : JoinedAs ((late, c) :: history) s.partyUuid :=
      ⟨late, c, s, List.mem_cons_self .., hfresh, ha, rfl⟩
    refine Polling.next_follows hjoined hasks fun hne => ?_
    refine ⟨late, c, s, List.mem_cons_self .., ha, rfl, rfl, hne, ?_, hasks⟩
    rwa [hpoll s ha hne]
  next loop s ha =>
    have hrequest : c.request = { loop.request with partyUuid := loop.partyUuid } :=
      (Option.some.inj hr).symm
    obtain ⟨hjoined, hasks⟩ := h
    have ha : c.Answers s := ha
    obtain ⟨htotal, hsignup⟩ := loop.update_eq s
    have hasks' : args.Asks (loop.update s).request := ⟨hasks.1, hasks.2, hasks.3, hasks.4⟩
    refine Polling.next_follows (hjoined.cons _) hasks' fun hne => ?_
    rw [hsignup] at hne
    refine ⟨late, c, s, List.mem_cons_self .., ha, hsignup, htotal, hne, ?_, ?_⟩
    · rw [hrequest]
      exact hjoined.cons _
    · rw [hrequest]
      exact ⟨hasks.1, hasks.2, hasks.3, hasks.4⟩
  next => trivial

/-- Where a replayed call stands. -/
theorem replay_follows : ∀ {history : List (Bool × SignRecord)} {call : SignupCall},
    (∀ x ∈ history, ∀ s, x.2.Answers s → s.roomUuid ≠ "" → x.2.request.partyUuid = s.partyUuid) →
    (signup args).replay history = some call → call.Follows args history
  | [], _, _, h => Option.some.inj h ▸ signup_follows args
  | (late, c) :: rest, call, hpoll, h => by
      obtain ⟨before, hbefore, h⟩ := Option.bind_eq_some_iff.mp h
      split at h
      next hr =>
        obtain rfl := Option.some.inj h
        exact (replay_follows (fun x hx => hpoll x (List.mem_cons_of_mem _ hx)) hbefore).receive hr
          (hpoll (late, c) (List.mem_cons_self ..))
      next => cases h

end

/-! ## Seats of a room -/

section

variable {env : Env} {json : Codec SigningRoom} {args : Nat → SignupArgs} {m : ManagerState}
  {calls : Nat → SignupCall} {tr : List SystemEvent} {i j : Nat} {p p' : PartySignup}
  {n n' : UInt16} {late : Bool} {c : SignRecord}

/-- The order and the party number of a seat determine its party UUID. -/
theorem RunInv.sameSeat {tr : List SignEvent} (h : RunInv env json m tr) {c c' : SignRecord}
    {s s' : SigningPartySignup} (hc : .request c ∈ tr) (hc' : .request c' ∈ tr)
    (ha : c.Answers s) (ha' : c'.Answers s') (hne : s.roomUuid ≠ "")
    (hu : s.roomUuid = s'.roomUuid) :
    (s.partyOrder = s'.partyOrder → s.partyUuid = s'.partyUuid) ∧
      (c.request.partyNumber = c'.request.partyNumber → s.partyUuid = s'.partyUuid) := by
  obtain ⟨r, info, info', hok, hread, hread'⟩ := h.sameRoom hc hc' ha ha' hne hu
  have same : c.request.partyNumber = c'.request.partyNumber → s.partyUuid = s'.partyUuid := by
    intro hn
    have hl := hread.seat
    rw [hn, hread'.seat] at hl
    rw [← hread.id, ← hread'.id, Option.some.inj hl]
  refine ⟨fun he => same ?_, same⟩
  rw [← hread.order, ← hread'.order] at he
  exact key_eq_of_field (f := SigningPartyInfo.partyOrder) hok.orders_nodup hread.seat hread'.seat he

theorem SystemEvent.mem_heardBy
    (h : (late, c) ∈ tr.filterMap (SystemEvent.heardBy i)) : .client i late c ∈ tr := by
  obtain ⟨e, he, hheard⟩ := List.mem_filterMap.mp h
  cases e with
  | other e => cases hheard
  | client j late' c' =>
      rw [SystemEvent.heardBy] at hheard
      split at hheard
      next hj =>
        obtain ⟨rfl, rfl⟩ := Prod.mk.inj (Option.some.inj hheard)
        exact hj ▸ he
      next => cases hheard

/-- A call that has returned, its last answer, and the party UUID drawn for it. -/
theorem SystemRun.seat (h : SystemRun env json args m calls tr) (hi : calls i = .returned p n) :
    ∃ late c s, .client i late c ∈ tr ∧ c.Answers s ∧ p = ⟨s.partyOrder, s.roomUuid⟩ ∧
      n = s.totalJoined ∧ s.roomUuid ≠ "" ∧ (args i).Asks c.request ∧
      ∃ late c₀, .client i late c₀ ∈ tr ∧ (SignEvent.request c₀).joined = some s.partyUuid := by
  have hclients := h.clients i
  rw [hi] at hclients
  have hpoll : ∀ {late c}, SystemEvent.client i late c ∈ tr → ∀ s, c.Answers s →
      s.roomUuid ≠ "" → c.request.partyUuid = s.partyUuid := by
    intro late c hc s ha hne
    obtain ⟨_, _, _, _, _, hread⟩ :=
      (runInv_run h.manager).answered c s (List.mem_map_of_mem hc) ha hne
    exact hread.poll.symm
  obtain ⟨late, c, s, hmem, ha, hp, hn, hne, hjoined, hasks⟩ :=
    replay_follows (fun x hx => hpoll (SystemEvent.mem_heardBy hx)) hclients
  have hc := SystemEvent.mem_heardBy hmem
  obtain ⟨late₀, c₀, s₀, hmem₀, hfresh, ha₀, hid⟩ := hjoined
  refine ⟨late, c, s, hc, ha, hp, hn, hne, hasks, late₀, c₀, SystemEvent.mem_heardBy hmem₀, ?_⟩
  exact SignEvent.joined_eq_some.mpr
    ⟨c₀, s₀, rfl, hfresh, ha₀, hid.trans (hpoll hc s ha hne)⟩

/-- Two calls never hold the same seat of a room, nor seats of the same party number. -/
theorem SystemRun.apart (h : SystemRun env json args m calls tr) (hi : calls i = .returned p n)
    (hj : calls j = .returned p' n') (hu : p.uuid = p'.uuid) :
    (p.number = p'.number → i = j) ∧ ((args i).partyId = (args j).partyId → i = j) := by
  obtain ⟨late, c, s, hc, ha, rfl, -, hne, hasks, late₀, c₀, hc₀, hjoined⟩ := h.seat hi
  obtain ⟨late', c', s', hc', ha', rfl, -, -, hasks', late₀', c₀', hc₀', hjoined'⟩ := h.seat hj
  obtain ⟨horder, hnumber⟩ := (runInv_run h.manager).sameSeat (List.mem_map_of_mem hc)
    (List.mem_map_of_mem hc') ha ha' hne hu
  have hsame : s.partyUuid = s'.partyUuid → i = j := by
    intro hid
    have hnodup : (tr.filterMap fun e => e.event.joined).Nodup := by
      have := h.manager.joined_nodup
      rwa [List.filterMap_map] at this
    have := eq_of_nodup hnodup hc₀ hc₀' hjoined (hid ▸ hjoined')
    cases this
    rfl
  refine ⟨fun hk => hsame (horder hk), fun hid => hsame (hnumber ?_)⟩
  rw [hasks.partyNumber, hasks'.partyNumber, hid]

/-- Calls that hold seats of one room have signed up for it on one curve, under one digest. -/
theorem SystemRun.sameKey (h : SystemRun env json args m calls tr) (hi : calls i = .returned p n)
    (hj : calls j = .returned p' n') (hu : p.uuid = p'.uuid) :
    (args i).curveName ++ (args i).roomId = (args j).curveName ++ (args j).roomId := by
  obtain ⟨late, c, s, hc, ha, rfl, -, hne, hasks, -⟩ := h.seat hi
  obtain ⟨late', c', s', hc', ha', rfl, -, -, hasks', -⟩ := h.seat hj
  have hc := List.mem_map_of_mem (f := SystemEvent.event) hc
  have hc' := List.mem_map_of_mem (f := SystemEvent.event) hc'
  obtain ⟨r, info, info', -, hread, hread'⟩ := (runInv_run h.manager).sameRoom hc hc' ha ha' hne hu
  have hone := (keyInv_run h.manager).oneKey c c' _ _ r r hc hc' ha ha' hread.after hread'.after rfl
  rw [signKey, signKey, String.append_assoc, String.append_assoc, String.append_right_inj] at hone
  rw [← hasks.curveName, ← hasks.roomId, ← hasks'.curveName, ← hasks'.roomId, hone]

end

/-! ## The calls of the clients -/

section

variable {α : Type}

/-- The client stands where the call of `signup` does, or further on. -/
def Process.Signs (call : SignupCall) : Process α → Prop
  | .keygen _ _ _ => False
  | .signup call' => call' = call
  | .session seat total _ => call = .returned seat total
  | .panicked => True

/-- The event as the rooms and their clients see it. -/
def WorldEvent.system (env : Env) (roomJson : Codec SigningRoom) (e : WorldEvent) :
    Option SystemEvent :=
  match e, e.record.bind (ManagerRecord.sign env roomJson) with
  | .answered i late _, some (.request c) => some (.client i late c)
  | _, some event => some (.other event)
  | _, none => none

/-- What the call of a client has heard. -/
def heard (env : Env) (roomJson : Codec SigningRoom) (tr : List WorldEvent) (i : Nat) :
    List (Bool × SignRecord) :=
  (tr.filterMap (WorldEvent.system env roomJson)).filterMap (SystemEvent.heardBy i)

variable {env : Env} {keygenJson : Codec PartySignup} {roomJson : Codec SigningRoom}
  {commands : Nat → Command α} {w w' : World α} {tr : List WorldEvent} {e : WorldEvent} {i : Nat}
  {p : Process α} {call : SignupCall} {body : PartySignup → UInt16 → Client α} {late : Bool}
  {m : ManagerState} {clock : Clock} {request : ManagerRequest}

theorem Process.Signs.stop (h : p.Signs call) (e : Panic) : (p.stop e).Signs call := by
  cases p with
  | session => exact h
  | _ => trivial

theorem Process.afterSignup_signs (body : PartySignup → UInt16 → Client α) (call : SignupCall) :
    (Process.afterSignup body call).Signs call := by
  cases call <;> rfl

/-- Only a call of `signup` asks for a seat of a room. -/
theorem Process.request_sign {r : PartySignupRequestBody}
    (h : p.request = some (.signupSign r)) : ∃ call, p = .signup call ∧ call.request = some r := by
  cases p with
  | keygen => cases h
  | panicked => cases h
  | session seat total s => cases s <;> cases h
  | signup call =>
      obtain ⟨r', hr, he⟩ := Option.map_eq_some_iff.mp h
      cases he
      exact ⟨call, rfl, hr⟩

/-- Only a script sets an entry. -/
theorem Process.request_set {entry : Entry} (h : p.request = some (.set entry)) :
    ∃ seat total next, p = .session seat total (.post entry.key entry.value next) := by
  cases p with
  | keygen => cases h
  | panicked => cases h
  | signup call =>
      obtain ⟨r, -, he⟩ := Option.map_eq_some_iff.mp h
      cases he
  | session seat total s =>
      cases s with
      | post key value next =>
          cases h
          exact ⟨seat, total, next, rfl⟩
      | await => cases h
      | ret => cases h
      | fail => cases h

theorem signAnswer_handle (m : ManagerState) (clock : Clock) (r : PartySignupRequestBody) :
    signAnswer (handle env keygenJson roomJson m clock (.signupSign r)).2 =
      (recordOf env roomJson m clock r).answer := by
  rw [handle_sign, recordOf]
  cases (serve env roomJson m clock r).2 <;> rfl

/-- A call of `signup` asks for nothing else. -/
theorem Process.request_signup (h : (Process.signup call : Process α).request = some request) :
    ∃ r, request = .signupSign r ∧ call.request = some r := by
  obtain ⟨r, hr, rfl⟩ := Option.map_eq_some_iff.mp h
  exact ⟨r, rfl, hr⟩

theorem WorldEvent.system_event (e : WorldEvent) :
    (e.system env roomJson).map SystemEvent.event =
      e.record.bind (ManagerRecord.sign env roomJson) := by
  unfold WorldEvent.system
  split
  next h => rw [h]; rfl
  next h => rw [h]; rfl
  next h => rw [h]; rfl

theorem system_trace (tr : List WorldEvent) :
    (tr.filterMap (WorldEvent.system env roomJson)).map SystemEvent.event =
      (tr.filterMap WorldEvent.record).filterMap (ManagerRecord.sign env roomJson) := by
  rw [List.map_filterMap, List.filterMap_filterMap]
  exact congrArg (fun f => tr.filterMap f) (funext WorldEvent.system_event)

/-- The call hears of an event only if it is the answer to a request of its own. -/
theorem heard_cons (tr : List WorldEvent) (e : WorldEvent) (i : Nat) :
    heard env roomJson (e :: tr) i = heard env roomJson tr i ∨
      ∃ late record c, e = .answered i late record ∧
        record.sign env roomJson = some (.request c) ∧
        heard env roomJson (e :: tr) i = (late, c) :: heard env roomJson tr i := by
  unfold heard
  cases he : e.system env roomJson with
  | none =>
      rw [List.filterMap_cons_none he]
      exact Or.inl rfl
  | some event =>
      rw [List.filterMap_cons_some he]
      cases hheard : event.heardBy i with
      | none =>
          rw [List.filterMap_cons_none hheard]
          exact Or.inl rfl
      | some x =>
          rw [List.filterMap_cons_some hheard]
          right
          unfold WorldEvent.system at he
          split at he
          next j late record c hc =>
            cases he
            unfold SystemEvent.heardBy at hheard
            dsimp only at hheard
            split at hheard
            next hj =>
              subst hj
              cases hheard
              exact ⟨late, record, c, rfl, hc, rfl⟩
            next => cases hheard
          next =>
            cases he
            cases hheard
          next => cases he

/-- A client whose request is no sign-up for a signing hears nothing as a call of
`signup`. -/
theorem heard_silent (record : ManagerRecord) (hr : record.sign env roomJson = none)
    (he : ∀ late' record', e = .answered i late' record' → record' = record) :
    heard env roomJson (e :: tr) i = heard env roomJson tr i := by
  rcases @heard_cons env roomJson tr e i with h | ⟨late', record', c, rfl, hc, -⟩
  · exact h
  · rw [he late' record' rfl, hr] at hc
    cases hc

/-- The call of a client that signs up for a signing, replayed. -/
theorem WorldRun.signs (hrun : WorldRun env keygenJson roomJson commands w tr) {args : SignupArgs}
    (hask : (commands i).ask = .ok (.sign args)) :
    ∃ call, (signup args).replay (heard env roomJson tr i) = some call ∧
      (w.process i).Signs call := by
  refine Run.invariant (fun w tr => ∃ call, (signup args).replay (heard env roomJson tr i) =
    some call ∧ (w.process i).Signs call) ?_ ?_ hrun
  · rintro w rfl
    refine ⟨signup args, rfl, ?_⟩
    show (Process.start (commands i)).Signs _
    rw [Process.start, hask]
    rfl
  · rintro w e w' tr - ⟨call, hreplay, hsigns⟩ hs
    rcases hs.process_cases i with ⟨hp, hno⟩ | ⟨late, clock, request, rfl, hr, hp⟩
    · have hheard : heard env roomJson (e :: tr) i = heard env roomJson tr i :=
        (heard_cons tr e i).resolve_right fun ⟨late, record, _, he, _⟩ => hno late record he
      refine ⟨call, hheard ▸ hreplay, ?_⟩
      rcases hp with hp | ⟨p, hp⟩
      · rwa [hp]
      · rw [hp]
        exact hsigns.stop p
    · cases hproc : w.process i with
      | keygen =>
          rw [hproc] at hsigns
          exact hsigns.elim
      | panicked =>
          rw [hproc] at hr
          cases hr
      | session seat total s =>
          rw [hproc] at hr hsigns hp
          have hsilent : heard env roomJson (.answered i late ⟨w.manager, .request clock request⟩ ::
              tr) i = heard env roomJson tr i := by
            refine heard_silent ⟨w.manager, .request clock request⟩ ?_ fun _ _ he => by
              cases he
              rfl
            cases s with
            | post => cases hr; rfl
            | await => cases hr; rfl
            | ret => cases hr
            | fail => cases hr
          refine ⟨call, hsilent ▸ hreplay, ?_⟩
          rw [hp]
          exact hsigns
      | signup call' =>
          rw [hproc] at hr hsigns hp
          obtain rfl : call' = call := hsigns
          obtain ⟨r, rfl, hcall⟩ := Process.request_signup hr
          have hheard : heard env roomJson (.answered i late ⟨w.manager, .request clock
              (.signupSign r)⟩ :: tr) i =
              (late, recordOf env roomJson w.manager clock r) :: heard env roomJson tr i := by
            have hself : SystemEvent.heardBy i
                (.client i late (recordOf env roomJson w.manager clock r)) =
                some (late, recordOf env roomJson w.manager clock r) := if_pos rfl
            exact List.filterMap_cons_some hself
          refine ⟨call'.receive late (recordOf env roomJson w.manager clock r).answer, ?_, ?_⟩
          · rw [hheard, SignupCall.replay, hreplay, Option.bind_some]
            exact if_pos hcall
          · have hanswer : signAnswer (handle env keygenJson roomJson w.manager clock
                (.signupSign r)).2 = (recordOf env roomJson w.manager clock r).answer :=
              signAnswer_handle _ _ _
            rw [hp, ← hanswer]
            exact Process.afterSignup_signs _ _

/-- Other clients have no call of `signup`. -/
theorem WorldRun.signs_not (hrun : WorldRun env keygenJson roomJson commands w tr)
    (hask : ∀ args, (commands i).ask ≠ .ok (.sign args)) :
    heard env roomJson tr i = [] ∧ ∀ call, w.process i ≠ .signup call := by
  refine Run.invariant (fun w tr => heard env roomJson tr i = [] ∧
    ∀ call, w.process i ≠ .signup call) ?_ ?_ hrun
  · rintro w rfl
    refine ⟨rfl, fun call he => ?_⟩
    have he : Process.start (commands i) = .signup call := he
    unfold Process.start at he
    split at he
    next => cases he
    next args hask' => exact hask args hask'
    next => cases he
  · rintro w e w' tr - ⟨hheard, hnot⟩ hs
    rcases hs.process_cases i with ⟨hp, hno⟩ | ⟨late, clock, request, rfl, hr, hp⟩
    · refine ⟨((heard_cons tr e i).resolve_right fun ⟨late, record, _, he, _⟩ =>
        hno late record he).trans hheard, fun call => ?_⟩
      rcases hp with hp | ⟨p, hp⟩
      · rw [hp]
        exact hnot call
      · rw [hp]
        generalize w.process i = q
        cases q <;> exact fun he => by cases he
    · have hsilent :
          (ManagerRecord.sign env roomJson ⟨w.manager, .request clock request⟩) = none := by
        cases request with
        | signupSign r =>
            obtain ⟨call, hcall, -⟩ := Process.request_sign hr
            exact absurd hcall (hnot call)
        | _ => rfl
      refine ⟨(heard_silent _ hsilent fun _ _ he => by cases he; rfl).trans hheard, fun call => ?_⟩
      rw [hp]
      generalize hq : w.process i = q
      cases q with
      | signup call' => exact absurd hq (hnot call')
      | keygen =>
          unfold Process.receive
          dsimp only
          split <;> exact fun he => by cases he
      | _ => exact fun he => by cases he

/-! ## The records of the manager in the world -/

/-- The clients keep off the records of the manager, if other programs do. -/
theorem WorldRun.keepsRecords (hrun : WorldRun env keygenJson roomJson commands w tr)
    (hcommands : ∀ i, (commands i).PostsOwn)
    (hothers : ∀ record, .other record ∈ tr → record.KeepsRecords) :
    ∀ c ∈ tr.filterMap WorldEvent.record, c.KeepsRecords := by
  refine Run.invariant (fun w tr => (∀ record, .other record ∈ tr → record.KeepsRecords) →
    ∀ c ∈ tr.filterMap WorldEvent.record, c.KeepsRecords) ?_ ?_ hrun hothers
  · rintro w rfl - c hc
    cases hc
  · intro w e w' tr hbefore ih hs hothers c hc
    have ih := ih fun record hr => hothers record (List.mem_cons_of_mem _ hr)
    have own : ∀ {i clock request}, (w.process i).request = some request →
        ManagerRecord.KeepsRecords ⟨w.manager, .request clock request⟩ := by
      rintro i clock request hr clock' entry he
      cases he
      obtain ⟨seat, total, next, hp⟩ := Process.request_set hr
      obtain ⟨l, -, -, hkey⟩ := (WorldRun.postsOwn hbefore hcommands i _ _ _ hp).1
      rw [hkey]
      exact ⟨l.key_ne_keygenKey, l.key_ne_signKey⟩
    rcases List.mem_filterMap.mp hc with ⟨e', he', hrecord⟩
    rcases List.mem_cons.mp he' with rfl | hmem
    · cases hs with
      | lost => cases hrecord
      | broke => cases hrecord
      | unheard hi =>
          cases hrecord
          exact own hi
      | answered late hi =>
          cases hrecord
          exact own hi
      | other =>
          cases hrecord
          exact hothers _ (List.mem_cons_self ..)
    · exact ih c (List.mem_filterMap.mpr ⟨e', hmem, hrecord⟩)

/-- The arguments of the calls of `signup`; any where there is none. -/
def signArgs (commands : Nat → Command α) (i : Nat) : SignupArgs :=
  match (commands i).ask with
  | .ok (.sign args) => args
  | _ => ⟨⟨"", ""⟩, "", 0, ""⟩

theorem signArgs_eq {args : SignupArgs} (h : (commands i).ask = .ok (.sign args)) :
    signArgs commands i = args := by
  rw [signArgs, h]

/-- The rooms of a run of the world with the calls of its clients, and its counters.  No
UUID is in both. -/
theorem WorldRun.records (hrun : WorldRun env keygenJson roomJson commands w tr)
    (hkeeps : ∀ c ∈ tr.filterMap WorldEvent.record, c.KeepsRecords)
    (hwhole : w.manager.poisoned = false) :
    ∃ f hf m₁ calls f' hf' c₁,
      SystemRun (env.rename f hf) roomJson (signArgs commands) m₁ calls
        (tr.filterMap (WorldEvent.system env roomJson)) ∧
      (∀ i args, (commands i).ask = .ok (.sign args) → (w.process i).Signs (calls i)) ∧
      KeygenRun (env.rename f' hf') keygenJson c₁
        ((tr.filterMap WorldEvent.record).filterMap (ManagerRecord.keygen env keygenJson)) ∧
      ∀ j < m₁.issued, ∀ j' < c₁.issued, f j ≠ f' j' := by
  obtain ⟨f, hf, n, ⟨m₁, hsign, rfl, -⟩, hdrew⟩ := (hrun.manager.signsAlone hkeeps hwhole).exists
  obtain ⟨f', hf', n', ⟨c₁, hkeygen, rfl, -⟩, hdrew'⟩ :=
    (hrun.manager.countsAlone hkeeps hwhole).exists
  have hcall : ∀ i, ∃ call, (signup (signArgs commands i)).replay (heard env roomJson tr i) =
      some call ∧ ∀ args, (commands i).ask = .ok (.sign args) → (w.process i).Signs call := by
    intro i
    by_cases hask : ∃ args, (commands i).ask = .ok (.sign args)
    · obtain ⟨args, hargs⟩ := hask
      obtain ⟨call, hreplay, hsigns⟩ := hrun.signs hargs
      exact ⟨call, by rwa [signArgs_eq hargs], fun _ _ => hsigns⟩
    · have hask := not_exists.mp hask
      refine ⟨signup (signArgs commands i), ?_, fun args hargs => absurd hargs (hask args)⟩
      rw [(hrun.signs_not hask).1]
      rfl
  choose calls hreplay hsigns using hcall
  refine ⟨f, hf, m₁, calls, f', hf', c₁, ⟨?_, hreplay⟩, hsigns, hkeygen, fun j hj j' hj' he => ?_⟩
  · rwa [system_trace]
  · exact hrun.manager.drew_apart (hdrew j hj) (he ▸ hdrew' j' hj')

/-! ## Seats of a key generation -/

/-- A number that is printed is parsed. -/
theorem parseU16_toString (n : UInt16) : parseU16 (toString n.toNat) = .ok n := by
  have hlist := toString_toList n.toNat
  obtain ⟨c, l, hl, hc⟩ := toString_head n.toNat
  have hplus : (toString n.toNat).toList.head? ≠ some '+' := by
    rw [hl, List.head?_cons]
    rintro ⟨⟩
    exact absurd hc (by decide)
  have hvalue : digitsValue (toString n.toNat).toList = n.toNat := by
    rw [digitsValue, ← Nat.ofDigitChars_eq_foldl, toString_toList, Nat.ofDigitChars_ten_toDigits]
  unfold parseU16
  dsimp only
  rw [if_neg hplus, hvalue, if_pos ⟨by rw [hl]; exact List.cons_ne_nil _ _,
    List.all_eq_true.mpr fun c hc => isDigit_of_mem_toString hc, n.toNat_lt⟩, UInt16.ofNat_toNat]

variable {threshold parties : UInt16} {curve : String} {seat : PartySignup} {total : UInt16}

/-- The client was answered with the seat when it signed up for a key generation. -/
def Counted (env : Env) (keygenJson : Codec PartySignup) (tr : List WorldEvent) (i : Nat)
    (parties : UInt16) (curve : String) (seat : PartySignup) : Prop :=
  ∃ late record c, .answered i late record ∈ tr ∧
    record.keygen env keygenJson = some (.request c) ∧ c.answer = .ok seat ∧ c.curve = curve ∧
    c.params.parties = toString parties.toNat

theorem Counted.cons (h : Counted env keygenJson tr i parties curve seat) (e : WorldEvent) :
    Counted env keygenJson (e :: tr) i parties curve seat := by
  obtain ⟨late, record, c, hmem, hrest⟩ := h
  exact ⟨late, record, c, List.mem_cons_of_mem _ hmem, hrest⟩

/-- A client that signs up for a key generation. -/
theorem WorldRun.counts (hrun : WorldRun env keygenJson roomJson commands w tr)
    (hask : (commands i).ask = .ok (.keygen threshold parties curve)) :
    w.process i = .keygen threshold parties curve ∨ w.process i = .panicked ∨
      ∃ seat s, w.process i = .session seat parties s ∧
        Counted env keygenJson tr i parties curve seat := by
  refine Run.invariant (fun w tr => w.process i = .keygen threshold parties curve ∨
    w.process i = .panicked ∨ ∃ seat s, w.process i = .session seat parties s ∧
      Counted env keygenJson tr i parties curve seat) ?_ ?_ hrun
  · rintro w rfl
    left
    show Process.start (commands i) = _
    rw [Process.start, hask]
  · rintro w e w' tr - ih hs
    rcases hs.process_cases i with ⟨hp | ⟨p, hp⟩, -⟩ | ⟨late, clock, request, rfl, hr, hp⟩
    · rw [hp]
      rcases ih with h | h | ⟨seat, s, h, hcounted⟩
      · exact Or.inl h
      · exact Or.inr (Or.inl h)
      · exact Or.inr (Or.inr ⟨seat, s, h, hcounted.cons e⟩)
    · rw [hp]
      rcases ih with h | h | ⟨seat, s, h, hcounted⟩
      · rw [h]
        exact Or.inr (Or.inl rfl)
      · rw [h]
        exact Or.inr (Or.inl rfl)
      · rw [h]
        exact Or.inr (Or.inr ⟨seat, _, rfl, hcounted.cons e⟩)
    · rcases ih with h | h | ⟨seat, s, h, hcounted⟩
      · rw [h] at hr hp
        cases hr
        rw [handle_keygen] at hp
        unfold Process.receive at hp
        dsimp only at hp
        split at hp
        next seat hreply =>
          refine Or.inr (Or.inr ⟨seat, _, hp, late, _, _, List.mem_cons_self .., rfl, ?_, rfl, rfl⟩)
          show (serveKeygen env keygenJson ⟨w.manager.db, w.manager.issued, w.manager.poisoned⟩ _
            curve).2 = .ok seat
          generalize (serveKeygen env keygenJson ⟨w.manager.db, w.manager.issued,
            w.manager.poisoned⟩ _ curve).2 = answer at hreply
          cases answer with
          | error => cases hreply
          | ok s =>
              cases hreply
              rfl
        next => exact Or.inr (Or.inl hp)
      · rw [h] at hr
        cases hr
      · rw [h] at hp
        exact Or.inr (Or.inr ⟨seat, _, hp, hcounted.cons _⟩)

/-- Who holds a seat has signed up for it. -/
theorem WorldRun.holder (hrun : WorldRun env keygenJson roomJson commands w tr)
    (hi : (w.process i).Holds seat total) :
    (∃ threshold curve, (commands i).ask = .ok (.keygen threshold total curve) ∧
      Counted env keygenJson tr i total curve seat) ∨
    ∃ args, (commands i).ask = .ok (.sign args) := by
  obtain ⟨s, hs⟩ := hi
  cases hask : (commands i).ask with
  | error p =>
      have hpanicked : w.process i = .panicked := by
        refine Run.invariant (fun w _ => w.process i = .panicked) ?_ ?_ hrun
        · rintro w rfl
          show Process.start (commands i) = _
          rw [Process.start, hask]
        · rintro w e w' tr - h hs
          rcases hs.process_cases i with ⟨hp | ⟨p, hp⟩, -⟩ | ⟨late, clock, request, rfl, hr, hp⟩
          · rw [hp, h]
          · rw [hp, h]
            rfl
          · rw [h] at hr
            cases hr
      rw [hpanicked] at hs
      cases hs
  | ok ask =>
      cases ask with
      | sign args => exact Or.inr ⟨args, rfl⟩
      | keygen threshold parties curve =>
          rcases hrun.counts hask with h | h | ⟨seat', s', h, hcounted⟩
          · rw [h] at hs
            cases hs
          · rw [h] at hs
            cases hs
          · rw [h] at hs
            cases hs
            exact Or.inl ⟨threshold, curve, rfl, hcounted⟩

/-! ## The parties of a session -/

/-- The clients with a seat of the UUID hold different ones of `total`. -/
structure SeatsOf (w : World α) (uuid : String) (total : UInt16) : Prop where
  same : ∀ i seat total', (w.process i).Holds seat total' → seat.uuid = uuid → total' = total
  range : ∀ i seat, (w.process i).Holds seat total → seat.uuid = uuid →
    1 ≤ seat.number.toNat ∧ seat.number.toNat ≤ total.toNat
  apart : ∀ i j seat seat', (w.process i).Holds seat total → (w.process j).Holds seat' total →
    seat.uuid = uuid → seat'.uuid = uuid → seat.number = seat'.number → i = j

variable {uuid : String}

/-- The clients with the seats are parties of a session, in which the party of each number
runs what the client there runs; what the client `i₀` runs stands in where none is. -/
theorem SeatsOf.parts {β Δ : Type} (h : SeatsOf w uuid total) (f : β → α)
    (run : Δ → Nat → Client β) (Draws : Nat → Δ → Prop) (hcommands : ∀ i, (commands i).PostsOwn)
    {i₀ : Nat} (hi₀ : (w.process i₀).Holds seat total) (hu₀ : seat.uuid = uuid)
    (hbody : ∀ i seat, (w.process i).Holds seat total → seat.uuid = uuid → ∃ d, Draws i d ∧
      ∀ number, (commands i).body { number, uuid } total = f <$> run d number.toNat) :
    ∃ draws : Nat → Δ,
      (∀ i seat, (w.process i).Holds seat total → seat.uuid = uuid →
        Draws i (draws seat.number.toNat)) ∧
      InSession commands uuid total.toNat (fun k => f <$> run (draws k) k) w ∧
      ∀ k, 1 ≤ k → k ≤ total.toNat → (f <$> run (draws k) k).PostsOnly (OwnKey uuid k) := by
  have hex : ∀ k, ∃ i d, (∀ j seat, (w.process j).Holds seat total → seat.uuid = uuid →
      seat.number.toNat = k → j = i ∧ Draws j d) ∧
      ∀ number, (commands i).body { number, uuid } total = f <$> run d number.toNat := by
    intro k
    by_cases hk : ∃ i seat, (w.process i).Holds seat total ∧ seat.uuid = uuid ∧
        seat.number.toNat = k
    · obtain ⟨i, seat, hi, hu, hk⟩ := hk
      obtain ⟨d, hd, hrun⟩ := hbody i seat hi hu
      refine ⟨i, d, fun j seat' hj hu' hk' => ?_, hrun⟩
      obtain rfl := h.apart j i seat' seat hj hi hu' hu (UInt16.toNat_inj.mp (hk'.trans hk.symm))
      exact ⟨rfl, hd⟩
    · obtain ⟨d, -, hrun⟩ := hbody i₀ seat hi₀ hu₀
      exact ⟨i₀, d, fun j seat hj hu hk' => absurd ⟨j, seat, hj, hu, hk'⟩ hk, hrun⟩
  choose holder draws hholder hruns using hex
  refine ⟨draws, fun i seat hi hu => (hholder _ i seat hi hu rfl).2, ⟨?_, ?_, ?_⟩, fun k _ hk => ?_⟩
  · intro i seat total' hi hu
    obtain rfl := h.same i seat total' hi hu
    exact h.range i seat hi hu
  · intro i seat total' hi hu
    obtain rfl := h.same i seat total' hi hu
    subst hu
    obtain ⟨rfl, -⟩ := hholder _ i seat hi rfl rfl
    exact hruns seat.number.toNat seat.number
  · intro i j seat seat' total' total'' hi hj hu hu'
    obtain rfl := h.same i seat total' hi hu
    obtain rfl := h.same j seat' total'' hj hu'
    exact h.apart i j seat seat' hi hj hu hu'
  · have hto : (UInt16.ofNat k).toNat = k := UInt16.toNat_ofNat_of_lt' (hk.trans_lt total.toNat_lt)
    have hown := hcommands (holder k) { number := UInt16.ofNat k, uuid } total
    rwa [hruns k, hto] at hown

/-! ## Both kinds of sessions -/

/-- The UUID of a call that has returned is one that was drawn for a room. -/
theorem SystemRun.room_uuid {args : Nat → SignupArgs} {m : ManagerState}
    {calls : Nat → SignupCall} {tr : List SystemEvent} (h : SystemRun env roomJson args m calls tr)
    (hi : calls i = .returned seat total) : Issued env m.issued seat.uuid := by
  obtain ⟨late, c, s, hc, ha, rfl, -, hne⟩ := h.returned hi
  have hinv := runInv_run h.manager
  obtain ⟨d, r, info, hd, hdr, hread⟩ := hinv.answered c s (List.mem_map_of_mem hc) ha hne
  have := (hinv.closedOk d r hd hdr).uuidIssued
  rwa [hread.roomUuid] at this

theorem Counted.mem (h : Counted env keygenJson tr i parties curve seat) :
    ∃ c, .request c ∈ (tr.filterMap WorldEvent.record).filterMap
        (ManagerRecord.keygen env keygenJson) ∧
      c.answer = .ok seat ∧ c.curve = curve ∧ parseU16 c.params.parties = .ok parties := by
  obtain ⟨late, record, c, hmem, hrecord, ha, hcurve, hparties⟩ := h
  refine ⟨c, ?_, ha, hcurve, ?_⟩
  · exact List.mem_filterMap.mpr ⟨record, List.mem_filterMap.mpr ⟨_, hmem, rfl⟩, hrecord⟩
  · rw [hparties, parseU16_toString]

/-- A number of a group is answered to one client. -/
theorem Counted.apart {env' : Env} {m : CounterState} {j : Nat} {parties' : UInt16}
    {curve' : String} (h : Counted env keygenJson tr i parties curve seat)
    (h' : Counted env keygenJson tr j parties' curve' seat)
    (hrun : KeygenRun env' keygenJson m
      ((tr.filterMap WorldEvent.record).filterMap (ManagerRecord.keygen env keygenJson))) :
    i = j := by
  obtain ⟨late, record, c, hmem, hrecord, ha, -⟩ := h
  obtain ⟨late', record', c', hmem', hrecord', ha', -⟩ := h'
  have hnodup : (tr.filterMap fun e => (e.record.bind (ManagerRecord.keygen env keygenJson)).bind
      KeygenEvent.answer).Nodup := by
    have := (KeygenRun.numbersInv hrun).nodup
    rw [answersOf, List.nodup_reverse, List.filterMap_filterMap, List.filterMap_filterMap] at this
    simpa only [Option.bind_assoc] using this
  have answered : ∀ {k late record c}, record.keygen env keygenJson = some (.request c) →
      c.answer = .ok seat → ((WorldEvent.answered k late record).record.bind
        (ManagerRecord.keygen env keygenJson)).bind KeygenEvent.answer = some seat := by
    intro k late record c hrecord ha
    show ((ManagerRecord.keygen env keygenJson record).bind KeygenEvent.answer) = some seat
    rw [hrecord, Option.bind_some, KeygenEvent.answer, ha]
    rfl
  have := eq_of_nodup hnodup hmem hmem' (answered hrecord ha) (answered hrecord' ha')
  cases this
  rfl

section

variable (hrun : WorldRun env keygenJson roomJson commands w tr)
  (hkeeps : ∀ c ∈ tr.filterMap WorldEvent.record, c.KeepsRecords)
  (hwhole : w.manager.poisoned = false)

include hrun hkeeps hwhole

/-- Who holds a seat of the UUID of a key generation has signed up for it, on the same
curve. -/
theorem WorldRun.keygen_holder {i₀ : Nat} {seat₀ : PartySignup}
    (hi₀ : Counted env keygenJson tr i₀ parties curve seat₀)
    (hi : (w.process i).Holds seat total) (hu : seat.uuid = seat₀.uuid) :
    ∃ threshold, (commands i).ask = .ok (.keygen threshold total curve) ∧
      Counted env keygenJson tr i total curve seat := by
  obtain ⟨f, hf, m₁, calls, f', hf', c₁, hsystem, hsigns, hkeygen, hapart⟩ :=
    hrun.records hkeeps hwhole
  have hinv := KeygenRun.numbersInv hkeygen
  obtain ⟨c₀, hc₀, ha₀, hcurve₀, -⟩ := hi₀.mem
  rcases hrun.holder hi with ⟨threshold, curve', hask, hcounted⟩ | ⟨args, hask⟩
  · obtain ⟨c, hc, ha, hcurve, -⟩ := hcounted.mem
    obtain rfl : curve' = curve :=
      hcurve.symm.trans ((hinv.curves c c₀ seat seat₀ hc hc₀ ha ha₀ hu).trans hcurve₀)
    exact ⟨threshold, hask, hcounted⟩
  · obtain ⟨s, hs⟩ := hi
    have hcall : calls i = .returned seat total := by
      have := hsigns i args hask
      rwa [hs] at this
    obtain ⟨j, hj, huuid⟩ := hsystem.room_uuid hcall
    obtain ⟨j', hj', huuid'⟩ := hinv.issued seat₀ (mem_answersOf.mpr ⟨c₀, hc₀, ha₀⟩)
    exact absurd (env.uuid_injective (huuid.symm.trans (hu.trans huuid'))) (hapart j hj j' hj')

/-- The clients of a key generation, if all of them ask for `parties` parties. -/
theorem WorldRun.keygenSeats {i₀ : Nat} {seat₀ : PartySignup} (hparties : 1 ≤ parties)
    (hi₀ : Counted env keygenJson tr i₀ parties curve seat₀)
    (hsame : ∀ i seat total, (w.process i).Holds seat total → seat.uuid = seat₀.uuid →
      total = parties) :
    SeatsOf w seat₀.uuid parties := by
  obtain ⟨-, -, -, -, f', hf', c₁, -, -, hkeygen, -⟩ := hrun.records hkeeps hwhole
  refine ⟨hsame, fun i seat hi hu => ?_, fun i j seat seat' hi hj hu hu' hk => ?_⟩
  · obtain ⟨-, -, hcounted⟩ := hrun.keygen_holder hkeeps hwhole hi₀ hi hu
    obtain ⟨c, hc, ha, -, hparse⟩ := hcounted.mem
    obtain ⟨s, hs, h₁, hn⟩ := (KeygenRun.numbersInv hkeygen).ranges c parties hc hparse hparties
    rw [ha] at hs
    cases hs
    exact ⟨h₁, hn⟩
  · obtain ⟨-, -, hcounted⟩ := hrun.keygen_holder hkeeps hwhole hi₀ hi hu
    obtain ⟨-, -, hcounted'⟩ := hrun.keygen_holder hkeeps hwhole hi₀ hj hu'
    have : seat = seat' := by
      cases seat
      cases seat'
      simp_all
    subst this
    exact hcounted.apart hcounted' hkeygen

/-- Who holds a seat of the room of a signer has signed up for it, on the same curve and
under the same digest, and with another party number if it is another client. -/
theorem WorldRun.sign_holder {i₀ : Nat} {seat₀ : PartySignup} {total₀ : UInt16} {args₀ : SignupArgs}
    (hask₀ : (commands i₀).ask = .ok (.sign args₀)) (hi₀ : (w.process i₀).Holds seat₀ total₀)
    (hi : (w.process i).Holds seat total) (hu : seat.uuid = seat₀.uuid) :
    ∃ args, (commands i).ask = .ok (.sign args) ∧
      args.curveName ++ args.roomId = args₀.curveName ++ args₀.roomId ∧
      (args.partyId = args₀.partyId → i = i₀) ∧ (seat.number = seat₀.number → i = i₀) := by
  obtain ⟨f, hf, m₁, calls, f', hf', c₁, hsystem, hsigns, -, -⟩ := hrun.records hkeeps hwhole
  have called : ∀ {i args seat total}, (commands i).ask = .ok (.sign args) →
      (w.process i).Holds seat total → calls i = .returned seat total := by
    rintro i args seat total hask ⟨s, hs⟩
    have := hsigns i args hask
    rwa [hs] at this
  rcases hrun.holder hi with ⟨threshold, curve, -, hcounted⟩ | ⟨args, hask⟩
  · obtain ⟨threshold, hask', -⟩ := hrun.keygen_holder hkeeps hwhole hcounted hi₀ hu.symm
    rw [hask₀] at hask'
    cases hask'
  · have hcall := called hask hi
    have hcall₀ := called hask₀ hi₀
    have hkey := hsystem.sameKey hcall hcall₀ hu
    obtain ⟨hnumber, hid⟩ := hsystem.apart hcall hcall₀ hu
    rw [signArgs_eq hask, signArgs_eq hask₀] at hkey hid
    exact ⟨args, hask, hkey, hid, hnumber⟩

/-- The clients of a signing, where no party is added to a full room and every client
that polls a closed room finds all of its members active. -/
theorem WorldRun.signSeats {i₀ : Nat} {seat₀ : PartySignup} {args : SignupArgs}
    (hsize : ∀ e ∈ tr.filterMap (WorldEvent.system env roomJson), RespectsSize env e.event)
    (hactive : ∀ e ∈ tr.filterMap (WorldEvent.system env roomJson), e.FindsAllActive env)
    (hask : (commands i₀).ask = .ok (.sign args)) (hi₀ : (w.process i₀).Holds seat₀ total) :
    SeatsOf w seat₀.uuid total := by
  obtain ⟨f, hf, m₁, calls, f', hf', c₁, hsystem, hsigns, -, -⟩ := hrun.records hkeeps hwhole
  have signer : ∀ {i seat total}, (w.process i).Holds seat total → seat.uuid = seat₀.uuid →
      calls i = .returned seat total := by
    intro i seat total hi hu
    obtain ⟨args', hask', -⟩ := hrun.sign_holder hkeeps hwhole hask hi₀ hi hu
    obtain ⟨s, hs⟩ := hi
    have := hsigns i args' hask'
    rwa [hs] at this
  have closed := fun {i p n} => hsystem.returned_size (i := i) (p := p) (n := n) hsize hactive
  obtain ⟨c₀, r₀, hc₀, hcl₀, hu₀, rfl, -⟩ := closed (signer hi₀ rfl)
  have room : ∀ {i seat total}, (w.process i).Holds seat total → seat.uuid = seat₀.uuid →
      total = r₀.roomSize ∧ 1 ≤ seat.number.toNat ∧ seat.number.toNat ≤ total.toNat := by
    intro i seat total hi hu
    obtain ⟨c, r, hc, hcl, hru, rfl, hrange⟩ := closed (signer hi hu)
    obtain rfl := (runInv_run hsystem.manager).closedOnce c c₀ r r₀ hc hc₀ hcl hcl₀
      (hru.trans (hu.trans hu₀.symm))
    exact ⟨rfl, hrange⟩
  refine ⟨fun i seat total hi hu => (room hi hu).1, fun i seat hi hu => (room hi hu).2, ?_⟩
  intro i j seat seat' hi hj hu hu' hk
  exact (hsystem.apart (signer hi hu) (signer hj hu') (hu.trans hu'.symm)).1 hk

end

end

end TssCli
