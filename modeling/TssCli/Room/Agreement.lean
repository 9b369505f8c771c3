import TssCli.Common.Signup
import TssCli.Room.Closing

/-!
# Agreement on the number of signers

A client takes the number of signers from `total_joined`, which counts the
members that are active when the answer is given.  A ping is recorded only while
the room is open.  So a member that polls a closed room a little late finds
itself or others timed out, and goes on with a smaller number than they do
(`signers_disagree`).  The poll that closes the room can find the same, since the
members are counted once more for its answer, at another reading of the clock.

The number is the same for all, and equal to the size of the room, where no
request adds a party to a full room and every client that polls a closed room, or
closes it, is answered while all of its members are active (`signers_agree`).

A run of the whole system is a run of the manager in which some of the requests
are made by numbered calls of `signup`.  Each call's own history, cut out of the
trace, is replayed: a request must be the one the call posts next, and the call
goes on with the answer.
-/

namespace TssCli

open AssocValues Transition

/-! ## Clients and the manager -/

/-- What happens in the system: a request of the numbered call `i`, or anything
else at the manager. -/
inductive SystemEvent where
  | client (i : Nat) (late : Bool) (record : SignRecord)
  | other (event : SignEvent)

/-- The event as the manager sees it. -/
def SystemEvent.event : SystemEvent → SignEvent
  | .client _ _ record => .request record
  | .other event => event

/-- The event as the call `i` sees it. -/
def SystemEvent.heardBy (i : Nat) : SystemEvent → Option (Bool × SignRecord)
  | .client j late record => if j = i then some (late, record) else none
  | .other _ => none

/-- A call after its requests, newest first, if they are the ones it posts. -/
def SignupCall.replay (call : SignupCall) : List (Bool × SignRecord) → Option SignupCall
  | [] => some call
  | (late, c) :: rest =>
      (call.replay rest).bind fun before =>
        if before.request = some c.request then some (before.receive late c.answer) else none

/-- A run of the manager together with the calls of `signup`. -/
structure SystemRun (env : Env) (json : Codec SigningRoom) (args : Nat → SignupArgs)
    (m : ManagerState) (calls : Nat → SignupCall) (tr : List SystemEvent) : Prop where
  manager : SignRun env json m (tr.map SystemEvent.event)
  clients : ∀ i, (signup (args i)).replay (tr.filterMap (SystemEvent.heardBy i)) = some (calls i)

/-- Any two calls that return with one room UUID return the size of the room as
the number of signers, and orders within it. -/
def SignersAgree (calls : Nat → SignupCall) (tr : List SystemEvent) : Prop :=
  ∀ i j p p' n n', calls i = .returned p n → calls j = .returned p' n' → p.uuid = p'.uuid →
    n = n' ∧ ∃ c r, SignEvent.request c ∈ tr.map SystemEvent.event ∧ c.Closes r ∧
      r.roomUuid = p.uuid ∧ n = r.roomSize ∧
      (1 ≤ p.number.toNat ∧ p.number.toNat ≤ n.toNat) ∧
      (1 ≤ p'.number.toNat ∧ p'.number.toNat ≤ n.toNat)

/-- No member of the room is timed out. -/
def SigningRoom.AllActive (env : Env) (now : Readings) (r : SigningRoom) : Prop :=
  ∀ x ∈ r.memberInfo.values, timedOut env (now x) x = false

/-- A member that polls a closed room, or an open one that its ping closes, finds all
members active when they are counted for the answer. -/
def SignRecord.FindsAllActive (env : Env) (c : SignRecord) : Prop :=
  ∀ r, c.before = some r → ∀ info, r.memberInfo.lookup c.request.partyNumber = some info →
    info.partyId = c.request.partyUuid →
    (r.lastStage = .terminated → r.AllActive env c.clock.info) ∧
    (r.lastStage = .signup →
      (r.seat c.request.partyNumber { info with lastPing := c.clock.ping }).Settles env c.clock →
      (r.seat c.request.partyNumber { info with lastPing := c.clock.ping }).AllActive env
        c.clock.info)

/-- The same of the requests of the calls. -/
def SystemEvent.FindsAllActive (env : Env) : SystemEvent → Prop
  | .client _ _ c => c.FindsAllActive env
  | .other _ => True

section

variable {env : Env} {json : Codec SigningRoom} {args : Nat → SignupArgs} {m : ManagerState}
  {calls : Nat → SignupCall} {tr : List SystemEvent}

/-- A call that has returned took its result from one of its answers. -/
theorem SignupCall.replay_returned {call : SignupCall} {p : PartySignup} {n : UInt16}
    (hcall : call ≠ .returned p n) :
    ∀ {history : List (Bool × SignRecord)}, call.replay history = some (.returned p n) →
      ∃ late c s, (late, c) ∈ history ∧ c.Answers s ∧ p = ⟨s.partyOrder, s.roomUuid⟩ ∧
        n = s.totalJoined ∧ s.roomUuid ≠ ""
  | [], h => absurd (Option.some.inj h) hcall
  | (late, c) :: rest, h => by
      obtain ⟨before, -, h⟩ := Option.bind_eq_some_iff.mp h
      split at h
      next =>
        obtain ⟨s, ha, hp, hn, hne⟩ := SignupCall.receive_returned (Option.some.inj h)
        exact ⟨late, c, s, List.mem_cons_self .., ha, hp, hn, hne⟩
      next => cases h

theorem SystemRun.returned (h : SystemRun env json args m calls tr) {i : Nat} {p : PartySignup}
    {n : UInt16} (hi : calls i = .returned p n) :
    ∃ late c s, .client i late c ∈ tr ∧ c.Answers s ∧ p = ⟨s.partyOrder, s.roomUuid⟩ ∧
      n = s.totalJoined ∧ s.roomUuid ≠ "" := by
  have hrep := h.clients i
  rw [hi] at hrep
  obtain ⟨late, c, s, hc, hrest⟩ := SignupCall.replay_returned (signup_ne_returned _) hrep
  obtain ⟨e, he, hheard⟩ := List.mem_filterMap.mp hc
  cases e with
  | other e => cases hheard
  | client j late' c' =>
      rw [SystemEvent.heardBy] at hheard
      split at hheard
      next hj =>
        obtain ⟨rfl, rfl⟩ := Prod.mk.inj (Option.some.inj hheard)
        exact ⟨late', c', s, hj ▸ he, hrest⟩
      next => cases hheard

theorem SigningRoom.activeCount_eq_len {now : Readings} {r : SigningRoom}
    (h : r.AllActive env now) : r.activeCount env now = r.memberInfo.len := by
  rw [activeCount, List.filter_eq_self.mpr fun x hx => by rw [h x hx]; rfl]
  rfl

/-- An answer from a well closed room has the size of the room just when all members are
active. -/
theorem ClosedWell.total_iff {now : Readings} {c : SignRecord} {s : SigningPartySignup}
    {r : SigningRoom} {info : SigningPartyInfo} (h : ClosedWell env now r)
    (hread : c.Reads env s r info) : s.totalJoined = r.roomSize ↔ r.AllActive env c.clock.info := by
  have hle : r.activeCount env c.clock.info ≤ r.roomSize.toNat :=
    h.size ▸ r.activeCount_le env c.clock.info
  rw [hread.total, ← UInt16.toNat_inj, UInt16.toNat_ofNat_of_lt' (hle.trans_lt r.roomSize.toNat_lt)]
  constructor
  · intro hcount
    exact all_active_of_count (h.size.trans hcount.symm).le
  · intro hall
    rw [SigningRoom.activeCount_eq_len hall, h.size]

/-- An answer with a room UUID is given while all members of the room are active. -/
theorem SignRecord.FindsAllActive.answered {c : SignRecord} {k k' : Nat} {s : SigningPartySignup}
    {r : SigningRoom} {info : SigningPartyInfo} (h : c.FindsAllActive env)
    (hh : Handles env c.clock c.request c.before k c.after k' (.ok s))
    (hread : c.Reads env s r info) (hterm : r.lastStage = .terminated) : r.AllActive env c.clock.info := by
  have hid := hread.id.trans hread.poll
  rw [hread.after] at hh
  rcases hh.closing hterm with hb | ⟨r₀, info₀, hb, hopen, hl, rfl, hsettles⟩
  · exact (h r hb info hread.seat hid).1 hterm
  · have hinfo := hread.seat
    rw [SigningRoom.close, SigningRoom.seat, AList.lookup_insert] at hinfo
    rw [← Option.some.inj hinfo] at hid
    exact (h r₀ hb info₀ hl hid).2 hopen hsettles

/-- Under the two conditions a call returns the size of the room closed under its
room UUID, and an order within it. -/
theorem SystemRun.returned_size (h : SystemRun env json args m calls tr)
    (hsize : ∀ e ∈ tr, RespectsSize env e.event) (hactive : ∀ e ∈ tr, e.FindsAllActive env)
    {i : Nat} {p : PartySignup} {n : UInt16} (hi : calls i = .returned p n) :
    ∃ c r, SignEvent.request c ∈ tr.map SystemEvent.event ∧ c.Closes r ∧ r.roomUuid = p.uuid ∧
      n = r.roomSize ∧ 1 ≤ p.number.toNat ∧ p.number.toNat ≤ n.toNat := by
  have hadd : ∀ e ∈ tr.map SystemEvent.event, RespectsSize env e := by
    intro e he
    obtain ⟨e', he', rfl⟩ := List.mem_map.mp he
    exact hsize e' he'
  have hclosed := closedWell_run h.manager hadd
  obtain ⟨late, c, s, hc, ha, rfl, rfl, hne⟩ := h.returned hi
  have hmem : SignEvent.request c ∈ tr.map SystemEvent.event := List.mem_map_of_mem hc
  obtain ⟨d, r, info, hd, hdr, hread⟩ := (runInv_run h.manager).answered c s hmem ha hne
  have hwell := hclosed d r hd hdr
  have hall : r.AllActive env c.clock.info := by
    obtain ⟨k, k', hh⟩ := h.manager.handled hmem ha
    obtain ⟨-, -, -, -, hterm⟩ := hdr
    exact SignRecord.FindsAllActive.answered (hactive _ hc) hh hread hterm
  have hn : s.totalJoined = r.roomSize := (hwell.total_iff hread).mpr hall
  refine ⟨d, r, hd, hdr, hread.roomUuid, hn, ?_⟩
  rw [hn, ← hread.order]
  exact hwell.order_range hread.seat

/-- Where no party is added to a full room and no call is answered from a closed room
that has a timed-out member, the calls agree on the number of signers. -/
theorem signers_agree (h : SystemRun env json args m calls tr)
    (hsize : ∀ e ∈ tr, RespectsSize env e.event) (hactive : ∀ e ∈ tr, e.FindsAllActive env) :
    SignersAgree calls tr := by
  intro i j p p' n n' hi hj hu
  obtain ⟨c, r, hc, hcr, hru, hn, hrange⟩ := h.returned_size hsize hactive hi
  obtain ⟨c', r', hc', hcr', hru', hn', hrange'⟩ := h.returned_size hsize hactive hj
  obtain rfl := (runInv_run h.manager).closedOnce c c' r r' hc hc' hcr hcr'
    (hru.trans (hu.trans hru'.symm))
  obtain rfl : n = n' := hn.trans hn'.symm
  exact ⟨rfl, c, r, hc, hcr, hru, hn, hrange, hrange'⟩

end

/-! ## Two calls for one room -/

/-- Whose requests the records of a history are, newest first. -/
def tagged (senders : List Nat) (records : List SignRecord) : List SystemEvent :=
  List.zipWith (fun i c => .client i false c) senders records

theorem tagged_event : ∀ {senders : List Nat} {records : List SignRecord},
    senders.length = records.length →
    (tagged senders records).map SystemEvent.event = records.map SignEvent.request
  | [], [], _ => rfl
  | _ :: _, c :: _, h =>
      congrArg (SignEvent.request c :: ·) (tagged_event (Nat.succ.inj h))

/-- A call that sends nothing hears nothing. -/
theorem tagged_silent {i : Nat} : ∀ {senders : List Nat} {records : List SignRecord},
    i ∉ senders → (tagged senders records).filterMap (SystemEvent.heardBy i) = []
  | [], _, _ => rfl
  | _ :: _, [], _ => rfl
  | j :: senders, c :: records, h => by
      obtain ⟨hj, hrest⟩ := not_or.mp (List.mem_cons.not.mp h)
      have hheard : SystemEvent.heardBy i (.client j false c) = none := if_neg (Ne.symm hj)
      show List.filterMap _ (_ :: tagged senders records) = []
      rw [List.filterMap_cons_none hheard, tagged_silent hrest]

theorem mem_tagged {e : SystemEvent} : ∀ {senders : List Nat} {records : List SignRecord},
    e ∈ tagged senders records → ∃ i, ∃ c ∈ records, e = .client i false c
  | j :: senders, c :: records, h => by
      cases List.mem_cons.mp h with
      | inl he => exact ⟨j, c, List.mem_cons_self .., he⟩
      | inr ht =>
          obtain ⟨i, d, hd, he⟩ := mem_tagged ht
          exact ⟨i, d, List.mem_cons_of_mem _ hd, he⟩

/-- The calls of parties `1` and `2` for the room of message `"m"`. -/
def pairArgs (i : Nat) : SignupArgs where
  params := { parties := "2", threshold := "1" }
  roomId := "m"
  partyId := if i = 0 then 1 else 2
  curveName := "ECDSA"

/-- Both parties join and poll while both are active. -/
def promptRequests : List (UInt64 × PartySignupRequestBody) :=
  [(10, requestOf 1 ""), (10, requestOf 2 ""), (11, requestOf 1 "uu"), (11, requestOf 2 "uuu")]

/-- The second party polls again when its own ping has timed out. -/
def lateRequests : List (UInt64 × PartySignupRequestBody) :=
  [(10, requestOf 1 ""), (10, requestOf 2 ""), (11, requestOf 1 "uu"), (13, requestOf 2 "uuu")]

/-- The calls when both have returned, the second one with `n` signers. -/
def pairReturned (n : UInt16) (i : Nat) : SignupCall :=
  if i = 0 then .returned { number := 1, uuid := "u" } 2
  else if i = 1 then .returned { number := 2, uuid := "u" } n
  else signup (pairArgs i)

theorem pairReturned_rest (n : UInt16) {i : Nat} (hi : 2 ≤ i) :
    pairReturned n i = signup (pairArgs i) := by
  rw [pairReturned, if_neg (by omega), if_neg (by omega)]

/-- A history of two calls is a run of the system. -/
theorem systemRun_play {args : Nat → SignupArgs} {key : Key}
    {requests : List (UInt64 × PartySignupRequestBody)} {s : Played} {senders : List Nat}
    {returned : Nat → SignupCall} (hs : play defaultEnv key .init requests = some s)
    (hlen : senders.length = s.records.length) (htwo : ∀ i ∈ senders, i < 2)
    (hclients : ∀ i < 2, (signup (args i)).replay
      ((tagged senders s.records).filterMap (SystemEvent.heardBy i)) = some (returned i))
    (hrest : ∀ i, 2 ≤ i → returned i = signup (args i)) :
    ∃ m, SystemRun defaultEnv (Codec.ofCountable SigningRoom) args m returned
      (tagged senders s.records) := by
  obtain ⟨m, hrun⟩ := signRun_play (Codec.ofCountable SigningRoom) hs
  refine ⟨m, by rwa [tagged_event hlen], fun i => ?_⟩
  by_cases hi : i < 2
  · exact hclients i hi
  · rw [tagged_silent fun hmem => hi (htwo i hmem), hrest i (by omega)]
    rfl

instance (env : Env) (now : Readings) (r : SigningRoom) : Decidable (r.AllActive env now) :=
  inferInstanceAs (Decidable (∀ x ∈ r.memberInfo.values, timedOut env (now x) x = false))

instance (env : Env) (c : SignRecord) : Decidable (c.FindsAllActive env) :=
  inferInstanceAs (Decidable (∀ r ∈ c.before,
    ∀ info ∈ r.memberInfo.lookup c.request.partyNumber, info.partyId = c.request.partyUuid →
    (r.lastStage = .terminated → r.AllActive env c.clock.info) ∧
    (r.lastStage = .signup →
      (r.seat c.request.partyNumber { info with lastPing := c.clock.ping }).Settles env c.clock →
      (r.seat c.request.partyNumber { info with lastPing := c.clock.ping }).AllActive env
        c.clock.info)))

/-- In the prompt history both calls return with two signers. -/
theorem signers_agree_prompt : ∃ m calls tr,
    SystemRun defaultEnv (Codec.ofCountable SigningRoom) pairArgs m calls tr ∧
    SignersAgree calls tr ∧ calls 0 = .returned ⟨1, "u"⟩ 2 ∧ calls 1 = .returned ⟨2, "u"⟩ 2 := by
  obtain ⟨s, hs, hquiet, hactive, hlen, hclients⟩ :
      ∃ s ∈ play defaultEnv roomKey .init promptRequests,
        (∀ c ∈ s.records, ¬ c.AddsToFullRoom defaultEnv) ∧
        (∀ c ∈ s.records, c.FindsAllActive defaultEnv) ∧
        [1, 0, 1, 0].length = s.records.length ∧
        ∀ i < 2, (signup (pairArgs i)).replay
          ((tagged [1, 0, 1, 0] s.records).filterMap (SystemEvent.heardBy i)) =
            some (pairReturned 2 i) := by decide
  obtain ⟨m, hrun⟩ := systemRun_play hs hlen (by decide) hclients
    (fun _ => pairReturned_rest _)
  refine ⟨m, _, _, hrun, signers_agree hrun ?_ ?_, rfl, rfl⟩
  · intro e he d hd
    obtain ⟨i, c, hc, rfl⟩ := mem_tagged he
    obtain rfl := SignEvent.request.inj hd
    exact hquiet _ hc
  · intro e he
    obtain ⟨i, c, hc, rfl⟩ := mem_tagged he
    exact hactive c hc

/-- In the late history the second call returns with one signer. -/
theorem signers_disagree : ¬ ∀ (env : Env) (json : Codec SigningRoom) (args : Nat → SignupArgs)
    (m : ManagerState) (calls : Nat → SignupCall) (tr : List SystemEvent),
    SystemRun env json args m calls tr → SignersAgree calls tr := by
  intro hlaw
  obtain ⟨s, hs, hlen, hclients⟩ :
      ∃ s ∈ play defaultEnv roomKey .init lateRequests,
        [1, 0, 1, 0].length = s.records.length ∧
        ∀ i < 2, (signup (pairArgs i)).replay
          ((tagged [1, 0, 1, 0] s.records).filterMap (SystemEvent.heardBy i)) =
            some (pairReturned 1 i) := by decide
  obtain ⟨m, hrun⟩ := systemRun_play hs hlen (by decide) hclients
    (fun _ => pairReturned_rest _)
  have hagree := (hlaw _ _ _ m _ _ hrun 0 1 _ _ _ _ rfl rfl rfl).1
  exact absurd hagree (by decide)

end TssCli
