import Mathlib.Data.Set.Function
import Mathlib.Order.Interval.Finset.Nat
import TssCli.Room.Closing
import TssCli.Room.Outcome

/-!
# Parties that come back to a room

When all members of the room under a key have timed out, a set `P` of as many
parties as the room has seats comes back: each party sends one fresh sign-up and
then polls, never more than the timeout after its last request, until it has the
room UUID.

While the room is open, the seats are those of the stale members and those of
the parties that have joined.  Nobody of the stale members is active, and
everybody who has joined is.  So the room is closed by the first poll after the
last party has joined, and from then on every poll is answered with the UUID.
-/

namespace TssCli

open AssocValues Transition

/-! ## The parties that come back -/

/-- What the requests for one room have in common. -/
structure RoomSession where
  threshold : UInt16
  roomId : String
  curveName : String

/-- The request of a party, fresh or with the id it was given. -/
def RoomSession.request (q : RoomSession) (p : UInt16) (id : String) : PartySignupRequestBody where
  threshold := q.threshold
  roomId := q.roomId
  partyNumber := p
  partyUuid := id
  curveName := q.curveName

/-- The key of the room. -/
def RoomSession.key (q : RoomSession) : Key := "signup-sign-" ++ q.curveName ++ q.roomId

/-- Where a party stands. -/
inductive PartyState where
  | idle
  /-- It holds `id` and made its last request at `last`. -/
  | waiting (id : String) (last : UInt64)
  /-- It was given the room UUID. -/
  | done (signup : SigningPartySignup)
  | failed
deriving DecidableEq

/-- A party after the answer to a request whose ping was at `now`. -/
def PartyState.after (now : UInt64) : Except Panic SignupAnswer → PartyState
  | .ok (.ok s) => if s.roomUuid = "" then .waiting s.partyUuid now else .done s
  | _ => .failed

theorem PartyState.last_after {now last : UInt64} {id : String} {answer : Except Panic SignupAnswer}
    (h : PartyState.after now answer = .waiting id last) : last = now := by
  unfold PartyState.after at h
  split at h
  next s =>
    split at h
    next => exact (PartyState.waiting.inj h).2.symm
    next => cases h
  next => cases h

/-- The manager and the parties. -/
structure Recovery where
  manager : ManagerState
  parties : UInt16 → PartyState

/-- Nobody has come back at time `t₀`. -/
def Recovery.start (m : ManagerState) (t₀ : UInt64) : Recovery where
  manager := { m with clock := t₀ }
  parties := fun _ => .idle

/-- The party `p` makes a request with `id`. -/
def Recovery.send (env : Env) (json : Codec SigningRoom) (q : RoomSession) (st : Recovery)
    (clock : Clock) (p : UInt16) (id : String) : Recovery where
  manager := (serve env json st.manager clock (q.request p id)).1
  parties := Function.update st.parties p
    (.after clock.ping (serve env json st.manager clock (q.request p id)).2)

/-- At `now` every party that waits made its last request at most the timeout ago. -/
def InTime (env : Env) (parties : UInt16 → PartyState) (now : UInt64) : Prop :=
  ∀ p id last, parties p = .waiting id last →
    now.toNat ≤ last.toNat + env.signupTimeout.toNat

/-- One request of one of the parties `P`. -/
inductive RecoveryStep (env : Env) (json : Codec SigningRoom) (q : RoomSession)
    (P : Finset UInt16) : Recovery → UInt16 → Recovery → Prop where
  | join {st : Recovery} {clock : Clock} {p : UInt16} :
      p ∈ P → st.parties p = .idle → clock.Ordered st.manager.clock →
      InTime env st.parties clock.stop →
      RecoveryStep env json q P st p (st.send env json q clock p "")
  | poll {st : Recovery} {clock : Clock} {p : UInt16} {id : String} {last : UInt64} :
      st.parties p = .waiting id last → clock.Ordered st.manager.clock →
      InTime env st.parties clock.stop →
      RecoveryStep env json q P st p (st.send env json q clock p id)

/-- The parties come back from time `t₀` on. -/
abbrev RecoveryRun (env : Env) (json : Codec SigningRoom) (q : RoomSession) (P : Finset UInt16)
    (m : ManagerState) (t₀ : UInt64) : Recovery → List UInt16 → Prop :=
  Run (fun st => st = Recovery.start m t₀) (RecoveryStep env json q P)

/-- The parties recover the room, in whatever order they make their requests. -/
structure Recovers (env : Env) (json : Codec SigningRoom) (q : RoomSession) (P : Finset UInt16)
    (m : ManagerState) (t₀ : UInt64) : Prop where
  /-- No request is answered with an error. -/
  noError : ∀ st tr, RecoveryRun env json q P m t₀ st tr → ∀ p, st.parties p ≠ .failed
  /-- Once all have joined, the next poll of a party gives it the room UUID. -/
  answered : ∀ st tr p st', RecoveryRun env json q P m t₀ st tr →
    (∀ p ∈ P, st.parties p ≠ .idle) → RecoveryStep env json q P st p st' →
    ∃ s, st'.parties p = .done s
  /-- All are given one UUID, and their orders are a permutation of `1, …, room_size`. -/
  agreed : ∀ st tr, RecoveryRun env json q P m t₀ st tr →
    (∀ p ∈ P, ∃ s, st.parties p = .done s) →
    ∃ u order, u ≠ "" ∧
      (∀ p ∈ P, ∃ s, st.parties p = .done s ∧ s.roomUuid = u ∧ s.partyOrder.toNat = order p) ∧
      Set.BijOn order (P : Set UInt16) (Set.Icc 1 (q.threshold.toNat + 1))

/-- The seats the parties find: those of an open room, none where the room is
missing or closed. -/
def staleSeats : Option SigningRoom → MemberInfo
  | none => ∅
  | some r => if r.lastStage = .signup then r.memberInfo else ∅

/-- The stale seats are in nobody's way: all of them are seats of `P`, or every
party of `P` has one, with an order within the size of the room. -/
def Fits (q : RoomSession) (P : Finset UInt16) (stale : MemberInfo) : Prop :=
  (∀ n info, stale.lookup n = some info → n ∈ P) ∨
  (∀ p ∈ P, ∃ info, stale.lookup p = some info ∧
    1 ≤ info.partyOrder.toNat ∧ info.partyOrder.toNat ≤ q.threshold.toNat + 1)

/-! ## Counting members -/

section

variable {env : Env} {now : Readings} {r : SigningRoom} {J : Finset UInt16}

theorem SigningRoom.activeCount_eq_card
    (hJ : ∀ n, n ∈ J ↔
      ∃ info, r.memberInfo.lookup n = some info ∧ timedOut env (now info) info = false) :
    r.activeCount env now = J.card := by
  refine length_filter_values _ fun n => (hJ n).trans ?_
  simp only [Bool.not_eq_true']

theorem SigningRoom.len_eq_card (hJ : ∀ n, n ∈ J ↔ ∃ info, r.memberInfo.lookup n = some info) :
    r.memberInfo.len = J.card :=
  length_values_eq_card hJ

/-- The members are at most as many as the numbers they are among. -/
theorem SigningRoom.len_le_card (hJ : ∀ n info, r.memberInfo.lookup n = some info → n ∈ J) :
    r.memberInfo.len ≤ J.card := by
  classical
  have hlen : r.memberInfo.len = (J.filter fun n => (r.memberInfo.lookup n).isSome).card := by
    refine len_eq_card fun n => ?_
    rw [Finset.mem_filter, Option.isSome_iff_exists]
    exact ⟨fun h => h.2, fun ⟨info, hl⟩ => ⟨hJ n info hl, info, hl⟩⟩
  rw [hlen]
  exact Finset.card_filter_le _ _

/-- The members are at least as many as the numbers that have a seat. -/
theorem SigningRoom.card_le_len (hJ : ∀ n ∈ J, ∃ info, r.memberInfo.lookup n = some info) :
    J.card ≤ r.memberInfo.len := by
  have hlen : r.memberInfo.len = r.memberInfo.keys.toFinset.card := by
    refine len_eq_card fun n => ?_
    rw [List.mem_toFinset]
    exact mem_iff_lookup
  rw [hlen]
  refine Finset.card_le_card fun n hn => ?_
  obtain ⟨info, hl⟩ := hJ n hn
  exact List.mem_toFinset.mpr (mem_iff_lookup.mpr ⟨info, hl⟩)

theorem SigningRoom.activeCount_le_card
    (hJ : ∀ n info, r.memberInfo.lookup n = some info →
      timedOut env (now info) info = false → n ∈ J) :
    r.activeCount env now ≤ J.card := by
  classical
  have hcount : r.activeCount env now = (J.filter fun n => ∃ info,
      r.memberInfo.lookup n = some info ∧ timedOut env (now info) info = false).card := by
    refine activeCount_eq_card fun n => ?_
    rw [Finset.mem_filter]
    exact ⟨fun h => h.2, fun ⟨info, hl, ha⟩ => ⟨hJ n info hl ha, info, hl, ha⟩⟩
  rw [hcount]
  exact Finset.card_filter_le _ _

end

/-! ## The room while the parties come back -/

/-- What the parties come back to at time `t₀`. -/
structure Comeback (env : Env) (q : RoomSession) (P : Finset UInt16) (stale : MemberInfo)
    (t₀ : UInt64) : Prop where
  timeout : env.signupTimeout.toNat ≤ t₀.toNat
  size : q.threshold.toNat + 1 < UInt16.size
  card : P.card = q.threshold.toNat + 1
  silent : ∀ n info, stale.lookup n = some info → timedOut env t₀ info = true
  fits : Fits q P stale

/-- A time, not before `t₀`, at which the parties are in time. -/
structure Timely (env : Env) (parties : UInt16 → PartyState) (t₀ t : UInt64) : Prop where
  le : t₀ ≤ t
  inTime : InTime env parties t

/-- An order within the size of the room. -/
def InRange (q : RoomSession) (info : SigningPartyInfo) : Prop :=
  1 ≤ info.partyOrder.toNat ∧ info.partyOrder.toNat ≤ q.threshold.toNat + 1

/-- The seat of party number `n` while the room is open. -/
def SeatOpen (P : Finset UInt16) (stale : MemberInfo) (r : SigningRoom) (n : UInt16) :
    PartyState → Prop
  | .idle => r.memberInfo.lookup n = stale.lookup n
  | .waiting id last => n ∈ P ∧ ∃ order, r.memberInfo.lookup n = some ⟨id, order, last⟩ ∧
      ∀ old, stale.lookup n = some old → order = old.partyOrder
  | .done _ => False
  | .failed => False

/-- The seat of party number `n` once the room is closed. -/
def SeatClosed (q : RoomSession) (P : Finset UInt16) (stale : MemberInfo) (r : SigningRoom)
    (n : UInt16) : PartyState → Prop
  | .idle => n ∉ P ∧ r.memberInfo.lookup n = stale.lookup n
  | .waiting id _ => n ∈ P ∧ ∃ info, r.memberInfo.lookup n = some info ∧ info.partyId = id ∧
      InRange q info
  | .done s => n ∈ P ∧ ∃ info, r.memberInfo.lookup n = some info ∧ InRange q info ∧
      s.partyOrder = info.partyOrder ∧ s.roomUuid = r.roomUuid
  | .failed => False

structure OpenRoom (env : Env) (q : RoomSession) (P : Finset UInt16) (stale : MemberInfo)
    (r : SigningRoom) (k : Nat) (parties : UInt16 → PartyState) : Prop where
  isOpen : r.lastStage = .signup
  size : r.roomSize.toNat = q.threshold.toNat + 1
  ok : RoomOk env k r
  seats : ∀ n, SeatOpen P stale r n (parties n)

structure ClosedRoom (env : Env) (q : RoomSession) (P : Finset UInt16) (stale : MemberInfo)
    (r : SigningRoom) (k : Nat) (parties : UInt16 → PartyState) : Prop where
  isClosed : r.lastStage = .terminated
  ok : RoomOk env k r
  seats : ∀ n, SeatClosed q P stale r n (parties n)

section

variable {env : Env} {q : RoomSession} {P : Finset UInt16} {stale : MemberInfo} {t₀ t : UInt64}
  {now : Readings} {clock : Clock} {r : SigningRoom} {k : Nat} {parties : UInt16 → PartyState}

/-- The stale members are timed out from `t₀` on. -/
theorem Comeback.stillTimedOut (h : Comeback env q P stale t₀) (hle : t₀ ≤ t) {n : UInt16}
    {info : SigningPartyInfo} (hl : stale.lookup n = some info) : timedOut env t info = true :=
  timedOut_mono h.timeout (UInt64.le_iff_toNat_le.mp hle) (h.silent n info hl)

theorem Comeback.timeout_le (h : Comeback env q P stale t₀) (hle : t₀ ≤ t) :
    env.signupTimeout.toNat ≤ t.toNat :=
  h.timeout.trans (UInt64.le_iff_toNat_le.mp hle)

theorem Comeback.tells (h : Comeback env q P stale t₀) (hclock : clock.All (t₀ ≤ ·)) :
    clock.All (TellsTimeout env) :=
  hclock.mono fun _ hle => tellsTimeout_of_le (h.timeout_le hle)

/-- While the room is open, a member is active just when it has joined. -/
theorem OpenRoom.active_iff (h : OpenRoom env q P stale r k parties)
    (hc : Comeback env q P stale t₀) (hnow : ∀ x, Timely env parties t₀ (now x)) (n : UInt16) :
    (∃ info, r.memberInfo.lookup n = some info ∧ timedOut env (now info) info = false) ↔
      n ∈ P ∧ parties n ≠ .idle := by
  have hseat := h.seats n
  cases hst : parties n with
  | idle =>
      rw [hst] at hseat
      refine ⟨fun ⟨info, hl, ha⟩ => ?_, fun hn => absurd rfl hn.2⟩
      rw [hc.stillTimedOut (hnow info).le (hseat.symm.trans hl)] at ha
      cases ha
  | waiting id last =>
      rw [hst] at hseat
      obtain ⟨hP, order, hl, -⟩ := hseat
      refine ⟨fun _ => ⟨hP, fun he => by cases he⟩, fun _ => ⟨_, hl, ?_⟩⟩
      rw [← Bool.not_eq_true, timedOut_iff (hc.timeout_le (hnow _).le)]
      exact not_lt_of_ge ((hnow _).inTime n id last hst)
  | done s =>
      rw [hst] at hseat
      exact hseat.elim
  | failed =>
      rw [hst] at hseat
      exact hseat.elim

/-- A party that joins is not refused: where all members are active they are
among the parties that have joined, and these are too few. -/
theorem OpenRoom.notRefused (h : OpenRoom env q P stale r k parties)
    (hc : Comeback env q P stale t₀) (hnow : ∀ x, Timely env parties t₀ (now x)) {p : UInt16}
    (hp : p ∈ P) (hidle : parties p = .idle) :
    ¬ (r.isFull = true ∧ ∀ x ∈ r.memberInfo.values, timedOut env (now x) x = false) := by
  rintro ⟨hfull, hall⟩
  have hsub : ∀ n info, r.memberInfo.lookup n = some info → n ∈ P.erase p := by
    intro n info hl
    obtain ⟨hn, hne⟩ :=
      (h.active_iff hc hnow n).mp ⟨info, hl, hall info (mem_values_of_lookup hl)⟩
    refine Finset.mem_erase.mpr ⟨?_, hn⟩
    rintro rfl
    exact hne hidle
  have hlen := SigningRoom.len_le_card hsub
  rw [Finset.card_erase_of_mem hp, hc.card] at hlen
  have hsize := isFull_iff.mp hfull
  rw [h.size] at hsize
  omega

/-- Only members among `P` or stale ones sit in an open room. -/
theorem OpenRoom.member (h : OpenRoom env q P stale r k parties) {n : UInt16}
    {info : SigningPartyInfo} (hl : r.memberInfo.lookup n = some info) :
    n ∈ P ∨ stale.lookup n = some info := by
  have hseat := h.seats n
  cases hst : parties n with
  | idle =>
      rw [hst] at hseat
      exact Or.inr (hseat.symm.trans hl)
  | waiting id last =>
      rw [hst] at hseat
      exact Or.inl hseat.1
  | done s =>
      rw [hst] at hseat
      exact hseat.elim
  | failed =>
      rw [hst] at hseat
      exact hseat.elim

/-- There is an order left for a party that is added. -/
theorem OpenRoom.len_lt (h : OpenRoom env q P stale r k parties)
    (hc : Comeback env q P stale t₀) {p : UInt16} (hp : p ∈ P)
    (hl : r.memberInfo.lookup p = none) (hidle : parties p = .idle) :
    r.memberInfo.len + 1 < UInt16.size := by
  have hseat := h.seats p
  rw [hidle] at hseat
  rcases hc.fits with hsub | hsup
  · have hmem : ∀ n info, r.memberInfo.lookup n = some info → n ∈ P.erase p := by
      intro n info hn
      refine Finset.mem_erase.mpr ⟨?_, ?_⟩
      · rintro rfl
        rw [hl] at hn
        cases hn
      · rcases h.member hn with hP | hold
        · exact hP
        · exact hsub n info hold
    have hlen := SigningRoom.len_le_card hmem
    rw [Finset.card_erase_of_mem hp, hc.card] at hlen
    have := hc.size
    omega
  · obtain ⟨info, hold, -⟩ := hsup p hp
    rw [← hseat, hl] at hold
    cases hold

/-- A seat changes hands and its party waits. -/
theorem OpenRoom.seat (h : OpenRoom env q P stale r k parties) {k' : Nat} {p : UInt16}
    {id : String} {order : UInt16} (hp : p ∈ P)
    (hok : RoomOk env k' (r.seat p ⟨id, order, t⟩))
    (horder : ∀ old, stale.lookup p = some old → order = old.partyOrder) :
    OpenRoom env q P stale (r.seat p ⟨id, order, t⟩) k'
      (Function.update parties p (.waiting id t)) where
  isOpen := h.isOpen
  size := h.size
  ok := hok
  seats := by
    intro n
    by_cases hn : n = p
    · rw [hn, Function.update_self]
      exact ⟨hp, order, AList.lookup_insert _, horder⟩
    · rw [Function.update_of_ne hn]
      have hlookup : (r.seat p ⟨id, order, t⟩).memberInfo.lookup n = r.memberInfo.lookup n :=
        AList.lookup_insert_ne hn
      have hseat := h.seats n
      cases hst : parties n with
      | idle =>
          rw [hst] at hseat
          exact hlookup.trans hseat
      | waiting id' last =>
          rw [hst] at hseat
          exact ⟨hseat.1, hlookup ▸ hseat.2⟩
      | done s =>
          rw [hst] at hseat
          exact hseat.elim
      | failed =>
          rw [hst] at hseat
          exact hseat.elim

/-- A party joins: it takes over its stale seat or is added. -/
theorem OpenRoom.join (h : OpenRoom env q P stale r k parties) (hc : Comeback env q P stale t₀)
    (hclock : clock.All (Timely env parties t₀)) {p : UInt16} (hp : p ∈ P)
    (hidle : parties p = .idle) {before : Option SigningRoom} {k₀ : Nat}
    (hopens : Opens env clock (q.request p "") before k₀ r k) :
    ∃ order, (signupRoom env clock (q.request p "") before).run k₀ =
        .ok ((.ok ⟨order, env.uuid k, "", 0⟩, some (r.seat p ⟨env.uuid k, order, clock.ping⟩)),
          k + 1) ∧
      OpenRoom env q P stale (r.seat p ⟨env.uuid k, order, clock.ping⟩) (k + 1)
        (Function.update parties p (.waiting (env.uuid k) clock.ping)) := by
  have htells := hc.tells (hclock.mono fun _ ht => ht.le)
  have hnot := h.notRefused hc hclock.active hp hidle
  have hstale : r.memberInfo.lookup p = stale.lookup p := by
    have hseat := h.seats p
    rwa [hidle] at hseat
  rw [signupRoom_opens (q.request p "") htells hc.size hopens]
  cases hl : r.memberInfo.lookup p with
  | some old =>
      have hold := hstale.symm.trans hl
      refine ⟨old.partyOrder, signupParty_replaced (q.request p "") htells rfl hl hnot
        (hc.stillTimedOut hclock.member.le hold) k, h.seat hp ?_ fun old' hold' => ?_⟩
      · refine (h.ok.mono (Nat.le_succ k)).seat_old hl rfl (issued_next env k) (Or.inr fun x hx => ?_)
        exact (h.ok.idsIssued x hx).ne_next (Nat.le_refl k)
      · rw [hold] at hold'
        rw [Option.some.inj hold']
  | none =>
      refine ⟨_, signupParty_added (q.request p "") htells rfl hl hnot
        (h.len_lt hc hp hl hidle) k, h.seat hp (h.ok.seat_new hl) fun old hold => ?_⟩
      rw [← hstale, hl] at hold
      cases hold

theorem InTime.mono {t' : UInt64} (htime : InTime env parties t) (hle : t' ≤ t) :
    InTime env parties t' := fun p id last hw =>
  le_trans (UInt64.le_iff_toNat_le.mp hle) (htime p id last hw)

/-- A request that goes on from `t₀` is handled in time, if the parties are in time when it
is done. -/
theorem InTime.timely (htime : InTime env parties clock.stop) (hclock : clock.Ordered t₀) :
    clock.All (Timely env parties t₀) :=
  hclock.all.mono fun _ ht => ⟨ht.1, htime.mono ht.2⟩

theorem InTime.update (htime : InTime env parties t) {p : UInt16} {x : PartyState}
    (hx : ∀ id last, x = .waiting id last → t.toNat ≤ last.toNat + env.signupTimeout.toNat) :
    InTime env (Function.update parties p x) t := by
  intro n id' last hn
  by_cases hnp : n = p
  · rw [hnp, Function.update_self] at hn
    exact hx id' last hn
  · rw [Function.update_of_ne hnp] at hn
    exact htime n id' last hn

/-- The active members are the parties that have joined. -/
theorem OpenRoom.activeCount (h : OpenRoom env q P stale r k parties)
    (hc : Comeback env q P stale t₀) (hnow : ∀ x, Timely env parties t₀ (now x)) :
    r.activeCount env now = (P.filter fun n => parties n ≠ .idle).card := by
  refine SigningRoom.activeCount_eq_card fun n => ?_
  rw [Finset.mem_filter, h.active_iff hc hnow n]

/-- The room stays open while a party is missing. -/
theorem OpenRoom.settle_open (h : OpenRoom env q P stale r k parties)
    (hc : Comeback env q P stale t₀) (hclock : clock.All (Timely env parties t₀))
    (hidle : ∃ n ∈ P, parties n = .idle) : r.settle env clock = r := by
  obtain ⟨n, hn, hst⟩ := hidle
  have hlt : (P.filter fun n => parties n ≠ .idle).card < P.card := by
    refine Finset.card_lt_card ((Finset.filter_ssubset).mpr ⟨n, hn, fun h => h hst⟩)
  rw [SigningRoom.settle, if_neg]
  rintro ⟨-, henough, -⟩
  rw [h.activeCount hc hclock.enough, h.size] at henough
  have hcard := hc.card
  omega

/-- The first poll after the last party has joined closes the room. -/
theorem OpenRoom.settle_close (h : OpenRoom env q P stale r k parties)
    (hc : Comeback env q P stale t₀) (hclock : clock.All (Timely env parties t₀))
    (hall : ∀ n ∈ P, parties n ≠ .idle) : r.settle env clock = r.close := by
  have hcount : ∀ {now : Readings}, (∀ x, Timely env parties t₀ (now x)) →
      r.roomSize.toNat ≤ r.activeCount env now := by
    intro now hnow
    rw [h.activeCount hc hnow, Finset.filter_true_of_mem hall, hc.card, h.size]
  have hseated : ∀ n ∈ P, ∃ info, r.memberInfo.lookup n = some info := fun n hn =>
    ((h.active_iff hc hclock.enough n).mpr ⟨hn, hall n hn⟩).imp fun _ hi => hi.1
  have hlen := SigningRoom.card_le_len hseated
  rw [hc.card, ← h.size] at hlen
  rw [SigningRoom.settle, if_pos]
  exact ⟨isFull_iff.mpr hlen, hcount hclock.enough, hcount hclock.closing⟩

/-- When all have joined, their orders are within the size of the room. -/
theorem OpenRoom.inRange (h : OpenRoom env q P stale r k parties)
    (hc : Comeback env q P stale t₀) (hall : ∀ n ∈ P, parties n ≠ .idle) {p : UInt16}
    (hp : p ∈ P) {info : SigningPartyInfo} (hl : r.memberInfo.lookup p = some info) :
    InRange q info := by
  rcases hc.fits with hsub | hsup
  · have hmem : ∀ n info, r.memberInfo.lookup n = some info → n ∈ P := fun n info hn =>
      (h.member hn).elim id (hsub n info)
    have hlen := SigningRoom.len_le_card hmem
    rw [hc.card, ← h.size] at hlen
    have hrange := (h.ok.orders_toNat hlen).mem_iff.mp
      (List.mem_map.mpr ⟨info, mem_values_of_lookup hl, rfl⟩)
    rw [List.mem_range'_1] at hrange
    have hsize := h.size
    exact ⟨hrange.1, by omega⟩
  · obtain ⟨old, hold, hrange⟩ := hsup p hp
    have hseat := h.seats p
    cases hst : parties p with
    | idle => exact absurd hst (hall p hp)
    | waiting id last =>
        rw [hst] at hseat
        obtain ⟨-, order, hl', horder⟩ := hseat
        rw [hl] at hl'
        obtain rfl := Option.some.inj hl'
        have he : order = old.partyOrder := horder old hold
        rw [InRange, he]
        exact hrange
    | done s =>
        rw [hst] at hseat
        exact hseat.elim
    | failed =>
        rw [hst] at hseat
        exact hseat.elim

/-- The closed room and the party whose poll closed it. -/
theorem OpenRoom.close (h : OpenRoom env q P stale r k parties) (now : Readings)
    (hc : Comeback env q P stale t₀) (hall : ∀ n ∈ P, parties n ≠ .idle) {p : UInt16}
    (hp : p ∈ P) {info : SigningPartyInfo} (hl : r.memberInfo.lookup p = some info) :
    ClosedRoom env q P stale r.close k
      (Function.update parties p (.done (r.close.infoFor env now info))) where
  isClosed := rfl
  ok := ⟨h.ok.orders, h.ok.idsNodup, h.ok.idsIssued, h.ok.uuidIssued⟩
  seats := by
    intro n
    by_cases hn : n = p
    · rw [hn, Function.update_self]
      exact ⟨hp, info, hl, h.inRange hc hall hp hl, rfl, rfl⟩
    · rw [Function.update_of_ne hn]
      have hseat := h.seats n
      cases hst : parties n with
      | idle =>
          rw [hst] at hseat
          exact ⟨fun hP => hall n hP hst, hseat⟩
      | waiting id last =>
          rw [hst] at hseat
          obtain ⟨hP, order, hl', -⟩ := hseat
          exact ⟨hP, _, hl', rfl, h.inRange hc hall hP hl'⟩
      | done s =>
          rw [hst] at hseat
          exact hseat.elim
      | failed =>
          rw [hst] at hseat
          exact hseat.elim

/-- A party polls the open room.  If a party is missing it waits on, else the
room is closed and the party is done. -/
theorem OpenRoom.poll (h : OpenRoom env q P stale r k parties) (hc : Comeback env q P stale t₀)
    (hclock : clock.All (Timely env parties t₀)) {p : UInt16} {id : String} {last : UInt64}
    (hw : parties p = .waiting id last) (hlast : last ≤ clock.ping) :
    ∃ s r', (signupRoom env clock (q.request p id) (some r)).run k = .ok ((.ok s, some r'), k) ∧
      (((∃ n ∈ P, parties n = .idle) ∧ s.roomUuid = "" ∧ s.partyUuid = id ∧
          OpenRoom env q P stale r' k (Function.update parties p (.waiting id clock.ping))) ∨
        ((∀ n ∈ P, parties n ≠ .idle) ∧ s.roomUuid ≠ "" ∧
          ClosedRoom env q P stale r' k (Function.update parties p (.done s)))) := by
  have htells := hc.tells (hclock.mono fun _ ht => ht.le)
  have hseat := h.seats p
  rw [hw] at hseat
  obtain ⟨hp, order, hl, horder⟩ := hseat
  have hissued : Issued env k id := h.ok.idsIssued ⟨id, order, last⟩ (mem_values_of_lookup hl)
  have hid : id ≠ "" := hissued.ne_empty
  set info : SigningPartyInfo := ⟨id, order, clock.ping⟩ with hinfo
  have hok : RoomOk env k (r.seat p info) :=
    h.ok.seat_old hl rfl hissued (Or.inl rfl)
  have hopen := h.seat hp hok horder
  -- the party is in time with its new ping, since it was with the old one
  have hclock' : clock.All (Timely env (Function.update parties p (.waiting id clock.ping)) t₀) :=
    hclock.mono fun t ht => ⟨ht.le, ht.inTime.update fun id' last' he => by
      obtain ⟨rfl, rfl⟩ := PartyState.waiting.inj he
      have hown := ht.inTime p id last hw
      have hle := UInt64.le_iff_toNat_le.mp hlast
      omega⟩
  have hjoined : ∀ n, Function.update parties p (.waiting id clock.ping) n = .idle ↔
      parties n = .idle := by
    intro n
    by_cases hn : n = p
    · rw [hn, Function.update_self, hw]
      exact ⟨fun he => (by cases he), fun he => (by cases he)⟩
    · rw [Function.update_of_ne hn]
  have hcount : (r.seat p info).activeCount env clock.info < UInt16.size := by
    rw [hopen.activeCount hc hclock'.info]
    have hfilter := Finset.card_filter_le P
      fun n => Function.update parties p (.waiting id clock.ping) n ≠ .idle
    have hcard := hc.card
    have hsize := hc.size
    omega
  refine ⟨_, _, (signupRoom_opens (q.request p id) htells hc.size
    (.stored h.isOpen)).trans
    (signupParty_pinged (q.request p id) htells hid hl rfl hcount k), ?_⟩
  by_cases hmissing : ∃ n ∈ P, parties n = .idle
  · refine Or.inl ⟨hmissing, ?_⟩
    have hsettle := hopen.settle_open hc hclock'
      (hmissing.imp fun n hn => ⟨hn.1, (hjoined n).mpr hn.2⟩)
    have hsettle' : ((r.seat (q.request p id).partyNumber
      { info with lastPing := clock.ping }).settle env clock) = r.seat p info := hsettle
    rw [hsettle']
    refine ⟨?_, rfl, hopen⟩
    rw [SigningRoom.infoFor, hopen.isOpen, if_pos rfl]
  · have hall : ∀ n ∈ P, parties n ≠ .idle := fun n hn he => hmissing ⟨n, hn, he⟩
    have hall' : ∀ n ∈ P, Function.update parties p (.waiting id clock.ping) n ≠ .idle :=
      fun n hn he => hall n hn ((hjoined n).mp he)
    have hsettle : ((r.seat (q.request p id).partyNumber
      { info with lastPing := clock.ping }).settle env clock) = (r.seat p info).close :=
      hopen.settle_close hc hclock' hall'
    have hclose := hopen.close clock.info hc hall' hp (AList.lookup_insert _)
    rw [Function.update_idem] at hclose
    rw [hsettle]
    exact Or.inr ⟨hall, hok.uuidIssued.ne_empty, hclose⟩

/-- A party polls the closed room and is done. -/
theorem ClosedRoom.poll (h : ClosedRoom env q P stale r k parties)
    (hc : Comeback env q P stale t₀) (hclock : clock.All (t₀ ≤ ·)) {p : UInt16} {id : String}
    {last : UInt64} (hw : parties p = .waiting id last) :
    ∃ s, (signupRoom env clock (q.request p id) (some r)).run k = .ok ((.ok s, none), k) ∧
      s.roomUuid ≠ "" ∧ ClosedRoom env q P stale r k (Function.update parties p (.done s)) := by
  have hseat := h.seats p
  rw [hw] at hseat
  obtain ⟨hp, info, hl, hid, hrange⟩ := hseat
  have hcount : r.activeCount env clock.info < UInt16.size := by
    have hle' : r.activeCount env clock.info ≤ P.card := by
      refine SigningRoom.activeCount_le_card fun n info' hl' ha => ?_
      have hseat' := h.seats n
      cases hst : parties n with
      | idle =>
          rw [hst] at hseat'
          rw [hc.stillTimedOut (hclock.info info') (hseat'.2.symm.trans hl')] at ha
          cases ha
      | waiting id last =>
          rw [hst] at hseat'
          exact hseat'.1
      | done s =>
          rw [hst] at hseat'
          exact hseat'.1
      | failed =>
          rw [hst] at hseat'
          exact hseat'.elim
    have hcard := hc.card
    have hsize := hc.size
    omega
  have huuid : (r.infoFor env clock.info info).roomUuid = r.roomUuid := by
    rw [SigningRoom.infoFor, h.isClosed, if_neg (by decide)]
  refine ⟨_, signupRoom_informed (q.request p id) (hc.tells hclock) h.isClosed hl hid hcount k, ?_,
    h.isClosed, h.ok, fun n => ?_⟩
  · rw [huuid]
    exact h.ok.uuidIssued.ne_empty
  · by_cases hn : n = p
    · rw [hn, Function.update_self]
      exact ⟨hp, info, hl, hrange, rfl, huuid⟩
    · rw [Function.update_of_ne hn]
      exact h.seats n

end

end TssCli
