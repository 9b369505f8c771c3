import TssCli.Room.Comeback

/-!
# Recovery of a room

A missing room is created, a closed one is renewed, and in an open one the
parties of `P` take over their old seats or are added.  What goes wrong is that
a stale member outside `P` keeps its seat.  The parties that are added then get
orders past the size of the room (`recovery_fails`).  So the parties recover the
room when no stale member is in their way, or when all of them have a seat of
theirs with an order within the size (`room_recovers`).
-/

namespace TssCli

open AssocValues Transition

/-! ## The invariant of the parties' run -/

/-- What is stored under the key, and how many UUIDs have been drawn. -/
inductive Phase (env : Env) (q : RoomSession) (P : Finset UInt16) (stale : MemberInfo)
    (t₀ : UInt64) (parties : UInt16 → PartyState) : Option SigningRoom → Nat → Prop where
  /-- The open room, or none yet that the first sign-up could not make. -/
  | opened {before : Option SigningRoom} {k k' : Nat} {r : SigningRoom} :
      (∀ clock p, clock.All (t₀ ≤ ·) → Opens env clock (q.request p "") before k r k') →
      OpenRoom env q P stale r k' parties → Phase env q P stale t₀ parties before k
  | closed {r : SigningRoom} {k : Nat} :
      ClosedRoom env q P stale r k parties → Phase env q P stale t₀ parties (some r) k

/-- The invariant. -/
structure RecoveryInv (env : Env) (json : Codec SigningRoom) (q : RoomSession)
    (P : Finset UInt16) (stale : MemberInfo) (t₀ : UInt64) (st : Recovery) : Prop where
  healthy : st.manager.poisoned = false
  clock : t₀ ≤ st.manager.clock
  last : ∀ p id last, st.parties p = .waiting id last → last ≤ st.manager.clock
  phase : ∃ before, readRoom json st.manager.db q.key = .ok before ∧
    Phase env q P stale t₀ st.parties before st.manager.issued

section

variable {env : Env} {json : Codec SigningRoom} {q : RoomSession} {P : Finset UInt16}
  {stale : MemberInfo} {t₀ : UInt64} {st st' : Recovery} {p : UInt16}

/-- What one request leaves behind, when it does not panic. -/
theorem RecoveryInv.sent (h : RecoveryInv env json q P stale t₀ st) {clock : Clock} {id : String}
    {before stored : Option SigningRoom} {s : SigningPartySignup} {k' : Nat}
    (hclock : clock.Ordered st.manager.clock)
    (hread : readRoom json st.manager.db q.key = .ok before)
    (hroom : (signupRoom env clock (q.request p id) before).run st.manager.issued =
      .ok ((.ok s, stored), k'))
    (hphase : Phase env q P stale t₀
      (Function.update st.parties p (.after clock.ping (.ok (.ok s)))) (stored.or before) k') :
    RecoveryInv env json q P stale t₀ (st.send env json q clock p id) ∧
      (st.send env json q clock p id).parties p = .after clock.ping (.ok (.ok s)) := by
  have hsend : st.send env json q clock p id =
      ⟨⟨storeRoom json st.manager.db q.key stored, k', st.manager.poisoned, clock.stop⟩,
        Function.update st.parties p (.after clock.ping (.ok (.ok s)))⟩ := by
    rw [Recovery.send, serve_of_room (q.request p id) h.healthy hread hroom]
    rfl
  rw [hsend]
  refine ⟨⟨h.healthy, UInt64.le_trans h.clock hclock.le_stop, fun n id' last hw => ?_,
    stored.or before, readRoom_storeRoom hread stored, hphase⟩, Function.update_self ..⟩
  dsimp only at hw ⊢
  by_cases hn : n = p
  · subst hn
    rw [Function.update_self] at hw
    rw [PartyState.last_after hw]
    exact hclock.all.ping.2
  · rw [Function.update_of_ne hn] at hw
    exact UInt64.le_trans (h.last n id' last hw) hclock.le_stop

/-- A request keeps the invariant and is not answered with an error, and it is
answered with the room UUID once all have joined. -/
theorem RecoveryInv.step (h : RecoveryInv env json q P stale t₀ st)
    (hc : Comeback env q P stale t₀) (hs : RecoveryStep env json q P st p st') :
    RecoveryInv env json q P stale t₀ st' ∧
      ((∀ n ∈ P, st.parties n ≠ .idle) → ∃ s, st'.parties p = .done s) := by
  obtain ⟨before, hread, hphase⟩ := h.phase
  cases hs with
  | @join clock _ hp hidle hclock htime =>
      have htimely := htime.timely (hclock.of_le h.clock)
      cases hphase with
      | @opened _ _ k' r hopens hopen =>
          obtain ⟨order, hroom, hopen'⟩ :=
            hopen.join hc htimely hp hidle (hopens clock p (htimely.mono fun _ ht => ht.le))
          obtain ⟨hinv, -⟩ := h.sent hclock hread hroom
            (.opened (fun _ _ _ => .stored hopen'.isOpen) hopen')
          exact ⟨hinv, fun hall => absurd hidle (hall p hp)⟩
      | closed hclosed =>
          have hseat := hclosed.seats p
          rw [hidle] at hseat
          exact absurd hp hseat.1
  | @poll clock _ id last hw hclock htime =>
      have htimely := htime.timely (hclock.of_le h.clock)
      have hlast := UInt64.le_trans (h.last p id last hw) hclock.all.ping.1
      cases hphase with
      | @opened _ _ k' r hopens hopen =>
          have hseat := hopen.seats p
          rw [hw] at hseat
          obtain ⟨hp, order, hl, -⟩ := hseat
          -- a room with a member is not a new one
          rcases (hopens clock p (htimely.mono fun _ ht => ht.le)).source with ⟨rfl, rfl⟩ | ⟨rfl, -⟩
          · obtain ⟨s, r', hroom, hcases⟩ := hopen.poll hc htimely hw hlast
            rcases hcases with ⟨⟨n, hn, hmissing⟩, hs, hid, hopen'⟩ | ⟨hall, hs, hclosed⟩
            · have hafter : PartyState.after clock.ping (.ok (.ok s)) = .waiting id clock.ping := by
                rw [PartyState.after, if_pos hs, hid]
              obtain ⟨hinv, -⟩ := h.sent hclock hread hroom (.opened
                (fun _ _ _ => .stored (hafter ▸ hopen').isOpen) (hafter ▸ hopen'))
              exact ⟨hinv, fun hall => absurd hmissing (hall n hn)⟩
            · have hafter : PartyState.after clock.ping (.ok (.ok s)) = .done s := by
                rw [PartyState.after, if_neg hs]
              obtain ⟨hinv, hst⟩ := h.sent hclock hread hroom (.closed (hafter ▸ hclosed))
              exact ⟨hinv, fun _ => ⟨s, hst.trans hafter⟩⟩
          · cases hl
      | closed hclosed =>
          obtain ⟨s, hroom, hs, hclosed'⟩ := hclosed.poll hc (htimely.mono fun _ ht => ht.le) hw
          have hafter : PartyState.after clock.ping (.ok (.ok s)) = .done s := by
            rw [PartyState.after, if_neg hs]
          obtain ⟨hinv, hst⟩ := h.sent hclock hread hroom (.closed (hafter ▸ hclosed'))
          exact ⟨hinv, fun _ => ⟨s, hst.trans hafter⟩⟩

theorem RecoveryInv.seat (h : RecoveryInv env json q P stale t₀ st) (p : UInt16) :
    st.parties p ≠ .failed := by
  intro hst
  obtain ⟨before, -, hphase⟩ := h.phase
  cases hphase with
  | @opened _ _ _ r _ hopen =>
      have hseat := hopen.seats p
      rw [hst] at hseat
      exact hseat.elim
  | closed hclosed =>
      have hseat := hclosed.seats p
      rw [hst] at hseat
      exact hseat.elim

/-- When all are done they agree. -/
theorem RecoveryInv.agreed (h : RecoveryInv env json q P stale t₀ st)
    (hc : Comeback env q P stale t₀) (hdone : ∀ p ∈ P, ∃ s, st.parties p = .done s) :
    ∃ u order, u ≠ "" ∧
      (∀ p ∈ P, ∃ s, st.parties p = .done s ∧ s.roomUuid = u ∧ s.partyOrder.toNat = order p) ∧
      Set.BijOn order (P : Set UInt16) (Set.Icc 1 (q.threshold.toNat + 1)) := by
  obtain ⟨before, -, hphase⟩ := h.phase
  have hcard := hc.card
  cases hphase with
  | opened _ hopen =>
      obtain ⟨p, hp⟩ := Finset.card_pos.mp (by omega : 0 < P.card)
      obtain ⟨s, hst⟩ := hdone p hp
      have hseat := hopen.seats p
      rw [hst] at hseat
      exact hseat.elim
  | @closed r _ hclosed =>
      have hinfo : ∀ p ∈ P, ∃ s info, st.parties p = .done s ∧ r.memberInfo.lookup p = some info ∧
          InRange q info ∧ s.partyOrder = info.partyOrder ∧ s.roomUuid = r.roomUuid := by
        intro p hp
        obtain ⟨s, hst⟩ := hdone p hp
        have hseat := hclosed.seats p
        rw [hst] at hseat
        obtain ⟨-, info, hrest⟩ := hseat
        exact ⟨s, info, hst, hrest⟩
      set order : UInt16 → Nat := fun p =>
        ((r.memberInfo.lookup p).map fun info => info.partyOrder.toNat).getD 0 with horder
      have horder_eq : ∀ {p info}, r.memberInfo.lookup p = some info →
          order p = info.partyOrder.toNat := by
        intro p info hl
        rw [horder]
        dsimp only
        rw [hl]
        rfl
      refine ⟨r.roomUuid, order, hclosed.ok.uuidIssued.ne_empty, fun p hp => ?_, ?_⟩
      · obtain ⟨s, info, hst, hl, -, hs, hu⟩ := hinfo p hp
        exact ⟨s, hst, hu, by rw [hs, horder_eq hl]⟩
      · have hmaps : ∀ p ∈ P, order p ∈ Finset.Icc 1 (q.threshold.toNat + 1) := by
          intro p hp
          obtain ⟨-, info, -, hl, hrange, -⟩ := hinfo p hp
          rw [horder_eq hl]
          exact Finset.mem_Icc.mpr hrange
        have hinj : Set.InjOn order (P : Set UInt16) := by
          intro p hp p' hp' he
          obtain ⟨-, info, -, hl, -⟩ := hinfo p hp
          obtain ⟨-, info', -, hl', -⟩ := hinfo p' hp'
          rw [horder_eq hl, horder_eq hl'] at he
          exact key_eq_of_field (f := SigningPartyInfo.partyOrder) hclosed.ok.orders_nodup hl hl'
            (UInt16.toNat_inj.mp he)
        have hsurj := Finset.surjOn_of_injOn_of_card_le order hmaps hinj
          (by rw [Nat.card_Icc, hc.card]; omega)
        rw [Finset.coe_Icc] at hsurj
        exact ⟨fun p hp => Finset.mem_Icc.mp (hmaps p hp), hinj, hsurj⟩

end

/-! ## The room the parties find -/

section

variable {env : Env} {json : Codec SigningRoom} {m : ManagerState} {tr : List SignEvent}

/-- The map holds nothing but rooms. -/
theorem readRoom_run (h : SignRun env json m tr) (key : Key) :
    readRoom json m.db key = .ok (roomAt json m.db key) := by
  have hstored : ∀ key v, m.db key = some v → ∃ r, v = json.encode r := by
    refine Run.invariant (fun m _ => ∀ key v, m.db key = some v → ∃ r, v = json.encode r) ?_ ?_ h
    · rintro m rfl key v hv
      cases hv
    · intro m e m' tr _ ih hs key v hv
      cases hs with
      | @expired key' =>
          change Function.update m.db key' none key = some v at hv
          by_cases hk : key = key'
          · rw [hk, Function.update_self] at hv
            cases hv
          · rw [Function.update_of_ne hk] at hv
            exact ih key v hv
      | @request clock request _ =>
          unfold serve at hv
          split at hv
          next => exact ih key v hv
          next =>
            split at hv
            next answer db issued hrun =>
              obtain ⟨stored, -, rfl⟩ := signupSign_ok hrun
              cases stored with
              | none => exact ih key v hv
              | some r =>
                  change Function.update m.db (signKey request) (some (json.encode r)) key =
                    some v at hv
                  by_cases hk : key = signKey request
                  · rw [hk, Function.update_self] at hv
                    exact ⟨r, (Option.some.inj hv).symm⟩
                  · rw [Function.update_of_ne hk] at hv
                    exact ih key v hv
            next => exact ih key v hv
  unfold readRoom roomAt
  cases hdb : m.db key with
  | none => rfl
  | some v =>
      obtain ⟨r, rfl⟩ := hstored key v hdb
      rw [Option.bind_some, Codec.decode_encode]
      dsimp only
      rw [Codec.read_encode]
      rfl

/-- A room has the size its first request asked for. -/
theorem Handles.size {c : SignRecord} {k k' : Nat} {answer : SignupAnswer} {r' : SigningRoom}
    (h : Handles env c.clock c.request c.before k (some r') k' answer) :
    (∃ r, c.before = some r ∧ r.roomSize = r'.roomSize) ∨
      r'.roomSize = c.request.threshold + 1 := by
  have key : ∀ {r : SigningRoom} {k₁ : Nat}, Opens env c.clock c.request c.before k r k₁ →
      r.roomSize = r'.roomSize → (∃ r, c.before = some r ∧ r.roomSize = r'.roomSize) ∨
        r'.roomSize = c.request.threshold + 1 := by
    intro r k₁ hopen hr
    rcases hopen.source with ⟨hb, -⟩ | ⟨hf, -⟩
    · exact Or.inl ⟨r, hb, hr⟩
    · refine Or.inr (hr.symm.trans ?_)
      rw [hf]
      rfl
  generalize hb : c.before = before at h key
  cases h with
  | informed => exact Or.inl ⟨r', rfl, rfl⟩
  | turnedAway => exact Or.inl ⟨r', rfl, rfl⟩
  | full => exact Or.inl ⟨r', rfl, rfl⟩
  | unknownUuid => exact Or.inl ⟨r', rfl, rfl⟩
  | stillActive => exact Or.inl ⟨r', rfl, rfl⟩
  | pinged hopen _ _ _ hr' _ =>
      refine key hopen ?_
      rw [hr', SigningRoom.settle_roomSize]
      rfl
  | replaced hopen => exact key hopen rfl
  | added hopen => exact key hopen rfl

/-- Where all requests for a room ask for one size, it has that size. -/
theorem roomSize_run {key : Key} {threshold : UInt16} (h : SignRun env json m tr)
    (hsame : ∀ c, .request c ∈ tr → signKey c.request = key → c.request.threshold = threshold) :
    ∀ r, roomAt json m.db key = some r → r.roomSize = threshold + 1 := by
  refine Run.invariant_of (fun m _ => ∀ r, roomAt json m.db key = some r →
    r.roomSize = threshold + 1)
    (fun e => ∀ c, e = .request c → signKey c.request = key →
      c.request.threshold = threshold) ?_ ?_ h ?_
  · rintro m rfl r hr
    simp [ManagerState.init, roomAt] at hr
  · intro m e m' tr _ ih hok hs r hr
    rcases hs.cases with ⟨_, -, -, hrooms⟩ | ⟨c, p, -, -, -, hdb, -⟩ |
      ⟨c, answer, he, -, hbefore, hafter, hh, hother⟩
    · exact ih r (hrooms key r hr)
    · exact ih r (hdb ▸ hr)
    · by_cases hkey : key = signKey c.request
      · rw [hkey, ← hafter] at hr
        rw [hr] at hh
        rcases hh.size with ⟨r₀, hb, hsize⟩ | hsize
        · rw [← hsize]
          exact ih r₀ (hkey ▸ hbefore ▸ hb)
        · rw [hsize, hok c he hkey.symm]
      · exact ih r (hother key hkey ▸ hr)
  · exact fun e he c hc => hsame c (hc ▸ he)

/-- A room is full when it is closed. -/
theorem isFull_run (h : SignRun env json m tr) :
    ∀ c r, .request c ∈ tr → c.Closes r → r.isFull = true := by
  refine Run.invariant (fun _ tr => ∀ c r, .request c ∈ tr → c.Closes r → r.isFull = true) ?_ ?_ h
  · rintro m rfl c r hc
    cases hc
  · intro m e m' tr _ ih hs c r hc hcl
    cases List.mem_cons.mp hc with
    | inr hc => exact ih c r hc hcl
    | inl he =>
        obtain ⟨answer, -, hh⟩ := hs.closes he.symm hcl
        exact (hh.closed hcl).1

end

/-! ## Recovery -/

section

variable {env : Env} {json : Codec SigningRoom} {q : RoomSession} {P : Finset UInt16}
  {m : ManagerState} {tr : List SignEvent} {t₀ : UInt64}

/-- The parties start from the room of a run. -/
theorem recoveryInv_start (hrun : SignRun env json m tr)
    (hsame : ∀ c, .request c ∈ tr → signKey c.request = q.key →
      c.request.threshold = q.threshold)
    (hhealthy : m.poisoned = false)
    (hsilent : ∀ r, roomAt json m.db q.key = some r →
      ∀ x ∈ r.memberInfo.values, timedOut env t₀ x = true)
    (hc : Comeback env q P (staleSeats (roomAt json m.db q.key)) t₀) :
    RecoveryInv env json q P (staleSeats (roomAt json m.db q.key)) t₀ (.start m t₀) where
  healthy := hhealthy
  clock := UInt64.le_refl t₀
  last _ _ _ hw := by cases hw
  phase := by
    have hsize : (q.threshold + 1).toNat = q.threshold.toNat + 1 := by
      have := hc.size
      have hs : UInt16.size = 65536 := rfl
      rw [UInt16.toNat_add, Nat.mod_eq_of_lt]
      · rfl
      · show q.threshold.toNat + 1 < 65536
        omega
    have hinv := runInv_run hrun
    refine ⟨_, readRoom_run hrun q.key, ?_⟩
    -- an empty room is what a missing or a closed one makes way for
    have fresh : ∀ {before : Option SigningRoom}, staleSeats before = ∅ →
        (∀ clock p, clock.All (t₀ ≤ ·) → Opens env clock (q.request p "") before m.issued
          (SigningRoom.fresh env m.issued q.roomId (q.threshold + 1)) (m.issued + 1)) →
        Phase env q P (staleSeats before) t₀ (fun _ => .idle) before m.issued := by
      intro before hstale hopens
      refine .opened hopens ⟨rfl, hsize, roomOk_fresh .., fun n => ?_⟩
      rw [hstale]
      rfl
    cases hb : roomAt json m.db q.key with
    | none => exact fresh rfl fun _ _ _ => .created
    | some r =>
        cases hstage : r.lastStage with
        | signup =>
            refine .opened (fun _ _ _ => .stored hstage) ⟨hstage, ?_, hinv.roomOk _ r hb, fun n => ?_⟩
            · rw [roomSize_run hrun hsame r hb, hsize]
            · show r.memberInfo.lookup n = (staleSeats (some r)).lookup n
              rw [staleSeats, if_pos hstage]
        | terminated =>
            refine fresh ?_ fun clock p hclock => ?_
            · rw [staleSeats, hstage]
              rfl
            · obtain ⟨c, hcmem, hcl⟩ := hinv.logged _ r hb hstage
              refine .renewed hstage ?_ (isFull_run hrun c r hcmem hcl) fun x hx => ?_
              · refine Bool.eq_false_iff.mpr fun hmem => ?_
                obtain ⟨info, hl, hid⟩ := SigningRoom.hasMember_iff.mp hmem
                exact ((hinv.roomOk _ r hb).idsIssued info (mem_values_of_lookup hl)).ne_empty hid
              · exact timedOut_mono hc.timeout (UInt64.le_iff_toNat_le.mp (hclock.inactive x))
                  (hsilent r hb x hx)

/-- From any reachable state of the room in which all members have timed out, a set
of `room_size` parties that no stale seat stands in the way of recovers the room. -/
theorem room_recovers (hrun : SignRun env json m tr)
    (hsame : ∀ c, .request c ∈ tr → signKey c.request = q.key →
      c.request.threshold = q.threshold)
    (hsize : q.threshold.toNat + 1 < UInt16.size) (hcard : P.card = q.threshold.toNat + 1)
    (hsilent : ∀ r, roomAt json m.db q.key = some r →
      ∀ x ∈ r.memberInfo.values, timedOut env t₀ x = true)
    (htimeout : env.signupTimeout.toNat ≤ t₀.toNat) (hhealthy : m.poisoned = false)
    (hfits : Fits q P (staleSeats (roomAt json m.db q.key))) :
    Recovers env json q P m t₀ := by
  have hc : Comeback env q P (staleSeats (roomAt json m.db q.key)) t₀ := by
    refine ⟨htimeout, hsize, hcard, fun n info hl => ?_, hfits⟩
    cases hb : roomAt json m.db q.key with
    | none =>
        rw [hb] at hl
        cases hl
    | some r =>
        rw [hb, staleSeats] at hl
        split at hl
        · exact hsilent r hb info (mem_values_of_lookup hl)
        · cases hl
  have hinv : ∀ st tr', RecoveryRun env json q P m t₀ st tr' →
      RecoveryInv env json q P (staleSeats (roomAt json m.db q.key)) t₀ st := by
    intro st tr' h
    refine Run.invariant (fun st _ => RecoveryInv env json q P _ t₀ st) ?_ ?_ h
    · rintro st rfl
      exact recoveryInv_start hrun hsame hhealthy hsilent hc
    · intro st p st' tr' _ hi hs
      exact (hi.step hc hs).1
  constructor
  · intro st tr' h p
    exact (hinv st tr' h).seat p
  · intro st tr' p st' h hall hs
    exact ((hinv st tr' h).step hc hs).2 hall
  · intro st tr' h hdone
    exact (hinv st tr' h).agreed hc hdone

end

/-! ## Two comebacks -/

/-- A state of the parties' run, seen from the room. -/
structure Recovery.At (json : Codec SigningRoom) (q : RoomSession) (st : Recovery)
    (before : Option SigningRoom) (k : Nat) (t : UInt64) (parties : UInt16 → PartyState) :
    Prop where
  healthy : st.manager.poisoned = false
  read : readRoom json st.manager.db q.key = .ok before
  issued : st.manager.issued = k
  clock : st.manager.clock = t
  states : st.parties = parties

section

variable {env : Env} {json : Codec SigningRoom} {q : RoomSession} {P : Finset UInt16}
  {st : Recovery} {before stored : Option SigningRoom} {k k' : Nat} {t now : UInt64}
  {parties : UInt16 → PartyState}

theorem Recovery.At.send (h : st.At json q before k t parties) {p : UInt16} {id : String}
    {answer : SignupAnswer}
    (hroom : (signupRoom env now (q.request p id) before).run k = .ok ((answer, stored), k')) :
    (st.send env json q now p id).At json q (stored.or before) k' now
      (Function.update parties p (.after now (.ok answer))) := by
  have hserve := serve_of_room (q.request p id) h.healthy h.read (h.issued ▸ hroom)
  unfold Recovery.send
  rw [hserve, h.states]
  exact ⟨h.healthy, readRoom_storeRoom h.read stored, rfl, rfl, rfl⟩

theorem Recovery.At.join (h : st.At json q before k t parties) {p : UInt16} (hp : p ∈ P)
    (hidle : parties p = .idle) (ht : t ≤ now) (htime : InTime env parties now) :
    RecoveryStep env json q P st p (st.send env json q now p "") :=
  .join hp (h.states ▸ hidle) (Clock.ordered_steady (h.clock ▸ ht)) (h.states ▸ htime)

theorem Recovery.At.poll (h : st.At json q before k t parties) {p : UInt16} {id : String}
    {last : UInt64} (hw : parties p = .waiting id last) (ht : t ≤ now)
    (htime : InTime env parties now) :
    RecoveryStep env json q P st p (st.send env json q now p id) :=
  .poll (h.states ▸ hw) (Clock.ordered_steady (h.clock ▸ ht)) (h.states ▸ htime)

end

def pairSession : RoomSession where
  threshold := 1
  roomId := "m"
  curveName := "ECDSA"

/-- A party has joined the room and fallen silent. -/
theorem silent_play (p : UInt16) : ∃ m tr,
    SignRun defaultEnv (Codec.ofCountable SigningRoom) m tr ∧ m.poisoned = false ∧
    (∀ c, .request c ∈ tr → signKey c.request = pairSession.key →
      c.request.threshold = pairSession.threshold) ∧
    readRoom (Codec.ofCountable SigningRoom) m.db pairSession.key =
      .ok (some ((SigningRoom.fresh defaultEnv 0 "m" 2).seat p ⟨"uu", 1, 10⟩)) ∧
    m.issued = 2 := by
  have hplay : play defaultEnv roomKey .init [(10, requestOf p "")] = some
      { records := [⟨(10 : UInt64), requestOf p "", none,
          some ((SigningRoom.fresh defaultEnv 0 "m" 2).seat p ⟨"uu", 1, 10⟩),
          .ok (.ok ⟨1, "uu", "", 0⟩)⟩],
        room := some ((SigningRoom.fresh defaultEnv 0 "m" 2).seat p ⟨"uu", 1, 10⟩),
        issued := 2, clock := 10 } := by
    rfl
  obtain ⟨m, hrun, hdb, hissued, hhealthy, -⟩ := reaches_play
    (reaches_init (Codec.ofCountable SigningRoom)) hplay
  refine ⟨m, _, hrun, hhealthy, fun c hc _ => ?_, ?_, hissued⟩
  · obtain ⟨c', hc', he⟩ := List.mem_map.mp hc
    obtain rfl := SignEvent.request.inj he
    rw [List.mem_singleton.mp hc']
    rfl
  · unfold readRoom
    rw [show pairSession.key = roomKey from rfl, hdb]
    simp

/-- The member of `silent_play` at time `13`. -/
theorem silent_timedOut (p : UInt16) : ∀ x ∈ MemberInfo.values
    ((SigningRoom.fresh defaultEnv 0 "m" 2).seat p ⟨"uu", 1, 10⟩).memberInfo,
    timedOut defaultEnv 13 x = true := by
  intro x hx
  have hval : MemberInfo.values ((SigningRoom.fresh defaultEnv 0 "m" 2).seat p
    ⟨"uu", 1, 10⟩).memberInfo = [⟨"uu", 1, 10⟩] := rfl
  rw [hval] at hx
  rw [List.mem_singleton.mp hx]
  decide

/-- Party `1` fell silent; parties `1` and `2` recover the room. -/
theorem room_recovers_pair : ∃ m tr,
    SignRun defaultEnv (Codec.ofCountable SigningRoom) m tr ∧
    (roomAt (Codec.ofCountable SigningRoom) m.db pairSession.key).isSome = true ∧
    Recovers defaultEnv (Codec.ofCountable SigningRoom) pairSession {1, 2} m 13 := by
  obtain ⟨m, tr, hrun, hhealthy, hsame, hread, -⟩ := silent_play 1
  have hroom := readRoom_ok hread
  refine ⟨m, tr, hrun, by rw [← hroom]; rfl, room_recovers hrun hsame (by decide) (by decide)
    (fun r hr => ?_) (by decide) hhealthy ?_⟩
  · rw [← hroom] at hr
    obtain rfl := Option.some.inj hr
    exact silent_timedOut 1
  · rw [← hroom]
    refine Or.inl fun n info hl => ?_
    by_cases hn : n = 1
    · rw [hn]
      decide
    · have hnone := (AList.lookup_insert_ne hn).symm.trans hl
      cases hnone

/-- The room that party `3` left behind, and the same when `1` and `2` have joined. -/
def leftRoom : SigningRoom := (SigningRoom.fresh defaultEnv 0 "m" 2).seat 3 ⟨"uu", 1, 10⟩

def joinedRoom : SigningRoom := (leftRoom.seat 1 ⟨"uuu", 2, 13⟩).seat 2 ⟨"uuuu", 3, 13⟩

/-- Both join and poll, all at time `13`. -/
theorem pair_done {json : Codec SigningRoom} {m : ManagerState}
    (h₀ : (Recovery.start m 13).At json pairSession (some leftRoom) 2 13 fun _ => .idle) :
    ∃ st tr, RecoveryRun defaultEnv json pairSession {1, 2} m 13 st tr ∧
      st.parties 1 = .done ⟨2, "uuu", "u", 2⟩ ∧ st.parties 2 = .done ⟨3, "uuuu", "u", 2⟩ := by
  have e₁ : (signupRoom defaultEnv (13 : UInt64) (pairSession.request 1 "") (some leftRoom)).run 2 =
      .ok ((.ok ⟨2, "uuu", "", 0⟩, some (leftRoom.seat 1 ⟨"uuu", 2, 13⟩)), 3) := rfl
  have e₂ : (signupRoom defaultEnv (13 : UInt64) (pairSession.request 2 "")
      (some (leftRoom.seat 1 ⟨"uuu", 2, 13⟩))).run 3 =
      .ok ((.ok ⟨3, "uuuu", "", 0⟩, some joinedRoom), 4) := rfl
  have e₃ : (signupRoom defaultEnv (13 : UInt64) (pairSession.request 1 "uuu")
      (some joinedRoom)).run 4 =
      .ok ((.ok ⟨2, "uuu", "u", 2⟩, some (joinedRoom.seat 1 ⟨"uuu", 2, 13⟩).close), 4) := rfl
  have e₄ : (signupRoom defaultEnv (13 : UInt64) (pairSession.request 2 "uuuu")
      (some (joinedRoom.seat 1 ⟨"uuu", 2, 13⟩).close)).run 4 =
      .ok ((.ok ⟨3, "uuuu", "u", 2⟩, none), 4) := rfl
  have h₁ := h₀.send e₁
  have h₂ := h₁.send e₂
  have h₃ := h₂.send e₃
  have h₄ := h₃.send e₄
  have t₀ : InTime defaultEnv (fun _ => PartyState.idle) 13 := fun _ _ _ h => by cases h
  have t₁ := t₀.update (p := 1) (x := .waiting "uuu" 13) fun _ _ h => by
    rw [← (PartyState.waiting.inj h).2]
    decide
  have t₂ := t₁.update (p := 2) (x := .waiting "uuuu" 13) fun _ _ h => by
    rw [← (PartyState.waiting.inj h).2]
    decide
  have t₃ := t₂.update (p := 1) (x := .done ⟨2, "uuu", "u", 2⟩) fun _ _ h => by cases h
  have hle : (13 : UInt64) ≤ 13 := UInt64.le_refl 13
  have hstart : RecoveryRun defaultEnv json pairSession {1, 2} m 13 (.start m 13) [] := .start rfl
  have hjoined := (hstart.snoc (h₀.join (p := 1) (by decide) rfl hle t₀)).snoc
    (h₁.join (p := 2) (by decide) rfl hle t₁)
  have hpolled := (hjoined.snoc (h₂.poll (p := 1) rfl hle t₂)).snoc (h₃.poll (p := 2) rfl hle t₃)
  refine ⟨_, _, hpolled, ?_, ?_⟩
  · rw [h₄.states]
    rfl
  · rw [h₄.states]
    rfl

/-- Party `3` fell silent; parties `1` and `2` are added behind it, and one of
them gets the order `3` in a room for two. -/
theorem recovery_fails : ¬ ∀ (env : Env) (json : Codec SigningRoom) (q : RoomSession)
    (P : Finset UInt16) (m : ManagerState) (tr : List SignEvent) (t₀ : UInt64),
    SignRun env json m tr →
    (∀ c, .request c ∈ tr → signKey c.request = q.key → c.request.threshold = q.threshold) →
    q.threshold.toNat + 1 < UInt16.size → P.card = q.threshold.toNat + 1 →
    (∀ r, roomAt json m.db q.key = some r →
      ∀ x ∈ r.memberInfo.values, timedOut env t₀ x = true) →
    env.signupTimeout.toNat ≤ t₀.toNat → m.poisoned = false →
    Recovers env json q P m t₀ := by
  intro hlaw
  obtain ⟨m, tr, hrun, hhealthy, hsame, hread, hissued⟩ := silent_play 3
  have hroom := readRoom_ok hread
  have hrec := hlaw _ _ pairSession {1, 2} m tr 13 hrun hsame (by decide) (by decide)
    (fun r hr => by
      rw [← hroom] at hr
      obtain rfl := Option.some.inj hr
      exact silent_timedOut 3) (by decide) hhealthy
  obtain ⟨st, tr', hrun', h1, h2⟩ := pair_done ⟨hhealthy, hread, hissued, rfl, rfl⟩
  have hdone : ∀ p ∈ ({1, 2} : Finset UInt16), ∃ s, st.parties p = .done s := by
    intro p hp
    rcases Finset.mem_insert.mp hp with rfl | hp
    · exact ⟨_, h1⟩
    · rw [Finset.mem_singleton.mp hp]
      exact ⟨_, h2⟩
  obtain ⟨u, order, -, hseats, hbij⟩ := hrec.agreed st tr' hrun' hdone
  obtain ⟨s, hs, -, horder⟩ := hseats 2 (by decide)
  rw [h2] at hs
  obtain rfl := PartyState.done.inj hs
  have hrange : order 2 ≤ 2 := (hbij.mapsTo (by decide : (2 : UInt16) ∈ ({1, 2} : Finset UInt16))).2
  rw [← horder] at hrange
  exact absurd hrange (by decide)

end TssCli
