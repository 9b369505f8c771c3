import TssCli.Room.Run

/-!
# One holder per seat

A room UUID is handed out from the one room closed under it, and in a
well-formed room the orders, the party UUIDs and the party numbers determine
each other.  So the answers that carry a room UUID relate the three one-to-one.

A member whose seat was renewed has lost its UUID for good.  A UUID that was
drawn before a request can sit in the room afterwards only where it sat before
(`Handles.seats`), so it does not return to the room, and it is not there when
the room is closed.
-/

namespace TssCli

open AssocValues Transition

/-- The record's request gave a seat of the room `roomUuid`, held by `partyId`,
to another id. -/
def SignRecord.Replaces (c : SignRecord) (roomUuid partyId : String) : Prop :=
  ∃ r r' n old new, c.before = some r ∧ c.after = some r' ∧
    r.roomUuid = roomUuid ∧ r'.roomUuid = roomUuid ∧
    r.memberInfo.lookup n = some old ∧ old.partyId = partyId ∧
    r'.memberInfo.lookup n = some new ∧ new.partyId ≠ partyId

/-- `partyId` holds no seat of the room. -/
def SigningRoom.Lacks (r : SigningRoom) (partyId : String) : Prop :=
  ∀ n info, r.memberInfo.lookup n = some info → info.partyId ≠ partyId

/-! ## Seats across one request -/

section

variable {env : Env} {clock : Clock} {request : PartySignupRequestBody}
  {before : Option SigningRoom} {r' : SigningRoom} {k k' : Nat} {answer : SignupAnswer}

/-- The holder of a seat held it before, or is new. -/
theorem Handles.seats (h : Handles env clock request before k (some r') k' answer)
    {n : UInt16} {info : SigningPartyInfo} (hl : r'.memberInfo.lookup n = some info) :
    (∃ r old, before = some r ∧ r.memberInfo.lookup n = some old ∧ old.partyId = info.partyId) ∨
      ∃ j, k ≤ j ∧ info.partyId = env.uuid j := by
  have opened : ∀ {r : SigningRoom} {k₁ : Nat} {old : SigningPartyInfo},
      Opens env clock request before k r k₁ → r.memberInfo.lookup n = some old →
      old.partyId = info.partyId →
      ∃ r old, before = some r ∧ r.memberInfo.lookup n = some old ∧
        old.partyId = info.partyId := by
    intro r k₁ old hopen hold hid
    rcases hopen.source with ⟨hb, -⟩ | ⟨rfl, -⟩
    · exact ⟨r, old, hb, hold, hid⟩
    · cases hold
  have seated : ∀ {r : SigningRoom} {k₁ : Nat} {new : SigningPartyInfo},
      Opens env clock request before k r k₁ →
      (r.memberInfo.insert request.partyNumber new).lookup n = some info →
      (∃ r old, before = some r ∧ r.memberInfo.lookup n = some old ∧
        old.partyId = info.partyId) ∨ (n = request.partyNumber ∧ new = info) := by
    intro r k₁ new hopen hnew
    by_cases hn : n = request.partyNumber
    · rw [hn, AList.lookup_insert] at hnew
      exact Or.inr ⟨hn, Option.some.inj hnew⟩
    · rw [AList.lookup_insert_ne hn] at hnew
      exact Or.inl (opened hopen hnew rfl)
  cases h with
  | informed => exact Or.inl ⟨r', info, rfl, hl, rfl⟩
  | turnedAway => exact Or.inl ⟨r', info, rfl, hl, rfl⟩
  | full => exact Or.inl ⟨r', info, rfl, hl, rfl⟩
  | unknownUuid => exact Or.inl ⟨r', info, rfl, hl, rfl⟩
  | stillActive => exact Or.inl ⟨r', info, rfl, hl, rfl⟩
  | pinged hopen _ hold _ hr' _ =>
      rw [hr', SigningRoom.settle_memberInfo] at hl
      rcases seated hopen hl with hs | ⟨hn, hnew⟩
      · exact Or.inl hs
      · rw [← hn] at hold
        exact Or.inl (opened hopen hold (by rw [← hnew]))
  | replaced hopen =>
      rcases seated hopen hl with hs | ⟨-, hnew⟩
      · exact Or.inl hs
      · exact Or.inr ⟨_, hopen.le, by rw [← hnew]⟩
  | added hopen =>
      rcases seated hopen hl with hs | ⟨-, hnew⟩
      · exact Or.inl hs
      · exact Or.inr ⟨_, hopen.le, by rw [← hnew]⟩

/-- An id drawn earlier that holds no seat does not come to hold one. -/
theorem Handles.lacks (h : Handles env clock request before k (some r') k' answer)
    {partyId : String} (hissued : Issued env k partyId)
    (hbefore : ∀ r, before = some r → r.Lacks partyId) : r'.Lacks partyId := by
  intro n info hl hid
  rcases h.seats hl with ⟨r, old, hb, hold, he⟩ | ⟨j, hj, he⟩
  · exact hbefore r hb n old hold (he.trans hid)
  · exact hissued.ne_next hj (hid.symm.trans he)

end

/-- A replaced id holds no seat afterwards. -/
theorem Handles.replaces_lacks {env : Env} {c : SignRecord} {k k' : Nat} {answer : SignupAnswer}
    {r' : SigningRoom} {roomUuid partyId : String}
    (h : Handles env c.clock c.request c.before k c.after k' answer)
    (hok : ∀ b, c.before = some b → RoomOk env k b) (hrep : c.Replaces roomUuid partyId)
    (hafter : c.after = some r') : r'.Lacks partyId := by
  obtain ⟨r, r₁, n, old, new, hb, ha, -, -, hold, rfl, hnew, hne⟩ := hrep
  rw [hafter] at ha
  obtain rfl := Option.some.inj ha
  rw [hafter] at h
  have hr := hok r hb
  intro n' info hl hid
  rcases h.seats hl with ⟨r₂, old', hb', hold', he⟩ | ⟨j, hj, he⟩
  · rw [hb] at hb'
    obtain rfl := Option.some.inj hb'
    obtain rfl : n = n' :=
      key_eq_of_field (f := SigningPartyInfo.partyId) hr.idsNodup hold hold' (hid.symm.trans he.symm)
    rw [hnew] at hl
    exact hne (Option.some.inj hl ▸ hid)
  · have hissued := hr.idsIssued old (mem_values_of_lookup hold)
    exact hissued.ne_next hj (hid.symm.trans he)

/-! ## Replaced for good -/

/-- Every id replaced in a room is gone from it, and from the room closed under
its UUID. -/
structure SeatInv (env : Env) (json : Codec SigningRoom) (m : ManagerState)
    (tr : List SignEvent) : Prop where
  issued : ∀ c u x, .request c ∈ tr → c.Replaces u x → Issued env m.issued u ∧ Issued env m.issued x
  stored : ∀ c u x, .request c ∈ tr → c.Replaces u x →
    ∀ key r, roomAt json m.db key = some r → r.roomUuid = u → r.Lacks x
  closed : ∀ c u x, .request c ∈ tr → c.Replaces u x →
    ∀ d r, .request d ∈ tr → d.Closes r → r.roomUuid = u → r.Lacks x

section

variable {env : Env} {json : Codec SigningRoom} {m m' : ManagerState} {tr : List SignEvent}
  {e : SignEvent} {c : SignRecord} {answer : SignupAnswer}

theorem not_replaces_of_eq (h : c.before = c.after) (u x : String) : ¬ c.Replaces u x := by
  rintro ⟨r, r', n, old, new, hb, ha, -, -, hold, hx, hnew, hne⟩
  rw [h, ha] at hb
  obtain rfl := Option.some.inj hb
  rw [hold] at hnew
  exact hne (Option.some.inj hnew ▸ hx)

/-- A room in which an id is replaced has not been closed yet. -/
theorem RunInv.replaces_open (h : RunInv env json m tr)
    (hbefore : c.before = roomAt json m.db (signKey c.request))
    (hh : Handles env c.clock c.request c.before m.issued c.after m'.issued answer)
    {u x : String} (hrep : c.Replaces u x) :
    ∀ d r, .request d ∈ tr → d.Closes r → r.roomUuid ≠ u := by
  have hne : c.before ≠ c.after := fun he => not_replaces_of_eq he u x hrep
  obtain ⟨r, r', n, old, new, hb, ha, hu, hu', -⟩ := hrep
  intro d r₁ hd hdr hu₁
  cases hstage : r.lastStage with
  | signup => exact h.unlogged _ r (hbefore ▸ hb) hstage d r₁ hd hdr (hu₁.trans hu.symm)
  | terminated =>
      have hh' := hh
      rw [hb] at hh'
      rcases hh'.frozen hstage with he | ⟨r₂, he, hu₂, -⟩
      · exact hne (hb.trans he.symm)
      · rw [ha] at he
        obtain rfl := Option.some.inj he
        have hissued := (h.roomOk _ r (hbefore ▸ hb)).uuidIssued
        exact hissued.ne_next (Nat.le_refl _) (hu.trans (hu'.symm.trans hu₂))

theorem seatInv_init : SeatInv env json ManagerState.init [] where
  issued := by intro c u x hc; cases hc
  stored := by intro c u x hc; cases hc
  closed := by intro c u x hc; cases hc

/-- A step that replaces nobody, closes nothing and adds no room keeps the invariant. -/
theorem SeatInv.weaken (h : SeatInv env json m tr) (hissued : m'.issued = m.issued)
    (hrooms : ∀ key r, roomAt json m'.db key = some r → roomAt json m.db key = some r)
    (hquiet : ∀ c, e = .request c → c.before = c.after) : SeatInv env json m' (e :: tr) := by
  have replaced : ∀ {c u x}, SignEvent.request c ∈ e :: tr → c.Replaces u x → .request c ∈ tr := by
    intro c u x hc hrep
    exact List.mem_of_ne_of_mem (fun he => not_replaces_of_eq (hquiet c he.symm) u x hrep) hc
  constructor
  · intro c u x hc hrep
    rw [hissued]
    exact h.issued c u x (replaced hc hrep) hrep
  · intro c u x hc hrep key r hr
    exact h.stored c u x (replaced hc hrep) hrep key r (hrooms key r hr)
  · intro c u x hc hrep d r hd hdr
    have hold := List.mem_of_ne_of_mem (fun he => not_closes_of_eq (hquiet d he.symm) hdr) hd
    exact h.closed c u x (replaced hc hrep) hrep d r hold hdr

/-- A handled request keeps the invariant. -/
theorem SeatInv.handled (h : SeatInv env json m tr) (hrun : RunInv env json m tr)
    (hbefore : c.before = roomAt json m.db (signKey c.request))
    (hafter : c.after = roomAt json m'.db (signKey c.request))
    (hh : Handles env c.clock c.request c.before m.issued c.after m'.issued answer)
    (hother : ∀ key, key ≠ signKey c.request → roomAt json m'.db key = roomAt json m.db key) :
    SeatInv env json m' (.request c :: tr) := by
  have hle := hh.le
  have hok : ∀ b, c.before = some b → RoomOk env m.issued b := fun _ hb => hrun.before_ok hbefore hb
  have stored : ∀ d u x, .request d ∈ .request c :: tr → d.Replaces u x →
      ∀ key r, roomAt json m'.db key = some r → r.roomUuid = u → r.Lacks x := by
    intro d u x hd hrep key r hr hu
    rcases room_after hafter hother hr with ⟨-, hr⟩ | ⟨hkey, hr⟩ <;>
      rcases mem_requests hd with rfl | ht
    · exact hh.replaces_lacks hok hrep hr
    · obtain ⟨huIssued, hxIssued⟩ := h.issued d u x ht hrep
      have hh' := hr ▸ hh
      refine hh'.lacks hxIssued fun b hb => ?_
      rcases hh'.uuid with ⟨b', hb', hbu⟩ | ⟨hnew, -⟩
      · rw [hb] at hb'
        obtain rfl := Option.some.inj hb'
        exact h.stored d u x ht hrep _ b (hbefore ▸ hb) (hbu.trans hu)
      · exact absurd (hu.symm.trans hnew) (huIssued.ne_next (Nat.le_refl _))
    · obtain ⟨r₀, -, -, -, -, hb, -, hu₀, -⟩ := hrep
      exact absurd (hrun.apart key _ r r₀ hr (hbefore ▸ hb) (hu.trans hu₀.symm)) hkey
    · exact h.stored d u x ht hrep key r hr hu
  constructor
  · intro d u x hd hrep
    rcases mem_requests hd with rfl | ht
    · obtain ⟨r, -, n, old, -, hb, -, rfl, -, hold, rfl, -⟩ := hrep
      exact ⟨(hok r hb).uuidIssued.mono hle,
        ((hok r hb).idsIssued old (mem_values_of_lookup hold)).mono hle⟩
    · obtain ⟨hu, hx⟩ := h.issued d u x ht hrep
      exact ⟨hu.mono hle, hx.mono hle⟩
  · exact stored
  · intro d u x hd hrep d' r hd' hdr hu
    rcases mem_requests hd' with rfl | ht'
    · obtain ⟨-, -, -, ha, -⟩ := hdr
      exact stored d u x hd hrep _ r (hafter ▸ ha) hu
    · rcases mem_requests hd with rfl | ht
      · exact absurd hu (hrun.replaces_open hbefore hh hrep d' r ht' hdr)
      · exact h.closed d u x ht hrep d' r ht' hdr hu

/-- Every run keeps the invariant. -/
theorem seatInv_run (h : SignRun env json m tr) : SeatInv env json m tr := by
  induction h with
  | start h0 =>
      obtain rfl := h0
      exact seatInv_init
  | @snoc m m' e tr hrun hs ih =>
      have hinv := runInv_run hrun
      rcases hs.cases with ⟨key, rfl, hissued, hrooms⟩ | ⟨c, p, rfl, -, hba, hdb, hissued⟩ |
        ⟨c, answer, rfl, -, hbefore, hafter, hh, hother⟩
      · exact ih.weaken hissued hrooms fun _ he => by cases he
      · refine ih.weaken hissued (fun key r hr => hdb ▸ hr) fun c' he => ?_
        obtain rfl := SignEvent.request.inj he
        exact hba
      · exact ih.handled hinv hbefore hafter hh hother

/-! ## The law -/

/-- Two answers with one room UUID read seats of one well-formed room. -/
theorem RunInv.sameRoom (h : RunInv env json m tr) {c c' : SignRecord}
    {s s' : SigningPartySignup} (hc : .request c ∈ tr) (hc' : .request c' ∈ tr)
    (hs : c.Answers s) (hs' : c'.Answers s') (hne : s.roomUuid ≠ "")
    (hu : s.roomUuid = s'.roomUuid) :
    ∃ r info info', RoomOk env m.issued r ∧ c.Reads env s r info ∧ c'.Reads env s' r info' := by
  obtain ⟨d, r, info, hd, hdr, hread⟩ := h.answered c s hc hs hne
  obtain ⟨d', r', info', hd', hdr', hread'⟩ := h.answered c' s' hc' hs' (hu ▸ hne)
  have hru : r.roomUuid = r'.roomUuid := hread.roomUuid.trans (hu.trans hread'.roomUuid.symm)
  obtain rfl := h.closedOnce d d' r r' hd hd' hdr hdr' hru
  exact ⟨r, info, info', h.closedOk d r hd hdr, hread, hread'⟩

/-- Among the answers that carry one room UUID, the party UUID, the party number
and the party order determine each other; every such answer goes to the holder of
its party UUID; and an id whose seat in the room was given to another one gets
no such answer. -/
theorem one_holder (h : SignRun env json m tr) :
    (∀ c c' s s', .request c ∈ tr → .request c' ∈ tr → c.Answers s → c'.Answers s' →
      s.roomUuid ≠ "" → s.roomUuid = s'.roomUuid →
      (s.partyUuid = s'.partyUuid ↔ s.partyOrder = s'.partyOrder) ∧
      (s.partyUuid = s'.partyUuid ↔ c.request.partyNumber = c'.request.partyNumber)) ∧
    (∀ c s, .request c ∈ tr → c.Answers s → s.roomUuid ≠ "" →
      c.request.partyUuid = s.partyUuid ∧
      ∀ d x, .request d ∈ tr → d.Replaces s.roomUuid x → s.partyUuid ≠ x) := by
  have hinv := runInv_run h
  constructor
  · intro c c' s s' hc hc' hs hs' hne hu
    obtain ⟨r, info, info', hok, hread, hread'⟩ := hinv.sameRoom hc hc' hs hs' hne hu
    have hl := hread.seat
    have hl' := hread'.seat
    have same : c.request.partyNumber = c'.request.partyNumber → info = info' := by
      intro hn
      rw [hn, hl'] at hl
      exact (Option.some.inj hl).symm
    rw [← hread.order, ← hread.id, ← hread'.order, ← hread'.id]
    refine ⟨⟨fun he => ?_, fun he => ?_⟩, fun he => ?_, fun he => ?_⟩
    · rw [same (key_eq_of_field (f := SigningPartyInfo.partyId) hok.idsNodup hl hl' he)]
    · rw [same (key_eq_of_field (f := SigningPartyInfo.partyOrder) hok.orders_nodup hl hl' he)]
    · exact key_eq_of_field (f := SigningPartyInfo.partyId) hok.idsNodup hl hl' he
    · rw [same he]
  · intro c s hc hs hne
    obtain ⟨d, r, info, hd, hdr, hread⟩ := hinv.answered c s hc hs hne
    refine ⟨hread.poll.symm, fun d' x hd' hrep hx => ?_⟩
    have hlacks := (seatInv_run h).closed d' _ x hd' hrep d r hd hdr hread.roomUuid
    exact hlacks _ info hread.seat (hread.id.trans hx)

end

/-! ## A renewed seat -/

/-- Party `1` is renewed before party `2` joins, and both get the room UUID. -/
def renewedRequests : List (UInt64 × PartySignupRequestBody) :=
  [(10, requestOf 1 ""), (13, requestOf 1 ""), (13, requestOf 2 ""), (14, requestOf 1 "uuu"),
    (14, requestOf 2 "uuuu")]

/-- In the history with a renewed seat the law says that the two answers with the
room UUID have different orders and that neither goes to the replaced id. -/
theorem one_holder_renewed : ∃ m tr,
    SignRun defaultEnv (Codec.ofCountable SigningRoom) m tr ∧
    ∃ c c' d s s' x, .request c ∈ tr ∧ .request c' ∈ tr ∧ .request d ∈ tr ∧
      c.Answers s ∧ c'.Answers s' ∧ s.roomUuid ≠ "" ∧ s.roomUuid = s'.roomUuid ∧
      d.Replaces s.roomUuid x ∧
      s.partyOrder ≠ s'.partyOrder ∧ s.partyUuid ≠ x ∧ s'.partyUuid ≠ x := by
  obtain ⟨p, hp, ⟨c, hc, hs⟩, ⟨c', hc', hs'⟩, d, hd, r, hr, r', hr', hu, hu', hold, hnew⟩ :
      ∃ p ∈ play defaultEnv roomKey .init renewedRequests,
        (∃ c ∈ p.records, c.answer = .ok (.ok ⟨1, "uuu", "u", 2⟩)) ∧
        (∃ c ∈ p.records, c.answer = .ok (.ok ⟨2, "uuuu", "u", 2⟩)) ∧
        ∃ d ∈ p.records, ∃ r ∈ d.before, ∃ r' ∈ d.after,
          r.roomUuid = "u" ∧ r'.roomUuid = "u" ∧
          (r.memberInfo.lookup 1).map SigningPartyInfo.partyId = some "uu" ∧
          (r'.memberInfo.lookup 1).map SigningPartyInfo.partyId = some "uuu" := by decide
  obtain ⟨old, hold, hx⟩ := Option.map_eq_some_iff.mp hold
  obtain ⟨new, hnew, hne⟩ := Option.map_eq_some_iff.mp hnew
  obtain ⟨m, hrun⟩ := signRun_play (Codec.ofCountable SigningRoom) hp
  have mem : ∀ {c}, c ∈ p.records → SignEvent.request c ∈ p.records.map SignEvent.request :=
    fun h => List.mem_map_of_mem h
  have hrep : d.Replaces "u" "uu" :=
    ⟨r, r', 1, old, new, hr, hr', hu, hu', hold, hx, hnew, by rw [hne]; decide⟩
  obtain ⟨hpairs, hholders⟩ := one_holder hrun
  have hdiff := (hpairs c c' _ _ (mem hc) (mem hc') hs hs' (by decide) rfl).1
  refine ⟨m, _, hrun, c, c', d, _, _, "uu", mem hc, mem hc', mem hd, hs, hs', by decide, rfl,
    hrep, fun horder => ?_, ?_, ?_⟩
  · exact absurd (hdiff.mpr horder) (by decide)
  · exact (hholders c _ (mem hc) hs (by decide)).2 d _ (mem hd) hrep
  · exact (hholders c' _ (mem hc') hs' (by decide)).2 d _ (mem hd) hrep

end TssCli
