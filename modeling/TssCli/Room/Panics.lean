import TssCli.Room.Outcome

/-!
# When the body of `signup_sign` panics

On a room that could be read, and with the clock at least the timeout past the
epoch, three checks are left that can fail: the size of a new room, `threshold + 1`,
and the order of a new member, `len + 1`, in a build with overflow checks, and the
number of active members in an answer, which has to fit into a `u16`.  `RoomFits`
says, of the stored room and the request, that none of them fails.  No member is
ever looked up that is not there.
-/

namespace TssCli

open AssocValues

section

variable (env : Env) (clock : Clock) (request : PartySignupRequestBody)

/-- There is no room, or a full, closed one of timed-out strangers. -/
def NeedsRoom : Option SigningRoom → Prop
  | none => True
  | some r => r.lastStage = .terminated ∧
      r.hasMember request.partyNumber request.partyUuid = false ∧ r.isFull = true ∧
      ∀ x ∈ r.memberInfo.values, timedOut env (clock.inactive x) x = true

/-- The open room `r` has an order for a new member, and can count its active
members for an old one. -/
structure SeatFits (r : SigningRoom) : Prop where
  order : request.partyUuid = "" → r.memberInfo.lookup request.partyNumber = none →
    ¬ (r.isFull = true ∧ ∀ x ∈ r.memberInfo.values, timedOut env (clock.active x) x = false) →
    env.overflowChecks = true → r.memberInfo.len + 1 < UInt16.size
  count : ∀ info, request.partyUuid ≠ "" →
    r.memberInfo.lookup request.partyNumber = some info → info.partyId = request.partyUuid →
    (r.seat request.partyNumber { info with lastPing := clock.ping }).activeCount env clock.info <
      UInt16.size

/-- The request does not run into a number out of range on the room it finds. -/
structure RoomFits (before : Option SigningRoom) : Prop where
  size : NeedsRoom env clock request before → env.overflowChecks = true →
    request.threshold.toNat + 1 < UInt16.size
  opened : ∀ r, before = some r → r.lastStage = .signup → SeatFits env clock request r
  closed : ∀ r, before = some r → r.lastStage = .terminated →
    r.hasMember request.partyNumber request.partyUuid = true →
    r.activeCount env clock.info < UInt16.size

end

/-! ## The methods -/

section

variable {env : Env} {now : Readings} {t : UInt64} {clock : Clock}
  {request : PartySignupRequestBody} {room : SigningRoom}
  {n : UInt16} {info : SigningPartyInfo}

/-- A map that misses one `u16` has fewer than all of them. -/
theorem MemberInfo.len_lt {m : MemberInfo} (h : m.lookup n = none) : m.len < UInt16.size := by
  have hn : n ∉ m.keys := AList.lookup_eq_none.mp h
  have hnodup : (m.keys.map UInt16.toNat).Nodup :=
    (List.nodup_map_iff fun _ _ => UInt16.toNat_inj.mp).mpr m.keys_nodup
  have hsub : (m.keys.map UInt16.toNat).toFinset ⊂ Finset.range UInt16.size := by
    refine ⟨fun i hi => ?_, fun hall => ?_⟩
    · obtain ⟨k, -, rfl⟩ := List.mem_map.mp (List.mem_toFinset.mp hi)
      exact Finset.mem_range.mpr k.toNat_lt
    · obtain ⟨k, hk, he⟩ :=
        List.mem_map.mp (List.mem_toFinset.mp (hall (Finset.mem_range.mpr n.toNat_lt)))
      exact hn (UInt16.toNat_inj.mp he ▸ hk)
  calc m.len = (m.keys.map UInt16.toNat).toFinset.card := by
        rw [List.toFinset_card_of_nodup hnodup, List.length_map]
        exact length_values m
    _ < UInt16.size := (Finset.card_lt_card hsub).trans_eq (Finset.card_range _)

theorem newRoom_succeeds {k : Nat} : (newRoom env request).Succeeds k ↔
    (env.overflowChecks = true → request.threshold.toNat + 1 < UInt16.size) := by
  refine (Rust.succeeds_bind_iff fun size k' _ => ⟨_, _, rfl⟩).trans ?_
  rw [Rust.succeeds_lift_iff, addU16_iff]
  rfl

/-- What goes on with a new room and never panics leaves it to the size. -/
theorem newRoom_bind_succeeds {α : Type} {f : SigningRoom → Rust α} {k : Nat}
    (hf : (f (.fresh env k request.roomId (request.threshold + 1))).Succeeds (k + 1)) :
    (newRoom env request >>= f).Succeeds k ↔
      (env.overflowChecks = true → request.threshold.toNat + 1 < UInt16.size) := by
  refine (Rust.succeeds_bind_iff fun r k' hr => ?_).trans newRoom_succeeds
  obtain ⟨rfl, rfl⟩ := newRoom_ok hr
  exact hf

namespace SigningRoom

theorem addParty_succeeds {k : Nat} (hl : room.memberInfo.lookup n = none) :
    (room.addParty env t n).Succeeds k ↔
      (env.overflowChecks = true → room.memberInfo.len + 1 < UInt16.size) := by
  have hlt := MemberInfo.len_lt hl
  unfold addParty
  rw [u16TryFrom_of_lt hlt, Rust.lift_ok_bind]
  refine (Rust.succeeds_bind_iff fun order k' _ => ⟨_, _, rfl⟩).trans ?_
  rw [Rust.succeeds_lift_iff, addU16_iff, UInt16.toNat_ofNat_of_lt' hlt]
  rfl

theorem getSignupInfo_succeeds (hnow : ∀ x, TellsTimeout env (now x))
    (hl : room.memberInfo.lookup n = some info) :
    (∃ s, room.getSignupInfo env now n = .ok s) ↔ room.activeCount env now < UInt16.size := by
  constructor
  · rintro ⟨s, hs⟩
    obtain ⟨_, -, -, hlt⟩ := getSignupInfo_ok hs
    exact hlt
  · intro hlt
    exact ⟨_, getSignupInfo_eq hnow room hl hlt⟩

theorem updatePing_succeeds (hclock : clock.All (TellsTimeout env))
    (hl : room.memberInfo.lookup n = some info) :
    (∃ s, room.updatePing env clock n = .ok s) ↔
      (room.seat n { info with lastPing := clock.ping }).activeCount env clock.info <
        UInt16.size := by
  constructor
  · rintro ⟨⟨s, r⟩, hs⟩
    obtain ⟨info', hl', rfl, -, hlt⟩ := updatePing_ok hs
    obtain rfl : info' = info := Option.some.inj (hl'.symm.trans hl)
    rwa [activeCount, settle_memberInfo] at hlt
  · intro hlt
    exact ⟨_, updatePing_eq hclock room hl hlt⟩

end SigningRoom

/-! ## The handler -/

theorem refuses_total (hclock : clock.All (TellsTimeout env)) :
    ∃ b, refuses env clock request room = .ok b := by
  unfold refuses
  split
  next =>
    rw [SigningRoom.areAllMembersActive_eq hclock.active]
    exact ⟨_, rfl⟩
  next => exact ⟨_, rfl⟩

/-- A poll of an open room panics only on its count. -/
theorem signupParty_poll_succeeds (hclock : clock.All (TellsTimeout env)) {k : Nat}
    (hpoll : request.partyUuid ≠ "") :
    (signupParty env clock request room).Succeeds k ↔ SeatFits env clock request room := by
  have hrefuses : refuses env clock request room = .ok false :=
    refuses_eq request hclock fun h => hpoll h.2.2
  have hne : request.partyUuid.isEmpty = false :=
    Bool.eq_false_iff.mpr fun he => hpoll (String.isEmpty_iff.mp he)
  unfold signupParty
  rw [hrefuses, Rust.lift_ok_bind, if_neg Bool.false_ne_true, if_pos hne]
  split
  next hmem =>
    refine iff_of_true (Rust.succeeds_pure _ k)
      ⟨fun hfresh => absurd hfresh hpoll, fun info _ hl hid => ?_⟩
    exact absurd (SigningRoom.hasMember_iff.mpr ⟨info, hl, hid⟩) (Bool.eq_false_iff.mp hmem)
  next hmem =>
    obtain ⟨info, hl, hid⟩ := SigningRoom.hasMember_iff.mp (Bool.not_eq_false _ ▸ hmem)
    rw [Rust.succeeds_bind_iff fun a k' _ => Rust.succeeds_pure _ k', Rust.succeeds_lift_iff,
      SigningRoom.updatePing_succeeds hclock hl]
    constructor
    · intro hlt
      refine ⟨fun hfresh => absurd hfresh hpoll, fun info' _ hl' _ => ?_⟩
      obtain rfl : info = info' := Option.some.inj (hl.symm.trans hl')
      exact hlt
    · intro hfits
      exact hfits.count info hpoll hl hid

/-- A fresh sign-up in an open room panics only on the order of a new member. -/
theorem signupParty_fresh_succeeds (hclock : clock.All (TellsTimeout env)) {k : Nat}
    (hfresh : request.partyUuid = "") :
    (signupParty env clock request room).Succeeds k ↔ SeatFits env clock request room := by
  obtain ⟨b, hb⟩ : ∃ b, refuses env clock request room = .ok b := refuses_total hclock
  have hrefused := refuses_ok hb
  unfold signupParty
  rw [hb, Rust.lift_ok_bind, hfresh, if_neg (by decide : ¬ "".isEmpty = false)]
  split
  next hbt =>
    obtain ⟨hfull, hall, -⟩ := hrefused.mp hbt
    exact iff_of_true (Rust.succeeds_pure _ k)
      ⟨fun _ _ hnot => absurd ⟨hfull, hall⟩ hnot, fun _ hpoll => absurd hfresh hpoll⟩
  next hbf =>
    split
    next hmem =>
      obtain ⟨info, hl⟩ := mem_iff_lookup.mp hmem
      refine iff_of_true ?_ ⟨fun _ hnone => ?_, fun _ hpoll => absurd hfresh hpoll⟩
      · rw [SigningRoom.isMemberActive_eq hclock.member hl, Rust.lift_ok_bind]
        split
        next => exact Rust.succeeds_pure _ k
        next =>
          rw [Rust.succeeds_bind_of_run (SigningRoom.replaceParty_eq hl k)]
          exact Rust.succeeds_pure _ _
      · rw [hl] at hnone
        cases hnone
    next hmem =>
      have hl : room.memberInfo.lookup request.partyNumber = none :=
        AList.lookup_eq_none.mpr hmem
      rw [Rust.succeeds_bind_iff fun a k' _ => Rust.succeeds_pure _ k',
        SigningRoom.addParty_succeeds hl]
      constructor
      · intro hlt
        exact ⟨fun _ _ _ => hlt, fun _ hpoll => absurd hfresh hpoll⟩
      · intro hfits
        exact hfits.order hfresh hl fun hfull => hbf (hrefused.mpr ⟨hfull.1, hfull.2, hfresh⟩)

/-- An open room answers without a panic exactly where its seats fit. -/
theorem signupParty_succeeds (hclock : clock.All (TellsTimeout env)) {k : Nat} :
    (signupParty env clock request room).Succeeds k ↔ SeatFits env clock request room := by
  by_cases hfresh : request.partyUuid = ""
  · exact signupParty_fresh_succeeds hclock hfresh
  · exact signupParty_poll_succeeds hclock hfresh

/-- A new room has seats. -/
theorem SeatFits.fresh (env : Env) (clock : Clock) (request : PartySignupRequestBody) (k : Nat)
    (id : String) (size : UInt16) :
    SeatFits env clock request (SigningRoom.fresh env k id size) where
  order := fun _ _ _ _ => show 0 + 1 < UInt16.size by decide
  count := fun _ _ hl _ => by cases hl

/-! ## The body of the handler -/

theorem roomFits_none : RoomFits env clock request none ↔
    (env.overflowChecks = true → request.threshold.toNat + 1 < UInt16.size) := by
  constructor
  · intro h
    exact h.size trivial
  · intro hsize
    exact ⟨fun _ => hsize, fun _ he => (nomatch he), fun _ he => (nomatch he)⟩

theorem roomFits_open (hopen : room.lastStage = .signup) :
    RoomFits env clock request (some room) ↔ SeatFits env clock request room := by
  have hne : room.lastStage ≠ .terminated := by
    rw [hopen]
    decide
  constructor
  · intro h
    exact h.opened room rfl hopen
  · intro hseats
    refine ⟨fun hneeds => absurd hneeds.1 hne, fun r he _ => ?_, fun r he hterm => ?_⟩
    · cases he
      exact hseats
    · cases he
      exact absurd hterm hne

theorem roomFits_closed (hterm : room.lastStage = .terminated) :
    RoomFits env clock request (some room) ↔
      (NeedsRoom env clock request (some room) → env.overflowChecks = true →
        request.threshold.toNat + 1 < UInt16.size) ∧
      (room.hasMember request.partyNumber request.partyUuid = true →
        room.activeCount env clock.info < UInt16.size) := by
  constructor
  · intro h
    exact ⟨h.size, h.closed room rfl hterm⟩
  · rintro ⟨hsize, hcount⟩
    refine ⟨hsize, fun r he hopen => ?_, fun r he _ => ?_⟩
    · cases he
      rw [hterm] at hopen
      cases hopen
    · cases he
      exact hcount

/-- Without a room, only the size of the new one can panic. -/
theorem signupRoom_created_succeeds (hclock : clock.All (TellsTimeout env)) {k : Nat} :
    (signupRoom env clock request none).Succeeds k ↔ RoomFits env clock request none := by
  rw [roomFits_none]
  refine newRoom_bind_succeeds ?_
  rw [Rust.succeeds_bind_of_run (enterRoom_open _ rfl), signupParty_succeeds hclock]
  exact .fresh env clock request k _ _

theorem signupRoom_open_succeeds (hclock : clock.All (TellsTimeout env)) {k : Nat}
    (hopen : room.lastStage = .signup) :
    (signupRoom env clock request (some room)).Succeeds k ↔
      RoomFits env clock request (some room) := by
  unfold signupRoom
  rw [Rust.succeeds_bind_of_run (x := (some room).elim _ pure) rfl,
    Rust.succeeds_bind_of_run (enterRoom_open k hopen), signupParty_succeeds hclock,
    roomFits_open hopen]

/-- A closed room panics on the count of a member's answer, or on the size of the room
it makes way for. -/
theorem signupRoom_closed_succeeds (hclock : clock.All (TellsTimeout env)) {k : Nat}
    (hterm : room.lastStage = .terminated) :
    (signupRoom env clock request (some room)).Succeeds k ↔
      RoomFits env clock request (some room) := by
  rw [roomFits_closed hterm]
  unfold signupRoom
  rw [Rust.succeeds_bind_of_run (x := (some room).elim _ pure) rfl]
  unfold enterRoom
  rw [if_pos (by rw [hterm]; decide)]
  split
  next hmem =>
    obtain ⟨info, hl, -⟩ := SigningRoom.hasMember_iff.mp hmem
    rw [bind_assoc]
    refine (Rust.succeeds_bind_iff fun s k' _ => ⟨_, _, rfl⟩).trans ?_
    rw [Rust.succeeds_lift_iff, SigningRoom.getSignupInfo_succeeds hclock.info hl]
    refine ⟨fun hlt => ⟨fun hneeds => ?_, fun _ => hlt⟩, fun h => h.2 hmem⟩
    exact absurd hmem (Bool.eq_false_iff.mp hneeds.2.1)
  next hmem =>
    have hno := Bool.eq_false_iff.mpr hmem
    rw [SigningRoom.areAllMembersInactive_eq hclock.inactive, Rust.lift_ok_bind]
    split
    next hin =>
      rw [Bool.and_eq_true, List.all_eq_true] at hin
      rw [bind_assoc]
      refine (newRoom_bind_succeeds ?_).trans ?_
      · exact (signupParty_succeeds hclock).mpr (.fresh env clock request k _ _)
      · exact ⟨fun h => ⟨fun _ => h, fun hm => absurd hm hmem⟩, fun h => h.1 ⟨hterm, hno, hin⟩⟩
    next hout =>
      rw [Bool.and_eq_true, List.all_eq_true] at hout
      refine iff_of_true ⟨_, _, rfl⟩ ⟨fun hneeds => ?_, fun hm => absurd hm hmem⟩
      exact absurd hneeds.2.2 hout

/-- The body of `signup_sign` answers without a panic exactly where the request fits
the room. -/
theorem signupRoom_succeeds (hclock : clock.All (TellsTimeout env))
    {before : Option SigningRoom} {k : Nat} :
    (signupRoom env clock request before).Succeeds k ↔ RoomFits env clock request before := by
  cases before with
  | none => exact signupRoom_created_succeeds hclock
  | some room =>
      cases hstage : room.lastStage with
      | signup => exact signupRoom_open_succeeds hclock hstage
      | terminated => exact signupRoom_closed_succeeds hclock hstage

end

end TssCli
