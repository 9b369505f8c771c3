import TssCli.Room.WellFormed

/-!
# What a request is answered

When the clock is at least the timeout past the epoch, no test for a timed-out
member panics.  Where none panics, each exit of `signup_sign` is reached exactly
as its checks say.  These are the exits of a group of parties that take their seats and poll:
a fresh sign-up is given a seat, and a poll is answered.
-/

namespace TssCli

open AssocValues

/-- What is timed out stays so until the next ping. -/
theorem timedOut_iff {env : Env} {now : UInt64} (hnow : env.signupTimeout.toNat ≤ now.toNat)
    {x : SigningPartyInfo} :
    timedOut env now x = true ↔ x.lastPing.toNat + env.signupTimeout.toNat < now.toNat := by
  rw [timedOut, decide_eq_true_eq, UInt64.lt_iff_toNat_lt,
    UInt64.toNat_sub_of_le _ _ (UInt64.le_iff_toNat_le.mpr hnow)]
  omega

theorem timedOut_mono {env : Env} {now now' : UInt64}
    (hnow : env.signupTimeout.toNat ≤ now.toNat) (hle : now.toNat ≤ now'.toNat)
    {x : SigningPartyInfo} (h : timedOut env now x = true) : timedOut env now' x = true := by
  rw [timedOut_iff hnow] at h
  rw [timedOut_iff (hnow.trans hle)]
  omega

/-- The test for a timed-out member does not panic at `t`. -/
def TellsTimeout (env : Env) (t : UInt64) : Prop :=
  ∀ x, SigningRoom.isTimeout env t x = .ok (timedOut env t x)

theorem tellsTimeout_of_le {env : Env} {t : UInt64} (h : env.signupTimeout ≤ t) :
    TellsTimeout env t := by
  intro x
  rw [SigningRoom.isTimeout, subU64_of_le _ (UInt64.le_iff_toNat_le.mp h)]
  rfl

/-! ## The methods -/

namespace SigningRoom

section

variable {env : Env} {now : Readings} {t : UInt64} {clock : Clock}

theorem notTimeout_eq (ht : TellsTimeout env t) (x : SigningPartyInfo) :
    (do return !(← isTimeout env t x) : Except Panic Bool) = .ok (!timedOut env t x) := by
  rw [ht]
  rfl

theorem isMemberActive_eq {room : SigningRoom} {n : UInt16} {info : SigningPartyInfo}
    (ht : TellsTimeout env t) (hl : room.memberInfo.lookup n = some info) :
    room.isMemberActive env t n = .ok (!timedOut env t info) := by
  rw [isMemberActive, MemberInfo.getUnwrap, hl]
  exact notTimeout_eq ht info

section

variable (hnow : ∀ x, TellsTimeout env (now x)) (room : SigningRoom)

include hnow

theorem areAllMembersActive_eq : room.areAllMembersActive env now =
    .ok (room.memberInfo.values.all fun x => !timedOut env (now x) x) :=
  allM_eq (fun x => notTimeout_eq (hnow x) x) _

theorem areAllMembersInactive_eq : room.areAllMembersInactive env now =
    .ok (room.isFull && room.memberInfo.values.all fun x => timedOut env (now x) x) := by
  unfold areAllMembersInactive
  split
  next hf =>
    rw [hf, Bool.true_and]
    exact allM_eq (fun x => hnow x x) _
  next hf =>
    rw [Bool.eq_false_iff.mpr hf, Bool.false_and]
    rfl

theorem activeMembers_eq : ∃ l, room.activeMembers env now = .ok l ∧
    l.length = room.activeCount env now :=
  ⟨_, filterM_eq (fun x => notTimeout_eq (hnow x) x) _, rfl⟩

theorem closeSignupWindow_eq (hfull : room.isFull = true) : room.closeSignupWindow env now =
    .ok (if room.roomSize.toNat ≤ room.activeCount env now then room.close else room) := by
  obtain ⟨l, hl, hlen⟩ := activeMembers_eq hnow room
  unfold closeSignupWindow
  rw [hl, except_ok_bind, ← hlen, hfull, Bool.true_and]
  by_cases hc : room.roomSize.toNat ≤ l.length
  · rw [if_pos hc, if_pos (decide_eq_true hc)]
    rfl
  · rw [if_neg hc, decide_eq_false hc, if_neg Bool.false_ne_true]
    rfl

theorem getSignupInfo_eq {n : UInt16} {info : SigningPartyInfo}
    (hl : room.memberInfo.lookup n = some info) (hlt : room.activeCount env now < UInt16.size) :
    room.getSignupInfo env now n = .ok (room.infoFor env now info) := by
  obtain ⟨l, hact, hlen⟩ := activeMembers_eq hnow room
  rw [getSignupInfo, MemberInfo.getUnwrap, hl]
  rw [except_ok_bind, hact, except_ok_bind, hlen, u16TryFrom_of_lt hlt]
  rfl

end

variable (hclock : clock.All (TellsTimeout env)) (room : SigningRoom)

include hclock

theorem closeIfEnough_eq : room.closeIfEnough env clock = .ok (room.settle env clock) := by
  obtain ⟨l, hl, hlen⟩ := activeMembers_eq hclock.enough room
  unfold closeIfEnough settle
  split
  next hf =>
    rw [hl, except_ok_bind, hlen, closeSignupWindow_eq hclock.closing room hf]
    split
    next hc =>
      exact congrArg Except.ok (if_congr ⟨fun h => ⟨hf, hc, h⟩, fun h => h.2.2⟩ rfl rfl)
    next hc =>
      rw [if_neg fun h => hc h.2.1]
      rfl
  next hf =>
    rw [if_neg fun h => hf h.1]
    rfl

theorem updatePing_eq {n : UInt16} {info : SigningPartyInfo}
    (hl : room.memberInfo.lookup n = some info)
    (hlt : (room.seat n { info with lastPing := clock.ping }).activeCount env clock.info <
      UInt16.size) :
    room.updatePing env clock n =
      .ok (((room.seat n { info with lastPing := clock.ping }).settle env clock).infoFor env
          clock.info { info with lastPing := clock.ping },
        (room.seat n { info with lastPing := clock.ping }).settle env clock) := by
  have hseat : ((room.seat n { info with lastPing := clock.ping }).settle env
      clock).memberInfo.lookup n = some { info with lastPing := clock.ping } := by
    rw [settle_memberInfo, seat]
    exact AList.lookup_insert _
  have hcount : ((room.seat n { info with lastPing := clock.ping }).settle env
      clock).activeCount env clock.info =
      (room.seat n { info with lastPing := clock.ping }).activeCount env clock.info := by
    rw [activeCount, settle_memberInfo, activeCount]
  rw [updatePing, MemberInfo.getUnwrap, hl, except_ok_bind]
  show ((room.seat n { info with lastPing := clock.ping }).closeIfEnough env clock >>= _) = _
  rw [closeIfEnough_eq hclock, except_ok_bind, getSignupInfo_eq hclock.info _ hseat (hcount ▸ hlt)]
  rfl

end

theorem replaceParty_eq {env : Env} {now : UInt64} {room : SigningRoom} {n : UInt16}
    {old : SigningPartyInfo} (hl : room.memberInfo.lookup n = some old) (k : Nat) :
    (room.replaceParty env now n).run k =
      .ok ((⟨old.partyOrder, env.uuid k, "", 0⟩,
        room.seat n ⟨env.uuid k, old.partyOrder, now⟩), k + 1) := by
  rw [replaceParty, MemberInfo.getUnwrap, hl]
  rfl

theorem addParty_eq {env : Env} {now : UInt64} {room : SigningRoom}
    (hlen : room.memberInfo.len + 1 < UInt16.size) (n : UInt16) (k : Nat) :
    (room.addParty env now n).run k =
      .ok ((⟨orderOf room.memberInfo.len, env.uuid k, "", 0⟩,
        room.seat n ⟨env.uuid k, orderOf room.memberInfo.len, now⟩), k + 1) := by
  have hlt : room.memberInfo.len < UInt16.size := by omega
  have hadd : addU16 env.overflowChecks (UInt16.ofNat room.memberInfo.len) 1 =
      .ok (orderOf room.memberInfo.len) := by
    rw [addU16, UInt16.toNat_ofNat_of_lt' hlt, decide_eq_false, Bool.and_false]
    · rfl
    · show ¬ UInt16.size ≤ room.memberInfo.len + 1
      omega
  rw [addParty, u16TryFrom_of_lt hlt, Rust.lift_ok_bind, hadd, Rust.lift_ok_bind]
  rfl

end SigningRoom

/-! ## The handler -/

section

variable {env : Env} {clock : Clock} (request : PartySignupRequestBody) {room : SigningRoom}

theorem newRoom_eq (hthr : request.threshold.toNat + 1 < UInt16.size) (k : Nat) :
    (newRoom env request).run k =
      .ok (SigningRoom.fresh env k request.roomId (request.threshold + 1), k + 1) := by
  have hadd : addU16 env.overflowChecks request.threshold 1 = .ok (request.threshold + 1) := by
    rw [addU16, decide_eq_false, Bool.and_false]
    · rfl
    · show ¬ UInt16.size ≤ request.threshold.toNat + 1
      omega
  rw [newRoom, hadd, Rust.lift_ok_bind]
  rfl

/-- A request that finds an open room goes on with it. -/
theorem signupRoom_opens (hclock : clock.All (TellsTimeout env))
    (hthr : request.threshold.toNat + 1 < UInt16.size) {before : Option SigningRoom} {k k' : Nat}
    (h : Opens env clock request before k room k') :
    (signupRoom env clock request before).run k = (signupParty env clock request room).run k' := by
  unfold signupRoom
  cases h with
  | stored hopen =>
      rw [Rust.run_bind_of_ok (x := (some room).elim _ pure) rfl,
        Rust.run_bind_of_ok (enterRoom_open k hopen)]
  | created =>
      rw [Rust.run_bind_of_ok (x := none.elim (newRoom env request) pure)
          (newRoom_eq request hthr k), Rust.run_bind_of_ok (enterRoom_open _ rfl)]
  | @renewed r _ hterm hmem hfull hall =>
      have hin : r.areAllMembersInactive env clock.inactive = .ok true := by
        rw [SigningRoom.areAllMembersInactive_eq hclock.inactive, hfull, Bool.true_and,
          List.all_eq_true.mpr hall]
      have henter : (enterRoom env clock request r).run k =
          .ok (.ok (SigningRoom.fresh env k request.roomId (request.threshold + 1)), k + 1) := by
        unfold enterRoom
        rw [if_pos (by rw [hterm]; decide), hmem, if_neg Bool.false_ne_true, hin,
          Rust.lift_ok_bind, if_pos rfl, Rust.run_bind_of_ok (newRoom_eq request hthr k)]
        rfl
      rw [Rust.run_bind_of_ok (x := (some r).elim _ pure) rfl, Rust.run_bind_of_ok henter]

theorem refuses_eq (hclock : clock.All (TellsTimeout env))
    (h : ¬ (room.isFull = true ∧
      (∀ x ∈ room.memberInfo.values, timedOut env (clock.active x) x = false) ∧
      request.partyUuid = "")) : refuses env clock request room = .ok false := by
  unfold refuses
  cases hf : room.isFull with
  | false => rfl
  | true =>
      rw [if_pos rfl, SigningRoom.areAllMembersActive_eq hclock.active, except_ok_bind]
      refine congrArg Except.ok (Bool.eq_false_iff.mpr fun hc => h ?_)
      rw [Bool.and_eq_true, List.all_eq_true, String.isEmpty_iff] at hc
      refine ⟨hf, fun x hx => ?_, hc.2⟩
      rw [← Bool.not_eq_true', hc.1 x hx]

/-- A fresh sign-up of a timed-out member. -/
theorem signupParty_replaced (hclock : clock.All (TellsTimeout env))
    (hfresh : request.partyUuid = "") {old : SigningPartyInfo}
    (hl : room.memberInfo.lookup request.partyNumber = some old)
    (hnot : ¬ (room.isFull = true ∧
      ∀ x ∈ room.memberInfo.values, timedOut env (clock.active x) x = false))
    (ht : timedOut env clock.member old = true) (k : Nat) :
    (signupParty env clock request room).run k =
      .ok ((.ok ⟨old.partyOrder, env.uuid k, "", 0⟩,
        some (room.seat request.partyNumber ⟨env.uuid k, old.partyOrder, clock.ping⟩)), k + 1) := by
  have hrefuses : refuses env clock request room = .ok false :=
    refuses_eq request hclock fun h => hnot ⟨h.1, h.2.1⟩
  have hmem : request.partyNumber ∈ room.memberInfo := mem_iff_lookup.mpr ⟨old, hl⟩
  unfold signupParty
  rw [hrefuses, Rust.lift_ok_bind, if_neg Bool.false_ne_true, hfresh, if_neg (by decide),
    if_pos hmem, SigningRoom.isMemberActive_eq hclock.member hl, Rust.lift_ok_bind, ht,
    if_neg (by decide), Rust.run_bind_of_ok (SigningRoom.replaceParty_eq hl k)]
  rfl

/-- A fresh sign-up of a party the room does not know. -/
theorem signupParty_added (hclock : clock.All (TellsTimeout env))
    (hfresh : request.partyUuid = "") (hl : room.memberInfo.lookup request.partyNumber = none)
    (hnot : ¬ (room.isFull = true ∧
      ∀ x ∈ room.memberInfo.values, timedOut env (clock.active x) x = false))
    (hlen : room.memberInfo.len + 1 < UInt16.size) (k : Nat) :
    (signupParty env clock request room).run k =
      .ok ((.ok ⟨orderOf room.memberInfo.len, env.uuid k, "", 0⟩,
        some (room.seat request.partyNumber
          ⟨env.uuid k, orderOf room.memberInfo.len, clock.ping⟩)), k + 1) := by
  have hrefuses : refuses env clock request room = .ok false :=
    refuses_eq request hclock fun h => hnot ⟨h.1, h.2.1⟩
  unfold signupParty
  rw [hrefuses, Rust.lift_ok_bind, if_neg Bool.false_ne_true, hfresh, if_neg (by decide),
    if_neg (AList.lookup_eq_none.mp hl), Rust.run_bind_of_ok (SigningRoom.addParty_eq hlen _ k)]
  rfl

/-- A poll of a member of an open room. -/
theorem signupParty_pinged (hclock : clock.All (TellsTimeout env))
    (hpoll : request.partyUuid ≠ "") {info : SigningPartyInfo}
    (hl : room.memberInfo.lookup request.partyNumber = some info)
    (hid : info.partyId = request.partyUuid)
    (hlt : (room.seat request.partyNumber { info with lastPing := clock.ping }).activeCount env
      clock.info < UInt16.size) (k : Nat) :
    (signupParty env clock request room).run k =
      .ok ((.ok (((room.seat request.partyNumber { info with lastPing := clock.ping }).settle
            env clock).infoFor env clock.info { info with lastPing := clock.ping }),
        some ((room.seat request.partyNumber { info with lastPing := clock.ping }).settle
          env clock)), k) := by
  have hrefuses : refuses env clock request room = .ok false :=
    refuses_eq request hclock fun h => hpoll h.2.2
  have hmem : room.hasMember request.partyNumber request.partyUuid = true :=
    SigningRoom.hasMember_iff.mpr ⟨info, hl, hid⟩
  have hne : request.partyUuid.isEmpty = false :=
    Bool.eq_false_iff.mpr fun he => hpoll (String.isEmpty_iff.mp he)
  unfold signupParty
  rw [hrefuses, Rust.lift_ok_bind, if_neg Bool.false_ne_true, if_pos hne, hmem,
    if_neg (by decide), SigningRoom.updatePing_eq hclock room hl hlt, Rust.lift_ok_bind]
  rfl

/-- A poll of a member of a closed room. -/
theorem signupRoom_informed (hclock : clock.All (TellsTimeout env))
    (hterm : room.lastStage = .terminated) {info : SigningPartyInfo}
    (hl : room.memberInfo.lookup request.partyNumber = some info)
    (hid : info.partyId = request.partyUuid) (hlt : room.activeCount env clock.info < UInt16.size)
    (k : Nat) :
    (signupRoom env clock request (some room)).run k =
      .ok ((.ok (room.infoFor env clock.info info), none), k) := by
  have hmem : room.hasMember request.partyNumber request.partyUuid = true :=
    SigningRoom.hasMember_iff.mpr ⟨info, hl, hid⟩
  have henter : (enterRoom env clock request room).run k =
      .ok (.error (.ok (room.infoFor env clock.info info)), k) := by
    unfold enterRoom
    rw [if_pos (by rw [hterm]; decide), if_pos hmem,
      SigningRoom.getSignupInfo_eq hclock.info room hl hlt, Rust.lift_ok_bind]
    rfl
  unfold signupRoom
  rw [Rust.run_bind_of_ok (x := (some room).elim _ pure) rfl, Rust.run_bind_of_ok henter]
  rfl

end

end TssCli
