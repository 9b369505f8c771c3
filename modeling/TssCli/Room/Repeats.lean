import TssCli.Room.Outcome

/-!
# A sign-up request handled twice

What the body of `signup_sign` does with the same request at the same time, once
more, on the room it has left.  An answer given without storing a room is given
again.  A poll that stored its room is answered alike from the stored room.  A
fresh sign-up that was given a seat finds this seat active, and is turned down.
-/

namespace TssCli

open AssocValues

section

variable {env : Env} {now : UInt64} {request : PartySignupRequestBody}

/-! ## The clock -/

/-- Whether the test for a timed-out member panics does not depend on the member. -/
theorem SigningRoom.isTimeout_all {x : SigningPartyInfo} {b : Bool}
    (h : isTimeout env now x = .ok b) : TellsTimeout env now := by
  intro y
  obtain ⟨d, hd, -⟩ := except_bind_ok h
  have hy : isTimeout env now y = .ok (decide (y.lastPing < d)) := by
    rw [isTimeout, hd]
    rfl
  rw [hy, isTimeout_ok hy]

theorem filterAuxM_head {α : Type} {f : α → Except Panic Bool} {a : α} {l acc r : List α}
    (h : (a :: l).filterAuxM f acc = .ok r) : ∃ b, f a = .ok b := by
  rw [List.filterAuxM] at h
  obtain ⟨b, hb, -⟩ := except_bind_ok h
  exact ⟨b, hb⟩

/-- A room with a member is counted only where the clock can be read. -/
theorem SigningRoom.activeMembers_clock {room : SigningRoom} {l : List SigningPartyInfo}
    {n : UInt16} {info : SigningPartyInfo} (h : room.activeMembers env now = .ok l)
    (hl : room.memberInfo.lookup n = some info) : TellsTimeout env now := by
  have hmem : info ∈ room.memberInfo.values := mem_values_of_lookup hl
  unfold activeMembers at h
  cases hv : room.memberInfo.values with
  | nil =>
      rw [hv] at hmem
      cases hmem
  | cons x rest =>
      rw [hv, List.filterM] at h
      obtain ⟨r, hr, -⟩ := except_bind_ok h
      obtain ⟨b, hb⟩ := filterAuxM_head hr
      obtain ⟨c, hc, -⟩ := except_bind_ok hb
      exact isTimeout_all hc

theorem SigningRoom.updatePing_clock {room r : SigningRoom} {n : UInt16} {s : SigningPartySignup}
    (h : room.updatePing env now n = .ok (s, r)) : TellsTimeout env now := by
  obtain ⟨info, -, h⟩ := except_bind_ok h
  obtain ⟨r', -, h⟩ := except_bind_ok h
  obtain ⟨s', hs', -⟩ := except_bind_ok h
  obtain ⟨info', hl', hs⟩ := except_bind_ok hs'
  obtain ⟨l, hl, -⟩ := except_bind_ok hs
  exact activeMembers_clock hl (getUnwrap_ok hl')

/-! ## Nothing stored -/

/-- An open room turns a request down by its members and its size alone. -/
theorem signupParty_repeats {room room' : SigningRoom} {k k' : Nat} {answer : SignupAnswer}
    (hmembers : room'.memberInfo = room.memberInfo) (hsize : room'.roomSize = room.roomSize)
    (h : (signupParty env now request room).run k = .ok ((answer, none), k')) (j : Nat) :
    (signupParty env now request room').run j = .ok ((answer, none), j) := by
  have hfull : room'.isFull = room.isFull := by
    rw [SigningRoom.isFull, SigningRoom.isFull, hmembers, hsize]
  have hall : room'.areAllMembersActive env now = room.areAllMembersActive env now := by
    rw [SigningRoom.areAllMembersActive, SigningRoom.areAllMembersActive, hmembers]
  have hrefuses : refuses env now request room' = refuses env now request room := by
    rw [refuses, refuses, hfull, hall]
  have hhas : ∀ id, room'.hasMember request.partyNumber id =
      room.hasMember request.partyNumber id := by
    intro id
    rw [SigningRoom.hasMember, SigningRoom.hasMember, hmembers]
  have hactive : room'.isMemberActive env now request.partyNumber =
      room.isMemberActive env now request.partyNumber := by
    rw [SigningRoom.isMemberActive, SigningRoom.isMemberActive, hmembers]
  obtain ⟨b, k₁, h₁, h₂⟩ := Rust.bind_ok h
  obtain ⟨hb, rfl⟩ := Rust.lift_ok h₁
  unfold signupParty
  rw [hrefuses, hb, Rust.lift_ok_bind]
  split at h₂
  next hr =>
    obtain ⟨hp, -⟩ := Rust.pure_ok h₂
    rw [(Prod.mk.inj hp).1, if_pos hr]
    rfl
  next hr =>
    rw [if_neg hr]
    split at h₂
    next hpoll =>
      rw [if_pos hpoll, hhas]
      split at h₂
      next hmem =>
        obtain ⟨hp, -⟩ := Rust.pure_ok h₂
        rw [(Prod.mk.inj hp).1, if_pos hmem]
        rfl
      next hmem =>
        obtain ⟨⟨s, r⟩, k₂, -, h₄⟩ := Rust.bind_ok h₂
        obtain ⟨hp, -⟩ := Rust.pure_ok h₄
        cases (Prod.mk.inj hp).2
    next hpoll =>
      rw [if_neg hpoll, hmembers]
      split at h₂
      next hmem =>
        obtain ⟨c, k₂, h₃, h₄⟩ := Rust.bind_ok h₂
        obtain ⟨hc, rfl⟩ := Rust.lift_ok h₃
        rw [if_pos hmem, hactive, hc, Rust.lift_ok_bind]
        split at h₄
        next hact =>
          obtain ⟨hp, -⟩ := Rust.pure_ok h₄
          rw [(Prod.mk.inj hp).1, if_pos hact]
          rfl
        next hact =>
          obtain ⟨⟨s, r⟩, k₃, -, h₆⟩ := Rust.bind_ok h₄
          obtain ⟨hp, -⟩ := Rust.pure_ok h₆
          cases (Prod.mk.inj hp).2
      next hmem =>
        obtain ⟨⟨s, r⟩, k₃, -, h₆⟩ := Rust.bind_ok h₂
        obtain ⟨hp, -⟩ := Rust.pure_ok h₆
        cases (Prod.mk.inj hp).2

/-- A new room is the same but for its UUID. -/
theorem newRoom_repeats {k k' : Nat} {r : SigningRoom}
    (h : (newRoom env request).run k = .ok (r, k')) (j : Nat) :
    (newRoom env request).run j =
      .ok (SigningRoom.fresh env j request.roomId (request.threshold + 1), j + 1) := by
  obtain ⟨size, k₁, h₁, -⟩ := Rust.bind_ok h
  obtain ⟨hsize, -⟩ := Rust.lift_ok h₁
  rw [newRoom, hsize, Rust.lift_ok_bind, addU16_ok hsize]
  rfl

/-- A room is entered alike, but for the UUID of a renewed one. -/
theorem enterRoom_repeats {room : SigningRoom} {k k' : Nat} {res : Except SignupAnswer SigningRoom}
    (h : (enterRoom env now request room).run k = .ok (res, k')) (j : Nat) :
    (∃ a, res = .error a ∧ (enterRoom env now request room).run j = .ok (.error a, j)) ∨
    (∃ r r' j', res = .ok r ∧ (enterRoom env now request room).run j = .ok (.ok r', j') ∧
      r'.memberInfo = r.memberInfo ∧ r'.roomSize = r.roomSize) := by
  unfold enterRoom at h ⊢
  split at h
  next hstage =>
    rw [if_pos hstage]
    split at h
    next hmem =>
      obtain ⟨s, k₁, h₁, h₂⟩ := Rust.bind_ok h
      obtain ⟨hs, -⟩ := Rust.lift_ok h₁
      obtain ⟨rfl, -⟩ := Rust.pure_ok h₂
      rw [if_pos hmem, hs, Rust.lift_ok_bind]
      exact Or.inl ⟨_, rfl, rfl⟩
    next hmem =>
      obtain ⟨b, k₁, h₁, h₂⟩ := Rust.bind_ok h
      obtain ⟨hb, rfl⟩ := Rust.lift_ok h₁
      rw [if_neg hmem, hb, Rust.lift_ok_bind]
      split at h₂
      next hin =>
        obtain ⟨r, k₂, h₃, h₄⟩ := Rust.bind_ok h₂
        obtain ⟨rfl, -⟩ := Rust.pure_ok h₄
        obtain ⟨rfl, -⟩ := newRoom_ok h₃
        rw [if_pos hin, Rust.run_bind_of_ok (newRoom_repeats h₃ j)]
        exact Or.inr ⟨_, _, _, rfl, rfl, rfl, rfl⟩
      next hin =>
        obtain ⟨rfl, -⟩ := Rust.pure_ok h₂
        rw [if_neg hin]
        exact Or.inl ⟨_, rfl, rfl⟩
  next hstage =>
    obtain ⟨rfl, -⟩ := Rust.pure_ok h
    rw [if_neg hstage]
    exact Or.inr ⟨_, _, _, rfl, rfl, rfl, rfl⟩

/-- An answer given without storing a room is given again. -/
theorem signupRoom_repeats {before : Option SigningRoom} {k k' : Nat} {answer : SignupAnswer}
    (h : (signupRoom env now request before).run k = .ok ((answer, none), k')) (j : Nat) :
    ∃ j', (signupRoom env now request before).run j = .ok ((answer, none), j') := by
  obtain ⟨room, k₁, h₁, h₂⟩ := Rust.bind_ok h
  obtain ⟨res, k₂, h₃, h₄⟩ := Rust.bind_ok h₂
  unfold signupRoom
  cases before with
  | none =>
      obtain ⟨rfl, rfl⟩ := newRoom_ok h₁
      rw [enterRoom_open _ rfl] at h₃
      cases h₃
      rw [Option.elim_none, Rust.run_bind_of_ok (newRoom_repeats h₁ j),
        Rust.run_bind_of_ok (enterRoom_open _ rfl)]
      refine ⟨j + 1, ?_⟩
      dsimp only
      refine signupParty_repeats ?_ ?_ h₄ (j + 1)
      · rfl
      · rfl
  | some r =>
      obtain ⟨rfl, rfl⟩ := Rust.pure_ok h₁
      rw [Option.elim_some, pure_bind]
      rcases enterRoom_repeats h₃ j with ⟨a, rfl, ha⟩ | ⟨r, r', j', rfl, hr', hmembers, hsize⟩
      · obtain ⟨hp, -⟩ := Rust.pure_ok h₄
        rw [Rust.run_bind_of_ok ha, (Prod.mk.inj hp).1]
        exact ⟨_, rfl⟩
      · rw [Rust.run_bind_of_ok hr']
        dsimp only
        exact ⟨_, signupParty_repeats hmembers hsize h₄ _⟩

/-! ## A poll that stored its room -/

/-- A poll that stores a room is a ping. -/
theorem signupParty_polled {room r : SigningRoom} {k k' : Nat} {answer : SignupAnswer}
    (hpoll : request.partyUuid ≠ "")
    (h : (signupParty env now request room).run k = .ok ((answer, some r), k')) :
    room.hasMember request.partyNumber request.partyUuid = true ∧
    ∃ s, answer = .ok s ∧ room.updatePing env now request.partyNumber = .ok (s, r) := by
  have hne : request.partyUuid.isEmpty = false :=
    Bool.eq_false_iff.mpr fun he => hpoll (String.isEmpty_iff.mp he)
  obtain ⟨b, k₁, -, h₂⟩ := Rust.bind_ok h
  split at h₂
  next =>
    obtain ⟨hp, -⟩ := Rust.pure_ok h₂
    cases (Prod.mk.inj hp).2
  next =>
    split at h₂
    next =>
      obtain ⟨hp, -⟩ := Rust.pure_ok h₂
      cases (Prod.mk.inj hp).2
    next hmem =>
      obtain ⟨⟨s, r'⟩, k₂, h₃, h₄⟩ := Rust.bind_ok h₂
      obtain ⟨hs, -⟩ := Rust.lift_ok h₃
      obtain ⟨hp, -⟩ := Rust.pure_ok h₄
      obtain ⟨rfl, hr⟩ := Prod.mk.inj hp
      obtain rfl := Option.some.inj hr
      exact ⟨Bool.not_eq_false _ ▸ hmem, s, rfl, hs⟩

/-- Polling the stored room again gives the same answer and the same room. -/
theorem signupRoom_polls_again {before : Option SigningRoom} {r : SigningRoom} {k k' : Nat}
    {answer : SignupAnswer} (hpoll : request.partyUuid ≠ "")
    (h : (signupRoom env now request before).run k = .ok ((answer, some r), k')) (j : Nat) :
    ∃ stored, (stored = none ∨ stored = some r) ∧
      (signupRoom env now request (some r)).run j = .ok ((answer, stored), j) := by
  rcases signupRoom_cases h with ⟨hnone, -⟩ | ⟨room, k₁, hopen, hp⟩
  · cases hnone
  obtain ⟨hmem, s, rfl, hs⟩ := signupParty_polled hpoll hp
  have hclock := SigningRoom.updatePing_clock hs
  obtain ⟨info, hl, rfl, rfl, hlt⟩ := SigningRoom.updatePing_ok hs
  obtain ⟨info', hl', hid⟩ := SigningRoom.hasMember_iff.mp hmem
  obtain rfl : info = info' := Option.some.inj (hl.symm.trans hl')
  set info' : SigningPartyInfo := { info with lastPing := now } with hinfo'
  set pinged := room.seat request.partyNumber info' with hpinged
  have hseat : (pinged.settle env now).memberInfo.lookup request.partyNumber = some info' := by
    rw [SigningRoom.settle_memberInfo, hpinged, SigningRoom.seat]
    exact AList.lookup_insert _
  cases hstage : (pinged.settle env now).lastStage with
  | terminated =>
      exact ⟨none, Or.inl rfl,
        signupRoom_informed request (Clock.all_steady hclock) hstage hseat hid hlt j⟩
  | signup =>
      have hopened : pinged.lastStage = .signup := hopen.isOpen
      have hsettle : pinged.settle env now = pinged := by
        unfold SigningRoom.settle at hstage ⊢
        split at hstage
        next => cases hstage
        next hc => exact if_neg hc
      have hagain : pinged.seat request.partyNumber info' = pinged := by
        rw [hpinged, SigningRoom.seat, SigningRoom.seat, AList.insert_insert]
      rw [hsettle] at hseat hlt ⊢
      refine ⟨some pinged, Or.inr rfl, ?_⟩
      unfold signupRoom
      have hping := signupParty_pinged request (Clock.all_steady hclock) hpoll hseat hid
        (by rw [← hinfo', hagain]; exact hlt) j
      rw [Option.elim_some, pure_bind, Rust.run_bind_of_ok (enterRoom_open j hopened), hping]
      rw [← hinfo', hagain, hsettle]

/-! ## A fresh sign-up that was given a seat -/

/-- A fresh sign-up of an active member is turned down. -/
theorem signupRoom_turns_down {r : SigningRoom} {info : SigningPartyInfo}
    (hclock : TellsTimeout env now) (hfresh : request.partyUuid = "") (hopen : r.lastStage = .signup)
    (hl : r.memberInfo.lookup request.partyNumber = some info)
    (hactive : timedOut env now info = false) (j : Nat) :
    ∃ e, (e = errActive ∨ e = errFull) ∧
      (signupRoom env now request (some r)).run j = .ok ((.error e, none), j) := by
  have hmem : request.partyNumber ∈ r.memberInfo := mem_iff_lookup.mpr ⟨info, hl⟩
  unfold signupRoom
  rw [Option.elim_some, pure_bind, Rust.run_bind_of_ok (enterRoom_open j hopen)]
  by_cases hall : r.isFull = true ∧ ∀ x ∈ r.memberInfo.values, timedOut env now x = false
  · have hrefuses : refuses env now request r = .ok true := by
      have hvalues : (r.memberInfo.values.all fun x => !timedOut env now x) = true := by
        rw [List.all_eq_true]
        intro x hx
        rw [hall.2 x hx]
        rfl
      rw [refuses, if_pos hall.1, SigningRoom.areAllMembersActive_eq fun _ => hclock, hvalues,
        hfresh]
      rfl
    refine ⟨errFull, Or.inr rfl, ?_⟩
    dsimp only
    rw [signupParty, hrefuses, Rust.lift_ok_bind]
    rfl
  · have hrefuses : refuses env now request r = .ok false :=
      refuses_eq request (Clock.all_steady hclock) fun h => hall ⟨h.1, h.2.1⟩
    refine ⟨errActive, Or.inl rfl, ?_⟩
    dsimp only
    rw [signupParty, hrefuses, Rust.lift_ok_bind, if_neg Bool.false_ne_true, hfresh,
      if_neg (by decide), if_pos hmem, SigningRoom.isMemberActive_eq hclock hl,
      Rust.lift_ok_bind, hactive]
    rfl

/-- The room stored for a fresh sign-up is open, and the party has just been seen
in it. -/
theorem signupRoom_seated {before : Option SigningRoom} {r : SigningRoom} {k k' : Nat}
    {answer : SignupAnswer} (hfresh : request.partyUuid = "")
    (h : (signupRoom env now request before).run k = .ok ((answer, some r), k')) :
    r.lastStage = .signup ∧ (∃ s, answer = .ok s) ∧
      ∃ info, r.memberInfo.lookup request.partyNumber = some info ∧ info.lastPing = now := by
  rcases signupRoom_cases h with ⟨hnone, -⟩ | ⟨room, k₁, hopen, hp⟩
  · cases hnone
  obtain ⟨b, k₂, -, h₂⟩ := Rust.bind_ok hp
  have hempty : ¬ request.partyUuid.isEmpty = false := by
    rw [hfresh]
    decide
  have seated : ∀ id order, (room.seat request.partyNumber ⟨id, order, now⟩).lastStage = .signup ∧
      ∃ info, (room.seat request.partyNumber ⟨id, order, now⟩).memberInfo.lookup
        request.partyNumber = some info ∧ info.lastPing = now :=
    fun id order => ⟨hopen.isOpen, ⟨id, order, now⟩, AList.lookup_insert _, rfl⟩
  split at h₂
  next =>
    obtain ⟨hp, -⟩ := Rust.pure_ok h₂
    cases (Prod.mk.inj hp).2
  next =>
    split at h₂
    next =>
      obtain ⟨c, k₃, -, h₄⟩ := Rust.bind_ok h₂
      split at h₄
      next =>
        obtain ⟨hp, -⟩ := Rust.pure_ok h₄
        cases (Prod.mk.inj hp).2
      next =>
        obtain ⟨⟨s, r'⟩, k₄, h₅, h₆⟩ := Rust.bind_ok h₄
        obtain ⟨hp, -⟩ := Rust.pure_ok h₆
        obtain ⟨rfl, hr⟩ := Prod.mk.inj hp
        obtain ⟨old, -, -, -, rfl⟩ := SigningRoom.replaceParty_ok h₅
        obtain rfl := Option.some.inj hr
        obtain ⟨hstage, hinfo⟩ := seated _ _
        exact ⟨hstage, ⟨s, rfl⟩, hinfo⟩
    next =>
      obtain ⟨⟨s, r'⟩, k₄, h₅, h₆⟩ := Rust.bind_ok h₂
      obtain ⟨hp, -⟩ := Rust.pure_ok h₆
      obtain ⟨rfl, hr⟩ := Prod.mk.inj hp
      obtain ⟨-, -, rfl⟩ := SigningRoom.addParty_ok h₅
      obtain rfl := Option.some.inj hr
      obtain ⟨hstage, hinfo⟩ := seated _ _
      exact ⟨hstage, ⟨s, rfl⟩, hinfo⟩

end

end TssCli
