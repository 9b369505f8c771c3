import TssCli.Room.Run

/-!
# What a closed room looks like

`is_full` counts all members and `close_signup_window` the active ones.  So a
fresh sign-up under an unknown number gets past the check for a full room as
soon as one member is timed out, and `add_party` gives it an order past
`room_size`.  Such a room can later close with more members than its size, an
inactive one among them, and a member whose order is out of range
(`closing_law_broken`).

Where no request adds a party to a full room, a room never outgrows its size, so
the ping that closes it finds as many active members as there are members, and
the orders are exactly `1, …, room_size` (`closing_law`).
-/

namespace TssCli

open AssocValues Transition

/-- A fresh sign-up under a number the room does not know, while the room is
full and one of its members is timed out. -/
def SignRecord.AddsToFullRoom (env : Env) (c : SignRecord) : Prop :=
  c.request.partyUuid = "" ∧
    ∃ r, c.before = some r ∧ r.lastStage = .signup ∧ r.isFull = true ∧
      r.memberInfo.lookup c.request.partyNumber = none ∧
      ∃ x ∈ r.memberInfo.values, timedOut env (c.clock.active x) x = true

/-- No request of the run adds a party to a full room. -/
def RespectsSize (env : Env) (e : SignEvent) : Prop :=
  ∀ c, e = .request c → ¬ c.AddsToFullRoom env

/-- No stored room has more members than its size. -/
def Bounded (json : Codec SigningRoom) (m : ManagerState) : Prop :=
  ∀ key r, roomAt json m.db key = some r → r.memberInfo.len ≤ r.roomSize.toNat

section

variable {env : Env} {json : Codec SigningRoom} {m m' : ManagerState} {tr : List SignEvent}

theorem MemberInfo.len_insert_old {mi : MemberInfo} {n : UInt16} {old new : SigningPartyInfo}
    (h : mi.lookup n = some old) : MemberInfo.len (mi.insert n new) = mi.len := by
  obtain ⟨rest, hperm, hins⟩ := values_insert_old h
  rw [MemberInfo.len, MemberInfo.values, hins new, MemberInfo.len, MemberInfo.values,
    hperm.length_eq]
  rfl

theorem MemberInfo.len_insert_new {mi : MemberInfo} {n : UInt16} {new : SigningPartyInfo}
    (h : mi.lookup n = none) : MemberInfo.len (mi.insert n new) = mi.len + 1 := by
  rw [MemberInfo.len, MemberInfo.values, values_insert_new h]
  rfl

theorem isFull_iff {r : SigningRoom} : r.isFull = true ↔ r.roomSize.toNat ≤ r.memberInfo.len :=
  decide_eq_true_iff

/-- A request that adds nobody to a full room keeps the room within its size. -/
theorem Handles.bounded {c : SignRecord} {k k' : Nat} {answer : SignupAnswer}
    (h : Handles env c.clock c.request c.before k c.after k' answer)
    (hadd : ¬ c.AddsToFullRoom env)
    (hb : ∀ b, c.before = some b → b.memberInfo.len ≤ b.roomSize.toNat) :
    ∀ a, c.after = some a → a.memberInfo.len ≤ a.roomSize.toNat := by
  intro a ha
  generalize hbefore : c.before = before at h hb
  rw [ha] at h
  have opened : ∀ {r : SigningRoom} {k₁ : Nat}, Opens env c.clock c.request before k r k₁ →
      r.memberInfo.len ≤ r.roomSize.toNat := by
    intro r k₁ hopen
    rcases hopen.source with ⟨he, -⟩ | ⟨rfl, -⟩
    · exact hb r he
    · exact Nat.zero_le _
  cases h with
  | informed => exact hb a rfl
  | turnedAway => exact hb a rfl
  | full => exact hb a rfl
  | unknownUuid => exact hb a rfl
  | stillActive => exact hb a rfl
  | pinged hopen _ hl _ hr' _ =>
      rw [hr', SigningRoom.settle_memberInfo, SigningRoom.settle_roomSize, SigningRoom.seat,
        MemberInfo.len_insert_old hl]
      exact opened hopen
  | replaced hopen _ hl _ =>
      rw [SigningRoom.seat, MemberInfo.len_insert_old hl]
      exact opened hopen
  | @added _ r _ _ hopen hfresh hl hnot =>
      rw [SigningRoom.seat, MemberInfo.len_insert_new hl]
      by_contra hlt
      change ¬ r.memberInfo.len + 1 ≤ r.roomSize.toNat at hlt
      have hfull : r.isFull = true := isFull_iff.mpr (by omega)
      rcases hopen.source with ⟨he, -⟩ | ⟨rfl, -⟩
      · -- the room was full, so some member was timed out
        refine hadd ⟨hfresh, r, hbefore.trans he, hopen.isOpen, hfull, hl, ?_⟩
        by_contra hnone
        refine hnot ⟨hfull, fun x hx => ?_⟩
        by_contra ht
        exact hnone ⟨x, hx, Bool.not_eq_false _ ▸ ht⟩
      · exact hnot ⟨hfull, fun x hx => by cases hx⟩

theorem bounded_run (h : SignRun env json m tr) (hadd : ∀ e ∈ tr, RespectsSize env e) :
    Bounded json m := by
  refine Run.invariant_of (fun m _ => Bounded json m) (RespectsSize env) ?_ ?_ h hadd
  · rintro m rfl key r hr
    simp [ManagerState.init, roomAt] at hr
  · intro m e m' tr _ hb hok hs
    rcases hs.cases with ⟨key, rfl, -, hrooms⟩ | ⟨c, p, rfl, -, -, hdb, -⟩ |
      ⟨c, answer, rfl, -, hbefore, hafter, hh, hother⟩
    · exact fun key r hr => hb key r (hrooms key r hr)
    · exact fun key r hr => hb key r (hdb ▸ hr)
    · intro key r hr
      by_cases hkey : key = signKey c.request
      · rw [hkey, ← hafter] at hr
        exact hh.bounded (hok c rfl) (fun b hb' => hb _ b (hbefore ▸ hb')) r hr
      · exact hb key r (hother key hkey ▸ hr)

/-- What a closed room must look like at the readings of the clock that closed it. -/
structure ClosedWell (env : Env) (now : Readings) (r : SigningRoom) : Prop where
  size : r.memberInfo.len = r.roomSize.toNat
  active : ∀ x ∈ r.memberInfo.values, timedOut env (now x) x = false
  orders : (r.memberInfo.values.map fun x => x.partyOrder.toNat).Perm
    (List.range' 1 r.roomSize.toNat)

/-- The orders of a room within its size are `1, …, len`. -/
theorem RoomOk.orders_toNat {k : Nat} {r : SigningRoom} (h : RoomOk env k r)
    (hlen : r.memberInfo.len ≤ r.roomSize.toNat) :
    (r.memberInfo.values.map fun x => x.partyOrder.toNat).Perm
      (List.range' 1 r.memberInfo.len) := by
  have hsize := r.roomSize.toNat_lt
  have hmap := h.orders.map UInt16.toNat
  rw [List.map_map, List.map_map] at hmap
  refine hmap.trans (List.Perm.of_eq ?_)
  rw [List.range'_eq_map_range]
  refine List.map_congr_left fun i hi => ?_
  rw [List.mem_range] at hi
  have hs : UInt16.size = 65536 := rfl
  rw [Function.comp_apply, orderOf_toNat (by omega), Nat.add_comm]

/-- The members are all active when as many are active as there are. -/
theorem all_active_of_count {now : Readings} {r : SigningRoom}
    (h : r.memberInfo.len ≤ r.activeCount env now) :
    ∀ x ∈ r.memberInfo.values, timedOut env (now x) x = false := by
  intro x hx
  have hle : (r.memberInfo.values.filter fun x => !timedOut env (now x) x).length =
      r.memberInfo.values.length := le_antisymm (r.activeCount_le env now) h
  have hall := List.length_filter_eq_length_iff.mp hle x hx
  rwa [Bool.not_eq_true'] at hall

/-- A ping closes a room of the right shape. -/
theorem Handles.closedWell {c : SignRecord} {k k' : Nat} {answer : SignupAnswer} {r : SigningRoom}
    (h : Handles env c.clock c.request c.before k c.after k' answer) (hcl : c.Closes r)
    (hok : RoomOk env k' r) (hb : r.memberInfo.len ≤ r.roomSize.toNat) :
    ClosedWell env c.clock.closing r := by
  obtain ⟨hfull, -, hcount⟩ := h.closed hcl
  have hsize : r.memberInfo.len = r.roomSize.toNat := le_antisymm hb (isFull_iff.mp hfull)
  refine ⟨hsize, all_active_of_count (by omega), ?_⟩
  rw [← hsize]
  exact hok.orders_toNat hb

/-- The closing records of a run that adds nobody to a full room. -/
theorem closedWell_run (h : SignRun env json m tr) (hadd : ∀ e ∈ tr, RespectsSize env e) :
    ∀ c r, .request c ∈ tr → c.Closes r → ClosedWell env c.clock.closing r := by
  induction h with
  | start h0 => intro c r hc; cases hc
  | @snoc m m' e tr hrun hs ih =>
      intro c r hc hcl
      have htail : ∀ e ∈ tr, RespectsSize env e := fun e he => hadd e (List.mem_cons_of_mem _ he)
      cases List.mem_cons.mp hc with
      | inr hc => exact ih htail c r hc hcl
      | inl he =>
          obtain ⟨answer, hafter, hh⟩ := hs.closes he.symm hcl
          obtain ⟨-, -, -, ha, -⟩ := id hcl
          have hb := bounded_run (hrun.snoc hs) hadd _ r (hafter ▸ ha)
          have hok := (runInv_run (hrun.snoc hs)).roomOk _ r (hafter ▸ ha)
          exact hh.closedWell hcl hok hb

theorem ClosedWell.order_range {now : Readings} {r : SigningRoom} (h : ClosedWell env now r)
    {n : UInt16} {info : SigningPartyInfo} (hl : r.memberInfo.lookup n = some info) :
    1 ≤ info.partyOrder.toNat ∧ info.partyOrder.toNat ≤ r.roomSize.toNat := by
  have hmem : info.partyOrder.toNat ∈ r.memberInfo.values.map fun x => x.partyOrder.toNat :=
    List.mem_map.mpr ⟨info, mem_values_of_lookup hl, rfl⟩
  have hrange := h.orders.mem_iff.mp hmem
  rw [List.mem_range'_1] at hrange
  omega

/-- In a run that adds nobody to a full room, a room is closed with exactly
`room_size` members, all active, whose orders are `1, …, room_size`; and a party
that is handed the room's UUID holds one of these orders. -/
theorem closing_law (h : SignRun env json m tr) (hadd : ∀ e ∈ tr, RespectsSize env e) :
    (∀ c r, .request c ∈ tr → c.Closes r → ClosedWell env c.clock.closing r) ∧
    (∀ c s, .request c ∈ tr → c.Answers s → s.roomUuid ≠ "" →
      ∃ d r, .request d ∈ tr ∧ d.Closes r ∧ r.roomUuid = s.roomUuid ∧
        1 ≤ s.partyOrder.toNat ∧ s.partyOrder.toNat ≤ r.roomSize.toNat) := by
  have hclosed := closedWell_run h hadd
  refine ⟨hclosed, fun c s hc ha hs => ?_⟩
  obtain ⟨d, r, info, hd, hdr, hread⟩ := (runInv_run h).answered c s hc ha hs
  refine ⟨d, r, hd, hdr, hread.roomUuid, ?_⟩
  rw [← hread.order]
  exact (hclosed d r hd hdr).order_range hread.seat

end

/-! ## The law on two histories -/

/-- Two parties join a room for two and the first one pings. -/
def quietRequests : List (UInt64 × PartySignupRequestBody) :=
  [(10, requestOf 1 ""), (10, requestOf 2 ""), (11, requestOf 1 "uu")]

/-- Party `2` falls silent, and a third party is let into the full room. -/
def crowdedRequests : List (UInt64 × PartySignupRequestBody) :=
  [(10, requestOf 1 ""), (10, requestOf 2 ""), (13, requestOf 1 "uu"), (13, requestOf 3 ""),
    (13, requestOf 1 "uu")]

instance (env : Env) (c : SignRecord) : Decidable (c.AddsToFullRoom env) :=
  inferInstanceAs (Decidable (c.request.partyUuid = "" ∧
    ∃ r ∈ c.before, r.lastStage = .signup ∧ r.isFull = true ∧
      r.memberInfo.lookup c.request.partyNumber = none ∧
      ∃ x ∈ r.memberInfo.values, timedOut env (c.clock.active x) x = true))

/-- In the quiet history the law applies, and the room does close. -/
theorem closing_law_quiet : ∃ m tr,
    SignRun defaultEnv (Codec.ofCountable SigningRoom) m tr ∧
    (∀ c r, .request c ∈ tr → c.Closes r → ClosedWell defaultEnv c.clock.closing r) ∧
    ∃ c r, .request c ∈ tr ∧ c.Closes r := by
  obtain ⟨s, hs, hquiet, c, hc, r₀, hb, hopen, r, ha, hterm⟩ :
      ∃ s ∈ play defaultEnv roomKey .init quietRequests,
        (∀ c ∈ s.records, ¬ c.AddsToFullRoom defaultEnv) ∧
        ∃ c ∈ s.records, ∃ r₀ ∈ c.before, r₀.lastStage = .signup ∧
          ∃ r ∈ c.after, r.lastStage = .terminated := by decide
  obtain ⟨m, hrun⟩ := signRun_play (Codec.ofCountable SigningRoom) hs
  have hadd : ∀ e ∈ s.records.map SignEvent.request, RespectsSize defaultEnv e := by
    rintro e he d rfl
    obtain ⟨d', hd, hdd⟩ := List.mem_map.mp he
    obtain rfl := SignEvent.request.inj hdd
    exact hquiet d' hd
  exact ⟨m, _, hrun, (closing_law hrun hadd).1, c, r, List.mem_map_of_mem hc,
    r₀, hb, hopen, ha, hterm⟩

/-- In the crowded history a room for two is closed with three members. -/
theorem closing_law_broken : ¬ ∀ (env : Env) (json : Codec SigningRoom) (m : ManagerState)
    (tr : List SignEvent), SignRun env json m tr →
    ∀ c r, .request c ∈ tr → c.Closes r → ClosedWell env c.clock.closing r := by
  intro hlaw
  obtain ⟨s, hs, c, hc, r₀, hb, hopen, r, ha, hterm, hlen⟩ :
      ∃ s ∈ play defaultEnv roomKey .init crowdedRequests,
        ∃ c ∈ s.records, ∃ r₀ ∈ c.before, r₀.lastStage = .signup ∧
          ∃ r ∈ c.after, r.lastStage = .terminated ∧
            r.memberInfo.len ≠ r.roomSize.toNat := by decide
  obtain ⟨m, hrun⟩ := signRun_play (Codec.ofCountable SigningRoom) hs
  exact hlen (hlaw _ _ m _ hrun c r (List.mem_map_of_mem hc) ⟨r₀, hb, hopen, ha, hterm⟩).size

end TssCli
