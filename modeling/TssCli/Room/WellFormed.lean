import Mathlib.Data.List.Perm.Subperm
import Mathlib.Data.List.Range
import TssCli.Common.Manager

/-!
# Well-formed rooms

A room is well formed when its orders are the numbers `1, 2, …, len`, each once,
and its party UUIDs are distinct and were drawn by the manager.  Joining appends
the next order, renewing a seat keeps its order, and a ping changes neither, so
every request leaves a well-formed room (`Handles.roomOk`).

The orders are `u16`.  In a build without overflow checks a room of `65535`
members gives the next one the order `0`, which is still nobody else's.

The lemmas about `Handles` say what one request can do to the room stored at its
key: which UUID the room has afterwards, how it can come to be closed, and that
an answer with a room UUID is read off a closed room.
-/

namespace TssCli

open AssocValues

/-- The order of the member that joins as number `i` from `0`. -/
def orderOf (i : Nat) : UInt16 := UInt16.ofNat i + 1

theorem orderOf_toNat {i : Nat} (h : i + 1 < UInt16.size) : (orderOf i).toNat = i + 1 := by
  have hsize : UInt16.size = 65536 := rfl
  simp only [orderOf, UInt16.toNat_add, UInt16.toNat_ofNat', UInt16.reduceToNat]
  omega

theorem orderOf_inj {i j : Nat} (hi : i < UInt16.size) (hj : j < UInt16.size)
    (h : orderOf i = orderOf j) : i = j := by
  have hsize : UInt16.size = 65536 := rfl
  have h' := congrArg UInt16.toNat h
  simp only [orderOf, UInt16.toNat_add, UInt16.toNat_ofNat', UInt16.reduceToNat] at h'
  omega

/-- `s` is one of the first `k` UUIDs drawn. -/
def Issued (env : Env) (k : Nat) (s : String) : Prop := ∃ j < k, s = env.uuid j

theorem Issued.mono {env : Env} {k k' : Nat} {s : String} (h : Issued env k s) (hk : k ≤ k') :
    Issued env k' s := by
  obtain ⟨j, hj, hs⟩ := h
  exact ⟨j, by omega, hs⟩

theorem issued_next (env : Env) (k : Nat) : Issued env (k + 1) (env.uuid k) :=
  ⟨k, Nat.lt_succ_self k, rfl⟩

/-- The next UUID is not among those drawn. -/
theorem Issued.ne_next {env : Env} {k k' : Nat} {s : String} (h : Issued env k s) (hk : k ≤ k') :
    s ≠ env.uuid k' := by
  obtain ⟨j, hj, rfl⟩ := h
  intro he
  have := env.uuid_injective he
  omega

theorem Issued.ne_empty {env : Env} {k : Nat} {s : String} (h : Issued env k s) : s ≠ "" := by
  obtain ⟨j, -, rfl⟩ := h
  exact env.uuid_ne_empty j

/-- The invariant of one room, when `k` UUIDs have been drawn. -/
structure RoomOk (env : Env) (k : Nat) (room : SigningRoom) : Prop where
  orders : (room.memberInfo.values.map SigningPartyInfo.partyOrder).Perm
    ((List.range room.memberInfo.len).map orderOf)
  idsNodup : (room.memberInfo.values.map SigningPartyInfo.partyId).Nodup
  idsIssued : ∀ x ∈ room.memberInfo.values, Issued env k x.partyId
  uuidIssued : Issued env k room.roomUuid

/-! ## The size of a room -/

/-- A room has at most one member per party number. -/
theorem MemberInfo.len_le (m : MemberInfo) : m.len ≤ UInt16.size := by
  have hnodup : (m.keys.map UInt16.toNat).Nodup :=
    m.keys_nodup.map (fun a b h => UInt16.toNat_inj.mp h)
  have hsub : m.keys.map UInt16.toNat ⊆ List.range UInt16.size := by
    intro n hn
    obtain ⟨a, -, rfl⟩ := List.mem_map.mp hn
    exact List.mem_range.mpr a.toNat_lt
  have hle := (List.subperm_of_subset hnodup hsub).length_le
  rw [List.length_map, List.length_range] at hle
  rw [MemberInfo.len, MemberInfo.values, length_values]
  exact hle

theorem SigningRoom.activeCount_le (env : Env) (now : Readings) (room : SigningRoom) :
    room.activeCount env now ≤ room.memberInfo.len :=
  List.length_filter_le _ _

/-! ## A seat changes hands -/

section

variable {env : Env} {k : Nat} {room : SigningRoom}

theorem RoomOk.mono {k' : Nat} (h : RoomOk env k room) (hk : k ≤ k') : RoomOk env k' room where
  orders := h.orders
  idsNodup := h.idsNodup
  idsIssued := fun x hx => (h.idsIssued x hx).mono hk
  uuidIssued := h.uuidIssued.mono hk

theorem roomOk_fresh (env : Env) (k : Nat) (roomId : String) (size : UInt16) :
    RoomOk env (k + 1) (SigningRoom.fresh env k roomId size) where
  orders := .nil
  idsNodup := .nil
  idsIssued := by intro x hx; cases hx
  uuidIssued := issued_next env k

/-- Every member has an order of its own. -/
theorem RoomOk.orders_nodup (h : RoomOk env k room) :
    (room.memberInfo.values.map SigningPartyInfo.partyOrder).Nodup := by
  refine h.orders.nodup_iff.mpr (List.Nodup.map_on ?_ List.nodup_range)
  intro i hi j hj hij
  have hlen := room.memberInfo.len_le
  rw [List.mem_range] at hi hj
  exact orderOf_inj (by omega) (by omega) hij

/-- A seat keeps its order and gets an id nobody else has. -/
theorem RoomOk.seat_old (h : RoomOk env k room) {n : UInt16} {old new : SigningPartyInfo}
    (hl : room.memberInfo.lookup n = some old) (horder : new.partyOrder = old.partyOrder)
    (hissued : Issued env k new.partyId)
    (hid : new.partyId = old.partyId ∨ ∀ x ∈ room.memberInfo.values, x.partyId ≠ new.partyId) :
    RoomOk env k (room.seat n new) := by
  obtain ⟨rest, hperm, hins⟩ := values_insert_old hl
  have hvals : (room.seat n new).memberInfo.values = new :: rest := hins new
  have hlen : (room.seat n new).memberInfo.len = room.memberInfo.len := by
    rw [MemberInfo.len, hvals, MemberInfo.len, MemberInfo.values, hperm.length_eq]
    rfl
  have hids : (old.partyId :: rest.map SigningPartyInfo.partyId).Nodup :=
    (hperm.map _).nodup_iff.mp h.idsNodup
  have hmem : ∀ x ∈ rest, x ∈ room.memberInfo.values :=
    fun x hx => hperm.mem_iff.mpr (List.mem_cons_of_mem _ hx)
  constructor
  · rw [hvals, hlen, List.map_cons, horder]
    exact (hperm.map _).symm.trans h.orders
  · rw [hvals, List.map_cons]
    refine List.nodup_cons.mpr ⟨?_, (List.nodup_cons.mp hids).2⟩
    rcases hid with hid | hid
    · rw [hid]
      exact (List.nodup_cons.mp hids).1
    · intro hin
      obtain ⟨x, hx, he⟩ := List.mem_map.mp hin
      exact hid x (hmem x hx) he
  · intro x hx
    rw [hvals] at hx
    cases List.mem_cons.mp hx with
    | inl he => exact he ▸ hissued
    | inr hr => exact h.idsIssued x (hmem x hr)
  · exact h.uuidIssued

/-- A newcomer gets the next order and a fresh id. -/
theorem RoomOk.seat_new (h : RoomOk env k room) {n : UInt16} {now : UInt64}
    (hl : room.memberInfo.lookup n = none) :
    RoomOk env (k + 1)
      (room.seat n ⟨env.uuid k, UInt16.ofNat room.memberInfo.len + 1, now⟩) := by
  set new : SigningPartyInfo := ⟨env.uuid k, UInt16.ofNat room.memberInfo.len + 1, now⟩
  have hvals : (room.seat n new).memberInfo.values = new :: room.memberInfo.values :=
    values_insert_new hl
  have hlen : (room.seat n new).memberInfo.len = room.memberInfo.len + 1 := by
    rw [MemberInfo.len, hvals]
    rfl
  constructor
  · rw [hvals, hlen, List.map_cons, List.range_succ, List.map_append]
    refine (h.orders.cons _).trans ?_
    exact (List.perm_append_singleton _ _).symm
  · rw [hvals, List.map_cons]
    refine List.nodup_cons.mpr ⟨fun hin => ?_, h.idsNodup⟩
    obtain ⟨x, hx, he⟩ := List.mem_map.mp hin
    exact (h.idsIssued x hx).ne_next (Nat.le_refl k) he
  · intro x hx
    rw [hvals] at hx
    cases List.mem_cons.mp hx with
    | inl he => exact he ▸ issued_next env k
    | inr hr => exact (h.idsIssued x hr).mono (Nat.le_succ k)
  · exact h.uuidIssued.mono (Nat.le_succ k)

theorem RoomOk.settle (h : RoomOk env k room) (clock : Clock) :
    RoomOk env k (room.settle env clock) := by
  unfold SigningRoom.settle
  split
  · exact ⟨h.orders, h.idsNodup, h.idsIssued, h.uuidIssued⟩
  · exact h

end

/-! ## What one request does to a room -/

section

variable {env : Env} {clock : Clock} {request : PartySignupRequestBody}
  {before after : Option SigningRoom} {r r' : SigningRoom} {k k' : Nat} {answer : SignupAnswer}

theorem Opens.le (h : Opens env clock request before k r k') : k ≤ k' := by
  cases h with
  | stored => exact Nat.le_refl k
  | created => exact Nat.le_succ k
  | renewed => exact Nat.le_succ k

theorem Opens.isOpen (h : Opens env clock request before k r k') : r.lastStage = .signup := by
  cases h with
  | stored hs => exact hs
  | created => rfl
  | renewed => rfl

/-- The open room is the stored one, or it is new and empty. -/
theorem Opens.source (h : Opens env clock request before k r k') :
    (before = some r ∧ k' = k) ∨
      (r = SigningRoom.fresh env k request.roomId (request.threshold + 1) ∧ k' = k + 1) := by
  cases h with
  | stored => exact Or.inl ⟨rfl, rfl⟩
  | created => exact Or.inr ⟨rfl, rfl⟩
  | renewed => exact Or.inr ⟨rfl, rfl⟩

theorem Opens.roomOk (h : Opens env clock request before k r k')
    (hok : ∀ b, before = some b → RoomOk env k b) : RoomOk env k' r := by
  rcases h.source with ⟨hb, rfl⟩ | ⟨rfl, rfl⟩
  · exact hok r hb
  · exact roomOk_fresh env k _ _

theorem Handles.le (h : Handles env clock request before k after k' answer) : k ≤ k' := by
  cases h with
  | informed => exact Nat.le_refl k
  | turnedAway => exact Nat.le_refl k
  | full hopen => exact hopen.le
  | unknownUuid hopen => exact hopen.le
  | pinged hopen => exact hopen.le
  | stillActive hopen => exact hopen.le
  | replaced hopen => exact hopen.le.trans (Nat.le_succ _)
  | added hopen => exact hopen.le.trans (Nat.le_succ _)

/-- Every request leaves a well-formed room. -/
theorem Handles.roomOk (h : Handles env clock request before k after k' answer)
    (hok : ∀ b, before = some b → RoomOk env k b) : ∀ a, after = some a → RoomOk env k' a := by
  intro a ha
  have hle := h.le
  cases h with
  | informed => exact (hok a ha).mono hle
  | turnedAway => exact (hok a ha).mono hle
  | full => exact (hok a ha).mono hle
  | unknownUuid => exact (hok a ha).mono hle
  | stillActive => exact (hok a ha).mono hle
  | @pinged _ r _ info _ _ hopen _ hl _ hr' _ =>
      obtain rfl := Option.some.inj ha
      have hr := hopen.roomOk hok
      have hissued := hr.idsIssued info (mem_values_of_lookup hl)
      have hseat : RoomOk env k'
          (r.seat request.partyNumber { info with lastPing := clock.ping }) :=
        hr.seat_old hl rfl hissued (Or.inl rfl)
      rw [hr']
      exact hseat.settle clock
  | replaced hopen _ hl _ =>
      obtain rfl := Option.some.inj ha
      have hr := hopen.roomOk hok
      refine (hr.mono (Nat.le_succ _)).seat_old hl rfl (issued_next env _) (Or.inr fun x hx => ?_)
      exact (hr.idsIssued x hx).ne_next (Nat.le_refl _)
  | added hopen _ hl _ =>
      obtain rfl := Option.some.inj ha
      exact (hopen.roomOk hok).seat_new hl

theorem SigningRoom.settle_roomUuid (r : SigningRoom) :
    (r.settle env clock).roomUuid = r.roomUuid := by
  unfold SigningRoom.settle
  split <;> rfl

theorem SigningRoom.settle_roomSize (r : SigningRoom) :
    (r.settle env clock).roomSize = r.roomSize := by
  unfold SigningRoom.settle
  split <;> rfl

/-- The room stored after a request has the UUID it had before, or a new one and
is open. -/
theorem Handles.uuid (h : Handles env clock request before k (some r') k' answer) :
    (∃ r, before = some r ∧ r.roomUuid = r'.roomUuid) ∨
      (r'.roomUuid = env.uuid k ∧ k < k' ∧ r'.lastStage = .signup) := by
  have key : ∀ {r : SigningRoom} {k₁ : Nat}, Opens env clock request before k r k₁ →
      r.roomUuid = r'.roomUuid → k₁ ≤ k' →
      (k₁ = k + 1 → r'.lastStage = .signup) →
      (∃ r, before = some r ∧ r.roomUuid = r'.roomUuid) ∨
        (r'.roomUuid = env.uuid k ∧ k < k' ∧ r'.lastStage = .signup) := by
    intro r k₁ hopen huuid hle hstage
    rcases hopen.source with ⟨hb, -⟩ | ⟨hr, hk⟩
    · exact Or.inl ⟨r, hb, huuid⟩
    · refine Or.inr ⟨?_, by omega, hstage hk⟩
      rw [← huuid, hr]
      rfl
  cases h with
  | informed => exact Or.inl ⟨r', rfl, rfl⟩
  | turnedAway => exact Or.inl ⟨r', rfl, rfl⟩
  | full => exact Or.inl ⟨r', rfl, rfl⟩
  | unknownUuid => exact Or.inl ⟨r', rfl, rfl⟩
  | stillActive => exact Or.inl ⟨r', rfl, rfl⟩
  | pinged hopen _ hl _ hr' _ =>
      refine key hopen ?_ (Nat.le_refl _) fun hk => ?_
      · rw [hr', SigningRoom.settle_roomUuid]
        rfl
      · rcases hopen.source with ⟨-, hk'⟩ | ⟨hr, -⟩
        · omega
        · -- nobody can ping a new room
          rw [hr] at hl
          cases hl
  | replaced hopen => exact key hopen rfl (Nat.le_succ _) fun _ => hopen.isOpen
  | added hopen => exact key hopen rfl (Nat.le_succ _) fun _ => hopen.isOpen

/-- A closed room after a request was closed before it, or was closed by a ping:
then it was full and enough of its members were active. -/
theorem Handles.closing (h : Handles env clock request before k (some r') k' answer)
    (hterm : r'.lastStage = .terminated) :
    (before = some r') ∨
      ∃ r info, before = some r ∧ r.lastStage = .signup ∧
        r.memberInfo.lookup request.partyNumber = some info ∧
        r' = (r.seat request.partyNumber { info with lastPing := clock.ping }).close ∧
        (r.seat request.partyNumber { info with lastPing := clock.ping }).Settles env clock := by
  cases h with
  | informed => exact Or.inl rfl
  | turnedAway => exact Or.inl rfl
  | full => exact Or.inl rfl
  | unknownUuid => exact Or.inl rfl
  | stillActive => exact Or.inl rfl
  | replaced hopen =>
      have hs : SigningRoom.lastStage _ = .signup := hopen.isOpen
      rw [SigningRoom.seat, hs] at hterm
      cases hterm
  | added hopen =>
      have hs : SigningRoom.lastStage _ = .signup := hopen.isOpen
      rw [SigningRoom.seat, hs] at hterm
      cases hterm
  | @pinged _ r _ info _ _ hopen _ hl _ hr' _ =>
      have hs := hopen.isOpen
      rcases hopen.source with ⟨hb, -⟩ | ⟨hr, -⟩
      · refine Or.inr ⟨r, info, hb, hs, hl, ?_⟩
        unfold SigningRoom.settle at hr'
        split at hr'
        next hc =>
          rw [hr']
          exact ⟨rfl, hc⟩
        next =>
          rw [hr', SigningRoom.seat, hs] at hterm
          cases hterm
      · rw [hr] at hl
        cases hl

/-- An answer that carries a room UUID is given from a closed room, in which the
party that asked has the order and the id of the answer. -/
theorem Handles.answered {s : SigningPartySignup}
    (h : Handles env clock request before k after k' (.ok s)) (hs : s.roomUuid ≠ "") :
    ∃ r' info, after = some r' ∧ r'.lastStage = .terminated ∧ r'.roomUuid = s.roomUuid ∧
      r'.memberInfo.lookup request.partyNumber = some info ∧
      info.partyOrder = s.partyOrder ∧ info.partyId = s.partyUuid ∧
      s.partyUuid = request.partyUuid ∧
      s.totalJoined = UInt16.ofNat (r'.activeCount env clock.info) := by
  have key : ∀ {r' : SigningRoom} {info : SigningPartyInfo},
      (r'.infoFor env clock.info info).roomUuid ≠ "" →
      r'.lastStage = .terminated ∧ r'.roomUuid = (r'.infoFor env clock.info info).roomUuid := by
    intro r' info hne
    simp only [SigningRoom.infoFor] at hne ⊢
    split at hne
    next => exact absurd rfl hne
    next hstage =>
      rw [if_neg hstage]
      cases hst : r'.lastStage with
      | signup => exact absurd hst hstage
      | terminated => exact ⟨rfl, rfl⟩
  cases h with
  | @informed r info _ hterm hl hid _ =>
      exact ⟨r, info, rfl, hterm, (key hs).2, hl, rfl, rfl, hid, rfl⟩
  | @pinged _ r r' info _ _ hopen _ hl hid hr' _ =>
      refine ⟨r', { info with lastPing := clock.ping }, rfl, (key hs).1, (key hs).2, ?_, rfl, rfl,
        hid, rfl⟩
      rw [hr', SigningRoom.settle_memberInfo]
      exact AList.lookup_insert _
  | replaced => exact absurd rfl hs
  | added => exact absurd rfl hs

/-- A closed room stays as it is, or makes place for a new one. -/
theorem Handles.frozen (h : Handles env clock request (some r) k after k' answer)
    (hterm : r.lastStage = .terminated) :
    after = some r ∨ ∃ r', after = some r' ∧ r'.roomUuid = env.uuid k ∧ k < k' := by
  have key : ∀ {r₁ : SigningRoom} {k₁ : Nat}, Opens env clock request (some r) k r₁ k₁ →
      r₁ = SigningRoom.fresh env k request.roomId (request.threshold + 1) ∧ k₁ = k + 1 := by
    intro r₁ k₁ hopen
    rcases hopen.source with ⟨he, -⟩ | he
    · rw [Option.some.inj he, hopen.isOpen] at hterm
      cases hterm
    · exact he
  cases h with
  | informed => exact Or.inl rfl
  | turnedAway => exact Or.inl rfl
  | full => exact Or.inl rfl
  | unknownUuid => exact Or.inl rfl
  | stillActive => exact Or.inl rfl
  | pinged hopen _ hl =>
      rw [(key hopen).1] at hl
      cases hl
  | replaced hopen _ hl =>
      rw [(key hopen).1] at hl
      cases hl
  | added hopen =>
      obtain ⟨hr, hk⟩ := key hopen
      refine Or.inr ⟨_, rfl, ?_, by omega⟩
      rw [hr]
      rfl

end

end TssCli
