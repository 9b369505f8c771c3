import TssCli.Room.Recovery
import TssCli.System.Seats

/-!
# Sessions that begin

Clients that sign up while nobody else does are let into one session.  As many as a key
generation is for get its numbers one after the other, if the last one on the curve is
complete (`WorldRun.keygenGathers`).  As many as a signature needs get the orders of a
new room: all of them join, and then each polls once (`WorldRun.signGathers`).
-/

namespace TssCli

open AssocValues Transition

section

variable {α : Type}

/-- The events take the world on, from `w` to `w'`: the requests of some clients are
answered, and all others stay where they are.  No party is added to a full room, and who
polls a closed room, or closes it, finds all of its members active. -/
structure Gathers (env : Env) (keygenJson : Codec PartySignup) (roomJson : Codec SigningRoom)
    (commands : Nat → Command α) (clients : Nat → Prop) (w w' : World α)
    (more tr : List WorldEvent) : Prop where
  run : WorldRun env keygenJson roomJson commands w' (more ++ tr)
  answers : ∀ e ∈ more, ∃ i record, e = .answered i false record
  size : ∀ e ∈ more.filterMap (WorldEvent.system env roomJson), RespectsSize env e.event
  active : ∀ e ∈ more.filterMap (WorldEvent.system env roomJson), e.FindsAllActive env
  others : ∀ i, ¬ clients i → w'.process i = w.process i

variable {env : Env} {keygenJson : Codec PartySignup} {roomJson : Codec SigningRoom}
  {commands : Nat → Command α} {clients : Nat → Prop} {w w' : World α}
  {tr more : List WorldEvent} {i : Nat}

theorem WorldRun.gathersNone (hrun : WorldRun env keygenJson roomJson commands w tr)
    (clients : Nat → Prop) :
    Gathers env keygenJson roomJson commands clients w w [] tr where
  run := hrun
  answers := by simp
  size := by simp
  active := by simp
  others _ _ := rfl

/-- One more request is answered. -/
theorem Gathers.answer (h : Gathers env keygenJson roomJson commands clients w w' more tr)
    (hi : clients i) {now : UInt64} {request : ManagerRequest}
    (hr : (w'.process i).request = some request) (hnow : w'.manager.clock ≤ now)
    (hsystem : ∀ e, (WorldEvent.answered i false ⟨w'.manager, .request now request⟩).system env
      roomJson = some e → RespectsSize env e.event ∧ e.FindsAllActive env) :
    Gathers env keygenJson roomJson commands clients w
      (w'.answer env keygenJson roomJson commands i false now request)
      (.answered i false ⟨w'.manager, .request now request⟩ :: more) tr where
  run := h.run.snoc (.answered false hr (Clock.ordered_steady hnow))
  answers := List.forall_mem_cons.mpr ⟨⟨i, _, rfl⟩, h.answers⟩
  size e he := by
    obtain ⟨e', he', hs⟩ := List.mem_filterMap.mp he
    rcases List.mem_cons.mp he' with rfl | hmem
    · exact (hsystem e hs).1
    · exact h.size e (List.mem_filterMap.mpr ⟨e', hmem, hs⟩)
  active e he := by
    obtain ⟨e', he', hs⟩ := List.mem_filterMap.mp he
    rcases List.mem_cons.mp he' with rfl | hmem
    · exact (hsystem e hs).2
    · exact h.active e (List.mem_filterMap.mpr ⟨e', hmem, hs⟩)
  others j hj := by
    refine Eq.trans (Function.update_of_ne ?_ _ _) (h.others j hj)
    rintro rfl
    exact hj hi

/-! ## Key generations -/

section

variable {m : ManagerState} {curve : String} {threshold parties : UInt16}

/-- A sign-up for a key generation is answered with the next number. -/
theorem handle_counts (env : Env) (roomJson : Codec SigningRoom) (hwhole : m.poisoned = false)
    (hread : ∀ o, m.db (keygenKey curve) = some o → ∃ c, o = keygenJson.encode c) (now : UInt64)
    (threshold parties : UInt16) :
    ∃ s k', handle env keygenJson roomJson m now
        (.signupKeygen ⟨toString parties.toNat, toString threshold.toNat⟩ curve) =
        (⟨set m.db ⟨keygenKey curve, keygenJson.encode s⟩, k', false, now⟩, .ok (.keygen s)) ∧
      Counts env parties (counterAt keygenJson m.db (keygenKey curve)) m.issued s k' := by
  generalize toString threshold.toNat = printed
  have hparse : parseU16 (Params.mk (toString parties.toNat) printed).parties = .ok parties :=
    parseU16_toString parties
  obtain ⟨s, k', hsignup, hcounts⟩ : ∃ s k',
      (signupKeygen env keygenJson ⟨toString parties.toNat, printed⟩ curve m.db).run m.issued =
        .ok ((s, set m.db ⟨keygenKey curve, keygenJson.encode s⟩), k') ∧
      Counts env parties (counterAt keygenJson m.db (keygenKey curve)) m.issued s k' :=
    signupKeygen_run env keygenJson curve hparse hread m.issued
  have hserve : serveKeygen env keygenJson ⟨m.db, m.issued, m.poisoned⟩
      ⟨toString parties.toNat, printed⟩ curve =
        (⟨set m.db ⟨keygenKey curve, keygenJson.encode s⟩, k', m.poisoned⟩, .ok s) :=
    serveKeygen_of_run hparse hwhole hsignup
  refine ⟨s, k', ?_, hcounts⟩
  rw [handle_keygen, hserve, hwhole]
  rfl

theorem system_keygen (m : ManagerState) (i : Nat) (now : UInt64) (params : Params)
    (curve : String) : (WorldEvent.answered i false
      ⟨m, .request now (.signupKeygen params curve)⟩).system env roomJson = none := rfl

/-- The client signs up for the key generation, and gets the next number. -/
theorem Gathers.count (h : Gathers env keygenJson roomJson commands clients w w' more tr)
    (hwhole : w'.manager.poisoned = false)
    (hread : ∀ o, w'.manager.db (keygenKey curve) = some o → ∃ c, o = keygenJson.encode c)
    (hi : clients i) (hp : w'.process i = .keygen threshold parties curve) :
    ∃ s k' w₁ more', Gathers env keygenJson roomJson commands clients w w₁ more' tr ∧
      w₁.manager.poisoned = false ∧
      Counts env parties (counterAt keygenJson w'.manager.db (keygenKey curve)) w'.manager.issued
        s k' ∧
      w₁.manager.db (keygenKey curve) = some (keygenJson.encode s) ∧
      w₁.process = Function.update w'.process i
        (.session s parties ((commands i).body s parties)) := by
  obtain ⟨s, k', hhandle, hcounts⟩ :=
    handle_counts env roomJson hwhole hread w'.manager.clock threshold parties
  have hr : (w'.process i).request = some
      (.signupKeygen ⟨toString parties.toNat, toString threshold.toNat⟩ curve) := by
    rw [hp]
    rfl
  refine ⟨s, k', _, _, h.answer hi hr (UInt64.le_refl _) fun e he => ?_, ?_, hcounts, ?_, ?_⟩
  · rw [system_keygen] at he
    cases he
  · rw [World.answer, hhandle]
  · rw [World.answer, hhandle]
    exact Function.update_self ..
  · rw [World.answer, hhandle, hp]
    rfl

/-- The clients of a key generation, one after the other, get the numbers of a new group, if
the last one on the curve is complete. -/
theorem WorldRun.keygenGathers (hrun : WorldRun env keygenJson roomJson commands w tr)
    (hwhole : w.manager.poisoned = false)
    (hread : ∀ o, w.manager.db (keygenKey curve) = some o → ∃ c, o = keygenJson.encode c)
    (hended : ∀ c, counterAt keygenJson w.manager.db (keygenKey curve) = some c →
      parties ≤ c.number)
    {client : Nat → Nat} (hinj : Set.InjOn client (Set.Icc 1 parties.toNat))
    (hclients : ∀ k, 1 ≤ k → k ≤ parties.toNat →
      w.process (client k) = .keygen threshold parties curve) (hone : 1 ≤ parties.toNat) :
    ∃ j w' more, w.manager.issued ≤ j ∧
      Gathers env keygenJson roomJson commands
        (fun i => ∃ k, 1 ≤ k ∧ k ≤ parties.toNat ∧ i = client k) w w' more tr ∧
      w'.manager.poisoned = false ∧
      ∀ k, 1 ≤ k → k ≤ parties.toNat → w'.process (client k) =
        .session ⟨UInt16.ofNat k, env.uuid j⟩ parties
          ((commands (client k)).body ⟨UInt16.ofNat k, env.uuid j⟩ parties) := by
  set clients : Nat → Prop := fun i => ∃ k, 1 ≤ k ∧ k ≤ parties.toNat ∧ i = client k
  obtain ⟨s, k', w₁, more₁, hgathers, hwhole₁, hcounts, hdb, hprocess⟩ :=
    (hrun.gathersNone clients).count hwhole hread ⟨1, le_rfl, hone, rfl⟩ (hclients 1 le_rfl hone)
  obtain ⟨j, hj, rfl⟩ : ∃ j, w.manager.issued ≤ j ∧ s = ⟨1, env.uuid j⟩ := by
    generalize hc : counterAt keygenJson w.manager.db (keygenKey curve) = before at hcounts
    cases hcounts with
    | next hlt => exact absurd hlt (UInt16.not_lt.mpr (hended _ hc))
    | first _ hle => exact ⟨_, hle, rfl⟩
  -- By induction on the last number that was given.
  have hall : ∀ last, 1 ≤ last → last ≤ parties.toNat → ∃ w' more,
      Gathers env keygenJson roomJson commands clients w w' more tr ∧
      w'.manager.poisoned = false ∧
      w'.manager.db (keygenKey curve) =
        some (keygenJson.encode ⟨UInt16.ofNat last, env.uuid j⟩) ∧
      (∀ k, 1 ≤ k → k ≤ last → w'.process (client k) =
        .session ⟨UInt16.ofNat k, env.uuid j⟩ parties
          ((commands (client k)).body ⟨UInt16.ofNat k, env.uuid j⟩ parties)) ∧
      ∀ k, last < k → k ≤ parties.toNat →
        w'.process (client k) = .keygen threshold parties curve := by
    intro last hlast
    induction last, hlast using Nat.le_induction with
    | base =>
        refine fun _ => ⟨w₁, more₁, hgathers, hwhole₁, hdb, fun k h₁ hk => ?_, fun k h₁ hk => ?_⟩
        · obtain rfl := Nat.le_antisymm hk h₁
          rw [hprocess, Function.update_self]
          rfl
        · have hne : client k ≠ client 1 := fun he =>
            h₁.ne' (hinj ⟨h₁.le, hk⟩ ⟨le_rfl, hone⟩ he)
          rw [hprocess, Function.update_of_ne hne]
          exact hclients k h₁.le hk
    | succ last h₁ ih =>
        intro hlast
        obtain ⟨w₂, more₂, hgathers₂, hwhole₂, hdb₂, hseated, hwaiting⟩ :=
          ih (Nat.le_of_succ_le hlast)
        obtain ⟨s, k', w₃, more₃, hgathers₃, hwhole₃, hcounts₃, hdb₃, hprocess₃⟩ :=
          hgathers₂.count hwhole₂ (fun o ho => ⟨_, Option.some.inj (ho.symm.trans hdb₂)⟩)
            ⟨last + 1, Nat.le_add_left 1 last, hlast, rfl⟩
            (hwaiting _ (Nat.lt_succ_self last) hlast)
        have hc : counterAt keygenJson w₂.manager.db (keygenKey curve) =
            some ⟨UInt16.ofNat last, env.uuid j⟩ := by
          rw [counterAt, hdb₂, Option.bind_some, keygenJson.decode_encode]
        have hto : (UInt16.ofNat last).toNat = last :=
          UInt16.toNat_ofNat_of_lt' ((Nat.le_of_succ_le hlast).trans_lt parties.toNat_lt)
        have hlt : UInt16.ofNat last < parties := by
          rw [UInt16.lt_iff_toNat_lt, hto]
          exact hlast
        obtain rfl : s = ⟨UInt16.ofNat (last + 1), env.uuid j⟩ := by
          rw [hc] at hcounts₃
          cases hcounts₃ with
          | next => simp
          | first hnone => exact absurd hlt (UInt16.not_lt.mpr (hnone _ rfl))
        refine ⟨w₃, more₃, hgathers₃, hwhole₃, hdb₃, fun k h₁ hk => ?_, fun k hk hparties => ?_⟩
        · by_cases hlt : k = last + 1
          · subst hlt
            rw [hprocess₃, Function.update_self]
          · have hne : client k ≠ client (last + 1) := fun he =>
              hlt (hinj ⟨h₁, hk.trans hlast⟩ ⟨Nat.le_add_left 1 last, hlast⟩ he)
            rw [hprocess₃, Function.update_of_ne hne]
            exact hseated k h₁ (by omega)
        · have hne : client k ≠ client (last + 1) := fun he =>
            hk.ne' (hinj ⟨by omega, hparties⟩ ⟨Nat.le_add_left 1 last, hlast⟩ he)
          rw [hprocess₃, Function.update_of_ne hne]
          exact hwaiting k (by omega) hparties
  obtain ⟨w', more, hgathers', hwhole', -, hseated, -⟩ := hall parties.toNat hone le_rfl
  exact ⟨j, w', more, hj, hgathers', hwhole', hseated⟩

end

/-! ## Rooms -/

/-- A room in which everybody has pinged now. -/
def SigningRoom.AllNow (r : SigningRoom) (now : UInt64) : Prop :=
  ∀ x ∈ r.memberInfo.values, x.lastPing = now

section

variable {q : RoomSession} {P : Finset UInt16} {now : UInt64} {parties : UInt16 → PartyState}
  {r r' : SigningRoom} {k k' : Nat} {request : PartySignupRequestBody}
  {before : Option SigningRoom} {answer : SignupAnswer}

theorem SigningRoom.AllNow.active (h : r.AllNow now)
    (htimeout : env.signupTimeout.toNat ≤ now.toNat) :
    ∀ x ∈ r.memberInfo.values, timedOut env now x = false := by
  intro x hx
  rw [← Bool.not_eq_true, timedOut_iff htimeout, h x hx]
  omega

theorem SigningRoom.AllNow.seat (h : r.AllNow now) (n : UInt16) {info : SigningPartyInfo}
    (hinfo : info.lastPing = now) : (r.seat n info).AllNow now := by
  intro x hx
  obtain ⟨n', hl⟩ := mem_values_iff.mp hx
  by_cases hn : n' = n
  · subst hn
    rw [SigningRoom.seat, AList.lookup_insert] at hl
    rw [← Option.some.inj hl, hinfo]
  · rw [SigningRoom.seat, AList.lookup_insert_ne hn] at hl
    exact h x (mem_values_of_lookup hl)

/-- If everybody has pinged now, everybody has after a request. -/
theorem Handles.allNow (h : Handles env now request before k (some r') k' answer)
    (hbefore : ∀ r, before = some r → r.AllNow now) : r'.AllNow now := by
  have opened : ∀ {r : SigningRoom} {k₁ : Nat}, Opens env now request before k r k₁ →
      r.AllNow now := by
    intro r k₁ hopen
    rcases hopen.source with ⟨he, -⟩ | ⟨rfl, -⟩
    · exact hbefore r he
    · intro x hx
      cases hx
  cases h with
  | informed => exact hbefore r' rfl
  | turnedAway => exact hbefore r' rfl
  | full => exact hbefore r' rfl
  | unknownUuid => exact hbefore r' rfl
  | stillActive => exact hbefore r' rfl
  | pinged hopen _ _ _ hr' _ =>
      intro x hx
      rw [hr', SigningRoom.settle_memberInfo] at hx
      exact (opened hopen).seat request.partyNumber rfl x hx
  | replaced hopen => exact (opened hopen).seat _ rfl
  | added hopen => exact (opened hopen).seat _ rfl

/-- The active members of a closed room in which everybody has pinged now. -/
theorem ClosedRoom.activeCount (h : ClosedRoom env q P ∅ r k parties) (hnow : r.AllNow now)
    (htimeout : env.signupTimeout.toNat ≤ now.toNat) : r.activeCount env now = P.card := by
  refine SigningRoom.activeCount_eq_card fun n => ?_
  have hseat := h.seats n
  have active : (∃ info, r.memberInfo.lookup n = some info) →
      ∃ info, r.memberInfo.lookup n = some info ∧ timedOut env now info = false :=
    fun ⟨info, hl⟩ => ⟨info, hl, hnow.active htimeout info (mem_values_of_lookup hl)⟩
  cases hst : parties n with
  | idle =>
      rw [hst] at hseat
      refine iff_of_false hseat.1 fun ⟨info, hl, _⟩ => ?_
      rw [hseat.2] at hl
      cases hl
  | waiting id last =>
      rw [hst] at hseat
      exact iff_of_true hseat.1 (active (hseat.2.imp fun _ hl => hl.1))
  | done s =>
      rw [hst] at hseat
      exact iff_of_true hseat.1 (active (hseat.2.imp fun _ hl => hl.1))
  | failed =>
      rw [hst] at hseat
      exact hseat.elim

end

/-! ## Signings -/

section

variable {q : RoomSession} {P : Finset UInt16} {now : UInt64} {parties : UInt16 → PartyState}
  {body : PartySignup → UInt16 → Client α} {process : Process α} {p : UInt16} {id : String}

theorem after_ne_idle (now : UInt64) (s : SigningPartySignup) :
    PartyState.after now (.ok (.ok s)) ≠ .idle := by
  unfold PartyState.after
  dsimp only
  split <;> exact fun h => by cases h

/-- What a client does as the party `p` of a room, from where the party stands. -/
def PartyState.Runs (q : RoomSession) (body : PartySignup → UInt16 → Client α) (p : UInt16)
    (process : Process α) : PartyState → Prop
  | .idle => process = .signup (.first (q.request p ""))
  | .waiting id _ => ∃ loop, process = .signup (.polling loop) ∧
      { loop.request with partyUuid := loop.partyUuid } = q.request p id
  | .done s => process = .session ⟨s.partyOrder, s.roomUuid⟩ s.totalJoined
      (body ⟨s.partyOrder, s.roomUuid⟩ s.totalJoined)
  | .failed => False

/-- A party that joins, or that polls once all have joined. -/
def PartyState.Sends (P : Finset UInt16) (parties : UInt16 → PartyState) (p : UInt16)
    (id : String) : Prop :=
  (parties p = .idle ∧ id = "") ∨
    (∃ last, parties p = .waiting id last) ∧ ∀ n ∈ P, parties n ≠ .idle

theorem PartyState.Runs.request (h : (parties p).Runs q body p process)
    (hs : PartyState.Sends P parties p id) :
    process.request = some (.signupSign (q.request p id)) := by
  rcases hs with ⟨hp, rfl⟩ | ⟨⟨last, hp⟩, -⟩
  · rw [hp] at h
    rw [h]
    rfl
  · rw [hp] at h
    obtain ⟨loop, rfl, hloop⟩ := h
    show Option.map _ (some { loop.request with partyUuid := loop.partyUuid }) = _
    rw [hloop]
    rfl

/-- It goes on as the party does. -/
theorem PartyState.Runs.receive (h : (parties p).Runs q body p process)
    (hs : PartyState.Sends P parties p id) {s : SigningPartySignup}
    (hall : (∀ n ∈ P, parties n ≠ .idle) → s.roomUuid ≠ "") :
    (PartyState.after now (.ok (.ok s))).Runs q body p
      (process.receive body false (.ok (.sign (.ok s)))) := by
  rcases hs with ⟨hp, rfl⟩ | ⟨⟨last, hp⟩, hjoined⟩
  · rw [hp] at h
    obtain rfl := h
    unfold PartyState.after
    dsimp only [Process.receive, signAnswer, SignupCall.receive, Polling.next]
    by_cases hu : s.roomUuid = ""
    · rw [if_pos hu, if_pos (String.isEmpty_iff.mpr hu), if_neg Bool.false_ne_true]
      exact ⟨_, rfl, rfl⟩
    · rw [if_neg hu, if_neg fun he => hu (String.isEmpty_iff.mp he)]
      rfl
  · rw [hp] at h
    obtain ⟨loop, rfl, hloop⟩ := h
    have hu := hall hjoined
    obtain ⟨htotal, hsignup⟩ := loop.update_eq s
    unfold PartyState.after
    dsimp only [Process.receive, signAnswer, SignupCall.receive, Polling.next]
    rw [if_neg hu, hsignup, htotal, if_neg fun he => hu (String.isEmpty_iff.mp he)]
    rfl

/-- The number of signers. -/
theorem toNat_threshold {threshold : UInt16} (h : threshold.toNat + 1 < UInt16.size) :
    (threshold + 1).toNat = threshold.toNat + 1 := by
  rw [UInt16.toNat_add]
  exact Nat.mod_eq_of_lt h

/-- The parties at a room in which everybody has pinged now. -/
structure RoomNow (env : Env) (roomJson : Codec SigningRoom) (q : RoomSession)
    (P : Finset UInt16) (now : UInt64) (m : ManagerState) (parties : UInt16 → PartyState) :
    Prop where
  inv : RecoveryInv env roomJson q P ∅ now ⟨{ m with clock := now }, parties⟩
  pinged : ∀ r, roomAt roomJson m.db q.key = some r → r.AllNow now
  last : ∀ p id last, parties p = .waiting id last → last = now

theorem serve_clock (env : Env) (json : Codec SigningRoom) (m : ManagerState) (now : UInt64)
    (request : PartySignupRequestBody) : (serve env json m now request).1.clock = now := by
  unfold serve
  split
  next => rfl
  next => split <;> rfl

/-- A party that sends a request is answered, and with the room UUID once all have joined. -/
theorem RoomNow.serve {m : ManagerState} (h : RoomNow env roomJson q P now m parties)
    (hc : Comeback env q P ∅ now) (hp : p ∈ P) (hs : PartyState.Sends P parties p id) :
    ∃ s, (serve env roomJson m now (q.request p id)).2 = .ok (.ok s) ∧
      RoomNow env roomJson q P now (serve env roomJson m now (q.request p id)).1
        (Function.update parties p (.after now (.ok (.ok s)))) ∧
      ((∀ n ∈ P, parties n ≠ .idle) → s.roomUuid ≠ "") ∧
      (s.roomUuid ≠ "" → s.totalJoined = q.threshold + 1) := by
  have htime : InTime env parties now := by
    intro n id last hn
    rw [h.last n id last hn]
    omega
  have hstep : RecoveryStep env roomJson q P ⟨{ m with clock := now }, parties⟩ p
      ⟨(TssCli.serve env roomJson m now (q.request p id)).1, Function.update parties p
        (.after now (TssCli.serve env roomJson m now (q.request p id)).2)⟩ := by
    rcases hs with ⟨hidle, rfl⟩ | ⟨⟨last, hw⟩, -⟩
    · exact .join hp hidle (Clock.ordered_steady (UInt64.le_refl now)) htime
    · exact .poll hw (Clock.ordered_steady (UInt64.le_refl now)) htime
  obtain ⟨hinv, hall⟩ := h.inv.step hc hstep
  have hseat := hinv.seat p
  have hcases := serve_cases env roomJson m now (q.request p id)
  have hrecord : (recordOf env roomJson m now (q.request p id)).answer =
    (TssCli.serve env roomJson m now (q.request p id)).2 := rfl
  dsimp only at hseat hall
  rw [Function.update_self] at hseat hall
  obtain ⟨s, hok, hhandles⟩ : ∃ s, (TssCli.serve env roomJson m now (q.request p id)).2 =
      .ok (.ok s) ∧ Handles env now (q.request p id)
        (recordOf env roomJson m now (q.request p id)).before m.issued
        (recordOf env roomJson m now (q.request p id)).after
        (TssCli.serve env roomJson m now (q.request p id)).1.issued (.ok s) := by
    rcases hcases with ⟨e, ha, -⟩ | ⟨answer, ha, hh, -⟩
    · rw [← hrecord, ha] at hseat
      exact absurd rfl hseat
    · cases answer with
      | error e =>
          rw [← hrecord, ha] at hseat
          exact absurd rfl hseat
      | ok s => exact ⟨s, hrecord ▸ ha, hh⟩
  rw [hok] at hinv hall
  have hpinged : ∀ r, roomAt roomJson (TssCli.serve env roomJson m now (q.request p id)).1.db
      q.key = some r → r.AllNow now := by
    intro r hr
    have hafter : (recordOf env roomJson m now (q.request p id)).after = some r := hr
    rw [hafter] at hhandles
    exact hhandles.allNow h.pinged
  refine ⟨s, hok, ⟨?_, hpinged, fun n id' last hn => ?_⟩, fun hjoined hu => ?_, fun hu => ?_⟩
  · have hclock := serve_clock env roomJson m now (q.request p id)
    generalize (TssCli.serve env roomJson m now (q.request p id)).1 = m' at hinv hclock
    cases m'
    cases hclock
    exact hinv
  · by_cases hnp : n = p
    · subst hnp
      rw [Function.update_self] at hn
      exact PartyState.last_after hn
    · rw [Function.update_of_ne hnp] at hn
      exact h.last n id' last hn
  · obtain ⟨s', hdone⟩ := hall hjoined
    rw [PartyState.after, if_pos hu] at hdone
    cases hdone
  · obtain ⟨r, info, hafter, -, hreads⟩ :=
      Handles.reads (c := recordOf env roomJson m now (q.request p id)) hhandles hu
    obtain ⟨before, hread, hphase⟩ := hinv.phase
    obtain rfl : before = some r := (readRoom_ok hread).trans hafter
    dsimp only at hphase
    cases hphase with
    | opened _ hopen =>
        have hseat := hopen.seats p
        rw [Function.update_self, PartyState.after, if_neg hu] at hseat
        exact hseat.elim
    | closed hclosed =>
        rw [hreads.total]
        show UInt16.ofNat (r.activeCount env now) = _
        rw [hclosed.activeCount (hpinged r hafter) hc.timeout, hc.card]
        simp

/-! ## Signings in the world -/

variable {client : UInt16 → Nat}

/-- The clients in the world stand where the parties do at the room. -/
structure AtRoom (env : Env) (roomJson : Codec SigningRoom) (commands : Nat → Command α)
    (q : RoomSession) (P : Finset UInt16) (now : UInt64) (client : UInt16 → Nat) (w : World α)
    (parties : UInt16 → PartyState) : Prop where
  room : RoomNow env roomJson q P now w.manager parties
  clock : w.manager.clock ≤ now
  runs : ∀ p ∈ P, (parties p).Runs q (commands (client p)).body p (w.process (client p))
  total : ∀ p ∈ P, ∀ s, parties p = .done s → s.totalJoined = q.threshold + 1

/-- A request at a room in which everybody has pinged now. -/
theorem system_sign (m : ManagerState) (i : Nat) {request : PartySignupRequestBody}
    (hpinged : ∀ r, roomAt roomJson m.db (signKey request) = some r → r.AllNow now)
    (htimeout : env.signupTimeout.toNat ≤ now.toNat) {e : SystemEvent}
    (he : (WorldEvent.answered i false ⟨m, .request now (.signupSign request)⟩).system env
      roomJson = some e) : RespectsSize env e.event ∧ e.FindsAllActive env := by
  obtain rfl : SystemEvent.client i false (recordOf env roomJson m now request) = e :=
    Option.some.inj he
  constructor
  · rintro c hc ⟨-, r, hr, -, -, -, x, hx, ht⟩
    obtain rfl := SignEvent.request.inj hc
    have hactive : timedOut env now x = false := (hpinged r hr).active htimeout x hx
    exact absurd (ht.symm.trans hactive) (by simp)
  · intro r hr info _ _
    have hall := hpinged r hr
    exact ⟨fun _ => hall.active htimeout,
      fun _ _ => (hall.seat request.partyNumber rfl).active htimeout⟩

variable (hc : Comeback env q P ∅ now) (hinj : Set.InjOn client P)
  (hclient : ∀ p ∈ P, clients (client p))

include hc hinj hclient

theorem AtRoom.step (h : AtRoom env roomJson commands q P now client w' parties)
    (hg : Gathers env keygenJson roomJson commands clients w w' more tr) (hp : p ∈ P)
    (hs : PartyState.Sends P parties p id) :
    ∃ s w₁ more', Gathers env keygenJson roomJson commands clients w w₁ more' tr ∧
      AtRoom env roomJson commands q P now client w₁
        (Function.update parties p (.after now (.ok (.ok s)))) ∧
      ((∀ n ∈ P, parties n ≠ .idle) → s.roomUuid ≠ "") := by
  obtain ⟨s, hok, hroom, hjoined, htotal⟩ := h.room.serve hc hp hs
  refine ⟨s, _, _, hg.answer (hclient p hp) ((h.runs p hp).request hs) h.clock
    fun e he => system_sign w'.manager (client p) h.room.pinged hc.timeout he,
    ⟨hroom, ?_, fun n hn => ?_, fun n hn s' hdone => ?_⟩, hjoined⟩
  · show (TssCli.serve env roomJson w'.manager now (q.request p id)).1.clock ≤ now
    rw [serve_clock]
    exact UInt64.le_refl now
  · show (Function.update parties p (.after now (.ok (.ok s))) n).Runs q _ n
      (Function.update w'.process (client p) ((w'.process (client p)).receive
        (commands (client p)).body false
          ((TssCli.serve env roomJson w'.manager now (q.request p id)).2.map .sign)) (client n))
    rw [hok]
    by_cases hnp : n = p
    · subst hnp
      rw [Function.update_self, Function.update_self]
      exact (h.runs n hn).receive hs hjoined
    · rw [Function.update_of_ne hnp, Function.update_of_ne fun he => hnp (hinj hn hp he)]
      exact h.runs n hn
  · by_cases hnp : n = p
    · subst hnp
      rw [Function.update_self] at hdone
      unfold PartyState.after at hdone
      dsimp only at hdone
      split at hdone
      next => cases hdone
      next hu =>
        obtain rfl := PartyState.done.inj hdone
        exact htotal hu
    · rw [Function.update_of_ne hnp] at hdone
      exact h.total n hn s' hdone

/-- All parties join. -/
theorem AtRoom.join (h : AtRoom env roomJson commands q P now client w' parties)
    (hg : Gathers env keygenJson roomJson commands clients w w' more tr) (Q : Finset UInt16)
    (hQ : Q ⊆ P) :
    ∃ w₁ more₁ parties₁, Gathers env keygenJson roomJson commands clients w w₁ more₁ tr ∧
      AtRoom env roomJson commands q P now client w₁ parties₁ ∧ ∀ p ∈ Q, parties₁ p ≠ .idle := by
  induction Q using Finset.induction_on with
  | empty => exact ⟨w', more, parties, hg, h, fun p hp => by simp at hp⟩
  | insert p Q hp ih =>
      obtain ⟨hpP, hQ⟩ := Finset.insert_subset_iff.mp hQ
      obtain ⟨w₁, more₁, parties₁, hg₁, h₁, hjoined⟩ := ih hQ
      by_cases hidle : parties₁ p = .idle
      · obtain ⟨s, w₂, more₂, hg₂, h₂, -⟩ := h₁.step hc hinj hclient hg₁ hpP (Or.inl ⟨hidle, rfl⟩)
        refine ⟨w₂, more₂, _, hg₂, h₂, fun n hn => ?_⟩
        by_cases hnp : n = p
        · subst hnp
          rw [Function.update_self]
          exact after_ne_idle now s
        · rw [Function.update_of_ne hnp]
          exact hjoined n ((Finset.mem_insert.mp hn).resolve_left hnp)
      · refine ⟨w₁, more₁, parties₁, hg₁, h₁, fun n hn => ?_⟩
        rcases Finset.mem_insert.mp hn with rfl | hn
        · exact hidle
        · exact hjoined n hn

/-- Then all of them poll. -/
theorem AtRoom.poll (h : AtRoom env roomJson commands q P now client w' parties)
    (hg : Gathers env keygenJson roomJson commands clients w w' more tr)
    (hjoined : ∀ p ∈ P, parties p ≠ .idle) (Q : Finset UInt16) (hQ : Q ⊆ P) :
    ∃ w₁ more₁ parties₁, Gathers env keygenJson roomJson commands clients w w₁ more₁ tr ∧
      AtRoom env roomJson commands q P now client w₁ parties₁ ∧
      (∀ p ∈ P, parties₁ p ≠ .idle) ∧ ∀ p ∈ Q, ∃ s, parties₁ p = .done s := by
  induction Q using Finset.induction_on with
  | empty => exact ⟨w', more, parties, hg, h, hjoined, fun p hp => by simp at hp⟩
  | insert p Q hp ih =>
      obtain ⟨hpP, hQ⟩ := Finset.insert_subset_iff.mp hQ
      obtain ⟨w₁, more₁, parties₁, hg₁, h₁, hjoined₁, hdone⟩ := ih hQ
      cases hst : parties₁ p with
      | idle => exact absurd hst (hjoined₁ p hpP)
      | failed =>
          have hruns := h₁.runs p hpP
          rw [hst] at hruns
          exact hruns.elim
      | done s =>
          refine ⟨w₁, more₁, parties₁, hg₁, h₁, hjoined₁, fun n hn => ?_⟩
          rcases Finset.mem_insert.mp hn with rfl | hn
          · exact ⟨s, hst⟩
          · exact hdone n hn
      | waiting id last =>
          obtain ⟨s, w₂, more₂, hg₂, h₂, hu⟩ :=
            h₁.step hc hinj hclient hg₁ hpP (Or.inr ⟨⟨last, hst⟩, hjoined₁⟩)
          refine ⟨w₂, more₂, _, hg₂, h₂, fun n hn => ?_, fun n hn => ?_⟩
          · by_cases hnp : n = p
            · subst hnp
              rw [Function.update_self]
              exact after_ne_idle now s
            · rw [Function.update_of_ne hnp]
              exact hjoined₁ n hn
          · by_cases hnp : n = p
            · subst hnp
              rw [Function.update_self, PartyState.after, if_neg (hu hjoined₁)]
              exact ⟨s, rfl⟩
            · rw [Function.update_of_ne hnp]
              exact hdone n ((Finset.mem_insert.mp hn).resolve_left hnp)

/-- As many parties as a signature needs are let into one session, if there is no room yet
at their key. -/
theorem WorldRun.signGathers (hrun : WorldRun env keygenJson roomJson commands w tr)
    (hwhole : w.manager.poisoned = false) (hempty : w.manager.db q.key = none)
    (hclock : w.manager.clock ≤ now)
    (hstart : ∀ p ∈ P, w.process (client p) = .signup (.first (q.request p ""))) :
    ∃ u order w' more, u ≠ "" ∧
      Gathers env keygenJson roomJson commands clients w w' more tr ∧
      w'.manager.poisoned = false ∧
      Set.BijOn order (P : Set UInt16) (Set.Icc 1 (q.threshold.toNat + 1)) ∧
      ∀ p ∈ P, w'.process (client p) =
        .session ⟨UInt16.ofNat (order p), u⟩ (q.threshold + 1)
          ((commands (client p)).body ⟨UInt16.ofNat (order p), u⟩ (q.threshold + 1)) := by
  have hnone : roomAt roomJson w.manager.db q.key = none := by
    rw [roomAt, hempty]
    rfl
  have hsize := toNat_threshold hc.size
  have hat : AtRoom env roomJson commands q P now client w fun _ => .idle := by
    have hopens : ∀ clock p, Clock.All (now ≤ ·) clock →
        Opens env clock (q.request p "") none w.manager.issued
        (SigningRoom.fresh env w.manager.issued q.roomId (q.threshold + 1))
        (w.manager.issued + 1) := fun _ _ _ => .created
    refine ⟨⟨⟨hwhole, UInt64.le_refl now, fun p id last h => (by cases h), none, ?_,
      .opened hopens ?_⟩, ?_, fun p id last h => by cases h⟩, hclock, hstart,
      fun p _ s h => by cases h⟩
    · show readRoom roomJson w.manager.db q.key = .ok none
      rw [readRoom, hempty]
      rfl
    · exact ⟨rfl, hsize, roomOk_fresh .., fun n => rfl⟩
    · intro r hr
      rw [hnone] at hr
      cases hr
  obtain ⟨w₁, more₁, parties₁, hg₁, h₁, hjoined⟩ :=
    hat.join hc hinj hclient (hrun.gathersNone clients) P subset_rfl
  obtain ⟨w₂, more₂, parties₂, hg₂, h₂, -, hdone⟩ :=
    h₁.poll hc hinj hclient hg₁ hjoined P subset_rfl
  obtain ⟨u, order, hu, hseats, hbij⟩ := h₂.room.inv.agreed hc hdone
  refine ⟨u, order, w₂, more₂, hu, hg₂, h₂.room.inv.healthy, hbij, fun p hp => ?_⟩
  obtain ⟨s, hst, rfl, horder⟩ := hseats p hp
  change parties₂ p = .done s at hst
  have hruns := h₂.runs p hp
  rw [hst] at hruns
  have horder : UInt16.ofNat (order p) = s.partyOrder := by
    rw [← horder, UInt16.ofNat_toNat]
  rw [horder, ← h₂.total p hp s hst]
  exact hruns

end

end

end TssCli
