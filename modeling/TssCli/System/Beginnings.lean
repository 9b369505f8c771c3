import TssCli.System.Completion
import TssCli.System.Gathering

/-!
# From the start

In a world in which nobody else is, clients that sign up are let into one session
(`Begun`), and it can go on to its end.  In any world, clients of one session have
different seats (`WorldRun.seats_apart`).
-/

namespace TssCli

open Mailbox Mailbox.Script Transition

/-! ## Sessions with nobody else -/

section

variable {α : Type}

theorem Process.start_holds {command : Command α} {seat : PartySignup} {total : UInt16} :
    ¬ (Process.start command).Holds seat total := by
  rintro ⟨s, h⟩
  unfold Process.start at h
  split at h <;> cases h

/-- From the start on, some clients have been let into one session, and nothing else has
happened. -/
structure Begun (env : Env) (keygenJson : Codec PartySignup) (roomJson : Codec SigningRoom)
    (commands : Nat → Command α) (client : Nat → Nat) (uuid : String) (total : UInt16) (w : World α)
    (tr : List WorldEvent) : Prop where
  gathers : Gathers env keygenJson roomJson commands
    (fun i => ∃ k, 1 ≤ k ∧ k ≤ total.toNat ∧ i = client k) (World.init commands) w tr []
  whole : w.manager.poisoned = false
  seated : ∀ k, 1 ≤ k → k ≤ total.toNat → w.process (client k) =
    .session ⟨UInt16.ofNat k, uuid⟩ total
      ((commands (client k)).body ⟨UInt16.ofNat k, uuid⟩ total)

variable {env : Env} {keygenJson : Codec PartySignup} {roomJson : Codec SigningRoom}
  {commands : Nat → Command α} {client : Nat → Nat} {uuid : String} {total : UInt16} {w : World α}
  {tr : List WorldEvent}

section

variable (h : Begun env keygenJson roomJson commands client uuid total w tr)

include h

theorem Begun.run : WorldRun env keygenJson roomJson commands w tr := by
  have hrun := h.gathers.run
  rwa [List.append_nil] at hrun

theorem Begun.not_other {record : ManagerRecord} (hr : .other record ∈ tr) : False := by
  obtain ⟨i, record', he⟩ := h.gathers.answers _ hr
  cases he

theorem Begun.within (expires : Key → Prop) : ∀ e ∈ tr, e.Within expires := by
  rintro e he record key rfl
  exact (h.not_other he).elim

/-- Only the client that somebody stops is stopped. -/
theorem Begun.stopped_broke {i j : Nat} {e p : Panic} :
    Stopped j p (.broke i e :: tr) ↔ j = i ∧ p = e := by
  constructor
  · rintro ⟨later, e', before, heq, hstops⟩
    cases later with
    | nil =>
        obtain ⟨rfl, rfl⟩ := List.cons.inj heq
        rcases hstops with hbroke | ⟨hmiss, -⟩
        · cases hbroke
          exact ⟨rfl, rfl⟩
        · exact hmiss.elim
    | cons l later =>
        obtain ⟨rfl, rfl⟩ := List.cons.inj heq
        obtain ⟨i', record, rfl⟩ := h.gathers.answers e'
          (List.mem_append_right _ (List.mem_cons_self ..))
        rcases hstops with hbroke | ⟨hmiss, -⟩
        · cases hbroke
        · exact hmiss.elim
  · rintro ⟨rfl, rfl⟩
    exact WorldEvent.Stops.stopped (Or.inl rfl)

/-- Nobody else is in a session. -/
theorem Begun.holder {i : Nat} {seat : PartySignup} {total' : UInt16}
    (hi : (w.process i).Holds seat total') :
    ∃ k, 1 ≤ k ∧ k ≤ total.toNat ∧ i = client k ∧ seat = ⟨UInt16.ofNat k, uuid⟩ ∧
      total' = total := by
  by_cases hclient : ∃ k, 1 ≤ k ∧ k ≤ total.toNat ∧ i = client k
  · obtain ⟨k, h₁, hk, rfl⟩ := hclient
    obtain ⟨s, hs⟩ := hi
    rw [h.seated k h₁ hk] at hs
    cases hs
    exact ⟨k, h₁, hk, rfl, rfl, rfl⟩
  · rw [h.gathers.others i hclient] at hi
    exact absurd hi Process.start_holds

theorem Begun.full : Full w uuid total.toNat := fun k h₁ hk =>
  ⟨client k, _, _, ⟨_, h.seated k h₁ hk⟩, rfl,
    UInt16.toNat_ofNat_of_lt' (hk.trans_lt total.toNat_lt)⟩

section

variable (hcommands : ∀ i, (commands i).PostsOwn) {script : Nat → Client α} {result : Nat → α}
  (hin : InSession commands uuid total.toNat script w)
  (hplay : AllPlay uuid total.toNat script result)

include hin hplay

/-- Its clients have not panicked. -/
theorem Begun.well {i : Nat} {seat : PartySignup} {total' : UInt16} {e : Panic}
    (hi : w.process i = .session seat total' (.fail e)) : seat.uuid ≠ uuid := by
  obtain ⟨k, h₁, hk, rfl, rfl, rfl⟩ := h.holder ⟨_, hi⟩
  rw [h.seated k h₁ hk] at hi
  injection hi with _ _ hfail
  rw [hin.body _ _ _ ⟨_, h.seated k h₁ hk⟩ rfl] at hfail
  have hto : (UInt16.ofNat k).toNat = k := UInt16.toNat_ofNat_of_lt' (hk.trans_lt total'.toNat_lt)
  exact absurd hfail (hplay.ne_fail (hto.symm ▸ h₁) (hto.symm ▸ hk) e)

include hcommands

/-- The session can go on to its end. -/
theorem Begun.completes :
    ∃ w' more, Completes env keygenJson roomJson commands uuid result w w' more tr :=
  h.run.completes hcommands (fun _ hr => (h.not_other hr).elim) (h.within _) h.whole hin h.full
    (fun _ _ _ _ hi => h.well hin hplay hi) hplay

end

/-- At the end each client has its result. -/
theorem Begun.returned {result : Nat → α} {w' : World α} {more : List WorldEvent}
    (hcompletes : Completes env keygenJson roomJson commands uuid result w w' more tr) {k : Nat}
    (h₁ : 1 ≤ k) (hk : k ≤ total.toNat) :
    w'.process (client k) = .session ⟨UInt16.ofNat k, uuid⟩ total (.ret (result k)) := by
  have hreturned := hcompletes.returned _ _ _ ⟨_, h.seated k h₁ hk⟩ rfl
  rwa [UInt16.toNat_ofNat_of_lt' (hk.trans_lt total.toNat_lt)] at hreturned

end

/-- A key generation begins. -/
theorem exists_begun_keygen (env : Env) (keygenJson : Codec PartySignup)
    (roomJson : Codec SigningRoom) {threshold parties : UInt16} {curve : String}
    (hinj : Set.InjOn client (Set.Icc 1 parties.toNat)) (hone : 1 ≤ parties.toNat)
    (hask : ∀ k, 1 ≤ k → k ≤ parties.toNat →
      (commands (client k)).ask = .ok (.keygen threshold parties curve)) :
    ∃ j w tr, Begun env keygenJson roomJson commands client (env.uuid j) parties w tr := by
  have hrun : WorldRun env keygenJson roomJson commands (World.init commands) [] := .start rfl
  have hclients : ∀ k, 1 ≤ k → k ≤ parties.toNat → (World.init commands).process (client k) =
      .keygen threshold parties curve := by
    intro k h₁ hk
    show Process.start (commands (client k)) = _
    rw [Process.start, hask k h₁ hk]
  obtain ⟨j, w, more, -, hg, hwhole, hseated⟩ := hrun.keygenGathers rfl (fun o ho => by cases ho)
    (fun c hc => by cases hc) hinj hclients hone
  exact ⟨j, w, more, hg, hwhole, hseated⟩

theorem Gathers.mono {clients clients' : Nat → Prop} {w' : World α} {more : List WorldEvent}
    (h : Gathers env keygenJson roomJson commands clients w w' more tr)
    (hsub : ∀ i, clients i → clients' i) :
    Gathers env keygenJson roomJson commands clients' w w' more tr :=
  { h with others := fun i hi => h.others i fun hc => hi (hsub i hc) }

/-- A signing begins. -/
theorem exists_begun_sign (env : Env) (keygenJson : Codec PartySignup)
    (roomJson : Codec SigningRoom) {q : RoomSession} {P : Finset UInt16} {client : UInt16 → Nat}
    (hinj : Set.InjOn client P) (hcard : P.card = q.threshold.toNat + 1)
    (hsize : q.threshold.toNat + 1 < UInt16.size)
    (hask : ∀ p ∈ P, ∃ params, parseU16 params.threshold = .ok q.threshold ∧
      (commands (client p)).ask = .ok (.sign
        { params, roomId := q.roomId, partyId := p, curveName := q.curveName })) :
    ∃ u signer w tr, Begun env keygenJson roomJson commands signer u (q.threshold + 1) w tr ∧
      ∀ k, 1 ≤ k → k ≤ (q.threshold + 1).toNat → ∃ p ∈ P, signer k = client p := by
  have hempty : ∀ n info, (∅ : MemberInfo).lookup n ≠ some info := fun n info hl => by cases hl
  have hc : Comeback env q P ∅ env.signupTimeout :=
    ⟨le_rfl, hsize, hcard, fun n info hl => absurd hl (hempty n info),
      Or.inl fun n info hl => absurd hl (hempty n info)⟩
  have hrun : WorldRun env keygenJson roomJson commands (World.init commands) [] := .start rfl
  obtain ⟨clients, hclients, hsub⟩ : ∃ clients : Nat → Prop, (∀ p ∈ P, clients (client p)) ∧
      ∀ i, clients i → ∃ p ∈ P, i = client p := ⟨_, fun p hp => ⟨p, hp, rfl⟩, fun _ h => h⟩
  obtain ⟨u, order, w, more, -, hg, hwhole, hbij, hseated⟩ :=
    hrun.signGathers hc hinj hclients rfl rfl UInt64.zero_le fun p hp => by
      obtain ⟨params, hparse, hp⟩ := hask p hp
      show Process.start (commands (client p)) = _
      rw [Process.start, hp]
      show Process.signup (signup _) = _
      rw [signup, hparse]
      rfl
  have htotal := toNat_threshold hsize
  have hsurj : ∀ k, 1 ≤ k → k ≤ (q.threshold + 1).toNat → ∃ p ∈ P, order p = k :=
    fun k h₁ hk => hbij.surjOn ⟨h₁, htotal ▸ hk⟩
  choose! party hparty horder using hsurj
  refine ⟨u, fun k => client (party k), w, more, ⟨hg.mono ?_, hwhole, fun k h₁ hk => ?_⟩,
    fun k h₁ hk => ⟨party k, hparty k h₁ hk, rfl⟩⟩
  · intro i hi
    obtain ⟨p, hp, rfl⟩ := hsub i hi
    obtain ⟨h₁, hk⟩ := hbij.mapsTo hp
    rw [← htotal] at hk
    refine ⟨order p, h₁, hk, ?_⟩
    rw [hbij.injOn (hparty _ h₁ hk) hp (horder _ h₁ hk)]
  · have hparty := hseated (party k) (hparty k h₁ hk)
    rwa [horder k h₁ hk] at hparty

end

/-! ## Nobody shares a seat -/

/-- Clients with seats of one UUID have different numbers.  They have signed up for key
generations on one curve, or under one room key for signatures and with different party
ids. -/
theorem WorldRun.seats_apart {α : Type} {env : Env} {keygenJson : Codec PartySignup}
    {roomJson : Codec SigningRoom} {commands : Nat → Command α} {w : World α}
    {tr : List WorldEvent} (hrun : WorldRun env keygenJson roomJson commands w tr)
    (hcommands : ∀ i, (commands i).PostsOwn)
    (hothers : ∀ record, .other record ∈ tr → record.KeepsRecords)
    (hwhole : w.manager.poisoned = false) {i j : Nat} {seat seat' : PartySignup}
    {total total' : UInt16} (hi : (w.process i).Holds seat total)
    (hj : (w.process j).Holds seat' total') (hu : seat'.uuid = seat.uuid) :
    (seat'.number = seat.number → j = i) ∧
      ((∃ threshold threshold' curve, (commands i).ask = .ok (.keygen threshold total curve) ∧
        (commands j).ask = .ok (.keygen threshold' total' curve)) ∨
      ∃ args args', (commands i).ask = .ok (.sign args) ∧ (commands j).ask = .ok (.sign args') ∧
        args'.curveName ++ args'.roomId = args.curveName ++ args.roomId ∧
        (args'.partyId = args.partyId → j = i)) := by
  have hkeeps := hrun.keepsRecords hcommands hothers
  rcases hrun.holder hi with ⟨threshold, curve, hask, hcounted⟩ | ⟨args, hask⟩
  · obtain ⟨threshold', hask', hcounted'⟩ := hrun.keygen_holder hkeeps hwhole hcounted hj hu
    refine ⟨fun hnumber => ?_, Or.inl ⟨threshold, threshold', curve, hask, hask'⟩⟩
    obtain ⟨-, -, -, -, f', hf', c₁, -, -, hkeygen, -⟩ := hrun.records hkeeps hwhole
    have hseat : seat' = seat := by
      cases seat
      cases seat'
      cases hu
      cases hnumber
      rfl
    exact (hseat ▸ hcounted').apart hcounted hkeygen
  · obtain ⟨args', hask', hkey, hid, hnumber⟩ := hrun.sign_holder hkeeps hwhole hask hi hj hu
    exact ⟨hnumber, Or.inr ⟨args, args', hask, hask', hkey, hid⟩⟩

/-- Three calls for a key generation. -/
def threeKeygens : Nat → Command Unit := fun _ =>
  { ask := .ok (.keygen 1 3 "ECDSA"), body := fun _ _ => .ret () }

/-- The first two of them. -/
theorem WorldRun.seats_apart_three :
    ∃ (w : World Unit) (seat seat' : PartySignup), (w.process 1).Holds seat 3 ∧
      (w.process 2).Holds seat' 3 ∧ seat'.uuid = seat.uuid ∧ seat'.number ≠ seat.number := by
  obtain ⟨j, w, tr, hbegun⟩ : ∃ j w tr, Begun defaultEnv tallyCodec (.ofCountable SigningRoom)
      threeKeygens id (defaultEnv.uuid j) 3 w tr :=
    exists_begun_keygen defaultEnv tallyCodec _ (Set.injOn_id _) (by decide) fun _ _ _ => rfl
  have h₁ := hbegun.seated 1 le_rfl (by decide)
  have h₂ := hbegun.seated 2 one_le_two (by decide)
  have hapart := WorldRun.seats_apart hbegun.run (fun _ _ _ => trivial)
    (fun _ hr => (hbegun.not_other hr).elim) hbegun.whole ⟨_, h₁⟩ ⟨_, h₂⟩ rfl
  exact ⟨w, _, _, ⟨_, h₁⟩, ⟨_, h₂⟩, rfl, fun hnumber => absurd (hapart.1 hnumber) (by decide)⟩

end TssCli
