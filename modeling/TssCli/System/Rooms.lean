import TssCli.System.Keygens

/-!
# The clients of a room

A room brings clients together to sign.  They have different party ids, and since the room
is found under the digest they sign one message.  When one of them returns, somebody is
in every seat.
-/

namespace TssCli

open Mailbox Mailbox.Script Transition

section

variable {F G F' G' : Type} [Field F] [AddCommGroup G] [Module F G] [DecidableEq G] [Field F']
  [DecidableEq F'] [AddCommGroup G'] [Module F' G'] {tool : Tool F G F' G'} {env : Env}
  {keygenJson : Codec PartySignup} {roomJson : Codec SigningRoom} {calls : Nat → tool.Call}
  {w : World tool.Output} {tr : List WorldEvent} {uuid : String}

/-- A run with a session of signers, to which no other programs post.  No party is added
to a full room, every client that polls a closed room finds all of its members active, and
the hash does not confuse the messages in use. -/
structure Tool.SigningIn (tool : Tool F G F' G') (env : Env) (keygenJson : Codec PartySignup)
    (roomJson : Codec SigningRoom) (calls : Nat → tool.Call) (w : World tool.Output)
    (tr : List WorldEvent) (uuid : String) : Prop where
  run : tool.Run env keygenJson roomJson calls w tr
  out : StaysOut uuid tr
  whole : w.manager.poisoned = false
  size : ∀ e ∈ tr.filterMap (WorldEvent.system env roomJson), RespectsSize env e.event
  active : ∀ e ∈ tr.filterMap (WorldEvent.system env roomJson), e.FindsAllActive env
  hash : ∀ i j, tool.sha256 (calls i).message = tool.sha256 (calls j).message →
    (calls i).message = (calls j).message

section

variable (h : tool.SigningIn env keygenJson roomJson calls w tr uuid) {i j : Nat}
  {seat seat' : PartySignup} {total total' : UInt16} {args args' : SignupArgs}

include h

/-- The clients of a room sign up under one key. -/
theorem Tool.SigningIn.room (hask : (tool.command (calls i)).ask = .ok (.sign args))
    (hi : (w.process i).Holds seat total) (hu : seat.uuid = uuid)
    (hj : (w.process j).Holds seat' total') (hu' : seat'.uuid = uuid) :
    ∃ args', (tool.command (calls j)).ask = .ok (.sign args') ∧
      args'.curveName ++ args'.roomId = args.curveName ++ args.roomId ∧
      (args'.partyId = args.partyId → j = i) := by
  have hkeeps := h.run.keepsRecords (fun i => tool.postsOwn (calls i)) h.out.records
  obtain ⟨args', hask', hkey, hid, -⟩ :=
    h.run.sign_holder hkeeps h.whole hask hi hj (hu'.trans hu.symm)
  exact ⟨args', hask', hkey, hid⟩

theorem Tool.SigningIn.seats (hask : (tool.command (calls i)).ask = .ok (.sign args))
    (hi : (w.process i).Holds seat total) (hu : seat.uuid = uuid) : SeatsOf w uuid total := by
  have hkeeps := h.run.keepsRecords (fun i => tool.postsOwn (calls i)) h.out.records
  rw [← hu]
  exact h.run.signSeats hkeeps h.whole h.size h.active hask hi

/-- When a client has returned, somebody is in every seat. -/
theorem Tool.SigningIn.full {out : tool.Output} (hi : w.process i = .session seat total (.ret out))
    (hu : seat.uuid = uuid) (hfits : Tool.Fits total (calls i)) : Full w uuid total.toNat := by
  subst hu
  exact Tool.returned_all h.run h.out.letters hi hfits

/-- Clients in different seats have different party ids. -/
theorem Tool.SigningIn.injOn (hfull : Full w uuid total.toNat) {id : Nat → Nat}
    (hid : ∀ j seat' total', (w.process j).Holds seat' total' → seat'.uuid = uuid →
      seat'.number.toNat ∈ Set.Icc 1 total.toNat →
      ∃ args', (tool.command (calls j)).ask = .ok (.sign args') ∧
        args'.partyId = UInt16.ofNat (id seat'.number.toNat)) :
    Set.InjOn id (Set.Icc 1 total.toNat) := by
  rintro k ⟨h₁, hk⟩ k' ⟨h₁', hk'⟩ he
  obtain ⟨j, seat₁, total₁, hj, hu₁, rfl⟩ := hfull k h₁ hk
  obtain ⟨j', seat₂, total₂, hj', hu₂, rfl⟩ := hfull k' h₁' hk'
  obtain ⟨args₁, hask₁, hid₁⟩ := hid j seat₁ total₁ hj hu₁ ⟨h₁, hk⟩
  obtain ⟨args₂, hask₂, hid₂⟩ := hid j' seat₂ total₂ hj' hu₂ ⟨h₁', hk'⟩
  obtain ⟨args', hask', -, hapart⟩ := h.room hask₁ hj hu₁ hj' hu₂
  rw [hask₂] at hask'
  cases hask'
  obtain rfl := hapart (hid₂.trans (he ▸ hid₁.symm))
  obtain ⟨s, hs⟩ := hj
  obtain ⟨s', hs'⟩ := hj'
  rw [hs] at hs'
  cases hs'
  rfl

end

/-! ## Rooms that have been left -/

/-- A signing that has begun. -/
theorem Begun.signingIn {client : Nat → Nat} {total : UInt16}
    (h : Begun env keygenJson roomJson (fun i => tool.command (calls i)) client uuid total w tr)
    (hhash : ∀ i j, tool.sha256 (calls i).message = tool.sha256 (calls j).message →
      (calls i).message = (calls j).message) :
    tool.SigningIn env keygenJson roomJson calls w tr uuid where
  run := h.run
  out := ⟨fun _ hr => (h.not_other hr).elim, fun _ hr => (h.not_other hr).elim⟩
  whole := h.whole
  size := h.gathers.size
  active := h.gathers.active
  hash := hhash

/-- Letters are no requests at a room. -/
theorem system_mail {i : Nat} {late : Bool} {record : ManagerRecord} (h : record.IsMail) :
    (WorldEvent.answered i late record).system env roomJson = none := by
  obtain ⟨clock, request, he, hmail⟩ := h
  obtain ⟨before, event⟩ := record
  obtain rfl : event = .request clock request := he
  rcases hmail with ⟨entry, rfl⟩ | ⟨key, rfl⟩
  · rfl
  · rfl

/-- Nor does it matter when a client stops. -/
theorem Tool.SigningIn.broke (h : tool.SigningIn env keygenJson roomJson calls w tr uuid) (i : Nat)
    (e : Panic) :
    tool.SigningIn env keygenJson roomJson calls (w.stop i e) (.broke i e :: tr) uuid where
  run := h.run.snoc (.broke i e)
  out := ⟨fun _ hr => h.out.records _ (List.mem_of_ne_of_mem (by simp) hr),
    fun _ hr => h.out.letters _ (List.mem_of_ne_of_mem (by simp) hr)⟩
  whole := h.whole
  size := h.size
  active := h.active
  hash := h.hash

/-- After the session has gone on, it still is one of signers. -/
theorem Tool.SigningIn.completes {result : Nat → tool.Output} {w' : World tool.Output}
    {more : List WorldEvent}
    (h : tool.SigningIn env keygenJson roomJson calls w tr uuid)
    (hcompletes : Completes env keygenJson roomJson (fun i => tool.command (calls i)) uuid result w
      w' more tr) :
    tool.SigningIn env keygenJson roomJson calls w' (more ++ tr) uuid := by
  have hsystem : (more ++ tr).filterMap (WorldEvent.system env roomJson) =
      tr.filterMap (WorldEvent.system env roomJson) := by
    rw [List.filterMap_append, List.filterMap_eq_nil_iff.mpr, List.nil_append]
    intro e he
    obtain ⟨i, record, seat, total, rfl, hmail, -⟩ := hcompletes.answers e he
    exact system_mail hmail
  refine ⟨hcompletes.run, ⟨fun _ hr => h.out.records _ (hcompletes.other hr),
    fun _ hr => h.out.letters _ (hcompletes.other hr)⟩, hcompletes.whole, ?_, ?_, h.hash⟩
  · rw [hsystem]
    exact h.size
  · rw [hsystem]
    exact h.active

end

/-- Two of three parties. -/
theorem signers_additive : ∀ p ∈ ({2, 3} : Finset UInt16), 1 ≤ p.toNat ∧ p.toNat ≤ 3 := by
  intro p hp
  rcases Finset.mem_insert.mp hp with rfl | hp
  · decide
  · rw [Finset.mem_singleton.mp hp]
    decide

end TssCli
