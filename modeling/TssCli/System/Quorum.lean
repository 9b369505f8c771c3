import TssCli.Protocols.Barriers
import TssCli.System.Seats
import TssCli.System.Tool

/-!
# Nobody finishes alone

A letter in the store was set by the client that holds the seat of its sender, for other
programs stay outside and a client posts its own letters only (`WorldRun.stored_posted`).
A client that follows a plan returns only when it has read the letters of all others, so
by then every number of the session is held, and its holder has posted in every round
(`WorldRun.returned_posted`).  For this it does not matter who panics, what is lost or
expires, or whether the lock stays whole.
-/

namespace TssCli

open Mailbox Mailbox.Script Transition

section

variable {α : Type}

/-- The client sends the entry with this key. -/
def WorldEvent.Sets (i : Nat) (key : Key) (e : WorldEvent) : Prop :=
  ∃ record clock text, record.event = .request clock (.set ⟨key, text⟩) ∧
    (e = .unheard i record ∨ ∃ late, e = .answered i late record)

/-- The client with the seat of the letter's sender has posted the letter. -/
def PostedBy (w : World α) (tr : List WorldEvent) (l : Letter) (i : Nat) : Prop :=
  (∃ seat total, (w.process i).Holds seat total ∧ seat.uuid = l.uuid ∧
    seat.number.toNat = l.sender) ∧ ∃ e ∈ tr, e.Sets i l.key

variable {env : Env} {keygenJson : Codec PartySignup} {roomJson : Codec SigningRoom}
  {commands : Nat → Command α} {w w' : World α} {tr : List WorldEvent} {e : WorldEvent} {i : Nat}
  {seat : PartySignup} {total : UInt16} {l : Letter} {uuid : String} {m : ManagerState}
  {clock : Clock} {request : ManagerRequest}

theorem PostedBy.step (h : PostedBy w tr l i)
    (hs : WorldStep env keygenJson roomJson commands w e w') : PostedBy w' (e :: tr) l i := by
  obtain ⟨⟨seat, total, hholds, hseat⟩, e', he', hsets⟩ := h
  exact ⟨⟨seat, total, hs.seated hholds, hseat⟩, e', List.mem_cons_of_mem _ he', hsets⟩

/-! ## What is in the store -/

/-- A letter is in the store if it was before, or if it is set. -/
theorem handle_letter {text : String}
    (h : (handle env keygenJson roomJson m clock request).1.db l.key = some text) :
    m.db l.key = some text ∨ ∃ text, request = .set ⟨l.key, text⟩ := by
  rcases @handle_stores env keygenJson roomJson m clock request with hdb | ⟨entry, hstores, hdb⟩
  · exact Or.inl (by rwa [hdb] at h)
  · rw [hdb, set] at h
    by_cases hkey : l.key = entry.key
    · cases hstores with
      | posted => exact Or.inr ⟨entry.value, by rw [hkey]⟩
      | counted => exact absurd hkey (l.key_ne_keygenKey _)
      | seated => exact absurd hkey (l.key_ne_signKey _)
    · rw [Function.update_of_ne hkey] at h
      exact Or.inl h

/-- The store after a step of the world. -/
theorem WorldStep.stored (hs : WorldStep env keygenJson roomJson commands w e w') {text : String}
    (h : w'.manager.db l.key = some text) :
    w.manager.db l.key = some text ∨
      (∃ i seat total value next, e.Sets i l.key ∧
        w.process i = .session seat total (.post l.key value next)) ∨
      ∃ record clock value, e = .other record ∧
        record.event = .request clock (.set ⟨l.key, value⟩) := by
  have sent : ∀ {i clock request}, (w.process i).request = some request →
      (handle env keygenJson roomJson w.manager clock request).1.db l.key = some text →
      w.manager.db l.key = some text ∨ ∃ value seat total next, request = .set ⟨l.key, value⟩ ∧
        w.process i = .session seat total (.post l.key value next) := by
    intro i clock request hi hdb
    rcases handle_letter hdb with hold | ⟨value, rfl⟩
    · exact Or.inl hold
    · obtain ⟨seat, total, next, hp⟩ := Process.request_set hi
      exact Or.inr ⟨value, seat, total, next, rfl, hp⟩
  cases hs with
  | lost =>
      rw [World.miss_manager] at h
      exact Or.inl h
  | broke => exact Or.inl h
  | @unheard i clock request hi hclock =>
      rw [World.miss_manager] at h
      rcases sent hi h with hold | ⟨value, seat, total, next, rfl, hp⟩
      · exact Or.inl hold
      · exact Or.inr (Or.inl ⟨i, seat, total, value, next, ⟨_, clock, value, rfl, Or.inl rfl⟩, hp⟩)
  | @answered i late clock request hi hclock =>
      rcases sent hi h with hold | ⟨value, seat, total, next, rfl, hp⟩
      · exact Or.inl hold
      · exact Or.inr (Or.inl ⟨i, seat, total, value, next,
          ⟨_, clock, value, rfl, Or.inr ⟨late, rfl⟩⟩, hp⟩)
  | @other record m hs =>
      cases hs with
      | expired key =>
          left
          dsimp only at h
          by_cases hkey : l.key = key
          · subst hkey
            rw [Function.update_self] at h
            cases h
          · rwa [Function.update_of_ne hkey] at h
      | @request clock request hclock =>
          rcases handle_letter h with hold | ⟨value, rfl⟩
          · exact Or.inl hold
          · exact Or.inr (Or.inr ⟨_, clock, value, rfl, rfl⟩)

/-- A letter in the store was posted by the holder of its sender's seat. -/
theorem WorldRun.stored_posted (hrun : WorldRun env keygenJson roomJson commands w tr)
    (hcommands : ∀ i, (commands i).PostsOwn)
    (hout : ∀ record, .other record ∈ tr → record.KeepsOut uuid) (hu : l.uuid = uuid)
    {text : String} (h : w.manager.db l.key = some text) : ∃ i, PostedBy w tr l i := by
  refine Run.invariant (fun w tr => (∀ record, .other record ∈ tr → record.KeepsOut uuid) →
    ∀ text, w.manager.db l.key = some text → ∃ i, PostedBy w tr l i) ?_ ?_ hrun hout text h
  · rintro w rfl - text h
    cases h
  · intro w e w' tr hbefore ih hs hout text h
    have ih := ih fun record hr => hout record (List.mem_cons_of_mem _ hr)
    rcases hs.stored h with hold | ⟨i, seat, total, value, next, hsets, hp⟩ |
      ⟨record, clock, value, rfl, hset⟩
    · obtain ⟨i, hi⟩ := ih text hold
      exact ⟨i, hi.step hs⟩
    · obtain ⟨l', huuid, hsender, hkey⟩ := (WorldRun.postsOwn hbefore hcommands i _ _ _ hp).1
      obtain rfl := Letter.key_injective hkey
      exact ⟨i, ⟨seat, total, hs.seated ⟨_, hp⟩, huuid.symm, hsender.symm⟩, e,
        List.mem_cons_self .., hsets⟩
    · exact absurd rfl (hout record (List.mem_cons_self ..) clock _ hset l hu)

/-! ## What a client has read -/

/-- A guarded script is guarded after an answer.  It has handled the key it posted or
got. -/
theorem takeReply_guarded {may : Set Key → Key → Prop} {after : Set Key → Prop} {A : Set Key}
    {s : Client α} (late : Bool) (reply : Except Panic Reply) (h : s.Guarded may after A) :
    ∃ A', (takeReply late s reply).Guarded may after A' ∧ ∀ k ∈ A', k ∈ A ∨
      (∃ v next, s = .post k v next) ∨
        ∃ next entry, s = .await k next ∧ reply = .ok (.entry (.ok entry)) := by
  unfold takeReply
  split
  next k v next =>
    cases h with
    | post hk hnext =>
        refine ⟨_, hnext, fun k' hk' => ?_⟩
        rcases Set.mem_insert_iff.mp hk' with rfl | hk'
        · exact Or.inr (Or.inl ⟨v, next, rfl⟩)
        · exact Or.inl hk'
  next k next entry =>
    cases h with
    | await hnext =>
        refine ⟨_, hnext entry.value, fun k' hk' => ?_⟩
        rcases Set.mem_insert_iff.mp hk' with rfl | hk'
        · exact Or.inr (Or.inr ⟨next, entry, rfl, rfl⟩)
        · exact Or.inl hk'
  next =>
    split
    next => exact ⟨∅, .fail, by simp⟩
    next => exact ⟨A, h, fun _ hk => Or.inl hk⟩
  next => exact ⟨∅, .fail, by simp⟩

/-- What is got is in the store. -/
theorem handle_get_ok {key : Key} {entry : Entry}
    (h : (handle env keygenJson roomJson m clock (.get key)).2 = .ok (.entry (.ok entry))) :
    ∃ text, m.db key = some text := by
  rw [handle] at h
  split at h
  next => cases h
  next =>
    cases hdb : m.db key with
    | some text => exact ⟨text, rfl⟩
    | none =>
        rw [get, hdb] at h
        cases h

section

variable {plan : Plan} {r : Nat} (hrun : WorldRun env keygenJson roomJson commands w tr)
  (hcommands : ∀ i, (commands i).PostsOwn)
  (hout : ∀ record, .other record ∈ tr → record.KeepsOut seat.uuid)
  (hfollows : plan.Advances seat.uuid total.toNat seat.number.toNat 0 ((commands i).body seat total)
    r)

include hrun hcommands hout hfollows

/-- The letters that a client has posted or read were posted by the clients they are
from. -/
theorem WorldRun.guarded {s : Client α} (hi : w.process i = .session seat total s) :
    ∃ A, s.Guarded (plan.May seat.uuid total.toNat seat.number.toNat)
        (plan.Passed seat.uuid total.toNat seat.number.toNat r) A ∧
      ∀ l : Letter, l.key ∈ A → l.uuid = seat.uuid → ∃ j, PostedBy w tr l j := by
  refine Run.invariant (fun w tr => (∀ record, .other record ∈ tr → record.KeepsOut seat.uuid) →
    ∀ s, w.process i = .session seat total s →
      ∃ A, s.Guarded (plan.May seat.uuid total.toNat seat.number.toNat)
          (plan.Passed seat.uuid total.toNat seat.number.toNat r) A ∧
        ∀ l : Letter, l.key ∈ A → l.uuid = seat.uuid → ∃ j, PostedBy w tr l j)
    ?_ ?_ hrun hout s hi
  · rintro w rfl - s hi
    have hi : Process.start (commands i) = .session seat total s := hi
    unfold Process.start at hi
    split at hi <;> cases hi
  · intro w e w' tr hbefore ih hs hout s hi
    have hout' := fun record hr => hout record (List.mem_cons_of_mem _ hr)
    have ih := ih hout'
    rcases hs.process_cases i with ⟨hp | ⟨p, hp⟩, -⟩ | ⟨late, clock, request, rfl, hr, hp⟩
    · obtain ⟨A, hA, hposted⟩ := ih s (hp ▸ hi)
      refine ⟨A, hA, fun l hl hlu => ?_⟩
      obtain ⟨j, hj⟩ := hposted l hl hlu
      exact ⟨j, hj.step hs⟩
    · rw [hp] at hi
      generalize w.process i = q at hi
      cases q with
      | session =>
          cases hi
          exact ⟨∅, .fail, by simp⟩
      | _ => cases hi
    · rw [hp] at hi
      rcases Process.receive_cases (commands i).body late (w.process i)
        (handle env keygenJson roomJson w.manager clock request).2 with
        ⟨seat', total', s', hold, hreceive⟩ | ⟨-, ⟨seat', total', hreceive⟩ | hnone⟩
      · rw [hreceive] at hi
        cases hi
        obtain ⟨A, hA, hposted⟩ := ih s' hold
        obtain ⟨A', hA', hsub⟩ := takeReply_guarded late
          (handle env keygenJson roomJson w.manager clock request).2 hA
        refine ⟨A', hA', fun l hl hlu => ?_⟩
        rcases hsub _ hl with hl | ⟨v, next, rfl⟩ | ⟨next, entry, rfl, hreply⟩
        · obtain ⟨j, hj⟩ := hposted l hl hlu
          exact ⟨j, hj.step hs⟩
        · rw [hold] at hr
          cases hr
          obtain ⟨l', huuid, hsender, hkey⟩ :=
            (WorldRun.postsOwn hbefore hcommands i _ _ _ hold).1
          obtain rfl := Letter.key_injective hkey
          exact ⟨i, ⟨seat, total, hs.seated ⟨_, hold⟩, huuid.symm, hsender.symm⟩, _,
            List.mem_cons_self .., _, clock, v, rfl, Or.inr ⟨late, rfl⟩⟩
        · rw [hold] at hr
          cases hr
          obtain ⟨text, htext⟩ := handle_get_ok hreply
          obtain ⟨j, hj⟩ := WorldRun.stored_posted hbefore hcommands hout' hlu htext
          exact ⟨j, hj.step hs⟩
      · rw [hreceive] at hi
        cases hi
        exact ⟨∅, hfollows ∅ Plan.passed_zero, by simp⟩
      · exact absurd ⟨s, hi⟩ (hnone seat total)

/-- When a client returns, the letters to it of all rounds have been posted. -/
theorem WorldRun.returned_posted {a : α} (hi : w.process i = .session seat total (.ret a))
    {r' : Nat} (hr : r' < r) (hl : plan.At seat.uuid r' l)
    (hfor : l.For total.toNat seat.number.toNat) : ∃ j, PostedBy w tr l j := by
  obtain ⟨A, hA, hposted⟩ := hrun.guarded hcommands hout hfollows hi
  cases hA with
  | ret hpassed => exact hposted l (hpassed r' l hr hl hfor) hl.1

/-- When a client returns, the seats of all numbers are held. -/
theorem WorldRun.returned_all {a : α} (hi : w.process i = .session seat total (.ret a))
    (hr : 0 < r) {round : Round} (hround : plan.rounds[0]? = some (round, .toAll)) :
    Full w seat.uuid total.toNat := by
  intro k h₁ hk
  obtain ⟨j, ⟨seat', total', hj⟩, -⟩ := hrun.returned_posted hcommands hout hfollows hi hr
    (l := .toAll k round seat.uuid) ⟨rfl, hround⟩ ⟨h₁, hk⟩
  exact ⟨j, seat', total', hj⟩

end

end

/-! ## The calls of the tool -/

section

variable {F G F' G' : Type} {tool : Tool F G F' G'}

/-- The rounds that a call goes through. -/
def Tool.plan : tool.Call → Plan
  | .ecdsaKeygen .. => keygenPlan
  | .eddsaKeygen .. => keygenPlan
  | .ecdsaSign .. => Ecdsa.signPlan
  | .eddsaSign .. => Eddsa.signPlan

/-- For an EdDSA signature no more parties are in the session than there are ids read. -/
def Tool.Fits (total : UInt16) : tool.Call → Prop
  | .eddsaSign _ _ _ params _ => ∀ parsed threshold, signParams params = .ok parsed →
      parseU16 parsed.threshold = .ok threshold → total.toNat ≤ threshold.toNat + 1
  | _ => True

/-- The first round of every call is one to all. -/
theorem Tool.plan_first (call : tool.Call) : ∃ round, (Tool.plan call).rounds[0]? =
    some (round, .toAll) := by
  cases call with
  | ecdsaKeygen => exact ⟨_, rfl⟩
  | eddsaKeygen => exact ⟨_, rfl⟩
  | ecdsaSign => exact ⟨_, rfl⟩
  | eddsaSign => exact ⟨_, rfl⟩

variable [Field F] [AddCommGroup G] [Module F G] [DecidableEq G] [Field F'] [DecidableEq F']
  [AddCommGroup G'] [Module F' G']

/-- A command follows a plan if what it does in its session does. -/
theorem Command.of_advances {α β : Type} {plan : Plan} {seat : PartySignup} {total : UInt16}
    {m : Nat} {call : Except Panic (Ask × (PartySignup → UInt16 → Client α))} (f : α → β)
    (h : ∀ ask body, call = .ok (ask, body) →
      plan.Advances seat.uuid total.toNat seat.number.toNat 0 (body seat total) m) :
    plan.Advances seat.uuid total.toNat seat.number.toNat 0
      (((Command.of call).map f).body seat total) m := by
  refine Triple.bind ?_ fun _ => .pure
  cases call with
  | error p => exact .fail
  | ok out => exact h out.1 out.2 rfl

/-- A call in a session follows its plan. -/
theorem Tool.advances {call : tool.Call} {seat : PartySignup} {total : UInt16}
    (htotal : ∀ t n curve, (tool.command call).ask = .ok (.keygen t n curve) → n = total)
    (hfits : Tool.Fits total call) :
    (Tool.plan call).Advances seat.uuid total.toNat seat.number.toNat 0
      ((tool.command call).body seat total) (Tool.plan call).rounds.length := by
  cases call with
  | ecdsaKeygen params draws =>
      refine Command.of_advances _ fun ask body h => ?_
      obtain ⟨parsed, hparams, h⟩ := except_bind_ok h
      cases h
      rw [← htotal _ _ _ (Tool.Keygens.ecdsa params draws hparams).ask]
      exact Ecdsa.advances_runKeygen _ _ _ _
  | eddsaKeygen params draws =>
      refine Command.of_advances _ fun ask body h => ?_
      obtain ⟨parsed, hparams, h⟩ := except_bind_ok h
      cases h
      rw [← htotal _ _ _ (Tool.Keygens.eddsa params draws hparams).ask]
      exact Eddsa.advances_runKeygen _ _ _ _
  | ecdsaSign data path messageStr params chainCodeHex draws =>
      refine Command.of_advances _ fun ask body h => ?_
      obtain ⟨file, -, h⟩ := except_bind_ok h
      obtain ⟨key, hkey, h⟩ := except_bind_ok h
      obtain ⟨parsed, -, h⟩ := except_bind_ok h
      cases h
      dsimp only
      rw [← Ecdsa.runSign_eq hkey]
      exact Ecdsa.advances_runSign _ _ _ _
  | eddsaSign data path messageStr params draws =>
      refine Command.of_advances _ fun ask body h => ?_
      obtain ⟨parsed, hparsed, h⟩ := except_bind_ok h
      obtain ⟨file, -, h⟩ := except_bind_ok h
      obtain ⟨key, -, h⟩ := except_bind_ok h
      obtain ⟨threshold, hthreshold, h⟩ := except_bind_ok h
      cases h
      exact Eddsa.advances_runSigner (hfits parsed threshold hparsed hthreshold) _ _ _ _

section

variable {env : Env} {keygenJson : Codec PartySignup} {roomJson : Codec SigningRoom}
  {calls : Nat → tool.Call} {w : World tool.Output} {tr : List WorldEvent} {i : Nat}
  {seat : PartySignup} {total : UInt16} {out : tool.Output}
  (hrun : tool.Run env keygenJson roomJson calls w tr)

include hrun

/-- A client with a seat that was not called for a key generation has asked for a room. -/
theorem Tool.asks (hi : (w.process i).Holds seat total)
    (hcall : ∀ t n curve, ¬ tool.Keygens t n curve (calls i)) :
    ∃ args, (tool.command (calls i)).ask = .ok (.sign args) := by
  rcases hrun.holder hi with ⟨t, curve, hask, -⟩ | hask
  · exact absurd (Tool.keygens hask) (hcall _ _ _)
  · exact hask

variable (hout : ∀ record, .other record ∈ tr → record.KeepsOut seat.uuid)
  (hi : w.process i = .session seat total (.ret out)) (hfits : Tool.Fits total (calls i))

include hi hfits

/-- A client in a session follows the plan of its call. -/
theorem Tool.follows :
    (Tool.plan (calls i)).Advances seat.uuid total.toNat seat.number.toNat 0
      ((tool.command (calls i)).body seat total) (Tool.plan (calls i)).rounds.length := by
  refine Tool.advances (fun t n curve hask => ?_) hfits
  rcases hrun.holder ⟨_, hi⟩ with ⟨t', curve', hask', -⟩ | ⟨args, hask'⟩
  · rw [hask] at hask'
    cases hask'
    rfl
  · rw [hask] at hask'
    cases hask'

include hout

/-- When a call returns, the seats of its session are held. -/
theorem Tool.returned_all : Full w seat.uuid total.toNat := by
  obtain ⟨round, hround⟩ := Tool.plan_first (calls i)
  have hr : 0 < (Tool.plan (calls i)).rounds.length := (List.getElem?_eq_some_iff.mp hround).1
  exact WorldRun.returned_all hrun (fun i => tool.postsOwn (calls i)) hout
    (tool.follows hrun hi hfits) hi hr hround

end

end

end TssCli
