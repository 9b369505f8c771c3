import TssCli.Common.Client
import TssCli.Common.Signup
import TssCli.Lib.Arrivals
import TssCli.Manager.Handlers

/-!
# Clients, links and the manager

A client is one call of the tool.  It signs up, for a key generation or for a signing,
and then plays its part in the session it was let into.  Every request goes through
`postb`, which tries twice: a request may be lost, or it is handled and its answer is
lost.  In both cases it is sent again, or the client panics.

In the world there are any number of clients, in any sessions, one manager, and other
programs that send requests of their own.  Entries expire, and a client may stop for
good at any time.

The requests of a run of the world make a run of the manager (`WorldRun.manager`), and
a client that has been let into a session keeps its seat (`WorldStep.seated`).
-/

namespace TssCli

open Mailbox Transition

/-! ## Clients -/

/-- The sign-up of a client. -/
inductive Ask where
  /-- `keygen_signup`. -/
  | keygen (threshold parties : UInt16) (curve : String)
  /-- `signup`. -/
  | sign (args : SignupArgs)

/-- A call of the tool: how it signs up, unless it panics before, and its part in the
session, for its seat and the number of parties. -/
structure Command (α : Type) where
  ask : Except Panic Ask
  body : PartySignup → UInt16 → Client α

/-- Where a client stands. -/
inductive Process (α : Type) where
  /-- Before its sign-up for a key generation. -/
  | keygen (threshold parties : UInt16) (curve : String)
  /-- In `signup`. -/
  | signup (call : SignupCall)
  /-- In a session, with the rest of its part. -/
  | session (seat : PartySignup) (total : UInt16) (script : Client α)
  | panicked

/-- `for _i in 1..retries`, with `retries = 3`. -/
def postbTries : Nat := (List.range' 1 (3 - 1)).length

/-- The answer to a sign-up for a signing, as the client reads it. -/
def signAnswer : Except Panic Reply → Except Panic SignupAnswer
  | .ok (.sign answer) => .ok answer
  | .ok _ => .error .unwrapErr
  | .error p => .error p

section

variable {α : Type}

/-- The client at the start. -/
def Process.start (command : Command α) : Process α :=
  match command.ask with
  | .ok (.keygen threshold parties curve) => .keygen threshold parties curve
  | .ok (.sign args) => .signup (TssCli.signup args)
  | .error _ => .panicked

/-- What the client sends next. -/
def Process.request : Process α → Option ManagerRequest
  | .keygen threshold parties curve =>
      some (.signupKeygen ⟨toString parties.toNat, toString threshold.toNat⟩ curve)
  | .signup call => call.request.map .signupSign
  | .session _ _ (.post key value _) => some (.set { key, value })
  | .session _ _ (.await key _) => some (.get key)
  | .session _ _ (.ret _) => none
  | .session _ _ (.fail _) => none
  | .panicked => none

/-- A call of `signup` that has returned lets the client into the session. -/
def Process.afterSignup (body : PartySignup → UInt16 → Client α) : SignupCall → Process α
  | .returned seat total => .session seat total (body seat total)
  | call => .signup call

/-- A script takes the answer to its request.  A poll goes on if it is not late. -/
def takeReply (late : Bool) : Client α → Except Panic Reply → Client α
  | .post _ _ next, .ok .stored => next
  | .await _ next, .ok (.entry (.ok entry)) => next entry.value
  | .await key next, .ok (.entry (.error _)) =>
      if late then .fail .pollTimeout else .await key next
  | _, _ => .fail .unwrapErr

/-- The client takes the answer to its request. -/
def Process.receive (body : PartySignup → UInt16 → Client α) (late : Bool)
    (process : Process α) (reply : Except Panic Reply) : Process α :=
  match process with
  | .keygen _ parties _ =>
    match reply with
    | .ok (.keygen seat) => .session seat parties (body seat parties)
    | _ => .panicked
  | .signup call => .afterSignup body (call.receive late (signAnswer reply))
  | .session seat total script => .session seat total (takeReply late script reply)
  | .panicked => .panicked

/-- The client panics. -/
def Process.stop (e : Panic) : Process α → Process α
  | .session seat total _ => .session seat total (.fail e)
  | _ => .panicked

/-- The client has been let into a session. -/
def Process.Holds (process : Process α) (seat : PartySignup) (total : UInt16) : Prop :=
  ∃ script, process = .session seat total script

theorem Process.stop_holds {process : Process α} {seat : PartySignup} {total : UInt16} (e : Panic) :
    (process.stop e).Holds seat total ↔ process.Holds seat total := by
  constructor
  · rintro ⟨s', hs⟩
    cases process with
    | session seat' total' s =>
        cases hs
        exact ⟨s, rfl⟩
    | _ => cases hs
  · rintro ⟨script, rfl⟩
    exact ⟨.fail e, rfl⟩

/-- A client goes on in its session, or it is let into one, or it is in none. -/
theorem Process.receive_cases (body : PartySignup → UInt16 → Client α) (late : Bool)
    (process : Process α) (reply : Except Panic Reply) :
    (∃ seat total script, process = .session seat total script ∧
      process.receive body late reply = .session seat total (takeReply late script reply)) ∨
    (∀ seat total, ¬ process.Holds seat total) ∧
      ((∃ seat total, process.receive body late reply = .session seat total (body seat total)) ∨
        ∀ seat total, ¬ (process.receive body late reply).Holds seat total) := by
  cases process with
  | keygen threshold parties curve =>
      refine Or.inr ⟨fun _ _ ⟨_, h⟩ => (by cases h), ?_⟩
      unfold Process.receive
      dsimp only
      split
      next seat => exact Or.inl ⟨seat, parties, rfl⟩
      next => exact Or.inr fun _ _ ⟨_, h⟩ => (by cases h)
  | signup call =>
      refine Or.inr ⟨fun _ _ ⟨_, h⟩ => (by cases h), ?_⟩
      unfold Process.receive Process.afterSignup
      dsimp only
      split
      next seat total _ => exact Or.inl ⟨seat, total, rfl⟩
      next => exact Or.inr fun _ _ ⟨_, h⟩ => (by cases h)
  | session seat total script => exact Or.inl ⟨seat, total, script, rfl, rfl⟩
  | panicked => exact Or.inr ⟨fun _ _ ⟨_, h⟩ => (by cases h), Or.inr fun _ _ ⟨_, h⟩ => (by cases h)⟩

theorem Process.receive_holds {body : PartySignup → UInt16 → Client α} {late : Bool}
    {process : Process α} {seat : PartySignup} {total : UInt16} (reply : Except Panic Reply)
    (h : process.Holds seat total) : (process.receive body late reply).Holds seat total := by
  obtain ⟨script, rfl⟩ := h
  exact ⟨_, rfl⟩

end

/-! ## The world -/

/-- All clients, with the tries of their requests that have failed, and the manager. -/
structure World (α : Type) where
  manager : ManagerState
  process : Nat → Process α
  failed : Nat → Nat

/-- What happens in the world. -/
inductive WorldEvent where
  /-- A request does not arrive. -/
  | lost (i : Nat)
  /-- A request is handled, and its answer does not arrive. -/
  | unheard (i : Nat) (record : ManagerRecord)
  | answered (i : Nat) (late : Bool) (record : ManagerRecord)
  /-- A client stops for good. -/
  | broke (i : Nat) (e : Panic)
  /-- A request of somebody else, or the end of an entry's time. -/
  | other (record : ManagerRecord)

/-- A try of the client fails. -/
def WorldEvent.Misses (i : Nat) : WorldEvent → Prop
  | .lost j => j = i
  | .unheard j _ => j = i
  | .answered _ _ _ => False
  | .broke _ _ => False
  | .other _ => False

/-- The tries of the client that have failed since its last answer. -/
def missed (i : Nat) : List WorldEvent → Nat
  | [] => 0
  | .lost j :: tr => if j = i then missed i tr + 1 else missed i tr
  | .unheard j _ :: tr => if j = i then missed i tr + 1 else missed i tr
  | .answered j _ _ :: tr => if j = i then 0 else missed i tr
  | .broke _ _ :: tr => missed i tr
  | .other _ :: tr => missed i tr

/-- The event stops the client with a panic: somebody stops it, or the last of its tries has
failed. -/
def WorldEvent.Stops (i : Nat) (p : Panic) (before : List WorldEvent) (e : WorldEvent) : Prop :=
  e = .broke i p ∨ e.Misses i ∧ postbTries ≤ missed i (e :: before) ∧ p = .unwrapNone

/-- Something has stopped the client with a panic. -/
def Stopped (i : Nat) (p : Panic) (tr : List WorldEvent) : Prop :=
  ∃ later e before, tr = later ++ e :: before ∧ e.Stops i p before

/-- What the manager sees of it. -/
def WorldEvent.record : WorldEvent → Option ManagerRecord
  | .lost _ => none
  | .unheard _ record => some record
  | .answered _ _ record => some record
  | .broke _ _ => none
  | .other record => some record

section

variable {α : Type}

/-- The world before anybody has signed up. -/
def World.init (commands : Nat → Command α) : World α where
  manager := .init
  process i := .start (commands i)
  failed _ := 0

/-- A client stops. -/
def World.stop (w : World α) (i : Nat) (e : Panic) : World α :=
  { w with process := Function.update w.process i ((w.process i).stop e) }

theorem World.stop_holds {w : World α} {i j : Nat} {e : Panic} {seat : PartySignup}
    {total : UInt16} :
    ((w.stop i e).process j).Holds seat total ↔ (w.process j).Holds seat total := by
  show (Function.update w.process i ((w.process i).stop e) j).Holds seat total ↔ _
  by_cases hj : j = i
  · subst hj
    rw [Function.update_self]
    exact Process.stop_holds e
  · rw [Function.update_of_ne hj]

theorem World.stop_session {w : World α} {i : Nat} {seat : PartySignup} {total : UInt16}
    {s : Client α} (hi : w.process i = .session seat total s) (e : Panic) :
    (w.stop i e).process i = .session seat total (.fail e) := by
  show Function.update w.process i ((w.process i).stop e) i = _
  rw [Function.update_self, hi]
  rfl

/-- One more try of a client has failed.  After the last one it unwraps a `None`. -/
def World.miss (w : World α) (i : Nat) : World α :=
  if w.failed i + 1 < postbTries then
    { w with failed := Function.update w.failed i (w.failed i + 1) }
  else w.stop i .unwrapNone

variable (env : Env) (keygenJson : Codec PartySignup) (roomJson : Codec SigningRoom)
  (commands : Nat → Command α)

/-- The manager handles the request of a client, and the client takes the answer. -/
def World.answer (w : World α) (i : Nat) (late : Bool) (clock : Clock) (request : ManagerRequest) :
    World α where
  manager := (handle env keygenJson roomJson w.manager clock request).1
  process := Function.update w.process i ((w.process i).receive (commands i).body late
    (handle env keygenJson roomJson w.manager clock request).2)
  failed := Function.update w.failed i 0

/-- One step of the world. -/
inductive WorldStep : World α → WorldEvent → World α → Prop where
  | lost {w : World α} {i : Nat} {request : ManagerRequest} :
      (w.process i).request = some request → WorldStep w (.lost i) (w.miss i)
  | unheard {w : World α} {i : Nat} {clock : Clock} {request : ManagerRequest} :
      (w.process i).request = some request → clock.Ordered w.manager.clock →
      WorldStep w (.unheard i ⟨w.manager, .request clock request⟩)
        ({ w with manager := (handle env keygenJson roomJson w.manager clock request).1 }.miss i)
  | answered {w : World α} {i : Nat} (late : Bool) {clock : Clock} {request : ManagerRequest} :
      (w.process i).request = some request → clock.Ordered w.manager.clock →
      WorldStep w (.answered i late ⟨w.manager, .request clock request⟩)
        (w.answer env keygenJson roomJson commands i late clock request)
  | broke {w : World α} (i : Nat) (e : Panic) : WorldStep w (.broke i e) (w.stop i e)
  | other {w : World α} {record : ManagerRecord} {m : ManagerState} :
      TimedStep env keygenJson roomJson w.manager record m →
      WorldStep w (.other record) { w with manager := m }

/-- A run of the world. -/
abbrev WorldRun : World α → List WorldEvent → Prop :=
  Run (fun w => w = World.init commands) (WorldStep env keygenJson roomJson commands)

end

section

variable {α : Type} {env : Env} {keygenJson : Codec PartySignup} {roomJson : Codec SigningRoom}
  {commands : Nat → Command α} {w w' : World α} {tr : List WorldEvent} {e : WorldEvent} {i : Nat}
  {seat : PartySignup} {total : UInt16}

theorem World.miss_manager (w : World α) (i : Nat) : (w.miss i).manager = w.manager := by
  unfold World.miss
  split <;> rfl

/-- A failed try leaves the clients where they are, or it was the last one and stops its
client. -/
theorem World.miss_process (w : World α) (i : Nat) :
    (w.miss i).process = w.process ∨
      postbTries ≤ w.failed i + 1 ∧
        (w.miss i).process = Function.update w.process i ((w.process i).stop .unwrapNone) := by
  unfold World.miss
  split
  next => exact Or.inl rfl
  next h => exact Or.inr ⟨Nat.le_of_not_lt h, rfl⟩

/-- A failed try is counted. -/
theorem World.miss_failed (w : World α) (i j : Nat) :
    (w.miss i).failed j ≤ if i = j then w.failed j + 1 else w.failed j := by
  unfold World.miss
  split
  next =>
    dsimp only
    by_cases hij : i = j
    · subst hij
      rw [Function.update_self, if_pos rfl]
    · rw [Function.update_of_ne (Ne.symm hij), if_neg hij]
  next =>
    show w.failed j ≤ _
    split
    next => exact Nat.le_succ _
    next => exact le_rfl

theorem WorldEvent.Misses.missed_cons (h : e.Misses i) : missed i (e :: tr) = missed i tr + 1 := by
  cases e with
  | lost j => exact if_pos h
  | unheard j record => exact if_pos h
  | _ => exact h.elim

/-! ## The manager in the world -/

/-- A step of the world is one of the manager, or the manager does not notice. -/
theorem WorldStep.manager (h : WorldStep env keygenJson roomJson commands w e w') :
    (e.record = none ∧ w'.manager = w.manager) ∨
      ∃ record, e.record = some record ∧
        TimedStep env keygenJson roomJson w.manager record w'.manager := by
  cases h with
  | lost hi => exact Or.inl ⟨rfl, World.miss_manager _ _⟩
  | broke => exact Or.inl ⟨rfl, rfl⟩
  | unheard hi hclock =>
      refine Or.inr ⟨_, rfl, ?_⟩
      rw [World.miss_manager]
      exact .request _ hclock
  | answered late hi hclock => exact Or.inr ⟨_, rfl, .request _ hclock⟩
  | other hs => exact Or.inr ⟨_, rfl, hs⟩

/-- The requests of a run of the world make a run of the manager. -/
theorem WorldRun.manager (h : WorldRun env keygenJson roomJson commands w tr) :
    TimedRun env keygenJson roomJson w.manager (tr.filterMap WorldEvent.record) := by
  refine Run.invariant (fun w tr =>
    TimedRun env keygenJson roomJson w.manager (tr.filterMap WorldEvent.record)) ?_ ?_ h
  · rintro w rfl
    exact .start rfl
  · intro w e w' tr _ ih hs
    rcases hs.manager with ⟨he, hm⟩ | ⟨record, he, hstep⟩
    · rw [List.filterMap_cons_none he, hm]
      exact ih
    · rw [List.filterMap_cons_some he]
      exact ih.snoc hstep

/-- A lock that is whole was whole before. -/
theorem TimedStep.whole {m m' : ManagerState} {record : ManagerRecord}
    (h : TimedStep env keygenJson roomJson m record m') (hp : m'.poisoned = false) :
    m.poisoned = false := by
  cases h with
  | request => exact handle_found_whole hp
  | expired => exact hp

theorem WorldStep.whole (h : WorldStep env keygenJson roomJson commands w e w')
    (hp : w'.manager.poisoned = false) : w.manager.poisoned = false := by
  rcases h.manager with ⟨-, hm⟩ | ⟨record, -, hs⟩
  · rwa [← hm]
  · exact hs.whole hp

/-! ## A client in the world -/

/-- A client stays where it is or stops, or it takes an answer. -/
theorem WorldStep.process_cases (h : WorldStep env keygenJson roomJson commands w e w') (i : Nat) :
    ((w'.process i = w.process i ∨ ∃ p, w'.process i = (w.process i).stop p) ∧
      ∀ late record, e ≠ .answered i late record) ∨
    ∃ late clock request, e = .answered i late ⟨w.manager, .request clock request⟩ ∧
      (w.process i).request = some request ∧
      w'.process i = (w.process i).receive (commands i).body late
        (handle env keygenJson roomJson w.manager clock request).2 := by
  have stopped : ∀ (j : Nat) (p : Panic) {f : Nat → Process α},
      f = Function.update w.process j ((w.process j).stop p) →
      f i = w.process i ∨ ∃ p, f i = (w.process i).stop p := by
    rintro j p f rfl
    by_cases hij : i = j
    · subst hij
      exact Or.inr ⟨p, Function.update_self ..⟩
    · exact Or.inl (Function.update_of_ne hij _ _)
  have missed : ∀ {v : World α} {j : Nat}, v.process = w.process →
      (v.miss j).process i = w.process i ∨ ∃ p, (v.miss j).process i = (w.process i).stop p := by
    intro v j hv
    rcases v.miss_process j with hm | ⟨-, hm⟩
    · rw [hm, hv]
      exact Or.inl rfl
    · exact stopped j .unwrapNone (by rw [hm, hv])
  cases h with
  | lost hj => exact Or.inl ⟨missed rfl, fun _ _ he => by cases he⟩
  | unheard hj hclock => exact Or.inl ⟨missed rfl, fun _ _ he => by cases he⟩
  | broke j p => exact Or.inl ⟨stopped j p rfl, fun _ _ he => by cases he⟩
  | other hs => exact Or.inl ⟨Or.inl rfl, fun _ _ he => by cases he⟩
  | @answered j late clock request hj hclock =>
      by_cases hij : i = j
      · subst hij
        exact Or.inr ⟨late, clock, request, rfl, hj, Function.update_self ..⟩
      · refine Or.inl ⟨Or.inl (Function.update_of_ne hij _ _), fun _ _ he => ?_⟩
        cases he
        exact hij rfl

/-- No more tries are counted than have failed. -/
theorem WorldStep.failed_le (h : WorldStep env keygenJson roomJson commands w e w')
    (hw : w.failed i ≤ missed i tr) : w'.failed i ≤ missed i (e :: tr) := by
  have counted : ∀ {v : World α} {j : Nat}, v.failed = w.failed →
      (v.miss j).failed i ≤ if j = i then missed i tr + 1 else missed i tr := by
    intro v j hv
    refine (v.miss_failed j i).trans ?_
    rw [hv]
    split
    next => exact Nat.add_le_add_right hw 1
    next => exact hw
  cases h with
  | lost => exact counted rfl
  | unheard => exact counted rfl
  | broke => exact hw
  | other => exact hw
  | @answered j late clock request =>
      show Function.update w.failed j 0 i ≤ if j = i then 0 else missed i tr
      by_cases hj : j = i
      · subst hj
        rw [Function.update_self]
        exact Nat.zero_le _
      · rw [Function.update_of_ne (Ne.symm hj), if_neg hj]
        exact hw

theorem WorldRun.failed_le (h : WorldRun env keygenJson roomJson commands w tr) (i : Nat) :
    w.failed i ≤ missed i tr := by
  refine Run.invariant (fun w tr => w.failed i ≤ missed i tr) ?_ ?_ h
  · rintro w rfl
    exact le_rfl
  · intro w e w' tr _ ih hs
    exact hs.failed_le ih

/-- The last try of a client stops it. -/
theorem WorldEvent.Misses.stops (h : e.Misses i) (hle : w.failed i ≤ missed i tr)
    (hlast : postbTries ≤ w.failed i + 1) : e.Stops i .unwrapNone tr := by
  refine Or.inr ⟨h, ?_, rfl⟩
  rw [h.missed_cons]
  exact hlast.trans (Nat.add_le_add_right hle 1)

theorem Stopped.cons {p : Panic} (h : Stopped i p tr) : Stopped i p (e :: tr) := by
  obtain ⟨later, e', before, rfl, hstops⟩ := h
  exact ⟨e :: later, e', before, rfl, hstops⟩

theorem WorldEvent.Stops.stopped {p : Panic} (h : e.Stops i p tr) : Stopped i p (e :: tr) :=
  ⟨[], e, tr, rfl, h⟩

/-- Who has been let into a session stays there. -/
theorem WorldStep.seated (h : WorldStep env keygenJson roomJson commands w e w')
    (hi : (w.process i).Holds seat total) : (w'.process i).Holds seat total := by
  rcases h.process_cases i with ⟨hp | ⟨p, hp⟩, -⟩ | ⟨late, clock, request, -, -, hp⟩
  · rwa [hp]
  · rw [hp]
    exact (Process.stop_holds p).mpr hi
  · rw [hp]
    exact Process.receive_holds _ hi

end

end TssCli
