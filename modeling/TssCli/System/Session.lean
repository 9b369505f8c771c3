import TssCli.Common.Session
import TssCli.Lib.Mapped
import TssCli.System.World

/-!
# One session of the world

The clients that hold a seat of one UUID play the parts of a session.  If their seats
are different ones of `n`, and all of them post under their own numbers only, then what
they do is a run of the session over links that fail, whatever else happens in the
world (`WorldRun.session`): other clients and other programs stay outside, and a client
that has not signed up yet is a party that has not moved.

So it is mirrored by a run of the session in which each post is handled once and
nothing expires (`WorldRun.refines`).  What is known of those runs holds of the
clients in the world.
-/

namespace TssCli

open Mailbox Transition

/-! ## Letters and their senders -/

/-- The key of a letter of the party `sender`. -/
def OwnKey (uuid : String) (sender : Nat) (key : Key) : Prop :=
  ∃ l : Letter, l.uuid = uuid ∧ l.sender = sender ∧ key = l.key

/-- The key is none of a letter of the session. -/
def NoLetter (uuid : String) (key : Key) : Prop := ∀ l : Letter, l.uuid = uuid → key ≠ l.key

theorem OwnKey.noLetter {uuid uuid' : String} {sender : Nat} {key : Key}
    (h : OwnKey uuid sender key) (hne : uuid ≠ uuid') : NoLetter uuid' key := by
  obtain ⟨l, rfl, -, rfl⟩ := h
  rintro l' rfl hkey
  exact hne (congrArg Letter.uuid (Letter.key_injective hkey))

open Classical in
/-- The party whose letter goes under the key. -/
noncomputable def sessionOwner (uuid : String) (n : Nat) (key : Key) : Option (Fin n) :=
  if h : ∃ k : Fin n, OwnKey uuid (number k) key then some h.choose else none

section

variable {uuid : String} {n : Nat} {key : Key} {k : Fin n}

theorem sessionOwner_eq (h : OwnKey uuid (number k) key) : sessionOwner uuid n key = some k := by
  have hex : ∃ k : Fin n, OwnKey uuid (number k) key := ⟨k, h⟩
  rw [sessionOwner, dif_pos hex]
  obtain ⟨l, -, hsender, rfl⟩ := h
  obtain ⟨l', -, hsender', hkey⟩ := hex.choose_spec
  obtain rfl := Letter.key_injective hkey
  exact congrArg some (number_injective (hsender'.symm.trans hsender))

theorem sessionOwner_none (h : NoLetter uuid key) : sessionOwner uuid n key = none := by
  rw [sessionOwner, dif_neg]
  rintro ⟨k, l, hl, -, hkey⟩
  exact h l hl hkey

/-- What may go wrong in a session of `n` parties: the keys that expire, and the panics that
stop the party at a place. -/
structure Faults (n : Nat) where
  expires : Key → Prop
  stops : Fin n → Panic → Prop

variable {faults : Faults n}

/-- Only these keys expire. -/
def Faults.Expires (faults : Faults n) : NetEvent (Fin n) Key String Panic → Prop
  | .expired key => faults.expires key
  | _ => True

/-- What happens in the session: nobody else posts in it, a party that gives up has run
out of time, and no more than this goes wrong. -/
def SessionEvent (uuid : String) (faults : Faults n) : LinkEvent (Fin n) Key String Panic → Prop
  | .step e => KeepsOut uuid e ∧ GivesUp (· = .pollTimeout) e ∧ faults.Expires e
  | .unheard _ _ _ => True
  | .broke k e => faults.stops k e

theorem SessionEvent.respects {l : LinkEvent (Fin n) Key String Panic}
    (h : SessionEvent uuid faults l) : l.Respects (sessionOwner uuid n) faults.stops := by
  cases l with
  | step e =>
      cases e with
      | foreign key text => exact sessionOwner_none h.1
      | _ => trivial
  | unheard => trivial
  | broke => exact h

/-- An event that mirrors those of the session. -/
theorem SessionEvent.mirrored {e : NetEvent (Fin n) Key String Panic}
    {tr : List (LinkEvent (Fin n) Key String Panic)} (h : ∀ l ∈ tr, SessionEvent uuid faults l)
    (he : e.Of tr) : KeepsOut uuid e ∧ GivesUp (· = .pollTimeout) e := by
  cases e with
  | posted => exact ⟨trivial, trivial⟩
  | got => exact ⟨trivial, trivial⟩
  | gaveUp i e => exact ⟨trivial, (h _ he).2.1⟩
  | foreign key text => exact ⟨(h _ he).1, trivial⟩
  | expired => exact he.elim

end

/-! ## The place of a client -/

section

variable {α : Type}

/-- The place of a client in the session of a UUID with `n` parties. -/
def Process.place (uuid : String) (n : Nat) : Process α → Option (Fin n × Client α)
  | .session seat _ script =>
      if h : seat.uuid = uuid ∧ 1 ≤ seat.number.toNat ∧ seat.number.toNat ≤ n then
        some (⟨seat.number.toNat - 1, by omega⟩, script)
      else none
  | .keygen .. | .signup _ | .panicked => none

/-- A command posts letters of its own seat only. -/
def Command.PostsOwn (command : Command α) : Prop :=
  ∀ seat total, (command.body seat total).PostsOnly (OwnKey seat.uuid seat.number.toNat)

/-- The clients with a seat of the UUID play the parts of the session, each another one. -/
structure InSession (commands : Nat → Command α) (uuid : String) (n : Nat)
    (script : Nat → Client α) (w : World α) : Prop where
  range : ∀ i seat total, (w.process i).Holds seat total → seat.uuid = uuid →
    1 ≤ seat.number.toNat ∧ seat.number.toNat ≤ n
  body : ∀ i seat total, (w.process i).Holds seat total → seat.uuid = uuid →
    (commands i).body seat total = script seat.number.toNat
  apart : ∀ i j seat seat' total total', (w.process i).Holds seat total →
    (w.process j).Holds seat' total' → seat.uuid = uuid → seat'.uuid = uuid →
    seat.number = seat'.number → i = j

/-- Somebody is in every seat. -/
def Full (w : World α) (uuid : String) (n : Nat) : Prop :=
  ∀ k, 1 ≤ k → k ≤ n → ∃ i seat total, (w.process i).Holds seat total ∧ seat.uuid = uuid ∧
    seat.number.toNat = k

theorem Full.stop {w : World α} {uuid : String} {n : Nat} (h : Full w uuid n) (i : Nat)
    (e : Panic) : Full (w.stop i e) uuid n := fun k h₁ hk => by
  obtain ⟨j, seat, total, hj, hu⟩ := h k h₁ hk
  exact ⟨j, seat, total, World.stop_holds.mpr hj, hu⟩

/-- The clients of a session seen as a run over links that fail. -/
def Sees (uuid : String) (n : Nat) (script : Nat → Client α) (faults : Faults n) (db : Db)
    (process : Nat → Process α) : Prop :=
  ∃ tr, Arrived (sessionNet n (fun _ => none) script) db (fun i => (process i).place uuid n) tr ∧
    ∀ l ∈ tr, SessionEvent uuid faults l

/-- Only these keys expire. -/
def WorldEvent.Within (expires : Key → Prop) (e : WorldEvent) : Prop :=
  ∀ record key, e = .other record → record.event = .expired key → expires key

/-- Somebody else does not write in the session. -/
def ManagerRecord.KeepsOut (uuid : String) (c : ManagerRecord) : Prop :=
  ∀ clock entry, c.event = .request clock (.set entry) → NoLetter uuid entry.key

variable {uuid : String} {n : Nat} {script : Nat → Client α} {faults : Faults n} {db : Db}
  {process : Nat → Process α}
  {p : Process α} {i : Nat} {k : Fin n} {s : Client α} {seat : PartySignup} {total : UInt16}

theorem Process.place_eq_some : p.place uuid n = some (k, s) ↔
    ∃ seat total, p = .session seat total s ∧ seat.uuid = uuid ∧ seat.number.toNat = number k := by
  constructor
  · intro h
    cases p with
    | session seat total script =>
        unfold Process.place at h
        dsimp only at h
        split at h
        next hseat =>
          obtain ⟨rfl, rfl⟩ := Prod.mk.inj (Option.some.inj h)
          exact ⟨seat, total, rfl, hseat.1, (Nat.sub_add_cancel hseat.2.1).symm⟩
        next => cases h
    | _ => cases h
  · rintro ⟨seat, total, rfl, rfl, hk⟩
    have hrange : 1 ≤ seat.number.toNat ∧ seat.number.toNat ≤ n := by
      rw [hk]
      exact ⟨one_le_number k, number_le k⟩
    unfold Process.place
    dsimp only
    rw [dif_pos ⟨rfl, hrange⟩]
    congr 2
    apply number_injective
    rw [← hk]
    exact Nat.sub_add_cancel hrange.1

theorem Process.place_holds (h : p.place uuid n = some (k, s)) :
    ∃ seat total, p.Holds seat total ∧ seat.uuid = uuid ∧ seat.number.toNat = number k := by
  obtain ⟨seat, total, rfl, hseat⟩ := place_eq_some.mp h
  exact ⟨seat, total, ⟨s, rfl⟩, hseat⟩

/-- A client without a place gets none where it is. -/
theorem Process.place_script (h : (Process.session seat total s).place uuid n = none)
    (t : Client α) : (Process.session seat total t).place uuid n = none := by
  unfold Process.place at h ⊢
  dsimp only at h ⊢
  split at h
  next => cases h
  next hseat => rw [dif_neg hseat]

theorem place_update : (fun j => (Function.update process i p j).place uuid n) =
    Function.update (fun j => (process j).place uuid n) i (p.place uuid n) := by
  funext j
  by_cases hj : j = i
  · subst hj
    simp
  · simp [hj]

/-- A client with a seat of the session has the place of its number. -/
theorem InSession.place {commands : Nat → Command α} {w : World α}
    (h : InSession commands uuid n script w) (hi : w.process i = .session seat total s)
    (hu : seat.uuid = uuid) :
    ∃ k : Fin n, number k = seat.number.toNat ∧ (w.process i).place uuid n = some (k, s) := by
  obtain ⟨h₁, hn⟩ := h.range i seat total ⟨s, hi⟩ hu
  obtain ⟨k, hk⟩ := exists_number h₁ hn
  exact ⟨k, hk, Process.place_eq_some.mpr ⟨seat, total, hi, hu, hk.symm⟩⟩

/-! ## Steps seen from the session -/

section

variable (h : Sees uuid n script faults db process)

include h

/-- What happens outside is not seen. -/
theorem Sees.outside (hi : (process i).place uuid n = none) (hp : p.place uuid n = none) :
    Sees uuid n script faults db (Function.update process i p) := by
  obtain ⟨tr, harr, htr⟩ := h
  refine ⟨tr, ?_, htr⟩
  rw [place_update, hp, ← hi, Function.update_eq_self]
  exact harr

theorem Sees.written {key : Key} (hkey : NoLetter uuid key) (text : String) :
    Sees uuid n script faults (Function.update db key (some text)) process := by
  obtain ⟨tr, harr, htr⟩ := h
  exact ⟨_, harr.foreign key text, List.forall_mem_cons.mpr ⟨⟨hkey, trivial, trivial⟩, htr⟩⟩

theorem Sees.expired {key : Key} (hkey : faults.expires key) :
    Sees uuid n script faults (Function.update db key none) process := by
  obtain ⟨tr, harr, htr⟩ := h
  exact ⟨_, harr.expired key, List.forall_mem_cons.mpr ⟨⟨trivial, trivial, hkey⟩, htr⟩⟩

/-- A client goes on, or stops. -/
theorem Sees.moved {q : Process α} {t : Client α} {e : LinkEvent (Fin n) Key String Panic}
    (hq : q.place uuid n = some (k, t))
    (hmove : ∀ tr, Arrived (sessionNet n (fun _ => none) script) db
        (fun i => (process i).place uuid n) tr →
      Arrived (sessionNet n (fun _ => none) script) db
        (Function.update (fun i => (process i).place uuid n) i (some (k, t))) (e :: tr))
    (he : SessionEvent uuid faults e) :
    Sees uuid n script faults db (Function.update process i q) := by
  obtain ⟨tr, harr, htr⟩ := h
  refine ⟨e :: tr, ?_, List.forall_mem_cons.mpr ⟨he, htr⟩⟩
  rw [place_update, hq]
  exact hmove tr harr

theorem Sees.stopped (i : Nat) {e : Panic}
    (he : ∀ k s, (process i).place uuid n = some (k, s) → faults.stops k e) :
    Sees uuid n script faults db (Function.update process i ((process i).stop e)) := by
  cases hi : (process i).place uuid n with
  | none =>
      refine h.outside hi ?_
      generalize process i = q at hi
      cases q with
      | session seat total s => exact Process.place_script hi (.fail e)
      | _ => rfl
  | some ks =>
      obtain ⟨k, s⟩ := ks
      obtain ⟨seat, total, hp, hseat⟩ := Process.place_eq_some.mp hi
      refine h.moved (k := k) (t := .fail e) ?_ (fun tr harr => harr.broke hi e) (he k s hi)
      rw [hp]
      exact Process.place_eq_some.mpr ⟨seat, total, rfl, hseat⟩

/-- A client takes a free seat. -/
theorem Sees.arrives (hi : (process i).place uuid n = none)
    (hp : p.place uuid n = some (k, script (number k)))
    (hfree : ∀ j s, (process j).place uuid n ≠ some (k, s)) :
    Sees uuid n script faults db (Function.update process i p) := by
  obtain ⟨tr, harr, htr⟩ := h
  refine ⟨tr, ?_, htr⟩
  rw [place_update, hp]
  exact harr.arrives hi hfree

end

/-! ## Requests seen from the session -/

section

variable {env : Env} {keygenJson : Codec PartySignup} {roomJson : Codec SigningRoom}
  {commands : Nat → Command α} {w w' : World α} {tr : List WorldEvent} {e : WorldEvent}
  {m : ManagerState} {clock : Clock} {request : ManagerRequest}

/-- A script that posts under its own keys does so after each answer. -/
theorem takeReply_postsOnly {P : Key → Prop} {late : Bool} {reply : Except Panic Reply}
    (h : s.PostsOnly P) : (takeReply late s reply).PostsOnly P := by
  unfold takeReply
  split
  next => exact h.2
  next => exact h _
  next =>
    split
    next => trivial
    next => exact h
  next => trivial

/-- Who posts own letters only does so as long as it runs. -/
theorem WorldStep.postsOwn (hs : WorldStep env keygenJson roomJson commands w e w')
    (hcommands : ∀ i, (commands i).PostsOwn)
    (h : ∀ i seat total s, w.process i = .session seat total s →
      s.PostsOnly (OwnKey seat.uuid seat.number.toNat)) :
    ∀ i seat total s, w'.process i = .session seat total s →
      s.PostsOnly (OwnKey seat.uuid seat.number.toNat) := by
  intro i seat total s hi
  rcases hs.process_cases i with ⟨hp | ⟨p, hp⟩, -⟩ | ⟨late, clock, request, -, -, hp⟩
  · exact h i seat total s (hp ▸ hi)
  · rw [hp] at hi
    generalize w.process i = q at hi
    cases q with
    | session =>
        cases hi
        trivial
    | _ => cases hi
  · rw [hp] at hi
    rcases Process.receive_cases (commands i).body late (w.process i)
      (handle env keygenJson roomJson w.manager clock request).2 with
      ⟨seat', total', s', hold, hr⟩ | ⟨-, ⟨seat', total', hr⟩ | hnone⟩
    · rw [hr] at hi
      cases hi
      exact takeReply_postsOnly (h i _ _ _ hold)
    · rw [hr] at hi
      cases hi
      exact hcommands i _ _
    · exact absurd ⟨s, hi⟩ (hnone seat total)

/-- A request that sets no letter of the session. -/
theorem Sees.handled (h : Sees uuid n script faults m.db process)
    (hstores : ∀ entry, Stores keygenJson roomJson request entry → NoLetter uuid entry.key) :
    Sees uuid n script faults (handle env keygenJson roomJson m clock request).1.db process := by
  rcases @handle_stores env _ _ m clock request with hdb | ⟨entry, hentry, hdb⟩
  · rwa [hdb]
  · rw [hdb]
    exact h.written (hstores entry hentry) _

/-- A record is no letter. -/
theorem Stores.noLetter {entry : Entry} (h : Stores keygenJson roomJson request entry)
    (hset : request = .set entry → NoLetter uuid entry.key) : NoLetter uuid entry.key := by
  cases h with
  | posted => exact hset rfl
  | @counted params curve s => exact fun l _ he => l.key_ne_keygenKey curve he.symm
  | @seated request r => exact fun l _ he => l.key_ne_signKey request he.symm

theorem handle_set (hp : m.poisoned = false) (entry : Entry) :
    handle env keygenJson roomJson m clock (.set entry) =
      ({ m with db := set m.db entry, clock := clock.stop }, .ok .stored) := by
  rw [handle, if_neg (Bool.eq_false_iff.mp hp)]

theorem handle_get (hp : m.poisoned = false) (key : Key) :
    handle env keygenJson roomJson m clock (.get key) =
      ({ m with clock := clock.stop }, .ok (.entry (get m.db key))) := by
  rw [handle, if_neg (Bool.eq_false_iff.mp hp)]

/-- A client of the session posts or polls. -/
theorem Process.place_request (hp : p.place uuid n = some (k, s)) (hr : p.request = some request) :
    (∃ key text next, s = .post key text next ∧ request = .set ⟨key, text⟩) ∨
      ∃ key next, s = .await key next ∧ request = .get key := by
  obtain ⟨seat, total, rfl, -⟩ := Process.place_eq_some.mp hp
  cases s with
  | post key text next =>
      cases hr
      exact Or.inl ⟨key, text, next, rfl, rfl⟩
  | await key next =>
      cases hr
      exact Or.inr ⟨key, next, rfl, rfl⟩
  | ret => cases hr
  | fail => cases hr

/-- A client outside of the session sets none of its letters. -/
theorem Process.outside_set {entry : Entry}
    (hrange : ∀ seat total, p.Holds seat total → seat.uuid = uuid →
      1 ≤ seat.number.toNat ∧ seat.number.toNat ≤ n)
    (hown : ∀ seat total s, p = .session seat total s →
      s.PostsOnly (OwnKey seat.uuid seat.number.toNat))
    (hp : p.place uuid n = none) (hr : p.request = some (.set entry)) : NoLetter uuid entry.key := by
  cases p with
  | keygen => cases hr
  | panicked => cases hr
  | signup call =>
      obtain ⟨r, -, he⟩ := Option.map_eq_some_iff.mp hr
      cases he
  | session seat total s =>
      cases s with
      | post key text next =>
          cases hr
          refine (hown _ _ _ rfl).1.noLetter fun hu => ?_
          obtain ⟨h₁, hn⟩ := hrange seat total ⟨_, rfl⟩ hu
          obtain ⟨k, hk⟩ := exists_number h₁ hn
          rw [Process.place_eq_some.mpr ⟨seat, total, rfl, hu, hk.symm⟩] at hp
          cases hp
      | await => cases hr
      | ret => cases hr
      | fail => cases hr

/-- A client keeps its place. -/
theorem WorldStep.placed (hs : WorldStep env keygenJson roomJson commands w e w')
    (hi : (w.process i).place uuid n = some (k, s)) :
    ∃ s', (w'.process i).place uuid n = some (k, s') := by
  obtain ⟨seat, total, hholds, hseat⟩ := Process.place_holds hi
  obtain ⟨s', hs'⟩ := hs.seated hholds
  exact ⟨s', Process.place_eq_some.mpr ⟨seat, total, hs', hseat⟩⟩

theorem InSession.before (h : InSession commands uuid n script w')
    (hs : WorldStep env keygenJson roomJson commands w e w') :
    InSession commands uuid n script w where
  range i seat total hi := h.range i seat total (hs.seated hi)
  body i seat total hi := h.body i seat total (hs.seated hi)
  apart i j seat seat' total total' hi hj :=
    h.apart i j seat seat' total total' (hs.seated hi) (hs.seated hj)

/-- A failed try. -/
theorem Sees.missed {v : World α} (h : Sees uuid n script faults v.manager.db v.process) (i : Nat)
    (hlast : postbTries ≤ v.failed i + 1 → ∀ k s, (v.process i).place uuid n = some (k, s) →
      faults.stops k .unwrapNone) :
    Sees uuid n script faults (v.miss i).manager.db (v.miss i).process := by
  rw [World.miss_manager]
  rcases v.miss_process i with hm | ⟨htries, hm⟩
  · rwa [hm]
  · rw [hm]
    exact h.stopped i (hlast htries)

/-- A request of a client, before its answer arrives. -/
theorem Sees.unheard {process : Nat → Process α} (h : Sees uuid n script faults m.db process)
    (hp : m.poisoned = false) (hi : (process i).request = some request)
    (hset : ∀ entry, (process i).place uuid n = none → request = .set entry →
      NoLetter uuid entry.key) :
    Sees uuid n script faults (handle env keygenJson roomJson m clock request).1.db process := by
  cases hplace : (process i).place uuid n with
  | none => exact h.handled fun entry he => he.noLetter (hset entry hplace)
  | some ks =>
      obtain ⟨k, s⟩ := ks
      rcases Process.place_request hplace hi with ⟨key, text, next, rfl, rfl⟩ | ⟨key, next, rfl, rfl⟩
      · rw [handle_set hp]
        obtain ⟨tr, harr, htr⟩ := h
        exact ⟨_, harr.unheard hplace, List.forall_mem_cons.mpr ⟨trivial, htr⟩⟩
      · rw [handle_get hp]
        exact h

/-- A request of a client of the session, and its answer. -/
theorem Sees.answered {process : Nat → Process α} (h : Sees uuid n script faults m.db process)
    (hp : m.poisoned = false) (hi : (process i).request = some request)
    (hplace : (process i).place uuid n = some (k, s)) (body : PartySignup → UInt16 → Client α)
    (late : Bool) :
    Sees uuid n script faults (handle env keygenJson roomJson m clock request).1.db
      (Function.update process i ((process i).receive body late
        (handle env keygenJson roomJson m clock request).2)) := by
  obtain ⟨seat, total, hsession, hseat⟩ := Process.place_eq_some.mp hplace
  have hnext : ∀ t : Client α, (Process.session seat total t).place uuid n = some (k, t) :=
    fun t => Process.place_eq_some.mpr ⟨seat, total, rfl, hseat⟩
  rcases Process.place_request hplace hi with ⟨key, text, next, rfl, rfl⟩ | ⟨key, next, rfl, rfl⟩
  · rw [handle_set hp, hsession]
    obtain ⟨tr, harr, htr⟩ := h
    refine ⟨.step (.posted k key text) :: tr, ?_,
      List.forall_mem_cons.mpr ⟨⟨trivial, trivial, trivial⟩, htr⟩⟩
    rw [place_update]
    exact (hnext next).symm ▸ harr.posted hplace
  · rw [handle_get hp, hsession]
    cases hdb : m.db key with
    | some text =>
        have hget : get m.db key = .ok ⟨key, text⟩ := by rw [get, hdb]
        rw [hget]
        exact h.moved (hnext (next text)) (fun tr harr => harr.got hplace hdb)
          ⟨trivial, trivial, trivial⟩
    | none =>
        have hget : get m.db key = .error ⟨"Key not found: " ++ key⟩ := by rw [get, hdb]
        rw [hget]
        cases late with
        | true =>
            refine h.moved (hnext _) (fun tr harr => harr.gaveUp hplace .pollTimeout) ?_
            exact ⟨trivial, rfl, trivial⟩
        | false =>
            have hstay : Function.update process i (Process.session seat total (.await key next)) =
                process := by rw [← hsession, Function.update_eq_self]
            exact hstay.symm ▸ h

/-- A step of the world is a few steps of the session. -/
theorem WorldStep.sees (hs : WorldStep env keygenJson roomJson commands w e w')
    (hown : ∀ i seat total s, w.process i = .session seat total s →
      s.PostsOnly (OwnKey seat.uuid seat.number.toNat))
    (hout : ∀ record, e = .other record → record.KeepsOut uuid)
    (hfailed : ∀ i, w.failed i ≤ missed i tr) (hexpires : e.Within faults.expires)
    (hstops : ∀ i k s p, (w.process i).place uuid n = some (k, s) → e.Stops i p tr →
      faults.stops k p)
    (hwhole : w'.manager.poisoned = false) (hin : InSession commands uuid n script w')
    (h : Sees uuid n script faults w.manager.db w.process) :
    Sees uuid n script faults w'.manager.db w'.process := by
  have hp := hs.whole hwhole
  have hbefore := hin.before hs
  have hset : ∀ {i request}, (w.process i).request = some request → ∀ entry,
      (w.process i).place uuid n = none → request = .set entry → NoLetter uuid entry.key := by
    rintro i request hi entry hplace rfl
    exact Process.outside_set (hbefore.range i) (hown i) hplace hi
  have hlast : ∀ i, e.Misses i → postbTries ≤ w.failed i + 1 → ∀ k s,
      (w.process i).place uuid n = some (k, s) → faults.stops k .unwrapNone :=
    fun i hmiss htries k s hplace => hstops i k s _ hplace (hmiss.stops (hfailed i) htries)
  cases hs with
  | lost hi => exact h.missed _ (hlast _ rfl)
  | broke i e => exact h.stopped i fun k s hplace => hstops i k s e hplace (Or.inl rfl)
  | unheard hi hclock => exact Sees.missed (h.unheard hp hi (hset hi)) _ (hlast _ rfl)
  | other hs =>
      cases hs with
      | expired key => exact h.expired (hexpires _ key rfl rfl)
      | request request hclock =>
          refine h.handled fun entry he => he.noLetter fun hr => ?_
          exact hout _ rfl _ entry (by rw [hr])
  | @answered i late clock request hi hclock =>
      cases hplace : (w.process i).place uuid n with
      | some ks => exact h.answered hp hi hplace _ late
      | none =>
          have hdb : Sees uuid n script faults
              (handle env keygenJson roomJson w.manager clock request).1.db w.process :=
            h.unheard hp hi (hset hi)
          show Sees uuid n script faults _ (Function.update w.process i _)
          cases hnew : ((w.process i).receive (commands i).body late
              (handle env keygenJson roomJson w.manager clock request).2).place uuid n with
          | none => exact hdb.outside hplace hnew
          | some ks =>
              obtain ⟨k, s⟩ := ks
              have hself :
                  (w.answer env keygenJson roomJson commands i late clock request).process i =
                  (w.process i).receive (commands i).body late
                    (handle env keygenJson roomJson w.manager clock request).2 :=
                Function.update_self ..
              obtain ⟨seat, total, hsession, hu, hk⟩ := Process.place_eq_some.mp hnew
              have hi' : ((w.answer env keygenJson roomJson commands i late clock request).process
                  i).Holds seat total := ⟨s, hself.trans hsession⟩
              rcases Process.receive_cases (commands i).body late (w.process i)
                (handle env keygenJson roomJson w.manager clock request).2 with
                ⟨seat', total', s', hold, hr⟩ | ⟨hnot, ⟨seat', total', hr⟩ | hnone⟩
              · rw [hsession] at hr
                cases hr
                rw [hold, Process.place_eq_some.mpr ⟨_, _, rfl, hu, hk⟩] at hplace
                cases hplace
              · rw [hsession] at hr
                cases hr
                have hbody := hin.body i seat total hi' hu
                rw [hk] at hbody
                rw [hbody] at hnew
                refine hdb.arrives hplace hnew fun j t hj => ?_
                obtain ⟨seat', total', hholds, hu', hk'⟩ := Process.place_holds hj
                obtain rfl := hin.apart j i seat' seat total' total
                  (WorldStep.seated (.answered late hi hclock) hholds) hi' hu' hu
                  (UInt16.toNat_inj.mp (hk'.trans hk.symm))
                exact hnot _ _ hholds
              · exact absurd ⟨s, hsession⟩ (hnone _ _)

/-! ## Runs seen from the session -/

theorem WorldRun.postsOwn (hrun : WorldRun env keygenJson roomJson commands w tr)
    (hcommands : ∀ i, (commands i).PostsOwn) :
    ∀ i seat total s, w.process i = .session seat total s →
      s.PostsOnly (OwnKey seat.uuid seat.number.toNat) := by
  refine Run.invariant (fun w _ => ∀ i seat total s, w.process i = .session seat total s →
    s.PostsOnly (OwnKey seat.uuid seat.number.toNat)) ?_ ?_ hrun
  · rintro w rfl i seat total s hi
    have hi : Process.start (commands i) = .session seat total s := hi
    unfold Process.start at hi
    split at hi <;> cases hi
  · intro w e w' tr _ ih hs
    exact hs.postsOwn hcommands ih

/-- A run of the session, to which nobody else posts, in which each post is handled once
and nothing expires.  Every party that has returned returns the same in it, and one that
has failed fails the same way, unless it was stopped. -/
theorem Sees.mirrored (h : Sees uuid n script faults db process)
    (hscript : ∀ k, 1 ≤ k → k ≤ n → (script k).PostsOnly (OwnKey uuid k)) :
    ∃ net tr', NetRun (sessionNet n (fun _ => none) script) net tr' ∧
      (∀ e ∈ tr', KeepsOut uuid e ∧ GivesUp (· = .pollTimeout) e) ∧
      (∀ i k a, (process i).place uuid n = some (k, .ret a) → net.scripts k = .ret a) ∧
      ∀ i k e, (process i).place uuid n = some (k, .fail e) →
        net.scripts k = .fail e ∨ faults.stops k e := by
  obtain ⟨ltr, ⟨net, hlink, harr⟩, hltr⟩ := h
  have howned : ∀ k : Fin n, (script (number k)).PostsOnly fun key =>
      sessionOwner uuid n key = some k := fun k =>
    (hscript _ (one_le_number k) (number_le k)).mono fun _ => sessionOwner_eq
  obtain ⟨once, tr', hmirrors⟩ := hlink.mirrored howned fun l hl => (hltr l hl).respects
  have hlag : ∀ i k s, (process i).place uuid n = some (k, s) →
      Lags (faults.stops k) once.store s (once.scripts k) :=
    fun i k s hplace => harr.here i k s hplace ▸ hmirrors.standing.scripts k
  exact ⟨once, tr', hmirrors.run, fun e he => SessionEvent.mirrored hltr (hmirrors.events e he),
    fun i k a hplace => (hlag i k _ hplace).returned,
    fun i k e hplace => (hlag i k _ hplace).failed⟩

section

variable (hrun : WorldRun env keygenJson roomJson commands w tr)
  (hcommands : ∀ i, (commands i).PostsOwn)
  (hout : ∀ record, .other record ∈ tr → record.KeepsOut uuid)
  (hwhole : w.manager.poisoned = false) (hin : InSession commands uuid n script w)

include hrun hcommands hout hwhole hin

/-- What the clients of a session have done is a run of the session over links that
fail. -/
theorem WorldRun.session (hexpires : ∀ e ∈ tr, e.Within faults.expires)
    (hstops : ∀ i k s p, (w.process i).place uuid n = some (k, s) → Stopped i p tr →
      faults.stops k p) :
    Sees uuid n script faults w.manager.db w.process := by
  refine Run.invariant (fun w tr => (∀ record, .other record ∈ tr → record.KeepsOut uuid) →
    (∀ e ∈ tr, e.Within faults.expires) →
    (∀ i k s p, (w.process i).place uuid n = some (k, s) → Stopped i p tr → faults.stops k p) →
    w.manager.poisoned = false → InSession commands uuid n script w →
    Sees uuid n script faults w.manager.db w.process) ?_ ?_ hrun hout hexpires hstops hwhole hin
  · rintro w rfl - - - - -
    refine ⟨[], .none rfl fun i => ?_, by simp⟩
    show (Process.start (commands i)).place uuid n = none
    unfold Process.start
    split <;> rfl
  · intro w e w' tr hbefore ih hs hout hexpires hstops hwhole hin
    have hearlier : ∀ i k s p, (w.process i).place uuid n = some (k, s) → Stopped i p (e :: tr) →
        faults.stops k p := by
      intro i k s p hplace hstopped
      obtain ⟨s', hplace'⟩ := hs.placed hplace
      exact hstops i k s' p hplace' hstopped
    refine hs.sees (WorldRun.postsOwn hbefore hcommands)
      (fun record he => hout record (he ▸ List.mem_cons_self ..)) (WorldRun.failed_le hbefore)
      (hexpires e (List.mem_cons_self ..))
      (fun i k s p hplace he => hearlier i k s p hplace he.stopped) hwhole hin ?_
    exact ih (fun record hr => hout record (List.mem_cons_of_mem _ hr))
      (fun e he => hexpires e (List.mem_cons_of_mem _ he))
      (fun i k s p hplace hstopped => hearlier i k s p hplace hstopped.cons)
      (hs.whole hwhole) (hin.before hs)

end

/-- What the clients of a session have returned, they return in a run of the session to
which nobody else posts, in which each post is handled once and nothing expires.  And a
client that has panicked has panicked there, unless something has stopped this client. -/
theorem WorldRun.mirrored {β : Type} {f : β → α} {script : Nat → Client β}
    (hrun : WorldRun env keygenJson roomJson commands w tr)
    (hcommands : ∀ i, (commands i).PostsOwn)
    (hout : ∀ record, .other record ∈ tr → record.KeepsOut uuid)
    (hwhole : w.manager.poisoned = false)
    (hin : InSession commands uuid n (fun k => f <$> script k) w)
    (hscript : ∀ k, 1 ≤ k → k ≤ n → (f <$> script k).PostsOnly (OwnKey uuid k)) :
    ∃ net tr', NetRun (sessionNet n (fun _ => none) script) net tr' ∧
      (∀ e ∈ tr', KeepsOut uuid e ∧ GivesUp (· = .pollTimeout) e) ∧
      (∀ i seat total a, w.process i = .session seat total (.ret a) → seat.uuid = uuid →
        ∃ (k : Fin n) (b : β), number k = seat.number.toNat ∧ net.scripts k = .ret b ∧ a = f b) ∧
      ∀ i seat total e, w.process i = .session seat total (.fail e) → seat.uuid = uuid →
        Stopped i e tr ∨ ∃ k : Fin n, number k = seat.number.toNat ∧ net.scripts k = .fail e := by
  -- A place is stopped when the client that holds it in the end is.
  let faults : Faults n :=
    ⟨fun _ => True, fun k p => ∃ i s, (w.process i).place uuid n = some (k, s) ∧ Stopped i p tr⟩
  have hsees : Sees uuid n (fun k => f <$> script k) faults w.manager.db w.process :=
    hrun.session hcommands hout hwhole hin (fun _ _ _ _ _ _ => trivial)
      fun i k s p hplace hstopped => ⟨i, s, hplace, hstopped⟩
  obtain ⟨mapped, tr', hmapped, htr', hret, hfail⟩ := hsees.mirrored hscript
  have hmapped : NetRun ((sessionNet n (fun _ => none) script).map f) mapped tr' := hmapped
  obtain ⟨net, hnet, rfl⟩ := hmapped.unmap
  refine ⟨net, tr', hnet, htr', fun i seat total a hi hu => ?_, fun i seat total e hi hu => ?_⟩
  · obtain ⟨k, hk, hplace⟩ := hin.place hi hu
    obtain ⟨b, hb, rfl⟩ := Script.map_eq_ret (hret i k a hplace)
    exact ⟨k, b, hk, hb, rfl⟩
  · obtain ⟨k, hk, hplace⟩ := hin.place hi hu
    rcases hfail i k e hplace with he | ⟨j, s, hplace', hstopped⟩
    · exact Or.inr ⟨k, hk, Script.map_eq_fail he⟩
    · obtain ⟨seat', total', hj, hu', hk'⟩ := Process.place_holds hplace'
      obtain rfl := hin.apart j i seat' seat total' total hj ⟨_, hi⟩ hu' hu
        (UInt16.toNat_inj.mp (hk'.trans hk))
      exact Or.inl hstopped

end

end

end TssCli
