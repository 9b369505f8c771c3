import TssCli.Lib.Completion
import TssCli.System.Session

/-!
# Sessions that can still end

Whatever has happened in the world, a session of which every seat is held and whose
clients have not panicked can go on to its end, as long as nothing that was posted in it
has expired (`WorldRun.completes`).  Requests and answers may have been lost before, and
letters posted twice; from then on it is enough that the manager answers the clients of
this session alone.
-/

namespace TssCli

open Mailbox Mailbox.Script Transition

section

variable {α β : Type}

/-- The parties play their parts under one schedule. -/
def AllPlay (uuid : String) (n : Nat) (script : Nat → Client α) (result : Nat → α) : Prop :=
  ∃ s : Schedule, s.uuid = uuid ∧ s.parties = n ∧ ∀ (excused : Panic → Prop) (i : Nat), 1 ≤ i →
    i ≤ n → Plays s.mail s.rank excused (Owes s.mail i) 0 (script i) s.rounds.length (result i)

/-- They do unless they panic with one of these. -/
def PlayUnless (excused : Panic → Prop) (uuid : String) (n : Nat) (script : Nat → Client α)
    (result : Nat → α) : Prop :=
  ∃ s : Schedule, s.uuid = uuid ∧ s.parties = n ∧ ∀ i, 1 ≤ i → i ≤ n →
    Plays s.mail s.rank excused (Owes s.mail i) 0 (script i) s.rounds.length (result i)

variable {uuid : String} {n : Nat} {script : Nat → Client α} {result : Nat → α}

theorem AllPlay.unless (h : AllPlay uuid n script result) (excused : Panic → Prop) :
    PlayUnless excused uuid n script result := by
  obtain ⟨s, hu, hn, hplays⟩ := h
  exact ⟨s, hu, hn, hplays excused⟩

theorem AllPlay.allReturn (h : AllPlay uuid n script result) :
    AllReturn uuid n script result := by
  obtain ⟨s, rfl, rfl, hplays⟩ := h
  exact TssCli.allReturn hplays

/-- Their results may be mapped. -/
theorem AllPlay.map (h : AllPlay uuid n script result) (f : α → β) :
    AllPlay uuid n (fun i => f <$> script i) fun i => f (result i) := by
  obtain ⟨s, hu, hn, hplays⟩ := h
  refine ⟨s, hu, hn, fun excused i h₁ hi => ?_⟩
  dsimp only
  rw [map_eq_pure_bind]
  exact (hplays excused i h₁ hi).bind .pure

/-- None of them has panicked at the start. -/
theorem AllPlay.ne_fail (h : AllPlay uuid n script result) {i : Nat} (h₁ : 1 ≤ i) (hi : i ≤ n)
    (e : Panic) : script i ≠ .fail e := by
  obtain ⟨s, -, rfl, hplays⟩ := h
  intro hfail
  have htracks := (hplays (fun _ => False) i h₁ hi).tracks
  rw [hfail] at htracks
  cases htracks with
  | fail he => exact he

/-! ## Moves of the parties are steps of the world -/

/-- The clients stand where the parties of the net do. -/
structure Stands (w : World α) (uuid : String) (n : Nat) (client : Fin n → Nat)
    (net : Net (Fin n) Key String Panic α) : Prop where
  store : w.manager.db = net.store
  whole : w.manager.poisoned = false
  place : ∀ k, (w.process (client k)).place uuid n = some (k, net.scripts k)

/-- A request to set or to get an entry. -/
def ManagerRecord.IsMail (record : ManagerRecord) : Prop :=
  ∃ clock request, record.event = .request clock request ∧
    ((∃ entry, request = .set entry) ∨ ∃ key, request = .get key)

/-- The manager answers such a request of one of the clients. -/
def WorldEvent.Answers (client : Fin n → Nat) (e : WorldEvent) : Prop :=
  ∃ k record, e = .answered (client k) false record ∧ record.IsMail

variable {env : Env} {keygenJson : Codec PartySignup} {roomJson : Codec SigningRoom}
  {commands : Nat → Command α} {w w' : World α} {tr : List WorldEvent} {client : Fin n → Nat}
  {net net' : Net (Fin n) Key String Panic α} {k : Fin n}

/-- One of the parties goes on, and its client takes the answer. -/
theorem Stands.moved (h : Stands w uuid n client net) {request : ManagerRequest} {t : Client α}
    {db : Db} (hstore : (handle env keygenJson roomJson w.manager w.manager.clock request).1.db = db)
    (hwhole : (handle env keygenJson roomJson w.manager w.manager.clock request).1.poisoned = false)
    (hplace : ((w.process (client k)).receive (commands (client k)).body false
      (handle env keygenJson roomJson w.manager w.manager.clock request).2).place uuid n =
        some (k, t)) :
    Stands (w.answer env keygenJson roomJson commands (client k) false w.manager.clock request) uuid
      n client { store := db, scripts := Function.update net.scripts k t } where
  store := hstore
  whole := hwhole
  place j := by
    show ((Function.update w.process (client k) _) (client j)).place uuid n = _
    dsimp only
    by_cases hj : j = k
    · subst hj
      rw [Function.update_self, hplace, Function.update_self]
    · rw [Function.update_of_ne, h.place, Function.update_of_ne hj]
      intro he
      have := h.place j
      rw [he, h.place] at this
      exact hj (congrArg Prod.fst (Option.some.inj this)).symm

/-- A move of a party is a step of the world. -/
theorem Stands.step (h : Stands w uuid n client net) {e : NetEvent (Fin n) Key String Panic}
    (he : e.IsMove) (hs : NetStep net e net') :
    ∃ e' w', e'.Answers client ∧ WorldStep env keygenJson roomJson commands w e' w' ∧
      Stands w' uuid n client net' ∧
      ∀ i, (∀ k, i ≠ client k) → w'.process i = w.process i := by
  have others : ∀ {k request i}, (∀ k, i ≠ client k) → (w.answer env keygenJson roomJson commands
      (client k) false w.manager.clock request).process i = w.process i :=
    fun hi => Function.update_of_ne (hi _) _ _
  cases hs with
  | @posted k key text next hk =>
      obtain ⟨seat, total, hp, hseat⟩ := Process.place_eq_some.mp (h.place k)
      rw [hk] at hp
      refine ⟨_, _, ⟨k, _, rfl, _, _, rfl, Or.inl ⟨⟨key, text⟩, rfl⟩⟩,
        .answered false ?_ (Clock.ordered_steady UInt64.le_rfl), h.moved ?_ ?_ ?_, fun i => others⟩
      · rw [hp]
        rfl
      · rw [handle_set h.whole, ← h.store]
        rfl
      · rw [handle_set h.whole]
        exact h.whole
      · rw [handle_set h.whole, hp]
        exact Process.place_eq_some.mpr ⟨seat, total, rfl, hseat⟩
  | @got k key text next hk hstore =>
      obtain ⟨seat, total, hp, hseat⟩ := Process.place_eq_some.mp (h.place k)
      rw [hk] at hp
      rw [← h.store] at hstore
      have hget : get w.manager.db key = .ok ⟨key, text⟩ := by rw [get, hstore]
      refine ⟨_, _, ⟨k, _, rfl, _, _, rfl, Or.inr ⟨key, rfl⟩⟩,
        .answered false ?_ (Clock.ordered_steady UInt64.le_rfl), h.moved ?_ ?_ ?_, fun i => others⟩
      · rw [hp]
        rfl
      · rw [handle_get h.whole]
        exact h.store
      · rw [handle_get h.whole]
        exact h.whole
      · rw [handle_get h.whole, hget, hp]
        exact Process.place_eq_some.mpr ⟨seat, total, rfl, hseat⟩
  | gaveUp => exact he.elim
  | foreign => exact he.elim
  | expired => exact he.elim

/-- From `w` on, the manager has answered the clients alone. -/
structure GoesOn (env : Env) (keygenJson : Codec PartySignup) (roomJson : Codec SigningRoom)
    (commands : Nat → Command α) (client : Fin n → Nat) (w w' : World α)
    (more tr : List WorldEvent) : Prop where
  run : WorldRun env keygenJson roomJson commands w' (more ++ tr)
  answers : ∀ e ∈ more, e.Answers client
  seated : ∀ i seat total, (w.process i).Holds seat total → (w'.process i).Holds seat total
  others : ∀ i, (∀ k, i ≠ client k) → w'.process i = w.process i

/-- Moves of the parties are a run of the world. -/
theorem Stands.run (h : Stands w uuid n client net)
    (hrun : WorldRun env keygenJson roomJson commands w tr)
    {moves : List (NetEvent (Fin n) Key String Panic)} (hmoves : NetRun net net' moves)
    (hall : ∀ e ∈ moves, e.IsMove) :
    ∃ w' more, GoesOn env keygenJson roomJson commands client w w' more tr ∧
      Stands w' uuid n client net' := by
  refine Run.invariant_of (fun net' _ => ∃ w' more,
    GoesOn env keygenJson roomJson commands client w w' more tr ∧ Stands w' uuid n client net')
    NetEvent.IsMove ?_ ?_ hmoves hall
  · rintro net' rfl
    exact ⟨w, [], ⟨hrun, by simp, fun _ _ _ hi => hi, fun _ _ => rfl⟩, h⟩
  · rintro net₁ e net₂ moves - ⟨w₁, more, hon, h₁⟩ he hs
    obtain ⟨e', w₂, he', hstep, h₂, hothers⟩ := h₁.step he hs
    refine ⟨w₂, e' :: more, ⟨hon.run.snoc hstep, ?_, fun i seat total hi => ?_, fun i hi => ?_⟩, h₂⟩
    · exact List.forall_mem_cons.mpr ⟨he', hon.answers⟩
    · exact hstep.seated (hon.seated i seat total hi)
    · exact (hothers i hi).trans (hon.others i hi)

/-! ## To the end -/

/-- The events take the world on, from `w` to `w'`, and only the clients of the session move,
each of which ends with its result. -/
structure Completes (env : Env) (keygenJson : Codec PartySignup) (roomJson : Codec SigningRoom)
    (commands : Nat → Command α) (uuid : String) (result : Nat → α) (w w' : World α)
    (more tr : List WorldEvent) : Prop where
  run : WorldRun env keygenJson roomJson commands w' (more ++ tr)
  whole : w'.manager.poisoned = false
  answers : ∀ e ∈ more, ∃ i record seat total, e = .answered i false record ∧ record.IsMail ∧
    (w.process i).Holds seat total ∧ seat.uuid = uuid
  returned : ∀ i seat total, (w.process i).Holds seat total → seat.uuid = uuid →
    w'.process i = .session seat total (.ret (result seat.number.toNat))
  others : ∀ i, (∀ seat total, (w.process i).Holds seat total → seat.uuid ≠ uuid) →
    w'.process i = w.process i

section

variable {more : List WorldEvent}
  (h : Completes env keygenJson roomJson commands uuid result w w' more tr)

include h

/-- Other programs have done nothing since. -/
theorem Completes.other {record : ManagerRecord} (hr : .other record ∈ more ++ tr) :
    .other record ∈ tr := by
  refine (List.mem_append.mp hr).resolve_left fun hmore => ?_
  obtain ⟨i, record', seat, total, he, -⟩ := h.answers _ hmore
  cases he

/-- The same clients are in the session as before. -/
theorem Completes.holds {i : Nat} {seat : PartySignup} {total : UInt16} (hu : seat.uuid = uuid) :
    (w'.process i).Holds seat total ↔ (w.process i).Holds seat total := by
  refine ⟨fun hi => ?_, fun hi => ⟨_, h.returned i seat total hi hu⟩⟩
  by_cases hin : ∃ seat' total', (w.process i).Holds seat' total' ∧ seat'.uuid = uuid
  · obtain ⟨seat', total', hi', hu'⟩ := hin
    obtain ⟨s, hs⟩ := hi
    rw [h.returned i seat' total' hi' hu'] at hs
    cases hs
    exact hi'
  · rwa [h.others i fun seat' total' hi' hu' => hin ⟨seat', total', hi', hu'⟩] at hi

end

/-- While no letter of a full session has expired and none of its clients has panicked, it
can go on until all of them have returned. -/
theorem WorldRun.completes (hrun : WorldRun env keygenJson roomJson commands w tr)
    (hcommands : ∀ i, (commands i).PostsOwn)
    (hout : ∀ record, .other record ∈ tr → record.KeepsOut uuid)
    (hkept : ∀ e ∈ tr, e.Within (NoLetter uuid))
    (hwhole : w.manager.poisoned = false) (hin : InSession commands uuid n script w)
    (hfull : Full w uuid n)
    (hwell : ∀ i seat total e, w.process i = .session seat total (.fail e) → seat.uuid ≠ uuid)
    (hplay : AllPlay uuid n script result) :
    ∃ w' more, Completes env keygenJson roomJson commands uuid result w w' more tr := by
  obtain ⟨s, rfl, rfl, hplays⟩ := hplay
  have hsees : Sees s.uuid s.parties script ⟨NoLetter s.uuid, fun _ _ => True⟩ w.manager.db
      w.process := hrun.session hcommands hout hwhole hin hkept fun _ _ _ _ _ _ => trivial
  obtain ⟨ltr, ⟨net, hlink, harr⟩, hltr⟩ := hsees
  choose! holder seat total hholds hu hk using hfull
  have hplace : ∀ k : Fin s.parties,
      (w.process (holder (number k))).place s.uuid s.parties = some (k, net.scripts k) := by
    intro k
    obtain ⟨t, ht⟩ := hholds _ (one_le_number k) (number_le k)
    have hp := Process.place_eq_some.mpr
      ⟨_, _, ht, hu _ (one_le_number k) (number_le k), hk _ (one_le_number k) (number_le k)⟩
    rw [hp, harr.here _ k t hp]
  have hstands : Stands w s.uuid s.parties (fun k => holder (number k)) net :=
    ⟨harr.store.symm, hwhole, hplace⟩
  have hgoes : ∀ k e, net.scripts k ≠ .fail e := by
    intro k e hfail
    have hp := hplace k
    rw [hfail] at hp
    obtain ⟨seat, total, hp, hu, -⟩ := Process.place_eq_some.mp hp
    exact hwell _ seat total e hp hu
  have hharmless : ∀ l ∈ ltr, l.Harmless s.mail := by
    intro l hl
    have nomail : ∀ {key}, NoLetter s.uuid key → s.mail key = none := by
      intro key hkey
      cases hm : s.mail key with
      | none => rfl
      | some text =>
          obtain ⟨l, rfl, hlu, -⟩ := s.mail_some hm
          exact absurd rfl (hkey l hlu)
    have hsession := hltr l hl
    cases l with
    | unheard => trivial
    | broke k e =>
        obtain ⟨e, he⟩ := hlink.failed (Or.inl hl)
        exact hgoes k e he
    | step e =>
        cases e with
        | posted => trivial
        | got => trivial
        | gaveUp k e =>
            obtain ⟨e, he⟩ := hlink.failed (Or.inr hl)
            exact hgoes k e he
        | foreign key text => exact nomail hsession.1
        | expired key => exact nomail hsession.2.2
  have hempty : NetRun (sessionNet s.parties (fun _ => none) script) _ [] := .start rfl
  have hstart := session_onTrack (hplays fun _ => False) (fun _ _ => rfl) hempty (by simp) (by simp)
  obtain ⟨hon, hpending⟩ := pending_linkRun hstart hlink hharmless
  obtain ⟨net', moves, hmoves, hall, hret⟩ :=
    hpending.completes (session_fed (hplays fun _ => False)) hon
  obtain ⟨w', more, hon', hstands'⟩ := hstands.run hrun hmoves hall
  refine ⟨w', more, hon'.run, hstands'.whole, fun e he => ?_, fun i seat' total' hi hu' => ?_,
    fun i hi => hon'.others i ?_⟩
  · obtain ⟨k, record, rfl, hmail⟩ := hon'.answers e he
    exact ⟨_, record, _, _, rfl, hmail, hholds _ (one_le_number k) (number_le k),
      hu _ (one_le_number k) (number_le k)⟩
  · obtain ⟨h₁, hn⟩ := hin.range i seat' total' hi hu'
    obtain ⟨k, hnumber⟩ := exists_number h₁ hn
    obtain rfl := hin.apart _ i _ seat' _ total' (hholds _ h₁ hn) hi (hu _ h₁ hn) hu'
      (UInt16.toNat_inj.mp (hk _ h₁ hn))
    obtain ⟨t, ht⟩ := hon'.seated _ seat' total' hi
    have hp := hstands'.place k
    rw [hnumber, ht] at hp
    obtain ⟨_, _, he, -⟩ := Process.place_eq_some.mp hp
    cases he
    rw [ht, hret, hnumber]
  · rintro k rfl
    exact hi _ _ (hholds _ (one_le_number k) (number_le k)) (hu _ (one_le_number k) (number_le k))

/-! ## Panics -/

/-- A client of parties that play their parts panics only if something has stopped this very
client, it has run out of time or is excused, whatever it reads. -/
theorem WorldRun.panics {f : β → α} {script : Nat → Client β} {result : Nat → β} {excused : Panic → Prop}
    (hrun : WorldRun env keygenJson roomJson commands w tr)
    (hcommands : ∀ i, (commands i).PostsOwn)
    (hout : ∀ record, .other record ∈ tr → record.KeepsOut uuid)
    (hwhole : w.manager.poisoned = false)
    (hin : InSession commands uuid n (fun k => f <$> script k) w)
    (hscript : ∀ k, 1 ≤ k → k ≤ n → (f <$> script k).PostsOnly (OwnKey uuid k))
    (hplay : PlayUnless excused uuid n script result) (hpoll : excused .pollTimeout) {i : Nat}
    {seat : PartySignup} {total : UInt16} {e : Panic}
    (hi : w.process i = .session seat total (.fail e)) (hu : seat.uuid = uuid) :
    excused e ∨ Stopped i e tr := by
  obtain ⟨net, tr', hnet, htr', -, hfailed⟩ := hrun.mirrored hcommands hout hwhole hin hscript
  rcases hfailed i seat total e hi hu with hstop | ⟨k, -, hk⟩
  · exact Or.inr hstop
  · obtain ⟨s, rfl, rfl, hplays⟩ := hplay
    have hon := session_onTrack hplays (fun _ _ => rfl) hnet (fun e he => (htr' e he).1)
      fun e he => (htr' e he).2.mono fun _ he => he ▸ hpoll
    exact Or.inl (hon.failed hk)

end

end TssCli
