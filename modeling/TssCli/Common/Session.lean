import Mathlib.Algebra.BigOperators.Fin
import TssCli.Common.Schedule
import TssCli.Lib.Net

/-!
# A session of `n` parties

The parties of a session run their scripts at one manager, under one UUID that
nobody else uses.  A party is given by its index, and its number is one more.

If every script tracks the schedule of the session, then in every run a party
that returns has returned what it returns on its track, and one that fails has
an excuse (`session_onTrack`).
-/

namespace TssCli

open Mailbox Mailbox.Script

section

variable {n : Nat} {α : Type}

/-- The number of a party. -/
def number (i : Fin n) : Nat := i + 1

theorem one_le_number (i : Fin n) : 1 ≤ number i := Nat.le_add_left 1 i

theorem number_le (i : Fin n) : number i ≤ n := i.isLt

theorem number_injective : Function.Injective (number : Fin n → Nat) :=
  fun _ _ h => Fin.ext (Nat.succ.inj h)

/-- A party with a number of the session. -/
theorem exists_number {k : Nat} (h₁ : 1 ≤ k) (hk : k ≤ n) : ∃ i : Fin n, number i = k :=
  ⟨⟨k - 1, by omega⟩, Nat.sub_add_cancel h₁⟩

/-- A sum over the numbers is one over the parties. -/
theorem sum_range'_number {M : Type} [AddCommMonoid M] (f : Nat → M) :
    ((List.range' 1 n).map f).sum = ∑ i : Fin n, f (number i) := by
  rw [range'_one_eq_map, List.map_map, Fin.sum_univ_def, ← List.map_coe_finRange_eq_range,
    List.map_map]
  rfl

/-- The parties at the start. -/
def sessionNet (n : Nat) (store : Key → Option String) (script : Nat → Client α) :
    Net (Fin n) Key String Panic α where
  store := store
  scripts i := script (number i)

/-- Nothing is posted in the session yet. -/
def Unused (uuid : String) (store : Key → Option String) : Prop :=
  ∀ l : Letter, l.uuid = uuid → store l.key = none

/-- Nobody else posts in the session. -/
def KeepsOut (uuid : String) : NetEvent (Fin n) Key String Panic → Prop
  | .foreign key _ => ∀ l : Letter, l.uuid = uuid → key ≠ l.key
  | _ => True

/-- A party waits until the text is there, or stops as it is allowed to. -/
def GivesUp (excused : Panic → Prop) : NetEvent (Fin n) Key String Panic → Prop
  | .gaveUp _ e => excused e
  | _ => True

theorem givesUp_any (e : NetEvent (Fin n) Key String Panic) : GivesUp (fun _ => True) e := by
  cases e <;> trivial

/-- More may be given up for. -/
theorem GivesUp.mono {excused excused' : Panic → Prop} {e : NetEvent (Fin n) Key String Panic}
    (h : GivesUp excused e) (he : ∀ p, excused p → excused' p) : GivesUp excused' e := by
  cases e with
  | gaveUp i p => exact he p h
  | _ => trivial

variable {s : Schedule} {excused : Panic → Prop} {store : Key → Option String}
  {script : Nat → Client α} {result : Nat → α} {net : Net (Fin n) Key String Panic α}
  {tr : List (NetEvent (Fin n) Key String Panic)}

theorem KeepsOut.allowed {e : NetEvent (Fin n) Key String Panic} (h : KeepsOut s.uuid e)
    (hexcused : GivesUp excused e) : e.Allowed s.mail excused := by
  cases e with
  | foreign key text =>
      show s.mail key = none
      cases hm : s.mail key with
      | none => rfl
      | some t =>
          obtain ⟨l, hl, hu, _⟩ := s.mail_some hm
          exact absurd hl (h l hu)
  | gaveUp i e => exact hexcused
  | _ => trivial

/-- In every run the parties stay on their tracks. -/
theorem session_onTrack {r : Nat}
    (hplays : ∀ i, 1 ≤ i → i ≤ n →
      Plays s.mail s.rank excused (Owes s.mail i) 0 (script i) r (result i))
    (hstore : Unused s.uuid store) (hrun : NetRun (sessionNet n store script) net tr)
    (hout : ∀ e ∈ tr, KeepsOut s.uuid e) (hexcused : ∀ e ∈ tr, GivesUp excused e) :
    OnTrack s.mail s.rank excused (fun i => result (number i)) net := by
  refine onTrack_run ⟨fun i => ?_, fun key v w hv hw => ?_⟩ hrun
    fun e he => (hout e he).allowed (hexcused e he)
  · exact ⟨0, r, (hplays (number i) (one_le_number i) (number_le i)).tracks⟩
  · obtain ⟨l, rfl, hu, _⟩ := s.mail_some hw
    cases (hstore l hu).symm.trans hv

/-- Whatever a party awaits is owed by some party, and posted. -/
theorem session_fed {s : Schedule}
    (hplays : ∀ i, 1 ≤ i → i ≤ s.parties →
      Plays s.mail s.rank (fun _ => False) (Owes s.mail i) 0 (script i) s.rounds.length (result i)) :
    Fed s.mail (sessionNet s.parties store script) := by
  intro i k hk
  have hsome := (hplays _ (one_le_number i) (number_le i)).tracks.awaits hk
  obtain ⟨text, htext⟩ := Option.isSome_iff_exists.mp hsome
  obtain ⟨l, rfl, _, hl⟩ := s.mail_some htext
  obtain ⟨hplace, h₁, hn⟩ := Schedule.of_content hl
  obtain ⟨j, hnumber⟩ := exists_number h₁ hn
  refine ⟨j, ?_⟩
  show Posts s.mail (script (number _)) l.key
  rw [hnumber]
  refine (hplays _ h₁ hn).posts (fun _ h => h) _ ⟨hsome, l, rfl, rfl⟩ ?_ ?_
  · rw [s.rank_key]
    exact Nat.succ_pos _
  · rwa [s.rank_key]

/-- While nothing expires and nobody gives up, every run goes on until all parties
have returned. -/
theorem session_completes {s : Schedule} {net : Net (Fin s.parties) Key String Panic α}
    {tr : List (NetEvent (Fin s.parties) Key String Panic)}
    (hplays : ∀ i, 1 ≤ i → i ≤ s.parties →
      Plays s.mail s.rank (fun _ => False) (Owes s.mail i) 0 (script i) s.rounds.length (result i))
    (hstore : Unused s.uuid store) (hrun : NetRun (sessionNet s.parties store script) net tr)
    (hmove : ∀ e ∈ tr, e.IsMove) :
    ∃ net' more, NetRun (sessionNet s.parties store script) net' (more ++ tr) ∧
      (∀ e ∈ more, e.IsMove) ∧ ∀ i, net'.scripts i = .ret (result (number i)) :=
  completes (session_onTrack hplays hstore (.start rfl) (by simp) (by simp)) (session_fed hplays)
    hrun hmove

/-- Whatever else happens, a party that returns returns its result, and one that
fails has run out of time in a poll.  While nothing expires and nobody gives up,
every run goes on until all have returned. -/
def AllReturn (uuid : String) (n : Nat) (script : Nat → Client α) (result : Nat → α) : Prop :=
  ∀ (store : Key → Option String) (net : Net (Fin n) Key String Panic α)
    (tr : List (NetEvent (Fin n) Key String Panic)),
    Unused uuid store → NetRun (sessionNet n store script) net tr →
    ((∀ e ∈ tr, KeepsOut uuid e) → (∀ e ∈ tr, GivesUp (· = .pollTimeout) e) →
      ∀ i, (∀ a, net.scripts i = .ret a → a = result (number i)) ∧
        ∀ e, net.scripts i = .fail e → e = .pollTimeout) ∧
    ((∀ e ∈ tr, e.IsMove) → ∃ net' more, NetRun (sessionNet n store script) net' (more ++ tr) ∧
      (∀ e ∈ more, e.IsMove) ∧ ∀ i, net'.scripts i = .ret (result (number i)))

/-- Parties that play their part all return. -/
theorem allReturn {s : Schedule} {script : Nat → Client α} {result : Nat → α}
    (hplays : ∀ (excused : Panic → Prop) (i : Nat), 1 ≤ i → i ≤ s.parties →
      Plays s.mail s.rank excused (Owes s.mail i) 0 (script i) s.rounds.length (result i)) :
    AllReturn s.uuid s.parties script result := by
  intro store net tr hstore hrun
  refine ⟨fun hout hexcused i => ?_, session_completes (hplays _) hstore hrun⟩
  have hon := session_onTrack (hplays _) hstore hrun hout hexcused
  exact ⟨fun a ha => hon.returned ha, fun e he => hon.failed he⟩

/-- Parties that all return do so in some run, to which nobody else posts, and any of
them have their results. -/
theorem AllReturn.exists_run {uuid : String} (h : AllReturn uuid n script result) {m : Nat}
    {id : Nat → Nat} (hid : ∀ k, 1 ≤ k → k ≤ m → 1 ≤ id k ∧ id k ≤ n) :
    ∃ net tr, NetRun (sessionNet n (fun _ => none) script) net tr ∧ (∀ e ∈ tr, KeepsOut uuid e) ∧
      ∀ k, 1 ≤ k → k ≤ m → ∃ i, number i = id k ∧ net.scripts i = .ret (result (id k)) := by
  obtain ⟨net, tr, hrun, hmove, hall⟩ :=
    (h (fun _ => none) _ [] (fun _ _ => rfl) (.start rfl)).2 (by simp)
  rw [List.append_nil] at hrun
  refine ⟨net, tr, hrun, fun e he => ?_, fun k h₁ hk => ?_⟩
  · cases e with
    | foreign => exact (hmove _ he).elim
    | _ => trivial
  · obtain ⟨i, hi⟩ := exists_number (hid k h₁ hk).1 (hid k h₁ hk).2
    exact ⟨i, hi, by rw [hall i, hi]⟩

end

end TssCli
