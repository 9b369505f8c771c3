import Mathlib.Data.List.FinRange
import TssCli.Common.Exchange

/-!
# The schedule of a session

A schedule lists the rounds of a session in order, with the text that every
party posts in each, or the text from every party to every other.  It is the
oracle that honest parties are compared with: `mail` says what is posted under
each key, and the rank of a key is the place of its round.
-/

namespace TssCli

open Mailbox Mailbox.Script

/-- The texts of one round. -/
inductive RoundTexts where
  | toAll (text : Nat → String)
  | toOne (text : Nat → Nat → String)

/-- The text of a letter among `n` parties. -/
def RoundTexts.text (n : Nat) : RoundTexts → Letter → Option String
  | toAll text, .toAll i _ _ => if 1 ≤ i ∧ i ≤ n then some (text i) else none
  | toOne text, .toOne i j _ _ =>
      if i ∈ others j n ∧ 1 ≤ j ∧ j ≤ n then some (text i j) else none
  | _, _ => none

structure Schedule where
  uuid : String
  parties : Nat
  rounds : List (Round × RoundTexts)
  /-- No name of a round is used twice. -/
  nodup : (rounds.map Prod.fst).Nodup

namespace Schedule

variable (s : Schedule)

/-- The texts of a round, if the schedule has it. -/
def texts (round : Round) : Option RoundTexts := (s.rounds.find? (·.1 = round)).map Prod.snd

/-- The text of a letter, if the schedule has it. -/
def content (l : Letter) : Option String :=
  if l.uuid = s.uuid then (s.texts l.round).bind fun e => e.text s.parties l else none

/-- The place of a letter's round, from `1`. -/
def place (l : Letter) : Nat := s.rounds.findIdx (·.1 = l.round) + 1

noncomputable def mail : Key → Option String := addressed Letter.key s.content

noncomputable def rank : Key → Nat := rankOf Letter.key s.place

variable {s} {k : Nat} {round : Round} {e : RoundTexts}

theorem ne_of_lt (h : s.rounds[k]? = some (round, e)) {j : Nat} (hj : j < k)
    {x : Round × RoundTexts} (hx : s.rounds[j]? = some x) : x.1 ≠ round := by
  intro hne
  have hj' : (s.rounds.map Prod.fst)[j]? = some round := by simp [hx, hne]
  have hk' : (s.rounds.map Prod.fst)[k]? = some round := by simp [h]
  have hlt := (List.getElem?_eq_some_iff.mp hj').1
  exact absurd ((List.getElem?_inj hlt s.nodup).mp (hj'.trans hk'.symm)) (Nat.ne_of_lt hj)

theorem texts_eq (h : s.rounds[k]? = some (round, e)) : s.texts round = some e := by
  obtain ⟨hk, hget⟩ := List.getElem?_eq_some_iff.mp h
  have : s.rounds.find? (·.1 = round) = some (round, e) := by
    rw [List.find?_eq_some_iff_getElem]
    refine ⟨by simp, k, hk, hget, fun j hj => ?_⟩
    simpa using ne_of_lt h hj (List.getElem?_eq_getElem (hj.trans hk))
  rw [texts, this]
  rfl

theorem place_eq (h : s.rounds[k]? = some (round, e)) {l : Letter} (hl : l.round = round) :
    s.place l = k + 1 := by
  obtain ⟨hk, hget⟩ := List.getElem?_eq_some_iff.mp h
  have : s.rounds.findIdx (·.1 = round) = k := by
    rw [List.findIdx_eq hk]
    refine ⟨by simp [hget], fun j hj => ?_⟩
    simpa using ne_of_lt h hj (List.getElem?_eq_getElem (hj.trans hk))
  rw [place, hl, this]

/-- What has mail is a letter of the session. -/
theorem mail_some {key : Key} {text : String} (h : s.mail key = some text) :
    ∃ l, key = l.key ∧ l.uuid = s.uuid ∧ s.content l = some text := by
  obtain ⟨l, rfl, hl⟩ := addressed_some Letter.key_injective h
  refine ⟨l, rfl, ?_, hl⟩
  unfold content at hl
  split at hl
  next hu => exact hu
  next => cases hl

theorem rank_key (s : Schedule) (l : Letter) : s.rank l.key = s.place l :=
  rankOf_apply Letter.key_injective _ l

theorem mail_key (s : Schedule) (l : Letter) : s.mail l.key = s.content l :=
  addressed_apply Letter.key_injective l

/-- What is at the place of a round is of that round. -/
theorem round_of_place (h : s.rounds[k]? = some (round, e)) {l : Letter}
    (hplace : s.place l = k + 1) : l.round = round := by
  obtain ⟨hk, hget⟩ := List.getElem?_eq_some_iff.mp h
  have hidx : s.rounds.findIdx (·.1 = l.round) = k := Nat.succ.inj hplace
  have := @List.findIdx_getElem _ (fun x => decide (x.1 = l.round)) s.rounds (hidx ▸ hk)
  simp only [hidx, hget, decide_eq_true_eq] at this
  exact this.symm

/-- What is owed at the place of a round is a text of that round. -/
theorem owes_at (h : s.rounds[k]? = some (round, e)) {i : Nat} {key : Key}
    (howes : Owes s.mail i key) (hrank : s.rank key = k + 1) :
    ∃ l : Letter, key = l.key ∧ l.sender = i ∧ l.uuid = s.uuid ∧ l.round = round ∧
      (e.text s.parties l).isSome = true := by
  obtain ⟨hmail, l, rfl, hl⟩ := howes
  rw [s.rank_key] at hrank
  obtain rfl := round_of_place h hrank
  rw [s.mail_key] at hmail
  unfold content at hmail
  split at hmail
  next hu =>
    rw [texts_eq h] at hmail
    exact ⟨l, rfl, hl, hu, rfl, hmail⟩
  next => cases hmail

/-- A round to all, at its place. -/
theorem toAll {text : Nat → String} (h : s.rounds[k]? = some (round, .toAll text)) :
    RoundMail s.mail s.rank s.parties s.uuid round (k + 1) text where
  mail_eq i h₁ hn := by
    refine (s.mail_key (.toAll i round s.uuid)).trans ?_
    simp [content, Letter.uuid, Letter.round, texts_eq h, RoundTexts.text, h₁, hn]
  rank_eq i _ _ := (s.rank_key (.toAll i round s.uuid)).trans (place_eq h rfl)
  owed i key howes hrank := by
    obtain ⟨l, rfl, rfl, hu, rfl, htext⟩ := owes_at h howes hrank
    cases l with
    | toAll i round uuid =>
        obtain rfl : uuid = s.uuid := hu
        rfl
    | toOne i j round uuid => cases htext

/-- A round of messages to one party, at its place. -/
theorem toOne {text : Nat → Nat → String} (h : s.rounds[k]? = some (round, .toOne text)) :
    P2pMail s.mail s.rank s.parties s.uuid round (k + 1) text where
  mail_eq i j hi h₁ hn := by
    refine (s.mail_key (.toOne i j round s.uuid)).trans ?_
    simp [content, Letter.uuid, Letter.round, texts_eq h, RoundTexts.text, hi, h₁, hn]
  rank_eq i j _ _ _ := (s.rank_key (.toOne i j round s.uuid)).trans (place_eq h rfl)
  owed i key howes hrank := by
    obtain ⟨l, rfl, rfl, hu, rfl, htext⟩ := owes_at h howes hrank
    cases l with
    | toAll i round uuid => cases htext
    | toOne i j round uuid =>
        obtain rfl : uuid = s.uuid := hu
        simp only [RoundTexts.text, Option.isSome_ite] at htext
        obtain ⟨⟨hi, hin⟩, hne⟩ := mem_others.mp htext.1
        exact ⟨j, mem_others.mpr ⟨htext.2, Ne.symm hne⟩, rfl⟩

/-- A letter with a text is of a round of the schedule, from one of its parties. -/
theorem of_content {l : Letter} {text : String} (h : s.content l = some text) :
    s.place l ≤ s.rounds.length ∧ 1 ≤ l.sender ∧ l.sender ≤ s.parties := by
  unfold content at h
  split at h
  next =>
    obtain ⟨e, he, htext⟩ := Option.bind_eq_some_iff.mp h
    obtain ⟨x, hx, rfl⟩ := Option.map_eq_some_iff.mp he
    refine ⟨?_, ?_⟩
    · have hround := List.find?_some (p := fun x : Round × RoundTexts => decide (x.1 = l.round)) hx
      exact List.findIdx_lt_length_of_exists ⟨x, List.mem_of_find?_eq_some hx, hround⟩
    · unfold RoundTexts.text at htext
      split at htext
      next =>
        split at htext
        next hi => exact hi
        next => cases htext
      next =>
        split at htext
        next hi => exact (mem_others.mp hi.1).1
        next => cases htext
      next => cases htext
  next => cases h

end Schedule

end TssCli
