import TssCli.Common.Manager
import TssCli.Lib.Script

/-!
# The client's messages

In a protocol session the parties are numbered from `1`, and a message goes into
the manager's map under a key made of the sender's number, the receiver's number
if it is for one party only, the name of the round, and the UUID of the session,
joined by hyphens.  A UUID holds hyphens itself.  The keys are still unambiguous
(`Letter.key_injective`): the numbers are decimal, and the name of a round holds
no hyphen and does not start with a digit.  A `Round` carries this as a field.

A client is a script over the map.  `broadcast` and `sendP2p` post, and the two
polls await.
-/

namespace TssCli

open Mailbox

/-! ## Keys -/

/-- The name of a round. -/
@[ext]
structure Round where
  name : String
  noHyphen : '-' ∉ name.toList
  noDigit : ∀ c ∈ name.toList.head?, c.isDigit = false
deriving DecidableEq

/-- Is this the name of a round? -/
def isRoundName (name : String) : Bool :=
  name.toList.all (· ≠ '-') && name.toList.head?.all fun c => !c.isDigit

/-- The round of a name. -/
def Round.ofName (name : String) (h : isRoundName name = true) : Round where
  name := name
  noHyphen := by
    simp only [isRoundName, Bool.and_eq_true, List.all_eq_true, decide_eq_true_eq] at h
    exact fun hmem => h.1 _ hmem rfl
  noDigit c hc := by
    simp only [isRoundName, Bool.and_eq_true, Option.all_eq_true, Bool.not_eq_true'] at h
    exact h.2 c hc

@[simp] theorem Round.ofName_name {name : String} (h : isRoundName name = true) :
    (Round.ofName name h).name = name := rfl

/-! Rounds of more than one protocol. -/

def round0 : Round := .ofName "round0" (by decide)

def round1 : Round := .ofName "round1" (by decide)

def round2 : Round := .ofName "round2" (by decide)

def round3 : Round := .ofName "round3" (by decide)

def round4 : Round := .ofName "round4" (by decide)

def round5 : Round := .ofName "round5" (by decide)

def round6 : Round := .ofName "round6" (by decide)

def round7 : Round := .ofName "round7" (by decide)

def round8 : Round := .ofName "round8" (by decide)

def round9 : Round := .ofName "round9" (by decide)

/-- The key of a message to all. -/
def broadcastKey (partyNum : Nat) (round : Round) (senderUuid : String) : Key :=
  toString partyNum ++ "-" ++ round.name ++ "-" ++ senderUuid

/-- The key of a message to one party. -/
def p2pKey (partyFrom partyTo : Nat) (round : Round) (senderUuid : String) : Key :=
  toString partyFrom ++ "-" ++ toString partyTo ++ "-" ++ round.name ++ "-" ++ senderUuid

/-- A message of a session, apart from its text. -/
inductive Letter where
  | toAll (sender : Nat) (round : Round) (uuid : String)
  | toOne (sender receiver : Nat) (round : Round) (uuid : String)
deriving DecidableEq

namespace Letter

def key : Letter → Key
  | toAll sender round uuid => broadcastKey sender round uuid
  | toOne sender receiver round uuid => p2pKey sender receiver round uuid

def sender : Letter → Nat
  | toAll sender _ _ => sender
  | toOne sender _ _ _ => sender

def round : Letter → Round
  | toAll _ round _ => round
  | toOne _ _ round _ => round

def uuid : Letter → String
  | toAll _ _ uuid => uuid
  | toOne _ _ _ uuid => uuid

end Letter

/-- What stands before the first hyphen is determined. -/
theorem segment_inj : ∀ {a b x y : List Char}, '-' ∉ a → '-' ∉ b →
    a ++ '-' :: x = b ++ '-' :: y → a = b ∧ x = y
  | [], [], _, _, _, _, h => ⟨rfl, (List.cons.inj h).2⟩
  | [], c :: b, _, _, _, hb, h => by simp_all
  | c :: a, [], _, _, ha, _, h => by simp_all
  | c :: a, d :: b, _, _, ha, hb, h => by
      simp only [List.cons_append, List.cons.injEq] at h
      obtain ⟨rfl, rfl⟩ := segment_inj (List.not_mem_of_not_mem_cons ha)
        (List.not_mem_of_not_mem_cons hb) h.2
      exact ⟨by rw [h.1], rfl⟩

theorem toString_toList (n : Nat) : (toString n).toList = Nat.toDigits 10 n := Nat.toList_repr

theorem isDigit_of_mem_toString {n : Nat} {c : Char} (h : c ∈ (toString n).toList) :
    c.isDigit = true := by
  rw [toString_toList] at h
  exact Nat.isDigit_of_mem_toDigits (by decide) (by decide) h

theorem hyphen_notMem_toString (n : Nat) : '-' ∉ (toString n).toList :=
  fun h => absurd (isDigit_of_mem_toString h) (by decide)

theorem toString_inj {n m : Nat} (h : (toString n).toList = (toString m).toList) : n = m := by
  rw [toString_toList, toString_toList] at h
  rw [← Nat.ofDigitChars_ten_toDigits (n := n), h, Nat.ofDigitChars_ten_toDigits]

theorem toString_head (n : Nat) : ∃ c l, (toString n).toList = c :: l ∧ c.isDigit = true := by
  cases hl : (toString n).toList with
  | nil =>
      rw [toString_toList] at hl
      exact absurd hl Nat.toDigits_ne_nil
  | cons c l => exact ⟨c, l, rfl, isDigit_of_mem_toString (hl ▸ List.mem_cons_self ..)⟩

/-- A number is no name of a round. -/
theorem toString_ne_round (n : Nat) (round : Round) :
    (toString n).toList ≠ round.name.toList := by
  intro h
  obtain ⟨c, l, hl, hc⟩ := toString_head n
  have := round.noDigit c (by rw [← h, hl]; rfl)
  simp_all

theorem broadcastKey_toList (partyNum : Nat) (round : Round) (uuid : String) :
    (broadcastKey partyNum round uuid).toList =
      (toString partyNum).toList ++ '-' :: (round.name.toList ++ '-' :: uuid.toList) := by
  simp [broadcastKey, String.toList_append]

theorem p2pKey_toList (partyFrom partyTo : Nat) (round : Round) (uuid : String) :
    (p2pKey partyFrom partyTo round uuid).toList =
      (toString partyFrom).toList ++ '-' ::
        ((toString partyTo).toList ++ '-' :: (round.name.toList ++ '-' :: uuid.toList)) := by
  simp [p2pKey, String.toList_append]

/-- Different messages go under different keys. -/
theorem Letter.key_injective : Function.Injective Letter.key := by
  intro l l' h
  have h := congrArg String.toList h
  cases l with
  | toAll i round uuid =>
      cases l' with
      | toAll i' round' uuid' =>
          simp only [key, broadcastKey_toList] at h
          obtain ⟨hi, h⟩ := segment_inj (hyphen_notMem_toString i) (hyphen_notMem_toString i') h
          obtain ⟨hr, hu⟩ := segment_inj round.noHyphen round'.noHyphen h
          cases round
          cases round'
          simp_all [toString_inj hi, String.toList_inj]
      | toOne i' j' round' uuid' =>
          simp only [key, broadcastKey_toList, p2pKey_toList] at h
          obtain ⟨_, h⟩ := segment_inj (hyphen_notMem_toString i) (hyphen_notMem_toString i') h
          obtain ⟨hr, _⟩ := segment_inj round.noHyphen (hyphen_notMem_toString j') h
          exact absurd hr.symm (toString_ne_round j' round)
  | toOne i j round uuid =>
      cases l' with
      | toAll i' round' uuid' =>
          simp only [key, broadcastKey_toList, p2pKey_toList] at h
          obtain ⟨_, h⟩ := segment_inj (hyphen_notMem_toString i) (hyphen_notMem_toString i') h
          obtain ⟨hr, _⟩ := segment_inj (hyphen_notMem_toString j) round'.noHyphen h
          exact absurd hr (toString_ne_round j round')
      | toOne i' j' round' uuid' =>
          simp only [key, p2pKey_toList] at h
          obtain ⟨hi, h⟩ := segment_inj (hyphen_notMem_toString i) (hyphen_notMem_toString i') h
          obtain ⟨hj, h⟩ := segment_inj (hyphen_notMem_toString j) (hyphen_notMem_toString j') h
          obtain ⟨hr, hu⟩ := segment_inj round.noHyphen round'.noHyphen h
          cases round
          cases round'
          simp_all [toString_inj hi, toString_inj hj, String.toList_inj]

/-- A key starts with the sender's number. -/
theorem Letter.key_toList (l : Letter) :
    ∃ rest, l.key.toList = (toString l.sender).toList ++ '-' :: rest := by
  cases l with
  | toAll i round uuid => exact ⟨_, broadcastKey_toList i round uuid⟩
  | toOne i j round uuid => exact ⟨_, p2pKey_toList i j round uuid⟩

theorem Letter.key_ne_signup (l : Letter) (s : String) : l.key ≠ "signup-" ++ s := by
  intro h
  obtain ⟨rest, hl⟩ := l.key_toList
  obtain ⟨c, d, hd, hc⟩ := toString_head l.sender
  rw [h, String.toList_append, hd] at hl
  obtain rfl : 's' = c := (List.cons.inj hl).1
  exact absurd hc (by decide)

/-- No message goes under the key of a sign-up for a key generation. -/
theorem Letter.key_ne_keygenKey (l : Letter) (curve : String) : l.key ≠ keygenKey curve := by
  have := l.key_ne_signup ("keygen-" ++ curve)
  rwa [← String.append_assoc] at this

/-- No message goes under the key of a signing room. -/
theorem Letter.key_ne_signKey (l : Letter) (request : PartySignupRequestBody) :
    l.key ≠ signKey request := by
  have := l.key_ne_signup ("sign-" ++ request.curveName ++ request.roomId)
  rwa [← String.append_assoc, ← String.append_assoc] at this

/-! ## Posting and polling -/

/-- The program of one party: it posts and awaits texts at the manager. -/
abbrev Client (α : Type) : Type := Script Key String Panic α

/-- `assert!(broadcast(..).is_ok())`.  The manager's `set` answers `Ok(())`. -/
def broadcast (partyNum : Nat) (round : Round) (data : String) (senderUuid : String) :
    Client Unit :=
  .post (broadcastKey partyNum round senderUuid) data (.ret ())

/-- `assert!(sendp2p(..).is_ok())`. -/
def sendP2p (partyFrom partyTo : Nat) (round : Round) (data : String) (senderUuid : String) :
    Client Unit :=
  .post (p2pKey partyFrom partyTo round senderUuid) data (.ret ())

/-- One round of a poll: the own number is skipped, and `get` is repeated until
the entry is there. -/
def poll (partyNum : Nat) (key : Nat → Key) (ansVec : List String) (i : Nat) :
    Client (List String) :=
  if i ≠ partyNum then .await (key i) fun value => pure (ansVec ++ [value]) else pure ansVec

/-- `poll_for_broadcasts`. -/
def pollForBroadcasts (partyNum n : Nat) (round : Round) (senderUuid : String) :
    Client (List String) :=
  (List.range' 1 n).foldlM (poll partyNum fun i => broadcastKey i round senderUuid) []

/-- `poll_for_p2p`. -/
def pollForP2p (partyNum n : Nat) (round : Round) (senderUuid : String) :
    Client (List String) :=
  (List.range' 1 n).foldlM (poll partyNum fun i => p2pKey i partyNum round senderUuid) []

end TssCli
