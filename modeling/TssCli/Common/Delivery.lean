import TssCli.Common.Exchange
import TssCli.Lib.Transition

/-!
# The mailbox delivers the right messages

Any number of sessions run at one manager.  The parties of a session post their
letters and get texts by key, in any order and interleaved with sign-ups of both
kinds, and entries expire.  What the parties run is left open, but for the
conditions of a session: each posts letters of its own under the UUID of the
session, and each letter once.

`MailInv` says that a text under the key of a letter is one posted for that
letter.  So whatever part of a party's operations completes a round has read
what the others posted in it (`mailbox_delivers`).
-/

namespace TssCli

open Mailbox Mailbox.Script Transition

instance : Countable PartySignup :=
  Function.Injective.countable (f := fun p => (p.number, p.uuid)) fun x y h => by
    cases x; cases y; simp_all

/-! ## The system -/

/-- The manager's map, and the number of UUIDs drawn. -/
structure MailState where
  db : Db
  issued : Nat

/-- What happens at the manager.  A `get` that finds nothing is repeated, and
left out. -/
inductive MailEvent (S : Type) where
  | posted (session : S) (letter : Letter) (text : String)
  | got (session : S) (number : Nat) (key : Key) (text : String)
  | keygenSignup (params : Params) (curve : String)
  | signSignup (now : UInt64) (request : PartySignupRequestBody)
  | expired (key : Key)

section

variable (env : Env) (keygenJson : Codec PartySignup) (roomJson : Codec SigningRoom) {S : Type}
  (uuid : S → String) (parties : S → Nat)

/-- One request, or the end of an entry's time. -/
inductive MailStep : MailState → MailEvent S → MailState → Prop where
  | posted {st : MailState} {s : S} {l : Letter} {text : String} :
      l.uuid = uuid s → 1 ≤ l.sender → l.sender ≤ parties s →
      MailStep st (.posted s l text) { st with db := set st.db { key := l.key, value := text } }
  | got {st : MailState} {s : S} {number : Nat} {key : Key} {text : String} :
      get st.db key = .ok { key, value := text } → MailStep st (.got s number key text) st
  | keygenSignup {st : MailState} {params : Params} {curve : String} {p : PartySignup} {db : Db}
      {issued : Nat} :
      (signupKeygen env keygenJson params curve st.db).run st.issued = .ok ((p, db), issued) →
      MailStep st (.keygenSignup params curve) { db, issued }
  | signSignup {st : MailState} {now : UInt64} {request : PartySignupRequestBody}
      {answer : SignupAnswer} {db : Db} {issued : Nat} :
      (signupSign env now request roomJson st.db).run st.issued = .ok ((answer, db), issued) →
      MailStep st (.signSignup now request) { db, issued }
  | expired {st : MailState} {key : Key} :
      MailStep st (.expired key) { st with db := Function.update st.db key none }

/-- A run from the empty map. -/
abbrev MailRun : MailState → List (MailEvent S) → Prop :=
  Run (fun st => st.db = fun _ => none) (MailStep env keygenJson roomJson uuid parties)

end

/-- The letter of a post. -/
def MailEvent.letter {S : Type} : MailEvent S → Option Letter
  | .posted _ letter _ => some letter
  | _ => none

/-- Every letter is posted once. -/
def PostedOnce {S : Type} (tr : List (MailEvent S)) : Prop := (tr.filterMap MailEvent.letter).Nodup

/-- The operation of one party. -/
def MailEvent.opOf {S : Type} [DecidableEq S] (s : S) (number : Nat) :
    MailEvent S → Option (Op Key String)
  | .posted s' letter text =>
      if s' = s ∧ letter.sender = number then some (.posted letter.key text) else none
  | .got s' number' key text => if s' = s ∧ number' = number then some (.got key text) else none
  | _ => none

/-- What one party did, in order. -/
def history {S : Type} [DecidableEq S] (tr : List (MailEvent S)) (s : S) (number : Nat) :
    List (Op Key String) :=
  tr.reverse.filterMap (MailEvent.opOf s number)

/-- The ways in which the protocols build the vector of a round. -/
inductive Idiom where
  | exchangeData
  | formatVecFromReads
  | inlineLoop
  | insertOwn

def Idiom.build {α : Type} (idiom : Idiom) (json : Codec α) (partyNum n : Nat) (data : α)
    (answers : List String) : Except Panic (List α) :=
  match idiom with
  | exchangeData => rebuild json partyNum n data answers
  | formatVecFromReads => TssCli.formatVecFromReads json answers partyNum data
  | inlineLoop => rebuild json partyNum n data answers
  | insertOwn => TssCli.insertOwn json answers partyNum data

/-- A round: post, poll and build. -/
def Idiom.round {α : Type} (idiom : Idiom) (json : Codec α) (partyNum n : Nat) (uuid : String)
    (round : Round) (data : α) : Client (List α) := do
  let answers ← readRound partyNum n uuid round (json.encode data)
  idiom.build json partyNum n data answers

theorem Idiom.round_exchangeData {α : Type} (json : Codec α) (partyNum n : Nat) (uuid : String)
    (round : Round) (data : α) :
    Idiom.round .exchangeData json partyNum n uuid round data =
      TssCli.exchangeData json partyNum n uuid round data := rfl

theorem Idiom.build_eq {α : Type} (idiom : Idiom) (json : Codec α) {partyNum n : Nat} (d : Nat → α)
    (h₁ : 1 ≤ partyNum) (hn : partyNum ≤ n) :
    idiom.build json partyNum n (d partyNum)
      ((others partyNum n).map fun i => json.encode (d i)) = .ok ((List.range' 1 n).map d) := by
  cases idiom with
  | exchangeData => exact rebuild_eq d
  | formatVecFromReads => exact formatVecFromReads_eq d h₁ hn
  | inlineLoop => exact rebuild_eq d
  | insertOwn => exact insertOwn_eq d h₁ hn

/-! ## What the map holds -/

section

variable {env : Env} {keygenJson : Codec PartySignup} {roomJson : Codec SigningRoom} {S : Type}
  {uuid : S → String} {parties : S → Nat} {st : MailState} {tr : List (MailEvent S)}

/-- Texts under the keys of letters are posted, texts read are posted, and
letters go under the UUID of their session. -/
structure MailInv (uuid : S → String) (parties : S → Nat) (st : MailState)
    (tr : List (MailEvent S)) : Prop where
  stored : ∀ l text, st.db l.key = some text → ∃ s, .posted s l text ∈ tr
  read : ∀ s number (l : Letter) text, .got s number l.key text ∈ tr → ∃ s', .posted s' l text ∈ tr
  owned : ∀ s l text, .posted s l text ∈ tr → l.uuid = uuid s

theorem signupKeygen_other {params : Params} {curve : String} {db db' : Db} {p : PartySignup}
    {k k' : Nat} {key : Key}
    (h : (signupKeygen env keygenJson params curve db).run k = .ok ((p, db'), k'))
    (hkey : key ≠ keygenKey curve) : db' key = db key := by
  obtain ⟨_, _, _, h⟩ := Rust.bind_ok h
  obtain ⟨_, _, _, h⟩ := Rust.bind_ok h
  obtain ⟨p', _, _, h⟩ := Rust.bind_ok h
  obtain ⟨hp, _⟩ := Rust.pure_ok h
  obtain ⟨rfl, rfl⟩ := Prod.mk.inj hp
  exact Function.update_of_ne hkey _ _

theorem signupSign_other {now : UInt64} {request : PartySignupRequestBody} {db db' : Db}
    {answer : SignupAnswer} {k k' : Nat} {key : Key}
    (h : (signupSign env now request roomJson db).run k = .ok ((answer, db'), k'))
    (hkey : key ≠ signKey request) : db' key = db key := by
  obtain ⟨stored, _, rfl⟩ := signupSign_ok h
  exact storeRoom_other roomJson db stored hkey

theorem MailInv.weaken {st' : MailState} {e : MailEvent S} (h : MailInv uuid parties st tr)
    (hdb : ∀ (l : Letter) text, st'.db l.key = some text →
      st.db l.key = some text ∨ ∃ s, e = .posted s l text)
    (hgot : ∀ s number (l : Letter) text, e = .got s number l.key text →
      st.db l.key = some text)
    (hposted : ∀ s l text, e = .posted s l text → l.uuid = uuid s) :
    MailInv uuid parties st' (e :: tr) where
  stored l text hl := by
    rcases hdb l text hl with hl | ⟨s, rfl⟩
    · obtain ⟨s, hs⟩ := h.stored l text hl
      exact ⟨s, List.mem_cons_of_mem _ hs⟩
    · exact ⟨s, List.mem_cons_self ..⟩
  read s number l text hg := by
    rcases List.mem_cons.mp hg with he | hg
    · obtain ⟨s, hs⟩ := h.stored l text (hgot s number l text he.symm)
      exact ⟨s, List.mem_cons_of_mem _ hs⟩
    · obtain ⟨s', hs⟩ := h.read s number l text hg
      exact ⟨s', List.mem_cons_of_mem _ hs⟩
  owned s l text hp := by
    rcases List.mem_cons.mp hp with he | hp
    · exact hposted s l text he.symm
    · exact h.owned s l text hp

theorem MailInv.step {st' : MailState} {e : MailEvent S} (h : MailInv uuid parties st tr)
    (hs : MailStep env keygenJson roomJson uuid parties st e st') :
    MailInv uuid parties st' (e :: tr) := by
  cases hs with
  | @posted s l text hu _ _ =>
      refine h.weaken (fun l' text' hl => ?_) (by simp) (by rintro _ _ _ ⟨⟩; exact hu)
      by_cases hl' : l' = l
      · subst hl'
        change Function.update st.db l'.key (some text) l'.key = some text' at hl
        rw [Function.update_self] at hl
        exact Or.inr ⟨s, by rw [Option.some.inj hl]⟩
      · have hne := fun hk => hl' (Letter.key_injective hk)
        exact Or.inl ((Function.update_of_ne hne _ _).symm.trans hl)
  | @got s number key text hg =>
      refine h.weaken (fun _ _ hl => Or.inl hl) ?_ (by simp)
      rintro _ _ l _ ⟨⟩
      unfold get at hg
      split at hg
      next v hv =>
        obtain ⟨_, rfl⟩ := Entry.mk.inj (Except.ok.inj hg)
        exact hv
      next => cases hg
  | keygenSignup hk =>
      refine h.weaken (fun l text hl => Or.inl ?_) (by simp) (by simp)
      rwa [← signupKeygen_other hk (l.key_ne_keygenKey _)]
  | signSignup hk =>
      refine h.weaken (fun l text hl => Or.inl ?_) (by simp) (by simp)
      rwa [← signupSign_other hk (l.key_ne_signKey _)]
  | @expired key =>
      refine h.weaken (fun l text hl => Or.inl ?_) (by simp) (by simp)
      by_cases hk : l.key = key
      · rw [hk] at hl
        cases (Function.update_self ..).symm.trans hl
      · exact (Function.update_of_ne hk _ _).symm.trans hl

theorem mailInv_run (hrun : MailRun env keygenJson roomJson uuid parties st tr) :
    MailInv uuid parties st tr := by
  refine Run.invariant (MailInv uuid parties) ?_ (fun _ _ _ _ _ ih hs => ih.step hs) hrun
  intro st hdb
  exact ⟨by simp [hdb], by simp, by simp⟩

/-! ## What a round delivers -/

theorem PostedOnce.eq (h : PostedOnce tr) {e e' : MailEvent S} {l : Letter} (he : e ∈ tr)
    (he' : e' ∈ tr) (hl : e.letter = some l) (hl' : e'.letter = some l) : e = e' := by
  by_contra hne
  have hpair := List.pairwise_filterMap.mp h
  have : Std.Symm fun a a' : MailEvent S =>
      ∀ b, a.letter = some b → ∀ b', a'.letter = some b' → b ≠ b' :=
    ⟨fun _ _ hab b hb b' hb' => (hab b' hb' b hb).symm⟩
  exact hpair.forall he he' hne l hl l hl' rfl

theorem mem_of_mem_history [DecidableEq S] {s : S} {number : Nat} {op : Op Key String}
    (h : op ∈ history tr s number) : ∃ e ∈ tr, e.opOf s number = some op := by
  obtain ⟨e, he, hop⟩ := List.mem_filterMap.mp h
  exact ⟨e, List.mem_reverse.mp he, hop⟩

theorem mem_of_got [DecidableEq S] {s : S} {number : Nat} {key : Key} {text : String}
    (h : .got key text ∈ history tr s number) : .got s number key text ∈ tr := by
  obtain ⟨e, he, hop⟩ := mem_of_mem_history h
  cases e <;> simp_all [MailEvent.opOf]

theorem mem_of_posted [DecidableEq S] {s : S} {number : Nat} {l : Letter} {text : String}
    (h : .posted l.key text ∈ history tr s number) : .posted s l text ∈ tr := by
  obtain ⟨e, he, hop⟩ := mem_of_mem_history h
  cases e <;> simp_all [MailEvent.opOf]
  obtain ⟨⟨rfl, rfl⟩, hl, rfl⟩ := hop
  rwa [← Letter.key_injective hl]

/-- The text is the one that was posted for the letter. -/
def TheText (tr : List (MailEvent S)) (s : S) (l : Letter) (text : String) : Prop :=
  ∀ t, .posted s l t ∈ tr ↔ t = text

theorem PostedOnce.theText (h : PostedOnce tr) {s : S} {l : Letter} {text : String}
    (hp : .posted s l text ∈ tr) : TheText tr s l text := by
  intro t
  constructor
  · intro ht
    exact (MailEvent.posted.inj (h.eq ht hp rfl rfl)).2.2
  · rintro rfl
    exact hp

/-- A text that a party got under the key of a letter of its session is the one
posted for that letter. -/
theorem theText_of_got [DecidableEq S] (hfresh : Function.Injective uuid)
    (hinv : MailInv uuid parties st tr) (honce : PostedOnce tr) {s : S} {number : Nat} {l : Letter}
    {text : String} (hl : l.uuid = uuid s) (h : .got l.key text ∈ history tr s number) :
    TheText tr s l text := by
  obtain ⟨s', hs'⟩ := hinv.read s number l text (mem_of_got h)
  obtain rfl := hfresh ((hinv.owned s' l text hs').symm.trans hl)
  exact honce.theText hs'

end

/-- Whatever part of what a party did is a round of its session, the party ends
the round with what each party posted in it, in the order of the numbers; in a
round of messages to one party it reads what each other party addressed to it;
and no two letters share a key, nor does a letter share one with a sign-up. -/
theorem mailbox_delivers {env : Env} {keygenJson : Codec PartySignup}
    {roomJson : Codec SigningRoom} {S : Type} [DecidableEq S] {uuid : S → String}
    {parties : S → Nat} {st : MailState} {tr : List (MailEvent S)}
    (hfresh : Function.Injective uuid)
    (hrun : MailRun env keygenJson roomJson uuid parties st tr) (honce : PostedOnce tr) :
    (∀ (s : S) (me : Nat) (round : Round) (α : Type) (json : Codec α) (idiom : Idiom) (data : α)
        (ops : List (Op Key String)) (v : List α),
      1 ≤ me → me ≤ parties s →
      (∀ i text, .posted s (.toAll i round (uuid s)) text ∈ tr → ∃ a, text = json.encode a) →
      ops <:+: history tr s me →
      Executes (idiom.round json me (parties s) (uuid s) round data) ops v →
      ∃ d : Nat → α,
        (∀ i, 1 ≤ i → i ≤ parties s →
          TheText tr s (.toAll i round (uuid s)) (json.encode (d i))) ∧
        d me = data ∧ v = (List.range' 1 (parties s)).map d) ∧
    (∀ (s : S) (me : Nat) (round : Round) (ops : List (Op Key String)) (v : List String),
      ops <:+: history tr s me →
      Executes (pollForP2p me (parties s) round (uuid s)) ops v →
      ∃ text : Nat → String,
        (∀ i ∈ others me (parties s), TheText tr s (.toOne i me round (uuid s)) (text i)) ∧
        v = (others me (parties s)).map text) ∧
    Function.Injective Letter.key ∧
    (∀ (l : Letter) (curve : String), l.key ≠ keygenKey curve) ∧
    ∀ (l : Letter) (request : PartySignupRequestBody), l.key ≠ signKey request := by
  have hinv := mailInv_run hrun
  refine ⟨?_, ?_, Letter.key_injective, Letter.key_ne_keygenKey, Letter.key_ne_signKey⟩
  · intro s me round α json idiom data ops v h₁ hn hjson hops hex
    obtain ⟨ops₁, ops₂, answers, rfl, hread, hbuild⟩ := hex.of_bind
    obtain ⟨text, rfl, rfl⟩ := readRound_executes hread
    have own : TheText tr s (.toAll me round (uuid s)) (json.encode data) :=
      honce.theText (mem_of_posted (hops.subset (by simp [Letter.key])))
    have other : ∀ i ∈ others me (parties s),
        TheText tr s (.toAll i round (uuid s)) (text i) := fun i hi =>
      theText_of_got (l := .toAll i round (uuid s)) hfresh hinv honce rfl
        (hops.subset (List.mem_append_left _
          (List.mem_cons_of_mem _ (List.mem_map_of_mem (f := fun i => Op.got _ (text i)) hi))))
    have decoded : ∀ i, ∃ a, i ∈ others me (parties s) → text i = json.encode a := by
      intro i
      by_cases hi : i ∈ others me (parties s)
      · obtain ⟨a, ha⟩ := hjson i (text i) ((other i hi _).mpr rfl)
        exact ⟨a, fun _ => ha⟩
      · exact ⟨data, fun h => absurd h hi⟩
    choose d₀ hd₀ using decoded
    refine ⟨Function.update d₀ me data, fun i hi₁ hin => ?_, Function.update_self .., ?_⟩
    · by_cases hi : i = me
      · rw [hi, Function.update_self]
        exact own
      · have hmem := mem_others.mpr ⟨⟨hi₁, hin⟩, hi⟩
        rw [Function.update_of_ne hi, ← hd₀ i hmem]
        exact other i hmem
    · have htext : (others me (parties s)).map text =
          (others me (parties s)).map fun i => json.encode (Function.update d₀ me data i) := by
        refine List.map_congr_left fun i hi => ?_
        rw [Function.update_of_ne (mem_others.mp hi).2, hd₀ i hi]
      have hv := idiom.build_eq json (Function.update d₀ me data) h₁ hn
      rw [Function.update_self, ← htext] at hv
      exact Except.ok.inj ((hbuild.of_lift.1).symm.trans hv)
  · intro s me round ops v hops hex
    obtain ⟨text, rfl, rfl⟩ := pollForP2p_executes hex
    exact ⟨text, fun i hi => theText_of_got (l := .toOne i me round (uuid s)) hfresh hinv honce rfl
      (hops.subset (List.mem_map_of_mem (f := fun i => Op.got _ (text i)) hi)), rfl⟩

/-! ## Two sessions -/

/-- Two sessions in one round, with a sign-up before and an expiry after. -/
def twoSessions : List (MailEvent Bool) :=
  [.expired (broadcastKey 1 round1 "u"),
   .got true 2 (broadcastKey 1 round1 "u") "a",
   .posted true (.toAll 2 round1 "u") "b",
   .posted false (.toAll 1 round1 "v") "x",
   .posted true (.toAll 1 round1 "u") "a",
   .keygenSignup { parties := "2", threshold := "1" } "ECDSA"]

/-- Party `2` of the first session ends the round with both texts. -/
theorem mailbox_delivers_two : ∃ d : Nat → String,
    (∀ i, 1 ≤ i → i ≤ 2 → TheText twoSessions true (.toAll i round1 "u") (d i)) ∧
    d 2 = "b" ∧ ["a", "b"] = (List.range' 1 2).map d := by
  let json : Codec PartySignup := Codec.ofCountable PartySignup
  let uuid : Bool → String := fun s => if s then "u" else "v"
  let text : Codec String := ⟨id, some, fun _ => rfl⟩
  have hsignup : (signupKeygen defaultEnv json { parties := "2", threshold := "1" } "ECDSA"
      fun _ => none).run 0 = .ok ((⟨1, "u"⟩,
        set (fun _ => none) { key := keygenKey "ECDSA", value := json.encode ⟨1, "u"⟩ }), 1) := rfl
  obtain ⟨st, hrun⟩ : ∃ st, MailRun defaultEnv json (Codec.ofCountable SigningRoom) uuid
      (fun _ => 2) st twoSessions := by
    refine ⟨_, .snoc (.snoc (.snoc (.snoc (.snoc (.snoc (.start (s := ⟨fun _ => none, 0⟩) rfl)
      (.keygenSignup hsignup)) (.posted ?_ ?_ ?_)) (.posted ?_ ?_ ?_)) (.posted ?_ ?_ ?_))
      (.got ?_)) .expired⟩
    all_goals first | rfl | decide
  have honce : PostedOnce twoSessions := by
    unfold PostedOnce
    decide
  have hops : [.posted (broadcastKey 2 round1 "u") "b", .got (broadcastKey 1 round1 "u") "a"]
      <:+: history twoSessions true 2 := ⟨[], [], rfl⟩
  have hjson : ∀ i t, .posted true (.toAll i round1 "u") t ∈ twoSessions →
      ∃ a, t = text.encode a := fun i t _ => ⟨t, rfl⟩
  exact (mailbox_delivers (by decide) hrun honce).1 true 2 round1 String text
    .exchangeData "b" _ ["a", "b"] (by decide) le_rfl hjson hops (.post (.await .ret))

end TssCli
