import Mathlib.Data.List.Range
import TssCli.Common.Client

/-!
# Building vectors from a round

In a round every party posts and reads what the others posted, and then builds
the vector of all entries with its own in its own place.  The protocols do the
last in four ways: in `exchange_data`, in `format_vec_from_reads`, in loops of
their own, and by inserting the own entry at its index.  All but the last are
the same loop over the party numbers, `walk`, that takes the own entry at the
own number and the next answer at every other.

Against an oracle that says what each party posts, all four give the entries in
the order of the numbers.
-/

namespace TssCli

open Mailbox Mailbox.Script

/-! ## The loop -/

section

variable {α β σ : Type} {m : Type → Type} [Monad m]

/-- An element of a vector. -/
def index (v : List α) (j : Nat) : Except Panic α :=
  match v[j]? with
  | some a => .ok a
  | none => .error .outOfBounds

theorem index_of_lt {v : List α} {j : Nat} (h : j < v.length) : index v j = .ok v[j] := by
  simp [index, h]

section

variable [MonadLiftT (Except Panic) m]

/-- One round of `walk`, with the counter `j` of the answers taken. -/
def walkStep (answers : List β) (partyNum : Nat) (own : σ → Nat → m σ) (other : σ → Nat → β → m σ)
    (s : σ × Nat) (i : Nat) : m (σ × Nat) :=
  if i = partyNum then do
    return (← own s.1 i, s.2)
  else match answers[s.2]? with
    | some b => do return (← other s.1 i b, s.2 + 1)
    | none => liftM (.error .outOfBounds : Except Panic (σ × Nat))

/-- `for i in 1..=n`: the own number takes `own`, every other number takes
`other` on the next answer. -/
def walk (answers : List β) (partyNum n : Nat) (own : σ → Nat → m σ) (other : σ → Nat → β → m σ)
    (init : σ) : m σ := do
  let s ← (List.range' 1 n).foldlM (walkStep answers partyNum own other) (init, 0)
  return s.1

/-- The other parties of a session of `n`. -/
def others (partyNum n : Nat) : List Nat := (List.range' 1 n).filter (· ≠ partyNum)

theorem foldlM_walkStep [LawfulMonad m] {answers : List β} {partyNum : Nat} {own : σ → Nat → m σ}
    {other : σ → Nat → β → m σ} (text : Nat → β) :
    ∀ {l : List Nat} {s : σ} {j : Nat},
      answers.drop j = (l.filter (· ≠ partyNum)).map text →
      l.foldlM (walkStep answers partyNum own other) (s, j) = do
        let s' ← l.foldlM (fun s i => if i = partyNum then own s i else other s i (text i)) s
        return (s', j + (l.filter (· ≠ partyNum)).length)
  | [], s, j, _ => by simp
  | i :: l, s, j, h => by
      by_cases hi : i = partyNum
      · have h' : answers.drop j = (l.filter (· ≠ partyNum)).map text := by simpa [hi] using h
        simp [walkStep, hi, foldlM_walkStep text h']
      · have hcons : answers.drop j = text i :: (l.filter (· ≠ partyNum)).map text := by
          simpa [hi] using h
        have hj : answers[j]? = some (text i) := by
          rw [← List.head?_drop, hcons, List.head?_cons]
        have h' : answers.drop (j + 1) = (l.filter (· ≠ partyNum)).map text := by
          rw [← List.tail_drop, hcons, List.tail_cons]
        simp [walkStep, hi, hj, foldlM_walkStep text h', Nat.add_assoc, Nat.add_comm]

/-- With one answer from each other party, in order, every number takes its own
party's. -/
theorem walk_eq [LawfulMonad m] {partyNum n : Nat} {own : σ → Nat → m σ}
    {other : σ → Nat → β → m σ} (text : Nat → β) (init : σ) :
    walk ((others partyNum n).map text) partyNum n own other init =
      (List.range' 1 n).foldlM
        (fun s i => if i = partyNum then own s i else other s i (text i)) init := by
  rw [walk, foldlM_walkStep text (by rw [List.drop_zero]; rfl)]
  simp

end

end

/-! ## The four idioms -/

section

variable {α : Type} (json : Codec α)

/-- Post to all, and read what all others post. -/
def readRound (partyNum n : Nat) (uuid : String) (round : Round) (data : String) :
    Client (List String) := do
  broadcast partyNum round data uuid
  pollForBroadcasts partyNum n round uuid

/-- The vector of all entries, in the loop that decodes one answer at a time. -/
def rebuild (partyNum n : Nat) (data : α) (answers : List String) : Except Panic (List α) :=
  walk answers partyNum n (fun v _ => pure (v ++ [data]))
    (fun v _ text => do return v ++ [← json.read text]) []

/-- `exchange_data`. -/
def exchangeData (partyNum n : Nat) (uuid : String) (round : Round) (data : α) :
    Client (List α) := do
  let roundAnsVec ← readRound partyNum n uuid round (json.encode data)
  rebuild json partyNum n data roundAnsVec

/-- `format_vec_from_reads`. -/
def formatVecFromReads (ansVec : List String) (partyNum : Nat) (valueI : α) :
    Except Panic (List α) :=
  rebuild json partyNum (ansVec.length + 1) valueI ansVec

/-- `vec.insert(index, element)`. -/
def insertAt (v : List α) (idx : Nat) (a : α) : Except Panic (List α) :=
  if idx ≤ v.length then .ok (v.insertIdx idx a) else .error .outOfBounds

/-- The answers decoded, with the own entry inserted at `party_num_int - 1`. -/
def insertOwn (ansVec : List String) (partyNum : Nat) (own : α) : Except Panic (List α) := do
  let v ← ansVec.mapM json.read
  if partyNum = 0 then .error .overflow else insertAt v (partyNum - 1) own

end

/-! ## What they build -/

section

variable {α : Type} {json : Codec α} {partyNum n : Nat}

/-- A loop whose rounds do not fail. -/
theorem foldlM_pure {σ β : Type} {m : Type → Type} [Monad m] [LawfulMonad m] {step : σ → β → m σ}
    (next : σ → β → σ) :
    ∀ {l : List β} {init : σ}, (∀ b ∈ l, ∀ s, step s b = pure (next s b)) →
      l.foldlM step init = pure (l.foldl next init)
  | [], _, _ => rfl
  | b :: l, init, h => by
      rw [List.foldlM_cons, h b (List.mem_cons_self ..), pure_bind,
        foldlM_pure next fun b' hb' => h b' (List.mem_cons_of_mem _ hb'), List.foldl_cons]

theorem foldlM_congr {σ β : Type} {m : Type → Type} [Monad m] {f g : σ → β → m σ} :
    ∀ {l : List β} {init : σ}, (∀ b ∈ l, ∀ s, f s b = g s b) → l.foldlM f init = l.foldlM g init
  | [], _, _ => rfl
  | b :: l, init, h => by
      rw [List.foldlM_cons, List.foldlM_cons, h b (List.mem_cons_self ..)]
      exact bind_congr fun s => foldlM_congr fun b' hb' => h b' (List.mem_cons_of_mem _ hb')

/-- Entries pushed one by one. -/
theorem foldl_push {β : Type} (d : β → α) :
    ∀ (l : List β) (init : List α), l.foldl (fun v i => v ++ [d i]) init = init ++ l.map d
  | [], init => by simp
  | i :: l, init => by simp [foldl_push d l]

/-- A loop of pushes pushes all entries, or stops at one that fails. -/
theorem foldlM_push_cases {f : Nat → Except Panic α} {d : Nat → α} {p : Panic → Prop} :
    ∀ {l : List Nat} (init : List α), (∀ i ∈ l, f i = .ok (d i) ∨ ∃ e, f i = .error e ∧ p e) →
      l.foldlM (fun v i => do return v ++ [← f i]) init = .ok (init ++ l.map d) ∨
        ∃ e, l.foldlM (fun v i => do return v ++ [← f i]) init = .error e ∧ p e
  | [], init, _ => Or.inl (by rw [List.map_nil, List.append_nil]; rfl)
  | i :: l, init, h => by
      rw [List.foldlM_cons]
      rcases h i (List.mem_cons_self ..) with hi | ⟨e, hi, he⟩
      · have htail := foldlM_push_cases (init ++ [d i])
          fun j hj => h j (List.mem_cons_of_mem _ hj)
        rw [List.append_assoc] at htail
        simpa [hi, except_ok_bind] using htail
      · exact Or.inr ⟨e, by rw [hi]; rfl, he⟩

theorem rebuild_eq (d : Nat → α) :
    rebuild json partyNum n (d partyNum) ((others partyNum n).map fun i => json.encode (d i)) =
      .ok ((List.range' 1 n).map d) := by
  rw [rebuild, walk_eq, foldlM_pure fun v i => v ++ [d i], foldl_push, List.nil_append]
  · rfl
  · intro i _ v
    split
    next h => rw [h]
    next => rw [Codec.read_encode]; rfl

/-- The numbers before the own one and those after it. -/
theorem range'_split (h₁ : 1 ≤ partyNum) (hn : partyNum ≤ n) :
    List.range' 1 n =
      List.range' 1 (partyNum - 1) ++ partyNum :: List.range' (partyNum + 1) (n - partyNum) := by
  obtain ⟨k, rfl⟩ := Nat.exists_eq_add_of_le hn
  obtain ⟨p, rfl⟩ := Nat.exists_eq_add_of_le' h₁
  rw [show p + 1 + k = p + (k + 1) by omega, ← List.range'_append, List.range'_succ]
  simp only [Nat.add_sub_cancel, Nat.one_mul]
  rw [Nat.add_comm 1 p, show p + (k + 1) - (p + 1) = k by omega]

theorem others_split (h₁ : 1 ≤ partyNum) (hn : partyNum ≤ n) :
    others partyNum n =
      List.range' 1 (partyNum - 1) ++ List.range' (partyNum + 1) (n - partyNum) := by
  have hl : (List.range' 1 (partyNum - 1)).filter (· ≠ partyNum) = List.range' 1 (partyNum - 1) := by
    rw [List.filter_eq_self]
    intro i hi
    have := List.mem_range'_1.mp hi
    exact decide_eq_true (by omega)
  have hr : (List.range' (partyNum + 1) (n - partyNum)).filter (· ≠ partyNum) =
      List.range' (partyNum + 1) (n - partyNum) := by
    rw [List.filter_eq_self]
    intro i hi
    have := List.mem_range'_1.mp hi
    exact decide_eq_true (by omega)
  rw [others, range'_split h₁ hn, List.filter_append, hl, List.filter_cons, hr]
  simp

theorem length_others (h₁ : 1 ≤ partyNum) (hn : partyNum ≤ n) :
    (others partyNum n).length + 1 = n := by
  rw [others_split h₁ hn, List.length_append, List.length_range', List.length_range']
  omega

theorem mem_others {i : Nat} : i ∈ others partyNum n ↔ (1 ≤ i ∧ i ≤ n) ∧ i ≠ partyNum := by
  simp [others, List.mem_filter, List.mem_range'_1, Nat.lt_one_add_iff]

/-- In a session of more than one party there are others. -/
theorem exists_mem_others (h₁ : 1 ≤ partyNum) (hn : partyNum ≤ n) (hne : n ≠ 1) :
    ∃ i, i ∈ others partyNum n := by
  refine List.exists_mem_of_length_pos ?_
  have := length_others h₁ hn
  omega

theorem formatVecFromReads_eq (d : Nat → α) (h₁ : 1 ≤ partyNum) (hn : partyNum ≤ n) :
    formatVecFromReads json ((others partyNum n).map fun i => json.encode (d i)) partyNum
      (d partyNum) = .ok ((List.range' 1 n).map d) := by
  rw [formatVecFromReads, List.length_map, length_others h₁ hn, rebuild_eq]

/-- The numbers from `1` are those from `0`, one more each. -/
theorem range'_one_eq_map (n : Nat) : List.range' 1 n = (List.range n).map (· + 1) := by
  rw [List.range'_eq_map_range]
  exact List.map_congr_left fun i _ => Nat.add_comm 1 i

/-- An entry of a vector over the party numbers. -/
theorem index_range' {α : Type} {n i : Nat} (d : Nat → α) (h₁ : 1 ≤ i) (hn : i ≤ n) :
    index ((List.range' 1 n).map d) (i - 1) = .ok (d i) := by
  have hlt : i - 1 < ((List.range' 1 n).map d).length := by
    rw [List.length_map, List.length_range']
    omega
  rw [index_of_lt hlt]
  simp only [List.getElem_map, List.getElem_range', Nat.one_mul]
  rw [Nat.add_sub_of_le h₁]

/-- A loop over a vector that never fails is a map. -/
theorem mapM_pure {β γ : Type} {m : Type → Type} [Monad m] [LawfulMonad m] {f : β → m γ}
    {g : β → γ} : ∀ {l : List β}, (∀ b ∈ l, f b = pure (g b)) → l.mapM f = pure (l.map g)
  | [], _ => by simp
  | b :: l, h => by
      have ih := mapM_pure fun b' hb' => h b' (List.mem_cons_of_mem _ hb')
      simp [List.mapM_cons, h b (List.mem_cons_self ..), ih]

theorem mapM_read (d : Nat → α) (l : List Nat) :
    (l.map fun i => json.encode (d i)).mapM json.read = .ok (l.map d) := by
  rw [List.mapM_map]
  exact mapM_pure fun i _ => json.read_encode (d i)

theorem insertIdx_length_append (a : α) (r : List α) :
    ∀ l : List α, (l ++ r).insertIdx l.length a = l ++ a :: r
  | [] => rfl
  | b :: l => by simp [insertIdx_length_append a r l]

theorem insertOwn_eq (d : Nat → α) (h₁ : 1 ≤ partyNum) (hn : partyNum ≤ n) :
    insertOwn json ((others partyNum n).map fun i => json.encode (d i)) partyNum (d partyNum) =
      .ok ((List.range' 1 n).map d) := by
  rw [insertOwn, mapM_read, except_ok_bind, if_neg (by omega), insertAt, if_pos]
  · have hl : ((List.range' 1 (partyNum - 1)).map d).length = partyNum - 1 := by simp
    rw [others_split h₁ hn, range'_split h₁ hn, List.map_append, List.map_append, List.map_cons,
      ← insertIdx_length_append, hl]
  · have := length_others h₁ hn
    rw [List.length_map]
    omega

end

/-! ## On given operations -/

section

variable {α : Type} {json : Codec α} {partyNum n : Nat} {round : Round} {uuid : String}

theorem foldlM_poll_executes {key : Nat → Key} :
    ∀ {l : List Nat} {init answers : List String} {ops : List (Op Key String)}, l.Nodup →
      Executes (l.foldlM (poll partyNum key) init) ops answers →
      ∃ text : Nat → String,
        ops = (l.filter (· ≠ partyNum)).map (fun i => .got (key i) (text i)) ∧
        answers = init ++ (l.filter (· ≠ partyNum)).map text
  | [], init, answers, ops, _, h => by
      obtain ⟨rfl, rfl⟩ := Executes.of_pure h
      exact ⟨fun _ => "", by simp, by simp⟩
  | i :: l, init, answers, ops, hl, h => by
      rw [List.foldlM_cons] at h
      obtain ⟨ops₁, ops₂, init', rfl, h₁, h₂⟩ := h.of_bind
      obtain ⟨hi, hl⟩ := List.nodup_cons.mp hl
      obtain ⟨text, rfl, rfl⟩ := foldlM_poll_executes hl h₂
      by_cases hne : i = partyNum
      · rw [poll, if_neg (not_not.mpr hne)] at h₁
        obtain ⟨rfl, rfl⟩ := Executes.of_pure h₁
        exact ⟨text, by simp [hne], by simp [hne]⟩
      · rw [poll, if_pos hne] at h₁
        cases h₁ with
        | @await _ v _ ops₁ _ h₁ =>
            obtain ⟨rfl, rfl⟩ := Executes.of_pure h₁
            have htext : ∀ j ∈ l.filter (· ≠ partyNum), Function.update text i v j = text j := by
              intro j hj
              refine Function.update_of_ne ?_ _ _
              rintro rfl
              exact hi (List.mem_filter.mp hj).1
            have hcons : (i :: l).filter (· ≠ partyNum) = i :: l.filter (· ≠ partyNum) := by
              simp [hne]
            refine ⟨Function.update text i v, ?_, ?_⟩
            · rw [hcons, List.map_cons, Function.update_self]
              exact congrArg _ (List.map_congr_left fun j hj => by rw [htext j hj])
            · rw [hcons, List.map_cons, Function.update_self, List.map_congr_left htext]
              simp

/-- A poll gets the text of each other party, and returns the texts in order. -/
theorem pollForP2p_executes {answers : List String} {ops : List (Op Key String)}
    (h : Executes (pollForP2p partyNum n round uuid) ops answers) :
    ∃ text : Nat → String,
      ops = (others partyNum n).map (fun i => .got (p2pKey i partyNum round uuid) (text i)) ∧
      answers = (others partyNum n).map text :=
  foldlM_poll_executes List.nodup_range' h

/-- A round posts the own text, gets the text of each other party, and returns
those in order. -/
theorem readRound_executes {data : String} {answers : List String} {ops : List (Op Key String)}
    (h : Executes (readRound partyNum n uuid round data) ops answers) :
    ∃ text : Nat → String,
      ops = .posted (broadcastKey partyNum round uuid) data ::
        (others partyNum n).map (fun i => .got (broadcastKey i round uuid) (text i)) ∧
      answers = (others partyNum n).map text := by
  cases h with
  | post h =>
      obtain ⟨text, rfl, rfl⟩ := foldlM_poll_executes List.nodup_range' h
      exact ⟨text, rfl, rfl⟩

/-- A loop of pushes that returns has pushed an entry for each number. -/
theorem foldlM_push_ok {f : Nat → Except Panic α} (a₀ : α) :
    ∀ {l : List Nat} {init v : List α},
      l.foldlM (fun v i => do return v ++ [← f i]) init = .ok v →
      (∀ i ∈ l, f i = .ok ((f i).toOption.getD a₀)) ∧
        v = init ++ l.map fun i => (f i).toOption.getD a₀
  | [], init, v, h => ⟨by simp, by simpa using (Except.ok.inj h).symm⟩
  | i :: l, init, v, h => by
      rw [List.foldlM_cons] at h
      obtain ⟨init', h₁, h₂⟩ := except_bind_ok h
      obtain ⟨a, ha, h₁⟩ := except_bind_ok h₁
      obtain ⟨hl, rfl⟩ := foldlM_push_ok a₀ h₂
      obtain rfl := Except.ok.inj h₁
      refine ⟨fun j hj => ?_, ?_⟩
      · rcases List.mem_cons.mp hj with rfl | hj
        · rw [ha]
          rfl
        · exact hl j hj
      · rw [List.map_cons, ha, List.append_assoc]
        rfl

theorem Codec.read_ok {s : String} {a : α} (h : json.read s = .ok a) : json.decode s = some a := by
  unfold Codec.read at h
  split at h
  next b hb => rw [hb, Except.ok.inj h]
  next => cases h

/-- The entries that a party has accepted in a round: its own, and what it has
read from each other party. -/
structure Accepts (ops : List (Op Key String)) (json : Codec α) (round : Round) (partyNum n : Nat)
    (uuid : String) (own : α) (v : Nat → α) : Prop where
  own : v partyNum = own
  read : ∀ i ∈ others partyNum n, ∃ text,
    .got (broadcastKey i round uuid) text ∈ ops ∧ json.decode text = some (v i)

theorem Accepts.mono {ops ops' : List (Op Key String)} {own : α} {v : Nat → α}
    (h : Accepts ops json round partyNum n uuid own v) (hsub : ops ⊆ ops') :
    Accepts ops' json round partyNum n uuid own v where
  own := h.own
  read i hi := by
    obtain ⟨text, hgot, htext⟩ := h.read i hi
    exact ⟨text, hsub hgot, htext⟩

/-- What is read in a round is under its keys. -/
theorem readRound_getsOnly {data : String} :
    GetsOnly (fun key => ∃ i, key = broadcastKey i round uuid)
      (readRound partyNum n uuid round data) := by
  intro ops answers h key text hgot
  obtain ⟨texts, rfl, rfl⟩ := readRound_executes h
  obtain ⟨i, _, hi⟩ : ∃ i ∈ others partyNum n,
      Op.got (broadcastKey i round uuid) (texts i) = .got key text := by simpa using hgot
  exact ⟨i, (Op.got.inj hi).1.symm⟩

theorem pollForP2p_getsOnly :
    GetsOnly (fun key => ∃ i, key = p2pKey i partyNum round uuid)
      (pollForP2p partyNum n round uuid) := by
  intro ops answers h key text hgot
  obtain ⟨texts, rfl, rfl⟩ := pollForP2p_executes h
  obtain ⟨i, _, hi⟩ := List.mem_map.mp hgot
  exact ⟨i, (Op.got.inj hi).1.symm⟩

theorem exchangeData_getsOnly {data : α} :
    GetsOnly (fun key => ∃ i, key = broadcastKey i round uuid)
      (exchangeData json partyNum n uuid round data) :=
  readRound_getsOnly.bind fun _ => .lift _

theorem walk_getsOnly {β σ : Type} {P : Key → Prop} {answers : List β}
    {own : σ → Nat → Client σ} {other : σ → Nat → β → Client σ} {init : σ}
    (hown : ∀ x i, GetsOnly P (own x i)) (hother : ∀ x i a, GetsOnly P (other x i a)) :
    GetsOnly P (walk answers partyNum n own other init) := by
  refine (GetsOnly.foldlM (fun x i => ?_) _ _).bind fun _ => .pure _
  unfold walkStep
  split
  next => exact (hown _ _).bind fun _ => .pure _
  next =>
    split
    next => exact (hother _ _ _).bind fun _ => .pure _
    next => exact .lift _

/-- Keys of different rounds are different. -/
theorem broadcastKey_ne {i j : Nat} {round' : Round} (h : round ≠ round') :
    broadcastKey i round uuid ≠ broadcastKey j round' uuid := by
  intro hkey
  have := @Letter.key_injective (.toAll i round uuid) (.toAll j round' uuid) hkey
  exact h (Letter.toAll.inj this).2.1

theorem p2pKey_ne {i j k : Nat} {round' : Round} :
    p2pKey i j round uuid ≠ broadcastKey k round' uuid := by
  intro hkey
  exact nomatch @Letter.key_injective (.toOne i j round uuid) (.toAll k round' uuid) hkey

/-- On any operations `exchange_data` returns the entries accepted, and there is
no choice in what they are. -/
theorem exchangeData_executes {data : α} {ops : List (Op Key String)} {v : List α}
    (h : Executes (exchangeData json partyNum n uuid round data) ops v) :
    (∃ d, Accepts ops json round partyNum n uuid data d) ∧
      ∀ d, Accepts ops json round partyNum n uuid data d → v = (List.range' 1 n).map d := by
  obtain ⟨ops₁, ops₂, answers, rfl, hread, hbuild⟩ := h.of_bind
  obtain ⟨text, rfl, rfl⟩ := readRound_executes hread
  obtain ⟨hok, rfl⟩ := hbuild.of_lift
  let f : Nat → Except Panic α := fun i =>
    if i = partyNum then .ok data else json.read (text i)
  have hstep : (fun (v : List α) i => if i = partyNum then pure (v ++ [data])
      else do return v ++ [← json.read (text i)]) = fun v i => do return v ++ [← f i] := by
    funext v i
    by_cases hi : i = partyNum
    · simp only [f, hi, if_true]
      rfl
    · simp only [f, hi, if_false]
  rw [rebuild, walk_eq, hstep] at hok
  obtain ⟨hf, rfl⟩ := foldlM_push_ok data hok
  have hdecode : ∀ i ∈ others partyNum n,
      json.decode (text i) = some ((f i).toOption.getD data) := by
    intro i hi
    have hread := hf i (List.mem_filter.mp hi).1
    rw [show f i = json.read (text i) from if_neg (mem_others.mp hi).2] at hread ⊢
    exact Codec.read_ok hread
  have hown : (f partyNum).toOption.getD data = data := by simp [f, Except.toOption]
  refine ⟨⟨fun i => (f i).toOption.getD data, hown, fun i hi => ⟨text i, ?_, hdecode i hi⟩⟩,
    fun d hd => ?_⟩
  · exact List.mem_append_left _ (List.mem_cons_of_mem _ (List.mem_map.mpr ⟨i, hi, rfl⟩))
  · refine List.map_congr_left fun i hi => ?_
    by_cases hme : i = partyNum
    · rw [hme, hown, hd.own]
    · have hmem : i ∈ others partyNum n := List.mem_filter.mpr ⟨hi, decide_eq_true hme⟩
      obtain ⟨text', hgot, htext'⟩ := hd.read i hmem
      obtain ⟨j, _, hj⟩ : ∃ j ∈ others partyNum n,
          Op.got (broadcastKey j round uuid) (text j) = .got (broadcastKey i round uuid) text' := by
        simpa using hgot
      obtain ⟨hkey, rfl⟩ := Op.got.inj hj
      obtain rfl : j = i :=
        (Letter.toAll.inj (@Letter.key_injective
          (.toAll j round uuid) (.toAll i round uuid) hkey)).1
      exact Option.some.inj ((hdecode j hmem).symm.trans htext')

end

/-! ## Against an oracle -/

section

variable {α : Type} {json : Codec α} {mail : Key → Option String} {rank : Key → Nat}
  {excused : Panic → Prop} {partyNum n r : Nat} {round : Round} {uuid : String}

/-- The texts of the others, in the order of their numbers. -/
theorem foldlM_poll_tracks {key : Nat → Key} {text : Nat → String}
    (hmail : ∀ i ∈ others partyNum n, mail (key i) = some (text i))
    (hrank : ∀ i ∈ others partyNum n, rank (key i) ≤ r) :
    Tracks mail rank excused r ((List.range' 1 n).foldlM (poll partyNum key) []) r
      ((others partyNum n).map text) := by
  have loop : Tracks mail rank excused r ((List.range' 1 n).foldlM (poll partyNum key) []) r
      ((List.range' 1 n).foldl (fun v i => if i ≠ partyNum then v ++ [text i] else v) []) := by
    refine Tracks.foldlM _ fun i hi v => ?_
    rw [poll]
    split
    next hne =>
      have hi : i ∈ others partyNum n := List.mem_filter.mpr ⟨hi, decide_eq_true hne⟩
      refine .await (hmail i hi) ?_
      rw [max_eq_left (hrank i hi)]
      exact .pure
    next => exact .pure
  rw [others, ← List.nil_append (List.map _ _), ← foldl_push, List.foldl_filter]
  simpa using loop

theorem pollForBroadcasts_tracks {text : Nat → String}
    (hmail : ∀ i ∈ others partyNum n, mail (broadcastKey i round uuid) = some (text i))
    (hrank : ∀ i ∈ others partyNum n, rank (broadcastKey i round uuid) ≤ r) :
    Tracks mail rank excused r (pollForBroadcasts partyNum n round uuid) r
      ((others partyNum n).map text) :=
  foldlM_poll_tracks hmail hrank

theorem pollForP2p_tracks {text : Nat → String}
    (hmail : ∀ i ∈ others partyNum n, mail (p2pKey i partyNum round uuid) = some (text i))
    (hrank : ∀ i ∈ others partyNum n, rank (p2pKey i partyNum round uuid) ≤ r) :
    Tracks mail rank excused r (pollForP2p partyNum n round uuid) r
      ((others partyNum n).map text) :=
  foldlM_poll_tracks hmail hrank

/-- What a party owes the others: its own letters that the oracle has. -/
def Owes (mail : Key → Option String) (partyNum : Nat) (key : Key) : Prop :=
  (mail key).isSome = true ∧ ∃ l : Letter, key = l.key ∧ l.sender = partyNum

/-- In `round` of a session of `n` the oracle has the text of every party, and this
is what is owed at rank `m`. -/
structure RoundMail (mail : Key → Option String) (rank : Key → Nat) (n : Nat) (uuid : String)
    (round : Round) (m : Nat) (text : Nat → String) : Prop where
  mail_eq : ∀ i, 1 ≤ i → i ≤ n → mail (broadcastKey i round uuid) = some (text i)
  rank_eq : ∀ i, 1 ≤ i → i ≤ n → rank (broadcastKey i round uuid) = m
  owed : ∀ i k, Owes mail i k → rank k = m → k = broadcastKey i round uuid

variable {text : Nat → String}

theorem RoundMail.readRound (h : RoundMail mail rank n uuid round (r + 1) text)
    (h₁ : 1 ≤ partyNum) (hn : partyNum ≤ n) :
    Plays mail rank excused (Owes mail partyNum) r
      (readRound partyNum n uuid round (text partyNum)) (r + 1)
      ((others partyNum n).map text) := by
  have hposts : Tracks mail rank excused r (TssCli.readRound partyNum n uuid round (text partyNum))
      (r + 1) ((others partyNum n).map text) := by
    refine .post (h.mail_eq _ h₁ hn) (by rw [h.rank_eq _ h₁ hn]; exact Nat.lt_succ_self r) ?_
    refine Tracks.lower (pollForBroadcasts_tracks (fun i hi => ?_) fun i hi => ?_) (Nat.le_succ r)
    · exact h.mail_eq i (mem_others.mp hi).1.1 (mem_others.mp hi).1.2
    · exact (h.rank_eq i (mem_others.mp hi).1.1 (mem_others.mp hi).1.2).le
  refine ⟨hposts, fun _ k hk hlt hle => ?_⟩
  rw [h.owed _ k hk (Nat.le_antisymm hle hlt)]
  exact .here

/-- Every party ends a round with the entries of all. -/
theorem RoundMail.exchangeData {d : Nat → α}
    (h : RoundMail mail rank n uuid round (r + 1) fun i => json.encode (d i)) (h₁ : 1 ≤ partyNum)
    (hn : partyNum ≤ n) :
    Plays mail rank excused (Owes mail partyNum) r
      (exchangeData json partyNum n uuid round (d partyNum)) (r + 1) ((List.range' 1 n).map d) := by
  refine (h.readRound h₁ hn).bind ?_
  rw [rebuild_eq]
  exact .pure

/-- A round whose answers are put in order, and what comes after it. -/
theorem RoundMail.formatVecFromReads {β : Type} {d : Nat → α} {f : List α → Client β} {r' : Nat}
    {b : β} (h : RoundMail mail rank n uuid round (r + 1) fun i => json.encode (d i))
    (h₁ : 1 ≤ partyNum) (hn : partyNum ≤ n)
    (hf : Plays mail rank excused (Owes mail partyNum) (r + 1) (f ((List.range' 1 n).map d)) r' b) :
    Plays mail rank excused (Owes mail partyNum) r
      (do
        let ansVec ← TssCli.readRound partyNum n uuid round (json.encode (d partyNum))
        let v ← TssCli.formatVecFromReads json ansVec partyNum (d partyNum)
        f v)
      r' b := by
  refine (h.readRound h₁ hn).bind ?_
  rw [formatVecFromReads_eq d h₁ hn, lift_ok, pure_bind]
  exact hf

/-- Operations on what the oracle says accept its entries. -/
theorem RoundMail.accepts {m : Nat} {d : Nat → α} {ops : List (Op Key String)} {v : List α}
    (h : RoundMail mail rank n uuid round m fun i => json.encode (d i))
    (hex : Executes (TssCli.exchangeData json partyNum n uuid round (d partyNum)) ops v)
    (hops : ∀ k t, .got k t ∈ ops → mail k = some t) :
    Accepts ops json round partyNum n uuid (d partyNum) d := by
  obtain ⟨⟨d', hd'⟩, _⟩ := exchangeData_executes hex
  refine ⟨rfl, fun i hi => ?_⟩
  obtain ⟨text, hgot, _⟩ := hd'.read i hi
  have hi' := (mem_others.mp hi).1
  obtain rfl := Option.some.inj ((h.mail_eq i hi'.1 hi'.2).symm.trans (hops _ _ hgot))
  exact ⟨_, hgot, json.decode_encode (d i)⟩

/-- In `round` of a session of `n` the oracle has the text of every party to every
other, and this is what is owed at rank `m`. -/
structure P2pMail (mail : Key → Option String) (rank : Key → Nat) (n : Nat) (uuid : String)
    (round : Round) (m : Nat) (text : Nat → Nat → String) : Prop where
  mail_eq : ∀ i j, i ∈ others j n → 1 ≤ j → j ≤ n → mail (p2pKey i j round uuid) = some (text i j)
  rank_eq : ∀ i j, i ∈ others j n → 1 ≤ j → j ≤ n → rank (p2pKey i j round uuid) = m
  owed : ∀ i k, Owes mail i k → rank k = m → ∃ j ∈ others i n, k = p2pKey i j round uuid

theorem others_comm {i : Nat} (h₁ : 1 ≤ partyNum) (hn : partyNum ≤ n) (hi : i ∈ others partyNum n) :
    partyNum ∈ others i n ∧ 1 ≤ i ∧ i ≤ n := by
  obtain ⟨⟨hi₁, hin⟩, hne⟩ := mem_others.mp hi
  exact ⟨mem_others.mpr ⟨⟨h₁, hn⟩, Ne.symm hne⟩, hi₁, hin⟩

theorem P2pMail.sendP2p {text : Nat → Nat → String} {i : Nat}
    (h : P2pMail mail rank n uuid round (r + 1) text) (h₁ : 1 ≤ partyNum) (hn : partyNum ≤ n)
    (hi : i ∈ others partyNum n) :
    Tracks mail rank excused r (sendP2p partyNum i round (text partyNum i) uuid) r () := by
  obtain ⟨hmem, hi₁, hin⟩ := others_comm h₁ hn hi
  exact .post (h.mail_eq _ _ hmem hi₁ hin)
    (by rw [h.rank_eq _ _ hmem hi₁ hin]; exact Nat.lt_succ_self r) .pure

theorem P2pMail.pollForP2p {text : Nat → Nat → String}
    (h : P2pMail mail rank n uuid round (r + 1) text) (h₁ : 1 ≤ partyNum) (hn : partyNum ≤ n) :
    Tracks mail rank excused r (pollForP2p partyNum n round uuid) (r + 1)
      ((others partyNum n).map fun i => text i partyNum) :=
  Tracks.lower (pollForP2p_tracks (fun i hi => h.mail_eq i _ hi h₁ hn)
    fun i hi => (h.rank_eq i _ hi h₁ hn).le) (Nat.le_succ r)

/-- A loop that sends each other party its text, and the poll after it. -/
theorem P2pMail.sendAndPoll {text : Nat → Nat → String} {send : Nat → Client Unit}
    (h : P2pMail mail rank n uuid round (r + 1) text) (h₁ : 1 ≤ partyNum) (hn : partyNum ≤ n)
    (htracks : ∀ i ∈ others partyNum n, Tracks mail rank excused r (send i) r ())
    (hposts : (∀ e, ¬ excused e) → ∀ i ∈ others partyNum n,
      Posts mail (send i) (p2pKey partyNum i round uuid)) :
    Plays mail rank excused (Owes mail partyNum) r
      ((List.range' 1 n).foldlM (fun _ i => if i = partyNum then pure () else send i) () >>=
        fun _ => TssCli.pollForP2p partyNum n round uuid)
      (r + 1) ((others partyNum n).map fun i => text i partyNum) := by
  have step : ∀ i ∈ List.range' 1 n, ∀ _ : Unit, Tracks mail rank excused r
      (if i = partyNum then pure () else send i) r () := by
    intro i hi _
    split
    next => exact .pure
    next hne => exact htracks i (List.mem_filter.mpr ⟨hi, decide_eq_true hne⟩)
  have loop : Tracks mail rank excused r
      ((List.range' 1 n).foldlM (fun _ i => if i = partyNum then pure () else send i) ()) r () :=
    Tracks.foldlM (fun _ _ => ()) (x := ()) step
  refine ⟨loop.bind (h.pollForP2p h₁ hn), fun hno k hk hlt hle => ?_⟩
  obtain ⟨j, hj, rfl⟩ := h.owed _ k hk (Nat.le_antisymm hle hlt)
  have hmem := mem_others.mp hj
  refine (Posts.foldlM (fun _ _ => ()) hno (b := j) (fun _ => ?_) step ?_).bind_left
  · rw [if_neg hmem.2]
    exact hposts hno j hj
  · exact List.mem_range'_1.mpr ⟨hmem.1.1, by omega⟩

end

end TssCli
