import TssCli.Protocols.Ecdsa.TweakedShares

/-!
# The first rounds of ECDSA signers

In the first three rounds the signers turn two products of sums into sums: of the
nonces `k_i` with the blinding `gamma_i`, and with the weighted shares `w_i`.  Every
signer multiplies with every other, and adds its own product (`Products.sum_share`).

The messages of a signer go to the others in the order of their numbers, while the
encryption keys and the commitments are in the order of the key generation.  Honest
signers find the right ones for every set of parties and every order of joining
(`mtaRounds_plays`).
-/

namespace TssCli

open Mailbox Mailbox.Script Polynomial Sharing

section

variable {α β σ : Type} {me n : Nat}

/-- A loop over the others' answers whose rounds do not fail. -/
theorem walk_others {other : σ → Nat → β → Except Panic σ} {text : Nat → β} (next : σ → Nat → σ)
    (h : ∀ i ∈ others me n, ∀ s, other s i (text i) = .ok (next s i)) (init : σ) :
    walk ((others me n).map text) me n (fun s _ => pure s) other init =
      .ok ((others me n).foldl next init) := by
  rw [walk_eq, others, List.foldl_filter]
  refine foldlM_pure (fun s i => if decide (i ≠ me) = true then next s i else s) fun i hi s => ?_
  split
  next hme => simp [hme]
  next hme =>
    rw [h i (List.mem_filter.mpr ⟨hi, decide_eq_true hme⟩)]
    simp [hme]
    rfl

/-- All entries of a vector, by their indices. -/
theorem mapM_index (f : α → Except Panic β) :
    ∀ v : List α, (List.range v.length).mapM (fun i => index v i >>= f) = v.mapM f
  | [] => rfl
  | a :: v => by
      rw [List.length_cons, List.range_succ_eq_map, List.mapM_cons, List.mapM_cons, List.mapM_map,
        ← mapM_index f v]
      rfl

end

namespace Ecdsa

section

variable {α : Type} {me n : Nat}

theorem firsts_eq {count : Nat} {v : List α} (h : count = v.length) : firsts count v = .ok v := by
  have hall := mapM_index (pure : α → Except Panic α) v
  have hpure : v.mapM (pure : α → Except Panic α) = pure (v.map id) := mapM_pure fun _ _ => rfl
  simp only [bind_pure] at hall
  rw [h, firsts, hall, hpure, List.map_id]
  rfl

/-- The own entry apart from the others'. -/
theorem removeAt_eq (d : Nat → α) (h₁ : 1 ≤ me) (hn : me ≤ n) :
    removeAt ((List.range' 1 n).map d) (me - 1) = .ok (d me, (others me n).map d) := by
  have hl : ((List.range' 1 (me - 1)).map d).length = me - 1 := by simp
  rw [range'_split h₁ hn, others_split h₁ hn, List.map_append, List.map_append, List.map_cons,
    removeAt, ← hl]
  simp [List.eraseIdx_append_of_length_le]

end

/-! ## Products of all pairs -/

section

variable {F G : Type} [Field F] {lib : Gg18 F G}

/-- The messages by which each of `m` signers multiplies its factor `b` into the
shares `k` of the others, and the shares of the products: `beta i j` is what signer `i`
keeps, and `alpha i j` what signer `j` takes out. -/
structure Products (signer : Gg18Signer lib) (m : Nat) (partyKeys : Nat → lib.Keys) (k : Nat → F)
    (mA : Nat → signer.MessageA) (b : Nat → F) (seed : Nat → Nat → signer.Seed) where
  mB : Nat → Nat → signer.MessageB
  alpha : Nat → Nat → F
  beta : Nat → Nat → F
  sent : ∀ i j, 1 ≤ j → j ≤ m →
    signer.messageB (b i) (signer.ek (partyKeys j)) (mA j) (seed i j) = .ok (mB i j, beta i j)
  taken : ∀ i j, 1 ≤ j → j ≤ m →
    signer.verifyProofsGetAlpha (mB i j) (signer.dk (partyKeys j)) (k j) = .ok (alpha i j)
  sum : ∀ i j, 1 ≤ j → j ≤ m → alpha i j + beta i j = k j * b i

variable {signer : Gg18Signer lib} {m : Nat} {partyKeys : Nat → lib.Keys} {k b : Nat → F}
  {mA : Nat → signer.MessageA} {seed : Nat → Nat → signer.Seed}

/-- The share of signer `me`, with its own product. -/
def Products.share (products : Products signer m partyKeys k mA b seed) (me : Nat) : F :=
  k me * b me + ((others me m).map fun j => products.alpha j me).sum +
    ((others me m).map fun j => products.beta me j).sum

theorem others_toFinset (me m : Nat) :
    (others me m).toFinset = (List.range' 1 m).toFinset.erase me := by
  ext i
  simp [others, and_comm]

/-- The shares add up to the product of the sums. -/
theorem Products.sum_share (products : Products signer m partyKeys k mA b seed) :
    ((List.range' 1 m).map products.share).sum =
      ((List.range' 1 m).map k).sum * ((List.range' 1 m).map b).sum := by
  have hrange : (List.range' 1 m).Nodup := List.nodup_range'
  have hothers : ∀ me, (others me m).Nodup := fun me => hrange.filter _
  have hproduct : ∀ i ∈ (List.range' 1 m).toFinset, ∀ j ∈ (List.range' 1 m).toFinset, j ≠ i →
      products.alpha j i + products.beta j i = k i * b j := by
    intro i hi j _ _
    have hi := List.mem_range'_1.mp (List.mem_toFinset.mp hi)
    exact products.sum j i hi.1 (by omega)
  rw [← List.sum_toFinset _ hrange, ← List.sum_toFinset _ hrange, ← List.sum_toFinset _ hrange,
    ← sum_products hproduct]
  refine Finset.sum_congr rfl fun i _ => ?_
  rw [share, ← List.sum_toFinset _ (hothers i), ← List.sum_toFinset _ (hothers i), others_toFinset]

variable [AddCommGroup G] [Module F G] {curve : Curve F G}

/-- Messages under the keys of a key generation make such products. -/
theorem exists_products (hsigner : signer.Documented curve) (hm : 1 ≤ m)
    (hcreated : ∀ j, 1 ≤ j → j ≤ m → ∃ i seed, partyKeys j = lib.create i seed) (k b : Nat → F)
    (seedA : Nat → signer.Seed) (seed : Nat → Nat → signer.Seed) :
    Nonempty (Products signer m partyKeys k
      (fun j => signer.messageA (k j) (signer.ek (partyKeys j)) (seedA j)) b seed) := by
  have hmta : ∀ i j, 1 ≤ j → j ≤ m → ∃ mB alpha beta,
      signer.messageB (b i) (signer.ek (partyKeys j))
        (signer.messageA (k j) (signer.ek (partyKeys j)) (seedA j)) (seed i j) = .ok (mB, beta) ∧
      signer.verifyProofsGetAlpha mB (signer.dk (partyKeys j)) (k j) = .ok alpha ∧
      alpha + beta = k j * b i := by
    intro i j h₁ hj
    obtain ⟨_, _, hkeys⟩ := hcreated j h₁ hj
    rw [hkeys]
    obtain ⟨mB, beta, alpha, h⟩ := hsigner.mta _ _ (k j) (b i) (seedA j) (seed i j)
    exact ⟨mB, alpha, beta, h⟩
  have : Nonempty signer.MessageB := ⟨(hmta 1 1 le_rfl hm).choose⟩
  choose! mB alpha beta h using hmta
  exact ⟨⟨mB, alpha, beta, fun i j h₁ hj => (h i j h₁ hj).1, fun i j h₁ hj => (h i j h₁ hj).2.1,
    fun i j h₁ hj => (h i j h₁ hj).2.2⟩⟩

end

/-! ## The loops -/

section

variable {F G : Type} {lib : Gg18 F G} {signer : Gg18Signer lib} {json : SignJson signer}
  {me m : Nat}

/-- Entries of which the own one goes into the first vector only. -/
theorem foldl_collect {α β : Type} (com : Nat → α) (mA : Nat → β) :
    ∀ (l : List Nat) (c : List α × List β),
      l.foldl (fun c i => if i = me then (c.1 ++ [com i], c.2)
        else (c.1 ++ [com i], c.2 ++ [mA i])) c =
        (c.1 ++ l.map com, c.2 ++ (l.filter (· ≠ me)).map mA)
  | [], c => by simp
  | i :: l, c => by
      rw [List.foldl_cons, foldl_collect com mA l]
      by_cases hi : i = me <;> simp [hi]

theorem collectRound1_eq (com : Nat → signer.SignBroadcast) (mA : Nat → signer.MessageA) :
    collectRound1 json me m (com me)
        ((others me m).map fun i => json.round1.encode (com i, mA i)) =
      .ok ((List.range' 1 m).map com, (others me m).map mA) := by
  rw [collectRound1, walk_eq, foldlM_pure, foldl_collect com mA]
  · rfl
  · intro i _ c
    split
    next hi => rw [hi]
    next => rw [Codec.read_encode]; rfl

theorem foldl_messagesB {M : Type} (mB : Nat → M × M) (beta ni : Nat → F) :
    ∀ (l : List Nat) (c : MessagesB F M),
      l.foldl (fun c i => { sendVec := c.sendVec ++ [mB i], betaVec := c.betaVec ++ [beta i],
                            niVec := c.niVec ++ [ni i] }) c =
        { sendVec := c.sendVec ++ l.map mB, betaVec := c.betaVec ++ l.map beta,
          niVec := c.niVec ++ l.map ni }
  | [], c => by simp
  | i :: l, c => by
      rw [List.foldl_cons, foldl_messagesB mB beta ni l]
      simp

theorem multiply_eq {signKeys : signer.SignKeys} {ekVec : List lib.EncryptionKey}
    {signersVec : List Nat} {mA : Nat → signer.MessageA} {draws : SignDraws signer.Seed}
    {mB : Nat → signer.MessageB × signer.MessageB} {beta ni : Nat → F}
    (h : ∀ i ∈ others me m, ∃ s ek, index signersVec (i - 1) = .ok s ∧ index ekVec s = .ok ek ∧
      signer.messageB (signer.gammaI signKeys) ek (mA i) (draws.messageBGamma i) =
        .ok ((mB i).1, beta i) ∧
      signer.messageB (signer.wI signKeys) ek (mA i) (draws.messageBW i) =
        .ok ((mB i).2, ni i)) :
    multiply me m signKeys ekVec signersVec ((others me m).map mA) draws =
      .ok { sendVec := (others me m).map mB, betaVec := (others me m).map beta,
            niVec := (others me m).map ni } := by
  rw [multiply, walk_others, foldl_messagesB mB beta ni]
  · rfl
  · intro i hi c
    obtain ⟨s, ek, hs, hek, hgamma, hw⟩ := h i hi
    rw [hs, except_ok_bind, hek, except_ok_bind, hgamma, except_ok_bind, hw]
    rfl

theorem readMessagesB_eq (h₁ : 1 ≤ me) (hm : me ≤ m)
    (mB : Nat → signer.MessageB × signer.MessageB) :
    readMessagesB json m ((others me m).map fun i => json.round2.encode (mB i)) =
      .ok ((others me m).map mB) := by
  have hlength : m - 1 = ((others me m).map fun i => json.round2.encode (mB i)).length := by
    have := length_others h₁ hm
    rw [List.length_map]
    omega
  rw [readMessagesB, hlength, mapM_index, mapM_read]

theorem foldl_pairs {α β : Type} (a : Nat → α) (b : Nat → β) :
    ∀ (l : List Nat) (c : List α × List β),
      l.foldl (fun c i => (c.1 ++ [a i], c.2 ++ [b i])) c = (c.1 ++ l.map a, c.2 ++ l.map b)
  | [], c => by simp
  | i :: l, c => by
      rw [List.foldl_cons, foldl_pairs a b l]
      simp

theorem takeAlphas_eq [DecidableEq G] {keyFile : KeyFile lib} {signKeys : signer.SignKeys}
    {vssVec : List (Vss G)} {signersVec : List Nat} {mB : Nat → signer.MessageB × signer.MessageB}
    {alpha mu : Nat → F}
    (halpha : ∀ i ∈ others me m, signer.verifyProofsGetAlpha (mB i).1
      (signer.dk keyFile.partyKeys) (signer.kI signKeys) = .ok (alpha i))
    (hmu : ∀ i ∈ others me m, signer.verifyProofsGetAlpha (mB i).2
      (signer.dk keyFile.partyKeys) (signer.kI signKeys) = .ok (mu i))
    (hg : ∀ i ∈ others me m,
      gWI signer vssVec signersVec i = .ok (lib.dlog.pk (signer.bProof (mB i).2))) :
    takeAlphas me m keyFile signKeys vssVec signersVec ((others me m).map mB) =
      .ok ((others me m).map alpha, (others me m).map mu) := by
  rw [takeAlphas, walk_others, foldl_pairs alpha mu]
  · rfl
  · intro i hi c
    simp only [halpha i hi, hmu i hi, hg i hi, except_ok_bind, if_true]
    rfl

end

/-! ## The first rounds -/

section

variable {F G : Type} [Field F] {lib : Gg18 F G} {signer : Gg18Signer lib} {m : Nat}
  {partyKeys : Nat → lib.Keys} {draws : Nat → SignDraws signer.Seed}

/-- The first message of a signer, under its own keys. -/
def ownMessageA (partyKeys : Nat → lib.Keys) (draws : Nat → SignDraws signer.Seed)
    (signKeys : Nat → signer.SignKeys) (k : Nat) : signer.MessageA :=
  signer.messageA (signer.kI (signKeys k)) (signer.ek (partyKeys k)) (draws k).messageA

variable (signer m partyKeys draws) in
/-- The keys of `m` signers for one signature, and the products that they share. -/
structure MtaValues where
  signKeys : Nat → signer.SignKeys
  gamma : Products signer m partyKeys (fun k => signer.kI (signKeys k))
    (ownMessageA partyKeys draws signKeys) (fun k => signer.gammaI (signKeys k))
    fun i j => (draws i).messageBGamma j
  w : Products signer m partyKeys (fun k => signer.kI (signKeys k))
    (ownMessageA partyKeys draws signKeys) (fun k => signer.wI (signKeys k))
    fun i j => (draws i).messageBW j

variable (v : MtaValues signer m partyKeys draws)

/-- The commitment of a signer to its `gamma_i`. -/
def MtaValues.com (k : Nat) : signer.SignBroadcast × signer.SignDecommit :=
  signer.phase1Broadcast (v.signKeys k) (draws k).broadcast

/-- The messages of signer `i` to signer `j`. -/
def MtaValues.mB (i j : Nat) : signer.MessageB × signer.MessageB := (v.gamma.mB i j, v.w.mB i j)

/-- What the first rounds leave at an honest signer. -/
def MtaValues.output (k : Nat) : MtaOutput signer where
  signKeys := v.signKeys k
  bc1Vec := (List.range' 1 m).map fun j => (v.com j).1
  decommit := (v.com k).2
  mBGammaRecVec := (others k m).map fun j => v.gamma.mB j k
  deltaI := v.gamma.share k
  sigma := v.w.share k

omit [Field F] in
theorem sendMessagesB_eq {json : SignJson signer} {me : Nat} {uuid : String}
    (mB : Nat → signer.MessageB × signer.MessageB) :
    sendMessagesB json me m uuid ((others me m).map mB) =
      (List.range' 1 m).foldlM (fun _ i => if i = me then pure ()
        else sendP2p me i round2 (json.round2.encode (mB i)) uuid) () := by
  rw [sendMessagesB, walk_eq]

end

section

variable {F G : Type} [Field F] [AddCommGroup G] [Module F G] [DecidableEq G] {lib : Gg18 F G}
  {signer : Gg18Signer lib} {curve : Curve F G} {json : SignJson signer}
  {draws : Nat → SignDraws signer.Seed} {t n : Nat} {id : Nat → Nat} {file : Nat → KeyFile lib}
  {p : F[X]} {vssVec : List (Vss G)}
  {chainCode f : F} {signAtPath : Bool} {mail : Key → Option String} {rank : Key → Nat}
  {excused : Panic → Prop} {uuid : String}

/-- Honest signers play their part in the first rounds. -/
theorem mtaRounds_plays (hsigner : signer.Documented curve)
    (hold : HoldShares curve t n (t + 1) id file p vssVec chainCode) (hs : Signers t n id)
    (ht₁ : 1 ≤ t) (ht : t < n) (hlt : t + 2 < 2 ^ 16) (hroot : signAtPath = false → f = 0)
    (v : MtaValues signer (t + 1) (fun k => (file k).partyKeys) draws)
    (hkeys : ∀ k, 1 ≤ k → k ≤ t + 1 →
      signKeysAt (file k) (schemesAt curve f signAtPath vssVec) (indices (t + 1) id) k f signAtPath
        (draws k).create = .ok (v.signKeys k) ∧
      signer.wI (v.signKeys k) = weightedShare t id p f k)
    (r₀ : RoundMail mail rank (t + 1) uuid round0 1 fun k => json.partyId.encode (id k))
    (r₁ : RoundMail mail rank (t + 1) uuid round1 2 fun k =>
      json.round1.encode ((v.com k).1, ownMessageA (fun k => (file k).partyKeys) draws v.signKeys k))
    (r₂ : P2pMail mail rank (t + 1) uuid round2 3 fun i j => json.round2.encode (v.mB i j))
    {k : Nat} (h₁ : 1 ≤ k) (hk : k ≤ t + 1) :
    Plays mail rank excused (Owes mail k) 0
      (mtaRounds curve json (file k) k (t + 1) uuid f signAtPath (draws k)) 3 (v.output k) := by
  have hpos := fun k h₁ hk => (hs.bound k h₁ hk).1
  have hlength : (indices (t + 1) id).length =
      ((List.range' 1 (t + 1)).map fun j => (v.com j).1).length := by simp [indices]
  have hcollect : collectRound1 json k (t + 1)
      (signer.phase1Broadcast (v.signKeys k) (draws k).broadcast).1 _ = .ok _ :=
    collectRound1_eq (fun j => (v.com j).1)
      (ownMessageA (fun k => (file k).partyKeys) draws v.signKeys)
  have hmultiply : multiply k (t + 1) (v.signKeys k) (file k).paillierKeyVec (indices (t + 1) id)
      ((others k (t + 1)).map (ownMessageA (fun k => (file k).partyKeys) draws v.signKeys))
      (draws k) =
      .ok { sendVec := (others k (t + 1)).map fun j => v.mB k j,
            betaVec := (others k (t + 1)).map fun j => v.gamma.beta k j,
            niVec := (others k (t + 1)).map fun j => v.w.beta k j } := by
    refine multiply_eq fun j hj => ?_
    have hj := (mem_others.mp hj).1
    obtain ⟨seed, hek⟩ := hold.paillierKeyVec k j h₁ hk hj.1 hj.2
    refine ⟨_, _, index_range' (fun k => id k - 1) hj.1 hj.2, hek, ?_, ?_⟩
    · rw [hsigner.e_phase1Broadcast]
      exact v.gamma.sent k j hj.1 hj.2
    · rw [hsigner.e_phase1Broadcast]
      exact v.w.sent k j hj.1 hj.2
  have htake : takeAlphas k (t + 1) (file k) (v.signKeys k) (schemesAt curve f signAtPath vssVec)
      (indices (t + 1) id) ((others k (t + 1)).map fun j => v.mB j k) =
      .ok ((others k (t + 1)).map fun j => v.gamma.alpha j k,
        (others k (t + 1)).map fun j => v.w.alpha j k) := by
    refine takeAlphas_eq (fun j _ => v.gamma.taken j k h₁ hk) (fun j _ => v.w.taken j k h₁ hk)
      fun j hj => ?_
    have hj := (mem_others.mp hj).1
    rw [hold.gWI_eq hsigner.toWeighs hs ht hroot hj.1 hj.2, ← (hkeys j hj.1 hj.2).2]
    exact congrArg Except.ok (hsigner.pk_bProof _ _ _ _ _ _ (v.w.sent j k h₁ hk)).symm
  unfold mtaRounds
  rw [hold.partyNumInt k h₁ hk]
  refine (r₀.readRound h₁ hk).bind ?_
  rw [collectSigners_eq json hpos h₁ hk, lift_ok, pure_bind, hold.vssAt_eq ht ht₁ h₁ hk, lift_ok,
    pure_bind, (hkeys k h₁ hk).1, lift_ok, pure_bind]
  refine (r₁.readRound h₁ hk).bind ?_
  rw [Eddsa.nextIndex, if_pos hlt, lift_ok, pure_bind, hcollect, lift_ok, pure_bind,
    if_neg (not_not.mpr hlength), hmultiply, lift_ok, pure_bind, sendMessagesB_eq]
  refine (r₂.sendAndPoll h₁ hk (fun j hj => r₂.sendP2p h₁ hk hj) fun _ _ _ => .here).bind₂ ?_
  rw [readMessagesB_eq h₁ hk fun j => v.mB j k, lift_ok, pure_bind, htake, lift_ok, pure_bind,
    hsigner.phase2DeltaI _ _ _ (by simp), hsigner.phase2SigmaI _ _ _ (by simp), List.map_map]
  exact .pure

end

end Ecdsa

end TssCli
