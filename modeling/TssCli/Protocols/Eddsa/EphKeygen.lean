import TssCli.Protocols.Eddsa.Keygen

/-!
# The ephemeral key generation

`eph_keygen_t_n_parties`, in which the signers deal the nonce of a signature
among themselves.  It is a key generation in four rounds: the signers send
commitment, blinding factor and nonce point at once, then the commitments of the
dealing, the encrypted shares, and the shared keys that result.

A signer is numbered by its place in the room, but its evaluation point is its
number in the key generation.  The keys for the third round are in a map from
the evaluation points.
-/

namespace TssCli

open Mailbox Mailbox.Script Polynomial Sharing

/-! ## The library -/

/-- `Signature`. -/
structure Signature (F G : Type) where
  R : G
  s : F

/-- The part of `thresholdsig` that signs.  A call that answers with a `Result`
stands for the call and the `expect` of its answer. -/
structure ThresholdSigner {F G : Type} (lib : ThresholdSig F G) where
  EphemeralKey : Type
  EphemeralSharedKeys : Type
  LocalSig : Type
  /-- What a call draws at random. -/
  Seed : Type
  /-- `shared_keys.y = ..`. -/
  setY : lib.SharedKeys → G → lib.SharedKeys
  rI : EphemeralKey → F
  RI : EphemeralKey → G
  /-- The field `R` of the shared keys. -/
  sharedR : EphemeralSharedKeys → G
  /-- The field `r_i` of the shared keys. -/
  sharedRI : EphemeralSharedKeys → F
  gammaI : LocalSig → F
  k : LocalSig → F
  /-- `ephermeral_key_create_from_deterministic_secret`. -/
  create : lib.Keys → List UInt8 → Nat → Seed → EphemeralKey
  phase1Broadcast : EphemeralKey → Seed → lib.Broadcast × Nat
  /-- `phase1_verify_com_phase2_distribute`. -/
  distribute : EphemeralKey → Parameters → List Nat → List G → List lib.Broadcast → List Nat →
    Seed → Except Panic (Vss G × List F)
  /-- `phase2_verify_vss_construct_keypair`. -/
  construct : EphemeralKey → Parameters → List G → List F → List (Vss G) → Nat →
    Except Panic EphemeralSharedKeys
  /-- `LocalSig::compute`. -/
  compute : List UInt8 → EphemeralSharedKeys → lib.SharedKeys → LocalSig
  /-- `LocalSig::verify_local_sigs`. -/
  verifyLocalSigs : List LocalSig → List Nat → List (Vss G) → List (Vss G) → Option (Vss G)
  generate : Vss G → List LocalSig → List Nat → G → Signature F G
  /-- `Signature::verify(..).is_ok()`. -/
  verify : Signature F G → List UInt8 → G → Bool

/-- What the documentation says of the dealing of a nonce among honest signers. -/
structure ThresholdSigner.DealsNonces {F G : Type} [Field F] [AddCommGroup G] [Module F G] (g : G)
    {lib : ThresholdSig F G} (signer : ThresholdSigner lib) : Prop where
  rI_ne_zero : ∀ keys message i seed, signer.rI (signer.create keys message i seed) ≠ 0
  RI : ∀ keys message i seed, signer.RI (signer.create keys message i seed) =
    signer.rI (signer.create keys message i seed) • g
  /-- Commitments that open are accepted, and the nonce is dealt to the given
  points. -/
  distribute : ∀ key (params : Parameters) (messages : List (lib.Broadcast × Nat × G))
      (parties : List Nat) seed,
    params.threshold < params.shareCount → messages.length = params.shareCount →
    parties.length = params.shareCount →
    (∀ m ∈ messages, ∃ key seed, m = ((signer.phase1Broadcast key seed).1,
      (signer.phase1Broadcast key seed).2, signer.RI key)) →
    ∃ vss shares p,
      signer.distribute key params (messages.map fun m => m.2.1) (messages.map fun m => m.2.2)
        (messages.map fun m => m.1) parties seed = .ok (vss, shares) ∧
      Deals g params.threshold params.shareCount (signer.rI key) parties vss shares p
  /-- Valid shares are accepted and add up to the share of the sum. -/
  construct : ∀ key (params : Parameters) (dealings : List (G × F × Vss G)) index,
    dealings.length = params.shareCount →
    (∀ d ∈ dealings, ValidShare g d.2.2 index d.1 d.2.1) →
    ∃ shared,
      signer.construct key params (dealings.map fun d => d.1) (dealings.map fun d => d.2.1)
        (dealings.map fun d => d.2.2) index = .ok shared ∧
      signer.sharedR shared = (dealings.map fun d => d.1).sum ∧
      signer.sharedRI shared = (dealings.map fun d => d.2.1).sum

namespace Eddsa

/-! ## The code -/

def ephKeygenRound1 : Round := .ofName "eph_keygen_round1" (by decide)

def ephKeygenRound2 : Round := .ofName "eph_keygen_round2" (by decide)

def ephKeygenRound3 : Round := .ofName "eph_keygen_round3" (by decide)

def ephKeygenRound4 : Round := .ofName "eph_keygen_round4" (by decide)

/-- The vectors and the map that are built from the first round. -/
structure EphCollected (G Bc : Type) where
  bc1Vec : List Bc
  blindVec : List Nat
  RVec : List G
  encKeys : Nat → Option (List UInt8)

/-- What a signer draws at random for the ephemeral key. -/
structure EphDraws (Seed : Type) where
  create : Seed
  broadcast : Seed
  distribute : Seed
  /-- The nonce of the share for each other signer. -/
  nonce : Nat → Nonce

/-- `i + 1` on `u16`. -/
def nextIndex (i : Nat) : Except Panic Nat :=
  if i + 1 < 2 ^ 16 then .ok (i + 1) else .error .overflow

/-- `iter.next().unwrap()`, and a `fold` of the rest from it. -/
def sumIter {α : Type} [Add α] : List α → Except Panic α
  | [] => .error .unwrapNone
  | head :: tail => .ok (tail.foldl (· + ·) head)

section

variable {F G : Type} (curve : Curve F G) (aes : AesGcm)

section

variable {Bc : Type} (roundJson : Codec (Bc × Nat × G)) (packJson : Codec AeadPack)
  (partyNumInt n : Nat) (parties : List Nat)

/-- The loop over the answers of the first round. -/
def collectEph [SMul F G] (bcI : Bc) (blind : Nat) (RI : G) (rI : F) (answers : List String) :
    Except Panic (EphCollected G Bc) :=
  walk answers partyNumInt n
    (fun c _ => pure
      { c with
        bc1Vec := c.bc1Vec ++ [bcI]
        blindVec := c.blindVec ++ [blind]
        RVec := c.RVec ++ [RI] })
    (fun c i text => do
      let answer ← roundJson.read text
      let keyBn ← sharedX curve answer.2.2 rI
      let template ← padKey (toBytes keyBn)
      let index ← index parties (i - 1)
      return { bc1Vec := c.bc1Vec ++ [answer.1],
               blindVec := c.blindVec ++ [answer.2.1],
               RVec := c.RVec ++ [answer.2.2],
               encKeys := Function.update c.encKeys index (some template) })
    { bc1Vec := [], blindVec := [], RVec := [], encKeys := fun _ => none }

/-- `enc_keys.get(&parties[i - 1]).unwrap()`. -/
def ephKeyOf (encKeys : Nat → Option (List UInt8)) (i : Nat) : Except Panic (List UInt8) := do
  let index ← index parties (i - 1)
  match encKeys index with
  | some key => .ok key
  | none => .error .unwrapNone

/-- The loop that sends the shares. -/
def sendEphShares (round : Round) (uuid : String) (encKeys : Nat → Option (List UInt8))
    (secretShares : List F) (nonce : Nat → Nonce) : Client Unit :=
  (List.range' 1 n).foldlM
    (fun _ i => if i = partyNumInt then pure () else do
      let key ← ephKeyOf parties encKeys i
      let share ← index secretShares (i - 1)
      sendShare curve aes packJson partyNumInt i round uuid key share (nonce i))
    ()

/-- The loop that reads the shares. -/
def readEphShares (encKeys : Nat → Option (List UInt8)) (secretShares : List F)
    (answers : List String) : Except Panic (List F) :=
  walk answers partyNumInt n
    (fun v i => do return v ++ [← index secretShares (i - 1)])
    (fun v i text => do
      let key ← ephKeyOf parties encKeys i
      return v ++ [← openShare curve aes packJson key text])
    []

end

/-- The JSON of the messages. -/
structure EphJson {lib : ThresholdSig F G} (signer : ThresholdSigner lib) where
  round1 : Codec (lib.Broadcast × Nat × G)
  vss : Codec (Vss G)
  pack : Codec AeadPack
  shared : Codec signer.EphemeralSharedKeys

/-- What the ephemeral key generation returns. -/
structure EphKeygen {lib : ThresholdSig F G} (signer : ThresholdSigner lib) where
  ephKey : signer.EphemeralKey
  sharedKeysVec : List signer.EphemeralSharedKeys
  RSum : G
  vssSchemeVec : List (Vss G)

variable {lib : ThresholdSig F G} {signer : ThresholdSigner lib}

/-- `eph_keygen_t_n_parties`. -/
def ephKeygen [SMul F G] [Add G] (json : EphJson signer) (uuid : String)
    (t n partyNumInt : Nat) (keyI : lib.Keys) (message : List UInt8) (parties : List Nat)
    (draws : EphDraws signer.Seed) : Client (EphKeygen signer) := do
  let parties ← (parties.mapM nextIndex : Except Panic (List Nat))
  if ¬ (t < parties.length ∧ parties.length ≤ n) then .fail .assertFailed else
  let thisPartyIndex ← index parties (partyNumInt - 1)
  let ephPartyKey := signer.create keyI message thisPartyIndex draws.create
  let bc := signer.phase1Broadcast ephPartyKey draws.broadcast
  -- Commitments with their openings, and the keys for the shares.
  let round1AnsVec ← readRound partyNumInt n uuid ephKeygenRound1
    (json.round1.encode (bc.1, bc.2, signer.RI ephPartyKey))
  let c ← collectEph curve json.round1 partyNumInt n parties bc.1 bc.2 (signer.RI ephPartyKey)
    (signer.rI ephPartyKey) round1AnsVec
  let RSum ← sumIter c.RVec
  let dealt ← signer.distribute ephPartyKey ⟨t, n⟩ c.blindVec c.RVec c.bc1Vec parties
    draws.distribute
  -- The commitments of the dealings.
  let round2AnsVec ← readRound partyNumInt n uuid ephKeygenRound2 (json.vss.encode dealt.1)
  let vssSchemeVec ← rebuild json.vss partyNumInt n dealt.1 round2AnsVec
  -- The shares.
  sendEphShares curve aes json.pack partyNumInt n parties ephKeygenRound3 uuid c.encKeys dealt.2
    draws.nonce
  let round3AnsVec ← pollForP2p partyNumInt n ephKeygenRound3 uuid
  let partyShares ← readEphShares curve aes json.pack partyNumInt n parties c.encKeys dealt.2
    round3AnsVec
  let ephSharedKey ← signer.construct ephPartyKey ⟨t, n⟩ c.RVec partyShares vssSchemeVec
    thisPartyIndex
  -- The shared keys.
  let round4AnsVec ← readRound partyNumInt n uuid ephKeygenRound4 (json.shared.encode ephSharedKey)
  let sharedKeysVec ← rebuild json.shared partyNumInt n ephSharedKey round4AnsVec
  return { ephKey := ephPartyKey, sharedKeysVec, RSum, vssSchemeVec }

end

/-! ## The map of the keys -/

section

variable {F G : Type} {curve : Curve F G} {aes : AesGcm} {packJson : Codec AeadPack}
  {me n : Nat} {id : Nat → Nat} {key : Nat → List UInt8}

/-- The map after the keys of the others among `l` are inserted. -/
def insertKeys (me : Nat) (id : Nat → Nat) (key : Nat → List UInt8) (l : List Nat)
    (encKeys : Nat → Option (List UInt8)) : Nat → Option (List UInt8) :=
  l.foldl (fun m j => if j = me then m else Function.update m (id j) (some (key j))) encKeys

/-- With different evaluation points no key is lost. -/
theorem insertKeys_apply {i : Nat} (hne : i ≠ me) :
    ∀ {l : List Nat} {m : Nat → Option (List UInt8)}, (∀ j ∈ l, id j = id i → j = i) →
      m (id i) = some (key i) ∨ i ∈ l → insertKeys me id key l m (id i) = some (key i)
  | [], m, _, h => h.resolve_right List.not_mem_nil
  | j :: l, m, hid, h => by
      rw [insertKeys, List.foldl_cons]
      refine insertKeys_apply hne (fun j' hj' => hid j' (List.mem_cons_of_mem _ hj')) ?_
      by_cases hj : j = i
      · rw [hj, if_neg hne, Function.update_self]
        exact Or.inl rfl
      · rcases h with h | h
        · left
          split
          next => exact h
          next =>
            rwa [Function.update_of_ne fun he => hj (hid j (List.mem_cons_self ..) he.symm)]
        · exact Or.inr ((List.mem_cons.mp h).resolve_left (Ne.symm hj))

/-- The key of another signer is found under its evaluation point. -/
theorem ephKeyOf_eq (key : Nat → List UInt8) (hid : Set.InjOn id (Set.Icc 1 n)) {i : Nat}
    (hi : i ∈ others me n) :
    ephKeyOf ((List.range' 1 n).map id)
      (insertKeys me id key (List.range' 1 n) fun _ => none) i = .ok (key i) := by
  obtain ⟨⟨h₁, hn⟩, hne⟩ := mem_others.mp hi
  have hmem : i ∈ List.range' 1 n := List.mem_range'_1.mpr ⟨h₁, by omega⟩
  have hlookup : insertKeys me id key (List.range' 1 n) (fun _ => none) (id i) = some (key i) := by
    refine insertKeys_apply hne (fun j hj he => ?_) (Or.inr hmem)
    have hj := List.mem_range'_1.mp hj
    exact hid ⟨hj.1, by omega⟩ ⟨h₁, hn⟩ he
  rw [ephKeyOf, index_range' id h₁ hn, except_ok_bind, hlookup]

variable {Bc : Type} {roundJson : Codec (Bc × Nat × G)} {rI : F}

/-- The vectors of the first round are in the order of the numbers. -/
theorem collectEph_eq [SMul F G] (bc : Nat → Bc) (blind : Nat → Nat) (RI : Nat → G)
    (hkey : ∀ i ∈ others me n, ∃ x, sharedX curve (RI i) rI = .ok x ∧
      padKey (toBytes x) = .ok (key i)) :
    collectEph curve roundJson me n ((List.range' 1 n).map id) (bc me) (blind me) (RI me) rI
        ((others me n).map fun i => roundJson.encode (bc i, blind i, RI i)) =
      .ok { bc1Vec := (List.range' 1 n).map bc, blindVec := (List.range' 1 n).map blind,
            RVec := (List.range' 1 n).map RI,
            encKeys := insertKeys me id key (List.range' 1 n) fun _ => none } := by
  have loop : ∀ (l : List Nat) (c : EphCollected G Bc), (∀ i ∈ l, i ∈ List.range' 1 n) →
      l.foldlM (fun c i => if i = me then pure
          { c with
            bc1Vec := c.bc1Vec ++ [bc me]
            blindVec := c.blindVec ++ [blind me]
            RVec := c.RVec ++ [RI me] }
        else do
          let answer ← roundJson.read (roundJson.encode (bc i, blind i, RI i))
          let keyBn ← sharedX curve answer.2.2 rI
          let template ← padKey (toBytes keyBn)
          let index ← index ((List.range' 1 n).map id) (i - 1)
          return { bc1Vec := c.bc1Vec ++ [answer.1],
                   blindVec := c.blindVec ++ [answer.2.1],
                   RVec := c.RVec ++ [answer.2.2],
                   encKeys := Function.update c.encKeys index (some template) }) c =
        (.ok { bc1Vec := c.bc1Vec ++ l.map bc, blindVec := c.blindVec ++ l.map blind,
               RVec := c.RVec ++ l.map RI, encKeys := insertKeys me id key l c.encKeys } :
          Except Panic (EphCollected G Bc)) := by
    intro l
    induction l with
    | nil => intro c _; simp [insertKeys]; rfl
    | cons i l ih =>
        intro c hl
        have htail : ∀ j ∈ l, j ∈ List.range' 1 n := fun j hj => hl j (List.mem_cons_of_mem _ hj)
        rw [List.foldlM_cons]
        by_cases hi : i = me
        · rw [if_pos hi, pure_bind, ih _ htail]
          simp [hi, insertKeys]
        · have hrange := hl i (List.mem_cons_self ..)
          have hmem : i ∈ others me n := List.mem_filter.mpr ⟨hrange, decide_eq_true hi⟩
          obtain ⟨⟨h₁, hn⟩, _⟩ := mem_others.mp hmem
          obtain ⟨x, hx, hpad⟩ := hkey i hmem
          rw [if_neg hi, Codec.read_encode, except_ok_bind, hx, except_ok_bind, hpad,
            except_ok_bind, index_range' id h₁ hn, except_ok_bind, pure_bind, ih _ htail]
          simp [hi, insertKeys]
  rw [collectEph, walk_eq]
  exact loop _ _ fun _ hi => hi

variable {round : Round} {uuid : String} {share : Nat → F} {nonce : Nat → Nonce}
  {encKeys : Nat → Option (List UInt8)} {parties : List Nat}

theorem sendEphShares_eq (hkeys : ∀ i ∈ others me n, ephKeyOf parties encKeys i = .ok (key i)) :
    sendEphShares curve aes packJson me n parties round uuid encKeys
        ((List.range' 1 n).map share) nonce =
      (List.range' 1 n).foldlM (fun _ i => if i = me then pure () else
        sendShare curve aes packJson me i round uuid (key i) (share i) (nonce i)) () := by
  refine foldlM_congr fun i hi _ => ?_
  split
  next => rfl
  next hne =>
    have hmem : i ∈ others me n := List.mem_filter.mpr ⟨hi, decide_eq_true hne⟩
    obtain ⟨⟨h₁, hn⟩, _⟩ := mem_others.mp hmem
    rw [hkeys i hmem, index_range' share h₁ hn]
    rfl

theorem readEphShares_eq {text : Nat → String}
    (hkeys : ∀ i ∈ others me n, ephKeyOf parties encKeys i = .ok (key i)) (h₁ : 1 ≤ me)
    (hn : me ≤ n) :
    readEphShares curve aes packJson me n parties encKeys ((List.range' 1 n).map share)
        ((others me n).map text) =
      (List.range' 1 n).foldlM (fun v i => do
        return v ++ [← openedShare curve aes packJson me (share me) (key i) (text i) i]) [] := by
  rw [readEphShares, walk_eq]
  refine foldlM_congr fun i hi v => ?_
  by_cases hme : i = me
  · rw [if_pos hme, openedShare, if_pos hme, hme, index_range' share h₁ hn]
  · have hmem : i ∈ others me n := List.mem_filter.mpr ⟨hi, decide_eq_true hme⟩
    rw [if_neg hme, openedShare, if_neg hme, hkeys i hmem, except_ok_bind]

end

/-! ## Honest signers -/

section

variable {F G : Type} [Field F] [AddCommGroup G] [Module F G] {lib : ThresholdSig F G}
  (signer : ThresholdSigner lib) (keys : Nat → lib.Keys) (message : List UInt8) (id : Nat → Nat)
  (draws : Nat → EphDraws signer.Seed)

/-- The ephemeral key of a signer. -/
def ephKeyAt (i : Nat) : signer.EphemeralKey :=
  signer.create (keys i) message (id i) (draws i).create

/-- The commitment of a signer to its nonce point, and the blinding factor. -/
def ephBroadcastAt (i : Nat) : lib.Broadcast × Nat :=
  signer.phase1Broadcast (ephKeyAt signer keys message id draws i) (draws i).broadcast

/-- The values of an honest ephemeral key generation, signer by signer. -/
structure EphValues where
  /-- The key of the first signer for the second. -/
  encKey : Nat → Nat → List UInt8
  poly : Nat → F[X]
  vss : Nat → Vss G
  shared : Nat → signer.EphemeralSharedKeys

variable {signer}

/-- What the library returns to honest signers. -/
structure HonestEph (curve : Curve F G) (t n : Nat) (v : EphValues signer) : Prop where
  RI : ∀ i, signer.RI (ephKeyAt signer keys message id draws i) =
    signer.rI (ephKeyAt signer keys message id draws i) • curve.generator
  encKey : ∀ i j, ∃ x, sharedX curve (signer.RI (ephKeyAt signer keys message id draws j))
    (signer.rI (ephKeyAt signer keys message id draws i)) = .ok x ∧
      padKey (toBytes x) = .ok (v.encKey i j)
  encKey_comm : ∀ i j, v.encKey i j = v.encKey j i
  keyLength : ∀ i j, (v.encKey i j).length = 32
  deals : ∀ i, Deals curve.generator t n (signer.rI (ephKeyAt signer keys message id draws i))
    ((List.range' 1 n).map id) (v.vss i)
    ((List.range' 1 n).map fun j => (v.poly i).eval (id j : F)) (v.poly i)
  distribute : ∀ i,
    signer.distribute (ephKeyAt signer keys message id draws i) ⟨t, n⟩
      ((List.range' 1 n).map fun j => (ephBroadcastAt signer keys message id draws j).2)
      ((List.range' 1 n).map fun j => signer.RI (ephKeyAt signer keys message id draws j))
      ((List.range' 1 n).map fun j => (ephBroadcastAt signer keys message id draws j).1)
      ((List.range' 1 n).map id) (draws i).distribute =
    .ok (v.vss i, (List.range' 1 n).map fun j => (v.poly i).eval (id j : F))
  construct : ∀ i,
    signer.construct (ephKeyAt signer keys message id draws i) ⟨t, n⟩
      ((List.range' 1 n).map fun j => signer.RI (ephKeyAt signer keys message id draws j))
      ((List.range' 1 n).map fun j => (v.poly j).eval (id i : F)) ((List.range' 1 n).map v.vss)
      (id i) = .ok (v.shared i)
  sharedR : ∀ i, signer.sharedR (v.shared i) =
    ((List.range' 1 n).map fun j => signer.RI (ephKeyAt signer keys message id draws j)).sum
  sharedRI : ∀ i, signer.sharedRI (v.shared i) =
    ((List.range' 1 n).map fun j => (v.poly j).eval (id i : F)).sum

/-- The texts of an honest ephemeral key generation. -/
def ephTexts (curve : Curve F G) (aes : AesGcm) (json : EphJson signer) (v : EphValues signer) :
    List (Round × RoundTexts) :=
  [(ephKeygenRound1, .toAll fun i => json.round1.encode
      ((ephBroadcastAt signer keys message id draws i).1,
        (ephBroadcastAt signer keys message id draws i).2,
        signer.RI (ephKeyAt signer keys message id draws i))),
   (ephKeygenRound2, .toAll fun i => json.vss.encode (v.vss i)),
   (ephKeygenRound3, .toOne fun i j => packetText curve aes json.pack (v.encKey i j)
      ((v.poly i).eval (id j : F)) ((draws i).nonce j)),
   (ephKeygenRound4, .toAll fun i => json.shared.encode (v.shared i))]

variable {keys message id draws} {curve : Curve F G} {aes : AesGcm} {json : EphJson signer}
  {t n me : Nat}

/-- Honest signers deal by polynomials, and each gets the sum of its shares. -/
theorem exists_honestEph (keys : Nat → lib.Keys) (message : List UInt8) (id : Nat → Nat)
    (draws : Nat → EphDraws signer.Seed) (hcurve : curve.Documented)
    (hsigner : signer.DealsNonces curve.generator) (ht : t < n) :
    ∃ v : EphValues signer, HonestEph keys message id draws curve t n v := by
  let key := ephKeyAt signer keys message id draws
  let r : Nat → F := fun i => signer.rI (key i)
  have hr : ∀ i, r i ≠ 0 := fun i => hsigner.rI_ne_zero _ _ _ _
  have hR : ∀ i, signer.RI (key i) = r i • curve.generator := fun i => hsigner.RI _ _ _ _
  have hdistribute := fun i => hsigner.distribute (key i) ⟨t, n⟩
    ((List.range' 1 n).map fun j => ((signer.phase1Broadcast (key j) (draws j).broadcast).1,
      (signer.phase1Broadcast (key j) (draws j).broadcast).2, signer.RI (key j)))
    ((List.range' 1 n).map id) (draws i).distribute ht (by simp) (by simp) (by
      intro m hm
      obtain ⟨j, _, rfl⟩ := List.mem_map.mp hm
      exact ⟨_, _, rfl⟩)
  choose vss shares p hdealt hdeals using hdistribute
  have hconstruct := fun i => hsigner.construct (key i) ⟨t, n⟩
    ((List.range' 1 n).map fun j => (r j • curve.generator, (p j).eval (id i : F), vss j)) (id i)
    (by simp) (by
      intro d hd
      obtain ⟨j, _, rfl⟩ := List.mem_map.mp hd
      exact (hdeals j).validShare (id i))
  choose shared hshared hsharedR hsharedRI using hconstruct
  obtain ⟨encKey, hencKey, hcomm, hlength⟩ := exists_paddedKey hcurve hr
  have hshares : ∀ i, shares i = (List.range' 1 n).map fun j => (p i).eval (id j : F) := by
    intro i
    rw [(hdeals i).shares, List.map_map]
    rfl
  refine ⟨⟨encKey, p, vss, shared⟩, hR, fun i j => ?_, hcomm, hlength, fun i => ?_,
    fun i => ?_, fun i => ?_, fun i => ?_, fun i => ?_⟩
  · refine ⟨_, ?_, hencKey i j⟩
    rw [show signer.RI _ = _ from hR j]
    exact (sharedX_eq hcurve (hr i) (hr j)).1
  · rw [← hshares i]
    exact hdeals i
  · have := hdealt i
    rw [List.map_map, List.map_map, List.map_map, hshares i] at this
    exact this
  · have := hshared i
    rw [List.map_map, List.map_map, List.map_map] at this
    simp only [show ∀ j, signer.RI (ephKeyAt signer keys message id draws j) = _ from hR]
    exact this
  · rw [hsharedR i, List.map_map]
    simp only [show ∀ j, signer.RI (ephKeyAt signer keys message id draws j) = _ from hR]
    rfl
  · rw [hsharedRI i, List.map_map]
    rfl

/-- The points of the signers. -/
theorem mapM_nextIndex (hbound : ∀ i, 1 ≤ i → i ≤ n → 1 ≤ id i ∧ id i < 2 ^ 16) :
    ((List.range' 1 n).map fun i => id i - 1).mapM nextIndex = .ok ((List.range' 1 n).map id) := by
  rw [List.mapM_map]
  refine mapM_pure fun i hi => ?_
  have hi := List.mem_range'_1.mp hi
  obtain ⟨hid₁, hid₂⟩ := hbound i hi.1 (by omega)
  rw [Function.comp_apply, nextIndex, Nat.sub_add_cancel hid₁, if_pos hid₂]
  rfl

/-- A signer with the points of `k` signers opens its commitment before it reads
anything. -/
theorem ephKeygen_eq {k : Nat} (hbound : ∀ i, 1 ≤ i → i ≤ k → 1 ≤ id i ∧ id i < 2 ^ 16) (ht : t < k)
    (hk : k ≤ n) (h₁ : 1 ≤ me) (hme : me ≤ k) (uuid : String) (keyI : lib.Keys)
    (message : List UInt8) (draws : EphDraws signer.Seed) :
    let key := signer.create keyI message (id me) draws.create
    let bc := signer.phase1Broadcast key draws.broadcast
    ∃ rest, ephKeygen curve aes json uuid t n me keyI message
        ((List.range' 1 k).map fun i => id i - 1) draws =
      readRound me n uuid ephKeygenRound1 (json.round1.encode (bc.1, bc.2, signer.RI key)) >>=
        rest := by
  have hassert : ¬ ¬ (t < ((List.range' 1 k).map id).length ∧
      ((List.range' 1 k).map id).length ≤ n) := by
    simp [ht, hk]
  unfold ephKeygen
  rw [mapM_nextIndex hbound, lift_ok, pure_bind, if_neg hassert, index_range' id h₁ hme, lift_ok,
    pure_bind]
  exact ⟨_, rfl⟩

theorem sumIter_eq {α : Type} [AddMonoid α] {l : List α} (h : l ≠ []) :
    sumIter l = .ok l.sum := by
  cases l with
  | nil => exact absurd rfl h
  | cons head tail => rw [sumIter, foldl_add, List.sum_cons]

/-- What the ephemeral key generation comes to at an honest signer. -/
def ephOutput (keys : Nat → lib.Keys) (message : List UInt8) (id : Nat → Nat)
    (draws : Nat → EphDraws signer.Seed) (v : EphValues signer) (n me : Nat) :
    EphKeygen signer where
  ephKey := ephKeyAt signer keys message id draws me
  sharedKeysVec := (List.range' 1 n).map v.shared
  RSum := ((List.range' 1 n).map fun i => signer.RI (ephKeyAt signer keys message id draws i)).sum
  vssSchemeVec := (List.range' 1 n).map v.vss

/-- Honest signers play their part, wherever the rounds stand in the schedule. -/
theorem ephKeygen_plays (hcurve : curve.Documented) (haes : aes.Documented) {v : EphValues signer}
    (h : HonestEph keys message id draws curve t n v) {excused : Panic → Prop} {s : Schedule}
    {m : Nat} (hparties : s.parties = n)
    (hrounds : ∀ k e, (ephTexts keys message id draws curve aes json v)[k]? = some e →
      s.rounds[m + k]? = some e)
    (hid : Set.InjOn id (Set.Icc 1 n)) (hbound : ∀ i, 1 ≤ i → i ≤ n → 1 ≤ id i ∧ id i < 2 ^ 16)
    (ht : t < n) (h₁ : 1 ≤ me) (hn : me ≤ n) :
    Plays s.mail s.rank excused (Owes s.mail me) m
      (ephKeygen curve aes json s.uuid t n me (keys me) message
        ((List.range' 1 n).map fun i => id i - 1) (draws me))
      (m + 4) (ephOutput keys message id draws v n me) := by
  subst hparties
  have r₁ := s.toAll (hrounds 0 _ rfl)
  have r₂ := s.toAll (hrounds 1 _ rfl)
  have r₃ := s.toOne (hrounds 2 _ rfl)
  have r₄ := s.toAll (hrounds 3 _ rfl)
  have hpoints := mapM_nextIndex hbound
  have hsum : sumIter ((List.range' 1 s.parties).map fun i =>
      signer.RI (ephKeyAt signer keys message id draws i)) = .ok _ := sumIter_eq (by
    rw [Ne, List.map_eq_nil_iff, List.range'_eq_nil_iff]
    omega)
  have hkeys := fun i (hi : i ∈ others me s.parties) => ephKeyOf_eq (v.encKey me) hid hi
  unfold ephKeygen
  rw [hpoints, lift_ok, pure_bind, if_neg (by simpa using ht), index_range' id h₁ hn, lift_ok,
    pure_bind]
  refine (r₁.readRound h₁ hn).bind ?_
  rw [show signer.create (keys me) message (id me) (draws me).create =
    ephKeyAt signer keys message id draws me from rfl]
  rw [show signer.phase1Broadcast (ephKeyAt signer keys message id draws me) (draws me).broadcast =
    ephBroadcastAt signer keys message id draws me from rfl]
  rw [collectEph_eq (fun i => (ephBroadcastAt signer keys message id draws i).1)
    (fun i => (ephBroadcastAt signer keys message id draws i).2)
    (fun i => signer.RI (ephKeyAt signer keys message id draws i)) fun i _ => h.encKey me i,
    lift_ok, pure_bind, hsum, lift_ok, pure_bind, h.distribute me, lift_ok, pure_bind]
  refine (r₂.readRound h₁ hn).bind ?_
  rw [rebuild_eq v.vss, lift_ok, pure_bind, sendEphShares_eq hkeys]
  refine (sendLoop_plays hcurve haes r₃ h₁ hn (fun _ _ => rfl)
    (fun i _ => Or.inl (h.keyLength me i))).bind₂ ?_
  rw [readEphShares_eq hkeys h₁ hn]
  refine (readLoop_tracks (fun i => (v.poly i).eval (id me : F)) (fun i => (draws i).nonce me)
    hcurve haes (fun i _ => ?_)
    (fun i _ => Or.inl (h.keyLength me i))).plays.bind ?_
  · rw [h.encKey_comm me i]
  have hshares : (List.range' 1 s.parties).map (fun i =>
      if i = me then (v.poly me).eval (id me : F) else (v.poly i).eval (id me : F)) =
      (List.range' 1 s.parties).map fun i => (v.poly i).eval (id me : F) :=
    List.map_congr_left fun i _ => ite_eq_right_iff.mpr fun hi => by rw [hi]
  rw [hshares, h.construct me, lift_ok, pure_bind]
  refine (r₄.readRound h₁ hn).bind ?_
  rw [rebuild_eq v.shared]
  exact .pure

end

end Eddsa

end TssCli
