import TssCli.Protocols.Keygen

/-!
# The EdDSA key generation

`run_keygen` after its sign-up, with the number and the UUID that the manager
gave.  It keeps the key for another party as bytes, padded to 32.
-/

namespace TssCli

open Mailbox Mailbox.Script Polynomial Sharing

/-! ## The library -/

/-- `thresholdsig`.  A call that answers with a `Result` stands for the call and
the `expect` of its answer. -/
structure ThresholdSig (F G : Type) where
  Keys : Type
  /-- `KeyGenBroadcastMessage1`. -/
  Broadcast : Type
  /-- `KeyGenDecommitMessage1`. -/
  Decommit : Type
  SharedKeys : Type
  /-- What a call draws at random. -/
  Seed : Type
  dlog : DLog F G
  /-- `keypair.expanded_private_key.private_key`. -/
  privateKey : Keys → F
  blindFactor : Decommit → Nat
  yI : Decommit → G
  y : SharedKeys → G
  xI : SharedKeys → F
  /-- `phase1_create`. -/
  create : Nat → Seed → Keys
  phase1Broadcast : Keys → Seed → Broadcast × Decommit
  /-- `phase1_verify_com_phase2_distribute`. -/
  distribute : Keys → Parameters → List Nat → List G → List Broadcast → List Nat → Seed →
    Except Panic (Vss G × List F)
  /-- `phase2_verify_vss_construct_keypair`. -/
  construct : Keys → Parameters → List G → List F → List (Vss G) → Nat → Except Panic SharedKeys

/-- What the documentation says of honest messages. -/
structure ThresholdSig.Documented {F G : Type} [Field F] [AddCommGroup G] [Module F G] (g : G)
    (lib : ThresholdSig F G) : Prop where
  dlog : lib.dlog.Documented g
  privateKey_ne_zero : ∀ i seed, lib.privateKey (lib.create i seed) ≠ 0
  yI : ∀ keys seed, lib.yI (lib.phase1Broadcast keys seed).2 = lib.privateKey keys • g
  /-- Commitments that open are accepted, and the secret is dealt to the given
  points. -/
  distribute : ∀ keys (params : Parameters) (messages : List (lib.Broadcast × lib.Decommit))
      (parties : List Nat) seed,
    params.threshold < params.shareCount → messages.length = params.shareCount →
    parties.length = params.shareCount →
    (∀ m ∈ messages, ∃ keys seed, m = lib.phase1Broadcast keys seed) →
    ∃ vss shares p,
      lib.distribute keys params (messages.map fun m => lib.blindFactor m.2)
        (messages.map fun m => lib.yI m.2) (messages.map Prod.fst) parties seed =
        .ok (vss, shares) ∧
      Deals g params.threshold params.shareCount (lib.privateKey keys) parties vss shares p
  /-- Valid shares are accepted and add up to the share of the sum. -/
  construct : ∀ keys (params : Parameters) (dealings : List (G × F × Vss G)) index,
    dealings.length = params.shareCount →
    (∀ d ∈ dealings, ValidShare g d.2.2 index d.1 d.2.1) →
    ∃ shared,
      lib.construct keys params (dealings.map fun d => d.1) (dealings.map fun d => d.2.1)
        (dealings.map fun d => d.2.2) index = .ok shared ∧
      lib.y shared = (dealings.map fun d => d.1).sum ∧
      lib.xI shared = (dealings.map fun d => d.2.1).sum

namespace Eddsa

/-! ## The code -/

/-- What one party draws at random. -/
structure Draws (F Seed : Type) where
  keys : Seed
  chainCode : F
  chainNonce : F
  broadcast : Seed
  distribute : Seed
  proofNonce : F
  /-- The nonce of the share for each other party. -/
  nonce : Nat → Nonce

section

variable {F G : Type} (curve : Curve F G) (aes : AesGcm) (lib : ThresholdSig F G)

/-- The key file. -/
structure KeyFile where
  partyKeys : lib.Keys
  chainCode : F
  sharedKeys : lib.SharedKeys
  partyNumInt : Nat
  vssSchemeVec : List (Vss G)
  ySum : G

/-- The JSON of the messages. -/
structure Json where
  scalar : Codec F
  keygen : KeygenJson G lib.Broadcast lib.Decommit lib.dlog.Proof

section

variable {lib} (threshold parties partyNumInt : Nat) (draws : Draws F lib.Seed)

def partyKeys : lib.Keys := lib.create partyNumInt draws.keys

/-- The party's calls of the library. -/
def calls [SMul F G] :
    KeygenCalls F G lib.Broadcast lib.Decommit Nat (List UInt8) lib.SharedKeys lib.dlog.Proof where
  bcI := (lib.phase1Broadcast (partyKeys partyNumInt draws) draws.broadcast).1
  decomI := (lib.phase1Broadcast (partyKeys partyNumInt draws) draws.broadcast).2
  yI := lib.yI
  kept := lib.blindFactor
  encKey decomJ := do
    let keyBn ← sharedX curve (lib.yI decomJ) (lib.privateKey (partyKeys partyNumInt draws))
    padKey (toBytes keyBn)
  keyBytes key := key
  distribute blindVec pointVec bc1Vec :=
    lib.distribute (partyKeys partyNumInt draws) ⟨threshold, parties⟩ blindVec pointVec bc1Vec
      ((List.range parties).map (· + 1)) draws.distribute
  construct pointVec partyShares vssSchemeVec := do
    let sharedKeys ← lib.construct (partyKeys partyNumInt draws) ⟨threshold, parties⟩ pointVec
      partyShares vssSchemeVec partyNumInt
    return (sharedKeys, lib.dlog.prove (lib.xI sharedKeys) draws.proofNonce)
  verify dlogProofVec pointVec := do
    let verified ← verifyDlogProofs lib.dlog parties dlogProofVec pointVec.length
    expect verified

/-- `run_keygen`, up to the key file it writes. -/
def runKeygen [SMul F G] [Add F] [Add G] (json : Json lib) (uuid : String) :
    Client (KeyFile lib) := do
  let chainCode ← generateSharedChainCode lib.dlog json.scalar json.keygen.proof partyNumInt parties
    uuid parties draws.chainCode draws.chainNonce
  let out ← keygenRounds curve aes json.keygen (calls curve threshold parties partyNumInt draws)
    partyNumInt parties uuid draws.nonce
  return { partyKeys := partyKeys partyNumInt draws, chainCode, sharedKeys := out.sharedKeys,
           partyNumInt, vssSchemeVec := out.vssSchemeVec, ySum := out.ySum }

end

end

/-! ## Honest parties -/

section

variable {F G : Type} [Field F] [AddCommGroup G] [Module F G] {curve : Curve F G}
  {lib : ThresholdSig F G} {t n : Nat}

/-- What the library returns to honest parties: polynomials for their secrets,
and to each the sum of its shares.  Every key has its length. -/
theorem honestCalls (excused : Panic → Prop) (hcurve : curve.Documented)
    (hlib : lib.Documented curve.generator) (ht : t < n) (draws : Nat → Draws F lib.Seed) :
    ∃ v : KeygenValues F G (List UInt8) lib.SharedKeys lib.dlog.Proof,
      HonestCalls curve excused t n (fun i => calls curve t n i (draws i)) v ∧
      (∀ i, lib.xI (v.shared i) =
        ((List.range' 1 n).map fun j => (v.poly j).eval (i : F)).sum) ∧
      ∀ i, lib.y (v.shared i) =
        ((List.range' 1 n).map fun j => v.secret j • curve.generator).sum := by
  let u : Nat → F := fun i => lib.privateKey (partyKeys i (draws i))
  let message : Nat → lib.Broadcast × lib.Decommit := fun i =>
    lib.phase1Broadcast (partyKeys i (draws i)) (draws i).broadcast
  have hu : ∀ i, u i ≠ 0 := fun i => hlib.privateKey_ne_zero i _
  have hpoints := (range'_one_eq_map n).symm
  have hdistribute := fun i => hlib.distribute (partyKeys i (draws i)) ⟨t, n⟩
    ((List.range' 1 n).map message) ((List.range n).map (· + 1)) (draws i).distribute ht (by simp)
    (by simp) (by
      intro m hm
      obtain ⟨j, _, rfl⟩ := List.mem_map.mp hm
      exact ⟨_, _, rfl⟩)
  choose vss shares p hdealt hdeals using hdistribute
  have hconstruct := fun i => hlib.construct (partyKeys i (draws i)) ⟨t, n⟩
    ((List.range' 1 n).map fun j => (u j • curve.generator, (p j).eval (i : F), vss j)) i
    (by simp) (by
      intro d hd
      obtain ⟨j, _, rfl⟩ := List.mem_map.mp hd
      exact (hdeals j).validShare i)
  choose shared hshared hy hxI using hconstruct
  obtain ⟨key, hpad, hcomm, hlength⟩ := exists_paddedKey hcurve hu
  refine ⟨⟨u, key, p, vss, shared, fun i => lib.dlog.prove (lib.xI (shared i))
    (draws i).proofNonce⟩, ?_, fun i => ?_, fun i => ?_⟩
  · refine ⟨fun i j => hlib.yI _ _, fun i j _ _ hj => ?_, fun i j => ?_, fun i j _ _ hj => ?_,
      fun i => ?_, fun i _ _ => ?_, fun i _ _ => ?_, fun i _ _ => ?_⟩
    · have := (sharedX_eq hcurve (hu i) (hu j)).1
      simp only [calls, hlib.yI]
      rw [this, except_ok_bind, hpad i j]
    · exact hcomm i j
    · exact Or.inl (hlength i j)
    · have := (hdeals i).shares
      rw [hpoints] at this
      rw [← this]
      exact hpoints ▸ hdeals i
    · have := hdealt i
      rw [List.map_map, List.map_map, List.map_map] at this
      rw [← hpoints, ← (hdeals i).shares, hpoints]
      refine Eq.trans ?_ this
      simp only [calls, Function.comp_def, message, hlib.yI]
      rfl
    · have := hshared i
      rw [List.map_map, List.map_map, List.map_map] at this
      exact congrArg (fun x => x >>= fun shared =>
        pure (shared, lib.dlog.prove (lib.xI shared) (draws i).proofNonce)) this
    · simp only [calls, List.length_map, List.length_range']
      rw [verifyDlogProofs_eq (by simp)]
      · rfl
      · intro proof hproof
        obtain ⟨j, _, rfl⟩ := List.mem_map.mp hproof
        exact hlib.dlog.verify_prove _ _
  · rw [hxI i, List.map_map]
    rfl
  · rw [hy i, List.map_map]
    rfl

/-- The rounds of an honest key generation. -/
def honestSchedule (curve : Curve F G) (aes : AesGcm) (json : Json lib) (t n : Nat)
    (draws : Nat → Draws F lib.Seed)
    (v : KeygenValues F G (List UInt8) lib.SharedKeys lib.dlog.Proof) (uuid : String) : Schedule :=
  keygenSchedule curve aes json.scalar json.keygen (fun i => calls curve t n i (draws i)) v
    (fun i => (draws i).chainCode) (fun i => (draws i).chainNonce) (fun i => (draws i).nonce) n uuid

/-- The key file of an honest party. -/
def honestFile (curve : Curve F G) (n : Nat) (draws : Nat → Draws F lib.Seed)
    (v : KeygenValues F G (List UInt8) lib.SharedKeys lib.dlog.Proof) (i : Nat) : KeyFile lib where
  partyKeys := partyKeys i (draws i)
  chainCode := ((List.range' 1 n).map fun j => (draws j).chainCode).sum
  sharedKeys := v.shared i
  partyNumInt := i
  vssSchemeVec := (List.range' 1 n).map v.vss
  ySum := ((List.range' 1 n).map fun j => v.secret j • curve.generator).sum

/-- Honest parties play their part in a key generation. -/
theorem runKeygen_plays {aes : AesGcm} {json : Json lib} {draws : Nat → Draws F lib.Seed}
    {v : KeygenValues F G (List UInt8) lib.SharedKeys lib.dlog.Proof} {uuid : String} {me : Nat}
    (hcurve : curve.Documented) (haes : aes.Documented) (hlib : lib.Documented curve.generator)
    {excused : Panic → Prop}
    (h : HonestCalls curve excused t n (fun i => calls curve t n i (draws i)) v)
    (h₁ : 1 ≤ me) (hn : me ≤ n) :
    Plays (honestSchedule curve aes json t n draws v uuid).mail
      (honestSchedule curve aes json t n draws v uuid).rank excused
      (Owes (honestSchedule curve aes json t n draws v uuid).mail me) 0
      (runKeygen curve aes t n me (draws me) json uuid) 7 (honestFile curve n draws v me) :=
  keygen_plays hcurve haes hlib.dlog h h₁ hn rfl

end

end Eddsa

end TssCli
