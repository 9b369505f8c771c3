import TssCli.Protocols.Keygen

/-!
# The ECDSA key generation

`run_keygen` after its sign-up, with the number and the UUID that the manager
gave.  It keeps the key for another party as an integer, and encrypts under the
shortest bytes of that integer.
-/

namespace TssCli

open Mailbox Mailbox.Script Polynomial Sharing

/-! ## The library -/

/-- `gg_2018`.  A call that answers with a `Result` stands for the call and the
`expect` of its answer. -/
structure Gg18 (F G : Type) where
  Keys : Type
  /-- `KeyGenBroadcastMessage1`. -/
  Broadcast : Type
  /-- `KeyGenDecommitMessage1`. -/
  Decommit : Type
  EncryptionKey : Type
  SharedKeys : Type
  /-- What a call draws at random. -/
  Seed : Type
  dlog : DLog F G
  uI : Keys → F
  e : Broadcast → EncryptionKey
  yI : Decommit → G
  y : SharedKeys → G
  xI : SharedKeys → F
  create : Nat → Seed → Keys
  /-- `phase1_broadcast_phase3_proof_of_correct_key`. -/
  phase1Broadcast : Keys → Seed → Broadcast × Decommit
  /-- `phase1_verify_com_phase3_verify_correct_key_phase2_distribute`. -/
  distribute : Keys → Parameters → List Decommit → List Broadcast → Seed →
    Except Panic (Vss G × List F × Nat)
  /-- `phase2_verify_vss_construct_keypair_phase3_pok_dlog`. -/
  construct : Keys → Parameters → List G → List F → List (Vss G) → Nat → Seed →
    Except Panic (SharedKeys × dlog.Proof)
  /-- `Keys::verify_dlog_proofs`. -/
  verifyDlogProofs : Parameters → List dlog.Proof → List G → Except Panic Unit

/-- What the documentation says of honest messages. -/
structure Gg18.Documented {F G : Type} [Field F] [AddCommGroup G] [Module F G] (g : G)
    (lib : Gg18 F G) : Prop where
  dlog : lib.dlog.Documented g
  uI_ne_zero : ∀ i seed, lib.uI (lib.create i seed) ≠ 0
  yI : ∀ keys seed, lib.yI (lib.phase1Broadcast keys seed).2 = lib.uI keys • g
  /-- Commitments that open are accepted, and the secret is dealt to `1..=n`. -/
  distribute : ∀ keys (params : Parameters) (messages : List (lib.Broadcast × lib.Decommit)) seed,
    params.threshold < params.shareCount → messages.length = params.shareCount →
    (∀ m ∈ messages, ∃ keys seed, m = lib.phase1Broadcast keys seed) →
    ∃ vss shares i p,
      lib.distribute keys params (messages.map Prod.snd) (messages.map Prod.fst) seed =
        .ok (vss, shares, i) ∧
      Deals g params.threshold params.shareCount (lib.uI keys) (List.range' 1 params.shareCount)
        vss shares p
  /-- Valid shares are accepted and add up to the share of the sum, and the proof
  is of that share. -/
  construct : ∀ keys (params : Parameters) (dealings : List (G × F × Vss G)) index seed,
    dealings.length = params.shareCount →
    (∀ d ∈ dealings, ValidShare g d.2.2 index d.1 d.2.1) →
    ∃ shared nonce,
      lib.construct keys params (dealings.map fun d => d.1) (dealings.map fun d => d.2.1)
        (dealings.map fun d => d.2.2) index seed =
        .ok (shared, lib.dlog.prove (lib.xI shared) nonce) ∧
      lib.y shared = (dealings.map fun d => d.1).sum ∧
      lib.xI shared = (dealings.map fun d => d.2.1).sum
  verifyDlogProofs : ∀ (params : Parameters) proofs (ys : List G),
    proofs.length = params.shareCount → ys.length = params.shareCount →
    (∀ p ∈ proofs, lib.dlog.verify p = true) → lib.verifyDlogProofs params proofs ys = .ok ()

namespace Ecdsa

/-! ## The code -/

/-- What one party draws at random. -/
structure Draws (F Seed : Type) where
  keys : Seed
  chainCode : F
  chainNonce : F
  broadcast : Seed
  distribute : Seed
  construct : Seed
  /-- The nonce of the share for each other party. -/
  nonce : Nat → Nonce

section

variable {F G : Type} (curve : Curve F G) (aes : AesGcm) (lib : Gg18 F G)

/-- The key file. -/
structure KeyFile where
  partyKeys : lib.Keys
  chainCode : F
  sharedKeys : lib.SharedKeys
  partyNumInt : Nat
  vssSchemeVec : List (Vss G)
  paillierKeyVec : List lib.EncryptionKey
  ySum : G

/-- The JSON of the messages. -/
structure Json where
  scalar : Codec F
  keygen : KeygenJson G lib.Broadcast lib.Decommit lib.dlog.Proof

section

variable {lib} (threshold parties partyNumInt : Nat) (draws : Draws F lib.Seed)

def partyKeys : lib.Keys := lib.create partyNumInt draws.keys

/-- The party's calls of the library. -/
def calls [SMul F G] :
    KeygenCalls F G lib.Broadcast lib.Decommit lib.Decommit Nat lib.SharedKeys lib.dlog.Proof where
  bcI := (lib.phase1Broadcast (partyKeys partyNumInt draws) draws.broadcast).1
  decomI := (lib.phase1Broadcast (partyKeys partyNumInt draws) draws.broadcast).2
  yI := lib.yI
  kept decom := decom
  encKey decomJ := sharedX curve (lib.yI decomJ) (lib.uI (partyKeys partyNumInt draws))
  keyBytes := toBytes
  distribute decomVec _ bc1Vec := do
    let dealt ← lib.distribute (partyKeys partyNumInt draws) ⟨threshold, parties⟩ decomVec bc1Vec
      draws.distribute
    return (dealt.1, dealt.2.1)
  construct pointVec partyShares vssSchemeVec :=
    lib.construct (partyKeys partyNumInt draws) ⟨threshold, parties⟩ pointVec partyShares
      vssSchemeVec partyNumInt draws.construct
  verify dlogProofVec pointVec :=
    lib.verifyDlogProofs ⟨threshold, parties⟩ dlogProofVec pointVec

/-- `run_keygen`, up to the key file it writes. -/
def runKeygen [SMul F G] [Add F] [Add G] (json : Json lib) (uuid : String) :
    Client (KeyFile lib) := do
  let chainCode ← generateSharedChainCode lib.dlog json.scalar json.keygen.proof partyNumInt parties
    uuid parties draws.chainCode draws.chainNonce
  let out ← keygenRounds curve aes json.keygen (calls curve threshold parties partyNumInt draws)
    partyNumInt parties uuid draws.nonce
  let paillierKeyVec ← (List.range parties).mapM fun i => do return lib.e (← index out.bc1Vec i)
  return { partyKeys := partyKeys partyNumInt draws, chainCode, sharedKeys := out.sharedKeys,
           partyNumInt, vssSchemeVec := out.vssSchemeVec, paillierKeyVec, ySum := out.ySum }

end

end

/-! ## Honest parties -/

/-- The encryption keys of the broadcasts, in the order of the numbers. -/
theorem paillierKeyVec_eq {Bc E : Type} (e : Bc → E) (bc : Nat → Bc) (n : Nat) :
    ((List.range n).mapM fun i => do
      return e (← index ((List.range' 1 n).map bc) i) : Client (List E)) =
      pure ((List.range' 1 n).map fun j => e (bc j)) := by
  have hentry : ∀ i ∈ List.range n,
      (do return e (← index ((List.range' 1 n).map bc) i) : Client E) = pure (e (bc (i + 1))) := by
    intro i hi
    have := index_range' (i := i + 1) bc (Nat.le_add_left 1 i) (List.mem_range.mp hi)
    rw [Nat.add_sub_cancel] at this
    rw [this]
    rfl
  rw [mapM_pure hentry, range'_one_eq_map, List.map_map]
  rfl

section

variable {F G : Type} [Field F] [AddCommGroup G] [Module F G] {curve : Curve F G} {lib : Gg18 F G}
  {t n : Nat}

/-- What the library returns to honest parties: polynomials for their secrets,
and to each the sum of its shares.  The key of a pair may have too few bytes. -/
theorem honestCalls (excused : Panic → Prop) (hcurve : curve.Documented)
    (hlib : lib.Documented curve.generator) (ht : t < n) (draws : Nat → Draws F lib.Seed)
    (hkey : ∀ i j, i ≠ j →
      (toBytes (dhX curve (lib.uI (partyKeys i (draws i)))
        (lib.uI (partyKeys j (draws j))))).length = 32 ∨ excused .assertFailed) :
    ∃ v : KeygenValues F G Nat lib.SharedKeys lib.dlog.Proof,
      HonestCalls curve excused t n (fun i => calls curve t n i (draws i)) v ∧
      ∀ i, lib.xI (v.shared i) =
        ((List.range' 1 n).map fun j => (v.poly j).eval (i : F)).sum := by
  let u : Nat → F := fun i => lib.uI (partyKeys i (draws i))
  let message : Nat → lib.Broadcast × lib.Decommit := fun i =>
    lib.phase1Broadcast (partyKeys i (draws i)) (draws i).broadcast
  have hu : ∀ i, u i ≠ 0 := fun i => hlib.uI_ne_zero i _
  have hdistribute := fun i => hlib.distribute (partyKeys i (draws i)) ⟨t, n⟩
    ((List.range' 1 n).map message) (draws i).distribute ht (by simp) (by
      intro m hm
      obtain ⟨j, _, rfl⟩ := List.mem_map.mp hm
      exact ⟨_, _, rfl⟩)
  choose vss shares index p hdealt hdeals using hdistribute
  have hconstruct := fun i => hlib.construct (partyKeys i (draws i)) ⟨t, n⟩
    ((List.range' 1 n).map fun j => (u j • curve.generator, (p j).eval (i : F), vss j)) i
    (draws i).construct (by simp) (by
      intro d hd
      obtain ⟨j, _, rfl⟩ := List.mem_map.mp hd
      exact (hdeals j).validShare i)
  choose shared nonce hshared _ hxI using hconstruct
  refine ⟨⟨u, fun i j => dhX curve (u i) (u j), p, vss, shared,
    fun i => lib.dlog.prove (lib.xI (shared i)) (nonce i)⟩, ?_, ?_⟩
  · refine ⟨fun i j => hlib.yI _ _, fun i j _ _ hj => ?_, fun i j => ?_, fun i j _ _ hj => ?_,
      fun i => ?_, fun i _ _ => ?_, fun i _ _ => ?_, fun i _ _ => ?_⟩
    · have := (sharedX_eq hcurve (hu i) (hu j)).1
      simpa [calls, hlib.yI] using this
    · exact congrArg toBytes (dhX_comm _ _ _)
    · exact hkey i j (Ne.symm (mem_others.mp hj).2)
    · rw [← (hdeals i).shares]
      exact hdeals i
    · rw [← (hdeals i).shares]
      have := hdealt i
      rw [List.map_map, List.map_map] at this
      exact congrArg (fun x => x >>= fun dealt => pure (dealt.1, dealt.2.1)) this
    · have := hshared i
      rw [List.map_map, List.map_map, List.map_map] at this
      exact this
    · refine hlib.verifyDlogProofs _ _ _ (by simp) (by simp) fun proof hproof => ?_
      obtain ⟨j, _, rfl⟩ := List.mem_map.mp hproof
      exact hlib.dlog.verify_prove _ _
  · intro i
    rw [hxI i, List.map_map]
    rfl

/-- The rounds of an honest key generation. -/
def honestSchedule (curve : Curve F G) (aes : AesGcm) (json : Json lib) (t n : Nat)
    (draws : Nat → Draws F lib.Seed) (v : KeygenValues F G Nat lib.SharedKeys lib.dlog.Proof)
    (uuid : String) : Schedule :=
  keygenSchedule curve aes json.scalar json.keygen (fun i => calls curve t n i (draws i)) v
    (fun i => (draws i).chainCode) (fun i => (draws i).chainNonce) (fun i => (draws i).nonce) n uuid

/-- The key file of an honest party. -/
def honestFile (curve : Curve F G) (t n : Nat) (draws : Nat → Draws F lib.Seed)
    (v : KeygenValues F G Nat lib.SharedKeys lib.dlog.Proof) (i : Nat) : KeyFile lib where
  partyKeys := partyKeys i (draws i)
  chainCode := ((List.range' 1 n).map fun j => (draws j).chainCode).sum
  sharedKeys := v.shared i
  partyNumInt := i
  vssSchemeVec := (List.range' 1 n).map v.vss
  paillierKeyVec := (List.range' 1 n).map fun j => lib.e (calls curve t n j (draws j)).bcI
  ySum := ((List.range' 1 n).map fun j => v.secret j • curve.generator).sum

/-- Honest parties play their part in a key generation. -/
theorem runKeygen_plays {aes : AesGcm} {json : Json lib} {draws : Nat → Draws F lib.Seed}
    {v : KeygenValues F G Nat lib.SharedKeys lib.dlog.Proof} {uuid : String} {me : Nat}
    (hcurve : curve.Documented) (haes : aes.Documented) (hlib : lib.Documented curve.generator)
    {excused : Panic → Prop}
    (h : HonestCalls curve excused t n (fun i => calls curve t n i (draws i)) v)
    (h₁ : 1 ≤ me) (hn : me ≤ n) :
    Plays (honestSchedule curve aes json t n draws v uuid).mail
      (honestSchedule curve aes json t n draws v uuid).rank excused
      (Owes (honestSchedule curve aes json t n draws v uuid).mail me) 0
      (runKeygen curve aes t n me (draws me) json uuid) 7 (honestFile curve t n draws v me) := by
  refine keygen_plays hcurve haes hlib.dlog h h₁ hn ?_
  simp only [keygenOutput]
  rw [paillierKeyVec_eq lib.e (fun j => (calls curve t n j (draws j)).bcI) n, pure_bind]
  rfl

end

end Ecdsa

end TssCli
