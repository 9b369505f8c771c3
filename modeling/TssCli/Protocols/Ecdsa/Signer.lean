import TssCli.Protocols.Ecdsa.Keygen
import TssCli.Protocols.Ecdsa.KeyStore
import TssCli.Protocols.Eddsa.Signer

/-!
# The ECDSA signer

`sign` after its sign-up, with the number, the UUID and the number of signers that
the manager gave.  A signer is numbered by its place in the room, and known to the
key generation by its index, which is its party id less one.  The signers post
their ids first, so that everybody knows the index of every number.

At a path the tweak is added to the shares, and its multiple of the generator to
the first commitment of the first party.  Then the signers turn products into sums
in pairs, reveal the nonce point, and check their shares of the signature in four
rounds of commitments before they reveal them.

The stages of `sign` are definitions of their own.  Vectors that the code pushes to
together and reads together are one vector of tuples.
-/

namespace TssCli

open Mailbox Mailbox.Script Sharing

open Eddsa (nextIndex partyIndex)

/-! ## The library -/

/-- `SignatureRecid`. -/
structure SignatureRecid (F : Type) where
  r : F
  s : F
  recid : Nat

/-- The part of `gg_2018` that signs, and `mta`.  A call that answers with a
`Result` stands for the call and the `unwrap` or `expect` of its answer. -/
structure Gg18Signer {F G : Type} (lib : Gg18 F G) where
  DecryptionKey : Type
  PartyPrivate : Type
  SignKeys : Type
  /-- `SignBroadcastPhase1`. -/
  SignBroadcast : Type
  /-- `SignDecommitPhase1`. -/
  SignDecommit : Type
  MessageA : Type
  MessageB : Type
  LocalSignature : Type
  /-- `Phase5Com1`. -/
  Com1 : Type
  /-- `Phase5ADecom1`. -/
  Decom1 : Type
  /-- `HomoELGamalProof`. -/
  ElGamalProof : Type
  /-- `Phase5Com2`. -/
  Com2 : Type
  /-- `Phase5DDecom2`. -/
  Decom2 : Type
  /-- What a call draws at random. -/
  Seed : Type
  /-- The nonce share that is drawn for `k_i`. -/
  drawK : Seed → F
  /-- The one that is drawn for `gamma_i`. -/
  drawGamma : Seed → F
  dk : lib.Keys → DecryptionKey
  ek : lib.Keys → lib.EncryptionKey
  /-- The field `x_i` of a private key. -/
  xI : PartyPrivate → F
  setPrivate : lib.Keys → lib.SharedKeys → PartyPrivate
  updatePrivateKey : PartyPrivate → F → F → PartyPrivate
  /-- `SignKeys::create`. -/
  create : PartyPrivate → Vss G → Nat → List Nat → Seed → SignKeys
  kI : SignKeys → F
  gammaI : SignKeys → F
  wI : SignKeys → F
  phase1Broadcast : SignKeys → Seed → SignBroadcast × SignDecommit
  gGammaI : SignDecommit → G
  /-- `MessageA::a`. -/
  messageA : F → lib.EncryptionKey → Seed → MessageA
  /-- `MessageB::b`, the message and the share that is kept. -/
  messageB : F → lib.EncryptionKey → MessageA → Seed → Except Panic (MessageB × F)
  bProof : MessageB → lib.dlog.Proof
  verifyProofsGetAlpha : MessageB → DecryptionKey → F → Except Panic F
  /-- `Keys::get_commitments_to_xi`. -/
  getCommitmentsToXi : List (Vss G) → List G
  /-- `Keys::update_commitments_to_xi`. -/
  updateCommitmentsToXi : G → Vss G → Nat → List Nat → G
  phase2DeltaI : SignKeys → List F → List F → F
  phase2SigmaI : SignKeys → List F → List F → F
  phase3ReconstructDelta : List F → Except Panic F
  phase4 : F → List lib.dlog.Proof → List SignDecommit → List SignBroadcast → Except Panic G
  /-- The fields of a local signature. -/
  localS : LocalSignature → F
  localR : LocalSignature → G
  localM : LocalSignature → Nat
  localY : LocalSignature → G
  phase5LocalSig : F → Nat → G → F → G → Seed → Except Panic LocalSignature
  /-- `phase5a_broadcast_5b_zkproof`. -/
  phase5a : LocalSignature → Seed → Com1 × Decom1 × ElGamalProof × lib.dlog.Proof
  VI : Decom1 → G
  phase5c : LocalSignature → List Decom1 → List Com1 → List ElGamalProof → List lib.dlog.Proof →
    G → G → Seed → Except Panic (Com2 × Decom2)
  phase5d : LocalSignature → List Decom2 → List Com2 → List Decom1 → Except Panic F
  outputSignature : LocalSignature → List F → Except Panic (SignatureRecid F)
  verify : SignatureRecid F → G → Nat → Except Panic Unit

/-- The evaluation point of an index. -/
def point (F : Type) [NatCast F] (i : Nat) : F := ((i + 1 : Nat) : F)

/-- What the documentation says of the shares that signers weigh, and of the
commitments to them. -/
structure Gg18Signer.Weighs {F G : Type} [Field F] [AddCommGroup G] [Module F G] (g : G)
    {lib : Gg18 F G} (signer : Gg18Signer lib) : Prop where
  xI_setPrivate : ∀ keys shared, signer.xI (signer.setPrivate keys shared) = lib.xI shared
  xI_updatePrivateKey : ∀ priv f f',
    signer.xI (signer.updatePrivateKey priv f f') = signer.xI priv + f'
  /-- `map_share_to_new_params` is the coefficient of an index in the value at `0`. -/
  wI_create : ∀ priv vss i (s : List Nat) seed, s.Nodup → i ∈ s →
    signer.wI (signer.create priv vss i s seed) =
      weight s.toFinset (point F) i * signer.xI priv
  /-- The sum of all commitments at `1..=n`. -/
  getCommitmentsToXi : ∀ vssVec : List (Vss G), vssVec.length < 2 ^ 16 →
    signer.getCommitmentsToXi vssVec = (List.range' 1 vssVec.length).map fun i : Nat =>
      (vssVec.map fun vss => evalCommit vss.commitments (i : F)).sum
  updateCommitmentsToXi : ∀ comm vss i (s : List Nat), s.Nodup → i ∈ s →
    signer.updateCommitmentsToXi comm vss i s = weight s.toFinset (point F) i • comm
  /-- A message that multiplies by `b` carries a proof about `b`. -/
  pk_bProof : ∀ b ek mA seed m beta, signer.messageB b ek mA seed = .ok (m, beta) →
    lib.dlog.pk (signer.bProof m) = b • g

namespace Ecdsa

/-! ## Vectors -/

/-- `vec.remove(index)`. -/
def removeAt {α : Type} (v : List α) (idx : Nat) : Except Panic (α × List α) :=
  match v[idx]? with
  | some a => .ok (a, v.eraseIdx idx)
  | none => .error .outOfBounds

/-- `(0..count).map(|i| vec[i])`. -/
def firsts {α : Type} (count : Nat) (v : List α) : Except Panic (List α) :=
  (List.range count).mapM (index v)

/-! ## The code -/

/-- What a signer draws at random. -/
structure SignDraws (Seed : Type) where
  create : Seed
  broadcast : Seed
  messageA : Seed
  /-- For the message to each other signer that multiplies `gamma_i`. -/
  messageBGamma : Nat → Seed
  /-- For the message to each other signer that multiplies `w_i`. -/
  messageBW : Nat → Seed
  localSig : Seed
  phase5a : Seed
  phase5c : Seed

section

variable {F G : Type} {lib : Gg18 F G} (signer : Gg18Signer lib)

/-- The JSON of the messages. -/
structure SignJson where
  partyId : Codec Nat
  round1 : Codec (signer.SignBroadcast × signer.MessageA)
  round2 : Codec (signer.MessageB × signer.MessageB)
  scalar : Codec F
  decommit : Codec signer.SignDecommit
  com1 : Codec signer.Com1
  round6 : Codec (signer.Decom1 × signer.ElGamalProof × lib.dlog.Proof)
  com2 : Codec signer.Com2
  decom2 : Codec signer.Decom2

/-- What the first rounds leave. -/
structure MtaOutput where
  signKeys : signer.SignKeys
  bc1Vec : List signer.SignBroadcast
  decommit : signer.SignDecommit
  mBGammaRecVec : List signer.MessageB
  deltaI : F
  sigma : F

/-- What a signer returns, with the shares and the nonce point it has computed on
the way. -/
structure Signed (F G : Type) where
  deltaI : F
  sigma : F
  R : G
  sig : SignatureRecid F
  x : Nat
  y : Nat
  messageInt : Nat

variable {signer} (curve : Curve F G) (json : SignJson signer)

/-- The indices of all signers, in the order of their numbers. -/
def collectSigners (partyNumInt totalParties partyId : Nat) (answers : List String) :
    Except Panic (List Nat) :=
  walk answers partyNumInt totalParties
    (fun v _ => do return v ++ [← partyIndex partyId])
    (fun v _ text => do
      let signerJ ← json.partyId.read text
      return v ++ [← partyIndex signerJ])
    []

/-- `count` times `iter.next().unwrap()`. -/
def nextUnchanged : Nat → List G → Except Panic (List G)
  | 0, _ => .ok []
  | _ + 1, [] => .error .unwrapNone
  | count + 1, c :: rest => do
      let unchanged ← nextUnchanged count rest
      return c :: unchanged

/-- The commitments of the first scheme, with a new first one.  There are `count`. -/
def comVecNew (comZeroNew : G) (unchanged : List G) : Nat → Except Panic (List G)
  | 0 => .ok []
  | count + 1 => do return comZeroNew :: (← nextUnchanged count unchanged)

section

variable [AddCommGroup G] [SMul F G]

/-- The first scheme with the tweak in its first commitment.  It gets as many
commitments as the second scheme has. -/
def tweakVss (vssSchemeVec : List (Vss G)) (fLNew : F) : Except Panic (List (Vss G)) := do
  let leader ← index vssSchemeVec 0
  let comZero ← index leader.commitments 0
  let comZeroNew := comZero + fLNew • curve.generator
  let next ← index vssSchemeVec 1
  let commitments ← comVecNew comZeroNew leader.commitments.tail next.commitments.length
  return { leader with commitments } :: vssSchemeVec.tail

end

/-- The private key, with the tweak at a path. -/
def privateAt [Zero F] (signer : Gg18Signer lib) (file : KeyFile lib) (partyNumInt : Nat)
    (fLNew : F) (signAtPath : Bool) : signer.PartyPrivate :=
  let priv := signer.setPrivate file.partyKeys file.sharedKeys
  if signAtPath then
    if partyNumInt = 1 then signer.updatePrivateKey priv fLNew fLNew
    else signer.updatePrivateKey priv 0 fLNew
  else priv

variable [AddCommGroup G] [SMul F G] [Zero F]

/-- The schemes at the path. -/
def vssAt (file : KeyFile lib) (fLNew : F) (signAtPath : Bool) : Except Panic (List (Vss G)) :=
  if signAtPath then tweakVss curve file.vssSchemeVec fLNew else .ok file.vssSchemeVec

/-- The keys for one signature. -/
def signKeysAt (file : KeyFile lib) (vssSchemeVec : List (Vss G)) (signersVec : List Nat)
    (partyNumInt : Nat) (fLNew : F) (signAtPath : Bool) (seed : signer.Seed) :
    Except Panic signer.SignKeys := do
  let i ← index signersVec (partyNumInt - 1)
  let vssScheme ← index vssSchemeVec i
  return signer.create (privateAt signer file partyNumInt fLNew signAtPath) vssScheme i signersVec
    seed

/-- The loop over the answers of the first round. -/
def collectRound1 (partyNumInt totalParties : Nat) (com : signer.SignBroadcast)
    (answers : List String) : Except Panic (List signer.SignBroadcast × List signer.MessageA) :=
  walk answers partyNumInt totalParties
    (fun c _ => pure (c.1 ++ [com], c.2))
    (fun c _ text => do
      let answer ← json.round1.read text
      return (c.1 ++ [answer.1], c.2 ++ [answer.2]))
    ([], [])

/-- The messages to the others, and the shares that are kept. -/
structure MessagesB (F : Type) (MessageB : Type) where
  sendVec : List (MessageB × MessageB)
  betaVec : List F
  niVec : List F

/-- The loop that multiplies `gamma_i` and `w_i` into the others' messages. -/
def multiply (partyNumInt totalParties : Nat) (signKeys : signer.SignKeys)
    (paillierKeyVector : List lib.EncryptionKey) (signersVec : List Nat)
    (mAVec : List signer.MessageA) (draws : SignDraws signer.Seed) :
    Except Panic (MessagesB F signer.MessageB) :=
  walk mAVec partyNumInt totalParties (fun c _ => pure c)
    (fun c i mA => do
      let s ← index signersVec (i - 1)
      let ek ← index paillierKeyVector s
      let gamma ← signer.messageB (signer.gammaI signKeys) ek mA (draws.messageBGamma i)
      let w ← signer.messageB (signer.wI signKeys) ek mA (draws.messageBW i)
      return { sendVec := c.sendVec ++ [(gamma.1, w.1)], betaVec := c.betaVec ++ [gamma.2],
               niVec := c.niVec ++ [w.2] })
    { sendVec := [], betaVec := [], niVec := [] }

/-- The loop that sends the messages. -/
def sendMessagesB (partyNumInt totalParties : Nat) (uuid : String)
    (sendVec : List (signer.MessageB × signer.MessageB)) : Client Unit :=
  walk sendVec partyNumInt totalParties (fun _ _ => pure ())
    (fun _ i m => sendP2p partyNumInt i round2 (json.round2.encode m) uuid) ()

/-- The loop that reads the messages. -/
def readMessagesB (totalParties : Nat) (answers : List String) :
    Except Panic (List (signer.MessageB × signer.MessageB)) :=
  (List.range (totalParties - 1)).mapM fun i => do
    let text ← index answers i
    json.round2.read text

/-- The point that the others know for the share of a signer. -/
def gWI (signer : Gg18Signer lib) (vssSchemeVec : List (Vss G)) (signersVec : List Nat) (i : Nat) :
    Except Panic G := do
  let xiComVec := signer.getCommitmentsToXi vssSchemeVec
  let s ← index signersVec (i - 1)
  let comm ← index xiComVec s
  let vssScheme ← index vssSchemeVec s
  return signer.updateCommitmentsToXi comm vssScheme s signersVec

/-- The loop that takes the shares out of the others' messages. -/
def takeAlphas [DecidableEq G] (partyNumInt totalParties : Nat) (file : KeyFile lib)
    (signKeys : signer.SignKeys) (vssSchemeVec : List (Vss G)) (signersVec : List Nat)
    (mBRecVec : List (signer.MessageB × signer.MessageB)) : Except Panic (List F × List F) :=
  walk mBRecVec partyNumInt totalParties (fun c _ => pure c)
    (fun c i mB => do
      let dk := signer.dk file.partyKeys
      let alphaIjGamma ← signer.verifyProofsGetAlpha mB.1 dk (signer.kI signKeys)
      let alphaIjWi ← signer.verifyProofsGetAlpha mB.2 dk (signer.kI signKeys)
      let g ← gWI signer vssSchemeVec signersVec i
      if lib.dlog.pk (signer.bProof mB.2) = g then
        return (c.1 ++ [alphaIjGamma], c.2 ++ [alphaIjWi])
      else .error .assertFailed)
    ([], [])

/-- Rounds 0 to 2. -/
def mtaRounds [DecidableEq G] (file : KeyFile lib) (partyNumInt totalParties : Nat) (uuid : String)
    (fLNew : F) (signAtPath : Bool) (draws : SignDraws signer.Seed) :
    Client (MtaOutput signer) := do
  -- The ids.
  let round0AnsVec ← readRound partyNumInt totalParties uuid round0
    (json.partyId.encode file.partyNumInt)
  let signersVec ← collectSigners json partyNumInt totalParties file.partyNumInt round0AnsVec
  let vssSchemeVec ← vssAt curve file fLNew signAtPath
  let signKeys ← signKeysAt file vssSchemeVec signersVec partyNumInt fLNew signAtPath draws.create
  -- The commitment to `gamma_i`, and `k_i` under the own key.
  let com := signer.phase1Broadcast signKeys draws.broadcast
  let mAK := signer.messageA (signer.kI signKeys) (signer.ek file.partyKeys) draws.messageA
  let round1AnsVec ← readRound partyNumInt totalParties uuid round1 (json.round1.encode (com.1, mAK))
  -- The end of this loop and those after it is `total_parties + 1`.
  let _ ← nextIndex totalParties
  let c ← collectRound1 json partyNumInt totalParties com.1 round1AnsVec
  if ¬ signersVec.length = c.1.length then .fail .assertFailed else
  -- The products.
  let messages ← multiply partyNumInt totalParties signKeys file.paillierKeyVec signersVec c.2 draws
  sendMessagesB json partyNumInt totalParties uuid messages.sendVec
  let round2AnsVec ← pollForP2p partyNumInt totalParties round2 uuid
  let mBRecVec ← readMessagesB json totalParties round2AnsVec
  let alphas ← takeAlphas partyNumInt totalParties file signKeys vssSchemeVec signersVec mBRecVec
  return { signKeys, bc1Vec := c.1, decommit := com.2, mBGammaRecVec := mBRecVec.map Prod.fst,
           deltaI := signer.phase2DeltaI signKeys alphas.1 messages.betaVec,
           sigma := signer.phase2SigmaI signKeys alphas.2 messages.niVec }

/-- Rounds 3 and 4, in which the nonce point comes up. -/
def noncePoint (partyNumInt totalParties : Nat) (uuid : String) (mta : MtaOutput signer) :
    Client G := do
  let round3AnsVec ← readRound partyNumInt totalParties uuid round3 (json.scalar.encode mta.deltaI)
  let deltaVec ← formatVecFromReads json.scalar round3AnsVec partyNumInt mta.deltaI
  let deltaInv ← signer.phase3ReconstructDelta deltaVec
  let round4AnsVec ← readRound partyNumInt totalParties uuid round4
    (json.decommit.encode mta.decommit)
  let decommitVec ← formatVecFromReads json.decommit round4AnsVec partyNumInt mta.decommit
  let decommit ← removeAt decommitVec (partyNumInt - 1)
  let bc1 ← removeAt mta.bc1Vec (partyNumInt - 1)
  let R ← signer.phase4 deltaInv (mta.mBGammaRecVec.map signer.bProof) decommit.2 bc1.2
  return R + deltaInv • signer.gGammaI decommit.1

/-- Rounds 5 to 8, in which the shares of the signature are checked. -/
def checkShares (partyNumInt totalParties : Nat) (uuid : String) (localSig : signer.LocalSignature)
    (R : G) (draws : SignDraws signer.Seed) : Client F := do
  let zk := signer.phase5a localSig draws.phase5a
  let round5AnsVec ← readRound partyNumInt totalParties uuid round5 (json.com1.encode zk.1)
  let commit5aVec ← formatVecFromReads json.com1 round5AnsVec partyNumInt zk.1
  let round6AnsVec ← readRound partyNumInt totalParties uuid round6 (json.round6.encode zk.2)
  let includesI ← formatVecFromReads json.round6 round6AnsVec partyNumInt zk.2
  let decommit5a ← removeAt includesI (partyNumInt - 1)
  let commit5a ← removeAt commit5aVec (partyNumInt - 1)
  let phase5aVec ← firsts (totalParties - 1) decommit5a.2
  let phase5 ← signer.phase5c localSig (phase5aVec.map fun e => e.1) commit5a.2
    (phase5aVec.map fun e => e.2.1) (phase5aVec.map fun e => e.2.2) (signer.VI zk.2.1) R
    draws.phase5c
  let round7AnsVec ← readRound partyNumInt totalParties uuid round7 (json.com2.encode phase5.1)
  let commit5cVec ← formatVecFromReads json.com2 round7AnsVec partyNumInt phase5.1
  let round8AnsVec ← readRound partyNumInt totalParties uuid round8 (json.decom2.encode phase5.2)
  let decommit5dVec ← formatVecFromReads json.decom2 round8AnsVec partyNumInt phase5.2
  let decommVec ← firsts totalParties includesI
  signer.phase5d localSig decommit5dVec commit5cVec (decommVec.map fun e => e.1)

/-- `sign`. -/
def sign [DecidableEq G] (file : KeyFile lib) (partyNumInt totalParties : Nat) (uuid : String)
    (ySum : G) (message : List UInt8) (fLNew : F) (signAtPath : Bool)
    (draws : SignDraws signer.Seed) : Client (Signed F G) := do
  let mta ← mtaRounds curve json file partyNumInt totalParties uuid fLNew signAtPath draws
  let R ← noncePoint json partyNumInt totalParties uuid mta
  let messageInt := fromBytes message
  let messageBn := messageInt % 2 ^ 256
  let localSig ← signer.phase5LocalSig (signer.kI mta.signKeys) messageBn R mta.sigma ySum
    draws.localSig
  let sI ← checkShares json partyNumInt totalParties uuid localSig R draws
  let round9AnsVec ← readRound partyNumInt totalParties uuid round9 (json.scalar.encode sI)
  let sIVec ← formatVecFromReads json.scalar round9AnsVec partyNumInt sI
  let others ← removeAt sIVec (partyNumInt - 1)
  let sig ← signer.outputSignature localSig others.2
  signer.verify sig ySum messageBn
  match curve.xCoord ySum, curve.yCoord ySum with
  | some x, some y => return { deltaI := mta.deltaI, sigma := mta.sigma, R, sig, x, y, messageInt }
  | _, _ => .fail .unwrapNone

/-- `run_pubkey_or_sign`, for a signature. -/
def runSign [Add F] [DecidableEq G] (hmac : Hmac) (file : KeyFile lib)
    (partyNumInt totalParties : Nat) (uuid messageStr path : String)
    (draws : SignDraws signer.Seed) : Client (Signed F G) := do
  let key ← keyAt curve hmac file.chainCode file.ySum path
  sign curve json file partyNumInt totalParties uuid key.2 (messageOf messageStr) key.1
    (path ≠ "") draws

end

end Ecdsa

/-! ## What the library says -/

section

variable {F G : Type} [Field F] [AddCommGroup G] [Module F G]

/-- An ECDSA signature of an integer for the public key `y`. -/
def EcdsaValid (curve : Curve F G) (y : G) (m : Nat) (sig : SignatureRecid F) : Prop :=
  sig.s ≠ 0 ∧ ∃ x, curve.xCoord ((curve.ofBigint m * sig.s⁻¹) • curve.generator +
    (sig.r * sig.s⁻¹) • y) = some x ∧ sig.r = curve.ofBigint x

variable {lib : Gg18 F G}

/-- The check of signer `i` on the messages of the others among `m`. -/
def Gg18Signer.check (signer : Gg18Signer lib) (m : Nat) (localSig : Nat → signer.LocalSignature)
    (seedA : Nat → signer.Seed) (R : G) (i : Nat) (seedC : signer.Seed) :
    Except Panic (signer.Com2 × signer.Decom2) :=
  let zk := fun j => signer.phase5a (localSig j) (seedA j)
  signer.phase5c (localSig i) ((others i m).map fun j => (zk j).2.1)
    ((others i m).map fun j => (zk j).1) ((others i m).map fun j => (zk j).2.2.1)
    ((others i m).map fun j => (zk j).2.2.2) (signer.VI (zk i).2.1) R seedC

/-- What the documentation says of honest signers. -/
structure Gg18Signer.Documented (curve : Curve F G) (signer : Gg18Signer lib) : Prop
    extends signer.Weighs curve.generator where
  e_phase1Broadcast : ∀ keys seed, lib.e (lib.phase1Broadcast keys seed).1 = signer.ek keys
  kI_create : ∀ priv vss i s seed, signer.kI (signer.create priv vss i s seed) = signer.drawK seed
  gammaI_create : ∀ priv vss i s seed,
    signer.gammaI (signer.create priv vss i s seed) = signer.drawGamma seed
  gGammaI_phase1Broadcast : ∀ keys seed,
    signer.gGammaI (signer.phase1Broadcast keys seed).2 = signer.gammaI keys • curve.generator
  /-- A message under the keys of one party makes shares of the product. -/
  mta : ∀ i seed k b seedA seedB, ∃ m beta alpha,
    signer.messageB b (signer.ek (lib.create i seed))
      (signer.messageA k (signer.ek (lib.create i seed)) seedA) seedB = .ok (m, beta) ∧
    signer.verifyProofsGetAlpha m (signer.dk (lib.create i seed)) k = .ok alpha ∧
    alpha + beta = k * b
  phase2DeltaI : ∀ keys (alphas betas : List F), alphas.length = betas.length →
    signer.phase2DeltaI keys alphas betas =
      signer.kI keys * signer.gammaI keys + alphas.sum + betas.sum
  phase2SigmaI : ∀ keys (mus nus : List F), mus.length = nus.length →
    signer.phase2SigmaI keys mus nus = signer.kI keys * signer.wI keys + mus.sum + nus.sum
  phase3ReconstructDelta : ∀ deltas : List F,
    deltas.sum ≠ 0 → signer.phase3ReconstructDelta deltas = .ok deltas.sum⁻¹
  /-- Zero has no inverse. -/
  phase3ReconstructDelta_zero : ∀ deltas : List F,
    deltas.sum = 0 → signer.phase3ReconstructDelta deltas = .error .unwrapNone
  /-- Commitments that open to the points of the proofs are accepted. -/
  phase4 : ∀ deltaInv (messages : List (lib.dlog.Proof × signer.SignBroadcast × signer.SignDecommit)),
    messages ≠ [] →
    (∀ m ∈ messages, (∃ keys seed, m.2 = signer.phase1Broadcast keys seed) ∧
      lib.dlog.pk m.1 = signer.gGammaI m.2.2) →
    signer.phase4 deltaInv (messages.map fun m => m.1) (messages.map fun m => m.2.2)
      (messages.map fun m => m.2.1) =
        .ok (deltaInv • (messages.map fun m => signer.gGammaI m.2.2).sum)
  phase5LocalSig : ∀ k m R sigma y seed x, curve.xCoord R = some x →
    ∃ localSig, signer.phase5LocalSig k m R sigma y seed = .ok localSig ∧
      signer.localS localSig = curve.ofBigint m * k + curve.ofBigint x * sigma ∧
      signer.localR localSig = R ∧ signer.localM localSig = m ∧ signer.localY localSig = y
  phase5c : ∀ m localSig seedA R i seedC, 2 ≤ m → 1 ≤ i → i ≤ m →
    (∀ j, 1 ≤ j → j ≤ m → signer.localR (localSig j) = R) →
    ∃ out, signer.check m localSig seedA R i seedC = .ok out
  /-- Shares that add up to a signature are given out. -/
  phase5d : ∀ m localSig seedA (seedC : Nat → signer.Seed) (out : Nat → signer.Com2 × signer.Decom2)
      R msg y x, 2 ≤ m →
    (∀ j, 1 ≤ j → j ≤ m → signer.check m localSig seedA R j (seedC j) = .ok (out j) ∧
      signer.localR (localSig j) = R ∧ signer.localM (localSig j) = msg ∧
      signer.localY (localSig j) = y) →
    curve.xCoord R = some x →
    ((List.range' 1 m).map fun j => signer.localS (localSig j)).sum • R =
      curve.ofBigint msg • curve.generator + curve.ofBigint x • y →
    ∀ i, 1 ≤ i → i ≤ m →
      signer.phase5d (localSig i) ((List.range' 1 m).map fun j => (out j).2)
        ((List.range' 1 m).map fun j => (out j).1)
        ((List.range' 1 m).map fun j => (signer.phase5a (localSig j) (seedA j)).2.1) =
          .ok (signer.localS (localSig i))
  /-- A signature is put into one of its two forms, and given out if it is valid. -/
  outputSignature : ∃ finish : G → F → SignatureRecid F,
    (∀ R s x, curve.xCoord R = some x → (finish R s).r = curve.ofBigint x) ∧
    (∀ R s, (finish R s).s = s ∨ (finish R s).s = -s) ∧
    ∀ localSig (shares : List F), EcdsaValid curve (signer.localY localSig) (signer.localM localSig)
        (finish (signer.localR localSig) (signer.localS localSig + shares.sum)) →
      signer.outputSignature localSig shares =
        .ok (finish (signer.localR localSig) (signer.localS localSig + shares.sum))
  verify : ∀ sig y m, EcdsaValid curve y m sig → signer.verify sig y m = .ok ()

end

end TssCli
