import TssCli.Common.Hex
import TssCli.Protocols.Eddsa.EphKeygen
import TssCli.Protocols.HdKeys

/-!
# The EdDSA signer

`run_signer` after its sign-up, with the number, the UUID and the number of
signers that the manager gave, and `run_pubkey`.

A signer at a path does not change its share.  It sets the public key of its
shared keys to the child, so that the local signatures answer the challenge for
the child, and adds the tweak times that challenge to the sum.
-/

namespace TssCli

open Mailbox Mailbox.Script Polynomial Sharing

/-! ## Messages -/

/-- The message of a text: the bytes it spells, or else its own. -/
def messageOf (messageStr : String) : List UInt8 :=
  match hexDecode messageStr.toList with
  | some bytes => bytes
  | none => messageStr.toUTF8.toList

/-- The message is the text's own bytes if the text spells none. -/
theorem messageOf_eq_iff {messageStr : String} :
    messageStr.toUTF8.toList = messageOf messageStr ↔
      hexDecode messageStr.toList = none ∨ messageStr = "" := by
  constructor
  · intro h
    cases hhex : hexDecode messageStr.toList with
    | none => exact Or.inl rfl
    | some bytes =>
        refine Or.inr ?_
        have hbytes : messageStr.toUTF8.toList = bytes := by
          rw [h, messageOf, hhex]
        have hlength := length_hexDecode hhex
        have hle := length_le_size_utf8Encode messageStr.toList
        rw [String.utf8Encode_toList, ← String.toUTF8_eq_toByteArray, ← length_byteArray_toList,
          hbytes] at hle
        have : messageStr.toList = [] := List.eq_nil_of_length_eq_zero (by omega)
        exact String.toList_inj.mp this
  · rintro (h | rfl)
    · rw [messageOf, h]
    · simp [messageOf, hexDecode]

namespace Eddsa

/-! ## The code -/

def round1LocalSig : Round := .ofName "round1_local_sig" (by decide)

section

variable {F G : Type} (curve : Curve F G) (sha512 : List UInt8 → List UInt8)

/-- The challenge of a signature: the hash in reverse, since integers are
big-endian, reduced modulo the order. -/
def challenge (R publicKey : G) (message : List UInt8) : F :=
  let k := sha512 (curve.pointBytes R ++ curve.pointBytes publicKey ++ message)
  curve.ofBigint (fromBytes k.reverse)

/-- `update_signature`. -/
def updateSignature [Add F] [Mul F] (signature : Signature F G) (publicKey : G)
    (message : List UInt8) (fLNew : F) : Signature F G :=
  let addToSigma := challenge curve sha512 signature.R publicKey message
  { signature with s := signature.s + fLNew * addToSigma }

end

section

variable {F G : Type} [Field F] [DecidableEq F] [AddCommGroup G] [Module F G]

/-- `update_hd_derived_public_key`. -/
def updateHdDerivedPublicKey (F : Type) [Field F] [DecidableEq F] [Module F G] (publicKey : G) :
    Except Panic G :=
  if (8 : F) = 0 then .error .unwrapNone
  else .ok ((8 : F) • ((8 : F)⁻¹ • publicKey))

variable {lib : ThresholdSig F G} (curve : Curve F G) (hmac : Hmac)

/-- The root key, or the key at the path with its tweak. -/
def keyAt (keyFile : KeyFile lib) (path : String) : Except Panic (G × F) :=
  if path = "" then .ok (keyFile.ySum, 0)
  else do
    let chainCode := keyFile.chainCode • curve.generator
    let child ← getHdKey curve hmac keyFile.ySum path chainCode
    let safePublicKeyChild ← updateHdDerivedPublicKey F child.1
    return (safePublicKeyChild, child.2)

/-- What is reported of a public key. -/
structure Pubkey where
  x : Nat
  y : Nat
  path : String
deriving DecidableEq

/-- The report of a point, if it has coordinates. -/
def reportKey (ySum : G) (path : String) : Except Panic Pubkey :=
  match curve.xCoord ySum, curve.yCoord ySum with
  | some x, some y => .ok { x, y, path }
  | _, _ => .error .unwrapNone

/-- `run_pubkey`. -/
def runPubkey (keyFile : KeyFile lib) (path : String) : Except Panic Pubkey := do
  let key ← keyAt curve hmac keyFile path
  reportKey curve key.1 path

variable (aes : AesGcm) (sha512 : List UInt8 → List UInt8) (signer : ThresholdSigner lib)

/-- The JSON of the messages. -/
structure SignerJson where
  index : Codec Nat
  eph : EphJson signer
  localSig : Codec signer.LocalSig

variable {signer}

/-- `party_id - 1` on `u16`. -/
def partyIndex (partyId : Nat) : Except Panic Nat :=
  if partyId = 0 then .error .overflow else .ok (partyId - 1)

/-- The shared keys a signer signs with. -/
def keysAt (signer : ThresholdSigner lib) (keyFile : KeyFile lib) (path : String) (Y : G) :
    lib.SharedKeys :=
  if path = "" then keyFile.sharedKeys else signer.setY keyFile.sharedKeys Y

/-- The signature of the signers together, and at a path the tweak on top. -/
def finishSignature (signature : Signature F G) (path : String) (Y : G) (message : List UInt8)
    (fLNew : F) : Signature F G :=
  if path = "" then signature else updateSignature curve sha512 signature Y message fLNew

/-- `run_signer`. -/
def runSigner (json : SignerJson signer) (keyFile : KeyFile lib)
    (threshold partyNumInt totalParties : Nat) (uuid messageStr path : String)
    (draws : EphDraws signer.Seed) : Client (Signature F G × G) := do
  let message := messageOf messageStr
  let key ← keyAt curve hmac keyFile path
  let sharedKeys := keysAt signer keyFile path key.1
  let index₀ ← partyIndex keyFile.partyNumInt
  let signers ← nextIndex threshold
  let partiesIndexVec ← exchangeData json.index partyNumInt signers uuid round0 index₀
  let eph ← ephKeygen curve aes json.eph uuid threshold totalParties partyNumInt keyFile.partyKeys
    message partiesIndexVec draws
  let ephShared ← index eph.sharedKeysVec (partyNumInt - 1)
  let localSig := signer.compute message ephShared sharedKeys
  let localSigVec ← exchangeData json.localSig partyNumInt totalParties uuid round1LocalSig localSig
  match signer.verifyLocalSigs localSigVec partiesIndexVec keyFile.vssSchemeVec
      eph.vssSchemeVec with
  | none => .fail .assertFailed
  | some vssSumLocalSigs =>
      let signature := finishSignature curve sha512
        (signer.generate vssSumLocalSigs localSigVec partiesIndexVec eph.RSum) path key.1 message
        key.2
      if signer.verify signature message key.1 then return (signature, key.1)
      else .fail .assertFailed

end

end Eddsa

/-! ## What the library says -/

/-- What the documentation says of honest signers. -/
structure ThresholdSigner.Documented {F G : Type} [Field F] [AddCommGroup G] [Module F G]
    (curve : Curve F G) (sha512 : List UInt8 → List UInt8) {lib : ThresholdSig F G}
    (signer : ThresholdSigner lib) : Prop extends signer.DealsNonces curve.generator where
  y_setY : ∀ shared y, lib.y (signer.setY shared y) = y
  xI_setY : ∀ shared y, lib.xI (signer.setY shared y) = lib.xI shared
  /-- The challenge of a local signature is for the public key of the shared keys. -/
  k_compute : ∀ message eph shared, signer.k (signer.compute message eph shared) =
    Eddsa.challenge curve sha512 (signer.sharedR eph) (lib.y shared) message
  /-- A local signature adds up the share of the nonce, and the challenge times
  the share of the secret. -/
  gammaI_compute : ∀ message eph shared, signer.gammaI (signer.compute message eph shared) =
    signer.sharedRI eph +
      Eddsa.challenge curve sha512 (signer.sharedR eph) (lib.y shared) message * lib.xI shared
  /-- Local signatures are accepted that are valid shares under the commitments to
  the nonce plus the challenge times those to the secret. -/
  verifyLocalSigs : ∀ (sigs : List signer.LocalSig) (indices : List Nat) (keyVss ephVss : List (Vss G))
      (t : Nat) (c : F),
    keyVss ≠ [] → ephVss ≠ [] →
    (∀ vss ∈ keyVss ++ ephVss, vss.threshold = t ∧ vss.commitments.length = t + 1) →
    indices.length = sigs.length → t < indices.length → (∀ sig ∈ sigs, signer.k sig = c) →
    (∀ e ∈ sigs.zip indices, signer.gammaI e.1 • curve.generator =
      (ephVss.map fun vss => evalCommit vss.commitments ((e.2 + 1 : Nat) : F)).sum +
        c • (keyVss.map fun vss => evalCommit vss.commitments ((e.2 + 1 : Nat) : F)).sum) →
    ∃ vss, signer.verifyLocalSigs sigs indices keyVss ephVss = some vss ∧ vss.threshold = t
  /-- Shares at different points interpolate to the value at `0`. -/
  generate : ∀ (vss : Vss G) (sigs : List signer.LocalSig) (indices : List Nat) (R : G) (p : F[X]),
    p.natDegree ≤ vss.threshold → indices.length = sigs.length →
    vss.threshold < indices.length →
    (indices.map fun i => ((i + 1 : Nat) : F)).Nodup →
    (∀ e ∈ sigs.zip indices, signer.gammaI e.1 = p.eval ((e.2 + 1 : Nat) : F)) →
    signer.generate vss sigs indices R = { R, s := p.eval 0 }
  verify : ∀ signature message y, signer.verify signature message y = true ↔
    signature.s • curve.generator =
      signature.R + Eddsa.challenge curve sha512 signature.R y message • y

end TssCli
