import TssCli.Protocols.Additive
import TssCli.Protocols.Secp256k1

/-!
# Do shares survive their round?

Encrypted shares are sent in three places: in the third round of both key
generations and in the third round of the ephemeral one.  The three differ in
what they make of the x-coordinate that two parties share.  The last two pad its
bytes to the length of a key, the ECDSA key generation does not, so there a
share gets through only if the coordinate fills its 32 bytes.
-/

namespace TssCli

open Mailbox Mailbox.Script

/-! ## An exchange of shares -/

section

variable {F : Type}

/-- Every party sends a packet to each other party and reads those sent to it as
the shares they were made from, and no party panics. -/
def SharesSurvive (n : Nat) (round : Round) (uuid : String) (send : Nat → Client Unit)
    (read : Nat → List String → Except Panic (List F)) (share : Nat → Nat → F) : Prop :=
  ∃ text : Nat → Nat → String, ∀ me, 1 ≤ me → me ≤ n →
    Executes (send me)
      ((others me n).map fun i => .posted (p2pKey me i round uuid) (text me i)) () ∧
    read me ((others me n).map fun i => text i me) =
      .ok ((List.range' 1 n).map fun i => share i me)

variable {G : Type} {curve : Curve F G} {aes : AesGcm} {packJson : Codec AeadPack} {n : Nat}
  {round : Round} {uuid : String} {send : Nat → Client Unit}
  {read : Nat → List String → Except Panic (List F)} {share : Nat → Nat → F}
  {key : Nat → Nat → List UInt8}

/-- A share is sent only under a key of its length. -/
theorem sendShare_length {me i : Nat} {key : List UInt8} {share : F} {nonce : Nonce}
    {ops : List (Op Key String)}
    (h : Executes (sendShare curve aes packJson me i round uuid key share nonce) ops ()) :
    key.length = 32 := by
  by_contra hkey
  rw [sendShare, sealShare_short hkey] at h
  cases h

variable [Field F] [AddCommGroup G]

/-- A share is sent under a key of its length. -/
theorem sendShare_executes (hcurve : curve.Documented) (haes : aes.Documented) {me i : Nat}
    {key : List UInt8} {share : F} {nonce : Nonce} (hkey : key.length = 32) :
    Executes (sendShare curve aes packJson me i round uuid key share nonce)
      [.posted (p2pKey me i round uuid) (packetText curve aes packJson key share nonce)] () := by
  obtain ⟨aeadPack, hseal, htext, _⟩ := sealShare_ok packJson share nonce hcurve haes hkey
  rw [sendShare, hseal, lift_ok, pure_bind, htext]
  exact .post .ret

/-- Shares survive if every key that two parties share has its length, and only
then. -/
theorem sharesSurvive_iff (packJson : Codec AeadPack) (nonce : Nat → Nat → Nonce)
    (hcurve : curve.Documented) (haes : aes.Documented) (hcomm : ∀ i j, key i j = key j i)
    (hsend : ∀ me, 1 ≤ me → me ≤ n → send me =
      (List.range' 1 n).foldlM (fun _ i => if i = me then pure () else
        sendShare curve aes packJson me i round uuid (key me i) (share me i) (nonce me i)) ())
    (hread : ∀ me, 1 ≤ me → me ≤ n → ∀ text : Nat → String, read me ((others me n).map text) =
      (List.range' 1 n).foldlM (fun v i => do
        return v ++
          [← openedShare curve aes packJson me (share me me) (key me i) (text i) i]) []) :
    SharesSurvive n round uuid send read share ↔
      ∀ i j, 1 ≤ i → i ≤ n → j ∈ others i n → (key i j).length = 32 := by
  constructor
  · rintro ⟨text, h⟩ i j hi₁ hin hj
    have hsent := (h i hi₁ hin).1
    rw [hsend i hi₁ hin] at hsent
    obtain ⟨ops, hops⟩ := foldlM_executes hsent j (List.mem_filter.mp hj).1
    rw [if_neg (mem_others.mp hj).2] at hops
    exact sendShare_length hops
  · intro hkey
    refine ⟨fun i j => packetText curve aes packJson (key i j) (share i j) (nonce i j),
      fun me h₁ hn => ⟨?_, ?_⟩⟩
    · rw [hsend me h₁ hn]
      refine executes_foldlM fun i hi hne => ?_
      exact sendShare_executes hcurve haes
        (hkey me i h₁ hn (List.mem_filter.mpr ⟨hi, decide_eq_true hne⟩))
    · rw [hread me h₁ hn]
      refine (foldlM_push_cases (p := fun _ => False) [] fun i hi => Or.inl ?_).resolve_right
        fun ⟨_, _, hfalse⟩ => hfalse
      by_cases hme : i = me
      · rw [openedShare, if_pos hme, hme]
      · have hmem : i ∈ others me n := List.mem_filter.mpr ⟨hi, decide_eq_true hme⟩
        rw [openedShare, if_neg hme, hcomm me i]
        exact openShare_packetText hcurve haes (hcomm me i ▸ hkey me i h₁ hn hmem)

end

/-! ## The key generations -/

section

variable {F G Bc Decom Kept EncKey Shared Proof : Type} (curve : Curve F G) (aes : AesGcm)
  (json : KeygenJson G Bc Decom Proof)
  (calls : Nat → KeygenCalls F G Bc Decom Kept EncKey Shared Proof) (n : Nat) (uuid : String)
  (nonce : Nat → Nat → Nonce) (share : Nat → Nat → F)

/-- What a party has collected in the second round. -/
def collectedAt (me : Nat) : Except Panic (Collected G Kept EncKey) :=
  collectDecoms json (calls me) me n
    ((others me n).map fun i => json.decom.encode (calls i).decomI)

/-- Shares survive the third round of a key generation. -/
def KeygenSharesSurvive : Prop :=
  SharesSurvive n round3 uuid
    (fun me => do
      let c ← collectedAt json calls n me
      sendShares curve aes json.pack (calls me).keyBytes me n round3 uuid c.encKeys
        ((List.range' 1 n).map (share me)) (nonce me))
    (fun me round3AnsVec => do
      let c ← collectedAt json calls n me
      readShares curve aes json.pack (calls me).keyBytes me n c.encKeys
        ((List.range' 1 n).map (share me)) round3AnsVec)
    share

variable [Field F] [AddCommGroup G] [Module F G] {curve aes json calls n uuid nonce share}

theorem keygenSharesSurvive_iff (secret : Nat → F) (encKey : Nat → Nat → EncKey)
    (hcurve : curve.Documented) (haes : aes.Documented)
    (hyI : ∀ i j, (calls i).yI (calls j).decomI = secret j • curve.generator)
    (hkey : ∀ i j, (calls i).encKey (calls j).decomI = .ok (encKey i j))
    (hcomm : ∀ i j, (calls i).keyBytes (encKey i j) = (calls j).keyBytes (encKey j i)) :
    KeygenSharesSurvive curve aes json calls n uuid nonce share ↔
      ∀ i j, 1 ≤ i → i ≤ n → j ∈ others i n → ((calls i).keyBytes (encKey i j)).length = 32 := by
  have hcollected : ∀ me, collectedAt json calls n me = _ := fun me =>
    collectDecoms_eq (hyI me) fun i _ => hkey me i
  refine sharesSurvive_iff json.pack nonce hcurve haes hcomm
    (fun me _ _ => ?_) (fun me h₁ hn text => ?_)
  · rw [hcollected me, lift_ok, pure_bind, sendShares_eq]
  · rw [hcollected me, except_ok_bind, readShares_eq h₁ hn]

end

section

variable {F G : Type} [Field F] [AddCommGroup G] [Module F G] {curve : Curve F G} {aes : AesGcm}

/-- The shares of an ECDSA key generation survive if the coordinate of any two
parties has a first byte other than zero, and only then. -/
theorem Ecdsa.sharesSurvive_iff (hcurve : curve.Documented) (haes : aes.Documented) {lib : Gg18 F G}
    (hlib : lib.Documented curve.generator) (json : Ecdsa.Json lib) (t n : Nat)
    (draws : Nat → Ecdsa.Draws F lib.Seed) (uuid : String) (share : Nat → Nat → F) :
    KeygenSharesSurvive curve aes json.keygen (fun i => Ecdsa.calls curve t n i (draws i)) n uuid
        (fun i => (draws i).nonce) share ↔
      ∀ i j, 1 ≤ i → i ≤ n → j ∈ others i n →
        2 ^ 248 ≤ dhX curve (lib.uI (Ecdsa.partyKeys i (draws i)))
          (lib.uI (Ecdsa.partyKeys j (draws j))) := by
  let u : Nat → F := fun i => lib.uI (Ecdsa.partyKeys i (draws i))
  have hu : ∀ i, u i ≠ 0 := fun i => hlib.uI_ne_zero i _
  have hx := fun i j => sharedX_eq hcurve (hu i) (hu j)
  have hcomm : ∀ i j, dhX curve (u i) (u j) = dhX curve (u j) (u i) := fun i j => dhX_comm _ _ _
  rw [keygenSharesSurvive_iff u (fun i j => dhX curve (u i) (u j)) hcurve haes
    (fun i j => hlib.yI _ _) (fun i j => ?_) fun i j => congrArg toBytes (hcomm i j)]
  · simp only [Ecdsa.calls, length_toBytes (hx _ _).2, u]
  · simpa [Ecdsa.calls, hlib.yI] using (hx i j).1

/-- The shares of an EdDSA key generation survive. -/
theorem Eddsa.sharesSurvive (hcurve : curve.Documented) (haes : aes.Documented)
    {lib : ThresholdSig F G} (hlib : lib.Documented curve.generator) (json : Eddsa.Json lib)
    (t n : Nat) (draws : Nat → Eddsa.Draws F lib.Seed) (uuid : String) (share : Nat → Nat → F) :
    KeygenSharesSurvive curve aes json.keygen (fun i => Eddsa.calls curve t n i (draws i)) n uuid
      (fun i => (draws i).nonce) share := by
  let u : Nat → F := fun i => lib.privateKey (Eddsa.partyKeys i (draws i))
  have hu : ∀ i, u i ≠ 0 := fun i => hlib.privateKey_ne_zero i _
  obtain ⟨key, hpad, hcomm, hlength⟩ := exists_paddedKey hcurve hu
  rw [keygenSharesSurvive_iff u key hcurve haes (fun i j => hlib.yI _ _)
    (fun i j => ?_) hcomm]
  · exact fun i j _ _ _ => hlength i j
  · have hx := (sharedX_eq hcurve (hu i) (hu j)).1
    simp only [Eddsa.calls, hlib.yI]
    rw [show sharedX curve _ _ = _ from hx, except_ok_bind, hpad i j]

/-! ## The ephemeral key generation -/

namespace Eddsa

section

variable (curve aes) {lib : ThresholdSig F G} {signer : ThresholdSigner lib} (json : EphJson signer)
  (n : Nat) (keys : Nat → lib.Keys) (message : List UInt8) (id : Nat → Nat)
  (draws : Nat → EphDraws signer.Seed) (uuid : String) (share : Nat → Nat → F)

/-- What a signer has collected in the first round. -/
def ephCollectedAt (me : Nat) : Except Panic (EphCollected G lib.Broadcast) :=
  collectEph curve json.round1 me n ((List.range' 1 n).map id)
    (ephBroadcastAt signer keys message id draws me).1
    (ephBroadcastAt signer keys message id draws me).2
    (signer.RI (ephKeyAt signer keys message id draws me))
    (signer.rI (ephKeyAt signer keys message id draws me))
    ((others me n).map fun i => json.round1.encode
      ((ephBroadcastAt signer keys message id draws i).1,
        (ephBroadcastAt signer keys message id draws i).2,
        signer.RI (ephKeyAt signer keys message id draws i)))

/-- Shares survive the third round of the ephemeral key generation. -/
def EphSharesSurvive : Prop :=
  SharesSurvive n ephKeygenRound3 uuid
    (fun me => do
      let c ← ephCollectedAt curve json n keys message id draws me
      sendEphShares curve aes json.pack me n ((List.range' 1 n).map id) ephKeygenRound3 uuid
        c.encKeys ((List.range' 1 n).map (share me)) (draws me).nonce)
    (fun me round3AnsVec => do
      let c ← ephCollectedAt curve json n keys message id draws me
      readEphShares curve aes json.pack me n ((List.range' 1 n).map id) c.encKeys
        ((List.range' 1 n).map (share me)) round3AnsVec)
    share

end

/-- The shares of a nonce survive, if the signers have different evaluation
points. -/
theorem ephSharesSurvive (hcurve : curve.Documented) (haes : aes.Documented)
    {lib : ThresholdSig F G} {signer : ThresholdSigner lib}
    (hsigner : signer.DealsNonces curve.generator) (json : EphJson signer) {n : Nat}
    (keys : Nat → lib.Keys) (message : List UInt8) {id : Nat → Nat}
    (hid : Set.InjOn id (Set.Icc 1 n)) (draws : Nat → EphDraws signer.Seed) (uuid : String)
    (share : Nat → Nat → F) :
    EphSharesSurvive curve aes json n keys message id draws uuid share := by
  let r : Nat → F := fun i => signer.rI (ephKeyAt signer keys message id draws i)
  have hr : ∀ i, r i ≠ 0 := fun i => hsigner.rI_ne_zero _ _ _ _
  have hR : ∀ i, signer.RI (ephKeyAt signer keys message id draws i) = r i • curve.generator :=
    fun i => hsigner.RI _ _ _ _
  obtain ⟨key, hpad, hcomm, hlength⟩ := exists_paddedKey hcurve hr
  have hcollected : ∀ me, ephCollectedAt curve json n keys message id draws me = _ := fun me =>
    collectEph_eq (fun i => (ephBroadcastAt signer keys message id draws i).1)
      (fun i => (ephBroadcastAt signer keys message id draws i).2)
      (fun i => signer.RI (ephKeyAt signer keys message id draws i))
      fun i _ => ⟨_, by rw [hR i]; exact (sharedX_eq hcurve (hr me) (hr i)).1, hpad me i⟩
  have hkeys := fun me i (hi : i ∈ others me n) => ephKeyOf_eq (key me) hid hi
  refine (sharesSurvive_iff json.pack (fun i => (draws i).nonce) hcurve haes hcomm
    (fun me _ _ => ?_) (fun me h₁ hn text => ?_)).mpr fun i j _ _ _ => hlength i j
  · rw [hcollected me, lift_ok, pure_bind, sendEphShares_eq (hkeys me)]
  · rw [hcollected me, except_ok_bind, readEphShares_eq (hkeys me) h₁ hn]

end Eddsa

end

/-! ## All three -/

/-- The shares of the two EdDSA protocols survive for all secrets, those of the
ECDSA key generation for the secrets whose coordinates have 32 bytes. -/
theorem shares_survive {F G F' G' : Type} [Field F] [AddCommGroup G] [Module F G] [Field F']
    [AddCommGroup G'] [Module F' G'] {secp256k1 : Curve F G} {ed25519 : Curve F' G'} {aes : AesGcm}
    {gg18 : Gg18 F G} {thresholdSig : ThresholdSig F' G'} {signer : ThresholdSigner thresholdSig}
    (hsecp : secp256k1.Documented) (hed : ed25519.Documented) (haes : aes.Documented)
    (hgg18 : gg18.Documented secp256k1.generator)
    (hthreshold : thresholdSig.Documented ed25519.generator)
    (hsigner : signer.DealsNonces ed25519.generator) (ecdsaJson : Ecdsa.Json gg18)
    (eddsaJson : Eddsa.Json thresholdSig) (ephJson : Eddsa.EphJson signer)
    (t n : Nat) (uuid : String) :
    (∀ (draws : Nat → Ecdsa.Draws F gg18.Seed) (share : Nat → Nat → F),
      KeygenSharesSurvive secp256k1 aes ecdsaJson.keygen
          (fun i => Ecdsa.calls secp256k1 t n i (draws i)) n uuid (fun i => (draws i).nonce) share ↔
        ∀ i j, 1 ≤ i → i ≤ n → j ∈ others i n →
          2 ^ 248 ≤ dhX secp256k1 (gg18.uI (Ecdsa.partyKeys i (draws i)))
            (gg18.uI (Ecdsa.partyKeys j (draws j)))) ∧
    (∀ (draws : Nat → Eddsa.Draws F' thresholdSig.Seed) (share : Nat → Nat → F'),
      KeygenSharesSurvive ed25519 aes eddsaJson.keygen (fun i => Eddsa.calls ed25519 t n i (draws i))
        n uuid (fun i => (draws i).nonce) share) ∧
    ∀ (keys : Nat → thresholdSig.Keys) (message : List UInt8) (id : Nat → Nat)
      (draws : Nat → Eddsa.EphDraws signer.Seed) (share : Nat → Nat → F'), Set.InjOn id (Set.Icc 1 n) →
      Eddsa.EphSharesSurvive ed25519 aes ephJson n keys message id draws uuid share :=
  ⟨fun draws share => Ecdsa.sharesSurvive_iff hsecp haes hgg18 ecdsaJson t n draws uuid share,
    fun draws share => Eddsa.sharesSurvive hed haes hthreshold eddsaJson t n draws uuid share,
    fun keys message _ draws share hid =>
      Eddsa.ephSharesSurvive hed haes hsigner ephJson keys message hid draws uuid share⟩

/-! ## On secp256k1 -/

open Secp256k1

/-- What a party of two draws when its secret is `1` or `k`. -/
def drawsOf (k : Nat) (i : Nat) : Ecdsa.Draws (ZMod order) (additiveGg18 order).Seed where
  keys := if i = 1 then (1 : ZMod order) else (k : ZMod order)
  chainCode := 0
  chainNonce := 0
  broadcast := (0 : ZMod order)
  distribute := (0 : ZMod order)
  construct := (0 : ZMod order)
  nonce _ := List.Vector.replicate 12 0

noncomputable def countableJson : Ecdsa.Json (additiveGg18 order) :=
  ⟨.ofCountable _, .ofCountable _ Nat (ZMod order) (ZMod order × ZMod order)⟩

/-- The coordinate of the parties with the secrets `1` and `k`. -/
theorem dhX_drawsOf {k : Nat} (hk₁ : 0 < k) (hk : k < order) :
    dhX secp256k1 ((additiveGg18 order).uI (Ecdsa.partyKeys 1 (drawsOf k 1)))
      ((additiveGg18 order).uI (Ecdsa.partyKeys 2 (drawsOf k 2))) = (coordinates k).1 := by
  have hval : (k : ZMod order).val = k := ZMod.val_cast_of_lt hk
  have hne : (k : ZMod order) ≠ 0 := fun h => by
    rw [h, ZMod.val_zero] at hval
    omega
  simp [dhX, secp256k1, additiveGg18, Ecdsa.partyKeys, drawsOf, nonzero, hne, hval]

/-- The only pair of two parties. -/
theorem forall_pair {r : Nat → Nat → Prop} (hcomm : r 1 2 → r 2 1) :
    (∀ i j, 1 ≤ i → i ≤ 2 → j ∈ others i 2 → r i j) ↔ r 1 2 := by
  constructor
  · exact fun h => h 1 2 le_rfl (by decide) (by decide)
  · intro h i j hi₁ hi₂ hj
    obtain ⟨⟨hj₁, hj₂⟩, hne⟩ := mem_others.mp hj
    obtain rfl | rfl : i = 1 ∨ i = 2 := by omega
    · obtain rfl : j = 2 := by omega
      exact h
    · obtain rfl : j = 1 := by omega
      exact hcomm h

/-- Shares of zero survive between the secrets `1` and `2`. -/
theorem shares_survive_double :
    KeygenSharesSurvive secp256k1 xorAes countableJson.keygen
      (fun i => Ecdsa.calls secp256k1 1 2 i (drawsOf 2 i)) 2 "u" (fun i => (drawsOf 2 i).nonce)
      fun _ _ => 0 := by
  refine ((shares_survive secp256k1_documented
    (additiveCurve_documented 65537 (by norm_num) (by norm_num)) xorAes_documented
    (additiveGg18_documented order) (additiveThresholdSig_documented 65537)
    (additiveSigner_documented 65537 id).toDealsNonces countableJson
    ⟨.ofCountable _, .ofCountable _ (ZMod 65537) (ZMod 65537) (ZMod 65537 × ZMod 65537)⟩
    ⟨.ofCountable (ZMod 65537 × Nat × ZMod 65537), .ofCountable _, .ofCountable _,
      .ofCountable (ZMod 65537 × ZMod 65537)⟩ 1 2 "u").1 (drawsOf 2) fun _ _ => 0).mpr ?_
  rw [forall_pair fun h => dhX_comm secp256k1 _ _ ▸ h, dhX_drawsOf (by decide) (by decide)]
  decide +kernel

/-- Between the secrets `1` and one half no share survives: the coordinate of
their point has 21 bytes. -/
theorem half_panics :
    ¬ KeygenSharesSurvive secp256k1 xorAes countableJson.keygen
      (fun i => Ecdsa.calls secp256k1 1 2 i (drawsOf ((order + 1) / 2) i)) 2 "u"
      (fun i => (drawsOf ((order + 1) / 2) i).nonce) fun _ _ => 1 := by
  rw [Ecdsa.sharesSurvive_iff secp256k1_documented xorAes_documented (additiveGg18_documented order),
    forall_pair fun h => dhX_comm secp256k1 _ _ ▸ h, dhX_drawsOf (by decide) (by decide),
    coordinates_half]
  decide

end TssCli
