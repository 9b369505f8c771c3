import TssCli.Protocols.Additive
import TssCli.Protocols.KeygenAgreement

/-!
# EdDSA signatures are correct

The signers of one room hold shares of one secret, from an honest key generation.
In an ephemeral key generation they get shares of a nonce, and their local
signatures are shares of the signature: values of one polynomial, whose value at
`0` is the nonce plus the challenge times the secret.  At a path the tweak times
the challenge is added, and the sum is a signature under the child key.

Every signer that returns returns that signature (`eddsa_signing`), and unless
something expires or somebody gives up, all do.
-/

namespace TssCli

open Mailbox Mailbox.Script Polynomial Sharing

namespace Eddsa

/-! ## What the signers hold -/

section

variable {F G : Type} [Field F] [AddCommGroup G] [Module F G] {lib : ThresholdSig F G}

/-- The key files of signers `1` to `m`, with evaluation points `id`: shares of the
secret `p.eval 0`, with one public key, one chain code and one vector of
commitments. -/
structure HoldShares (curve : Curve F G) (t m : Nat) (id : Nat → Nat) (file : Nat → KeyFile lib)
    (p : F[X]) (vssVec : List (Vss G)) (chainCode : F) : Prop where
  degree : p.natDegree ≤ t
  nonempty : vssVec ≠ []
  dealt : ∀ vss ∈ vssVec, vss.threshold = t ∧ vss.commitments.length = t + 1
  commitments : ∀ x : F, (vssVec.map fun vss => evalCommit vss.commitments x).sum =
    p.eval x • curve.generator
  ySum : ∀ k, 1 ≤ k → k ≤ m → (file k).ySum = p.eval 0 • curve.generator
  y : ∀ k, 1 ≤ k → k ≤ m → lib.y (file k).sharedKeys = p.eval 0 • curve.generator
  xI : ∀ k, 1 ≤ k → k ≤ m → lib.xI (file k).sharedKeys = p.eval (id k : F)
  chainCode : ∀ k, 1 ≤ k → k ≤ m → (file k).chainCode = chainCode
  vssSchemeVec : ∀ k, 1 ≤ k → k ≤ m → (file k).vssSchemeVec = vssVec
  partyNumInt : ∀ k, 1 ≤ k → k ≤ m → (file k).partyNumInt = id k

variable {curve : Curve F G} {excused : Panic → Prop} {t n m : Nat} {id : Nat → Nat}

/-- The parties of an honest key generation hold shares. -/
theorem holdShares {draws : Nat → Draws F lib.Seed}
    {v : KeygenValues F G (List UInt8) lib.SharedKeys lib.dlog.Proof}
    (h : HonestCalls curve excused t n (fun i => calls curve t n i (draws i)) v)
    (hxI : ∀ i, lib.xI (v.shared i) =
      ((List.range' 1 n).map fun j => (v.poly j).eval (i : F)).sum)
    (hy : ∀ i, lib.y (v.shared i) =
      ((List.range' 1 n).map fun j => v.secret j • curve.generator).sum)
    (hn : 0 < n) {file : Nat → KeyFile lib}
    (hfile : ∀ k, 1 ≤ k → k ≤ m → file k = honestFile curve n draws v (id k)) :
    HoldShares curve t m id file ((List.range' 1 n).map v.poly).sum ((List.range' 1 n).map v.vss)
      ((List.range' 1 n).map fun j => (draws j).chainCode).sum where
  degree := natDegree_sum_map fun j => (h.deals j).degree
  nonempty := by
    rw [Ne, List.map_eq_nil_iff, List.range'_eq_nil_iff]
    omega
  dealt vss hvss := by
    obtain ⟨j, _, rfl⟩ := List.mem_map.mp hvss
    rw [(h.deals j).vss]
    exact ⟨rfl, length_commit⟩
  commitments := sum_evalCommit h.deals
  ySum k h₁ hk := by
    rw [hfile k h₁ hk]
    exact sum_secrets h.deals
  y k h₁ hk := by
    rw [hfile k h₁ hk]
    exact (hy (id k)).trans (sum_secrets h.deals)
  xI k h₁ hk := by
    rw [hfile k h₁ hk, eval_listSum, List.map_map]
    exact hxI (id k)
  chainCode k h₁ hk := by rw [hfile k h₁ hk]; rfl
  vssSchemeVec k h₁ hk := by rw [hfile k h₁ hk]; rfl
  partyNumInt k h₁ hk := by rw [hfile k h₁ hk]; rfl

end

/-! ## The signature -/

section

variable {F G : Type} [Field F] [AddCommGroup G] [Module F G]
  {lib : ThresholdSig F G} {signer : ThresholdSigner lib} (curve : Curve F G)
  (sha512 : List UInt8 → List UInt8) (t : Nat) (file : Nat → KeyFile lib) (p : F[X])
  (message : List UInt8) (path : String) (Y : G) (f : F) (w : EphValues signer)

/-- The joint polynomial of the nonce. -/
noncomputable def nonce : F[X] := ((List.range' 1 (t + 1)).map w.poly).sum

/-- The challenge that all signers answer. -/
noncomputable def jointChallenge : F :=
  challenge curve sha512 ((nonce t w).eval 0 • curve.generator) Y message

/-- The local signature of signer `k`. -/
def localSigAt (k : Nat) : signer.LocalSig :=
  signer.compute message (w.shared k) (keysAt signer (file k) path Y)

/-- The polynomial whose values are the local signatures. -/
noncomputable def sigPoly : F[X] :=
  nonce t w + C (jointChallenge curve sha512 t message Y w) * p

/-- The signature that all signers return. -/
noncomputable def honestSignature : Signature F G where
  R := (nonce t w).eval 0 • curve.generator
  s := (sigPoly curve sha512 t p message Y w).eval 0 + f * jointChallenge curve sha512 t message Y w

variable {curve sha512 t file p message path Y f w} {id : Nat → Nat} {vssVec : List (Vss G)}
  {chainCode : F} {draws : Nat → EphDraws signer.Seed} {keys : Nat → lib.Keys}

/-- The tweaked secret belongs to the key that is signed for. -/
theorem honestSignature_valid (hY : Y = (p.eval 0 + f) • curve.generator) :
    (honestSignature curve sha512 t p message Y f w).s • curve.generator =
      (honestSignature curve sha512 t p message Y f w).R +
        challenge curve sha512 (honestSignature curve sha512 t p message Y f w).R Y message • Y := by
  have hc : challenge curve sha512 (honestSignature curve sha512 t p message Y f w).R Y message =
      jointChallenge curve sha512 t message Y w := rfl
  rw [hc]
  simp only [honestSignature, sigPoly, eval_add, eval_mul, eval_C]
  rw [hY, smul_smul, ← add_smul]
  congr 1
  ring

theorem natDegree_nonce (h : HonestEph keys message id draws curve t (t + 1) w) :
    (nonce t w).natDegree ≤ t :=
  natDegree_sum_map fun j => (h.deals j).degree

theorem natDegree_sigPoly (h : HonestEph keys message id draws curve t (t + 1) w)
    (hp : p.natDegree ≤ t) : (sigPoly curve sha512 t p message Y w).natDegree ≤ t :=
  (natDegree_add_le _ _).trans (max_le (natDegree_nonce h) ((natDegree_C_mul_le _ _).trans hp))

/-- The sum of the nonce points. -/
theorem sum_RI (h : HonestEph keys message id draws curve t (t + 1) w) :
    ((List.range' 1 (t + 1)).map fun j =>
      signer.RI (ephKeyAt signer keys message id draws j)).sum =
      (nonce t w).eval 0 • curve.generator := by
  rw [nonce, ← sum_secrets h.deals]
  exact congrArg List.sum (List.map_congr_left fun j _ => h.RI j)

theorem sharedR_eq (h : HonestEph keys message id draws curve t (t + 1) w) (k : Nat) :
    signer.sharedR (w.shared k) = (nonce t w).eval 0 • curve.generator := by
  rw [h.sharedR k, sum_RI h]

section

variable (hsigner : signer.Documented curve sha512)
  (h : HonestEph keys message id draws curve t (t + 1) w)
  (hold : HoldShares curve t (t + 1) id file p vssVec chainCode)
  (hY : Y = (p.eval 0 + f) • curve.generator) (hroot : path = "" → f = 0)

include hsigner hold hY hroot

theorem y_keysAt {k : Nat} (h₁ : 1 ≤ k) (hk : k ≤ t + 1) :
    lib.y (keysAt signer (file k) path Y) = Y := by
  unfold keysAt
  split
  next hpath => rw [hold.y k h₁ hk, hY, hroot hpath, add_zero]
  next => exact hsigner.y_setY _ _

omit hY hroot in
theorem xI_keysAt {k : Nat} (h₁ : 1 ≤ k) (hk : k ≤ t + 1) :
    lib.xI (keysAt signer (file k) path Y) = p.eval (id k : F) := by
  unfold keysAt
  split
  next => exact hold.xI k h₁ hk
  next => rw [hsigner.xI_setY, hold.xI k h₁ hk]

include h

/-- All local signatures answer one challenge. -/
theorem k_localSigAt {k : Nat} (h₁ : 1 ≤ k) (hk : k ≤ t + 1) :
    signer.k (localSigAt file message path Y w k) = jointChallenge curve sha512 t message Y w := by
  rw [localSigAt, hsigner.k_compute, sharedR_eq h, y_keysAt hsigner hold hY hroot h₁ hk]
  rfl

/-- The local signatures are values of one polynomial. -/
theorem gammaI_localSigAt {k : Nat} (h₁ : 1 ≤ k) (hk : k ≤ t + 1) :
    signer.gammaI (localSigAt file message path Y w k) =
      (sigPoly curve sha512 t p message Y w).eval (id k : F) := by
  rw [localSigAt, hsigner.gammaI_compute, sharedR_eq h, y_keysAt hsigner hold hY hroot h₁ hk,
    xI_keysAt hsigner hold h₁ hk, h.sharedRI k, sigPoly, eval_add, eval_mul, eval_C]
  have hnonce : (nonce t w).eval (id k : F) =
      ((List.range' 1 (t + 1)).map fun j => (w.poly j).eval (id k : F)).sum := by
    rw [nonce, eval_listSum, List.map_map]
    rfl
  rw [hnonce]
  rfl

/-- The local signatures are accepted. -/
theorem verifyLocalSigs_eq (hid : ∀ k, 1 ≤ k → k ≤ t + 1 → 1 ≤ id k) :
    ∃ vss, signer.verifyLocalSigs
      ((List.range' 1 (t + 1)).map (localSigAt file message path Y w))
      ((List.range' 1 (t + 1)).map fun k => id k - 1) vssVec ((List.range' 1 (t + 1)).map w.vss) =
      some vss ∧ vss.threshold = t := by
  have hrange : ∀ k ∈ List.range' 1 (t + 1), 1 ≤ k ∧ k ≤ t + 1 := fun k hk => by
    have := List.mem_range'_1.mp hk
    omega
  refine hsigner.verifyLocalSigs _ _ _ _ t (jointChallenge curve sha512 t message Y w)
    hold.nonempty (by simp) (fun vss hvss => ?_) (by simp) (by simp) (fun sig hsig => ?_)
    fun e he => ?_
  · rcases List.mem_append.mp hvss with hvss | hvss
    · exact hold.dealt vss hvss
    · obtain ⟨j, _, rfl⟩ := List.mem_map.mp hvss
      rw [(h.deals j).vss]
      exact ⟨rfl, length_commit⟩
  · obtain ⟨k, hk, rfl⟩ := List.mem_map.mp hsig
    exact k_localSigAt hsigner h hold hY hroot (hrange k hk).1 (hrange k hk).2
  · rw [List.zip_map'] at he
    obtain ⟨k, hk, rfl⟩ := List.mem_map.mp he
    obtain ⟨h₁, hkt⟩ := hrange k hk
    rw [Nat.sub_add_cancel (hid k h₁ hkt), sum_evalCommit h.deals, hold.commitments,
      gammaI_localSigAt hsigner h hold hY hroot h₁ hkt, smul_smul, ← add_smul]
    simp only [sigPoly, eval_add, eval_mul, eval_C]
    rfl

/-- The signature that is put together is valid for the key that is signed for. -/
theorem generate_eq {vss : Vss G} (hvss : vss.threshold = t)
    (hid : ∀ k, 1 ≤ k → k ≤ t + 1 → 1 ≤ id k)
    (hpoints : ((List.range' 1 (t + 1)).map fun k => (id k : F)).Nodup) :
    finishSignature curve sha512 (signer.generate vss
        ((List.range' 1 (t + 1)).map (localSigAt file message path Y w))
        ((List.range' 1 (t + 1)).map fun k => id k - 1) ((nonce t w).eval 0 • curve.generator))
      path Y message f = honestSignature curve sha512 t p message Y f w := by
  have hrange : ∀ k ∈ List.range' 1 (t + 1), 1 ≤ k ∧ k ≤ t + 1 := fun k hk => by
    have := List.mem_range'_1.mp hk
    omega
  have hpoint : ∀ k ∈ List.range' 1 (t + 1), ((id k - 1 + 1 : Nat) : F) = id k := fun k hk => by
    rw [Nat.sub_add_cancel (hid k (hrange k hk).1 (hrange k hk).2)]
  rw [hsigner.generate vss _ _ _ (sigPoly curve sha512 t p message Y w)
    (by rw [hvss]; exact natDegree_sigPoly h hold.degree) (by simp) (by simp [hvss])]
  · unfold finishSignature honestSignature
    split
    next hpath => rw [hroot hpath, zero_mul, add_zero]
    next => rfl
  · rw [List.map_map]
    refine (List.map_congr_left fun k hk => ?_) ▸ hpoints
    exact (hpoint k hk).symm
  · intro e he
    rw [List.zip_map'] at he
    obtain ⟨k, hk, rfl⟩ := List.mem_map.mp he
    rw [hpoint k hk]
    exact gammaI_localSigAt hsigner h hold hY hroot (hrange k hk).1 (hrange k hk).2

end

end

/-! ## The session -/

section

variable {F G : Type} [Field F] [DecidableEq F] [AddCommGroup G] [Module F G]
  {lib : ThresholdSig F G} {signer : ThresholdSigner lib} {curve : Curve F G} {aes : AesGcm}
  {hmac : Hmac} {sha512 : List UInt8 → List UInt8} {t : Nat} {file : Nat → KeyFile lib} {p : F[X]}
  {messageStr path uuid : String} {Y : G} {f : F} {id : Nat → Nat} {vssVec : List (Vss G)}
  {chainCode : F} {draws : Nat → EphDraws signer.Seed} {w : EphValues signer}
  {json : SignerJson signer}

/-- The six rounds of honest signers. -/
def signerSchedule (curve : Curve F G) (aes : AesGcm) (json : SignerJson signer) (t : Nat)
    (file : Nat → KeyFile lib) (messageStr path : String) (Y : G) (id : Nat → Nat)
    (draws : Nat → EphDraws signer.Seed) (w : EphValues signer) (uuid : String) : Schedule where
  uuid := uuid
  parties := t + 1
  rounds :=
    (round0, .toAll fun k => json.index.encode (id k - 1)) ::
    (ephTexts (fun k => (file k).partyKeys) (messageOf messageStr) id draws curve aes json.eph w ++
      [(round1LocalSig, .toAll fun k =>
        json.localSig.encode (localSigAt file (messageOf messageStr) path Y w k))])
  nodup := by
    simp [Round.ext_iff, ephTexts, round0, ephKeygenRound1, ephKeygenRound2, ephKeygenRound3,
      ephKeygenRound4, round1LocalSig]

/-- Honest signers play their part, and return one signature. -/
theorem runSigner_plays {excused : Panic → Prop} {k : Nat} (hcurve : curve.Documented)
    (haes : aes.Documented) (hsigner : signer.Documented curve sha512)
    (h : HonestEph (fun k => (file k).partyKeys) (messageOf messageStr) id draws curve t (t + 1) w)
    (hold : HoldShares curve t (t + 1) id file p vssVec chainCode)
    (hkey : ∀ k, 1 ≤ k → k ≤ t + 1 → keyAt curve hmac (file k) path = .ok (Y, f))
    (hY : Y = (p.eval 0 + f) • curve.generator) (hroot : path = "" → f = 0)
    (hid : Set.InjOn id (Set.Icc 1 (t + 1)))
    (hbound : ∀ k, 1 ≤ k → k ≤ t + 1 → 1 ≤ id k ∧ id k < 2 ^ 16) (ht : t + 1 < 2 ^ 16)
    (h₁ : 1 ≤ k) (hk : k ≤ t + 1) :
    Plays (signerSchedule curve aes json t file messageStr path Y id draws w uuid).mail
      (signerSchedule curve aes json t file messageStr path Y id draws w uuid).rank excused
      (Owes (signerSchedule curve aes json t file messageStr path Y id draws w uuid).mail k) 0
      (runSigner curve hmac aes sha512 json (file k) t k (t + 1) uuid messageStr path (draws k)) 6
      (honestSignature curve sha512 t p (messageOf messageStr) Y f w, Y) := by
  let s := signerSchedule curve aes json t file messageStr path Y id draws w uuid
  have r₀ : RoundMail s.mail s.rank (t + 1) uuid round0 1 _ := s.toAll (k := 0) rfl
  have r₅ : RoundMail s.mail s.rank (t + 1) uuid round1LocalSig 6 _ := s.toAll (k := 5) rfl
  have hindex : partyIndex (file k).partyNumInt = .ok (id k - 1) := by
    rw [hold.partyNumInt k h₁ hk]
    exact if_neg (Nat.one_le_iff_ne_zero.mp (hbound k h₁ hk).1)
  have hpoints : ((List.range' 1 (t + 1)).map fun k => (id k : F)).Nodup := by
    have hnodup : (List.range' 1 (t + 1)).Nodup := List.nodup_range'
    refine hnodup.map_on fun i hi j hj hij => ?_
    have hi := List.mem_range'_1.mp hi
    have hj := List.mem_range'_1.mp hj
    have hne := hcurve.natCast_inj _ _ (hbound i hi.1 (by omega)).2 (hbound j hj.1 (by omega)).2 hij
    exact hid ⟨hi.1, by omega⟩ ⟨hj.1, by omega⟩ hne
  have hpos := fun k h₁ hk => (hbound k h₁ hk).1
  obtain ⟨vss, hverified, hvss⟩ := verifyLocalSigs_eq hsigner h hold hY hroot hpos
  have hgenerate := generate_eq hsigner h hold hY hroot hvss hpos hpoints
  have hvalid := (hsigner.verify (honestSignature curve sha512 t p (messageOf messageStr) Y f w)
    (messageOf messageStr) Y).mpr (honestSignature_valid hY)
  unfold runSigner
  rw [hkey k h₁ hk, lift_ok, pure_bind, hindex, lift_ok, pure_bind, nextIndex, if_pos ht, lift_ok,
    pure_bind]
  refine (r₀.exchangeData h₁ hk).bind ?_
  refine (ephKeygen_plays (s := s) (m := 1) hcurve haes h rfl (fun i e hi => ?_) hid hbound
    (Nat.lt_succ_self t) h₁ hk).bind ?_
  · rw [Nat.add_comm]
    exact (List.getElem?_append_left (List.getElem?_eq_some_iff.mp hi).1).trans hi
  have hown := index_range' w.shared h₁ hk
  simp only [ephOutput]
  rw [hown, lift_ok, pure_bind]
  refine (r₅.exchangeData h₁ hk).bind ?_
  rw [hold.vssSchemeVec k h₁ hk, hverified]
  simp only [sum_RI h, hgenerate, hvalid, if_true]
  exact .pure

end

/-! ## From the key generation to the signature -/

section

variable {F G : Type} [Field F] [AddCommGroup G] [Module F G]
  {lib : ThresholdSig F G} {signer : ThresholdSigner lib} (curve : Curve F G) (aes : AesGcm)
  (hmac : Hmac)

/-- Signers `1` to `m` have the key files of the parties `id` of some run of honest
key generations. -/
def Written (json : Json lib) (t n m : Nat) (id : Nat → Nat) (file : Nat → KeyFile lib) : Prop :=
  ∃ (draws : Nat → Draws F lib.Seed) (uuid : String) (store : Key → Option String)
    (net : Net (Fin n) Key String Panic (KeyFile lib))
    (tr : List (NetEvent (Fin n) Key String Panic)),
    Unused uuid store ∧
    NetRun (sessionNet n store fun i => runKeygen curve aes t n i (draws i) json uuid) net tr ∧
    (∀ e ∈ tr, KeepsOut uuid e) ∧
    ∀ k, 1 ≤ k → k ≤ m → ∃ i, number i = id k ∧ net.scripts i = .ret (file k)

/-- The tweak of a path, which is `0` for none. -/
inductive Tweak (keyFile : KeyFile lib) : String → F → Prop where
  | root : Tweak keyFile "" 0
  | path {path : String} {child : G} {f : F} : path ≠ "" →
      getHdKey curve hmac keyFile.ySum path (keyFile.chainCode • curve.generator) =
        .ok (child, f) →
      Tweak keyFile path f

variable {curve aes hmac} {json : Json lib} {t n m : Nat} {id : Nat → Nat}
  {file : Nat → KeyFile lib} {path : String} {f : F}

theorem Written.holdShares (hcurve : curve.Documented) (haes : aes.Documented)
    (hlib : lib.Documented curve.generator) (ht : t < n)
    (h : Written curve aes json t n m id file) :
    ∃ p vssVec chainCode, HoldShares curve t m id file p vssVec chainCode := by
  obtain ⟨draws, uuid, store, net, tr, hstore, hrun, hout, hfile⟩ := h
  obtain ⟨v, h, hxI, hy⟩ := honestCalls (fun _ => True) hcurve hlib ht draws
  have hon := session_onTrack (fun i => runKeygen_plays hcurve haes hlib h) hstore hrun hout
    fun e _ => givesUp_any e
  refine ⟨_, _, _, Eddsa.holdShares h hxI hy (Nat.zero_lt_of_lt ht) fun k h₁ hk => ?_⟩
  obtain ⟨i, hi, hret⟩ := hfile k h₁ hk
  rw [← hi]
  exact hon.returned hret

theorem Written.bound (h : Written curve aes json t n m id file) {k : Nat} (h₁ : 1 ≤ k)
    (hk : k ≤ m) : 1 ≤ id k ∧ id k ≤ n := by
  obtain ⟨_, _, _, _, _, _, _, _, hfile⟩ := h
  obtain ⟨i, hi, _⟩ := hfile k h₁ hk
  rw [← hi]
  exact ⟨one_le_number i, number_le i⟩

variable [DecidableEq F]

theorem updateHdDerivedPublicKey_eq (hcurve : curve.Documented) (Y : G) :
    updateHdDerivedPublicKey F Y = .ok Y := by
  have h8 : (8 : F) ≠ 0 := by
    intro h
    have := hcurve.natCast_inj 8 0 (by decide) (by decide) (by simpa using h)
    omega
  rw [updateHdDerivedPublicKey, if_neg h8, smul_smul, mul_inv_cancel₀ h8, one_smul]

/-- The key at a path is the public key with its tweak. -/
theorem Tweak.keyAt (hcurve : curve.Documented) {keyFile keyFile' : KeyFile lib}
    (h : Tweak curve hmac keyFile path f) (hY : keyFile'.ySum = keyFile.ySum)
    (hc : keyFile'.chainCode = keyFile.chainCode) :
    Eddsa.keyAt curve hmac keyFile' path = .ok (keyFile.ySum + f • curve.generator, f) := by
  unfold Eddsa.keyAt
  cases h with
  | root => rw [if_pos rfl, zero_smul, add_zero, hY]
  | path hne hchild =>
      obtain rfl := getHdKey_child hchild
      rw [if_neg hne, hY, hc]
      simp only [hchild, except_ok_bind, updateHdDerivedPublicKey_eq hcurve]
      rfl

end

end Eddsa

/-- The signers of any `t + 1` parties of a key generation return one signature,
which is valid for the public key, or for the key at the path. -/
theorem eddsa_signing {F G : Type} [Field F] [DecidableEq F] [AddCommGroup G] [Module F G]
    {curve : Curve F G} {aes : AesGcm} {hmac : Hmac} {sha512 : List UInt8 → List UInt8}
    {lib : ThresholdSig F G} {signer : ThresholdSigner lib} (hcurve : curve.Documented)
    (haes : aes.Documented) (hlib : lib.Documented curve.generator)
    (hsigner : signer.Documented curve sha512) (keygenJson : Eddsa.Json lib)
    (json : Eddsa.SignerJson signer) {t n : Nat} (ht : t < n) (hn : n < 2 ^ 16) {id : Nat → Nat}
    {file : Nat → Eddsa.KeyFile lib} (hid : Set.InjOn id (Set.Icc 1 (t + 1)))
    (hfile : Eddsa.Written curve aes keygenJson t n (t + 1) id file) {path : String} {f : F}
    (htweak : Eddsa.Tweak curve hmac (file 1) path f) (messageStr uuid : String)
    (draws : Nat → Eddsa.EphDraws signer.Seed) :
    ∃ (x : F) (Y : G) (signature : Signature F G),
      (∀ k, 1 ≤ k → k ≤ t + 1 → (file k).ySum = x • curve.generator) ∧
      Y = (file 1).ySum + f • curve.generator ∧ Eddsa.updateHdDerivedPublicKey F Y = .ok Y ∧
      (∀ k, 1 ≤ k → k ≤ t + 1 →
        Eddsa.runPubkey curve hmac (file k) path = Eddsa.reportKey curve Y path) ∧
      signature.s • curve.generator = signature.R +
        Eddsa.challenge curve sha512 signature.R Y (messageOf messageStr) • Y ∧
      AllReturn uuid (t + 1)
        (fun k => Eddsa.runSigner curve hmac aes sha512 json (file k) t k (t + 1) uuid messageStr
          path (draws k))
        fun _ => (signature, Y) := by
  obtain ⟨p, vssVec, chainCode, hold⟩ := hfile.holdShares hcurve haes hlib ht
  have hone : 1 ≤ t + 1 := Nat.le_add_left 1 t
  obtain ⟨w, h⟩ := Eddsa.exists_honestEph (fun k => (file k).partyKeys)
    (messageOf messageStr) id draws hcurve hsigner.toDealsNonces (Nat.lt_succ_self t)
  have hY : (file 1).ySum + f • curve.generator = (p.eval 0 + f) • curve.generator := by
    rw [hold.ySum 1 le_rfl hone, add_smul]
  have hkey : ∀ k, 1 ≤ k → k ≤ t + 1 → Eddsa.keyAt curve hmac (file k) path =
      .ok ((file 1).ySum + f • curve.generator, f) := fun k h₁ hk =>
    htweak.keyAt hcurve (by rw [hold.ySum k h₁ hk, hold.ySum 1 le_rfl hone])
      (by rw [hold.chainCode k h₁ hk, hold.chainCode 1 le_rfl hone])
  have hroot : path = "" → f = 0 := by
    intro hpath
    cases htweak with
    | root => rfl
    | path hne _ => exact absurd hpath hne
  have hbound : ∀ k, 1 ≤ k → k ≤ t + 1 → 1 ≤ id k ∧ id k < 2 ^ 16 := fun k h₁ hk =>
    ⟨(hfile.bound h₁ hk).1, (hfile.bound h₁ hk).2.trans_lt hn⟩
  refine ⟨p.eval 0, _, _, hold.ySum, rfl, Eddsa.updateHdDerivedPublicKey_eq hcurve _,
    fun k h₁ hk => ?_, Eddsa.honestSignature_valid hY, allReturn fun excused k h₁ hk =>
      Eddsa.runSigner_plays hcurve haes hsigner h hold hkey hY hroot hid hbound (by omega) h₁ hk⟩
  rw [Eddsa.runPubkey, hkey k h₁ hk, except_ok_bind]

/-- The files of an EdDSA key generation that ends. -/
theorem Eddsa.exists_written {F G : Type} [Field F] [AddCommGroup G] [Module F G]
    {curve : Curve F G} {aes : AesGcm} {lib : ThresholdSig F G} (hcurve : curve.Documented)
    (haes : aes.Documented) (hlib : lib.Documented curve.generator) (json : Eddsa.Json lib)
    {t n m : Nat} (ht : t < n) (draws : Nat → Eddsa.Draws F lib.Seed) (id : Nat → Nat)
    (hid : ∀ k, 1 ≤ k → k ≤ m → 1 ≤ id k ∧ id k ≤ n) :
    ∃ file, Eddsa.Written curve aes json t n m id file := by
  obtain ⟨file, hreturn⟩ := Eddsa.runKeygen_allReturn hcurve haes hlib json ht draws "u"
  obtain ⟨net, tr, hrun, hout, hall⟩ := hreturn.exists_run hid
  exact ⟨fun k => file (id k), draws, "u", _, net, tr, fun _ _ => rfl, hrun, hout, hall⟩

/-- Parties `3` and `2` of three over the additive group, in this order, sign two
bytes, at the root and at a path. -/
theorem eddsa_signing_additive :
    ∃ (file : Nat → Eddsa.KeyFile (additiveThresholdSig 65537))
      (draws : Nat → Eddsa.EphDraws (ZMod 65537)) (json : Eddsa.SignerJson (additiveSigner 65537 id)),
      ∀ path ∈ ["", "1"], ∃ (f Y : ZMod 65537) (signature : Signature (ZMod 65537) (ZMod 65537)),
        Eddsa.Tweak (additiveCurve 65537) (fun _ _ => List.replicate 64 1) (file 1) path f ∧
        Y = (file 1).ySum + f • (additiveCurve 65537).generator ∧
        signature.s • (additiveCurve 65537).generator = signature.R +
          Eddsa.challenge (additiveCurve 65537) id signature.R Y (messageOf "0aF1") • Y ∧
        AllReturn "v" 2
          (fun k => Eddsa.runSigner (additiveCurve 65537) (fun _ _ => List.replicate 64 1) xorAes id
            json (file k) 1 k 2 "v" "0aF1" path (draws k))
          fun _ => (signature, Y) := by
  have hcurve := additiveCurve_documented 65537 (by norm_num) (by norm_num)
  let keygenJson : Eddsa.Json (additiveThresholdSig 65537) :=
    ⟨.ofCountable _, .ofCountable _ (ZMod 65537) (ZMod 65537) (ZMod 65537 × ZMod 65537)⟩
  let json : Eddsa.SignerJson (additiveSigner 65537 id) :=
    ⟨.ofCountable Nat, ⟨.ofCountable (ZMod 65537 × Nat × ZMod 65537), .ofCountable _,
      .ofCountable _, .ofCountable (ZMod 65537 × ZMod 65537)⟩,
      .ofCountable (ZMod 65537 × ZMod 65537)⟩
  let nonce : Nat → Nonce := fun _ => List.Vector.replicate 12 0
  obtain ⟨file, hfile⟩ := Eddsa.exists_written (m := 2) hcurve xorAes_documented
    (additiveThresholdSig_documented 65537) keygenJson (show 1 < 3 by decide)
    (fun i => ⟨(i : ZMod 65537), 1, 0, (0 : ZMod 65537), (2 : ZMod 65537), 0, nonce⟩)
    (fun k => 4 - k) (by intro k _ _; omega)
  have hid : Set.InjOn (fun k => 4 - k) (Set.Icc 1 2) := by
    rintro i ⟨hi₁, hi₂⟩ j ⟨hj₁, hj₂⟩ hij
    simp only at hij
    omega
  have htweak : ∀ path ∈ ["", "1"], ∃ f : ZMod 65537,
      Eddsa.Tweak (additiveCurve 65537) (fun _ _ => List.replicate 64 1) (file 1) path f := by
    intro path hpath
    rcases List.mem_pair.mp hpath with rfl | rfl
    · exact ⟨0, .root⟩
    · obtain ⟨child, f, hchild⟩ := getHdKey_additive (fun _ _ => List.replicate 64 1) (file 1).ySum
        ((file 1).chainCode • (additiveCurve 65537).generator)
      exact ⟨f, .path (by decide) hchild⟩
  refine ⟨file, fun k => ⟨(k : ZMod 65537), (0 : ZMod 65537), (3 : ZMod 65537), nonce⟩, json,
    fun path hpath => ?_⟩
  obtain ⟨f, hf⟩ := htweak path hpath
  obtain ⟨_, Y, signature, _, hY, _, _, hvalid, hreturn⟩ := eddsa_signing hcurve xorAes_documented
    (additiveThresholdSig_documented 65537) (additiveSigner_documented 65537 id) keygenJson json
    (t := 1) (n := 3) (by decide) (by decide) hid hfile hf "0aF1" "v"
    fun k => ⟨(k : ZMod 65537), (0 : ZMod 65537), (3 : ZMod 65537), nonce⟩
  exact ⟨f, Y, signature, hf, hY, hvalid, hreturn⟩

end TssCli
