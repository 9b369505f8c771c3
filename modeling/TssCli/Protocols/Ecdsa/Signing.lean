import TssCli.Protocols.Ecdsa.MtaRounds

/-!
# ECDSA signatures are correct

The products open the nonce point, whose discrete logarithm is the inverse of the
joint nonce, and make the shares of the signature.  So honest signers return one
signature, and it is valid for the child key (`ecdsa_signing`).

The joint nonce must have an inverse: with nonces that add up to zero no signer
returns (`signers_stop`).
-/

namespace TssCli

open Mailbox Mailbox.Script Polynomial Sharing

namespace Ecdsa

/-! ## The nonce point -/

section

variable {F G : Type} [Field F] [AddCommGroup G] [Module F G] {lib : Gg18 F G}
  {signer : Gg18Signer lib} {m : Nat} {partyKeys : Nat → lib.Keys}
  {draws : Nat → SignDraws signer.Seed}

theorem add_sum_others {M : Type} [AddCommMonoid M] {me : Nat} (f : Nat → M) (h₁ : 1 ≤ me)
    (hm : me ≤ m) : ((others me m).map f).sum + f me = ((List.range' 1 m).map f).sum := by
  rw [range'_split h₁ hm, others_split h₁ hm]
  simp only [List.map_append, List.map_cons, List.sum_append, List.sum_cons]
  exact add_right_comm _ _ _ |>.trans (add_assoc _ _ _)

/-- The sum of the shares `k_i` and that of the shares `gamma_i`. -/
def MtaValues.nonce (v : MtaValues signer m partyKeys draws) : F :=
  ((List.range' 1 m).map fun k => signer.kI (v.signKeys k)).sum

def MtaValues.blind (v : MtaValues signer m partyKeys draws) : F :=
  ((List.range' 1 m).map fun k => signer.gammaI (v.signKeys k)).sum

variable {curve : Curve F G} {json : SignJson signer} {v : MtaValues signer m partyKeys draws}
  {mail : Key → Option String} {rank : Key → Nat} {excused : Panic → Prop} {uuid : String}

/-- The opened commitments add up to the nonce point. -/
theorem phase4_eq (hsigner : signer.Documented curve) (hm : 2 ≤ m) {k : Nat} (h₁ : 1 ≤ k)
    (hk : k ≤ m) (deltaInv : F) :
    signer.phase4 deltaInv (((others k m).map fun j => v.gamma.mB j k).map signer.bProof)
        ((others k m).map fun j => (v.com j).2) ((others k m).map fun j => (v.com j).1) =
      .ok (deltaInv • ((others k m).map fun j =>
        signer.gammaI (v.signKeys j) • curve.generator).sum) := by
  have hcom : ∀ j, signer.gGammaI (v.com j).2 = signer.gammaI (v.signKeys j) • curve.generator :=
    fun j => hsigner.gGammaI_phase1Broadcast _ _
  have hne : others k m ≠ [] := by
    have := length_others h₁ hk
    intro hnil
    rw [hnil] at this
    exact absurd this (by simp; omega)
  have hphase := hsigner.phase4 deltaInv
    ((others k m).map fun j => (signer.bProof (v.gamma.mB j k), v.com j))
    (by simpa using hne) fun x hx => ?_
  · simp only [List.map_map, Function.comp_def, hcom] at hphase ⊢
    exact hphase
  · obtain ⟨j, _, rfl⟩ := List.mem_map.mp hx
    refine ⟨⟨_, _, rfl⟩, ?_⟩
    rw [hcom, hsigner.pk_bProof _ _ _ _ _ _ (v.gamma.sent j k h₁ hk)]

/-- Honest signers compute one nonce point. -/
theorem noncePoint_plays (hsigner : signer.Documented curve) (hm : 2 ≤ m) (hk₀ : v.nonce ≠ 0)
    (hgamma₀ : v.blind ≠ 0)
    (r₃ : RoundMail mail rank m uuid round3 4 fun k => json.scalar.encode (v.gamma.share k))
    (r₄ : RoundMail mail rank m uuid round4 5 fun k => json.decommit.encode (v.com k).2)
    {k : Nat} (h₁ : 1 ≤ k) (hk : k ≤ m) :
    Plays mail rank excused (Owes mail k) 3 (noncePoint json k m uuid (v.output k)) 5
      (v.nonce⁻¹ • curve.generator) := by
  have hdelta : ((List.range' 1 m).map v.gamma.share).sum = v.nonce * v.blind := v.gamma.sum_share
  have hne : ((List.range' 1 m).map v.gamma.share).sum ≠ 0 := by
    rw [hdelta]
    exact mul_ne_zero hk₀ hgamma₀
  have hR : (v.nonce * v.blind)⁻¹ • ((others k m).map fun j =>
        signer.gammaI (v.signKeys j) • curve.generator).sum +
      (v.nonce * v.blind)⁻¹ • signer.gGammaI (v.com k).2 = v.nonce⁻¹ • curve.generator := by
    rw [MtaValues.com, hsigner.gGammaI_phase1Broadcast, ← smul_add,
      add_sum_others (fun j => signer.gammaI (v.signKeys j) • curve.generator) h₁ hk]
    have hsum : ((List.range' 1 m).map fun j => signer.gammaI (v.signKeys j) • curve.generator).sum =
        v.blind • curve.generator := by
      rw [MtaValues.blind, List.sum_smul, List.map_map]
      rfl
    rw [hsum, smul_smul, mul_inv, mul_assoc, inv_mul_cancel₀ hgamma₀, mul_one]
  unfold noncePoint
  refine r₃.formatVecFromReads h₁ hk ?_
  rw [hsigner.phase3ReconstructDelta _ hne, lift_ok, pure_bind, hdelta]
  refine r₄.formatVecFromReads h₁ hk ?_
  rw [MtaValues.output, removeAt_eq (fun j => (v.com j).2) h₁ hk, lift_ok, pure_bind,
    removeAt_eq (fun j => (v.com j).1) h₁ hk, lift_ok, pure_bind, phase4_eq hsigner hm h₁ hk,
    lift_ok, pure_bind, hR]
  exact .pure

/-- Without an inverse of the joint nonce they stop. -/
theorem noncePoint_fails {α : Type} {a : α} (hsigner : signer.Documented curve)
    (hzero : v.nonce * v.blind = 0) (hexcused : excused .unwrapNone)
    (r₃ : RoundMail mail rank m uuid round3 4 fun k => json.scalar.encode (v.gamma.share k))
    {k : Nat} (h₁ : 1 ≤ k) (hk : k ≤ m) (f : G → Client α) :
    Plays mail rank excused (Owes mail k) 3 (noncePoint json k m uuid (v.output k) >>= f) 5 a := by
  have hdelta : ((List.range' 1 m).map v.gamma.share).sum = v.nonce * v.blind := v.gamma.sum_share
  refine ⟨?_, fun hno => absurd hexcused (hno _)⟩
  unfold noncePoint
  simp only [LawfulMonad.bind_assoc]
  refine (r₃.formatVecFromReads h₁ hk ?_).tracks
  rw [hsigner.phase3ReconstructDelta_zero _ (hdelta.trans hzero), lift_error]
  exact ⟨.fail hexcused, fun hno => absurd hexcused (hno _)⟩

end

/-! ## The checks -/

section

variable {F G : Type} {lib : Gg18 F G} {signer : Gg18Signer lib} {json : SignJson signer}
  {m : Nat} {draws : Nat → SignDraws signer.Seed} {localSig : Nat → signer.LocalSignature}
  {out : Nat → signer.Com2 × signer.Decom2} {mail : Key → Option String} {rank : Key → Nat}
  {excused : Panic → Prop} {uuid : String} {R : G}

/-- What a signer commits to of its local signature, and opens. -/
def zkOf (localSig : Nat → signer.LocalSignature) (draws : Nat → SignDraws signer.Seed) (k : Nat) :
    signer.Com1 × signer.Decom1 × signer.ElGamalProof × lib.dlog.Proof :=
  signer.phase5a (localSig k) (draws k).phase5a

/-- Honest signers pass the checks, and give out their shares. -/
theorem checkShares_plays {k : Nat} (h₁ : 1 ≤ k) (hk : k ≤ m) {s : F}
    (hout : signer.check m localSig (fun j => (draws j).phase5a) R k (draws k).phase5c =
      .ok (out k))
    (hshare : signer.phase5d (localSig k) ((List.range' 1 m).map fun j => (out j).2)
        ((List.range' 1 m).map fun j => (out j).1)
        ((List.range' 1 m).map fun j => (zkOf localSig draws j).2.1) = .ok s)
    (r₅ : RoundMail mail rank m uuid round5 6 fun k => json.com1.encode (zkOf localSig draws k).1)
    (r₆ : RoundMail mail rank m uuid round6 7 fun k => json.round6.encode (zkOf localSig draws k).2)
    (r₇ : RoundMail mail rank m uuid round7 8 fun k => json.com2.encode (out k).1)
    (r₈ : RoundMail mail rank m uuid round8 9 fun k => json.decom2.encode (out k).2) :
    Plays mail rank excused (Owes mail k) 5
      (checkShares json k m uuid (localSig k) R (draws k)) 9 s := by
  have hothers : m - 1 = ((others k m).map fun j => (zkOf localSig draws j).2).length := by
    have := length_others h₁ hk
    rw [List.length_map]
    omega
  have hall : m = ((List.range' 1 m).map fun j => (zkOf localSig draws j).2).length := by simp
  have hcheck : signer.phase5c (localSig k)
      (((others k m).map fun j => (zkOf localSig draws j).2).map fun e => e.1)
      ((others k m).map fun j => (zkOf localSig draws j).1)
      (((others k m).map fun j => (zkOf localSig draws j).2).map fun e => e.2.1)
      (((others k m).map fun j => (zkOf localSig draws j).2).map fun e => e.2.2)
      (signer.VI (signer.phase5a (localSig k) (draws k).phase5a).2.1) R (draws k).phase5c =
      .ok (out k) := by
    simp only [List.map_map]
    exact hout
  unfold checkShares
  refine r₅.formatVecFromReads h₁ hk ?_
  refine r₆.formatVecFromReads h₁ hk ?_
  rw [removeAt_eq (fun j => (zkOf localSig draws j).2) h₁ hk, lift_ok, pure_bind,
    removeAt_eq (fun j => (zkOf localSig draws j).1) h₁ hk, lift_ok, pure_bind,
    firsts_eq hothers, lift_ok, pure_bind]
  simp only [hcheck, lift_ok, pure_bind]
  refine r₇.formatVecFromReads h₁ hk ?_
  refine r₈.formatVecFromReads h₁ hk ?_
  rw [firsts_eq hall, lift_ok, pure_bind, List.map_map]
  exact (Tracks.lift (Or.inl hshare)).plays

end

/-! ## The signature -/

section

variable {F G : Type} [Field F] [AddCommGroup G] [Module F G] {curve : Curve F G}

/-- A product of the nonce with the integer and the key signs for the multiple of the
generator, in both of its forms. -/
theorem ecdsaValid_of_nonce {k key : F} {msg x : Nat} {sig : SignatureRecid F}
    (hneg : ∀ P, curve.xCoord (-P) = curve.xCoord P) (hk : k ≠ 0)
    (hx : curve.xCoord (k⁻¹ • curve.generator) = some x)
    (hne : curve.ofBigint msg + curve.ofBigint x * key ≠ 0) (hr : sig.r = curve.ofBigint x)
    (hs : sig.s = k * (curve.ofBigint msg + curve.ofBigint x * key) ∨
      sig.s = -(k * (curve.ofBigint msg + curve.ofBigint x * key))) :
    EcdsaValid curve (key • curve.generator) msg sig := by
  have hpoint : ∀ s : F, (curve.ofBigint msg * s) • curve.generator +
      (curve.ofBigint x * s) • key • curve.generator =
        ((curve.ofBigint msg + curve.ofBigint x * key) * s) • curve.generator := by
    intro s
    rw [smul_smul, ← add_smul]
    congr 1
    ring
  rw [EcdsaValid, hr, hpoint]
  rcases hs with hs | hs
  · rw [hs, mul_inv_rev, mul_inv_cancel_left₀ hne]
    exact ⟨mul_ne_zero hk hne, x, hx, rfl⟩
  · rw [hs, inv_neg, mul_inv_rev, mul_neg, mul_inv_cancel_left₀ hne, neg_smul, hneg]
    exact ⟨neg_ne_zero.mpr (mul_ne_zero hk hne), x, hx, rfl⟩

variable {lib : Gg18 F G} {signer : Gg18Signer lib} {m : Nat} {partyKeys : Nat → lib.Keys}
  {draws : Nat → SignDraws signer.Seed}

/-- The local signatures of the signers, which pass all checks, and the signature
they make. -/
structure Signatures (v : MtaValues signer m partyKeys draws) (R y : G) (msg : Nat) where
  localSig : Nat → signer.LocalSignature
  out : Nat → signer.Com2 × signer.Decom2
  sig : SignatureRecid F
  made : ∀ k, 1 ≤ k → k ≤ m →
    signer.phase5LocalSig (signer.kI (v.signKeys k)) msg R (v.w.share k) y (draws k).localSig =
      .ok (localSig k)
  checked : ∀ k, 1 ≤ k → k ≤ m →
    signer.check m localSig (fun j => (draws j).phase5a) R k (draws k).phase5c = .ok (out k)
  given : ∀ k, 1 ≤ k → k ≤ m →
    signer.phase5d (localSig k) ((List.range' 1 m).map fun j => (out j).2)
      ((List.range' 1 m).map fun j => (out j).1)
      ((List.range' 1 m).map fun j => (zkOf localSig draws j).2.1) = .ok (signer.localS (localSig k))
  output : ∀ k, 1 ≤ k → k ≤ m →
    signer.outputSignature (localSig k) ((others k m).map fun j => signer.localS (localSig j)) =
      .ok sig
  verified : signer.verify sig y msg = .ok ()

/-- Honest signers make a valid signature for the key that their weighted shares add
up to. -/
theorem exists_signatures (hsigner : signer.Documented curve)
    (hneg : ∀ P, curve.xCoord (-P) = curve.xCoord P) (hm : 2 ≤ m)
    {v : MtaValues signer m partyKeys draws} (hk : v.nonce ≠ 0) {key : F} {msg x : Nat}
    (hkey : ((List.range' 1 m).map fun k => signer.wI (v.signKeys k)).sum = key)
    (hx : curve.xCoord (v.nonce⁻¹ • curve.generator) = some x)
    (hne : curve.ofBigint msg + curve.ofBigint x * key ≠ 0) :
    ∃ s : Signatures v (v.nonce⁻¹ • curve.generator) (key • curve.generator) msg,
      EcdsaValid curve (key • curve.generator) msg s.sig ∧ s.sig.r = curve.ofBigint x := by
  have hlocal := fun k => hsigner.phase5LocalSig (signer.kI (v.signKeys k)) msg
    (v.nonce⁻¹ • curve.generator) (v.w.share k) (key • curve.generator) (draws k).localSig x hx
  choose localSig hmade hS hR hM hY using hlocal
  have hcheck := fun k h₁ hk => hsigner.phase5c m localSig (fun j => (draws j).phase5a)
    (v.nonce⁻¹ • curve.generator) k (draws k).phase5c hm h₁ hk fun j _ _ => hR j
  have : Nonempty (signer.Com2 × signer.Decom2) := ⟨(hcheck 1 le_rfl (by omega)).choose⟩
  choose! out hout using hcheck
  have hsum : ((List.range' 1 m).map fun j => signer.localS (localSig j)).sum =
      v.nonce * (curve.ofBigint msg + curve.ofBigint x * key) := by
    have hshare : ((List.range' 1 m).map v.w.share).sum = v.nonce * key := by
      rw [← hkey]
      exact v.w.sum_share
    simp only [hS, List.sum_map_add, List.sum_map_mul_left]
    rw [hshare, MtaValues.nonce]
    ring
  obtain ⟨finish, hr, hs, houtput⟩ := hsigner.outputSignature
  have hvalid : EcdsaValid curve (key • curve.generator) msg (finish (v.nonce⁻¹ • curve.generator)
      ((List.range' 1 m).map fun j => signer.localS (localSig j)).sum) := by
    refine ecdsaValid_of_nonce hneg hk hx hne (hr _ _ _ hx) ?_
    rw [← hsum]
    exact hs _ _
  refine ⟨⟨localSig, out, _, fun k _ _ => hmade k, hout, ?_, ?_, hsigner.verify _ _ _ hvalid⟩,
    hvalid, hr _ _ _ hx⟩
  · intro k h₁ hk
    refine hsigner.phase5d m localSig (fun j => (draws j).phase5a) (fun j => (draws j).phase5c) out
      _ msg _ x hm (fun j hj₁ hj => ⟨hout j hj₁ hj, hR j, hM j, hY j⟩) hx ?_ k h₁ hk
    rw [hsum, smul_smul, smul_smul, ← add_smul, mul_comm v.nonce, mul_assoc, mul_inv_cancel₀ ‹_›,
      mul_one]
  · intro k h₁ hk
    have hall := add_sum_others (fun j => signer.localS (localSig j)) h₁ hk
    rw [← hall, add_comm]
    rw [← hall, add_comm] at hvalid
    have := houtput (localSig k) ((others k m).map fun j => signer.localS (localSig j))
    rw [hR, hY, hM] at this
    exact this hvalid

end

/-! ## The session -/

section

variable {F G : Type} [Field F] [AddCommGroup G] [Module F G] {lib : Gg18 F G}
  {signer : Gg18Signer lib} {curve : Curve F G} {t n : Nat} {id : Nat → Nat}
  {file : Nat → KeyFile lib} {p : F[X]} {vssVec : List (Vss G)} {chainCode f : F}
  {signAtPath : Bool} {draws : Nat → SignDraws signer.Seed}

/-- The keys for one signature have the nonces that are drawn for it. -/
theorem nonces_signKeysAt (hsigner : signer.Documented curve) {keyFile : KeyFile lib}
    {signersVec : List Nat} {k : Nat} {seed : signer.Seed} {signKeys : signer.SignKeys}
    (h : signKeysAt keyFile vssVec signersVec k f signAtPath seed = .ok signKeys) :
    signer.kI signKeys = signer.drawK seed ∧ signer.gammaI signKeys = signer.drawGamma seed := by
  obtain ⟨i, _, h⟩ := except_bind_ok h
  obtain ⟨vss, _, h⟩ := except_bind_ok h
  obtain rfl := Except.ok.inj h
  exact ⟨hsigner.kI_create _ _ _ _ _, hsigner.gammaI_create _ _ _ _ _⟩

/-- Honest signers build keys that add up to what they hold and have drawn. -/
theorem HoldShares.exists_mtaValues (hcurve : curve.Documented)
    (hsigner : signer.Documented curve)
    (hold : HoldShares curve t n (t + 1) id file p vssVec chainCode) (hs : Signers t n id)
    (hroot : signAtPath = false → f = 0) (draws : Nat → SignDraws signer.Seed) :
    ∃ v : MtaValues signer (t + 1) (fun k => (file k).partyKeys) draws,
      (∀ k, 1 ≤ k → k ≤ t + 1 →
        signKeysAt (file k) (schemesAt curve f signAtPath vssVec) (indices (t + 1) id) k f
          signAtPath (draws k).create = .ok (v.signKeys k) ∧
        signer.wI (v.signKeys k) = weightedShare t id p f k) ∧
      v.nonce = ((List.range' 1 (t + 1)).map fun k => signer.drawK (draws k).create).sum ∧
      v.blind = ((List.range' 1 (t + 1)).map fun k => signer.drawGamma (draws k).create).sum ∧
      ((List.range' 1 (t + 1)).map fun k => signer.wI (v.signKeys k)).sum = p.eval 0 + f := by
  obtain ⟨signKeys, hkeys⟩ :=
    hold.exists_signKeys hsigner.toWeighs hs hroot fun k => (draws k).create
  have hone : 1 ≤ t + 1 := Nat.le_add_left 1 t
  obtain ⟨gamma⟩ := exists_products hsigner hone hold.created (fun k => signer.kI (signKeys k))
    (fun k => signer.gammaI (signKeys k)) (fun k => (draws k).messageA)
    fun i j => (draws i).messageBGamma j
  obtain ⟨w⟩ := exists_products hsigner hone hold.created (fun k => signer.kI (signKeys k))
    (fun k => signer.wI (signKeys k)) (fun k => (draws k).messageA) fun i j => (draws i).messageBW j
  have hsum : ∀ a b : Nat → F, (∀ k, 1 ≤ k → k ≤ t + 1 → a k = b k) →
      ((List.range' 1 (t + 1)).map a).sum = ((List.range' 1 (t + 1)).map b).sum := by
    intro a b hab
    refine congrArg List.sum (List.map_congr_left fun k hk => ?_)
    have hk := List.mem_range'_1.mp hk
    exact hab k hk.1 (by omega)
  refine ⟨⟨signKeys, gamma, w⟩, hkeys, ?_, ?_, ?_⟩
  · exact hsum _ _ fun k h₁ hk => (nonces_signKeysAt hsigner (hkeys k h₁ hk).1).1
  · exact hsum _ _ fun k h₁ hk => (nonces_signKeysAt hsigner (hkeys k h₁ hk).1).2
  · rw [← hs.sum_weightedShare hcurve hold.degree]
    exact hsum _ _ fun k h₁ hk => (hkeys k h₁ hk).2

end

section

variable {F G : Type} [Field F] {lib : Gg18 F G} {signer : Gg18Signer lib} {m : Nat}
  {partyKeys : Nat → lib.Keys} {draws : Nat → SignDraws signer.Seed}

/-- The rounds up to the nonce point. -/
def nonceTexts (json : SignJson signer) (id : Nat → Nat)
    (v : MtaValues signer m partyKeys draws) : List (Round × RoundTexts) :=
  [(round0, .toAll fun k => json.partyId.encode (id k)),
   (round1, .toAll fun k =>
     json.round1.encode ((v.com k).1, ownMessageA partyKeys draws v.signKeys k)),
   (round2, .toOne fun i j => json.round2.encode (v.mB i j)),
   (round3, .toAll fun k => json.scalar.encode (v.gamma.share k)),
   (round4, .toAll fun k => json.decommit.encode (v.com k).2)]

/-- The rounds of honest signers without a joint nonce. -/
def nonceSchedule (json : SignJson signer) (id : Nat → Nat)
    (v : MtaValues signer m partyKeys draws) (uuid : String) : Schedule where
  uuid := uuid
  parties := m
  rounds := nonceTexts json id v
  nodup := by
    simp [Round.ext_iff, nonceTexts, round0, round1, round2, round3, round4]

/-- The ten rounds of honest signers. -/
def signSchedule (json : SignJson signer) (id : Nat → Nat) (v : MtaValues signer m partyKeys draws)
    (localSig : Nat → signer.LocalSignature) (out : Nat → signer.Com2 × signer.Decom2)
    (uuid : String) : Schedule where
  uuid := uuid
  parties := m
  rounds := nonceTexts json id v ++
    [(round5, .toAll fun k => json.com1.encode (zkOf localSig draws k).1),
     (round6, .toAll fun k => json.round6.encode (zkOf localSig draws k).2),
     (round7, .toAll fun k => json.com2.encode (out k).1),
     (round8, .toAll fun k => json.decom2.encode (out k).2),
     (round9, .toAll fun k => json.scalar.encode (signer.localS (localSig k)))]
  nodup := by
    simp [Round.ext_iff, nonceTexts, round0, round1, round2, round3, round4, round5, round6, round7,
      round8, round9]

variable [AddCommGroup G] [Module F G] [DecidableEq G] {curve : Curve F G} {hmac : Hmac}
  {json : SignJson signer} {t n : Nat} {id : Nat → Nat} {file : Nat → KeyFile lib} {p : F[X]}
  {vssVec : List (Vss G)} {chainCode f : F} {y : G} {path messageStr uuid : String}
  {excused : Panic → Prop} {v : MtaValues signer (t + 1) (fun k => (file k).partyKeys) draws}
  {k : Nat}

section

variable (hsigner : signer.Documented curve)
  (hold : HoldShares curve t n (t + 1) id file p vssVec chainCode) (hs : Signers t n id)
  (ht₁ : 1 ≤ t) (ht : t < n) (hlt : t + 2 < 2 ^ 16)
  (hkey : ∀ k, 1 ≤ k → k ≤ t + 1 →
    keyAt curve hmac (file k).chainCode (file k).ySum path = .ok (f, y))
  (hkeys : ∀ k, 1 ≤ k → k ≤ t + 1 →
    signKeysAt (file k) (schemesAt curve f (path ≠ "") vssVec) (indices (t + 1) id) k f (path ≠ "")
      (draws k).create = .ok (v.signKeys k) ∧
    signer.wI (v.signKeys k) = weightedShare t id p f k)
  (h₁ : 1 ≤ k) (hk : k ≤ t + 1)

include hsigner hold hs ht₁ ht hlt hkey hkeys h₁ hk

/-- Without a joint nonce no honest signer returns. -/
theorem runSign_fails {a : Signed F G} (hzero : v.nonce * v.blind = 0)
    (hexcused : excused .unwrapNone) :
    Plays (nonceSchedule json id v uuid).mail (nonceSchedule json id v uuid).rank excused
      (Owes (nonceSchedule json id v uuid).mail k) 0
      (runSign curve json hmac (file k) k (t + 1) uuid messageStr path (draws k)) 5 a := by
  let s := nonceSchedule json id v uuid
  have r₃ : RoundMail s.mail s.rank (t + 1) uuid round3 4 _ := s.toAll (k := 3) rfl
  have hroot : decide (path ≠ "") = false → f = 0 := fun hpath =>
    (keyAt_child (hkey k h₁ hk)).2 (by simpa using hpath)
  unfold runSign sign
  rw [hkey k h₁ hk, lift_ok, pure_bind]
  refine (mtaRounds_plays hsigner hold hs ht₁ ht hlt hroot v hkeys (s.toAll (k := 0) rfl)
    (s.toAll (k := 1) rfl) (s.toOne (k := 2) rfl) h₁ hk).bind ?_
  exact noncePoint_fails hsigner hzero hexcused r₃ h₁ hk _

/-- Honest signers with a joint nonce play their part, and return one signature. -/
theorem runSign_plays (hk₀ : v.nonce ≠ 0) (hgamma₀ : v.blind ≠ 0)
    (s : Signatures v (v.nonce⁻¹ • curve.generator) y (fromBytes (messageOf messageStr) % 2 ^ 256))
    {x₁ x₂ : Nat} (hx₁ : curve.xCoord y = some x₁) (hx₂ : curve.yCoord y = some x₂) :
    Plays (signSchedule json id v s.localSig s.out uuid).mail
      (signSchedule json id v s.localSig s.out uuid).rank excused
      (Owes (signSchedule json id v s.localSig s.out uuid).mail k) 0
      (runSign curve json hmac (file k) k (t + 1) uuid messageStr path (draws k)) 10
      { deltaI := v.gamma.share k, sigma := v.w.share k, R := v.nonce⁻¹ • curve.generator,
        sig := s.sig, x := x₁, y := x₂, messageInt := fromBytes (messageOf messageStr) } := by
  let c := signSchedule json id v s.localSig s.out uuid
  have r₃ : RoundMail c.mail c.rank (t + 1) uuid round3 4 _ := c.toAll (k := 3) rfl
  have r₄ : RoundMail c.mail c.rank (t + 1) uuid round4 5 _ := c.toAll (k := 4) rfl
  have r₉ : RoundMail c.mail c.rank (t + 1) uuid round9 10
      fun k => json.scalar.encode (signer.localS (s.localSig k)) := c.toAll (k := 9) rfl
  have hroot : decide (path ≠ "") = false → f = 0 := fun hpath =>
    (keyAt_child (hkey k h₁ hk)).2 (by simpa using hpath)
  have hm : 2 ≤ t + 1 := Nat.succ_le_succ ht₁
  unfold runSign sign
  rw [hkey k h₁ hk, lift_ok, pure_bind]
  refine (mtaRounds_plays hsigner hold hs ht₁ ht hlt hroot v hkeys (c.toAll (k := 0) rfl)
    (c.toAll (k := 1) rfl) (c.toOne (k := 2) rfl) h₁ hk).bind ?_
  refine (noncePoint_plays hsigner hm hk₀ hgamma₀ r₃ r₄ h₁ hk).bind ?_
  simp only [MtaValues.output, s.made k h₁ hk, lift_ok, pure_bind]
  refine (checkShares_plays h₁ hk (s.checked k h₁ hk) (s.given k h₁ hk) (c.toAll (k := 5) rfl)
    (c.toAll (k := 6) rfl) (c.toAll (k := 7) rfl) (c.toAll (k := 8) rfl)).bind ?_
  refine r₉.formatVecFromReads h₁ hk ?_
  rw [removeAt_eq (fun j => signer.localS (s.localSig j)) h₁ hk, lift_ok, pure_bind]
  simp only [s.output k h₁ hk, s.verified, lift_ok, pure_bind, hx₁, hx₂]
  exact .pure

end

end

section

variable {F G : Type} [Field F] [AddCommGroup G] [Module F G] {curve : Curve F G} {aes : AesGcm}
  {hmac : Hmac} {lib : Gg18 F G} {signer : Gg18Signer lib} {t n : Nat} {id : Nat → Nat}
  {file : Nat → KeyFile lib}

/-- Signers with the files of a key generation hold shares, agree on the key, and
build what they sign with. -/
theorem Written.exists_mtaValues (hcurve : curve.Documented) (haes : aes.Documented)
    (hlib : lib.Documented curve.generator) (hsigner : signer.Documented curve)
    {keygenJson : Json lib} (ht : t < n) (hs : Signers t n id)
    (hfile : Written curve aes keygenJson t n (t + 1) id file) {path : String} {f : F} {Y : G}
    (hkey : keyAt curve hmac (file 1).chainCode (file 1).ySum path = .ok (f, Y))
    (draws : Nat → SignDraws signer.Seed) :
    ∃ (p : F[X]) (vssVec : List (Vss G)) (chainCode : F)
      (v : MtaValues signer (t + 1) (fun k => (file k).partyKeys) draws),
      HoldShares curve t n (t + 1) id file p vssVec chainCode ∧
      (∀ k, 1 ≤ k → k ≤ t + 1 →
        keyAt curve hmac (file k).chainCode (file k).ySum path = .ok (f, Y)) ∧
      (∀ k, 1 ≤ k → k ≤ t + 1 →
        signKeysAt (file k) (schemesAt curve f (path ≠ "") vssVec) (indices (t + 1) id) k f
          (path ≠ "") (draws k).create = .ok (v.signKeys k) ∧
        signer.wI (v.signKeys k) = weightedShare t id p f k) ∧
      v.nonce = ((List.range' 1 (t + 1)).map fun k => signer.drawK (draws k).create).sum ∧
      v.blind = ((List.range' 1 (t + 1)).map fun k => signer.drawGamma (draws k).create).sum ∧
      ((List.range' 1 (t + 1)).map fun k => signer.wI (v.signKeys k)).sum = p.eval 0 + f := by
  obtain ⟨p, vssVec, chainCode, hold⟩ := hfile.holdShares hcurve haes hlib ht
  have hone : 1 ≤ t + 1 := Nat.le_add_left 1 t
  have hroot : decide (path ≠ "") = false → f = 0 := fun hpath =>
    (keyAt_child hkey).2 (by simpa using hpath)
  obtain ⟨v, hkeys, hsums⟩ := hold.exists_mtaValues hcurve hsigner hs hroot draws
  refine ⟨p, vssVec, chainCode, v, hold, fun k h₁ hk => ?_, hkeys, hsums⟩
  rw [hold.chainCode k h₁ hk, hold.ySum k h₁ hk, ← hold.chainCode 1 le_rfl hone,
    ← hold.ySum 1 le_rfl hone, hkey]

end

end Ecdsa

section

variable {F G : Type} [Field F] [AddCommGroup G] [Module F G] [DecidableEq G] {curve : Curve F G}
  {aes : AesGcm} {hmac : Hmac} {lib : Gg18 F G} {signer : Gg18Signer lib} {t n : Nat}
  {id : Nat → Nat} {file : Nat → Ecdsa.KeyFile lib}

/-- Nonces that add up to zero have no inverse, and no signer returns. -/
theorem signers_stop (hcurve : curve.Documented) (haes : aes.Documented)
    (hlib : lib.Documented curve.generator) (hsigner : signer.Documented curve)
    (keygenJson : Ecdsa.Json lib) (json : Ecdsa.SignJson signer) (ht₁ : 1 ≤ t) (ht : t < n)
    (hn : n < 2 ^ 16) (hlt : t + 2 < 2 ^ 16) (hid : Set.InjOn id (Set.Icc 1 (t + 1)))
    (hfile : Ecdsa.Written curve aes keygenJson t n (t + 1) id file) {path : String} {f : F} {Y : G}
    (hkey : Ecdsa.keyAt curve hmac (file 1).chainCode (file 1).ySum path = .ok (f, Y))
    (messageStr uuid : String) (draws : Nat → Ecdsa.SignDraws signer.Seed)
    (hzero : ((List.range' 1 (t + 1)).map fun i => signer.drawK (draws i).create).sum = 0 ∨
      ((List.range' 1 (t + 1)).map fun i => signer.drawGamma (draws i).create).sum = 0)
    {store : Key → Option String} {net : Net (Fin (t + 1)) Key String Panic (Ecdsa.Signed F G)}
    {tr : List (NetEvent (Fin (t + 1)) Key String Panic)} (hstore : Unused uuid store)
    (hrun : NetRun (sessionNet (t + 1) store fun i =>
      Ecdsa.runSign curve json hmac (file i) i (t + 1) uuid messageStr path (draws i)) net tr)
    (hout : ∀ e ∈ tr, KeepsOut uuid e) (i : Fin (t + 1)) (a : Ecdsa.Signed F G) :
    net.scripts i ≠ .ret a := by
  intro hret
  have hs : Ecdsa.Signers t n id := ⟨hid, fun k h₁ hk => hfile.bound h₁ hk, hn⟩
  obtain ⟨p, vssVec, chainCode, v, hold, hkeyAt, hkeys, hnonce, hblind, _⟩ :=
    hfile.exists_mtaValues hcurve haes hlib hsigner ht hs hkey draws
  have hjoint : v.nonce * v.blind = 0 := by
    rw [hnonce, hblind]
    exact mul_eq_zero.mpr hzero
  have hon := fun b => session_onTrack (s := Ecdsa.nonceSchedule json id v uuid) (fun i h₁ hi =>
    Ecdsa.runSign_fails (a := b) hsigner hold hs ht₁ ht hlt hkeyAt hkeys h₁ hi hjoint trivial)
    hstore hrun hout fun e _ => givesUp_any e
  -- No track ends in a result, so any other one does as well as `a`.
  have hother := (hon { a with x := a.x + 1 }).returned hret
  exact absurd (congrArg Ecdsa.Signed.x hother) (Nat.succ_ne_self _).symm

/-- The signers of any `t + 1` parties of a key generation return one signature, which
is valid for the public key, or for the key at the path, if their nonces have an
inverse, the key has coordinates, and the signature would not be zero. -/
theorem ecdsa_signing (hcurve : curve.Documented)
    (hneg : ∀ P, curve.xCoord (-P) = curve.xCoord P) (haes : aes.Documented)
    (hlib : lib.Documented curve.generator) (hsigner : signer.Documented curve)
    (keygenJson : Ecdsa.Json lib) (json : Ecdsa.SignJson signer) (ht₁ : 1 ≤ t) (ht : t < n)
    (hn : n < 2 ^ 16) (hlt : t + 2 < 2 ^ 16) (hid : Set.InjOn id (Set.Icc 1 (t + 1)))
    (hfile : Ecdsa.Written curve aes keygenJson t n (t + 1) id file) {path : String} {f : F} {Y : G}
    (hkey : Ecdsa.keyAt curve hmac (file 1).chainCode (file 1).ySum path = .ok (f, Y))
    (messageStr uuid : String) (draws : Nat → Ecdsa.SignDraws signer.Seed) {k gamma : F}
    (hk : ((List.range' 1 (t + 1)).map fun i => signer.drawK (draws i).create).sum = k)
    (hgamma : ((List.range' 1 (t + 1)).map fun i => signer.drawGamma (draws i).create).sum = gamma)
    (hk₀ : k ≠ 0) (hgamma₀ : gamma ≠ 0) {x y : Nat} (hx : curve.xCoord Y = some x)
    (hy : curve.yCoord Y = some y)
    (hs₀ : ∀ r, curve.xCoord (k⁻¹ • curve.generator) = some r →
      curve.ofBigint (fromBytes (messageOf messageStr) % 2 ^ 256) • curve.generator +
        curve.ofBigint r • Y ≠ 0) :
    ∃ (secret : F) (deltaI sigma : Nat → F) (sig : SignatureRecid F),
      (∀ i, 1 ≤ i → i ≤ t + 1 → (file i).ySum = secret • curve.generator) ∧
      Y = secret • curve.generator + f • curve.generator ∧ (path = "" → f = 0) ∧
      ((List.range' 1 (t + 1)).map deltaI).sum = k * gamma ∧
      ((List.range' 1 (t + 1)).map sigma).sum = k * (secret + f) ∧
      EcdsaValid curve Y (fromBytes (messageOf messageStr) % 2 ^ 256) sig ∧
      AllReturn uuid (t + 1)
        (fun i => Ecdsa.runSign curve json hmac (file i) i (t + 1) uuid messageStr path (draws i))
        fun i => { deltaI := deltaI i, sigma := sigma i, R := k⁻¹ • curve.generator, sig, x, y,
                   messageInt := fromBytes (messageOf messageStr) } := by
  have hs : Ecdsa.Signers t n id := ⟨hid, fun k h₁ hk => hfile.bound h₁ hk, hn⟩
  obtain ⟨p, vssVec, chainCode, v, hold, hkeyAt, hkeys, hnonce, hblind, hw⟩ :=
    hfile.exists_mtaValues hcurve haes hlib hsigner ht hs hkey draws
  obtain ⟨hY, hroot⟩ := Ecdsa.keyAt_child hkey
  rw [hold.ySum 1 le_rfl (Nat.le_add_left 1 t)] at hY
  obtain rfl : v.nonce = k := hnonce.trans hk
  obtain rfl : v.blind = gamma := hblind.trans hgamma
  have hR : v.nonce⁻¹ • curve.generator ≠ 0 :=
    smul_ne_zero (inv_ne_zero hk₀) hcurve.generator_ne_zero
  obtain ⟨r, hr, _⟩ := hcurve.xCoord_lt _ hR
  obtain rfl : (p.eval 0 + f) • curve.generator = Y := by rw [hY, add_smul]
  have hne := hs₀ r hr
  rw [smul_smul, ← add_smul] at hne
  obtain ⟨s, hvalid, _⟩ := Ecdsa.exists_signatures hsigner hneg (Nat.succ_le_succ ht₁) hk₀ hw hr
    (left_ne_zero_of_smul hne)
  refine ⟨p.eval 0, v.gamma.share, v.w.share, s.sig, hold.ySum, add_smul _ _ _, hroot,
    v.gamma.sum_share, ?_, hvalid, allReturn fun excused i h₁ hi =>
      Ecdsa.runSign_plays hsigner hold hs ht₁ ht hlt hkeyAt hkeys h₁ hi hk₀ hgamma₀ s hx hy⟩
  rw [← hw]
  exact v.w.sum_share

end

/-- Parties `3` and `2` of three over the additive group, in this order, sign two bytes,
with the shares `2` and `-1` of the nonce. -/
theorem ecdsa_signing_additive :
    ∃ (file : Nat → Ecdsa.KeyFile (additiveGg18 65537)) (deltaI sigma : Nat → ZMod 65537)
      (sig : SignatureRecid (ZMod 65537)) (x y : Nat),
      deltaI 1 + deltaI 2 = 3 ∧ sigma 1 + sigma 2 = 3 ∧
      EcdsaValid (foldedCurve 65537) (3 : ZMod 65537) 0xaf1 sig ∧
      AllReturn "v" 2
        (fun i => Ecdsa.runSign (foldedCurve 65537) (additiveSignJson 65537) (fun _ _ => []) (file i)
          i 2 "v" "0aF1" "" (additiveDraws (5 - 3 * i) i))
        fun i => { deltaI := deltaI i, sigma := sigma i, R := 1, sig, x, y, messageInt := 0xaf1 } := by
  obtain ⟨file, hfile, hySum⟩ := Ecdsa.exists_written_additive
  have hkey : Ecdsa.keyAt (foldedCurve 65537) (fun _ _ => []) (file 1).chainCode (file 1).ySum "" =
      .ok (0, 3) := by
    rw [hySum]
    rfl
  have h3 : (3 : ZMod 65537) ≠ 0 := by decide
  obtain ⟨x, hx, _⟩ := foldedCurve_xCoord (p := 65537) (by norm_num) h3
  have hnonce : ((List.range' 1 2).map fun i : Nat => (5 - 3 * i : ZMod 65537)).sum = 1 := by decide
  have hblind : ((List.range' 1 2).map fun i : Nat => (i : ZMod 65537)).sum = 3 := by decide
  have hR : (1 : ZMod 65537)⁻¹ • (foldedCurve 65537).generator = 1 := by
    rw [inv_one, one_smul]
    rfl
  have hmessage : fromBytes (messageOf "0aF1") = 0xaf1 := by decide
  have hs₀ : ∀ r, (foldedCurve 65537).xCoord ((1 : ZMod 65537)⁻¹ • (foldedCurve 65537).generator) =
      some r → (foldedCurve 65537).ofBigint (fromBytes (messageOf "0aF1") % 2 ^ 256) •
        (foldedCurve 65537).generator + (foldedCurve 65537).ofBigint r • (3 : ZMod 65537) ≠ 0 := by
    intro r hr
    rw [hR] at hr
    obtain rfl := Option.some.inj hr
    rw [hmessage]
    show ((0xaf1 % 2 ^ 256 : Nat) : ZMod 65537) * 1 + ((2 ^ 248 + 1 : Nat) : ZMod 65537) * 3 ≠ 0
    decide
  obtain ⟨secret, deltaI, sigma, sig, hsecret, _, _, hdelta, hsigma, hvalid, hreturn⟩ :=
    ecdsa_signing (foldedCurve_documented (by norm_num) (by norm_num)) foldedCurve_neg
      xorAes_documented (additiveGg18_documented 65537) (additiveGg18Signer_documented 65537) _
      (additiveSignJson 65537) le_rfl (show 1 < 3 by decide) (by norm_num) (by norm_num)
      injOn_four_sub hfile hkey "0aF1" "v" (fun i => additiveDraws (5 - 3 * i) i) hnonce hblind
      one_ne_zero h3 hx (foldedCurve_yCoord h3) hs₀
  rw [hR, hmessage] at hreturn
  rw [hmessage] at hvalid
  refine ⟨file, deltaI, sigma, sig, x, 3, ?_, ?_, hvalid, hreturn⟩
  · simpa [List.range'_succ] using hdelta
  · have : secret = 3 := by
      rw [← hySum 1, hsecret 1 le_rfl (by decide)]
      exact (mul_one _).symm
    simpa [List.range'_succ, this] using hsigma

/-- With the shares `1` and `-1` of the nonce neither of them returns. -/
theorem ecdsa_signing_stops :
    ∃ file : Nat → Ecdsa.KeyFile (additiveGg18 65537),
      Ecdsa.Written (foldedCurve 65537) xorAes (additiveKeygenJson 65537) 1 3 2 (fun k => 4 - k)
        file ∧
      ∀ (store : Key → Option String)
        (net : Net (Fin 2) Key String Panic (Ecdsa.Signed (ZMod 65537) (ZMod 65537)))
        (tr : List (NetEvent (Fin 2) Key String Panic)),
        Unused "v" store →
        NetRun (sessionNet 2 store fun i => Ecdsa.runSign (foldedCurve 65537) (additiveSignJson 65537)
          (fun _ _ => []) (file i) i 2 "v" "0aF1" "" (additiveDraws (3 - 2 * i) i)) net tr →
        (∀ e ∈ tr, KeepsOut "v" e) → ∀ i a, net.scripts i ≠ .ret a := by
  obtain ⟨file, hfile, hySum⟩ := Ecdsa.exists_written_additive
  have hkey : Ecdsa.keyAt (foldedCurve 65537) (fun _ _ => []) (file 1).chainCode (file 1).ySum "" =
      .ok (0, 3) := by
    rw [hySum]
    rfl
  have hnonce : ((List.range' 1 2).map fun i : Nat => (3 - 2 * i : ZMod 65537)).sum = 0 := by decide
  refine ⟨file, hfile, fun store net tr hstore hrun hout => ?_⟩
  exact signers_stop (foldedCurve_documented (by norm_num) (by norm_num)) xorAes_documented
    (additiveGg18_documented 65537) (additiveGg18Signer_documented 65537) _ _ le_rfl
    (show 1 < 3 by decide) (by norm_num) (by norm_num) injOn_four_sub hfile hkey _ _
    (fun i => additiveDraws (3 - 2 * i) i) (Or.inl hnonce) hstore hrun hout

end TssCli
