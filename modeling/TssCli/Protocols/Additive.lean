import Mathlib.Data.List.GetD
import Mathlib.Tactic.NormNum.Prime
import TssCli.Protocols.Ecdsa.Signer
import TssCli.Protocols.Eddsa.Signer

/-!
# Libraries over the additive group

The documentation of the libraries can be met: over the additive group of a prime
field, where everybody knows all discrete logarithms, with dealings by lines and
a cipher that adds the key to the text.
-/

namespace TssCli

open Polynomial Sharing

/-! ## A cipher -/

/-- The text with the key added bit by bit. -/
def xorKey (key text : List UInt8) : List UInt8 := List.zipWith (· ^^^ ·) text key

theorem xorKey_xorKey : ∀ {key text : List UInt8}, text.length ≤ key.length →
    xorKey key (xorKey key text) = text
  | _, [], _ => by simp [xorKey]
  | [], b :: text, h => by simp at h
  | k :: key, b :: text, h => by
      have ih := xorKey_xorKey (Nat.le_of_succ_le_succ h)
      simp only [xorKey, List.zipWith_cons_cons, UInt8.xor_assoc, UInt8.xor_self,
        UInt8.xor_zero] at ih ⊢
      rw [ih]

def xorAes : AesGcm where
  encrypt key _ text := some (xorKey key text)
  decrypt key _ text := some (xorKey key text)

theorem xorAes_documented : xorAes.Documented := by
  intro key nonce text hkey _ htext
  exact ⟨_, rfl, congrArg some (xorKey_xorKey (by omega))⟩

/-! ## Dealings -/

section

variable {p : Nat} [Fact p.Prime]

/-- The line through the secret, or the constant if no other party is needed. -/
noncomputable def line (t : Nat) (secret slope : ZMod p) : (ZMod p)[X] :=
  C secret + C (if t = 0 then 0 else slope) * X

/-- The dealing by a line. -/
noncomputable def dealLine (params : Parameters) (secret slope : ZMod p) (points : List Nat) :
    Vss (ZMod p) × List (ZMod p) :=
  ({ threshold := params.threshold, shareCount := params.shareCount,
     commitments := commit 1 params.threshold (line params.threshold secret slope) },
   points.map fun i : Nat => (line params.threshold secret slope).eval (i : ZMod p))

theorem natDegree_line (t : Nat) (secret slope : ZMod p) : (line t secret slope).natDegree ≤ t := by
  unfold line
  by_cases ht : t = 0
  · simp [ht]
  · refine (natDegree_add_le _ _).trans (max_le (by simp) ?_)
    exact (natDegree_C_mul_le _ _).trans (natDegree_X_le.trans (Nat.one_le_iff_ne_zero.mpr ht))

theorem dealLine_deals (params : Parameters) (secret slope : ZMod p) (points : List Nat) :
    Deals 1 params.threshold params.shareCount secret points
      (dealLine params secret slope points).1 (dealLine params secret slope points).2
      (line params.threshold secret slope) where
  degree := natDegree_line _ _ _
  secret := by simp [line]
  vss := rfl
  shares := rfl

end

/-! ## The libraries -/

section

variable (p : Nat) [Fact p.Prime]

/-- A scalar that is not zero. -/
def nonzero (seed : ZMod p) : ZMod p := if seed = 0 then 1 else seed

theorem nonzero_ne_zero (seed : ZMod p) : nonzero p seed ≠ 0 := by
  unfold nonzero
  split
  next => exact one_ne_zero
  next h => exact h

/-- `gg_2018` with shown secrets.  The encryption key is the number of the party. -/
noncomputable def additiveGg18 : Gg18 (ZMod p) (ZMod p) where
  Keys := Nat × ZMod p
  Broadcast := Nat
  Decommit := ZMod p
  EncryptionKey := Nat
  SharedKeys := ZMod p × ZMod p
  Seed := ZMod p
  dlog := additiveDLog p
  uI := Prod.snd
  e i := i
  yI y := y
  y := Prod.fst
  xI := Prod.snd
  create i seed := (i, nonzero p seed)
  phase1Broadcast keys _ := keys
  distribute keys params _ _ seed :=
    let dealt := dealLine params keys.2 seed (List.range' 1 params.shareCount)
    .ok (dealt.1, dealt.2, keys.1)
  construct _ _ ys shares _ _ seed :=
    .ok ((ys.sum, shares.sum), (additiveDLog p).prove shares.sum seed)
  verifyDlogProofs _ proofs _ :=
    if proofs.all (additiveDLog p).verify then .ok () else .error .unwrapErr

theorem additiveGg18_documented :
    (additiveGg18 p).Documented (additiveCurve p).generator where
  dlog := additiveDLog_documented p
  uI_ne_zero _ seed := nonzero_ne_zero p seed
  yI keys _ := by simp [additiveGg18, additiveCurve]
  distribute keys params _ seed _ _ _ :=
    ⟨_, _, _, _, rfl, dealLine_deals params keys.2 seed _⟩
  construct _ _ _ _ seed _ _ := ⟨_, seed, rfl, rfl, rfl⟩
  verifyDlogProofs _ _ _ _ _ h := if_pos (List.all_eq_true.mpr h)

/-- `thresholdsig` with shown secrets. -/
noncomputable def additiveThresholdSig : ThresholdSig (ZMod p) (ZMod p) where
  Keys := ZMod p
  Broadcast := ZMod p
  Decommit := ZMod p
  SharedKeys := ZMod p × ZMod p
  Seed := ZMod p
  dlog := additiveDLog p
  privateKey u := u
  blindFactor _ := 0
  yI y := y
  y := Prod.fst
  xI := Prod.snd
  create _ seed := nonzero p seed
  phase1Broadcast u _ := (u, u)
  distribute u params _ _ _ parties seed := .ok (dealLine params u seed parties)
  construct _ _ ys shares _ _ := .ok (ys.sum, shares.sum)

theorem additiveThresholdSig_documented :
    (additiveThresholdSig p).Documented (additiveCurve p).generator where
  dlog := additiveDLog_documented p
  privateKey_ne_zero _ seed := nonzero_ne_zero p seed
  yI u _ := (mul_one (M := ZMod p) u).symm
  distribute keys params _ _ seed _ _ _ _ :=
    ⟨_, _, _, rfl, dealLine_deals params keys seed _⟩
  construct _ _ _ _ _ _ := ⟨_, rfl, rfl, rfl⟩

/-- The signing of `thresholdsig` with shown nonces. -/
noncomputable def additiveSigner (sha512 : List UInt8 → List UInt8) :
    ThresholdSigner (additiveThresholdSig p) where
  EphemeralKey := ZMod p
  EphemeralSharedKeys := ZMod p × ZMod p
  LocalSig := ZMod p × ZMod p
  Seed := ZMod p
  setY shared y := (y, Prod.snd (α := ZMod p) (β := ZMod p) shared)
  rI r := r
  RI r := r
  sharedR := Prod.fst
  sharedRI := Prod.snd
  gammaI := Prod.fst
  k := Prod.snd
  create _ _ _ seed := nonzero p seed
  phase1Broadcast r _ := (r, 0)
  distribute r params _ _ _ parties seed := .ok (dealLine params r seed parties)
  construct _ _ points shares _ _ := .ok (points.sum, shares.sum)
  compute message eph shared :=
    let k := Eddsa.challenge (additiveCurve p) sha512 eph.1 ((additiveThresholdSig p).y shared)
      message
    (eph.2 + k * (additiveThresholdSig p).xI shared, k)
  verifyLocalSigs _ _ _ ephVss := ephVss.head?
  generate vss sigs indices R :=
    { R
      s := (Lagrange.interpolate (Finset.univ : Finset (Fin (vss.threshold + 1)))
        (fun i => ((indices.getD i 0 + 1 : Nat) : ZMod p)) fun i => (sigs.getD i (0, 0)).1).eval 0 }
  verify signature message y := decide (signature.s • (additiveCurve p).generator = signature.R +
    Eddsa.challenge (additiveCurve p) sha512 signature.R y message • y)

theorem additiveSigner_documented (sha512 : List UInt8 → List UInt8) :
    (additiveSigner p sha512).Documented (additiveCurve p) sha512 where
  rI_ne_zero _ _ _ seed := nonzero_ne_zero p seed
  RI _ _ _ _ := (mul_one (M := ZMod p) _).symm
  distribute r params _ parties seed _ _ _ _ := ⟨_, _, _, rfl, dealLine_deals params r seed _⟩
  construct _ _ _ _ _ _ := ⟨_, rfl, rfl, rfl⟩
  y_setY _ _ := rfl
  xI_setY _ _ := rfl
  k_compute _ _ _ := rfl
  gammaI_compute _ _ _ := rfl
  verifyLocalSigs sigs indices keyVss ephVss t c _ hne hdealt _ _ _ _ := by
    obtain ⟨vss, rest, rfl⟩ := List.exists_cons_of_ne_nil hne
    exact ⟨vss, rfl, (hdealt vss (by simp)).1⟩
  generate vss sigs indices R q hq hlength hlt hnodup hvalue := by
    have hi : ∀ i : Fin (vss.threshold + 1), (i : Nat) < indices.length := fun i => by omega
    refine congrArg (Signature.mk R) (interpolate_secret _ (fun i _ j _ hij => ?_) (by simp) hq
      fun i _ => ?_)
    · simp only [List.getD_eq_getElem _ _ (hi i), List.getD_eq_getElem _ _ (hi j)] at hij
      refine Fin.ext ((@List.Nodup.getElem_inj_iff _ _ hnodup i (by simpa using hi i) j
        (by simpa using hi j)).mp ?_)
      simpa using hij
    · have hs : (i : Nat) < sigs.length := hlength ▸ hi i
      have hmem : (sigs[(i : Nat)], indices[(i : Nat)]) ∈ sigs.zip indices := by
        rw [← List.getElem_zip (h := by simp [hs, hi i])]
        exact List.getElem_mem _
      rw [List.getD_eq_getElem _ _ (hi i)]
      exact (congrArg Prod.fst (List.getD_eq_getElem (α := ZMod p × ZMod p) sigs (0, 0) hs)).trans
        (hvalue _ hmem)
  verify signature message y := decide_eq_true_iff

end

/-! ## The ECDSA signer -/

section

variable (p : Nat) [Fact p.Prime]

/-- The additive group with coordinates of `32` bytes, which a point shares with its
negative. -/
def foldedCurve : Curve (ZMod p) (ZMod p) :=
  { additiveCurve p with
    xCoord x := if x = 0 then none else some (2 ^ 248 + min x.val (-x).val) }

variable {p}

theorem foldedCurve_xCoord {x : ZMod p} (hp : p < 2 ^ 248) (hx : x ≠ 0) :
    ∃ c, (foldedCurve p).xCoord x = some c ∧ 2 ^ 248 ≤ c ∧ c < 2 ^ 256 := by
  refine ⟨_, if_neg hx, Nat.le_add_right .., ?_⟩
  have := (min_le_left x.val (-x).val).trans_lt ((ZMod.val_lt x).trans hp)
  omega

theorem foldedCurve_yCoord {x : ZMod p} (hx : x ≠ 0) : (foldedCurve p).yCoord x = some x.val :=
  if_neg hx

theorem foldedCurve_documented (h₁ : 2 ^ 16 ≤ p) (hp : p < 2 ^ 248) :
    (foldedCurve p).Documented :=
  { additiveCurve_documented p h₁ (hp.trans (by norm_num)) with
    xCoord_lt := fun x hx => by
      obtain ⟨c, hc, _, hlt⟩ := foldedCurve_xCoord hp hx
      exact ⟨c, hc, hlt⟩ }

/-- A point and its negative have the same coordinate. -/
theorem foldedCurve_neg (x : ZMod p) : (foldedCurve p).xCoord (-x) = (foldedCurve p).xCoord x := by
  simp [foldedCurve, min_comm]

/-- All keys of pairs have `32` bytes. -/
theorem length_foldedCurve_dhX (hp : p < 2 ^ 248) {a b : ZMod p} (ha : a ≠ 0) (hb : b ≠ 0) :
    (toBytes (dhX (foldedCurve p) a b)).length = 32 := by
  have hne : a • b • (foldedCurve p).generator ≠ 0 :=
    mul_ne_zero ha (mul_ne_zero hb one_ne_zero)
  obtain ⟨c, hc, h₁, hlt⟩ := foldedCurve_xCoord hp hne
  have hdhX : dhX (foldedCurve p) a b = c := by rw [dhX, hc, Option.getD_some]
  rw [hdhX, length_toBytes hlt]
  exact h₁

variable (p)

/-- The keys for one signature: the shares of the nonces, and the weighted share. -/
structure AdditiveSignKeys where
  k : ZMod p
  gamma : ZMod p
  w : ZMod p

/-- The fields of a local signature. -/
structure AdditiveLocalSig where
  s : ZMod p
  R : ZMod p
  m : Nat
  y : ZMod p

/-- A signature with the coordinate of the nonce point. -/
def additiveFinish (R s : ZMod p) : SignatureRecid (ZMod p) where
  r := (foldedCurve p).ofBigint (((foldedCurve p).xCoord R).getD 0)
  s := s
  recid := 0

open Classical in
/-- The signing of `gg_2018` with shown nonces. -/
noncomputable def additiveGg18Signer : Gg18Signer (additiveGg18 p) where
  DecryptionKey := Unit
  PartyPrivate := ZMod p
  SignKeys := AdditiveSignKeys p
  SignBroadcast := Unit
  SignDecommit := ZMod p
  MessageA := ZMod p
  MessageB := ZMod p × ZMod p × ZMod p
  LocalSignature := AdditiveLocalSig p
  Com1 := Unit
  Decom1 := Unit
  ElGamalProof := Unit
  Com2 := Unit
  Decom2 := Unit
  Seed := ZMod p × ZMod p
  drawK := Prod.fst
  drawGamma := Prod.snd
  dk _ := ()
  ek := Prod.fst
  xI x := x
  setPrivate _ shared := (additiveGg18 p).xI shared
  updatePrivateKey x _ f := x + f
  create x _ i signers seed := ⟨seed.1, seed.2, weight signers.toFinset (point (ZMod p)) i * x⟩
  kI := AdditiveSignKeys.k
  gammaI := AdditiveSignKeys.gamma
  wI := AdditiveSignKeys.w
  phase1Broadcast keys _ := ((), keys.gamma)
  gGammaI gamma := gamma
  messageA k _ _ := k
  messageB b _ k seed := .ok ((k * b - Prod.fst seed, b, b), Prod.fst seed)
  bProof m := Prod.snd m
  verifyProofsGetAlpha m _ _ := .ok (Prod.fst m)
  getCommitmentsToXi vssVec := (List.range' 1 vssVec.length).map fun i : Nat =>
    (vssVec.map fun vss => evalCommit vss.commitments (i : ZMod p)).sum
  updateCommitmentsToXi comm _ i signers := weight signers.toFinset (point (ZMod p)) i • comm
  phase2DeltaI keys alphas betas := keys.k * keys.gamma + alphas.sum + betas.sum
  phase2SigmaI keys mus nus := keys.k * keys.w + mus.sum + nus.sum
  phase3ReconstructDelta deltas :=
    if deltas.sum = 0 then .error .unwrapNone else .ok deltas.sum⁻¹
  phase4 deltaInv _ decommits _ := .ok (deltaInv • List.sum (α := ZMod p) decommits)
  localS := AdditiveLocalSig.s
  localR := AdditiveLocalSig.R
  localM := AdditiveLocalSig.m
  localY := AdditiveLocalSig.y
  phase5LocalSig k m R sigma y _ :=
    match (foldedCurve p).xCoord R with
    | some x => .ok ⟨(foldedCurve p).ofBigint m * k + (foldedCurve p).ofBigint x * sigma, R, m, y⟩
    | none => .error .unwrapNone
  phase5a _ _ := ((), (), (), (0, 0))
  VI _ := 0
  phase5c _ _ _ _ _ _ _ _ := .ok ((), ())
  phase5d localSig _ _ _ := .ok localSig.s
  outputSignature localSig shares :=
    let sig := additiveFinish p localSig.R (localSig.s + shares.sum)
    if EcdsaValid (foldedCurve p) localSig.y localSig.m sig then .ok sig else .error .unwrapErr
  verify sig y m := if EcdsaValid (foldedCurve p) y m sig then .ok () else .error .unwrapErr

theorem additiveGg18Signer_documented :
    (additiveGg18Signer p).Documented (foldedCurve p) where
  xI_setPrivate _ _ := rfl
  xI_updatePrivateKey _ _ _ := rfl
  wI_create _ _ _ _ _ _ _ := rfl
  getCommitmentsToXi _ _ := rfl
  updateCommitmentsToXi _ _ _ _ _ _ := rfl
  pk_bProof b _ _ _ _ _ h := by
    obtain ⟨rfl, -⟩ := Prod.mk.inj (Except.ok.inj h)
    exact (mul_one (M := ZMod p) b).symm
  e_phase1Broadcast _ _ := rfl
  kI_create _ _ _ _ _ := rfl
  gammaI_create _ _ _ _ _ := rfl
  gGammaI_phase1Broadcast keys _ := (mul_one (M := ZMod p) keys.gamma).symm
  mta _ _ k b _ seedB := ⟨_, _, _, rfl, rfl, sub_add_cancel (k * b) (Prod.fst seedB)⟩
  phase2DeltaI _ _ _ _ := rfl
  phase2SigmaI _ _ _ _ := rfl
  phase3ReconstructDelta _ h := if_neg h
  phase3ReconstructDelta_zero _ h := if_pos h
  phase4 _ _ _ _ := rfl
  phase5LocalSig k m R sigma y _ x h := by
    refine ⟨⟨(foldedCurve p).ofBigint m * k + (foldedCurve p).ofBigint x * sigma, R, m, y⟩, ?_, rfl,
      rfl, rfl, rfl⟩
    simp only [additiveGg18Signer, h]
  phase5c _ _ _ _ _ _ _ _ _ _ := ⟨_, rfl⟩
  phase5d _ _ _ _ _ _ _ _ _ _ _ _ _ _ _ _ := rfl
  outputSignature := by
    refine ⟨additiveFinish p, fun R s x h => ?_, fun R s => Or.inl rfl,
      fun localSig shares h => if_pos h⟩
    rw [additiveFinish, h, Option.getD_some]
  verify _ _ _ h := if_pos h

end

instance prime65537 : Fact (Nat.Prime 65537) := ⟨by norm_num⟩

/-! ## Texts -/

instance countableUInt8 : Countable UInt8 :=
  Function.Injective.countable fun _ _ h => UInt8.toNat_inj.mp h

instance : Countable AeadPack :=
  Function.Injective.countable (f := fun x => (x.ciphertext, x.tag)) fun x y h => by
    cases x; cases y; simp_all

instance {G : Type} [Countable G] : Countable (Vss G) :=
  Function.Injective.countable (f := fun x => (x.threshold, x.shareCount, x.commitments))
    fun x y h => by cases x; cases y; simp_all

noncomputable def KeygenJson.ofCountable (G Bc Decom Proof : Type) [Countable G] [Countable Bc]
    [Countable Decom] [Countable Proof] : KeygenJson G Bc Decom Proof where
  bc := .ofCountable Bc
  decom := .ofCountable Decom
  pack := .ofCountable AeadPack
  vss := .ofCountable (Vss G)
  proof := .ofCountable Proof

/-- The messages of an ECDSA key generation. -/
noncomputable def additiveKeygenJson (p : Nat) [Fact p.Prime] : Ecdsa.Json (additiveGg18 p) where
  scalar := .ofCountable (ZMod p)
  keygen := .ofCountable (ZMod p) Nat (ZMod p) (ZMod p × ZMod p)

/-- The messages of ECDSA signers. -/
noncomputable def additiveSignJson (p : Nat) [Fact p.Prime] :
    Ecdsa.SignJson (additiveGg18Signer p) where
  partyId := .ofCountable Nat
  round1 := .ofCountable (Unit × ZMod p)
  round2 := .ofCountable ((ZMod p × ZMod p × ZMod p) × (ZMod p × ZMod p × ZMod p))
  scalar := .ofCountable (ZMod p)
  decommit := .ofCountable (ZMod p)
  com1 := .ofCountable Unit
  round6 := .ofCountable (Unit × Unit × (ZMod p × ZMod p))
  com2 := .ofCountable Unit
  decom2 := .ofCountable Unit

/-- The shares of the nonces, and nothing else that is random. -/
def additiveDraws {p : Nat} (k gamma : ZMod p) : Ecdsa.SignDraws (ZMod p × ZMod p) where
  create := (k, gamma)
  broadcast := 0
  messageA := 0
  messageBGamma _ := 0
  messageBW _ := 0
  localSig := 0
  phase5a := 0
  phase5c := 0

end TssCli
