import TssCli.Protocols.Ecdsa.TweakedShares

/-!
# The secret of the leader

At a path the signers add the multiple of the generator by the tweak to the first
commitment of party `1` of the key generation, and the signer that joined the room
first adds the tweak to its `u_i`.  The code calls both of them the leader.  So the
secret contributions go on to match their commitments when the first to join is
party `1`, and not otherwise (`leader_commitment`).
-/

namespace TssCli

namespace Ecdsa

/-! ## Contributions -/

/-- The field `u_i` of a private key, with what the documentation says of it. -/
structure Contribution {F G : Type} [Add F] {lib : Gg18 F G} (signer : Gg18Signer lib) where
  uI : signer.PartyPrivate → F
  uI_setPrivate : ∀ keys shared, uI (signer.setPrivate keys shared) = lib.uI keys
  uI_updatePrivateKey : ∀ priv f f', uI (signer.updatePrivateKey priv f f') = uI priv + f

/-- `vss_scheme_vec[d - 1].commitments[0]`. -/
def firstCommitment {G : Type} (vssSchemeVec : List (Vss G)) (d : Nat) : Except Panic G := do
  let vss ← index vssSchemeVec (d - 1)
  index vss.commitments 0

section

variable {F G : Type} [Field F] [AddCommGroup G] [Module F G] {curve : Curve F G}
  {lib : Gg18 F G} {signer : Gg18Signer lib} {file : KeyFile lib} {f : F} {signAtPath : Bool}

/-- The tweak goes to the first commitment of party `1`. -/
theorem firstCommitment_addTweak {y : G} : ∀ {vssVec : List (Vss G)} {d : Nat}, 1 ≤ d →
    firstCommitment vssVec d = .ok y →
    firstCommitment (addTweak curve f vssVec) d =
      .ok (y + (if d = 1 then f else 0) • curve.generator)
  | [], _, _, h => by cases h
  | { threshold, shareCount, commitments } :: rest, 1, _, h => by
      cases commitments with
      | nil => cases h
      | cons c cs =>
          obtain rfl : c = y := Except.ok.inj h
          rfl
  | { threshold, shareCount, commitments } :: rest, d + 2, _, h => by
      rw [if_neg (by omega), zero_smul, add_zero, ← h]
      cases commitments with
      | nil => rfl
      | cons c cs => rfl

omit [AddCommGroup G] [Module F G] in
/-- The tweak goes to the `u_i` of the first to join. -/
theorem uI_privateAt (c : Contribution signer) (k : Nat) (hroot : signAtPath = false → f = 0) :
    c.uI (privateAt signer file k f signAtPath) =
      lib.uI file.partyKeys + if k = 1 then f else 0 := by
  unfold privateAt
  cases signAtPath with
  | true =>
      rw [if_pos rfl]
      split
      next => rw [c.uI_updatePrivateKey, c.uI_setPrivate]
      next => rw [c.uI_updatePrivateKey, c.uI_setPrivate]
  | false =>
      rw [if_neg Bool.false_ne_true, c.uI_setPrivate, hroot rfl, ite_self, add_zero]

/-- Where the schemes are updated, the signer's contribution is the one it has
committed to. -/
def Matches (curve : Curve F G) (c : Contribution signer) (file : KeyFile lib) (k : Nat)
    (f : F) (signAtPath : Bool) : Prop :=
  ∀ vssVec, vssAt curve file f signAtPath = .ok vssVec →
    firstCommitment vssVec file.partyNumInt =
      .ok (c.uI (privateAt signer file k f signAtPath) • curve.generator)

/-- The update needs a second scheme. -/
theorem vssAt_eq {t : Nat} (hlength : signAtPath = true → 2 ≤ file.vssSchemeVec.length)
    (hdealt : ∀ vss ∈ file.vssSchemeVec, vss.commitments.length = t + 1) :
    vssAt curve file f signAtPath = .ok (schemesAt curve f signAtPath file.vssSchemeVec) := by
  cases signAtPath with
  | true => exact tweakVss_eq f (hlength rfl) hdealt
  | false => rfl

/-- A key of one party cannot be updated. -/
theorem tweakVss_short : ∀ {vssVec vssVec' : List (Vss G)}, vssVec.length < 2 →
    tweakVss curve vssVec f ≠ .ok vssVec'
  | [], _, _, h => by cases h
  | [leader], _, _, h => by
      obtain ⟨leader', hleader, h⟩ := except_bind_ok h
      obtain ⟨comZero, -, h⟩ := except_bind_ok h
      obtain ⟨next, hnext, -⟩ := except_bind_ok h
      cases hnext
  | _ :: _ :: _, _, hlt, _ => absurd hlt (by simp)

omit [Field F] [AddCommGroup G] [Module F G] in
theorem firstCommitment_short {y : G} : ∀ {vssVec : List (Vss G)} {d : Nat}, 1 ≤ d →
    vssVec.length < 2 → firstCommitment vssVec d = .ok y → d = 1
  | _, 1, _, _, _ => rfl
  | [], _ + 2, _, _, h => by cases h
  | [_], _ + 2, _, _, h => by cases h
  | _ :: _ :: _, _, _, hlt, _ => absurd hlt (by simp)

/-- A signer keeps its commitment if it is the leader in both senses, or in neither. -/
theorem matches_iff (hgen : curve.generator ≠ 0) (c : Contribution signer) {t : Nat}
    (hlength : signAtPath = true → 2 ≤ file.vssSchemeVec.length)
    (hdealt : ∀ vss ∈ file.vssSchemeVec, vss.commitments.length = t + 1)
    (hid : 1 ≤ file.partyNumInt)
    (hstored : firstCommitment file.vssSchemeVec file.partyNumInt =
      .ok (lib.uI file.partyKeys • curve.generator))
    (hroot : signAtPath = false → f = 0) (k : Nat) :
    Matches curve c file k f signAtPath ↔ f = 0 ∨ (file.partyNumInt = 1 ↔ k = 1) := by
  have hcommitment : firstCommitment (schemesAt curve f signAtPath file.vssSchemeVec)
      file.partyNumInt = .ok (lib.uI file.partyKeys • curve.generator +
        (if file.partyNumInt = 1 then f else 0) • curve.generator) := by
    cases signAtPath with
    | true => exact firstCommitment_addTweak hid hstored
    | false => rw [hroot rfl, ite_self, zero_smul, add_zero]; exact hstored
  have hequal : Matches curve c file k f signAtPath ↔
      (if file.partyNumInt = 1 then f else 0) = if k = 1 then f else 0 := by
    rw [← smul_left_injective F hgen |>.eq_iff,
      ← add_right_inj (lib.uI file.partyKeys • curve.generator)]
    constructor
    · intro h
      have hc := h _ (vssAt_eq hlength hdealt)
      rw [hcommitment, uI_privateAt c k hroot, add_smul] at hc
      exact Except.ok.inj hc
    · intro h vssVec hv
      obtain rfl := Except.ok.inj ((vssAt_eq hlength hdealt).symm.trans hv)
      rw [hcommitment, uI_privateAt c k hroot, add_smul, ← h]
  rw [hequal]
  by_cases hd : file.partyNumInt = 1 <;> by_cases hk : k = 1 <;> simp [hd, hk, eq_comm]

end

end Ecdsa

section

variable {F G : Type} [Field F] [AddCommGroup G] [Module F G] {curve : Curve F G} {hmac : Hmac}
  {lib : Gg18 F G} {signer : Gg18Signer lib} {file : Nat → Ecdsa.KeyFile lib} {t m : Nat}

/-- For signers that have committed to their contributions, at any path, the schemes
of a key of two parties or more are updated, and where they are, all signers still
have the contributions they have committed to exactly when there is no tweak, or the
first to join is party `1` of the key generation. -/
theorem leader_commitment (hgen : curve.generator ≠ 0) (c : Ecdsa.Contribution signer)
    (hm : 1 ≤ m) (hid : Set.InjOn (fun k => (file k).partyNumInt) (Set.Icc 1 m))
    (hpos : ∀ k, 1 ≤ k → k ≤ m → 1 ≤ (file k).partyNumInt)
    (hdealt : ∀ k, 1 ≤ k → k ≤ m → ∀ vss ∈ (file k).vssSchemeVec,
      vss.commitments.length = t + 1)
    (hstored : ∀ k, 1 ≤ k → k ≤ m →
      Ecdsa.firstCommitment (file k).vssSchemeVec (file k).partyNumInt =
        .ok (lib.uI (file k).partyKeys • curve.generator))
    {path : String} {f : F} (hkey : ∀ k, 1 ≤ k → k ≤ m → ∃ child,
      Ecdsa.keyAt curve hmac (file k).chainCode (file k).ySum path = .ok (f, child)) :
    (∀ k, 1 ≤ k → k ≤ m → 2 ≤ (file k).vssSchemeVec.length →
      ∃ vssVec, Ecdsa.vssAt curve (file k) f (path ≠ "") = .ok vssVec) ∧
    ((∀ k, 1 ≤ k → k ≤ m → Ecdsa.Matches curve c (file k) k f (path ≠ "")) ↔
      f = 0 ∨ (file 1).partyNumInt = 1) := by
  obtain ⟨child, hchild⟩ := hkey 1 le_rfl hm
  have hroot : decide (path ≠ "") = false → f = 0 := fun hpath =>
    (Ecdsa.keyAt_child hchild).2 (by simpa using hpath)
  have heach := fun k h₁ hk hlength => Ecdsa.matches_iff hgen c hlength (hdealt k h₁ hk)
    (hpos k h₁ hk) (hstored k h₁ hk) hroot k
  refine ⟨fun k h₁ hk hlength => ⟨_, Ecdsa.vssAt_eq (fun _ => hlength) (hdealt k h₁ hk)⟩, ?_⟩
  constructor
  · intro h
    by_cases hlength : 2 ≤ (file 1).vssSchemeVec.length
    · exact ((heach 1 le_rfl hm fun _ => hlength).mp (h 1 le_rfl hm)).imp_right fun hfirst =>
        hfirst.mpr rfl
    · exact Or.inr (Ecdsa.firstCommitment_short (hpos 1 le_rfl hm) (by omega)
        (hstored 1 le_rfl hm))
  · intro h k h₁ hk
    by_cases hlength : decide (path ≠ "") = true → 2 ≤ (file k).vssSchemeVec.length
    · refine (heach k h₁ hk hlength).mpr (h.imp_right fun hfirst => ⟨fun hd => ?_, fun hk₁ => ?_⟩)
      · exact hid ⟨h₁, hk⟩ ⟨le_rfl, hm⟩ (hd.trans hfirst.symm)
      · rw [hk₁, hfirst]
    · obtain ⟨hpath, hshort⟩ := Classical.not_imp.mp hlength
      intro vssVec hv
      rw [hpath] at hv
      exact absurd hv (Ecdsa.tweakVss_short (by omega))

end

/-! ## In the additive group -/

section

variable (p : Nat) [Fact p.Prime]

/-- The signing of `gg_2018` with shown nonces, and with `u_i` in the private key. -/
noncomputable def contributingSigner : Gg18Signer (additiveGg18 p) :=
  { additiveGg18Signer p with
    PartyPrivate := ZMod p × ZMod p
    xI := Prod.snd
    setPrivate keys shared := ((additiveGg18 p).uI keys, (additiveGg18 p).xI shared)
    updatePrivateKey priv f f' := (priv.1 + f, priv.2 + f')
    create priv vss := (additiveGg18Signer p).create priv.2 vss }

def additiveContribution : Ecdsa.Contribution (contributingSigner p) where
  uI := Prod.fst
  uI_setPrivate _ _ := rfl
  uI_updatePrivateKey _ _ _ := rfl

/-- The file of party `id` of three that have all dealt `1 + x`. -/
def lineFile (id : Nat) : Ecdsa.KeyFile (additiveGg18 p) where
  partyKeys := (id, (1 : ZMod p))
  chainCode := 0
  sharedKeys := (((3 : Nat) : ZMod p), ((3 + 3 * id : Nat) : ZMod p))
  partyNumInt := id
  vssSchemeVec := List.replicate 3 ⟨1, 3, [1, 1]⟩
  paillierKeyVec := ([1, 2, 3] : List Nat)
  ySum := ((3 : Nat) : ZMod p)

variable {p}

theorem lineFile_dealt {id : Nat} {vss : Vss (ZMod p)}
    (h : vss ∈ (lineFile p id).vssSchemeVec) : vss.commitments.length = 1 + 1 := by
  rw [List.eq_of_mem_replicate h]
  rfl

/-- Every party has committed to its contribution. -/
theorem lineFile_stored {id : Nat} (h₁ : 1 ≤ id) (h₃ : id ≤ 3) :
    Ecdsa.firstCommitment (lineFile p id).vssSchemeVec (lineFile p id).partyNumInt =
      .ok ((additiveGg18 p).uI (lineFile p id).partyKeys • (foldedCurve p).generator) := by
  have hone : (additiveGg18 p).uI (lineFile p id).partyKeys • (foldedCurve p).generator = 1 :=
    mul_one (M := ZMod p) 1
  rw [hone]
  interval_cases id <;> rfl

end

/-- An HMAC whose left half is `256 ^ 31`. -/
def highHmac : Hmac := fun _ _ => 1 :: List.replicate 63 0

theorem lineFile_keyAt (id : Nat) : Ecdsa.keyAt (foldedCurve 65537) highHmac
    (lineFile 65537 id).chainCode (lineFile 65537 id).ySum "1" = .ok (-256, -253) := by
  show Ecdsa.keyAt (foldedCurve 65537) highHmac (0 : ZMod 65537) (3 : ZMod 65537) "1" = _
  decide +kernel

/-- Parties `1` and `3` of three over the additive group, in this order, at the path
`1`. -/
theorem leader_commitment_first :
    (∀ k, 1 ≤ k → k ≤ 2 → ∃ vssVec, Ecdsa.vssAt (foldedCurve 65537) (lineFile 65537 (2 * k - 1))
      (-256) ("1" ≠ "") = .ok vssVec) ∧
    ∀ k, 1 ≤ k → k ≤ 2 → Ecdsa.Matches (foldedCurve 65537) (additiveContribution 65537)
      (lineFile 65537 (2 * k - 1)) k (-256) ("1" ≠ "") := by
  have hid : Set.InjOn (fun k => (lineFile 65537 (2 * k - 1)).partyNumInt) (Set.Icc 1 2) := by
    rintro i ⟨hi, _⟩ j ⟨hj, _⟩ hij
    have : 2 * i - 1 = 2 * j - 1 := hij
    omega
  have hall := leader_commitment (t := 1) one_ne_zero (additiveContribution 65537)
    (show 1 ≤ 2 by decide) hid (fun k h₁ _ => ?_)
    (fun _ _ _ _ hvss => lineFile_dealt hvss) (fun k h₁ hk => ?_)
    fun k _ _ => ⟨_, lineFile_keyAt _⟩
  · refine ⟨fun k h₁ hk => hall.1 k h₁ hk ?_, hall.2.mpr (Or.inr rfl)⟩
    show 2 ≤ (List.replicate 3 _).length
    simp
  · show 1 ≤ 2 * k - 1
    omega
  · exact lineFile_stored (by omega) (by omega)

/-- Of parties `2` and `1`, in this order, the first tweaks its contribution, and the
commitment of the second is tweaked. -/
theorem leader_commitment_lost :
    (∀ k, 1 ≤ k → k ≤ 2 → Ecdsa.keyAt (foldedCurve 65537) highHmac
        (lineFile 65537 (3 - k)).chainCode (lineFile 65537 (3 - k)).ySum "1" = .ok (-256, -253) ∧
      Ecdsa.firstCommitment (lineFile 65537 (3 - k)).vssSchemeVec
          (lineFile 65537 (3 - k)).partyNumInt =
        .ok ((additiveGg18 65537).uI (lineFile 65537 (3 - k)).partyKeys •
          (foldedCurve 65537).generator)) ∧
    ∀ k, 1 ≤ k → k ≤ 2 → ¬ Ecdsa.Matches (foldedCurve 65537) (additiveContribution 65537)
      (lineFile 65537 (3 - k)) k (-256) ("1" ≠ "") := by
  have hstored : ∀ k, 1 ≤ k → k ≤ 2 → Ecdsa.firstCommitment (lineFile 65537 (3 - k)).vssSchemeVec
      (lineFile 65537 (3 - k)).partyNumInt = .ok ((additiveGg18 65537).uI
        (lineFile 65537 (3 - k)).partyKeys • (foldedCurve 65537).generator) :=
    fun k h₁ hk => lineFile_stored (by omega) (by omega)
  refine ⟨fun k h₁ hk => ⟨lineFile_keyAt _, hstored k h₁ hk⟩, fun k h₁ hk => ?_⟩
  have hpos : 1 ≤ (lineFile 65537 (3 - k)).partyNumInt := by
    show 1 ≤ 3 - k
    omega
  rw [Ecdsa.matches_iff (t := 1) one_ne_zero (additiveContribution 65537)
    (fun _ => by simp [lineFile]) (fun _ hvss => lineFile_dealt hvss) hpos (hstored k h₁ hk)
    (by simp)]
  rintro (hzero | hleader)
  · exact absurd hzero (by decide)
  · have : 3 - k = 1 ↔ k = 1 := hleader
    omega

end TssCli
