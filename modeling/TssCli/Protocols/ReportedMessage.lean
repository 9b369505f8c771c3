import TssCli.Protocols.Ecdsa.Signing
import TssCli.Protocols.Eddsa.NonceCommitment
import TssCli.Protocols.Eddsa.Signing

/-!
# The reported message

A signer reports the message that it has signed.  In ECDSA it signs the integer of
the message modulo `2 ^ 256` and reports the integer, so the signature is for the
report when both are the same scalar.  In EdDSA it hashes the bytes that the text
spells and reports the bytes of the text, which are the same when the text is empty
or spells none (`reported_message`).
-/

namespace TssCli

open Mailbox Mailbox.Script Polynomial Sharing

/-! ## Coordinates -/

/-- Modulo the order, only one multiple of the generator and its negative have the abscissa. -/
structure Curve.Isolated {F G : Type} [Field F] [AddCommGroup G] [Module F G] (curve : Curve F G)
    (k : F) (x : Nat) : Prop where
  ne_zero : k ≠ 0
  xCoord : curve.xCoord (k • curve.generator) = some x
  only : ∀ P x', curve.xCoord P = some x' → curve.ofBigint x' = curve.ofBigint x →
    P = k • curve.generator ∨ P = -(k • curve.generator)

/-- What the documentation says of the coordinates of a curve. -/
structure Curve.Coordinates {F G : Type} [Field F] [AddCommGroup G] [Module F G]
    (curve : Curve F G) : Prop where
  yCoord : ∀ P, P ≠ 0 → ∃ y, curve.yCoord P = some y
  neg : ∀ P, curve.xCoord (-P) = curve.xCoord P
  /-- The abscissas below the order are so many that one beside any two is isolated. -/
  isolated : ∀ a b : F, ∃ k x, curve.Isolated k x ∧ curve.ofBigint x ≠ a ∧ curve.ofBigint x ≠ b

namespace Ecdsa

/-! ## ECDSA -/

section

variable {F G : Type} [Field F] [AddCommGroup G] [Module F G] {curve : Curve F G}

/-- A message of at most `32` bytes is its own residue. -/
theorem fromBytes_mod {message : List UInt8} (h : message.length ≤ 32) :
    fromBytes message % 2 ^ 256 = fromBytes message := by
  refine Nat.mod_eq_of_lt ((fromBytes_lt message).trans_le ?_)
  calc 256 ^ message.length ≤ 256 ^ 32 := Nat.pow_le_pow_right (by decide) h
    _ = 2 ^ 256 := by norm_num

/-- Validity depends on the integer modulo the order only. -/
theorem ecdsaValid_congr {y : G} {m m' : Nat} {sig : SignatureRecid F}
    (h : curve.ofBigint m = curve.ofBigint m') :
    EcdsaValid curve y m sig ↔ EcdsaValid curve y m' sig := by
  simp only [EcdsaValid, h]

/-- If only one point and its negative have the abscissa of a signature, it is valid for two
integers only if they are one scalar, or opposite ones but for the key. -/
theorem eq_or_opposite {r key : F} {R : G} {m m' : Nat} {sig : SignatureRecid F}
    (hgen : curve.generator ≠ 0)
    (honly : ∀ P x, curve.xCoord P = some x → curve.ofBigint x = r → P = R ∨ P = -R)
    (hr : sig.r = r) (h : EcdsaValid curve (key • curve.generator) m sig)
    (h' : EcdsaValid curve (key • curve.generator) m' sig) :
    curve.ofBigint m = curve.ofBigint m' ∨
      curve.ofBigint m + curve.ofBigint m' + 2 * r * key = 0 := by
  obtain ⟨hs, x, hx, hrx⟩ := h
  obtain ⟨_, x', hx', hrx'⟩ := h'
  have hpoint : ∀ z : F,
      (z * sig.s⁻¹) • curve.generator + (sig.r * sig.s⁻¹) • key • curve.generator =
      ((z + r * key) * sig.s⁻¹) • curve.generator := by
    intro z
    rw [smul_smul, ← add_smul, hr]
    congr 1
    ring
  rw [hpoint] at hx hx'
  have hP := honly _ x hx (hrx.symm.trans hr)
  have hP' := honly _ x' hx' (hrx'.symm.trans hr)
  have hinj := smul_left_injective F hgen
  have hinv : sig.s⁻¹ ≠ 0 := inv_ne_zero hs
  have hsame : ∀ {P Q : G}, P = R ∨ P = -R → Q = R ∨ Q = -R → P = Q ∨ P = -Q := by
    rintro P Q (rfl | rfl) (rfl | rfl)
    · exact Or.inl rfl
    · exact Or.inr (neg_neg _).symm
    · exact Or.inr rfl
    · exact Or.inl rfl
  rcases hsame hP hP' with heq | hneg
  · have := mul_right_cancel₀ hinv (hinj heq)
    exact Or.inl (add_right_cancel this)
  · rw [← neg_smul, ← neg_mul] at hneg
    have := mul_right_cancel₀ hinv (hinj hneg)
    refine Or.inr ?_
    calc curve.ofBigint m + curve.ofBigint m' + 2 * r * key
        = (curve.ofBigint m + r * key) + (curve.ofBigint m' + r * key) := by ring
      _ = 0 := by rw [this, neg_add_cancel]

end

section

variable {F G : Type} [Field F] [AddCommGroup G] [Module F G] [DecidableEq G] {lib : Gg18 F G}
  {signer : Gg18Signer lib} {curve : Curve F G} {hmac : Hmac} {json : SignJson signer}

/-- A signer that returns has verified the signature for the integer modulo `2 ^ 256`, and
reports the integer. -/
theorem runSign_executes {file : KeyFile lib} {partyNumInt totalParties : Nat}
    {uuid messageStr path : String} {draws : SignDraws signer.Seed} {ops : List (Op Key String)}
    {signed : Signed F G} (h : Executes (runSign curve json hmac file partyNumInt totalParties uuid
      messageStr path draws) ops signed) :
    ∃ f Y, keyAt curve hmac file.chainCode file.ySum path = .ok (f, Y) ∧
      signer.verify signed.sig Y (fromBytes (messageOf messageStr) % 2 ^ 256) = .ok () ∧
      curve.xCoord Y = some signed.x ∧ curve.yCoord Y = some signed.y ∧
      signed.messageInt = fromBytes (messageOf messageStr) := by
  obtain ⟨_, _, key, _, hkey, h₁⟩ := h.of_bind
  obtain ⟨_, _, mta, _, _, h₂⟩ := h₁.of_bind
  obtain ⟨_, _, R, _, _, h₃⟩ := h₂.of_bind
  obtain ⟨_, _, localSig, _, _, h₄⟩ := h₃.of_bind
  obtain ⟨_, _, sI, _, _, h₅⟩ := h₄.of_bind
  obtain ⟨_, _, round9AnsVec, _, _, h₆⟩ := h₅.of_bind
  obtain ⟨_, _, sIVec, _, _, h₇⟩ := h₆.of_bind
  obtain ⟨_, _, others, _, _, h₈⟩ := h₇.of_bind
  obtain ⟨_, _, sig, _, _, h₉⟩ := h₈.of_bind
  obtain ⟨_, _, _, _, hverify, h₁₀⟩ := h₉.of_bind
  refine ⟨key.1, key.2, hkey.of_lift.1, ?_⟩
  have hverified := hverify.of_lift.1
  cases hx : curve.xCoord key.2 with
  | none => simp only [hx] at h₁₀; cases h₁₀
  | some x =>
      cases hy : curve.yCoord key.2 with
      | none => simp only [hx, hy] at h₁₀; cases h₁₀
      | some y =>
          simp only [hx, hy] at h₁₀
          obtain ⟨rfl, _⟩ := h₁₀.of_pure
          exact ⟨hverified, rfl, rfl, rfl⟩

end

section

variable {F G : Type} [Field F] [AddCommGroup G] [Module F G] {lib : Gg18 F G}
  {signer : Gg18Signer lib} {curve : Curve F G}

/-- Of two and of three parties' secrets one sum is not zero. -/
theorem exists_sum_ne_zero {u : Nat → F} (hu : ∀ i, u i ≠ 0) :
    ∃ n, 1 < n ∧ n ≤ 3 ∧ ((List.range' 1 n).map u).sum ≠ 0 := by
  by_cases hsum : u 1 + u 2 = 0
  · refine ⟨3, by decide, le_rfl, ?_⟩
    have : ((List.range' 1 3).map u).sum = u 1 + u 2 + u 3 := by
      simp [List.range'_succ, add_assoc]
    rw [this, hsum, zero_add]
    exact hu 3
  · refine ⟨2, by decide, by decide, ?_⟩
    have : ((List.range' 1 2).map u).sum = u 1 + u 2 := by simp [List.range'_succ]
    rwa [this]

/-- Two parties hold shares of a key that is not zero. -/
theorem exists_holdShares [Nonempty lib.Seed] (hcurve : curve.Documented)
    (hlib : lib.Documented curve.generator) :
    ∃ (n : Nat) (file : Nat → KeyFile lib) (p : F[X]) (vssVec : List (Vss G)) (chainCode : F),
      1 < n ∧ n ≤ 3 ∧ p.eval 0 ≠ 0 ∧ HoldShares curve 1 n 2 id file p vssVec chainCode := by
  obtain ⟨seed⟩ := ‹Nonempty lib.Seed›
  let draws : Nat → Draws F lib.Seed := fun _ =>
    ⟨seed, 0, 0, seed, seed, seed, fun _ => List.Vector.replicate 12 0⟩
  obtain ⟨n, h₁, h₃, hsum⟩ := exists_sum_ne_zero fun i => hlib.uI_ne_zero i seed
  obtain ⟨v, hcalls, hxI⟩ := honestCalls (fun _ => True) hcurve hlib h₁ draws
    fun _ _ _ => Or.inr trivial
  have hsecret : ∀ i, v.secret i = lib.uI (lib.create i seed) := fun i =>
    smul_left_injective F hcurve.generator_ne_zero
      ((hcalls.yI i i).symm.trans (hlib.yI (partyKeys i (draws i)) seed))
  have heval : ((List.range' 1 n).map v.poly).sum.eval 0 =
      ((List.range' 1 n).map fun i => lib.uI (lib.create i seed)).sum := by
    rw [eval_listSum, List.map_map]
    refine congrArg List.sum (List.map_congr_left fun i _ => ?_)
    exact (hcalls.deals i).secret.trans (hsecret i)
  exact ⟨n, honestFile curve 1 n draws v, _, _, _, h₁, h₃, heval ▸ hsum,
    holdShares hcalls hxI (fun k hk₁ hk => ⟨hk₁, hk.trans h₁⟩) fun _ _ _ => rfl⟩

variable [DecidableEq G] {n : Nat} {id : Nat → Nat} {file : Nat → KeyFile lib} {p : F[X]}
  {vssVec : List (Vss G)} {chainCode : F}

variable (signer) in
/-- Any scalars that are not zero can be drawn. -/
def DrawsNonces : Prop :=
  ∀ k gamma : F, k ≠ 0 → gamma ≠ 0 → ∃ seed, signer.drawK seed = k ∧ signer.drawGamma seed = gamma

/-- Two signers that hold shares sign with any nonce. -/
theorem HoldShares.exists_executes (hold : HoldShares curve 1 n 2 id file p vssVec chainCode)
    (hs : Signers 1 n id) (hcurve : curve.Documented) (hcoord : curve.Coordinates)
    (hsigner : signer.Documented curve) (hdraw : DrawsNonces signer) (hn : 1 < n)
    (hkey : p.eval 0 ≠ 0) (hmac : Hmac) (json : SignJson signer) (messageStr uuid : String) {k : F}
    {x : Nat} (hk : k ≠ 0) (hx : curve.xCoord (k • curve.generator) = some x)
    (hne : curve.ofBigint (fromBytes (messageOf messageStr) % 2 ^ 256) +
      curve.ofBigint x * p.eval 0 ≠ 0) :
    ∃ draws ops signed, Executes (runSign curve json hmac (file 1) 1 2 uuid messageStr "" draws) ops
        signed ∧ signed.sig.r = curve.ofBigint x := by
  have h2 : (2 : F) ≠ 0 := by
    intro h
    exact absurd (hcurve.natCast_inj 2 0 (by decide) (by decide) (by simpa using h)) (by decide)
  have hkinv : k⁻¹ ≠ 0 := inv_ne_zero hk
  obtain ⟨seed₁, hk₁, hgamma₁⟩ := hdraw (2 * k⁻¹) 2 (mul_ne_zero h2 hkinv) h2
  obtain ⟨seed₂, hk₂, hgamma₂⟩ := hdraw (-k⁻¹) (-1) (neg_ne_zero.mpr hkinv)
    (neg_ne_zero.mpr one_ne_zero)
  let draws : Nat → SignDraws signer.Seed := fun i =>
    ⟨if i = 1 then seed₁ else seed₂, seed₁, seed₁, fun _ => seed₁, fun _ => seed₁, seed₁, seed₁,
      seed₁⟩
  have hroot : decide ("" ≠ "") = false → (0 : F) = 0 := fun _ => rfl
  obtain ⟨v, hkeys, hnonce, hblind, hw⟩ := hold.exists_mtaValues hcurve hsigner hs hroot draws
  have hv : v.nonce = k⁻¹ := by
    rw [hnonce]
    simp [List.range'_succ, draws, hk₁, hk₂]
    ring
  have hblind₁ : v.blind ≠ 0 := by
    rw [hblind]
    have : ((List.range' 1 (1 + 1)).map fun i => signer.drawGamma (draws i).create).sum = 1 := by
      simp [List.range'_succ, draws, hgamma₁, hgamma₂]
      norm_num
    rw [this]
    exact one_ne_zero
  have hv₀ : v.nonce ≠ 0 := hv ▸ hkinv
  have hxR : curve.xCoord (v.nonce⁻¹ • curve.generator) = some x := by rw [hv, inv_inv, hx]
  obtain ⟨s, _, hr⟩ := exists_signatures hsigner hcoord.neg le_rfl hv₀
    (hw.trans (add_zero _)) hxR hne
  have hY : p.eval 0 • curve.generator ≠ 0 := smul_ne_zero hkey hcurve.generator_ne_zero
  obtain ⟨x₁, hx₁, _⟩ := hcurve.xCoord_lt _ hY
  obtain ⟨x₂, hx₂⟩ := hcoord.yCoord _ hY
  have hat : ∀ k, 1 ≤ k → k ≤ 1 + 1 →
      keyAt curve hmac (file k).chainCode (file k).ySum "" =
        .ok (0, p.eval 0 • curve.generator) := by
    intro k h₁ hk
    rw [keyAt, if_pos rfl, hold.ySum k h₁ hk]
  have hplays : Plays _ _ (fun _ => False) _ 0
      (runSign curve json hmac (file 1) 1 2 uuid messageStr "" (draws 1)) 10 _ :=
    runSign_plays hsigner hold hs le_rfl hn (by decide) hat hkeys le_rfl (by decide) hv₀ hblind₁ s
      hx₁ hx₂
  obtain ⟨ops, hex, _⟩ := hplays.tracks.exists_executes
  exact ⟨draws 1, ops, _, hex, hr⟩

variable (curve) in
/-- Every signature that is returned is valid, under the key whose coordinates are reported, for
the integer that is reported. -/
def ReportsSigned (hmac : Hmac) (json : SignJson signer) (messageStr : String) :
    Prop :=
  ∀ (file : KeyFile lib) (partyNumInt totalParties : Nat) (uuid path : String)
    (draws : SignDraws signer.Seed) (ops : List (Op Key String)) (signed : Signed F G) (f : F) (Y : G),
    Executes (runSign curve json hmac file partyNumInt totalParties uuid messageStr path draws) ops
      signed →
    keyAt curve hmac file.chainCode file.ySum path = .ok (f, Y) →
    curve.xCoord Y = some signed.x ∧ curve.yCoord Y = some signed.y ∧
      EcdsaValid curve Y signed.messageInt signed.sig

/-- The report is signed exactly when it and its residue are one scalar. -/
theorem reportsSigned_iff [Nonempty lib.Seed] (hcurve : curve.Documented)
    (hcoord : curve.Coordinates) (hlib : lib.Documented curve.generator)
    (hsigner : signer.Documented curve) (hdraw : DrawsNonces signer)
    (hverify : ∀ sig y m, signer.verify sig y m = .ok () → EcdsaValid curve y m sig) (hmac : Hmac)
    (json : SignJson signer) (messageStr : String) :
    ReportsSigned curve hmac json messageStr ↔
      curve.ofBigint (fromBytes (messageOf messageStr) % 2 ^ 256) =
        curve.ofBigint (fromBytes (messageOf messageStr)) := by
  let z := fromBytes (messageOf messageStr)
  constructor
  · intro hreports
    obtain ⟨n, file, p, vssVec, chainCode, hn, hn₃, hkey, hold⟩ := exists_holdShares hcurve hlib
    have hs : Signers 1 n id := ⟨fun _ _ _ _ h => h, fun k h₁ hk => ⟨h₁, hk.trans hn⟩, by omega⟩
    have h2 : (2 : F) ≠ 0 := by
      intro h
      exact absurd (hcurve.natCast_inj 2 0 (by decide) (by decide) (by simpa using h)) (by decide)
    -- Two abscissas are of no use: the one that makes the signature zero, and the one whose
    -- signature is valid for the other integer, too.
    obtain ⟨k, x, hiso, hzero, hboth⟩ := hcoord.isolated
      (-curve.ofBigint (z % 2 ^ 256) / p.eval 0)
      (-(curve.ofBigint (z % 2 ^ 256) + curve.ofBigint z) / (2 * p.eval 0))
    have hne : curve.ofBigint (z % 2 ^ 256) + curve.ofBigint x * p.eval 0 ≠ 0 := by
      intro h
      rw [Ne, eq_div_iff hkey] at hzero
      exact hzero (eq_neg_of_add_eq_zero_right h)
    obtain ⟨draws, ops, signed, hex, hr⟩ := hold.exists_executes hs hcurve hcoord hsigner hdraw hn
      hkey hmac json messageStr "u" hiso.ne_zero hiso.xCoord hne
    have hat : keyAt curve hmac (file 1).chainCode (file 1).ySum "" =
        .ok (0, p.eval 0 • curve.generator) := by
      rw [keyAt, if_pos rfl, hold.ySum 1 le_rfl (by decide)]
    obtain ⟨f, Y, hY, hverified, _, _, hint⟩ := runSign_executes hex
    obtain ⟨rfl, rfl⟩ := Prod.mk.inj (Except.ok.inj (hat.symm.trans hY))
    have hreported := (hreports _ _ _ _ _ _ _ _ _ _ hex hat).2.2
    rw [hint] at hreported
    refine (eq_or_opposite hcurve.generator_ne_zero hiso.only hr (hverify _ _ _ hverified)
      hreported).resolve_right fun h => hboth ?_
    rw [eq_div_iff (mul_ne_zero h2 hkey)]
    calc curve.ofBigint x * (2 * p.eval 0)
        = 2 * curve.ofBigint x * p.eval 0 := by ring
      _ = -(curve.ofBigint (z % 2 ^ 256) + curve.ofBigint z) := eq_neg_of_add_eq_zero_right h
  · intro hsame file partyNumInt totalParties uuid path draws ops signed f Y hex hY
    obtain ⟨f', Y', hY', hverified, hx, hy, hint⟩ := runSign_executes hex
    obtain ⟨rfl, rfl⟩ := Prod.mk.inj (Except.ok.inj (hY.symm.trans hY'))
    refine ⟨hx, hy, ?_⟩
    rw [hint]
    exact (ecdsaValid_congr hsame).mp (hverify _ _ _ hverified)

end

end Ecdsa

namespace Eddsa

/-! ## EdDSA -/

/-- What `sign` reports.  The numbers are in hexadecimal there. -/
structure Report where
  r : Nat
  s : Nat
  status : String
  x : Nat
  y : Nat
  msgInt : List UInt8

/-- The bytes of points and scalars that are reported. -/
structure ReportBytes (F G : Type) where
  /-- `Point::to_bytes(false)`. -/
  point : G → List UInt8
  /-- `Scalar::to_bytes`. -/
  scalar : F → List UInt8

/-- The report of a signature, if the key has coordinates. -/
def reportSignature {F G : Type} (curve : Curve F G) (bytes : ReportBytes F G) (messageStr : String)
    (signature : Signature F G) (ySum : G) : Except Panic Report :=
  match curve.xCoord ySum, curve.yCoord ySum with
  | some x, some y =>
      .ok { r := fromBytes (bytes.point signature.R), s := fromBytes (bytes.scalar signature.s),
            status := "signature_ready", x, y, msgInt := messageStr.toUTF8.toList }
  | _, _ => .error .unwrapNone

section

variable {F G : Type} [Field F] [DecidableEq F] [AddCommGroup G] [Module F G]
  {lib : ThresholdSig F G} {signer : ThresholdSigner lib} (curve : Curve F G) (hmac : Hmac)
  (aes : AesGcm) (sha512 : List UInt8 → List UInt8) (bytes : ReportBytes F G)

/-- `sign`. -/
def sign (json : SignerJson signer) (keyFile : KeyFile lib)
    (threshold partyNumInt totalParties : Nat) (uuid messageStr path : String)
    (draws : EphDraws signer.Seed) : Client Report := do
  let out ← runSigner curve hmac aes sha512 json keyFile threshold partyNumInt totalParties uuid
    messageStr path draws
  reportSignature curve bytes messageStr out.1 out.2

/-- A report of a signature under a key, for a message. -/
structure Report.Of (report : Report) (signature : Signature F G) (Y : G) (message : List UInt8) :
    Prop where
  r : report.r = fromBytes (bytes.point signature.R)
  s : report.s = fromBytes (bytes.scalar signature.s)
  x : curve.xCoord Y = some report.x
  y : curve.yCoord Y = some report.y
  valid : signature.s • curve.generator =
    signature.R + challenge curve sha512 signature.R Y message • Y

/-- Every report is of a signature for the message that was hashed, and shows this message. -/
def ReportsSigned (json : SignerJson signer) (messageStr : String) : Prop :=
  ∀ (keyFile : KeyFile lib) (threshold partyNumInt totalParties : Nat) (uuid path : String)
    (draws : EphDraws signer.Seed) (ops : List (Op Key String)) (report : Report),
    Executes (sign curve hmac aes sha512 bytes json keyFile threshold partyNumInt totalParties uuid
      messageStr path draws) ops report →
    (∃ signature Y, report.Of curve sha512 bytes signature Y (messageOf messageStr)) ∧
      report.msgInt = messageOf messageStr

variable {curve hmac aes sha512 bytes} {json : SignerJson signer} {messageStr : String}

/-- A signer that returns has verified the signature for the message. -/
theorem runSigner_valid (hsigner : signer.Documented curve sha512) {keyFile : KeyFile lib}
    {threshold partyNumInt totalParties : Nat} {uuid path : String} {draws : EphDraws signer.Seed}
    {ops : List (Op Key String)} {out : Signature F G × G}
    (h : Executes (runSigner curve hmac aes sha512 json keyFile threshold partyNumInt totalParties
      uuid messageStr path draws) ops out) :
    out.1.s • curve.generator = out.1.R +
      challenge curve sha512 out.1.R out.2 (messageOf messageStr) • out.2 := by
  obtain ⟨_, _, key, _, _, h₁⟩ := h.of_bind
  obtain ⟨_, _, index₀, _, _, h₂⟩ := h₁.of_bind
  obtain ⟨_, _, signers, _, _, h₃⟩ := h₂.of_bind
  obtain ⟨_, _, partiesIndexVec, _, _, h₄⟩ := h₃.of_bind
  obtain ⟨_, _, eph, _, _, h₅⟩ := h₄.of_bind
  obtain ⟨_, _, ephShared, _, _, h₆⟩ := h₅.of_bind
  obtain ⟨_, _, localSigVec, _, _, h₇⟩ := h₆.of_bind
  split at h₇
  next => cases h₇
  next =>
    dsimp only at h₇
    split at h₇
    next hverify =>
      obtain ⟨rfl, _⟩ := h₇.of_pure
      exact (hsigner.verify _ _ _).mp hverify
    next => cases h₇

/-- A report is of the signature that is returned, and shows the bytes of the text. -/
theorem sign_executes (hsigner : signer.Documented curve sha512) {keyFile : KeyFile lib}
    {threshold partyNumInt totalParties : Nat} {uuid path : String} {draws : EphDraws signer.Seed}
    {ops : List (Op Key String)} {report : Report}
    (h : Executes (sign curve hmac aes sha512 bytes json keyFile threshold partyNumInt totalParties
      uuid messageStr path draws) ops report) :
    (∃ signature Y, report.Of curve sha512 bytes signature Y (messageOf messageStr)) ∧
      report.msgInt = messageStr.toUTF8.toList := by
  obtain ⟨_, _, out, _, hrun, hreport⟩ := h.of_bind
  obtain ⟨hreport, _⟩ := hreport.of_lift
  unfold reportSignature at hreport
  split at hreport
  next x y hx hy =>
    obtain rfl := Except.ok.inj hreport
    exact ⟨⟨out.1, out.2, rfl, rfl, hx, hy, runSigner_valid hsigner hrun⟩, rfl⟩
  next => cases hreport

/-- A party on its own signs any message. -/
theorem exists_report [Nonempty lib.Seed] [Nonempty signer.Seed] (hcurve : curve.Documented)
    (hy : ∀ P, P ≠ 0 → ∃ y, curve.yCoord P = some y) (haes : aes.Documented)
    (hlib : lib.Documented curve.generator) (hsigner : signer.Documented curve sha512)
    (hmac : Hmac) (bytes : ReportBytes F G) (json : SignerJson signer) (messageStr uuid : String) :
    ∃ keyFile draws ops report, Executes (sign curve hmac aes sha512 bytes json keyFile 0 1 1 uuid
      messageStr "" draws) ops report := by
  obtain ⟨seed⟩ := ‹Nonempty lib.Seed›
  obtain ⟨ephSeed⟩ := ‹Nonempty signer.Seed›
  let nonce : Nat → Nonce := fun _ => List.Vector.replicate 12 0
  let draws : Nat → Draws F lib.Seed := fun _ => ⟨seed, 0, 0, seed, seed, 0, nonce⟩
  let ephDraws : Nat → EphDraws signer.Seed := fun _ => ⟨ephSeed, ephSeed, ephSeed, nonce⟩
  obtain ⟨v, hcalls, hxI, hyI⟩ := honestCalls (fun _ => False) hcurve hlib one_pos draws
  let file : Nat → KeyFile lib := honestFile curve 1 draws v
  have hold : HoldShares curve 0 1 id file _ _ _ :=
    holdShares hcalls hxI hyI one_pos fun _ _ _ => rfl
  obtain ⟨w, heph⟩ := exists_honestEph (fun k => (file k).partyKeys)
    (messageOf messageStr) id ephDraws hcurve hsigner.toDealsNonces one_pos
  let key := ((List.range' 1 1).map v.poly).sum.eval 0
  have hsecret : key ≠ 0 := by
    have heval : key = v.secret 1 := by
      show ((List.range' 1 1).map v.poly).sum.eval 0 = v.secret 1
      simp [List.range'_succ, (hcalls.deals 1).secret]
    rw [heval]
    intro hzero
    have hpoint := (hcalls.yI 1 1).symm.trans (hlib.yI (partyKeys 1 (draws 1)) seed)
    rw [hzero, zero_smul] at hpoint
    exact smul_ne_zero (hlib.privateKey_ne_zero 1 seed) hcurve.generator_ne_zero hpoint.symm
  have hY : key • curve.generator ≠ 0 := smul_ne_zero hsecret hcurve.generator_ne_zero
  obtain ⟨x, hx, _⟩ := hcurve.xCoord_lt _ hY
  obtain ⟨y, hy⟩ := hy _ hY
  have hkey : ∀ k, 1 ≤ k → k ≤ 0 + 1 →
      keyAt curve hmac (file k) "" = .ok (key • curve.generator, 0) := by
    intro k h₁ hk
    rw [keyAt, if_pos rfl, hold.ySum k h₁ hk]
  have hbound : ∀ k, 1 ≤ k → k ≤ 0 + 1 → 1 ≤ id k ∧ id k < 2 ^ 16 := fun k h₁ hk =>
    ⟨h₁, hk.trans_lt (by decide)⟩
  have hplays : Plays _ _ (fun _ => False) _ 0 (runSigner curve hmac aes sha512 json (file 1) 0 1 1
      uuid messageStr "" (ephDraws 1)) 6 _ :=
    runSigner_plays hcurve haes hsigner heph hold hkey (by rw [add_zero]) (fun _ => rfl)
      (fun _ _ _ _ h => h) hbound (by decide) le_rfl le_rfl
  obtain ⟨ops, hex, _⟩ := hplays.tracks.exists_executes
  have hreport : ∀ signature, ∃ report,
      reportSignature curve bytes messageStr signature (key • curve.generator) = .ok report := by
    intro signature
    rw [reportSignature, hx, hy]
    exact ⟨_, rfl⟩
  obtain ⟨report, hreport⟩ := hreport _
  refine ⟨file 1, ephDraws 1, ops ++ [], report, hex.bind ?_⟩
  rw [hreport]
  exact .ret

/-- The report shows what was hashed exactly when the text spells no bytes of its own. -/
theorem reportsSigned_iff [Nonempty lib.Seed] [Nonempty signer.Seed] (hcurve : curve.Documented)
    (hy : ∀ P, P ≠ 0 → ∃ y, curve.yCoord P = some y) (haes : aes.Documented)
    (hlib : lib.Documented curve.generator) (hsigner : signer.Documented curve sha512)
    (hmac : Hmac) (bytes : ReportBytes F G) (json : SignerJson signer) (messageStr : String) :
    ReportsSigned curve hmac aes sha512 bytes json messageStr ↔
      hexDecode messageStr.toList = none ∨ messageStr = "" := by
  rw [← messageOf_eq_iff]
  constructor
  · intro hreports
    obtain ⟨keyFile, draws, ops, report, hex⟩ :=
      exists_report hcurve hy haes hlib hsigner hmac bytes json messageStr "u"
    exact (sign_executes hsigner hex).2.symm.trans (hreports _ _ _ _ _ _ _ _ _ hex).2
  · intro hsame keyFile threshold partyNumInt totalParties uuid path draws ops report hex
    obtain ⟨hof, hint⟩ := sign_executes hsigner hex
    exact ⟨hof, hint.trans hsame⟩

end

end Eddsa

section

variable {F G F' G' : Type} [Field F] [AddCommGroup G] [Module F G] [DecidableEq G] [Field F']
  [DecidableEq F'] [AddCommGroup G'] [Module F' G']

/-- What is reported is what is signed: in ECDSA exactly when the integer of the message and its
residue modulo `2 ^ 256` are one scalar, and in EdDSA exactly when the text is empty or spells no
bytes. -/
theorem reported_message {ecdsaCurve : Curve F G} {eddsaCurve : Curve F' G'} {gg18 : Gg18 F G}
    {gg18Signer : Gg18Signer gg18} {thresholdSig : ThresholdSig F' G'}
    {thresholdSigner : ThresholdSigner thresholdSig} {aes : AesGcm} (hmac : Hmac)
    {sha512 : List UInt8 → List UInt8} [Nonempty gg18.Seed] [Nonempty thresholdSig.Seed]
    [Nonempty thresholdSigner.Seed] (hecdsa : ecdsaCurve.Documented)
    (hcoord : ecdsaCurve.Coordinates) (hgg18 : gg18.Documented ecdsaCurve.generator)
    (hgg18Signer : gg18Signer.Documented ecdsaCurve) (hdraw : Ecdsa.DrawsNonces gg18Signer)
    (hverify : ∀ sig y m, gg18Signer.verify sig y m = .ok () → EcdsaValid ecdsaCurve y m sig)
    (ecdsaJson : Ecdsa.SignJson gg18Signer) (heddsa : eddsaCurve.Documented)
    (hy : ∀ P, P ≠ 0 → ∃ y, eddsaCurve.yCoord P = some y) (haes : aes.Documented)
    (hthresholdSig : thresholdSig.Documented eddsaCurve.generator)
    (hthresholdSigner : thresholdSigner.Documented eddsaCurve sha512)
    (bytes : Eddsa.ReportBytes F' G') (eddsaJson : Eddsa.SignerJson thresholdSigner)
    (messageStr : String) :
    (Ecdsa.ReportsSigned ecdsaCurve hmac ecdsaJson messageStr ↔
      ecdsaCurve.ofBigint (fromBytes (messageOf messageStr) % 2 ^ 256) =
        ecdsaCurve.ofBigint (fromBytes (messageOf messageStr))) ∧
    (Eddsa.ReportsSigned eddsaCurve hmac aes sha512 bytes eddsaJson messageStr ↔
      hexDecode messageStr.toList = none ∨ messageStr = "") :=
  ⟨Ecdsa.reportsSigned_iff hecdsa hcoord hgg18 hgg18Signer hdraw hverify hmac ecdsaJson messageStr,
    Eddsa.reportsSigned_iff heddsa hy haes hthresholdSig hthresholdSigner hmac bytes eddsaJson
      messageStr⟩

end

/-! ## In the additive group -/

section

variable {p : Nat} [Fact p.Prime]

/-- Only a point and its negative have an abscissa, also modulo the order. -/
theorem foldedCurve_only {P Q : ZMod p} {x x' : Nat} (hx : (foldedCurve p).xCoord P = some x)
    (hx' : (foldedCurve p).xCoord Q = some x')
    (h : (foldedCurve p).ofBigint x = (foldedCurve p).ofBigint x') : P = Q ∨ P = -Q := by
  have hcoord : ∀ {P : ZMod p} {x : Nat}, (foldedCurve p).xCoord P = some x →
      x = 2 ^ 248 + min P.val (-P).val := by
    intro P x hx
    by_cases hP : P = 0
    · rw [show (foldedCurve p).xCoord P = none from if_pos hP] at hx
      cases hx
    · rw [show (foldedCurve p).xCoord P = some (2 ^ 248 + min P.val (-P).val) from if_neg hP] at hx
      exact (Option.some.inj hx).symm
  have hcast : ((2 ^ 248 + min P.val (-P).val : Nat) : ZMod p) =
      ((2 ^ 248 + min Q.val (-Q).val : Nat) : ZMod p) := by
    rw [← hcoord hx, ← hcoord hx']
    exact h
  rw [Nat.cast_add, Nat.cast_add, add_right_inj] at hcast
  have hlt : ∀ P : ZMod p, min P.val (-P).val < p := fun P =>
    (min_le_left _ _).trans_lt (ZMod.val_lt P)
  have hmin := congrArg ZMod.val hcast
  rw [ZMod.val_cast_of_lt (hlt P), ZMod.val_cast_of_lt (hlt Q)] at hmin
  have hval : ∀ {P Q : ZMod p}, P.val = Q.val → P = Q := fun h => ZMod.val_injective p h
  rcases min_choice P.val (-P).val with hP | hP <;>
    rcases min_choice Q.val (-Q).val with hQ | hQ <;>
    rw [hP, hQ] at hmin
  · exact Or.inl (hval hmin)
  · exact Or.inr (hval hmin)
  · exact Or.inr (neg_eq_iff_eq_neg.mp (hval hmin))
  · exact Or.inl (neg_injective (hval hmin))

/-- Among the multiples `1`, `2` and `3` there is one with another abscissa than any two. -/
theorem foldedCurve_coordinates (h₁ : 2 ^ 16 ≤ p) (hp : p < 2 ^ 248) :
    (foldedCurve p).Coordinates where
  yCoord P hP := ⟨P.val, foldedCurve_yCoord hP⟩
  neg := foldedCurve_neg
  isolated a b := by
    have hcurve := foldedCurve_documented h₁ hp
    have hne : ∀ k : Nat, 0 < k → k < 2 ^ 16 → (k : ZMod p) ≠ 0 := fun k hk hlt h =>
      absurd (hcurve.natCast_inj k 0 hlt (by decide) (by rw [h, Nat.cast_zero])) hk.ne'
    have hisolated : ∀ k : Nat, 0 < k → k < 2 ^ 16 →
        ∃ x, (foldedCurve p).Isolated (k : ZMod p) x := by
      intro k hk hlt
      have hpoint : (k : ZMod p) • (foldedCurve p).generator = k := mul_one (M := ZMod p) _
      obtain ⟨x, hx⟩ : ∃ x, (foldedCurve p).xCoord (k : ZMod p) = some x :=
        ⟨_, if_neg (hne k hk hlt)⟩
      refine ⟨x, hne k hk hlt, by rw [hpoint, hx], fun P x' hP h => ?_⟩
      rw [hpoint]
      exact foldedCurve_only hP hx h
    have hdiffer : ∀ {j k : Nat} {x y : Nat}, 0 < j → j < k → k < 2 ^ 15 →
        (foldedCurve p).Isolated (j : ZMod p) x → (foldedCurve p).Isolated (k : ZMod p) y →
        (foldedCurve p).ofBigint x ≠ (foldedCurve p).ofBigint y := by
      intro j k x y hj hjk hk hx hy h
      have hpoint : ∀ k : ZMod p, k • (foldedCurve p).generator = k := mul_one (M := ZMod p)
      have honly := hy.only _ _ hx.xCoord h
      rw [hpoint, hpoint] at honly
      rcases honly with heq | hneg
      · exact absurd (hcurve.natCast_inj j k (by omega) (by omega) heq) hjk.ne
      · refine hne (j + k) (by omega) (by omega) ?_
        rw [Nat.cast_add, hneg, neg_add_cancel]
    obtain ⟨x₁, hx₁⟩ := hisolated 1 (by decide) (by decide)
    obtain ⟨x₂, hx₂⟩ := hisolated 2 (by decide) (by decide)
    obtain ⟨x₃, hx₃⟩ := hisolated 3 (by decide) (by decide)
    have h₁₂ := hdiffer (by decide) (by decide) (by decide) hx₁ hx₂
    have h₁₃ := hdiffer (by decide) (by decide) (by decide) hx₁ hx₃
    have h₂₃ := hdiffer (by decide) (by decide) (by decide) hx₂ hx₃
    by_contra hnone
    have hused : ∀ k x, (foldedCurve p).Isolated k x →
        (foldedCurve p).ofBigint x = a ∨ (foldedCurve p).ofBigint x = b := by
      intro k x hx
      by_contra hfree
      rw [not_or] at hfree
      exact hnone ⟨k, x, hx, hfree⟩
    rcases hused _ _ hx₁ with ha₁ | hb₁ <;> rcases hused _ _ hx₂ with ha₂ | hb₂ <;>
      rcases hused _ _ hx₃ with ha₃ | hb₃ <;> simp_all

theorem additiveGg18Signer_draws : Ecdsa.DrawsNonces (additiveGg18Signer p) :=
  fun k gamma _ _ => ⟨(k, gamma), rfl, rfl⟩

theorem additiveGg18Signer_verify (sig : SignatureRecid (ZMod p)) (y : ZMod p) (m : Nat)
    (h : (additiveGg18Signer p).verify sig y m = .ok ()) : EcdsaValid (foldedCurve p) y m sig := by
  by_contra hne
  rw [show (additiveGg18Signer p).verify sig y m = .error .unwrapErr from if_neg hne] at h
  cases h

end

/-- The number of a point or scalar as bytes. -/
def valueBytes : Eddsa.ReportBytes (ZMod 65537) (ZMod 65537) where
  point P := toBytes P.val
  scalar s := toBytes s.val

/-- The text `hi` spells no bytes, and both report what they sign. -/
theorem reported_message_hi :
    Ecdsa.ReportsSigned (foldedCurve 65537) (fun _ _ => []) (additiveSignJson 65537) "hi" ∧
      Eddsa.ReportsSigned (additiveCurve 65537) (fun _ _ => []) xorAes id valueBytes
        additiveSignerJson "hi" := by
  have : Nonempty (additiveGg18 65537).Seed := ⟨(0 : ZMod 65537)⟩
  have : Nonempty (additiveThresholdSig 65537).Seed := ⟨(0 : ZMod 65537)⟩
  have : Nonempty (additiveSigner 65537 id).Seed := ⟨(0 : ZMod 65537)⟩
  obtain ⟨hecdsa, heddsa⟩ := reported_message (fun _ _ => [])
    (foldedCurve_documented (p := 65537) (by norm_num) (by norm_num))
    (foldedCurve_coordinates (by norm_num) (by norm_num)) (additiveGg18_documented 65537)
    (additiveGg18Signer_documented 65537) additiveGg18Signer_draws additiveGg18Signer_verify
    (additiveSignJson 65537) (additiveCurve_documented 65537 (by norm_num) (by norm_num))
    (fun P hP => ⟨P.val, if_neg hP⟩) xorAes_documented (additiveThresholdSig_documented 65537)
    (additiveSigner_documented 65537 id) valueBytes additiveSignerJson "hi"
  have hhex : hexDecode "hi".toList = none := by decide
  have hlength : (messageOf "hi").length = 2 := by
    rw [← messageOf_eq_iff.mpr (Or.inl hhex), length_byteArray_toList]
    rfl
  refine ⟨hecdsa.mpr ?_, heddsa.mpr (Or.inl hhex)⟩
  rw [Ecdsa.fromBytes_mod (by omega)]

/-- The text `0aF1` is signed as two bytes and reported as four.  And `1` before `64` zeros, a
message of `33` bytes, is signed as `0`. -/
theorem reported_message_differs :
    ¬ Eddsa.ReportsSigned (additiveCurve 65537) (fun _ _ => []) xorAes id valueBytes
        additiveSignerJson "0aF1" ∧
      ¬ Ecdsa.ReportsSigned (foldedCurve 65537) (fun _ _ => []) (additiveSignJson 65537)
        ("01" ++ String.ofList (List.replicate 64 '0')) := by
  have : Nonempty (additiveGg18 65537).Seed := ⟨(0 : ZMod 65537)⟩
  have : Nonempty (additiveThresholdSig 65537).Seed := ⟨(0 : ZMod 65537)⟩
  have : Nonempty (additiveSigner 65537 id).Seed := ⟨(0 : ZMod 65537)⟩
  rw [Eddsa.reportsSigned_iff (additiveCurve_documented 65537 (by norm_num) (by norm_num))
    (fun P hP => ⟨P.val, if_neg hP⟩) xorAes_documented (additiveThresholdSig_documented 65537)
    (additiveSigner_documented 65537 id),
    Ecdsa.reportsSigned_iff (foldedCurve_documented (p := 65537) (by norm_num) (by norm_num))
    (foldedCurve_coordinates (by norm_num) (by norm_num)) (additiveGg18_documented 65537)
    (additiveGg18Signer_documented 65537) additiveGg18Signer_draws additiveGg18Signer_verify]
  refine ⟨by decide, ?_⟩
  have hmessage :
      fromBytes (messageOf ("01" ++ String.ofList (List.replicate 64 '0'))) = 2 ^ 256 := by
    decide +kernel
  rw [hmessage]
  show ¬ ((2 ^ 256 % 2 ^ 256 : Nat) : ZMod 65537) = ((2 ^ 256 : Nat) : ZMod 65537)
  rw [Nat.mod_self]
  decide +kernel

end TssCli
