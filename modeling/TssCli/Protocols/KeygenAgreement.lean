import TssCli.Common.Session
import TssCli.Protocols.Additive

/-!
# Agreement on the key

The parties of a key generation run at one manager.  Whatever the interleaving,
and whoever fails on the way, the key files that are written agree: they hold the
same chain code, the same commitments and the same public key, and the shares in
them are values of one polynomial for the secret behind that key
(`keygen_agreement`).
-/

namespace TssCli

open Mailbox Mailbox.Script Polynomial Sharing

/-! ## What is agreed on -/

/-- What the key files of two parties are compared by. -/
structure StoredKey (F G E : Type) where
  chainCode : F
  vssSchemeVec : List (Vss G)
  paillierKeyVec : List E
  ySum : G
  xI : F

section

variable {F G E : Type} [Field F] [AddCommGroup G] [Module F G]

/-- The files written by the parties agree, the public key is the sum of all
contributions, and the shares lie on one polynomial for its secret. -/
structure KeygenAgreement {n : Nat} (g : G) (t : Nat) (contribution : Fin n → G)
    (written : Fin n → StoredKey F G E → Prop) : Prop where
  same : ∀ i j f f', written i f → written j f' →
    f.chainCode = f'.chainCode ∧ f.vssSchemeVec = f'.vssSchemeVec ∧
      f.paillierKeyVec = f'.paillierKeyVec ∧ f.ySum = f'.ySum
  ySum : ∀ i f, written i f → f.ySum = ∑ j, contribution j
  /-- Every dealing has a first commitment, and the public key is their sum. -/
  commitments : ∀ i f, written i f → ∃ heads : List G,
    (f.vssSchemeVec.map fun vss => vss.commitments[0]?) = heads.map some ∧ f.ySum = heads.sum
  shares : ∃ p : F[X], p.natDegree ≤ t ∧ p.eval 0 • g = ∑ j, contribution j ∧
    (∀ i f, written i f → f.xI = p.eval (number i : F)) ∧
    ∀ (s : Finset (Fin n)) (f : Fin n → StoredKey F G E), t < s.card →
      (∀ i ∈ s, written i (f i)) →
      (Lagrange.interpolate s (fun i => (number i : F)) fun i => (f i).xI).eval 0 = p.eval 0

/-- What is written in an honest key generation. -/
structure KeygenValues.Stored {EncKey Shared Proof : Type}
    (v : KeygenValues F G EncKey Shared Proof) (curve : Curve F G) (chainCode : F)
    (paillierKeyVec : List E) (n : Nat) (i : Fin n) (f : StoredKey F G E) : Prop where
  chainCode : f.chainCode = chainCode
  vssSchemeVec : f.vssSchemeVec = (List.range' 1 n).map v.vss
  paillierKeyVec : f.paillierKeyVec = paillierKeyVec
  ySum : f.ySum = ((List.range' 1 n).map fun j => v.secret j • curve.generator).sum
  xI : f.xI = ((List.range' 1 n).map fun j => (v.poly j).eval (number i : F)).sum

variable {Bc Decom Kept EncKey Shared Proof : Type} {curve : Curve F G} {excused : Panic → Prop}
  {t n : Nat} {calls : Nat → KeygenCalls F G Bc Decom Kept EncKey Shared Proof}
  {v : KeygenValues F G EncKey Shared Proof} {written : Fin n → StoredKey F G E → Prop}

/-- The sum of the polynomials of all parties. -/
noncomputable def KeygenValues.joint (v : KeygenValues F G EncKey Shared Proof) (n : Nat) : F[X] :=
  ∑ j : Fin n, v.poly (number j)

theorem HonestCalls.joint_natDegree (h : HonestCalls curve excused t n calls v) :
    (v.joint n).natDegree ≤ t :=
  Sharing.natDegree_sum_le fun j _ => (h.deals (number j)).degree

theorem HonestCalls.joint_secret (h : HonestCalls curve excused t n calls v) :
    (v.joint n).eval 0 • curve.generator = ∑ j : Fin n, v.secret (number j) • curve.generator := by
  rw [KeygenValues.joint, eval_finsetSum, Finset.sum_smul]
  exact Finset.sum_congr rfl fun j _ => by rw [(h.deals (number j)).secret]

/-- What honest parties write agrees. -/
theorem HonestCalls.agreement (h : HonestCalls curve excused t n calls v)
    (hcurve : curve.Documented) (hn : n < 2 ^ 16) (chainCode : F) (paillierKeyVec : List E)
    (hwritten : ∀ i f, written i f → v.Stored curve chainCode paillierKeyVec n i f) :
    KeygenAgreement curve.generator t (fun j => v.secret (number j) • curve.generator) written where
  same i j f f' hf hf' := by
    have h₁ := hwritten i f hf
    have h₂ := hwritten j f' hf'
    rw [h₁.chainCode, h₂.chainCode, h₁.vssSchemeVec, h₂.vssSchemeVec, h₁.paillierKeyVec,
      h₂.paillierKeyVec, h₁.ySum, h₂.ySum]
    exact ⟨rfl, rfl, rfl, rfl⟩
  ySum i f hf := by rw [(hwritten i f hf).ySum, sum_range'_number]
  commitments i f hf := by
    refine ⟨(List.range' 1 n).map fun j => v.secret j • curve.generator, ?_,
      (hwritten i f hf).ySum⟩
    rw [(hwritten i f hf).vssSchemeVec, List.map_map, List.map_map]
    refine List.map_congr_left fun j _ => ?_
    have hd := h.deals j
    simp only [Function.comp_apply]
    rw [hd.vss, ← List.head?_eq_getElem?, commit_head, hd.secret]
  shares := by
    have hvalue : ∀ i f, written i f → f.xI = (v.joint n).eval (number i : F) := by
      intro i f hf
      rw [(hwritten i f hf).xI, sum_range'_number, KeygenValues.joint, eval_finsetSum]
    refine ⟨v.joint n, h.joint_natDegree, h.joint_secret, hvalue, fun s f hs hf => ?_⟩
    refine interpolate_secret _ (fun i _ j _ hij => ?_) hs h.joint_natDegree
      fun i hi => hvalue i _ (hf i hi)
    exact number_injective (hcurve.natCast_inj _ _ ((number_le i).trans_lt hn)
      ((number_le j).trans_lt hn) hij)

end

/-! ## Both key generations -/

section

variable {F G : Type}

/-- The stored part of an ECDSA key file. -/
def Ecdsa.KeyFile.stored {lib : Gg18 F G} (file : Ecdsa.KeyFile lib) :
    StoredKey F G lib.EncryptionKey where
  chainCode := file.chainCode
  vssSchemeVec := file.vssSchemeVec
  paillierKeyVec := file.paillierKeyVec
  ySum := file.ySum
  xI := lib.xI file.sharedKeys

/-- The stored part of an EdDSA key file, which has no encryption keys. -/
def Eddsa.KeyFile.stored {lib : ThresholdSig F G} (file : Eddsa.KeyFile lib) :
    StoredKey F G Empty where
  chainCode := file.chainCode
  vssSchemeVec := file.vssSchemeVec
  paillierKeyVec := []
  ySum := file.ySum
  xI := lib.xI file.sharedKeys

variable [Field F] [AddCommGroup G] [Module F G] (curve : Curve F G) (aes : AesGcm)

/-- In every run of ECDSA key generations under one UUID the files agree. -/
def Ecdsa.KeygensAgree (lib : Gg18 F G) (json : Ecdsa.Json lib) (t n : Nat) : Prop :=
  ∀ (draws : Nat → Ecdsa.Draws F lib.Seed) (uuid : String) (store : Key → Option String)
    (net : Net (Fin n) Key String Panic (Ecdsa.KeyFile lib))
    (tr : List (NetEvent (Fin n) Key String Panic)),
    Unused uuid store →
    NetRun (sessionNet n store fun i =>
      Ecdsa.runKeygen curve aes t n i (draws i) json uuid) net tr →
    (∀ e ∈ tr, KeepsOut uuid e) →
    KeygenAgreement curve.generator t
      (fun j => lib.uI (Ecdsa.partyKeys (number j) (draws (number j))) • curve.generator)
      fun i f => ∃ file, net.scripts i = .ret file ∧ f = file.stored

/-- In every run of EdDSA key generations under one UUID the files agree. -/
def Eddsa.KeygensAgree (lib : ThresholdSig F G) (json : Eddsa.Json lib) (t n : Nat) : Prop :=
  ∀ (draws : Nat → Eddsa.Draws F lib.Seed) (uuid : String) (store : Key → Option String)
    (net : Net (Fin n) Key String Panic (Eddsa.KeyFile lib))
    (tr : List (NetEvent (Fin n) Key String Panic)),
    Unused uuid store →
    NetRun (sessionNet n store fun i =>
      Eddsa.runKeygen curve aes t n i (draws i) json uuid) net tr →
    (∀ e ∈ tr, KeepsOut uuid e) →
    KeygenAgreement curve.generator t
      (fun j => lib.privateKey (Eddsa.partyKeys (number j) (draws (number j))) • curve.generator)
      fun i f => ∃ file, net.scripts i = .ret file ∧ f = file.stored

variable {curve aes} {t n : Nat}

/-- The public contribution of a party is the multiple of the generator by its key. -/
theorem Ecdsa.secret_eq {lib : Gg18 F G} (hlib : lib.Documented curve.generator)
    {excused : Panic → Prop} {draws : Nat → Ecdsa.Draws F lib.Seed}
    {v : KeygenValues F G Nat lib.SharedKeys lib.dlog.Proof}
    (h : HonestCalls curve excused t n (fun i => Ecdsa.calls curve t n i (draws i)) v) (j : Nat) :
    v.secret j • curve.generator = lib.uI (Ecdsa.partyKeys j (draws j)) • curve.generator := by
  rw [← h.yI j j]
  exact hlib.yI _ _

theorem Ecdsa.keygensAgree (hcurve : curve.Documented) (haes : aes.Documented) {lib : Gg18 F G}
    (hlib : lib.Documented curve.generator) (json : Ecdsa.Json lib) (ht : t < n)
    (hn : n < 2 ^ 16) : Ecdsa.KeygensAgree curve aes lib json t n := by
  intro draws uuid store net tr hstore hrun hout
  obtain ⟨v, h, hxI⟩ := Ecdsa.honestCalls (fun _ => True) hcurve hlib ht draws
    fun _ _ _ => Or.inr trivial
  have hsecret := Ecdsa.secret_eq hlib h
  have hon := session_onTrack (fun i => Ecdsa.runKeygen_plays hcurve haes hlib h) hstore hrun hout
    fun e _ => givesUp_any e
  simp only [← hsecret]
  refine h.agreement hcurve hn ((List.range' 1 n).map fun j => (draws j).chainCode).sum
    ((List.range' 1 n).map fun j => lib.e (Ecdsa.calls curve t n j (draws j)).bcI) fun i f hf => ?_
  obtain ⟨file, hfile, rfl⟩ := hf
  obtain rfl := hon.returned hfile
  exact ⟨rfl, rfl, rfl, rfl, hxI _⟩

theorem Eddsa.keygensAgree (hcurve : curve.Documented) (haes : aes.Documented)
    {lib : ThresholdSig F G} (hlib : lib.Documented curve.generator) (json : Eddsa.Json lib)
    (ht : t < n) (hn : n < 2 ^ 16) : Eddsa.KeygensAgree curve aes lib json t n := by
  intro draws uuid store net tr hstore hrun hout
  obtain ⟨v, h, hxI, _⟩ := Eddsa.honestCalls (fun _ => True) hcurve hlib ht draws
  have hsecret : ∀ j, v.secret j • curve.generator =
      lib.privateKey (Eddsa.partyKeys j (draws j)) • curve.generator := fun j => by
    rw [← h.yI j j]
    exact hlib.yI _ _
  have hon := session_onTrack (fun i => Eddsa.runKeygen_plays hcurve haes hlib h) hstore hrun hout
    fun e _ => givesUp_any e
  simp only [← hsecret]
  refine h.agreement hcurve hn ((List.range' 1 n).map fun j => (draws j).chainCode).sum []
    fun i f hf => ?_
  obtain ⟨file, hfile, rfl⟩ := hf
  obtain rfl := hon.returned hfile
  exact ⟨rfl, rfl, rfl, rfl, hxI _⟩

/-- An ECDSA key generation ends with a key file at every party, if the keys of all
pairs have `32` bytes. -/
theorem Ecdsa.runKeygen_allReturn (hcurve : curve.Documented) (haes : aes.Documented)
    {lib : Gg18 F G} (hlib : lib.Documented curve.generator) (json : Ecdsa.Json lib) (ht : t < n)
    (hdhX : ∀ a b : F, a ≠ 0 → b ≠ 0 → (toBytes (dhX curve a b)).length = 32)
    (draws : Nat → Ecdsa.Draws F lib.Seed) (uuid : String) :
    ∃ file, AllReturn uuid n (fun i => Ecdsa.runKeygen curve aes t n i (draws i) json uuid) file ∧
      ∀ i, (file i).ySum = ((List.range' 1 n).map fun j =>
        lib.uI (Ecdsa.partyKeys j (draws j)) • curve.generator).sum := by
  obtain ⟨v, h, _⟩ := Ecdsa.honestCalls (fun _ => False) hcurve hlib ht draws fun i j _ =>
    Or.inl (hdhX _ _ (hlib.uI_ne_zero i _) (hlib.uI_ne_zero j _))
  refine ⟨_, allReturn (s := Ecdsa.honestSchedule curve aes json t n draws v uuid) fun excused i =>
    Ecdsa.runKeygen_plays hcurve haes hlib (h.excuse fun _ he => he.elim), fun i => ?_⟩
  simp only [← Ecdsa.secret_eq hlib h]
  rfl

/-- An EdDSA key generation ends with a key file at every party. -/
theorem Eddsa.runKeygen_allReturn (hcurve : curve.Documented) (haes : aes.Documented)
    {lib : ThresholdSig F G} (hlib : lib.Documented curve.generator) (json : Eddsa.Json lib)
    (ht : t < n) (draws : Nat → Eddsa.Draws F lib.Seed) (uuid : String) :
    ∃ file, AllReturn uuid n (fun i => Eddsa.runKeygen curve aes t n i (draws i) json uuid) file := by
  obtain ⟨v, h, _⟩ := Eddsa.honestCalls (fun _ => False) hcurve hlib ht draws
  exact ⟨_, allReturn (s := Eddsa.honestSchedule curve aes json t n draws v uuid) fun excused i =>
    Eddsa.runKeygen_plays hcurve haes hlib (h.excuse fun _ he => he.elim)⟩

end

/-- Both key generations agree, for every threshold and number of parties. -/
theorem keygen_agreement {F G F' G' : Type} [Field F] [AddCommGroup G] [Module F G] [Field F']
    [AddCommGroup G'] [Module F' G'] {secp256k1 : Curve F G} {ed25519 : Curve F' G'} {aes : AesGcm}
    {gg18 : Gg18 F G} {thresholdSig : ThresholdSig F' G'} (hsecp : secp256k1.Documented)
    (hed : ed25519.Documented) (haes : aes.Documented)
    (hgg18 : gg18.Documented secp256k1.generator)
    (hthreshold : thresholdSig.Documented ed25519.generator) (ecdsaJson : Ecdsa.Json gg18)
    (eddsaJson : Eddsa.Json thresholdSig) {t n : Nat} (ht : t < n) (hn : n < 2 ^ 16) :
    Ecdsa.KeygensAgree secp256k1 aes gg18 ecdsaJson t n ∧
      Eddsa.KeygensAgree ed25519 aes thresholdSig eddsaJson t n :=
  ⟨Ecdsa.keygensAgree hsecp haes hgg18 ecdsaJson ht hn,
    Eddsa.keygensAgree hed haes hthreshold eddsaJson ht hn⟩

/-- Two of three parties over the additive group, with coordinates of `32` bytes for ECDSA. -/
theorem keygen_agreement_additive :
    Ecdsa.KeygensAgree (foldedCurve 65537) xorAes (additiveGg18 65537)
        ⟨.ofCountable _, .ofCountable _ Nat (ZMod 65537) (ZMod 65537 × ZMod 65537)⟩ 1 3 ∧
      Eddsa.KeygensAgree (additiveCurve 65537) xorAes (additiveThresholdSig 65537)
        ⟨.ofCountable _, .ofCountable _ (ZMod 65537) (ZMod 65537) (ZMod 65537 × ZMod 65537)⟩ 1 3 :=
  keygen_agreement (foldedCurve_documented (by norm_num) (by norm_num))
    (additiveCurve_documented _ (by norm_num) (by norm_num)) xorAes_documented
    (additiveGg18_documented _) (additiveThresholdSig_documented _) _ _ (by norm_num)
    (by norm_num)

end TssCli
