import TssCli.Protocols.Eddsa.NonceCommitment

/-!
# Proofs about the shares

In the last round of an EdDSA key generation every party posts a proof that it knows a
discrete logarithm.  The proofs are checked, each against the public key it carries, but
no public key is compared with the point that the commitments give for the share of its
party.  So every proof accepted verifies (`shareProofs_verify`), and the own one is about
the own share, whatever the others do (`own_shareProof`), but from the others any key
is taken (`forged_executes`).
-/

namespace TssCli

open Mailbox Mailbox.Script Polynomial Sharing

/-! ## The last round of a key generation -/

section

variable {F G Bc Decom Kept EncKey Shared Proof : Type}

/-- Under none of these keys the last round posts. -/
def BeforeRound5 (uuid : String) (key : Key) : Prop := ∀ i, key ≠ broadcastKey i round5 uuid

theorem readRound_before {me n : Nat} {uuid data : String} {round : Round} (h : round ≠ round5) :
    GetsOnly (BeforeRound5 uuid) (readRound me n uuid round data) :=
  readRound_getsOnly.mono fun _ ⟨_, hkey⟩ _ => hkey ▸ broadcastKey_ne h

theorem pollForP2p_before {me n : Nat} {uuid : String} {round : Round} :
    GetsOnly (BeforeRound5 uuid) (pollForP2p me n round uuid) :=
  pollForP2p_getsOnly.mono fun _ ⟨_, hkey⟩ _ => hkey ▸ p2pKey_ne

theorem generateSharedChainCode_before {F G : Type} [Add F] {dlog : DLog F G}
    {scalarJson : Codec F} {proofJson : Codec dlog.Proof} {me n k : Nat} {uuid : String}
    {chainCode nonce : F} : GetsOnly (BeforeRound5 uuid)
      (generateSharedChainCode dlog scalarJson proofJson me n uuid k chainCode nonce) :=
  ((readRound_before (by decide)).bind fun _ => .lift _).bind fun _ => (GetsOnly.lift _).bind
    fun _ => (GetsOnly.lift _).bind fun _ =>
      ((readRound_before (by decide)).bind fun _ => .lift _).bind fun _ => .lift _

/-- A key generation that returns has built its share from the schemes it keeps, and reads
proofs in its last round only. -/
theorem keygenRounds_executes [Add G] {curve : Curve F G} {aes : AesGcm}
    {json : KeygenJson G Bc Decom Proof}
    {calls : KeygenCalls F G Bc Decom Kept EncKey Shared Proof} {me n : Nat} {uuid : String}
    {nonce : Nat → Nonce} {ops : List (Op Key String)} {out : KeygenOutput G Bc Shared}
    (h : Executes (keygenRounds curve aes json calls me n uuid nonce) ops out) :
    ∃ pointVec partyShares constructed ops₅ proofs, Leaves (BeforeRound5 uuid) ops ops₅ ∧
      calls.construct pointVec partyShares out.vssSchemeVec = .ok constructed ∧
      out.sharedKeys = constructed.1 ∧
      Executes (exchangeData json.proof me n uuid round5 constructed.2) ops₅ proofs ∧
      calls.verify proofs pointVec = .ok () := by
  have hlift : ∀ {α : Type} (x : Except Panic α),
      GetsOnly (BeforeRound5 uuid) (liftM x : Client α) := GetsOnly.lift
  obtain ⟨_, _, _, _, l₁, h₁⟩ := (readRound_before (by decide)).of_bind h
  obtain ⟨_, _, _, _, l₂, h₂⟩ := (hlift _).of_bind h₁
  obtain ⟨_, _, _, _, l₃, h₃⟩ := (readRound_before (by decide)).of_bind h₂
  obtain ⟨_, _, c, _, l₄, h₄⟩ := (hlift _).of_bind h₃
  obtain ⟨_, _, _, _, l₅, h₅⟩ := (hlift _).of_bind h₄
  obtain ⟨_, _, dealt, _, l₆, h₆⟩ := (hlift _).of_bind h₅
  obtain ⟨_, _, _, _, l₇, h₇⟩ := sendShares_getsOnly.of_bind h₆
  obtain ⟨_, _, _, _, l₈, h₈⟩ := pollForP2p_before.of_bind h₇
  obtain ⟨_, _, partyShares, _, l₉, h₉⟩ := (hlift _).of_bind h₈
  obtain ⟨_, _, _, _, l₁₀, h₁₀⟩ := (readRound_before (by decide)).of_bind h₉
  obtain ⟨_, _, vssSchemeVec, _, l₁₁, h₁₁⟩ := (hlift _).of_bind h₁₀
  obtain ⟨_, ops₅, constructed, hconstruct, l₁₂, h₁₂⟩ := (hlift _).of_bind h₁₁
  obtain ⟨opsRead, _, _, hops, hread, h₁₃⟩ := h₁₂.of_bind
  obtain ⟨opsBuild, _, proofs, rfl, hbuild, h₁₄⟩ := h₁₃.of_bind
  obtain ⟨_, _, _, rfl, hverify, h₁₅⟩ := h₁₄.of_bind
  obtain ⟨hverified, rfl⟩ := hverify.of_lift
  obtain ⟨rfl, rfl⟩ := h₁₅.of_pure
  rw [List.append_nil, List.append_nil] at hops
  refine ⟨c.pointVec, partyShares, constructed, ops₅, proofs, ?_, hconstruct.of_lift.1, rfl,
    hops ▸ hread.bind hbuild, hverified⟩
  exact l₁.trans <| l₂.trans <| l₃.trans <| l₄.trans <| l₅.trans <| l₆.trans <| l₇.trans <|
    l₈.trans <| l₉.trans <| l₁₀.trans <| l₁₁.trans l₁₂

end

namespace Eddsa

section

variable {F G : Type} [Field F] [AddCommGroup G] [Module F G] {curve : Curve F G} {aes : AesGcm}
  {lib : ThresholdSig F G} {json : Json lib} {t n me : Nat} {uuid : String}
  {draws : Draws F lib.Seed} {ops : List (Op Key String)} {file : KeyFile lib}

/-- A key file comes from a share that the library has built on the schemes in the file, and
the proof posted is about this share.  The proofs read all verify. -/
theorem runKeygen_executes (h : Executes (runKeygen curve aes t n me draws json uuid) ops file) :
    ∃ pointVec partyShares ops₅ proofs, Leaves (BeforeRound5 uuid) ops ops₅ ∧
      lib.construct (partyKeys me draws) ⟨t, n⟩ pointVec partyShares file.vssSchemeVec me =
        .ok file.sharedKeys ∧
      Executes (exchangeData json.keygen.proof me n uuid round5
        (lib.dlog.prove (lib.xI file.sharedKeys) draws.proofNonce)) ops₅ proofs ∧
      ∀ proof ∈ proofs, lib.dlog.verify proof = true := by
  obtain ⟨_, _, _, _, lcode, h₁⟩ := generateSharedChainCode_before.of_bind h
  obtain ⟨_, _, out, rfl, hrounds, h₂⟩ := h₁.of_bind
  obtain ⟨rfl, rfl⟩ := h₂.of_pure
  obtain ⟨pointVec, partyShares, constructed, ops₅, proofs, lrounds, hconstruct, hkeys, hread,
    hverify⟩ := keygenRounds_executes hrounds
  obtain ⟨shared, hshared, hreturn⟩ := except_bind_ok hconstruct
  obtain rfl := Except.ok.inj hreturn
  rw [List.append_nil] at lcode
  refine ⟨pointVec, partyShares, ops₅, proofs, lcode.trans lrounds, ?_, ?_,
    verifyDlogProofs_ok hverify⟩
  · rw [hkeys]
    exact hshared
  · rw [hkeys]
    exact hread

end

/-! ## The party's own proof -/

end Eddsa

/-- What the documentation says of `phase2_verify_vss_construct_keypair`: it checks each share
against the commitments of its scheme, and adds the shares up. -/
structure ThresholdSig.ChecksShares {F G : Type} [Field F] [AddCommGroup G] [Module F G] (g : G)
    (lib : ThresholdSig F G) : Prop where
  construct : ∀ {keys params ys shares vssVec index shared},
    lib.construct keys params ys shares vssVec index = .ok shared →
    List.Forall₂ (fun share vss => share • g = evalCommit vss.commitments (index : F)) shares
      vssVec ∧ lib.xI shared = shares.sum

namespace Eddsa

section

variable {F G : Type} [Field F] [AddCommGroup G] [Module F G]

/-- Checked shares add up to the discrete logarithm of the sum of their points. -/
theorem sum_shares_smul {g : G} {x : F} {shares : List F} {vssVec : List (Vss G)}
    (h : List.Forall₂ (fun share vss => share • g = evalCommit vss.commitments x) shares vssVec) :
    shares.sum • g = (vssVec.map fun vss => evalCommit vss.commitments x).sum := by
  induction h with
  | nil => simp
  | cons hshare _ ih => rw [List.sum_cons, add_smul, hshare, ih, List.map_cons, List.sum_cons]

/-- A party that writes its key file accepts, from every party, a proof that verifies and is
about the share that the schemes of its file give the party. -/
def ShareProofsBind (curve : Curve F G) (aes : AesGcm) {lib : ThresholdSig F G} (json : Json lib)
    (t n me : Nat) (uuid : String) (draws : Draws F lib.Seed) : Prop :=
  ∀ (ops : List (Op Key String)) (file : KeyFile lib) (proofs : Nat → lib.dlog.Proof),
    Executes (runKeygen curve aes t n me draws json uuid) ops file →
    Accepts ops json.keygen.proof round5 me n uuid
      (lib.dlog.prove (lib.xI file.sharedKeys) draws.proofNonce) proofs →
    ∀ j, 1 ≤ j → j ≤ n → lib.dlog.verify (proofs j) = true ∧
      lib.dlog.pk (proofs j) =
        (file.vssSchemeVec.map fun vss => evalCommit vss.commitments (j : F)).sum

variable {curve : Curve F G} {aes : AesGcm} {lib : ThresholdSig F G} {json : Json lib}
  {t n me : Nat} {uuid : String} {draws : Draws F lib.Seed} {ops : List (Op Key String)}
  {file : KeyFile lib} {proofs : Nat → lib.dlog.Proof}

/-- Whatever the others post, the own proof is about the own share. -/
theorem own_shareProof (hlib : lib.Documented curve.generator)
    (hchecks : lib.ChecksShares curve.generator)
    (h : Executes (runKeygen curve aes t n me draws json uuid) ops file)
    (haccepts : Accepts ops json.keygen.proof round5 me n uuid
      (lib.dlog.prove (lib.xI file.sharedKeys) draws.proofNonce) proofs) :
    lib.dlog.pk (proofs me) =
      (file.vssSchemeVec.map fun vss => evalCommit vss.commitments (me : F)).sum := by
  obtain ⟨_, _, _, _, _, hconstruct, _, _⟩ := runKeygen_executes h
  obtain ⟨hshares, hsum⟩ := hchecks.construct hconstruct
  rw [haccepts.own, hlib.dlog.pk_prove, hsum]
  exact sum_shares_smul hshares

/-- Every proof accepted verifies. -/
theorem shareProofs_verify (h : Executes (runKeygen curve aes t n me draws json uuid) ops file)
    (haccepts : Accepts ops json.keygen.proof round5 me n uuid
      (lib.dlog.prove (lib.xI file.sharedKeys) draws.proofNonce) proofs) {j : Nat} (h₁ : 1 ≤ j)
    (hn : j ≤ n) : lib.dlog.verify (proofs j) = true := by
  obtain ⟨_, _, ops₅, read, hleft, _, hread, hverify⟩ := runKeygen_executes h
  have hlast : Accepts ops₅ json.keygen.proof round5 me n uuid
      (lib.dlog.prove (lib.xI file.sharedKeys) draws.proofNonce) proofs := by
    refine ⟨haccepts.own, fun i hi => ?_⟩
    obtain ⟨text, hgot, htext⟩ := haccepts.read i hi
    exact ⟨text, hleft.got_mem (fun hbefore => hbefore i rfl) hgot, htext⟩
  refine hverify _ ?_
  rw [(exchangeData_executes hread).2 proofs hlast]
  exact List.mem_map_of_mem (List.mem_range'_1.mpr ⟨h₁, by omega⟩)

end

end Eddsa

/-! ## Forged proofs -/

section

variable {F G Bc Decom Kept EncKey Shared Proof : Type}

/-- The calls of a party that posts another proof. -/
def KeygenCalls.replaceProof (calls : KeygenCalls F G Bc Decom Kept EncKey Shared Proof)
    (forge : Proof → Proof) : KeygenCalls F G Bc Decom Kept EncKey Shared Proof :=
  { calls with
    construct := fun pointVec partyShares vssSchemeVec =>
      (fun c => (c.1, forge c.2)) <$> calls.construct pointVec partyShares vssSchemeVec }

theorem KeygenCalls.replaceProof_id (calls : KeygenCalls F G Bc Decom Kept EncKey Shared Proof) :
    calls.replaceProof id = calls := by
  have h : ∀ x : Except Panic (Shared × Proof), (fun c => (c.1, id c.2)) <$> x = x := id_map
  simp only [replaceProof, h]

end

namespace Eddsa

section

variable {F G : Type} [Field F] [AddCommGroup G] [Module F G] {curve : Curve F G} {aes : AesGcm}
  {lib : ThresholdSig F G} {json : Json lib} {t n me : Nat} {uuid : String}
  {draws : Nat → Draws F lib.Seed} {excused : Panic → Prop}
  {v : KeygenValues F G (List UInt8) lib.SharedKeys lib.dlog.Proof}

/-- The proof of an honest party is about its share. -/
theorem honest_proof
    (h : HonestCalls curve excused t n (fun i => calls curve t n i (draws i)) v) (h₁ : 1 ≤ me)
    (hn : me ≤ n) : v.proof me = lib.dlog.prove (lib.xI (v.shared me)) (draws me).proofNonce := by
  obtain ⟨shared, _, hreturn⟩ := except_bind_ok (h.construct me h₁ hn)
  obtain ⟨rfl, hproof⟩ := Prod.mk.inj (Except.ok.inj hreturn)
  exact hproof.symm

/-- Any proofs that verify are as good as the honest ones. -/
theorem forgedCalls
    (h : HonestCalls curve excused t n (fun i => calls curve t n i (draws i)) v)
    {forge : Nat → lib.dlog.Proof → lib.dlog.Proof}
    (hforge : ∀ i, lib.dlog.verify (forge i (v.proof i)) = true) :
    HonestCalls curve excused t n
      (fun i => (calls curve t n i (draws i)).replaceProof (forge i))
      { v with proof := fun i => forge i (v.proof i) } :=
  { h with
    construct := fun i h₁ hn => by
      have hconstruct := h.construct i h₁ hn
      simp only [KeygenCalls.replaceProof, hconstruct]
      rfl
    verify := fun i _ _ => by
      simp only [KeygenCalls.replaceProof, calls, List.length_map, List.length_range']
      rw [verifyDlogProofs_eq (by simp)]
      · rfl
      · intro proof hproof
        obtain ⟨j, _, rfl⟩ := List.mem_map.mp hproof
        exact hforge j }

/-- The others prove other shares than theirs, and the key generation ends. -/
theorem forged_executes (json : Json lib) (uuid : String) (draws : Draws F lib.Seed)
    (hcurve : curve.Documented) (haes : aes.Documented) (hlib : lib.Documented curve.generator)
    (ht : t < n) (h₁ : 1 ≤ me) (hn : me ≤ n) :
    ∃ ops file proofs, Executes (runKeygen curve aes t n me draws json uuid) ops file ∧
      Accepts ops json.keygen.proof round5 me n uuid
        (lib.dlog.prove (lib.xI file.sharedKeys) draws.proofNonce) proofs ∧
      ∀ j, j ≠ me → lib.dlog.pk (proofs j) =
        (file.vssSchemeVec.map fun vss => evalCommit vss.commitments (j : F)).sum +
          curve.generator := by
  obtain ⟨v, hcalls, _⟩ := honestCalls (fun _ => False) hcurve hlib ht fun _ => draws
  let joint := ((List.range' 1 n).map v.poly).sum
  let forge : Nat → lib.dlog.Proof → lib.dlog.Proof := fun j =>
    if j = me then id else fun _ => lib.dlog.prove (joint.eval (j : F) + 1) 0
  have hme : forge me = id := if_pos rfl
  have hproof := honest_proof hcalls h₁ hn
  have hverify : ∀ i, lib.dlog.verify (forge i (v.proof i)) = true := by
    intro i
    by_cases hi : i = me
    · rw [hi, hme, id, hproof]
      exact hlib.dlog.verify_prove _ _
    · simp only [forge, if_neg hi]
      exact hlib.dlog.verify_prove _ _
  have hforged := forgedCalls hcalls hverify
  let s := keygenSchedule curve aes json.scalar json.keygen
    (fun i => (calls curve t n i draws).replaceProof (forge i))
    { v with proof := fun i => forge i (v.proof i) } (fun _ => draws.chainCode)
    (fun _ => draws.chainNonce) (fun _ => draws.nonce) n uuid
  have hplays : Plays s.mail s.rank (fun _ => False) (Owes s.mail me) 0
      (runKeygen curve aes t n me draws json uuid) 7
      (honestFile curve n (fun _ => draws) v me) := by
    rw [runKeygen, ← (calls curve t n me draws).replaceProof_id, ← hme]
    exact keygen_plays hcurve haes hlib.dlog hforged h₁ hn rfl
  obtain ⟨ops, hex, hops⟩ := hplays.tracks.exists_executes
  obtain ⟨_, _, ops₅, _, hleft, _, hread, _⟩ := runKeygen_executes hex
  have hown : lib.dlog.prove (lib.xI (v.shared me)) draws.proofNonce = forge me (v.proof me) := by
    rw [hme, hproof]
    rfl
  refine ⟨ops, _, fun i => forge i (v.proof i), hex, ?_, fun j hj => ?_⟩
  · rw [show (honestFile curve n (fun _ => draws) v me).sharedKeys = v.shared me from rfl, hown]
      at hread ⊢
    have haccepts := (s.toAll (k := 6) rfl).accepts (d := fun i => forge i (v.proof i)) hread
      fun k text hk => hops k text (hleft.subset hk)
    exact haccepts.mono hleft.subset
  · have hpk : lib.dlog.pk (forge j (v.proof j)) = (joint.eval (j : F) + 1) • curve.generator := by
      simp only [forge, if_neg hj, hlib.dlog.pk_prove]
    have hsum := sum_evalCommit (l := List.range' 1 n) hcalls.deals (j : F)
    rw [hpk, add_smul, one_smul, ← hsum]
    rfl

/-- The proofs are about the shares exactly when there is nobody else. -/
theorem share_proofs_bind (hcurve : curve.Documented) (haes : aes.Documented)
    (hlib : lib.Documented curve.generator) (hchecks : lib.ChecksShares curve.generator)
    (json : Json lib) (uuid : String) (draws : Draws F lib.Seed) (ht : t < n) (h₁ : 1 ≤ me)
    (hn : me ≤ n) : ShareProofsBind curve aes json t n me uuid draws ↔ n = 1 := by
  constructor
  · intro hbind
    by_contra hne
    obtain ⟨ops, file, proofs, hex, haccepts, hforged⟩ :=
      forged_executes json uuid draws hcurve haes hlib ht h₁ hn
    obtain ⟨j, hmem⟩ := exists_mem_others h₁ hn hne
    obtain ⟨⟨hj₁, hjn⟩, hj⟩ := mem_others.mp hmem
    have hpk := (hbind ops file proofs hex haccepts j hj₁ hjn).2
    rw [hforged j hj] at hpk
    exact hcurve.generator_ne_zero (add_eq_left.mp hpk)
  · rintro rfl
    obtain rfl : me = 1 := by omega
    intro ops file proofs hex haccepts j hj₁ hj
    obtain rfl : j = 1 := by omega
    exact ⟨shareProofs_verify hex haccepts hj₁ hj, own_shareProof hlib hchecks hex haccepts⟩

end

end Eddsa

section

variable (p : Nat) [Fact p.Prime]

open Classical in
/-- The library over the additive group, with the check of the shares. -/
noncomputable def checkingThresholdSig : ThresholdSig (ZMod p) (ZMod p) :=
  { additiveThresholdSig p with
    construct := fun keys params ys shares vssVec index =>
      if List.Forall₂ (fun (share : ZMod p) (vss : Vss (ZMod p)) =>
          share • (additiveCurve p).generator = evalCommit vss.commitments (index : ZMod p))
          shares vssVec then
        (additiveThresholdSig p).construct keys params ys shares vssVec index
      else .error .unwrapErr }

theorem checkingThresholdSig_documented :
    (checkingThresholdSig p).Documented (additiveCurve p).generator :=
  { additiveThresholdSig_documented p with
    construct := fun keys params dealings index hlength hvalid => by
      obtain ⟨shared, hshared, hy, hxI⟩ :=
        (additiveThresholdSig_documented p).construct keys params dealings index hlength hvalid
      refine ⟨shared, (if_pos ?_).trans hshared, hy, hxI⟩
      rw [List.forall₂_map_left_iff, List.forall₂_map_right_iff, List.forall₂_same]
      exact fun d hd => (hvalid d hd).2 }

theorem checkingThresholdSig_checks :
    (checkingThresholdSig p).ChecksShares (additiveCurve p).generator where
  construct h := by
    simp only [checkingThresholdSig] at h
    split at h
    next hchecks =>
      obtain rfl := Except.ok.inj h
      exact ⟨hchecks, rfl⟩
    next => cases h

end

/-- The messages of an EdDSA key generation. -/
noncomputable def additiveEddsaJson : Eddsa.Json (checkingThresholdSig 65537) where
  scalar := (additiveSignJson 65537).scalar
  keygen :=
    { bc := (additiveSignJson 65537).scalar
      decom := (additiveSignJson 65537).scalar
      pack := additiveEphJson.pack
      vss := additiveEphJson.vss
      proof := additiveEphJson.shared }

/-- The draws of one party. -/
def shareDraws : Eddsa.Draws (ZMod 65537) (ZMod 65537) where
  keys := (1 : ZMod 65537)
  chainCode := 1
  chainNonce := 0
  broadcast := (0 : ZMod 65537)
  distribute := (1 : ZMod 65537)
  proofNonce := 0
  nonce _ := List.Vector.replicate 12 0

/-- A party on its own proves its share. -/
theorem share_proofs_bind_alone :
    Eddsa.ShareProofsBind (additiveCurve 65537) xorAes additiveEddsaJson 0 1 1 "u" shareDraws :=
  (Eddsa.share_proofs_bind (additiveCurve_documented 65537 (by norm_num) (by norm_num))
    xorAes_documented (checkingThresholdSig_documented 65537) (checkingThresholdSig_checks 65537)
    additiveEddsaJson "u" shareDraws one_pos le_rfl le_rfl).mpr rfl

/-- The second of two parties proves the share that is one above its own. -/
theorem share_proofs_unbound :
    ¬ Eddsa.ShareProofsBind (additiveCurve 65537) xorAes additiveEddsaJson 1 2 1 "u"
      shareDraws := by
  intro hbind
  have hcurve := additiveCurve_documented 65537 (by norm_num) (by norm_num)
  obtain ⟨ops, file, proofs, hex, haccepts, hforged⟩ :=
    Eddsa.forged_executes additiveEddsaJson "u" shareDraws hcurve xorAes_documented
      (checkingThresholdSig_documented 65537) (show 1 < 2 by decide) (le_refl 1)
      (show 1 ≤ 2 by decide)
  have hpk := (hbind ops file proofs hex haccepts 2 (by decide) le_rfl).2
  rw [hforged 2 (by decide)] at hpk
  exact hcurve.generator_ne_zero (add_eq_left.mp hpk)

end TssCli
