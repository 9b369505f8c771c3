import TssCli.Lib.Net
import TssCli.Protocols.Additive

/-!
# The commitments to the nonces

In the first round of the ephemeral key generation a signer posts the commitment
to its nonce point together with the opening.  It has read nothing by then, so
the opening is there for others that have not committed to anything
(`ephKeygen_reveals`), and they may choose their own nonce points by it
(`ephKeygen_rushed`).

So a commitment hides until all have committed exactly when there is nobody else
(`nonce_commitment`).  The key generations post the openings in a round of their
own.
-/

namespace TssCli

open Mailbox Mailbox.Script Polynomial Sharing

namespace Eddsa

section

variable {F G : Type} [Field F] [AddCommGroup G] [Module F G] {lib : ThresholdSig F G}
  {signer : ThresholdSigner lib} (curve : Curve F G) (aes : AesGcm) (json : EphJson signer)
  (uuid : String) (t n : Nat) (keys : Nat → lib.Keys) (message : List UInt8) (id : Nat → Nat)
  (draws : Nat → EphDraws signer.Seed) (me : Nat)

/-- The ephemeral key generation of signer `me`, among signers with evaluation
points `id`. -/
def ephKeygenAt : Client (EphKeygen signer) :=
  ephKeygen curve aes json uuid t n me (keys me) message
    ((List.range' 1 n).map fun i => id i - 1) (draws me)

/-- The text in which a signer posts commitment, blinding factor and nonce point. -/
def round1Text (i : Nat) : String :=
  json.round1.encode ((ephBroadcastAt signer keys message id draws i).1,
    (ephBroadcastAt signer keys message id draws i).2,
    signer.RI (ephKeyAt signer keys message id draws i))

/-- A text from which the blinding factor and the nonce point of signer `me` are
read. -/
def Opens (text : String) : Prop :=
  ∃ bc, json.round1.decode text = some (bc, (ephBroadcastAt signer keys message id draws me).2,
    signer.RI (ephKeyAt signer keys message id draws me))

/-- Whatever the others do, signer `me` posts its opening only after it has got the
commitment of every other. -/
def OpensLast : Prop :=
  ∀ (net : Net Unit Key String Panic (EphKeygen signer)) (tr later earlier)
    (key : Key) (text : String),
    NetRun (alone (ephKeygenAt curve aes json uuid t n keys message id draws me)) net tr →
    tr = later ++ .posted () key text :: earlier →
    Opens json keys message id draws me text →
    ∀ j ∈ others me n, ∃ text', .got () (broadcastKey j ephKeygenRound1 uuid) text' ∈ earlier

/-- Signer `j` sees the opening of signer `me` before it chooses its own commitment
by it, and signer `me` accepts that and returns. -/
def Rushes (choose : String → String) (j : Nat) : Prop :=
  ∃ (net : Net Unit Key String Panic (EphKeygen signer)) (later earlier : _) (key : Key)
    (text : String) (eph : EphKeygen signer),
    NetRun (alone (ephKeygenAt curve aes json uuid t n keys message id draws me)) net
      (later ++ .posted () key text :: earlier) ∧
    Opens json keys message id draws me text ∧
    .foreign (broadcastKey j ephKeygenRound1 uuid) (choose text) ∈ later ∧
    .got () (broadcastKey j ephKeygenRound1 uuid) (choose text) ∈ later ∧
    net.scripts () = .ret eph

variable {curve aes json uuid t n keys message id draws me}

omit [Field F] [AddCommGroup G] [Module F G] in
theorem opens_round1Text : Opens json keys message id draws me
    (round1Text json keys message id draws me) :=
  ⟨_, json.round1.decode_encode _⟩

/-- The opening is the first thing that is posted. -/
theorem ephKeygenAt_eq (hbound : ∀ i, 1 ≤ i → i ≤ n → 1 ≤ id i ∧ id i < 2 ^ 16) (ht : t < n)
    (h₁ : 1 ≤ me) (hn : me ≤ n) :
    ∃ rest, ephKeygenAt curve aes json uuid t n keys message id draws me =
      readRound me n uuid ephKeygenRound1 (round1Text json keys message id draws me) >>= rest :=
  ephKeygen_eq hbound ht le_rfl h₁ hn uuid (keys me) message (draws me)

/-- The opening is posted before anything is read. -/
theorem ephKeygen_reveals (hbound : ∀ i, 1 ≤ i → i ≤ n → 1 ≤ id i ∧ id i < 2 ^ 16) (ht : t < n)
    (h₁ : 1 ≤ me) (hn : me ≤ n) :
    ∃ net, NetRun (alone (ephKeygenAt curve aes json uuid t n keys message id draws me)) net
      [.posted () (broadcastKey me ephKeygenRound1 uuid)
        (round1Text json keys message id draws me)] := by
  obtain ⟨rest, hrest⟩ :
      ∃ rest, (alone (ephKeygenAt curve aes json uuid t n keys message id draws me)).scripts () =
        readRound me n uuid ephKeygenRound1 (round1Text json keys message id draws me) >>= rest :=
    ephKeygenAt_eq hbound ht h₁ hn
  have hstart : NetRun (alone (ephKeygenAt curve aes json uuid t n keys message id draws me))
      (alone _) [] := .start rfl
  exact ⟨_, hstart.snoc (.posted hrest)⟩

/-- However another signer chooses its draws by the opening, the signer that has
opened accepts its commitment, and returns. -/
theorem ephKeygen_rushed (hcurve : curve.Documented) (haes : aes.Documented)
    (hsigner : signer.DealsNonces curve.generator) (hid : Set.InjOn id (Set.Icc 1 n))
    (hbound : ∀ i, 1 ≤ i → i ≤ n → 1 ≤ id i ∧ id i < 2 ^ 16) (ht : t < n) (h₁ : 1 ≤ me)
    (hn : me ≤ n) (choose : Nat → String → EphDraws signer.Seed) {j : Nat} (hj : j ∈ others me n) :
    Rushes curve aes json uuid t n keys message id draws me
      (fun text => round1Text json keys message id (fun i => choose i text) j) j := by
  let text := round1Text json keys message id draws me
  let chosen : Nat → EphDraws signer.Seed := fun i => if i = me then draws me else choose i text
  have hme : chosen me = draws me := if_pos rfl
  have hother : chosen j = choose j text := if_neg (mem_others.mp hj).2
  obtain ⟨v, hv⟩ := exists_honestEph keys message id chosen hcurve hsigner ht
  let s : Schedule :=
    { uuid, parties := n, rounds := ephTexts keys message id chosen curve aes json v,
      nodup := by
        simp [Round.ext_iff, ephTexts, ephKeygenRound1, ephKeygenRound2, ephKeygenRound3,
          ephKeygenRound4] }
  have hplays : Plays s.mail s.rank (fun _ => False) (Owes s.mail me) 0
      (ephKeygenAt curve aes json uuid t n keys message id chosen me) 4 _ :=
    ephKeygen_plays hcurve haes hv (s := s) (m := 0) rfl (fun k e h => by simpa using h) hid hbound
      ht h₁ hn
  have hscript : ephKeygenAt curve aes json uuid t n keys message id chosen me =
      ephKeygenAt curve aes json uuid t n keys message id draws me := by
    rw [ephKeygenAt, hme]
    rfl
  rw [hscript] at hplays
  obtain ⟨ops, hex, hops⟩ := hplays.tracks.exists_executes
  obtain ⟨net, hrun, hreturn⟩ := hex.rushed (.start rfl : NetRun (alone _) _ []) rfl
  obtain ⟨rest, hrest⟩ :
      ∃ rest, ephKeygenAt curve aes json uuid t n keys message id draws me =
        readRound me n uuid ephKeygenRound1 text >>= rest := ephKeygenAt_eq hbound ht h₁ hn
  rw [hrest] at hex
  obtain ⟨ops₁, ops₂, _, rfl, hread, _⟩ := hex.of_bind
  obtain ⟨answer, rfl, _⟩ := readRound_executes hread
  -- The first round of the oracle holds what the other signer has chosen.
  have hanswer : answer j = round1Text json keys message id (fun i => choose i text) j := by
    have hmail := (s.toAll (k := 0) rfl).mail_eq j (mem_others.mp hj).1.1 (mem_others.mp hj).1.2
    have hgot := hops _ _ (List.mem_append_left _
      (List.mem_cons_of_mem _ (List.mem_map.mpr ⟨j, hj, rfl⟩)))
    rw [← Option.some.inj (hmail.symm.trans hgot)]
    simp only [round1Text, ephBroadcastAt, ephKeyAt, hother]
  have hmem : ∀ e : NetEvent Unit Key String Panic,
      e ∈ (Op.got (broadcastKey j ephKeygenRound1 uuid) (answer j)).rushed →
      e ∈ (((others me n).map fun i => Op.got (broadcastKey i ephKeygenRound1 uuid) (answer i)) ++
        ops₂).reverse.flatMap Op.rushed := fun e he =>
    List.mem_flatMap.mpr ⟨_, List.mem_reverse.mpr (List.mem_append_left _
      (List.mem_map.mpr ⟨j, hj, rfl⟩)), he⟩
  rw [hanswer] at hmem
  refine ⟨net, _, [], broadcastKey me ephKeygenRound1 uuid, text, _, ?_, opens_round1Text,
    hmem _ ?_, hmem _ ?_, hreturn⟩
  · rw [List.append_nil, List.cons_append, List.reverse_cons, List.flatMap_append] at hrun
    exact hrun
  · exact List.mem_cons_of_mem _ (List.mem_singleton_self _)
  · exact List.mem_cons_self ..

end

end Eddsa

section

variable {F G : Type} [Field F] [AddCommGroup G] [Module F G] {lib : ThresholdSig F G}
  {signer : ThresholdSigner lib} {curve : Curve F G} {aes : AesGcm} {t n me : Nat} {id : Nat → Nat}

/-- A signer opens after all have committed, and no other can choose its commitment
by the opening, exactly when there is no other: any other may choose its draws by the
opening as it likes. -/
theorem nonce_commitment (hcurve : curve.Documented) (haes : aes.Documented)
    (hsigner : signer.DealsNonces curve.generator) (json : Eddsa.EphJson signer) (uuid : String)
    (keys : Nat → lib.Keys) (message : List UInt8) (draws : Nat → Eddsa.EphDraws signer.Seed)
    (hid : Set.InjOn id (Set.Icc 1 n)) (hbound : ∀ i, 1 ≤ i → i ≤ n → 1 ≤ id i ∧ id i < 2 ^ 16)
    (ht : t < n) (h₁ : 1 ≤ me) (hn : me ≤ n) :
    (Eddsa.OpensLast curve aes json uuid t n keys message id draws me ↔ n = 1) ∧
      ((∀ j ∈ others me n, ∀ choose,
        ¬ Eddsa.Rushes curve aes json uuid t n keys message id draws me choose j) ↔ n = 1) ∧
      ∀ j ∈ others me n, ∀ choose : Nat → String → Eddsa.EphDraws signer.Seed,
        Eddsa.Rushes curve aes json uuid t n keys message id draws me
          (fun text => Eddsa.round1Text json keys message id (fun i => choose i text) j) j := by
  have hnobody : n = 1 → others me n = [] := by
    intro hone
    have := length_others h₁ hn
    exact List.length_eq_zero_iff.mp (by omega)
  have hrushed : ∀ j ∈ others me n, ∀ choose : Nat → String → Eddsa.EphDraws signer.Seed,
      Eddsa.Rushes curve aes json uuid t n keys message id draws me
        (fun text => Eddsa.round1Text json keys message id (fun i => choose i text) j) j :=
    fun j hj choose => Eddsa.ephKeygen_rushed hcurve haes hsigner hid hbound ht h₁ hn choose hj
  refine ⟨⟨fun hlast => ?_, fun hone => ?_⟩, ⟨fun hnone => ?_, fun hone => ?_⟩, hrushed⟩
  · by_contra hne
    obtain ⟨j, hj⟩ := exists_mem_others h₁ hn hne
    obtain ⟨net, hrun⟩ : ∃ net, NetRun
        (alone (Eddsa.ephKeygenAt curve aes json uuid t n keys message id draws me)) net _ :=
      Eddsa.ephKeygen_reveals hbound ht h₁ hn
    obtain ⟨text, hgot⟩ := hlast net _ [] [] _ _ hrun rfl Eddsa.opens_round1Text j hj
    exact List.not_mem_nil hgot
  · intro _ _ _ _ _ _ _ _ _ j hj
    rw [hnobody hone] at hj
    exact absurd hj List.not_mem_nil
  · by_contra hne
    obtain ⟨j, hj⟩ := exists_mem_others h₁ hn hne
    exact hnone j hj _ (hrushed j hj fun i _ => draws i)
  · intro j hj
    rw [hnobody hone] at hj
    exact absurd hj List.not_mem_nil

end

/-- The texts of signers over the additive group. -/
noncomputable def additiveEphJson : Eddsa.EphJson (additiveSigner 65537 id) where
  round1 := .ofCountable (ZMod 65537 × Nat × ZMod 65537)
  vss := .ofCountable (Vss (ZMod 65537))
  pack := .ofCountable AeadPack
  shared := .ofCountable (ZMod 65537 × ZMod 65537)

/-- The texts of all of a signature. -/
noncomputable def additiveSignerJson : Eddsa.SignerJson (additiveSigner 65537 id) where
  index := (additiveSignJson 65537).partyId
  eph := additiveEphJson
  localSig := additiveEphJson.shared

/-- Draws for the nonce `r`. -/
def nonceDraws (r : ZMod 65537) : Eddsa.EphDraws (ZMod 65537) :=
  ⟨r, (0 : ZMod 65537), (2 : ZMod 65537), fun _ => List.Vector.replicate 12 0⟩

/-- A signer on its own opens last. -/
theorem nonce_commitment_alone :
    Eddsa.OpensLast (additiveCurve 65537) xorAes additiveEphJson "u" 0 1
      (fun _ => (1 : ZMod 65537)) [] id (fun _ => nonceDraws 3) 1 :=
  (nonce_commitment (additiveCurve_documented 65537 (by norm_num) (by norm_num))
    xorAes_documented (additiveSigner_documented 65537 id).toDealsNonces additiveEphJson "u"
    (fun _ => (1 : ZMod 65537)) [] (fun _ => nonceDraws 3) (fun _ _ _ _ h => h)
    (fun i hi hin => ⟨hi, hin.trans_lt (by decide)⟩) one_pos le_rfl le_rfl).1.mpr rfl

/-- The draws that cancel the nonce point of an opening. -/
noncomputable def cancel (text : String) : Eddsa.EphDraws (ZMod 65537) :=
  match additiveEphJson.round1.decode text with
  | some opening => nonceDraws (-opening.2.2)
  | none => nonceDraws 0

theorem cancel_encode (opening : (additiveThresholdSig 65537).Broadcast × Nat × ZMod 65537) :
    cancel (additiveEphJson.round1.encode opening) = nonceDraws (-opening.2.2) := by
  rw [cancel, Codec.decode_encode]

theorem nonzero_of_ne {r : ZMod 65537} (h : r ≠ 0) : nonzero 65537 r = r := if_neg h

/-- Of two signers the first opens before it has read anything, and the second
cancels its nonce point. -/
theorem nonce_cancelled :
    ¬ Eddsa.OpensLast (additiveCurve 65537) xorAes additiveEphJson "u" 1 2
        (fun _ => (1 : ZMod 65537)) [] id (fun _ => nonceDraws 3) 1 ∧
      Eddsa.Rushes (additiveCurve 65537) xorAes additiveEphJson "u" 1 2
        (fun _ => (1 : ZMod 65537)) [] id (fun _ => nonceDraws 3) 1
        (fun text => Eddsa.round1Text additiveEphJson (fun _ => (1 : ZMod 65537)) [] id
          (fun _ => cancel text) 2) 2 ∧
      Eddsa.ephKeyAt (additiveSigner 65537 id) (fun _ => (1 : ZMod 65537)) [] id
        (fun _ => cancel (Eddsa.round1Text additiveEphJson (fun _ => (1 : ZMod 65537)) [] id
          (fun _ => nonceDraws 3) 1)) 2 = (-3 : ZMod 65537) := by
  have hbound : ∀ i, 1 ≤ i → i ≤ 2 → 1 ≤ id i ∧ id i < 2 ^ 16 :=
    fun i hi hin => ⟨hi, hin.trans_lt (by decide)⟩
  have hmem : 2 ∈ others 1 2 := by decide
  refine ⟨fun hlast => ?_, ?_, ?_⟩
  · obtain ⟨net, hrun⟩ : ∃ net, NetRun (alone (Eddsa.ephKeygenAt (additiveCurve 65537) xorAes
        additiveEphJson "u" 1 2 (fun _ => (1 : ZMod 65537)) [] id (fun _ => nonceDraws 3) 1)) net _ :=
      Eddsa.ephKeygen_reveals hbound (by decide) le_rfl (by decide)
    obtain ⟨text, hgot⟩ := hlast net _ [] [] _ _ hrun rfl Eddsa.opens_round1Text 2 hmem
    exact List.not_mem_nil hgot
  · exact Eddsa.ephKeygen_rushed (additiveCurve_documented 65537 (by norm_num) (by norm_num))
      xorAes_documented (additiveSigner_documented 65537 id).toDealsNonces (fun _ _ _ _ h => h)
      hbound (by decide) le_rfl (by decide) (fun _ text => cancel text) hmem
  · have hopen : cancel (Eddsa.round1Text additiveEphJson (fun _ => (1 : ZMod 65537)) [] id
        (fun _ => nonceDraws 3) 1) = nonceDraws (-3) :=
      (cancel_encode _).trans (congrArg (fun r => nonceDraws (-r))
        (nonzero_of_ne (r := 3) (by decide)))
    rw [hopen]
    exact nonzero_of_ne (show (-3 : ZMod 65537) ≠ 0 by decide)

end TssCli
