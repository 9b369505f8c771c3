import TssCli.Common.Schedule
import TssCli.Protocols.Curve

/-!
# The shared chain code

In a key generation each party draws a scalar, posts a proof that it knows the
discrete logarithm of some public key, and then posts the scalar.  The chain
code is the sum of the scalars.

The proofs are checked, each against the public key it carries, but no scalar is
compared with the public key of its proof.  So the rounds do not bind: a party
that sees the others' scalars chooses the chain code (`chain_code_binding`).
-/

namespace TssCli

open Mailbox Mailbox.Script

/-! ## The code -/

/-- `Error`. -/
inductive ProtocolError where
  | invalidKey
deriving DecidableEq

/-- `result.expect(..)`. -/
def expect {ε α : Type} : Except ε α → Except Panic α
  | .ok a => .ok a
  | .error _ => .error .unwrapErr

def round0ChainCode : Round := .ofName "round0_chain_code" (by decide)

def round1ChainCode : Round := .ofName "round1_chain_code" (by decide)

section

variable {F G : Type} (dlog : DLog F G)

/-- `verify_dlog_proofs`. -/
def verifyDlogProofs (shareCount : Nat) (dlogProofsVec : List dlog.Proof) (yVecLen : Nat) :
    Except Panic (Except ProtocolError Unit) :=
  if yVecLen ≠ shareCount ∨ dlogProofsVec.length ≠ shareCount then .error .assertFailed
  else if dlogProofsVec.all dlog.verify then .ok (.ok ())
  else .ok (.error .invalidKey)

variable [Add F] (scalarJson : Codec F) (proofJson : Codec dlog.Proof)

/-- `generate_shared_chain_code`, with the scalars it draws: the party's own, and
the one inside the proof. -/
def generateSharedChainCode (partyNum partiesNum : Nat) (uuid : String) (shareCount : Nat)
    (chainCode nonce : F) : Client F := do
  let dlogProof := dlog.prove chainCode nonce
  let dlogProofVec ← exchangeData proofJson partyNum partiesNum uuid round0ChainCode dlogProof
  let verified ← verifyDlogProofs dlog shareCount dlogProofVec partiesNum
  expect verified
  let chainCodes ← exchangeData scalarJson partyNum partiesNum uuid round1ChainCode chainCode
  sumVec chainCodes

end

/-! ## Honest parties -/

theorem verifyDlogProofs_eq {F G : Type} {dlog : DLog F G} {n : Nat} {proofs : List dlog.Proof}
    (hn : proofs.length = n) (h : ∀ p ∈ proofs, dlog.verify p = true) :
    verifyDlogProofs dlog n proofs n = .ok (.ok ()) := by
  simp [verifyDlogProofs, hn, List.all_eq_true.mpr h]

/-- Proofs that pass have been checked, each on its own. -/
theorem verifyDlogProofs_ok {F G : Type} {dlog : DLog F G} {m k : Nat} {proofs : List dlog.Proof}
    (h : (do let verified ← verifyDlogProofs dlog m proofs k; expect verified) = .ok ()) :
    ∀ proof ∈ proofs, dlog.verify proof = true := by
  obtain ⟨verified, hverified, hexpect⟩ := except_bind_ok h
  unfold verifyDlogProofs at hverified
  split at hverified
  next => cases hverified
  next =>
    split at hverified
    next hall => exact List.all_eq_true.mp hall
    next =>
      obtain rfl := Except.ok.inj hverified
      cases hexpect

section

variable {F G : Type} [Field F] {dlog : DLog F G} {scalarJson : Codec F}
  {proofJson : Codec dlog.Proof} {n me : Nat} {uuid : String}

/-- Against any proofs that verify and any scalars, the chain code is the sum of
the scalars. -/
theorem generateSharedChainCode_plays {mail : Key → Option String} {rank : Key → Nat}
    {excused : Panic → Prop} {r : Nat} {proof : Nat → dlog.Proof} {chainCode : Nat → F} (nonce : F)
    (h₀ : RoundMail mail rank n uuid round0ChainCode (r + 1) fun i => proofJson.encode (proof i))
    (h₁ : RoundMail mail rank n uuid round1ChainCode (r + 1 + 1) fun i =>
      scalarJson.encode (chainCode i))
    (hown : proof me = dlog.prove (chainCode me) nonce)
    (hverify : ∀ i, dlog.verify (proof i) = true) (hme : 1 ≤ me) (hn : me ≤ n) :
    Plays mail rank excused (Owes mail me) r
      (generateSharedChainCode dlog scalarJson proofJson me n uuid n (chainCode me) nonce)
      (r + 1 + 1) ((List.range' 1 n).map chainCode).sum := by
  have hne : (List.range' 1 n).map chainCode ≠ [] := by
    rw [Ne, List.map_eq_nil_iff, List.range'_eq_nil_iff]
    omega
  have hall : ∀ p ∈ (List.range' 1 n).map proof, dlog.verify p = true := by
    intro p hp
    obtain ⟨i, _, rfl⟩ := List.mem_map.mp hp
    exact hverify i
  rw [generateSharedChainCode, ← hown]
  refine (h₀.exchangeData hme hn).bind ?_
  rw [verifyDlogProofs_eq (by simp) hall]
  refine (h₁.exchangeData hme hn).bind ?_
  rw [sumVec_eq hne]
  exact .pure

/-- The two rounds of an execution, apart. -/
theorem generateSharedChainCode_executes {chainCode nonce c : F} {ops : List (Op Key String)}
    (h : Executes
      (generateSharedChainCode dlog scalarJson proofJson me n uuid n chainCode nonce) ops c) :
    ∃ ops₀ proofs ops₁ chainCodes, ops = ops₀ ++ ops₁ ∧
      Executes (exchangeData proofJson me n uuid round0ChainCode (dlog.prove chainCode nonce))
        ops₀ proofs ∧
      verifyDlogProofs dlog n proofs n = .ok (.ok ()) ∧
      Executes (exchangeData scalarJson me n uuid round1ChainCode chainCode) ops₁ chainCodes ∧
      sumVec chainCodes = .ok c := by
  obtain ⟨ops₀, _, proofs, rfl, hproofs, h₁⟩ := h.of_bind
  obtain ⟨_, _, verified, rfl, hverify, h₂⟩ := h₁.of_bind
  obtain ⟨hverified, rfl⟩ := hverify.of_lift
  obtain ⟨_, _, _, rfl, hexpect, h₃⟩ := h₂.of_bind
  obtain ⟨hexpected, rfl⟩ := hexpect.of_lift
  obtain ⟨ops₁, _, chainCodes, rfl, hcodes, h₄⟩ := h₃.of_bind
  obtain ⟨hsum, rfl⟩ := h₄.of_lift
  refine ⟨ops₀, proofs, ops₁, chainCodes, by simp, hproofs, ?_, hcodes, hsum⟩
  cases verified with
  | ok _ => exact hverified
  | error _ => cases hexpected

/-- On any operations the chain code is the sum of the scalars accepted. -/
theorem generateSharedChainCode_sum {chainCode nonce c : F} {ops : List (Op Key String)}
    {scalars : Nat → F} (hme : 1 ≤ me) (hn : me ≤ n)
    (h : Executes
      (generateSharedChainCode dlog scalarJson proofJson me n uuid n chainCode nonce) ops c)
    (hscalars : Accepts ops scalarJson round1ChainCode me n uuid chainCode scalars) :
    c = ((List.range' 1 n).map scalars).sum := by
  obtain ⟨ops₀, _, ops₁, chainCodes, rfl, hproofs, _, hcodes, hsum⟩ :=
    generateSharedChainCode_executes h
  have haccepts : Accepts ops₁ scalarJson round1ChainCode me n uuid chainCode scalars := by
    refine ⟨hscalars.own, fun i hi => ?_⟩
    obtain ⟨text, hgot, htext⟩ := hscalars.read i hi
    refine ⟨text, ?_, htext⟩
    rcases List.mem_append.mp hgot with hgot | hgot
    · obtain ⟨j, hj⟩ := exchangeData_getsOnly _ _ hproofs _ _ hgot
      exact absurd hj (broadcastKey_ne (by decide))
    · exact hgot
  rw [(exchangeData_executes hcodes).2 scalars haccepts, sumVec_eq] at hsum
  · exact (Except.ok.inj hsum).symm
  · rw [Ne, List.map_eq_nil_iff, List.range'_eq_nil_iff]
    omega

end

/-! ## Commitment and reveal -/

section

variable {F G : Type} [Field F] [AddCommGroup G] [Module F G] (generator : G) (dlog : DLog F G)
  (scalarJson : Codec F) (proofJson : Codec dlog.Proof)

/-- Party `me` returns a chain code only if every scalar it has accepted is the
discrete logarithm of the public key in the proof it has accepted from the same
party, and the chain code is the sum of these scalars. -/
def ChainCodeBinds (me n : Nat) (uuid : String) : Prop :=
  ∀ (chainCode nonce c : F) (ops : List (Op Key String)) (proofs : Nat → dlog.Proof)
    (scalars : Nat → F),
    Executes (generateSharedChainCode dlog scalarJson proofJson me n uuid n chainCode nonce) ops c →
    Accepts ops proofJson round0ChainCode me n uuid (dlog.prove chainCode nonce) proofs →
    Accepts ops scalarJson round1ChainCode me n uuid chainCode scalars →
    (∀ i, 1 ≤ i → i ≤ n → dlog.pk (proofs i) = scalars i • generator) ∧
      c = ((List.range' 1 n).map scalars).sum

/-- Beside an honest party the others prove the scalar `1`, and reveal `0`. -/
def switchedSchedule (me n : Nat) (uuid : String) (chainCode nonce : F) : Schedule where
  uuid := uuid
  parties := n
  rounds :=
    [(round0ChainCode, .toAll fun i =>
        proofJson.encode (if i = me then dlog.prove chainCode nonce else dlog.prove 1 0)),
     (round1ChainCode, .toAll fun i => scalarJson.encode (if i = me then chainCode else 0))]
  nodup := by simp [Round.ext_iff, round0ChainCode, round1ChainCode]

end

section

variable {F G : Type} [Field F] [AddCommGroup G] [Module F G] {generator : G} {dlog : DLog F G}
  {scalarJson : Codec F} {proofJson : Codec dlog.Proof} {n me : Nat} {uuid : String}

/-- The switch goes through beside every honest chain code, and its entries are accepted. -/
theorem switched_executes (scalarJson : Codec F) (proofJson : Codec dlog.Proof) (uuid : String)
    (hdlog : dlog.Documented generator) (hme : 1 ≤ me) (hn : me ≤ n) (chainCode nonce : F) :
    ∃ ops c, Executes
        (generateSharedChainCode dlog scalarJson proofJson me n uuid n chainCode nonce) ops c ∧
      Accepts ops proofJson round0ChainCode me n uuid (dlog.prove chainCode nonce)
        (fun i => if i = me then dlog.prove chainCode nonce else dlog.prove 1 0) ∧
      Accepts ops scalarJson round1ChainCode me n uuid chainCode
        fun i => if i = me then chainCode else 0 := by
  let s := switchedSchedule dlog scalarJson proofJson me n uuid chainCode nonce
  have h₀ := s.toAll (k := 0) rfl
  have h₁ := s.toAll (k := 1) rfl
  have hverify : ∀ i, dlog.verify
      (if i = me then dlog.prove chainCode nonce else dlog.prove 1 0) = true := by
    intro i
    split
    next => exact hdlog.verify_prove _ _
    next => exact hdlog.verify_prove _ _
  have hplays : Plays s.mail s.rank (fun _ => False) (Owes s.mail me) 0 _ 2 _ :=
    generateSharedChainCode_plays nonce h₀ h₁ (by rw [if_pos rfl, if_pos rfl]) hverify hme hn
  obtain ⟨ops, hex, hops⟩ := hplays.tracks.exists_executes
  rw [if_pos rfl] at hex
  refine ⟨ops, _, hex, ?_⟩
  obtain ⟨ops₀, _, ops₁, chainCodes, rfl, hproofs, _, hcodes, _⟩ :=
    generateSharedChainCode_executes hex
  have hproof : (if me = me then dlog.prove chainCode nonce else dlog.prove 1 0) =
      dlog.prove chainCode nonce := if_pos rfl
  have hcode : (if me = me then chainCode else 0) = chainCode := if_pos rfl
  rw [← hproof] at hproofs
  rw [← hcode] at hcodes
  have hproofs' := h₀.accepts
    (d := fun i => if i = me then dlog.prove chainCode nonce else dlog.prove 1 0) hproofs
    fun k t hk => hops k t (List.mem_append_left _ hk)
  have hcodes' := h₁.accepts (d := fun i => if i = me then chainCode else 0) hcodes
    fun k t hk => hops k t (List.mem_append_right _ hk)
  rw [hproof] at hproofs'
  rw [hcode] at hcodes'
  exact ⟨hproofs'.mono (by simp), hcodes'.mono (by simp)⟩

/-- The rounds bind exactly when there is nobody else. -/
theorem chain_code_binding (hdlog : dlog.Documented generator) (hgen : generator ≠ 0)
    (hme : 1 ≤ me) (hn : me ≤ n) :
    ChainCodeBinds generator dlog scalarJson proofJson me n uuid ↔ n = 1 := by
  constructor
  · intro hbinds
    by_contra hne
    obtain ⟨ops, c, hex, hproofs, hscalars⟩ :=
      switched_executes scalarJson proofJson uuid hdlog hme hn 0 0
    obtain ⟨j, hmem⟩ := exists_mem_others hme hn hne
    obtain ⟨⟨hj₁, hjn⟩, hj⟩ := mem_others.mp hmem
    have := (hbinds 0 0 c ops _ _ hex hproofs hscalars).1 j hj₁ hjn
    rw [if_neg hj, if_neg hj, hdlog.pk_prove, one_smul, zero_smul] at this
    exact hgen this
  · rintro rfl
    obtain rfl : me = 1 := by omega
    intro chainCode nonce c ops proofs scalars hex hproofs hscalars
    refine ⟨fun i hi₁ hi => ?_, generateSharedChainCode_sum hme hn hex hscalars⟩
    obtain rfl : i = 1 := by omega
    rw [hproofs.own, hscalars.own, hdlog.pk_prove]

end

/-- A party on its own binds itself. -/
theorem chain_code_binding_alone :
    ChainCodeBinds 1 (additiveDLog 5) (Codec.ofCountable (ZMod 5))
      (Codec.ofCountable (ZMod 5 × ZMod 5)) 1 1 "u" :=
  (chain_code_binding (additiveDLog_documented 5) one_ne_zero le_rfl le_rfl).mpr rfl

/-- Of two parties, the one that speaks last proves `1` and reveals `0`. -/
theorem chain_code_unbound :
    ¬ ChainCodeBinds 1 (additiveDLog 5) (Codec.ofCountable (ZMod 5))
      (Codec.ofCountable (ZMod 5 × ZMod 5)) 1 2 "u" := by
  intro hbinds
  obtain ⟨ops, c, hex, hproofs, hscalars⟩ :=
    switched_executes (Codec.ofCountable (ZMod 5)) (Codec.ofCountable (ZMod 5 × ZMod 5)) "u"
      (additiveDLog_documented 5) (le_refl 1) (show 1 ≤ 2 by decide) 0 0
  exact absurd ((hbinds 0 0 c ops _ _ hex hproofs hscalars).1 2 (by decide) le_rfl) (by decide)

end TssCli
