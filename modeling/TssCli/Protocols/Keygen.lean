import TssCli.Common.Schedule
import TssCli.Lib.Sharing
import TssCli.Protocols.ChainCode
import TssCli.Protocols.Sealed

/-!
# The rounds of a key generation

Both key generations run five rounds after the one for the chain code: they
commit to a public contribution, reveal it, deal encrypted shares of the secret
behind it, post the commitments of the dealing, and post a proof about the share
that results.  They differ in the library they call and in how they keep the
keys for the third round.

`KeygenCalls` is what one party takes from its library, with what it has drawn.
`keygenRounds` is the code they share.  `HonestCalls` says what the calls of
honest parties return, and `keygenRounds_plays` what the rounds come to then.
-/

namespace TssCli

open Mailbox Mailbox.Script Polynomial Sharing

/-! ## Verifiable secret sharing -/

/-- `VerifiableSS`, with its parameters. -/
structure Vss (G : Type) where
  threshold : Nat
  shareCount : Nat
  commitments : List G
deriving DecidableEq

/-- `Parameters`. -/
structure Parameters where
  threshold : Nat
  shareCount : Nat

section

variable {F G : Type} [Field F] [AddCommGroup G] [Module F G]

/-- A dealing of `secret` by the polynomial `p` to the given points. -/
structure Deals (g : G) (t n : Nat) (secret : F) (points : List Nat) (vss : Vss G)
    (shares : List F) (p : F[X]) : Prop where
  degree : p.natDegree ≤ t
  secret : p.eval 0 = secret
  vss : vss = { threshold := t, shareCount := n, commitments := commit g t p }
  shares : shares = points.map fun i : Nat => p.eval (i : F)

/-- `validate_share(..).is_ok()`, and the first commitment is to `y`. -/
def ValidShare (g : G) (vss : Vss G) (index : Nat) (y : G) (share : F) : Prop :=
  vss.commitments.head? = some y ∧ share • g = evalCommit vss.commitments (index : F)

/-- A share that was dealt is valid. -/
theorem Deals.validShare {g : G} {t n : Nat} {secret : F} {points : List Nat} {vss : Vss G}
    {shares : List F} {p : F[X]} (h : Deals g t n secret points vss shares p) (i : Nat) :
    ValidShare g vss i (secret • g) (p.eval (i : F)) := by
  rw [ValidShare, h.vss, ← h.secret, evalCommit_commit h.degree]
  exact ⟨commit_head, rfl⟩

variable {g : G} {t n : Nat} {l : List Nat} {secret : Nat → F} {vss : Nat → Vss G}
  {poly : Nat → F[X]} {points : Nat → List Nat} {shares : Nat → List F}

/-- The commitments of dealings add up to those of the joint polynomial. -/
theorem sum_evalCommit
    (h : ∀ j, Deals g t n (secret j) (points j) (vss j) (shares j) (poly j)) (x : F) :
    ((l.map vss).map fun vss => evalCommit vss.commitments x).sum =
      (l.map poly).sum.eval x • g := by
  induction l with
  | nil => simp
  | cons j l ih =>
      simp only [List.map_cons, List.sum_cons, eval_add, add_smul, ih]
      rw [(h j).vss, evalCommit_commit (h j).degree]

/-- The public contributions add up to the one of the joint polynomial. -/
theorem sum_secrets
    (h : ∀ j, Deals g t n (secret j) (points j) (vss j) (shares j) (poly j)) :
    (l.map fun j => secret j • g).sum = (l.map poly).sum.eval 0 • g := by
  induction l with
  | nil => simp
  | cons j l ih => simp only [List.map_cons, List.sum_cons, eval_add, add_smul, ih, (h j).secret]

end

/-! ## The code -/

/-- What one party takes from its library, with what it has drawn. -/
structure KeygenCalls (F G Bc Decom Kept EncKey Shared Proof : Type) where
  bcI : Bc
  decomI : Decom
  /-- The public contribution in a decommitment. -/
  yI : Decom → G
  /-- What is kept of a decommitment to verify it. -/
  kept : Decom → Kept
  /-- The key for the party of a decommitment. -/
  encKey : Decom → Except Panic EncKey
  keyBytes : EncKey → List UInt8
  distribute : List Kept → List G → List Bc → Except Panic (Vss G × List F)
  construct : List G → List F → List (Vss G) → Except Panic (Shared × Proof)
  verify : List Proof → List G → Except Panic Unit

/-- The JSON of the messages. -/
structure KeygenJson (G Bc Decom Proof : Type) where
  bc : Codec Bc
  decom : Codec Decom
  pack : Codec AeadPack
  vss : Codec (Vss G)
  proof : Codec Proof

/-- The vectors that are built from the second round. -/
structure Collected (G Kept EncKey : Type) where
  pointVec : List G
  keptVec : List Kept
  encKeys : List EncKey

/-- What the rounds come to. -/
structure KeygenOutput (G Bc Shared : Type) where
  sharedKeys : Shared
  vssSchemeVec : List (Vss G)
  bc1Vec : List Bc
  ySum : G

section

variable {F G Bc Decom Kept EncKey Shared Proof : Type} (curve : Curve F G) (aes : AesGcm)
  (json : KeygenJson G Bc Decom Proof) (calls : KeygenCalls F G Bc Decom Kept EncKey Shared Proof)
  (me n : Nat)

/-- The loop over the decommitments. -/
def collectDecoms (answers : List String) : Except Panic (Collected G Kept EncKey) :=
  walk answers me n
    (fun c _ => pure
      { c with
        pointVec := c.pointVec ++ [calls.yI calls.decomI]
        keptVec := c.keptVec ++ [calls.kept calls.decomI] })
    (fun c _ text => do
      let decomJ ← json.decom.read text
      let key ← calls.encKey decomJ
      return { pointVec := c.pointVec ++ [calls.yI decomJ],
               keptVec := c.keptVec ++ [calls.kept decomJ],
               encKeys := c.encKeys ++ [key] })
    { pointVec := [], keptVec := [], encKeys := [] }

/-- Rounds 1 to 5, with the nonces drawn for the others' shares. -/
def keygenRounds [Add G] (uuid : String) (nonce : Nat → Nonce) :
    Client (KeygenOutput G Bc Shared) := do
  -- Commitments to the contributions.
  let round1AnsVec ← readRound me n uuid round1 (json.bc.encode calls.bcI)
  let bc1Vec ← insertOwn json.bc round1AnsVec me calls.bcI
  -- The contributions, and the keys for the shares.
  let round2AnsVec ← readRound me n uuid round2 (json.decom.encode calls.decomI)
  let c ← collectDecoms json calls me n round2AnsVec
  let ySum ← sumVec c.pointVec
  let dealt ← calls.distribute c.keptVec c.pointVec bc1Vec
  -- The shares.
  sendShares curve aes json.pack calls.keyBytes me n round3 uuid c.encKeys dealt.2 nonce
  let round3AnsVec ← pollForP2p me n round3 uuid
  let partyShares ← readShares curve aes json.pack calls.keyBytes me n c.encKeys dealt.2
    round3AnsVec
  -- The commitments of the dealings.
  let round4AnsVec ← readRound me n uuid round4 (json.vss.encode dealt.1)
  let vssSchemeVec ← rebuild json.vss me n dealt.1 round4AnsVec
  let constructed ← calls.construct c.pointVec partyShares vssSchemeVec
  -- The proofs.
  let round5AnsVec ← readRound me n uuid round5 (json.proof.encode constructed.2)
  let dlogProofVec ← rebuild json.proof me n constructed.2 round5AnsVec
  calls.verify dlogProofVec c.pointVec
  return { sharedKeys := constructed.1, vssSchemeVec, bc1Vec, ySum }

end

/-! ## Honest parties -/

section

variable {F G Bc Decom Kept EncKey Shared Proof : Type} [Field F] [AddCommGroup G] [Module F G]

/-- The values of an honest key generation, party by party. -/
structure KeygenValues (F G EncKey Shared Proof : Type) [Field F] where
  secret : Nat → F
  /-- The key of the first party for the second. -/
  encKey : Nat → Nat → EncKey
  poly : Nat → F[X]
  vss : Nat → Vss G
  shared : Nat → Shared
  proof : Nat → Proof

/-- What the library returns to honest parties. -/
structure HonestCalls (curve : Curve F G) (excused : Panic → Prop) (t n : Nat)
    (calls : Nat → KeygenCalls F G Bc Decom Kept EncKey Shared Proof)
    (v : KeygenValues F G EncKey Shared Proof) : Prop where
  yI : ∀ i j, (calls i).yI (calls j).decomI = v.secret j • curve.generator
  encKey : ∀ i j, 1 ≤ i → i ≤ n → j ∈ others i n →
    (calls i).encKey (calls j).decomI = .ok (v.encKey i j)
  keyBytes : ∀ i j, (calls i).keyBytes (v.encKey i j) = (calls j).keyBytes (v.encKey j i)
  keyLength : ∀ i j, 1 ≤ i → i ≤ n → j ∈ others i n →
    ((calls i).keyBytes (v.encKey i j)).length = 32 ∨ excused .assertFailed
  deals : ∀ i, Deals curve.generator t n (v.secret i) (List.range' 1 n) (v.vss i)
    ((List.range' 1 n).map fun j : Nat => (v.poly i).eval (j : F)) (v.poly i)
  distribute : ∀ i, 1 ≤ i → i ≤ n →
    (calls i).distribute ((List.range' 1 n).map fun j => (calls i).kept (calls j).decomI)
      ((List.range' 1 n).map fun j => v.secret j • curve.generator)
      ((List.range' 1 n).map fun j => (calls j).bcI) =
    .ok (v.vss i, (List.range' 1 n).map fun j : Nat => (v.poly i).eval (j : F))
  construct : ∀ i, 1 ≤ i → i ≤ n →
    (calls i).construct ((List.range' 1 n).map fun j => v.secret j • curve.generator)
      ((List.range' 1 n).map fun j => (v.poly j).eval (i : F)) ((List.range' 1 n).map v.vss) =
    .ok (v.shared i, v.proof i)
  verify : ∀ i, 1 ≤ i → i ≤ n →
    (calls i).verify ((List.range' 1 n).map v.proof)
      ((List.range' 1 n).map fun j => v.secret j • curve.generator) = .ok ()

/-- More is excused. -/
theorem HonestCalls.excuse {curve : Curve F G} {excused excused' : Panic → Prop} {t n : Nat}
    {calls : Nat → KeygenCalls F G Bc Decom Kept EncKey Shared Proof}
    {v : KeygenValues F G EncKey Shared Proof} (he : ∀ e, excused e → excused' e)
    (h : HonestCalls curve excused t n calls v) : HonestCalls curve excused' t n calls v :=
  { h with keyLength := fun i j h₁ hn hj => (h.keyLength i j h₁ hn hj).imp_right (he _) }

/-- The five rounds of honest parties. -/
def keygenTexts (curve : Curve F G) (aes : AesGcm) (json : KeygenJson G Bc Decom Proof)
    (calls : Nat → KeygenCalls F G Bc Decom Kept EncKey Shared Proof)
    (v : KeygenValues F G EncKey Shared Proof) (nonce : Nat → Nat → Nonce) :
    List (Round × RoundTexts) :=
  [(round1, .toAll fun i => json.bc.encode (calls i).bcI),
   (round2, .toAll fun i => json.decom.encode (calls i).decomI),
   (round3, .toOne fun i j => packetText curve aes json.pack ((calls i).keyBytes (v.encKey i j))
      ((v.poly i).eval (j : F)) (nonce i j)),
   (round4, .toAll fun i => json.vss.encode (v.vss i)),
   (round5, .toAll fun i => json.proof.encode (v.proof i))]

variable {curve : Curve F G} {aes : AesGcm} {json : KeygenJson G Bc Decom Proof}
  {calls : Nat → KeygenCalls F G Bc Decom Kept EncKey Shared Proof}
  {v : KeygenValues F G EncKey Shared Proof} {excused : Panic → Prop} {t n me : Nat}

/-- The vectors of the second round are in the order of the numbers, the keys
without the own one. -/
theorem collectDecoms_eq {secret : Nat → F} {encKey : Nat → EncKey}
    (hyI : ∀ i, (calls me).yI (calls i).decomI = secret i • curve.generator)
    (hkey : ∀ i ∈ others me n, (calls me).encKey (calls i).decomI = .ok (encKey i)) :
    collectDecoms json (calls me) me n
        ((others me n).map fun i => json.decom.encode (calls i).decomI) =
      .ok { pointVec := (List.range' 1 n).map fun i => secret i • curve.generator,
            keptVec := (List.range' 1 n).map fun i => (calls me).kept (calls i).decomI,
            encKeys := (others me n).map encKey } := by
  have loop : ∀ (l : List Nat) (c : Collected G Kept EncKey), (∀ i ∈ l, i ∈ List.range' 1 n) →
      l.foldlM (fun c i => if i = me then pure
          { c with
            pointVec := c.pointVec ++ [(calls me).yI (calls me).decomI]
            keptVec := c.keptVec ++ [(calls me).kept (calls me).decomI] }
        else do
          let decomJ ← json.decom.read (json.decom.encode (calls i).decomI)
          let key ← (calls me).encKey decomJ
          return { pointVec := c.pointVec ++ [(calls me).yI decomJ],
                   keptVec := c.keptVec ++ [(calls me).kept decomJ],
                   encKeys := c.encKeys ++ [key] }) c =
        (.ok { pointVec := c.pointVec ++ l.map fun i => secret i • curve.generator,
               keptVec := c.keptVec ++ l.map fun i => (calls me).kept (calls i).decomI,
               encKeys := c.encKeys ++ (l.filter (· ≠ me)).map encKey } :
          Except Panic (Collected G Kept EncKey)) := by
    intro l
    induction l with
    | nil => intro c _; simp; rfl
    | cons i l ih =>
        intro c hl
        rw [List.foldlM_cons]
        by_cases hi : i = me
        · rw [if_pos hi, pure_bind, ih _ fun j hj => hl j (List.mem_cons_of_mem _ hj)]
          simp [hi, hyI]
        · have hmem : i ∈ others me n :=
            List.mem_filter.mpr ⟨hl i (List.mem_cons_self ..), decide_eq_true hi⟩
          rw [if_neg hi, Codec.read_encode, except_ok_bind, hkey i hmem, except_ok_bind, pure_bind,
            ih _ fun j hj => hl j (List.mem_cons_of_mem _ hj)]
          simp [hi, hyI]
  rw [collectDecoms, walk_eq]
  exact loop _ _ fun _ hi => hi

/-- What the rounds come to at an honest party. -/
def keygenOutput (curve : Curve F G)
    (calls : Nat → KeygenCalls F G Bc Decom Kept EncKey Shared Proof)
    (v : KeygenValues F G EncKey Shared Proof) (n me : Nat) : KeygenOutput G Bc Shared where
  sharedKeys := v.shared me
  vssSchemeVec := (List.range' 1 n).map v.vss
  bc1Vec := (List.range' 1 n).map fun i => (calls i).bcI
  ySum := ((List.range' 1 n).map fun i => v.secret i • curve.generator).sum

/-- Honest parties play their part in the rounds, wherever these stand in the
schedule. -/
theorem keygenRounds_plays (hcurve : curve.Documented) (haes : aes.Documented)
    (h : HonestCalls curve excused t n calls v) {nonce : Nat → Nat → Nonce} {s : Schedule}
    {m : Nat} (hparties : s.parties = n)
    (hrounds : ∀ k e, (keygenTexts curve aes json calls v nonce)[k]? = some e →
      s.rounds[m + k]? = some e)
    (h₁ : 1 ≤ me) (hn : me ≤ n) :
    Plays s.mail s.rank excused (Owes s.mail me) m
      (keygenRounds curve aes json (calls me) me n s.uuid (nonce me)) (m + 5)
      (keygenOutput curve calls v n me) := by
  subst hparties
  have r₁ := s.toAll (hrounds 0 _ rfl)
  have r₂ := s.toAll (hrounds 1 _ rfl)
  have r₃ := s.toOne (hrounds 2 _ rfl)
  have r₄ := s.toAll (hrounds 3 _ rfl)
  have r₅ := s.toAll (hrounds 4 _ rfl)
  have hpoints : (List.range' 1 s.parties).map (fun i => v.secret i • curve.generator) ≠ [] := by
    rw [Ne, List.map_eq_nil_iff, List.range'_eq_nil_iff]
    omega
  unfold keygenRounds
  refine (r₁.readRound h₁ hn).bind ?_
  rw [insertOwn_eq (fun i => (calls i).bcI) h₁ hn, lift_ok, pure_bind]
  refine (r₂.readRound h₁ hn).bind ?_
  rw [collectDecoms_eq (h.yI me) (h.encKey me · h₁ hn), lift_ok, pure_bind, sumVec_eq hpoints,
    lift_ok, pure_bind, h.distribute me h₁ hn, lift_ok, pure_bind, sendShares_eq]
  refine (sendLoop_plays hcurve haes r₃ h₁ hn (fun _ _ => rfl) (h.keyLength me · h₁ hn)).bind₂ ?_
  rw [readShares_eq h₁ hn]
  refine (readLoop_tracks (fun i => (v.poly i).eval (me : F)) (fun i => nonce i me) hcurve haes
    (fun i hi => ?_)
    (h.keyLength me · h₁ hn)).plays.bind ?_
  · rw [h.keyBytes me i]
  have hshares : (List.range' 1 s.parties).map (fun i =>
      if i = me then (v.poly me).eval (me : F) else (v.poly i).eval (me : F)) =
      (List.range' 1 s.parties).map fun i => (v.poly i).eval (me : F) :=
    List.map_congr_left fun i _ => ite_eq_right_iff.mpr fun hi => by rw [hi]
  rw [hshares]
  refine (r₄.readRound h₁ hn).bind ?_
  rw [rebuild_eq v.vss, lift_ok, pure_bind, h.construct me h₁ hn, lift_ok, pure_bind]
  refine (r₅.readRound h₁ hn).bind ?_
  rw [rebuild_eq v.proof, lift_ok, pure_bind, h.verify me h₁ hn]
  exact .pure

end

/-! ## The schedule of a key generation -/

section

variable {F G Bc Decom Kept EncKey Shared : Type} [Field F] [AddCommGroup G] [Module F G]
  {dlog : DLog F G}

/-- The seven rounds of a key generation of honest parties. -/
def keygenSchedule (curve : Curve F G) (aes : AesGcm) (scalarJson : Codec F)
    (json : KeygenJson G Bc Decom dlog.Proof)
    (calls : Nat → KeygenCalls F G Bc Decom Kept EncKey Shared dlog.Proof)
    (v : KeygenValues F G EncKey Shared dlog.Proof) (chainCode chainNonce : Nat → F)
    (nonce : Nat → Nat → Nonce) (n : Nat) (uuid : String) : Schedule where
  uuid := uuid
  parties := n
  rounds :=
    (round0ChainCode, .toAll fun i => json.proof.encode (dlog.prove (chainCode i) (chainNonce i))) ::
    (round1ChainCode, .toAll fun i => scalarJson.encode (chainCode i)) ::
    keygenTexts curve aes json calls v nonce
  nodup := by
    simp [Round.ext_iff, keygenTexts, round0ChainCode, round1ChainCode, round1, round2, round3,
      round4, round5]

variable {curve : Curve F G} {aes : AesGcm} {scalarJson : Codec F}
  {json : KeygenJson G Bc Decom dlog.Proof}
  {calls : Nat → KeygenCalls F G Bc Decom Kept EncKey Shared dlog.Proof}
  {v : KeygenValues F G EncKey Shared dlog.Proof} {chainCode chainNonce : Nat → F}
  {nonce : Nat → Nat → Nonce} {excused : Panic → Prop} {t n me : Nat} {uuid : String} {α : Type}

/-- A party that makes its file from the chain code and the output of the rounds
plays its part in the schedule. -/
theorem keygen_plays (hcurve : curve.Documented) (haes : aes.Documented)
    (hdlog : dlog.Documented curve.generator) (h : HonestCalls curve excused t n calls v)
    (h₁ : 1 ≤ me) (hn : me ≤ n) {file : F → KeygenOutput G Bc Shared → Client α} {a : α}
    (hfile : file ((List.range' 1 n).map chainCode).sum (keygenOutput curve calls v n me) =
      pure a) :
    Plays
      (keygenSchedule curve aes scalarJson json calls v chainCode chainNonce nonce n uuid).mail
      (keygenSchedule curve aes scalarJson json calls v chainCode chainNonce nonce n uuid).rank
      excused
      (Owes
        (keygenSchedule curve aes scalarJson json calls v chainCode chainNonce nonce n uuid).mail me)
      0
      (do
        let c ← generateSharedChainCode dlog scalarJson json.proof me n uuid n (chainCode me)
          (chainNonce me)
        let out ← keygenRounds curve aes json (calls me) me n uuid (nonce me)
        file c out)
      7 a := by
  let s := keygenSchedule curve aes scalarJson json calls v chainCode chainNonce nonce n uuid
  have r₀ := s.toAll (k := 0) rfl
  have r₁ := s.toAll (k := 1) rfl
  refine (generateSharedChainCode_plays _ r₀ r₁ rfl (fun i => hdlog.verify_prove _ _) h₁ hn).bind ?_
  refine (keygenRounds_plays (s := s) (m := 2) hcurve haes h rfl (fun k e hk => ?_) h₁ hn).bind ?_
  · rw [Nat.add_comm]
    exact hk
  · exact hfile ▸ .pure

end

end TssCli
