import TssCli.Protocols.Additive
import TssCli.Protocols.KeygenAgreement

/-!
# Tweaked shares

The signers of one room hold shares of one secret, from an honest key generation,
and any `t + 1` parties may be signers, in any order.  At a path every signer adds
the tweak to its share, and to the first commitment of the first party goes the
tweak times the generator.  A constant added to all shares of a polynomial is the
constant added to the polynomial, whether the first party signs or not, so the
shares and the commitments go on to match (`gWI_eq`), and the weighted shares add
up to the child key.
-/

namespace TssCli

open Mailbox Mailbox.Script Polynomial Sharing

namespace Ecdsa

/-! ## What the signers hold -/

section

variable {F G : Type} [Field F] [AddCommGroup G] [Module F G] {lib : Gg18 F G}

/-- The key files of signers `1` to `m`, with party ids `id`: shares of the secret
`p.eval 0`, with one public key, one chain code, one vector of commitments, and
everybody's encryption key. -/
structure HoldShares (curve : Curve F G) (t n m : Nat) (id : Nat → Nat) (file : Nat → KeyFile lib)
    (p : F[X]) (vssVec : List (Vss G)) (chainCode : F) : Prop where
  degree : p.natDegree ≤ t
  length : vssVec.length = n
  dealt : ∀ vss ∈ vssVec, vss.commitments.length = t + 1
  commitments : ∀ x : F, (vssVec.map fun vss => evalCommit vss.commitments x).sum =
    p.eval x • curve.generator
  created : ∀ k, 1 ≤ k → k ≤ m → ∃ i seed, (file k).partyKeys = lib.create i seed
  ySum : ∀ k, 1 ≤ k → k ≤ m → (file k).ySum = p.eval 0 • curve.generator
  xI : ∀ k, 1 ≤ k → k ≤ m → lib.xI (file k).sharedKeys = p.eval (id k : F)
  chainCode : ∀ k, 1 ≤ k → k ≤ m → (file k).chainCode = chainCode
  vssSchemeVec : ∀ k, 1 ≤ k → k ≤ m → (file k).vssSchemeVec = vssVec
  paillierKeyVec : ∀ k j, 1 ≤ k → k ≤ m → 1 ≤ j → j ≤ m → ∃ seed,
    index (file k).paillierKeyVec (id j - 1) =
      .ok (lib.e (lib.phase1Broadcast (file j).partyKeys seed).1)
  partyNumInt : ∀ k, 1 ≤ k → k ≤ m → (file k).partyNumInt = id k

variable {curve : Curve F G} {aes : AesGcm} {excused : Panic → Prop} {t n m : Nat} {id : Nat → Nat}

/-- The parties of an honest key generation hold shares. -/
theorem holdShares {draws : Nat → Draws F lib.Seed}
    {v : KeygenValues F G Nat lib.SharedKeys lib.dlog.Proof}
    (h : HonestCalls curve excused t n (fun i => calls curve t n i (draws i)) v)
    (hxI : ∀ i, lib.xI (v.shared i) =
      ((List.range' 1 n).map fun j => (v.poly j).eval (i : F)).sum)
    {file : Nat → KeyFile lib} (hid : ∀ k, 1 ≤ k → k ≤ m → 1 ≤ id k ∧ id k ≤ n)
    (hfile : ∀ k, 1 ≤ k → k ≤ m → file k = honestFile curve t n draws v (id k)) :
    HoldShares curve t n m id file ((List.range' 1 n).map v.poly).sum ((List.range' 1 n).map v.vss)
      ((List.range' 1 n).map fun j => (draws j).chainCode).sum where
  degree := natDegree_sum_map fun j => (h.deals j).degree
  length := by simp
  dealt vss hvss := by
    obtain ⟨j, _, rfl⟩ := List.mem_map.mp hvss
    rw [(h.deals j).vss]
    exact length_commit
  commitments := sum_evalCommit h.deals
  created k h₁ hk := ⟨_, _, by rw [hfile k h₁ hk]; rfl⟩
  ySum k h₁ hk := by
    rw [hfile k h₁ hk]
    exact sum_secrets h.deals
  xI k h₁ hk := by
    rw [hfile k h₁ hk, eval_listSum, List.map_map]
    exact hxI (id k)
  chainCode k h₁ hk := by rw [hfile k h₁ hk]; rfl
  vssSchemeVec k h₁ hk := by rw [hfile k h₁ hk]; rfl
  paillierKeyVec k j h₁ hk hj₁ hj := by
    rw [hfile k h₁ hk, hfile j hj₁ hj]
    exact ⟨_, index_range' (fun j => lib.e (calls curve t n j (draws j)).bcI) (hid j hj₁ hj).1
      (hid j hj₁ hj).2⟩
  partyNumInt k h₁ hk := by rw [hfile k h₁ hk]; rfl

variable (curve aes) in
/-- Signers `1` to `m` have the key files of the parties `id` of some run of honest
key generations. -/
def Written (json : Json lib) (t n m : Nat) (id : Nat → Nat) (file : Nat → KeyFile lib) : Prop :=
  ∃ (draws : Nat → Draws F lib.Seed) (uuid : String) (store : Key → Option String)
    (net : Net (Fin n) Key String Panic (KeyFile lib))
    (tr : List (NetEvent (Fin n) Key String Panic)),
    Unused uuid store ∧
    NetRun (sessionNet n store fun i => runKeygen curve aes t n i (draws i) json uuid) net tr ∧
    (∀ e ∈ tr, KeepsOut uuid e) ∧
    ∀ k, 1 ≤ k → k ≤ m → ∃ i, number i = id k ∧ net.scripts i = .ret (file k)

variable {json : Json lib} {file : Nat → KeyFile lib}

theorem Written.bound (h : Written curve aes json t n m id file) {k : Nat} (h₁ : 1 ≤ k)
    (hk : k ≤ m) : 1 ≤ id k ∧ id k ≤ n := by
  obtain ⟨_, _, _, _, _, _, _, _, hfile⟩ := h
  obtain ⟨i, hi, _⟩ := hfile k h₁ hk
  rw [← hi]
  exact ⟨one_le_number i, number_le i⟩

/-- The files of a key generation that ends, and their public key. -/
theorem exists_written (hcurve : curve.Documented) (haes : aes.Documented)
    (hlib : lib.Documented curve.generator) (json : Json lib) (ht : t < n)
    (hdhX : ∀ a b : F, a ≠ 0 → b ≠ 0 → (toBytes (dhX curve a b)).length = 32)
    (draws : Nat → Draws F lib.Seed) (id : Nat → Nat)
    (hid : ∀ k, 1 ≤ k → k ≤ m → 1 ≤ id k ∧ id k ≤ n) :
    ∃ file, Written curve aes json t n m id file ∧ ∀ k, (file k).ySum =
      ((List.range' 1 n).map fun j => lib.uI (partyKeys j (draws j)) • curve.generator).sum := by
  obtain ⟨file, hreturn, hySum⟩ := runKeygen_allReturn hcurve haes hlib json ht hdhX draws "u"
  obtain ⟨net, tr, hrun, hout, hall⟩ := hreturn.exists_run hid
  exact ⟨fun k => file (id k), ⟨draws, "u", _, net, tr, fun _ _ => rfl, hrun, hout, hall⟩,
    fun k => hySum (id k)⟩

theorem Written.holdShares (hcurve : curve.Documented) (haes : aes.Documented)
    (hlib : lib.Documented curve.generator) (ht : t < n)
    (h : Written curve aes json t n m id file) :
    ∃ p vssVec chainCode, HoldShares curve t n m id file p vssVec chainCode := by
  have hid := fun k (h₁ : 1 ≤ k) hk => h.bound h₁ hk
  obtain ⟨draws, uuid, store, net, tr, hstore, hrun, hout, hfile⟩ := h
  obtain ⟨v, h, hxI⟩ := honestCalls (fun _ => True) hcurve hlib ht draws
    fun _ _ _ => Or.inr trivial
  have hon := session_onTrack (fun i => runKeygen_plays hcurve haes hlib h) hstore hrun hout
    fun e _ => givesUp_any e
  refine ⟨_, _, _, Ecdsa.holdShares h hxI hid fun k h₁ hk => ?_⟩
  obtain ⟨i, hi, hret⟩ := hfile k h₁ hk
  rw [← hi]
  exact hon.returned hret

end

/-! ## Schemes at a path -/

section

variable {F G : Type} [Field F] [AddCommGroup G] [Module F G] {curve : Curve F G}

omit [AddCommGroup G] in
theorem nextUnchanged_eq : ∀ l : List G, nextUnchanged l.length l = .ok l
  | [] => rfl
  | c :: rest => by
      rw [List.length_cons, nextUnchanged, nextUnchanged_eq rest]
      rfl

/-- The commitments at the path: the tweak is in the first one. -/
def addTweak (curve : Curve F G) (f : F) : List (Vss G) → List (Vss G)
  | { threshold, shareCount, commitments := c :: cs } :: rest =>
      { threshold, shareCount, commitments := (c + f • curve.generator) :: cs } :: rest
  | vssVec => vssVec

/-- Only the first commitment of the first scheme changes. -/
theorem tweakVss_eq {t : Nat} (f : F) : ∀ {vssVec : List (Vss G)}, 2 ≤ vssVec.length →
    (∀ vss ∈ vssVec, vss.commitments.length = t + 1) →
    tweakVss curve vssVec f = .ok (addTweak curve f vssVec)
  | [], hlength, _ => absurd hlength (by simp)
  | [_], hlength, _ => absurd hlength (by simp)
  | { threshold, shareCount, commitments } :: next :: rest, _, hdealt => by
      have hleader : commitments.length = t + 1 := hdealt _ (List.mem_cons_self ..)
      have hnext : next.commitments.length = t + 1 :=
        hdealt _ (List.mem_cons_of_mem _ (List.mem_cons_self ..))
      cases commitments with
      | nil => cases hleader
      | cons c cs =>
          obtain rfl : t = cs.length := (Nat.succ.inj hleader).symm
          simp only [tweakVss, index, List.getElem?_cons_zero, List.getElem?_cons_succ,
            except_ok_bind, hnext, List.tail_cons, comVecNew, nextUnchanged_eq]
          rfl

theorem sum_addTweak {f : F} : ∀ {vssVec : List (Vss G)}, vssVec ≠ [] →
    (∀ vss ∈ vssVec, vss.commitments ≠ []) → ∀ x : F,
    ((addTweak curve f vssVec).map fun vss => evalCommit vss.commitments x).sum =
      (vssVec.map fun vss => evalCommit vss.commitments x).sum + f • curve.generator
  | [], hne, _, _ => absurd rfl hne
  | { threshold, shareCount, commitments } :: rest, _, hdealt, x => by
      cases commitments with
      | nil => exact absurd rfl (hdealt _ (List.mem_cons_self ..))
      | cons c cs =>
          simp only [addTweak, List.map_cons, List.sum_cons, evalCommit_add_head]
          abel

theorem length_addTweak {f : F} : ∀ vssVec : List (Vss G),
    (addTweak curve f vssVec).length = vssVec.length
  | [] => rfl
  | { threshold, shareCount, commitments } :: rest => by cases commitments <;> rfl

end

/-! ## Shares at a path -/

/-- The indices of signers `1` to `m`. -/
def indices (m : Nat) (id : Nat → Nat) : List Nat := (List.range' 1 m).map fun k => id k - 1

section

variable {F G : Type} [Field F] [AddCommGroup G] [Module F G] {lib : Gg18 F G}
  {signer : Gg18Signer lib} {curve : Curve F G} {t n : Nat} {id : Nat → Nat}
  {file : Nat → KeyFile lib} {p : F[X]} {vssVec : List (Vss G)} {chainCode f : F}
  {signAtPath : Bool}

/-- The weighted share of signer `k`, with the tweak. -/
noncomputable def weightedShare (t : Nat) (id : Nat → Nat) (p : F[X]) (f : F) (k : Nat) : F :=
  weight (indices (t + 1) id).toFinset (point F) (id k - 1) * (p.eval (id k : F) + f)

/-- The schemes of all signers, at the path or at the root. -/
def schemesAt (curve : Curve F G) (f : F) (signAtPath : Bool) (vssVec : List (Vss G)) :
    List (Vss G) :=
  if signAtPath then addTweak curve f vssVec else vssVec

/-- The ids of signers, as the key generation gives them out. -/
structure Signers (t n : Nat) (id : Nat → Nat) : Prop where
  injOn : Set.InjOn id (Set.Icc 1 (t + 1))
  bound : ∀ k, 1 ≤ k → k ≤ t + 1 → 1 ≤ id k ∧ id k ≤ n
  lt : n < 2 ^ 16

theorem Signers.nodup (h : Signers t n id) : (indices (t + 1) id).Nodup := by
  have hrange : (List.range' 1 (t + 1)).Nodup := List.nodup_range'
  refine hrange.map_on fun i hi j hj hij => ?_
  have hi := List.mem_range'_1.mp hi
  have hj := List.mem_range'_1.mp hj
  have hi₁ := (h.bound i hi.1 (by omega)).1
  have hj₁ := (h.bound j hj.1 (by omega)).1
  exact h.injOn ⟨hi.1, by omega⟩ ⟨hj.1, by omega⟩ (by omega)

theorem mem_indices {m k : Nat} (h₁ : 1 ≤ k) (hk : k ≤ m) : id k - 1 ∈ indices m id :=
  List.mem_map.mpr ⟨k, List.mem_range'_1.mpr ⟨h₁, by omega⟩, rfl⟩

theorem Signers.point_eq (h : Signers t n id) {k : Nat} (h₁ : 1 ≤ k) (hk : k ≤ t + 1) :
    point F (id k - 1) = (id k : F) := by
  rw [point, Nat.sub_add_cancel (h.bound k h₁ hk).1]

omit [Module F G] in
/-- The weighted shares add up to the secret with the tweak. -/
theorem Signers.sum_weightedShare (h : Signers t n id) (hcurve : curve.Documented)
    (hp : p.natDegree ≤ t) :
    ((List.range' 1 (t + 1)).map (weightedShare t id p f)).sum = p.eval 0 + f := by
  have hdegree : (p + C f).natDegree ≤ t :=
    (natDegree_add_le _ _).trans (max_le hp ((natDegree_C f).trans_le (Nat.zero_le t)))
  have hinj : Set.InjOn (point F) (indices (t + 1) id).toFinset := by
    intro i hi j hj hij
    have hlt : ∀ i ∈ (indices (t + 1) id).toFinset, i + 1 < 2 ^ 16 := by
      intro i hi
      obtain ⟨k, hk, rfl⟩ := List.mem_map.mp (List.mem_toFinset.mp hi)
      have hk := List.mem_range'_1.mp hk
      have := h.bound k hk.1 (by omega)
      have := h.lt
      omega
    exact Nat.succ.inj (hcurve.natCast_inj _ _ (hlt i hi) (hlt j hj) hij)
  have hcard : t < (indices (t + 1) id).toFinset.card := by
    rw [List.toFinset_card_of_nodup h.nodup]
    simp [indices]
  have hsum := sum_weight hinj hcard hdegree
  rw [List.sum_toFinset _ h.nodup, indices, List.map_map, eval_add, eval_C] at hsum
  rw [← hsum]
  refine congrArg List.sum (List.map_congr_left fun k hk => ?_)
  have hk := List.mem_range'_1.mp hk
  simp only [Function.comp_apply, weightedShare, indices, eval_add, eval_C]
  rw [h.point_eq hk.1 (by omega)]

section

variable (hold : HoldShares curve t n (t + 1) id file p vssVec chainCode) (ht : t < n)
  (ht₁ : 1 ≤ t)

include hold ht ht₁

theorem HoldShares.vssAt_eq {k : Nat} (h₁ : 1 ≤ k) (hk : k ≤ t + 1) :
    vssAt curve (file k) f signAtPath = .ok (schemesAt curve f signAtPath vssVec) := by
  have hlength := hold.length
  rw [vssAt, schemesAt, hold.vssSchemeVec k h₁ hk]
  cases signAtPath with
  | true => exact tweakVss_eq f (by omega) hold.dealt
  | false => rfl

end

theorem HoldShares.length_schemesAt (hold : HoldShares curve t n (t + 1) id file p vssVec chainCode) :
    (schemesAt curve f signAtPath vssVec).length = n := by
  unfold schemesAt
  split
  next => rw [length_addTweak, hold.length]
  next => exact hold.length

/-- The commitments at the path are to the polynomial with the tweak. -/
theorem HoldShares.sum_schemesAt (hold : HoldShares curve t n (t + 1) id file p vssVec chainCode)
    (ht : t < n) (hroot : signAtPath = false → f = 0) (x : F) :
    ((schemesAt curve f signAtPath vssVec).map fun vss => evalCommit vss.commitments x).sum =
      (p.eval x + f) • curve.generator := by
  have hne : vssVec ≠ [] := by
    rintro rfl
    have : 0 = n := hold.length
    omega
  rw [add_smul, ← hold.commitments]
  unfold schemesAt
  split
  next =>
    refine sum_addTweak hne (fun vss hvss hnil => ?_) x
    have := hold.dealt vss hvss
    rw [hnil] at this
    cases this
  next hpath => rw [hroot (by simpa using hpath), zero_smul, add_zero]

/-- The private key of a signer has its share with the tweak. -/
theorem HoldShares.xI_privateAt (hsigner : signer.Weighs curve.generator)
    (hold : HoldShares curve t n (t + 1) id file p vssVec chainCode)
    (hroot : signAtPath = false → f = 0) {k : Nat} (h₁ : 1 ≤ k) (hk : k ≤ t + 1) :
    signer.xI (privateAt signer (file k) k f signAtPath) = p.eval (id k : F) + f := by
  unfold privateAt
  split
  next =>
    split
    next => rw [hsigner.xI_updatePrivateKey, hsigner.xI_setPrivate, hold.xI k h₁ hk]
    next => rw [hsigner.xI_updatePrivateKey, hsigner.xI_setPrivate, hold.xI k h₁ hk]
  next hpath =>
    rw [hsigner.xI_setPrivate, hold.xI k h₁ hk, hroot (by simpa using hpath), add_zero]

theorem index_some {α : Type} {v : List α} {j : Nat} (h : j < v.length) :
    ∃ a, index v j = .ok a := ⟨_, index_of_lt h⟩

/-- A signer builds its weighted share. -/
theorem HoldShares.signKeysAt_eq (hsigner : signer.Weighs curve.generator)
    (hold : HoldShares curve t n (t + 1) id file p vssVec chainCode) (hs : Signers t n id)
    (hroot : signAtPath = false → f = 0) (seed : signer.Seed) {k : Nat} (h₁ : 1 ≤ k)
    (hk : k ≤ t + 1) :
    ∃ signKeys, signKeysAt (file k) (schemesAt curve f signAtPath vssVec) (indices (t + 1) id) k f
        signAtPath seed = .ok signKeys ∧
      signer.wI signKeys = weightedShare t id p f k := by
  have hbound := hs.bound k h₁ hk
  have hlt : id k - 1 < (schemesAt curve f signAtPath vssVec).length := by
    rw [hold.length_schemesAt]
    omega
  obtain ⟨vss, hvss⟩ := index_some hlt
  refine ⟨_, ?_, (hsigner.wI_create
    (privateAt signer (file k) k f signAtPath) vss _ _ seed hs.nodup (mem_indices h₁ hk)).trans ?_⟩
  · rw [signKeysAt, indices, index_range' (fun k => id k - 1) h₁ hk, except_ok_bind, hvss]
    rfl
  · rw [hold.xI_privateAt hsigner hroot h₁ hk]
    rfl

/-- All signers build their weighted shares. -/
theorem HoldShares.exists_signKeys (hsigner : signer.Weighs curve.generator)
    (hold : HoldShares curve t n (t + 1) id file p vssVec chainCode) (hs : Signers t n id)
    (hroot : signAtPath = false → f = 0) (seed : Nat → signer.Seed) :
    ∃ signKeys : Nat → signer.SignKeys, ∀ k, 1 ≤ k → k ≤ t + 1 →
      signKeysAt (file k) (schemesAt curve f signAtPath vssVec) (indices (t + 1) id) k f
        signAtPath (seed k) = .ok (signKeys k) ∧
      signer.wI (signKeys k) = weightedShare t id p f k := by
  have hkeys := fun k h₁ hk => hold.signKeysAt_eq hsigner hs hroot (seed k) (k := k) h₁ hk
  have : Nonempty signer.SignKeys := ⟨(hkeys 1 le_rfl (Nat.le_add_left 1 t)).choose⟩
  choose! signKeys hsignKeys using hkeys
  exact ⟨signKeys, hsignKeys⟩

/-- The others know its multiple of the generator. -/
theorem HoldShares.gWI_eq (hsigner : signer.Weighs curve.generator)
    (hold : HoldShares curve t n (t + 1) id file p vssVec chainCode) (hs : Signers t n id)
    (ht : t < n) (hroot : signAtPath = false → f = 0) {k : Nat} (h₁ : 1 ≤ k) (hk : k ≤ t + 1) :
    gWI signer (schemesAt curve f signAtPath vssVec) (indices (t + 1) id) k =
      .ok (weightedShare t id p f k • curve.generator) := by
  have hbound := hs.bound k h₁ hk
  have hlength : (schemesAt curve f signAtPath vssVec).length = n := hold.length_schemesAt
  have hlt : id k - 1 < (schemesAt curve f signAtPath vssVec).length := by omega
  obtain ⟨vss, hvss⟩ := index_some hlt
  have hcomm : index (signer.getCommitmentsToXi (schemesAt curve f signAtPath vssVec)) (id k - 1) =
      .ok ((p.eval (id k : F) + f) • curve.generator) := by
    rw [hsigner.getCommitmentsToXi _ (hlength ▸ hs.lt), hlength,
      index_range' _ hbound.1 hbound.2, hold.sum_schemesAt ht hroot]
  rw [gWI, indices, index_range' (fun k => id k - 1) h₁ hk]
  simp only [except_ok_bind, hcomm, hvss]
  show Except.ok (signer.updateCommitmentsToXi _ vss (id k - 1) (indices (t + 1) id)) = _
  rw [hsigner.updateCommitmentsToXi _ vss _ _ hs.nodup (mem_indices h₁ hk), smul_smul]
  rfl

end

/-! ## Joining a room -/

section

variable {F G : Type} {lib : Gg18 F G} {signer : Gg18Signer lib} {id : Nat → Nat} {m : Nat}

/-- Every signer collects the indices in the order of the numbers. -/
theorem collectSigners_eq (json : SignJson signer) (hid : ∀ k, 1 ≤ k → k ≤ m → 1 ≤ id k)
    {me : Nat} (h₁ : 1 ≤ me) (hm : me ≤ m) :
    collectSigners json me m (id me) ((others me m).map fun k => json.partyId.encode (id k)) =
      .ok (indices m id) := by
  have hindex : ∀ k, 1 ≤ k → k ≤ m → Eddsa.partyIndex (id k) = .ok (id k - 1) := fun k h₁ hk =>
    if_neg (Nat.one_le_iff_ne_zero.mp (hid k h₁ hk))
  rw [collectSigners, walk_eq, indices, ← List.nil_append (List.map _ _), ← foldl_push]
  refine foldlM_pure (fun v k => v ++ [id k - 1]) fun k hk v => ?_
  have hk := List.mem_range'_1.mp hk
  split
  next hme =>
    rw [hme, hindex me h₁ hm]
    rfl
  next =>
    rw [Codec.read_encode, except_ok_bind, hindex k hk.1 (by omega)]
    rfl

end

end Ecdsa

section

variable {F G : Type} [Field F] [AddCommGroup G] [Module F G] {curve : Curve F G} {aes : AesGcm}
  {hmac : Hmac} {lib : Gg18 F G} {signer : Gg18Signer lib} {t n : Nat} {id : Nat → Nat}
  {file : Nat → Ecdsa.KeyFile lib}

/-- At any path the signers tweak one commitment, and with it the point that is
computed for each signer is the multiple of the generator by the share that this
signer builds, so it is the point of its messages.  The shares are those of the
child key. -/
theorem tweaked_shares (hcurve : curve.Documented) (haes : aes.Documented)
    (hlib : lib.Documented curve.generator) (hsigner : signer.Weighs curve.generator)
    (keygenJson : Ecdsa.Json lib) (json : Ecdsa.SignJson signer) (ht₁ : 1 ≤ t) (ht : t < n)
    (hn : n < 2 ^ 16) (hid : Set.InjOn id (Set.Icc 1 (t + 1)))
    (hfile : Ecdsa.Written curve aes keygenJson t n (t + 1) id file) {path : String}
    (hpath : path ≠ "") {f : F} {child : G}
    (hkey : Ecdsa.keyAt curve hmac (file 1).chainCode (file 1).ySum path = .ok (f, child))
    (seed : Nat → signer.Seed) :
    ∃ (leader : Vss G) (c : G) (cs : List G) (rest : List (Vss G)) (signersVec : List Nat)
      (signKeys : Nat → signer.SignKeys),
      let vssVec := { leader with commitments := (c + f • curve.generator) :: cs } :: rest
      leader.commitments = c :: cs ∧
      (∀ k, 1 ≤ k → k ≤ t + 1 →
        Ecdsa.keyAt curve hmac (file k).chainCode (file k).ySum path = .ok (f, child) ∧
        Ecdsa.collectSigners json k (t + 1) (file k).partyNumInt
          ((others k (t + 1)).map fun j => json.partyId.encode (file j).partyNumInt) =
            .ok signersVec ∧
        (file k).vssSchemeVec = leader :: rest ∧
        Ecdsa.vssAt curve (file k) f (path ≠ "") = .ok vssVec ∧
        Ecdsa.signKeysAt (file k) vssVec signersVec k f (path ≠ "") (seed k) = .ok (signKeys k) ∧
        Ecdsa.gWI signer vssVec signersVec k = .ok (signer.wI (signKeys k) • curve.generator) ∧
        ∀ ek mA seed m beta, signer.messageB (signer.wI (signKeys k)) ek mA seed = .ok (m, beta) →
          Ecdsa.gWI signer vssVec signersVec k = .ok (lib.dlog.pk (signer.bProof m))) ∧
      ((List.range' 1 (t + 1)).map fun k => signer.wI (signKeys k) • curve.generator).sum =
        child := by
  obtain ⟨p, vssVec, chainCode, hold⟩ := hfile.holdShares hcurve haes hlib ht
  have hs : Ecdsa.Signers t n id := ⟨hid, fun k h₁ hk => hfile.bound h₁ hk, hn⟩
  have hone : 1 ≤ t + 1 := Nat.le_add_left 1 t
  have hroot : true = false → f = 0 := nofun
  simp only [decide_eq_true hpath]
  obtain ⟨signKeys, hsignKeys⟩ := hold.exists_signKeys hsigner hs hroot seed
  have hg := fun k h₁ hk => hold.gWI_eq hsigner hs ht hroot (k := k) h₁ hk
  have hvss : ∀ k, 1 ≤ k → k ≤ t + 1 → Ecdsa.vssAt curve (file k) f true = .ok _ :=
    fun k h₁ hk => hold.vssAt_eq ht ht₁ h₁ hk
  obtain ⟨⟨threshold, shareCount, commitments⟩, rest, rfl⟩ : ∃ leader rest, vssVec = leader :: rest :=
    List.exists_cons_of_length_pos (by rw [hold.length]; omega)
  obtain ⟨c, cs, rfl⟩ : ∃ c cs, commitments = c :: cs :=
    List.exists_cons_of_length_pos (by rw [hold.dealt _ (List.mem_cons_self ..)]; omega)
  refine ⟨⟨threshold, shareCount, c :: cs⟩, c, cs, rest, Ecdsa.indices (t + 1) id, signKeys, rfl,
    fun k h₁ hk => ⟨?_, ?_, hold.vssSchemeVec k h₁ hk, hvss k h₁ hk, (hsignKeys k h₁ hk).1, ?_,
      fun ek mA seed m beta hm => ?_⟩, ?_⟩
  · rw [hold.chainCode k h₁ hk, hold.ySum k h₁ hk, ← hold.chainCode 1 le_rfl hone,
      ← hold.ySum 1 le_rfl hone, hkey]
  · rw [hold.partyNumInt k h₁ hk, ← Ecdsa.collectSigners_eq json (fun k h₁ hk => (hs.bound k h₁ hk).1)
      h₁ hk]
    refine congrArg _ (List.map_congr_left fun j hj => ?_)
    rw [hold.partyNumInt j (mem_others.mp hj).1.1 (mem_others.mp hj).1.2]
  · rw [(hsignKeys k h₁ hk).2]
    exact hg k h₁ hk
  · rw [hsigner.pk_bProof _ _ _ _ _ _ hm, (hsignKeys k h₁ hk).2]
    exact hg k h₁ hk
  · have hsum := hs.sum_weightedShare (p := p) (f := f) hcurve hold.degree
    rw [(Ecdsa.keyAt_child hkey).1, hold.ySum 1 le_rfl hone, ← add_smul, ← hsum, List.sum_smul,
      List.map_map]
    refine congrArg List.sum (List.map_congr_left fun k hk => ?_)
    have hk := List.mem_range'_1.mp hk
    rw [(hsignKeys k hk.1 (by omega)).2]
    rfl

/-- The additive group has a key at every path of one step. -/
theorem foldedCurve_keyAt {p : Nat} [Fact p.Prime] (hmac : Hmac) (chainCode ySum : ZMod p) :
    ∃ key, Ecdsa.keyAt (foldedCurve p) hmac chainCode ySum "1" = .ok key := by
  obtain ⟨child, f, h⟩ : ∃ child f, getHdKey (foldedCurve p) hmac ySum "1"
      (chainCode • (foldedCurve p).generator) = .ok (child, f) := getHdKey_additive hmac ySum _
  rw [Ecdsa.keyAt, if_neg (by decide)]
  simp only [h, except_ok_bind]
  exact ⟨_, rfl⟩

/-- Parties `3` and `2` of three over the additive group have key files, with the public
key `3`. -/
theorem Ecdsa.exists_written_additive :
    ∃ file, Ecdsa.Written (foldedCurve 65537) xorAes (additiveKeygenJson 65537) 1 3 2
        (fun k => 4 - k) file ∧
      ∀ k, (file k).ySum = 3 := by
  obtain ⟨file, hfile, hySum⟩ := Ecdsa.exists_written (m := 2)
    (foldedCurve_documented (p := 65537) (by norm_num) (by norm_num)) xorAes_documented
    (additiveGg18_documented 65537) (additiveKeygenJson 65537) (show 1 < 3 by decide)
    (fun a b => length_foldedCurve_dhX (by norm_num))
    (fun _ => ⟨(1 : ZMod 65537), 1, 0, (0 : ZMod 65537), (2 : ZMod 65537), (0 : ZMod 65537),
      fun _ => List.Vector.replicate 12 0⟩)
    (fun k => 4 - k) (by intro k _ _; omega)
  have hone : nonzero 65537 1 • (foldedCurve 65537).generator = 1 := by
    rw [nonzero, if_neg one_ne_zero]
    rfl
  refine ⟨file, hfile, fun k => (hySum k).trans ?_⟩
  show ((List.range' 1 3).map fun _ => nonzero 65537 1 • (foldedCurve 65537).generator).sum = 3
  rw [hone]
  rfl

theorem injOn_four_sub : Set.InjOn (fun k => 4 - k) (Set.Icc 1 2) := by
  rintro i ⟨hi₁, hi₂⟩ j ⟨hj₁, hj₂⟩ hij
  simp only at hij
  omega

/-- Parties `3` and `2` of three over the additive group, in this order, at the path
`1`. -/
theorem tweaked_shares_additive :
    ∃ (file : Nat → Ecdsa.KeyFile (additiveGg18 65537)) (f child : ZMod 65537)
      (vssVec : List (Vss (ZMod 65537))) (signersVec : List Nat)
      (signKeys : Nat → AdditiveSignKeys 65537),
      Ecdsa.keyAt (foldedCurve 65537) (fun _ _ => List.replicate 64 1) (file 1).chainCode
        (file 1).ySum "1" = .ok (f, child) ∧
      (∀ k, 1 ≤ k → k ≤ 2 → Ecdsa.vssAt (foldedCurve 65537) (file k) f true = .ok vssVec ∧
        Ecdsa.gWI (additiveGg18Signer 65537) vssVec signersVec k = .ok (signKeys k).w) ∧
      (signKeys 1).w + (signKeys 2).w = child := by
  have hcurve := foldedCurve_documented (p := 65537) (by norm_num) (by norm_num)
  have hsigner := additiveGg18Signer_documented 65537
  obtain ⟨file, hfile, _⟩ := Ecdsa.exists_written_additive
  obtain ⟨⟨f, child⟩, hkey⟩ := foldedCurve_keyAt (p := 65537) (fun _ _ => List.replicate 64 1)
    (file 1).chainCode (file 1).ySum
  obtain ⟨leader, c, cs, rest, signersVec, signKeys, _, h, hsum⟩ := tweaked_shares hcurve
    xorAes_documented (additiveGg18_documented 65537) hsigner.toWeighs _
    (additiveSignJson 65537) le_rfl (show 1 < 3 by decide) (by norm_num) injOn_four_sub hfile
    (show "1" ≠ "" by decide) hkey fun _ => ((1 : ZMod 65537), (1 : ZMod 65537))
  have hone : ∀ x : ZMod 65537, x • (foldedCurve 65537).generator = x := mul_one (M := ZMod 65537)
  let vssVec := { leader with commitments := (c + f • (foldedCurve 65537).generator) :: cs } :: rest
  refine ⟨file, f, child, vssVec, signersVec, signKeys, hkey, fun k h₁ hk => ?_, ?_⟩
  · obtain ⟨_, _, _, hvss, _, hg, _⟩ := h k h₁ hk
    exact ⟨hvss, hg.trans (congrArg Except.ok (hone _))⟩
  · simp only [List.range'_succ, List.range'_zero, List.map_cons, List.map_nil, List.sum_cons,
      List.sum_nil, add_zero, hone] at hsum
    exact hsum

end

end TssCli
