import TssCli.Protocols.HdCompose

/-!
# What goes into the HMAC of a step

The HMAC of a derivation step has the chain code as its key, and the parent key and
the index, one after the other, as its message.  All three go through integers: the
encodings of points lose their leading zero bytes, an index loses its sign, and
nothing marks where the key ends and the index begins.

So opposite indices are one and the same step, although the parser of paths lets
them through.  Apart from that the message has a second reading only if the end of
one encoding is the beginning of an index of the other, and as many zero bytes stand
at the beginning of the other encoding (`Shifted`).  That cannot be on secp256k1
(`secp256k1_no_leadingZero`).
-/

namespace TssCli

section

variable {F G : Type} (curve : Curve F G)

/-- Encodings of one length, from which points can be told. -/
structure Curve.Encoded (length : Nat) : Prop where
  length_pointBytes : ∀ p, (curve.pointBytes p).length = length
  pointBytes_injective : Function.Injective curve.pointBytes

/-- The key and the message of the HMAC of a step. -/
def hdInput (chainCodeBi : Nat) (pubkey : G) (index : Int) : List UInt8 × List UInt8 :=
  (toBytes chainCodeBi, toBytes (fromBytes (curve.pointBytes pubkey)) ++ toBytes index.natAbs)

/-- The key and the message tell the two steps apart, from their chain codes, parent keys
and indices. -/
def TellsApart (chainCode pubkey : G) (index : Int) (chainCode' pubkey' : G) (index' : Int) :
    Prop :=
  hdInput curve (fromBytes (curve.pointBytes chainCode)) pubkey index =
      hdInput curve (fromBytes (curve.pointBytes chainCode')) pubkey' index' →
    chainCode = chainCode' ∧ pubkey = pubkey' ∧ index = index'

/-- The encoding of `p` is that of `q`, shifted to the right after zero bytes but not all
zero, and the bytes that fall out are the first bytes of `index`, before those of `index'`. -/
def Shifted (p : G) (index : Int) (q : G) (index' : Int) : Prop :=
  (∃ b ∈ curve.pointBytes p, b ≠ 0) ∧
    ∃ out, out ≠ [] ∧ toBytes index.natAbs = out ++ toBytes index'.natAbs ∧
      List.replicate out.length 0 ++ curve.pointBytes q = curve.pointBytes p ++ out

/-- The two steps are different, and their key and message are the same. -/
def Aliased (chainCode pubkey : G) (index : Int) (chainCode' pubkey' : G) (index' : Int) : Prop :=
  chainCode = chainCode' ∧
    (pubkey = pubkey' ∧ index' = -index ∧ index ≠ 0 ∨ Shifted curve pubkey index pubkey' index' ∨
      Shifted curve pubkey' index' pubkey index)

variable (hmac : Hmac)

/-- The halves of a step are read off the HMAC of its input. -/
theorem hdHalves_eq (chainCodeBi : Nat) (pubkey : G) (index : Int) :
    let input := hdInput curve chainCodeBi pubkey index
    hdHalves curve hmac chainCodeBi pubkey index =
      (curve.ofBigint (fromBytes (hmac input.1 input.2) >>> 256),
        curve.ofBigint (fromBytes (hmac input.1 input.2) &&& (2 ^ 256 - 1))) := rfl

end

/-! ## One step -/

section

variable {F G : Type} {curve : Curve F G} {length : Nat} {p q chainCode chainCode' : G}
  {index index' : Int}

/-- A message is read a second time exactly when it is shifted. -/
theorem shifted_iff (h : curve.Encoded length) :
    Shifted curve p index q index' ↔
      ∃ out, out ≠ [] ∧ toBytes index.natAbs = out ++ toBytes index'.natAbs ∧
        toBytes (fromBytes (curve.pointBytes q)) =
          toBytes (fromBytes (curve.pointBytes p)) ++ out := by
  constructor
  · rintro ⟨hp, out, hne, hindex, hshift⟩
    have hpos : fromBytes (curve.pointBytes p) ≠ 0 := fun hzero =>
      hp.elim fun b ⟨hb, hb0⟩ => hb0 (fromBytes_eq_zero.mp hzero b hb)
    have hhead : (toBytes (fromBytes (curve.pointBytes p)) ++ out).head? ≠ some 0 := by
      rw [List.head?_append_of_ne_nil _ (toBytes_ne_nil _)]
      exact head?_toBytes hpos
    have hvalue : fromBytes (curve.pointBytes q) =
        fromBytes (toBytes (fromBytes (curve.pointBytes p)) ++ out) := by
      rw [← fromBytes_zeros_append out.length, hshift, fromBytes_append, fromBytes_append,
        fromBytes_toBytes]
    refine ⟨out, hne, hindex, ?_⟩
    rw [hvalue, toBytes_fromBytes (List.append_ne_nil_of_left_ne_nil (toBytes_ne_nil _) _) hhead]
  · rintro ⟨out, hne, hindex, hbytes⟩
    refine ⟨by_contra fun hp => hne ?_, out, hne, hindex, fromBytes_inj ?_ ?_⟩
    · -- The bytes of zero are those of nothing longer.
      push Not at hp
      rw [fromBytes_eq_zero.mpr hp] at hbytes
      have hq : fromBytes (curve.pointBytes q) = 0 :=
        by_contra fun hq => head?_toBytes hq (by rw [hbytes]; rfl)
      rw [hq] at hbytes
      exact List.self_eq_append_right.mp hbytes
    · simp only [List.length_append, List.length_replicate, h.length_pointBytes]
      exact Nat.add_comm _ _
    · have hvalue := congrArg fromBytes hbytes
      rw [fromBytes_toBytes, fromBytes_append, fromBytes_toBytes] at hvalue
      rw [fromBytes_zeros_append, hvalue, fromBytes_append]

/-- Only an encoding with a leading zero byte comes from a shift. -/
theorem Shifted.leadingZero (h : Shifted curve p index q index') (hlength : 0 < length)
    (hcurve : curve.Encoded length) : (curve.pointBytes p).head? = some 0 := by
  obtain ⟨-, out, hne, _, hshift⟩ := h
  have hp := hcurve.length_pointBytes p
  cases hbytes : curve.pointBytes p with
  | nil =>
      rw [hbytes] at hp
      exact absurd hp (Nat.ne_of_lt hlength)
  | cons b rest =>
      rw [hbytes] at hshift
      cases out with
      | nil => exact absurd rfl hne
      | cons c out =>
          rw [List.length_cons, List.replicate_succ] at hshift
          exact congrArg some (List.cons.inj hshift).1.symm

/-- Two steps have one key and message when their chain codes are equal, and either the keys
are equal and the indices up to sign, or one message is a shift of the other. -/
theorem hdInput_eq_iff (h : curve.Encoded length) :
    hdInput curve (fromBytes (curve.pointBytes chainCode)) p index =
        hdInput curve (fromBytes (curve.pointBytes chainCode')) q index' ↔
      chainCode = chainCode' ∧ (p = q ∧ index.natAbs = index'.natAbs ∨
        Shifted curve p index q index' ∨ Shifted curve q index' p index) := by
  have hinj : ∀ a b, toBytes (fromBytes (curve.pointBytes a)) =
      toBytes (fromBytes (curve.pointBytes b)) ↔ a = b := fun a b =>
    ⟨fun hbytes => h.pointBytes_injective (fromBytes_inj
      ((h.length_pointBytes a).trans (h.length_pointBytes b).symm) (toBytes_injective hbytes)),
      fun hab => by rw [hab]⟩
  rw [hdInput, hdInput, Prod.mk.injEq, hinj, List.append_eq_append_iff, shifted_iff h,
    shifted_iff h]
  refine and_congr_right fun _ => ⟨?_, ?_⟩
  · rintro (⟨out, hq, hindex⟩ | ⟨out, hp, hindex⟩)
    · cases out with
      | nil =>
          rw [List.append_nil] at hq
          exact Or.inl ⟨((hinj q p).mp hq).symm, toBytes_injective hindex⟩
      | cons b rest => exact Or.inr (Or.inl ⟨b :: rest, List.cons_ne_nil _ _, hindex, hq⟩)
    · cases out with
      | nil =>
          rw [List.append_nil] at hp
          exact Or.inl ⟨(hinj p q).mp hp, toBytes_injective hindex.symm⟩
      | cons b rest => exact Or.inr (Or.inr ⟨b :: rest, List.cons_ne_nil _ _, hindex, hp⟩)
  · rintro (⟨rfl, hindex⟩ | ⟨out, _, hindex, hq⟩ | ⟨out, _, hindex, hp⟩)
    · exact Or.inl ⟨[], (List.append_nil _).symm, by rw [hindex, List.nil_append]⟩
    · exact Or.inl ⟨out, hq, hindex⟩
    · exact Or.inr ⟨out, hp, hindex⟩

/-- A shift changes the step. -/
theorem Shifted.ne (h : Shifted curve p index q index') : index ≠ index' := by
  rintro rfl
  obtain ⟨-, out, hne, hindex, _⟩ := h
  exact hne (List.self_eq_append_left.mp hindex)

/-- The key and the message tell two steps apart unless one is an alias of the other. -/
theorem tellsApart_iff (h : curve.Encoded length) :
    TellsApart curve chainCode p index chainCode' q index' ↔
      ¬ Aliased curve chainCode p index chainCode' q index' := by
  rw [TellsApart, hdInput_eq_iff h]
  constructor
  · rintro hapart ⟨hchain, ⟨hpq, hsign, hne⟩ | hshift | hshift⟩
    · have := (hapart ⟨hchain, Or.inl ⟨hpq, by rw [hsign, Int.natAbs_neg]⟩⟩).2.2
      omega
    · exact hshift.ne (hapart ⟨hchain, Or.inr (Or.inl hshift)⟩).2.2
    · exact hshift.ne (hapart ⟨hchain, Or.inr (Or.inr hshift)⟩).2.2.symm
  · rintro hnot ⟨hchain, ⟨hpq, hindex⟩ | hshift⟩
    · refine ⟨hchain, hpq, by_contra fun hne => hnot ⟨hchain, Or.inl ⟨hpq, ?_, ?_⟩⟩⟩
      · omega
      · omega
    · exact absurd ⟨hchain, Or.inr hshift⟩ hnot

end

/-! ## A path -/

section

variable {F G : Type} [Field F] [AddCommGroup G] [Module F G] (curve : Curve F G) (hmac : Hmac)

/-- The inputs of all steps of a path, from a public key and a chain code given as an integer
and as a point. -/
def hdInputs : List Int → G → Nat → G → List (List UInt8 × List UInt8)
  | [], _, _, _ => []
  | index :: rest, pubkey, chainCodeBi, chainCode =>
      let f := hdHalves curve hmac chainCodeBi pubkey index
      let next := f.2 • chainCode
      hdInput curve chainCodeBi pubkey index ::
        hdInputs rest (pubkey + f.1 • curve.generator) (fromBytes (curve.pointBytes next)) next

/-- The sum of the left halves of the HMAC on the inputs. -/
def leftSum (inputs : List (List UInt8 × List UInt8)) : F :=
  (inputs.map fun input => curve.ofBigint (fromBytes (hmac input.1 input.2) >>> 256)).sum

variable {curve hmac}

theorem leftSum_hdInputs : ∀ (path : List Int) (pubkey : G) (chainCodeBi : Nat) (chainCode : G),
    leftSum curve hmac (hdInputs curve hmac path pubkey chainCodeBi chainCode) =
      ((leftHalves curve hmac path pubkey chainCodeBi chainCode).map curve.ofBigint).sum
  | [], _, _, _ => rfl
  | index :: rest, pubkey, chainCodeBi, chainCode => by
      rw [hdInputs, leftHalves, leftSum, List.map_cons, List.sum_cons, List.map_cons,
        List.sum_cons, ← leftSum_hdInputs rest]
      rfl

/-- Two lists of one length part at a first place. -/
theorem exists_first_difference {α : Type} : ∀ {v w : List α}, v.length = w.length → v ≠ w →
    ∃ pre i r j s, v = pre ++ i :: r ∧ w = pre ++ j :: s ∧ i ≠ j
  | [], [], _, hne => absurd rfl hne
  | a :: v, b :: w, hlength, hne => by
      by_cases hab : a = b
      · subst hab
        obtain ⟨pre, i, r, j, s, rfl, rfl, hij⟩ :=
          exists_first_difference (Nat.succ.inj hlength) fun hvw => hne (by rw [hvw])
        exact ⟨a :: pre, i, r, j, s, rfl, rfl, hij⟩
      · exact ⟨[], a, v, b, w, rfl, rfl, hab⟩

/-- Until the paths part their inputs are the same, and there they have the same chain code and
parent key. -/
theorem hdInputs_part (curve : Curve F G) (hmac : Hmac) (i j : Int) (r s : List Int) :
    ∀ (pre : List Int) (pubkey : G) (chainCodeBi : Nat) (chainCode : G),
    ∃ common chainCodeBi' pubkey' rest rest',
      common.length = pre.length ∧
      hdInputs curve hmac (pre ++ i :: r) pubkey chainCodeBi chainCode =
        common ++ hdInput curve chainCodeBi' pubkey' i :: rest ∧
      hdInputs curve hmac (pre ++ j :: s) pubkey chainCodeBi chainCode =
        common ++ hdInput curve chainCodeBi' pubkey' j :: rest'
  | [], pubkey, chainCodeBi, _ => ⟨[], chainCodeBi, pubkey, _, _, rfl, rfl, rfl⟩
  | index :: pre, pubkey, chainCodeBi, chainCode => by
      let f := hdHalves curve hmac chainCodeBi pubkey index
      obtain ⟨common, chainCodeBi', pubkey', rest, rest', hlength, hi, hj⟩ :=
        hdInputs_part curve hmac i j r s pre (pubkey + f.1 • curve.generator)
          (fromBytes (curve.pointBytes (f.2 • chainCode))) (f.2 • chainCode)
      refine ⟨hdInput curve chainCodeBi pubkey index :: common, chainCodeBi', pubkey', rest, rest',
        congrArg Nat.succ hlength, ?_, ?_⟩
      · exact congrArg (List.cons _) hi
      · exact congrArg (List.cons _) hj

omit [Field F] [AddCommGroup G] [Module F G] in
theorem hdInput_index_iff {chainCodeBi : Nat} {pubkey : G} {i j : Int} :
    hdInput curve chainCodeBi pubkey i = hdInput curve chainCodeBi pubkey j ↔
      i.natAbs = j.natAbs := by
  rw [hdInput, hdInput, Prod.mk.injEq, List.append_right_inj]
  exact (and_iff_right rfl).trans toBytes_injective.eq_iff

/-- A path leads where the path of the absolute values leads. -/
theorem hdKey_natAbs {v w : List Int} (h : v.map Int.natAbs = w.map Int.natAbs) (pubkey : G)
    (chainCodeBi : Nat) :
    hdKey curve hmac v pubkey chainCodeBi = hdKey curve hmac w pubkey chainCodeBi := by
  have hhalves : ∀ {i j : Int}, i.natAbs = j.natAbs → ∀ (c : Nat) (p : G),
      hdHalves curve hmac c p i = hdHalves curve hmac c p j := by
    intro i j hij c p
    rw [hdHalves_eq, hdHalves_eq, hdInput_index_iff.mpr hij]
  have hfold : ∀ {v w : List Int}, v.map Int.natAbs = w.map Int.natAbs → ∀ acc : G × F × G,
      v.foldl (hdStep curve hmac) acc = w.foldl (hdStep curve hmac) acc := by
    intro v
    induction v with
    | nil =>
        intro w hw acc
        rw [List.map_eq_nil_iff.mp hw.symm]
    | cons i v ih =>
        intro w hw acc
        obtain ⟨j, w, rfl, hij, hvw⟩ := List.map_eq_cons_iff.mp hw.symm
        rw [List.foldl_cons, List.foldl_cons, ih hvw.symm, hdStep, hdStep, hhalves hij]
  cases v with
  | nil => rw [List.map_eq_nil_iff.mp h.symm]
  | cons i v =>
      obtain ⟨j, w, rfl, hij, hvw⟩ := List.map_eq_cons_iff.mp h.symm
      simp only [hdKey, hhalves hij, hfold hvw.symm]

/-- Two paths of one sequence of absolute values lead to one key. -/
theorem getHdKey_natAbs {path path' : String} {v w : List Int} (hv : pathVector path = .ok v)
    (hw : pathVector path' = .ok w) (h : v.map Int.natAbs = w.map Int.natAbs) (y chainCode : G) :
    getHdKey curve hmac y path chainCode = getHdKey curve hmac y path' chainCode := by
  rw [getHdKey, getHdKey, hv, hw, except_ok_bind, except_ok_bind, hdKey_natAbs h]

/-- Keys derived from one parent are equal only if the left halves add up to one scalar. -/
theorem leftSum_of_same_child (hgen : curve.generator ≠ 0) {y chainCode child : G}
    {path path' : String} {v w : List Int} {f f' : F} (hv : pathVector path = .ok v)
    (hw : pathVector path' = .ok w)
    (h : getHdKey curve hmac y path chainCode = .ok (child, f))
    (h' : getHdKey curve hmac y path' chainCode = .ok (child, f')) :
    ∃ point,
      curve.pointFromBytes (toBytes (fromBytes (curve.pointBytes chainCode))) = some point ∧
      leftSum curve hmac (hdInputs curve hmac v y (fromBytes (curve.pointBytes chainCode)) point) =
        leftSum curve hmac
          (hdInputs curve hmac w y (fromBytes (curve.pointBytes chainCode)) point) := by
  have hsame : f = f' := by
    have := (getHdKey_child h).symm.trans (getHdKey_child h')
    exact smul_left_injective F hgen (add_left_cancel this)
  rw [getHdKey, hv, except_ok_bind] at h
  rw [getHdKey, hw, except_ok_bind] at h'
  obtain ⟨out, hout, h⟩ := except_bind_ok h
  obtain ⟨out', hout', h'⟩ := except_bind_ok h'
  obtain ⟨point, hpoint, hsum⟩ := hdKey_tweak hout
  obtain ⟨point', hpoint', hsum'⟩ := hdKey_tweak hout'
  obtain rfl := Option.some.inj (hpoint.symm.trans hpoint')
  obtain ⟨-, rfl⟩ := Prod.mk.inj (Except.ok.inj h)
  obtain ⟨-, rfl⟩ := Prod.mk.inj (Except.ok.inj h')
  exact ⟨point, hpoint, by rw [leftSum_hdInputs, leftSum_hdInputs, ← hsum, ← hsum', hsame]⟩

variable (curve hmac) in
/-- Two paths from one parent feed the HMAC different inputs at place `k`, unless the indices
`i` and `j` there are opposite, and lead to one child only if the left halves from there on add
up to one scalar. -/
structure PathsPart (y chainCode : G) (path path' : String) (v w : List Int) (k : Nat) (i j : Int) :
    Prop where
  inputs : ∀ point,
    (hdInputs curve hmac v y (fromBytes (curve.pointBytes chainCode)) point)[k]? ≠
      (hdInputs curve hmac w y (fromBytes (curve.pointBytes chainCode)) point)[k]? ↔ j ≠ -i
  child : ∀ child f f', getHdKey curve hmac y path chainCode = .ok (child, f) →
    getHdKey curve hmac y path' chainCode = .ok (child, f') →
    ∃ point,
      curve.pointFromBytes (toBytes (fromBytes (curve.pointBytes chainCode))) = some point ∧
      leftSum curve hmac
          ((hdInputs curve hmac v y (fromBytes (curve.pointBytes chainCode)) point).drop k) =
        leftSum curve hmac
          ((hdInputs curve hmac w y (fromBytes (curve.pointBytes chainCode)) point).drop k)

theorem pathsPart (hgen : curve.generator ≠ 0) {y chainCode : G} {path path' : String}
    {pre r s : List Int} {i j : Int} (hij : i ≠ j) (hv : pathVector path = .ok (pre ++ i :: r))
    (hw : pathVector path' = .ok (pre ++ j :: s)) :
    PathsPart curve hmac y chainCode path path' (pre ++ i :: r) (pre ++ j :: s) pre.length i j := by
  constructor
  · intro point
    obtain ⟨common, chainCodeBi, pubkey, rest, rest', hlength, hi, hj⟩ :=
      hdInputs_part curve hmac i j r s pre y
        (fromBytes (curve.pointBytes chainCode)) point
    rw [hi, hj, ← hlength, List.getElem?_append_right le_rfl, List.getElem?_append_right le_rfl,
      Nat.sub_self, List.getElem?_cons_zero, List.getElem?_cons_zero, Ne, Option.some.injEq,
      hdInput_index_iff]
    omega
  · intro child f f' h h'
    obtain ⟨point, hpoint, hsum⟩ := leftSum_of_same_child hgen hv hw h h'
    obtain ⟨common, chainCodeBi, pubkey, rest, rest', hlength, hi, hj⟩ :=
      hdInputs_part curve hmac i j r s pre y
        (fromBytes (curve.pointBytes chainCode)) point
    refine ⟨point, hpoint, ?_⟩
    rw [hi, hj, leftSum, leftSum, List.map_append, List.map_append, List.sum_append,
      List.sum_append, add_right_inj] at hsum
    rw [hi, hj, ← hlength, List.drop_left, List.drop_left]
    exact hsum

end

/-- The HMAC tells two steps apart unless one is an alias of the other, and on a curve whose
encodings begin with no zero byte, unless they are all zeros, the only alias is the step with
the opposite index.  Two different paths of one length from one parent feed it different inputs
where they part, unless the indices there are opposite. -/
theorem hmac_tells_apart {F G : Type} [Field F] [AddCommGroup G] [Module F G] {curve : Curve F G}
    {length : Nat} (hcurve : curve.Encoded length) (hlength : 0 < length)
    (hgen : curve.generator ≠ 0) (hmac : Hmac) :
    (∀ (chainCode p chainCode' q : G) (index index' : Int),
      TellsApart curve chainCode p index chainCode' q index' ↔
        ¬ Aliased curve chainCode p index chainCode' q index') ∧
    ((∀ a, curve.LeadingZero a → ∀ b ∈ curve.pointBytes a, b = 0) →
      ∀ (chainCode p chainCode' q : G) (index index' : Int),
      Aliased curve chainCode p index chainCode' q index' ↔
        chainCode = chainCode' ∧ p = q ∧ index' = -index ∧ index ≠ 0) ∧
    ∀ (y chainCode : G) (path path' : String) (v w : List Int),
      pathVector path = .ok v → pathVector path' = .ok w → v.length = w.length → v ≠ w →
      ∃ pre i r j s, v = pre ++ i :: r ∧ w = pre ++ j :: s ∧ i ≠ j ∧
        PathsPart curve hmac y chainCode path path' v w pre.length i j := by
  refine ⟨fun _ _ _ _ _ _ => tellsApart_iff hcurve,
    fun hzero chainCode p chainCode' q index index' => and_congr_right fun _ => or_iff_left ?_,
    fun y chainCode path path' v w hv hw hvw hne => ?_⟩
  · have unshifted : ∀ {p q : G} {i j : Int}, ¬ Shifted curve p i q j := by
      intro p q i j hshift
      obtain ⟨⟨b, hb, hb0⟩, -⟩ := id hshift
      exact hb0 (hzero p (hshift.leadingZero hlength hcurve) b hb)
    rintro (hshift | hshift)
    · exact unshifted hshift
    · exact unshifted hshift
  · obtain ⟨pre, i, r, j, s, rfl, rfl, hij⟩ := exists_first_difference hvw hne
    exact ⟨pre, i, r, j, s, rfl, rfl, hij, pathsPart hgen hij hv hw⟩

/-! ## Examples -/

theorem fivePoints_encoded : fivePoints.Encoded 2 where
  length_pointBytes _ := rfl
  pointBytes_injective := by unfold Function.Injective; decide

/-- The indices `1` and `2`, and the paths `1/2` and `1/3`, on the curve of five points. -/
theorem hmac_tells_apart_five :
    TellsApart fivePoints 2 1 1 2 1 2 ∧
    ∃ pre i r j s, [1, 2] = pre ++ i :: r ∧ [1, 3] = pre ++ j :: s ∧ i ≠ j ∧
      PathsPart fivePoints (fun _ _ => List.replicate 64 1) (1 : ZMod 5) 2 "1/2" "1/3" [1, 2] [1, 3]
        pre.length i j := by
  obtain ⟨hsteps, hsigns, hpaths⟩ := hmac_tells_apart fivePoints_encoded (by decide)
    (show fivePoints.generator ≠ 0 by decide) fun _ _ => List.replicate 64 1
  have hzero : ∀ a, fivePoints.LeadingZero a → ∀ b ∈ fivePoints.pointBytes a, b = 0 :=
    fun a h => absurd h (fivePoints_no_leadingZero a)
  refine ⟨(hsteps 2 1 2 1 1 2).mpr fun halias => ?_,
    hpaths 1 2 "1/2" "1/3" [1, 2] [1, 3] (by decide) (by decide) rfl (by decide)⟩
  exact absurd ((hsigns hzero 2 1 2 1 1 2).mp halias).2.2.1 (by decide)

/-- On every curve the paths `1` and `-1` are accepted, are the same step from every parent,
and lead to the same child. -/
theorem hmac_aliases :
    pathVector "1" = .ok [1] ∧ pathVector "-1" = .ok [-1] ∧
    ∀ (F G : Type) [Field F] [AddCommGroup G] [Module F G] (curve : Curve F G) (y chainCode : G),
      ¬ TellsApart curve chainCode y 1 chainCode y (-1) ∧
      ∀ hmac, getHdKey curve hmac y "1" chainCode = getHdKey curve hmac y "-1" chainCode := by
  have hplus : pathVector "1" = .ok [1] := by decide
  have hminus : pathVector "-1" = .ok [-1] := by decide
  refine ⟨hplus, hminus, fun F G _ _ _ curve y chainCode => ⟨fun h => ?_, fun hmac => ?_⟩⟩
  · exact absurd (h (hdInput_index_iff.mpr rfl)).2.2 (by decide)
  · exact getHdKey_natAbs hplus hminus rfl y chainCode

end TssCli
