import TssCli.Lib.Guarded

/-!
# Nets whose links fail

A party that hears no answer sends its request again, so a post may be handled
more than once, and a party may stop for good.  `LinkStep` adds both to the steps
of a net.

If only the owner of a key writes under it, this comes to nothing new.  Every such
run, with entries expiring at will, is mirrored by a run of the same scripts in which
each post is handled once and nothing expires (`LinkRun.mirrored`): a party that has
returned has returned the same there.  And as long as nobody stops, the run can be
continued like that one (`LinkRun.follows`).
-/

namespace Mailbox

open Transition

namespace Script

variable {κ ν ε α : Type}

/-- The script posts under keys of `P` only, whatever it gets. -/
def PostsOnly (P : κ → Prop) : Script κ ν ε α → Prop
  | ret _ => True
  | fail _ => True
  | post k _ next => P k ∧ next.PostsOnly P
  | await _ next => ∀ v, (next v).PostsOnly P

theorem PostsOnly.mono {P Q : κ → Prop} (hPQ : ∀ k, P k → Q k) :
    ∀ {s : Script κ ν ε α}, s.PostsOnly P → s.PostsOnly Q
  | ret _, _ => trivial
  | fail _, _ => trivial
  | post k _ _, h => ⟨hPQ k h.1, h.2.mono hPQ⟩
  | await _ _, h => fun v => (h v).mono hPQ

/-- A guarded script posts what it may. -/
theorem Guarded.postsOnly {may : Set κ → κ → Prop} {after : Set κ → Prop} {A : Set κ}
    {s : Script κ ν ε α} {P : κ → Prop} (h : Guarded may after A s)
    (hmay : ∀ A k, may A k → P k) : s.PostsOnly P := by
  induction h with
  | ret => trivial
  | fail => trivial
  | post hk _ ih => exact ⟨hmay _ _ hk, ih⟩
  | await _ ih => exact ih

end Script

/-! ## Steps -/

section

variable {ι κ ν ε α : Type}

/-- An event at the mailbox, or on the way there. -/
inductive LinkEvent (ι κ ν ε : Type) where
  | step (e : NetEvent ι κ ν ε)
  /-- A post is handled, and its party does not hear of it. -/
  | unheard (i : ι) (k : κ) (v : ν)
  /-- A party stops for good. -/
  | broke (i : ι) (e : ε)

/-- Other programs keep away from the keys that are owned, and who stops has an excuse
of its own. -/
def LinkEvent.Respects (owner : κ → Option ι) (excused : ι → ε → Prop) :
    LinkEvent ι κ ν ε → Prop
  | .step (.foreign k _) => owner k = none
  | .broke i e => excused i e
  | _ => True

/-- A party posts or gets, or tries to. -/
def LinkEvent.IsTry : LinkEvent ι κ ν ε → Prop
  | .step e => e.IsMove
  | .unheard _ _ _ => True
  | .broke _ _ => False

/-- What happens with each post handled once happens over the links, but nothing
expires. -/
def NetEvent.Of (tr : List (LinkEvent ι κ ν ε)) : NetEvent ι κ ν ε → Prop
  | .foreign k v => .step (.foreign k v) ∈ tr
  | .gaveUp i e => .step (.gaveUp i e) ∈ tr
  | .expired _ => False
  | _ => True

/-- Where a party stands, and where it stands when every post is handled once: at
the same place, behind by a post that was handled unheard, or stopped. -/
inductive Lags (excused : ε → Prop) (store : κ → Option ν) :
    Script κ ν ε α → Script κ ν ε α → Prop where
  | same {s : Script κ ν ε α} : Lags excused store s s
  | behind {k : κ} {v : ν} {next : Script κ ν ε α} :
      store k = some v → Lags excused store (.post k v next) next
  | stopped {e : ε} {s : Script κ ν ε α} : excused e → Lags excused store (.fail e) s

/-- The net `once` matches `net`, with each post handled once and nothing expired. -/
structure Matches (owner : κ → Option ι) (excused : ι → ε → Prop) (net once : Net ι κ ν ε α) :
    Prop where
  store : ∀ k v, net.store k = some v → once.store k = some v
  scripts : ∀ i, Lags (excused i) once.store (net.scripts i) (once.scripts i)
  owned : ∀ i, (net.scripts i).PostsOnly fun k => owner k = some i

variable {owner : κ → Option ι} {excused : ι → ε → Prop} {stopped : ε → Prop} {store : κ → Option ν}
  {s s' : Script κ ν ε α} {net net' once start : Net ι κ ν ε α} {i : ι} {a : α} {e : ε}
  {tr : List (LinkEvent ι κ ν ε)} {l : LinkEvent ι κ ν ε}

theorem NetEvent.Of.cons {e : NetEvent ι κ ν ε} (h : e.Of tr) : e.Of (l :: tr) := by
  cases e with
  | foreign => exact List.mem_cons_of_mem _ h
  | gaveUp => exact List.mem_cons_of_mem _ h
  | expired => exact h
  | _ => trivial

/-- Of tries come moves. -/
theorem NetEvent.Of.isMove {e : NetEvent ι κ ν ε} (h : e.Of tr) (htry : ∀ l ∈ tr, l.IsTry) :
    e.IsMove := by
  cases e with
  | foreign => exact htry _ h
  | gaveUp => exact htry _ h
  | expired => exact h
  | _ => trivial

/-- Who has returned has returned the same with each post handled once. -/
theorem Lags.returned (h : Lags stopped store (.ret a) s) : s = .ret a := by
  cases h with
  | same => rfl

/-- Who has failed has failed the same way, or stopped. -/
theorem Lags.failed (h : Lags stopped store (.fail e) s) : s = .fail e ∨ stopped e := by
  cases h with
  | same => exact Or.inl rfl
  | stopped he => exact Or.inr he

/-- Nobody who awaits lags. -/
theorem Lags.awaits {k : κ} {next : ν → Script κ ν ε α} (h : Lags stopped store (.await k next) s) :
    s = .await k next := by
  cases h with
  | same => rfl

/-- At the start all stand at the same place. -/
theorem Matches.refl (howned : ∀ i, (start.scripts i).PostsOnly fun k => owner k = some i) :
    Matches owner excused start start := ⟨fun _ _ h => h, fun _ => .same, howned⟩

section

variable [DecidableEq ι]

/-- A party goes on, or stops, on both sides. -/
theorem Matches.move (h : Matches owner excused net once) {t t' : Script κ ν ε α}
    (hlag : Lags (excused i) once.store t t') (hown : t.PostsOnly fun k => owner k = some i) :
    Matches owner excused { net with scripts := Function.update net.scripts i t }
      { once with scripts := Function.update once.scripts i t' } where
  store := h.store
  scripts j := by
    by_cases hj : j = i
    · subst hj
      simpa using hlag
    · simpa [hj] using h.scripts j
  owned j := by
    by_cases hj : j = i
    · subst hj
      simpa using hown
    · simpa [hj] using h.owned j

/-- A party goes on to the place where it stands with each post handled once, or
stops. -/
theorem Matches.moveTo (h : Matches owner excused net once) {t : Script κ ν ε α}
    (hlag : Lags (excused i) once.store t (once.scripts i))
    (hown : t.PostsOnly fun k => owner k = some i) :
    Matches owner excused { net with scripts := Function.update net.scripts i t } once := by
  have := h.move (i := i) hlag hown
  rwa [Function.update_eq_self] at this

end

section

variable [DecidableEq κ]

/-- A write under a key of somebody else leaves a party where it stands. -/
theorem Lags.write (h : Lags stopped store s s') (hown : s.PostsOnly fun k => owner k = some i)
    {k : κ} (hk : owner k ≠ some i) (v : ν) :
    Lags stopped (Function.update store k (some v)) s s' := by
  cases h with
  | same => exact .same
  | @behind k' v' next hst =>
      refine .behind ?_
      rw [Function.update_of_ne]
      · exact hst
      · rintro rfl
        exact hk hown.1
  | stopped he => exact .stopped he

/-- A write on both sides, under a key whose owner does not lag behind. -/
theorem Matches.write (h : Matches owner excused net once) {k : κ} (v : ν)
    (hk : ∀ j, owner k = some j → net.scripts j = once.scripts j) :
    Matches owner excused { net with store := Function.update net.store k (some v) }
      { once with store := Function.update once.store k (some v) } where
  store k' w hw := by
    by_cases hkk : k' = k
    · subst hkk
      simpa using hw
    · simp only [Function.update_of_ne hkk] at hw ⊢
      exact h.store k' w hw
  scripts j := by
    by_cases hj : owner k = some j
    · dsimp only
      rw [hk j hj]
      exact .same
    · exact (h.scripts j).write (h.owned j) hj v
  owned := h.owned

/-- A write over the links of what is there with each post handled once. -/
theorem Matches.rewrite (h : Matches owner excused net once) {k : κ} {v : ν}
    (hv : once.store k = some v) :
    Matches owner excused { net with store := Function.update net.store k (some v) } once where
  store k' w hw := by
    by_cases hkk : k' = k
    · subst hkk
      rw [hv]
      simpa using hw
    · exact h.store k' w ((Function.update_of_ne hkk _ _).symm.trans hw)
  scripts := h.scripts
  owned := h.owned

end

end

/-! ## Runs -/

section

variable {ι κ ν ε α : Type} [DecidableEq ι] [DecidableEq κ] {owner : κ → Option ι}
  {excused : ι → ε → Prop} {net net' once start : Net ι κ ν ε α} {i : ι}
  {tr : List (LinkEvent ι κ ν ε)} {l : LinkEvent ι κ ν ε}

/-- One step of a net whose links fail. -/
inductive LinkStep : Net ι κ ν ε α → LinkEvent ι κ ν ε → Net ι κ ν ε α → Prop where
  | step {net net' : Net ι κ ν ε α} {e : NetEvent ι κ ν ε} :
      NetStep net e net' → LinkStep net (.step e) net'
  | unheard {net : Net ι κ ν ε α} {i : ι} {k : κ} {v : ν} {next : Script κ ν ε α} :
      net.scripts i = .post k v next →
      LinkStep net (.unheard i k v) { net with store := Function.update net.store k (some v) }
  | broke {net : Net ι κ ν ε α} {i : ι} {e : ε} :
      LinkStep net (.broke i e) { net with scripts := Function.update net.scripts i (.fail e) }

/-- A run of the scripts over links that fail. -/
abbrev LinkRun (start : Net ι κ ν ε α) : Net ι κ ν ε α → List (LinkEvent ι κ ν ε) → Prop :=
  Run (fun net => net = start) LinkStep

/-- The first handling of a post, on both sides. -/
theorem Matches.post (h : Matches owner excused net once) {k : κ} {v : ν}
    {next : Script κ ν ε α} (hi : net.scripts i = .post k v next)
    (hsame : once.scripts i = .post k v next) {t : Script κ ν ε α}
    (ht : t = .post k v next ∨ t = next) :
    Matches owner excused
      { store := Function.update net.store k (some v),
        scripts := Function.update net.scripts i t }
      { store := Function.update once.store k (some v),
        scripts := Function.update once.scripts i next } := by
  have hown := h.owned i
  rw [hi] at hown
  have hwrite := h.write v fun j hj => by
    obtain rfl := Option.some.inj (hown.1.symm.trans hj)
    rw [hi, hsame]
  rcases ht with rfl | rfl
  · exact hwrite.move (.behind (Function.update_self ..)) hown
  · exact hwrite.move .same hown.2

/-- A run of the scripts with each post handled once that mirrors a run over the
links.  Where nothing expires the two maps are the same. -/
structure Mirrors (owner : κ → Option ι) (excused : ι → ε → Prop) (start net once : Net ι κ ν ε α)
    (tr : List (LinkEvent ι κ ν ε)) (tr' : List (NetEvent ι κ ν ε)) : Prop where
  run : NetRun start once tr'
  standing : Matches owner excused net once
  events : ∀ e ∈ tr', e.Of tr
  exact : (∀ l ∈ tr, l.IsTry) → net.store = once.store

section

variable {tr' : List (NetEvent ι κ ν ε)} (h : Mirrors owner excused start net once tr tr')

include h

/-- A step over the links that handles nothing for the first time. -/
theorem Mirrors.stay (hstanding : Matches owner excused net' once)
    (hexact : l.IsTry → net.store = once.store → net'.store = once.store) :
    Mirrors owner excused start net' once (l :: tr) tr' where
  run := h.run
  standing := hstanding
  events e he := (h.events e he).cons
  exact htry := by
    obtain ⟨hl, htry⟩ := List.forall_mem_cons.mp htry
    exact hexact hl (h.exact htry)

/-- A step on both sides. -/
theorem Mirrors.step {e : NetEvent ι κ ν ε} {once' : Net ι κ ν ε α} (hs : NetStep once e once')
    (hstanding : Matches owner excused net' once') (he : e.Of (l :: tr))
    (hexact : l.IsTry → net.store = once.store → net'.store = once'.store) :
    Mirrors owner excused start net' once' (l :: tr) (e :: tr') where
  run := h.run.snoc hs
  standing := hstanding
  events e' he' := by
    cases List.mem_cons.mp he' with
    | inl heq => exact heq ▸ he
    | inr ht => exact (h.events e' ht).cons
  exact htry := by
    obtain ⟨hl, htry⟩ := List.forall_mem_cons.mp htry
    exact hexact hl (h.exact htry)

/-- A post is handled, and its party may hear of it. -/
theorem Mirrors.post {k : κ} {v : ν} {next : Script κ ν ε α}
    (hi : net.scripts i = .post k v next) {t : Script κ ν ε α}
    (ht : t = .post k v next ∨ t = next) :
    ∃ once' tr'', Mirrors owner excused start
      { store := Function.update net.store k (some v),
        scripts := Function.update net.scripts i t } once' (l :: tr) tr'' := by
  have hlag := h.standing.scripts i
  rw [hi] at hlag
  have hown := h.standing.owned i
  rw [hi] at hown
  generalize honce : once.scripts i = s at hlag
  cases hlag with
  | same =>
      refine ⟨_, _, h.step (.posted honce) (h.standing.post hi honce ht) trivial fun _ heq => ?_⟩
      dsimp only
      rw [heq]
  | behind hst =>
      refine ⟨_, _, h.stay ((h.standing.rewrite hst).moveTo ?_ ?_) fun _ heq => ?_⟩
      · rcases ht with rfl | rfl
        · rw [honce]
          exact .behind hst
        · rw [honce]
          exact .same
      · rcases ht with rfl | rfl
        · exact hown
        · exact hown.2
      · dsimp only
        rw [heq, Function.update_eq_self_iff]
        exact hst.symm

/-- One step over the links. -/
theorem Mirrors.next (hl : l.Respects owner excused) (hs : LinkStep net l net') :
    ∃ once' tr'', Mirrors owner excused start net' once' (l :: tr) tr'' := by
  cases hs with
  | @broke i e =>
      exact ⟨_, _, h.stay (h.standing.moveTo (.stopped hl) trivial) fun htry => htry.elim⟩
  | @unheard i k v next hi =>
      have := h.post (l := .unheard i k v) hi (Or.inl rfl)
      rwa [← hi, Function.update_eq_self] at this
  | step hs =>
      cases hs with
      | @posted i k v next hi => exact h.post hi (Or.inr rfl)
      | @got i k v next hi hv =>
          have hlag := h.standing.scripts i
          rw [hi] at hlag
          have hown := h.standing.owned i
          rw [hi] at hown
          exact ⟨_, _, h.step (.got hlag.awaits (h.standing.store k v hv))
            (h.standing.move .same (hown v)) trivial fun _ heq => heq⟩
      | @gaveUp i k next e hi =>
          have hlag := h.standing.scripts i
          rw [hi] at hlag
          exact ⟨_, _, h.step (.gaveUp hlag.awaits) (h.standing.move .same trivial)
            (List.mem_cons_self ..) fun _ heq => heq⟩
      | @foreign k v =>
          have hk : owner k = none := hl
          refine ⟨_, _, h.step .foreign (h.standing.write v fun j hj => ?_)
            (List.mem_cons_self ..) fun htry => htry.elim⟩
          rw [hk] at hj
          cases hj
      | @expired k =>
          refine ⟨_, _, h.stay ⟨fun k' v hv => ?_, h.standing.scripts, h.standing.owned⟩
            fun htry => htry.elim⟩
          by_cases hk : k' = k
          · subst hk
            simp at hv
          · exact h.standing.store k' v ((Function.update_of_ne hk _ _).symm.trans hv)

end

/-- Every run over links that fail is mirrored by one with each post handled once. -/
theorem LinkRun.mirrored (hrun : LinkRun start net tr)
    (howned : ∀ i, (start.scripts i).PostsOnly fun k => owner k = some i)
    (hok : ∀ l ∈ tr, l.Respects owner excused) :
    ∃ once tr', Mirrors owner excused start net once tr tr' := by
  refine Run.invariant_of (fun net tr => ∃ once tr', Mirrors owner excused start net once tr tr')
    (LinkEvent.Respects owner excused) ?_ ?_ hrun hok
  · rintro net rfl
    exact ⟨net, [], .start rfl, .refl howned, by simp, fun _ => rfl⟩
  · rintro net l net' tr _ ⟨once, tr', h⟩ hl hs
    exact h.next hl hs

/-! ## Going on -/

/-- A step of a net is determined by its event. -/
theorem NetStep.functional {e : NetEvent ι κ ν ε} {a b : Net ι κ ν ε α} (ha : NetStep net e a)
    (hb : NetStep net e b) : a = b := by
  cases ha with
  | posted hi =>
      cases hb with
      | posted hi' =>
          rw [hi] at hi'
          obtain ⟨-, -, rfl⟩ := Script.post.inj hi'
          rfl
  | got hi hv =>
      cases hb with
      | got hi' hv' =>
          rw [hi] at hi'
          obtain ⟨-, rfl⟩ := Script.await.inj hi'
          rfl
  | gaveUp => cases hb with | gaveUp => rfl
  | foreign => cases hb with | foreign => rfl
  | expired => cases hb with | expired => rfl

/-- A run of a net goes on as any other run from its end. -/
theorem NetRun.after {more tr' : List (NetEvent ι κ ν ε)} {final : Net ι κ ν ε α}
    (honce : NetRun start once tr') (hfinal : NetRun start final (more ++ tr')) :
    NetRun once final more := by
  obtain ⟨mid, hmid, hmore⟩ := hfinal.splitAt
  obtain rfl := Run.functional (fun _ _ h h' => h.trans h'.symm)
    (fun _ _ _ _ h h' => h.functional h') honce hmid
  exact hmore

/-- Moves are moves over the links. -/
theorem LinkRun.moves {more : List (NetEvent ι κ ν ε)} {final : Net ι κ ν ε α}
    (hrun : LinkRun start net tr) (hmore : NetRun net final more) :
    LinkRun start final (more.map .step ++ tr) := by
  induction hmore with
  | start h =>
      obtain rfl := h
      exact hrun
  | snoc _ hs ih => exact ih.snoc (.step hs)

/-- Some parties catch up with where they stand with each post handled once. -/
theorem LinkRun.catchUp {tr' : List (NetEvent ι κ ν ε)} (hrun : LinkRun start net tr)
    (h : Mirrors owner (fun _ _ => False) start net once tr tr') (parties : Finset ι) :
    ∃ net' more, LinkRun start net' (more ++ tr) ∧ (∀ l ∈ more, l.IsTry) ∧
      Mirrors owner (fun _ _ => False) start net' once (more ++ tr) tr' ∧
      ∀ i ∈ parties, net'.scripts i = once.scripts i := by
  induction parties using Finset.induction_on with
  | empty => exact ⟨net, [], hrun, by simp, h, by simp⟩
  | @insert i parties hi ih =>
      obtain ⟨net₁, more, hrun₁, hmore, h₁, hsame⟩ := ih
      have hlag := h₁.standing.scripts i
      generalize hs : net₁.scripts i = s at hlag
      generalize honce : once.scripts i = s' at hlag
      cases hlag with
      | same =>
          refine ⟨net₁, more, hrun₁, hmore, h₁, fun j hj => ?_⟩
          rcases Finset.mem_insert.mp hj with rfl | hj
          · rw [hs, honce]
          · exact hsame j hj
      | stopped he => exact he.elim
      | @behind k v next hst =>
          have hown := h₁.standing.owned i
          rw [hs] at hown
          refine ⟨_, .step (.posted i k v) :: more, hrun₁.snoc (.step (.posted hs)),
            List.forall_mem_cons.mpr ⟨trivial, hmore⟩,
            h₁.stay ((h₁.standing.rewrite hst).moveTo ?_ hown.2) fun _ heq => ?_, fun j hj => ?_⟩
          · rw [honce]
            exact .same
          · dsimp only
            rw [heq, Function.update_eq_self_iff]
            exact hst.symm
          · dsimp only
            rcases Finset.mem_insert.mp hj with rfl | hj
            · rw [Function.update_self, honce]
            · by_cases hji : j = i
              · rw [hji, Function.update_self, honce]
              · rw [Function.update_of_ne hji]
                exact hsame j hj

/-- While nothing expires and nobody stops, a run over the links goes on to wherever a
run with each post handled once goes on to. -/
theorem LinkRun.follows [Fintype ι] (hrun : LinkRun start net tr)
    (howned : ∀ i, (start.scripts i).PostsOnly fun k => owner k = some i)
    (htry : ∀ l ∈ tr, l.IsTry) :
    ∃ once tr', NetRun start once tr' ∧ (∀ e ∈ tr', e.IsMove) ∧
      ∀ final more, NetRun start final (more ++ tr') → (∀ e ∈ more, e.IsMove) →
        ∃ more', LinkRun start final (more' ++ tr) ∧ ∀ l ∈ more', l.IsTry := by
  have respects : ∀ l ∈ tr, l.Respects owner fun (_ : ι) (_ : ε) => False := by
    intro l hl
    have := htry l hl
    cases l with
    | step e =>
        cases e with
        | foreign => exact this.elim
        | _ => trivial
    | unheard => trivial
    | broke => exact this
  obtain ⟨once, tr', h⟩ := hrun.mirrored howned respects
  refine ⟨once, tr', h.run, fun e he => (h.events e he).isMove htry,
    fun final more hfinal hmoves => ?_⟩
  obtain ⟨net', more', hrun', hmore', h', hsame⟩ := hrun.catchUp h Finset.univ
  have hnet : net' = once := by
    have hstore := h'.exact (List.forall_mem_append.mpr ⟨hmore', htry⟩)
    have hscripts : net'.scripts = once.scripts := funext fun i => hsame i (Finset.mem_univ i)
    cases net'
    cases once
    cases hstore
    cases hscripts
    rfl
  subst hnet
  refine ⟨more.map .step ++ more', ?_, fun l hl => ?_⟩
  · rw [List.append_assoc]
    exact hrun'.moves (NetRun.after h.run hfinal)
  · rcases List.mem_append.mp hl with hl | hl
    · obtain ⟨e, he, rfl⟩ := List.mem_map.mp hl
      exact hmoves e he
    · exact hmore' l hl

end

end Mailbox
