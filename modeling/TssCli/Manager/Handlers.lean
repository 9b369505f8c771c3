import TssCli.Lib.Supply
import TssCli.Manager.Poison

/-!
# The handlers do not meddle

The four handlers share one map and one supply of UUIDs.  They still do not notice
each other: as long as nobody sets a record by hand, the signing rooms of a run are
those of a run of `signup_sign` alone, and the counters those of a run of
`signup_keygen` alone, with the same requests and the same answers
(`handlers_apart`).  Only the UUIDs are counted differently, since each of the two
draws some of them.

So whatever holds of every run of one handler holds of it in every run of the
manager, as long as the lock is whole.
-/

namespace TssCli

open Transition Supply

/-! ## Renamed UUIDs -/

/-- The same surroundings, where the `j`-th UUID drawn is the one at `f j`. -/
def Env.rename (env : Env) (f : Nat → Nat) (hf : Function.Injective f) : Env where
  overflowChecks := env.overflowChecks
  signupTimeout := env.signupTimeout
  uuid j := env.uuid (f j)
  uuid_injective := env.uuid_injective.comp hf
  uuid_ne_empty j := env.uuid_ne_empty (f j)

/-- What `x` computes on the UUIDs drawn from `k` on, `y` computes on those drawn from
`j` on, if `f` takes these to those. -/
def Rust.Renames {α : Type} (f : Nat → Nat) (x y : Rust α) : Prop :=
  ∀ k a k', x.run k = .ok (a, k') → k ≤ k' ∧ ∀ j, (∀ i < k' - k, f (j + i) = k + i) →
    y.run j = .ok (a, j + (k' - k))

section

variable {α β : Type} {f : Nat → Nat} {x y : Rust α} {g h : α → Rust β}

theorem Rust.Renames.pure (a : α) : Rust.Renames f (pure a) (pure a) := by
  intro k b k' hx
  obtain ⟨rfl, rfl⟩ := Rust.pure_ok hx
  refine ⟨Nat.le_refl _, fun j _ => ?_⟩
  rw [Nat.sub_self]
  rfl

theorem Rust.Renames.lift (x : Except Panic α) : Rust.Renames f (liftM x) (liftM x) := by
  intro k a k' hx
  obtain ⟨rfl, rfl⟩ := Rust.lift_ok hx
  refine ⟨Nat.le_refl _, fun j _ => ?_⟩
  rw [Nat.sub_self]
  rfl

theorem Rust.Renames.bind (hx : Rust.Renames f x y) (hg : ∀ a, Rust.Renames f (g a) (h a)) :
    Rust.Renames f (x >>= g) (y >>= h) := by
  intro k b k'' hrun
  obtain ⟨a, k', h₁, h₂⟩ := Rust.bind_ok hrun
  obtain ⟨hle, hy⟩ := hx k a k' h₁
  obtain ⟨hle', hh⟩ := hg a k' b k'' h₂
  refine ⟨hle.trans hle', fun j hj => ?_⟩
  rw [Rust.run_bind_of_ok (hy j fun i hi => hj i (by omega)), hh (j + (k' - k)) fun i hi => ?_]
  · rw [show j + (k' - k) + (k'' - k') = j + (k'' - k) by omega]
  · rw [Nat.add_assoc, hj _ (by omega)]
    omega

end

section

variable {env : Env} {f : Nat → Nat} (hf : Function.Injective f) {t : UInt64}
  {clock : Clock}
  {request : PartySignupRequestBody}

theorem renames_newUuid : Rust.Renames f (newUuid env) (newUuid (env.rename f hf)) := by
  intro k u k' h
  obtain ⟨rfl, rfl⟩ := newUuid_ok h
  refine ⟨Nat.le_succ _, fun j hj => ?_⟩
  have hfj : f j = k := by simpa using hj 0 (by omega)
  rw [Nat.add_sub_cancel_left]
  show Except.ok (env.uuid (f j), j + 1) = _
  rw [hfj]

/-! ## The handlers on renamed UUIDs -/

theorem renames_newRoom :
    Rust.Renames f (newRoom env request) (newRoom (env.rename f hf) request) :=
  .bind (.lift _) fun _ => .bind (renames_newUuid hf) fun _ => .pure _

theorem renames_newSignParty (partyOrder : UInt16) : Rust.Renames f
    (SigningRoom.newSignParty env partyOrder)
    (SigningRoom.newSignParty (env.rename f hf) partyOrder) :=
  .bind (renames_newUuid hf) fun _ => .pure _

theorem renames_addParty (room : SigningRoom) (n : UInt16) : Rust.Renames f
    (room.addParty env t n) (room.addParty (env.rename f hf) t n) :=
  .bind (.lift _) fun _ => .bind (.lift _) fun _ =>
    .bind (renames_newSignParty hf _) fun _ => .pure _

theorem renames_replaceParty (room : SigningRoom) (n : UInt16) : Rust.Renames f
    (room.replaceParty env t n) (room.replaceParty (env.rename f hf) t n) :=
  .bind (.lift _) fun _ => .bind (renames_newSignParty hf _) fun _ => .pure _

theorem renames_enterRoom (room : SigningRoom) : Rust.Renames f
    (enterRoom env clock request room) (enterRoom (env.rename f hf) clock request room) := by
  unfold enterRoom
  split
  next =>
    split
    next => exact .bind (.lift _) fun _ => .pure _
    next =>
      refine .bind (.lift _) fun allInactive => ?_
      cases allInactive with
      | true => exact .bind (renames_newRoom hf) fun _ => .pure _
      | false => exact .pure _
  next => exact .pure _

theorem renames_signupParty (room : SigningRoom) : Rust.Renames f
    (signupParty env clock request room) (signupParty (env.rename f hf) clock request room) := by
  unfold signupParty
  refine .bind (.lift _) fun refused => ?_
  cases refused with
  | true => exact .pure _
  | false =>
      dsimp only
      split
      next => exact .pure _
      next =>
        split
        next =>
          split
          next => exact .pure _
          next => exact .bind (.lift _) fun _ => .pure _
        next =>
          split
          next =>
            refine .bind (.lift _) fun active => ?_
            cases active with
            | true => exact .pure _
            | false => exact .bind (renames_replaceParty hf _ _) fun _ => .pure _
          next => exact .bind (renames_addParty hf _ _) fun _ => .pure _

theorem renames_signupRoom (before : Option SigningRoom) : Rust.Renames f
    (signupRoom env clock request before) (signupRoom (env.rename f hf) clock request before) := by
  have hroom : Rust.Renames f (before.elim (newRoom env request) pure)
      (before.elim (newRoom (env.rename f hf) request) pure) := by
    cases before with
    | none => exact renames_newRoom hf
    | some r => exact .pure r
  refine .bind hroom fun room => .bind (renames_enterRoom hf room) fun entered => ?_
  cases entered with
  | error answer => exact .pure _
  | ok room => exact renames_signupParty hf room

theorem renames_nextSignup (c : PartySignup) (parties : UInt16) : Rust.Renames f
    (nextSignup env c parties) (nextSignup (env.rename f hf) c parties) := by
  unfold nextSignup
  split
  next => exact .bind (.lift _) fun _ => .pure _
  next => exact .bind (renames_newUuid hf) fun _ => .pure _

end

/-! ## Runs of all handlers -/

section

variable (env : Env) (keygenJson : Codec PartySignup) (roomJson : Codec SigningRoom)

/-- One request of anybody, at a time that does not go back, or the end of an entry's
time. -/
inductive TimedStep : ManagerState → ManagerRecord → ManagerState → Prop where
  | request {m : ManagerState} {clock : Clock} (request : ManagerRequest) :
      clock.Ordered m.clock →
      TimedStep m ⟨m, .request clock request⟩ (handle env keygenJson roomJson m clock request).1
  | expired {m : ManagerState} (key : Key) :
      TimedStep m ⟨m, .expired key⟩ { m with db := Function.update m.db key none }

/-- A run of the manager. -/
abbrev TimedRun : ManagerState → List ManagerRecord → Prop :=
  Run (fun m => m = ManagerState.init) (TimedStep env keygenJson roomJson)

/-- Nobody sets a record by hand. -/
def ManagerRecord.KeepsRecords (c : ManagerRecord) : Prop :=
  ∀ clock entry, c.event = .request clock (.set entry) →
    (∀ curve, entry.key ≠ keygenKey curve) ∧ ∀ request, entry.key ≠ signKey request

/-- The part of `signup_sign` in what happens. -/
def ManagerRecord.sign (c : ManagerRecord) : Option SignEvent :=
  match c.event with
  | .request clock (.signupSign request) =>
      some (.request (recordOf env roomJson c.before clock request))
  | .expired key => some (.expired key)
  | _ => none

/-- The state as `signup_keygen` sees it. -/
def ManagerState.counters (m : ManagerState) : CounterState := ⟨m.db, m.issued, m.poisoned⟩

/-- The part of `signup_keygen` in what happens. -/
def ManagerRecord.keygen (c : ManagerRecord) : Option KeygenEvent :=
  match c.event with
  | .request _ (.signupKeygen params curve) =>
      some (.request (keygenRecordOf env keygenJson c.before.counters params curve))
  | .expired key => some (.expired key)
  | _ => none

/-- The UUIDs drawn in answer to a request. -/
def ManagerRecord.Draws (c : ManagerRecord) (x : Nat) : Prop :=
  match c.event with
  | .request clock request =>
      c.before.issued ≤ x ∧ x < (handle env keygenJson roomJson c.before clock request).1.issued
  | .expired _ => False

/-- The UUIDs that `signup_sign` has drawn. -/
def SignDrew (tr : List ManagerRecord) (x : Nat) : Prop :=
  ∃ c ∈ tr, (∃ clock request, c.event = .request clock (.signupSign request)) ∧
    c.Draws env keygenJson roomJson x

/-- The UUIDs that `signup_keygen` has drawn. -/
def KeygenDrew (tr : List ManagerRecord) (x : Nat) : Prop :=
  ∃ c ∈ tr, (∃ clock params curve, c.event = .request clock (.signupKeygen params curve)) ∧
    c.Draws env keygenJson roomJson x

/-- `signup_sign` alone has run as `tr`, has drawn `n` UUIDs and left the rooms of `m`. -/
def SignsAlone (m : ManagerState) (tr : List SignEvent) (n : Nat) : Prop :=
  ∃ m₁, SignRun env roomJson m₁ tr ∧ m₁.issued = n ∧ m₁.poisoned = false ∧ m₁.clock ≤ m.clock ∧
    ∀ request, m₁.db (signKey request) = m.db (signKey request)

/-- `signup_keygen` alone has run as `tr`, has drawn `n` UUIDs and left the counters of
`m`. -/
def CountsAlone (m : ManagerState) (tr : List KeygenEvent) (n : Nat) : Prop :=
  ∃ c₁, KeygenRun env keygenJson c₁ tr ∧ c₁.issued = n ∧ c₁.poisoned = false ∧
    ∀ curve, c₁.db (keygenKey curve) = m.db (keygenKey curve)

end

section

variable {env : Env} {keygenJson : Codec PartySignup} {roomJson : Codec SigningRoom}
  {m m' : ManagerState} {tr : List ManagerRecord} {c : ManagerRecord} {clock : Clock}
  {request : ManagerRequest}

theorem handle_clock (m : ManagerState) (clock : Clock) (request : ManagerRequest) :
    (handle env keygenJson roomJson m clock request).1.clock = clock.stop := by
  cases request with
  | get key =>
      rw [handle]
      split <;> rfl
  | set entry =>
      rw [handle]
      split <;> rfl
  | signupKeygen params curve => rfl
  | signupSign request =>
      rw [handle_sign]
      unfold serve
      split
      next => rfl
      next => split <;> rfl

theorem handle_issued (m : ManagerState) (clock : Clock) (request : ManagerRequest) :
    m.issued ≤ (handle env keygenJson roomJson m clock request).1.issued := by
  cases request with
  | get key =>
      rw [handle]
      split <;> exact Nat.le_refl _
  | set entry =>
      rw [handle]
      split <;> exact Nat.le_refl _
  | signupKeygen params curve =>
      exact (serveKeygen_other env keygenJson m.counters params curve).1
  | signupSign request =>
      rcases serve_cases env roomJson m clock request with ⟨p, -, -, hissued⟩ | ⟨answer, -, hh, -⟩
      · exact hissued.ge
      · exact hh.le

/-- A request that is handled with a whole lock finds it whole. -/
theorem handle_found_whole
    (h : (handle env keygenJson roomJson m clock request).1.poisoned = false) :
    m.poisoned = false := by
  cases hp : m.poisoned with
  | false => rfl
  | true =>
      rw [handle_poisoned hp] at h
      cases h

/-- A request writes under the keys of the entries that it stores. -/
theorem handle_db_of_ne {key : Key}
    (hkey : ∀ entry, Stores keygenJson roomJson request entry → key ≠ entry.key) :
    (handle env keygenJson roomJson m clock request).1.db key = m.db key := by
  rcases @handle_stores env _ _ m clock request with h | ⟨entry, hstores, h⟩
  · rw [h]
  · rw [h]
    exact Function.update_of_ne (hkey entry hstores) _ _

/-- A UUID is drawn in answer to one request. -/
theorem TimedRun.draws_once (h : TimedRun env keygenJson roomJson m tr) :
    (∀ c ∈ tr, ∀ x, c.Draws env keygenJson roomJson x → x < m.issued) ∧
      ∀ c ∈ tr, ∀ c' ∈ tr, ∀ x, c.Draws env keygenJson roomJson x →
        c'.Draws env keygenJson roomJson x → c = c' := by
  refine Run.invariant (fun m tr =>
    (∀ c ∈ tr, ∀ x, c.Draws env keygenJson roomJson x → x < m.issued) ∧
      ∀ c ∈ tr, ∀ c' ∈ tr, ∀ x, c.Draws env keygenJson roomJson x →
        c'.Draws env keygenJson roomJson x → c = c') ?_ ?_ h
  · rintro m rfl
    exact ⟨by simp, by simp⟩
  · intro m c m' tr _ ⟨hlt, honce⟩ hs
    have hissued : m.issued ≤ m'.issued := by
      cases hs with
      | expired => exact Nat.le_refl _
      | request => exact handle_issued ..
    have hnew : ∀ x, c.Draws env keygenJson roomJson x → m.issued ≤ x ∧ x < m'.issued := by
      intro x hx
      cases hs with
      | expired => exact hx.elim
      | request => exact hx
    constructor
    · intro d hd x hx
      rcases List.mem_cons.mp hd with rfl | hd
      · exact (hnew x hx).2
      · exact (hlt d hd x hx).trans_le hissued
    · intro d hd d' hd' x hx hx'
      rcases List.mem_cons.mp hd with rfl | hold <;> rcases List.mem_cons.mp hd' with rfl | hold'
      · rfl
      · exact absurd (hnew x hx).1 (Nat.not_le.mpr (hlt d' hold' x hx'))
      · exact absurd (hnew x hx').1 (Nat.not_le.mpr (hlt d hold x hx))
      · exact honce d hold d' hold' x hx hx'

/-- No UUID is drawn by both. -/
theorem TimedRun.drew_apart (h : TimedRun env keygenJson roomJson m tr) {x : Nat}
    (hs : SignDrew env keygenJson roomJson tr x) : ¬ KeygenDrew env keygenJson roomJson tr x := by
  rintro ⟨c', hc', ⟨clock', params, curve, he'⟩, hx'⟩
  obtain ⟨c, hc, ⟨clock, request, he⟩, hx⟩ := hs
  obtain rfl := h.draws_once.2 c hc c' hc' x hx hx'
  rw [he] at he'
  cases he'

theorem SignDrew.cons {x : Nat} (h : SignDrew env keygenJson roomJson tr x) :
    SignDrew env keygenJson roomJson (c :: tr) x := by
  obtain ⟨d, hd, hx⟩ := h
  exact ⟨d, List.mem_cons_of_mem _ hd, hx⟩

theorem KeygenDrew.cons {x : Nat} (h : KeygenDrew env keygenJson roomJson tr x) :
    KeygenDrew env keygenJson roomJson (c :: tr) x := by
  obtain ⟨d, hd, hx⟩ := h
  exact ⟨d, List.mem_cons_of_mem _ hd, hx⟩

/-! ## Sign-ups for signings, alone -/

theorem SignsAlone.stay {env : Env} {tr : List SignEvent} {n : Nat}
    (h : SignsAlone env roomJson m tr n) (hclock : m.clock ≤ m'.clock)
    (hdb : ∀ request, m'.db (signKey request) = m.db (signKey request)) :
    SignsAlone env roomJson m' tr n := by
  obtain ⟨m₁, hrun, hissued, hp, hle, hrooms⟩ := h
  exact ⟨m₁, hrun, hissued, hp, UInt64.le_trans hle hclock, fun request =>
    (hrooms request).trans (hdb request).symm⟩

theorem SignsAlone.expire {env : Env} {tr : List SignEvent} {n : Nat}
    (h : SignsAlone env roomJson m tr n) (key : Key) :
    SignsAlone env roomJson { m with db := Function.update m.db key none } (.expired key :: tr)
      n := by
  obtain ⟨m₁, hrun, hissued, hp, hle, hrooms⟩ := h
  refine ⟨_, hrun.snoc .expired, hissued, hp, hle, fun request => ?_⟩
  dsimp only
  by_cases hkey : signKey request = key
  · rw [hkey, Function.update_self, Function.update_self]
  · rw [Function.update_of_ne hkey, Function.update_of_ne hkey]
    exact hrooms request

/-- A request that leaves the lock whole is answered. -/
theorem serve_whole {request : PartySignupRequestBody}
    (h : (serve env roomJson m clock request).1.poisoned = false) :
    ∃ answer, (serve env roomJson m clock request).2 = .ok answer := by
  unfold serve at h ⊢
  split
  next hp =>
    rw [if_pos hp] at h
    rw [hp] at h
    cases h
  next hp =>
    rw [if_neg hp] at h
    split
    next => exact ⟨_, rfl⟩
    next hrun =>
      rw [hrun] at h
      cases h

/-- The same request, handled alone. -/
theorem SignsAlone.answer {f : Nat → Nat} {hf : Function.Injective f}
    {request : PartySignupRequestBody} {tr : List SignEvent} {n : Nat}
    (h : SignsAlone (env.rename f hf) roomJson m tr n) (hclock : clock.Ordered m.clock)
    (hwhole : (serve env roomJson m clock request).1.poisoned = false)
    (hdraw : ∀ i < (serve env roomJson m clock request).1.issued - m.issued,
      f (n + i) = m.issued + i) :
    SignsAlone (env.rename f hf) roomJson (serve env roomJson m clock request).1
      (.request (recordOf env roomJson m clock request) :: tr)
      (n + ((serve env roomJson m clock request).1.issued - m.issued)) := by
  obtain ⟨m₁, hrun, rfl, hp₁, hle, hrooms⟩ := h
  obtain ⟨answer, ha⟩ := serve_whole hwhole
  obtain ⟨hp, before, stored, k', hread, -, hroom⟩ := serve_answered ha
  have hserve := serve_of_room request hp hread hroom
  rw [hserve] at hdraw ⊢
  have hread₁ : readRoom roomJson m₁.db (signKey request) = .ok before := by
    rw [← hread, readRoom, readRoom, hrooms]
  have hserve₁ := serve_of_room request hp₁ hread₁
    ((renames_signupRoom hf before _ _ _ hroom).2 m₁.issued hdraw)
  have hrecord : recordOf (env.rename f hf) roomJson m₁ clock request =
      recordOf env roomJson m clock request := by
    simp only [recordOf, hserve, hserve₁, storeRoom_roomAt, roomAt_congr (hrooms request)]
  have hstep : SignStep (env.rename f hf) roomJson m₁ _ _ :=
    @SignStep.request _ _ _ _ request (hclock.of_le hle)
  rw [hrecord, hserve₁] at hstep
  refine ⟨_, hrun.snoc hstep, rfl, hp₁, UInt64.le_refl _, fun request' => ?_⟩
  dsimp only
  cases stored with
  | none => exact hrooms request'
  | some r =>
      by_cases hkey : signKey request' = signKey request
      · rw [hkey]
        show Function.update _ _ _ _ = Function.update _ _ _ _
        rw [Function.update_self, Function.update_self]
      · rw [storeRoom_other _ _ _ hkey, storeRoom_other _ _ _ hkey]
        exact hrooms request'

/-- The rooms of a run are those of a run of `signup_sign` alone. -/
theorem TimedRun.signsAlone (h : TimedRun env keygenJson roomJson m tr)
    (hkeeps : ∀ c ∈ tr, c.KeepsRecords) (hp : m.poisoned = false) :
    Drawn (SignDrew env keygenJson roomJson tr)
      (fun f hf n => SignsAlone (env.rename f hf) roomJson m
        (tr.filterMap (ManagerRecord.sign env roomJson)) n) m.issued := by
  refine Run.invariant_of (fun m tr => m.poisoned = false →
    Drawn (SignDrew env keygenJson roomJson tr)
      (fun f hf n => SignsAlone (env.rename f hf) roomJson m
        (tr.filterMap (ManagerRecord.sign env roomJson)) n) m.issued)
    ManagerRecord.KeepsRecords ?_ ?_ h hkeeps hp
  · rintro m rfl -
    exact .none fun f hf => ⟨_, .start rfl, rfl, rfl, UInt64.le_refl _, fun _ => rfl⟩
  · intro m c m' tr _ ih hkeep hs hp
    cases hs with
    | expired key =>
        exact (ih hp).stay (Nat.le_refl _) (fun _ h => h.cons) fun f hf n h => h.expire key
    | @request clock request hclock =>
        have ih := ih (handle_found_whole hp)
        cases hreq : (ManagerRecord.sign env roomJson ⟨m, .request clock request⟩) with
        | none =>
            rw [List.filterMap_cons_none hreq]
            refine ih.stay (handle_issued m clock request) (fun _ h => h.cons)
              fun f hf n h => h.stay ?_ fun r => ?_
            · rw [handle_clock]
              exact hclock.le_stop
            · refine handle_db_of_ne fun entry hstores => ?_
              cases hstores with
              | posted entry => exact ((hkeep clock entry rfl).2 r).symm
              | counted s => exact keygenKey_ne_signKey _ r
              | seated => cases hreq
        | some event =>
            rw [List.filterMap_cons_some hreq]
            cases request with
            | get key => cases hreq
            | set entry => cases hreq
            | signupKeygen params curve => cases hreq
            | signupSign request =>
                cases hreq
                refine ih.draw (handle_issued m clock (.signupSign request)) (fun x hx => ?_)
                  fun f hf n h hdraw => h.answer hclock hp hdraw
                exact hx.elim (fun h => h.cons)
                  fun hx => ⟨_, List.mem_cons_self, ⟨clock, request, rfl⟩, hx⟩

/-! ## Sign-ups for key generations, alone -/

theorem CountsAlone.stay {env : Env} {tr : List KeygenEvent} {n : Nat}
    (h : CountsAlone env keygenJson m tr n)
    (hdb : ∀ curve, m'.db (keygenKey curve) = m.db (keygenKey curve)) :
    CountsAlone env keygenJson m' tr n := by
  obtain ⟨c₁, hrun, hissued, hp, hcounters⟩ := h
  exact ⟨c₁, hrun, hissued, hp, fun curve => (hcounters curve).trans (hdb curve).symm⟩

theorem CountsAlone.expire {env : Env} {tr : List KeygenEvent} {n : Nat}
    (h : CountsAlone env keygenJson m tr n) (key : Key) :
    CountsAlone env keygenJson { m with db := Function.update m.db key none }
      (.expired key :: tr) n := by
  obtain ⟨c₁, hrun, hissued, hp, hcounters⟩ := h
  refine ⟨_, hrun.snoc (.expired key), hissued, hp, fun curve => ?_⟩
  dsimp only
  by_cases hkey : keygenKey curve = key
  · rw [hkey, Function.update_self, Function.update_self]
  · rw [Function.update_of_ne hkey, Function.update_of_ne hkey]
    exact hcounters curve

/-- The same count on a map with the same counter. -/
theorem signupKeygen_renamed {f : Nat → Nat} (hf : Function.Injective f) {params : Params}
    {curve : String} {db db' db₁ : Db} {s : PartySignup} {k k' j : Nat}
    (h : (signupKeygen env keygenJson params curve db).run k = .ok ((s, db'), k'))
    (hdb : db₁ (keygenKey curve) = db (keygenKey curve))
    (hdraw : ∀ i < k' - k, f (j + i) = k + i) :
    (signupKeygen (env.rename f hf) keygenJson params curve db₁).run j =
      .ok ((s, set db₁ ⟨keygenKey curve, keygenJson.encode s⟩), j + (k' - k)) := by
  have hread : Rust.Renames f (readCounter env keygenJson db (keygenKey curve))
      (readCounter (env.rename f hf) keygenJson db₁ (keygenKey curve)) := by
    unfold readCounter
    rw [hdb]
    split
    next => exact .lift _
    next => exact .bind (renames_newUuid hf) fun _ => .pure _
  obtain ⟨parties, k₀, h₀, hcount⟩ := Rust.bind_ok h
  obtain ⟨hparse, rfl⟩ := Rust.lift_ok h₀
  have hboth : Rust.Renames f
      (readCounter env keygenJson db (keygenKey curve) >>= fun c => nextSignup env c parties)
      (readCounter (env.rename f hf) keygenJson db₁ (keygenKey curve) >>= fun c =>
        nextSignup (env.rename f hf) c parties) :=
    hread.bind fun c => renames_nextSignup hf c parties
  obtain ⟨c, k₁, h₁, hnext⟩ := Rust.bind_ok hcount
  obtain ⟨s', k₂, h₂, hstore⟩ := Rust.bind_ok hnext
  obtain ⟨hp, rfl⟩ := Rust.pure_ok hstore
  obtain ⟨rfl, rfl⟩ := Prod.mk.inj hp
  have hrun := (hboth _ s _ ((Rust.run_bind_of_ok h₁ _).trans h₂)).2 j hdraw
  obtain ⟨c', j₁, hj₁, hj₂⟩ := Rust.bind_ok hrun
  unfold signupKeygen
  rw [hparse, Rust.lift_ok_bind, Rust.run_bind_of_ok hj₁, Rust.run_bind_of_ok hj₂]
  rfl

/-- A request with a whole lock is answered, or its parameter cannot be parsed. -/
theorem serveKeygen_whole {params : Params} {curve : String} {c : CounterState}
    (h : (serveKeygen env keygenJson c params curve).1.poisoned = false) :
    (∃ p, parseU16 params.parties = .error p ∧
      serveKeygen env keygenJson c params curve = (c, .error p)) ∨
    ∃ s, (serveKeygen env keygenJson c params curve).2 = .ok s := by
  unfold serveKeygen at h ⊢
  split
  next p hparse => exact Or.inl ⟨p, hparse, rfl⟩
  next parties hparse =>
    rw [hparse] at h
    dsimp only at h
    right
    split
    next hp =>
      rw [if_pos hp, hp] at h
      cases h
    next hp =>
      rw [if_neg hp] at h
      split
      next => exact ⟨_, rfl⟩
      next hrun =>
        rw [hrun] at h
        cases h

/-- The same request, handled alone. -/
theorem CountsAlone.answer {f : Nat → Nat} {hf : Function.Injective f} {params : Params}
    {curve : String} {tr : List KeygenEvent} {n : Nat}
    (h : CountsAlone (env.rename f hf) keygenJson m tr n)
    (hwhole : (handle env keygenJson roomJson m clock
      (.signupKeygen params curve)).1.poisoned = false)
    (hdraw : ∀ i < (handle env keygenJson roomJson m clock (.signupKeygen params curve)).1.issued -
      m.issued, f (n + i) = m.issued + i) :
    CountsAlone (env.rename f hf) keygenJson
      (handle env keygenJson roomJson m clock (.signupKeygen params curve)).1
      (.request (keygenRecordOf env keygenJson m.counters params curve) :: tr)
      (n + ((handle env keygenJson roomJson m clock (.signupKeygen params curve)).1.issued -
        m.issued)) := by
  obtain ⟨c₁, hrun, rfl, hp₁, hcounters⟩ := h
  have hbefore : counterAt keygenJson c₁.db (keygenKey curve) =
      counterAt keygenJson m.db (keygenKey curve) := by
    rw [counterAt, counterAt, hcounters]
  have hstep : KeygenStep (env.rename f hf) keygenJson c₁ _ _ := .request params curve
  rw [handle_keygen] at hwhole hdraw ⊢
  rcases serveKeygen_whole hwhole with ⟨p, hparse, hserve⟩ | ⟨s, hanswer⟩
  · have hserve₁ : serveKeygen (env.rename f hf) keygenJson c₁ params curve = (c₁, .error p) := by
      rw [serveKeygen, hparse]
    have hrecord : keygenRecordOf (env.rename f hf) keygenJson c₁ params curve =
        keygenRecordOf env keygenJson m.counters params curve := by
      simp only [keygenRecordOf, ManagerState.counters, hserve, hserve₁, hbefore]
    rw [hrecord, hserve₁] at hstep
    refine ⟨_, hrun.snoc hstep, ?_, hp₁, fun curve' => ?_⟩
    · rw [hserve]
      show c₁.issued = c₁.issued + (m.issued - m.issued)
      omega
    · rw [hserve]
      exact hcounters curve'
  · obtain ⟨hp, db, k', hsignup⟩ := serveKeygen_answered hanswer
    obtain ⟨parties, c, k₁, hparse, -, -, rfl⟩ := signupKeygen_ok hsignup
    have hserve := serveKeygen_of_run hparse hp hsignup
    rw [hserve] at hdraw ⊢
    have hserve₁ := serveKeygen_of_run (c := c₁) hparse hp₁
      (signupKeygen_renamed hf hsignup (hcounters curve) hdraw)
    have hrecord : keygenRecordOf (env.rename f hf) keygenJson c₁ params curve =
        keygenRecordOf env keygenJson m.counters params curve := by
      simp only [keygenRecordOf, ManagerState.counters, hserve, hserve₁, hbefore]
    rw [hrecord, hserve₁] at hstep
    refine ⟨_, hrun.snoc hstep, rfl, hp₁, fun curve' => ?_⟩
    by_cases hkey : keygenKey curve' = keygenKey curve
    · rw [hkey]
      show Function.update _ _ _ _ = Function.update _ _ _ _
      rw [Function.update_self, Function.update_self]
    · show Function.update _ _ _ _ = Function.update _ _ _ _
      rw [Function.update_of_ne hkey, Function.update_of_ne hkey]
      exact hcounters curve'

/-- The counters of a run are those of a run of `signup_keygen` alone. -/
theorem TimedRun.countsAlone (h : TimedRun env keygenJson roomJson m tr)
    (hkeeps : ∀ c ∈ tr, c.KeepsRecords) (hp : m.poisoned = false) :
    Drawn (KeygenDrew env keygenJson roomJson tr)
      (fun f hf n => CountsAlone (env.rename f hf) keygenJson m
        (tr.filterMap (ManagerRecord.keygen env keygenJson)) n) m.issued := by
  refine Run.invariant_of (fun m tr => m.poisoned = false →
    Drawn (KeygenDrew env keygenJson roomJson tr)
      (fun f hf n => CountsAlone (env.rename f hf) keygenJson m
        (tr.filterMap (ManagerRecord.keygen env keygenJson)) n) m.issued)
    ManagerRecord.KeepsRecords ?_ ?_ h hkeeps hp
  · rintro m rfl -
    exact .none fun f hf => ⟨_, .start rfl, rfl, rfl, fun _ => rfl⟩
  · intro m c m' tr _ ih hkeep hs hp
    cases hs with
    | expired key =>
        exact (ih hp).stay (Nat.le_refl _) (fun _ h => h.cons) fun f hf n h => h.expire key
    | @request clock request hclock =>
        have ih := ih (handle_found_whole hp)
        cases hreq : (ManagerRecord.keygen env keygenJson ⟨m, .request clock request⟩) with
        | none =>
            rw [List.filterMap_cons_none hreq]
            refine ih.stay (handle_issued m clock request) (fun _ h => h.cons)
              fun f hf n h => h.stay fun curve => ?_
            refine handle_db_of_ne fun entry hstores => ?_
            cases hstores with
            | posted entry => exact ((hkeep clock entry rfl).1 curve).symm
            | counted s => cases hreq
            | seated => exact (keygenKey_ne_signKey curve _).symm
        | some event =>
            rw [List.filterMap_cons_some hreq]
            cases request with
            | get key => cases hreq
            | set entry => cases hreq
            | signupSign request => cases hreq
            | signupKeygen params curve =>
                cases hreq
                refine ih.draw (handle_issued m clock (.signupKeygen params curve)) (fun x hx => ?_)
                  fun f hf n h hdraw => h.answer hp hdraw
                exact hx.elim (fun h => h.cons)
                  fun hx => ⟨_, List.mem_cons_self, ⟨clock, params, curve, rfl⟩, hx⟩

end

/-- In every run of the manager in which nobody sets a record by hand and the lock stays
whole, the rooms and the sign-ups for signings are those of a run of `signup_sign`
alone, and the counters and the sign-ups for key generations those of a run of
`signup_keygen` alone, up to the numbering of the UUIDs.  No UUID is in both. -/
theorem handlers_apart {env : Env} {keygenJson : Codec PartySignup} {roomJson : Codec SigningRoom}
    {m : ManagerState} {tr : List ManagerRecord} (h : TimedRun env keygenJson roomJson m tr)
    (hkeeps : ∀ c ∈ tr, c.KeepsRecords) (hp : m.poisoned = false) :
    ∃ f hf m₁ f' hf' c₁,
      SignRun (env.rename f hf) roomJson m₁ (tr.filterMap (ManagerRecord.sign env roomJson)) ∧
      KeygenRun (env.rename f' hf') keygenJson c₁
        (tr.filterMap (ManagerRecord.keygen env keygenJson)) ∧
      (∀ request, m₁.db (signKey request) = m.db (signKey request)) ∧
      (∀ curve, c₁.db (keygenKey curve) = m.db (keygenKey curve)) ∧
      ∀ j < m₁.issued, ∀ j' < c₁.issued, f j ≠ f' j' := by
  obtain ⟨f, hf, n, ⟨m₁, hsign, rfl, -, -, hrooms⟩, hdrew⟩ := (h.signsAlone hkeeps hp).exists
  obtain ⟨f', hf', n', ⟨c₁, hkeygen, rfl, -, hcounters⟩, hdrew'⟩ :=
    (h.countsAlone hkeeps hp).exists
  refine ⟨f, hf, m₁, f', hf', c₁, hsign, hkeygen, hrooms, hcounters, fun j hj j' hj' heq => ?_⟩
  exact h.drew_apart (hdrew j hj) (heq ▸ hdrew' j' hj')

/-- Requests that are played at one time make a run. -/
theorem playManager_timed (env : Env) (keygenJson : Codec PartySignup)
    (roomJson : Codec SigningRoom) (now : UInt64) : ∀ requests : List ManagerRequest,
      TimedRun env keygenJson roomJson (playManager env keygenJson roomJson now requests).1
        (playManager env keygenJson roomJson now requests).2 ∧
      (playManager env keygenJson roomJson now requests).1.clock ≤ now
  | [] => ⟨.start rfl, UInt64.zero_le⟩
  | request :: earlier => by
      obtain ⟨hrun, hclock⟩ := playManager_timed env keygenJson roomJson now earlier
      exact ⟨hrun.snoc (.request request (Clock.ordered_steady hclock)),
        UInt64.le_of_eq (handle_clock _ now request)⟩

/-- A letter is set between a sign-up for a key generation and one for a signing. -/
def interleavedRequests : List ManagerRequest :=
  [.signupSign (requestOf 1 ""), .set ⟨"1-round1-u", "text"⟩, .signupKeygen ⟨"2", "1"⟩ "ECDSA"]

/-- The two handlers, when their requests are interleaved. -/
theorem handlers_apart_interleaved :
    let tr := (playManager defaultEnv tallyCodec (Codec.ofCountable SigningRoom) 10
      interleavedRequests).2
    ∃ f hf m₁ f' hf' c₁,
      SignRun (defaultEnv.rename f hf) (Codec.ofCountable SigningRoom) m₁
        (tr.filterMap (ManagerRecord.sign defaultEnv (Codec.ofCountable SigningRoom))) ∧
      KeygenRun (defaultEnv.rename f' hf') tallyCodec c₁
        (tr.filterMap (ManagerRecord.keygen defaultEnv tallyCodec)) ∧
      ∀ j < m₁.issued, ∀ j' < c₁.issued, f j ≠ f' j' := by
  intro tr
  have hkeeps : ∀ c ∈ tr, c.KeepsRecords := by
    intro c hc clock entry he
    have hset : entry = ⟨(Letter.toAll 1 round1 "u").key, "text"⟩ := by
      rcases List.mem_cons.mp hc with rfl | hc
      · cases he
      rcases List.mem_cons.mp hc with rfl | hc
      · cases he
        rfl
      · obtain rfl := List.mem_singleton.mp hc
        cases he
    rw [hset]
    exact ⟨fun curve => Letter.key_ne_keygenKey (.toAll 1 round1 "u") curve,
      fun r => Letter.key_ne_signKey (.toAll 1 round1 "u") r⟩
  obtain ⟨f, hf, m₁, f', hf', c₁, hsign, hkeygen, -, -, hapart⟩ :=
    handlers_apart (playManager_timed defaultEnv tallyCodec _ 10 interleavedRequests).1 hkeeps
      (by decide)
  exact ⟨f, hf, m₁, f', hf', c₁, hsign, hkeygen, hapart⟩

end TssCli
