import TssCli.Protocols.KeygenAgreement
import TssCli.System.Beginnings
import TssCli.System.Quorum

/-!
# Key generations in the world

The calls of `keygen` that are let into one session play the parts of one run of the
protocol, whatever else the manager does meanwhile, and whichever requests and answers
are lost.  So the key files that they write agree (`Tool.ecdsa_agreement`,
`Tool.eddsa_agreement`), if they were called with one threshold and one number of
parties, which nothing but the users see to.  And a file is written only when the
session is full.
-/

namespace TssCli

open Mailbox Mailbox.Script Transition Polynomial

/-! ## Agreement of fewer files -/

/-- The files of some parties agree if those of more do. -/
theorem KeygenAgreement.mono {F G E : Type} [Field F] [AddCommGroup G] [Module F G] {n t : Nat}
    {g : G} {contribution : Fin n → G} {written written' : Fin n → StoredKey F G E → Prop}
    (h : KeygenAgreement g t contribution written) (hsub : ∀ i f, written' i f → written i f) :
    KeygenAgreement g t contribution written' where
  same i j f f' hf hf' := h.same i j f f' (hsub i f hf) (hsub j f' hf')
  ySum i f hf := h.ySum i f (hsub i f hf)
  commitments i f hf := h.commitments i f (hsub i f hf)
  shares := by
    obtain ⟨p, hdegree, hsecret, hvalue, hinterpolate⟩ := h.shares
    exact ⟨p, hdegree, hsecret, fun i f hf => hvalue i f (hsub i f hf),
      fun s f hs hf => hinterpolate s f hs fun i hi => hsub i _ (hf i hi)⟩

section

variable {F G F' G' : Type} [Field F] [AddCommGroup G] [Module F G] [DecidableEq G] [Field F']
  [DecidableEq F'] [AddCommGroup G'] [Module F' G']

variable {tool : Tool F G F' G'}

/-- The client is in a session, and was called for a key generation with these
parameters. -/
def Tool.InKeygen (tool : Tool F G F' G') (calls : Nat → tool.Call) (w : World tool.Output)
    (uuid : String) (t n : UInt16) (curve : String) (i : Nat) : Prop :=
  tool.Keygens t n curve (calls i) ∧
    ∃ seat total, (w.process i).Holds seat total ∧ seat.uuid = uuid

/-- A run with a session of a key generation, to which no other programs post, and whose
clients were called with one threshold below one number of parties. -/
structure Tool.KeygenIn (tool : Tool F G F' G') (env : Env) (keygenJson : Codec PartySignup)
    (roomJson : Codec SigningRoom) (calls : Nat → tool.Call) (w : World tool.Output)
    (tr : List WorldEvent) (uuid : String) (t n : UInt16) (curve : String) : Prop where
  run : tool.Run env keygenJson roomJson calls w tr
  out : StaysOut uuid tr
  whole : w.manager.poisoned = false
  begun : ∃ i, tool.InKeygen calls w uuid t n curve i
  same : ∀ i t' n' curve', tool.InKeygen calls w uuid t' n' curve' i → t' = t ∧ n' = n
  lt : t < n

variable {env : Env} {keygenJson : Codec PartySignup} {roomJson : Codec SigningRoom}
  {calls : Nat → tool.Call} {w : World tool.Output} {tr : List WorldEvent} {uuid curve : String}
  {t n : UInt16}

/-- A key generation that has begun. -/
theorem Begun.keygenIn {client : Nat → Nat}
    (h : Begun env keygenJson roomJson (fun i => tool.command (calls i)) client uuid n w tr)
    (hcalls : ∀ k, 1 ≤ k → k ≤ n.toNat → tool.Keygens t n curve (calls (client k)))
    (hlt : t < n) :
    tool.KeygenIn env keygenJson roomJson calls w tr uuid t n curve where
  run := h.run
  out := ⟨fun _ hr => (h.not_other hr).elim, fun _ hr => (h.not_other hr).elim⟩
  whole := h.whole
  begun := by
    have hn : 1 ≤ n.toNat := Nat.one_le_iff_ne_zero.mpr (Nat.ne_zero_of_lt hlt)
    exact ⟨client 1, hcalls 1 le_rfl hn, _, _, ⟨_, h.seated 1 le_rfl hn⟩, rfl⟩
  same := by
    rintro i t' n' curve' ⟨hkeygens, seat, total, hi, -⟩
    obtain ⟨k, h₁, hk, rfl, -, -⟩ := h.holder hi
    have hask := (hcalls k h₁ hk).ask
    rw [hkeygens.ask] at hask
    cases hask
    exact ⟨rfl, rfl⟩
  lt := hlt

/-! ## The clients of a session -/

theorem Tool.KeygenIn.session
    (h : tool.KeygenIn env keygenJson roomJson calls w tr uuid t n curve) :
    (∀ i seat total, (w.process i).Holds seat total → seat.uuid = uuid →
      total = n ∧ tool.Keygens t n curve (calls i)) ∧ SeatsOf w uuid n := by
  obtain ⟨i₀, hkeygens, seat₀, total₀, hholds, rfl⟩ := h.begun
  have hkeeps := h.run.keepsRecords (fun i => tool.postsOwn (calls i)) h.out.records
  have hcounted : Counted env keygenJson tr i₀ n curve seat₀ := by
    rcases h.run.holder hholds with ⟨t', curve', hask, hcounted⟩ | ⟨args, hask⟩
    · rw [hkeygens.ask] at hask
      cases hask
      exact hcounted
    · rw [hkeygens.ask] at hask
      cases hask
  have hall : ∀ i seat total, (w.process i).Holds seat total → seat.uuid = seat₀.uuid →
      total = n ∧ tool.Keygens t n curve (calls i) := by
    intro i seat total hi hu
    obtain ⟨t', hask, -⟩ := h.run.keygen_holder hkeeps h.whole hcounted hi hu
    have hkeygens' := Tool.keygens hask
    obtain ⟨rfl, rfl⟩ := h.same i t' total curve ⟨hkeygens', seat, total, hi, hu⟩
    exact ⟨rfl, hkeygens'⟩
  have hn : 1 ≤ n := Nat.one_le_iff_ne_zero.mpr (Nat.ne_zero_of_lt h.lt)
  exact ⟨hall, h.run.keygenSeats hkeeps h.whole hn hcounted
    fun i seat total hi hu => (hall i seat total hi hu).1⟩

/-- The clients of a key generation are parties of one session. -/
theorem Tool.KeygenIn.parts (h : tool.KeygenIn env keygenJson roomJson calls w tr uuid t n curve)
    {β Δ : Type} (f : β → tool.Output) (run : Δ → Nat → Client β)
    (call : List String → Δ → tool.Call)
    (hcall : ∀ i, tool.Keygens t n curve (calls i) → ∃ params draws, calls i = call params draws ∧
      ∀ number, (tool.command (calls i)).body { number, uuid } n = f <$> run draws number.toNat) :
    ∃ draws : Nat → Δ,
      (∀ i seat total, (w.process i).Holds seat total → seat.uuid = uuid →
        ∃ params, calls i = call params (draws seat.number.toNat)) ∧
      InSession (fun i => tool.command (calls i)) uuid n.toNat (fun k => f <$> run (draws k) k) w ∧
      ∀ k, 1 ≤ k → k ≤ n.toNat → (f <$> run (draws k) k).PostsOnly (OwnKey uuid k) := by
  obtain ⟨hall, hseats⟩ := h.session
  obtain ⟨i₀, -, seat₀, total₀, hholds, hu₀⟩ := h.begun
  obtain ⟨rfl, -⟩ := hall i₀ seat₀ total₀ hholds hu₀
  have hbody : ∀ i seat, (w.process i).Holds seat total₀ → seat.uuid = uuid →
      ∃ draws, (∃ params, calls i = call params draws) ∧ ∀ number,
        (tool.command (calls i)).body { number, uuid } total₀ = f <$> run draws number.toNat := by
    intro i seat hi hu
    obtain ⟨params, draws, hi', hrun⟩ := hcall i (hall i seat total₀ hi hu).2
    exact ⟨draws, ⟨params, hi'⟩, hrun⟩
  obtain ⟨draws, hdraws, hin, hposts⟩ :=
    hseats.parts f run (fun i draws => ∃ params, calls i = call params draws)
      (fun i => tool.postsOwn (calls i)) hholds hu₀ hbody
  refine ⟨draws, fun i seat total hi hu => ?_, hin, hposts⟩
  obtain ⟨rfl, -⟩ := hall i seat total hi hu
  exact hdraws i seat hi hu

/-- The clients of an ECDSA key generation are parties of one session of it. -/
theorem Tool.KeygenIn.ecdsaParts (h : tool.KeygenIn env keygenJson roomJson calls w tr uuid t n
      Algorithm.ecdsa.curveName) :
    ∃ draws : Nat → Ecdsa.Draws F tool.gg18.Seed,
      (∀ i seat total, (w.process i).Holds seat total → seat.uuid = uuid →
        ∃ params, calls i = .ecdsaKeygen params (draws seat.number.toNat)) ∧
      InSession (fun i => tool.command (calls i)) uuid n.toNat (fun k => Output.ecdsaFile <$>
        Ecdsa.runKeygen tool.secp256k1 tool.aes t.toNat n.toNat k (draws k) tool.ecdsaKeygen uuid)
        w ∧
      ∀ k, 1 ≤ k → k ≤ n.toNat → ((Output.ecdsaFile : _ → tool.Output) <$> Ecdsa.runKeygen
        tool.secp256k1 tool.aes t.toNat n.toNat k (draws k) tool.ecdsaKeygen uuid).PostsOnly
          (OwnKey uuid k) := by
  refine h.parts Output.ecdsaFile (fun draws k => Ecdsa.runKeygen tool.secp256k1 tool.aes t.toNat
    n.toNat k draws tool.ecdsaKeygen uuid) .ecdsaKeygen fun i hi => ?_
  obtain ⟨params, draws, hcall, hparams⟩ := hi.ecdsaCall
  refine ⟨params, draws, hcall, fun number => ?_⟩
  rw [hcall]
  exact tool.ecdsaKeygen_body hparams draws _ _

/-- The clients of an EdDSA key generation are parties of one session of it. -/
theorem Tool.KeygenIn.eddsaParts (h : tool.KeygenIn env keygenJson roomJson calls w tr uuid t n
      Algorithm.eddsa.curveName) :
    ∃ draws : Nat → Eddsa.Draws F' tool.thresholdSig.Seed,
      (∀ i seat total, (w.process i).Holds seat total → seat.uuid = uuid →
        ∃ params, calls i = .eddsaKeygen params (draws seat.number.toNat)) ∧
      InSession (fun i => tool.command (calls i)) uuid n.toNat (fun k => Output.eddsaFile <$>
        Eddsa.runKeygen tool.ed25519 tool.aes t.toNat n.toNat k (draws k) tool.eddsaKeygen uuid)
        w ∧
      ∀ k, 1 ≤ k → k ≤ n.toNat → ((Output.eddsaFile : _ → tool.Output) <$> Eddsa.runKeygen
        tool.ed25519 tool.aes t.toNat n.toNat k (draws k) tool.eddsaKeygen uuid).PostsOnly
          (OwnKey uuid k) := by
  refine h.parts Output.eddsaFile (fun draws k => Eddsa.runKeygen tool.ed25519 tool.aes t.toNat
    n.toNat k draws tool.eddsaKeygen uuid) .eddsaKeygen fun i hi => ?_
  obtain ⟨params, draws, hcall, hparams⟩ := hi.eddsaCall
  refine ⟨params, draws, hcall, fun number => ?_⟩
  rw [hcall]
  exact tool.eddsaKeygen_body hparams draws _ _

/-! ## Playing the parts -/

/-- The keys of all pairs have `32` bytes. -/
def Tool.KeysFit (tool : Tool F G F' G') (n : Nat) (draws : Nat → Ecdsa.Draws F tool.gg18.Seed) :
    Prop :=
  ∀ i j, 1 ≤ i → i ≤ n → j ∈ others i n →
    (toBytes (dhX tool.secp256k1 (tool.gg18.uI (Ecdsa.partyKeys i (draws i)))
      (tool.gg18.uI (Ecdsa.partyKeys j (draws j))))).length = 32

omit [DecidableEq G] [DecidableEq F'] in
/-- What the library returns to honest parties.  Only the keys of pairs of them matter. -/
theorem Tool.ecdsaCalls (htool : tool.Documented) (hlt : t < n)
    (draws : Nat → Ecdsa.Draws F tool.gg18.Seed) :
    ∃ v, HonestCalls tool.secp256k1 (fun e => e = .assertFailed ∧ ¬ tool.KeysFit n.toNat draws)
      t.toNat n.toNat (fun i => Ecdsa.calls tool.secp256k1 t.toNat n.toNat i (draws i)) v := by
  have ht : t.toNat < n.toNat := hlt
  obtain ⟨v, h, -⟩ := Ecdsa.honestCalls (fun _ => True) htool.secp256k1 htool.gg18 ht draws
    fun _ _ _ => Or.inr trivial
  refine ⟨v, { h with keyLength := fun i j h₁ hn hj => ?_ }⟩
  by_cases hfit : tool.KeysFit n.toNat draws
  · have hkey := h.encKey i j h₁ hn hj
    have hshared := (sharedX_eq htool.secp256k1
      (htool.gg18.uI_ne_zero i (draws i).keys) (htool.gg18.uI_ne_zero j (draws j).keys)).1
    simp only [Ecdsa.calls, htool.gg18.yI] at hkey
    exact Or.inl (Except.ok.inj (hshared.symm.trans hkey) ▸ hfit i j h₁ hn hj)
  · exact Or.inr ⟨rfl, hfit⟩

omit [DecidableEq G] [DecidableEq F'] in
/-- The parties of an ECDSA key generation play their parts, unless a key has fewer than
`32` bytes. -/
theorem Tool.ecdsaPlay (htool : tool.Documented) (hlt : t < n)
    (draws : Nat → Ecdsa.Draws F tool.gg18.Seed) :
    ∃ file, PlayUnless
        (fun e => e = .pollTimeout ∨ e = .assertFailed ∧ ¬ tool.KeysFit n.toNat draws) uuid n.toNat
        (fun k => Ecdsa.runKeygen tool.secp256k1 tool.aes t.toNat n.toNat k (draws k)
          tool.ecdsaKeygen uuid) file ∧
      (tool.KeysFit n.toNat draws → AllPlay uuid n.toNat (fun k => Ecdsa.runKeygen tool.secp256k1
        tool.aes t.toNat n.toNat k (draws k) tool.ecdsaKeygen uuid) file) := by
  obtain ⟨v, h⟩ := tool.ecdsaCalls htool hlt draws
  refine ⟨_, ⟨_, rfl, rfl, fun i => Ecdsa.runKeygen_plays htool.secp256k1 htool.aes htool.gg18
    (h.excuse fun _ he => Or.inr he)⟩, fun hfit => ⟨_, rfl, rfl, fun excused i =>
      Ecdsa.runKeygen_plays htool.secp256k1 htool.aes htool.gg18
        (h.excuse fun _ he => absurd hfit he.2)⟩⟩

omit [DecidableEq G] [DecidableEq F'] in
/-- The parties of an EdDSA key generation play their parts. -/
theorem Tool.eddsaPlay (htool : tool.Documented) (hlt : t < n)
    (draws : Nat → Eddsa.Draws F' tool.thresholdSig.Seed) :
    ∃ file, AllPlay uuid n.toNat (fun k => Eddsa.runKeygen tool.ed25519 tool.aes t.toNat n.toNat
      k (draws k) tool.eddsaKeygen uuid) file := by
  have ht : t.toNat < n.toNat := hlt
  obtain ⟨v, h, -⟩ := Eddsa.honestCalls (fun _ => False) htool.ed25519 htool.thresholdSig ht draws
  exact ⟨_, _, rfl, rfl, fun excused i => Eddsa.runKeygen_plays htool.ed25519 htool.aes
    htool.thresholdSig (h.excuse fun _ he => he.elim)⟩

/-! ## Written files -/

/-- A client at the number has written the file in the session. -/
def Tool.EcdsaWrote (w : World tool.Output) (uuid : String) (k : Nat)
    (file : Ecdsa.KeyFile tool.gg18) : Prop :=
  ∃ i seat total, w.process i = .session seat total (.ret (.ecdsaFile file)) ∧
    seat.uuid = uuid ∧ seat.number.toNat = k

/-- The same of an EdDSA file. -/
def Tool.EddsaWrote (w : World tool.Output) (uuid : String) (k : Nat)
    (file : Eddsa.KeyFile tool.thresholdSig) : Prop :=
  ∃ i seat total, w.process i = .session seat total (.ret (.eddsaFile file)) ∧
    seat.uuid = uuid ∧ seat.number.toNat = k

/-- After the session has gone on, it still is one of a key generation. -/
theorem Tool.KeygenIn.completes {result : Nat → tool.Output} {w' : World tool.Output}
    {more : List WorldEvent} (h : tool.KeygenIn env keygenJson roomJson calls w tr uuid t n curve)
    (hcompletes : Completes env keygenJson roomJson (fun i => tool.command (calls i)) uuid result w
      w' more tr) :
    tool.KeygenIn env keygenJson roomJson calls w' (more ++ tr) uuid t n curve where
  run := hcompletes.run
  out := ⟨fun record hr => h.out.records record (hcompletes.other hr),
    fun record hr => h.out.letters record (hcompletes.other hr)⟩
  whole := hcompletes.whole
  begun := by
    obtain ⟨i, hkeygens, seat, total, hi, hu⟩ := h.begun
    exact ⟨i, hkeygens, seat, total, (hcompletes.holds hu).mpr hi, hu⟩
  same := by
    rintro i t' n' curve' ⟨hkeygens, seat, total, hi, hu⟩
    exact h.same i t' n' curve' ⟨hkeygens, seat, total, (hcompletes.holds hu).mp hi, hu⟩
  lt := h.lt

/-- The files that the parties of an ECDSA key generation write agree. -/
theorem Tool.KeygenIn.ecdsaAgrees (htool : tool.Documented)
    (h : tool.KeygenIn env keygenJson roomJson calls w tr uuid t n Algorithm.ecdsa.curveName)
    {draws : Nat → Ecdsa.Draws F tool.gg18.Seed}
    (hin : InSession (fun i => tool.command (calls i)) uuid n.toNat (fun k => Output.ecdsaFile <$>
      Ecdsa.runKeygen tool.secp256k1 tool.aes t.toNat n.toNat k (draws k) tool.ecdsaKeygen uuid) w)
    (hposts : ∀ k, 1 ≤ k → k ≤ n.toNat → ((Output.ecdsaFile : _ → tool.Output) <$> Ecdsa.runKeygen
      tool.secp256k1 tool.aes t.toNat n.toNat k (draws k) tool.ecdsaKeygen uuid).PostsOnly
        (OwnKey uuid k)) :
    KeygenAgreement tool.secp256k1.generator t.toNat
      (fun j : Fin n.toNat => tool.gg18.uI (Ecdsa.partyKeys (number j) (draws (number j))) •
        tool.secp256k1.generator)
      fun k stored => ∃ file, Tool.EcdsaWrote w uuid (number k) file ∧ stored = file.stored := by
  obtain ⟨net, tr', hnet, htr', hreturned⟩ := h.out.net h.run h.whole hin hposts
  refine (Ecdsa.keygensAgree htool.secp256k1 htool.aes htool.gg18 tool.ecdsaKeygen h.lt n.toNat_lt
    draws uuid _ net tr' (fun _ _ => rfl) hnet fun e he => (htr' e he).1).mono ?_
  rintro k stored ⟨file, ⟨i, seat, total, hi, hu, hk⟩, rfl⟩
  obtain ⟨k', file', hk', hret, he⟩ := hreturned i seat total _ hi hu
  cases he
  obtain rfl := number_injective (hk'.trans hk)
  exact ⟨file, hret, rfl⟩

/-- Nor does it change when a client stops. -/
theorem Tool.KeygenIn.broke (h : tool.KeygenIn env keygenJson roomJson calls w tr uuid t n curve)
    (i : Nat) (e : Panic) :
    tool.KeygenIn env keygenJson roomJson calls (w.stop i e) (.broke i e :: tr) uuid t n curve := by
  refine ⟨h.run.snoc (.broke i e), ⟨fun record hr => ?_, fun record hr => ?_⟩, h.whole, ?_, ?_, h.lt⟩
  · exact h.out.records record (List.mem_of_ne_of_mem (by simp) hr)
  · exact h.out.letters record (List.mem_of_ne_of_mem (by simp) hr)
  · obtain ⟨j, hkeygens, seat, total, hj, hu⟩ := h.begun
    exact ⟨j, hkeygens, seat, total, World.stop_holds.mpr hj, hu⟩
  · rintro j t' n' curve' ⟨hkeygens, seat, total, hj, hu⟩
    exact h.same j t' n' curve' ⟨hkeygens, seat, total, World.stop_holds.mp hj, hu⟩

/-! ## From the start -/

/-- A key generation can begin. -/
theorem Tool.exists_begun (tool : Tool F G F' G') (env : Env) (keygenJson : Codec PartySignup)
    (roomJson : Codec SigningRoom) {calls : Nat → tool.Call} {client : Nat → Nat}
    (hinj : Set.InjOn client (Set.Icc 1 n.toNat))
    (hcalls : ∀ k, 1 ≤ k → k ≤ n.toNat → tool.Keygens t n curve (calls (client k))) (hlt : t < n) :
    ∃ j w tr, Begun env keygenJson roomJson (fun i => tool.command (calls i)) client (env.uuid j) n w
        tr ∧
      tool.KeygenIn env keygenJson roomJson calls w tr (env.uuid j) t n curve := by
  have hn : 1 ≤ n.toNat := Nat.one_le_iff_ne_zero.mpr (Nat.ne_zero_of_lt hlt)
  obtain ⟨j, w, tr, hbegun⟩ : ∃ j w tr, Begun env keygenJson roomJson
      (fun i => tool.command (calls i)) client (env.uuid j) n w tr :=
    exists_begun_keygen env keygenJson roomJson hinj hn fun k h₁ hk => (hcalls k h₁ hk).ask
  exact ⟨j, w, tr, hbegun, hbegun.keygenIn hcalls hlt⟩

section

variable {client : Nat → Nat} (htool : tool.Documented)

include htool

/-- An ECDSA key generation that has begun can go on to its end, and none of its clients has
panicked, if the keys of all pairs have `32` bytes. -/
theorem Begun.ecdsaKeygen
    (h : Begun env keygenJson roomJson (fun i => tool.command (calls i)) client uuid n w tr)
    (hkeys : tool.KeygenIn env keygenJson roomJson calls w tr uuid t n Algorithm.ecdsa.curveName)
    (hfit : ∀ draws, tool.KeysFit n.toNat draws) :
    (∀ i seat total e, w.process i = .session seat total (.fail e) → seat.uuid ≠ uuid) ∧
    ∃ (file : Nat → Ecdsa.KeyFile tool.gg18) (w' : World tool.Output) (more : List WorldEvent),
      tool.KeygenIn env keygenJson roomJson calls w' (more ++ tr) uuid t n
        Algorithm.ecdsa.curveName ∧
      ∀ k, 1 ≤ k → k ≤ n.toNat → w'.process (client k) =
        .session ⟨UInt16.ofNat k, uuid⟩ n (.ret (.ecdsaFile (file k))) := by
  obtain ⟨draws, -, hin, -⟩ := hkeys.ecdsaParts
  obtain ⟨file, -, hplay⟩ := tool.ecdsaPlay htool hkeys.lt draws
  have hplay := hplay (hfit draws)
  refine ⟨fun i seat total e hi => h.well hin (hplay.map Tool.Output.ecdsaFile) hi, file, ?_⟩
  obtain ⟨w', more, hcompletes⟩ :=
    h.completes (fun i => tool.postsOwn (calls i)) hin (hplay.map Tool.Output.ecdsaFile)
  exact ⟨w', more, hkeys.completes hcompletes, fun k h₁ hk => h.returned hcompletes h₁ hk⟩

/-- The same of EdDSA. -/
theorem Begun.eddsaKeygen
    (h : Begun env keygenJson roomJson (fun i => tool.command (calls i)) client uuid n w tr)
    (hkeys : tool.KeygenIn env keygenJson roomJson calls w tr uuid t n
      Algorithm.eddsa.curveName) :
    (∀ i seat total e, w.process i = .session seat total (.fail e) → seat.uuid ≠ uuid) ∧
    ∃ (file : Nat → Eddsa.KeyFile tool.thresholdSig) (w' : World tool.Output)
      (more : List WorldEvent),
      tool.KeygenIn env keygenJson roomJson calls w' (more ++ tr) uuid t n
        Algorithm.eddsa.curveName ∧
      ∀ k, 1 ≤ k → k ≤ n.toNat → w'.process (client k) =
        .session ⟨UInt16.ofNat k, uuid⟩ n (.ret (.eddsaFile (file k))) := by
  obtain ⟨draws, -, hin, -⟩ := hkeys.eddsaParts
  obtain ⟨file, hplay⟩ := tool.eddsaPlay htool hkeys.lt draws
  refine ⟨fun i seat total e hi => h.well hin (hplay.map Tool.Output.eddsaFile) hi, file, ?_⟩
  obtain ⟨w', more, hcompletes⟩ :=
    h.completes (fun i => tool.postsOwn (calls i)) hin (hplay.map Tool.Output.eddsaFile)
  exact ⟨w', more, hkeys.completes hcompletes, fun k h₁ hk => h.returned hcompletes h₁ hk⟩

end

/-! ## Three clients over the additive group -/

noncomputable def additiveEcdsaKeygen : additiveTool.Call :=
  .ecdsaKeygen ["1", "3"] ⟨(1 : ZMod 65537), 1, 0, (0 : ZMod 65537), (1 : ZMod 65537),
    (0 : ZMod 65537), fun _ => List.Vector.replicate 12 0⟩

noncomputable def additiveEddsaKeygen : additiveTool.Call :=
  .eddsaKeygen ["1", "3"] ⟨(1 : ZMod 65537), 1, 0, (0 : ZMod 65537), (1 : ZMod 65537), 0,
    fun _ => List.Vector.replicate 12 0⟩

theorem additiveEcdsaKeygen_keygens :
    additiveTool.Keygens 1 3 Algorithm.ecdsa.curveName additiveEcdsaKeygen :=
  .ecdsa _ _ rfl

theorem additiveEddsaKeygen_keygens :
    additiveTool.Keygens 1 3 Algorithm.eddsa.curveName additiveEddsaKeygen :=
  .eddsa _ _ rfl

/-- All keys have `32` bytes. -/
theorem additiveTool_keysFit (n : Nat)
    (draws : Nat → Ecdsa.Draws (ZMod 65537) additiveTool.gg18.Seed) :
    additiveTool.KeysFit n draws := fun i j _ _ _ =>
  length_foldedCurve_dhX (by norm_num) (additiveTool_documented.gg18.uI_ne_zero i _)
    (additiveTool_documented.gg18.uI_ne_zero j _)

/-- They begin. -/
theorem exists_begun_additive {curve : String} {call : additiveTool.Call}
    (hcall : additiveTool.Keygens 1 3 curve call) :
    ∃ uuid w tr, Begun defaultEnv tallyCodec (.ofCountable SigningRoom)
        (fun _ => additiveTool.command call) id uuid 3 w tr ∧
      additiveTool.KeygenIn defaultEnv tallyCodec (.ofCountable SigningRoom) (fun _ => call) w tr
        uuid 1 3 curve := by
  obtain ⟨j, hbegun⟩ : ∃ j w tr, Begun defaultEnv tallyCodec (.ofCountable SigningRoom)
        (fun _ => additiveTool.command call) id (defaultEnv.uuid j) 3 w tr ∧
      additiveTool.KeygenIn defaultEnv tallyCodec (.ofCountable SigningRoom) (fun _ => call) w tr
        (defaultEnv.uuid j) 1 3 curve :=
    additiveTool.exists_begun defaultEnv tallyCodec _ (Set.injOn_id _) (fun _ _ _ => hcall)
      (by decide)
  exact ⟨_, hbegun⟩

/-- They write their files. -/
theorem exists_ecdsaFiles_additive :
    ∃ uuid w tr, ∃ file : Nat → Ecdsa.KeyFile additiveTool.gg18,
      additiveTool.KeygenIn defaultEnv tallyCodec (.ofCountable SigningRoom)
        (fun _ => additiveEcdsaKeygen) w tr uuid 1 3 Algorithm.ecdsa.curveName ∧
      ∀ k, 1 ≤ k → k ≤ 3 → Tool.EcdsaWrote w uuid k (file k) ∧
        (file k).ySum = (3 : ZMod 65537) := by
  obtain ⟨uuid, w, tr, hbegun, hkeys⟩ := exists_begun_additive additiveEcdsaKeygen_keygens
  obtain ⟨-, file, w', more, hkeys', hfiles⟩ :=
    hbegun.ecdsaKeygen additiveTool_documented hkeys (additiveTool_keysFit _)
  have hwrote : ∀ k, 1 ≤ k → k ≤ 3 → Tool.EcdsaWrote w' uuid k (file k) := fun k h₁ hk =>
    ⟨k, _, _, hfiles k h₁ hk, rfl, UInt16.toNat_ofNat_of_lt' (hk.trans_lt (by decide))⟩
  refine ⟨uuid, w', more ++ tr, file, hkeys', fun k h₁ hk => ⟨hwrote k h₁ hk, ?_⟩⟩
  obtain ⟨draws, hdraws, hin, hposts⟩ := hkeys'.ecdsaParts
  obtain ⟨i, rfl⟩ : ∃ i : Fin (3 : UInt16).toNat, number i = k := exists_number h₁ hk
  have hagrees := hkeys'.ecdsaAgrees additiveTool_documented hin hposts
  have hySum := hagrees.ySum i (file (number i)).stored ⟨file (number i), hwrote _ h₁ hk, rfl⟩
  have hone : ∀ j : Fin (3 : UInt16).toNat, additiveTool.gg18.uI (Ecdsa.partyKeys (number j)
      (draws (number j))) • additiveTool.secp256k1.generator = 1 := by
    intro j
    obtain ⟨params, hcall⟩ := hdraws _ _ _ ⟨_, hfiles _ (one_le_number j) (number_le j)⟩ rfl
    have hto : (UInt16.ofNat (number j)).toNat = number j :=
      UInt16.toNat_ofNat_of_lt' ((number_le j).trans_lt (by decide))
    obtain ⟨-, hcall⟩ := Tool.Call.ecdsaKeygen.inj hcall
    dsimp only at hcall
    rw [← hto, ← hcall]
    rfl
  exact hySum.trans (by simp only [hone]; rfl)

theorem exists_eddsaFiles_additive :
    ∃ uuid w tr, ∃ file : Nat → Eddsa.KeyFile additiveTool.thresholdSig,
      additiveTool.KeygenIn defaultEnv tallyCodec (.ofCountable SigningRoom)
        (fun _ => additiveEddsaKeygen) w tr uuid 1 3 Algorithm.eddsa.curveName ∧
      ∀ k, 1 ≤ k → k ≤ 3 → Tool.EddsaWrote w uuid k (file k) := by
  obtain ⟨uuid, w, tr, hbegun, hkeys⟩ := exists_begun_additive additiveEddsaKeygen_keygens
  obtain ⟨-, file, w', more, hkeys', hfiles⟩ := hbegun.eddsaKeygen additiveTool_documented hkeys
  exact ⟨uuid, w', more ++ tr, file, hkeys', fun k h₁ hk => ⟨k, _, _, hfiles k h₁ hk, rfl,
    UInt16.toNat_ofNat_of_lt' (hk.trans_lt (by decide))⟩⟩

/-! ## Sessions of the world -/

/-- What the clients of a session have returned, they return in a run of the session to
which nobody else posts, in which each post is handled once and nothing expires.  And a
client that has panicked has panicked there, unless somebody has stopped this client or the
tries of one of its requests have all failed. -/
theorem WorldRun.refines {α : Type} {commands : Nat → Command α} {w : World α} {m : Nat}
    {script : Nat → Client α} (hrun : WorldRun env keygenJson roomJson commands w tr)
    (hcommands : ∀ i, (commands i).PostsOwn)
    (hout : ∀ record, .other record ∈ tr → record.KeepsOut uuid)
    (hwhole : w.manager.poisoned = false) (hin : InSession commands uuid m script w)
    (hscript : ∀ k, 1 ≤ k → k ≤ m → (script k).PostsOnly (OwnKey uuid k)) :
    ∃ net tr', NetRun (sessionNet m (fun _ => none) script) net tr' ∧
      (∀ e ∈ tr', KeepsOut uuid e ∧ GivesUp (· = .pollTimeout) e) ∧
      (∀ i seat total a, w.process i = .session seat total (.ret a) → seat.uuid = uuid →
        ∃ k : Fin m, number k = seat.number.toNat ∧ net.scripts k = .ret a) ∧
      ∀ i seat total e, w.process i = .session seat total (.fail e) → seat.uuid = uuid →
        Stopped i e tr ∨ ∃ k : Fin m, number k = seat.number.toNat ∧ net.scripts k = .fail e := by
  have hid : (fun k => id <$> script k) = script := funext fun k => id_map (script k)
  obtain ⟨net, tr', hnet, htr', hret, hfail⟩ := hrun.mirrored hcommands hout hwhole
    (hid.symm ▸ hin) fun k h₁ hk => (id_map (script k)).symm ▸ hscript k h₁ hk
  refine ⟨net, tr', hnet, htr', fun i seat total a hi hu => ?_, hfail⟩
  obtain ⟨k, b, hk, hb, rfl⟩ := hret i seat total a hi hu
  exact ⟨k, hk, hb⟩

/-- The session of three clients that have written their files, before somebody stops the
first one. -/
theorem WorldRun.refines_additive :
    ∃ (uuid : String) (w : World additiveTool.Output) (tr : List WorldEvent)
      (script : Nat → Client additiveTool.Output)
      (net : Net (Fin 3) Key String Panic additiveTool.Output)
      (tr' : List (NetEvent (Fin 3) Key String Panic)) (i : Nat) (seat : PartySignup),
      NetRun (sessionNet 3 (fun _ => none) script) net tr' ∧ (∀ e ∈ tr', KeepsOut uuid e) ∧
      (∀ k, 2 ≤ k → k ≤ 3 → ∃ (j : Fin 3) (file : Ecdsa.KeyFile additiveTool.gg18),
        number j = k ∧ net.scripts j = .ret (.ecdsaFile file)) ∧
      w.process i = .session seat 3 (.fail .unwrapErr) ∧ seat.number = 1 ∧
      (Stopped i .unwrapErr (.broke i .unwrapErr :: tr) ∨
        ∃ k : Fin 3, number k = seat.number.toNat ∧ net.scripts k = .fail .unwrapErr) := by
  obtain ⟨uuid, w, tr, file, hkeys, hfiles⟩ := exists_ecdsaFiles_additive
  obtain ⟨i, seat, total, hi, hu, hseat⟩ := (hfiles 1 le_rfl (by decide)).1
  obtain rfl : total = 3 := (hkeys.session.1 i seat total ⟨_, hi⟩ hu).1
  have hfail := World.stop_session hi .unwrapErr
  have hbroke := hkeys.broke i .unwrapErr
  obtain ⟨draws, -, hin, hposts⟩ := hbroke.ecdsaParts
  obtain ⟨net, tr', hnet, htr', hret, hfailed⟩ := WorldRun.refines hbroke.run
    (fun _ => additiveTool.postsOwn _) hbroke.out.letters hbroke.whole hin hposts
  refine ⟨uuid, _, tr, _, net, tr', i, seat, hnet, fun e he => (htr' e he).1, fun k h₂ hk => ?_,
    hfail, UInt16.toNat_inj.mp hseat, hfailed i seat _ _ hfail hu⟩
  obtain ⟨j, seat', total', hj, hu', rfl⟩ := (hfiles k (Nat.le_of_succ_le h₂) hk).1
  have hne : j ≠ i := by
    rintro rfl
    obtain ⟨rfl, -⟩ := Process.session.inj (hi.symm.trans hj)
    omega
  obtain ⟨j', hj', hreturned⟩ := hret j seat' total' _ ((Function.update_of_ne hne _ _).trans hj) hu'
  exact ⟨j', _, hj', hreturned⟩

/-! ## The files agree -/

/-- The key files that the clients of one ECDSA key generation write agree. -/
theorem Tool.ecdsa_agreement (htool : tool.Documented)
    (h : tool.KeygenIn env keygenJson roomJson calls w tr uuid t n Algorithm.ecdsa.curveName) :
    ∃ draws : Nat → Ecdsa.Draws F tool.gg18.Seed,
      (∀ i seat total, (w.process i).Holds seat total → seat.uuid = uuid →
        ∃ params, calls i = .ecdsaKeygen params (draws seat.number.toNat)) ∧
      KeygenAgreement tool.secp256k1.generator t.toNat
        (fun j : Fin n.toNat => tool.gg18.uI (Ecdsa.partyKeys (number j) (draws (number j))) •
          tool.secp256k1.generator)
        fun k stored => ∃ file, Tool.EcdsaWrote w uuid (number k) file ∧ stored = file.stored := by
  obtain ⟨draws, hdraws, hin, hposts⟩ := h.ecdsaParts
  exact ⟨draws, hdraws, h.ecdsaAgrees htool hin hposts⟩

/-- The files of three clients over the additive group. -/
theorem Tool.ecdsa_agreement_additive :
    ∃ (uuid : String) (w : World additiveTool.Output)
      (draws : Nat → Ecdsa.Draws (ZMod 65537) additiveTool.gg18.Seed),
      (∀ k, 1 ≤ k → k ≤ 3 → ∃ file, Tool.EcdsaWrote w uuid k file) ∧
      KeygenAgreement additiveTool.secp256k1.generator (1 : UInt16).toNat
        (fun j : Fin (3 : UInt16).toNat => additiveTool.gg18.uI (Ecdsa.partyKeys (number j)
          (draws (number j))) • additiveTool.secp256k1.generator)
        fun k stored => ∃ file, Tool.EcdsaWrote w uuid (number k) file ∧ stored = file.stored := by
  obtain ⟨uuid, w, tr, file, hkeys, hfiles⟩ := exists_ecdsaFiles_additive
  obtain ⟨draws, -, hagree⟩ := Tool.ecdsa_agreement additiveTool_documented hkeys
  exact ⟨uuid, w, draws, fun k h₁ hk => ⟨file k, (hfiles k h₁ hk).1⟩, hagree⟩

/-- The key files that the clients of one EdDSA key generation write agree. -/
theorem Tool.eddsa_agreement (htool : tool.Documented)
    (h : tool.KeygenIn env keygenJson roomJson calls w tr uuid t n Algorithm.eddsa.curveName) :
    ∃ draws : Nat → Eddsa.Draws F' tool.thresholdSig.Seed,
      (∀ i seat total, (w.process i).Holds seat total → seat.uuid = uuid →
        ∃ params, calls i = .eddsaKeygen params (draws seat.number.toNat)) ∧
      KeygenAgreement tool.ed25519.generator t.toNat
        (fun j : Fin n.toNat =>
          tool.thresholdSig.privateKey (Eddsa.partyKeys (number j) (draws (number j))) •
            tool.ed25519.generator)
        fun k stored => ∃ file, Tool.EddsaWrote w uuid (number k) file ∧ stored = file.stored := by
  obtain ⟨draws, hdraws, hin, hposts⟩ := h.eddsaParts
  obtain ⟨net, tr', hnet, htr', hreturned⟩ := h.out.net h.run h.whole hin hposts
  refine ⟨draws, hdraws, (Eddsa.keygensAgree htool.ed25519 htool.aes htool.thresholdSig
    tool.eddsaKeygen h.lt n.toNat_lt draws uuid _ net tr' (fun _ _ => rfl) hnet
    fun e he => (htr' e he).1).mono ?_⟩
  rintro k stored ⟨file, ⟨i, seat, total, hi, hu, hk⟩, rfl⟩
  obtain ⟨k', file', hk', hret, he⟩ := hreturned i seat total _ hi hu
  cases he
  obtain rfl := number_injective (hk'.trans hk)
  exact ⟨file, hret, rfl⟩

theorem Tool.eddsa_agreement_additive :
    ∃ (uuid : String) (w : World additiveTool.Output)
      (draws : Nat → Eddsa.Draws (ZMod 65537) additiveTool.thresholdSig.Seed),
      (∀ k, 1 ≤ k → k ≤ 3 → ∃ file, Tool.EddsaWrote w uuid k file) ∧
      KeygenAgreement additiveTool.ed25519.generator (1 : UInt16).toNat
        (fun j : Fin (3 : UInt16).toNat => additiveTool.thresholdSig.privateKey
          (Eddsa.partyKeys (number j) (draws (number j))) • additiveTool.ed25519.generator)
        fun k stored => ∃ file, Tool.EddsaWrote w uuid (number k) file ∧ stored = file.stored := by
  obtain ⟨uuid, w, tr, file, hkeys, hfiles⟩ := exists_eddsaFiles_additive
  obtain ⟨draws, -, hagree⟩ := Tool.eddsa_agreement additiveTool_documented hkeys
  exact ⟨uuid, w, draws, fun k h₁ hk => ⟨file k, hfiles k h₁ hk⟩, hagree⟩

/-! ## Going on to the end -/

/-- An ECDSA key generation of which every number is held can go on until all have written
their files, if the keys of all pairs have `32` bytes. -/
theorem Tool.ecdsaKeygen_completes (htool : tool.Documented)
    (h : tool.KeygenIn env keygenJson roomJson calls w tr uuid t n Algorithm.ecdsa.curveName)
    (hkept : ∀ e ∈ tr, e.Within (NoLetter uuid))
    (hfull : Full w uuid n.toNat)
    (hwell : ∀ i seat total e, w.process i = .session seat total (.fail e) → seat.uuid ≠ uuid) :
    ∃ draws : Nat → Ecdsa.Draws F tool.gg18.Seed,
      (∀ i seat total, (w.process i).Holds seat total → seat.uuid = uuid →
        ∃ params, calls i = .ecdsaKeygen params (draws seat.number.toNat)) ∧
      (tool.KeysFit n.toNat draws →
        ∃ (file : Nat → Ecdsa.KeyFile tool.gg18) (w' : World tool.Output) (more : List WorldEvent),
          Completes env keygenJson roomJson (fun i => tool.command (calls i)) uuid
            (fun k => .ecdsaFile (file k)) w w' more tr ∧
          tool.KeygenIn env keygenJson roomJson calls w' (more ++ tr) uuid t n
            Algorithm.ecdsa.curveName) := by
  obtain ⟨draws, hdraws, hin, -⟩ := h.ecdsaParts
  obtain ⟨file, -, hplay⟩ := tool.ecdsaPlay htool h.lt draws
  refine ⟨draws, hdraws, fun hfit => ?_⟩
  obtain ⟨w', more, hcompletes⟩ := h.run.completes (fun i => tool.postsOwn (calls i)) h.out.letters
    hkept h.whole hin hfull hwell ((hplay hfit).map Output.ecdsaFile)
  exact ⟨file, w', more, hcompletes, h.completes hcompletes⟩

/-- Three clients that have just begun. -/
theorem Tool.ecdsaKeygen_completes_additive :
    ∃ uuid w tr w' more, ∃ file : Nat → _, Completes defaultEnv tallyCodec (.ofCountable SigningRoom)
      (fun _ => additiveTool.command additiveEcdsaKeygen) uuid (fun k => .ecdsaFile (file k)) w w'
      more tr := by
  obtain ⟨uuid, w, tr, hbegun, hkeys⟩ := exists_begun_additive additiveEcdsaKeygen_keygens
  obtain ⟨hwell, -⟩ :=
    hbegun.ecdsaKeygen additiveTool_documented hkeys (additiveTool_keysFit _)
  obtain ⟨draws, -, hcompletes⟩ := Tool.ecdsaKeygen_completes additiveTool_documented hkeys
    (hbegun.within _) hbegun.full hwell
  obtain ⟨file, w', more, hcompletes, -⟩ := hcompletes (additiveTool_keysFit _ draws)
  exact ⟨uuid, w, tr, w', more, file, hcompletes⟩

/-- A client of an ECDSA key generation panics only if it has run out of time, a key of a pair
has fewer than `32` bytes, or this very client was stopped or got no answer. -/
theorem Tool.ecdsaKeygen_panics (htool : tool.Documented)
    (h : tool.KeygenIn env keygenJson roomJson calls w tr uuid t n Algorithm.ecdsa.curveName) :
    ∃ draws : Nat → Ecdsa.Draws F tool.gg18.Seed,
      (∀ i seat total, (w.process i).Holds seat total → seat.uuid = uuid →
        ∃ params, calls i = .ecdsaKeygen params (draws seat.number.toNat)) ∧
      ∀ i seat total e, w.process i = .session seat total (.fail e) → seat.uuid = uuid →
        (e = .pollTimeout ∨ e = .assertFailed ∧ ¬ tool.KeysFit n.toNat draws) ∨
          Stopped i e tr := by
  obtain ⟨draws, hdraws, hin, hposts⟩ := h.ecdsaParts
  obtain ⟨file, hplay, -⟩ := tool.ecdsaPlay htool h.lt draws
  exact ⟨draws, hdraws, fun i seat total e hi hu => WorldRun.panics h.run
    (fun i => tool.postsOwn (calls i)) h.out.letters h.whole hin hposts hplay (Or.inl rfl) hi hu⟩

/-- One of three clients is stopped, and no other. -/
theorem Tool.ecdsaKeygen_panics_additive :
    ∃ (uuid : String) (w : World additiveTool.Output) (tr : List WorldEvent) (seat : PartySignup),
      additiveTool.KeygenIn defaultEnv tallyCodec (.ofCountable SigningRoom)
        (fun _ => additiveEcdsaKeygen) w (.broke 1 .unwrapErr :: tr) uuid 1 3
        Algorithm.ecdsa.curveName ∧
      w.process 1 = .session seat 3 (.fail .unwrapErr) ∧ seat.uuid = uuid ∧
      (∀ i e, Stopped i e (.broke 1 .unwrapErr :: tr) ↔ i = 1 ∧ e = .unwrapErr) ∧
      (Panic.unwrapErr = .pollTimeout ∨ Stopped 1 .unwrapErr (.broke 1 .unwrapErr :: tr)) := by
  obtain ⟨uuid, w, tr, hbegun, hkeys⟩ := exists_begun_additive additiveEcdsaKeygen_keygens
  have hfail := World.stop_session (hbegun.seated 1 le_rfl (by decide)) .unwrapErr
  have hbroke := hkeys.broke 1 .unwrapErr
  obtain ⟨draws, -, hpanics⟩ := Tool.ecdsaKeygen_panics additiveTool_documented hbroke
  refine ⟨uuid, _, tr, _, hbroke, hfail, rfl, fun i e => hbegun.stopped_broke, ?_⟩
  rcases hpanics _ _ _ _ hfail rfl with (hpoll | ⟨-, hfit⟩) | hstopped
  · exact Or.inl hpoll
  · exact absurd (additiveTool_keysFit _ draws) hfit
  · exact Or.inr hstopped

/-- An EdDSA key generation of which every number is held can go on until all have written
their files. -/
theorem Tool.eddsaKeygen_completes (htool : tool.Documented)
    (h : tool.KeygenIn env keygenJson roomJson calls w tr uuid t n Algorithm.eddsa.curveName)
    (hkept : ∀ e ∈ tr, e.Within (NoLetter uuid))
    (hfull : Full w uuid n.toNat)
    (hwell : ∀ i seat total e, w.process i = .session seat total (.fail e) → seat.uuid ≠ uuid) :
    ∃ (file : Nat → Eddsa.KeyFile tool.thresholdSig) (w' : World tool.Output)
      (more : List WorldEvent),
      Completes env keygenJson roomJson (fun i => tool.command (calls i)) uuid
        (fun k => .eddsaFile (file k)) w w' more tr ∧
      tool.KeygenIn env keygenJson roomJson calls w' (more ++ tr) uuid t n
        Algorithm.eddsa.curveName := by
  obtain ⟨draws, -, hin, -⟩ := h.eddsaParts
  obtain ⟨file, hplay⟩ := tool.eddsaPlay htool h.lt draws
  obtain ⟨w', more, hcompletes⟩ := h.run.completes (fun i => tool.postsOwn (calls i)) h.out.letters
    hkept h.whole hin hfull hwell (hplay.map Output.eddsaFile)
  exact ⟨file, w', more, hcompletes, h.completes hcompletes⟩

theorem Tool.eddsaKeygen_completes_additive :
    ∃ uuid w tr w' more, ∃ file : Nat → _, Completes defaultEnv tallyCodec (.ofCountable SigningRoom)
      (fun _ => additiveTool.command additiveEddsaKeygen) uuid (fun k => .eddsaFile (file k)) w w'
      more tr := by
  obtain ⟨uuid, w, tr, hbegun, hkeys⟩ := exists_begun_additive additiveEddsaKeygen_keygens
  obtain ⟨hwell, -⟩ := hbegun.eddsaKeygen additiveTool_documented hkeys
  obtain ⟨file, w', more, hcompletes, -⟩ := Tool.eddsaKeygen_completes additiveTool_documented hkeys
    (hbegun.within _) hbegun.full hwell
  exact ⟨uuid, w, tr, w', more, file, hcompletes⟩

/-- Nothing that a client of an EdDSA key generation reads makes it panic: it has run out of
time, or this very client was stopped or got no answer. -/
theorem Tool.eddsaKeygen_panics (htool : tool.Documented)
    (h : tool.KeygenIn env keygenJson roomJson calls w tr uuid t n Algorithm.eddsa.curveName)
    {i : Nat} {seat : PartySignup} {total : UInt16} {e : Panic}
    (hi : w.process i = .session seat total (.fail e)) (hu : seat.uuid = uuid) :
    e = .pollTimeout ∨ Stopped i e tr := by
  obtain ⟨draws, -, hin, hposts⟩ := h.eddsaParts
  obtain ⟨file, hplay⟩ := tool.eddsaPlay htool h.lt draws
  exact WorldRun.panics h.run (fun i => tool.postsOwn (calls i)) h.out.letters h.whole hin
    hposts (hplay.unless (· = .pollTimeout)) rfl hi hu

/-- One of three clients is stopped, and no other. -/
theorem Tool.eddsaKeygen_panics_additive :
    ∃ (uuid : String) (w : World additiveTool.Output) (tr : List WorldEvent) (seat : PartySignup),
      additiveTool.KeygenIn defaultEnv tallyCodec (.ofCountable SigningRoom)
        (fun _ => additiveEddsaKeygen) w (.broke 1 .unwrapErr :: tr) uuid 1 3
        Algorithm.eddsa.curveName ∧
      w.process 1 = .session seat 3 (.fail .unwrapErr) ∧ seat.uuid = uuid ∧
      (∀ i e, Stopped i e (.broke 1 .unwrapErr :: tr) ↔ i = 1 ∧ e = .unwrapErr) ∧
      (Panic.unwrapErr = .pollTimeout ∨ Stopped 1 .unwrapErr (.broke 1 .unwrapErr :: tr)) := by
  obtain ⟨uuid, w, tr, hbegun, hkeys⟩ := exists_begun_additive additiveEddsaKeygen_keygens
  have hfail := World.stop_session (hbegun.seated 1 le_rfl (by decide)) .unwrapErr
  have hbroke := hkeys.broke 1 .unwrapErr
  exact ⟨uuid, _, tr, _, hbroke, hfail, rfl, fun i e => hbegun.stopped_broke,
    Tool.eddsaKeygen_panics additiveTool_documented hbroke hfail rfl⟩

/-! ## Who was heard -/

/-- When a call returns, the letters to it of every round have been posted, each by the
client in the seat of its sender. -/
theorem Tool.heard_all (hrun : tool.Run env keygenJson roomJson calls w tr) {i : Nat}
    {seat : PartySignup} {total : UInt16} {out : tool.Output}
    (hout : ∀ record, .other record ∈ tr → record.KeepsOut seat.uuid)
    (hi : w.process i = .session seat total (.ret out)) (hfits : Tool.Fits total (calls i))
    {r : Nat} {l : Letter} (hl : (Tool.plan (calls i)).At seat.uuid r l)
    (hfor : l.For total.toNat seat.number.toNat) : ∃ j, PostedBy w tr l j :=
  WorldRun.returned_posted hrun (fun i => tool.postsOwn (calls i)) hout
    (Tool.follows hrun hi hfits) hi (List.getElem?_eq_some_iff.mp hl.2).1 hl hfor

/-- The share for the first of three clients from the third. -/
theorem Tool.heard_all_additive :
    ∃ (uuid : String) (w : World additiveTool.Output) (tr : List WorldEvent),
      (∃ i file, w.process i = .session ⟨1, uuid⟩ 3 (.ret (.ecdsaFile file))) ∧
        ∃ j, PostedBy w tr (.toOne 3 1 round3 uuid) j := by
  obtain ⟨uuid, w, tr, hbegun, hkeys⟩ := exists_begun_additive additiveEcdsaKeygen_keygens
  obtain ⟨-, file, w', more, hkeys', hfiles⟩ :=
    hbegun.ecdsaKeygen additiveTool_documented hkeys (additiveTool_keysFit _)
  have hi := hfiles 1 le_rfl (by decide)
  exact ⟨uuid, w', more ++ tr, ⟨_, _, hi⟩, Tool.heard_all hkeys'.run hkeys'.out.letters hi trivial
    (show keygenPlan.At uuid 4 (.toOne 3 1 round3 uuid) from ⟨rfl, rfl⟩)
    (show (3 : Nat) ∈ others 1 3 ∧ (1 : Nat) = 1 by decide)⟩

end

end TssCli
