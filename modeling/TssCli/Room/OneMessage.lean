import TssCli.Protocols.Eddsa.Signer
import TssCli.Room.Agreement
import TssCli.Room.Seats

/-!
# One room, one message

Both `sign` functions sign up for a room under the digest of their message and
the name of their curve, and the key of the room is made of the two.  A room
UUID belongs to one key for good (`KeyInv`), so the runs that are handed one
room UUID sign the same bytes on the same curve (`one_message`).

Nothing else of a run goes into the key.  The room has the size its first party
asked for, and no key material reaches the manager, so runs with different
thresholds and different wallets can meet in one room (`one_room_two_wallets`).
-/

namespace TssCli

open AssocValues Transition

/-! ## What the signers sign up with -/

inductive Algorithm where
  | ecdsa
  | eddsa
deriving DecidableEq

/-- `CURVE_NAME`. -/
def Algorithm.curveName : Algorithm → String
  | .ecdsa => "ECDSA"
  | .eddsa => "EdDSA"

/-- `{:X}` of a byte. -/
def upperHex (b : UInt8) : List Char :=
  [Nat.digitChar (b.toNat / 16), Nat.digitChar (b.toNat % 16)].map Char.toUpper

/-- `sha256_digest`. -/
def sha256Digest (sha256 : List UInt8 → List UInt8) (input : List UInt8) : String :=
  String.ofList ((sha256 input).flatMap upperHex)

/-- One run of `sign` or `run_signer`: what it is called with, the group key of
its key file, and the key at its path. -/
structure Signing (K : Type) where
  algorithm : Algorithm
  params : Params
  messageStr : String
  partyId : UInt16
  groupKey : K
  childKey : K

/-- The bytes to sign. -/
def Signing.message {K : Type} (s : Signing K) : List UInt8 := messageOf s.messageStr

/-- The arguments of the run's call of `signup`. -/
def Signing.signupArgs {K : Type} (sha256 : List UInt8 → List UInt8) (s : Signing K) :
    SignupArgs where
  params := s.params
  roomId := sha256Digest sha256 s.message
  partyId := s.partyId
  curveName := s.algorithm.curveName

/-- The two runs were handed one room UUID. -/
def ShareRoom (calls : Nat → SignupCall) (i j : Nat) : Prop :=
  ∃ p p' n n', calls i = .returned p n ∧ calls j = .returned p' n' ∧ p.uuid = p'.uuid

/-! ## The key of a room -/

theorem hexValue_upperHex (b : UInt8) : ∃ x y, upperHex b = [x, y] ∧
    hexValue x = some (b.toNat / 16) ∧ hexValue y = some (b.toNat % 16) := by
  have hdigit : ∀ d : Fin 16, hexValue (Nat.digitChar d).toUpper = some d.val := by decide
  have hlt := b.toNat_lt
  exact ⟨_, _, rfl, hdigit ⟨b.toNat / 16, by omega⟩, hdigit ⟨b.toNat % 16, by omega⟩⟩

/-- Bytes can be read back from their digits. -/
theorem hexDecode_flatMap : ∀ bytes : List UInt8, hexDecode (bytes.flatMap upperHex) = some bytes
  | [] => rfl
  | b :: bytes => by
      obtain ⟨x, y, hxy, hx, hy⟩ := hexValue_upperHex b
      have hb : UInt8.ofNat (16 * (b.toNat / 16) + b.toNat % 16) = b := by
        rw [Nat.div_add_mod, UInt8.ofNat_toNat]
      rw [List.flatMap_cons, hxy, List.cons_append, List.cons_append, List.nil_append, hexDecode,
        hx, hy, hexDecode_flatMap bytes]
      exact congrArg (fun c => some (c :: bytes)) hb

theorem sha256Digest_injective {sha256 : List UInt8 → List UInt8} {a b : List UInt8}
    (h : sha256Digest sha256 a = sha256Digest sha256 b) : sha256 a = sha256 b := by
  have hdigits := congrArg hexDecode (String.ofList_injective h)
  rw [hexDecode_flatMap, hexDecode_flatMap] at hdigits
  exact Option.some.inj hdigits

theorem Algorithm.curveName_append {a b : Algorithm} {s t : String}
    (h : a.curveName ++ s = b.curveName ++ t) : a = b ∧ s = t := by
  have hlist := congrArg String.toList h
  rw [String.toList_append, String.toList_append] at hlist
  cases a with
  | ecdsa =>
      cases b with
      | ecdsa => exact ⟨rfl, String.toList_inj.mp (List.append_cancel_left hlist)⟩
      | eddsa => cases hlist
  | eddsa =>
      cases b with
      | ecdsa => cases hlist
      | eddsa => exact ⟨rfl, String.toList_inj.mp (List.append_cancel_left hlist)⟩

/-- A room UUID belongs to one key: the one it is stored under, and that of every
request that left a room with it. -/
structure KeyInv (env : Env) (json : Codec SigningRoom) (m : ManagerState)
    (tr : List SignEvent) : Prop where
  issued : ∀ c a r, .request c ∈ tr → c.answer = .ok a → c.after = some r →
    Issued env m.issued r.roomUuid
  stored : ∀ c a r key r', .request c ∈ tr → c.answer = .ok a → c.after = some r →
    roomAt json m.db key = some r' → r.roomUuid = r'.roomUuid → signKey c.request = key
  oneKey : ∀ c c' a a' r r', .request c ∈ tr → .request c' ∈ tr → c.answer = .ok a →
    c'.answer = .ok a' → c.after = some r → c'.after = some r' → r.roomUuid = r'.roomUuid →
    signKey c.request = signKey c'.request

section

variable {env : Env} {json : Codec SigningRoom} {m m' : ManagerState} {tr : List SignEvent}
  {e : SignEvent} {c : SignRecord} {answer : SignupAnswer}

/-- A step that answers nothing and adds no room keeps the invariant. -/
theorem KeyInv.weaken (h : KeyInv env json m tr) (hissued : m'.issued = m.issued)
    (hrooms : ∀ key r, roomAt json m'.db key = some r → roomAt json m.db key = some r)
    (hquiet : ∀ c a, e = .request c → c.answer ≠ .ok a) : KeyInv env json m' (e :: tr) := by
  have old : ∀ {c a}, SignEvent.request c ∈ e :: tr → c.answer = .ok a → .request c ∈ tr := by
    intro c a hc ha
    exact List.mem_of_ne_of_mem (fun he => hquiet c a he.symm ha) hc
  constructor
  · intro c a r hc ha hr
    rw [hissued]
    exact h.issued c a r (old hc ha) ha hr
  · intro c a r key r' hc ha hr hr'
    exact h.stored c a r key r' (old hc ha) ha hr (hrooms key r' hr')
  · intro c c' a a' r r' hc hc' ha ha'
    exact h.oneKey c c' a a' r r' (old hc ha) (old hc' ha') ha ha'

/-- A request that left a room under the UUID of the one this request leaves was for
its key. -/
theorem KeyInv.handledKey (h : KeyInv env json m tr)
    (hbefore : c.before = roomAt json m.db (signKey c.request))
    (hh : Handles env c.clock c.request c.before m.issued c.after m'.issued answer)
    {d : SignRecord} {a : SignupAnswer} {r r' : SigningRoom} (hr : c.after = some r)
    (hd : .request d ∈ tr) (hda : d.answer = .ok a) (hr' : d.after = some r')
    (hu : r'.roomUuid = r.roomUuid) : signKey d.request = signKey c.request := by
  have hh' := hh
  rw [hr] at hh'
  rcases hh'.uuid with ⟨b, hb, hbu⟩ | ⟨hnew, -⟩
  · exact h.stored d a r' _ b hd hda hr' (hbefore.symm.trans hb) (hu.trans hbu.symm)
  · exact absurd (hu.trans hnew) ((h.issued d a r' hd hda hr').ne_next (Nat.le_refl _))

/-- A handled request keeps the invariant. -/
theorem KeyInv.handled (h : KeyInv env json m tr) (hrun : RunInv env json m tr)
    (hbefore : c.before = roomAt json m.db (signKey c.request))
    (hafter : c.after = roomAt json m'.db (signKey c.request))
    (hh : Handles env c.clock c.request c.before m.issued c.after m'.issued answer)
    (hother : ∀ key, key ≠ signKey c.request → roomAt json m'.db key = roomAt json m.db key) :
    KeyInv env json m' (.request c :: tr) := by
  have hok := hh.roomOk fun b hb => hrun.before_ok hbefore hb
  constructor
  · intro d a r hd hda hr
    rcases mem_requests hd with rfl | hd
    · exact (hok r hr).uuidIssued
    · exact (h.issued d a r hd hda hr).mono hh.le
  · intro d a r key r' hd hda hr hr' hu
    rcases room_after hafter hother hr' with ⟨hk, hr'⟩ | ⟨hk, hr'⟩ <;>
      rcases mem_requests hd with rfl | hd
    · exact hk.symm
    · rw [hk]
      exact h.handledKey hbefore hh hr' hd hda hr hu
    · exact absurd hu (hrun.apart_after hbefore hh hk hr' hr)
    · exact h.stored d a r key r' hd hda hr hr' hu
  · intro d d' a a' r r' hd hd' hda hda' hr hr' hu
    rcases mem_requests hd with rfl | hold <;> rcases mem_requests hd' with rfl | hold'
    · rfl
    · exact (h.handledKey hbefore hh hr hold' hda' hr' hu.symm).symm
    · exact h.handledKey hbefore hh hr' hold hda hr hu
    · exact h.oneKey d d' a a' r r' hold hold' hda hda' hr hr' hu

theorem keyInv_init : KeyInv env json ManagerState.init [] where
  issued := by intro c a r hc; cases hc
  stored := by intro c a r key r' hc; cases hc
  oneKey := by intro c c' a a' r r' hc; cases hc

theorem keyInv_run (h : SignRun env json m tr) : KeyInv env json m tr := by
  refine Run.invariant (KeyInv env json) ?_ ?_ h
  · rintro m rfl
    exact keyInv_init
  · intro m e m' tr hrun hinv hs
    rcases hs.cases with ⟨key, rfl, hissued, hrooms⟩ | ⟨c, p, rfl, ha, hba, hdb, hissued⟩ |
      ⟨c, answer, rfl, ha, hbefore, hafter, hh, hother⟩
    · exact hinv.weaken hissued hrooms fun _ _ he => by cases he
    · refine hinv.weaken hissued (fun key r hr => hdb ▸ hr) fun d a he hda => ?_
      rw [← SignEvent.request.inj he, ha] at hda
      cases hda
    · exact hinv.handled (runInv_run hrun) hbefore hafter hh hother

end

/-! ## The requests of a call -/

/-- The call asks for one room under one party number. -/
def SignupCall.AsksFor (args : SignupArgs) (call : SignupCall) : Prop :=
  ∀ request, call.request = some request →
    request.roomId = args.roomId ∧ request.curveName = args.curveName

section

variable {args : SignupArgs} {call : SignupCall} {late : Bool}

theorem signup_asksFor (args : SignupArgs) : (signup args).AsksFor args := by
  intro request h
  unfold signup at h
  split at h
  next =>
    rw [← Option.some.inj h]
    exact ⟨rfl, rfl⟩
  next => cases h

theorem Polling.next_asksFor {loop : Polling} (hroom : loop.request.roomId = args.roomId)
    (hcurve : loop.request.curveName = args.curveName) : (loop.next late).AsksFor args := by
  intro request h
  unfold Polling.next at h
  split at h
  next =>
    split at h
    next => cases h
    next =>
      rw [← Option.some.inj h]
      exact ⟨hroom, hcurve⟩
  next => cases h

theorem SignupCall.AsksFor.receive (h : call.AsksFor args) (answer : Except Panic SignupAnswer) :
    (call.receive late answer).AsksFor args := by
  unfold SignupCall.receive
  split
  next request s =>
    obtain ⟨hroom, hcurve⟩ := h request rfl
    exact Polling.next_asksFor hroom hcurve
  next loop s =>
    obtain ⟨hroom, hcurve⟩ := h _ rfl
    exact Polling.next_asksFor hroom hcurve
  next => exact fun request he => by cases he

/-- Every request of a call asks for the call's room. -/
theorem SignupCall.replay_asksFor (hcall : call.AsksFor args) :
    ∀ {history : List (Bool × SignRecord)} {after : SignupCall},
      call.replay history = some after → after.AsksFor args ∧ ∀ late c, (late, c) ∈ history →
        c.request.roomId = args.roomId ∧ c.request.curveName = args.curveName
  | [], after, h => by
      rw [← Option.some.inj h]
      exact ⟨hcall, fun _ _ hc => by cases hc⟩
  | (late, c) :: rest, after, h => by
      obtain ⟨before, hbefore, h⟩ := Option.bind_eq_some_iff.mp h
      obtain ⟨hasks, hrest⟩ := replay_asksFor hcall hbefore
      split at h
      next hrequest =>
        rw [← Option.some.inj h]
        refine ⟨hasks.receive c.answer, fun late' c' hc => ?_⟩
        cases List.mem_cons.mp hc with
        | inl he =>
            rw [(Prod.mk.inj he).2]
            exact hasks c.request hrequest
        | inr hc => exact hrest late' c' hc
      next => cases h

end

section

variable {K : Type} {env : Env} {json : Codec SigningRoom} {sha256 : List UInt8 → List UInt8}
  {signings : Nat → Signing K} {m : ManagerState} {calls : Nat → SignupCall}
  {tr : List SystemEvent}

/-- A run that was handed a room UUID read it off a room under its own key. -/
theorem SystemRun.returned_key (h : SystemRun env json (fun i => (signings i).signupArgs sha256)
    m calls tr) {i : Nat} {p : PartySignup} {n : UInt16} (hi : calls i = .returned p n) :
    ∃ c s, SignEvent.request c ∈ tr.map SystemEvent.event ∧ c.Answers s ∧ s.roomUuid = p.uuid ∧
      s.roomUuid ≠ "" ∧ signKey c.request = "signup-sign-" ++ ((signings i).algorithm.curveName ++
        sha256Digest sha256 (signings i).message) := by
  obtain ⟨late, c, s, hc, ha, rfl, -, hne⟩ := h.returned hi
  have hheard : (late, c) ∈ tr.filterMap (SystemEvent.heardBy i) :=
    List.mem_filterMap.mpr ⟨_, hc, if_pos rfl⟩
  obtain ⟨hroom, hcurve⟩ :=
    (SignupCall.replay_asksFor (signup_asksFor _) (h.clients i)).2 late c hheard
  refine ⟨c, s, List.mem_map_of_mem hc, ha, rfl, hne, ?_⟩
  rw [signKey, hroom, hcurve, String.append_assoc]
  rfl

/-- Runs that are handed one room UUID have the same curve and sign the same
bytes, if the hash does not confuse the messages in use. -/
theorem one_message
    (h : SystemRun env json (fun i => (signings i).signupArgs sha256) m calls tr)
    (hsha : ∀ i j, sha256 (signings i).message = sha256 (signings j).message →
      (signings i).message = (signings j).message) {i j : Nat} (hshare : ShareRoom calls i j) :
    (signings i).algorithm = (signings j).algorithm ∧
      (signings i).message = (signings j).message := by
  obtain ⟨p, p', n, n', hi, hj, hu⟩ := hshare
  obtain ⟨c, s, hc, ha, hs, hne, hkey⟩ := h.returned_key hi
  obtain ⟨c', s', hc', ha', hs', -, hkey'⟩ := h.returned_key hj
  obtain ⟨r, info, info', -, hread, hread'⟩ :=
    (runInv_run h.manager).sameRoom hc hc' ha ha' hne (hs.trans (hu.trans hs'.symm))
  have hone := (keyInv_run h.manager).oneKey c c' _ _ r r hc hc' ha ha' hread.after hread'.after rfl
  rw [hkey, hkey', String.append_right_inj] at hone
  obtain ⟨halg, hdigest⟩ := Algorithm.curveName_append hone
  exact ⟨halg, hsha i j (sha256Digest_injective hdigest)⟩

end

/-! ## Two wallets in one room -/

/-- SHA-256 on the bytes `CA FE`, and elsewhere something else. -/
def sha256OfCafe (input : List UInt8) : List UInt8 :=
  if input = [202, 254] then
    [3, 52, 111, 14, 121, 144, 222, 36, 35, 163, 188, 165, 51, 91, 249, 44, 220, 11,
      209, 75, 239, 34, 6, 184, 124, 99, 241, 138, 30, 153, 108, 82]
  else input

/-- Party `1` of a wallet with threshold `1` and party `2` of one with threshold
`2` sign the same message, at different keys. -/
def twoWallets (i : Nat) : Signing Nat where
  algorithm := .ecdsa
  params := { parties := "3", threshold := if i = 0 then "1" else "2" }
  messageStr := "CAFE"
  partyId := if i = 0 then 1 else 2
  groupKey := i
  childKey := i

/-- A request of one of the two, with its own threshold. -/
def walletRequest (partyNumber : UInt16) (partyUuid : String) : PartySignupRequestBody where
  threshold := partyNumber
  roomId := sha256Digest sha256OfCafe [202, 254]
  partyNumber := partyNumber
  partyUuid := partyUuid
  curveName := "ECDSA"

/-- Both join, and both poll. -/
def walletRequests : List (UInt64 × PartySignupRequestBody) :=
  [(10, walletRequest 1 ""), (10, walletRequest 2 ""), (11, walletRequest 1 "uu"),
    (11, walletRequest 2 "uuu")]

/-- The two runs when both were handed the room UUID. -/
def walletReturned (i : Nat) : SignupCall :=
  if i = 0 then .returned { number := 1, uuid := "u" } 2
  else if i = 1 then .returned { number := 2, uuid := "u" } 2
  else signup ((twoWallets i).signupArgs sha256OfCafe)

theorem twoWallets_run : ∃ m tr, SystemRun defaultEnv (Codec.ofCountable SigningRoom)
    (fun i => (twoWallets i).signupArgs sha256OfCafe) m walletReturned tr := by
  obtain ⟨s, hs, hlen, hclients⟩ :
      ∃ s ∈ play defaultEnv (signKey (walletRequest 1 "")) .init walletRequests,
        [1, 0, 1, 0].length = s.records.length ∧
        ∀ i < 2, (signup ((twoWallets i).signupArgs sha256OfCafe)).replay
          ((tagged [1, 0, 1, 0] s.records).filterMap (SystemEvent.heardBy i)) =
            some (walletReturned i) := by decide
  obtain ⟨m, hrun⟩ := systemRun_play hs hlen (by decide) hclients fun i hi => by
    rw [walletReturned, if_neg (by omega), if_neg (by omega)]
  exact ⟨m, _, hrun⟩

theorem twoWallets_share : ShareRoom walletReturned 0 1 := ⟨_, _, _, _, rfl, rfl, rfl⟩

/-- The two runs sign the same bytes on the same curve. -/
theorem one_message_two :
    (twoWallets 0).algorithm = (twoWallets 1).algorithm ∧
      (twoWallets 0).message = (twoWallets 1).message := by
  obtain ⟨m, tr, hrun⟩ := twoWallets_run
  exact one_message hrun (fun _ _ _ => rfl) twoWallets_share

/-- Neither the threshold nor the wallet's key nor the key at the path need be
the same. -/
theorem one_room_two_wallets : ¬ ∀ (K : Type) (env : Env) (json : Codec SigningRoom)
    (sha256 : List UInt8 → List UInt8) (signings : Nat → Signing K) (m : ManagerState)
    (calls : Nat → SignupCall) (tr : List SystemEvent),
    SystemRun env json (fun i => (signings i).signupArgs sha256) m calls tr →
    (∀ i j, sha256 (signings i).message = sha256 (signings j).message →
      (signings i).message = (signings j).message) →
    ∀ i j, ShareRoom calls i j →
      parseU16 (signings i).params.threshold = parseU16 (signings j).params.threshold ∨
        (signings i).groupKey = (signings j).groupKey ∨
        (signings i).childKey = (signings j).childKey := by
  intro hlaw
  obtain ⟨m, tr, hrun⟩ := twoWallets_run
  have hsame := hlaw Nat _ _ _ _ _ _ _ hrun (fun _ _ _ => rfl) 0 1 twoWallets_share
  exact absurd hsame (by decide)

end TssCli
