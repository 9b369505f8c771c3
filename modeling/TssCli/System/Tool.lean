import TssCli.Protocols.Barriers
import TssCli.Protocols.ReportedMessage
import TssCli.Room.OneMessage
import TssCli.System.Session

/-!
# The tool

`main` takes the values of the arguments from `clap`, and calls one of the two
`run_keygen`, or one of the two `sign`, or prints a public key.  A call that signs up is
a client: a `Command` of the world.

Everything a client does before its sign-up is done in the source's order: it parses its
parameters, reads its key file and derives the key at its path, and any of these may
panic.  After its sign-up it posts letters of its own seat only, whatever it reads
(`Tool.postsOwn`).
-/

namespace TssCli

open Mailbox Mailbox.Script Sharing

/-! ## Commands -/

section

variable {α β : Type}

/-- What a call does before its sign-up, which may panic, and what it does then. -/
def Command.of (call : Except Panic (Ask × (PartySignup → UInt16 → Client α))) : Command α where
  ask := call.map Prod.fst
  body seat total :=
    match call with
    | .ok (_, body) => body seat total
    | .error p => .fail p

/-- The same with another result. -/
def Command.map (f : α → β) (command : Command α) : Command β where
  ask := command.ask
  body seat total := f <$> command.body seat total

variable {call : Except Panic (Ask × (PartySignup → UInt16 → Client α))} {ask : Ask}

theorem Command.of_ask (h : (Command.of call).ask = .ok ask) :
    ∃ body, call = .ok (ask, body) ∧ (Command.of call).body = body := by
  cases call with
  | error p => cases h
  | ok out =>
      obtain ⟨ask', body⟩ := out
      obtain rfl := Except.ok.inj h
      exact ⟨body, rfl, rfl⟩

theorem Command.of_postsOwn
    (h : ∀ ask body, call = .ok (ask, body) → ∀ seat total,
      (body seat total).PostsOnly (OwnKey seat.uuid seat.number.toNat)) :
    (Command.of call).PostsOwn := by
  intro seat total
  cases call with
  | error p => trivial
  | ok out => exact h out.1 out.2 rfl seat total

theorem Command.PostsOwn.map {command : Command α} (h : command.PostsOwn) (f : α → β) :
    (command.map f).PostsOwn :=
  fun seat total => (h seat total).map f

end

/-! ## Parameters and files -/

/-- `value.unwrap_or("").split("/")`. -/
def splitParams (params : Option String) : List String :=
  ((params.getD "").toList.splitOn '/').map String.ofList

/-- The first two of the parameters of a key generation. -/
def keygenParams (params : List String) : Except Panic (UInt16 × UInt16) := do
  let threshold ← parseU16 (← index params 0)
  let parties ← parseU16 (← index params 1)
  return (threshold, parties)

/-- The `Params` of a signer. -/
def signParams (params : List String) : Except Panic Params := do
  let threshold ← index params 0
  let parties ← index params 1
  return { parties, threshold }

/-- `fs::read_to_string(..).expect(..)`, for what is there to read. -/
def readToString : Option String → Except Panic String
  | some data => .ok data
  | none => .error .unwrapErr

namespace Ecdsa

section

variable {F G : Type} {lib : Gg18 F G}

/-- The key file as `run_pubkey_or_sign` reads it, with the chain code that may be given
in its stead.  The id of the party is a `u16`. -/
def readKeyFile (json : Codec (KeyFile lib)) (reader : CurveReader F G) (data : Option String)
    (chainCodeHex : String) : Except Panic (KeyFile lib) := do
  let data ← readToString data
  let file ← json.read data
  let _ ← u16TryFrom file.partyNumInt
  if chainCodeHex = "" then return file else
  match (hexDecode chainCodeHex.toList).bind reader.scalarFromBytes with
  | some chainCode => return { file with chainCode }
  | none => .error .unwrapErr

/-- `run_keygen`. -/
def keygenCommand [SMul F G] [Add F] [Add G] (curve : Curve F G) (aes : AesGcm) (json : Json lib)
    (params : List String) (draws : Draws F lib.Seed) : Command (KeyFile lib) := .of do
  let params ← keygenParams params
  return (.keygen params.1 params.2 Algorithm.ecdsa.curveName, fun seat _ =>
    runKeygen curve aes params.1.toNat params.2.toNat seat.number.toNat draws json seat.uuid)

variable [AddCommGroup G] [SMul F G] [Add F] [Zero F] {curve : Curve F G} {hmac : Hmac}
  {signer : Gg18Signer lib}

/-- With the key at the path, `run_pubkey_or_sign` signs. -/
theorem runSign_eq [DecidableEq G] {json : SignJson signer} {file : KeyFile lib} {key : F × G}
    {path : String} (hkey : keyAt curve hmac file.chainCode file.ySum path = .ok key)
    {partyNumInt totalParties : Nat} {uuid messageStr : String} {draws : SignDraws signer.Seed} :
    runSign curve json hmac file partyNumInt totalParties uuid messageStr path draws =
      sign curve json file partyNumInt totalParties uuid key.2 (messageOf messageStr) key.1
        (path ≠ "") draws := by
  rw [runSign, hkey, lift_ok, pure_bind]

variable (curve hmac)

/-- `run_pubkey_or_sign`, for a public key. -/
def pubkey (json : Codec (KeyFile lib)) (reader : CurveReader F G) (data : Option String)
    (path chainCodeHex : String) : Except Panic Eddsa.Pubkey := do
  let file ← readKeyFile json reader data chainCodeHex
  let key ← keyAt curve hmac file.chainCode file.ySum path
  Eddsa.reportKey curve key.2 path

/-- `run_pubkey_or_sign`, for a signature. -/
def signCommand [DecidableEq G] (sha256 : List UInt8 → List UInt8) (json : SignJson signer)
    (fileJson : Codec (KeyFile lib)) (reader : CurveReader F G) (data : Option String)
    (path messageStr : String) (params : List String) (chainCodeHex : String)
    (draws : SignDraws signer.Seed) : Command (Signed F G) := .of do
  let file ← readKeyFile fileJson reader data chainCodeHex
  let key ← keyAt curve hmac file.chainCode file.ySum path
  let message := messageOf messageStr
  let params ← signParams params
  return (.sign { params, roomId := sha256Digest sha256 message,
                  partyId := UInt16.ofNat file.partyNumInt,
                  curveName := Algorithm.ecdsa.curveName }, fun seat total =>
    sign curve json file seat.number.toNat total.toNat seat.uuid key.2 message key.1 (path ≠ "")
      draws)

end

end Ecdsa

namespace Eddsa

section

variable {F G : Type} {lib : ThresholdSig F G}

/-- The key file as `run_signer` and `run_pubkey` read it. -/
def readKeyFile (json : Codec (KeyFile lib)) (data : Option String) :
    Except Panic (KeyFile lib) := do
  let data ← readToString data
  let file ← json.read data
  let _ ← u16TryFrom file.partyNumInt
  return file

/-- `run_keygen`. -/
def keygenCommand [SMul F G] [Add F] [Add G] (curve : Curve F G) (aes : AesGcm) (json : Json lib)
    (params : List String) (draws : Draws F lib.Seed) : Command (KeyFile lib) := .of do
  let params ← keygenParams params
  return (.keygen params.1 params.2 Algorithm.eddsa.curveName, fun seat _ =>
    runKeygen curve aes params.1.toNat params.2.toNat seat.number.toNat draws json seat.uuid)

variable [Field F] [DecidableEq F] [AddCommGroup G] [Module F G] (curve : Curve F G) (hmac : Hmac)

/-- `run_pubkey`, with the file that it reads. -/
def pubkey (json : Codec (KeyFile lib)) (data : Option String) (path : String) :
    Except Panic Pubkey := do
  let file ← readKeyFile json data
  runPubkey curve hmac file path

variable {signer : ThresholdSigner lib}

/-- `sign`, up to the signature and the key that it reports. -/
def signCommand (aes : AesGcm) (sha256 sha512 : List UInt8 → List UInt8) (json : SignerJson signer)
    (fileJson : Codec (KeyFile lib)) (data : Option String) (path messageStr : String)
    (params : List String) (draws : EphDraws signer.Seed) : Command (Signature F G × G) := .of do
  let params ← signParams params
  let file ← readKeyFile fileJson data
  let _ ← keyAt curve hmac file path
  let threshold ← parseU16 params.threshold
  return (.sign { params, roomId := sha256Digest sha256 (messageOf messageStr),
                  partyId := UInt16.ofNat file.partyNumInt,
                  curveName := Algorithm.eddsa.curveName }, fun seat total =>
    runSigner curve hmac aes sha512 json file threshold.toNat seat.number.toNat total.toNat
      seat.uuid messageStr path draws)

end

end Eddsa

/-! ## The tool -/

/-- The libraries that the tool is linked with, and the JSON of its messages and files. -/
structure Tool (F G F' G' : Type) where
  secp256k1 : Curve F G
  ed25519 : Curve F' G'
  reader : CurveReader F G
  aes : AesGcm
  hmac : Hmac
  sha256 : List UInt8 → List UInt8
  sha512 : List UInt8 → List UInt8
  gg18 : Gg18 F G
  gg18Signer : Gg18Signer gg18
  thresholdSig : ThresholdSig F' G'
  thresholdSigner : ThresholdSigner thresholdSig
  ecdsaKeygen : Ecdsa.Json gg18
  ecdsaSign : Ecdsa.SignJson gg18Signer
  ecdsaFile : Codec (Ecdsa.KeyFile gg18)
  eddsaKeygen : Eddsa.Json thresholdSig
  eddsaSign : Eddsa.SignerJson thresholdSigner
  eddsaFile : Codec (Eddsa.KeyFile thresholdSig)

section

variable {F G F' G' : Type}

/-- What a client ends with: a key file to write, or a signature to print. -/
inductive Tool.Output (tool : Tool F G F' G') where
  | ecdsaFile (file : Ecdsa.KeyFile tool.gg18)
  | eddsaFile (file : Eddsa.KeyFile tool.thresholdSig)
  | ecdsaSigned (signed : Ecdsa.Signed F G)
  | eddsaSigned (signature : Signature F' G') (Y : G')

/-- A call that signs up, with the file it reads and what it draws at random. -/
inductive Tool.Call (tool : Tool F G F' G') where
  | ecdsaKeygen (params : List String) (draws : Ecdsa.Draws F tool.gg18.Seed)
  | eddsaKeygen (params : List String) (draws : Eddsa.Draws F' tool.thresholdSig.Seed)
  | ecdsaSign (data : Option String) (path messageStr : String) (params : List String)
      (chainCodeHex : String) (draws : Ecdsa.SignDraws tool.gg18Signer.Seed)
  | eddsaSign (data : Option String) (path messageStr : String) (params : List String)
      (draws : Eddsa.EphDraws tool.thresholdSigner.Seed)

/-- The bytes that a call signs. -/
def Tool.Call.message {tool : Tool F G F' G'} : tool.Call → List UInt8
  | .ecdsaSign _ _ messageStr _ _ _ => messageOf messageStr
  | .eddsaSign _ _ messageStr _ _ => messageOf messageStr
  | _ => []

/-- The subcommands that work with keys. -/
inductive Action where
  | keygen
  | sign
  | pubkey
deriving DecidableEq

/-- The values of the arguments, `None` where one is not given or the subcommand has no
such argument, and of the environment. -/
structure ArgMatches where
  params : Option String
  path : Option String
  messageStr : Option String
  algorithm : Option String
  chainCode : Option String
  /-- `TSS_CLI_CHAIN_CODE`. -/
  chainCodeInEnv : Option String

/-- What a call draws at random, under whichever algorithm. -/
structure Tool.Draws (tool : Tool F G F' G') where
  ecdsaKeygen : Ecdsa.Draws F tool.gg18.Seed
  eddsaKeygen : Eddsa.Draws F' tool.thresholdSig.Seed
  ecdsaSign : Ecdsa.SignDraws tool.gg18Signer.Seed
  eddsaSign : Eddsa.EphDraws tool.thresholdSigner.Seed

/-- What `main` comes to. -/
inductive Tool.Effect (tool : Tool F G F' G') where
  | client (call : tool.Call)
  | prints (key : Except Panic Eddsa.Pubkey)
  /-- The algorithm is none of the two. -/
  | none

/-- A call for a key generation with these parameters, on either curve. -/
inductive Tool.Keygens (tool : Tool F G F' G') (t n : UInt16) : String → tool.Call → Prop where
  | ecdsa (params : List String) (draws : Ecdsa.Draws F tool.gg18.Seed) :
      keygenParams params = .ok (t, n) →
      Keygens tool t n Algorithm.ecdsa.curveName (.ecdsaKeygen params draws)
  | eddsa (params : List String) (draws : Eddsa.Draws F' tool.thresholdSig.Seed) :
      keygenParams params = .ok (t, n) →
      Keygens tool t n Algorithm.eddsa.curveName (.eddsaKeygen params draws)

variable {tool : Tool F G F' G'} {t n : UInt16} {call : tool.Call}

theorem Tool.Keygens.ecdsaCall (h : tool.Keygens t n Algorithm.ecdsa.curveName call) :
    ∃ params draws, call = .ecdsaKeygen params draws ∧ keygenParams params = .ok (t, n) := by
  generalize hcurve : Algorithm.ecdsa.curveName = curve at h
  cases h with
  | ecdsa params draws hparams => exact ⟨params, draws, rfl, hparams⟩
  | eddsa => exact absurd hcurve (by decide)

theorem Tool.Keygens.eddsaCall (h : tool.Keygens t n Algorithm.eddsa.curveName call) :
    ∃ params draws, call = .eddsaKeygen params draws ∧ keygenParams params = .ok (t, n) := by
  generalize hcurve : Algorithm.eddsa.curveName = curve at h
  cases h with
  | ecdsa => exact absurd hcurve (by decide)
  | eddsa params draws hparams => exact ⟨params, draws, rfl, hparams⟩

end

section

variable {F G F' G' : Type} [Field F] [AddCommGroup G] [Module F G] [DecidableEq G] [Field F']
  [DecidableEq F'] [AddCommGroup G'] [Module F' G'] (tool : Tool F G F' G')

/-- `main`, for these subcommands. -/
def Tool.main (action : Action) (args : ArgMatches) (data : Option String) (draws : tool.Draws) :
    tool.Effect :=
  let path := args.path.getD ""
  let messageStr := args.messageStr.getD ""
  let params := splitParams args.params
  let chainCode := args.chainCode.getD (args.chainCodeInEnv.getD "")
  match args.algorithm.getD "ecdsa", action with
  | "ecdsa", .keygen => .client (.ecdsaKeygen params draws.ecdsaKeygen)
  | "eddsa", .keygen => .client (.eddsaKeygen params draws.eddsaKeygen)
  | "ecdsa", .sign =>
      .client (.ecdsaSign data path messageStr params chainCode draws.ecdsaSign)
  | "eddsa", .sign => .client (.eddsaSign data path messageStr params draws.eddsaSign)
  | "ecdsa", .pubkey =>
      .prints (Ecdsa.pubkey tool.secp256k1 tool.hmac tool.ecdsaFile tool.reader data path chainCode)
  | "eddsa", .pubkey => .prints (Eddsa.pubkey tool.ed25519 tool.hmac tool.eddsaFile data path)
  | _, _ => .none

/-- What a call does. -/
def Tool.command : tool.Call → Command tool.Output
  | .ecdsaKeygen params draws =>
      (Ecdsa.keygenCommand tool.secp256k1 tool.aes tool.ecdsaKeygen params draws).map .ecdsaFile
  | .eddsaKeygen params draws =>
      (Eddsa.keygenCommand tool.ed25519 tool.aes tool.eddsaKeygen params draws).map .eddsaFile
  | .ecdsaSign data path messageStr params chainCodeHex draws =>
      (Ecdsa.signCommand tool.secp256k1 tool.hmac tool.sha256 tool.ecdsaSign tool.ecdsaFile
        tool.reader data path messageStr params chainCodeHex draws).map .ecdsaSigned
  | .eddsaSign data path messageStr params draws =>
      (Eddsa.signCommand tool.ed25519 tool.hmac tool.aes tool.sha256 tool.sha512 tool.eddsaSign
        tool.eddsaFile data path messageStr params draws).map fun out => .eddsaSigned out.1 out.2

end

/-! ## A client posts its own letters -/

/-- The script posts letters of its own seat only. -/
abbrev OwnLetters {α : Type} (uuid : String) (me : Nat) (s : Client α) : Prop :=
  Triple (fun _ => OwnKey uuid me) (fun _ => True) s fun _ => True

section

variable {α : Type} {uuid : String} {me : Nat} {s : Client α}

theorem OwnLetters.postsOnly (h : OwnLetters uuid me s) : s.PostsOnly (OwnKey uuid me) :=
  (h ∅ trivial).postsOnly fun _ _ hk => hk

/-- Who follows a plan posts own letters. -/
theorem Plan.Advances.ownLetters {plan : Plan} {n m : Nat} (h : plan.Advances uuid n me 0 s m) :
    s.PostsOnly (OwnKey uuid me) :=
  (h ∅ Plan.passed_zero).postsOnly fun _ _ ⟨_, l, hl, hsender, hkey, _⟩ => ⟨l, hl.1, hsender, hkey⟩

theorem ownLetters_poll (key : Nat → Key) (l : List Nat) (init : List String) :
    OwnLetters uuid me (l.foldlM (poll me key) init) := by
  refine Triple.foldlM fun i _ v => ?_
  rw [poll]
  split
  next => exact fun _ _ => .await fun _ => .ret trivial
  next => exact .pure

theorem ownLetters_readRound (n : Nat) (round : Round) (data : String) :
    OwnLetters uuid me (readRound me n uuid round data) :=
  fun _ _ => .post ⟨.toAll me round uuid, rfl, rfl, rfl⟩ (ownLetters_poll _ _ _ _ trivial)

theorem ownLetters_exchangeData (json : Codec α) (n : Nat) (round : Round) (data : α) :
    OwnLetters uuid me (exchangeData json me n uuid round data) :=
  (ownLetters_readRound n round _).bind fun _ => .lift

theorem ownLetters_sendP2p (i : Nat) (round : Round) (data : String) :
    OwnLetters uuid me (sendP2p me i round data uuid) :=
  fun _ _ => .post ⟨.toOne me i round uuid, rfl, rfl, rfl⟩ (.ret trivial)

theorem ownLetters_pollForP2p (n : Nat) (round : Round) :
    OwnLetters uuid me (pollForP2p me n round uuid) :=
  ownLetters_poll _ _ _

end

namespace Eddsa

section

variable {F G : Type} {lib : ThresholdSig F G} {signer : ThresholdSigner lib} {curve : Curve F G}
  {aes : AesGcm} {uuid : String} {me : Nat}

theorem ownLetters_sendEphShares {packJson : Codec AeadPack} (n : Nat) (parties : List Nat)
    (round : Round) (encKeys : Nat → Option (List UInt8)) (secretShares : List F)
    (nonce : Nat → Nonce) :
    OwnLetters uuid me
      (sendEphShares curve aes packJson me n parties round uuid encKeys secretShares nonce) := by
  refine Triple.foldlM fun i _ _ => ?_
  split
  next => exact .pure
  next =>
    exact .lift_bind fun _ => .lift_bind fun _ => .lift_bind fun _ => ownLetters_sendP2p i round _

theorem ownLetters_ephKeygen [SMul F G] [Add G] (json : EphJson signer) (t n : Nat)
    (keyI : lib.Keys) (message : List UInt8) (parties : List Nat) (draws : EphDraws signer.Seed) :
    OwnLetters uuid me (ephKeygen curve aes json uuid t n me keyI message parties draws) := by
  unfold ephKeygen
  refine .lift_bind fun _ => ?_
  split
  next => exact .fail
  next =>
    refine .lift_bind fun _ => (ownLetters_readRound n _ _).bind fun _ => ?_
    refine .lift_bind fun _ => .lift_bind fun _ => .lift_bind fun _ => ?_
    refine (ownLetters_readRound n _ _).bind fun _ => .lift_bind fun _ => ?_
    refine (ownLetters_sendEphShares n _ _ _ _ _).bind fun _ => ?_
    refine (ownLetters_pollForP2p n _).bind fun _ => .lift_bind fun _ => .lift_bind fun _ => ?_
    exact (ownLetters_readRound n _ _).bind fun _ => .lift_bind fun _ => .pure

/-- Here the number of signers need not fit the threshold. -/
theorem ownLetters_runSigner [Field F] [DecidableEq F] [AddCommGroup G] [Module F G] {hmac : Hmac}
    {sha512 : List UInt8 → List UInt8} (json : SignerJson signer) (keyFile : KeyFile lib)
    (t n : Nat) (messageStr path : String) (draws : EphDraws signer.Seed) :
    OwnLetters uuid me
      (runSigner curve hmac aes sha512 json keyFile t me n uuid messageStr path draws) := by
  unfold runSigner
  refine .lift_bind fun _ => .lift_bind fun _ => .lift_bind fun signers => ?_
  refine (ownLetters_exchangeData json.index signers _ _).bind fun _ => ?_
  refine (ownLetters_ephKeygen json.eph t n _ _ _ _).bind fun _ => .lift_bind fun _ => ?_
  refine (ownLetters_exchangeData json.localSig n _ _).bind fun _ => ?_
  split
  next => exact .fail
  next =>
    dsimp only
    split
    next => exact .pure
    next => exact .fail

end

end Eddsa

section

variable {F G F' G' : Type} [Field F] [AddCommGroup G] [Module F G] [DecidableEq G] [Field F']
  [DecidableEq F'] [AddCommGroup G'] [Module F' G']

/-- Every call posts letters of its own seat only. -/
theorem Tool.postsOwn (tool : Tool F G F' G') (call : tool.Call) :
    (tool.command call).PostsOwn := by
  cases call with
  | ecdsaKeygen params draws =>
      refine (Command.of_postsOwn fun ask body h seat total => ?_).map _
      obtain ⟨parsed, -, h⟩ := except_bind_ok h
      cases h
      exact (Ecdsa.advances_runKeygen _ _ _ _).ownLetters
  | eddsaKeygen params draws =>
      refine (Command.of_postsOwn fun ask body h seat total => ?_).map _
      obtain ⟨parsed, -, h⟩ := except_bind_ok h
      cases h
      exact (Eddsa.advances_runKeygen _ _ _ _).ownLetters
  | ecdsaSign data path messageStr params chainCodeHex draws =>
      refine (Command.of_postsOwn fun ask body h seat total => ?_).map _
      obtain ⟨file, -, h⟩ := except_bind_ok h
      obtain ⟨key, hkey, h⟩ := except_bind_ok h
      obtain ⟨parsed, -, h⟩ := except_bind_ok h
      cases h
      dsimp only
      rw [← Ecdsa.runSign_eq hkey]
      exact (Ecdsa.advances_runSign _ _ _ _).ownLetters
  | eddsaSign data path messageStr params draws =>
      refine (Command.of_postsOwn fun ask body h seat total => ?_).map _
      obtain ⟨parsed, -, h⟩ := except_bind_ok h
      obtain ⟨file, -, h⟩ := except_bind_ok h
      obtain ⟨key, -, h⟩ := except_bind_ok h
      obtain ⟨threshold, -, h⟩ := except_bind_ok h
      cases h
      exact (Eddsa.ownLetters_runSigner _ _ _ _ _ _ _).postsOnly

/-- What the documentation says of the libraries. -/
structure Tool.Documented (tool : Tool F G F' G') : Prop where
  secp256k1 : tool.secp256k1.Documented
  ed25519 : tool.ed25519.Documented
  aes : tool.aes.Documented
  gg18 : tool.gg18.Documented tool.secp256k1.generator
  gg18Signer : tool.gg18Signer.Documented tool.secp256k1
  thresholdSig : tool.thresholdSig.Documented tool.ed25519.generator
  thresholdSigner : tool.thresholdSigner.Documented tool.ed25519 tool.sha512

/-! ## What a call asks for -/

variable {tool : Tool F G F' G'} {call : tool.Call} {t n : UInt16}

theorem Tool.keygens {curve : String}
    (h : (tool.command call).ask = .ok (.keygen t n curve)) : tool.Keygens t n curve call := by
  cases call with
  | ecdsaKeygen params draws =>
      obtain ⟨body, h, -⟩ := Command.of_ask h
      obtain ⟨⟨t', n'⟩, hparams, h⟩ := except_bind_ok h
      cases h
      exact .ecdsa params draws hparams
  | eddsaKeygen params draws =>
      obtain ⟨body, h, -⟩ := Command.of_ask h
      obtain ⟨⟨t', n'⟩, hparams, h⟩ := except_bind_ok h
      cases h
      exact .eddsa params draws hparams
  | ecdsaSign data path messageStr params chainCodeHex draws =>
      obtain ⟨body, h, -⟩ := Command.of_ask h
      obtain ⟨file, -, h⟩ := except_bind_ok h
      obtain ⟨key, -, h⟩ := except_bind_ok h
      obtain ⟨parsed, -, h⟩ := except_bind_ok h
      cases h
  | eddsaSign data path messageStr params draws =>
      obtain ⟨body, h, -⟩ := Command.of_ask h
      obtain ⟨parsed, -, h⟩ := except_bind_ok h
      obtain ⟨file, -, h⟩ := except_bind_ok h
      obtain ⟨key, -, h⟩ := except_bind_ok h
      obtain ⟨threshold, -, h⟩ := except_bind_ok h
      cases h

theorem Tool.Keygens.ask {curve : String} (h : tool.Keygens t n curve call) :
    (tool.command call).ask = .ok (.keygen t n curve) := by
  cases h with
  | ecdsa params draws hparams =>
      show (Ecdsa.keygenCommand _ _ _ params draws).ask = _
      rw [Ecdsa.keygenCommand, hparams]
      rfl
  | eddsa params draws hparams =>
      show (Eddsa.keygenCommand _ _ _ params draws).ask = _
      rw [Eddsa.keygenCommand, hparams]
      rfl

/-- A call for a signature, and what it signs up with. -/
inductive Tool.Signs (tool : Tool F G F' G') : SignupArgs → tool.Call → Prop where
  | ecdsa {data : Option String} {path messageStr chainCodeHex : String} {params : List String}
      {draws : Ecdsa.SignDraws tool.gg18Signer.Seed} {file : Ecdsa.KeyFile tool.gg18} {key : F × G}
      {parsed : Params} :
      Ecdsa.readKeyFile tool.ecdsaFile tool.reader data chainCodeHex = .ok file →
      Ecdsa.keyAt tool.secp256k1 tool.hmac file.chainCode file.ySum path = .ok key →
      signParams params = .ok parsed →
      Signs tool
        { params := parsed, roomId := sha256Digest tool.sha256 (messageOf messageStr),
          partyId := UInt16.ofNat file.partyNumInt, curveName := Algorithm.ecdsa.curveName }
        (.ecdsaSign data path messageStr params chainCodeHex draws)
  | eddsa {data : Option String} {path messageStr : String} {params : List String}
      {draws : Eddsa.EphDraws tool.thresholdSigner.Seed} {file : Eddsa.KeyFile tool.thresholdSig}
      {key : G' × F'} {parsed : Params} {threshold : UInt16} :
      signParams params = .ok parsed →
      Eddsa.readKeyFile tool.eddsaFile data = .ok file →
      Eddsa.keyAt tool.ed25519 tool.hmac file path = .ok key →
      parseU16 parsed.threshold = .ok threshold →
      Signs tool
        { params := parsed, roomId := sha256Digest tool.sha256 (messageOf messageStr),
          partyId := UInt16.ofNat file.partyNumInt, curveName := Algorithm.eddsa.curveName }
        (.eddsaSign data path messageStr params draws)

theorem Tool.signs {args : SignupArgs} (h : (tool.command call).ask = .ok (.sign args)) :
    tool.Signs args call := by
  cases call with
  | ecdsaKeygen params draws =>
      obtain ⟨body, h, -⟩ := Command.of_ask h
      obtain ⟨parsed, -, h⟩ := except_bind_ok h
      cases h
  | eddsaKeygen params draws =>
      obtain ⟨body, h, -⟩ := Command.of_ask h
      obtain ⟨parsed, -, h⟩ := except_bind_ok h
      cases h
  | ecdsaSign data path messageStr params chainCodeHex draws =>
      obtain ⟨body, h, -⟩ := Command.of_ask h
      obtain ⟨file, hfile, h⟩ := except_bind_ok h
      obtain ⟨key, hkey, h⟩ := except_bind_ok h
      obtain ⟨parsed, hparsed, h⟩ := except_bind_ok h
      cases h
      exact .ecdsa hfile hkey hparsed
  | eddsaSign data path messageStr params draws =>
      obtain ⟨body, h, -⟩ := Command.of_ask h
      obtain ⟨parsed, hparsed, h⟩ := except_bind_ok h
      obtain ⟨file, hfile, h⟩ := except_bind_ok h
      obtain ⟨key, hkey, h⟩ := except_bind_ok h
      obtain ⟨threshold, hthreshold, h⟩ := except_bind_ok h
      cases h
      exact .eddsa hparsed hfile hkey hthreshold

/-! ## What a call does in its session -/

theorem Tool.ecdsaKeygen_body {params : List String} (hparams : keygenParams params = .ok (t, n))
    (draws : Ecdsa.Draws F tool.gg18.Seed) (seat : PartySignup) (total : UInt16) :
    (tool.command (.ecdsaKeygen params draws)).body seat total = Output.ecdsaFile <$>
      Ecdsa.runKeygen tool.secp256k1 tool.aes t.toNat n.toNat seat.number.toNat draws
        tool.ecdsaKeygen seat.uuid := by
  show Output.ecdsaFile <$> (Ecdsa.keygenCommand _ _ _ params draws).body seat total = _
  rw [Ecdsa.keygenCommand, hparams]
  rfl

theorem Tool.eddsaKeygen_body {params : List String} (hparams : keygenParams params = .ok (t, n))
    (draws : Eddsa.Draws F' tool.thresholdSig.Seed) (seat : PartySignup) (total : UInt16) :
    (tool.command (.eddsaKeygen params draws)).body seat total = Output.eddsaFile <$>
      Eddsa.runKeygen tool.ed25519 tool.aes t.toNat n.toNat seat.number.toNat draws
        tool.eddsaKeygen seat.uuid := by
  show Output.eddsaFile <$> (Eddsa.keygenCommand _ _ _ params draws).body seat total = _
  rw [Eddsa.keygenCommand, hparams]
  rfl

theorem Tool.ecdsaSign_body {data : Option String} {path messageStr chainCodeHex : String}
    {params : List String} {file : Ecdsa.KeyFile tool.gg18} {key : F × G} {parsed : Params}
    (hfile : Ecdsa.readKeyFile tool.ecdsaFile tool.reader data chainCodeHex = .ok file)
    (hkey : Ecdsa.keyAt tool.secp256k1 tool.hmac file.chainCode file.ySum path = .ok key)
    (hparsed : signParams params = .ok parsed) (draws : Ecdsa.SignDraws tool.gg18Signer.Seed)
    (seat : PartySignup) (total : UInt16) :
    (tool.command (.ecdsaSign data path messageStr params chainCodeHex draws)).body seat total =
      Output.ecdsaSigned <$> Ecdsa.runSign tool.secp256k1 tool.ecdsaSign tool.hmac file
        seat.number.toNat total.toNat seat.uuid messageStr path draws := by
  show Output.ecdsaSigned <$> (Ecdsa.signCommand _ _ _ _ _ _ data path messageStr params chainCodeHex
    draws).body seat total = _
  rw [Ecdsa.signCommand, hfile, except_ok_bind, hkey, except_ok_bind, hparsed, except_ok_bind,
    Ecdsa.runSign_eq hkey]
  rfl

theorem Tool.eddsaSign_body {data : Option String} {path messageStr : String} {params : List String}
    {file : Eddsa.KeyFile tool.thresholdSig} {key : G' × F'} {parsed : Params} {threshold : UInt16}
    (hparsed : signParams params = .ok parsed)
    (hfile : Eddsa.readKeyFile tool.eddsaFile data = .ok file)
    (hkey : Eddsa.keyAt tool.ed25519 tool.hmac file path = .ok key)
    (hthreshold : parseU16 parsed.threshold = .ok threshold)
    (draws : Eddsa.EphDraws tool.thresholdSigner.Seed) (seat : PartySignup) (total : UInt16) :
    (tool.command (.eddsaSign data path messageStr params draws)).body seat total =
      (fun out => Output.eddsaSigned out.1 out.2) <$> Eddsa.runSigner tool.ed25519 tool.hmac tool.aes
        tool.sha512 tool.eddsaSign file threshold.toNat seat.number.toNat total.toNat seat.uuid
        messageStr path draws := by
  show (fun out => Output.eddsaSigned out.1 out.2) <$> (Eddsa.signCommand _ _ _ _ _ _ _ data path
    messageStr params draws).body seat total = _
  rw [Eddsa.signCommand, hparsed, except_ok_bind, hfile, except_ok_bind, hkey, except_ok_bind,
    hthreshold]
  rfl

/-! ## Runs -/

/-- A run of the world in which the clients are calls of the tool. -/
abbrev Tool.Run (tool : Tool F G F' G') (env : Env) (keygenJson : Codec PartySignup)
    (roomJson : Codec SigningRoom) (calls : Nat → tool.Call) :
    World tool.Output → List WorldEvent → Prop :=
  WorldRun env keygenJson roomJson fun i => tool.command (calls i)

/-- Other programs keep off the records of the manager and the letters of the session. -/
structure StaysOut (uuid : String) (tr : List WorldEvent) : Prop where
  records : ∀ record, .other record ∈ tr → record.KeepsRecords
  letters : ∀ record, .other record ∈ tr → record.KeepsOut uuid

/-- What the clients of a session return they return in one run of its scripts. -/
theorem StaysOut.net {env : Env} {keygenJson : Codec PartySignup} {roomJson : Codec SigningRoom}
    {calls : Nat → tool.Call} {w : World tool.Output} {tr : List WorldEvent} {uuid : String}
    {m : Nat} {β : Type} {f : β → tool.Output} {script : Nat → Client β} (h : StaysOut uuid tr)
    (hrun : tool.Run env keygenJson roomJson calls w tr) (hwhole : w.manager.poisoned = false)
    (hin : InSession (fun i => tool.command (calls i)) uuid m (fun k => f <$> script k) w)
    (hposts : ∀ k, 1 ≤ k → k ≤ m → (f <$> script k).PostsOnly (OwnKey uuid k)) :
    ∃ net tr', NetRun (sessionNet m (fun _ => none) script) net tr' ∧
      (∀ e ∈ tr', KeepsOut uuid e ∧ GivesUp (· = .pollTimeout) e) ∧
      ∀ i seat total out, w.process i = .session seat total (.ret out) → seat.uuid = uuid →
        ∃ k b, number k = seat.number.toNat ∧ net.scripts k = .ret b ∧ out = f b := by
  obtain ⟨net, tr', hnet, htr', hreturned, -⟩ := WorldRun.mirrored hrun
    (fun i => tool.postsOwn (calls i)) h.letters hwhole hin hposts
  exact ⟨net, tr', hnet, htr', hreturned⟩

end

/-! ## Over the additive group -/

instance : Countable (Ecdsa.KeyFile (additiveGg18 65537)) :=
  @Function.Injective.countable _ ((Nat × ZMod 65537) × ZMod 65537 × (ZMod 65537 × ZMod 65537) × Nat ×
      List (Vss (ZMod 65537)) × List Nat × ZMod 65537) _
    (fun x => (x.partyKeys, x.chainCode, x.sharedKeys, x.partyNumInt, x.vssSchemeVec,
      x.paillierKeyVec, x.ySum)) fun x y h => by cases x; cases y; cases h; rfl

instance : Countable (Eddsa.KeyFile (additiveThresholdSig 65537)) :=
  @Function.Injective.countable _ (ZMod 65537 × ZMod 65537 × (ZMod 65537 × ZMod 65537) × Nat ×
      List (Vss (ZMod 65537)) × ZMod 65537) _
    (fun x => (x.partyKeys, x.chainCode, x.sharedKeys, x.partyNumInt, x.vssSchemeVec, x.ySum))
    fun x y h => by cases x; cases y; cases h; rfl

instance countable_pair : Countable (ZMod 65537 × ZMod 65537) := inferInstance

/-- The tool with libraries over the additive group. -/
noncomputable def additiveTool : Tool (ZMod 65537) (ZMod 65537) (ZMod 65537) (ZMod 65537) where
  secp256k1 := foldedCurve 65537
  ed25519 := additiveCurve 65537
  reader := ⟨fun _ => none, fun _ _ => none⟩
  aes := xorAes
  hmac _ _ := []
  sha256 := id
  sha512 := id
  gg18 := additiveGg18 65537
  gg18Signer := additiveGg18Signer 65537
  thresholdSig := additiveThresholdSig 65537
  thresholdSigner := additiveSigner 65537 id
  ecdsaKeygen := additiveKeygenJson 65537
  ecdsaSign := additiveSignJson 65537
  ecdsaFile := .ofCountable _
  eddsaKeygen :=
    ⟨.ofCountable _, .ofCountable _ (ZMod 65537) (ZMod 65537) (ZMod 65537 × ZMod 65537)⟩
  eddsaSign := additiveSignerJson
  eddsaFile := .ofCountable _

theorem additiveTool_documented : additiveTool.Documented where
  secp256k1 := foldedCurve_documented (by norm_num) (by norm_num)
  ed25519 := additiveCurve_documented 65537 (by norm_num) (by norm_num)
  aes := xorAes_documented
  gg18 := additiveGg18_documented 65537
  gg18Signer := additiveGg18Signer_documented 65537
  thresholdSig := additiveThresholdSig_documented 65537
  thresholdSigner := additiveSigner_documented 65537 id

end TssCli
