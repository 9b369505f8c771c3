import TssCli.System.EcdsaSignatures

/-!
# What a call reports

What a client returns it returns by executing its script, whatever the manager and all
others do (`WorldRun.executes`).  So even among strangers that post what they like, a
call for a signature reports only what it has verified itself, under the key that the
call for the public key prints for the same file and the same options
(`Tool.sign_reports`).
-/

namespace TssCli

open Mailbox Mailbox.Script Transition

/-! ## Clients execute their scripts -/

section

variable {α : Type} {env : Env} {keygenJson : Codec PartySignup} {roomJson : Codec SigningRoom}
  {commands : Nat → Command α} {w : World α} {tr : List WorldEvent} {i : Nat}
  {seat : PartySignup} {total : UInt16} {s : Client α} {a : α} {ops : List (Op Key String)}

/-- What is executed after an answer is executed after one operation, or none. -/
theorem takeReply_executes {late : Bool} {reply : Except Panic Reply}
    (h : Executes (takeReply late s reply) ops a) : ∃ ops, Executes s ops a := by
  unfold takeReply at h
  split at h
  next => exact ⟨_, .post h⟩
  next => exact ⟨_, .await h⟩
  next =>
    split at h
    next => cases h
    next => exact ⟨ops, h⟩
  next => cases h

/-- What is left of the script of a client ends as the script does. -/
theorem WorldRun.remains (hrun : WorldRun env keygenJson roomJson commands w tr) :
    ∀ i seat total s, w.process i = .session seat total s → ∀ ops a, Executes s ops a →
      ∃ ops, Executes ((commands i).body seat total) ops a := by
  refine Run.invariant (fun w _ => ∀ i seat total s, w.process i = .session seat total s →
    ∀ ops a, Executes s ops a → ∃ ops, Executes ((commands i).body seat total) ops a) ?_ ?_ hrun
  · rintro w rfl i seat total s hi
    have hi : Process.start (commands i) = .session seat total s := hi
    unfold Process.start at hi
    split at hi <;> cases hi
  · intro w e w' tr _ ih hs i seat total s hi ops a h
    rcases hs.process_cases i with ⟨hp | ⟨p, hp⟩, -⟩ | ⟨late, clock, request, -, -, hp⟩
    · exact ih i seat total s (hp ▸ hi) ops a h
    · rw [hp] at hi
      generalize w.process i = q at hi
      cases q with
      | session =>
          cases hi
          cases h
      | _ => cases hi
    · rw [hp] at hi
      rcases Process.receive_cases (commands i).body late (w.process i)
        (handle env keygenJson roomJson w.manager clock request).2 with
        ⟨seat', total', s', hold, hr⟩ | ⟨-, ⟨seat', total', hr⟩ | hnone⟩
      · rw [hr] at hi
        cases hi
        obtain ⟨ops', h'⟩ := takeReply_executes h
        exact ih i _ _ _ hold ops' a h'
      · rw [hr] at hi
        cases hi
        exact ⟨ops, h⟩
      · exact absurd ⟨s, hi⟩ (hnone seat total)

/-- A client that has returned has executed its script. -/
theorem WorldRun.executes (hrun : WorldRun env keygenJson roomJson commands w tr)
    (hi : w.process i = .session seat total (.ret a)) :
    ∃ ops, Executes ((commands i).body seat total) ops a :=
  hrun.remains i seat total _ hi [] a .ret

end

/-! ## A signer alone -/

/-- An EdDSA signer that returns has verified the signature, under the key that it found at
the path. -/
theorem Eddsa.runSigner_executes {F G : Type} [Field F] [DecidableEq F] [AddCommGroup G]
    [Module F G] {lib : ThresholdSig F G} {signer : ThresholdSigner lib} {curve : Curve F G}
    {hmac : Hmac} {aes : AesGcm} {sha512 : List UInt8 → List UInt8} {json : SignerJson signer}
    {file : KeyFile lib} {threshold partyNumInt totalParties : Nat} {uuid messageStr path : String}
    {draws : EphDraws signer.Seed} {ops : List (Op Key String)} {out : Signature F G × G}
    (h : Executes (runSigner curve hmac aes sha512 json file threshold partyNumInt totalParties
      uuid messageStr path draws) ops out) :
    signer.verify out.1 (messageOf messageStr) out.2 = true ∧
      ∃ f, keyAt curve hmac file path = .ok (out.2, f) := by
  obtain ⟨_, _, key, _, hkey, h₁⟩ := h.of_bind
  obtain ⟨_, _, index₀, _, _, h₂⟩ := h₁.of_bind
  obtain ⟨_, _, signers, _, _, h₃⟩ := h₂.of_bind
  obtain ⟨_, _, partiesIndexVec, _, _, h₄⟩ := h₃.of_bind
  obtain ⟨_, _, eph, _, _, h₅⟩ := h₄.of_bind
  obtain ⟨_, _, ephShared, _, _, h₆⟩ := h₅.of_bind
  obtain ⟨_, _, localSigVec, _, _, h₇⟩ := h₆.of_bind
  split at h₇
  next => cases h₇
  next =>
    dsimp only at h₇
    split at h₇
    next hverify =>
      obtain ⟨rfl, _⟩ := h₇.of_pure
      exact ⟨hverify, key.2, hkey.of_lift.1⟩
    next => cases h₇

/-! ## The report -/

section

variable {F G F' G' : Type} [Field F] [AddCommGroup G] [Module F G] [DecidableEq G] [Field F']
  [DecidableEq F'] [AddCommGroup G'] [Module F' G'] {tool : Tool F G F' G'}

/-- The output is a verified signature under the key that is printed: with EdDSA of the message,
with ECDSA of the integer it stands for modulo `2 ^ 256`. -/
inductive Tool.Reports (tool : Tool F G F' G') (path messageStr : String) :
    tool.Output → Except Panic Eddsa.Pubkey → Prop where
  | ecdsa {signed : Ecdsa.Signed F G} {Y : G} :
      tool.gg18Signer.verify signed.sig Y (fromBytes (messageOf messageStr) % 2 ^ 256) = .ok () →
      tool.secp256k1.xCoord Y = some signed.x → tool.secp256k1.yCoord Y = some signed.y →
      signed.messageInt = fromBytes (messageOf messageStr) →
      Reports tool path messageStr (.ecdsaSigned signed) (.ok { x := signed.x, y := signed.y, path })
  | eddsa {signature : Signature F' G'} {Y : G'} :
      tool.thresholdSigner.verify signature (messageOf messageStr) Y = true →
      Reports tool path messageStr (.eddsaSigned signature Y) (Eddsa.reportKey tool.ed25519 Y path)

variable {env : Env} {keygenJson : Codec PartySignup} {roomJson : Codec SigningRoom}
  {calls : Nat → tool.Call} {w : World tool.Output} {tr : List WorldEvent} {i : Nat}
  {seat : PartySignup} {total : UInt16} {out : tool.Output}

omit [DecidableEq G] in
/-- A call for a signature is one under an algorithm that there is. -/
theorem Tool.main_sign {args : ArgMatches} {data : Option String} {draws : tool.Draws}
    {call : tool.Call} (h : tool.main .sign args data draws = .client call) :
    (args.algorithm.getD "ecdsa" = "ecdsa" ∧ call = .ecdsaSign data (args.path.getD "")
      (args.messageStr.getD "") (splitParams args.params)
      (args.chainCode.getD (args.chainCodeInEnv.getD "")) draws.ecdsaSign) ∨
    (args.algorithm.getD "ecdsa" = "eddsa" ∧ call = .eddsaSign data (args.path.getD "")
      (args.messageStr.getD "") (splitParams args.params) draws.eddsaSign) := by
  unfold Tool.main at h
  dsimp only at h
  split at h
  next hact => cases hact
  next hact => cases hact
  next halg _ => exact Or.inl ⟨halg, (Effect.client.inj h).symm⟩
  next halg _ => exact Or.inr ⟨halg, (Effect.client.inj h).symm⟩
  next hact => cases hact
  next hact => cases hact
  next => cases h

/-- What a call for a signature returns that was called with these options, and what a call
for the public key prints with the same. -/
theorem Tool.sign_reports (hrun : tool.Run env keygenJson roomJson calls w tr) {args : ArgMatches}
    {data : Option String} {draws : tool.Draws}
    (hcall : tool.main .sign args data draws = .client (calls i))
    (hi : w.process i = .session seat total (.ret out)) (draws' : tool.Draws) :
    ∃ key, tool.main .pubkey args data draws' = .prints key ∧
      tool.Reports (args.path.getD "") (args.messageStr.getD "") out key := by
  obtain ⟨ops, hexecutes⟩ := WorldRun.executes hrun hi
  have asks := Tool.asks hrun ⟨_, hi⟩
  generalize calls i = call at hcall hexecutes asks
  rcases Tool.main_sign hcall with ⟨halg, rfl⟩ | ⟨halg, rfl⟩
  · obtain ⟨signupArgs, hask⟩ := asks fun t n curve hkeygens => by cases hkeygens
    cases Tool.signs hask with
    | @ecdsa _ _ _ _ _ _ file key parsed hfile hkey hparsed =>
        rw [tool.ecdsaSign_body hfile hkey hparsed] at hexecutes
        obtain ⟨signed, hsigned, rfl⟩ := hexecutes.of_map
        obtain ⟨f, Y, hkey', hverify, hx, hy, hmessage⟩ := Ecdsa.runSign_executes hsigned
        rw [hkey] at hkey'
        obtain rfl := Except.ok.inj hkey'
        refine ⟨_, ?_, .ecdsa hverify hx hy hmessage⟩
        unfold Tool.main
        dsimp only
        rw [halg]
        show Effect.prints (Ecdsa.pubkey _ _ _ _ _ _ _) = _
        rw [Ecdsa.pubkey, hfile, except_ok_bind, hkey, except_ok_bind, Eddsa.reportKey, hx, hy]
  · obtain ⟨signupArgs, hask⟩ := asks fun t n curve hkeygens => by cases hkeygens
    cases Tool.signs hask with
    | @eddsa _ _ _ _ _ file key parsed threshold hparsed hfile hkey hthreshold =>
        rw [tool.eddsaSign_body hparsed hfile hkey hthreshold] at hexecutes
        obtain ⟨out, hsigned, rfl⟩ := hexecutes.of_map
        obtain ⟨hverify, f, hkey'⟩ := Eddsa.runSigner_executes hsigned
        refine ⟨_, ?_, .eddsa hverify⟩
        unfold Tool.main
        dsimp only
        rw [halg]
        show Effect.prints (Eddsa.pubkey _ _ _ _ _) = _
        rw [Eddsa.pubkey, hfile, except_ok_bind, Eddsa.runPubkey, hkey', except_ok_bind]

/-- What is given on the command line for `additiveEcdsaSign`. -/
def additiveArgs : ArgMatches :=
  { params := some "1/3", path := none, messageStr := some "0aF1", algorithm := none,
    chainCode := none, chainCodeInEnv := none }

/-- One of two signers that have gone on to the end. -/
theorem Tool.sign_reports_additive :
    ∃ (w : World additiveTool.Output) (i : Nat) (seat : PartySignup) (data : String)
      (signed : Ecdsa.Signed (ZMod 65537) (ZMod 65537)) (draws : additiveTool.Draws)
      (key : Except Panic Eddsa.Pubkey),
      w.process i = .session seat 2 (.ret (.ecdsaSigned signed)) ∧
      additiveTool.main .pubkey additiveArgs (some data) draws = .prints key ∧
      additiveTool.Reports "" "0aF1" (.ecdsaSigned signed) key := by
  obtain ⟨uuid, w, tr, uuid', client, w', tr', file, hkeys, hbegun, hfile⟩ :=
    exists_ecdsaSigning_additive
  obtain ⟨-, signed, w₁, more, hcompletes⟩ := ecdsaSigning_additive hkeys hbegun hfile
  have hone := hbegun.returned hcompletes le_rfl (by decide)
  obtain ⟨draws, hdraws⟩ : ∃ draws : additiveTool.Draws,
      draws.ecdsaSign = additiveDraws (32769 : ZMod 65537) 1 :=
    ⟨⟨⟨(1 : ZMod 65537), 1, 0, (0 : ZMod 65537), (2 : ZMod 65537), (0 : ZMod 65537),
        fun _ => List.Vector.replicate 12 0⟩,
      ⟨(1 : ZMod 65537), 1, 0, (0 : ZMod 65537), (2 : ZMod 65537), 0,
        fun _ => List.Vector.replicate 12 0⟩,
      additiveDraws (32769 : ZMod 65537) 1,
      ⟨(1 : ZMod 65537), (0 : ZMod 65537), (0 : ZMod 65537), fun _ => List.Vector.replicate 12 0⟩⟩,
      rfl⟩
  have hparams : splitParams (some "1/3") = ["1", "3"] := by decide
  have hcall : additiveTool.main .sign additiveArgs
      (some (additiveTool.ecdsaFile.encode (file (client 1)))) draws =
        .client (additiveEcdsaSign (file (client 1))) := by
    show Effect.client (.ecdsaSign _ "" "0aF1" (splitParams (some "1/3")) "" draws.ecdsaSign) = _
    rw [hparams, hdraws]
    rfl
  obtain ⟨key, hprints, hreports⟩ := Tool.sign_reports hcompletes.run hcall hone draws
  exact ⟨w₁, _, _, _, _, draws, key, hone, hprints, hreports⟩

end

end TssCli
