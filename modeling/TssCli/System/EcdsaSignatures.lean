import TssCli.Protocols.Ecdsa.Signing
import TssCli.Protocols.ReportedMessage
import TssCli.System.Rooms

/-!
# ECDSA signatures in the world

As with EdDSA, whoever returns from a room has one signature, for the key of the key
generation that the files are of (`Tool.ecdsa_signatures`).  Here a chain code can be
given in place of the one in the file; then all signers must be given the same.  And the
signature is put together only if the nonces have an inverse, which they have if some
client returns, and if it would not be zero.
-/

namespace TssCli

open Mailbox Mailbox.Script Transition Polynomial

/-! ## Given chain codes -/

namespace Ecdsa

section

variable {F G : Type} {lib : Gg18 F G}

/-- The chain code that is given on the command line or in the environment. -/
def givenChainCode (reader : CurveReader F G) (chainCodeHex : String) : Option F :=
  if chainCodeHex = "" then none else (hexDecode chainCodeHex.toList).bind reader.scalarFromBytes

/-- The file with another chain code, if there is one. -/
def KeyFile.withChainCode (file : KeyFile lib) : Option F → KeyFile lib
  | none => file
  | some chainCode => { file with chainCode }

/-- What is read of a file that was written. -/
theorem readKeyFile_encode {json : Codec (KeyFile lib)} {reader : CurveReader F G}
    {file : KeyFile lib} {chainCodeHex : String} :
    readKeyFile json reader (some (json.encode file)) chainCodeHex =
      if file.partyNumInt < UInt16.size ∧
          (chainCodeHex = "" ∨ (givenChainCode reader chainCodeHex).isSome) then
        .ok (file.withChainCode (givenChainCode reader chainCodeHex))
      else .error .unwrapErr := by
  rw [readKeyFile, readToString, except_ok_bind, Codec.read, Codec.decode_encode, except_ok_bind,
    u16TryFrom, givenChainCode]
  by_cases hlt : file.partyNumInt < UInt16.size
  · by_cases hhex : chainCodeHex = ""
    · rw [if_pos hlt, if_pos hhex, if_pos hhex, if_pos ⟨hlt, Or.inl hhex⟩]
      rfl
    · rw [if_pos hlt, if_neg hhex, except_ok_bind, if_neg hhex]
      cases hcode : (hexDecode chainCodeHex.toList).bind reader.scalarFromBytes with
      | none => simp [hhex]
      | some chainCode =>
          rw [if_pos ⟨hlt, Or.inr rfl⟩]
          rfl
  · simp only [hlt, if_false, false_and]
    rfl

variable [Field F] [AddCommGroup G] [Module F G] {curve : Curve F G} {t n m : Nat}
  {id : Nat → Nat} {file : Nat → KeyFile lib} {p : F[X]} {vssVec : List (Vss G)} {chainCode : F}

/-- Shares are held under any chain code. -/
theorem HoldShares.withChainCode (h : HoldShares curve t n m id file p vssVec chainCode) :
    ∀ given : Option F, HoldShares curve t n m id (fun k => (file k).withChainCode given) p vssVec
      (given.getD chainCode)
  | none => h
  | some _ => { h with chainCode := fun _ _ _ => rfl }

end

/-! ## The signature of signers of whom one returns -/

section

variable {F G : Type} [Field F] [AddCommGroup G] [Module F G] [DecidableEq G] {lib : Gg18 F G}
  {signer : Gg18Signer lib} {curve : Curve F G} {hmac : Hmac} {t n : Nat} {id : Nat → Nat}
  {file : Nat → KeyFile lib} {p : F[X]} {vssVec : List (Vss G)} {chainCode f : F} {Y : G}
  {path messageStr uuid : String} {draws : Nat → SignDraws signer.Seed} {json : SignJson signer}

/-- Only the bytes of the message matter. -/
theorem runSign_message {file : KeyFile lib} {me n : Nat} {messageStr' : String}
    {draws : SignDraws signer.Seed} (h : messageOf messageStr = messageOf messageStr') :
    runSign curve json hmac file me n uuid messageStr path draws =
      runSign curve json hmac file me n uuid messageStr' path draws := by
  unfold runSign
  rw [h]

section

variable (hcurve : curve.Documented) (hsigner : signer.Documented curve) {m : Nat}
  (hold : HoldShares curve t n m id file p vssVec chainCode) (hs : Signers t n id) (ht₁ : 1 ≤ t)
  (ht : t < n) (hlt : t + 2 < 2 ^ 16) (hm : m = t + 1)
  (hkey : ∀ k, 1 ≤ k → k ≤ m →
    keyAt curve hmac (file k).chainCode (file k).ySum path = .ok (f, Y))

include hcurve hsigner hold hs ht₁ ht hlt hm hkey

/-- If one of `m` signers has returned, the joint nonce and its blinding have inverses, and
the key has the coordinates it reports. -/
theorem HoldShares.returned {net : Net (Fin m) Key String Panic (Signed F G)}
    {tr : List (NetEvent (Fin m) Key String Panic)}
    (hrun : NetRun (sessionNet m (fun _ => none) fun i =>
      runSign curve json hmac (file i) i m uuid messageStr path (draws i)) net tr)
    (hout : ∀ e ∈ tr, KeepsOut uuid e) {i₀ : Fin m} {a₀ : Signed F G}
    (hret : net.scripts i₀ = .ret a₀) :
    ((List.range' 1 m).map fun i => signer.drawK (draws i).create).sum ≠ 0 ∧
      ((List.range' 1 m).map fun i => signer.drawGamma (draws i).create).sum ≠ 0 ∧
      curve.xCoord Y = some a₀.x ∧ curve.yCoord Y = some a₀.y := by
  subst hm
  have hroot : decide (path ≠ "") = false → f = 0 := fun hpath =>
    (keyAt_child (hkey 1 le_rfl (Nat.le_add_left 1 t))).2 (by simpa using hpath)
  obtain ⟨v, hkeys, hnonce, hblind, -⟩ := hold.exists_mtaValues hcurve hsigner hs hroot draws
  -- No track of signers without a joint nonce ends in a result.
  have hjoint : v.nonce * v.blind ≠ 0 := by
    intro hzero
    have hon := fun b => session_onTrack (s := nonceSchedule json id v uuid) (fun i h₁ hi =>
      runSign_fails (a := b) hsigner hold hs ht₁ ht hlt hkey hkeys h₁ hi hzero trivial)
      (fun _ _ => rfl) hrun hout fun e _ => givesUp_any e
    have hother := (hon { a₀ with x := a₀.x + 1 }).returned hret
    exact absurd (congrArg Signed.x hother) (Nat.succ_ne_self _).symm
  obtain ⟨ops, hexecutes⟩ := executes_of_returned hrun hret
  obtain ⟨f', Y', hkey', -, hx, hy, -⟩ := runSign_executes hexecutes
  rw [hkey _ (one_le_number i₀) (number_le i₀)] at hkey'
  obtain ⟨rfl, rfl⟩ := Prod.mk.inj (Except.ok.inj hkey')
  exact ⟨hnonce ▸ left_ne_zero_of_mul hjoint, hblind ▸ right_ne_zero_of_mul hjoint, hx, hy⟩

/-- Signers with a joint nonce, whose signature is not zero, play for one signature. -/
theorem HoldShares.allPlay (hneg : ∀ P, curve.xCoord (-P) = curve.xCoord P) {k : F} {r x y : Nat}
    (hk : ((List.range' 1 m).map fun i => signer.drawK (draws i).create).sum = k) (hk₀ : k ≠ 0)
    (hblind₀ : ((List.range' 1 m).map fun i => signer.drawGamma (draws i).create).sum ≠ 0)
    (hx : curve.xCoord Y = some x) (hy : curve.yCoord Y = some y)
    (hr : curve.xCoord (k⁻¹ • curve.generator) = some r)
    (hs₀ : curve.ofBigint (fromBytes (messageOf messageStr) % 2 ^ 256) • curve.generator +
      curve.ofBigint r • Y ≠ 0) :
    ∃ (deltaI sigma : Nat → F) (sig : SignatureRecid F),
      EcdsaValid curve Y (fromBytes (messageOf messageStr) % 2 ^ 256) sig ∧
      AllPlay uuid m (fun i => runSign curve json hmac (file i) i m uuid messageStr path (draws i))
        fun i => { deltaI := deltaI i, sigma := sigma i, R := k⁻¹ • curve.generator, sig, x, y,
                   messageInt := fromBytes (messageOf messageStr) } := by
  subst hm
  have hone : 1 ≤ t + 1 := Nat.le_add_left 1 t
  obtain ⟨hY, hroot⟩ := keyAt_child (hkey 1 le_rfl hone)
  have hroot : decide (path ≠ "") = false → f = 0 := fun hpath => hroot (by simpa using hpath)
  obtain ⟨v, hkeys, hnonce, hblind, hw⟩ := hold.exists_mtaValues hcurve hsigner hs hroot draws
  obtain rfl : v.nonce = k := hnonce.trans hk
  rw [hold.ySum 1 le_rfl hone, ← add_smul] at hY
  subst hY
  rw [smul_smul, ← add_smul] at hs₀
  obtain ⟨s, hvalid, -⟩ := exists_signatures hsigner hneg (Nat.succ_le_succ ht₁) hk₀ hw hr
    (left_ne_zero_of_smul hs₀)
  refine ⟨v.gamma.share, v.w.share, s.sig, hvalid, _, ?_, ?_, fun excused i h₁ hi =>
    runSign_plays hsigner hold hs ht₁ ht hlt hkey hkeys h₁ hi hk₀ (hblind ▸ hblind₀) s hx hy⟩
  · rfl
  · rfl

end

end

end Ecdsa

/-! ## The clients -/

section

variable {F G F' G' : Type} [Field F] [AddCommGroup G] [Module F G] [DecidableEq G] [Field F']
  [DecidableEq F'] [AddCommGroup G'] [Module F' G'] {tool : Tool F G F' G'}

/-- An ECDSA call for a signature is one at the path, with the chain code and a file of the
key generation. -/
def Tool.EcdsaSigner (w : World tool.Output) (uuid path chainCodeHex : String) : tool.Call → Prop
  | .ecdsaSign data path' _ _ chainCodeHex' _ => path' = path ∧ chainCodeHex' = chainCodeHex ∧
      ∃ k file, Tool.EcdsaWrote w uuid k file ∧ data = some (tool.ecdsaFile.encode file)
  | _ => True

/-- The file as a signer reads it. -/
def Tool.readAs (tool : Tool F G F' G') (chainCodeHex : String) (file : Ecdsa.KeyFile tool.gg18) :
    Ecdsa.KeyFile tool.gg18 :=
  file.withChainCode (Ecdsa.givenChainCode tool.reader chainCodeHex)

/-- The call signs with the file, at a path where it finds a key. -/
structure Tool.EcdsaPart (w : World tool.Output) (uuid path messageStr chainCodeHex uuid' : String)
    (total : UInt16) (call : tool.Call)
    (part : Ecdsa.KeyFile tool.gg18 × Ecdsa.SignDraws tool.gg18Signer.Seed) : Prop where
  made : ∃ data path messageStr params chainCodeHex,
    call = .ecdsaSign data path messageStr params chainCodeHex part.2
  wrote : ∃ k, Tool.EcdsaWrote w uuid k part.1
  key : ∃ key, Ecdsa.keyAt tool.secp256k1 tool.hmac (tool.readAs chainCodeHex part.1).chainCode
    (tool.readAs chainCodeHex part.1).ySum path = .ok key
  given : chainCodeHex = "" ∨ (Ecdsa.givenChainCode tool.reader chainCodeHex).isSome
  ask : ∃ args, (tool.command call).ask = .ok (.sign args) ∧
    args.partyId = UInt16.ofNat part.1.partyNumInt
  body : ∀ number, (tool.command call).body { number, uuid := uuid' } total =
    Output.ecdsaSigned <$> Ecdsa.runSign tool.secp256k1 tool.ecdsaSign tool.hmac
      (tool.readAs chainCodeHex part.1) number.toNat total.toNat uuid' messageStr path part.2

variable {env env' : Env} {keygenJson keygenJson' : Codec PartySignup}
  {roomJson roomJson' : Codec SigningRoom} {calls calls' : Nat → tool.Call}
  {w w' : World tool.Output} {tr tr' : List WorldEvent} {uuid uuid' : String} {t n : UInt16}

/-- Files that were written in the session are those of parties of one run of honest key
generations. -/
theorem Tool.KeygenIn.ecdsaWritten (h : tool.KeygenIn env keygenJson roomJson calls w tr uuid t n
      Algorithm.ecdsa.curveName) {m : Nat} {id : Nat → Nat} {file : Nat → Ecdsa.KeyFile tool.gg18}
    (hfile : ∀ k, 1 ≤ k → k ≤ m → Tool.EcdsaWrote w uuid (id k) (file k)) :
    Ecdsa.Written tool.secp256k1 tool.aes tool.ecdsaKeygen t.toNat n.toNat m id file := by
  obtain ⟨draws, -, hin, hposts⟩ := h.ecdsaParts
  obtain ⟨net, tr', hnet, htr', hreturned⟩ := h.out.net h.run h.whole hin hposts
  refine ⟨draws, uuid, _, net, tr', fun _ _ => rfl, hnet, fun e he => (htr' e he).1,
    fun k h₁ hk => ?_⟩
  obtain ⟨i, seat, total, hi, hu, hk⟩ := hfile k h₁ hk
  obtain ⟨k', file', hk', hret, he⟩ := hreturned i seat total _ hi hu
  cases he
  exact ⟨k', hk'.trans hk, hret⟩

/-- Files of one key generation find one key at a path. -/
theorem Tool.KeygenIn.ecdsaKeyAt (htool : tool.Documented)
    (h : tool.KeygenIn env keygenJson roomJson calls w tr uuid t n Algorithm.ecdsa.curveName)
    {k k' : Nat} {file file' : Ecdsa.KeyFile tool.gg18} (hfile : Tool.EcdsaWrote w uuid k file)
    (hfile' : Tool.EcdsaWrote w uuid k' file') (chainCodeHex : String) :
    (tool.readAs chainCodeHex file').chainCode = (tool.readAs chainCodeHex file).chainCode ∧
      (tool.readAs chainCodeHex file').ySum = (tool.readAs chainCodeHex file).ySum ∧
      file'.ySum = file.ySum ∧ file'.partyNumInt < UInt16.size := by
  have hwritten : Ecdsa.Written tool.secp256k1 tool.aes tool.ecdsaKeygen t.toNat n.toNat 2
      (fun i => if i = 1 then k else k') fun i => if i = 1 then file else file' :=
    h.ecdsaWritten fun i _ _ => by
      split
      next => exact hfile
      next => exact hfile'
  obtain ⟨p, vssVec, chainCode, hold⟩ :=
    hwritten.holdShares htool.secp256k1 htool.aes htool.gg18 h.lt
  have hread := hold.withChainCode (Ecdsa.givenChainCode tool.reader chainCodeHex)
  have hnumber := hold.partyNumInt 2 one_le_two le_rfl
  have hbound := (hwritten.bound one_le_two le_rfl).2
  refine ⟨?_, ?_, ?_, hnumber.trans_lt (hbound.trans_lt n.toNat_lt)⟩
  · exact (hread.chainCode 2 one_le_two le_rfl).trans (hread.chainCode 1 le_rfl one_le_two).symm
  · exact (hread.ySum 2 one_le_two le_rfl).trans (hread.ySum 1 le_rfl one_le_two).symm
  · exact (hold.ySum 2 one_le_two le_rfl).trans (hold.ySum 1 le_rfl one_le_two).symm

/-- The clients in the room of an ECDSA signer. -/
theorem Tool.SigningIn.ecdsaPart (h : tool.SigningIn env' keygenJson' roomJson' calls' w' tr' uuid')
    {path messageStr chainCodeHex : String} {i₀ : Nat} {seat₀ : PartySignup} {total : UInt16}
    {data₀ : Option String} {path₀ chainCodeHex₀ : String} {params₀ : List String}
    {draws₀ : Ecdsa.SignDraws tool.gg18Signer.Seed}
    (hcall₀ : calls' i₀ = .ecdsaSign data₀ path₀ messageStr params₀ chainCodeHex₀ draws₀)
    (hi₀ : (w'.process i₀).Holds seat₀ total) (hu₀ : seat₀.uuid = uuid')
    {j : Nat} {seat : PartySignup} (hj : (w'.process j).Holds seat total) (hu : seat.uuid = uuid')
    (hsigner : Tool.EcdsaSigner w uuid path chainCodeHex (calls' j)) :
    ∃ part, Tool.EcdsaPart w uuid path messageStr chainCodeHex uuid' total (calls' j) part := by
  obtain ⟨args₀, hask₀⟩ := Tool.asks h.run hi₀ fun t n curve hkeygens => by
    rw [hcall₀] at hkeygens
    cases hkeygens
  obtain ⟨args, hask, hkey, -⟩ := h.room hask₀ hi₀ hu₀ hj hu
  have hsigns₀ := Tool.signs hask₀
  have hsigns := Tool.signs hask
  rw [hcall₀] at hsigns₀
  cases hsigns₀ with
  | ecdsa =>
      generalize hcall : calls' j = call at hsigns hsigner hask ⊢
      cases hsigns with
      | eddsa => exact absurd (Algorithm.curveName_append hkey).1 (by simp)
      | @ecdsa data path' messageStr' chainCodeHex' params draws file key parsed hfile hkeyAt
          hparsed =>
          have hhash := h.hash j i₀
          rw [hcall, hcall₀] at hhash
          have hmessage : messageOf messageStr' = messageOf messageStr :=
            hhash (sha256Digest_injective (Algorithm.curveName_append hkey).2)
          obtain ⟨rfl, rfl, k, file', hwrote, rfl⟩ := hsigner
          have hread := hfile
          rw [Ecdsa.readKeyFile_encode] at hfile
          split at hfile
          next hgiven =>
            obtain rfl := Except.ok.inj hfile
            refine ⟨(file', draws), ⟨_, _, _, _, _, rfl⟩, ⟨k, hwrote⟩, ⟨key, hkeyAt⟩, hgiven.2,
              ⟨_, hask, ?_⟩, fun number => ?_⟩
            · show UInt16.ofNat (file'.withChainCode _).partyNumInt = _
              cases Ecdsa.givenChainCode tool.reader chainCodeHex' <;> rfl
            · rw [tool.ecdsaSign_body hread hkeyAt hparsed, Ecdsa.runSign_message hmessage]
              rfl
          next => cases hfile

/-- The clients of a room, with files of one key generation, are parties of one session of
the signing protocol. -/
theorem Tool.SigningIn.ecdsaParts (h : tool.SigningIn env' keygenJson' roomJson' calls' w' tr' uuid')
    {path messageStr chainCodeHex : String}
    (hsigners : ∀ i seat total, (w'.process i).Holds seat total → seat.uuid = uuid' →
      Tool.EcdsaSigner w uuid path chainCodeHex (calls' i))
    {i₀ : Nat} {data₀ : Option String} {path₀ chainCodeHex₀ : String} {params₀ : List String}
    {draws₀ : Ecdsa.SignDraws tool.gg18Signer.Seed}
    (hcall₀ : calls' i₀ = .ecdsaSign data₀ path₀ messageStr params₀ chainCodeHex₀ draws₀)
    {seat₀ : PartySignup} {total : UInt16} (hi₀ : (w'.process i₀).Holds seat₀ total)
    (hu₀ : seat₀.uuid = uuid') :
    ∃ part : Nat → Ecdsa.KeyFile tool.gg18 × Ecdsa.SignDraws tool.gg18Signer.Seed,
      (∀ i seat total', (w'.process i).Holds seat total' → seat.uuid = uuid' →
        Tool.EcdsaPart w uuid path messageStr chainCodeHex uuid' total (calls' i)
          (part seat.number.toNat)) ∧
      InSession (fun i => tool.command (calls' i)) uuid' total.toNat
        (fun k => Output.ecdsaSigned <$> Ecdsa.runSign tool.secp256k1 tool.ecdsaSign tool.hmac
          (tool.readAs chainCodeHex (part k).1) k total.toNat uuid' messageStr path (part k).2) w' ∧
      ∀ k, 1 ≤ k → k ≤ total.toNat → ((Output.ecdsaSigned : _ → tool.Output) <$> Ecdsa.runSign
        tool.secp256k1 tool.ecdsaSign tool.hmac (tool.readAs chainCodeHex (part k).1) k total.toNat
          uuid' messageStr path (part k).2).PostsOnly (OwnKey uuid' k) := by
  obtain ⟨args₀, hask₀⟩ := Tool.asks h.run hi₀ fun t n curve hkeygens => by
    rw [hcall₀] at hkeygens
    cases hkeygens
  have hseats := h.seats hask₀ hi₀ hu₀
  obtain ⟨part, hpart, hrest⟩ :=
    hseats.parts Output.ecdsaSigned
      (fun part k => Ecdsa.runSign tool.secp256k1 tool.ecdsaSign tool.hmac
        (tool.readAs chainCodeHex part.1) k total.toNat uuid' messageStr path part.2)
      (fun j => Tool.EcdsaPart w uuid path messageStr chainCodeHex uuid' total (calls' j))
      (fun i => tool.postsOwn (calls' i)) hi₀ hu₀ fun j seat hj hu => by
        obtain ⟨part, hpart⟩ := h.ecdsaPart hcall₀ hi₀ hu₀ hj hu (hsigners j seat total hj hu)
        exact ⟨part, hpart, hpart.body⟩
  refine ⟨part, fun i seat total' hi hu => ?_, hrest⟩
  obtain rfl := hseats.same i seat total' hi hu
  exact hpart i seat hi hu

/-- The key at the path for every file of the key generation. -/
def Tool.EcdsaKeyAt (w : World tool.Output) (uuid path : String) (Y : G) : Prop :=
  ∃ a f : F, Y = (a + f) • tool.secp256k1.generator ∧ (path = "" → f = 0) ∧
    ∀ i file, Tool.EcdsaWrote w uuid i file → file.ySum = a • tool.secp256k1.generator

/-- The key at the path, with the coordinates that are shown for every file of the key
generation. -/
def Tool.EcdsaKey (w : World tool.Output) (uuid path chainCodeHex : String) (Y : G) (x y : Nat) :
    Prop :=
  Tool.EcdsaKeyAt w uuid path Y ∧ ∀ i file, Tool.EcdsaWrote w uuid i file →
    Ecdsa.pubkey tool.secp256k1 tool.hmac tool.ecdsaFile tool.reader
      (some (tool.ecdsaFile.encode file)) path chainCodeHex = .ok { x, y, path }

/-- Signers with files of the key generation who hold all seats of a room, and the key that
all of them find at the path. -/
structure Tool.EcdsaSigners (tool : Tool F G F' G') (w : World tool.Output)
    (uuid path chainCodeHex : String) (t n : Nat)
    (part : Nat → Ecdsa.KeyFile tool.gg18 × Ecdsa.SignDraws tool.gg18Signer.Seed) (id : Nat → Nat)
    (p : F[X]) (vssVec : List (Vss G)) (chainCode f : F) (Y : G) : Prop where
  hold : Ecdsa.HoldShares tool.secp256k1 t n (t + 1) id
    (fun k => tool.readAs chainCodeHex (part k).1) p vssVec chainCode
  signers : Ecdsa.Signers t n id
  key : ∀ k, 1 ≤ k → k ≤ t + 1 → Ecdsa.keyAt tool.secp256k1 tool.hmac
    (tool.readAs chainCodeHex (part k).1).chainCode (tool.readAs chainCodeHex (part k).1).ySum path =
      .ok (f, Y)
  keyAt : Tool.EcdsaKeyAt w uuid path Y
  shown : ∀ x y, tool.secp256k1.xCoord Y = some x → tool.secp256k1.yCoord Y = some y →
    Tool.EcdsaKey w uuid path chainCodeHex Y x y

theorem Tool.SigningIn.ecdsaSigners (htool : tool.Documented)
    (hkeys : tool.KeygenIn env keygenJson roomJson calls w tr uuid t n Algorithm.ecdsa.curveName)
    (h : tool.SigningIn env' keygenJson' roomJson' calls' w' tr' uuid')
    {path messageStr chainCodeHex : String} {total : UInt16} (htotal : total.toNat = t.toNat + 1)
    (hfull : Full w' uuid' total.toNat)
    {part : Nat → Ecdsa.KeyFile tool.gg18 × Ecdsa.SignDraws tool.gg18Signer.Seed}
    (hpart : ∀ i seat total', (w'.process i).Holds seat total' → seat.uuid = uuid' →
      Tool.EcdsaPart w uuid path messageStr chainCodeHex uuid' total (calls' i)
        (part seat.number.toNat)) :
    ∃ id p vssVec chainCode f Y, tool.EcdsaSigners w uuid path chainCodeHex t.toNat n.toNat part id p
      vssVec chainCode f Y := by
  have ht : t.toNat < n.toNat := hkeys.lt
  have hone : 1 ≤ total.toNat := htotal ▸ Nat.le_add_left 1 _
  have hwrote : ∀ k, 1 ≤ k → k ≤ total.toNat → ∃ id, Tool.EcdsaWrote w uuid id (part k).1 := by
    intro k h₁ hk
    obtain ⟨j, seat, total', hj, hu, rfl⟩ := hfull k h₁ hk
    exact (hpart j seat total' hj hu).wrote
  choose! id hid using hwrote
  obtain ⟨p, vssVec, chainCode, hold⟩ :=
    (hkeys.ecdsaWritten hid).holdShares htool.secp256k1 htool.aes htool.gg18 ht
  have hread := hold.withChainCode (Ecdsa.givenChainCode tool.reader chainCodeHex)
  have hinj : Set.InjOn id (Set.Icc 1 total.toNat) := by
    refine h.injOn hfull fun j seat total' hj hu ⟨h₁, hk⟩ => ?_
    obtain ⟨args, hask, hpartyId⟩ := (hpart j seat total' hj hu).ask
    exact ⟨args, hask, hpartyId.trans (by rw [hold.partyNumInt _ h₁ hk])⟩
  obtain ⟨j, seat, total', hj, hu, hk⟩ := hfull 1 le_rfl hone
  have hpart₁ := hpart j seat total' hj hu
  rw [hk] at hpart₁
  obtain ⟨⟨f, Y⟩, hkey⟩ := hpart₁.key
  have same := fun {i file} (hfile : Tool.EcdsaWrote w uuid i file) =>
    hkeys.ecdsaKeyAt htool (hid 1 le_rfl hone) hfile chainCodeHex
  obtain ⟨hY, hroot⟩ := Ecdsa.keyAt_child hkey
  rw [htotal] at hread hid hinj
  have hkeyAt : Tool.EcdsaKeyAt w uuid path Y := by
    refine ⟨p.eval 0, f, ?_, hroot, fun i file hfile => ?_⟩
    · rw [hY, add_smul]
      exact congrArg (· + _) (hread.ySum 1 le_rfl (htotal ▸ hone))
    · obtain ⟨-, -, hsame, -⟩ := same hfile
      exact hsame.trans (hold.ySum 1 le_rfl hone)
  refine ⟨id, p, vssVec, _, f, Y, hread,
    ⟨hinj, fun k h₁ hk => (hkeys.ecdsaWritten hid).bound h₁ hk, n.toNat_lt⟩, fun k h₁ hk => ?_,
    hkeyAt, fun x y hx hy => ⟨hkeyAt, fun i file hfile => ?_⟩⟩
  · obtain ⟨hchain, hySum, -⟩ := same (hid k h₁ hk)
    exact hchain ▸ hySum ▸ hkey
  · obtain ⟨hchain, hySum, -, hnumber⟩ := same hfile
    rw [Ecdsa.pubkey, Ecdsa.readKeyFile_encode, if_pos ⟨hnumber, hpart₁.given⟩, except_ok_bind]
    show (Ecdsa.keyAt _ _ (tool.readAs chainCodeHex file).chainCode
      (tool.readAs chainCodeHex file).ySum path >>= fun key => _) = _
    rw [hchain, hySum, hkey, except_ok_bind, Eddsa.reportKey, hx, hy]

omit [DecidableEq F'] in
/-- With a joint nonce they play for one signature, if it is not zero. -/
theorem Tool.EcdsaSigners.allPlay (htool : tool.Documented)
    (hneg : ∀ P, tool.secp256k1.xCoord (-P) = tool.secp256k1.xCoord P) {t n m : Nat}
    {part : Nat → Ecdsa.KeyFile tool.gg18 × Ecdsa.SignDraws tool.gg18Signer.Seed} {id : Nat → Nat}
    {p : F[X]} {vssVec : List (Vss G)} {chainCode f k : F} {Y : G} {r x y : Nat}
    {path messageStr chainCodeHex : String}
    (hs : tool.EcdsaSigners w uuid path chainCodeHex t n part id p vssVec chainCode f Y)
    (ht₁ : 1 ≤ t) (ht : t < n) (hlt : t + 2 < 2 ^ 16) (hm : m = t + 1)
    (hk : ((List.range' 1 m).map fun i => tool.gg18Signer.drawK (part i).2.create).sum = k)
    (hk₀ : k ≠ 0)
    (hblind₀ :
      ((List.range' 1 m).map fun i => tool.gg18Signer.drawGamma (part i).2.create).sum ≠ 0)
    (hx : tool.secp256k1.xCoord Y = some x) (hy : tool.secp256k1.yCoord Y = some y)
    (hr : tool.secp256k1.xCoord (k⁻¹ • tool.secp256k1.generator) = some r)
    (hs₀ : tool.secp256k1.ofBigint (fromBytes (messageOf messageStr) % 2 ^ 256) •
      tool.secp256k1.generator + tool.secp256k1.ofBigint r • Y ≠ 0) :
    ∃ (deltaI sigma : Nat → F) (sig : SignatureRecid F),
      EcdsaValid tool.secp256k1 Y (fromBytes (messageOf messageStr) % 2 ^ 256) sig ∧
      AllPlay uuid' m
        (fun i => Ecdsa.runSign tool.secp256k1 tool.ecdsaSign tool.hmac
          (tool.readAs chainCodeHex (part i).1) i m uuid' messageStr path (part i).2)
        fun i => { deltaI := deltaI i, sigma := sigma i, R := k⁻¹ • tool.secp256k1.generator, sig, x,
                   y, messageInt := fromBytes (messageOf messageStr) } := by
  subst hm
  exact hs.hold.allPlay htool.secp256k1 htool.gg18Signer hs.signers ht₁ ht hlt rfl hs.key hneg hk hk₀
    hblind₀ hx hy hr hs₀

/-! ## From the start -/

/-- What a call signs up with that has a file of the key generation. -/
theorem Tool.KeygenIn.ecdsaAsk (htool : tool.Documented)
    (h : tool.KeygenIn env keygenJson roomJson calls w tr uuid t n Algorithm.ecdsa.curveName)
    {k : Nat} {file : Ecdsa.KeyFile tool.gg18} (hfile : Tool.EcdsaWrote w uuid k file)
    {path : String} {key : F × G}
    (hkey : Ecdsa.keyAt tool.secp256k1 tool.hmac file.chainCode file.ySum path = .ok key)
    {params : List String} {parsed : Params} (hparsed : signParams params = .ok parsed)
    (messageStr : String) (draws : Ecdsa.SignDraws tool.gg18Signer.Seed) :
    (tool.command (.ecdsaSign (some (tool.ecdsaFile.encode file)) path messageStr params ""
        draws)).ask =
      .ok (.sign
        { params := parsed, roomId := sha256Digest tool.sha256 (messageOf messageStr),
          partyId := UInt16.ofNat k, curveName := Algorithm.ecdsa.curveName }) := by
  have hwritten : Ecdsa.Written tool.secp256k1 tool.aes tool.ecdsaKeygen t.toNat n.toNat 1
      (fun _ => k) fun _ => file := h.ecdsaWritten fun _ _ _ => hfile
  obtain ⟨p, vssVec, chainCode, hold⟩ :=
    hwritten.holdShares htool.secp256k1 htool.aes htool.gg18 h.lt
  have hnumber : file.partyNumInt = k := hold.partyNumInt 1 le_rfl le_rfl
  have hlt : file.partyNumInt < UInt16.size :=
    hnumber.trans_lt ((hwritten.bound le_rfl le_rfl).2.trans_lt n.toNat_lt)
  show (Ecdsa.signCommand _ _ _ _ _ _ _ path messageStr params "" draws).ask = _
  rw [Ecdsa.signCommand, Ecdsa.readKeyFile_encode, if_pos ⟨hlt, Or.inl rfl⟩, except_ok_bind]
  show ((Ecdsa.keyAt _ _ file.chainCode file.ySum path >>= _ : Except Panic _).map Prod.fst) = _
  rw [hkey, except_ok_bind, hparsed, except_ok_bind]
  exact congrArg (fun m => Except.ok (Ask.sign ⟨parsed, _, UInt16.ofNat m, _⟩)) hnumber

/-- A signing that has begun can go on to its end, and none of its clients has panicked,
unless their nonces or the signature are zero. -/
theorem Begun.ecdsaSigning {client : Nat → Nat} {total : UInt16} (htool : tool.Documented)
    (hneg : ∀ P, tool.secp256k1.xCoord (-P) = tool.secp256k1.xCoord P)
    (hkeys : tool.KeygenIn env keygenJson roomJson calls w tr uuid t n Algorithm.ecdsa.curveName)
    (h : Begun env' keygenJson' roomJson' (fun i => tool.command (calls' i)) client uuid' total w'
      tr')
    (hsigning : tool.SigningIn env' keygenJson' roomJson' calls' w' tr' uuid')
    {path messageStr chainCodeHex : String}
    (hsigners : ∀ i seat total, (w'.process i).Holds seat total → seat.uuid = uuid' →
      Tool.EcdsaSigner w uuid path chainCodeHex (calls' i))
    {data₀ : Option String} {path₀ chainCodeHex₀ : String} {params₀ : List String}
    {draws₀ : Ecdsa.SignDraws tool.gg18Signer.Seed}
    (hcall₀ : calls' (client 1) = .ecdsaSign data₀ path₀ messageStr params₀ chainCodeHex₀ draws₀)
    (ht₁ : 1 ≤ t.toNat) (hlt : t.toNat + 2 < 2 ^ 16) (htotal : total.toNat = t.toNat + 1) :
    ∃ (part : Nat → Ecdsa.KeyFile tool.gg18 × Ecdsa.SignDraws tool.gg18Signer.Seed) (f : F) (Y : G),
      (∀ k, 1 ≤ k → k ≤ total.toNat → Tool.EcdsaPart w uuid path messageStr chainCodeHex uuid' total
        (calls' (client k)) (part k)) ∧
      Ecdsa.keyAt tool.secp256k1 tool.hmac (tool.readAs chainCodeHex (part 1).1).chainCode
        (tool.readAs chainCodeHex (part 1).1).ySum path = .ok (f, Y) ∧
      ∀ (k : F) (r x y : Nat),
        ((List.range' 1 total.toNat).map fun i => tool.gg18Signer.drawK (part i).2.create).sum = k →
        k ≠ 0 →
        ((List.range' 1 total.toNat).map fun i =>
          tool.gg18Signer.drawGamma (part i).2.create).sum ≠ 0 →
        tool.secp256k1.xCoord Y = some x → tool.secp256k1.yCoord Y = some y →
        tool.secp256k1.xCoord (k⁻¹ • tool.secp256k1.generator) = some r →
        tool.secp256k1.ofBigint (fromBytes (messageOf messageStr) % 2 ^ 256) •
          tool.secp256k1.generator + tool.secp256k1.ofBigint r • Y ≠ 0 →
        (∀ i seat total e, w'.process i = .session seat total (.fail e) → seat.uuid ≠ uuid') ∧
        ∃ (signed : Nat → Ecdsa.Signed F G) (w₁ : World tool.Output) (more : List WorldEvent),
          Completes env' keygenJson' roomJson' (fun i => tool.command (calls' i)) uuid'
            (fun i => .ecdsaSigned (signed i)) w' w₁ more tr' := by
  have hone : 1 ≤ total.toNat := htotal ▸ Nat.le_add_left 1 _
  obtain ⟨part, hpart, hin, hposts⟩ :=
    hsigning.ecdsaParts hsigners hcall₀ ⟨_, h.seated 1 le_rfl hone⟩ rfl
  obtain ⟨id, p, vssVec, chainCode, f, Y, hs⟩ :=
    hsigning.ecdsaSigners htool hkeys htotal h.full hpart
  refine ⟨part, f, Y, fun k h₁ hk => ?_, hs.key 1 le_rfl (Nat.le_add_left 1 _),
    fun k r x y hk hk₀ hblind hx hy hr hs₀ => ?_⟩
  · have hpartk := hpart _ _ _ ⟨_, h.seated k h₁ hk⟩ rfl
    rwa [UInt16.toNat_ofNat_of_lt' (hk.trans_lt total.toNat_lt)] at hpartk
  · obtain ⟨deltaI, sigma, sig, -, hplay⟩ :=
      hs.allPlay htool hneg ht₁ hkeys.lt hlt htotal hk hk₀ hblind hx hy hr hs₀
    obtain ⟨w₁, more, hcompletes⟩ :=
      h.completes (fun i => tool.postsOwn (calls' i)) hin (hplay.map _)
    exact ⟨fun i seat total e hi => h.well hin (hplay.map _) hi, _, w₁, more, hcompletes⟩

/-- The call of a party over the additive group. -/
noncomputable def additiveEcdsaSign (file : Ecdsa.KeyFile additiveTool.gg18) : additiveTool.Call :=
  .ecdsaSign (some (additiveTool.ecdsaFile.encode file)) "" "0aF1" ["1", "3"] ""
    (additiveDraws (32769 : ZMod 65537) 1)

/-- Two of three parties begin. -/
theorem exists_ecdsaSigning_additive :
    ∃ uuid w tr uuid' client w' tr', ∃ file : Nat → Ecdsa.KeyFile additiveTool.gg18,
      additiveTool.KeygenIn defaultEnv tallyCodec (.ofCountable SigningRoom)
        (fun _ => additiveEcdsaKeygen) w tr uuid 1 3 Algorithm.ecdsa.curveName ∧
      Begun defaultEnv tallyCodec (.ofCountable SigningRoom)
        (fun i => additiveTool.command (additiveEcdsaSign (file i))) client uuid' 2 w' tr' ∧
      ∀ i seat total, (w'.process i).Holds seat total →
        Tool.EcdsaWrote w uuid i (file i) ∧ (file i).ySum = (3 : ZMod 65537) := by
  obtain ⟨uuid, w, tr, file, hkeys, hfile⟩ := exists_ecdsaFiles_additive
  have hP := signers_additive
  have hask : ∀ p ∈ ({2, 3} : Finset UInt16),
      (additiveTool.command (additiveEcdsaSign (file p.toNat))).ask = .ok (.sign
        { params := ⟨"3", "1"⟩, roomId := sha256Digest id (messageOf "0aF1"),
          partyId := UInt16.ofNat p.toNat, curveName := Algorithm.ecdsa.curveName }) :=
    fun p hp =>
      hkeys.ecdsaAsk additiveTool_documented (hfile _ (hP p hp).1 (hP p hp).2).1 rfl rfl _ _
  obtain ⟨uuid', client, w', tr', hbegun, hclient⟩ : ∃ uuid' client w' tr',
      Begun defaultEnv tallyCodec (.ofCountable SigningRoom)
        (fun i => additiveTool.command (additiveEcdsaSign (file i))) client uuid' 2 w' tr' ∧
      ∀ k, 1 ≤ k → k ≤ (2 : UInt16).toNat → ∃ p ∈ ({2, 3} : Finset UInt16), client k = p.toNat :=
    exists_begun_sign defaultEnv tallyCodec _
      (q := ⟨1, sha256Digest id (messageOf "0aF1"), Algorithm.ecdsa.curveName⟩)
      (fun _ _ _ _ h => UInt16.toNat_inj.mp h) rfl (by decide) fun p hp =>
        ⟨⟨"3", "1"⟩, rfl, by rw [hask p hp, UInt16.ofNat_toNat]⟩
  refine ⟨uuid, w, tr, uuid', client, w', tr', file, hkeys, hbegun, fun i seat total hi => ?_⟩
  obtain ⟨k, h₁, hk, rfl, -⟩ := hbegun.holder hi
  obtain ⟨p, hp, hcp⟩ := hclient k h₁ hk
  rw [hcp]
  exact hfile _ (hP p hp).1 (hP p hp).2

/-- Their nonces are `1` together, and the signature is not zero. -/
theorem signed_additive {r : Nat}
    (hr : (foldedCurve 65537).xCoord ((1 : ZMod 65537)⁻¹ • (foldedCurve 65537).generator) = some r) :
    (foldedCurve 65537).ofBigint (fromBytes (messageOf "0aF1") % 2 ^ 256) •
      (foldedCurve 65537).generator + (foldedCurve 65537).ofBigint r • (3 : ZMod 65537) ≠ 0 := by
  have hR : (1 : ZMod 65537)⁻¹ • (foldedCurve 65537).generator = 1 := by
    rw [inv_one, one_smul]
    rfl
  have hmessage : fromBytes (messageOf "0aF1") = 0xaf1 := by decide
  rw [hR] at hr
  obtain rfl := Option.some.inj hr
  rw [hmessage]
  show ((0xaf1 % 2 ^ 256 : Nat) : ZMod 65537) * 1 + ((2 ^ 248 + 1 : Nat) : ZMod 65537) * 3 ≠ 0
  decide

/-- The coordinates that are needed for it. -/
theorem exists_coordinates_additive :
    ∃ x y r, (foldedCurve 65537).xCoord (3 : ZMod 65537) = some x ∧
      (foldedCurve 65537).yCoord (3 : ZMod 65537) = some y ∧
      (foldedCurve 65537).xCoord ((1 : ZMod 65537)⁻¹ • (foldedCurve 65537).generator) = some r := by
  have h3 : (3 : ZMod 65537) ≠ 0 := by decide
  obtain ⟨x, hx, -⟩ := foldedCurve_xCoord (p := 65537) (by norm_num) h3
  obtain ⟨r, hr, -⟩ := foldedCurve_xCoord (p := 65537) (by norm_num)
    (x := (1 : ZMod 65537)⁻¹ • (foldedCurve 65537).generator) (by rw [inv_one]; decide)
  exact ⟨x, _, r, hx, foldedCurve_yCoord h3, hr⟩

/-- What is drawn for them together. -/
theorem drawn_additive {draws : Nat → Ecdsa.SignDraws additiveTool.gg18Signer.Seed}
    (h : ∀ k, 1 ≤ k → k ≤ 2 → draws k = additiveDraws (32769 : ZMod 65537) 1) :
    ((List.range' 1 (2 : UInt16).toNat).map fun i =>
        additiveTool.gg18Signer.drawK (draws i).create).sum = (1 : ZMod 65537) ∧
      ((List.range' 1 (2 : UInt16).toNat).map fun i =>
        additiveTool.gg18Signer.drawGamma (draws i).create).sum ≠ (0 : ZMod 65537) := by
  show [(draws 1).create.1, (draws 2).create.1].sum = (1 : ZMod 65537) ∧
    [(draws 1).create.2, (draws 2).create.2].sum ≠ (0 : ZMod 65537)
  rw [h 1 le_rfl one_le_two, h 2 one_le_two le_rfl]
  decide

/-- Their calls show what was drawn. -/
theorem Begun.draws_additive {uuid' : String} {w' : World additiveTool.Output}
    {tr' : List WorldEvent} {client : Nat → Nat} {file : Nat → Ecdsa.KeyFile additiveTool.gg18}
    (hbegun : Begun defaultEnv tallyCodec (.ofCountable SigningRoom)
      (fun i => additiveTool.command (additiveEcdsaSign (file i))) client uuid' 2 w' tr')
    {draws : Nat → Ecdsa.SignDraws additiveTool.gg18Signer.Seed}
    (hdraws : ∀ i seat total, (w'.process i).Holds seat total → seat.uuid = uuid' →
      ∃ data path messageStr params chainCodeHex, additiveEcdsaSign (file i) =
        .ecdsaSign data path messageStr params chainCodeHex (draws seat.number.toNat))
    (k : Nat) (h₁ : 1 ≤ k) (hk : k ≤ 2) : draws k = additiveDraws (32769 : ZMod 65537) 1 := by
  obtain ⟨_, _, _, _, _, hcall⟩ := hdraws _ _ _ ⟨_, hbegun.seated k h₁ hk⟩ rfl
  injection hcall with _ _ _ _ _ hdraws
  rw [hdraws]
  exact congrArg draws (UInt16.toNat_ofNat_of_lt' (hk.trans_lt (by decide))).symm

/-- Their key. -/
theorem Tool.EcdsaKeyAt.eq_additive {w : World additiveTool.Output} {uuid : String}
    {Y : ZMod 65537} {i : Nat} {file : Ecdsa.KeyFile additiveTool.gg18}
    (h : Tool.EcdsaKeyAt w uuid "" Y) (hwrote : Tool.EcdsaWrote w uuid i file)
    (hySum : file.ySum = (3 : ZMod 65537)) : Y = 3 := by
  obtain ⟨a, f, hY, hroot, hySums⟩ := h
  rw [hY, hroot rfl, add_zero, ← hySums i file hwrote, hySum]

/-- They can go on to the end. -/
theorem ecdsaSigning_additive {uuid uuid' : String} {w w' : World additiveTool.Output}
    {tr tr' : List WorldEvent} {client : Nat → Nat} {file : Nat → Ecdsa.KeyFile additiveTool.gg18}
    (hkeys : additiveTool.KeygenIn defaultEnv tallyCodec (.ofCountable SigningRoom)
      (fun _ => additiveEcdsaKeygen) w tr uuid 1 3 Algorithm.ecdsa.curveName)
    (hbegun : Begun defaultEnv tallyCodec (.ofCountable SigningRoom)
      (fun i => additiveTool.command (additiveEcdsaSign (file i))) client uuid' 2 w' tr')
    (hfile : ∀ i seat total, (w'.process i).Holds seat total →
      Tool.EcdsaWrote w uuid i (file i) ∧ (file i).ySum = (3 : ZMod 65537)) :
    (∀ i seat total e, w'.process i = .session seat total (.fail e) → seat.uuid ≠ uuid') ∧
    ∃ (signed : Nat → Ecdsa.Signed (ZMod 65537) (ZMod 65537)) (w₁ : World additiveTool.Output)
      (more : List WorldEvent),
      Completes defaultEnv tallyCodec (.ofCountable SigningRoom)
        (fun i => additiveTool.command (additiveEcdsaSign (file i))) uuid'
        (fun i => .ecdsaSigned (signed i)) w' w₁ more tr' := by
  have hsigning : additiveTool.SigningIn defaultEnv tallyCodec (.ofCountable SigningRoom)
      (fun i => additiveEcdsaSign (file i)) w' tr' uuid' := hbegun.signingIn fun _ _ h => h
  obtain ⟨part, f, Y, hpart, hkey, hcompletes⟩ := hbegun.ecdsaSigning additiveTool_documented
    foldedCurve_neg hkeys hsigning
    (fun i seat total hi _ => ⟨rfl, rfl, i, _, (hfile i _ _ hi).1, rfl⟩) rfl le_rfl (by decide) rfl
  have hdraws : ∀ k, 1 ≤ k → k ≤ 2 → (part k).2 = additiveDraws (32769 : ZMod 65537) 1 := by
    intro k h₁ hk
    obtain ⟨_, _, _, _, _, hcall⟩ := (hpart k h₁ hk).made
    injection hcall with _ _ _ _ _ hdraws
    exact hdraws.symm
  obtain rfl : Y = (3 : ZMod 65537) := by
    obtain ⟨k, hwrote⟩ := (hpart 1 le_rfl (by decide)).wrote
    obtain ⟨hwrote', hySum⟩ := hfile _ _ _ ⟨_, hbegun.seated 1 le_rfl (by decide)⟩
    obtain ⟨-, -, hsame, -⟩ := hkeys.ecdsaKeyAt additiveTool_documented hwrote' hwrote ""
    have hY : (part 1).1.ySum = Y := (Prod.mk.inj (Except.ok.inj hkey)).2
    rw [← hY, hsame, hySum]
  obtain ⟨x, y, r, hx, hy, hr⟩ := exists_coordinates_additive
  obtain ⟨hnonce, hblind⟩ := drawn_additive hdraws
  exact hcompletes 1 r x y hnonce one_ne_zero hblind hx hy hr (signed_additive hr)

section

variable (htool : tool.Documented)
  (hneg : ∀ P, tool.secp256k1.xCoord (-P) = tool.secp256k1.xCoord P)
  (hkeys : tool.KeygenIn env keygenJson roomJson calls w tr uuid t n Algorithm.ecdsa.curveName)
  (h : tool.SigningIn env' keygenJson' roomJson' calls' w' tr' uuid')
  {path messageStr chainCodeHex : String}
  (hsigners : ∀ i seat total, (w'.process i).Holds seat total → seat.uuid = uuid' →
    Tool.EcdsaSigner w uuid path chainCodeHex (calls' i))
  {i₀ : Nat} {data₀ : Option String} {params₀ : List String}
  {draws₀ : Ecdsa.SignDraws tool.gg18Signer.Seed}
  (hcall₀ : calls' i₀ = .ecdsaSign data₀ path messageStr params₀ chainCodeHex draws₀)
  {seat₀ : PartySignup} {total : UInt16} (hu₀ : seat₀.uuid = uuid')
  (ht₁ : 1 ≤ t.toNat) (hlt : t.toNat + 2 < 2 ^ 16) (htotal : total.toNat = t.toNat + 1)

include htool hneg hkeys h hsigners hcall₀ hu₀ ht₁ hlt htotal in
/-- All that the signers of a room return, if their files are of one key generation and the
signature is not zero, is one signature.  It is valid for the key that is shown for every
file of the key generation. -/
theorem Tool.ecdsa_signatures {out₀ : tool.Output}
    (hi₀ : w'.process i₀ = .session seat₀ total (.ret out₀)) :
    ∃ (k : F) (Y : G) (r x y : Nat) (draws : Nat → Ecdsa.SignDraws tool.gg18Signer.Seed),
      Tool.EcdsaKey w uuid path chainCodeHex Y x y ∧
      (∀ i seat total, (w'.process i).Holds seat total → seat.uuid = uuid' →
        ∃ data path messageStr params chainCodeHex, calls' i =
          .ecdsaSign data path messageStr params chainCodeHex (draws seat.number.toNat)) ∧
      ((List.range' 1 total.toNat).map fun i => tool.gg18Signer.drawK (draws i).create).sum = k ∧
      k ≠ 0 ∧ tool.secp256k1.xCoord (k⁻¹ • tool.secp256k1.generator) = some r ∧
      (tool.secp256k1.ofBigint (fromBytes (messageOf messageStr) % 2 ^ 256) •
          tool.secp256k1.generator + tool.secp256k1.ofBigint r • Y ≠ 0 →
        ∃ sig, EcdsaValid tool.secp256k1 Y (fromBytes (messageOf messageStr) % 2 ^ 256) sig ∧
          ∀ i seat total out, w'.process i = .session seat total (.ret out) → seat.uuid = uuid' →
            ∃ deltaI sigma, out = .ecdsaSigned
              { deltaI, sigma, R := k⁻¹ • tool.secp256k1.generator, sig, x, y,
                messageInt := fromBytes (messageOf messageStr) }) := by
  have ht : t.toNat < n.toNat := hkeys.lt
  have hfits : Tool.Fits total (calls' i₀) := by
    rw [hcall₀]
    trivial
  obtain ⟨part, hpart, hin, hposts⟩ := h.ecdsaParts hsigners hcall₀ ⟨_, hi₀⟩ hu₀
  obtain ⟨id, p, vssVec, chainCode, f, Y, hs⟩ :=
    h.ecdsaSigners htool hkeys htotal (h.full hi₀ hu₀ hfits) hpart
  obtain ⟨net, tr₁, hnet, htr₁, hreturned⟩ := h.out.net h.run h.whole hin hposts
  obtain ⟨k₀, signed₀, -, hret₀, -⟩ := hreturned i₀ seat₀ total out₀ hi₀ hu₀
  obtain ⟨hk, hblind, hx, hy⟩ := (htotal ▸ hs.hold).returned htool.secp256k1 htool.gg18Signer
    hs.signers ht₁ ht hlt htotal (htotal ▸ hs.key) hnet (fun e he => (htr₁ e he).1) hret₀
  have hR := smul_ne_zero (inv_ne_zero hk) htool.secp256k1.generator_ne_zero
  obtain ⟨r, hr, -⟩ := htool.secp256k1.xCoord_lt _ hR
  refine ⟨_, Y, r, signed₀.x, signed₀.y, fun k => (part k).2, hs.shown _ _ hx hy,
    fun i seat total' hi hu => (hpart i seat total' hi hu).made, rfl, hk, hr, fun hs₀ => ?_⟩
  obtain ⟨deltaI, sigma, sig, hvalid, hplay⟩ :=
    hs.allPlay htool hneg ht₁ ht hlt htotal rfl hk hblind hx hy hr hs₀
  refine ⟨sig, hvalid, fun i seat total' out hi hu => ?_⟩
  obtain ⟨k, b, hk, hret, rfl⟩ := hreturned i seat total' out hi hu
  obtain rfl := ((hplay.allReturn (fun _ => none) net tr₁ (fun _ _ => rfl) hnet).1
    (fun e he => (htr₁ e he).1) (fun e he => (htr₁ e he).2) k).1 b hret
  exact ⟨_, _, rfl⟩

/-- Two signers that have gone on to the end. -/
theorem Tool.ecdsa_signatures_additive :
    ∃ (uuid uuid' : String) (w w' : World additiveTool.Output) (x y : Nat)
      (sig : SignatureRecid (ZMod 65537)) (i j : Nat)
      (signed signed' : Ecdsa.Signed (ZMod 65537) (ZMod 65537)),
      Tool.EcdsaKey w uuid "" "" (3 : ZMod 65537) x y ∧
      EcdsaValid (foldedCurve 65537) (3 : ZMod 65537) (fromBytes (messageOf "0aF1") % 2 ^ 256) sig ∧
      i ≠ j ∧ w'.process i = .session ⟨1, uuid'⟩ 2 (.ret (.ecdsaSigned signed)) ∧
      w'.process j = .session ⟨2, uuid'⟩ 2 (.ret (.ecdsaSigned signed')) ∧
      signed.sig = sig ∧ signed'.sig = sig := by
  obtain ⟨uuid, w, tr, uuid', client, w', tr', file, hkeys, hbegun, hfile⟩ :=
    exists_ecdsaSigning_additive
  have hsigning : additiveTool.SigningIn defaultEnv tallyCodec (.ofCountable SigningRoom)
      (fun i => additiveEcdsaSign (file i)) w' tr' uuid' := hbegun.signingIn fun _ _ h => h
  obtain ⟨-, signed, w₁, more, hcompletes⟩ := ecdsaSigning_additive hkeys hbegun hfile
  have h₁ := hbegun.returned hcompletes le_rfl (by decide)
  have h₂ := hbegun.returned hcompletes one_le_two le_rfl
  obtain ⟨k, Y, r, x, y, draws, hkey, hdraws, hsum, -, hr, hsigned⟩ :=
    Tool.ecdsa_signatures additiveTool_documented foldedCurve_neg hkeys
      (hsigning.completes hcompletes)
      (fun i seat total hi hu =>
        ⟨rfl, rfl, i, _, (hfile i _ _ ((hcompletes.holds hu).mp hi)).1, rfl⟩)
      rfl rfl le_rfl (by decide) rfl h₁
  obtain rfl : Y = (3 : ZMod 65537) := by
    obtain ⟨hwrote, hySum⟩ := hfile _ _ _ ⟨_, hbegun.seated 1 le_rfl (by decide)⟩
    exact hkey.1.eq_additive hwrote hySum
  obtain rfl : k = (1 : ZMod 65537) := hsum.symm.trans
    (drawn_additive (hbegun.draws_additive fun i seat total hi hu =>
      hdraws i seat total ((hcompletes.holds hu).mpr hi) hu)).1
  obtain ⟨sig, hvalid, hreturned⟩ := hsigned (signed_additive hr)
  obtain ⟨_, _, hone⟩ := hreturned _ _ _ _ h₁ rfl
  obtain ⟨_, _, htwo⟩ := hreturned _ _ _ _ h₂ rfl
  refine ⟨uuid, uuid', w, w₁, x, y, sig, client 1, client 2, _, _, hkey, hvalid, fun he => ?_, h₁,
    h₂, ?_, ?_⟩
  · rw [he, h₂] at h₁
    cases h₁
  · rw [Tool.Output.ecdsaSigned.inj hone]
  · rw [Tool.Output.ecdsaSigned.inj htwo]

include htool hneg hkeys h hsigners hcall₀ hu₀ ht₁ hlt htotal in
/-- Signers who hold all seats of a room, with files of one key generation, can go on until
all of them have one signature, unless their nonces or the signature are zero. -/
theorem Tool.ecdsa_completes (hi₀ : (w'.process i₀).Holds seat₀ total)
    (hkept : ∀ e ∈ tr', e.Within (NoLetter uuid'))
    (hfull : Full w' uuid' total.toNat)
    (hwell : ∀ i seat total e, w'.process i = .session seat total (.fail e) → seat.uuid ≠ uuid') :
    ∃ (Y : G) (draws : Nat → Ecdsa.SignDraws tool.gg18Signer.Seed),
      Tool.EcdsaKeyAt w uuid path Y ∧
      (∀ i seat total, (w'.process i).Holds seat total → seat.uuid = uuid' →
        ∃ data path messageStr params chainCodeHex, calls' i =
          .ecdsaSign data path messageStr params chainCodeHex (draws seat.number.toNat)) ∧
      ∀ (k : F) (r x y : Nat),
        ((List.range' 1 total.toNat).map fun i => tool.gg18Signer.drawK (draws i).create).sum = k →
        k ≠ 0 →
        ((List.range' 1 total.toNat).map fun i =>
          tool.gg18Signer.drawGamma (draws i).create).sum ≠ 0 →
        tool.secp256k1.xCoord Y = some x → tool.secp256k1.yCoord Y = some y →
        tool.secp256k1.xCoord (k⁻¹ • tool.secp256k1.generator) = some r →
        tool.secp256k1.ofBigint (fromBytes (messageOf messageStr) % 2 ^ 256) •
          tool.secp256k1.generator + tool.secp256k1.ofBigint r • Y ≠ 0 →
        ∃ sig, EcdsaValid tool.secp256k1 Y (fromBytes (messageOf messageStr) % 2 ^ 256) sig ∧
          Tool.EcdsaKey w uuid path chainCodeHex Y x y ∧
          ∃ (deltaI sigma : Nat → F) (w₁ : World tool.Output) (more : List WorldEvent),
            Completes env' keygenJson' roomJson' (fun i => tool.command (calls' i)) uuid'
              (fun i => .ecdsaSigned
                { deltaI := deltaI i, sigma := sigma i, R := k⁻¹ • tool.secp256k1.generator, sig, x,
                  y, messageInt := fromBytes (messageOf messageStr) }) w' w₁ more tr' := by
  obtain ⟨part, hpart, hin, hposts⟩ := h.ecdsaParts hsigners hcall₀ hi₀ hu₀
  obtain ⟨id, p, vssVec, chainCode, f, Y, hs⟩ := h.ecdsaSigners htool hkeys htotal hfull hpart
  refine ⟨Y, fun k => (part k).2, hs.keyAt,
    fun i seat total' hi hu => (hpart i seat total' hi hu).made,
    fun k r x y hk hk₀ hblind hx hy hr hs₀ => ?_⟩
  obtain ⟨deltaI, sigma, sig, hvalid, hplay⟩ :=
    hs.allPlay htool hneg ht₁ hkeys.lt hlt htotal hk hk₀ hblind hx hy hr hs₀
  exact ⟨sig, hvalid, hs.shown x y hx hy, deltaI, sigma,
    h.run.completes (fun i => tool.postsOwn (calls' i)) h.out.letters hkept h.whole hin hfull hwell
      (hplay.map Output.ecdsaSigned)⟩

/-- Two signers that have just begun. -/
theorem Tool.ecdsa_completes_additive :
    ∃ (uuid uuid' : String) (w w' w₁ : World additiveTool.Output) (tr' more : List WorldEvent)
      (file : Nat → Ecdsa.KeyFile additiveTool.gg18) (x y : Nat)
      (signed : Nat → Ecdsa.Signed (ZMod 65537) (ZMod 65537)) (sig : SignatureRecid (ZMod 65537)),
      Tool.EcdsaKey w uuid "" "" (3 : ZMod 65537) x y ∧
      EcdsaValid (foldedCurve 65537) (3 : ZMod 65537) (fromBytes (messageOf "0aF1") % 2 ^ 256) sig ∧
      (∀ k, (signed k).sig = sig) ∧
      Completes defaultEnv tallyCodec (.ofCountable SigningRoom)
        (fun i => additiveTool.command (additiveEcdsaSign (file i))) uuid'
        (fun i => .ecdsaSigned (signed i)) w' w₁ more tr' := by
  obtain ⟨uuid, w, tr, uuid', client, w', tr', file, hkeys, hbegun, hfile⟩ :=
    exists_ecdsaSigning_additive
  have hsigning : additiveTool.SigningIn defaultEnv tallyCodec (.ofCountable SigningRoom)
      (fun i => additiveEcdsaSign (file i)) w' tr' uuid' := hbegun.signingIn fun _ _ h => h
  have hone := hbegun.seated 1 le_rfl (by decide)
  obtain ⟨Y, draws, hkeyAt, hdraws, hcompletes⟩ := Tool.ecdsa_completes additiveTool_documented
    foldedCurve_neg hkeys hsigning
    (fun i seat total hi _ => ⟨rfl, rfl, i, _, (hfile i _ _ hi).1, rfl⟩) rfl rfl le_rfl (by decide)
    rfl ⟨_, hone⟩ (hbegun.within _) hbegun.full (ecdsaSigning_additive hkeys hbegun hfile).1
  obtain ⟨hwrote, hySum⟩ := hfile _ _ _ ⟨_, hone⟩
  obtain rfl := hkeyAt.eq_additive hwrote hySum
  obtain ⟨hnonce, hblind⟩ := drawn_additive (hbegun.draws_additive hdraws)
  obtain ⟨x, y, r, hx, hy, hr⟩ := exists_coordinates_additive
  obtain ⟨sig, hvalid, hkey, _, _, w₁, more, hcompletes⟩ := hcompletes 1 r x y hnonce one_ne_zero
    hblind hx hy hr (signed_additive hr)
  exact ⟨uuid, uuid', w, w', w₁, tr', more, file, x, y, _, sig, hkey, hvalid, fun _ => rfl,
    hcompletes⟩

include htool hneg hkeys h hsigners hcall₀ hu₀ ht₁ hlt htotal in
/-- Nothing that a signer reads makes it panic, if every seat of the room is held by a signer
with a file of the key generation, unless their nonces or the signature are zero: it has run
out of time, or this very signer was stopped or got no answer. -/
theorem Tool.ecdsa_panics (hi₀ : (w'.process i₀).Holds seat₀ total)
    (hfull : Full w' uuid' total.toNat) :
    ∃ (Y : G) (draws : Nat → Ecdsa.SignDraws tool.gg18Signer.Seed),
      Tool.EcdsaKeyAt w uuid path Y ∧
      (∀ i seat total, (w'.process i).Holds seat total → seat.uuid = uuid' →
        ∃ data path messageStr params chainCodeHex, calls' i =
          .ecdsaSign data path messageStr params chainCodeHex (draws seat.number.toNat)) ∧
      ∀ (k : F) (r x y : Nat),
        ((List.range' 1 total.toNat).map fun i => tool.gg18Signer.drawK (draws i).create).sum = k →
        k ≠ 0 →
        ((List.range' 1 total.toNat).map fun i =>
          tool.gg18Signer.drawGamma (draws i).create).sum ≠ 0 →
        tool.secp256k1.xCoord Y = some x → tool.secp256k1.yCoord Y = some y →
        tool.secp256k1.xCoord (k⁻¹ • tool.secp256k1.generator) = some r →
        tool.secp256k1.ofBigint (fromBytes (messageOf messageStr) % 2 ^ 256) •
          tool.secp256k1.generator + tool.secp256k1.ofBigint r • Y ≠ 0 →
        ∀ i seat total e, w'.process i = .session seat total (.fail e) → seat.uuid = uuid' →
          e = .pollTimeout ∨ Stopped i e tr' := by
  obtain ⟨part, hpart, hin, hposts⟩ := h.ecdsaParts hsigners hcall₀ hi₀ hu₀
  obtain ⟨id, p, vssVec, chainCode, f, Y, hs⟩ := h.ecdsaSigners htool hkeys htotal hfull hpart
  refine ⟨Y, fun k => (part k).2, hs.keyAt,
    fun i seat total' hi hu => (hpart i seat total' hi hu).made,
    fun k r x y hk hk₀ hblind hx hy hr hs₀ i seat total' e hi hu => ?_⟩
  obtain ⟨deltaI, sigma, sig, -, hplay⟩ :=
    hs.allPlay htool hneg ht₁ hkeys.lt hlt htotal hk hk₀ hblind hx hy hr hs₀
  exact WorldRun.panics h.run (fun i => tool.postsOwn (calls' i)) h.out.letters h.whole hin
    hposts (hplay.unless (· = .pollTimeout)) rfl hi hu

/-- One of two signers is stopped, and no other. -/
theorem Tool.ecdsa_panics_additive :
    ∃ (uuid' : String) (file : Nat → Ecdsa.KeyFile additiveTool.gg18)
      (w' : World additiveTool.Output) (tr' : List WorldEvent) (i : Nat) (seat : PartySignup),
      additiveTool.SigningIn defaultEnv tallyCodec (.ofCountable SigningRoom)
        (fun i => additiveEcdsaSign (file i)) w' (.broke i .unwrapErr :: tr') uuid' ∧
      w'.process i = .session seat 2 (.fail .unwrapErr) ∧ seat.uuid = uuid' ∧
      (∀ j e, Stopped j e (.broke i .unwrapErr :: tr') ↔ j = i ∧ e = .unwrapErr) ∧
      (Panic.unwrapErr = .pollTimeout ∨ Stopped i .unwrapErr (.broke i .unwrapErr :: tr')) := by
  obtain ⟨uuid, w, tr, uuid', client, w', tr', file, hkeys, hbegun, hfile⟩ :=
    exists_ecdsaSigning_additive
  have hsigning : additiveTool.SigningIn defaultEnv tallyCodec (.ofCountable SigningRoom)
      (fun i => additiveEcdsaSign (file i)) w' tr' uuid' := hbegun.signingIn fun _ _ h => h
  have hone := hbegun.seated 1 le_rfl (by decide)
  have hfail := World.stop_session hone .unwrapErr
  have hbroke := hsigning.broke (client 1) .unwrapErr
  obtain ⟨Y, draws, hkeyAt, hdraws, hpanics⟩ := Tool.ecdsa_panics additiveTool_documented
    foldedCurve_neg hkeys hbroke
    (fun i seat total hi _ => ⟨rfl, rfl, i, _, (hfile i _ _ (World.stop_holds.mp hi)).1, rfl⟩) rfl
    rfl le_rfl (by decide) rfl ⟨_, hfail⟩ (hbegun.full.stop _ _)
  obtain ⟨hwrote, hySum⟩ := hfile _ _ _ ⟨_, hone⟩
  obtain rfl := hkeyAt.eq_additive hwrote hySum
  obtain ⟨hnonce, hblind⟩ := drawn_additive (hbegun.draws_additive fun i seat total hi hu =>
    hdraws i seat total (World.stop_holds.mpr hi) hu)
  obtain ⟨x, y, r, hx, hy, hr⟩ := exists_coordinates_additive
  exact ⟨uuid', file, _, tr', client 1, _, hbroke, hfail, rfl, fun j e => hbegun.stopped_broke,
    hpanics 1 r x y hnonce one_ne_zero hblind hx hy hr (signed_additive hr) _ _ _ _ hfail rfl⟩

end

end

end TssCli
