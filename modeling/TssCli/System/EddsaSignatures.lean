import TssCli.Protocols.Eddsa.Signing
import TssCli.System.Rooms

/-!
# EdDSA signatures in the world

Clients write the key files of one key generation, and clients that a room brings
together later, perhaps in another run of the manager, sign with them.  So they are
parties of one run of the signing protocol, with files of different parties.

A client returns only when all seats are held.  So what it returns is a signature for the
key of that key generation, and whoever else returns has the same
(`Tool.eddsa_signatures`).
-/

namespace TssCli

open Mailbox Mailbox.Script Transition Polynomial

/-! ## The signature of the files of one key generation -/

namespace Eddsa

/-- What is read of a file that was written. -/
theorem readKeyFile_encode {F G : Type} {lib : ThresholdSig F G} {json : Codec (KeyFile lib)}
    {file : KeyFile lib} : readKeyFile json (some (json.encode file)) =
      if file.partyNumInt < UInt16.size then .ok file else .error .unwrapErr := by
  rw [readKeyFile, readToString, except_ok_bind, Codec.read, Codec.decode_encode, except_ok_bind,
    u16TryFrom]
  split
  next => rfl
  next => rfl

section

variable {F G : Type} [Field F] [DecidableEq F] [AddCommGroup G] [Module F G] {curve : Curve F G}
  {aes : AesGcm} {hmac : Hmac} {sha512 : List UInt8 → List UInt8} {lib : ThresholdSig F G}
  {signer : ThresholdSigner lib} {path : String} {Y : G} {f : F}

/-- A key that is found at a path has the tweak of the path. -/
theorem Tweak.of_keyAt {file : KeyFile lib}
    (h : Eddsa.keyAt curve hmac file path = .ok (Y, f)) : Tweak curve hmac file path f := by
  unfold Eddsa.keyAt at h
  split at h
  next hpath =>
    obtain ⟨-, rfl⟩ := Prod.mk.inj (Except.ok.inj h)
    exact hpath ▸ .root
  next hpath =>
    obtain ⟨child, hchild, h⟩ := except_bind_ok h
    obtain ⟨key, -, h⟩ := except_bind_ok h
    obtain ⟨-, rfl⟩ := Prod.mk.inj (Except.ok.inj h)
    exact .path hpath hchild

/-- Only the bytes of the message matter. -/
theorem runSigner_message {json : SignerJson signer} {file : KeyFile lib} {t me n : Nat}
    {uuid messageStr messageStr' : String} {draws : EphDraws signer.Seed}
    (h : messageOf messageStr = messageOf messageStr') :
    runSigner curve hmac aes sha512 json file t me n uuid messageStr path draws =
      runSigner curve hmac aes sha512 json file t me n uuid messageStr' path draws := by
  unfold runSigner
  rw [h]

/-- Files of one key generation find one key at a path. -/
theorem Written.keyAt (hcurve : curve.Documented) (haes : aes.Documented)
    (hlib : lib.Documented curve.generator) {keygenJson : Json lib} {t n m : Nat} (ht : t < n)
    {id : Nat → Nat} {file : Nat → KeyFile lib}
    (hfile : Written curve aes keygenJson t n m id file) {i j : Nat} (hi₁ : 1 ≤ i) (hi : i ≤ m)
    (hj₁ : 1 ≤ j) (hj : j ≤ m) (hkey : Eddsa.keyAt curve hmac (file i) path = .ok (Y, f)) :
    Eddsa.keyAt curve hmac (file j) path = .ok (Y, f) ∧ (file j).ySum = (file i).ySum ∧
      Y = (file i).ySum + f • curve.generator := by
  obtain ⟨p, vssVec, chainCode, hold⟩ := hfile.holdShares hcurve haes hlib ht
  have htweak := Tweak.of_keyAt hkey
  have hySum : (file j).ySum = (file i).ySum := by rw [hold.ySum j hj₁ hj, hold.ySum i hi₁ hi]
  have hY : Y = (file i).ySum + f • curve.generator := by
    rw [htweak.keyAt hcurve rfl rfl] at hkey
    exact (Prod.mk.inj (Except.ok.inj hkey)).1.symm
  refine ⟨?_, hySum, hY⟩
  rw [hY]
  exact htweak.keyAt hcurve hySum (by rw [hold.chainCode j hj₁ hj, hold.chainCode i hi₁ hi])

/-- Signers with the files of a key generation all return one signature, which is valid for
the key that they find at the path. -/
theorem Written.signature (hcurve : curve.Documented) (haes : aes.Documented)
    (hlib : lib.Documented curve.generator) (hsigner : signer.Documented curve sha512)
    {keygenJson : Json lib} (json : SignerJson signer) {t n m : Nat} (ht : t < n) (hn : n < 2 ^ 16)
    (hm : m = t + 1) {id : Nat → Nat} {file : Nat → KeyFile lib}
    (hid : Set.InjOn id (Set.Icc 1 m)) (hfile : Written curve aes keygenJson t n m id file)
    (hkey : Eddsa.keyAt curve hmac (file 1) path = .ok (Y, f)) (messageStr uuid : String)
    (draws : Nat → EphDraws signer.Seed) :
    ∃ (x : F) (signature : Signature F G), (file 1).ySum = x • curve.generator ∧
      signature.s • curve.generator = signature.R +
        challenge curve sha512 signature.R Y (messageOf messageStr) • Y ∧
      AllPlay uuid m
        (fun k => runSigner curve hmac aes sha512 json (file k) t k m uuid messageStr path (draws k))
        fun _ => (signature, Y) := by
  subst hm
  have hone : 1 ≤ t + 1 := Nat.le_add_left 1 t
  have hkeys := fun k (h₁ : 1 ≤ k) hk =>
    (hfile.keyAt hcurve haes hlib ht le_rfl hone h₁ hk hkey).1
  obtain ⟨-, -, hY⟩ := hfile.keyAt hcurve haes hlib ht le_rfl hone le_rfl hone hkey
  have hbound : ∀ k, 1 ≤ k → k ≤ t + 1 → 1 ≤ id k ∧ id k < 2 ^ 16 := fun k h₁ hk =>
    ⟨(hfile.bound h₁ hk).1, (hfile.bound h₁ hk).2.trans_lt hn⟩
  obtain ⟨p, vssVec, chainCode, hold⟩ := hfile.holdShares hcurve haes hlib ht
  rw [hold.ySum 1 le_rfl hone, ← add_smul] at hY
  have hroot : path = "" → f = 0 := by
    intro hpath
    cases Tweak.of_keyAt hkey with
    | root => rfl
    | path hne _ => exact absurd hpath hne
  obtain ⟨w, h⟩ := exists_honestEph (fun k => (file k).partyKeys) (messageOf messageStr) id draws
    hcurve hsigner.toDealsNonces (Nat.lt_succ_self t)
  refine ⟨p.eval 0, _, hold.ySum 1 le_rfl hone, honestSignature_valid hY, _, ?_, ?_,
    fun excused k h₁ hk =>
      runSigner_plays hcurve haes hsigner h hold hkeys hY hroot hid hbound (by omega) h₁ hk⟩
  · rfl
  · rfl

end

end Eddsa

/-! ## The clients -/

section

variable {F G F' G' : Type} [Field F] [AddCommGroup G] [Module F G] [DecidableEq G] [Field F']
  [DecidableEq F'] [AddCommGroup G'] [Module F' G'] {tool : Tool F G F' G'}

/-- An EdDSA call for a signature is one at the path, with a file of the key generation and
under its threshold. -/
def Tool.EddsaSigner (w : World tool.Output) (uuid : String) (t : UInt16) (path : String) :
    tool.Call → Prop
  | .eddsaSign data path' _ params _ => path' = path ∧
      (∃ k file, Tool.EddsaWrote w uuid k file ∧ data = some (tool.eddsaFile.encode file)) ∧
      ∀ parsed, signParams params = .ok parsed → parseU16 parsed.threshold = .ok t
  | _ => True

/-- The call signs with the file, at a path where it finds a key. -/
structure Tool.EddsaPart (w : World tool.Output) (uuid : String) (t : UInt16)
    (path messageStr uuid' : String) (total : UInt16) (call : tool.Call)
    (part : Eddsa.KeyFile tool.thresholdSig × Eddsa.EphDraws tool.thresholdSigner.Seed) :
    Prop where
  wrote : ∃ k, Tool.EddsaWrote w uuid k part.1
  key : ∃ key, Eddsa.keyAt tool.ed25519 tool.hmac part.1 path = .ok key
  lt : part.1.partyNumInt < UInt16.size
  ask : ∃ args, (tool.command call).ask = .ok (.sign args) ∧
    args.partyId = UInt16.ofNat part.1.partyNumInt
  body : ∀ number, (tool.command call).body { number, uuid := uuid' } total =
    (fun out => .eddsaSigned out.1 out.2) <$> Eddsa.runSigner tool.ed25519 tool.hmac tool.aes
      tool.sha512 tool.eddsaSign part.1 t.toNat number.toNat total.toNat uuid' messageStr path part.2

variable {env env' : Env} {keygenJson keygenJson' : Codec PartySignup}
  {roomJson roomJson' : Codec SigningRoom} {calls calls' : Nat → tool.Call}
  {w w' : World tool.Output} {tr tr' : List WorldEvent} {uuid uuid' : String} {t n : UInt16}

/-- Files that were written in the session are those of parties of one run of honest key
generations. -/
theorem Tool.KeygenIn.eddsaWritten (h : tool.KeygenIn env keygenJson roomJson calls w tr uuid t n
      Algorithm.eddsa.curveName) {m : Nat} {id : Nat → Nat}
    {file : Nat → Eddsa.KeyFile tool.thresholdSig}
    (hfile : ∀ k, 1 ≤ k → k ≤ m → Tool.EddsaWrote w uuid (id k) (file k)) :
    Eddsa.Written tool.ed25519 tool.aes tool.eddsaKeygen t.toNat n.toNat m id file := by
  obtain ⟨draws, -, hin, hposts⟩ := h.eddsaParts
  obtain ⟨net, tr', hnet, htr', hreturned⟩ := h.out.net h.run h.whole hin hposts
  refine ⟨draws, uuid, _, net, tr', fun _ _ => rfl, hnet, fun e he => (htr' e he).1,
    fun k h₁ hk => ?_⟩
  obtain ⟨i, seat, total, hi, hu, hk⟩ := hfile k h₁ hk
  obtain ⟨k', file', hk', hret, he⟩ := hreturned i seat total _ hi hu
  cases he
  exact ⟨k', hk'.trans hk, hret⟩

/-- Files of one key generation find one key at a path. -/
theorem Tool.KeygenIn.eddsaKeyAt (htool : tool.Documented)
    (h : tool.KeygenIn env keygenJson roomJson calls w tr uuid t n Algorithm.eddsa.curveName)
    {k k' : Nat} {file file' : Eddsa.KeyFile tool.thresholdSig} {path : String} {Y : G'} {f : F'}
    (hfile : Tool.EddsaWrote w uuid k file) (hfile' : Tool.EddsaWrote w uuid k' file')
    (hkey : Eddsa.keyAt tool.ed25519 tool.hmac file path = .ok (Y, f)) :
    Eddsa.keyAt tool.ed25519 tool.hmac file' path = .ok (Y, f) ∧ file'.ySum = file.ySum ∧
      file'.partyNumInt < UInt16.size := by
  have hwritten : Eddsa.Written tool.ed25519 tool.aes tool.eddsaKeygen t.toNat n.toNat 2
      (fun i => if i = 1 then k else k') fun i => if i = 1 then file else file' :=
    h.eddsaWritten fun i _ _ => by
      split
      next => exact hfile
      next => exact hfile'
  obtain ⟨hkey', hySum, -⟩ := hwritten.keyAt htool.ed25519 htool.aes htool.thresholdSig h.lt
    (i := 1) (j := 2) le_rfl one_le_two one_le_two le_rfl hkey
  obtain ⟨p, vssVec, chainCode, hold⟩ :=
    hwritten.holdShares htool.ed25519 htool.aes htool.thresholdSig h.lt
  refine ⟨hkey', hySum, ?_⟩
  have hnumber := hold.partyNumInt 2 one_le_two le_rfl
  have hbound := (hwritten.bound one_le_two le_rfl).2
  exact hnumber.trans_lt (hbound.trans_lt n.toNat_lt)

/-- The clients in the room of an EdDSA signer. -/
theorem Tool.SigningIn.eddsaPart (h : tool.SigningIn env' keygenJson' roomJson' calls' w' tr' uuid')
    {path messageStr : String} {i₀ : Nat} {seat₀ : PartySignup} {total : UInt16}
    {data₀ : Option String} {path₀ : String} {params₀ : List String}
    {draws₀ : Eddsa.EphDraws tool.thresholdSigner.Seed}
    (hcall₀ : calls' i₀ = .eddsaSign data₀ path₀ messageStr params₀ draws₀)
    (hi₀ : (w'.process i₀).Holds seat₀ total) (hu₀ : seat₀.uuid = uuid')
    {j : Nat} {seat : PartySignup} (hj : (w'.process j).Holds seat total) (hu : seat.uuid = uuid')
    (hsigner : Tool.EddsaSigner w uuid t path (calls' j)) :
    ∃ part, Tool.EddsaPart w uuid t path messageStr uuid' total (calls' j) part := by
  obtain ⟨args₀, hask₀⟩ := Tool.asks h.run hi₀ fun t n curve hkeygens => by
    rw [hcall₀] at hkeygens
    cases hkeygens
  obtain ⟨args, hask, hkey, -⟩ := h.room hask₀ hi₀ hu₀ hj hu
  have hsigns₀ := Tool.signs hask₀
  have hsigns := Tool.signs hask
  rw [hcall₀] at hsigns₀
  cases hsigns₀ with
  | eddsa =>
      generalize hcall : calls' j = call at hsigns hsigner hask ⊢
      cases hsigns with
      | ecdsa => exact absurd (Algorithm.curveName_append hkey).1 (by simp)
      | @eddsa data path' messageStr' params draws file key parsed threshold hparsed hfile hkeyAt
          hthreshold =>
          have hhash := h.hash j i₀
          rw [hcall, hcall₀] at hhash
          have hmessage : messageOf messageStr' = messageOf messageStr :=
            hhash (sha256Digest_injective (Algorithm.curveName_append hkey).2)
          obtain ⟨rfl, ⟨k, file', hwrote, rfl⟩, hparse⟩ := hsigner
          rw [Eddsa.readKeyFile_encode] at hfile
          split at hfile
          next hlt =>
            obtain rfl := Except.ok.inj hfile
            rw [hparse parsed hparsed] at hthreshold
            obtain rfl := Except.ok.inj hthreshold
            refine ⟨(file', draws), ⟨k, hwrote⟩, ⟨key, hkeyAt⟩, hlt, ⟨_, hask, rfl⟩,
              fun number => ?_⟩
            rw [tool.eddsaSign_body hparsed (by rw [Eddsa.readKeyFile_encode, if_pos hlt]) hkeyAt
              (hparse parsed hparsed), Eddsa.runSigner_message hmessage]
          next => cases hfile

/-- The clients of a room, with files of one key generation, are parties of one session of
the signing protocol.  If somebody is in every seat, they have different files. -/
theorem Tool.SigningIn.eddsaParts (h : tool.SigningIn env' keygenJson' roomJson' calls' w' tr' uuid')
    {path messageStr : String}
    (hsigners : ∀ i seat total, (w'.process i).Holds seat total → seat.uuid = uuid' →
      Tool.EddsaSigner w uuid t path (calls' i))
    {i₀ : Nat} {data₀ : Option String} {path₀ : String} {params₀ : List String}
    {draws₀ : Eddsa.EphDraws tool.thresholdSigner.Seed}
    (hcall₀ : calls' i₀ = .eddsaSign data₀ path₀ messageStr params₀ draws₀) {seat₀ : PartySignup}
    {total : UInt16} (hi₀ : (w'.process i₀).Holds seat₀ total) (hu₀ : seat₀.uuid = uuid') :
    ∃ part : Nat → Eddsa.KeyFile tool.thresholdSig × Eddsa.EphDraws tool.thresholdSigner.Seed,
      (∀ i seat total', (w'.process i).Holds seat total' → seat.uuid = uuid' →
        Tool.EddsaPart w uuid t path messageStr uuid' total (calls' i) (part seat.number.toNat)) ∧
      InSession (fun i => tool.command (calls' i)) uuid' total.toNat
        (fun k => (fun out => Output.eddsaSigned out.1 out.2) <$> Eddsa.runSigner tool.ed25519
          tool.hmac tool.aes tool.sha512 tool.eddsaSign (part k).1 t.toNat k total.toNat uuid'
          messageStr path (part k).2) w' ∧
      ∀ k, 1 ≤ k → k ≤ total.toNat → ((fun out => (Output.eddsaSigned out.1 out.2 : tool.Output)) <$>
        Eddsa.runSigner tool.ed25519 tool.hmac tool.aes tool.sha512 tool.eddsaSign (part k).1 t.toNat
          k total.toNat uuid' messageStr path (part k).2).PostsOnly (OwnKey uuid' k) := by
  obtain ⟨args₀, hask₀⟩ := Tool.asks h.run hi₀ fun t n curve hkeygens => by
    rw [hcall₀] at hkeygens
    cases hkeygens
  have hseats := h.seats hask₀ hi₀ hu₀
  obtain ⟨part, hpart, hrest⟩ :=
    hseats.parts (fun out => Output.eddsaSigned out.1 out.2)
      (fun part k => Eddsa.runSigner tool.ed25519 tool.hmac tool.aes tool.sha512 tool.eddsaSign
        part.1 t.toNat k total.toNat uuid' messageStr path part.2)
      (fun j => Tool.EddsaPart w uuid t path messageStr uuid' total (calls' j))
      (fun i => tool.postsOwn (calls' i)) hi₀ hu₀ fun j seat hj hu => by
        obtain ⟨part, hpart⟩ := h.eddsaPart hcall₀ hi₀ hu₀ hj hu (hsigners j seat total hj hu)
        exact ⟨part, hpart, hpart.body⟩
  refine ⟨part, fun i seat total' hi hu => ?_, hrest⟩
  obtain rfl := hseats.same i seat total' hi hu
  exact hpart i seat hi hu

/-- A signature of the message, for the key that is shown at the path for every file of the
key generation. -/
def Tool.EddsaSignature (w : World tool.Output) (uuid path messageStr : String)
    (signature : Signature F' G') (Y : G') : Prop :=
  signature.s • tool.ed25519.generator = signature.R +
      Eddsa.challenge tool.ed25519 tool.sha512 signature.R Y (messageOf messageStr) • Y ∧
    ∃ x f : F', Y = (x + f) • tool.ed25519.generator ∧ (path = "" → f = 0) ∧
      ∀ k file, Tool.EddsaWrote w uuid k file → file.ySum = x • tool.ed25519.generator ∧
        Eddsa.pubkey tool.ed25519 tool.hmac tool.eddsaFile (some (tool.eddsaFile.encode file)) path =
          Eddsa.reportKey tool.ed25519 Y path

/-- In a room of which every seat is held by a signer with a file of the key generation, all
play for one signature. -/
theorem Tool.SigningIn.eddsaPlay (htool : tool.Documented)
    (hkeys : tool.KeygenIn env keygenJson roomJson calls w tr uuid t n Algorithm.eddsa.curveName)
    (h : tool.SigningIn env' keygenJson' roomJson' calls' w' tr' uuid') {path messageStr : String}
    {total : UInt16} (htotal : total.toNat = t.toNat + 1) (hfull : Full w' uuid' total.toNat)
    {part : Nat → Eddsa.KeyFile tool.thresholdSig × Eddsa.EphDraws tool.thresholdSigner.Seed}
    (hpart : ∀ i seat total', (w'.process i).Holds seat total' → seat.uuid = uuid' →
      Tool.EddsaPart w uuid t path messageStr uuid' total (calls' i) (part seat.number.toNat)) :
    ∃ signature Y, Tool.EddsaSignature w uuid path messageStr signature Y ∧
      AllPlay uuid' total.toNat
        (fun k => Eddsa.runSigner tool.ed25519 tool.hmac tool.aes tool.sha512 tool.eddsaSign
          (part k).1 t.toNat k total.toNat uuid' messageStr path (part k).2)
        fun _ => (signature, Y) := by
  have ht : t.toNat < n.toNat := hkeys.lt
  have hone : 1 ≤ total.toNat := htotal ▸ Nat.le_add_left 1 _
  have hwrote : ∀ k, 1 ≤ k → k ≤ total.toNat → ∃ id, Tool.EddsaWrote w uuid id (part k).1 := by
    intro k h₁ hk
    obtain ⟨j, seat, total', hj, hu, rfl⟩ := hfull k h₁ hk
    exact (hpart j seat total' hj hu).wrote
  choose! id hid using hwrote
  have hwritten := hkeys.eddsaWritten hid
  obtain ⟨p, vssVec, chainCode, hold⟩ :=
    hwritten.holdShares htool.ed25519 htool.aes htool.thresholdSig ht
  have hinj : Set.InjOn id (Set.Icc 1 total.toNat) := by
    refine h.injOn hfull fun j seat total' hj hu ⟨h₁, hk⟩ => ?_
    obtain ⟨args, hask, hpartyId⟩ := (hpart j seat total' hj hu).ask
    exact ⟨args, hask, hpartyId.trans (by rw [hold.partyNumInt _ h₁ hk])⟩
  obtain ⟨j, seat, total', hj, hu, hk⟩ := hfull 1 le_rfl hone
  obtain ⟨⟨Y, f⟩, hkey⟩ := (hpart j seat total' hj hu).key
  rw [hk] at hkey
  obtain ⟨-, -, hY⟩ := hwritten.keyAt htool.ed25519 htool.aes htool.thresholdSig ht le_rfl hone
    le_rfl hone hkey
  obtain ⟨x, signature, hx, hvalid, hplay⟩ := hwritten.signature htool.ed25519 htool.aes
    htool.thresholdSig htool.thresholdSigner tool.eddsaSign ht n.toNat_lt htotal hinj hkey messageStr
    uuid' fun k => (part k).2
  refine ⟨signature, Y, ⟨hvalid, x, f, ?_, fun hpath => ?_, fun k file hfile => ?_⟩, hplay⟩
  · rw [hY, hx, add_smul]
  · cases Eddsa.Tweak.of_keyAt hkey with
    | root => rfl
    | path hne _ => exact absurd hpath hne
  · obtain ⟨hkey', hsame, hnumber⟩ := hkeys.eddsaKeyAt htool (hid 1 le_rfl hone) hfile hkey
    refine ⟨hsame.trans hx, ?_⟩
    rw [Eddsa.pubkey, Eddsa.readKeyFile_encode, if_pos hnumber, except_ok_bind, Eddsa.runPubkey,
      hkey', except_ok_bind]

/-! ## From the start -/

/-- What a call signs up with that has a file of the key generation. -/
theorem Tool.KeygenIn.eddsaAsk (htool : tool.Documented)
    (h : tool.KeygenIn env keygenJson roomJson calls w tr uuid t n Algorithm.eddsa.curveName)
    {k : Nat} {file : Eddsa.KeyFile tool.thresholdSig} (hfile : Tool.EddsaWrote w uuid k file)
    {path : String} {key : G' × F'}
    (hkey : Eddsa.keyAt tool.ed25519 tool.hmac file path = .ok key) {params : List String}
    {parsed : Params} (hparsed : signParams params = .ok parsed)
    (hthreshold : parseU16 parsed.threshold = .ok t) (messageStr : String)
    (draws : Eddsa.EphDraws tool.thresholdSigner.Seed) :
    (tool.command (.eddsaSign (some (tool.eddsaFile.encode file)) path messageStr params draws)).ask =
      .ok (.sign
        { params := parsed, roomId := sha256Digest tool.sha256 (messageOf messageStr),
          partyId := UInt16.ofNat k, curveName := Algorithm.eddsa.curveName }) := by
  have hwritten : Eddsa.Written tool.ed25519 tool.aes tool.eddsaKeygen t.toNat n.toNat 1 (fun _ => k)
      fun _ => file := h.eddsaWritten fun _ _ _ => hfile
  obtain ⟨p, vssVec, chainCode, hold⟩ :=
    hwritten.holdShares htool.ed25519 htool.aes htool.thresholdSig h.lt
  have hnumber : file.partyNumInt = k := hold.partyNumInt 1 le_rfl le_rfl
  have hlt : file.partyNumInt < UInt16.size :=
    hnumber.trans_lt ((hwritten.bound le_rfl le_rfl).2.trans_lt n.toNat_lt)
  show (Eddsa.signCommand _ _ _ _ _ _ _ _ path messageStr params draws).ask = _
  rw [Eddsa.signCommand, hparsed, except_ok_bind, Eddsa.readKeyFile_encode, if_pos hlt,
    except_ok_bind, hkey, except_ok_bind, hthreshold, except_ok_bind, hnumber]
  rfl

/-- A signing that has begun can go on to its end, and none of its clients has panicked. -/
theorem Begun.eddsaSigning {client : Nat → Nat} {total : UInt16} (htool : tool.Documented)
    (hkeys : tool.KeygenIn env keygenJson roomJson calls w tr uuid t n Algorithm.eddsa.curveName)
    (h : Begun env' keygenJson' roomJson' (fun i => tool.command (calls' i)) client uuid' total w'
      tr')
    (hsigning : tool.SigningIn env' keygenJson' roomJson' calls' w' tr' uuid')
    {path messageStr : String}
    (hsigners : ∀ i seat total, (w'.process i).Holds seat total → seat.uuid = uuid' →
      Tool.EddsaSigner w uuid t path (calls' i))
    {data₀ : Option String} {path₀ : String} {params₀ : List String}
    {draws₀ : Eddsa.EphDraws tool.thresholdSigner.Seed}
    (hcall₀ : calls' (client 1) = .eddsaSign data₀ path₀ messageStr params₀ draws₀)
    (htotal : total.toNat = t.toNat + 1) :
    (∀ i seat total e, w'.process i = .session seat total (.fail e) → seat.uuid ≠ uuid') ∧
    ∃ (out : tool.Output) (w₁ : World tool.Output) (more : List WorldEvent),
      Completes env' keygenJson' roomJson' (fun i => tool.command (calls' i)) uuid' (fun _ => out) w'
        w₁ more tr' := by
  have hone : 1 ≤ total.toNat := htotal ▸ Nat.le_add_left 1 _
  obtain ⟨part, hpart, hin, hposts⟩ :=
    hsigning.eddsaParts hsigners hcall₀ ⟨_, h.seated 1 le_rfl hone⟩ rfl
  obtain ⟨signature, Y, -, hplay⟩ := hsigning.eddsaPlay htool hkeys htotal h.full hpart
  obtain ⟨w₁, more, hcompletes⟩ := h.completes (fun i => tool.postsOwn (calls' i)) hin (hplay.map _)
  exact ⟨fun i seat total e hi => h.well hin (hplay.map _) hi, _, w₁, more, hcompletes⟩

/-- The call of a party over the additive group. -/
noncomputable def additiveEddsaSign (file : Eddsa.KeyFile additiveTool.thresholdSig) :
    additiveTool.Call :=
  .eddsaSign (some (additiveTool.eddsaFile.encode file)) "" "0aF1" ["1", "3"]
    ⟨(1 : ZMod 65537), (0 : ZMod 65537), (0 : ZMod 65537), fun _ => List.Vector.replicate 12 0⟩

/-- Two of three parties begin. -/
theorem exists_eddsaSigning_additive :
    ∃ uuid w tr uuid' client w' tr', ∃ file : Nat → Eddsa.KeyFile additiveTool.thresholdSig,
      additiveTool.KeygenIn defaultEnv tallyCodec (.ofCountable SigningRoom)
        (fun _ => additiveEddsaKeygen) w tr uuid 1 3 Algorithm.eddsa.curveName ∧
      Begun defaultEnv tallyCodec (.ofCountable SigningRoom)
        (fun i => additiveTool.command (additiveEddsaSign (file i))) client uuid' 2 w' tr' ∧
      ∀ i seat total, (w'.process i).Holds seat total →
        Tool.EddsaSigner w uuid 1 "" (additiveEddsaSign (file i)) := by
  obtain ⟨uuid, w, tr, file, hkeys, hfile⟩ := exists_eddsaFiles_additive
  have hP := signers_additive
  have hask : ∀ p ∈ ({2, 3} : Finset UInt16),
      (additiveTool.command (additiveEddsaSign (file p.toNat))).ask = .ok (.sign
        { params := ⟨"3", "1"⟩, roomId := sha256Digest id (messageOf "0aF1"),
          partyId := UInt16.ofNat p.toNat, curveName := Algorithm.eddsa.curveName }) :=
    fun p hp => hkeys.eddsaAsk additiveTool_documented (hfile _ (hP p hp).1 (hP p hp).2) rfl rfl rfl
      _ _
  obtain ⟨uuid', client, w', tr', hbegun, hclient⟩ : ∃ uuid' client w' tr',
      Begun defaultEnv tallyCodec (.ofCountable SigningRoom)
        (fun i => additiveTool.command (additiveEddsaSign (file i))) client uuid' 2 w' tr' ∧
      ∀ k, 1 ≤ k → k ≤ (2 : UInt16).toNat → ∃ p ∈ ({2, 3} : Finset UInt16), client k = p.toNat :=
    exists_begun_sign defaultEnv tallyCodec _
      (q := ⟨1, sha256Digest id (messageOf "0aF1"), Algorithm.eddsa.curveName⟩)
      (fun _ _ _ _ h => UInt16.toNat_inj.mp h) rfl (by decide) fun p hp =>
        ⟨⟨"3", "1"⟩, rfl, by rw [hask p hp, UInt16.ofNat_toNat]⟩
  refine ⟨uuid, w, tr, uuid', client, w', tr', file, hkeys, hbegun, fun i seat total hi => ?_⟩
  obtain ⟨k, h₁, hk, rfl, -⟩ := hbegun.holder hi
  obtain ⟨p, hp, hcp⟩ := hclient k h₁ hk
  rw [hcp]
  exact ⟨rfl, ⟨_, _, hfile _ (hP p hp).1 (hP p hp).2, rfl⟩, fun parsed hparsed => by
    cases hparsed
    rfl⟩

section

variable (htool : tool.Documented)
  (hkeys : tool.KeygenIn env keygenJson roomJson calls w tr uuid t n Algorithm.eddsa.curveName)
  (h : tool.SigningIn env' keygenJson' roomJson' calls' w' tr' uuid') {path messageStr : String}
  (hsigners : ∀ i seat total, (w'.process i).Holds seat total → seat.uuid = uuid' →
    Tool.EddsaSigner w uuid t path (calls' i))
  {i₀ : Nat} {data₀ : Option String} {params₀ : List String}
  {draws₀ : Eddsa.EphDraws tool.thresholdSigner.Seed}
  (hcall₀ : calls' i₀ = .eddsaSign data₀ path messageStr params₀ draws₀) {seat₀ : PartySignup}
  {total : UInt16} (hu₀ : seat₀.uuid = uuid') (htotal : total.toNat = t.toNat + 1)

include htool hkeys h hsigners hcall₀ hu₀ htotal in
/-- All that the signers of a room return, if their files are of one key generation, is one
signature.  It is valid for the key that is shown for every file of the key generation. -/
theorem Tool.eddsa_signatures {out₀ : tool.Output}
    (hi₀ : w'.process i₀ = .session seat₀ total (.ret out₀)) :
    ∃ signature Y, Tool.EddsaSignature w uuid path messageStr signature Y ∧
      ∀ i seat total out, w'.process i = .session seat total (.ret out) → seat.uuid = uuid' →
        out = .eddsaSigned signature Y := by
  have hfits : Tool.Fits total (calls' i₀) := by
    have hsigner := hsigners i₀ seat₀ total ⟨_, hi₀⟩ hu₀
    rw [hcall₀] at hsigner ⊢
    intro parsed threshold hparsed hthreshold
    rw [hsigner.2.2 parsed hparsed] at hthreshold
    obtain rfl := Except.ok.inj hthreshold
    exact htotal.le
  obtain ⟨part, hpart, hin, hposts⟩ := h.eddsaParts hsigners hcall₀ ⟨_, hi₀⟩ hu₀
  obtain ⟨signature, Y, hsignature, hplay⟩ :=
    h.eddsaPlay htool hkeys htotal (h.full hi₀ hu₀ hfits) hpart
  obtain ⟨net, tr₁, hnet, htr₁, hreturned⟩ := h.out.net h.run h.whole hin hposts
  refine ⟨signature, Y, hsignature, fun i seat total' out hi hu => ?_⟩
  obtain ⟨k, b, hk, hret, rfl⟩ := hreturned i seat total' out hi hu
  obtain rfl := ((hplay.allReturn (fun _ => none) net tr₁ (fun _ _ => rfl) hnet).1
    (fun e he => (htr₁ e he).1) (fun e he => (htr₁ e he).2) k).1 b hret
  rfl

/-- Two signers that have gone on to the end. -/
theorem Tool.eddsa_signatures_additive :
    ∃ (uuid uuid' : String) (w w' : World additiveTool.Output)
      (signature : Signature (ZMod 65537) (ZMod 65537)) (Y : ZMod 65537) (i j : Nat),
      Tool.EddsaSignature w uuid "" "0aF1" signature Y ∧ i ≠ j ∧
      w'.process i = .session ⟨1, uuid'⟩ 2 (.ret (.eddsaSigned signature Y)) ∧
      w'.process j = .session ⟨2, uuid'⟩ 2 (.ret (.eddsaSigned signature Y)) := by
  obtain ⟨uuid, w, tr, uuid', client, w', tr', file, hkeys, hbegun, hsigners⟩ :=
    exists_eddsaSigning_additive
  have hsigning : additiveTool.SigningIn defaultEnv tallyCodec (.ofCountable SigningRoom)
      (fun i => additiveEddsaSign (file i)) w' tr' uuid' := hbegun.signingIn fun _ _ h => h
  obtain ⟨-, out, w₁, more, hcompletes⟩ := hbegun.eddsaSigning additiveTool_documented hkeys hsigning
    (fun i seat total hi _ => hsigners i seat total hi) rfl rfl
  have h₁ := hbegun.returned hcompletes le_rfl (by decide)
  have h₂ := hbegun.returned hcompletes one_le_two le_rfl
  obtain ⟨signature, Y, hsignature, hreturned⟩ := Tool.eddsa_signatures additiveTool_documented hkeys
    (hsigning.completes hcompletes)
    (fun i seat total hi hu => hsigners i seat total ((hcompletes.holds hu).mp hi)) rfl rfl rfl h₁
  obtain rfl := hreturned _ _ _ _ h₁ rfl
  refine ⟨uuid, uuid', w, w₁, signature, Y, client 1, client 2, hsignature, fun he => ?_, h₁, h₂⟩
  rw [he, h₂] at h₁
  cases h₁

include htool hkeys h hsigners hcall₀ hu₀ htotal in
/-- Signers who hold all seats of a room, with files of one key generation, can go on until
all of them have that signature. -/
theorem Tool.eddsa_completes (hi₀ : (w'.process i₀).Holds seat₀ total)
    (hkept : ∀ e ∈ tr', e.Within (NoLetter uuid'))
    (hfull : Full w' uuid' total.toNat)
    (hwell : ∀ i seat total e, w'.process i = .session seat total (.fail e) → seat.uuid ≠ uuid') :
    ∃ signature Y, Tool.EddsaSignature w uuid path messageStr signature Y ∧
      ∃ w₁ more, Completes env' keygenJson' roomJson' (fun i => tool.command (calls' i)) uuid'
        (fun _ => .eddsaSigned signature Y) w' w₁ more tr' := by
  obtain ⟨part, hpart, hin, hposts⟩ := h.eddsaParts hsigners hcall₀ hi₀ hu₀
  obtain ⟨signature, Y, hsignature, hplay⟩ := h.eddsaPlay htool hkeys htotal hfull hpart
  exact ⟨signature, Y, hsignature, h.run.completes (fun i => tool.postsOwn (calls' i))
    h.out.letters hkept h.whole hin hfull hwell (hplay.map _)⟩

/-- Two signers that have just begun. -/
theorem Tool.eddsa_completes_additive :
    ∃ (uuid uuid' : String) (w w' w₁ : World additiveTool.Output) (tr' more : List WorldEvent)
      (file : Nat → Eddsa.KeyFile additiveTool.thresholdSig)
      (signature : Signature (ZMod 65537) (ZMod 65537)) (Y : ZMod 65537),
      Tool.EddsaSignature w uuid "" "0aF1" signature Y ∧
      Completes defaultEnv tallyCodec (.ofCountable SigningRoom)
        (fun i => additiveTool.command (additiveEddsaSign (file i))) uuid'
        (fun _ => .eddsaSigned signature Y) w' w₁ more tr' := by
  obtain ⟨uuid, w, tr, uuid', client, w', tr', file, hkeys, hbegun, hsigners⟩ :=
    exists_eddsaSigning_additive
  have hsigning : additiveTool.SigningIn defaultEnv tallyCodec (.ofCountable SigningRoom)
      (fun i => additiveEddsaSign (file i)) w' tr' uuid' := hbegun.signingIn fun _ _ h => h
  obtain ⟨hwell, -⟩ := hbegun.eddsaSigning additiveTool_documented hkeys hsigning
    (fun i seat total hi _ => hsigners i seat total hi) rfl rfl
  obtain ⟨signature, Y, hsignature, w₁, more, hcompletes⟩ := Tool.eddsa_completes
    additiveTool_documented hkeys hsigning (fun i seat total hi _ => hsigners i seat total hi) rfl
    rfl rfl ⟨_, hbegun.seated 1 le_rfl (by decide)⟩ (hbegun.within _) hbegun.full hwell
  exact ⟨uuid, uuid', w, w', w₁, tr', more, file, signature, Y, hsignature, hcompletes⟩

include htool hkeys h hsigners hcall₀ hu₀ htotal in
/-- Nothing that a signer reads makes it panic, if every seat of the room is held by a signer
with a file of the key generation: it has run out of time, or this very signer was stopped or
got no answer. -/
theorem Tool.eddsa_panics (hi₀ : (w'.process i₀).Holds seat₀ total)
    (hfull : Full w' uuid' total.toNat) {i : Nat} {seat : PartySignup} {total' : UInt16}
    {e : Panic} (hi : w'.process i = .session seat total' (.fail e)) (hu : seat.uuid = uuid') :
    e = .pollTimeout ∨ Stopped i e tr' := by
  obtain ⟨part, hpart, hin, hposts⟩ := h.eddsaParts hsigners hcall₀ hi₀ hu₀
  obtain ⟨signature, Y, -, hplay⟩ := h.eddsaPlay htool hkeys htotal hfull hpart
  exact WorldRun.panics h.run (fun i => tool.postsOwn (calls' i)) h.out.letters h.whole hin
    hposts (hplay.unless (· = .pollTimeout)) rfl hi hu

/-- One of two signers is stopped, and no other. -/
theorem Tool.eddsa_panics_additive :
    ∃ (uuid' : String) (file : Nat → Eddsa.KeyFile additiveTool.thresholdSig)
      (w' : World additiveTool.Output) (tr' : List WorldEvent) (i : Nat) (seat : PartySignup),
      additiveTool.SigningIn defaultEnv tallyCodec (.ofCountable SigningRoom)
        (fun i => additiveEddsaSign (file i)) w' (.broke i .unwrapErr :: tr') uuid' ∧
      w'.process i = .session seat 2 (.fail .unwrapErr) ∧ seat.uuid = uuid' ∧
      (∀ j e, Stopped j e (.broke i .unwrapErr :: tr') ↔ j = i ∧ e = .unwrapErr) ∧
      (Panic.unwrapErr = .pollTimeout ∨ Stopped i .unwrapErr (.broke i .unwrapErr :: tr')) := by
  obtain ⟨uuid, w, tr, uuid', client, w', tr', file, hkeys, hbegun, hsigners⟩ :=
    exists_eddsaSigning_additive
  have hsigning : additiveTool.SigningIn defaultEnv tallyCodec (.ofCountable SigningRoom)
      (fun i => additiveEddsaSign (file i)) w' tr' uuid' := hbegun.signingIn fun _ _ h => h
  have hfail := World.stop_session (hbegun.seated 1 le_rfl (by decide)) .unwrapErr
  have hbroke := hsigning.broke (client 1) .unwrapErr
  exact ⟨uuid', file, _, tr', client 1, _, hbroke, hfail, rfl, fun j e => hbegun.stopped_broke,
    Tool.eddsa_panics additiveTool_documented hkeys hbroke
      (fun i seat total hi _ => hsigners i seat total (World.stop_holds.mp hi)) rfl rfl rfl
      ⟨_, hfail⟩ (hbegun.full.stop _ _) hfail rfl⟩

end

end

end TssCli
