import TssCli.Common.BigInt
import TssCli.Protocols.Curve

/-!
# Encrypted shares

In the third round of a key generation each party sends each other party its
share, encrypted with AES-GCM under a key both compute: the x-coordinate of the
Diffie-Hellman point of their two secrets.  The cipher takes keys of 32 bytes
and panics on any other.

`sendShares` and `readShares` are the two loops.  The key generations hold the
keys of the others in different forms, so the loops take the form as a
parameter.
-/

namespace TssCli

open Mailbox Mailbox.Script

/-! ## Keys -/

/-- `AES_KEY_BYTES_LEN`. -/
def aesKeyBytesLen : Nat := 32

/-- The key bytes behind a template of zeros. -/
def padKey (keyBytes : List UInt8) : Except Panic (List UInt8) :=
  if aesKeyBytesLen < keyBytes.length then .error .overflow
  else .ok (List.replicate (aesKeyBytesLen - keyBytes.length) 0 ++ keyBytes)

/-! ## The cipher -/

/-- `AEAD`.  The tag is the nonce. -/
structure AeadPack where
  ciphertext : List UInt8
  tag : List UInt8
deriving DecidableEq

/-- AES-256-GCM for keys of 32 bytes and nonces of 12. -/
structure AesGcm where
  encrypt : List UInt8 → List UInt8 → List UInt8 → Option (List UInt8)
  decrypt : List UInt8 → List UInt8 → List UInt8 → Option (List UInt8)

/-- Decryption inverts encryption. -/
def AesGcm.Documented (aes : AesGcm) : Prop :=
  ∀ key nonce plaintext, key.length = 32 → nonce.length = 12 → plaintext.length ≤ 32 →
    ∃ c, aes.encrypt key nonce plaintext = some c ∧ aes.decrypt key nonce c = some plaintext

/-- The 12 bytes drawn for an encryption. -/
abbrev Nonce : Type := List.Vector UInt8 12

section

variable (aes : AesGcm)

/-- `aes_encrypt`. -/
def aesEncrypt (key plaintext : List UInt8) (nonce : Nonce) : Except Panic AeadPack :=
  if key.length ≠ 32 then .error .assertFailed
  else match aes.encrypt key nonce.toList plaintext with
    | some ciphertext => .ok { ciphertext, tag := nonce.toList }
    | none => .error .unwrapErr

/-- `aes_decrypt`. -/
def aesDecrypt (key : List UInt8) (aeadPack : AeadPack) : Except Panic (List UInt8) :=
  if key.length ≠ 32 then .error .assertFailed
  else if aeadPack.tag.length ≠ 12 then .error .assertFailed
  else match aes.decrypt key aeadPack.tag aeadPack.ciphertext with
    | some out => .ok out
    | none => .error .unwrapErr

end

/-! ## One share -/

section

variable {F G : Type} (curve : Curve F G) (aes : AesGcm) (packJson : Codec AeadPack)

/-- The x-coordinate of the Diffie-Hellman point. -/
def sharedX [SMul F G] (y : G) (u : F) : Except Panic Nat :=
  match curve.xCoord (u • y) with
  | some x => .ok x
  | none => .error .unwrapNone

def sealShare (key : List UInt8) (share : F) (nonce : Nonce) : Except Panic AeadPack :=
  aesEncrypt aes key (toBytes (curve.toBigint share)) nonce

def openShare (key : List UInt8) (text : String) : Except Panic F := do
  let aeadPack ← packJson.read text
  let out ← aesDecrypt aes key aeadPack
  return curve.ofBigint (fromBytes out)

/-- One round of the loop that sends the shares. -/
def sendShare (partyNum i : Nat) (round : Round) (uuid : String) (key : List UInt8) (share : F)
    (nonce : Nonce) : Client Unit := do
  let aeadPack ← sealShare curve aes key share nonce
  sendP2p partyNum i round (packJson.encode aeadPack) uuid

/-! ## The loops -/

variable {κ : Type} (keyBytes : κ → List UInt8)

/-- The loop that sends the shares. -/
def sendShares (partyNum n : Nat) (round : Round) (uuid : String) (encKeys : List κ)
    (secretShares : List F) (nonce : Nat → Nonce) : Client Unit :=
  walk encKeys partyNum n (fun _ _ => pure ())
    (fun _ i key => do
      let share ← index secretShares (i - 1)
      sendShare curve aes packJson partyNum i round uuid (keyBytes key) share (nonce i))
    ()

/-- The loop that reads the shares. -/
def readShares (partyNum n : Nat) (encKeys : List κ) (secretShares : List F)
    (answers : List String) : Except Panic (List F) :=
  walk (answers.zip encKeys) partyNum n
    (fun v i => do return v ++ [← index secretShares (i - 1)])
    (fun v _ answer => do
      return v ++ [← openShare curve aes packJson (keyBytes answer.2) answer.1])
    []

end

/-! ## The shared key -/

section

variable {F G : Type} [Field F] [AddCommGroup G] [Module F G] {curve : Curve F G}

/-- The x-coordinate of the Diffie-Hellman point of two secrets. -/
def dhX (curve : Curve F G) (u w : F) : Nat := (curve.xCoord (u • w • curve.generator)).getD 0

theorem dhX_comm (curve : Curve F G) (u w : F) : dhX curve u w = dhX curve w u := by
  rw [dhX, smul_comm, dhX]

theorem sharedX_eq (hcurve : curve.Documented) {u w : F} (hu : u ≠ 0) (hw : w ≠ 0) :
    sharedX curve (w • curve.generator) u = .ok (dhX curve u w) ∧ dhX curve u w < 2 ^ 256 := by
  have hne : u • w • curve.generator ≠ 0 :=
    smul_ne_zero hu (smul_ne_zero hw hcurve.generator_ne_zero)
  obtain ⟨x, hx, hlt⟩ := hcurve.xCoord_lt _ hne
  rw [sharedX, dhX, hx]
  exact ⟨rfl, hlt⟩

/-- A coordinate is padded to a key. -/
theorem padKey_ok {n : Nat} (h : n < 2 ^ 256) :
    ∃ key, padKey (toBytes n) = .ok key ∧ key.length = 32 := by
  have hle : (toBytes n).length ≤ 32 := by
    rw [length_toBytes_le (by decide)]
    norm_num at h ⊢
    exact h
  refine ⟨_, if_neg (Nat.not_lt.mpr hle), ?_⟩
  rw [List.length_append, List.length_replicate, aesKeyBytesLen]
  omega

/-- The padded keys of all pairs of secrets. -/
theorem exists_paddedKey (hcurve : curve.Documented) {u : Nat → F} (hu : ∀ i, u i ≠ 0) :
    ∃ key : Nat → Nat → List UInt8,
      (∀ i j, padKey (toBytes (dhX curve (u i) (u j))) = .ok (key i j)) ∧
      (∀ i j, key i j = key j i) ∧ ∀ i j, (key i j).length = 32 := by
  have hpad := fun i j => padKey_ok (sharedX_eq hcurve (hu i) (hu j)).2
  choose key hkey hlength using hpad
  refine ⟨key, hkey, fun i j => ?_, hlength⟩
  have := hkey i j
  rw [dhX_comm, hkey j i] at this
  exact (Except.ok.inj this).symm

end

/-! ## What survives -/

section

variable {F G : Type} {curve : Curve F G} {aes : AesGcm} {packJson : Codec AeadPack}
  {key : List UInt8} {share : F} {nonce : Nonce}

/-- The text sent for a share, if the key has its length. -/
def packetText (curve : Curve F G) (aes : AesGcm) (packJson : Codec AeadPack) (key : List UInt8)
    (share : F) (nonce : Nonce) : String :=
  match sealShare curve aes key share nonce with
  | .ok aeadPack => packJson.encode aeadPack
  | .error _ => packJson.encode { ciphertext := [], tag := [] }

theorem sealShare_short (hkey : key.length ≠ 32) :
    sealShare curve aes key share nonce = .error .assertFailed := by
  simp [sealShare, aesEncrypt, hkey]

theorem openShare_short {aeadPack : AeadPack} (hkey : key.length ≠ 32) :
    openShare curve aes packJson key (packJson.encode aeadPack) = .error .assertFailed := by
  simp [openShare, aesDecrypt, hkey, except_ok_bind]

variable [Field F] [AddCommGroup G]

/-- A share is sealed and opened under a key of its length. -/
theorem sealShare_ok (packJson : Codec AeadPack) (share : F) (nonce : Nonce)
    (hcurve : curve.Documented) (haes : aes.Documented) (hkey : key.length = 32) :
    ∃ aeadPack, sealShare curve aes key share nonce = .ok aeadPack ∧
      packetText curve aes packJson key share nonce = packJson.encode aeadPack ∧
      openShare curve aes packJson key (packJson.encode aeadPack) = .ok share := by
  have hplain : (toBytes (curve.toBigint share)).length ≤ 32 := by
    have := hcurve.toBigint_lt share
    rw [length_toBytes_le (by decide)]
    norm_num at this ⊢
    exact this
  obtain ⟨c, henc, hdec⟩ := haes key nonce.toList _ hkey nonce.toList_length hplain
  have hseal : sealShare curve aes key share nonce = .ok ⟨c, nonce.toList⟩ := by
    simp [sealShare, aesEncrypt, hkey, henc]
  refine ⟨_, hseal, by rw [packetText, hseal], ?_⟩
  simp only [openShare, aesDecrypt, Codec.read_encode, except_ok_bind, hkey, nonce.toList_length,
    hdec, ne_eq, not_true_eq_false, if_false]
  rw [fromBytes_toBytes, hcurve.ofBigint_toBigint]
  rfl

theorem openShare_packetText (hcurve : curve.Documented) (haes : aes.Documented)
    (hkey : key.length = 32) :
    openShare curve aes packJson key (packetText curve aes packJson key share nonce) =
      .ok share := by
  obtain ⟨aeadPack, _, htext, hopen⟩ := sealShare_ok packJson share nonce hcurve haes
    hkey
  rw [htext, hopen]

end

/-! ## What the loops do -/

/-- A loop that returns has returned from each of its rounds. -/
theorem foldlM_executes {β : Type} {step : Unit → β → Client Unit} :
    ∀ {l : List β} {ops : List (Op Key String)}, Executes (l.foldlM step ()) ops () →
      ∀ b ∈ l, ∃ ops', Executes (step () b) ops' ()
  | [], _, _, b, hb => absurd hb List.not_mem_nil
  | b :: l, ops, h, b', hb' => by
      rw [List.foldlM_cons] at h
      obtain ⟨ops₁, ops₂, _, rfl, h₁, h₂⟩ := h.of_bind
      rcases List.mem_cons.mp hb' with rfl | hb'
      · exact ⟨ops₁, h₁⟩
      · exact foldlM_executes h₂ b' hb'

/-- A loop that leaves out the own number does an operation for each other. -/
theorem executes_foldlM {me : Nat} {send : Nat → Client Unit} {op : Nat → Op Key String} :
    ∀ {l : List Nat}, (∀ i ∈ l, i ≠ me → Executes (send i) [op i] ()) →
      Executes (l.foldlM (fun _ i => if i = me then pure () else send i) ())
        ((l.filter (· ≠ me)).map op) ()
  | [], _ => .ret
  | i :: l, h => by
      have htail := executes_foldlM fun j hj => h j (List.mem_cons_of_mem _ hj)
      rw [List.foldlM_cons]
      by_cases hi : i = me
      · rw [if_pos hi, List.filter_cons_of_neg (by simpa using hi)]
        exact htail
      · rw [if_neg hi, List.filter_cons_of_pos (by simpa using hi)]
        exact (h i (List.mem_cons_self ..) hi).bind htail

section

variable {F G : Type} {curve : Curve F G} {aes : AesGcm} {packJson : Codec AeadPack} {κ : Type}
  {keyBytes : κ → List UInt8} {me n : Nat} {round : Round} {uuid : String} {key : Nat → κ}
  {share : Nat → F} {nonce : Nat → Nonce}

/-- The entry of party `i` in the vector of shares that are read. -/
def openedShare (curve : Curve F G) (aes : AesGcm) (packJson : Codec AeadPack) (me : Nat) (own : F)
    (key : List UInt8) (answer : String) (i : Nat) : Except Panic F :=
  if i = me then .ok own else openShare curve aes packJson key answer

/-- With the keys of the others in order, the loop is one over the party numbers. -/
theorem sendShares_eq :
    sendShares curve aes packJson keyBytes me n round uuid ((others me n).map key)
        ((List.range' 1 n).map share) nonce =
      (List.range' 1 n).foldlM (fun _ i => if i = me then pure () else
        sendShare curve aes packJson me i round uuid (keyBytes (key i)) (share i) (nonce i)) () := by
  rw [sendShares, walk_eq]
  refine foldlM_congr fun i hi _ => ?_
  have hi := List.mem_range'_1.mp hi
  rw [index_range' share hi.1 (by omega)]
  rfl

/-- The loop that sends reads nothing. -/
theorem sendShares_getsOnly {P : Key → Prop} {encKeys : List κ} {secretShares : List F} :
    GetsOnly P
      (sendShares curve aes packJson keyBytes me n round uuid encKeys secretShares nonce) :=
  walk_getsOnly (fun _ _ => .pure _) fun _ _ _ => (GetsOnly.lift _).bind fun _ =>
    (GetsOnly.lift _).bind fun _ => .post _ _ (.pure ())

theorem readShares_eq {text : Nat → String} (h₁ : 1 ≤ me) (hn : me ≤ n) :
    readShares curve aes packJson keyBytes me n ((others me n).map key)
        ((List.range' 1 n).map share) ((others me n).map text) =
      (List.range' 1 n).foldlM (fun v i => do
        return v ++
          [← openedShare curve aes packJson me (share me) (keyBytes (key i)) (text i) i]) [] := by
  rw [readShares, List.zip_map', walk_eq]
  refine foldlM_congr fun i _ v => ?_
  by_cases hi : i = me
  · rw [if_pos hi, openedShare, if_pos hi, hi, index_range' share h₁ hn]
  · rw [if_neg hi, openedShare, if_neg hi]

end

/-! ## The loops against an oracle -/

section

variable {F G : Type} [Field F] [AddCommGroup G] {curve : Curve F G} {aes : AesGcm}
  {packJson : Codec AeadPack} {me n r : Nat} {round : Round} {uuid : String}
  {mail : Key → Option String} {rank : Key → Nat} {excused : Panic → Prop}
  {key : Nat → List UInt8} {share : Nat → F} {nonce : Nat → Nonce} {text : Nat → Nat → String}

/-- A share is sent, or its key has not its length. -/
theorem sendShare_tracks (hcurve : curve.Documented) (haes : aes.Documented)
    (hmail : P2pMail mail rank n uuid round (r + 1) text) (h₁ : 1 ≤ me) (hn : me ≤ n)
    {i : Nat} (hi : i ∈ others me n)
    (htext : text me i = packetText curve aes packJson (key i) (share i) (nonce i))
    (hkey : (key i).length = 32 ∨ excused .assertFailed) :
    Tracks mail rank excused r
      (sendShare curve aes packJson me i round uuid (key i) (share i) (nonce i)) r () := by
  by_cases h32 : (key i).length = 32
  · obtain ⟨aeadPack, hseal, hpacket, _⟩ := sealShare_ok packJson (share i) (nonce i) hcurve haes
      h32
    rw [sendShare, hseal, lift_ok, pure_bind, ← hpacket, ← htext]
    exact hmail.sendP2p h₁ hn hi
  · rw [sendShare, sealShare_short h32]
    exact .fail (hkey.resolve_left h32)

theorem sendShare_posts (hcurve : curve.Documented) (haes : aes.Documented) {i : Nat}
    (hkey : (key i).length = 32) :
    Posts mail (sendShare curve aes packJson me i round uuid (key i) (share i) (nonce i))
      (p2pKey me i round uuid) := by
  obtain ⟨aeadPack, hseal, _, _⟩ := sealShare_ok packJson (share i) (nonce i) hcurve haes hkey
  rw [sendShare, hseal, lift_ok, pure_bind]
  exact .here

/-- The shares are sent and those of the others awaited, or some key has not its
length. -/
theorem sendLoop_plays (hcurve : curve.Documented) (haes : aes.Documented)
    (hmail : P2pMail mail rank n uuid round (r + 1) text) (h₁ : 1 ≤ me) (hn : me ≤ n)
    (htext : ∀ i ∈ others me n,
      text me i = packetText curve aes packJson (key i) (share i) (nonce i))
    (hkey : ∀ i ∈ others me n, (key i).length = 32 ∨ excused .assertFailed) :
    Plays mail rank excused (Owes mail me) r
      ((List.range' 1 n).foldlM (fun _ i => if i = me then pure () else
          sendShare curve aes packJson me i round uuid (key i) (share i) (nonce i)) () >>=
        fun _ => pollForP2p me n round uuid)
      (r + 1) ((others me n).map fun i => text i me) :=
  hmail.sendAndPoll h₁ hn
    (fun i hi => sendShare_tracks hcurve haes hmail h₁ hn hi (htext i hi) (hkey i hi))
    fun hno i hi => sendShare_posts hcurve haes ((hkey i hi).resolve_right (hno _))

/-- The shares addressed to a party are read, or some key has not its length. -/
theorem readLoop_tracks (share : Nat → F) (nonce : Nat → Nonce) (hcurve : curve.Documented)
    (haes : aes.Documented) {own : F}
    {answer : Nat → String}
    (hanswer : ∀ i ∈ others me n,
      answer i = packetText curve aes packJson (key i) (share i) (nonce i))
    (hkey : ∀ i ∈ others me n, (key i).length = 32 ∨ excused .assertFailed) :
    Tracks mail rank excused r
      (liftM ((List.range' 1 n).foldlM (fun v i => do
        return v ++ [← openedShare curve aes packJson me own (key i) (answer i) i]) [] :
          Except Panic (List F)) : Client (List F)) r
      ((List.range' 1 n).map fun i => if i = me then own else share i) := by
  refine Tracks.lift (foldlM_push_cases [] fun i hi => ?_)
  by_cases hme : i = me
  · exact Or.inl (by rw [openedShare, if_pos hme, if_pos hme])
  · have hi : i ∈ others me n := List.mem_filter.mpr ⟨hi, decide_eq_true hme⟩
    rw [openedShare, if_neg hme, if_neg hme, hanswer i hi]
    by_cases h32 : (key i).length = 32
    · exact Or.inl (openShare_packetText hcurve haes h32)
    · refine Or.inr ⟨.assertFailed, ?_, (hkey i hi).resolve_left h32⟩
      rw [packetText, sealShare_short h32]
      exact openShare_short h32

end

end TssCli
