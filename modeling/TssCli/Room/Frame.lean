import TssCli.Room.Run

/-!
# What a request leaves alone

A request for a signing seat stores at most one room, and that one differs from the
room it found in the seat of the party that asks (`Writes`).  So a member that is
not timed out loses its record to nobody: its own polls renew the ping and keep
the id and the order.  Only a closed room of timed-out members is given up as a
whole, for a new room with the one that asks.  An error stores nothing.
-/

namespace TssCli

open AssocValues

section

variable (env : Env) (clock : Clock) (request : PartySignupRequestBody)

/-- The room stored over `r`. -/
inductive Writes (r : SigningRoom) : SigningRoom → Prop where
  | pinged {r' : SigningRoom} {info : SigningPartyInfo} :
      r.lastStage = .signup → r.memberInfo.lookup request.partyNumber = some info →
      info.partyId = request.partyUuid →
      r'.memberInfo = (r.seat request.partyNumber { info with lastPing := clock.ping }).memberInfo →
      Writes r r'
  | replaced {old new : SigningPartyInfo} :
      r.lastStage = .signup → r.memberInfo.lookup request.partyNumber = some old →
      timedOut env clock.member old = true → Writes r (r.seat request.partyNumber new)
  | added {new : SigningPartyInfo} :
      r.lastStage = .signup → r.memberInfo.lookup request.partyNumber = none →
      Writes r (r.seat request.partyNumber new)
  | renewed {k : Nat} {new : SigningPartyInfo} :
      r.lastStage = .terminated →
      (∀ x ∈ r.memberInfo.values, timedOut env (clock.inactive x) x = true) →
      Writes r ((SigningRoom.fresh env k request.roomId (request.threshold + 1)).seat
        request.partyNumber new)

/-- The member is not timed out, whenever the request has it checked. -/
def Alive (info : SigningPartyInfo) : Prop :=
  timedOut env (clock.inactive info) info = false ∧ timedOut env clock.member info = false

/-- What a request that finds `r` leaves of it in `r'`. -/
structure LeavesSeats (r r' : SigningRoom) : Prop where
  /-- Only the holder of a live seat moves it, and only its ping. -/
  live : ∀ n info, r.memberInfo.lookup n = some info → Alive env clock info →
    r'.memberInfo.lookup n = some info ∨
      request.partyNumber = n ∧ request.partyUuid = info.partyId ∧
        r'.memberInfo.lookup n = some { info with lastPing := clock.ping }
  /-- A closed room with a live seat stays. -/
  closed : r.lastStage = .terminated →
    (∃ n info, r.memberInfo.lookup n = some info ∧
      timedOut env (clock.inactive info) info = false) → r' = r
  /-- The seats of the others stay, unless a dead closed room is replaced. -/
  others : (∀ n, n ≠ request.partyNumber → r'.memberInfo.lookup n = r.memberInfo.lookup n) ∨
    r.lastStage = .terminated ∧
      (∀ n info, r.memberInfo.lookup n = some info →
        timedOut env (clock.inactive info) info = true) ∧
      ∃ k info, r' = (SigningRoom.fresh env k request.roomId (request.threshold + 1)).seat
        request.partyNumber info

end

section

variable {env : Env} {clock : Clock} {request : PartySignupRequestBody} {r r' : SigningRoom}
  {after : Option SigningRoom} {k k' : Nat} {answer : SignupAnswer}

/-- A request leaves the room it found, or answers with a seat and writes it. -/
theorem Handles.writes (h : Handles env clock request (some r) k after k' answer) :
    after = some r ∨
      ∃ r' s, after = some r' ∧ answer = .ok s ∧ Writes env clock request r r' := by
  cases h with
  | informed => exact Or.inl rfl
  | turnedAway => exact Or.inl rfl
  | full => exact Or.inl rfl
  | unknownUuid => exact Or.inl rfl
  | stillActive => exact Or.inl rfl
  | pinged hopen _ hl hid hr' _ =>
      cases hopen with
      | stored hs =>
          refine Or.inr ⟨_, _, rfl, rfl, .pinged hs hl hid ?_⟩
          rw [hr', SigningRoom.settle_memberInfo]
      | renewed => cases hl
  | replaced hopen _ hl hold =>
      cases hopen with
      | stored hs => exact Or.inr ⟨_, _, rfl, rfl, .replaced hs hl hold⟩
      | renewed => cases hl
  | added hopen _ hl _ =>
      cases hopen with
      | stored hs => exact Or.inr ⟨_, _, rfl, rfl, .added hs hl⟩
      | renewed hterm _ _ hall => exact Or.inr ⟨_, _, rfl, rfl, .renewed hterm hall⟩

theorem LeavesSeats.refl (env : Env) (clock : Clock) (request : PartySignupRequestBody)
    (r : SigningRoom) : LeavesSeats env clock request r r where
  live := fun _ _ hl _ => Or.inl hl
  closed := fun _ _ => rfl
  others := Or.inl fun _ _ => rfl

/-- A request that writes leaves the seats of the others, and the live ones. -/
theorem Writes.leavesSeats (h : Writes env clock request r r') :
    LeavesSeats env clock request r r' := by
  have hother : ∀ (new : SigningPartyInfo) n, n ≠ request.partyNumber →
      (r.seat request.partyNumber new).memberInfo.lookup n = r.memberInfo.lookup n :=
    fun _ _ hn => AList.lookup_insert_ne hn
  have hsame : ∀ {old info : SigningPartyInfo},
      r.memberInfo.lookup request.partyNumber = some old →
      r.memberInfo.lookup request.partyNumber = some info → old = info :=
    fun hold hl => Option.some.inj (hold.symm.trans hl)
  have hopened : r.lastStage = .signup → r.lastStage ≠ .terminated := fun hs hterm => by
    rw [hs] at hterm
    cases hterm
  cases h with
  | @pinged _ info hs hown hid hr' =>
      refine ⟨fun n info' hl _ => ?_, fun hterm => absurd hterm (hopened hs), Or.inl fun n hn => ?_⟩
      · by_cases hn : n = request.partyNumber
        · subst hn
          obtain rfl := hsame hown hl
          refine Or.inr ⟨rfl, hid.symm, ?_⟩
          rw [hr']
          exact AList.lookup_insert _
        · exact Or.inl (by rw [hr', hother _ n hn, hl])
      · rw [hr', hother _ n hn]
  | @replaced old new hs hown hout =>
      refine ⟨fun n info hl hlive => ?_, fun hterm => absurd hterm (hopened hs),
        Or.inl (hother new)⟩
      by_cases hn : n = request.partyNumber
      · subst hn
        obtain rfl := hsame hown hl
        exact absurd hout (Bool.eq_false_iff.mp hlive.2)
      · exact Or.inl ((hother new n hn).trans hl)
  | @added new hs hnone =>
      refine ⟨fun n info hl _ => ?_, fun hterm => absurd hterm (hopened hs), Or.inl (hother new)⟩
      by_cases hn : n = request.partyNumber
      · subst hn
        rw [hnone] at hl
        cases hl
      · exact Or.inl ((hother new n hn).trans hl)
  | @renewed j new hterm hall =>
      have hdead : ∀ n info, r.memberInfo.lookup n = some info →
          timedOut env (clock.inactive info) info = true :=
        fun n info hl => hall info (mem_values_of_lookup hl)
      refine ⟨fun n info hl hlive => ?_, fun _ hex => ?_, Or.inr ⟨hterm, hdead, j, new, rfl⟩⟩
      · exact absurd (hdead n info hl) (Bool.eq_false_iff.mp hlive.1)
      · obtain ⟨n, info, hl, hlive⟩ := hex
        exact absurd (hdead n info hl) (Bool.eq_false_iff.mp hlive)

/-- An error leaves the room. -/
theorem Handles.error_after {before : Option SigningRoom} {e : ManagerError}
    (h : Handles env clock request before k after k' (.error e)) : after = before := by
  cases h with
  | turnedAway => rfl
  | full => rfl
  | unknownUuid => rfl
  | stillActive => rfl

theorem Handles.leavesSeats (h : Handles env clock request (some r) k after k' answer) :
    ∃ r', after = some r' ∧ LeavesSeats env clock request r r' := by
  rcases h.writes with rfl | ⟨r', s, rfl, rfl, hw⟩
  · exact ⟨r, rfl, .refl env clock request r⟩
  · exact ⟨r', rfl, hw.leavesSeats⟩

end

/-- Whatever the manager has stored and whenever a request comes, an answer with an
error leaves all rooms, a panic leaves the store, and otherwise only the holder of
a live seat moves it. -/
theorem seats_left_alone (env : Env) (json : Codec SigningRoom) (m : ManagerState) (clock : Clock)
    (request : PartySignupRequestBody) :
    (∀ e, (serve env json m clock request).2 = .ok (.error e) →
      ∀ key, roomAt json (serve env json m clock request).1.db key = roomAt json m.db key) ∧
    (∀ p, (serve env json m clock request).2 = .error p →
      (serve env json m clock request).1.db = m.db) ∧
    (∀ key, key ≠ signKey request → (serve env json m clock request).1.db key = m.db key) ∧
    ∀ r, roomAt json m.db (signKey request) = some r →
      ∃ r', roomAt json (serve env json m clock request).1.db (signKey request) = some r' ∧
        LeavesSeats env clock request r r' := by
  rcases serve_cases env json m clock request with ⟨p, hp, hdb, _⟩ | ⟨answer, ha, hh, hother⟩
  · have hanswer : (serve env json m clock request).2 = .error p := hp
    refine ⟨fun e he => ?_, fun _ _ => hdb, fun _ _ => by rw [hdb], fun r hr => ?_⟩
    · rw [hanswer] at he
      cases he
    · exact ⟨r, by rw [hdb, hr], .refl env clock request r⟩
  · have hanswer : (serve env json m clock request).2 = .ok answer := ha
    refine ⟨fun e he key => ?_, fun p hp => ?_, hother, fun r hr => ?_⟩
    · obtain rfl := Except.ok.inj (hanswer.symm.trans he)
      by_cases hkey : key = signKey request
      · rw [hkey]
        exact hh.error_after
      · rw [roomAt_congr (hother key hkey)]
    · rw [hanswer] at hp
      cases hp
    · have hbefore : (recordOf env json m clock request).before = some r := hr
      rw [hbefore] at hh
      exact hh.leavesSeats

end TssCli
