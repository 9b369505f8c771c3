import TssCli.Common.Manager

/-!
# The client's sign-up for a signing

`signup` posts a fresh request, and then polls with the party UUID of the first
answer until an answer carries a room UUID.  It returns the order and the room
UUID of the last answer, and the number of members that answer counted.

The call is a state machine over the answers: `SignupCall.request` is what it
posts next and `SignupCall.receive` what it does with the answer.  Whether the
client's own timeout has run out by then is an input, `late`.
-/

namespace TssCli

/-- The arguments of `signup`. -/
structure SignupArgs where
  params : Params
  roomId : String
  partyId : UInt16
  curveName : String

/-- The local variables of the polling loop. -/
structure Polling where
  request : PartySignupRequestBody
  partyUuid : String
  lastTotalJoined : UInt16
  partySignup : PartySignup
deriving DecidableEq

/-- Where a call of `signup` stands. -/
inductive SignupCall where
  /-- Before the first post. -/
  | first (request : PartySignupRequestBody)
  /-- In the loop, before a post. -/
  | polling (loop : Polling)
  | returned (partySignup : PartySignup) (totalParties : UInt16)
  | panicked
deriving DecidableEq

/-- `signup`, up to its first post. -/
def signup (args : SignupArgs) : SignupCall :=
  match parseU16 args.params.threshold with
  | .ok threshold =>
      .first { threshold, roomId := args.roomId, partyNumber := args.partyId, partyUuid := "",
               curveName := args.curveName }
  | .error _ => .panicked

/-- What the call posts next. -/
def SignupCall.request : SignupCall → Option PartySignupRequestBody
  | .first request => some request
  | .polling loop => some { loop.request with partyUuid := loop.partyUuid }
  | .returned _ _ => none
  | .panicked => none

/-- The assignments of the loop's body. -/
def Polling.update (loop : Polling) (s : SigningPartySignup) : Polling where
  request := { loop.request with partyUuid := s.partyUuid }
  partyUuid := loop.partyUuid
  lastTotalJoined :=
    if s.totalJoined ≠ loop.lastTotalJoined then s.totalJoined else loop.lastTotalJoined
  partySignup :=
    { number := if loop.partySignup.number ≠ s.partyOrder then s.partyOrder
        else loop.partySignup.number,
      uuid := s.roomUuid }

/-- The loop's condition, after the `break` of a late client. -/
def Polling.next (loop : Polling) (late : Bool) : SignupCall :=
  if loop.partySignup.uuid.isEmpty then if late then .panicked else .polling loop
  else .returned loop.partySignup loop.lastTotalJoined

/-- The call takes the answer to its post.  An error, or no answer at all, is a
panic. -/
def SignupCall.receive (late : Bool) (call : SignupCall) (answer : Except Panic SignupAnswer) :
    SignupCall :=
  match call, answer with
  | .first request, .ok (.ok s) =>
      Polling.next
        { request, partyUuid := s.partyUuid, lastTotalJoined := s.totalJoined,
          partySignup := { number := s.partyOrder, uuid := s.roomUuid } } false
  | .polling loop, .ok (.ok s) => (loop.update s).next late
  | _, _ => .panicked

section

variable {loop : Polling} {late : Bool} {call : SignupCall} {answer : Except Panic SignupAnswer}
  {p : PartySignup} {n : UInt16}

theorem Polling.update_eq (loop : Polling) (s : SigningPartySignup) :
    (loop.update s).lastTotalJoined = s.totalJoined ∧
      (loop.update s).partySignup = ⟨s.partyOrder, s.roomUuid⟩ := by
  unfold Polling.update
  constructor
  · dsimp only
    split
    next => rfl
    next h => exact (not_not.mp h).symm
  · dsimp only
    split
    next => rfl
    next h => rw [not_not.mp h]

theorem Polling.next_returned (h : loop.next late = .returned p n) :
    p = loop.partySignup ∧ n = loop.lastTotalJoined ∧ p.uuid ≠ "" := by
  unfold Polling.next at h
  split at h
  next => split at h <;> cases h
  next hne =>
    obtain ⟨rfl, rfl⟩ := SignupCall.returned.inj h
    refine ⟨rfl, rfl, fun he => hne ?_⟩
    rw [he]
    rfl

/-- A call returns with the order, the room UUID and the count of one answer. -/
theorem SignupCall.receive_returned (h : call.receive late answer = .returned p n) :
    ∃ s, answer = .ok (.ok s) ∧ p = ⟨s.partyOrder, s.roomUuid⟩ ∧ n = s.totalJoined ∧
      s.roomUuid ≠ "" := by
  unfold SignupCall.receive at h
  split at h
  next request s =>
    obtain ⟨rfl, rfl, hne⟩ := Polling.next_returned h
    exact ⟨s, rfl, rfl, rfl, hne⟩
  next loop s =>
    obtain ⟨rfl, rfl, hne⟩ := Polling.next_returned h
    obtain ⟨htotal, hsignup⟩ := loop.update_eq s
    rw [hsignup] at hne
    exact ⟨s, rfl, hsignup, htotal, hne⟩
  next => cases h

theorem signup_ne_returned (args : SignupArgs) : signup args ≠ .returned p n := by
  unfold signup
  split <;> exact fun h => by cases h

end

end TssCli
