import Naos.Capability.Transfer

/-!
# Invocations

A call through a protocol endpoint or a kernel view is an invocation.  Its state is
shared by the caller, who holds the invocation object, by the receiver, who holds the
responder object, and by the timer and the kernel worker; each of them changes it under
one lock.  The definitions here are those locked sections.  A section returns the new
state, a value, and whether the section ends with a wake-up of the waiters.
-/

namespace Naos.Ipc

open Capability

/-- `na_signal_t`. -/
abbrev Signals := BitVec 64

def signalReadable : Signals := 1

def signalWritable : Signals := 2

def signalPeerClosed : Signals := 4

def signalCompleted : Signals := 16

def signalCancelRequested : Signals := 32

def signalIf (condition : Bool) (signal : Signals) : Signals := if condition then signal else 0

inductive Phase where
  | queued
  | receiving
  | dispatched
  | ready
  | consumed
  deriving DecidableEq, Repr, Inhabited

inductive Execution where
  | none
  | notDelivered
  | outcomeUnknown
  deriving DecidableEq, Repr, Inhabited

inductive Reason where
  | none
  | peerClosed
  | objectRevoked
  | operationDeadline
  | cancelRequested
  | requestDiscarded
  | responderAbandoned
  | brokerFailure
  | protocolViolation
  | unsupported
  deriving DecidableEq, Repr, Inhabited

/-- `invocation_state`.  A deadline of `none` is `no_deadline`. -/
structure InvocationState where
  phase : Phase := .queued
  operationDeadline : Option ℕ := none
  maxResponseBytes : ℕ := 65536
  maxResponseResources : ℕ := 64
  resultClaimed : Bool := false
  responderAlive : Bool := true
  clientClosed : Bool := false
  cancellationRequested : Bool := false
  resultBudgetReserved : Bool := false
  executionOutcome : Execution := .none
  outcomeReason : Reason := .none
  protocolError : ℤ := 0
  queueOwner : Option ℕ := none
  responseBytes : List (BitVec 8) := []
  responseResources : List TransferRecord := []
  deriving DecidableEq

/-- What a locked section leaves: the state, a value, and whether the waiters are woken
once the lock is released. -/
structure Section (α : Type) where
  state : InvocationState
  value : α
  wake : Bool := false

def validFailure : Execution → Reason → Bool
  | .notDelivered, .peerClosed | .notDelivered, .objectRevoked
  | .notDelivered, .operationDeadline | .notDelivered, .cancelRequested
  | .notDelivered, .requestDiscarded | .notDelivered, .responderAbandoned
  | .notDelivered, .protocolViolation | .notDelivered, .unsupported => true
  | .outcomeUnknown, .peerClosed | .outcomeUnknown, .objectRevoked
  | .outcomeUnknown, .operationDeadline | .outcomeUnknown, .cancelRequested
  | .outcomeUnknown, .responderAbandoned | .outcomeUnknown, .brokerFailure
  | .outcomeUnknown, .protocolViolation | .outcomeUnknown, .unsupported => true
  | _, _ => false

namespace InvocationState

variable (s : InvocationState)

def signals : Signals :=
  signalIf (s.phase == .ready || s.phase == .consumed) signalCompleted |||
  signalIf (s.clientClosed && s.phase != .consumed) signalPeerClosed |||
  signalIf (s.cancellationRequested && s.phase != .consumed) signalCancelRequested

def deadlinePassed (now : ℕ) : Bool :=
  match s.operationDeadline with
  | none => false
  | some d => decide (d ≤ now)

/-- The outcome is still open, and there is a client to publish it to. -/
def publishable : Bool := s.phase != .ready && s.phase != .consumed && !s.clientClosed

/-- `publish_locked_no_wake`: `none` where it answers `false`. -/
def publishLockedNoWake (outcome : Execution) (reason : Reason) (bytes : List (BitVec 8))
    (resources : List TransferRecord) (protocolError : ℤ) : Option InvocationState :=
  if s.publishable then
    some { s with
      phase := .ready
      executionOutcome := outcome
      outcomeReason := reason
      protocolError := if 0 < protocolError then -protocolError else protocolError
      responseBytes := bytes
      responseResources := resources }
  else none

/-- A section that only tries to publish an outcome without a payload. -/
def publishEmpty (outcome : Execution) (reason : Reason) : Section Bool :=
  match s.publishLockedNoWake outcome reason [] [] 0 with
  | some s' => { state := s', value := true, wake := true }
  | none => { state := s, value := false }

/-! ## The receiver -/

def beginReceive : Section Bool :=
  if s.phase ≠ .queued then { state := s, value := false }
  else if s.cancellationRequested || s.clientClosed || !s.responderAlive then
    let o := s.publishEmpty .notDelivered
      (if s.cancellationRequested then .cancelRequested else .responderAbandoned)
    { o with value := false }
  else { state := { s with phase := .receiving }, value := true }

/-- The locked part of `rollback_receive`; it answers whether `complete_not_delivered`
follows. -/
def rollbackReceive : Section Bool :=
  if s.phase ≠ .receiving then { state := s, value := false }
  else { state := { s with phase := .queued }, value := s.cancellationRequested }

def finishDispatch : Section Bool :=
  if s.phase ≠ .receiving then { state := s, value := false }
  else { state := { s with phase := .dispatched }, value := true }

def markDispatched : InvocationState :=
  if s.phase = .queued ∨ s.phase = .receiving then { s with phase := .dispatched } else s

def setQueueOwner (owner : ℕ) : InvocationState :=
  if s.phase = .queued then { s with queueOwner := some owner } else s

def clearQueueOwner : InvocationState := { s with queueOwner := none }

def executionInterrupted : Bool :=
  s.cancellationRequested || s.clientClosed || !s.responderAlive || s.phase == .ready ||
    s.phase == .consumed

/-! ## Completion -/

def completeReply (bytes : List (BitVec 8)) (resources : List TransferRecord)
    (protocolError : ℤ) : Section Bool :=
  match s.publishLockedNoWake .none .none bytes resources protocolError with
  | some s' => { state := s', value := true, wake := true }
  | none => { state := s, value := false }

def completeFailure (outcome : Execution) (reason : Reason) (protocolError : ℤ) : Section Bool :=
  if validFailure outcome reason then
    match s.publishLockedNoWake outcome reason [] [] protocolError with
    | some s' => { state := s', value := true, wake := true }
    | none => { state := s, value := false }
  else { state := s, value := false }

def completeNotDelivered (reason : Reason) : Section Bool :=
  s.completeFailure .notDelivered reason 0

def responseWithinLimits (bytes resources : ℕ) : Bool :=
  decide (bytes ≤ s.maxResponseBytes) && decide (resources ≤ s.maxResponseResources)

/-- The locked part of `cancel`.  `owned` says whether the invocation has a queue owner,
and `removed` whether the owner could take the request out of its queue; both are settled
while the lock is held.  A removal has woken the waiters already. -/
def cancel (owned removed : Bool) : Section Bool :=
  match s.phase with
  | .queued =>
    let s' := { s with cancellationRequested := true }
    if owned && !removed then { state := s', value := false, wake := true }
    else
      let o := s'.publishEmpty .notDelivered .cancelRequested
      { o with wake := !owned && o.wake }
  | .receiving | .dispatched =>
    { state := { s with cancellationRequested := true }, value := true, wake := true }
  | .ready | .consumed => { state := s, value := false }

/-- The locked section of `expire_deadline` after the request was taken out of the
queue. -/
def expireRemoved : Section Bool :=
  if s.phase = .queued then s.publishEmpty .notDelivered .operationDeadline
  else { state := s, value := false }

/-- The last locked section of `expire_deadline`. -/
def expireInPlace : Section Bool :=
  match s.phase with
  | .queued => s.publishEmpty .notDelivered .operationDeadline
  | .receiving | .dispatched =>
    { s with responderAlive := false }.publishEmpty .outcomeUnknown .operationDeadline
  | .ready | .consumed => { state := s, value := false }

/-! ## The capability hooks -/

/-- `close_client`: the value says whether a reserved result budget is given back. -/
def closeClient : Section Bool where
  state :=
    { s with
      clientClosed := true
      responseBytes := []
      responseResources := []
      resultBudgetReserved := false }
  value := s.resultBudgetReserved

def abandonResponder : Section Bool :=
  if s.responderAlive = false then { state := s, value := false }
  else
    let s' := { s with responderAlive := false }
    match s.phase with
    | .queued => s'.publishEmpty .notDelivered .responderAbandoned
    | .dispatched => s'.publishEmpty .outcomeUnknown .responderAbandoned
    | _ => { state := s', value := false }

def consumeResponder : Section Bool :=
  if s.responderAlive then { state := { s with responderAlive := false }, value := true }
  else { state := s, value := false }

/-! ## The caller -/

/-- `claim_result` for the capacities of a result frame: the status, and the response
where it is handed out.  The outcome of a missed deadline is published here too. -/
def claimResult (now byteCapacity resourceCapacity : ℕ) :
    Section (Status × List (BitVec 8) × List TransferRecord) :=
  if s.phase = .consumed then { state := s, value := (.alreadyConsumed, [], []) }
  else
    let expired := s.phase ≠ .ready ∧ s.deadlinePassed now = true
    let outcome : Execution := if s.phase = .dispatched then .outcomeUnknown else .notDelivered
    let s' := if expired then
        (s.publishLockedNoWake outcome .operationDeadline [] [] 0).getD s
      else s
    if s'.phase ≠ .ready then { state := s', value := (.wouldBlock, [], []) }
    else if s'.resultClaimed then { state := s', value := (.wouldBlock, [], []) }
    else if byteCapacity < s'.responseBytes.length ∨
        resourceCapacity < s'.responseResources.length then
      { state := s', value := (.bufferTooSmall, [], []) }
    else
      { state := { s' with resultClaimed := true, responseBytes := [], responseResources := [] }
        value := (.ok, s'.responseBytes, s'.responseResources) }

def restoreResult (bytes : List (BitVec 8)) (resources : List TransferRecord) :
    InvocationState :=
  if s.resultClaimed = false ∨ s.phase ≠ .ready then s
  else { s with resultClaimed := false, responseBytes := bytes, responseResources := resources }

/-- `commit_result`: the value is the status and whether a result budget is given back. -/
def commitResult : Section (Status × Bool) :=
  if s.resultClaimed = false ∨ s.phase ≠ .ready then
    { state := s
      value := (if s.phase = .consumed then .alreadyConsumed else .wouldBlock, false) }
  else
    { state :=
        { s with
          phase := .consumed
          resultClaimed := false
          responseBytes := []
          responseResources := []
          resultBudgetReserved := false }
      value := (.ok, s.resultBudgetReserved)
      wake := true }

end InvocationState

/-! ## What a section does -/

/-- What the sections do that complete a call or hand its result out. -/
inductive Edited (s : InvocationState) : InvocationState → Prop
  | same : Edited s s
  | publish (h : s.publishable = true) (outcome : Execution) (reason : Reason) (error : ℤ)
      (bytes : List (BitVec 8)) (resources : List TransferRecord) (claimed : Bool) :
      Edited s { s with
        phase := .ready
        executionOutcome := outcome
        outcomeReason := reason
        protocolError := error
        responseBytes := bytes
        responseResources := resources
        resultClaimed := claimed }
  | result (h : s.phase = .ready) (bytes : List (BitVec 8)) (resources : List TransferRecord)
      (claimed : Bool) :
      Edited s { s with
        resultClaimed := claimed, responseBytes := bytes, responseResources := resources }

namespace Edited

variable {s s' : InvocationState} {outcome : Execution} {reason : Reason}
  {bytes : List (BitVec 8)} {resources : List TransferRecord} {error : ℤ}

lemma publishLockedNoWake
    (h : s.publishLockedNoWake outcome reason bytes resources error = some s') : Edited s s' := by
  obtain ⟨hopen, rfl⟩ := Option.ite_some_none_eq_some.1 h
  exact .publish hopen _ _ _ _ _ s.resultClaimed

variable (s outcome reason bytes resources error)

lemma publishEmpty : Edited s (s.publishEmpty outcome reason).state := by
  rw [InvocationState.publishEmpty]
  split
  next h => exact publishLockedNoWake h
  · exact .same

lemma completeReply : Edited s (s.completeReply bytes resources error).state := by
  rw [InvocationState.completeReply]
  split
  next h => exact publishLockedNoWake h
  · exact .same

lemma completeFailure : Edited s (s.completeFailure outcome reason error).state := by
  rw [InvocationState.completeFailure]
  split
  · split
    next h => exact publishLockedNoWake h
    · exact .same
  · exact .same

lemma expireRemoved : Edited s s.expireRemoved.state := by
  rw [InvocationState.expireRemoved]
  split
  · exact publishEmpty s _ _
  · exact .same

lemma restoreResult : Edited s (s.restoreResult bytes resources) := by
  rw [InvocationState.restoreResult]
  split
  · exact .same
  next h =>
    rw [not_or, not_not] at h
    exact .result h.2 _ _ _

lemma claimResult (now bytes resources : ℕ) :
    Edited s (s.claimResult now bytes resources).state := by
  rw [InvocationState.claimResult]
  split
  · exact .same
  dsimp only
  -- The claim follows on a missed deadline, or on nothing.
  generalize hs : (if s.phase ≠ .ready ∧ s.deadlinePassed now = true then _ else s) = s₁
  have hfirst : Edited s s₁ ∧ (s₁.phase = .ready → Edited s
      { s₁ with resultClaimed := true, responseBytes := [], responseResources := [] }) := by
    subst hs
    split
    · rw [InvocationState.publishLockedNoWake]
      split
      next hopen =>
        exact ⟨.publish hopen _ _ _ _ _ s.resultClaimed, fun _ => .publish hopen _ _ _ _ _ true⟩
      · exact ⟨.same, fun hready => .result hready _ _ _⟩
    · exact ⟨.same, fun hready => .result hready _ _ _⟩
  iterate 3
    split
    · exact hfirst.1
  next hready _ _ => exact hfirst.2 (not_not.1 hready)

end Edited

/-- The same for the sections after which the responder may have come to its end. -/
def Ended (s s' : InvocationState) : Prop :=
  ∃ alive, Edited { s with responderAlive := alive } s'

namespace Ended

lemma expireInPlace (s : InvocationState) : Ended s s.expireInPlace.state := by
  rw [InvocationState.expireInPlace]
  split
  · exact ⟨s.responderAlive, .publishEmpty s _ _⟩
  · exact ⟨false, .publishEmpty _ _ _⟩
  · exact ⟨false, .publishEmpty _ _ _⟩
  · exact ⟨s.responderAlive, .same⟩
  · exact ⟨s.responderAlive, .same⟩

lemma abandonResponder (s : InvocationState) : Ended s s.abandonResponder.state := by
  rw [InvocationState.abandonResponder]
  split
  · exact ⟨s.responderAlive, .same⟩
  dsimp only
  split
  · exact ⟨false, .publishEmpty _ _ _⟩
  · exact ⟨false, .publishEmpty _ _ _⟩
  · exact ⟨false, .same⟩

lemma consumeResponder (s : InvocationState) : Ended s s.consumeResponder.state := by
  rw [InvocationState.consumeResponder]
  split
  · exact ⟨false, .same⟩
  · exact ⟨s.responderAlive, .same⟩

end Ended

end Naos.Ipc
