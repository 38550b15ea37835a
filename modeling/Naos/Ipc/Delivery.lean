import Naos.Ipc.Invocation
import Naos.Lib.Transition

/-!
# What "not delivered" promises

An invocation that ends with `NA_EXECUTION_NOT_DELIVERED` may be repeated by the caller:
nobody has seen the request and nobody will.  This module follows one invocation, and the
request that belongs to it, through every locked section that can touch either of them,
in any order: submission, the claims of `receive_protocol`, the kernel worker,
cancellation, the deadline, the closing of the server end, and `take_result`.

One section breaks the promise.  `claim_result` reports a missed deadline as "not
delivered" in every phase but `dispatched`, and the kernel worker has a window between
`begin_receive` and `mark_dispatched` in which the phase is `receiving`.  The worker does
not look at the phase again, so it runs the method of a call that was reported as not
delivered.
-/

namespace Naos.Ipc

open Capability Transition InvocationState

/-- Which way a request takes: to the queue of a protocol, or to the kernel worker. -/
inductive Route where
  | protocol
  | kernel
  deriving DecidableEq, Repr

inductive Stage where
  /-- `invoke_submit` has not put it into a queue yet. -/
  | submitting
  | waiting
  /-- At the head of the queue and claimed by a `receive_protocol`. -/
  | claimed
  /-- After `begin_receive`. -/
  | receiving
  /-- `rollback_receive` has found a cancellation and is about to publish it. -/
  | rolledBack
  /-- After `finish_dispatch`. -/
  | finishing
  /-- `receive_protocol` has returned `NA_STATUS_OK`. -/
  | returned
  /-- Taken out of the queue by `close_server_queue`. -/
  | discarded
  /-- Taken out of the queue by `expire_deadline`. -/
  | expired
  | pending
  /-- The worker is after `begin_receive`. -/
  | kernelBegun
  /-- The worker is after `mark_dispatched` and decodes the request. -/
  | decoding
  | executing
  | dropped
  deriving DecidableEq, Repr

/-- An invocation and its request.  `notDelivered` records that a section of the kernel
itself has published "not delivered"; what a receiver says through its responder does not
count. -/
structure Delivery where
  inv : InvocationState := {}
  route : Route := .protocol
  stage : Stage := .submitting
  notDelivered : Bool := false
  deriving DecidableEq

def newlyNotDelivered (s s' : InvocationState) : Bool :=
  s.phase != .ready && s.phase != .consumed && s'.phase == .ready &&
    s'.executionOutcome == .notDelivered

inductive DeliveryAction where
  /-- The end of `invoke_submit`: the queue takes the request or refuses it. -/
  | submit (accepted : Bool)
  /-- The end of `enqueue` for an invocation that was completed meanwhile. -/
  | removeCompleted
  | claim
  | cancelClaim
  /-- `receive_protocol` finds the invocation completed. -/
  | dropCompleted
  /-- `receive_protocol` finds the request malformed. -/
  | violation
  | beginReceive
  | rollbackReceive
  | completeRollback
  | finishDispatch
  | commitClaim (held : Bool)
  | closeServer
  | completeDiscarded
  | expireRemove (now : ℕ)
  | expireRemoved
  | expireInPlace (now : ℕ)
  /-- `cancel`, with the owner of the queue as an argument or without. -/
  | cancel (given : Bool)
  | kernelBegin
  | kernelNoCaller
  | kernelMark
  | kernelReject
  | kernelRefuse (error : ℤ)
  | kernelExecute
  /-- `complete_reply` by the handler or after it. -/
  | kernelReply (bytes : List (BitVec 8)) (resources : List TransferRecord) (error : ℤ)
  /-- `execute_kernel_dispatch` finds a cancellation after the handler. -/
  | kernelCancelled
  | abandonResponder
  | consumeResponder
  | closeClient
  /-- `responder_reply` and `responder_fail`. -/
  | reply (bytes : List (BitVec 8)) (resources : List TransferRecord)
  | fail (outcome : Execution) (reason : Reason) (error : ℤ)
  | claimResult (now byteCapacity resourceCapacity : ℕ)
  | restoreResult (bytes : List (BitVec 8)) (resources : List TransferRecord)
  | commitResult

namespace Delivery

variable (d : Delivery)

def publish (s : InvocationState) : Delivery :=
  { d with inv := s, notDelivered := d.notDelivered || newlyNotDelivered d.inv s }

def moveTo (stage : Stage) : Delivery := { d with stage := stage }

def advance (source target : Stage) : Option Delivery :=
  if d.stage = source then some (d.moveTo target) else none

/-- A section of the kernel that is run in one place and leaves the request in another. -/
def advanceWith (source target : Stage) (s : InvocationState) : Option Delivery :=
  if d.stage = source then some ((d.publish s).moveTo target) else none

/-- The invocation is completed: its signals have `NA_SIGNAL_COMPLETED`. -/
def completed : Bool := d.inv.phase == .ready || d.inv.phase == .consumed

/-- `cancel`: a request that waits in the queue of its owner is taken out. -/
def cancel (given : Bool) : Delivery :=
  let owned := given || d.inv.queueOwner.isSome
  let removed := owned && d.stage == .waiting && d.inv.phase == .queued
  let s := (d.inv.cancel owned removed).state
  if removed then (d.publish s.clearQueueOwner).moveTo .dropped else d.publish s

def step : DeliveryAction → Option Delivery
  | .submit accepted =>
    d.advance .submitting
      (if accepted then (if d.route = .kernel then .pending else .waiting) else .dropped)
  | .removeCompleted =>
    if d.completed then d.advanceWith .waiting .dropped d.inv.clearQueueOwner else none
  | .claim => d.advance .waiting .claimed
  | .cancelClaim => d.advance .claimed .waiting
  | .dropCompleted => if d.completed then d.advance .claimed .dropped else none
  | .violation =>
    d.advanceWith .claimed .dropped (d.inv.completeFailure .notDelivered .protocolViolation 0).state
  | .beginReceive =>
    d.advanceWith .claimed (if d.inv.beginReceive.value then .receiving else .dropped)
      d.inv.beginReceive.state
  | .rollbackReceive =>
    d.advanceWith .receiving (if d.inv.rollbackReceive.value then .rolledBack else .claimed)
      d.inv.rollbackReceive.state
  | .completeRollback =>
    d.advanceWith .rolledBack .claimed (d.inv.completeNotDelivered .cancelRequested).state
  | .finishDispatch =>
    d.advanceWith .receiving (if d.inv.finishDispatch.value then .finishing else .dropped)
      d.inv.finishDispatch.state
  | .commitClaim held =>
    if held then d.advance .finishing .returned
    else
      d.advanceWith .finishing .dropped
        (d.inv.completeFailure .outcomeUnknown .brokerFailure 0).state
  | .closeServer => d.advanceWith .waiting .discarded d.inv.clearQueueOwner
  | .completeDiscarded =>
    d.advanceWith .discarded .dropped (d.inv.completeNotDelivered .peerClosed).state
  | .expireRemove now =>
    if d.inv.deadlinePassed now && d.inv.queueOwner.isSome then
      d.advanceWith .waiting .expired d.inv.clearQueueOwner
    else none
  | .expireRemoved => d.advanceWith .expired .dropped d.inv.expireRemoved.state
  | .expireInPlace now =>
    if d.inv.deadlinePassed now then some (d.publish d.inv.expireInPlace.state) else none
  | .cancel given => some (d.cancel given)
  | .kernelBegin =>
    d.advanceWith .pending (if d.inv.beginReceive.value then .kernelBegun else .dropped)
      d.inv.beginReceive.state
  | .kernelNoCaller =>
    d.advanceWith .kernelBegun .dropped (d.inv.completeReply [] [] 10).state
  | .kernelMark => d.advanceWith .kernelBegun .decoding d.inv.markDispatched
  | .kernelReject =>
    d.advanceWith .decoding .dropped
      (d.inv.completeFailure .notDelivered .protocolViolation 0).state
  | .kernelRefuse error =>
    d.advanceWith .decoding .dropped (d.inv.completeReply [] [] error).state
  | .kernelExecute => d.advance .decoding .executing
  | .kernelReply bytes resources error =>
    d.advanceWith .executing .executing (d.inv.completeReply bytes resources error).state
  | .kernelCancelled =>
    if d.inv.cancellationRequested then
      d.advanceWith .executing .executing
        (d.inv.completeFailure .outcomeUnknown .cancelRequested 0).state
    else none
  | .abandonResponder => some (d.publish d.inv.abandonResponder.state)
  | .consumeResponder => some (d.publish d.inv.consumeResponder.state)
  | .closeClient => some (d.publish d.inv.closeClient.state)
  | .reply bytes resources => some { d with inv := (d.inv.completeReply bytes resources 0).state }
  | .fail outcome reason error =>
    some { d with inv := (d.inv.completeFailure outcome reason error).state }
  | .claimResult now bytes resources =>
    some (d.publish (d.inv.claimResult now bytes resources).state)
  | .restoreResult bytes resources => some (d.publish (d.inv.restoreResult bytes resources))
  | .commitResult => some (d.publish d.inv.commitResult.state)

end Delivery

/-- **"Not delivered" is sound**: a call the kernel has reported as not delivered has not
been returned by `receive_protocol` and its method has not been run. -/
def DeliverySound (d : Delivery) : Prop :=
  d.notDelivered = true → d.stage ≠ .returned ∧ d.stage ≠ .executing

/-- The caller does not ask for the result of an expired call while the kernel worker is
between `begin_receive` and `mark_dispatched`. -/
def DeliveryAction.timely (d : Delivery) : DeliveryAction → Bool
  | .claimResult now _ _ =>
    !(d.stage == .kernelBegun && d.inv.phase == .receiving && d.inv.deadlinePassed now)
  | _ => true

/-- The state right after an invocation was created: the method has a deadline or not, and
a protocol is recorded as the owner of the queue. -/
def submitted (route : Route) (deadline : Option ℕ) (owner : ℕ) : Delivery where
  inv :=
    { operationDeadline := deadline
      queueOwner := if route = .protocol then some owner else none }
  route := route

/-! ## What a section can do to the phase -/

section Phases

variable {s : InvocationState}

def InvocationState.Settled (s : InvocationState) : Prop := s.phase = .ready ∨ s.phase = .consumed

def Later (s s' : InvocationState) : Prop := s'.phase = s.phase ∨ s'.Settled

lemma Later.refl (s : InvocationState) : Later s s := .inl rfl

variable {s' : InvocationState} {outcome : Execution} {now : ℕ}

lemma Later.of_edited (h : Edited s s') : Later s s' := by
  cases h with
  | same | result => exact .inl rfl
  | publish => exact .inr (.inl rfl)

lemma Later.settled (h : Later s s') (hs : s.Settled) : s'.Settled := by
  rcases h with h | h
  · rw [InvocationState.Settled, h]
    exact hs
  · exact h

lemma Later.phase_eq (h : Later s s') {p : Phase} (hp : s'.phase = p) (hr : p ≠ .ready)
    (hc : p ≠ .consumed) : s.phase = p := by
  rcases h with heq | hs | hs
  · exact heq.symm.trans hp
  · exact absurd (hp.symm.trans hs) hr
  · exact absurd (hp.symm.trans hs) hc

lemma settled_clearQueueOwner (h : s.Settled) : s.clearQueueOwner.Settled := h

lemma settled_of_newly (h : newlyNotDelivered s s' = true) : s'.Settled := by
  simp only [newlyNotDelivered, Bool.and_eq_true, beq_iff_eq] at h
  exact .inl h.1.2

lemma not_settled_of_newly (h : newlyNotDelivered s s' = true) : ¬ s.Settled := by
  simp only [newlyNotDelivered, Bool.and_eq_true, bne_iff_ne] at h
  rintro (hs | hs)
  · exact h.1.1.1 hs
  · exact h.1.1.2 hs

lemma not_newly_of_phase_eq (h : s'.phase = s.phase) : newlyNotDelivered s s' = false := by
  rw [newlyNotDelivered, h]
  cases s.phase <;> rfl

lemma publishLockedNoWake_eq_some {reason : Reason} {bytes : List (BitVec 8)}
    {resources : List TransferRecord} {error : ℤ}
    (h : s.publishLockedNoWake outcome reason bytes resources error = some s') :
    s'.phase = .ready ∧ s'.executionOutcome = outcome := by
  rw [publishLockedNoWake] at h
  split at h
  · cases h
    exact ⟨rfl, rfl⟩
  · simp at h

lemma later_publishEmpty (s : InvocationState) (outcome : Execution) (reason : Reason) :
    Later s (s.publishEmpty outcome reason).state :=
  .of_edited (.publishEmpty s outcome reason)

lemma not_newly_publishEmpty (h : outcome ≠ .notDelivered) (s : InvocationState) (reason : Reason) :
    newlyNotDelivered s (s.publishEmpty outcome reason).state = false := by
  rw [publishEmpty]
  split
  next hpub =>
    rw [newlyNotDelivered, (publishLockedNoWake_eq_some hpub).2]
    simp [h]
  · exact not_newly_of_phase_eq rfl

lemma not_newly_completeReply (s : InvocationState) (bytes : List (BitVec 8))
    (resources : List TransferRecord) (error : ℤ) :
    newlyNotDelivered s (s.completeReply bytes resources error).state = false := by
  rw [completeReply]
  split
  next h =>
    rw [newlyNotDelivered, (publishLockedNoWake_eq_some h).2]
    simp
  · exact not_newly_of_phase_eq rfl

lemma not_newly_completeFailure (h : outcome ≠ .notDelivered) (s : InvocationState)
    (reason : Reason) (error : ℤ) :
    newlyNotDelivered s (s.completeFailure outcome reason error).state = false := by
  rw [completeFailure]
  split
  · split
    next hpub =>
      rw [newlyNotDelivered, (publishLockedNoWake_eq_some hpub).2]
      simp [h]
    · exact not_newly_of_phase_eq rfl
  · exact not_newly_of_phase_eq rfl

/-- A section that anybody may run at any time: it keeps the phase or settles the
invocation, and it publishes "not delivered" only in the phase `queued`. -/
structure Harmless (s s' : InvocationState) : Prop where
  later : Later s s'
  queued : newlyNotDelivered s s' = true → s.phase = .queued

lemma Harmless.of_phase_eq (h : s'.phase = s.phase) : Harmless s s' where
  later := .inl h
  queued := by
    intro hnew
    rw [not_newly_of_phase_eq h] at hnew
    exact absurd hnew Bool.false_ne_true

lemma Harmless.of_not_newly (hl : Later s s') (hn : newlyNotDelivered s s' = false) :
    Harmless s s' where
  later := hl
  queued := by
    intro hnew
    rw [hn] at hnew
    exact absurd hnew Bool.false_ne_true

variable (s)

lemma harmless_cancel (owned removed : Bool) :
    Harmless s (s.cancel owned removed).state := by
  rw [cancel]
  split
  next hphase =>
    split
    · exact .of_phase_eq rfl
    · exact ⟨later_publishEmpty { s with cancellationRequested := true } _ _, fun _ => hphase⟩
  · exact .of_phase_eq rfl
  · exact .of_phase_eq rfl
  · exact .of_phase_eq rfl
  · exact .of_phase_eq rfl

lemma harmless_expireInPlace : Harmless s s.expireInPlace.state := by
  have hunknown : Harmless s
      ({ s with responderAlive := false }.publishEmpty .outcomeUnknown .operationDeadline).state :=
    .of_not_newly (later_publishEmpty { s with responderAlive := false } _ _)
      (not_newly_publishEmpty (by decide) { s with responderAlive := false } _)
  rw [expireInPlace]
  split
  next hphase => exact ⟨later_publishEmpty s _ _, fun _ => hphase⟩
  · exact hunknown
  · exact hunknown
  · exact .of_phase_eq rfl
  · exact .of_phase_eq rfl

lemma harmless_expireRemoved : Harmless s s.expireRemoved.state := by
  rw [expireRemoved]
  split
  next hphase => exact ⟨later_publishEmpty s _ _, fun _ => hphase⟩
  · exact .of_phase_eq rfl

lemma harmless_abandonResponder : Harmless s s.abandonResponder.state := by
  rw [abandonResponder]
  split
  · exact .of_phase_eq rfl
  split
  next hphase => exact ⟨later_publishEmpty { s with responderAlive := false } _ _, fun _ => hphase⟩
  · exact .of_not_newly (later_publishEmpty { s with responderAlive := false } _ _)
      (not_newly_publishEmpty (by decide) { s with responderAlive := false } _)
  · exact .of_phase_eq rfl

lemma harmless_consumeResponder : Harmless s s.consumeResponder.state := by
  rw [consumeResponder]
  split <;> exact .of_phase_eq rfl

lemma harmless_restoreResult (bytes : List (BitVec 8))
    (resources : List TransferRecord) : Harmless s (s.restoreResult bytes resources) := by
  rw [restoreResult]
  split <;> exact .of_phase_eq rfl

lemma harmless_commitResult : Harmless s s.commitResult.state := by
  rw [commitResult]
  split
  · exact .of_phase_eq rfl
  · exact .of_not_newly (.inr (.inr rfl)) (by simp [newlyNotDelivered])

variable {s}

/-- `claim_result` reports a missed deadline, unless the invocation is settled. -/
def InvocationState.afterDeadline (s : InvocationState) (now : ℕ) : InvocationState :=
  if s.phase ≠ .ready ∧ s.deadlinePassed now = true then
    (s.publishLockedNoWake (if s.phase = .dispatched then .outcomeUnknown else .notDelivered)
      .operationDeadline [] [] 0).getD s
  else s

lemma claimResult_phase (h : s.phase ≠ .consumed) (bytes resources : ℕ) :
    (s.claimResult now bytes resources).state.phase = (s.afterDeadline now).phase ∧
      (s.claimResult now bytes resources).state.executionOutcome
        = (s.afterDeadline now).executionOutcome := by
  rw [claimResult, if_neg h]
  dsimp only
  rw [← afterDeadline]
  generalize s.afterDeadline now = s'
  split
  · exact ⟨rfl, rfl⟩
  split
  · exact ⟨rfl, rfl⟩
  split <;> exact ⟨rfl, rfl⟩

lemma newly_afterDeadline (h : newlyNotDelivered s (s.afterDeadline now) = true) :
    (s.phase = .queued ∨ s.phase = .receiving) ∧ s.deadlinePassed now = true := by
  have hopen := not_settled_of_newly h
  rw [afterDeadline] at h
  split at h
  next hexp =>
    refine ⟨?_, hexp.2⟩
    cases hphase : s.phase with
    | queued => exact .inl rfl
    | receiving => exact .inr rfl
    | dispatched =>
      rw [if_pos hphase] at h
      cases hpub : s.publishLockedNoWake .outcomeUnknown .operationDeadline [] [] 0 with
      | none =>
        rw [hpub, Option.getD_none, not_newly_of_phase_eq rfl] at h
        exact absurd h Bool.false_ne_true
      | some s' =>
        rw [hpub, Option.getD_some, newlyNotDelivered, (publishLockedNoWake_eq_some hpub).2] at h
        simp at h
    | ready => exact absurd (.inl hphase) hopen
    | consumed => exact absurd (.inr hphase) hopen
  · rw [not_newly_of_phase_eq rfl] at h
    exact absurd h Bool.false_ne_true

lemma newly_claimResult {bytes resources : ℕ}
    (h : newlyNotDelivered s (s.claimResult now bytes resources).state = true) :
    (s.phase = .queued ∨ s.phase = .receiving) ∧ s.deadlinePassed now = true := by
  by_cases hc : s.phase = .consumed
  · exact absurd (.inr hc) (not_settled_of_newly h)
  · obtain ⟨hphase, houtcome⟩ := claimResult_phase hc bytes resources
    rw [newlyNotDelivered, hphase, houtcome, ← newlyNotDelivered] at h
    exact newly_afterDeadline h

end Phases

/-! ## The invariant -/

/-- The request is with a receiver, or about to be, and nobody asks for its phase any
more. -/
def Stage.committed : Stage → Bool
  | .finishing | .returned | .decoding | .executing => true
  | _ => false

/-- What holds between the phase and the place of the request. -/
structure Delivery.Inv (d : Delivery) : Prop where
  settled : d.notDelivered = true → d.inv.Settled
  undelivered : d.notDelivered = true → d.stage.committed = false ∧ d.stage ≠ .kernelBegun
  committed : d.stage.committed = true → d.inv.phase ≠ .queued ∧ d.inv.phase ≠ .receiving
  begun : d.stage = .kernelBegun → d.inv.phase ≠ .queued

namespace Delivery

variable {d : Delivery} {s : InvocationState}

lemma inv_submitted (route : Route) (deadline : Option ℕ) (owner : ℕ) :
    (submitted route deadline owner).Inv where
  settled := by simp [submitted]
  undelivered := by simp [submitted]
  committed := by simp [submitted, Stage.committed]
  begun := by simp [submitted]

/-- The stage stays, and the phase goes on. -/
lemma Inv.later (h : d.Inv) {reported : Bool} (hlater : Later d.inv s)
    (hnd : reported = true → d.notDelivered = true ∨
      s.Settled ∧ d.stage.committed = false ∧ d.stage ≠ .kernelBegun) :
    { d with inv := s, notDelivered := reported }.Inv where
  settled hr := (hnd hr).elim (fun hold => hlater.settled (h.settled hold)) fun hnew => hnew.1
  undelivered hr := (hnd hr).elim h.undelivered fun hnew => hnew.2
  committed hc :=
    ⟨fun hp => (h.committed hc).1 (hlater.phase_eq hp (by decide) (by decide)),
      fun hp => (h.committed hc).2 (hlater.phase_eq hp (by decide) (by decide))⟩
  begun hb hp := h.begun hb (hlater.phase_eq hp (by decide) (by decide))

lemma Inv.publish (h : d.Inv) (hlater : Later d.inv s) (hnew : newlyNotDelivered d.inv s = true →
      d.stage.committed = false ∧ d.stage ≠ .kernelBegun) : (d.publish s).Inv :=
  h.later hlater fun hnd =>
    (Bool.or_eq_true_iff.1 hnd).imp_right fun hn => ⟨settled_of_newly hn, hnew hn⟩

lemma Inv.respond (h : d.Inv) (hlater : Later d.inv s) : { d with inv := s }.Inv :=
  h.later hlater .inl

lemma Inv.harmless (h : d.Inv) (hs : Harmless d.inv s) : (d.publish s).Inv := by
  refine h.publish hs.later fun hnew => ⟨?_, ?_⟩
  · exact Bool.eq_false_iff.2 fun hc => (h.committed hc).1 (hs.queued hnew)
  · intro hb
    exact h.begun hb (hs.queued hnew)

lemma Inv.leave (h : d.Inv) {stage : Stage} (hc : stage.committed = false)
    (hb : stage ≠ .kernelBegun) (hs : d.inv.Settled → s.Settled) :
    ((d.publish s).moveTo stage).Inv where
  settled := by
    intro hnd
    rcases Bool.or_eq_true_iff.1 hnd with hnd | hnd
    · exact hs (h.settled hnd)
    · exact settled_of_newly hnd
  undelivered := fun _ => ⟨hc, hb⟩
  committed := by
    intro hcommitted
    rw [Delivery.moveTo, hc] at hcommitted
    exact absurd hcommitted Bool.false_ne_true
  begun := fun hbegun => absurd hbegun hb

/-- The request goes from one place where it is not reported as undelivered to another,
in a phase that allows it. -/
lemma Inv.commit (hnd : d.notDelivered = false) (hnew : newlyNotDelivered d.inv s = false)
    (hq : s.phase ≠ .queued) (stage : Stage)
    (hr : stage.committed = true → s.phase ≠ .receiving) : ((d.publish s).moveTo stage).Inv := by
  have hfalse : ((d.publish s).moveTo stage).notDelivered = false := by
    simp [Delivery.publish, Delivery.moveTo, hnd, hnew]
  constructor
  · intro h
    exact absurd (hfalse.symm.trans h) Bool.false_ne_true
  · intro h
    exact absurd (hfalse.symm.trans h) Bool.false_ne_true
  · exact fun hc => ⟨hq, hr hc⟩
  · exact fun _ => hq

lemma Inv.not_reported (h : d.Inv) (hstage : d.stage.committed = true ∨ d.stage = .kernelBegun) :
    d.notDelivered = false := by
  refine Bool.eq_false_iff.2 fun hnd => ?_
  obtain ⟨hc, hb⟩ := h.undelivered hnd
  rcases hstage with hs | hs
  · exact absurd (hc.symm.trans hs) Bool.false_ne_true
  · exact hb hs

lemma Inv.not_reported_of_open (h : d.Inv) (hopen : ¬ d.inv.Settled) : d.notDelivered = false :=
  Bool.eq_false_iff.2 fun hnd => hopen (h.settled hnd)

variable {d' : Delivery} {source target : Stage}

lemma advance_eq_some (h : d.advance source target = some d') :
    d.stage = source ∧ d' = d.moveTo target := by
  obtain ⟨hstage, rfl⟩ := Option.ite_some_none_eq_some.1 h
  exact ⟨hstage, rfl⟩

lemma advanceWith_eq_some (h : d.advanceWith source target s = some d') :
    d.stage = source ∧ d' = (d.publish s).moveTo target := by
  obtain ⟨hstage, rfl⟩ := Option.ite_some_none_eq_some.1 h
  exact ⟨hstage, rfl⟩

lemma publish_self (d : Delivery) : d.publish d.inv = d := by
  rw [publish, not_newly_of_phase_eq rfl, Bool.or_false]

lemma advanceWith_of_advance (h : d.advance source target = some d') :
    d.advanceWith source target d.inv = some d' := by
  rw [advanceWith, publish_self]
  exact h

lemma Inv.advanceWith (h : d.Inv) (hc : target.committed = false) (hb : target ≠ .kernelBegun)
    (hs : d.inv.Settled → s.Settled) (hstep : d.advanceWith source target s = some d') :
    d'.Inv := by
  obtain ⟨-, rfl⟩ := advanceWith_eq_some hstep
  exact h.leave hc hb hs

lemma Inv.advance (h : d.Inv) (hc : target.committed = false) (hb : target ≠ .kernelBegun)
    (hstep : d.advance source target = some d') : d'.Inv :=
  h.advanceWith hc hb id (advanceWith_of_advance hstep)

/-! ### The sections of a receiver -/

lemma beginReceive_true (h : s.beginReceive.value = true) :
    s.phase = .queued ∧ s.beginReceive.state.phase = .receiving := by
  revert h
  rw [beginReceive]
  split
  · simp
  rename_i hq
  split
  · simp
  · exact fun _ => ⟨not_not.1 hq, rfl⟩

lemma later_beginReceive (h : s.beginReceive.value = false) : Later s s.beginReceive.state := by
  revert h
  rw [beginReceive]
  split
  · exact fun _ => .refl s
  split
  · exact fun _ => .of_edited (.publishEmpty s _ _)
  · simp

lemma settled_rollbackReceive (h : s.Settled) : s.rollbackReceive.state.Settled := by
  rw [rollbackReceive, if_pos]
  · exact h
  · rcases h with h | h <;> simp [h]

lemma finishDispatch_true (h : s.finishDispatch.value = true) :
    s.phase = .receiving ∧ s.finishDispatch.state.phase = .dispatched := by
  revert h
  rw [finishDispatch]
  split
  · simp
  next hr => exact fun _ => ⟨not_not.1 hr, rfl⟩

lemma finishDispatch_false (h : s.finishDispatch.value = false) : s.finishDispatch.state = s := by
  rw [finishDispatch] at h ⊢
  split at h
  next hr => rw [if_pos hr]
  · simp at h

lemma phase_markDispatched (s : InvocationState) :
    s.markDispatched.phase ≠ .queued ∧ s.markDispatched.phase ≠ .receiving ∧
      newlyNotDelivered s s.markDispatched = false := by
  rw [markDispatched]
  split
  · exact ⟨by simp, by simp, by simp [newlyNotDelivered]⟩
  next h =>
    rw [not_or] at h
    exact ⟨h.1, h.2, not_newly_of_phase_eq rfl⟩

lemma Inv.advance_committed (h : d.Inv) (hsource : source.committed = true)
    (hstep : d.advance source target = some d') :
    d'.Inv := by
  obtain ⟨hstage, rfl⟩ := advance_eq_some hstep
  have hc : d.stage.committed = true := hstage ▸ hsource
  obtain ⟨hq, hr⟩ := h.committed hc
  have hcommit := Inv.commit (h.not_reported (.inl hc)) (not_newly_of_phase_eq rfl) hq target
    fun _ => hr
  rwa [publish_self] at hcommit

lemma Inv.advance_executing (h : d.Inv) (hlater : Later d.inv s)
    (hnew : newlyNotDelivered d.inv s = false)
    (hstep : d.advanceWith .executing .executing s = some d') : d'.Inv := by
  obtain ⟨hstage, rfl⟩ := advanceWith_eq_some hstep
  have hpublish := h.publish hlater fun hn => absurd (hnew.symm.trans hn) Bool.false_ne_true
  have hsame : (d.publish s).moveTo .executing = d.publish s := by
    rw [moveTo, ← hstage]
    rfl
  rwa [hsame]

lemma Inv.cancel (h : d.Inv) (given : Bool) : (d.cancel given).Inv := by
  rw [Delivery.cancel]
  split
  · exact h.leave rfl (by decide) (harmless_cancel d.inv _ _).later.settled
  · exact h.harmless (harmless_cancel d.inv _ _)

/-- **One section keeps the invariant**, unless it reports a missed deadline in the window
of the worker. -/
theorem inv_step {a : DeliveryAction} (h : d.Inv) (htimely : a.timely d = true)
    (hstep : d.step a = some d') : d'.Inv := by
  cases a with
  | submit accepted =>
    refine h.advance ?_ ?_ hstep
    · cases accepted <;> cases d.route <;> rfl
    · cases accepted <;> cases d.route <;> decide
  | removeCompleted | expireRemove now =>
    exact h.advanceWith rfl (by decide) settled_clearQueueOwner
      (Option.ite_none_right_eq_some.1 hstep).2
  | claim | cancelClaim => exact h.advance rfl (by decide) hstep
  | dropCompleted =>
    exact h.advance rfl (by decide) (Option.ite_none_right_eq_some.1 hstep).2
  | violation | completeRollback | completeDiscarded | kernelReject =>
    exact h.advanceWith rfl (by decide) (Later.of_edited (.completeFailure d.inv _ _ _)).settled
      hstep
  | beginReceive =>
    obtain ⟨-, rfl⟩ := advanceWith_eq_some hstep
    cases hval : d.inv.beginReceive.value with
    | true =>
      refine h.leave rfl (by decide) fun hset => ?_
      rcases hset with hset | hset <;>
        exact absurd ((beginReceive_true hval).1.symm.trans hset) (by decide)
    | false => exact h.leave rfl (by decide) (later_beginReceive hval).settled
  | rollbackReceive =>
    obtain ⟨-, rfl⟩ := advanceWith_eq_some hstep
    refine h.leave ?_ ?_ settled_rollbackReceive
    · cases d.inv.rollbackReceive.value <;> rfl
    · cases d.inv.rollbackReceive.value <;> decide
  | finishDispatch =>
    obtain ⟨-, rfl⟩ := advanceWith_eq_some hstep
    cases hval : d.inv.finishDispatch.value with
    | true =>
      obtain ⟨hr, hdisp⟩ := finishDispatch_true hval
      have hopen : ¬ d.inv.Settled := by
        rintro (hs | hs) <;> exact absurd (hr.symm.trans hs) (by decide)
      refine Inv.commit (h.not_reported_of_open hopen) ?_ ?_ _ fun _ => ?_
      · simp [newlyNotDelivered, hdisp]
      · simp [hdisp]
      · simp [hdisp]
    | false =>
      rw [finishDispatch_false hval]
      exact h.leave rfl (by decide) id
  | commitClaim held =>
    rw [step] at hstep
    split at hstep
    · exact h.advance_committed rfl hstep
    · exact h.advanceWith rfl (by decide) (Later.of_edited (.completeFailure d.inv _ _ _)).settled
        hstep
  | closeServer => exact h.advanceWith rfl (by decide) settled_clearQueueOwner hstep
  | expireRemoved =>
    exact h.advanceWith rfl (by decide) (harmless_expireRemoved d.inv).later.settled hstep
  | expireInPlace now =>
    cases (Option.ite_none_right_eq_some.1 hstep).2
    exact h.harmless (harmless_expireInPlace d.inv)
  | cancel given =>
    cases hstep
    exact h.cancel given
  | kernelBegin =>
    obtain ⟨-, rfl⟩ := advanceWith_eq_some hstep
    cases hval : d.inv.beginReceive.value with
    | true =>
      obtain ⟨hq, hr⟩ := beginReceive_true hval
      have hopen : ¬ d.inv.Settled := by
        rintro (hs | hs) <;> exact absurd (hq.symm.trans hs) (by decide)
      refine Inv.commit (h.not_reported_of_open hopen) ?_ ?_ _ fun hc => ?_
      · simp [newlyNotDelivered, hr]
      · simp [hr]
      · simp [Stage.committed] at hc
    | false => exact h.leave rfl (by decide) (later_beginReceive hval).settled
  | kernelNoCaller | kernelRefuse error =>
    exact h.advanceWith rfl (by decide) (Later.of_edited (.completeReply d.inv _ _ _)).settled hstep
  | kernelMark =>
    obtain ⟨hstage, rfl⟩ := advanceWith_eq_some hstep
    obtain ⟨hq, hr, hnew⟩ := phase_markDispatched d.inv
    exact Inv.commit (h.not_reported (.inr hstage)) hnew hq _ fun _ => hr
  | kernelExecute => exact h.advance_committed rfl hstep
  | kernelReply bytes resources error =>
    exact h.advance_executing (Later.of_edited (.completeReply d.inv _ _ _))
      (not_newly_completeReply d.inv _ _ _) hstep
  | kernelCancelled =>
    exact h.advance_executing (Later.of_edited (.completeFailure d.inv _ _ _))
      (not_newly_completeFailure (by decide) d.inv _ _) (Option.ite_none_right_eq_some.1 hstep).2
  | abandonResponder =>
    cases hstep
    exact h.harmless (harmless_abandonResponder d.inv)
  | consumeResponder =>
    cases hstep
    exact h.harmless (harmless_consumeResponder d.inv)
  | closeClient =>
    cases hstep
    exact h.harmless (.of_phase_eq rfl)
  | reply bytes resources =>
    cases hstep
    exact h.respond (Later.of_edited (.completeReply d.inv _ _ _))
  | fail outcome reason error =>
    cases hstep
    exact h.respond (Later.of_edited (.completeFailure d.inv _ _ _))
  | claimResult now bytes resources =>
    cases hstep
    refine h.publish (Later.of_edited (.claimResult d.inv now bytes resources)) fun hnew => ?_
    obtain ⟨hearly, hpassed⟩ := newly_claimResult hnew
    refine ⟨?_, fun hb => ?_⟩
    · exact Bool.eq_false_iff.2 fun hc => not_or.2 (h.committed hc) hearly
    · have hr := hearly.resolve_left (h.begun hb)
      simp [DeliveryAction.timely, hb, hr, hpassed] at htimely
  | restoreResult bytes resources =>
    cases hstep
    exact h.harmless (harmless_restoreResult d.inv bytes resources)
  | commitResult =>
    cases hstep
    exact h.harmless (harmless_commitResult d.inv)

end Delivery

/-- **In every run in which no result of an expired call is asked for in the window of the
kernel worker, "not delivered" is sound in every state reached.** -/
theorem deliverySound_of_timely (route : Route) (deadline : Option ℕ) (owner : ℕ)
    (run : List DeliveryAction) {d : Delivery}
    (htimely : Along Delivery.step (fun d a => a.timely d = true)
      (submitted route deadline owner) run)
    (hrun : exec Delivery.step (submitted route deadline owner) run = some d) :
    DeliverySound d := by
  have hinv : d.Inv := exec_induct (fun _ _ _ h ht hstep => Delivery.inv_step h ht hstep)
    (Delivery.inv_submitted route deadline owner) htimely hrun
  intro hnd
  obtain ⟨hc, -⟩ := hinv.undelivered hnd
  constructor
  all_goals
    intro hstage
    simp [hstage, Stage.committed] at hc

/-- A receiver gives the request back once, its deadline passes while the receiver tries
again, and the caller is told that the call was not delivered: the receiver then fails. -/
def lateReceiver : List DeliveryAction :=
  [.submit true, .claim, .beginReceive, .rollbackReceive, .cancelClaim, .claim, .beginReceive,
    .claimResult 9 0 0, .finishDispatch, .abandonResponder, .commitResult]

theorem deliverySound_lateReceiver :
    ∃ d, exec Delivery.step (submitted .protocol (some 5) 0) lateReceiver = some d ∧
      d.notDelivered = true ∧ DeliverySound d :=
  ⟨_, rfl, rfl, deliverySound_of_timely .protocol (some 5) 0 lateReceiver (by decide) rfl⟩

/-- The kernel worker begins with a request, the caller asks for the result after the
deadline, and the worker goes on. -/
def lateWorker : List DeliveryAction :=
  [.submit true, .kernelBegin, .claimResult 9 0 0, .kernelMark, .kernelExecute]

/-- **The worker runs the method of a call that was reported as not delivered.** -/
theorem not_deliverySound_lateWorker :
    ∃ d, exec Delivery.step (submitted .kernel (some 5) 0) lateWorker = some d ∧
      ¬ DeliverySound d :=
  ⟨_, rfl, fun h => (h rfl).2 rfl⟩

end Naos.Ipc
