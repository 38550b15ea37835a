import Naos.Ipc.Delivery

/-!
# No invocation is left behind

A caller waits for the outcome of a two-way call, so between two operations of the kernel a
call without an outcome has to be somewhere where it can still get one: in the queue of a
server that is alive, in the queue of the kernel worker, or with a receiver that holds its
responder.

The sections are those of `Delivery`, with three things added: where the responder is,
whether the queue of the server was closed and its end is alive, and the checks of the kernel
worker after the method has returned.  Two orders of sections leave a call behind: a responder
that is closed between its activation and `finish_dispatch`, and a cancellation between the
two checks of the kernel worker.
-/

namespace Naos.Ipc

open Capability Transition InvocationState

inductive ResponderPlace where
  | carried
  | held
  /-- Its last holder has dropped it, and `abandon_responder` is due. -/
  | releasing
  | released
  deriving DecidableEq, Repr

inductive EndLife where
  | held
  | released
  | destroyed
  deriving DecidableEq, Repr

/-- Where the kernel worker is after the method has returned.  The flag says whether the
method has answered `NA_STATUS_OK`. -/
inductive Tail where
  | running
  | returned (ok : Bool)
  | checked (ok : Bool)
  /-- `complete_reply` is due. -/
  | replying
  | done
  deriving DecidableEq, Repr

structure Admitted where
  delivery : Delivery
  responder : ResponderPlace := .carried
  tail : Tail := .running
  serverClosed : Bool := false
  server : EndLife := .held
  admitted : Bool := false
  deriving DecidableEq

inductive AdmittedAction where
  | run (a : DeliveryAction)
  /-- `activate_native` of the responder. -/
  | activate
  | release
  | abandon
  /-- `close_server_queue`; `blocked` says that the head is the claimed request of another
  call. -/
  | closeServer (blocked : Bool)
  | releaseServer
  | acquireServer
  | destroyServer
  /-- The method returns to `execute_kernel_dispatch`. -/
  | methodReturns (ok : Bool)
  | restoreFails
  | checkCancellation
  | checkInterrupted
  | completeStatus (error : ℤ)

namespace Admitted

variable (c : Admitted)

/-- Which sections of `Delivery` are run as they are there.  `rollback_receive` comes before
the responder is activated and `finish_dispatch` after it, a responder is consumed after a
reply was taken, and the worker is in the method.  The other sections are replaced by finer
ones. -/
def permits : DeliveryAction → Bool
  | .submit accepted => !accepted || !c.serverClosed
  | .rollbackReceive => c.responder == .carried
  | .finishDispatch => c.responder != .carried
  | .consumeResponder => c.delivery.completed
  | .kernelNoCaller | .kernelMark | .kernelReject | .kernelExecute | .kernelReply _ _ _ =>
    c.tail == .running
  | .abandonResponder | .closeServer | .kernelRefuse _ | .kernelCancelled => false
  | _ => true

def admits : DeliveryAction → Bool
  | .submit accepted => accepted
  | _ => false

/-- `close_server_queue`: a request that is not at or behind a claimed head is taken out. -/
def closeServer (blocked : Bool) : Admitted :=
  if c.delivery.stage = .waiting ∧ blocked = false then
    { c with
      serverClosed := true
      delivery := (c.delivery.publish c.delivery.inv.clearQueueOwner).moveTo .discarded }
  else { c with serverClosed := true }

/-- A `receive_protocol` has claimed the request. -/
def isClaimed : Bool :=
  match c.delivery.stage with
  | .claimed | .receiving | .rolledBack | .finishing => true
  | _ => false

/-- The kernel worker is past `mark_dispatched`. -/
def inMethod : Bool := c.delivery.stage == .decoding || c.delivery.stage == .executing

def finish (s : InvocationState) : Admitted :=
  { c with delivery := c.delivery.publish s, tail := .done }

def isOpen : Bool := !c.delivery.completed && !c.delivery.inv.clientClosed

def step : AdmittedAction → Option Admitted
  | .run a =>
    if c.permits a then
      (c.delivery.step a).map fun d =>
        { c with delivery := d, admitted := c.admitted || admits a }
    else none
  | .activate =>
    if c.delivery.stage = .receiving ∧ c.responder = .carried then
      some { c with responder := .held }
    else none
  | .release => if c.responder = .held then some { c with responder := .releasing } else none
  | .abandon =>
    -- The request takes a responder it still carries with it.
    if c.responder = .releasing ∨ c.responder = .carried ∧ c.delivery.stage = .dropped then
      some { c with
        delivery := c.delivery.publish c.delivery.inv.abandonResponder.state
        responder := .released }
    else none
  | .closeServer blocked => some (c.closeServer blocked)
  | .releaseServer => if c.server = .held then some { c with server := .released } else none
  | .acquireServer => if c.server = .released then some { c with server := .held } else none
  | .destroyServer =>
    -- A receiver with a claim has a handle of the end.
    if c.server = .released ∧ c.isClaimed = false then
      some { c.closeServer false with server := .destroyed }
    else none
  | .methodReturns ok =>
    -- Every method that answers `NA_STATUS_OK` has published an outcome.
    if c.inMethod && decide (c.tail = .running) && (!ok || !c.isOpen) then
      some { c with tail := .returned ok }
    else none
  | .restoreFails =>
    match c.tail with
    | .returned _ => some { c with tail := .replying }
    | _ => none
  | .checkCancellation =>
    match c.tail with
    | .returned ok =>
      if c.delivery.inv.cancellationRequested then
        some (c.finish (c.delivery.inv.completeFailure .outcomeUnknown .cancelRequested 0).state)
      else some { c with tail := .checked ok }
    | _ => none
  | .checkInterrupted =>
    match c.tail with
    | .checked ok =>
      some { c with
        tail := if c.delivery.inv.executionInterrupted || ok then .done else .replying }
    | _ => none
  | .completeStatus error =>
    match c.tail with
    | .replying => some (c.finish (c.delivery.inv.completeReply [] [] error).state)
    | _ => none

def quiet : Bool :=
  c.responder != .releasing && c.server != .released &&
    match c.delivery.stage with
    | .waiting | .returned | .pending | .dropped => true
    | .decoding | .executing => c.tail == .done
    | .submitting | .claimed | .receiving | .rolledBack | .finishing | .discarded | .expired
    | .kernelBegun => false

/-- **The call is not left behind**: it has an outcome, or it waits in the queue of a server
end that somebody holds or of the kernel worker, or it is dispatched and its responder is alive. -/
def NotStranded : Prop :=
  c.quiet = true → c.admitted = true → c.delivery.inv.clientClosed = false →
    c.delivery.inv.Settled ∨ (c.delivery.stage = .waiting ∧ c.server = .held) ∨
      c.delivery.stage = .pending ∨
      (c.delivery.inv.phase = .dispatched ∧ c.responder = .held ∧
        c.delivery.inv.responderAlive = true)

instance (s : InvocationState) : Decidable s.Settled := inferInstanceAs (Decidable (_ ∨ _))

instance : Decidable c.NotStranded := inferInstanceAs (Decidable (_ → _ → _ → _))

end Admitted

/-- The two orders do not occur: the responder is not dropped in the phase `receiving`, and a
call is not cancelled between the two checks of the worker. -/
def AdmittedAction.careful (c : Admitted) : AdmittedAction → Bool
  | .abandon => c.delivery.inv.phase != .receiving
  | .run (.cancel _) =>
    match c.tail with
    | .checked _ => false
    | _ => true
  | _ => true

/-- The state in which `invoke_submit` has created the invocation. -/
def Admitted.start (route : Route) (deadline : Option ℕ) (owner : ℕ) : Admitted where
  delivery := submitted route deadline owner

/-! ## Sections and open outcomes -/

/-- The outcome is open and there is a client to publish it to. -/
def InvocationState.Open (s : InvocationState) : Prop := ¬ s.Settled ∧ s.clientClosed = false

section Sections

variable {s s' : InvocationState}

variable {outcome : Execution} {reason : Reason}

lemma publishLockedNoWake_none {bytes : List (BitVec 8)} {resources : List TransferRecord}
    {error : ℤ} (h : s.publishLockedNoWake outcome reason bytes resources error = none)
    : ¬ s.Open := by
  rintro ⟨hphase, hclient⟩
  have hpub : s.publishable = true := by
    simp only [InvocationState.Settled, not_or] at hphase
    simp [publishable, hphase, hclient]
  simp [publishLockedNoWake, hpub] at h

lemma not_open_publishEmpty (s : InvocationState) (outcome : Execution) (reason : Reason) :
    ¬ (s.publishEmpty outcome reason).state.Open := by
  rw [publishEmpty]
  split
  next h => exact fun ho => ho.1 (.inl (publishLockedNoWake_eq_some h).1)
  next h => exact publishLockedNoWake_none h

lemma not_open_completeReply (s : InvocationState) (bytes : List (BitVec 8))
    (resources : List TransferRecord) (error : ℤ) :
    ¬ (s.completeReply bytes resources error).state.Open := by
  rw [completeReply]
  split
  next h => exact fun ho => ho.1 (.inl (publishLockedNoWake_eq_some h).1)
  next h => exact publishLockedNoWake_none h

lemma not_open_completeFailure (hvalid : validFailure outcome reason = true) (s : InvocationState)
    (error : ℤ) :
    ¬ (s.completeFailure outcome reason error).state.Open := by
  rw [completeFailure, if_pos hvalid]
  split
  next h => exact fun ho => ho.1 (.inl (publishLockedNoWake_eq_some h).1)
  next h => exact publishLockedNoWake_none h

lemma not_open_expireInPlace (s : InvocationState) : ¬ s.expireInPlace.state.Open := by
  rw [expireInPlace]
  split
  · exact not_open_publishEmpty _ _ _
  · exact not_open_publishEmpty _ _ _
  · exact not_open_publishEmpty _ _ _
  next h => exact fun ho => ho.1 (.inl h)
  next h => exact fun ho => ho.1 (.inr h)

/-- A section that may run at any time: where the outcome is still open afterwards, it was open
before, and the phase and the flags are the same. -/
structure Calm (s s' : InvocationState) : Prop where
  before : s'.Open → s.Open
  phase : s'.Open → s'.phase = s.phase
  alive : s'.Open → s'.responderAlive = s.responderAlive
  cancellation : s'.Open → s'.cancellationRequested = s.cancellationRequested

namespace Calm

lemma refl (s : InvocationState) : Calm s s := ⟨id, fun _ => rfl, fun _ => rfl, fun _ => rfl⟩

lemma of_not_open (h : ¬ s'.Open) : Calm s s' :=
  ⟨fun ho => absurd ho h, fun ho => absurd ho h, fun ho => absurd ho h, fun ho => absurd ho h⟩

lemma of_flags {s₁ : InvocationState} (h : Calm s s₁) (hphase : s'.phase = s₁.phase)
    (hclient : s'.clientClosed = s₁.clientClosed) (halive : s'.responderAlive = s₁.responderAlive)
    (hcancel : s'.cancellationRequested = s₁.cancellationRequested) : Calm s s' := by
  have hopen : s'.Open → s₁.Open := by
    rintro ⟨hs, hc⟩
    refine ⟨fun hs₁ => hs ?_, hclient.symm.trans hc⟩
    rw [InvocationState.Settled, hphase]
    exact hs₁
  exact ⟨fun ho => h.before (hopen ho), fun ho => hphase.trans (h.phase (hopen ho)),
    fun ho => halive.trans (h.alive (hopen ho)),
    fun ho => hcancel.trans (h.cancellation (hopen ho))⟩

lemma of_edited (h : Edited s s') : Calm s s' := by
  cases h with
  | same => exact refl s
  | publish => exact of_not_open fun ho => ho.1 (.inl rfl)
  | result hready => exact of_not_open fun ho => ho.1 (.inl hready)

lemma closeClient (s : InvocationState) : Calm s s.closeClient.state :=
  of_not_open fun ho => absurd ho.2 (by simp [InvocationState.closeClient])

lemma commitResult (s : InvocationState) : Calm s s.commitResult.state := by
  rw [InvocationState.commitResult]
  split
  · exact refl s
  · exact of_not_open fun ho => ho.1 (.inr rfl)

end Calm

/-- What `cancel` leaves open has the request for a cancellation, and no more; a request that
could be taken out of its queue is not left open. -/
lemma open_cancel {owned removed : Bool} (h : (s.cancel owned removed).state.Open) :
    (s.cancel owned removed).state = { s with cancellationRequested := true } ∧
      ¬ (removed = true ∧ s.phase = .queued) := by
  revert h
  rw [cancel]
  split
  · dsimp only
    split
    next hremoved =>
      refine fun _ => ⟨rfl, ?_⟩
      rintro ⟨rfl, -⟩
      simp at hremoved
    · exact fun ho => absurd ho (not_open_publishEmpty _ _ _)
  next hphase => exact fun _ => ⟨rfl, by simp [hphase]⟩
  next hphase => exact fun _ => ⟨rfl, by simp [hphase]⟩
  next hphase => exact fun ho => absurd (.inl hphase) ho.1
  next hphase => exact fun ho => absurd (.inr hphase) ho.1

lemma open_beginReceive (h : s.beginReceive.state.Open) (hq : s.phase = .queued) :
    s.beginReceive.value = true ∧ s.beginReceive.state.phase = .receiving ∧
      s.beginReceive.state.responderAlive = true := by
  have hne : ¬ s.phase ≠ .queued := not_not.2 hq
  revert h
  rw [beginReceive, if_neg hne]
  split
  · exact fun h => absurd h (not_open_publishEmpty _ _ _)
  next hflags =>
    simp only [Bool.or_eq_true, Bool.not_eq_true', not_or, Bool.not_eq_false] at hflags
    exact fun _ => ⟨rfl, rfl, hflags.2⟩

/-- Where `begin_receive` refuses a request that waits, nothing is left open. -/
lemma open_of_beginReceive (h : s.beginReceive.state.Open) : s.Open := by
  rw [beginReceive] at h
  split at h
  · exact h
  rename_i hq
  split at h
  · exact absurd h (not_open_publishEmpty _ _ _)
  · have hphase : s.phase = .queued := not_not.1 hq
    exact ⟨by simp [InvocationState.Settled, hphase], h.2⟩

lemma open_of_finishDispatch (h : s.finishDispatch.state.Open) :
    s.Open ∧ s.finishDispatch.state.responderAlive = s.responderAlive := by
  revert h
  rw [finishDispatch]
  split
  · exact fun h => ⟨h, rfl⟩
  next hr =>
    have hphase : s.phase = .receiving := not_not.1 hr
    exact fun h => ⟨⟨by simp [InvocationState.Settled, hphase], h.2⟩, rfl⟩

lemma open_of_rollbackReceive (h : s.rollbackReceive.state.Open) :
    s.Open ∧ (s.phase = .receiving → s.rollbackReceive.state.phase = .queued) := by
  revert h
  rw [rollbackReceive]
  split
  next hr => exact fun h => ⟨h, fun hphase => absurd hphase hr⟩
  next hr =>
    have hphase : s.phase = .receiving := not_not.1 hr
    exact fun h => ⟨⟨by simp [InvocationState.Settled, hphase], h.2⟩, fun _ => rfl⟩

lemma open_of_markDispatched (h : s.markDispatched.Open) :
    s.Open ∧ s.markDispatched.responderAlive = s.responderAlive := by
  revert h
  rw [markDispatched]
  split
  next hq =>
    refine fun h => ⟨⟨?_, h.2⟩, rfl⟩
    rcases hq with hq | hq <;> simp [InvocationState.Settled, hq]
  · exact fun h => ⟨h, rfl⟩

lemma open_of_consumeResponder (h : s.consumeResponder.state.Open) : s.Open := by
  rw [consumeResponder] at h
  split at h <;> exact h

/-- `abandon_responder` leaves an outcome open only in the phase `receiving`, or where the
responder was not alive. -/
lemma open_abandonResponder (h : s.abandonResponder.state.Open) :
    s.Open ∧ (s.responderAlive = true → s.phase = .receiving) := by
  rw [abandonResponder] at h
  split at h
  next hdead => exact ⟨h, fun halive => absurd (hdead.symm.trans halive) Bool.false_ne_true⟩
  dsimp only at h
  split at h
  · exact absurd h (not_open_publishEmpty _ _ _)
  · exact absurd h (not_open_publishEmpty _ _ _)
  next hqueued hdispatched =>
    have hopen : s.Open := ⟨h.1, h.2⟩
    refine ⟨hopen, fun _ => ?_⟩
    cases hphase : s.phase with
    | queued => exact absurd hphase hqueued
    | receiving => rfl
    | dispatched => exact absurd hphase hdispatched
    | ready => exact absurd (.inl hphase) hopen.1
    | consumed => exact absurd (.inr hphase) hopen.1

end Sections

/-! ## Where an open call is -/

/-- What an open outcome means for the worker, given whether a cancellation was requested. -/
def Tail.Expected (cancellation : Bool) : Tail → Prop
  | .running | .replying => True
  | .returned ok => ok = false
  | .checked ok => ok = false ∧ cancellation = false
  | .done => False

lemma Tail.Expected.cancel {t : Tail} {cancellation : Bool} (h : t.Expected cancellation)
    (hne : ∀ ok, t ≠ .checked ok) (cancellation' : Bool) : t.Expected cancellation' := by
  cases t with
  | checked ok => exact absurd rfl (hne ok)
  | running | replying | returned ok | done => exact h

namespace Admitted

variable {c c' : Admitted} {d : Delivery} {s : InvocationState}

def Expected (c : Admitted) : Prop :=
  match c.delivery.stage with
  | .submitting =>
    c.delivery.inv.phase = .queued ∧ c.responder = .carried ∧ c.tail = .running ∧ c.admitted = false
  | .waiting | .claimed | .rolledBack =>
    c.delivery.inv.phase = .queued ∧ c.responder = .carried ∧ c.server ≠ .destroyed
  | .receiving =>
    c.delivery.inv.phase = .receiving ∧ c.delivery.inv.responderAlive = true ∧
      c.responder ≠ .released ∧ c.server ≠ .destroyed
  | .finishing | .returned =>
    c.delivery.inv.phase = .dispatched ∧ c.delivery.inv.responderAlive = true ∧
      c.responder ≠ .carried ∧ c.responder ≠ .released
  | .discarded | .expired => c.delivery.inv.phase = .queued
  | .pending => c.delivery.inv.phase = .queued ∧ c.tail = .running
  | .kernelBegun => c.delivery.inv.responderAlive = true ∧ c.tail = .running
  | .decoding | .executing =>
    c.delivery.inv.responderAlive = true ∧ Tail.Expected c.delivery.inv.cancellationRequested c.tail
  | .dropped => c.admitted = false

def Coherent (c : Admitted) : Prop := c.delivery.inv.Open → c.Expected

def Shut (c : Admitted) : Prop := c.server = .destroyed → c.serverClosed = true

variable {admitted : Bool} {source target : Stage} {a : AdmittedAction}

section

variable (h : c.Coherent)
include h

lemma Coherent.calm (hcalm : Calm c.delivery.inv d.inv) (hstage : d.stage = c.delivery.stage)
    (hadmitted : admitted = c.admitted) :
    { c with delivery := d, admitted := admitted }.Coherent := by
  intro ho
  have hexp := h (hcalm.before ho)
  have hphase := hcalm.phase ho
  have halive := hcalm.alive ho
  have hcancel := hcalm.cancellation ho
  subst hadmitted
  rw [Expected] at hexp ⊢
  dsimp only at hphase halive hcancel ⊢
  rw [hstage, hphase, halive, hcancel]
  exact hexp

omit h in
lemma coherent_of_not_open (h : ¬ c.delivery.inv.Open) : c.Coherent := fun ho => absurd ho h

lemma Coherent.advance (hstep : c.delivery.advance source target = some d)
    (hexp : { c with delivery := c.delivery.moveTo source }.Expected →
      { c with delivery := c.delivery.moveTo target, admitted := admitted }.Expected) :
    { c with delivery := d, admitted := admitted }.Coherent := by
  obtain ⟨rfl, rfl⟩ := Delivery.advance_eq_some hstep
  exact fun ho => hexp (h ho)

lemma Coherent.advanceWith (hstep : c.delivery.advanceWith source target s = some d)
    (hbefore : s.Open → c.delivery.inv.Open)
    (hexp : { c with delivery := c.delivery.moveTo source }.Expected → s.Open →
      { c with
        delivery := (c.delivery.publish s).moveTo target
        admitted := admitted }.Expected) :
    { c with delivery := d, admitted := admitted }.Coherent := by
  obtain ⟨rfl, rfl⟩ := Delivery.advanceWith_eq_some hstep
  exact fun ho => hexp (h (hbefore ho)) ho

omit h in
lemma coherent_advanceWith (hstep : c.delivery.advanceWith source target s = some d)
    (hs : ¬ s.Open) :
    { c with delivery := d, admitted := admitted }.Coherent := by
  obtain ⟨-, rfl⟩ := Delivery.advanceWith_eq_some hstep
  exact coherent_of_not_open hs

omit h in
lemma not_open_of_completed (h : d.completed = true) : ¬ d.inv.Open := by
  intro ho
  rw [Delivery.completed, Bool.or_eq_true, beq_iff_eq, beq_iff_eq] at h
  exact ho.1 h

lemma Coherent.cancel (hchecked : ∀ ok, c.tail ≠ .checked ok) (given : Bool) :
    { c with delivery := c.delivery.cancel given }.Coherent := by
  intro ho
  rw [Delivery.cancel] at ho ⊢
  dsimp only at ho ⊢
  split at ho
  next hremoved =>
    obtain ⟨-, hnot⟩ := open_cancel (s := c.delivery.inv) ⟨ho.1, ho.2⟩
    simp only [Bool.and_eq_true, beq_iff_eq] at hremoved
    refine absurd ⟨?_, hremoved.2⟩ hnot
    simp [hremoved]
  next hremoved =>
    rw [if_neg hremoved]
    have heq := (open_cancel ho).1
    have hopen : c.delivery.inv.Open := by
      change (c.delivery.inv.cancel _ _).state.Open at ho
      rw [heq] at ho
      exact ho
    have hexp := h hopen
    rw [Expected] at hexp ⊢
    dsimp only [Delivery.publish]
    rw [heq]
    cases hstage : c.delivery.stage <;> rw [hstage] at hexp <;> try exact hexp
    · exact ⟨hexp.1, hexp.2.cancel hchecked true⟩
    · exact ⟨hexp.1, hexp.2.cancel hchecked true⟩

/-- **A section of the invocation keeps the invariant.** -/
theorem coherent_run {a : DeliveryAction} (hshut : c.Shut)
    (hcareful : AdmittedAction.careful c (.run a) = true) (hpermits : c.permits a = true)
    (hstep : c.delivery.step a = some d) :
    { c with delivery := d, admitted := c.admitted || admits a }.Coherent := by
  have hno : (c.admitted || false) = c.admitted := Bool.or_false c.admitted
  cases a with
  | submit accepted =>
    refine h.advance hstep ?_
    rintro ⟨hphase, hcarried, htail, hadmitted⟩
    cases accepted with
    | false => exact Bool.or_eq_false_iff.2 ⟨hadmitted, rfl⟩
    | true =>
      have hserver : c.server ≠ .destroyed := by
        intro hdestroyed
        simp [permits, hshut hdestroyed] at hpermits
      cases hroute : c.delivery.route with
      | kernel => exact ⟨hphase, htail⟩
      | protocol => exact ⟨hphase, hcarried, hserver⟩
  | removeCompleted =>
    obtain ⟨hc, hstep⟩ := Option.ite_none_right_eq_some.1 hstep
    exact coherent_advanceWith hstep (not_open_of_completed hc)
  | claim | cancelClaim | kernelExecute =>
    exact h.advance hstep id
  | dropCompleted =>
    obtain ⟨hc, hstep⟩ := Option.ite_none_right_eq_some.1 hstep
    obtain ⟨-, rfl⟩ := Delivery.advance_eq_some hstep
    exact coherent_of_not_open (not_open_of_completed (d := c.delivery) hc)
  | violation | completeRollback | completeDiscarded | kernelReject =>
    exact coherent_advanceWith hstep (not_open_completeFailure rfl _ _)
  | beginReceive =>
    refine h.advanceWith hstep open_of_beginReceive ?_
    rintro ⟨hqueued, hcarried, hserver⟩ ho
    obtain ⟨hval, hphase, halive⟩ := open_beginReceive ho hqueued
    rw [hval]
    exact ⟨hphase, halive, hcarried.trans_ne (by decide), hserver⟩
  | rollbackReceive =>
    refine h.advanceWith hstep (fun ho => (open_of_rollbackReceive ho).1) ?_
    rintro ⟨hphase, -, -, hserver⟩ ho
    have hqueued := (open_of_rollbackReceive ho).2 hphase
    cases c.delivery.inv.rollbackReceive.value with
    | true | false => exact ⟨hqueued, beq_iff_eq.1 hpermits, hserver⟩
  | finishDispatch =>
    refine h.advanceWith hstep (fun ho => (open_of_finishDispatch ho).1) ?_
    rintro ⟨(hphase : c.delivery.inv.phase = .receiving), halive, hheld, -⟩ ho
    cases hval : c.delivery.inv.finishDispatch.value with
    | true =>
      exact ⟨(Delivery.finishDispatch_true hval).2, (open_of_finishDispatch ho).2.trans halive,
        bne_iff_ne.1 hpermits, hheld⟩
    | false =>
      rw [finishDispatch, if_neg (not_not.2 hphase)] at hval
      simp at hval
  | commitClaim held =>
    rw [Delivery.step] at hstep
    split at hstep
    · exact h.advance hstep id
    · exact coherent_advanceWith hstep (not_open_completeFailure rfl _ _)
  | closeServer | kernelRefuse error | kernelCancelled | abandonResponder =>
    simp [permits] at hpermits
  | expireRemove now =>
    refine h.advanceWith (Option.ite_none_right_eq_some.1 hstep).2 id ?_
    rintro ⟨hqueued, -, -⟩ -
    exact hqueued
  | expireRemoved =>
    have hopen : c.delivery.inv.expireRemoved.state.Open →
        c.delivery.inv.phase ≠ .queued ∧ c.delivery.inv.Open := by
      intro ho
      rw [expireRemoved] at ho
      split at ho
      · exact absurd ho (not_open_publishEmpty _ _ _)
      next hphase => exact ⟨hphase, ho⟩
    exact h.advanceWith hstep (fun ho => (hopen ho).2) fun hphase ho => absurd hphase (hopen ho).1
  | expireInPlace now =>
    cases (Option.ite_none_right_eq_some.1 hstep).2
    exact coherent_of_not_open (not_open_expireInPlace c.delivery.inv)
  | cancel given =>
    cases hstep
    have hadmits : admits (.cancel given) = false := rfl
    rw [hadmits, hno]
    refine h.cancel (fun ok hchecked => ?_) given
    simp [AdmittedAction.careful, hchecked] at hcareful
  | kernelBegin =>
    refine h.advanceWith hstep open_of_beginReceive ?_
    rintro ⟨hphase, htail⟩ ho
    obtain ⟨hval, -, halive⟩ := open_beginReceive ho hphase
    rw [hval]
    exact ⟨halive, htail⟩
  | kernelNoCaller => exact coherent_advanceWith hstep (not_open_completeReply _ _ _ _)
  | kernelMark =>
    refine h.advanceWith hstep (fun ho => (open_of_markDispatched ho).1) ?_
    rintro ⟨halive, (htail : c.tail = .running)⟩ ho
    refine ⟨(open_of_markDispatched ho).2.trans halive, ?_⟩
    dsimp only
    rw [htail]
    trivial
  | kernelReply bytes resources error =>
    exact coherent_advanceWith hstep (not_open_completeReply _ _ _ _)
  | consumeResponder =>
    cases hstep
    exact coherent_of_not_open fun ho =>
      not_open_of_completed hpermits (open_of_consumeResponder ho)
  | closeClient =>
    cases hstep
    refine h.calm ?_ ?_ hno
    · exact .closeClient c.delivery.inv
    · rfl
  | reply bytes resources =>
    cases hstep
    exact coherent_of_not_open (not_open_completeReply c.delivery.inv _ _ _)
  | fail outcome reason error =>
    cases hstep
    refine h.calm ?_ ?_ hno
    · exact .of_edited (.completeFailure c.delivery.inv _ _ _)
    · rfl
  | claimResult now bytes resources =>
    cases hstep
    refine h.calm ?_ ?_ hno
    · exact .of_edited (.claimResult c.delivery.inv now bytes resources)
    · rfl
  | restoreResult bytes resources =>
    cases hstep
    refine h.calm ?_ ?_ hno
    · exact .of_edited (.restoreResult c.delivery.inv bytes resources)
    · rfl
  | commitResult =>
    cases hstep
    refine h.calm ?_ ?_ hno
    · exact .commitResult c.delivery.inv
    · rfl

lemma Coherent.activate (hstage : c.delivery.stage = .receiving) :
    { c with responder := .held }.Coherent := by
  intro ho
  have hexp := h ho
  rw [Expected, hstage] at hexp
  rw [Expected]
  dsimp only
  rw [hstage]
  exact ⟨hexp.1, hexp.2.1, by decide, hexp.2.2.2⟩

lemma Coherent.release (hheld : c.responder = .held) :
    { c with responder := .releasing }.Coherent := by
  intro ho
  have hexp := h ho
  rw [Expected] at hexp ⊢
  dsimp only
  cases hstage : c.delivery.stage <;> rw [hstage] at hexp <;> dsimp only at hexp ⊢ <;> simp_all

/-- The hook of the responder publishes an outcome, but in the phase `receiving`. -/
lemma Coherent.abandon (hphase : c.delivery.inv.phase ≠ .receiving)
    (hdue : c.responder = .releasing ∨ c.responder = .carried ∧ c.delivery.stage = .dropped) :
    { c with
      delivery := c.delivery.publish c.delivery.inv.abandonResponder.state
      responder := .released }.Coherent := by
  intro ho
  obtain ⟨hopen, halive⟩ := open_abandonResponder ho
  have hdead : c.delivery.inv.responderAlive = false := by
    by_contra hne
    exact hphase (halive (Bool.not_eq_false _ ▸ hne))
  have hsame : c.delivery.inv.abandonResponder.state = c.delivery.inv := by
    rw [abandonResponder, if_pos hdead]
  have hexp := h hopen
  rw [Expected] at hexp ⊢
  dsimp only [Delivery.publish]
  rw [hsame]
  -- Where the responder has to be alive, it is not; elsewhere it is in the request.
  cases hstage : c.delivery.stage <;> rw [hstage] at hexp <;> dsimp only at hexp ⊢ <;> simp_all

lemma Coherent.closeServer (blocked : Bool) : (c.closeServer blocked).Coherent := by
  rw [Admitted.closeServer]
  split
  next hwait =>
    intro ho
    have hexp := h ho
    rw [Expected, hwait.1] at hexp
    exact hexp.1
  · exact h

lemma Coherent.setServer {server : EndLife} (hserver : server ≠ .destroyed) :
    { c with server := server }.Coherent := by
  intro ho
  have hexp := h ho
  rw [Expected] at hexp ⊢
  dsimp only
  cases hstage : c.delivery.stage <;> rw [hstage] at hexp <;> dsimp only at hexp ⊢ <;> simp_all

lemma Coherent.destroyServer (hclaimed : c.isClaimed = false) :
    { c.closeServer false with server := .destroyed }.Coherent := by
  rw [Admitted.closeServer]
  split
  next hwait =>
    intro ho
    have hexp := h ho
    rw [Expected, hwait.1] at hexp
    exact hexp.1
  · intro ho
    have hexp := h ho
    rw [Expected] at hexp ⊢
    rw [isClaimed] at hclaimed
    dsimp only
    cases hstage : c.delivery.stage <;> rw [hstage] at hexp hclaimed <;> dsimp only at hexp ⊢ <;>
      simp_all

lemma Coherent.proceed {t : Tail} (hrunning : c.tail ≠ .running ∨ c.inMethod = true)
    (ht : c.delivery.inv.Open → c.delivery.inv.responderAlive = true →
      Tail.Expected c.delivery.inv.cancellationRequested c.tail →
      Tail.Expected c.delivery.inv.cancellationRequested t) :
    { c with tail := t }.Coherent := by
  intro ho
  have hexp := h ho
  have ht' := ht ho
  rw [Expected] at hexp ⊢
  rw [inMethod] at hrunning
  dsimp only
  cases hstage : c.delivery.stage <;> rw [hstage] at hexp hrunning <;> dsimp only at hexp ⊢ <;>
    simp_all

end

lemma isOpen_of_open (h : c.delivery.inv.Open) : c.isOpen = true := by
  have hnot : c.delivery.completed = false := by
    by_contra hc
    exact not_open_of_completed (Bool.not_eq_false _ ▸ hc) h
  simp [isOpen, hnot, h.2]

lemma executionInterrupted_of_open (h : s.Open) (halive : s.responderAlive = true) :
    s.executionInterrupted = s.cancellationRequested := by
  obtain ⟨hready, hconsumed⟩ := not_or.1 h.1
  simp [executionInterrupted, h.2, halive, beq_false_of_ne hready, beq_false_of_ne hconsumed]

/-- **A careful section keeps the invariant.** -/
theorem coherent_step (h : c.Coherent) (hshut : c.Shut) (hcareful : a.careful c = true)
    (hstep : c.step a = some c') : c'.Coherent := by
  cases a with rw [step] at hstep
  | run a =>
    split at hstep
    next hpermits =>
      obtain ⟨d, hd, rfl⟩ := Option.map_eq_some_iff.1 hstep
      exact coherent_run h hshut hcareful hpermits hd
    · simp at hstep
  | activate =>
    obtain ⟨hready, rfl⟩ := Option.ite_some_none_eq_some.1 hstep
    exact h.activate hready.1
  | release =>
    obtain ⟨hheld, rfl⟩ := Option.ite_some_none_eq_some.1 hstep
    exact h.release hheld
  | abandon =>
    obtain ⟨hdue, rfl⟩ := Option.ite_some_none_eq_some.1 hstep
    exact h.abandon (bne_iff_ne.1 hcareful) hdue
  | closeServer blocked =>
    cases hstep
    exact h.closeServer blocked
  | releaseServer | acquireServer =>
    obtain ⟨-, rfl⟩ := Option.ite_some_none_eq_some.1 hstep
    exact h.setServer (by decide)
  | destroyServer =>
    obtain ⟨hlast, rfl⟩ := Option.ite_some_none_eq_some.1 hstep
    exact h.destroyServer hlast.2
  | methodReturns ok =>
    obtain ⟨hguard, rfl⟩ := Option.ite_some_none_eq_some.1 hstep
    simp only [Bool.and_eq_true, Bool.or_eq_true, Bool.not_eq_true'] at hguard
    refine h.proceed (.inr hguard.1.1) fun ho _ _ => hguard.2.resolve_right ?_
    simp [isOpen_of_open ho]
  | restoreFails =>
    split at hstep
    next ok htail =>
      cases hstep
      exact h.proceed (.inl (by simp [htail])) fun _ _ _ => trivial
    · simp at hstep
  | checkCancellation =>
    split at hstep
    next ok htail =>
      split at hstep
      · cases hstep
        exact coherent_of_not_open (not_open_completeFailure rfl c.delivery.inv 0)
      next hcancel =>
        cases hstep
        refine h.proceed (.inl (by simp [htail])) fun _ _ hexp => ?_
        rw [htail] at hexp
        exact ⟨hexp, Bool.not_eq_true _ ▸ hcancel⟩
    · simp at hstep
  | checkInterrupted =>
    split at hstep
    next ok htail =>
      cases hstep
      refine h.proceed (.inl (by simp [htail])) fun ho halive hexp => ?_
      rw [htail] at hexp
      obtain ⟨rfl, hcancel⟩ := hexp
      rw [executionInterrupted_of_open ho halive, hcancel]
      trivial
    · simp at hstep
  | completeStatus error =>
    split at hstep
    · cases hstep
      exact coherent_of_not_open (not_open_completeReply c.delivery.inv [] [] error)
    · simp at hstep

lemma serverClosed_closeServer (c : Admitted) (blocked : Bool) :
    (c.closeServer blocked).serverClosed = true := by
  rw [Admitted.closeServer]
  split
  · rfl
  · rfl

lemma shut_step (h : c.Shut) (hstep : c.step a = some c') : c'.Shut := by
  cases a with
  | run a =>
    obtain ⟨d, -, rfl⟩ := Option.map_eq_some_iff.1 (Option.ite_none_right_eq_some.1 hstep).2
    exact h
  | closeServer blocked =>
    cases hstep
    exact fun _ => serverClosed_closeServer c blocked
  | destroyServer =>
    cases (Option.ite_none_right_eq_some.1 hstep).2
    exact fun _ => serverClosed_closeServer c false
  | releaseServer | acquireServer =>
    cases (Option.ite_none_right_eq_some.1 hstep).2
    exact fun hdestroyed => absurd hdestroyed (by simp)
  | activate | release | abandon | methodReturns ok | restoreFails | checkInterrupted
  | completeStatus error | checkCancellation =>
    rw [step] at hstep
    repeat' split at hstep
    all_goals cases hstep
    all_goals exact h

lemma coherent_start (route : Route) (deadline : Option ℕ) (owner : ℕ) :
    (start route deadline owner).Coherent := fun _ => ⟨rfl, rfl, rfl, rfl⟩

lemma Coherent.notStranded (h : c.Coherent) : c.NotStranded := by
  intro hquiet hadmitted hclient
  by_cases hsettled : c.delivery.inv.Settled
  · exact .inl hsettled
  have hexp := h ⟨hsettled, hclient⟩
  refine .inr ?_
  simp only [quiet, Bool.and_eq_true, bne_iff_ne] at hquiet
  obtain ⟨⟨hreleasing, hserver⟩, hquiet⟩ := hquiet
  rw [Expected] at hexp
  cases hstage : c.delivery.stage with
  | waiting =>
    rw [hstage] at hexp
    refine .inl ⟨rfl, ?_⟩
    cases hlife : c.server with
    | held => rfl
    | released => exact absurd hlife hserver
    | destroyed => exact absurd hlife hexp.2.2
  | pending => exact .inr (.inl rfl)
  | returned =>
    rw [hstage] at hexp
    obtain ⟨hphase, halive, hcarried, hreleased⟩ := hexp
    refine .inr (.inr ⟨hphase, ?_, halive⟩)
    cases hplace : c.responder with
    | held => rfl
    | carried => exact absurd hplace hcarried
    | releasing => exact absurd hplace hreleasing
    | released => exact absurd hplace hreleased
  | dropped =>
    rw [hstage] at hexp
    exact absurd (hexp.symm.trans hadmitted) Bool.false_ne_true
  | decoding | executing =>
    rw [hstage] at hexp hquiet
    have htail := hexp.2
    rw [beq_iff_eq.1 hquiet] at htail
    exact htail.elim
  | submitting | claimed | receiving | rolledBack | finishing | discarded | expired
  | kernelBegun => simp [hstage] at hquiet

/-- **No invocation is left behind** in a run without the two orders. -/
theorem notStranded_of_careful (route : Route) (deadline : Option ℕ) (owner : ℕ)
    {actions : List AdmittedAction}
    (hcareful : Along step (fun c a => a.careful c = true) (start route deadline owner) actions)
    (hrun : exec step (start route deadline owner) actions = some c) :
    c.NotStranded := by
  have hinv : c.Coherent ∧ c.Shut := exec_induct (I := fun c => c.Coherent ∧ c.Shut)
      (fun _ _ _ hs hok hstep => ⟨coherent_step hs.1 hs.2 hok hstep, shut_step hs.2 hstep⟩)
      ⟨coherent_start route deadline owner, fun h => absurd h (by simp [start])⟩ hcareful hrun
  exact hinv.1.notStranded

def receivedThenDropped : List AdmittedAction :=
  [.run (.submit true), .run .claim, .run .beginReceive, .activate, .run .finishDispatch,
    .run (.commitClaim true), .release, .abandon]

/-- The caller learns of it. -/
theorem notStranded_receivedThenDropped :
    (exec step (start .protocol none 3) receivedThenDropped).map
        (fun c => (c.quiet, c.delivery.inv.phase)) = some (true, .ready) ∧
      ∀ c, exec step (start .protocol none 3) receivedThenDropped = some c → c.NotStranded :=
  ⟨by decide, fun _ hrun => notStranded_of_careful .protocol none 3 (by decide) hrun⟩

/-- The responder is dropped before `finish_dispatch`. -/
def droppedWhileReceiving : List AdmittedAction :=
  [.run (.submit true), .run .claim, .run .beginReceive, .activate, .release, .abandon,
    .run .finishDispatch, .run (.commitClaim true)]

/-- A method that is not supported returns, and the call is cancelled between the two checks
of the worker. -/
def cancelledBetweenChecks : List AdmittedAction :=
  [.run (.submit true), .run .kernelBegin, .run .kernelMark, .methodReturns false,
    .checkCancellation, .run (.cancel false), .checkInterrupted]

/-- Each of the two orders leaves a call behind. -/
theorem stranded_runs : (∃ c, exec step (start .protocol none 3) droppedWhileReceiving = some c ∧
      ¬ c.NotStranded) ∧
    ∃ c, exec step (start .kernel none 3) cancelledBetweenChecks = some c ∧ ¬ c.NotStranded := by
  exact ⟨⟨_, rfl, by decide⟩, ⟨_, rfl, by decide⟩⟩

end Admitted

end Naos.Ipc
