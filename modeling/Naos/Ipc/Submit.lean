import Naos.Ipc.Send
import Naos.Ipc.Protocol
import Naos.Ipc.Life

/-!
# Submitting a call

`invoke_submit` checks its frame and its target, creates the invocation and installs a
handle for it, takes the batch of handles out of the caller's table, puts the request into
a queue and, last, writes the handle of the invocation to the caller's memory.  Up
to the queue it is atomic.  After that the write of the handle may fault, and a frame may have
moved the handle of the invocation itself.
-/

namespace Naos.Ipc

open Capability Option
open ResourceTable hiding get set put drop clear

/-! ## The frame -/

structure SubmitFrame where
  structSize : ℕ := 72
  flags : BitVec 32 := 0
  methodId : ℕ := 0
  request : ℕ := 0
  requestBytes : ℕ := 0
  resources : ℕ := 0
  resourceCount : ℕ := 0
  operationBudget : ℕ := 0
  reserved0 : ℕ := 0
  reserved1 : ℕ := 0
  deriving DecidableEq, Repr

def SubmitFrame.size : ℕ := 72

def callFlagOneway : BitVec 32 := 1

def callFlagFlexible : BitVec 32 := 2

/-- `validate_submit_frame`: the status with which a frame is refused, if it is. -/
def validateSubmitFrame (v : SubmitFrame) (oneway : Bool) : Option Status :=
  let dispositionBytes := v.resourceCount * Disposition.size
  if v.structSize < SubmitFrame.size ∨ v.flags &&& ~~~(callFlagOneway ||| callFlagFlexible) ≠ 0 ∨
      (oneway = false ∧ v.flags &&& callFlagOneway ≠ 0) ∨ v.reserved0 ≠ 0 ∨ v.reserved1 ≠ 0 then
    some .invalidArgument
  else if maxMessageBytes < v.requestBytes ∨ maxResources < v.resourceCount then
    some .invalidMessage
  else if 2 ^ 64 ≤ dispositionBytes then some .invalidArgument
  else if !validRange v.request v.requestBytes || !validRange v.resources dispositionBytes then
    some .fault
  else if v.requestBytes ≠ 0 ∧ v.request = 0 then some .fault
  else if v.resourceCount ≠ 0 ∧ v.resources = 0 then some .fault
  else none

def framesDisjoint (frame : ℕ) (v : SubmitFrame) : Bool :=
  let dispositionBytes := v.resourceCount * Disposition.size
  !(rangesOverlap frame SubmitFrame.size v.request v.requestBytes ||
    rangesOverlap frame SubmitFrame.size v.resources dispositionBytes ||
    rangesOverlap v.request v.requestBytes v.resources dispositionBytes)

/-- `valid_user_output` for a handle. -/
def validUserOutput (output : ℕ) : Bool := decide (output ≠ 0) && isUserSpaceRange output 8

/-! ## The target -/

def protocolRightInvoke : Mask := 1

def protocolFlagAllowOneway : BitVec 32 := 1

def protocolMaxMethodId : ℕ := 256

/-- `na_protocol_descriptor_t`, the fields that a submission reads. -/
structure ProtocolDescriptor where
  flags : BitVec 32 := 0
  methodCount : ℕ := 0
  maxRequestBytes : ℕ := 0
  maxResponseBytes : ℕ := 0
  maxResources : ℕ := 0
  methodBitmap : ℕ → BitVec 64 := fun _ => 0
  onewayBitmap : ℕ → BitVec 64 := fun _ => 0
  methodRights : ℕ → Mask := fun _ => 0

def ProtocolDescriptor.allowsMethod (d : ProtocolDescriptor) (methodId : ℕ) : Bool :=
  decide (methodId ≠ 0) && decide (methodId ≤ d.methodCount) &&
    decide (methodId ≤ protocolMaxMethodId) &&
    (d.methodBitmap ((methodId - 1) / 64)).getLsbD ((methodId - 1) % 64)

def ProtocolDescriptor.allowsOneway (d : ProtocolDescriptor) (methodId : ℕ) : Bool :=
  d.allowsMethod methodId && (d.onewayBitmap ((methodId - 1) / 64)).getLsbD ((methodId - 1) % 64)

def ProtocolDescriptor.allowsMethodRights (d : ProtocolDescriptor) (methodId : ℕ)
    (rights : Mask) : Bool :=
  d.allowsMethod methodId &&
    rights &&& d.methodRights (methodId - 1) == d.methodRights (methodId - 1)

inductive SubmitTarget where
  | client (protocol : ℕ)
  | kernel
  deriving DecidableEq, Repr

/-- `endpoint_is_client`, or the binding of a kernel view. -/
def submitTargetOf (e : Entry) : Option SubmitTarget :=
  match e.info.binding, e.object with
  | .clientEnd, some (.protocolEndpoint p .client) => some (.client p)
  | .kernelView, _ => some .kernel
  | _, _ => none

/-! ## The inputs -/

/-- The caller's memory, the allocator and the timer, whether the write of the handle
faults, and what happens to the invocation before and after the call has seen that. -/
structure SubmitEnv where
  byteAt : ℕ → Option (BitVec 8) := fun _ => none
  sizeAt : ℕ → Option ℕ := fun _ => none
  frameAt : ℕ → Option SubmitFrame := fun _ => none
  dispositionAt : ℕ → Option Disposition := fun _ => none
  now : ℕ := 0
  stateAllocated : Bool := true
  watchAllocated : Bool := true
  objectAllocated : Bool := true
  requestAllocated : Bool := true
  responderAllocated : Bool := true
  callerAllocated : Bool := true
  batchAllocated : Bool := true
  outputFaults : Bool := false
  window : List DeliveryAction := []
  meanwhile : List DeliveryAction := []

/-- The protocols with their descriptors, the global budget, and whether there is a kernel
dispatcher. -/
structure SubmitWorld where
  protocols : ℕ → ProtocolState
  descriptors : ℕ → ProtocolDescriptor := fun _ => {}
  budget : ProtocolBudget := {}
  dispatcher : Bool := true

/-- The copy of an array of dispositions in `snapshot_request`. -/
def copyArray (read : ℕ → Option Disposition) (base count : ℕ) : Except Status (List Disposition) :=
  if count = 0 then .ok []
  else if !isUserSpaceRange base (count * Disposition.size) then .error .fault
  else
    match (List.range count).mapM fun i => read (base + i * Disposition.size) with
    | none => .error .fault
    | some ds => .ok ds

def snapshotRequest (env : SubmitEnv) (v : SubmitFrame) :
    Except Status (List (BitVec 8) × List Disposition) :=
  match copyFrom env.byteAt v.request v.requestBytes with
  | .error status => .error status
  | .ok bytes =>
    match copyArray env.dispositionAt v.resources v.resourceCount with
    | .error status => .error status
    | .ok ds => .ok (bytes, ds)

/-- `calculate_deadline`; a deadline of `none` is `no_deadline`. -/
def calculateDeadline (now budget : ℕ) : Option ℕ :=
  if budget = 0 then none
  else if 2 ^ 64 - 1 - now < budget then some (2 ^ 64 - 1)
  else some (now + budget)

structure Prepared where
  target : SubmitTarget
  info : Metadata
  methodId : ℕ
  bytes : List (BitVec 8)
  dispositions : List Disposition
  deadline : Option ℕ

def checkClient (w : SubmitWorld) (p : ℕ) (info : Metadata) (v : SubmitFrame) (oneway : Bool) :
    Option Status :=
  let d := w.descriptors p
  if (w.protocols p).valid = false then some .objectRevoked
  else if !d.allowsMethod v.methodId then some .invalidMessage
  else if !d.allowsMethodRights v.methodId info.protocolRights then some .accessDenied
  else if (d.maxRequestBytes ≠ 0 ∧ d.maxRequestBytes < v.requestBytes) ∨
      (d.maxResources ≠ 0 ∧ d.maxResources < v.resourceCount) then some .invalidMessage
  else if oneway then
    if d.flags &&& protocolFlagAllowOneway = 0 ∨ d.allowsOneway v.methodId = false then
      some .accessDenied
    else none
  else if d.allowsOneway v.methodId then some .invalidArgument
  else none

def checkKernel (v : SubmitFrame) (oneway : Bool) : Option Status :=
  if v.methodId = 0 then some .invalidArgument
  else if oneway then some .accessDenied
  else none

/-- `invoke_submit_impl` up to the creation of the invocation. -/
def prepareSubmit (env : SubmitEnv) (w : SubmitWorld) (t : ResourceTable) (target : Handle)
    (frame output : ℕ) (oneway : Bool) : Except Status Prepared :=
  match copyVersioned env.sizeAt env.frameAt SubmitFrame.size frame with
  | .error status => .error status
  | .ok v =>
    match validateSubmitFrame v oneway with
    | some status => .error status
    | none =>
      if oneway = false ∧ validUserOutput output = false then .error .fault
      else if oneway = true ∧ output ≠ 0 then .error .invalidArgument
      else if !framesDisjoint frame v then .error .invalidArgument
      else
        match t.lookupNative target with
        | none => .error .invalidHandle
        | some e =>
          if e.object = none then .error .invalidHandle
          else if e.info.metaRights &&& rightTransfer = 0 ∧ v.resourceCount ≠ 0 then
            .error .accessDenied
          else
            match snapshotRequest env v with
            | .error status => .error status
            | .ok (bytes, ds) =>
              match submitTargetOf e with
              | none => .error .wrongBinding
              | some target =>
                if e.info.protocolRights &&& protocolRightInvoke = 0 then
                  .error .accessDenied
                else
                  let refusal := match target with
                    | .client p => checkClient w p e.info v oneway
                    | .kernel => checkKernel v oneway
                  match refusal with
                  | some status => .error status
                  | none =>
                    .ok
                      { target := target
                        info := e.info
                        methodId := v.methodId
                        bytes := bytes
                        dispositions := ds
                        deadline := calculateDeadline env.now v.operationBudget }

/-! ## The call -/

def invocationInfo (target : Metadata) : Metadata where
  binding := .invocation
  protocolUuid := target.protocolUuid
  scope := target.scope
  revision := target.revision
  features := target.features
  metaRights := rightTransfer ||| rightWait ||| rightInspect
  protocolRights := 0

/-- `max_response_bytes_` and `max_response_resources_`: zero means the default. -/
def responseLimits (w : SubmitWorld) : SubmitTarget → ℕ × ℕ
  | .client p =>
    let d := w.descriptors p
    (if d.maxResponseBytes = 0 then maxMessageBytes else d.maxResponseBytes,
      if d.maxResources = 0 then Capability.maxResources else d.maxResources)
  | .kernel => (maxMessageBytes, Capability.maxResources)

def newInvocation (w : SubmitWorld) (p : Prepared) : Delivery :=
  let d := match p.target with
    | .client owner => submitted .protocol p.deadline owner
    | .kernel => submitted .kernel p.deadline 0
  { d with
    inv :=
      { d.inv with
        maxResponseBytes := (responseLimits w p.target).1
        maxResponseResources := (responseLimits w p.target).2 } }

def newRequest (id : ℕ) (p : Prepared) (oneway : Bool) (records : List TransferRecord) :
    InvocationRequest where
  state := id
  methodId := p.methodId
  bytes := p.bytes
  resources := records
  responder :=
    if oneway then {}
    else
      { object := some (.responder id)
        info := { invocationInfo p.info with binding := .responder }
        inTransit := true }

/-- A request that a queue has taken: the table of the caller, the handle of the invocation,
what was submitted, and the invocation. -/
structure Entered where
  table : ResourceTable
  handle : Handle
  dispositions : List Disposition
  delivery : Delivery

def installInvocation (id : ℕ) (t : ResourceTable) (info : Metadata) (oneway : Bool) :
    Outcome Handle :=
  if oneway then { value := 0, table := t } else t.installNative (some (.invocation id)) info

def closeInvocation (oneway : Bool) (t : ResourceTable) (h : Handle) : ResourceTable :=
  if oneway then t else (t.closeNative h).table

/-- From the batch to the queue, for a table in which the invocation is installed.  The
error is a status and the table it leaves. -/
def enqueueRequest (self id : ℕ) (env : SubmitEnv) (w : SubmitWorld) (budget : ProtocolBudget)
    (t : ResourceTable) (target : Handle) (p : Prepared) (oneway : Bool) :
    Except (Status × ResourceTable) ResourceTable :=
  match p.target with
  | .client owner =>
    if env.requestAllocated = false then .error (.resourceExhausted, t)
    else if oneway = false ∧ env.responderAllocated = false then .error (.resourceExhausted, t)
    else
      let taken := takeNativeBatch self t p.dispositions target env.batchAllocated
      if taken.value.1 ≠ .ok then .error (taken.value.1, taken.table)
      else
        let r := submitRequest self taken.table (w.protocols owner) budget
          (newRequest id p oneway taken.value.2)
        if r.status ≠ .ok then .error (r.status, r.table) else .ok r.table
  | .kernel =>
    if w.dispatcher = false then .error (.resourceExhausted, t)
    else if env.callerAllocated = false then .error (.resourceExhausted, t)
    else
      let taken := takeNativeBatch self t p.dispositions target env.batchAllocated
      if taken.value.1 ≠ .ok then .error (taken.value.1, taken.table)
      else if env.requestAllocated = false then
        let restored := restoreNativeBatch self taken.table taken.value.2
        .error (if restored.value.1 = .ok then .resourceExhausted else restored.value.1,
          restored.table)
      else .ok taken.table

/-- `invoke_submit_impl` up to the queue. -/
def enterQueue (self id : ℕ) (env : SubmitEnv) (w : SubmitWorld) (t : ResourceTable)
    (target : Handle) (frame output : ℕ) (oneway : Bool) :
    Except (Status × ResourceTable) Entered :=
  match prepareSubmit env w t target frame output oneway with
  | .error status => .error (status, t)
  | .ok p =>
    if env.stateAllocated = false then .error (.resourceExhausted, t)
    else
      let limits := responseLimits w p.target
      let reserved := if oneway then some w.budget else w.budget.reserve limits.1 limits.2
      match reserved with
      | none => .error (.resourceExhausted, t)
      | some budget =>
        if p.deadline ≠ none ∧ env.watchAllocated = false then .error (.resourceExhausted, t)
        else if oneway = false ∧ env.objectAllocated = false then
          .error (.resourceExhausted, t)
        else
          let installed := installInvocation id t (invocationInfo p.info) oneway
          if oneway = false ∧ installed.value = 0 then .error (.resourceExhausted, t)
          else
            match enqueueRequest self id env w budget installed.table target p oneway with
            | .error (status, t') =>
              .error (status, closeInvocation oneway t' installed.value)
            | .ok t' =>
              .ok
                { table := t'
                  handle := installed.value
                  dispositions := p.dispositions
                  delivery := newInvocation w p }

/-- What `invoke_submit` leaves behind.  `request` is the invocation at its creation with all
that has happened to it since, where a queue has taken the request. -/
structure SubmitOutcome where
  status : Status
  table : ResourceTable
  written : Option Handle := none
  request : Option (Delivery × List DeliveryAction) := none

/-- `invoke_submit` by the process whose table is named `self`, with the number of the new
invocation. -/
def invokeSubmit (self id : ℕ) (env : SubmitEnv) (w : SubmitWorld) (t : ResourceTable)
    (target : Handle) (frame output : ℕ) (oneway : Bool) : SubmitOutcome :=
  match enterQueue self id env w t target frame output oneway with
  | .error (status, t') => { status := status, table := t' }
  | .ok e =>
    let seen := .submit true :: env.window
    if oneway then { status := .ok, table := e.table, request := some (e.delivery, seen) }
    else if env.outputFaults then
      { status := .fault
        table := (e.table.closeNative e.handle).table
        request := some (e.delivery, seen ++ .cancel (e.delivery.route = .protocol) ::
          (env.meanwhile ++
            if (e.table.lookupNative e.handle).isSome then [.closeClient] else [])) }
    else
      { status := .ok
        table := e.table
        written := some e.handle
        request := some (e.delivery, seen) }

/-! ## What atomicity says -/

/-- Somebody has begun to receive the request: a `receive_protocol`, or the kernel worker. -/
def Stage.observed : Stage → Bool
  | .receiving | .rolledBack | .finishing | .returned => true
  | .kernelBegun | .decoding | .executing => true
  | .submitting | .waiting | .claimed | .discarded | .expired | .pending | .dropped => false

/-- The request is observed at some point while the sections run; a section that is not
enabled is passed over. -/
def Delivery.everObserved : Delivery → List DeliveryAction → Bool
  | d, [] => d.stage.observed
  | d, a :: as => d.stage.observed || everObserved ((d.step a).getD d) as

/-- No server or kernel handler observes the request, whatever happens later. -/
def SubmitOutcome.Unseen (o : SubmitOutcome) : Prop :=
  ∀ d seen, o.request = some (d, seen) → ∀ later, d.everObserved (seen ++ later) = false

def moveHandles (ds : List Disposition) : List Handle :=
  (ds.filter fun d => d.operation = .move).map Disposition.handle

/-- **`invoke_submit` is atomic on this input.**  A failure changes what no handle names and
leaves nothing to be seen; a success of a two-way call hands out the new invocation, and the
moved handles are gone and no others. -/
structure SubmitAtomic (context id : ℕ) (env : SubmitEnv) (w : SubmitWorld) (t : ResourceTable)
    (target : Handle) (frame output : ℕ) (oneway : Bool) : Prop where
  failed : (invokeSubmit context id env w t target frame output oneway).status ≠ .ok →
    (∀ k, (invokeSubmit context id env w t target frame output oneway).table.get k = t.get k) ∧
      (invokeSubmit context id env w t target frame output oneway).Unseen
  succeeded : (invokeSubmit context id env w t target frame output oneway).status = .ok →
    oneway = false →
    ∃ h p e, (invokeSubmit context id env w t target frame output oneway).written = some h ∧
      prepareSubmit env w t target frame output oneway = .ok p ∧
      (invokeSubmit context id env w t target frame output oneway).table.lookupNative h = some e ∧
      e.info.binding = .invocation ∧ e.object = some (.invocation id) ∧
      ∀ k, k ≠ h → (invokeSubmit context id env w t target frame output oneway).table.get k =
        if k ∈ moveHandles p.dispositions then none else t.get k

/-- The condition, for a two-way call whose request a queue has taken.  If the handle can be
written, it is not among the handles that the frame moves; if the write faults, the frame
moves nothing else, and nobody has begun to receive the request. -/
def OutputSafe (self id : ℕ) (env : SubmitEnv) (w : SubmitWorld) (t : ResourceTable)
    (target : Handle) (frame output : ℕ) : Prop :=
  ∀ e, enterQueue self id env w t target frame output false = .ok e →
    if env.outputFaults then
      (∀ k ∈ moveHandles e.dispositions, k = t.nextNativeHandle) ∧
        e.delivery.everObserved (.submit true :: env.window) = false
    else t.nextNativeHandle ∉ moveHandles e.dispositions

/-! ## A call that is cancelled before it is received -/

namespace Delivery

variable {d d' : Delivery} {s : InvocationState}

/-- Nobody has begun to receive the request, and nobody will: there is an outcome or a request
for a cancellation. -/
structure Barred (d : Delivery) : Prop where
  unseen : d.stage.observed = false
  refused : d.inv.Settled ∨ d.inv.cancellationRequested = true

lemma beginReceive_refused (h : s.Settled ∨ s.cancellationRequested = true) :
    s.beginReceive.value = false := by
  rw [InvocationState.beginReceive]
  rcases h with hs | hc
  · have hq : s.phase ≠ .queued := by rcases hs with hs | hs <;> simp [hs]
    rw [if_pos hq]
  · split
    · rfl
    · simp [hc]

variable {source target : Stage} {a : DeliveryAction}

lemma unseen_advanceWith (h : d.stage.observed = false)
    (hstep : d.advanceWith source target s = some d')
    (hplaces : (source.observed || !target.observed) = true) : d'.stage.observed = false := by
  obtain ⟨hstage, rfl⟩ := advanceWith_eq_some hstep
  rw [hstage] at h
  rw [h, Bool.false_or, Bool.not_eq_true'] at hplaces
  exact hplaces

lemma Barred.unseen_step (h : d.Barred) (hstep : d.step a = some d') :
    d'.stage.observed = false := by
  have hrefused := beginReceive_refused h.refused
  cases a with
  | submit accepted =>
    refine unseen_advanceWith h.unseen (advanceWith_of_advance hstep) ?_
    cases accepted <;> cases d.route <;> rfl
  | removeCompleted | expireRemove now | kernelCancelled =>
    exact unseen_advanceWith h.unseen (ite_none_right_eq_some.1 hstep).2 rfl
  | claim | cancelClaim | kernelExecute =>
    exact unseen_advanceWith h.unseen (advanceWith_of_advance hstep) rfl
  | dropCompleted =>
    exact unseen_advanceWith h.unseen
      (advanceWith_of_advance (ite_none_right_eq_some.1 hstep).2) rfl
  | violation | rollbackReceive | completeRollback | finishDispatch | closeServer
  | completeDiscarded | expireRemoved | kernelNoCaller | kernelMark | kernelReject
  | kernelRefuse error | kernelReply bytes resources error =>
    exact unseen_advanceWith h.unseen hstep rfl
  | beginReceive | kernelBegin =>
    refine unseen_advanceWith h.unseen hstep ?_
    rw [hrefused]
    rfl
  | commitClaim held =>
    rw [step] at hstep
    split at hstep
    · exact unseen_advanceWith h.unseen (advanceWith_of_advance hstep) rfl
    · exact unseen_advanceWith h.unseen hstep rfl
  | expireInPlace now =>
    cases (ite_none_right_eq_some.1 hstep).2
    exact h.unseen
  | cancel given =>
    cases hstep
    rw [Delivery.cancel]
    split
    · rfl
    · exact h.unseen
  | abandonResponder | consumeResponder | closeClient | reply bytes resources
  | fail outcome reason error | claimResult now bytes resources
  | restoreResult bytes resources | commitResult =>
    cases hstep
    exact h.unseen

/-- **A call that is barred stays so.** -/
theorem Barred.step (h : d.Barred) (hstep : d.step a = some d') : d'.Barred := by
  have hbegun : d.Begun := by
    intro hstage
    have hunseen := h.unseen
    rw [hstage] at hunseen
    exact absurd hunseen.symm Bool.false_ne_true
  exact ⟨h.unseen_step hstep, firm_step hbegun hstep h.refused⟩

lemma Barred.not_everObserved (h : d.Barred) (as : List DeliveryAction) :
    d.everObserved as = false := by
  induction as generalizing d with
  | nil => exact h.unseen
  | cons a as ih =>
    rw [everObserved, h.unseen, Bool.false_or]
    cases hstep : d.step a with
    | none => exact ih h
    | some d' => exact ih (h.step hstep)

lemma barred_cancel (h : d.stage.observed = false) (given : Bool) : (d.cancel given).Barred := by
  have hrefused : ∀ owned removed, (d.inv.cancel owned removed).state.Settled ∨
      (d.inv.cancel owned removed).state.cancellationRequested = true := by
    intro owned removed
    rw [InvocationState.cancel]
    split
    · split
      · exact .inr rfl
      · refine .inr ((Lawful.of_edited (.publishEmpty _ _ _)).cancellation ?_)
        rfl
    · exact .inr rfl
    · exact .inr rfl
    next hphase => exact .inl (.inl hphase)
    next hphase => exact .inl (.inr hphase)
  rw [Delivery.cancel]
  split
  · exact ⟨rfl, hrefused _ _⟩
  · exact ⟨h, hrefused _ _⟩

/-- Sections that are run before a `cancel` are the only ones that can observe. -/
lemma everObserved_cancel (d : Delivery) (seen rest : List DeliveryAction) (given : Bool) :
    d.everObserved (seen ++ .cancel given :: rest) = d.everObserved seen := by
  induction seen generalizing d with
  | nil =>
    cases hobs : d.stage.observed with
    | true => simp [everObserved, hobs]
    | false =>
      have hbarred := (barred_cancel hobs given).not_everObserved rest
      simpa [everObserved, hobs, Delivery.step] using hbarred
  | cons a seen ih => rw [List.cons_append, everObserved, everObserved, ih]

end Delivery

/-! ## The table -/

/-- The second table is the first with a new entry under a handle that was free. -/
structure Installed (t t' : ResourceTable) (h : Handle) (e : Entry) : Prop where
  ne_zero : h ≠ 0
  free : t.get h = none
  entry : t'.lookupNative h = some e
  others : ∀ k, k ≠ h → t'.get k = t.get k

section Table

variable {self : ℕ} {t t' t'' : ResourceTable} {h : Handle} {e : Entry}

lemma installed_installNative (ht : t.Issued) (object : KObject) (info : Metadata)
    (hne : (t.installNative (some object) info).value ≠ 0) :
    (t.installNative (some object) info).value = t.nextNativeHandle ∧
      Installed t (t.installNative (some object) info).table
        (t.installNative (some object) info).value
        { object := some object, generation := (t.installNative (some object) info).value,
          state := .active, info := info } := by
  rcases halloc : t.allocateNativeHandleLocked with ⟨h, t'⟩
  rw [installNative] at hne ⊢
  rw [halloc] at hne ⊢
  dsimp only at hne ⊢
  by_cases hh : h = 0
  · simp [hh] at hne
  rw [if_neg hh]
  have hfresh : Keeps [] t t' ∧ _ ∧ _ ∧ _ := Keeps.allocate ht halloc hh
  have hmap : t'.nativeHandleMap = t.nativeHandleMap := ResourceTable.map_allocate halloc
  refine ⟨(ResourceTable.allocate_spec halloc hh).1, hh, ?_, ?_, ?_⟩
  · rw [ResourceTable.get, ← hmap]
    exact AList.lookup_eq_none.2 hfresh.2.1
  · exact lookupNative_eq_some.2 ⟨get_put_self _ _, rfl⟩
  · intro k hk
    rw [get_put_of_ne hk, ResourceTable.get, hmap]
    rfl

lemma get_closeNative (hne : h ≠ 0) (hactive : ∀ e, t.get h = some e → e.state = .active)
    (k : Handle) : (t.closeNative h).table.get k = if k = h then none else t.get k := by
  rw [closeNative, if_neg hne]
  cases hget : t.get h with
  | none =>
    have hlook : t.lookupNative h = none := by simp [lookupNative, hget]
    rw [hlook]
    by_cases hk : k = h
    · rw [if_pos hk, hk, hget]
    · rw [if_neg hk]
  | some e =>
    have hlook := lookupNative_eq_some.2 ⟨hget, hactive e hget⟩
    rw [hlook]
    by_cases hk : k = h
    · rw [if_pos hk, hk]
      exact get_drop_self h
    · rw [if_neg hk]
      exact get_drop_of_ne hk

lemma Installed.get_close (hinst : Installed t t' h e) {moves : List Handle}
    (hget : ∀ k, t''.get k = if k ∈ moves then none else t'.get k) (k : Handle) :
    (t''.closeNative h).table.get k = if k ∈ moves then none else t.get k := by
  have hentry := lookupNative_eq_some.1 hinst.entry
  have hactive : ∀ e, t''.get h = some e → e.state = .active := by
    intro e he
    rw [hget] at he
    split at he
    · simp at he
    · rw [hentry.1, Option.some.injEq] at he
      exact he ▸ hentry.2
  rw [get_closeNative hinst.ne_zero hactive]
  by_cases hk : k = h
  · rw [if_pos hk, hk, hinst.free]
    split <;> rfl
  · rw [if_neg hk, hget, hinst.others k hk]

variable {ds : List Disposition} {allocated oneway : Bool} {target : Handle} {b : ProtocolBudget}
  {p : ProtocolState} {r : InvocationRequest} {env : SubmitEnv} {id : ℕ} {w : SubmitWorld}

lemma movedHandles_eq_moveHandles {es : List (Disposition × Entry)} (h : es.map Prod.fst = ds) :
    movedHandles es = moveHandles ds := by
  subst h
  simp [movedHandles, moveHandles, List.filter_map, Function.comp_def]

lemma get_take (hok : (takeNativeBatch self t ds target allocated).value.1 = .ok) :
    (∀ k ∈ moveHandles ds, ∃ e, t.get k = some e) ∧
      ∀ k, (takeNativeBatch self t ds target allocated).table.get k =
        if k ∈ moveHandles ds then none else t.get k := by
  obtain ⟨es, hfst, hall, -, heq⟩ := takeNativeBatch_ok hok
  have hmoved := movedHandles_eq_moveHandles hfst
  refine ⟨?_, ?_⟩
  · intro k hk
    rw [← hmoved] at hk
    obtain ⟨p, hp, -, rfl⟩ := mem_movedHandles.1 hk
    obtain ⟨e, hlook, -⟩ := (hall p hp).entry
    exact ⟨e, (lookupNative_eq_some.1 hlook).1⟩
  · intro k
    rw [heq]
    rw [hmoved, ResourceTable.get]
    split
    next hk => exact AList.lookup_eq_none.2 fun hmem => (Assoc.mem_eraseAll.1 hmem).1 hk
    next hk => exact Assoc.lookup_eraseAll_of_notMem hk _

lemma get_submitRequest (hok : (takeNativeBatch self t ds target allocated).value.1 = .ok)
    (hr : r.resources = (takeNativeBatch self t ds target allocated).value.2) (k : Handle) :
    (submitRequest self (takeNativeBatch self t ds target allocated).table p b r).table.get k =
      if (submitRequest self (takeNativeBatch self t ds target allocated).table p b r).status = .ok
      then (takeNativeBatch self t ds target allocated).table.get k else t.get k := by
  rw [submitRequest]
  split
  next status hrefusal =>
    have hback := restore_take rfl hok
    dsimp only
    rw [hr, if_neg]
    · exact hback.2.1 k
    · rw [if_pos hback.1]
      exact fun h => refusal_ne_ok (h ▸ hrefusal)
  · rw [if_pos rfl, ResourceTable.get, nativeHandleMap_commitNativeBatch]
    rfl

/-- A request that is refused changes no entry; one that is taken takes the moved handles. -/
lemma enqueueRequest_spec {p : Prepared} {result : Except (Status × ResourceTable) ResourceTable}
    (hrun : enqueueRequest self id env w b t target p oneway = result) :
    match result with
    | .error (status, t') => status ≠ .ok ∧ ∀ k, t'.get k = t.get k
    | .ok t' =>
      (∀ k ∈ moveHandles p.dispositions, ∃ e, t.get k = some e) ∧
        ∀ k, t'.get k = if k ∈ moveHandles p.dispositions then none else t.get k := by
  rw [enqueueRequest] at hrun
  cases htarget : p.target
  -- the checks that both ways make
  all_goals
    rw [htarget] at hrun
    dsimp only at hrun
    iterate 2
      split at hrun
      · subst hrun
        exact ⟨by decide, fun _ => rfl⟩
    split at hrun
    next hbad =>
      subst hrun
      refine ⟨hbad, fun k => ?_⟩
      rw [takeNativeBatch_error hbad]
    rename_i hok
    rw [not_not] at hok
  case client owner =>
    split at hrun
    next hbad =>
      subst hrun
      exact ⟨hbad, fun k => (get_submitRequest hok rfl k).trans (if_neg hbad)⟩
    next hgood =>
      subst hrun
      have htake := get_take hok
      refine ⟨htake.1, fun k => ?_⟩
      rw [get_submitRequest hok rfl, if_pos (not_not.1 hgood)]
      exact htake.2 k
  case kernel =>
    split at hrun
    · subst hrun
      have hback := restore_take rfl hok
      refine ⟨?_, hback.2.1⟩
      rw [if_pos hback.1]
      decide
    · subst hrun
      exact get_take hok

end Table

/-! ## The checks -/

section Checks

variable {env : SubmitEnv} {w : SubmitWorld} {t : ResourceTable} {target : Handle}
  {frame output : ℕ} {oneway : Bool}

variable {status : Status} {id self : ℕ}

lemma snapshotRequest_error {v : SubmitFrame} (h : snapshotRequest env v = .error status) :
    status ≠ .ok := by
  rw [snapshotRequest] at h
  split at h
  next status' hbytes =>
    cases h
    rw [copyFrom_error hbytes]
    decide
  · split at h
    next status' hds =>
      cases h
      rw [copyArray] at hds
      repeat' split at hds
      all_goals cases hds
      all_goals decide
    · simp at h

lemma prepareSubmit_error (h : prepareSubmit env w t target frame output oneway = .error status) :
    status ≠ .ok := by
  rw [prepareSubmit] at h
  split at h
  next status' hframe =>
    cases h
    exact copyVersioned_error hframe
  split at h
  next status' hvalid =>
    cases h
    rintro rfl
    rw [validateSubmitFrame] at hvalid
    split_ifs at hvalid <;> simp at hvalid
  iterate 6
    split at h
    · cases h
      decide
  split at h
  next status' hsnap =>
    cases h
    exact snapshotRequest_error hsnap
  split at h
  · cases h
    decide
  rename_i dest _
  split at h
  · cases h
    decide
  dsimp only at h
  split at h
  next status' hrefusal =>
    cases h
    rintro rfl
    cases dest with
    | client | kernel =>
      simp only [checkClient, checkKernel] at hrefusal
      split_ifs at hrefusal <;> simp at hrefusal
  · simp at h

lemma get_closeInvocation {info : Metadata} {t₁ : ResourceTable} (ht : t.Issued)
    (hne : ¬ (oneway = false ∧ (installInvocation id t info oneway).value = 0))
    (hsame : ∀ k, t₁.get k = (installInvocation id t info oneway).table.get k) (k : Handle) :
    (closeInvocation oneway t₁ (installInvocation id t info oneway).value).get k = t.get k := by
  cases oneway with
  | true => exact hsame k
  | false =>
    have hne' : (t.installNative (some (.invocation id)) info).value ≠ 0 :=
      fun hzero => hne ⟨rfl, hzero⟩
    obtain ⟨-, hinst⟩ := installed_installNative ht (.invocation id) info hne'
    have hget : ∀ k, t₁.get k = if k ∈ ([] : List Handle) then none
        else (t.installNative (some (.invocation id)) info).table.get k := hsame
    exact hinst.get_close hget k

/-- **A failure before the queue has taken the request changes no entry.** -/
theorem enterQueue_error {t' : ResourceTable} (ht : t.Issued)
    (hrun : enterQueue self id env w t target frame output oneway = .error (status, t')) :
    status ≠ .ok ∧ ∀ k, t'.get k = t.get k := by
  have hexhausted : (Except.error (.resourceExhausted, t) : Except (Status × ResourceTable) Entered)
      = .error (status, t') → status ≠ .ok ∧ ∀ k, t'.get k = t.get k := by
    intro heq
    cases heq
    exact ⟨by decide, fun _ => rfl⟩
  rw [enterQueue] at hrun
  split at hrun
  next status' hprepare =>
    cases hrun
    exact ⟨prepareSubmit_error hprepare, fun _ => rfl⟩
  split at hrun
  · exact hexhausted hrun
  dsimp only at hrun
  iterate 4
    split at hrun
    · exact hexhausted hrun
  rename_i hne
  split at hrun
  next status' t₁ henqueue =>
    cases hrun
    obtain ⟨hstatus, hsame⟩ := enqueueRequest_spec henqueue
    exact ⟨hstatus, get_closeInvocation ht hne hsame⟩
  · simp at hrun

/-- **What a request has taken with it when a queue has it.**  The table is the one with the
invocation installed, without the handles that the frame moves. -/
theorem enterQueue_ok {e : Entered} (ht : t.Issued)
    (hrun : enterQueue self id env w t target frame output false = .ok e) :
    ∃ p t₁ entry, prepareSubmit env w t target frame output false = .ok p ∧
      e.dispositions = p.dispositions ∧ e.handle = t.nextNativeHandle ∧
      Installed t t₁ e.handle entry ∧ entry.info.binding = .invocation ∧
      entry.object = some (.invocation id) ∧
      (∀ k ∈ moveHandles e.dispositions, ∃ e', t₁.get k = some e') ∧
      ∀ k, e.table.get k = if k ∈ moveHandles e.dispositions then none else t₁.get k := by
  rw [enterQueue] at hrun
  split at hrun
  · simp at hrun
  rename_i p hprepare
  split at hrun
  · simp at hrun
  dsimp only at hrun
  iterate 4
    split at hrun
    · simp at hrun
  rename_i hne
  split at hrun
  · simp at hrun
  rename_i t' henqueue
  cases hrun
  have hne' : (t.installNative (some (.invocation id)) (invocationInfo p.info)).value ≠ 0 :=
    fun hzero => hne ⟨rfl, hzero⟩
  obtain ⟨hnext, hinst⟩ := installed_installNative ht (.invocation id) (invocationInfo p.info) hne'
  obtain ⟨hmem, hget⟩ := enqueueRequest_spec henqueue
  exact ⟨p, _, _, hprepare, rfl, hnext, hinst, rfl, rfl, hmem, hget⟩

end Checks

/-! ## Atomicity -/

section Atomicity

variable {self id : ℕ} {env : SubmitEnv} {w : SubmitWorld} {t : ResourceTable} {target : Handle}
  {frame output : ℕ}

lemma get_unchanged_iff {t₁ : ResourceTable} {h : Handle} {entry : Entry} {moves : List Handle}
    (hinst : Installed t t₁ h entry) (hmem : ∀ k ∈ moves, ∃ e, t₁.get k = some e) :
    (∀ k, (if k ∈ moves then none else t.get k) = t.get k) ↔ ∀ k ∈ moves, k = h := by
  constructor
  · intro hsame k hk
    by_contra hne
    obtain ⟨e, he⟩ := hmem k hk
    have hnone := hsame k
    rw [if_pos hk, ← hinst.others k hne, he] at hnone
    exact absurd hnone (by simp)
  · intro hall k
    split
    next hk => rw [hall k hk, hinst.free]
    · rfl

lemma submitAtomic_of_error (ht : t.Issued) {oneway : Bool} {status : Status} {t' : ResourceTable}
    (hrun : enterQueue self id env w t target frame output oneway = .error (status, t')) :
    SubmitAtomic self id env w t target frame output oneway := by
  obtain ⟨hstatus, hsame⟩ := enterQueue_error ht hrun
  have heq : invokeSubmit self id env w t target frame output oneway
      = { status := status, table := t' } := by
    rw [invokeSubmit, hrun]
  refine ⟨fun _ => ?_, fun hok => ?_⟩
  · rw [heq]
    exact ⟨hsame, fun d seen hreq => by simp at hreq⟩
  · rw [heq] at hok
    exact absurd hok hstatus

variable {e : Entered}

lemma submitAtomic_faulting_iff (ht : t.Issued)
    (hrun : enterQueue self id env w t target frame output false = .ok e)
    (hfaults : env.outputFaults = true) :
    SubmitAtomic self id env w t target frame output false ↔
      (∀ k ∈ moveHandles e.dispositions, k = t.nextNativeHandle) ∧
        e.delivery.everObserved (.submit true :: env.window) = false := by
  obtain ⟨p, t₁, entry, -, -, hnext, hinst, -, -, hmem, hget⟩ := enterQueue_ok ht hrun
  have hcall : (invokeSubmit self id env w t target frame output false).status = .fault ∧
      ∀ k, (invokeSubmit self id env w t target frame output false).table.get k =
        if k ∈ moveHandles e.dispositions then none else t.get k := by
    rw [invokeSubmit, hrun]
    dsimp only
    rw [if_neg Bool.false_ne_true, if_pos hfaults]
    exact ⟨rfl, hinst.get_close hget⟩
  obtain ⟨hstatus, htable⟩ := hcall
  have hunseen : (invokeSubmit self id env w t target frame output false).Unseen ↔
      e.delivery.everObserved (.submit true :: env.window) = false := by
    rw [invokeSubmit, hrun]
    dsimp only
    rw [if_neg Bool.false_ne_true, if_pos hfaults]
    constructor
    · intro h
      have hnow := h _ _ rfl []
      rwa [List.append_nil, Delivery.everObserved_cancel] at hnow
    · rintro h d seen heq later
      cases heq
      rw [List.append_assoc]
      exact (Delivery.everObserved_cancel _ _ _ _).trans h
  rw [← hnext, ← get_unchanged_iff hinst hmem, ← hunseen]
  have hne : (invokeSubmit self id env w t target frame output false).status ≠ .ok := by
    rw [hstatus]
    decide
  constructor
  · intro h
    obtain ⟨hsame, hnot⟩ := h.failed hne
    exact ⟨fun k => (htable k).symm.trans (hsame k), hnot⟩
  · rintro ⟨hsame, hnot⟩
    exact ⟨fun _ => ⟨fun k => (htable k).trans (hsame k), hnot⟩, fun hok => absurd hok hne⟩

lemma submitAtomic_writing_iff (ht : t.Issued)
    (hrun : enterQueue self id env w t target frame output false = .ok e)
    (hfaults : env.outputFaults = false) :
    SubmitAtomic self id env w t target frame output false ↔
      t.nextNativeHandle ∉ moveHandles e.dispositions := by
  obtain ⟨p, t₁, entry, hprepare, hds, hnext, hinst, hbinding, hobject, -, hget⟩ :=
    enterQueue_ok ht hrun
  have heq : invokeSubmit self id env w t target frame output false =
      { status := .ok
        table := e.table
        written := some e.handle
        request := some (e.delivery, .submit true :: env.window) } := by
    rw [invokeSubmit, hrun]
    dsimp only
    rw [if_neg Bool.false_ne_true, hfaults, if_neg Bool.false_ne_true]
  rw [← hnext]
  constructor
  · intro h hmoved
    obtain ⟨h', -, e', hwritten, -, hlook, -⟩ := h.succeeded (by rw [heq]) rfl
    rw [heq] at hwritten hlook
    obtain rfl := some.inj hwritten
    have hnone := hget e.handle
    rw [if_pos hmoved] at hnone
    exact absurd (lookupNative_eq_some.1 hlook).1 (by simp [hnone])
  · intro hkept
    refine ⟨fun hbad => absurd (by rw [heq]) hbad, fun _ _ => ?_⟩
    refine ⟨e.handle, p, entry, by rw [heq], hprepare, ?_, hbinding, hobject, ?_⟩
    · rw [heq]
      have hentry := lookupNative_eq_some.1 hinst.entry
      refine lookupNative_eq_some.2 ⟨?_, hentry.2⟩
      exact (hget e.handle).trans ((if_neg hkept).trans hentry.1)
    · intro k hk
      rw [heq]
      refine (hget k).trans ?_
      rw [hds, hinst.others k hk]

/-- **`invoke_submit` is atomic exactly when its output is safe.**  A one-way call has no
output. -/
theorem submitAtomic_iff (ht : t.Issued) (oneway : Bool) :
    SubmitAtomic self id env w t target frame output oneway ↔
      (oneway = false → OutputSafe self id env w t target frame output) := by
  cases hrun : enterQueue self id env w t target frame output oneway with
  | error r =>
    refine ⟨fun _ honeway e he => ?_, fun _ => submitAtomic_of_error ht hrun⟩
    subst honeway
    rw [hrun] at he
    simp at he
  | ok e =>
    cases oneway with
    | true =>
      have hok : (invokeSubmit self id env w t target frame output true).status = .ok := by
        rw [invokeSubmit, hrun]
        rfl
      exact ⟨fun _ h => absurd h (by decide), fun _ =>
        ⟨fun hbad => absurd hok hbad, fun _ h => absurd h (by decide)⟩⟩
    | false =>
      have hsafe : (false = false → OutputSafe self id env w t target frame output) ↔
          if env.outputFaults then
            (∀ k ∈ moveHandles e.dispositions, k = t.nextNativeHandle) ∧
              e.delivery.everObserved (.submit true :: env.window) = false
          else t.nextNativeHandle ∉ moveHandles e.dispositions := by
        refine ⟨fun h => h rfl e hrun, fun h _ e' he' => ?_⟩
        rw [hrun, Except.ok.injEq] at he'
        exact he' ▸ h
      rw [hsafe]
      cases hfaults : env.outputFaults with
      | true =>
        rw [if_pos rfl]
        exact submitAtomic_faulting_iff ht hrun hfaults
      | false =>
        rw [if_neg Bool.false_ne_true]
        exact submitAtomic_writing_iff ht hrun hfaults

end Atomicity

/-! ## Two submissions -/

def callerTable : ResourceTable :=
  let t := (({} : ResourceTable).installNative (some (.protocolEndpoint 7 .client))
    { binding := .clientEnd, protocolRights := protocolRightInvoke }).table
  (t.installNative (some (.plain .file 3)) { metaRights := rightTransfer }).table

def oneMethod : SubmitWorld where
  protocols := fun _ =>
    { fifo := { capacity := 4 }, maxBytes := 64, maxResources := 8, owners := fun _ => 1 }
  descriptors := fun _ =>
    { methodCount := 1, methodBitmap := fun _ => 1, methodRights := fun _ => protocolRightInvoke }

def movingEnv (moved : Handle) (faults : Bool) : SubmitEnv where
  sizeAt := fun _ => some 72
  frameAt := fun _ => some { methodId := 1, resources := 0x2000, resourceCount := 1 }
  dispositionAt := fun _ => some { handle := moved, operation := .move }
  outputFaults := faults

lemma issued_callerTable : callerTable.Issued := by
  have hempty : ({} : ResourceTable).Issued :=
    { next_lt := by decide
      below := fun h hh => absurd hh (AList.notMem_empty h) }
  have hfirst : Keeps [] ({} : ResourceTable) _ := TableOp.keeps hempty
    (.install (some (.protocolEndpoint 7 .client))
      { binding := .clientEnd, protocolRights := protocolRightInvoke })
  have hsecond : Keeps [] _ callerTable := TableOp.keeps hfirst.issued
    (.install (some (.plain .file 3)) { metaRights := rightTransfer })
  exact hsecond.issued

/-- The file is moved, and the caller gets handle 3. -/
theorem submitAtomic_movingFile :
    (invokeSubmit 0 5 (movingEnv 2 false) oneMethod callerTable 1 0x1000 0x3000 false).written
        = some 3 ∧
      SubmitAtomic 0 5 (movingEnv 2 false) oneMethod callerTable 1 0x1000 0x3000 false := by
  refine ⟨by decide, (submitAtomic_iff issued_callerTable false).2 fun _ e he => ?_⟩
  have hmoves : (enterQueue 0 5 (movingEnv 2 false) oneMethod callerTable 1 0x1000 0x3000
      false).toOption.map (fun e => moveHandles e.dispositions) = some [2] := by decide
  rw [he] at hmoves
  have hlist : moveHandles e.dispositions = [2] := some.inj hmoves
  have hkept : callerTable.nextNativeHandle ∉ moveHandles e.dispositions := by
    rw [hlist]
    decide
  exact hkept

/-- The file is lost where the handle cannot be written, and a frame that moves handle 3 gets
a handle that names nothing. -/
theorem not_submitAtomic_moving :
    ¬ SubmitAtomic 0 5 (movingEnv 2 true) oneMethod callerTable 1 0x1000 0x3000 false ∧
      ¬ SubmitAtomic 0 5 (movingEnv 3 false) oneMethod callerTable 1 0x1000 0x3000 false := by
  constructor
  · intro h
    have hsame := (h.failed (by decide)).1 2
    exact absurd hsame (by decide)
  · intro h
    obtain ⟨k, p, e, hwritten, -, hlook, -⟩ := h.succeeded (by decide) rfl
    have hthree : (invokeSubmit 0 5 (movingEnv 3 false) oneMethod callerTable 1 0x1000 0x3000
        false).written = some 3 := by decide
    obtain rfl := some.inj (hthree.symm.trans hwritten)
    have hnone : (invokeSubmit 0 5 (movingEnv 3 false) oneMethod callerTable 1 0x1000 0x3000
        false).table.lookupNative 3 = none := by decide
    exact absurd (hnone.symm.trans hlook) (by simp)

end Naos.Ipc
