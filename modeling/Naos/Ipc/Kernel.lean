import Naos.Ipc.Accounting
import Naos.Ipc.Objects

/-!
# The kernel as a waiter sees it

A thread that waits for signals looks a handle up in the table of its process and asks
the object behind it.  What the object answers depends on queues, counters and phases
that other threads change, each under a lock of its own.  This module has the signals of
every kind of object, the locked sections in which they change, and the tables.

The notification of the waiters is not part of a locked section: it follows once the
lock is dropped.  The models of the sections move `waitGeneration` where the source goes
on to notify.
-/

namespace Naos.Ipc

open Capability Function InvocationState

/-! ## Raw channels -/

namespace ChannelState

variable (s : ChannelState)

variable (side : Side)

def signals : Signals :=
  if s.valid = false then 0
  else
    signalIf (!(s.queues side).fifo.empty) signalReadable |||
    signalIf (decide (s.owners (peer side) ≠ 0) && (!(s.queues (peer side)).fifo.full &&
      decide ((s.queues (peer side)).bytes < s.maxBytes) &&
      decide ((s.queues (peer side)).resources < s.maxResources))) signalWritable |||
    signalIf (decide (s.owners (peer side) = 0)) signalPeerClosed

def setQueue (q : MessageQueue) : ChannelState :=
  { s with queues := update s.queues side q }

/-- `claim_receive`: the head of the queue, now claimed. -/
def claimReceive : Except Status (ChannelMessage × ChannelState) :=
  if s.valid = false then .error .invalidArgument
  else
    match (s.queues side).fifo.items, (s.queues side).fifo.claimFront with
    | [], _ => .error (if s.owners (peer side) = 0 then .peerClosed else .wouldBlock)
    | _ :: _, none => .error .wouldBlock
    | m :: _, some fifo =>
      .ok (m, { s.setQueue side { s.queues side with fifo := fifo } with
        activeClaims := s.activeClaims + 1 })

def holdsClaim (m : ChannelMessage) : Bool :=
  s.valid && (s.queues side).fifo.claimed && (s.queues side).fifo.items.head? == some m

/-- `cancel_receive`; `none` where it answers `false`. -/
def cancelReceive (m : ChannelMessage) : Option ChannelState :=
  if s.holdsClaim side m then
    some { s.setQueue side { s.queues side with fifo := (s.queues side).fifo.cancelClaim } with
      activeClaims := Counter.sub s.activeClaims 1 }
  else none

def pop (q : MessageQueue) (m : ChannelMessage) : MessageQueue where
  fifo := q.fifo.commitClaim
  bytes := Counter.sub q.bytes m.bytes.length
  resources := Counter.sub q.resources m.resources.length

/-- `commit_receive`; `none` where it answers `false`. -/
def commitReceive (m : ChannelMessage) : Option ChannelState :=
  if s.holdsClaim side m then
    some { s.setQueue side (pop (s.queues side) m) with
      activeClaims := Counter.sub s.activeClaims 1 }
  else none

/-- `discard`: the head is claimed and leaves at once.  The orphan collector does the
same with one message after the other. -/
def discard : Option (ChannelMessage × ChannelState) :=
  if s.valid = false then none
  else
    match (s.queues side).fifo.items, (s.queues side).fifo.claimFront with
    | m :: _, some fifo =>
      some (m, s.setQueue side (pop { s.queues side with fifo := fifo } m))
    | _, _ => none

def kernelOwnerAcquired : ChannelState :=
  { s with owners := update s.owners side (s.owners side + 1) }

def kernelOwnerReleased : ChannelState :=
  { s with owners := update s.owners side (s.owners side - 1) }

end ChannelState

/-! ## Shared rings -/

/-- `shared_ring`: the queued slots from head to tail. -/
structure SharedRing where
  slots : ℕ := 0
  slotBytes : ℕ := 0
  queued : List (List (BitVec 8)) := []
  popClaimed : Bool := false
  valid : Bool := true

namespace SharedRing

variable (r : SharedRing)

def signals : Signals :=
  if r.valid = false then 0
  else
    signalIf (decide (r.queued.length ≠ 0)) signalReadable |||
    signalIf (decide (r.queued.length < r.slots) && !r.popClaimed) signalWritable

def push (bytes : List (BitVec 8)) : Except Status SharedRing :=
  if r.valid = false ∨ r.slotBytes < bytes.length then .error .invalidArgument
  else if r.queued.length = r.slots then .error .wouldBlock
  else .ok { r with queued := r.queued ++ [bytes] }

def claimPop : Except Status (List (BitVec 8) × SharedRing) :=
  match r.valid, r.queued, r.popClaimed with
  | true, bytes :: _, false => .ok (bytes, { r with popClaimed := true })
  | _, _, _ => .error .wouldBlock

def cancelPop : SharedRing := { r with popClaimed := false }

def commitPop : Except Status SharedRing :=
  if r.popClaimed = false ∨ r.queued = [] then .error .invalidArgument
  else .ok { r with queued := r.queued.tail, popClaimed := false }

end SharedRing

/-! ## What a waiter reads -/

def objectAt (t : ResourceTable) (h : Handle) : Option KObject :=
  (t.lookupNative h).bind Entry.object

/-- The objects and the tables.  `noThread` is the flag of an exited process, and
`otherSignals` are the signals of objects whose state is not modelled. -/
structure Kernel where
  objects : ObjectWorld
  tables : ℕ → ResourceTable := fun _ => {}
  rings : ℕ → SharedRing := fun _ => {}
  noThread : ℕ → Bool := fun _ => false
  otherSignals : PlainType → ℕ → Signals := fun _ _ => 0

namespace Kernel

variable (k : Kernel)

/-- `capability_signals()` of every kind of object.  Service directories and native
directories are always writable. -/
def capabilitySignals : KObject → Signals
  | .rawChannelEnd c side => (k.objects.channel.channels c).signals side
  | .protocolEndpoint p role => (k.objects.protocols p).signals role
  | .invocation i | .responder i => (k.objects.invocations i).signals
  | .terminalDriverControl _ => 0
  | .plain .process i => signalIf (k.noThread i) signalCompleted
  | .plain .sharedRing i => (k.rings i).signals
  | .plain .serviceDirectory _ | .plain .directory _ => signalWritable
  | .plain type i => k.otherSignals type i

def nativeSignals (pid : ℕ) (h : Handle) : Signals :=
  match objectAt (k.tables pid) h with
  | none => 0
  | some o => k.capabilitySignals o

def setTable (pid : ℕ) (t : ResourceTable) : Kernel :=
  { k with tables := update k.tables pid t }

def setChannel (c : ℕ) (s : ChannelState) : Kernel :=
  { k with objects := { k.objects with channel := k.objects.channel.modify c fun _ => s } }

def setChannelWithout (c : ℕ) (s : ChannelState) (m : ChannelMessage) : Kernel :=
  { k with
    objects := { k.objects with
      channel := (k.objects.channel.modify c fun _ => s).releaseGlobal m.bytes.length
        m.resources.length } }

def setRing (i : ℕ) (r : SharedRing) : Kernel :=
  { k with rings := update k.rings i r }

/-- `notify_channel_waiters` follows. -/
def wake : Kernel := { k with objects := k.objects.wake }

end Kernel

/-! ## The locked sections -/

/-- The sections of `resource_table_t`, without the hooks they call. -/
inductive TableSection where
  | op (o : TableOp)
  | take (ds : List Disposition) (target : Handle) (allocated : Bool)
  | restore (records : List TransferRecord)
  | commit (records : List TransferRecord)
  | cloneFrom (source : ℕ) (allocated : Bool)
  | clear

def TableSection.apply (tables : ℕ → ResourceTable) (pid : ℕ) : TableSection → ResourceTable
  | .op o => o.apply (tables pid)
  | .take ds target allocated => (takeNativeBatch pid (tables pid) ds target allocated).table
  | .restore records => (restoreNativeBatch pid (tables pid) records).table
  | .commit records => (commitNativeBatch pid (tables pid) records).table
  | .cloneFrom source allocated => ((tables pid).cloneForkBindings (tables source) allocated).table
  | .clear => (tables pid).clear.table

/-- The sections of `invocation_state`. -/
inductive InvocationSection where
  | beginReceive
  | rollbackReceive
  | finishDispatch
  | markDispatched
  | setQueueOwner (owner : ℕ)
  | clearQueueOwner
  | completeReply (bytes : List (BitVec 8)) (resources : List TransferRecord) (error : ℤ)
  | completeFailure (outcome : Execution) (reason : Reason) (error : ℤ)
  | cancel (owned removed : Bool)
  | expireRemoved
  | expireInPlace
  | abandonResponder
  | consumeResponder
  | claimResult (now byteCapacity resourceCapacity : ℕ)
  | restoreResult (bytes : List (BitVec 8)) (resources : List TransferRecord)
  | commitResult

def Section.void {α : Type} (o : Section α) : Section Unit where
  state := o.state
  value := ()
  wake := o.wake

def InvocationSection.run (s : InvocationState) : InvocationSection → Section Unit
  | .beginReceive => s.beginReceive.void
  | .rollbackReceive => s.rollbackReceive.void
  | .finishDispatch => s.finishDispatch.void
  | .markDispatched => { state := s.markDispatched, value := () }
  | .setQueueOwner owner => { state := s.setQueueOwner owner, value := () }
  | .clearQueueOwner => { state := s.clearQueueOwner, value := () }
  | .completeReply bytes resources error => (s.completeReply bytes resources error).void
  | .completeFailure outcome reason error => (s.completeFailure outcome reason error).void
  | .cancel owned removed =>
    let o := (s.cancel owned removed).void
    -- `remove_queued` has notified while the lock of the invocation is held.
    { o with wake := o.wake || (owned && removed) }
  | .expireRemoved => s.expireRemoved.void
  | .expireInPlace => s.expireInPlace.void
  | .abandonResponder => s.abandonResponder.void
  | .consumeResponder => s.consumeResponder.void
  | .claimResult now byteCapacity resourceCapacity =>
    (s.claimResult now byteCapacity resourceCapacity).void
  | .restoreResult bytes resources => { state := s.restoreResult bytes resources, value := () }
  | .commitResult => s.commitResult.void

inductive Changed (s : InvocationState) : InvocationState → Prop
  | edited {s' : InvocationState} (cancelled alive : Bool)
      (h : Edited { s with cancellationRequested := cancelled, responderAlive := alive } s') :
      Changed s s'
  | phase (p : Phase) (h : s.phase = .queued ∨ s.phase = .receiving) (hp : p ≠ .consumed) :
      Changed s { s with phase := p }
  | owner (owner : Option ℕ) : Changed s { s with queueOwner := owner }
  | consume (h : s.phase = .ready) : Changed s { s with
        phase := .consumed
        resultClaimed := false
        responseBytes := []
        responseResources := []
        resultBudgetReserved := false }

namespace Changed

variable {s s' : InvocationState}

lemma of_edited (h : Edited s s') : Changed s s' :=
  .edited s.cancellationRequested s.responderAlive h

lemma of_ended (h : Ended s s') : Changed s s' := by
  obtain ⟨alive, h⟩ := h
  exact .edited s.cancellationRequested alive h

lemma beginReceive (s : InvocationState) : Changed s s.beginReceive.state := by
  rw [InvocationState.beginReceive]
  split
  · exact of_edited .same
  split
  · exact of_edited (.publishEmpty s _ _)
  next hphase _ => exact .phase _ (.inl (not_not.1 hphase)) nofun

lemma cancel (s : InvocationState) (owned removed : Bool) :
    Changed s (s.cancel owned removed).state := by
  rw [InvocationState.cancel]
  split
  · dsimp only
    split
    · exact .edited true s.responderAlive .same
    · exact .edited true s.responderAlive (.publishEmpty _ _ _)
  · exact .edited true s.responderAlive .same
  · exact .edited true s.responderAlive .same
  · exact of_edited .same
  · exact of_edited .same

/-- **What a section can do**, said once for all of them. -/
theorem run (s : InvocationState) (a : InvocationSection) : Changed s (a.run s).state := by
  cases a with
  | beginReceive => exact beginReceive s
  | rollbackReceive | finishDispatch =>
    dsimp only [InvocationSection.run, Section.void, rollbackReceive, finishDispatch]
    split
    · exact of_edited .same
    next hphase => exact .phase _ (.inr (not_not.1 hphase)) nofun
  | markDispatched =>
    dsimp only [InvocationSection.run]
    rw [markDispatched]
    split
    next hphase => exact .phase _ hphase nofun
    · exact of_edited .same
  | setQueueOwner owner =>
    dsimp only [InvocationSection.run]
    rw [setQueueOwner]
    split
    · exact .owner _
    · exact of_edited .same
  | clearQueueOwner => exact .owner _
  | completeReply bytes resources error => exact of_edited (.completeReply s _ _ _)
  | completeFailure outcome reason error => exact of_edited (.completeFailure s _ _ _)
  | cancel owned removed => exact cancel s owned removed
  | expireRemoved => exact of_edited (.expireRemoved s)
  | expireInPlace => exact of_ended (.expireInPlace s)
  | abandonResponder => exact of_ended (.abandonResponder s)
  | consumeResponder => exact of_ended (.consumeResponder s)
  | claimResult now bytes resources => exact of_edited (.claimResult s _ _ _)
  | restoreResult bytes resources => exact of_edited (.restoreResult s _ _)
  | commitResult =>
    dsimp only [InvocationSection.run, Section.void]
    rw [commitResult]
    split
    · exact of_edited .same
    next h =>
      rw [not_or, not_not] at h
      exact .consume h.2

end Changed

/-- The sections of `protocol_state`. -/
inductive ProtocolSection where
  | enqueue (r : InvocationRequest)
  | removeQueued (invocation : ℕ)
  | claim
  | cancelClaim (invocation : ℕ)
  | commitClaim (r : InvocationRequest)

structure ProtocolOutcome where
  protocol : ProtocolState
  budget : ProtocolBudget
  wake : Bool

/-- What a section of a protocol does; `none` where it changes nothing. -/
def ProtocolSection.run (p : ProtocolState) (b : ProtocolBudget) :
    ProtocolSection → Option ProtocolOutcome
  | .enqueue r =>
    if p.refusal b r = none then
      some ⟨p.push r, (b.reserve r.bytes.length (ProtocolState.resourceCountOf r)).getD b, true⟩
    else none
  | .removeQueued invocation =>
    (p.removeQueued invocation).map fun o =>
      ⟨o.2, b.release o.1.bytes.length o.1.queuedResourceCount, true⟩
  | .claim => p.claim.toOption.map fun o => ⟨o.2, b, false⟩
  | .cancelClaim invocation =>
    if p.holdsClaim invocation then some ⟨p.cancelClaim invocation, b, true⟩ else none
  | .commitClaim r =>
    if p.holdsClaim r.state then
      some ⟨(p.commitClaim r).2, b.release r.bytes.length r.queuedResourceCount, true⟩
    else none

/-- One locked section, or one capability hook.  A table calls the hooks of an object
outside its lock, before or after it changes, so they are steps of their own. -/
inductive Change where
  | table (pid : ℕ) (a : TableSection)
  | hook (h : Hook)
  | kernelOwnerAcquired (c : ℕ) (side : Side)
  | kernelOwnerReleased (c : ℕ) (side : Side)
  | send (pid c : ℕ) (sender : Side) (m : ChannelMessage) (records : List TransferRecord)
  | claimReceive (c : ℕ) (side : Side)
  | cancelReceive (c : ℕ) (side : Side) (m : ChannelMessage)
  | commitReceive (c : ℕ) (side : Side) (m : ChannelMessage)
  | discard (c : ℕ) (side : Side)
  | invocation (i : ℕ) (a : InvocationSection)
  | protocol (p : ℕ) (a : ProtocolSection)
  | ringPush (i : ℕ) (bytes : List (BitVec 8))
  | ringClaimPop (i : ℕ)
  | ringCancelPop (i : ℕ)
  | ringCommitPop (i : ℕ)
  /-- The end of `exit_process_thread`, after the table was cleared. -/
  | exit (process : ℕ)

/-- What a section does; `none` where it fails and changes nothing.  A send that is
refused is the `restore` of its batch. -/
def Kernel.apply (k : Kernel) : Change → Option Kernel
  | .table pid a => some (k.setTable pid (a.apply k.tables pid))
  | .hook h => some { k with objects := k.objects.hook h }
  | .kernelOwnerAcquired c side =>
    some (k.setChannel c ((k.objects.channel.channels c).kernelOwnerAcquired side))
  | .kernelOwnerReleased c side =>
    some (k.setChannel c ((k.objects.channel.channels c).kernelOwnerReleased side))
  | .send pid c sender m records =>
    let r := enqueue pid k.objects.channel (k.tables pid) c sender m records
    if r.status = .ok then
      some ({ k with objects := { k.objects with channel := r.world } }.setTable pid r.table)
    else none
  | .claimReceive c side =>
    ((k.objects.channel.channels c).claimReceive side).toOption.map fun o => k.setChannel c o.2
  | .cancelReceive c side m =>
    ((k.objects.channel.channels c).cancelReceive side m).map fun s => (k.setChannel c s).wake
  | .commitReceive c side m =>
    ((k.objects.channel.channels c).commitReceive side m).map fun s =>
      (k.setChannelWithout c s m).wake
  | .discard c side =>
    ((k.objects.channel.channels c).discard side).map fun o =>
      (k.setChannelWithout c o.2 o.1).wake
  | .invocation i a =>
    some { k with objects := k.objects.runSection i (a.run (k.objects.invocations i)) }
  | .protocol p a =>
    (a.run (k.objects.protocols p) k.objects.budget).map fun o =>
      { k with
        objects := { k.objects.setProtocol p o.protocol with budget := o.budget }.wakeIf o.wake }
  | .ringPush i bytes => ((k.rings i).push bytes).toOption.map fun r => (k.setRing i r).wake
  | .ringClaimPop i => (k.rings i).claimPop.toOption.map fun o => k.setRing i o.2
  | .ringCancelPop i => some (k.setRing i (k.rings i).cancelPop).wake
  | .ringCommitPop i => (k.rings i).commitPop.toOption.map fun r => (k.setRing i r).wake
  | .exit process => some { k with noThread := update k.noThread process true }

def Kernel.announces (k : Kernel) (c : Change) : Bool :=
  match k.apply c with
  | none => false
  | some k' => k.objects.channel.waitGeneration < k'.objects.channel.waitGeneration

end Naos.Ipc
