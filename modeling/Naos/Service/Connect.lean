import Naos.Service.Directory
import Naos.Ipc.Attenuation
import Naos.Ipc.Objects
import Naos.Ipc.Submit
import Naos.Ipc.Unique

/-!
# Connecting to a service

`connect_service` makes the two ends of a new protocol, sends the server end to the listener
in a message of its own and returns the client end.  The ends are made first: when there is
no memory for the message or no room in the queue, the transfer record still has the server
end, and the destructors take both ends back.

Between its look into the directory and its message other threads may run, so the state of
the channels in the first part is an argument of its own.
-/

namespace Naos.Service

open Capability Naos.Ipc Function ObjectWorld

/-! ## Descriptors -/

/-- `na_protocol_descriptor_t` -/
structure DescriptorFrame extends ProtocolDescriptor where
  structSize : ℕ
  uuid : BitVec 128
  scope : Scope
  revision : ℕ := 1
  features : Mask := 0
  protocolRights : Mask
  reserved0 : ℕ := 0
  reserved1 : ℕ := 0

/-- `sizeof(na_protocol_descriptor_t)` -/
def descriptorSize : ℕ := 8 + 16 + 8 * 8 + 2 * 8 + 2 * (4 * 8) + 256 * 8

namespace DescriptorFrame

variable (f : DescriptorFrame)

def bit (bitmap : ℕ → BitVec 64) (methodId : ℕ) : Bool :=
  (bitmap ((methodId - 1) / 64)).getLsbD ((methodId - 1) % 64)

/-- The checks of the fields in `validate_descriptor`. -/
def fieldsValid : Bool :=
  decide (descriptorSize ≤ f.structSize) && f.flags &&& ~~~protocolFlagAllowOneway == 0 &&
    f.reserved0 == 0 && f.reserved1 == 0 && f.uuid != 0 && f.scope != .unset &&
    f.methodCount != 0 && decide (f.methodCount ≤ protocolMaxMethodId) &&
    decide (f.maxRequestBytes ≤ maxMessageBytes) &&
    decide (f.maxResponseBytes ≤ maxMessageBytes) &&
    decide (f.maxResources ≤ Capability.maxResources) &&
    f.protocolRights &&& rightInvoke != 0 && bit f.methodBitmap f.methodCount

def unusedValid (methodId : ℕ) : Bool :=
  !bit f.methodBitmap methodId && !bit f.onewayBitmap methodId && f.methodRights (methodId - 1) == 0

def methodValid (methodId : ℕ) : Bool :=
  (!bit f.onewayBitmap methodId || bit f.methodBitmap methodId) &&
    (!bit f.onewayBitmap methodId || f.flags &&& protocolFlagAllowOneway != 0) &&
    (!bit f.methodBitmap methodId || f.methodRights (methodId - 1) != 0 &&
        within (f.methodRights (methodId - 1)) f.protocolRights)

def validate : Status :=
  if !f.fieldsValid then .invalidArgument
  else if !(List.range' (f.methodCount + 1) (protocolMaxMethodId - f.methodCount)).all
      f.unusedValid then
    .invalidArgument
  else if !(List.range' 1 f.methodCount).all f.methodValid then .invalidArgument
  else .ok

def descriptor : Descriptor where
  uuid := f.uuid
  scope := f.scope
  revision := f.revision
  features := f.features
  protocolRights := f.protocolRights
  maxRequestBytes := f.maxRequestBytes

end DescriptorFrame

/-- `protocol_descriptor`: `create_protocol_descriptor` makes it of a valid frame, and it does
not change after that. -/
structure DescriptorObject where
  frame : DescriptorFrame
  valid : frame.validate = .ok

/-- `create_protocol_descriptor` from the copy of the frame to the installation: the object and
what its handle is given. -/
def createProtocolDescriptor (f : DescriptorFrame) : Except Status (DescriptorObject × Metadata) :=
  if h : f.validate = .ok then
    .ok (⟨f, h⟩,
      { binding := .none
        protocolUuid := f.uuid
        scope := f.scope
        revision := f.revision
        features := f.features
        metaRights := rightDuplicate ||| rightTransfer ||| rightInspect
        protocolRights := f.protocolRights })
  else .error f.validate

/-! ## Sending from the kernel -/

/-- What `enqueue_kernel` leaves. -/
structure KernelEnqueue where
  status : Status
  world : ChannelWorld
  records : List TransferRecord

def pushed (w : ChannelWorld) (c : ℕ) (side : Side) (fifo : BoundedQueue ChannelMessage)
    (m : ChannelMessage) : ChannelWorld :=
  (w.modify c fun s =>
    { s with
      queues := update s.queues side
        { fifo := fifo
          bytes := (s.queues side).bytes + m.bytes.length
          resources := (s.queues side).resources + m.resources.length } }).notifyChannelWaiters

/-- `channel_state::enqueue_kernel`; a limit of zero is none. -/
def enqueueKernel (w : ChannelWorld) (c : ℕ) (sender : Side) (m : ChannelMessage)
    (records : List TransferRecord) (maxQueueMessages : ℕ) : KernelEnqueue :=
  let s := w.channels c
  let receiver := peer sender
  if unacceptable s m records.length then ⟨.invalidArgument, w, records⟩
  else if oversized s m records.length then ⟨.invalidMessage, w, records⟩
  else if s.owners receiver = 0 then ⟨.peerClosed, w, records⟩
  else if (maxQueueMessages != 0 && decide (maxQueueMessages ≤ (s.queues receiver).fifo.size)) ||
      congested s receiver m records.length then
    ⟨.wouldBlock, w, records⟩
  else
    match w.reserveGlobal m.bytes.length records.length with
    | none => ⟨.resourceExhausted, w, records⟩
    | some w' =>
      match appendAll m records with
      | none =>
        ⟨.resourceExhausted, w'.releaseGlobal m.bytes.length records.length, records⟩
      | some m' =>
        match (s.queues receiver).fifo.tryPush m' with
        | none => ⟨.wouldBlock, w'.releaseGlobal m.bytes.length records.length, records⟩
        | some fifo =>
          { status := .ok
            world := pushed w' c receiver fifo m'
            records := records.map fun r => { r with resource := r.resource.movedFrom } }

/-! ## The call -/

/-- The arguments of `connect_service`. -/
structure ConnectRequest where
  uri : Uri
  expectedUuid : BitVec 128
  requestedRights : Mask := 0
  requestedRevision : ℕ := 0
  requestedFeatures : Mask := 0

/-- The memory that `connect_service` gets: for the ends, and for the message. -/
structure ConnectMemory where
  ends : Bool := true
  message : Bool := true

/-- What `connect_service` leaves, with the endpoint objects it has made. -/
structure Connection where
  result : Option Errno := none
  clientResource : TransferredResource := {}
  selectedRevision : ℕ := 0
  selectedFeatures : Mask := 0
  directory : Directory
  world : ObjectWorld
  made : List KObject := []

/-- The hooks of `release_listener`. -/
def releaseListener (l : ListenerEntry) : List Hook :=
  (l.sendEndpoint.toList ++ l.descriptor.toList).map fun o => .release o .tableRoot

/-- The errors of `create_protocol_endpoint_objects`. -/
def creationErrno : Status → Errno
  | .resourceExhausted => .enomem
  | .accessDenied => .eacces
  | .invalidArgument => .einval
  | _ => .eio

/-- The errors of `enqueue_kernel`. -/
def enqueueErrno : Status → Errno
  | .wouldBlock => .eagain
  | .resourceExhausted => .enomem
  | _ => .eio

def ConnectRequest.rights (r : ConnectRequest) (f : Descriptor) : Mask :=
  if r.requestedRights = 0 then f.protocolRights else r.requestedRights

def ConnectRequest.refusal (r : ConnectRequest) (f : Descriptor) : Option Errno :=
  if f.uuid ≠ r.expectedUuid then some .einval
  else if r.requestedRevision ≠ 0 ∧ f.revision < r.requestedRevision then some .enotsup
  else if !within r.requestedFeatures f.features then some .enotsup
  else if !within (r.rights f) f.protocolRights then some .eacces
  else none

/-- A new `protocol_state`, made without options. -/
def newProtocol (f : Descriptor) : ProtocolState where
  fifo := { capacity := (EndpointOptions.initial f).maxMessages }
  maxBytes := (EndpointOptions.initial f).maxBytes
  maxResources := (EndpointOptions.initial f).maxResources

def ends (p : ℕ) : List KObject := [.protocolEndpoint p .client, .protocolEndpoint p .server]

def dropEnds (w : ObjectWorld) (p : ℕ) (records : List TransferRecord) : ObjectWorld :=
  (w.applyHooks (discardRecords records)).closeServerQueue p

def serverRecord (p : ℕ) (info : Metadata) : TransferRecord where
  source := 0
  moved := true
  resource := ⟨some (.protocolEndpoint p .server), info, true⟩

def makeEnds (w : ObjectWorld) (p : ℕ) (f : Descriptor) : ObjectWorld :=
  (w.setProtocol p (newProtocol f)).hook (.acquire (.protocolEndpoint p .server) .inTransit)

/-- `connect_service` once it has the ends of the new protocol `p`. -/
def sendServerEnd (d : Directory) (w : ObjectWorld) (f : Descriptor) (request : ConnectRequest)
    (c : ℕ) (side : Side) (maxPending p : ℕ) (client server : Metadata)
    (memory : ConnectMemory) : Connection :=
  let w' := makeEnds w p f
  let o := enqueueKernel w'.channel c side { resourceCapacity := 1 } [serverRecord p server]
    maxPending
  if !memory.message then
    { result := some .enomem
      directory := d
      world := dropEnds w' p [serverRecord p server]
      made := ends p }
  else if o.status ≠ .ok then
    { result := some (enqueueErrno o.status)
      directory := d
      world := dropEnds { w' with channel := o.world } p o.records
      made := ends p }
  else
    { clientResource :=
        ⟨some (.protocolEndpoint p .client),
          { client with protocolRights := request.rights f ||| rightInvoke }, true⟩
      selectedRevision := f.revision
      selectedFeatures := f.features
      directory := d
      world := ({ w' with channel := o.world } : ObjectWorld).hook
        (.acquire (.protocolEndpoint p .client) .inTransit)
      made := ends p }

/-- `connect_service` once it has found the listener: a channel end and a descriptor. -/
def connectTo (d : Directory) (w : ObjectWorld) (f : Descriptor) (request : ConnectRequest)
    (c : ℕ) (side : Side) (maxPending p : ℕ) (memory : ConnectMemory) : Connection :=
  match request.refusal f with
  | some e => { result := some e, directory := d, world := w }
  | none =>
    match createProtocolEndpointObjects f none with
    | .error status => { result := some (creationErrno status), directory := d, world := w }
    | .ok (client, server) =>
      if !memory.ends then { result := some .enomem, directory := d, world := w }
      else sendServerEnd d w f request c side maxPending p client server memory

/-- `connect_service`.  The new protocol is `p`. -/
def connectService (descriptors : ℕ → DescriptorObject) (channels : Channels) (d : Directory)
    (w : ObjectWorld) (request : ConnectRequest) (p : ℕ) (memory : ConnectMemory) : Connection :=
  let found := d.lookupListener channels request.uri
  match found.result with
  | .error e =>
    { result := some e
      directory := found.directory
      world := w.applyHooks (found.retired.toList.flatMap releaseListener) }
  | .ok l =>
    match l.parts with
    -- Not reached: without the two objects the listener is stale.
    | none => { result := some .enoent, directory := d, world := w }
    | some (c, side, i) =>
      connectTo d w (descriptors i).frame.descriptor request c side l.maxPending p memory

/-! ## Success and failure -/

/-- The queues of the channels and their budgets are what they were. -/
structure KeepsQueues (w w' : ChannelWorld) : Prop where
  queues : ∀ c, (w'.channels c).queues = (w.channels c).queues
  globalMessages : w'.globalMessages = w.globalMessages
  globalBytes : w'.globalBytes = w.globalBytes
  globalResources : w'.globalResources = w.globalResources

structure Undone (w : ObjectWorld) (o : Connection) : Prop where
  queues : KeepsQueues w.channel o.world.channel
  client : o.clientResource.object = none
  owners : ∀ p role, .protocolEndpoint p role ∈ o.made → (o.world.protocols p).owners role = 0

/-- The call has sent the server end of the protocol `p` to a listener. -/
structure Delivered (w : ObjectWorld) (f : Descriptor) (p c : ℕ) (side : Side) (o : Connection) :
    Prop where
  /-- One message more in the queue, without bytes and with one resource: the server end. -/
  message : ∃ info,
    ((o.world.channel.channels c).queues side).fifo.items =
      ((w.channel.channels c).queues side).fifo.items ++
        [{ bytes := [], resourceCapacity := 1
           resources := [⟨some (.protocolEndpoint p .server), info, true⟩] }]
  others : ∀ c' side', (c', side') ≠ (c, side) →
    (o.world.channel.channels c').queues side' = (w.channel.channels c').queues side'
  client : o.clientResource.object = some (.protocolEndpoint p .client)
  rights : within o.clientResource.info.protocolRights f.protocolRights = true

def Connected (descriptors : ℕ → DescriptorObject) (d : Directory) (w : ObjectWorld)
    (request : ConnectRequest) (p : ℕ) (o : Connection) : Prop :=
  ∃ l c side i, d.findListenerLocked request.uri = some l ∧ l.parts = some (c, side, i) ∧
    Delivered w (descriptors i).frame.descriptor p c (peer side) o

/-! ## The channels and the hooks -/

namespace KeepsQueues

variable {w w' w'' : ChannelWorld}

lemma refl (w : ChannelWorld) : KeepsQueues w w := ⟨fun _ => rfl, rfl, rfl, rfl⟩

lemma trans (h : KeepsQueues w w') (h' : KeepsQueues w' w'') : KeepsQueues w w'' where
  queues := fun c => (h'.queues c).trans (h.queues c)
  globalMessages := h'.globalMessages.trans h.globalMessages
  globalBytes := h'.globalBytes.trans h.globalBytes
  globalResources := h'.globalResources.trans h.globalResources

lemma notify (w : ChannelWorld) : KeepsQueues w w.notifyChannelWaiters :=
  ⟨fun _ => rfl, rfl, rfl, rfl⟩

lemma channelHook (w : ChannelWorld) (h : Hook) : KeepsQueues w (w.hook h) where
  queues := fun c => by rw [channels_hook]; rfl
  globalMessages := (sameGlobals_hook w h).globalMessages
  globalBytes := (sameGlobals_hook w h).globalBytes
  globalResources := (sameGlobals_hook w h).globalResources

end KeepsQueues

section Hooks

variable (w : ObjectWorld)

lemma keepsQueues_runSection {α : Type} (i : ℕ) (o : Section α) :
    KeepsQueues w.channel (w.runSection i o).channel := by
  rw [runSection, wakeIf]
  split
  · exact .notify _
  · exact .refl _

lemma keepsQueues_discard (requests : List InvocationRequest) :
    KeepsQueues w.channel (requests.foldl discardRequest w).channel := by
  induction requests generalizing w with
  | nil => exact .refl _
  | cons r requests ih => exact (keepsQueues_runSection w r.state _).trans (ih _)

lemma keepsQueues_closeServerQueue (p : ℕ) : KeepsQueues w.channel (w.closeServerQueue p).channel :=
  (keepsQueues_discard
    { w.setProtocol p (w.protocols p).closeServerQueue.1 with
      budget := w.budget.releaseAll (w.protocols p).closeServerQueue.2 } _).trans (.notify _)

lemma keepsQueues_endpointReleased (p : ℕ) (role : Role) (l : Location) :
    KeepsQueues w.channel (w.endpointReleased p role l).channel := by
  rw [endpointReleased]
  split
  · exact keepsQueues_closeServerQueue (w.setProtocol p ((w.protocols p).released role l)) p
  · exact .refl _

lemma keepsQueues_closeClient (i : ℕ) : KeepsQueues w.channel (w.closeClient i).channel := by
  have hrun := keepsQueues_runSection w i (w.invocations i).closeClient
  rw [closeClient]
  split <;> exact hrun

lemma channel_terminalReleased (i : ℕ) : (w.terminalReleased i).channel = w.channel := by
  rw [terminalReleased]
  split
  · rw [releaseCapability]
    split
    · rfl
    · split <;> rfl
  · rfl

lemma keepsQueues_hook (h : Hook) : KeepsQueues w.channel (w.hook h).channel := by
  unfold hook
  split
  · exact .refl _
  · exact keepsQueues_endpointReleased w _ _ _
  · exact keepsQueues_endpointReleased w _ _ _
  · exact keepsQueues_closeClient w _
  · split
    · exact .refl _
    · exact keepsQueues_runSection w _ _
  · exact .refl _
  · rw [channel_terminalReleased]
    exact .refl _
  · rw [channel_terminalReleased]
    exact .refl _
  · exact .channelHook _ _

lemma keepsQueues_applyHooks (hooks : List Hook) :
    KeepsQueues w.channel (w.applyHooks hooks).channel := by
  induction hooks generalizing w with
  | nil => exact .refl _
  | cons h hooks ih => exact (keepsQueues_hook w h).trans (ih _)

lemma keepsQueues_dropEnds (p : ℕ) (records : List TransferRecord) :
    KeepsQueues w.channel (dropEnds w p records).channel :=
  (keepsQueues_applyHooks w _).trans (keepsQueues_closeServerQueue _ p)

end Hooks

/-! ## The owners of the ends -/

lemma owners_closeServerQueue (s : ProtocolState) : s.closeServerQueue.1.owners = s.owners := by
  rw [ProtocolState.closeServerQueue]
  split <;> rfl

variable (w : ObjectWorld) (p : ℕ) (role : Role)

lemma protocols_runSection {α : Type} (i : ℕ) (o : Section α) :
    (w.runSection i o).protocols = w.protocols := by
  rw [runSection, wakeIf]
  split <;> rfl

lemma protocols_discard (requests : List InvocationRequest) :
    (requests.foldl discardRequest w).protocols = w.protocols := by
  induction requests generalizing w with
  | nil => rfl
  | cons r requests ih => exact (ih _).trans (protocols_runSection w r.state _)

lemma owners_afterClose :
    ((w.closeServerQueue p).protocols p).owners role = (w.protocols p).owners role := by
  have hprotocols : (w.closeServerQueue p).protocols =
      update w.protocols p (w.protocols p).closeServerQueue.1 :=
    protocols_discard
      { w.setProtocol p (w.protocols p).closeServerQueue.1 with
        budget := w.budget.releaseAll (w.protocols p).closeServerQueue.2 } _
  rw [hprotocols, update_self, owners_closeServerQueue]

lemma owners_endpointReleased (l : Location) (role' : Role) :
    ((w.endpointReleased p role l).protocols p).owners role' =
      ((w.protocols p).released role l).owners role' := by
  have hset : (w.setProtocol p ((w.protocols p).released role l)).protocols p =
      (w.protocols p).released role l := update_self ..
  rw [endpointReleased]
  split
  · rw [owners_afterClose, hset]
  · rw [hset]

/-- The protocol of a connection has an owner of the server end, the record, and no other. -/
def HeldByRecord (s : ProtocolState) : Prop := s.owners .client = 0 ∧ s.owners .server = 1

lemma owners_dropEnds {w : ObjectWorld} {p : ℕ} (h : HeldByRecord (w.protocols p))
    (info : Metadata) (role : Role) :
    ((dropEnds w p [serverRecord p info]).protocols p).owners role = 0 := by
  have hhooks : w.applyHooks (discardRecords [serverRecord p info]) =
      w.endpointReleased p .server .inTransit := rfl
  rw [dropEnds, owners_afterClose, hhooks, owners_endpointReleased]
  cases role with
  | client => simpa [ProtocolState.released] using h.1
  | server => simp [ProtocolState.released, h.2]

/-! ## The message -/

variable {limit bytes resources c : ℕ} {w w' : ChannelWorld} {m : ChannelMessage}
  {records : List TransferRecord} {sender : Side} {f : DescriptorFrame}

lemma reserveCounter_eq_some {counter counter' : BitVec 64} {amount : ℕ}
    (h : ChannelWorld.reserveCounter counter amount limit = some counter') :
    counter' = counter + BitVec.ofNat 64 amount := by
  rw [ChannelWorld.reserveCounter] at h
  split_ifs at h
  exact (Option.some.inj h).symm

lemma reserveGlobal_eq_some (h : w.reserveGlobal bytes resources = some w') : w' = { w with
      globalMessages := w.globalMessages + 1
      globalBytes := w.globalBytes + BitVec.ofNat 64 bytes
      globalResources := w.globalResources + BitVec.ofNat 64 resources } := by
  rw [ChannelWorld.reserveGlobal] at h
  split at h
  next hm hb hr =>
    rw [← Option.some.inj h, reserveCounter_eq_some hm, reserveCounter_eq_some hb,
      reserveCounter_eq_some hr]
    rfl
  · simp at h

lemma keepsQueues_reserve_release (h : w.reserveGlobal bytes resources = some w') :
    KeepsQueues w (w'.releaseGlobal bytes resources) := by
  rw [reserveGlobal_eq_some h]
  exact
    { queues := fun _ => rfl
      globalMessages := BitVec.add_sub_cancel _ _
      globalBytes := BitVec.add_sub_cancel _ _
      globalResources := BitVec.add_sub_cancel _ _ }

lemma enqueueKernel_of_refused (h : (enqueueKernel w c sender m records limit).status ≠ .ok) :
    KeepsQueues w (enqueueKernel w c sender m records limit).world ∧
      (enqueueKernel w c sender m records limit).records = records := by
  revert h
  rw [enqueueKernel]
  iterate 5
    split
    · exact fun _ => ⟨.refl _, rfl⟩
  next hreserve =>
    have hback := keepsQueues_reserve_release hreserve
    iterate 2
      split
      · exact fun _ => ⟨hback, rfl⟩
    exact fun h => absurd rfl h

lemma fifo_pushed (w : ChannelWorld) (c : ℕ) (side : Side) (fifo : BoundedQueue ChannelMessage)
    (m : ChannelMessage) : (((pushed w c side fifo m).channels c).queues side).fifo = fifo := by
  simp [pushed, ChannelWorld.modify, ChannelWorld.notifyChannelWaiters]

lemma queues_pushed_of_ne {c' : ℕ} {side side' : Side} (h : (c', side') ≠ (c, side))
    (fifo : BoundedQueue ChannelMessage) (m : ChannelMessage) :
    ((pushed w c side fifo m).channels c').queues side' = (w.channels c').queues side' := by
  by_cases hc : c' = c
  · subst hc
    have hside : side' ≠ side := fun heq => h (by rw [heq])
    simp [pushed, ChannelWorld.modify, ChannelWorld.notifyChannelWaiters, hside]
  · simp [pushed, ChannelWorld.modify, ChannelWorld.notifyChannelWaiters, hc]

/-- What `enqueue_kernel` leaves when it has accepted: the message is the last of the queue,
and the other queues are as they were. -/
lemma enqueueKernel_of_accepted (h : (enqueueKernel w c sender m records limit).status = .ok) :
    (((enqueueKernel w c sender m records limit).world.channels c).queues
        (peer sender)).fifo.items =
      ((w.channels c).queues (peer sender)).fifo.items ++
        [{ m with resources := m.resources ++ records.map TransferRecord.resource }] ∧
      ∀ c' side', (c', side') ≠ (c, peer sender) →
        ((enqueueKernel w c sender m records limit).world.channels c').queues side' =
          (w.channels c').queues side' := by
  revert h
  rw [enqueueKernel]
  split
  · simp
  rename_i hargument
  have hcapacity : m.resources.length + records.length ≤ m.resourceCapacity := by
    simp only [unacceptable, Bool.or_eq_true, decide_eq_true_eq, not_or, not_not,
      not_lt] at hargument
    omega
  iterate 4
    split
    · simp
  next w' hreserve =>
    rw [appendAll_eq hcapacity]
    dsimp only
    split
    · simp
    next fifo hpush =>
      have hw := reserveGlobal_eq_some hreserve
      refine fun _ => ⟨?_, fun c' side' hne => ?_⟩
      · rw [fifo_pushed, BoundedQueue.tryPush_eq_some hpush]
      · rw [queues_pushed_of_ne hne, hw]

/-! ## The descriptor -/

lemma invoke_of_valid (h : f.validate = .ok) : f.protocolRights &&& rightInvoke ≠ 0 := by
  have hfields : f.fieldsValid = true := by
    rw [DescriptorFrame.validate] at h
    split at h
    · simp at h
    next hfields => simpa using hfields
  simp only [DescriptorFrame.fieldsValid, Bool.and_eq_true, bne_iff_ne] at hfields
  exact hfields.1.2

lemma within_rights (hvalid : f.validate = .ok) {rights : Mask}
    (h : within rights f.protocolRights = true) :
    within (rights ||| rightInvoke) f.protocolRights = true := by
  have hinvoke : f.protocolRights.getLsbD 0 = true := by
    by_contra hbit
    refine invoke_of_valid hvalid ?_
    ext i hi
    by_cases hzero : i = 0
    · subst hzero
      simpa [rightInvoke] using hbit
    · simp [rightInvoke, hzero]
  refine within_iff.2 fun i hi => ?_
  rw [BitVec.getLsbD_or, Bool.or_eq_true] at hi
  rcases hi with hasked | hadded
  · exact within_iff.1 h i hasked
  · have hzero : i = 0 := by
      by_contra hne
      simp [rightInvoke, hne] at hadded
    exact hzero ▸ hinvoke

/-! ## The call -/

section Call

variable {d : Directory} {w : ObjectWorld} {f : Descriptor} {request : ConnectRequest} {c : ℕ}
  {side : Side} {maxPending p : ℕ} {client server : Metadata} {memory : ConnectMemory}

lemma heldByRecord_makeEnds (w : ObjectWorld) (p : ℕ) (f : Descriptor) :
    HeldByRecord ((makeEnds w p f).protocols p) := by
  simp [HeldByRecord, makeEnds, hook, setProtocol, ProtocolState.endpointAcquired, newProtocol]

lemma owners_of_mem_ends (h : HeldByRecord (w.protocols p)) (info : Metadata) :
    ∀ p' role, KObject.protocolEndpoint p' role ∈ ends p →
      ((dropEnds w p [serverRecord p info]).protocols p').owners role = 0 := by
  intro p' role hmem
  have hp : p' = p := by
    simp only [ends, List.mem_cons, KObject.protocolEndpoint.injEq, List.not_mem_nil] at hmem
    tauto
  rw [hp]
  exact owners_dropEnds h info role

lemma undone_sendServerEnd
    (h : (sendServerEnd d w f request c side maxPending p client server memory).result ≠ none) :
    Undone w (sendServerEnd d w f request c side maxPending p client server memory) := by
  have hheld := heldByRecord_makeEnds w p f
  revert h
  rw [sendServerEnd]
  split
  · have hkeeps := keepsQueues_dropEnds (makeEnds w p f) p [serverRecord p server]
    exact fun _ => ⟨hkeeps, rfl, owners_of_mem_ends hheld server⟩
  split
  next hrefused =>
    obtain ⟨hqueues, hrecords⟩ := enqueueKernel_of_refused hrefused
    rw [hrecords]
    have hkeeps := keepsQueues_dropEnds
      { makeEnds w p f with
        channel := (enqueueKernel (makeEnds w p f).channel c side { resourceCapacity := 1 }
          [serverRecord p server] maxPending).world } p [serverRecord p server]
    exact fun _ => ⟨hqueues.trans hkeeps, rfl, owners_of_mem_ends (by exact hheld) server⟩
  · exact fun h => absurd rfl h

lemma delivered_sendServerEnd (hrights : within (request.rights f ||| rightInvoke)
      f.protocolRights = true)
    (h : (sendServerEnd d w f request c side maxPending p client server memory).result = none) :
    Delivered w f p c (peer side)
      (sendServerEnd d w f request c side maxPending p client server memory) := by
  revert h
  rw [sendServerEnd]
  iterate 2
    split
    · simp
  next haccepted =>
    obtain ⟨hitems, hothers⟩ := enqueueKernel_of_accepted (not_not.1 haccepted)
    exact fun _ => ⟨⟨server, hitems⟩, hothers, rfl, hrights⟩

lemma within_of_not_refused (h : request.refusal f = none) :
    within (request.rights f) f.protocolRights = true := by
  rw [ConnectRequest.refusal] at h
  split_ifs at h with _ _ _ hrights
  simpa using hrights

lemma undone_of_early (w : ObjectWorld) (e : Errno) (d : Directory) :
    Undone w { result := some e, directory := d, world := w } :=
  ⟨.refl _, rfl, by simp⟩

lemma undone_connectTo (h : (connectTo d w f request c side maxPending p memory).result ≠ none) :
    Undone w (connectTo d w f request c side maxPending p memory) := by
  revert h
  rw [connectTo]
  iterate 3
    split
    · exact fun _ => undone_of_early w _ d
  exact undone_sendServerEnd

lemma delivered_connectTo {frame : DescriptorFrame} (hvalid : frame.validate = .ok)
    (h : (connectTo d w frame.descriptor request c side maxPending p memory).result = none) :
    Delivered w frame.descriptor p c (peer side)
      (connectTo d w frame.descriptor request c side maxPending p memory) := by
  revert h
  rw [connectTo]
  split
  · simp
  next hasked =>
    have hrights := within_rights hvalid (within_of_not_refused hasked)
    iterate 2
      split
      · simp
    exact delivered_sendServerEnd hrights

end Call

lemma findListenerLocked_of_lookup {d : Directory} {channels : Channels} {uri : Uri}
    {l : ListenerEntry} (h : (d.lookupListener channels uri).result = .ok l) :
    d.findListenerLocked uri = some l := by
  rw [Directory.lookupListener] at h
  repeat' split at h
  all_goals cases h
  assumption

/-- **A connection is all or nothing.**  A call that returns zero has appended one message
without bytes to the queue of the listener, the one resource of the message is the server end
of the protocol whose client end is returned, and the rights of the client are within those
of the descriptor.  A call that returns an error has changed no queue and no budget of the
channels, returns no resource, and no end that it has made has an owner. -/
theorem connectService_allOrNothing (descriptors : ℕ → DescriptorObject) (channels : Channels)
    (d : Directory) (w : ObjectWorld) (request : ConnectRequest) (p : ℕ)
    (memory : ConnectMemory) :
    ((connectService descriptors channels d w request p memory).result = none →
      Connected descriptors d w request p
        (connectService descriptors channels d w request p memory)) ∧
      ((connectService descriptors channels d w request p memory).result ≠ none →
        Undone w (connectService descriptors channels d w request p memory)) := by
  rw [connectService]
  split
  · exact ⟨by simp, fun _ => ⟨keepsQueues_applyHooks w _, rfl, by simp⟩⟩
  rename_i l hfound
  split
  · exact ⟨by simp, fun _ => undone_of_early w _ d⟩
  next c side i hparts =>
    refine ⟨fun hok => ?_, undone_connectTo⟩
    exact ⟨l, c, side, i, findListenerLocked_of_lookup hfound, hparts,
      delivered_connectTo (descriptors i).valid hok⟩

/-- A protocol of one method. -/
def oneMethod : DescriptorFrame where
  structSize := descriptorSize
  uuid := 7
  scope := .other 1
  methodCount := 1
  protocolRights := rightInvoke
  methodBitmap := fun i => if i = 0 then 1 else 0
  methodRights := fun i => if i = 0 then rightInvoke else 0

/-- The service `naos://a` listens on the channel `0`, with the descriptor `0`. -/
def listening : Directory where
  listeners :=
    [⟨uriScheme ++ [0x61], some (.rawChannelEnd 0 1), some (.plain .protocolDescriptor 0), 4, 1⟩]

/-- The channels are empty, and both ends of each have an owner. -/
def openChannels : ObjectWorld where
  channel :=
    { channels := fun _ =>
        { queues := fun _ => { fifo := { capacity := 8 } }
          maxMessages := 8
          maxBytes := 4096
          maxResources := 8
          owners := fun _ => 1 } }
  protocols := fun _ => newProtocol oneMethod.descriptor

/-- A client connects to the listener with a descriptor that `create_protocol_descriptor` has
made. -/
theorem connectService_oneMethod :
    ∃ o info, createProtocolDescriptor oneMethod = .ok (o, info) ∧
      Connected (fun _ => o) listening openChannels ⟨uriScheme ++ [0x61], 7, 0, 0, 0⟩ 3
        (connectService (fun _ => o) ⟨fun _ => 8, fun _ _ => false⟩ listening openChannels
          ⟨uriScheme ++ [0x61], 7, 0, 0, 0⟩ 3 {}) := by
  refine ⟨_, _, dif_pos (by decide +kernel), ?_⟩
  exact (connectService_allOrNothing _ _ _ _ _ _ _).1 (by decide +kernel)

end Naos.Service
