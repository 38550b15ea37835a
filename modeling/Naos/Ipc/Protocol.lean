import Naos.Ipc.Channel
import Naos.Ipc.Invocation

/-!
# Protocol endpoints

A protocol has a client end and a server end and one queue of requests between them.
A request owns its bytes, the capabilities that travel with it and, unless the method is
one-way, the responder object.  Submitting commits the batch of handles in the same
locked section that pushes the request.
-/

namespace Naos.Ipc

open Capability Function

/-- `invocation_request`, with the number of its invocation. -/
structure InvocationRequest where
  state : ℕ
  methodId : ℕ := 0
  queuedResourceCount : ℕ := 0
  bytes : List (BitVec 8) := []
  resources : List TransferRecord := []
  responder : TransferredResource := {}
  deriving DecidableEq

/-- The three counters of `reserve_protocol_global`. -/
structure ProtocolBudget where
  messages : BitVec 64 := 0
  bytes : BitVec 64 := 0
  resources : BitVec 64 := 0
  deriving DecidableEq

/-- `reserve_protocol_global`: all three or none. -/
def ProtocolBudget.reserve (b : ProtocolBudget) (bytes resources : ℕ) : Option ProtocolBudget :=
  match ChannelWorld.reserveCounter b.messages 1 globalLimits.messages,
      ChannelWorld.reserveCounter b.bytes bytes globalLimits.bytes,
      ChannelWorld.reserveCounter b.resources resources globalLimits.resources with
  | some m, some b, some r => some { messages := m, bytes := b, resources := r }
  | _, _, _ => none

def ProtocolBudget.release (b : ProtocolBudget) (bytes resources : ℕ) : ProtocolBudget where
  messages := b.messages - 1
  bytes := b.bytes - BitVec.ofNat 64 bytes
  resources := b.resources - BitVec.ofNat 64 resources

def ProtocolBudget.releaseAll (b : ProtocolBudget) (rs : List InvocationRequest) :
    ProtocolBudget :=
  rs.foldl (fun b r => b.release r.bytes.length r.queuedResourceCount) b

/-- `protocol_state`; the counters of the two roles wrap as words do. -/
structure ProtocolState where
  fifo : BoundedQueue InvocationRequest
  queuedBytes : ℕ := 0
  queuedResources : ℕ := 0
  maxBytes : ℕ
  maxResources : ℕ
  owners : Role → BitVec 64 := fun _ => 0
  roots : Role → BitVec 64 := fun _ => 0
  activeOperations : ℕ := 0
  activeClaims : ℕ := 0
  valid : Bool := true
  serverClosed : Bool := false

namespace ProtocolState

variable (p : ProtocolState)

def signals : Role → Signals
  | .client =>
    if p.valid = false then 0
    else
      signalIf (decide (p.owners .server ≠ 0) && !p.fifo.full &&
        decide (p.queuedBytes < p.maxBytes) && decide (p.queuedResources < p.maxResources))
        signalWritable |||
      signalIf (decide (p.owners .server = 0) || p.serverClosed) signalPeerClosed
  | .server =>
    if p.valid = false then 0
    else
      signalIf (!p.fifo.empty) signalReadable |||
      signalIf (decide (p.owners .client = 0)) signalPeerClosed

/-! ## Submitting -/

variable (r : InvocationRequest)

def resourceCountOf : ℕ :=
  r.resources.length + if r.responder.object.isSome then 1 else 0

/-- The status with which `enqueue` refuses a request, if it does. -/
def refusal (b : ProtocolBudget) (r : InvocationRequest) : Option Status :=
  if p.valid = false ∨ p.maxBytes < r.bytes.length ∨ p.maxResources < r.resources.length then
    some .invalidMessage
  else if p.owners .server = 0 ∨ p.serverClosed = true then some .peerClosed
  else if p.maxResources < resourceCountOf r then some .invalidMessage
  else if p.fifo.full = true ∨ p.maxBytes - r.bytes.length < p.queuedBytes ∨
      p.maxResources - resourceCountOf r < p.queuedResources then some .wouldBlock
  else if b.reserve r.bytes.length (resourceCountOf r) = none then some .resourceExhausted
  else if (p.fifo.tryPush r).isNone then some .wouldBlock
  else none

def push : ProtocolState :=
  let r' := { r with queuedResourceCount := resourceCountOf r }
  { p with
    fifo := (p.fifo.tryPush r').getD p.fifo
    queuedBytes := p.queuedBytes + r.bytes.length
    queuedResources := p.queuedResources + resourceCountOf r }

/-! ## Receiving -/

def uncount : ProtocolState :=
  { p with
    queuedBytes := Counter.sub p.queuedBytes r.bytes.length
    queuedResources := Counter.sub p.queuedResources r.queuedResourceCount }

/-- `remove_queued`: the request of an invocation, where it is in the queue and not the
claimed head. -/
def removeQueued (invocation : ℕ) : Option (InvocationRequest × ProtocolState) :=
  if p.valid = false then none
  else
    let offset := p.fifo.items.findIdx fun r => r.state == invocation
    match p.fifo.items[offset]?, p.fifo.removeAt offset with
    | some r, some fifo => some (r, { p.uncount r with fifo := fifo })
    | _, _ => none

/-- `claim`: the head of the queue, now claimed. -/
def claim : Except Status (InvocationRequest × ProtocolState) :=
  if p.valid = false then .error .resourceExhausted
  else
    match p.fifo.items, p.fifo.claimFront with
    | [], _ => .error (if p.owners .client = 0 then .peerClosed else .wouldBlock)
    | _ :: _, none => .error .wouldBlock
    | r :: _, some fifo =>
      .ok (r, { p with fifo := fifo, activeClaims := p.activeClaims + 1 })

def holdsClaim (invocation : ℕ) : Bool :=
  p.valid && p.fifo.claimed && (p.fifo.items.head?.map InvocationRequest.state == some invocation)

def cancelClaim (invocation : ℕ) : ProtocolState :=
  if p.holdsClaim invocation then
    { p with fifo := p.fifo.cancelClaim, activeClaims := Counter.sub p.activeClaims 1 }
  else p

/-- `commit_claim`, which is also `abort_claim`: the head leaves the queue. -/
def commitClaim : Bool × ProtocolState :=
  if p.holdsClaim r.state then
    (true,
      { p.uncount r with fifo := p.fifo.commitClaim, activeClaims := Counter.sub p.activeClaims 1 })
  else (false, p)

/-! ## The capability hooks -/

def endpointAcquired (role : Role) (location : Location) : ProtocolState :=
  { p with
    owners := update p.owners role (p.owners role + 1)
    roots := if location = .tableRoot then update p.roots role (p.roots role + 1)
      else p.roots }

/-- The locked part of `close_server_queue`: the requests that are not behind a claimed
head are taken out. -/
def closeServerQueue : ProtocolState × List InvocationRequest :=
  if p.fifo.claimed then ({ p with serverClosed := true }, [])
  else
    ({ p with
      serverClosed := true
      fifo := { p.fifo with items := [] }
      queuedBytes := p.fifo.items.foldl (fun b r => Counter.sub b r.bytes.length) p.queuedBytes
      queuedResources := p.fifo.items.foldl
        (fun n r => Counter.sub n r.queuedResourceCount) p.queuedResources },
      p.fifo.items)

/-- The counters after `endpoint_released`. -/
def released (role : Role) (location : Location) : ProtocolState :=
  { p with
    owners := update p.owners role (p.owners role - 1)
    roots := if location = .tableRoot then update p.roots role (p.roots role - 1)
      else p.roots }

/-- `endpoint_released` closes the queue when the last owner of the server end goes. -/
def closesServer (role : Role) (location : Location) : Bool :=
  decide (role = .server) && decide ((p.released role location).owners .server = 0)

end ProtocolState

/-! ## The callers of a batch -/

/-- What `protocol_state::enqueue` leaves behind, on the table of the submitter too. -/
structure SubmitResult where
  status : Status
  protocol : ProtocolState
  budget : ProtocolBudget
  table : ResourceTable

/-- `protocol_state::enqueue` and the restore of the batch by `invoke_submit` when it is
refused. -/
def submitRequest (self : ℕ) (t : ResourceTable) (p : ProtocolState) (b : ProtocolBudget)
    (r : InvocationRequest) : SubmitResult :=
  match p.refusal b r with
  | some status =>
    let o := restoreNativeBatch self t r.resources
    { status := if o.value.1 = .ok then status else o.value.1
      protocol := p
      budget := b
      table := o.table }
  | none =>
    let o := commitNativeBatch self t r.resources
    { status := .ok
      protocol := p.push { r with resources := o.value }
      budget := (b.reserve r.bytes.length (ProtocolState.resourceCountOf r)).getD b
      table := o.table }

/-- A claim marks the head of the queue, which nobody has claimed. -/
lemma ProtocolState.claim_eq_ok {p p' : ProtocolState} {r : InvocationRequest}
    (h : p.claim = .ok (r, p')) : p.valid = true ∧ p.fifo.claimed = false ∧
      p.fifo.items.head? = some r ∧
      p' = { p with
        fifo := { p.fifo with claimed := true }
        activeClaims := p.activeClaims + 1 } := by
  rw [claim, BoundedQueue.claimFront] at h
  split at h
  · cases h
  rename_i hvalid
  split at h
  · cases h
  · cases h
  next hitems hclaim =>
    split at hclaim
    · cases hclaim
    next hfree =>
      cases hclaim
      cases h
      exact ⟨by simpa using hvalid, by simpa using (not_or.1 hfree).2, by rw [hitems]; rfl, rfl⟩

lemma refusal_ne_ok {p : ProtocolState} {b : ProtocolBudget} {r : InvocationRequest} :
    p.refusal b r ≠ some .ok := by
  rw [ProtocolState.refusal]
  split_ifs <;> simp

/-- The end of `responder_reply`: the batch is committed with the reply, or restored
when nobody takes it. -/
def replyBatch (self : ℕ) (t : ResourceTable) (s : InvocationState) (bytes : List (BitVec 8))
    (records : List TransferRecord) : Status × InvocationState × ResourceTable :=
  let reply := s.completeReply bytes records 0
  if reply.value then
    let o := commitNativeBatch self t records
    (.ok, { reply.state with responseResources := o.value }, o.table)
  else
    let o := restoreNativeBatch self t records
    (if o.value.1 = .ok then .peerClosed else o.value.1, reply.state, o.table)

end Naos.Ipc
