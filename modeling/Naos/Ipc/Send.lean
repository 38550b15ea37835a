import Naos.Ipc.Collector
import Naos.Ipc.UserCopy

/-!
# Sending on a raw channel

`send_raw_channel` reads the frame, copies the bytes into a fresh message, takes the
batch of handles out of the sender's table and hands everything to `enqueue`; at the
end it always runs the orphan collector.  The question is what a failed send leaves
behind.
-/

namespace Naos.Ipc

open Capability Function ChannelWorld Except

structure SendFrame where
  structSize : ℕ := 56
  flags : ℕ := 0
  bytes : ℕ := 0
  byteCount : ℕ := 0
  resources : ℕ := 0
  resourceCount : ℕ := 0
  reserved0 : ℕ := 0
  reserved1 : ℕ := 0
  deriving DecidableEq, Repr

def SendFrame.size : ℕ := 56

def Disposition.size : ℕ := 32

def maxMessageBytes : ℕ := 65536

/-- The environment of a send: the caller's memory, the allocator and the collector's
environment. -/
structure SendEnv where
  byteAt : ℕ → Option (BitVec 8) := fun _ => none
  sizeAt : ℕ → Option ℕ := fun _ => none
  frameAt : ℕ → Option SendFrame := fun _ => none
  dispositionAt : ℕ → Option Disposition := fun _ => none
  messageAllocated : Bool := true
  dispositionsAllocated : Bool := true
  batchAllocated : Bool := true
  collect : CollectEnv := {}

def checkFrame (frame : ℕ) (v : SendFrame) : Option Status :=
  let resourceBytes := v.resourceCount * Disposition.size
  if v.structSize < SendFrame.size ∨ v.flags ≠ 0 ∨ v.reserved0 ≠ 0 ∨ v.reserved1 ≠ 0 then
    some .invalidArgument
  else if maxMessageBytes < v.byteCount ∨ maxResources < v.resourceCount then
    some .invalidMessage
  else if v.byteCount ≠ 0 ∧ v.bytes = 0 then some .fault
  else if v.resourceCount ≠ 0 ∧ v.resources = 0 then some .fault
  else if !validRange v.bytes v.byteCount || !validRange v.resources resourceBytes then some .fault
  else if rangesOverlap frame SendFrame.size v.bytes v.byteCount ||
      rangesOverlap frame SendFrame.size v.resources resourceBytes ||
      rangesOverlap v.bytes v.byteCount v.resources resourceBytes then some .invalidArgument
  else none

/-- The loop that copies the dispositions, from index `i` on. -/
def copyDispositions (env : SendEnv) (base : ℕ) : ℕ → ℕ → Except Status (List Disposition)
  | _, 0 => .ok []
  | i, n + 1 =>
    match copyStruct env.dispositionAt Disposition.size (base + i * Disposition.size) with
    | .error status => .error status
    | .ok d =>
      match copyDispositions env base (i + 1) n with
      | .error status => .error status
      | .ok ds => .ok (d :: ds)

/-- `send_raw_channel` up to the batch: the bytes of the message and the dispositions. -/
def prepareSend (env : SendEnv) (frame : ℕ) : Except Status (List (BitVec 8) × List Disposition) :=
  match copyVersioned env.sizeAt env.frameAt SendFrame.size frame with
  | .error status => .error status
  | .ok v =>
    match checkFrame frame v with
    | some status => .error status
    | none =>
      if env.messageAllocated = false then .error .resourceExhausted
      else
        match copyFrom env.byteAt v.bytes v.byteCount with
        | .error status => .error status
        | .ok bytes =>
          if v.resourceCount ≠ 0 ∧ env.dispositionsAllocated = false then
            .error .resourceExhausted
          else
            match copyDispositions env v.resources 0 v.resourceCount with
            | .error status => .error status
            | .ok ds => .ok (bytes, ds)

structure SendState where
  table : ResourceTable
  world : ChannelWorld

/-- The endpoint a handle designates, or the status that says why it does not. -/
def endpointOf (t : ResourceTable) (endpoint : Handle) : Except Status (ℕ × Side) :=
  match t.lookupNative endpoint with
  | none => .error .invalidHandle
  | some e =>
    match e.object with
    | none => .error .invalidHandle
    | some o =>
      if e.info.binding ≠ .rawChannelEnd then .error .wrongBinding
      else
        match o with
        | .rawChannelEnd c side => .ok (c, side)
        | _ => .error .wrongBinding

/-- The message `send_raw_channel` allocates for a batch of a given size. -/
def newMessage (bytes : List (BitVec 8)) (count : ℕ) : ChannelMessage :=
  { bytes := bytes, resourceCapacity := count }

/-- The end of `send_raw_channel` after `enqueue`: the collector runs whatever the
status is, the operation ends, and the destructor of the records comes last. -/
def finishSend (env : SendEnv) (c : ℕ) (r : EnqueueResult) : SendState where
  table := r.table
  world := ((collectOrphanedChannels env.collect r.world).endOperation c).applyHooks
    (discardRecords r.records)

/-- `send_raw_channel` by the process whose table is named `self`. -/
def sendRawChannel (self : ℕ) (env : SendEnv) (s : SendState) (endpoint : Handle) (frame : ℕ) :
    Status × SendState :=
  match endpointOf s.table endpoint with
  | .error status => (status, s)
  | .ok (c, side) =>
    let w := s.world.beginOperation c
    match prepareSend env frame with
    | .error status => (status, { s with world := w.endOperation c })
    | .ok (bytes, ds) =>
      let taken := takeNativeBatch self s.table ds endpoint env.batchAllocated
      if taken.value.1 ≠ .ok then
        (taken.value.1, { table := taken.table, world := w.endOperation c })
      else
        let r := enqueue self (w.applyHooks taken.hooks) taken.table c side
          (newMessage bytes ds.length) taken.value.2
        (r.status, finishSend env c r)

/-! ## What the claim of atomicity says -/

/-- The resource a disposition puts into the message: the object of the handle with the
attenuated metadata. -/
def transit (t : ResourceTable) (d : Disposition) : TransferredResource :=
  match t.lookupNative d.handle with
  | none => {}
  | some e => { object := e.object, info := (e.attenuate d).info, inTransit := true }

def sentMessage (t : ResourceTable) (bytes : List (BitVec 8)) (ds : List Disposition) :
    ChannelMessage :=
  { bytes := bytes, resourceCapacity := ds.length, resources := ds.map (transit t) }

structure SendUnchanged (s s' : SendState) (endpoint : Handle) : Prop where
  entries : ∀ h, s'.table.get h = s.table.get h
  count : s'.table.nativeEntryCount = s.table.nativeEntryCount
  queues : ∀ c side, endpointOf s.table endpoint = .ok (c, side) →
    (s'.world.channels c).queues = (s.world.channels c).queues
  globalBytes : s'.world.globalBytes = s.world.globalBytes
  globalResources : s'.world.globalResources = s.world.globalResources

/-- The send has happened: the moved handles are gone and all others are there, and one
message with all bytes and all resources stands at the end of the peer's queue. -/
structure SendDelivered (s s' : SendState) (c : ℕ) (side : Side) (bytes : List (BitVec 8))
    (ds : List Disposition) : Prop where
  moved : ∀ d ∈ ds, d.operation = .move → s'.table.get d.handle = none
  duplicated : ∀ d ∈ ds, d.operation = .duplicate →
    ∃ e, s.table.get d.handle = some e ∧ s'.table.get d.handle = some e
  others : ∀ h, (∀ d ∈ ds, d.operation = .move → d.handle ≠ h) → s'.table.get h = s.table.get h
  sent : ((s'.world.channels c).queues (peer side)).fifo.items
    = ((s.world.channels c).queues (peer side)).fifo.items ++ [sentMessage s.table bytes ds]
  own : (s'.world.channels c).queues side = (s.world.channels c).queues side

/-- **`send_raw_channel` is atomic on this input**: a failure changes nothing, and a
success is a delivery of the frame. -/
def SendAtomic (self : ℕ) (env : SendEnv) (s : SendState) (endpoint : Handle) (frame : ℕ) :
    Prop :=
  ((sendRawChannel self env s endpoint frame).1 ≠ .ok →
      SendUnchanged s (sendRawChannel self env s endpoint frame).2 endpoint) ∧
    ((sendRawChannel self env s endpoint frame).1 = .ok →
      ∃ c side bytes ds, endpointOf s.table endpoint = .ok (c, side) ∧
        prepareSend env frame = .ok (bytes, ds) ∧
        SendDelivered s (sendRawChannel self env s endpoint frame).2 c side bytes ds)

/-- `enqueue` leaves by one of its first two checks, with the batch neither restored
nor committed. -/
def escapes (s : ChannelState) (bytes : List (BitVec 8)) (count : ℕ) : Bool :=
  unacceptable s (newMessage bytes count) count || oversized s (newMessage bytes count) count

/-- `enqueue` refuses and restores the batch. -/
def refused (w : ChannelWorld) (c : ℕ) (sender : Side) (bytes : List (BitVec 8)) (count : ℕ) :
    Bool :=
  decide ((w.channels c).owners (peer sender) = 0) ||
    congested (w.channels c) (peer sender) (newMessage bytes count) count ||
    (w.reserveGlobal bytes.length count).isNone ||
    (((w.channels c).queues (peer sender)).fifo.tryPush (newMessage bytes count)).isNone

/-- The condition on a batch that was taken.  A batch that `enqueue` would drop at its
first two checks moves no handle, and a send that fails in `enqueue` meets no garbage:
the collector that runs after it has nothing to give back to the budgets. -/
def SendSafe (env : SendEnv) (s : SendState) (c : ℕ) (side : Side) (bytes : List (BitVec 8))
    (ds : List Disposition) : Prop :=
  (escapes (s.world.channels c) bytes ds.length = true → ∀ d ∈ ds, d.operation ≠ .move) ∧
    (escapes (s.world.channels c) bytes ds.length = true ∨
        refused s.world c side bytes ds.length = true →
      BitVec.ofNat 64 (garbage env.collect (s.world.beginOperation c) byteCount) = 0 ∧
        BitVec.ofNat 64 (garbage env.collect (s.world.beginOperation c) resourceCount) = 0)

/-- The condition for atomicity: it is about the frames that get as far as a batch that
passes the checks of `take_native_batch`. -/
def BatchProtected (self : ℕ) (env : SendEnv) (s : SendState) (endpoint : Handle) (frame : ℕ) :
    Prop :=
  ∀ c side bytes ds, endpointOf s.table endpoint = .ok (c, side) →
    prepareSend env frame = .ok (bytes, ds) →
    (takeNativeBatch self s.table ds endpoint env.batchAllocated).value.1 = .ok →
    SendSafe env s c side bytes ds

lemma ne_peer (side : Side) : side ≠ peer side := by
  revert side
  decide

/-! ## The three exits of `enqueue` -/

section Enqueue

variable {self : ℕ} {w : ChannelWorld} {t : ResourceTable} {c : ℕ} {sender : Side}
  {bytes : List (BitVec 8)} {records : List TransferRecord}

def loadedMessage (bytes : List (BitVec 8)) (records : List TransferRecord) : ChannelMessage :=
  { bytes := bytes, resourceCapacity := records.length
    resources := records.map TransferRecord.resource }

lemma appendAll_newMessage :
    appendAll (newMessage bytes records.length) records = some (loadedMessage bytes records) :=
  appendAll_eq (by simp [newMessage])

lemma enqueue_of_escapes (self : ℕ) (t : ResourceTable) (sender : Side)
    (h : escapes (w.channels c) bytes records.length = true) :
    ∃ status, status ≠ .ok ∧ enqueue self w t c sender (newMessage bytes records.length) records
        = ⟨status, w, t, records⟩ := by
  rw [escapes, Bool.or_eq_true] at h
  rw [enqueue]
  by_cases hu : unacceptable (w.channels c) (newMessage bytes records.length) records.length = true
  · rw [if_pos hu]
    exact ⟨.invalidArgument, by decide, rfl⟩
  · rw [if_neg hu, if_pos (h.resolve_left hu)]
    exact ⟨.invalidMessage, by decide, rfl⟩

lemma tryPush_isNone {α : Type} (q : BoundedQueue α) (x y : α) :
    (q.tryPush x).isNone = (q.tryPush y).isNone := by
  rw [BoundedQueue.tryPush, BoundedQueue.tryPush]
  split <;> rfl

lemma enqueue_of_refused (self : ℕ) (t : ResourceTable)
    (hesc : escapes (w.channels c) bytes records.length = false)
    (h : refused w c sender bytes records.length = true) :
    ∃ status, status ≠ .ok ∧ enqueue self w t c sender (newMessage bytes records.length) records
        = refuse self w t records status := by
  rw [escapes, Bool.or_eq_false_iff] at hesc
  rw [refused, Bool.or_eq_true, Bool.or_eq_true, Bool.or_eq_true, decide_eq_true_eq] at h
  rw [enqueue, hesc.1, hesc.2]
  by_cases howners : (w.channels c).owners (peer sender) = 0
  · rw [if_pos howners]
    exact ⟨.peerClosed, by decide, rfl⟩
  rw [if_neg howners]
  by_cases hcong : congested (w.channels c) (peer sender) (newMessage bytes records.length)
      records.length = true
  · rw [if_pos hcong]
    exact ⟨.wouldBlock, by decide, rfl⟩
  rw [if_neg hcong]
  cases hres : w.reserveGlobal (newMessage bytes records.length).bytes.length records.length with
  | none => exact ⟨.resourceExhausted, by decide, rfl⟩
  | some w' =>
    have hpush : (((w.channels c).queues (peer sender)).fifo.tryPush
        (newMessage bytes records.length)).isNone = true := by
      rcases h with ((h | h) | h) | h
      · exact absurd h howners
      · exact absurd h hcong
      · rw [show (newMessage bytes records.length).bytes = bytes from rfl] at hres
        rw [hres] at h
        exact absurd h (by simp)
      · exact h
    rw [tryPush_isNone _ _ (loadedMessage bytes records), Option.isNone_iff_eq_none] at hpush
    rw [appendAll_newMessage]
    dsimp only
    rw [hpush]
    exact ⟨.wouldBlock, by decide, rfl⟩

lemma enqueue_of_accepted (self : ℕ) (t : ResourceTable)
    (hesc : escapes (w.channels c) bytes records.length = false)
    (h : refused w c sender bytes records.length = false) :
    ∃ w' fifo, w'.channels = w.channels ∧
      fifo.items = ((w.channels c).queues (peer sender)).fifo.items ++
        [loadedMessage bytes records] ∧
      enqueue self w t c sender (newMessage bytes records.length) records
        = accept self w' t c (peer sender) fifo (loadedMessage bytes records) records := by
  rw [escapes, Bool.or_eq_false_iff] at hesc
  rw [refused, Bool.or_eq_false_iff, Bool.or_eq_false_iff, Bool.or_eq_false_iff,
    decide_eq_false_iff_not] at h
  obtain ⟨⟨⟨howners, hcong⟩, hres⟩, hpush⟩ := h
  rw [tryPush_isNone _ _ (loadedMessage bytes records)] at hpush
  obtain ⟨w', hw'⟩ := Option.isSome_iff_exists.1 (by simpa using hres :
    (w.reserveGlobal bytes.length records.length).isSome = true)
  obtain ⟨fifo, hfifo⟩ := Option.isSome_iff_exists.1 (by simpa using hpush :
    (((w.channels c).queues (peer sender)).fifo.tryPush _).isSome = true)
  have hchannels : w'.channels = w.channels := by
    rw [reserveGlobal] at hw'
    split at hw'
    · rw [← Option.some.inj hw']
    · simp at hw'
  refine ⟨w', fifo, hchannels, by rw [BoundedQueue.tryPush_eq_some hfifo], ?_⟩
  rw [enqueue, hesc.1, hesc.2]
  rw [if_neg howners, hcong]
  simp only [Bool.false_eq_true, if_false]
  rw [show (newMessage bytes records.length).bytes = bytes from rfl, hw']
  rw [appendAll_newMessage]
  dsimp only
  rw [hfifo]

end Enqueue

/-! ## The end of a send -/

lemma queues_applyHooks (w : ChannelWorld) (hooks : List Hook) (c : ℕ) :
    ((w.applyHooks hooks).channels c).queues = (w.channels c).queues := by
  rw [channels_applyHooks]
  rfl

lemma queues_endOperation (w : ChannelWorld) (c : ℕ) :
    ((w.endOperation c).channels c).queues = (w.channels c).queues := by
  rw [endOperation, channels_modify, if_pos rfl]

variable {c self size source frame : ℕ} {r : EnqueueResult} {fifo : BoundedQueue ChannelMessage}
  {m : ChannelMessage} {records : List TransferRecord} {side : Side} {t : ResourceTable}
  {w : ChannelWorld} {endpoint : Handle} {env : SendEnv} {status : Status} {read : ℕ → Option α}

lemma queues_finishSend (env : SendEnv) (h : (r.world.channels c).canReap = false) :
    ((finishSend env c r).world.channels c).queues = (r.world.channels c).queues := by
  rw [finishSend, queues_applyHooks, queues_endOperation, queues_collect_of_not_canReap _ _ h]

lemma globals_finishSend (env : SendEnv) (c : ℕ) (r : EnqueueResult) :
    (finishSend env c r).world.globalBytes
        = r.world.globalBytes - BitVec.ofNat 64 (garbage env.collect r.world byteCount) ∧
      (finishSend env c r).world.globalResources = r.world.globalResources
          - BitVec.ofNat 64 (garbage env.collect r.world resourceCount) := by
  have hsame := sameGlobals_applyHooks
    ((collectOrphanedChannels env.collect r.world).endOperation c) (discardRecords r.records)
  obtain ⟨hb, hr⟩ := globals_collect env.collect r.world
  exact ⟨hsame.globalBytes.trans hb, hsame.globalResources.trans hr⟩

lemma canReap_of_activeOperations {s : ChannelState} (h : s.activeOperations ≠ 0) :
    s.canReap = false := by
  simp [ChannelState.canReap, h]

lemma queues_finishSend_accept (env : SendEnv) (h : (w.channels c).activeOperations ≠ 0) :
    ((finishSend env c (accept self w t c side fifo m records)).world.channels c).queues
      = update (w.channels c).queues side
        { fifo := fifo
          bytes := ((w.channels c).queues side).bytes + m.bytes.length
          resources := ((w.channels c).queues side).resources + m.resources.length } := by
  have hchannel : (accept self w t c side fifo m records).world.channels c = { w.channels c with
          queues := update (w.channels c).queues side
            { fifo := fifo
              bytes := ((w.channels c).queues side).bytes + m.bytes.length
              resources := ((w.channels c).queues side).resources + m.resources.length } } := by
    rw [accept, notifyChannelWaiters]
    rw [channels_modify, if_pos rfl]
  rw [queues_finishSend, hchannel]
  rw [hchannel]
  exact canReap_of_activeOperations h

lemma get_finishSend_accept (env : SendEnv) (h : Handle) :
    (finishSend env c (accept self w t c side fifo m records)).table.get h = t.get h :=
  congrArg (AList.lookup h) (nativeHandleMap_commitNativeBatch self _ _)

lemma canReap_beginOperation (w : ChannelWorld) (c : ℕ) :
    ((w.beginOperation c).channels c).canReap = false := by
  rw [beginOperation, channels_modify, if_pos rfl]
  exact canReap_of_activeOperations (Nat.succ_ne_zero _)

/-- The collector finds nothing that counts. -/
abbrev NoGarbage (env : SendEnv) (w : ChannelWorld) : Prop :=
  BitVec.ofNat 64 (garbage env.collect w byteCount) = 0 ∧
    BitVec.ofNat 64 (garbage env.collect w resourceCount) = 0

/-- What taking a batch leaves in the table, and its hooks. -/
abbrev withoutMoved (t : ResourceTable) (es : List (Disposition × Entry)) : ResourceTable :=
  { t with nativeHandleMap := Assoc.eraseAll (movedHandles es) t.nativeHandleMap }

abbrev batchHooks (es : List (Disposition × Entry)) : List Hook :=
  es.flatMap fun p => takeHooks p.1 p.2

/-- A failed send that has given back the batch differs from no send at all only by
what the collector found. -/
lemma sendUnchanged_finishSend_iff {s : SendState}
    (hend : endpointOf s.table endpoint = .ok (c, side))
    (hworld : r.world = s.world.beginOperation c) (hget : ∀ h, r.table.get h = s.table.get h)
    (hcount : r.table.nativeEntryCount = s.table.nativeEntryCount) :
    SendUnchanged s (finishSend env c r) endpoint ↔
      NoGarbage env (s.world.beginOperation c) := by
  obtain ⟨hb, hr⟩ := globals_finishSend env c r
  rw [hworld] at hb hr
  have hbytes : (s.world.beginOperation c).globalBytes = s.world.globalBytes := rfl
  have hres : (s.world.beginOperation c).globalResources = s.world.globalResources := rfl
  constructor
  · intro h
    have h1 := h.globalBytes
    have h2 := h.globalResources
    rw [hb] at h1
    rw [hr] at h2
    exact ⟨sub_eq_self.1 h1, sub_eq_self.1 h2⟩
  · rintro ⟨h1, h2⟩
    rw [h1, sub_zero] at hb
    rw [h2, sub_zero] at hr
    refine ⟨hget, hcount, ?_, hb, hr⟩
    intro c' side' hend'
    rw [hend, ok.injEq, Prod.mk.injEq] at hend'
    rw [← hend'.1, queues_finishSend env (by rw [hworld]; exact canReap_beginOperation _ _),
      hworld, beginOperation, channels_modify, if_pos rfl]

lemma reserveGlobal_isNone {w' : ChannelWorld} (h : w.SameGlobals w') (bytes resources : ℕ) :
    (w'.reserveGlobal bytes resources).isNone = (w.reserveGlobal bytes resources).isNone := by
  rw [reserveGlobal, reserveGlobal, h.globalMessages, h.globalBytes, h.globalResources]
  split <;> rfl

/-! ## A batch that was taken -/

structure Taken (pid : ℕ) (env : SendEnv) (s : SendState) (endpoint : Handle)
    (ds : List Disposition) (es : List (Disposition × Entry)) : Prop where
  dispositions : es.map Prod.fst = ds
  checked : ∀ p ∈ es, Checked s.table endpoint p.1 p.2
  nodup : (es.map fun p => p.1.handle).Nodup
  take : takeNativeBatch pid s.table ds endpoint env.batchAllocated =
    { value := (.ok, recordsOf pid s.table es)
      table :=
        { s.table with
          nativeHandleMap := Assoc.eraseAll (movedHandles es) s.table.nativeHandleMap }
      hooks := es.flatMap fun p => takeHooks p.1 p.2 }

namespace Taken

variable {self : ℕ} {env : SendEnv} {s : SendState} {endpoint : Handle} {frame : ℕ} {c : ℕ}
  {side : Side} {bytes : List (BitVec 8)} {ds : List Disposition}
  {es : List (Disposition × Entry)}

lemma exists_of_ok
    (h : (takeNativeBatch self s.table ds endpoint env.batchAllocated).value.1 = .ok) :
    ∃ es, Taken self env s endpoint ds es := by
  obtain ⟨es, h1, h2, h3, h4⟩ := takeNativeBatch_ok h
  exact ⟨es, h1, h2, h3, h4⟩

variable (ht : Taken self env s endpoint ds es)

include ht

lemma length_recordsOf : (recordsOf self s.table es).length = ds.length := by
  rw [recordsOf, List.length_map, ← ht.dispositions, List.length_map]

variable (hend : endpointOf s.table endpoint = .ok (c, side))
  (hprep : prepareSend env frame = .ok (bytes, ds))
include hend hprep

lemma sendRawChannel_eq : sendRawChannel self env s endpoint frame =
      let r := enqueue self
        ((s.world.beginOperation c).applyHooks (batchHooks es)) (withoutMoved s.table es)
        c side (newMessage bytes (recordsOf self s.table es).length) (recordsOf self s.table es)
      (r.status, finishSend env c r) := by
  rw [sendRawChannel, hend]
  rw [hprep]
  dsimp only
  rw [ht.take, ht.length_recordsOf]
  simp

omit hend hprep in
lemma ownersSum_hooks (side : Side) : ownersSum c side (batchHooks es) = 0 :=
  sum_flatMap_eq_zero (ownersSum c side) rfl (ownersSum_append c side) _ es
    fun p hp => ownersSum_takeHooks (ht.checked p hp) c side

omit hend hprep in
lemma channel_hooks (c : ℕ) : ∃ roots,
    ((s.world.beginOperation c).applyHooks (batchHooks es)).channels c
      = { s.world.channels c with
          roots := roots
          activeOperations := (s.world.channels c).activeOperations + 1 } := by
  rw [channels_applyHooks, beginOperation, channels_modify, if_pos rfl]
  refine ⟨fun side => (s.world.channels c).roots side + rootsSum c side (batchHooks es), ?_⟩
  simp [ChannelState.shift, ht.ownersSum_hooks]

omit hend hprep in
lemma escapes_hooks (n : ℕ) :
    escapes (((s.world.beginOperation c).applyHooks (batchHooks es)).channels c) bytes n
      = escapes (s.world.channels c) bytes n := by
  obtain ⟨roots, h⟩ := ht.channel_hooks c
  rw [h]
  rfl

omit hend hprep in
lemma refused_hooks (n : ℕ) :
    refused ((s.world.beginOperation c).applyHooks (batchHooks es)) c side bytes n
      = refused s.world c side bytes n := by
  obtain ⟨roots, h⟩ := ht.channel_hooks c
  have hbegin := sameGlobals_applyHooks (s.world.beginOperation c) (batchHooks es)
  have hsame : s.world.SameGlobals ((s.world.beginOperation c).applyHooks (batchHooks es)) :=
    ⟨hbegin.registry, hbegin.globalMessages, hbegin.globalBytes, hbegin.globalResources,
      hbegin.waitGeneration⟩
  rw [refused, refused, h, reserveGlobal_isNone hsame]
  rfl

/-- An early exit of `enqueue` gives the batch to the destructor.  When it moved no
handle that is harmless. -/
lemma unchanged_of_escapes_iff (hesc : escapes (s.world.channels c) bytes ds.length = true) :
    (sendRawChannel self env s endpoint frame).1 ≠ .ok ∧
      (SendUnchanged s (sendRawChannel self env s endpoint frame).2 endpoint ↔
        (∀ d ∈ ds, d.operation ≠ .move) ∧ NoGarbage env (s.world.beginOperation c)) := by
  rw [← ht.length_recordsOf, ← ht.escapes_hooks] at hesc
  obtain ⟨status, hstatus, henq⟩ := enqueue_of_escapes self (withoutMoved s.table es) side hesc
  rw [ht.sendRawChannel_eq hend hprep, henq]
  refine ⟨hstatus, ?_⟩
  by_cases hmove : ∀ d ∈ ds, d.operation ≠ .move
  · have hnone : movedHandles es = [] := by
      rw [List.eq_nil_iff_forall_not_mem]
      intro h hh
      obtain ⟨p, hp, hop, -⟩ := mem_movedHandles.1 hh
      exact hmove p.1 (ht.dispositions ▸ List.mem_map_of_mem hp) hop
    have hworld : (s.world.beginOperation c).applyHooks (batchHooks es)
        = s.world.beginOperation c := by
      apply applyHooks_of_cancel
      · intro c' side'
        exact ht.ownersSum_hooks side'
      · intro c' side'
        refine sum_flatMap_eq_zero (rootsSum c' side') rfl (rootsSum_append c' side') _ es ?_
        intro p hp
        exact rootsSum_takeHooks (ht.checked p hp)
          (hmove p.1 (ht.dispositions ▸ List.mem_map_of_mem hp)) c' side'
    rw [sendUnchanged_finishSend_iff hend hworld (by intro h; rw [withoutMoved, hnone]; rfl) rfl]
    exact ⟨fun h => ⟨hmove, h⟩, fun h => h.2⟩
  · refine iff_of_false ?_ fun h => hmove h.1
    intro h
    push Not at hmove
    obtain ⟨d, hd, hop⟩ := hmove
    obtain ⟨p, hp, rfl⟩ := List.mem_map.1 (ht.dispositions.symm ▸ hd)
    obtain ⟨e, hlook, -⟩ := (ht.checked p hp).entry
    have hsome : s.table.get p.1.handle = some e := (ResourceTable.lookupNative_eq_some.1 hlook).1
    -- the handle is in the table before the call and not after it
    have hgone : p.1.handle ∉ Assoc.eraseAll (movedHandles es) s.table.nativeHandleMap := by
      intro hmem
      exact (Assoc.mem_eraseAll.1 hmem).1 (mem_movedHandles.2 ⟨p, hp, hop, rfl⟩)
    have hentry := h.entries p.1.handle
    rw [hsome] at hentry
    exact hgone (ResourceTable.mem_of_get hentry)

omit hend hprep in
lemma notMem_movedHandles {p : Disposition × Entry} (hp : p ∈ es) (hop : p.1.operation ≠ .move) :
    p.1.handle ∉ movedHandles es := by
  intro hmem
  obtain ⟨q, hq, hmove, heq⟩ := mem_movedHandles.1 hmem
  have hpq : q = p := List.inj_on_of_nodup_map ht.nodup hq hp heq
  rw [hpq] at hmove
  exact hop hmove

omit hend hprep in
lemma loadedMessage_eq :
    loadedMessage bytes (recordsOf self s.table es) = sentMessage s.table bytes ds := by
  have hres : (recordsOf self s.table es).map TransferRecord.resource
      = ds.map (transit s.table) := by
    rw [recordsOf, List.map_map, ← ht.dispositions, List.map_map]
    apply List.map_congr_left
    intro p hp
    obtain ⟨e, hlook, hsnap⟩ := (ht.checked p hp).entry
    simp [transit, hlook, hsnap, makeRecord, Entry.attenuate]
  rw [loadedMessage, sentMessage, hres, ht.length_recordsOf]

lemma unchanged_of_refused_iff (hesc : escapes (s.world.channels c) bytes ds.length = false)
    (href : refused s.world c side bytes ds.length = true) :
    (sendRawChannel self env s endpoint frame).1 ≠ .ok ∧
      (SendUnchanged s (sendRawChannel self env s endpoint frame).2 endpoint ↔
        NoGarbage env (s.world.beginOperation c)) := by
  rw [← ht.length_recordsOf, ← ht.escapes_hooks] at hesc
  rw [← ht.length_recordsOf, ← ht.refused_hooks] at href
  obtain ⟨status, hstatus, henq⟩ := enqueue_of_refused self (withoutMoved s.table es) hesc href
  obtain ⟨hrestored, hget, hcount, -⟩ := restore_take ht.take rfl
  have hworld : (refuse self
      ((s.world.beginOperation c).applyHooks (batchHooks es)) (withoutMoved s.table es)
      (recordsOf self s.table es) status).world = s.world.beginOperation c := by
    rw [refuse, restore_recordsOf ht.checked ht.nodup]
    exact applyHooks_take_restore ht.checked self _
  rw [ht.sendRawChannel_eq hend hprep, henq]
  refine ⟨?_, sendUnchanged_finishSend_iff hend hworld hget hcount⟩
  dsimp only [refuse] at hrestored ⊢
  rw [if_pos hrestored]
  exact hstatus

lemma delivered_of_accepted (hesc : escapes (s.world.channels c) bytes ds.length = false)
    (href : refused s.world c side bytes ds.length = false) :
    (sendRawChannel self env s endpoint frame).1 = .ok ∧
      SendDelivered s (sendRawChannel self env s endpoint frame).2 c side bytes ds := by
  rw [← ht.length_recordsOf, ← ht.escapes_hooks] at hesc
  rw [← ht.length_recordsOf, ← ht.refused_hooks] at href
  obtain ⟨w', fifo, hchannels, hfifo, henq⟩ :=
    enqueue_of_accepted self (withoutMoved s.table es) hesc href
  obtain ⟨roots, hchannel⟩ := ht.channel_hooks c
  rw [ht.sendRawChannel_eq hend hprep, henq]
  refine ⟨rfl, ?_⟩
  have hactive : (w'.channels c).activeOperations ≠ 0 := by
    rw [hchannels, hchannel]
    exact Nat.succ_ne_zero _
  have hold : (w'.channels c).queues = (s.world.channels c).queues := by rw [hchannels, hchannel]
  rw [hchannel] at hfifo
  refine ⟨?_, ?_, ?_, ?_, ?_⟩
  · intro d hd hop
    obtain ⟨p, hp, rfl⟩ := List.mem_map.1 (ht.dispositions.symm ▸ hd)
    rw [get_finishSend_accept]
    refine AList.lookup_eq_none.2 ?_
    intro hmem
    exact (Assoc.mem_eraseAll.1 hmem).1 (mem_movedHandles.2 ⟨p, hp, hop, rfl⟩)
  · intro d hd hop
    obtain ⟨p, hp, rfl⟩ := List.mem_map.1 (ht.dispositions.symm ▸ hd)
    obtain ⟨e, hlook, -⟩ := (ht.checked p hp).entry
    have hsome := (ResourceTable.lookupNative_eq_some.1 hlook).1
    refine ⟨e, hsome, ?_⟩
    rw [get_finishSend_accept]
    exact (Assoc.lookup_eraseAll_of_notMem
      (ht.notMem_movedHandles hp (by rw [hop]; decide)) _).trans hsome
  · intro h hh
    rw [get_finishSend_accept]
    refine Assoc.lookup_eraseAll_of_notMem ?_ _
    intro hmem
    obtain ⟨p, hp, hop, heq⟩ := mem_movedHandles.1 hmem
    exact hh p.1 (ht.dispositions ▸ List.mem_map_of_mem hp) hop heq
  · rw [queues_finishSend_accept _ hactive, update_self, hfifo, ht.loadedMessage_eq]
  · rw [queues_finishSend_accept _ hactive, update_of_ne (ne_peer side), hold]

end Taken

/-! ## Atomicity -/

lemma copyFrom_error {byteAt : ℕ → Option (BitVec 8)}
    (h : copyFrom byteAt source size = .error status) : status = .fault := by
  rw [copyFrom] at h
  repeat' split at h
  all_goals cases h
  all_goals rfl

lemma copyStruct_error (h : copyStruct read size source = .error status) : status = .fault := by
  rw [copyStruct] at h
  repeat' split at h
  all_goals cases h
  all_goals rfl

lemma copyVersioned_error {sizeAt : ℕ → Option ℕ}
    (h : copyVersioned sizeAt read size source = .error status) : status ≠ .ok := by
  rintro rfl
  rw [copyVersioned] at h
  split at h
  · simp at h
  split at h
  next st hcopy =>
    cases h
    exact absurd (copyStruct_error hcopy) (by decide)
  split at h
  · simp at h
  · exact absurd (copyStruct_error h) (by decide)

lemma copyDispositions_error {base : ℕ} (n : ℕ) :
    ∀ i, copyDispositions env base i n = .error status → status = .fault := by
  induction n with
  | zero =>
    intro i h
    simp [copyDispositions] at h
  | succ n ih =>
    intro i h
    rw [copyDispositions] at h
    split at h
    next st hcopy =>
      rw [← error.inj h]
      exact copyStruct_error hcopy
    split at h
    next st hrest =>
      cases h
      exact ih _ hrest
    · simp at h

lemma checkFrame_ne_ok {v : SendFrame} : checkFrame frame v ≠ some .ok := by
  rw [checkFrame]
  iterate 6
    split
    · decide
  decide

lemma prepareSend_error (h : prepareSend env frame = .error status) : status ≠ .ok := by
  rintro rfl
  rw [prepareSend] at h
  split at h
  next st hcopy =>
    cases h
    exact copyVersioned_error hcopy rfl
  split at h
  next st hcheck =>
    cases h
    exact checkFrame_ne_ok hcheck
  split at h
  · simp at h
  split at h
  next st hcopy =>
    cases h
    exact absurd (copyFrom_error hcopy) (by decide)
  split at h
  · simp at h
  split at h
  next st hcopy =>
    cases h
    exact absurd (copyDispositions_error _ _ hcopy) (by decide)
  · simp at h

lemma endpointOf_error (h : endpointOf t endpoint = .error status) : status ≠ .ok := by
  rintro rfl
  rw [endpointOf] at h
  iterate 3
    split at h
    · simp at h
  split at h <;> simp at h

lemma unchanged_endOperation (s : SendState) (c : ℕ) (endpoint : Handle) (ht : t = s.table) :
    SendUnchanged s { table := t, world := (s.world.beginOperation c).endOperation c }
      endpoint := by
  subst ht
  refine ⟨fun _ => rfl, rfl, ?_, rfl, rfl⟩
  intro c' side' _
  by_cases hc : c' = c
  · subst hc
    rw [queues_endOperation, beginOperation, channels_modify, if_pos rfl]
  · rw [endOperation, channels_modify, if_neg hc, beginOperation, channels_modify, if_neg hc]

/-- **Exactly when a send is atomic**: a failed send leaves no trace and a successful one
delivers the frame if and only if a batch dropped at the first two checks of `enqueue`
moves no handle, and a send that fails in `enqueue` finds no garbage to collect. -/
theorem sendAtomic_iff (self : ℕ) (env : SendEnv) (s : SendState) (endpoint : Handle) (frame : ℕ) :
    SendAtomic self env s endpoint frame ↔ BatchProtected self env s endpoint frame := by
  rw [SendAtomic, BatchProtected]
  cases hend : endpointOf s.table endpoint with
  | error status =>
    have hsend : sendRawChannel self env s endpoint frame = (status, s) := by
      rw [sendRawChannel, hend]
    rw [hsend]
    refine iff_of_true ⟨?_, fun hok => absurd hok (endpointOf_error hend)⟩ ?_
    · intro _
      exact ⟨fun _ => rfl, rfl, fun _ _ _ => rfl, rfl, rfl⟩
    · intro c side bytes ds h
      simp at h
  | ok p =>
    obtain ⟨c, side⟩ := p
    cases hprep : prepareSend env frame with
    | error status =>
      have hsend : sendRawChannel self env s endpoint frame
          = (status, { s with world := (s.world.beginOperation c).endOperation c }) := by
        rw [sendRawChannel, hend]
        dsimp only
        rw [hprep]
      rw [hsend]
      refine iff_of_true ⟨?_, fun hok => absurd hok (prepareSend_error hprep)⟩ ?_
      · intro _
        exact unchanged_endOperation s c endpoint rfl
      · intro _ _ bytes ds _ h
        simp at h
    | ok q =>
      obtain ⟨bytes, ds⟩ := q
      -- The condition is about the frame that was read.
      refine Iff.trans (b := (takeNativeBatch self s.table ds endpoint env.batchAllocated).value.1 =
        .ok → SendSafe env s c side bytes ds) ?_ ⟨?_, fun h => h c side bytes ds rfl rfl⟩
      swap
      · intro h c' side' bytes' ds' h1 h2
        cases h1
        cases h2
        exact h
      by_cases htake : (takeNativeBatch self s.table ds endpoint env.batchAllocated).value.1 = .ok
      · obtain ⟨es, ht⟩ := Taken.exists_of_ok htake
        rw [forall_prop_of_true htake, SendSafe]
        cases hesc : escapes (s.world.channels c) bytes ds.length with
        | true =>
          obtain ⟨hne, hiff⟩ := ht.unchanged_of_escapes_iff hend hprep hesc
          simp [hne, hiff, NoGarbage]
        | false =>
          cases href : refused s.world c side bytes ds.length with
          | true =>
            obtain ⟨hne, hiff⟩ := ht.unchanged_of_refused_iff hend hprep hesc href
            simp [hne, hiff, NoGarbage]
          | false =>
            obtain ⟨hok, hdelivered⟩ := ht.delivered_of_accepted hend hprep hesc href
            refine iff_of_true ⟨fun hne => absurd hok hne, fun _ => ?_⟩ (by simp)
            exact ⟨c, side, bytes, ds, rfl, rfl, hdelivered⟩
      · have hsend : sendRawChannel self env s endpoint frame
            = ((takeNativeBatch self s.table ds endpoint env.batchAllocated).value.1,
              { table := (takeNativeBatch self s.table ds endpoint env.batchAllocated).table
                world := (s.world.beginOperation c).endOperation c }) := by
          rw [sendRawChannel, hend]
          dsimp only
          rw [hprep]
          exact if_pos htake
        rw [hsend]
        refine iff_of_true ⟨?_, fun hok => absurd hok htake⟩ fun h => absurd h htake
        intro _
        exact unchanged_endOperation s c endpoint (takeNativeBatch_error htake)

/-! ## A channel for one resource -/

def threeEnds : ResourceTable :=
  let info : Metadata := { binding := .rawChannelEnd }
  let t := (({} : ResourceTable).installNative (some (.rawChannelEnd 0 0)) info).table
  let t := (t.installNative (some (.rawChannelEnd 1 0)) info).table
  (t.installNative (some (.rawChannelEnd 1 1)) info).table

/-- Channel 0 was created with `max_resources = 1`, channel 1 with the defaults.  The
other end of channel 0 is held elsewhere. -/
def narrowWorld (limits : Limits) : ChannelWorld where
  channels := fun c =>
    { newChannel (if c = 0 then limits else defaultLimits) with
      owners := fun _ => 1
      roots := fun _ => 1 }
  registry := [0, 1]

/-- A frame at `0x300000` that moves handles 2 and 3. -/
def twoMoves : SendEnv where
  sizeAt := fun a => if a = 0x300000 then some 56 else none
  frameAt := fun a =>
    if a = 0x300000 then some { resources := 0x301000, resourceCount := 2 } else none
  dispositionAt := fun a =>
    if a = 0x301000 then some { handle := 2, operation := .move }
    else if a = 0x301020 then some { handle := 3, operation := .move }
    else none

/-- Two handles sent on a channel that takes one resource are refused and lost: the
call fails, the handles are gone, and the table still counts them. -/
theorem not_sendAtomic_twoMoves : ∃ limits, createLimits ⟨0, 0, 1⟩ = .ok limits ∧
      ¬ SendAtomic 7 twoMoves ⟨threeEnds, narrowWorld limits⟩ 1 0x300000 := by
  refine ⟨⟨64, 2 ^ 20, 1⟩, by decide, ?_⟩
  intro h
  have hfail : (sendRawChannel 7 twoMoves ⟨threeEnds, narrowWorld ⟨64, 2 ^ 20, 1⟩⟩ 1 0x300000).1
      ≠ .ok := by
    decide
  have hsame := (h.1 hfail).entries 2
  have hdiff : (sendRawChannel 7 twoMoves ⟨threeEnds, narrowWorld ⟨64, 2 ^ 20, 1⟩⟩ 1
      0x300000).2.table.get 2 ≠ threeEnds.get 2 := by
    decide
  exact hdiff hsame

end Naos.Ipc
