import Naos.Capability.Transfer
import Naos.Ipc.BoundedQueue
import Mathlib

/-!
# Raw channels

A raw channel has two sides and a queue of messages towards each of them.  A message
owns its bytes and the capabilities that travel with it.  Every channel counts, for
each side, the capabilities to it that exist anywhere (`owners_`) and those that sit
in a table (`roots_`); the counters are changed by the hooks of the endpoint objects.
All queued messages of all channels share three global budgets.

`enqueue` is where a transfer is decided: it either moves the resources of the records
into the message and commits the batch, or it refuses and restores the batch — or it
returns before it has decided anything.
-/

namespace Naos.Ipc

open Capability Function List TransferRecord

structure ChannelMessage where
  bytes : List (BitVec 8) := []
  resourceCapacity : ℕ := 0
  resources : List TransferredResource := []
  deriving DecidableEq

/-- `channel_state::queue`: the messages towards one side and their totals. -/
structure MessageQueue where
  fifo : BoundedQueue ChannelMessage
  bytes : ℕ := 0
  resources : ℕ := 0

/-- `channel_state`.  The counters that hooks change are words, and wrap as words do;
the number of operations and claims in progress is bounded by the number of threads. -/
structure ChannelState where
  queues : Side → MessageQueue
  maxMessages : ℕ
  maxBytes : ℕ
  maxResources : ℕ
  owners : Side → BitVec 64 := fun _ => 0
  roots : Side → BitVec 64 := fun _ => 0
  activeOperations : ℕ := 0
  activeClaims : ℕ := 0
  endpointObjects : ℕ := 2
  valid : Bool := true

open ChannelState

/-- `NA_CHANNEL_DEFAULT_MAX_MESSAGES`, `..._BYTES` and `..._RESOURCES`, and the largest
values `create_raw_channel` accepts. -/
structure Limits where
  messages : ℕ
  bytes : ℕ
  resources : ℕ
  deriving DecidableEq, Repr

def defaultLimits : Limits := ⟨64, 2 ^ 20, 256⟩

def largestLimits : Limits := ⟨1024, 65536 * 16, 256⟩

def globalLimits : Limits := ⟨4096, 16 * 2 ^ 20, 16384⟩

/-- `create_raw_channel` on the requested limits: zero asks for the default, and too
much is refused. -/
def createLimits (asked : Limits) : Except Status Limits :=
  let values : Limits :=
    { messages := if asked.messages = 0 then defaultLimits.messages else asked.messages
      bytes := if asked.bytes = 0 then defaultLimits.bytes else asked.bytes
      resources := if asked.resources = 0 then defaultLimits.resources else asked.resources }
  if largestLimits.messages < values.messages ∨ largestLimits.bytes < values.bytes ∨
      largestLimits.resources < values.resources then .error .invalidArgument
  else .ok values

def newChannel (l : Limits) : ChannelState where
  queues := fun _ => { fifo := { capacity := l.messages } }
  maxMessages := l.messages
  maxBytes := l.bytes
  maxResources := l.resources

/-- All channels.  `channels` is the memory in which their states live, and `registry`
the list of those that exist. -/
structure ChannelWorld where
  channels : ℕ → ChannelState
  registry : List ℕ := []
  globalMessages : BitVec 64 := 0
  globalBytes : BitVec 64 := 0
  globalResources : BitVec 64 := 0
  waitGeneration : ℕ := 0

open ChannelWorld

namespace ChannelWorld

variable (w : ChannelWorld)

def modify (c : ℕ) (f : ChannelState → ChannelState) : ChannelWorld :=
  { w with channels := update w.channels c (f (w.channels c)) }

def beginOperation (c : ℕ) : ChannelWorld :=
  w.modify c fun s => { s with activeOperations := s.activeOperations + 1 }

def endOperation (c : ℕ) : ChannelWorld :=
  w.modify c fun s => { s with activeOperations := Counter.sub s.activeOperations 1 }

def notifyChannelWaiters : ChannelWorld := { w with waitGeneration := w.waitGeneration + 1 }

/-! ## The global budgets -/

def reserveCounter (counter : BitVec 64) (amount limit : ℕ) : Option (BitVec 64) :=
  if limit < amount then none
  else if limit - amount < counter.toNat then none
  else some (counter + BitVec.ofNat 64 amount)

/-- `reserve_global`: all three budgets or none. -/
def reserveGlobal (bytes resources : ℕ) : Option ChannelWorld :=
  match reserveCounter w.globalMessages 1 globalLimits.messages,
      reserveCounter w.globalBytes bytes globalLimits.bytes,
      reserveCounter w.globalResources resources globalLimits.resources with
  | some m, some b, some r =>
    some { w with globalMessages := m, globalBytes := b, globalResources := r }
  | _, _, _ => none

def releaseGlobal (bytes resources : ℕ) : ChannelWorld :=
  { w with
    globalMessages := w.globalMessages - 1
    globalBytes := w.globalBytes - BitVec.ofNat 64 bytes
    globalResources := w.globalResources - BitVec.ofNat 64 resources }

end ChannelWorld

/-! ## The hooks of endpoint objects -/

variable (s : ChannelState)

def ChannelState.capabilityAcquired (side : Side) (at_ : Location) :
    ChannelState :=
  { s with
    owners := update s.owners side (s.owners side + 1)
    roots := if at_ = .tableRoot then update s.roots side (s.roots side + 1) else s.roots }

def ChannelState.capabilityReleased (side : Side) (at_ : Location) :
    ChannelState :=
  { s with
    owners := update s.owners side (s.owners side - 1)
    roots := if at_ = .tableRoot then update s.roots side (s.roots side - 1) else s.roots }

/-- The hooks of `raw_channel_endpoint`; the hooks of other objects do not reach the
channels. -/
def ChannelWorld.hook (w : ChannelWorld) : Hook → ChannelWorld
  | .acquire (.rawChannelEnd c side) l => w.modify c (·.capabilityAcquired side l)
  | .release (.rawChannelEnd c side) l => w.modify c (·.capabilityReleased side l)
  | .handoff (.rawChannelEnd c side) l _ => w.modify c (·.capabilityReleased side l)
  | _ => w

def ChannelWorld.applyHooks (w : ChannelWorld) (hooks : List Hook) : ChannelWorld :=
  hooks.foldl hook w

/-- What one hook adds to `owners_`. -/
def ownersDelta (c : ℕ) (side : Side) : Hook → BitVec 64
  | .acquire o _ => if o = .rawChannelEnd c side then 1 else 0
  | .release o _ | .handoff o _ _ => if o = .rawChannelEnd c side then -1 else 0

/-- What one hook adds to `roots_`. -/
def rootsDelta (c : ℕ) (side : Side) : Hook → BitVec 64
  | .acquire o l => if o = .rawChannelEnd c side ∧ l = .tableRoot then 1 else 0
  | .release o l | .handoff o l _ => if o = .rawChannelEnd c side ∧ l = .tableRoot then -1 else 0

def ChannelState.shift (owners roots : Side → BitVec 64) : ChannelState :=
  { s with
    owners := fun side => s.owners side + owners side
    roots := fun side => s.roots side + roots side }

lemma ChannelState.shift_zero : s.shift (fun _ => 0) (fun _ => 0) = s := by
  simp [shift]

lemma ChannelState.shift_shift (o o' r r' : Side → BitVec 64) :
    (s.shift o r).shift o' r' = s.shift (fun i => o i + o' i) (fun i => r i + r' i) := by
  simp [shift, BitVec.add_assoc]

lemma update_add_eq (f : Side → BitVec 64) (side : Side) (d : BitVec 64) :
    update f side (f side + d) = fun i => f i + if i = side then d else 0 := by
  funext i
  by_cases hi : i = side
  · subst hi
    simp
  · simp [hi]

lemma capabilityAcquired_eq_shift (side : Side) (l : Location) :
    s.capabilityAcquired side l = s.shift (fun i => if i = side then 1 else 0)
        (fun i => if i = side ∧ l = .tableRoot then 1 else 0) := by
  rw [capabilityAcquired, shift, update_add_eq, update_add_eq]
  cases l <;> simp

lemma capabilityReleased_eq_shift (side : Side) (l : Location) :
    s.capabilityReleased side l = s.shift (fun i => if i = side then -1 else 0)
        (fun i => if i = side ∧ l = .tableRoot then -1 else 0) := by
  have hsub : ∀ f : Side → BitVec 64,
      update f side (f side - 1) = fun i => f i + if i = side then -1 else 0 := by
    intro f
    rw [BitVec.sub_eq_add_neg, update_add_eq]
  rw [capabilityReleased, shift, hsub, hsub]
  cases l <;> simp

lemma channels_modify (w : ChannelWorld) (c d : ℕ) (f : ChannelState → ChannelState) :
    (w.modify c f).channels d = if d = c then f (w.channels c) else w.channels d := by
  exact update_apply _ _ _ _

variable (w : ChannelWorld) (h : Hook) (hooks hooks' : List Hook) (c : ℕ)

/-- **A hook moves the counters** of the channel and side it is about, and nothing
else. -/
theorem channels_hook : (w.hook h).channels c =
      (w.channels c).shift (fun side => ownersDelta c side h)
        (fun side => rootsDelta c side h) := by
  have hplain : (w.channels c).shift (fun _ => 0#64) (fun _ => 0#64) = w.channels c :=
    shift_zero _
  rcases h with ⟨o, l⟩ | ⟨o, l⟩ | ⟨o, l, l'⟩ <;> cases o with
  | rawChannelEnd d side =>
    by_cases hd : d = c
    · subst hd
      simp [hook, channels_modify, capabilityAcquired_eq_shift,
        capabilityReleased_eq_shift, ownersDelta, rootsDelta, eq_comm]
    · have hc : ¬ c = d := fun h => hd h.symm
      simp [hook, channels_modify, ownersDelta, rootsDelta, hd, hc, hplain]
  | protocolEndpoint | invocation | responder | terminalDriverControl | plain =>
    simp [hook, ownersDelta, rootsDelta, hplain]

/-- The sum of what a sequence of hooks adds to `owners_`. -/
def ownersSum (c : ℕ) (side : Side) (hooks : List Hook) : BitVec 64 :=
  (hooks.map (ownersDelta c side)).sum

/-- The sum of what a sequence of hooks adds to `roots_`. -/
def rootsSum (c : ℕ) (side : Side) (hooks : List Hook) : BitVec 64 :=
  (hooks.map (rootsDelta c side)).sum

lemma applyHooks_cons : w.applyHooks (h :: hooks) = (w.hook h).applyHooks hooks := rfl

lemma applyHooks_append : w.applyHooks (hooks ++ hooks') = (w.applyHooks hooks).applyHooks hooks' := by
  rw [applyHooks, foldl_append]
  rfl

lemma channels_applyHooks :
    (w.applyHooks hooks).channels c = (w.channels c).shift (fun side => ownersSum c side hooks)
        (fun side => rootsSum c side hooks) := by
  induction hooks generalizing w with
  | nil => exact (shift_zero _).symm
  | cons h hooks ih =>
    rw [applyHooks_cons, ih, channels_hook, shift_shift]
    rfl

structure ChannelWorld.SameGlobals (w w' : ChannelWorld) : Prop where
  registry : w'.registry = w.registry
  globalMessages : w'.globalMessages = w.globalMessages
  globalBytes : w'.globalBytes = w.globalBytes
  globalResources : w'.globalResources = w.globalResources
  waitGeneration : w'.waitGeneration = w.waitGeneration

lemma sameGlobals_hook : w.SameGlobals (w.hook h) := by
  rcases h with ⟨o, l⟩ | ⟨o, l⟩ | ⟨o, l, l'⟩ <;> cases o <;> exact ⟨rfl, rfl, rfl, rfl, rfl⟩

lemma sameGlobals_applyHooks : w.SameGlobals (w.applyHooks hooks) := by
  induction hooks generalizing w with
  | nil => exact ⟨rfl, rfl, rfl, rfl, rfl⟩
  | cons h hooks ih =>
    have h1 := sameGlobals_hook w h
    have h2 := ih (w.hook h)
    exact ⟨h2.registry.trans h1.registry, h2.globalMessages.trans h1.globalMessages,
      h2.globalBytes.trans h1.globalBytes, h2.globalResources.trans h1.globalResources,
      h2.waitGeneration.trans h1.waitGeneration⟩

/-- **Hooks that cancel out leave the channels as they were.** -/
theorem applyHooks_of_cancel {w : ChannelWorld} {hooks : List Hook}
    (howners : ∀ c side, ownersSum c side hooks = 0)
    (hroots : ∀ c side, rootsSum c side hooks = 0) :
    w.applyHooks hooks = w := by
  have hch : (w.applyHooks hooks).channels = w.channels := by
    funext c
    rw [channels_applyHooks]
    simp only [howners, hroots]
    exact shift_zero _
  obtain ⟨h1, h2, h3, h4, h5⟩ := sameGlobals_applyHooks w hooks
  cases hw : w.applyHooks hooks with
  | mk ch reg m b r g =>
    simp_all

/-! ## Enqueueing -/

/-- `channel_message::append` for every record in order; `none` where the capacity of
the message is used up. -/
def appendAll (m : ChannelMessage) : List TransferRecord → Option ChannelMessage
  | [] => some m
  | r :: rs =>
    if m.resourceCapacity ≤ m.resources.length then none
    else appendAll { m with resources := m.resources ++ [r.resource] } rs

/-- What `enqueue` leaves behind. -/
structure EnqueueResult where
  status : Status
  world : ChannelWorld
  table : ResourceTable
  records : List TransferRecord

/-- The first check of `enqueue`, answered by `NA_STATUS_INVALID_ARGUMENT`. -/
def unacceptable (m : ChannelMessage) (count : ℕ) : Bool :=
  !s.valid || decide (s.maxResources < count) || decide (m.resources.length ≠ 0) ||
    decide (m.resourceCapacity < count)

/-- The second check of `enqueue`, answered by `NA_STATUS_INVALID_MESSAGE`. -/
def oversized (m : ChannelMessage) (count : ℕ) : Bool :=
  decide (s.maxBytes < m.bytes.length) || decide (s.maxResources < m.resources.length + count)

def congested (side : Side) (m : ChannelMessage) (count : ℕ) : Bool :=
  (s.queues side).fifo.full || decide (s.maxBytes - m.bytes.length < (s.queues side).bytes) ||
    decide (s.maxResources - count < (s.queues side).resources)

/-- The exits of `enqueue` that restore the batch. -/
def refuse (self : ℕ) (w : ChannelWorld) (t : ResourceTable) (records : List TransferRecord)
    (status : Status) : EnqueueResult :=
  let o := restoreNativeBatch self t records
  { status := if o.value.1 = .ok then status else o.value.1
    world := w.applyHooks o.hooks
    table := o.table
    records := o.value.2 }

/-- The exit of `enqueue` that accepts: the message is pushed, the totals grow, the
resources of the records have moved into the message and the batch is committed. -/
def accept (self : ℕ) (w : ChannelWorld) (t : ResourceTable) (c : ℕ) (side : Side)
    (fifo : BoundedQueue ChannelMessage) (m : ChannelMessage) (records : List TransferRecord) :
    EnqueueResult :=
  let o := commitNativeBatch self t
    (records.map fun r => { r with resource := r.resource.movedFrom })
  { status := .ok
    world :=
      (w.modify c fun s =>
        { s with
          queues := update s.queues side
            { fifo := fifo
              bytes := (s.queues side).bytes + m.bytes.length
              resources := (s.queues side).resources + m.resources.length } }).notifyChannelWaiters
    table := o.table
    records := o.value }

/-- `channel_state::enqueue`.  The first two checks return with the batch neither
restored nor committed. -/
def enqueue (self : ℕ) (w : ChannelWorld) (t : ResourceTable) (c : ℕ) (sender : Side)
    (m : ChannelMessage) (records : List TransferRecord) : EnqueueResult :=
  let s := w.channels c
  let receiver := peer sender
  if unacceptable s m records.length then ⟨.invalidArgument, w, t, records⟩
  else if oversized s m records.length then ⟨.invalidMessage, w, t, records⟩
  else if s.owners receiver = 0 then refuse self w t records .peerClosed
  else if congested s receiver m records.length then refuse self w t records .wouldBlock
  else
    match w.reserveGlobal m.bytes.length records.length with
    | none => refuse self w t records .resourceExhausted
    | some w' =>
      match appendAll m records with
      | none => refuse self w t records .resourceExhausted
      | some m' =>
        match (s.queues receiver).fifo.tryPush m' with
        | none => refuse self w t records .wouldBlock
        | some fifo => accept self w' t c receiver fifo m' records

lemma appendAll_eq {m : ChannelMessage} {rs : List TransferRecord}
    (h : m.resources.length + rs.length ≤ m.resourceCapacity) :
    appendAll m rs = some { m with resources := m.resources ++ rs.map resource } := by
  induction rs generalizing m with
  | nil => simp [appendAll]
  | cons r rs ih =>
    rw [length_cons] at h
    have hroom : ¬ m.resourceCapacity ≤ m.resources.length := by omega
    rw [appendAll, if_neg hroom, ih]
    · simp
    · simp only [length_append, length_singleton]
      omega

section Enqueue

variable {self c : ℕ} {w : ChannelWorld} {t : ResourceTable} {sender : Side} {m : ChannelMessage}
  {records : List TransferRecord}

lemma refuse_status_ne_ok {status : Status} (h : status ≠ .ok) :
    (refuse self w t records status).status ≠ .ok := by
  simp only [refuse]
  split
  · exact h
  · assumption

lemma enqueue_eq_accept (hok : (enqueue self w t c sender m records).status = .ok) :
    ∃ w' m' fifo, m.resources = [] ∧
      w.reserveGlobal m.bytes.length records.length = some w' ∧ appendAll m records = some m' ∧
      ((w.channels c).queues (peer sender)).fifo.tryPush m' = some fifo ∧
      enqueue self w t c sender m records = accept self w' t c (peer sender) fifo m' records := by
  revert hok
  rw [enqueue]
  repeat' split
  all_goals try exact fun hok => absurd hok (by simp)
  all_goals try exact fun hok => absurd hok (refuse_status_ne_ok (by simp))
  next hbad _ _ _ _ w' hreserve _ m' happend _ fifo hpush =>
    simp only [unacceptable, Bool.or_eq_true, not_or, decide_eq_true_eq, not_not] at hbad
    exact fun _ =>
      ⟨w', m', fifo, eq_nil_of_length_eq_zero hbad.1.2, hreserve, happend, hpush, rfl⟩

end Enqueue

/-! ## The hooks of a batch -/

lemma ownersSum_append (c : ℕ) (side : Side) (hs hs' : List Hook) :
    ownersSum c side (hs ++ hs') = ownersSum c side hs + ownersSum c side hs' := by
  rw [ownersSum, map_append, sum_append]
  rfl

lemma rootsSum_append (c : ℕ) (side : Side) (hs hs' : List Hook) :
    rootsSum c side (hs ++ hs') = rootsSum c side hs + rootsSum c side hs' := by
  rw [rootsSum, map_append, sum_append]
  rfl

lemma sum_flatMap_append_eq_zero {β : Type} (sum : List Hook → BitVec 64) (hnil : sum [] = 0)
    (happ : ∀ hs hs', sum (hs ++ hs') = sum hs + sum hs') (f g : β → List Hook) :
    ∀ l : List β, (∀ x ∈ l, sum (f x) + sum (g x) = 0) → sum (l.flatMap f ++ l.flatMap g) = 0 := by
  intro l
  induction l with
  | nil =>
    intro _
    exact hnil
  | cons x l ih =>
    intro h
    have hx := h x mem_cons_self
    have hl := ih fun y hy => h y (mem_cons_of_mem _ hy)
    rw [happ] at hl
    rw [flatMap_cons, flatMap_cons, happ, happ, happ]
    calc sum (f x) + sum (l.flatMap f) + (sum (g x) + sum (l.flatMap g))
        = (sum (f x) + sum (g x)) + (sum (l.flatMap f) + sum (l.flatMap g)) := by ring
      _ = 0 := by rw [hx, hl, add_zero]

variable {d : Disposition} {e : Entry} {t : ResourceTable} {target : Handle}

lemma hooks_take_restore (hc : Checked t target d e) (self c : ℕ) (side : Side) :
    ownersSum c side (takeHooks d e) + ownersSum c side (restoreHooks
        (makeRecord self d e (nodeOf t.nativeHandleMap d)).attached) = 0 ∧
      rootsSum c side (takeHooks d e) + rootsSum c side (restoreHooks
        (makeRecord self d e (nodeOf t.nativeHandleMap d)).attached) = 0 := by
  obtain ⟨o, ho, -⟩ := hc.object
  obtain ⟨e₀, hlook, -⟩ := hc.entry
  have hget : t.nativeHandleMap.lookup d.handle = some e₀ :=
    (ResourceTable.lookupNative_eq_some.1 hlook).1
  rcases hc.operation with hop | hop
  · have htake : takeHooks d e = [.acquire o .inTransit, .handoff o .tableRoot .inTransit] := by
      simp [takeHooks, ho, hop]
    have hrestore : restoreHooks (makeRecord self d e (nodeOf t.nativeHandleMap d)).attached
        = [.acquire o .tableRoot, .release o .inTransit] := by
      simp [restoreHooks, attached, holdsNode, makeRecord, nodeOf, hop, ho, hget]
    rw [htake, hrestore]
    by_cases hraw : o = .rawChannelEnd c side <;>
      simp [ownersSum, rootsSum, ownersDelta, rootsDelta, hraw]
  · have htake : takeHooks d e = [.acquire o .inTransit] := by simp [takeHooks, ho, hop]
    have hrestore : restoreHooks (makeRecord self d e (nodeOf t.nativeHandleMap d)).attached
        = [.release o .inTransit] := by
      simp [restoreHooks, attached, holdsNode, makeRecord, hop, ho,
        TransferredResource.releaseTransit]
    rw [htake, hrestore]
    by_cases hraw : o = .rawChannelEnd c side <;>
      simp [ownersSum, rootsSum, ownersDelta, rootsDelta, hraw]

/-- **Taking and restoring a batch leaves the channels as they were.** -/
theorem applyHooks_take_restore {es : List (Disposition × Entry)}
    (hall : ∀ p ∈ es, Checked t target p.1 p.2) (self : ℕ) (w : ChannelWorld) :
    (w.applyHooks (es.flatMap fun p => takeHooks p.1 p.2)).applyHooks
        (((recordsOf self t es).map attached).flatMap restoreHooks) = w := by
  have hmap : ((recordsOf self t es).map attached).flatMap restoreHooks = es.flatMap fun p =>
        restoreHooks (makeRecord self p.1 p.2 (nodeOf t.nativeHandleMap p.1)).attached := by
    rw [recordsOf, List.map_map, flatMap_map]
    rfl
  rw [← applyHooks_append, hmap]
  apply applyHooks_of_cancel
  · intro c side
    exact sum_flatMap_append_eq_zero (ownersSum c side) rfl (ownersSum_append c side) _ _ es
      fun p hp => (hooks_take_restore (hall p hp) self c side).1
  · intro c side
    exact sum_flatMap_append_eq_zero (rootsSum c side) rfl (rootsSum_append c side) _ _ es
      fun p hp => (hooks_take_restore (hall p hp) self c side).2

/-- A batch that is only taken keeps the number of owners of every side: a moved
endpoint is still owned while it is in transit, and an endpoint is never duplicated. -/
lemma ownersSum_takeHooks (hc : Checked t target d e) (c : ℕ) (side : Side) :
    ownersSum c side (takeHooks d e) = 0 := by
  obtain ⟨o, ho, hunique⟩ := hc.object
  rcases hc.operation with hop | hop
  · have htake : takeHooks d e = [.acquire o .inTransit, .handoff o .tableRoot .inTransit] := by
      simp [takeHooks, ho, hop]
    rw [htake]
    by_cases hraw : o = .rawChannelEnd c side <;> simp [ownersSum, ownersDelta, hraw]
  · have hraw : o ≠ .rawChannelEnd c side := by
      rintro rfl
      have := hunique hop
      simp [KObject.capabilityIsUnique] at this
    simp [takeHooks, ho, hop, ownersSum, ownersDelta, hraw]

lemma rootsSum_takeHooks (hc : Checked t target d e) (hop : d.operation ≠ .move) (c : ℕ)
    (side : Side) :
    rootsSum c side (takeHooks d e) = 0 := by
  obtain ⟨o, ho, -⟩ := hc.object
  simp [takeHooks, ho, hop, rootsSum, rootsDelta]

lemma sum_flatMap_eq_zero {β : Type} (sum : List Hook → BitVec 64) (hnil : sum [] = 0)
    (happ : ∀ hs hs', sum (hs ++ hs') = sum hs + sum hs') (f : β → List Hook) (l : List β)
    (h : ∀ x ∈ l, sum (f x) = 0) : sum (l.flatMap f) = 0 := by
  induction l with
  | nil => exact hnil
  | cons x l ih =>
    rw [flatMap_cons, happ, h x mem_cons_self, ih fun y hy => h y (mem_cons_of_mem _ hy), add_zero]

end Naos.Ipc
