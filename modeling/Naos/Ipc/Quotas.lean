import Naos.Ipc.Collector
import Naos.Ipc.Kernel
import Naos.Lib.Quota
import Naos.Lib.Transition

/-!
# What the queues of the raw channels hold

Every queue of a raw channel stores the bytes and the resources of its messages as two totals.
Three global counters bound what all queues of all channels hold together.  A message that is
enqueued reserves its amounts in the counters, one after the other, and whatever takes it out
of the queue gives the same amounts back: the end of a receive, a discard, the orphan
collector, or the destructor of the channel.

The lock of a channel is held from the first reservation to the push, and from the pop to the
last release, but the counters are shared with the channels that others hold the lock of.  So
each access to a counter is a step.
-/

namespace Naos.Ipc

open Capability Function Transition List Option Quota ChannelState BoundedQueue

/-! ## Amounts -/

inductive Quantity where
  | messages
  | bytes
  | resources
  deriving DecidableEq, Repr

/-- The counters in the order in which `reserve_global` and `release_global` take them. -/
def quantities : List Quantity := [.messages, .bytes, .resources]

def charge (bytes resources : ℕ) : Quantity → ℕ
  | .messages => 1
  | .bytes => bytes
  | .resources => resources

def ChannelMessage.cost (m : ChannelMessage) : Quantity → ℕ :=
  charge m.bytes.length m.resources.length

/-- `NA_CHANNEL_GLOBAL_MAX_*` -/
def globalLimit : Quantity → ℕ
  | .messages => globalLimits.messages
  | .bytes => globalLimits.bytes
  | .resources => globalLimits.resources

lemma globalLimit_lt (q : Quantity) : globalLimit q < 2 ^ 64 := by cases q <;> decide

namespace ChannelWorld

variable (w : ChannelWorld)

def counter : Quantity → BitVec 64
  | .messages => w.globalMessages
  | .bytes => w.globalBytes
  | .resources => w.globalResources

def setCounter (counter : Quantity → BitVec 64) : ChannelWorld :=
  { w with
    globalMessages := counter .messages
    globalBytes := counter .bytes
    globalResources := counter .resources }

@[simp] lemma counter_setCounter (counter : Quantity → BitVec 64) :
    (w.setCounter counter).counter = counter := by
  funext q
  cases q <;> rfl

end ChannelWorld

/-! ## The channels -/

/-- What a sender is about to push, once it has its reservations. -/
structure Pending where
  receiver : Side
  message : ChannelMessage
  records : List TransferRecord

/-- All channels.  `tasks` is what the holder of the lock of a channel does with the global
counters, and `dying` has the channels whose destructor runs. -/
structure ChannelPool where
  world : ChannelWorld
  tasks : ℕ → Option (Task Quantity Pending) := fun _ => none
  dying : List ℕ := []

def ChannelState.pushed (s : ChannelState) (side : Side) (fifo : BoundedQueue ChannelMessage)
    (m : ChannelMessage) : ChannelState :=
  s.setQueue side
    { fifo := fifo
      bytes := (s.queues side).bytes + m.bytes.length
      resources := (s.queues side).resources + m.resources.length }

/-- A receive moves the resource at an index out of the claimed head. -/
def ChannelState.moveOut (s : ChannelState) (side : Side) (index : ℕ) : ChannelState :=
  match (s.queues side).fifo.items with
  | [] => s
  | m :: rest =>
    s.setQueue side
      { s.queues side with
        fifo :=
          { (s.queues side).fifo with
            items :=
              { m with resources := m.resources.modify index TransferredResource.movedFrom } ::
                rest } }

/-- The head leaves the queue of a side in the destructor, which leaves the totals alone. -/
def ChannelState.buried (s : ChannelState) (side : Side) : ChannelState :=
  s.setQueue side
    { s.queues side with
      fifo := { (s.queues side).fifo with
        items := (s.queues side).fifo.items.tail, claimed := false } }

inductive PoolAction where
  /-- `create_raw_channel`, at a new address. -/
  | create (c : ℕ) (asked : Limits)
  | hook (h : Hook)
  | beginOperation (c : ℕ)
  | endOperation (c : ℕ)
  /-- `endpoint_object_destroyed` -/
  | endpointDestroyed (c : ℕ)
  /-- The checks of `enqueue`, or of `enqueue_kernel` with a limit. -/
  | enqueue (c : ℕ) (sender : Side) (m : ChannelMessage) (records : List TransferRecord) (limit : ℕ)
  /-- The next access to a counter under the lock of a channel, or the push after the last. -/
  | advance (c : ℕ)
  /-- `claim_receive`, `cancel_receive` -/
  | claim (c : ℕ) (side : Side)
  | cancel (c : ℕ) (side : Side)
  | activate (c : ℕ) (side : Side) (index : ℕ)
  | commit (c : ℕ) (side : Side)
  /-- `discard`, or one round of `discard_orphan_messages`. -/
  | discard (c : ℕ) (side : Side)
  | destroy (c : ℕ)
  | bury (c : ℕ)

namespace ChannelPool

variable (p : ChannelPool)

def setChannel (c : ℕ) (s : ChannelState) : ChannelPool :=
  { p with world := { p.world with channels := update p.world.channels c s } }

def setTask (c : ℕ) (t : Option (Task Quantity Pending)) : ChannelPool :=
  { p with tasks := update p.tasks c t }

def unlocked (c : ℕ) : Bool := decide (c ∈ p.world.registry) && (p.tasks c).isNone

/-- The checks of `enqueue` before the reservations. -/
def admits (c : ℕ) (receiver : Side) (m : ChannelMessage) (count limit : ℕ) : Bool :=
  let s := p.world.channels c
  !unacceptable s m count && !oversized s m count && decide (s.owners receiver ≠ 0) &&
    !(limit != 0 && decide (limit ≤ (s.queues receiver).fifo.size)) &&
    !congested s receiver m count

def takeOut (c : ℕ) (m : ChannelMessage) (s : ChannelState) : ChannelPool :=
  (p.setChannel c s).setTask c (some (.releasing m.cost quantities))

/-- The end of `enqueue`: the resources move into the message, and the message is pushed. -/
def push (c : ℕ) (amount : Quantity → ℕ) (goal : Pending) : ChannelPool :=
  match appendAll goal.message goal.records with
  | none => p.setTask c (Task.giveBack amount quantities)
  | some m =>
    match ((p.world.channels c).queues goal.receiver).fifo.tryPush m with
    | none => p.setTask c (Task.giveBack amount quantities)
    | some fifo =>
      (p.setChannel c ((p.world.channels c).pushed goal.receiver fifo m)).setTask c none

def buryNext (c : ℕ) : ChannelPool :=
  let s := p.world.channels c
  match (s.queues 0).fifo.items, (s.queues 1).fifo.items with
  | m :: _, _ => p.takeOut c m (s.buried 0)
  | [], m :: _ => p.takeOut c m (s.buried 1)
  | [], [] => { p with dying := p.dying.erase c }

def step : PoolAction → Option ChannelPool
  | .create c asked =>
    match createLimits asked with
    | .error _ => some p
    | .ok l =>
      if c ∈ p.world.registry ∨ c ∈ p.dying then none
      else
        some
          { p with
            world :=
              { p.world with
                channels := update p.world.channels c (newChannel l)
                registry := c :: p.world.registry }
            tasks := update p.tasks c none }
  | .hook h => some { p with world := p.world.hook h }
  | .beginOperation c => some { p with world := p.world.beginOperation c }
  | .endOperation c => some { p with world := p.world.endOperation c }
  | .endpointDestroyed c =>
    some { p with world := p.world.modify c fun s =>
      { s with endpointObjects := Counter.sub s.endpointObjects 1 } }
  | .enqueue c sender m records limit =>
    if p.unlocked c then
      if p.admits c (peer sender) m records.length limit then
        some (p.setTask c (some (.reserving (charge m.bytes.length records.length) []
          quantities ⟨peer sender, m, records⟩)))
      else some p
    else none
  | .advance c =>
    match p.tasks c with
    | none => none
    | some (.reserving amount _ [] goal) => some (p.push c amount goal)
    | some t =>
      let o := t.next globalLimit p.world.counter
      some ({ p with world := p.world.setCounter o.1 }.setTask c o.2)
  | .claim c side =>
    if p.unlocked c then
      ((p.world.channels c).claimReceive side).toOption.map fun o => p.setChannel c o.2
    else none
  | .cancel c side =>
    if p.unlocked c then
      ((p.world.channels c).queues side).fifo.items.head?.bind fun m =>
        ((p.world.channels c).cancelReceive side m).map (p.setChannel c)
    else none
  | .activate c side index =>
    if ((p.world.channels c).queues side).fifo.claimed then
      some (p.setChannel c ((p.world.channels c).moveOut side index))
    else none
  | .commit c side =>
    if p.unlocked c then
      ((p.world.channels c).queues side).fifo.items.head?.bind fun m =>
        ((p.world.channels c).commitReceive side m).map (p.takeOut c m)
    else none
  | .discard c side =>
    if p.unlocked c then
      ((p.world.channels c).discard side).map fun o => p.takeOut c o.1 o.2
    else none
  | .destroy c =>
    if p.unlocked c && (p.world.channels c).canReap &&
        (p.world.channels c).endpointObjects == 0 then
      some { p with
        world := { p.world with registry := p.world.registry.erase c }
        dying := c :: p.dying }
    else none
  | .bury c => if c ∈ p.dying ∧ (p.tasks c).isNone then some (p.buryNext c) else none

def Idle : Prop := (∀ c, p.tasks c = none) ∧ p.dying = []

variable (ms : List ChannelMessage)

def costs (q : Quantity) : ℕ := (ms.map fun m => m.cost q).sum

/-- **The accounts are right.** -/
structure Accounted : Prop where
  totals : ∀ c ∈ p.world.registry, ∀ side, ((p.world.channels c).queues side).bytes =
        byteCount ((p.world.channels c).queues side).fifo.items ∧
      ((p.world.channels c).queues side).resources =
        resourceCount ((p.world.channels c).queues side).fifo.items
  bounds : ∀ c ∈ p.world.registry, ∀ side,
    ((p.world.channels c).queues side).bytes ≤ (p.world.channels c).maxBytes ∧
      ((p.world.channels c).queues side).resources ≤ (p.world.channels c).maxResources ∧
      ((p.world.channels c).queues side).fifo.items.length ≤ (p.world.channels c).maxMessages
  limits : ∀ q, (p.world.counter q).toNat ≤ globalLimit q
  covered : ∀ c amount q held, p.tasks c = some (.releasing amount (q :: held)) →
    amount q ≤ (p.world.counter q).toNat
  /-- With no operation in progress the global counters are the sums over all messages. -/
  global : p.Idle → ∀ q, (p.world.counter q).toNat =
    (p.world.registry.map fun c => costs (p.world.channels c).messages q).sum

/-! ## Queues -/

/-- The totals of a queue are right and within the bounds of the channel. -/
structure Fits (s : ChannelState) (side : Side) : Prop where
  bytes : (s.queues side).bytes = byteCount (s.queues side).fifo.items
  resources : (s.queues side).resources = resourceCount (s.queues side).fifo.items
  bytes_le : (s.queues side).bytes ≤ s.maxBytes
  resources_le : (s.queues side).resources ≤ s.maxResources
  length_le : (s.queues side).fifo.items.length ≤ s.maxMessages
  capacity : (s.queues side).fifo.capacity = s.maxMessages

def dims (m : ChannelMessage) : ℕ × ℕ := (m.bytes.length, m.resources.length)

/-- The messages of a channel are as many and as large as before, in the same places. -/
structure SameLoad (s s' : ChannelState) : Prop where
  maxMessages : s'.maxMessages = s.maxMessages
  maxBytes : s'.maxBytes = s.maxBytes
  maxResources : s'.maxResources = s.maxResources
  bytes : ∀ side, (s'.queues side).bytes = (s.queues side).bytes
  resources : ∀ side, (s'.queues side).resources = (s.queues side).resources
  capacity : ∀ side, (s'.queues side).fifo.capacity = (s.queues side).fifo.capacity
  sizes : ∀ side, (s'.queues side).fifo.items.map dims = (s.queues side).fifo.items.map dims

lemma byteCount_eq : byteCount ms = ((ms.map dims).map Prod.fst).sum := by
  rw [byteCount, List.map_map]
  rfl

lemma resourceCount_eq : resourceCount ms = ((ms.map dims).map Prod.snd).sum := by
  rw [resourceCount, List.map_map]
  rfl

lemma costs_eq (q : Quantity) : costs ms q = ((ms.map dims).map fun n => charge n.1 n.2 q).sum := by
  rw [costs, List.map_map]
  rfl

namespace SameLoad

variable {s s' : ChannelState}

lemma refl (s : ChannelState) : SameLoad s s :=
  ⟨rfl, rfl, rfl, fun _ => rfl, fun _ => rfl, fun _ => rfl, fun _ => rfl⟩

lemma of_queues (h : s'.queues = s.queues) (hm : s'.maxMessages = s.maxMessages)
    (hb : s'.maxBytes = s.maxBytes) (hr : s'.maxResources = s.maxResources) : SameLoad s s' :=
  ⟨hm, hb, hr, fun _ => by rw [h], fun _ => by rw [h], fun _ => by rw [h], fun _ => by rw [h]⟩

lemma setQueue (side : Side) {queue : MessageQueue} (hbytes : queue.bytes = (s.queues side).bytes)
    (hresources : queue.resources = (s.queues side).resources)
    (hcapacity : queue.fifo.capacity = (s.queues side).fifo.capacity)
    (hsizes : queue.fifo.items.map dims = (s.queues side).fifo.items.map dims) :
    SameLoad s (s.setQueue side queue) := by
  refine ⟨rfl, rfl, rfl, fun side' => ?_, fun side' => ?_, fun side' => ?_, fun side' => ?_⟩ <;>
    by_cases hside : side' = side
  all_goals first
    | (subst hside; simpa [ChannelState.setQueue])
    | simp [ChannelState.setQueue, hside]

lemma fits (h : SameLoad s s') {side : Side} (hfits : Fits s side) : Fits s' side where
  bytes := by rw [h.bytes, hfits.bytes, byteCount_eq, byteCount_eq, h.sizes]
  resources := by rw [h.resources, hfits.resources, resourceCount_eq, resourceCount_eq, h.sizes]
  bytes_le := by
    rw [h.bytes, h.maxBytes]
    exact hfits.bytes_le
  resources_le := by
    rw [h.resources, h.maxResources]
    exact hfits.resources_le
  length_le := by
    have hlength := congrArg length (h.sizes side)
    rw [length_map, length_map] at hlength
    rw [hlength, h.maxMessages]
    exact hfits.length_le
  capacity := by rw [h.capacity, h.maxMessages, hfits.capacity]

lemma costs (h : SameLoad s s') (q : Quantity) :
    ChannelPool.costs s'.messages q = ChannelPool.costs s.messages q := by
  simp only [costs_eq, messages, map_append, h.sizes]

end SameLoad

lemma peer_eq (side : Side) : peer (peer side) = side ∧ peer side ≠ side := by
  revert side
  decide

lemma costs_messages (s : ChannelState) (side : Side) (q : Quantity) : costs s.messages q =
      costs (s.queues side).fifo.items q + costs (s.queues (peer side)).fifo.items q := by
  have hsides : side = 0 ∧ peer side = 1 ∨ side = 1 ∧ peer side = 0 := by
    revert side
    decide
  rw [messages, costs, map_append, sum_append]
  rcases hsides with ⟨hside, hpeer⟩ | ⟨hside, hpeer⟩
  · rw [hpeer, hside]
    rfl
  · rw [hpeer, hside, Nat.add_comm]
    rfl

@[simp] lemma queues_setQueue_self (s : ChannelState) (side : Side) (queue : MessageQueue) :
    (s.setQueue side queue).queues side = queue := by
  simp [setQueue]

variable {s s' : ChannelState} {side : Side} {queue : MessageQueue} {count : ℕ} {m : ChannelMessage}
  {fifo : BoundedQueue ChannelMessage} {rest : List ChannelMessage} {counter : Quantity → BitVec 64}
  {t : Task Quantity Pending} {f : ChannelState → ChannelState}

lemma queues_setQueue_of_ne {side' : Side} (h : side' ≠ side) (queue : MessageQueue) :
    (s.setQueue side queue).queues side' = s.queues side' := by
  simp [setQueue, h]

lemma costs_setQueue (s : ChannelState) (side : Side) (queue : MessageQueue) (q : Quantity) :
    costs (s.setQueue side queue).messages q + costs (s.queues side).fifo.items q =
      costs s.messages q + costs queue.fifo.items q := by
  rw [costs_messages _ side, costs_messages s side, queues_setQueue_self,
    queues_setQueue_of_ne (peer_eq side).2]
  omega

lemma Fits.setQueue (h : ∀ side, Fits s side) (hqueue : Fits (s.setQueue side queue) side)
    (side' : Side) :
    Fits (s.setQueue side queue) side' := by
  by_cases hside : side' = side
  · rw [hside]
    exact hqueue
  · have hsame := queues_setQueue_of_ne hside queue (s := s)
    obtain ⟨hbytes, hresources, hbytesLe, hresourcesLe, hlength, hcapacity⟩ := h side'
    constructor <;> rwa [hsame]

structure Room (s : ChannelState) (side : Side) (m : ChannelMessage) (count : ℕ) : Prop where
  bytes : (s.queues side).bytes + m.bytes.length ≤ s.maxBytes
  resources : (s.queues side).resources + count ≤ s.maxResources
  empty : m.resources = []
  capacity : count ≤ m.resourceCapacity

lemma Room.of_admits {receiver : Side} {limit : ℕ} (h : p.admits c receiver m count limit = true) :
    Room (p.world.channels c) receiver m count := by
  simp only [admits, unacceptable, oversized, congested, Bool.and_eq_true, Bool.not_eq_true',
    Bool.or_eq_false_iff, decide_eq_false_iff_not, decide_eq_true_eq, not_lt, not_not,
    length_eq_zero_iff] at h
  obtain ⟨⟨⟨⟨⟨⟨⟨-, hcount⟩, hempty⟩, hcapacity⟩, ⟨hbytes, -⟩⟩, -⟩, -⟩, ⟨⟨-, hb⟩, hr⟩⟩ := h
  exact ⟨by omega, by omega, hempty, hcapacity⟩

lemma Room.sameLoad (h : SameLoad s s') (hroom : Room s side m count) : Room s' side m count where
  bytes := by
    rw [h.bytes, h.maxBytes]
    exact hroom.bytes
  resources := by
    rw [h.resources, h.maxResources]
    exact hroom.resources
  empty := hroom.empty
  capacity := hroom.capacity

lemma costs_append (ms ms' : List ChannelMessage) (q : Quantity) :
    costs (ms ++ ms') q = costs ms q + costs ms' q := by
  simp [costs]

lemma costs_cons (m : ChannelMessage) (ms : List ChannelMessage) (q : Quantity) :
    costs (m :: ms) q = m.cost q + costs ms q := by
  simp [costs]

lemma fits_pushed (h : ∀ side, Fits s side) (hpush : (s.queues side).fifo.tryPush m = some fifo)
    (hbytes : (s.queues side).bytes + m.bytes.length ≤ s.maxBytes)
    (hresources : (s.queues side).resources + m.resources.length ≤ s.maxResources) (side' : Side) :
    Fits (s.pushed side fifo m) side' := by
  have hfits := h side
  have hnotFull : (s.queues side).fifo.items.length ≠ (s.queues side).fifo.capacity := by
    intro hfull
    simp [tryPush, hfull] at hpush
  have hfifo := tryPush_eq_some hpush
  have hcapacity := hfits.capacity
  have hlength := hfits.length_le
  refine Fits.setQueue h ?_ side'
  subst hfifo
  constructor
  · simp [hfits.bytes, byteCount]
  · simp [hfits.resources, resourceCount]
  · simpa [setQueue] using hbytes
  · simpa [setQueue] using hresources
  · simp only [setQueue, update_self, length_append, length_singleton]
    omega
  · simpa [setQueue] using hcapacity

lemma costs_pushed (hpush : (s.queues side).fifo.tryPush m = some fifo) (q : Quantity) :
    costs (s.pushed side fifo m).messages q = costs s.messages q + m.cost q := by
  have hset := costs_setQueue s side
    { fifo := fifo
      bytes := (s.queues side).bytes + m.bytes.length
      resources := (s.queues side).resources + m.resources.length } q
  rw [tryPush_eq_some hpush, costs_append] at hset
  have hone : costs [m] q = m.cost q := by simp [costs]
  rw [pushed, tryPush_eq_some hpush]
  omega

lemma fits_pop (h : ∀ side, Fits s side) (hitems : (s.queues side).fifo.items = m :: rest)
    (hqueue : queue.fifo.items = rest)
    (hcapacity : queue.fifo.capacity = (s.queues side).fifo.capacity)
    (hbytes : queue.bytes = Counter.sub (s.queues side).bytes m.bytes.length)
    (hresources : queue.resources = Counter.sub (s.queues side).resources m.resources.length)
    (side' : Side) : Fits (s.setQueue side queue) side' := by
  have hfits := h side
  have hb : (s.queues side).bytes = m.bytes.length + byteCount rest := by
    rw [hfits.bytes, hitems]
    simp [byteCount]
  have hr : (s.queues side).resources = m.resources.length + resourceCount rest := by
    rw [hfits.resources, hitems]
    simp [resourceCount]
  have hbound := hfits.bytes_le
  have hbound' := hfits.resources_le
  have hlength := hfits.length_le
  rw [hitems, length_cons] at hlength
  rw [Counter.sub_of_le (by omega)] at hbytes hresources
  refine Fits.setQueue h ?_ side'
  constructor
  · rw [queues_setQueue_self, hbytes, hqueue]
    omega
  · rw [queues_setQueue_self, hresources, hqueue]
    omega
  · rw [queues_setQueue_self, hbytes]
    exact (Nat.sub_le _ _).trans hbound
  · rw [queues_setQueue_self, hresources]
    exact (Nat.sub_le _ _).trans hbound'
  · rw [queues_setQueue_self, hqueue]
    exact (Nat.le_succ _).trans hlength
  · rw [queues_setQueue_self, hcapacity]
    exact hfits.capacity

lemma costs_pop (hitems : (s.queues side).fifo.items = m :: rest)
    (hqueue : queue.fifo.items = rest) (q : Quantity) :
    costs s.messages q = costs (s.setQueue side queue).messages q + m.cost q := by
  have hset := costs_setQueue s side queue q
  rw [hitems, hqueue, costs_cons] at hset
  omega

/-! ## The invariant -/

/-- What a channel has of a counter: the costs of its messages, and what is reserved under its
lock. -/
def weight (c : ℕ) (q : Quantity) : ℕ :=
  costs (p.world.channels c).messages q + Task.weight (p.tasks c) q

/-- A sender still has the room it has seen, and has or will have each reservation once. -/
def Prepared (s : ChannelState) : Option (Task Quantity Pending) → Prop
  | some (.reserving amount held todo goal) =>
    Room s goal.receiver goal.message goal.records.length ∧
      amount = charge goal.message.bytes.length goal.records.length ∧
      ∀ q, held.count q + todo.count q = 1
  | _ => True

def NoSender : Option (Task Quantity Pending) → Prop
  | some (.reserving _ _ _ _) => False
  | _ => True

structure Inv : Prop where
  nodup : (p.world.registry ++ p.dying).Nodup
  fits : ∀ c ∈ p.world.registry, ∀ side, Fits (p.world.channels c) side
  prepared : ∀ c ∈ p.world.registry, Prepared (p.world.channels c) (p.tasks c)
  dying : ∀ c ∈ p.dying, NoSender (p.tasks c)
  idle : ∀ c, c ∉ p.world.registry ++ p.dying → p.tasks c = none
  balanced : Balanced globalLimit p.world.counter (p.world.registry ++ p.dying) p.weight

variable {p} {p' : ChannelPool} {c : ℕ}

lemma Inv.of_channel (h : p.Inv) (hmem : c ∈ p.world.registry ++ p.dying)
    (hregistry : p'.world.registry = p.world.registry) (hdying : p'.dying = p.dying)
    (hchannels : ∀ c' ≠ c, p'.world.channels c' = p.world.channels c')
    (htasks : ∀ c' ≠ c, p'.tasks c' = p.tasks c')
    (hfits : c ∈ p.world.registry → ∀ side, Fits (p'.world.channels c) side)
    (hprepared : c ∈ p.world.registry → Prepared (p'.world.channels c) (p'.tasks c))
    (hsender : c ∈ p.dying → NoSender (p'.tasks c))
    (hbalanced : Balanced globalLimit p'.world.counter (p.world.registry ++ p.dying)
      p'.weight) : p'.Inv where
  nodup := by
    rw [hregistry, hdying]
    exact h.nodup
  fits := by
    intro c' hc'
    rw [hregistry] at hc'
    by_cases hcc : c' = c
    · exact hcc ▸ hfits (hcc ▸ hc')
    · rw [hchannels c' hcc]
      exact h.fits c' hc'
  prepared := by
    intro c' hc'
    rw [hregistry] at hc'
    by_cases hcc : c' = c
    · exact hcc ▸ hprepared (hcc ▸ hc')
    · rw [hchannels c' hcc, htasks c' hcc]
      exact h.prepared c' hc'
  dying := by
    intro c' hc'
    rw [hdying] at hc'
    by_cases hcc : c' = c
    · exact hcc ▸ hsender (hcc ▸ hc')
    · rw [htasks c' hcc]
      exact h.dying c' hc'
  idle := by
    intro c' hc'
    rw [hregistry, hdying] at hc'
    rw [htasks c' fun hcc => hc' (hcc ▸ hmem)]
    exact h.idle c' hc'
  balanced := by
    rw [hregistry, hdying]
    exact hbalanced

lemma Prepared.sameLoad (hload : SameLoad s s') {t : Option (Task Quantity Pending)}
    (h : Prepared s t) : Prepared s' t := by
  rcases t with _ | ⟨amount, held, todo, goal⟩ | _
  · trivial
  · exact ⟨h.1.sameLoad hload, h.2⟩
  · trivial

lemma Inv.still (h : p.Inv) (hregistry : p'.world.registry = p.world.registry)
    (hdying : p'.dying = p.dying) (htasks : p'.tasks = p.tasks)
    (hcounter : p'.world.counter = p.world.counter)
    (hload : ∀ c, SameLoad (p.world.channels c) (p'.world.channels c)) : p'.Inv where
  nodup := by
    rw [hregistry, hdying]
    exact h.nodup
  fits := fun c hc side => (hload c).fits (h.fits c (hregistry ▸ hc) side)
  prepared := fun c hc => htasks ▸ (h.prepared c (hregistry ▸ hc)).sameLoad (hload c)
  dying := fun c hc => htasks ▸ h.dying c (hdying ▸ hc)
  idle := by
    rw [hregistry, hdying, htasks]
    exact h.idle
  balanced := by
    rw [hregistry, hdying, hcounter]
    refine h.balanced.congr fun c _ q => ?_
    rw [weight, weight, htasks, (hload c).costs]

section Frames

variable (p)

@[simp] lemma channels_setChannel_self (s : ChannelState) :
    (p.setChannel c s).world.channels c = s := by
  simp [setChannel]

variable {c' : ℕ}

lemma channels_setChannel_of_ne (h : c' ≠ c) (s : ChannelState) :
    (p.setChannel c s).world.channels c' = p.world.channels c' := by
  simp [setChannel, h]

@[simp] lemma tasks_setTask_self (t : Option (Task Quantity Pending)) :
    (p.setTask c t).tasks c = t := by
  simp [setTask]

lemma tasks_setTask_of_ne (h : c' ≠ c) (t : Option (Task Quantity Pending)) :
    (p.setTask c t).tasks c' = p.tasks c' := by
  simp [setTask, h]

@[simp] lemma world_setTask (t : Option (Task Quantity Pending)) :
    (p.setTask c t).world = p.world := rfl

@[simp] lemma counter_setChannel (s : ChannelState) :
    (p.setChannel c s).world.counter = p.world.counter := by
  funext q
  cases q <;> rfl

end Frames

lemma Inv.setChannel (h : p.Inv) (hload : SameLoad (p.world.channels c) s) :
    (p.setChannel c s).Inv := by
  refine h.still rfl rfl rfl (counter_setChannel p s) fun c' => ?_
  by_cases hcc : c' = c
  · rw [hcc, channels_setChannel_self]
    exact hload
  · rw [channels_setChannel_of_ne p hcc]
    exact SameLoad.refl _

/-! ## The steps -/

lemma Inv.not_dying (h : p.Inv) (hmem : c ∈ p.world.registry) : c ∉ p.dying :=
  fun hdying => (nodup_append.1 h.nodup).2.2 c hmem c hdying rfl

lemma Prepared.next (h : Prepared s (some t)) : Prepared s (t.next globalLimit counter).2 := by
  rcases t with ⟨amount, held, _ | ⟨q, todo⟩, goal⟩ | ⟨amount, _ | ⟨q, held⟩⟩
  · exact h
  · rw [Task.next]
    cases reserve (counter q) (amount q) (globalLimit q) with
    | some n =>
      refine ⟨h.1, h.2.1, fun q' => ?_⟩
      have hcount := h.2.2 q'
      simp only [count_cons] at hcount ⊢
      omega
    | none =>
      cases held with
      | nil | cons q' held => trivial
  · trivial
  · cases held with
    | nil | cons q' held => trivial

lemma NoSender.next (h : NoSender (some t)) : NoSender (t.next globalLimit counter).2 := by
  rcases t with ⟨amount, held, todo, goal⟩ | ⟨amount, _ | ⟨q, held⟩⟩
  · exact h.elim
  · trivial
  · cases held with
    | nil | cons q' held => trivial

lemma mem_of_unlocked (h : p.unlocked c = true) : c ∈ p.world.registry ∧ p.tasks c = none := by
  simpa [unlocked] using h

/-- A channel and what is going on under its lock change together. -/
lemma Inv.setBoth (h : p.Inv) {t : Option (Task Quantity Pending)}
    (hmem : c ∈ p.world.registry ++ p.dying)
    (hfits : c ∈ p.world.registry → ∀ side, Fits s side)
    (hprepared : c ∈ p.world.registry → Prepared s t) (hsender : c ∈ p.dying → NoSender t)
    (hweight : ∀ q, costs s.messages q + Task.weight t q = p.weight c q) :
    ((p.setChannel c s).setTask c t).Inv := by
  have hchannels : ∀ c' ≠ c, (p.setChannel c s).world.channels c' = p.world.channels c' :=
    fun c' hne => channels_setChannel_of_ne p hne s
  have htasks : ∀ c' ≠ c, ((p.setChannel c s).setTask c t).tasks c' = p.tasks c' :=
    fun c' hne => tasks_setTask_of_ne (p.setChannel c s) hne t
  refine h.of_channel hmem rfl rfl hchannels htasks ?_ ?_ ?_ ?_
  · rwa [world_setTask, channels_setChannel_self]
  · rwa [world_setTask, channels_setChannel_self, tasks_setTask_self]
  · rwa [tasks_setTask_self]
  · refine h.balanced.congr fun c' _ q => ?_
    by_cases hcc : c' = c
    · rw [hcc, ← hweight, weight, world_setTask, channels_setChannel_self, tasks_setTask_self]
    · rw [weight, weight, world_setTask, hchannels c' hcc, htasks c' hcc]

lemma Inv.setTask (h : p.Inv) {t : Option (Task Quantity Pending)} (hmem : c ∈ p.world.registry)
    (hprepared : Prepared (p.world.channels c) t)
    (hweight : ∀ q, Task.weight t q = Task.weight (p.tasks c) q) : (p.setTask c t).Inv := by
  have hboth := h.setBoth (mem_append_left _ hmem) (h.fits c) (fun _ => hprepared)
    (fun hdying => absurd hdying (h.not_dying hmem)) fun q => by rw [hweight, weight]
  rwa [ChannelPool.setChannel, update_eq_self] at hboth

lemma count_quantities (q : Quantity) : quantities.count q = 1 := by cases q <;> rfl

lemma Inv.takeOut (h : p.Inv) (hmem : c ∈ p.world.registry ++ p.dying) (htask : p.tasks c = none)
    (hfits : c ∈ p.world.registry → ∀ side, Fits s side)
    (hcosts : ∀ q, costs (p.world.channels c).messages q = costs s.messages q + m.cost q) :
    (p.takeOut c m s).Inv := by
  refine h.setBoth hmem hfits (fun _ => trivial) (fun _ => trivial) fun q => ?_
  rw [weight, htask, hcosts]
  simp [Task.weight, count_quantities]

lemma Inv.enqueue (h : p.Inv) (hunlocked : p.unlocked c = true) (goal : Pending)
    (hroom : Room (p.world.channels c) goal.receiver goal.message goal.records.length) :
    (p.setTask c (some (.reserving (charge goal.message.bytes.length goal.records.length) []
      quantities goal))).Inv := by
  obtain ⟨hmem, htask⟩ := mem_of_unlocked hunlocked
  refine h.setTask hmem ⟨hroom, rfl, fun q => ?_⟩ fun q => ?_
  · cases q <;> rfl
  · rw [htask]
    simp [Task.weight]

lemma Inv.mem_of_task (h : p.Inv) (htask : p.tasks c = some t) :
    c ∈ p.world.registry ++ p.dying := by
  by_contra hnot
  rw [h.idle c hnot] at htask
  cases htask

lemma Inv.next (h : p.Inv) (htask : p.tasks c = some t) :
    ({ p with world := p.world.setCounter (t.next globalLimit p.world.counter).1 }.setTask c
      (t.next globalLimit p.world.counter).2).Inv := by
  have hmem := h.mem_of_task htask
  refine h.of_channel hmem rfl rfl (fun _ _ => rfl) (fun c' hne => tasks_setTask_of_ne _ hne _)
    (h.fits c) ?_ ?_ ?_
  · intro hregistered
    have hprepared := h.prepared c hregistered
    rw [htask] at hprepared
    rw [tasks_setTask_self]
    exact hprepared.next
  · intro hdying
    have hsender := h.dying c hdying
    rw [htask] at hsender
    rw [tasks_setTask_self]
    exact hsender.next
  · rw [world_setTask, ChannelWorld.counter_setCounter]
    have hself : ∀ q, p.weight c q = costs (p.world.channels c).messages q +
        Task.weight (some t) q := fun q => by rw [weight, htask]
    refine h.balanced.next globalLimit_lt h.nodup hmem hself (fun c' _ hne q => ?_) fun q => ?_
    · rw [weight, weight, tasks_setTask_of_ne _ hne]
      rfl
    · rw [weight, tasks_setTask_self]
      rfl

lemma Inv.push (h : p.Inv) {amount : Quantity → ℕ} {held : List Quantity} {goal : Pending}
    (htask : p.tasks c = some (.reserving amount held [] goal)) : (p.push c amount goal).Inv := by
  have hmem : c ∈ p.world.registry := by
    refine (mem_append.1 (h.mem_of_task htask)).resolve_right fun hdying => ?_
    have hsender := h.dying c hdying
    rwa [htask] at hsender
  have hprepared := h.prepared c hmem
  rw [htask] at hprepared
  obtain ⟨hroom, hamount, hheld⟩ := hprepared
  have hweight : ∀ q, Task.weight (p.tasks c) q = amount q := by
    intro q
    have hcount : held.count q = 1 := by simpa using hheld q
    rw [htask]
    simp [Task.weight, hcount]
  have happend : appendAll goal.message goal.records =
      some { goal.message with resources := goal.records.map TransferRecord.resource } := by
    have hcapacity := hroom.capacity
    have hempty := hroom.empty
    rw [appendAll_eq (by simpa [hempty] using hcapacity), hempty]
    rfl
  rw [ChannelPool.push, happend]
  dsimp only
  split
  · refine h.setTask hmem trivial fun q => ?_
    rw [hweight, Task.weight_giveBack, count_quantities, Nat.one_mul]
  next fifo hpush =>
    refine h.setBoth (mem_append_left _ hmem) (fun _ => ?_) (fun _ => trivial)
      (fun _ => trivial) fun q => ?_
    · exact fits_pushed (h.fits c hmem) hpush hroom.bytes (by simpa using hroom.resources)
    · rw [weight, costs_pushed hpush, hweight, hamount]
      simp [Task.weight, ChannelMessage.cost]

lemma fits_newChannel (l : Limits) (side : Side) : Fits (newChannel l) side := by
  constructor <;> simp [newChannel, byteCount, resourceCount]

lemma Inv.create (h : p.Inv) (hnew : c ∉ p.world.registry ++ p.dying) (l : Limits) : ({ p with
        world :=
          { p.world with
            channels := update p.world.channels c (newChannel l)
            registry := c :: p.world.registry }
        tasks := update p.tasks c none } : ChannelPool).Inv := by
  have hne : ∀ c' ∈ p.world.registry ++ p.dying, c' ≠ c := fun c' hc' heq => hnew (heq ▸ hc')
  refine
    { nodup := nodup_cons.2 ⟨hnew, h.nodup⟩
      fits := ?_
      prepared := ?_
      dying := ?_
      idle := ?_
      balanced := ?_ }
  · intro c' hc' side
    rcases mem_cons.1 hc' with rfl | hold
    · simpa using fits_newChannel l side
    · have hc := hne c' (mem_append_left _ hold)
      simpa [hc] using h.fits c' hold side
  · intro c' hc'
    rcases mem_cons.1 hc' with rfl | hold
    · simp [Prepared]
    · have hc := hne c' (mem_append_left _ hold)
      simpa [hc] using h.prepared c' hold
  · intro c' hc'
    have hc := hne c' (mem_append_right _ hc')
    simpa [hc] using h.dying c' hc'
  · intro c' hc'
    have hc : c' ≠ c ∧ c' ∉ p.world.registry ++ p.dying := by simpa [not_or] using hc'
    simpa [hc.1] using h.idle c' hc.2
  · refine (Balanced.cons_iff fun q => ?_).2 (h.balanced.congr fun c' hc' q => ?_)
    · simp [weight, newChannel, messages, costs]
    · simp [weight, hne c' hc']

lemma Inv.destroy (h : p.Inv) (hmem : c ∈ p.world.registry) (htask : p.tasks c = none) : ({ p with
        world := { p.world with registry := p.world.registry.erase c }
        dying := c :: p.dying } : ChannelPool).Inv := by
  have hperm : (p.world.registry ++ p.dying).Perm (p.world.registry.erase c ++ c :: p.dying) :=
    ((perm_cons_erase hmem).append_right p.dying).trans perm_middle.symm
  exact
    { nodup := hperm.nodup_iff.1 h.nodup
      fits := fun c' hc' => h.fits c' (mem_of_mem_erase hc')
      prepared := fun c' hc' => h.prepared c' (mem_of_mem_erase hc')
      dying := by
        intro c' hc'
        rcases mem_cons.1 hc' with rfl | hold
        · simp only [htask]
          trivial
        · exact h.dying c' hold
      idle := fun c' hc' => h.idle c' fun hmem' => hc' (hperm.subset hmem')
      balanced := h.balanced.perm hperm }

lemma Inv.gone (h : p.Inv) (hmem : c ∈ p.dying) (htask : p.tasks c = none)
    (hempty : (p.world.channels c).messages = []) :
    ({ p with dying := p.dying.erase c } : ChannelPool).Inv := by
  have hperm : (p.world.registry ++ p.dying).Perm (c :: (p.world.registry ++ p.dying.erase c)) :=
    ((perm_cons_erase hmem).append_left p.world.registry).trans perm_middle
  exact
    { nodup := (nodup_cons.1 (hperm.nodup_iff.1 h.nodup)).2
      fits := h.fits
      prepared := h.prepared
      dying := fun c' hc' => h.dying c' (mem_of_mem_erase hc')
      idle := by
        intro c' hc'
        by_cases hcc : c' = c
        · exact hcc ▸ htask
        · exact h.idle c' fun hmem' => by
            rcases mem_cons.1 (hperm.subset hmem') with heq | hrest
            · exact hcc heq
            · exact hc' hrest
      balanced := by
        refine (Balanced.cons_iff fun q => ?_).1 (h.balanced.perm hperm)
        simp [weight, htask, hempty, costs] }

lemma costs_buried (hitems : (s.queues side).fifo.items = m :: rest) (q : Quantity) :
    costs s.messages q = costs (s.buried side).messages q + m.cost q :=
  costs_pop hitems (by rw [hitems, tail_cons]) q

lemma Inv.bury (h : p.Inv) (hmem : c ∈ p.dying) (htask : p.tasks c = none) :
    (p.buryNext c).Inv := by
  have hnot : c ∉ p.world.registry := fun hreg => h.not_dying hreg hmem
  have hholder : c ∈ p.world.registry ++ p.dying := mem_append_right _ hmem
  rw [buryNext]
  split
  next hitems => exact h.takeOut hholder htask (fun hreg => absurd hreg hnot) (costs_buried hitems)
  next hitems => exact h.takeOut hholder htask (fun hreg => absurd hreg hnot) (costs_buried hitems)
  next hleft hright => exact h.gone hmem htask (by rw [messages, hleft, hright]; rfl)

lemma sameLoad_hook (w : ChannelWorld) (hk : Hook) (c : ℕ) :
    SameLoad (w.channels c) ((w.hook hk).channels c) := by
  rw [channels_hook]
  exact .of_queues rfl rfl rfl rfl

lemma sameLoad_modify (w : ChannelWorld) (d : ℕ) (hf : ∀ s, SameLoad s (f s)) (c : ℕ) :
    SameLoad (w.channels c) ((w.modify d f).channels c) := by
  rw [channels_modify]
  split
  next heq => exact heq ▸ hf _
  · exact SameLoad.refl _

lemma counter_hook (w : ChannelWorld) (hk : Hook) : (w.hook hk).counter = w.counter := by
  have hsame := sameGlobals_hook w hk
  funext q
  cases q
  · exact hsame.globalMessages
  · exact hsame.globalBytes
  · exact hsame.globalResources

lemma counter_modify (w : ChannelWorld) (d : ℕ) (f : ChannelState → ChannelState) :
    (w.modify d f).counter = w.counter := by
  funext q
  cases q <;> rfl

lemma Inv.modify (h : p.Inv) (d : ℕ) (hf : ∀ s, SameLoad s (f s)) :
    ({ p with world := p.world.modify d f } : ChannelPool).Inv :=
  h.still rfl rfl rfl (counter_modify _ d f) (sameLoad_modify p.world d hf)

lemma sameLoad_claimReceive (h : s.claimReceive side = .ok (m, s')) : SameLoad s s' := by
  rw [claimReceive] at h
  repeat' split at h
  any_goals contradiction
  next hclaim =>
    cases h
    have hfifo := claimFront_eq_some hclaim
    have hload : SameLoad s (s.setQueue side
        { s.queues side with fifo := { (s.queues side).fifo with claimed := true } }) :=
      SameLoad.setQueue side rfl rfl rfl rfl
    rw [hfifo]
    exact ⟨rfl, rfl, rfl, hload.bytes, hload.resources, hload.capacity, hload.sizes⟩

lemma sameLoad_cancelReceive (h : s.cancelReceive side m = some s') : SameLoad s s' := by
  obtain ⟨-, rfl⟩ := ite_some_none_eq_some.1 h
  have hload : SameLoad s (s.setQueue side
      { s.queues side with fifo := (s.queues side).fifo.cancelClaim }) :=
    SameLoad.setQueue side rfl rfl rfl rfl
  exact ⟨rfl, rfl, rfl, hload.bytes, hload.resources, hload.capacity, hload.sizes⟩

lemma sameLoad_moveOut (s : ChannelState) (side : Side) (index : ℕ) :
    SameLoad s (s.moveOut side index) := by
  rw [moveOut]
  split
  · exact SameLoad.refl s
  next m rest hitems =>
    refine SameLoad.setQueue side rfl rfl rfl ?_
    rw [hitems]
    simp [dims]

lemma commitReceive_eq (h : s.commitReceive side m = some s') (hfits : ∀ side, Fits s side) :
    (∀ side, Fits s' side) ∧ ∀ q, costs s.messages q = costs s'.messages q + m.cost q := by
  obtain ⟨hclaim, rfl⟩ := ite_some_none_eq_some.1 h
  simp only [holdsClaim, Bool.and_eq_true, beq_iff_eq] at hclaim
  obtain ⟨⟨-, hclaimed⟩, hhead⟩ := hclaim
  obtain ⟨rest, hitems⟩ : ∃ rest, (s.queues side).fifo.items = m :: rest := by
    cases hcase : (s.queues side).fifo.items with
    | nil => simp [hcase] at hhead
    | cons m' rest => exact ⟨rest, by simpa [hcase] using hhead⟩
  have hpop : (s.queues side).fifo.commitClaim =
      { (s.queues side).fifo with items := rest, claimed := false } := by
    simp [commitClaim, hclaimed, hitems]
  have hqueue : (pop (s.queues side) m).fifo.items = rest := by
    rw [pop, hpop]
  have hfits' := fits_pop hfits hitems hqueue (by rw [pop, hpop]) rfl rfl
  exact ⟨fun side' => ⟨(hfits' side').1, (hfits' side').2, (hfits' side').3, (hfits' side').4,
    (hfits' side').5, (hfits' side').6⟩, costs_pop hitems hqueue⟩

lemma discard_eq (h : s.discard side = some (m, s')) (hfits : ∀ side, Fits s side) :
    (∀ side, Fits s' side) ∧ ∀ q, costs s.messages q = costs s'.messages q + m.cost q := by
  rw [ChannelState.discard] at h
  split at h
  · simp at h
  split at h
  next head rest fifo hitems hclaim =>
    obtain ⟨rfl, rfl⟩ := Prod.mk.inj (some.inj h)
    have hpop : fifo.commitClaim =
        { (s.queues side).fifo with items := rest, claimed := false } := by
      rw [claimFront_eq_some hclaim]
      simp [commitClaim, hitems]
    have hqueue : (pop { s.queues side with fifo := fifo } head).fifo.items =
        rest := by
      rw [pop, hpop]
    exact ⟨fits_pop hfits hitems hqueue (by rw [pop, hpop]) rfl rfl, costs_pop hitems hqueue⟩
  · simp at h

/-- Every locked section keeps the accounts. -/
lemma inv_step {a : PoolAction} (h : p.Inv) (hstep : p.step a = some p') : p'.Inv := by
  cases a with rw [step] at hstep
  | create c asked =>
    split at hstep
    · cases hstep
      exact h
    next l _ =>
      split_ifs at hstep with hold
      cases hstep
      exact h.create (by simpa using hold) l
  | hook hk =>
    cases hstep
    exact h.still (sameGlobals_hook _ hk).registry rfl rfl (counter_hook _ hk)
      (sameLoad_hook p.world hk)
  | beginOperation c | endOperation c | endpointDestroyed c =>
    cases hstep
    exact h.modify c fun s => .of_queues rfl rfl rfl rfl
  | enqueue c sender m records limit =>
    split_ifs at hstep with hunlocked hadmits
    · cases hstep
      have hroom : Room (p.world.channels c) (peer sender) m records.length :=
        Room.of_admits p hadmits
      exact h.enqueue hunlocked ⟨peer sender, m, records⟩ hroom
    · cases hstep
      exact h
  | advance c =>
    split at hstep
    · simp at hstep
    next htask =>
      cases hstep
      exact h.push htask
    next htask =>
      cases hstep
      exact h.next htask
  | claim c side =>
    split_ifs at hstep with hunlocked
    obtain ⟨o, ho, rfl⟩ := map_eq_some_iff.1 hstep
    cases hclaim : (p.world.channels c).claimReceive side with
    | error e => simp [hclaim, Except.toOption] at ho
    | ok o' =>
      obtain rfl : o' = o := by simpa [hclaim, Except.toOption] using ho
      exact h.setChannel (sameLoad_claimReceive hclaim)
  | cancel c side =>
    split_ifs at hstep with hunlocked
    obtain ⟨m, -, hcancel⟩ := bind_eq_some_iff.1 hstep
    obtain ⟨s, hs, rfl⟩ := map_eq_some_iff.1 hcancel
    exact h.setChannel (sameLoad_cancelReceive hs)
  | activate c side index =>
    split_ifs at hstep with hclaimed
    cases hstep
    exact h.setChannel (sameLoad_moveOut _ side index)
  | commit c side =>
    split_ifs at hstep with hunlocked
    obtain ⟨hmem, htask⟩ := mem_of_unlocked hunlocked
    obtain ⟨m, -, hcommit⟩ := bind_eq_some_iff.1 hstep
    obtain ⟨s, hs, rfl⟩ := map_eq_some_iff.1 hcommit
    obtain ⟨hfits, hcosts⟩ := commitReceive_eq hs (h.fits c hmem)
    exact h.takeOut (mem_append_left _ hmem) htask (fun _ => hfits) hcosts
  | discard c side =>
    split_ifs at hstep with hunlocked
    obtain ⟨hmem, htask⟩ := mem_of_unlocked hunlocked
    obtain ⟨⟨m, s⟩, hs, rfl⟩ := map_eq_some_iff.1 hstep
    obtain ⟨hfits, hcosts⟩ := discard_eq hs (h.fits c hmem)
    exact h.takeOut (mem_append_left _ hmem) htask (fun _ => hfits) hcosts
  | destroy c =>
    split_ifs at hstep with hreap
    simp only [Bool.and_eq_true] at hreap
    obtain ⟨hmem, htask⟩ := mem_of_unlocked hreap.1.1
    cases hstep
    exact h.destroy hmem htask
  | bury c =>
    split_ifs at hstep with hdying
    cases hstep
    exact h.bury hdying.1 (by simpa using hdying.2)

/-! ## Runs -/

lemma Inv.accounted (h : p.Inv) : p.Accounted where
  totals := fun c hc side => ⟨(h.fits c hc side).bytes, (h.fits c hc side).resources⟩
  bounds := fun c hc side => ⟨(h.fits c hc side).bytes_le, (h.fits c hc side).resources_le,
    (h.fits c hc side).length_le⟩
  limits := fun q => (h.balanced.eq q).trans_le (h.balanced.le q)
  covered := by
    intro c amount q held htask
    have hmem := h.mem_of_task htask
    have hpart : p.weight c q ≤ total (p.world.registry ++ p.dying) p.weight q :=
      single_le_sum (by simp) _ (List.mem_map.2 ⟨c, hmem, rfl⟩)
    have hamount : amount q ≤ p.weight c q := by
      rw [weight, htask]
      simp only [Task.weight, count_cons_self, Nat.succ_mul]
      omega
    rw [h.balanced.eq q]
    exact hamount.trans hpart
  global := by
    intro hidle q
    have heq := h.balanced.eq q
    rw [hidle.2, append_nil] at heq
    rw [heq, total]
    congr 1
    refine map_congr_left fun c _ => ?_
    simp [weight, hidle.1 c]

def empty (channels : ℕ → ChannelState) : ChannelPool := { world := { channels } }

lemma inv_empty (channels : ℕ → ChannelState) : (empty channels).Inv where
  nodup := nodup_nil
  fits := fun c hc => by cases hc
  prepared := fun c hc => by cases hc
  dying := fun c hc => by cases hc
  idle := fun c _ => rfl
  balanced :=
    { eq := fun q => by cases q <;> rfl
      le := fun q => Nat.zero_le _ }

/-- **The accounts of the raw channels are right.**  In every interleaving the totals of every
queue are the sums over its messages and within the bounds of its channel, the global counters
are within their limits, and no release takes more than there is.  When no operation is in
progress, the global counters are the sums over all messages in the queues of all channels. -/
theorem channelsAccounted_of_exec {channels : ℕ → ChannelState} {actions : List PoolAction}
    (hexec : exec step (empty channels) actions = some p) : p.Accounted :=
  (exec_invariant (fun _ _ _ h hs => inv_step h hs) (inv_empty channels) hexec).accounted

/-- Two messages with a byte and a capability each.  One of them is received, and the other
waits. -/
def sentTwice : List PoolAction :=
  let send : List PoolAction :=
    .enqueue 0 0 { bytes := [7], resourceCapacity := 1 }
      [{ source := 0, moved := true, resource := ⟨some (.plain .semaphore 0), {}, true⟩ }] 0 ::
    replicate 4 (.advance 0)
  [.create 0 ⟨0, 0, 0⟩, .hook (.acquire (.rawChannelEnd 0 1) .tableRoot)] ++ send ++ send ++
    [.claim 0 1, .activate 0 1 0, .commit 0 1] ++ replicate 3 (.advance 0)

theorem channelsAccounted_sentTwice :
    ∃ p, exec step (empty fun _ => newChannel defaultLimits) sentTwice = some p ∧ p.Accounted := by
  have hruns : (exec step (empty fun _ => newChannel defaultLimits) sentTwice).isSome = true := rfl
  obtain ⟨p, hexec⟩ := isSome_iff_exists.1 hruns
  exact ⟨p, hexec, channelsAccounted_of_exec hexec⟩

end ChannelPool

end Naos.Ipc
