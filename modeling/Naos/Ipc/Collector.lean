import Naos.Ipc.Channel
import Naos.Lib.Worklist
import Mathlib

/-!
# The orphan collector

Two channels that carry each other's endpoints in their queues keep each other alive.
`collect_orphaned_channels` breaks such cycles: it marks the channels with a table
root or an operation in progress, follows the endpoints inside queued messages, and
drops the messages of every channel that is not marked.

Memory is the environment's: whether a vector could be allocated, and whether a
message held the last reference to an endpoint object, are inputs.
-/

namespace Naos.Ipc

open Capability List

def ChannelState.hasRoot (s : ChannelState) : Bool := s.roots 0 != 0 || s.roots 1 != 0

open ChannelState

def ChannelState.canReap (s : ChannelState) : Bool :=
  !s.hasRoot && s.activeOperations == 0 && s.activeClaims == 0

def rawTarget (r : TransferredResource) : Option ℕ :=
  match r.object with
  | some (.rawChannelEnd c _) => some c
  | _ => none

def ChannelState.messages (s : ChannelState) : List ChannelMessage :=
  (s.queues 0).fifo.items ++ (s.queues 1).fifo.items

/-- `collect_reachable_states`: the channels whose endpoints wait in either queue. -/
def ChannelState.collectReachableStates (s : ChannelState) : List ℕ :=
  s.messages.flatMap fun m => m.resources.filterMap rawTarget

/-- What the collector asks of the allocator and of the reference counts. -/
structure CollectEnv where
  marksAllocated : Bool := true
  discardAllocated : ℕ → Bool := fun _ => true
  lastReference : ℕ → Side → Bool := fun _ _ => true

/-- The channels that are marked before any message is followed. -/
def ChannelWorld.rootStates (w : ChannelWorld) : List ℕ :=
  w.registry.filter fun c => (w.channels c).hasRoot || !(w.channels c).canReap

def ChannelWorld.markedStates (w : ChannelWorld) : List ℕ :=
  Worklist.mark (fun c => (w.channels c).collectReachableStates) w.registry w.rootStates

/-! ## Dropping messages -/

/-- The loop of `discard_orphan_messages` over one queue.  It stops at a claimed head. -/
def drainQueue (q : MessageQueue) : MessageQueue × List ChannelMessage :=
  if q.fifo.claimed then (q, [])
  else
    ({ fifo := { q.fifo with items := [] }
       bytes := q.fifo.items.foldl (fun b m => Counter.sub b m.bytes.length) q.bytes
       resources := q.fifo.items.foldl (fun n m => Counter.sub n m.resources.length) q.resources },
      q.fifo.items)

/-- Destroying a resource: its transit is released, and with the last reference the
endpoint object goes. -/
def dropResource (env : CollectEnv) (w : ChannelWorld) (r : TransferredResource) : ChannelWorld :=
  let w' := w.applyHooks r.releaseTransit
  match r.object with
  | some (.rawChannelEnd c side) =>
    if env.lastReference c side then
      w'.modify c fun s => { s with endpointObjects := Counter.sub s.endpointObjects 1 }
    else w'
  | _ => w'

def ChannelState.drained (s : ChannelState) : Side → MessageQueue :=
  fun side => (drainQueue (s.queues side)).1

def ChannelState.drainedMessages (s : ChannelState) : List ChannelMessage :=
  (drainQueue (s.queues 0)).2 ++ (drainQueue (s.queues 1)).2

def discardOrphanMessages (env : CollectEnv) (w : ChannelWorld) (c : ℕ) : ChannelWorld :=
  if (w.channels c).maxMessages ≠ 0 ∧ env.discardAllocated c = false then w
  else
    let dropped := (w.channels c).drainedMessages
    let emptied := w.modify c fun s => { s with queues := s.drained }
    let released := dropped.foldl
      (fun w m => w.releaseGlobal m.bytes.length m.resources.length) emptied
    (dropped.flatMap ChannelMessage.resources).foldl (dropResource env)
      released.notifyChannelWaiters

/-- One round of the sweep: a channel that is neither marked nor in use loses its
messages. -/
def sweepOne (env : CollectEnv) (marked : List ℕ) (w : ChannelWorld) (c : ℕ) : ChannelWorld :=
  if c ∉ marked ∧ (w.channels c).canReap = true then discardOrphanMessages env w c else w

/-- `collect_orphaned_channels`: mark, drop the messages of the whole unmarked set, and
only then delete the states that no endpoint object refers to. -/
def collectOrphanedChannels (env : CollectEnv) (w : ChannelWorld) : ChannelWorld :=
  if w.registry = [] then w
  else if env.marksAllocated = false then w
  else
    let marked := w.markedStates
    let w' := w.registry.foldl (sweepOne env marked) w
    { w' with
      registry := w'.registry.filter fun c =>
        decide (c ∈ marked) || !(w'.channels c).canReap || (w'.channels c).endpointObjects != 0 }

/-! ## What the sweep leaves alone -/

/-- The parts of a channel that decide whether the collector may touch it. -/
structure ChannelState.SameUse (s s' : ChannelState) : Prop where
  roots : s'.roots = s.roots
  activeOperations : s'.activeOperations = s.activeOperations
  activeClaims : s'.activeClaims = s.activeClaims
  maxMessages : s'.maxMessages = s.maxMessages

lemma ChannelState.SameUse.refl (s : ChannelState) : s.SameUse s := ⟨rfl, rfl, rfl, rfl⟩

variable {s s' : ChannelState} {c : ℕ} {env : CollectEnv} {w : ChannelWorld}

lemma ChannelState.SameUse.trans {s'' : ChannelState} (h : s.SameUse s') (h' : s'.SameUse s'') :
    s.SameUse s'' :=
  ⟨h'.roots.trans h.roots, h'.activeOperations.trans h.activeOperations,
    h'.activeClaims.trans h.activeClaims, h'.maxMessages.trans h.maxMessages⟩

lemma ChannelState.SameUse.canReap (h : s.SameUse s') : s'.canReap = s.canReap := by
  rw [ChannelState.canReap, ChannelState.hasRoot, h.roots, h.activeOperations, h.activeClaims]
  rfl

lemma rootsDelta_release_inTransit (c : ℕ) (side : Side) (o : KObject) :
    rootsDelta c side (.release o .inTransit) = 0 := by
  simp [rootsDelta]

variable (env w) (r : TransferredResource)

lemma channels_releaseTransit (c : ℕ) :
    (w.channels c).SameUse ((w.applyHooks r.releaseTransit).channels c) ∧
      ((w.applyHooks r.releaseTransit).channels c).queues = (w.channels c).queues := by
  have hroots : ∀ side, rootsSum c side r.releaseTransit = 0 := by
    intro side
    rw [TransferredResource.releaseTransit]
    split
    · cases r.object with
      | none => rfl
      | some o => simp [rootsSum, rootsDelta_release_inTransit]
    · rfl
  rw [channels_applyHooks]
  refine ⟨⟨?_, rfl, rfl, rfl⟩, rfl⟩
  funext side
  simp [shift, hroots side]

lemma channels_dropResource (c : ℕ) :
    (w.channels c).SameUse ((dropResource env w r).channels c) ∧
      ((dropResource env w r).channels c).queues = (w.channels c).queues := by
  obtain ⟨huse, hqueues⟩ := channels_releaseTransit w r c
  rw [dropResource]
  split
  next d side _ =>
    split
    · rw [channels_modify]
      split
      next hd =>
        subst hd
        exact ⟨⟨huse.roots, huse.activeOperations, huse.activeClaims, huse.maxMessages⟩, hqueues⟩
      · exact ⟨huse, hqueues⟩
    · exact ⟨huse, hqueues⟩
  · exact ⟨huse, hqueues⟩

lemma globals_dropResource :
    (dropResource env w r).globalBytes = w.globalBytes ∧
      (dropResource env w r).globalResources = w.globalResources := by
  have hsame := sameGlobals_applyHooks w r.releaseTransit
  rw [dropResource]
  split
  · split <;> exact ⟨hsame.globalBytes, hsame.globalResources⟩
  · exact ⟨hsame.globalBytes, hsame.globalResources⟩

lemma foldl_dropResource (rs : List TransferredResource) (w : ChannelWorld) :
    (∀ c, (w.channels c).SameUse ((rs.foldl (dropResource env) w).channels c) ∧
        ((rs.foldl (dropResource env) w).channels c).queues = (w.channels c).queues) ∧
      (rs.foldl (dropResource env) w).globalBytes = w.globalBytes ∧
      (rs.foldl (dropResource env) w).globalResources = w.globalResources := by
  induction rs generalizing w with
  | nil => exact ⟨fun _ => ⟨.refl _, rfl⟩, rfl, rfl⟩
  | cons r rs ih =>
    obtain ⟨hbytes, hresources⟩ := globals_dropResource env w r
    obtain ⟨hchannels, hbytes', hresources'⟩ := ih (dropResource env w r)
    refine ⟨fun c => ?_, hbytes'.trans hbytes, hresources'.trans hresources⟩
    obtain ⟨huse, hqueues⟩ := channels_dropResource env w r c
    exact ⟨huse.trans (hchannels c).1, (hchannels c).2.trans hqueues⟩

variable {env w} (ms : List ChannelMessage)

lemma channels_foldl_releaseGlobal (w : ChannelWorld) :
    (ms.foldl (fun w m => w.releaseGlobal m.bytes.length m.resources.length) w).channels
      = w.channels := by
  induction ms generalizing w with
  | nil => rfl
  | cons m ms ih => exact ih _

def CollectEnv.canDiscard (env : CollectEnv) (s : ChannelState) (c : ℕ) : Prop :=
  s.maxMessages = 0 ∨ env.discardAllocated c = true

instance (env : CollectEnv) (s : ChannelState) (c : ℕ) : Decidable (env.canDiscard s c) :=
  inferInstanceAs (Decidable (_ ∨ _))

lemma CollectEnv.canDiscard.allocated (h : env.canDiscard s c) :
    ¬ (s.maxMessages ≠ 0 ∧ env.discardAllocated c = false) := by
  rintro ⟨h1, h2⟩
  rcases h with h | h
  · exact h1 h
  · rw [h2] at h
    exact Bool.false_ne_true h

lemma discardOrphanMessages_of_not (h : ¬ env.canDiscard (w.channels c) c) :
    discardOrphanMessages env w c = w := by
  rw [CollectEnv.canDiscard, not_or, Bool.not_eq_true] at h
  rw [discardOrphanMessages, if_pos h]

/-- Dropping the messages of a channel empties its own queues, as far as no claim
holds them, and keeps the queues of every other channel. -/
lemma channels_discardOrphanMessages (h : env.canDiscard (w.channels c) c) (d : ℕ) :
    (w.channels d).SameUse ((discardOrphanMessages env w c).channels d) ∧
      ((discardOrphanMessages env w c).channels d).queues =
        if d = c then (w.channels c).drained else (w.channels d).queues := by
  rw [discardOrphanMessages, if_neg h.allocated]
  generalize (w.channels c).drainedMessages = dropped
  obtain ⟨huse, hqueues⟩ := (foldl_dropResource env (dropped.flatMap ChannelMessage.resources)
    (dropped.foldl (fun w m => w.releaseGlobal m.bytes.length m.resources.length)
      (w.modify c fun s => { s with queues := s.drained })).notifyChannelWaiters).1 d
  have hmid : (dropped.foldl (fun w m => w.releaseGlobal m.bytes.length m.resources.length)
      (w.modify c fun s => { s with queues := s.drained })).notifyChannelWaiters.channels
      = (w.modify c fun s => { s with queues := s.drained }).channels :=
    channels_foldl_releaseGlobal dropped _
  rw [hmid, channels_modify] at huse hqueues
  by_cases hd : d = c
  · subst hd
    rw [if_pos rfl] at huse hqueues
    rw [if_pos rfl]
    exact ⟨⟨huse.roots, huse.activeOperations, huse.activeClaims, huse.maxMessages⟩, hqueues⟩
  · rw [if_neg hd] at huse hqueues
    rw [if_neg hd]
    exact ⟨huse, hqueues⟩

lemma drained_drained (h : s'.queues = s.drained) : s'.drained = s.drained := by
  funext side
  rw [drained, h, drained]
  by_cases hc : (s.queues side).fifo.claimed = true <;> simp [drainQueue, hc]

structure Sweepable (env : CollectEnv) (marked : List ℕ) (c : ℕ) (s : ChannelState) : Prop where
  unmarked : c ∉ marked
  canReap : s.canReap = true
  canDiscard : env.canDiscard s c

lemma Sweepable.of_sameUse {marked : List ℕ} (h : s.SameUse s') :
    Sweepable env marked c s' ↔ Sweepable env marked c s := by
  have hd : env.canDiscard s' c ↔ env.canDiscard s c := by
    rw [CollectEnv.canDiscard, CollectEnv.canDiscard, h.maxMessages]
  constructor
  · intro hs
    exact ⟨hs.unmarked, h.canReap ▸ hs.canReap, hd.1 hs.canDiscard⟩
  · intro hs
    exact ⟨hs.unmarked, h.canReap ▸ hs.canReap, hd.2 hs.canDiscard⟩

variable (env) (marked l : List ℕ)

lemma channels_sweepOne (w : ChannelWorld) (c d : ℕ) :
    (w.channels d).SameUse ((sweepOne env marked w c).channels d) ∧
      ((d = c ∧ Sweepable env marked d (w.channels d)) →
        ((sweepOne env marked w c).channels d).queues = (w.channels d).drained) ∧
      (¬ (d = c ∧ Sweepable env marked d (w.channels d)) →
        ((sweepOne env marked w c).channels d).queues = (w.channels d).queues) := by
  rw [sweepOne]
  split
  next hsweep =>
    by_cases hd : env.canDiscard (w.channels c) c
    · obtain ⟨huse, hqueues⟩ := channels_discardOrphanMessages hd d
      refine ⟨huse, ?_, ?_⟩
      · rintro ⟨rfl, -⟩
        rw [hqueues, if_pos rfl]
      · intro hnot
        rw [hqueues, if_neg]
        rintro rfl
        exact hnot ⟨rfl, hsweep.1, hsweep.2, hd⟩
    · rw [discardOrphanMessages_of_not hd]
      refine ⟨.refl _, ?_, fun _ => rfl⟩
      rintro ⟨rfl, hs⟩
      exact absurd hs.canDiscard hd
  next hsweep =>
    refine ⟨.refl _, ?_, fun _ => rfl⟩
    rintro ⟨rfl, hs⟩
    exact absurd ⟨hs.unmarked, hs.canReap⟩ hsweep

/-- **The sweep** empties exactly the sweepable channels of the list, and keeps the
queues of all others. -/
theorem channels_sweep (w : ChannelWorld) (d : ℕ) :
    (w.channels d).SameUse ((l.foldl (sweepOne env marked) w).channels d) ∧
      (d ∈ l → Sweepable env marked d (w.channels d) →
        ((l.foldl (sweepOne env marked) w).channels d).queues = (w.channels d).drained) ∧
      (¬ (d ∈ l ∧ Sweepable env marked d (w.channels d)) →
        ((l.foldl (sweepOne env marked) w).channels d).queues = (w.channels d).queues) := by
  induction l generalizing w with
  | nil => exact ⟨.refl _, by simp, fun _ => rfl⟩
  | cons c l ih =>
    rw [foldl_cons]
    obtain ⟨huse, hyes, hno⟩ := channels_sweepOne env marked w c d
    obtain ⟨huse', hyes', hno'⟩ := ih (sweepOne env marked w c)
    rw [Sweepable.of_sameUse huse] at hyes' hno'
    refine ⟨huse.trans huse', ?_, ?_⟩
    · intro hmem hs
      by_cases hdl : d ∈ l
      · rw [hyes' hdl hs]
        by_cases hdc : d = c
        · exact drained_drained (hyes ⟨hdc, hs⟩)
        · funext side
          rw [drained, hno fun h => hdc h.1]
          rfl
      · have hdc : d = c := (mem_cons.1 hmem).resolve_right hdl
        rw [hno' fun h => hdl h.1, hyes ⟨hdc, hs⟩]
    · intro hnot
      rw [hno', hno]
      · rintro ⟨rfl, hs⟩
        exact hnot ⟨mem_cons_self, hs⟩
      · rintro ⟨hdl, hs⟩
        exact hnot ⟨mem_cons_of_mem _ hdl, hs⟩

lemma channels_collectOrphanedChannels (w : ChannelWorld)
    (halloc : env.marksAllocated = true) :
    (collectOrphanedChannels env w).channels
      = (w.registry.foldl (sweepOne env w.markedStates) w).channels := by
  rw [collectOrphanedChannels]
  split
  next hempty =>
    rw [hempty]
    rfl
  · simp [halloc]

/-- **A channel in use keeps its messages.** -/
theorem queues_collect_of_not_canReap (w : ChannelWorld)
    (h : (w.channels c).canReap = false) :
    ((collectOrphanedChannels env w).channels c).queues = (w.channels c).queues := by
  by_cases halloc : env.marksAllocated = true
  · rw [channels_collectOrphanedChannels env w halloc]
    refine (channels_sweep env w.markedStates w.registry w c).2.2 ?_
    rintro ⟨-, hs⟩
    have hreap := hs.canReap
    rw [h] at hreap
    exact Bool.false_ne_true hreap
  · rw [collectOrphanedChannels]
    split
    · rfl
    · simp [halloc]

/-! ## What the collector gives back -/

def byteCount : ℕ := (ms.map fun m => m.bytes.length).sum

def resourceCount : ℕ := (ms.map fun m => m.resources.length).sum

instance (env : CollectEnv) (marked : List ℕ) (c : ℕ) (s : ChannelState) :
    Decidable (Sweepable env marked c s) :=
  decidable_of_iff (c ∉ marked ∧ s.canReap = true ∧ env.canDiscard s c)
    ⟨fun h => ⟨h.1, h.2.1, h.2.2⟩, fun h => ⟨h.unmarked, h.canReap, h.canDiscard⟩⟩

def garbageOf (env : CollectEnv) (marked : List ℕ) (c : ℕ) (s : ChannelState) :
    List ChannelMessage :=
  if Sweepable env marked c s then s.drainedMessages else []

/-- A measure of all garbage there is, as the collector sees it. -/
def garbage (env : CollectEnv) (w : ChannelWorld) (size : List ChannelMessage → ℕ) : ℕ :=
  if env.marksAllocated then
    ∑ c ∈ w.registry.toFinset, size (garbageOf env w.markedStates c (w.channels c))
  else 0

lemma globals_foldl_releaseGlobal (w : ChannelWorld) :
    (ms.foldl (fun w m => w.releaseGlobal m.bytes.length m.resources.length) w).globalBytes
        = w.globalBytes - BitVec.ofNat 64 (byteCount ms) ∧
      (ms.foldl (fun w m => w.releaseGlobal m.bytes.length m.resources.length) w).globalResources
        = w.globalResources - BitVec.ofNat 64 (resourceCount ms) := by
  induction ms generalizing w with
  | nil => simp [byteCount, resourceCount]
  | cons m ms ih =>
    rw [foldl_cons]
    obtain ⟨hb, hr⟩ := ih (w.releaseGlobal m.bytes.length m.resources.length)
    rw [hb, hr]
    simp only [byteCount, resourceCount, map_cons, sum_cons, BitVec.ofNat_add,
      ChannelWorld.releaseGlobal]
    constructor <;> ring

lemma globals_sweepOne (w : ChannelWorld) (c : ℕ) :
    (sweepOne env marked w c).globalBytes
        = w.globalBytes - BitVec.ofNat 64 (byteCount (garbageOf env marked c (w.channels c))) ∧
      (sweepOne env marked w c).globalResources = w.globalResources
          - BitVec.ofNat 64 (resourceCount (garbageOf env marked c (w.channels c))) := by
  rw [sweepOne, garbageOf]
  by_cases hs : Sweepable env marked c (w.channels c)
  · rw [if_pos ⟨hs.unmarked, hs.canReap⟩, if_pos hs, discardOrphanMessages,
      if_neg hs.canDiscard.allocated]
    generalize (w.channels c).drainedMessages = dropped
    obtain ⟨-, h1, h2⟩ := foldl_dropResource env (dropped.flatMap ChannelMessage.resources)
      (dropped.foldl (fun w m => w.releaseGlobal m.bytes.length m.resources.length)
        (w.modify c fun s => { s with queues := s.drained })).notifyChannelWaiters
    obtain ⟨h3, h4⟩ := globals_foldl_releaseGlobal dropped
      (w.modify c fun s => { s with queues := s.drained })
    exact ⟨h1.trans h3, h2.trans h4⟩
  · have hkeep : (if c ∉ marked ∧ (w.channels c).canReap = true then
        discardOrphanMessages env w c else w) = w := by
      split
      next hsweep => exact discardOrphanMessages_of_not fun hd => hs ⟨hsweep.1, hsweep.2, hd⟩
      · rfl
    rw [hkeep, if_neg hs]
    simp [byteCount, resourceCount]

lemma drainQueue_drainQueue (q : MessageQueue) : (drainQueue (drainQueue q).1).2 = [] := by
  by_cases hc : q.fifo.claimed = true <;> simp [drainQueue, hc]

lemma garbageOf_sweepOne (w : ChannelWorld) (c d : ℕ) :
    garbageOf env marked d ((sweepOne env marked w c).channels d)
      = if d = c then [] else garbageOf env marked d (w.channels d) := by
  obtain ⟨huse, hyes, hno⟩ := channels_sweepOne env marked w c d
  rw [garbageOf]
  by_cases hs : Sweepable env marked d (w.channels d)
  · rw [if_pos ((Sweepable.of_sameUse huse).2 hs)]
    by_cases hd : d = c
    · have hq := hyes ⟨hd, hs⟩
      rw [if_pos hd, drainedMessages, hq, drained, drained,
        drainQueue_drainQueue, drainQueue_drainQueue]
      rfl
    · rw [if_neg hd, garbageOf, if_pos hs, drainedMessages, hno fun h => hd h.1]
      rfl
  · rw [if_neg fun h => hs ((Sweepable.of_sameUse huse).1 h), garbageOf, if_neg hs, ite_self]

lemma sum_garbageOf_sweepOne (w : ChannelWorld) (c : ℕ)
    (size : List ChannelMessage → ℕ) (hsize : size [] = 0) :
    size (garbageOf env marked c (w.channels c)) +
        ∑ d ∈ l.toFinset, size (garbageOf env marked d ((sweepOne env marked w c).channels d))
      = ∑ d ∈ (c :: l).toFinset, size (garbageOf env marked d (w.channels d)) := by
  have herase : (c :: l).toFinset.erase c = l.toFinset.erase c := by
    rw [toFinset_cons, Finset.erase_insert_eq_erase]
  rw [← Finset.add_sum_erase _ _ (List.mem_toFinset.2 (mem_cons_self (a := c) (l := l))),
    herase, ← Finset.sum_erase l.toFinset (a := c)]
  · congr 1
    apply Finset.sum_congr rfl
    intro d hd
    rw [garbageOf_sweepOne, if_neg (Finset.ne_of_mem_erase hd)]
  · rw [garbageOf_sweepOne, if_pos rfl, hsize]

lemma globals_sweep (w : ChannelWorld) :
    (l.foldl (sweepOne env marked) w).globalBytes = w.globalBytes - BitVec.ofNat 64
          (∑ c ∈ l.toFinset, byteCount (garbageOf env marked c (w.channels c))) ∧
      (l.foldl (sweepOne env marked) w).globalResources = w.globalResources - BitVec.ofNat 64
          (∑ c ∈ l.toFinset, resourceCount (garbageOf env marked c (w.channels c))) := by
  induction l generalizing w with
  | nil => simp
  | cons c l ih =>
    obtain ⟨h1, h2⟩ := globals_sweepOne env marked w c
    obtain ⟨h3, h4⟩ := ih (sweepOne env marked w c)
    rw [foldl_cons, h3, h4, h1, h2, ← sum_garbageOf_sweepOne env marked l w c byteCount rfl,
      ← sum_garbageOf_sweepOne env marked l w c resourceCount rfl,
      BitVec.ofNat_add, BitVec.ofNat_add]
    constructor <;> ring

/-- **The budgets get back exactly what the garbage held.** -/
theorem globals_collect (w : ChannelWorld) :
    (collectOrphanedChannels env w).globalBytes
        = w.globalBytes - BitVec.ofNat 64 (garbage env w byteCount) ∧
      (collectOrphanedChannels env w).globalResources
        = w.globalResources - BitVec.ofNat 64 (garbage env w resourceCount) := by
  rw [collectOrphanedChannels, garbage, garbage]
  split
  next hempty => simp [hempty]
  split
  next halloc => simp [halloc]
  next halloc =>
    rw [if_pos (by simpa using halloc), if_pos (by simpa using halloc)]
    exact globals_sweep env w.markedStates w.registry w

end Naos.Ipc
