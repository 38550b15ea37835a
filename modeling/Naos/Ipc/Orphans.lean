import Naos.Ipc.Collector
import Naos.Ipc.Kernel
import Naos.Ipc.Protocol

/-!
# What the orphan collector should know

A channel end can be held by a table, by an operation in progress or by the kernel, and
it can travel: in a message, in a request to a protocol, in the response of an
invocation, in the records of a transfer that is under way.  A channel is garbage when
none of these leads to it.

`collect_orphaned_channels` follows messages of raw channels only.  This module states
what reachable means with all holders, and compares.
-/

namespace Naos.Ipc

open Capability List ChannelState

/-! ## Reachability -/

inductive Carrier where
  | channel (c : ℕ)
  | protocol (p : ℕ)
  | invocation (i : ℕ)
  deriving DecidableEq

/-- The channels, and what else can lead to one of them. -/
structure Holders where
  world : ChannelWorld
  /-- The channel ends the kernel itself owns, by `kernel_owner_acquired`. -/
  kernelOwners : List (ℕ × Side) := []
  protocols : ℕ → ProtocolState
  invocations : ℕ → InvocationState := fun _ => {}
  heldInvocations : List ℕ := []
  /-- The batches between `take_native_batch` and the end of the transfer. -/
  transfers : List (List TransferRecord) := []

/-- What a resource leads to.  A responder leads nowhere: it can complete an invocation,
but not take the response out of it. -/
def carrierOf (r : TransferredResource) : Option Carrier :=
  match r.object with
  | some (.rawChannelEnd c _) => some (.channel c)
  | some (.protocolEndpoint p _) => some (.protocol p)
  | some (.invocation i) => some (.invocation i)
  | _ => none

def InvocationRequest.carried (r : InvocationRequest) : List TransferredResource :=
  r.responder :: r.resources.map TransferRecord.resource

namespace Holders

variable (s : Holders)

def carried : Carrier → List TransferredResource
  | .channel c => (s.world.channels c).messages.flatMap ChannelMessage.resources
  | .protocol p => (s.protocols p).fifo.items.flatMap InvocationRequest.carried
  | .invocation i => (s.invocations i).responseResources.map TransferRecord.resource

def channelInUse (c : ℕ) : Prop := (s.world.channels c).canReap = false

def protocolInUse (p : ℕ) : Prop :=
  (s.protocols p).roots .client ≠ 0 ∨ (s.protocols p).roots .server ≠ 0 ∨
    (s.protocols p).activeOperations ≠ 0 ∨ (s.protocols p).activeClaims ≠ 0

end Holders

/-- **Reachable**: held by a table root, an operation, a claim or a kernel owner, or
carried by a transfer that is under way or by something reachable. -/
inductive Reachable (s : Holders) : Carrier → Prop
  | channel {c : ℕ} : s.channelInUse c → Reachable s (.channel c)
  | kernelOwner {c : ℕ} {side : Side} : (c, side) ∈ s.kernelOwners → Reachable s (.channel c)
  | protocol {p : ℕ} : s.protocolInUse p → Reachable s (.protocol p)
  | invocation {i : ℕ} : i ∈ s.heldInvocations → Reachable s (.invocation i)
  | transfer {records : List TransferRecord} {r : TransferRecord} {x : Carrier} :
      records ∈ s.transfers → r ∈ records → carrierOf r.resource = some x → Reachable s x
  | carried {x y : Carrier} {r : TransferredResource} :
      Reachable s x → r ∈ s.carried x → carrierOf r = some y → Reachable s y

/-- What the mark phase follows: the channels in use, and the ends inside the messages of
registered channels. -/
def RawReachable (w : ChannelWorld) : ℕ → Prop :=
  Worklist.Reach (fun c => (w.channels c).collectReachableStates) w.registry w.rootStates

variable {c : ℕ} {w : ChannelWorld}

lemma mem_rootStates : c ∈ w.rootStates ↔ c ∈ w.registry ∧ (w.channels c).canReap = false := by
  rw [ChannelWorld.rootStates, mem_filter]
  constructor
  · rintro ⟨hmem, h⟩
    refine ⟨hmem, ?_⟩
    rcases Bool.or_eq_true_iff.1 h with h | h
    · simp [canReap, h]
    · simpa using h
  · rintro ⟨hmem, h⟩
    exact ⟨hmem, by simp [h]⟩

lemma mem_markedStates : c ∈ w.markedStates ↔ RawReachable w c :=
  Worklist.mem_mark (filter_sublist.subperm)

lemma RawReachable.reachable {s : Holders} (h : RawReachable s.world c) :
    Reachable s (.channel c) := by
  induction h with
  | root hroot => exact .channel (mem_rootStates.1 hroot).2
  | @step x y _ hy _ ih =>
    obtain ⟨m, hm, htarget⟩ := mem_flatMap.1 hy
    obtain ⟨r, hr, heq⟩ := mem_filterMap.1 htarget
    refine .carried ih (r := r) (mem_flatMap.2 ⟨m, hm, hr⟩) ?_
    rw [rawTarget] at heq
    split at heq
    next hobject =>
      cases heq
      rw [carrierOf, hobject]
    · simp at heq

/-! ## The property and the condition -/

/-- **The collector collects garbage and nothing else**: a channel that can be reached
keeps its queues, and a registered channel that cannot has empty queues afterwards. -/
structure CollectsGarbage (env : CollectEnv) (s : Holders) : Prop where
  sound : ∀ c, Reachable s (.channel c) →
    ((collectOrphanedChannels env s.world).channels c).queues = (s.world.channels c).queues
  complete : ∀ c ∈ s.world.registry, ¬ Reachable s (.channel c) →
    ((collectOrphanedChannels env s.world).channels c).messages = []

/-- The vectors the collector needs for a channel can be allocated. -/
def CollectEnv.suffices (env : CollectEnv) (s : ChannelState) (c : ℕ) : Prop :=
  env.marksAllocated = true ∧ env.canDiscard s c

/-- The condition, about the channels that have messages.  One that can be reached can be
reached along raw messages, or there is no memory to empty it; for one that cannot be
reached there is. -/
structure CollectorSees (env : CollectEnv) (s : Holders) : Prop where
  seen : ∀ c ∈ s.world.registry, (s.world.channels c).messages ≠ [] →
    Reachable s (.channel c) → env.suffices (s.world.channels c) c → RawReachable s.world c
  allocated : ∀ c ∈ s.world.registry, (s.world.channels c).messages ≠ [] →
    ¬ Reachable s (.channel c) → env.suffices (s.world.channels c) c

/-- A claim is counted: `claim_front` and `active_claims_` change together. -/
def ClaimsCounted (w : ChannelWorld) : Prop :=
  ∀ c ∈ w.registry, ∀ side, ((w.channels c).queues side).fifo.claimed = true →
    (w.channels c).activeClaims ≠ 0

/-- As many claims are counted as heads are claimed. -/
def ChannelState.Tallied (s : ChannelState) : Prop :=
  s.activeClaims = (s.queues 0).fifo.claimed.toNat + (s.queues 1).fifo.claimed.toNat

lemma claimsCounted_of_tallied {w : ChannelWorld} (h : ∀ c ∈ w.registry, (w.channels c).Tallied) :
    ClaimsCounted w := by
  intro c hc side hclaimed
  rw [h c hc]
  fin_cases side <;> simp_all

namespace ChannelState

variable {s s' : ChannelState} {side : Side} {m : ChannelMessage}

lemma Tallied.setQueue (h : s.Tallied) {q : MessageQueue} {k : ℕ}
    (hk : k + (s.queues side).fifo.claimed.toNat = s.activeClaims + q.fifo.claimed.toNat) :
    Tallied { s.setQueue side q with activeClaims := k } := by
  unfold Tallied at h ⊢
  fin_cases side <;> simp [ChannelState.setQueue] at hk ⊢ <;> omega

lemma Tallied.claimReceive (h : s.Tallied) (hs : s.claimReceive side = .ok (m, s')) :
    s'.Tallied := by
  unfold ChannelState.claimReceive at hs
  split at hs
  · cases hs
  split at hs
  · cases hs
  · cases hs
  next fifo _ hclaim =>
    cases hs
    have hfifo := BoundedQueue.claimFront_eq_some hclaim
    have hfree : (s.queues side).fifo.claimed = false := by
      by_contra hclaimed
      simp [BoundedQueue.claimFront, hclaimed] at hclaim
    exact h.setQueue (by simp [hfree, hfifo])

/-- A head that is given back or taken is no longer counted. -/
lemma Tallied.endClaim (h : s.Tallied)
    (hs : s.cancelReceive side m = some s' ∨ s.commitReceive side m = some s') : s'.Tallied := by
  have hsub : (s.queues side).fifo.claimed = true →
      Counter.sub s.activeClaims 1 + 1 = s.activeClaims := by
    intro hclaimed
    have hpos : 1 ≤ s.activeClaims := by
      unfold Tallied at h
      fin_cases side <;> simp_all
    rw [Counter.sub_of_le hpos, Nat.sub_add_cancel hpos]
  simp only [cancelReceive, commitReceive, Option.ite_none_right_eq_some, Option.some_inj,
    holdsClaim, Bool.and_eq_true, beq_iff_eq] at hs
  rcases hs with ⟨⟨⟨-, hclaimed⟩, hhead⟩, rfl⟩ | ⟨⟨⟨-, hclaimed⟩, hhead⟩, rfl⟩
  · exact h.setQueue (by simp [BoundedQueue.cancelClaim, hclaimed, hsub hclaimed])
  · have hne : (s.queues side).fifo.items ≠ [] := by
      intro hnil
      simp [hnil] at hhead
    exact h.setQueue (by simp [pop, BoundedQueue.commitClaim, hclaimed, hne, hsub hclaimed])

end ChannelState

/-! ## The comparison -/

section Comparison

variable {env : CollectEnv} {s : Holders} {c : ℕ}

lemma ClaimsCounted.not_claimed {w : ChannelWorld} (h : ClaimsCounted w) (hc : c ∈ w.registry)
    (hreap : (w.channels c).canReap = true) (side : Side) :
    ((w.channels c).queues side).fifo.claimed = false := by
  cases hclaimed : ((w.channels c).queues side).fifo.claimed with
  | false => rfl
  | true =>
    have hcount := h c hc side hclaimed
    simp [canReap] at hreap
    exact absurd hreap.2 hcount

variable {st : ChannelState}

lemma messages_drained {st' : ChannelState}
    (hclaim : ∀ side, (st.queues side).fifo.claimed = false) (h : st'.queues = st.drained) :
    st'.messages = [] := by
  simp [messages, h, drained, drainQueue, hclaim]

lemma drained_of_messages_nil (h : st.messages = []) : st.drained = st.queues := by
  obtain ⟨h0, h1⟩ := append_eq_nil_iff.1 h
  have hitems : ∀ side, (st.queues side).fifo.items = [] := Fin.forall_fin_two.2 ⟨h0, h1⟩
  funext side
  have hi := hitems side
  rw [drained, drainQueue]
  split
  · rfl
  · rw [hi]
    simp only [foldl_nil]
    rw [← hi]

lemma sweepable_iff (hc : c ∈ s.world.registry) :
    Sweepable env s.world.markedStates c (s.world.channels c) ↔
      ¬ RawReachable s.world c ∧ env.canDiscard (s.world.channels c) c := by
  constructor
  · intro h
    exact ⟨fun hraw => h.unmarked (mem_markedStates.2 hraw), h.canDiscard⟩
  · rintro ⟨hraw, hdiscard⟩
    refine ⟨fun hmarked => hraw (mem_markedStates.1 hmarked), ?_, hdiscard⟩
    by_contra hreap
    exact hraw (.root (mem_rootStates.2 ⟨hc, by simpa using hreap⟩))

lemma queues_collect_of_unseen (hc : c ∈ s.world.registry)
    (henv : env.suffices (s.world.channels c) c) (hraw : ¬ RawReachable s.world c) :
    ((collectOrphanedChannels env s.world).channels c).queues = (s.world.channels c).drained := by
  rw [channels_collectOrphanedChannels env s.world henv.1]
  exact (channels_sweep env s.world.markedStates s.world.registry s.world c).2.1 hc
    ((sweepable_iff hc).2 ⟨hraw, henv.2⟩)

lemma queues_collect_of_seen (env : CollectEnv) (s : Holders)
    (h : ¬ (c ∈ s.world.registry ∧ env.suffices (s.world.channels c) c ∧ ¬ RawReachable s.world c))
    :
    ((collectOrphanedChannels env s.world).channels c).queues = (s.world.channels c).queues := by
  by_cases hmarks : env.marksAllocated = true
  · rw [channels_collectOrphanedChannels env s.world hmarks]
    refine (channels_sweep env s.world.markedStates s.world.registry s.world c).2.2 ?_
    rintro ⟨hc, hsweep⟩
    obtain ⟨hraw, hdiscard⟩ := (sweepable_iff hc).1 hsweep
    exact h ⟨hc, ⟨hmarks, hdiscard⟩, hraw⟩
  · rw [collectOrphanedChannels]
    split
    · rfl
    · simp [hmarks]

open Classical in
/-- **What a collection does to the queues**, in every state: it empties a registered channel that
the mark phase does not reach, if the memory for it is there, and leaves all others alone. -/
theorem queues_collectOrphanedChannels (env : CollectEnv) (s : Holders) (c : ℕ) :
    ((collectOrphanedChannels env s.world).channels c).queues =
      if c ∈ s.world.registry ∧ env.suffices (s.world.channels c) c ∧ ¬ RawReachable s.world c then
        (s.world.channels c).drained
      else (s.world.channels c).queues := by
  split
  next h => exact queues_collect_of_unseen h.1 h.2.1 h.2.2
  next h => exact queues_collect_of_seen env s h

end Comparison

/-- **The collector drops garbage and only garbage exactly when it sees who can reach the
channels that have messages**, and has the memory to empty those nobody can reach. -/
theorem collectsGarbage_iff (env : CollectEnv) (s : Holders) (hclaims : ClaimsCounted s.world) :
    CollectsGarbage env s ↔ CollectorSees env s := by
  have hempty : ∀ {c}, c ∈ s.world.registry → ¬ RawReachable s.world c →
      env.suffices (s.world.channels c) c →
      ((collectOrphanedChannels env s.world).channels c).messages = [] := by
    intro c hc hraw henv
    have hreap := ((sweepable_iff hc).2 ⟨hraw, henv.2⟩).canReap
    exact messages_drained (hclaims.not_claimed hc hreap) (queues_collect_of_unseen hc henv hraw)
  have hsame : ∀ {c}, ((collectOrphanedChannels env s.world).channels c).queues
      = (s.world.channels c).queues →
      ((collectOrphanedChannels env s.world).channels c).messages
        = (s.world.channels c).messages := by
    intro c h
    rw [messages, h]
    rfl
  constructor
  · intro h
    refine ⟨?_, ?_⟩
    · intro c hc hne hreach henv
      by_contra hraw
      exact hne ((hsame (h.sound c hreach)).symm.trans (hempty hc hraw henv))
    · intro c hc hne hreach
      by_contra henv
      have hkeep := queues_collect_of_seen env s (c := c) fun hall => henv hall.2.1
      exact hne ((hsame hkeep).symm.trans (h.complete c hc hreach))
  · intro h
    refine ⟨?_, ?_⟩
    · intro c hreach
      by_cases hall : c ∈ s.world.registry ∧ env.suffices (s.world.channels c) c ∧
          ¬ RawReachable s.world c
      · obtain ⟨hc, henv, hraw⟩ := hall
        have hnil : (s.world.channels c).messages = [] := by
          by_contra hne
          exact hraw (h.seen c hc hne hreach henv)
        rw [queues_collect_of_unseen hc henv hraw, drained_of_messages_nil hnil]
      · exact queues_collect_of_seen env s hall
    · intro c hc hreach
      have hraw : ¬ RawReachable s.world c := fun hraw => hreach hraw.reachable
      by_cases hnil : (s.world.channels c).messages = []
      · by_cases henv : env.suffices (s.world.channels c) c
        · exact hempty hc hraw henv
        · rw [hsame (queues_collect_of_seen env s fun hall => henv hall.2.1), hnil]
      · exact hempty hc hraw (h.allocated c hc hnil hreach)

/-! ## Two states -/

def channelWith (objects : List KObject) : ChannelState :=
  { newChannel defaultLimits with
    queues := fun side =>
      { fifo :=
          { capacity := 64
            items := if side = 1 then
              [{ resources := objects.map fun o => { object := some o, inTransit := true } }]
              else [] } } }

/-- Channel 0 is held by a table and carries an end of channel 1.  The only end of
channel 2 that is left is in its own queue. -/
def selfHeld : Holders where
  world :=
    { channels := fun c =>
        if c = 0 then { channelWith [.rawChannelEnd 1 0] with roots := fun _ => 1 }
        else if c = 1 then channelWith []
        else channelWith [.rawChannelEnd 2 1]
      registry := [0, 1, 2] }
  protocols := fun _ => { fifo := { capacity := 64 }, maxBytes := 65536, maxResources := 64 }

lemma reachable_selfHeld {x : Carrier} (h : Reachable selfHeld x) :
    x = .channel 0 ∨ x = .channel 1 := by
  induction h with
  | @channel c hc =>
    by_cases h0 : c = 0
    · exact .inl (by rw [h0])
    · exfalso
      by_cases h1 : c = 1
      · subst h1
        have hreap : (selfHeld.world.channels 1).canReap = true := by decide
        exact absurd (hreap.symm.trans hc) Bool.noConfusion
      · simp [Holders.channelInUse, selfHeld, h0, h1, channelWith, newChannel,
          canReap, hasRoot] at hc
  | kernelOwner hmem | transfer hmem => simp [selfHeld] at hmem
  | protocol hp => simp [Holders.protocolInUse, selfHeld] at hp
  | invocation hi => simp [selfHeld] at hi
  | @carried x y r _ hr hy ih =>
    right
    rcases ih with rfl | rfl
    · have hr' : r ∈ [({ object := some (.rawChannelEnd 1 0), inTransit := true } :
          TransferredResource)] := hr
      rw [mem_singleton.1 hr'] at hy
      exact (Option.some.inj hy).symm
    · have hr' : r ∈ ([] : List TransferredResource) := hr
      simp at hr'

theorem collectsGarbage_selfHeld : CollectsGarbage {} selfHeld := by
  refine (collectsGarbage_iff {} selfHeld ?_).2 ⟨?_, ?_⟩
  · intro c hc side hclaimed
    by_cases h0 : c = 0
    · simp [selfHeld, h0, channelWith] at hclaimed
    · by_cases h1 : c = 1
      · simp [selfHeld, h1, channelWith] at hclaimed
      · simp [selfHeld, h0, h1, channelWith] at hclaimed
  · intro c _ _ hreach _
    rcases reachable_selfHeld hreach with h | h
    · cases h
      exact mem_markedStates.1 (by decide)
    · cases h
      exact mem_markedStates.1 (by decide)
  · intro c _ _ _
    exact ⟨rfl, .inr rfl⟩

/-- A process has subscribed to input events and has not taken the response yet: the
kernel owns side 0 of channel 0, the receiving end waits in the response, and one event
has been sent. -/
def pendingSubscription : Holders where
  world := { channels := fun _ => channelWith [], registry := [0] }
  kernelOwners := [(0, 0)]
  protocols := fun _ => { fifo := { capacity := 64 }, maxBytes := 65536, maxResources := 64 }
  invocations := fun _ =>
    { phase := .ready
      responseResources :=
        [{ source := 0, moved := true
           resource := { object := some (.rawChannelEnd 0 1), inTransit := true } }] }
  heldInvocations := [0]

/-- **The collector drops the event.** -/
theorem not_collectsGarbage_pendingSubscription : ¬ CollectsGarbage {} pendingSubscription := by
  intro h
  have hqueues := h.sound 0 (.kernelOwner (mem_singleton.2 rfl : ((0 : ℕ), (0 : Side)) ∈ _))
  have hitems := congrArg (fun q => (q 1).fifo.items.length) hqueues
  exact absurd hitems (by decide)

end Naos.Ipc
