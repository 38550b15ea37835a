import Naos.Ipc.Kernel
import Naos.Lib.Generation

/-!
# Waiting for signals

`wait_many` looks its items up, reads the generation of notifications, evaluates the items
one after another, and sleeps until the generation has moved.  Whether it can sleep past
a signal depends on every place that can raise one.  Most of them notify.
-/

namespace Naos.Ipc

open Capability Function Transition Option InvocationState ObjectWorld BoundedQueue Generation
open ResourceTable hiding get set put drop clear

/-! ## The loop -/

/-- `na_wait_item_t`, with the process whose table the handle belongs to. -/
structure WaitItem where
  pid : ℕ
  handle : Handle
  signals : Signals
  deriving DecidableEq

/-- `wait_many`.  An item is accepted if it asks for a signal, its handle can be looked up
and the right to wait is there; the loop ends at the first item that fires. -/
def waitMany : Generation.Setting Kernel WaitItem Change where
  accepts k i :=
    i.signals != 0 &&
      ((k.tables i.pid).lookupNative i.handle).any fun e => has e.info.metaRights rightWait
  fires k i := k.nativeSignals i.pid i.handle &&& i.signals != 0
  apply := Kernel.apply
  announces := Kernel.announces

/-! ## What is not announced -/

/-- What the peer of an end can see when the number of its owners changes. -/
def ownersRaise (before after : BitVec 64) : Signals :=
  signalIf (decide (after = 0)) signalPeerClosed ||| signalIf (decide (before = 0)) signalWritable

def raiseAt (target : KObject) (signals : Signals) (o : KObject) : Signals :=
  if o = target then signals else 0

def raiseCall (i : ℕ) (signals : Signals) (o : KObject) : Signals :=
  if o = .invocation i ∨ o = .responder i then signals else 0

def otherRole : Role → Role
  | .client => .server
  | .server => .client

def hookRaises (w : ObjectWorld) : Hook → KObject → Signals
  | .acquire (.rawChannelEnd c side) _ =>
    let n := (w.channel.channels c).owners side
    raiseAt (.rawChannelEnd c (peer side)) (ownersRaise n (n + 1))
  | .release (.rawChannelEnd c side) _ | .handoff (.rawChannelEnd c side) _ _ =>
    let n := (w.channel.channels c).owners side
    raiseAt (.rawChannelEnd c (peer side)) (ownersRaise n (n - 1))
  | .acquire (.protocolEndpoint p role) _ =>
    let n := (w.protocols p).owners role
    raiseAt (.protocolEndpoint p (otherRole role)) (ownersRaise n (n + 1))
  | .release (.protocolEndpoint p role) l | .handoff (.protocolEndpoint p role) l _ =>
    let n := (w.protocols p).owners role
    -- The last owner of a server end closes the queue, and that is announced.
    if (w.protocols p).closesServer role l then fun _ => 0
    else raiseAt (.protocolEndpoint p (otherRole role)) (ownersRaise n (n - 1))
  | .release (.invocation i) .tableRoot =>
    raiseCall i (signalIf (!(w.invocations i).clientClosed) signalPeerClosed)
  | _ => fun _ => 0

/-- What a section of an invocation may raise without a notification: the outcome of a
deadline that the caller notices, and a cancellation without an owner of the queue once
the client is gone. -/
def InvocationSection.raises (s : InvocationState) : InvocationSection → Signals
  | .claimResult now _ _ => signalIf (s.publishable && s.deadlinePassed now) signalCompleted
  | .cancel false _ => signalIf (s.phase == .queued && s.clientClosed) signalCancelRequested
  | _ => 0

def Change.raises (k : Kernel) : Change → KObject → Signals
  | .hook h => hookRaises k.objects h
  | .kernelOwnerAcquired c side =>
    let n := (k.objects.channel.channels c).owners side
    raiseAt (.rawChannelEnd c (peer side)) (ownersRaise n (n + 1))
  | .kernelOwnerReleased c side =>
    let n := (k.objects.channel.channels c).owners side
    raiseAt (.rawChannelEnd c (peer side)) (ownersRaise n (n - 1))
  | .invocation i a => raiseCall i (a.raises (k.objects.invocations i))
  | .exit process => raiseAt (.plain .process process) signalCompleted
  | _ => fun _ => 0

def TableOp.publishes (t : ResourceTable) : TableOp → Handle → Bool
  | .install _ _, h | .duplicate _ _, h => decide (h = t.nextNativeHandle)
  | .activate target _ _, h => decide (h = target)
  | .commitRestrict _ restricted, h => decide (h = restricted)
  | .rollbackRestrict source _ _, h => decide (h = source)
  | .close _, _ | .reserve _ _, _ | .rollback _, _ | .restrict _ _, _ => false

/-- The handles of a process that a section of its table may make visible. -/
def TableSection.publishes (tables : ℕ → ResourceTable) (pid : ℕ) : TableSection → Handle → Bool
  | .op o, h => o.publishes (tables pid) h
  | .restore records, h => decide (h ∈ heldHandles records)
  | .cloneFrom source _, h => decide (h ∈ clonable (tables source))
  | .take _ _ _, _ | .commit _, _ | .clear, _ => false

def Change.publishes (k : Kernel) : Change → ℕ → Handle → Bool
  | .table pid a, p, h => decide (p = pid) && a.publishes k.tables pid h
  | _, _, _ => false

/-- **Nobody waits for what a section does in silence**: no item of a waiting thread asks
for a signal that the section may raise, or has a handle that it may make visible. -/
def Unawaited (s : Generation.State Kernel WaitItem) : Generation.Action WaitItem Change → Prop
  | .change c =>
    ∀ x ∈ s.waiters, x.stage ≠ .returned → ∀ i ∈ x.items,
      c.publishes s.world i.pid i.handle = false ∧
        ∀ o ∈ objectAt (s.world.tables i.pid) i.handle, c.raises s.world o &&& i.signals = 0
  | _ => True

instance (s : Generation.State Kernel WaitItem) :
    (a : Generation.Action WaitItem Change) → Decidable (Unawaited s a)
  | .change c => inferInstanceAs (Decidable (∀ x ∈ s.waiters, _ → ∀ i ∈ x.items,
      c.publishes s.world i.pid i.handle = false ∧
        ∀ o ∈ objectAt (s.world.tables i.pid) i.handle, c.raises s.world o &&& i.signals = 0))
  | .announce _ | .enter _ | .accept _ | .load _ | .check _ | .sleep _ | .wake _ =>
    inferInstanceAs (Decidable True)

/-! ## Sets of signals -/

def Sub (a b : Signals) : Prop := a ||| b = b

instance (a b : Signals) : Decidable (Sub a b) := inferInstanceAs (Decidable (_ = _))

lemma sub_or_left (a b : Signals) : Sub a (a ||| b) := by
  rw [Sub, ← BitVec.or_assoc, BitVec.or_self]

lemma and_ne_zero_of_sub {a b r m : Signals} (h : Sub a (b ||| r)) (hr : r &&& m = 0)
    (ha : a &&& m ≠ 0) : b &&& m ≠ 0 := by
  intro hb
  apply ha
  have hcover : (a &&& m) ||| ((b &&& m) ||| (r &&& m)) = (b &&& m) ||| (r &&& m) := by
    rw [← BitVec.and_or_distrib_right, ← BitVec.and_or_distrib_right, h]
  rw [hb, hr] at hcover
  simpa using hcover

lemma peer_peer (side : Side) : peer (peer side) = side := by
  revert side
  decide

/-! ## Counters of owners -/

lemma ChannelState.sub_signals_owners (s : ChannelState) (side : Side) (n : BitVec 64)
    (roots : Side → BitVec 64) (side' : Side) :
    Sub ({ s with owners := update s.owners side n, roots := roots }.signals side')
      (s.signals side' |||
        if side' = peer side then ownersRaise (s.owners side) n else 0) := by
  by_cases hside : side' = peer side
  · subst hside
    have hbits : ∀ valid readable room before after : Bool, Sub (if valid = false then 0 else
            signalIf readable signalReadable ||| signalIf (!after && room) signalWritable |||
              signalIf after signalPeerClosed)
          ((if valid = false then 0 else
            signalIf readable signalReadable ||| signalIf (!before && room) signalWritable |||
              signalIf before signalPeerClosed) |||
            (signalIf after signalPeerClosed ||| signalIf before signalWritable)) := by
      decide
    simp only [ChannelState.signals, peer_peer, update_self, ne_eq, decide_not]
    exact hbits _ _ _ _ _
  · have hother : peer side' ≠ side := by
      rintro rfl
      exact hside (peer_peer side').symm
    have heq : { s with owners := update s.owners side n, roots := roots }.signals side'
        = s.signals side' := by
      simp only [ChannelState.signals, update_of_ne hother]
    rw [heq]
    exact sub_or_left _ _

/-- The other role of an end whose owners change sees no more than `ownersRaise`. -/
lemma ProtocolState.sub_signals_owners (p : ProtocolState) (role : Role) (n : BitVec 64)
    (roots : Role → BitVec 64) (role' : Role) :
    Sub ({ p with owners := update p.owners role n, roots := roots }.signals role')
      (p.signals role' |||
        if role' = otherRole role then ownersRaise (p.owners role) n else 0) := by
  have hclient : ∀ valid closed full bytes resources before after : Bool, Sub
        (if valid = false then 0 else
          signalIf (!after && !full && bytes && resources) signalWritable |||
            signalIf (after || closed) signalPeerClosed)
        ((if valid = false then 0 else
          signalIf (!before && !full && bytes && resources) signalWritable |||
            signalIf (before || closed) signalPeerClosed) |||
          (signalIf after signalPeerClosed ||| signalIf before signalWritable)) := by
    decide
  have hserver : ∀ valid readable before after : Bool, Sub (if valid = false then 0 else
          signalIf readable signalReadable ||| signalIf after signalPeerClosed)
        ((if valid = false then 0 else
          signalIf readable signalReadable ||| signalIf before signalPeerClosed) |||
          (signalIf after signalPeerClosed ||| signalIf before signalWritable)) := by
    decide
  cases role <;> cases role' <;>
    simp only [ProtocolState.signals, otherRole, ownersRaise, if_true, ne_eq, decide_not,
      update_self]
  · exact sub_or_left _ _
  · exact hserver _ _ _ _
  · exact hclient _ _ _ _ _ _ _
  · exact sub_or_left _ _

/-! ## Invocations -/

variable {s s' : InvocationState} {outcome : Execution} {reason : Reason} {bytes : List (BitVec 8)}
  {resources : List TransferRecord} {m : ChannelMessage} {p : ProtocolState}

namespace InvocationState

lemma signals_congr (hphase : s'.phase = s.phase)
    (hclosed : s'.clientClosed = s.clientClosed)
    (hcancel : s'.cancellationRequested = s.cancellationRequested) : s'.signals = s.signals := by
  rw [signals, signals, hphase, hclosed, hcancel]

lemma signals_setPhase (s : InvocationState) {phase : Phase}
    (h : s.phase ≠ .ready ∧ s.phase ≠ .consumed) (h' : phase ≠ .ready ∧ phase ≠ .consumed) :
    { s with phase := phase }.signals = s.signals := by
  have h1 := beq_eq_false_iff_ne.2 h.1
  have h2 := beq_eq_false_iff_ne.2 h.2
  have h3 := beq_eq_false_iff_ne.2 h'.1
  have h4 := beq_eq_false_iff_ne.2 h'.2
  simp only [signals, bne, h1, h2, h3, h4]

lemma publishEmpty_silent (h : (s.publishEmpty outcome reason).wake = false) :
    (s.publishEmpty outcome reason).state = s := by
  rw [publishEmpty] at h ⊢
  split at h
  · simp at h
  · rfl

lemma completeReply_silent {error : ℤ}
    (h : (s.completeReply bytes resources error).wake = false) :
    (s.completeReply bytes resources error).state = s := by
  rw [completeReply] at h ⊢
  split at h
  · simp at h
  · rfl

lemma completeFailure_silent {error : ℤ}
    (h : (s.completeFailure outcome reason error).wake = false) :
    (s.completeFailure outcome reason error).state = s := by
  revert h
  rw [completeFailure]
  split
  · split
    · intro h
      simp at h
    · exact fun _ => rfl
  · exact fun _ => rfl

lemma signals_beginReceive (h : s.beginReceive.wake = false) :
    s.beginReceive.state.signals = s.signals := by
  revert h
  rw [beginReceive]
  split
  · exact fun _ => rfl
  rename_i hqueued
  have hq : s.phase = .queued := not_not.1 hqueued
  split
  · intro h
    exact congrArg signals (publishEmpty_silent h)
  · intro _
    exact s.signals_setPhase (by rw [hq]; decide) (by decide)

lemma signals_abandonResponder (h : s.abandonResponder.wake = false) :
    s.abandonResponder.state.signals = s.signals := by
  have hdead : { s with responderAlive := false }.signals = s.signals :=
    signals_congr rfl rfl rfl
  revert h
  rw [abandonResponder]
  split
  · exact fun _ => rfl
  split
  · intro h
    rw [publishEmpty_silent h, hdead]
  · intro h
    rw [publishEmpty_silent h, hdead]
  · exact fun _ => hdead

lemma signals_expireInPlace (h : s.expireInPlace.wake = false) :
    s.expireInPlace.state.signals = s.signals := by
  have hdead : { s with responderAlive := false }.signals = s.signals :=
    signals_congr rfl rfl rfl
  revert h
  rw [expireInPlace]
  split
  · intro h
    rw [publishEmpty_silent h]
  · intro h
    rw [publishEmpty_silent h, hdead]
  · intro h
    rw [publishEmpty_silent h, hdead]
  · exact fun _ => rfl
  · exact fun _ => rfl

lemma sub_signals_cancelled (s : InvocationState) :
    Sub { s with cancellationRequested := true }.signals (s.signals ||| signalCancelRequested) := by
  have hbits : ∀ answered closed open_ requested : Bool, Sub
        (signalIf answered signalCompleted ||| signalIf (closed && open_) signalPeerClosed |||
          signalIf (true && open_) signalCancelRequested)
        (signalIf answered signalCompleted ||| signalIf (closed && open_) signalPeerClosed |||
          signalIf (requested && open_) signalCancelRequested ||| signalCancelRequested) := by
    decide
  exact hbits _ _ _ _

lemma sub_signals_published {error : ℤ}
    (h : s.publishLockedNoWake outcome reason bytes resources error = some s') :
    Sub s'.signals (s.signals ||| signalCompleted) := by
  obtain ⟨hopen, rfl⟩ := ite_some_none_eq_some.1 h
  have hbits : ∀ answered closed requested : Bool, Sub
        (signalIf true signalCompleted ||| signalIf (closed && true) signalPeerClosed |||
          signalIf (requested && true) signalCancelRequested)
        (signalIf answered signalCompleted ||| signalIf (closed && true) signalPeerClosed |||
          signalIf (requested && true) signalCancelRequested ||| signalCompleted) := by
    decide
  have hphase : (s.phase != .consumed) = true := by
    simp only [publishable, Bool.and_eq_true] at hopen
    exact hopen.1.2
  have hbefore : s.signals =
      (signalIf (s.phase == .ready || s.phase == .consumed) signalCompleted |||
        signalIf (s.clientClosed && true) signalPeerClosed |||
        signalIf (s.cancellationRequested && true) signalCancelRequested) := by
    rw [signals, hphase]
  rw [hbefore]
  exact hbits _ _ _

lemma sub_signals_cancel {owned removed : Bool}
    (h : (s.cancel owned removed).wake = false) (hkept : (owned && removed) = false) :
    Sub (s.cancel owned removed).state.signals
      (s.signals ||| (InvocationSection.cancel owned removed).raises s) := by
  revert h
  rw [cancel]
  split
  next hphase =>
    cases owned with
    | true =>
      have hremoved : removed = false := by simpa using hkept
      simp [hremoved]
    | false =>
      simp only [Bool.false_and, Bool.false_eq_true, if_false, Bool.not_false, Bool.true_and]
      intro h
      rw [publishEmpty_silent h, InvocationSection.raises]
      -- The publication failed although the request is queued, so the client is gone.
      have hclosed : s.clientClosed = true := by
        by_contra hopen
        simp [publishEmpty, publishLockedNoWake,
          publishable, hphase, Bool.eq_false_of_not_eq_true hopen] at h
      have hraise : signalIf (s.phase == .queued && s.clientClosed) signalCancelRequested
          = signalCancelRequested := by
        rw [hphase, hclosed]
        rfl
      rw [hraise]
      exact s.sub_signals_cancelled
  · intro h
    simp at h
  · intro h
    simp at h
  · exact fun _ => sub_or_left _ _
  · exact fun _ => sub_or_left _ _

lemma sub_signals_deadline (s : InvocationState) (now : ℕ) (outcome : Execution) :
    Sub (if s.phase ≠ .ready ∧ s.deadlinePassed now = true then
        (s.publishLockedNoWake outcome .operationDeadline [] [] 0).getD s else s).signals
      (s.signals ||| signalIf (s.publishable && s.deadlinePassed now) signalCompleted) := by
  split
  next hexpired =>
    cases hpub : s.publishLockedNoWake outcome .operationDeadline [] [] 0 with
    | none => exact sub_or_left _ _
    | some s' =>
      have hopen : s.publishable = true := by
        rw [publishLockedNoWake] at hpub
        split at hpub
        · assumption
        · simp at hpub
      rw [hopen, hexpired.2]
      exact sub_signals_published hpub
  · exact sub_or_left _ _

lemma sub_signals_claimResult (s : InvocationState)
    (now byteCapacity resourceCapacity : ℕ) :
    Sub (s.claimResult now byteCapacity resourceCapacity).state.signals (s.signals |||
        (InvocationSection.claimResult now byteCapacity resourceCapacity).raises s) := by
  rw [claimResult, InvocationSection.raises]
  split
  · exact sub_or_left _ _
  dsimp only
  have hdeadline := s.sub_signals_deadline now
    (if s.phase = .dispatched then .outcomeUnknown else .notDelivered)
  revert hdeadline
  generalize (if s.phase ≠ .ready ∧ s.deadlinePassed now = true then
    (s.publishLockedNoWake (if s.phase = .dispatched then .outcomeUnknown else .notDelivered)
      .operationDeadline [] [] 0).getD s else s) = s'
  intro hdeadline
  split
  · exact hdeadline
  split
  · exact hdeadline
  split <;> exact hdeadline

end InvocationState

/-- **Sections of an invocation** raise in silence what `raises` says, at most. -/
theorem InvocationSection.sub_run (s : InvocationState) (a : InvocationSection)
    (h : (a.run s).wake = false) : Sub (a.run s).state.signals (s.signals ||| a.raises s) := by
  have hsame : ∀ {s' : InvocationState} {r : Signals}, s'.signals = s.signals →
      Sub s'.signals (s.signals ||| r) := by
    intro s' r heq
    rw [heq]
    exact sub_or_left _ _
  cases a with
  | beginReceive => exact hsame (signals_beginReceive h)
  | rollbackReceive | finishDispatch =>
    apply hsame
    simp only [run, Section.void, InvocationState.rollbackReceive, InvocationState.finishDispatch]
    split
    · rfl
    next hphase => exact s.signals_setPhase (by rw [not_not.1 hphase]; decide) (by decide)
  | markDispatched =>
    apply hsame
    change s.markDispatched.signals = _
    rw [InvocationState.markDispatched]
    split
    next hphase =>
      refine s.signals_setPhase ?_ (by decide)
      rcases hphase with hphase | hphase <;> rw [hphase] <;> decide
    · rfl
  | setQueueOwner | consumeResponder | restoreResult =>
    apply hsame
    simp only [run, Section.void, InvocationState.setQueueOwner, InvocationState.consumeResponder,
      InvocationState.restoreResult]
    split <;> rfl
  | clearQueueOwner => exact hsame rfl
  | completeReply bytes resources error =>
    exact hsame (congrArg signals (completeReply_silent h))
  | completeFailure outcome reason error =>
    exact hsame (congrArg signals (completeFailure_silent h))
  | cancel owned removed =>
    simp only [InvocationSection.run, Bool.or_eq_false_iff] at h
    exact sub_signals_cancel h.1 h.2
  | expireRemoved =>
    apply hsame
    change s.expireRemoved.state.signals = _
    change s.expireRemoved.wake = false at h
    rw [InvocationState.expireRemoved] at h ⊢
    split at h
    next hphase => rw [if_pos hphase, InvocationState.publishEmpty_silent h]
    next hphase => rw [if_neg hphase]
  | expireInPlace => exact hsame (signals_expireInPlace h)
  | abandonResponder => exact hsame (signals_abandonResponder h)
  | claimResult now byteCapacity resourceCapacity =>
    exact s.sub_signals_claimResult now byteCapacity resourceCapacity
  | commitResult =>
    apply hsame
    change s.commitResult.state.signals = _
    change s.commitResult.wake = false at h
    rw [InvocationState.commitResult] at h ⊢
    split at h
    next hphase => rw [if_pos hphase]
    · simp at h

/-! ## One object changes -/

namespace Kernel

variable (k : Kernel)

def setObjects (w : ObjectWorld) : Kernel := { k with objects := w }

lemma capabilitySignals_plain (w : ObjectWorld) (type : PlainType) (id : ℕ) :
    (k.setObjects w).capabilitySignals (.plain type id) = k.capabilitySignals (.plain type id) := by
  cases type <;> rfl

lemma sub_plain (w : ObjectWorld) (type : PlainType) (id : ℕ) (r : Signals) :
    Sub ((k.setObjects w).capabilitySignals (.plain type id))
      (k.capabilitySignals (.plain type id) ||| r) := by
  rw [capabilitySignals_plain]
  exact sub_or_left _ _

/-- The signals of one channel change, and nothing else. -/
lemma sub_setChannel {c : ℕ} {s : ChannelState} {r : KObject → Signals}
    (h : ∀ side, Sub (s.signals side)
      ((k.objects.channel.channels c).signals side ||| r (.rawChannelEnd c side))) (o : KObject) :
    Sub ((k.setChannel c s).capabilitySignals o) (k.capabilitySignals o ||| r o) := by
  cases o with
  | rawChannelEnd c' side =>
    by_cases hc : c' = c
    · subst hc
      simpa [capabilitySignals, setChannel, channels_modify] using h side
    · simpa [capabilitySignals, setChannel, channels_modify, hc] using sub_or_left _ _
  | protocolEndpoint | invocation | responder | terminalDriverControl => exact sub_or_left _ _
  | plain type id => exact k.sub_plain _ type id _

lemma sub_setProtocol {p : ℕ} {s : ProtocolState} {r : KObject → Signals}
    (h : ∀ role, Sub (s.signals role)
      ((k.objects.protocols p).signals role ||| r (.protocolEndpoint p role)))
    (b : ProtocolBudget) (o : KObject) :
    Sub ((k.setObjects { k.objects.setProtocol p s with budget := b }).capabilitySignals o)
      (k.capabilitySignals o ||| r o) := by
  cases o with
  | protocolEndpoint p' role =>
    by_cases hp : p' = p
    · subst hp
      simpa [capabilitySignals, setObjects, setProtocol] using h role
    · simpa [capabilitySignals, setObjects, setProtocol, hp] using sub_or_left _ _
  | rawChannelEnd | invocation | responder | terminalDriverControl => exact sub_or_left _ _
  | plain type id => exact k.sub_plain _ type id _

lemma sub_channelOwners (c : ℕ) (side : Side) (n : BitVec 64) (roots : Side → BitVec 64)
    (o : KObject) :
    let s := k.objects.channel.channels c
    Sub ((k.setChannel c
        { s with owners := update s.owners side n, roots := roots }).capabilitySignals o)
      (k.capabilitySignals o |||
        raiseAt (.rawChannelEnd c (peer side)) (ownersRaise (s.owners side) n) o) := by
  refine k.sub_setChannel (fun side' => ?_) o
  simpa [raiseAt] using (k.objects.channel.channels c).sub_signals_owners side n roots side'

lemma sub_protocolOwners (p : ℕ) (role : Role) (n : BitVec 64) (roots : Role → BitVec 64)
    (o : KObject) :
    let s := k.objects.protocols p
    Sub ((k.setObjects (k.objects.setProtocol p
        { s with owners := update s.owners role n, roots := roots })).capabilitySignals o)
      (k.capabilitySignals o |||
        raiseAt (.protocolEndpoint p (otherRole role)) (ownersRaise (s.owners role) n) o) := by
  refine k.sub_setProtocol (fun role' => ?_) k.objects.budget o
  simpa [raiseAt] using (k.objects.protocols p).sub_signals_owners role n roots role'

lemma sub_runSection {α : Type} (i : ℕ) (a : Section α) {r : Signals}
    (h : Sub a.state.signals ((k.objects.invocations i).signals ||| r)) (o : KObject) :
    Sub ((k.setObjects (k.objects.runSection i a)).capabilitySignals o)
      (k.capabilitySignals o ||| raiseCall i r o) := by
  have hwake : ∀ w : ObjectWorld, ∀ b,
      (k.setObjects (w.wakeIf b)).capabilitySignals o = (k.setObjects w).capabilitySignals o := by
    intro w b
    cases b with
    | false => rfl
    | true =>
      cases o with
      | plain type id => rw [capabilitySignals_plain, capabilitySignals_plain]
      | rawChannelEnd | protocolEndpoint | invocation | responder | terminalDriverControl => rfl
  rw [runSection, hwake]
  cases o with
  | invocation j | responder j =>
    by_cases hj : j = i
    · subst hj
      simpa [capabilitySignals, setObjects, raiseCall] using h
    · simpa [capabilitySignals, setObjects, raiseCall, hj] using sub_or_left _ 0
  | rawChannelEnd | protocolEndpoint | terminalDriverControl => exact sub_or_left _ _
  | plain type id => exact k.sub_plain _ type id _

lemma wake_of_silent {α : Type} (i : ℕ) (a : Section α) (h : ¬ k.objects.channel.waitGeneration <
      (k.objects.runSection i a).channel.waitGeneration) : a.wake = false := by
  by_contra hwake
  rw [Bool.not_eq_false] at hwake
  apply h
  rw [runSection, hwake]
  exact Nat.lt_succ_self _

lemma sub_of_same {w : ObjectWorld} (hchannel : w.channel = k.objects.channel)
    (hprotocols : w.protocols = k.objects.protocols)
    (hinvocations : w.invocations = k.objects.invocations) (o : KObject) (r : Signals) :
    Sub ((k.setObjects w).capabilitySignals o) (k.capabilitySignals o ||| r) := by
  cases o with
  | rawChannelEnd c side =>
    rw [capabilitySignals, setObjects, hchannel]
    exact sub_or_left _ _
  | protocolEndpoint p role =>
    rw [capabilitySignals, setObjects, hprotocols]
    exact sub_or_left _ _
  | invocation i | responder i =>
    rw [capabilitySignals, setObjects, hinvocations]
    exact sub_or_left _ _
  | terminalDriverControl => exact sub_or_left _ _
  | plain type id => exact k.sub_plain _ type id _

lemma sub_closeClient (i : ℕ) (o : KObject) :
    Sub ((k.setObjects (k.objects.closeClient i)).capabilitySignals o)
      (k.capabilitySignals o ||| raiseCall i
        (signalIf (!(k.objects.invocations i).clientClosed) signalPeerClosed) o) := by
  have hbits : ∀ answered closed open_ requested : Bool, Sub
        (signalIf answered signalCompleted ||| signalIf (true && open_) signalPeerClosed |||
          signalIf (requested && open_) signalCancelRequested)
        (signalIf answered signalCompleted ||| signalIf (closed && open_) signalPeerClosed |||
          signalIf (requested && open_) signalCancelRequested |||
          signalIf (!closed) signalPeerClosed) := by
    decide
  have hsection := k.sub_runSection i (k.objects.invocations i).closeClient
    (r := signalIf (!(k.objects.invocations i).clientClosed) signalPeerClosed)
    (hbits _ _ _ _) o
  rw [ObjectWorld.closeClient]
  split
  · cases o with
    | plain type id => exact k.sub_plain _ type id _
    | rawChannelEnd | protocolEndpoint | invocation | responder | terminalDriverControl =>
      exact hsection
  · exact hsection

lemma sub_terminalReleased (i : ℕ) (o : KObject) (r : Signals) :
    Sub ((k.setObjects (k.objects.terminalReleased i)).capabilitySignals o)
      (k.capabilitySignals o ||| r) := by
  have hrelease : ∀ w : ObjectWorld, (w.releaseCapability i).channel = w.channel ∧
      (w.releaseCapability i).protocols = w.protocols ∧
      (w.releaseCapability i).invocations = w.invocations := by
    intro w
    rw [releaseCapability]
    split
    · exact ⟨rfl, rfl, rfl⟩
    split <;> exact ⟨rfl, rfl, rfl⟩
  rw [terminalReleased]
  split
  · obtain ⟨hchannel, hprotocols, hinvocations⟩ := hrelease (k.objects.setTerminal i
      { k.objects.terminals i with
        capabilityReferences := (k.objects.terminals i).capabilityReferences - 1 })
    exact k.sub_of_same hchannel hprotocols hinvocations o r
  · exact k.sub_of_same rfl rfl rfl o r

lemma sub_endpointReleased (p : ℕ) (role : Role) (l : Location) (o : KObject)
    (h : ¬ k.objects.channel.waitGeneration <
      (k.objects.endpointReleased p role l).channel.waitGeneration) :
    Sub ((k.setObjects (k.objects.endpointReleased p role l)).capabilitySignals o)
      (k.capabilitySignals o |||
        hookRaises k.objects (.release (.protocolEndpoint p role) l) o) := by
  rw [endpointReleased] at h ⊢
  rw [hookRaises]
  split at h
  · exact absurd (generation_closeServerQueue
      (k.objects.setProtocol p ((k.objects.protocols p).released role l)) p) h
  next hopen =>
    rw [if_neg hopen, if_neg hopen]
    exact k.sub_protocolOwners p role _ _ o

/-- **Hooks** raise in silence what `hookRaises` says, at most. -/
theorem sub_hook (h : Hook) (o : KObject) (hsilent : ¬ k.objects.channel.waitGeneration <
      (k.objects.hook h).channel.waitGeneration) :
    Sub ((k.setObjects (k.objects.hook h)).capabilitySignals o)
      (k.capabilitySignals o ||| hookRaises k.objects h o) := by
  cases h with
  | acquire target l =>
    cases target with
    | rawChannelEnd c side => exact k.sub_channelOwners c side _ _ o
    | protocolEndpoint p role => exact k.sub_protocolOwners p role _ _ o
    | invocation | responder | terminalDriverControl | plain => exact k.sub_of_same rfl rfl rfl o _
  | release target l =>
    cases target with
    | rawChannelEnd c side => exact k.sub_channelOwners c side _ _ o
    | protocolEndpoint p role => exact k.sub_endpointReleased p role l o hsilent
    | invocation i =>
      cases l with
      | tableRoot => exact k.sub_closeClient i o
      | inTransit => exact k.sub_of_same rfl rfl rfl o _
    | responder i =>
      cases l with
      | tableRoot =>
        rw [hook] at hsilent ⊢
        split at hsilent
        next hconsumed =>
          rw [if_pos hconsumed]
          exact k.sub_of_same rfl rfl rfl o _
        rename_i hconsumed
        rw [if_neg hconsumed]
        have hsection := k.sub_runSection i (k.objects.invocations i).abandonResponder
          (r := 0) (by
            rw [signals_abandonResponder (k.wake_of_silent i _ hsilent)]
            exact sub_or_left _ _) o
        rwa [raiseCall, ite_self] at hsection
      | inTransit => exact k.sub_of_same rfl rfl rfl o _
    | terminalDriverControl i => exact k.sub_terminalReleased i o _
    | plain => exact k.sub_of_same rfl rfl rfl o _
  | handoff target l l' =>
    cases target with
    | rawChannelEnd c side => exact k.sub_channelOwners c side _ _ o
    | protocolEndpoint p role => exact k.sub_endpointReleased p role l o hsilent
    | terminalDriverControl i => exact k.sub_terminalReleased i o _
    | invocation | responder | plain => exact k.sub_of_same rfl rfl rfl o _

end Kernel

/-! ## Tables -/

section Tables

variable {t t' : ResourceTable}

variable {h k : Handle} {published : Handle → Bool} {e : Entry} {m : Assoc.Map Handle Entry}

lemma objectAt_eq_some {o : KObject} :
    objectAt t h = some o ↔ ∃ e, t.get h = some e ∧ e.state = .active ∧ e.object = some o := by
  simp only [objectAt, bind_eq_some_iff, lookupNative_eq_some]
  constructor
  · rintro ⟨e, ⟨hget, hactive⟩, ho⟩
    exact ⟨e, hget, hactive, ho⟩
  · rintro ⟨e, hget, hactive, ho⟩
    exact ⟨e, ⟨hget, hactive⟩, ho⟩

/-- Outside of some handles, a table shows no more than another. -/
def ShowsNoMore (published : Handle → Bool) (t t' : ResourceTable) : Prop :=
  ∀ h o, published h = false → objectAt t' h = some o → objectAt t h = some o

lemma ShowsNoMore.refl (published : Handle → Bool) (t : ResourceTable) :
    ShowsNoMore published t t := fun _ _ _ ho => ho

lemma ShowsNoMore.trans {t'' : ResourceTable} (h : ShowsNoMore published t t')
    (h' : ShowsNoMore published t' t'') :
    ShowsNoMore published t t'' := fun k o hk ho => h k o hk (h' k o hk ho)

lemma showsNoMore_of_get
    (h : ∀ k e, published k = false → t'.get k = some e → e.state = .active → t.get k = some e) :
    ShowsNoMore published t t' := by
  intro k o hk ho
  obtain ⟨e, hget, hactive, hobj⟩ := objectAt_eq_some.1 ho
  exact objectAt_eq_some.2 ⟨e, h k e hk hget hactive, hactive, hobj⟩

lemma showsNoMore_put (t : ResourceTable) (hpub : e.state = .active → published h = true) :
    ShowsNoMore published t (t.put h e) := by
  apply showsNoMore_of_get
  intro k e' hk hget hactive
  by_cases hkh : k = h
  · subst hkh
    rw [get_put_self] at hget
    cases hget
    simp [hpub hactive] at hk
  · rwa [get_put_of_ne hkh] at hget

lemma showsNoMore_set (t : ResourceTable) (hpub : e.state = .active → published h = true) :
    ShowsNoMore published t (t.set h e) :=
  fun k o hk ho => (showsNoMore_put t hpub : ShowsNoMore published t (t.put h e)) k o hk ho

lemma showsNoMore_drop (published : Handle → Bool) (t : ResourceTable) (h : Handle) :
    ShowsNoMore published t (t.drop h) := by
  apply showsNoMore_of_get
  intro k e _ hget _
  by_cases hkh : k = h
  · subst hkh
    simp at hget
  · rwa [get_drop_of_ne hkh] at hget

lemma showsNoMore_of_lookup
    (h : ∀ k e, t'.nativeHandleMap.lookup k = some e → t.nativeHandleMap.lookup k = some e) :
    ShowsNoMore published t t' :=
  showsNoMore_of_get fun k e _ hget _ => h k e hget

variable (published)

lemma showsNoMore_allocate (halloc : t.allocateNativeHandleLocked = (h, t')) :
    ShowsNoMore published t t' := by
  apply showsNoMore_of_lookup
  intro k e hlook
  rwa [map_allocate halloc] at hlook

lemma lookup_of_eraseAll {handles : List Handle}
    (h : (Assoc.eraseAll handles m).lookup k = some e) : m.lookup k = some e := by
  by_cases hk : k ∈ handles
  · exact absurd hk (Assoc.mem_eraseAll.1 (Assoc.mem_of_lookup h)).1
  · rwa [Assoc.lookup_eraseAll_of_notMem hk] at h

lemma showsNoMore_reserveLoop (n : ℕ) (t : ResourceTable) :
    ShowsNoMore published t (reserveLoop n [] t).table := by
  refine reserveLoop_induct (P := fun _ => ShowsNoMore published t) ?_ (fun _ _ => id)
    (fun _ _ h => h.trans (showsNoMore_of_lookup fun _ _ => lookup_of_eraseAll)) (.refl _ t)
  intro handles t₁ h t' hshows halloc hh
  refine hshows.trans ((showsNoMore_allocate _ halloc).trans (showsNoMore_put _ ?_))
  intro hactive
  exact EntryState.noConfusion hactive

lemma showsNoMore_rollback (handles : List Handle)
    (t : ResourceTable) : ShowsNoMore published t (t.rollbackNative handles) :=
  rollbackNative_induct (P := ShowsNoMore published t) (.refl _ t) fun h _ t₁ _ hshows _ _ =>
    hshows.trans (showsNoMore_drop _ t₁ h)

lemma TableOp.Does.showsNoMore {op : TableOp} {hooks : List Hook} (h : op.Does t t' hooks) :
    ShowsNoMore (op.publishes t) t t' := by
  cases h with
  | refused => exact .refl _ t
  | install halloc hh | duplicate halloc hh =>
    refine (showsNoMore_allocate _ halloc).trans (showsNoMore_put _ fun _ => ?_)
    exact decide_eq_true (allocate_spec halloc hh).1
  | close => exact showsNoMore_drop _ t _
  | reserve count => exact showsNoMore_reserveLoop _ count t
  | activate => exact showsNoMore_set t fun _ => decide_eq_true rfl
  | rollback handles => exact showsNoMore_rollback _ handles t
  | restrict halloc hh =>
    -- The source is hidden and the replacement is only reserved.
    refine ((showsNoMore_allocate _ halloc).trans (showsNoMore_set _ ?_)).trans
      (showsNoMore_put _ ?_)
    · intro hactive
      exact EntryState.noConfusion hactive
    · intro hactive
      exact EntryState.noConfusion hactive
  | commitRestrict =>
    exact (showsNoMore_set t fun _ => decide_eq_true rfl).trans (showsNoMore_drop _ _ _)
  | rollbackRestrict =>
    exact (showsNoMore_drop _ t _).trans (showsNoMore_set _ fun _ => decide_eq_true rfl)

/-- **One operation** makes nothing visible but what it publishes. -/
theorem showsNoMore_apply (t : ResourceTable) (op : TableOp) :
    ShowsNoMore (op.publishes t) t (op.apply t) := (op.does t).showsNoMore

lemma showsNoMore_take (pid : ℕ) (t : ResourceTable)
    (ds : List Disposition) (target : Handle) (allocated : Bool) :
    ShowsNoMore published t (takeNativeBatch pid t ds target allocated).table := by
  by_cases hok : (takeNativeBatch pid t ds target allocated).value.1 = .ok
  · obtain ⟨es, -, -, -, heq⟩ := takeNativeBatch_ok hok
    rw [heq]
    exact showsNoMore_of_lookup fun _ _ => lookup_of_eraseAll
  · rw [takeNativeBatch_error hok]
    exact .refl _ t

lemma lookup_attachLoop {rs : List TransferRecord} (hk : k ∉ heldHandles rs) :
    (attachLoop rs m).2.2.lookup k = m.lookup k := by
  obtain ⟨hlook, hmem⟩ := attachLoop_spec rs m
  by_cases hkm : k ∈ m
  · exact hlook k hkm
  · rw [AList.lookup_eq_none.2 hkm, AList.lookup_eq_none]
    exact fun h => (hmem k h).elim hkm hk

lemma showsNoMore_restore (pid : ℕ) (t : ResourceTable) (records : List TransferRecord) :
    ShowsNoMore (fun h => decide (h ∈ heldHandles records)) t
      (restoreNativeBatch pid t records).table := by
  have hattach : ∀ m, (attachLoop records t.nativeHandleMap).2.2 = m →
      ShowsNoMore (fun h => decide (h ∈ heldHandles records)) t
        { t with nativeHandleMap := m } := by
    intro m hm
    apply showsNoMore_of_get
    intro k e hk hget _
    rw [ResourceTable.get, ← hm, lookup_attachLoop (of_decide_eq_false hk)] at hget
    exact hget
  rw [restoreNativeBatch]
  split
  · split
    next hloop => exact hattach _ (by rw [hloop])
    next hloop => exact hattach _ (by rw [hloop])
  · exact .refl _ t

lemma showsNoMore_clone (t source : ResourceTable) (allocated : Bool) :
    ShowsNoMore (fun h => decide (h ∈ clonable source)) t
      (t.cloneForkBindings source allocated).table := by
  rw [cloneForkBindings]
  iterate 3
    split
    · exact .refl _ t
  · apply showsNoMore_of_get
    intro k e hk hget _
    rw [ResourceTable.get, AList.lookup_union_right (of_decide_eq_false hk)] at hget
    exact hget

lemma showsNoMore_clear (t : ResourceTable) :
    ShowsNoMore published t t.clear.table := by
  apply showsNoMore_of_lookup
  intro k e hlook
  exact absurd (Assoc.mem_of_lookup hlook) (AList.notMem_empty k)

/-- **Sections of a table** make nothing visible but what they publish. -/
theorem showsNoMore_section (tables : ℕ → ResourceTable) (pid : ℕ) (a : TableSection) :
    ShowsNoMore (a.publishes tables pid) (tables pid) (a.apply tables pid) := by
  cases a with
  | op o => exact showsNoMore_apply (tables pid) o
  | take ds target allocated => exact showsNoMore_take _ pid (tables pid) ds target allocated
  | restore records => exact showsNoMore_restore pid (tables pid) records
  | commit records =>
    apply showsNoMore_of_lookup
    intro k e hlook
    change (commitNativeBatch pid (tables pid) records).table.nativeHandleMap.lookup k = _ at hlook
    rwa [nativeHandleMap_commitNativeBatch] at hlook
  | cloneFrom source allocated => exact showsNoMore_clone (tables pid) (tables source) allocated
  | clear => exact showsNoMore_clear _ (tables pid)

end Tables

/-! ## One section -/

lemma waitGeneration_enqueue {pid : ℕ} {w : ChannelWorld} {t : ResourceTable} {c : ℕ}
    {sender : Side} {records : List TransferRecord}
    (h : (enqueue pid w t c sender m records).status = .ok) :
    w.waitGeneration < (enqueue pid w t c sender m records).world.waitGeneration := by
  obtain ⟨w', m', fifo, -, hreserve, -, -, heq⟩ := enqueue_eq_accept h
  have hgen : w'.waitGeneration = w.waitGeneration := by
    rw [ChannelWorld.reserveGlobal] at hreserve
    split at hreserve
    · cases hreserve
      rfl
    · simp at hreserve
  rw [heq, ← hgen]
  exact Nat.lt_succ_self _

lemma ChannelState.signals_claimReceive {s s' : ChannelState} {side : Side}
    (h : s.claimReceive side = .ok (m, s')) (side' : Side) :
    s'.signals side' = s.signals side' := by
  rw [ChannelState.claimReceive] at h
  split at h
  · simp at h
  split at h
  · simp at h
  · simp at h
  next hclaim =>
    cases h
    rw [claimFront_eq_some hclaim]
    by_cases hown : side' = side
    · subst hown
      have hpeer : ∀ i : Side, peer i ≠ i := by decide
      simp only [ChannelState.signals, ChannelState.setQueue, update_self, update_of_ne (hpeer _)]
      rfl
    by_cases hpeer : peer side' = side
    · subst hpeer
      simp only [ChannelState.signals, ChannelState.setQueue, update_self, update_of_ne hown]
      rfl
    · simp only [ChannelState.signals, ChannelState.setQueue, update_of_ne hown,
        update_of_ne hpeer]
      rfl

lemma ProtocolState.signals_claim {p' : ProtocolState} {r : InvocationRequest}
    (h : p.claim = .ok (r, p')) (role : Role) : p'.signals role = p.signals role := by
  obtain ⟨-, -, -, rfl⟩ := claim_eq_ok h
  cases role <;> rfl

lemma eq_ok_of_toOption {ε α : Type} {x : Except ε α} {a : α} (h : x.toOption = some a) :
    x = .ok a := by
  cases x with
  | error e => simp [Except.toOption] at h
  | ok b =>
    cases h
    rfl

lemma ProtocolSection.claim_of_silent {b : ProtocolBudget} {a : ProtocolSection}
    {r : ProtocolOutcome} (h : a.run p b = some r) (hwake : r.wake = false) :
    ∃ request, p.claim = .ok (request, r.protocol) := by
  cases a with
  | claim =>
    obtain ⟨⟨request, p'⟩, hclaim, rfl⟩ := map_eq_some_iff.1 h
    exact ⟨request, eq_ok_of_toOption hclaim⟩
  | removeQueued invocation =>
    obtain ⟨o, -, rfl⟩ := map_eq_some_iff.1 h
    exact Bool.noConfusion hwake
  | enqueue request | cancelClaim request | commitClaim request =>
    obtain ⟨-, rfl⟩ := ite_some_none_eq_some.1 h
    exact Bool.noConfusion hwake

lemma SharedRing.sub_claimPop {r r' : SharedRing} (h : r.claimPop = .ok (bytes, r')) :
    Sub r'.signals (r.signals ||| 0) := by
  rw [SharedRing.claimPop] at h
  split at h
  · cases h
    have hbits : ∀ valid readable room free : Bool, Sub (if valid = false then 0 else
            signalIf readable signalReadable ||| signalIf (room && !true) signalWritable)
          ((if valid = false then 0 else
            signalIf readable signalReadable ||| signalIf (room && free) signalWritable) |||
            0) := by
      decide
    exact hbits _ _ _ _
  · simp at h

namespace Kernel

variable {k k' : Kernel}

variable {c : Change}

lemma generation_of_silent (h : k.apply c = some k') (hsilent : k.announces c = false) :
    ¬ k.objects.channel.waitGeneration < k'.objects.channel.waitGeneration := by
  rw [announces, h] at hsilent
  exact of_decide_eq_false hsilent

lemma lt_generation_wake (k : Kernel) :
    k.objects.channel.waitGeneration < k.wake.objects.channel.waitGeneration :=
  Nat.lt_succ_self _

lemma sub_claimReceive {c : ℕ} {side : Side} {m : ChannelMessage} {s : ChannelState}
    (h : (k.objects.channel.channels c).claimReceive side = .ok (m, s)) (o : KObject) :
    Sub ((k.setChannel c s).capabilitySignals o) (k.capabilitySignals o ||| 0) := by
  refine k.sub_setChannel (r := fun _ => 0) (fun side' => ?_) o
  rw [ChannelState.signals_claimReceive h side']
  exact sub_or_left _ _

lemma sub_claim {p : ℕ} {r : InvocationRequest} {s : ProtocolState}
    (h : (k.objects.protocols p).claim = .ok (r, s)) (b : ProtocolBudget) (o : KObject) :
    Sub ((k.setObjects { k.objects.setProtocol p s with budget := b }).capabilitySignals o)
      (k.capabilitySignals o ||| 0) := by
  refine k.sub_setProtocol (r := fun _ => 0) (fun role => ?_) b o
  rw [ProtocolState.signals_claim h role]
  exact sub_or_left _ _

lemma sub_ringClaimPop {i : ℕ} {bytes : List (BitVec 8)} {r : SharedRing}
    (h : (k.rings i).claimPop = .ok (bytes, r)) (o : KObject) :
    Sub ((k.setRing i r).capabilitySignals o) (k.capabilitySignals o ||| 0) := by
  cases o with
  | plain type j =>
    cases type with
    | sharedRing =>
      by_cases hj : j = i
      · subst hj
        simpa [capabilitySignals, setRing] using SharedRing.sub_claimPop h
      · simpa [capabilitySignals, setRing, hj] using sub_or_left _ 0
    | _ => exact sub_or_left _ _
  | rawChannelEnd | protocolEndpoint | invocation | responder | terminalDriverControl =>
    exact sub_or_left _ _

lemma sub_exit (k : Kernel) (process : ℕ) (o : KObject) :
    Sub ({ k with noThread := update k.noThread process true }.capabilitySignals o)
      (k.capabilitySignals o ||| raiseAt (.plain .process process) signalCompleted o) := by
  cases o with
  | plain type j =>
    cases type with
    | process =>
      by_cases hj : j = process
      · subst hj
        have hbits : ∀ b : Bool, Sub (signalIf true signalCompleted)
            (signalIf b signalCompleted ||| signalCompleted) := by
          decide
        simpa [capabilitySignals, raiseAt] using hbits (k.noThread j)
      · simpa [capabilitySignals, raiseAt, hj] using sub_or_left _ 0
    | _ => exact sub_or_left _ _
  | rawChannelEnd | protocolEndpoint | invocation | responder | terminalDriverControl =>
    exact sub_or_left _ _

/-- **A silent section raises no more than `raises` says.** -/
theorem sub_apply (h : k.apply c = some k') (hsilent : k.announces c = false) (o : KObject) :
    Sub (k'.capabilitySignals o) (k.capabilitySignals o ||| c.raises k o) := by
  have hgen := generation_of_silent h hsilent
  cases c with
  | table pid a =>
    cases h
    cases o with
    | plain type id => cases type <;> exact sub_or_left _ _
    | rawChannelEnd | protocolEndpoint | invocation | responder | terminalDriverControl =>
      exact sub_or_left _ _
  | hook hk =>
    cases h
    exact k.sub_hook hk o hgen
  | kernelOwnerAcquired c side | kernelOwnerReleased c side =>
    cases h
    exact k.sub_channelOwners c side _ _ o
  | send pid c sender m records =>
    obtain ⟨hok, rfl⟩ := ite_some_none_eq_some.1 h
    exact absurd (waitGeneration_enqueue hok) hgen
  | claimReceive c side =>
    obtain ⟨⟨m, s⟩, hclaim, rfl⟩ := map_eq_some_iff.1 h
    exact sub_claimReceive (eq_ok_of_toOption hclaim) o
  | cancelReceive c side m | commitReceive c side m | discard c side =>
    obtain ⟨s, -, rfl⟩ := map_eq_some_iff.1 h
    exact absurd (lt_generation_wake _) hgen
  | invocation i a =>
    cases h
    exact k.sub_runSection i _ (a.sub_run _ (k.wake_of_silent i _ hgen)) o
  | protocol p a =>
    obtain ⟨r, hrun, rfl⟩ := map_eq_some_iff.1 h
    have hwake : r.wake = false := by
      by_contra hwake
      rw [Bool.not_eq_false] at hwake
      rw [hwake] at hgen
      exact hgen (Nat.lt_succ_self _)
    obtain ⟨request, hclaim⟩ := ProtocolSection.claim_of_silent hrun hwake
    rw [hwake]
    exact sub_claim hclaim r.budget o
  | ringPush i bytes | ringCommitPop i =>
    obtain ⟨r, -, rfl⟩ := map_eq_some_iff.1 h
    exact absurd (lt_generation_wake _) hgen
  | ringClaimPop i =>
    obtain ⟨⟨bytes, r⟩, hclaim, rfl⟩ := map_eq_some_iff.1 h
    exact sub_ringClaimPop (eq_ok_of_toOption hclaim) o
  | ringCancelPop i =>
    cases h
    exact absurd (lt_generation_wake _) hgen
  | exit process =>
    cases h
    exact k.sub_exit process o

/-- **A silent section shows no more than it publishes.** -/
theorem showsNoMore_change (h : k.apply c = some k') (hsilent : k.announces c = false) (pid : ℕ) :
    ShowsNoMore (c.publishes k pid) (k.tables pid) (k'.tables pid) := by
  have hgen := generation_of_silent h hsilent
  cases c with
  | table pid' a =>
    cases h
    by_cases hpid : pid = pid'
    · subst hpid
      have hshow := showsNoMore_section k.tables pid a
      intro handle o hpub ho
      apply hshow handle o
      · simpa [Change.publishes] using hpub
      · simpa [setTable] using ho
    · intro handle o _ ho
      simpa [setTable, hpid] using ho
  | send pid' c sender m records =>
    obtain ⟨hok, rfl⟩ := ite_some_none_eq_some.1 h
    exact absurd (waitGeneration_enqueue hok) hgen
  | hook | kernelOwnerAcquired | kernelOwnerReleased | invocation | ringCancelPop | exit =>
    cases h
    exact .refl _ _
  | claimReceive | cancelReceive | commitReceive | discard | protocol | ringPush
  | ringClaimPop | ringCommitPop =>
    obtain ⟨r, -, rfl⟩ := map_eq_some_iff.1 h
    exact .refl _ _

end Kernel

/-! ## The waiters -/

lemma announced_of_unawaited {s : Generation.State Kernel WaitItem}
    {a : Generation.Action WaitItem Change} (h : Unawaited s a) :
    Generation.Announced waitMany s a := by
  cases a with
  | change c =>
    by_cases hann : s.world.announces c = true
    · exact .inl hann
    right
    intro k' happly i hi hfires
    have hsilent := Bool.eq_false_of_not_eq_true hann
    obtain ⟨x, hx, hstage, hmem⟩ := hi
    obtain ⟨hpub, hraise⟩ := h x hx hstage i hmem
    have hmeet : k'.nativeSignals i.pid i.handle &&& i.signals ≠ 0 := bne_iff_ne.1 hfires
    refine bne_iff_ne.2 ?_
    rw [Kernel.nativeSignals] at hmeet
    cases hobj : objectAt (k'.tables i.pid) i.handle with
    | none => simp [hobj] at hmeet
    | some o =>
      rw [hobj] at hmeet
      have hbefore := Kernel.showsNoMore_change happly hsilent i.pid i.handle o hpub hobj
      rw [Kernel.nativeSignals, hbefore]
      exact and_ne_zero_of_sub (Kernel.sub_apply happly hsilent o) (hraise o hbefore) hmeet
  | announce | enter | accept | load | check | sleep | wake => trivial

/-- **No run of sections whose silent effects nobody awaits loses a waiter**, for any
number of threads in `wait_many` and from any state of the objects and tables. -/
theorem not_lostWakeup_of_unawaited {k : Kernel} {s : Generation.State Kernel WaitItem}
    {as : List (Generation.Action WaitItem Change)}
    (hok : Along (step waitMany) Unawaited { world := k } as)
    (hrun : exec (step waitMany) { world := k } as = some s) :
    ¬ Generation.LostWakeup waitMany s :=
  no_lostWakeup waitMany (hok.mono fun _ _ => announced_of_unawaited) hrun

/-! ## Runs -/

def tableOf (objects : List KObject) : ResourceTable :=
  objects.foldl (fun t o => (t.installNative (some o) {}).table) {}

/-- The two ends of a channel in two processes.  The first process also has a handle of
the second. -/
def channelPair : Kernel where
  objects :=
    { channel :=
        { channels := fun _ =>
            { newChannel defaultLimits with owners := fun _ => 1, roots := fun _ => 1 } }
      protocols := fun _ => { fifo := { capacity := 0 }, maxBytes := 0, maxResources := 0 } }
  tables := fun pid =>
    if pid = 1 then tableOf [.rawChannelEnd 0 0, .plain .process 2]
    else if pid = 2 then tableOf [.rawChannelEnd 0 1]
    else {}

def sleepOn (h : Handle) (signals : Signals) : List (Generation.Action WaitItem Change) :=
  [.enter [⟨1, h, signals⟩], .accept 0, .accept 0, .load 0, .check 0, .sleep 0]

/-- `close_native` of a process: the entry goes, and the hooks follow. -/
def closeHandle (pid : ℕ) (h : Handle) : List (Generation.Action WaitItem Change) :=
  .change (.table pid (.op (.close h))) ::
    (((channelPair.tables pid).closeNative h).hooks.map fun hook => .change (.hook hook))

def sleepThenSend : List (Generation.Action WaitItem Change) :=
  sleepOn 1 signalReadable ++ [.change (.send 2 0 1 { bytes := [7] } []), .announce 0, .wake 0]

theorem not_lostWakeup_send : ∃ s, exec (step waitMany) { world := channelPair } sleepThenSend
        = some s ∧ ¬ Generation.LostWakeup waitMany s := by
  have hok : Along (step waitMany) Unawaited { world := channelPair }
      sleepThenSend := by
    decide
  exact ⟨_, rfl, not_lostWakeup_of_unawaited hok rfl⟩

/-- The last handle of one side is closed while the other side waits for that, and a
process exits while another waits for it.  Nobody is woken, and no operation is left that
would. -/
theorem lostWakeup_lastHandle_and_exit : (∃ s, exec (step waitMany) { world := channelPair }
        (sleepOn 1 signalPeerClosed ++ closeHandle 2 1) = some s ∧
      s.due = [] ∧ Generation.LostWakeup waitMany s) ∧
    ∃ s, exec (step waitMany) { world := channelPair }
        (sleepOn 2 signalCompleted ++ [.change (.exit 2)]) = some s ∧
      s.due = [] ∧ Generation.LostWakeup waitMany s :=
  ⟨⟨_, rfl, rfl, by decide⟩, ⟨_, rfl, rfl, by decide⟩⟩

end Naos.Ipc
