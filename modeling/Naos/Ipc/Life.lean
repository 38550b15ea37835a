import Naos.Ipc.Delivery
import Naos.Ipc.Interference

/-!
# The life of an invocation

One invocation, everything that may happen to it, and a reply or a failure that the holder
of its responder sends.  The phase, the claim on the result and the request are those of
`Delivery`; here they are watched over whole runs: how often an outcome is published and a
result committed, and what the calls of the replier return.

A reply is a chain of locked sections.  It looks the responder up, takes its batch out of
the table of the replier, publishes the outcome together with the commit of the batch, and
closes the responder; where the outcome cannot be published any more, it puts the batch back
first.  Between the sections anything may happen to the invocation and to the table.  The
call that is followed is any one call: the others are among the things that happen.
-/

namespace Naos.Ipc

open Delivery

open Capability Transition Option

/-! ## The moves of the phase -/

/-- The moves of the phase: forwards one by one, back to the queue when a claim is
cancelled, and to `ready` from every phase without an outcome. -/
def edge : Phase → Phase → Bool
  | .queued, .receiving | .receiving, .dispatched | .receiving, .queued => true
  | .queued, .ready | .receiving, .ready | .dispatched, .ready => true
  | .ready, .consumed => true
  | _, _ => false

/-- What was published: whether the call was executed, why not, and the error of the
protocol. -/
def InvocationState.outcome (s : InvocationState) : Execution × Reason × ℤ :=
  (s.executionOutcome, s.outcomeReason, s.protocolError)

/-- A section keeps the phase or moves it along an edge, and does not change an outcome that
was published. -/
structure Moves (s s' : InvocationState) : Prop where
  phase : s'.phase = s.phase ∨ edge s.phase s'.phase = true
  outcome : s.Settled → s'.outcome = s.outcome

/-- A section that does not consume the result either, and does not take a request for a
cancellation back. -/
structure Lawful (s s' : InvocationState) : Prop extends Moves s s' where
  consumed : s'.phase = .consumed → s.phase = .consumed
  cancellation : s.cancellationRequested = true → s'.cancellationRequested = true

variable {p : Phase} {named : List Handle} {r : ReplyCall} {t t' : ResourceTable}
  {ds : List Disposition}

lemma edge_from_ready (h : edge .ready p = true) : p = .consumed := by
  cases p <;> simp [edge] at h ⊢

lemma edge_from_consumed (p : Phase) : edge .consumed p = false := by cases p <;> rfl

lemma edge_to_consumed (h : edge p .consumed = true) : p = .ready := by
  cases p <;> simp [edge] at h ⊢

namespace Moves

variable {s s' : InvocationState}

lemma settled (h : Moves s s') (hs : s.Settled) : s'.Settled := by
  rcases h.phase with hp | hp
  · rw [InvocationState.Settled, hp]
    exact hs
  · rcases hs with hs | hs
    · rw [hs] at hp
      exact .inr (edge_from_ready hp)
    · rw [hs, edge_from_consumed] at hp
      exact absurd hp Bool.false_ne_true

lemma consumed (h : Moves s s') (hs : s.phase = .consumed) : s'.phase = .consumed := by
  rcases h.phase with hp | hp
  · exact hp.trans hs
  · rw [hs, edge_from_consumed] at hp
    exact absurd hp Bool.false_ne_true

end Moves

namespace Lawful

variable {s s' : InvocationState}

lemma of_eq (hphase : s'.phase = s.phase) (houtcome : s'.outcome = s.outcome)
    (hcancel : s.cancellationRequested = true → s'.cancellationRequested = true) : Lawful s s' :=
  ⟨⟨.inl hphase, fun _ => houtcome⟩, fun h => hphase.symm.trans h, hcancel⟩

lemma refl (s : InvocationState) : Lawful s s := of_eq rfl rfl id

lemma of_edge (hedge : edge s.phase s'.phase = true) (hopen : ¬ s.Settled)
    (hcancel : s.cancellationRequested = true → s'.cancellationRequested = true) :
    Lawful s s' := by
  refine ⟨⟨.inr hedge, fun hs => absurd hs hopen⟩, fun hs' => ?_, hcancel⟩
  rw [hs'] at hedge
  exact absurd (.inl (edge_to_consumed hedge)) hopen

lemma of_phase (hphase : s.phase = p) (hedge : edge p s'.phase = true)
    (hp : p ≠ .ready ∧ p ≠ .consumed)
    (hcancel : s'.cancellationRequested = s.cancellationRequested) : Lawful s s' := by
  refine of_edge (hphase ▸ hedge) ?_ hcancel.trans
  simp [InvocationState.Settled, hphase, hp]

lemma of_edited (h : Edited s s') : Lawful s s' := by
  cases h with
  | same => exact refl s
  | publish hopen =>
    simp only [InvocationState.publishable, Bool.and_eq_true, bne_iff_ne] at hopen
    refine of_edge ?_ ?_ id
    · cases hphase : s.phase <;> simp_all [edge]
    · rintro (hs | hs)
      · exact hopen.1.1 hs
      · exact hopen.1.2 hs
  | result => exact of_eq rfl rfl id

lemma of_flags {s₀ : InvocationState} (h : Lawful s₀ s') (hphase : s₀.phase = s.phase)
    (houtcome : s₀.outcome = s.outcome)
    (hcancel : s.cancellationRequested = true → s₀.cancellationRequested = true) :
    Lawful s s' := by
  refine ⟨⟨hphase ▸ h.phase, fun hs => ?_⟩, fun hs' => hphase ▸ h.consumed hs',
    fun hc => h.cancellation (hcancel hc)⟩
  have hs₀ : s₀.Settled := by
    rw [InvocationState.Settled, hphase]
    exact hs
  exact (h.outcome hs₀).trans houtcome

lemma trans_flags {s₁ : InvocationState} (h : Lawful s s₁) (hphase : s'.phase = s₁.phase)
    (houtcome : s'.outcome = s₁.outcome)
    (hcancel : s₁.cancellationRequested = true → s'.cancellationRequested = true) : Lawful s s' :=
  ⟨⟨hphase ▸ h.phase, fun hs => houtcome.trans (h.outcome hs)⟩, fun hs' =>
    h.consumed (hphase.symm.trans hs'), fun hc => hcancel (h.cancellation hc)⟩

lemma completeReply_commit (s : InvocationState) (bytes : List (BitVec 8))
    (resources committed : List TransferRecord) (error : ℤ) :
    Lawful s { (s.completeReply bytes resources error).state with
      responseResources := committed } :=
  (of_edited (.completeReply s bytes resources error)).trans_flags rfl rfl id

lemma of_ended (h : Ended s s') : Lawful s s' := by
  obtain ⟨alive, h⟩ := h
  exact (of_edited h).of_flags rfl rfl id

lemma beginReceive (s : InvocationState) : Lawful s s.beginReceive.state := by
  rw [InvocationState.beginReceive]
  split
  · exact of_eq rfl rfl id
  rename_i hq
  split
  · exact of_edited (.publishEmpty s _ _)
  · exact of_phase (not_not.1 hq) rfl (by decide) rfl

lemma rollbackReceive (s : InvocationState) : Lawful s s.rollbackReceive.state := by
  rw [InvocationState.rollbackReceive]
  split
  · exact of_eq rfl rfl id
  next hr => exact of_phase (not_not.1 hr) rfl (by decide) rfl

lemma finishDispatch (s : InvocationState) : Lawful s s.finishDispatch.state := by
  rw [InvocationState.finishDispatch]
  split
  · exact of_eq rfl rfl id
  next hr => exact of_phase (not_not.1 hr) rfl (by decide) rfl

lemma markDispatched (hq : s.phase ≠ .queued) : Lawful s s.markDispatched := by
  rw [InvocationState.markDispatched]
  split
  next h => exact of_phase (h.resolve_left hq) rfl (by decide) rfl
  · exact of_eq rfl rfl id

lemma cancel (s : InvocationState) (owned removed : Bool) :
    Lawful s (s.cancel owned removed).state := by
  rw [InvocationState.cancel]
  split
  · split
    · exact of_eq rfl rfl fun _ => rfl
    · exact (of_edited (.publishEmpty { s with cancellationRequested := true } _ _)).of_flags
        rfl rfl fun _ => rfl
  · exact of_eq rfl rfl fun _ => rfl
  · exact of_eq rfl rfl fun _ => rfl
  · exact refl s
  · exact refl s

end Lawful

/-- `commit_result` answers `NA_STATUS_OK` exactly where it consumes a result. -/
lemma commitResult_spec (s : InvocationState) :
    (s.commitResult.value.1 = .ok ∧ s.phase = .ready ∧ s.commitResult.state.phase = .consumed ∧
        s.commitResult.state.outcome = s.outcome) ∨
      (s.commitResult.value.1 ≠ .ok ∧ s.commitResult.state = s) := by
  rw [InvocationState.commitResult]
  split
  · refine .inr ⟨?_, rfl⟩
    dsimp only
    split <;> decide
  next h =>
    have hphase : s.phase = .ready := by
      by_contra hne
      exact h (.inr hne)
    exact .inl ⟨rfl, hphase, rfl, rfl⟩

lemma moves_commitResult (s : InvocationState) : Moves s s.commitResult.state := by
  rcases commitResult_spec s with ⟨-, hready, hconsumed, houtcome⟩ | ⟨-, heq⟩
  · exact ⟨.inr (by rw [hready, hconsumed, edge]), fun _ => houtcome⟩
  · rw [heq]
    exact (Lawful.refl _).toMoves

/-! ## The sections of an invocation -/

namespace Delivery

variable {d d' : Delivery} {s : InvocationState}

/-- The worker is past `begin_receive`: the phase does not go back to the queue. -/
def Begun (d : Delivery) : Prop := d.stage = .kernelBegun → d.inv.phase ≠ .queued

variable {source target : Stage} {a : DeliveryAction}

/-- What a section does to a call: it is lawful, `commit_result` apart, and does not bring the
worker back to a queued request. -/
structure Orderly (a : DeliveryAction) (d d' : Delivery) : Prop where
  lawful : a ≠ .commitResult → Lawful d.inv d'.inv
  begun : d'.Begun

lemma Orderly.move (hne : target ≠ .kernelBegun) (hstep : d.advanceWith source target s = some d')
    (hlawful : Lawful d.inv s) : Orderly a d d' := by
  obtain ⟨-, rfl⟩ := advanceWith_eq_some hstep
  exact ⟨fun _ => hlawful, fun hb => absurd hb hne⟩

lemma Begun.stay (h : d.Begun) (hstage : d'.stage = d.stage) (hlater : Later d.inv d'.inv) :
    d'.Begun :=
  fun hb hq => h (hstage.symm.trans hb) (hlater.phase_eq hq (by decide) (by decide))

lemma Orderly.edit (h : d.Begun) (hstage : d'.stage = d.stage) (hedit : Edited d.inv d'.inv) :
    Orderly a d d' := ⟨fun _ => .of_edited hedit, h.stay hstage (.of_edited hedit)⟩

lemma orderly_step (h : d.Begun) (hstep : d.step a = some d') : Orderly a d d' := by
  cases a with
  | submit accepted =>
    refine .move ?_ (advanceWith_of_advance hstep) (.refl _)
    cases accepted <;> cases d.route <;> decide
  | claim | cancelClaim | kernelExecute =>
    exact .move (by decide) (advanceWith_of_advance hstep) (.refl _)
  | dropCompleted =>
    exact .move (by decide) (advanceWith_of_advance (ite_none_right_eq_some.1 hstep).2) (.refl _)
  | removeCompleted | expireRemove now =>
    exact .move (by decide) (ite_none_right_eq_some.1 hstep).2 (.of_eq rfl rfl id)
  | closeServer => exact .move (by decide) hstep (.of_eq rfl rfl id)
  | violation | completeRollback | completeDiscarded | kernelReject =>
    exact .move (by decide) hstep (.of_edited (.completeFailure d.inv _ _ _))
  | kernelCancelled =>
    exact .move (by decide) (ite_none_right_eq_some.1 hstep).2
      (.of_edited (.completeFailure d.inv _ _ _))
  | kernelNoCaller | kernelRefuse error | kernelReply bytes resources error =>
    exact .move (by decide) hstep (.of_edited (.completeReply d.inv _ _ _))
  | expireRemoved => exact .move (by decide) hstep (.of_edited (.expireRemoved d.inv))
  | kernelMark =>
    exact .move (by decide) hstep (.markDispatched (h (advanceWith_eq_some hstep).1))
  | beginReceive =>
    refine .move ?_ hstep (.beginReceive d.inv)
    cases d.inv.beginReceive.value <;> decide
  | rollbackReceive =>
    refine .move ?_ hstep (.rollbackReceive d.inv)
    cases d.inv.rollbackReceive.value <;> decide
  | finishDispatch =>
    refine .move ?_ hstep (.finishDispatch d.inv)
    cases d.inv.finishDispatch.value <;> decide
  | commitClaim held =>
    rw [step] at hstep
    split at hstep
    · exact .move (by decide) (advanceWith_of_advance hstep) (.refl _)
    · exact .move (by decide) hstep (.of_edited (.completeFailure d.inv _ _ _))
  | kernelBegin =>
    -- The one way into the window of the worker, with the phase `receiving`.
    obtain ⟨-, rfl⟩ := advanceWith_eq_some hstep
    refine ⟨fun _ => .beginReceive d.inv, ?_⟩
    cases hval : d.inv.beginReceive.value with
    | true =>
      intro _
      simp [moveTo, publish, (beginReceive_true hval).2]
    | false => exact fun hb => absurd hb (by simp [moveTo])
  | expireInPlace now =>
    cases (ite_none_right_eq_some.1 hstep).2
    exact ⟨fun _ => .of_ended (.expireInPlace d.inv),
      h.stay rfl (harmless_expireInPlace d.inv).later⟩
  | cancel given =>
    cases hstep
    rw [cancel]
    split
    · exact ⟨fun _ => (Lawful.cancel d.inv _ _).trans_flags rfl rfl id,
        fun hb => absurd hb (by simp [moveTo])⟩
    · exact ⟨fun _ => .cancel d.inv _ _, h.stay rfl (harmless_cancel d.inv _ _).later⟩
  | abandonResponder =>
    cases hstep
    exact ⟨fun _ => .of_ended (.abandonResponder d.inv),
      h.stay rfl (harmless_abandonResponder d.inv).later⟩
  | consumeResponder =>
    cases hstep
    exact ⟨fun _ => .of_ended (.consumeResponder d.inv),
      h.stay rfl (harmless_consumeResponder d.inv).later⟩
  | closeClient =>
    cases hstep
    exact ⟨fun _ => .of_eq rfl rfl id, h.stay rfl (.inl rfl)⟩
  | reply bytes resources =>
    cases hstep
    exact .edit h rfl (.completeReply d.inv _ _ _)
  | fail outcome reason error =>
    cases hstep
    exact .edit h rfl (.completeFailure d.inv _ _ _)
  | claimResult now bytes resources =>
    cases hstep
    exact .edit h rfl (.claimResult d.inv now bytes resources)
  | restoreResult bytes resources =>
    cases hstep
    exact .edit h rfl (.restoreResult d.inv bytes resources)
  | commitResult =>
    cases hstep
    exact ⟨fun hne => absurd rfl hne, h.stay rfl (harmless_commitResult d.inv).later⟩

/-- **Every section is lawful**, `commit_result` apart. -/
theorem lawful_step (hbegun : d.Begun) (hstep : d.step a = some d') (hne : a ≠ .commitResult) :
    Lawful d.inv d'.inv := (orderly_step hbegun hstep).lawful hne

lemma moves_step (hbegun : d.Begun) (hstep : d.step a = some d') : Moves d.inv d'.inv := by
  by_cases hne : a = .commitResult
  · subst hne
    cases hstep
    exact moves_commitResult d.inv
  · exact (lawful_step hbegun hstep hne).toMoves

lemma firm_step (hbegun : d.Begun) (hstep : d.step a = some d')
    (h : d.inv.Settled ∨ d.inv.cancellationRequested = true) :
    d'.inv.Settled ∨ d'.inv.cancellationRequested = true := by
  by_cases hne : a = .commitResult
  · subst hne
    cases hstep
    rcases commitResult_spec d.inv with ⟨-, -, hconsumed, -⟩ | ⟨-, heq⟩
    · exact .inl (.inr hconsumed)
    · rw [heq]
      exact h
  · have hlawful := lawful_step hbegun hstep hne
    exact h.imp hlawful.toMoves.settled hlawful.cancellation

end Delivery

/-! ## Replies -/

/-- What a call of the replier has returned.  `late` says that the call came to the
invocation and found an outcome there, and `kept` that the sources of its moves are in the
table as they were. -/
structure Answer where
  late : Bool
  status : Status
  kept : Bool
  deriving DecidableEq, Repr

inductive ReplyStage where
  /-- `responder_reply` before `take_native_batch`. -/
  | taking (ds : List Disposition) (allocated : Bool)
  /-- `responder_reply` before `complete_reply`. -/
  | completing
  /-- `responder_reply` before `restore_native_batch`. -/
  | restoring (late : Bool)
  /-- `responder_fail` before `complete_failure`. -/
  | failing (outcome : Execution) (reason : Reason) (error : ℤ)
  /-- Before `consume`. -/
  | consuming
  | closing (answer : Answer)
  deriving DecidableEq

/-- A call of `responder_reply` or `responder_fail`.  No operation reads `sources`, the
entries that the batch moves. -/
structure ReplyCall where
  responder : Handle
  bytes : List (BitVec 8) := []
  records : List TransferRecord := []
  sources : List (Handle × Entry) := []
  stage : ReplyStage
  deriving DecidableEq

def moveSources (t : ResourceTable) (ds : List Disposition) : List (Handle × Entry) :=
  ds.filterMap fun d =>
    if d.operation = .move then (t.get d.handle).map fun e => (d.handle, e) else none

def keptIn (t : ResourceTable) (sources : List (Handle × Entry)) : Bool :=
  sources.all fun q => decide (t.get q.1 = some q.2)

def ReplyCall.held (r : ReplyCall) : List Handle :=
  match r.stage with
  | .completing | .restoring _ => heldHandles r.records
  | .taking _ _ | .failing _ _ _ | .consuming | .closing _ => []

/-- An invocation with the table of the replier, and the call that is followed.  The last
three fields are the history. -/
structure Life where
  id : ℕ
  delivery : Delivery
  table : ResourceTable := {}
  reply : Option ReplyCall := none
  answers : List Answer := []
  publications : ℕ := 0
  commits : ℕ := 0

inductive LifeAction where
  | run (a : DeliveryAction)
  | table (st : TableStep)
  /-- `responder_reply`: the lookup of the responder and the limits of the response. -/
  | reply (responder : Handle) (bytes : List (BitVec 8)) (ds : List Disposition) (allocated : Bool)
  /-- `responder_fail`: the lookup of the responder and the checks of the frame. -/
  | fail (responder : Handle) (outcome : Execution) (reason : Reason) (error : ℤ)
  | advance

def DeliveryAction.commits (s : InvocationState) : DeliveryAction → ℕ
  | .commitResult => if s.commitResult.value.1 = .ok then 1 else 0
  | _ => 0

namespace Life

variable (l : Life)

def held : List Handle := l.reply.elim [] ReplyCall.held

def namesResponder (h : Handle) : Bool :=
  match l.table.lookupNative h with
  | some e => decide (e.info.binding = .responder) && decide (e.object = some (.responder l.id))
  | none => false

/-- The invocation goes on, and the count of the published outcomes with it. -/
def observe (d : Delivery) : Life :=
  { l with
    delivery := d
    publications := l.publications + if !l.delivery.completed && d.completed then 1 else 0 }

def proceed (r : ReplyCall) (stage : ReplyStage) : Life :=
  { l with reply := some { r with stage := stage } }

def answer (a : Answer) : Life := { l with reply := none, answers := l.answers ++ [a] }

def advance (r : ReplyCall) : Life :=
  match r.stage with
  | .taking ds allocated =>
    let o := takeNativeBatch 0 l.table ds r.responder allocated
    let sources := moveSources l.table ds
    let l' := { l with table := o.table }
    if o.value.1 = .ok then
      l'.proceed { r with records := o.value.2, sources := sources } .completing
    else l'.answer ⟨false, o.value.1, keptIn o.table sources⟩
  | .completing =>
    let o := l.delivery.inv.completeReply r.bytes r.records 0
    if o.value then
      -- The batch is committed with the lock of the invocation held.
      let batch := commitNativeBatch 0 l.table r.records
      let inv := { o.state with responseResources := batch.value }
      { l.observe { l.delivery with inv := inv } with table := batch.table }.proceed r .consuming
    else l.proceed r (.restoring l.delivery.completed)
  | .restoring late =>
    let o := restoreNativeBatch 0 l.table r.records
    let status := if o.value.1 = .ok then .peerClosed else o.value.1
    -- The responder, which is closed next, is none of the sources.
    let kept := keptIn o.table r.sources && r.sources.all fun q => q.1 != r.responder
    { l with table := o.table }.proceed r (.closing ⟨late, status, kept⟩)
  | .failing outcome reason error =>
    let o := l.delivery.inv.completeFailure outcome reason error
    if o.value then (l.observe { l.delivery with inv := o.state }).proceed r .consuming
    else l.proceed r (.closing ⟨l.delivery.completed, .peerClosed, true⟩)
  | .consuming =>
    let inv := l.delivery.inv.consumeResponder.state
    (l.observe { l.delivery with inv := inv }).proceed r (.closing ⟨false, .ok, false⟩)
  | .closing a => { l with table := (l.table.closeNative r.responder).table }.answer a

/-- The step function.  A call starts on a handle of this invocation's responder, and one
call is followed at a time. -/
def step : LifeAction → Option Life
  | .run a =>
    (l.delivery.step a).map fun d =>
      { l.observe d with commits := l.commits + a.commits l.delivery.inv }
  | .table st =>
    if st.Respects l.table l.held then some { l with table := st.apply l.table } else none
  | .reply h bytes ds allocated =>
    if l.reply.isSome || !l.namesResponder h then none
    else if l.delivery.inv.responseWithinLimits bytes.length ds.length then
      some { l with reply := some ⟨h, bytes, [], [], .taking ds allocated⟩ }
    else some (l.answer ⟨false, .invalidMessage, keptIn l.table (moveSources l.table ds)⟩)
  | .fail h outcome reason error =>
    if l.reply.isSome || !l.namesResponder h then none
    else if validFailure outcome reason && decide (error ≤ 0) &&
        decide (-(2 ^ 31 - 1) ≤ error) then
      some { l with reply := some { responder := h, stage := .failing outcome reason error } }
    else some (l.answer ⟨false, .invalidArgument, true⟩)
  | .advance => l.reply.map l.advance

end Life

/-- The state after `invoke_submit` has created an invocation: its limits and deadline, and
the request on its way to a queue. -/
def Life.start (id : ℕ) (route : Route) (deadline : Option ℕ) (owner : ℕ)
    (maxBytes maxResources : ℕ) : Life where
  id := id
  delivery :=
    { submitted route deadline owner with
      inv :=
        { (submitted route deadline owner).inv with
          maxResponseBytes := maxBytes
          maxResponseResources := maxResources } }

/-- A call that found an outcome has returned `NA_STATUS_PEER_CLOSED`, and a call that has
not succeeded has left the sources of its moves in the table. -/
structure Answer.Fair (a : Answer) : Prop where
  late : a.late = true → a.status = .peerClosed
  kept : a.status ≠ .ok → a.kept = true

/-- **The history is sound**: an outcome was published once if there is one, the result was
committed once if it is consumed, and the answers to the replier are fair. -/
structure Life.Sound (l : Life) : Prop where
  published : l.publications = if l.delivery.completed then 1 else 0
  committed : l.commits = if l.delivery.inv.phase = .consumed then 1 else 0
  fair : ∀ a ∈ l.answers, a.Fair

/-! ## A call of the replier -/

/-- The batch that a call has taken can be put back: its handles are free and were given
out, and the nodes are the entries that the batch has moved. -/
structure ReplyCall.Restorable (t : ResourceTable) (r : ReplyCall) : Prop where
  intact : Intact 0 r.records
  nodup : (heldHandles r.records).Nodup
  free : ∀ h ∈ heldHandles r.records, h ∉ t.nativeHandleMap ∧ h < t.handleBound
  sources : ∀ q ∈ r.sources, q ∈ heldNodes r.records ∧ q.1 ≠ r.responder

def ReplyCall.Ready (t : ResourceTable) (r : ReplyCall) : Prop :=
  match r.stage with
  | .completing | .restoring _ => r.Restorable t
  | .closing a => a.Fair
  | .taking _ _ | .failing _ _ _ | .consuming => True

lemma ReplyCall.Restorable.keeps (h : r.Restorable t) (hkeep : Keeps named t t')
    (hnamed : ∀ k ∈ named, k ∉ heldHandles r.records) : r.Restorable t' where
  intact := h.intact
  nodup := h.nodup
  free k hk := ⟨hkeep.gone k (h.free k hk).2 (h.free k hk).1 fun hmem => hnamed k hmem hk,
      (h.free k hk).2.trans_le hkeep.grows⟩
  sources := h.sources

lemma ReplyCall.Ready.keeps (h : r.Ready t) (hkeep : Keeps named t t')
    (hnamed : ∀ k ∈ named, k ∉ r.held) :
    r.Ready t' := by
  rw [ReplyCall.Ready] at h ⊢
  rw [ReplyCall.held] at hnamed
  cases hstage : r.stage with
  | completing | restoring late =>
    rw [hstage] at h hnamed
    exact ReplyCall.Restorable.keeps h hkeep hnamed
  | closing a =>
    rw [hstage] at h
    exact h
  | taking ds allocated | failing outcome reason error | consuming => trivial

lemma mem_moveSources {q : Handle × Entry} : q ∈ moveSources t ds ↔
      ∃ d ∈ ds, d.operation = .move ∧ d.handle = q.1 ∧ t.get q.1 = some q.2 := by
  obtain ⟨h, e⟩ := q
  simp only [moveSources, List.mem_filterMap, ite_none_right_eq_some, map_eq_some_iff,
    Prod.mk.injEq]
  constructor
  · rintro ⟨d, hd, hop, e', hget, rfl, rfl⟩
    exact ⟨d, hd, hop, rfl, hget⟩
  · rintro ⟨d, hd, hop, rfl, hget⟩
    exact ⟨d, hd, hop, e, hget, rfl, rfl⟩

lemma keptIn_moveSources (t : ResourceTable) (ds : List Disposition) :
    keptIn t (moveSources t ds) = true := by
  refine List.all_eq_true.2 fun q hq => ?_
  obtain ⟨-, -, -, -, hget⟩ := mem_moveSources.1 hq
  exact decide_eq_true hget

lemma ReplyCall.restorable_take (ht : t.Issued) {allocated : Bool}
    (hok : (takeNativeBatch 0 t ds r.responder allocated).value.1 = .ok) :
    { r with
      records := (takeNativeBatch 0 t ds r.responder allocated).value.2
      sources := moveSources t ds
      stage := .completing : ReplyCall }.Restorable
      (takeNativeBatch 0 t ds r.responder allocated).table := by
  have hintact := intact_take hok
  obtain ⟨es, hfst, hall, hnodup, heq⟩ := takeNativeBatch_ok hok
  obtain ⟨hkeys, hents⟩ := heldNodes_recordsOf 0 hall
  rw [heq] at hintact ⊢
  refine ⟨hintact, hkeys ▸ nodup_movedHandles hnodup, ?_, ?_⟩
  · intro h hh
    have hmoved : h ∈ movedHandles es := hkeys ▸ hh
    obtain ⟨p, hp, -, rfl⟩ := mem_movedHandles.1 hmoved
    obtain ⟨e₀, hlook, -⟩ := (hall p hp).entry
    refine ⟨fun hmem => (Assoc.mem_eraseAll.1 hmem).1 hmoved, ?_⟩
    exact ht.below _ (ResourceTable.mem_of_get (ResourceTable.lookupNative_eq_some.1 hlook).1)
  · intro q hq
    obtain ⟨d, hd, hop, hhandle, hget⟩ := mem_moveSources.1 hq
    rw [← hfst] at hd
    obtain ⟨p, hp, rfl⟩ := List.mem_map.1 hd
    have hmoved : q.1 ∈ movedHandles es := mem_movedHandles.2 ⟨p, hp, hop, hhandle⟩
    rw [← hkeys] at hmoved
    obtain ⟨q', hq', hfst'⟩ := List.mem_map.1 hmoved
    have hget' := hents q' hq'
    rw [hfst', hget, Option.some.injEq] at hget'
    have hqq : q' = q := Prod.ext hfst' hget'.symm
    exact ⟨hqq ▸ hq', fun hr => (hall p hp).handle_ne_target (hhandle.trans hr)⟩

/-- **A batch that can be put back is put back.** -/
theorem ReplyCall.Restorable.restore (h : r.Restorable t) :
    (restoreNativeBatch 0 t r.records).value.1 = .ok ∧
      keptIn (restoreNativeBatch 0 t r.records).table r.sources = true := by
  have hfree : ∀ k ∈ heldHandles r.records, k ∉ t.nativeHandleMap := fun k hk => (h.free k hk).1
  rw [restoreNativeBatch_ok (h.intact.restorable_of_free hfree) h.nodup hfree]
  refine ⟨rfl, List.all_eq_true.2 fun q hq => decide_eq_true ?_⟩
  exact Assoc.lookup_insertAll_of_mem h.nodup (h.sources q hq).1 _

/-! ## Runs -/

lemma Delivery.completed_iff {d : Delivery} : d.completed = true ↔ d.inv.Settled := by
  simp [completed, InvocationState.Settled]

namespace Life

variable {l l' : Life} {d : Delivery} {r : ReplyCall}

structure Inv (l : Life) : Prop where
  begun : l.delivery.Begun
  issued : l.table.Issued
  sound : l.Sound
  call : ∀ r, l.reply = some r → r.Ready l.table

lemma Sound.publications_observe (h : l.Sound) (hmoves : Moves l.delivery.inv d.inv) :
    (l.observe d).publications = if d.completed then 1 else 0 := by
  have hstays : l.delivery.completed = true → d.completed = true := fun hc =>
    completed_iff.2 (hmoves.settled (completed_iff.1 hc))
  rw [observe]
  rw [h.published]
  cases hc : l.delivery.completed
  · simp
  · simp [hstays hc]

lemma Sound.observe (h : l.Sound) (hlawful : Lawful l.delivery.inv d.inv) :
    (l.observe d).Sound where
  published := h.publications_observe hlawful.toMoves
  committed := by
    have hiff : d.inv.phase = .consumed ↔ l.delivery.inv.phase = .consumed :=
      ⟨hlawful.consumed, hlawful.toMoves.consumed⟩
    have hcount : (l.observe d).commits = l.commits := rfl
    have hdelivery : (l.observe d).delivery = d := rfl
    rw [hcount, hdelivery, h.committed, if_congr hiff rfl rfl]
  fair := h.fair

lemma Sound.commits_commitResult (h : l.Sound) :
    l.commits + DeliveryAction.commits l.delivery.inv .commitResult =
      if l.delivery.inv.commitResult.state.phase = .consumed then 1 else 0 := by
  rw [DeliveryAction.commits, h.committed]
  rcases commitResult_spec l.delivery.inv with ⟨hok, hready, hconsumed, -⟩ | ⟨hnot, heq⟩
  · simp [hok, hready, hconsumed]
  · rw [heq, if_neg hnot, Nat.add_zero]

variable {a : DeliveryAction} {t : ResourceTable} {stage : ReplyStage} {actions : List LifeAction}

lemma DeliveryAction.commits_of_ne (hne : a ≠ .commitResult) (s : InvocationState) :
    a.commits s = 0 := by
  cases a <;> first | rfl | exact absurd rfl hne

lemma Sound.run (h : l.Sound) (hbegun : l.delivery.Begun) (hstep : l.delivery.step a = some d) :
    { l.observe d with commits := l.commits + a.commits l.delivery.inv }.Sound := by
  by_cases hne : a = .commitResult
  · subst hne
    have hmoves := moves_step hbegun hstep
    cases hstep
    exact ⟨h.publications_observe hmoves, h.commits_commitResult, h.fair⟩
  · have hobs := h.observe (lawful_step hbegun hstep hne)
    rw [DeliveryAction.commits_of_ne hne, Nat.add_zero]
    exact ⟨hobs.published, hobs.committed, hobs.fair⟩

lemma Sound.answer (h : l.Sound) {a : Answer} (ha : a.Fair) : (l.answer a).Sound where
  published := h.published
  committed := h.committed
  fair b hb := by
    rcases List.mem_append.1 hb with hb | hb
    · exact h.fair b hb
    · rw [List.mem_singleton.1 hb]
      exact ha

lemma Inv.answer (h : l.Inv) (ht : t.Issued) {a : Answer} (ha : a.Fair) :
    ({ l with table := t }.answer a).Inv where
  begun := h.begun
  issued := ht
  sound :=
    have hs : { l with table := t }.Sound := ⟨h.sound.published, h.sound.committed, h.sound.fair⟩
    hs.answer ha
  call r hr := absurd hr (by simp [Life.answer])

lemma Inv.proceed (h : l.Inv) (ht : t.Issued)
    (hready : { r with stage := stage : ReplyCall }.Ready t) :
    ({ l with table := t }.proceed r stage).Inv where
  begun := h.begun
  issued := ht
  sound := ⟨h.sound.published, h.sound.committed, h.sound.fair⟩
  call r' hr' := by
    obtain rfl := some.inj hr'
    exact hready

lemma Inv.proceed_observe (h : l.Inv) {s : InvocationState} (ht : t.Issued)
    (hlater : Later l.delivery.inv s) (hlawful : Lawful l.delivery.inv s)
    (hready : { r with stage := stage : ReplyCall }.Ready t) :
    ({ l.observe { l.delivery with inv := s } with table := t }.proceed r stage).Inv where
  begun := h.begun.stay rfl hlater
  issued := ht
  sound :=
    have hs := h.sound.observe (d := { l.delivery with inv := s }) hlawful
    ⟨hs.published, hs.committed, hs.fair⟩
  call r' hr' := by
    obtain rfl := some.inj hr'
    exact hready

lemma inv_advance (h : l.Inv) (hr : r.Ready l.table) : (l.advance r).Inv := by
  have ht := h.issued
  rw [advance]
  rw [ReplyCall.Ready] at hr
  cases hstage : r.stage with
  | taking ds allocated =>
    dsimp only
    have hkeep : Keeps [] l.table _ := Keeps.takeNativeBatch ht 0 ds r.responder allocated
    split
    next hok => exact h.proceed hkeep.issued (ReplyCall.restorable_take ht hok)
    next hbad =>
      refine h.answer hkeep.issued ⟨by simp, fun _ => ?_⟩
      rw [takeNativeBatch_error hbad]
      exact keptIn_moveSources l.table ds
  | completing =>
    rw [hstage] at hr
    dsimp only
    split
    · have hkeep : Keeps [] l.table _ := Keeps.commitNativeBatch ht 0 r.records
      have hlater := Later.of_edited (.completeReply l.delivery.inv r.bytes r.records 0)
      exact h.proceed_observe hkeep.issued hlater
        (Lawful.completeReply_commit l.delivery.inv _ _ _ _) trivial
    · exact h.proceed ht ⟨hr.intact, hr.nodup, hr.free, hr.sources⟩
  | restoring late =>
    rw [hstage] at hr
    have hback := fun k hk => (hr.free k hk).2
    have hkeep := Keeps.restoreNativeBatch ht 0 hback
    obtain ⟨hok, hkept⟩ := hr.restore
    refine h.proceed hkeep.issued ?_
    have hresponder : (r.sources.all fun q => q.1 != r.responder) = true :=
      List.all_eq_true.2 fun q hq => bne_iff_ne.2 (hr.sources q hq).2
    exact ⟨fun _ => if_pos hok, fun _ => Bool.and_eq_true_iff.2 ⟨hkept, hresponder⟩⟩
  | failing outcome reason error =>
    dsimp only
    split
    · exact h.proceed_observe ht (Later.of_edited (.completeFailure l.delivery.inv _ _ _))
        (Lawful.of_edited (.completeFailure l.delivery.inv _ _ _)) trivial
    · exact h.proceed ht ⟨fun _ => rfl, fun _ => rfl⟩
  | consuming =>
    have hfair : Answer.Fair ⟨false, .ok, false⟩ := ⟨by simp, fun hne => absurd rfl hne⟩
    exact h.proceed_observe ht (harmless_consumeResponder l.delivery.inv).later
      (Lawful.of_ended (.consumeResponder l.delivery.inv)) hfair
  | closing a =>
    rw [hstage] at hr
    have hkeep : Keeps [] l.table _ := TableOp.keeps ht (.close r.responder)
    exact h.answer hkeep.issued hr

/-- **A section keeps the invariant.** -/
theorem inv_step {a : LifeAction} (h : l.Inv) (hstep : l.step a = some l') : l'.Inv := by
  cases a with
  | run a =>
    obtain ⟨d, hd, rfl⟩ := map_eq_some_iff.1 hstep
    exact ⟨(orderly_step h.begun hd).begun, h.issued, h.sound.run h.begun hd, h.call⟩
  | table st =>
    obtain ⟨hst, hstep⟩ := ite_none_right_eq_some.1 hstep
    cases hstep
    have hkeep := st.keeps h.issued hst.2
    refine ⟨h.begun, hkeep.issued, ⟨h.sound.published, h.sound.committed, h.sound.fair⟩, ?_⟩
    intro r hr
    refine (h.call r hr).keeps hkeep fun k hk hheld => hst.1 k hk ?_
    rw [held, hr]
    exact hheld
  | reply responder bytes ds allocated =>
    rw [step] at hstep
    split at hstep
    · simp at hstep
    split at hstep
    · cases hstep
      exact h.proceed (r := ⟨responder, bytes, [], [], .taking ds allocated⟩) h.issued trivial
    · cases hstep
      exact h.answer h.issued ⟨by simp, fun _ => keptIn_moveSources l.table ds⟩
  | fail responder outcome reason error =>
    rw [step] at hstep
    split at hstep
    · simp at hstep
    split at hstep
    · cases hstep
      exact h.proceed (r := { responder := responder, stage := .failing outcome reason error })
        h.issued trivial
    · cases hstep
      exact h.answer h.issued ⟨by simp, fun _ => rfl⟩
  | advance =>
    obtain ⟨r, hr, rfl⟩ := map_eq_some_iff.1 hstep
    exact inv_advance h (h.call r hr)

lemma inv_start (id : ℕ) (route : Route) (deadline : Option ℕ) (owner maxBytes maxResources : ℕ) :
    (start id route deadline owner maxBytes maxResources).Inv where
  begun hb := absurd hb (by simp [start, submitted])
  issued :=
    { next_lt := by simp [start]
      below := fun h hh => absurd hh (AList.notMem_empty h) }
  sound := ⟨rfl, rfl, by simp [start]⟩
  call r hr := absurd hr (by simp [start])

lemma moves_advance (l : Life) (r : ReplyCall) :
    Moves l.delivery.inv (l.advance r).delivery.inv := by
  have hrefl : Moves l.delivery.inv l.delivery.inv := (Lawful.refl _).toMoves
  rw [advance]
  split
  · dsimp only
    split <;> exact hrefl
  · dsimp only
    split
    · exact (Lawful.completeReply_commit l.delivery.inv _ _ _ _).toMoves
    · exact hrefl
  · exact hrefl
  · dsimp only
    split
    · exact (Lawful.of_edited (.completeFailure l.delivery.inv _ _ _)).toMoves
    · exact hrefl
  · exact (Lawful.of_ended (.consumeResponder l.delivery.inv)).toMoves
  · exact hrefl

lemma moves_step {a : LifeAction} (hbegun : l.delivery.Begun) (hstep : l.step a = some l') :
    Moves l.delivery.inv l'.delivery.inv := by
  have hrefl : Moves l.delivery.inv l.delivery.inv := (Lawful.refl _).toMoves
  cases a with
  | run a =>
    obtain ⟨d, hd, rfl⟩ := map_eq_some_iff.1 hstep
    exact moves_step hbegun hd
  | table st =>
    cases (ite_none_right_eq_some.1 hstep).2
    exact hrefl
  | reply responder bytes ds allocated | fail responder outcome reason error =>
    rw [step] at hstep
    repeat' split at hstep
    all_goals cases hstep
    all_goals exact hrefl
  | advance =>
    obtain ⟨r, -, rfl⟩ := map_eq_some_iff.1 hstep
    exact moves_advance l r

/-- **A published outcome stays**: no run overwrites it. -/
theorem outcome_of_exec (h : l.Inv) (hc : l.delivery.completed = true)
    (hrun : exec step l actions = some l') :
    l'.delivery.completed = true ∧ l'.delivery.inv.outcome = l.delivery.inv.outcome := by
  have hinv : l'.Inv ∧ l'.delivery.inv.Settled ∧
      l'.delivery.inv.outcome = l.delivery.inv.outcome := by
    refine exec_invariant (I := fun m => m.Inv ∧ m.delivery.inv.Settled ∧
      m.delivery.inv.outcome = l.delivery.inv.outcome) ?_
      ⟨h, completed_iff.1 hc, rfl⟩ hrun
    rintro m a m' ⟨hm, hsettled, houtcome⟩ hstep
    have hmoves := moves_step hm.begun hstep
    exact ⟨inv_step hm hstep, hmoves.settled hsettled, (hmoves.outcome hsettled).trans houtcome⟩
  exact ⟨completed_iff.2 hinv.2.1, hinv.2.2⟩

/-- **The life of an invocation.**  In every interleaving, the phase moves along the edges,
at most one outcome is published and it stays as it is, the result is committed at most
once, a call of the replier that finds an outcome returns `NA_STATUS_PEER_CLOSED`, and a
call that does not succeed leaves the sources of its moves in the table. -/
theorem lawful_of_exec (id : ℕ) (route : Route) (deadline : Option ℕ)
    (owner maxBytes maxResources : ℕ) {actions : List LifeAction}
    (hrun : exec step (start id route deadline owner maxBytes maxResources) actions = some l) :
    l.Sound ∧ (∀ a l', l.step a = some l' → Moves l.delivery.inv l'.delivery.inv) ∧
      (l.delivery.completed = true → ∀ later l', exec step l later = some l' →
        l'.delivery.completed = true ∧ l'.delivery.inv.outcome = l.delivery.inv.outcome) := by
  have hinv : l.Inv := exec_invariant (fun _ _ _ hs hstep => inv_step hs hstep)
      (inv_start id route deadline owner maxBytes maxResources) hrun
  exact ⟨hinv.sound, fun _ _ hstep => moves_step hinv.begun hstep, fun hc _ _ hlater =>
    outcome_of_exec hinv hc hlater⟩

/-- The replier holds the responder under handle 1 and a file under handle 2, and the call is
dispatched. -/
def dispatchedCall : List LifeAction :=
  [.table (.op (.install (some (.responder 5)) { binding := .responder })),
    .table (.op (.install (some (.plain .file 3)) { metaRights := rightTransfer })),
    .run (.submit true), .run .claim, .run .beginReceive, .run .finishDispatch,
    .run (.commitClaim true)]

/-- A reply after the deadline: it takes the file, finds the outcome, puts the file back and
closes the responder. -/
def lateReply : List LifeAction :=
  dispatchedCall ++
    [.run (.expireInPlace 40), .reply 1 [7] [{ handle := 2, operation := .move }] true, .advance,
      .advance, .advance, .advance]

/-- The reply is answered with `NA_STATUS_PEER_CLOSED`, and the file is still there. -/
theorem lawful_lateReply : (exec step (start 5 .protocol (some 40) 9 64 4) lateReply).map
        (fun l => (l.answers, (l.table.get 2).isSome, l.publications))
        = some ([⟨true, .peerClosed, true⟩], true, 1) ∧
      ∀ l, exec step (start 5 .protocol (some 40) 9 64 4) lateReply = some l → l.Sound :=
  ⟨by decide, fun _ hrun => (lawful_of_exec 5 .protocol (some 40) 9 64 4 hrun).1⟩

def malformedReply : List LifeAction :=
  [.reply 1 [] [{ handle := 8, operation := .move }] true, .advance]

/-- A malformed reply is refused for what is wrong with it, although there is an outcome, and a
call whose client has closed never gets an outcome. -/
theorem refused_malformedReply : ∃ l l', exec step (start 5 .protocol (some 40) 9 64 4)
          (dispatchedCall ++ [.run (.expireInPlace 40)]) = some l ∧
      l.delivery.completed = true ∧ l.answers = [] ∧
      exec step l malformedReply = some l' ∧
      l'.answers.map Answer.status = [.invalidHandle] ∧
    (exec step (start 5 .protocol (some 40) 9 64 4)
        (dispatchedCall ++ [.run .closeClient, .run (.expireInPlace 40),
          .fail 1 .outcomeUnknown .unsupported 0, .advance, .advance])).map
      (fun l => (l.answers.map Answer.status, l.publications)) = some ([.peerClosed], 0) :=
  ⟨_, _, rfl, by decide, by decide, rfl, by decide, by decide⟩

end Life

end Naos.Ipc
