import Naos.Ipc.Delivery

/-!
# Cancelling a request that is claimed

`cancel` takes a queued request out of its queue and publishes the outcome.  The head of a
queue that a receiver has claimed cannot be taken out: `cancel` then only sets
`cancellation_requested_` and leaves the rest to the receiver.  A receiver that goes on finds
the flag in `begin_receive`, and one that gives up after `begin_receive` finds it in
`rollback_receive`.  A receiver that gives up before, because its buffer is too small or its
arguments are wrong, calls `cancel_claim` alone, which does not look at the flag.

The calls of a server are those of `Delivery`, any number of them, with their sections in any
order.  A request may be claimed here while another one is; the real queue only allows the
head.
-/

namespace Naos.Ipc

open Function Transition

/-- A cancellation was requested, and the call is still queued. -/
def InvocationState.cancelPending (s : InvocationState) : Bool :=
  s.cancellationRequested && s.phase == .queued

def Stage.claims : Stage → Bool
  | .claimed | .receiving | .rolledBack | .finishing => true
  | _ => false

abbrev Calls := ℕ → Delivery

def Calls.step (c : Calls) (a : ℕ × DeliveryAction) : Option Calls :=
  ((c a.1).step a.2).map fun d => update c a.1 d

def Calls.submitted (route : ℕ → Route) (deadline : ℕ → Option ℕ) (owner : ℕ → ℕ) : Calls :=
  fun i => Naos.Ipc.submitted (route i) (deadline i) (owner i)

/-- **No cancellation is lost**: when no request is claimed, no request in the queue has a
cancellation nobody has acted on. -/
def CancellationHeeded (c : Calls) : Prop :=
  (∀ i, (c i).stage.claims = false) → ∀ i, (c i).stage = .waiting → (c i).inv.cancelPending = false

/-- The request of a cancelled call is not put into the queue, and its claim is not given
back. -/
def Calls.mindful (c : Calls) : ℕ × DeliveryAction → Bool
  | (i, .cancelClaim) | (i, .submit true) => !(c i).inv.cancelPending
  | _ => true

/-! ## What a section does to a pending cancellation -/

/-- A section keeps the owner of the queue and adds no pending cancellation. -/
structure Unrelated (s s' : InvocationState) : Prop where
  owner : s'.queueOwner = s.queueOwner
  pending : s'.cancelPending = true → s.cancelPending = true

namespace Unrelated

variable {s s' : InvocationState}

lemma refl (s : InvocationState) : Unrelated s s := ⟨rfl, id⟩

lemma of_phase (howner : s'.queueOwner = s.queueOwner)
    (hflag : s'.cancellationRequested = s.cancellationRequested)
    (hphase : s'.phase = .queued → s.phase = .queued) : Unrelated s s' := by
  refine ⟨howner, ?_⟩
  simp only [InvocationState.cancelPending, Bool.and_eq_true, beq_iff_eq, hflag]
  exact fun h => ⟨h.1, hphase h.2⟩

lemma of_edited (h : Edited s s') : Unrelated s s' := by
  cases h with
  | same => exact refl s
  | publish => exact of_phase rfl rfl nofun
  | result => exact ⟨rfl, id⟩

lemma of_ended (h : Ended s s') : Unrelated s s' := by
  obtain ⟨alive, h⟩ := h
  exact ⟨(of_edited h).owner, (of_edited h).pending⟩

lemma closeClient (s : InvocationState) : Unrelated s s.closeClient.state := ⟨rfl, id⟩

lemma commitResult (s : InvocationState) : Unrelated s s.commitResult.state := by
  rw [InvocationState.commitResult]
  split
  · exact refl s
  · exact of_phase rfl rfl (by simp)

end Unrelated

/-! ## One call -/

namespace Delivery

variable {d d' : Delivery} {s : InvocationState}

def hasOwner (d : Delivery) : Bool :=
  match d.stage with
  | .waiting | .claimed | .receiving | .rolledBack => true
  | .submitting => d.route == .protocol
  | _ => false

/-- A waiting request has no pending cancellation, and the call knows its queue as long as
the request can be in it. -/
structure Heeded (d : Delivery) : Prop where
  waiting : d.stage = .waiting → d.inv.cancelPending = false
  owner : d.hasOwner = true → d.inv.queueOwner.isSome = true

lemma Heeded.unrelated (h : d.Heeded) (hs : Unrelated d.inv s) : (d.publish s).Heeded where
  waiting hstage := by
    have hbefore := h.waiting hstage
    cases hpending : (d.publish s).inv.cancelPending with
    | false => rfl
    | true => rw [hs.pending hpending] at hbefore; exact hbefore
  owner howner := by
    have hbefore := h.owner howner
    rw [← hs.owner] at hbefore
    exact hbefore

lemma heeded_of_gone (hstage : d.stage ≠ .waiting) (howner : d.hasOwner = false) :
    d.Heeded := ⟨fun h => absurd h hstage, fun h => by rw [howner] at h; cases h⟩

variable {source target : Stage}

lemma Heeded.leave (hstep : d.advanceWith source target s = some d') (hw : target ≠ .waiting)
    (ho : ({ d with stage := target } : Delivery).hasOwner = false) : d'.Heeded := by
  obtain ⟨-, rfl⟩ := advanceWith_eq_some hstep
  exact heeded_of_gone hw ho

lemma hasOwner_of_stage {stage : Stage} (hstage : d.stage = stage)
    (hqueue : stage = .waiting ∨ stage.claims = true ∧ stage ≠ .finishing) :
    d.hasOwner = true := by
  rw [hasOwner, hstage]
  rcases hqueue with rfl | ⟨hclaims, hne⟩
  · rfl
  · cases stage <;> simp_all [Stage.claims]

lemma Heeded.stay (h : d.Heeded) (hstep : d.advanceWith source target s = some d')
    (hqueue : source.claims = true ∧ source ≠ .finishing) (hw : target ≠ .waiting)
    (hs : s.queueOwner = d.inv.queueOwner) : d'.Heeded := by
  obtain ⟨hstage, rfl⟩ := advanceWith_eq_some hstep
  refine ⟨fun hwait => absurd hwait hw, fun _ => ?_⟩
  have hbefore := h.owner (hasOwner_of_stage hstage (.inr hqueue))
  rw [← hs] at hbefore
  exact hbefore

lemma queueOwner_beginReceive (s : InvocationState) :
    s.beginReceive.state.queueOwner = s.queueOwner := by
  rw [InvocationState.beginReceive]
  split
  · rfl
  · split
    · exact (Unrelated.of_edited (.publishEmpty s _ _)).owner
    · rfl

lemma queueOwner_rollbackReceive (s : InvocationState) :
    s.rollbackReceive.state.queueOwner = s.queueOwner := by
  rw [InvocationState.rollbackReceive]
  split <;> rfl

/-- A request that waits in its queue is taken out by `cancel`, and one that does not is not
made to wait. -/
lemma Heeded.cancel (h : d.Heeded) (given : Bool) : (d.cancel given).Heeded := by
  have howner : ∀ owned removed, (d.inv.cancel owned removed).state.queueOwner =
      d.inv.queueOwner := by
    intro owned removed
    rw [InvocationState.cancel]
    split
    · dsimp only
      split
      · rfl
      · exact (Unrelated.of_edited
          (.publishEmpty { d.inv with cancellationRequested := true } _ _)).owner
    · rfl
    · rfl
    · rfl
    · rfl
  rw [Delivery.cancel]
  split
  · exact heeded_of_gone (fun h => by cases h) rfl
  rename_i hnot
  refine ⟨fun hstage => ?_, fun hown => ?_⟩
  · -- the phase of a waiting request that stays is not `queued`
    have hstage' : d.stage = .waiting := hstage
    have hsome := h.owner (hasOwner_of_stage hstage' (.inl rfl))
    have hphase : d.inv.phase ≠ .queued := by
      intro hphase
      rw [hsome, hstage', hphase] at hnot
      simp at hnot
    have hkeep : ∀ owned removed, (d.inv.cancel owned removed).state.phase = d.inv.phase := by
      intro owned removed
      rw [InvocationState.cancel]
      split <;> first | rfl | contradiction
    simp only [publish, InvocationState.cancelPending, hkeep]
    simp [hphase]
  · have hbefore := h.owner hown
    rw [← howner] at hbefore
    exact hbefore

/-- **A section keeps it**, unless it puts a cancelled request into the queue. -/
theorem heeded_step {a : DeliveryAction} (h : d.Heeded)
    (hmindful : a = .cancelClaim ∨ a = .submit true → d.inv.cancelPending = false)
    (hstep : d.step a = some d') : d'.Heeded := by
  cases a with
  | submit accepted =>
    obtain ⟨hstage, rfl⟩ := advance_eq_some hstep
    cases accepted with
    | false => exact heeded_of_gone (fun h => by cases h) rfl
    | true =>
      simp only [if_true]
      split
      · exact heeded_of_gone (fun h => by cases h) rfl
      rename_i hroute
      have hprotocol : d.route = .protocol := by
        cases hr : d.route with
        | kernel => exact absurd hr hroute
        | protocol => rfl
      refine ⟨fun _ => hmindful (.inr rfl), fun _ => h.owner ?_⟩
      rw [hasOwner, hstage, hprotocol]
      rfl
  | removeCompleted | expireRemove now | kernelCancelled =>
    exact Heeded.leave (Option.ite_none_right_eq_some.1 hstep).2 (by simp) rfl
  | claim =>
    obtain ⟨hstage, rfl⟩ := advance_eq_some hstep
    exact ⟨(fun h => by cases h), fun _ => h.owner (hasOwner_of_stage hstage (.inl rfl))⟩
  | cancelClaim =>
    obtain ⟨hstage, rfl⟩ := advance_eq_some hstep
    exact ⟨fun _ => hmindful (.inl rfl),
      fun _ => h.owner (hasOwner_of_stage hstage (.inr ⟨rfl, by simp⟩))⟩
  | dropCompleted =>
    obtain ⟨-, rfl⟩ := advance_eq_some (Option.ite_none_right_eq_some.1 hstep).2
    exact heeded_of_gone (fun h => by cases h) rfl
  | violation | closeServer | completeDiscarded | expireRemoved | kernelNoCaller | kernelMark
  | kernelReject | kernelRefuse error | kernelReply bytes resources error =>
    exact Heeded.leave hstep (by simp) rfl
  | beginReceive =>
    simp only [step] at hstep
    split at hstep
    · exact h.stay hstep ⟨rfl, by simp⟩ (by simp) (queueOwner_beginReceive d.inv)
    · exact Heeded.leave hstep (by simp) rfl
  | rollbackReceive =>
    simp only [step] at hstep
    split at hstep <;>
      exact h.stay hstep ⟨rfl, by simp⟩ (by simp) (queueOwner_rollbackReceive d.inv)
  | completeRollback =>
    exact h.stay hstep ⟨rfl, by simp⟩ (by simp)
      (Unrelated.of_edited (.completeFailure d.inv _ _ _)).owner
  | finishDispatch | kernelBegin =>
    simp only [step] at hstep
    split at hstep <;> exact Heeded.leave hstep (by simp) rfl
  | commitClaim held =>
    simp only [step] at hstep
    split at hstep
    · obtain ⟨-, rfl⟩ := advance_eq_some hstep
      exact heeded_of_gone (fun h => by cases h) rfl
    · exact Heeded.leave hstep (by simp) rfl
  | expireInPlace now =>
    cases (Option.ite_none_right_eq_some.1 hstep).2
    exact h.unrelated (.of_ended (.expireInPlace d.inv))
  | cancel given =>
    cases hstep
    exact h.cancel given
  | kernelExecute =>
    obtain ⟨-, rfl⟩ := advance_eq_some hstep
    exact heeded_of_gone (fun h => by cases h) rfl
  | abandonResponder =>
    cases hstep
    exact h.unrelated (.of_ended (.abandonResponder d.inv))
  | consumeResponder =>
    cases hstep
    exact h.unrelated (.of_ended (.consumeResponder d.inv))
  | closeClient =>
    cases hstep
    exact h.unrelated (.closeClient d.inv)
  | reply bytes resources =>
    cases hstep
    have hs := h.unrelated (.of_edited (.completeReply d.inv bytes resources 0))
    exact ⟨hs.waiting, hs.owner⟩
  | fail outcome reason error =>
    cases hstep
    have hs := h.unrelated (.of_edited (.completeFailure d.inv outcome reason error))
    exact ⟨hs.waiting, hs.owner⟩
  | claimResult now bytes resources =>
    cases hstep
    exact h.unrelated (.of_edited (.claimResult d.inv now bytes resources))
  | restoreResult bytes resources =>
    cases hstep
    exact h.unrelated (.of_edited (.restoreResult d.inv bytes resources))
  | commitResult =>
    cases hstep
    exact h.unrelated (.commitResult d.inv)

lemma heeded_submitted (route : Route) (deadline : Option ℕ) (owner : ℕ) :
    (submitted route deadline owner).Heeded := by
  refine ⟨nofun, fun howner => ?_⟩
  cases route with
  | protocol => rfl
  | kernel => cases howner

end Delivery

/-! ## Runs -/

/-- **In every run in which no cancelled request is put into the queue or given back to it,
no cancellation is lost in any state reached.** -/
theorem cancellationHeeded_of_mindful (route : ℕ → Route) (deadline : ℕ → Option ℕ)
    (owner : ℕ → ℕ) (run : List (ℕ × DeliveryAction)) {c : Calls}
    (hmindful : Along Calls.step (fun c a => c.mindful a = true)
      (Calls.submitted route deadline owner) run)
    (hrun : exec Calls.step (Calls.submitted route deadline owner) run = some c) :
    CancellationHeeded c := by
  have hinv : ∀ i, (c i).Heeded := by
    refine exec_induct (I := fun c : Calls => ∀ i, (c i).Heeded) ?_
      (fun i => Delivery.heeded_submitted _ _ _) hmindful hrun
    rintro c ⟨i, a⟩ c' hc hok hstep j
    obtain ⟨d, hd, rfl⟩ := Option.map_eq_some_iff.1 hstep
    by_cases hj : j = i
    · subst hj
      rw [update_self]
      refine Delivery.heeded_step (hc j) ?_ hd
      rintro (rfl | rfl)
      · simpa [Calls.mindful] using hok
      · simpa [Calls.mindful] using hok
    · rw [update_of_ne hj]
      exact hc j
  exact fun _ i hstage => (hinv i).waiting hstage

def protocolCalls : Calls := Calls.submitted (fun _ => .protocol) (fun _ => none) fun _ => 0

/-- Two calls: one is claimed, cancelled while the receiver has it, and found cancelled; the
other one is cancelled in the queue. -/
def cancelledInTime : List (ℕ × DeliveryAction) :=
  [(0, .submit true), (1, .submit true), (0, .claim), (0, .cancel false), (0, .beginReceive),
    (1, .cancel false)]

theorem cancellationHeeded_cancelledInTime :
    ∃ c, exec Calls.step protocolCalls cancelledInTime = some c ∧
      CancellationHeeded c := by
  have hmindful : Along Calls.step (fun c a => c.mindful a = true) protocolCalls
      cancelledInTime := by decide
  exact ⟨_, rfl, cancellationHeeded_of_mindful (fun _ => .protocol) (fun _ => none) (fun _ => 0)
    cancelledInTime hmindful rfl⟩

def cancelledWhileClaimed : List (ℕ × DeliveryAction) :=
  [(0, .submit true), (0, .claim), (0, .cancel false), (0, .cancelClaim)]

/-- **The request is back in the queue and nobody acts on the cancellation.** -/
theorem not_cancellationHeeded_claimed :
    ∃ c, exec Calls.step protocolCalls cancelledWhileClaimed = some c ∧ ¬ CancellationHeeded c := by
  refine ⟨_, rfl, fun h => ?_⟩
  have hpending := h (fun i => ?_) 0 rfl
  · cases hpending
  · by_cases hi : i = 0
    · subst hi
      rfl
    · simp only [update_of_ne hi]
      rfl

end Naos.Ipc
