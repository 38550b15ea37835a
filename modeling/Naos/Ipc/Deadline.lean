import Naos.Ipc.Cancellation
import Naos.Ipc.Stranded
import Naos.Timer.Basic

/-!
# The deadline of an invocation

`arm_deadline` leaves a watcher with the timer, and the handler of the watcher runs
`expire_deadline`.  The handler compares the clock with the deadline once more.  If the timer
has called it early, the comparison fails, the handler returns, and the watcher is gone: the
deadline is dropped.

The calls are those of `Delivery`, any number of them, with their sections in any order.  A
run of `expire_deadline` is taken apart into its sections, so that anything may happen in
between.
-/

namespace Naos.Ipc

open Naos.Timer Function Transition Option InvocationState

/-! ## `expire_deadline` -/

/-- Where a run of `expire_deadline` stands. -/
inductive Expiry where
  | started
  | passed
  | removing
  | removed
  | inPlace
  | returned
  deriving DecidableEq, Repr

/-- The next section of `expire_deadline`, where the clock says `now`. -/
def Expiry.advance (d : Delivery) (now : ℕ) : Expiry → Option (Expiry × Delivery)
  | .started => some (if d.inv.deadlinePassed now then .passed else .returned, d)
  | .passed =>
    some (if d.inv.phase = .queued ∧ d.inv.queueOwner.isSome then .removing else .inPlace, d)
  | .removing =>
    -- `remove_queued` does not find a request that is claimed
    if d.stage = .waiting then
      some (.removed, (d.publish d.inv.clearQueueOwner).moveTo .expired)
    else some (.inPlace, d)
  | .removed => some (.returned, (d.publish d.inv.expireRemoved.state).moveTo .dropped)
  | .inPlace => some (.returned, d.publish d.inv.expireInPlace.state)
  | .returned => none

/-! ## The system -/

/-- The timers, the calls, and the runs of `expire_deadline`.  The handler of a watcher is
the call whose deadline it is, or something else. -/
structure Deadlines where
  cpus : ℕ → CpuTimer (Option ℕ) := fun _ => {}
  nextWatcherId : ℕ := 1
  calls : Calls
  /-- `arm_deadline` was called, and the deadline is finite. -/
  armed : ℕ → Bool := fun _ => false
  /-- The run of `expire_deadline` in the handler that a CPU has called. -/
  handlers : ℕ → Expiry := fun _ => .returned
  /-- The run of `expire_deadline` in `arm_deadline`. -/
  arming : ℕ → Option Expiry := fun _ => none

open Deadlines

/-- Who runs `expire_deadline`. -/
inductive Expirer where
  | cpu (k : ℕ)
  | armer (i : ℕ)
  deriving DecidableEq, Repr

inductive DeadlineAction where
  | run (i : ℕ) (a : DeliveryAction)
  /-- `arm_deadline` on a CPU, where `schedule_at` reads `now`. -/
  | arm (k i now : ℕ)
  | schedule (k now expires : ℕ)
  | cancel (k id : ℕ)
  | beginTick (k us : ℕ)
  | nextTick (k : ℕ)
  | endHandler (k : ℕ)
  /-- The next section of a run of `expire_deadline`. -/
  | expire (who : Expirer) (now : ℕ)

namespace Deadlines

variable (s : Deadlines)

def setCpu (k : ℕ) (c : CpuTimer (Option ℕ)) : Deadlines :=
  { s with cpus := update s.cpus k c }

def setCall (i : ℕ) (d : Delivery) : Deadlines := { s with calls := update s.calls i d }

/-- The call whose deadline is expired, and how far the run is. -/
def expiring : Expirer → Option (ℕ × Expiry)
  | .cpu k => ((s.cpus k).current.bind (·.handler)).map fun i => (i, s.handlers k)
  | .armer i => (s.arming i).map fun e => (i, e)

/-- A run of `expire_deadline` goes on. -/
def setExpiry (e : Expiry) : Expirer → Deadlines
  | .cpu k => { s with handlers := update s.handlers k e }
  | .armer i => { s with arming := update s.arming i (some e) }

def arm (k i now : ℕ) : Deadlines :=
  match (s.calls i).inv.operationDeadline with
  | none => s
  | some deadline =>
    match (s.cpus k).scheduleAt s.nextWatcherId now deadline (some i) with
    | some c =>
      { s.setCpu k c with
        nextWatcherId := s.nextWatcherId + 1, armed := update s.armed i true }
    | none =>
      { s with
        arming := update s.arming i (some .started)
        armed := update s.armed i true }

/-- No watcher with the id belongs to a deadline: the ids come from `schedule_at`, and nobody
keeps the one of a deadline. -/
def cancelable (k id : ℕ) : Bool :=
  ((s.cpus k).watcherList ++ (s.cpus k).tickList).all fun w => w.id != id || w.handler.isNone

def step : DeadlineAction → Option Deadlines
  | .run i a => ((s.calls i).step a).map (s.setCall i)
  | .arm k i now => if s.armed i then none else some (s.arm k i now)
  | .schedule k now expires =>
    ((s.cpus k).scheduleAt s.nextWatcherId now expires none).map fun c =>
      { s.setCpu k c with nextWatcherId := s.nextWatcherId + 1 }
  | .cancel k id => if s.cancelable k id then some (s.setCpu k ((s.cpus k).cancel id)) else none
  | .beginTick k us => ((s.cpus k).beginTick us).map (s.setCpu k)
  | .nextTick k =>
    (s.cpus k).nextTick.map fun c =>
      { s.setCpu k c with handlers := update s.handlers k .started }
  | .endHandler k =>
    -- the handler of a deadline has returned from `expire_deadline`
    if (s.expiring (.cpu k)).all (·.2 = .returned) then
      (s.cpus k).endHandler.map (s.setCpu k)
    else none
  | .expire who now =>
    (s.expiring who).bind fun run =>
      (Expiry.advance (s.calls run.1) now run.2).map fun next =>
        (s.setCall run.1 next.2).setExpiry next.1 who

/-- The timer of some CPU has an enabled watcher for the deadline. -/
def Watched (i : ℕ) : Prop := ∃ k, (s.cpus k).Armed fun w => w.handler = some i

/-- **No deadline is dropped**: once `arm_deadline` has returned, the call is ready, consumed
or closed by the client, or there is an enabled watcher for its deadline. -/
def Kept : Prop :=
  ∀ i, s.armed i = true → (∀ e, s.arming i = some e → e = .returned) →
    ¬ (s.calls i).inv.Open ∨ s.Watched i

/-- A run of `expire_deadline` reads a time that is not before the deadline. -/
def due : DeadlineAction → Bool
  | .expire who now =>
    (s.expiring who).all fun run =>
      run.2 != .started || (s.calls run.1).inv.deadlinePassed now
  | _ => true

end Deadlines

/-! ## Where an open call is -/

/-- The phase that an open call has as long as its request is in a certain place. -/
def Stage.phase : Stage → Option Phase
  | .submitting | .waiting | .claimed | .rolledBack | .pending | .discarded | .expired =>
    some .queued
  | .receiving | .kernelBegun => some .receiving
  | .finishing | .returned | .decoding | .executing | .dropped => none

namespace Delivery

variable {d d' : Delivery} {s : InvocationState}

/-- An open call has the phase of the place where its request is. -/
def Placed (d : Delivery) : Prop :=
  d.inv.Open → ∀ p, d.stage.phase = some p → d.inv.phase = p

/-- What a section does to an open call: it was open before, it stays in a phase that belongs
to its place, and it is not taken away from a run of `expire_deadline`. -/
structure Onward (d d' : Delivery) : Prop where
  before : d'.inv.Open → d.inv.Open
  placed : d.Placed → d'.Placed
  expired : d.Placed → d.stage = .expired → d'.inv.Open → d'.stage = .expired

namespace Onward

lemma of_not_open (h : ¬ d'.inv.Open) : Onward d d' :=
  ⟨fun ho => absurd ho h, fun _ ho => absurd ho h, fun _ _ ho => absurd ho h⟩

lemma stay (hstage : d'.stage = d.stage) (hbefore : d'.inv.Open → d.inv.Open)
    (hphase : d'.inv.Open → d'.inv.phase = d.inv.phase) : Onward d d' where
  before := hbefore
  placed hplaced ho p hp := by
    rw [hstage] at hp
    exact (hphase ho).trans (hplaced (hbefore ho) p hp)
  expired _ hexpired _ := hstage.trans hexpired

lemma calm (hstage : d'.stage = d.stage) (h : Calm d.inv d'.inv) : Onward d d' :=
  stay hstage h.before h.phase

lemma publish (h : Calm d.inv s) : Onward d (d.publish s) := calm rfl h

variable {source target : Stage}

variable (hstep : d.advanceWith source target s = some d')
include hstep

lemma move (hsource : source ≠ .expired) (hopen : s.Open → d.inv.Open)
    (hphase : s.Open → (∀ p, source.phase = some p → d.inv.phase = p) →
      ∀ p, target.phase = some p → s.phase = p) : Onward d d' := by
  obtain ⟨hstage, rfl⟩ := advanceWith_eq_some hstep
  refine ⟨hopen, fun hplaced ho => hphase ho ?_, fun _ hexpired => ?_⟩
  · rw [← hstage]
    exact hplaced (hopen ho)
  · exact absurd (hstage.symm.trans hexpired) hsource

lemma moveTo (hsource : source ≠ .expired) (h : Calm d.inv s)
    (htarget : target.phase = source.phase ∨ target.phase = none) : Onward d d' := by
  refine move hstep hsource h.before fun ho hphase p hp => ?_
  rcases htarget with heq | hnone
  · rw [heq] at hp
    exact (h.phase ho).trans (hphase p hp)
  · rw [hnone] at hp
    cases hp

lemma settle (h : ¬ s.Open) : Onward d d' := by
  obtain ⟨-, rfl⟩ := advanceWith_eq_some hstep
  exact of_not_open h

end Onward

lemma onward_cancel (d : Delivery) (given : Bool) : Onward d (d.cancel given) := by
  rw [Delivery.cancel]
  split
  next hremoved =>
    refine .of_not_open fun ho => ?_
    have hqueued : d.inv.phase = .queued := by
      simp only [Bool.and_eq_true, beq_iff_eq] at hremoved
      exact hremoved.2
    exact (open_cancel (s := d.inv) ho).2 ⟨by simpa using hremoved, hqueued⟩
  · refine ⟨fun ho => ?_, fun hplaced ho p hp => ?_, fun _ hexpired _ => hexpired⟩
    · have heq := (open_cancel (s := d.inv) ho).1
      have ho' : (d.inv.cancel _ _).state.Open := ho
      rw [heq] at ho'
      exact ho'
    · have heq := (open_cancel (s := d.inv) ho).1
      have ho' : (d.inv.cancel _ _).state.Open := ho
      rw [heq] at ho'
      simp only [Delivery.publish, heq]
      exact hplaced ho' p hp

lemma not_open_expireRemoved (hqueued : s.phase = .queued) : ¬ s.expireRemoved.state.Open := by
  rw [expireRemoved, if_pos hqueued]
  exact not_open_publishEmpty _ _ _

lemma not_open_of_expired (h : d.Placed) (hstage : d.stage = .expired) :
    ¬ d.inv.expireRemoved.state.Open := by
  intro ho
  by_cases hqueued : d.inv.phase = .queued
  · exact not_open_expireRemoved hqueued ho
  · rw [expireRemoved, if_neg hqueued] at ho
    exact hqueued (h ho .queued (by rw [hstage]; rfl))

lemma phase_abandonResponder (h : s.abandonResponder.state.Open) :
    s.abandonResponder.state.phase = s.phase := by
  rw [abandonResponder] at h ⊢
  split
  · rfl
  rename_i halive
  rw [if_neg halive] at h
  split at h
  · exact absurd h (not_open_publishEmpty _ _ _)
  · exact absurd h (not_open_publishEmpty _ _ _)
  · rfl

lemma phase_consumeResponder (s : InvocationState) : s.consumeResponder.state.phase = s.phase := by
  rw [consumeResponder]
  split <;> rfl

/-- **Every section goes onward.** -/
theorem onward_step {a : DeliveryAction} (hplaced : d.Placed) (hstep : d.step a = some d') :
    Onward d d' := by
  cases a with
  | submit accepted =>
    refine .moveTo (advanceWith_of_advance hstep) (by decide) (.refl _) ?_
    cases accepted with
    | false => exact .inr rfl
    | true =>
      left
      cases d.route <;> rfl
  | removeCompleted =>
    obtain ⟨hc, hstep⟩ := ite_none_right_eq_some.1 hstep
    exact .settle hstep (Admitted.not_open_of_completed hc)
  | claim | cancelClaim =>
    exact .moveTo (advanceWith_of_advance hstep) (by decide) (.refl _) (.inl rfl)
  | dropCompleted =>
    exact .moveTo (advanceWith_of_advance
      (ite_none_right_eq_some.1 hstep).2) (by decide) (.refl _) (.inr rfl)
  | violation | completeRollback | completeDiscarded | kernelReject =>
    exact .settle hstep (not_open_completeFailure rfl _ _)
  | beginReceive | kernelBegin =>
    refine .move hstep (by decide) open_of_beginReceive fun ho hphase p hp => ?_
    obtain ⟨hval, hreceiving, -⟩ := open_beginReceive ho (hphase .queued rfl)
    rw [hval] at hp
    cases hp
    exact hreceiving
  | rollbackReceive =>
    refine .move hstep (by decide) (fun ho => (open_of_rollbackReceive ho).1)
      fun ho hphase p hp => ?_
    have hqueued := (open_of_rollbackReceive ho).2 (hphase .receiving rfl)
    cases hval : d.inv.rollbackReceive.value with
    | true | false => rw [hval] at hp; cases hp; exact hqueued
  | finishDispatch =>
    refine .move hstep (by decide) (fun ho => (open_of_finishDispatch ho).1)
      fun ho hphase p hp => ?_
    cases hval : d.inv.finishDispatch.value with
    | true | false => rw [hval] at hp; cases hp
  | commitClaim held =>
    simp only [step] at hstep
    split at hstep
    · exact .moveTo (advanceWith_of_advance hstep) (by decide) (.refl _) (.inr rfl)
    · exact .settle hstep (not_open_completeFailure rfl _ _)
  | closeServer =>
    exact .moveTo hstep (by decide) ((Calm.refl d.inv).of_flags rfl rfl rfl rfl) (.inl rfl)
  | expireRemove now =>
    exact .moveTo (ite_none_right_eq_some.1 hstep).2 (by decide)
      ((Calm.refl d.inv).of_flags rfl rfl rfl rfl) (.inl rfl)
  | expireRemoved =>
    obtain ⟨hstage, -⟩ := advanceWith_eq_some hstep
    exact .settle hstep (not_open_of_expired hplaced hstage)
  | expireInPlace now =>
    cases (ite_none_right_eq_some.1 hstep).2
    exact .of_not_open (not_open_expireInPlace d.inv)
  | cancel given =>
    cases hstep
    exact onward_cancel d given
  | kernelNoCaller | kernelRefuse error | kernelReply bytes resources error =>
    exact .settle hstep (not_open_completeReply _ _ _ _)
  | kernelMark =>
    exact .move hstep (by decide) (fun ho => (open_of_markDispatched ho).1) fun _ _ _ hp => by
      cases hp
  | kernelExecute => exact .moveTo (advanceWith_of_advance hstep) (by decide) (.refl _) (.inr rfl)
  | kernelCancelled =>
    exact .settle (ite_none_right_eq_some.1 hstep).2 (not_open_completeFailure rfl _ _)
  | abandonResponder =>
    cases hstep
    exact .stay rfl (fun ho => (open_abandonResponder ho).1) phase_abandonResponder
  | consumeResponder =>
    cases hstep
    exact .stay rfl open_of_consumeResponder fun _ => phase_consumeResponder d.inv
  | closeClient =>
    cases hstep
    exact .publish (.closeClient d.inv)
  | reply bytes resources =>
    cases hstep
    exact .of_not_open (not_open_completeReply _ _ _ _)
  | fail outcome reason error =>
    cases hstep
    exact .calm rfl (.of_edited (.completeFailure d.inv outcome reason error))
  | claimResult now bytes resources =>
    cases hstep
    exact .publish (.of_edited (.claimResult d.inv now bytes resources))
  | restoreResult bytes resources =>
    cases hstep
    exact .publish (.of_edited (.restoreResult d.inv bytes resources))
  | commitResult =>
    cases hstep
    exact .publish (.commitResult d.inv)

end Delivery

/-! ## A run of `expire_deadline` -/

namespace Expiry

variable {d d' : Delivery}

/-- What a run of `expire_deadline` knows about the call. -/
def Sound (d : Delivery) : Expiry → Prop
  | .removed => d.inv.Open → d.stage = .expired
  | .returned => ¬ d.inv.Open
  | _ => True

variable {e : Expiry}

lemma Sound.onward (h : e.Sound d) (hplaced : d.Placed) (hon : Delivery.Onward d d') :
    e.Sound d' := by
  cases e with
  | removed => exact fun ho => hon.expired hplaced (h (hon.before ho)) ho
  | returned => exact fun ho => h (hon.before ho)
  | started | passed | removing | inPlace => trivial

lemma advance_sound {e' : Expiry} {now : ℕ} (h : e.Sound d) (hplaced : d.Placed)
    (hdue : e = .started → d.inv.deadlinePassed now = true)
    (hstep : e.advance d now = some (e', d')) : Delivery.Onward d d' ∧ e'.Sound d' := by
  have hrefl : Delivery.Onward d d := .calm rfl (.refl _)
  cases e with
  | started =>
    rw [advance, hdue rfl] at hstep
    cases hstep
    exact ⟨hrefl, trivial⟩
  | passed =>
    rw [advance] at hstep
    split at hstep
    · cases hstep
      exact ⟨hrefl, trivial⟩
    · cases hstep
      exact ⟨hrefl, trivial⟩
  | removing =>
    rw [advance] at hstep
    split at hstep
    next hstage =>
      cases hstep
      refine ⟨?_, fun _ => rfl⟩
      have hmove : d.advanceWith .waiting .expired d.inv.clearQueueOwner =
          some ((d.publish d.inv.clearQueueOwner).moveTo .expired) := if_pos hstage
      exact .moveTo hmove (by decide) ((Calm.refl d.inv).of_flags rfl rfl rfl rfl) (.inl rfl)
    · cases hstep
      exact ⟨hrefl, trivial⟩
  | removed =>
    cases hstep
    have hnot : ¬ d.inv.expireRemoved.state.Open := by
      by_cases hopen : d.inv.Open
      · exact Delivery.not_open_of_expired hplaced (h hopen)
      · intro ho
        rw [expireRemoved] at ho
        split at ho
        · exact not_open_publishEmpty _ _ _ ho
        · exact hopen ho
    exact ⟨.of_not_open hnot, hnot⟩
  | inPlace =>
    cases hstep
    exact ⟨.of_not_open (not_open_expireInPlace d.inv), not_open_expireInPlace d.inv⟩
  | returned => cases hstep

end Expiry

/-! ## The invariant -/

namespace Deadlines

variable {s s' : Deadlines}

/-- Open calls are in their places, every armed deadline has a watcher or is being expired,
and what a run of `expire_deadline` knows is true. -/
structure Inv (s : Deadlines) : Prop where
  placed : ∀ i, (s.calls i).Placed
  kept : s.Kept
  sound : ∀ who i e, s.expiring who = some (i, e) → e.Sound (s.calls i)

variable {e : Expiry} {i k j : ℕ} {c : CpuTimer (Option ℕ)}

lemma expiring_cpu : s.expiring (.cpu k) = some (i, e) ↔
      (∃ w, (s.cpus k).current = some w ∧ w.handler = some i) ∧ s.handlers k = e := by
  simp only [expiring, map_eq_some_iff, bind_eq_some_iff, Prod.mk.injEq]
  constructor
  · rintro ⟨j, ⟨w, hw, hj⟩, rfl, he⟩
    exact ⟨⟨w, hw, hj⟩, he⟩
  · rintro ⟨⟨w, hw, hi⟩, he⟩
    exact ⟨i, ⟨w, hw, hi⟩, rfl, he⟩

lemma expiring_armer : s.expiring (.armer j) = some (i, e) ↔ j = i ∧ s.arming j = some e := by
  simp [expiring, and_comm]

@[simp] lemma setCall_calls_self (i : ℕ) (d : Delivery) : (s.setCall i d).calls i = d :=
  update_self ..

@[simp] lemma setCpu_cpus_self (k : ℕ) (c : CpuTimer (Option ℕ)) : (s.setCpu k c).cpus k = c :=
  update_self ..

@[simp] lemma setCpu_cpus_of_ne (h : j ≠ k) (c : CpuTimer (Option ℕ)) :
    (s.setCpu k c).cpus j = s.cpus j := update_of_ne h ..

lemma Inv.setCall (h : s.Inv) {d : Delivery} (hon : Delivery.Onward (s.calls i) d) :
    (s.setCall i d).Inv := by
  have hall : ∀ j, Delivery.Onward (s.calls j) ((s.setCall i d).calls j) :=
    (forall_update_iff s.calls fun j d => Delivery.Onward (s.calls j) d).2
      ⟨hon, fun _ _ => .calm rfl (.refl _)⟩
  refine ⟨fun j => (hall j).placed (h.placed j), fun j harmed harming => ?_, fun who j e he => ?_⟩
  · exact (h.kept j harmed harming).imp_left fun hnot ho => hnot ((hall j).before ho)
  · exact (h.sound who j e (by cases who <;> exact he)).onward (h.placed j) (hall j)

lemma Inv.timers (h : s.Inv) (hcalls : s'.calls = s.calls) (harmed : s'.armed = s.armed)
    (harming : s'.arming = s.arming)
    (hwatched : ∀ i, s.Watched i → ¬ (s.calls i).inv.Open ∨ s'.Watched i)
    (hsound : ∀ k w i, (s'.cpus k).current = some w → w.handler = some i →
      (s'.handlers k).Sound (s.calls i)) : s'.Inv := by
  refine ⟨by rw [hcalls]; exact h.placed, fun i ha hr => ?_, fun who i e he => ?_⟩
  · rw [harmed] at ha
    rw [harming] at hr
    rw [hcalls]
    rcases h.kept i ha hr with hnot | hw
    · exact .inl hnot
    · exact hwatched i hw
  · rw [hcalls]
    cases who with
    | cpu k =>
      obtain ⟨⟨w, hw, hi⟩, rfl⟩ := expiring_cpu.1 he
      exact hsound k w i hw hi
    | armer j =>
      obtain ⟨rfl, hrun⟩ := expiring_armer.1 he
      rw [harming] at hrun
      exact h.sound (.armer j) j e (expiring_armer.2 ⟨rfl, hrun⟩)

lemma watched_setCpu (h : s.Watched i)
    (hc : ((s.cpus k).Armed fun w => w.handler = some i) → c.Armed fun w => w.handler = some i) :
    (s.setCpu k c).Watched i := by
  obtain ⟨j, hj⟩ := h
  refine ⟨j, ?_⟩
  by_cases hk : j = k
  · subst hk
    rw [setCpu_cpus_self]
    exact hc hj
  · rw [setCpu_cpus_of_ne hk]
    exact hj

lemma Inv.setCpu (h : s.Inv) (hc : ∀ i, ((s.cpus k).Armed fun w => w.handler = some i) →
      ¬ (s.calls i).inv.Open ∨ c.Armed fun w => w.handler = some i)
    (hcurrent : ∀ w, c.current = some w →
      ∃ w', (s.cpus k).current = some w' ∧ w'.handler = w.handler) : (s.setCpu k c).Inv := by
  refine h.timers rfl rfl rfl (fun i hw => ?_) fun j w i hw hi => ?_
  · by_cases hopen : (s.calls i).inv.Open
    · exact .inr (watched_setCpu hw fun ha => (hc i ha).resolve_left (not_not.2 hopen))
    · exact .inl hopen
  · by_cases hj : j = k
    · subst hj
      rw [setCpu_cpus_self] at hw
      obtain ⟨w', hw', heq⟩ := hcurrent w hw
      exact h.sound (.cpu j) i _ (expiring_cpu.2 ⟨⟨w', hw', heq.trans hi⟩, rfl⟩)
    · rw [setCpu_cpus_of_ne hj] at hw
      exact h.sound (.cpu j) i _ (expiring_cpu.2 ⟨⟨w, hw, hi⟩, rfl⟩)

lemma Inv.nextId (h : s.Inv) (n : ℕ) : ({ s with nextWatcherId := n } : Deadlines).Inv :=
  ⟨h.placed, h.kept, h.sound⟩

lemma Inv.setArming (h : s.Inv) {armed : ℕ → Bool}
    (hother : ∀ j, j ≠ i → armed j = true → s.armed j = true) (hsound : e.Sound (s.calls i)) :
    ({ s with armed, arming := update s.arming i (some e) } : Deadlines).Inv := by
  refine ⟨h.placed, fun j harmed harming => ?_, fun who j e' he => ?_⟩
  · by_cases hj : j = i
    · subst hj
      rw [harming e (update_self ..)] at hsound
      exact .inl hsound
    · simp only [update_of_ne hj] at harming
      exact h.kept j (hother j hj harmed) harming
  · cases who with
    | cpu k => exact h.sound (.cpu k) j e' he
    | armer j' =>
      obtain ⟨rfl, hrun⟩ := expiring_armer.1 he
      by_cases hj : j' = i
      · subst hj
        simp only [update_self, Option.some.injEq] at hrun
        exact hrun ▸ hsound
      · simp only [update_of_ne hj] at hrun
        exact h.sound (.armer j') j' e' (expiring_armer.2 ⟨rfl, hrun⟩)

lemma Inv.arm (h : s.Inv) (k i now : ℕ) : (s.arm k i now).Inv := by
  rw [Deadlines.arm]
  split
  · exact h
  split
  next c hc =>
    have hcpu : (s.setCpu k c).Inv := by
      refine h.setCpu (fun j ha => .inr (ha.scheduleAt hc)) fun w hw => ?_
      rw [CpuTimer.current_scheduleAt hc] at hw
      exact ⟨w, hw, rfl⟩
    refine ⟨hcpu.placed, fun j harmed harming => ?_, hcpu.sound⟩
    by_cases hj : j = i
    · subst hj
      refine .inr ⟨k, ?_⟩
      simp only [Deadlines.setCpu, update_self]
      exact (CpuTimer.armed_scheduleAt hc).mono fun w hw => hw.2.2
    · simp only [update_of_ne hj] at harmed
      exact hcpu.kept j harmed harming
  · refine h.setArming (fun j hj harmed => ?_) trivial
    rwa [update_of_ne hj] at harmed

lemma Inv.cancel (h : s.Inv) {id : ℕ} (hc : s.cancelable k id = true) :
    (s.setCpu k ((s.cpus k).cancel id)).Inv := by
  refine h.setCpu (fun i ha => .inr ?_) fun w hw => ?_
  · obtain ⟨w, hw, hen, hi⟩ := ha
    have hid : w.id ≠ id := by
      have hall := List.all_eq_true.1 hc w (List.mem_append.2 hw)
      simpa [hi] using hall
    have harmed : (s.cpus k).Armed fun w => w.handler = some i ∧ w.id ≠ id := ⟨w, hw, hen, hi, hid⟩
    exact (harmed.cancel fun w hw => hw.2).mono fun w hw => hw.1
  · obtain ⟨w', hw', -, -, heq⟩ := CpuTimer.current_cancel hw
    exact ⟨w', hw', heq⟩

lemma Inv.nextTick (h : s.Inv) (hc : (s.cpus k).nextTick = some c) :
    ({ s.setCpu k c with handlers := update s.handlers k .started } : Deadlines).Inv := by
  refine h.timers rfl rfl rfl (fun i hw => .inr ?_) fun j w i hw hi => ?_
  · exact watched_setCpu hw fun ha => ha.nextTick hc
  · by_cases hj : j = k
    · subst hj
      simp only [update_self]
      trivial
    · simp only [Deadlines.setCpu, update_of_ne hj] at hw ⊢
      exact h.sound (.cpu j) i _ (expiring_cpu.2 ⟨⟨w, hw, hi⟩, rfl⟩)

/-- **A watcher is taken out after its handler has settled the call.** -/
theorem Inv.endHandler (h : s.Inv) (hreturned : (s.expiring (.cpu k)).all (·.2 = .returned) = true)
    (hc : (s.cpus k).endHandler = some c) : (s.setCpu k c).Inv := by
  refine h.setCpu (fun i ha => ?_) fun w hw => ?_
  · by_cases hcurrent : ∃ w, (s.cpus k).current = some w ∧ w.handler = some i
    · have hexp : s.expiring (.cpu k) = some (i, s.handlers k) := expiring_cpu.2 ⟨hcurrent, rfl⟩
      have hdone : s.handlers k = .returned := by simpa [hexp] using hreturned
      have hsound := h.sound (.cpu k) i _ hexp
      rw [hdone] at hsound
      exact .inl hsound
    · push Not at hcurrent
      exact .inr (ha.endHandler hc hcurrent)
  · rw [CpuTimer.current_endHandler hc] at hw
    cases hw

lemma Inv.expire (h : s.Inv) {who : Expirer} {now : ℕ} {run : ℕ × Expiry}
    {next : Expiry × Delivery} (hrun : s.expiring who = some run)
    (hdue : run.2 = .started → (s.calls run.1).inv.deadlinePassed now = true)
    (hnext : run.2.advance (s.calls run.1) now = some next) :
    ((s.setCall run.1 next.2).setExpiry next.1 who).Inv := by
  obtain ⟨i, e⟩ := run
  obtain ⟨hon, hsound⟩ := Expiry.advance_sound (h.sound who i e hrun) (h.placed i) hdue hnext
  have hcall := h.setCall hon
  cases who with
  | cpu k =>
    refine hcall.timers rfl rfl rfl (fun j hw => .inr hw) fun j w i' hw hi' => ?_
    by_cases hj : j = k
    · subst hj
      obtain ⟨⟨w', hw', hi⟩, -⟩ := expiring_cpu.1 hrun
      have hww : w' = w := some.inj (hw'.symm.trans hw)
      subst hww
      obtain rfl : i = i' := some.inj (hi.symm.trans hi')
      simp only [setExpiry, update_self, setCall_calls_self]
      exact hsound
    · simp only [setExpiry, update_of_ne hj] at hw ⊢
      exact hcall.sound (.cpu j) i' _ (expiring_cpu.2 ⟨⟨w, hw, hi'⟩, rfl⟩)
  | armer j =>
    obtain ⟨rfl, -⟩ := expiring_armer.1 hrun
    refine hcall.setArming (fun _ _ harmed => harmed) ?_
    rwa [setCall_calls_self]

/-- **A step keeps the invariant**, if a run of `expire_deadline` that compares the clock
finds the deadline passed. -/
theorem inv_step (s : Deadlines) (a : DeadlineAction) (s' : Deadlines) (h : s.Inv)
    (hdue : s.due a = true) (hstep : s.step a = some s') : s'.Inv := by
  cases a with
  | run i a =>
    obtain ⟨d, hd, rfl⟩ := map_eq_some_iff.1 hstep
    exact h.setCall (Delivery.onward_step (h.placed i) hd)
  | arm k i now =>
    cases (ite_none_left_eq_some.1 hstep).2
    exact h.arm k i now
  | schedule k now expires =>
    obtain ⟨c, hc, rfl⟩ := map_eq_some_iff.1 hstep
    refine (h.setCpu (fun i ha => .inr (ha.scheduleAt hc)) fun w hw => ?_).nextId _
    rw [CpuTimer.current_scheduleAt hc] at hw
    exact ⟨w, hw, rfl⟩
  | cancel k id =>
    obtain ⟨hc, hstep⟩ := ite_none_right_eq_some.1 hstep
    cases hstep
    exact h.cancel hc
  | beginTick k us =>
    obtain ⟨c, hc, rfl⟩ := map_eq_some_iff.1 hstep
    refine h.setCpu (fun i ha => .inr (ha.beginTick hc)) fun w hw => ?_
    rw [CpuTimer.current_beginTick hc] at hw
    cases hw
  | nextTick k =>
    obtain ⟨c, hc, rfl⟩ := map_eq_some_iff.1 hstep
    exact h.nextTick hc
  | endHandler k =>
    obtain ⟨hreturned, hstep⟩ := ite_none_right_eq_some.1 hstep
    obtain ⟨c, hc, rfl⟩ := map_eq_some_iff.1 hstep
    exact h.endHandler hreturned hc
  | expire who now =>
    obtain ⟨run, hrun, hstep⟩ := bind_eq_some_iff.1 hstep
    obtain ⟨next, hnext, rfl⟩ := map_eq_some_iff.1 hstep
    refine h.expire hrun (fun hstarted => ?_) hnext
    simpa [due, hrun, hstarted] using hdue

end Deadlines

/-! ## Runs -/

def Deadlines.start (calls : Calls) : Deadlines where
  calls

lemma Deadlines.inv_start (route : ℕ → Route) (deadline : ℕ → Option ℕ) (owner : ℕ → ℕ) :
    (start (Calls.submitted route deadline owner)).Inv := by
  refine ⟨fun i _ p hp => ?_, fun i harmed => ?_, fun who i e he => ?_⟩
  · cases hp
    rfl
  · cases harmed
  · cases who with
    | cpu k | armer j => cases he

/-- **In every run in which no run of `expire_deadline` reads a time before the deadline, no
deadline is dropped in any state reached.** -/
theorem deadlineKept_of_due (route : ℕ → Route) (deadline : ℕ → Option ℕ) (owner : ℕ → ℕ)
    (run : List DeadlineAction) {s : Deadlines}
    (hdue : Along step (fun s a => s.due a = true)
      (start (Calls.submitted route deadline owner)) run)
    (hrun : exec step (start (Calls.submitted route deadline owner)) run = some s) : s.Kept :=
  (exec_induct inv_step (inv_start route deadline owner) hdue hrun).kept

/-- The calls of a server, all with the deadline `1000`. -/
def timedCalls : Calls := Calls.submitted (fun _ => .protocol) (fun _ => some 1000) fun _ => 0

/-- A call is submitted and armed at the time `0`, and a tick at `us` calls the handler, which
reads `now`. -/
def expiredAt (us now : ℕ) : List DeadlineAction :=
  [.run 0 (.submit true), .arm 0 0 0, .beginTick 0 us, .nextTick 0, .expire (.cpu 0) now]

def expiredInTime : List DeadlineAction :=
  expiredAt 600 1000 ++ [.expire (.cpu 0) 1000, .expire (.cpu 0) 1000, .expire (.cpu 0) 1000,
    .endHandler 0]

theorem deadlineKept_expiredInTime :
    ∃ s, exec step (.start timedCalls) expiredInTime = some s ∧ s.Kept := by
  have hdue : Along step (fun s a => s.due a = true) (.start timedCalls)
      expiredInTime := by decide
  exact ⟨_, rfl, deadlineKept_of_due (fun _ => .protocol) (fun _ => some 1000) (fun _ => 0)
    expiredInTime hdue rfl⟩

def expiredEarly : List DeadlineAction := expiredAt 600 601 ++ [.endHandler 0]

/-- **The watcher is gone, and the call waits without a deadline.** -/
theorem not_deadlineKept_expiredEarly :
    ∃ s, exec step (.start timedCalls) expiredEarly = some s ∧ ¬ s.Kept := by
  refine ⟨_, rfl, fun h => ?_⟩
  have harming : ∀ e, (none : Option Expiry) = some e → e = .returned := nofun
  rcases h 0 rfl harming with hnot | ⟨k, w, hw, -, -⟩
  · exact hnot ⟨by decide, rfl⟩
  · have hnil : w ∈ ([] : List (Watcher (Option ℕ))) := by
      cases k with
      | zero | succ n => exact hw.elim id id
    cases hnil

end Naos.Ipc
