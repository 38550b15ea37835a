import Naos.Capability.Basic
import Naos.Lib.Transition
import Naos.Timer.Basic

/-!
# Waiting with a deadline

`wait_many` with a finite deadline leaves one watcher with the timer before its loop.  The
handler of the watcher moves the generation on which the loop sleeps, so that the loop looks
at the clock again.  If the timer has called the handler early, the loop finds that the
deadline is not reached and goes back to sleep, and no watcher is left to wake it.

The calls here are past the checks of their items.  Whether one of the requested signals of a
call is asserted changes at any time.
-/

namespace Naos.Ipc

open Naos.Timer Function Transition Option CpuTimer

inductive WaitHandler where
  | waitDeadlineWakeup
  | other
  deriving DecidableEq, Repr

inductive TimedStage where
  /-- Before the first `wait_condition`. -/
  | opening
  | comparing
  /-- Before `schedule_at`. -/
  | arming
  | entered
  | loaded
  | quiet
  /-- In `do_wait`. -/
  | asleep
  | leaving
  | canceled
  | returned (status : Status)
  deriving DecidableEq, Repr

def TimedStage.inLoop : TimedStage → Bool
  | .entered | .loaded | .quiet | .asleep => true
  | _ => false

/-- A call of `wait_many` with a finite deadline. -/
structure TimedWait where
  deadline : ℕ
  stage : TimedStage := .opening
  generation : ℕ := 0
  /-- `deadline_watcher`; zero is `invalid_watcher_id`. -/
  watcher : ℕ := 0

structure TimedWaits where
  cpus : ℕ → CpuTimer WaitHandler := fun _ => {}
  nextWatcherId : ℕ := 1
  generation : ℕ := 0
  waits : ℕ → Option TimedWait := fun _ => none
  asserted : ℕ → Bool := fun _ => false
  handled : ℕ → Bool := fun _ => false
  latest : ℕ := 0

open TimedWaits

inductive TimedAction where
  | enter (t deadline : ℕ)
  | signal (t : ℕ) (asserted : Bool)
  | notify
  /-- `wait_condition`, before the loop and in it. -/
  | check (t : ℕ)
  /-- The comparison of the clock with the deadline, before the loop, in it and after it. -/
  | clock (t now : ℕ)
  /-- `schedule_at` on a CPU. -/
  | arm (t k now : ℕ)
  | load (t : ℕ)
  /-- `do_wait` finds that the generation has moved. -/
  | wake (t : ℕ)
  | leave (t k : ℕ)
  | schedule (k now expires : ℕ)
  | cancel (k id : ℕ)
  | beginTick (k us : ℕ)
  | nextTick (k : ℕ)
  | handle (k : ℕ)
  | endHandler (k : ℕ)

/-- `wait_condition` where it is called. -/
def TimedWait.check (x : TimedWait) (asserted : Bool) : Option TimedWait :=
  match x.stage with
  | .opening => some { x with stage := if asserted then .returned .ok else .comparing }
  | .loaded => some { x with stage := if asserted then .leaving else .quiet }
  | _ => none

/-- The comparison of the clock with the deadline where it is made.  After the loop the items
are evaluated once more first. -/
def TimedWait.clock (x : TimedWait) (now : ℕ) (asserted : Bool) : Option TimedWait :=
  match x.stage with
  | .comparing =>
    some { x with stage := if x.deadline ≤ now then .returned .waitTimedOut else .arming }
  | .quiet => some { x with stage := if x.deadline ≤ now then .leaving else .asleep }
  | .canceled =>
    some { x with
      stage := .returned (if !asserted && decide (x.deadline ≤ now) then .waitTimedOut else .ok) }
  | _ => none

namespace TimedWaits

variable (s : TimedWaits)

def setCpu (k : ℕ) (c : CpuTimer WaitHandler) : TimedWaits :=
  { s with cpus := update s.cpus k c }

def setWait (t : ℕ) (x : TimedWait) : TimedWaits :=
  { s with waits := update s.waits t (some x) }

def read (now : ℕ) : TimedWaits := { s with latest := max s.latest now }

/-- No watcher with the id belongs to `wait_many`: the ids come from `schedule_at`. -/
def cancelable (k id : ℕ) : Bool :=
  ((s.cpus k).watcherList ++ (s.cpus k).tickList).all fun w => w.id != id || w.handler == .other

/-- `schedule_at(deadline, wait_deadline_wakeup)` -/
def arm (t k now : ℕ) (x : TimedWait) : TimedWaits :=
  match (s.cpus k).scheduleAt s.nextWatcherId now x.deadline .waitDeadlineWakeup with
  | some c =>
    { (s.setCpu k c).setWait t { x with stage := .entered, watcher := s.nextWatcherId } with
      nextWatcherId := s.nextWatcherId + 1 }
  | none => s.setWait t { x with stage := .entered, watcher := 0 }

/-- `timer::cancel(deadline_watcher)` -/
def leave (t k : ℕ) (x : TimedWait) : TimedWaits :=
  let s' := s.setWait t { x with stage := .canceled }
  if x.watcher = 0 then s' else s'.setCpu k ((s.cpus k).cancel x.watcher)

def handle (k : ℕ) (w : Watcher WaitHandler) : TimedWaits :=
  { s with
    handled := update s.handled k true
    generation :=
      if w.handler = .waitDeadlineWakeup then s.generation + 1 else s.generation }

def step : TimedAction → Option TimedWaits
  | .enter t deadline =>
    match s.waits t with
    | some _ => none
    | none => if deadline = 0 then none else some (s.setWait t { deadline })
  | .signal t asserted => some { s with asserted := update s.asserted t asserted }
  | .notify => some { s with generation := s.generation + 1 }
  | .check t => (s.waits t).bind fun x => (x.check (s.asserted t)).map (s.setWait t)
  | .clock t now =>
    (s.waits t).bind fun x => (x.clock now (s.asserted t)).map ((s.read now).setWait t)
  | .arm t k now =>
    (s.waits t).bind fun x =>
      if x.stage = .arming then some ((s.read now).arm t k now x) else none
  | .load t =>
    (s.waits t).bind fun x =>
      if x.stage = .entered then
        some (s.setWait t { x with stage := .loaded, generation := s.generation })
      else none
  | .wake t =>
    (s.waits t).bind fun x =>
      if x.stage = .asleep ∧ s.generation ≠ x.generation then
        some (s.setWait t { x with stage := .entered })
      else none
  | .leave t k =>
    (s.waits t).bind fun x => if x.stage = .leaving then some (s.leave t k x) else none
  | .schedule k now expires =>
    ((s.cpus k).scheduleAt s.nextWatcherId now expires .other).map fun c =>
      { s.setCpu k c with nextWatcherId := s.nextWatcherId + 1 }
  | .cancel k id => if s.cancelable k id then some (s.setCpu k ((s.cpus k).cancel id)) else none
  | .beginTick k us => ((s.cpus k).beginTick us).map ((s.read us).setCpu k)
  | .nextTick k =>
    (s.cpus k).nextTick.map fun c =>
      { s.setCpu k c with handled := update s.handled k false }
  | .handle k =>
    if s.handled k then none else (s.cpus k).current.map (s.handle k)
  | .endHandler k => if s.handled k then (s.cpus k).endHandler.map (s.setCpu k) else none

/-- **A finite wait ends**: where a call sleeps on the current generation and none of its
signals is asserted, some timer has an enabled watcher for its deadline. -/
def Ends : Prop :=
  ∀ t x, s.waits t = some x → x.stage = .asleep → x.generation = s.generation →
    s.asserted t = false →
      ∃ k, (s.cpus k).Armed fun w => w.handler = .waitDeadlineWakeup ∧ w.expires = x.deadline

/-- The clock is not behind what somebody has read before, and a tick does not call a handler
before the time of its watcher. -/
def steady : TimedAction → Bool
  | .clock _ now | .arm _ _ now | .beginTick _ now => decide (s.latest ≤ now)
  | .nextTick k =>
    (s.cpus k).nextTick.all fun c =>
      c.current.all fun w => (s.cpus k).us.any fun us => decide (w.expires ≤ us)
  | _ => true

/-! ## The invariant -/

variable {s} {s' : TimedWaits}

def Owns (x : TimedWait) (w : Watcher WaitHandler) : Prop :=
  w.id = x.watcher ∧ w.handler = .waitDeadlineWakeup ∧ w.expires = x.deadline

/-- The deadline is reached, and a call that sleeps is about to notice it. -/
def Late (s : TimedWaits) (x : TimedWait) : Prop :=
  x.deadline ≤ s.latest ∧ (x.stage = .asleep → x.generation ≠ s.generation)

/-- The watcher of the call is there, and its handler has not done its work yet. -/
def Pending (s : TimedWaits) (x : TimedWait) : Prop :=
  (∃ k, (s.cpus k).Armed (Owns x)) ∧
    ∀ k w, s.handled k = true → (s.cpus k).current = some w → ¬ Owns x w

structure Inv (s : TimedWaits) : Prop where
  guarded : ∀ t x, s.waits t = some x → x.stage.inLoop = true → s.Late x ∨ s.Pending x
  generation : ∀ t x, s.waits t = some x → x.generation ≤ s.generation
  fresh : ∀ t x, s.waits t = some x → x.watcher < s.nextWatcherId
  distinct : ∀ t t' x x', s.waits t = some x → s.waits t' = some x' → x.watcher = x'.watcher →
    x.watcher = 0 ∨ t = t'
  tick : ∀ k us, (s.cpus k).us = some us → us ≤ s.latest
  due : ∀ k w, (s.cpus k).current = some w → w.expires ≤ s.latest
  ids : 0 < s.nextWatcherId

variable {k t id now : ℕ} {x x' : TimedWait} {c : CpuTimer WaitHandler} {asserted : Bool}

section

variable (h : s.Inv)
include h

lemma Inv.setWait (hguarded : x.stage.inLoop = true → s.Late x ∨ s.Pending x)
    (hgeneration : x.generation ≤ s.generation) (hfresh : x.watcher < s.nextWatcherId)
    (hdistinct : ∀ t' x', t' ≠ t → s.waits t' = some x' → x.watcher = x'.watcher → x.watcher = 0) :
    (s.setWait t x).Inv := by
  have hcases : ∀ t' x', (s.setWait t x).waits t' = some x' →
      t' = t ∧ x' = x ∨ t' ≠ t ∧ s.waits t' = some x' := by
    intro t' x' hx'
    by_cases ht : t' = t
    · subst ht
      exact .inl ⟨rfl, by simpa [setWait, eq_comm] using hx'⟩
    · exact .inr ⟨ht, by simpa [TimedWaits.setWait, ht] using hx'⟩
  refine ⟨fun t' x' hx' => ?_, fun t' x' hx' => ?_, fun t' x' hx' => ?_,
    fun t₁ t₂ x₁ x₂ h₁ h₂ heq => ?_, h.tick, h.due, h.ids⟩
  · rcases hcases t' x' hx' with ⟨-, rfl⟩ | ⟨-, hx'⟩
    · exact hguarded
    · exact h.guarded t' x' hx'
  · rcases hcases t' x' hx' with ⟨-, rfl⟩ | ⟨-, hx'⟩
    · exact hgeneration
    · exact h.generation t' x' hx'
  · rcases hcases t' x' hx' with ⟨-, rfl⟩ | ⟨-, hx'⟩
    · exact hfresh
    · exact h.fresh t' x' hx'
  · rcases hcases t₁ x₁ h₁ with ⟨rfl, rfl⟩ | ⟨hne₁, hold₁⟩
    · rcases hcases t₂ x₂ h₂ with ⟨rfl, rfl⟩ | ⟨hne₂, hold₂⟩
      · exact .inr rfl
      · exact .inl (hdistinct t₂ x₂ hne₂ hold₂ heq)
    · rcases hcases t₂ x₂ h₂ with ⟨rfl, rfl⟩ | ⟨-, hold₂⟩
      · exact .inl (heq.trans (hdistinct t₁ x₁ hne₁ hold₁ heq.symm))
      · exact h.distinct t₁ t₂ x₁ x₂ hold₁ hold₂ heq

lemma Inv.goOn (hx : s.waits t = some x) (hwatcher : x'.watcher = x.watcher)
    (hgeneration : x'.generation ≤ s.generation)
    (hguarded : x'.stage.inLoop = true → s.Late x' ∨ s.Pending x') : (s.setWait t x').Inv := by
  refine h.setWait hguarded hgeneration (hwatcher ▸ h.fresh t x hx) fun t' y hne hy heq => ?_
  rw [hwatcher] at heq ⊢
  exact (h.distinct t t' x y hx hy heq).resolve_right (Ne.symm hne)

omit h in
lemma Pending.of_eq (h : s.Pending x) (hwatcher : x'.watcher = x.watcher)
    (hdeadline : x'.deadline = x.deadline) : s.Pending x' := by
  have howns : ∀ w, Owns x' w ↔ Owns x w := fun w => by rw [Owns, Owns, hwatcher, hdeadline]
  obtain ⟨⟨k, hk⟩, hnot⟩ := h
  exact ⟨⟨k, hk.mono fun w hw => (howns w).2 hw⟩,
    fun k w hh hc hw => hnot k w hh hc ((howns w).1 hw)⟩

lemma Inv.read (now : ℕ) : (s.read now).Inv where
  guarded t x hx hloop :=
    (h.guarded t x hx hloop).imp_left fun hlate => ⟨hlate.1.trans (Nat.le_max_left ..), hlate.2⟩
  generation := h.generation
  fresh := h.fresh
  distinct := h.distinct
  tick k us hus := (h.tick k us hus).trans (Nat.le_max_left ..)
  due k w hw := (h.due k w hw).trans (Nat.le_max_left ..)
  ids := h.ids

lemma Inv.notify : ({ s with generation := s.generation + 1 } : TimedWaits).Inv where
  guarded t x hx hloop := by
    refine (h.guarded t x hx hloop).imp_left fun hlate => ⟨hlate.1, fun _ => ?_⟩
    have hle := h.generation t x hx
    exact (Nat.lt_succ_of_le hle).ne
  generation t x hx := (h.generation t x hx).trans (Nat.le_succ _)
  fresh := h.fresh
  distinct := h.distinct
  tick := h.tick
  due := h.due
  ids := h.ids

/-- What a step of one timer has to keep, with whether its watcher was handled. -/
lemma Inv.setTimer (handled : Bool)
    (harmed : ∀ t x, s.waits t = some x → x.stage.inLoop = true → s.Pending x →
      (s.cpus k).Armed (Owns x) → c.Armed (Owns x))
    (hnot : ∀ x w, s.Pending x → handled = true → c.current = some w → ¬ Owns x w)
    (hdue : ∀ w, c.current = some w → w.expires ≤ s.latest)
    (hus : ∀ us, c.us = some us → us ≤ s.latest) :
    ({ s.setCpu k c with handled := update s.handled k handled } : TimedWaits).Inv := by
  refine ⟨fun t x hx hloop => ?_, h.generation, h.fresh, h.distinct,
    (forall_update_iff s.cpus fun _ c => ∀ us, c.us = some us → us ≤ s.latest).2
      ⟨hus, fun j _ => h.tick j⟩,
    (forall_update_iff s.cpus fun _ c => ∀ w, c.current = some w → w.expires ≤ s.latest).2
      ⟨hdue, fun j _ => h.due j⟩, h.ids⟩
  refine (h.guarded t x hx hloop).imp_right fun hpending => ⟨?_, fun j w hh hw hown => ?_⟩
  · obtain ⟨j, hj⟩ := hpending.1
    refine ⟨j, ?_⟩
    by_cases hjk : j = k
    · subst hjk
      simpa [TimedWaits.setCpu] using harmed t x hx hloop hpending hj
    · simpa [TimedWaits.setCpu, hjk] using hj
  · by_cases hjk : j = k
    · subst hjk
      simp only [TimedWaits.setCpu, update_self] at hh hw
      exact hnot x w hpending hh hw hown
    · simp only [TimedWaits.setCpu, update_of_ne hjk] at hh hw
      exact hpending.2 j w hh hw hown

lemma Inv.setCpu (harmed : ∀ t x, s.waits t = some x → x.stage.inLoop = true → s.Pending x →
      (s.cpus k).Armed (Owns x) → c.Armed (Owns x))
    (hcurrent : ∀ w, c.current = some w → ∃ w', (s.cpus k).current = some w' ∧ w'.id = w.id ∧
      w'.expires = w.expires ∧ w'.handler = w.handler)
    (hus : ∀ us, c.us = some us → us ≤ s.latest) : (s.setCpu k c).Inv := by
  have hset := h.setTimer (s.handled k) harmed (fun x w hpending hh hw hown => ?_)
    (fun w hw => ?_) hus
  · rwa [update_eq_self] at hset
  · obtain ⟨w', hw', hid, hexp, hhandler⟩ := hcurrent w hw
    exact hpending.2 k w' hh hw' ⟨hid.trans hown.1, hhandler.trans hown.2.1, hexp.trans hown.2.2⟩
  · obtain ⟨w', hw', -, hexp, -⟩ := hcurrent w hw
    exact hexp ▸ h.due k w' hw'

lemma Inv.scheduleAt {expires : ℕ} {handler : WaitHandler}
    (hc : (s.cpus k).scheduleAt id now expires handler = some c) : (s.setCpu k c).Inv := by
  refine h.setCpu (fun t x _ _ _ ha => ha.scheduleAt hc) (fun w hw => ?_) fun us hus => ?_
  · rw [current_scheduleAt hc] at hw
    exact ⟨w, hw, rfl, rfl, rfl⟩
  · rw [us_scheduleAt hc] at hus
    exact h.tick k us hus

lemma Inv.nextId : ({ s with nextWatcherId := s.nextWatcherId + 1 } : TimedWaits).Inv :=
  { h with
    fresh := fun t x hx => (h.fresh t x hx).trans (Nat.lt_succ_self _)
    ids := Nat.succ_pos _ }

lemma Inv.cancel (hid : ∀ t x w, s.waits t = some x → x.stage.inLoop = true →
      (w ∈ (s.cpus k).watcherList ∨ w ∈ (s.cpus k).tickList) → Owns x w → w.id ≠ id) :
    (s.setCpu k ((s.cpus k).cancel id)).Inv := by
  refine h.setCpu (fun t x hx hloop _ ha => ?_) (fun w hw => current_cancel hw) fun us hus => ?_
  · obtain ⟨w, hw, hen, hown⟩ := ha
    have harmed : (s.cpus k).Armed fun w => Owns x w ∧ w.id ≠ id :=
      ⟨w, hw, hen, hown, hid t x w hx hloop hw hown⟩
    exact (harmed.cancel fun w hw => hw.2).mono fun w hw => hw.1
  · rw [us_cancel] at hus
    exact h.tick k us hus

/-! ### The steps of a call -/

lemma Inv.check (hx : s.waits t = some x) (hcheck : x.check asserted = some x') :
    (s.setWait t x').Inv := by
  rw [TimedWait.check] at hcheck
  split at hcheck
  · cases hcheck
    refine h.goOn hx rfl (h.generation t x hx) fun hloop => ?_
    cases asserted <;> cases hloop
  next hstage =>
    cases hcheck
    refine h.goOn hx rfl (h.generation t x hx) fun hloop => ?_
    cases asserted with
    | true => cases hloop
    | false =>
      refine (h.guarded t x hx (by rw [hstage]; rfl)).imp (fun hlate => ?_)
        fun hpending => hpending.of_eq rfl rfl
      exact ⟨hlate.1, nofun⟩
  · cases hcheck

lemma Inv.clock (hx : s.waits t = some x) (hnow : s.latest = now)
    (hclock : x.clock now asserted = some x') : (s.setWait t x').Inv := by
  rw [TimedWait.clock] at hclock
  split at hclock
  · cases hclock
    refine h.goOn hx rfl (h.generation t x hx) fun hloop => ?_
    split at hloop <;> cases hloop
  next hstage =>
    cases hclock
    refine h.goOn hx rfl (h.generation t x hx) fun hloop => ?_
    split at hloop
    · cases hloop
    next hbefore =>
      rcases h.guarded t x hx (by rw [hstage]; rfl) with hlate | hpending
      · exact absurd (hnow ▸ hlate.1) hbefore
      · exact .inr (hpending.of_eq rfl rfl)
  · cases hclock
    exact h.goOn hx rfl (h.generation t x hx) nofun
  · cases hclock

lemma Inv.arm (hx : s.waits t = some x) (hnow : s.latest = now) : (s.arm t k now x).Inv := by
  rw [TimedWaits.arm]
  split
  next c hc =>
    have hcpu := h.scheduleAt hc
    refine Inv.setWait (s := { s.setCpu k c with nextWatcherId := s.nextWatcherId + 1 }) ?_
      (fun _ => ?_) (h.generation t x hx) (Nat.lt_succ_self _) fun t' y hne hy heq => ?_
    · exact hcpu.nextId
    · have harmed : c.Armed (Owns { x with stage := .entered, watcher := s.nextWatcherId }) :=
        (armed_scheduleAt hc).mono fun w hw => ⟨hw.1, hw.2.2, hw.2.1⟩
      by_cases hhandled : ∃ j w, s.handled j = true ∧ ((s.setCpu k c).cpus j).current = some w ∧
          Owns { x with stage := .entered, watcher := s.nextWatcherId } w
      · obtain ⟨j, w, -, hw, hown⟩ := hhandled
        exact .inl ⟨hown.2.2 ▸ hcpu.due j w hw, by simp⟩
      · push Not at hhandled
        refine .inr ⟨⟨k, ?_⟩, hhandled⟩
        simpa [TimedWaits.setCpu] using harmed
    · exact absurd heq.symm (h.fresh t' y hy).ne
  next hlate =>
    rw [CpuTimer.scheduleAt] at hlate
    split at hlate
    · cases hlate
    next hbefore =>
      refine h.setWait (fun _ => .inl ⟨?_, by simp⟩) (h.generation t x hx) ?_ fun _ _ _ _ _ => rfl
      · exact hnow ▸ not_lt.1 hbefore
      · exact h.ids

lemma Inv.leave (k : ℕ) (hx : s.waits t = some x) : (s.leave t k x).Inv := by
  have hleft : (s.setWait t { x with stage := .canceled }).Inv :=
    h.goOn hx rfl (h.generation t x hx) nofun
  rw [TimedWaits.leave]
  split
  · exact hleft
  rename_i hwatcher
  refine hleft.cancel fun t' y w hy hloop _ hown hid => ?_
  have hne : t' ≠ t := by
    rintro rfl
    simp only [TimedWaits.setWait, update_self, Option.some.injEq] at hy
    subst hy
    cases hloop
  simp only [TimedWaits.setWait, update_of_ne hne] at hy
  have heq : x.watcher = y.watcher := hid.symm.trans hown.1
  rcases h.distinct t t' x y hx hy heq with hzero | heq'
  · exact hwatcher hzero
  · exact hne heq'.symm

/-! ### The steps of a tick -/

lemma Inv.beginTick {us : ℕ} (hus : us ≤ s.latest) (hc : (s.cpus k).beginTick us = some c) :
    (s.setCpu k c).Inv := by
  refine h.setCpu (fun t x _ _ _ ha => ha.beginTick hc) (fun w hw => ?_) fun us' hus' => ?_
  · rw [current_beginTick hc] at hw
    cases hw
  · rw [us_beginTick hc, Option.some.injEq] at hus'
    exact hus' ▸ hus

lemma Inv.nextTick (hc : (s.cpus k).nextTick = some c)
    (hdue : ∀ w, c.current = some w → w.expires ≤ s.latest) :
    ({ s.setCpu k c with handled := update s.handled k false } : TimedWaits).Inv :=
  h.setTimer false (fun t x _ _ _ ha => ha.nextTick hc) (fun _ _ _ hh => by cases hh) hdue
    fun us hus => h.tick k us (us_nextTick hc hus)

/-- **The handler wakes the calls whose deadline is reached.** -/
theorem Inv.handle {w : Watcher WaitHandler} (hw : (s.cpus k).current = some w) :
    (s.handle k w).Inv := by
  have hle : s.generation ≤ (s.handle k w).generation := by
    rw [TimedWaits.handle]
    dsimp only
    split <;> omega
  refine ⟨fun t x hx hloop => ?_, fun t x hx => (h.generation t x hx).trans hle, h.fresh,
    h.distinct, h.tick, h.due, h.ids⟩
  have hgen := h.generation t x hx
  by_cases hown : Owns x w
  · refine .inl ⟨hown.2.2 ▸ h.due k w hw, fun _ => ?_⟩
    simp only [TimedWaits.handle, hown.2.1, if_true]
    omega
  refine (h.guarded t x hx hloop).imp (fun hlate => ⟨hlate.1, fun hasleep => ?_⟩)
    fun hpending => ⟨hpending.1, fun j w' hh hw' hown' => ?_⟩
  · have := hlate.2 hasleep
    omega
  · by_cases hjk : j = k
    · subst hjk
      obtain rfl : w = w' := some.inj (hw.symm.trans hw')
      exact hown hown'
    · simp only [TimedWaits.handle, update_of_ne hjk] at hh
      exact hpending.2 j w' hh hw' hown'

lemma Inv.endHandler (hh : s.handled k = true) (hc : (s.cpus k).endHandler = some c) :
    (s.setCpu k c).Inv := by
  refine h.setCpu (fun t x _ _ hpending ha => ?_) (fun w hw => ?_) fun us hus => ?_
  · exact ha.endHandler hc fun w hw => hpending.2 k w hh hw
  · rw [current_endHandler hc] at hw
    cases hw
  · rw [us_endHandler hc] at hus
    exact h.tick k us hus

omit h in
/-- **A steady step keeps the invariant.** -/
theorem inv_step (s : TimedWaits) (a : TimedAction) (s' : TimedWaits) (h : s.Inv)
    (hsteady : s.steady a = true) (hstep : s.step a = some s') : s'.Inv := by
  have hread : ∀ now, decide (s.latest ≤ now) = true → (s.read now).latest = now :=
    fun now hnow => Nat.max_eq_right (of_decide_eq_true hnow)
  cases a with
  | enter t deadline =>
    simp only [step] at hstep
    repeat' split at hstep
    all_goals cases hstep
    exact h.setWait nofun (Nat.zero_le _) h.ids fun _ _ _ _ _ => rfl
  | signal t asserted =>
    cases hstep
    exact ⟨h.guarded, h.generation, h.fresh, h.distinct, h.tick, h.due, h.ids⟩
  | notify =>
    cases hstep
    exact h.notify
  | check t =>
    obtain ⟨x, hx, hstep⟩ := bind_eq_some_iff.1 hstep
    obtain ⟨x', hx', rfl⟩ := map_eq_some_iff.1 hstep
    exact h.check hx hx'
  | clock t now =>
    obtain ⟨x, hx, hstep⟩ := bind_eq_some_iff.1 hstep
    obtain ⟨x', hx', rfl⟩ := map_eq_some_iff.1 hstep
    exact (h.read now).clock hx (hread now hsteady) hx'
  | arm t k now =>
    obtain ⟨x, hx, hstep⟩ := bind_eq_some_iff.1 hstep
    split at hstep
    · cases hstep
      exact (h.read now).arm hx (hread now hsteady)
    · cases hstep
  | load t =>
    obtain ⟨x, hx, hstep⟩ := bind_eq_some_iff.1 hstep
    obtain ⟨hstage, rfl⟩ := ite_some_none_eq_some.1 hstep
    refine h.goOn hx rfl le_rfl fun _ => ?_
    exact (h.guarded t x hx (by rw [hstage]; rfl)).imp (fun hlate => ⟨hlate.1, nofun⟩)
      fun hpending => hpending.of_eq rfl rfl
  | wake t =>
    obtain ⟨x, hx, hstep⟩ := bind_eq_some_iff.1 hstep
    obtain ⟨hstage, rfl⟩ := ite_some_none_eq_some.1 hstep
    refine h.goOn hx rfl (h.generation t x hx) fun _ => ?_
    exact (h.guarded t x hx (by rw [hstage.1]; rfl)).imp (fun hlate => ⟨hlate.1, nofun⟩)
      fun hpending => hpending.of_eq rfl rfl
  | leave t k =>
    obtain ⟨x, hx, hstep⟩ := bind_eq_some_iff.1 hstep
    split at hstep
    · cases hstep
      exact h.leave k hx
    · cases hstep
  | schedule k now expires =>
    obtain ⟨c, hc, rfl⟩ := map_eq_some_iff.1 hstep
    exact (h.scheduleAt hc).nextId
  | cancel k id =>
    obtain ⟨hc, hstep⟩ := ite_none_right_eq_some.1 hstep
    cases hstep
    refine h.cancel fun t x w hx _ hw hown => ?_
    have hall := List.all_eq_true.1 hc w (List.mem_append.2 hw)
    simpa [hown.2.1] using hall
  | beginTick k us =>
    obtain ⟨c, hc, rfl⟩ := map_eq_some_iff.1 hstep
    exact (h.read us).beginTick (hread us hsteady).ge hc
  | nextTick k =>
    obtain ⟨c, hc, rfl⟩ := map_eq_some_iff.1 hstep
    refine h.nextTick hc fun w hw => ?_
    simp only [steady, hc, hw, all_some, Option.any_eq_true, decide_eq_true_eq] at hsteady
    obtain ⟨us, hus, hle⟩ := hsteady
    exact hle.trans (h.tick k us hus)
  | handle k =>
    simp only [step] at hstep
    split at hstep
    · cases hstep
    · obtain ⟨w, hw, rfl⟩ := map_eq_some_iff.1 hstep
      exact h.handle hw
  | endHandler k =>
    obtain ⟨hh, hstep⟩ := ite_none_right_eq_some.1 hstep
    obtain ⟨c, hc, rfl⟩ := map_eq_some_iff.1 hstep
    exact h.endHandler hh hc

lemma Inv.ends : s.Ends := by
  intro t x hx hstage hgeneration _
  rcases h.guarded t x hx (by rw [hstage]; rfl) with hlate | hpending
  · exact absurd hgeneration (hlate.2 hstage)
  · obtain ⟨k, hk⟩ := hpending.1
    exact ⟨k, hk.mono fun w hw => hw.2⟩

end

lemma inv_start : ({} : TimedWaits).Inv := ⟨nofun, nofun, nofun, nofun, nofun, nofun, Nat.one_pos⟩

end TimedWaits

/-- A call goes to sleep at the time `0`, with the deadline `1000`. -/
def asleepUntil : List TimedAction :=
  [.enter 0 1000, .check 0, .clock 0 0, .arm 0 0 0, .load 0, .check 0, .clock 0 0]

def wokenInTime : List TimedAction :=
  asleepUntil ++ [.beginTick 0 1000, .nextTick 0, .handle 0, .endHandler 0]

def wokenEarly : List TimedAction :=
  asleepUntil ++ [.beginTick 0 600, .nextTick 0, .handle 0, .endHandler 0, .wake 0, .load 0,
    .check 0, .clock 0 601]

end Naos.Ipc
