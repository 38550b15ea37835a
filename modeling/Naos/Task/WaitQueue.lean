import Naos.Lib.Transition
import Mathlib

/-!
# The kernel wait queue

`wait_queue_t` parks threads until a predicate holds.  `do_wait` evaluates its
condition outside the queue lock and takes the lock only to register, to reset its
wake flag and to leave; `do_wake_up` takes the lock to choose its targets and makes
them ready after releasing it.  The model cuts both functions exactly there: one
step is one lock-protected section, one evaluation of a condition or one call of
the scheduler.

The scheduler enters through `update_state`.  A running thread that asks to be
stopped only gets the attribute `block_to_stop`; it stops at its next scheduling
point, which is `schedule()` or any interrupt that returns to kernel code.

`State.covered` and `Waker.before` are history variables.  They record which
conditions have been true since before a wake-up began, and no step reads them.
-/

namespace Naos.WaitQueue

open Function Transition List Option

/-- Where a thread stands in `do_wait`. -/
inductive Pc where
  /-- Not inside `do_wait`. -/
  | idle
  | first
  /-- Before the section that registers the thread and asks for `stop`. -/
  | register
  | second
  /-- That evaluation was true: before `update_state(thd, ready)`. -/
  | cancelReady
  | cancelRemove
  /-- In `schedule()`. -/
  | sched
  | check
  | rearm
  | giveUp
  | leave
  | finish
  deriving DecidableEq, Repr

inductive RunState where
  | running
  /-- Running with `block_to_stop` set. -/
  | stopping
  /-- `thread_state::stop`. -/
  | stopped
  deriving DecidableEq, Repr

/-- A thread, with the value its condition would evaluate to now. -/
structure Thread where
  pc : Pc := .idle
  run : RunState := .running
  jobStopped : Bool := false
  cond : Bool := false
  deriving DecidableEq, Repr

open Thread

/-- `wait_context_t`: the registered thread and its wake flag. -/
structure Entry where
  thd : ℕ
  wakeRequested : Bool := false
  deriving DecidableEq, Repr

/-! ## The scheduler -/

/-- `update_state(thread, stop)` called by the running thread itself. -/
def Thread.updateStop (x : Thread) : Thread :=
  if x.run = .running then { x with run := .stopping } else x

/-- `update_state(thread, ready)`: ignored while job control holds the thread. -/
def Thread.updateReady (x : Thread) : Thread :=
  if x.jobStopped then x else { x with run := .running }

/-- A scheduling point takes a thread with `block_to_stop` off the processor. -/
def Thread.deschedule (x : Thread) : Option Thread :=
  if x.run = .stopping then some { x with run := .stopped } else none

def Thread.stopThread (x : Thread) : Thread := ({ x with jobStopped := true } : Thread).updateStop

def Thread.continueThread (x : Thread) : Thread :=
  ({ x with jobStopped := false } : Thread).updateReady

/-! ## The sections of `do_wait` -/

/-- `list.find` followed by `it->wake_requested = false`. -/
def resetFlag (t : ℕ) : List Entry → List Entry
  | [] => []
  | e :: es => if e.thd = t then { e with wakeRequested := false } :: es else e :: resetFlag t es

/-- `list.find` followed by `list.remove(it)`. -/
def removeEntry (t : ℕ) (l : List Entry) : List Entry := l.eraseP (·.thd = t)

def Registered (l : List Entry) (t : ℕ) : Prop := ∃ e ∈ l, e.thd = t

instance (l : List Entry) (t : ℕ) : Decidable (Registered l t) :=
  inferInstanceAs (Decidable (∃ e ∈ l, e.thd = t))

/-- The next section of `do_wait` for the thread `t` with record `x`: the list and
the record after it.  A stopped thread takes no step, and `schedule()` returns only
to a thread that is to run. -/
def advance (t : ℕ) (l : List Entry) (x : Thread) : Option (List Entry × Thread) :=
  if x.run = .stopped then none else
  match x.pc with
  | .idle => some (l, { x with pc := .first })
  | .first => some (l, { x with pc := if x.cond then .idle else .register })
  | .register => some (l ++ [{ thd := t }], { x with pc := .second }.updateStop)
  | .second => some (l, { x with pc := if x.cond then .cancelReady else .sched })
  | .cancelReady => some (l, { x with pc := .cancelRemove }.updateReady)
  | .cancelRemove => some (removeEntry t l, { x with pc := .idle })
  | .sched => if x.run = .running then some (l, { x with pc := .check }) else none
  | .check => some (l, { x with pc := if x.cond then .leave else .rearm })
  | .rearm =>
    if Registered l t then some (resetFlag t l, { x with pc := .sched }.updateStop)
    else some (l, { x with pc := .giveUp })
  | .giveUp => some (l, { x with pc := .idle })
  | .leave => some (removeEntry t l, { x with pc := .finish })
  | .finish => some (l, { x with pc := .idle })

/-! ## The sections of `do_wake_up` -/

/-- The locked loop of `do_wake_up`: mark at most `count` entries that are not
marked yet, and collect their threads in list order. -/
def scan : ℕ → List Entry → List Entry × List ℕ
  | _, [] => ([], [])
  | 0, es => (es, [])
  | count + 1, e :: es =>
    if e.wakeRequested then
      let r := scan (count + 1) es
      (e :: r.1, r.2)
    else
      let r := scan count es
      ({ e with wakeRequested := true } :: r.1, e.thd :: r.2)

/-- Where a caller stands in `do_wake_up`. -/
inductive WakePhase where
  | idle
  | entered
  | delivering
  deriving DecidableEq, Repr

/-- One caller of `do_wake_up`.  `full` records that the locked loop was not cut
short by `count`; with the default argument it never is, since that would take
`2 ^ 64 - 1` registered threads. -/
structure Waker where
  phase : WakePhase := .idle
  count : ℕ := 0
  targets : List ℕ := []
  full : Bool := false
  before : ℕ → Bool := fun _ => false

/-! ## The system -/

/-- The queue, the threads that use it and the callers of `do_wake_up`. -/
structure State where
  list : List Entry := []
  threads : ℕ → Thread := fun _ => {}
  wakers : ℕ → Waker := fun _ => {}
  /-- History: the threads whose condition has been true since before some
  wake-all began that has completed. -/
  covered : ℕ → Bool := fun _ => false

open State

inductive Action where
  /-- The next section of `do_wait`; from `idle` the call itself. -/
  | advance (t : ℕ)
  | deschedule (t : ℕ)
  /-- Some other caller of `update_state(thread, ready)`. -/
  | ready (t : ℕ)
  | stopThread (t : ℕ)
  | continueThread (t : ℕ)
  | remove (t : ℕ)
  | setCond (t : ℕ) (b : Bool)
  | wakeEnter (w count : ℕ)
  | wakeScan (w : ℕ)
  | wakeDeliver (w : ℕ)
  | wakeReturn (w : ℕ)
  deriving DecidableEq, Repr

def State.setThread (s : State) (t : ℕ) (x : Thread) : State :=
  { s with threads := update s.threads t x }

/-- Replace the record of one caller of `do_wake_up`. -/
def State.setWaker (s : State) (w : ℕ) (k : Waker) : State :=
  { s with wakers := update s.wakers w k }

/-- The condition of `t` now evaluates to `b`.  A condition that is false has not
been true since before anything. -/
def State.setCond (s : State) (t : ℕ) (b : Bool) : State :=
  let s' := s.setThread t { s.threads t with cond := b }
  if b then s'
  else
    { s' with
      wakers := fun w =>
        { s.wakers w with before := update (s.wakers w).before t false }
      covered := update s.covered t false }

/-- One step of the system; `none` where the action is not enabled. -/
def step (s : State) : Action → Option State
  | .advance t =>
    (advance t s.list (s.threads t)).map fun r => { s with list := r.1 }.setThread t r.2
  | .deschedule t => (s.threads t).deschedule.map (s.setThread t)
  | .ready t => some (s.setThread t (s.threads t).updateReady)
  | .stopThread t => some (s.setThread t (s.threads t).stopThread)
  | .continueThread t => some (s.setThread t (s.threads t).continueThread)
  | .remove t => some { s with list := s.list.filter (·.thd ≠ t) }
  | .setCond t b => some (s.setCond t b)
  | .wakeEnter w count =>
    if (s.wakers w).phase = .idle then
      some (s.setWaker w
        { phase := .entered, count := count, before := fun t => (s.threads t).cond })
    else none
  | .wakeScan w =>
    let k := s.wakers w
    if k.phase = .entered then
      let r := scan k.count s.list
      some ({ s with list := r.1 }.setWaker w
        { k with
          phase := .delivering, targets := r.2, full := decide (s.list.length ≤ k.count) })
    else none
  | .wakeDeliver w =>
    let k := s.wakers w
    match k.phase, k.targets with
    | .delivering, t :: ts =>
      some ((s.setThread t (s.threads t).updateReady).setWaker w { k with targets := ts })
    | _, _ => none
  | .wakeReturn w =>
    let k := s.wakers w
    match k.phase, k.targets with
    | .delivering, [] =>
      some { s with
        wakers := update s.wakers w {}
        covered := fun t => s.covered t || (k.full && k.before t) }
    | _, _ => none

/-- The thread is off the processor, and not because job control holds it there. -/
def Thread.Asleep (x : Thread) : Prop := x.run = .stopped ∧ x.jobStopped = false

instance (x : Thread) : Decidable x.Asleep := inferInstanceAs (Decidable (_ ∧ _))

/-- A registered thread is asleep, its condition evaluates to true, and it became
true before a wake-all began that has completed. -/
def LostWakeup (s : State) : Prop :=
  ∃ e ∈ s.list, (s.threads e.thd).Asleep ∧ (s.threads e.thd).cond = true ∧ s.covered e.thd = true

instance (s : State) : Decidable (LostWakeup s) :=
  inferInstanceAs (Decidable (∃ e ∈ s.list, _))

/-! ## Small facts about the sections -/

@[simp] lemma registered_nil (t : ℕ) : ¬ Registered [] t := by simp [Registered]

@[simp] lemma registered_cons (e : Entry) (es : List Entry) (t : ℕ) :
    Registered (e :: es) t ↔ e.thd = t ∨ Registered es t := by
  simp [Registered]

variable {l l' : List Entry} {t u w : ℕ} {x y : Thread} {ts : List ℕ} {s : State}

lemma registered_append_singleton :
    Registered (l ++ [{ thd := t }]) u ↔ Registered l u ∨ u = t := by
  simp [Registered, or_and_right, exists_or, eq_comm]

lemma registered_of_removeEntry (h : Registered (removeEntry t l) u) : Registered l u := by
  obtain ⟨e, he, hu⟩ := h
  exact ⟨e, mem_of_mem_eraseP he, hu⟩

lemma registered_resetFlag (t u : ℕ) (l : List Entry) :
    Registered (resetFlag t l) u ↔ Registered l u := by
  induction l with
  | nil => simp [resetFlag]
  | cons e es ih =>
    by_cases he : e.thd = t
    · simp [resetFlag, he]
    · simp [resetFlag, he, ih]

lemma registered_scan (count : ℕ) (l : List Entry) (u : ℕ) :
    Registered (scan count l).1 u ↔ Registered l u := by
  fun_induction scan count l with
  | case1 | case2 => simp
  | case3 count e es he r ih | case4 count e es he r ih => simp [r, ih]

/-- **A scan that is not cut short leaves out only the marked entries.** -/
theorem mem_scan_targets {count : ℕ} (hfull : l.length ≤ count) {e : Entry} (he : e ∈ l)
    (hmark : e.wakeRequested = false) : e.thd ∈ (scan count l).2 := by
  fun_induction scan count l with
  | case1 => simp at he
  | case2 es hes => simp_all
  | case3 count d es hd r ih =>
    have hne : e ≠ d := by
      rintro rfl
      simp [hmark] at hd
    have hlen : es.length ≤ count + 1 := by
      simp only [length_cons] at hfull
      omega
    exact ih hlen (mem_of_ne_of_mem hne he)
  | case4 count d es hd r ih =>
    rcases mem_cons.1 he with rfl | he
    · simp
    · have hlen : es.length ≤ count := by
        simp only [length_cons] at hfull
        omega
      exact mem_cons_of_mem _ (ih hlen he)

@[simp] lemma updateStop_pc (x : Thread) : x.updateStop.pc = x.pc := by
  unfold updateStop; split <;> rfl

@[simp] lemma updateStop_cond (x : Thread) : x.updateStop.cond = x.cond := by
  unfold updateStop; split <;> rfl

@[simp] lemma updateStop_jobStopped (x : Thread) : x.updateStop.jobStopped = x.jobStopped := by
  unfold updateStop; split <;> rfl

@[simp] lemma updateReady_pc (x : Thread) : x.updateReady.pc = x.pc := by
  unfold updateReady; split <;> rfl

@[simp] lemma updateReady_cond (x : Thread) : x.updateReady.cond = x.cond := by
  unfold updateReady; split <;> rfl

@[simp] lemma updateReady_jobStopped (x : Thread) : x.updateReady.jobStopped = x.jobStopped := by
  unfold updateReady; split <;> rfl

/-- After `update_state(thread, ready)` only job control keeps a thread from running. -/
lemma run_updateReady (x : Thread) (h : x.updateReady.run ≠ .running) : x.jobStopped = true := by
  by_contra hjob
  simp [updateReady, hjob] at h

lemma run_updateStop_ne_stopped (h : x.run ≠ .stopped) : x.updateStop.run ≠ .stopped := by
  unfold updateStop; split
  · simp
  · exact h

lemma run_updateReady_ne_stopped (h : x.run ≠ .stopped) : x.updateReady.run ≠ .stopped := by
  unfold updateReady; split
  · exact h
  · simp

/-! ## The invariant -/

/-- The thread is in `schedule()` with nothing to bring it out again but a wake-up. -/
def Thread.Parked (x : Thread) : Prop :=
  x.pc = .sched ∧ x.run ≠ .running ∧ x.jobStopped = false

/-- A thread that is to stop stands between its registration and `schedule()`, and
one that has stopped stands in `schedule()`, unless job control stopped it. -/
structure Thread.Wf (x : Thread) : Prop where
  stopping : x.run ≠ .running →
    x.jobStopped = true ∨ x.pc = .second ∨ x.pc = .cancelReady ∨ x.pc = .sched
  stopped : x.run = .stopped → x.jobStopped = true ∨ x.pc = .sched

/-- A thread whose condition is true will not sleep on: if it is registered, it is
not about to reset its wake flag, and if it is parked, a wake-up in progress still
has it among its targets. -/
structure Settled (l : List Entry) (x : Thread) (t : ℕ) (targets : List ℕ) : Prop where
  cond : x.cond = true
  awake : Registered l t → x.pc ≠ .rearm ∧ (x.Parked → t ∈ targets)

structure Inv (s : State) : Prop where
  wf : ∀ t, (s.threads t).Wf
  covered : ∀ t, s.covered t = true → Settled s.list (s.threads t) t []
  before : ∀ w t, (s.wakers w).before t = true → (s.threads t).cond = true
  pending : ∀ w t, (s.wakers w).phase = .delivering → (s.wakers w).full = true →
    (s.wakers w).before t = true → Settled s.list (s.threads t) t (s.wakers w).targets

lemma inv_init : Inv {} where
  wf t := ⟨by simp, by simp⟩
  covered t h := by simp at h
  before w t h := by simp at h
  pending w t h := by simp at h

/-- What a step may do to one thread and the list without breaking the invariant:
keep the condition, keep the thread well formed, register nobody else, and keep it
settled. -/
structure Tame (t : ℕ) (l : List Entry) (x : Thread) (l' : List Entry) (y : Thread) : Prop where
  cond : y.cond = x.cond
  wf : x.Wf → y.Wf
  registered : ∀ u, u ≠ t → Registered l' u → Registered l u
  settled : ∀ ts, Settled l x t ts → Settled l' y t ts

lemma Settled.mono (h : Settled l x u ts) (hreg : Registered l' u → Registered l u) :
    Settled l' x u ts :=
  ⟨h.cond, fun hu => h.awake (hreg hu)⟩

/-- **A tame change of one thread keeps the invariant.** -/
theorem Inv.ofTame (h : Inv s) (ht : Tame t s.list (s.threads t) l' y) :
    Inv ({ s with list := l' }.setThread t y) := by
  have hsettled : ∀ u ts, Settled s.list (s.threads u) u ts →
      Settled l' (update s.threads t y u) u ts := by
    intro u ts hu
    by_cases htu : u = t
    · subst htu
      simpa using ht.settled ts hu
    · simpa [htu] using hu.mono (ht.registered u htu)
  refine ⟨?_, ?_, ?_, ?_⟩
  · intro u
    by_cases htu : u = t
    · subst htu
      simpa [setThread] using ht.wf (h.wf u)
    · simpa [setThread, htu] using h.wf u
  · intro u hu
    exact hsettled u [] (h.covered u hu)
  · intro w u hu
    by_cases htu : u = t
    · subst htu
      simpa [setThread, ht.cond] using h.before w u hu
    · simpa [setThread, htu] using h.before w u hu
  · intro w u hphase hfull hu
    exact hsettled u _ (h.pending w u hphase hfull hu)

lemma Tame.ofRecord (hcond : y.cond = x.cond) (hpc : y.pc = x.pc) (hwf : x.Wf → y.Wf)
    (hparked : y.Parked → x.Parked) :
    Tame t l x l y where
  cond := hcond
  wf := hwf
  registered _ _ h := h
  settled _ h := ⟨hcond.trans h.cond, fun hreg =>
    ⟨hpc ▸ (h.awake hreg).1, fun hy => (h.awake hreg).2 (hparked hy)⟩⟩

/-- A section of `do_wait` is tame when the thread stays on its processor and, as
long as its condition is true, heads neither for `schedule()` nor for the reset of
its flag. -/
lemma Tame.ofSection (hcond : y.cond = x.cond) (hrun : y.run ≠ .stopped)
    (hwf : x.Wf → y.run ≠ .running →
      y.jobStopped = true ∨ y.pc = .second ∨ y.pc = .cancelReady ∨ y.pc = .sched)
    (hreg : ∀ u, u ≠ t → Registered l' u → Registered l u)
    (hpc : x.cond = true → (Registered l t → x.pc ≠ .rearm) → y.pc ≠ .rearm ∧ y.pc ≠ .sched) :
    Tame t l x l' y where
  cond := hcond
  wf hx := ⟨hwf hx, fun h => absurd h hrun⟩
  registered := hreg
  settled _ h := by
    have hy := hpc h.cond fun hr => (h.awake hr).1
    exact ⟨hcond.trans h.cond, fun _ => ⟨hy.1, fun hp => absurd hp.1 hy.2⟩⟩

/-! ## One step -/

lemma advance_tame (h : advance t l x = some (l', y)) : Tame t l x l' y := by
  unfold advance at h
  split at h
  · simp at h
  rename_i hrun
  -- away from the registration only job control can have asked the thread to stop
  have hjob : x.Wf → x.pc ≠ .second → x.pc ≠ .cancelReady → x.pc ≠ .sched →
      x.run ≠ .running → x.jobStopped = true := by
    intro hx h2 hc hs hy
    have := hx.stopping hy
    tauto
  cases hpc : x.pc <;> simp only [hpc, some.injEq, Prod.mk.injEq] at h
  case register =>
    obtain ⟨rfl, rfl⟩ := h
    refine Tame.ofSection (by simp) (run_updateStop_ne_stopped hrun) (by simp) ?_ (by simp)
    intro u hu hreg
    exact (registered_append_singleton.1 hreg).resolve_right hu
  case second =>
    obtain ⟨rfl, rfl⟩ := h
    refine Tame.ofSection rfl hrun ?_ (fun _ _ hu => hu) ?_
    · cases x.cond <;> simp
    · intro hc _
      simp [hc]
  case cancelReady =>
    obtain ⟨rfl, rfl⟩ := h
    refine Tame.ofSection (by simp) (run_updateReady_ne_stopped hrun) ?_ (fun _ _ hu => hu)
      (by simp)
    intro _ hy
    exact .inl (by simpa using run_updateReady _ hy)
  case sched =>
    split at h
    next hready =>
      obtain ⟨rfl, rfl⟩ := h
      exact Tame.ofSection rfl hrun (fun _ hy => absurd hready hy) (fun _ _ hu => hu) (by simp)
    · simp at h
  case rearm =>
    split at h
    next hreg =>
      obtain ⟨rfl, rfl⟩ := h
      refine Tame.ofSection (by simp) (run_updateStop_ne_stopped hrun) (by simp) ?_ ?_
      · intro u _ hu
        exact (registered_resetFlag t u l).1 hu
      · intro _ hx
        exact absurd hpc (hx hreg)
    · obtain ⟨rfl, rfl⟩ := h
      refine Tame.ofSection rfl hrun ?_ (fun _ _ hu => hu) (by simp)
      exact fun hx hy => .inl (hjob hx (by simp [hpc]) (by simp [hpc]) (by simp [hpc]) hy)
  all_goals
    obtain ⟨rfl, rfl⟩ := h
    refine Tame.ofSection rfl hrun
      (fun hx hy => .inl (hjob hx (by simp [hpc]) (by simp [hpc]) (by simp [hpc]) hy))
      (fun u _ hu => ?_) (fun hc _ => by simp [hc])
    first
      | exact hu
      | exact registered_of_removeEntry hu

/-- The step takes no wake-up away from a thread whose condition has been true since
before that wake-up: a scheduling point does not catch the thread between its
registration and the evaluation that follows it, and the locked loop of a wake-all
does not run while such a thread is about to reset its flag, or is still parked
with the flag already set. -/
def NoSwallow (s : State) : Action → Prop
  | .deschedule t =>
    (s.threads t).jobStopped = true ∨ ((s.threads t).pc ≠ .second ∧ (s.threads t).pc ≠ .cancelReady)
  | .wakeScan w =>
    s.list.length ≤ (s.wakers w).count → ∀ e ∈ s.list, (s.wakers w).before e.thd = true →
      (s.threads e.thd).pc ≠ .rearm ∧ (e.wakeRequested = true → ¬ (s.threads e.thd).Parked)
  | _ => True

instance (x : Thread) : Decidable x.Parked := inferInstanceAs (Decidable (_ ∧ _))

instance (s : State) : ∀ a, Decidable (NoSwallow s a)
  | .deschedule _ => inferInstanceAs (Decidable (_ ∨ _))
  | .wakeScan _ => inferInstanceAs (Decidable (_ → ∀ e ∈ s.list, _))
  | .advance _ | .ready _ | .stopThread _ | .continueThread _ | .remove _ | .setCond _ _
  | .wakeEnter _ _ | .wakeDeliver _ | .wakeReturn _ => inferInstanceAs (Decidable True)

lemma deschedule_tame (hok : x.jobStopped = true ∨ (x.pc ≠ .second ∧ x.pc ≠ .cancelReady))
    (h : x.deschedule = some y) : Tame t l x l y := by
  unfold deschedule at h
  split at h
  next hrun =>
    simp only [some.injEq] at h
    subst h
    refine Tame.ofRecord rfl rfl (fun hx => ?_) (fun hp => ⟨hp.1, by simp [hrun], hp.2.2⟩)
    have hx' := hx.stopping (by simp [hrun])
    exact ⟨fun _ => hx', fun _ => by tauto⟩
  · simp at h

lemma updateReady_tame (t : ℕ) (l : List Entry) (x : Thread) : Tame t l x l x.updateReady := by
  refine Tame.ofRecord (by simp) (by simp) (fun hx => ?_) (fun hp => ?_)
  · refine ⟨fun hy => .inl ?_, fun hy => .inl ?_⟩
    · simpa using run_updateReady x hy
    · simpa using run_updateReady x (by simp [hy])
  · have := run_updateReady x hp.2.1
    simp [Thread.Parked, this] at hp

lemma stopThread_tame (t : ℕ) (l : List Entry) (x : Thread) : Tame t l x l x.stopThread := by
  refine Tame.ofRecord (by simp [stopThread]) (by simp [stopThread])
    (fun _ => ⟨fun _ => .inl (by simp [stopThread]),
      fun _ => .inl (by simp [stopThread])⟩) (fun hp => ?_)
  simp [Thread.Parked, stopThread] at hp

lemma continueThread_tame (t : ℕ) (l : List Entry) (x : Thread) :
    Tame t l x l x.continueThread := by
  have hrun : x.continueThread.run = .running := by simp [continueThread, updateReady]
  refine Tame.ofRecord (by simp [continueThread]) (by simp [continueThread])
    (fun _ => ⟨fun h => absurd hrun h, fun h => by simp [hrun] at h⟩)
    (fun hp => absurd hrun hp.2.1)

lemma Inv.ofList (h : Inv s) (hreg : ∀ u, Registered l' u → Registered s.list u) :
    Inv { s with list := l' } :=
  ⟨h.wf, fun u hu => (h.covered u hu).mono (hreg u), h.before,
    fun w u hp hf hb => (h.pending w u hp hf hb).mono (hreg u)⟩

lemma inv_remove (h : Inv s) (t : ℕ) : Inv { s with list := s.list.filter (·.thd ≠ t) } := by
  refine h.ofList ?_
  rintro u ⟨e, he, hu⟩
  exact ⟨e, mem_of_mem_filter he, hu⟩

/-- A condition that becomes true changes nothing the invariant promises, and one
that becomes false is struck from every history. -/
lemma inv_setCond (h : Inv s) (t : ℕ) (b : Bool) : Inv (s.setCond t b) := by
  have hwf : ∀ u, (update s.threads t { s.threads t with cond := b } u).Wf := by
    intro u
    by_cases hu : u = t
    · subst hu
      rw [update_self]
      exact ⟨(h.wf u).stopping, (h.wf u).stopped⟩
    · simpa [hu] using h.wf u
  cases b with
  | true =>
    have hsettled : ∀ u ts, Settled s.list (s.threads u) u ts → Settled s.list
          (update s.threads t { s.threads t with cond := true } u) u ts := by
      intro u ts hs
      by_cases hu : u = t
      · subst hu
        simpa using (⟨rfl, hs.awake⟩ : Settled _ { s.threads u with cond := true } u ts)
      · simpa [hu] using hs
    refine ⟨hwf, fun u hu => hsettled u _ (h.covered u hu), fun w u hu => ?_,
      fun w u hp hf hb => hsettled u _ (h.pending w u hp hf hb)⟩
    by_cases htu : u = t
    · subst htu
      simp [setCond, setThread]
    · simpa [setCond, setThread, htu] using h.before w u hu
  | false =>
    refine ⟨hwf, fun u hu => ?_, fun w u hu => ?_, fun w u hp hf hb => ?_⟩
    · by_cases htu : u = t
      · simp [setCond, htu] at hu
      · simpa [setCond, setThread, htu] using h.covered u (by simpa [setCond, htu] using hu)
    · by_cases htu : u = t
      · simp [setCond, htu] at hu
      · simpa [setCond, setThread, htu] using h.before w u (by simpa [setCond, htu] using hu)
    · by_cases htu : u = t
      · simp [setCond, htu] at hb
      · simpa [setCond, setThread, htu] using h.pending w u hp hf (by simpa [setCond, htu] using hb)

/-- Replacing one caller of `do_wake_up` keeps the invariant when the new record
meets its two clauses. -/
lemma Inv.setWaker (h : Inv s) {k : Waker}
    (hbefore : ∀ t, k.before t = true → (s.threads t).cond = true)
    (hpending : ∀ t, k.phase = .delivering → k.full = true → k.before t = true →
      Settled s.list (s.threads t) t k.targets) : Inv (s.setWaker w k) := by
  refine ⟨h.wf, h.covered, fun v t hv => ?_, fun v t hp hf hb => ?_⟩
  · by_cases hvw : v = w
    · subst hvw
      exact hbefore t (by simpa [setWaker] using hv)
    · exact h.before v t (by simpa [State.setWaker, hvw] using hv)
  · by_cases hvw : v = w
    · subst hvw
      simp only [State.setWaker, update_self] at hp hf hb ⊢
      exact hpending t hp hf hb
    · simp only [State.setWaker, update_of_ne hvw] at hp hf hb ⊢
      exact h.pending v t hp hf hb

/-- **The locked loop of a wake-all.**  Under the condition of `NoSwallow` a parked
thread is unmarked, so the loop makes it a target. -/
theorem inv_wakeScan (h : Inv s) (w : ℕ) (hok : NoSwallow s (.wakeScan w)) :
    Inv ({ s with list := (scan (s.wakers w).count s.list).1 }.setWaker w
      { s.wakers w with
        phase := .delivering, targets := (scan (s.wakers w).count s.list).2,
        full := decide (s.list.length ≤ (s.wakers w).count) }) := by
  refine (h.ofList fun u => (registered_scan _ _ u).1).setWaker (h.before w) fun t _ hfull hb => ?_
  have hlen : s.list.length ≤ (s.wakers w).count := by simpa using hfull
  refine ⟨h.before w t hb, fun hreg => ?_⟩
  obtain ⟨e, he, rfl⟩ := (registered_scan _ _ _).1 hreg
  obtain ⟨hpc, hmark⟩ := hok hlen e he hb
  refine ⟨hpc, fun hparked => mem_scan_targets hlen he ?_⟩
  by_contra hne
  exact hmark (by simpa using hne) hparked

/-- Making the next target ready takes it off the list of targets: it is no longer
parked, so nobody relies on it being there. -/
lemma inv_wakeDeliver (h : Inv s) (htargets : (s.wakers w).targets = t :: ts) :
    Inv ((s.setThread t (s.threads t).updateReady).setWaker w
      { s.wakers w with targets := ts }) := by
  have h' : Inv (s.setThread t (s.threads t).updateReady) :=
    h.ofTame (updateReady_tame t s.list (s.threads t))
  refine h'.setWaker (h'.before w) fun u hp hf hb => ?_
  have hu := h'.pending w u hp hf hb
  refine ⟨hu.cond, fun hreg => ⟨(hu.awake hreg).1, fun hparked => ?_⟩⟩
  have hmem : u ∈ t :: ts := by
    have := (hu.awake hreg).2 hparked
    simpa [setThread, htargets] using this
  rcases mem_cons.1 hmem with rfl | hmem
  · have hjob := run_updateReady (s.threads u) (by simpa [setThread] using hparked.2.1)
    have := hparked.2.2
    simp [setThread, hjob] at this
  · exact hmem

lemma inv_wakeReturn (h : Inv s) (hphase : (s.wakers w).phase = .delivering)
    (htargets : (s.wakers w).targets = []) :
    Inv { s with
      wakers := update s.wakers w {}
      covered := fun t => s.covered t || ((s.wakers w).full && (s.wakers w).before t) } := by
  have h' : Inv (s.setWaker w {}) := h.setWaker (by simp) (by simp)
  refine ⟨h.wf, fun t ht => ?_, h'.before, h'.pending⟩
  simp only [Bool.or_eq_true, Bool.and_eq_true] at ht
  rcases ht with ht | ⟨hfull, hb⟩
  · exact h.covered t ht
  · exact htargets ▸ h.pending w t hphase hfull hb

/-- **Every step that swallows no wake-up keeps the invariant.** -/
theorem inv_step (s : State) (a : Action) (s' : State) (h : Inv s) (hok : NoSwallow s a)
    (hstep : step s a = some s') : Inv s' := by
  cases a with
  | advance t =>
    simp only [step, map_eq_some_iff] at hstep
    obtain ⟨⟨l', y⟩, hy, rfl⟩ := hstep
    exact h.ofTame (advance_tame hy)
  | deschedule t =>
    simp only [step, map_eq_some_iff] at hstep
    obtain ⟨y, hy, rfl⟩ := hstep
    exact h.ofTame (deschedule_tame hok hy)
  | ready t =>
    cases hstep
    exact h.ofTame (updateReady_tame t _ _)
  | stopThread t =>
    cases hstep
    exact h.ofTame (stopThread_tame t _ _)
  | continueThread t =>
    cases hstep
    exact h.ofTame (continueThread_tame t _ _)
  | remove t =>
    cases hstep
    exact inv_remove h t
  | setCond t b =>
    cases hstep
    exact inv_setCond h t b
  | wakeEnter w count =>
    obtain ⟨-, hstep⟩ := ite_none_right_eq_some.1 hstep
    cases hstep
    exact h.setWaker (fun _ ht => ht) (by simp)
  | wakeScan w =>
    obtain ⟨-, hstep⟩ := ite_none_right_eq_some.1 hstep
    cases hstep
    exact inv_wakeScan h w hok
  | wakeDeliver w =>
    simp only [step] at hstep
    split at hstep
    next t ts hphase htargets =>
      cases hstep
      exact inv_wakeDeliver h htargets
    · simp at hstep
  | wakeReturn w =>
    simp only [step] at hstep
    split at hstep
    next hphase htargets =>
      cases hstep
      exact inv_wakeReturn h hphase htargets
    · simp at hstep

/-! ## Every run -/

lemma Inv.not_lostWakeup (h : Inv s) : ¬ LostWakeup s := by
  rintro ⟨e, he, ⟨hstopped, hjob⟩, -, hcov⟩
  have hsched : (s.threads e.thd).pc = .sched := by
    have := (h.wf e.thd).stopped hstopped
    simpa [hjob] using this
  have hparked : (s.threads e.thd).Parked := ⟨hsched, by simp [hstopped], hjob⟩
  have := ((h.covered e.thd hcov).awake ⟨e, he, rfl⟩).2 hparked
  simp at this

/-- **No wake-up is lost** in a run, of any number of waiters and wakers in any
order, none of whose steps swallows one. -/
theorem no_lostWakeup_of_noSwallow (as : List Action) {s : State}
    (hok : Along step NoSwallow {} as) (hrun : exec step {} as = some s) :
    ¬ LostWakeup s :=
  (exec_induct inv_step inv_init hok hrun).not_lostWakeup

/-- The sections thread 0 goes through until it sleeps in `do_wait`. -/
def goToSleep : List Action :=
  [.advance 0, .advance 0, .advance 0, .advance 0, .deschedule 0]

def wakeAllRun : List Action :=
  goToSleep ++
    [.setCond 0 true, .wakeEnter 0 (2 ^ 64 - 1), .wakeScan 0, .wakeDeliver 0, .wakeReturn 0]

theorem no_lostWakeup_wakeAllRun : ∃ s, exec step {} wakeAllRun = some s ∧ ¬ LostWakeup s :=
  ⟨_, rfl, no_lostWakeup_of_noSwallow wakeAllRun (by decide) rfl⟩

/-- Thread 0 is woken once and finds its condition false.  Before it resets its flag
the condition becomes true and a second wake-all runs from beginning to end, whose
loop skips the entry because the flag is still set.  Thread 0 then resets the flag
and goes to sleep. -/
def swallowedRun : List Action :=
  goToSleep ++ [.wakeEnter 0 (2 ^ 64 - 1), .wakeScan 0, .wakeDeliver 0, .wakeReturn 0,
      .advance 0, .advance 0, .setCond 0 true,
      .wakeEnter 1 (2 ^ 64 - 1), .wakeScan 1, .wakeReturn 1,
      .advance 0, .deschedule 0]

/-- **The second wake-up is swallowed.** -/
theorem lostWakeup_swallowedRun : ∃ s, exec step {} swallowedRun = some s ∧ LostWakeup s :=
  ⟨_, rfl, by decide⟩

end Naos.WaitQueue
