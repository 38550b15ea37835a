import Naos.Task.WaitQueue

/-!
# Futexes

Every futex address belongs to one of a fixed number of buckets, and the waiters of
all the addresses of a bucket share its wait queue and its generation counter.
`futex_wake` advances the generation and marks the first `n` entries of that queue
which are not marked yet, whatever address they wait on.

The sections of `do_wait` and the loop of `do_wake_up` are those of the wait queue.
The condition they evaluate is computed here from the user's memory and from the
generation.  The placement of addresses in buckets is a parameter, and `bucketFor`
is the program's own.
-/

namespace Naos.Futex

open Function List

open WaitQueue (Entry Thread scan)
open Transition (exec)

/-- What a call of `futex_wait` captured before it began to wait. -/
structure Call where
  ptr : ℕ := 0
  val : Int := 0
  generation : UInt64 := 0

/-- The buckets, the threads with their calls, and the words of user memory;
`none` where `copy_from` fails. -/
structure State where
  waiters : ℕ → List Entry := fun _ => []
  generation : ℕ → UInt64 := fun _ => 0
  threads : ℕ → Thread := fun _ => {}
  calls : ℕ → Call := fun _ => {}
  memory : ℕ → Option Int := fun _ => some 0

def bucketFor (ptr : ℕ) : ℕ := (ptr >>> 2) % 64

variable (place : ℕ → ℕ)

/-- The condition that the thread `t` passes to `do_wait`. -/
def State.condition (s : State) (t : ℕ) : Bool :=
  let call := s.calls t
  match s.memory call.ptr with
  | none => true
  | some current =>
    decide (s.generation (place call.ptr) ≠ call.generation) || decide (current ≠ call.val)

/-- The next section of `do_wait` for the thread `t`, in the queue of its bucket. -/
def State.advance (s : State) (t : ℕ) : Option State :=
  let b := place (s.calls t).ptr
  (WaitQueue.advance t (s.waiters b) { s.threads t with cond := s.condition place t }).map
    fun r => { s with
      waiters := update s.waiters b r.1
      threads := update s.threads t r.2 }

/-- `update_state_sync(thread, ready)` for one target of `do_wake_up`. -/
def ready (threads : ℕ → Thread) (t : ℕ) : ℕ → Thread :=
  update threads t (threads t).updateReady

/-- `futex_wake`: the number of targets, and the state after the call. -/
def State.wake (s : State) (ptr : ℕ) (val : Int) : ℕ × State :=
  let b := place ptr
  let s := { s with generation := update s.generation b (s.generation b + 1) }
  if val ≤ 0 then (0, s)
  else
    let r := scan val.toNat (s.waiters b)
    (r.2.length,
      { s with
        waiters := update s.waiters b r.1
        threads := r.2.foldl ready s.threads })

/-- The thread is parked in `do_wait` on the word at `ptr`, and no wake-up has marked
its entry yet. -/
structure Waits (s : State) (t ptr : ℕ) : Prop where
  entry : ⟨t, false⟩ ∈ s.waiters (place ptr)
  pc : (s.threads t).pc = .sched
  ptr : (s.calls t).ptr = ptr

/-- The thread may run, and left alone it runs to the end of `do_wait`. -/
def Returns (s : State) (t : ℕ) : Prop :=
  (s.threads t).run = .running ∧ ∃ n s', exec (State.advance place) s (replicate n t) = some s' ∧
      (s'.threads t).pc = .idle

/-- **The promise of `futex_wake(ptr, val)`.**  If some thread waits on the word and
the word has changed for all of those who do, then the call lets one of them return,
and makes nobody else run. -/
def Reaches (s : State) (ptr : ℕ) (val : Int) : Prop :=
  (∃ t, Waits place s t ptr) → (∀ t, Waits place s t ptr → s.memory ptr ≠ some (s.calls t).val) →
    (∃ t, Waits place s t ptr ∧ Returns place (s.wake place ptr val).2 t) ∧
      ∀ t, ¬ Waits place s t ptr → (s.wake place ptr val).2.threads t = s.threads t

/-- The threads of the first `n` entries of the bucket that are not marked yet. -/
def State.targets (s : State) (ptr n : ℕ) : List ℕ :=
  (((s.waiters (place ptr)).filter (!·.wakeRequested)).take n).map (·.thd)

/-- Among the first `n` unmarked entries of the bucket is a waiter of the word that job control
does not hold, or a waiter of the word runs already; the others among them are threads that a
wake-up leaves as they are. -/
structure Serves (s : State) (ptr n : ℕ) : Prop where
  own : ∃ t, Waits place s t ptr ∧ ((s.threads t).run = .running ∨
    t ∈ s.targets place ptr n ∧ (s.threads t).jobStopped = false)
  others : ∀ t ∈ s.targets place ptr n, Waits place s t ptr ∨ (s.threads t).jobStopped = true ∨
    (s.threads t).run = .running

/-! ## The targets -/

variable {place} {s : State} {t ptr : ℕ} {val : Int} {l : List Entry}

lemma scan_targets (n : ℕ) (l : List Entry) :
    (scan n l).2 = ((l.filter (!·.wakeRequested)).take n).map (·.thd) := by
  fun_induction scan n l with
  | case1 => simp
  | case2 => simp
  | case3 n e es he r ih => simpa [he] using ih
  | case4 n e es he r ih => simpa [he] using ih

lemma foldl_ready (ts : List ℕ) (threads : ℕ → Thread) (t : ℕ) :
    ts.foldl ready threads t = if t ∈ ts then (threads t).updateReady else threads t := by
  induction ts generalizing threads with
  | nil => simp
  | cons u us ih =>
    rw [foldl_cons, ih]
    by_cases hu : t = u
    · subst hu
      cases hjob : (threads t).jobStopped <;> simp [ready, Thread.updateReady, hjob]
    · simp [ready, hu]

/-- A parked thread that may run and whose condition is true leaves `do_wait`. -/
lemma returns_of_condition (hpc : (s.threads t).pc = .sched)
    (hrun : (s.threads t).run = .running) (hcond : s.condition place t = true) :
    Returns place s t := by
  refine ⟨hrun, 4, ?_⟩
  -- No section of `do_wait` changes what the condition reads.
  have hcalls : ∀ (w : ℕ → List Entry) (th : ℕ → Thread),
      State.condition place { s with waiters := w, threads := th } t = true := fun _ _ => hcond
  simp [exec, replicate, State.advance, WaitQueue.advance, hpc, hrun, hcond, hcalls]

/-! ## The wake-up -/

lemma threads_wake (hval : 1 ≤ val) (t : ℕ) : (s.wake place ptr val).2.threads t =
    if t ∈ s.targets place ptr val.toNat then (s.threads t).updateReady else s.threads t := by
  have hpos : ¬ val ≤ 0 := by omega
  simp [State.wake, hpos, foldl_ready, scan_targets, State.targets]

/-- Each thread of `calls` sleeps on its address, where it found 0; all of them share a
queue, and the word at `0x1100` is 1 now. -/
def asleep (calls : List (ℕ × ℕ)) : State where
  waiters := fun b => if b = bucketFor 0x1100 then calls.map fun c => ⟨c.1, false⟩ else []
  threads := fun _ => { pc := .sched, run := .stopped }
  calls := fun t => { ptr := (calls.lookup t).getD 0 }
  memory := fun ptr => some (if ptr = 0x1100 then 1 else 0)

end Naos.Futex
