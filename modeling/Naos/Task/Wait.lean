import Naos.Lib.Transition
import Mathlib

/-!
# Waiting for child processes

A parent waits for the exit of a child, and on request also for its stops, through
`wait_process_handle` for one child or `wait_process_children` for some of them.  A wait
first reserves a child, which keeps other waits away from it, and then looks at flags that
exits and signal handlers change without any lock.

One step of the model is one access to a flag another thread may change, or one section
under `process_list_lock`.  Only the start of a wait for children is both: it loads the
generation and then scans the children, in one step.

`Proc.stops` and `State.log` are history variables.  The first has the signals that turned
a running process into a stopped one, the second what the calls answered and which
processes were deleted.  No step reads the log, and `stops` only numbers the reports.
-/

namespace Naos.Wait

/-- The part of `process_t` that the wait calls read. -/
structure Proc where
  parentPid : ℕ := 0
  processGroupId : ℕ := 0
  /-- The length of `thread_list`. -/
  threads : ℕ := 1
  noThread : Bool := false
  jobControlStopped : Bool := false
  destroy : Bool := false
  reapPending : Bool := false
  waitClaimed : Bool := false
  waitStopReported : Bool := false
  lastStopSignal : ℤ := 0
  waitCounter : ℤ := 0
  retVal : ℤ := 0
  childWaitGeneration : ℕ := 0
  stops : List ℤ := []

inductive Kind where
  | handle
  | children
  deriving DecidableEq, Repr

inductive Stage where
  /-- The checks of `wait_process_handle`, or the top of the loop of
  `wait_process_children`. -/
  | start
  /-- The first test of `no_thread`. -/
  | exited
  /-- `reserve_child` of an exited child. -/
  | reserveExited
  /-- `reserve_child` of a stopped child. -/
  | reserveStopped
  /-- `reserve_child` of any child. -/
  | reserve
  /-- The two loads of `stopped_unreported`, without a reservation. -/
  | peekStopped
  | peekReported
  /-- The exchange of `wait_stop_reported` without a reservation. -/
  | markReported
  /-- The load of `last_stop_signal` after it. -/
  | readSignal
  /-- The condition of `do_wait`, and its second load. -/
  | waiting
  | waitingReported
  /-- In `do_wait` on `child_wait_queue`. -/
  | waitingAny
  /-- Out of `do_wait`. -/
  | awake
  | checkExited
  | checkStopped
  | checkReported
  /-- The exchange of `wait_stop_reported` with a reservation. -/
  | exchangeReported
  | dropClaim
  | dropCount
  | readStop
  /-- A reservation is given back; `again` if the loop goes on. -/
  | release (again : Bool)
  | uncount (again : Bool)
  /-- `reap_waited_child`: the counter, and the deletion. -/
  | reap
  | delete
  | done
  deriving DecidableEq, Repr

/-- A call of one of the two functions.  `target` is the child it works on. -/
structure Call where
  kind : Kind
  parent : ℕ
  requestedPid : ℤ
  /-- `NA_PROCESS_WAIT_FLAG_UNTRACED`. -/
  wantStop : Bool
  noHang : Bool
  target : ℕ := 0
  stage : Stage := .start
  interrupted : Bool := false
  generation : ℕ := 0
  number : ℕ := 0
  deriving DecidableEq

def Call.afterPeek (c : Call) : Stage := if c.noHang then .done else .reserve

/-- Where a call goes that holds a reservation and finds no stop to report.  In
`wait_process_handle` this is the last line, and it is the one that reaps. -/
def Call.fallThrough (c : Call) : Stage :=
  match c.kind with
  | .handle => .reap
  | .children => .release true

/-- Where a signal handler stands: before the step that is named. -/
inductive HandlerStage where
  /-- `sig_stop`. -/
  | setSignal (number : ℤ)
  | checkThread (number : ℤ)
  | setStopped (number : ℤ)
  /-- `sig_continue`. -/
  | clearReported
  | clearSignal
  | clearStopped
  | finished
  deriving DecidableEq, Repr

structure Handler where
  pid : ℕ
  stage : HandlerStage
  deriving DecidableEq

inductive Event where
  | reaped (pid : ℕ) (value : ℤ)
  | stopped (pid number : ℕ) (status : ℤ)
  /-- `delete_process` was called while the process had this many threads. -/
  | deleted (pid threads : ℕ)
  deriving DecidableEq, Repr

/-- The processes, and the keys of `global_process_map` in the order of a scan. -/
structure State where
  procs : ℕ → Proc
  map : List ℕ
  calls : List Call := []
  handlers : List Handler := []
  log : List Event := []

/-- `(signal << 8) | 0x7f`. -/
def stopStatus (signal : ℤ) : ℤ := signal * 256 + 127

namespace State

variable (s : State)

def modify (pid : ℕ) (f : Proc → Proc) : State :=
  { s with procs := Function.update s.procs pid (f (s.procs pid)) }

def note (e : Event) : State := { s with log := s.log ++ [e] }

def matchesWaitPid (parent child : ℕ) (requestedPid : ℤ) : Bool :=
  if requestedPid = -1 then true
  else if 0 < requestedPid then decide ((child : ℤ) = requestedPid)
  else if requestedPid = 0 then
    decide ((s.procs child).processGroupId = (s.procs parent).processGroupId)
  else if requestedPid = -2 ^ 63 then false
  else decide (((s.procs child).processGroupId : ℤ) = -requestedPid)

def eligible (parent : ℕ) (requestedPid : ℤ) (child : ℕ) : Bool :=
  decide ((s.procs child).parentPid = parent) && !(s.procs child).destroy &&
    s.matchesWaitPid parent child requestedPid

def stoppedUnreported (child : ℕ) : Bool :=
  (s.procs child).jobControlStopped && !(s.procs child).waitStopReported

/-- What `select_child` finds: an exited child, a stopped child, and any child. -/
structure Selection where
  process : Bool
  stoppedProcess : Bool
  hasChild : Bool

def selectChild (parent : ℕ) (requestedPid : ℤ) (wantStop : Bool) : Selection :=
  let children := s.map.filter (s.eligible parent requestedPid)
  { process := children.any fun p => (s.procs p).noThread && !(s.procs p).waitClaimed
    stoppedProcess := wantStop &&
      children.any fun p => s.stoppedUnreported p && !(s.procs p).waitClaimed
    hasChild := !children.isEmpty }

/-- The child `reserve_child` takes. -/
def reservable (parent : ℕ) (requestedPid : ℤ) (exitedOnly stoppedOnly : Bool) : Option ℕ :=
  s.map.find? fun p =>
    s.eligible parent requestedPid p && !(s.procs p).waitClaimed &&
      (!exitedOnly || (s.procs p).noThread) && (!stoppedOnly || s.stoppedUnreported p)

def reserveChild (parent : ℕ) (requestedPid : ℤ) (exitedOnly stoppedOnly : Bool) :
    Option (ℕ × State) :=
  (s.reservable parent requestedPid exitedOnly stoppedOnly).map fun p =>
    (p, s.modify p fun q => { q with waitClaimed := true, waitCounter := q.waitCounter + 1 })

/-- The first section of `notify_parent_of_child_state_change`. -/
def notifyParent (pid : ℕ) : State :=
  let parent := (s.procs pid).parentPid
  if parent ∈ s.map then
    s.modify parent fun q => { q with childWaitGeneration := q.childWaitGeneration + 1 }
  else s

/-- `delete_process`: only the first call takes the process out of the map. -/
def deleteProcess (pid : ℕ) : State :=
  let s' := s.note (.deleted pid (s.procs pid).threads)
  if (s.procs pid).reapPending then s'
  else
    { s'.modify pid fun q => { q with reapPending := true, destroy := true } with
      map := s.map.erase pid }

/-! ## The wait calls -/

def afterReserve (c : Call) (r : Option (ℕ × State)) (refused : Stage)
    (granted : ℕ → Stage) : State × Call :=
  match r with
  | none => (s, { c with stage := refused })
  | some (p, s') => (s', { c with target := p, stage := granted p })

def begin (c : Call) : Call :=
  if c.kind = .handle then
    if (s.procs c.target).parentPid ≠ c.parent ∨ (s.procs c.target).reapPending = true ∨
        c.interrupted = true then { c with stage := .done }
    else { c with stage := .exited }
  else if c.interrupted then { c with stage := .done }
  else
    let c' := { c with generation := (s.procs c.parent).childWaitGeneration }
    let selection := s.selectChild c.parent c.requestedPid c.wantStop
    if selection.process then { c' with stage := .reserveExited }
    else if selection.stoppedProcess then { c' with stage := .reserveStopped }
    else if selection.hasChild = false ∨ c.noHang = true then { c' with stage := .done }
    else if c.requestedPid ≤ 0 then { c' with stage := .waitingAny }
    else { c' with stage := .reserve }

/-- The exchange of `wait_stop_reported`: the call that wins it reports the stop. -/
def exchange (c : Call) (won lost : Stage) : State × Call :=
  if (s.procs c.target).waitStopReported then (s, { c with stage := lost })
  else
    (s.modify c.target fun q => { q with waitStopReported := true },
      { c with stage := won, number := (s.procs c.target).stops.length })

def answerStop (c : Call) : State × Call :=
  (s.note (.stopped c.target c.number (stopStatus (s.procs c.target).lastStopSignal)),
    { c with stage := .done })

/-- `reap_waited_child` up to the test of the counter. -/
def reapWaitedChild (c : Call) : State × Call :=
  let q := s.procs c.target
  ((s.modify c.target fun q => { q with waitCounter := q.waitCounter - 1 }).note
      (.reaped c.target q.retVal),
    { c with stage := if q.waitCounter - 1 = 0 then .delete else .done })

/-- **The next step of a wait call**; `none` while it sleeps. -/
def advance (c : Call) : Option (State × Call) :=
  let q := s.procs c.target
  let go := fun stage => some (s, { c with stage := stage })
  match c.stage with
  | .start => some (s, s.begin c)
  | .exited => go (if q.noThread then .reserveExited else .peekStopped)
  | .reserveExited =>
    some (s.afterReserve c (s.reserveChild c.parent c.requestedPid true false)
      (if c.kind = .handle then .done else .start)
      fun p => if c.kind = .handle ∧ p ≠ c.target then .done else .reap)
  | .reserveStopped =>
    some (s.afterReserve c (s.reserveChild c.parent c.requestedPid false true) .start
      fun _ => .checkStopped)
  | .reserve =>
    some (s.afterReserve c (s.reserveChild c.parent c.requestedPid false false) .done
      fun _ => .waiting)
  | .peekStopped => go (if c.wantStop && q.jobControlStopped then .peekReported else c.afterPeek)
  | .peekReported => go (if q.waitStopReported then c.afterPeek else .markReported)
  | .markReported => some (s.exchange c .readSignal c.afterPeek)
  | .readSignal => some (s.answerStop c)
  | .waiting =>
    if q.noThread || c.interrupted then go .awake
    else if c.wantStop && q.jobControlStopped then go .waitingReported
    else none
  | .waitingReported => go (if q.waitStopReported then .waiting else .awake)
  | .waitingAny =>
    if c.interrupted ∨ (s.procs c.parent).childWaitGeneration ≠ c.generation then go .start
    else none
  | .awake => go (if c.interrupted then .release false else .checkExited)
  | .checkExited => go (if q.noThread then .reap else .checkStopped)
  | .checkStopped =>
    -- `report_stopped_child` does not look at the flags of the call.
    go (if (decide (c.kind = .children) || c.wantStop) && q.jobControlStopped
      then .checkReported else c.fallThrough)
  | .checkReported => go (if q.waitStopReported then c.fallThrough else .exchangeReported)
  | .exchangeReported => some (s.exchange c .dropClaim c.fallThrough)
  | .dropClaim =>
    some (s.modify c.target fun q => { q with waitClaimed := false },
      { c with stage := .dropCount })
  | .dropCount =>
    some (s.modify c.target fun q => { q with waitCounter := q.waitCounter - 1 },
      { c with stage := .readStop })
  | .readStop => some (s.answerStop c)
  | .release again =>
    some (s.modify c.target fun q => { q with waitClaimed := false },
      { c with stage := .uncount again })
  | .uncount again =>
    some (s.modify c.target fun q => { q with waitCounter := q.waitCounter - 1 },
      { c with stage := if again then .start else .done })
  | .reap => some (s.reapWaitedChild c)
  | .delete =>
    some (((s.notifyParent c.target).modify c.target fun q =>
        { q with destroy := true }).deleteProcess c.target,
      { c with stage := .done })
  | .done => none

/-! ## Signals and exits -/

def handle (h : Handler) : Option (State × Handler) :=
  let q := s.procs h.pid
  match h.stage with
  | .setSignal n =>
    some (s.modify h.pid fun q => { q with lastStopSignal := n },
      { h with stage := .checkThread n })
  | .checkThread n =>
    some (s, { h with stage := if q.noThread then .finished else .setStopped n })
  | .setStopped n =>
    -- `fetch_or`: only the first signal of several is the cause of the stop.
    if q.jobControlStopped then some (s, { h with stage := .finished })
    else
      some ((s.modify h.pid fun q =>
          { q with jobControlStopped := true, stops := q.stops ++ [n] }).notifyParent h.pid,
        { h with stage := .finished })
  | .clearReported =>
    some (s.modify h.pid fun q => { q with waitStopReported := false },
      { h with stage := .clearSignal })
  | .clearSignal =>
    some (s.modify h.pid fun q => { q with lastStopSignal := 0 },
      { h with stage := .clearStopped })
  | .clearStopped =>
    some (s.modify h.pid fun q => { q with jobControlStopped := false },
      { h with stage := .finished })
  | .finished => none

end State

inductive Action where
  /-- Somebody calls `wait_process_handle` on a process other than the idle process. -/
  | waitHandle (parent target : ℕ) (wantStop noHang : Bool)
  /-- Somebody calls `wait_process_children`. -/
  | waitChildren (parent : ℕ) (requestedPid : ℤ) (wantStop noHang : Bool)
  | interrupt (i : ℕ)
  | call (i : ℕ)
  | stop (pid : ℕ) (number : ℤ)
  | continue_ (pid : ℕ)
  | handler (i : ℕ)
  | newThread (pid : ℕ)
  /-- `exit_process` stores the exit value. -/
  | exit (pid : ℕ) (value : ℤ)
  | exitThread (pid : ℕ)
  /-- The end of `exit_process_thread`, when the thread list is empty. -/
  | exitProcess (pid : ℕ)

namespace State

variable (s : State)

def setCall (i : ℕ) (c : Call) : State := { s with calls := s.calls.set i c }

def setHandler (i : ℕ) (h : Handler) : State := { s with handlers := s.handlers.set i h }

def step : Action → Option State
  | .waitHandle parent target wantStop noHang =>
    if target = 0 then none
    else
      some { s with
        calls := s.calls ++ [{
          kind := .handle, parent := parent, requestedPid := target, wantStop := wantStop
          noHang := noHang, target := target }] }
  | .waitChildren parent requestedPid wantStop noHang =>
    some { s with
      calls := s.calls ++ [{
        kind := .children, parent := parent, requestedPid := requestedPid
        wantStop := wantStop, noHang := noHang }] }
  | .interrupt i =>
    s.calls[i]?.map fun c => s.setCall i { c with interrupted := true }
  | .call i =>
    s.calls[i]?.bind fun c => (s.advance c).map fun r => r.1.setCall i r.2
  | .stop pid number =>
    some { s with handlers := s.handlers ++ [⟨pid, .setSignal number⟩] }
  | .continue_ pid => some { s with handlers := s.handlers ++ [⟨pid, .clearReported⟩] }
  | .handler i =>
    s.handlers[i]?.bind fun h => (s.handle h).map fun r => r.1.setHandler i r.2
  | .newThread pid =>
    if (s.procs pid).threads = 0 then none
    else some (s.modify pid fun q => { q with threads := q.threads + 1 })
  | .exit pid value => some (s.modify pid fun q => { q with retVal := value })
  | .exitThread pid =>
    if (s.procs pid).threads = 0 then none
    else some (s.modify pid fun q => { q with threads := q.threads - 1 })
  | .exitProcess pid =>
    if (s.procs pid).threads = 0 then
      some ((s.modify pid fun q => { q with noThread := true }).notifyParent pid)
    else none

end State

end Naos.Wait
