import Naos.Lib.Counter
import Naos.Lib.Transition
import Naos.Task.Wait

/-!
# What the waits answer

A reservation belongs to one call at a time, and the call that reaps keeps it for good, so
a child is reaped once.  A call of `wait_process_handle` that is woken by a stop reaps the
child without having seen it exit, if the stop is gone or reported by the time the call looks.
-/

namespace Naos.Wait

open Transition List Option Event Stage State Call Handler Proc

/-! ## The property -/

def Event.reaps (pid : ℕ) : Event → Bool
  | .reaped p _ => decide (p = pid)
  | _ => false

def Event.reports (pid number : ℕ) : Event → Bool
  | .stopped p n _ => decide (p = pid ∧ n = number)
  | _ => false

/-- **Reaping is safe and happens once**, and so does the report of a stop. -/
structure ReapSafe (s : State) : Prop where
  deleted : ∀ pid threads, .deleted pid threads ∈ s.log → threads = 0
  reaped : ∀ pid, s.log.countP (reaps pid) ≤ 1
  reported : ∀ pid number, s.log.countP (reports pid number) ≤ 1
  signal : ∀ pid number status, .stopped pid number status ∈ s.log →
    0 < number ∧ ∃ n, (s.procs pid).stops[number - 1]? = some n ∧ status = stopStatus n

/-! ## The condition -/

/-- The call has seen that its target is stopped, and has not answered yet. -/
def Stage.inReport : Stage → Bool
  | .peekReported | .markReported | .readSignal | .checkReported | .exchangeReported
  | .dropClaim | .dropCount | .readStop => true
  | _ => false

/-- The call has won the exchange of `wait_stop_reported`. -/
def Stage.won : Stage → Bool
  | .readSignal | .dropClaim | .dropCount | .readStop => true
  | _ => false

def Stage.holds : Stage → Bool
  | .waiting | .waitingReported | .awake | .checkExited | .checkStopped | .checkReported
  | .exchangeReported | .dropClaim | .release _ | .reap => true
  | _ => false

def State.Quiet (s : State) (pid : ℕ) : Prop :=
  ∀ h ∈ s.handlers, h.pid = pid → h.stage = .finished

def State.Unobserved (s : State) (pid : ℕ) : Prop :=
  ∀ c ∈ s.calls, c.target = pid → c.stage.inReport = false

/-- The condition on the step of a call.  No handler of the child runs when a call finds it
stopped, and after its last test of `no_thread` and up to the exchange a call of
`wait_process_handle` still finds the child stopped and the stop not reported, unless the
child has exited meanwhile. -/
def CallOrderly (s : State) (c : Call) : Prop :=
  ((c.stage = .peekStopped ∨ c.stage = .checkStopped) →
    (s.procs c.target).jobControlStopped = true → s.Quiet c.target) ∧
  (c.kind = .handle → c.stage = .checkStopped → (s.procs c.target).noThread = true ∨
      c.wantStop = true ∧ (s.procs c.target).jobControlStopped = true) ∧
  (c.kind = .handle → c.stage = .checkReported ∨ c.stage = .exchangeReported →
    (s.procs c.target).noThread = true ∨ (s.procs c.target).waitStopReported = false)

/-- **The condition on a step.**  A handler starts only while no other handler of the
process runs and no call reports a stop of it, and a stopped process gets no other stop
signal. -/
def Orderly (s : State) : Action → Prop
  | .call i => ∀ c, s.calls[i]? = some c → CallOrderly s c
  | .stop pid number =>
    s.Quiet pid ∧ s.Unobserved pid ∧
      ((s.procs pid).jobControlStopped = true → (s.procs pid).lastStopSignal = number)
  | .continue_ pid => s.Quiet pid ∧ s.Unobserved pid
  | _ => True

instance (s : State) (pid : ℕ) : Decidable (s.Quiet pid) :=
  inferInstanceAs (Decidable (∀ h ∈ s.handlers, _ → _))

instance (s : State) (pid : ℕ) : Decidable (s.Unobserved pid) :=
  inferInstanceAs (Decidable (∀ c ∈ s.calls, _ → _))

instance (s : State) (c : Call) : Decidable (CallOrderly s c) :=
  inferInstanceAs (Decidable ((_ → _ → _) ∧ (_ → _ → _) ∧ (_ → _ → _)))

instance (s : State) : (a : Action) → Decidable (Orderly s a)
  | .call i =>
    match h : s.calls[i]? with
    | none => .isTrue fun c hc => by simp [h] at hc
    | some c =>
      decidable_of_iff (CallOrderly s c)
        ⟨fun hc c' hc' => by rw [h] at hc'; cases hc'; exact hc, fun hall => hall c h⟩
  | .stop _ _ => inferInstanceAs (Decidable (_ ∧ _ ∧ (_ → _)))
  | .continue_ _ => inferInstanceAs (Decidable (_ ∧ _))
  | .waitHandle _ _ _ _ | .waitChildren _ _ _ _ | .interrupt _ | .handler _ | .newThread _
  | .exit _ _ | .exitThread _ | .exitProcess _ => inferInstanceAs (Decidable True)

/-! ## What one step of a call can do -/

def Opens (s : State) (c : Call) : Prop :=
  (c.stage = .peekStopped ∨ c.stage = .checkStopped) ∧ (s.procs c.target).jobControlStopped = true

/-- The call takes the last line of `wait_process_handle`. -/
def Falls (s : State) (c : Call) : Prop :=
  let q := s.procs c.target
  c.kind = .handle ∧ (c.stage = .checkStopped ∧ (c.wantStop && q.jobControlStopped) = false ∨
      (c.stage = .checkReported ∨ c.stage = .exchangeReported) ∧ q.waitStopReported = true)

inductive Effect (s : State) (c : Call) : State → Call → Prop where
  | move (c' : Call) (htarget : c'.target = c.target)
      (hsame : c'.kind = c.kind ∧ c'.requestedPid = c.requestedPid)
      (hholds : c'.stage.holds = c.stage.holds) (hwon : c.stage.won = false)
      (hwon' : c'.stage.won = false)
      (hreport : c'.stage.inReport = true → c.stage.inReport = true ∨ Opens s c)
      (hreap : c'.stage = .reap → (s.procs c.target).noThread = true ∨ Falls s c)
      (hdelete : c'.stage ≠ .delete) : Effect s c s c'
  | reserve (p : ℕ) (stage : Stage) (haim : c.kind = .handle → p = c.target)
      (hfree : (s.procs p).waitClaimed = false)
      (hholds : c.stage.holds = false) (hwon : c.stage.won = false)
      (hholds' : stage.holds = true) (hreport : stage.inReport = false)
      (hreap : stage = .reap → (s.procs p).noThread = true) :
      Effect s c
        (s.modify p fun q => { q with waitClaimed := true, waitCounter := q.waitCounter + 1 })
        { c with target := p, stage := stage }
  | exchange (stage : Stage) (hnew : (s.procs c.target).waitStopReported = false)
      (hholds : stage.holds = c.stage.holds) (hwon : c.stage.won = false)
      (hreport : c.stage.inReport = true) (hwon' : stage.won = true) :
      Effect s c (s.modify c.target fun q => { q with waitStopReported := true })
        { c with stage := stage, number := (s.procs c.target).stops.length }
  | answer (hwon : c.stage.won = true) (hholds : c.stage.holds = false)
      (hreport : c.stage.inReport = true) :
      Effect s c (s.answerStop c).1 { c with stage := .done }
  | unclaim (stage : Stage) (hholds : c.stage.holds = true) (hholds' : stage.holds = false)
      (hwon : stage.won = c.stage.won) (hreport : stage.inReport = c.stage.inReport)
      (hdelete : stage ≠ .delete) :
      Effect s c (s.modify c.target fun q => { q with waitClaimed := false })
        { c with stage := stage }
  | uncount (stage : Stage) (hholds : c.stage.holds = false) (hholds' : stage.holds = false)
      (hwon : stage.won = c.stage.won) (hreport : stage.inReport = c.stage.inReport)
      (hdelete : stage ≠ .delete) :
      Effect s c (s.modify c.target fun q => { q with waitCounter := q.waitCounter - 1 })
        { c with stage := stage }
  | reap (hstage : c.stage = .reap) : Effect s c (s.reapWaitedChild c).1 (s.reapWaitedChild c).2
  | delete (hstage : c.stage = .delete) : Effect s c
        (((s.notifyParent c.target).modify c.target fun q =>
          { q with destroy := true }).deleteProcess c.target) { c with stage := .done }

variable {exitedOnly stoppedOnly : Bool} {p parent : ℕ} {s s' : State} {c c' : Call}
  {f : Proc → Proc}

/-- What `reserve_child` takes is free, and exited or stopped where that was asked for. -/
lemma reservable_spec {requestedPid : ℤ}
    (h : s.reservable parent requestedPid exitedOnly stoppedOnly = some p) :
    s.matchesWaitPid parent p requestedPid = true ∧ (s.procs p).waitClaimed = false ∧
      (exitedOnly = true → (s.procs p).noThread = true) := by
  have hp := find?_some h
  simp only [eligible, Bool.and_eq_true, Bool.not_eq_true', Bool.or_eq_true] at hp
  obtain ⟨⟨⟨⟨-, hmatch⟩, hfree⟩, hexited⟩, -⟩ := hp
  refine ⟨hmatch, hfree, ?_⟩
  rintro rfl
  simpa using hexited

lemma eq_of_matchesWaitPid {target : ℕ} (htarget : 0 < target)
    (h : s.matchesWaitPid parent p target = true) : p = target := by
  rw [matchesWaitPid, if_neg (by omega), if_pos (by omega)] at h
  have := of_decide_eq_true h
  omega

lemma afterReserve_effect {refused : Stage} {granted : ℕ → Stage}
    (h : s.afterReserve c (s.reserveChild c.parent c.requestedPid exitedOnly stoppedOnly)
      refused granted = (s', c')) (hholds : c.stage.holds = false) (hwon : c.stage.won = false)
    (haim : c.kind = .handle → c.requestedPid = c.target ∧ 0 < c.target)
    (hrefused : refused = .start ∨ refused = .done)
    (hgranted : ∀ p, s.matchesWaitPid c.parent p c.requestedPid = true →
      granted p = .waiting ∨ granted p = .checkStopped ∨ granted p = .reap ∧ exitedOnly = true) :
    Effect s c s' c' := by
  rw [reserveChild] at h
  cases hres : s.reservable c.parent c.requestedPid exitedOnly stoppedOnly with
  | none =>
    rw [hres, map_none, afterReserve] at h
    cases h
    rcases hrefused with rfl | rfl
    · exact .move _ rfl ⟨rfl, rfl⟩ hholds.symm hwon rfl (by simp [inReport]) (by simp) (by simp)
    · exact .move _ rfl ⟨rfl, rfl⟩ hholds.symm hwon rfl (by simp [inReport]) (by simp) (by simp)
  | some p =>
    rw [hres, map_some, afterReserve] at h
    cases h
    obtain ⟨hmatch, hfree, hexited⟩ := reservable_spec hres
    have htarget : c.kind = .handle → p = c.target := by
      intro hkind
      obtain ⟨hrequest, hpos⟩ := haim hkind
      exact eq_of_matchesWaitPid hpos (hrequest ▸ hmatch)
    rcases hgranted p hmatch with hg | hg | ⟨hg, hex⟩
    · exact .reserve p _ htarget hfree hholds hwon (hg ▸ rfl)
        (hg ▸ rfl) (by simp [hg])
    · exact .reserve p _ htarget hfree hholds hwon (hg ▸ rfl)
        (hg ▸ rfl) (by simp [hg])
    · exact .reserve p _ htarget hfree hholds hwon (hg ▸ rfl) (hg ▸ rfl)
        fun _ => hexited hex

lemma begin_effect (s : State) (hstage : c.stage = .start) : Effect s c s (s.begin c) := by
  have hmove : ∀ c' : Call, c'.target = c.target →
      c'.kind = c.kind ∧ c'.requestedPid = c.requestedPid →
      c'.stage = .done ∨ c'.stage = .exited ∨ c'.stage = .reserveExited ∨
        c'.stage = .reserveStopped ∨ c'.stage = .waitingAny ∨ c'.stage = .reserve →
      Effect s c s c' := by
    intro c' htarget hsame hc'
    rcases hc' with h | h | h | h | h | h <;>
      exact .move c' htarget hsame (by rw [h, hstage]; rfl) (hstage ▸ rfl) (by rw [h]; rfl)
        (by simp [h, inReport]) (by simp [h]) (by simp [h])
  rw [begin]
  split
  · split <;> exact hmove _ rfl ⟨rfl, rfl⟩ (by simp)
  split
  · exact hmove _ rfl ⟨rfl, rfl⟩ (by simp)
  dsimp only
  iterate 3
    split
    · exact hmove _ rfl ⟨rfl, rfl⟩ (by simp)
  split <;> exact hmove _ rfl ⟨rfl, rfl⟩ (by simp)

lemma exchange_effect {won lost : Stage} (h : s.exchange c won lost = (s', c'))
    (hwon : c.stage.won = false) (hreport : c.stage.inReport = true) (hw : won.won = true)
    (hholds : won.holds = c.stage.holds)
    (hlost : (s.procs c.target).waitStopReported = true → Effect s c s { c with stage := lost }) :
    Effect s c s' c' := by
  rw [exchange] at h
  split at h
  next hrep =>
    cases h
    exact hlost hrep
  next hrep =>
    cases h
    exact .exchange won (by simpa using hrep) hholds hwon hreport hw

lemma fallThrough_effect (hholds : c.stage.holds = true) (hwon : c.stage.won = false)
    (hfalls : c.kind = .handle → Falls s c) :
    Effect s c s { c with stage := c.fallThrough } := by
  rw [Call.fallThrough]
  cases hkind : c.kind with
  | handle =>
    exact .move _ rfl ⟨hkind.symm, rfl⟩ hholds.symm hwon rfl (by simp [inReport])
      (fun _ => .inr (hfalls hkind)) (by simp)
  | children =>
    exact .move _ rfl ⟨hkind.symm, rfl⟩ hholds.symm hwon rfl
      (by simp [inReport]) (by simp) (by simp)

lemma afterPeek_effect (hholds : c.stage.holds = false) (hwon : c.stage.won = false) :
    Effect s c s { c with stage := c.afterPeek } := by
  rw [Call.afterPeek]
  split <;>
    exact .move _ rfl ⟨rfl, rfl⟩ hholds.symm hwon rfl (by simp [inReport]) (by simp) (by simp)

/-- **Every step of a call is one of the effects.** -/
theorem advance_effect (haim : c.kind = .handle → c.requestedPid = c.target ∧ 0 < c.target)
    (h : s.advance c = some (s', c')) : Effect s c s' c' := by
  -- A step that leaves the state alone and opens no report.
  have hquiet : ∀ {source stage : Stage}, c.stage = source →
      stage.holds = source.holds ∧ source.won = false ∧ stage.won = false ∧
        stage.inReport = false ∧ stage ≠ .reap ∧ stage ≠ .delete →
      Effect s c s { c with stage := stage } := by
    rintro _ stage rfl ⟨hholds, hwon, hwon', hreport, hreap, hdelete⟩
    exact .move _ rfl ⟨rfl, rfl⟩ hholds hwon hwon' (by simp [hreport])
      (fun h => absurd h hreap) hdelete
  rw [advance] at h
  cases hstage : c.stage with simp only [hstage] at h
  | start =>
    cases h
    exact begin_effect s hstage
  | exited | waitingReported | awake =>
    cases h
    split <;> exact hquiet hstage (by decide)
  | reserveExited =>
    refine afterReserve_effect (some.inj h) (hstage ▸ rfl) (hstage ▸ rfl) haim ?_ ?_
    · split
      · exact .inr rfl
      · exact .inl rfl
    · intro p hmatch
      split
      next hother =>
        obtain ⟨hrequest, hpos⟩ := haim hother.1
        rw [hrequest] at hmatch
        exact absurd (eq_of_matchesWaitPid hpos hmatch) hother.2
      · exact .inr (.inr ⟨rfl, rfl⟩)
  | reserveStopped =>
    exact afterReserve_effect (some.inj h) (hstage ▸ rfl) (hstage ▸ rfl)
      haim (.inl rfl) fun _ _ => .inr (.inl rfl)
  | reserve =>
    exact afterReserve_effect (some.inj h) (hstage ▸ rfl) (hstage ▸ rfl)
      haim (.inr rfl) fun _ _ => .inl rfl
  | peekStopped =>
    cases h
    split
    next hstopped =>
      rw [Bool.and_eq_true] at hstopped
      exact .move _ rfl ⟨rfl, rfl⟩ (hstage ▸ rfl) (hstage ▸ rfl) rfl
        (fun _ => .inr ⟨.inl hstage, hstopped.2⟩) (by simp) (by simp)
    · exact afterPeek_effect (hstage ▸ rfl) (hstage ▸ rfl)
  | peekReported =>
    cases h
    split
    · exact afterPeek_effect (hstage ▸ rfl) (hstage ▸ rfl)
    · exact .move _ rfl ⟨rfl, rfl⟩ (hstage ▸ rfl) (hstage ▸ rfl) rfl
        (fun _ => .inl (hstage ▸ rfl)) (by simp) (by simp)
  | markReported =>
    exact exchange_effect (some.inj h) (hstage ▸ rfl) (hstage ▸ rfl) rfl
      (hstage ▸ rfl)
      fun _ => afterPeek_effect (hstage ▸ rfl) (hstage ▸ rfl)
  | readSignal | readStop =>
    cases h
    exact .answer (hstage ▸ rfl) (hstage ▸ rfl) (hstage ▸ rfl)
  | waiting | waitingAny =>
    repeat' split at h
    all_goals cases h
    all_goals exact hquiet hstage (by decide)
  | checkExited =>
    cases h
    split
    next hexited =>
      exact .move _ rfl ⟨rfl, rfl⟩ (hstage ▸ rfl) (hstage ▸ rfl) rfl
        (by simp [inReport]) (fun _ => .inl hexited) (by simp)
    · exact hquiet hstage (by decide)
  | checkStopped =>
    cases h
    split
    next hstopped =>
      rw [Bool.and_eq_true] at hstopped
      exact .move _ rfl ⟨rfl, rfl⟩ (hstage ▸ rfl) (hstage ▸ rfl) rfl
        (fun _ => .inr ⟨.inr hstage, hstopped.2⟩) (by simp) (by simp)
    next hgone =>
      refine fallThrough_effect (hstage ▸ rfl) (hstage ▸ rfl) fun hkind => ?_
      exact ⟨hkind, .inl ⟨hstage, by simpa [hkind] using hgone⟩⟩
  | checkReported =>
    cases h
    split
    next hreported =>
      refine fallThrough_effect (hstage ▸ rfl) (hstage ▸ rfl) fun hkind => ?_
      exact ⟨hkind, .inr ⟨.inl hstage, hreported⟩⟩
    · exact .move _ rfl ⟨rfl, rfl⟩ (hstage ▸ rfl) (hstage ▸ rfl) rfl
        (fun _ => .inl (hstage ▸ rfl)) (by simp) (by simp)
  | exchangeReported =>
    refine exchange_effect (some.inj h) (hstage ▸ rfl) (hstage ▸ rfl) rfl
      (hstage ▸ rfl) fun hreported => ?_
    refine fallThrough_effect (hstage ▸ rfl) (hstage ▸ rfl) fun hkind => ?_
    exact ⟨hkind, .inr ⟨.inr hstage, hreported⟩⟩
  | dropClaim | release again =>
    cases h
    exact .unclaim _ (hstage ▸ rfl) rfl (hstage ▸ rfl) (hstage ▸ rfl) (by simp)
  | dropCount =>
    cases h
    exact .uncount _ (hstage ▸ rfl) rfl (hstage ▸ rfl) (hstage ▸ rfl) (by simp)
  | uncount again =>
    cases h
    cases again <;> exact .uncount _ (hstage ▸ rfl) rfl (hstage ▸ rfl) (hstage ▸ rfl) (by simp)
  | reap =>
    obtain ⟨rfl, rfl⟩ := Prod.mk.inj (some.inj h)
    exact .reap hstage
  | delete =>
    cases h
    exact .delete hstage
  | done => simp at h

/-! ## The invariant -/

def Call.holdsFor (pid : ℕ) (c : Call) : ℕ :=
  if c.target = pid ∧ c.stage.holds = true then 1 else 0

def Call.reportsFor (pid number : ℕ) (c : Call) : ℕ :=
  if c.target = pid ∧ c.number = number ∧ c.stage.won = true then 1 else 0

def Handler.runsFor (pid : ℕ) (h : Handler) : ℕ :=
  if h.pid = pid ∧ h.stage ≠ .finished then 1 else 0

namespace State

variable (s : State)

def holders (pid : ℕ) : ℕ := (s.calls.map (holdsFor pid)).sum

def total (pid number : ℕ) : ℕ :=
  s.log.countP (reports pid number) + (s.calls.map (reportsFor pid number)).sum

def running (pid : ℕ) : ℕ := (s.handlers.map (runsFor pid)).sum

/-- `wait_claimed` as a number. -/
def claimed (pid : ℕ) : ℕ := if (s.procs pid).waitClaimed = true then 1 else 0

structure Settled (pid : ℕ) : Prop where
  signal : (s.procs pid).jobControlStopped = true →
    (s.procs pid).stops.getLast? = some (s.procs pid).lastStopSignal
  running : (s.procs pid).jobControlStopped = false → (s.procs pid).waitStopReported = false
  fresh : (s.procs pid).jobControlStopped = true → (s.procs pid).waitStopReported = false →
    s.total pid (s.procs pid).stops.length = 0

def HandlerInv (h : Handler) : Prop :=
  match h.stage with
  | .setSignal n =>
    s.Settled h.pid ∧
      ((s.procs h.pid).jobControlStopped = true → (s.procs h.pid).lastStopSignal = n)
  | .checkThread n | .setStopped n =>
    s.Settled h.pid ∧ (s.procs h.pid).lastStopSignal = n
  | .clearReported => s.Settled h.pid
  | .clearSignal | .clearStopped => (s.procs h.pid).waitStopReported = false
  | .finished => True

end State

structure CallInv (s : State) (c : Call) : Prop where
  aim : c.kind = .handle → c.requestedPid = c.target ∧ 0 < c.target
  reaping : c.stage = .reap ∨ c.stage = .delete → (s.procs c.target).noThread = true
  observes : c.stage.inReport = true →
    s.Quiet c.target ∧ (s.procs c.target).jobControlStopped = true
  number : c.stage.won = true → c.number = (s.procs c.target).stops.length

structure Inv (s : State) : Prop where
  threads : ∀ pid, (s.procs pid).noThread = true → (s.procs pid).threads = 0
  claims : ∀ pid, s.holders pid + s.log.countP (reaps pid) = s.claimed pid
  calls : ∀ c ∈ s.calls, CallInv s c
  alone : ∀ pid, s.running pid ≤ 1
  handlers : ∀ h ∈ s.handlers, s.HandlerInv h
  settled : ∀ pid, s.Quiet pid → s.Settled pid
  once : ∀ pid number, s.total pid number ≤ 1
  later : ∀ pid number, (s.procs pid).stops.length < number → s.total pid number = 0
  zero : ∀ pid, s.total pid 0 = 0
  deleted : ∀ pid threads, .deleted pid threads ∈ s.log → threads = 0
  signal : ∀ pid number status, .stopped pid number status ∈ s.log →
    0 < number ∧ ∃ n, (s.procs pid).stops[number - 1]? = some n ∧ status = stopStatus n

lemma reapSafe_of_inv (h : Inv s) : ReapSafe s where
  deleted := h.deleted
  reaped := by
    intro pid
    have hclaims := h.claims pid
    have hbit : s.claimed pid ≤ 1 := by
      rw [claimed]
      split <;> omega
    omega
  reported := by
    intro pid number
    have honce := h.once pid number
    rw [total] at honce
    omega
  signal := h.signal

/-! ## What a step of a call leaves alone -/

def Proc.core (q : Proc) : Bool × ℕ × Bool × ℤ × List ℤ :=
  (q.noThread, q.threads, q.jobControlStopped, q.lastStopSignal, q.stops)

lemma procs_modify (s : State) (p p' : ℕ) (f : Proc → Proc) :
    (s.modify p f).procs p' = if p' = p then f (s.procs p) else s.procs p' :=
  Function.update_apply _ _ _ _

lemma field_modify {β : Type} (g : Proc → β) (s : State) (p p' : ℕ) (hf : ∀ q, g (f q) = g q) :
    g ((s.modify p f).procs p') = g (s.procs p') := by
  rw [procs_modify]
  split
  next h => rw [hf, h]
  · rfl

lemma field_notifyParent {β : Type} (g : Proc → β)
    (hg : ∀ q n, g { q with childWaitGeneration := n } = g q) (s : State) (p p' : ℕ) :
    g ((s.notifyParent p).procs p') = g (s.procs p') := by
  rw [notifyParent]
  split
  · exact field_modify g s _ p' fun q => hg q _
  · rfl

structure Frame (s s' : State) : Prop where
  core : ∀ p, (s'.procs p).core = (s.procs p).core
  calls : s'.calls = s.calls
  handlers : s'.handlers = s.handlers

lemma Frame.refl (s : State) : Frame s s := ⟨fun _ => rfl, rfl, rfl⟩

lemma frame_modify (s : State) (p : ℕ) (f : Proc → Proc) (hf : ∀ q, (f q).core = q.core) :
    Frame s (s.modify p f) := ⟨fun p' => field_modify core s p p' hf, rfl, rfl⟩

lemma Frame.trans {s'' : State} (h : Frame s s') (h' : Frame s' s'') : Frame s s'' :=
  ⟨fun p => (h'.core p).trans (h.core p), h'.calls.trans h.calls, h'.handlers.trans h.handlers⟩

namespace Frame

variable {s s' : State}

variable (h : Frame s s')
include h

lemma noThread (p : ℕ) : (s'.procs p).noThread = (s.procs p).noThread :=
  congrArg Prod.fst (h.core p)

lemma threads (p : ℕ) : (s'.procs p).threads = (s.procs p).threads :=
  congrArg (fun x => x.2.1) (h.core p)

lemma stopped (p : ℕ) : (s'.procs p).jobControlStopped = (s.procs p).jobControlStopped :=
  congrArg (fun x => x.2.2.1) (h.core p)

lemma lastStopSignal (p : ℕ) : (s'.procs p).lastStopSignal = (s.procs p).lastStopSignal :=
  congrArg (fun x => x.2.2.2.1) (h.core p)

lemma stops (p : ℕ) : (s'.procs p).stops = (s.procs p).stops :=
  congrArg (fun x => x.2.2.2.2) (h.core p)

lemma quiet (p : ℕ) : s'.Quiet p ↔ s.Quiet p := by rw [State.Quiet, State.Quiet, h.handlers]

end Frame

lemma frame_notifyParent (s : State) (p : ℕ) : Frame s (s.notifyParent p) := by
  refine ⟨fun p' => field_notifyParent core (fun _ _ => rfl) s p p', ?_, ?_⟩
  · rw [notifyParent]
    split <;> rfl
  · rw [notifyParent]
    split <;> rfl

lemma frame_deleteProcess (s : State) (p : ℕ) : Frame s (s.deleteProcess p) := by
  rw [deleteProcess]
  split
  · exact ⟨fun _ => rfl, rfl, rfl⟩
  · exact ⟨(frame_modify s p (fun q => { q with reapPending := true, destroy := true })
      fun _ => rfl).core, rfl, rfl⟩

lemma Effect.frame (h : Effect s c s' c') : Frame s s' := by
  cases h with
  | move => exact .refl s
  | reserve p => exact frame_modify s p _ fun _ => rfl
  | exchange | unclaim | uncount => exact frame_modify s c.target _ fun _ => rfl
  | answer => exact ⟨fun _ => rfl, rfl, rfl⟩
  | reap =>
    exact ⟨(frame_modify s c.target (fun q => { q with waitCounter := q.waitCounter - 1 })
      fun _ => rfl).core, rfl, rfl⟩
  | delete =>
    exact ((frame_notifyParent s c.target).trans (frame_modify _ c.target
      (fun q => { q with destroy := true }) fun _ => rfl)).trans (frame_deleteProcess _ c.target)

/-! ## Reservations -/

section Claims

variable {s s' : State} {c c' : Call} {i : ℕ}

lemma claimed_modify (s : State) (p pid : ℕ) (f : Proc → Proc)
    (hf : ∀ q, (f q).waitClaimed = q.waitClaimed) : (s.modify p f).claimed pid = s.claimed pid := by
  rw [claimed, claimed, field_modify waitClaimed s p pid hf]

lemma claimed_set (s : State) (p pid : ℕ) (f : Proc → Proc) (b : Bool)
    (hf : ∀ q, (f q).waitClaimed = b) :
    (s.modify p f).claimed pid =
      if pid = p then (if b = true then 1 else 0) else s.claimed pid := by
  rw [claimed, procs_modify]
  split
  · rw [hf]
  · rfl

lemma log_notifyParent (s : State) (p : ℕ) : (s.notifyParent p).log = s.log := by
  rw [notifyParent]
  split <;> rfl

/-- The process of a wait that has reaped keeps its other fields. -/
lemma field_delete {β : Type} (g : Proc → β) (hg : ∀ q n destroy pending, g { q with
      childWaitGeneration := n, destroy := destroy, reapPending := pending } = g q)
    (s : State) (p p' : ℕ) : g ((((s.notifyParent p).modify p fun q =>
      { q with destroy := true }).deleteProcess p).procs p') = g (s.procs p') := by
  have hdestroy : g (((s.notifyParent p).modify p fun q => { q with destroy := true }).procs p')
      = g (s.procs p') :=
    (field_modify g _ p p' fun q => hg q q.childWaitGeneration true q.reapPending).trans
      (field_notifyParent g (fun q n => hg q n q.destroy q.reapPending) s p p')
  rw [deleteProcess]
  split
  · exact hdestroy
  · exact (field_modify g _ p p' fun q => hg q q.childWaitGeneration true true).trans hdestroy

lemma log_delete (s : State) (p : ℕ) :
    (((s.notifyParent p).modify p fun q => { q with destroy := true }).deleteProcess p).log =
      s.log ++ [.deleted p (s.procs p).threads] := by
  have hthreads := (field_modify threads (s.notifyParent p) p p
    (f := fun q => { q with destroy := true }) fun _ => rfl).trans
      (field_notifyParent threads (fun _ _ => rfl) s p p)
  rw [deleteProcess, hthreads, ← log_notifyParent s p]
  split <;> rfl

lemma holdsFor_eq_zero (pid : ℕ) (h : c.stage.holds = false) : c.holdsFor pid = 0 := by
  simp [holdsFor, h]

/-- **A step keeps the balance** of reservations, reaps and `wait_claimed`. -/
theorem Effect.claims (h : Effect s c s' c') (pid : ℕ)
    (hclaimed : c.stage.holds = true → (s.procs c.target).waitClaimed = true) :
    c'.holdsFor pid + s'.log.countP (reaps pid) + s.claimed pid =
      c.holdsFor pid + s.log.countP (reaps pid) + s'.claimed pid := by
  cases h with
  | move c' htarget hsame hholds => rw [holdsFor, holdsFor, htarget, hholds]
  | reserve p stage haim hfree hholds hwon hholds' =>
    rw [claimed_set s p pid _ true fun _ => rfl]
    by_cases hp : pid = p
    · subst hp
      simp only [holdsFor, State.claimed, State.modify, hholds, hholds', hfree]
      simp
      omega
    · simp [holdsFor, State.modify, hholds, hp, Ne.symm hp]
  | exchange stage hnew hholds =>
    have hbit := claimed_modify s c.target pid (fun q => { q with waitStopReported := true })
      fun _ => rfl
    rw [hbit]
    simp only [holdsFor, State.modify, hholds]
  | answer hwon hholds =>
    have hlog : (s.answerStop c).1.log.countP (reaps pid) = s.log.countP (reaps pid) := by
      simp [answerStop, note, reaps]
    have hbit : (s.answerStop c).1.claimed pid = s.claimed pid := rfl
    rw [hlog, hbit, holdsFor_eq_zero pid hholds, holdsFor_eq_zero pid rfl]
  | unclaim stage hholds hholds' =>
    rw [claimed_set s c.target pid _ false fun _ => rfl]
    by_cases hp : pid = c.target
    · subst hp
      simp only [holdsFor, State.claimed, State.modify, hholds, hholds', hclaimed hholds]
      simp
      omega
    · simp [holdsFor, State.modify, hholds', hp, Ne.symm hp]
  | uncount stage hholds hholds' =>
    have hbit := claimed_modify s c.target pid
      (fun q => { q with waitCounter := q.waitCounter - 1 }) fun _ => rfl
    rw [hbit, holdsFor_eq_zero pid hholds, holdsFor_eq_zero pid hholds']
    rfl
  | reap hstage =>
    have hbit : (s.reapWaitedChild c).1.claimed pid = s.claimed pid :=
      claimed_modify s c.target pid (fun q => { q with waitCounter := q.waitCounter - 1 })
        fun _ => rfl
    have hlog : (s.reapWaitedChild c).1.log.countP (reaps pid)
        = s.log.countP (reaps pid) + if c.target = pid then 1 else 0 := by
      simp [State.reapWaitedChild, State.note, State.modify, reaps, countP_append]
    have hcall : (s.reapWaitedChild c).2.holdsFor pid = 0 := by
      apply holdsFor_eq_zero
      rw [State.reapWaitedChild]
      split <;> rfl
    have hholds : c.holdsFor pid = if c.target = pid then 1 else 0 := by
      simp [holdsFor, hstage, holds]
    omega
  | delete hstage =>
    rw [log_delete, State.claimed, State.claimed, field_delete waitClaimed (fun _ _ _ _ => rfl),
      holdsFor_eq_zero pid rfl, holdsFor_eq_zero pid (hstage ▸ rfl)]
    simp [reaps]

end Claims

/-! ## Reports -/

section Reports

variable {s s' : State} {c c' : Call} {i : ℕ}

variable {stage : Stage}

lemma inReport_of_won (h : stage.won = true) : stage.inReport = true := by
  cases stage <;> simp_all [won, inReport]

lemma won_eq_false (h : stage.inReport = false) : stage.won = false := by
  by_contra hwon
  simp [inReport_of_won (by simpa using hwon)] at h

lemma reportsFor_eq_zero (pid number : ℕ) (h : c.stage.won = false) :
    c.reportsFor pid number = 0 := by
  simp [reportsFor, h]

def answers (s : State) (c : Call) (pid number : ℕ) : ℕ :=
  c.reportsFor pid number + s.log.countP (reports pid number)

structure KeepsReports (s : State) (c : Call) (s' : State) (c' : Call) : Prop where
  reported : ∀ p, (s'.procs p).waitStopReported = (s.procs p).waitStopReported
  answers : ∀ pid number, answers s' c' pid number = answers s c pid number

structure WinsReport (s : State) (c : Call) (s' : State) (c' : Call) : Prop where
  inReport : c.stage.inReport = true
  before : (s.procs c.target).waitStopReported = false
  after : (s'.procs c.target).waitStopReported = true
  others : ∀ p, p ≠ c.target → (s'.procs p).waitStopReported = (s.procs p).waitStopReported
  answers : ∀ pid number, answers s' c' pid number = answers s c pid number +
    if pid = c.target ∧ number = (s.procs c.target).stops.length then 1 else 0

/-- **A step reports nothing new, or wins the exchange.** -/
theorem Effect.reports (h : Effect s c s' c') : KeepsReports s c s' c' ∨ WinsReport s c s' c' := by
  cases h with
  | move c' htarget hsame hholds hwon hwon' =>
    refine .inl ⟨fun _ => rfl, fun pid number => ?_⟩
    rw [answers, answers, reportsFor_eq_zero pid number hwon, reportsFor_eq_zero pid number hwon']
  | reserve p stage haim hfree hholds hwon hholds' hreport =>
    refine .inl ⟨fun p' => field_modify waitStopReported s p p' fun _ => rfl, ?_⟩
    intro pid number
    rw [answers, answers, reportsFor_eq_zero pid number hwon,
      reportsFor_eq_zero pid number (won_eq_false hreport)]
    rfl
  | exchange stage hnew hholds hwon hreport hwon' =>
    refine .inr ⟨hreport, hnew, ?_, ?_, ?_⟩
    · rw [procs_modify, if_pos rfl]
    · intro p hp
      rw [procs_modify, if_neg hp]
    · intro pid number
      rw [answers, answers, reportsFor_eq_zero pid number hwon]
      simp only [reportsFor, State.modify, hwon', and_true, eq_comm]
      omega
  | answer hwon hholds hreport =>
    refine .inl ⟨fun _ => rfl, fun pid number => ?_⟩
    rw [answers, answers, reportsFor_eq_zero pid number rfl]
    simp [answerStop, note, reports, reportsFor, hwon, countP_append, Nat.add_comm]
  | unclaim stage hholds hholds' hwon | uncount stage hholds hholds' hwon =>
    refine .inl ⟨fun p => field_modify waitStopReported s c.target p fun _ => rfl, ?_⟩
    intro pid number
    simp only [answers, reportsFor, State.modify, hwon]
  | reap hstage =>
    refine .inl ⟨fun p => field_modify waitStopReported s c.target p
      (f := fun q => { q with waitCounter := q.waitCounter - 1 }) fun _ => rfl, ?_⟩
    intro pid number
    have hwon : (s.reapWaitedChild c).2.stage.won = false := by
      rw [reapWaitedChild]
      split <;> rfl
    rw [answers, answers, reportsFor_eq_zero pid number hwon,
      reportsFor_eq_zero pid number (hstage ▸ rfl)]
    simp [State.reapWaitedChild, State.note, State.modify, reports]
  | delete hstage =>
    refine .inl ⟨field_delete waitStopReported (fun _ _ _ _ => rfl) s c.target, ?_⟩
    intro pid number
    rw [answers, answers, log_delete, reportsFor_eq_zero pid number rfl,
      reportsFor_eq_zero pid number (hstage ▸ rfl)]
    simp [reports]

lemma total_setCall (hi : s.calls[i]? = some c) (hcalls : s'.calls = s.calls) (pid number : ℕ) :
    (s'.setCall i c').total pid number + answers s c pid number =
      s.total pid number + answers s' c' pid number := by
  have hsum := Counter.sum_map_set (reportsFor pid number) hi c'
  rw [total, total, setCall, hcalls, answers, answers]
  dsimp only
  omega

end Reports

/-! ## One step of a call -/

section CallStep

variable {s s' : State} {c c' : Call} {i : ℕ}

lemma CallInv.frame (hf : Frame s s') (h : CallInv s c) : CallInv s' c where
  aim := h.aim
  reaping := fun hstage => (hf.noThread c.target).trans (h.reaping hstage)
  observes := fun hstage =>
    ⟨(hf.quiet c.target).2 (h.observes hstage).1, (hf.stopped c.target).trans (h.observes hstage).2⟩
  number := fun hstage => (h.number hstage).trans (by rw [hf.stops])

lemma callInv_done (hc : CallInv s c) : CallInv s { c with stage := .done } :=
  ⟨hc.aim, by simp, by simp [inReport], by simp [won]⟩

/-- The last line of `wait_process_handle` is taken for a child that has exited. -/
lemma exited_of_falls (hok : CallOrderly s c) (hfalls : Falls s c) :
    (s.procs c.target).noThread = true := by
  rcases hfalls with ⟨hkind, ⟨hstage, hgone⟩ | ⟨hstage, hreported⟩⟩
  · rcases hok.2.1 hkind hstage with hexited | ⟨hwant, hstopped⟩
    · exact hexited
    · simp [hwant, hstopped] at hgone
  · rcases hok.2.2 hkind hstage with hexited | hunreported
    · exact hexited
    · simp [hunreported] at hreported

lemma Effect.callInv (h : Effect s c s' c') (hc : CallInv s c) (hok : CallOrderly s c) :
    CallInv s c' := by
  cases h with
  | move c' htarget hsame hholds hwon hwon' hreport hreap hdelete =>
    refine ⟨?_, ?_, ?_, ?_⟩
    · rw [hsame.1, hsame.2, htarget]
      exact hc.aim
    · intro hstage
      rw [htarget]
      rcases hreap (hstage.resolve_right hdelete) with hexited | hfalls
      · exact hexited
      · exact exited_of_falls hok hfalls
    · intro hstage
      rw [htarget]
      rcases hreport hstage with hopen | ⟨hpeek, hstopped⟩
      · exact hc.observes hopen
      · exact ⟨hok.1 hpeek hstopped, hstopped⟩
    · intro hstage
      simp [hwon'] at hstage
  | reserve p stage haim hfree hholds hwon hholds' hreport hreap =>
    refine ⟨?_, ?_, ?_, ?_⟩
    · intro hkind
      obtain rfl := haim hkind
      exact hc.aim hkind
    · intro hstage
      refine hreap (hstage.resolve_right ?_)
      rintro ⟨⟩
      simp [holds] at hholds'
    · intro hstage
      simp [hreport] at hstage
    · intro hstage
      simp [won_eq_false hreport] at hstage
  | exchange stage hnew hholds hwon hreport hwon' =>
    refine ⟨hc.aim, ?_, fun _ => hc.observes hreport, fun _ => rfl⟩
    rintro (hstage | hstage) <;> cases hstage <;> simp [won] at hwon'
  | answer hwon hholds hreport | delete hstage => exact callInv_done hc
  | unclaim stage hholds hholds' hwon hreport hdelete
  | uncount stage hholds hholds' hwon hreport hdelete =>
    refine ⟨hc.aim, ?_, fun hstage => hc.observes (hreport ▸ hstage),
      fun hstage => hc.number (hwon ▸ hstage)⟩
    rintro (hstage | hstage)
    · cases hstage
      simp [holds] at hholds'
    · exact absurd hstage hdelete
  | reap hstage =>
    rw [reapWaitedChild]
    split
    · exact ⟨hc.aim, fun _ => hc.reaping (.inl hstage), by simp [inReport], by simp [won]⟩
    · exact callInv_done hc

def Proc.flags (q : Proc) : Bool × Bool × ℤ × List ℤ :=
  (q.jobControlStopped, q.waitStopReported, q.lastStopSignal, q.stops)

lemma flags_of_core {q q' : Proc} (hcore : q'.core = q.core)
    (hreported : q'.waitStopReported = q.waitStopReported) : q'.flags = q.flags := by
  simp only [core, Prod.mk.injEq] at hcore
  simp only [flags, hcore, hreported]

lemma State.Settled.of_same {pid : ℕ} (h : s.Settled pid)
    (hflags : (s'.procs pid).flags = (s.procs pid).flags)
    (htotal : ∀ number, s'.total pid number = s.total pid number) : s'.Settled pid := by
  simp only [flags, Prod.mk.injEq] at hflags
  obtain ⟨hstopped, hreported, hsignal, hstops⟩ := hflags
  refine ⟨?_, ?_, ?_⟩
  · rw [hstopped, hstops, hsignal]
    exact h.signal
  · rw [hstopped, hreported]
    exact h.running
  · rw [hstopped, hreported, hstops, htotal]
    exact h.fresh

lemma State.HandlerInv.of_same {hd : Handler} (h : s.HandlerInv hd)
    (hflags : (s'.procs hd.pid).flags = (s.procs hd.pid).flags)
    (htotal : ∀ number, s'.total hd.pid number = s.total hd.pid number) : s'.HandlerInv hd := by
  have hsettled : s.Settled hd.pid → s'.Settled hd.pid := fun h => h.of_same hflags htotal
  simp only [flags, Prod.mk.injEq] at hflags
  obtain ⟨hstopped, hreported, hsignal, -⟩ := hflags
  cases hstage : hd.stage with
  | setSignal n =>
    simp only [State.HandlerInv, hstage] at h ⊢
    rw [hstopped, hsignal]
    exact ⟨hsettled h.1, h.2⟩
  | checkThread n | setStopped n =>
    simp only [State.HandlerInv, hstage] at h ⊢
    rw [hsignal]
    exact ⟨hsettled h.1, h.2⟩
  | clearReported =>
    simp only [State.HandlerInv, hstage] at h ⊢
    exact hsettled h
  | clearSignal | clearStopped =>
    simp only [State.HandlerInv, hstage] at h ⊢
    rw [hreported]
    exact h
  | finished => simp only [State.HandlerInv, hstage]

structure ReportsInv (s : State) : Prop where
  handlers : ∀ h ∈ s.handlers, s.HandlerInv h
  settled : ∀ pid, s.Quiet pid → s.Settled pid
  once : ∀ pid number, s.total pid number ≤ 1
  later : ∀ pid number, (s.procs pid).stops.length < number → s.total pid number = 0
  zero : ∀ pid, s.total pid 0 = 0

/-- Flags, handlers and totals stay. -/
lemma ReportsInv.of_same (hinv : Inv s) (hhandlers : s'.handlers = s.handlers)
    (hflags : ∀ pid, (s'.procs pid).flags = (s.procs pid).flags)
    (htotal : ∀ pid number, s'.total pid number = s.total pid number) : ReportsInv s' where
  handlers h hh := (hinv.handlers h (hhandlers ▸ hh)).of_same (hflags _) (htotal _)
  settled := by
    intro pid hquiet
    rw [State.Quiet, hhandlers] at hquiet
    exact (hinv.settled pid hquiet).of_same (hflags pid) (htotal pid)
  once := by simpa only [htotal] using hinv.once
  later := by
    intro pid number hlt
    have hstops : (s'.procs pid).stops = (s.procs pid).stops := congrArg (·.2.2.2) (hflags pid)
    exact (htotal pid number).trans (hinv.later pid number (hstops ▸ hlt))
  zero := by simpa only [htotal] using hinv.zero

lemma Effect.log (h : Effect s c s' c') {e : Event} (he : e ∈ s'.log) : e ∈ s.log ∨
      (c.stage.won = true ∧
        e = .stopped c.target c.number (stopStatus (s.procs c.target).lastStopSignal)) ∨
      e = .reaped c.target (s.procs c.target).retVal ∨
      (c.stage = .delete ∧ e = .deleted c.target (s.procs c.target).threads) := by
  cases h with
  | move | reserve | exchange | unclaim | uncount => exact .inl he
  | answer hwon =>
    rcases mem_append.1 he with he | he
    · exact .inl he
    · exact .inr (.inl ⟨hwon, mem_singleton.1 he⟩)
  | reap hstage =>
    rcases mem_append.1 he with he | he
    · exact .inl he
    · exact .inr (.inr (.inl (mem_singleton.1 he)))
  | delete hstage =>
    rw [log_delete] at he
    rcases mem_append.1 he with he | he
    · exact .inl he
    · exact .inr (.inr (.inr ⟨hstage, mem_singleton.1 he⟩))

variable (hinv : Inv s) (hi : s.calls[i]? = some c)
include hinv hi

lemma claimed_of_holds (hholds : c.stage.holds = true) : (s.procs c.target).waitClaimed = true := by
  have hle : c.holdsFor c.target ≤ s.holders c.target := by
    have hsum := Counter.sum_map_set (holdsFor c.target) hi { c with stage := .done }
    rw [holdsFor_eq_zero (c := { c with stage := .done }) c.target rfl] at hsum
    rw [holders]
    omega
  have hone : c.holdsFor c.target = 1 := by simp [holdsFor, hholds]
  have hclaims := hinv.claims c.target
  by_contra hfree
  rw [claimed, if_neg hfree] at hclaims
  omega

lemma reportsInv_call (hc : CallInv s c) (heff : Effect s c s' c') :
    ReportsInv (s'.setCall i c') := by
  have hf := heff.frame
  have hmove : ∀ pid number, (s'.setCall i c').total pid number + answers s c pid number =
      s.total pid number + answers s' c' pid number := total_setCall hi hf.calls
  have hquiet : ∀ pid, (s'.setCall i c').Quiet pid → s.Quiet pid := fun pid => (hf.quiet pid).1
  have hmem : ∀ h ∈ (s'.setCall i c').handlers, h ∈ s.handlers := by
    intro h hh
    rwa [setCall, hf.handlers] at hh
  rcases heff.reports with hkeeps | hwins
  · -- Flags and totals stay.
    have htotal : ∀ pid number, (s'.setCall i c').total pid number = s.total pid number := by
      intro pid number
      have hm := hmove pid number
      rw [hkeeps.answers] at hm
      omega
    exact .of_same hinv hf.handlers
      (fun pid => flags_of_core (hf.core pid) (hkeeps.reported pid)) htotal
  · -- The current stop of the target is reported now, and no handler of it runs.
    obtain ⟨hq, hstopped⟩ := hc.observes hwins.inReport
    have hsettled := hinv.settled c.target hq
    have hfresh := hsettled.fresh hstopped hwins.before
    have htotal : ∀ pid number, (s'.setCall i c').total pid number = s.total pid number +
        if pid = c.target ∧ number = (s.procs c.target).stops.length then 1 else 0 := by
      intro pid number
      have hm := hmove pid number
      rw [hwins.answers] at hm
      omega
    have hother : ∀ pid, pid ≠ c.target → ∀ number,
        (s'.setCall i c').total pid number = s.total pid number := by
      intro pid hpid number
      rw [htotal, if_neg fun h => hpid h.1, Nat.add_zero]
    refine ⟨?_, ?_, ?_, ?_, ?_⟩
    · intro h hh
      by_cases hpid : h.pid = c.target
      · have hfin := hq h (hmem h hh) hpid
        simp only [State.HandlerInv, hfin]
      · exact (hinv.handlers h (hmem h hh)).of_same
          (flags_of_core (hf.core _) (hwins.others _ hpid)) (hother _ hpid)
    · intro pid hpq
      by_cases hpid : pid = c.target
      · subst hpid
        have hafter : ((s'.setCall i c').procs c.target).waitStopReported = true := hwins.after
        refine ⟨?_, ?_, ?_⟩
        · intro _
          change (s'.procs c.target).stops.getLast? = some (s'.procs c.target).lastStopSignal
          rw [hf.stops, hf.lastStopSignal]
          exact hsettled.signal hstopped
        · intro hrun
          change (s'.procs c.target).jobControlStopped = false at hrun
          simp [hf.stopped, hstopped] at hrun
        · intro _ hnew
          simp [hafter] at hnew
      · exact (hinv.settled pid (hquiet pid hpq)).of_same
          (flags_of_core (hf.core pid) (hwins.others pid hpid)) (hother pid hpid)
    · intro pid number
      rw [htotal]
      split
      next hnow =>
        obtain ⟨rfl, rfl⟩ := hnow
        omega
      · exact hinv.once pid number
    · intro pid number hlt
      change (s'.procs pid).stops.length < number at hlt
      rw [hf.stops] at hlt
      rw [htotal, hinv.later pid number hlt, if_neg]
      rintro ⟨rfl, rfl⟩
      exact lt_irrefl _ hlt
    · intro pid
      rw [htotal, hinv.zero pid, if_neg]
      rintro ⟨rfl, hzero⟩
      have hlast := hsettled.signal hstopped
      rw [length_eq_zero_iff.1 hzero.symm] at hlast
      simp at hlast

/-- **A step of a call keeps the invariant.** -/
theorem inv_call (hok : CallOrderly s c) (h : s.advance c = some (s', c')) :
    Inv (s'.setCall i c') := by
  have hc := hinv.calls c (mem_of_getElem? hi)
  have heff := advance_effect hc.aim h
  have hf := heff.frame
  have hc' := (heff.callInv hc hok).frame hf
  have hcalls : ∀ x ∈ (s'.setCall i c').calls, CallInv (s'.setCall i c') x := by
    intro x hx
    have hx' : CallInv s' x := by
      rw [setCall, hf.calls] at hx
      rcases mem_or_eq_of_mem_set hx with hx | rfl
      · exact (hinv.calls x hx).frame hf
      · exact hc'
    exact ⟨hx'.aim, hx'.reaping, hx'.observes, hx'.number⟩
  have hclaims : ∀ pid, (s'.setCall i c').holders pid +
      (s'.setCall i c').log.countP (reaps pid) = (s'.setCall i c').claimed pid := by
    intro pid
    have hbalance := heff.claims pid (claimed_of_holds hinv hi)
    have hsum := Counter.sum_map_set (holdsFor pid) hi c'
    have hbefore := hinv.claims pid
    rw [holders] at hbefore ⊢
    rw [setCall, hf.calls]
    change (List.map (holdsFor pid) (s.calls.set i c')).sum + s'.log.countP (reaps pid)
      = s'.claimed pid
    omega
  have hreports := reportsInv_call hinv hi hc heff
  refine
    { threads := ?_, claims := hclaims, calls := hcalls, alone := ?_, handlers := hreports.handlers
      settled := hreports.settled, once := hreports.once, later := hreports.later
      zero := hreports.zero, deleted := ?_, signal := ?_ }
  · intro pid hexited
    exact (hf.threads pid).trans (hinv.threads pid ((hf.noThread pid).symm.trans hexited))
  · intro pid
    have halone := hinv.alone pid
    rw [setCall, hf.handlers]
    exact halone
  · intro pid threads he
    rcases heff.log he with he | ⟨-, he⟩ | he | ⟨hstage, he⟩
    · exact hinv.deleted pid threads he
    · exact Event.noConfusion he
    · exact Event.noConfusion he
    · cases he
      exact hinv.threads _ (hc.reaping (.inr hstage))
  · intro pid number status he
    change 0 < number ∧ ∃ n, (s'.procs pid).stops[number - 1]? = some n ∧ status = stopStatus n
    rw [hf.stops]
    rcases heff.log he with he | ⟨hwon, he⟩ | he | ⟨-, he⟩
    · exact hinv.signal pid number status he
    · cases he
      have hstopped := (hc.observes (inReport_of_won hwon)).2
      have hquiet := (hc.observes (inReport_of_won hwon)).1
      have hlast := (hinv.settled _ hquiet).signal hstopped
      rw [hc.number hwon]
      rw [getLast?_eq_getElem?] at hlast
      refine ⟨?_, _, hlast, rfl⟩
      by_contra hzero
      rw [Nat.eq_zero_of_not_pos hzero, length_eq_zero_iff.1 (Nat.eq_zero_of_not_pos hzero)]
        at hlast
      simp at hlast
    · exact Event.noConfusion he
    · exact Event.noConfusion he

end CallStep

/-! ## One step of a handler -/

section HandlerStep

variable {s s' : State} {h h' : Handler} {j : ℕ}

structure HandlerFrame (s : State) (h : Handler) (s' : State) (h' : Handler) : Prop where
  running : h.stage ≠ .finished
  pid : h'.pid = h.pid
  calls : s'.calls = s.calls
  log : s'.log = s.log
  handlers : s'.handlers = s.handlers
  noThread : ∀ p, (s'.procs p).noThread = (s.procs p).noThread
  threads : ∀ p, (s'.procs p).threads = (s.procs p).threads
  waitClaimed : ∀ p, (s'.procs p).waitClaimed = (s.procs p).waitClaimed
  others : ∀ p, p ≠ h.pid → (s'.procs p).flags = (s.procs p).flags
  stops : ∃ new, (s'.procs h.pid).stops = (s.procs h.pid).stops ++ new

lemma handlerFrame_modify {f : Proc → Proc} (hrunning : h.stage ≠ .finished)
    (hpid : h'.pid = h.pid) (hexit : ∀ q, (f q).noThread = q.noThread)
    (hthreads : ∀ q, (f q).threads = q.threads)
    (hclaimed : ∀ q, (f q).waitClaimed = q.waitClaimed)
    (hstops : ∀ q, ∃ new, (f q).stops = q.stops ++ new) :
    HandlerFrame s h (s.modify h.pid f) h' where
  running := hrunning
  pid := hpid
  calls := rfl
  log := rfl
  handlers := rfl
  noThread := fun p => field_modify noThread s h.pid p hexit
  threads := fun p => field_modify threads s h.pid p hthreads
  waitClaimed := fun p => field_modify waitClaimed s h.pid p hclaimed
  others := by
    intro p hp
    rw [procs_modify, if_neg hp]
  stops := by
    rw [procs_modify, if_pos rfl]
    exact hstops _

lemma HandlerFrame.notify (hf : HandlerFrame s h s' h') (p : ℕ) :
    HandlerFrame s h (s'.notifyParent p) h' where
  running := hf.running
  pid := hf.pid
  calls := (frame_notifyParent s' p).calls.trans hf.calls
  log := (log_notifyParent s' p).trans hf.log
  handlers := (frame_notifyParent s' p).handlers.trans hf.handlers
  noThread := fun p' => ((frame_notifyParent s' p).noThread p').trans (hf.noThread p')
  threads := fun p' => ((frame_notifyParent s' p).threads p').trans (hf.threads p')
  waitClaimed := fun p' =>
    (field_notifyParent Proc.waitClaimed (fun _ _ => rfl) s' p p').trans (hf.waitClaimed p')
  others := fun p' hp' =>
    (field_notifyParent Proc.flags (fun _ _ => rfl) s' p p').trans (hf.others p' hp')
  stops := by
    rw [(frame_notifyParent s' p).stops]
    exact hf.stops

lemma handle_frame (hstep : s.handle h = some (s', h')) : HandlerFrame s h s' h' := by
  have hnone : ∀ q : Proc, ∃ new, q.stops = q.stops ++ new := fun q => ⟨[], by simp⟩
  rw [handle] at hstep
  cases hstage : h.stage with simp only [hstage] at hstep
  | setSignal n | clearReported | clearSignal | clearStopped =>
    cases hstep
    exact handlerFrame_modify (by simp [hstage]) rfl (fun _ => rfl) (fun _ => rfl)
      (fun _ => rfl) hnone
  | checkThread n =>
    cases hstep
    exact ⟨by simp [hstage], rfl, rfl, rfl, rfl, fun _ => rfl, fun _ => rfl, fun _ => rfl,
      fun _ _ => rfl, [], by simp⟩
  | setStopped n =>
    split at hstep
    · cases hstep
      exact ⟨by simp [hstage], rfl, rfl, rfl, rfl, fun _ => rfl, fun _ => rfl, fun _ => rfl,
        fun _ _ => rfl, [], by simp⟩
    cases hstep
    have hmod : HandlerFrame s h (s.modify h.pid fun q =>
        { q with jobControlStopped := true, stops := q.stops ++ [n] })
        { h with stage := .finished } :=
      handlerFrame_modify (by simp [hstage]) rfl (fun _ => rfl) (fun _ => rfl) (fun _ => rfl)
        fun q => ⟨[n], rfl⟩
    exact hmod.notify h.pid
  | finished => simp at hstep

lemma total_congr (hcalls : s'.calls = s.calls) (hlog : s'.log = s.log) (pid number : ℕ) :
    s'.total pid number = s.total pid number := by
  rw [total, total, hcalls, hlog]

/-- **What a handler leaves of its process.**  The new state is settled once the handler
has finished. -/
theorem handle_inv (hinv : Inv s) (hh : s.HandlerInv h) (hstep : s.handle h = some (s', h')) :
    s'.HandlerInv h' ∧ (h'.stage = .finished → s'.Settled h.pid) := by
  have hf := handle_frame hstep
  have htotal := total_congr hf.calls hf.log
  rw [handle] at hstep
  cases hstage : h.stage with simp only [hstage] at hstep
  | setSignal n =>
    cases hstep
    simp only [State.HandlerInv, hstage] at hh
    refine ⟨⟨⟨?_, ?_, ?_⟩, ?_⟩, by simp⟩
    · intro hstopped
      simp only [procs_modify, if_true] at hstopped ⊢
      rw [← hh.2 hstopped]
      exact hh.1.signal hstopped
    · intro hrun
      simp only [procs_modify, if_true] at hrun ⊢
      exact hh.1.running hrun
    · intro hstopped hnew
      simp only [procs_modify, if_true] at hstopped hnew ⊢
      exact hh.1.fresh hstopped hnew
    · simp only [procs_modify, if_true]
  | checkThread n =>
    cases hstep
    simp only [State.HandlerInv, hstage] at hh
    refine ⟨?_, fun _ => hh.1⟩
    by_cases hexit : (s.procs h.pid).noThread = true
    · simp only [State.HandlerInv, if_pos hexit]
    · simp only [State.HandlerInv, if_neg hexit]
      exact hh
  | setStopped n =>
    simp only [State.HandlerInv, hstage] at hh
    split at hstep
    · cases hstep
      exact ⟨trivial, fun _ => hh.1⟩
    cases hstep
    have hnotify := frame_notifyParent (s.modify h.pid fun q =>
      { q with jobControlStopped := true, stops := q.stops ++ [n] }) h.pid
    refine ⟨trivial, fun _ => ⟨?_, ?_, ?_⟩⟩
    · intro _
      rw [hnotify.stops, hnotify.lastStopSignal, procs_modify, if_pos rfl, hh.2]
      simp
    · intro hnot
      rw [hnotify.stopped, procs_modify, if_pos rfl] at hnot
      exact Bool.noConfusion hnot
    · -- The new stop has a number that was never reported.
      intro _ _
      rw [htotal, hnotify.stops, procs_modify, if_pos rfl]
      exact hinv.later h.pid _ (by simp)
  | clearReported =>
    cases hstep
    exact ⟨by simp [State.HandlerInv, procs_modify], by simp⟩
  | clearSignal =>
    cases hstep
    simp only [State.HandlerInv, hstage] at hh
    exact ⟨by simpa [State.HandlerInv, procs_modify] using hh, by simp⟩
  | clearStopped =>
    cases hstep
    simp only [State.HandlerInv, hstage] at hh
    refine ⟨trivial, fun _ => ⟨?_, ?_, ?_⟩⟩
    · simp [procs_modify]
    · simpa [procs_modify] using hh
    · simp [procs_modify]
  | finished => simp at hstep

lemma finished_of_ne (hinv : Inv s) {j' : ℕ} {g : Handler} (hj : s.handlers[j]? = some h)
    (hj' : s.handlers[j']? = some g) (hne : j' ≠ j) (hpid : g.pid = h.pid)
    (hrunning : h.stage ≠ .finished) : g.stage = .finished := by
  by_contra hg
  -- With both handlers finished, the sum would still be at most the sum of the others.
  have hfirst := Counter.sum_map_set (runsFor h.pid) hj { h with stage := .finished }
  have hget : (s.handlers.set j { h with stage := .finished })[j']? = some g := by
    rw [List.getElem?_set_ne (Ne.symm hne)]
    exact hj'
  have hsecond := Counter.sum_map_set (runsFor h.pid) hget { g with stage := .finished }
  have hone : h.runsFor h.pid = 1 := by simp [runsFor, hrunning]
  have htwo : g.runsFor h.pid = 1 := by simp [runsFor, hpid, hg]
  have hzero : ∀ x : Handler, ({ x with stage := .finished } : Handler).runsFor h.pid = 0 := by
    intro x
    simp [runsFor]
  have halone := hinv.alone h.pid
  rw [running] at halone
  rw [hzero, hone] at hfirst
  rw [hzero, htwo] at hsecond
  omega

/-- Calls and log stay, and a process without a handler keeps its flags. -/
lemma inv_of_frame (hinv : Inv s) (hcalls : s'.calls = s.calls) (hlog : s'.log = s.log)
    (hclaimed : ∀ p, (s'.procs p).waitClaimed = (s.procs p).waitClaimed)
    (hexit : ∀ p, (s.procs p).noThread = true → (s'.procs p).noThread = true)
    (hthreads : ∀ p, (s'.procs p).noThread = true → (s'.procs p).threads = 0)
    (hstops : ∀ p, ∃ new, (s'.procs p).stops = (s.procs p).stops ++ new)
    (hquiet : ∀ p, s.Quiet p → s'.Quiet p ∧ (s'.procs p).flags = (s.procs p).flags)
    (halone : ∀ p, s'.running p ≤ 1) (hhandlers : ∀ h ∈ s'.handlers, s'.HandlerInv h)
    (hsettled : ∀ p, s'.Quiet p → s'.Settled p) : Inv s' := by
  have htotal := total_congr hcalls hlog
  refine ⟨hthreads, ?_, ?_, halone, hhandlers, hsettled, by simpa only [htotal] using hinv.once, ?_,
    by simpa only [htotal] using hinv.zero, hlog ▸ hinv.deleted, ?_⟩
  · intro pid
    have hbefore := hinv.claims pid
    rw [holders, claimed] at hbefore ⊢
    rw [hcalls, hlog, hclaimed]
    exact hbefore
  · intro c hc
    rw [hcalls] at hc
    have h := hinv.calls c hc
    refine ⟨h.aim, fun hstage => hexit _ (h.reaping hstage), fun hstage => ?_, fun hstage => ?_⟩
    · obtain ⟨hbefore, hstopped⟩ := h.observes hstage
      obtain ⟨hafter, hflags⟩ := hquiet _ hbefore
      exact ⟨hafter, (congrArg (·.1) hflags).trans hstopped⟩
    · rw [h.number hstage]
      obtain ⟨-, hflags⟩ := hquiet _ (h.observes (inReport_of_won hstage)).1
      exact congrArg (·.2.2.2.length) hflags.symm
  · intro pid number hlt
    obtain ⟨new, hnew⟩ := hstops pid
    rw [hnew, length_append] at hlt
    rw [htotal]
    exact hinv.later pid number (by omega)
  · intro pid number status he
    rw [hlog] at he
    obtain ⟨hpos, n, hn, hstatus⟩ := hinv.signal pid number status he
    obtain ⟨new, hnew⟩ := hstops pid
    refine ⟨hpos, n, ?_, hstatus⟩
    rw [hnew]
    exact List.getElem?_append_left (List.getElem?_eq_some_iff.1 hn).1 |>.trans hn

/-- **A step of a handler keeps the invariant.** -/
theorem inv_handler (hinv : Inv s) (hj : s.handlers[j]? = some h)
    (hstep : s.handle h = some (s', h')) : Inv (s'.setHandler j h') := by
  have hf := handle_frame hstep
  have hmem := mem_of_getElem? hj
  have hlocal := handle_inv hinv (hinv.handlers h hmem) hstep
  have htotal : ∀ pid number, (s'.setHandler j h').total pid number = s.total pid number :=
    total_congr hf.calls hf.log
  have hstops : ∀ p, ∃ new, (s'.procs p).stops = (s.procs p).stops ++ new := by
    intro p
    by_cases hp : p = h.pid
    · subst hp
      exact hf.stops
    · exact ⟨[], by rw [append_nil]; exact congrArg (fun x => x.2.2.2) (hf.others p hp)⟩
  have hlist : (s'.setHandler j h').handlers = s.handlers.set j h' := by
    rw [setHandler, hf.handlers]
  refine inv_of_frame hinv hf.calls hf.log hf.waitClaimed
    (fun p hexited => (hf.noThread p).trans hexited) ?_ hstops ?_ ?_ ?_ ?_
  · intro pid hexited
    exact (hf.threads pid).trans (hinv.threads pid ((hf.noThread pid).symm.trans hexited))
  · intro p hquiet
    have hne : p ≠ h.pid := by
      rintro rfl
      exact hf.running (hquiet h hmem rfl)
    refine ⟨fun g hg hpid => ?_, hf.others p hne⟩
    rw [hlist] at hg
    rcases mem_or_eq_of_mem_set hg with hg | rfl
    · exact hquiet g hg hpid
    · exact absurd (hpid.symm.trans hf.pid) hne
  · intro pid
    have halone := hinv.alone pid
    have hsum := Counter.sum_map_set (runsFor pid) hj h'
    have hle : h'.runsFor pid ≤ h.runsFor pid := by
      rw [runsFor, runsFor, hf.pid]
      by_cases hpid : h.pid = pid
      · rw [if_pos (show h.pid = pid ∧ h.stage ≠ .finished from ⟨hpid, hf.running⟩)]
        split <;> omega
      · rw [if_neg fun hh => hpid hh.1]
        omega
    rw [running] at halone ⊢
    rw [hlist]
    omega
  · intro g hg
    rw [hlist] at hg
    obtain ⟨j', hj'⟩ := mem_iff_getElem?.1 hg
    by_cases hjj : j' = j
    · subst hjj
      have hlt : j' < s.handlers.length := (List.getElem?_eq_some_iff.1 hj).1
      rw [List.getElem?_set_self hlt] at hj'
      cases hj'
      exact hlocal.1.of_same rfl fun _ => rfl
    · rw [List.getElem?_set_ne (Ne.symm hjj)] at hj'
      by_cases hpid : g.pid = h.pid
      · have hfin := finished_of_ne hinv hj hj' hjj hpid hf.running
        simp only [State.HandlerInv, hfin]
      · exact (hinv.handlers g (mem_of_getElem? hj')).of_same (hf.others _ hpid) (htotal _)
  · intro pid hquiet
    by_cases hpid : pid = h.pid
    · subst hpid
      have hlt : j < s.handlers.length := (List.getElem?_eq_some_iff.1 hj).1
      have hin : h' ∈ (s'.setHandler j h').handlers := by
        rw [hlist]
        exact mem_set hlt h'
      have hset := hlocal.2 (hquiet h' hin hf.pid)
      exact ⟨hset.signal, hset.running, hset.fresh⟩
    · have hbefore : s.Quiet pid := by
        intro g hg hgp
        obtain ⟨j', hj'⟩ := mem_iff_getElem?.1 hg
        have hjj : j' ≠ j := by
          rintro rfl
          rw [hj] at hj'
          cases hj'
          exact hpid hgp.symm
        refine hquiet g ?_ hgp
        rw [hlist]
        refine mem_of_getElem? (i := j') ?_
        rw [List.getElem?_set_ne (Ne.symm hjj)]
        exact hj'
      exact (hinv.settled pid hbefore).of_same (hf.others _ hpid) (htotal pid)

end HandlerStep

/-! ## The other steps -/

section OtherSteps

variable {s s' : State}

lemma inv_calls (hinv : Inv s) {l : List Call}
    (hholders : ∀ pid, (l.map (holdsFor pid)).sum = s.holders pid)
    (hreports : ∀ pid number, (l.map (reportsFor pid number)).sum =
      (s.calls.map (reportsFor pid number)).sum)
    (hcalls : ∀ c ∈ l, CallInv s c) : Inv { s with calls := l } := by
  have htotal : ∀ pid number, { s with calls := l }.total pid number = s.total pid number := by
    intro pid number
    rw [total, total, hreports]
  obtain ⟨hhandlers, hsettled, honce, hlater, hzero⟩ : ReportsInv { s with calls := l } :=
    .of_same hinv rfl (fun _ => rfl) htotal
  refine ⟨hinv.threads, ?_, ?_, hinv.alone, hhandlers, hsettled, honce, hlater, hzero,
    hinv.deleted, hinv.signal⟩
  · intro pid
    have hbefore := hinv.claims pid
    rw [← hholders pid] at hbefore
    exact hbefore
  · intro c hc
    have h := hcalls c hc
    exact ⟨h.aim, h.reaping, h.observes, h.number⟩

variable {c : Call}

lemma inv_newCall (hinv : Inv s) (hstage : c.stage = .start)
    (haim : c.kind = .handle → c.requestedPid = c.target ∧ 0 < c.target) :
    Inv { s with calls := s.calls ++ [c] } := by
  apply inv_calls hinv
  · intro pid
    rw [map_append, sum_append, holders, map_singleton, sum_singleton,
      holdsFor_eq_zero pid (hstage ▸ rfl), Nat.add_zero]
  · intro pid number
    rw [map_append, sum_append, map_singleton, sum_singleton,
      reportsFor_eq_zero pid number (hstage ▸ rfl), Nat.add_zero]
  · intro x hx
    rcases mem_append.1 hx with hx | hx
    · exact hinv.calls x hx
    · obtain rfl := mem_singleton.1 hx
      exact ⟨haim, by simp [hstage], by simp [hstage, inReport], by simp [hstage, won]⟩

lemma inv_interrupt (hinv : Inv s) {i : ℕ} (hi : s.calls[i]? = some c) :
    Inv (s.setCall i { c with interrupted := true }) := by
  apply inv_calls hinv
  · intro pid
    have hsum := Counter.sum_map_set (holdsFor pid) hi { c with interrupted := true }
    exact Nat.add_right_cancel hsum
  · intro pid number
    have hsum := Counter.sum_map_set (reportsFor pid number) hi { c with interrupted := true }
    exact Nat.add_right_cancel hsum
  · intro x hx
    rcases mem_or_eq_of_mem_set hx with hx | rfl
    · exact hinv.calls x hx
    · have h := hinv.calls c (mem_of_getElem? hi)
      exact ⟨h.aim, h.reaping, h.observes, h.number⟩

lemma inv_newHandler (hinv : Inv s) {h : Handler} (hquiet : s.Quiet h.pid)
    (hunobserved : s.Unobserved h.pid) (hh : s.HandlerInv h) :
    Inv { s with handlers := s.handlers ++ [h] } := by
  have hsubset : ∀ pid, ({ s with handlers := s.handlers ++ [h] } : State).Quiet pid →
      s.Quiet pid := fun pid hq g hg => hq g (mem_append_left _ hg)
  refine
    { threads := hinv.threads, claims := hinv.claims, calls := ?_, alone := ?_, handlers := ?_
      settled := ?_, once := hinv.once, later := hinv.later, zero := hinv.zero
      deleted := hinv.deleted, signal := hinv.signal }
  · intro c hc
    have hcall := hinv.calls c hc
    refine ⟨hcall.aim, hcall.reaping, ?_, hcall.number⟩
    intro hstage
    obtain ⟨hq, hstopped⟩ := hcall.observes hstage
    refine ⟨?_, hstopped⟩
    intro g hg hpid
    rcases mem_append.1 hg with hg | hg
    · exact hq g hg hpid
    · obtain rfl := mem_singleton.1 hg
      simp [hunobserved c hc hpid.symm] at hstage
  · intro pid
    rw [running, map_append, sum_append, map_singleton, sum_singleton]
    by_cases hpid : h.pid = pid
    · -- The others of this process have finished.
      have hzero : (s.handlers.map (runsFor pid)).sum = 0 := by
        rw [sum_eq_zero]
        intro n hn
        obtain ⟨g, hg, rfl⟩ := List.mem_map.1 hn
        by_cases hgp : g.pid = pid
        · simp [runsFor, hquiet g hg (hgp.trans hpid.symm)]
        · simp [runsFor, hgp]
      have hle : h.runsFor pid ≤ 1 := by
        rw [runsFor]
        split <;> omega
      omega
    · have hzero : h.runsFor pid = 0 := by simp [runsFor, hpid]
      have halone := hinv.alone pid
      rw [running] at halone
      omega
  · intro g hg
    rcases mem_append.1 hg with hg | hg
    · exact (hinv.handlers g hg).of_same rfl fun _ => rfl
    · obtain rfl := mem_singleton.1 hg
      exact hh.of_same rfl fun _ => rfl
  · intro pid hq
    exact (hinv.settled pid (hsubset pid hq)).of_same rfl fun _ => rfl

lemma inv_procs (hinv : Inv s) (hcalls : s'.calls = s.calls) (hhandlers : s'.handlers = s.handlers)
    (hlog : s'.log = s.log) (hflags : ∀ p, (s'.procs p).flags = (s.procs p).flags)
    (hclaimed : ∀ p, (s'.procs p).waitClaimed = (s.procs p).waitClaimed)
    (hexit : ∀ p, (s.procs p).noThread = true → (s'.procs p).noThread = true)
    (hthreads : ∀ p, (s'.procs p).noThread = true → (s'.procs p).threads = 0) : Inv s' := by
  obtain ⟨hinvs, hsettled, -, -, -⟩ : ReportsInv s' :=
    .of_same hinv hhandlers hflags (total_congr hcalls hlog)
  refine inv_of_frame hinv hcalls hlog hclaimed hexit hthreads (fun p => ⟨[], ?_⟩)
    (fun p hquiet => ⟨?_, hflags p⟩) (fun p => ?_) hinvs hsettled
  · rw [append_nil]
    exact congrArg (fun x => x.2.2.2) (hflags p)
  · rw [State.Quiet, hhandlers]
    exact hquiet
  · rw [running, hhandlers]
    exact hinv.alone p

end OtherSteps

lemma inv_modify (hinv : Inv s) {pid : ℕ} (hflags : ∀ q, (f q).flags = q.flags)
    (hclaimed : ∀ q, (f q).waitClaimed = q.waitClaimed)
    (hexit : ∀ q, q.noThread = true → (f q).noThread = true)
    (hthreads : (f (s.procs pid)).noThread = true → (f (s.procs pid)).threads = 0) :
    Inv (s.modify pid f) := by
  refine inv_procs hinv rfl rfl rfl (fun p => field_modify flags s pid p hflags)
    (fun p => field_modify waitClaimed s pid p hclaimed) (fun p => ?_) (fun p => ?_)
  all_goals
    rw [procs_modify]
    split
    next hp =>
      subst hp
      first | exact hexit _ | exact hthreads
    · first | exact id | exact hinv.threads p

lemma inv_notifyParent (hinv : Inv s) (pid : ℕ) : Inv (s.notifyParent pid) := by
  rw [notifyParent]
  split
  · exact inv_modify hinv (fun _ => rfl) (fun _ => rfl) (fun _ h => h) (hinv.threads _)
  · exact hinv

/-! ## Runs -/

/-- **One orderly step keeps the invariant.** -/
theorem inv_step {a : Action} (hinv : Inv s) (hok : Orderly s a) (hstep : s.step a = some s') :
    Inv s' := by
  cases a with
  | waitHandle parent target wantStop noHang =>
    obtain ⟨htarget, hstep⟩ := ite_none_left_eq_some.1 hstep
    cases hstep
    exact inv_newCall hinv rfl fun _ => ⟨rfl, Nat.pos_of_ne_zero htarget⟩
  | waitChildren parent requestedPid wantStop noHang =>
    cases hstep
    exact inv_newCall hinv rfl fun h => Kind.noConfusion h
  | interrupt i =>
    obtain ⟨c, hc, rfl⟩ := map_eq_some_iff.1 hstep
    exact inv_interrupt hinv hc
  | call i =>
    obtain ⟨c, hc, hadvance⟩ := bind_eq_some_iff.1 hstep
    obtain ⟨⟨t, c'⟩, hr, rfl⟩ := map_eq_some_iff.1 hadvance
    exact inv_call hinv hc (hok c hc) hr
  | stop pid number =>
    cases hstep
    obtain ⟨hquiet, hunobserved, hsame⟩ := hok
    exact inv_newHandler hinv hquiet hunobserved ⟨hinv.settled pid hquiet, hsame⟩
  | continue_ pid =>
    cases hstep
    exact inv_newHandler hinv hok.1 hok.2 (hinv.settled pid hok.1)
  | handler i =>
    obtain ⟨h, hh, hhandle⟩ := bind_eq_some_iff.1 hstep
    obtain ⟨⟨t, h'⟩, hr, rfl⟩ := map_eq_some_iff.1 hhandle
    exact inv_handler hinv hh hr
  | newThread pid =>
    obtain ⟨halive, hstep⟩ := ite_none_left_eq_some.1 hstep
    cases hstep
    exact inv_modify hinv (fun _ => rfl) (fun _ => rfl) (fun _ h => h)
      fun hexited => absurd (hinv.threads pid hexited) halive
  | exit pid value =>
    cases hstep
    exact inv_modify hinv (fun _ => rfl) (fun _ => rfl) (fun _ h => h) (hinv.threads pid)
  | exitThread pid =>
    cases (ite_none_left_eq_some.1 hstep).2
    refine inv_modify hinv (fun _ => rfl) (fun _ => rfl) (fun _ h => h) fun hexited => ?_
    have hempty := hinv.threads pid hexited
    dsimp only
    omega
  | exitProcess pid =>
    obtain ⟨hempty, rfl⟩ := ite_some_none_eq_some.1 hstep
    have hexited : Inv (s.modify pid fun q => { q with noThread := true }) :=
      inv_modify hinv (fun _ => rfl) (fun _ => rfl) (fun _ _ => rfl) fun _ => hempty
    exact inv_notifyParent hexited pid

def State.initial (parentOf groupOf threadsOf : ℕ → ℕ) (map : List ℕ) : State :=
  { procs := fun pid =>
      { parentPid := parentOf pid, processGroupId := groupOf pid, threads := threadsOf pid }
    map := map }

lemma inv_initial (parentOf groupOf threadsOf : ℕ → ℕ) (map : List ℕ) :
    Inv (initial parentOf groupOf threadsOf map) where
  threads := by intro _ h; cases h
  claims := by intro _; rfl
  calls := by intro _ h; cases h
  alone := by intro _; exact Nat.zero_le 1
  handlers := by intro _ h; cases h
  settled := by
    intro _ _
    constructor
    · intro h; cases h
    · intro _; rfl
    · intro h; cases h
  once := by intro _ _; exact Nat.zero_le 1
  later := by intro _ _ _; rfl
  zero := by intro _; rfl
  deleted := by intro _ _ h; cases h
  signal := by intro _ _ _ h; cases h

/-- **Waiting is safe in every orderly run**: only a process without threads is deleted, it is
reaped once at most, and each stop is reported once at most and with its own signal. -/
theorem reapSafe_of_orderly {parentOf groupOf threadsOf : ℕ → ℕ} {map : List ℕ}
    {as : List Action} {s : State}
    (hok : Along step Orderly (initial parentOf groupOf threadsOf map) as)
    (hrun : exec step (initial parentOf groupOf threadsOf map) as = some s) :
    ReapSafe s :=
  reapSafe_of_inv (exec_induct (fun _ _ _ hinv hok hstep => inv_step hinv hok hstep)
    (inv_initial parentOf groupOf threadsOf map) hok hrun)

def State.parentAndChild : State := .initial (fun _ => 1) id (fun _ => 1) [1, 2]

def handled (i : ℕ) (a : Action) : List Action := a :: replicate 3 (.handler i)

/-- A call of `wait_process_handle` up to its sleep. -/
def sleepForStop : List Action := .waitHandle 1 2 true false :: replicate 4 (.call 0)

/-- The call reports the stop that woke it, and `wait_process_children` reaps the child. -/
def stopThenExit : List Action :=
  sleepForStop ++ handled 0 (.stop 2 19) ++ replicate 10 (.call 0) ++
    [.exit 2 7, .exitThread 2, .exitProcess 2, .waitChildren 1 (-1) false false] ++
    replicate 4 (.call 1)

theorem reapSafe_stopThenExit : ∃ s, exec step .parentAndChild stopThenExit = some s ∧
      s.log = [.stopped 2 1 (stopStatus 19), .reaped 2 7, .deleted 2 0] ∧ ReapSafe s := by
  have hok : Along step Orderly .parentAndChild stopThenExit := by decide
  exact ⟨_, rfl, by decide, reapSafe_of_orderly hok rfl⟩

def stopThenContinue : List Action :=
  sleepForStop ++ handled 0 (.stop 2 19) ++ replicate 3 (.call 0) ++
    handled 1 (.continue_ 2) ++ replicate 4 (.call 0)

/-- A call with `NA_PROCESS_WAIT_FLAG_NOHANG` reports a stop. -/
def pollForStop (i : ℕ) : List Action := .waitHandle 1 2 true true :: replicate 6 (.call i)

/-- A running child is deleted, a stop is reported twice, a stop is reported with the signal
of a later one. -/
theorem not_reapSafe_stop_continue : (∃ s, exec step .parentAndChild stopThenContinue = some s ∧
      .deleted 2 1 ∈ s.log ∧ ¬ ReapSafe s) ∧
    (∃ s, exec step .parentAndChild
        (handled 0 (.stop 2 19) ++ pollForStop 0 ++ [.continue_ 2, .handler 1] ++ pollForStop 1)
        = some s ∧
      s.log = [.stopped 2 1 (stopStatus 19), .stopped 2 1 (stopStatus 19)] ∧ ¬ ReapSafe s) ∧
    ∃ s, exec step .parentAndChild
        (handled 0 (.stop 2 19) ++ [.stop 2 20, .handler 1] ++ pollForStop 0) = some s ∧
      s.log = [.stopped 2 1 (stopStatus 20)] ∧ (s.procs 2).stops = [19] ∧ ¬ ReapSafe s := by
  refine ⟨⟨_, rfl, by decide, fun h => ?_⟩, ⟨_, rfl, by decide, fun h => ?_⟩,
    ⟨_, rfl, by decide, by decide, fun h => ?_⟩⟩
  · exact absurd (h.deleted 2 1 (by decide)) (by decide)
  · exact absurd (h.reported 2 1) (by decide)
  · obtain ⟨-, n, hn, hstatus⟩ := h.signal 2 1 (stopStatus 20) (by decide)
    cases hn
    exact absurd hstatus (by decide)

end Naos.Wait
