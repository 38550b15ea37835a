import Naos.Task.Reap

/-!
# Children that a wait for any child does not see

A call of `wait_process_children` that waits for any child reads the generation of its
process, finds no child that it could take, and sleeps until the generation moves.  The exit
of a child moves it.  A child that another call has claimed is not seen, and when the claim
is given back the generation does not move.
-/

namespace Naos.Wait

open Transition List Option

namespace State

variable (s : State)

/-- A child that the request matches has exited, and nobody has claimed it. -/
def Exposed (parent : ℕ) (requestedPid : ℤ) (child : ℕ) : Prop :=
  child ∈ s.map ∧ s.eligible parent requestedPid child = true ∧
    (s.procs child).noThread = true ∧ (s.procs child).waitClaimed = false

/-- **No child is missed**: where a thread of a process sleeps in a wait for any child, on the
current generation and without an interrupt, no exited child it waits for is unclaimed. -/
def NoMissedChild : Prop :=
  ∀ c ∈ s.calls, c.stage = .waitingAny → c.parent ∈ s.map → c.interrupted = false →
    c.generation = (s.procs c.parent).childWaitGeneration →
      ∀ child, ¬ s.Exposed c.parent c.requestedPid child

/-- The step does not give back the claim of a child that has exited. -/
def wakeful : Action → Bool
  | .call i =>
    s.calls[i]?.all fun c =>
      match c.stage with
      | .dropClaim | .release _ => !(s.procs c.target).noThread
      | _ => true
  | _ => true

end State

/-! ## What a step may bring to light -/

/-- The fields of a process that decide what the scans see, and its generation. -/
def Proc.scanned (q : Proc) : ℕ × ℕ × Bool × Bool × Bool × ℕ :=
  (q.parentPid, q.processGroupId, q.destroy, q.noThread, q.waitClaimed, q.childWaitGeneration)

/-- A step takes processes out of the map only, does not turn a generation back, and moves the
generation of a parent one of whose children it brings to light. -/
structure Keeps (s s' : State) : Prop where
  calls : s'.calls = s.calls
  map : ∀ p ∈ s'.map, p ∈ s.map
  generation : ∀ p, (s.procs p).childWaitGeneration ≤ (s'.procs p).childWaitGeneration
  exposed : ∀ parent requestedPid child, parent ∈ s'.map →
    s'.Exposed parent requestedPid child → s.Exposed parent requestedPid child ∨
      (s.procs parent).childWaitGeneration < (s'.procs parent).childWaitGeneration

namespace Keeps

variable {s s' s'' : State}

lemma refl (s : State) : Keeps s s :=
  ⟨rfl, fun _ h => h, fun _ => le_rfl, fun _ _ _ _ h => .inl h⟩

lemma trans (h : Keeps s s') (h' : Keeps s' s'') : Keeps s s'' where
  calls := h'.calls.trans h.calls
  map p hp := h.map p (h'.map p hp)
  generation p := (h.generation p).trans (h'.generation p)
  exposed parent requestedPid child hparent hexp := by
    rcases h'.exposed parent requestedPid child hparent hexp with hexp | hlt
    · rcases h.exposed parent requestedPid child (h'.map parent hparent) hexp with hexp | hlt
      · exact .inl hexp
      · exact .inr (hlt.trans_le (h'.generation parent))
    · exact .inr ((h.generation parent).trans_lt hlt)

lemma of_eq (hprocs : s'.procs = s.procs) (hmap : s'.map = s.map) (hcalls : s'.calls = s.calls) :
    Keeps s s' := by
  refine ⟨hcalls, fun p hp => hmap ▸ hp, fun p => hprocs ▸ le_rfl,
    fun parent requestedPid child _ h => ?_⟩
  left
  simpa [State.Exposed, State.eligible, State.matchesWaitPid, hprocs, hmap] using h

variable {f : Proc → Proc} {parent pid : ℕ}

lemma eligible_modify (hparent : ∀ q, (f q).parentPid = q.parentPid)
    (hgroup : ∀ q, (f q).processGroupId = q.processGroupId)
    (hdestroy : ∀ q, q.destroy = true → (f q).destroy = true) {child : ℕ} {requestedPid : ℤ}
    (h : (s.modify pid f).eligible parent requestedPid child = true) :
    s.eligible parent requestedPid child = true := by
  have hgroups : ∀ p, ((s.modify pid f).procs p).processGroupId = (s.procs p).processGroupId :=
    fun p => field_modify Proc.processGroupId s pid p hgroup
  have hkept : ((s.modify pid f).procs child).destroy = false →
      (s.procs child).destroy = false := by
    rw [procs_modify]
    split
    next heq =>
      subst heq
      intro hf
      cases hd : (s.procs child).destroy with
      | false => rfl
      | true =>
        rw [hdestroy _ hd] at hf
        cases hf
    · exact id
  simp only [State.eligible, State.matchesWaitPid, Bool.and_eq_true, Bool.not_eq_true',
    decide_eq_true_eq, hgroups] at h ⊢
  rw [field_modify Proc.parentPid s pid child hparent] at h
  exact ⟨⟨h.1.1, hkept h.1.2⟩, h.2⟩

lemma modify (hparent : ∀ q, (f q).parentPid = q.parentPid)
    (hgroup : ∀ q, (f q).processGroupId = q.processGroupId)
    (hdestroy : ∀ q, q.destroy = true → (f q).destroy = true)
    (hexposed : (f (s.procs pid)).noThread = true → (f (s.procs pid)).waitClaimed = false →
      (s.procs pid).noThread = true ∧ (s.procs pid).waitClaimed = false)
    (hgeneration : ∀ q, q.childWaitGeneration ≤ (f q).childWaitGeneration) :
    Keeps s (s.modify pid f) := by
  refine ⟨rfl, fun _ h => h, fun p => ?_, fun parent requestedPid child _ h => .inl ?_⟩
  · rw [procs_modify]
    split
    next heq =>
      subst heq
      exact hgeneration _
    · exact le_rfl
  · obtain ⟨hmem, heligible, hno, hclaimed⟩ := h
    rw [procs_modify] at hno hclaimed
    refine ⟨hmem, eligible_modify hparent hgroup hdestroy heligible, ?_⟩
    split at hno
    next heq =>
      subst heq
      rw [if_pos rfl] at hclaimed
      exact hexposed hno hclaimed
    next hne =>
      rw [if_neg hne] at hclaimed
      exact ⟨hno, hclaimed⟩

lemma other (h : ∀ q, (f q).scanned = q.scanned) : Keeps s (s.modify pid f) := by
  simp only [Proc.scanned, Prod.mk.injEq] at h
  refine modify (fun q => (h q).1) (fun q => (h q).2.1) (fun q hd => (h q).2.2.1.trans hd)
    (fun hno hclaimed => ?_) fun q => (h q).2.2.2.2.2.ge
  rw [(h _).2.2.2.1] at hno
  rw [(h _).2.2.2.2.1] at hclaimed
  exact ⟨hno, hclaimed⟩

lemma notifyParent (s : State) (pid : ℕ) : Keeps s (s.notifyParent pid) := by
  rw [State.notifyParent]
  split
  · exact modify (fun _ => rfl) (fun _ => rfl) (fun _ h => h) (fun hno hc => ⟨hno, hc⟩)
      fun q => Nat.le_succ _
  · exact refl s

lemma deleteProcess (s : State) (pid : ℕ) : Keeps s (s.deleteProcess pid) := by
  rw [State.deleteProcess]
  split
  · exact of_eq rfl rfl rfl
  · have hnote : Keeps s (s.note (.deleted pid (s.procs pid).threads)) := of_eq rfl rfl rfl
    have hmodify : Keeps s ((s.note (.deleted pid (s.procs pid).threads)).modify pid fun q =>
        { q with reapPending := true, destroy := true }) :=
      hnote.trans (modify (fun _ => rfl) (fun _ => rfl) (fun _ _ => rfl) (fun hno hc => ⟨hno, hc⟩)
          fun _ => le_rfl)
    refine ⟨rfl, fun p hp => mem_of_mem_erase hp, hmodify.generation,
      fun parent requestedPid child hparent h => ?_⟩
    exact hmodify.exposed parent requestedPid child (mem_of_mem_erase hparent)
      ⟨mem_of_mem_erase h.1, h.2⟩

lemma reserveChild {requestedPid : ℤ} {exitedOnly stoppedOnly : Bool} {p : ℕ}
    (h : s.reserveChild parent requestedPid exitedOnly stoppedOnly = some (p, s')) :
    Keeps s s' := by
  obtain ⟨p', -, heq⟩ := map_eq_some_iff.1 h
  cases heq
  exact modify (fun _ => rfl) (fun _ => rfl) (fun _ hd => hd) (fun _ hc => by cases hc)
    fun _ => le_rfl

lemma lt_notifyParent (hpid : (s.procs pid).parentPid = parent) (hparent : parent ∈ s.map) :
    (s.procs parent).childWaitGeneration <
      ((s.notifyParent pid).procs parent).childWaitGeneration := by
  subst hpid
  rw [State.notifyParent, if_pos hparent, procs_modify, if_pos rfl]
  exact Nat.lt_succ_self _

/-- **The exit of a child moves the generation of its parent.** -/
theorem exitProcess (s : State) (pid : ℕ) :
    Keeps s ((s.modify pid fun q => { q with noThread := true }).notifyParent pid) := by
  have hnotify := notifyParent (s.modify pid fun q => { q with noThread := true }) pid
  have hgeneration : ∀ p, ((s.modify pid fun q => { q with noThread := true }).procs
      p).childWaitGeneration = (s.procs p).childWaitGeneration :=
    fun p => field_modify Proc.childWaitGeneration s pid p fun _ => rfl
  refine ⟨hnotify.calls, hnotify.map, fun p => (hgeneration p) ▸ hnotify.generation p,
    fun parent requestedPid child hparent h => ?_⟩
  rcases hnotify.exposed parent requestedPid child hparent h with hexp | hlt
  · obtain ⟨hmem, heligible, hno, hclaimed⟩ := hexp
    have heligible' : s.eligible parent requestedPid child = true :=
      eligible_modify (f := fun q => { q with noThread := true }) (fun _ => rfl) (fun _ => rfl)
        (fun _ hd => hd) heligible
    have hclaim : ((s.modify pid fun q => { q with noThread := true }).procs child).waitClaimed =
        (s.procs child).waitClaimed := field_modify Proc.waitClaimed s pid child fun _ => rfl
    rw [hclaim] at hclaimed
    rw [procs_modify] at hno
    split at hno
    next heq =>
      -- the child that has just exited is one of the parent
      subst heq
      right
      have hpid : ((s.modify child fun q => { q with noThread := true }).procs
          child).parentPid = parent := by
        simp only [State.eligible, Bool.and_eq_true, decide_eq_true_eq] at heligible
        exact heligible.1.1
      rw [← hgeneration parent]
      exact lt_notifyParent hpid (hnotify.map parent hparent)
    · exact .inl ⟨hmem, heligible', hno, hclaimed⟩
  · exact .inr (hgeneration parent ▸ hlt)

end Keeps

/-! ## The invariant -/

/-- A call has seen a generation that is not ahead of its process, and if it sleeps on the
current one there is nothing to see. -/
structure Guarded (s : State) (c : Call) : Prop where
  generation : c.generation ≤ (s.procs c.parent).childWaitGeneration
  asleep : c.stage = .waitingAny → c.parent ∈ s.map →
    c.generation = (s.procs c.parent).childWaitGeneration →
      ∀ child, ¬ s.Exposed c.parent c.requestedPid child

variable {s s' : State} {c c' : Call}

lemma Guarded.keeps (h : Guarded s c) (hk : Keeps s s') : Guarded s' c where
  generation := h.generation.trans (hk.generation _)
  asleep hstage hparent heq child hexp := by
    have hle := h.generation
    have hle' := hk.generation c.parent
    rcases hk.exposed _ _ _ hparent hexp with hexp | hlt
    · exact h.asleep hstage (hk.map _ hparent) (by omega) child hexp
    · omega

lemma Guarded.awake (h : Guarded s c) (hk : Keeps s s') (hparent : c'.parent = c.parent)
    (hgeneration : c'.generation = c.generation) (hstage : c'.stage ≠ .waitingAny) :
    Guarded s' c' := by
  refine ⟨?_, fun hasleep => absurd hasleep hstage⟩
  rw [hparent, hgeneration]
  exact (h.keeps hk).generation

variable {parent : ℕ}

lemma not_exposed_of_selectChild {requestedPid : ℤ} {wantStop : Bool}
    (h : (s.selectChild parent requestedPid wantStop).process = false) (child : ℕ) :
    ¬ s.Exposed parent requestedPid child := by
  rintro ⟨hmem, heligible, hno, hclaimed⟩
  simp only [State.selectChild, List.any_eq_false, mem_filter] at h
  exact h child ⟨hmem, heligible⟩ (by simp [hno, hclaimed])

lemma guarded_begin (h : Guarded s c) : Guarded s (s.begin c) := by
  have hstay : ∀ stage, stage ≠ .waitingAny → Guarded s { c with stage := stage } :=
    fun stage hne => h.awake (.refl s) rfl rfl hne
  have hload : ∀ stage, stage ≠ .waitingAny → Guarded s { c with
      generation := (s.procs c.parent).childWaitGeneration, stage := stage } :=
    fun stage hne => ⟨le_rfl, fun hasleep => absurd hasleep hne⟩
  rw [State.begin]
  dsimp only
  repeat' split
  all_goals try exact hstay _ (by decide)
  all_goals try exact hload _ (by decide)
  next hnone _ _ _ =>
    exact ⟨le_rfl, fun _ _ _ => not_exposed_of_selectChild (Bool.eq_false_iff.2 hnone)⟩

lemma guarded_afterReserve (h : Guarded s c) {requestedPid : ℤ} {exitedOnly stoppedOnly : Bool}
    {refused : Stage} {granted : ℕ → Stage} {r : State × Call}
    (hr : s.afterReserve c (s.reserveChild parent requestedPid exitedOnly stoppedOnly) refused
      granted = r)
    (hrefused : refused ≠ .waitingAny) (hgranted : ∀ p, granted p ≠ .waitingAny) :
    Keeps s r.1 ∧ Guarded r.1 r.2 := by
  cases hreserve : s.reserveChild parent requestedPid exitedOnly stoppedOnly with
  | none =>
    rw [hreserve] at hr
    cases hr
    exact ⟨.refl s, h.awake (.refl s) rfl rfl hrefused⟩
  | some p =>
    rw [hreserve] at hr
    cases hr
    exact ⟨.reserveChild hreserve, h.awake (.reserveChild hreserve) rfl rfl (hgranted _)⟩

lemma guarded_exchange (h : Guarded s c) {won lost : Stage} {r : State × Call}
    (hr : s.exchange c won lost = r) (hwon : won ≠ .waitingAny) (hlost : lost ≠ .waitingAny) :
    Keeps s r.1 ∧ Guarded r.1 r.2 := by
  rw [State.exchange] at hr
  split at hr
  · cases hr
    exact ⟨.refl s, h.awake (.refl s) rfl rfl hlost⟩
  · cases hr
    have hreported : Keeps s (s.modify c.target fun q => { q with waitStopReported := true }) :=
      .other fun _ => by rfl
    exact ⟨hreported, h.awake hreported rfl rfl hwon⟩

/-- **A step of a call keeps the calls guarded**, if it does not give back the claim of an
exited child. -/
theorem guarded_advance (h : Guarded s c)
    (hwakeful : c.stage = .dropClaim ∨ (∃ again, c.stage = .release again) →
      (s.procs c.target).noThread = false)
    (hstep : s.advance c = some (s', c')) : Keeps s s' ∧ Guarded s' c' := by
  have hgo : ∀ {stage}, some (s, { c with stage := stage }) = some (s', c') →
      stage ≠ .waitingAny → Keeps s s' ∧ Guarded s' c' := by
    intro stage heq hne
    cases heq
    exact ⟨.refl s, h.awake (.refl s) rfl rfl hne⟩
  have hdone : ∀ {r : State × Call}, some r = some (s', c') → Keeps s r.1 → r.2.parent = c.parent →
      r.2.generation = c.generation → r.2.stage ≠ .waitingAny → Keeps s s' ∧ Guarded s' c' := by
    intro r heq hk hparent hgeneration hne
    cases heq
    exact ⟨hk, h.awake hk hparent hgeneration hne⟩
  have hfall : c.fallThrough ≠ .waitingAny := by
    rw [Call.fallThrough]
    split <;> simp
  have hpeek : c.afterPeek ≠ .waitingAny := by
    rw [Call.afterPeek]
    split <;> simp
  have hcount : Keeps s (s.modify c.target fun q => { q with waitCounter := q.waitCounter - 1 }) :=
    .other fun _ => by rfl
  have hdrop : (s.procs c.target).noThread = false →
      Keeps s (s.modify c.target fun q => { q with waitClaimed := false }) := by
    intro hno
    refine .modify (fun _ => rfl) (fun _ => rfl) (fun _ hd => hd) (fun hno' => ?_) fun _ => le_rfl
    rw [hno] at hno'
    cases hno'
  rw [State.advance] at hstep
  cases hstage : c.stage with rw [hstage] at hstep
  | start =>
    cases hstep
    exact ⟨.refl s, guarded_begin h⟩
  | exited | waitingReported | awake | checkExited => exact hgo hstep (by split <;> simp)
  | reserveExited =>
    exact guarded_afterReserve h (Option.some.inj hstep) (by split <;> simp)
      fun _ => by split <;> simp
  | reserveStopped | reserve =>
    exact guarded_afterReserve h (Option.some.inj hstep) (by simp) fun _ => by simp
  | peekStopped => exact hgo hstep (by split; exacts [by simp, hpeek])
  | peekReported => exact hgo hstep (by split; exacts [hpeek, by simp])
  | markReported => exact guarded_exchange h (Option.some.inj hstep) (by simp) hpeek
  | readSignal | readStop => exact hdone hstep (.of_eq rfl rfl rfl) rfl rfl (fun h => by cases h)
  | waiting | waitingAny =>
    dsimp only at hstep
    repeat' split at hstep
    all_goals try exact hgo hstep (by simp)
    all_goals cases hstep
  | checkStopped => exact hgo hstep (by split; exacts [by simp, hfall])
  | checkReported => exact hgo hstep (by split; exacts [hfall, by simp])
  | exchangeReported => exact guarded_exchange h (Option.some.inj hstep) (by simp) hfall
  | dropClaim => exact hdone hstep (hdrop (hwakeful (.inl hstage))) rfl rfl (by simp)
  | dropCount => exact hdone hstep hcount rfl rfl (by simp)
  | release again => exact hdone hstep (hdrop (hwakeful (.inr ⟨again, hstage⟩))) rfl rfl (by simp)
  | uncount again => exact hdone hstep hcount rfl rfl (by cases again <;> simp)
  | reap =>
    refine hdone hstep (hcount.trans (.of_eq rfl rfl rfl)) rfl rfl ?_
    simp only [State.reapWaitedChild]
    split <;> simp
  | delete =>
    refine hdone hstep ?_ rfl rfl (by simp)
    refine ((Keeps.notifyParent s c.target).trans ?_).trans (.deleteProcess _ _)
    exact .modify (fun _ => rfl) (fun _ => rfl) (fun _ _ => rfl) (fun hno hc => ⟨hno, hc⟩)
      fun _ => le_rfl
  | done => cases hstep

lemma keeps_handle {h h' : Handler} (hstep : s.handle h = some (s', h')) : Keeps s s' := by
  rw [State.handle] at hstep
  repeat' split at hstep
  all_goals cases hstep
  any_goals exact .refl _
  any_goals exact .other fun _ => by rfl
  exact (Keeps.other fun _ => by rfl).trans (.notifyParent _ _)

/-! ## Runs -/

def State.Watchful (s : State) : Prop := ∀ c ∈ s.calls, Guarded s c

lemma State.Watchful.keeps (h : s.Watchful) (hk : Keeps s s') : s'.Watchful :=
  fun c hc => (h c (hk.calls ▸ hc)).keeps hk

lemma State.Watchful.set (h : s.Watchful) {i : ℕ} (hc : Guarded s c) :
    (s.setCall i c).Watchful := by
  intro c' hc'
  rcases mem_or_eq_of_mem_set hc' with hmem | rfl
  · exact ⟨(h c' hmem).generation, (h c' hmem).asleep⟩
  · exact ⟨hc.generation, hc.asleep⟩

lemma State.Watchful.append (h : s.Watchful) (hstage : c.stage ≠ .waitingAny)
    (hgeneration : c.generation = 0) :
    ({ s with calls := s.calls ++ [c] } : State).Watchful := by
  intro c' hc'
  rcases mem_append.1 hc' with hmem | hmem
  · exact ⟨(h c' hmem).generation, (h c' hmem).asleep⟩
  · rw [mem_singleton] at hmem
    subst hmem
    exact ⟨hgeneration ▸ Nat.zero_le _, fun hasleep => absurd hasleep hstage⟩

lemma watchful_step (s : State) (a : Action) (s' : State) (h : s.Watchful)
    (hwakeful : s.wakeful a = true) (hstep : s.step a = some s') : s'.Watchful := by
  cases a with
  | waitHandle parent target wantStop noHang =>
    cases (ite_none_left_eq_some.1 hstep).2
    exact h.append (by simp) rfl
  | waitChildren parent requestedPid wantStop noHang =>
    cases hstep
    exact h.append (by simp) rfl
  | interrupt i =>
    obtain ⟨c, hc, rfl⟩ := map_eq_some_iff.1 hstep
    have hguarded := h c (mem_of_getElem? hc)
    exact h.set ⟨hguarded.generation, hguarded.asleep⟩
  | call i =>
    obtain ⟨c, hc, hstep⟩ := bind_eq_some_iff.1 hstep
    obtain ⟨⟨s₁, c₁⟩, hr, rfl⟩ := map_eq_some_iff.1 hstep
    have hkept : c.stage = .dropClaim ∨ (∃ again, c.stage = .release again) →
        (s.procs c.target).noThread = false := by
      rw [State.wakeful, hc] at hwakeful
      rintro (hs | ⟨again, hs⟩)
      · simpa [hs] using hwakeful
      · simpa [hs] using hwakeful
    obtain ⟨hk, hc₁⟩ := guarded_advance (h c (mem_of_getElem? hc)) hkept hr
    exact (h.keeps hk).set hc₁
  | stop pid number | continue_ pid =>
    cases hstep
    exact h.keeps (.of_eq rfl rfl rfl)
  | handler i =>
    obtain ⟨x, hx, hstep⟩ := bind_eq_some_iff.1 hstep
    obtain ⟨⟨s₁, x₁⟩, hr, rfl⟩ := map_eq_some_iff.1 hstep
    exact h.keeps ((keeps_handle hr).trans (.of_eq rfl rfl rfl))
  | newThread pid | exitThread pid =>
    cases (ite_none_left_eq_some.1 hstep).2
    exact h.keeps (.other fun _ => by rfl)
  | exit pid value =>
    cases hstep
    exact h.keeps (.other fun _ => by rfl)
  | exitProcess pid =>
    obtain ⟨-, rfl⟩ := ite_some_none_eq_some.1 hstep
    exact h.keeps (.exitProcess s pid)

/-- **In every run in which no claim of an exited child is given back, no wait for any child
sleeps past one in any state reached.** -/
theorem noMissedChild_of_wakeful (start : State) (hstart : start.calls = []) (run : List Action)
    (hwakeful : Along State.step (fun s a => s.wakeful a = true) start run)
    (hrun : exec State.step start run = some s) : s.NoMissedChild := by
  have hwatchful : s.Watchful := by
    refine exec_induct watchful_step (fun c hc => ?_) hwakeful hrun
    rw [hstart] at hc
    cases hc
  exact fun c hc hstage hparent _ => (hwatchful c hc).asleep hstage hparent

def exitThenReap : List Action :=
  [.waitChildren 1 (-1) false false, .call 0, .exitThread 2, .exitProcess 2, .call 0, .call 0]

theorem noMissedChild_exitThenReap :
    ∃ s, exec State.step .parentAndChild exitThenReap = some s ∧ s.NoMissedChild := by
  have hwakeful : Along State.step (fun s a => s.wakeful a = true) .parentAndChild
      exitThenReap := by decide
  exact ⟨_, rfl, noMissedChild_of_wakeful .parentAndChild rfl exitThenReap hwakeful rfl⟩

/-- A call claims the child, the child exits, another call goes to sleep, and the first one is
interrupted. -/
def claimedThenInterrupted : List Action :=
  [.waitChildren 1 2 false false, .call 0, .call 0, .exitThread 2, .exitProcess 2,
    .waitChildren 1 (-1) false false, .call 1, .interrupt 0, .call 0, .call 0, .call 0, .call 0]

/-- **The other call sleeps on while the child is there to be reaped.** -/
theorem not_noMissedChild_claimed :
    ∃ s, exec State.step .parentAndChild claimedThenInterrupted = some s ∧ ¬ s.NoMissedChild := by
  refine ⟨_, rfl, fun h => ?_⟩
  have hmissed := h { kind := .children, parent := 1, requestedPid := -1, wantStop := false
                      noHang := false, stage := .waitingAny, generation := 1 }
  exact hmissed (by decide) rfl (by decide) rfl (by decide) 2
    ⟨by decide, by decide, by decide, by decide⟩

end Naos.Wait
