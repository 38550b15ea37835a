import Naos.Lib.Transition
import Mathlib

/-!
# Waiting on a generation counter

A thread waits until one of its items fires.  Once its items are accepted, it loads a
counter, evaluates its items one after another, and sleeps until the counter has moved.
Whoever changes the world and may have made an item fire is to move the counter
afterwards, so that the sleepers look again.

The change and the move of the counter are two steps, and anything may happen in between.
A sleeper is lost when one of its items fires, the counter is where the sleeper has seen
it, and every change that could account for the item has already been announced, or never
will be.

The protocol is sound if a change that is not announced makes no item fire on which a
thread waits.  The world, the items and the changes are parameters.
-/

namespace Generation

open Transition List

universe u v w
variable {W : Type u} {Item : Type v} {C : Type w}

/-- Where a call of the waiting loop stands. -/
inductive Stage where
  /-- The items are checked before the loop starts. -/
  | opening
  /-- At the top of the loop. -/
  | entered
  /-- The counter is loaded and some items are evaluated. -/
  | checking
  /-- No item fired. -/
  | asleep
  /-- Some item fired, or was not accepted. -/
  | returned
  deriving DecidableEq, Repr

/-- One call of the waiting loop.  `quiet` are the items that were evaluated in this round
and did not fire, and `rest` those still to be checked or evaluated. -/
structure Waiter (Item : Type v) where
  items : List Item
  stage : Stage := .opening
  generation : ℕ := 0
  quiet : List Item := []
  rest : List Item := []

/-- The world, the counter, the calls of the waiting loop, and for every change that is
still to be announced the world before it. -/
structure State (W : Type u) (Item : Type v) where
  world : W
  generation : ℕ := 0
  waiters : List (Waiter Item) := []
  due : List W := []

/-- One step of a waiter, or of somebody who changes the world. -/
inductive Action (Item : Type v) (C : Type w) where
  | change (c : C)
  | announce (k : ℕ)
  | enter (items : List Item)
  | accept (t : ℕ)
  | load (t : ℕ)
  | check (t : ℕ)
  | sleep (t : ℕ)
  | wake (t : ℕ)

/-- What the protocol is about: which items may be waited for, when an item fires, what a
change does, and whether it is announced. -/
structure Setting (W : Type u) (Item : Type v) (C : Type w) where
  accepts : W → Item → Bool
  fires : W → Item → Bool
  apply : W → C → Option W
  announces : W → C → Bool

variable (S : Setting W Item C)

/-- Change one waiter. -/
def State.setWaiter (s : State W Item) (t : ℕ) (x : Waiter Item) : State W Item :=
  { s with waiters := s.waiters.set t x }

/-- The check of the next item before the loop. -/
def Waiter.accept (x : Waiter Item) (accepts : Item → Bool) : Option (Waiter Item) :=
  match x.stage, x.rest with
  | .opening, [] => some { x with stage := .entered }
  | .opening, i :: rest =>
    if accepts i then some { x with rest := rest } else some { x with stage := .returned }
  | _, _ => none

/-- The next item of a round. -/
def Waiter.check (x : Waiter Item) (fires : Item → Bool) : Option (Waiter Item) :=
  match x.stage, x.rest with
  | .checking, i :: rest =>
    if fires i then some { x with stage := .returned }
    else some { x with quiet := i :: x.quiet, rest := rest }
  | _, _ => none

/-- The step function. -/
def step (s : State W Item) : Action Item C → Option (State W Item)
  | .change c =>
    (S.apply s.world c).map fun w =>
      { s with world := w, due := if S.announces s.world c then s.world :: s.due else s.due }
  | .announce k =>
    if k < s.due.length then
      some { s with generation := s.generation + 1, due := s.due.eraseIdx k }
    else none
  | .enter items => some { s with waiters := s.waiters ++ [{ items := items, rest := items }] }
  | .accept t =>
    match s.waiters[t]? with
    | none => none
    | some x => (x.accept (S.accepts s.world)).map (s.setWaiter t)
  | .load t =>
    match s.waiters[t]? with
    | none => none
    | some x =>
      if x.stage = .entered then
        some (s.setWaiter t
          { x with
            stage := .checking, generation := s.generation, quiet := [], rest := x.items })
      else none
  | .check t =>
    match s.waiters[t]? with
    | none => none
    | some x => (x.check (S.fires s.world)).map (s.setWaiter t)
  | .sleep t =>
    match s.waiters[t]? with
    | none => none
    | some x =>
      if x.stage = .checking ∧ x.rest.isEmpty then
        some (s.setWaiter t { x with stage := .asleep })
      else none
  | .wake t =>
    match s.waiters[t]? with
    | none => none
    | some x =>
      if x.stage = .asleep ∧ x.generation ≠ s.generation then
        some (s.setWaiter t { x with stage := .entered })
      else none

/-- **A lost sleeper**: one of its items fires, the counter has not moved since the sleeper
looked, and the item fired already before every change that is still to be announced. -/
def LostWakeup (s : State W Item) : Prop :=
  ∃ x ∈ s.waiters, x.stage = .asleep ∧ x.generation = s.generation ∧
    ∃ i ∈ x.items, S.fires s.world i = true ∧ ∀ v ∈ s.due, S.fires v i = true

instance (s : State W Item) : Decidable (LostWakeup S s) :=
  inferInstanceAs (Decidable (∃ x ∈ s.waiters, _ ∧ _ ∧ ∃ i ∈ x.items, _ ∧ ∀ v ∈ s.due, _))

/-- Some call of the loop that has not returned waits for the item. -/
def Waits (s : State W Item) (i : Item) : Prop :=
  ∃ x ∈ s.waiters, x.stage ≠ .returned ∧ i ∈ x.items

/-- A change that is not announced makes nothing fire that somebody waits for. -/
def Announced (s : State W Item) : Action Item C → Prop
  | .change c =>
    S.announces s.world c = true ∨ ∀ w, S.apply s.world c = some w →
        ∀ i, Waits s i → S.fires w i = true → S.fires s.world i = true
  | _ => True

/-! ## The invariant -/

/-- What is known of one call of the loop. -/
structure WaiterInv (s : State W Item) (x : Waiter Item) : Prop where
  generation_le : x.generation ≤ s.generation
  quiet_subset : ∀ i ∈ x.quiet, i ∈ x.items
  covered : x.stage = .checking → ∀ i ∈ x.items, i ∈ x.quiet ∨ i ∈ x.rest
  rest_subset : ∀ i ∈ x.rest, i ∈ x.items
  asleep : x.stage = .asleep → ∀ i ∈ x.items, i ∈ x.quiet
  /-- What was found quiet is quiet, or a change that explains it is still to be announced. -/
  explained : (x.stage = .checking ∨ x.stage = .asleep) → x.generation = s.generation →
    ∀ i ∈ x.quiet, S.fires s.world i = true → ∃ v ∈ s.due, S.fires v i = false

/-- The invariant of the system. -/
def Inv (s : State W Item) : Prop := ∀ x ∈ s.waiters, WaiterInv S s x

variable {S} {s : State W Item}

lemma not_lostWakeup_of_inv (h : Inv S s) : ¬ LostWakeup S s := by
  rintro ⟨x, hx, hasleep, hgen, i, hi, hfires, hdue⟩
  obtain ⟨v, hv, hquiet⟩ :=
    (h x hx).explained (.inr hasleep) hgen i ((h x hx).asleep hasleep i hi) hfires
  simp [hdue v hv] at hquiet

variable {x y : Waiter Item}

/-- A step of one waiter changes nothing for the others. -/
lemma inv_setWaiter (h : Inv S s) {t : ℕ} (hx : WaiterInv S s x) : Inv S (s.setWaiter t x) := by
  intro y hy
  have hy' : WaiterInv S s y := by
    rcases mem_or_eq_of_mem_set hy with hy | rfl
    · exact h y hy
    · exact hx
  exact ⟨hy'.generation_le, hy'.quiet_subset, hy'.covered, hy'.rest_subset, hy'.asleep,
    hy'.explained⟩

lemma inv_change (h : Inv S s) {c : C} {w : W} (happly : S.apply s.world c = some w)
    (hok : Announced S s (.change c)) :
    Inv S
      { s with
        world := w, due := if S.announces s.world c then s.world :: s.due else s.due } := by
  intro x hx
  have hinv := h x hx
  refine ⟨hinv.generation_le, hinv.quiet_subset, hinv.covered, hinv.rest_subset, hinv.asleep, ?_⟩
  intro hstage hgen i hi hfires
  by_cases hbefore : S.fires s.world i = true
  · -- The item fired before, so it was explained before.
    obtain ⟨v, hv, hquiet⟩ := hinv.explained hstage hgen i hi hbefore
    refine ⟨v, ?_, hquiet⟩
    dsimp only
    split
    · exact mem_cons_of_mem _ hv
    · exact hv
  · rcases hok with hann | hsilent
    · dsimp only
      rw [if_pos hann]
      exact ⟨s.world, mem_cons_self, by simpa using hbefore⟩
    · have hwaits : Waits s i := by
        refine ⟨x, hx, ?_, hinv.quiet_subset i hi⟩
        rcases hstage with hst | hst <;> simp [hst]
      exact absurd (hsilent w happly i hwaits hfires) hbefore

lemma inv_announce (h : Inv S s) (k : ℕ) :
    Inv S { s with generation := s.generation + 1, due := s.due.eraseIdx k } := by
  intro x hx
  have hinv := h x hx
  have hle := hinv.generation_le
  refine ⟨by dsimp only; omega, hinv.quiet_subset, hinv.covered, hinv.rest_subset, hinv.asleep, ?_⟩
  intro _ hgen
  dsimp only at hgen
  omega

lemma waiterInv_accept (hx : WaiterInv S s x) (h : x.accept (S.accepts s.world) = some y) :
    WaiterInv S s y := by
  rw [Waiter.accept] at h
  split at h
  · cases h
    exact ⟨hx.generation_le, hx.quiet_subset, by simp, hx.rest_subset, by simp, by simp⟩
  next i rest hstage hrest =>
    have hsubset : ∀ j ∈ rest, j ∈ x.items := fun j hj =>
      hx.rest_subset j (hrest ▸ mem_cons_of_mem _ hj)
    split at h
    · cases h
      exact ⟨hx.generation_le, hx.quiet_subset, by simp [hstage], hsubset, by simp [hstage],
        by simp [hstage]⟩
    · cases h
      exact ⟨hx.generation_le, hx.quiet_subset, by simp, hx.rest_subset, by simp, by simp⟩
  · simp at h

lemma waiterInv_check (hx : WaiterInv S s x) (h : x.check (S.fires s.world) = some y) :
    WaiterInv S s y := by
  rw [Waiter.check] at h
  split at h
  next i rest hstage hrest =>
    split at h
    · cases h
      exact ⟨hx.generation_le, hx.quiet_subset, by simp, hx.rest_subset, by simp, by simp⟩
    rename_i hquiet
    cases h
    have hmem : i ∈ x.items := hx.rest_subset i (hrest ▸ mem_cons_self)
    refine ⟨hx.generation_le, ?_, ?_, ?_, ?_, ?_⟩
    · intro j hj
      rcases mem_cons.1 hj with rfl | hj
      · exact hmem
      · exact hx.quiet_subset j hj
    · intro _ j hj
      rcases hx.covered hstage j hj with hj | hj
      · exact .inl (mem_cons_of_mem _ hj)
      · rw [hrest] at hj
        rcases mem_cons.1 hj with rfl | hj
        · exact .inl mem_cons_self
        · exact .inr hj
    · intro j hj
      exact hx.rest_subset j (hrest ▸ mem_cons_of_mem _ hj)
    · intro hasleep
      rw [hstage] at hasleep
      exact Stage.noConfusion hasleep
    · intro hst hgen j hj hfires
      rcases mem_cons.1 hj with rfl | hj
      · exact absurd hfires hquiet
      · exact hx.explained hst hgen j hj hfires
  · simp at h

/-- **One step.** -/
theorem inv_step (h : Inv S s) {a : Action Item C} {s' : State W Item}
    (hok : Announced S s a) (hstep : step S s a = some s') : Inv S s' := by
  cases a with
  | change c =>
    obtain ⟨w, hw, rfl⟩ := Option.map_eq_some_iff.1 hstep
    exact inv_change h hw hok
  | announce k =>
    cases (Option.ite_none_right_eq_some.1 hstep).2
    exact inv_announce h k
  | enter items =>
    cases hstep
    intro x hx
    rcases mem_append.1 hx with hx | hx
    · have hinv := h x hx
      exact ⟨hinv.generation_le, hinv.quiet_subset, hinv.covered, hinv.rest_subset, hinv.asleep,
        hinv.explained⟩
    · obtain rfl := mem_singleton.1 hx
      exact ⟨Nat.zero_le _, by simp, by simp, fun i hi => hi, by simp, by simp⟩
  | accept t =>
    rw [step] at hstep
    split at hstep
    · simp at hstep
    next x hx =>
      obtain ⟨y, hy, rfl⟩ := Option.map_eq_some_iff.1 hstep
      exact inv_setWaiter h (waiterInv_accept (h x (mem_of_getElem? hx)) hy)
  | load t =>
    rw [step] at hstep
    split at hstep
    · simp at hstep
    split at hstep
    · cases hstep
      refine inv_setWaiter h ⟨Nat.le_refl _, by simp, ?_, ?_, by simp, by simp⟩
      · exact fun _ i hi => .inr hi
      · exact fun i hi => hi
    · simp at hstep
  | check t =>
    rw [step] at hstep
    split at hstep
    · simp at hstep
    next x hx =>
      obtain ⟨y, hy, rfl⟩ := Option.map_eq_some_iff.1 hstep
      exact inv_setWaiter h (waiterInv_check (h x (mem_of_getElem? hx)) hy)
  | sleep t =>
    rw [step] at hstep
    split at hstep
    · simp at hstep
    rename_i x hx
    obtain ⟨hround, rfl⟩ := Option.ite_some_none_eq_some.1 hstep
    have hinv := h x (mem_of_getElem? hx)
    refine inv_setWaiter h ⟨hinv.generation_le, hinv.quiet_subset, by simp, hinv.rest_subset,
      ?_, ?_⟩
    · intro _ i hi
      refine (hinv.covered hround.1 i hi).resolve_right fun hrest => ?_
      rw [List.isEmpty_iff.1 hround.2] at hrest
      exact not_mem_nil hrest
    · exact fun _ => hinv.explained (.inl hround.1)
  | wake t =>
    rw [step] at hstep
    split at hstep
    · simp at hstep
    rename_i x hx
    split at hstep
    · cases hstep
      have hinv := h x (mem_of_getElem? hx)
      exact inv_setWaiter h ⟨hinv.generation_le, hinv.quiet_subset, by simp, hinv.rest_subset,
        by simp, by simp⟩
    · simp at hstep

/-- **No run of announced steps loses a sleeper.** -/
theorem no_lostWakeup (S : Setting W Item C) {world : W} {as : List (Action Item C)}
    (hok : Along (step S) (Announced S) { world := world } as)
    (hrun : exec (step S) { world := world } as = some s) : ¬ LostWakeup S s := by
  refine not_lostWakeup_of_inv (exec_induct (I := Inv S) ?_ ?_ hok hrun)
  · intro s a s' h ha hstep
    exact inv_step h ha hstep
  · intro x hx
    exact absurd hx not_mem_nil

end Generation
