import Mathlib

/-!
# The timer of a CPU

Every CPU has a list of watchers that were scheduled on it and a list of those it has seen in
a tick, in the order of their times.  A tick reads the clock once, moves the new watchers to
the ordered list, and then calls the handlers of the watchers at its front, as long as their
time is at most half a tick after the clock it has read.  A watcher is taken out of the list
after its handler has returned.

A tick is not entered again before it has ended, and interrupts do not reach the two lists
while they are changed.  What a handler does is left to the users of the timer: `κ` says which
handler a watcher has.
-/

namespace Naos.Timer

open List

universe u
variable {κ : Type u}

structure Watcher (κ : Type u) where
  id : ℕ
  expires : ℕ
  handler : κ
  enabled : Bool := true

/-- `cpu_timer_t`.  While `on_tick` runs, `us` is the time it has read, and `calling` says
that it has called the handler of the first watcher of the tick list. -/
structure CpuTimer (κ : Type u) where
  watcherList : List (Watcher κ) := []
  tickList : List (Watcher κ) := []
  us : Option ℕ := none
  calling : Bool := false

def tickUs : ℕ := 1000

/-- `tick_list.insert`.  The source of `freelibcxx::skip_list` is not in the repository: what is
assumed of it is that `insert` keeps the elements that are there, and their order. -/
def insertTick (list : List (Watcher κ)) (w : Watcher κ) : List (Watcher κ) :=
  list.orderedInsert (fun a b => a.expires ≤ b.expires) w

def disable (id : ℕ) : List (Watcher κ) → List (Watcher κ)
  | [] => []
  | w :: rest => if w.id = id then { w with enabled := false } :: rest else w :: disable id rest

namespace CpuTimer

variable (c : CpuTimer κ)

/-- `schedule_at`, where the clock says `now`: `none` where it answers
`invalid_watcher_id`. -/
def scheduleAt (id now expires : ℕ) (handler : κ) : Option (CpuTimer κ) :=
  if now < expires then
    some { c with watcherList := c.watcherList ++ [{ id, expires, handler }] }
  else none

def cancel (id : ℕ) : CpuTimer κ :=
  if c.watcherList.any (·.id = id) then
    { c with watcherList := c.watcherList.eraseP (·.id = id) }
  else { c with tickList := disable id c.tickList }

/-- The start of `on_tick`, up to the loop. -/
def beginTick (us : ℕ) : Option (CpuTimer κ) :=
  if c.us.isNone && !c.calling then
    some { c with
      watcherList := []
      tickList := (c.watcherList.filter (·.enabled)).foldl insertTick c.tickList
      us := some us }
  else none

/-- The loop of `on_tick`, up to the call of a handler or the end. -/
def nextTick : Option (CpuTimer κ) :=
  match c.us, c.calling, c.tickList with
  | some us, false, w :: rest =>
    if w.expires ≤ us + tickUs / 2 then
      if w.enabled then some { c with calling := true } else some { c with tickList := rest }
    else some { c with us := none }
  | some _, false, [] => some { c with us := none }
  | _, _, _ => none

def endHandler : Option (CpuTimer κ) :=
  if c.calling then some { c with tickList := c.tickList.tail, calling := false } else none

def current : Option (Watcher κ) := if c.calling then c.tickList.head? else none

def Armed (p : Watcher κ → Prop) : Prop :=
  ∃ w, (w ∈ c.watcherList ∨ w ∈ c.tickList) ∧ w.enabled = true ∧ p w

end CpuTimer

/-! ## What the operations keep -/

variable {list : List (Watcher κ)} {w : Watcher κ} {id : ℕ}

lemma mem_foldl_insertTick {new : List (Watcher κ)} :
    w ∈ new.foldl insertTick list ↔ w ∈ new ∨ w ∈ list := by
  induction new generalizing list with
  | nil => simp
  | cons a new ih =>
    rw [foldl_cons, ih, insertTick, mem_orderedInsert, mem_cons]
    tauto

lemma mem_disable (hid : w.id ≠ id) (hw : w ∈ list) : w ∈ disable id list := by
  induction list with
  | nil => cases hw
  | cons a list ih =>
    rw [disable]
    rcases mem_cons.1 hw with rfl | hw
    · rw [if_neg hid]
      exact mem_cons_self
    · split
      · exact mem_cons_of_mem _ hw
      · exact mem_cons_of_mem _ (ih hw)

lemma head?_disable (h : (disable id list).head? = some w) :
    ∃ w', list.head? = some w' ∧ w'.id = w.id ∧ w'.expires = w.expires ∧
      w'.handler = w.handler := by
  cases list with
  | nil => cases h
  | cons a list =>
    rw [disable] at h
    split at h
    · cases h
      exact ⟨a, rfl, rfl, rfl, rfl⟩
    · cases h
      exact ⟨w, rfl, rfl, rfl, rfl⟩

namespace CpuTimer

open Option

variable {c c' : CpuTimer κ} {p : Watcher κ → Prop}

lemma Armed.mono {q : Watcher κ → Prop} (h : c.Armed p) (hpq : ∀ w, p w → q w) : c.Armed q := by
  obtain ⟨w, hw, hen, hp⟩ := h
  exact ⟨w, hw, hen, hpq w hp⟩

variable {expires id now us : ℕ} {handler : κ}

lemma armed_scheduleAt (h : c.scheduleAt id now expires handler = some c') :
    c'.Armed fun w => w.id = id ∧ w.expires = expires ∧ w.handler = handler := by
  obtain ⟨-, rfl⟩ := ite_some_none_eq_some.1 h
  exact ⟨{ id, expires, handler }, .inl (by simp), rfl, rfl, rfl, rfl⟩

lemma Armed.scheduleAt (h : c.Armed p) (hs : c.scheduleAt id now expires handler = some c')
    : c'.Armed p := by
  obtain ⟨w, hw, hen, hp⟩ := h
  obtain ⟨-, rfl⟩ := ite_some_none_eq_some.1 hs
  exact ⟨w, hw.imp_left (mem_append_left _), hen, hp⟩

lemma Armed.cancel (h : c.Armed p) (hid : ∀ w, p w → w.id ≠ id) : (c.cancel id).Armed p := by
  obtain ⟨w, hw, hen, hp⟩ := h
  rw [CpuTimer.cancel]
  split
  · refine ⟨w, hw.imp_left fun hw => ?_, hen, hp⟩
    exact (mem_eraseP_of_neg (by simpa using hid w hp)).2 hw
  · exact ⟨w, hw.imp_right (mem_disable (hid w hp)), hen, hp⟩

lemma Armed.beginTick (h : c.Armed p) (hs : c.beginTick us = some c') : c'.Armed p := by
  obtain ⟨w, hw, hen, hp⟩ := h
  obtain ⟨-, rfl⟩ := ite_some_none_eq_some.1 hs
  refine ⟨w, .inr (mem_foldl_insertTick.2 (hw.imp_left fun hw => ?_)), hen, hp⟩
  exact mem_filter.2 ⟨hw, hen⟩

lemma Armed.nextTick (h : c.Armed p) (hs : c.nextTick = some c') : c'.Armed p := by
  obtain ⟨w, hw, hen, hp⟩ := h
  rw [CpuTimer.nextTick] at hs
  split at hs
  next hlist =>
    split at hs
    · split at hs
      · cases hs
        exact ⟨w, hw, hen, hp⟩
      rename_i hdisabled
      cases hs
      refine ⟨w, hw.imp_right fun hw => ?_, hen, hp⟩
      rw [hlist] at hw
      rcases mem_cons.1 hw with rfl | hw
      · exact absurd hen hdisabled
      · exact hw
    · cases hs
      exact ⟨w, hw, hen, hp⟩
  · cases hs
    exact ⟨w, hw, hen, hp⟩
  · cases hs

lemma Armed.endHandler (h : c.Armed p) (hs : c.endHandler = some c')
    (hcurrent : ∀ w, c.current = some w → ¬ p w) : c'.Armed p := by
  obtain ⟨w, hw, hen, hp⟩ := h
  obtain ⟨hcalling, rfl⟩ := ite_some_none_eq_some.1 hs
  refine ⟨w, hw.imp_right fun hw => ?_, hen, hp⟩
  rw [current, if_pos hcalling] at hcurrent
  cases hlist : c.tickList with
  | nil => rw [hlist] at hw; cases hw
  | cons a list =>
    rw [hlist] at hw hcurrent
    rcases mem_cons.1 hw with rfl | hw
    · exact absurd hp (hcurrent w rfl)
    · exact hw

lemma current_endHandler (hs : c.endHandler = some c') : c'.current = none := by
  obtain ⟨-, rfl⟩ := ite_some_none_eq_some.1 hs
  rfl

lemma current_beginTick (hs : c.beginTick us = some c') : c'.current = none := by
  obtain ⟨hidle, rfl⟩ := ite_some_none_eq_some.1 hs
  simp only [Bool.and_eq_true, Bool.not_eq_true'] at hidle
  simp [current, hidle.2]

lemma current_cancel {w : Watcher κ} (h : (c.cancel id).current = some w) :
    ∃ w', c.current = some w' ∧ w'.id = w.id ∧ w'.expires = w.expires ∧ w'.handler = w.handler := by
  rw [cancel] at h
  split at h
  · exact ⟨w, h, rfl, rfl, rfl⟩
  rw [current] at h ⊢
  dsimp only at h
  split at h
  next hcalling =>
    rw [if_pos hcalling]
    exact head?_disable h
  · cases h

lemma us_cancel (c : CpuTimer κ) (id : ℕ) : (c.cancel id).us = c.us := by
  rw [cancel]
  split <;> rfl

lemma us_scheduleAt (hs : c.scheduleAt id now expires handler = some c') : c'.us = c.us := by
  obtain ⟨-, rfl⟩ := ite_some_none_eq_some.1 hs
  rfl

lemma us_beginTick (hs : c.beginTick us = some c') : c'.us = some us := by
  obtain ⟨-, rfl⟩ := ite_some_none_eq_some.1 hs
  rfl

lemma us_nextTick (hs : c.nextTick = some c') (hus : c'.us = some us) : c.us = some us := by
  rw [nextTick] at hs
  repeat' split at hs
  all_goals cases hs
  any_goals exact hus
  all_goals cases hus

lemma us_endHandler (hs : c.endHandler = some c') : c'.us = c.us := by
  obtain ⟨-, rfl⟩ := ite_some_none_eq_some.1 hs
  rfl

lemma current_scheduleAt (hs : c.scheduleAt id now expires handler = some c')
    : c'.current = c.current := by
  obtain ⟨-, rfl⟩ := ite_some_none_eq_some.1 hs
  rfl

end CpuTimer

end Naos.Timer
