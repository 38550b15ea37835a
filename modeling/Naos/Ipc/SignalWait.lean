import Mathlib
import Naos.Ipc.WaitMany

/-!
# Waiting for one signal

`wait_for_signal` is `wait_many` for one handle, with a loop of its own.  A schedule lists the
moments in which a call is awake and looks at its handle.  With a deadline the loop of `wait_many`
also ends when the clock has reached it; that of `wait_for_signal` does not read the clock.
-/

namespace Naos.Ipc.SignalWait

open Capability List

/-- An evaluation of `wait_condition`, and the clock at the reading that follows it. -/
structure Moment where
  kernel : Kernel
  now : ℕ

/-- What a call meets, from the memory of the caller to the moments in which it is awake. -/
structure Schedule where
  accessible : Bool := true
  copyIn : Status := .ok
  copyOut : Bool := true
  allocated : Bool := true
  waiters : Bool := true
  entry : Kernel
  first : Moment
  loop : List Moment

/-- The deadline that never passes. -/
def forever : ℕ := 2 ^ 64 - 1

variable (σ : Schedule) (i : WaitItem) (deadline : ℕ)

def waitCondition (m : Moment) : Bool := m.kernel.nativeSignals i.pid i.handle &&& i.signals != 0

/-- A loop around `do_wait`, up to the evaluation after it.  At the end of the moments the call
still sleeps, unless it has left the loop: then nothing happens any more. -/
def waitLoop (stops : Moment → Bool) : List Moment → Option Moment
  | [] => none
  | m :: ms => if stops m then some (ms.headD m) else waitLoop stops ms

/-- The status of `wait_many` with one item, once it has returned. -/
def waitMany : Option Status :=
  let copied : Status := if σ.copyOut then .ok else .fault
  if σ.accessible = false then some .invalidArgument
  else if σ.allocated = false then some .resourceExhausted
  else if σ.copyIn ≠ .ok then some σ.copyIn
  else if i.signals = 0 then some .invalidHandle
  else
    match (σ.entry.tables i.pid).lookupNative i.handle with
    | none => some .invalidHandle
    | some e =>
      if has e.info.metaRights rightWait = false then some .accessDenied
      else if waitCondition i σ.first then some copied
      else if deadline = 0 then some .wouldBlock
      else if deadline ≠ forever then
        if deadline ≤ σ.first.now then some .waitTimedOut
        else if σ.waiters = false then some .resourceExhausted
        else
          (waitLoop (fun m => waitCondition i m || deadline ≤ m.now) σ.loop).map fun m =>
            if waitCondition i m = false ∧ deadline ≤ m.now then .waitTimedOut else copied
      else if σ.waiters = false then some .resourceExhausted
      else (waitLoop (waitCondition i) σ.loop).map fun _ => copied

/-- The status of `wait_for_signal`, once it has returned. -/
def waitForSignal : Option Status :=
  if i.handle = 0 ∨ i.signals = 0 then some .invalidArgument
  else
    match ((σ.entry.tables i.pid).lookupNative i.handle).filter (·.object.isSome) with
    | none => some .invalidHandle
    | some e =>
      if has e.info.metaRights rightWait = false then some .accessDenied
      else if σ.allocated = false then some .resourceExhausted
      else if waitCondition i σ.first then some .ok
      else if deadline = 0 then some .wouldBlock
      else if deadline ≠ forever ∧ deadline ≤ σ.first.now then some .waitTimedOut
      else if σ.waiters = false then some .resourceExhausted
      else
        (waitLoop (waitCondition i) σ.loop).map fun m =>
          if waitCondition i m = false ∧ deadline ≠ forever ∧ deadline ≤ m.now then .waitTimedOut
          else .ok

/-- The memory of the caller and of the kernel is there. -/
structure Plain : Prop where
  accessible : σ.accessible = true
  copyIn : σ.copyIn = .ok
  copyOut : σ.copyOut = true
  allocated : σ.allocated = true

/-- At the evaluation after the loop there is no signal, and the deadline has passed. -/
def TimesOut (m : Moment) : Prop := waitCondition i m = false ∧ deadline ≤ m.now

/-- The deadline does not pass before the first signal.  If it does, there is a signal later all
the same, and what the two calls find after their loops is the same by chance. -/
def InTime : Prop :=
  (∀ m ∈ σ.loop.takeWhile (fun m => !waitCondition i m), m.now < deadline) ∨
    ∃ p q, waitLoop (fun m => waitCondition i m || deadline ≤ m.now) σ.loop = some p ∧
      waitLoop (waitCondition i) σ.loop = some q ∧ (TimesOut i deadline p ↔ TimesOut i deadline q)

/-- The call comes to its loop. -/
def Sleeps (e : Entry) : Prop :=
  has e.info.metaRights rightWait = true ∧ waitCondition i σ.first = false ∧ deadline ≠ 0 ∧
    deadline ≠ forever ∧ σ.first.now < deadline ∧ σ.waiters = true

/-- A second reason to leave a loop does not count if it comes after the first. -/
lemma waitLoop_or {stops late : Moment → Bool} {ms : List Moment}
    (h : ∀ m ∈ ms.takeWhile (fun m => !stops m), late m = false) :
    waitLoop (fun m => stops m || late m) ms = waitLoop stops ms := by
  induction ms with
  | nil => rfl
  | cons m ms ih =>
    cases hm : stops m with
    | true => simp [waitLoop, hm]
    | false =>
      simp only [takeWhile_cons, hm, Bool.not_false, if_true, mem_cons, forall_eq_or_imp] at h
      simp [waitLoop, hm, h.1, ih h.2]

lemma waitLoop_eq_none {stops : Moment → Bool} {ms : List Moment} (h : waitLoop stops ms = none) :
    ∀ m ∈ ms, stops m = false := by
  induction ms with
  | nil => simp
  | cons m ms ih =>
    rw [waitLoop] at h
    split_ifs at h with hm
    simpa [hm] using ih h

/-- The loops of the two calls answer the same. -/
lemma loops_iff : (waitLoop (waitCondition i) σ.loop).map (fun m =>
      if waitCondition i m = false ∧ deadline ≤ m.now then Status.waitTimedOut else .ok) =
    (waitLoop (fun m => waitCondition i m || deadline ≤ m.now) σ.loop).map (fun m =>
      if waitCondition i m = false ∧ deadline ≤ m.now then Status.waitTimedOut else .ok) ↔
    InTime σ i deadline := by
  constructor
  · intro h
    rcases hboth : waitLoop (fun m => waitCondition i m || deadline ≤ m.now) σ.loop with _ | p
    · refine .inl fun m hm => ?_
      have := waitLoop_eq_none hboth m (( takeWhile_prefix _).subset hm)
      simp_all
    · rw [hboth] at h
      rcases hone : waitLoop (waitCondition i) σ.loop with _ | q
      · simp [hone] at h
      · refine .inr ⟨p, q, hboth, hone, ?_⟩
        rw [hone] at h
        unfold TimesOut
        simp only [Option.map_some, Option.some.injEq] at h
        split_ifs at h with hq hp hp
        · exact iff_of_true hp hq
        · exact iff_of_false hp hq
  · rintro (hearly | ⟨p, q, hboth, hone, hsame⟩)
    · rw [waitLoop_or fun m hm => decide_eq_false (not_le.2 (hearly m hm))]
    · unfold TimesOut at hsame
      simp [hboth, hone, hsame]

/-- After its checks `wait_many` does not answer what `wait_for_signal` does to zeroes and to an
entry without an object. -/
lemma waitMany_ne (hplain : Plain σ) (st : Status)
    (hst : st = .invalidArgument ∨ st = .invalidHandle ∧ i.signals ≠ 0 ∧
      ∃ e, (σ.entry.tables i.pid).lookupNative i.handle = some e) :
    waitMany σ i deadline ≠ some st := by
  obtain ⟨haccessible, hin, hout, hallocated⟩ := hplain
  have hmap (stops late : Moment → Bool) :
      (waitLoop stops σ.loop).map (fun m => if late m then Status.waitTimedOut else .ok) ≠
        some st := by
    rw [ne_eq, Option.map_eq_some_iff]
    rintro ⟨m, -, hm⟩
    split_ifs at hm <;> subst hm <;> simp at hst
  have hlate := hmap (fun m => waitCondition i m || deadline ≤ m.now)
    fun m => decide (waitCondition i m = false ∧ deadline ≤ m.now)
  have hnever := hmap (waitCondition i) fun _ => false
  simp only [decide_eq_true_eq, Bool.false_eq_true, if_false] at hlate hnever
  simp only [waitMany, haccessible, hin, hout, hallocated]
  grind

/-- Nothing comes through the channel, and the clock passes the deadline 5. -/
def silent : Schedule where
  entry := channelPair
  first := ⟨channelPair, 0⟩
  loop := [⟨channelPair, 0⟩, ⟨channelPair, 6⟩]

end Naos.Ipc.SignalWait
