import Naos.Lib.Transition

/-!
# The semaphore

`down(n)` waits until the counter is positive, reads it once more and exchanges what it read
for `n` less.  The test is of the sign only, and it is not repeated on the second value: the
`continue` behind `exp <= 0` goes to the condition of the loop, which is the exchange.
-/

namespace Naos.Lock

open Transition Function

/-- Where a thread stands: before the test of `lock_res` (which `do_wait` repeats), before the
second read, and before the exchange with what it read. -/
inductive Stage where
  | idle
  | test (n : ℕ)
  | load (n : ℕ)
  | exchange (n : ℕ) (exp : ℤ)

/-- The permits that the next step reads for. -/
def Stage.due : Stage → ℕ
  | .load n => n
  | _ => 0

/-- A `semaphore_t`, its threads, and the permits of the calls that have completed. -/
structure Semaphore where
  lockRes : ℤ
  stage : ℕ → Stage := fun _ => .idle
  ups : ℕ := 0
  downs : ℕ := 0

inductive Action where
  | down (t n : ℕ)
  | up (n : ℕ)
  | step (t : ℕ)

namespace Semaphore

def setStage (s : Semaphore) (t : ℕ) (stage : Stage) : Semaphore :=
  { s with stage := update s.stage t stage }

/-- One step of a thread in `down`. -/
def downStep (s : Semaphore) (t : ℕ) : Option Semaphore :=
  match s.stage t with
  | .idle => none
  | .test n => some (if s.lockRes ≤ 0 then s else s.setStage t (.load n))
  | .load n => some (s.setStage t (.exchange n s.lockRes))
  | .exchange n exp =>
    if s.lockRes = exp then
      some { s.setStage t .idle with
        lockRes := (exp - n).bmod (2 ^ 64)
        downs := s.downs + n }
    else some (s.setStage t (.test n))

/-- The wakeup behind the addition of `up` changes no permit: a thread that waits is one that
repeats its test. -/
def step (s : Semaphore) : Action → Option Semaphore
  | .down t n =>
    match s.stage t with
    | .idle => some (s.setStage t (.test n))
    | _ => none
  | .up n => some { s with lockRes := (s.lockRes + n).bmod (2 ^ 64), ups := s.ups + n }
  | .step t => s.downStep t

/-- **The permits are kept**: the counter is what was put in less what was taken, it is not
negative, and a call that would now complete finds the permits it takes. -/
structure Kept (count : ℤ) (s : Semaphore) : Prop where
  books : s.lockRes = count + s.ups - s.downs
  nonneg : 0 ≤ s.lockRes
  available : ∀ t n, s.stage t = .exchange n s.lockRes → n ≤ s.lockRes

/-- The second read finds the permits that the call takes, and no addition overflows. -/
def Careful (s : Semaphore) : Action → Prop
  | .down _ _ => True
  | .up n => s.lockRes + n < 2 ^ 63
  | .step t => (s.stage t).due ≤ s.lockRes

instance (s : Semaphore) (a : Action) : Decidable (Careful s a) := by
  cases a <;> unfold Careful <;> infer_instance

/-- A thread that has read the counter has read enough. -/
structure Inv (count : ℤ) (s : Semaphore) : Prop where
  books : s.lockRes = count + s.ups - s.downs
  range : 0 ≤ s.lockRes ∧ s.lockRes < 2 ^ 63
  enough : ∀ t n exp, s.stage t = .exchange n exp → n ≤ exp

variable {count : ℤ} {s s' : Semaphore} {t : ℕ} {a : Action}

lemma Inv.setStage (h : Inv count s) {stage : Stage}
    (hstage : ∀ n exp, stage = .exchange n exp → n ≤ exp) : Inv count (s.setStage t stage) := by
  refine ⟨h.books, h.range, fun t' n exp ht => ?_⟩
  by_cases heq : t' = t
  · exact hstage n exp (by simpa [Semaphore.setStage, heq] using ht)
  · exact h.enough t' n exp (by simpa [Semaphore.setStage, heq] using ht)

lemma bmod_of_range {x : ℤ} (h : 0 ≤ x ∧ x < 2 ^ 63) : x.bmod (2 ^ 64) = x := by
  rw [Int.bmod_eq_of_le] <;> omega

lemma Inv.downStep (h : Inv count s) (hok : Careful s (.step t)) (hs : s.downStep t = some s') :
    Inv count s' := by
  have hrange := h.range
  rw [Semaphore.downStep] at hs
  cases hstage : s.stage t with rw [hstage] at hs
  | idle => simp at hs
  | test n =>
    cases hs
    split
    · exact h
    · exact h.setStage (by simp)
  | load n =>
    cases hs
    have hn : n ≤ s.lockRes := by simpa [Careful, hstage, Stage.due] using hok
    exact h.setStage (by simp [hn])
  | exchange n exp =>
    dsimp only at hs
    split at hs <;> obtain rfl := Option.some.inj hs
    · -- What was read is still there, so the permits are taken from it.
      have hn := h.enough t n exp hstage
      have hbmod := bmod_of_range (x := exp - n) (by omega)
      have hidle : Inv count (s.setStage t .idle) := h.setStage (by simp)
      have hbooks := h.books
      refine ⟨?_, ?_, hidle.enough⟩ <;> simp only [hbmod, Semaphore.setStage] <;> omega
    · exact h.setStage (by simp)

lemma Inv.step (h : Inv count s) (hok : Careful s a) (hs : s.step a = some s') :
    Inv count s' := by
  cases a with
  | step t => exact h.downStep hok hs
  | down t n =>
    rw [Semaphore.step] at hs
    split at hs
    · cases hs
      exact h.setStage (by simp)
    · simp at hs
  | up n =>
    cases hs
    have hrange := h.range
    have hbooks := h.books
    have hsum : s.lockRes + n < 2 ^ 63 := hok
    have hbmod := bmod_of_range (x := s.lockRes + n) (by omega)
    refine ⟨?_, ?_, h.enough⟩ <;> simp only [hbmod] <;> omega

/-- **No permit is taken that is not there**, whatever the threads and however their steps are
interleaved, as long as every second read finds the permits that its call takes. -/
theorem kept_of_careful (count : ℤ) (hcount : 0 ≤ count ∧ count < 2 ^ 63) (as : List Action)
    (hok : Along step Careful ⟨count, fun _ => .idle, 0, 0⟩ as)
    (hrun : exec step ⟨count, fun _ => .idle, 0, 0⟩ as = some s) : Kept count s := by
  have h : Inv count s :=
    exec_induct (fun s a t h hok hs => h.step hok hs) ⟨by simp, hcount, by simp⟩ hok hrun
  exact ⟨h.books, h.range.1, fun t n ht => h.enough t n _ ht⟩

/-- Two threads take one permit each of two, the second in the middle of the first. -/
theorem kept_of_careful_two :
    ∃ s, exec step ⟨2, fun _ => .idle, 0, 0⟩ [.down 0 1, .step 0, .step 0, .down 1 1, .step 1,
      .step 1, .step 1, .step 0] = some s ∧ Kept 2 s := by
  refine ⟨_, rfl, kept_of_careful 2 (by decide) [.down 0 1, .step 0, .step 0, .down 1 1, .step 1,
    .step 1, .step 1, .step 0] (by decide) rfl⟩

/-- With one permit `down(2)` leaves a debt, and so do two calls of `down(1)` one of which takes
the permit between the test and the second read of the other. -/
theorem not_kept_one :
    (∃ s, exec step ⟨1, fun _ => .idle, 0, 0⟩
      [.down 0 2, .step 0, .step 0, .step 0] = some s ∧ s.lockRes = -1 ∧ ¬ Kept 1 s) ∧
    ∃ s, exec step ⟨1, fun _ => .idle, 0, 0⟩ [.down 0 1, .step 0, .down 1 1, .step 1,
      .step 1, .step 1, .step 0, .step 0] = some s ∧ s.lockRes = -1 ∧ ¬ Kept 1 s := by
  refine ⟨⟨_, rfl, rfl, fun h => ?_⟩, ⟨_, rfl, rfl, fun h => ?_⟩⟩ <;>
    exact absurd h.nonneg (by decide)

end Semaphore

end Naos.Lock
