import Mathlib

/-!
# Counters and the sums they stand for

A counter that is incremented once per live reference cannot reach `2 ^ 64`, so an
increment is ordinary addition.  A decrement is not so harmless: taking one more
than was added wraps to the largest value, and code that tests a counter against
zero then misbehaves for good.  The counters here are natural numbers whose
decrement wraps.

What such a counter stands for is a sum over a list of holders; the second part says
how that sum changes when one holder changes or goes.
-/

namespace Counter

open List

/-- `a - b` on 64 bits, for `a` and `b` below `2 ^ 64`. -/
def sub (a b : ℕ) : ℕ := if b ≤ a then a - b else a + 2 ^ 64 - b

@[simp] lemma sub_zero (a : ℕ) : sub a 0 = a := by simp [sub]

@[simp] lemma add_sub_cancel (a b : ℕ) : sub (a + b) b = a := by simp [sub]

lemma sub_of_le {a b : ℕ} (h : b ≤ a) : sub a b = a - b := by simp [sub, h]

/-! ## Sums over a list of holders -/

section Sums

variable {α : Type*} (f : α → ℕ)

variable {b : α} {i : ℕ} {l : List α}

lemma sum_map_eraseIdx (h : l[i]? = some b) : ((l.eraseIdx i).map f).sum + f b = (l.map f).sum := by
  obtain ⟨hlt, rfl⟩ := List.getElem?_eq_some_iff.1 h
  have hperm := ((getElem_cons_eraseIdx_perm hlt).map f).sum_eq
  rw [map_cons, sum_cons] at hperm
  omega

lemma sum_map_set (h : l[i]? = some b) (a : α) :
    ((l.set i a).map f).sum + f b = (l.map f).sum + f a := by
  obtain ⟨hlt, -⟩ := List.getElem?_eq_some_iff.1 h
  have hperm := ((set_perm_cons_eraseIdx hlt a).map f).sum_eq
  have herase := sum_map_eraseIdx f h
  rw [map_cons, sum_cons] at hperm
  omega

end Sums

end Counter
