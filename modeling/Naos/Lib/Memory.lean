import Mathlib

/-!
# Byte-addressed memory

Memory is a function from addresses to bytes, and words are stored with their lowest byte
first.  A loop that writes one range of addresses is described by `fill`: what it leaves in
the range, and nothing else.  Loops compose by `fill_fill`.
-/

/-- A byte. -/
abbrev Byte := BitVec 8

/-- The content of memory.  Ranges that do not wrap are the only ones that are used. -/
abbrev Memory := ℕ → Byte

/-- The bytes of a word, the lowest one first. -/
def byteOf (v : BitVec 32) (i : ℕ) : Byte := v.extractLsb' (8 * i) 8

namespace Memory

/-- Write one byte. -/
def store (m : Memory) (a : ℕ) (b : Byte) : Memory := Function.update m a b

/-- Write a word. -/
def storeWord (m : Memory) (a : ℕ) (v : BitVec 32) : Memory :=
  (((m.store a (byteOf v 0)).store (a + 1) (byteOf v 1)).store (a + 2) (byteOf v 2)).store
    (a + 3) (byteOf v 3)

/-- The `n` bytes at `a` replaced by those of `f`. -/
def fill (m : Memory) (a n : ℕ) (f : ℕ → Byte) : Memory :=
  fun x => if a ≤ x ∧ x < a + n then f (x - a) else m x

variable (m : Memory) (a n : ℕ) (f : ℕ → Byte)

lemma fill_apply_add {i : ℕ} (hi : i < n) : m.fill a n f (a + i) = f i := by
  rw [fill, if_pos (by omega)]
  congr 1
  omega

lemma fill_apply_of_outside {x : ℕ} (hx : x < a ∨ a + n ≤ x) : m.fill a n f x = m x := by
  rw [fill, if_neg (by omega)]

@[simp] lemma fill_zero : m.fill a 0 f = m := by
  ext1 x
  rw [fill_apply_of_outside]
  omega

lemma fill_congr {g : ℕ → Byte} (h : ∀ i < n, f i = g i) : m.fill a n f = m.fill a n g := by
  ext1 x
  rw [fill, fill]
  split
  · exact h _ (by omega)
  · rfl

lemma fill_fill (k : ℕ) (g : ℕ → Byte) : (m.fill a n f).fill (a + n) k g =
      m.fill a (n + k) fun i => if i < n then f i else g (i - n) := by
  ext1 x
  simp only [fill]
  by_cases hfirst : a ≤ x ∧ x < a + n
  · rw [if_neg (by omega), if_pos hfirst, if_pos (by omega), if_pos (by omega)]
  · by_cases hsecond : a + n ≤ x ∧ x < a + n + k
    · rw [if_pos hsecond, if_pos (by omega), if_neg (by omega)]
      congr 1
      omega
    · rw [if_neg hsecond, if_neg hfirst, if_neg (by omega)]

lemma store_eq_fill (b : Byte) : m.store a b = m.fill a 1 fun _ => b := by
  ext1 x
  rw [store, Function.update_apply, fill]
  by_cases hx : x = a
  · rw [if_pos hx, if_pos (by omega)]
  · rw [if_neg hx, if_neg (by omega)]

lemma storeWord_eq_fill (v : BitVec 32) : m.storeWord a v = m.fill a 4 (byteOf v) := by
  have hsplit : ∀ k, (m.fill a k (byteOf v)).store (a + k) (byteOf v k) =
      m.fill a (k + 1) (byteOf v) := by
    intro k
    rw [store_eq_fill, fill_fill]
    refine fill_congr m a _ _ fun i hi => ?_
    split
    · rfl
    · have : i = k := by omega
      rw [this]
  rw [storeWord, ← hsplit 3, ← hsplit 2, ← hsplit 1, ← hsplit 0, fill_zero]
  rfl

end Memory
