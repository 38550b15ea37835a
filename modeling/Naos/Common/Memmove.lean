import Naos.Lib.Memory

/-!
# `memcpy` and `memmove`

Both copy in words of eight bytes when both pointers are aligned, and the rest in bytes.
`memmove` starts at the end when the destination lies inside the source; the words are then
the last ones, and the bytes the first.
-/

namespace Naos.Common

open Memory

/-- `n` bytes are read, and then written: the assignment of a byte or of a word, and what a
whole copy should be. -/
def move (m : Memory) (d s n : ℕ) : Memory := m.fill d n fun i => m (s + i)

/-- `*d++ = *s++`, `count` times, for values of `w` bytes. -/
def copyForward (w : ℕ) : ℕ → Memory → ℕ → ℕ → Memory
  | 0, m, _, _ => m
  | count + 1, m, d, s => copyForward w count (move m d s w) (d + w) (s + w)

/-- `*--d = *--s`, `count` times. -/
def copyBackward (w : ℕ) : ℕ → Memory → ℕ → ℕ → Memory
  | 0, m, _, _ => m
  | count + 1, m, d, s => copyBackward w count (move m (d - w) (s - w) w) (d - w) (s - w)

def memcpy (m : Memory) (dst src size : ℕ) : Memory × ℕ :=
  if src &&& 0x7 = 0 ∧ dst &&& 0x7 = 0 then
    let count := size / 8
    let m' := copyForward 8 count m dst src
    (copyForward 1 (size % 8) m' (dst + 8 * count) (src + 8 * count), dst)
  else (copyForward 1 size m dst src, dst)

def memmove (m : Memory) (dst src size : ℕ) : Memory × ℕ :=
  if dst = src then (m, dst)
  else if src < dst ∧ dst < src + size then
    if src &&& 0x7 = 0 ∧ dst &&& 0x7 = 0 then
      let count := size / 8
      let m' := copyBackward 8 count m (dst + size) (src + size)
      (copyBackward 1 (size % 8) m' (dst + size - 8 * count) (src + size - 8 * count), dst)
    else (copyBackward 1 size m (dst + size) (src + size), dst)
  else memcpy m dst src size

variable {m : Memory} {d s k r : ℕ}

/-- A copy in two parts, the first one first: the second part is not overwritten. -/
lemma move_move (h : d ≤ s ∨ s + (k + r) ≤ d) :
    move (move m d s k) (d + k) (s + k) r = move m d s (k + r) := by
  ext1 x
  simp only [move, fill]
  split_ifs <;> first | rfl | omega | (congr 1; omega)

/-- A copy in two parts, the last one first. -/
lemma move_move_last (h : s ≤ d) :
    move (move m (d + k) (s + k) r) d s k = move m d s (k + r) := by
  ext1 x
  simp only [move, fill]
  split_ifs <;> first | rfl | omega | (congr 1; omega)

lemma move_zero : move m d s 0 = m := fill_zero ..

lemma copyForward_eq (w count : ℕ) (h : d ≤ s ∨ s + w * count ≤ d) :
    copyForward w count m d s = move m d s (w * count) := by
  induction count generalizing m d s with
  | zero => exact move_zero.symm
  | succ count ih =>
    have hlen : w * (count + 1) = w + w * count := by rw [Nat.mul_succ, Nat.add_comm]
    rw [hlen] at h ⊢
    rw [copyForward, ih (by omega), move_move h]

lemma copyBackward_eq (w count : ℕ) (h : s ≤ d) :
    copyBackward w count m (d + w * count) (s + w * count) = move m d s (w * count) := by
  induction count generalizing m with
  | zero => exact move_zero.symm
  | succ count ih =>
    rw [copyBackward, Nat.mul_succ, ← Nat.add_assoc, ← Nat.add_assoc, Nat.add_sub_cancel,
      Nat.add_sub_cancel, ih, move_move_last h]

variable {dst src n : ℕ}

lemma memcpy_eq (h : dst ≤ src ∨ src + n ≤ dst) : memcpy m dst src n = (move m dst src n, dst) := by
  have hn : 8 * (n / 8) + 1 * (n % 8) = n := by omega
  rw [memcpy]
  split
  · dsimp only
    rw [copyForward_eq 8 _ (by omega), copyForward_eq 1 _ (by omega), move_move (by omega), hn]
  · rw [copyForward_eq 1 _ (by omega), Nat.one_mul]

lemma memmove_eq : memmove m dst src n = (move m dst src n, dst) := by
  have hbytes : src ≤ dst → ∀ (m : Memory) (k : ℕ),
      copyBackward 1 k m (dst + k) (src + k) = move m dst src k := by
    intro hle m k
    simpa using copyBackward_eq (m := m) 1 k hle
  rw [memmove]
  split_ifs with heq hinside
  · subst heq
    have hsame : move m dst dst n = m := by
      ext1 x
      simp only [move, fill]
      split_ifs <;> first | rfl | (congr 1; omega)
    rw [hsame]
  · -- The words end where the ranges end, and the bytes are in front of them.
    have hle : src ≤ dst := hinside.1.le
    have hd : dst + n = dst + n % 8 + 8 * (n / 8) := by omega
    have hs : src + n = src + n % 8 + 8 * (n / 8) := by omega
    dsimp only
    rw [hd, hs, copyBackward_eq 8 _ (by omega), Nat.add_sub_cancel, Nat.add_sub_cancel,
      hbytes hle, move_move_last hle, Nat.mod_add_div]
  · rw [hbytes hinside.1.le]
  · exact memcpy_eq (by omega)

/-- **What a copy should leave**: the destination holds the bytes that were at the source, no
other byte has changed, and the destination is returned. -/
structure Copied (m : Memory) (dst src n : ℕ) (r : Memory × ℕ) : Prop where
  written : ∀ i < n, r.1 (dst + i) = m (src + i)
  framed : ∀ x, x < dst ∨ dst + n ≤ x → r.1 x = m x
  returned : r.2 = dst

lemma copied_move : Copied m dst src n (move m dst src n, dst) where
  written _ hi := fill_apply_add m dst n (fun i => m (src + i)) hi
  framed _ hx := fill_apply_of_outside m dst n (fun i => m (src + i)) hx
  returned := rfl

/-- **Both functions copy**: `memmove` always, `memcpy` where the ranges do not overlap. -/
theorem copied_memmove_memcpy (m : Memory) (dst src n : ℕ) :
    Copied m dst src n (memmove m dst src n) ∧
      (dst + n ≤ src ∨ src + n ≤ dst → Copied m dst src n (memcpy m dst src n)) := by
  rw [memmove_eq]
  refine ⟨copied_move, fun hapart => ?_⟩
  rw [memcpy_eq (by omega)]
  exact copied_move

end Naos.Common
