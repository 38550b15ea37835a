import Naos.Lib.Memory

/-!
# `memset`

The kernel's own `memset` stores the value as whole words when bit 2 of the destination is
clear, and otherwise walks the bytes of the value with a pointer that it resets by a
counter.  Both paths are exact about where they write and wrong about what: a word is the
value itself and not its low byte four times, and the counter is tested before it is
incremented, so the pointer leaves the value before it is reset.
-/

namespace Naos.Common

open Memory

/-- What the pointer `s` reads at an offset from `&val`: the bytes of `val`, and behind them
whatever the stack holds. -/
def readVal (val : BitVec 32) (behind : ℕ → Byte) (s : ℕ) : Byte :=
  if s < 4 then byteOf val s else behind (s - 4)

/-- `*d32++ = val`, `count` times. -/
def memsetWords (val : BitVec 32) : ℕ → Memory → ℕ → Memory × ℕ
  | 0, m, d => (m, d)
  | count + 1, m, d => memsetWords val count (m.storeWord d val) (d + 4)

/-- The byte loop: `d` and `s` are the two pointers and `n` the counter that resets `s`. -/
def memsetBytes (val : BitVec 32) (behind : ℕ → Byte) : ℕ → Memory → ℕ → ℕ → ℕ → Memory
  | 0, m, _, _, _ => m
  | size + 1, m, d, s, n =>
    let m' := m.store d (readVal val behind s)
    -- `n++ >= sizeof(u32)` tests the old value.
    if 4 ≤ n then memsetBytes val behind size m' (d + 1) 0 0
    else memsetBytes val behind size m' (d + 1) (s + 1) (n + 1)

/-- **`memset(dst, val, size)`**: the memory it leaves and the pointer it returns. -/
def memset (behind : ℕ → Byte) (m : Memory) (dst : ℕ) (val : BitVec 32) (size : ℕ) : Memory × ℕ :=
  if dst &&& 0x4 = 0 then
    let count := size / 4 % 2 ^ 32
    let rest := size % 4
    let (m', d) := memsetWords val count m dst
    (memsetBytes val behind rest m' d 0 0, dst)
  else (memsetBytes val behind size m dst 0 0, dst)

/-! ## What the loops write -/

lemma memsetWords_eq (val : BitVec 32) (count : ℕ) (m : Memory) (d : ℕ) :
    memsetWords val count m d =
      (m.fill d (4 * count) fun i => byteOf val (i % 4), d + 4 * count) := by
  induction count generalizing m d with
  | zero => simp [memsetWords]
  | succ count ih =>
    rw [memsetWords, ih, storeWord_eq_fill, fill_fill]
    rw [Nat.mul_succ, Nat.add_comm (4 * count), ← Nat.add_assoc]
    congr 1
    refine fill_congr m d _ _ fun i hi => ?_
    split
    · rw [Nat.mod_eq_of_lt ‹_›]
    · congr 1
      omega

lemma memsetBytes_eq (val : BitVec 32) (behind : ℕ → Byte) (size : ℕ) (m : Memory) (d s : ℕ)
    (hs : s ≤ 4) :
    memsetBytes val behind size m d s s =
      m.fill d size fun i => readVal val behind ((s + i) % 5) := by
  induction size generalizing m d s with
  | zero => simp [memsetBytes]
  | succ size ih =>
    have hnext : ∀ s', s' ≤ 4 → s' % 5 = (s + 1) % 5 →
        memsetBytes val behind size (m.store d (readVal val behind s)) (d + 1) s' s' =
          m.fill d (size + 1) fun i => readVal val behind ((s + i) % 5) := by
      intro s' hs' hmod
      rw [ih _ _ _ hs', store_eq_fill, fill_fill, Nat.add_comm size]
      refine fill_congr m d _ _ fun i hi => ?_
      split
      · have hi0 : i = 0 := by omega
        rw [hi0, Nat.add_zero, Nat.mod_eq_of_lt (by omega)]
      · congr 1
        omega
    rw [memsetBytes]
    split
    · exact hnext 0 (by omega) (by omega)
    · exact hnext (s + 1) (by omega) rfl

lemma readVal_of_lt (val : BitVec 32) (behind : ℕ → Byte) {s : ℕ} (hs : s < 4) :
    readVal val behind s = byteOf val s := if_pos hs

variable {dst size : ℕ}

lemma memset_of_bit_clear (hdst : dst &&& 0x4 = 0) (behind : ℕ → Byte) (m : Memory)
    (val : BitVec 32) (size : ℕ) :
    (memset behind m dst val size).1 =
      m.fill dst (4 * (size / 4 % 2 ^ 32) + size % 4) fun i => byteOf val (i % 4) := by
  simp only [memset, if_pos hdst, memsetWords_eq]
  rw [memsetBytes_eq val behind _ _ _ 0 (by omega), fill_fill]
  refine fill_congr m dst _ _ fun i hi => ?_
  split
  · rfl
  · rw [readVal_of_lt _ _ (by omega)]
    congr 1
    omega

lemma memset_of_bit_set (hdst : dst &&& 0x4 ≠ 0) (behind : ℕ → Byte) (m : Memory)
    (val : BitVec 32) (size : ℕ) :
    (memset behind m dst val size).1 = m.fill dst size fun i => readVal val behind (i % 5) := by
  simp only [memset, if_neg hdst]
  rw [memsetBytes_eq val behind _ _ _ 0 (by omega)]
  simp only [Nat.zero_add]

lemma memset_snd (behind : ℕ → Byte) (m : Memory) (dst : ℕ) (val : BitVec 32) (size : ℕ) :
    (memset behind m dst val size).2 = dst := by
  rw [memset]
  split <;> rfl

/-! ## The contract -/

/-- **The contract of `memset`** for one call, whatever memory holds. -/
structure MemsetContract (dst : ℕ) (val : BitVec 32) (size : ℕ) : Prop where
  written : ∀ behind m, ∀ i < size, (memset behind m dst val size).1 (dst + i) = byteOf val 0
  framed : ∀ behind m x, x < dst ∨ dst + size ≤ x → (memset behind m dst val size).1 x = m x
  determined : ∀ behind behind' m m', ∀ i < size,
    (memset behind m dst val size).1 (dst + i) = (memset behind' m' dst val size).1 (dst + i)
  returned : ∀ behind m, (memset behind m dst val size).2 = dst

/-- The bytes of the value that a call of this size comes to are all the same. -/
def Uniform (val : BitVec 32) (size : ℕ) : Prop := ∀ j < 4, j < size → byteOf val j = byteOf val 0

instance (val : BitVec 32) (size : ℕ) : Decidable (Uniform val size) :=
  inferInstanceAs (Decidable (∀ j < 4, _ → _))

lemma MemsetContract.of_fill {val : BitVec 32}
    (h : ∀ behind m, (memset behind m dst val size).1 = m.fill dst size fun _ => byteOf val 0) :
    MemsetContract dst val size := by
  have hwritten : ∀ behind m, ∀ i < size,
      (memset behind m dst val size).1 (dst + i) = byteOf val 0 := by
    intro behind m i hi
    rw [h, fill_apply_add _ _ _ _ hi]
  refine ⟨hwritten, ?_, ?_, fun behind m => memset_snd behind m dst val size⟩
  · intro behind m x hx
    rw [h, fill_apply_of_outside _ _ _ _ hx]
  · intro behind behind' m m' i hi
    rw [hwritten behind m i hi, hwritten behind' m' i hi]

lemma complement_ne (b : Byte) : ~~~b ≠ b := by
  revert b
  decide

lemma covered_eq (hsize : size < 2 ^ 34) : 4 * (size / 4 % 2 ^ 32) + size % 4 = size := by omega

lemma memsetContract_iff_of_bit_clear (hdst : dst &&& 0x4 = 0) (val : BitVec 32) (size : ℕ) :
    MemsetContract dst val size ↔ Uniform val size ∧ size < 2 ^ 34 := by
  constructor
  · intro h
    have hsize : size < 2 ^ 34 := by
      -- Otherwise a byte of the range keeps what it held, which may be anything.
      by_contra hlarge
      have hbyte := h.written (fun _ => 0) (fun _ => ~~~byteOf val 0) (size - 1) (by omega)
      rw [memset_of_bit_clear hdst, fill_apply_of_outside _ _ _ _ (by right; omega)] at hbyte
      exact complement_ne _ hbyte
    refine ⟨fun j hj hlt => ?_, hsize⟩
    have hbyte := h.written (fun _ => 0) (fun _ => 0) j hlt
    rw [memset_of_bit_clear hdst, covered_eq hsize, fill_apply_add _ _ _ _ hlt,
      Nat.mod_eq_of_lt hj] at hbyte
    exact hbyte
  · rintro ⟨huniform, hsize⟩
    refine .of_fill fun behind m => ?_
    rw [memset_of_bit_clear hdst, covered_eq hsize]
    refine fill_congr m dst _ _ fun i hi => ?_
    exact huniform _ (Nat.mod_lt _ (by decide)) (Nat.lt_of_le_of_lt (Nat.mod_le _ _) hi)

lemma memsetContract_iff_of_bit_set (hdst : dst &&& 0x4 ≠ 0) (val : BitVec 32) (size : ℕ) :
    MemsetContract dst val size ↔ Uniform val size ∧ size ≤ 4 := by
  constructor
  · intro h
    have hsize : size ≤ 4 := by
      -- Otherwise the fifth byte is the one behind the parameter.
      by_contra hlarge
      have hbyte := h.written (fun _ => ~~~byteOf val 0) (fun _ => 0) 4 (by omega)
      rw [memset_of_bit_set hdst, fill_apply_add _ _ _ _ (by omega), readVal,
        if_neg (by decide)] at hbyte
      exact complement_ne _ hbyte
    refine ⟨fun j hj hlt => ?_, hsize⟩
    have hbyte := h.written (fun _ => 0) (fun _ => 0) j hlt
    rw [memset_of_bit_set hdst, fill_apply_add _ _ _ _ hlt, Nat.mod_eq_of_lt (by omega),
      readVal_of_lt _ _ hj] at hbyte
    exact hbyte
  · rintro ⟨huniform, hsize⟩
    refine .of_fill fun behind m => ?_
    rw [memset_of_bit_set hdst]
    refine fill_congr m dst _ _ fun i hi => ?_
    rw [Nat.mod_eq_of_lt (by omega), readVal_of_lt _ _ (by omega)]
    exact huniform _ (by omega) hi

/-- **Where `memset` meets its contract**: the bytes of the value that the call comes to are
equal, and the range is short enough for the path that the destination selects. -/
theorem memsetContract_iff (dst : ℕ) (val : BitVec 32) (size : ℕ) : MemsetContract dst val size ↔
      Uniform val size ∧ if dst &&& 0x4 = 0 then size < 2 ^ 34 else size ≤ 4 := by
  split
  · exact memsetContract_iff_of_bit_clear ‹_› val size
  · exact memsetContract_iff_of_bit_set ‹_› val size

/-- Filling with ones writes the word one; eight bytes from an address with bit 2 set end
with a byte that is not of the value; and a range of 16 GiB is left as it is. -/
theorem not_memsetContract_one : ¬ MemsetContract 0x1000 1 4 ∧ ¬ MemsetContract 0x1004 0 8 ∧
      ¬ MemsetContract 0x1000 0 (2 ^ 34) := by
  refine ⟨fun h => ?_, fun h => ?_, fun h => ?_⟩
  · have hbyte := h.written (fun _ => 0) (fun _ => 0) 1 (by decide)
    exact absurd hbyte (by decide)
  · have hbyte := h.written (fun _ => 1) (fun _ => 0) 4 (by decide)
    exact absurd hbyte (by decide)
  · have hbyte := h.written (fun _ => 0) (fun _ => 1) 0 (by decide)
    rw [memset_of_bit_clear (by decide)] at hbyte
    exact absurd hbyte (by decide)

lemma memset_zero (hdst : dst &&& 0x4 = 0) (hsize : size < 2 ^ 34) (behind : ℕ → Byte)
    (m : Memory) :
    (memset behind m dst 0 size).1 = m.fill dst size fun _ => 0 := by
  rw [memset_of_bit_clear hdst, covered_eq hsize]
  refine fill_congr m dst _ _ fun i _ => ?_
  have hlt : i % 4 < 4 := Nat.mod_lt _ (by decide)
  generalize i % 4 = j at hlt
  revert j
  decide

end Naos.Common
