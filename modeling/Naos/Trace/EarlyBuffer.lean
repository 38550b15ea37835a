import Naos.Lib.Transition

/-!
# The early log buffer

Before the log buffer exists, text is kept in `early_buffer`.  Room for a notice is set aside
at the end, and the text that does not fit is replaced by the notice.  The room that is left is
computed without a sign, so behind the notice there is no end to it.
-/

namespace Naos.Trace

open Transition List

/-- The notice, with the NUL that `sizeof` and `strcpy` count. -/
def overflowStr : List Char := "\n...kbuffer overflow.\n\x00".toList

/-- `memcpy` and `strcpy` to an offset from the start of `early_buffer`. -/
def write (m : ℤ → Char) (offset : ℤ) (str : List Char) : ℤ → Char :=
  fun x => if offset ≤ x then str.getD (x - offset).toNat (m x) else m x

/-- The buffer with what is around it, `early_buffer_offset`, and all that was to be written. -/
structure EarlyBuffer where
  memory : ℤ → Char
  offset : ℤ
  log : List Char

namespace EarlyBuffer

/-- `offset` is an `int`, and `rest` and `len` are unsigned. -/
def writeEarlyBuffer (s : EarlyBuffer) (str : List Char) : EarlyBuffer :=
  let rest : ℤ := (4096 - s.offset - overflowStr.length) % 2 ^ 64
  let len : ℤ := if rest < str.length then rest else str.length
  let memory := write s.memory s.offset (str.take len.toNat)
  let offset := (s.offset + len).bmod (2 ^ 32)
  if rest < str.length ∧ overflowStr.length ≤ rest then
    ⟨write memory offset overflowStr, (offset + overflowStr.length).bmod (2 ^ 32), s.log ++ str⟩
  else ⟨memory, offset, s.log ++ str⟩

def step (s : EarlyBuffer) (str : List Char) : Option EarlyBuffer := some (s.writeEarlyBuffer str)

/-- The buffer holds a start of the text and at most one notice, up to the offset, which is
inside, and nothing else is written. -/
structure Holds (m : ℤ → Char) (s : EarlyBuffer) (text notice : List Char) : Prop where
  isPrefix : text <+: s.log
  isNotice : notice = [] ∨ notice = overflowStr
  offset : s.offset = (text ++ notice).length
  inside : s.offset ≤ 4096
  memory : s.memory = write m 0 (text ++ notice)

/-- Before the notice, all of the text is there or the buffer is full. -/
def Inv (m : ℤ → Char) (s : EarlyBuffer) : Prop :=
  ∃ text notice, Holds m s text notice ∧
    (s.offset ≤ 4073 → notice = [] ∧ (text = s.log ∨ s.offset = 4073))

variable {m : ℤ → Char} {s : EarlyBuffer} {str : List Char}

lemma write_write (text str : List Char) :
    write (write m 0 text) text.length str = write m 0 (text ++ str) := by
  funext x
  simp only [write, sub_zero]
  by_cases hx : (text.length : ℤ) ≤ x
  · have hsub : (x - text.length).toNat = x.toNat - text.length := by omega
    have hpos : 0 ≤ x := by omega
    rw [if_pos hx, if_pos hpos, if_pos hpos, hsub, getD_append_right _ _ _ _ (by omega),
      getD_eq_default text _ (by omega)]
  · rw [if_neg hx]
    split
    · rw [getD_append _ _ _ _ (by omega)]
    · rfl

lemma Inv.write (h : Inv m s) (hroom : s.offset ≤ 4073) : Inv m (s.writeEarlyBuffer str) := by
  obtain ⟨text, notice, h, hplain⟩ := h
  obtain ⟨rfl, hall⟩ := hplain hroom
  have hoffset : s.offset = text.length := by simpa using h.offset
  have hnotice : overflowStr.length = 23 := rfl
  have hrest : (4096 - s.offset - overflowStr.length) % 2 ^ 64 = 4073 - s.offset := by omega
  simp only [writeEarlyBuffer, hrest]
  generalize hlen : (if 4073 - s.offset < str.length then 4073 - s.offset else str.length) = len
  have hle : 0 ≤ len ∧ len ≤ str.length ∧ s.offset + len ≤ 4073 := by split at hlen <;> omega
  have hlength : (text ++ str.take len.toNat).length = s.offset + len := by
    simp only [length_append, length_take]
    omega
  have hpre : text ++ str.take len.toNat <+: s.log ++ str := by
    rcases hall with rfl | hfull
    · exact (prefix_append_right_inj _).2 ( take_prefix _ _)
    · have hzero : len.toNat = 0 := by omega
      simpa [hzero] using h.isPrefix.trans (prefix_append _ _)
  have hfull : text ++ str.take len.toNat = s.log ++ str ∨ s.offset + len = 4073 := by
    rcases hall with rfl | hfull
    · split at hlen
      · omega
      · simp [← hlen]
    · omega
  rw [Int.bmod_eq_of_le (by omega) (by omega), h.memory, append_nil, hoffset, write_write,
    ← hoffset]
  split
  · rw [Int.bmod_eq_of_le (by omega) (by omega), ← hlength, write_write]
    refine ⟨_, overflowStr, ⟨hpre, .inr rfl, by simp [add_assoc], ?_, rfl⟩, ?_⟩ <;>
      dsimp only <;> omega
  · exact ⟨_, [], ⟨hpre, .inl rfl, by simpa using hlength.symm, hle.2.2.trans (by norm_num),
      by simp⟩, fun _ => ⟨rfl, hfull⟩⟩

/-- **The buffer keeps its text**, whatever the texts are, as long as none comes after the
notice. -/
theorem holds_of_room (m : ℤ → Char) (strs : List (List Char))
    (hok : Along step (fun s _ => s.offset ≤ 4073) ⟨m, 0, []⟩ strs)
    (hrun : exec step ⟨m, 0, []⟩ strs = some s) : ∃ text notice, Holds m s text notice := by
  have hstart : Inv m ⟨m, 0, []⟩ :=
    ⟨[], [], ⟨ nil_prefix, .inl rfl, rfl, (by simp), by funext; simp [Trace.write]⟩, by simp⟩
  obtain ⟨text, notice, h, -⟩ := exec_induct (fun s str t h hroom hs => by
    cases hs
    exact h.write hroom) hstart hok hrun
  exact ⟨text, notice, h⟩

/-- The second of two texts does not fit, and the notice takes the place of its end. -/
theorem holds_of_room_overflow : ∃ s,
    exec step ⟨fun _ => ' ', 0, []⟩ [replicate 4000 'a', replicate 100 'b'] = some s ∧
      s.offset = 4096 ∧ ∃ text notice, Holds (fun _ => ' ') s text notice := by
  refine ⟨_, rfl, ?_, holds_of_room _ [replicate 4000 'a', replicate 100 'b'] ?_ rfl⟩
  · simp only [writeEarlyBuffer, length_replicate, show overflowStr.length = 23 from rfl]
    norm_num [Int.bmod]
  · simp only [Along, step, Option.elim_some, writeEarlyBuffer, length_replicate,
      show overflowStr.length = 23 from rfl]
    norm_num [Int.bmod]

/-- A text behind the notice leaves the buffer. -/
theorem not_holds_behind : ∃ strs s, exec step ⟨fun _ => ' ', 0, []⟩ strs = some s ∧
    ¬ ∃ text notice, Holds (fun _ => ' ') s text notice := by
  refine ⟨[replicate 4074 'a', ['b']], _, rfl, ?_⟩
  rintro ⟨text, notice, h⟩
  have hinside := h.inside
  simp only [writeEarlyBuffer, length_replicate, show overflowStr.length = 23 from rfl] at hinside
  norm_num [Int.bmod] at hinside

end EarlyBuffer

end Naos.Trace
