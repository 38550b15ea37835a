import Mathlib

/-!
# The boot command line

`early_get` looks for the key as a substring and takes it for an item when `=` follows.  When it
does not, the search is repeated from the place it has just found, and finds that place again.
When there is no place, the difference of a null pointer and the line, cut to an `int`, has to be
negative.
-/

namespace Naos.Cmdline

open List

/-- `strstr`: the first place of the key. -/
def strstr (line key : List Char) : Option ℕ :=
  (range line.length).find? fun i => key.isPrefixOf (line.drop i)

/-- `int idx = pos - p`, for the line at the address `p`; `none` is a null pointer. -/
def index (p : ℕ) (pos : Option ℕ) : ℤ := (pos.elim (-(p : ℤ)) fun i => i).bmod (2 ^ 32)

inductive Answer where
  | found (value : List Char)
  | missing
  /-- A read outside the line. -/
  | fault
  /-- The loop has not ended. -/
  | running

/-- The loop of `early_get`, for so many rounds. -/
def search (line key : List Char) (p : ℕ) : ℕ → Option ℕ → Answer
  | 0, _ => .running
  | rounds + 1, pos =>
    if index p pos < 0 then .missing
    else
      let beg := (index p pos).toNat + key.length
      match (line ++ ['\x00'])[beg]? with
      | none => .fault
      | some c =>
        if c = '=' then .found ((line.drop (beg + 1)).takeWhile (· ≠ ' '))
        else
          match pos with
          | none => .fault
          | some i => search line key p rounds ((strstr (line.drop i) key).map (i + ·))

def earlyGet (line key : List Char) (p rounds : ℕ) : Answer :=
  search line key p rounds (strstr line key)

/-- One of the items of the line, split at spaces. -/
def IsItem (line item : List Char) : Prop :=
  ' ' ∉ item ∧ ∃ pre rest, line = pre ++ (item ++ rest) ∧
    (pre = [] ∨ ∃ a, pre = a ++ [' ']) ∧ (rest = [] ∨ ∃ b, rest = ' ' :: b)

/-- The answer that the items give. -/
def Agrees (line key : List Char) : Answer → Prop
  | .found value => IsItem line (key ++ '=' :: value)
  | .missing => ∀ value, ¬ IsItem line (key ++ '=' :: value)
  | .fault | .running => False

/-- **The lookup is right**: it ends, with the answer of the items. -/
def Correct (line key : List Char) (p : ℕ) : Prop :=
  ∃ n, ∀ rounds, n ≤ rounds → Agrees line key (earlyGet line key p rounds)

/-- At the place `j` the text after a key is `=` and the value of an item. -/
def Starts (line key : List Char) (j : ℕ) : Prop :=
  ∃ rest, line.drop (j + key.length) = '=' :: rest ∧
    IsItem line (key ++ '=' :: rest.takeWhile (· ≠ ' '))

/-- Without a place of the key, `-p` is a negative `int`.  The first place of the key, which as an
`int` is itself in a line shorter than `2 ^ 31`, starts an item, or there is none and the `int` is
negative. -/
def Leading (line key : List Char) (p : ℕ) : Prop :=
  match strstr line key with
  | none => 0 < p % 2 ^ 32 ∧ p % 2 ^ 32 ≤ 2 ^ 31
  | some i =>
    if (i : ℤ).bmod (2 ^ 32) < 0 then ∀ value, ¬ IsItem line (key ++ '=' :: value)
    else Starts line key ((i : ℤ).bmod (2 ^ 32)).toNat

variable {line key : List Char} {p : ℕ}

lemma not_isItem (h : strstr line key = none) (value : List Char) :
    ¬ IsItem line (key ++ '=' :: value) := by
  rintro ⟨-, pre, rest, hline, -⟩
  have hnot := find?_eq_none.1 h pre.length
  simp [hline] at hnot

/-- From the place it has found the search finds that place again. -/
lemma strstr_again {i : ℕ} (h : strstr line key = some i) :
    (strstr (line.drop i) key).map (i + ·) = some i := by
  have hkey := find?_some h
  have hlt := mem_range.1 (mem_of_find?_eq_some h)
  have hpos : line.length - i = (line.length - i - 1) + 1 := by omega
  simp only [strstr, length_drop]
  rw [hpos, range_succ_eq_map, find?_cons_of_pos (by simpa using hkey)]
  rfl

lemma getElem_eq_iff (j : ℕ) :
    (line ++ ['\x00'])[j]? = some '=' ↔ ∃ rest, line.drop j = '=' :: rest := by
  rcases lt_or_ge j line.length with hj | hj
  · simp only [getElem?_append_left hj, getElem?_eq_getElem hj, drop_eq_getElem_cons hj,
      Option.some.injEq, cons.injEq, exists_and_left, exists_eq', and_true]
  · rw [getElem?_append_right hj, drop_eq_nil_of_le hj]
    cases j - line.length <;> simp

/-- A round that finds `=` ends, with the value behind it. -/
lemma search_found {pos : Option ℕ} {rest : List Char} (hindex : ¬ index p pos < 0)
    (hrest : line.drop ((index p pos).toNat + key.length) = '=' :: rest) (rounds : ℕ) :
    search line key p (rounds + 1) pos = .found (rest.takeWhile (· ≠ ' ')) := by
  have hbeg := (getElem_eq_iff _).2 ⟨rest, hrest⟩
  have hdrop : line.drop ((index p pos).toNat + key.length + 1) = rest := by
    rw [← drop_drop, hrest]
    rfl
  rw [search.eq_def]
  simp only [hindex, if_false, hbeg, if_true, hdrop]

/-- Where the round does not find `=`, the loop does not end, or it reads outside the line. -/
lemma not_agrees {pos : Option ℕ} (hpos : strstr line key = pos) (hindex : ¬ index p pos < 0)
    (hrest : ∀ rest, line.drop ((index p pos).toNat + key.length) ≠ '=' :: rest) (rounds : ℕ) :
    ¬ Agrees line key (search line key p rounds pos) := by
  have hbeg := mt (getElem_eq_iff _).1 (not_exists.2 hrest)
  induction rounds with
  | zero => exact id
  | succ rounds ih =>
    rw [search.eq_def]
    simp only [hindex, if_false]
    split
    · exact id
    next c hc =>
      rw [if_neg (by rintro rfl; exact hbeg hc)]
      cases pos with
      | none => exact id
      | some i =>
        dsimp only
        rw [strstr_again hpos]
        exact ih

lemma correct_iff_index : Correct line key p ↔
    if index p (strstr line key) < 0 then ∀ value, ¬ IsItem line (key ++ '=' :: value)
    else Starts line key (index p (strstr line key)).toNat := by
  split_ifs with hneg
  · have hmissing (rounds : ℕ) : earlyGet line key p (rounds + 1) = .missing := by
      rw [earlyGet, search.eq_def]
      exact if_pos hneg
    constructor
    · rintro ⟨n, hn⟩
      have hagrees := hn (n + 1) (by omega)
      rwa [hmissing] at hagrees
    · refine fun h => ⟨1, fun rounds hrounds => ?_⟩
      obtain ⟨rounds, rfl⟩ := Nat.exists_eq_add_of_le' hrounds
      rw [hmissing]
      exact h
  · by_cases hrest :
        ∃ rest, line.drop ((index p (strstr line key)).toNat + key.length) = '=' :: rest
    · obtain ⟨rest, hrest⟩ := hrest
      have hfound := search_found hneg hrest
      constructor
      · rintro ⟨n, hn⟩
        have hagrees := hn (n + 1) (by omega)
        rw [earlyGet, hfound] at hagrees
        exact ⟨rest, hrest, hagrees⟩
      · rintro ⟨rest', hrest', hitem⟩
        obtain rfl : rest = rest' := by simpa using hrest.symm.trans hrest'
        refine ⟨1, fun rounds hrounds => ?_⟩
        obtain ⟨rounds, rfl⟩ := Nat.exists_eq_add_of_le' hrounds
        rw [earlyGet, hfound]
        exact hitem
    · refine iff_of_false ?_ fun ⟨rest, h, _⟩ => hrest ⟨rest, h⟩
      rintro ⟨n, hn⟩
      exact not_agrees rfl hneg (not_exists.1 hrest) n (hn n le_rfl)

def lineAddress : ℕ := 0xffff800000007000

end Naos.Cmdline
