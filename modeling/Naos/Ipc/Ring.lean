import Naos.Ipc.BoundedQueue

/-!
# The ring of a bounded queue

`bounded_queue` keeps its elements in fixed storage, from `head_` on and around its end.  `remove`
closes the gap by moving the elements behind it, also across the end.  Whatever the head, the ring
answers like the list of its elements.

`head_ + count_` is at most twice the capacity.  The storage is in memory, so that this is below
`2 ^ 64` and the sums do not wrap.
-/

namespace Naos.Ipc

open List Option

universe u

/-- `bounded_queue<T>` as it is stored. -/
structure Ring (α : Type u) where
  /-- `storage_ == nullptr` -/
  null : Bool := false
  storage : ℕ → α
  capacity : ℕ
  head : ℕ := 0
  count : ℕ := 0
  claimed : Bool := false

/-- The calls that change a queue. -/
inductive QueueCall (α : Type u) where
  | tryPush (value : α)
  | claimFront
  | cancelClaim
  | commitClaim
  | remove (value : α)
  deriving DecidableEq, Repr

namespace Ring

variable {α : Type u} [DecidableEq α] (r : Ring α)

/-- Where the element at an offset from the head is. -/
def slot (offset : ℕ) : ℕ := (r.head + offset) % r.capacity

/-- `at` -/
def at' (offset : ℕ) : α := r.storage (r.slot offset)

def write (offset : ℕ) (value : α) : Ring α :=
  { r with storage := Function.update r.storage (r.slot offset) value }

def tryPush (value : α) : Option (Ring α) :=
  if r.null ∨ r.capacity = 0 ∨ r.count = r.capacity then none
  else some { r.write r.count value with count := r.count + 1 }

def claimFront : Option (Ring α) :=
  if r.count = 0 ∨ r.claimed then none else some { r with claimed := true }

/-- The first loop of `remove`, with the number of elements that are left. -/
def find (value : α) : ℕ → ℕ → ℕ
  | 0, offset => offset
  | n + 1, offset => if r.at' offset ≠ value then find value n (offset + 1) else offset

/-- The second loop of `remove`, with the number of elements to move.  The place of an element
that was moved is written by the next pass, or by the statement behind the loop. -/
def shift : ℕ → ℕ → Ring α → Ring α
  | 0, _, r => r
  | n + 1, current, r => shift n (current + 1) (r.write current (r.at' (current + 1)))

def remove [Inhabited α] (value : α) : Option (Ring α) :=
  if r.count = 0 then none
  else
    let offset := r.find value r.count 0
    if offset = r.count ∨ r.claimed ∧ offset = 0 then none
    else
      let r := shift (r.count - 1 - offset) offset r
      some { r.write (r.count - 1) default with count := r.count - 1 }

def cancelClaim : Ring α := { r with claimed := false }

def commitClaim : Ring α :=
  if !r.claimed ∨ r.count = 0 then r
  else { r with head := (r.head + 1) % r.capacity, count := r.count - 1, claimed := false }

/-- What a call answers, where a call without a result answers `true`, and the queue after it. -/
def call [Inhabited α] : QueueCall α → Ring α → Bool × Ring α
  | .tryPush value, r => ((r.tryPush value).isSome, (r.tryPush value).getD r)
  | .claimFront, r => (r.claimFront.isSome, r.claimFront.getD r)
  | .cancelClaim, r => (true, r.cancelClaim)
  | .commitClaim, r => (true, r.commitClaim)
  | .remove value, r => ((r.remove value).isSome, (r.remove value).getD r)

end Ring

/-- The calls on the list: `remove` takes the first element that is equal. -/
def BoundedQueue.call {α : Type u} [DecidableEq α] :
    QueueCall α → BoundedQueue α → Bool × BoundedQueue α
  | .tryPush value, q => ((q.tryPush value).isSome, (q.tryPush value).getD q)
  | .claimFront, q => (q.claimFront.isSome, q.claimFront.getD q)
  | .cancelClaim, q => (true, q.cancelClaim)
  | .commitClaim, q => (true, q.commitClaim)
  | .remove value, q =>
    let removed := q.removeAt (q.items.idxOf value)
    (removed.isSome, removed.getD q)

/-- The answers of a run of calls, and the queue after it. -/
def answers {κ σ : Type u} (call : κ → σ → Bool × σ) : List κ → σ → List Bool × σ
  | [], s => ([], s)
  | c :: calls, s =>
    let (answer, s) := call c s
    let (rest, s) := answers call calls s
    (answer :: rest, s)

namespace Ring

variable {α : Type u} {r r' : Ring α} {i j n k : ℕ}

/-- The elements from the head on. -/
def items (r : Ring α) : List α := (range r.count).map r.at'

/-- The ring holds the elements of the list. -/
structure Refines (r : Ring α) (q : BoundedQueue α) : Prop where
  items : q.items = r.items
  capacity : q.capacity = if r.null then 0 else r.capacity
  claimed : q.claimed = r.claimed
  fits : r.count ≤ q.capacity

lemma slot_inj (hi : i < r.capacity) (hj : j < r.capacity) (h : r.slot i = r.slot j) : i = j :=
  Nat.ModEq.eq_of_lt_of_lt (Nat.ModEq.add_left_cancel' r.head h) hi hj

lemma at_write (hi : i < r.capacity) (hj : j < r.capacity) (value : α) :
    (r.write i value).at' j = if j = i then value else r.at' j := by
  change Function.update r.storage (r.slot i) value (r.slot j) = _
  by_cases hij : j = i
  · rw [if_pos hij, hij, Function.update_self]
  · rw [if_neg hij, Function.update_of_ne fun h => hij (slot_inj hj hi h)]
    rfl

@[simp] lemma length_items : r.items.length = r.count := by simp [items]

lemma getElem_items (hi : i < r.items.length) : r.items[i] = r.at' i := by simp [items]

/-- The elements of two rings are equal if they are equal offset by offset. -/
lemma items_eq {l : List α} (hlength : l.length = r.count)
    (h : ∀ i, ∀ hi : i < l.length, l[i] = r.at' i) : l = r.items :=
  ext_getElem (by rw [length_items, hlength]) fun i hi hi' => by rw [getElem_items, h i hi]

lemma find_eq [DecidableEq α] (value : α) :
    r.find value n k = k + ((range' k n).map r.at').idxOf value := by
  induction n generalizing k with
  | zero => simp [find]
  | succ n ih =>
    rw [find, range'_succ, map_cons, idxOf_cons]
    by_cases h : r.at' k = value
    · simp [h]
    · rw [if_pos h, ih, beq_false_of_ne h]
      simp only [cond_false]
      omega

/-- The loop keeps everything but the elements that it moves. -/
lemma shift_spec (r : Ring α) (hn : k + n < r.capacity) : ∃ storage,
    shift n k r = { r with storage := storage } ∧
    ∀ i < r.capacity, ({ r with storage := storage } : Ring α).at' i =
      if k ≤ i ∧ i < k + n then r.at' (i + 1) else r.at' i := by
  induction n generalizing k r with
  | zero => exact ⟨r.storage, rfl, fun i _ => by rw [if_neg (by omega)]⟩
  | succ n ih =>
    obtain ⟨storage, hshift, hat⟩ := ih (r.write k (r.at' (k + 1))) (k := k + 1)
      (by change k + 1 + n < r.capacity; omega)
    refine ⟨storage, hshift, fun i hi => ?_⟩
    rw [show ({ r with storage := storage } : Ring α).at' i = _ from hat i hi]
    split
    next hki =>
      rw [if_pos (by omega), at_write (by omega) (by omega), if_neg (by omega)]
    next hki =>
      rw [at_write (by omega) hi]
      by_cases hik : i = k
      · rw [if_pos hik, if_pos (by omega), hik]
      · rw [if_neg hik, if_neg (by omega)]

variable {q : BoundedQueue α}

lemma Refines.count_le (h : r.Refines q) : r.count ≤ r.capacity := by
  have hfits := h.fits
  rw [h.capacity] at hfits
  split at hfits <;> omega

lemma Refines.length (h : r.Refines q) : q.items.length = r.count := by
  rw [h.items, length_items]

lemma Refines.empty (h : r.Refines q) : q.items = [] ↔ r.count = 0 := by
  rw [← h.length, length_eq_zero_iff]

lemma Refines.getElem (h : r.Refines q) (hi : i < q.items.length) : q.items[i] = r.at' i := by
  simp only [h.items, getElem_items]

section Step

variable (h : r.Refines q)
include h

lemma Refines.tryPush (value : α) : Rel Refines (r.tryPush value) (q.tryPush value) := by
  have hcount := h.count_le
  rw [BoundedQueue.tryPush, Ring.tryPush, h.length]
  by_cases hfull : r.null ∨ r.capacity = 0 ∨ r.count = r.capacity
  · have hfits := h.fits
    rw [if_pos hfull, if_pos]
    · exact .none
    · rw [h.capacity] at hfits ⊢
      split <;> grind
  · simp only [not_or, Bool.not_eq_true] at hfull
    have hcap : q.capacity = r.capacity := by rw [h.capacity, hfull.1]; rfl
    rw [if_neg (by grind), if_neg (by omega)]
    refine .some ⟨?_, h.capacity, h.claimed, ?_⟩
    · refine items_eq (by simp [h.length]) fun i hi => ?_
      have hi' : i ≤ r.count := by
        rw [length_append, h.length, length_singleton] at hi
        omega
      change _ = (r.write r.count value).at' i
      rw [at_write (by omega) (by omega), getElem_append]
      by_cases hic : i = r.count
      · simp [hic, h.length]
      · have hlt : i < q.items.length := by rw [h.length]; omega
        rw [dif_pos hlt, if_neg hic, h.getElem]
    · change r.count + 1 ≤ q.capacity
      omega

lemma Refines.claimFront : Rel Refines r.claimFront q.claimFront := by
  simp only [BoundedQueue.claimFront, Ring.claimFront, h.empty, h.claimed]
  split
  · exact .none
  · exact .some ⟨h.items, h.capacity, rfl, h.fits⟩

lemma Refines.remove [DecidableEq α] [Inhabited α] (value : α) :
    Rel Refines (r.remove value) (q.removeAt (q.items.idxOf value)) := by
  have hfind : r.find value r.count 0 = q.items.idxOf value := by
    rw [find_eq, Nat.zero_add, ← range_eq_range', h.items, Ring.items]
  have hle : q.items.idxOf value ≤ r.count := h.length ▸ idxOf_le_length
  have hcap := h.count_le
  simp only [BoundedQueue.removeAt, Ring.remove, hfind, h.length, h.claimed]
  generalize q.items.idxOf value = k at *
  by_cases hrefused : r.count ≤ k ∨ r.claimed = true ∧ k = 0
  · rw [if_pos hrefused]
    split
    · exact .none
    · rw [if_pos (hrefused.imp_left fun hk => by omega)]
      exact .none
  · have hlt : k < r.count := Nat.lt_of_not_le (not_or.1 hrefused).1
    have hne : ¬ (k = r.count ∨ r.claimed = true ∧ k = 0) :=
      fun hk => hrefused (hk.imp_left fun hk => by omega)
    obtain ⟨storage, hshift, hat⟩ := shift_spec r (n := r.count - 1 - k) (k := k) (by omega)
    have hlength : (q.items.eraseIdx k).length = r.count - 1 := by
      rw [length_eraseIdx_of_lt (by rw [h.length]; omega), h.length]
    rw [if_neg hrefused, if_neg (by omega), if_neg hne, hshift]
    refine .some ⟨items_eq hlength fun i hi => ?_, h.capacity, rfl, (Nat.sub_le _ _).trans h.fits⟩
    have hi' : i < r.count - 1 := hlength ▸ hi
    have hkept := at_write (r := { r with storage := storage }) (i := r.count - 1) (j := i)
      (show r.count - 1 < r.capacity by omega) (show i < r.capacity by omega) default
    rw [if_neg (by omega), hat i (by omega)] at hkept
    refine Eq.trans ?_ hkept.symm
    rw [getElem_eraseIdx]
    by_cases hik : i < k
    · rw [dif_pos hik, if_neg (by omega), h.getElem]
    · rw [dif_neg hik, if_pos (by omega), h.getElem]

lemma Refines.commitClaim : r.commitClaim.Refines q.commitClaim := by
  simp only [BoundedQueue.commitClaim, Ring.commitClaim, ne_eq, h.empty, h.claimed]
  by_cases hcommits : r.claimed = true ∧ ¬ r.count = 0
  · rw [if_pos hcommits, if_neg (by grind)]
    refine ⟨items_eq (by rw [length_tail, h.length]) fun i hi => ?_, h.capacity, rfl, ?_⟩
    · rw [getElem_tail, h.getElem]
      change r.storage ((r.head + (i + 1)) % r.capacity) =
        r.storage (((r.head + 1) % r.capacity + i) % r.capacity)
      rw [Nat.mod_add_mod, Nat.add_assoc, Nat.add_comm i 1]
    · exact (Nat.sub_le _ _).trans h.fits
  · rw [if_neg hcommits, if_pos (by grind)]
    exact h

variable [DecidableEq α] [Inhabited α]

omit [DecidableEq α] [Inhabited α] in
lemma Refines.getD {x : Option (Ring α)} {y : Option (BoundedQueue α)} (hxy : Rel Refines x y) :
    x.isSome = y.isSome ∧ (x.getD r).Refines (y.getD q) := by
  cases hxy with
  | some h' => exact ⟨rfl, h'⟩
  | none => exact ⟨rfl, h⟩

/-- Every call answers like the call on the list, and keeps the refinement. -/
lemma Refines.call (c : QueueCall α) :
    (r.call c).1 = (q.call c).1 ∧ (r.call c).2.Refines (q.call c).2 := by
  cases c with
  | tryPush value => exact h.getD (h.tryPush value)
  | claimFront => exact h.getD h.claimFront
  | cancelClaim => exact ⟨rfl, h.items, h.capacity, rfl, h.fits⟩
  | commitClaim => exact ⟨rfl, h.commitClaim⟩
  | remove value => exact h.getD (h.remove value)

lemma Refines.answers (calls : List (QueueCall α)) :
    (Ipc.answers Ring.call calls r).1 = (Ipc.answers BoundedQueue.call calls q).1 ∧
      (Ipc.answers Ring.call calls r).2.Refines (Ipc.answers BoundedQueue.call calls q).2 := by
  induction calls generalizing r q with
  | nil => exact ⟨rfl, h⟩
  | cons c calls ih =>
    obtain ⟨hanswer, hnext⟩ := h.call c
    obtain ⟨hanswers, hlast⟩ := ih hnext
    exact ⟨congrArg₂ cons hanswer hanswers, hlast⟩

end Step

/-- **The ring is a list with a claimed head.**  Every run of calls on new storage is answered like
the run on the list, which is never longer than the capacity, and `at` gives the elements of the
list. -/
theorem answers_eq [DecidableEq α] [Inhabited α] (null : Bool) (storage : ℕ → α) (capacity : ℕ)
    (calls : List (QueueCall α)) :
    let r := answers Ring.call calls { null := null, storage := storage, capacity := capacity }
    let q := answers BoundedQueue.call calls { capacity := if null then 0 else capacity }
    r.1 = q.1 ∧ r.2.count = q.2.items.length ∧ r.2.claimed = q.2.claimed ∧
      q.2.items.length ≤ q.2.capacity ∧
      ∀ i, ∀ hi : i < q.2.items.length, r.2.at' i = q.2.items[i] := by
  intro r q
  have hnew : Refines { null := null, storage := storage, capacity := capacity }
      ({ capacity := if null then 0 else capacity } : BoundedQueue α) :=
    ⟨rfl, rfl, rfl, Nat.zero_le _⟩
  obtain ⟨hanswers, h⟩ := hnew.answers calls
  exact ⟨hanswers, h.length.symm, h.claimed.symm, h.length ▸ h.fits,
    fun i hi => (h.getElem hi).symm⟩

end Ring

end Naos.Ipc
