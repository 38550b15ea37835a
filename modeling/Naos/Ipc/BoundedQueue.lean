import Mathlib

/-!
# The bounded queue

`bounded_queue` is a FIFO over fixed storage whose head can be claimed: a claimed
head stays in the queue until the claim is committed or cancelled, and a second
claim is refused meanwhile.  The storage is a ring; what the queue holds is the list
of its elements from head to tail, and that list is the model.
-/

namespace Naos.Ipc

universe u

/-- `bounded_queue<T>`: elements from head to tail. -/
structure BoundedQueue (α : Type u) where
  items : List α := []
  capacity : ℕ
  claimed : Bool := false

namespace BoundedQueue

variable {α : Type u} (q : BoundedQueue α)

def empty : Bool := q.items.isEmpty

/-- `full()`: a queue without storage is never full. -/
def full : Bool := decide (q.capacity ≠ 0) && decide (q.items.length = q.capacity)

def size : ℕ := q.items.length

def tryPush (x : α) : Option (BoundedQueue α) :=
  if q.capacity = 0 ∨ q.items.length = q.capacity then none
  else some { q with items := q.items ++ [x] }

def claimFront : Option (BoundedQueue α) :=
  if q.items = [] ∨ q.claimed = true then none else some { q with claimed := true }

/-- `remove` of the element at an offset: a claimed head stays. -/
def removeAt (offset : ℕ) : Option (BoundedQueue α) :=
  if q.items.length ≤ offset ∨ (q.claimed = true ∧ offset = 0) then none
  else some { q with items := q.items.eraseIdx offset }

def cancelClaim : BoundedQueue α := { q with claimed := false }

def commitClaim : BoundedQueue α :=
  if q.claimed = true ∧ q.items ≠ [] then { q with items := q.items.tail, claimed := false } else q

variable {q}

variable {q' : BoundedQueue α}

lemma tryPush_eq_some {x : α} (h : q.tryPush x = some q') :
    q' = { q with items := q.items ++ [x] } := by
  rw [tryPush] at h
  split at h
  · simp at h
  · exact (Option.some.inj h).symm

lemma claimFront_eq_some (h : q.claimFront = some q') : q' = { q with claimed := true } := by
  rw [claimFront] at h
  split at h
  · simp at h
  · exact (Option.some.inj h).symm

end BoundedQueue

end Naos.Ipc
