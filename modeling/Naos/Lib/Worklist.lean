import Mathlib

/-!
# Marking by a growing work list

The classical mark phase: start from the roots, walk along a vector of marked nodes
by index, and append every successor that is not marked yet.  A node is marked when
it is appended, so the vector is at once the set of marked nodes and the queue of
those still to be scanned.  Nodes outside a given universe are ignored.
-/

namespace Worklist

open List

universe u
variable {α : Type u} [DecidableEq α]

/-- Append a node of the universe that is not marked yet. -/
def visit (U : List α) (work : List α) (y : α) : List α :=
  if y ∈ U ∧ y ∉ work then work ++ [y] else work

/-- Scan the node at index `i` and go on with the next one. -/
def loop (succ : α → List α) (U : List α) : ℕ → ℕ → List α → List α
  | 0, _, work => work
  | fuel + 1, i, work =>
    match work[i]? with
    | none => work
    | some x => loop succ U fuel (i + 1) ((succ x).foldl (visit U) work)

/-- The marked nodes. -/
def mark (succ : α → List α) (U roots : List α) : List α := loop succ U U.length 0 roots

/-- Reachability from the roots along successors that lie in the universe. -/
inductive Reach (succ : α → List α) (U roots : List α) : α → Prop
  | root {x : α} : x ∈ roots → Reach succ U roots x
  | step {x y : α} : Reach succ U roots x → y ∈ succ x → y ∈ U → Reach succ U roots y

variable {succ : α → List α} {U roots work : List α}

/-! ## One scan -/

variable {x : α} {ys : List α} {fuel i : ℕ}

lemma prefix_visit (work : List α) (y : α) : work <+: visit U work y := by
  rw [visit]
  split
  · exact prefix_append _ _
  · exact prefix_rfl

lemma prefix_foldl_visit (ys work : List α) : work <+: ys.foldl (visit U) work := by
  induction ys generalizing work with
  | nil => exact prefix_rfl
  | cons y ys ih => exact (prefix_visit work y).trans (ih _)

lemma mem_foldl_visit {y : α} (hy : y ∈ ys) (hU : y ∈ U) : y ∈ ys.foldl (visit U) work := by
  induction ys generalizing work with
  | nil => simp at hy
  | cons z ys ih =>
    rw [foldl_cons]
    rcases mem_cons.1 hy with rfl | hy
    · apply (prefix_foldl_visit ys _).subset
      by_cases hmem : y ∈ work
      · exact (prefix_visit work y).subset hmem
      · rw [visit, if_pos ⟨hU, hmem⟩]
        exact mem_append_right _ (mem_singleton.2 rfl)
    · exact ih hy

lemma mem_of_mem_foldl_visit (h : x ∈ ys.foldl (visit U) work) : x ∈ work ∨ (x ∈ ys ∧ x ∈ U) := by
  induction ys generalizing work with
  | nil => exact .inl h
  | cons y ys ih =>
    rw [foldl_cons] at h
    rcases ih h with h | ⟨h, hU⟩
    · rw [visit] at h
      split at h
      next hy =>
        rcases mem_append.1 h with h | h
        · exact .inl h
        · rw [mem_singleton.1 h]
          exact .inr ⟨mem_cons_self, hy.1⟩
      · exact .inl h
    · exact .inr ⟨mem_cons_of_mem _ h, hU⟩

lemma visit_subperm (h : work.Subperm U) (y : α) : (visit U work y).Subperm U := by
  rw [visit]
  split
  next hy =>
    exact (perm_append_singleton y work).subperm.trans
      (cons_subperm_of_not_mem_of_mem hy.2 hy.1 h)
  · exact h

lemma foldl_visit_subperm (h : work.Subperm U) (ys : List α) :
    (ys.foldl (visit U) work).Subperm U := by
  induction ys generalizing work with
  | nil => exact h
  | cons y ys ih => exact ih (visit_subperm h y)

/-! ## The walk -/

lemma reach_of_mem_loop (hwork : ∀ x ∈ work, Reach succ U roots x)
    (h : x ∈ loop succ U fuel i work) : Reach succ U roots x := by
  induction fuel generalizing i work with
  | zero => exact hwork x h
  | succ fuel ih =>
    rw [loop] at h
    split at h
    · exact hwork x h
    next z hz =>
      refine ih ?_ h
      intro y hy
      rcases mem_of_mem_foldl_visit hy with hy | ⟨hy, hU⟩
      · exact hwork y hy
      · exact .step (hwork z (mem_of_getElem? hz)) hy hU

lemma subset_loop (h : x ∈ work) : x ∈ loop succ U fuel i work := by
  induction fuel generalizing i work with
  | zero => exact h
  | succ fuel ih =>
    rw [loop]
    split
    · exact h
    · exact ih ((prefix_foldl_visit _ _).subset h)

/-- The invariant of the walk: the nodes before the index have been scanned, so their
successors are marked.  With a round left for every node the universe could still
contribute, the walk ends with all nodes scanned. -/
lemma loop_closed (hsub : work.Subperm U) (hfuel : U.length ≤ fuel + i)
    (hdone : ∀ j x, j < i → work[j]? = some x → ∀ y ∈ succ x, y ∈ U → y ∈ work) :
    ∀ x ∈ loop succ U fuel i work, ∀ y ∈ succ x, y ∈ U → y ∈ loop succ U fuel i work := by
  induction fuel generalizing i work with
  | zero =>
    intro x hx
    obtain ⟨j, hj⟩ := mem_iff_getElem?.1 hx
    have hlen : j < work.length := (List.getElem?_eq_some_iff.1 hj).1
    have hle : work.length ≤ U.length := hsub.length_le
    exact hdone j x (by omega) hj
  | succ fuel ih =>
    intro x hx
    rw [loop] at hx ⊢
    cases hi : work[i]? with
    | none =>
      rw [hi] at hx
      obtain ⟨j, hj⟩ := mem_iff_getElem?.1 hx
      have hlen : j < work.length := (List.getElem?_eq_some_iff.1 hj).1
      have hend : work.length ≤ i := List.getElem?_eq_none_iff.1 hi
      exact hdone j x (by omega) hj
    | some z =>
      rw [hi] at hx
      refine ih (foldl_visit_subperm hsub _) (by omega) ?_ x hx
      intro j v hj hv y hy hU
      have hlen : i < work.length := (List.getElem?_eq_some_iff.1 hi).1
      have hold : work[j]? = some v := by
        obtain ⟨rest, hrest⟩ := prefix_foldl_visit (U := U) (succ z) work
        rw [← hrest, List.getElem?_append_left (by omega)] at hv
        exact hv
      rcases Nat.lt_succ_iff_lt_or_eq.1 hj with hj | rfl
      · exact (prefix_foldl_visit _ _).subset (hdone j v hj hold y hy hU)
      · rw [hi, Option.some.injEq] at hold
        subst hold
        exact mem_foldl_visit hy hU

/-- **The walk marks exactly the reachable nodes.** -/
theorem mem_mark (hroots : roots.Subperm U) : x ∈ mark succ U roots ↔ Reach succ U roots x := by
  constructor
  · exact reach_of_mem_loop fun y hy => .root hy
  · intro h
    induction h with
    | root hx => exact subset_loop hx
    | step _ hy hU ih => exact loop_closed hroots (by omega) (by intro j x hj; omega) _ ih _ hy hU

end Worklist
