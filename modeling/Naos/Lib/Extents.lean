import Mathlib

/-!
# Ordered sets of half-open ranges

The elements of a list stand for the ranges from `lo` up to `hi`, and the list is an ordered
set whose order compares the upper ends alone.  Such a set answers a point with the first
element whose upper end is greater; the answer is the range around the point only as long as
the ranges keep apart.
-/

namespace Extents

open List

universe u
variable {ι : Type u} {lo hi : ι → ℕ} {l : List ι} {a x : ι} {p : ℕ}

/-- No range is empty, and each one ends before the next one starts. -/
structure Apart (lo hi : ι → ℕ) (l : List ι) : Prop where
  ordered : l.Pairwise fun a b => hi a ≤ lo b
  proper : ∀ a ∈ l, lo a < hi a

/-- The first element that is greater than `p`. -/
def upper (hi : ι → ℕ) (p : ℕ) (l : List ι) : Option ι := l.find? fun a => decide (p < hi a)

/-- The insertion into the ordered set. -/
def insert (hi : ι → ℕ) (x : ι) (l : List ι) : List ι :=
  l.orderedInsert (fun a b => hi a ≤ hi b) x

@[simp] lemma mem_insert : a ∈ insert hi x l ↔ a = x ∨ a ∈ l := mem_orderedInsert _

namespace Apart

lemma nil : Apart lo hi [] := ⟨.nil, nofun⟩

lemma sublist {l' : List ι} (h : Apart lo hi l) (hsub : l'.Sublist l) : Apart lo hi l' :=
  ⟨h.ordered.sublist hsub, fun a ha => h.proper a (hsub.subset ha)⟩

lemma tail (h : Apart lo hi (a :: l)) : Apart lo hi l := h.sublist (sublist_cons_self a l)

lemma head_le (h : Apart lo hi (x :: l)) : ∀ a ∈ l, hi x ≤ lo a :=
  (pairwise_cons.1 h.ordered).1

variable (h : Apart lo hi l)
include h

lemma cons (hx : lo x < hi x) (hle : ∀ a ∈ l, hi x ≤ lo a) : Apart lo hi (x :: l) :=
  ⟨pairwise_cons.2 ⟨hle, h.ordered⟩, forall_mem_cons.2 ⟨hx, h.proper⟩⟩

lemma disjoint : l.Pairwise fun a b => Disjoint (Set.Ico (lo a) (hi a)) (Set.Ico (lo b) (hi b)) :=
  h.ordered.imp fun hle => Set.Ico_disjoint_Ico.2 (by omega)

/-- The range around a point is the first one that ends after it, and there is none if the
first one that ends after the point starts after it as well. -/
lemma upper_eq_some_iff (p : ℕ) (a : ι) :
    upper hi p l = some a ∧ lo a ≤ p ↔ a ∈ l ∧ lo a ≤ p ∧ p < hi a := by
  induction l with
  | nil => simp [upper]
  | cons x l ih =>
    rw [upper, find?_cons]
    by_cases hx : p < hi x
    · -- a later range starts after this one has ended
      have hlater : a ∈ l → ¬ lo a ≤ p := fun ha => by
        have := h.head_le a ha
        omega
      simp only [hx, decide_true, Option.some.injEq, mem_cons]
      constructor
      · rintro ⟨rfl, hle⟩
        exact ⟨.inl rfl, hle, hx⟩
      · rintro ⟨rfl | ha, hle, -⟩
        · exact ⟨rfl, hle⟩
        · exact absurd hle (hlater ha)
    · simp only [hx, decide_false, mem_cons]
      refine (ih h.tail).trans ⟨fun ⟨ha, hp⟩ => ⟨.inr ha, hp⟩, ?_⟩
      rintro ⟨rfl | ha, hp⟩
      · exact absurd hp.2 hx
      · exact ⟨ha, hp⟩

lemma mem_eraseP (hx : x ∈ l) : a ∈ l.eraseP (fun y => decide (hi y = hi x)) ↔ a ∈ l ∧ a ≠ x := by
  obtain ⟨y, before, after, hbefore, hy, rfl, herase⟩ :=
    exists_of_eraseP (p := fun y => decide (hi y = hi x)) hx (by simp)
  have hafter : ∀ b ∈ after, hi b ≠ hi x := by
    intro b hb
    have hlt : hi y ≤ lo b := (h.sublist (sublist_append_right before _)).head_le b hb
    have := h.proper b (by simp [hb])
    simp only [decide_eq_true_eq] at hy
    omega
  obtain rfl : x = y := by
    simp only [decide_eq_true_eq] at hbefore
    rcases mem_append.1 hx with hx | hx
    · exact absurd rfl (hbefore x hx)
    · exact (mem_cons.1 hx).resolve_right fun hx => hafter x hx rfl
  rw [herase]
  by_cases hax : a = x
  · subst hax
    simpa using ⟨fun ha => by simpa using hbefore a ha, fun ha => hafter a ha rfl⟩
  · simp [hax]

lemma insert (hx : lo x < hi x) (hfree : ∀ a ∈ l, hi a ≤ lo x ∨ hi x ≤ lo a) :
    Apart lo hi (Extents.insert hi x l) := by
  induction l with
  | nil => exact nil.cons hx nofun
  | cons b l ih =>
    rw [Extents.insert, orderedInsert_cons]
    have hb := h.proper b mem_cons_self
    have htail : ∀ a ∈ l, hi a ≤ lo x ∨ hi x ≤ lo a :=
      fun a ha => hfree a (mem_cons_of_mem b ha)
    split
    next hle =>
      have hbefore : hi x ≤ lo b := by
        rcases hfree b mem_cons_self with hafter | hbefore
        · omega
        · exact hbefore
      refine h.cons hx fun a ha => ?_
      rcases mem_cons.1 ha with rfl | ha
      · exact hbefore
      · have := h.head_le a ha
        omega
    next hgt =>
      refine (ih h.tail htail).cons hb fun a ha => ?_
      rcases mem_insert.1 ha with rfl | ha
      · rcases hfree b mem_cons_self with hafter | hbefore <;> omega
      · exact h.head_le a ha

end Apart

lemma insert_of_forall_lt (h : ∀ a ∈ l, hi a < hi x) : insert hi x l = l ++ [x] := by
  induction l with
  | nil => rfl
  | cons b l ih =>
    have hb : ¬ hi x ≤ hi b := not_le.2 (h b mem_cons_self)
    rw [insert, orderedInsert_cons, if_neg hb, cons_append]
    exact congrArg (b :: ·) (ih fun a ha => h a (mem_cons_of_mem b ha))

/-- Ranges that are apart stay in their order when they are inserted one after the other. -/
lemma Apart.foldl_insert {acc : List ι} (h : Apart lo hi (acc ++ l)) :
    l.foldl (fun acc x => Extents.insert hi x acc) acc = acc ++ l := by
  induction l generalizing acc with
  | nil => simp
  | cons x l ih =>
    have hlt : ∀ a ∈ acc, hi a < hi x := fun a ha => by
      have hle : hi a ≤ lo x := (pairwise_append.1 h.ordered).2.2 a ha x mem_cons_self
      have hx := h.proper x (by simp)
      omega
    rw [foldl_cons, insert_of_forall_lt hlt]
    have happ : acc ++ [x] ++ l = acc ++ x :: l := by simp
    rw [ih (by rw [happ]; exact h), happ]

end Extents
