import Mathlib

/-!
# Quotas

Several holders share a few counters.  A holder that wants an amount of everything reserves
one counter after the other; when one of them would pass its limit, it gives back what it has
and fails.  A holder that is done gives back one counter after the other.  Every access to a
counter is one atomic step, and the holders run in any order.

The counters are words.  They are *balanced* when each of them is, as a number, the sum of
what the holders have, and within its limit.  A step of a task keeps them balanced, so no
release ever goes below zero.
-/

namespace Quota

open Function

universe u v w

variable {κ : Type u} {ι : Type v} {α : Type w}

/-- Add an amount to a counter, unless that passes the limit. -/
def reserve (counter : BitVec 64) (amount limit : ℕ) : Option (BitVec 64) :=
  if limit < amount then none
  else if limit - amount < counter.toNat then none
  else some (counter + BitVec.ofNat 64 amount)

/-- A holder in the middle of something.  `held` are the counters it has its amount of. -/
inductive Task (κ : Type u) (α : Type w) where
  /-- Reserving, in order to do `goal` when there is nothing left to do. -/
  | reserving (amount : κ → ℕ) (held todo : List κ) (goal : α)
  | releasing (amount : κ → ℕ) (held : List κ)

namespace Task

/-- Release what is held, if anything is. -/
def giveBack (amount : κ → ℕ) : List κ → Option (Task κ α)
  | [] => none
  | k :: held => some (.releasing amount (k :: held))

variable [DecidableEq κ]

/-- The next step: the counters after it, and the task, unless it is over.  What was reserved
last is released first. -/
def next (limit : κ → ℕ) (counter : κ → BitVec 64) : Task κ α → (κ → BitVec 64) × Option (Task κ α)
  | .reserving amount held (k :: todo) goal =>
    match reserve (counter k) (amount k) (limit k) with
    | some n => (update counter k n, some (.reserving amount (k :: held) todo goal))
    | none => (counter, giveBack amount held)
  | .releasing amount (k :: held) =>
    (update counter k (counter k - BitVec.ofNat 64 (amount k)), giveBack amount held)
  | t => (counter, some t)

/-- What a task has of a counter. -/
def weight : Option (Task κ α) → κ → ℕ
  | some (.reserving amount held _ _) => fun k => held.count k * amount k
  | some (.releasing amount held) => fun k => held.count k * amount k
  | none => fun _ => 0

@[simp] lemma weight_none (k : κ) : weight (none : Option (Task κ α)) k = 0 := rfl

@[simp] lemma weight_giveBack (amount : κ → ℕ) (held : List κ) (k : κ) :
    weight (giveBack amount held : Option (Task κ α)) k = held.count k * amount k := by
  cases held with
  | nil => simp [giveBack]
  | cons k' held => rfl

end Task

/-! ## Balance -/

/-- What the holders have of a counter. -/
def total (holders : List ι) (weight : ι → κ → ℕ) (k : κ) : ℕ :=
  (holders.map fun i => weight i k).sum

/-- Every counter is the sum of what the holders have, and within its limit. -/
structure Balanced (limit : κ → ℕ) (counter : κ → BitVec 64) (holders : List ι)
    (weight : ι → κ → ℕ) : Prop where
  eq : ∀ k, (counter k).toNat = total holders weight k
  le : ∀ k, total holders weight k ≤ limit k

section Totals

variable {holders : List ι} {weight weight' : ι → κ → ℕ} {i : ι} {k : κ}

lemma total_congr (h : ∀ i ∈ holders, weight' i k = weight i k) :
    total holders weight' k = total holders weight k := by
  rw [total, total, List.map_congr_left h]

lemma total_change (hnodup : holders.Nodup) (hmem : i ∈ holders)
    (h : ∀ j ∈ holders, j ≠ i → weight' j k = weight j k) :
    total holders weight' k + weight i k = total holders weight k + weight' i k := by
  classical
  have hrest : total (holders.erase i) weight' k = total (holders.erase i) weight k :=
    total_congr fun j hj => h j (List.mem_of_mem_erase hj) (hnodup.mem_erase_iff.1 hj).1
  have hsplit : ∀ w : ι → κ → ℕ, total holders w k = w i k + total (holders.erase i) w k :=
    fun w => ((List.perm_cons_erase hmem).map fun j => w j k).sum_eq
  rw [hsplit, hsplit, hrest]
  omega

end Totals

namespace Balanced

variable {limit : κ → ℕ} {counter : κ → BitVec 64} {holders holders' : List ι}
  {weight weight' : ι → κ → ℕ} {i : ι}

lemma congr (h : Balanced limit counter holders weight)
    (hweight : ∀ i ∈ holders, ∀ k, weight' i k = weight i k) :
    Balanced limit counter holders weight' where
  eq := fun k => (h.eq k).trans (total_congr fun i hi => hweight i hi k).symm
  le := fun k => (total_congr fun i hi => hweight i hi k).trans_le (h.le k)

lemma perm (h : Balanced limit counter holders weight) (hperm : holders.Perm holders') :
    Balanced limit counter holders' weight := by
  have htotal : ∀ k, total holders' weight k = total holders weight k :=
    fun k => ((hperm.map _).sum_eq).symm
  exact ⟨fun k => (h.eq k).trans (htotal k).symm, fun k => (htotal k).trans_le (h.le k)⟩

lemma cons_iff (hweight : ∀ k, weight i k = 0) :
    Balanced limit counter (i :: holders) weight ↔ Balanced limit counter holders weight := by
  have htotal : ∀ k, total (i :: holders) weight k = total holders weight k := by
    intro k
    simp [total, hweight k]
  exact ⟨fun h => ⟨fun k => (h.eq k).trans (htotal k), fun k => (htotal k).symm.trans_le (h.le k)⟩,
    fun h => ⟨fun k => (h.eq k).trans (htotal k).symm, fun k => (htotal k).trans_le (h.le k)⟩⟩

variable [DecidableEq κ]

variable {amount : ℕ} {k : κ}

variable (h : Balanced limit counter holders weight) (hlimit : ∀ k, limit k < 2 ^ 64)
  (hnodup : holders.Nodup) (hmem : i ∈ holders)
include h hlimit hnodup hmem

lemma reserve {n : BitVec 64} (hreserve : Quota.reserve (counter k) amount (limit k) = some n)
    (hother : ∀ j ∈ holders, j ≠ i → ∀ k', weight' j k' = weight j k')
    (hself : ∀ k', weight' i k' = weight i k' + if k' = k then amount else 0) :
    Balanced limit (update counter k n) holders weight' := by
  have hfits : amount ≤ limit k ∧ (counter k).toNat ≤ limit k - amount ∧
      n = counter k + BitVec.ofNat 64 amount := by
    rw [Quota.reserve] at hreserve
    split_ifs at hreserve with hbig hfull
    exact ⟨by omega, by omega, (Option.some.inj hreserve).symm⟩
  have htotal : ∀ k', total holders weight' k' =
      total holders weight k' + if k' = k then amount else 0 := by
    intro k'
    have hchange := total_change (k := k') hnodup hmem fun j hj hne => hother j hj hne k'
    have hi := hself k'
    omega
  have hk := h.eq k
  have hlimitk := hlimit k
  refine ⟨fun k' => ?_, fun k' => ?_⟩
  · rw [htotal k']
    by_cases hkk : k' = k
    · subst hkk
      rw [update_self, if_pos rfl, hfits.2.2, BitVec.toNat_add, BitVec.toNat_ofNat,
        Nat.mod_eq_of_lt (show amount < 2 ^ 64 by omega), Nat.mod_eq_of_lt (by omega), hk]
    · rw [update_of_ne hkk, if_neg hkk, h.eq k', Nat.add_zero]
  · rw [htotal k']
    by_cases hkk : k' = k
    · subst hkk
      rw [if_pos rfl]
      omega
    · rw [if_neg hkk, Nat.add_zero]
      exact h.le k'

lemma release (hother : ∀ j ∈ holders, j ≠ i → ∀ k', weight' j k' = weight j k')
    (hself : ∀ k', weight i k' = weight' i k' + if k' = k then amount else 0) :
    Balanced limit (update counter k (counter k - BitVec.ofNat 64 amount)) holders
      weight' := by
  have htotal : ∀ k', total holders weight k' =
      total holders weight' k' + if k' = k then amount else 0 := by
    intro k'
    have hchange := total_change (k := k') hnodup hmem fun j hj hne => hother j hj hne k'
    have hi := hself k'
    omega
  have hk := h.eq k
  have hle := h.le k
  have hlimitk := hlimit k
  refine ⟨fun k' => ?_, fun k' => ?_⟩
  · by_cases hkk : k' = k
    · subst hkk
      have htk := htotal k'
      rw [if_pos rfl] at htk
      have hamount : (BitVec.ofNat 64 amount).toNat = amount := by
        rw [BitVec.toNat_ofNat, Nat.mod_eq_of_lt (by omega)]
      rw [update_self, BitVec.toNat_sub_of_le (by rw [BitVec.le_def]; omega), hamount]
      omega
    · have htk := htotal k'
      rw [if_neg hkk, Nat.add_zero] at htk
      rw [update_of_ne hkk, h.eq k', htk]
  · have htk := htotal k'
    have hk' := h.le k'
    omega

/-- **A task keeps the balance.**  `base` is what its holder has apart from the task. -/
theorem next {t : Task κ α} {base : κ → ℕ}
    (hself : ∀ k, weight i k = base k + Task.weight (some t) k)
    (hother : ∀ j ∈ holders, j ≠ i → ∀ k, weight' j k = weight j k)
    (hself' : ∀ k, weight' i k = base k + Task.weight (t.next limit counter).2 k) :
    Balanced limit (t.next limit counter).1 holders weight' := by
  have hstay : (∀ k, Task.weight (t.next limit counter).2 k = Task.weight (some t) k) →
      Balanced limit counter holders weight' := by
    intro hsame
    refine h.congr fun j hj k => ?_
    by_cases hji : j = i
    · subst hji
      rw [hself', hsame, hself]
    · exact hother j hj hji k
  rcases t with ⟨amount, held, todo, goal⟩ | ⟨amount, held⟩
  · cases todo with
    | nil => exact hstay fun _ => rfl
    | cons k todo =>
      rw [Task.next] at hself' hstay ⊢
      cases hreserve : Quota.reserve (counter k) (amount k) (limit k) with
      | some n =>
        rw [hreserve] at hself'
        refine h.reserve hlimit hnodup hmem hreserve hother fun k' => ?_
        rw [hself', hself]
        by_cases hk : k' = k
        · subst hk
          simp [Task.weight, Nat.succ_mul, Nat.add_assoc]
        · simp [Task.weight, hk, Ne.symm hk]
      | none =>
        rw [hreserve] at hstay
        exact hstay fun k' => Task.weight_giveBack amount held k'
  · cases held with
    | nil => exact hstay fun _ => rfl
    | cons k held =>
      refine h.release hlimit hnodup hmem hother fun k' => ?_
      rw [hself', hself, Task.next, Task.weight_giveBack]
      by_cases hk : k' = k
      · subst hk
        simp [Task.weight, Nat.succ_mul, Nat.add_assoc]
      · simp [Task.weight, hk, Ne.symm hk]

end Balanced

end Quota
