import Mathlib

/-!
# Finite maps with a size

`AList` is Mathlib's list of key/value pairs with distinct keys; it can be iterated
and it computes.  This module fixes the value type and adds what a table with an
explicit element counter needs: how the size changes under each update, and a
filter.
-/

namespace Assoc

open List Option

universe u v
variable {κ : Type u} {α : Type v}

/-- A finite map from keys to values. -/
abbrev Map (κ : Type u) (α : Type v) := AList fun _ : κ => α

/-- The number of entries. -/
def size (m : Map κ α) : ℕ := m.keys.length

@[simp] lemma size_empty : size (∅ : Map κ α) = 0 := rfl

/-- The entries, as pairs, in iteration order. -/
def toPairs (m : Map κ α) : List (κ × α) := m.entries.map fun e => (e.1, e.2)

/-- The entries that meet `p`. -/
def filter (p : κ → α → Bool) (m : Map κ α) : Map κ α :=
  ⟨m.entries.filter fun e => p e.1 e.2, m.nodupKeys.sublist filter_sublist⟩

/-- The same keys, with values computed from the key and the old value. -/
def mapVal (f : κ → α → α) (m : Map κ α) : Map κ α where
  entries := m.entries.map fun e => ⟨e.1, f e.1 e.2⟩
  nodupKeys := by
    have hkeys : (m.entries.map fun e => (⟨e.1, f e.1 e.2⟩ : Sigma fun _ : κ => α)).keys
        = m.entries.keys := by
      simp [keys, Function.comp_def]
    rw [NodupKeys, hkeys]
    exact m.keys_nodup

/-! ## Sums over the entries -/

variable (f : α → ℕ)

/-- The sum of a weight over the entries. -/
def total (m : Map κ α) : ℕ := (m.entries.map fun e => f e.2).sum

@[simp] lemma total_empty : total f (∅ : Map κ α) = 0 := rfl

variable [DecidableEq κ]

variable {k : κ} {m : Map κ α} {ks : List κ} {ps : List (κ × α)} {a b : α}

/-- Erase a list of keys. -/
def eraseAll (ks : List κ) (m : Map κ α) : Map κ α := ks.foldl (fun m k => AList.erase k m) m

/-- Insert a list of entries. -/
def insertAll (ps : List (κ × α)) (m : Map κ α) : Map κ α :=
  ps.foldl (fun m p => AList.insert p.1 p.2 m) m

@[simp] lemma eraseAll_nil (m : Map κ α) : eraseAll [] m = m := rfl

lemma eraseAll_cons (k : κ) (ks : List κ) (m : Map κ α) :
    eraseAll (k :: ks) m = eraseAll ks (m.erase k) := rfl

@[simp] lemma insertAll_nil (m : Map κ α) : insertAll [] m = m := rfl

lemma insertAll_cons (p : κ × α) (ps : List (κ × α)) (m : Map κ α) :
    insertAll (p :: ps) m = insertAll ps (m.insert p.1 p.2) := rfl

lemma mem_eraseAll : k ∈ eraseAll ks m ↔ k ∉ ks ∧ k ∈ m := by
  induction ks generalizing m with
  | nil => simp
  | cons j ks ih =>
    rw [eraseAll_cons, ih, AList.mem_erase, mem_cons]
    tauto

lemma lookup_eraseAll_of_notMem (hk : k ∉ ks) (m : Map κ α) :
    (eraseAll ks m).lookup k = m.lookup k := by
  induction ks generalizing m with
  | nil => rfl
  | cons j ks ih =>
    rw [mem_cons, not_or] at hk
    rw [eraseAll_cons, ih hk.2, AList.lookup_erase_ne hk.1]

lemma mem_insertAll : k ∈ insertAll ps m ↔ k ∈ ps.map Prod.fst ∨ k ∈ m := by
  induction ps generalizing m with
  | nil => simp
  | cons p ps ih =>
    rw [insertAll_cons, ih, AList.mem_insert, map_cons, mem_cons]
    tauto

lemma lookup_insertAll_of_notMem (hk : k ∉ ps.map Prod.fst) (m : Map κ α) :
    (insertAll ps m).lookup k = m.lookup k := by
  induction ps generalizing m with
  | nil => rfl
  | cons p ps ih =>
    rw [map_cons, mem_cons, not_or] at hk
    rw [insertAll_cons, ih hk.2, AList.lookup_insert_ne hk.1]

lemma lookup_insertAll_of_mem (hnodup : (ps.map Prod.fst).Nodup) (hmem : (k, a) ∈ ps)
    (m : Map κ α) :
    (insertAll ps m).lookup k = some a := by
  induction ps generalizing m with
  | nil => simp at hmem
  | cons p ps ih =>
    obtain ⟨hp, hps⟩ := nodup_cons.1 hnodup
    rw [insertAll_cons]
    rcases mem_cons.1 hmem with rfl | hmem
    · rw [lookup_insertAll_of_notMem hp, AList.lookup_insert]
    · exact ih hps hmem _

lemma mem_of_lookup (h : m.lookup k = some a) : k ∈ m := AList.lookup_isSome.1 (by simp [h])

lemma exists_lookup_of_mem (h : k ∈ m) : ∃ a, m.lookup k = some a :=
  isSome_iff_exists.1 (AList.lookup_isSome.2 h)

/-- A filter keeps exactly the entries that meet the predicate. -/
lemma lookup_filter (p : κ → α → Bool) (m : Map κ α) (k : κ) :
    (filter p m).lookup k = (m.lookup k).filter (p k) := by
  have hmem : ∀ a, (filter p m).lookup k = some a ↔ m.lookup k = some a ∧ p k a = true := by
    intro a
    rw [← mem_def, ← mem_def, AList.mem_lookup_iff, AList.mem_lookup_iff]
    simp [filter]
  refine ext fun a => ?_
  rw [hmem]
  simp [filter_eq_some_iff]

lemma lookup_mapVal (f : κ → α → α) (m : Map κ α) (k : κ) :
    (mapVal f m).lookup k = (m.lookup k).map (f k) := by
  refine ext fun a => ?_
  rw [← mem_def, AList.mem_lookup_iff]
  constructor
  · intro h
    obtain ⟨⟨k', b⟩, he, heq⟩ := List.mem_map.1 h
    obtain ⟨rfl, hb⟩ := Sigma.mk.inj heq
    have hlook : m.lookup k' = some b := AList.mem_lookup_iff.2 he
    simpa [hlook] using eq_of_heq hb
  · intro h
    obtain ⟨b, hb, rfl⟩ := map_eq_some_iff.1 h
    exact List.mem_map.2 ⟨⟨k, b⟩, AList.mem_lookup_iff.1 hb, rfl⟩

omit [DecidableEq κ] in
lemma sum_map_toPairs (m : Map κ α) : ((toPairs m).map fun p => f p.2).sum = total f m := by
  rw [toPairs, List.map_map]
  rfl

lemma total_erase (m : Map κ α) (k : κ) :
    total f (m.erase k) + (m.lookup k).elim 0 f = total f m := by
  rcases h : m.lookup k with _ | b
  · rw [total, AList.erase]
    dsimp only
    rw [kerase_of_notMem_keys (AList.lookup_eq_none.1 h)]
    rfl
  obtain ⟨c, l₁, l₂, -, hl, hk⟩ := exists_of_kerase (mem_of_lookup h)
  have hc : m.lookup k = some c := AList.mem_lookup_iff.2 (by simp [hl])
  obtain rfl : b = c := Option.some.inj (h.symm.trans hc)
  have he : (m.erase k).entries = l₁ ++ l₂ := hk
  simp only [total, he, hl, map_append, map_cons, sum_append, sum_cons, elim_some]
  omega

lemma total_erase_of_lookup (h : m.lookup k = some b) (f : α → ℕ) :
    total f (m.erase k) + f b = total f m := by
  rw [← total_erase f m k, h, elim_some]

lemma total_erase_le (m : Map κ α) (k : κ) : total f (m.erase k) ≤ total f m := by
  have hsub : (m.erase k).entries.Sublist m.entries := kerase_sublist k m.entries
  exact (hsub.map fun e => f e.2).sum_le_sum (by simp)

lemma total_insert (m : Map κ α) (k : κ) (a : α) :
    total f (m.insert k a) = f a + total f (m.erase k) := by
  simp [total, AList.entries_insert, AList.erase]

lemma total_insert_of_notMem (h : k ∉ m) (f : α → ℕ) (a : α) :
    total f (m.insert k a) = total f m + f a := by
  rw [total, AList.entries_insert_of_notMem h, map_cons, sum_cons, Nat.add_comm]
  rfl

lemma total_insert_le (m : Map κ α) (k : κ) (a : α) : total f (m.insert k a) ≤ total f m + f a := by
  have h := total_erase_le f m k
  rw [total_insert]
  omega

lemma total_insert_of_lookup (h : m.lookup k = some b) (f : α → ℕ) (a : α) :
    total f (m.insert k a) + f b = total f m + f a := by
  have he := total_erase_of_lookup h f
  rw [total_insert]
  omega

lemma total_eraseAll_le (ks : List κ) (m : Map κ α) : total f (eraseAll ks m) ≤ total f m := by
  induction ks generalizing m with
  | nil => exact le_rfl
  | cons k ks ih => exact (ih (m.erase k)).trans (total_erase_le f m k)

lemma total_eraseAll_of_zero {f : α → ℕ} (h : ∀ k ∈ ks, ∀ a, m.lookup k = some a → f a = 0) :
    total f (eraseAll ks m) = total f m := by
  induction ks generalizing m with
  | nil => rfl
  | cons k ks ih =>
    have hrest : ∀ k' ∈ ks, ∀ a, (m.erase k).lookup k' = some a → f a = 0 := by
      intro k' hk' a ha
      have hne : k' ≠ k := by
        rintro rfl
        simp at ha
      rw [AList.lookup_erase_ne hne] at ha
      exact h k' (mem_cons_of_mem _ hk') a ha
    rw [eraseAll_cons, ih hrest, ← total_erase f m k]
    rcases ha : m.lookup k with _ | a
    · rfl
    · rw [elim_some, h k mem_cons_self a ha, Nat.add_zero]

/-- The values under the keys go, and `g` is what they had. -/
lemma total_eraseAll {g : κ → ℕ} (hnodup : ks.Nodup)
    (hg : ∀ k ∈ ks, (m.lookup k).elim 0 f = g k) :
    total f (eraseAll ks m) + (ks.map g).sum = total f m := by
  induction ks generalizing m with
  | nil => rfl
  | cons k ks ih =>
    obtain ⟨hk, hks⟩ := nodup_cons.1 hnodup
    have hrest := ih (m := m.erase k) hks fun j hj => by
      have hjk : j ≠ k := fun heq => hk (heq ▸ hj)
      rw [AList.lookup_erase_ne hjk]
      exact hg j (mem_cons_of_mem _ hj)
    rw [← total_erase f m k, hg k mem_cons_self, ← hrest, eraseAll_cons, map_cons, sum_cons]
    omega

lemma total_insertAll (hnodup : (ps.map Prod.fst).Nodup) (hnew : ∀ k ∈ ps.map Prod.fst, k ∉ m) :
    total f (insertAll ps m) = total f m + (ps.map fun p => f p.2).sum := by
  induction ps generalizing m with
  | nil => rfl
  | cons p ps ih =>
    obtain ⟨hp, hps⟩ := nodup_cons.1 hnodup
    have hone := total_insert_of_notMem (hnew p.1 mem_cons_self) f p.2
    have hrest := ih (m := m.insert p.1 p.2) hps (by
      intro k hk hmem
      rcases (AList.mem_insert m).1 hmem with rfl | hmem
      · exact hp hk
      · exact hnew k (mem_cons_of_mem _ hk) hmem)
    rw [insertAll_cons, map_cons, sum_cons]
    omega

lemma total_union_le (m m' : Map κ α) : total f (m ∪ m') ≤ total f m + total f m' := by
  have hlist : ∀ l l' : List (Sigma fun _ : κ => α), ((kunion l l').map fun e => f e.2).sum
        ≤ (l.map fun e => f e.2).sum + (l'.map fun e => f e.2).sum := by
    intro l
    induction l with
    | nil => simp
    | cons e l ih =>
      intro l'
      have hrest := ih (kerase e.1 l')
      have herase : ((kerase e.1 l').map fun e => f e.2).sum ≤ (l'.map fun e => f e.2).sum :=
        ((kerase_sublist e.1 l').map fun e => f e.2).sum_le_sum (by simp)
      simp only [kunion_cons, map_cons, sum_cons]
      omega
  exact hlist m.entries m'.entries

/-! ## The size -/

omit [DecidableEq κ] in
lemma size_eq_total (m : Map κ α) : size m = total (fun _ => 1) m := by
  simp [size, total, AList.keys, keys]

lemma size_insert_of_notMem (h : k ∉ m) (a : α) : size (m.insert k a) = size m + 1 := by
  rw [size_eq_total, size_eq_total, total_insert_of_notMem h]

lemma size_insert_of_mem (h : k ∈ m) (a : α) : size (m.insert k a) = size m := by
  obtain ⟨b, hb⟩ := exists_lookup_of_mem h
  rw [size_eq_total, size_eq_total]
  exact Nat.add_right_cancel (total_insert_of_lookup hb (fun _ => 1) a)

lemma size_erase_of_mem (h : k ∈ m) : size (m.erase k) + 1 = size m := by
  obtain ⟨b, hb⟩ := exists_lookup_of_mem h
  rw [size_eq_total, size_eq_total, ← total_erase_of_lookup hb]

lemma size_eraseAll (hnodup : ks.Nodup) (hmem : ∀ k ∈ ks, k ∈ m) :
    size (eraseAll ks m) + ks.length = size m := by
  have h := total_eraseAll (m := m) (fun _ => 1) (g := fun _ => 1) hnodup fun k hk => by
    obtain ⟨a, ha⟩ := exists_lookup_of_mem (hmem k hk)
    rw [ha, elim_some]
  simpa [size_eq_total] using h

lemma size_insertAll (hnodup : (ps.map Prod.fst).Nodup) (hnew : ∀ k ∈ ps.map Prod.fst, k ∉ m) :
    size (insertAll ps m) = size m + ps.length := by
  simpa [size_eq_total] using total_insertAll (fun _ => 1) hnodup hnew

end Assoc
