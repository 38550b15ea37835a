import Naos.Lib.Outcome
import Naos.Lib.Sharing
import Naos.Mm.PageTable

/-!
# The accounts of the page tables

The tables of all address spaces are a graph of four levels, whose links are the present
entries.  Two numbers are kept beside it: the zone counts the references to a frame, and a
table counts its present entries in `page_table_counter`.  Both are right when they equal what
the graph says, and every operation on page tables changes one entry at a time.

`unmap` forgets the counter of a first-level table, so the accounts have a parameter: from
which level of tables on the counters are right.
-/

namespace Naos.Mm

open Sharing Outcome Function List Option

namespace Paging

variable {m m' : Paging} {b k g p t i f : ℕ}

/-! ## The tables as a graph -/

def graph (m : Paging) : Sharing.Graph ℕ ℕ where
  root := m.tables
  link t i :=
    if i < slots ∧ (m.entries t i).flags.present then some (m.entries t i).frame else none

lemma graph_link (m : Paging) (t i : ℕ) : m.graph.link t i =
      if i < slots ∧ (m.entries t i).flags.present then some (m.entries t i).frame else none :=
  rfl

lemma link_of_present (hi : i < slots) (hpresent : (m.entries t i).flags.present) :
    m.graph.link t i = some (m.entries t i).frame := if_pos ⟨hi, hpresent⟩

lemma link_eq_some : m.graph.link t i = some f ↔
      i < slots ∧ (m.entries t i).flags.present = true ∧ (m.entries t i).frame = f := by
  rw [graph_link]
  split <;> simp_all

lemma link_eq_none (hi : i < slots) :
    m.graph.link t i = none ↔ (m.entries t i).flags.present = false := by
  rw [graph_link]
  simp [hi]

lemma isSome_link (hi : i < slots) : (m.graph.link t i).isSome = (m.entries t i).flags.present := by
  rw [graph_link]
  cases (m.entries t i).flags.present <;> simp [hi]

lemma entries_setEntry (m : Paging) (t i : ℕ) (e : Entry) (x j : ℕ) :
    (m.setEntry t i e).entries x j = if x = t ∧ j = i then e else m.entries x j := by
  simp only [setEntry, update_apply]
  by_cases hx : x = t
  · subst hx
    by_cases hj : j = i <;> simp [hj]
  · simp [hx]

lemma graph_setEntry (m : Paging) (t i : ℕ) (e : Entry) (x j : ℕ) :
    (m.setEntry t i e).graph.link x j =
      if x = t ∧ j = i then
        if i < slots ∧ e.flags.present then some e.frame else none
      else m.graph.link x j := by
  simp only [graph, setEntry, update_apply]
  by_cases hx : x = t
  · subst hx
    by_cases hj : j = i
    · subst hj
      simp
    · simp [hj]
  · simp [hx]

lemma graph_setEntry_of_present (hi : i < slots) {e : Entry} (he : e.flags.present) (x j : ℕ) :
    (m.setEntry t i e).graph.link x j =
      if x = t ∧ j = i then some e.frame else m.graph.link x j := by
  simp only [graph_setEntry, hi, he, and_self, if_true]

lemma graph_eq (htables : m'.tables = m.tables)
    (hlink : ∀ t i, m'.graph.link t i = m.graph.link t i) : m'.graph = m.graph :=
  Sharing.Graph.ext htables (funext fun t => funext (hlink t))

/-! ## Counting the present entries -/

lemma count_eq (m : Paging) (t : ℕ) :
    m.count t = (range slots).countP fun i => (m.graph.link t i).isSome := by
  refine countP_congr fun i hi => ?_
  rw [isSome_link (mem_range.1 hi)]

lemma count_congr {t' : ℕ} (h : ∀ i, m'.graph.link t' i = m.graph.link t i) :
    m'.count t' = m.count t := by
  rw [count_eq, count_eq]
  simp only [h]

lemma count_eq_zero : m.count t = 0 ↔ ∀ i, m.graph.link t i = none := by
  rw [count_eq, countP_eq_zero]
  constructor
  · intro h i
    by_cases hi : i < slots
    · simpa using h i (mem_range.2 hi)
    · rw [graph_link]
      exact if_neg fun hboth => hi hboth.1
  · intro h i _
    rw [h i]
    simp

lemma countP_change {l : List ℕ} {q q' : ℕ → Bool} (hl : l.Nodup) (hi : i ∈ l)
    (h : ∀ j, j ≠ i → q' j = q j) :
    l.countP q' + (q i).toNat = l.countP q + (q' i).toNat := by
  have hperm := perm_cons_erase hi
  have hrest : (l.erase i).countP q' = (l.erase i).countP q := by
    refine countP_congr fun j hj => ?_
    rw [h j (hl.mem_erase_iff.1 hj).1]
  rw [hperm.countP_eq, hperm.countP_eq, countP_cons, countP_cons, hrest]
  cases q i <;> cases q' i <;> simp

lemma count_change (hi : i < slots) (h : ∀ i', i' ≠ i → m'.graph.link t i' = m.graph.link t i') :
    m'.count t + (m.graph.link t i).isSome.toNat =
      m.count t + (m'.graph.link t i).isSome.toNat := by
  rw [count_eq, count_eq]
  refine @countP_change i _ (fun i => (m.graph.link t i).isSome)
    (fun i => (m'.graph.link t i).isSome) nodup_range (mem_range.2 hi) fun j hj => ?_
  rw [h j hj]

/-! ## The accounts -/

/-- **The accounts are right** from the level `b` of tables on: the reference counts are
those of the entries, and a table counts its present entries. -/
structure Accounts (m : Paging) (b : ℕ) : Prop where
  counted : m.graph.Counted 4 m.refs
  counter : ∀ k < 4, b ≤ k → ∀ t ∈ m.graph.tier k, m.counter t = m.count t

lemma mem_tier_zero (htables : m'.tables = m.tables) (hg : g ∈ m.graph.tier 0) :
    g ∈ m'.graph.tier 0 := hg.imp fun r hr => (congrFun htables r).trans hr

lemma rewires (htables : m'.tables = m.tables) (hmem : g ∈ m.graph.tier k) (hk : k < 4)
    (hkeep : ∀ j ≤ 4, ∀ x ∈ m.graph.tier j, ∀ i', (x ≠ g ∨ i' ≠ i) →
      m'.graph.link x i' = m.graph.link x i') :
    m.graph.Rewires m'.graph 4 k g i := ⟨htables, hmem, hk, hkeep⟩

namespace Accounts

lemma mono (h : m.Accounts b) {b' : ℕ} (hb : b ≤ b') : m.Accounts b' :=
  ⟨h.counted, fun k hk hbk => h.counter k hk (hb.trans hbk)⟩

lemma notMem_tier (h : m.Accounts b) (hp : m.refs p = 0) : ∀ j ≤ 4, p ∉ m.graph.tier j :=
  fun _ hj hmem => h.counted.pos hj hmem hp

lemma ne_of_mem (h : m.Accounts b) (hp : m.refs p = 0) {j x : ℕ} (hj : j ≤ 4)
    (hx : x ∈ m.graph.tier j) : x ≠ p := fun heq => h.notMem_tier hp j hj (heq ▸ hx)

lemma congr (h : m.Accounts b) (htables : m'.tables = m.tables)
    (hlink : ∀ t i, m'.graph.link t i = m.graph.link t i) (hrefs : m'.refs = m.refs)
    (hcounter : m'.counter = m.counter) : m'.Accounts b := by
  have hgraph := graph_eq htables hlink
  refine ⟨?_, ?_⟩
  · rw [hgraph, hrefs]
    exact h.counted
  · intro k hk hbk t ht
    rw [hgraph] at ht
    rw [hcounter, count_congr (hlink t)]
    exact h.counter k hk hbk t ht

lemma rewire (h : m.Accounts b) (hr : m.graph.Rewires m'.graph 4 k g i) (hi : i < slots)
    (hnext : k + 2 ≤ 4 → m'.graph.tier (k + 2) = m.graph.tier (k + 2))
    (hcounted : m'.graph.Counted 4 m'.refs)
    (hself : b ≤ k → m'.counter g + (m.graph.link g i).isSome.toNat =
      m.counter g + (m'.graph.link g i).isSome.toNat)
    (hnew : k + 1 < 4 → ∀ f, m'.graph.link g i = some f → f ∉ m.graph.tier (k + 1) →
      m'.counter f = m'.count f)
    (hother : ∀ j < 4, ∀ x ∈ m.graph.tier j, x ≠ g → m'.counter x = m.counter x) :
    m'.Accounts b := by
  refine ⟨hcounted, ?_⟩
  intro j hj hbj t ht
  have hmem' : g ∈ m'.graph.tier k := by
    rw [hr.tier_le h.counted k le_rfl]
    exact hr.mem
  by_cases htg : t = g
  · subst htg
    obtain rfl : j = k := hcounted.apart j hj.le k hr.lt.le t ht hmem'
    have hchange := count_change hi fun i' hi' => hr.keep j hj.le t hr.mem i' (.inr hi')
    have hbefore := h.counter j hj hbj t hr.mem
    have hcounter := hself hbj
    omega
  · by_cases hold : t ∈ m.graph.tier j
    · rw [hother j hj t hold htg, count_congr fun i' => hr.keep j hj.le t hold i' (.inl htg)]
      exact h.counter j hj hbj t hold
    · rcases eq_or_ne j (k + 1) with rfl | hne
      · rcases (hr.mem_tier_succ h.counted).1 ht with hlink | ⟨x, hx, i', -, hlink⟩
        · exact hnew hj t hlink hold
        · exact absurd (Sharing.Graph.tier_of_link hx hlink) hold
      · rw [hr.tier_ne h.counted hnext hj.le hne] at ht
        exact absurd ht hold

lemma relink (h : m.Accounts b) (hr : m.graph.Rewires m'.graph 4 k g i) (hi : i < slots)
    (hgone : k + 2 ≤ 4 → ∀ f, m.graph.link g i = some f → m.refs f = 1 →
      ∀ i', m.graph.link f i' = none)
    (hcome : k + 2 ≤ 4 → ∀ f, m'.graph.link g i = some f → f ∉ m.graph.tier (k + 1) →
      m'.counter f = 0 ∧ ∀ i', m'.graph.link f i' = none)
    (hnew : ∀ f, m'.graph.link g i = some f → ∀ j ≤ 4, f ∈ m.graph.tier j → j = k + 1)
    (hfresh : ∀ f, m'.graph.link g i = some f → f ∉ m.graph.tier (k + 1) → m'.refs f = 1)
    (hcount : ∀ f ∈ m.graph.tier (k + 1), m'.refs f + (if m.graph.link g i = some f then 1 else 0) =
        m.refs f + (if m'.graph.link g i = some f then 1 else 0))
    (hrefs : ∀ j ≤ 4, j ≠ k + 1 → ∀ f ∈ m.graph.tier j, m'.refs f = m.refs f)
    (hself : b ≤ k → m'.counter g + (m.graph.link g i).isSome.toNat =
      m.counter g + (m'.graph.link g i).isSome.toNat)
    (hother : ∀ j < 4, ∀ x ∈ m.graph.tier j, x ≠ g → m'.counter x = m.counter x) :
    m'.Accounts b := by
  have hbare := fun hle f hlink hf => (hcome hle f hlink hf).2
  refine h.rewire hr hi (hr.next_of_bare h.counted hgone hbare)
    (h.counted.relink hr hgone hbare hnew hfresh hcount hrefs) hself ?_ hother
  intro hlt f hlink hf
  obtain ⟨hzero, hnone⟩ := hcome hlt f hlink hf
  rw [hzero, eq_comm, count_eq_zero]
  exact hnone

/-- A frame that nothing names yet goes into an empty entry. -/
lemma attach (h : m.Accounts b) (hr : m.graph.Rewires m'.graph 4 k g i) (hi : i < slots)
    (hnone : m.graph.link g i = none) (hp : m.refs p = 0)
    (hlink : m'.graph.link g i = some p)
    (hbare : k + 2 ≤ 4 → m'.counter p = 0 ∧ ∀ i', m'.graph.link p i' = none)
    (hrefs : m'.refs = update m.refs p 1) (hself : m'.counter g = m.counter g + 1)
    (hother : ∀ x, x ≠ g → x ≠ p → m'.counter x = m.counter x) : m'.Accounts b := by
  have hout := h.notMem_tier hp
  have hsame : ∀ j ≤ 4, ∀ f ∈ m.graph.tier j, m'.refs f = m.refs f := by
    intro j hj f hf
    rw [hrefs, update_of_ne (h.ne_of_mem hp hj hf)]
  refine h.relink hr hi ?_ ?_ ?_ ?_ ?_ (fun j hj _ => hsame j hj) ?_ ?_
  · intro _ f hf
    rw [hnone] at hf
    cases hf
  · intro hle f hf _
    obtain rfl : p = f := some.inj (hlink.symm.trans hf)
    exact hbare hle
  · intro f hf j hj hmem
    obtain rfl : p = f := some.inj (hlink.symm.trans hf)
    exact absurd hmem (hout j hj)
  · intro f hf _
    obtain rfl : p = f := some.inj (hlink.symm.trans hf)
    rw [hrefs, update_self]
  · intro f hf
    have hne : p ≠ f := (h.ne_of_mem hp hr.lt hf).symm
    rw [hnone, hlink, hsame (k + 1) hr.lt f hf]
    simp [hne]
  · intro _
    rw [hnone, hlink, hself]
    rfl
  · intro j hj x hx hxg
    exact hother x hxg (h.ne_of_mem hp hj.le hx)

variable {c : ℕ}

/-- A page gives way to a new one. -/
lemma replace (h : m.Accounts b) (hr : m.graph.Rewires m'.graph 4 3 g i) (hi : i < slots)
    (hc : m.graph.link g i = some c) (hp : m.refs p = 0) (hlink : m'.graph.link g i = some p)
    (hrefs : m'.refs = update (update m.refs p 1) c (m.refs c - 1))
    (hcounter : m'.counter = m.counter) : m'.Accounts b := by
  have hctier : c ∈ m.graph.tier 4 := Sharing.Graph.tier_of_link hr.mem hc
  have hcpos := h.counted.pos le_rfl hctier
  have hcp : p ≠ c := (h.ne_of_mem hp le_rfl hctier).symm
  have hsame : ∀ j ≤ 4, ∀ f ∈ m.graph.tier j, f ≠ c → m'.refs f = m.refs f := by
    intro j hj f hf hfc
    rw [hrefs, update_of_ne hfc, update_of_ne (h.ne_of_mem hp hj hf)]
  refine h.relink hr hi (by omega) (by omega) ?_ ?_ ?_ ?_ ?_ ?_
  · intro f hf j hj hmem
    obtain rfl : p = f := some.inj (hlink.symm.trans hf)
    exact absurd hmem (h.notMem_tier hp j hj)
  · intro f hf _
    obtain rfl : p = f := some.inj (hlink.symm.trans hf)
    rw [hrefs, update_of_ne hcp, update_self]
  · intro f hf
    have hne : p ≠ f := (h.ne_of_mem hp le_rfl hf).symm
    rw [hc, hlink]
    by_cases hfc : f = c
    · subst hfc
      rw [hrefs, update_self]
      simp [hne]
      omega
    · rw [hsame 4 le_rfl f hf hfc]
      simp [hne, Ne.symm hfc]
  · intro j hj hne f hf
    refine hsame j hj f hf ?_
    rintro rfl
    exact hne (h.counted.apart j hj 4 le_rfl _ hf hctier)
  · intro _
    rw [hc, hlink, hcounter]
    rfl
  · intro j _ x _ _
    rw [hcounter]

/-- An entry is emptied. -/
lemma clear (h : m.Accounts b) (hr : m.graph.Rewires m'.graph 4 k g i) (hi : i < slots)
    (hc : m.graph.link g i = some c) (hlink : m'.graph.link g i = none)
    (hbare : k + 2 ≤ 4 → m.count c = 0) (hrefs : m'.refs = update m.refs c (m.refs c - 1))
    (hself : b ≤ k → m'.counter g = m.counter g - 1)
    (hother : ∀ x, x ≠ g → m'.counter x = m.counter x) : m'.Accounts b := by
  have hctier : c ∈ m.graph.tier (k + 1) := Sharing.Graph.tier_of_link hr.mem hc
  have hcpos := h.counted.pos hr.lt hctier
  have hsame : ∀ f, f ≠ c → m'.refs f = m.refs f := by
    intro f hfc
    rw [hrefs, update_of_ne hfc]
  have hnone : ∀ f, m'.graph.link g i ≠ some f := by simp [hlink]
  refine h.relink hr hi ?_ (fun _ f hf => absurd hf (hnone f)) (fun f hf => absurd hf (hnone f))
    (fun f hf => absurd hf (hnone f)) ?_ ?_ ?_ (fun _ _ x _ hx => hother x hx)
  · intro hle f hf _
    obtain rfl : c = f := some.inj (hc.symm.trans hf)
    exact count_eq_zero.1 (hbare hle)
  · intro f hf
    rw [hc, hlink]
    by_cases hfc : f = c
    · subst hfc
      rw [hrefs, update_self]
      simp
      omega
    · rw [hsame f hfc]
      simp [Ne.symm hfc]
  · intro j hj hne f hf
    refine hsame f ?_
    rintro rfl
    exact hne (h.counted.apart j hj (k + 1) hr.lt _ hf hctier)
  · intro hbk
    have hcount : m.count g ≠ 0 := by
      intro hzero
      rw [count_eq_zero.1 hzero i] at hc
      cases hc
    have hbefore := h.counter k hr.lt hbk g hr.mem
    rw [hself hbk, hc, hlink]
    simp
    omega

/-- An empty entry of a root gets a table that others name too. -/
lemma share (h : m.Accounts b) (hr : m.graph.Rewires m'.graph 4 0 g i) (hi : i < slots)
    (hnone : m.graph.link g i = none) (hctier : c ∈ m.graph.tier 1)
    (hlink : m'.graph.link g i = some c) (hrefs : m'.refs = update m.refs c (m.refs c + 1))
    (hself : m'.counter g = m.counter g + 1) (hother : ∀ x, x ≠ g → m'.counter x = m.counter x) :
    m'.Accounts b := by
  have hsame : ∀ f, f ≠ c → m'.refs f = m.refs f := by
    intro f hfc
    rw [hrefs, update_of_ne hfc]
  refine h.relink hr hi ?_ ?_ ?_ ?_ ?_ ?_ ?_ (fun _ _ x _ hx => hother x hx)
  · intro _ f hf
    rw [hnone] at hf
    cases hf
  · intro _ f hf hmem
    obtain rfl : c = f := some.inj (hlink.symm.trans hf)
    exact absurd hctier hmem
  · intro f hf j hj hmem
    obtain rfl : c = f := some.inj (hlink.symm.trans hf)
    exact h.counted.apart j hj 1 (by omega) c hmem hctier
  · intro f hf hmem
    obtain rfl : c = f := some.inj (hlink.symm.trans hf)
    exact absurd hctier hmem
  · intro f hf
    rw [hnone, hlink]
    by_cases hfc : f = c
    · subst hfc
      rw [hrefs, update_self]
      simp
    · rw [hsame f hfc]
      simp [Ne.symm hfc]
  · intro j hj hne f hf
    refine hsame f ?_
    rintro rfl
    exact hne (h.counted.apart j hj 1 (by omega) _ hf hctier)
  · intro _
    rw [hnone, hlink, hself]
    rfl

end Accounts

end Paging

end Naos.Mm
