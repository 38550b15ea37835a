import Naos.Mm.Map

/-!
# Removing pages

`unmap` clears the entry of a page and then gives back, from the last level up, every table
that has no entry left.  The counter of the first table is not decremented with its entry,
which is why the accounts of the first level survive only where the entry does.
-/

namespace Naos.Mm

open Sharing Outcome List Sharing.Graph

namespace Paging

variable {m m' : Paging} {b k g p t i f c n : ℕ}

/-! ## Clearing an entry -/

/-- The entry `i` of `g` is cleared, and its frame has one reference less. -/
def cleared (m : Paging) (g i c n : ℕ) : Paging :=
  ({ m with refs := Function.update m.refs c (m.refs c - 1) }.setFlags g i {}).setCounter g n

lemma link_cleared (x j : ℕ) : (m.cleared g i c n).graph.link x j =
      if x = g ∧ j = i then none else m.graph.link x j := by
  have hlink := graph_setEntry { m with refs := Function.update m.refs c (m.refs c - 1) } g i
    { m.entries g i with flags := {} } x j
  refine hlink.trans ?_
  simp only [Bool.false_eq_true, and_false, if_false]
  rfl

@[simp] lemma link_cleared_self : (m.cleared g i c n).graph.link g i = none := by
  rw [link_cleared, if_pos ⟨rfl, rfl⟩]

section cleared

lemma rewires_cleared (hg : g ∈ m.graph.tier k) (hk : k < 4) :
    m.graph.Rewires (m.cleared g i c n).graph 4 k g i := by
  refine rewires rfl hg hk fun j _ x _ i' hne => ?_
  rw [link_cleared, if_neg (by tauto)]

variable (h : m.Accounts b) (hg : g ∈ m.graph.tier k) (hk : k < 4)
include h hg hk

lemma Accounts.cleared (hc : m.graph.link g i = some c) (hbare : k + 2 ≤ 4 → m.count c = 0)
    (hn : b ≤ k → n = m.counter g - 1) : (m.cleared g i c n).Accounts b := by
  refine h.clear (rewires_cleared hg hk) (link_eq_some.1 hc).1 hc ?_ hbare rfl ?_ ?_
  · exact link_cleared_self
  · intro hbk
    simp [Paging.cleared, setCounter, hn hbk]
  · intro x hx
    simp [Paging.cleared, setCounter, setFlags, setEntry, hx]

variable {l : List ℕ}

lemma lookup_cleared (hc : m.graph.link g i = some c) (hbare : k + 2 ≤ 4 → m.count c = 0) (q : ℕ)
    (hl : l.length ≠ k + 1) (hle : l.length ≤ 4) :
    (m.cleared g i c n).graph.lookup q l = m.graph.lookup q l := by
  have hr := rewires_cleared (i := i) (c := c) (n := n) hg hk
  by_cases hshort : l.length ≤ k
  · exact hr.lookup_of_le h.counted q hshort
  refine hr.lookup_of_gt h.counted q ?_ (by omega) hle
  intro l' hl' _
  obtain ⟨i', l', rfl⟩ := exists_cons_of_ne_nil hl'
  rw [link_cleared_self, hc, Option.bind_some, follow_cons, count_eq_zero.1 (hbare (by omega)) i']
  rfl

lemma lookup_cleared_snoc (q : ℕ) (hl : l.length = k) (i' : ℕ) :
    (m.cleared g i c n).graph.lookup q (l ++ [i']) =
      if m.graph.lookup q l = some g ∧ i' = i then none else m.graph.lookup q (l ++ [i']) := by
  rw [(rewires_cleared hg hk).lookup_snoc h.counted q hl, link_cleared_self]

end cleared

/-! ## Releasing a table -/

/-- A table is released if it has no entries.  The counter of the table in front is right
from the level `b` on. -/
inductive Released (m : Paging) (b k g i t : ℕ) : Paging → Prop
  | kept (hcount : m.count t ≠ 0) : Released m b k g i t m
  | removed (hcount : m.count t = 0) {n : ℕ} (hn : b ≤ k → n = m.counter g - 1) :
      Released m b k g i t (m.cleared g i t n)

variable {E : Panic → Prop}

lemma releaseTable_ensures (h : m.Accounts b) (hb : b ≤ k) (hg : g ∈ m.graph.tier k) (hk : k < 3)
    (ht : m.graph.link g i = some t) :
    Ensures E (m.releaseTable g i t) (m.Released b k g i t) := by
  have httier := tier_of_link hg ht
  rw [releaseTable]
  split
  next hzero =>
    rw [h.counter (k + 1) (by omega) (by omega) t httier] at hzero
    refine (deallocate_ensures (h.counted.pos (by omega) httier)).bind ?_
    rintro _ rfl
    have hpos : 0 < m.counter g := by
      rw [h.counter k (by omega) hb g hg, Nat.pos_iff_ne_zero]
      intro hcount
      rw [count_eq_zero.1 hcount i] at ht
      cases ht
    change Ensures E (kassert (0 < m.counter g) >>= fun _ =>
      .ok (m.cleared g i t (m.counter g - 1))) _
    rw [kassert_bind hpos]
    exact .ok (.removed hzero fun _ => rfl)
  next hne =>
    rw [h.counter (k + 1) (by omega) (by omega) t httier] at hne
    exact .ok (.kept hne)

lemma releaseFirst_ensures (h : m.Accounts b) (hb : b ≤ 1) (hg : g ∈ m.graph.tier 0)
    (ht : m.graph.link g i = some t) :
    Ensures E (m.releaseFirst g i t) (m.Released 1 0 g i t) := by
  have httier := tier_of_link hg ht
  rw [releaseFirst]
  split
  next hzero =>
    rw [h.counter 1 (by omega) hb t httier] at hzero
    refine (deallocate_ensures (h.counted.pos (by omega) httier)).bind ?_
    rintro _ rfl
    have hcode : m.Released 1 0 g i t (m.cleared g i t (m.counter g)) := .removed hzero nofun
    refine .ok ?_
    simpa [cleared, setCounter, setFlags, setEntry] using hcode
  next hne =>
    rw [h.counter 1 (by omega) hb t httier] at hne
    exact .ok (.kept hne)

namespace Released

variable (hrel : m.Released b k g i t m')
include hrel

lemma accounts (h : m.Accounts b) (hg : g ∈ m.graph.tier k) (hk : k < 3)
    (ht : m.graph.link g i = some t) : m'.Accounts b := by
  cases hrel with
  | kept => exact h
  | removed hcount hn => exact h.cleared hg (by omega) ht (fun _ => hcount) hn

lemma tables_eq : m'.tables = m.tables := by cases hrel <;> rfl

lemma bytes_eq : m'.bytes = m.bytes := by cases hrel <;> rfl

lemma link_eq (hp : p ≠ g) (j : ℕ) : m'.graph.link p j = m.graph.link p j := by
  cases hrel with
  | kept => rfl
  | removed hcount hn => rw [link_cleared, if_neg fun hself => hp hself.1]

variable {l : List ℕ}

lemma lookup_eq (h : m.Accounts f) (hg : g ∈ m.graph.tier k) (hk : k < 3)
    (ht : m.graph.link g i = some t) (q : ℕ) (hl : l.length ≠ k + 1) (hle : l.length ≤ 4) :
    m'.graph.lookup q l = m.graph.lookup q l := by
  cases hrel with
  | kept => rfl
  | removed hcount hn => exact lookup_cleared h hg (by omega) ht (fun _ => hcount) q hl hle

lemma lookup_snoc (h : m.Accounts f) (hg : g ∈ m.graph.tier k) (hk : k < 3) (q : ℕ)
    (hl : l.length = k) (i' : ℕ) :
    m'.graph.lookup q (l ++ [i']) =
      if m.count t = 0 ∧ m.graph.lookup q l = some g ∧ i' = i then none
      else m.graph.lookup q (l ++ [i']) := by
  cases hrel with
  | kept hcount => rw [if_neg fun hself => hcount hself.1]
  | removed hcount hn =>
    rw [lookup_cleared_snoc h hg (by omega) q hl]
    simp only [hcount, true_and]

end Released

end Paging

/-! ## Removing a page -/

namespace Index

def table (ix : Index) : List ℕ := [ix.pml4e, ix.pdpe, ix.pde]

def path (ix : Index) : List ℕ := [ix.pml4e, ix.pdpe, ix.pde, ix.pte]

lemma path_eq (ix : Index) : ix.path = ix.table ++ [ix.pte] := rfl

end Index

namespace Paging

variable {m m' : Paging} {b r base pdpt pd pt : ℕ} {ix : Index}

namespace Walk

variable {l : List ℕ} {q : ℕ}

lemma base_unique (h : m.Accounts b) (hr : m.tables r = some base) (hl : l.length = 0)
    (hq : m.graph.lookup q l = some base) : q = r := by
  rw [length_eq_zero_iff.1 hl, lookup_nil] at hq
  exact h.counted.root_inj q r base hq hr

variable (hw : m.Walk base ix pdpt pd pt) (h : m.Accounts b) (hr : m.tables r = some base)
  (hone : m.refs pdpt = 1)
include hw h hr hone

lemma pdpt_unique (hl : l.length = 1) (hq : m.graph.lookup q l = some pdpt) :
    q = r ∧ l = [ix.pml4e] := by
  obtain ⟨i, rfl⟩ := length_eq_one_iff.1 hl
  have hbaseTier : base ∈ m.graph.tier 0 := ⟨r, hr⟩
  obtain ⟨hbase, rfl⟩ := h.counted.lookup_parent (k := 0) (l := []) (by omega) hone hbaseTier
    hw.first rfl hq
  exact ⟨base_unique h hr rfl hbase, rfl⟩

lemma pd_unique (hone' : m.refs pd = 1) (hl : l.length = 2) (hq : m.graph.lookup q l = some pd) :
    q = r ∧ l = [ix.pml4e, ix.pdpe] := by
  obtain ⟨i, j, rfl⟩ := length_eq_two.1 hl
  obtain ⟨hpdpt, rfl⟩ := h.counted.lookup_parent (l := [i]) (by omega) hone'
    (hw.pdpt_mem ⟨r, hr⟩) hw.second rfl hq
  obtain ⟨rfl, hi⟩ := hw.pdpt_unique h hr hone rfl hpdpt
  rw [List.cons.injEq] at hi
  exact ⟨rfl, by rw [hi.1]⟩

lemma pt_unique (hone' : m.refs pd = 1) (hone'' : m.refs pt = 1) (hl : l.length = 3)
    (hq : m.graph.lookup q l = some pt) : q = r ∧ l = ix.table := by
  obtain ⟨i, j, k, rfl⟩ := length_eq_three.1 hl
  obtain ⟨hpd, rfl⟩ := h.counted.lookup_parent (l := [i, j]) (by omega) hone''
    (hw.pd_mem ⟨r, hr⟩) hw.third rfl hq
  obtain ⟨rfl, hij⟩ := hw.pd_unique h hr hone hone' rfl hpd
  simp only [List.cons.injEq, and_true] at hij
  exact ⟨rfl, by rw [hij.1, hij.2, Index.table]⟩

end Walk

/-- **One page is removed**, and the tables that have no other entries. -/
structure Unmapped (m m' : Paging) (b r : ℕ) (ix : Index) : Prop where
  accounts : (b = 0 → (m'.graph.lookup r [ix.pml4e]).isSome) → m'.Accounts b
  tables : m'.tables = m.tables
  bytes : m'.bytes = m.bytes
  page : ∀ q l, l.length = 4 →
    m'.graph.lookup q l = if q = r ∧ l = ix.path then none else m.graph.lookup q l

variable {c : ℕ}

lemma release_ensures {E : Panic → Prop} (h : m.Accounts b) (hb : b ≤ 1)
    (hr : m.tables r = some base) (hw : m.Walk base ix pdpt pd pt) (hone₁ : m.refs pdpt = 1)
    (hone₂ : m.refs pd = 1) (hone₃ : m.refs pt = 1) (hc : m.graph.link pt ix.pte = some c) :
    Ensures E ((m.cleared pt ix.pte c (m.counter pt - 1)).releaseTable pd ix.pde pt >>= fun m =>
        m.releaseTable pdpt ix.pdpe pd >>= fun m => m.releaseFirst base ix.pml4e pdpt)
      fun m' => m.Unmapped m' b r ix := by
  have hbase : base ∈ m.graph.tier 0 := ⟨r, hr⟩
  have hpdptTier := hw.pdpt_mem hbase
  have hpdTier := hw.pd_mem hbase
  have hptTier := hw.pt_mem hbase
  have hne : ∀ {j k x y : ℕ}, j ≤ 4 → k ≤ 4 → j ≠ k → x ∈ m.graph.tier j →
      y ∈ m.graph.tier k → x ≠ y := by
    rintro j k x _ hj hk hjk hx hy rfl
    exact hjk (h.counted.apart j hj k hk x hx hy)
  -- the page
  have hr₂ := rewires_cleared (i := ix.pte) (c := c) (n := m.counter pt - 1) hptTier (by omega)
  have h₂ : (m.cleared pt ix.pte c (m.counter pt - 1)).Accounts b :=
    h.cleared hptTier (by omega) hc (by omega) fun _ => rfl
  have hw₂ := walk_of_leaf h hr₂ hbase hw
  have hpage₂ : ∀ q l, l.length = 4 → (m.cleared pt ix.pte c (m.counter pt - 1)).graph.lookup q l =
        if q = r ∧ l = ix.path then none else m.graph.lookup q l := by
    intro q l hl
    rcases eq_nil_or_concat' l with rfl | ⟨l, i', rfl⟩
    · simp at hl
    have hl' : l.length = 3 := by simpa using hl
    rw [lookup_cleared_snoc h hptTier (by omega) q hl']
    refine if_congr ?_ rfl rfl
    constructor
    · rintro ⟨hlook, rfl⟩
      obtain ⟨rfl, rfl⟩ := hw.pt_unique h hr hone₁ hone₂ hone₃ hl' hlook
      exact ⟨rfl, rfl⟩
    · rintro ⟨rfl, hpath⟩
      rw [Index.path_eq] at hpath
      obtain ⟨rfl, hi⟩ := append_inj' hpath rfl
      exact ⟨hw.lookup_third hr, (List.cons.inj hi).1⟩
  have htables₂ : (m.cleared pt ix.pte c (m.counter pt - 1)).tables = m.tables := rfl
  have hbytes₂ : (m.cleared pt ix.pte c (m.counter pt - 1)).bytes = m.bytes := rfl
  generalize m.cleared pt ix.pte c (m.counter pt - 1) = m₂ at *
  -- the last table
  have hroot₂ : m₂.tables r = some base := by rw [htables₂]; exact hr
  have hpdTier₂ := hw₂.pd_mem ⟨r, hroot₂⟩
  refine (releaseTable_ensures h₂ (by omega) hpdTier₂ (by omega) hw₂.third).bind ?_
  intro m₃ hrel₃
  have h₃ := hrel₃.accounts h₂ hpdTier₂ (by omega) hw₂.third
  have hroot₃ : m₃.tables r = some base := by rw [hrel₃.tables_eq]; exact hroot₂
  have hlink₃ : m₃.graph.link pdpt ix.pdpe = some pd := by
    rw [hrel₃.link_eq (hne (by omega) (by omega) (by omega) hpdptTier hpdTier)]
    exact hw₂.second
  have hfirst₃ : m₃.graph.link base ix.pml4e = some pdpt := by
    rw [hrel₃.link_eq (hne (by omega) (by omega) (by omega) hbase hpdTier)]
    exact hw₂.first
  have hpdptTier₃ : pdpt ∈ m₃.graph.tier 1 := tier_of_link ⟨r, hroot₃⟩ hfirst₃
  refine (releaseTable_ensures h₃ (by omega) hpdptTier₃ (by omega) hlink₃).bind ?_
  intro m₄ hrel₄
  have h₄ := hrel₄.accounts h₃ hpdptTier₃ (by omega) hlink₃
  have hroot₄ : m₄.tables r = some base := by rw [hrel₄.tables_eq]; exact hroot₃
  have hbase₄ : base ∈ m₄.graph.tier 0 := ⟨r, hroot₄⟩
  have hfirst₄ : m₄.graph.link base ix.pml4e = some pdpt := by
    rw [hrel₄.link_eq (hne (by omega) (by omega) (by omega) hbase hpdptTier)]
    exact hfirst₃
  refine (releaseFirst_ensures h₄ hb hbase₄ hfirst₄).mono (fun _ => id) ?_
  intro m₅ hrel₅
  have h₅ : m₅.Accounts 1 := hrel₅.accounts (h₄.mono hb) hbase₄ (by omega) hfirst₄
  have hpage₅ : ∀ q l, l.length = 4 → m₅.graph.lookup q l = m₂.graph.lookup q l := by
    intro q l hl
    rw [hrel₅.lookup_eq h₄ hbase₄ (by omega) hfirst₄ q (by omega) (by omega),
      hrel₄.lookup_eq h₃ hpdptTier₃ (by omega) hlink₃ q (by omega) (by omega),
      hrel₃.lookup_eq h₂ hpdTier₂ (by omega) hw₂.third q (by omega) (by omega)]
  exact
    { accounts := by
        intro hkeep
        rcases Nat.le_one_iff_eq_zero_or_eq_one.1 hb with rfl | rfl
        · have hfirst := hkeep rfl
          have hroot : m₄.graph.lookup r [] = some base := (m₄.graph.lookup_nil r).trans hroot₄
          have hsnoc := hrel₅.lookup_snoc h₄ hbase₄ (by omega) r (l := []) rfl ix.pml4e
          cases hrel₅ with
          | kept => exact h₄
          | removed hcount hn =>
            rw [if_pos ⟨hcount, hroot, rfl⟩, nil_append] at hsnoc
            rw [hsnoc] at hfirst
            cases hfirst
        · exact h₅
      tables := by rw [hrel₅.tables_eq, hrel₄.tables_eq, hrel₃.tables_eq, htables₂]
      bytes := by rw [hrel₅.bytes_eq, hrel₄.bytes_eq, hrel₃.bytes_eq, hbytes₂]
      page := by
        intro q l hl
        rw [hpage₅ q l hl, hpage₂ q l hl] }

/-- **What `unmap` does** with a present page. -/
theorem unmapPage_ensures (h : m.Accounts b) (hb : b ≤ 1) (hr : m.tables r = some base)
    {pdpt₀ pd₀ pt₀ : ℕ} (hw₀ : m.Walk base ix pdpt₀ pd₀ pt₀)
    (hc₀ : m.graph.link pt₀ ix.pte = some c) {flags : Flags} (hflags : flags.present) :
    Ensures Panic.Zone (m.unmapPage base ix flags) fun m' => m.Unmapped m' b r ix := by
  have hbase₀ : base ∈ m.graph.tier 0 := ⟨r, hr⟩
  have hexact : m.graph.link base ix.pml4e = none → m.counter base = m.count base := by
    rw [hw₀.first]
    nofun
  rw [unmapPage]
  refine (ensure_ensures h hb hbase₀ (link_eq_some.1 hw₀.first).1 (link_eq_some.1 hw₀.second).1
    (link_eq_some.1 hw₀.third).1 hflags _ hexact).bind ?_
  rintro m₁ ⟨pdpt, pd, pt, hprep⟩
  obtain ⟨hone₁, hone₂, hone₃⟩ := hprep.sole (.inr rfl)
  have hw := hprep.walk
  have hr₁ : m₁.tables r = some base := by rw [hprep.tables]; exact hr
  have hbase₁ := hprep.base_mem
  have hc : m₁.graph.link pt ix.pte = some c := by
    rw [← lookup_extend (hw.lookup_third hr₁), hprep.lookup r _ rfl,
      ← hc₀, ← lookup_extend (hw₀.lookup_third hr)]
  rw [hw.pdptOf_eq, hw.pdOf_eq, hw.ptOf_eq]
  dsimp only
  rw [kassert_bind hone₁, kassert_bind hone₂, kassert_bind hone₃, (link_eq_some.1 hc).2.2]
  have h₁ := hprep.accounts
  have hptTier := hw.pt_mem hbase₁
  have hpos := h₁.counted.pos le_rfl (tier_of_link hptTier hc)
  refine (deallocate_ensures hpos).bind ?_
  rintro _ rfl
  have hpos : 0 < m₁.counter pt := by
    rw [h₁.counter 3 (by omega) (by omega) pt hptTier, Nat.pos_iff_ne_zero]
    intro hcount
    rw [count_eq_zero.1 hcount ix.pte] at hc
    cases hc
  change Ensures Panic.Zone (kassert (0 < m₁.counter pt) >>= fun _ =>
    (m₁.cleared pt ix.pte c (m₁.counter pt - 1)).releaseTable pd ix.pde pt >>= fun m =>
      m.releaseTable pdpt ix.pdpe pd >>= fun m => m.releaseFirst base ix.pml4e pdpt) _
  rw [kassert_bind hpos]
  refine (release_ensures h₁ hb hr₁ hw hone₁ hone₂ hone₃ hc).mono (fun _ => id) ?_
  intro m' hun
  exact
    { accounts := hun.accounts
      tables := hun.tables.trans hprep.tables
      bytes := hun.bytes.trans hprep.bytes
      page := fun q l hl => by rw [hun.page q l hl, hprep.lookup q l hl] }

end Paging

end Naos.Mm
