import Naos.Mm.Share

/-!
# The way to a page

`ensure` goes down from the first table to the last one, with `ensure_single` at each of the
three entries on the way.  Afterwards the three tables are there, they belong to one address
space where the caller is going to write, and every page is mapped where it was.
-/

namespace Naos.Mm

open Sharing Outcome Option Sharing.Graph

namespace Paging

variable {m m' : Paging} {b k g p t i f : ℕ}

section Ensured

variable {base index : ℕ} {flags : Flags} {actions : Actions}

lemma link_setFlags (hlink : m.graph.link base index = some (m.entries base index).frame)
    {wanted : Flags} (hwanted : wanted.present) (t i : ℕ) :
    (m.setFlags base index wanted).graph.link t i = m.graph.link t i := by
  have hi := (link_eq_some.1 hlink).1
  rw [setFlags, graph_setEntry]
  split
  next hself => rw [if_pos ⟨hi, hwanted⟩, hself.1, hself.2, hlink]
  · rfl

namespace Ensured

section

variable (he : m.Ensured base index flags actions m') (h : m.Accounts b)
  (hbase : base ∈ m.graph.tier k) (hk : k < 3)
include he h hbase hk

variable (hi : index < slots) (hflags : flags.present)
include hi hflags

lemma rewires : m.graph.Rewires m'.graph 4 k base index := by
  cases he with
  | nothing hlink => exact Paging.rewires rfl hbase (by omega) fun _ _ _ _ _ _ => rfl
  | reflag hlink hsole hwanted =>
    exact Paging.rewires rfl hbase (by omega) fun _ _ _ _ _ _ => link_setFlags hlink hwanted _ _
  | copy hlink hshared hp hwanted rest => exact rewires_unshared rest h hbase hk hlink hwanted hp
  | new hnone hp rest => exact rewires_attached rest h hbase hk hi hflags hp

omit hi hflags in
omit he h hbase hk in
lemma accounts (he : m.Ensured base index flags actions m') (h : m.Accounts b) (hb : b ≤ 1)
    (hbase : base ∈ m.graph.tier k) (hk : k < 3) (hi : index < slots) (hflags : flags.present) :
    m'.Accounts b := by
  cases he with
  | nothing hlink => exact h
  | reflag hlink hsole hwanted => exact h.congr rfl (link_setFlags hlink hwanted) rfl rfl
  | copy hlink hshared hp hwanted rest => exact h.unshared rest hb hbase hk hlink hwanted hp hshared
  | new hnone hp rest => exact h.attached rest hbase hk hi hflags hnone hp

/-- There is a table below, and with the right to write nobody shares it. -/
lemma exists_link : ∃ y, m'.graph.link base index = some y ∧
    (flags.writable = true ∨ actions.copyAll = true → m'.refs y = 1) := by
  cases he with
  | nothing hlink hreadonly hactions =>
    exact ⟨_, hlink, fun hwrite => by simp [hreadonly, hactions] at hwrite⟩
  | reflag hlink hsole hwanted =>
    exact ⟨_, (link_setFlags hlink hwanted _ _).trans hlink, fun _ => hsole⟩
  | @copy hlink hshared p hp wanted hwanted rest =>
    have hnp := h.ne_of_mem hp (j := k + 1) (by omega) (tier_of_link hbase hlink)
    have hpbase := (h.ne_of_mem hp (j := k) (by omega) hbase).symm
    refine ⟨p, ?_, fun _ => if_pos rfl⟩
    rw [link_unshared rest hwanted hpbase hnp, if_pos ⟨rfl, rfl⟩, if_pos hi]
  | @new hnone p hp rest =>
    have hpbase := (h.ne_of_mem hp (j := k) (by omega) hbase).symm
    refine ⟨p, ?_, fun _ => Function.update_self ..⟩
    rw [link_attached rest hi hflags hpbase, if_pos ⟨rfl, rfl⟩]

omit hi hflags in
lemma refs_eq {j x : ℕ} (hj : j ≤ k) (hx : x ∈ m.graph.tier j) : m'.refs x = m.refs x := by
  cases he with
  | nothing hlink | reflag hlink hsole hwanted => rfl
  | @copy hlink hshared p hp wanted hwanted rest =>
    have hnext := tier_of_link hbase hlink
    have hxp : x ≠ p := h.ne_of_mem hp (by omega) hx
    have hxn : x ≠ (m.entries base index).frame := by
      rintro rfl
      have := h.counted.apart j (by omega) (k + 1) (by omega) _ hx hnext
      omega
    have hzero : m.occurrences (m.entries base index).frame x slots = 0 := by
      refine occurrences_eq_zero (fun i hi => ?_) _
      have := h.counted.apart j (by omega) (k + 2) (by omega) x hx (tier_of_link hnext hi)
      omega
    simp only [unshared, if_neg hxp, if_neg hxn, hzero, Nat.add_zero]
  | @new hnone p hp rest => exact Function.update_of_ne (h.ne_of_mem hp (by omega) hx) ..

/-- **Nothing is mapped otherwise**: every path that goes on below the table leads where it
led. -/
theorem lookup_eq (q : ℕ) {l : List ℕ} (hl : l.length ≠ k + 1) (hle : l.length ≤ 4) :
    m'.graph.lookup q l = m.graph.lookup q l := by
  have hr := he.rewires h hbase hk hi hflags
  by_cases hshort : l.length ≤ k
  · exact hr.lookup_of_le h.counted q hshort
  refine hr.lookup_of_gt h.counted q ?_ (by omega) hle
  cases he with
  | nothing hlink => exact fun _ _ _ => rfl
  | reflag hlink hsole hwanted =>
    have hgraph : (m.setFlags base index _).graph = m.graph :=
      graph_eq rfl (link_setFlags hlink hwanted)
    intro l _ _
    rw [hgraph]
  | @copy hlink hshared p hp wanted hwanted rest =>
    have hnp := h.ne_of_mem hp (j := k + 1) (by omega) (tier_of_link hbase hlink)
    have hpbase := (h.ne_of_mem hp (j := k) (by omega) hbase).symm
    refine fun l hl hle => hr.ends_of_copy h.counted hlink (p := p) ?_ ?_ hl hle
    · rw [link_unshared rest hwanted hpbase hnp, if_pos ⟨rfl, rfl⟩, if_pos hi]
    · intro i'
      rw [link_unshared rest hwanted hpbase hnp, if_neg fun hself => hpbase hself.1, if_pos rfl]
  | @new hnone p hp rest =>
    have hpbase := (h.ne_of_mem hp (j := k) (by omega) hbase).symm
    refine fun l hl _ => Sharing.Graph.Rewires.ends_of_bare hnone ?_ hl
    intro f hf i'
    rw [link_attached rest hi hflags hpbase, if_pos ⟨rfl, rfl⟩] at hf
    obtain rfl := some.inj hf
    rw [link_attached rest hi hflags hpbase, if_neg fun hself => hpbase hself.1, if_pos rfl]

end

lemma tables_eq (he : m.Ensured base index flags actions m') : m'.tables = m.tables := by
  cases he <;> rfl

lemma bytes_eq (he : m.Ensured base index flags actions m') : m'.bytes = m.bytes := by
  cases he <;> rfl

end Ensured

end Ensured

/-! ## The three tables on the way to a page -/

structure Walk (m : Paging) (base : ℕ) (ix : Index) (pdpt pd pt : ℕ) : Prop where
  first : m.graph.link base ix.pml4e = some pdpt
  second : m.graph.link pdpt ix.pdpe = some pd
  third : m.graph.link pd ix.pde = some pt

namespace Walk

variable {base pdpt pd pt : ℕ} {ix : Index}

variable {r : ℕ}

variable (hw : m.Walk base ix pdpt pd pt)
include hw

lemma lookup_first (hr : m.tables r = some base) : m.graph.lookup r [ix.pml4e] = some pdpt := by
  have hroot : m.graph.lookup r [] = some base := (m.graph.lookup_nil r).trans hr
  exact (lookup_extend hroot _).trans hw.first

lemma lookup_second (hr : m.tables r = some base) :
    m.graph.lookup r [ix.pml4e, ix.pdpe] = some pd :=
  (lookup_extend (hw.lookup_first hr) _).trans hw.second

lemma lookup_third (hr : m.tables r = some base) :
    m.graph.lookup r [ix.pml4e, ix.pdpe, ix.pde] = some pt :=
  (lookup_extend (hw.lookup_second hr) _).trans hw.third

lemma pdptOf_eq : m.pdptOf base ix = pdpt := (link_eq_some.1 hw.first).2.2

lemma pdOf_eq : m.pdOf base ix = pd := by
  rw [pdOf, hw.pdptOf_eq]
  exact (link_eq_some.1 hw.second).2.2

lemma ptOf_eq : m.ptOf base ix = pt := by
  rw [ptOf, hw.pdOf_eq]
  exact (link_eq_some.1 hw.third).2.2

lemma pdpt_mem (hbase : base ∈ m.graph.tier 0) :
    pdpt ∈ m.graph.tier 1 := tier_of_link hbase hw.first

lemma pd_mem (hbase : base ∈ m.graph.tier 0) :
    pd ∈ m.graph.tier 2 := tier_of_link (hw.pdpt_mem hbase) hw.second

lemma pt_mem (hbase : base ∈ m.graph.tier 0) :
    pt ∈ m.graph.tier 3 := tier_of_link (hw.pd_mem hbase) hw.third

end Walk

/-- The tables on the way to a page are there, and nothing else is different. -/
structure Prepared (m m' : Paging) (b base : ℕ) (ix : Index) (flags : Flags) (actions : Actions)
    (pdpt pd pt : ℕ) : Prop where
  walk : m'.Walk base ix pdpt pd pt
  accounts : m'.Accounts b
  base_mem : base ∈ m'.graph.tier 0
  tables : m'.tables = m.tables
  bytes : m'.bytes = m.bytes
  sole : flags.writable = true ∨ actions.copyAll = true →
    m'.refs pdpt = 1 ∧ m'.refs pd = 1 ∧ m'.refs pt = 1
  lookup : ∀ q l, l.length = 4 → m'.graph.lookup q l = m.graph.lookup q l

/-- **What `ensure` does.** -/
theorem ensure_ensures (h : m.Accounts b) (hb : b ≤ 1) {base : ℕ}
    (hbase : base ∈ m.graph.tier 0) {ix : Index} (hpml4e : ix.pml4e < slots)
    (hpdpe : ix.pdpe < slots) (hpde : ix.pde < slots) {flags : Flags} (hflags : flags.present)
    (actions : Actions)
    (hexact : m.graph.link base ix.pml4e = none → m.counter base = m.count base) :
    Ensures Panic.Zone (m.ensure base ix flags actions) fun m' =>
      ∃ pdpt pd pt, Prepared m m' b base ix flags actions pdpt pd pt := by
  rw [ensure]
  refine (ensureSingle_ensures h hb hbase (by omega) hpml4e hflags actions hexact).bind ?_
  intro m₁ he₁
  have h₁ := he₁.accounts h hb hbase (by omega) hpml4e hflags
  obtain ⟨pdpt, hpdpt, hsole₁⟩ := he₁.exists_link h hbase (by omega) hpml4e hflags
  have hbase₁ := mem_tier_zero he₁.tables_eq hbase
  have hpdptOf : m₁.pdptOf base ix = pdpt := (link_eq_some.1 hpdpt).2.2
  have hpdptTier : pdpt ∈ m₁.graph.tier 1 := tier_of_link hbase₁ hpdpt
  rw [hpdptOf]
  refine (ensureSingle_ensures h₁ hb hpdptTier (by omega) hpdpe hflags actions
    fun _ => h₁.counter 1 (by omega) hb pdpt hpdptTier).bind ?_
  intro m₂ he₂
  have h₂ := he₂.accounts h₁ hb hpdptTier (by omega) hpdpe hflags
  have hr₂ := he₂.rewires h₁ hpdptTier (by omega) hpdpe hflags
  obtain ⟨pd, hpd, hsole₂⟩ := he₂.exists_link h₁ hpdptTier (by omega) hpdpe hflags
  have hbase₂ := mem_tier_zero he₂.tables_eq hbase₁
  have hpdpt₂ : m₂.graph.link base ix.pml4e = some pdpt := by
    rw [hr₂.link_eq h₁.counted (by omega) (by omega) hbase₁]
    exact hpdpt
  have hpdptTier₂ := tier_of_link hbase₂ hpdpt₂
  have hpdTier : pd ∈ m₂.graph.tier 2 := tier_of_link hpdptTier₂ hpd
  have hpdOf : m₂.pdOf base ix = pd := by
    rw [pdOf, pdptOf, (link_eq_some.1 hpdpt₂).2.2]
    exact (link_eq_some.1 hpd).2.2
  rw [hpdOf]
  refine (ensureSingle_ensures h₂ hb hpdTier (by omega) hpde hflags actions
    fun _ => h₂.counter 2 (by omega) (by omega) pd hpdTier).mono (fun _ => id) ?_
  intro m₃ he₃
  have h₃ := he₃.accounts h₂ hb hpdTier (by omega) hpde hflags
  have hr₃ := he₃.rewires h₂ hpdTier (by omega) hpde hflags
  obtain ⟨pt, hpt, hsole₃⟩ := he₃.exists_link h₂ hpdTier (by omega) hpde hflags
  have hbase₃ := mem_tier_zero he₃.tables_eq hbase₂
  refine ⟨pdpt, pd, pt, ?_⟩
  exact
    { walk :=
        ⟨(hr₃.link_eq h₂.counted (by omega) (by omega) hbase₂ _).trans hpdpt₂,
          (hr₃.link_eq h₂.counted (by omega) (by omega) hpdptTier₂ _).trans hpd, hpt⟩
      accounts := h₃
      base_mem := hbase₃
      tables := he₃.tables_eq.trans (he₂.tables_eq.trans he₁.tables_eq)
      bytes := he₃.bytes_eq.trans (he₂.bytes_eq.trans he₁.bytes_eq)
      sole := by
        intro hwrite
        refine ⟨?_, ?_, hsole₃ hwrite⟩
        · rw [he₃.refs_eq h₂ hpdTier (by omega) (by omega) hpdptTier₂,
            he₂.refs_eq h₁ hpdptTier (by omega) (by omega) hpdptTier]
          exact hsole₁ hwrite
        · rw [he₃.refs_eq h₂ hpdTier (by omega) le_rfl hpdTier]
          exact hsole₂ hwrite
      lookup := by
        intro q l hl
        rw [he₃.lookup_eq h₂ hpdTier (by omega) hpde hflags q (by omega) (by omega),
          he₂.lookup_eq h₁ hpdptTier (by omega) hpdpe hflags q (by omega) (by omega),
          he₁.lookup_eq h hbase (by omega) hpml4e hflags q (by omega) (by omega)] }

end Paging

end Naos.Mm
