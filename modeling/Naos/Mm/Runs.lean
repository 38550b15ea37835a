import Naos.Lib.Transition
import Naos.Mm.Unmap

/-!
# Runs of the page tables

The operations on page tables keep the accounts: the reference count of a frame is the number
of entries that name it, over all live page tables, and the counter of a table is the number of
its present entries.  Not so an `unmap` that clears an entry of the first table, the
destructor, and a clone to a table that has entries.
-/

namespace Naos.Mm

open Sharing Outcome Function Option Sharing.Graph

namespace Paging

variable {m m' : Paging} {r base : ℕ}

structure Sound (m : Paging) : Prop where
  accounts : m.Accounts 0

/-! ## Creation and destruction -/

lemma Sound.reroot (h : m.Sound) (hr : m.graph.Reroots m'.graph 4 r)
    (hfresh : ∀ b, m'.tables r = some b → m.refs b = 0)
    (hone : ∀ b, m'.tables r = some b → m'.refs b = 1)
    (hzero : ∀ b, m'.tables r = some b → m'.counter b = 0)
    (hrefs : ∀ j ≤ 4, ∀ f ∈ m.graph.tier j, m.tables r ≠ some f → m'.refs f = m.refs f)
    (hcounter : ∀ j ≤ 4, ∀ f ∈ m.graph.tier j, m'.counter f = m.counter f) : m'.Sound := by
  have hcounted : m'.graph.Counted 4 m'.refs :=
    hr.counted h.accounts.counted (fun b hb => h.accounts.notMem_tier (hfresh b hb)) hone hrefs
  have hold : ∀ k < 4, ∀ t ∈ m.graph.tier k, m'.counter t = m'.count t := by
    intro k hk t ht
    rw [hcounter k hk.le t ht, count_congr (hr.link k hk.le t ht)]
    exact h.accounts.counter k hk (Nat.zero_le k) t ht
  refine ⟨⟨hcounted, fun k hk _ t ht => ?_⟩⟩
  cases k with
  | zero =>
    obtain ⟨q, hq⟩ := ht
    by_cases hqid : q = r
    · subst hqid
      rw [hzero t hq, count_eq_zero.2 (hr.bare' t hq)]
    · exact hold 0 (by omega) t ⟨q, (hr.root q hqid).symm.trans hq⟩
  | succ k =>
    rw [hr.tier_succ k (by omega)] at ht
    exact hold (k + 1) hk t ht

lemma create_ensures (h : m.Sound) (hid : m.tables r = none) :
    Ensures Panic.Refusal (m.create r) Sound := by
  refine ((newPageTable_ensures m).mono (fun _ => Panic.Zone.refusal) fun _ h => h).bind ?_
  rintro _ ⟨p, rest, hp, rfl⟩
  refine .ok ?_
  have hlink : ∀ t i, t ≠ p → ({ m.withTableAt p rest with
        tables := update m.tables r (some p) } : Paging).graph.link t i =
        m.graph.link t i := by
    intro t i ht
    simp only [graph_link, withTableAt, update_of_ne ht]
  have hbare : ∀ i, ({ m.withTableAt p rest with
      tables := update m.tables r (some p) } : Paging).graph.link p i = none := by
    intro i
    simp [graph_link, withTableAt]
  have hself : ∀ {b : ℕ}, update m.tables r (some p) r = some b → b = p := by
    intro b hb
    rw [update_self] at hb
    exact (some.inj hb).symm
  refine h.reroot (r := r) ⟨?_, ?_, ?_, ?_⟩ ?_ ?_ ?_ ?_ ?_
  · exact fun q hq => update_of_ne hq _ _
  · exact fun j hj x hx i => hlink x i (h.accounts.ne_of_mem hp hj hx)
  · intro b hb
    rw [show m.graph.root r = m.tables r from rfl, hid] at hb
    cases hb
  · intro b hb i
    rw [hself hb]
    exact hbare i
  · intro b hb
    rw [hself hb]
    exact hp
  · intro b hb
    rw [hself hb]
    exact update_self ..
  · intro b hb
    rw [hself hb]
    exact update_self ..
  · exact fun j hj f hf _ => update_of_ne (h.accounts.ne_of_mem hp hj hf) _ _
  · exact fun j hj f hf => update_of_ne (h.accounts.ne_of_mem hp hj hf) _ _

lemma destroy_ensures (h : m.Sound) (hbase : m.tables r = some base)
    (hempty : ∀ i, m.graph.link base i = none) :
    Ensures Panic.Refusal (m.destroy r base) Sound := by
  have hpos : m.refs base ≠ 0 := h.accounts.counted.pos (Nat.zero_le 4) ⟨r, hbase⟩
  refine (deallocate_ensures hpos).bind ?_
  rintro _ rfl
  refine .ok ?_
  have hgone : ∀ b, update m.tables r none r ≠ some b := by
    intro b hb
    rw [update_self] at hb
    cases hb
  refine h.reroot (r := r) ⟨?_, ?_, ?_, ?_⟩ ?_ ?_ ?_ ?_ ?_
  · exact fun q hq => update_of_ne hq _ _
  · exact fun _ _ _ _ _ => rfl
  · intro b hb i
    obtain rfl : base = b := some.inj (hbase.symm.trans hb)
    exact hempty i
  · exact fun b hb => absurd hb (hgone b)
  · exact fun b hb => absurd hb (hgone b)
  · exact fun b hb => absurd hb (hgone b)
  · exact fun b hb => absurd hb (hgone b)
  · intro j _ f _ hf
    have hne : f ≠ base := by
      rintro rfl
      exact hf hbase
    exact update_of_ne hne _ _
  · exact fun _ _ _ _ => rfl

/-! ## Cloning -/

section Clone

variable {src dst slot : ℕ}

/-- The entry `slot` of one first table is shared with another one. -/
def cloned (m : Paging) (src dst slot : ℕ) : Paging :=
  let m := m.addRefCount (m.entries src slot).frame
  let m := m.setFlags src slot (m.entries src slot).flags.readonly
  let m := m.setEntry dst slot (m.entries src slot)
  m.setCounter dst (m.counter dst + 1)

lemma entries_cloned (m : Paging) (src dst slot x j : ℕ) : (m.cloned src dst slot).entries x j =
      if (x = dst ∨ x = src) ∧ j = slot then
        { m.entries src slot with flags := (m.entries src slot).flags.readonly }
      else m.entries x j := by
  simp only [cloned, setCounter, setFlags, addRefCount, entries_setEntry]
  by_cases hdst : x = dst ∧ j = slot
  · simp [hdst]
  · by_cases hsrc : x = src ∧ j = slot
    · simp [hsrc]
    · have hneither : ¬ ((x = dst ∨ x = src) ∧ j = slot) := by tauto
      simp [hdst, hsrc, hneither]

lemma link_cloned {x j : ℕ} (h : x ≠ dst ∨ j ≠ slot) :
    (m.cloned src dst slot).graph.link x j = m.graph.link x j := by
  simp only [graph_link, entries_cloned]
  by_cases hsrc : (x = dst ∨ x = src) ∧ j = slot
  · obtain ⟨rfl, rfl⟩ : x = src ∧ j = slot := by tauto
    simp [Flags.readonly]
  · simp [hsrc]

lemma link_cloned_self : (m.cloned src dst slot).graph.link dst slot = m.graph.link src slot := by
  simp only [graph_link, entries_cloned, true_or, and_self, if_true]
  rfl

lemma Sound.cloned (h : m.Sound) (hsrc : src ∈ m.graph.tier 0) (hdst : dst ∈ m.graph.tier 0)
    (hslot : slot < slots) (hpresent : (m.entries src slot).flags.present)
    (hfree : m.graph.link dst slot = none) : (m.cloned src dst slot).Sound := by
  have hlink := link_of_present hslot hpresent
  have hctier : (m.entries src slot).frame ∈ m.graph.tier 1 := tier_of_link hsrc hlink
  have hr : m.graph.Rewires (m.cloned src dst slot).graph 4 0 dst slot :=
    rewires rfl hdst (by omega) fun _ _ _ _ _ hother => link_cloned hother
  have hself : (m.cloned src dst slot).graph.link dst slot = some (m.entries src slot).frame :=
    link_cloned_self.trans hlink
  refine ⟨h.accounts.share hr hslot hfree hctier hself rfl ?_ ?_⟩
  · simp [Paging.cloned, setCounter, setEntry, setFlags, addRefCount]
  · intro x hx
    simp [Paging.cloned, setCounter, setEntry, setFlags, addRefCount, update_of_ne hx]

lemma cloneSlots_ensures (n : ℕ) :
    ∀ {slot : ℕ} {m : Paging}, m.Sound → src ∈ m.graph.tier 0 → dst ∈ m.graph.tier 0 →
      (∀ i, slot ≤ i → i < slot + n → m.graph.link dst i = none) →
      Ensures Panic.Refusal (cloneSlots src dst n slot m) fun m' =>
        m'.Sound ∧ dst ∈ m'.graph.tier 0 := by
  induction n with
  | zero =>
    intro slot m h _ hdst _
    exact .ok ⟨h, hdst⟩
  | succ n ih =>
    intro slot m h hsrc hdst hfree
    rw [cloneSlots]
    split
    · exact .error ⟨nofun, nofun⟩
    rename_i hslot
    have hslot' : slot < slots := Nat.not_le.1 hslot
    split
    · exact ih h hsrc hdst fun i hi hi' => hfree i hi (by omega)
    rename_i hpresent
    have hpresent' : (m.entries src slot).flags.present = true :=
      Bool.eq_true_of_not_eq_false hpresent
    have hpos : 0 < m.refs (m.entries src slot).frame := Nat.pos_of_ne_zero
      (h.accounts.counted.pos (by omega) (tier_of_link hsrc (link_of_present hslot' hpresent')))
    rw [pageAddReference, if_pos hpos]
    have hnext := h.cloned hsrc hdst hslot' hpresent' (hfree slot le_rfl (by omega))
    refine ih (m := m.cloned src dst slot) hnext hsrc hdst fun i hi hi' => ?_
    rw [link_cloned (.inr (by omega))]
    exact hfree i (by omega) (by omega)

/-- The slots that `clone_readonly_to` looks at: the first one and their number. -/
def cloneSlot (virt : ℕ) : ℕ := (Index.unpack (virt / pageSize)).pml4e

lemma cloneReadonlyTo_ensures (h : m.Sound) (hsrc : src ∈ m.graph.tier 0)
    (hdst : dst ∈ m.graph.tier 0) (virt pages : ℕ)
    (hfree : ∀ i, cloneSlot virt ≤ i →
      i < cloneSlot virt + (pages + hugePages - 1) / hugePages → m.graph.link dst i = none) :
    Ensures Panic.Refusal (m.cloneReadonlyTo src virt pages dst) Sound := by
  refine (cloneSlots_ensures _ h hsrc hdst hfree).bind ?_
  rintro m' ⟨h', hdst'⟩
  rw [kassert_bind (h'.accounts.counter 0 (by omega) le_rfl dst hdst').symm]
  exact .ok h'

end Clone

end Paging

/-! ## The numbers of the pages -/

namespace Index

def number (ix : Index) : ℕ := ((ix.pml4e * slots + ix.pdpe) * slots + ix.pde) * slots + ix.pte

def Near (ix : Index) : Prop :=
  (ix.pdpe < slots ∧ ix.pde < slots ∧ ix.pte ≤ slots) ∨
    (ix.pdpe < slots ∧ ix.pde ≤ slots ∧ ix.pte = 0) ∨
    (ix.pdpe ≤ slots ∧ ix.pde = 0 ∧ ix.pte = 0)

variable {ix : Index}

lemma Near.normalizeIndex (h : ix.Near) :
    ix.normalizeIndex.2.pdpe < slots ∧ ix.normalizeIndex.2.pde < slots ∧
      ix.normalizeIndex.2.pte < slots ∧ ix.normalizeIndex.2.number = ix.number ∧
      (ix.normalizeIndex.1 = false → ix.normalizeIndex.2 = ix) := by
  simp only [Near, slots] at h
  simp only [Index.normalizeIndex, number, slots]
  split_ifs <;> dsimp only at * <;> simp <;> omega

def Inside (ix : Index) : Prop := ix.pdpe < slots ∧ ix.pde < slots ∧ ix.pte < slots

lemma number_next (h : ix.Inside) :
    (ix.number ≤ number ⟨ix.pml4e + 1, 0, 0, 0⟩ ∧ number ⟨ix.pml4e + 1, 0, 0, 0⟩ ≤ ix.number +
        ((512 - ix.pdpe) * 512 * 512 + (512 - ix.pde) * 512 + (512 - ix.pte))) ∧
      (ix.number ≤ number ⟨ix.pml4e, ix.pdpe + 1, 0, 0⟩ ∧
        number ⟨ix.pml4e, ix.pdpe + 1, 0, 0⟩ ≤ ix.number +
          ((512 - ix.pde) * 512 + (512 - ix.pte))) ∧
      (ix.number ≤ number ⟨ix.pml4e, ix.pdpe, ix.pde + 1, 0⟩ ∧
        number ⟨ix.pml4e, ix.pdpe, ix.pde + 1, 0⟩ ≤ ix.number + (512 - ix.pte)) ∧
      number { ix with pte := ix.pte + 1 } = ix.number + 1 := by
  simp only [number, Inside, slots] at *
  omega

end Index

def pageNumber (l : List ℕ) : ℕ := l.foldl (fun n i => n * slots + i) 0

lemma pageNumber_path (ix : Index) : pageNumber ix.path = ix.number := by
  simp [pageNumber, Index.path, Index.number]

/-- A page is in the range of a call of `unmap`. -/
def InRange (start pages : ℕ) (l : List ℕ) : Prop :=
  start ≤ pageNumber l ∧ pageNumber l < start + pages

instance (start pages : ℕ) (l : List ℕ) : Decidable (InRange start pages l) :=
  inferInstanceAs (Decidable (_ ∧ _))

namespace Paging

variable {m m' : Paging} {r base : ℕ}

/-! ## The loop of `map` -/

section Map

/-- The call gives the page table tables of its own on the way to its pages. -/
abbrev Unshares (flags : Flags) (actions : Actions) : Prop :=
  flags.writable = true ∨ actions.copyAll = true

/-- The page tables are where they were, and those other than `r` translate as before. -/
structure Isolated (m m' : Paging) (r : ℕ) : Prop where
  tables : m'.tables = m.tables
  lookup : ∀ q l, q ≠ r → l.length = 4 → m'.graph.lookup q l = m.graph.lookup q l

lemma Isolated.refl (m : Paging) : m.Isolated m r := ⟨rfl, fun _ _ _ _ => rfl⟩

lemma Isolated.trans {m₁ : Paging} (h : m.Isolated m₁ r) (h' : m₁.Isolated m' r) :
    m.Isolated m' r :=
  ⟨h'.tables.trans h.tables, fun q l hq hl => (h'.lookup q l hq hl).trans (h.lookup q l hq hl)⟩

/-- Each table on the way to a page has one reference. -/
def Own (m : Paging) (base : ℕ) (ix : Index) : Prop :=
  m.refs (m.pdptOf base ix) = 1 ∧ m.refs (m.pdOf base ix) = 1 ∧ m.refs (m.ptOf base ix) = 1

variable {b pdpt pd pt : ℕ} {ix : Index} {flags : Flags} {actions : Actions}

lemma Walk.own_iff (hw : m.Walk base ix pdpt pd pt) :
    m.Own base ix ↔ m.refs pdpt = 1 ∧ m.refs pd = 1 ∧ m.refs pt = 1 := by
  rw [Own, hw.pdptOf_eq, hw.pdOf_eq, hw.ptOf_eq]

section

variable (hm : m.Mapped pt ix.pte flags actions m') (h : m.Accounts b)
  (hw : m.Walk base ix pdpt pd pt)
include hm h hw

lemma Mapped.refs_eq (hbase : base ∈ m.graph.tier 0) {k t : ℕ} (hk : k < 4)
    (ht : t ∈ m.graph.tier k) : m'.refs t = m.refs t := by
  cases hm with
  | place _ _ hp => exact update_of_ne (h.ne_of_mem hp hk.le ht) ..
  | @replace c hc _ _ hp =>
    have hne : t ≠ c := by
      rintro rfl
      exact hk.ne (h.counted.apart k hk.le 4 le_rfl t ht (tier_of_link (hw.pt_mem hbase) hc))
    exact (update_of_ne hne ..).trans (update_of_ne (h.ne_of_mem hp hk.le ht) ..)

lemma Mapped.isolated (hr : m.tables r = some base) (hown : m.Own base ix) (hi : ix.pte < slots)
    (hflags : flags.present) : m.Isolated m' r := by
  refine ⟨hm.tables_eq, fun q l hq hl => ?_⟩
  rcases List.eq_nil_or_concat' l with rfl | ⟨l, i, rfl⟩
  · cases hl
  have hl' : l.length = 3 := by simpa using hl
  rw [(hm.rewires (hw.pt_mem ⟨r, hr⟩) hi hflags).lookup_snoc h.counted q hl', if_neg]
  rintro ⟨hlook, -⟩
  obtain ⟨hpdpt, hpd, hpt⟩ := hw.own_iff.1 hown
  exact hq (hw.pt_unique h hr hpdpt hpd hpt hl' hlook).1

end

lemma mapPages_ensures (hflags : flags.present) (pages : ℕ) :
    ∀ {ix : Index} {m : Paging}, m.Accounts 0 → m.tables r = some base → ix.pte ≤ slots →
      m.Ready base ix → (Unshares flags actions → ix.pte < slots → m.Own base ix) →
      Ensures Panic.Refusal (mapPages base flags actions pages ix m) fun m' =>
        m'.Accounts 0 ∧ (Unshares flags actions → m.Isolated m' r) := by
  induction pages with
  | zero =>
    intro ix m h _ _ _ _
    exact .ok ⟨h, fun _ => .refl m⟩
  | succ pages ih =>
    intro ix m h hr hle hready hown
    obtain ⟨hpdpe, hpde, hpte, -, hsame⟩ :=
      Index.Near.normalizeIndex (.inl ⟨hready.pdpe, hready.pde, hle⟩)
    have hprepare : Ensures Panic.Refusal
        (m.ensureIf ix.normalizeIndex.1 base ix.normalizeIndex.2 flags actions)
        fun m' => m'.Accounts 0 ∧ m.Isolated m' r ∧
          (∃ pdpt pd pt, m'.Walk base ix.normalizeIndex.2 pdpt pd pt) ∧
          (Unshares flags actions → m'.Own base ix.normalizeIndex.2) := by
      rw [ensureIf]
      split
      next =>
        refine (ensure_ensures_refusal h ⟨r, hr⟩ hpdpe hpde hflags actions).mono (fun _ => id) ?_
        rintro m' ⟨pdpt, pd, pt, hprep⟩
        exact ⟨hprep.accounts, ⟨hprep.tables, fun q l _ => hprep.lookup q l⟩,
          ⟨pdpt, pd, pt, hprep.walk⟩, fun hcopy => hprep.walk.own_iff.2 (hprep.sole hcopy)⟩
      next hcheck =>
        rw [hsame (by simpa using hcheck)] at hpte ⊢
        exact .ok ⟨h, .refl m, hready.walk hpte, fun hcopy => hown hcopy hpte⟩
    rw [mapPages]
    refine hprepare.bind ?_
    generalize ix.normalizeIndex.2 = jx at hpdpe hpde hpte
    rintro m₁ ⟨h₁, hisolated₁, ⟨pdpt, pd, pt, hw⟩, hown₁⟩
    have hr₁ : m₁.tables r = some base := by rw [hisolated₁.tables, hr]
    have hbase₁ : base ∈ m₁.graph.tier 0 := ⟨r, hr₁⟩
    refine (mapPage_ensures h₁ hbase₁ hw hpte flags actions).bind ?_
    intro m₂ hm
    have hpt := hw.pt_mem hbase₁
    have hw₂ := (walk_of_leaf h₁ (hm.rewires hpt hpte hflags) hbase₁ hw).next (jx.pte + 1)
    have hown₂ : m₁.Own base jx → m₂.Own base { jx with pte := jx.pte + 1 } := by
      rw [hw.own_iff, hw₂.own_iff, hm.refs_eq h₁ hw hbase₁ (by omega) (hw.pdpt_mem hbase₁),
        hm.refs_eq h₁ hw hbase₁ (by omega) (hw.pd_mem hbase₁),
        hm.refs_eq h₁ hw hbase₁ (by omega) hpt]
      exact id
    have hready₂ : m₂.Ready base { jx with pte := jx.pte + 1 } :=
      ⟨hpdpe, hpde, fun _ => ⟨pdpt, pd, pt, hw₂⟩⟩
    refine (ih (hm.accounts h₁ hpt hpte hflags) (by rw [hm.tables_eq, hr₁])
      (Nat.succ_le_of_lt hpte) hready₂ fun hcopy _ => hown₂ (hown₁ hcopy)).mono (fun _ => id) ?_
    rintro m₃ ⟨h₃, hisolated₃⟩
    refine ⟨h₃, fun hcopy => (hisolated₁.trans ?_).trans (hisolated₃ hcopy)⟩
    exact hm.isolated h₁ hw hr₁ (hown₁ hcopy) hpte hflags

/-- **What `map` does.**  It keeps the accounts, and the other page tables if it leaves no table
shared. -/
theorem map_ensures (h : m.Accounts 0) (hr : m.tables r = some base) (virt pages : ℕ)
    (flags : Flags) (actions : Actions) :
    Ensures Panic.Refusal (m.map base virt pages flags actions) fun m' =>
      m'.Accounts 0 ∧ (Unshares flags actions → m.Isolated m' r) := by
  rw [map]
  split
  · exact .error ⟨nofun, nofun⟩
  dsimp only
  obtain ⟨-, hpdpe, hpde, hpte⟩ := unpack_lt (virt / pageSize)
  refine (ensure_ensures_refusal h ⟨r, hr⟩ hpdpe hpde rfl actions).bind ?_
  rintro m₁ ⟨pdpt, pd, pt, hprep⟩
  refine (mapPages_ensures rfl pages hprep.accounts (by rw [hprep.tables, hr]) hpte.le
    ⟨hpdpe, hpde, fun _ => ⟨pdpt, pd, pt, hprep.walk⟩⟩
    fun hcopy _ => hprep.walk.own_iff.2 (hprep.sole hcopy)).mono (fun _ => id) ?_
  rintro m₂ ⟨h₂, hisolated⟩
  refine ⟨h₂, fun hcopy => .trans ?_ (hisolated hcopy)⟩
  exact ⟨hprep.tables, fun q l _ => hprep.lookup q l⟩

end Map

/-! ## The loop of `unmap` -/

/-- Every entry of the first table with a page in the range has a page outside of it too. -/
def Survives (m : Paging) (r start pages : ℕ) : Prop :=
  ∀ l, l.length = 4 → (m.graph.lookup r l).isSome → InRange start pages l →
    ∃ l', l'.length = 4 ∧ (m.graph.lookup r l').isSome ∧ ¬ InRange start pages l' ∧
      l'.head? = l.head?

/-- The state in the middle of the loop of `unmap`. -/
structure Sweep (m₀ : Paging) (r base start pages : ℕ) (s : Paging × Cursor) : Prop where
  sound : s.1.Sound
  root : s.1.tables r = some base
  outside : ∀ l, l.length = 4 → ¬ InRange start pages l → s.1.graph.lookup r l = m₀.graph.lookup r l
  fewer : ∀ l, l.length = 4 → (s.1.graph.lookup r l).isSome → (m₀.graph.lookup r l).isSome
  near : s.2.index.Near
  above : start ≤ s.2.index.number
  upTo : s.2.index.number ≤ start + s.2.i
  /-- `pml4e` is the entry of the index, or it is absent. -/
  slot : s.2.slot = s.2.index.pml4e ∨ (s.1.entries base s.2.slot).flags.present = false

variable {m₀ : Paging} {start pages : ℕ} {c : Cursor}

lemma isSome_lookup_head {l : List ℕ} {i : ℕ} (h : (m.graph.lookup r l).isSome)
    (hhead : l.head? = some i) : (m.graph.lookup r [i]).isSome := by
  cases l with
  | nil => simp at hhead
  | cons j l =>
    obtain rfl : j = i := by simpa using hhead
    rw [lookup] at h ⊢
    cases hroot : m.graph.root r with
    | none => simp [hroot] at h
    | some b =>
      rw [hroot, bind_some, follow_cons] at h
      rw [bind_some, follow_cons]
      cases hlink : m.graph.link b j with
      | none => simp [hlink] at h
      | some y => rfl

variable {c' : Cursor} {a : Action} {actions : List Action}

lemma Sweep.move (h : Sweep m₀ r base start pages (m, c)) (hnear : c'.index.Near)
    (habove : start ≤ c'.index.number) (hupTo : c'.index.number ≤ start + c'.i)
    (hslot : c'.slot = c'.index.pml4e ∨ (m.entries base c'.slot).flags.present = false) :
    Sweep m₀ r base start pages (m, c') :=
  ⟨h.sound, h.root, h.outside, h.fewer, hnear, habove, hupTo, hslot⟩

lemma Sweep.remove (h : Sweep m₀ r base start pages (m, c)) {ix : Index}
    (hsurvives : m₀.Survives r start pages) (hmapped : (m.graph.lookup r ix.path).isSome)
    (hrange : InRange start pages ix.path) (hu : m.Unmapped m' 0 r ix) (hnear : c'.index.Near)
    (habove : start ≤ c'.index.number) (hupTo : c'.index.number ≤ start + c'.i)
    (hslot : c'.slot = c'.index.pml4e) :
    Sweep m₀ r base start pages (m', c') := by
  have hkeep : ∀ l, l.length = 4 → ¬ InRange start pages l →
      m'.graph.lookup r l = m.graph.lookup r l := by
    intro l hl hout
    have hne : ¬ (r = r ∧ l = ix.path) := by
      rintro ⟨-, rfl⟩
      exact hout hrange
    rw [hu.page r l hl, if_neg hne]
  have hfirst : (m'.graph.lookup r [ix.pml4e]).isSome := by
    obtain ⟨l, hl, hsome, hout, hhead⟩ := hsurvives ix.path rfl (h.fewer ix.path rfl hmapped) hrange
    refine isSome_lookup_head ?_ hhead
    rw [hkeep l hl hout, h.outside l hl hout]
    exact hsome
  refine ⟨⟨hu.accounts fun _ => hfirst⟩, hu.tables.symm ▸ h.root, ?_, ?_, hnear,
    habove, hupTo, .inl hslot⟩
  · intro l hl hout
    exact (hkeep l hl hout).trans (h.outside l hl hout)
  · intro l hl hsome
    refine h.fewer l hl ?_
    rw [hu.page r l hl] at hsome
    split at hsome
    · simp at hsome
    · exact hsome

/-- **What a pass of the loop of `unmap` does** at the page of the indices: it goes over the
absent entry of one of the four tables, or it removes the page. -/
inductive Pass (m : Paging) (b r base slot i : ℕ) (ix : Index) : Paging × Cursor → Prop
  | first (habsent : (m.entries base slot).flags.present = false) :
      Pass m b r base slot i ix (m, ⟨i + ((512 - ix.pdpe) * 512 * 512 + (512 - ix.pde) * 512 +
        (512 - ix.pte)), ⟨ix.pml4e + 1, 0, 0, 0⟩, slot⟩)
  | second (habsent : (m.entries (m.pdptOf base ix) ix.pdpe).flags.present = false) :
      Pass m b r base slot i ix (m, ⟨i + ((512 - ix.pde) * 512 + (512 - ix.pte)),
        ⟨ix.pml4e, ix.pdpe + 1, 0, 0⟩, ix.pml4e⟩)
  | third (habsent : (m.entries (m.pdOf base ix) ix.pde).flags.present = false) :
      Pass m b r base slot i ix (m, ⟨i + (512 - ix.pte), ⟨ix.pml4e, ix.pdpe, ix.pde + 1, 0⟩,
        ix.pml4e⟩)
  | last (habsent : (m.entries (m.ptOf base ix) ix.pte).flags.present = false) :
      Pass m b r base slot i ix (m, ⟨i + 1, { ix with pte := ix.pte + 1 }, ix.pml4e⟩)
  | removed (hmapped : (m.graph.lookup r ix.path).isSome) {m' : Paging}
      (hu : m.Unmapped m' b r ix) :
      Pass m b r base slot i ix (m', ⟨i + 1, { ix with pte := ix.pte + 1 }, ix.pml4e⟩)

lemma Pass.isolated {b slot i : ℕ} {ix : Index} {s : Paging × Cursor}
    (hs : m.Pass b r base slot i ix s) : m.Isolated s.1 r := by
  cases hs with
  | first | second | third | last => exact .refl m
  | removed _ hu =>
    refine ⟨hu.tables, fun q l hq hl => ?_⟩
    rw [hu.page q l hl, if_neg fun hself => hq hself.1]

lemma unmapStep_pass {b : ℕ} (h : m.Accounts b) (hb : b ≤ 1) (hr : m.tables r = some base)
    (hnear : c.index.Near)
    (hslot : c.slot = c.index.pml4e ∨ (m.entries base c.slot).flags.present = false) :
    ∃ ix : Index, ∃ slot, ix.Inside ∧ ix.number = c.index.number ∧
      (c.slot = c.index.pml4e → slot = ix.pml4e) ∧
      Ensures Panic.Refusal (m.unmapStep base c) (m.Pass b r base slot c.i ix) := by
  obtain ⟨hpdpe, hpde, hpte, hnumber, hsame⟩ := hnear.normalizeIndex
  rw [unmapStep]
  dsimp only
  generalize c.index.normalizeIndex.2 = ix at *
  generalize hslot' : (if c.index.normalizeIndex.1 = true then ix.pml4e else c.slot) = slot
  have hcase : slot = ix.pml4e ∨ slot = c.slot ∧ ix = c.index := by
    rw [← hslot']
    split
    · exact .inl rfl
    next hcheck => exact .inr ⟨rfl, hsame (Bool.eq_false_iff.2 hcheck)⟩
  refine ⟨ix, slot, ⟨hpdpe, hpde, hpte⟩, hnumber, fun hc => ?_, ?_⟩
  · rcases hcase with hcase | ⟨rfl, rfl⟩
    · exact hcase
    · exact hc
  split
  · exact .error ⟨nofun, nofun⟩
  rename_i hbound
  split
  next habsent => exact .ok (.first habsent)
  rename_i hpresent
  obtain rfl : slot = ix.pml4e := by
    rcases hcase with hcase | ⟨rfl, rfl⟩
    · exact hcase
    · exact hslot.resolve_right hpresent
  split
  next habsent => exact .ok (.second habsent)
  rename_i hpresent₂
  split
  next habsent => exact .ok (.third habsent)
  rename_i hpresent₃
  split
  next habsent => exact .ok (.last habsent)
  rename_i hpresent₄
  have hw : m.Walk base ix _ _ _ :=
    ⟨link_of_present (Nat.not_le.1 hbound) (Bool.eq_true_of_not_eq_false hpresent),
      link_of_present hpdpe (Bool.eq_true_of_not_eq_false hpresent₂),
      link_of_present hpde (Bool.eq_true_of_not_eq_false hpresent₃)⟩
  have hc := link_of_present hpte (Bool.eq_true_of_not_eq_false hpresent₄)
  have hend := (lookup_extend (hw.lookup_third hr) ix.pte).trans hc
  refine ((unmapPage_ensures h hb hr hw hc
    (Bool.eq_true_of_not_eq_false hpresent₄)).mono (fun _ => Panic.Zone.refusal)
    fun _ hu => hu).bind ?_
  intro m' hu
  exact .ok (.removed (isSome_iff_exists.2 ⟨_, hend⟩) hu)

lemma unmapStep_ensures (h : Sweep m₀ r base start pages (m, c))
    (hsurvives : m₀.Survives r start pages) (hi : c.i < pages) :
    Ensures Panic.Refusal (m.unmapStep base c) fun s =>
      Sweep m₀ r base start pages s ∧ m.Isolated s.1 r := by
  obtain ⟨ix, slot, hix, hnumber, -, hpass⟩ :=
    unmapStep_pass (c := c) h.sound.accounts (Nat.zero_le 1) h.root h.near h.slot
  have habove := h.above
  have hupTo := h.upTo
  dsimp only at habove hupTo
  obtain ⟨hn₁, hn₂, hn₃, hn₄⟩ := Index.number_next hix
  refine hpass.mono (fun _ => id) fun s hs => ⟨?_, hs.isolated⟩
  cases hs with
  | first habsent =>
    refine h.move (.inr (.inr ⟨Nat.zero_le _, rfl, rfl⟩)) ?_ ?_ (.inr habsent) <;>
      dsimp only <;> omega
  | second =>
    refine h.move (.inr (.inr ⟨hix.1, rfl, rfl⟩)) ?_ ?_ (.inl rfl) <;> dsimp only <;> omega
  | third =>
    refine h.move (.inr (.inl ⟨hix.1, hix.2.1, rfl⟩)) ?_ ?_ (.inl rfl) <;> dsimp only <;> omega
  | last => refine h.move (.inl hix) ?_ ?_ (.inl rfl) <;> dsimp only <;> omega
  | removed hmapped hu =>
    have hrange : InRange start pages ix.path := by
      rw [InRange, pageNumber_path]
      omega
    refine h.remove hsurvives hmapped hrange hu (.inl hix) ?_ ?_ rfl <;> dsimp only <;> omega

lemma unmapPages_ensures (hsurvives : m₀.Survives r start pages) (n : ℕ) :
    ∀ {m : Paging} {c : Cursor}, Sweep m₀ r base start pages (m, c) →
      Ensures Panic.Refusal (unmapPages base pages n c m) fun m' =>
        m'.Sound ∧ m.Isolated m' r := by
  induction n with
  | zero =>
    intro m c h
    exact .ok ⟨h.sound, .refl m⟩
  | succ n ih =>
    intro m c h
    rw [unmapPages]
    split
    next hi =>
      refine (unmapStep_ensures h hsurvives hi).bind ?_
      rintro ⟨m', c'⟩ ⟨h', hisolated⟩
      exact (ih h').mono (fun _ => id) fun _ h'' => ⟨h''.1, hisolated.trans h''.2⟩
    · exact .ok ⟨h.sound, .refl m⟩

lemma unmap_ensures (h : m.Sound) (hr : m.tables r = some base) (virt : ℕ)
    (hsurvives : m.Survives r (Index.unpack (virt / pageSize)).number pages) :
    Ensures Panic.Refusal (m.unmap base virt pages) fun m' => m'.Sound ∧ m.Isolated m' r := by
  obtain ⟨-, hpdpe, hpde, hpte⟩ := unpack_lt (virt / pageSize)
  rw [unmap]
  split
  · exact .error ⟨nofun, nofun⟩
  · exact unmapPages_ensures hsurvives pages
      ⟨h, hr, fun _ _ _ => rfl, fun _ _ hsome => hsome, .inl ⟨hpdpe, hpde, hpte.le⟩, le_rfl,
        Nat.le_add_right _ _, .inl rfl⟩

/-! ## Runs -/

def Orderly (m : Paging) : Action → Prop
  | .create _ => True
  | .map _ _ _ _ _ => True
  -- no entry of the first table goes
  | .unmap r virt pages => m.Survives r (Index.unpack (virt / pageSize)).number pages
  -- the target has no entry where the clone writes
  | .clone _ virt pages target => ∀ i, cloneSlot virt ≤ i →
      i < cloneSlot virt + (pages + hugePages - 1) / hugePages → m.graph.lookup target [i] = none
  -- the first table is empty
  | .destroy r => ∀ i, m.graph.lookup r [i] = none

lemma lookup_singleton (hr : m.tables r = some base) (i : ℕ) :
    m.graph.lookup r [i] = m.graph.link base i := by
  have hroot : m.graph.root r = some base := hr
  rw [lookup, hroot, bind_some, follow_cons]
  cases m.graph.link base i <;> rfl

lemma withTable_ensures {f : ℕ → Except Panic Paging} {P : Paging → Prop}
    (hf : ∀ base, m.tables r = some base → Ensures Panic.Refusal (f base) P) :
    Ensures Panic.Refusal (m.withTable r f) P := by
  rw [withTable]
  cases hr : m.tables r with
  | none => exact .error ⟨nofun, nofun⟩
  | some base => exact hf base hr

/-- **One operation.**  An orderly one keeps the accounts and fails no assertion. -/
theorem act_ensures (h : m.Sound) (ha : m.Orderly a) : Ensures Panic.Refusal (m.act a) Sound := by
  cases a with
  | create r =>
    rw [act]
    split
    next hr => exact create_ensures h hr
    · exact .error ⟨nofun, nofun⟩
  | map r virt pages flags actions =>
    refine withTable_ensures fun base hr => ?_
    exact (map_ensures h.accounts hr virt pages flags actions).mono
      (fun _ => id) fun _ h' => ⟨h'.1⟩
  | unmap r virt pages =>
    refine withTable_ensures fun base hr => ?_
    exact (unmap_ensures h hr virt ha).mono (fun _ => id) fun _ h' => h'.1
  | clone r virt pages target =>
    refine withTable_ensures fun src hsrc => withTable_ensures fun dst hdst => ?_
    refine cloneReadonlyTo_ensures h ⟨r, hsrc⟩ ⟨target, hdst⟩ virt pages fun i hle hlt => ?_
    rw [← lookup_singleton hdst]
    exact ha i hle hlt
  | destroy r =>
    refine withTable_ensures fun base hr => destroy_ensures h hr fun i => ?_
    rw [← lookup_singleton hr]
    exact ha i

/-- The operation maps or unmaps pages of `r`, and leaves no table shared on the way to them. -/
def WorksOn (r : ℕ) : Action → Prop
  | .map r' _ _ flags actions => r' = r ∧ Unshares flags actions
  | .unmap r' _ _ => r' = r
  | .create _ | .clone _ _ _ _ | .destroy _ => False

lemma act_isolated (h : m.Sound) (ha : m.Orderly a) (hr : WorksOn r a) :
    Ensures Panic.Refusal (m.act a) fun m' => m.Isolated m' r := by
  cases a with
  | map r' virt pages flags actions =>
    obtain ⟨rfl, hcopy⟩ := hr
    exact withTable_ensures fun base hr => (map_ensures h.accounts hr virt pages flags actions).mono
      (fun _ => id) fun _ h' => h'.2 hcopy
  | unmap r' virt pages =>
    obtain rfl := hr
    exact withTable_ensures fun base hr => (unmap_ensures h hr virt ha).mono
      (fun _ => id) fun _ h' => h'.2
  | create | clone | destroy => exact hr.elim

lemma Sound.step (h : m.Sound) (ha : m.Orderly a) (hstep : m.step a = some m') : m'.Sound :=
  (act_ensures h ha).of_ok (toOption_eq_some.1 hstep)

lemma sound_of_noTables (h : ∀ r, m.tables r = none) : m.Sound := by
  have htier : ∀ k x, x ∉ m.graph.tier k := by
    intro k
    induction k with
    | zero =>
      rintro x ⟨r, hr⟩
      simp [graph, h r] at hr
    | succ k ih =>
      rintro x ⟨g, hg, -⟩
      exact ih g hg
  refine ⟨⟨⟨?_, ?_, ?_, ?_⟩, ?_⟩⟩
  · intro p q b hp
    simp [graph, h p] at hp
  · intro p b hp
    simp [graph, h p] at hp
  · intro j _ k _ x hx
    exact absurd hx (htier j x)
  · intro k _ f hf
    exact absurd hf (htier (k + 1) f)
  · intro k _ _ t ht
    exact absurd ht (htier k t)

open Transition

lemma sound_of_exec (hstart : ∀ r, m₀.tables r = none) (horderly : Along step Orderly m₀ actions)
    (hrun : exec step m₀ actions = some m) : m.Sound :=
  exec_induct (I := Sound) (fun _ _ _ h ha hstep => h.step ha hstep)
    (sound_of_noTables hstart) horderly hrun

/-- **The accounts of the page tables.**  After every orderly run the counter of a table is the
number of its present entries, the reference count of a table or a mapped frame is the number of
entries that name it, what an entry names is not free, and no orderly operation fails an
assertion or gives back a page without references. -/
theorem accounts_of_exec {m₀ : Paging} {actions : List Action}
    (hstart : ∀ r, m₀.tables r = none) (horderly : Along step Orderly m₀ actions)
    (hrun : exec step m₀ actions = some m) :
    (∀ k < 4, ∀ t ∈ m.graph.tier k, m.counter t = m.count t) ∧
      (∀ k < 4, ∀ f ∈ m.graph.tier (k + 1), (m.refs f : ℕ∞) = (m.graph.parents k f).encard) ∧
      (∀ k ≤ 4, ∀ f ∈ m.graph.tier k, m.refs f ≠ 0) ∧
      ∀ a, m.Orderly a → m.act a ≠ .error .kassert ∧ m.act a ≠ .error .unreferenced := by
  have hsound := sound_of_exec hstart horderly hrun
  refine ⟨fun k hk => hsound.accounts.counter k hk (Nat.zero_le k),
    hsound.accounts.counted.refs, fun k hk f hf => hsound.accounts.counted.pos hk hf, ?_⟩
  intro a ha
  have hact := act_ensures hsound ha
  exact ⟨fun herr => (hact.of_error herr).1 rfl, fun herr => (hact.of_error herr).2 rfl⟩

def bare : Paging := { supply := List.range 16, bytes := fun _ => 0 }

def userPage : Flags := { writable := true, userMode := true }

def prepared : List Action := [.create 0, .map 0 0 2 userPage {}, .create 1]

def sharedThenUnmapped : List Action := prepared ++ [.clone 0 0 1 1] ++ [.unmap 0 0 1]

lemma along_sharedThenUnmapped : Along step Orderly bare sharedThenUnmapped := by
  have hclone : ((exec step bare prepared).map fun m => m.graph.lookup 1 [0]) = some none := by
    decide +kernel
  have hunmap : ((exec step bare (prepared ++ [.clone 0 0 1 1])).map fun m =>
      (m.graph.lookup 0 [0, 0, 0, 1]).isSome) = some true := by
    decide +kernel
  have hprepared : Along step Orderly bare prepared :=
    Along.of_mem (by simp [prepared, Orderly]) bare
  have hcloned : Along step Orderly bare (prepared ++ [.clone 0 0 1 1]) := by
    refine Along.concat hprepared fun m hm i _ hi => ?_
    obtain rfl : i = 0 := Nat.lt_one_iff.1 hi
    rw [hm] at hclone
    exact some.inj hclone
  refine Along.concat hcloned fun m hm l hl _ hrange => ?_
  rw [hm] at hunmap
  refine ⟨[0, 0, 0, 1], rfl, some.inj hunmap, by decide, ?_⟩
  -- only the first page is in the range
  obtain ⟨a, b, c, d, rfl⟩ : ∃ a b c d, l = [a, b, c, d] := List.length_eq_four.1 hl
  have hlt : pageNumber [a, b, c, d] < 0 + 1 := hrange.2
  simp only [pageNumber, slots, List.foldl_cons, List.foldl_nil] at hlt
  obtain rfl : a = 0 := by omega
  rfl

theorem accounts_sharedThenUnmapped : ∃ m, exec step bare sharedThenUnmapped = some m ∧
    ∀ k < 4, ∀ t ∈ m.graph.tier k, m.counter t = m.count t := by
  obtain ⟨m, hm⟩ : ∃ m, exec step bare sharedThenUnmapped = some m :=
    isSome_iff_exists.1 (by decide +kernel)
  exact ⟨m, hm, (accounts_of_exec (fun _ => rfl) along_sharedThenUnmapped hm).1⟩

def emptied : List Action := [.create 0, .map 0 0 1 userPage {}, .unmap 0 0 1]

def sharedOnce : List Action := [.create 0, .map 0 0 1 userPage {}, .create 1, .clone 0 0 1 1]

set_option maxRecDepth 20000 in
lemma tables_sharedThenDestroyed : (exec step bare (sharedOnce ++ [.destroy 1])).map tables =
    some (update (update (update (fun _ => none) 0 (some 0)) 1 (some 5)) 1 none) := rfl

def failure (m : Paging) (a : Action) : Option Panic :=
  match m.act a with
  | .ok _ => none
  | .error e => some e

lemma act_of_failure {e : Panic} (h : m.failure a = some e) : m.act a = .error e := by
  rw [failure] at h
  split at h
  · simp at h
  next herr => rw [herr, some.inj h]

/-- **Each of the three uses breaks the accounts.**  When the only page is removed the first
table counts an entry that it does not have, and the next `map` fails its assertion.  When a
table that shares is destroyed, two references are left for one entry.  A second clone to the
same target fails its assertion. -/
theorem not_accounts_disorderly :
    (∃ m, exec step bare emptied = some m ∧ m.tables 0 = some 0 ∧ m.counter 0 = 1 ∧
        m.count 0 = 0 ∧ m.act (.map 0 0 1 userPage {}) = .error .kassert) ∧
      (∃ m, exec step bare (sharedOnce ++ [.destroy 1]) = some m ∧ 1 ∈ m.graph.tier 1 ∧
        m.refs 1 = 2 ∧ m.graph.parents 0 1 = {(0, 0)}) ∧
      ∃ m, exec step bare sharedOnce = some m ∧ m.act (.clone 0 0 1 1) = .error .kassert := by
  have hunmap : ((exec step bare emptied).map fun m => (m.tables 0, m.counter 0, m.count 0,
      m.failure (.map 0 0 1 userPage {}))) = some (some 0, 1, 0, some .kassert) := by
    decide +kernel
  have hdestroy : ((exec step bare (sharedOnce ++ [.destroy 1])).map fun m => (m.refs 1,
      decide (∀ i < slots, m.graph.link 0 i = some 1 ↔ i = 0))) = some (2, true) := by
    decide +kernel
  have htables := tables_sharedThenDestroyed
  have hclone : ((exec step bare sharedOnce).map fun m => m.failure (.clone 0 0 1 1)) =
      some (some .kassert) := by
    decide +kernel
  refine ⟨?_, ?_, ?_⟩
  · obtain ⟨m, hm, heval⟩ := map_eq_some_iff.1 hunmap
    simp only [Prod.mk.injEq] at heval
    obtain ⟨hroot, hcounter, hcount, hfail⟩ := heval
    exact ⟨m, hm, hroot, hcounter, hcount, act_of_failure hfail⟩
  · obtain ⟨m, hm, heval⟩ := map_eq_some_iff.1 hdestroy
    rw [hm, map_some, Option.some.injEq] at htables
    simp only [Prod.mk.injEq, decide_eq_true_eq] at heval
    obtain ⟨hrefs, hlink⟩ := heval
    have hroot : ∀ r g, m.tables r = some g → g = 0 := by
      intro r g hr
      rw [htables] at hr
      simp only [update_apply] at hr
      split_ifs at hr
      simp_all
    have hfirst : m.tables 0 = some 0 := by
      rw [htables]
      rfl
    have hzero : m.graph.link 0 0 = some 1 := (hlink 0 (by decide)).2 rfl
    refine ⟨m, hm, ⟨0, ⟨0, hfirst⟩, 0, hzero⟩, hrefs, ?_⟩
    ext ⟨g, i⟩
    constructor
    · rintro ⟨⟨r, hr⟩, hparent⟩
      obtain rfl := hroot r g hr
      have hlt : i < slots := by
        by_contra hge
        simp [graph_link, hge] at hparent
      rw [(hlink i hlt).1 hparent]
      rfl
    · rintro ⟨⟩
      exact ⟨⟨0, hfirst⟩, hzero⟩
  · obtain ⟨m, hm, hfail⟩ := map_eq_some_iff.1 hclone
    exact ⟨m, hm, act_of_failure hfail⟩

end Paging

end Naos.Mm
