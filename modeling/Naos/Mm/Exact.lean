import Naos.Mm.Runs

/-!
# The pages that `unmap` removes

The loop of `unmap` skips the pages behind an absent entry, and counts them.  At the last level
but one the count is right.  An absent entry for a gigabyte counts 512 pages too many, and behind
an absent entry of the first table nothing more is removed, so that a range that goes on in the
next gigabyte may keep pages.  The loop deletes a table with its last page: an entry is absent for
it from there on.
-/

namespace Naos.Mm

open Index

open Sharing Outcome Option

namespace Index

lemma number_skip {ix : Index} (hpte : ix.pte < slots) :
    number ⟨ix.pml4e, ix.pdpe, ix.pde + 1, 0⟩ = ix.number + (512 - ix.pte) := by
  simp only [number, slots] at *
  omega

lemma number_div {ix : Index} (h : ix.Inside) :
    ix.number / (slots * slots) = ix.pml4e * slots + ix.pdpe := by
  obtain ⟨hpdpe, hpde, hpte⟩ := h
  simp only [number, slots] at *
  omega

/-- What the skip over a gigabyte counts. -/
lemma number_region {ix : Index} (h : ix.Inside) :
    number ⟨ix.pml4e, ix.pdpe + 1, 0, 0⟩ = (ix.pml4e * slots + ix.pdpe + 1) * (slots * slots) ∧
      ix.number ≤ number ⟨ix.pml4e, ix.pdpe + 1, 0, 0⟩ ∧
      ix.number + ((512 - ix.pde) * 512 + (512 - ix.pte)) =
        number ⟨ix.pml4e, ix.pdpe + 1, 0, 0⟩ + 512 := by
  obtain ⟨hpdpe, hpde, hpte⟩ := h
  simp only [number, slots] at *
  omega

lemma eq_of_number {ix jx : Index} (hi : ix.Inside) (hj : jx.Inside)
    (h : ix.number = jx.number) : ix = jx := by
  obtain ⟨a, b, x, y⟩ := ix
  obtain ⟨a', b', x', y'⟩ := jx
  simp only [number, Inside, slots] at *
  rw [mk.injEq]
  omega

end Index

def numberOf (virt : ℕ) : ℕ := (unpack (virt / pageSize)).number

lemma numberOf_eq (virt : ℕ) : numberOf virt = virt / pageSize % 2 ^ 36 := by
  rw [numberOf, unpack, number]
  simp only [slots]
  omega

namespace Paging

variable {m m' m₀ : Paging} {r base start pages n e : ℕ} {c : Cursor} {l : List ℕ} {ix : Index}

abbrev regionPages : ℕ := slots * slots

abbrev slotPages : ℕ := slots * regionPages

/-- The loop meets an absent entry for the gigabyte: its last page is not mapped, and none in
front of the range is. -/
def Gap (m : Paging) (r start g : ℕ) : Prop :=
  m.graph.lookup r [g / slots, g % slots, 511, 511] = none ∧
    ∀ l, l.length = 4 → pageNumber l / regionPages = g → pageNumber l < start →
      m.graph.lookup r l = none

open Classical in
/-- The gigabytes with an absent entry between the start of a range and a page. -/
noncomputable def gaps (m : Paging) (r start n : ℕ) : ℕ :=
  ((Finset.Ico (start / regionPages) (n / regionPages)).filter (m.Gap r start)).card

/-- The entry of the first table stays while the loop is behind it. -/
def Stays (m : Paging) (r start a : ℕ) : Prop :=
  ∃ l, l.length = 4 ∧ pageNumber l / slotPages = a ∧
    (pageNumber l < start ∨ l = [a, 511, 511, 511]) ∧ (m.graph.lookup r l).isSome

/-- **The loop comes to every page of the range**: the entries of the first table on the way stay,
and the pages it counts too many do not use up the range. -/
def Reached (m : Paging) (r start pages : ℕ) : Prop :=
  ∀ l, l.length = 4 → InRange start pages l → (m.graph.lookup r l).isSome →
    (∀ a, start / slotPages ≤ a → a < pageNumber l / slotPages → m.Stays r start a) ∧
      pageNumber l + 512 * m.gaps r start (pageNumber l) < start + pages

/-- The pages of the range below a number are gone, and all others are as before, also those of
the other page tables. -/
def CutTo (m m' : Paging) (r start pages n : ℕ) : Prop :=
  ∀ q l, l.length = 4 → m'.graph.lookup q l =
    if q = r ∧ InRange start pages l ∧ pageNumber l < n then none else m.graph.lookup q l

/-- **The pages of the range are gone, and all others are as before.** -/
structure Exact (m m' : Paging) (r start pages : ℕ) : Prop where
  tables : m'.tables = m.tables
  bytes : m'.bytes = m.bytes
  page : m.CutTo m' r start pages (start + pages)

/-! ## Paths -/

lemma lookup_eq_none (hr : m.tables r = some base) (hl : l.length = 4)
    (h : ∀ {j : Index} {pdpt pd pt f : ℕ}, m.Walk base j pdpt pd pt →
      m.graph.link pt j.pte = some f → j.Inside → l ≠ j.path) :
    m.graph.lookup r l = none := by
  have hroot : m.graph.root r = some base := hr
  by_contra hmapped
  obtain ⟨f, hf⟩ := ne_none_iff_exists'.1 hmapped
  match l, hl with
  | [a, b, x, y], _ =>
    rw [Sharing.Graph.lookup, hroot, bind_some] at hf
    obtain ⟨pdpt, hfirst, hf⟩ := bind_eq_some_iff.1 hf
    obtain ⟨pd, hsecond, hf⟩ := bind_eq_some_iff.1 hf
    obtain ⟨pt, hthird, hf⟩ := bind_eq_some_iff.1 hf
    obtain ⟨f', hlast, -⟩ := bind_eq_some_iff.1 hf
    have hinside : Index.Inside ⟨a, b, x, y⟩ :=
      ⟨(link_eq_some.1 hsecond).1, (link_eq_some.1 hthird).1, (link_eq_some.1 hlast).1⟩
    exact h (j := ⟨a, b, x, y⟩) ⟨hfirst, hsecond, hthird⟩ hlast hinside rfl

lemma Walk.present {pdpt pd pt : ℕ} (hw : m.Walk base ix pdpt pd pt) :
    (m.entries base ix.pml4e).flags.present = true ∧
      (m.entries (m.pdptOf base ix) ix.pdpe).flags.present = true ∧
      (m.entries (m.pdOf base ix) ix.pde).flags.present = true := by
  rw [hw.pdptOf_eq, hw.pdOf_eq]
  exact ⟨(link_eq_some.1 hw.first).2.1, (link_eq_some.1 hw.second).2.1,
    (link_eq_some.1 hw.third).2.1⟩

lemma CutTo.pass (h : m₀.CutTo m r start pages n) (hle : n ≤ e)
    (hnone : ∀ l, l.length = 4 → InRange start pages l → n ≤ pageNumber l →
      pageNumber l < e → m.graph.lookup r l = none) : m₀.CutTo m r start pages e := by
  intro q l hl
  by_cases hnew : q = r ∧ InRange start pages l ∧ pageNumber l < e
  · rw [if_pos hnew]
    obtain ⟨rfl, hrange, hlt⟩ := hnew
    by_cases hold : pageNumber l < n
    · rw [h q l hl, if_pos ⟨rfl, hrange, hold⟩]
    · exact hnone l hl hrange (not_lt.1 hold) hlt
  · rw [if_neg hnew, h q l hl, if_neg]
    rintro ⟨hq, hrange, hlt⟩
    exact hnew ⟨hq, hrange, hlt.trans_le hle⟩

lemma CutTo.lookup_of_le (h : m₀.CutTo m r start pages n) (hl : l.length = 4)
    (hle : n ≤ pageNumber l) : m.graph.lookup r l = m₀.graph.lookup r l := by
  rw [h r l hl, if_neg]
  rintro ⟨-, -, hlt⟩
  exact absurd hlt (not_lt.2 hle)

/-! ## The loop -/

lemma gaps_mono (m : Paging) (r start : ℕ) (h : n ≤ e) : m.gaps r start n ≤ m.gaps r start e := by
  classical
  refine Finset.card_le_card (Finset.filter_subset_filter _ ?_)
  exact Finset.Ico_subset_Ico le_rfl (Nat.div_le_div_right h)

/-- A gigabyte with an absent entry is counted behind it. -/
lemma gaps_skip {g : ℕ} (hstart : start ≤ n) (hn : n / regionPages = g)
    (hgap : m.Gap r start g) :
    m.gaps r start n + 1 ≤ m.gaps r start ((g + 1) * regionPages) := by
  classical
  have hlow : start / regionPages ≤ g := hn ▸ Nat.div_le_div_right hstart
  have hnext : (g + 1) * regionPages / regionPages = g + 1 := Nat.mul_div_cancel _ (by decide)
  rw [gaps, gaps, hn, hnext]
  refine Finset.card_lt_card ⟨Finset.filter_subset_filter _ ?_, fun hsub => ?_⟩
  · exact Finset.Ico_subset_Ico le_rfl (Nat.le_succ g)
  · have hmem := hsub (Finset.mem_filter.2 ⟨Finset.mem_Ico.2 ⟨hlow, Nat.lt_succ_self g⟩, hgap⟩)
    exact lt_irrefl g (Finset.mem_Ico.1 (Finset.mem_filter.1 hmem).1).2

/-- The state in the middle of the loop of `unmap`: the pages counted are at least those behind
it, and at most 512 more for each gap. -/
structure Cut (m₀ : Paging) (r base start pages : ℕ) (s : Paging × Cursor) : Prop where
  accounts : s.1.Accounts 1
  tables : s.1.tables = m₀.tables
  bytes : s.1.bytes = m₀.bytes
  root : s.1.tables r = some base
  page : m₀.CutTo s.1 r start pages s.2.index.number
  near : s.2.index.Near
  slot : s.2.slot = s.2.index.pml4e
  above : start ≤ s.2.index.number
  least : s.2.index.number ≤ start + s.2.i
  most : start + s.2.i ≤ s.2.index.number + 512 * m₀.gaps r start s.2.index.number

/-- The loop stays at an absent entry of the first table, and has nothing left to do. -/
structure Stuck (m₀ : Paging) (r base start pages : ℕ) (s : Paging × Cursor) : Prop where
  exact : m₀.Exact s.1 r start pages
  pdpe : s.2.index.pdpe = 0
  pde : s.2.index.pde = 0
  pte : s.2.index.pte = 0
  absent : (s.1.entries base s.2.slot).flags.present = false

section

variable (h : Cut m₀ r base start pages (m, c))
include h

lemma Cut.exact (hnone : ∀ l, l.length = 4 → InRange start pages l → c.index.number ≤ pageNumber l →
      m.graph.lookup r l = none) : m₀.Exact m r start pages := by
  refine ⟨h.tables, h.bytes, fun q l hl => ?_⟩
  have hpass := h.page.pass (e := max c.index.number (start + pages)) (le_max_left _ _)
    fun l hl hrange hle _ => hnone l hl hrange hle
  rw [hpass q l hl]
  refine if_congr (and_congr_right fun _ => and_congr_right fun hrange => ?_) rfl rfl
  exact iff_of_true (lt_max_of_lt_right hrange.2) hrange.2

/-- The count stays right over a stretch whose pages it counts. -/
lemma Cut.most_of_next {k : ℕ} (hnext : e = c.index.number + k) :
    start + (c.i + k) ≤ e + 512 * m₀.gaps r start e := by
  have hmost := h.most
  have hmono := gaps_mono m₀ r start (n := c.index.number) (e := e) (by omega)
  dsimp only at hmost
  omega

lemma Cut.remove (hnumber : ix.number = c.index.number) (hin : c.i < pages)
    (hu : m.Unmapped m' 1 r ix) (hix : ix.Inside) :
    Cut m₀ r base start pages (m', ⟨c.i + 1, { ix with pte := ix.pte + 1 }, ix.pml4e⟩) := by
  have habove := h.above
  have hleast := h.least
  have hnext := (number_next hix).2.2.2
  dsimp only at habove hleast
  refine ⟨hu.accounts nofun, hu.tables.trans h.tables, hu.bytes.trans h.bytes,
    hu.tables.symm ▸ h.root, fun q l hl => ?_, .inl hix, rfl, by dsimp only; omega,
    by dsimp only; omega, h.most_of_next (by dsimp only; omega)⟩
  dsimp only
  rw [hu.page q l hl, hnext]
  by_cases hpath : q = r ∧ l = ix.path
  · obtain ⟨rfl, rfl⟩ := hpath
    rw [if_pos ⟨rfl, rfl⟩, if_pos]
    rw [InRange, pageNumber_path]
    omega
  rw [if_neg hpath]
  by_cases hhere : q = r ∧ pageNumber l = ix.number
  · -- another path with this number has an index behind the end of a table
    obtain ⟨rfl, heq⟩ := hhere
    have hnone : m.graph.lookup q l = none := by
      refine lookup_eq_none h.root hl fun _ _ hjx hl => ?_
      rw [hl, pageNumber_path] at heq
      exact hpath ⟨rfl, by rw [hl, eq_of_number hjx hix heq]⟩
    rw [← h.page.lookup_of_le hl (heq.trans hnumber).ge, hnone, ite_self]
  · rw [h.page q l hl]
    refine if_congr (and_congr_right fun hq => and_congr_right fun _ => ?_) rfl rfl
    have hne : pageNumber l ≠ ix.number := fun heq => hhere ⟨hq, heq⟩
    dsimp only
    omega

/-- The pages of a gigabyte whose entry is absent are not mapped, and it is a gap. -/
lemma Cut.gap (hnumber : ix.number = c.index.number) (hix : ix.Inside)
    (habsent : ∀ {jx : Index} {pdpt pd pt : ℕ}, m.Walk base jx pdpt pd pt →
      ¬ (jx.pml4e = ix.pml4e ∧ jx.pdpe = ix.pdpe)) :
    m₀.Gap r start (ix.pml4e * slots + ix.pdpe) ∧
      ∀ l, l.length = 4 → pageNumber l / regionPages = ix.pml4e * slots + ix.pdpe →
        m.graph.lookup r l = none := by
  have hnone : ∀ l, l.length = 4 → pageNumber l / regionPages = ix.pml4e * slots + ix.pdpe →
      m.graph.lookup r l = none := by
    intro l hl hregion
    refine lookup_eq_none h.root hl fun hw _ hjx hpath => habsent hw ?_
    rw [hpath, pageNumber_path] at hregion
    simp only [number, Index.Inside, slots, regionPages] at *
    omega
  have hlast : pageNumber [(ix.pml4e * slots + ix.pdpe) / slots,
      (ix.pml4e * slots + ix.pdpe) % slots, 511, 511] =
      (ix.pml4e * slots + ix.pdpe) * regionPages + (regionPages - 1) := by
    simp only [pageNumber, slots, regionPages, List.foldl_cons, List.foldl_nil]
    omega
  refine ⟨⟨?_, fun l hl hregion hlt => ?_⟩, hnone⟩
  · rw [← h.page.lookup_of_le rfl, hnone _ rfl]
    · rw [hlast]
      simp only [slots, regionPages]
      omega
    · rw [hlast, ← hnumber]
      simp only [number, Index.Inside, slots, regionPages] at *
      omega
  · have hkept := h.page r l hl
    rw [if_neg fun hcut => absurd hcut.2.1.1 (not_le.2 hlt)] at hkept
    rw [← hkept, hnone l hl hregion]

/-- Where the entry of the first table is absent, the sweep is done. -/
lemma Cut.exact_of_first (hreached : m₀.Reached r start pages)
    (hnumber : ix.number = c.index.number) (hix : ix.Inside)
    (habsent : (m.entries base ix.pml4e).flags.present = false) :
    m₀.Exact m r start pages := by
  have hnone : ∀ l, l.length = 4 → pageNumber l / slotPages = ix.pml4e →
      m.graph.lookup r l = none := by
    intro l hl hslot
    refine lookup_eq_none h.root hl fun {j} _ _ _ _ hw _ hjx hpath => ?_
    have hsame : j.pml4e = ix.pml4e := by
      rw [hpath, pageNumber_path] at hslot
      simp only [number, Index.Inside, slots, regionPages, slotPages] at *
      omega
    rw [← hsame, hw.present.1] at habsent
    cases habsent
  have habove := h.above
  dsimp only at habove
  have hhere : ix.number / slotPages = ix.pml4e := by
    simp only [number, Index.Inside, slots, regionPages, slotPages] at *
    omega
  refine h.exact fun l hl hrange hle => ?_
  by_contra hmapped
  have hsome := Option.isSome_iff_ne_none.2 hmapped
  rw [h.page.lookup_of_le hl hle] at hsome
  have hlater : ix.pml4e < pageNumber l / slotPages := by
    refine lt_of_le_of_ne ?_ fun heq => hmapped (hnone l hl heq.symm)
    rw [← hhere, hnumber]
    exact Nat.div_le_div_right hle
  have hfrom : start / slotPages ≤ ix.pml4e := by
    rw [← hhere, hnumber]
    exact Nat.div_le_div_right habove
  obtain ⟨k, hk, hslot, hplace, hkept⟩ := (hreached l hl hrange hsome).1 _ hfrom hlater
  have hgone := hnone k hk hslot
  rcases hplace with hlt | rfl
  · have hsame := h.page r k hk
    rw [if_neg fun hcut => absurd hcut.2.1.1 (not_le.2 hlt)] at hsame
    rw [← hsame, hgone] at hkept
    cases hkept
  · rw [← h.page.lookup_of_le hk, hgone] at hkept
    · cases hkept
    · obtain ⟨hpdpe, hpde, hpte⟩ := hix
      rw [← hnumber]
      simp only [number, pageNumber, slots, List.foldl_cons, List.foldl_nil] at hpdpe hpde hpte ⊢
      omega

/-- **A pass of the loop**: the sweep goes on, or is stuck at an absent entry and done. -/
theorem unmapStep_exact (hreached : m₀.Reached r start pages) (hi : c.i < pages) :
    Ensures Panic.Refusal (m.unmapStep base c) fun s => c.i < s.2.i ∧
      (Cut m₀ r base start pages s ∨ Stuck m₀ r base start pages s) := by
  obtain ⟨ix, slot, hix, hnumber, hslot, hpass⟩ :=
    unmapStep_pass (c := c) h.accounts le_rfl h.root h.near (.inl h.slot)
  obtain rfl := hslot h.slot
  have habove := h.above
  have hleast := h.least
  have hcut : m₀.CutTo m r start pages c.index.number := h.page
  have hroot : m.tables r = some base := h.root
  have hnext := (number_next hix).2.2.2
  have hpte := hix.2.2
  dsimp only at habove hleast
  refine hpass.mono (fun _ => id) fun s hs => ?_
  cases hs with
  | first habsent =>
    refine ⟨?_, .inr ⟨h.exact_of_first hreached hnumber hix habsent, rfl, rfl, rfl, habsent⟩⟩
    simp only [slots] at hpte
    dsimp only
    omega
  | second habsent =>
    obtain ⟨hgap, hnone⟩ := h.gap hnumber hix fun {jx} _ _ _ hw hsame => by
      have hpresent := hw.present.2.1
      rw [pdptOf, hsame.1, hsame.2] at hpresent
      cases habsent.symm.trans hpresent
    have hregion : c.index.number / regionPages = ix.pml4e * slots + ix.pdpe := by
      rw [← hnumber, number_div hix]
    obtain ⟨hend, hbehind, hmore⟩ := number_region hix
    have hskip := gaps_skip habove hregion hgap
    have hmost := h.most
    have hlow : (ix.pml4e * slots + ix.pdpe) * regionPages ≤ c.index.number :=
      hregion ▸ Nat.div_mul_le_self _ _
    have hpass := hcut.pass (e := number ⟨ix.pml4e, ix.pdpe + 1, 0, 0⟩)
      (by omega) fun l hl _ hle hlt =>
        hnone l hl (Nat.div_eq_of_lt_le (hlow.trans hle) (hend ▸ hlt))
    rw [← hend] at hskip
    simp only [slots] at hpte
    dsimp only at hmost
    exact ⟨by dsimp only; omega, .inl ⟨h.accounts, h.tables, h.bytes, h.root, hpass,
      .inr (.inr ⟨hix.1, rfl, rfl⟩), rfl, by dsimp only; omega, by dsimp only; omega,
      by dsimp only; omega⟩⟩
  | third habsent =>
    have hskip := number_skip hpte
    have hpass := hcut.pass (e := number ⟨ix.pml4e, ix.pdpe, ix.pde + 1, 0⟩)
      (by omega) fun l hl _ hle hlt => lookup_eq_none hroot hl fun {j} {_ _ _ _} hw _ hj hpath => by
          rw [hpath, pageNumber_path] at hle hlt
          have heq : j.pml4e = ix.pml4e ∧ j.pdpe = ix.pdpe ∧ j.pde = ix.pde := by
            simp only [number, Index.Inside, slots] at *
            omega
          have hpresent := hw.present.2.2
          rw [pdOf, pdptOf, heq.1, heq.2.1, heq.2.2] at hpresent
          cases habsent.symm.trans hpresent
    simp only [slots] at hpte
    exact ⟨by dsimp only; omega, .inl ⟨h.accounts, h.tables, h.bytes, h.root, hpass,
      .inr (.inl ⟨hix.1, hix.2.1, rfl⟩), rfl, by dsimp only; omega, by dsimp only; omega,
      h.most_of_next (by dsimp only; omega)⟩⟩
  | last habsent =>
    have hpass := hcut.pass (e := number { ix with pte := ix.pte + 1 })
      (by omega) fun l hl _ hle hlt => lookup_eq_none hroot hl fun hw hf hj hpath => by
        rw [hpath, pageNumber_path] at hle hlt
        obtain rfl := eq_of_number hj hix (by omega)
        rw [hw.ptOf_eq, (link_eq_some.1 hf).2.1] at habsent
        cases habsent
    exact ⟨Nat.lt_succ_self _, .inl ⟨h.accounts, h.tables, h.bytes, h.root, hpass, .inl hix, rfl,
      by dsimp only; omega, by dsimp only; omega, h.most_of_next (by dsimp only; omega)⟩⟩
  | removed _ hu => exact ⟨Nat.lt_succ_self _, .inl (h.remove hnumber hi hu hix)⟩

/-- When the count is used up, the sweep is done. -/
lemma Cut.done (hreached : m₀.Reached r start pages) (hi : pages ≤ c.i) :
    m₀.Exact m r start pages := by
  refine h.exact fun l hl hrange hle => ?_
  by_contra hmapped
  have hsome := Option.isSome_iff_ne_none.2 hmapped
  rw [h.page.lookup_of_le hl hle] at hsome
  have hlt := (hreached l hl hrange hsome).2
  have hmono := gaps_mono m₀ r start hle
  have hmost := h.most
  dsimp only at hmost
  omega

end

lemma unmapStep_stuck (h : Stuck m₀ r base start pages (m, c)) :
    Ensures Panic.Refusal (m.unmapStep base c) fun s => c.i < s.2.i ∧
      Stuck m₀ r base start pages s := by
  obtain ⟨hexact, hpdpe, hpde, hpte, habsent⟩ := h
  dsimp only at hpdpe hpde hpte habsent
  have hnormal : c.index.normalizeIndex = (false, c.index) := by
    simp [normalizeIndex, hpdpe, hpde, hpte]
  rw [unmapStep, hnormal]
  dsimp only
  rw [if_neg Bool.false_ne_true]
  split
  · exact .error ⟨by simp, by simp⟩
  · refine .ok ⟨?_, hexact, rfl, rfl, rfl, habsent⟩
    dsimp only
    omega

lemma unmapPages_exact (hreached : m₀.Reached r start pages) (n : ℕ) :
    ∀ {m : Paging} {c : Cursor}, (Cut m₀ r base start pages (m, c) ∨
        Stuck m₀ r base start pages (m, c)) → pages ≤ c.i + n →
      Ensures Panic.Refusal (unmapPages base pages n c m) fun m' => m₀.Exact m' r start pages := by
  have hdone : ∀ {m : Paging} {c : Cursor}, (Cut m₀ r base start pages (m, c) ∨
      Stuck m₀ r base start pages (m, c)) → pages ≤ c.i → m₀.Exact m r start pages := by
    rintro m c (h | h) hle
    · exact h.done hreached hle
    · exact h.exact
  induction n with
  | zero =>
    intro m c h hn
    exact .ok (hdone h hn)
  | succ n ih =>
    intro m c h hn
    rw [unmapPages]
    split
    next hi =>
      have hstep : Ensures Panic.Refusal (m.unmapStep base c) fun s => c.i < s.2.i ∧
          (Cut m₀ r base start pages s ∨ Stuck m₀ r base start pages s) := by
        rcases h with h | h
        · exact unmapStep_exact h hreached hi
        · exact (unmapStep_stuck h).mono (fun _ => id) fun _ hs => ⟨hs.1, .inr hs.2⟩
      refine hstep.bind ?_
      rintro ⟨m', c'⟩ ⟨hmore, h'⟩
      dsimp only at hmore
      exact ih h' (by omega)
    next hi => exact .ok (hdone h (not_lt.1 hi))

/-- **`unmap` is exact** for a range whose pages the loop comes to: they are gone, and all others
are as before. -/
theorem unmap_exact (h : m.Accounts 1) (hr : m.tables r = some base) (virt : ℕ)
    (hreached : m.Reached r (numberOf virt) pages) :
    Ensures Panic.Refusal (m.unmap base virt pages) fun m' =>
      m.Exact m' r (numberOf virt) pages := by
  obtain ⟨-, hpdpe, hpde, hpte⟩ := unpack_lt (virt / pageSize)
  rw [numberOf, unmap]
  split
  · exact .error ⟨by simp, by simp⟩
  · refine unmapPages_exact hreached pages (.inl ⟨h, rfl, rfl, hr, fun q l hl => ?_,
      .inl ⟨hpdpe, hpde, hpte.le⟩, rfl, le_rfl, Nat.le_add_right .., ?_⟩) (Nat.le_add_left ..)
    · rw [if_neg]
      rintro ⟨-, hrange, hlt⟩
      exact absurd hlt (not_lt.2 hrange.1)
    · exact Nat.add_le_add_left (Nat.zero_le _) _

/-! ## Translations -/

lemma link_bind {t i : ℕ} (hi : i < slots) (f : ℕ → Option ℕ) : (m.graph.link t i).bind f =
      if (m.entries t i).flags.present then f (m.entries t i).frame else none := by
  rw [graph_link]
  cases (m.entries t i).flags.present <;> simp [hi]

lemma getMap_eq_lookup (hr : m.tables r = some base) (virt : ℕ) :
    m.getMap base virt = m.graph.lookup r (unpack (virt / pageSize)).path := by
  have hroot : m.graph.root r = some base := hr
  obtain ⟨h₁, h₂, h₃, h₄⟩ := unpack_lt (virt / pageSize)
  simp only [getMap, path, Sharing.Graph.lookup, hroot, bind_some,
    Sharing.Graph.follow_cons, link_bind, h₁, h₂, h₃, h₄]
  rfl

/-- **The pages of the range do not translate, and all others translate as before.** -/
theorem Exact.getMap {start pages : ℕ} (h : m.Exact m' r start pages) {q base' : ℕ}
    (hq : m.tables q = some base') (virt : ℕ) :
    m'.getMap base' virt =
      if q = r ∧ start ≤ numberOf virt ∧ numberOf virt < start + pages then none
      else m.getMap base' virt := by
  have hq' : m'.tables q = some base' := by rw [h.tables, hq]
  rw [getMap_eq_lookup hq', getMap_eq_lookup hq, h.page q _ rfl]
  refine if_congr (and_congr_right fun _ => ?_) rfl rfl
  rw [InRange, pageNumber_path, numberOf]
  exact and_iff_left_of_imp And.right

open Transition

/-- **Page tables are isolated.**  When an orderly run has built them, and then pages of the others
are mapped and unmapped and no table is left shared, a page table translates every address as
before. -/
theorem getMap_of_others {actions later : List Action} (hstart : ∀ r, m₀.tables r = none)
    (horderly : Along step Orderly m₀ actions) (hrun : exec step m₀ actions = some m)
    (hr : m.tables r = some base)
    (hothers : Along step (fun m a => m.Orderly a ∧ ∃ q ≠ r, WorksOn q a) m later)
    (hlater : exec step m later = some m') (page : ℕ) :
    m'.getMap base page = m.getMap base page := by
  have hkept : m'.Sound ∧ m'.tables = m.tables ∧
      ∀ l, l.length = 4 → m'.graph.lookup r l = m.graph.lookup r l := by
    refine exec_induct (I := fun m' => m'.Sound ∧ m'.tables = m.tables ∧ ∀ l, l.length = 4 →
      m'.graph.lookup r l = m.graph.lookup r l) ?_
      ⟨sound_of_exec hstart horderly hrun, rfl, fun _ _ => rfl⟩ hothers hlater
    rintro m₁ a m₂ ⟨hsound, htables, hsame⟩ ⟨ha, q, hq, hworks⟩ hstep
    have hisolated := (act_isolated hsound ha hworks).of_ok (toOption_eq_some.1 hstep)
    refine ⟨hsound.step ha hstep, hisolated.tables.trans htables, fun l hl => ?_⟩
    rw [hisolated.lookup r l hq.symm hl, hsame l hl]
  have hr' : m'.tables r = some base := by rw [hkept.2.1, hr]
  rw [getMap_eq_lookup hr', getMap_eq_lookup hr, hkept.2.2 _ rfl]

theorem getMap_of_others_sharedThenUnmapped : ∃ m m', exec step bare sharedThenUnmapped = some m ∧
    m.tables 1 = some 6 ∧ exec step m [.map 0 0 1 userPage {}] = some m' ∧
      m'.getMap 6 0 = m.getMap 6 0 := by
  have hrun : ((exec step bare sharedThenUnmapped).bind fun m =>
      (exec step m [.map 0 0 1 userPage {}]).map fun _ => m.tables 1) = some (some 6) := by
    decide +kernel
  obtain ⟨m, hm, hmap⟩ := bind_eq_some_iff.1 hrun
  obtain ⟨m', hm', hr⟩ := map_eq_some_iff.1 hmap
  exact ⟨m, m', hm, hr, hm', getMap_of_others (fun _ => rfl) along_sharedThenUnmapped hm hr
    (Along.of_mem (by simp [Orderly, WorksOn, Unshares, userPage]) m) hm' 0⟩

/-- Two pages, and one that keeps the gigabyte of the first. -/
def acrossGigabytes : List Action :=
  [.create 0, .map 0 0x3FFFE000 1 userPage {}, .map 0 0x40000000 2 userPage {}]

def secondGigabyte : List Action := [.create 0, .map 0 0x40000000 1 userPage {}]

end Paging

end Naos.Mm
