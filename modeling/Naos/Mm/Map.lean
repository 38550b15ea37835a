import Naos.Mm.Ensure

/-!
# Mapping pages

`map` writes the entries of a range, page by page, and asks `ensure` for the tables whenever
an index runs over.  A page that is mapped already is replaced or left alone, as the caller
wishes.
-/

namespace Naos.Mm

open Sharing Outcome Function Nat

def Panic.Refusal (e : Panic) : Prop := e ≠ .kassert ∧ e ≠ .unreferenced

lemma Panic.Zone.refusal {e : Panic} (h : e.Zone) : e.Refusal := by
  rcases h with rfl | rfl <;> exact ⟨nofun, nofun⟩

namespace Paging

variable {m m' : Paging} {b k g p t i f : ℕ}

/-! ## One page -/

def placed (m : Paging) (pt i p : ℕ) (flags : Flags) (rest : List ℕ) : Paging :=
  { m with
    supply := rest
    refs := update m.refs p 1
    counter := update m.counter pt (m.counter pt + 1) }.setEntry pt i ⟨p, flags⟩

def replaced (m : Paging) (pt i c p : ℕ) (flags : Flags) (rest : List ℕ) : Paging :=
  { m with
    supply := rest
    refs := update (update m.refs p 1) c (m.refs c - 1)
    bytes := m.bytes.fill (p * pageSize) pageSize fun i => m.bytes (c * pageSize + i) }.setEntry
      pt i ⟨p, flags⟩

/-- **What the loop of `map` does** with one page. -/
inductive Mapped (m : Paging) (pt i : ℕ) (flags : Flags) (actions : Actions) : Paging → Prop
  | place (hnone : m.graph.link pt i = none) (hactions : actions.cow = false) {p : ℕ}
      (hp : m.refs p = 0) (rest : List ℕ) :
      Mapped m pt i flags actions (m.placed pt i p flags rest)
  | replace {c : ℕ} (hc : m.graph.link pt i = some c) (hpos : m.refs c ≠ 0) {p : ℕ}
      (hp : m.refs p = 0) (rest : List ℕ) :
      Mapped m pt i flags actions (m.replaced pt i c p flags rest)

variable {base pd pdpt pt : ℕ} {ix : Index}

lemma mapPage_ensures (h : m.Accounts b) (hbase : base ∈ m.graph.tier 0)
    (hw : m.Walk base ix pdpt pd pt) (hi : ix.pte < slots) (flags : Flags) (actions : Actions) :
    Ensures Panic.Refusal (m.mapPage base ix flags actions) (m.Mapped pt ix.pte flags actions) := by
  rw [mapPage, hw.ptOf_eq]
  dsimp only
  split
  next hpresent =>
    have hc := link_of_present hi hpresent
    have hctier := Sharing.Graph.tier_of_link (hw.pt_mem hbase) hc
    generalize (m.entries pt ix.pte).frame = c at hc hctier ⊢
    split
    · exact .error ⟨nofun, nofun⟩
    split
    · refine ((allocate_ensures m).mono (fun _ => Panic.Zone.refusal) fun _ => id).bind ?_
      rintro _ ⟨p, rest, hp, rfl⟩
      have hcp : c ≠ p := h.ne_of_mem hp le_rfl hctier
      have hpos : (copyFrame { m with
          supply := rest, refs := update m.refs p 1 } p c).refs c ≠ 0 := by
        simp only [copyFrame, update_of_ne hcp]
        exact h.counted.pos le_rfl hctier
      refine (deallocate_ensures hpos).bind ?_
      rintro _ rfl
      refine .ok ?_
      have hcode : m.Mapped pt ix.pte flags actions _ :=
        .replace hc (h.counted.pos le_rfl hctier) hp rest
      simpa [replaced, copyFrame, update_of_ne hcp] using hcode
    · exact .error ⟨nofun, nofun⟩
  next habsent =>
    have hnone : m.graph.link pt ix.pte = none := (link_eq_none hi).2 (by simpa using habsent)
    split
    · exact .error ⟨nofun, nofun⟩
    next hactions =>
      refine ((allocate_ensures m).mono (fun _ => Panic.Zone.refusal) fun _ => id).bind ?_
      rintro _ ⟨p, rest, hp, rfl⟩
      exact .ok (.place hnone (by simpa using hactions) hp rest)

namespace Mapped

variable {pt : ℕ} {flags : Flags} {actions : Actions}

variable (hm : m.Mapped pt i flags actions m')
include hm

lemma exists_link (hi : i < slots) (hflags : flags.present) : ∃ p, m.refs p = 0 ∧ m'.refs p = 1 ∧
      ∀ t i', m'.graph.link t i' = if t = pt ∧ i' = i then some p else m.graph.link t i' := by
  cases hm with
  | @place hnone hactions p hp rest =>
    refine ⟨p, hp, update_self .., fun t i' => ?_⟩
    exact graph_setEntry_of_present hi hflags t i'
  | @replace c hc hpos p hp rest =>
    have hpc : p ≠ c := by
      rintro rfl
      exact hpos hp
    refine ⟨p, hp, ?_, fun t i' => graph_setEntry_of_present hi hflags t i'⟩
    exact (update_of_ne hpc ..).trans (update_self ..)

lemma tables_eq : m'.tables = m.tables := by cases hm <;> rfl

lemma rewires (hpt : pt ∈ m.graph.tier 3) (hi : i < slots) (hflags : flags.present) :
    m.graph.Rewires m'.graph 4 3 pt i := by
  obtain ⟨p, -, -, hlinks⟩ := hm.exists_link hi hflags
  refine Paging.rewires hm.tables_eq hpt (by omega) fun j _ x _ i' hne => ?_
  rw [hlinks, if_neg (by tauto)]

lemma accounts (h : m.Accounts b) (hpt : pt ∈ m.graph.tier 3) (hi : i < slots)
    (hflags : flags.present) : m'.Accounts b := by
  have hr := hm.rewires hpt hi hflags
  cases hm with
  | @place hnone hactions p hp rest =>
    refine h.attach hr hi hnone hp ?_ (by omega) rfl ?_ ?_
    · exact (graph_setEntry_of_present hi hflags pt i).trans (if_pos ⟨rfl, rfl⟩)
    · simp [placed, setEntry]
    · intro x hx _
      simp [placed, setEntry, hx]
  | @replace c hc hpos p hp rest =>
    refine h.replace hr hi hc hp ?_ rfl rfl
    exact (graph_setEntry_of_present hi hflags pt i).trans (if_pos ⟨rfl, rfl⟩)

end Mapped

lemma Walk.next (hw : m.Walk base ix pdpt pd pt) (n : ℕ) :
    m.Walk base { ix with pte := n } pdpt pd pt := ⟨hw.first, hw.second, hw.third⟩

lemma walk_of_leaf (h : m.Accounts b) (hr : m.graph.Rewires m'.graph 4 3 g i)
    (hbase : base ∈ m.graph.tier 0) (hw : m.Walk base ix pdpt pd pt) :
    m'.Walk base ix pdpt pd pt where
  first := (hr.link_eq h.counted (by omega) (by omega) hbase _).trans hw.first
  second := (hr.link_eq h.counted (by omega) (by omega) (hw.pdpt_mem hbase) _).trans hw.second
  third := (hr.link_eq h.counted (by omega) (by omega) (hw.pd_mem hbase) _).trans hw.third

/-! ## The loop -/

/-- The tables for the indices are there, unless the indices carry first. -/
structure Ready (m : Paging) (base : ℕ) (ix : Index) : Prop where
  pdpe : ix.pdpe < slots
  pde : ix.pde < slots
  walk : ix.pte < slots → ∃ pdpt pd pt, m.Walk base ix pdpt pd pt

variable {base : ℕ} {flags : Flags}

lemma ensure_ensures_refusal (h : m.Accounts 0) (hbase : base ∈ m.graph.tier 0) {ix : Index}
    (hpdpe : ix.pdpe < slots) (hpde : ix.pde < slots) (hflags : flags.present) (actions : Actions) :
    Ensures Panic.Refusal (m.ensure base ix flags actions) fun m' =>
      ∃ pdpt pd pt, Prepared m m' 0 base ix flags actions pdpt pd pt := by
  by_cases hpml4e : ix.pml4e < slots
  · exact (ensure_ensures h (zero_le _) hbase hpml4e hpdpe hpde hflags actions
      fun _ => h.counter 0 (by omega) le_rfl base hbase).mono (fun _ => Panic.Zone.refusal)
      fun _ => id
  · rw [ensure, ensureSingle, if_pos (not_lt.1 hpml4e)]
    exact .error ⟨by simp, by simp⟩

lemma unpack_lt (val : ℕ) : (Index.unpack val).pml4e < slots ∧ (Index.unpack val).pdpe < slots ∧
      (Index.unpack val).pde < slots ∧ (Index.unpack val).pte < slots :=
  ⟨mod_lt _ (by decide), mod_lt _ (by decide), mod_lt _ (by decide), mod_lt _ (by decide)⟩

end Paging

end Naos.Mm
