import Mathlib
import Naos.Ipc.Interference

/-!
# Handles are issued once

One table, with every handle it has ever had.  A handle that is new in the table is greater
than all of these, so one that was closed, moved away or rolled back comes back only with the
transfer that took it.  `clone_fork_bindings` is the exception: it takes over the entries and
the counter of the source, so it must go into a table that has had no handle.
-/

namespace Naos.Ipc

open Capability Transition List Option

/-- A table, the handles it has ever had, and those of the transfers that were taken from it
and neither committed nor restored. -/
structure History where
  table : ResourceTable := {}
  ever : List Handle := []
  out : List (List Handle) := []

inductive TableEvent where
  | section_ (st : TableStep)
  | fork (source : ResourceTable) (allocated : Bool)
  | clear

def TableEvent.returned : TableEvent → List Handle
  | .section_ st => st.returned
  | .fork _ _ | .clear => []

def TableEvent.apply (t : ResourceTable) : TableEvent → ResourceTable
  | .section_ st => st.apply t
  | .fork source allocated => (t.cloneForkBindings source allocated).table
  | .clear => t.clear.table

section Tables

variable {t : ResourceTable} {k : Handle}

lemma not_mem_rollbackNative (hk : k ∉ t.nativeHandleMap) (handles : List Handle) :
    k ∉ (t.rollbackNative handles).nativeHandleMap := by
  refine ResourceTable.rollbackNative_induct (P := (k ∉ ·.nativeHandleMap)) hk ?_
  exact fun _ _ _ _ hk _ _ hmem => hk (AList.mem_erase.1 hmem).2

/-- A handle that was issued and has no entry gets none. -/
lemma TableOp.gone (ht : t.Issued) (o : TableOp) (hlt : k < t.handleBound)
    (hk : k ∉ t.nativeHandleMap) : k ∉ (o.apply t).nativeHandleMap := by
  have hget : t.get k = none := AList.lookup_eq_none.2 hk
  by_cases hnamed : k ∈ o.named
  · cases o with
    | install | close | duplicate | reserve | restrict => simp [TableOp.named] at hnamed
    | activate h object info =>
      obtain rfl := mem_singleton.1 hnamed
      cases object with
      | none => exact hk
      | some o =>
        simp only [TableOp.apply, ResourceTable.activateNative, hget]
        split <;> exact hk
    | rollback handles => exact not_mem_rollbackNative hk handles
    | commitRestrict source restricted | rollbackRestrict source restricted backup =>
      simp only [TableOp.named, mem_cons, not_mem_nil, or_false] at hnamed
      simp only [TableOp.apply, ResourceTable.commitRestrict, ResourceTable.rollbackRestrict]
      rcases hnamed with rfl | rfl
      · simp only [hget]
        split <;> exact hk
      · cases t.get source <;> simp only [hget] <;> split <;> exact hk
  · exact (o.keeps ht).gone k hlt hk hnamed

lemma TableStep.gone (ht : t.Issued) {st : TableStep}
    (hback : ∀ h ∈ st.returned, h < t.handleBound) (hlt : k < t.handleBound)
    (hk : k ∉ t.nativeHandleMap) (hnot : k ∉ st.returned) : k ∉ (st.apply t).nativeHandleMap := by
  cases st with
  | op o => exact o.gone ht hlt hk
  | take self ds target allocated | restore self records | commit self records =>
    exact (TableStep.keeps ht hback).gone k hlt hk hnot

lemma handleBound_pos (t : ResourceTable) : 0 < t.handleBound := by
  rw [ResourceTable.handleBound]
  split_ifs <;> omega

/-- A fork into a table without handles takes over entries and counter of the source. -/
lemma cloneForkBindings_issued (ht : t.Issued) (hempty : ∀ k, k ∉ t.nativeHandleMap)
    {source : ResourceTable} (hsource : source.Issued) (hzero : 0 ∉ source.nativeHandleMap)
    (allocated : Bool) :
    (t.cloneForkBindings source allocated).table.Issued ∧
      0 ∉ (t.cloneForkBindings source allocated).table.nativeHandleMap := by
  have hmem : ∀ k ∈ source.clonable ∪ t.nativeHandleMap, k ∈ source.nativeHandleMap := by
    intro k hk
    have hclone := (AList.mem_union.1 hk).resolve_right (hempty k)
    obtain ⟨x, hx⟩ := Assoc.exists_lookup_of_mem hclone
    rw [ResourceTable.clonable, Assoc.lookup_mapVal, Assoc.lookup_filter] at hx
    obtain ⟨y, hy, -⟩ := map_eq_some_iff.1 hx
    exact Assoc.mem_of_lookup (filter_eq_some_iff.1 hy).1
  rw [ResourceTable.cloneForkBindings]
  iterate 3
    split
    · exact ⟨ht, hempty 0⟩
  · exact ⟨⟨hsource.next_lt, fun k hk => hsource.below k (hmem k hk)⟩, fun h0 => hzero (hmem 0 h0)⟩

end Tables

namespace History

/-- What is out after the step; only a transfer that is out is restored or committed. -/
def outAfter (s : History) : TableEvent → Option (List (List Handle))
  | .section_ (.take self ds target allocated) =>
    let taken := (takeNativeBatch self s.table ds target allocated).value
    some (if taken.1 = .ok then heldHandles taken.2 :: s.out else s.out)
  | .section_ (.restore self records) =>
    if heldHandles records ∈ s.out then
      some (if (restoreNativeBatch self s.table records).value.1 = .ok then
        s.out.erase (heldHandles records) else s.out)
    else none
  | .section_ (.commit _ records) =>
    if heldHandles records ∈ s.out then some (s.out.erase (heldHandles records)) else none
  | .section_ (.op _) | .fork _ _ | .clear => some s.out

def step (s : History) (e : TableEvent) : Option History :=
  (s.outAfter e).map fun out =>
    let t := e.apply s.table
    { table := t, ever := s.ever ++ t.nativeHandleMap.keys, out }

/-- A fork clones a table that has issued its handles, into one that has had none. -/
def Forks (s : History) : TableEvent → Prop
  | .fork source _ => s.ever = [] ∧ source.Issued ∧ 0 ∉ source.nativeHandleMap
  | _ => True

/-- The step issues only handles greater than every handle before, and never zero. -/
structure Fresh (s : History) (e : TableEvent) (s' : History) : Prop where
  distinct : s'.table.nativeHandleMap.keys.Nodup
  valid : 0 ∉ s'.table.nativeHandleMap
  new : ∀ h ∈ s'.table.nativeHandleMap, h ∈ s.table.nativeHandleMap ∨
    (h ∈ e.returned ∧ e.returned ∈ s.out) ∨ ∀ g ∈ s.ever, g < h
  active : ∀ h x, s'.table.lookupNative h = some x → x.state = .active

structure Inv (s : History) : Prop where
  issued : s.table.Issued
  zero : 0 ∉ s.ever
  below : ∀ h ∈ s.ever, h < s.table.handleBound
  mem : ∀ h ∈ s.table.nativeHandleMap, h ∈ s.ever
  out : ∀ hs ∈ s.out, ∀ h ∈ hs, h ∈ s.ever

variable {s s' : History} {e : TableEvent}

lemma Inv.returned (h : s.Inv) {out : List (List Handle)} (hout : s.outAfter e = some out) :
    ∀ k ∈ e.returned, k ∈ s.ever ∧ e.returned ∈ s.out := by
  intro k hk
  cases e with
  | fork | clear => simp [TableEvent.returned] at hk
  | section_ st =>
    cases st with
    | op | take | commit => simp [TableEvent.returned, TableStep.returned] at hk
    | restore self records =>
      simp only [outAfter, ite_none_right_eq_some] at hout
      exact ⟨h.out _ hout.1 k hk, hout.1⟩

lemma Inv.outAfter (h : s.Inv) {out : List (List Handle)}
    (hout : s.outAfter e = some out) : ∀ hs ∈ out, ∀ k ∈ hs, k ∈ s.ever := by
  intro hs hhs k hk
  cases e with
  | fork | clear =>
    cases hout
    exact h.out hs hhs k hk
  | section_ st =>
    cases st with
    | op o =>
      cases hout
      exact h.out hs hhs k hk
    | take self ds target allocated =>
      simp only [outAfter, some.injEq] at hout
      subst hout
      split_ifs at hhs with hok
      · rcases mem_cons.1 hhs with rfl | hhs
        · obtain ⟨es, -, hall, -, heq⟩ := takeNativeBatch_ok hok
          rw [heq] at hk
          exact h.mem k (ResourceTable.mem_of_heldHandles_recordsOf hall hk)
        · exact h.out hs hhs k hk
      · exact h.out hs hhs k hk
    | restore self records =>
      simp only [outAfter, ite_none_right_eq_some, some.injEq] at hout
      obtain ⟨-, rfl⟩ := hout
      split_ifs at hhs
      · exact h.out hs (mem_of_mem_erase hhs) k hk
      · exact h.out hs hhs k hk
    | commit self records =>
      simp only [outAfter, ite_none_right_eq_some, some.injEq] at hout
      obtain ⟨-, rfl⟩ := hout
      exact h.out hs (mem_of_mem_erase hhs) k hk

/-- **One step issues fresh handles**, and the table stays one that has issued its handles. -/
lemma Inv.step (h : s.Inv) (hforks : s.Forks e) (hstep : s.step e = some s') :
    s'.Inv ∧ s.Fresh e s' := by
  obtain ⟨out, hout, rfl⟩ := map_eq_some_iff.1 hstep
  have hreturned := h.returned hout
  have hback : ∀ k ∈ e.returned, k < s.table.handleBound :=
    fun k hk => h.below k (hreturned k hk).1
  suffices happly : (e.apply s.table).Issued ∧ (∀ k ∈ s.ever, k < (e.apply s.table).handleBound) ∧
      (0 ∉ (e.apply s.table).nativeHandleMap) ∧
      ∀ k ∈ (e.apply s.table).nativeHandleMap,
        k ∈ s.table.nativeHandleMap ∨ k ∈ e.returned ∨ ∀ g ∈ s.ever, g < k by
    obtain ⟨hissued, hbelow, hzero, hnew⟩ := happly
    refine ⟨⟨hissued, ?_, ?_, ?_, ?_⟩, AList.keys_nodup _, hzero, ?_, ?_⟩
    · exact fun hmem => (mem_append.1 hmem).elim h.zero hzero
    · exact fun k hk => (mem_append.1 hk).elim (hbelow k) (hissued.below k)
    · exact fun k hk => mem_append_right _ hk
    · exact fun hs hhs k hk => mem_append_left _ (h.outAfter hout hs hhs k hk)
    · exact fun k hk => (hnew k hk).imp_right (Or.imp_left fun hk => ⟨hk, (hreturned k hk).2⟩)
    · exact fun k x hlook => (ResourceTable.lookupNative_eq_some.1 hlook).2
  have hzero : 0 ∉ s.table.nativeHandleMap := fun hmem => h.zero (h.mem 0 hmem)
  cases e with
  | section_ st =>
    have hkeeps := TableStep.keeps h.issued hback
    refine ⟨hkeeps.issued, fun k hk => (h.below k hk).trans_le hkeeps.grows, ?_, ?_⟩
    · exact TableStep.gone h.issued hback (handleBound_pos _) hzero fun hmem =>
        h.zero (hreturned 0 hmem).1
    · intro k hk
      by_contra hnot
      simp only [not_or, not_forall, not_lt] at hnot
      obtain ⟨hold, hnot, g, hg, hle⟩ := hnot
      exact TableStep.gone h.issued hback (hle.trans_lt (h.below g hg)) hold hnot hk
  | fork source allocated =>
    obtain ⟨hever, hissued, hsource⟩ := hforks
    have hempty : ∀ k, k ∉ s.table.nativeHandleMap := fun k hk => by
      simpa [hever] using h.mem k hk
    obtain ⟨hclone, hvalid⟩ :=
      cloneForkBindings_issued h.issued hempty hissued hsource allocated
    refine ⟨hclone, ?_, hvalid, ?_⟩
    · simp [hever]
    · simp [hever]
  | clear =>
    exact ⟨⟨h.issued.next_lt, fun k hk => absurd hk (AList.notMem_empty k)⟩, h.below,
      AList.notMem_empty 0, fun k hk => absurd hk (AList.notMem_empty k)⟩

/-- **Handles are not reused.**  In a run from an empty table that only forks into a table
without a past, every step issues fresh handles. -/
theorem fresh_of_run {as : List TableEvent} (hok : Along step Forks {} as)
    (hrun : exec step {} as = some s) (hforks : s.Forks e)
    (hstep : s.step e = some s') : s.Fresh e s' := by
  have hstart : Inv {} := by
    refine ⟨⟨by decide, ?_⟩, ?_, ?_, ?_, ?_⟩ <;> simp [AList.notMem_empty]
  have hinv := exec_induct (I := Inv) (fun _ _ _ h hok hstep => (h.step hok hstep).1)
    hstart hok hrun
  exact (hinv.step hforks hstep).2

def installFile : TableEvent := .section_ (.op (.install (some (.plain .file 7)) {}))

def moveFile : TableEvent := .section_ (.take 0 [{ handle := 1, operation := .move }] 9 true)

/-- The transfer of the file is undone. -/
def restoreFile : TableEvent :=
  .section_ (.restore 0 (takeNativeBatch 0 (installFile.apply {})
    [{ handle := 1, operation := .move }] 9 true).value.2)

theorem fresh_restoreFile : ∃ s s', exec step {} [installFile, moveFile] = some s ∧
    s.step restoreFile = some s' ∧ 1 ∈ s'.table.nativeHandleMap ∧ s.Fresh restoreFile s' := by
  have hok : Along step Forks {} [installFile, moveFile] := ⟨trivial, trivial, trivial⟩
  obtain ⟨s, hrun⟩ : ∃ s, exec step {} [installFile, moveFile] = some s := ⟨_, rfl⟩
  obtain ⟨s', hstep, hmem⟩ : ∃ s', s.step restoreFile = some s' ∧ 1 ∈ s'.table.nativeHandleMap := by
    cases hrun
    exact ⟨_, rfl, by decide⟩
  exact ⟨s, s', hrun, hstep, hmem, fresh_of_run hok hrun trivial hstep⟩

/-- The only file is closed, and then an empty table is cloned. -/
def forkedLate : List TableEvent :=
  [installFile, .section_ (.op (.close 1)), .fork {} true]

/-- The clone restarts the counter, and the handle of the closed file is issued again. -/
theorem reissued_forkedLate : ∃ s s', exec step {} forkedLate = some s ∧
    s.step installFile = some s' ∧ ¬ s.Fresh installFile s' := by
  refine ⟨_, _, rfl, rfl, fun h => ?_⟩
  rcases h.new 1 (by decide) with hold | hback | hall
  · exact absurd hold (by decide)
  · exact absurd hback.1 (by decide)
  · exact absurd (hall 1 (by decide)) (by decide)

end History

end Naos.Ipc
