import Naos.Mm.Exact
import Naos.Mm.Fault

/-!
# Removing a mapping

`umap_file` finds the area around an address, compares its length with the size it is given,
unmaps the pages of the area and takes the area out.  It does not compare the start of the area
with the address.

The mapping goes with the area if a file is behind it.  The callback of a pseudo file is left
out.
-/

namespace Naos.Mm

open Outcome Transition Paging

/-- `info_t` with its areas. -/
structure UserSpace extends Info where
  vma : VmAllocator

namespace UserSpace

variable {s s' : UserSpace} {r addr size : ℕ}

/-- `umap_file`, and whether it succeeds. -/
def umapFile (s : UserSpace) (addr size : ℕ) : Except Panic (UserSpace × Bool) :=
  if size = 0 ∨ addr ≠ pageOf addr ∨ size ≠ pageOf size then .ok (s, false)
  else
    match s.vma.getVmArea addr with
    | none => .ok (s, false)
    | some vm =>
      if vm.start ≠ pageOf vm.start ∨ vm.finish ≤ vm.start ∨
          (vm.finish - vm.start) % pageSize ≠ 0 then .ok (s, false)
      else if size ≠ vm.finish - vm.start then .ok (s, false)
      else do
        let paging ← s.paging.unmap s.base vm.start ((vm.finish - vm.start) / pageSize)
        let mappings :=
          if vm.flags &&& VmAllocator.fileFlag ≠ 0 then
            Function.update s.mappings vm.userData none
          else s.mappings
        return ({ s with paging, mappings, vma := s.vma.deallocateArea vm }, true)

/-- **The request and nothing else is removed**: no area and no page of the page table `r` is left
in the range, and the areas and pages outside are as before, also those of the other page
tables. -/
structure Removes (s s' : UserSpace) (r addr size : ℕ) : Prop where
  areas : ∀ a ∈ s'.vma.list, Disjoint (Set.Ico a.start a.finish) (Set.Ico addr (addr + size))
  area : ∀ p, p ∉ Set.Ico addr (addr + size) → s'.vma.getVmArea p = s.vma.getVmArea p
  page : ∀ q base, s.paging.tables q = some base → ∀ p, p < 2 ^ 47 ∨ isKernelSpacePointer p →
    s'.paging.getMap base p =
      if q = r ∧ addr ≤ p ∧ p < addr + size then none else s.paging.getMap base p

/-- The areas are apart and below the kernel, and the counts of the page tables are right. -/
structure Regular (s : UserSpace) (r : ℕ) : Prop where
  tidy : s.vma.Tidy
  top : s.vma.rangeTop ≤ 2 ^ 47
  root : s.paging.tables r = some s.base
  accounts : s.paging.Accounts 1

lemma umapFile_eq_ok (h : s.umapFile addr size = .ok (s', true)) :
    ∃ vm, s.vma.getVmArea addr = some vm ∧ size = vm.finish - vm.start ∧
      s.paging.unmap s.base vm.start (size / pageSize) = .ok s'.paging ∧
      s'.vma = s.vma.deallocateArea vm := by
  rw [umapFile] at h
  iterate 2
    split at h
    · cases h
  rename_i vm hvm
  iterate 2
    split at h
    · cases h
  rename_i hsize
  obtain rfl := not_not.1 hsize
  obtain ⟨paging, hunmap, heq⟩ := bind_eq_ok.1 h
  cases heq
  exact ⟨vm, hvm, rfl, hunmap, rfl⟩

/-- The area that was found is taken out, from its start on. -/
lemma start_eq_of_removes (h : s.Regular r) {vm : Area} (hvm : s.vma.getVmArea addr = some vm)
    (hareas : s'.vma = s.vma.deallocateArea vm) (hremoves : s.Removes s' r addr size) :
    vm.start = addr := by
  obtain ⟨hmem, hle, hlt⟩ := (h.tidy.sound.lookup addr vm).1 hvm
  by_contra hne
  have hin : vm.start ∈ Set.Ico vm.start vm.finish := ⟨le_rfl, by omega⟩
  have hfound := (h.tidy.sound.lookup vm.start vm).2 ⟨hmem, hin⟩
  have hout : vm.start ∉ Set.Ico addr (addr + size) := fun hin => hne (le_antisymm hle hin.1)
  rw [← hremoves.area _ hout, hareas, (h.tidy.deallocateArea vm).sound.lookup,
    VmAllocator.deallocateArea, h.tidy.apart.mem_eraseP hmem] at hfound
  exact hfound.1.2 rfl

def twoPages : List Action := [.create 0, .map 0 0x400000 2 userPage {}]

def aroundTwoPages (paging : Paging) : UserSpace where
  paging
  base := 0
  heapTop := 0
  mappings := fun _ => none
  vma := (VmAllocator.user.insert ⟨0x400000, 0x402000, mappingFlags, .common, 0⟩).1

lemma regular_aroundTwoPages {m : Paging} (hm : exec step bare twoPages = some m)
    (hr : m.tables 0 = some 0) : (aroundTwoPages m).Regular 0 where
  tidy := VmAllocator.tidy_user.insert (by decide) (by decide) (by decide) nofun
  top := Nat.le_of_eq rfl
  root := hr
  accounts :=
    (sound_of_exec (fun _ => rfl) (Along.of_mem (by simp [twoPages, Paging.Orderly]) _)
      hm).accounts.mono (Nat.zero_le 1)

end UserSpace

end Naos.Mm
