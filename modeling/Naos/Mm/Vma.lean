import Naos.Ipc.UserCopy
import Naos.Lib.Extents
import Naos.Lib.Transition
import Naos.Mm.PageTable

/-!
# The areas of an address space

A `vm_allocator` keeps the areas of an address space in an ordered set that compares their
ends.  `allocate_map` takes the first gap that is large enough, `add_map` an address its
caller has chosen.  The lookup of an address takes the first area that ends after it, so it
relies on the areas being disjoint.

`add_map` refuses a range only if the first area with a greater end has the same start: a
range that overlaps an area in another way is added.  `allocate_map` computes the end of the
area with 64 bits, so a size near `2^64` wraps around, and a size of zero gives an empty
area.

The assertions of `add_map` are part of the model: the kernel stops where one fails.  The
pages of an area are those of `Paging`, and `alloc_times` is left out.
-/

namespace Naos.Mm

open Function Transition List Option

open Naos.Ipc (isUserSpaceRange)

/-! ## The allocator -/

inductive PageFaultMethod where
  | none | heapBreak | common | commonWithBss | file | memoryObject | physical
  deriving DecidableEq, Repr

/-- `vm_t` -/
structure Area where
  start : ℕ
  /-- `end` -/
  finish : ℕ
  flags : BitVec 64
  method : PageFaultMethod
  userData : ℕ
  deriving DecidableEq, Repr

structure VmAllocator where
  list : List Area
  rangeTop : ℕ
  rangeBottom : ℕ
  deriving DecidableEq, Repr

open VmAllocator

/-- The sum of two `u64`. -/
def add64 (a b : ℕ) : ℕ := (a + b) % 2 ^ 64

/-- The difference of two `u64`. -/
def sub64 (a b : ℕ) : ℕ := (a + 2 ^ 64 - b) % 2 ^ 64

/-- `& ~(page_size - 1)` -/
def pageOf (address : ℕ) : ℕ := address / pageSize * pageSize

/-- `(size + page_size - 1) & ~(page_size - 1)` -/
def roundUp (size : ℕ) : ℕ := pageOf (add64 size (pageSize - 1))

/-- The loop of `allocate_map`: the first gap of the size above `low`, or the place behind
the last area. -/
def firstFit (size top : ℕ) : ℕ → List Area → Option ℕ
  | low, [] => if top < add64 low size then none else some low
  | low, vm :: rest =>
    if size ≤ sub64 vm.start low then some low else firstFit size top vm.finish rest

namespace VmAllocator

variable (v : VmAllocator)

/-- The allocator of a new `info_t`. -/
def user : VmAllocator := ⟨[], 0x800000000000, 0x200000⟩

/-- The allocator of the kernel, after `set_range`. -/
def kernel : VmAllocator := ⟨[], 0xFFFFD00000000000, 0xFFFFB00000000000⟩

def insert (vm : Area) : VmAllocator × Option Area :=
  ({ v with list := Extents.insert Area.finish vm v.list }, some vm)

def upperFind (p : ℕ) : Option Area := Extents.upper Area.finish p v.list

def allocateMap (size : ℕ) (flags : BitVec 64) (method : PageFaultMethod) (userData : ℕ) :
    VmAllocator × Option Area :=
  let size := roundUp size
  match firstFit size v.rangeTop v.rangeBottom v.list with
  | none => (v, none)
  | some low => v.insert ⟨low, add64 low size, flags, method, userData⟩

/-- `add_map`; `none` where an assertion fails. -/
def addMap (start finish : ℕ) (flags : BitVec 64) (method : PageFaultMethod) (userData : ℕ) :
    Option (VmAllocator × Option Area) :=
  if start < finish ∧ start = pageOf start ∧ finish = pageOf finish then
    if start < v.rangeBottom then some (v, none)
    else if v.rangeTop < finish then some (v, none)
    else if v.list.isEmpty then some (v.insert ⟨start, finish, flags, method, userData⟩)
    else if (v.upperFind finish).any (·.start = start) then some (v, none)
    else if (v.upperFind finish).any (·.finish = finish) then some (v, none)
    else some (v.insert ⟨start, finish, flags, method, userData⟩)
  else none

/-- `deallocate_map(const vm_t *)` -/
def deallocateArea (vm : Area) : VmAllocator :=
  { v with list := v.list.eraseP (·.finish = vm.finish) }

def deallocateMap (p : ℕ) : VmAllocator × Bool :=
  match v.upperFind p with
  | some vm => if vm.start = p then ({ v with list := v.list.erase vm }, true) else (v, false)
  | none => (v, false)

def getVmArea (p : ℕ) : Option Area :=
  match v.upperFind p with
  | some vm => if vm.start ≤ p ∧ p < vm.finish then some vm else none
  | none => none

/-- `flags::file` -/
def fileFlag : BitVec 64 := 1 <<< 16

/-- The item that `clone` inserts into the other allocator.  `data` is the new `map_t` of a
file mapping. -/
def cloneItem (info : ℕ) (data : Area → ℕ) (flag : BitVec 64) (item : Area) : Area :=
  let flags := item.flags ||| flag
  { item with flags, userData := if flags &&& fileFlag ≠ 0 then data item else info }

/-- `clone`: the allocator itself and `to` afterwards. -/
def clone (info : ℕ) (data : Area → ℕ) (target : VmAllocator) (flag : BitVec 64) :
    VmAllocator × VmAllocator :=
  ({ v with list := v.list.map fun item => { item with flags := item.flags ||| flag } },
    { list := (v.list.map (cloneItem info data flag)).foldl
        (fun list item => Extents.insert Area.finish item list) target.list
      rangeTop := v.rangeTop
      rangeBottom := v.rangeBottom })

end VmAllocator

/-! ## The callers -/

/-- What `map_file` and its like ask of the allocator. -/
inductive MapRequest where
  | allocate (size : ℕ)
  | add (start finish : ℕ)
  deriving DecidableEq, Repr

/-- What is mapped by `map_file`. -/
inductive Backing where
  | anonymous
  | file
  /-- A pseudo file with `supports_physical_mmap`, and the answer of `get_physical_mmap`. -/
  | physical (granted : Bool)
  deriving DecidableEq, Repr

/-- `page_fault_method` of a mapping. -/
def Backing.method : Backing → PageFaultMethod
  | .anonymous => .common
  | .file => .file
  | .physical _ => .physical

def isKernelSpacePointer (address : ℕ) : Bool :=
  decide (0xFFFF800000000000 ≤ address) && decide (address ≤ 0xFFFFFFFFFFFFFFFF)

/-- The request for a mapping of `length` bytes at `start`, or anywhere. -/
def MapRequest.at (start length : ℕ) : MapRequest :=
  if start = 0 then .allocate (roundUp length)
  else .add start (add64 start (roundUp length))

/-- The checks of `map_file`.  `userData` is the new `map_t`, null when there is no memory. -/
def mapFileRequest (start : ℕ) (backing : Backing) (fileOffset fileLength mmapLength userData : ℕ) :
    Option MapRequest :=
  if isKernelSpacePointer start then none
  else if mmapLength = 0 ∨ 2 ^ 64 - 1 - (pageSize - 1) < mmapLength ∨ mmapLength < fileLength ∨
      2 ^ 64 - 1 - fileLength < fileOffset then none
  else if start ≠ 0 ∧ !isUserSpaceRange start (roundUp mmapLength) then none
  else if backing = .physical false then none
  else if backing ≠ .anonymous ∧ userData = 0 then none
  else some (.at start mmapLength)

/-- The checks of `map_memory_object`.  `object` is the size of the memory object, if there
is one. -/
def mapMemoryObjectRequest (start : ℕ) (object : Option ℕ) (objectOffset length userData : ℕ) :
    Option MapRequest :=
  match object with
  | none => none
  | some size =>
    if length = 0 ∨ 2 ^ 64 - 1 - (pageSize - 1) < length then none
    else if size < objectOffset ∨ size - objectOffset < length then none
    else if isKernelSpacePointer start then none
    else if start ≠ 0 ∧ !isUserSpaceRange start (roundUp length) then none
    else if userData = 0 then none
    else some (.at start length)

/-- `flags::lock | flags::user_mode | flags::expand` -/
def mappingFlags : BitVec 64 := 1 <<< 13 ||| 1 <<< 12 ||| 1 <<< 11

namespace VmAllocator

variable (v : VmAllocator)

/-- `allocate_map` or `add_map`. -/
def perform (flags : BitVec 64) (method : PageFaultMethod) (userData : ℕ) :
    MapRequest → Option (VmAllocator × Option Area)
  | .allocate size => some (v.allocateMap size flags method userData)
  | .add start finish => v.addMap start finish flags method userData

/-- `map_file`.  The user data of an anonymous mapping is the `info_t`. -/
def mapFile (start : ℕ) (backing : Backing) (fileOffset fileLength mmapLength : ℕ)
    (pageExtAttr : BitVec 64) (userData : ℕ) : Option (VmAllocator × Option Area) :=
  match mapFileRequest start backing fileOffset fileLength mmapLength userData with
  | none => some (v, none)
  | some request =>
    let cflags := mappingFlags ||| pageExtAttr
    let cflags := if backing = .anonymous then cflags else cflags ||| fileFlag
    v.perform cflags backing.method userData request

def mapMemoryObject (start : ℕ) (object : Option ℕ) (objectOffset length : ℕ)
    (pageExtAttr : BitVec 64) (userData : ℕ) : Option (VmAllocator × Option Area) :=
  match mapMemoryObjectRequest start object objectOffset length userData with
  | none => some (v, none)
  | some request =>
    v.perform (mappingFlags ||| fileFlag ||| pageExtAttr) .memoryObject userData request

/-- `umap_file`: the whole area around `addr`, if it has the size. -/
def umapFile (addr size : ℕ) : VmAllocator × Bool :=
  if size = 0 ∨ addr ≠ pageOf addr ∨ size ≠ pageOf size then (v, false)
  else
    match v.getVmArea addr with
    | none => (v, false)
    | some vm =>
      if vm.start ≠ pageOf vm.start ∨ vm.finish ≤ vm.start ∨
          (vm.finish - vm.start) % pageSize ≠ 0 then (v, false)
      else if size ≠ vm.finish - vm.start then (v, false)
      else (v.deallocateArea vm, true)

def vfree (addr : ℕ) : VmAllocator :=
  match v.getVmArea addr with
  | none => v
  | some vm => v.deallocateArea vm

end VmAllocator

/-! ## Address spaces -/

inductive AreaAction where
  /-- `allocate_map` and `add_map`. -/
  | perform (request : MapRequest) (flags : BitVec 64) (method : PageFaultMethod) (userData : ℕ)
  | deallocateMap (p : ℕ)
  | mapFile (start : ℕ) (backing : Backing) (fileOffset fileLength mmapLength : ℕ)
      (pageExtAttr : BitVec 64) (userData : ℕ)
  | mapMemoryObject (start : ℕ) (object : Option ℕ) (objectOffset length : ℕ)
      (pageExtAttr : BitVec 64) (userData : ℕ)
  | umapFile (addr size : ℕ)
  | vfree (addr : ℕ)

/-- The allocator after the operation; `none` where an assertion fails. -/
def VmAllocator.act (v : VmAllocator) : AreaAction → Option VmAllocator
  | .perform request flags method userData =>
    (v.perform flags method userData request).map Prod.fst
  | .deallocateMap p => some (v.deallocateMap p).1
  | .mapFile start backing fileOffset fileLength mmapLength pageExtAttr userData =>
    (v.mapFile start backing fileOffset fileLength mmapLength pageExtAttr userData).map Prod.fst
  | .mapMemoryObject start object objectOffset length pageExtAttr userData =>
    (v.mapMemoryObject start object objectOffset length pageExtAttr userData).map Prod.fst
  | .umapFile addr size => some (v.umapFile addr size).1
  | .vfree addr => some (v.vfree addr)

abbrev AddressSpaces := ℕ → Option VmAllocator

inductive SpaceAction where
  /-- A new `info_t`, or the one of the kernel. -/
  | create (i : ℕ) (kernel : Bool)
  | act (i : ℕ) (a : AreaAction)
  /-- `share_to`: the areas are cloned into a new `info_t`. -/
  | clone (i j info : ℕ) (data : Area → ℕ) (flag : BitVec 64)

def AddressSpaces.step (m : AddressSpaces) : SpaceAction → Option AddressSpaces
  | .create i kernel =>
    match m i with
    | some _ => none
    | none => some (update m i (some (if kernel then .kernel else .user)))
  | .act i a => do
    let v ← m i
    let v' ← v.act a
    return update m i (some v')
  | .clone i j info data flag =>
    match m i, m j with
    | some v, none =>
      let result := v.clone info data .user flag
      some (update (update m i (some result.1)) j (some result.2))
    | _, _ => none

open AddressSpaces

namespace VmAllocator

variable (v : VmAllocator)

/-- **The areas are disjoint**, each one is a range of pages inside the range of the
allocator, and the lookup of an address finds the area around it. -/
structure Sound : Prop where
  disjoint : v.list.Pairwise fun a b =>
    Disjoint (Set.Ico a.start a.finish) (Set.Ico b.start b.finish)
  proper : ∀ a ∈ v.list, a.start < a.finish
  aligned : ∀ a ∈ v.list, pageSize ∣ a.start ∧ pageSize ∣ a.finish
  inside : ∀ a ∈ v.list, v.rangeBottom ≤ a.start ∧ a.finish ≤ v.rangeTop
  lookup : ∀ p a, v.getVmArea p = some a ↔ a ∈ v.list ∧ a.start ≤ p ∧ p < a.finish

/-- The size asked for is not zero and not larger than the range, and the range asked for is
free. -/
def allows : MapRequest → Bool
  | .allocate size => decide (0 < size) && decide (size ≤ v.rangeTop - v.rangeBottom)
  | .add start finish => v.list.all fun a => decide (a.finish ≤ start) || decide (finish ≤ a.start)

/-- What the operation asks of the allocator, if it asks for anything, is allowed. -/
def allowed : AreaAction → Bool
  | .perform request _ _ _ => v.allows request
  | .mapFile start backing fileOffset fileLength mmapLength _ userData =>
    (mapFileRequest start backing fileOffset fileLength mmapLength userData).all v.allows
  | .mapMemoryObject start object objectOffset length _ userData =>
    (mapMemoryObjectRequest start object objectOffset length userData).all v.allows
  | _ => true

end VmAllocator

def AddressSpaces.allowed (m : AddressSpaces) : SpaceAction → Bool
  | .act i a => (m i).all fun v => v.allowed a
  | _ => true

/-! ## The invariant -/

/-- The areas are apart, and the range leaves room for the end of an area behind it. -/
structure VmAllocator.Tidy (v : VmAllocator) : Prop where
  apart : Extents.Apart Area.start Area.finish v.list
  aligned : ∀ a ∈ v.list, pageSize ∣ a.start ∧ pageSize ∣ a.finish
  inside : ∀ a ∈ v.list, v.rangeBottom ≤ a.start ∧ a.finish ≤ v.rangeTop
  bottom : pageSize ∣ v.rangeBottom
  top : pageSize ∣ v.rangeTop
  range : v.rangeBottom ≤ v.rangeTop
  room : v.rangeTop + (v.rangeTop - v.rangeBottom) < 2 ^ 64

section Arithmetic

lemma pageOf_dvd (n : ℕ) : pageSize ∣ pageOf n := ⟨n / pageSize, Nat.mul_comm _ _⟩

variable {n a b size : ℕ}

lemma dvd_of_eq_pageOf (h : n = pageOf n) : pageSize ∣ n := h ▸ pageOf_dvd n

lemma add64_of_lt (h : a + b < 2 ^ 64) : add64 a b = a + b := Nat.mod_eq_of_lt h

lemma sub64_of_le (h : b ≤ a) (ha : a < 2 ^ 64) : sub64 a b = a - b := by
  have heq : a + 2 ^ 64 - b = a - b + 2 ^ 64 := by omega
  rw [sub64, heq, Nat.add_mod_right, Nat.mod_eq_of_lt (by omega)]

lemma roundUp_le (hle : size ≤ n) (hn : pageSize ∣ n) (hlt : n < 2 ^ 64) : roundUp size ≤ n := by
  rw [roundUp, pageOf, add64]
  unfold pageSize at *
  omega

lemma roundUp_pos (hpos : 0 < size) (hle : size ≤ n) (hn : pageSize ∣ n) (hlt : n < 2 ^ 64) :
    0 < roundUp size := by
  rw [roundUp, pageOf, add64]
  unfold pageSize at *
  omega

end Arithmetic

lemma firstFit_eq_some {size top : ℕ} {l : List Area}
    (h : Extents.Apart Area.start Area.finish l) (htop : ∀ a ∈ l, a.finish ≤ top)
    (hsize : top + size < 2 ^ 64) {low b : ℕ} (hlow : ∀ a ∈ l, low ≤ a.start) (hle : low ≤ top)
    (hfit : firstFit size top low l = some b) :
    low ≤ b ∧ b + size ≤ top ∧ (∀ a ∈ l, a.finish ≤ b ∨ b + size ≤ a.start) ∧
      (b = low ∨ ∃ a ∈ l, b = a.finish) := by
  induction l generalizing low with
  | nil =>
    rw [firstFit, add64_of_lt (by omega)] at hfit
    split at hfit
    · cases hfit
    · cases hfit
      exact ⟨le_rfl, by omega, nofun, .inl rfl⟩
  | cons x l ih =>
    have hx := htop x mem_cons_self
    have hxlow := hlow x mem_cons_self
    have hproper := h.proper x mem_cons_self
    rw [firstFit, sub64_of_le hxlow (by omega)] at hfit
    split at hfit
    next hgap =>
      cases hfit
      refine ⟨le_rfl, by omega, fun a ha => .inr ?_, .inl rfl⟩
      rcases mem_cons.1 ha with rfl | ha
      · omega
      · have := h.head_le a ha
        omega
    · obtain ⟨hbound, hend, hfree, hplace⟩ := ih h.tail
        (fun a ha => htop a (mem_cons_of_mem x ha)) h.head_le hx hfit
      refine ⟨by omega, hend, fun a ha => ?_, .inr ?_⟩
      · rcases mem_cons.1 ha with rfl | ha
        · exact .inl hbound
        · exact hfree a ha
      · rcases hplace with rfl | ⟨a, ha, rfl⟩
        · exact ⟨x, mem_cons_self, rfl⟩
        · exact ⟨a, mem_cons_of_mem x ha, rfl⟩

namespace VmAllocator

variable {v v' : VmAllocator}

lemma getVmArea_eq_some {p : ℕ} {a : Area} :
    v.getVmArea p = some a ↔ (v.upperFind p = some a ∧ a.start ≤ p) := by
  rw [getVmArea]
  split
  next vm hfind =>
    have hlt : p < vm.finish := by simpa using find?_some hfind
    rw [ite_none_right_eq_some, hfind]
    simp only [Option.some.injEq]
    constructor
    · rintro ⟨h, rfl⟩
      exact ⟨rfl, h.1⟩
    · rintro ⟨rfl, h⟩
      exact ⟨⟨h, hlt⟩, rfl⟩
  next hfind => simp [hfind]

lemma Tidy.sound (h : v.Tidy) : v.Sound where
  disjoint := h.apart.disjoint
  proper := h.apart.proper
  aligned := h.aligned
  inside := h.inside
  lookup p a := getVmArea_eq_some.trans (h.apart.upper_eq_some_iff p a)

lemma tidy_user : user.Tidy := by refine ⟨.nil, nofun, nofun, ?_, ?_, ?_, ?_⟩ <;> decide

lemma tidy_kernel : kernel.Tidy := by refine ⟨.nil, nofun, nofun, ?_, ?_, ?_, ?_⟩ <;> decide

variable (h : v.Tidy)
include h

lemma Tidy.insert {vm : Area} (hproper : vm.start < vm.finish)
    (haligned : pageSize ∣ vm.start ∧ pageSize ∣ vm.finish)
    (hinside : v.rangeBottom ≤ vm.start ∧ vm.finish ≤ v.rangeTop)
    (hfree : ∀ a ∈ v.list, a.finish ≤ vm.start ∨ vm.finish ≤ a.start) : (v.insert vm).1.Tidy where
  apart := h.apart.insert hproper hfree
  aligned a ha := by
    rcases Extents.mem_insert.1 ha with rfl | ha
    · exact haligned
    · exact h.aligned a ha
  inside a ha := by
    rcases Extents.mem_insert.1 ha with rfl | ha
    · exact hinside
    · exact h.inside a ha
  bottom := h.bottom
  top := h.top
  range := h.range
  room := h.room

lemma Tidy.sublist {list : List Area} (hsub : list.Sublist v.list) :
    ({ v with list } : VmAllocator).Tidy :=
  { h with
    apart := h.apart.sublist hsub
    aligned := fun a ha => h.aligned a (hsub.subset ha)
    inside := fun a ha => h.inside a (hsub.subset ha) }

lemma Tidy.allocateMap {size : ℕ} (hallows : v.allows (.allocate size) = true) (flags : BitVec 64)
    (method : PageFaultMethod) (userData : ℕ) :
    (v.allocateMap size flags method userData).1.Tidy := by
  simp only [allows, Bool.and_eq_true, decide_eq_true_eq] at hallows
  have hroom := h.room
  have hrange := h.range
  have hpages : pageSize ∣ v.rangeTop - v.rangeBottom := Nat.dvd_sub h.top h.bottom
  have hround := roundUp_le hallows.2 hpages (by omega)
  have hpos := roundUp_pos hallows.1 hallows.2 hpages (by omega)
  rw [VmAllocator.allocateMap]
  split
  · exact h
  next low hfit =>
    obtain ⟨hbound, hend, hfree, hplace⟩ := firstFit_eq_some h.apart
      (fun a ha => (h.inside a ha).2) (by omega) (fun a ha => (h.inside a ha).1) hrange hfit
    have hlow : pageSize ∣ low := by
      rcases hplace with rfl | ⟨a, ha, rfl⟩
      · exact h.bottom
      · exact (h.aligned a ha).2
    rw [add64_of_lt (by omega)]
    exact h.insert (by dsimp only; omega) ⟨hlow, Nat.dvd_add hlow (pageOf_dvd _)⟩
      ⟨hbound, hend⟩ hfree

variable {flags : BitVec 64} {method : PageFaultMethod} {r : VmAllocator × Option Area}
  {userData : ℕ}

lemma Tidy.addMap {start finish : ℕ} (hallows : v.allows (.add start finish) = true)
    (hadd : v.addMap start finish flags method userData = some r) : r.1.Tidy := by
  have hfree : ∀ a ∈ v.list, a.finish ≤ start ∨ finish ≤ a.start := by simpa [allows] using hallows
  obtain ⟨hassert, hadd⟩ := ite_none_right_eq_some.1 hadd
  obtain ⟨hproper, hstart, hfinish⟩ := hassert
  repeat' split at hadd
  all_goals cases hadd
  any_goals exact h
  all_goals
    exact h.insert hproper ⟨dvd_of_eq_pageOf hstart, dvd_of_eq_pageOf hfinish⟩
      ⟨not_lt.1 ‹_›, not_lt.1 ‹_›⟩ hfree

lemma Tidy.perform {request : MapRequest} (hallows : v.allows request = true)
    (hr : v.perform flags method userData request = some r) :
    r.1.Tidy := by
  cases request with
  | allocate size =>
    cases hr
    exact h.allocateMap hallows flags method userData
  | add start finish => exact h.addMap hallows hr

lemma Tidy.deallocateMap (p : ℕ) : (v.deallocateMap p).1.Tidy := by
  rw [VmAllocator.deallocateMap]
  repeat' split
  any_goals exact h
  exact h.sublist erase_sublist

lemma Tidy.deallocateArea (vm : Area) : (v.deallocateArea vm).Tidy :=
  h.sublist eraseP_sublist

lemma Tidy.umapFile (addr size : ℕ) : (v.umapFile addr size).1.Tidy := by
  rw [VmAllocator.umapFile]
  repeat' split
  any_goals exact h
  exact h.deallocateArea _

lemma Tidy.vfree (addr : ℕ) : (v.vfree addr).Tidy := by
  rw [VmAllocator.vfree]
  split
  · exact h
  · exact h.deallocateArea _

/-- **An allowed operation keeps the areas apart.** -/
theorem Tidy.act {a : AreaAction} (hallowed : v.allowed a = true) (hact : v.act a = some v') :
    v'.Tidy := by
  cases a with
  | perform request flags method userData =>
    obtain ⟨r, hr, rfl⟩ := map_eq_some_iff.1 hact
    exact h.perform hallowed hr
  | deallocateMap p =>
    cases hact
    exact h.deallocateMap p
  | mapFile start backing fileOffset fileLength mmapLength attr userData =>
    obtain ⟨r, hr, rfl⟩ := map_eq_some_iff.1 hact
    rw [mapFile] at hr
    rw [allowed] at hallowed
    split at hr
    · cases hr; exact h
    next request hrequest =>
      rw [hrequest] at hallowed
      exact h.perform hallowed hr
  | mapMemoryObject start object objectOffset length attr userData =>
    obtain ⟨r, hr, rfl⟩ := map_eq_some_iff.1 hact
    rw [mapMemoryObject] at hr
    rw [allowed] at hallowed
    split at hr
    · cases hr; exact h
    next request hrequest =>
      rw [hrequest] at hallowed
      exact h.perform hallowed hr
  | umapFile addr size =>
    cases hact
    exact h.umapFile addr size
  | vfree addr =>
    cases hact
    exact h.vfree addr

lemma Tidy.map {f : Area → Area} (hstart : ∀ a, (f a).start = a.start)
    (hfinish : ∀ a, (f a).finish = a.finish) :
    ({ v with list := v.list.map f } : VmAllocator).Tidy where
  apart := by
    refine ⟨pairwise_map.2 ?_, ?_⟩
    · simpa only [hstart, hfinish] using h.apart.ordered
    · simpa [hstart, hfinish] using h.apart.proper
  aligned := by simpa [hstart, hfinish] using h.aligned
  inside := by simpa [hstart, hfinish] using h.inside
  bottom := h.bottom
  top := h.top
  range := h.range
  room := h.room

/-- **A clone has the same ranges**, when it starts without areas. -/
theorem Tidy.clone (info : ℕ) (data : Area → ℕ) (flag : BitVec 64) :
    (v.clone info data .user flag).1.Tidy ∧ (v.clone info data .user flag).2.Tidy := by
  refine ⟨h.map (fun _ => rfl) fun _ => rfl, ?_⟩
  have hcopy : ({ v with list := v.list.map (cloneItem info data flag) } : VmAllocator).Tidy :=
    h.map (fun _ => rfl) fun _ => rfl
  have happart : Extents.Apart Area.start Area.finish
      (user.list ++ v.list.map (cloneItem info data flag)) := hcopy.apart
  rw [VmAllocator.clone]
  rw [happart.foldl_insert]
  exact hcopy

end VmAllocator

/-! ## Runs -/

def AddressSpaces.Tidy (m : AddressSpaces) : Prop := ∀ i v, m i = some v → v.Tidy

variable {m : AddressSpaces}

lemma AddressSpaces.Tidy.update (h : m.Tidy) {v : VmAllocator} (hv : v.Tidy) (i : ℕ) :
    AddressSpaces.Tidy (update m i (some v)) := by
  intro j w hw
  by_cases hj : j = i
  · subst hj
    rw [update_self, Option.some.injEq] at hw
    exact hw ▸ hv
  · rw [update_of_ne hj] at hw
    exact h j w hw

lemma AddressSpaces.tidy_step (m : AddressSpaces) (a : SpaceAction) (m' : AddressSpaces)
    (h : m.Tidy) (hallowed : m.allowed a = true) (hstep : m.step a = some m') : m'.Tidy := by
  cases a with
  | create i kernel =>
    rw [step] at hstep
    split at hstep
    · cases hstep
    · cases hstep
      refine h.update ?_ i
      split
      · exact tidy_kernel
      · exact tidy_user
  | act i a =>
    obtain ⟨v, hv, hstep⟩ := bind_eq_some_iff.1 hstep
    obtain ⟨v', hact, hstep⟩ := bind_eq_some_iff.1 hstep
    cases hstep
    rw [allowed, hv] at hallowed
    exact h.update ((h i v hv).act hallowed hact) i
  | clone i j info data flag =>
    rw [step] at hstep
    split at hstep
    next v hv hj =>
      cases hstep
      obtain ⟨hsource, htarget⟩ := (h i v hv).clone info data flag
      exact (h.update hsource i).update htarget j
    · cases hstep

/-- **In every run in which the ranges that are added are free and the sizes that are
allocated fit the range of the allocator, the areas of every address space are disjoint and
the lookup finds them.** -/
theorem sound_of_allowed (run : List SpaceAction) {m : AddressSpaces}
    (hallowed : Along step (fun m a => m.allowed a = true) (fun _ => none) run)
    (hrun : exec step (fun _ => none) run = some m) (i : ℕ)
    (v : VmAllocator) (hv : m i = some v) : v.Sound := by
  have htidy : AddressSpaces.Tidy m :=
    exec_induct tidy_step (fun _ _ hnone => by cases hnone) hallowed hrun
  exact (htidy i v hv).sound

/-- A file is mapped at a fixed address and a stack where there is room; then the address
space is cloned. -/
def mappedAndCloned : List SpaceAction :=
  [.create 0 false, .act 0 (.mapFile 0x400000 .file 0 0x1800 0x1800 0 1),
    .act 0 (.perform (.allocate 0x10000000) 0 .common 0), .clone 0 1 2 (fun _ => 3) (1 <<< 14),
    .act 1 (.umapFile 0x400000 0x2000)]

theorem sound_mappedAndCloned : ∃ m v, exec step (fun _ => none) mappedAndCloned = some m ∧
      m 1 = some v ∧ v.list.length = 1 ∧ v.Sound := by
  have hallowed : Along step (fun m a => m.allowed a = true)
      (fun _ => none) mappedAndCloned := by decide
  exact ⟨_, _, rfl, rfl, by decide, sound_of_allowed mappedAndCloned hallowed rfl 1 _ rfl⟩

def mappedTwice : List SpaceAction :=
  [.create 0 false, .act 0 (.mapFile 0x400000 .anonymous 0 0x2000 0x2000 0 1),
    .act 0 (.mapFile 0x401000 .anonymous 0 0x2000 0x2000 0 1)]

def mappedHuge : List SpaceAction :=
  [.create 0 false, .act 0 (.mapFile 0 .anonymous 0 0 (2 ^ 64 - 4096) 0 1)]

/-- **A range that overlaps an area is added**, and so is an area that ends before it
starts. -/
theorem not_sound_mapped : (∃ m v, exec step (fun _ => none) mappedTwice = some m ∧
      m 0 = some v ∧ ¬ v.Sound) ∧
    ∃ m v, exec step (fun _ => none) mappedHuge = some m ∧ m 0 = some v ∧ ¬ v.Sound := by
  refine ⟨⟨_, _, rfl, rfl, fun h => ?_⟩, ⟨_, _, rfl, rfl, fun h => ?_⟩⟩
  · have hlookup := (h.lookup 0x401000 ⟨0x401000, 0x403000, mappingFlags, .common, 1⟩).2 (by decide)
    revert hlookup
    decide
  · have hproper := h.proper ⟨0x200000, 0x1FF000, mappingFlags, .common, 1⟩ (by decide)
    revert hproper
    decide

end Naos.Mm
