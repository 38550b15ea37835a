import Naos.Common.Memset
import Naos.Mm.Vma
import Mathlib

/-!
# Page faults

The handler of a page fault asks `info_t::expand` for the page.  There is one function for
each `page_fault_method`: all of them map a frame, and then each fills it in its own way.  The
zone hands frames out with the bytes their last owner has left in them, so what a handler does
not write, the process reads.

Anonymous and bss pages are cleared.  A page of a file or of a memory object is cleared too,
and then the bytes of the file or the object are read into it, which may be fewer than a page.
A heap page is not cleared.

Physical memory is addressed through the direct mapping, so the buffer of a frame is named by
its physical address.  `none` as the result of a handler means that the kernel stops, or that
what it does is not defined (an area of a file without a `map_t`).  `expand_physical` maps
device memory that no zone hands out, and is left out.
-/

namespace Naos.Mm

open Option

/-- A file, by what `pread` writes to a buffer: for an offset and a size, at most that many
bytes. -/
structure File where
  pread : ℕ → ℕ → List Byte
  length_pread_le : ∀ offset size, (pread offset size).length ≤ size

structure MapT where
  file : File
  /-- The bytes of the `memory_object`. -/
  memoryObject : Option (List Byte) := none
  fileOffset : ℕ
  fileLength : ℕ

/-- `info_t`: an address space. -/
structure Info where
  paging : Paging
  /-- `base_` of its page table. -/
  base : ℕ
  heapTop : ℕ
  /-- What the `user_data` of an area points to. -/
  mappings : ℕ → Option MapT

/-- `flags::expand` -/
def expandFlag : BitVec 64 := 1 <<< 11

def toPagingFlags (flags : BitVec 64) : Flags where
  writable := flags.getLsbD 1
  userMode := flags.getLsbD 12
  cacheDisable := flags.getLsbD 4

/-- `memory_object::read`: nothing where the extent is not inside the object. -/
def readObject (object : List Byte) (offset size : ℕ) : Option (List Byte) :=
  if offset ≤ object.length ∧ size ≤ object.length - offset then
    some ((object.drop offset).take size)
  else none

namespace Paging

/-- `memset(pa2va(phy), 0, memory::page_size)` -/
def clearFrame (behind : ℕ → Byte) (m : Paging) (f : ℕ) : Paging :=
  { m with bytes := (Common.memset behind m.bytes (f * pageSize) 0 pageSize).1 }

def fillFrame (m : Paging) (f : ℕ) (bytes : List Byte) : Paging :=
  { m with bytes := m.bytes.fill (f * pageSize) bytes.length fun i => bytes.getD i 0 }

/-- The same memory with one byte everywhere. -/
def flood (v : Byte) (m : Paging) : Paging := { m with bytes := fun _ => v }

section Flood

variable (v : Byte) (m : Paging)

@[simp] lemma flood_supply : (m.flood v).supply = m.supply := rfl
@[simp] lemma flood_refs : (m.flood v).refs = m.refs := rfl
@[simp] lemma flood_counter : (m.flood v).counter = m.counter := rfl
@[simp] lemma flood_entries : (m.flood v).entries = m.entries := rfl
@[simp] lemma flood_count (t : ℕ) : (m.flood v).count t = m.count t := rfl
@[simp] lemma flood_setEntry (t i : ℕ) (e : Entry) :
    (m.flood v).setEntry t i e = (m.setEntry t i e).flood v := rfl
@[simp] lemma flood_setFlags (t i : ℕ) (flags : Flags) :
    (m.flood v).setFlags t i flags = (m.setFlags t i flags).flood v := rfl
@[simp] lemma flood_setCounter (t n : ℕ) :
    (m.flood v).setCounter t n = (m.setCounter t n).flood v := rfl
@[simp] lemma flood_addRefCount (f : ℕ) :
    (m.flood v).addRefCount f = (m.addRefCount f).flood v := rfl

@[simp] lemma flood_deallocate (f : ℕ) :
    (m.flood v).deallocate f = (m.deallocate f).map (flood v) := by
  rw [deallocate, deallocate, flood_refs]
  split <;> rfl

@[simp] lemma flood_allocate :
    (m.flood v).allocate = m.allocate.map fun r => (r.1, r.2.flood v) := by
  rw [allocate, allocate, flood_supply, flood_refs]
  cases m.supply with
  | nil => rfl
  | cons f rest => 
    dsimp only
    split <;> rfl

@[simp] lemma flood_newPageTable :
    (m.flood v).newPageTable = m.newPageTable.map fun r => (r.1, r.2.flood v) := by
  rw [newPageTable, newPageTable, flood_allocate]
  cases m.allocate <;> rfl

lemma flood_copyEntries (next p old : ℕ) (flags : Flags) (l : List ℕ) (s : Paging × ℕ) :
    l.foldl (copyEntry next p old flags) (s.1.flood v, s.2) =
      ((l.foldl (copyEntry next p old flags) s).1.flood v,
        (l.foldl (copyEntry next p old flags) s).2) := by
  induction l generalizing s with
  | nil => rfl
  | cons i l ih =>
    have hstep : copyEntry next p old flags (s.1.flood v, s.2) i =
        ((copyEntry next p old flags s i).1.flood v, (copyEntry next p old flags s i).2) := by
      rw [copyEntry, copyEntry, flood_entries]
      by_cases hcopy : s.2 < old ∧ (s.1.entries next i).flags.present = true
      · rw [if_pos hcopy, if_pos hcopy]
        rfl
      · rw [if_neg hcopy, if_neg hcopy]
    rw [List.foldl_cons, hstep, ih, List.foldl_cons]

lemma kassert_pos {c : Prop} [Decidable c] (h : c) : kassert c = .ok () := if_pos h

lemma kassert_neg {c : Prop} [Decidable c] (h : ¬ c) : kassert c = .error .kassert := if_neg h

lemma flood_sharePageEntry (base index : ℕ) (flags : Flags) (actions : Actions) :
    (m.flood v).sharePageEntry base index flags actions =
      (m.sharePageEntry base index flags actions).map (flood v) := by
  rw [sharePageEntry, sharePageEntry]
  by_cases hnone : flags.readonly = flags ∧ actions.copyAll = false
  · rw [if_pos hnone, if_pos hnone]
    rfl
  rw [if_neg hnone, if_neg hnone, flood_entries, flood_refs]
  by_cases hone : m.refs (m.entries base index).frame = 1
  · rw [if_pos hone, if_pos hone]
    rfl
  rw [if_neg hone, if_neg hone]
  dsimp only
  rw [flood_counter, flood_newPageTable]
  by_cases hcount : m.count (m.entries base index).frame = m.counter (m.entries base index).frame
  swap
  · rw [kassert_neg hcount, kassert_neg (by simpa using hcount)]
    rfl
  rw [kassert_pos hcount, kassert_pos (by simpa using hcount)]
  cases m.newPageTable with
  | error => rfl
  | ok r =>
    have hcopy := flood_copyEntries v (m.entries base index).frame r.1
      (m.counter (m.entries base index).frame) flags.readonly (List.range slots) (r.2, 0)
    simp only [Except.map, bind, Except.bind] at hcopy ⊢
    simp only [hcopy]
    generalize List.foldl _ _ _ = s
    by_cases hnew : s.2 = m.counter (m.entries base index).frame
    · rw [kassert_pos hnew, deletePageTable, deletePageTable, flood_deallocate]
      cases s.1.deallocate (m.entries base index).frame <;> rfl
    · rw [kassert_neg hnew]

lemma flood_ensureSingle (base index : ℕ) (flags : Flags) (actions : Actions) :
    (m.flood v).ensureSingle base index flags actions =
      (m.ensureSingle base index flags actions).map (flood v) := by
  rw [ensureSingle, ensureSingle]
  by_cases hslots : slots ≤ index
  · rw [if_pos hslots, if_pos hslots]
    rfl
  rw [if_neg hslots, if_neg hslots]
  dsimp only
  rw [flood_entries, apply_ite (Except.map (flood v)), flood_sharePageEntry, flood_newPageTable]
  refine if_congr Iff.rfl rfl ?_
  cases m.newPageTable with
  | error => rfl
  | ok r =>
    simp only [Except.map, bind, Except.bind]
    by_cases hcount : ((r.2.setCounter base (r.2.counter base + 1)).setEntry base index
        ⟨r.1, flags⟩).count base = ((r.2.setCounter base (r.2.counter base + 1)).setEntry base index
        ⟨r.1, flags⟩).counter base
    · rw [kassert_pos hcount, kassert_pos (by exact hcount)]
      rfl
    · rw [kassert_neg hcount, kassert_neg (by exact hcount)]

lemma flood_ensure (base : ℕ) (ix : Index) (flags : Flags) (actions : Actions) :
    (m.flood v).ensure base ix flags actions =
      (m.ensure base ix flags actions).map (flood v) := by
  rw [ensure, ensure, flood_ensureSingle]
  cases m.ensureSingle base ix.pml4e flags actions with
  | error => rfl
  | ok m₁ =>
    have hsecond := flood_ensureSingle v m₁ (m₁.pdptOf base ix) ix.pdpe flags actions
    simp only [Except.map, bind, Except.bind] at hsecond ⊢
    rw [pdptOf, flood_entries, ← pdptOf, hsecond]
    cases m₁.ensureSingle (m₁.pdptOf base ix) ix.pdpe flags actions with
    | error => rfl
    | ok m₂ => exact flood_ensureSingle v m₂ (m₂.pdOf base ix) ix.pde flags actions

lemma flood_copyFrame (target old : ℕ) :
    (m.flood v).copyFrame target old = (m.copyFrame target old).flood v := by
  rw [copyFrame, copyFrame, flood, flood]
  congr 1
  funext a
  rw [Memory.fill]
  exact ite_self v

lemma flood_mapPage (base : ℕ) (ix : Index) (flags : Flags) (actions : Actions) :
    (m.flood v).mapPage base ix flags actions =
      (m.mapPage base ix flags actions).map (flood v) := by
  have hpt : (m.flood v).ptOf base ix = m.ptOf base ix := rfl
  rw [mapPage, mapPage, hpt]
  simp only [flood_entries, flood_refs, flood_allocate]
  split
  · split
    · rfl
    split
    · cases m.allocate with
      | error => rfl
      | ok r =>
        simp only [Except.map, bind, Except.bind, flood_copyFrame, flood_deallocate]
        cases (r.2.copyFrame r.1 (m.entries (m.ptOf base ix) ix.pte).frame).deallocate
            (m.entries (m.ptOf base ix) ix.pte).frame <;> rfl
    · rfl
  · split
    · rfl
    cases m.allocate <;> rfl

lemma flood_mapPages (base : ℕ) (flags : Flags) (actions : Actions) (pages : ℕ) (ix : Index) :
    mapPages base flags actions pages ix (m.flood v) =
      (mapPages base flags actions pages ix m).map (flood v) := by
  induction pages generalizing ix m with
  | zero => rfl
  | succ pages ih =>
    have hensure : (m.flood v).ensureIf ix.normalizeIndex.1 base ix.normalizeIndex.2 flags actions =
        (m.ensureIf ix.normalizeIndex.1 base ix.normalizeIndex.2 flags actions).map (flood v) := by
      rw [ensureIf, ensureIf, flood_ensure]
      split <;> rfl
    rw [mapPages, mapPages, hensure]
    cases m.ensureIf ix.normalizeIndex.1 base ix.normalizeIndex.2 flags actions with
    | error => rfl
    | ok m₁ =>
      simp only [Except.map, bind, Except.bind, flood_mapPage]
      cases m₁.mapPage base ix.normalizeIndex.2 flags actions with
      | error => rfl
      | ok m₂ => exact ih m₂ _

/-- **Mapping does not look at the bytes**, and writes to a frame what another one has. -/
lemma flood_map (base virt pages : ℕ) (flags : Flags) (actions : Actions) :
    (m.flood v).map base virt pages flags actions =
      (m.map base virt pages flags actions).map (flood v) := by
  rw [map, map]
  split
  · rfl
  dsimp only
  rw [flood_ensure]
  cases m.ensure base (Index.unpack (virt / pageSize)) { flags with present := true } actions with
  | error => rfl
  | ok m₁ => exact flood_mapPages v m₁ base _ actions pages _

end Flood

end Paging

namespace Info

variable (behind : ℕ → Byte) (info : Info) (page access : ℕ) (item : Area)

def withPaging (m : Paging) : Info := { info with paging := m }

/-- The same address space where memory has other bytes. -/
def withBytes (bytes : Memory) : Info := info.withPaging { info.paging with bytes := bytes }

/-- `paging_.map` of one page, with `action_flags::override`. -/
def mapOne : Option Info :=
  (info.paging.map info.base page 1 (toPagingFlags item.flags)
    { override := true }).toOption.map info.withPaging

def getMap : Option ℕ := info.paging.getMap info.base page

def expandBrk : Option (Bool × Info) :=
  if access < info.heapTop then (info.mapOne page item).map fun info => (true, info)
  else some (false, info)

def expandVm : Option (Bool × Info) :=
  if item.flags &&& expandFlag = 0 then some (false, info)
  else
    (info.mapOne page item).map fun info =>
      match info.getMap page with
      | none => (false, info)
      | some f => (true, info.withPaging (info.paging.clearFrame behind f))

def expandBss : Option (Bool × Info) :=
  if item.flags &&& expandFlag = 0 then some (false, info)
  else do
    let info ← info.mapOne page item
    let f ← info.getMap page
    some (true, info.withPaging (info.paging.clearFrame behind f))

def expandFile : Option (Bool × Info) := do
  let mt ← info.mappings item.userData
  let lengthRead := sub64 page item.start
  let info ← info.mapOne page item
  let f ← info.getMap page
  let m := info.paging.clearFrame behind f
  let lengthCanRead := if mt.fileLength < lengthRead then 0 else mt.fileLength - lengthRead
  let bytes := mt.file.pread (add64 mt.fileOffset lengthRead)
    (if pageSize < lengthCanRead then pageSize else lengthCanRead)
  some (true, info.withPaging (m.fillFrame f bytes))

def expandMemoryObject : Option (Bool × Info) :=
  match info.mappings item.userData with
  | none | some { memoryObject := none, .. } => some (false, info)
  | some { memoryObject := some object, fileOffset, fileLength, .. } => do
    let info ← info.mapOne page item
    match info.getMap page with
    | none => some (false, info)
    | some f =>
      let m := info.paging.clearFrame behind f
      let relative := sub64 page item.start
      if fileLength ≤ relative then some (true, info.withPaging m)
      else
        let available := fileLength - relative
        let amount := if pageSize < available then pageSize else available
        match readObject object (add64 fileOffset relative) amount with
        | some bytes => some (true, info.withPaging (m.fillFrame f bytes))
        | none => (m.unmap info.base page 1).toOption.map fun m => (false, info.withPaging m)

/-- `info_t::expand`, without the physical mappings. -/
def expand : Option (Bool × Info) :=
  match item.method with
  | .none => some (false, info)
  | .common => info.expandVm behind page item
  | .commonWithBss => info.expandBss behind page item
  | .heapBreak => info.expandBrk page access item
  | .file => info.expandFile behind page item
  | .memoryObject => info.expandMemoryObject behind page item
  | .physical => none

/-- What the backing of an area says about a page: the bytes of the file or the object that
are there, and zeroes. -/
def content (i : ℕ) : Byte :=
  let relative := sub64 page item.start
  match item.method, info.mappings item.userData with
  | .file, some mt =>
    (mt.file.pread (add64 mt.fileOffset relative)
      (min pageSize (mt.fileLength - relative))).getD i 0
  | .memoryObject, some mt =>
    if i < mt.fileLength - relative then
      (mt.memoryObject.getD []).getD (add64 mt.fileOffset relative + i) 0
    else 0
  | _, _ => 0

def Shows (bytes : ℕ → Byte) : Prop :=
  ∃ f, info.getMap page = some f ∧ ∀ i < pageSize, info.paging.bytes (f * pageSize + i) = bytes i

/-! ## Frames -/

section Frames

variable {m : Paging} {f : ℕ}

lemma pageSize_and_four (f : ℕ) : (f * pageSize) &&& 0x4 = 0 := by
  have hfour : (0x4 : ℕ) = 2 ^ 2 := rfl
  have hbit : (f * pageSize).testBit 2 = false := by
    have hpage : pageSize = 2 ^ 12 := rfl
    rw [hpage, Nat.testBit_mul_two_pow]
    rfl
  rw [hfour, Nat.and_two_pow, hbit]
  rfl

lemma bytes_clearFrame (m : Paging) (f : ℕ) {i : ℕ} (hi : i < pageSize) :
    (m.clearFrame behind f).bytes (f * pageSize + i) = 0 := by
  rw [Paging.clearFrame]
  dsimp only
  rw [Common.memset_zero (pageSize_and_four f) (by decide), Memory.fill_apply_add _ _ _ _ hi]

lemma bytes_fillFrame (m : Paging) (f : ℕ) (bytes : List Byte) {i : ℕ} (hi : i < pageSize) :
    ((m.clearFrame behind f).fillFrame f bytes).bytes (f * pageSize + i) = bytes.getD i 0 := by
  rw [Paging.fillFrame]
  dsimp only
  by_cases hlen : i < bytes.length
  · rw [Memory.fill_apply_add _ _ _ _ hlen]
  · rw [Memory.fill_apply_of_outside _ _ _ _ (.inr (by omega)), bytes_clearFrame behind m f hi,
      List.getD_eq_default _ _ (Nat.not_lt.1 hlen)]

end Frames

/-! ## The handlers -/

section Handlers

variable {behind info page access item} {info' : Info}

lemma shows_clearFrame {f : ℕ} (h : info.getMap page = some f) :
    (info.withPaging (info.paging.clearFrame behind f)).Shows page fun _ => 0 :=
  ⟨f, h, fun _ hi => bytes_clearFrame behind info.paging f hi⟩

lemma shows_fillFrame {f : ℕ} (h : info.getMap page = some f) (bytes : List Byte) :
    (info.withPaging ((info.paging.clearFrame behind f).fillFrame f bytes)).Shows page
      fun i => bytes.getD i 0 :=
  ⟨f, h, fun _ hi => bytes_fillFrame behind info.paging f bytes hi⟩

lemma Shows.congr {bytes bytes' : ℕ → Byte} (h : info.Shows page bytes)
    (heq : ∀ i < pageSize, bytes i = bytes' i) : info.Shows page bytes' := by
  obtain ⟨f, hmap, hbytes⟩ := h
  exact ⟨f, hmap, fun i hi => (hbytes i hi).trans (heq i hi)⟩

lemma shows_expandVm (h : info.expandVm behind page item = some (true, info')) :
    info'.Shows page fun _ => 0 := by
  rw [expandVm] at h
  split at h
  · simp at h
  · obtain ⟨mapped, -, heq⟩ := map_eq_some_iff.1 h
    split at heq
    · simp at heq
    next f hf =>
      obtain rfl := (Prod.mk.inj heq).2
      exact shows_clearFrame hf

lemma shows_expandBss (h : info.expandBss behind page item = some (true, info')) :
    info'.Shows page fun _ => 0 := by
  rw [expandBss] at h
  split at h
  · simp at h
  · obtain ⟨mapped, -, h⟩ := bind_eq_some_iff.1 h
    obtain ⟨f, hf, heq⟩ := bind_eq_some_iff.1 h
    obtain rfl := (Prod.mk.inj (some.inj heq)).2
    exact shows_clearFrame hf

lemma readSize_eq (fileLength lengthRead : ℕ) :
    (if pageSize < (if fileLength < lengthRead then 0 else fileLength - lengthRead) then pageSize
      else (if fileLength < lengthRead then 0 else fileLength - lengthRead)) =
      min pageSize (fileLength - lengthRead) := by
  have hread : (if fileLength < lengthRead then 0 else fileLength - lengthRead) =
      fileLength - lengthRead := by
    split
    · omega
    · rfl
  rw [hread]
  split <;> omega

lemma shows_expandFile (hmethod : item.method = .file)
    (h : info.expandFile behind page item = some (true, info')) :
    info'.Shows page (info.content page item) := by
  rw [expandFile] at h
  obtain ⟨mt, hmt, h⟩ := bind_eq_some_iff.1 h
  obtain ⟨mapped, -, h⟩ := bind_eq_some_iff.1 h
  obtain ⟨f, hf, heq⟩ := bind_eq_some_iff.1 h
  obtain rfl := (Prod.mk.inj (some.inj heq)).2
  refine (shows_fillFrame hf _).congr fun i _ => ?_
  rw [readSize_eq, content, hmethod, hmt]

lemma getD_readObject {object bytes : List Byte} {offset size : ℕ}
    (h : readObject object offset size = some bytes) (i : ℕ) :
    bytes.getD i 0 = if i < size then object.getD (offset + i) 0 else 0 := by
  obtain ⟨-, rfl⟩ := ite_some_none_eq_some.1 h
  simp only [List.getD_eq_getElem?_getD, List.getElem?_take, List.getElem?_drop]
  split <;> rfl

lemma shows_expandMemoryObject (hmethod : item.method = .memoryObject)
    (h : info.expandMemoryObject behind page item = some (true, info')) :
    info'.Shows page (info.content page item) := by
  rw [expandMemoryObject] at h
  split at h
  · simp at h
  · simp at h
  next file object fileOffset fileLength hmt =>
    obtain ⟨mapped, -, h⟩ := bind_eq_some_iff.1 h
    split at h
    · simp at h
    rename_i f hf
    dsimp only at h
    split at h
    next hbehind =>
      obtain rfl := (Prod.mk.inj (some.inj h)).2
      refine (shows_clearFrame hf).congr fun i _ => ?_
      rw [content, hmethod, hmt]
      dsimp only
      rw [if_neg (by omega)]
    · split at h
      next bytes hread =>
        obtain rfl := (Prod.mk.inj (some.inj h)).2
        refine (shows_fillFrame hf _).congr fun i hi => ?_
        rw [getD_readObject hread, content, hmethod, hmt]
        dsimp only
        rw [getD_some]
        have hsize : i < (if pageSize < fileLength - sub64 page item.start then pageSize
            else fileLength - sub64 page item.start) ↔
            i < fileLength - sub64 page item.start := by
          split
          · omega
          · rfl
        simp only [hsize]
      · obtain ⟨m, -, heq⟩ := map_eq_some_iff.1 h
        simp at heq

lemma shows_expand (hheap : item.method = .heapBreak → info.heapTop ≤ access)
    (h : info.expand behind page access item = some (true, info')) :
    info'.Shows page (info.content page item) := by
  have hzero : item.method = .common ∨ item.method = .commonWithBss →
      ∀ i, info.content page item i = 0 := by
    rintro (hmethod | hmethod) i
    · rw [content, hmethod]
    · rw [content, hmethod]
  rw [expand] at h
  split at h
  · simp at h
  next hmethod => exact (shows_expandVm h).congr fun i _ => (hzero (.inl hmethod) i).symm
  next hmethod => exact (shows_expandBss h).congr fun i _ => (hzero (.inr hmethod) i).symm
  next hmethod =>
    rw [expandBrk, if_neg (Nat.not_lt.2 (hheap hmethod))] at h
    cases h
  next hmethod => exact shows_expandFile hmethod h
  next hmethod => exact shows_expandMemoryObject hmethod h
  · simp at h

lemma mapOne_flood (v : Byte) : (info.withPaging (info.paging.flood v)).mapOne page item =
    (info.mapOne page item).map fun mapped => mapped.withPaging (mapped.paging.flood v) := by
  have hmap := info.paging.flood_map v info.base page 1 (toPagingFlags item.flags)
    { override := true }
  rw [mapOne, mapOne, withPaging]
  dsimp only
  rw [hmap]
  cases info.paging.map info.base page 1 (toPagingFlags item.flags) { override := true } <;> rfl

/-- **A page fault shows the backing of the area and nothing else, whatever the frames had**,
exactly when it is not one below the heap top in the heap.  The page can be mapped: where it
cannot, the kernel stops. -/
theorem shows_expand_iff (hmap : (info.mapOne page item).isSome) :
    (∀ bytes info', (info.withBytes bytes).expand behind page access item = some (true, info') →
      info'.Shows page (info.content page item)) ↔
      (item.method = .heapBreak → info.heapTop ≤ access) := by
  refine ⟨fun h hmethod => ?_, fun h bytes info' hexpand => ?_⟩
  swap
  · exact @shows_expand behind (info.withBytes bytes) page access item info' h hexpand
  by_contra haccess
  obtain ⟨mapped, hmapped⟩ := isSome_iff_exists.1 hmap
  -- where every frame has ones, the new heap page has them
  have hexpand : (info.withBytes fun _ => 1).expand behind page access item =
      some (true, mapped.withPaging (mapped.paging.flood 1)) := by
    have htop : access < (info.withBytes fun _ => 1).heapTop := Nat.not_le.1 haccess
    rw [expand, hmethod]
    dsimp only
    rw [expandBrk, if_pos htop]
    change ((info.withPaging (info.paging.flood 1)).mapOne page item).map _ = _
    rw [mapOne_flood, hmapped]
    rfl
  obtain ⟨f, -, hbytes⟩ := h _ _ hexpand
  have hfirst := hbytes 0 (by decide)
  rw [content, hmethod] at hfirst
  exact absurd hfirst (by decide : (1 : Byte) ≠ 0)

end Handlers

def used : Info where
  paging :=
    { supply := [1, 2, 3, 4]
      refs := Function.update (fun _ => 0) 0 1
      bytes := fun _ => 0x55
      tables := Function.update (fun _ => none) 0 (some 0) }
  base := 0
  heapTop := 0x402000
  mappings := fun _ => none

/-- Two pages at `0x400000`. -/
def twoPages (method : PageFaultMethod) : Area :=
  ⟨0x400000, 0x402000, mappingFlags, method, 0⟩

/-- An anonymous page shows zeroes, whatever its frame had. -/
theorem shows_expand_common :
    (used.expand (fun _ => 0) 0x401000 0x401234 (twoPages .common)).map Prod.fst = some true ∧
      ∀ bytes info', (used.withBytes bytes).expand (fun _ => 0) 0x401000 0x401234
        (twoPages .common) = some (true, info') →
          info'.Shows 0x401000 (used.content 0x401000 (twoPages .common)) :=
  ⟨by decide +kernel, (shows_expand_iff (by decide +kernel)).2 nofun⟩

/-- A heap page shows what the last owner of its frame has left there. -/
theorem not_shows_expand_heapBreak :
    ∃ info', used.expand (fun _ => 0) 0x401000 0x401234 (twoPages .heapBreak) = some (true, info') ∧
      ¬ info'.Shows 0x401000 (used.content 0x401000 (twoPages .heapBreak)) := by
  have hruns : ((used.expand (fun _ => 0) 0x401000 0x401234 (twoPages .heapBreak)).map
      fun r => (r.1, (r.2.getMap 0x401000).map fun f => r.2.paging.bytes (f * pageSize))) =
      some (true, some 0x55) := by
    decide +kernel
  obtain ⟨⟨_, info'⟩, hrun, heq⟩ := map_eq_some_iff.1 hruns
  obtain ⟨rfl, hbyte⟩ := Prod.mk.inj heq
  refine ⟨info', hrun, ?_⟩
  rintro ⟨f, hf, hbytes⟩
  have hfirst := hbytes 0 (by decide)
  rw [hf, map_some] at hbyte
  rw [Nat.add_zero, some.inj hbyte] at hfirst
  exact absurd hfirst (by decide)

end Info

end Naos.Mm
