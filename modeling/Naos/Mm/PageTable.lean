import Naos.Lib.Memory
import Mathlib

/-!
# Page tables

The translation of a virtual page goes through four levels of tables with 512 entries each.
`page_table_t` builds them out of frames of the zone allocator, which counts the references
to a frame, and each table frame also counts its present entries in `page_table_counter`.

Cloning an address space shares the tables below the first level.  The reference count of a
table is then above one, and `share_page_entry` gives an address space its own copy of a
table before it is changed.

The zone hands out the frames of `supply` one after the other.  Which free frame the buddy
allocator picks is not modelled: the list is arbitrary, and a frame that is freed may stand
in it again.  A frame is used for a table or for bytes.  The entries of a table are kept
apart from the bytes, and the bytes of a frame stay what they are when the frame is freed
and handed out again.

The kernel half of the tables is mapped with big pages at boot and copied between address
spaces without references.  It is not part of the model, nor is `map_to`, which maps
addresses outside the zone.
-/

namespace Naos.Mm

open Function

inductive Panic where
  /-- `zones::allocate` has no frame left. -/
  | oom
  /-- `zone::malloc` gets a frame that has references. -/
  | reused
  /-- `zone::free` or `zone::page_add_reference` finds no reference. -/
  | unreferenced
  | kassert
  | errorMap
  | errorUnmap
  | bounds
  /-- There is no such `page_table_t` object. -/
  | noTable
  deriving DecidableEq, Repr

def kassert (c : Prop) [Decidable c] : Except Panic Unit :=
  if c then .ok () else .error .kassert

/-- The flags of an entry.  The bit for big pages is set in the kernel half only. -/
structure Flags where
  present : Bool := false
  writable : Bool := false
  userMode : Bool := false
  writeThrough : Bool := false
  cacheDisable : Bool := false
  accessed : Bool := false
  dirty : Bool := false
  deriving DecidableEq, Repr

namespace Flags

/-- `flags & ~flags::writable` -/
def readonly (f : Flags) : Flags := { f with writable := false }

/-- `flags & ~(flags::accessed | flags::dirty)` -/
def unused (f : Flags) : Flags := { f with accessed := false, dirty := false }

/-- `f | g` -/
def union (f g : Flags) : Flags where
  present := f.present || g.present
  writable := f.writable || g.writable
  userMode := f.userMode || g.userMode
  writeThrough := f.writeThrough || g.writeThrough
  cacheDisable := f.cacheDisable || g.cacheDisable
  accessed := f.accessed || g.accessed
  dirty := f.dirty || g.dirty

end Flags

/-- `action_flags` -/
structure Actions where
  override : Bool := false
  cow : Bool := false
  copyAll : Bool := false
  deriving DecidableEq, Repr

structure Entry where
  frame : ℕ := 0
  flags : Flags := {}
  deriving DecidableEq, Repr

@[ext] structure Paging where
  supply : List ℕ
  /-- `ref_count_` -/
  refs : ℕ → ℕ := fun _ => 0
  /-- `page_table_next_entries_` -/
  counter : ℕ → ℕ := fun _ => 0
  entries : ℕ → ℕ → Entry := fun _ _ => {}
  bytes : Memory
  /-- `base_` of each `page_table_t`. -/
  tables : ℕ → Option ℕ := fun _ => none

def pageSize : ℕ := 4096

abbrev slots : ℕ := 512

def hugePages : ℕ := 512 * 512

namespace Paging

/-! ## The zone -/

variable (m : Paging)

/-- `zones::allocate` of one page.  The bytes stay what they are. -/
def allocate : Except Panic (ℕ × Paging) :=
  match m.supply with
  | [] => .error .oom
  | f :: rest =>
    if m.refs f ≠ 0 then .error .reused
    else .ok (f, { m with supply := rest, refs := update m.refs f 1 })

def deallocate (f : ℕ) : Except Panic Paging :=
  if 0 < m.refs f then .ok { m with refs := update m.refs f (m.refs f - 1) }
  else .error .unreferenced

def addRefCount (f : ℕ) : Paging :=
  { m with refs := update m.refs f (m.refs f + 1) }

def pageAddReference (f : ℕ) : Except Panic Paging :=
  if 0 < m.refs f then .ok (m.addRefCount f) else .error .unreferenced

/-! ## Entries and tables -/

def setEntry (t i : ℕ) (e : Entry) : Paging :=
  { m with entries := update m.entries t (update (m.entries t) i e) }

def setFlags (t i : ℕ) (flags : Flags) : Paging :=
  m.setEntry t i { m.entries t i with flags := flags }

/-- `set_page_table_counter` -/
def setCounter (t n : ℕ) : Paging :=
  { m with counter := update m.counter t n }

/-- The number of present entries of a table, which the source calls `counter`. -/
def count (t : ℕ) : ℕ :=
  (List.range slots).countP fun i => (m.entries t i).flags.present

def newPageTable : Except Panic (ℕ × Paging) := do
  let (p, m) ← m.allocate
  .ok (p, { m with entries := update m.entries p fun _ => {} }.setCounter p 0)

def deletePageTable (t : ℕ) : Except Panic Paging := m.deallocate t

/-- One entry of a table is copied for `share_page_entry`. -/
def copyEntry (next p old : ℕ) (flags : Flags) (s : Paging × ℕ) (i : ℕ) : Paging × ℕ :=
  if s.2 < old ∧ (s.1.entries next i).flags.present then
    let m := (s.1.addRefCount (s.1.entries next i).frame).setFlags next i flags
    (m.setEntry p i (m.entries next i), s.2 + 1)
  else s

/-- `share_page_entry`, where `entry` is the entry `index` of `base`. -/
def sharePageEntry (base index : ℕ) (flags : Flags) (actions : Actions) :
    Except Panic Paging :=
  if flags.readonly = flags ∧ actions.copyAll = false then
    -- nothing to share
    .ok m
  else
    let next := (m.entries base index).frame
    if m.refs next = 1 then .ok (m.setFlags base index flags)
    else do
      let old := m.counter next
      kassert (m.count next = old)
      let (p, m) ← m.newPageTable
      let (m, new) := (List.range slots).foldl (copyEntry next p old flags.readonly) (m, 0)
      kassert (new = old)
      let m ← m.deletePageTable next
      .ok ((m.setCounter p new).setEntry base index ⟨p, flags⟩)

/-- `ensure_single`: there is a table behind the entry `index` of `base`. -/
def ensureSingle (base index : ℕ) (flags : Flags) (actions : Actions) :
    Except Panic Paging :=
  if slots ≤ index then .error .bounds
  else
    let entry := m.entries base index
    if entry.flags.present then
      let flags :=
        if entry.flags.union flags ≠ entry.flags ∧ (actions.cow || actions.override) then
          flags.union entry.flags
        else flags
      m.sharePageEntry base index flags.unused actions
    else do
      let (p, m) ← m.newPageTable
      let m := (m.setCounter base (m.counter base + 1)).setEntry base index ⟨p, flags⟩
      kassert (m.count base = m.counter base)
      .ok m

end Paging

/-! ## Indices -/

structure Index where
  pml4e : ℕ
  pdpe : ℕ
  pde : ℕ
  pte : ℕ
  deriving DecidableEq, Repr

namespace Index

/-- `index_t::unpack` of the page number. -/
def unpack (val : ℕ) : Index :=
  ⟨val / 2 ^ 27 % slots, val / 2 ^ 18 % slots, val / 2 ^ 9 % slots, val % slots⟩

/-- `normalize_index`, and whether it carried. -/
def normalizeIndex (ix : Index) : Bool × Index :=
  let (check, ix) :=
    if slots ≤ ix.pte then (true, { ix with pte := 0, pde := ix.pde + 1 }) else (false, ix)
  let (check, ix) :=
    if slots ≤ ix.pde then (true, { ix with pde := 0, pdpe := ix.pdpe + 1 }) else (check, ix)
  if slots ≤ ix.pdpe then (true, { ix with pdpe := 0, pml4e := ix.pml4e + 1 }) else (check, ix)

end Index

namespace Paging

variable (m : Paging)

/-- `(*base_)[pml4e_index].next()` -/
def pdptOf (base : ℕ) (ix : Index) : ℕ := (m.entries base ix.pml4e).frame

/-- `(*base_)[pml4e_index][pdpe_index].next()` -/
def pdOf (base : ℕ) (ix : Index) : ℕ := (m.entries (m.pdptOf base ix) ix.pdpe).frame

/-- `(*base_)[pml4e_index][pdpe_index][pde_index].next()` -/
def ptOf (base : ℕ) (ix : Index) : ℕ := (m.entries (m.pdOf base ix) ix.pde).frame

/-- `page_table_t::ensure`: the three tables on the way to a page are there. -/
def ensure (base : ℕ) (ix : Index) (flags : Flags) (actions : Actions) :
    Except Panic Paging := do
  let m ← m.ensureSingle base ix.pml4e flags actions
  let m ← m.ensureSingle (m.pdptOf base ix) ix.pdpe flags actions
  m.ensureSingle (m.pdOf base ix) ix.pde flags actions

def getMap (base virt : ℕ) : Option ℕ :=
  let ix := Index.unpack (virt / pageSize)
  let pml4e := m.entries base ix.pml4e
  if pml4e.flags.present then
    let pdpe := m.entries pml4e.frame ix.pdpe
    if pdpe.flags.present then
      let pde := m.entries pdpe.frame ix.pde
      if pde.flags.present then
        let pte := m.entries pde.frame ix.pte
        if pte.flags.present then some pte.frame else none
      else none
    else none
  else none

/-! ## Mapping -/

/-- `memcpy` of one frame to another. -/
def copyFrame (target old : ℕ) : Paging :=
  { m with
    bytes := m.bytes.fill (target * pageSize) pageSize fun i => m.bytes (old * pageSize + i) }

/-- The body of the loop of `map`: one page, whose tables are there. -/
def mapPage (base : ℕ) (ix : Index) (flags : Flags) (actions : Actions) :
    Except Panic Paging :=
  let pt := m.ptOf base ix
  let pe := m.entries pt ix.pte
  if pe.flags.present then
    if actions.override = false then .error .errorMap
    else if 1 ≤ m.refs pe.frame then do
      let (target, m) ← m.allocate
      let m ← (m.copyFrame target pe.frame).deallocate pe.frame
      .ok (m.setEntry pt ix.pte ⟨target, flags⟩)
    else .error .errorMap
  else if actions.cow then .error .errorMap
  else do
    let (target, m) ← m.allocate
    .ok ((m.setCounter pt (m.counter pt + 1)).setEntry pt ix.pte ⟨target, flags⟩)

def ensureIf (check : Bool) (base : ℕ) (ix : Index) (flags : Flags)
    (actions : Actions) : Except Panic Paging :=
  if check then m.ensure base ix flags actions else .ok m

/-- The loop of `map` over the pages that are left. -/
def mapPages (base : ℕ) (flags : Flags) (actions : Actions) :
    ℕ → Index → Paging → Except Panic Paging
  | 0, _, m => .ok m
  | pages + 1, ix, m => do
    let m ← m.ensureIf ix.normalizeIndex.1 base ix.normalizeIndex.2 flags actions
    let ix := ix.normalizeIndex.2
    let m ← m.mapPage base ix flags actions
    mapPages base flags actions pages { ix with pte := ix.pte + 1 } m

def map (base virt pages : ℕ) (flags : Flags) (actions : Actions) :
    Except Panic Paging :=
  if virt % pageSize ≠ 0 then .error .errorMap
  else do
    let flags := { flags with present := true }
    let ix := Index.unpack (virt / pageSize)
    let m ← m.ensure base ix flags actions
    mapPages base flags actions pages ix m

/-! ## Unmapping -/

/-- A table without entries is deleted and its entry in `parent` cleared. -/
def releaseTable (parent index t : ℕ) : Except Panic Paging :=
  if m.counter t = 0 then do
    let m ← m.deletePageTable t
    let m := m.setFlags parent index {}
    kassert (0 < m.counter parent)
    .ok (m.setCounter parent (m.counter parent - 1))
  else .ok m

def releaseFirst (base index t : ℕ) : Except Panic Paging :=
  if m.counter t = 0 then do
    let m ← m.deletePageTable t
    .ok (m.setFlags base index {})
  else .ok m

/-- The part of the loop of `unmap` for a present page. -/
def unmapPage (base : ℕ) (ix : Index) (flags : Flags) : Except Panic Paging := do
  let m ← m.ensure base ix flags { override := true, cow := true, copyAll := true }
  let pdpt := m.pdptOf base ix
  let pd := m.pdOf base ix
  let pt := m.ptOf base ix
  kassert (m.refs pdpt = 1)
  kassert (m.refs pd = 1)
  kassert (m.refs pt = 1)
  let m ← m.deallocate (m.entries pt ix.pte).frame
  let m := m.setFlags pt ix.pte {}
  kassert (0 < m.counter pt)
  let m := m.setCounter pt (m.counter pt - 1)
  let m ← m.releaseTable pd ix.pde pt
  let m ← m.releaseTable pdpt ix.pdpe pd
  m.releaseFirst base ix.pml4e pdpt

/-- Where the loop of `unmap` stands: the pages it has counted, the indices, and the entry
`pml4e` points to. -/
structure Cursor where
  i : ℕ
  index : Index
  slot : ℕ
  deriving DecidableEq, Repr

/-- The body of the loop of `unmap`. -/
def unmapStep (base : ℕ) (c : Cursor) : Except Panic (Paging × Cursor) :=
  let check := c.index.normalizeIndex.1
  let ix := c.index.normalizeIndex.2
  let slot := if check then ix.pml4e else c.slot
  if slots ≤ slot then .error .bounds
  else
    let pml4e := m.entries base slot
    let pdpe := m.entries pml4e.frame ix.pdpe
    let pde := m.entries pdpe.frame ix.pde
    let pte := m.entries pde.frame ix.pte
    if pml4e.flags.present = false then
      -- `pml4e` is not moved to the next entry
      .ok (m, ⟨c.i + ((512 - ix.pdpe) * 512 * 512 + (512 - ix.pde) * 512 + (512 - ix.pte)),
        ⟨ix.pml4e + 1, 0, 0, 0⟩, slot⟩)
    else if pdpe.flags.present = false then
      .ok (m, ⟨c.i + ((512 - ix.pde) * 512 + (512 - ix.pte)), ⟨ix.pml4e, ix.pdpe + 1, 0, 0⟩, slot⟩)
    else if pde.flags.present = false then
      .ok (m, ⟨c.i + (512 - ix.pte), ⟨ix.pml4e, ix.pdpe, ix.pde + 1, 0⟩, slot⟩)
    else if pte.flags.present = false then
      .ok (m, ⟨c.i + 1, { ix with pte := ix.pte + 1 }, slot⟩)
    else do
      let m ← m.unmapPage base ix pte.flags
      .ok (m, ⟨c.i + 1, { ix with pte := ix.pte + 1 }, ix.pml4e⟩)

/-- The loop of `unmap`.  A pass counts at least one page, so that `pages` passes are
enough. -/
def unmapPages (base pages : ℕ) : ℕ → Cursor → Paging → Except Panic Paging
  | 0, _, m => .ok m
  | n + 1, c, m =>
    if c.i < pages then do
      let (m, c) ← m.unmapStep base c
      unmapPages base pages n c m
    else .ok m

def unmap (base virt pages : ℕ) : Except Panic Paging :=
  if virt % pageSize ≠ 0 then .error .errorUnmap
  else
    let ix := Index.unpack (virt / pageSize)
    unmapPages base pages pages ⟨0, ix, ix.pml4e⟩ m

/-! ## Cloning, creation and destruction -/

/-- The loop of `clone_readonly_to` over the passes that are left.  A pass that finds no
entry stays at its index. -/
def cloneSlots (src dst : ℕ) : ℕ → ℕ → Paging → Except Panic Paging
  | 0, _, m => .ok m
  | n + 1, slot, m =>
    if slots ≤ slot then .error .bounds
    else if (m.entries src slot).flags.present = false then cloneSlots src dst n slot m
    else do
      let m ← m.pageAddReference (m.entries src slot).frame
      let m := m.setFlags src slot (m.entries src slot).flags.readonly
      let m := m.setEntry dst slot (m.entries src slot)
      cloneSlots src dst n (slot + 1) (m.setCounter dst (m.counter dst + 1))

def cloneReadonlyTo (src virt pages dst : ℕ) : Except Panic Paging := do
  let slot := (Index.unpack (virt / pageSize)).pml4e
  let m ← cloneSlots src dst ((pages + hugePages - 1) / hugePages) slot m
  kassert (m.count dst = m.counter dst)
  .ok m

/-- `page_table_t::page_table_t` -/
def create (id : ℕ) : Except Panic Paging := do
  let (base, m) ← m.newPageTable
  .ok { m with tables := update m.tables id (some base) }

/-- `page_table_t::~page_table_t` -/
def destroy (id base : ℕ) : Except Panic Paging := do
  let m ← m.deletePageTable base
  .ok { m with tables := update m.tables id none }

end Paging

inductive Action where
  | create (id : ℕ)
  | map (id virt pages : ℕ) (flags : Flags) (actions : Actions)
  | unmap (id virt pages : ℕ)
  | clone (id virt pages target : ℕ)
  | destroy (id : ℕ)
  deriving DecidableEq, Repr

namespace Paging

def withTable (m : Paging) (id : ℕ) (f : ℕ → Except Panic Paging) : Except Panic Paging :=
  match m.tables id with
  | none => .error .noTable
  | some base => f base

def act (m : Paging) : Action → Except Panic Paging
  | .create id => if m.tables id = none then m.create id else .error .noTable
  | .map id virt pages flags actions =>
    m.withTable id fun base => m.map base virt pages flags actions
  | .unmap id virt pages => m.withTable id fun base => m.unmap base virt pages
  | .clone id virt pages target =>
    m.withTable id fun src =>
      m.withTable target fun dst => m.cloneReadonlyTo src virt pages dst
  | .destroy id => m.withTable id fun base => m.destroy id base

def step (m : Paging) (a : Action) : Option Paging := (m.act a).toOption

end Paging

end Naos.Mm
