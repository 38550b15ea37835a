import Naos.Fs.Ramfs
import Naos.Lib.Counter

/-!
# The memory of the RAM file system

`iwrite` adds the size of a new block to `current_ram_used` of the super block and takes the
size of the old one from it.  Nothing takes the size of the last block from it when the inode
goes.
-/

namespace Naos.Ramfs

open Transition List Option

/-- An inode, the files that are open on it, and its counts. -/
structure Node where
  opened : Opened Inode
  linkCount : ℕ := 1
  refCount : ℕ := 0

def Node.ramSize (node : Node) : ℕ := node.opened.inode.ramSize

inductive Count where
  | link
  | unlink
  | acquire
  /-- The destructor of a file. -/
  | release (unlinkOnClose : Bool)

def Count.apply : Count → Node → Node
  | .link, node => { node with linkCount := node.linkCount + 1 }
  | .unlink, node => { node with linkCount := node.linkCount - 1 }
  | .acquire, node => { node with refCount := node.refCount + 1 }
  | .release unlinkOnClose, node =>
    { node with
      refCount := node.refCount - 1
      linkCount := if unlinkOnClose then node.linkCount - 1 else node.linkCount }

structure SuperBlock where
  nodes : List Node := []
  currentRamUsed : ℕ := 0
  maxRamSize : ℕ

inductive Action where
  | create (files : ℕ → File)
  | count (k : ℕ) (c : Count)
  | call (k i : ℕ) (c : Call)

namespace SuperBlock

variable (s : SuperBlock)

/-- The end of `unlink`: `dealloc_inode` takes the inode out of the map and does no more. -/
def put (k : ℕ) (node : Node) : SuperBlock :=
  { s with nodes :=
      if node.linkCount = 0 ∧ node.refCount = 0 then s.nodes.eraseIdx k else s.nodes.set k node }

/-- An inode as its calls find it, with the counters of the super block. -/
def view (node : Node) : Opened Inode :=
  let inode := { node.opened.inode with
    currentRamUsed := s.currentRamUsed, maxRamSize := s.maxRamSize }
  { node.opened with inode }

def act : Action → Option SuperBlock
  | .create files =>
    some { s with nodes := s.nodes ++ [{ opened := ⟨{ maxRamSize := s.maxRamSize }, files, []⟩ }] }
  | .count k c => s.nodes[k]?.map fun node => s.put k (c.apply node)
  | .call k i c => s.nodes[k]?.bind fun node =>
    if node.refCount = 0 then none
    else (step ramfs (s.view node) (i, c)).map fun opened =>
      { s.put k { node with opened } with currentRamUsed := opened.inode.currentRamUsed }

/-- **The counter of the super block** is the sum over the inodes, and within the limit. -/
structure Accounted : Prop where
  used : s.currentRamUsed = (s.nodes.map Node.ramSize).sum
  limit : s.currentRamUsed ≤ s.maxRamSize

/-- An inode that goes has no block, and a write starts and ends where the sizes do not wrap. -/
def Emptied : Action → Prop
  | .create _ => True
  | .count k c => ∀ node ∈ s.nodes[k]?,
    (c.apply node).linkCount = 0 → (c.apply node).refCount = 0 → node.ramSize = 0
  | .call k i (.write place buffer _) => ∀ node ∈ s.nodes[k]?,
    let file := node.opened.files i
    let offset := place.getD (if file.append then i64 node.opened.inode.fileSize else file.offset)
    0 ≤ offset ∧ offset + buffer.length + 4096 + s.currentRamUsed < 2 ^ 64
  | .call _ _ _ => True

end SuperBlock

/-! ## One call -/

/-- The counter moves with the block of the inode. -/
structure Inode.Booked (node t : Inode) : Prop where
  used : t.currentRamUsed + node.ramSize = node.currentRamUsed + t.ramSize
  limit : t.currentRamUsed ≤ max node.currentRamUsed node.maxRamSize
  block : t.start = none → t.ramSize = 0

namespace Inode

variable {node t : Inode} {offset o : Int} {buffer : List UInt8} {n : ℕ} {allocated : ℕ → UInt8}

lemma store_eq_some (h : node.store offset buffer = some (n, o, t)) :
    t.currentRamUsed = node.currentRamUsed ∧ t.ramSize = node.ramSize ∧ t.start ≠ none := by
  obtain ⟨block, -, h⟩ := bind_eq_some_iff.1 h
  obtain ⟨block, -, h⟩ := map_eq_some_iff.1 h
  cases h
  exact ⟨rfl, rfl, some_ne_none _⟩

variable (hblock : node.start = none → node.ramSize = 0)
include hblock

lemma booked_of_size (fileSize : ℕ) : Booked node { node with fileSize } :=
  ⟨rfl, le_max_left _ _, hblock⟩

lemma booked_iwrite (hle : node.ramSize ≤ node.currentRamUsed) (hoffset : 0 ≤ offset)
    (hroom : offset + buffer.length + 4096 + node.currentRamUsed < 2 ^ 64)
    (h : node.iwrite offset buffer allocated = some (n, o, t)) : Booked node t := by
  have hsize : u64 (offset + buffer.length) = offset.toNat + buffer.length := by
    rw [u64]
    omega
  have hpage : u64 ((offset.toNat + buffer.length : ℕ) + 4095) =
      offset.toNat + buffer.length + 4095 := by
    rw [u64]
    omega
  simp only [iwrite, hsize, hpage] at h
  generalize hram : (offset.toNat + buffer.length + 4095) / 4096 * 4096 = ramSize at h
  split_ifs at h with hgrow hlimit
  · obtain ⟨u, hu, hstore⟩ := bind_eq_some_iff.1 h
    obtain ⟨hused, hsame, hstart⟩ := store_eq_some hstore
    have hgrown : u.ramSize = ramSize ∧
        u.currentRamUsed = node.currentRamUsed + ramSize - node.ramSize := by
      rw [grow] at hu
      split at hu
      next hnone =>
        cases hu
        have := hblock hnone
        refine ⟨rfl, ?_⟩
        dsimp only
        rw [u64]
        omega
      · obtain ⟨-, hu⟩ := ite_none_left_eq_some.1 hu
        obtain ⟨block, -, rfl⟩ := map_eq_some_iff.1 hu
        refine ⟨rfl, ?_⟩
        dsimp only
        rw [u64]
        omega
    rw [u64] at hlimit
    exact ⟨by omega, by omega, fun hnone => absurd hnone hstart⟩
  · cases h
    exact booked_of_size hblock node.fileSize
  · obtain ⟨hused, hsame, hstart⟩ := store_eq_some h
    exact ⟨by omega, by omega, fun hnone => absurd hnone hstart⟩

end Inode

variable {s s' : SuperBlock}

/-! ## Runs -/

namespace SuperBlock

structure Inv (s : SuperBlock) : Prop extends s.Accounted where
  block : ∀ node ∈ s.nodes, node.opened.inode.start = none → node.ramSize = 0

variable {k : ℕ} {node node' : Node}

lemma Inv.call (h : s.Inv) (hk : s.nodes[k]? = some node) {i : ℕ} {c : Call} {t : Opened Inode}
    (hok : s.Emptied (.call k i c)) (hstep : step ramfs (s.view node) (i, c) = some t) :
    (s.view node).inode.Booked t.inode := by
  have hblock := h.block node (mem_of_getElem? hk)
  have hle : node.ramSize ≤ s.currentRamUsed := by
    have hsum := Counter.sum_map_eraseIdx Node.ramSize hk
    have hused := h.used
    omega
  have hsame := @Inode.booked_of_size (s.view node).inode hblock
  cases c with simp only [step] at hstep
  | read place maxSize =>
    iterate 2
      split at hstep
      · cases hstep
        exact hsame _
    obtain ⟨⟨bytes, offset⟩, -, rfl⟩ := map_eq_some_iff.1 hstep
    exact hsame _
  | write place buffer allocated =>
    iterate 3
      split at hstep
      · cases hstep
        exact hsame _
    obtain ⟨⟨n, offset, inode⟩, hwrite, rfl⟩ := map_eq_some_iff.1 hstep
    obtain ⟨hoffset, hroom⟩ := hok node hk
    exact Inode.booked_iwrite hblock hle hoffset hroom hwrite
  | seek | move =>
    cases hstep
    exact hsame _
  | truncate | allocate =>
    split at hstep <;> cases hstep <;> exact hsame _

lemma Inv.put (h : s.Inv) (hk : s.nodes[k]? = some node)
    (hgone : node'.linkCount = 0 → node'.refCount = 0 → node'.ramSize = 0)
    (hblock : node'.opened.inode.start = none → node'.ramSize = 0) {used : ℕ}
    (hused : used + node.ramSize = s.currentRamUsed + node'.ramSize)
    (hlimit : used ≤ s.maxRamSize) :
    Inv { s.put k node' with currentRamUsed := used } := by
  have hold := h.used
  refine ⟨⟨?_, hlimit⟩, ?_⟩ <;> simp only [SuperBlock.put] <;> split_ifs with hboth
  · have hsum := Counter.sum_map_eraseIdx Node.ramSize hk
    have := hgone hboth.1 hboth.2
    omega
  · have hsum := Counter.sum_map_set Node.ramSize hk node'
    omega
  · exact fun x hx => h.block x (mem_of_mem_eraseIdx hx)
  · intro x hx
    rcases mem_or_eq_of_mem_set hx with hx | rfl
    · exact h.block x hx
    · exact hblock

lemma Inv.act {a : Action} (h : s.Inv) (hok : s.Emptied a) (hstep : s.act a = some s') :
    s'.Inv := by
  cases a with
  | create files =>
    cases hstep
    refine ⟨⟨?_, h.limit⟩, ?_⟩
    · simpa [Node.ramSize] using h.used
    · exact forall_mem_append.2 ⟨h.block, by simp [Node.ramSize]⟩
  | count k c =>
    obtain ⟨node, hk, rfl⟩ := map_eq_some_iff.1 hstep
    have hsame : (c.apply node).opened = node.opened := by cases c <;> rfl
    have hram : (c.apply node).ramSize = node.ramSize := congrArg (·.inode.ramSize) hsame
    refine h.put hk (hram ▸ hok node hk) ?_ (by rw [hram]) h.limit
    rw [hsame, hram]
    exact h.block node (mem_of_getElem? hk)
  | call k i c =>
    obtain ⟨node, hk, hstep⟩ := bind_eq_some_iff.1 hstep
    obtain ⟨href, hstep⟩ := ite_none_left_eq_some.1 hstep
    obtain ⟨t, ht, rfl⟩ := map_eq_some_iff.1 hstep
    have hbooked := h.call hk hok ht
    refine @Inv.put _ _ _ { node with opened := t } h hk (fun _ hzero => absurd hzero href)
      hbooked.block _ hbooked.used (hbooked.limit.trans (max_le h.limit le_rfl))

/-- **The memory of a RAM file system is accounted for** in every run in which only inodes without
a block go and no size wraps. -/
theorem accounted_of_emptied (maxRamSize : ℕ) {actions : List Action}
    (hok : Along act Emptied { maxRamSize } actions)
    (hrun : exec act { maxRamSize } actions = some s) : s.Accounted :=
  (exec_induct (I := Inv) (fun _ _ _ h hok hstep => h.act hok hstep)
    ⟨⟨rfl, Nat.zero_le _⟩, by simp⟩ hok hrun).toAccounted

def written : List Action :=
  [.create fun _ => {}, .count 0 .acquire, .call 0 0 (.write none [1] fun _ => 0)]

theorem accounted_of_emptied_written :
    ∃ s, exec act { maxRamSize := 8192 } written = some s ∧ s.Accounted :=
  ⟨_, rfl, @accounted_of_emptied _ 8192 written
    ⟨trivial, fun _ _ _ h => absurd h (Nat.succ_ne_zero _), fun _ h => by cases h; decide,
      trivial⟩ rfl⟩

/-- **The block of a file that is deleted** stays in the counter. -/
theorem not_accounted_deleted : ∃ s,
    exec act { maxRamSize := 8192 } (written ++ [.count 0 (.release false), .count 0 .unlink]) =
        some s ∧
      s.nodes = [] ∧ s.currentRamUsed = 4096 ∧ ¬ s.Accounted :=
  ⟨_, rfl, rfl, by decide, fun h => absurd h.used (by decide)⟩

end SuperBlock

end Naos.Ramfs
