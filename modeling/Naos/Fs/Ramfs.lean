import Naos.Lib.Transition
import Mathlib

/-!
# Files of the RAM file system

A file is a byte array to its users.  `iwrite` keeps the bytes in one block, which it
replaces by a larger one when a write does not fit; the new block gets what was before the
write.  It adds the length of every write to the size of the file, so the size is that of
the array only when each write starts at the end of the file.  `set_size` changes nothing
but the size.
-/

namespace Naos.Ramfs

open Function Transition List Option

def u64 (x : Int) : ℕ := (x % 2 ^ 64).toNat

def i64 (x : Int) : Int := x.bmod (2 ^ 64)

/-- `ramfs::inode`, with the bytes `start_ptr` points to, and the counters of its
`super_block`. -/
structure Inode where
  start : Option (ℕ → UInt8) := none
  ramSize : ℕ := 0
  fileSize : ℕ := 0
  currentRamUsed : ℕ := 0
  maxRamSize : ℕ

/-- `memcpy` to a place in a block; `none` where it leaves the block. -/
def memcpy (block : ℕ → UInt8) (ramSize place : ℕ) (source : ℕ → UInt8) (n : ℕ) :
    Option (ℕ → UInt8) :=
  if place + n ≤ ramSize then
    some fun i => if place ≤ i ∧ i < place + n then source (i - place) else block i
  else none

namespace Inode

variable (node : Inode)

/-- The new block of `iwrite`.  What an allocated block holds is not known. -/
def grow (offset ramSize : ℕ) (allocated : ℕ → UInt8) : Option Inode :=
  let used := node.currentRamUsed + ramSize
  let grown := { node with fileSize := offset, ramSize := ramSize }
  match node.start with
  | none => some { grown with start := some allocated, currentRamUsed := u64 used }
  | some old =>
    if node.ramSize < offset then none
    else (memcpy allocated ramSize 0 old offset).map fun block =>
      { grown with start := some block, currentRamUsed := u64 (used - node.ramSize) }

/-- The last lines of `iwrite`. -/
def store (offset : Int) (buffer : List UInt8) : Option (ℕ × Int × Inode) :=
  node.start.bind fun block =>
    (memcpy block node.ramSize (u64 offset) (buffer.getD · 0) buffer.length).map fun block =>
      (buffer.length, i64 (offset + buffer.length),
        { node with start := some block, fileSize := u64 (node.fileSize + buffer.length) })

/-- `iwrite`: the result, the offset after it and the inode. -/
def iwrite (offset : Int) (buffer : List UInt8) (allocated : ℕ → UInt8) :
    Option (ℕ × Int × Inode) :=
  let fileSize := u64 (offset + buffer.length)
  let ramSize := u64 (fileSize + 4095) / 4096 * 4096
  if node.ramSize ≤ fileSize ∨ node.start.isNone then
    if u64 (node.currentRamUsed + ramSize) < node.maxRamSize then
      (node.grow (u64 offset) ramSize allocated).bind fun node => node.store offset buffer
    else some (0, offset, node)
  else node.store offset buffer

/-- `iread`: the bytes and the offset after it. -/
def iread (offset : Int) (maxSize : ℕ) : Option (List UInt8 × Int) :=
  if offset < 0 ∨ node.fileSize ≤ offset ∨ maxSize = 0 then some ([], offset)
  else
    let place := offset.toNat
    let n := min maxSize (node.fileSize - place)
    let n := if node.ramSize < place + n then node.ramSize - place else n
    if n = 0 then some ([], offset)
    else node.start.map fun block =>
      ((range n).map fun i => block (place + i), i64 (offset + n))

end Inode

/-! ## The calls -/

/-- The inode that a file is open on: its size and the virtual functions `iread` and `iwrite`. -/
structure Store (σ : Type) where
  size : σ → ℕ
  setSize : σ → ℕ → σ
  iread : σ → Int → ℕ → Option (List UInt8 × Int)
  iwrite : σ → Int → List UInt8 → (ℕ → UInt8) → Option (ℕ × Int × σ)

def ramfs : Store Inode where
  size := Inode.fileSize
  setSize node size := { node with fileSize := size }
  iread := Inode.iread
  iwrite := Inode.iwrite

def resize (bytes : List UInt8) (n : ℕ) : List UInt8 :=
  bytes.take n ++ replicate (n - bytes.length) 0

/-- **A growable byte array.**  A write may fail. -/
def growable (fails : Bool) : Store (List UInt8) where
  size := length
  setSize := resize
  iread bytes offset maxSize :=
    let read := if offset < 0 then [] else (bytes.drop offset.toNat).take maxSize
    some (read, offset + read.length)
  iwrite bytes offset buffer _ :=
    let place := offset.toNat
    if fails ∨ offset < 0 then some (0, offset, bytes)
    else some (buffer.length, offset + buffer.length,
      resize bytes place ++ buffer ++ bytes.drop (place + buffer.length))

/-- `fs::vfs::file`, with the flags of its mode. -/
structure File where
  offset : Int := 0
  read : Bool := true
  write : Bool := true
  append : Bool := false

inductive Result where
  | badFile
  | invalid
  | bytes (bytes : List UInt8)
  | count (n : ℕ)
  | flag (ok : Bool)
  | moved

inductive Call where
  /-- `read`, or `pread` at a place. -/
  | read (place : Option Int) (maxSize : ℕ)
  /-- `write` or `pwrite`, with the bytes of the block that the call may allocate. -/
  | write (place : Option Int) (buffer : List UInt8) (allocated : ℕ → UInt8)
  | seek (offset : Int)
  | move (place : Int)
  | truncate (length : ℕ)
  | allocate (offset length : ℕ)

/-- An inode, the files that are open on it, and what their calls returned. -/
structure Opened (σ : Type) where
  inode : σ
  files : ℕ → File
  results : List Result := []

variable {σ τ : Type}

/-- The end of a call on the file `i`. -/
def Opened.finish (s : Opened σ) (i : ℕ) (file : File) (inode : σ) (r : Result) : Opened σ :=
  ⟨inode, update s.files i file, r :: s.results⟩

/-- A call on the file `i`; `none` where it accesses memory outside a block. -/
def step (S : Store σ) (s : Opened σ) : ℕ × Call → Option (Opened σ)
  | (i, call) =>
    let file := s.files i
    match call with
    | .read place maxSize =>
      if file.read = false then some (s.finish i file s.inode .badFile)
      else if place.any (· < 0) then some (s.finish i file s.inode .invalid)
      else (S.iread s.inode (place.getD file.offset) maxSize).map fun (bytes, offset) =>
        s.finish i (if place.isSome then file else { file with offset }) s.inode (.bytes bytes)
    | .write place buffer allocated =>
      if file.write = false then some (s.finish i file s.inode .badFile)
      else if place.any (· < 0) then some (s.finish i file s.inode .invalid)
      else if buffer = [] then some (s.finish i file s.inode (.count 0))
      else
        let offset := place.getD (if file.append then i64 (S.size s.inode) else file.offset)
        (S.iwrite s.inode offset buffer allocated).map fun (n, offset, inode) =>
          s.finish i (if place.isSome then file else { file with offset }) inode (.count n)
    | .seek offset =>
      some (s.finish i { file with offset := i64 (file.offset + offset) } s.inode .moved)
    | .move place => some (s.finish i { file with offset := place } s.inode .moved)
    | .truncate length =>
      if file.write = false then some (s.finish i file s.inode (.flag false))
      else some (s.finish i { file with offset := min file.offset (i64 length) }
        (S.setSize s.inode length) (.flag true))
    | .allocate offset length =>
      if 2 ^ 64 - 1 - length < offset ∨ file.write = false then
        some (s.finish i file s.inode (.flag false))
      else
        let size := max (S.size s.inode) (offset + length)
        some (s.finish i file (S.setSize s.inode size) (.flag true))

def Inode.bytes (node : Inode) : List UInt8 :=
  (range node.fileSize).map fun i => node.start.elim 0 (· i)

def Opened.map (f : σ → τ) (s : Opened σ) : Opened τ := ⟨f s.inode, s.files, s.results⟩

def arrayStep (s : Opened (List UInt8)) (a : Bool × ℕ × Call) : Option (Opened (List UInt8)) :=
  step (growable a.1) s a.2

/-- **The file behaves as a byte array** under a sequence of calls, some of whose writes fail. -/
def Behaves (s : Opened Inode) (calls : List (ℕ × Call)) : Prop :=
  ∃ (t : Opened Inode) (fails : List Bool), exec (step ramfs) s calls = some t ∧
    fails.length = calls.length ∧
      exec arrayStep (s.map Inode.bytes) (fails.zip calls) = some (t.map Inode.bytes)

/-- Every write starts at the end of the file, which only a write makes longer. -/
def Plain (s : Opened Inode) : ℕ × Call → Prop
  | (i, .write place buffer _) =>
    place.getD (if (s.files i).append then s.inode.fileSize else (s.files i).offset) =
        s.inode.fileSize ∧
      s.inode.fileSize + buffer.length + 4096 < 2 ^ 63
  | (_, .truncate length) => length ≤ s.inode.fileSize
  | (_, .allocate offset length) => offset + length ≤ s.inode.fileSize
  | _ => True

structure Inode.Sound (node : Inode) : Prop where
  fits : node.fileSize ≤ node.ramSize
  block : node.start = none → node.ramSize = 0
  small : node.fileSize < 2 ^ 63

variable {node : Inode} {s : Opened Inode} {n : ℕ}

lemma u64_natCast (h : n < 2 ^ 64) : u64 n = n := by
  rw [u64]
  omega

lemma i64_natCast (h : n < 2 ^ 63) : i64 n = n := by
  rw [i64, Int.bmod]
  omega

namespace Inode

@[simp] lemma length_bytes : node.bytes.length = node.fileSize := by simp [bytes]

lemma bytes_take (h : n ≤ node.fileSize) :
    { node with fileSize := n }.bytes = node.bytes.take n := by
  simp [bytes, ← map_take, take_range, Nat.min_eq_left h]

namespace Sound

variable (h : node.Sound)
include h

lemma iread_eq (offset : Int) (maxSize : ℕ) :
    let bytes := if offset < 0 then [] else (node.bytes.drop offset.toNat).take maxSize
    node.iread offset maxSize = some (bytes, offset + bytes.length) := by
  obtain ⟨hfits, hblock, hsmall⟩ := h
  simp only [iread]
  split_ifs with hout hneg hneg hlim hnone
  · simp
  · have hempty : (node.bytes.drop offset.toNat).take maxSize = [] := by
      simp only [take_eq_nil_iff, drop_eq_nil_iff, length_bytes]
      omega
    simp [hempty]
  all_goals try omega
  cases hs : node.start with
  | none => have := hblock hs; omega
  | some block =>
    have hbytes : (node.bytes.drop offset.toNat).take maxSize =
        (range (min maxSize (node.fileSize - offset.toNat))).map
          fun i => block (offset.toNat + i) := by
      apply ext_getElem <;> simp [bytes, hs]
    have hoffset : offset + (min maxSize (node.fileSize - offset.toNat) : ℕ) =
        ((offset.toNat + min maxSize (node.fileSize - offset.toNat) : ℕ) : Int) := by omega
    rw [hbytes, length_map, length_range, hoffset, i64_natCast (by omega)]
    rfl

lemma grow_spec {ramSize : ℕ} (hroom : node.fileSize ≤ ramSize) (allocated : ℕ → UInt8) :
    ∃ t, node.grow node.fileSize ramSize allocated = some t ∧ t.fileSize = node.fileSize ∧
      t.ramSize = ramSize ∧ t.start.isSome ∧ t.bytes = node.bytes := by
  obtain ⟨hfits, hblock, -⟩ := h
  cases hs : node.start with simp only [grow, hs]
  | none =>
    have hempty : node.fileSize = 0 := by have := hblock hs; omega
    exact ⟨_, rfl, rfl, rfl, rfl, by simp [bytes, hempty]⟩
  | some block =>
    rw [if_neg (by omega), memcpy, if_pos (by omega)]
    refine ⟨_, rfl, rfl, rfl, rfl, ?_⟩
    simp only [bytes, hs, elim_some]
    refine map_congr_left fun i hi => ?_
    simp [mem_range.1 hi]

end Sound

lemma store_spec (node : Inode) (buffer : List UInt8) (hstart : node.start.isSome)
    (hroom : node.fileSize + buffer.length ≤ node.ramSize)
    (hsmall : node.fileSize + buffer.length < 2 ^ 63) :
    ∃ t, node.store node.fileSize buffer =
        some (buffer.length, (node.fileSize : Int) + buffer.length, t) ∧ t.Sound ∧
      t.bytes = node.bytes ++ buffer := by
  obtain ⟨block, hs⟩ := isSome_iff_exists.1 hstart
  simp only [store, hs, bind_some, memcpy, ← Int.natCast_add, i64_natCast hsmall,
    if_pos hroom, u64_natCast (show node.fileSize < 2 ^ 64 by omega),
    u64_natCast (hsmall.trans (by decide))]
  refine ⟨_, rfl, ⟨hroom, nofun, hsmall⟩, ?_⟩
  simp only [bytes, elim_some, hs, range_add, map_append, List.map_map]
  congr 1
  · refine map_congr_left fun i hi => ?_
    have := mem_range.1 hi
    rw [if_neg (by omega)]
  · apply ext_getElem <;> simp +contextual

/-- **A write at the end** fails, or adds its bytes to those of the file. -/
theorem Sound.iwrite_spec (h : node.Sound) (buffer : List UInt8) (allocated : ℕ → UInt8)
    (hsmall : node.fileSize + buffer.length + 4096 < 2 ^ 63) :
    node.iwrite node.fileSize buffer allocated = some (0, (node.fileSize : Int), node) ∨
    ∃ t, node.iwrite node.fileSize buffer allocated =
        some (buffer.length, (node.fileSize : Int) + buffer.length, t) ∧ t.Sound ∧
      t.bytes = node.bytes ++ buffer := by
  have hsize : u64 (node.fileSize + buffer.length) = node.fileSize + buffer.length := by
    rw [u64]
    omega
  have hpage : u64 ((node.fileSize + buffer.length : ℕ) + 4095) =
      node.fileSize + buffer.length + 4095 := by
    rw [u64]
    omega
  simp only [iwrite, hsize, hpage, u64_natCast (show node.fileSize < 2 ^ 64 by omega)]
  split_ifs with hgrow hlimit
  · obtain ⟨t, ht, hsize, hram, hstart, hbytes⟩ := h.grow_spec
      (show node.fileSize ≤ (node.fileSize + buffer.length + 4095) / 4096 * 4096 by omega) allocated
    obtain ⟨u, hu, hsound, happend⟩ := t.store_spec buffer hstart (by omega) (by omega)
    rw [hsize] at hu
    exact .inr ⟨u, by rw [ht, bind_some, hu], hsound, hbytes ▸ happend⟩
  · exact .inl rfl
  · rw [not_or, isNone_iff_eq_none] at hgrow
    have hstart := isSome_iff_ne_none.2 hgrow.2
    exact .inr (node.store_spec buffer hstart (by omega) (by omega))

end Inode

/-- **One call under `Plain`** is one on the byte array. -/
theorem step_growable {a : ℕ × Call} (h : s.inode.Sound) (hok : Plain s a) :
    ∃ t, step ramfs s a = some t ∧ t.inode.Sound ∧
      ∃ fails, step (growable fails) (s.map Inode.bytes) a = some (t.map Inode.bytes) := by
  obtain ⟨i, call⟩ := a
  cases call with simp only [step, ramfs, growable, Opened.map, Inode.length_bytes]
  | read place maxSize =>
    by_cases hread : (s.files i).read = false <;>
      by_cases hneg : place.any (· < 0) = true <;>
        simp only [hread, hneg, ↓reduceIte, h.iread_eq] <;> exact ⟨_, rfl, h, false, rfl⟩
  | write place buffer allocated =>
    obtain ⟨hend, hsmall⟩ := hok
    by_cases hwrite : (s.files i).write = false
    · exact ⟨_, if_pos hwrite, h, false, if_pos hwrite⟩
    by_cases hneg : place.any (· < 0) = true
    · simp only [hwrite, hneg, ↓reduceIte]
      exact ⟨_, rfl, h, false, rfl⟩
    by_cases hbuffer : buffer = []
    · simp only [hwrite, hneg, hbuffer, ↓reduceIte]
      exact ⟨_, rfl, h, false, rfl⟩
    simp only [hwrite, hneg, hbuffer, ↓reduceIte, i64_natCast h.small, hend]
    rcases h.iwrite_spec buffer allocated hsmall with hfail | ⟨t, ht, hsound, hbytes⟩
    · rw [hfail]
      exact ⟨_, rfl, h, true, rfl⟩
    · rw [ht]
      have hplace : ¬ (s.inode.fileSize : Int) < 0 := by omega
      refine ⟨_, rfl, hsound, false, ?_⟩
      simp [hplace, Opened.finish, hbytes, resize, take_of_length_le, drop_eq_nil_of_le]
  | seek offset | move place => exact ⟨_, rfl, h, false, rfl⟩
  | truncate length =>
    have hle : length ≤ s.inode.fileSize := hok
    by_cases hwrite : (s.files i).write = false <;> simp only [hwrite, ↓reduceIte]
    · exact ⟨_, rfl, h, false, rfl⟩
    · refine ⟨_, rfl, ⟨hle.trans h.fits, h.block, Nat.lt_of_le_of_lt hle h.small⟩, false, ?_⟩
      simp [Opened.finish, resize, Inode.bytes_take hle, Nat.sub_eq_zero_of_le hle]
  | allocate offset length =>
    have hle : offset + length ≤ s.inode.fileSize := hok
    rw [Nat.max_eq_left hle]
    by_cases hrefused : 2 ^ 64 - 1 - length < offset ∨ (s.files i).write = false
    · exact ⟨_, if_pos hrefused, h, false, if_pos hrefused⟩
    · refine ⟨_, if_neg hrefused, h, false, (if_neg hrefused).trans ?_⟩
      simp [Opened.finish, resize, take_of_length_le]

lemma behaves_of_sound {calls : List (ℕ × Call)} (h : s.inode.Sound)
    (hok : Along (step ramfs) Plain s calls) : Behaves s calls := by
  induction calls generalizing s with
  | nil => exact ⟨s, [], rfl, rfl, rfl⟩
  | cons a calls ih =>
    obtain ⟨u, hu, hsound, fail, hfail⟩ := step_growable h hok.1
    obtain ⟨t, fails, ht, hlen, hfails⟩ := ih hsound (by simpa [hu] using hok.2)
    exact ⟨t, fail :: fails, exec_cons_eq_some.2 ⟨u, hu, ht⟩, congrArg (· + 1) hlen,
      exec_cons_eq_some.2 ⟨_, hfail, hfails⟩⟩

/-- **A file behaves as a byte array** in every sequence of calls, through any number of open
files, in which each write starts at the end of the file and nothing but a write makes the
file longer. -/
theorem behaves_of_plain (used max : ℕ) (files : ℕ → File) (calls : List (ℕ × Call))
    (hok : Along (step ramfs) Plain ⟨⟨none, 0, 0, used, max⟩, files, []⟩ calls) :
    Behaves ⟨⟨none, 0, 0, used, max⟩, files, []⟩ calls :=
  behaves_of_sound ⟨Nat.le_refl _, fun _ => rfl, Nat.two_pow_pos 63⟩ hok

def emptyFile : Opened Inode := ⟨{ maxRamSize := 65536 }, fun _ => {}, []⟩

def writtenTwice : List (ℕ × Call) :=
  [(0, .write none [1, 2] fun _ => 7), (0, .write none [3] fun _ => 7), (0, .read (some 0) 8)]

theorem behaves_of_plain_writtenTwice :
    Along (step ramfs) Plain emptyFile writtenTwice ∧ Behaves emptyFile writtenTwice := by
  have hok : Along (step ramfs) Plain emptyFile writtenTwice :=
    ⟨⟨rfl, by decide⟩, ⟨by decide +kernel, by decide +kernel⟩, trivial, trivial⟩
  exact ⟨hok, behaves_of_plain 0 65536 _ _ hok⟩

def overwritten : List (ℕ × Call) :=
  [(0, .write none [1, 2] fun _ => 7), (0, .move 0), (0, .write none [3] fun _ => 7)]

/-- **A write inside the file makes it longer.** -/
theorem not_behaves_overwritten : ¬ Behaves emptyFile overwritten := by
  rintro ⟨t, fails, ht, hlen, hfails⟩
  obtain ⟨a, b, c, rfl⟩ := length_eq_three.1 hlen
  have hsize : (exec (step ramfs) emptyFile overwritten).map (·.inode.fileSize) = some 3 := by
    decide +kernel
  have harray : ∀ a b c : Bool,
      (exec arrayStep (emptyFile.map Inode.bytes) ([a, b, c].zip overwritten)).map
        (·.inode.length) ≠ some 3 := by
    decide +kernel
  rw [ht, map_some, Option.some.injEq] at hsize
  apply harray a b c
  rw [hfails]
  simp [Opened.map, hsize]

end Naos.Ramfs
