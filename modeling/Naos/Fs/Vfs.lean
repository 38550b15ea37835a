import Naos.Fs.Path
import Naos.Lib.Transition

/-!
# The virtual file system

Entries (`dentry`), inodes and open files are objects on the heap, and the operations follow
pointers between them.  An entry names an inode, points to its parent and has a list of its
children.  An inode counts the entries that name it and the files that are open on it, and is
given back when both counts are zero.  What has been given back is `none`, and using it is a
`Fault`.

The model is that of one `ramfs`: a pseudo file (`pseudo_data`), times, owners, permissions and
mount points are left out.
-/

namespace Naos.Fs

open Function

structure Dentry where
  /-- `none` is a string without its end. -/
  name : Option Name
  node : Option ℕ := none
  parent : Option ℕ := none
  children : List ℕ := []
  deriving DecidableEq, Repr

structure Inode where
  type : InodeType
  linkCount : ℕ := 1
  refCount : ℕ := 0
  /-- The bytes at `start_ptr`. -/
  data : Option (List Char) := none
  deriving DecidableEq, Repr

/-- `symbolink`: the bytes up to their end. -/
def Inode.target (node : Inode) : Option Name := node.data.map (List.takeWhile (· ≠ '\x00'))

structure File where
  entry : ℕ
  unlinkOnClose : Bool := false
  deriving DecidableEq, Repr

/-- The heap, and `current_ram_used` and `max_ram_size` of the super block. -/
@[ext] structure Vfs where
  dentries : ℕ → Option Dentry
  inodes : ℕ → Option Inode
  files : ℕ → Option File := fun _ => none
  nextDentry : ℕ
  nextInode : ℕ
  nextFile : ℕ := 0
  ramUsed : ℕ := 0
  maxRam : ℕ

def globalRoot : ℕ := 0

def Vfs.load (maxRam : ℕ) : Vfs where
  dentries d := if d = globalRoot then some { name := some ['/'], node := some 0 } else none
  inodes i := if i = 0 then some { type := .directory } else none
  nextDentry := 1
  nextInode := 1
  maxRam := maxRam

namespace Vfs

/-! ## Reading -/

def dentry (s : Vfs) (d : ℕ) : Except Fault Dentry := (s.dentries d).elim (.error .freed) .ok

def inode (s : Vfs) (i : ℕ) : Except Fault Inode := (s.inodes i).elim (.error .freed) .ok

/-- `get_inode`, where the pointer is followed. -/
def getInode (s : Vfs) (d : ℕ) : Except Fault (ℕ × Inode) := do
  let entry ← s.dentry d
  let i ← entry.node.elim (.error .null) .ok
  let node ← s.inode i
  .ok (i, node)

/-- The loop of `find_child`. -/
def findIn (s : Vfs) (name : Name) : List ℕ → Except Fault (Option ℕ)
  | [] => .ok none
  | c :: rest => do
    let entry ← s.dentry c
    let own ← entry.name.elim (.error .unterminated) .ok
    if name = own then .ok (some c) else s.findIn name rest

def findChild (s : Vfs) (d : ℕ) (name : Name) : Except Fault (Option ℕ) := do
  let entry ← s.dentry d
  s.findIn name entry.children

/-- The answers for `path_walk`. -/
def view (s : Vfs) : View ℕ where
  findChild := s.findChild
  parent d := s.dentry d >>= fun entry => .ok entry.parent
  type d := s.getInode d >>= fun x => .ok x.2.type
  linkCount d := s.getInode d >>= fun x => .ok x.2.linkCount
  symbolink d := s.getInode d >>= fun x => .ok x.2.target

/-- `path_walk` in the file system. -/
def walk (s : Vfs) (root curDir : ℕ) (path : Name) (flags : WalkFlags)
    (idata : Idata ℕ) : Except Fault (Walked ℕ) :=
  pathWalk s.view root curDir path flags idata

end Vfs

/-! ## The name that is left -/

def directoryMaximumEntrySize : ℕ := 512

def restFileName (point : Name) : Option Name :=
  let name := point.dropWhile (· = '/')
  if name = [] ∨ '/' ∈ name ∨ directoryMaximumEntrySize ≤ name.length then none else some name

/-- `rest_dir_name`: the name, and whether the length that is returned counts the end of the
string.  It does not when slashes follow. -/
def restDirName (point : Name) : Option (Name × Bool) :=
  let name := (point.dropWhile (· = '/')).takeWhile (· ≠ '/')
  let rest := (point.dropWhile (· = '/')).dropWhile (· ≠ '/')
  if name = [] ∨ directoryMaximumEntrySize ≤ name.length ∨ rest.any (· ≠ '/') then none
  else some (name, rest.isEmpty)

structure CreateFlags where
  directory : Bool := false
  file : Bool := false
  chr : Bool := false
  block : Bool := false
  pipe : Bool := false
  socket : Bool := false
  deriving DecidableEq, Repr

/-- The kind of entry that `create` makes, by the first flag that is set. -/
def CreateFlags.type (flags : CreateFlags) : Option InodeType :=
  if flags.directory then some .directory
  else if flags.file then some .file
  else if flags.chr then some .chr
  else if flags.block then some .block
  else if flags.pipe then some .pipe
  else if flags.socket then some .socket
  else none

namespace Vfs

/-! ## Writing -/

variable (s : Vfs)

def setDentry (d : ℕ) (f : Dentry → Dentry) : Vfs :=
  { s with dentries := update s.dentries d ((s.dentries d).map f) }

def setInode (i : ℕ) (f : Inode → Inode) : Vfs :=
  { s with inodes := update s.inodes i ((s.inodes i).map f) }

def addChild (d c : ℕ) : Vfs :=
  s.setDentry d fun e => { e with children := e.children ++ [c] }

def removeChild (d c : ℕ) : Vfs :=
  s.setDentry d fun e => { e with children := e.children.erase c }

/-- `dealloc_inode` and `dealloc_dentry` -/
def dealloc (i d : ℕ) : Vfs :=
  { s with
    inodes := update s.inodes i none
    dentries := update s.dentries d none }

/-- `create_dentry`: the new entry has no inode yet. -/
def createDentry (parent : ℕ) (name : Name) : Except Fault (ℕ × Vfs) := do
  let _ ← s.getInode parent
  let d := s.nextDentry
  let entry : Dentry := { name := some name, parent := some parent }
  .ok (d, { s with
    dentries := update s.dentries d (some entry)
    nextDentry := d + 1 }.addChild parent d)

/-- `alloc_inode`, for an entry. -/
def allocInode (d : ℕ) (node : Inode) : Vfs :=
  { s with
    inodes := update s.inodes s.nextInode (some node)
    nextInode := s.nextInode + 1 }.setDentry d fun e => { e with node := some s.nextInode }

/-- `mkdir`, `create_file` and `create_pseudo` of an entry. -/
def newEntry (parent : ℕ) (name : Name) (type : InodeType) : Except Fault (ℕ × Vfs) := do
  let (d, s) ← s.createDentry parent name
  .ok (d, s.allocInode d { type := type })

/-- `last_available_entry`, where the pointer is followed. -/
def available (idata : Idata ℕ) : Except Fault ℕ :=
  idata.lastAvailableEntry.elim (.error .null) .ok

def create (path : Name) (root curDir : ℕ) (flags : CreateFlags) : Except Fault (Bool × Vfs) := do
  let (entry, idata) ← s.walk root curDir path {} {}
  if entry.isSome then .ok (false, s)
  else
    let flags : CreateFlags :=
      if flags = {} then { file := true, directory := idata.lastScanUrlPoint.contains '/' }
      else flags
    match restFileName idata.lastScanUrlPoint, flags.type with
    | some name, some type => do
      let parent ← available idata
      let (_, s) ← s.newEntry parent name type
      .ok (true, s)
    | _, _ => .ok (false, s)

def mkdir (dir : Name) (root curDir : ℕ) (attr : WalkFlags) (idata : Idata ℕ) :
    Except Fault (Bool × Vfs) := do
  let (entry, idata) ← s.walk root curDir dir { attr with file := false, directory := true } idata
  if entry.isSome then .ok (false, s)
  else
    match restDirName idata.lastScanUrlPoint with
    | none => .ok (false, s)
    | some (name, _) => do
      let parent ← available idata
      let (_, s) ← s.newEntry parent name .directory
      .ok (true, s)

def link (src target : Name) (root curDir : ℕ) : Except Fault (Bool × Vfs) := do
  let (entryTarget, _) ← s.walk root curDir target {} {}
  match entryTarget with
  | none => .ok (false, s)
  | some entryTarget => do
    let (entry, idata) ← s.walk root curDir src { file := true } {}
    if entry.isSome then .ok (false, s)
    else
      match restFileName idata.lastScanUrlPoint with
      | none => .ok (false, s)
      | some name => do
        let parent ← available idata
        let (d, s) ← s.createDentry parent name
        let (i, _) ← s.getInode entryTarget
        .ok (true, (s.setDentry d fun e => { e with node := some i }).setInode i
          fun n => { n with linkCount := n.linkCount + 1 })

def detach (d : ℕ) : Except Fault Vfs := do
  let entry ← s.dentry d
  match entry.parent with
  | none => .ok s
  | some p => do
    let _ ← s.dentry p
    .ok ((s.removeChild p d).setDentry d fun e => { e with parent := none })

/-- `unlink` of an entry. -/
def unlinkEntry (d : ℕ) : Except Fault (Bool × Vfs) := do
  let entry ← s.dentry d
  match entry.node with
  | none => .ok (false, s)
  | some i => do
    let node ← s.inode i
    let count := node.linkCount - 1
    let s := s.setInode i fun n => { n with linkCount := count }
    if count = 0 then do
      let s ← s.detach d
      .ok (true, if node.refCount = 0 then s.dealloc i d else s)
    else .ok (true, s)

def unlink (path : Name) (root curDir : ℕ) : Except Fault (Bool × Vfs) := do
  let (entry, _) ← s.walk root curDir path { notResolveSymbolicLink := true } {}
  match entry with
  | none => .ok (false, s)
  | some d => s.unlinkEntry d

/-- `memory::page_size`, to which `iwrite` rounds. -/
def ramSize (size : ℕ) : ℕ := (size + 4095) / 4096 * 4096

/-- `create_symbolink`: the target is written, if the super block has room for it. -/
def createSymbolink (d : ℕ) (target : Name) : Except Fault Vfs := do
  let (i, _) ← s.getInode d
  let ram := ramSize (target.length + 1)
  if s.ramUsed + ram < s.maxRam then
    .ok ({ s with ramUsed := s.ramUsed + ram }.setInode i
      fun _ => { type := .symbolink, data := some (target ++ ['\x00']) })
  else .ok (s.setInode i fun n => { type := .symbolink, data := n.data })

def symbolink (src target : Name) (root current : ℕ) : Except Fault (Bool × Vfs) := do
  let (entry, idata) ← s.walk root current src {} {}
  if entry.isSome then .ok (false, s)
  else
    match restFileName idata.lastScanUrlPoint with
    | none => .ok (false, s)
    | some name => do
      let parent ← available idata
      let (d, s) ← s.newEntry parent name .file
      let s ← s.createSymbolink d target
      .ok (true, s)

/-- `rmdir` of an entry. -/
def rmdirEntry (d : ℕ) : Except Fault Vfs := do
  let (i, node) ← s.getInode d
  if node.linkCount = 0 then .ok s
  else do
    let s ← s.detach d
    let s := s.setInode i fun n => { n with linkCount := n.linkCount - 1 }
    .ok (if node.refCount = 0 then s.dealloc i d else s)

def rmdir (dir : Name) (root curDir : ℕ) : Except Fault (Bool × Vfs) := do
  let (entry, _) ← s.walk root curDir dir { directory := true } {}
  match entry with
  | none => .ok (false, s)
  | some d => do
    let s ← s.rmdirEntry d
    .ok (true, s)

/-- `rename` of an entry: the new name, copied without its end when slashes follow it, and the
new parent. -/
def moveEntry (old parent : ℕ) (name : Name) (ended : Bool) : Except Fault Vfs := do
  let entry ← s.dentry old
  let p ← entry.parent.elim (.error .null) .ok
  let _ ← s.dentry p
  let _ ← s.dentry parent
  let name := if ended then some name else none
  .ok (((s.removeChild p old).setDentry old
    fun e => { e with name := name, parent := some parent }).addChild parent old)

def rename (newDir oldDir : Name) (root curDir : ℕ) : Except Fault (Bool × Vfs) := do
  let (old, _) ← s.walk root curDir oldDir {} {}
  match old with
  | none => .ok (false, s)
  | some old => do
    let (entry, idata) ← s.walk root curDir newDir {} {}
    let (_, node) ← s.getInode old
    let name :=
      if node.type ≠ .directory then (restFileName idata.lastScanUrlPoint).map (·, true)
      else restDirName idata.lastScanUrlPoint
    match entry, name with
    | none, some (name, ended) => do
      let parent ← available idata
      let s ← s.moveEntry old parent name ended
      .ok (true, s)
    | _, _ => .ok (false, s)

/-- `open` of a file on an entry. -/
def openEntry (d : ℕ) (unlinkOnClose : Bool) : Except Fault (Bool × Vfs) := do
  let (i, _) ← s.getInode d
  let s := s.setInode i fun n => { n with refCount := n.refCount + 1 }
  .ok (true, { s with
    files := update s.files s.nextFile (some ⟨d, unlinkOnClose⟩)
    nextFile := s.nextFile + 1 })

/-- `open` -/
def openFile (path : Name) (root curDir : ℕ) (unlinkOnClose : Bool) (attr : WalkFlags)
    (idata : Idata ℕ) : Except Fault (Bool × Vfs) := do
  let (entry, idata) ← s.walk root curDir path attr idata
  match entry with
  | some d => s.openEntry d unlinkOnClose
  | none =>
    if attr.autoCreateFile then
      match restFileName idata.lastScanUrlPoint with
      | none => .ok (false, s)
      | some name => do
        let parent ← available idata
        let (d, s) ← s.newEntry parent name (if attr.directory then .directory else .file)
        s.openEntry d unlinkOnClose
    else .ok (false, s)

/-- `~file`: the last file of an entry without a name gives it back. -/
def closeFile (f : ℕ) : Except Fault (Bool × Vfs) := do
  match s.files f with
  | none => .ok (false, s)
  | some file => do
    let (i, node) ← s.getInode file.entry
    let s := { s with files := update s.files f none }.setInode i
      fun n => { n with refCount := n.refCount - 1 }
    if file.unlinkOnClose ∨ node.linkCount = 0 then s.unlinkEntry file.entry
    else .ok (true, s)

end Vfs

/-- An operation, with the root and the current directory of its caller. -/
inductive Action where
  | create (path : Name) (root curDir : ℕ) (flags : CreateFlags)
  | mkdir (dir : Name) (root curDir : ℕ) (attr : WalkFlags) (idata : Idata ℕ)
  | link (src target : Name) (root curDir : ℕ)
  | symbolink (src target : Name) (root curDir : ℕ)
  | rename (newDir oldDir : Name) (root curDir : ℕ)
  | unlink (path : Name) (root curDir : ℕ)
  | rmdir (dir : Name) (root curDir : ℕ)
  | openFile (path : Name) (root curDir : ℕ) (unlinkOnClose : Bool) (attr : WalkFlags)
      (idata : Idata ℕ)
  | closeFile (f : ℕ)
  deriving DecidableEq, Repr

namespace Vfs

def act (s : Vfs) : Action → Except Fault (Bool × Vfs)
  | .create path root curDir flags => s.create path root curDir flags
  | .mkdir dir root curDir attr idata => s.mkdir dir root curDir attr idata
  | .link src target root curDir => s.link src target root curDir
  | .symbolink src target root curDir => s.symbolink src target root curDir
  | .rename newDir oldDir root curDir => s.rename newDir oldDir root curDir
  | .unlink path root curDir => s.unlink path root curDir
  | .rmdir dir root curDir => s.rmdir dir root curDir
  | .openFile path root curDir unlinkOnClose attr idata =>
    s.openFile path root curDir unlinkOnClose attr idata
  | .closeFile f => s.closeFile f

def step (s : Vfs) (a : Action) : Option Vfs := (s.act a).toOption.map Prod.snd

end Vfs

end Naos.Fs
