import Naos.Capability.Transfer
import Naos.Ipc.Accounting
import Naos.Lib.Transition

/-!
# The service directory

The service directory maps names to services.  A service is an object that was registered,
which `resolve_service` hands out, or a listener, to which `connect_service` sends the server
end of a new protocol.  A service for one client leaves the directory when it is resolved,
and so does a unique object.

The two kinds are kept in two vectors.  `listen_service` refuses a name that stands in either
of them, but `register_service` looks only at the registered objects: it takes a name that a
listener has.

All operations hold `allocation_lock_` from their first look at the vectors to their last, so
each of them is one step.  `register_service` looks for the name twice, before and after it
has taken the object out of the record, and both times it finds the same.

The history has what cannot be read off the vectors: the number of registrations so far,
those that are for one client, and those that were resolved.  The hooks of the objects are
those of `Naos.Ipc.Location`.
-/

namespace Naos.Service

open Capability Naos.Ipc Transition List

/-! ## Names -/

abbrev Uri := List (BitVec 8)

/-- `naos://` -/
def uriScheme : Uri := [0x6E, 0x61, 0x6F, 0x73, 0x3A, 0x2F, 0x2F]

def uriByte (b : BitVec 8) : Bool :=
  let n := b.toNat
  decide (0x61 ≤ n ∧ n ≤ 0x7A) || decide (0x41 ≤ n ∧ n ≤ 0x5A) || decide (0x30 ≤ n ∧ n ≤ 0x39) ||
    b == 0x2D || b == 0x5F || b == 0x2E || b == 0x7E

/-- What `valid_uri` knows about the segment it is in. -/
structure Segment where
  hasValue : Bool := false
  isDot : Bool := true
  size : ℕ := 0

def Segment.closes (s : Segment) : Bool := s.hasValue && !s.isDot && s.size != 2

/-- The loop of `valid_uri`. -/
def scanUri : Segment → Uri → Bool
  | s, [] => s.closes
  | s, b :: rest =>
    if b = 0x2F then s.closes && scanUri {} rest
    else
      uriByte b && scanUri
          { hasValue := true
            isDot := s.isDot && decide (s.size + 1 ≤ 2) && b == 0x2E
            size := s.size + 1 } rest

def validUri (uri : Uri) : Bool :=
  decide (uriScheme.length < uri.length) && decide (uri.length ≤ 255) &&
    uri.take uriScheme.length == uriScheme && scanUri {} (uri.drop uriScheme.length)

/-! ## The directory -/

/-- The error numbers of the operations; no error is zero. -/
inductive Errno where
  | einval
  | enomem
  | eexist
  | enoent
  | eio
  | eacces
  | enotsup
  | eagain
  deriving DecidableEq, Repr

/-- `directory::entry`, with the number of its registration. -/
structure Entry where
  uri : Uri
  object : Option KObject
  metadata : Metadata
  oneShot : Bool
  owner : ℕ
  number : ℕ

/-- `one_shot` in `resolve_service`. -/
def Entry.single (e : Entry) : Bool := e.oneShot || e.object.any KObject.capabilityIsUnique

structure ListenerEntry where
  uri : Uri
  sendEndpoint : Option KObject
  descriptor : Option KObject
  maxPending : ℕ
  owner : ℕ

structure Channels where
  maxMessages : ℕ → ℕ
  /-- The signals of a side have `NA_SIGNAL_PEER_CLOSED`. -/
  peerClosed : ℕ → Side → Bool

/-- The channel end and the descriptor of a listener, if they are that: the channel, the side
and the number of the descriptor. -/
def ListenerEntry.parts (l : ListenerEntry) : Option (ℕ × Side × ℕ) :=
  match l.sendEndpoint, l.descriptor with
  | some (.rawChannelEnd c side), some (.plain .protocolDescriptor i) => some (c, side, i)
  | _, _ => none

/-- `listen_service` and `connect_service` cast the two objects with `handle_t::as`, which does
not look at the type: what they do with other objects is not defined. -/
def ListenerEntry.castable (l : ListenerEntry) : Bool :=
  l.sendEndpoint.isNone || l.descriptor.isNone || l.parts.isSome

def ListenerEntry.alive (channels : Channels) (l : ListenerEntry) : Bool :=
  match l.sendEndpoint with
  | some (.rawChannelEnd c side) => !channels.peerClosed c side
  | _ => false

/-- `connect_service` takes the listener out. -/
def ListenerEntry.stale (channels : Channels) (l : ListenerEntry) : Bool :=
  l.parts.all fun (c, side, _) => channels.peerClosed c side

/-- `directory`, with its history. -/
structure Directory where
  entries : List Entry := []
  listeners : List ListenerEntry := []
  registered : ℕ := 0
  singles : List ℕ := []
  resolved : List ℕ := []

/-- What `register_service` leaves. -/
structure Registration where
  result : Option Errno := none
  record : TransferRecord
  directory : Directory

/-- What `resolve_service` leaves. -/
structure Resolution where
  result : Option Errno := none
  resource : TransferredResource := {}
  directory : Directory

/-- What the first part of `connect_service` leaves. -/
structure Lookup where
  result : Except Errno ListenerEntry
  retired : Option ListenerEntry := none
  directory : Directory

/-- The memory that an operation gets: for the copy of the name, and for the vector. -/
structure Memory where
  uri : Bool := true
  vector : Bool := true

namespace Directory

variable (d : Directory)

def findLocked (uri : Uri) : Option Entry := d.entries.find? (·.uri == uri)

def findListenerLocked (uri : Uri) : Option ListenerEntry := d.listeners.find? (·.uri == uri)

/-- The insertion of `register_service`. -/
def insertEntry (uri : Uri) (object : Option KObject) (metadata : Metadata) (oneShot : Bool)
    (owner : ℕ) : Directory :=
  let e : Entry := ⟨uri, object, metadata, oneShot, owner, d.registered⟩
  { d with
    entries := d.entries ++ [e]
    registered := d.registered + 1
    singles := if e.single then d.singles ++ [d.registered] else d.singles }

def registerService (uri : Uri) (record : TransferRecord) (oneShot : Bool) (owner : ℕ)
    (memory : Memory) : Registration :=
  let refuse := fun errno => { result := some errno, record, directory := d : Registration }
  if !validUri uri || !record.moved || record.resource.object.isNone then refuse .einval
  else if !memory.uri || !memory.vector then refuse .enomem
  else if (d.findLocked uri).isSome then refuse .eexist
  else
    match record.resource.object with
    | none => refuse .einval
    | some object =>
      let taken := takeObjectToTable record
      -- the second look, after the object has left the record
      if (d.findLocked uri).isSome then
        { result := some .eexist, record := taken, directory := d }
      else
        { record := taken
          directory := d.insertEntry uri (some object) record.resource.info oneShot owner }

def resolveService (uri : Uri) : Resolution :=
  if !validUri uri then { result := some .einval, directory := d }
  else
    match d.findLocked uri with
    | none => { result := some .enoent, directory := d }
    | some e =>
      match e.object with
      | none => { result := some .eio, directory := d }
      | some o =>
        { resource := ⟨some o, e.metadata, true⟩
          directory :=
            { d with
              entries := if e.single then d.entries.eraseP (·.uri == uri) else d.entries
              resolved := d.resolved ++ [e.number] } }

/-- `listen_service`, for objects that it can cast. -/
def listenService (channels : Channels) (l : ListenerEntry) (memory : Memory) :
    Option Errno × Directory :=
  if !validUri l.uri || l.maxPending == 0 || l.sendEndpoint.isNone || l.descriptor.isNone then
    (some .einval, d)
  else
    match l.parts with
    | none => (some .einval, d)
    | some (c, _, _) =>
      if channels.maxMessages c < l.maxPending then (some .einval, d)
      else if !memory.uri || !memory.vector then (some .enomem, d)
      else if (d.findLocked l.uri).isSome then (some .eexist, d)
      else if (d.findListenerLocked l.uri).any (·.alive channels) then (some .eexist, d)
      else
        (none, { d with listeners := d.listeners.eraseP (·.uri == l.uri) ++ [l] })

/-- The first part of `connect_service`: a listener whose provider is gone is taken out. -/
def lookupListener (channels : Channels) (uri : Uri) : Lookup :=
  if !validUri uri then { result := .error .einval, directory := d }
  else
    match d.findListenerLocked uri with
    | none => { result := .error .enoent, directory := d }
    | some l =>
      if l.stale channels then
        { result := .error .enoent
          retired := some l
          directory := { d with listeners := d.listeners.eraseP (·.uri == uri) } }
      else { result := .ok l, directory := d }

/-- `unregister_service`; the owner zero may take every name away. -/
def unregisterService (uri : Uri) (owner : ℕ) : Option Errno × Directory :=
  if !validUri uri then (some .einval, d)
  else
    match d.findLocked uri with
    | none => (some .enoent, d)
    | some e =>
      if owner ≠ 0 ∧ e.owner ≠ owner then (some .eacces, d)
      else (none, { d with entries := d.entries.eraseP (·.uri == uri) })

/-- A loop of `cleanup_owner`: after a removal the index stays. -/
def sweep {α : Type} (ownerOf : α → ℕ) (owner : ℕ) (values : List α) (i : ℕ) : List α :=
  if h : i < values.length then
    if ownerOf values[i] ≠ owner then sweep ownerOf owner values (i + 1)
    else sweep ownerOf owner (values.eraseIdx i) i
  else values
termination_by values.length - i
decreasing_by
  · omega
  · rw [length_eraseIdx_of_lt h]
    omega

/-- `cleanup_owner`; the owner zero is nobody. -/
def cleanupOwner (owner : ℕ) : Directory :=
  if owner = 0 then d
  else
    { d with
      entries := sweep Entry.owner owner d.entries 0
      listeners := sweep ListenerEntry.owner owner d.listeners 0 }

end Directory

inductive DirectoryAction where
  | register (uri : Uri) (record : TransferRecord) (oneShot : Bool) (owner : ℕ) (memory : Memory)
  | resolve (uri : Uri)
  | listen (channels : Channels) (l : ListenerEntry) (memory : Memory)
  | connect (channels : Channels) (uri : Uri)
  | unregister (uri : Uri) (owner : ℕ)
  | cleanup (owner : ℕ)

namespace Directory

variable (d : Directory)

def step : DirectoryAction → Option Directory
  | .register uri record oneShot owner memory =>
    some (d.registerService uri record oneShot owner memory).directory
  | .resolve uri => some (d.resolveService uri).directory
  | .listen channels l memory =>
    if l.castable then some (d.listenService channels l memory).2 else none
  | .connect channels uri => some (d.lookupListener channels uri).directory
  | .unregister uri owner => some (d.unregisterService uri owner).2
  | .cleanup owner => some (d.cleanupOwner owner)

def names : List Uri := d.entries.map Entry.uri ++ d.listeners.map ListenerEntry.uri

/-- Something belongs to a process.  What has the owner zero belongs to nobody. -/
def ownedBy (owner owned : ℕ) : Bool := owner != 0 && owned == owner

/-- **The directory is sound.** -/
structure Sound : Prop where
  unique : d.names.Nodup
  once : ∀ n ∈ d.singles, d.resolved.count n ≤ 1
  refused : ∀ uri record oneShot owner memory,
    (d.registerService uri record oneShot owner memory).result ≠ none →
      (d.registerService uri record oneShot owner memory).record = record
  /-- The cleanup takes away what belongs to the process, and keeps the order of the rest. -/
  cleanup : ∀ owner,
    (d.cleanupOwner owner).entries = d.entries.filter (fun e => !ownedBy owner e.owner) ∧
      (d.cleanupOwner owner).listeners = d.listeners.filter (fun l => !ownedBy owner l.owner)

def apart : DirectoryAction → Bool
  | .register uri _ _ _ _ => !d.listeners.any (·.uri == uri)
  | _ => true

/-! ## The calls by themselves -/

lemma sweep_eq {α : Type} (ownerOf : α → ℕ) (owner : ℕ) (values : List α) (i : ℕ) :
    sweep ownerOf owner values i =
      values.take i ++ (values.drop i).filter fun x => !(ownerOf x == owner) := by
  fun_induction sweep ownerOf owner values i with
  | case1 values i h hother ih =>
    rw [ih, drop_eq_getElem_cons h, take_succ_eq_append_getElem h,
      filter_cons_of_pos (by simpa using hother), append_assoc]
    rfl
  | case2 values i h howned ih =>
    have hrest : (values.eraseIdx i).drop i = values.drop (i + 1) := by
      rw [eraseIdx_eq_take_drop_succ, drop_append_of_le_length (by simp; omega)]
      simp
    rw [ih, hrest, take_eraseIdx_eq_take_of_le _ _ _ (Nat.le_refl i),
      drop_eq_getElem_cons h, filter_cons_of_neg (by simpa using howned)]
  | case3 values i h =>
    have hend : values.length ≤ i := by omega
    simp [take_of_length_le hend, drop_of_length_le hend]

lemma cleanupOwner_eq (owner : ℕ) :
    (d.cleanupOwner owner).entries = d.entries.filter (fun e => !ownedBy owner e.owner) ∧
      (d.cleanupOwner owner).listeners = d.listeners.filter (fun l => !ownedBy owner l.owner) := by
  rw [cleanupOwner]
  split
  next hzero => simp [hzero, ownedBy]
  next hne =>
    have hzero : (owner != 0) = true := by simpa using hne
    simp [sweep_eq, hzero, ownedBy]

variable {oneShot : Bool} {owner : ℕ} {uri : Uri} {e : Entry} {metadata : Metadata}
  {object : Option KObject}

lemma record_of_refused {record : TransferRecord} {memory : Memory}
    (h : (d.registerService uri record oneShot owner memory).result ≠ none) :
    (d.registerService uri record oneShot owner memory).record = record := by
  revert h
  rw [registerService]
  iterate 4
    split
    · exact fun _ => rfl
  exact fun h => absurd rfl h

/-! ## The vectors -/

lemma not_mem_eraseP {α : Type} (uriOf : α → Uri) (uri : Uri) {values : List α}
    (h : (values.map uriOf).Nodup) : uri ∉ (values.eraseP (uriOf · == uri)).map uriOf := by
  induction values with
  | nil => simp
  | cons x values ih =>
    rw [map_cons, nodup_cons] at h
    by_cases hx : uriOf x = uri
    · rw [eraseP_cons_of_pos (by simpa using hx)]
      exact hx ▸ h.1
    · simpa [hx, Ne.symm hx] using ih h.2

lemma not_mem_of_findLocked (h : ¬(d.findLocked uri).isSome = true) :
    uri ∉ d.entries.map Entry.uri := by
  simp only [findLocked, find?_isSome, beq_iff_eq] at h
  rintro hmem
  obtain ⟨e, he, rfl⟩ := List.mem_map.1 hmem
  exact h ⟨e, he, rfl⟩

structure Kept : Prop where
  entries : (d.entries.map Entry.uri).Nodup
  listeners : (d.listeners.map ListenerEntry.uri).Nodup
  disjoint : ∀ uri ∈ d.entries.map Entry.uri, uri ∉ d.listeners.map ListenerEntry.uri
  numbers : (d.entries.map Entry.number).Nodup
  entry_lt : ∀ e ∈ d.entries, e.number < d.registered
  single_lt : ∀ n ∈ d.singles, n < d.registered
  resolved_lt : ∀ n ∈ d.resolved, n < d.registered
  single_iff : ∀ e ∈ d.entries, (e.number ∈ d.singles ↔ e.single = true)
  waiting : ∀ e ∈ d.entries, e.single = true → e.number ∉ d.resolved
  once : ∀ n ∈ d.singles, d.resolved.count n ≤ 1

variable {d}

lemma Kept.unique (h : d.Kept) : d.names.Nodup := nodup_append.2
    ⟨h.entries, h.listeners, fun uri he _ hl heq => h.disjoint uri he (heq ▸ hl)⟩

lemma Kept.sound (h : d.Kept) : d.Sound where
  unique := h.unique
  once := h.once
  refused := fun _ _ _ _ _ hresult => d.record_of_refused hresult
  cleanup := d.cleanupOwner_eq

lemma Kept.shrink (h : d.Kept) {entries : List Entry} {listeners : List ListenerEntry}
    (he : entries.Sublist d.entries) (hl : listeners.Sublist d.listeners) :
    ({ d with entries, listeners } : Directory).Kept where
  entries := h.entries.sublist (he.map _)
  listeners := h.listeners.sublist (hl.map _)
  disjoint := fun uri hmem hmem' =>
    h.disjoint uri ((he.map _).subset hmem) ((hl.map _).subset hmem')
  numbers := h.numbers.sublist (he.map _)
  entry_lt := fun e hmem => h.entry_lt e (he.subset hmem)
  single_lt := h.single_lt
  resolved_lt := h.resolved_lt
  single_iff := fun e hmem => h.single_iff e (he.subset hmem)
  waiting := fun e hmem => h.waiting e (he.subset hmem)
  once := h.once

lemma Kept.listen (h : d.Kept) (l : ListenerEntry) (hfree : l.uri ∉ d.entries.map Entry.uri) :
    ({ d with listeners := d.listeners.eraseP (·.uri == l.uri) ++ [l] } : Directory).Kept where
  entries := h.entries
  listeners := by
    have hrest := h.listeners.sublist ((eraseP_sublist (p := (·.uri == l.uri))).map _)
    have hnew := not_mem_eraseP ListenerEntry.uri l.uri h.listeners
    rw [map_append, map_singleton]
    exact hrest.append (nodup_singleton _) (by simpa using hnew)
  disjoint := by
    intro uri hentry hmem
    rw [map_append, mem_append] at hmem
    rcases hmem with hold | hnew
    · exact h.disjoint uri hentry ((eraseP_sublist.map _).subset hold)
    · exact hfree (mem_singleton.1 hnew ▸ hentry)
  numbers := h.numbers
  entry_lt := h.entry_lt
  single_lt := h.single_lt
  resolved_lt := h.resolved_lt
  single_iff := h.single_iff
  waiting := h.waiting
  once := h.once

lemma mem_insertEntry (h : e ∈ (d.insertEntry uri object metadata oneShot owner).entries) :
    e ∈ d.entries ∨ e = ⟨uri, object, metadata, oneShot, owner, d.registered⟩ := by
  simpa [insertEntry] using h

lemma mem_singles_insertEntry {n : ℕ} :
    n ∈ (d.insertEntry uri object metadata oneShot owner).singles ↔ n ∈ d.singles ∨
        n = d.registered ∧
          Entry.single ⟨uri, object, metadata, oneShot, owner, d.registered⟩ = true := by
  rw [insertEntry]
  split
  next hsingle => simp [hsingle]
  next hsingle => simp [hsingle]

lemma Kept.insert (h : d.Kept) (object : Option KObject) (metadata : Metadata) (oneShot : Bool)
    (owner : ℕ) (hfree : uri ∉ d.entries.map Entry.uri)
    (hapart : uri ∉ d.listeners.map ListenerEntry.uri) :
    (d.insertEntry uri object metadata oneShot owner).Kept where
  entries := by
    have hnew := h.entries.append (nodup_singleton uri) (by simpa using hfree)
    simpa [insertEntry] using hnew
  listeners := h.listeners
  disjoint := by
    intro u hmem
    obtain ⟨e, he, rfl⟩ := List.mem_map.1 hmem
    rcases mem_insertEntry he with hold | rfl
    · exact h.disjoint _ (List.mem_map.2 ⟨e, hold, rfl⟩)
    · exact hapart
  numbers := by
    have hnew : d.registered ∉ d.entries.map Entry.number := by
      intro hmem
      obtain ⟨e, he, hnumber⟩ := List.mem_map.1 hmem
      exact absurd hnumber (Nat.ne_of_lt (h.entry_lt e he))
    have happend := h.numbers.append (nodup_singleton d.registered) (by simpa using hnew)
    simpa [insertEntry] using happend
  entry_lt := by
    intro e he
    rcases mem_insertEntry he with hold | rfl
    · exact Nat.lt_succ_of_lt (h.entry_lt e hold)
    · exact Nat.lt_succ_self _
  single_lt := by
    intro n hn
    rcases mem_singles_insertEntry.1 hn with hold | hnew
    · exact Nat.lt_succ_of_lt (h.single_lt n hold)
    · exact hnew.1 ▸ Nat.lt_succ_self _
  resolved_lt := fun n hn => Nat.lt_succ_of_lt (h.resolved_lt n hn)
  single_iff := by
    intro e he
    rw [mem_singles_insertEntry]
    rcases mem_insertEntry he with hold | rfl
    · have hne := Nat.ne_of_lt (h.entry_lt e hold)
      simp [h.single_iff e hold, hne]
    · have hnew : d.registered ∉ d.singles := fun hn => Nat.lt_irrefl _ (h.single_lt _ hn)
      simp [hnew]
  waiting := by
    intro e he hsingle
    rcases mem_insertEntry he with hold | rfl
    · exact h.waiting e hold hsingle
    · exact fun hn => Nat.lt_irrefl _ (h.resolved_lt _ hn)
  once := by
    intro n hn
    rcases mem_singles_insertEntry.1 hn with hold | hnew
    · exact h.once n hold
    · have hnone : n ∉ d.resolved := fun hmem => Nat.lt_irrefl _ (hnew.1 ▸ h.resolved_lt n hmem)
      exact (List.count_eq_zero.2 hnone).le.trans (Nat.zero_le 1)

lemma Kept.resolve (h : d.Kept) (he : e ∈ d.entries) : ({ d with
        entries := if e.single then d.entries.eraseP (·.uri == e.uri) else d.entries
        resolved := d.resolved ++ [e.number] } : Directory).Kept := by
  have hsub : (if e.single then d.entries.eraseP (·.uri == e.uri) else d.entries).Sublist
      d.entries := by
    split
    · exact eraseP_sublist
    · exact Sublist.refl _
  have hshrunk := h.shrink hsub (Sublist.refl d.listeners)
  -- the other services for one client have other numbers
  have hother : ∀ x ∈ (if e.single then d.entries.eraseP (·.uri == e.uri) else d.entries),
      x.single = true → x.number ≠ e.number := by
    intro x hx hsingle heq
    have hsame : x = e := inj_on_of_nodup_map h.numbers (hsub.subset hx) he heq
    rw [hsame] at hx hsingle
    rw [if_pos hsingle] at hx
    exact not_mem_eraseP Entry.uri e.uri h.entries (List.mem_map.2 ⟨e, hx, rfl⟩)
  refine
    { entries := hshrunk.entries
      listeners := hshrunk.listeners
      disjoint := hshrunk.disjoint
      numbers := hshrunk.numbers
      entry_lt := hshrunk.entry_lt
      single_lt := h.single_lt
      resolved_lt := ?_
      single_iff := hshrunk.single_iff
      waiting := ?_
      once := ?_ }
  · intro n hn
    rcases mem_append.1 hn with hold | hnew
    · exact h.resolved_lt n hold
    · exact mem_singleton.1 hnew ▸ h.entry_lt e he
  · intro x hx hsingle hn
    rcases mem_append.1 hn with hold | hnew
    · exact h.waiting x (hsub.subset hx) hsingle hold
    · exact hother x hx hsingle (mem_singleton.1 hnew)
  · intro n hn
    by_cases hnumber : e.number = n
    · subst hnumber
      have hnone := h.waiting e he ((h.single_iff e he).1 hn)
      simp [List.count_eq_zero.2 hnone]
    · simpa [count_singleton, hnumber] using h.once n hn

/-! ## Runs -/

lemma Kept.register (h : d.Kept) (hapart : (d.listeners.any (·.uri == uri)) = false)
    (record : TransferRecord) (oneShot : Bool) (owner : ℕ) (memory : Memory) :
    (d.registerService uri record oneShot owner memory).directory.Kept := by
  rw [registerService]
  repeat' split
  any_goals exact h
  next hfree _ object _ =>
    refine h.insert (some object) _ oneShot owner (d.not_mem_of_findLocked hfree) ?_
    simpa using hapart

lemma kept_step {d' : Directory} {a : DirectoryAction} (h : d.Kept) (ha : d.apart a = true)
    (hstep : d.step a = some d') : d'.Kept := by
  cases a with
  | register uri record oneShot owner memory =>
    cases hstep
    exact h.register (by simpa [apart] using ha) record oneShot owner memory
  | resolve uri =>
    cases hstep
    rw [resolveService]
    split
    · exact h
    split
    · exact h
    rename_i e hfind
    split
    · exact h
    have huri : e.uri = uri := by simpa using find?_some hfind
    subst huri
    exact h.resolve (mem_of_find?_eq_some hfind)
  | listen channels l memory =>
    obtain ⟨-, rfl⟩ := Option.ite_some_none_eq_some.1 hstep
    rw [listenService]
    repeat' split
    any_goals exact h
    next hfree _ => exact h.listen l (d.not_mem_of_findLocked hfree)
  | connect channels uri =>
    cases hstep
    have hgone := h.shrink (Sublist.refl d.entries)
      (eraseP_sublist (l := d.listeners) (p := (·.uri == uri)))
    rw [lookupListener]
    repeat' split
    any_goals exact h
    exact hgone
  | unregister uri owner =>
    cases hstep
    rw [unregisterService]
    iterate 3
      split
      · exact h
    exact h.shrink eraseP_sublist (Sublist.refl _)
  | cleanup owner =>
    cases hstep
    have hclean := d.cleanupOwner_eq owner
    have hgone := h.shrink
      (hclean.1 ▸ filter_sublist : (d.cleanupOwner owner).entries.Sublist d.entries)
      (hclean.2 ▸ filter_sublist : (d.cleanupOwner owner).listeners.Sublist d.listeners)
    rw [cleanupOwner] at hgone ⊢
    split
    · exact h
    next hne => simpa [hne] using hgone

lemma kept_empty : ({} : Directory).Kept := by constructor <;> simp

/-- **The directory is sound.**  In every state of every run from the empty directory in which
no name is registered that a listener has, names are unique in both vectors together, every
registration for one client has been resolved at most once, a registration that is refused
leaves the record as it is, and a cleanup takes away just what belongs to the process. -/
theorem directorySound_of_apart {d : Directory} {actions : List DirectoryAction}
    (hok : Along step (fun d a => d.apart a = true) {} actions)
    (hexec : exec step {} actions = some d) : d.Sound :=
  (exec_induct (fun _ _ _ h ha hs => kept_step h ha hs) kept_empty hok hexec).sound

/-- A name: `naos://a`. -/
def sampleUri : Uri := uriScheme ++ [0x61]

def sampleListener : ListenerEntry :=
  ⟨sampleUri, some (.rawChannelEnd 0 0), some (.plain .protocolDescriptor 0), 1, 1⟩

def sampleRecord : TransferRecord :=
  { source := 0, moved := true
    resource := ⟨some (.plain .semaphore 0), {}, true⟩ }

def openChannels : Channels := ⟨fun _ => 4, fun _ _ => false⟩

def resolvedThenListened : List DirectoryAction :=
  [.register sampleUri sampleRecord true 1 {}, .resolve sampleUri, .resolve sampleUri,
    .listen openChannels sampleListener {}, .cleanup 2]

theorem directorySound_resolvedThenListened :
    ∃ d, exec step {} resolvedThenListened = some d ∧ d.Sound := by
  have hok : Along step (fun d a => d.apart a = true) {} resolvedThenListened := by decide
  exact ⟨_, rfl, directorySound_of_apart hok rfl⟩

def listenedThenRegistered : List DirectoryAction :=
  [.listen openChannels sampleListener {}, .register sampleUri sampleRecord false 1 {}]

theorem not_directorySound_claimed : ¬∀ (d : Directory) (actions : List DirectoryAction),
      exec step {} actions = some d → d.Sound := by
  intro h
  have hsound := h _ listenedThenRegistered rfl
  exact absurd hsound.unique (by decide)

end Directory

end Naos.Service
