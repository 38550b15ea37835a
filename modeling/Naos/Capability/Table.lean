import Naos.Lib.Assoc
import Naos.Lib.Counter
import Naos.Capability.Basic

/-!
# The resource table

`resource_table_t` maps the handles of one process to entries.  It hands out
handles in increasing order and never twice, keeps an explicit entry counter
against which the per-process limit is checked, and calls the capability hooks of
the objects it takes in or gives up after it has released its lock.  Each
operation is a function from the table to an `Outcome`: the value returned, the
table after it, and the hooks in the order in which they are called.
-/

namespace Naos.Capability

open List Assoc

structure ResourceTable where
  nativeHandleMap : Assoc.Map Handle Entry := ∅
  nextNativeHandle : ℕ := 1
  nativeEntryCount : ℕ := 0

structure Outcome (α : Type) where
  value : α
  table : ResourceTable
  hooks : List Hook := []

namespace ResourceTable

variable (t : ResourceTable)

def get (h : Handle) : Option Entry := t.nativeHandleMap.lookup h

def put (h : Handle) (e : Entry) : ResourceTable :=
  { t with
    nativeHandleMap := t.nativeHandleMap.insert h e
    nativeEntryCount := t.nativeEntryCount + 1 }

/-- Change an entry in place, through `get_ptr`. -/
def set (h : Handle) (e : Entry) : ResourceTable :=
  { t with nativeHandleMap := t.nativeHandleMap.insert h e }

def drop (h : Handle) : ResourceTable :=
  { t with
    nativeHandleMap := t.nativeHandleMap.erase h
    nativeEntryCount := Counter.sub t.nativeEntryCount 1 }

/-! ## One handle at a time -/

/-- `allocate_native_handle_locked`: zero where the limit or the last handle is reached. -/
def allocateNativeHandleLocked : Handle × ResourceTable :=
  if maxPerProcess ≤ t.nativeEntryCount ∨ t.nextNativeHandle = 0 then (0, t)
  else (t.nextNativeHandle, { t with nextNativeHandle := (t.nextNativeHandle + 1) % 2 ^ 64 })

def installNative (object : Option KObject) (info : Metadata) : Outcome Handle :=
  match object with
  | none => { value := 0, table := t }
  | some o =>
    let (h, t') := t.allocateNativeHandleLocked
    if h = 0 then { value := 0, table := t }
    else
      { value := h
        table := t'.put h { object := some o, generation := h, state := .active, info := info }
        hooks := [.acquire o .tableRoot] }

/-- `lookup_native`: only active entries are visible. -/
def lookupNative (h : Handle) : Option Entry := (t.get h).filter (·.state = .active)

def closeNative (h : Handle) : Outcome Status :=
  if h = 0 then { value := .invalidHandle, table := t }
  else
    match t.lookupNative h with
    | none => { value := .invalidHandle, table := t }
    | some e =>
      { value := .ok
        table := t.drop h
        hooks := e.object.toList.map fun o => .release o .tableRoot }

/-- `duplicate_native`: the status and the new handle. -/
def duplicateNative (source : Handle) (requestedRights : Mask) : Outcome (Status × Handle) :=
  match t.lookupNative source with
  | none => { value := (.invalidHandle, 0), table := t }
  | some e =>
    match e.object with
    | none => { value := (.invalidHandle, 0), table := t }
    | some o =>
      if !has e.info.metaRights rightDuplicate || o.capabilityIsUnique then
        { value := (.accessDenied, 0), table := t }
      else
        let rights := if requestedRights = 0 then e.info.metaRights else requestedRights
        if !within rights e.info.metaRights then
          { value := (.accessDenied, 0), table := t }
        else
          let (h, t') := t.allocateNativeHandleLocked
          if h = 0 then { value := (.resourceExhausted, 0), table := t }
          else
            { value := (.ok, h)
              table := t'.put h
                { e with generation := h, info := { e.info with metaRights := rights } }
              hooks := [.acquire o .tableRoot] }

/-! ## Two-phase installation -/

/-- The loop of `reserve_native`.  When the table runs out of handles, the entries
reserved so far are removed again. -/
def reserveLoop : ℕ → List Handle → ResourceTable → Outcome (Status × List Handle)
  | 0, handles, t => { value := (.ok, handles), table := t }
  | n + 1, handles, t =>
    let (h, t') := t.allocateNativeHandleLocked
    if h = 0 then
      { value := (.resourceExhausted, [])
        table :=
          { t with
            nativeHandleMap := eraseAll handles t.nativeHandleMap
            nativeEntryCount := Counter.sub t.nativeEntryCount handles.length } }
    else reserveLoop n (handles ++ [h]) (t'.put h { generation := h })

/-- `reserve_native`; `allocated` says whether the vector of handles could grow. -/
def reserveNative (count : ℕ) (allocated : Bool) : Outcome (Status × List Handle) :=
  if maxPerProcess < count then { value := (.resourceExhausted, []), table := t }
  else if count ≠ 0 ∧ allocated = false then { value := (.resourceExhausted, []), table := t }
  else reserveLoop count [] t

/-- `activate_native` on the object and metadata of a transferred resource. -/
def activateNative (h : Handle) (object : Option KObject) (info : Metadata) : Outcome Status :=
  match object with
  | none => { value := .invalidArgument, table := t }
  | some o =>
    if h = 0 then { value := .invalidArgument, table := t }
    else
      match t.get h with
      | none => { value := .invalidHandle, table := t }
      | some e =>
        if e.state ≠ .reserved then { value := .invalidHandle, table := t }
        else
          { value := .ok
            table := t.set h { e with object := some o, state := .active, info := info }
            hooks := [.acquire o .tableRoot, .release o .inTransit] }

/-- One handle of `rollback_native`. -/
def rollbackOne (h : Handle) : ResourceTable :=
  match t.get h with
  | none => t
  | some e => if e.state = .reserved then t.drop h else t

def rollbackNative (handles : List Handle) : ResourceTable := handles.foldl rollbackOne t

/-! ## Two-phase attenuation -/

/-- The checks of `restrict_native` on a restriction of the metadata `m`. -/
def restrictionAllowed (m : Metadata) (r : Restriction) : Bool :=
  (!r.sets .metaRights || within r.metaRights m.metaRights) &&
  (!r.sets .protocolRights || within r.protocolRights m.protocolRights) &&
  (!r.sets .scope || (r.scope != .unset && r.scope == m.scope)) &&
  (!r.sets .revision || (r.revision != 0 && r.revision ≤ m.revision)) &&
  (!r.sets .features || within r.features m.features)

def restrictedInfo (m : Metadata) (r : Restriction) : Metadata :=
  { m with
    metaRights := if r.sets .metaRights then r.metaRights else m.metaRights
    protocolRights := if r.sets .protocolRights then r.protocolRights else m.protocolRights
    scope := if r.sets .scope then r.scope else m.scope
    revision := if r.sets .revision then r.revision else m.revision
    features := if r.sets .features then r.features else m.features }

/-- `restrict_native`: the status, the reserved handle and the backup of the source.
The source stays in the table, not to be looked up, and the replacement is reserved
without an object. -/
def restrictNative (source : Handle) (r : Restriction) : Outcome (Status × Handle × Entry) :=
  if r.structSize < Restriction.size ∨ r.flags &&& ~~~Restriction.knownFlags ≠ 0 then
    { value := (.invalidArgument, 0, {}), table := t }
  else
    match t.lookupNative source with
    | none => { value := (.invalidHandle, 0, {}), table := t }
    | some e =>
      if !restrictionAllowed e.info r then { value := (.accessDenied, 0, {}), table := t }
      else
        let (h, t') := t.allocateNativeHandleLocked
        if h = 0 then { value := (.resourceExhausted, 0, {}), table := t }
        else
          { value := (.ok, h, e)
            table := (t'.set source { e with state := .restricting }).put h
              { generation := h, state := .reserved, info := restrictedInfo e.info r } }

/-- `commit_restrict`: the object moves to the replacement and the source goes.  The
acquire and release of the table root follow after the lock is dropped. -/
def commitRestrict (source restricted : Handle) : Outcome Status :=
  if source = 0 ∨ restricted = 0 then { value := .invalidArgument, table := t }
  else
    match t.get source, t.get restricted with
    | some s, some p =>
      match s.object with
      | some o =>
        if s.state = .restricting ∧ p.state = .reserved then
          { value := .ok
            table :=
              (t.set restricted { p with object := some o, state := .active }).drop source
            hooks := [.acquire o .tableRoot, .release o .tableRoot] }
        else { value := .invalidHandle, table := t }
      | none => { value := .invalidHandle, table := t }
    | _, _ => { value := .invalidHandle, table := t }

/-- `rollback_restrict`, given the backup that `restrict_native` returned. -/
def rollbackRestrict (source restricted : Handle) (sourceBackup : Entry) : Outcome Status :=
  if source = 0 ∨ restricted = 0 ∨ sourceBackup.object = none then
    { value := .invalidArgument, table := t }
  else
    match t.get source, t.get restricted with
    | some s, some p =>
      if s.state = .restricting ∧ s.object ≠ none ∧ p.state = .reserved then
        { value := .ok, table := (t.drop restricted).set source { s with state := .active } }
      else { value := .invalidHandle, table := t }
    | _, _ => { value := .invalidHandle, table := t }

/-! ## A whole table at a time -/

/-- `fork_inheritable`: views and client ends that may be duplicated, and the client
ends of the two terminal scopes. -/
def forkInheritable (e : Entry) : Bool :=
  (e.info.binding == .kernelView || e.info.binding == .clientEnd) &&
    (has e.info.metaRights rightDuplicate || (e.info.binding == .clientEnd &&
        (e.info.scope == .terminalMaster || e.info.scope == .terminalSlave)))

def clonable (source : ResourceTable) : Assoc.Map Handle Entry :=
  mapVal (fun h e => { e with generation := h })
    (filter (fun _ e => e.state == .active && e.object.isSome && forkInheritable e)
      source.nativeHandleMap)

/-- `clone_fork_bindings`, for a destination that is not the source itself;
`allocated` says whether the vector of acquired objects could grow. -/
def cloneForkBindings (source : ResourceTable) (allocated : Bool) : Outcome Status :=
  if t.nativeEntryCount ≠ 0 then { value := .invalidArgument, table := t }
  else if maxPerProcess < size (clonable source) then
    { value := .resourceExhausted, table := t }
  else if size (clonable source) ≠ 0 ∧ allocated = false then
    { value := .resourceExhausted, table := t }
  else
    { value := .ok
      table :=
        { nativeHandleMap := clonable source ∪ t.nativeHandleMap
          nextNativeHandle := source.nextNativeHandle
          nativeEntryCount := t.nativeEntryCount + size (clonable source) }
      hooks := (toPairs (clonable source)).flatMap fun p =>
        p.2.object.toList.map fun o => .acquire o .tableRoot }

/-- `clear`: every entry goes, and the counter restarts at zero. -/
def clear : Outcome Unit :=
  { value := ()
    table := { t with nativeHandleMap := ∅, nativeEntryCount := 0 }
    hooks := (toPairs t.nativeHandleMap).flatMap fun p =>
      p.2.object.toList.map fun o => .release o .tableRoot }

lemma map_allocate {t t' : ResourceTable} {h : Handle}
    (halloc : t.allocateNativeHandleLocked = (h, t')) : t'.nativeHandleMap = t.nativeHandleMap := by
  rw [allocateNativeHandleLocked] at halloc
  split at halloc <;> rw [← (Prod.mk.inj halloc).2]

lemma allocate_spec {t t' : ResourceTable} {h : Handle}
    (halloc : t.allocateNativeHandleLocked = (h, t')) (hh : h ≠ 0) :
    h = t.nextNativeHandle ∧
      t' = { t with nextNativeHandle := (t.nextNativeHandle + 1) % 2 ^ 64 } ∧
      t.nativeEntryCount < maxPerProcess := by
  rw [allocateNativeHandleLocked] at halloc
  split at halloc
  · exact absurd (congrArg Prod.fst halloc).symm hh
  · cases halloc
    exact ⟨rfl, rfl, by omega⟩

/-! ## Accounting -/

/-- Every handle given out so far is below this bound.  The counter of handles stops
for good when it wraps to zero. -/
def handleBound : ℕ := if t.nextNativeHandle = 0 then 2 ^ 64 else t.nextNativeHandle

/-- The entry counter covers the entries of the map and the nodes that transfers have
detached from it, under the handles `out`, and stays within the limit; all of them are
handles that were given out, and none is in the map and detached at once. -/
structure Balanced (out : List Handle) : Prop where
  count : t.nativeEntryCount = size t.nativeHandleMap + out.length
  bounded : t.nativeEntryCount ≤ maxPerProcess
  next_lt : t.nextNativeHandle < 2 ^ 64
  below : ∀ h ∈ t.nativeHandleMap, 0 < h ∧ h < t.handleBound
  nodup : out.Nodup
  detached : ∀ h ∈ out, h ∉ t.nativeHandleMap ∧ 0 < h ∧ h < t.handleBound

variable {t} {out : List Handle}

lemma balanced_empty : Balanced {} [] where
  count := rfl
  bounded := by simp
  next_lt := by simp
  below h hmem := absurd hmem (AList.notMem_empty h)
  nodup := nodup_nil
  detached h hmem := absurd hmem not_mem_nil

variable {out' : List Handle} {h k source : Handle} {e : Entry} {n : ℕ}

lemma Balanced.perm (ht : Balanced t out) (h : out.Perm out') : Balanced t out' :=
  ⟨h.length_eq ▸ ht.count, ht.bounded, ht.next_lt, ht.below, h.nodup_iff.1 ht.nodup,
    fun k hk => ht.detached k (h.mem_iff.2 hk)⟩

@[simp] lemma get_put_self (h : Handle) (e : Entry) : (t.put h e).get h = some e := by
  simp [put, get]

lemma get_put_of_ne (hk : k ≠ h) (e : Entry) : (t.put h e).get k = t.get k := by
  simp [put, get, AList.lookup_insert_ne hk]

@[simp] lemma get_set_self (h : Handle) (e : Entry) : (t.set h e).get h = some e := by
  simp [set, get]

lemma get_set_of_ne (hk : k ≠ h) (e : Entry) : (t.set h e).get k = t.get k := by
  simp [set, get, AList.lookup_insert_ne hk]

@[simp] lemma get_drop_self (h : Handle) : (t.drop h).get h = none := by simp [drop, get]

lemma get_drop_of_ne (hk : k ≠ h) : (t.drop h).get k = t.get k := by
  simp [drop, get, AList.lookup_erase_ne hk]

lemma mem_of_get (hget : t.get h = some e) : h ∈ t.nativeHandleMap := mem_of_lookup hget

lemma mem_of_mem_set (hmem : h ∈ t.nativeHandleMap) (hk : k ∈ (t.set h e).nativeHandleMap) :
    k ∈ t.nativeHandleMap :=
  ((AList.mem_insert _).1 hk).elim (fun heq => heq ▸ hmem) id

lemma lookupNative_eq_some : t.lookupNative h = some e ↔ t.get h = some e ∧ e.state = .active := by
  simp [lookupNative, Option.filter_eq_some_iff]

lemma lt_handleBound_succ (hn : n < 2 ^ 64) (m : Assoc.Map Handle Entry) (c : ℕ) :
    n < handleBound ⟨m, (n + 1) % 2 ^ 64, c⟩ := by
  change n < if (n + 1) % 2 ^ 64 = 0 then 2 ^ 64 else (n + 1) % 2 ^ 64
  by_cases hlast : n + 1 = 2 ^ 64
  · rw [hlast, Nat.mod_self, if_pos rfl]
    exact hn
  · have hmod : (n + 1) % 2 ^ 64 = n + 1 := Nat.mod_eq_of_lt (by omega)
    rw [hmod, if_neg (Nat.succ_ne_zero n)]
    exact Nat.lt_succ_self n

section

variable (ht : Balanced t out)
include ht

/-- **Allocation hands out a handle the table has never held.** -/
theorem Balanced.allocate {t' : ResourceTable} (halloc : t.allocateNativeHandleLocked = (h, t'))
    (hh : h ≠ 0) :
    Balanced t' out ∧ (h ∉ t'.nativeHandleMap ∧ h ∉ out) ∧ h < t'.handleBound ∧
      t'.nativeEntryCount < maxPerProcess ∧ t'.nativeHandleMap = t.nativeHandleMap := by
  obtain ⟨rfl, rfl, hcount⟩ := allocate_spec halloc hh
  have hbound := lt_handleBound_succ ht.next_lt t.nativeHandleMap t.nativeEntryCount
  have hold : t.handleBound = t.nextNativeHandle := if_neg hh
  refine ⟨⟨ht.count, ht.bounded, Nat.mod_lt _ (by decide), ?_, ht.nodup, ?_⟩, ⟨?_, ?_⟩,
    hbound, hcount, rfl⟩
  · intro k hk
    obtain ⟨hpos, hlt⟩ := ht.below k hk
    rw [hold] at hlt
    exact ⟨hpos, lt_trans hlt hbound⟩
  · intro k hk
    obtain ⟨hout, hpos, hlt⟩ := ht.detached k hk
    rw [hold] at hlt
    exact ⟨hout, hpos, lt_trans hlt hbound⟩
  · intro hmem
    have hlt := (ht.below _ hmem).2
    rw [hold] at hlt
    exact lt_irrefl _ hlt
  · intro hmem
    have hlt := (ht.detached _ hmem).2.2
    rw [hold] at hlt
    exact lt_irrefl _ hlt

lemma Balanced.put (hnew : h ∉ t.nativeHandleMap ∧ h ∉ out) (hpos : h ≠ 0)
    (hlt : h < t.handleBound) (hroom : t.nativeEntryCount < maxPerProcess) (e : Entry) :
    Balanced (t.put h e) out where
  count := by
    have hsize := size_insert_of_notMem hnew.1 e
    have := ht.count
    simp only [ResourceTable.put]
    omega
  bounded := hroom
  next_lt := ht.next_lt
  below k hk := by
    rcases (AList.mem_insert _).1 hk with rfl | hk
    · exact ⟨Nat.pos_of_ne_zero hpos, hlt⟩
    · exact ht.below k hk
  nodup := ht.nodup
  detached k hk := by
    refine ⟨?_, (ht.detached k hk).2⟩
    intro hmem
    rcases (AList.mem_insert _).1 hmem with rfl | hmem
    · exact hnew.2 hk
    · exact (ht.detached k hk).1 hmem

lemma Balanced.set (hmem : h ∈ t.nativeHandleMap) (e : Entry) : Balanced (t.set h e) out where
  count := by
    rw [ResourceTable.set, size_insert_of_mem hmem]
    exact ht.count
  bounded := ht.bounded
  next_lt := ht.next_lt
  below k hk := ht.below k (mem_of_mem_set hmem hk)
  nodup := ht.nodup
  detached k hk := by
    refine ⟨?_, (ht.detached k hk).2⟩
    exact fun hmem' => (ht.detached k hk).1 (mem_of_mem_set hmem hmem')

lemma Balanced.drop (hmem : h ∈ t.nativeHandleMap) : Balanced (t.drop h) out := by
  have hsize := size_erase_of_mem hmem
  have hcount := ht.count
  have hbounded := ht.bounded
  have hsub : Counter.sub t.nativeEntryCount 1 = t.nativeEntryCount - 1 :=
    Counter.sub_of_le (by omega)
  refine ⟨?_, ?_, ht.next_lt, fun k hk => ht.below k (AList.mem_erase.1 hk).2, ht.nodup, ?_⟩
  · simp only [ResourceTable.drop, hsub]
    omega
  · simp only [ResourceTable.drop, hsub]
    omega
  · intro k hk
    obtain ⟨hout, hbounds⟩ := ht.detached k hk
    exact ⟨fun hmem' => hout (AList.mem_erase.1 hmem').2, hbounds⟩

/-! ## What a restriction does -/

omit ht in
/-- A restriction that is accepted reserves the next handle for the replacement and takes
the source out of sight. -/
lemma restrictNative_ok {r : Restriction} (h : (t.restrictNative source r).value.1 = .ok) :
    ∃ e next, t.get source = some e ∧ e.state = .active ∧ restrictionAllowed e.info r = true ∧
      t.nextNativeHandle ≠ 0 ∧ t.restrictNative source r =
        { value := (.ok, t.nextNativeHandle, e)
          table :=
            (({ t with nextNativeHandle := next }).set source { e with state := .restricting }).put
              t.nextNativeHandle
              { generation := t.nextNativeHandle
                state := .reserved
                info := restrictedInfo e.info r } } := by
  revert h
  rw [restrictNative]
  iterate 2
    split
    · simp
  rename_i e hlook
  obtain ⟨hget, hactive⟩ := lookupNative_eq_some.1 hlook
  split
  · simp
  rename_i hallowed
  rcases halloc : t.allocateNativeHandleLocked with ⟨k, t'⟩
  dsimp only
  split
  · simp
  rename_i hzero
  obtain ⟨rfl, rfl, -⟩ := allocate_spec halloc hzero
  exact fun _ => ⟨e, _, hget, hactive, by simpa using hallowed, hzero, rfl⟩

omit ht in
lemma commitRestrict_ok {restricted : Handle}
    (h : (t.commitRestrict source restricted).value = .ok) :
    ∃ s p o, t.get source = some s ∧ t.get restricted = some p ∧ s.object = some o ∧
      s.state = .restricting ∧ p.state = .reserved ∧
      t.commitRestrict source restricted =
        { value := .ok
          table := (t.set restricted { p with object := some o, state := .active }).drop source
          hooks := [.acquire o .tableRoot, .release o .tableRoot] } := by
  revert h
  rw [commitRestrict]
  repeat' split
  any_goals simp only [reduceCtorEq, IsEmpty.forall_iff]
  next s p hs hp _ o ho hstates =>
    exact fun _ => ⟨s, p, o, hs, hp, ho, hstates.1, hstates.2, rfl⟩

/-! ## The operations keep the account -/

omit ht in
/-- What every pass of the loop of `reserve_native` keeps, the loop keeps. -/
lemma reserveLoop_induct {P Q : List Handle → ResourceTable → Prop}
    (hpass : ∀ handles t h t', P handles t → t.allocateNativeHandleLocked = (h, t') → h ≠ 0 →
      P (handles ++ [h]) (t'.put h { generation := h }))
    (hdone : ∀ handles t, P handles t → Q handles t)
    (hfail : ∀ handles t, P handles t → Q [] { t with
      nativeHandleMap := eraseAll handles t.nativeHandleMap
      nativeEntryCount := Counter.sub t.nativeEntryCount handles.length })
    {handles : List Handle} (h : P handles t) :
    Q (reserveLoop n handles t).value.2 (reserveLoop n handles t).table := by
  fun_induction reserveLoop n handles t with
  | case1 => exact hdone _ _ h
  | case2 => exact hfail _ _ h
  | case3 _ _ _ _ _ halloc hh ih => exact ih (hpass _ _ _ _ h halloc hh)

/-- The handles reserved so far are in the map, and a failure removes exactly those. -/
lemma Balanced.reserveLoop : Balanced (ResourceTable.reserveLoop n [] t).table out := by
  refine reserveLoop_induct (P := fun handles t => Balanced t out ∧ handles.Nodup ∧
    ∀ h ∈ handles, h ∈ t.nativeHandleMap) ?_ (fun _ _ h => h.1) ?_ ⟨ht, nodup_nil, by simp⟩
  · rintro handles t h t' ⟨ht, hnodup, hmem⟩ halloc hh
    obtain ⟨ht', hnew, hlt, hroom, hmap⟩ := ht.allocate halloc hh
    refine ⟨ht'.put hnew hh hlt hroom _, ?_, ?_⟩
    · rw [nodup_append]
      refine ⟨hnodup, nodup_singleton h, ?_⟩
      intro a ha b hb
      rw [mem_singleton.1 hb]
      rintro rfl
      exact hnew.1 (hmap ▸ hmem a ha)
    · intro k hk
      rcases mem_append.1 hk with hk | hk
      · exact (AList.mem_insert _).2 (.inr (hmap ▸ hmem k hk))
      · exact (AList.mem_insert _).2 (.inl (mem_singleton.1 hk))
  · rintro handles t ⟨ht, hnodup, hmem⟩
    have hsize := size_eraseAll hnodup hmem
    have hcount := ht.count
    have hbounded := ht.bounded
    rw [Counter.sub_of_le (by omega)]
    refine ⟨?_, ?_, ht.next_lt, ?_, ht.nodup, ?_⟩
    · dsimp only
      omega
    · dsimp only
      omega
    · intro k hk
      exact ht.below k (mem_eraseAll.1 hk).2
    · intro k hk
      obtain ⟨hout, hbounds⟩ := ht.detached k hk
      exact ⟨fun hk' => hout (mem_eraseAll.1 hk').2, hbounds⟩

omit ht in
lemma rollbackNative_induct {P : ResourceTable → Prop} {handles : List Handle} (ht : P t)
    (hdrop : ∀ h ∈ handles, ∀ t e, P t → t.get h = some e → e.state = .reserved → P (t.drop h)) :
    P (t.rollbackNative handles) := by
  refine foldlRecOn handles rollbackOne ht fun t ht h hh => ?_
  rw [rollbackOne]
  split
  · exact ht
  next e hget =>
    split
    next hst => exact hdrop h hh t e ht hget hst
    · exact ht

lemma Balanced.rollbackNative (handles : List Handle) : Balanced (t.rollbackNative handles) out :=
  rollbackNative_induct (P := (Balanced · out)) ht fun _ _ _ _ ht hget _ =>
    ht.drop (mem_of_get hget)

lemma Balanced.cloneForkBindings {source : ResourceTable} (hsource : Balanced source out')
    (allocated : Bool) :
    Balanced (t.cloneForkBindings source allocated).table out := by
  rw [ResourceTable.cloneForkBindings]
  split
  · exact ht
  split
  · exact ht
  split
  · exact ht
  have hcount := ht.count
  have hsize : size t.nativeHandleMap = 0 := by omega
  have hmap : t.nativeHandleMap = ∅ := by
    apply AList.ext
    exact eq_nil_of_length_eq_zero (by simpa [size, AList.keys, keys] using hsize)
  have hout : out = [] := eq_nil_of_length_eq_zero (by omega)
  subst hout
  refine ⟨?_, ?_, hsource.next_lt, ?_, nodup_nil, fun h hh => absurd hh not_mem_nil⟩
  · rw [hmap, AList.union_empty]
    dsimp only
    omega
  · dsimp only
    omega
  · intro h hh
    rw [hmap, AList.union_empty] at hh
    obtain ⟨e, he⟩ := exists_lookup_of_mem hh
    rw [clonable, lookup_mapVal, lookup_filter] at he
    obtain ⟨e', he', -⟩ := Option.map_eq_some_iff.1 he
    exact hsource.below h (mem_of_get (Option.filter_eq_some_iff.1 he').1)

end

lemma Balanced.clear (ht : Balanced t []) : Balanced t.clear.table [] where
  count := rfl
  bounded := by simp [ResourceTable.clear]
  next_lt := ht.next_lt
  below h hmem := absurd hmem (AList.notMem_empty h)
  nodup := nodup_nil
  detached h hmem := absurd hmem not_mem_nil

end ResourceTable

end Naos.Capability
