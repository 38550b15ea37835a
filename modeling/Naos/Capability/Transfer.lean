import Naos.Capability.Table

/-!
# Transferring capabilities

A message carries capabilities out of the sender's table.  `take_native_batch`
checks the whole batch first; only then does it detach the nodes of the moved
handles, so that the slots need no allocation if the transfer is undone.  The
batch becomes a list of records.  Each record owns the object in transit and, for a
moved handle, a token with the detached node.  `restore_native_batch` puts the
nodes back and `commit_native_batch` gives them up.  A token that is dropped
without either deletes its node, and nobody tells the table.
-/

namespace Naos.Capability

open List Assoc

structure TransferredResource where
  object : Option KObject := none
  info : Metadata := {}
  inTransit : Bool := false
  deriving DecidableEq, Repr

namespace TransferredResource

/-- What `std::move` and `take_object_without_callback` leave behind. -/
def movedFrom (r : TransferredResource) : TransferredResource :=
  { r with object := none, inTransit := false }

/-- The hooks of `release_transit`, which is also the destructor. -/
def releaseTransit (r : TransferredResource) : List Hook :=
  if r.inTransit then r.object.toList.map fun o => .release o .inTransit else []

end TransferredResource

/-- `transfer_restore_token`: the table it came from, the detached node under its
handle, and the object whose hooks are still to be called. -/
structure RestoreToken where
  context : ℕ := 0
  slot : Option (Handle × Entry) := none
  callbackObject : Option KObject := none
  deriving DecidableEq, Repr

structure TransferRecord where
  source : Handle
  moved : Bool
  resource : TransferredResource
  token : RestoreToken := {}
  deriving DecidableEq, Repr

open TransferRecord

def TransferRecord.holdsNode (r : TransferRecord) : Bool := r.moved && r.token.slot.isSome

/-! ## Taking a batch -/

/-- The snapshot that travels: the entry with the requested attenuation. -/
def Entry.attenuate (e : Entry) (d : Disposition) : Entry :=
  { e with
    info :=
      { e.info with
        metaRights := if d.rights = 0 then e.info.metaRights else d.rights
        scope := if d.scope ≠ .unset then d.scope else e.info.scope } }

/-- The checks of `take_native_batch` on one disposition, given those before it, and
the snapshot. -/
def checkDisposition (t : ResourceTable) (target : Handle) (earlier : List Disposition)
    (d : Disposition) : Except Status Entry :=
  if d.handle = 0 ∨ d.flags ≠ 0 ∨ d.handle = target then .error .invalidArgument
  else if earlier.any (·.handle = d.handle) then .error .invalidArgument
  else
    match t.lookupNative d.handle with
    | none => .error .invalidHandle
    | some e =>
      match e.object with
      | none => .error .invalidHandle
      | some o =>
        let rights := if d.rights = 0 then e.info.metaRights else d.rights
        if d.operation = .unknown then .error .invalidArgument
        else if !has e.info.metaRights rightTransfer then .error .accessDenied
        else if d.operation = .duplicate ∧
            (!has e.info.metaRights rightDuplicate || o.capabilityIsUnique) = true then
          .error .accessDenied
        else if !within rights e.info.metaRights then .error .accessDenied
        else if d.scope ≠ .unset ∧ d.scope ≠ e.info.scope then .error .accessDenied
        else
          .ok (e.attenuate d)

/-- The first loop of `take_native_batch`: every disposition with its snapshot. -/
def snapshotLoop (t : ResourceTable) (target : Handle) :
    List Disposition → List Disposition → Except Status (List (Disposition × Entry))
  | _, [] => .ok []
  | earlier, d :: ds =>
    match checkDisposition t target earlier d with
    | .error status => .error status
    | .ok e =>
      match snapshotLoop t target (earlier ++ [d]) ds with
      | .error status => .error status
      | .ok es => .ok ((d, e) :: es)

/-- The second loop of `take_native_batch`: detach the nodes of the moved handles.
The object stays with the snapshot, so a node keeps everything but the object. -/
def detachLoop : List (Disposition × Entry) → Assoc.Map Handle Entry →
    Option (List (Option (Handle × Entry)) × Assoc.Map Handle Entry)
  | [], m => some ([], m)
  | (d, _) :: es, m =>
    if d.operation = .move then
      match m.lookup d.handle with
      | none => none
      | some node =>
        (detachLoop es (m.erase d.handle)).map fun r =>
          (some (d.handle, { node with object := none }) :: r.1, r.2)
    else (detachLoop es m).map fun r => (none :: r.1, r.2)

/-- The record the third loop builds from a snapshot and its detached node. -/
def makeRecord (self : ℕ) (d : Disposition) (e : Entry) (node : Option (Handle × Entry)) :
    TransferRecord where
  source := d.handle
  moved := decide (d.operation = .move)
  resource := { object := e.object, info := e.info, inTransit := true }
  token := if d.operation = .move then { context := self, slot := node } else {}

/-- The hooks the third loop calls: the transit is acquired, and a moved object is
handed off from the table. -/
def takeHooks (d : Disposition) (e : Entry) : List Hook :=
  e.object.toList.flatMap fun o =>
    .acquire o .inTransit ::
      if d.operation = .move then [.handoff o .tableRoot .inTransit] else []

/-- `take_native_batch`: the status and the records.  `self` names the table in the
tokens, and `allocated` says whether the vectors could grow. -/
def takeNativeBatch (self : ℕ) (t : ResourceTable) (ds : List Disposition) (target : Handle)
    (allocated : Bool) : Outcome (Status × List TransferRecord) :=
  if maxResources < ds.length then { value := (.invalidArgument, []), table := t }
  else if ds ≠ [] ∧ allocated = false then { value := (.resourceExhausted, []), table := t }
  else
    match snapshotLoop t target [] ds with
    | .error status => { value := (status, []), table := t }
    | .ok es =>
      match detachLoop es t.nativeHandleMap with
      | none => { value := (.resourceExhausted, []), table := t }
      | some (nodes, m) =>
        { value := (.ok, (es.zip nodes).map fun p => makeRecord self p.1.1 p.1.2 p.2)
          table := { t with nativeHandleMap := m }
          hooks := es.flatMap fun p => takeHooks p.1 p.2 }

/-! ## Undoing and keeping a batch -/

/-- The check `restore_native_batch` makes on a record before it changes anything. -/
def restorable (self : ℕ) (t : ResourceTable) (r : TransferRecord) : Bool :=
  !r.holdsNode || (r.token.context == self && r.source != 0 && r.resource.object.isSome &&
      !decide (r.source ∈ t.nativeHandleMap))

/-- The second loop of `restore_native_batch`: attach the nodes again, under the
handles they were detached from. -/
def attachLoop : List TransferRecord → Assoc.Map Handle Entry →
    Bool × List TransferRecord × Assoc.Map Handle Entry
  | [], m => (true, [], m)
  | r :: rs, m =>
    match r.moved, r.token.slot with
    | true, some (h, node) =>
      if h ∈ m then (false, r :: rs, m)
      else
        let m' := m.insert h { node with object := r.resource.object, state := .active }
        let r' : TransferRecord :=
          { r with
            resource := r.resource.movedFrom
            token := { r.token with slot := none, callbackObject := r.resource.object } }
        let rest := attachLoop rs m'
        (rest.1, r' :: rest.2.1, rest.2.2)
    | _, _ =>
      let rest := attachLoop rs m
      (rest.1, r :: rest.2.1, rest.2.2)

/-- The hooks of the last loop of `restore_native_batch` for one record. -/
def restoreHooks (r : TransferRecord) : List Hook :=
  match r.token.callbackObject with
  | none => r.resource.releaseTransit
  | some o => if r.moved then [.acquire o .tableRoot, .release o .inTransit] else []

/-- A record after that loop: nothing is in transit any more and no call is due. -/
def settleRecord (r : TransferRecord) : TransferRecord :=
  match r.token.callbackObject with
  | none => { r with resource := { r.resource with inTransit := false } }
  | some _ => if r.moved then { r with token := { r.token with callbackObject := none } } else r

/-- `restore_native_batch`: the status and what is left of the records. -/
def restoreNativeBatch (self : ℕ) (t : ResourceTable) (records : List TransferRecord) :
    Outcome (Status × List TransferRecord) :=
  if records.all (restorable self t) then
    match attachLoop records t.nativeHandleMap with
    | (false, records', m) =>
      { value := (.resourceExhausted, records'), table := { t with nativeHandleMap := m } }
    | (true, records', m) =>
      { value := (.ok, records'.map settleRecord)
        table := { t with nativeHandleMap := m }
        hooks := records'.flatMap restoreHooks }
  else { value := (.resourceExhausted, records), table := t }

/-- The record's token holds a node of this table: `belongs_to(this)`. -/
def TransferRecord.belongsTo (r : TransferRecord) (self : ℕ) : Bool :=
  r.holdsNode && r.token.context == self

/-- `commit_native_batch`: the nodes are destroyed and no longer counted. -/
def commitNativeBatch (self : ℕ) (t : ResourceTable) (records : List TransferRecord) :
    Outcome (List TransferRecord) where
  value := records.map fun r =>
    if r.belongsTo self then { r with token := { r.token with slot := none } } else r
  table := records.foldl (fun t r =>
      if r.belongsTo self then
        { t with nativeEntryCount := Counter.sub t.nativeEntryCount 1 }
      else t) t

/-- The destructor of a list of records: what is still in transit is released.  The
nodes of tokens that were neither restored nor committed are deleted, which changes
no table. -/
def discardRecords (records : List TransferRecord) : List Hook :=
  records.flatMap fun r => r.resource.releaseTransit

/-! ## What a batch takes -/

/-- What the checks establish about a disposition and its snapshot. -/
structure Checked (t : ResourceTable) (target : Handle) (d : Disposition) (e : Entry) : Prop where
  handle_ne_zero : d.handle ≠ 0
  handle_ne_target : d.handle ≠ target
  operation : d.operation = .move ∨ d.operation = .duplicate
  entry : ∃ e₀, t.lookupNative d.handle = some e₀ ∧ e = e₀.attenuate d
  object : ∃ o, e.object = some o ∧ (d.operation = .duplicate → o.capabilityIsUnique = false)
  attenuated : ∀ e₀, t.lookupNative d.handle = some e₀ →
    within e.info.metaRights e₀.info.metaRights = true ∧ e.info.scope = e₀.info.scope

variable {d : Disposition} {e : Entry} {earlier ds : List Disposition} {t : ResourceTable}
  {target h : Handle} {status : Status} {es : List (Disposition × Entry)}
  {m : Assoc.Map Handle Entry} {allocated : Bool} {self : ℕ} {r : TransferRecord}
  {rs : List TransferRecord}

lemma checkDisposition_ok (h : checkDisposition t target earlier d = .ok e) :
    Checked t target d e ∧ ∀ d' ∈ earlier, d'.handle ≠ d.handle := by
  unfold checkDisposition at h
  split at h
  · simp at h
  rename_i harg
  split at h
  · simp at h
  rename_i hdup
  split at h
  · simp at h
  rename_i e₀ hlook
  split at h
  · simp at h
  rename_i o hobj
  generalize hrights : (if d.rights = 0 then e₀.info.metaRights else d.rights) = rights at h
  dsimp only at h
  split_ifs at h with hop _ hright hwithin hscope
  rw [Except.ok.injEq] at h
  subst h
  simp only [not_or, not_not] at harg
  refine ⟨⟨harg.1, harg.2.2, ?_, ⟨e₀, hlook, rfl⟩, ⟨o, hobj, ?_⟩, ?_⟩, ?_⟩
  · cases hcase : d.operation with
    | move => exact .inl rfl
    | duplicate => exact .inr rfl
    | unknown => exact absurd hcase hop
  · intro hdupl
    by_contra hunique
    simp [hdupl, hunique] at hright
  · intro e₁ hlook₁
    obtain rfl : e₀ = e₁ := Option.some.inj (hlook.symm.trans hlook₁)
    refine ⟨by simpa [Entry.attenuate, ← hrights] using hwithin, ?_⟩
    simp only [not_and, not_not] at hscope
    by_cases hset : d.scope ≠ .unset
    · simp [Entry.attenuate, hscope hset]
    · simp [Entry.attenuate, hset]
  · intro d' hd' heq
    apply hdup
    simpa using ⟨d', hd', heq⟩

/-- The snapshots follow the dispositions in order, every one of them is checked, and
no handle occurs twice. -/
lemma snapshotLoop_ok : ∀ {earlier : List Disposition} {es : List (Disposition × Entry)},
      snapshotLoop t target earlier ds = .ok es →
      es.map Prod.fst = ds ∧ (∀ p ∈ es, Checked t target p.1 p.2) ∧
        (es.map fun p => p.1.handle).Nodup ∧
        ∀ p ∈ es, ∀ d' ∈ earlier, d'.handle ≠ p.1.handle := by
  induction ds with
  | nil =>
    intro earlier es h
    rw [snapshotLoop, Except.ok.injEq] at h
    subst h
    simp
  | cons d ds ih =>
    intro earlier es h
    rw [snapshotLoop] at h
    split at h
    · simp at h
    rename_i e hcheck
    split at h
    · simp at h
    rename_i rest hrest
    rw [Except.ok.injEq] at h
    subst h
    obtain ⟨hchecked, hearlier⟩ := checkDisposition_ok hcheck
    obtain ⟨hfst, hall, hnodup, hdisj⟩ := ih hrest
    refine ⟨by rw [map_cons, hfst], ?_, ?_, ?_⟩
    · intro p hp
      rcases mem_cons.1 hp with rfl | hp
      · exact hchecked
      · exact hall p hp
    · rw [map_cons, nodup_cons]
      refine ⟨?_, hnodup⟩
      intro hmem
      obtain ⟨p, hp, heq⟩ := List.mem_map.1 hmem
      exact hdisj p hp d (mem_append_right _ (mem_singleton.2 rfl)) heq.symm
    · intro p hp d' hd'
      rcases mem_cons.1 hp with rfl | hp
      · exact hearlier d' hd'
      · exact hdisj p hp d' (mem_append_left _ hd')

lemma checkDisposition_error (h : checkDisposition t target earlier d = .error status) :
    status ≠ .ok := by
  rintro rfl
  unfold checkDisposition at h
  iterate 3
    split at h
    · simp at h
  rename_i e₀ _
  generalize (if d.rights = 0 then e₀.info.metaRights else d.rights) = rights at h
  split at h
  · simp at h
  dsimp only at h
  iterate 5
    split at h
    · simp at h
  simp at h

lemma snapshotLoop_error : ∀ {earlier : List Disposition},
      snapshotLoop t target earlier ds = .error status → status ≠ .ok := by
  induction ds with
  | nil =>
    intro earlier h
    simp [snapshotLoop] at h
  | cons d ds ih =>
    intro earlier h
    rw [snapshotLoop] at h
    split at h
    next st hcheck =>
      rw [Except.error.injEq] at h
      exact h ▸ checkDisposition_error hcheck
    split at h
    next st hrest =>
      rw [Except.error.injEq] at h
      subst h
      exact ih hrest
    · simp at h

def movedHandles (es : List (Disposition × Entry)) : List Handle :=
  (es.filter fun p => p.1.operation = .move).map fun p => p.1.handle

lemma mem_movedHandles :
    h ∈ movedHandles es ↔ ∃ p ∈ es, p.1.operation = .move ∧ p.1.handle = h := by
  simp [movedHandles, and_assoc]

lemma nodup_movedHandles (h : (es.map fun p => p.1.handle).Nodup) : (movedHandles es).Nodup :=
  h.sublist (filter_sublist.map _)

def nodeOf (m : Assoc.Map Handle Entry) (d : Disposition) : Option (Handle × Entry) :=
  if d.operation = .move then
    (m.lookup d.handle).map fun e => (d.handle, { e with object := none })
  else none

/-- **Detaching succeeds** on a checked batch: it takes the moved handles out of the
map, and each node is the entry that was there, without its object. -/
theorem detachLoop_eq (hnodup : (es.map fun p => p.1.handle).Nodup)
    (hmem : ∀ p ∈ es, p.1.handle ∈ m) :
    detachLoop es m = some (es.map fun p => nodeOf m p.1, eraseAll (movedHandles es) m) := by
  induction es generalizing m with
  | nil => rfl
  | cons p es ih =>
    obtain ⟨d, e⟩ := p
    obtain ⟨hd, hes⟩ := nodup_cons.1 hnodup
    have hne : ∀ q ∈ es, q.1.handle ≠ d.handle := by
      intro q hq heq
      exact hd (List.mem_map.2 ⟨q, hq, heq⟩)
    by_cases hop : d.operation = .move
    · obtain ⟨node, hnode⟩ := exists_lookup_of_mem (hmem (d, e) mem_cons_self)
      have hih := ih (m := m.erase d.handle) hes (by
        intro q hq
        exact AList.mem_erase.2 ⟨hne q hq, hmem q (mem_cons_of_mem _ hq)⟩)
      have hnodes : (es.map fun q => nodeOf (m.erase d.handle) q.1)
          = es.map fun q => nodeOf m q.1 := by
        apply map_congr_left
        intro q hq
        rw [nodeOf, nodeOf, AList.lookup_erase_ne (hne q hq)]
      have hmoved : movedHandles ((d, e) :: es) = d.handle :: movedHandles es := by
        simp [movedHandles, hop]
      have hhead : nodeOf m d = some (d.handle, { node with object := none }) := by
        rw [nodeOf, if_pos hop, hnode, Option.map_some]
      rw [detachLoop, if_pos hop, hnode, hih, hnodes, hmoved, eraseAll_cons, map_cons, hhead]
      rfl
    · have hih := ih (m := m) hes (by
        intro q hq
        exact hmem q (mem_cons_of_mem _ hq))
      have hmoved : movedHandles ((d, e) :: es) = movedHandles es := by simp [movedHandles, hop]
      have hhead : nodeOf m d = none := if_neg hop
      rw [detachLoop, if_neg hop, hih, hmoved, map_cons, hhead]
      rfl

def recordsOf (self : ℕ) (t : ResourceTable) (es : List (Disposition × Entry)) :
    List TransferRecord :=
  es.map fun p => makeRecord self p.1 p.2 (nodeOf t.nativeHandleMap p.1)

/-- **What a successful take does**: the batch is checked, the moved handles leave
the map, and the records follow the dispositions in order. -/
theorem takeNativeBatch_ok (h : (takeNativeBatch self t ds target allocated).value.1 = .ok) :
    ∃ es, es.map Prod.fst = ds ∧ (∀ p ∈ es, Checked t target p.1 p.2) ∧
      (es.map fun p => p.1.handle).Nodup ∧
      takeNativeBatch self t ds target allocated =
        { value := (.ok, recordsOf self t es)
          table :=
            { t with
              nativeHandleMap := eraseAll (movedHandles es) t.nativeHandleMap }
          hooks := es.flatMap fun p => takeHooks p.1 p.2 } := by
  revert h
  rw [takeNativeBatch]
  iterate 2
    split
    · simp
  intro h
  cases hsnap : snapshotLoop t target [] ds with
  | error status =>
    rw [hsnap] at h
    exact absurd h (snapshotLoop_error hsnap)
  | ok es =>
    obtain ⟨hfst, hall, hnodup, -⟩ := snapshotLoop_ok hsnap
    have hdetach := detachLoop_eq (m := t.nativeHandleMap) hnodup (by
      intro p hp
      obtain ⟨e₀, he₀, -⟩ := (hall p hp).entry
      exact ResourceTable.mem_of_get (ResourceTable.lookupNative_eq_some.1 he₀).1)
    refine ⟨es, hfst, hall, hnodup, ?_⟩
    dsimp only
    rw [hdetach]
    dsimp only
    congr 2
    rw [recordsOf]
    clear hdetach hnodup hall hfst hsnap
    induction es with
    | nil => rfl
    | cons p es ih => rw [map_cons, zip_cons_cons, map_cons, map_cons, ih]

lemma takeNativeBatch_refused (h : (takeNativeBatch self t ds target allocated).value.1 ≠ .ok) :
    (takeNativeBatch self t ds target allocated).table = t ∧
      (takeNativeBatch self t ds target allocated).hooks = [] := by
  revert h
  rw [takeNativeBatch]
  iterate 4
    split
    · exact fun _ => ⟨rfl, rfl⟩
  exact fun h => absurd rfl h

lemma takeNativeBatch_error (h : (takeNativeBatch self t ds target allocated).value.1 ≠ .ok) :
    (takeNativeBatch self t ds target allocated).table = t :=
  (takeNativeBatch_refused h).1

/-! ## Undoing a batch -/

/-- The node a record would attach again: the detached one with its object back. -/
def TransferRecord.node (r : TransferRecord) : Option (Handle × Entry) :=
  if r.moved then
    r.token.slot.map fun p => (p.1, { p.2 with object := r.resource.object, state := .active })
  else none

def heldNodes (records : List TransferRecord) : List (Handle × Entry) :=
  records.filterMap node

def TransferRecord.attached (r : TransferRecord) : TransferRecord :=
  if r.holdsNode then
    { r with
      resource := r.resource.movedFrom
      token := { r.token with slot := none, callbackObject := r.resource.object } }
  else r

lemma node_isSome (r : TransferRecord) : r.node.isSome = r.holdsNode := by
  cases hm : r.moved <;> simp [node, holdsNode, hm]

lemma heldNodes_cons_of_holdsNode (hm : r.moved = true) (hs : r.token.slot = some (h, e))
    (rs : List TransferRecord) :
    heldNodes (r :: rs) =
      (h, { e with object := r.resource.object, state := .active }) :: heldNodes rs := by
  simp [heldNodes, node, hm, hs]

lemma heldNodes_cons_of_not (h : r.holdsNode = false) (rs : List TransferRecord) :
    heldNodes (r :: rs) = heldNodes rs := by
  have hnode : r.node = none := by
    rw [← Option.not_isSome_iff_eq_none, node_isSome, h]
    simp
  rw [heldNodes, filterMap_cons, hnode]
  rfl

/-- **Attaching succeeds** when the handles of the nodes are distinct and free. -/
theorem attachLoop_eq (hnodup : ((heldNodes rs).map Prod.fst).Nodup)
    (hfree : ∀ h ∈ (heldNodes rs).map Prod.fst, h ∉ m) :
    attachLoop rs m = (true, rs.map attached, insertAll (heldNodes rs) m) := by
  fun_induction attachLoop rs m with
  | case1 => rfl
  | case2 r rs m h e hslot hm hmem =>
    rw [heldNodes_cons_of_holdsNode hm hslot] at hfree
    exact absurd hmem (hfree h mem_cons_self)
  | case3 r rs m h e hslot hm _ _ _ rest ih =>
    rw [heldNodes_cons_of_holdsNode hm hslot] at hnodup hfree ⊢
    obtain ⟨hh, hrs⟩ := nodup_cons.1 hnodup
    have hrest : rest = _ := ih hrs (by
      intro k hk hmem
      rcases (AList.mem_insert m).1 hmem with rfl | hmem
      · exact hh hk
      · exact hfree k (mem_cons_of_mem _ hk) hmem)
    rw [hrest, insertAll_cons, map_cons, attached, if_pos (by simp [holdsNode, hm, hslot])]
  | case4 r rs m rest hnot ih =>
    have hr : r.holdsNode = false := by
      rw [← Bool.not_eq_true]
      intro hholds
      obtain ⟨hm, hs⟩ := Bool.and_eq_true_iff.1 hholds
      obtain ⟨⟨h, e⟩, hslot⟩ := Option.isSome_iff_exists.1 hs
      exact hnot h e hm hslot
    rw [heldNodes_cons_of_not hr] at hnodup hfree ⊢
    have hrest : rest = _ := ih hnodup hfree
    rw [hrest, map_cons, attached, if_neg (by simp [hr])]

/-- **What a restore does** when every record passes its check and the handles are
distinct. -/
theorem restoreNativeBatch_ok (hall : ∀ r ∈ rs, restorable self t r = true)
    (hnodup : ((heldNodes rs).map Prod.fst).Nodup)
    (hfree : ∀ h ∈ (heldNodes rs).map Prod.fst, h ∉ t.nativeHandleMap) :
    restoreNativeBatch self t rs =
      { value := (.ok, (rs.map attached).map settleRecord)
        table := { t with nativeHandleMap := insertAll (heldNodes rs) t.nativeHandleMap }
        hooks := (rs.map attached).flatMap restoreHooks } := by
  have hcheck : rs.all (restorable self t) = true := List.all_eq_true.2 hall
  rw [restoreNativeBatch, if_pos hcheck, attachLoop_eq hnodup hfree]

/-- A record of a checked disposition attaches the entry that was there. -/
lemma node_makeRecord (self : ℕ) (hc : Checked t target d e) :
    (makeRecord self d e (nodeOf t.nativeHandleMap d)).node =
      if d.operation = .move then (t.get d.handle).map (d.handle, ·) else none := by
  obtain ⟨e₀, hlook, rfl⟩ := hc.entry
  obtain ⟨hget, hactive⟩ := ResourceTable.lookupNative_eq_some.1 hlook
  have hnode : nodeOf t.nativeHandleMap d = if d.operation = .move then
      (t.get d.handle).map fun e => (d.handle, { e with object := none }) else none := rfl
  by_cases hop : d.operation = .move
  · simp [node, makeRecord, hnode, hop, hget, Entry.attenuate, ← hactive]
  · simp [node, makeRecord, hop]

lemma heldNodes_recordsOf (self : ℕ) (hall : ∀ p ∈ es, Checked t target p.1 p.2) :
    (heldNodes (recordsOf self t es)).map Prod.fst = movedHandles es ∧
      ∀ q ∈ heldNodes (recordsOf self t es), t.get q.1 = some q.2 := by
  have hheld : heldNodes (recordsOf self t es) = es.filterMap fun p =>
      if p.1.operation = .move then (t.get p.1.handle).map (p.1.handle, ·) else none := by
    rw [heldNodes, recordsOf, filterMap_map]
    exact filterMap_congr fun p hp => node_makeRecord self (hall p hp)
  rw [hheld]
  constructor
  · rw [map_filterMap, movedHandles, ← filterMap_eq_map, filterMap_filter]
    refine filterMap_congr fun p hp => ?_
    obtain ⟨e₀, hlook, -⟩ := (hall p hp).entry
    by_cases hop : p.1.operation = .move <;>
      simp [hop, (ResourceTable.lookupNative_eq_some.1 hlook).1]
  · intro q hq
    obtain ⟨p, -, hp⟩ := mem_filterMap.1 hq
    split_ifs at hp
    obtain ⟨e, he, rfl⟩ := Option.map_eq_some_iff.1 hp
    exact he

lemma restorable_recordsOf (hall : ∀ p ∈ es, Checked t target p.1 p.2) :
    ∀ r ∈ recordsOf self t es, restorable self
        { t with nativeHandleMap := eraseAll (movedHandles es) t.nativeHandleMap } r
        = true := by
  intro r hr
  obtain ⟨p, hp, rfl⟩ := List.mem_map.1 hr
  have hc := hall p hp
  obtain ⟨o, ho, -⟩ := hc.object
  by_cases hop : p.1.operation = .move
  · have hgone : p.1.handle ∉ eraseAll (movedHandles es) t.nativeHandleMap := by
      intro hmem
      exact (mem_eraseAll.1 hmem).1 (mem_movedHandles.2 ⟨p, hp, hop, rfl⟩)
    simp [restorable, makeRecord, hop, ho, hgone, hc.handle_ne_zero]
  · simp [restorable, holdsNode, makeRecord, hop]

lemma restore_recordsOf (hall : ∀ p ∈ es, Checked t target p.1 p.2)
    (hnodup : (es.map fun p => p.1.handle).Nodup) :
    restoreNativeBatch self
        { t with nativeHandleMap := eraseAll (movedHandles es) t.nativeHandleMap }
        (recordsOf self t es) =
      { value := (.ok, ((recordsOf self t es).map attached).map settleRecord)
        table :=
          { t with
            nativeHandleMap := insertAll (heldNodes (recordsOf self t es))
              (eraseAll (movedHandles es) t.nativeHandleMap) }
        hooks := ((recordsOf self t es).map attached).flatMap restoreHooks } := by
  have hkeys := (heldNodes_recordsOf self hall).1
  apply restoreNativeBatch_ok (restorable_recordsOf hall)
  · rw [hkeys]
    exact nodup_movedHandles hnodup
  · intro h hh hmem
    rw [hkeys] at hh
    exact (mem_eraseAll.1 hmem).1 hh

/-- **Undoing a transfer gives the table back**: the restore succeeds, every handle
maps to what it mapped to before the batch was taken, and the two counters are the
same. -/
theorem restore_take {o : Outcome (Status × List TransferRecord)}
    (htake : takeNativeBatch self t ds target allocated = o) (hok : o.value.1 = .ok) :
    (restoreNativeBatch self o.table o.value.2).value.1 = .ok ∧
      (∀ h, (restoreNativeBatch self o.table o.value.2).table.get h = t.get h) ∧
      (restoreNativeBatch self o.table o.value.2).table.nativeEntryCount = t.nativeEntryCount ∧
      (restoreNativeBatch self o.table o.value.2).table.nextNativeHandle = t.nextNativeHandle := by
  subst htake
  obtain ⟨es, -, hall, hnodup, heq⟩ := takeNativeBatch_ok hok
  obtain ⟨hkeys, hents⟩ := heldNodes_recordsOf self hall
  rw [heq]
  rw [restore_recordsOf hall hnodup]
  refine ⟨rfl, ?_, rfl, rfl⟩
  intro h
  by_cases hh : h ∈ (heldNodes (recordsOf self t es)).map Prod.fst
  · have hn : ((heldNodes (recordsOf self t es)).map Prod.fst).Nodup :=
      hkeys ▸ nodup_movedHandles hnodup
    obtain ⟨⟨k, e⟩, hmem, rfl⟩ := List.mem_map.1 hh
    exact (lookup_insertAll_of_mem hn hmem _).trans (hents _ hmem).symm
  · refine (lookup_insertAll_of_notMem hh _).trans ?_
    exact lookup_eraseAll_of_notMem (hkeys ▸ hh) _

lemma nativeHandleMap_commitNativeBatch (self : ℕ) (t : ResourceTable) (rs : List TransferRecord) :
    (commitNativeBatch self t rs).table.nativeHandleMap = t.nativeHandleMap := by
  rw [commitNativeBatch]
  induction rs generalizing t with
  | nil => rfl
  | cons r rs ih =>
    rw [foldl_cons]
    rw [ih]
    split <;> rfl

/-! ## Accounting for detached nodes -/

def heldHandles (records : List TransferRecord) : List Handle := (heldNodes records).map Prod.fst

lemma attachLoop_spec (rs : List TransferRecord) (m : Assoc.Map Handle Entry) :
    (∀ k ∈ m, (attachLoop rs m).2.2.lookup k = m.lookup k) ∧
      ∀ k ∈ (attachLoop rs m).2.2, k ∈ m ∨ k ∈ heldHandles rs := by
  induction rs generalizing m with
  | nil => exact ⟨fun _ _ => rfl, fun _ hk => .inl hk⟩
  | cons r rs ih =>
    rw [attachLoop]
    split
    next h node hmoved hslot =>
      rw [heldHandles, heldNodes_cons_of_holdsNode hmoved hslot, map_cons]
      split
      · exact ⟨fun _ _ => rfl, fun _ hk => .inl hk⟩
      next hfree =>
        obtain ⟨hlook, hmem⟩ :=
          ih (m.insert h { node with object := r.resource.object, state := .active })
        refine ⟨?_, ?_⟩
        · intro k hk
          have hne : k ≠ h := by
            rintro rfl
            exact hfree hk
          exact (hlook k ((AList.mem_insert _).2 (.inr hk))).trans (AList.lookup_insert_ne hne)
        · intro k hk
          rcases hmem k hk with hk | hk
          · rcases (AList.mem_insert _).1 hk with rfl | hk
            · exact .inr mem_cons_self
            · exact .inl hk
          · exact .inr (mem_cons_of_mem _ hk)
    · obtain ⟨hlook, hmem⟩ := ih m
      refine ⟨hlook, fun k hk => (hmem k hk).imp_right ?_⟩
      exact fun hk => ((sublist_cons_self r rs).filterMap node).map Prod.fst |>.subset hk

lemma slot_of_node {r : TransferRecord} {q : Handle × Entry} (h : r.node = some q) :
    ∃ e, r.token.slot = some (q.1, e) := by
  rw [node] at h
  split at h
  · obtain ⟨slot, hslot, rfl⟩ := Option.map_eq_some_iff.1 h
    exact ⟨slot.2, hslot⟩
  · cases h

lemma free_of_restorable {self : ℕ} {t : ResourceTable} {records : List TransferRecord}
    (hall : ∀ r ∈ records, restorable self t r = true)
    (hnamed : ∀ r ∈ records, ∀ q, r.node = some q → q.1 = r.source) :
    ∀ h ∈ heldHandles records, h ∉ t.nativeHandleMap := by
  intro h hh
  obtain ⟨q, hq, rfl⟩ := List.mem_map.1 hh
  obtain ⟨r, hr, hnode⟩ := mem_filterMap.1 hq
  have hholds : r.holdsNode = true := by rw [← node_isSome, hnode]; rfl
  have hrestorable := hall r hr
  rw [hnamed r hr q hnode]
  simp only [restorable, hholds, Bool.not_true, Bool.false_or, Bool.and_eq_true,
    Bool.not_eq_true', decide_eq_false_iff_not] at hrestorable
  exact hrestorable.2

namespace ResourceTable

variable {t : ResourceTable} {out : List Handle}

variable {self : ℕ} {rs : List TransferRecord}

lemma mem_of_heldHandles_recordsOf {es : List (Disposition × Entry)} {target h : Handle}
    (hall : ∀ p ∈ es, Checked t target p.1 p.2) (hh : h ∈ heldHandles (recordsOf self t es)) :
    h ∈ t.nativeHandleMap := by
  rw [heldHandles, (heldNodes_recordsOf self hall).1] at hh
  obtain ⟨p, hp, -, rfl⟩ := mem_movedHandles.1 hh
  obtain ⟨e₀, hlook, -⟩ := (hall p hp).entry
  exact mem_of_get (lookupNative_eq_some.1 hlook).1

lemma Balanced.take (ht : Balanced t out) {ds : List Disposition} {target : Handle}
    {allocated : Bool} (hok : (takeNativeBatch self t ds target allocated).value.1 = .ok) :
    Balanced (takeNativeBatch self t ds target allocated).table
      (heldHandles (takeNativeBatch self t ds target allocated).value.2 ++ out) := by
  obtain ⟨es, -, hall, hnodup, heq⟩ := takeNativeBatch_ok hok
  have hkeys : heldHandles (recordsOf self t es) = movedHandles es :=
    (heldNodes_recordsOf self hall).1
  have hmem : ∀ h ∈ movedHandles es, h ∈ t.nativeHandleMap :=
    hkeys ▸ fun _ => mem_of_heldHandles_recordsOf hall
  have hsize := size_eraseAll (nodup_movedHandles hnodup) hmem
  have hcount := ht.count
  rw [heq]
  rw [hkeys]
  refine ⟨?_, ht.bounded, ht.next_lt, ?_, ?_, ?_⟩
  · rw [length_append]
    dsimp only
    omega
  · intro h hh
    exact ht.below h (mem_eraseAll.1 hh).2
  · rw [nodup_append]
    refine ⟨nodup_movedHandles hnodup, ht.nodup, ?_⟩
    intro a ha b hb hab
    exact (ht.detached b hb).1 (hab ▸ hmem a ha)
  · intro h hh
    rcases mem_append.1 hh with hh | hh
    · exact ⟨fun hk => (mem_eraseAll.1 hk).1 hh, ht.below h (hmem h hh)⟩
    · obtain ⟨hout, hbounds⟩ := ht.detached h hh
      exact ⟨fun hk => hout (mem_eraseAll.1 hk).2, hbounds⟩

lemma Balanced.restore (ht : Balanced t (heldHandles rs ++ out))
    (hall : ∀ r ∈ rs, restorable self t r = true) :
    Balanced (restoreNativeBatch self t rs).table out := by
  have hnodup := nodup_append.1 ht.nodup
  have hfree : ∀ h ∈ (heldNodes rs).map Prod.fst, h ∉ t.nativeHandleMap := by
    intro h hh
    exact (ht.detached h (mem_append_left _ hh)).1
  have hsize := size_insertAll hnodup.1 hfree
  have hcount := ht.count
  rw [length_append, heldHandles, length_map] at hcount
  rw [restoreNativeBatch_ok hall hnodup.1 hfree]
  refine ⟨?_, ht.bounded, ht.next_lt, ?_, hnodup.2.1, ?_⟩
  · dsimp only
    omega
  · intro h hh
    rcases mem_insertAll.1 hh with hh | hh
    · exact (ht.detached h (mem_append_left _ hh)).2
    · exact ht.below h hh
  · intro h hh
    refine ⟨?_, (ht.detached h (mem_append_right _ hh)).2⟩
    intro hmem
    rcases mem_insertAll.1 hmem with hmem | hmem
    · exact hnodup.2.2 h hmem h hh rfl
    · exact (ht.detached h (mem_append_right _ hh)).1 hmem

lemma Balanced.commit (ht : Balanced t (heldHandles rs ++ out))
    (hself : ∀ r ∈ rs, r.holdsNode = true → r.token.context = self) :
    Balanced (commitNativeBatch self t rs).table out := by
  rw [commitNativeBatch]
  induction rs generalizing t with
  | nil => exact ht
  | cons r rs ih =>
    rw [foldl_cons]
    refine ih ?_ fun r' hr' => hself r' (mem_cons_of_mem _ hr')
    by_cases hr : r.holdsNode = true
    · have hbelongs : r.belongsTo self = true := by
        simp [belongsTo, hr, hself r mem_cons_self hr]
      obtain ⟨hm, hs⟩ := Bool.and_eq_true_iff.1 hr
      obtain ⟨⟨h, e⟩, hslot⟩ := Option.isSome_iff_exists.1 hs
      rw [heldHandles, heldNodes_cons_of_holdsNode hm hslot, map_cons, cons_append] at ht
      have hcount := ht.count
      have hbounded := ht.bounded
      rw [length_cons] at hcount
      have hsub : Counter.sub t.nativeEntryCount 1 = t.nativeEntryCount - 1 :=
        Counter.sub_of_le (by omega)
      rw [if_pos hbelongs, hsub]
      refine ⟨?_, ?_, ht.next_lt, ht.below, (nodup_cons.1 ht.nodup).2,
        fun k hk => ht.detached k (mem_cons_of_mem _ hk)⟩
      · rw [heldHandles]
        dsimp only
        omega
      · dsimp only
        omega
    · have hr' : r.holdsNode = false := by simpa using hr
      have hbelongs : ¬ r.belongsTo self = true := by simp [belongsTo, hr']
      rw [heldHandles, heldNodes_cons_of_not hr'] at ht
      rw [if_neg hbelongs]
      exact ht

end ResourceTable

end Naos.Capability
