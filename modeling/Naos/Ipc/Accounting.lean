import Naos.Ipc.Protocol
import Naos.Ipc.Send
import Naos.Lib.Transition

/-!
# Accounting for handles

Several tables and the transfers that are under way between them.  A transfer starts
with `take_native_batch` and ends in one of its callers: a raw send, a submission, a
reply, a kernel dispatch, or a spawn.  In between every table may be changed by other
threads, one locked section at a time.

The question is whether the entry counter of a table always counts its entries and the
nodes that transfers hold.
-/

namespace Naos.Ipc

open Capability Transition List Option

/-! ## The operations -/

/-- The operations of one table that are no part of a transfer. -/
inductive TableOp where
  | install (object : Option KObject) (info : Metadata)
  | close (h : Handle)
  | duplicate (source : Handle) (rights : Mask)
  | reserve (count : ℕ) (allocated : Bool)
  | activate (h : Handle) (object : Option KObject) (info : Metadata)
  | rollback (handles : List Handle)
  | restrict (source : Handle) (r : Restriction)
  | commitRestrict (source restricted : Handle)
  | rollbackRestrict (source restricted : Handle) (backup : Entry)

def TableOp.apply (t : ResourceTable) : TableOp → ResourceTable
  | .install object info => (t.installNative object info).table
  | .close h => (t.closeNative h).table
  | .duplicate source rights => (t.duplicateNative source rights).table
  | .reserve count allocated => (t.reserveNative count allocated).table
  | .activate h object info => (t.activateNative h object info).table
  | .rollback handles => t.rollbackNative handles
  | .restrict source r => (t.restrictNative source r).table
  | .commitRestrict source restricted => (t.commitRestrict source restricted).table
  | .rollbackRestrict source restricted backup =>
    (t.rollbackRestrict source restricted backup).table

def TableOp.hooks (t : ResourceTable) : TableOp → List Hook
  | .install object info => (t.installNative object info).hooks
  | .close h => (t.closeNative h).hooks
  | .duplicate source rights => (t.duplicateNative source rights).hooks
  | .reserve count allocated => (t.reserveNative count allocated).hooks
  | .activate h object info => (t.activateNative h object info).hooks
  | .rollback _ => []
  | .restrict source r => (t.restrictNative source r).hooks
  | .commitRestrict source restricted => (t.commitRestrict source restricted).hooks
  | .rollbackRestrict source restricted backup =>
    (t.rollbackRestrict source restricted backup).hooks

/-! ## What an operation does -/

section

open ResourceTable

/-- An operation is refused, and leaves the table as it is, or its checks have passed. -/
inductive TableOp.Does (t : ResourceTable) : TableOp → ResourceTable → List Hook → Prop where
  | refused (op : TableOp) : Does t op t []
  | install {h : Handle} {t' : ResourceTable} (halloc : t.allocateNativeHandleLocked = (h, t'))
      (hh : h ≠ 0) (o : KObject) (info : Metadata) :
      Does t (.install (some o) info)
        (t'.put h { object := some o, generation := h, state := .active, info })
        [.acquire o .tableRoot]
  | close {h : Handle} {e : Entry} (hget : t.get h = some e) (hactive : e.state = .active) :
      Does t (.close h) (t.drop h) (e.object.toList.map fun o => .release o .tableRoot)
  | duplicate {h : Handle} {t' : ResourceTable} (halloc : t.allocateNativeHandleLocked = (h, t'))
      (hh : h ≠ 0) {e : Entry} (hactive : e.state = .active) {o : KObject}
      (hobject : e.object = some o) (hshared : o.capabilityIsUnique = false) (source : Handle)
      (rights granted : Mask) :
      Does t (.duplicate source rights)
        (t'.put h { e with generation := h, info := { e.info with metaRights := granted } })
        [.acquire o .tableRoot]
  | reserve (count : ℕ) (allocated : Bool) :
      Does t (.reserve count allocated) (reserveLoop count [] t).table []
  | activate {h : Handle} {e : Entry} (hget : t.get h = some e) (hreserved : e.state = .reserved)
      (o : KObject) (info : Metadata) :
      Does t (.activate h (some o) info)
        (t.set h { e with object := some o, state := .active, info })
        [.acquire o .tableRoot, .release o .inTransit]
  | rollback (handles : List Handle) : Does t (.rollback handles) (t.rollbackNative handles) []
  | restrict {h : Handle} {t' : ResourceTable} (halloc : t.allocateNativeHandleLocked = (h, t'))
      (hh : h ≠ 0) {source : Handle} {e : Entry} (hget : t.get source = some e)
      (hget' : t'.get source = some e) (hactive : e.state = .active) (r : Restriction) :
      Does t (.restrict source r)
        ((t'.set source { e with state := .restricting }).put h
          { generation := h, state := .reserved, info := restrictedInfo e.info r }) []
  | commitRestrict {source restricted : Handle} (hne : source ≠ restricted) {e p : Entry}
      (hsource : t.get source = some e) (hrestricted : t.get restricted = some p)
      (hreserved : p.state = .reserved) {o : KObject} (hobject : e.object = some o) :
      Does t (.commitRestrict source restricted)
        ((t.set restricted { p with object := some o, state := .active }).drop source)
        [.acquire o .tableRoot, .release o .tableRoot]
  | rollbackRestrict {source restricted : Handle} (hne : source ≠ restricted) {e p : Entry}
      (hsource : t.get source = some e) (hrestricted : t.get restricted = some p)
      (hreserved : p.state = .reserved) (backup : Entry) :
      Does t (.rollbackRestrict source restricted backup)
        ((t.drop restricted).set source { e with state := .active }) []

lemma hooks_reserveLoop (n : ℕ) (handles : List Handle) (t : ResourceTable) :
    (reserveLoop n handles t).hooks = [] := by
  fun_induction reserveLoop n handles t with
  | case1 | case2 => rfl
  | case3 _ _ _ _ _ _ _ ih => exact ih

lemma ne_of_restricting {t : ResourceTable} {source restricted : Handle} {e p : Entry}
    (hsource : t.get source = some e) (hrestricted : t.get restricted = some p)
    (hstate : e.state = .restricting) (hreserved : p.state = .reserved) : source ≠ restricted := by
  rintro rfl
  cases hsource.symm.trans hrestricted
  exact absurd (hstate.symm.trans hreserved) (by decide)

/-- **Every operation** does what its checks allow. -/
theorem TableOp.does (t : ResourceTable) (op : TableOp) : Does t op (op.apply t) (op.hooks t) := by
  cases op with
  | install object info =>
    cases object with
    | none => exact .refused _
    | some o =>
      rw [apply, hooks, installNative]
      rcases halloc : t.allocateNativeHandleLocked with ⟨h, t'⟩
      dsimp only
      split
      · exact .refused _
      next hh => exact .install halloc hh o info
  | close h =>
    rw [apply, hooks, closeNative]
    repeat' split
    any_goals exact .refused _
    next hlook =>
      obtain ⟨hget, hactive⟩ := lookupNative_eq_some.1 hlook
      exact .close hget hactive
  | duplicate source rights =>
    rw [apply, hooks, duplicateNative]
    split
    · exact .refused _
    rename_i e hlook
    split
    · exact .refused _
    rename_i hobject
    split
    · exact .refused _
    generalize (if rights = 0 then e.info.metaRights else rights) = granted
    rcases halloc : t.allocateNativeHandleLocked with ⟨h, t'⟩
    dsimp only
    repeat' split
    any_goals exact .refused _
    next hh =>
      exact .duplicate halloc hh (lookupNative_eq_some.1 hlook).2 hobject
        (by simp_all) _ _ _
  | reserve count allocated =>
    rw [apply, hooks, reserveNative]
    repeat' split
    any_goals exact .refused _
    rw [hooks_reserveLoop]
    exact .reserve _ _
  | activate h object info =>
    cases object with
    | none => exact .refused _
    | some o =>
      rw [apply, hooks, activateNative]
      repeat' split
      any_goals exact .refused _
      next hget hreserved => exact .activate hget (not_not.1 hreserved) o info
  | rollback handles => exact .rollback _
  | restrict source r =>
    rw [apply, hooks, restrictNative]
    split
    · exact .refused _
    split
    · exact .refused _
    rename_i e hlook
    split
    · exact .refused _
    rcases halloc : t.allocateNativeHandleLocked with ⟨h, t'⟩
    dsimp only
    split
    · exact .refused _
    next hh =>
      obtain ⟨hget, hactive⟩ := lookupNative_eq_some.1 hlook
      exact .restrict halloc hh hget
        (by rw [ResourceTable.get, map_allocate halloc]; exact hget) hactive r
  | commitRestrict source restricted =>
    rw [apply, hooks, ResourceTable.commitRestrict]
    repeat' split
    any_goals exact .refused _
    next hsource hrestricted _ _ hobject hstates =>
      exact .commitRestrict (ne_of_restricting hsource hrestricted hstates.1 hstates.2)
        hsource hrestricted hstates.2 hobject
  | rollbackRestrict source restricted backup =>
    rw [apply, hooks, ResourceTable.rollbackRestrict]
    repeat' split
    any_goals exact .refused _
    next hsource hrestricted hstates =>
      exact .rollbackRestrict (ne_of_restricting hsource hrestricted hstates.1 hstates.2.2)
        hsource hrestricted hstates.2.2 backup

lemma balanced_of_does {t t' : ResourceTable} {out : List Handle} (ht : t.Balanced out)
    {op : TableOp} {hooks : List Hook} (h : op.Does t t' hooks) : t'.Balanced out := by
  cases h with
  | refused => exact ht
  | install halloc hh o info =>
    obtain ⟨ht', hnew, hlt, hroom, -⟩ := ht.allocate halloc hh
    exact ht'.put hnew hh hlt hroom _
  | close hget => exact ht.drop (mem_of_get hget)
  | duplicate halloc hh =>
    obtain ⟨ht', hnew, hlt, hroom, -⟩ := ht.allocate halloc hh
    exact ht'.put hnew hh hlt hroom _
  | reserve => exact ht.reserveLoop
  | activate hget => exact ht.set (mem_of_get hget) _
  | rollback handles => exact ht.rollbackNative handles
  | restrict halloc hh _ hget =>
    obtain ⟨ht', hnew, hlt, hroom, -⟩ := ht.allocate halloc hh
    have hsource := mem_of_get hget
    refine (ht'.set hsource _).put ⟨fun hmem => ?_, hnew.2⟩ hh hlt hroom _
    exact hnew.1 (mem_of_mem_set hsource hmem)
  | commitRestrict _ hsource hrestricted =>
    refine (ht.set (mem_of_get hrestricted) _).drop ?_
    exact (AList.mem_insert _).2 (.inr (mem_of_get hsource))
  | rollbackRestrict hne hsource hrestricted =>
    exact (ht.drop (mem_of_get hrestricted)).set
      (AList.mem_erase.2 ⟨hne, mem_of_get hsource⟩) _

lemma balanced_apply {t : ResourceTable} {out : List Handle} (ht : t.Balanced out)
    (o : TableOp) : (o.apply t).Balanced out := balanced_of_does ht (o.does t)

end

/-- What a handler of `dispatch_kernel_view` does with the batch of its request.  All of
them leave it alone but two: `register` of the service directory keeps one capability,
and `listen` keeps two. -/
inductive Handler where
  | keeps
  | registers (service : ℕ)
  | listens (listener descriptor : ℕ)
  deriving DecidableEq

/-- `take_object_to_table` on the resource of a record. -/
def takeObjectToTable (r : TransferRecord) : TransferRecord :=
  if r.resource.object.isSome then { r with resource := r.resource.movedFrom } else r

/-- The batch after the handler.  `register_service` insists on a moved capability,
`listen_service` takes what it is given. -/
def Handler.run : Handler → List TransferRecord → List TransferRecord
  | .keeps, records => records
  | .registers service, records =>
    records.modify service fun r => if r.moved then takeObjectToTable r else r
  | .listens listener descriptor, records =>
    (records.modify listener takeObjectToTable).modify descriptor takeObjectToTable

def Handler.taken : Handler → List ℕ
  | .keeps => []
  | .registers service => [service]
  | .listens listener descriptor => [listener, descriptor]

/-- `execute_kernel_dispatch`, as far as the batch is concerned: whether or not a handler
runs, the batch is restored at the end. -/
def executeKernelDispatch (self : ℕ) (t : ResourceTable) (s : InvocationState)
    (handler : Handler) (records : List TransferRecord) : ResourceTable :=
  if s.beginReceive.value then (restoreNativeBatch self t (handler.run records)).table
  else (restoreNativeBatch self t records).table

/-- The end of `process_spawn` and of `move_bootstrap_capability`: one resource of the
batch goes to a new table, and the batch is committed; or the new table is rolled back
and the batch is restored. -/
def moveToTable (self : ℕ) (source target : ResourceTable) (records : List TransferRecord)
    (index : ℕ) (allocated : Bool) : ResourceTable × ResourceTable :=
  let reserved := target.reserveNative 1 allocated
  match reserved.value.1, reserved.value.2.head?, records[index]? with
  | .ok, some h, some r =>
    let active := reserved.table.activateNative h r.resource.object r.resource.info
    if active.value = .ok then ((commitNativeBatch self source records).table, active.table)
    else ((restoreNativeBatch self source records).table, active.table.rollbackNative [h])
  | _, _, _ =>
    ((restoreNativeBatch self source records).table, reserved.table.rollbackNative reserved.value.2)

/-! ## The system -/

/-- The tables, and the transfers under way with the table each was taken from. -/
structure Accounts where
  tables : ℕ → ResourceTable := fun _ => {}
  transfers : List (ℕ × List TransferRecord) := []

open Accounts

/-- One step.  The ends of a transfer carry what their caller finds: the channel, the
protocol, the invocation or the new table. -/
inductive Action where
  | op (table : ℕ) (operation : TableOp)
  | fork (source target : ℕ) (allocated : Bool)
  | clear (table : ℕ)
  | take (table : ℕ) (ds : List Disposition) (target : Handle) (allocated : Bool)
  | rawSend (transfer : ℕ) (w : ChannelWorld) (c : ℕ) (sender : Side) (bytes : List (BitVec 8))
  | submit (transfer : ℕ) (p : ProtocolState) (b : ProtocolBudget) (r : InvocationRequest)
  | reply (transfer : ℕ) (s : InvocationState) (bytes : List (BitVec 8))
  | dispatch (transfer : ℕ) (s : InvocationState) (handler : Handler)
  | spawn (transfer target index : ℕ) (allocated : Bool)
  | restore (transfer : ℕ)

namespace Accounts

variable (s : Accounts)

def setTable (i : ℕ) (t : ResourceTable) : Accounts :=
  { s with tables := Function.update s.tables i t }

def finish (k : ℕ) : Accounts := { s with transfers := s.transfers.eraseIdx k }

/-- End a transfer that changes nothing but the table it was taken from. -/
def settle (k : ℕ) (f : ℕ → ResourceTable → List TransferRecord → ResourceTable) :
    Option Accounts :=
  (s.transfers[k]?).map fun p =>
    (s.setTable p.1 (f p.1 (s.tables p.1) p.2)).finish k

/-- The step function.  A step that names a transfer that does not exist, or a fork of a
table into itself, is no step. -/
def step : Action → Option Accounts
  | .op i o => some (s.setTable i (o.apply (s.tables i)))
  | .fork i j allocated =>
    if i = j then none
    else some (s.setTable j ((s.tables j).cloneForkBindings (s.tables i) allocated).table)
  | .clear i => some (s.setTable i (s.tables i).clear.table)
  | .take i ds target allocated =>
    let o := takeNativeBatch i (s.tables i) ds target allocated
    if o.value.1 = .ok then
      some { s.setTable i o.table with transfers := (i, o.value.2) :: s.transfers }
    else some (s.setTable i o.table)
  | .rawSend k w c sender bytes =>
    s.settle k fun i t records =>
      (enqueue i w t c sender (newMessage bytes records.length) records).table
  | .submit k p b r =>
    s.settle k fun i t records => (submitRequest i t p b { r with resources := records }).table
  | .reply k inv bytes => s.settle k fun i t records => (replyBatch i t inv bytes records).2.2
  | .dispatch k inv handler =>
    s.settle k fun i t records => executeKernelDispatch i t inv handler records
  | .spawn k j index allocated =>
    match s.transfers[k]? with
    | none => none
    | some p =>
      if p.1 = j then none
      else
        let o := moveToTable p.1 (s.tables p.1) (s.tables j) p.2 index allocated
        some (((s.setTable p.1 o.1).setTable j o.2).finish k)
  | .restore k => s.settle k fun i t records => (restoreNativeBatch i t records).table

def detached (i : ℕ) : List Handle :=
  s.transfers.flatMap fun p => if p.1 = i then heldHandles p.2 else []

end Accounts

/-- **The counters are right**: every table counts its entries and the nodes detached
from it, within the limit, and exactly its entries when no transfer from it is under
way. -/
structure Accounted (s : Accounts) : Prop where
  count : ∀ i, (s.tables i).nativeEntryCount
    = Assoc.size (s.tables i).nativeHandleMap + (s.detached i).length
  limit : ∀ i, (s.tables i).nativeEntryCount ≤ maxPerProcess
  settled : ∀ i, (∀ p ∈ s.transfers, p.1 ≠ i) →
    (s.tables i).nativeEntryCount = Assoc.size (s.tables i).nativeHandleMap

/-- The step loses no node: a raw send does not leave by the first two checks of
`enqueue` with a moved handle, a kernel handler takes no moved capability, and a table is
not cleared while a transfer holds one of its nodes. -/
def Action.sound (s : Accounts) : Action → Bool
  | .rawSend k w c _ bytes =>
    (s.transfers[k]?).all fun p =>
      !escapes (w.channels c) bytes p.2.length || (heldHandles p.2).isEmpty
  | .dispatch k inv handler =>
    (s.transfers[k]?).all fun p =>
      !inv.beginReceive.value || handler.taken.all fun i => (p.2[i]?).all fun r => !r.moved
  | .clear i => (s.detached i).isEmpty
  | _ => true

/-! ## What a transfer holds -/

/-- The records of a transfer are as `take_native_batch` made them. -/
def Intact (self : ℕ) (records : List TransferRecord) : Prop :=
  ∀ r ∈ records, r.holdsNode = true →
    r.token.context = self ∧ r.source ≠ 0 ∧ r.resource.object.isSome = true ∧
      ∃ e, r.token.slot = some (r.source, e)

lemma intact_take {self : ℕ} {t : ResourceTable} {ds : List Disposition} {target : Handle}
    {allocated : Bool} (h : (takeNativeBatch self t ds target allocated).value.1 = .ok) :
    Intact self (takeNativeBatch self t ds target allocated).value.2 := by
  obtain ⟨es, -, hall, -, heq⟩ := takeNativeBatch_ok h
  rw [heq]
  intro r hr hnode
  obtain ⟨p, hp, rfl⟩ := List.mem_map.1 hr
  have hc := hall p hp
  obtain ⟨o, ho, -⟩ := hc.object
  obtain ⟨e, hlook, -⟩ := hc.entry
  have hget : t.nativeHandleMap.lookup p.1.handle = some e :=
    (ResourceTable.lookupNative_eq_some.1 hlook).1
  have hop : p.1.operation = .move := by
    by_contra hop
    simp [TransferRecord.holdsNode, makeRecord, hop] at hnode
  simp [makeRecord, hop, ho, nodeOf, hget, hc.handle_ne_zero]

lemma mem_heldHandles {records : List TransferRecord} {r : TransferRecord} {e : Entry}
    (hr : r ∈ records) (hmoved : r.moved = true) (hslot : r.token.slot = some (r.source, e)) :
    r.source ∈ heldHandles records := by
  refine List.mem_map.2 ⟨(r.source, { e with object := r.resource.object, state := .active }),
    mem_filterMap.2 ⟨r, hr, ?_⟩, rfl⟩
  simp [TransferRecord.node, hmoved, hslot]

section Ends

variable {self : ℕ} {t : ResourceTable} {records : List TransferRecord} {out : List Handle}

lemma Intact.restorable_of_free (hi : Intact self records)
    (hfree : ∀ h ∈ heldHandles records, h ∉ t.nativeHandleMap) :
    ∀ r ∈ records, restorable self t r = true := by
  intro r hr
  by_cases hnode : r.holdsNode = true
  · obtain ⟨hcontext, hsource, hobject, e, hslot⟩ := hi r hr hnode
    have hmoved : r.moved = true := (Bool.and_eq_true_iff.1 hnode).1
    have hsourceFree := hfree r.source (mem_heldHandles hr hmoved hslot)
    simp [Capability.restorable, hcontext, hsource, hobject, hsourceFree]
  · simp [Capability.restorable, hnode]

variable (hi : Intact self records) (ht : t.Balanced (heldHandles records ++ out))
include hi ht

lemma Intact.restorable : ∀ r ∈ records, restorable self t r = true :=
  hi.restorable_of_free fun h hh => (ht.detached h (mem_append_left _ hh)).1

lemma Intact.balanced_restore : (restoreNativeBatch self t records).table.Balanced out :=
  ht.restore (hi.restorable ht)

lemma Intact.balanced_commit : (commitNativeBatch self t records).table.Balanced out :=
  ht.commit fun r hr hnode => (hi r hr hnode).1

omit hi ht in
lemma heldHandles_map_movedFrom (records : List TransferRecord) :
    heldHandles (records.map fun r => { r with resource := r.resource.movedFrom })
      = heldHandles records := by
  simp only [heldHandles, heldNodes, filterMap_map, map_filterMap]
  congr
  funext r
  cases hm : r.moved <;> simp [TransferRecord.node, hm, Function.comp_def]

/-- A raw send settles its batch, unless it leaves `enqueue` early with a node. -/
lemma Intact.balanced_enqueue (w : ChannelWorld) (c : ℕ) (sender : Side) (bytes : List (BitVec 8))
    (hsound : escapes (w.channels c) bytes records.length = true → heldHandles records = []) :
    (enqueue self w t c sender (newMessage bytes records.length) records).table.Balanced out := by
  cases hesc : escapes (w.channels c) bytes records.length with
  | true =>
    obtain ⟨status, -, henq⟩ := enqueue_of_escapes self t sender hesc
    rw [henq]
    rw [hsound hesc] at ht
    exact ht
  | false =>
    cases href : refused w c sender bytes records.length with
    | true =>
      obtain ⟨status, -, henq⟩ := enqueue_of_refused self t hesc href
      rw [henq]
      exact hi.balanced_restore ht
    | false =>
      obtain ⟨w', fifo, -, -, henq⟩ := enqueue_of_accepted self t hesc href
      rw [henq]
      refine ResourceTable.Balanced.commit ?_ ?_
      · rw [heldHandles_map_movedFrom]
        exact ht
      · intro r hr hnode
        obtain ⟨r', hr', rfl⟩ := List.mem_map.1 hr
        exact (hi r' hr' hnode).1

lemma Intact.balanced_submit (p : ProtocolState) (b : ProtocolBudget) (r : InvocationRequest) :
    (submitRequest self t p b { r with resources := records }).table.Balanced out := by
  rw [submitRequest]
  split
  · exact hi.balanced_restore ht
  · exact hi.balanced_commit ht

lemma Intact.balanced_reply (s : InvocationState) (bytes : List (BitVec 8)) :
    (replyBatch self t s bytes records).2.2.Balanced out := by
  rw [replyBatch]
  split
  · exact hi.balanced_commit ht
  · exact hi.balanced_restore ht

omit hi ht in
lemma modify_of_not_holdsNode (self : ℕ) {records : List TransferRecord}
    {f : TransferRecord → TransferRecord} {i : ℕ}
    (h : ∀ r, records[i]? = some r → r.holdsNode = false ∧ (f r).holdsNode = false) :
    heldHandles (records.modify i f) = heldHandles records ∧
      (Intact self records → Intact self (records.modify i f)) := by
  by_cases hi : i < records.length
  · obtain ⟨l, r, l', rfl, rfl, heq⟩ := exists_of_modify f hi
    obtain ⟨h1, h2⟩ := h r (by simp)
    rw [heq]
    refine ⟨?_, fun hi r' hr' hnode => ?_⟩
    · have happend : ∀ rs, heldNodes (l ++ rs) = heldNodes l ++ heldNodes rs :=
        fun _ => filterMap_append
      rw [heldHandles, heldHandles, happend, happend, heldNodes_cons_of_not h1,
        heldNodes_cons_of_not h2]
    · rcases mem_append.1 hr' with hr' | hr'
      · exact hi r' (mem_append_left _ hr') hnode
      · rcases mem_cons.1 hr' with rfl | hr'
        · exact absurd (h2.symm.trans hnode) Bool.false_ne_true
        · exact hi r' (mem_append_right _ (mem_cons_of_mem _ hr')) hnode
  · rw [modify_eq_self (not_lt.1 hi)]
    exact ⟨rfl, id⟩

omit hi ht in
lemma takeObjectToTable_holdsNode (r : TransferRecord) :
    (takeObjectToTable r).holdsNode = r.holdsNode := by
  rw [takeObjectToTable]
  split
  · rfl
  · rfl

omit hi ht in
lemma moved_takeObjectToTable (r : TransferRecord) : (takeObjectToTable r).moved = r.moved := by
  rw [takeObjectToTable]
  split
  · rfl
  · rfl

omit hi ht in
lemma Handler.run_spares (self : ℕ) {handler : Handler}
    (h : ∀ i ∈ handler.taken, ∀ r, records[i]? = some r → r.moved = false) :
    heldHandles (handler.run records) = heldHandles records ∧
      (Intact self records → Intact self (handler.run records)) := by
  have hnode : ∀ {r : TransferRecord}, r.moved = false → r.holdsNode = false := by
    intro r hr
    simp [TransferRecord.holdsNode, hr]
  cases handler with
  | keeps => exact ⟨rfl, id⟩
  | registers i =>
    apply modify_of_not_holdsNode self
    intro r hr
    have hmoved := h i (by simp [Handler.taken]) r hr
    simp [hmoved, hnode hmoved]
  | listens i j =>
    have hi : ∀ r, records[i]? = some r → r.moved = false := h i (by simp [Handler.taken])
    have hj : ∀ r, records[j]? = some r → r.moved = false := h j (by simp [Handler.taken])
    obtain ⟨h1, h2⟩ := modify_of_not_holdsNode self (f := takeObjectToTable)
      fun r hr => ⟨hnode (hi r hr), (takeObjectToTable_holdsNode r).trans (hnode (hi r hr))⟩
    obtain ⟨h3, h4⟩ := modify_of_not_holdsNode self (f := takeObjectToTable) (i := j) (by
        intro r (hr : (records.modify i takeObjectToTable)[j]? = some r)
        have hmoved : r.moved = false := by
          rw [List.getElem?_modify] at hr
          split at hr
          · obtain ⟨r', hr', rfl⟩ := map_eq_some_iff.1 hr
            exact (moved_takeObjectToTable r').trans (hj r' hr')
          · exact hj r (by simpa using hr)
        exact ⟨hnode hmoved, (takeObjectToTable_holdsNode r).trans (hnode hmoved)⟩)
    exact ⟨h3.trans h1, fun hi => h4 (h2 hi)⟩

lemma Intact.balanced_dispatch (s : InvocationState) (handler : Handler)
    (hsound : s.beginReceive.value = true →
      ∀ i ∈ handler.taken, ∀ r, records[i]? = some r → r.moved = false) :
    (executeKernelDispatch self t s handler records).Balanced out := by
  rw [executeKernelDispatch]
  split
  next hbegin =>
    obtain ⟨h1, h2⟩ := Handler.run_spares self (hsound hbegin)
    refine (h2 hi).balanced_restore ?_
    rw [h1]
    exact ht
  · exact hi.balanced_restore ht

lemma Intact.balanced_moveToTable {target : ResourceTable} {out' : List Handle}
    (htarget : target.Balanced out') (index : ℕ) (allocated : Bool) :
    (moveToTable self t target records index allocated).1.Balanced out ∧
      (moveToTable self t target records index allocated).2.Balanced out' := by
  have hreserved := balanced_apply htarget (.reserve 1 allocated)
  rw [moveToTable]
  dsimp only
  split
  next h r _ _ _ =>
    split
    · exact ⟨hi.balanced_commit ht, balanced_apply hreserved (.activate _ _ _)⟩
    · exact ⟨hi.balanced_restore ht, (balanced_apply hreserved (.activate _ _ _)).rollbackNative _⟩
  · exact ⟨hi.balanced_restore ht, hreserved.rollbackNative _⟩

end Ends

/-! ## The invariant -/

namespace Accounts

structure Inv (s : Accounts) : Prop where
  balanced : ∀ i, (s.tables i).Balanced (s.detached i)
  intact : ∀ p ∈ s.transfers, Intact p.1 p.2

lemma inv_init : Inv {} where
  balanced _ := ResourceTable.balanced_empty
  intact _ hp := absurd hp not_mem_nil

variable {s s' : Accounts} {i k : ℕ} {t : ResourceTable} {allocated : Bool}
  {p : ℕ × List TransferRecord} {ds : List Disposition} {target : Handle}

lemma tables_setTable_self (i : ℕ) (t : ResourceTable) : (s.setTable i t).tables i = t := by
  simp [setTable]

lemma tables_setTable_of_ne {j : ℕ} (h : j ≠ i) (t : ResourceTable) :
    (s.setTable i t).tables j = s.tables j := by
  simp [setTable, h]

@[simp] lemma detached_setTable (i j : ℕ) (t : ResourceTable) :
    (s.setTable i t).detached j = s.detached j := rfl

@[simp] lemma tables_finish (k : ℕ) : (s.finish k).tables = s.tables := rfl

@[simp] lemma detached_finish_setTable (i j k : ℕ) (t : ResourceTable) :
    ((s.setTable i t).finish k).detached j = (s.finish k).detached j := rfl

lemma Inv.setTable (hs : Inv s) (ht : t.Balanced (s.detached i)) :
    Inv (s.setTable i t) where
  balanced j := by
    by_cases hj : j = i
    · subst hj
      rw [tables_setTable_self, detached_setTable]
      exact ht
    · rw [tables_setTable_of_ne hj, detached_setTable]
      exact hs.balanced j
  intact := hs.intact

lemma detached_perm (hk : s.transfers[k]? = some p) (i : ℕ) :
    (s.detached i).Perm ((if p.1 = i then heldHandles p.2 else []) ++ (s.finish k).detached i) := by
  obtain ⟨hlt, hget⟩ := List.getElem?_eq_some_iff.1 hk
  have hperm := List.getElem_cons_eraseIdx_perm hlt
  rw [hget] at hperm
  exact (hperm.symm.flatMap_right _)

lemma Inv.finish (hs : Inv s)
    (hk : s.transfers[k]? = some p)
    (ht : (s.tables p.1).Balanced (heldHandles p.2 ++ (s.finish k).detached p.1) →
      t.Balanced ((s.finish k).detached p.1)) :
    Inv ((s.setTable p.1 t).finish k) where
  balanced i := by
    have hperm := detached_perm hk i
    by_cases hi : i = p.1
    · subst hi
      rw [if_pos rfl] at hperm
      rw [tables_finish, tables_setTable_self, detached_finish_setTable]
      exact ht ((hs.balanced p.1).perm hperm)
    · rw [if_neg fun h => hi h.symm, nil_append] at hperm
      rw [tables_finish, tables_setTable_of_ne hi, detached_finish_setTable]
      exact (hs.balanced i).perm hperm
  intact q hq := hs.intact q (mem_of_mem_eraseIdx hq)

lemma Inv.settle (hs : Inv s) {f : ℕ → ResourceTable → List TransferRecord → ResourceTable}
    (h : s.settle k f = some s')
    (hf : ∀ p, s.transfers[k]? = some p → ∀ {t : ResourceTable} {out : List Handle},
      Intact p.1 p.2 → t.Balanced (heldHandles p.2 ++ out) → (f p.1 t p.2).Balanced out) :
    Inv s' := by
  obtain ⟨p, hp, rfl⟩ := map_eq_some_iff.1 h
  exact hs.finish hp fun ht => hf p hp (hs.intact p (mem_of_getElem? hp)) ht

lemma Inv.begin (hs : Inv s) {records : List TransferRecord} (hi : Intact i records)
    (ht : t.Balanced (heldHandles records ++ s.detached i)) :
    Inv { s.setTable i t with transfers := (i, records) :: s.transfers } where
  balanced j := by
    rw [detached, flatMap_cons]
    by_cases hj : j = i
    · subst hj
      rw [if_pos rfl]
      exact (tables_setTable_self (s := s) j t).symm ▸ ht
    · rw [if_neg fun h => hj h.symm]
      exact (tables_setTable_of_ne (s := s) hj t).symm ▸ hs.balanced j
  intact := forall_mem_cons.2 ⟨hi, hs.intact⟩

lemma Inv.take (hs : Inv s)
    (h : s.step (.take i ds target allocated) = some s') : Inv s' := by
  rw [step] at h
  split at h
  next hok =>
    rw [Option.some.injEq] at h
    subst h
    exact hs.begin (intact_take hok) ((hs.balanced i).take hok)
  next hok =>
    rw [Option.some.injEq] at h
    subst h
    rw [takeNativeBatch_error hok]
    exact hs.setTable (hs.balanced i)

lemma Inv.spawn (hs : Inv s) {j index : ℕ}
    (h : s.step (.spawn k j index allocated) = some s') : Inv s' := by
  rw [step] at h
  split at h
  · simp at h
  rename_i p hp
  split at h
  · simp at h
  rename_i hne
  rw [Option.some.injEq] at h
  subst h
  have hperm := detached_perm hp j
  have hi := hs.intact p (mem_of_getElem? hp)
  have hpj : j ≠ p.1 := fun h => hne h.symm
  -- the new table is changed first; the transfer has nothing to do with its account
  have htarget : ∀ {out : List Handle}, (s.tables p.1).Balanced (heldHandles p.2 ++ out) →
      _ := fun ht => hi.balanced_moveToTable ht (hs.balanced j) index allocated
  have hmid := (hs.setTable (i := j) (htarget ((hs.balanced p.1).perm (by
    have h' := detached_perm hp p.1
    rwa [if_pos rfl] at h'))).2).finish (k := k) (p := p) hp
    (t := (moveToTable p.1 (s.tables p.1) (s.tables j) p.2 index allocated).1) (by
      rw [tables_setTable_of_ne fun h => hpj h.symm]
      intro ht
      exact (htarget ht).1)
  rw [Accounts.setTable, Accounts.setTable, Function.update_comm hpj] at hmid
  exact hmid

/-- **A sound step keeps the invariant.** -/
theorem inv_step (hs : Inv s) {a : Action} (hsound : a.sound s = true)
    (h : s.step a = some s') : Inv s' := by
  cases a with
  | op i o =>
    rw [step, Option.some.injEq] at h
    subst h
    exact hs.setTable (balanced_apply (hs.balanced i) o)
  | fork i j allocated =>
    rw [step] at h
    split at h
    · simp at h
    · rw [Option.some.injEq] at h
      subst h
      exact hs.setTable ((hs.balanced j).cloneForkBindings (hs.balanced i) allocated)
  | clear i =>
    rw [step, Option.some.injEq] at h
    subst h
    have hnone : s.detached i = [] := List.isEmpty_iff.1 hsound
    have ht := hs.balanced i
    rw [hnone] at ht
    apply hs.setTable
    rw [hnone]
    exact ht.clear
  | take i ds target allocated => exact hs.take h
  | rawSend k w c sender bytes =>
    rw [step] at h
    refine hs.settle h ?_
    intro p hp t out hi ht
    apply hi.balanced_enqueue ht
    intro hesc
    rw [Action.sound, hp, all_some, hesc] at hsound
    exact List.isEmpty_iff.1 hsound
  | submit k p b r =>
    rw [step] at h
    exact hs.settle h fun q _ _ _ hi ht => hi.balanced_submit ht p b r
  | reply k inv bytes =>
    rw [step] at h
    exact hs.settle h fun q _ _ _ hi ht => hi.balanced_reply ht inv bytes
  | dispatch k inv handler =>
    rw [step] at h
    refine hs.settle h ?_
    intro p hp t out hi ht
    apply hi.balanced_dispatch ht
    intro hbegin i hi' r hr
    rw [Action.sound, hp, all_some, hbegin, Bool.not_true, Bool.false_or,
      List.all_eq_true] at hsound
    have hmoved := hsound i hi'
    rw [hr, all_some] at hmoved
    simpa using hmoved
  | spawn k j index allocated => exact hs.spawn h
  | restore k =>
    rw [step] at h
    exact hs.settle h fun q _ _ _ hi ht => hi.balanced_restore ht

lemma Inv.accounted (hs : Inv s) : Accounted s where
  count i := (hs.balanced i).count
  limit i := (hs.balanced i).bounded
  settled i hi := by
    have hnone : s.detached i = [] := by
      rw [detached, flatMap_eq_nil_iff]
      intro p hp
      rw [if_neg (hi p hp)]
    have hcount := (hs.balanced i).count
    rw [hnone] at hcount
    exact hcount

end Accounts

/-- **In every run of sound steps the counters are right in every state reached.** -/
theorem accounted_of_sound (as : List Action) {s : Accounts}
    (hsound : Along step (fun s a => a.sound s = true) {} as)
    (hrun : exec step {} as = some s) : Accounted s :=
  Accounts.Inv.accounted (exec_induct (fun _ _ _ hs ha h => inv_step hs ha h) inv_init hsound hrun)

/-- A file is moved to a kernel view that refuses the call, while another thread opens a
second file and a child is forked. -/
def refusedCall : List Action :=
  [.op 0 (.install (some (.plain .file 7)) {}),
    .take 0 [{ handle := 1, operation := .move }] 9 true,
    .op 0 (.install (some (.plain .file 8)) {}),
    .fork 0 1 true,
    .dispatch 0 {} .keeps]

theorem accounted_refusedCall : ∃ s, exec step {} refusedCall = some s ∧ Accounted s :=
  ⟨_, rfl, accounted_of_sound refusedCall (by decide) rfl⟩

/-- A process registers a service: it moves a capability to the service directory, whose
handler keeps it. -/
def registration : List Action :=
  [.op 0 (.install (some (.protocolEndpoint 3 .client)) {}),
    .take 0 [{ handle := 1, operation := .move }] 9 true,
    .dispatch 0 {} (.registers 0)]

/-- After a registration the handle is gone and still counted. -/
theorem not_accounted_registration : ∃ s, exec step {} registration = some s ∧ ¬ Accounted s :=
  ⟨_, rfl, fun h => absurd (h.count 0) (by decide)⟩

end Naos.Ipc
