import Naos.Ipc.Accounting

/-!
# Unique capabilities

An object with `capability_is_unique()` should have one holder at a time.  A holder is an
entry of some table, the record of a transfer under way, a resource inside a message, a
request or a response, or the service directory.  This module puts all of them into one
state and follows an object through every operation that can move or copy a capability.

Every operation but one asks the object before it copies.  `clone_fork_bindings` asks the
rights of the entry instead.
-/

namespace Naos.Ipc

open Capability Transition List Option ResourceTable Assoc Counter

/-! ## Who holds an object -/

def holds (o : KObject) (object : Option KObject) : ℕ := if object = some o then 1 else 0

@[simp] lemma holds_none (o : KObject) : holds o none = 0 := rfl

@[simp] lemma holds_self (o : KObject) : holds o (some o) = 1 := if_pos rfl

def tableHolders (o : KObject) (t : ResourceTable) : ℕ :=
  total (fun e => holds o e.object) t.nativeHandleMap

def recordHolders (o : KObject) (records : List TransferRecord) : ℕ :=
  (records.map fun r => holds o r.resource.object).sum

/-- `directory::entry`: a registered service. -/
structure Service where
  uri : String
  object : Option KObject
  metadata : Metadata
  oneShot : Bool
  deriving DecidableEq

structure Listener where
  uri : String
  sendEndpoint : Option KObject
  descriptor : Option KObject
  deriving DecidableEq

/-- Everything that can hold a capability: the tables, the transfers under way with the
table each was taken from, the resources in messages, requests and responses, and the
service directory. -/
structure Holdings where
  tables : List ResourceTable := []
  transfers : List (ℕ × List TransferRecord) := []
  cargo : List TransferredResource := []
  services : List Service := []
  listeners : List Listener := []
  forked : List (KObject × Metadata) := []

def Holdings.holders (s : Holdings) (o : KObject) : ℕ :=
  (s.tables.map (tableHolders o)).sum + (s.transfers.map fun p => recordHolders o p.2).sum +
    (s.cargo.map fun r => holds o r.object).sum +
    (s.services.map fun v => holds o v.object).sum +
    (s.listeners.map fun l => holds o l.sendEndpoint + holds o l.descriptor).sum

/-! ## The operations -/

inductive Movement where
  | newTable
  | op (table : ℕ) (operation : TableOp)
  | clear (table : ℕ)
  /-- `clone_fork_bindings` of `target` from `source`. -/
  | fork (source target : ℕ) (allocated : Bool)
  | take (table : ℕ) (ds : List Disposition) (target : Handle) (allocated : Bool)
  /-- `restore_native_batch`; what is left of the records is destroyed. -/
  | restore (transfer : ℕ)
  /-- The batch is committed and its resources are in a message, a request or a response. -/
  | ship (transfer : ℕ)
  | abandon (transfer : ℕ)
  /-- A resource arrives in a table: `receive`, `take_result`, the end of a spawn. -/
  | deliver (parcel table : ℕ) (h : Handle)
  | discard (parcel : ℕ)
  /-- The kernel puts an object of its own into a message or a response: the server end of
  a connection, a responder, the result of a kernel method. -/
  | produce (object : KObject) (metadata : Metadata)
  /-- `register_service` on a record of a dispatched request. -/
  | register (transfer record : ℕ) (uri : String) (oneShot : Bool)
  | registerKernel (object : KObject) (metadata : Metadata) (uri : String) (oneShot : Bool)
  /-- `listen_service` on two records of a dispatched request. -/
  | listen (transfer endpoint descriptor : ℕ) (uri : String)
  | resolve (uri : String)
  /-- `unregister_service`, or the exit of the owner. -/
  | unregister (service : ℕ)
  | retire (listener : ℕ)

/-- The objects `listen_service` can work with; it casts them without a look at their types, and
with others its result is not defined. -/
def Listener.acceptable (l : Listener) : Bool :=
  match l.sendEndpoint, l.descriptor with
  | some (.rawChannelEnd _ _), some (.plain .protocolDescriptor _) => true
  | _, _ => false

def copiedBy (source : ResourceTable) : List (KObject × Metadata) :=
  (toPairs source.clonable).filterMap fun p => p.2.object.map fun o => (o, p.2.info)

namespace Holdings

variable (s : Holdings)

def setTable (i : ℕ) (t : ResourceTable) : Holdings := { s with tables := s.tables.set i t }

def setTransfer (k : ℕ) (p : ℕ × List TransferRecord) : Holdings :=
  { s with transfers := s.transfers.set k p }

def finish (k : ℕ) : Holdings := { s with transfers := s.transfers.eraseIdx k }

/-- `register_service`: only a moved capability that is still there may be registered,
and only under a new name. -/
def register (k i : ℕ) (uri : String) (oneShot : Bool) : Option Holdings :=
  match s.transfers[k]? with
  | none => none
  | some (pid, records) =>
    match records[i]? with
    | none => none
    | some r =>
      if r.moved = false ∨ r.resource.object = none ∨ s.services.any (·.uri == uri) then some s
      else
        some { s.setTransfer k (pid, records.set i (takeObjectToTable r)) with
          services := s.services ++ [⟨uri, r.resource.object, r.resource.info, oneShot⟩] }

/-- `listen_service`: both objects leave their records.  They are kept if they are an
endpoint and a descriptor and the name is free, and released otherwise. -/
def listen (k i j : ℕ) (uri : String) : Option Holdings :=
  match s.transfers[k]? with
  | none => none
  | some (pid, records) =>
    match records[i]?, records[j]? with
    | some ri, some rj =>
      if i = j then none
      else
        let l : Listener := ⟨uri, ri.resource.object, rj.resource.object⟩
        let taken := (records.set i (takeObjectToTable ri)).set j (takeObjectToTable rj)
        let s' := s.setTransfer k (pid, taken)
        if l.acceptable && !s.services.any (·.uri == uri) && !s.listeners.any (·.uri == uri) then
          some { s' with listeners := s.listeners ++ [l] }
        else some s'
    | _, _ => none

/-- `resolve_service`: a service for one client, or a unique object, leaves the
directory; any other object is copied. -/
def resolve (uri : String) : Holdings :=
  match s.services.findIdx? (·.uri == uri) with
  | none => s
  | some i =>
    match s.services[i]? with
    | none => s
    | some v =>
      match v.object with
      | none => s
      | some o =>
        let s' := { s with
          cargo := ⟨some o, v.metadata, true⟩ :: s.cargo }
        if v.oneShot || o.capabilityIsUnique then
          { s' with services := s.services.eraseIdx i }
        else s'

def step : Movement → Option Holdings
  | .newTable => some { s with tables := s.tables ++ [{}] }
  | .op i o => (s.tables[i]?).map fun t => s.setTable i (o.apply t)
  | .clear i => (s.tables[i]?).map fun t => s.setTable i t.clear.table
  | .fork i j allocated =>
    match s.tables[i]?, s.tables[j]? with
    | some source, some t =>
      if i = j then none
      else
        some { s.setTable j (t.cloneForkBindings source allocated).table with
          forked := copiedBy source ++ s.forked }
    | _, _ => none
  | .take i ds target allocated =>
    (s.tables[i]?).map fun t =>
      let o := takeNativeBatch i t ds target allocated
      if o.value.1 = .ok then
        { s.setTable i o.table with transfers := (i, o.value.2) :: s.transfers }
      else s.setTable i o.table
  | .restore k =>
    match s.transfers[k]? with
    | none => none
    | some (i, records) =>
      (s.tables[i]?).map fun t =>
        (s.setTable i (restoreNativeBatch i t records).table).finish k
  | .ship k =>
    match s.transfers[k]? with
    | none => none
    | some (i, records) =>
      (s.tables[i]?).map fun t =>
        { (s.setTable i (commitNativeBatch i t records).table).finish k with
          cargo := records.map TransferRecord.resource ++ s.cargo }
  | .abandon k => (s.transfers[k]?).map fun _ => s.finish k
  | .deliver c i h =>
    match s.cargo[c]?, s.tables[i]? with
    | some r, some t =>
      let o := t.activateNative h r.object r.info
      if o.value = .ok then some { s.setTable i o.table with cargo := s.cargo.eraseIdx c }
      else some s
    | _, _ => none
  | .discard c => (s.cargo[c]?).map fun _ => { s with cargo := s.cargo.eraseIdx c }
  | .produce o m => some { s with cargo := ⟨some o, m, true⟩ :: s.cargo }
  | .register k i uri oneShot => s.register k i uri oneShot
  | .registerKernel o m uri oneShot =>
    if s.services.any (·.uri == uri) then some s
    else some { s with services := s.services ++ [⟨uri, some o, m, oneShot⟩] }
  | .listen k i j uri => s.listen k i j uri
  | .resolve uri => some (s.resolve uri)
  | .unregister i => (s.services[i]?).map fun _ => { s with services := s.services.eraseIdx i }
  | .retire i => (s.listeners[i]?).map fun _ => { s with listeners := s.listeners.eraseIdx i }

end Holdings

/-! ## The ends of a protocol -/

/-- The part of `na_protocol_descriptor_t` that the endpoints of a protocol depend on. -/
structure Descriptor where
  uuid : BitVec 128 := 0
  scope : Scope
  revision : ℕ := 1
  features : Mask := 0
  protocolRights : Mask := 0
  maxRequestBytes : ℕ := 0

/-- `na_protocol_endpoint_options_t`, as it is read from the caller. -/
structure EndpointOptions where
  flags : ℕ := 0
  clientMetaRights : Mask := 0
  serverMetaRights : Mask := 0
  maxMessages : ℕ := 0
  maxBytes : ℕ := 0
  maxResources : ℕ := 0
  reserved0 : ℕ := 0
  clientProtocolRights : Mask := 0
  serverProtocolRights : Mask := 0

def EndpointOptions.initial (d : Descriptor) : EndpointOptions where
  clientMetaRights := rightDuplicate ||| rightTransfer ||| rightWait ||| rightInspect
  serverMetaRights := rightTransfer ||| rightWait ||| rightInspect
  clientProtocolRights := d.protocolRights
  serverProtocolRights := d.protocolRights
  maxMessages := 64
  maxBytes := if d.maxRequestBytes = 0 then 2 ^ 20 else d.maxRequestBytes * 4
  maxResources := Capability.maxResources

namespace EndpointOptions

variable (o : EndpointOptions) (d : Descriptor)

def withDefaults : EndpointOptions :=
  { o with
    maxMessages := if o.maxMessages = 0 then 64 else o.maxMessages
    maxBytes := if o.maxBytes = 0 then 2 ^ 20 else o.maxBytes
    maxResources := if o.maxResources = 0 then Capability.maxResources else o.maxResources }

/-- The rights of the client end over its handle.  The terminal protocols take the right
to duplicate away, whatever the options say. -/
def clientMeta : Mask :=
  if d.scope = .terminalMaster ∨ d.scope = .terminalSlave then
    o.clientMetaRights &&& ~~~rightDuplicate
  else o.clientMetaRights

def clientRights : Mask :=
  if o.clientProtocolRights = 0 then d.protocolRights else o.clientProtocolRights

def serverRights : Mask :=
  if o.serverProtocolRights = 0 then d.protocolRights else o.serverProtocolRights

def inRange : Bool :=
  o.maxMessages ≤ 1024 && o.maxBytes ≤ 65536 * 16 && o.maxResources ≤ Capability.maxResources &&
    within (o.clientMeta d) (rightDuplicate ||| rightTransfer ||| rightWait ||| rightInspect) &&
    within o.serverMetaRights (rightTransfer ||| rightWait ||| rightInspect)

end EndpointOptions

def rightInvoke : Mask := 1

def clientMetadata (d : Descriptor) (o : EndpointOptions) : Metadata where
  binding := .clientEnd
  protocolUuid := d.uuid
  scope := d.scope
  revision := d.revision
  features := d.features
  metaRights := o.clientMeta d
  protocolRights := o.clientRights d ||| rightInvoke

/-- `create_protocol_endpoint_objects`: the metadata of the client end and of the server
end.  The server end starts as a copy of the client end, so it has the client's rights
over its handle and not the ones the options give it. -/
def createProtocolEndpointObjects (d : Descriptor) (options : Option EndpointOptions) :
    Except Status (Metadata × Metadata) :=
  let o := (options.map EndpointOptions.withDefaults).getD (.initial d)
  if options.any fun o => o.flags ≠ 0 ∨ o.reserved0 ≠ 0 then .error .invalidArgument
  else if !within (o.clientRights d) d.protocolRights ||
      !within (o.serverRights d) d.protocolRights then
    .error .accessDenied
  else if !o.inRange d then .error .invalidArgument
  else if d.scope = .unset then .error .resourceExhausted
  else
    .ok (clientMetadata d o,
      { clientMetadata d o with
        binding := .serverEnd
        protocolRights := o.serverRights d ||| rightInvoke })

/-! ## The property and the condition -/

def terminalClient (m : Metadata) : Bool :=
  m.binding == .clientEnd && (m.scope == .terminalMaster || m.scope == .terminalSlave)

/-- **Unique objects are held once**, but for the terminal client ends that a fork has
copied. -/
def HeldOnce (s : Holdings) : Prop :=
  ∀ o, o.capabilityIsUnique = true →
    s.holders o ≤ 1 ∨ ∃ m, (o, m) ∈ s.forked ∧ terminalClient m = true

def TableOp.brings : TableOp → Option KObject
  | .install object _ => object
  | .activate _ object _ => object
  | _ => none

def Movement.brings : Movement → Option KObject
  | .op _ o => o.brings
  | .produce o _ => some o
  | .registerKernel o _ _ _ => some o
  | _ => none

/-- What is brought in is new or need not be unique, and a fork copies no unique object
but the client ends of the terminal scopes. -/
def Movement.keepsUnique (s : Holdings) (a : Movement) : Bool :=
  (a.brings.all fun o => !o.capabilityIsUnique || s.holders o == 0) &&
    match a with
    | .fork i _ _ =>
      (s.tables[i]?).all fun source =>
        (copiedBy source).all fun p => !p.1.capabilityIsUnique || terminalClient p.2
    | _ => true

/-! ## The tables -/

section Tables

variable {t : ResourceTable} {o : KObject}

lemma tableHolders_put_le (o : KObject) (t : ResourceTable) (h : Handle) (e : Entry) :
    tableHolders o (t.put h e) ≤ tableHolders o t + holds o e.object :=
  total_insert_le _ _ _ _

variable {e : Entry} {h : Handle}

lemma tableHolders_set (hget : t.get h = some e) (o : KObject) (e' : Entry) :
    tableHolders o (t.set h e') + holds o e.object = tableHolders o t + holds o e'.object :=
  total_insert_of_lookup hget (fun e => holds o e.object) e'

lemma tableHolders_drop (hget : t.get h = some e) (o : KObject) :
    tableHolders o (t.drop h) + holds o e.object = tableHolders o t :=
  total_erase_of_lookup hget fun e => holds o e.object

lemma tableHolders_drop_le (o : KObject) (t : ResourceTable) (h : Handle) :
    tableHolders o (t.drop h) ≤ tableHolders o t :=
  total_erase_le _ _ _

lemma tableHolders_allocate {t' : ResourceTable} (halloc : t.allocateNativeHandleLocked = (h, t'))
    (o : KObject) : tableHolders o t' = tableHolders o t := by
  rw [tableHolders, tableHolders, map_allocate halloc]

lemma holds_of_not_unique {o' : KObject} (ho : o.capabilityIsUnique = true)
    (ho' : o'.capabilityIsUnique = false) : holds o (some o') = 0 := by
  refine if_neg ?_
  rintro ⟨⟩
  simp [ho] at ho'

lemma tableHolders_reserveLoop (o : KObject) (n : ℕ) (t : ResourceTable) :
    tableHolders o (reserveLoop n [] t).table ≤ tableHolders o t := by
  refine reserveLoop_induct (P := fun _ t₁ => tableHolders o t₁ ≤ tableHolders o t) ?_
    (fun _ _ => id) (fun _ _ => (total_eraseAll_le _ _ _).trans) le_rfl
  intro handles t₁ h t' hle halloc hh
  have hput := tableHolders_put_le o t' h { generation := h }
  rw [tableHolders_allocate halloc o, holds_none] at hput
  omega

lemma tableHolders_rollbackNative (o : KObject) (handles : List Handle) (t : ResourceTable) :
    tableHolders o (t.rollbackNative handles) ≤ tableHolders o t :=
  rollbackNative_induct (P := fun t₁ => tableHolders o t₁ ≤ tableHolders o t) le_rfl
    fun h _ t₁ _ hle _ _ => (tableHolders_drop_le o t₁ h).trans hle

lemma TableOp.Does.tableHolders_le {t' : ResourceTable} {op : TableOp} {hooks : List Hook}
    (h : op.Does t t' hooks) (ho : o.capabilityIsUnique = true) :
    tableHolders o t' ≤ tableHolders o t + holds o op.brings := by
  cases h with
  | refused => exact Nat.le_add_right _ _
  | install halloc =>
    rw [← tableHolders_allocate halloc o]
    exact tableHolders_put_le _ _ _ _
  | close => exact tableHolders_drop_le _ _ _
  | @duplicate h t' halloc _ e _ object hobject hshared _ _ granted =>
    have hput := tableHolders_put_le o t' h
      { e with generation := h, info := { e.info with metaRights := granted } }
    have hzero : holds o e.object = 0 := by rw [hobject, holds_of_not_unique ho hshared]
    rw [tableHolders_allocate halloc o] at hput
    dsimp only at hput ⊢
    omega
  | reserve count => exact tableHolders_reserveLoop o count t
  | activate hget hreserved object info =>
    have hset := tableHolders_set hget o { object := some object, state := .active, info }
    exact le_of_add_le_left hset.le
  | rollback handles => exact tableHolders_rollbackNative o handles t
  | @restrict h t' halloc hh source e _ hget' _ r =>
    have hset := tableHolders_set hget' o { e with state := .restricting }
    have hput := tableHolders_put_le o (t'.set source { e with state := .restricting }) h
      { generation := h, state := .reserved, info := restrictedInfo e.info r }
    rw [tableHolders_allocate halloc o] at hset
    dsimp only [TableOp.brings] at hset hput ⊢
    omega
  | @commitRestrict source restricted hne e p hsource hrestricted _ object hobject =>
    have hset := tableHolders_set hrestricted o { p with object := some object, state := .active }
    have hget := get_set_of_ne (t := t) hne { p with object := some object, state := .active }
    have hdrop := tableHolders_drop (hget.trans hsource) o
    rw [hobject] at hdrop
    dsimp only at hset hdrop ⊢
    omega
  | @rollbackRestrict source restricted hne e p hsource hrestricted =>
    have hset := tableHolders_set ((get_drop_of_ne hne).trans hsource) o { e with state := .active }
    have hdrop := tableHolders_drop_le o t restricted
    dsimp only at hset ⊢
    omega

/-- **An operation of one table** adds no holder of a unique object but the one it is
given. -/
theorem tableHolders_apply (ho : o.capabilityIsUnique = true) (t : ResourceTable) (op : TableOp) :
    tableHolders o (op.apply t) ≤ tableHolders o t + holds o op.brings :=
  (op.does t).tableHolders_le ho

lemma tableHolders_cloneForkBindings {source : ResourceTable}
    (hnot : ∀ m, (o, m) ∉ copiedBy source) (t : ResourceTable) (allocated : Bool) :
    tableHolders o (t.cloneForkBindings source allocated).table ≤ tableHolders o t := by
  rw [cloneForkBindings]
  iterate 3
    split
    · exact le_rfl
  · have hclone : total (fun e : Entry => holds o e.object) source.clonable = 0 := by
      refine sum_eq_zero fun n hn => ?_
      obtain ⟨⟨h, e⟩, he, rfl⟩ := List.mem_map.1 hn
      refine if_neg fun (hobject : e.object = some o) => hnot e.info ?_
      exact mem_filterMap.2 ⟨(h, e), List.mem_map.2 ⟨_, he, rfl⟩, by simp [hobject]⟩
    have hunion := total_union_le (fun e : Entry => holds o e.object) source.clonable
      t.nativeHandleMap
    rw [hclone] at hunion
    exact hunion.trans (by rw [Nat.zero_add]; exact le_rfl)

end Tables

/-! ## The transfers -/

section Transfers

variable {o : KObject}

@[simp] lemma recordHolders_cons (o : KObject) (r : TransferRecord) (rs : List TransferRecord) :
    recordHolders o (r :: rs) = holds o r.resource.object + recordHolders o rs := rfl

lemma total_eraseAll_movedHandles (o : KObject) {es : List (Disposition × Entry)}
    (hnodup : (es.map fun p => p.1.handle).Nodup) :
    ∀ m : Assoc.Map Handle Entry,
      (∀ p ∈ es, ∃ e, m.lookup p.1.handle = some e ∧ e.object = p.2.object) →
      total (fun e => holds o e.object) (eraseAll (movedHandles es) m) +
          (es.map fun p => if p.1.operation = .move then holds o p.2.object else 0).sum
        = total (fun e => holds o e.object) m := by
  intro m hmem
  have hsum := total_eraseAll (m := m) (fun e : Entry => holds o e.object)
    (nodup_movedHandles hnodup) fun _ _ => rfl
  rw [← hsum, sum_map_ite, movedHandles, List.map_map]
  simp only [map_const', sum_replicate, smul_zero, Nat.add_zero]
  congr 2
  refine map_congr_left fun p hp => ?_
  obtain ⟨e, hlook, hobject⟩ := hmem p (mem_of_mem_filter hp)
  rw [Function.comp_apply, hlook, Option.elim_some, hobject]

lemma recordHolders_recordsOf (o : KObject) (pid : ℕ) (t : ResourceTable)
    (es : List (Disposition × Entry)) :
    recordHolders o (recordsOf pid t es) = (es.map fun p => holds o p.2.object).sum := by
  rw [recordHolders, recordsOf, List.map_map]
  rfl

/-- **Taking a batch** moves the holder of a unique object into its record. -/
theorem holders_takeNativeBatch (ho : o.capabilityIsUnique = true) {pid : ℕ} {t : ResourceTable}
    {ds : List Disposition} {target : Handle} {allocated : Bool}
    (hok : (takeNativeBatch pid t ds target allocated).value.1 = .ok) :
    tableHolders o (takeNativeBatch pid t ds target allocated).table +
      recordHolders o (takeNativeBatch pid t ds target allocated).value.2 ≤ tableHolders o t := by
  obtain ⟨es, -, hall, hnodup, heq⟩ := takeNativeBatch_ok hok
  have hmoves : (es.map fun p => if p.1.operation = .move then holds o p.2.object else 0)
      = es.map fun p => holds o p.2.object := by
    refine map_congr_left ?_
    intro p hp
    by_cases hop : p.1.operation = .move
    · rw [if_pos hop]
    · obtain ⟨o', ho', hunique⟩ := (hall p hp).object
      have hcopied := hunique ((hall p hp).operation.resolve_left hop)
      rw [if_neg hop, ho', holds_of_not_unique ho hcopied]
  have hexact := total_eraseAll_movedHandles o hnodup t.nativeHandleMap fun p hp => by
    obtain ⟨e, hlook, he⟩ := (hall p hp).entry
    exact ⟨e, (lookupNative_eq_some.1 hlook).1, by rw [he]; rfl⟩
  rw [hmoves] at hexact
  rw [heq]
  rw [recordHolders_recordsOf]
  exact hexact.le

variable (o) (pid : ℕ) (t : ResourceTable) (records : List TransferRecord)

lemma holders_attachLoop (rs : List TransferRecord) : ∀ m : Assoc.Map Handle Entry,
      total (fun e => holds o e.object) (attachLoop rs m).2.2 ≤
        total (fun e => holds o e.object) m + recordHolders o rs := by
  induction rs with
  | nil =>
    intro m
    exact le_rfl
  | cons r rs ih =>
    intro m
    rw [attachLoop, recordHolders_cons]
    split
    next h node hmoved hslot =>
      split
      · exact Nat.le_add_right _ _
      · have hrest := ih (m.insert h { node with object := r.resource.object, state := .active })
        have hins := total_insert_le (fun e : Entry => holds o e.object) m h
          { node with object := r.resource.object, state := .active }
        dsimp only at hrest hins ⊢
        omega
    · have hrest := ih m
      dsimp only
      omega

lemma holders_restoreNativeBatch :
    tableHolders o (restoreNativeBatch pid t records).table ≤
      tableHolders o t + recordHolders o records := by
  have hloop := holders_attachLoop o records t.nativeHandleMap
  rw [restoreNativeBatch]
  split
  · split
    next heq =>
      rw [heq] at hloop
      exact hloop
    next heq =>
      rw [heq] at hloop
      exact hloop
  · exact Nat.le_add_right _ _

lemma tableHolders_commitNativeBatch :
    tableHolders o (commitNativeBatch pid t records).table = tableHolders o t := by
  rw [tableHolders, nativeHandleMap_commitNativeBatch]
  rfl

lemma holds_takeObjectToTable (r : TransferRecord) :
    holds o (takeObjectToTable r).resource.object = 0 := by
  rw [takeObjectToTable]
  split
  · rfl
  next h =>
    rw [not_isSome_iff_eq_none] at h
    rw [h, holds_none]

end Transfers

/-! ## The system -/

namespace Holdings

variable {s : Holdings} {o : KObject}

variable {i k : ℕ} {p : ℕ × List TransferRecord} {s' : Holdings} {uri : String} {a : Movement}

lemma holders_setTable {t : ResourceTable} (h : s.tables[i]? = some t) (t' : ResourceTable)
    (o : KObject) :
    (s.setTable i t').holders o + tableHolders o t = s.holders o + tableHolders o t' := by
  have hset := sum_map_set (tableHolders o) h t'
  simp only [holders, setTable]
  omega

lemma holders_setTransfer (h : s.transfers[k]? = some p) (p' : ℕ × List TransferRecord)
    (o : KObject) :
    (s.setTransfer k p').holders o + recordHolders o p.2 = s.holders o + recordHolders o p'.2 := by
  have hset := sum_map_set (fun p : ℕ × List TransferRecord => recordHolders o p.2) h p'
  simp only [holders, setTransfer]
  omega

lemma holders_finish (h : s.transfers[k]? = some p) (o : KObject) :
    (s.finish k).holders o + recordHolders o p.2 = s.holders o := by
  have herase := sum_map_eraseIdx (fun p : ℕ × List TransferRecord => recordHolders o p.2) h
  simp only [holders, finish]
  omega

lemma holders_register {oneShot : Bool} (h : s.register k i uri oneShot = some s') (o : KObject) :
    s'.holders o ≤ s.holders o := by
  rw [register] at h
  split at h
  · simp at h
  rename_i pid records htransfer
  split at h
  · simp at h
  rename_i r hr
  split at h
  · cases h
    exact le_rfl
  cases h
  have hset := holders_setTransfer htransfer (pid, records.set i (takeObjectToTable r)) o
  have hrecord := sum_map_set (fun r : TransferRecord => holds o r.resource.object) hr
    (takeObjectToTable r)
  rw [holds_takeObjectToTable] at hrecord
  simp only [holders, setTransfer, recordHolders, map_append, map_cons, map_nil,
    sum_append, sum_cons, sum_nil] at hset ⊢
  omega

lemma holders_listen {j : ℕ} (h : s.listen k i j uri = some s') (o : KObject) :
    s'.holders o ≤ s.holders o := by
  rw [listen] at h
  split at h
  · simp at h
  rename_i pid records htransfer
  split at h
  next ri rj hi hj =>
    split at h
    · simp at h
    rename_i hij
    have hj' : (records.set i (takeObjectToTable ri))[j]? = some rj := by
      rw [getElem?_set_ne hij]
      exact hj
    have hset := holders_setTransfer htransfer
      (pid, (records.set i (takeObjectToTable ri)).set j (takeObjectToTable rj)) o
    have hfirst := sum_map_set (fun r : TransferRecord => holds o r.resource.object) hi
      (takeObjectToTable ri)
    have hsecond := sum_map_set (fun r : TransferRecord => holds o r.resource.object) hj'
      (takeObjectToTable rj)
    rw [holds_takeObjectToTable] at hfirst hsecond
    dsimp only at h
    split at h
    · cases h
      simp only [holders, setTransfer, recordHolders, map_append, map_cons,
        map_nil, sum_append, sum_cons, sum_nil] at hset ⊢
      omega
    · cases h
      simp only [recordHolders] at hset
      omega
  · simp at h

lemma holders_resolve (ho : o.capabilityIsUnique = true) (s : Holdings) (uri : String) :
    (s.resolve uri).holders o ≤ s.holders o := by
  rw [resolve]
  split
  · exact le_rfl
  split
  · exact le_rfl
  rename_i v hv
  split
  · exact le_rfl
  rename_i o' hobject
  split
  · have herase := sum_map_eraseIdx (fun v : Service => holds o v.object) hv
    rw [hobject] at herase
    simp only [holders, map_cons, sum_cons]
    omega
  rename_i hshared
  have hother : o'.capabilityIsUnique = false := by
    cases hcase : o'.capabilityIsUnique
    · rfl
    · simp [hcase] at hshared
  simp only [holders, map_cons, sum_cons, holds_of_not_unique ho hother]
  omega

/-- **What one step does to the holders of a unique object**: it adds none but the one it
brings in, unless a fork copies the object. -/
theorem holders_step (ho : o.capabilityIsUnique = true) (h : s.step a = some s') :
    s'.holders o ≤ s.holders o + holds o a.brings ∨
      ∃ i j allocated source m, a = .fork i j allocated ∧ s.tables[i]? = some source ∧
        (o, m) ∈ copiedBy source ∧ (o, m) ∈ s'.forked := by
  cases a with
  | newTable =>
    cases h
    left
    simp [holders, tableHolders]
  | op i op =>
    left
    obtain ⟨t, ht, rfl⟩ := map_eq_some_iff.1 h
    have hset := holders_setTable ht (op.apply t) o
    have hop := tableHolders_apply ho t op
    simp only [Movement.brings]
    omega
  | clear i =>
    left
    obtain ⟨t, ht, rfl⟩ := map_eq_some_iff.1 h
    have hset := holders_setTable ht t.clear.table o
    have hclear : tableHolders o t.clear.table = 0 := rfl
    omega
  | fork i j allocated =>
    rw [step] at h
    split at h
    next source t hsource ht =>
      split at h
      · simp at h
      cases h
      by_cases hcopied : ∃ m, (o, m) ∈ copiedBy source
      · right
        obtain ⟨m, hm⟩ := hcopied
        exact ⟨i, j, allocated, source, m, rfl, hsource, hm, mem_append_left _ hm⟩
      · left
        have hset := holders_setTable ht (t.cloneForkBindings source allocated).table o
        have hfork := tableHolders_cloneForkBindings (fun m hm => hcopied ⟨m, hm⟩) t allocated
        exact Nat.le_add_right_of_le (by
          change (s.setTable j (t.cloneForkBindings source allocated).table).holders o ≤ _
          omega)
    · simp at h
  | take i ds target allocated =>
    left
    obtain ⟨t, ht, rfl⟩ := map_eq_some_iff.1 h
    have hset := holders_setTable ht (takeNativeBatch i t ds target allocated).table o
    dsimp only
    split
    next hok =>
      have htake := holders_takeNativeBatch ho hok
      simp only [holders, setTable, map_cons, sum_cons] at hset ⊢
      omega
    next hfail =>
      rw [takeNativeBatch_error hfail] at hset ⊢
      omega
  | restore k =>
    left
    rw [step] at h
    split at h
    · simp at h
    rename_i i records hk
    obtain ⟨t, ht, rfl⟩ := map_eq_some_iff.1 h
    have hset := holders_setTable ht (restoreNativeBatch i t records).table o
    have hfinish := holders_finish (s := s.setTable i (restoreNativeBatch i t records).table) hk o
    have hrestore := holders_restoreNativeBatch o i t records
    dsimp only at hfinish
    omega
  | ship k =>
    left
    rw [step] at h
    split at h
    · simp at h
    rename_i i records hk
    obtain ⟨t, ht, rfl⟩ := map_eq_some_iff.1 h
    have hset := holders_setTable ht (commitNativeBatch i t records).table o
    have hfinish := holders_finish (s := s.setTable i (commitNativeBatch i t records).table) hk o
    rw [tableHolders_commitNativeBatch] at hset
    simp only [holders, setTable, finish, recordHolders, map_append, List.map_map,
      Function.comp_def, sum_append] at hset hfinish ⊢
    omega
  | abandon k =>
    left
    obtain ⟨p, hk, rfl⟩ := map_eq_some_iff.1 h
    have hfinish := holders_finish hk o
    omega
  | deliver c i h' =>
    left
    rw [step] at h
    split at h
    next r t hr ht =>
      dsimp only at h
      split at h
      · cases h
        have hset := holders_setTable ht (t.activateNative h' r.object r.info).table o
        have hactivate : tableHolders o (t.activateNative h' r.object r.info).table ≤ _ :=
          tableHolders_apply ho t (.activate h' r.object r.info)
        rw [TableOp.brings] at hactivate
        have herase := sum_map_eraseIdx (fun r : TransferredResource => holds o r.object) hr
        simp only [holders, setTable] at hset ⊢
        omega
      · cases h
        omega
    · simp at h
  | discard c =>
    left
    obtain ⟨r, hr, rfl⟩ := map_eq_some_iff.1 h
    have herase := sum_map_eraseIdx (fun r : TransferredResource => holds o r.object) hr
    simp only [holders]
    omega
  | produce o' m =>
    left
    cases h
    simp only [holders, Movement.brings, map_cons, sum_cons]
    omega
  | register k i uri oneShot => exact .inl (Nat.le_add_right_of_le (holders_register h o))
  | registerKernel o' m uri oneShot =>
    left
    rw [step] at h
    split at h
    · cases h
      omega
    · cases h
      simp only [holders, Movement.brings, map_append, map_cons, map_nil,
        sum_append, sum_cons, sum_nil]
      omega
  | listen k i j uri => exact .inl (Nat.le_add_right_of_le (holders_listen h o))
  | resolve uri =>
    cases h
    exact .inl (Nat.le_add_right_of_le (holders_resolve ho s uri))
  | unregister i =>
    left
    obtain ⟨v, hv, rfl⟩ := map_eq_some_iff.1 h
    have herase := sum_map_eraseIdx (fun v : Service => holds o v.object) hv
    simp only [holders]
    omega
  | retire i =>
    left
    obtain ⟨l, hl, rfl⟩ := map_eq_some_iff.1 h
    have herase := sum_map_eraseIdx
      (fun l : Listener => holds o l.sendEndpoint + holds o l.descriptor) hl
    simp only [holders]
    omega

lemma forked_resolve (s : Holdings) (uri : String) : (s.resolve uri).forked = s.forked := by
  rw [resolve]
  iterate 3
    split
    · rfl
  split <;> rfl

lemma forked_step (h : s.step a = some s') {p : KObject × Metadata} (hp : p ∈ s.forked) :
    p ∈ s'.forked := by
  cases a with
  | newTable | produce =>
    cases h
    exact hp
  | resolve uri =>
    cases h
    rw [forked_resolve]
    exact hp
  | op | clear | abandon | discard | unregister | retire =>
    obtain ⟨_, -, rfl⟩ := map_eq_some_iff.1 h
    exact hp
  | take =>
    obtain ⟨_, -, rfl⟩ := map_eq_some_iff.1 h
    dsimp only
    split <;> exact hp
  | fork =>
    rw [step] at h
    repeat' split at h
    all_goals cases h
    exact mem_append_right _ hp
  | restore | ship =>
    rw [step] at h
    split at h
    · simp at h
    · obtain ⟨_, -, rfl⟩ := map_eq_some_iff.1 h
      exact hp
  | deliver | registerKernel | register | listen =>
    simp only [step, register, listen] at h
    repeat' split at h
    -- wherever the step ends, the forks are what they were
    all_goals cases h
    all_goals exact hp

end Holdings

variable {s : Holdings}

lemma heldOnce_step {s' : Holdings} {a : Movement} (hs : HeldOnce s)
    (hkeep : a.keepsUnique s = true) (h : s.step a = some s') : HeldOnce s' := by
  intro o ho
  obtain ⟨hbrings, hfork⟩ := Bool.and_eq_true_iff.1 hkeep
  rcases s.holders_step ho h with hle | ⟨i, j, allocated, source, m, rfl, hsource, hm, hforked⟩
  · -- What is brought in had no holder, so it has one now.
    by_cases hnew : a.brings = some o
    · left
      rw [hnew, holds_self] at hle
      have hzero : s.holders o = 0 := by simpa [hnew, ho] using hbrings
      omega
    · have hnone : holds o a.brings = 0 := if_neg hnew
      rcases hs o ho with hone | ⟨m, hm, hterm⟩
      · left
        omega
      · exact .inr ⟨m, Holdings.forked_step h hm, hterm⟩
  · right
    refine ⟨m, hforked, ?_⟩
    dsimp only at hfork
    rw [hsource] at hfork
    have hall := List.all_eq_true.1 hfork (o, m) hm
    simpa [ho] using hall

/-- **Unique capabilities stay unique** in every run whose forks copy no unique object but
the terminal client ends, and which brings in only new objects or objects that need not be
unique. -/
theorem heldOnce_of_keepsUnique (run : List Movement) {s : Holdings}
    (hkeep : Along Holdings.step (fun s a => a.keepsUnique s = true) {} run)
    (hrun : exec Holdings.step {} run = some s) : HeldOnce s := by
  refine exec_induct (I := HeldOnce) ?_ ?_ hkeep hrun
  · intro s a s' hs hok hstep
    exact heldOnce_step hs hok hstep
  · intro o _
    exact .inl (Nat.zero_le 1)

def clientInfo (scope : Scope) : Metadata :=
  ((createProtocolEndpointObjects { scope := scope } none).toOption.getD ({}, {})).1

/-- A terminal client is inherited by a child, while a raw channel end is moved into a
message, received and registered as a service. -/
def terminalFork : List Movement :=
  [.newTable, .newTable,
    .op 0 (.install (some (.protocolEndpoint 0 .client)) (clientInfo .terminalSlave)),
    .op 0 (.install (some (.rawChannelEnd 0 0)) { binding := .rawChannelEnd }),
    .fork 0 1 true,
    .take 0 [{ handle := 2, operation := .move }] 9 true,
    .ship 0,
    .op 1 (.reserve 1 true),
    .deliver 0 1 3,
    .take 1 [{ handle := 3, operation := .move }] 9 true,
    .register 0 0 "svc" false,
    .restore 0,
    .resolve "svc"]

theorem heldOnce_terminalFork : ∃ s, exec Holdings.step {} terminalFork = some s ∧ HeldOnce s :=
  ⟨_, rfl, heldOnce_of_keepsUnique terminalFork (by decide) rfl⟩

def ordinaryFork : List Movement :=
  [.newTable, .newTable,
    .op 0 (.install (some (.protocolEndpoint 0 .client)) (clientInfo (.other 7))),
    .fork 0 1 true]

/-- **After a fork an ordinary client end is in both tables.** -/
theorem not_heldOnce_ordinaryFork :
    ∃ s, exec Holdings.step {} ordinaryFork = some s ∧ ¬ HeldOnce s := by
  refine ⟨_, rfl, fun h => ?_⟩
  rcases h (.protocolEndpoint 0 .client) rfl with hone | ⟨m, hm, hterm⟩
  · exact absurd hone (by decide)
  · have hforked : (KObject.protocolEndpoint 0 .client, m)
        ∈ [(KObject.protocolEndpoint 0 .client, clientInfo (.other 7))] := hm
    obtain ⟨-, rfl⟩ := Prod.mk.inj (mem_singleton.1 hforked)
    exact absurd hterm (by decide)

end Naos.Ipc
