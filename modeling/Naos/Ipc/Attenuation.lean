import Naos.Ipc.Interference
import Mathlib

/-!
# Rights only shrink

A capability reaches a process by a chain of operations: it is duplicated, restricted,
taken into a batch, carried by a message, a request or a response, made active in another
table, put back where it was, or copied by a fork.  Each operation reads one holder of
the object and writes another.  `Derives c d` says that one of them has read the
capability `c` and written the capability `d`.
-/

namespace Naos.Ipc

open Capability List Option TransferRecord ProtocolState
open ResourceTable hiding get set put drop clear

/-- A capability: the object, and the metadata its holder has for it. -/
structure Cap where
  object : KObject
  info : Metadata
  deriving DecidableEq

def tableCap (t : ResourceTable) (h : Handle) : Option Cap :=
  (t.lookupNative h).bind fun e => e.object.map fun o => ⟨o, e.info⟩

def resourceCap (r : TransferredResource) : Option Cap := r.object.map fun o => ⟨o, r.info⟩

def Subset (a b : Mask) : Prop := ∀ i, a.getLsbD i = true → b.getLsbD i = true

/-- The capability is on the same object, bound in the same way, and has no right, feature
or revision that the other has not. -/
structure Cap.Within (d c : Cap) : Prop where
  object : d.object = c.object
  metaRights : Subset d.info.metaRights c.info.metaRights
  protocolRights : Subset d.info.protocolRights c.info.protocolRights
  features : Subset d.info.features c.info.features
  revision : d.info.revision ≤ c.info.revision
  binding : d.info.binding = c.info.binding
  protocolUuid : d.info.protocolUuid = c.info.protocolUuid
  scope : d.info.scope = c.info.scope

/-! ## The links of a chain -/

/-- One operation has read the capability `c` and written the capability `d`. -/
inductive Derives (c d : Cap) : Prop where
  | duplicate (t : ResourceTable) (source : Handle) (rights : Mask) {h : Handle}
      (hok : (t.duplicateNative source rights).value = (.ok, h))
      (hc : tableCap t source = some c)
      (hd : tableCap (t.duplicateNative source rights).table h = some d) : Derives c d
  | restrict (t t' : ResourceTable) (ht : t.Issued) (source : Handle) (r : Restriction)
      {h : Handle} {backup : Entry}
      (hok : (t.restrictNative source r).value = (.ok, h, backup))
      (hothers : Interfere [source, h] (t.restrictNative source r).table t')
      (hcommit : (t'.commitRestrict source h).value = .ok)
      (hc : tableCap t source = some c)
      (hd : tableCap (t'.commitRestrict source h).table h = some d) : Derives c d
  | undoRestrict (t t' : ResourceTable) (ht : t.Issued) (source : Handle) (r : Restriction)
      {h : Handle} {backup : Entry}
      (hok : (t.restrictNative source r).value = (.ok, h, backup))
      (hothers : Interfere [source, h] (t.restrictNative source r).table t')
      (hundo : (t'.rollbackRestrict source h backup).value = .ok)
      (hc : tableCap t source = some c)
      (hd : tableCap (t'.rollbackRestrict source h backup).table source = some d) : Derives c d
  | take (self : ℕ) (t : ResourceTable) (ds : List Disposition) (target : Handle)
      (allocated : Bool) {r : TransferRecord}
      (hok : (takeNativeBatch self t ds target allocated).value.1 = .ok)
      (hr : r ∈ (takeNativeBatch self t ds target allocated).value.2)
      (hc : tableCap t r.source = some c)
      (hd : resourceCap r.resource = some d) : Derives c d
  | restore (self : ℕ) (t t' : ResourceTable) (ds : List Disposition) (target : Handle)
      (allocated : Bool) {r : TransferRecord}
      (hok : (takeNativeBatch self t ds target allocated).value.1 = .ok)
      (hr : r ∈ (takeNativeBatch self t ds target allocated).value.2)
      (hmoved : r.moved = true)
      (hback : (restoreNativeBatch self t'
        (takeNativeBatch self t ds target allocated).value.2).value.1 = .ok)
      (hc : tableCap t r.source = some c)
      (hd : tableCap (restoreNativeBatch self t'
        (takeNativeBatch self t ds target allocated).value.2).table r.source = some d) :
      Derives c d
  | send (self : ℕ) (w : ChannelWorld) (t : ResourceTable) (channel : ℕ) (sender : Side)
      (m message : ChannelMessage) (records : List TransferRecord) (i : ℕ)
      {r : TransferRecord} {r' : TransferredResource}
      (hok : (enqueue self w t channel sender m records).status = .ok)
      (hlast : (((enqueue self w t channel sender m records).world.channels channel).queues
        (peer sender)).fifo.items.getLast? = some message)
      (hr : records[i]? = some r) (hr' : message.resources[i]? = some r')
      (hc : resourceCap r.resource = some c) (hd : resourceCap r' = some d) : Derives c d
  | submit (self : ℕ) (t : ResourceTable) (p : ProtocolState) (b : ProtocolBudget)
      (request queued : InvocationRequest) (i : ℕ) {r r' : TransferRecord}
      (hok : (submitRequest self t p b request).status = .ok)
      (hlast : (submitRequest self t p b request).protocol.fifo.items.getLast? = some queued)
      (hr : request.resources[i]? = some r) (hr' : queued.resources[i]? = some r')
      (hc : resourceCap r.resource = some c) (hd : resourceCap r'.resource = some d) :
      Derives c d
  | reply (self : ℕ) (t : ResourceTable) (s : InvocationState) (bytes : List (BitVec 8))
      (records : List TransferRecord) (i : ℕ) {r r' : TransferRecord}
      (hok : (replyBatch self t s bytes records).1 = .ok)
      (hr : records[i]? = some r)
      (hr' : (replyBatch self t s bytes records).2.1.responseResources[i]? = some r')
      (hc : resourceCap r.resource = some c) (hd : resourceCap r'.resource = some d) :
      Derives c d
  /-- `take_result` is handed the response. -/
  | claimResult (s : InvocationState) (now byteCapacity resourceCapacity i : ℕ)
      {bytes : List (BitVec 8)} {resources : List TransferRecord} {r r' : TransferRecord}
      (hok : (s.claimResult now byteCapacity resourceCapacity).value = (.ok, bytes, resources))
      (hr : s.responseResources[i]? = some r) (hr' : resources[i]? = some r')
      (hc : resourceCap r.resource = some c) (hd : resourceCap r'.resource = some d) :
      Derives c d
  /-- `take_result` hands the response back. -/
  | restoreResult (s : InvocationState) (bytes : List (BitVec 8))
      (resources : List TransferRecord) (i : ℕ) {r r' : TransferRecord}
      (hclaimed : s.resultClaimed = true) (hready : s.phase = .ready)
      (hr : resources[i]? = some r)
      (hr' : (s.restoreResult bytes resources).responseResources[i]? = some r')
      (hc : resourceCap r.resource = some c) (hd : resourceCap r'.resource = some d) :
      Derives c d
  /-- A resource of a message, a request or a response becomes an entry: `receive`,
  `take_result` and the end of a spawn. -/
  | activate (t : ResourceTable) (h : Handle) (r : TransferredResource)
      (hok : (t.activateNative h r.object r.info).value = .ok)
      (hc : resourceCap r = some c)
      (hd : tableCap (t.activateNative h r.object r.info).table h = some d) : Derives c d
  | fork (t source : ResourceTable) (allocated : Bool) (h : Handle) (hnew : t.nativeHandleMap = ∅)
      (hok : (t.cloneForkBindings source allocated).value = .ok)
      (hc : tableCap source h = some c)
      (hd : tableCap (t.cloneForkBindings source allocated).table h = some d) : Derives c d

/-! ## Masks and metadata -/

variable {a b : Mask} {c d : Cap} {h source target : Handle} {t t' : ResourceTable}
  {e backup : Entry} {allocated : Bool} {ds : List Disposition} {r r' : TransferRecord}
  {self channel i : ℕ} {m : ChannelMessage} {records : List TransferRecord} {w : ChannelWorld}
  {sender : Side} {p : ProtocolState} {bytes : List (BitVec 8)} {s : InvocationState}

lemma within_iff : within a b = true ↔ Subset a b := by
  simp only [within, Subset, beq_iff_eq]
  constructor
  · intro h i ha
    have hi := congrArg (fun m : Mask => m.getLsbD i) h
    have hlt : i < 64 := BitVec.lt_of_getLsbD ha
    simpa [ha, hlt] using hi
  · intro h
    ext i hi
    have hlsb := h i
    cases ha : a[i] with
    | false => simp [ha]
    | true => simp [ha, hlsb ha]

lemma subset_ite {set : Bool} (h : set = false ∨ within a b = true) :
    Subset (if set then a else b) b := by
  cases set with
  | false => exact fun _ hi => hi
  | true => exact within_iff.1 (h.resolve_left (by simp))

namespace Cap.Within

variable {c d e : Cap}

lemma refl (c : Cap) : c.Within c :=
  ⟨rfl, fun _ h => h, fun _ h => h, fun _ h => h, le_rfl, rfl, rfl, rfl⟩

lemma trans (h : d.Within c) (h' : e.Within d) : e.Within c where
  object := h'.object.trans h.object
  metaRights i hi := h.metaRights i (h'.metaRights i hi)
  protocolRights i hi := h.protocolRights i (h'.protocolRights i hi)
  features i hi := h.features i (h'.features i hi)
  revision := h'.revision.trans h.revision
  binding := h'.binding.trans h.binding
  protocolUuid := h'.protocolUuid.trans h.protocolUuid
  scope := h'.scope.trans h.scope

variable {m : Metadata} {o : KObject}

lemma of_metaRights {m' : Metadata} (hrights : within m'.metaRights m.metaRights = true)
    (hrest : { m with metaRights := m'.metaRights } = m') : (⟨o, m'⟩ : Cap).Within ⟨o, m⟩ := by
  rw [← hrest]
  exact ⟨rfl, within_iff.1 hrights, fun _ h => h, fun _ h => h, le_rfl, rfl, rfl, rfl⟩

lemma of_restriction {r : Restriction} (hallowed : restrictionAllowed m r = true) :
    (⟨o, restrictedInfo m r⟩ : Cap).Within ⟨o, m⟩ := by
  simp only [restrictionAllowed, Bool.and_eq_true, Bool.or_eq_true,
    Bool.not_eq_true', beq_iff_eq, decide_eq_true_eq] at hallowed
  obtain ⟨⟨⟨⟨hmeta, hprotocol⟩, hscope⟩, hrevision⟩, hfeatures⟩ := hallowed
  refine ⟨rfl, subset_ite hmeta, subset_ite hprotocol, subset_ite hfeatures, ?_, rfl, rfl, ?_⟩
  · cases hset : r.sets .revision with
    | false => simp [restrictedInfo, hset]
    | true => simpa [restrictedInfo, hset] using (hrevision.resolve_left (by simp [hset])).2
  · cases hset : r.sets .scope with
    | false => simp [restrictedInfo, hset]
    | true => simpa [restrictedInfo, hset] using (hscope.resolve_left (by simp [hset])).2

end Cap.Within

lemma tableCap_eq_some : tableCap t h = some c ↔
      ∃ e, t.get h = some e ∧ e.state = .active ∧ e.object = some c.object ∧ e.info = c.info := by
  simp only [tableCap, bind_eq_some_iff, map_eq_some_iff, lookupNative_eq_some]
  constructor
  · rintro ⟨e, ⟨hget, hst⟩, o, ho, rfl⟩
    exact ⟨e, hget, hst, ho, rfl⟩
  · rintro ⟨e, hget, hst, ho, hinfo⟩
    exact ⟨e, ⟨hget, hst⟩, c.object, ho, by rw [hinfo]⟩

lemma resourceCap_eq_some {r : TransferredResource} :
    resourceCap r = some c ↔ r.object = some c.object ∧ r.info = c.info := by
  simp only [resourceCap, map_eq_some_iff]
  constructor
  · rintro ⟨o, ho, rfl⟩
    exact ⟨ho, rfl⟩
  · rintro ⟨ho, hinfo⟩
    exact ⟨c.object, ho, by rw [hinfo]⟩

lemma eq_of_tableCap (hget : t.get h = some e) (hc : tableCap t h = some c) :
    e.object = some c.object ∧ e.info = c.info ∧ e.state = .active := by
  obtain ⟨e', hget', hst, ho, hinfo⟩ := tableCap_eq_some.1 hc
  obtain rfl : e = e' := some.inj (hget.symm.trans hget')
  exact ⟨ho, hinfo, hst⟩

lemma within_of_eq (hobject : d.object = c.object) (hinfo : d.info = c.info) : d.Within c := by
  obtain ⟨o, m⟩ := c
  obtain ⟨o', m'⟩ := d
  obtain rfl : o' = o := hobject
  obtain rfl : m' = m := hinfo
  exact Cap.Within.refl _

/-! ## The operations that compute rights -/

lemma within_duplicate {rights : Mask} (hok : (t.duplicateNative source rights).value = (.ok, h))
    (hc : tableCap t source = some c)
    (hd : tableCap (t.duplicateNative source rights).table h = some d) : d.Within c := by
  obtain ⟨e, hget, hst, ho, hinfo⟩ := tableCap_eq_some.1 hc
  have hlook : t.lookupNative source = some e := lookupNative_eq_some.2 ⟨hget, hst⟩
  rcases halloc : t.allocateNativeHandleLocked with ⟨k, t'⟩
  generalize hrights : (if rights = 0 then e.info.metaRights else rights) = granted
  simp only [duplicateNative, hlook, ho, halloc, hrights] at hok hd
  split_ifs at hok hd with hallowed hwithin hk
  iterate 3
    · simp at hok
  obtain rfl : k = h := (Prod.mk.inj hok).2
  obtain ⟨ho', hinfo', -⟩ := eq_of_tableCap (get_put_self _ _) hd
  obtain ⟨o, m⟩ := c
  obtain ⟨o', m'⟩ := d
  obtain rfl : o = o' := some.inj ho'
  subst hinfo hinfo'
  exact Cap.Within.of_metaRights (by simpa using hwithin) rfl

lemma within_take (hok : (takeNativeBatch self t ds target allocated).value.1 = .ok)
    (hr : r ∈ (takeNativeBatch self t ds target allocated).value.2)
    (hc : tableCap t r.source = some c) (hd : resourceCap r.resource = some d) : d.Within c := by
  obtain ⟨es, -, hall, -, heq⟩ := takeNativeBatch_ok hok
  rw [heq] at hr
  obtain ⟨p, hp, rfl⟩ := List.mem_map.1 hr
  obtain ⟨e, hlook, hsnap⟩ := (hall p hp).entry
  obtain ⟨hwithin, hscope⟩ := (hall p hp).attenuated e hlook
  obtain ⟨ho, hinfo, -⟩ := eq_of_tableCap (lookupNative_eq_some.1 hlook).1 hc
  obtain ⟨ho', hinfo'⟩ := resourceCap_eq_some.1 hd
  obtain ⟨o, m⟩ := c
  obtain ⟨o', m'⟩ := d
  simp only [makeRecord] at ho ho' hinfo hinfo'
  have hobject : p.2.object = e.object := by rw [hsnap, Entry.attenuate]
  obtain rfl : o = o' := some.inj (ho.symm.trans (hobject.symm.trans ho'))
  subst hinfo hinfo'
  refine Cap.Within.of_metaRights hwithin ?_
  rw [hsnap] at hscope ⊢
  simp only [Entry.attenuate] at hscope ⊢
  rw [hscope]

/-! ## Restriction, in two sections -/

lemma restrictNative_entries {r : Restriction} (ht : t.Issued)
    (hok : (t.restrictNative source r).value = (.ok, h, backup)) :
    ∃ e, t.get source = some e ∧ restrictionAllowed e.info r = true ∧ source ≠ h ∧
      (t.restrictNative source r).table.get source = some { e with state := .restricting } ∧
      (t.restrictNative source r).table.get h
        = some { generation := h, info := restrictedInfo e.info r } := by
  obtain ⟨e, next, hget, -, hallowed, hzero, heq⟩ := restrictNative_ok (by rw [hok])
  rw [heq] at hok ⊢
  obtain rfl : t.nextNativeHandle = h := (Prod.mk.inj (Prod.mk.inj hok).2).1
  -- The new handle is in no entry, so it is not the source.
  have hne : source ≠ t.nextNativeHandle := by
    have hlt := ht.below _ (mem_of_get hget)
    rw [handleBound, if_neg hzero] at hlt
    exact hlt.ne
  refine ⟨e, hget, hallowed, hne, ?_, get_put_self _ _⟩
  rw [get_put_of_ne hne, get_set_self]

section

variable {r : Restriction} (ht : t.Issued)
    (hok : (t.restrictNative source r).value = (.ok, h, backup))
    (hothers : Interfere [source, h] (t.restrictNative source r).table t')
include ht hok hothers

lemma restriction_survives (hget : t.get source = some e) :
    restrictionAllowed e.info r = true ∧ source ≠ h ∧
      t'.get source = some { e with state := .restricting } ∧
      t'.get h = some { generation := h, info := restrictedInfo e.info r } := by
  obtain ⟨e', hget', hallowed, hne, hsource, hnew⟩ := restrictNative_entries ht hok
  obtain rfl : e' = e := some.inj (hget'.symm.trans hget)
  have hkeep : Keeps [] t (t.restrictNative source r).table := TableOp.keeps ht (.restrict source r)
  obtain ⟨-, hlater⟩ := get_interfere hothers hkeep.issued
  refine ⟨hallowed, hne, ?_, ?_⟩
  · exact hlater source (by simp) _ hsource (by simp)
  · exact hlater h (by simp) _ hnew (by simp)

lemma within_restrict (hcommit : (t'.commitRestrict source h).value = .ok)
    (hc : tableCap t source = some c)
    (hd : tableCap (t'.commitRestrict source h).table h = some d) : d.Within c := by
  obtain ⟨e, hget, -, ho, hinfo⟩ := tableCap_eq_some.1 hc
  obtain ⟨hallowed, hne, hsource, hnew⟩ := restriction_survives ht hok hothers hget
  obtain ⟨s, p, o, hs, hp, hobject, -, -, heq⟩ := commitRestrict_ok hcommit
  obtain rfl := some.inj (hsource.symm.trans hs)
  obtain rfl := some.inj (hnew.symm.trans hp)
  rw [heq] at hd
  have hentry := (get_drop_of_ne hne.symm).trans (get_set_self (t := t') h
      { generation := h, object := some o, state := .active,
        info := restrictedInfo e.info r })
  obtain ⟨ho', hinfo', -⟩ := eq_of_tableCap hentry hd
  obtain ⟨o₁, m⟩ := c
  obtain ⟨o₂, m'⟩ := d
  obtain rfl : o₁ = o := some.inj (ho.symm.trans hobject)
  obtain rfl : o₁ = o₂ := some.inj ho'
  subst hinfo hinfo'
  exact Cap.Within.of_restriction hallowed

lemma within_undoRestrict (hundo : (t'.rollbackRestrict source h backup).value = .ok)
    (hc : tableCap t source = some c)
    (hd : tableCap (t'.rollbackRestrict source h backup).table source = some d) : d.Within c := by
  obtain ⟨e, hget, -, ho, hinfo⟩ := tableCap_eq_some.1 hc
  obtain ⟨-, -, hsource, hnew⟩ := restriction_survives ht hok hothers hget
  rw [rollbackRestrict] at hundo hd
  split at hundo
  · simp at hundo
  rename_i hargs
  simp only [if_neg hargs, hsource, hnew] at hundo hd
  split at hundo
  next hstates =>
    rw [if_pos hstates] at hd
    obtain ⟨ho', hinfo', -⟩ := eq_of_tableCap (get_set_self _ _) hd
    exact within_of_eq (some.inj (ho'.symm.trans ho)) (hinfo'.symm.trans hinfo)
  · simp at hundo

end

/-! ## The operations that carry a capability as it is -/

lemma within_restore (hok : (takeNativeBatch self t ds target allocated).value.1 = .ok)
    (hr : r ∈ (takeNativeBatch self t ds target allocated).value.2) (hmoved : r.moved = true)
    (hback : (restoreNativeBatch self t'
      (takeNativeBatch self t ds target allocated).value.2).value.1 = .ok)
    (hc : tableCap t r.source = some c) (hd : tableCap (restoreNativeBatch self t'
      (takeNativeBatch self t ds target allocated).value.2).table r.source = some d) :
    d.Within c := by
  have hintact := intact_take hok
  obtain ⟨es, -, hall, hnodup, heq⟩ := takeNativeBatch_ok hok
  rw [heq] at hr hback hd hintact
  obtain ⟨hkeys, hents⟩ := heldNodes_recordsOf self hall
  have hcheck : ∀ r' ∈ recordsOf self t es, restorable self t' r' = true := by
    rw [restoreNativeBatch] at hback
    split at hback
    next hrestorable => exact List.all_eq_true.1 hrestorable
    · simp at hback
  have hslot : ∀ r' ∈ recordsOf self t es, ∀ q, r'.node = some q → q.1 = r'.source := by
    intro r' hr' q hq
    obtain ⟨-, -, -, e, he⟩ := hintact r' hr' (by rw [← node_isSome, hq]; rfl)
    obtain ⟨e', he'⟩ := slot_of_node hq
    rw [he, some.injEq, Prod.mk.injEq] at he'
    exact he'.1.symm
  have hfree : ∀ h ∈ heldHandles (recordsOf self t es), h ∉ t'.nativeHandleMap :=
    free_of_restorable hcheck hslot
  have hkeysNodup : ((heldNodes (recordsOf self t es)).map Prod.fst).Nodup :=
    hkeys ▸ nodup_movedHandles hnodup
  rw [restoreNativeBatch_ok hcheck hkeysNodup hfree] at hd
  obtain ⟨q, hq⟩ : ∃ q, r.node = some q := by
    rw [← isSome_iff_exists, node_isSome, holdsNode, hmoved]
    obtain ⟨p, hp, rfl⟩ := List.mem_map.1 hr
    obtain ⟨e₀, hlook, -⟩ := (hall p hp).entry
    have hget : t.nativeHandleMap.lookup p.1.handle = some e₀ :=
      (lookupNative_eq_some.1 hlook).1
    have hop : p.1.operation = .move := by simpa [makeRecord] using hmoved
    simp [makeRecord, nodeOf, hop, hget]
  have hmem : q ∈ heldNodes (recordsOf self t es) := mem_filterMap.2 ⟨r, hr, hq⟩
  have hentry : ResourceTable.get
      { t' with
        nativeHandleMap :=
          Assoc.insertAll (heldNodes (recordsOf self t es)) t'.nativeHandleMap }
      r.source = some q.2 := by
    rw [← hslot r hr q hq]
    exact Assoc.lookup_insertAll_of_mem hkeysNodup hmem _
  obtain ⟨ho', hinfo', -⟩ := eq_of_tableCap hentry hd
  obtain ⟨ho, hinfo, -⟩ := eq_of_tableCap (hslot r hr q hq ▸ hents q hmem) hc
  exact within_of_eq (some.inj (ho'.symm.trans ho)) (hinfo'.symm.trans hinfo)

lemma appendAll_resources {m' : ChannelMessage} {rs : List TransferRecord}
    (h : appendAll m rs = some m') :
    m'.resources = m.resources ++ rs.map resource := by
  induction rs generalizing m with
  | nil =>
    obtain rfl : m = m' := some.inj h
    simp
  | cons r rs ih =>
    rw [appendAll] at h
    split at h
    · simp at h
    · rw [ih h]
      simp

lemma enqueue_ok (hok : (enqueue self w t channel sender m records).status = .ok) :
    ∃ m', m'.resources = records.map resource ∧
      (((enqueue self w t channel sender m records).world.channels channel).queues
        (peer sender)).fifo.items.getLast? = some m' := by
  obtain ⟨w', m', fifo, hempty, -, happend, hpush, heq⟩ := enqueue_eq_accept hok
  refine ⟨m', by rw [appendAll_resources happend, hempty, nil_append], ?_⟩
  rw [heq, BoundedQueue.tryPush_eq_some hpush]
  simp [accept, ChannelWorld.modify, ChannelWorld.notifyChannelWaiters]

lemma within_send {message : ChannelMessage} {r' : TransferredResource}
    (hok : (enqueue self w t channel sender m records).status = .ok)
    (hlast : (((enqueue self w t channel sender m records).world.channels channel).queues
      (peer sender)).fifo.items.getLast? = some message) (hr : records[i]? = some r)
    (hr' : message.resources[i]? = some r') (hc : resourceCap r.resource = some c)
    (hd : resourceCap r' = some d) : d.Within c := by
  obtain ⟨m', hresources, hlast'⟩ := enqueue_ok hok
  obtain rfl : m' = message := some.inj (hlast'.symm.trans hlast)
  rw [hresources, getElem?_map, hr, map_some] at hr'
  obtain rfl : r.resource = r' := some.inj hr'
  obtain rfl : c = d := some.inj (hc.symm.trans hd)
  exact Cap.Within.refl c

lemma resource_commitNativeBatch (self : ℕ) (t : ResourceTable)
    (records : List TransferRecord) (i : ℕ) :
    (commitNativeBatch self t records).value[i]?.map resource = records[i]?.map resource := by
  rw [commitNativeBatch, getElem?_map, Option.map_map]
  congr 1
  funext r
  simp only [Function.comp_apply]
  split <;> rfl

lemma within_of_resource (heq : r'.resource = r.resource) (hc : resourceCap r.resource = some c)
    (hd : resourceCap r'.resource = some d) :
    d.Within c := by
  rw [heq] at hd
  obtain rfl : c = d := some.inj (hc.symm.trans hd)
  exact Cap.Within.refl c

lemma items_push {b : ProtocolBudget} {r : InvocationRequest} (h : p.refusal b r = none)
    (r' : InvocationRequest) :
    (p.push r').fifo.items =
      p.fifo.items ++ [{ r' with queuedResourceCount := resourceCountOf r' }] := by
  have hpush : (p.fifo.tryPush r).isNone = false := by
    rw [refusal] at h
    split_ifs at h with _ _ _ _ _ hpush
    exact Bool.not_eq_true _ ▸ hpush
  rw [push]
  cases hfifo : p.fifo.tryPush
      { r' with queuedResourceCount := resourceCountOf r' } with
  | none =>
    rw [tryPush_isNone p.fifo r { r' with
      queuedResourceCount := resourceCountOf r' }, hfifo] at hpush
    simp at hpush
  | some fifo => rw [BoundedQueue.tryPush_eq_some hfifo, getD_some]

lemma within_submit {b : ProtocolBudget} {request queued : InvocationRequest}
    (hok : (submitRequest self t p b request).status = .ok)
    (hlast : (submitRequest self t p b request).protocol.fifo.items.getLast? = some queued)
    (hr : request.resources[i]? = some r) (hr' : queued.resources[i]? = some r')
    (hc : resourceCap r.resource = some c) (hd : resourceCap r'.resource = some d) :
    d.Within c := by
  rw [submitRequest] at hok hlast
  split at hok
  next status hrefused =>
    dsimp only at hok
    split at hok
    · subst hok
      exact absurd hrefused refusal_ne_ok
    · contradiction
  next hadmitted =>
    rw [hadmitted] at hlast
    rw [items_push hadmitted, getLast?_concat] at hlast
    have hresource := resource_commitNativeBatch self t request.resources i
    rw [← some.inj hlast] at hr'
    rw [hr, hr', map_some, map_some] at hresource
    exact within_of_resource (some.inj hresource) hc hd

lemma within_reply (hok : (replyBatch self t s bytes records).1 = .ok) (hr : records[i]? = some r)
    (hr' : (replyBatch self t s bytes records).2.1.responseResources[i]? = some r')
    (hc : resourceCap r.resource = some c) (hd : resourceCap r'.resource = some d) :
    d.Within c := by
  rw [replyBatch] at hok hr'
  split at hok
  next hpublished =>
    rw [if_pos hpublished] at hr'
    have hresource := resource_commitNativeBatch self t records i
    rw [hr, hr', map_some, map_some] at hresource
    exact within_of_resource (some.inj hresource) hc hd
  · dsimp only at hok
    split at hok
    · simp at hok
    · contradiction

lemma within_claimResult {now byteCapacity resourceCapacity : ℕ} {resources : List TransferRecord}
    (hok : (s.claimResult now byteCapacity resourceCapacity).value = (.ok, bytes, resources))
    (hr : s.responseResources[i]? = some r) (hr' : resources[i]? = some r')
    (hc : resourceCap r.resource = some c) (hd : resourceCap r'.resource = some d) :
    d.Within c := by
  simp only [InvocationState.claimResult] at hok
  split at hok
  · simp at hok
  -- A deadline that has passed publishes an outcome without resources.
  have hcases : ∀ s' : InvocationState, (if s.phase ≠ .ready ∧ s.deadlinePassed now = true then
        (s.publishLockedNoWake (if s.phase = .dispatched then .outcomeUnknown else .notDelivered)
          .operationDeadline [] [] 0).getD s else s) = s' →
      s'.responseResources = s.responseResources ∨ s'.responseResources = [] := by
    rintro s' rfl
    split
    · rw [InvocationState.publishLockedNoWake]
      split
      · exact .inr rfl
      · exact .inl rfl
    · exact .inl rfl
  generalize (if s.phase ≠ .ready ∧ s.deadlinePassed now = true then
    (s.publishLockedNoWake (if s.phase = .dispatched then .outcomeUnknown else .notDelivered)
      .operationDeadline [] [] 0).getD s else s) = s' at hok hcases
  iterate 3
    split at hok
    · simp at hok
  obtain rfl : s'.responseResources = resources := (Prod.mk.inj (Prod.mk.inj hok).2).2
  rcases hcases s' rfl with hsame | hnone
  · rw [hsame, hr] at hr'
    exact within_of_resource (congrArg _ (some.inj hr').symm) hc hd
  · rw [hnone] at hr'
    simp at hr'

lemma within_activate {r : TransferredResource}
    (hok : (t.activateNative h r.object r.info).value = .ok) (hc : resourceCap r = some c)
    (hd : tableCap (t.activateNative h r.object r.info).table h = some d) : d.Within c := by
  obtain ⟨ho, hinfo⟩ := resourceCap_eq_some.1 hc
  revert hok hd
  rw [ho, activateNative]
  iterate 3
    split
    · simp
  intro _ hd
  obtain ⟨ho', hinfo', -⟩ := eq_of_tableCap (get_set_self _ _) hd
  exact within_of_eq (some.inj ho').symm (hinfo'.symm.trans hinfo)

lemma within_fork {source : ResourceTable} (hnew : t.nativeHandleMap = ∅)
    (hok : (t.cloneForkBindings source allocated).value = .ok) (hc : tableCap source h = some c)
    (hd : tableCap (t.cloneForkBindings source allocated).table h = some d) : d.Within c := by
  rw [cloneForkBindings] at hok hd
  split_ifs at hok hd
  rw [hnew, AList.union_empty] at hd
  obtain ⟨e, hget, -, ho, hinfo⟩ := tableCap_eq_some.1 hd
  simp only [ResourceTable.get, clonable, Assoc.lookup_mapVal, Assoc.lookup_filter] at hget
  obtain ⟨e', he', rfl⟩ := map_eq_some_iff.1 hget
  have hget' : source.get h = some e' := (filter_eq_some_iff.1 he').1
  obtain ⟨ho', hinfo', -⟩ := eq_of_tableCap hget' hc
  exact within_of_eq (some.inj (ho.symm.trans ho')) (hinfo.symm.trans hinfo')

/-! ## The chain -/

/-- **One operation shrinks**: what it writes is within what it has read. -/
theorem within_of_derives (h : Derives c d) : d.Within c := by
  cases h with
  | duplicate t source rights hok hc hd => exact within_duplicate hok hc hd
  | restrict t t' ht source r hok hothers hcommit hc hd =>
    exact within_restrict ht hok hothers hcommit hc hd
  | undoRestrict t t' ht source r hok hothers hundo hc hd =>
    exact within_undoRestrict ht hok hothers hundo hc hd
  | take self t ds target allocated hok hr hc hd => exact within_take hok hr hc hd
  | restore self t t' ds target allocated hok hr hmoved hback hc hd =>
    exact within_restore hok hr hmoved hback hc hd
  | send self w t channel sender m message records i hok hlast hr hr' hc hd =>
    exact within_send hok hlast hr hr' hc hd
  | submit self t p b request queued i hok hlast hr hr' hc hd =>
    exact within_submit hok hlast hr hr' hc hd
  | reply self t s bytes records i hok hr hr' hc hd => exact within_reply hok hr hr' hc hd
  | claimResult s now byteCapacity resourceCapacity i hok hr hr' hc hd =>
    exact within_claimResult hok hr hr' hc hd
  | restoreResult s bytes resources i hclaimed hready hr hr' hc hd =>
    have hback : (s.restoreResult bytes resources).responseResources = resources := by
      simp [InvocationState.restoreResult, hclaimed, hready]
    rw [hback, hr] at hr'
    exact within_of_resource (congrArg _ (some.inj hr').symm) hc hd
  | activate t h r hok hc hd => exact within_activate hok hc hd
  | fork t source allocated h hnew hok hc hd => exact within_fork hnew hok hc hd

/-- **Rights only shrink** along every chain of operations: what the end of the chain
holds is a capability on the same object, bound in the same way, without any right,
feature or revision that the start did not have. -/
theorem within_of_derives_chain {c d : Cap} (h : Relation.ReflTransGen Derives c d) :
    d.Within c := by
  induction h with
  | refl => exact Cap.Within.refl c
  | tail _ hlink ih => exact ih.trans (within_of_derives hlink)

def createdMemory : Cap := ⟨.plain .memoryObject 7, { binding := .memoryObject, metaRights := 15 }⟩

def creatorTable : ResourceTable :=
  (({} : ResourceTable).installNative (some createdMemory.object) createdMemory.info).table

def receivedMemory : Cap := ⟨.plain .memoryObject 7, { binding := .memoryObject, metaRights := 2 }⟩

/-- The creator duplicates without the right to duplicate, and moves the duplicate away with
the right to transfer alone; the receiver makes it active. -/
theorem within_receivedMemory : Relation.ReflTransGen Derives createdMemory receivedMemory ∧
      receivedMemory.Within createdMemory := by
  have hduplicate : Derives createdMemory ⟨createdMemory.object,
      { createdMemory.info with metaRights := 6 }⟩ :=
    .duplicate creatorTable 1 6 (h := 2) rfl rfl rfl
  have htake : Derives ⟨createdMemory.object, { createdMemory.info with metaRights := 6 }⟩
      receivedMemory :=
    .take 0 (creatorTable.duplicateNative 1 6).table
      [{ handle := 2, operation := .move, rights := 2 }] 0 true (by decide)
      (mem_singleton.2 rfl) rfl rfl
  have hreceive : Derives receivedMemory receivedMemory :=
    .activate (({} : ResourceTable).reserveNative 1 true).table 1
      { object := some receivedMemory.object, info := receivedMemory.info, inTransit := true }
      rfl rfl rfl
  have hchain : Relation.ReflTransGen Derives createdMemory receivedMemory :=
    ((Relation.ReflTransGen.single hduplicate).tail htake).tail hreceive
  exact ⟨hchain, within_of_derives_chain hchain⟩

end Naos.Ipc
