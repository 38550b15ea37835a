import Naos.Ipc.Hooks
import Naos.Ipc.Kernel

/-!
# Where the ends of a channel are

A channel counts, for each of its sides, who holds the end: `owners_` counts every holder,
and `roots_` those in a table or in the service directory.
The counters move with calls on the end: the hooks of `Naos.Ipc.Hooks`, most of them made
after the lock is dropped under which the holder changed, and `kernel_owner_acquired` for
an end the kernel keeps for itself.

This module runs the operations on all holders of `Naos.Ipc.Unique` as sections of
`Ledger`, each with the calls it leaves due.
-/

namespace Naos.Ipc

open Capability Transition List Option Counter

/-! ## The calls -/

inductive Notice where
  | hook (h : Hook)
  | kernelOwnerAcquired (c : ℕ) (side : Side)
  | kernelOwnerReleased (c : ℕ) (side : Side)

open Notice

def Notice.read : Notice → Ledger.Call (KObject × Place)
  | .hook h => hookCall h
  | .kernelOwnerAcquired c side => ⟨(.rawChannelEnd c side, .kernel), true⟩
  | .kernelOwnerReleased c side => ⟨(.rawChannelEnd c side, .kernel), false⟩

def ChannelWorld.notice (w : ChannelWorld) : Notice → ChannelWorld
  | .hook h => w.hook h
  | .kernelOwnerAcquired c side => w.modify c (·.kernelOwnerAcquired side)
  | .kernelOwnerReleased c side => w.modify c (·.kernelOwnerReleased side)

def ChannelWorld.notices (w : ChannelWorld) (ns : List Notice) : ChannelWorld :=
  ns.foldl ChannelWorld.notice w

/-! ## The hooks of every operation -/

namespace Holdings

variable (s : Holdings)

/-- The hooks of `register_service`. -/
def registerHooks (k i : ℕ) (uri : String) : List Hook :=
  match s.transfers[k]? with
  | none => []
  | some (_, records) =>
    match records[i]? with
    | none => []
    | some r =>
      if r.moved = false ∨ r.resource.object = none ∨ s.services.any (·.uri == uri) then []
      else toTableHooks r.resource.object

/-- The hooks of `listen_service` and of its caller, which takes both objects first. -/
def listenHooks (k i j : ℕ) (uri : String) : List Hook :=
  match s.transfers[k]? with
  | none => []
  | some (_, records) =>
    match records[i]?, records[j]? with
    | some ri, some rj =>
      let l : Listener := ⟨uri, ri.resource.object, rj.resource.object⟩
      let taken := toTableHooks l.sendEndpoint ++ toTableHooks l.descriptor
      if l.acceptable && !s.services.any (·.uri == uri) &&
          !s.listeners.any (·.uri == uri) then taken
      else taken ++ (releases l.sendEndpoint .tableRoot ++ releases l.descriptor .tableRoot)
    | _, _ => []

/-- The hooks of `resolve_service`. -/
def resolveHooks (uri : String) : List Hook :=
  match s.services.findIdx? (·.uri == uri) with
  | none => []
  | some i =>
    match s.services[i]? with
    | none => []
    | some v =>
      match v.object with
      | none => []
      | some o =>
        .acquire o .inTransit ::
          if v.oneShot || o.capabilityIsUnique then [.handoff o .tableRoot .inTransit]
          else []

def hooks : Movement → List Hook
  | .newTable => []
  | .op i o => (s.tables[i]?).elim [] fun t => o.hooks t
  | .clear i => (s.tables[i]?).elim [] fun t => t.clear.hooks
  | .fork i j allocated =>
    match s.tables[i]?, s.tables[j]? with
    | some source, some t => (t.cloneForkBindings source allocated).hooks
    | _, _ => []
  | .take i ds target allocated =>
    (s.tables[i]?).elim [] fun t => (takeNativeBatch i t ds target allocated).hooks
  | .restore k =>
    match s.transfers[k]? with
    | none => []
    | some (i, records) =>
      (s.tables[i]?).elim [] fun t =>
        let o := restoreNativeBatch i t records
        -- what is left of the records is destroyed
        o.hooks ++ discardRecords o.value.2
  | .ship _ => []
  | .abandon k => (s.transfers[k]?).elim [] fun p => discardRecords p.2
  | .deliver c i h =>
    match s.cargo[c]?, s.tables[i]? with
    | some r, some t => (t.activateNative h r.object r.info).hooks
    | _, _ => []
  | .discard c => (s.cargo[c]?).elim [] TransferredResource.releaseTransit
  | .produce o _ => [.acquire o .inTransit]
  | .register k i uri _ => s.registerHooks k i uri
  | .registerKernel o _ uri _ =>
    -- the object travels through a resource of its own
    .acquire o .inTransit ::
      if s.services.any (·.uri == uri) then [.release o .inTransit]
      else toTableHooks (some o)
  | .listen k i j uri => s.listenHooks k i j uri
  | .resolve uri => s.resolveHooks uri
  | .unregister i => (s.services[i]?).elim [] fun v => releases v.object .tableRoot
  | .retire i =>
    (s.listeners[i]?).elim [] fun l =>
      releases l.sendEndpoint .tableRoot ++ releases l.descriptor .tableRoot

/-- The entries of the tables and of the directory that hold the object. -/
def rooted (o : KObject) : ℕ :=
  (s.tables.map (tableHolders o)).sum + (s.services.map fun v => holds o v.object).sum +
    (s.listeners.map fun l => holds o l.sendEndpoint + holds o l.descriptor).sum

def travelling (o : KObject) : ℕ :=
  (s.transfers.map fun p => recordHolders o p.2).sum + (s.cargo.map fun r => holds o r.object).sum

end Holdings

def Holdings.held (s : Holdings) (o : KObject) : Place → ℕ
  | .root => s.rooted o
  | .transit => s.travelling o
  | .kernel => 0

open Holdings

/-- What the callers of the operations see to: an object is activated only out of a
resource in transit, and the target of a fork is the table of a new process. -/
def Movement.called (s : Holdings) : Movement → Bool
  | .op _ (.activate _ _ _) => false
  | .fork _ j _ => (s.tables[j]?).all untouched
  | _ => true

/-! ## The system -/

/-- All holders: those of `Holdings`, and the ends the kernel keeps for itself. -/
structure Located where
  holdings : Holdings := {}
  kernelOwners : List (ℕ × Side) := []

inductive Handling where
  | move (m : Movement)
  | kernelAcquire (c : ℕ) (side : Side)
  | kernelRelease (owner : ℕ)

namespace Located

def critical (s : Located) : Handling → Option (Located × List Notice)
  | .move m =>
    if m.called s.holdings then
      (s.holdings.step m).map fun h =>
        ({ s with holdings := h }, (s.holdings.hooks m).map .hook)
    else none
  | .kernelAcquire c side =>
    some ({ s with kernelOwners := (c, side) :: s.kernelOwners }, [.kernelOwnerAcquired c side])
  | .kernelRelease k =>
    (s.kernelOwners[k]?).map fun p =>
      ({ s with kernelOwners := s.kernelOwners.eraseIdx k }, [.kernelOwnerReleased p.1 p.2])

def kernelOwned (s : Located) (o : KObject) : ℕ :=
  (s.kernelOwners.map fun p => holds o (some (.rawChannelEnd p.1 p.2))).sum

def count : KObject × Place → Located → ℕ
  | (o, .root), s => s.holdings.rooted o
  | (o, .transit), s => s.holdings.travelling o
  | (o, .kernel), s => s.kernelOwned o

end Located

/-! ## The exact value of a counter -/

/-- What one call adds to `owners_`. -/
def Notice.toOwners (c : ℕ) (side : Side) (n : Notice) : ℤ :=
  if n.read.account.1 = .rawChannelEnd c side then if n.read.up then 1 else -1 else 0

/-- What one call adds to `roots_`. -/
def Notice.toRoots (c : ℕ) (side : Side) (n : Notice) : ℤ :=
  if n.read.account = (.rawChannelEnd c side, .root) then if n.read.up then 1 else -1 else 0

/-- The value of `owners_` after the calls, were it not a word. -/
def ownersTally (c : ℕ) (side : Side) (ns : List Notice) : ℤ := (ns.map (·.toOwners c side)).sum

/-- The value of `roots_` after the calls, were it not a word. -/
def rootsTally (c : ℕ) (side : Side) (ns : List Notice) : ℤ := (ns.map (·.toRoots c side)).sum

structure Holdings.Tidy (s : Holdings) : Prop where
  tables : ∀ t ∈ s.tables, Ipc.Tidy t
  transfers : ∀ p ∈ s.transfers, ∃ t, s.tables[p.1]? = some t ∧ Bundle t.handleBound p.2
  cargo : ∀ r ∈ s.cargo, Carried r

/-! ## The invariant -/

namespace Holdings

variable {s s' : Holdings}

lemma tidy_init : Tidy {} :=
  ⟨fun _ h => absurd h not_mem_nil, fun _ h => absurd h not_mem_nil,
    fun _ h => absurd h not_mem_nil⟩

variable {i k : ℕ} {t : ResourceTable} {p : ℕ × List TransferRecord}

lemma Tidy.setTable (hs : s.Tidy) {t' : ResourceTable} (h : s.tables[i]? = some t)
    (ht' : Ipc.Tidy t') (hgrows : t.handleBound ≤ t'.handleBound) : (s.setTable i t').Tidy where
  tables q hq := by
    rcases mem_or_eq_of_mem_set hq with hq | rfl
    · exact hs.tables q hq
    · exact ht'
  transfers p hp := by
    obtain ⟨q, hq, hb⟩ := hs.transfers p hp
    by_cases hi : p.1 = i
    · subst hi
      obtain rfl : t = q := some.inj (h.symm.trans hq)
      obtain ⟨hlt, -⟩ := List.getElem?_eq_some_iff.1 h
      exact ⟨t', List.getElem?_set_self hlt, hb.mono hgrows⟩
    · exact ⟨q, (List.getElem?_set_ne fun h => hi h.symm).trans hq, hb⟩
  cargo := hs.cargo

lemma Tidy.finish (hs : s.Tidy) (k : ℕ) : (s.finish k).Tidy :=
  ⟨hs.tables, fun p hp => hs.transfers p (mem_of_mem_eraseIdx hp), hs.cargo⟩

lemma Tidy.setTransfer (hs : s.Tidy) (hk : s.transfers[k]? = some p)
    {records : List TransferRecord} (hb : ∀ bound, Bundle bound p.2 → Bundle bound records) :
    (s.setTransfer k (p.1, records)).Tidy where
  tables := hs.tables
  transfers q hq := by
    rcases mem_or_eq_of_mem_set hq with hq | rfl
    · exact hs.transfers q hq
    · obtain ⟨t, ht, hbundle⟩ := hs.transfers p (mem_of_getElem? hk)
      exact ⟨t, ht, hb _ hbundle⟩
  cargo := hs.cargo

/-! ## Every section settles -/

open Ledger

/-- What a section does to all holders: the invariant stays, and the hooks follow the
holders of every object. -/
structure Handled (s s' : Holdings) (hooks : List Hook) : Prop where
  tidy : s'.Tidy
  settles : ∀ o p, settle (o, p) (s.held o p) (hooks.map hookCall) = some (s'.held o p)

lemma rooted_setTable (h : s.tables[i]? = some t) (t' : ResourceTable) (o : KObject) :
    (s.setTable i t').rooted o + tableHolders o t = s.rooted o + tableHolders o t' ∧
      tableHolders o t ≤ s.rooted o := by
  have hset := sum_map_set (tableHolders o) h t'
  have herase := sum_map_eraseIdx (tableHolders o) h
  simp only [rooted, setTable]
  omega

lemma travelling_finish (h : s.transfers[k]? = some p) (o : KObject) :
    (s.finish k).travelling o + recordHolders o p.2 = s.travelling o := by
  have herase := sum_map_eraseIdx (fun p : ℕ × List TransferRecord => recordHolders o p.2) h
  simp only [travelling, finish]
  omega

lemma travelling_setTransfer (h : s.transfers[k]? = some p) (p' : ℕ × List TransferRecord)
    (o : KObject) :
    (s.setTransfer k p').travelling o + recordHolders o p.2
      = s.travelling o + recordHolders o p'.2 ∧ recordHolders o p.2 ≤ s.travelling o := by
  have hset := sum_map_set (fun p : ℕ × List TransferRecord => recordHolders o p.2) h p'
  have herase := sum_map_eraseIdx (fun p : ℕ × List TransferRecord => recordHolders o p.2) h
  simp only [travelling, setTransfer]
  omega

/-- Hooks that follow a part of the holders follow all of them. -/
lemma settle_held {s' : Holdings} {o : KObject} {p : Place} {a b : Place → ℕ}
    {calls : List (Ledger.Call (KObject × Place))} (h : settle (o, p) (a p) calls = some (b p))
    (hroot : s'.rooted o + a .root = s.rooted o + b .root ∧ a .root ≤ s.rooted o)
    (htravel : s'.travelling o + a .transit = s.travelling o + b .transit ∧
      a .transit ≤ s.travelling o)
    (hkernel : a .kernel = 0 ∧ b .kernel = 0) :
    settle (o, p) (s.held o p) calls = some (s'.held o p) := by
  refine settle_part h ?_ ?_
  · cases p <;> simp [held, hroot, htravel, hkernel]
  · cases p <;> simp only [held] <;> omega

namespace Handled

variable (hs : s.Tidy)
include hs

lemma refl : Handled s s [] := ⟨hs, fun _ _ => rfl⟩

variable {i k c : ℕ} {t : ResourceTable} {records : List TransferRecord} {r : TransferredResource}
  {uri : String} {v : Service}

lemma table {t' : ResourceTable} {hooks : List Hook} (h : s.tables[i]? = some t)
    (hm : Relocates t t' hooks) :
    Handled s (s.setTable i t') hooks where
  tidy := hs.setTable h hm.tidy hm.grows
  settles o p := settle_held (hm.settles o p) (rooted_setTable h t' o) ⟨rfl, Nat.zero_le _⟩
    ⟨rfl, rfl⟩

lemma newTable : Handled s { s with tables := s.tables ++ [{}] } [] where
  tidy :=
    { tables := by
        intro t ht
        rcases mem_append.1 ht with ht | ht
        · exact hs.tables t ht
        · rw [mem_singleton.1 ht]
          exact ⟨⟨by decide, fun h hmem => absurd hmem (AList.notMem_empty h)⟩,
            fun h _ hget => absurd (ResourceTable.mem_of_get hget) (AList.notMem_empty h)⟩
      transfers := by
        intro p hp
        obtain ⟨t, ht, hb⟩ := hs.transfers p hp
        obtain ⟨hlt, -⟩ := List.getElem?_eq_some_iff.1 ht
        exact ⟨t, (List.getElem?_append_left hlt).trans ht, hb⟩
      cargo := hs.cargo }
  settles o p := by
    have hnew : tableHolders o {} = 0 := rfl
    cases p <;> simp [held, rooted, travelling, hnew]

lemma take (h : s.tables[i]? = some t) (ds : List Disposition) (target : Handle)
    (allocated : Bool) :
    Handled s (if (takeNativeBatch i t ds target allocated).value.1 = .ok then
        { s.setTable i (takeNativeBatch i t ds target allocated).table with
          transfers := (i, (takeNativeBatch i t ds target allocated).value.2) :: s.transfers }
        else s.setTable i (takeNativeBatch i t ds target allocated).table)
      (takeNativeBatch i t ds target allocated).hooks := by
  have ht := hs.tables t (mem_of_getElem? h)
  split
  next hok =>
    obtain ⟨htidy, hbundle, hsettles⟩ := settles_takeNativeBatch ht hok
    have hkeep : Keeps [] t (takeNativeBatch i t ds target allocated).table :=
      Keeps.takeNativeBatch ht.issued i ds target allocated
    have hset := hs.setTable h htidy hkeep.grows
    refine ⟨⟨hset.tables, ?_, hset.cargo⟩, ?_⟩
    · intro p hp
      rcases mem_cons.1 hp with rfl | hp
      · obtain ⟨hlt, -⟩ := List.getElem?_eq_some_iff.1 h
        exact ⟨_, List.getElem?_set_self hlt, hbundle.mono hkeep.grows⟩
      · exact hset.transfers p hp
    · intro o p
      obtain ⟨hexchange, hle⟩ := rooted_setTable h (takeNativeBatch i t ds target allocated).table o
      refine settle_part (hsettles o p) ?_ ?_
      · cases p <;> simp [held, atPlace, hle]
      · cases p
        · simpa [held, atPlace, rooted] using hexchange
        · simp [held, atPlace, travelling, setTable]
          omega
        · rfl
  next hfail =>
    rw [(takeNativeBatch_refused hfail).2, takeNativeBatch_error hfail]
    exact table hs h (.refl ht)

lemma restore (hk : s.transfers[k]? = some (i, records)) (h : s.tables[i]? = some t) :
    Handled s ((s.setTable i (restoreNativeBatch i t records).table).finish k)
      ((restoreNativeBatch i t records).hooks ++
        discardRecords (restoreNativeBatch i t records).value.2) := by
  have ht := hs.tables t (mem_of_getElem? h)
  obtain ⟨t', ht', hbundle⟩ := hs.transfers _ (mem_of_getElem? hk)
  obtain rfl : t = t' := some.inj (h.symm.trans ht')
  obtain ⟨htidy, hgrows, hsettles⟩ := settles_restoreNativeBatch i ht hbundle
  refine ⟨(hs.setTable h htidy hgrows).finish k, ?_⟩
  intro o p
  obtain ⟨hexchange, hle⟩ := rooted_setTable h (restoreNativeBatch i t records).table o
  have hfinish := travelling_finish hk o
  refine settle_part (hsettles o p) ?_ ?_
  · cases p
    · simpa [held, atPlace] using hle
    · simp only [held, atPlace] at hfinish ⊢
      simp
      omega
    · rfl
  · cases p
    · simpa [held, atPlace, rooted, finish] using hexchange
    · simpa [held, atPlace, travelling, setTable, finish] using hfinish
    · rfl

lemma ship (hk : s.transfers[k]? = some (i, records)) (h : s.tables[i]? = some t) : Handled s
      { (s.setTable i (commitNativeBatch i t records).table).finish k with
        cargo := records.map TransferRecord.resource ++ s.cargo } [] := by
  have ht := hs.tables t (mem_of_getElem? h)
  have hkeep : Keeps [] t (commitNativeBatch i t records).table :=
    Keeps.commitNativeBatch ht.issued i records
  have htidy := ht.of_map hkeep.issued (nativeHandleMap_commitNativeBatch i t records)
  obtain ⟨_, -, hbundle⟩ := hs.transfers _ (mem_of_getElem? hk)
  have hset := (hs.setTable h htidy hkeep.grows).finish k
  refine ⟨⟨hset.tables, hset.transfers, ?_⟩, ?_⟩
  · intro r hr
    rcases mem_append.1 hr with hr | hr
    · obtain ⟨q, hq, rfl⟩ := List.mem_map.1 hr
      exact hbundle.carried q hq
    · exact hs.cargo r hr
  · intro o p
    obtain ⟨hexchange, -⟩ := rooted_setTable h (commitNativeBatch i t records).table o
    have hfinish := travelling_finish hk o
    rw [tableHolders_commitNativeBatch] at hexchange
    refine congrArg some ?_
    cases p
    · simp only [held, rooted, setTable, finish] at hexchange ⊢
      omega
    · simp only [held, travelling, setTable, finish, recordHolders,
        map_append, List.map_map, Function.comp_def, sum_append] at hfinish ⊢
      omega
    · rfl

lemma abandon {q : ℕ × List TransferRecord} (hk : s.transfers[k]? = some q) :
    Handled s (s.finish k) (discardRecords q.2) := by
  obtain ⟨_, -, hbundle⟩ := hs.transfers _ (mem_of_getElem? hk)
  refine ⟨hs.finish k, ?_⟩
  intro o p
  have hfinish := travelling_finish hk o
  refine settle_held (b := fun _ => 0) (settle_discardRecords hbundle.carried o p)
    ⟨rfl, Nat.zero_le _⟩ ?_ ⟨rfl, rfl⟩
  simp only [atPlace_self]
  omega

/-- **A resource arrives**: its object goes from transit into a reserved entry. -/
theorem deliver (hr : s.cargo[c]? = some r) (h : s.tables[i]? = some t) (handle : Handle) :
    Handled s (if (t.activateNative handle r.object r.info).value = .ok then
        { s.setTable i (t.activateNative handle r.object r.info).table with
          cargo := s.cargo.eraseIdx c }
        else s)
      (t.activateNative handle r.object r.info).hooks := by
  have ht := hs.tables t (mem_of_getElem? h)
  cases hobject : r.object with
  | none => exact refl hs
  | some object =>
    rw [ResourceTable.activateNative]
    split
    · exact refl hs
    split
    · exact refl hs
    rename_i e hget
    split
    · exact refl hs
    rename_i hst
    have hreserved : e.state = .reserved := not_not.1 hst
    have hkeep : Keeps [handle] t
        (t.set handle { e with object := some object, state := .active, info := r.info }) :=
      Keeps.set ht.issued hget (.inr mem_cons_self) _
    have hset := hs.setTable h (ht.set hkeep.issued (by simp)) hkeep.grows
    refine ⟨⟨hset.tables, hset.transfers, ?_⟩, ?_⟩
    · intro q hq
      exact hs.cargo q (mem_of_mem_eraseIdx hq)
    · intro o p
      have hexchange := tableHolders_set hget o
        { e with object := some object, state := .active, info := r.info }
      rw [ht.holds_reserved hget hreserved o] at hexchange
      obtain ⟨hrooted, -⟩ := rooted_setTable h
        (t.set handle { e with object := some object, state := .active, info := r.info }) o
      have herase := sum_map_eraseIdx (fun r : TransferredResource => holds o r.object) hr
      rw [hobject] at herase
      refine settle_held (settle_toTable o (some object) p) ?_ ?_ ⟨rfl, rfl⟩
      · simp only [atPlace, rooted, setTable, if_true, reduceCtorEq,
          if_false] at hrooted hexchange ⊢
        omega
      · simp only [atPlace, travelling, setTable, if_true, reduceCtorEq, if_false]
        omega

lemma discard (hr : s.cargo[c]? = some r) :
    Handled s { s with cargo := s.cargo.eraseIdx c } r.releaseTransit where
  tidy := ⟨hs.tables, hs.transfers, fun q hq => hs.cargo q (mem_of_mem_eraseIdx hq)⟩
  settles o p := by
    have herase := sum_map_eraseIdx (fun r : TransferredResource => holds o r.object) hr
    refine settle_held (b := fun _ => 0)
      (settle_releaseTransit (hs.cargo r (mem_of_getElem? hr)) o p) ⟨rfl, Nat.zero_le _⟩ ?_
      ⟨rfl, rfl⟩
    simp only [atPlace_self, travelling]
    omega

lemma produce (object : KObject) (info : Metadata) :
    Handled s { s with cargo := ⟨some object, info, true⟩ :: s.cargo }
      [.acquire object .inTransit] where
  tidy := by
    refine ⟨hs.tables, hs.transfers, ?_⟩
    intro q hq
    rcases mem_cons.1 hq with rfl | hq
    · exact fun _ => rfl
    · exact hs.cargo q hq
  settles o p := by
    refine (settle_acquire o object .inTransit p _).trans (congrArg some ?_)
    cases p
    · rfl
    · simp only [held, atPlace, travelling, Place.of_inTransit, if_true, map_cons, sum_cons]
      omega
    · rfl

/-- **Registering** takes the object of a record into the directory. -/
theorem register {oneShot : Bool} (h : s.register k i uri oneShot = some s') :
    Handled s s' (s.registerHooks k i uri) := by
  rw [Holdings.register] at h
  split at h
  · cases h
  rename_i pid records hk
  split at h
  · cases h
  rename_i r hr
  rw [registerHooks, hk]
  dsimp only
  rw [hr]
  dsimp only
  split at h
  next hrefused =>
    cases h
    rw [if_pos hrefused]
    exact refl hs
  rename_i hfree
  cases h
  rw [if_neg hfree]
  have htidy := hs.setTransfer hk fun _ hb => hb.takeObject hr
  refine ⟨⟨htidy.tables, htidy.transfers, htidy.cargo⟩, ?_⟩
  intro o p
  obtain ⟨hset, hle⟩ := travelling_setTransfer hk (pid, records.set i (takeObjectToTable r)) o
  have hrecord := sum_map_set (fun r : TransferRecord => holds o r.resource.object) hr
    (takeObjectToTable r)
  rw [holds_takeObjectToTable] at hrecord
  simp only [recordHolders] at hset hle
  refine settle_held (settle_toTable o r.resource.object p) ?_ ?_ ⟨rfl, rfl⟩
  · simp only [atPlace, rooted, setTransfer, if_true, reduceCtorEq, if_false, map_append,
      map_cons, map_nil, sum_append, sum_cons, sum_nil]
    omega
  · simp only [atPlace, travelling, setTransfer, if_true, reduceCtorEq, if_false] at hset hle ⊢
    omega

lemma registerKernel (object : KObject) (info : Metadata) (uri : String) (oneShot : Bool) :
    Handled s (if s.services.any (·.uri == uri) then s
        else { s with services := s.services ++ [⟨uri, some object, info, oneShot⟩] })
      (.acquire object .inTransit ::
        if s.services.any (·.uri == uri) then [.release object .inTransit]
        else toTableHooks (some object)) := by
  by_cases hany : s.services.any (·.uri == uri) = true
  · rw [if_pos hany, if_pos hany]
    refine ⟨hs, ?_⟩
    intro o p
    exact settle_append_iff.2
      ⟨_, settle_acquire o object .inTransit p _, settle_release o object .inTransit p _⟩
  · rw [if_neg hany, if_neg hany]
    refine ⟨⟨hs.tables, hs.transfers, hs.cargo⟩, ?_⟩
    intro o p
    have hboth : settle (o, p) 0 ([hookCall (.acquire object .inTransit)] ++
        (toTableHooks (some object)).map hookCall)
          = some (atPlace .root (holds o (some object)) p) :=
      settle_append_iff.2
        ⟨_, (settle_acquire o object .inTransit p 0).trans (by rw [Nat.zero_add]; rfl),
          settle_toTable o (some object) p⟩
    refine settle_part hboth (Nat.zero_le _) ?_
    cases p
    · simp only [held, atPlace, rooted, if_true, map_append, map_cons, map_nil,
        sum_append, sum_cons, sum_nil]
      omega
    · rfl
    · rfl

/-- **Listening** takes two objects, and keeps both or releases both. -/
theorem listen {j : ℕ} (h : s.listen k i j uri = some s') :
    Handled s s' (s.listenHooks k i j uri) := by
  rw [Holdings.listen] at h
  split at h
  · cases h
  rename_i pid records hk
  split at h
  next ri rj hi hj =>
    rw [listenHooks, hk]
    dsimp only
    rw [hi, hj]
    dsimp only
    split at h
    · cases h
    rename_i hij
    have hj' : (records.set i (takeObjectToTable ri))[j]? = some rj := by
      rw [List.getElem?_set_ne hij]
      exact hj
    have htidy := hs.setTransfer hk fun _ hb => (hb.takeObject hi).takeObject hj'
    have hfirst := fun o => sum_map_set
      (fun r : TransferRecord => holds o r.resource.object) hi (takeObjectToTable ri)
    have hsecond := fun o => sum_map_set
      (fun r : TransferRecord => holds o r.resource.object) hj' (takeObjectToTable rj)
    have hset := fun o => travelling_setTransfer hk
      (pid, (records.set i (takeObjectToTable ri)).set j (takeObjectToTable rj)) o
    simp only [holds_takeObjectToTable, recordHolders] at hfirst hsecond hset
    have htaken : ∀ o p, settle (o, p)
        (atPlace .transit (holds o ri.resource.object + holds o rj.resource.object) p)
        ((toTableHooks ri.resource.object ++ toTableHooks rj.resource.object).map hookCall)
          = some (atPlace .root (holds o ri.resource.object + holds o rj.resource.object) p) := by
      intro o p
      rw [map_append, atPlace_add, atPlace_add]
      exact settle_append_add (settle_toTable o _ p) (settle_toTable o _ p)
    dsimp only at h
    split at h
    next hkept =>
      cases h
      rw [if_pos hkept]
      refine ⟨⟨htidy.tables, htidy.transfers, htidy.cargo⟩, ?_⟩
      intro o p
      obtain ⟨hexchange, hle⟩ := hset o
      have hf := hfirst o
      have hg := hsecond o
      refine settle_held (htaken o p) ?_ ?_ ⟨rfl, rfl⟩
      · simp only [atPlace, rooted, setTransfer, if_true, reduceCtorEq, if_false, map_append,
          map_cons, map_nil, sum_append, sum_cons, sum_nil]
        omega
      · simp only [atPlace, travelling, setTransfer, if_true, reduceCtorEq,
          if_false] at hexchange hle ⊢
        omega
    next hdropped =>
      cases h
      rw [if_neg hdropped]
      refine ⟨htidy, ?_⟩
      intro o p
      obtain ⟨hexchange, hle⟩ := hset o
      have hf := hfirst o
      have hg := hsecond o
      have hreleased : settle (o, p)
          (atPlace .root (holds o ri.resource.object + holds o rj.resource.object) p)
          ((releases ri.resource.object .tableRoot ++
            releases rj.resource.object .tableRoot).map hookCall) = some 0 := by
        rw [map_append, atPlace_add]
        have hri := settle_releases o ri.resource.object .tableRoot p 0
        have hrj := settle_releases o rj.resource.object .tableRoot p 0
        rw [Nat.zero_add] at hri hrj
        exact settle_append_add hri hrj
      have hall := settle_append_iff.2 ⟨_, htaken o p, hreleased⟩
      rw [← map_append] at hall
      refine settle_held (b := fun _ => 0) hall ⟨rfl, Nat.zero_le _⟩ ?_ ⟨rfl, rfl⟩
      simp only [atPlace_self]
      omega
  · cases h

lemma handOver (hv : s.services[i]? = some v) {object : KObject}
    (hobject : v.object = some object) (info : Metadata) :
    Handled s
      { s with
        cargo := ⟨some object, info, true⟩ :: s.cargo
        services := s.services.eraseIdx i }
      [.acquire object .inTransit, .handoff object .tableRoot .inTransit] := by
  refine ⟨⟨hs.tables, hs.transfers, (produce hs object info).tidy.cargo⟩, ?_⟩
  intro o p
  have herase := sum_map_eraseIdx (fun v : Service => holds o v.object) hv
  rw [hobject] at herase
  refine settle_held (settle_handoff o object p) ?_ ?_ ⟨rfl, rfl⟩
  · simp only [atPlace, rooted, if_true, reduceCtorEq, if_false]
    omega
  · simp only [atPlace, travelling, if_true, reduceCtorEq, if_false, map_cons, sum_cons]
    omega

/-- **Resolving** hands a service over, or copies it. -/
theorem resolve (uri : String) : Handled s (s.resolve uri) (s.resolveHooks uri) := by
  rw [Holdings.resolve, resolveHooks]
  cases s.services.findIdx? (·.uri == uri) with
  | none => exact refl hs
  | some i =>
    dsimp only
    cases hv : s.services[i]? with
    | none => exact refl hs
    | some v =>
      dsimp only
      cases hobject : v.object with
      | none => exact refl hs
      | some object =>
        dsimp only
        by_cases hone : (v.oneShot || object.capabilityIsUnique) = true
        · rw [if_pos hone, if_pos hone]
          exact handOver hs hv hobject v.metadata
        · rw [if_neg hone, if_neg hone]
          exact produce hs object v.metadata

lemma unregister (hv : s.services[i]? = some v) :
    Handled s { s with services := s.services.eraseIdx i } (releases v.object .tableRoot) where
  tidy := ⟨hs.tables, hs.transfers, hs.cargo⟩
  settles o p := by
    have herase := sum_map_eraseIdx (fun v : Service => holds o v.object) hv
    refine settle_held (a := fun p => 0 + atPlace .root (holds o v.object) p) (b := fun _ => 0)
      (settle_releases o v.object .tableRoot p 0) ?_ ⟨rfl, Nat.zero_le _⟩ ⟨rfl, rfl⟩
    simp only [atPlace_self, rooted]
    omega

lemma retire {l : Listener} (hl : s.listeners[i]? = some l) :
    Handled s { s with listeners := s.listeners.eraseIdx i }
      (releases l.sendEndpoint .tableRoot ++ releases l.descriptor .tableRoot) where
  tidy := ⟨hs.tables, hs.transfers, hs.cargo⟩
  settles o p := by
    have herase := sum_map_eraseIdx
      (fun l : Listener => holds o l.sendEndpoint + holds o l.descriptor) hl
    have hboth := settle_append_add (settle_releases o l.sendEndpoint .tableRoot p 0)
      (settle_releases o l.descriptor .tableRoot p 0)
    rw [← map_append] at hboth
    refine settle_held (a := fun p => 0 + atPlace .root (holds o l.sendEndpoint) p +
      (0 + atPlace .root (holds o l.descriptor) p)) (b := fun _ => 0) hboth ?_
      ⟨rfl, Nat.zero_le _⟩ ⟨rfl, rfl⟩
    simp only [atPlace_self, rooted]
    omega

end Handled

/-- **Every operation settles**, on success and on failure. -/
theorem handled_step (hs : s.Tidy) {m : Movement} (hcalled : m.called s = true)
    (h : s.step m = some s') : Handled s s' (s.hooks m) := by
  cases m with
  | newTable =>
    cases h
    exact .newTable hs
  | op i op =>
    obtain ⟨t, ht, rfl⟩ := map_eq_some_iff.1 h
    rw [hooks, ht]
    refine .table hs ht (op.relocates (hs.tables t (mem_of_getElem? ht)) ?_)
    rintro h object info rfl
    cases hcalled
  | clear i =>
    obtain ⟨t, ht, rfl⟩ := map_eq_some_iff.1 h
    rw [hooks, ht]
    exact .table hs ht (.clear (hs.tables t (mem_of_getElem? ht)))
  | fork i j allocated =>
    rw [step] at h
    split at h
    next source t hsource ht =>
      split at h
      · cases h
      cases h
      rw [Movement.called, ht] at hcalled
      have hfork := Handled.table hs ht (Relocates.cloneForkBindings hcalled
        (hs.tables t (mem_of_getElem? ht))
        (hs.tables source (mem_of_getElem? hsource)) allocated)
      rw [hooks, hsource, ht]
      exact ⟨⟨hfork.tidy.tables, hfork.tidy.transfers, hfork.tidy.cargo⟩, hfork.settles⟩
    · cases h
  | take i ds target allocated =>
    obtain ⟨t, ht, rfl⟩ := map_eq_some_iff.1 h
    rw [hooks, ht]
    exact .take hs ht ds target allocated
  | restore k =>
    rw [step] at h
    split at h
    · cases h
    rename_i i records hk
    obtain ⟨t, ht, rfl⟩ := map_eq_some_iff.1 h
    rw [hooks, hk]
    dsimp only
    rw [ht]
    exact .restore hs hk ht
  | ship k =>
    rw [step] at h
    split at h
    · cases h
    rename_i i records hk
    obtain ⟨t, ht, rfl⟩ := map_eq_some_iff.1 h
    exact .ship hs hk ht
  | abandon k =>
    obtain ⟨p, hk, rfl⟩ := map_eq_some_iff.1 h
    rw [hooks, hk]
    exact .abandon hs hk
  | deliver c i handle =>
    rw [step] at h
    split at h
    next r t hr ht =>
      rw [hooks, hr, ht]
      rw [← apply_ite some] at h
      cases h
      exact .deliver hs hr ht handle
    · cases h
  | discard c =>
    obtain ⟨r, hr, rfl⟩ := map_eq_some_iff.1 h
    rw [hooks, hr]
    exact .discard hs hr
  | produce object info =>
    cases h
    exact .produce hs object info
  | register k i uri oneShot => exact .register hs h
  | registerKernel object info uri oneShot =>
    rw [step, ← apply_ite some] at h
    cases h
    exact .registerKernel hs object info uri oneShot
  | listen k i j uri => exact .listen hs h
  | resolve uri =>
    cases h
    exact .resolve hs uri
  | unregister i =>
    obtain ⟨v, hv, rfl⟩ := map_eq_some_iff.1 h
    rw [hooks, hv]
    exact .unregister hs hv
  | retire i =>
    obtain ⟨l, hl, rfl⟩ := map_eq_some_iff.1 h
    rw [hooks, hl]
    exact .retire hs hl

end Holdings

namespace Located

open Ledger

lemma map_read_hook (hooks : List Hook) : (hooks.map hook).map read = hooks.map hookCall := by
  rw [List.map_map]
  rfl

lemma settle_kernel (hooks : List Hook) (o : KObject) (n : ℕ) :
    settle (o, .kernel) n (hooks.map hookCall) = some n := by
  induction hooks generalizing n with
  | nil => rfl
  | cons h hooks ih =>
    have hother : (hookCall h).account ≠ (o, .kernel) := by
      intro heq
      rcases h with ⟨o', l⟩ | ⟨o', l⟩ | ⟨o', l, l'⟩ <;> cases l <;> cases heq
    rw [map_cons, settle_cons, post, if_neg hother]
    exact ih n

/-- **Every section settles.** -/
theorem settles_critical {s s' : Located} {a : Handling} {ns : List Notice}
    (hs : s.holdings.Tidy) (h : s.critical a = some (s', ns)) :
    s'.holdings.Tidy ∧ Settles read count s s' ns := by
  cases a with
  | move m =>
    obtain ⟨hcalled, h⟩ := ite_none_right_eq_some.1 h
    obtain ⟨holdings, hstep, heq⟩ := map_eq_some_iff.1 h
    cases heq
    have hhandled := handled_step hs hcalled hstep
    refine ⟨hhandled.tidy, ?_⟩
    rintro ⟨o, p⟩
    rw [map_read_hook]
    cases p with
    | root => exact hhandled.settles o .root
    | transit => exact hhandled.settles o .transit
    | kernel => exact settle_kernel _ o _
  | kernelAcquire c side =>
    cases h
    refine ⟨hs, ?_⟩
    rintro ⟨o, p⟩
    refine (settle_up (o, p) (.rawChannelEnd c side, .kernel) _).trans (congrArg some ?_)
    rw [ite_account]
    cases p with
    | root | transit => rfl
    | kernel =>
      simp only [count, kernelOwned, atPlace_self, map_cons, sum_cons]
      omega
  | kernelRelease k =>
    obtain ⟨q, hq, heq⟩ := map_eq_some_iff.1 h
    cases heq
    refine ⟨hs, ?_⟩
    rintro ⟨o, p⟩
    have herase := sum_map_eraseIdx (fun q : ℕ × Side => holds o (some (.rawChannelEnd q.1 q.2))) hq
    have hdown := settle_down (o, p) (.rawChannelEnd q.1 q.2, Place.kernel)
      (count (o, p) { s with kernelOwners := s.kernelOwners.eraseIdx k })
    rw [ite_account] at hdown
    refine Eq.trans (congrArg (fun n => settle (o, p) n _) ?_) hdown
    cases p with
    | root | transit => rfl
    | kernel =>
      exact herase.symm

end Located

/-! ## The counters -/

section Counters

variable (c : ℕ) (side : Side) (n : Notice) (ns : List Notice)

lemma notice_counters (w : ChannelWorld) (n : Notice) (c : ℕ) (side : Side) :
    ((w.notice n).channels c).owners side
        = (w.channels c).owners side + BitVec.ofInt 64 (n.toOwners c side) ∧
      ((w.notice n).channels c).roots side
        = (w.channels c).roots side + BitVec.ofInt 64 (n.toRoots c side) ∧
      ((w.notice n).channels c).valid = (w.channels c).valid := by
  cases n with
  | hook h =>
    have howners : ownersDelta c side h = BitVec.ofInt 64 ((Notice.hook h).toOwners c side) := by
      rcases h with ⟨o, l⟩ | ⟨o, l⟩ | ⟨o, l, l'⟩ <;> by_cases ho : o = .rawChannelEnd c side <;>
        simp [ownersDelta, Notice.toOwners, Notice.read, hookCall, ho]
    have hroots : rootsDelta c side h = BitVec.ofInt 64 ((Notice.hook h).toRoots c side) := by
      rcases h with ⟨o, l⟩ | ⟨o, l⟩ | ⟨o, l, l'⟩ <;> by_cases ho : o = .rawChannelEnd c side <;>
        cases l <;> simp [rootsDelta, Notice.toRoots, Notice.read, hookCall, ho]
    rw [ChannelWorld.notice, channels_hook, ← howners, ← hroots]
    exact ⟨rfl, rfl, rfl⟩
  | kernelOwnerAcquired d q | kernelOwnerReleased d q =>
    rw [ChannelWorld.notice, channels_modify]
    by_cases hc : c = d
    · subst hc
      by_cases hq : side = q
      · subst hq
        simp [ChannelState.kernelOwnerAcquired, ChannelState.kernelOwnerReleased,
          Notice.toOwners, Notice.toRoots, Notice.read, BitVec.sub_eq_add_neg]
      · have hq' : q ≠ side := fun h => hq h.symm
        simp [ChannelState.kernelOwnerAcquired, ChannelState.kernelOwnerReleased,
          Notice.toOwners, Notice.toRoots, Notice.read, hq, hq']
    · have hc' : d ≠ c := fun h => hc h.symm
      simp [Notice.toOwners, Notice.toRoots, Notice.read, hc, hc']

/-- **The words follow the exact values.** -/
theorem notices_counters (w : ChannelWorld) (ns : List Notice) (c : ℕ) (side : Side) :
    ((w.notices ns).channels c).owners side
        = (w.channels c).owners side + BitVec.ofInt 64 (ownersTally c side ns) ∧
      ((w.notices ns).channels c).roots side
        = (w.channels c).roots side + BitVec.ofInt 64 (rootsTally c side ns) ∧
      ((w.notices ns).channels c).valid = (w.channels c).valid := by
  induction ns generalizing w with
  | nil => simp [ChannelWorld.notices, ownersTally, rootsTally]
  | cons n ns ih =>
    obtain ⟨howners, hroots, hvalid⟩ := ih (w.notice n)
    obtain ⟨howners', hroots', hvalid'⟩ := notice_counters w n c side
    have hownersTally : ownersTally c side (n :: ns)
        = n.toOwners c side + ownersTally c side ns := sum_cons
    have hrootsTally : rootsTally c side (n :: ns)
        = n.toRoots c side + rootsTally c side ns := sum_cons
    refine ⟨?_, ?_, hvalid.trans hvalid'⟩
    · rw [hownersTally, BitVec.ofInt_add, ← BitVec.add_assoc, ← howners']
      exact howners
    · rw [hrootsTally, BitVec.ofInt_add, ← BitVec.add_assoc, ← hroots']
      exact hroots

open Ledger in
lemma rootsTally_eq : rootsTally c side ns = (ups (.rawChannelEnd c side, .root) (ns.map read) : ℤ)
      - downs (.rawChannelEnd c side, .root) (ns.map read) := by
  rw [← sum_sign, List.map_map]
  rfl

lemma toOwners_eq : n.toOwners c side = n.read.sign (.rawChannelEnd c side, .root) +
      n.read.sign (.rawChannelEnd c side, .transit) +
      n.read.sign (.rawChannelEnd c side, .kernel) := by
  rw [toOwners]
  obtain ⟨⟨o, p⟩, up⟩ := n.read
  by_cases ho : o = .rawChannelEnd c side
  · cases p <;> simp [Ledger.Call.sign, ho]
  · simp [Ledger.Call.sign, ho]

open Ledger in
lemma ownersTally_eq : ownersTally c side ns =
      ((ups (.rawChannelEnd c side, .root) (ns.map read) : ℤ)
        - downs (.rawChannelEnd c side, .root) (ns.map read)) +
      ((ups (.rawChannelEnd c side, .transit) (ns.map read) : ℤ)
        - downs (.rawChannelEnd c side, .transit) (ns.map read)) +
      ((ups (.rawChannelEnd c side, .kernel) (ns.map read) : ℤ)
        - downs (.rawChannelEnd c side, .kernel) (ns.map read)) := by
  rw [← sum_sign, ← sum_sign, ← sum_sign, List.map_map, List.map_map, List.map_map,
    ← sum_map_add, ← sum_map_add, ownersTally]
  exact congrArg sum (map_congr_left fun n _ => toOwners_eq c side n)

end Counters

def ChannelState.Unheld (s : ChannelState) : Prop :=
  s.valid = true ∧ (∀ side, s.owners side = 0) ∧ ∀ side, s.roots side = 0

def Located.owners (s : Located) (c : ℕ) (side : Side) : ℕ :=
  count (.rawChannelEnd c side, .root) s + count (.rawChannelEnd c side, .transit) s +
    count (.rawChannelEnd c side, .kernel) s

/-- **The counters of a side are right**: `owners_` counts its holders, `roots_` those in
tables and in the directory, and the other side sees `NA_SIGNAL_PEER_CLOSED` just when
`owners_` is zero, whatever the queues hold. -/
structure Counted (channel : ChannelState) (s : Located) (c : ℕ) (side : Side) : Prop where
  owners : channel.owners side = BitVec.ofNat 64 (s.owners c side)
  roots : channel.roots side = BitVec.ofNat 64 (s.count (.rawChannelEnd c side, .root))
  peerClosed : ∀ queues, { channel with queues := queues }.signals (peer side) &&& signalPeerClosed
    ≠ 0 ↔ channel.owners side = 0

lemma peerClosed_bit : ∀ readable writable closed : Bool,
    (signalIf readable signalReadable ||| signalIf writable signalWritable |||
      signalIf closed signalPeerClosed) &&& signalPeerClosed ≠ 0 ↔ closed = true := by
  decide

lemma peerClosed_iff {channel : ChannelState} (hvalid : channel.valid = true) (side : Side) :
    channel.signals (peer side) &&& signalPeerClosed ≠ 0 ↔ channel.owners side = 0 := by
  have hpeer : peer (peer side) = side := by simp [peer]
  rw [ChannelState.signals, if_neg (by simp [hvalid]), hpeer, peerClosed_bit, decide_eq_true_iff]

def noHolders : Ledger.State Located Notice := { held := {} }

open Ledger in
/-- **The calls of the ends are balanced.**  In every run of the sections and their calls, in
any order: the counters are the words of the exact values; when no call is due they are
right; and neither is below zero then, nor at any other point of a run in which the
operations follow one another. -/
theorem counted_of_exec {w : ChannelWorld} (hw : ∀ c, (w.channels c).Unheld)
    {acts : List (Ledger.Action Handling)} {s : Ledger.State Located Notice}
    (hrun : exec (step Located.critical) noHolders acts = some s) (c : ℕ)
    (side : Side) :
    (((w.notices s.made).channels c).owners side = BitVec.ofInt 64 (ownersTally c side s.made) ∧
      ((w.notices s.made).channels c).roots side = BitVec.ofInt 64 (rootsTally c side s.made)) ∧
    (s.Quiet → Counted ((w.notices s.made).channels c) s.held c side) ∧
    ((s.Quiet ∨ Along (step Located.critical) (fun s a => a.Serial s) noHolders acts) →
      0 ≤ ownersTally c side s.made ∧ 0 ≤ rootsTally c side s.made) := by
  obtain ⟨hvalid, howners, hroots⟩ := hw c
  obtain ⟨hownersWord, hrootsWord, hvalidWord⟩ := notices_counters w s.made c side
  rw [howners, zero_add] at hownersWord
  rw [hroots, zero_add] at hrootsWord
  have hcritical : ∀ (s : Located) (i : Handling) (s' : Located) (es : List Notice),
      s.holdings.Tidy → s.critical i = some (s', es) →
        s'.holdings.Tidy ∧ Settles read Located.count s s' es :=
    fun _ _ _ _ hs h => Located.settles_critical hs h
  have hempty : ∀ a, Located.count a noHolders.held = 0 := by
    rintro ⟨o, p⟩
    cases p <;> rfl
  have hbalanced : Balanced read Located.count noHolders := fun a => by
    rw [hempty a]
    rfl
  have hbooks := (balance_of_exec hcritical tidy_init hbalanced hrun).2
  have hquiet : s.Quiet → ownersTally c side s.made = s.held.owners c side ∧
        rootsTally c side s.made = s.held.count (.rawChannelEnd c side, .root) := by
    intro hq
    have hdue : ∀ a, s.held.count a + downs a (s.made.map read) = ups a (s.made.map read) := by
      intro a
      have ha := hbooks a
      rwa [hq.flatten, append_nil] at ha
    have hroot := hdue (.rawChannelEnd c side, .root)
    have htransit := hdue (.rawChannelEnd c side, .transit)
    have hkernel := hdue (.rawChannelEnd c side, .kernel)
    rw [ownersTally_eq, rootsTally_eq, Located.owners]
    omega
  refine ⟨⟨hownersWord, hrootsWord⟩, ?_, ?_⟩
  · intro hq
    obtain ⟨hownersCount, hrootsCount⟩ := hquiet hq
    refine ⟨?_, ?_, ?_⟩
    · rw [hownersWord, hownersCount]
      rfl
    · rw [hrootsWord, hrootsCount]
      rfl
    · intro queues
      have hsame : ({ (w.notices s.made).channels c with queues := queues } : ChannelState).valid
          = true := hvalidWord.trans hvalid
      exact peerClosed_iff hsame side
  · rintro (hq | hserial)
    · obtain ⟨hownersCount, hrootsCount⟩ := hquiet hq
      omega
    · have horderly : Orderly read Located.count noHolders :=
        ⟨0, [], fun j => by simp [noHolders], fun a => by rw [hempty a]; rfl⟩
      have hcover := downs_le_ups_of_serial hcritical tidy_init horderly hserial hrun
      have hroot := hcover (.rawChannelEnd c side, .root)
      have htransit := hcover (.rawChannelEnd c side, .transit)
      have hkernel := hcover (.rawChannelEnd c side, .kernel)
      rw [ownersTally_eq, rootsTally_eq]
      omega

/-- Two processes.  The first makes a channel, moves one end into a message that the second
receives, and tries to move the other end to a view that refuses the call; the second
registers its end as a service, and the kernel keeps the other end for itself. -/
def travels : List (Ledger.Action Handling) :=
  [.start (.move .newTable), .start (.move .newTable),
    .start (.move (.op 0 (.install (some (.rawChannelEnd 0 0)) { binding := .rawChannelEnd }))),
    .call 0,
    .start (.move (.op 0 (.install (some (.rawChannelEnd 0 1)) { binding := .rawChannelEnd }))),
    .call 0,
    .start (.move (.take 0 [{ handle := 1, operation := .move }] 9 true)), .call 0, .call 0,
    .start (.move (.ship 0)),
    .start (.move (.op 1 (.reserve 1 true))),
    .start (.move (.deliver 0 1 1)), .call 0, .call 0,
    .start (.move (.take 0 [{ handle := 2, operation := .move }] 9 true)), .call 0, .call 0,
    .start (.move (.restore 0)), .call 0, .call 0,
    .start (.kernelAcquire 0 1), .call 0,
    .start (.move (.take 1 [{ handle := 1, operation := .move }] 9 true)), .call 0, .call 0,
    .start (.move (.register 0 0 "svc" false)), .call 0, .call 0,
    .start (.move (.restore 0))]

def newChannels : ChannelWorld := { channels := fun _ => newChannel defaultLimits }

theorem counted_travels : ∃ s, exec (Ledger.step Located.critical) noHolders travels = some s ∧
      s.held.owners 0 0 = 1 ∧ s.held.owners 0 1 = 2 ∧
      ∀ side, Counted ((newChannels.notices s.made).channels 0) s.held 0 side ∧
        0 ≤ ownersTally 0 side s.made ∧ 0 ≤ rootsTally 0 side s.made := by
  refine ⟨_, rfl, by decide, by decide, ?_⟩
  intro side
  have hall := counted_of_exec (w := newChannels) (fun c => ⟨rfl, fun _ => rfl, fun _ => rfl⟩)
    (show exec (Ledger.step Located.critical) noHolders travels = some _ from rfl)
    0 side
  exact ⟨hall.2.1 (by decide), hall.2.2 (.inr (by decide))⟩

/-- **Calls of overlapping operations may pass each other**: a thread installs an end, and
another closes the handle before the first has called the hook.  While the two calls are
due in this order, the counters wrap. -/
theorem tally_overlapping : ∃ s, exec (Ledger.step Located.critical) noHolders
        [.start (.move .newTable), .start (.move (.op 0 (.install (some (.rawChannelEnd 0 0)) {}))),
          .start (.move (.op 0 (.close 1))), .call 0] = some s ∧
      rootsTally 0 0 s.made = -1 ∧
      ((newChannels.notices s.made).channels 0).roots 0 = BitVec.allOnes 64 :=
  ⟨_, rfl, by decide, by decide⟩

end Naos.Ipc
