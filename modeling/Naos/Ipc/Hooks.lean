import Naos.Ipc.Interference
import Naos.Ipc.Unique
import Naos.Lib.Ledger

/-!
# The hooks that count holders

A table, a transferred resource and the service directory tell an object where it is held:
they call its hooks when a holder appears, goes, or is handed on.  The calls come after the
section that changed the holders.

Here each operation of a table and each end of a transfer is shown to settle, in the sense
of `Ledger`: its hooks take the account of every object at every place from the holders
before to the holders after.
-/

namespace Naos.Ipc

open Capability List Option Assoc TransferRecord ResourceTable

/-! ## Accounts -/

/-- Where a holder is: in a table or the directory, in transit, or in the kernel. -/
inductive Place where
  | root
  | transit
  | kernel
  deriving DecidableEq, Repr

def Place.of : Location → Place
  | .tableRoot => .root
  | .inTransit => .transit

@[simp] lemma Place.of_tableRoot : Place.of .tableRoot = .root := rfl

@[simp] lemma Place.of_inTransit : Place.of .inTransit = .transit := rfl

/-- The account a hook changes.  The handoff of an end releases it where it was. -/
def hookCall : Hook → Ledger.Call (KObject × Place)
  | .acquire o l => ⟨(o, .of l), true⟩
  | .release o l => ⟨(o, .of l), false⟩
  | .handoff o l _ => ⟨(o, .of l), false⟩

/-! ## The hooks of one table -/

def acquires (object : Option KObject) (l : Location) : List Hook :=
  object.toList.map fun o => .acquire o l

def releases (object : Option KObject) (l : Location) : List Hook :=
  object.toList.map fun o => .release o l

/-- The hooks of `take_object_to_table`. -/
def toTableHooks (object : Option KObject) : List Hook :=
  acquires object .tableRoot ++ releases object .inTransit

def untouched (t : ResourceTable) : Bool :=
  t.nextNativeHandle == 1 && size t.nativeHandleMap == 0

/-! ## Tidy tables and batches -/

/-- Every handle in the table was given out, and a reserved entry has no object. -/
structure Tidy (t : ResourceTable) : Prop where
  issued : t.Issued
  reserved : ∀ h e, t.get h = some e → e.state = .reserved → e.object = none

def Carried (r : TransferredResource) : Prop := r.object.isSome = true → r.inTransit = true

/-- The records of a transfer whose table has given out the handles below `bound`. -/
structure Bundle (bound : ℕ) (records : List TransferRecord) : Prop where
  nodup : (heldHandles records).Nodup
  below : ∀ h ∈ heldHandles records, 0 < h ∧ h < bound
  carried : ∀ r ∈ records, Carried r.resource
  idle : ∀ r ∈ records, r.token.callbackObject = none
  named : ∀ r ∈ records, ∀ p, r.token.slot = some p → p.1 = r.source

/-! ## What hooks do to an account -/

section Accounts

open Ledger

def atPlace (q : Place) (n : ℕ) (p : Place) : ℕ := if p = q then n else 0

@[simp] lemma atPlace_self (q : Place) (n : ℕ) : atPlace q n q = n := if_pos rfl

lemma atPlace_add (q : Place) (n m : ℕ) (p : Place) :
    atPlace q (n + m) p = atPlace q n p + atPlace q m p := by
  by_cases h : p = q <;> simp [atPlace, h]

@[simp] lemma atPlace_zero (q p : Place) : atPlace q 0 p = 0 := ite_self 0

lemma sum_atPlace {β : Type} (q : Place) (f : β → ℕ) (l : List β) (p : Place) :
    (l.map fun x => atPlace q (f x) p).sum = atPlace q (l.map f).sum p := by
  by_cases h : p = q <;> simp [atPlace, h]

lemma ite_account (o o' : KObject) (q p : Place) :
    (if (o', q) = (o, p) then 1 else 0) = atPlace q (holds o (some o')) p := by
  by_cases hp : p = q
  · subst hp
    by_cases ho : o' = o <;> simp [holds, ho]
  · have hq : q ≠ p := fun h => hp h.symm
    simp [atPlace, hp, hq]

variable (o o' : KObject) (object : Option KObject) (l : Location) (p : Place) (n : ℕ)

lemma settle_acquire : settle (o, p) n [hookCall (.acquire o' l)]
      = some (n + atPlace (.of l) (holds o (some o')) p) := by
  rw [← ite_account]
  exact settle_up _ _ _

lemma settle_release :
    settle (o, p) (n + atPlace (.of l) (holds o (some o')) p) [hookCall (.release o' l)]
      = some n := by
  rw [← ite_account]
  exact settle_down _ _ _

lemma settle_acquires : settle (o, p) n ((acquires object l).map hookCall)
      = some (n + atPlace (.of l) (holds o object) p) := by
  cases object with
  | none => simp [acquires]
  | some o' => exact settle_acquire o o' l p n

lemma settle_releases :
    settle (o, p) (n + atPlace (.of l) (holds o object) p) ((releases object l).map hookCall)
      = some n := by
  cases object with
  | none => simp [releases]
  | some o' => exact settle_release o o' l p n

lemma settle_toTable :
    settle (o, p) (atPlace .transit (holds o object) p) ((toTableHooks object).map hookCall)
      = some (atPlace .root (holds o object) p) := by
  rw [toTableHooks, map_append]
  refine settle_append_iff.2 ⟨_, settle_acquires o object .tableRoot p _, ?_⟩
  rw [Nat.add_comm]
  exact settle_releases o object .inTransit p _

lemma settle_handoff :
    settle (o, p) (atPlace .root (holds o (some o')) p)
        [hookCall (.acquire o' .inTransit), hookCall (.handoff o' .tableRoot .inTransit)]
      = some (atPlace .transit (holds o (some o')) p) := by
  have hrelease := settle_release o o' .tableRoot p (atPlace .transit (holds o (some o')) p)
  rw [Nat.add_comm] at hrelease
  have hboth := settle_append_iff.2 ⟨_, settle_acquire o o' .inTransit p _, hrelease⟩
  exact hboth

end Accounts

/-! ## The operations of one table -/

section Tables

open Ledger

variable {t t' : ResourceTable}

variable {e : Entry} {h : Handle}

lemma Tidy.set (ht : Tidy t) (hissued : (t.set h e).Issued)
    (he : e.state = .reserved → e.object = none) : Tidy (t.set h e) where
  issued := hissued
  reserved k e' hget hst := by
    by_cases hk : k = h
    · subst hk
      obtain rfl : e = e' := some.inj ((AList.lookup_insert _).symm.trans hget)
      exact he hst
    · rw [get_set_of_ne hk] at hget
      exact ht.reserved k e' hget hst

lemma Tidy.put (ht : Tidy t) (hissued : (t.put h e).Issued)
    (he : e.state = .reserved → e.object = none) : Tidy (t.put h e) :=
  ⟨hissued, (ht.set (h := h) (e := e) ⟨hissued.next_lt, hissued.below⟩ he).reserved⟩

lemma Tidy.drop (ht : Tidy t) (h : Handle) : Tidy (t.drop h) where
  issued :=
    { next_lt := ht.issued.next_lt
      below := fun k hk => ht.issued.below k (AList.mem_erase.1 hk).2 }
  reserved k e' hget hst := by
    by_cases hk : k = h
    · subst hk
      exact absurd (mem_of_get hget) fun hmem => (AList.mem_erase.1 hmem).1 rfl
    · rw [get_drop_of_ne hk] at hget
      exact ht.reserved k e' hget hst

lemma Tidy.of_map (ht : Tidy t) (hissued : t'.Issued)
    (hmap : t'.nativeHandleMap = t.nativeHandleMap) : Tidy t' := by
  refine ⟨hissued, ?_⟩
  intro h e hget hst
  rw [ResourceTable.get, hmap] at hget
  exact ht.reserved h e hget hst

lemma Tidy.holds_reserved (ht : Tidy t) (hget : t.get h = some e) (hst : e.state = .reserved)
    (o : KObject) : holds o e.object = 0 := by
  rw [ht.reserved h e hget hst, holds_none]

lemma tableHolders_put (hnew : h ∉ t.nativeHandleMap) (e : Entry) (o : KObject) :
    tableHolders o (t.put h e) = tableHolders o t + holds o e.object :=
  total_insert_of_notMem hnew (fun e => holds o e.object) e

/-- What a section of one table does: the table stays tidy, no handle becomes free again,
and the hooks follow the holders. -/
structure Relocates (t t' : ResourceTable) (hooks : List Hook) : Prop where
  tidy : Tidy t'
  grows : t.handleBound ≤ t'.handleBound
  settles : ∀ o p, settle (o, p) (atPlace .root (tableHolders o t) p) (hooks.map hookCall)
    = some (atPlace .root (tableHolders o t') p)

namespace Relocates

lemma quiet (htidy : Tidy t') (hgrows : t.handleBound ≤ t'.handleBound)
    (hsame : ∀ o, tableHolders o t' = tableHolders o t) : Relocates t t' [] where
  tidy := htidy
  grows := hgrows
  settles o p := by rw [hsame o]; rfl

lemma refl (ht : Tidy t) : Relocates t t [] := quiet ht le_rfl fun _ => rfl

lemma acquire (htidy : Tidy t') (hgrows : t.handleBound ≤ t'.handleBound) {object : KObject}
    (hone : ∀ o, tableHolders o t' = tableHolders o t + holds o (some object)) :
    Relocates t t' [.acquire object .tableRoot] where
  tidy := htidy
  grows := hgrows
  settles o p := by
    rw [hone o, atPlace_add]
    exact settle_acquire o object .tableRoot p _

lemma release (htidy : Tidy t') (hgrows : t.handleBound ≤ t'.handleBound) {object : Option KObject}
    (hone : ∀ o, tableHolders o t' + holds o object = tableHolders o t) :
    Relocates t t' (releases object .tableRoot) where
  tidy := htidy
  grows := hgrows
  settles o p := by
    rw [← hone o, atPlace_add]
    exact settle_releases o object .tableRoot p _

lemma allocate_put (ht : Tidy t) {h : Handle} (halloc : t.allocateNativeHandleLocked = (h, t'))
    (hh : h ≠ 0) {e : Entry} (he : e.state = .reserved → e.object = none) :
    Tidy (t'.put h e) ∧ t.handleBound ≤ (t'.put h e).handleBound ∧
      ∀ o, tableHolders o (t'.put h e) = tableHolders o t + holds o e.object := by
  have hfresh : Keeps [] t t' ∧ _ ∧ _ ∧ _ := Keeps.allocate ht.issued halloc hh
  obtain ⟨hkeep, hnew, hlt, -⟩ := hfresh
  have htidy' : Tidy t' := ht.of_map hkeep.issued (map_allocate halloc)
  refine ⟨htidy'.put (hkeep.issued.put hlt e) he, hkeep.grows, ?_⟩
  intro o
  rw [tableHolders_put hnew, tableHolders_allocate halloc]

lemma reserveLoop {n : ℕ} (ht : Tidy t) : Relocates t (reserveLoop n [] t).table [] := by
  refine reserveLoop_induct (P := fun handles t₁ => Tidy t₁ ∧ t.handleBound ≤ t₁.handleBound ∧
    (∀ o, tableHolders o t₁ = tableHolders o t) ∧
      ∀ h ∈ handles, ∀ e, t₁.get h = some e → e.state = .reserved) ?_
    (fun _ _ h => quiet h.1 h.2.1 h.2.2.1) ?_ ⟨ht, le_rfl, fun _ => rfl, by simp⟩
  · rintro handles t₁ h t' ⟨ht, hgrows, hsame, hreserved⟩ halloc hh
    obtain ⟨htidy, hgrows', hcount⟩ := allocate_put ht halloc hh
      (e := { generation := h }) fun _ => rfl
    refine ⟨htidy, hgrows.trans hgrows', ?_, ?_⟩
    · intro o
      rw [hcount o, hsame o, holds_none, Nat.add_zero]
    · intro k hk e hget
      by_cases hkh : k = h
      · subst hkh
        have hself := (AList.lookup_insert _).symm.trans hget
        rw [← some.inj hself]
      · rw [ResourceTable.get_put_of_ne hkh] at hget
        rcases mem_append.1 hk with hk | hk
        · rw [ResourceTable.get, map_allocate halloc] at hget
          exact hreserved k hk e hget
        · exact absurd (mem_singleton.1 hk) hkh
  · rintro handles t₁ ⟨ht, hgrows, hsame, hreserved⟩
    refine quiet ⟨⟨ht.issued.next_lt, ?_⟩, ?_⟩ hgrows ?_
    · intro k hk
      exact ht.issued.below k (mem_eraseAll.1 hk).2
    · intro k e hget hst
      have hk : k ∉ handles :=
        fun hmem => (mem_eraseAll.1 (mem_of_get hget)).1 hmem
      exact ht.reserved k e ((lookup_eraseAll_of_notMem hk _).symm.trans hget) hst
    · intro o
      rw [← hsame o]
      refine total_eraseAll_of_zero ?_
      intro k hk e hget
      exact ht.holds_reserved hget (hreserved k hk e hget) o

lemma rollbackNative (ht : Tidy t) (handles : List Handle) :
    Relocates t (t.rollbackNative handles) [] := by
  obtain ⟨htidy, hgrows, hsame⟩ := rollbackNative_induct (P := fun t₁ => Tidy t₁ ∧
      t.handleBound ≤ t₁.handleBound ∧ ∀ o, tableHolders o t₁ = tableHolders o t)
    ⟨ht, le_rfl, fun _ => rfl⟩ fun h (_ : h ∈ handles) t₁ e ⟨ht₁, hgrows, hsame⟩ hget hst => by
      refine ⟨ht₁.drop h, hgrows, fun o => ?_⟩
      have hdrop := tableHolders_drop hget o
      rw [ht₁.holds_reserved hget hst o] at hdrop
      exact hdrop.trans (hsame o)
  exact quiet htidy hgrows hsame

lemma clear (ht : Tidy t) : Relocates t t.clear.table t.clear.hooks where
  tidy := ⟨⟨ht.issued.next_lt, fun h hmem => absurd hmem (AList.notMem_empty h)⟩,
    fun h _ hget => absurd (mem_of_get hget) (AList.notMem_empty h)⟩
  grows := le_rfl
  settles o p := by
    have hall : settle (o, p)
        ((toPairs t.nativeHandleMap).map fun q => atPlace .root (holds o q.2.object) p).sum
        ((toPairs t.nativeHandleMap).flatMap fun q => (releases q.2.object .tableRoot).map hookCall)
          = some ((toPairs t.nativeHandleMap).map fun _ => 0).sum :=
      settle_flatMap fun q _ => by simpa using settle_releases o q.2.object .tableRoot p 0
    rw [sum_atPlace, sum_map_toPairs fun e : Entry => holds o e.object] at hall
    rw [ResourceTable.clear, map_flatMap]
    refine hall.trans ?_
    simp [tableHolders, total]

lemma cloneForkBindings (hnew : untouched t = true) (ht : Tidy t) {source : ResourceTable}
    (hsource : Tidy source) (allocated : Bool) :
    Relocates t (t.cloneForkBindings source allocated).table
      (t.cloneForkBindings source allocated).hooks := by
  obtain ⟨hnext, hsize⟩ : t.nextNativeHandle = 1 ∧ size t.nativeHandleMap = 0 := by
    simpa [untouched] using hnew
  have hmap : t.nativeHandleMap = ∅ := by
    apply AList.ext
    exact eq_nil_of_length_eq_zero (by simpa [size, AList.keys, keys] using hsize)
  rw [ResourceTable.cloneForkBindings]
  iterate 3
    split
    · exact refl ht
  rw [hmap, AList.union_empty]
  have hclonable : ∀ h e, (clonable source).lookup h = some e →
      h ∈ source.nativeHandleMap ∧ e.state = .active := by
    intro h e he
    rw [clonable, lookup_mapVal, lookup_filter] at he
    obtain ⟨e', he', rfl⟩ := map_eq_some_iff.1 he
    obtain ⟨hlook, hactive⟩ := filter_eq_some_iff.1 he'
    refine ⟨mem_of_lookup hlook, ?_⟩
    simp only [Bool.and_eq_true, beq_iff_eq] at hactive
    exact hactive.1.1
  refine ⟨⟨⟨hsource.issued.next_lt, ?_⟩, ?_⟩, ?_, ?_⟩
  · intro h hmem
    obtain ⟨e, he⟩ := exists_lookup_of_mem hmem
    exact hsource.issued.below h (hclonable h e he).1
  · intro h e hget hst
    exact absurd ((hclonable h e hget).2.symm.trans hst) (by decide)
  · rw [handleBound, handleBound, hnext, if_neg one_ne_zero]
    split
    · exact Nat.one_le_two_pow
    · omega
  · intro o p
    have hall : settle (o, p) ((toPairs source.clonable).map fun _ => 0).sum
        ((toPairs source.clonable).flatMap fun q => (acquires q.2.object .tableRoot).map hookCall)
          = some ((toPairs source.clonable).map
              fun q => atPlace .root (holds o q.2.object) p).sum :=
      settle_flatMap fun q _ => by simpa using settle_acquires o q.2.object .tableRoot p 0
    rw [sum_atPlace, sum_map_toPairs fun e : Entry => holds o e.object] at hall
    rw [map_flatMap, tableHolders, hmap]
    refine Eq.trans ?_ hall
    simp [total, acquires]

end Relocates

lemma TableOp.Does.relocates {op : TableOp} {hooks : List Hook} (h : op.Does t t' hooks)
    (ht : Tidy t) (hop : ∀ h object info, op ≠ .activate h object info) :
    Relocates t t' hooks := by
  have hkeeps := h.keeps ht.issued
  cases h with
  | refused => exact .refl ht
  | @install h t' halloc hh o info =>
    obtain ⟨htidy, hgrows, hcount⟩ := Relocates.allocate_put ht halloc hh
      (e := { object := some o, generation := h, state := .active, info }) (by simp)
    exact .acquire htidy hgrows hcount
  | @close h e hget =>
    have hone : ∀ o, tableHolders o (t.drop h) + holds o e.object = tableHolders o t :=
      tableHolders_drop hget
    exact .release (ht.drop h) hkeeps.grows hone
  | @duplicate h t' halloc hh e hactive object hobject hshared source rights granted =>
    obtain ⟨htidy, hgrows, hcount⟩ := Relocates.allocate_put ht halloc hh
      (e := { e with generation := h, info := { e.info with metaRights := granted } })
      (fun hst => absurd (hactive.symm.trans hst) (by decide))
    exact .acquire htidy hgrows fun o => (hcount o).trans (by rw [hobject])
  | reserve => exact .reserveLoop ht
  | activate => exact absurd rfl (hop _ _ _)
  | rollback handles => exact .rollbackNative ht handles
  | @restrict h t' halloc hh source e _ hget' hactive =>
    have hfresh : Keeps [] t t' ∧ _ ∧ _ ∧ _ := Keeps.allocate ht.issued halloc hh
    obtain ⟨hkeep, hnew, -, -⟩ := hfresh
    have htidy' : Tidy t' := ht.of_map hkeep.issued (map_allocate halloc)
    have hkeepset : Keeps [] t' (t'.set source { e with state := .restricting }) :=
      Keeps.set hkeep.issued hget' (.inl hactive) _
    have hset : Tidy (t'.set source { e with state := .restricting }) :=
      htidy'.set hkeepset.issued (by simp)
    have hfree : h ∉ (t'.set source { e with state := .restricting }).nativeHandleMap :=
      fun hmem => hnew (mem_of_mem_set (mem_of_get hget') hmem)
    refine .quiet (hset.put hkeeps.issued fun _ => rfl) hkeeps.grows ?_
    intro o
    have hexchange := tableHolders_set hget' o { e with state := .restricting }
    rw [tableHolders_allocate halloc o] at hexchange
    rw [tableHolders_put hfree, holds_none]
    dsimp only at hexchange ⊢
    omega
  | @commitRestrict source restricted hne e q hsource hrestricted hreserved object hobject =>
    have hkeepset : Keeps [restricted] t
        (t.set restricted { q with object := some object, state := .active }) :=
      Keeps.set ht.issued hrestricted (.inr mem_cons_self) _
    have hset : Tidy (t.set restricted { q with object := some object, state := .active }) :=
      ht.set hkeepset.issued (by simp)
    have hget := get_set_of_ne (t := t) hne { q with object := some object, state := .active }
    refine ⟨hset.drop source, le_rfl, ?_⟩
    intro o p
    have hexchange := tableHolders_set hrestricted o
      { q with object := some object, state := .active }
    have hdrop := tableHolders_drop (hget.trans hsource) o
    rw [ht.holds_reserved hrestricted hreserved o] at hexchange
    rw [hobject] at hdrop
    have hsame : tableHolders o ((t.set restricted
        { q with object := some object, state := .active }).drop source) = tableHolders o t := by
      dsimp only at hexchange
      omega
    rw [hsame]
    exact settle_append_iff.2
      ⟨_, settle_acquire o object .tableRoot p _, settle_release o object .tableRoot p _⟩
  | @rollbackRestrict source restricted hne e q hsource hrestricted hreserved =>
    refine .quiet ((ht.drop restricted).set hkeeps.issued (by simp)) le_rfl ?_
    intro o
    have hexchange := tableHolders_set ((get_drop_of_ne hne).trans hsource) o
      { e with state := .active }
    have hdrop := tableHolders_drop hrestricted o
    rw [ht.holds_reserved hrestricted hreserved o] at hdrop
    dsimp only at hexchange ⊢
    omega

/-- **An operation of one table** that activates nothing. -/
theorem TableOp.relocates (ht : Tidy t) (op : TableOp)
    (hop : ∀ h object info, op ≠ .activate h object info) :
    Relocates t (op.apply t) (op.hooks t) := (op.does t).relocates ht hop

end Tables

/-! ## Transfers -/

section Transfers

open Ledger

variable {t : ResourceTable} {records : List TransferRecord} {self : ℕ}

lemma settle_releaseTransit {r : TransferredResource} (hr : Carried r) (o : KObject) (p : Place) :
    settle (o, p) (atPlace .transit (holds o r.object) p) (r.releaseTransit.map hookCall)
      = some 0 := by
  rw [TransferredResource.releaseTransit]
  split
  · have hone := settle_releases o r.object .inTransit p 0
    rwa [Nat.zero_add] at hone
  next hnot =>
    have hnone : r.object = none := by
      by_contra hsome
      exact hnot (hr (isSome_iff_ne_none.2 hsome))
    rw [hnone, holds_none, atPlace_zero]
    rfl

lemma settle_discardRecords (hcarried : ∀ r ∈ records, Carried r.resource) (o : KObject)
    (p : Place) :
    settle (o, p) (atPlace .transit (recordHolders o records) p)
      ((discardRecords records).map hookCall) = some 0 := by
  have hall : settle (o, p)
      (records.map fun r => atPlace .transit (holds o r.resource.object) p).sum
      (records.flatMap fun r => r.resource.releaseTransit.map hookCall)
        = some (records.map fun _ => 0).sum :=
    settle_flatMap fun r hr => settle_releaseTransit (hcarried r hr) o p
  rw [sum_atPlace] at hall
  rw [discardRecords, map_flatMap, recordHolders]
  refine hall.trans ?_
  simp

lemma settle_takeHooks (d : Disposition) (e : Entry) (o : KObject) (p : Place) : settle (o, p)
        (atPlace .root (if d.operation = .move then holds o e.object else 0) p)
        ((takeHooks d e).map hookCall)
      = some (atPlace .transit (holds o e.object) p) := by
  cases hobject : e.object with
  | none => simp [takeHooks, hobject]
  | some object =>
    by_cases hop : d.operation = .move
    · simpa [takeHooks, hobject, hop] using settle_handoff o object p
    · simpa [takeHooks, hobject, hop] using settle_acquire o object .inTransit p 0

variable {target : Handle} {allocated : Bool} {ds : List Disposition}

lemma bundle_recordsOf (ht : Tidy t) {es : List (Disposition × Entry)}
    (hall : ∀ p ∈ es, Checked t target p.1 p.2) (hnodup : (es.map fun p => p.1.handle).Nodup) :
    Bundle t.handleBound (recordsOf self t es) where
  nodup := by
    rw [heldHandles, (heldNodes_recordsOf self hall).1]
    exact nodup_movedHandles hnodup
  below h hh := by
    rw [heldHandles, (heldNodes_recordsOf self hall).1] at hh
    obtain ⟨p, hp, -, rfl⟩ := mem_movedHandles.1 hh
    obtain ⟨e, hlook, -⟩ := (hall p hp).entry
    have hget := (lookupNative_eq_some.1 hlook).1
    exact ⟨Nat.pos_of_ne_zero (hall p hp).handle_ne_zero, ht.issued.below _ (mem_of_get hget)⟩
  carried r hr := by
    obtain ⟨p, -, rfl⟩ := List.mem_map.1 hr
    exact fun _ => rfl
  idle r hr := by
    obtain ⟨p, -, rfl⟩ := List.mem_map.1 hr
    rw [makeRecord]
    split <;> rfl
  named r hr q hq := by
    obtain ⟨p, -, rfl⟩ := List.mem_map.1 hr
    rw [makeRecord] at hq ⊢
    split at hq
    next hop =>
      rw [nodeOf, if_pos hop] at hq
      obtain ⟨e, -, rfl⟩ := map_eq_some_iff.1 hq
      rfl
    · cases hq

/-- **Taking a batch** moves holders from roots into transit, or adds some there. -/
theorem settles_takeNativeBatch (ht : Tidy t)
    (hok : (takeNativeBatch self t ds target allocated).value.1 = .ok) :
    Tidy (takeNativeBatch self t ds target allocated).table ∧
      Bundle t.handleBound (takeNativeBatch self t ds target allocated).value.2 ∧
      ∀ o p, settle (o, p) (atPlace .root (tableHolders o t) p)
          ((takeNativeBatch self t ds target allocated).hooks.map hookCall)
        = some (atPlace .root
            (tableHolders o (takeNativeBatch self t ds target allocated).table) p +
          atPlace .transit
            (recordHolders o (takeNativeBatch self t ds target allocated).value.2) p) := by
  have hkeep : Keeps [] t (takeNativeBatch self t ds target allocated).table :=
    Keeps.takeNativeBatch ht.issued self ds target allocated
  obtain ⟨es, -, hall, hnodup, heq⟩ := takeNativeBatch_ok hok
  rw [heq] at hkeep ⊢
  refine ⟨⟨hkeep.issued, ?_⟩, bundle_recordsOf ht hall hnodup, ?_⟩
  · intro h e hget hst
    have hnot : h ∉ movedHandles es := (mem_eraseAll.1 (mem_of_get hget)).1
    exact ht.reserved h e ((lookup_eraseAll_of_notMem hnot _).symm.trans hget) hst
  · intro o p
    have hexact := total_eraseAll_movedHandles o hnodup t.nativeHandleMap fun p hp => by
      obtain ⟨e, hlook, he⟩ := (hall p hp).entry
      exact ⟨e, (lookupNative_eq_some.1 hlook).1, by rw [he]; rfl⟩
    have hhooks : settle (o, p) (es.map fun q =>
          atPlace .root (if q.1.operation = .move then holds o q.2.object else 0) p).sum
        (es.flatMap fun q => (takeHooks q.1 q.2).map hookCall)
          = some (es.map fun q => atPlace .transit (holds o q.2.object) p).sum :=
      settle_flatMap fun q _ => settle_takeHooks q.1 q.2 o p
    rw [sum_atPlace, sum_atPlace] at hhooks
    have hframe := settle_add hhooks (atPlace .root (tableHolders o { t with
        nativeHandleMap := eraseAll (movedHandles es) t.nativeHandleMap }) p)
    rw [← atPlace_add, Nat.add_comm, tableHolders, hexact] at hframe
    rw [map_flatMap, recordHolders_recordsOf, Nat.add_comm]
    exact hframe

lemma settle_restoreHooks {r : TransferRecord} (hcarried : Carried r.resource)
    (hidle : r.token.callbackObject = none) (o : KObject) (p : Place) :
    settle (o, p) (atPlace .transit (holds o r.resource.object) p)
        ((restoreHooks r.attached).map hookCall)
      = some (atPlace .root (if r.holdsNode then holds o r.resource.object else 0) p) := by
  by_cases hnode : r.holdsNode = true
  · have hmoved : r.moved = true := (Bool.and_eq_true_iff.1 hnode).1
    rw [attached, if_pos hnode, if_pos hnode, restoreHooks]
    cases hobject : r.resource.object with
    | none => simp [TransferredResource.releaseTransit, TransferredResource.movedFrom]
    | some object => simpa [hmoved, toTableHooks, acquires, releases] using
        settle_toTable o (some object) p
  · rw [attached, if_neg hnode, if_neg hnode, restoreHooks, hidle, atPlace_zero]
    exact settle_releaseTransit hcarried o p

lemma discardRecords_settled (hidle : ∀ r ∈ records, r.token.callbackObject = none) :
    discardRecords ((records.map attached).map settleRecord) = [] := by
  rw [discardRecords, flatMap_eq_nil_iff]
  intro r hr
  obtain ⟨r', hr', rfl⟩ := List.mem_map.1 hr
  obtain ⟨r, hmem, rfl⟩ := List.mem_map.1 hr'
  by_cases hnode : r.holdsNode = true
  · rw [attached, if_pos hnode, settleRecord]
    cases r.resource.object with
    | none => rfl
    | some object =>
      dsimp only
      split <;> rfl
  · rw [attached, if_neg hnode, settleRecord, hidle r hmem]
    rfl

lemma tableHolders_insertAll (o : KObject) (hnodup : (heldHandles records).Nodup)
    {m : Assoc.Map Handle Entry} (hfree : ∀ h ∈ heldHandles records, h ∉ m) :
    total (fun e : Entry => holds o e.object) (insertAll (heldNodes records) m)
      = total (fun e : Entry => holds o e.object) m +
        (records.map fun r => if r.holdsNode then holds o r.resource.object else 0).sum := by
  rw [total_insertAll _ hnodup hfree]
  clear hnodup hfree
  congr 1
  induction records with
  | nil => rfl
  | cons r records ih =>
    rw [map_cons, sum_cons, ← ih]
    by_cases hnode : r.holdsNode = true
    · obtain ⟨hmoved, hsome⟩ := Bool.and_eq_true_iff.1 hnode
      obtain ⟨⟨h, e⟩, hslot⟩ := isSome_iff_exists.1 hsome
      rw [heldNodes_cons_of_holdsNode hmoved hslot, map_cons, sum_cons, if_pos hnode]
    · rw [heldNodes_cons_of_not (by simpa using hnode), if_neg hnode, Nat.zero_add]

/-- **Restoring a batch**, and destroying what is left of it: the moved holders are roots
again, and the others are released. -/
theorem settles_restoreNativeBatch (self : ℕ) (ht : Tidy t) (hb : Bundle t.handleBound records) :
    Tidy (restoreNativeBatch self t records).table ∧
      t.handleBound ≤ (restoreNativeBatch self t records).table.handleBound ∧
      ∀ o p, settle (o, p)
          (atPlace .root (tableHolders o t) p + atPlace .transit (recordHolders o records) p)
          (((restoreNativeBatch self t records).hooks ++
            discardRecords (restoreNativeBatch self t records).value.2).map hookCall)
        = some (atPlace .root (tableHolders o (restoreNativeBatch self t records).table) p) := by
  have hkeep : Keeps (heldHandles records) t (restoreNativeBatch self t records).table :=
    Keeps.restoreNativeBatch ht.issued self fun h hh => (hb.below h hh).2
  by_cases hall : records.all (restorable self t) = true
  · -- every node finds its handle free, so all of them are attached
    have hfree : ∀ h ∈ heldHandles records, h ∉ t.nativeHandleMap := by
      refine free_of_restorable (List.all_eq_true.1 hall) fun r hr q hq => ?_
      obtain ⟨e, hslot⟩ := slot_of_node hq
      exact hb.named r hr (q.1, e) hslot
    rw [restoreNativeBatch_ok (List.all_eq_true.1 hall) hb.nodup hfree] at hkeep ⊢
    refine ⟨⟨hkeep.issued, ?_⟩, hkeep.grows, ?_⟩
    · intro h e hget hst
      by_cases hh : h ∈ heldHandles records
      · obtain ⟨q, hq, rfl⟩ := List.mem_map.1 hh
        have hlook := lookup_insertAll_of_mem hb.nodup hq t.nativeHandleMap
        obtain rfl : q.2 = e := some.inj (hlook.symm.trans hget)
        obtain ⟨r, -, hnode⟩ := mem_filterMap.1 hq
        rw [node] at hnode
        split at hnode
        · obtain ⟨slot, -, rfl⟩ := map_eq_some_iff.1 hnode
          cases hst
        · cases hnode
      · exact ht.reserved h e ((lookup_insertAll_of_notMem hh _).symm.trans hget) hst
    · intro o p
      have hhooks : settle (o, p)
          (records.map fun r => atPlace .transit (holds o r.resource.object) p).sum
          (records.flatMap fun r => (restoreHooks r.attached).map hookCall)
            = some (records.map fun r =>
                atPlace .root (if r.holdsNode then holds o r.resource.object else 0) p).sum :=
        settle_flatMap fun r hr => settle_restoreHooks (hb.carried r hr) (hb.idle r hr) o p
      rw [sum_atPlace, sum_atPlace] at hhooks
      have hframe := settle_add hhooks (atPlace .root (tableHolders o t) p)
      have hnodes := tableHolders_insertAll o hb.nodup hfree
      rw [discardRecords_settled hb.idle, append_nil, flatMap_map, map_flatMap,
        tableHolders, tableHolders, hnodes, atPlace_add, Nat.add_comm]
      rw [Nat.add_comm (atPlace .root _ p)]
      exact hframe
  · -- the batch is refused as a whole, and then destroyed
    have heq : restoreNativeBatch self t records
        = { value := (.resourceExhausted, records), table := t } := by
      rw [restoreNativeBatch, if_neg hall]
    rw [heq]
    refine ⟨ht, le_rfl, ?_⟩
    intro o p
    have hframe := settle_add (settle_discardRecords hb.carried o p)
      (atPlace .root (tableHolders o t) p)
    rw [Nat.zero_add, Nat.add_comm] at hframe
    exact hframe

end Transfers

/-! ## The records of a handler -/

section Handlers

variable {records : List TransferRecord} {bound : ℕ}

lemma Bundle.mono (hb : Bundle bound records) {bound' : ℕ} (h : bound ≤ bound') :
    Bundle bound' records :=
  ⟨hb.nodup, fun k hk => ⟨(hb.below k hk).1, (hb.below k hk).2.trans_le h⟩, hb.carried, hb.idle,
    hb.named⟩

variable {r : TransferRecord}

lemma heldHandles_set {r' : TransferRecord} (hmoved : r'.moved = r.moved)
    (htoken : r'.token = r.token) {i : ℕ} (h : records[i]? = some r) :
    heldHandles (records.set i r') = heldHandles records := by
  have hkey : r'.node.map Prod.fst = r.node.map Prod.fst := by
    rw [node, node, hmoved, htoken]
    split
    · rw [Option.map_map, Option.map_map]
      rfl
    · rfl
  have hkeys : ∀ rs : List TransferRecord,
      heldHandles rs = rs.filterMap fun r => r.node.map Prod.fst := by
    intro rs
    rw [heldHandles, heldNodes, map_filterMap]
  obtain ⟨hi, hget⟩ := List.getElem?_eq_some_iff.1 h
  obtain ⟨before, after, heq, -, hset⟩ := @exists_of_set _ _ r' _ hi
  rw [hset, hkeys, hkeys, heq, hget, filterMap_append, filterMap_append, filterMap_cons,
    filterMap_cons, hkey]

lemma Bundle.takeObject (hb : Bundle bound records) {i : ℕ} (hr : records[i]? = some r) :
    Bundle bound (records.set i (takeObjectToTable r)) := by
  have hfields : (takeObjectToTable r).moved = r.moved ∧ (takeObjectToTable r).token = r.token ∧
      (takeObjectToTable r).source = r.source ∧ Carried (takeObjectToTable r).resource := by
    rw [takeObjectToTable]
    split
    · exact ⟨rfl, rfl, rfl, fun h => by cases h⟩
    · exact ⟨rfl, rfl, rfl, hb.carried r (mem_of_getElem? hr)⟩
  obtain ⟨hmoved, htoken, hsource, hcarried⟩ := hfields
  have hmem : ∀ q ∈ records.set i (takeObjectToTable r), q ∈ records ∨ q = takeObjectToTable r :=
    fun q hq => mem_or_eq_of_mem_set hq
  have hheld := heldHandles_set hmoved htoken hr
  refine ⟨hheld ▸ hb.nodup, hheld ▸ hb.below, ?_, ?_, ?_⟩
  · intro q hq
    rcases hmem q hq with hq | rfl
    · exact hb.carried q hq
    · exact hcarried
  · intro q hq
    rcases hmem q hq with hq | rfl
    · exact hb.idle q hq
    · rw [htoken]
      exact hb.idle r (mem_of_getElem? hr)
  · intro q hq slot hslot
    rcases hmem q hq with hq | rfl
    · exact hb.named q hq slot hslot
    · rw [hsource]
      rw [htoken] at hslot
      exact hb.named r (mem_of_getElem? hr) slot hslot

end Handlers

end Naos.Ipc
