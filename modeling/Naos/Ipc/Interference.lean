import Naos.Ipc.Accounting

/-!
# What other threads do to a table

A system call works on the table of its process in several locked sections, and between
two of them other threads of the process run sections of their own.  The call relies on
the entries it has made and not published yet: a reserved entry, and the entry of a
restriction that is not committed.  No lookup shows such an entry, so another thread
can only reach it by naming its handle in an operation that is not meant for it, and no
system call does that.
-/

namespace Naos.Capability
open AList

/-- Every handle in the table was given out, and the counter of handles is a word. -/
structure ResourceTable.Issued (t : ResourceTable) : Prop where
  next_lt : t.nextNativeHandle < 2 ^ 64
  below : ∀ h ∈ t.nativeHandleMap, h < t.handleBound

open ResourceTable

lemma ResourceTable.Issued.put {t : ResourceTable} (ht : t.Issued) {h : Handle}
    (hlt : h < t.handleBound) (e : Entry) : (t.put h e).Issued where
  next_lt := ht.next_lt
  below k hk := by
    rcases (mem_insert _).1 hk with rfl | hk
    · exact hlt
    · exact ht.below k hk

/-- The second table comes from the first by sections that work on no handle outside `named`
which a lookup does not show: an entry that is not visible stays as it is, and a handle that
was given out and has no entry gets none. -/
structure Keeps (named : List Handle) (t t' : ResourceTable) : Prop where
  issued : t'.Issued
  grows : t.handleBound ≤ t'.handleBound
  unseen : ∀ h e, t.get h = some e → e.state ≠ .active → h ∉ named → t'.get h = some e
  gone : ∀ h, h < t.handleBound → h ∉ t.nativeHandleMap → h ∉ named → h ∉ t'.nativeHandleMap

namespace Keeps

variable {named : List Handle} {t t' t'' : ResourceTable}

lemma refl (ht : t.Issued) : Keeps named t t :=
  ⟨ht, le_rfl, fun _ _ hget _ _ => hget, fun _ _ hnot _ => hnot⟩

lemma trans (h : Keeps named t t') (h' : Keeps named t' t'') : Keeps named t t'' where
  issued := h'.issued
  grows := h.grows.trans h'.grows
  unseen k e hget hst hk := h'.unseen k e (h.unseen k e hget hst hk) hst hk
  gone k hlt hnot hk := h'.gone k (hlt.trans_le h.grows) (h.gone k hlt hnot hk) hk

variable {h restricted source : Handle} {e₀ : Entry}

lemma put (hkeep : Keeps named t t') (hnew : h ∉ t'.nativeHandleMap) (hlt : h < t'.handleBound)
    (hold : t.handleBound ≤ h) (e : Entry) :
    Keeps named t (t'.put h e) where
  issued := hkeep.issued.put hlt e
  grows := hkeep.grows
  unseen k e' hget hst hk := by
    have hget' := hkeep.unseen k e' hget hst hk
    have hne : k ≠ h := by
      rintro rfl
      exact hnew (mem_of_get hget')
    rw [get_put_of_ne hne]
    exact hget'
  gone k hlt' hnot hk := by
    have hne : k ≠ h := (hlt'.trans_le hold).ne
    intro hmem
    rcases (mem_insert _).1 hmem with rfl | hmem
    · exact hne rfl
    · exact hkeep.gone k hlt' hnot hk hmem

variable (ht : t.Issued)
include ht

lemma set (hget₀ : t.get h = some e₀) (hseen : e₀.state = .active ∨ h ∈ named) (e : Entry) :
    Keeps named t (t.set h e) where
  issued :=
    { next_lt := ht.next_lt
      below := fun k hk => ht.below k (mem_of_mem_set (mem_of_get hget₀) hk) }
  grows := le_rfl
  gone k _ hnot _ hmem := hnot (mem_of_mem_set (mem_of_get hget₀) hmem)
  unseen k e' hget hst hk := by
    have hne : k ≠ h := by
      rintro rfl
      rw [hget₀, Option.some.injEq] at hget
      rcases hseen with hseen | hseen
      · exact hst (hget ▸ hseen)
      · exact hk hseen
    rw [get_set_of_ne hne]
    exact hget

lemma drop (hget₀ : t.get h = some e₀) (hseen : e₀.state = .active ∨ h ∈ named) :
    Keeps named t (t.drop h) where
  issued :=
    { next_lt := ht.next_lt
      below := fun k hk => ht.below k (mem_erase.1 hk).2 }
  grows := le_rfl
  gone k _ hnot _ hmem := hnot (mem_erase.1 hmem).2
  unseen k e' hget hst hk := by
    have hne : k ≠ h := by
      rintro rfl
      rw [hget₀, Option.some.injEq] at hget
      rcases hseen with hseen | hseen
      · exact hst (hget ▸ hseen)
      · exact hk hseen
    rw [get_drop_of_ne hne]
    exact hget

lemma count (n : ℕ) : Keeps named t { t with nativeEntryCount := n } :=
  ⟨⟨ht.next_lt, ht.below⟩, le_rfl, fun _ _ hget _ _ => hget, fun _ _ hnot _ => hnot⟩

section

variable (halloc : t.allocateNativeHandleLocked = (h, t'))
include halloc

lemma allocate (hh : h ≠ 0) :
    Keeps named t t' ∧ h ∉ t'.nativeHandleMap ∧ h < t'.handleBound ∧ t.handleBound ≤ h := by
  obtain ⟨rfl, rfl, -⟩ := allocate_spec halloc hh
  have hbound := lt_handleBound_succ ht.next_lt t.nativeHandleMap t.nativeEntryCount
  have hold : t.handleBound = t.nextNativeHandle := if_neg hh
  refine ⟨⟨⟨Nat.mod_lt _ (by decide), ?_⟩, hold ▸ hbound.le, fun _ _ hget _ _ => hget,
    fun _ _ hnot _ => hnot⟩, ?_, hbound, hold.le⟩
  · intro k hk
    have hlt := ht.below k hk
    rw [hold] at hlt
    exact lt_trans hlt hbound
  · intro hmem
    have hlt := ht.below _ hmem
    rw [hold] at hlt
    exact lt_irrefl _ hlt

lemma allocate_put (hh : h ≠ 0) (e : Entry) : Keeps named t (t'.put h e) := by
  have hfresh : Keeps named t t' ∧ _ ∧ _ ∧ _ := allocate ht halloc hh
  obtain ⟨hkeep, hnew, hlt, hold⟩ := hfresh
  exact hkeep.put hnew hlt hold e

end

/-! ## The operations of a table -/

lemma reserveLoop {n : ℕ} : Keeps named t (reserveLoop n [] t).table := by
  refine reserveLoop_induct (P := fun handles t₁ => Keeps named t t₁ ∧
    (∀ h ∈ handles, h ∉ t.nativeHandleMap) ∧
      ∀ h, h ∈ t.nativeHandleMap → h ∈ t₁.nativeHandleMap) ?_ (fun _ _ h => h.1) ?_
    ⟨refl ht, by simp, fun _ hh => hh⟩
  · rintro handles t₁ h t' ⟨hkeep, hfresh, hsub⟩ halloc hh
    have hput : Keeps named t₁ t' ∧ _ ∧ _ ∧ _ := allocate hkeep.issued halloc hh
    have hmap := map_allocate halloc
    refine ⟨hkeep.trans (allocate_put hkeep.issued halloc hh _), ?_, ?_⟩
    · intro k hk
      rcases List.mem_append.1 hk with hk | hk
      · exact hfresh k hk
      · rw [List.mem_singleton.1 hk]
        exact fun hmem => hput.2.1 (hmap ▸ hsub h hmem)
    · intro k hk
      exact (mem_insert _).2 (.inr (hmap ▸ hsub k hk))
  · rintro handles t₁ ⟨hkeep, hfresh, -⟩
    refine ⟨⟨hkeep.issued.next_lt, ?_⟩, hkeep.grows, ?_, ?_⟩
    · intro k hk
      exact hkeep.issued.below k (Assoc.mem_eraseAll.1 hk).2
    · intro k e hget hst hk
      have hnot : k ∉ handles := fun hmem => hfresh k hmem (mem_of_get hget)
      exact (Assoc.lookup_eraseAll_of_notMem hnot _).trans (hkeep.unseen k e hget hst hk)
    · intro k hlt hnot hk hmem
      exact hkeep.gone k hlt hnot hk (Assoc.mem_eraseAll.1 hmem).2

lemma rollbackNative {handles : List Handle} (hall : ∀ h ∈ handles, h ∈ named) :
    Keeps named t (t.rollbackNative handles) :=
  rollbackNative_induct (P := Keeps named t) (refl ht) fun h hh _ _ hkeep hget _ =>
    hkeep.trans (drop hkeep.issued hget (.inr (hall h hh)))

/-! ## The operations of a transfer -/

lemma takeNativeBatch (self : ℕ) (ds : List Disposition) (target : Handle) (allocated : Bool) :
    Keeps named t (takeNativeBatch self t ds target allocated).table := by
  by_cases hok : (Capability.takeNativeBatch self t ds target allocated).value.1 = .ok
  · obtain ⟨es, -, hall, -, heq⟩ := takeNativeBatch_ok hok
    rw [heq]
    refine ⟨⟨ht.next_lt, fun k hk => ht.below k (Assoc.mem_eraseAll.1 hk).2⟩, le_rfl, ?_,
      fun _ _ hnot _ hmem => hnot (Assoc.mem_eraseAll.1 hmem).2⟩
    intro k e hget hst _
    have hnot : k ∉ movedHandles es := by
      intro hmem
      obtain ⟨p, hp, -, rfl⟩ := mem_movedHandles.1 hmem
      obtain ⟨e₀, hlook, -⟩ := (hall p hp).entry
      obtain ⟨hget₀, hactive⟩ := lookupNative_eq_some.1 hlook
      rw [hget, Option.some.injEq] at hget₀
      exact hst (hget₀ ▸ hactive)
    exact (Assoc.lookup_eraseAll_of_notMem hnot _).trans hget
  · rw [takeNativeBatch_error hok]
    exact refl ht

lemma restoreNativeBatch (self : ℕ) {records : List TransferRecord}
    (hback : ∀ h ∈ heldHandles records, h < t.handleBound) :
    Keeps (heldHandles records) t (restoreNativeBatch self t records).table := by
  have hattach : Keeps (heldHandles records) t { t with
      nativeHandleMap := (attachLoop records t.nativeHandleMap).2.2 } := by
    obtain ⟨hlook, hmem⟩ := attachLoop_spec records t.nativeHandleMap
    refine ⟨⟨ht.next_lt, ?_⟩, le_rfl, ?_, ?_⟩
    · intro k hk
      rcases hmem k hk with hk | hk
      · exact ht.below k hk
      · exact hback k hk
    · intro k e hget _ _
      exact (hlook k (mem_of_get hget)).trans hget
    · intro k _ hnot hnamed hk
      exact (hmem k hk).elim hnot hnamed
  rw [Capability.restoreNativeBatch]
  split
  · split
    next heq =>
      rw [heq] at hattach
      exact hattach
    next heq =>
      rw [heq] at hattach
      exact hattach
  · exact refl ht

lemma commitNativeBatch (self : ℕ) (records : List TransferRecord) :
    Keeps named t (commitNativeBatch self t records).table := by
  rw [Capability.commitNativeBatch]
  induction records generalizing t with
  | nil => exact refl ht
  | cons r records ih =>
    rw [List.foldl_cons]
    by_cases hr : r.belongsTo self = true
    · have hone : Keeps named t
          { t with nativeEntryCount := Counter.sub t.nativeEntryCount 1 } := count ht _
      rw [if_pos hr]
      exact hone.trans (ih hone.issued)
    · rw [if_neg hr]
      exact ih ht

end Keeps

end Naos.Capability

namespace Naos.Ipc

open Capability Option

/-! ## The sections of another thread -/

inductive TableStep where
  | op (operation : TableOp)
  | take (self : ℕ) (ds : List Disposition) (target : Handle) (allocated : Bool)
  | restore (self : ℕ) (records : List TransferRecord)
  | commit (self : ℕ) (records : List TransferRecord)

def TableStep.apply (t : ResourceTable) : TableStep → ResourceTable
  | .op o => o.apply t
  | .take self ds target allocated => (takeNativeBatch self t ds target allocated).table
  | .restore self records => (restoreNativeBatch self t records).table
  | .commit self records => (commitNativeBatch self t records).table

/-- The handles an operation works on without asking whether a lookup shows them. -/
def TableOp.named : TableOp → List Handle
  | .activate h _ _ => [h]
  | .rollback handles => handles
  | .commitRestrict source restricted | .rollbackRestrict source restricted _ =>
    [source, restricted]
  | .install _ _ | .close _ | .duplicate _ _ | .reserve _ _ | .restrict _ _ => []

def TableStep.returned : TableStep → List Handle
  | .restore _ records => heldHandles records
  | .op _ | .take _ _ _ _ | .commit _ _ => []

def TableStep.named : TableStep → List Handle
  | .op o => o.named
  | .restore _ records => heldHandles records
  | .take _ _ _ _ | .commit _ _ => []

/-- The section is one of a thread that does not have the handles `held` of a call, which
are reserved by the call or whose nodes the call has detached: it names none of them, and
what it brings back once left this table. -/
def TableStep.Respects (t : ResourceTable) (held : List Handle) (st : TableStep) : Prop :=
  (∀ h ∈ st.named, h ∉ held) ∧ ∀ h ∈ st.returned, h < t.handleBound

instance (t : ResourceTable) (held : List Handle) (st : TableStep) :
    Decidable (st.Respects t held) :=
  inferInstanceAs (Decidable (_ ∧ _))

variable {t : ResourceTable}

lemma TableOp.Does.keeps {t' : ResourceTable} {op : TableOp} {hooks : List Hook}
    (h : op.Does t t' hooks) (ht : t.Issued) : Keeps op.named t t' := by
  cases h with
  | refused => exact .refl ht
  | install halloc hh => exact .allocate_put ht halloc hh _
  | close hget hactive => exact .drop ht hget (.inl hactive)
  | duplicate halloc hh => exact .allocate_put ht halloc hh _
  | reserve => exact .reserveLoop ht
  | activate hget => exact .set ht hget (.inr (List.mem_singleton.2 rfl)) _
  | rollback => exact .rollbackNative ht fun _ hh => hh
  | @restrict h t' halloc hh source e _ hget' hactive =>
    have hfresh : Keeps [] t t' ∧ _ ∧ _ ∧ _ := Keeps.allocate ht halloc hh
    obtain ⟨hkeep, hnew, hlt, hold⟩ := hfresh
    have hset : Keeps [] t' (t'.set source { e with state := .restricting }) :=
      .set hkeep.issued hget' (.inl hactive) _
    refine (hkeep.trans hset).put ?_ hlt hold _
    exact fun hmem => hnew (ResourceTable.mem_of_mem_set (ResourceTable.mem_of_get hget') hmem)
  | @commitRestrict source restricted hne e p hsource hrestricted _ o =>
    have hset : Keeps [source, restricted] t
        (t.set restricted { p with object := some o, state := .active }) :=
      .set ht hrestricted (.inr (by simp)) _
    have hget := ResourceTable.get_set_of_ne (t := t) hne
      { p with object := some o, state := .active }
    exact hset.trans (.drop hset.issued (hget.trans hsource) (.inr (by simp)))
  | @rollbackRestrict source restricted hne e p hsource hrestricted =>
    have hdrop : Keeps [source, restricted] t (t.drop restricted) :=
      .drop ht hrestricted (.inr (by simp))
    have hget := (ResourceTable.get_drop_of_ne hne).trans hsource
    exact hdrop.trans (.set hdrop.issued hget (.inr (by simp)) _)

lemma TableOp.keeps (ht : t.Issued) (o : TableOp) : Keeps o.named t (o.apply t) :=
  (o.does t).keeps ht

lemma TableStep.keeps (ht : t.Issued) {st : TableStep}
    (hback : ∀ h ∈ st.returned, h < t.handleBound) : Keeps st.named t (st.apply t) := by
  cases st with
  | op o => exact o.keeps ht
  | take self ds target allocated => exact Keeps.takeNativeBatch ht self ds target allocated
  | restore self records => exact Keeps.restoreNativeBatch ht self hback
  | commit self records => exact Keeps.commitNativeBatch ht self records

/-- The tables that other threads can leave behind, one section after the other, while a
call holds the unpublished handles `held`. -/
inductive Interfere (held : List Handle) : ResourceTable → ResourceTable → Prop where
  | done (t : ResourceTable) : Interfere held t t
  | step {t t' : ResourceTable} (st : TableStep) (hst : st.Respects t held)
      (hrest : Interfere held (st.apply t) t') : Interfere held t t'

/-- **An entry that is not visible survives the other threads.** -/
theorem get_interfere {held : List Handle} {t' : ResourceTable} (hrun : Interfere held t t')
    (ht : t.Issued) :
    t'.Issued ∧ ∀ h ∈ held, ∀ e, t.get h = some e → e.state ≠ .active → t'.get h = some e := by
  induction hrun with
  | done t => exact ⟨ht, fun _ _ _ hget _ => hget⟩
  | step st hst _ ih =>
    have hkeep := st.keeps ht hst.2
    obtain ⟨hissued, hlater⟩ := ih hkeep.issued
    refine ⟨hissued, ?_⟩
    intro h hh e hget hstate
    have hnot : h ∉ st.named := fun hmem => hst.1 h hmem hh
    exact hlater h hh e (hkeep.unseen h e hget hstate hnot) hstate

end Naos.Ipc
