import Naos.Mm.Tables

/-!
# A table of one's own

`share_page_entry` makes sure that the table behind an entry belongs to one address space
before something in it changes: a table with more references than one is copied entry by
entry, and every frame its entries name gets one more reference.  `ensure_single` does so for
an entry that is present and makes a new table for one that is not.
-/

namespace Naos.Mm

open Sharing Outcome Function List Sharing.Graph

def Panic.Zone (e : Panic) : Prop := e = .oom ∨ e = .reused

namespace Paging

variable {m m' : Paging} {b k g p t i f : ℕ}

lemma kassert_bind {α : Type} {c : Prop} [Decidable c] (h : c) (x : Unit → Except Panic α) :
    (kassert c >>= x) = x () := by
  rw [kassert, if_pos h]
  rfl

lemma allocate_ensures (m : Paging) :
    Ensures Panic.Zone m.allocate fun r => ∃ p rest, m.refs p = 0 ∧
      r = (p, { m with supply := rest, refs := update m.refs p 1 }) := by
  rw [allocate]
  split
  · exact .error (.inl rfl)
  · split
    · exact .error (.inr rfl)
    next hrefs => exact .ok ⟨_, _, not_not.1 hrefs, rfl⟩

lemma deallocate_ensures {E : Panic → Prop} (hpos : m.refs f ≠ 0) :
    Ensures E (m.deallocate f) fun m' =>
      m' = { m with refs := update m.refs f (m.refs f - 1) } := by
  rw [deallocate, if_pos (Nat.pos_of_ne_zero hpos)]
  exact .ok rfl

def withTableAt (m : Paging) (p : ℕ) (rest : List ℕ) : Paging :=
  { m with
    supply := rest
    refs := update m.refs p 1
    counter := update m.counter p 0
    entries := update m.entries p fun _ => {} }

lemma newPageTable_ensures (m : Paging) :
    Ensures Panic.Zone m.newPageTable fun r => ∃ p rest, m.refs p = 0 ∧
      r = (p, m.withTableAt p rest) := by
  refine (allocate_ensures m).bind ?_
  rintro _ ⟨p, rest, hp, rfl⟩
  exact .ok ⟨p, rest, hp, rfl⟩

/-! ## Copying the entries of a shared table -/

/-- The number of indices below `n` where the table has the frame. -/
def occurrences (m : Paging) (next f n : ℕ) : ℕ :=
  (range n).countP fun i => m.graph.link next i = some f

lemma encard_link (m : Paging) (next f : ℕ) :
    {i | m.graph.link next i = some f}.encard = (m.occurrences next f slots : ℕ∞) := by
  have hbelow : {i | m.graph.link next i = some f} =
      ↑((Finset.range slots).filter fun i => m.graph.link next i = some f) := by
    ext i
    simpa using fun h => (link_eq_some.1 h).1
  rw [hbelow, Set.encard_coe_eq_coe_finsetCard, Finset.card_def, Finset.filter_val,
    Finset.range_val, ← Multiset.countP_eq_card_filter, Multiset.range, Multiset.coe_countP,
    occurrences]

/-- The state of the loop of `share_page_entry` after `n` passes. -/
structure Copied (m : Paging) (next p : ℕ) (flags : Flags) (n : ℕ) (s : Paging × ℕ) : Prop where
  new : s.2 = (range n).countP fun i => (m.entries next i).flags.present
  entries : ∀ t i, s.1.entries t i =
    if (t = next ∨ t = p) ∧ i < n ∧ (m.entries next i).flags.present then
      ⟨(m.entries next i).frame, flags⟩
    else m.entries t i
  refs : ∀ f, s.1.refs f = m.refs f + m.occurrences next f n
  supply : s.1.supply = m.supply
  counter : s.1.counter = m.counter
  bytes : s.1.bytes = m.bytes
  tables : s.1.tables = m.tables

lemma countP_range_lt {q : ℕ → Bool} {n : ℕ} (hn : n < k) (hq : q n) :
    (range n).countP q < (range k).countP q := by
  have hsucc : (range n).countP q < (range (n + 1)).countP q := by
    rw [range_succ, countP_append, countP_singleton, if_pos hq]
    omega
  exact hsucc.trans_le (Sublist.countP_le (range_sublist.2 hn))

variable {next base index : ℕ} {actions : Actions} {entry flags : Flags}

lemma copied_foldl (flags : Flags) (hne : next ≠ p) : ∀ n ≤ slots, Copied m next p flags n
      ((range n).foldl (copyEntry next p (m.count next) flags) (m, 0)) := by
  intro n
  induction n with
  | zero =>
    intro _
    constructor <;> simp [occurrences]
  | succ n ih =>
    intro hn
    have hs := ih (by omega)
    rw [range_succ, foldl_append, foldl_cons, foldl_nil]
    generalize (range n).foldl (copyEntry next p (m.count next) flags) (m, 0) = s at hs ⊢
    have hentry : s.1.entries next n = m.entries next n := by rw [hs.entries, if_neg (by omega)]
    rw [copyEntry, hentry]
    by_cases hpresent : (m.entries next n).flags.present = true
    · have hroom : s.2 < m.count next := by
        rw [hs.new]
        exact countP_range_lt hn hpresent
      rw [if_pos ⟨hroom, hpresent⟩]
      exact
        { new := by
            rw [range_succ, countP_append, countP_singleton, if_pos hpresent, hs.new]
          entries := by
            intro t j
            have hlt : j ≠ n → (j < n + 1 ↔ j < n) := by omega
            simp only [setFlags, entries_setEntry, and_self, if_true]
            by_cases hj : j = n
            · subst hj
              by_cases htp : t = p
              · simp [htp, hpresent, addRefCount, hentry]
              · by_cases htn : t = next
                · simp [htn, hne, hpresent, addRefCount, hentry]
                · simp [htp, htn, addRefCount, hs.entries]
            · simp only [hj, and_false, if_false, addRefCount, hs.entries, hlt hj]
          refs := by
            intro f
            simp only [setEntry, setFlags, addRefCount, update_apply, hs.refs,
              occurrences, range_succ, countP_append, countP_singleton,
              link_of_present hn hpresent, Option.some.injEq, decide_eq_true_eq]
            by_cases hf : f = (m.entries next n).frame
            · subst hf
              simp
              omega
            · simp [hf, Ne.symm hf]
          supply := hs.supply
          counter := hs.counter
          bytes := hs.bytes
          tables := hs.tables }
    · rw [if_neg fun h => hpresent h.2]
      have hnone : m.graph.link next n = none := (link_eq_none hn).2 (by simpa using hpresent)
      exact
        { new := by
            rw [range_succ, countP_append, countP_singleton, if_neg hpresent, hs.new, Nat.add_zero]
          entries := by
            intro t j
            rw [hs.entries]
            by_cases hj : j = n
            · subst hj
              simp [hpresent]
            · have hlt : j < n + 1 ↔ j < n := by omega
              simp only [hlt]
          refs := by
            intro f
            rw [hs.refs, occurrences, occurrences, range_succ, countP_append,
              countP_singleton, hnone]
            simp
          supply := hs.supply
          counter := hs.counter
          bytes := hs.bytes
          tables := hs.tables }

lemma occurrences_eq_zero (h : ∀ i, m.graph.link next i ≠ some f) (n : ℕ) :
    m.occurrences next f n = 0 := by
  rw [occurrences, countP_eq_zero]
  intro i _
  simpa using h i

def unshared (m : Paging) (base index p : ℕ) (flags : Flags) (rest : List ℕ) : Paging :=
  let next := (m.entries base index).frame
  { m with
    supply := rest
    refs := fun f =>
      if f = p then 1 else if f = next then m.refs f - 1
      else m.refs f + m.occurrences next f slots
    counter := update m.counter p (m.counter next)
    entries := fun t i =>
      if t = base ∧ i = index then ⟨p, flags⟩
      else if (t = next ∨ t = p) ∧ i < slots ∧ (m.entries next i).flags.present then
        ⟨(m.entries next i).frame, flags.readonly⟩
      else if t = p then {}
      else m.entries t i }

/-- **What `share_page_entry` does**: nothing, new flags for a table of its own, or a copy of
a shared table. -/
theorem sharePageEntry_ensures (h : m.Accounts b) (hb : b ≤ 1) (hbase : base ∈ m.graph.tier k)
    (hk : k < 3) (hlink : m.graph.link base index = some (m.entries base index).frame)
    (flags : Flags) (actions : Actions) :
    Ensures Panic.Zone (m.sharePageEntry base index flags actions) fun m' =>
      (flags.readonly = flags ∧ actions.copyAll = false ∧ m' = m) ∨
      (m.refs (m.entries base index).frame = 1 ∧ m' = m.setFlags base index flags) ∨
      (m.refs (m.entries base index).frame ≠ 1 ∧ ∃ p rest, m.refs p = 0 ∧
        m' = m.unshared base index p flags rest) := by
  rw [sharePageEntry]
  split
  next hnothing => exact .ok (.inl ⟨hnothing.1, hnothing.2, rfl⟩)
  dsimp only
  split
  next hone => exact .ok (.inr (.inl ⟨hone, rfl⟩))
  next hshared =>
  generalize hnext : (m.entries base index).frame = next at hshared hlink ⊢
  have hnextTier : next ∈ m.graph.tier (k + 1) := tier_of_link hbase hlink
  have hexact := h.counter (k + 1) (by omega) (by omega) next hnextTier
  rw [kassert_bind hexact.symm]
  refine (newPageTable_ensures m).bind ?_
  rintro _ ⟨p, rest, hp, rfl⟩
  have hnp : next ≠ p := h.ne_of_mem hp (by omega) hnextTier
  have hsameEntries : (m.withTableAt p rest).entries next = m.entries next := by
    simp [withTableAt, update_of_ne hnp]
  have hsameLink : ∀ i, (m.withTableAt p rest).graph.link next i = m.graph.link next i := by
    intro i
    rw [graph_link, graph_link, hsameEntries]
  have hloop := copied_foldl (m := m.withTableAt p rest) flags.readonly hnp slots le_rfl
  rw [count_congr hsameLink, ← hexact] at hloop
  generalize (range slots).foldl (copyEntry next p (m.counter next) flags.readonly)
    (m.withTableAt p rest, 0) = s at hloop ⊢
  have hnew : s.2 = m.counter next := by
    rw [hloop.new, hexact, hsameEntries]
    rfl
  rw [kassert_bind hnew]
  have hocc : ∀ f, (m.withTableAt p rest).occurrences next f slots =
      m.occurrences next f slots := by
    intro f
    simp only [occurrences, hsameLink]
  have hself : m.occurrences next next slots = 0 := by
    refine occurrences_eq_zero (fun i hi => ?_) _
    have hmem := tier_of_link hnextTier hi
    have := h.counted.apart (k + 1) (by omega) (k + 2) (by omega) next hnextTier hmem
    omega
  have hfresh : m.occurrences next p slots = 0 := by
    refine occurrences_eq_zero (fun i hi => ?_) _
    exact h.notMem_tier hp (k + 2) (by omega) (tier_of_link hnextTier hi)
  have hrefsNext : s.1.refs next = m.refs next := by
    rw [hloop.refs, hocc, hself]
    simp [withTableAt, update_of_ne hnp]
  have hpos : s.1.refs next ≠ 0 := by
    rw [hrefsNext]
    exact h.counted.pos (by omega) hnextTier
  refine (deallocate_ensures hpos).bind ?_
  rintro _ rfl
  refine .ok (.inr (.inr ⟨hshared, p, rest, hp, ?_⟩))
  rw [unshared, hnext]
  apply Paging.ext
  · exact hloop.supply
  · funext f
    simp only [setCounter, setEntry, update_apply]
    by_cases hfn : f = next
    · subst hfn
      rw [if_pos rfl, if_neg hnp, if_pos rfl, hrefsNext]
    rw [if_neg hfn, if_neg hfn, hloop.refs, hocc]
    by_cases hfp : f = p
    · subst hfp
      rw [if_pos rfl, hfresh]
      simp [withTableAt]
    · simp [withTableAt, hfp]
  · funext t
    simp only [setCounter, setEntry, update_apply, hloop.counter, hnew]
    by_cases htp : t = p <;> simp [withTableAt, htp]
  · funext t i
    rw [entries_setEntry]
    simp only [setCounter, hloop.entries, hsameEntries]
    by_cases htp : t = p <;> simp [withTableAt, htp]
  · exact hloop.bytes
  · exact hloop.tables

section unshared

variable {base index : ℕ} {flags : Flags} (rest : List ℕ)

lemma link_unshared (hflags : flags.present) (hpbase : p ≠ base)
    (hnp : (m.entries base index).frame ≠ p) (t i : ℕ) :
    (m.unshared base index p flags rest).graph.link t i =
      if t = base ∧ i = index then if index < slots then some p else none
      else if t = p then m.graph.link (m.entries base index).frame i
      else m.graph.link t i := by
  have hro : flags.readonly.present = true := hflags
  simp only [graph_link, unshared]
  by_cases hself : t = base ∧ i = index
  · simp [hself, hflags]
  simp only [if_neg hself]
  by_cases htp : t = p
  · subst htp
    by_cases hpresent :
        i < slots ∧ (m.entries (m.entries base index).frame i).flags.present = true
    · simp [hpresent, hro]
    · simp [hpresent]
  · simp only [htp, or_false, if_false]
    by_cases hnext : t = (m.entries base index).frame ∧ i < slots ∧
          (m.entries (m.entries base index).frame i).flags.present = true
    · simp [hnext, hro]
    · simp only [if_neg hnext]

lemma rewires_unshared (h : m.Accounts b) (hbase : base ∈ m.graph.tier k) (hk : k < 3)
    (hlink : m.graph.link base index = some (m.entries base index).frame)
    (hflags : flags.present) (hp : m.refs p = 0) :
    m.graph.Rewires (m.unshared base index p flags rest).graph 4 k base index := by
  have hnp := h.ne_of_mem hp (j := k + 1) (by omega) (tier_of_link hbase hlink)
  have hpbase := (h.ne_of_mem hp (j := k) (by omega) hbase).symm
  refine rewires rfl hbase (by omega) fun j hj x hx i' hne => ?_
  rw [link_unshared rest hflags hpbase hnp, if_neg (by tauto), if_neg (h.ne_of_mem hp hj hx)]

lemma Accounts.unshared (h : m.Accounts b) (hb : b ≤ 1) (hbase : base ∈ m.graph.tier k)
    (hk : k < 3) (hlink : m.graph.link base index = some (m.entries base index).frame)
    (hflags : flags.present) (hp : m.refs p = 0)
    (hshared : m.refs (m.entries base index).frame ≠ 1) :
    (m.unshared base index p flags rest).Accounts b := by
  have hr := rewires_unshared rest h hbase hk hlink hflags hp
  have hnextTier := tier_of_link hbase hlink
  have hi := (link_eq_some.1 hlink).1
  have hnp := h.ne_of_mem hp (j := k + 1) (by omega) hnextTier
  have hpbase := (h.ne_of_mem hp (j := k) (by omega) hbase).symm
  have hlinks : ∀ t i, (m.unshared base index p flags rest).graph.link t i = _ :=
    link_unshared rest hflags hpbase hnp
  have hnew : (m.unshared base index p flags rest).graph.link base index = some p := by
    rw [hlinks, if_pos ⟨rfl, rfl⟩, if_pos hi]
  have hcopy : ∀ i, (m.unshared base index p flags rest).graph.link p i =
      m.graph.link (m.entries base index).frame i := by
    intro i
    rw [hlinks, if_neg fun hself => hpbase hself.1, if_pos rfl]
  refine h.rewire hr hi (hr.next_of_copy h.counted hlink hshared hnew hcopy) ?_ ?_ ?_ ?_
  · refine h.counted.copy hr (by omega) hlink hshared hnew (h.notMem_tier hp) hcopy ?_ ?_ ?_ ?_
    · simp [Paging.unshared]
    · have hpos := h.counted.pos (by omega) hnextTier
      simp only [Paging.unshared, if_neg hnp, if_true]
      omega
    · intro f hf
      have hfp : f ≠ p := h.ne_of_mem hp (by omega) hf
      have hfn : f ≠ (m.entries base index).frame := by
        intro heq
        rw [heq] at hf
        have := h.counted.apart (k + 1) (by omega) (k + 2) (by omega) _ hnextTier hf
        omega
      simp only [Paging.unshared, if_neg hfp, if_neg hfn]
      rw [encard_link, Nat.cast_add]
    · intro j hj hne f hf hfn
      have hfp : f ≠ p := h.ne_of_mem hp hj hf
      have hzero : m.occurrences (m.entries base index).frame f slots = 0 := by
        refine occurrences_eq_zero (fun i hi => hne ?_) _
        exact h.counted.apart j hj (k + 2) (by omega) f hf (tier_of_link hnextTier hi)
      simp only [Paging.unshared, if_neg hfp, if_neg hfn, hzero, Nat.add_zero]
  · intro _
    rw [hlink, hnew]
    simp [Paging.unshared, update_of_ne hpbase.symm]
  · intro hlt f hf _
    obtain rfl : p = f := Option.some.inj (hnew.symm.trans hf)
    rw [count_congr hcopy, ← h.counter (k + 1) hlt (by omega) _ hnextTier]
    simp [Paging.unshared]
  · intro j hj x hx _
    simp [Paging.unshared, update_of_ne (h.ne_of_mem hp hj.le hx)]

end unshared

/-! ## A table behind an entry -/

/-- The flags `ensure_single` asks for behind a present entry. -/
def wantedFlags (entry flags : Flags) (actions : Actions) : Flags :=
  (if entry.union flags ≠ entry ∧ (actions.cow || actions.override) then flags.union entry
    else flags).unused

lemma present_wantedFlags (h : flags.present) :
    (wantedFlags entry flags actions).present = true := by
  rw [wantedFlags]
  split <;> simp [Flags.unused, Flags.union, h]

lemma writable_wantedFlags (h : flags.writable) :
    (wantedFlags entry flags actions).writable = true := by
  rw [wantedFlags]
  split <;> simp [Flags.unused, Flags.union, h]

def attached (m : Paging) (base index p : ℕ) (flags : Flags) (rest : List ℕ) : Paging :=
  let m := m.withTableAt p rest
  (m.setCounter base (m.counter base + 1)).setEntry base index ⟨p, flags⟩

/-- **What `ensure_single` does** behind one entry of a live table. -/
inductive Ensured (m : Paging) (base index : ℕ) (flags : Flags) (actions : Actions) :
    Paging → Prop
  | nothing (hlink : m.graph.link base index = some (m.entries base index).frame)
      (hflags : flags.writable = false) (hactions : actions.copyAll = false) :
      Ensured m base index flags actions m
  | reflag (hlink : m.graph.link base index = some (m.entries base index).frame)
      (hsole : m.refs (m.entries base index).frame = 1) {wanted : Flags}
      (hwanted : wanted.present) :
      Ensured m base index flags actions (m.setFlags base index wanted)
  | copy (hlink : m.graph.link base index = some (m.entries base index).frame)
      (hshared : m.refs (m.entries base index).frame ≠ 1) {p : ℕ} (hp : m.refs p = 0)
      {wanted : Flags} (hwanted : wanted.present) (rest : List ℕ) :
      Ensured m base index flags actions (m.unshared base index p wanted rest)
  | new (hnone : m.graph.link base index = none) {p : ℕ} (hp : m.refs p = 0) (rest : List ℕ) :
      Ensured m base index flags actions (m.attached base index p flags rest)

section attached

variable {base index : ℕ} {flags : Flags} (rest : List ℕ)

lemma link_attached (hi : index < slots) (hflags : flags.present) (hpbase : p ≠ base) (t i : ℕ) :
    (m.attached base index p flags rest).graph.link t i =
      if t = base ∧ i = index then some p else if t = p then none else m.graph.link t i := by
  rw [attached, graph_setEntry]
  by_cases hself : t = base ∧ i = index
  · rw [if_pos hself, if_pos hself, if_pos ⟨hi, hflags⟩]
  · rw [if_neg hself, if_neg hself]
    by_cases htp : t = p
    · subst htp
      simp [graph_link, withTableAt, setCounter]
    · simp [graph_link, withTableAt, setCounter, htp]

lemma rewires_attached (h : m.Accounts b) (hbase : base ∈ m.graph.tier k) (hk : k < 3)
    (hi : index < slots) (hflags : flags.present) (hp : m.refs p = 0) :
    m.graph.Rewires (m.attached base index p flags rest).graph 4 k base index := by
  have hpbase := (h.ne_of_mem hp (j := k) (by omega) hbase).symm
  refine rewires rfl hbase (by omega) fun j hj x hx i' hne => ?_
  rw [link_attached rest hi hflags hpbase, if_neg (by tauto), if_neg (h.ne_of_mem hp hj hx)]

lemma Accounts.attached (h : m.Accounts b) (hbase : base ∈ m.graph.tier k) (hk : k < 3)
    (hi : index < slots) (hflags : flags.present)
    (hnone : m.graph.link base index = none) (hp : m.refs p = 0) :
    (m.attached base index p flags rest).Accounts b := by
  have hr := rewires_attached rest h hbase hk hi hflags hp
  have hpbase := (h.ne_of_mem hp (j := k) (by omega) hbase).symm
  have hlinks : ∀ t i, (m.attached base index p flags rest).graph.link t i = _ :=
    link_attached rest hi hflags hpbase
  refine h.attach hr hi hnone hp ?_ ?_ ?_ ?_ ?_
  · rw [hlinks, if_pos ⟨rfl, rfl⟩]
  · intro _
    refine ⟨?_, fun i' => ?_⟩
    · simp [Paging.attached, withTableAt, setCounter, setEntry, update_apply, hpbase]
    · rw [hlinks, if_neg fun hself => hpbase hself.1, if_pos rfl]
  · simp [Paging.attached, withTableAt, setCounter, setEntry]
  · simp [Paging.attached, withTableAt, setCounter, setEntry, update_of_ne hpbase.symm]
  · intro x hxb hxp
    simp [Paging.attached, withTableAt, setCounter, setEntry, hxb, hxp]

end attached

lemma ensureSingle_ensures (h : m.Accounts b) (hb : b ≤ 1) (hbase : base ∈ m.graph.tier k)
    (hk : k < 3) (hi : index < slots) (hflags : flags.present) (actions : Actions)
    (hexact : m.graph.link base index = none → m.counter base = m.count base) :
    Ensures Panic.Zone (m.ensureSingle base index flags actions)
      (m.Ensured base index flags actions) := by
  rw [ensureSingle, if_neg (by omega)]
  dsimp only
  split
  next hpresent =>
    have hlink := link_of_present hi hpresent
    refine (sharePageEntry_ensures h hb hbase hk hlink _ actions).mono (fun _ => id) ?_
    rintro m' (⟨hro, hactions, rfl⟩ | ⟨hsole, rfl⟩ | ⟨hshared, p, rest, hp, rfl⟩)
    · refine .nothing hlink ?_ hactions
      by_contra hwritable
      rw [Bool.not_eq_false] at hwritable
      have hwanted : (wantedFlags (m'.entries base index).flags flags actions).writable :=
        writable_wantedFlags hwritable
      have hnot := congrArg Flags.writable hro
      rw [wantedFlags] at hwanted
      rw [hwanted] at hnot
      cases hnot
    · exact .reflag hlink hsole (present_wantedFlags hflags)
    · exact .copy hlink hshared hp (present_wantedFlags hflags) rest
  next habsent =>
    have hnone : m.graph.link base index = none := (link_eq_none hi).2 (by simpa using habsent)
    refine (newPageTable_ensures m).bind ?_
    rintro _ ⟨p, rest, hp, rfl⟩
    have hpbase := (h.ne_of_mem hp (j := k) (by omega) hbase).symm
    have hlinks := link_attached (m := m) rest hi hflags hpbase
    have hcount : (m.attached base index p flags rest).count base =
        (m.attached base index p flags rest).counter base := by
      have hother : ∀ i', i' ≠ index → (m.attached base index p flags rest).graph.link base i' =
            m.graph.link base i' := by
        intro i' hi'
        rw [hlinks, if_neg (by tauto), if_neg hpbase.symm]
      have hchange := count_change hi hother
      rw [hnone, hlinks, if_pos ⟨rfl, rfl⟩, ← hexact hnone] at hchange
      simpa [attached, withTableAt, setCounter, setEntry, update_of_ne hpbase.symm] using hchange
    change Ensures Panic.Zone (kassert ((m.attached base index p flags rest).count base =
      (m.attached base index p flags rest).counter base) >>=
        fun _ => .ok (m.attached base index p flags rest)) _
    rw [kassert_bind hcount]
    exact .ok (.new hnone hp rest)

end Paging

end Naos.Mm
