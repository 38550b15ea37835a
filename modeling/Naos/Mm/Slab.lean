import Naos.Lib.Transition
import Mathlib

/-!
# Slabs

A `slab_group` keeps the slabs with a free object in one list and the full ones in another.
`alloc` moves a slab that it has filled.  `free` takes a slab that was full out of its list and
makes it point to the head of the other one, but the head is not changed: the slab is lost.
-/

namespace Naos.Slabs

open List Transition Function

/-- A `slab`; `bits` are the bits of the bitmap that are set. -/
structure Slab where
  bits : List ℕ := []
  rest : ℕ := 0
  prev : Option ℕ := none
  next : Option ℕ := none

/-- A `slab_group` with the slabs it has made, and the objects that are in use. -/
structure Group where
  nodePreSlab : ℕ
  slabs : ℕ → Slab := fun _ => {}
  count : ℕ := 0
  allObjUsed : ℕ := 0
  freeHead : Option ℕ := none
  usedHead : Option ℕ := none
  live : List (ℕ × ℕ) := []

namespace Group

def modify (g : Group) (k : ℕ) (f : Slab → Slab) : Group :=
  { g with slabs := fun j => if j = k then f (g.slabs j) else g.slabs j }

/-- An assignment to `prev`, unless the pointer is null. -/
def setPrev (g : Group) (k prev : Option ℕ) : Group :=
  { g with slabs := fun j => if k = some j then { g.slabs j with prev } else g.slabs j }

/-- `alloc` without a free slab. -/
def newMemoryNode (g : Group) : Group :=
  { g with
    slabs := update g.slabs g.count { rest := g.nodePreSlab }
    count := g.count + 1
    freeHead := some g.count }

def retire (g : Group) (k : ℕ) : Group :=
  let next := (g.slabs k).next
  let g := (g.modify k ({ · with prev := none, next := g.usedHead })).setPrev g.usedHead (some k)
  { g with freeHead := next, usedHead := some k }.setPrev next none

/-- `alloc`, where `none` is a failed assertion. -/
def alloc (g : Group) : Option Group :=
  let g := if g.freeHead = none then g.newMemoryNode else g
  (g.freeHead.bind fun k => ((range 512).find? (· ∉ (g.slabs k).bits)).map (k, ·)).bind
    fun (k, i) =>
      if i < g.nodePreSlab then
        let g := { g.modify k fun s => { s with bits := i :: s.bits, rest := s.rest - 1 } with
          allObjUsed := g.allObjUsed + 1
          live := (k, i) :: g.live }
        some (if (g.slabs k).rest = 0 then g.retire k else g)
      else none

/-- What `free` does with a slab that was full. -/
def restore (g : Group) (k : ℕ) : Group :=
  let ⟨_, _, prev, next⟩ := g.slabs k
  let g := g.setPrev next prev
  let g := match prev with
    | none => { g with usedHead := next }
    | some p => g.modify p ({ · with next })
  (g.modify k ({ · with prev := none, next := g.freeHead })).setPrev g.freeHead (some k)

def free (g : Group) (k i : ℕ) : Option Group :=
  if i < 512 ∧ i ∈ (g.slabs k).bits then
    let g := { g.modify k fun s => { s with bits := s.bits.erase i, rest := s.rest + 1 } with
      allObjUsed := g.allObjUsed - 1
      live := g.live.erase (k, i) }
    some (if (g.slabs k).rest = 1 then g.restore k else g)
  else none

end Group

inductive Action where
  | alloc
  | free (k i : ℕ)

def step (g : Group) : Action → Option Group
  | .alloc => g.alloc
  | .free k i => g.free k i

def Linked (slabs : ℕ → Slab) : Option ℕ → Option ℕ → List ℕ → Prop
  | _, head, [] => head = none
  | prev, head, k :: l =>
    head = some k ∧ (slabs k).prev = prev ∧ Linked slabs (some k) (slabs k).next l

/-- **The books are kept**: no object is handed out twice, the objects in use are counted, and
every slab is in the list it belongs to, and only there. -/
structure Kept (g : Group) : Prop where
  nodup : g.live.Nodup
  used : g.allObjUsed = g.live.length
  lists : ∃ free used, Linked g.slabs none g.freeHead free ∧ Linked g.slabs none g.usedHead used ∧
    (free ++ used).Nodup ∧ (∀ k, k ∈ free ↔ k < g.count ∧ (g.slabs k).rest ≠ 0) ∧
    ∀ k, k ∈ used ↔ k < g.count ∧ (g.slabs k).rest = 0

def Partial (g : Group) : Action → Prop
  | .alloc => True
  | .free k i => (k, i) ∈ g.live ∧ (g.slabs k).rest ≠ 0

instance (g : Group) (a : Action) : Decidable (Partial g a) := by
  cases a <;> unfold Partial <;> infer_instance

/-- Between such calls all slabs are full but the one in the list of free slabs. -/
structure Inv (g : Group) : Prop where
  size : 0 < g.nodePreSlab ∧ g.nodePreSlab ≤ 512
  bits : ∀ k < g.count, (g.slabs k).bits.Nodup ∧ (∀ i ∈ (g.slabs k).bits, i < g.nodePreSlab) ∧
    (g.slabs k).rest + (g.slabs k).bits.length = g.nodePreSlab
  live : ∀ k i, (k, i) ∈ g.live ↔ k < g.count ∧ i ∈ (g.slabs k).bits
  nodup : g.live.Nodup
  used : g.allObjUsed = g.live.length
  free : ∀ k, g.freeHead = some k ↔ k < g.count ∧ (g.slabs k).rest ≠ 0
  alone : ∀ k, g.freeHead = some k → (g.slabs k).prev = none ∧ (g.slabs k).next = none
  full : ∃ used, Linked g.slabs none g.usedHead used ∧ used.Nodup ∧
    ∀ k, k ∈ used ↔ k < g.count ∧ (g.slabs k).rest = 0

variable {g g' : Group} {k i : ℕ} {slabs slabs' : ℕ → Slab} {l : List ℕ} 
  {prev head head' : Option ℕ}

lemma Linked.congr (h : Linked slabs prev head l) (hhead : head' = head)
    (heq : ∀ k ∈ l, (slabs' k).prev = (slabs k).prev ∧ (slabs' k).next = (slabs k).next) :
    Linked slabs' prev head' l := by
  induction l generalizing prev head head' with
  | nil => exact hhead.trans h
  | cons k l ih =>
    obtain ⟨hk, hprev, hnext⟩ := h
    obtain ⟨hp, hn⟩ := heq k mem_cons_self
    exact ⟨hhead.trans hk, hp.trans hprev, ih hnext hn fun j hj => heq j (mem_cons_of_mem _ hj)⟩

lemma Inv.kept (h : Inv g) : Kept g where
  nodup := h.nodup
  used := h.used
  lists := by
    obtain ⟨used, hused, hnodup, hfull⟩ := h.full
    refine ⟨g.freeHead.toList, used, ?_, hused, ?_, by simpa using h.free, hfull⟩
    · cases hfree : g.freeHead with
      | none => rfl
      | some k => exact ⟨rfl, h.alone k hfree⟩
    · refine nodup_append'.2 ⟨by cases g.freeHead <;> simp, hnodup, fun k hk hu => ?_⟩
      exact ((h.free k).1 (by simpa using hk)).2 ((hfull k).1 hu).2

lemma Inv.newMemoryNode (h : Inv g) (hfree : g.freeHead = none) : Inv g.newMemoryNode := by
  have hold (k : ℕ) (hk : k < g.count) : (g.newMemoryNode.slabs k) = g.slabs k :=
    update_of_ne hk.ne _ _
  have hnew : g.newMemoryNode.slabs g.count = { rest := g.nodePreSlab } := update_self ..
  have hlt (k : ℕ) : k < g.newMemoryNode.count ↔ k < g.count ∨ k = g.count :=
    Nat.lt_succ_iff_lt_or_eq
  have hhead : g.newMemoryNode.freeHead = some g.count := rfl
  obtain ⟨used, hlinked, hnodup, hmem⟩ := h.full
  have hpos := h.size.1
  refine ⟨h.size, fun k hk => ?_, fun k i => ?_, h.nodup, h.used, fun k => ?_, fun k hk => ?_,
    used, hlinked.congr rfl fun k hk => ?_, hnodup, fun k => ?_⟩
  · rcases (hlt k).1 hk with hk | rfl
    · rw [hold k hk]
      exact h.bits k hk
    · rw [hnew]
      exact ⟨nodup_nil, by simp, rfl⟩
  · rw [show g.newMemoryNode.live = g.live from rfl, h.live]
    grind
  · have := h.free k
    grind
  · obtain rfl := Option.some.inj hk
    simp [hnew]
  · rw [hold k ((hmem k).1 hk).1]
    simp
  · rw [hmem]
    grind

lemma Inv.find (h : Inv g) (hk : g.freeHead = some k) :
    ∃ i, (range 512).find? (· ∉ (g.slabs k).bits) = some i ∧ i < g.nodePreSlab ∧
      i ∉ (g.slabs k).bits := by
  obtain ⟨hcount, hrest⟩ := (h.free k).1 hk
  obtain ⟨hnodup, -, hsum⟩ := h.bits k hcount
  -- some bit below the number of objects is not set
  have hsome : ¬ ∀ j < g.nodePreSlab, j ∈ (g.slabs k).bits := fun hall => by
    have := (nodup_range.subperm fun j hj => hall j (mem_range.1 hj)).length_le
    rw [length_range] at this
    omega
  have hsize := h.size.2
  cases hfind : (range 512).find? (· ∉ (g.slabs k).bits) with
  | none =>
    rw [find?_range_eq_none] at hfind
    exact absurd (fun j hj => by simpa using hfind j (by omega)) hsome
  | some i =>
    rw [find?_range_eq_some] at hfind
    refine ⟨i, rfl, ?_, by simpa using hfind.1⟩
    by_contra hi
    exact hsome fun j hj => by simpa using hfind.2.2 j (by omega)

lemma Inv.fill (h : Inv g) (hk : g.freeHead = some k) (hi : i < g.nodePreSlab)
    (hnot : i ∉ (g.slabs k).bits) {g₁ : Group}
    (hg₁ : g₁ = { g.modify k fun s => { s with bits := i :: s.bits, rest := s.rest - 1 } with
      allObjUsed := g.allObjUsed + 1
      live := (k, i) :: g.live }) :
    Inv (if (g₁.slabs k).rest = 0 then g₁.retire k else g₁) := by
  obtain ⟨hcount, hrest⟩ := (h.free k).1 hk
  obtain ⟨hprev, hnext⟩ := h.alone k hk
  obtain ⟨hbits, hlt, hsum⟩ := h.bits k hcount
  obtain ⟨used, hlinked, hnodup, hmem⟩ := h.full
  have hku : k ∉ used := fun hu => hrest ((hmem k).1 hu).2
  subst hg₁
  simp only [Group.modify, if_true]
  split_ifs with hfull
  · -- the slab is full, and it becomes the first of the full ones
    simp only [Group.retire, Group.modify, Group.setPrev, if_true, hnext]
    refine ⟨h.size, fun j hj => ?_, fun j m => ?_, ?_, by simp [h.used], fun j => ?_, by simp,
      k :: used, ?_, ?_, fun j => ?_⟩
    · have := h.bits j hj
      grind
    · have := h.live j m
      grind
    · exact nodup_cons.2 ⟨by rw [h.live]; simp [hnot], h.nodup⟩
    · have := h.free j
      grind
    · cases used with
      | nil =>
        have hhead : g.usedHead = none := hlinked
        simp [Linked, hhead]
      | cons u used =>
        obtain ⟨hhead, -, htail⟩ := hlinked
        have hne : u ≠ k := fun heq => hku (heq ▸ mem_cons_self)
        refine ⟨rfl, by simp [hhead, hne], by simp [hhead, hne], by simp [hhead], ?_⟩
        exact htail.congr (by simp [hhead, hne]) fun j hj => by grind
    · exact nodup_cons.2 ⟨hku, hnodup⟩
    · have := hmem j
      have := h.free j
      grind
  · refine ⟨h.size, fun j hj => ?_, fun j m => ?_, ?_, by simp [h.used], fun j => ?_,
      fun j hj => ?_, used, hlinked.congr rfl fun j hj => ?_, hnodup, fun j => ?_⟩
    · have := h.bits j hj
      grind
    · have := h.live j m
      grind
    · exact nodup_cons.2 ⟨by rw [h.live]; simp [hnot], h.nodup⟩
    · have := h.free j
      grind
    · have := h.alone j hj
      grind
    · grind
    · have := hmem j
      grind

lemma Inv.alloc (h : Inv g) : ∃ g', g.alloc = some g' ∧ Inv g' := by
  have hhead : ∃ g₁ k, (if g.freeHead = none then g.newMemoryNode else g) = g₁ ∧
      g₁.freeHead = some k ∧ Inv g₁ := by
    split_ifs with hfree
    · exact ⟨_, _, rfl, rfl, h.newMemoryNode hfree⟩
    · obtain ⟨k, hk⟩ := Option.ne_none_iff_exists'.1 hfree
      exact ⟨_, k, rfl, hk, h⟩
  obtain ⟨g₁, k, heq, hk, h₁⟩ := hhead
  obtain ⟨i, hfind, hi, hnot⟩ := h₁.find hk
  refine ⟨_, ?_, h₁.fill hk hi hnot rfl⟩
  simp only [Group.alloc, heq, hk, Option.bind_some, hfind, Option.map_some, if_pos hi]

lemma Inv.free_of_partial (h : Inv g) (hlive : (k, i) ∈ g.live) (hrest : (g.slabs k).rest ≠ 0) :
    ∃ g', g.free k i = some g' ∧ Inv g' := by
  obtain ⟨hcount, hi⟩ := (h.live k i).1 hlive
  obtain ⟨hbits, hlt, hsum⟩ := h.bits k hcount
  obtain ⟨used, hlinked, hnodup, hmem⟩ := h.full
  have hbound : i < 512 := (hlt i hi).trans_le h.size.2
  have hlen := length_erase_of_mem hi
  have hpos := length_pos_of_mem hi
  refine ⟨_, by simp [Group.free, hbound, hi, Group.modify, hrest]; rfl, ?_⟩
  refine ⟨h.size, fun j hj => ?_, fun j m => ?_, h.nodup.erase _, ?_, fun j => ?_, fun j hj => ?_,
    used, hlinked.congr rfl fun j hj => ?_, hnodup, fun j => ?_⟩
  · have := h.bits j hj
    have := hbits.erase i
    grind
  · rw [h.nodup.mem_erase_iff, h.live]
    grind [Nodup.mem_erase_iff]
  · rw [length_erase_of_mem hlive, h.used]
  · have := h.free j
    grind
  · have := h.alone j hj
    grind
  · grind
  · have := hmem j
    grind

/-- **Along every run of `alloc` and of `free` on slabs that are not full the books are kept**,
and no assertion fails. -/
theorem kept_of_partial (n : ℕ) (hn : 0 < n ∧ n ≤ 512) (actions : List Action)
    (h : Along step Partial { nodePreSlab := n } actions) :
    ∃ g, exec step { nodePreSlab := n } actions = some g ∧ Kept g := by
  have hstart : Inv { nodePreSlab := n } :=
    ⟨hn, by simp, by simp, nodup_nil, rfl, by simp, by simp, [], rfl, nodup_nil, by simp⟩
  obtain ⟨g, hrun, hinv⟩ := exec_exists (I := Inv) (fun g a hg ha => by
    cases a with
    | alloc => exact hg.alloc
    | free k i => exact hg.free_of_partial ha.1 ha.2) hstart h
  exact ⟨g, hrun, hinv.kept⟩

theorem kept_of_partial_reuse :
    ∃ g, exec step { nodePreSlab := 2 } [.alloc, .free 0 0, .alloc] = some g ∧ Kept g :=
  kept_of_partial 2 (by decide) _ (by decide +kernel)

/-- **A full slab of which an object is freed is in no list.** -/
theorem not_kept_freedFull :
    ¬ ∃ g, exec step { nodePreSlab := 2 } [.alloc, .alloc, .free 0 0] = some g ∧ Kept g := by
  rintro ⟨g, hrun, hkept⟩
  have hlost : (exec step { nodePreSlab := 2 } [.alloc, .alloc, .free 0 0]).map
      (fun g => (g.freeHead, g.count, (g.slabs 0).rest)) = some (none, 1, 1) := by decide +kernel
  rw [hrun] at hlost
  simp only [Option.map_some, Option.some.injEq, Prod.mk.injEq] at hlost
  obtain ⟨free, used, hfree, -, -, hmem, -⟩ := hkept.lists
  cases free with
  | nil => simpa [hlost] using hmem 0
  | cons k l => simpa [hlost] using hfree.1

/-- `(x + align - 1) & ~(align - 1)`, for a power of two. -/
def alignUp (x align : ℕ) : ℕ := (x + align - 1) / align * align

/-- What the constructor of `slab_group` computes from `size` and `align`. -/
structure Geometry where
  size : ℕ
  align : ℕ

namespace Geometry

variable (g : Geometry)

def objAlignSize : ℕ := alignUp g.size g.align

/-- The first page without the header of 96 bytes. -/
def restsize : ℕ := (2 ^ 64 + 4096 - alignUp 96 g.align) % 2 ^ 64

def pagePreSlab : ℕ :=
  if g.objAlignSize * 64 > g.restsize then
    if g.objAlignSize * 16 > g.restsize then
      if g.objAlignSize * 4 > g.restsize then
        if g.objAlignSize > g.restsize then 16 else 8
      else 4
    else 2
  else 1

/-- The five divisions of the constructor are one in terms of the pages. -/
def nodePreSlab : ℕ := (g.restsize + 4096 * (g.pagePreSlab - 1)) / g.objAlignSize % 2 ^ 32

/-- `data_ptr` of the slab at `s`. -/
def dataPtr (s : ℕ) : ℕ := alignUp (s + 96) g.align

/-- What `alloc` returns for the bit `i` of the slab at `s`. -/
def object (s i : ℕ) : ℕ := g.dataPtr s + i * g.objAlignSize

/-- The slab that `free` finds for a pointer. -/
def slabOf (ptr : ℕ) : ℕ := ptr / (4096 * g.pagePreSlab) * (4096 * g.pagePreSlab)

def indexOf (ptr : ℕ) : ℕ := (ptr - g.dataPtr (g.slabOf ptr)) / g.objAlignSize

/-- The layout of the slab at `s`. -/
structure Sound (s : ℕ) : Prop where
  count : 1 ≤ g.nodePreSlab ∧ g.nodePreSlab ≤ 512
  inside : ∀ i < g.nodePreSlab, s + 96 ≤ g.object s i ∧
    g.object s i + g.size ≤ s + 4096 * g.pagePreSlab
  aligned : ∀ i < g.nodePreSlab, g.align ∣ g.object s i
  disjoint : ∀ j < g.nodePreSlab, ∀ i < j, g.object s i + g.size ≤ g.object s j
  recovered : ∀ i < g.nodePreSlab, g.slabOf (g.object s i) = s ∧ g.indexOf (g.object s i) = i

variable {g} {x align s : ℕ}

lemma le_alignUp (h : 0 < align) : x ≤ alignUp x align := by
  have hdiv := Nat.div_add_mod (x + align - 1) align
  have hmod := Nat.mod_lt (x + align - 1) h
  rw [alignUp, mul_comm]
  omega

lemma alignUp_add (h : 0 < align) (hdvd : align ∣ s) :
    alignUp (s + x) align = s + alignUp x align := by
  obtain ⟨m, rfl⟩ := hdvd
  rw [alignUp, add_assoc, Nat.add_sub_assoc (by omega), Nat.mul_add_div h, add_mul, mul_comm m]
  rfl

lemma alignUp_header {k : ℕ} (halign : g.align = 2 ^ k) (hk : k ≤ 12) :
    96 ≤ alignUp 96 g.align ∧ alignUp 96 g.align ≤ 4096 ∧
      (alignUp 96 g.align ≤ 2048 ∨ 4096 ≤ g.align) ∧
      (alignUp 96 g.align = 96 ∨ 8 ≤ g.align) := by
  rw [halign]
  interval_cases k <;> decide

lemma restsize_eq {k : ℕ} (halign : g.align = 2 ^ k) (hk : k ≤ 12) :
    g.restsize = 4096 - alignUp 96 g.align := by
  have := alignUp_header halign hk
  unfold restsize
  omega

lemma pagePreSlab_le (g : Geometry) : g.pagePreSlab ≤ 16 := by
  unfold pagePreSlab
  split_ifs <;> decide

/-- A number of objects that the bitmap can hold, and at least one. -/
lemma size_of_count {k : ℕ} (halign : g.align = 2 ^ k) (hk : k ≤ 12)
    (h : 1 ≤ g.nodePreSlab ∧ g.nodePreSlab ≤ 512) :
    8 ≤ g.objAlignSize ∧ g.objAlignSize + alignUp 96 g.align ≤ 65536 := by
  obtain ⟨hone, hmany⟩ := h
  have hhead := alignUp_header halign hk
  have hrest := restsize_eq halign hk
  have hpages := pagePreSlab_le g
  have hpos : 0 < g.objAlignSize := by
    by_contra hzero
    simp [nodePreSlab, Nat.eq_zero_of_not_pos hzero] at hone
  have hle := Nat.le_of_dvd hpos (Dvd.intro_left _ rfl : g.align ∣ g.objAlignSize)
  have hcount : g.nodePreSlab = (g.restsize + 4096 * (g.pagePreSlab - 1)) / g.objAlignSize := by
    refine Nat.mod_eq_of_lt ((Nat.div_le_self _ _).trans_lt ?_)
    omega
  rw [hcount] at hone hmany
  constructor
  · by_contra hsmall
    have hone : g.pagePreSlab = 1 := by
      unfold pagePreSlab
      rw [if_neg (by omega)]
    rw [hone] at hmany
    have := (Nat.div_lt_iff_lt_mul hpos).1 (Nat.lt_succ_iff.2 hmany)
    omega
  · have := (Nat.one_le_div_iff hpos).1 hone
    omega

lemma sound_of_size {k : ℕ} (halign : g.align = 2 ^ k) (hk : k ≤ 12)
    (hsize : 8 ≤ g.objAlignSize ∧ g.objAlignSize + alignUp 96 g.align ≤ 65536)
    (hs : 4096 * g.pagePreSlab ∣ s) : g.Sound s := by
  have hpos : 0 < g.align := halign ▸ Nat.two_pow_pos k
  have hdvd : g.align ∣ 4096 := halign ▸ pow_dvd_pow 2 hk
  have hdata : g.dataPtr s = s + alignUp 96 g.align :=
    alignUp_add hpos (hdvd.trans (dvd_of_mul_right_dvd hs))
  have hobj : g.align ∣ g.objAlignSize := Dvd.intro_left _ rfl
  have hle := Nat.le_of_dvd (by omega) hobj
  have hhead := alignUp_header halign hk
  have hrest := restsize_eq halign hk
  have hpages : 1 ≤ g.pagePreSlab ∧
      g.objAlignSize ≤ g.restsize + 4096 * (g.pagePreSlab - 1) ∧
      g.restsize + 4096 * (g.pagePreSlab - 1) < g.objAlignSize * 513 := by
    unfold pagePreSlab
    split_ifs <;> omega
  have hcount : g.nodePreSlab = (g.restsize + 4096 * (g.pagePreSlab - 1)) / g.objAlignSize :=
    Nat.mod_eq_of_lt ((Nat.div_lt_of_lt_mul hpages.2.2).trans (by decide))
  -- the object `i` and its padding end with the pages of the slab
  have hend : ∀ i < g.nodePreSlab,
      alignUp 96 g.align + i * g.objAlignSize + g.objAlignSize ≤ 4096 * g.pagePreSlab := by
    intro i hi
    have hmul := (Nat.le_div_iff_mul_le (by omega)).1 (hi.trans_le hcount.le)
    rw [hrest, Nat.succ_mul] at hmul
    omega
  have hobject : ∀ i, g.object s i = s + (alignUp 96 g.align + i * g.objAlignSize) :=
    fun i => by rw [object, hdata, add_assoc]
  have hsize' : g.size ≤ g.objAlignSize := le_alignUp hpos
  refine ⟨⟨?_, ?_⟩, fun i hi => ?_, fun i hi => ?_, fun j hj i hij => ?_, fun i hi => ?_⟩
  · rw [hcount, Nat.one_le_div_iff (by omega)]
    exact hpages.2.1
  · rw [hcount]
    exact Nat.lt_succ_iff.1 (Nat.div_lt_of_lt_mul hpages.2.2)
  · have := hend i hi
    rw [hobject]
    omega
  · exact dvd_add (Dvd.intro_left _ rfl) (hobj.mul_left i)
  · have := Nat.mul_le_mul_right g.objAlignSize hij
    rw [Nat.succ_mul] at this
    rw [hobject, hobject]
    omega
  · have hslab : g.slabOf (g.object s i) = s := by
      have hlt : alignUp 96 g.align + i * g.objAlignSize < 4096 * g.pagePreSlab := by
        have := hend i hi
        omega
      obtain ⟨q, rfl⟩ := hs
      rw [hobject, slabOf, Nat.mul_add_div (by omega), Nat.div_eq_of_lt hlt, add_zero, mul_comm]
    refine ⟨hslab, ?_⟩
    rw [indexOf, hslab, object, Nat.add_sub_cancel_left, Nat.mul_div_cancel _ (by omega)]

end Geometry

end Naos.Slabs
