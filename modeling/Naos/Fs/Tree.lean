import Naos.Fs.Confinement
import Mathlib

/-!
# The tree of entries

`Tree` says that the entries form a tree: children and parents agree, siblings have different
names, the parents of an entry lead to the root, and the link count of a regular file is the
number of entries that name it.  `Inv` is what the operations keep: it adds the counts of all
inodes, and what is still there when an entry has left the tree.

An operation does one of a few things to the heap: an entry is put into a directory, taken out of
it, moved or given back, or a file is opened or closed.  Each of them keeps `Inv`, under a
condition that the code does not test everywhere.
-/

namespace Naos.Fs.Vfs

open Option Vfs

/-! ## Pointers -/

/-- `p` is the parent of `c`. -/
def Parent (s : Vfs) (c p : ℕ) : Prop := ∃ x, s.dentries c = some x ∧ x.parent = some p

/-- `c` is one of the children of `p`. -/
def Child (s : Vfs) (p c : ℕ) : Prop := ∃ e, s.dentries p = some e ∧ c ∈ e.children

def nameOf (s : Vfs) (c : ℕ) : Option Name := (s.dentries c).bind Dentry.name

def nodeOf (s : Vfs) (d : ℕ) : Option ℕ := (s.dentries d).bind Dentry.node

def Attached (s : Vfs) (d : ℕ) : Prop :=
  s.dentries d ≠ none ∧ (d = globalRoot ∨ ∃ p, s.Parent d p)

def names (s : Vfs) (i : ℕ) : Set ℕ := {d | s.Attached d ∧ s.nodeOf d = some i}

def opens (s : Vfs) (i : ℕ) : Set ℕ := {f | ∃ x, s.files f = some x ∧ s.nodeOf x.entry = some i}

def Unallocated (s : Vfs) : Prop :=
  (∀ d, s.nextDentry ≤ d → s.dentries d = none) ∧
    (∀ i, s.nextInode ≤ i → s.inodes i = none) ∧ ∀ f, s.nextFile ≤ f → s.files f = none

/-- **The entries form a tree.** -/
structure Tree (s : Vfs) : Prop where
  root : s.dentries globalRoot ≠ none ∧ ∀ p, ¬ s.Parent globalRoot p
  agree : ∀ p c, s.Child p c ↔ s.Parent c p
  nodup : ∀ p e, s.dentries p = some e → e.children.Nodup
  siblings : ∀ p c c', s.Parent c p → s.Parent c' p → s.nameOf c = s.nameOf c' → c = c'
  rooted : ∀ c p, s.Parent c p → s.Below globalRoot c
  acyclic : ∀ c p, s.Parent c p → ¬ s.Below c p
  links : ∀ i n, s.inodes i = some n → n.type = .file → (n.linkCount : ℕ∞) = (s.names i).encard

structure Inv (s : Vfs) : Prop where
  root : s.dentries globalRoot ≠ none ∧ ∀ p, ¬ s.Parent globalRoot p
  agree : ∀ p c, s.Child p c ↔ s.Parent c p
  nodup : ∀ p e, s.dentries p = some e → e.children.Nodup
  siblings : ∀ p c c', s.Parent c p → s.Parent c' p → s.nameOf c = s.nameOf c' → c = c'
  rooted : ∀ c p, s.Parent c p → s.Below globalRoot c
  named : ∀ c p, s.Parent c p → s.nameOf c ≠ none
  links : ∀ i n, s.inodes i = some n → (n.linkCount : ℕ∞) = (s.names i).encard
  refs : ∀ i n, s.inodes i = some n → (n.refCount : ℕ∞) = (s.opens i).encard
  node : ∀ d, s.dentries d ≠ none → ∃ i n, s.nodeOf d = some i ∧ s.inodes i = some n
  file : ∀ f x, s.files f = some x → s.dentries x.entry ≠ none
  detached : ∀ d i, s.dentries d ≠ none → ¬ s.Attached d → s.nodeOf d = some i →
    s.names i = ∅ ∧ ∀ d', s.nodeOf d' = some i → d' = d
  fresh : s.Unallocated

variable {s s' : Vfs} {d p i c r : ℕ} {n : Inode}

lemma nodeOf_some (h : s.nodeOf d = some i) : s.dentries d ≠ none := by
  intro hnone
  simp [nodeOf, hnone] at h

lemma Parent.live (h : s.Parent d p) : s.dentries d ≠ none := by
  obtain ⟨x, hx, -⟩ := h
  simp [hx]

lemma Parent.unique {p' : ℕ} (h : s.Parent d p) (h' : s.Parent d p') : p = p' := by
  obtain ⟨x, hx, hp⟩ := h
  obtain ⟨x', hx', hp'⟩ := h'
  obtain rfl : x = x' := some.inj (hx.symm.trans hx')
  exact some.inj (hp.symm.trans hp')

lemma Parent.below (h : s.Parent c p) (hp : s.Below r p) : s.Below r c := by
  obtain ⟨x, hx, hxp⟩ := h
  exact .step hx hxp hp

lemma Below.mono (hsub : ∀ c p, s.Parent c p → s'.Parent c p) (h : s.Below r c) :
    s'.Below r c := by
  induction h with
  | self => exact .self
  | step hc hp _ ih => exact (hsub _ _ ⟨_, hc, hp⟩).below ih

lemma opens_congr (hfiles : s'.files = s.files)
    (hnode : ∀ f x, s.files f = some x → s'.nodeOf x.entry = s.nodeOf x.entry) (j : ℕ) :
    s'.opens j = s.opens j := by
  ext f
  simp only [opens, Set.mem_ofPred_eq, hfiles]
  exact exists_congr fun x => and_congr_right fun hx => by rw [hnode f x hx]

lemma Below.acyclic (hroot : ∀ p, ¬ s.Parent globalRoot p) (h : s.Below globalRoot d) :
    ∀ p, s.Parent d p → ¬ s.Below d p := by
  induction h with
  | self => exact fun p hp => absurd hp (hroot p)
  | @step d q e hd hparent _ ih =>
    intro p hp hcycle
    obtain rfl : p = q := Parent.unique hp ⟨e, hd, hparent⟩
    have hup : ∀ x, s.Below d x → s.Below p x := by
      intro x hx
      induction hx with
      | self => exact hp.below .self
      | step hc hcp _ ih => exact .step hc hcp ih
    cases hcycle with
    | self => exact ih d hp .self
    | step hc hcp hbelow => exact ih _ ⟨_, hc, hcp⟩ (hup _ hbelow)

lemma Inv.tree (h : s.Inv) : s.Tree := ⟨h.root, h.agree, h.nodup, h.siblings, h.rooted,
    fun c p hp => Below.acyclic h.root.2 (h.rooted c p hp) p hp, fun i n hn _ => h.links i n hn⟩

lemma Parent.attached (h : s.Parent d p) : s.Attached d := ⟨h.live, .inr ⟨p, h⟩⟩

lemma Inv.parent_live (h : s.Inv) (hp : s.Parent d p) : s.dentries p ≠ none := by
  obtain ⟨e, he, -⟩ := (h.agree p d).2 hp
  simp [he]

lemma Inv.parent_attached (h : s.Inv) (hp : s.Parent d p) : s.Attached p := by
  refine ⟨h.parent_live hp, ?_⟩
  cases h.rooted d p hp with
  | self => exact absurd hp (h.root.2 p)
  | step hc hparent hbelow =>
    obtain rfl := Parent.unique hp ⟨_, hc, hparent⟩
    cases hbelow with
    | self => exact .inl rfl
    | step hc' hparent' _ => exact .inr ⟨_, _, hc', hparent'⟩

lemma Inv.below_root (h : s.Inv) (hc : s.Attached c) : s.Below globalRoot c := by
  rcases hc with ⟨-, rfl | ⟨q, hq⟩⟩
  · exact .self
  · exact h.rooted c q hq

lemma Inv.names_live (h : s.Inv) (hd : s.Attached d) (hi : s.nodeOf d = some i)
    (hn : s.inodes i = some n) : n.linkCount ≠ 0 := by
  intro hzero
  have hcount := h.links i n hn
  rw [hzero, Nat.cast_zero, eq_comm, Set.encard_eq_zero] at hcount
  have hmem : d ∈ s.names i := ⟨hd, hi⟩
  rw [hcount] at hmem
  exact hmem

/-! ## An entry is put into a directory -/

/-- A new entry `d` with the inode `i` is put into `p`. -/
structure Attaches (s s' : Vfs) (p d i : ℕ) (name : Name) : Prop where
  parent : ∀ c q, s'.Parent c q ↔ s.Parent c q ∨ c = d ∧ q = p
  child : ∀ c q, s'.Child q c ↔ s.Child q c ∨ c = d ∧ q = p
  nodup : ∀ q e', s'.dentries q = some e' → e'.children.Nodup
  live : ∀ c, s'.dentries c ≠ none ↔ s.dentries c ≠ none ∨ c = d
  nameOf : ∀ c, c ≠ d → s'.nameOf c = s.nameOf c
  name : s'.nameOf d = some name
  nodeOf : ∀ c, c ≠ d → s'.nodeOf c = s.nodeOf c
  node : s'.nodeOf d = some i
  files : s'.files = s.files
  inodes : ∀ j, j ≠ i → s'.inodes j = s.inodes j
  fresh : s'.Unallocated

namespace Attaches

variable {name : Name}

section

variable (h : Attaches s s' p d i name)
include h

lemma attached (hnew : s.dentries d = none) : s'.Attached c ↔ s.Attached c ∨ c = d := by
  constructor
  · rintro ⟨hlive, hroot | ⟨q, hq⟩⟩
    · rcases (h.live c).1 hlive with hc | rfl
      · exact .inl ⟨hc, .inl hroot⟩
      · exact .inr rfl
    · rcases (h.parent c q).1 hq with hq | ⟨rfl, -⟩
      · exact .inl hq.attached
      · exact .inr rfl
  · rintro (⟨hlive, hroot | ⟨q, hq⟩⟩ | rfl)
    · exact ⟨(h.live c).2 (.inl hlive), .inl hroot⟩
    · exact ⟨(h.live c).2 (.inl hlive), .inr ⟨q, (h.parent c q).2 (.inl hq)⟩⟩
    · exact ⟨(h.live c).2 (.inr rfl), .inr ⟨p, (h.parent c p).2 (.inr ⟨rfl, rfl⟩)⟩⟩

lemma names (hnew : s.dentries d = none) (j : ℕ) :
    s'.names j = if j = i then insert d (s.names i) else s.names j := by
  ext c
  by_cases hc : c = d
  · subst hc
    have hold : c ∉ s.names j := fun hmem => hmem.1.1 hnew
    by_cases hj : j = i
    · subst hj
      simp [names, h.attached hnew, h.node]
    · rw [if_neg hj]
      simp only [hold, iff_false]
      rintro ⟨-, hnode⟩
      exact hj (some.inj (hnode.symm.trans h.node))
  · have hiff : c ∈ s'.names j ↔ c ∈ s.names j := by
      simp only [Vfs.names, Set.mem_ofPred_eq, h.attached hnew, hc, or_false, h.nodeOf c hc]
    rw [hiff]
    split
    next hj => simp [hj, hc]
    · rfl

lemma below (hbelow : s.Below r c) : s'.Below r c :=
  hbelow.mono fun c q hq => (h.parent c q).2 (.inl hq)

/-- **A new entry in a directory of the tree**, with a name that its siblings do not have. -/
theorem inv (hs : s.Inv) (hnew : s.dentries d = none) (hd : d ≠ globalRoot) (hp : s.Attached p)
    (hname : ∀ c, s.Parent c p → s.nameOf c ≠ some name) (hn : s'.inodes i = some n)
    (hlinks : (n.linkCount : ℕ∞) = (s.names i).encard + 1)
    (hrefs : (n.refCount : ℕ∞) = (s.opens i).encard)
    (hdetached : ∀ c, s.nodeOf c = some i → s.Attached c) : s'.Inv := by
  have hopens := opens_congr h.files fun f x hx =>
    h.nodeOf x.entry fun heq => hs.file f x hx (heq ▸ hnew)
  refine ⟨?_, ?_, h.nodup, ?_, ?_, ?_, ?_, ?_, ?_, ?_, ?_, h.fresh⟩
  · refine ⟨(h.live _).2 (.inl hs.root.1), fun q hq => ?_⟩
    rcases (h.parent _ q).1 hq with hq | ⟨hroot, -⟩
    · exact hs.root.2 q hq
    · exact hd hroot.symm
  · intro q c
    rw [h.child, h.parent, hs.agree]
  · intro q c c' hc hc' heq
    rcases (h.parent c q).1 hc with hc | ⟨rfl, rfl⟩ <;>
      rcases (h.parent c' q).1 hc' with hc' | ⟨rfl, hq⟩
    · have hcd : c ≠ d := fun hcd => hc.live (hcd ▸ hnew)
      have hcd' : c' ≠ d := fun hcd => hc'.live (hcd ▸ hnew)
      rw [h.nameOf c hcd, h.nameOf c' hcd'] at heq
      exact hs.siblings q c c' hc hc' heq
    · have hcd : c ≠ c' := fun hcd => hc.live (hcd ▸ hnew)
      rw [h.nameOf c hcd, h.name] at heq
      exact absurd heq (hname c (hq ▸ hc))
    · have hcd' : c' ≠ c := fun hcd => hc'.live (hcd ▸ hnew)
      rw [h.nameOf c' hcd', h.name] at heq
      exact absurd heq.symm (hname c' hc')
    · rfl
  · intro c q hc
    rcases (h.parent c q).1 hc with hold | ⟨rfl, rfl⟩
    · exact h.below (hs.rooted c q hold)
    · exact hc.below (h.below (hs.below_root hp))
  · intro c q hc
    rcases (h.parent c q).1 hc with hc | ⟨rfl, -⟩
    · rw [h.nameOf c fun hcd => hc.live (hcd ▸ hnew)]
      exact hs.named c q hc
    · simp [h.name]
  · intro j m hm
    rw [h.names hnew j]
    by_cases hj : j = i
    · subst hj
      obtain rfl : n = m := some.inj (hn.symm.trans hm)
      have hnotMem : d ∉ s.names j := fun hmem => hmem.1.1 hnew
      rw [if_pos rfl, Set.encard_insert_of_notMem hnotMem, hlinks]
    · rw [if_neg hj]
      exact hs.links j m ((h.inodes j hj).symm.trans hm)
  · intro j m hm
    rw [hopens j]
    by_cases hj : j = i
    · subst hj
      obtain rfl : n = m := some.inj (hn.symm.trans hm)
      exact hrefs
    · exact hs.refs j m ((h.inodes j hj).symm.trans hm)
  · intro c hc
    by_cases hcd : c = d
    · subst hcd
      exact ⟨i, n, h.node, hn⟩
    · obtain ⟨j, m, hj, hm⟩ := hs.node c (((h.live c).1 hc).resolve_right hcd)
      by_cases hji : j = i
      · subst hji
        exact ⟨j, n, (h.nodeOf c hcd).trans hj, hn⟩
      · exact ⟨j, m, (h.nodeOf c hcd).trans hj, (h.inodes j hji).trans hm⟩
  · intro f x hx
    rw [h.files] at hx
    exact (h.live _).2 (.inl (hs.file f x hx))
  · intro c j hc hnot hj
    rw [h.attached hnew, not_or] at hnot
    rw [h.nodeOf c hnot.2] at hj
    obtain ⟨hempty, honly⟩ := hs.detached c j (((h.live c).1 hc).resolve_right hnot.2) hnot.1 hj
    have hji : j ≠ i := fun hji => hnot.1 (hdetached c (hji ▸ hj))
    refine ⟨by rw [h.names hnew j, if_neg hji, hempty], fun c' hc' => ?_⟩
    by_cases hcd : c' = d
    · subst hcd
      exact absurd (some.inj (hc'.symm.trans h.node)) hji
    · exact honly c' ((h.nodeOf c' hcd).symm.trans hc')

end

lemma of_update {ep : Dentry} (hs : s.Inv) (hnew : s.dentries d = none)
    (hp : s.dentries p = some ep)
    (hdentries : s'.dentries = Function.update (Function.update s.dentries p
      (some { ep with children := ep.children ++ [d] })) d (some ⟨some name, some i, some p, []⟩))
    (hfiles : s'.files = s.files) (hinodes : ∀ j, j ≠ i → s'.inodes j = s.inodes j)
    (hfresh : s'.Unallocated) :
    Attaches s s' p d i name := by
  have hpd : p ≠ d := by
    rintro rfl
    rw [hnew] at hp
    cases hp
  have hd : s'.dentries d = some ⟨some name, some i, some p, []⟩ := by simp [hdentries]
  have hp' : s'.dentries p = some { ep with children := ep.children ++ [d] } := by
    simp [hdentries, hpd]
  have hother : ∀ c, c ≠ d → c ≠ p → s'.dentries c = s.dentries c := by
    intro c hcd hcp
    simp [hdentries, hcd, hcp]
  have hnotMem : d ∉ ep.children := fun hmem => ((hs.agree p d).1 ⟨ep, hp, hmem⟩).live hnew
  refine ⟨?_, ?_, ?_, ?_, ?_, ?_, ?_, ?_, hfiles, hinodes, hfresh⟩
  · intro c q
    by_cases hcd : c = d
    · subst hcd
      simp [Parent, hd, hnew, eq_comm]
    · by_cases hcp : c = p
      · subst hcp
        simp [Parent, hp', hp, hcd]
      · simp [Parent, hother c hcd hcp, hcd]
  · intro c q
    by_cases hqd : q = d
    · subst hqd
      simp [Child, hd, hnew, hpd.symm]
    · by_cases hqp : q = p
      · subst hqp
        simp [Child, hp', hp]
      · simp [Child, hother q hqd hqp, hqp]
  · intro q e' he'
    by_cases hqd : q = d
    · subst hqd
      obtain rfl := some.inj (hd.symm.trans he')
      exact List.nodup_nil
    · by_cases hqp : q = p
      · subst hqp
        obtain rfl := some.inj (hp'.symm.trans he')
        exact (hs.nodup q ep hp).append (List.nodup_singleton d) (by simpa using hnotMem)
      · exact hs.nodup q e' ((hother q hqd hqp).symm.trans he')
  · intro c
    by_cases hcd : c = d
    · simp [hcd, hd]
    · by_cases hcp : c = p
      · simp [hcp, hp', hp]
      · simp [hother c hcd hcp, hcd]
  · intro c hcd
    by_cases hcp : c = p
    · simp [Vfs.nameOf, hcp, hp', hp]
    · simp [Vfs.nameOf, hother c hcd hcp]
  · simp [Vfs.nameOf, hd]
  · intro c hcd
    by_cases hcp : c = p
    · simp [Vfs.nodeOf, hcp, hp', hp]
    · simp [Vfs.nodeOf, hother c hcd hcp]
  · simp [Vfs.nodeOf, hd]

end Attaches

/-! ## An entry leaves its directory -/

/-- The entry `d` leaves its directory, and its inode `i` has no names left. -/
structure Detaches (s s' : Vfs) (d i : ℕ) : Prop where
  parent : ∀ c q, s'.Parent c q ↔ s.Parent c q ∧ c ≠ d
  child : ∀ c q, s'.Child q c ↔ s.Child q c ∧ c ≠ d
  nodup : ∀ q e', s'.dentries q = some e' → e'.children.Nodup
  live : ∀ c, s'.dentries c ≠ none ↔ s.dentries c ≠ none
  nameOf : ∀ c, s'.nameOf c = s.nameOf c
  nodeOf : ∀ c, s'.nodeOf c = s.nodeOf c
  files : s'.files = s.files
  inodes : ∀ j, j ≠ i → s'.inodes j = s.inodes j
  node : ∀ n, s.inodes i = some n → s'.inodes i = some { n with linkCount := 0 }
  fresh : s'.Unallocated

namespace Detaches

lemma attached (h : Detaches s s' d i) (hd : d ≠ globalRoot) :
    s'.Attached c ↔ s.Attached c ∧ c ≠ d := by
  constructor
  · rintro ⟨hlive, hroot | ⟨q, hq⟩⟩
    · exact ⟨⟨(h.live c).1 hlive, .inl hroot⟩, fun hcd => hd (hcd ▸ hroot)⟩
    · obtain ⟨hq, hcd⟩ := (h.parent c q).1 hq
      exact ⟨hq.attached, hcd⟩
  · rintro ⟨⟨hlive, hroot | ⟨q, hq⟩⟩, hcd⟩
    · exact ⟨(h.live c).2 hlive, .inl hroot⟩
    · exact ⟨(h.live c).2 hlive, .inr ⟨q, (h.parent c q).2 ⟨hq, hcd⟩⟩⟩

lemma below (h : Detaches s s' d i) (hleaf : ∀ c, ¬ s.Parent c d)
    (hbelow : s.Below r c) (hcd : c ≠ d) : s'.Below r c := by
  induction hbelow with
  | self => exact .self
  | @step c q e hc hparent _ ih =>
    have hp : s.Parent c q := ⟨e, hc, hparent⟩
    have hqd : q ≠ d := fun hqd => hleaf c (hqd ▸ hp)
    exact ((h.parent c q).2 ⟨hp, hcd⟩).below (ih hqd)

/-- **The last name of an inode**, an entry without children, leaves the tree. -/
theorem inv (h : Detaches s s' d i) (hs : s.Inv) (hd : d ≠ globalRoot) (hattached : s.Attached d)
    (hleaf : ∀ c, ¬ s.Parent c d) (hnode : s.nodeOf d = some i)
    (hn : s.inodes i = some n) (hlinks : n.linkCount = 1) : s'.Inv := by
  have hopens := opens_congr h.files fun _ x _ => h.nodeOf x.entry
  have honly : s.names i = {d} := by
    have hcard := hs.links i n hn
    rw [hlinks, Nat.cast_one, eq_comm, Set.encard_eq_one] at hcard
    obtain ⟨c, hc⟩ := hcard
    have hmem : d ∈ s.names i := ⟨hattached, hnode⟩
    rw [hc, Set.mem_singleton_iff] at hmem
    rw [hc, hmem]
  have hnames : ∀ j, s'.names j = s.names j \ {d} := by
    intro j
    ext c
    simp only [names, Set.mem_ofPred_eq, h.attached hd, h.nodeOf, Set.mem_sdiff,
      Set.mem_singleton_iff]
    tauto
  have hnames' : ∀ j, j ≠ i → s'.names j = s.names j := by
    intro j hj
    rw [hnames, Set.sdiff_singleton_eq_self]
    rintro ⟨-, hdj⟩
    exact hj (some.inj (hdj.symm.trans hnode))
  have hempty : s'.names i = ∅ := by rw [hnames, honly, Set.sdiff_self]
  refine ⟨?_, ?_, h.nodup, ?_, ?_, ?_, ?_, ?_, ?_, ?_, ?_, h.fresh⟩
  · exact ⟨(h.live _).2 hs.root.1, fun q hq => hs.root.2 q ((h.parent _ q).1 hq).1⟩
  · intro q c
    rw [h.child, h.parent, hs.agree]
  · intro q c c' hc hc' heq
    rw [h.nameOf, h.nameOf] at heq
    exact hs.siblings q c c' ((h.parent c q).1 hc).1 ((h.parent c' q).1 hc').1 heq
  · intro c q hc
    obtain ⟨hc, hcd⟩ := (h.parent c q).1 hc
    exact h.below hleaf (hs.rooted c q hc) hcd
  · intro c q hc
    rw [h.nameOf]
    exact hs.named c q ((h.parent c q).1 hc).1
  · intro j m hm
    by_cases hj : j = i
    · subst hj
      obtain rfl := some.inj ((h.node n hn).symm.trans hm)
      simp [hempty]
    · rw [hnames' j hj]
      exact hs.links j m ((h.inodes j hj).symm.trans hm)
  · intro j m hm
    rw [hopens]
    by_cases hj : j = i
    · subst hj
      obtain rfl := some.inj ((h.node n hn).symm.trans hm)
      exact hs.refs j n hn
    · exact hs.refs j m ((h.inodes j hj).symm.trans hm)
  · intro c hc
    obtain ⟨j, m, hj, hm⟩ := hs.node c ((h.live c).1 hc)
    by_cases hji : j = i
    · subst hji
      exact ⟨j, _, (h.nodeOf c).trans hj, h.node n hn⟩
    · exact ⟨j, m, (h.nodeOf c).trans hj, (h.inodes j hji).trans hm⟩
  · intro f x hx
    rw [h.files] at hx
    exact (h.live _).2 (hs.file f x hx)
  · intro c j hc hnot hj
    rw [h.nodeOf] at hj
    rw [h.attached hd, not_and_or, not_not] at hnot
    simp only [h.nodeOf]
    -- No entry outside the tree had the inode of `d`, which had a name.
    have hin : ∀ c', s.nodeOf c' = some i → s.Attached c' := by
      intro c' hc'
      by_contra hout
      have hnone := (hs.detached c' i (nodeOf_some hc') hout hc').1
      rw [honly] at hnone
      exact Set.singleton_ne_empty d hnone
    rcases hnot with hout | rfl
    · have hji : j ≠ i := fun hji => hout (hin c (hji ▸ hj))
      rw [hnames' j hji]
      exact hs.detached c j ((h.live c).1 hc) hout hj
    · obtain rfl : i = j := some.inj (hnode.symm.trans hj)
      refine ⟨hempty, fun c' hc' => ?_⟩
      have hmem : c' ∈ s.names i := ⟨hin c' hc', hc'⟩
      rwa [honly, Set.mem_singleton_iff] at hmem

end Detaches

/-! ## An entry and its inode are given back -/

/-- The entry `d` and the inode `i` are given back. -/
structure Frees (s s' : Vfs) (d i : ℕ) : Prop where
  entry : s'.dentries d = none
  dentries : ∀ c, c ≠ d → s'.dentries c = s.dentries c
  node : s'.inodes i = none
  inodes : ∀ j, j ≠ i → s'.inodes j = s.inodes j
  files : s'.files = s.files
  fresh : s'.Unallocated

namespace Frees

lemma parent (h : Frees s s' d i) {q : ℕ} : s'.Parent c q ↔ s.Parent c q ∧ c ≠ d := by
  by_cases hcd : c = d
  · simp [Parent, hcd, h.entry]
  · simp [Parent, h.dentries c hcd, hcd]

lemma attached (h : Frees s s' d i) : s'.Attached c ↔ s.Attached c ∧ c ≠ d := by
  by_cases hcd : c = d
  · simp [Attached, hcd, h.entry]
  · simp [Attached, h.dentries c hcd, h.parent, hcd]

/-- **What is outside the tree and not open** is given back. -/
theorem inv (h : Frees s s' d i) (hs : s.Inv) (hout : ¬ s.Attached d)
    (hnode : s.nodeOf d = some i) (hopen : s.opens i = ∅) : s'.Inv := by
  obtain ⟨hempty, honly⟩ := hs.detached d i (nodeOf_some hnode) hout hnode
  have hleaf : ∀ c, ¬ s.Parent c d := fun c hc => hout (hs.parent_attached hc)
  have hparent : ∀ c q, s'.Parent c q ↔ s.Parent c q := by
    intro c q
    rw [h.parent, and_iff_left_iff_imp]
    rintro hq rfl
    exact hout hq.attached
  have hchild : ∀ q c, s'.Child q c ↔ s.Child q c := by
    intro q c
    by_cases hqd : q = d
    · have hold : ¬ s.Child q c := by rw [hs.agree, hqd]; exact hleaf c
      refine iff_of_false ?_ hold
      rintro ⟨e, he, -⟩
      rw [hqd, h.entry] at he
      cases he
    · simp [Child, h.dentries q hqd]
  have hattached : ∀ c, s'.Attached c ↔ s.Attached c := by
    intro c
    rw [h.attached, and_iff_left_iff_imp]
    rintro hc rfl
    exact hout hc
  have hnodeOf : ∀ c, c ≠ d → s'.nodeOf c = s.nodeOf c :=
    fun c hcd => by rw [nodeOf, h.dentries c hcd, nodeOf]
  have hname : ∀ c q, s'.Parent c q → s'.nameOf c = s.nameOf c :=
    fun c q hc => by rw [nameOf, h.dentries c (h.parent.1 hc).2, nameOf]
  have hfree : s'.nodeOf d = none := by rw [nodeOf, h.entry]; rfl
  have hother : ∀ c j, c ≠ d → s.nodeOf c = some j → j ≠ i := by
    rintro c j hcd hj rfl
    exact hcd (honly c hj)
  have hfile : ∀ f x, s.files f = some x → x.entry ≠ d := by
    rintro f x hx rfl
    have hmem : f ∈ s.opens i := ⟨x, hx, hnode⟩
    rw [hopen] at hmem
    exact hmem
  have hnames : ∀ j, j ≠ i → s'.names j = s.names j := by
    intro j hj
    ext c
    by_cases hcd : c = d
    · subst hcd
      simp [names, hattached, hout]
    · simp [names, hattached, hnodeOf c hcd]
  have hopens := opens_congr h.files fun f x hx => hnodeOf x.entry (hfile f x hx)
  have hinode : ∀ j m, s'.inodes j = some m → j ≠ i ∧ s.inodes j = some m := by
    intro j m hm
    have hji : j ≠ i := by
      rintro rfl
      rw [h.node] at hm
      cases hm
    exact ⟨hji, (h.inodes j hji).symm.trans hm⟩
  have hlive : ∀ c, s'.dentries c ≠ none → c ≠ d ∧ s.dentries c ≠ none := by
    intro c hc
    have hcd : c ≠ d := fun hcd => hc (hcd ▸ h.entry)
    exact ⟨hcd, h.dentries c hcd ▸ hc⟩
  refine ⟨?_, ?_, ?_, ?_, ?_, ?_, ?_, ?_, ?_, ?_, ?_, h.fresh⟩
  · have hroot : globalRoot ≠ d := fun hroot => hout ⟨hroot ▸ hs.root.1, .inl hroot.symm⟩
    exact ⟨h.dentries _ hroot ▸ hs.root.1, fun q hq => hs.root.2 q ((hparent _ q).1 hq)⟩
  · intro q c
    rw [hchild, hparent, hs.agree]
  · intro q e he
    obtain ⟨hqd, -⟩ := hlive q (by simp [he])
    exact hs.nodup q e ((h.dentries q hqd).symm.trans he)
  · intro q c c' hc hc' heq
    rw [hname c q hc, hname c' q hc'] at heq
    exact hs.siblings q c c' ((hparent c q).1 hc) ((hparent c' q).1 hc') heq
  · intro c q hc
    exact (hs.rooted c q ((hparent c q).1 hc)).mono fun c q => (hparent c q).2
  · intro c q hc
    rw [hname c q hc]
    exact hs.named c q ((hparent c q).1 hc)
  · intro j m hm
    obtain ⟨hji, hm⟩ := hinode j m hm
    rw [hnames j hji]
    exact hs.links j m hm
  · intro j m hm
    rw [hopens]
    exact hs.refs j m (hinode j m hm).2
  · intro c hc
    obtain ⟨hcd, hc⟩ := hlive c hc
    obtain ⟨j, m, hj, hm⟩ := hs.node c hc
    exact ⟨j, m, (hnodeOf c hcd).trans hj, (h.inodes j (hother c j hcd hj)).trans hm⟩
  · intro f x hx
    rw [h.files] at hx
    rw [h.dentries x.entry (hfile f x hx)]
    exact hs.file f x hx
  · intro c j hc hnot hj
    obtain ⟨hcd, hc⟩ := hlive c hc
    rw [hnodeOf c hcd] at hj
    rw [hattached] at hnot
    obtain ⟨hnone, hsole⟩ := hs.detached c j hc hnot hj
    refine ⟨by rw [hnames j (hother c j hcd hj), hnone], fun c' hc' => hsole c' ?_⟩
    have hcd' : c' ≠ d := by
      rintro rfl
      rw [hfree] at hc'
      cases hc'
    exact (hnodeOf c' hcd').symm.trans hc'

end Frees

/-! ## An entry is moved -/

/-- The entry `d` gets a new name and the parent `p`. -/
structure Moves (s s' : Vfs) (p d : ℕ) (name : Name) : Prop where
  parent : ∀ c q, s'.Parent c q ↔ if c = d then q = p else s.Parent c q
  child : ∀ c q, s'.Child q c ↔ if c = d then q = p else s.Child q c
  nodup : ∀ q e', s'.dentries q = some e' → e'.children.Nodup
  live : ∀ c, s'.dentries c ≠ none ↔ s.dentries c ≠ none
  nameOf : ∀ c, c ≠ d → s'.nameOf c = s.nameOf c
  name : s'.nameOf d = some name
  nodeOf : ∀ c, s'.nodeOf c = s.nodeOf c
  files : s'.files = s.files
  inodes : s'.inodes = s.inodes
  fresh : s'.Unallocated

namespace Moves

variable {name : Name}

variable (h : Moves s s' p d name)
include h

lemma attached (hd : s.Attached d) : s'.Attached c ↔ s.Attached c := by
  by_cases hcd : c = d
  · subst hcd
    exact iff_of_true ⟨(h.live c).2 hd.1, .inr ⟨p, (h.parent c p).2 (by simp)⟩⟩ hd
  · simp only [Attached, h.live, h.parent, if_neg hcd]

lemma below_of_not (hbelow : s.Below r c) (hnot : ¬ s.Below d c) : s'.Below r c := by
  induction hbelow with
  | self => exact .self
  | @step c q e hc hparent _ ih =>
    have hcd : c ≠ d := fun hcd => hnot (hcd ▸ .self)
    have hp : s'.Parent c q := (h.parent c q).2 (by rw [if_neg hcd]; exact ⟨e, hc, hparent⟩)
    exact hp.below (ih fun hq => hnot (.step hc hparent hq))

lemma below_of_below (hd : s'.Below r d) (hbelow : s.Below d c) : s'.Below r c := by
  induction hbelow with
  | self => exact hd
  | @step c q e hc hparent _ ih =>
    by_cases hcd : c = d
    · exact hcd ▸ hd
    · exact ((h.parent c q).2 (by rw [if_neg hcd]; exact ⟨e, hc, hparent⟩)).below ih

/-- **An entry is moved to a directory that is not below it**, with a name that its new siblings
do not have. -/
theorem inv (hs : s.Inv) (hd : d ≠ globalRoot) (hattached : s.Attached d) (hp : s.Attached p)
    (hnot : ¬ s.Below d p) (hname : ∀ c, s.Parent c p → s.nameOf c ≠ some name) : s'.Inv := by
  have hopens := opens_congr h.files fun _ x _ => h.nodeOf x.entry
  have hnames : ∀ j, s'.names j = s.names j := by
    intro j
    ext c
    simp only [names, Set.mem_ofPred_eq, h.attached hattached, h.nodeOf]
  have hparent : s'.Parent d p := (h.parent d p).2 (by simp)
  have hbelow : s'.Below globalRoot d := hparent.below (h.below_of_not (hs.below_root hp) hnot)
  refine ⟨?_, ?_, h.nodup, ?_, ?_, ?_, ?_, ?_, ?_, ?_, ?_, h.fresh⟩
  · refine ⟨(h.live _).2 hs.root.1, fun q hq => hs.root.2 q ?_⟩
    simpa [hd.symm] using (h.parent _ q).1 hq
  · intro q c
    rw [h.child, h.parent]
    split
    · rfl
    · exact hs.agree q c
  · intro q c c' hc hc' heq
    have hc := (h.parent c q).1 hc
    have hc' := (h.parent c' q).1 hc'
    by_cases hcd : c = d <;> by_cases hcd' : c' = d
    · rw [hcd, hcd']
    · rw [if_pos hcd] at hc
      rw [if_neg hcd'] at hc'
      rw [hcd, h.name, h.nameOf c' hcd'] at heq
      exact absurd heq.symm (hname c' (hc ▸ hc'))
    · rw [if_neg hcd] at hc
      rw [if_pos hcd'] at hc'
      rw [hcd', h.name, h.nameOf c hcd] at heq
      exact absurd heq (hname c (hc' ▸ hc))
    · rw [if_neg hcd] at hc
      rw [if_neg hcd'] at hc'
      rw [h.nameOf c hcd, h.nameOf c' hcd'] at heq
      exact hs.siblings q c c' hc hc' heq
  · intro c q hc
    have hin : s.Attached c := (h.attached hattached).1 hc.attached
    by_cases hcb : s.Below d c
    · exact h.below_of_below hbelow hcb
    · exact h.below_of_not (hs.below_root hin) hcb
  · intro c q hc
    by_cases hcd : c = d
    · simp [hcd, h.name]
    · rw [h.nameOf c hcd]
      exact hs.named c q (by simpa [hcd] using (h.parent c q).1 hc)
  · intro j m hm
    rw [hnames]
    exact hs.links j m (h.inodes ▸ hm)
  · intro j m hm
    rw [hopens]
    exact hs.refs j m (h.inodes ▸ hm)
  · intro c hc
    rw [h.nodeOf, h.inodes]
    exact hs.node c ((h.live c).1 hc)
  · intro f x hx
    rw [h.files] at hx
    exact (h.live _).2 (hs.file f x hx)
  · intro c j hc hnot hj
    rw [h.attached hattached] at hnot
    rw [h.nodeOf] at hj
    simp only [hnames, h.nodeOf]
    exact hs.detached c j ((h.live c).1 hc) hnot hj

end Moves

/-! ## An inode is opened or closed -/

/-- The inode `i` is written, and files are opened on it or closed. -/
structure Refers (s s' : Vfs) (i : ℕ) : Prop where
  dentries : s'.dentries = s.dentries
  inodes : ∀ j, j ≠ i → s'.inodes j = s.inodes j
  opens : ∀ j, j ≠ i → s'.opens j = s.opens j
  file : ∀ f x, s'.files f = some x → s.dentries x.entry ≠ none
  fresh : s'.Unallocated

/-- **The files of an inode change**, and its count of them with them. -/
theorem Refers.inv (h : Refers s s' i) (hs : s.Inv) {n' : Inode} (hn : s.inodes i = some n)
    (hn' : s'.inodes i = some n') (hlinks : n'.linkCount = n.linkCount)
    (hrefs : (n'.refCount : ℕ∞) = (s'.opens i).encard) : s'.Inv := by
  have hparent : s'.Parent = s.Parent := by funext c q; simp only [Parent, h.dentries]
  have hattached : s'.Attached = s.Attached := by
    funext c
    simp only [Attached, h.dentries, hparent]
  have hnameOf : s'.nameOf = s.nameOf := by funext c; simp only [nameOf, h.dentries]
  have hnodeOf : s'.nodeOf = s.nodeOf := by funext c; simp only [nodeOf, h.dentries]
  have hnames : s'.names = s.names := by funext j; simp only [names, hattached, hnodeOf]
  refine ⟨?_, ?_, ?_, ?_, ?_, ?_, ?_, ?_, ?_, ?_, ?_, h.fresh⟩
  · rw [h.dentries, hparent]
    exact hs.root
  · intro q c
    rw [hparent, ← hs.agree]
    simp only [Child, h.dentries]
  · rw [h.dentries]
    exact hs.nodup
  · rw [hparent, hnameOf]
    exact hs.siblings
  · intro c q hc
    rw [hparent] at hc
    exact (hs.rooted c q hc).mono fun c q => hparent ▸ id
  · rw [hparent, hnameOf]
    exact hs.named
  · intro j m hm
    rw [hnames]
    by_cases hj : j = i
    · subst hj
      obtain rfl := some.inj (hn'.symm.trans hm)
      rw [hlinks]
      exact hs.links j n hn
    · exact hs.links j m ((h.inodes j hj).symm.trans hm)
  · intro j m hm
    by_cases hj : j = i
    · subst hj
      obtain rfl := some.inj (hn'.symm.trans hm)
      exact hrefs
    · rw [h.opens j hj]
      exact hs.refs j m ((h.inodes j hj).symm.trans hm)
  · intro c hc
    rw [h.dentries] at hc
    rw [hnodeOf]
    obtain ⟨j, m, hj, hm⟩ := hs.node c hc
    by_cases hji : j = i
    · exact ⟨j, n', hj, hji ▸ hn'⟩
    · exact ⟨j, m, hj, (h.inodes j hji).trans hm⟩
  · intro f x hx
    rw [h.dentries]
    exact h.file f x hx
  · rw [h.dentries, hattached, hnodeOf, hnames]
    exact hs.detached

end Naos.Fs.Vfs
