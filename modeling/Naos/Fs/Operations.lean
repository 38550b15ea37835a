import Naos.Fs.Tree

/-!
# Runs of operations

Each operation of the file system does one of the things of `Tree` to the heap, under conditions
that it does not test.  `Orderly` is the condition under which it keeps the tree: a new name is
not one of its directory, an entry is removed when it is the only name of its inode and has no
children, and an entry is not moved below itself.
-/

namespace Naos.Fs.Vfs

open Outcome Transition Function Option

variable {s s' : Vfs} {d p i : ℕ} {name : Name}

/-! ## What is read -/

variable {e : Dentry} {n : Inode} {s₁ t : Vfs} {type : InodeType} {q r f curDir root maxRam : ℕ}
  {dest : Option ℕ} {b unlinkOnClose : Bool} {x : File} {target path src : Name} {idata : Idata ℕ}
  {attr : WalkFlags} {a : Action}

lemma dentry_ok : s.dentry d = .ok e ↔ s.dentries d = some e := by
  cases h : s.dentries d <;> simp [dentry, h]

lemma inode_ok : s.inode i = .ok n ↔ s.inodes i = some n := by
  cases h : s.inodes i <;> simp [inode, h]

lemma getInode_ok : s.getInode d = .ok (i, n) ↔ s.nodeOf d = some i ∧ s.inodes i = some n := by
  constructor
  · intro h
    obtain ⟨e, he, h⟩ := bind_eq_ok.1 h
    obtain ⟨j, hj, h⟩ := bind_eq_ok.1 h
    obtain ⟨m, hm, h⟩ := bind_eq_ok.1 h
    cases h
    cases hnode : e.node with
    | none => simp [hnode] at hj
    | some k =>
      obtain rfl : k = i := by simpa [hnode] using hj
      exact ⟨by simp [nodeOf, dentry_ok.1 he, hnode], inode_ok.1 hm⟩
  · rintro ⟨hnode, hi⟩
    obtain ⟨e, he, hj⟩ := bind_eq_some_iff.1 hnode
    rw [Vfs.getInode, dentry_eq he, ok_bind, hj, elim_some, ok_bind, inode_ok.2 hi]
    rfl

/-! ## What an operation keeps -/

/-- The heap after an operation is in order, and what has left the tree had no children. -/
structure Keeps (s s' : Vfs) : Prop where
  inv : s'.Inv
  leaves : ∀ d, s.Attached d → ¬ s'.Attached d → ∀ c, ¬ s.Parent c d

lemma Keeps.refl (hs : s.Inv) : Keeps s s := ⟨hs, fun _ hd hnot => absurd hd hnot⟩

lemma attached_of_dentries (h : s'.dentries = s.dentries) : s'.Attached = s.Attached := by
  funext d
  simp only [Attached, Parent, h]

lemma Keeps.trans_of_dentries (h : Keeps s s₁) (hd : t.dentries = s₁.dentries) (ht : t.Inv) :
    Keeps s t :=
  ⟨ht, fun d hin hnot => h.leaves d hin (attached_of_dentries hd ▸ hnot)⟩

lemma Keeps.of_dentries_trans (hd : t.dentries = s.dentries) (h : Keeps t s') :
    Keeps s s' := by
  refine ⟨h.inv, fun d hin hnot c => ?_⟩
  have hleaf := h.leaves d (attached_of_dentries hd ▸ hin) hnot c
  simpa only [Parent, hd] using hleaf

/-! ## A new entry -/

lemma createDentry_ok (h : s.createDentry p name = .ok (d, s')) :
    ∃ ep, s.dentries p = some ep ∧ d = s.nextDentry ∧ s' = { s with
        dentries := update s.dentries d (some ⟨some name, none, some p, []⟩)
        nextDentry := d + 1 }.addChild p d := by
  obtain ⟨⟨j, n⟩, hnode, h⟩ := bind_eq_ok.1 h
  obtain ⟨ep, hep⟩ := ne_none_iff_exists'.1 (nodeOf_some (getInode_ok.1 hnode).1)
  cases h
  exact ⟨ep, hep, rfl, rfl⟩

lemma dentries_newEntry {ep : Dentry} (hep : s.dentries p = some ep) (hpd : p ≠ d) : ({ s with
        dentries := update s.dentries d (some ⟨some name, none, some p, []⟩)
        nextDentry := d + 1 }.addChild p d |>.setDentry d
          fun e => { e with node := some i }).dentries =
      update (update s.dentries p
        (some { ep with children := ep.children ++ [d] })) d (some ⟨some name, some i, some p, []⟩)
    := by
  funext c
  by_cases hcd : c = d
  · subst hcd
    simp [addChild, setDentry, hpd.symm]
  · by_cases hcp : c = p
    · subst hcp
      simp [addChild, setDentry, hcd, hep]
    · simp [addChild, setDentry, hcd, hcp]

section

variable (hs : s.Inv)
include hs

lemma Inv.lt_nextDentry (h : s.dentries d ≠ none) : d < s.nextDentry := by
  by_contra hle
  exact h (hs.fresh.1 d (not_lt.1 hle))

lemma Inv.nextDentry_ne : s.nextDentry ≠ globalRoot :=
  fun h => hs.root.1 (h ▸ hs.fresh.1 _ le_rfl)

lemma Inv.inode_of_nodeOf (h : s.nodeOf d = some i) : ∃ n, s.inodes i = some n := by
  obtain ⟨j, n, hj, hn⟩ := hs.node d (nodeOf_some h)
  obtain rfl : j = i := some.inj (hj.symm.trans h)
  exact ⟨n, hn⟩

lemma attaches_of_createDentry (h : s.createDentry p name = .ok (d, s₁))
    (hdentries : t.dentries = (s₁.setDentry d fun e => { e with node := some i }).dentries)
    (hfiles : t.files = s.files) (hinodes : ∀ j, j ≠ i → t.inodes j = s.inodes j)
    (hnext : t.nextDentry = s₁.nextDentry) (hnextFile : t.nextFile = s₁.nextFile)
    (hnextInode : ∀ j, t.nextInode ≤ j → t.inodes j = none) :
    s.dentries d = none ∧ d ≠ globalRoot ∧ Attaches s t p d i name := by
  obtain ⟨ep, hep, rfl, rfl⟩ := createDentry_ok h
  have hnew : s.dentries s.nextDentry = none := hs.fresh.1 _ le_rfl
  have hlt : p < s.nextDentry := hs.lt_nextDentry (by simp [hep])
  rw [dentries_newEntry hep hlt.ne] at hdentries
  refine ⟨hnew, hs.nextDentry_ne,
    .of_update hs hnew hep hdentries hfiles hinodes ⟨?_, hnextInode, ?_⟩⟩
  · intro c hc
    rw [hnext] at hc
    have hc : s.nextDentry + 1 ≤ c := hc
    have hcd : c ≠ s.nextDentry := by omega
    have hcp : c ≠ p := by omega
    rw [hdentries, update_of_ne hcd, update_of_ne hcp]
    exact hs.fresh.1 c (by omega)
  · intro f hf
    rw [hnextFile] at hf
    rw [hfiles]
    exact hs.fresh.2.2 f hf

omit hs in
lemma Attaches.keeps (h : Attaches s s' p d i name) (hnew : s.dentries d = none)
    (hs' : s'.Inv) : Keeps s s' :=
  ⟨hs', fun _ hc hnot => absurd ((h.attached hnew).2 (.inl hc)) hnot⟩

omit hs in
lemma createDentry_frame (h : s.createDentry p name = .ok (d, s₁)) :
    s₁.inodes = s.inodes ∧ s₁.files = s.files ∧ s₁.nextInode = s.nextInode := by
  obtain ⟨ep, -, -, rfl⟩ := createDentry_ok h
  exact ⟨rfl, rfl, rfl⟩

def Vacant (s : Vfs) (p : ℕ) (name : Name) : Prop := ∀ c, s.Parent c p → s.nameOf c ≠ some name

/-- **A new entry with a new inode.** -/
theorem newEntry_keeps (h : s.newEntry p name type = .ok (d, s'))
    (hready : s.Attached p ∧ s.Vacant p name) :
    Keeps s s' ∧ ∃ i, s'.nodeOf d = some i ∧ s'.inodes i = some { type := type } ∧
      s'.opens i = ∅ := by
  obtain ⟨hp, hname⟩ := hready
  obtain ⟨⟨d, s₁⟩, h₁, h⟩ := bind_eq_ok.1 h
  cases h
  obtain ⟨hinodes, hfiles, hnext⟩ := createDentry_frame h₁
  have hnone : ∀ c, s.nodeOf c ≠ some s.nextInode := by
    intro c hc
    obtain ⟨n, hn⟩ := hs.inode_of_nodeOf hc
    rw [hs.fresh.2.1 _ le_rfl] at hn
    cases hn
  have hnames : s.names s.nextInode = ∅ := by
    ext c
    simp [names, hnone]
  have hopens : s.opens s.nextInode = ∅ := by
    ext f
    simp [opens, hnone]
  have hn : (s₁.allocInode d { type := type }).inodes s.nextInode = some { type := type } := by
    simp [allocInode, setDentry, hnext]
  obtain ⟨hnew, hd, hattaches⟩ := attaches_of_createDentry (i := s.nextInode)
    (t := s₁.allocInode d { type := type }) hs h₁ (by simp [allocInode, setDentry, hnext])
    hfiles (fun j hj => by simp [allocInode, setDentry, hnext, hj, hinodes]) rfl rfl
    (fun j hj => by
      have hj : s.nextInode + 1 ≤ j := by simpa [allocInode, setDentry, hnext] using hj
      have hne : j ≠ s.nextInode := by omega
      simpa [allocInode, setDentry, hnext, hne, hinodes] using hs.fresh.2.1 j (by omega))
  have hinv := hattaches.inv hs hnew hd hp hname hn (by simp [hnames]) (by simp [hopens])
    (fun c hc => absurd hc (hnone c))
  refine ⟨hattaches.keeps hnew hinv, s.nextInode, hattaches.node, hn, ?_⟩
  rw [opens_congr hattaches.files fun f x hx =>
    hattaches.nodeOf x.entry fun hxd => hs.file f x hx (hxd ▸ hnew), hopens]

/-- **A new entry for an inode that has a name.** -/
theorem link_keeps {t : ℕ} (h : s.createDentry p name = .ok (d, s₁))
    (hready : s.Attached p ∧ s.Vacant p name) (ht : s.Attached t)
    (hnode : s₁.getInode t = .ok (i, n)) :
    Keeps s ((s₁.setDentry d fun e => { e with node := some i }).setInode i
      fun n => { n with linkCount := n.linkCount + 1 }) := by
  obtain ⟨hp, hname⟩ := hready
  obtain ⟨hinodes, hfiles, hnext⟩ := createDentry_frame h
  obtain ⟨hti, hi⟩ := getInode_ok.1 hnode
  rw [hinodes] at hi
  obtain ⟨hnew, hd, hattaches⟩ := attaches_of_createDentry (i := i)
    (t := (s₁.setDentry d fun e => { e with node := some i }).setInode i
      fun n => { n with linkCount := n.linkCount + 1 }) hs h rfl hfiles
    (fun j hj => by simp [setInode, setDentry, hj, hinodes]) rfl rfl
    (fun j hj => by
      have hj : s.nextInode ≤ j := by simpa [setInode, setDentry, hnext] using hj
      have hnone := hs.fresh.2.1 j hj
      have hne : j ≠ i := by
        rintro rfl
        rw [hnone] at hi
        cases hi
      simpa [setInode, setDentry, hne, hinodes] using hnone)
  have hti' : s.nodeOf t = some i := by
    have htd : t ≠ d := fun htd => ht.1 (htd ▸ hnew)
    rw [← hti, ← hattaches.nodeOf t htd]
    simp [nodeOf, setInode, setDentry, htd]
  refine hattaches.keeps hnew (hattaches.inv hs hnew hd hp hname
    (n := { n with linkCount := n.linkCount + 1 }) (by simp [setInode, setDentry, hinodes, hi])
    ?_ (hs.refs i n hi) ?_)
  · rw [← hs.links i n hi]
    push_cast
    rfl
  · intro c hc
    by_contra hout
    have hempty := (hs.detached c i (nodeOf_some hc) hout hc).1
    have hmem : t ∈ s.names i := ⟨ht, hti'⟩
    rw [hempty] at hmem
    exact hmem

/-! ## An entry leaves its directory -/

lemma mem_children {c : ℕ} {l : List ℕ} (hq : s.Parent d q) (hr : s.dentries r = some e) :
    c ∈ (if r = q then e.children.erase d else e.children) ++ l ↔
      (s.Child r c ∧ c ≠ d) ∨ c ∈ l := by
  have hchild : s.Child r c ↔ c ∈ e.children := by simp [Child, hr]
  rw [List.mem_append, hchild]
  refine or_congr_left ?_
  split
  · rw [(hs.nodup r e hr).mem_erase_iff, and_comm]
  next hrq =>
    rw [iff_self_and]
    rintro hmem rfl
    exact hrq (Parent.unique ((hs.agree r c).1 (hchild.2 hmem)) hq)

lemma nodup_children (hr : s.dentries r = some e) :
    (if r = q then e.children.erase d else e.children).Nodup := by
  split
  · exact (hs.nodup r e hr).erase d
  · exact hs.nodup r e hr

/-- The entry `d` leaves its directory, and goes to another one if there is a destination. -/
structure Reparents (s s' : Vfs) (d : ℕ) (dest : Option ℕ) : Prop where
  parent : ∀ c r, s'.Parent c r ↔ if c = d then dest = some r else s.Parent c r
  child : ∀ c r, s'.Child r c ↔ if c = d then dest = some r else s.Child r c
  nodup : ∀ r e', s'.dentries r = some e' → e'.children.Nodup
  live : ∀ c, s'.dentries c ≠ none ↔ s.dentries c ≠ none
  nameOf : ∀ c, c ≠ d → s'.nameOf c = s.nameOf c
  nodeOf : ∀ c, s'.nodeOf c = s.nodeOf c

omit hs in
lemma Reparents.unallocated (h : Reparents s s' d dest) (hs : s.Inv)
    (hnext : s'.nextDentry = s.nextDentry) : ∀ c, s'.nextDentry ≤ c → s'.dentries c = none := by
  intro c hc
  rw [hnext] at hc
  exact not_not.1 fun hlive => (h.live c).1 hlive (hs.fresh.1 c hc)

lemma reparents_of_update {x : Dentry} {name : Option Name} (hx : s.dentries d = some x)
    (hxq : x.parent = some q) (hqd : q ≠ d)
    (hdest : ∀ r, dest = some r → r ≠ d ∧ s.dentries r ≠ none)
    (hentry : s'.dentries d = some { x with name, parent := dest })
    (hother : ∀ r, r ≠ d → s'.dentries r = (s.dentries r).map fun e =>
      { e with children := (if r = q then e.children.erase d else e.children) ++
        if dest = some r then [d] else [] }) : Reparents s s' d dest := by
  have hq : s.Parent d q := ⟨x, hx, hxq⟩
  refine ⟨fun c r => ?_, fun c r => ?_, fun r e' he' => ?_, fun c => ?_, fun c hcd => ?_,
    fun c => ?_⟩
  · by_cases hcd : c = d
    · simp [Parent, hcd, hentry]
    · simp [Parent, hother c hcd, hcd]
  · by_cases hrd : r = d
    · subst hrd
      have hself : ¬ s.Child r r := fun h => hqd (Parent.unique hq ((hs.agree r r).1 h))
      have hsame : s'.Child r c ↔ s.Child r c := by simp [Child, hentry, hx]
      rw [hsame]
      split
      next hcr =>
        subst hcr
        exact iff_of_false hself fun h => (hdest c h).1 rfl
      · rfl
    · cases hr : s.dentries r with
      | none =>
        have hrp : dest ≠ some r := fun h => (hdest r h).2 hr
        simp [Child, hother r hrd, hr, hrp]
      | some e =>
        have hmem := mem_children (c := c) (l := if dest = some r then [d] else []) hs hq hr
        have hchild : s'.Child r c ↔ c ∈ (if r = q then e.children.erase d else e.children) ++
            if dest = some r then [d] else [] := by
          simp [Child, hother r hrd, hr]
        rw [hchild, hmem]
        by_cases hcd : c = d <;> by_cases hrp : dest = some r <;> simp [hcd, hrp]
  · by_cases hrd : r = d
    · subst hrd
      obtain rfl := some.inj (hentry.symm.trans he')
      exact hs.nodup r x hx
    rw [hother r hrd, map_eq_some_iff] at he'
    obtain ⟨e, hr, rfl⟩ := he'
    refine (nodup_children hs hr).append (by split <;> simp) ?_
    intro c hc hgoes
    have hcd : c = d := by
      split at hgoes
      · simpa using hgoes
      · simp at hgoes
    have hmem := (mem_children (l := []) hs hq hr).1 (by simpa using hc)
    simp [hcd] at hmem
  · by_cases hcd : c = d
    · simp [hcd, hentry, hx]
    · simp [hother c hcd]
  · simp [nameOf, hother c hcd, bind_map]
  · by_cases hcd : c = d
    · simp [nodeOf, hcd, hentry, hx]
    · simp [nodeOf, hother c hcd, bind_map]

/-- An entry that may be removed: it is in the tree, has no children and is the only name of its
inode. -/
structure Removable (s : Vfs) (d : ℕ) : Prop where
  ne_root : d ≠ globalRoot
  attached : s.Attached d
  leaf : ∀ c, ¬ s.Parent c d
  single : ∀ i n, s.nodeOf d = some i → s.inodes i = some n → n.linkCount = 1

omit hs in
lemma detach_ok (h : s.detach d = .ok s') :
    s'.inodes = s.inodes ∧ s'.files = s.files ∧ s'.nextDentry = s.nextDentry ∧
      s'.nextInode = s.nextInode ∧ s'.nextFile = s.nextFile := by
  obtain ⟨x, -, hx⟩ := bind_eq_ok.1 h
  cases hp : x.parent with
  | none =>
    rw [hp] at hx
    cases hx
    exact ⟨rfl, rfl, rfl, rfl, rfl⟩
  | some q =>
    rw [hp] at hx
    obtain ⟨-, -, hx⟩ := bind_eq_ok.1 hx
    cases hx
    exact ⟨rfl, rfl, rfl, rfl, rfl⟩

omit hs in
lemma detach_setInode (f : Inode → Inode) (h : (s.setInode i f).detach d = .ok s') :
    ∃ s₁, s.detach d = .ok s₁ ∧ s' = s₁.setInode i f := by
  obtain ⟨x, hx, h⟩ := bind_eq_ok.1 h
  have hx : s.dentry d = .ok x := hx
  rw [detach, hx, ok_bind]
  cases hp : x.parent with
  | none =>
    rw [hp] at h
    cases h
    exact ⟨s, rfl, rfl⟩
  | some q =>
    rw [hp] at h
    obtain ⟨e, he, h⟩ := bind_eq_ok.1 h
    have he : s.dentry q = .ok e := he
    cases h
    simp only [he, ok_bind, Except.ok.injEq]
    exact ⟨_, rfl, rfl⟩

lemma detach_detaches {f : Inode → Inode} (hd : s.Removable d) (hn : s.inodes i = some n)
    (h : s.detach d = .ok s') (hf : f n = { n with linkCount := 0 }) :
    Detaches s (s'.setInode i f) d i := by
  obtain ⟨hsame, hfiles, hnext⟩ := detach_ok h
  have hinodes : (s'.setInode i f).inodes = update s.inodes i (some { n with linkCount := 0 }) := by
    rw [setInode, hsame, hn, map_some, hf]
  obtain ⟨q, x, hx, hxq⟩ := hd.attached.2.resolve_left hd.ne_root
  have hq : s.Parent d q := ⟨x, hx, hxq⟩
  have hqd : q ≠ d := fun hqd => hd.leaf d (hqd ▸ hq)
  obtain ⟨e, he⟩ := ne_none_iff_exists'.1 (hs.parent_live hq)
  rw [detach, dentry_eq hx, ok_bind, hxq] at h
  simp only [dentry_eq he, ok_bind, Except.ok.injEq] at h
  subst h
  set s₁ := ((s.removeChild q d).setDentry d fun e => { e with parent := none }).setInode i f
    with hs₁
  have hentry : s₁.dentries d = some { x with parent := none } := by
    simp [hs₁, setInode, setDentry, removeChild, hqd.symm, hx]
  have hrep : Reparents s s₁ d none := by
    refine reparents_of_update hs hx hxq hqd nofun hentry fun r hrd => ?_
    by_cases hrq : r = q
    · subst hrq
      simp [hs₁, setInode, setDentry, removeChild, hrd]
    · simp [hs₁, setInode, setDentry, removeChild, hrd, hrq]
  refine ⟨fun c r => ?_, fun c r => ?_, hrep.nodup, hrep.live, fun c => ?_, hrep.nodeOf, hfiles,
    fun j hj => ?_, fun m hm => ?_, hrep.unallocated hs rfl, fun j hj => ?_, hs.fresh.2.2⟩
  · rw [hrep.parent]
    split <;> simp [*]
  · rw [hrep.child]
    split <;> simp [*]
  · by_cases hcd : c = d
    · simp [nameOf, hcd, hentry, hx]
    · exact hrep.nameOf c hcd
  · rw [hinodes, update_of_ne hj]
  · obtain rfl := some.inj (hn.symm.trans hm)
    rw [hinodes, update_self]
  · have hnone := hs.fresh.2.1 j hj
    have hji : j ≠ i := fun hji => by simp [hji, hn] at hnone
    rw [hinodes, update_of_ne hji, hnone]

omit hs in
lemma Detaches.keeps (h : Detaches s s' d i) (hs : s.Inv) (hd : s.Removable d)
    (hnode : s.nodeOf d = some i) (hn : s.inodes i = some n) : Keeps s s' := by
  refine ⟨h.inv hs hd.ne_root hd.attached hd.leaf hnode hn (hd.single i n hnode hn), ?_⟩
  intro c hc hnot
  rw [h.attached hd.ne_root, not_and_not_right] at hnot
  rw [hnot hc]
  exact hd.leaf

omit hs in
lemma Detaches.not_attached (h : Detaches s s' d i) (hd : s.Removable d) : ¬ s'.Attached d := by
  rw [h.attached hd.ne_root]
  exact fun h => h.2 rfl

lemma dealloc_frees : Frees s (s.dealloc i d) d i := by
  refine ⟨by simp [dealloc], fun c hc => by simp [dealloc, hc], by simp [dealloc],
    fun j hj => by simp [dealloc, hj], rfl, fun c hc => ?_, fun j hj => ?_, hs.fresh.2.2⟩
  · simp [dealloc, update_apply, hs.fresh.1 c hc]
  · simp [dealloc, update_apply, hs.fresh.2.1 j hj]

/-- The inode of an entry that has left the tree is given back with it when it is not open. -/
def reap (s : Vfs) (i d : ℕ) (n : Inode) : Vfs := if n.refCount = 0 then s.dealloc i d else s

omit hs in
lemma reap_keeps (h : Keeps s s') (hout : ¬ s'.Attached d) (hnode : s'.nodeOf d = some i)
    (hn : ∃ m, s'.inodes i = some m ∧ m.refCount = n.refCount) :
    Keeps s (s'.reap i d n) := by
  rw [reap]
  split
  next hrefs =>
    obtain ⟨m, hm, hmn⟩ := hn
    have hopen : s'.opens i = ∅ := by
      have hcount := h.inv.refs i m hm
      rwa [hmn, hrefs, Nat.cast_zero, eq_comm, Set.encard_eq_zero] at hcount
    have hfrees : Frees s' (s'.dealloc i d) d i := dealloc_frees h.inv
    refine ⟨hfrees.inv h.inv hout hnode hopen, fun c hc hnot => h.leaves c hc fun hin => hnot ?_⟩
    exact hfrees.attached.2 ⟨hin, fun hcd => hout (hcd ▸ hin)⟩
  · exact h

omit hs in
lemma setInode_self {f : Inode → Inode} (hn : s.inodes i = some n) (hf : f n = n) :
    s.setInode i f = s := by
  rw [setInode, hn, map_some, hf, ← hn, update_eq_self]

lemma unlinkEntry_of_removable (hd : s.Removable d) (hnode : s.nodeOf d = some i)
    (hn : s.inodes i = some n) (h : s.unlinkEntry d = .ok (b, s')) :
    ∃ s₁, Detaches s s₁ d i ∧ s' = s₁.reap i d n := by
  obtain ⟨x, hx, h⟩ := bind_eq_ok.1 h
  have hxi : x.node = some i := by simpa [nodeOf, dentry_ok.1 hx] using hnode
  rw [hxi] at h
  simp only [inode_ok.2 hn, ok_bind, hd.single i n hnode hn] at h
  obtain ⟨s₂, h₂, h⟩ := bind_eq_ok.1 h
  cases h
  obtain ⟨s₁, h₁, rfl⟩ := detach_setInode _ h₂
  exact ⟨_, detach_detaches (f := fun n => { n with linkCount := 1 - 1 }) hs hd hn h₁ rfl, rfl⟩

lemma unlinkEntry_of_detached (hout : ¬ s.Attached d) (hnode : s.nodeOf d = some i)
    (hn : s.inodes i = some n) (h : s.unlinkEntry d = .ok (b, s')) : s' = s.reap i d n := by
  obtain ⟨x, hx, h⟩ := bind_eq_ok.1 h
  have hx := dentry_ok.1 hx
  have hxi : x.node = some i := by simpa [nodeOf, hx] using hnode
  have hlinks : n.linkCount = 0 := by
    have hcount := hs.links i n hn
    rw [(hs.detached d i (by simp [hx]) hout hnode).1, Set.encard_empty] at hcount
    exact_mod_cast hcount
  have hparent : x.parent = none := by
    cases hp : x.parent with
    | none => rfl
    | some q => exact absurd (Parent.attached ⟨x, hx, hp⟩) hout
  rw [hxi] at h
  simp only [inode_ok.2 hn, ok_bind, hlinks] at h
  rw [if_pos trivial, setInode_self hn (by cases n; cases hlinks; rfl), detach, dentry_eq hx] at h
  simp only [ok_bind, hparent, Except.ok.injEq, Prod.mk.injEq] at h
  exact h.2.symm

/-- **An entry is unlinked** that may be removed, or that is no longer in the tree. -/
theorem unlinkEntry_keeps (h : s.unlinkEntry d = .ok (b, s')) (hd : s.Attached d → s.Removable d) :
    Keeps s s' := by
  obtain ⟨x, hx, -⟩ := bind_eq_ok.1 h
  obtain ⟨i, n, hnode, hn⟩ := hs.node d (by simp [dentry_ok.1 hx])
  by_cases hin : s.Attached d
  · obtain ⟨s₁, hdetaches, rfl⟩ := unlinkEntry_of_removable hs (hd hin) hnode hn h
    exact reap_keeps (hdetaches.keeps hs (hd hin) hnode hn) (hdetaches.not_attached (hd hin))
      ((hdetaches.nodeOf d).trans hnode) ⟨_, hdetaches.node n hn, rfl⟩
  · obtain rfl := unlinkEntry_of_detached hs hin hnode hn h
    exact reap_keeps (.refl hs) hin hnode ⟨n, hn, rfl⟩

/-- **A directory is removed.** -/
theorem rmdirEntry_keeps (h : s.rmdirEntry d = .ok s') (hd : s.Removable d) :
    Keeps s s' := by
  obtain ⟨⟨i, n⟩, hi, h⟩ := bind_eq_ok.1 h
  obtain ⟨hnode, hn⟩ := getInode_ok.1 hi
  have hlinks := hd.single i n hnode hn
  simp only [hlinks, one_ne_zero, if_false] at h
  obtain ⟨s₁, h₁, h⟩ := bind_eq_ok.1 h
  cases h
  have hdetaches := detach_detaches (f := fun n => { n with linkCount := n.linkCount - 1 }) hs hd
    hn h₁ (by rw [hlinks])
  exact reap_keeps (n := n) (hdetaches.keeps hs hd hnode hn) (hdetaches.not_attached hd)
    ((hdetaches.nodeOf d).trans hnode) ⟨_, hdetaches.node n hn, rfl⟩

/-! ## An entry is moved -/

structure Movable (s : Vfs) (d p : ℕ) (name : Name) : Prop where
  ne_root : d ≠ globalRoot
  attached : s.Attached d
  dest : s.Attached p
  not_below : ¬ s.Below d p
  vacant : s.Vacant p name

/-- **An entry is renamed.** -/
theorem moveEntry_moves (h : s.moveEntry d p name true = .ok s') (hd : s.Movable d p name) :
    Moves s s' p d name := by
  obtain ⟨q, x, hx, hxq⟩ := hd.attached.2.resolve_left hd.ne_root
  have hq : s.Parent d q := ⟨x, hx, hxq⟩
  have hqd : q ≠ d := by
    rintro rfl
    -- The parents of the entry lead to the root.
    have hloop : ∀ c, s.Below globalRoot c → c ≠ q := by
      intro c hc
      induction hc with
      | self => exact hd.ne_root.symm
      | step hc hparent _ ih =>
        rintro rfl
        exact ih (Parent.unique ⟨_, hc, hparent⟩ hq)
    exact hloop q (hs.rooted q q hq) rfl
  have hpd : p ≠ d := fun hpd => hd.not_below (hpd ▸ .self)
  obtain ⟨e, he⟩ := ne_none_iff_exists'.1 (hs.parent_live hq)
  obtain ⟨ep, hep⟩ := ne_none_iff_exists'.1 hd.dest.1
  rw [moveEntry, dentry_eq hx, ok_bind, hxq, elim_some, ok_bind, dentry_eq he, ok_bind,
    dentry_eq hep, ok_bind] at h
  have h := Except.ok.inj h
  have hentry : s'.dentries d = some { x with name := some name, parent := some p } := by
    rw [← h]
    simp [addChild, setDentry, removeChild, hqd.symm, hpd.symm, hx]
  have hrep : Reparents s s' d (some p) := by
    refine reparents_of_update hs hx hxq hqd ?_ hentry fun r hrd => ?_
    · rintro r ⟨⟩
      exact ⟨hpd, hd.dest.1⟩
    · rw [← h]
      by_cases hrp : r = p <;> by_cases hrq : r = q
      · subst hrp
        subst hrq
        cases hr : s.dentries r <;> simp [addChild, setDentry, removeChild, hrd, hr]
      · subst hrp
        cases hr : s.dentries r <;> simp [addChild, setDentry, removeChild, hrd, hrq, hr]
      · subst hrq
        simp [addChild, setDentry, removeChild, hrd, hrp, Ne.symm hrp]
      · simp [addChild, setDentry, removeChild, hrd, hrp, hrq, Ne.symm hrp]
  refine ⟨fun c r => ?_, fun c r => ?_, hrep.nodup, hrep.live, hrep.nameOf, ?_, hrep.nodeOf, ?_, ?_,
    hrep.unallocated hs ?_, ?_⟩
  · rw [hrep.parent, Option.some.injEq, eq_comm (a := r)]
  · rw [hrep.child, Option.some.injEq, eq_comm (a := r)]
  · simp [nameOf, hentry]
  · rw [← h]
    rfl
  · rw [← h]
    rfl
  · rw [← h]
    rfl
  · rw [← h]
    exact hs.fresh.2

/-! ## Files -/

omit hs in
lemma opens_of_update {v : Option File} (hdentries : t.dentries = s.dentries)
    (hfiles : t.files = update s.files f v) (j : ℕ) :
    t.opens j = {g | if g = f then ∃ x, v = some x ∧ s.nodeOf x.entry = some j
      else g ∈ s.opens j} := by
  ext g
  have hnodeOf : t.nodeOf = s.nodeOf := by funext c; rw [nodeOf, hdentries, nodeOf]
  by_cases hg : g = f <;> simp [opens, hfiles, hnodeOf, hg]

lemma inv_of_update {m : Inode} (hn : s.inodes i = some n) (hdentries : s'.dentries = s.dentries)
    (hinodes : s'.inodes = update s.inodes i (some m)) (hlinks : m.linkCount = n.linkCount)
    (hrefs : (m.refCount : ℕ∞) = (s'.opens i).encard) (hopens : ∀ j, j ≠ i → s'.opens j = s.opens j)
    (hfile : ∀ f x, s'.files f = some x → s.dentries x.entry ≠ none)
    (hnext : s'.nextDentry = s.nextDentry ∧ s'.nextInode = s.nextInode)
    (hfresh : ∀ f, s'.nextFile ≤ f → s'.files f = none) : s'.Inv := by
  have hrefers : Refers s s' i := by
    refine ⟨hdentries, fun j hj => by rw [hinodes, update_of_ne hj], hopens, hfile,
      fun c hc => ?_, fun j hj => ?_, hfresh⟩
    · rw [hdentries]
      exact hs.fresh.1 c (hnext.1 ▸ hc)
    · have hnone := hs.fresh.2.1 j (hnext.2 ▸ hj)
      have hji : j ≠ i := fun hji => by simp [hji, hn] at hnone
      rw [hinodes, update_of_ne hji, hnone]
  exact hrefers.inv hs hn (by rw [hinodes, update_self]) hlinks hrefs

/-- **A file is opened.** -/
theorem openEntry_inv (h : s.openEntry d unlinkOnClose = .ok (b, s')) :
    s'.dentries = s.dentries ∧ s'.Inv := by
  obtain ⟨⟨i, n⟩, hi, h⟩ := bind_eq_ok.1 h
  obtain ⟨hnode, hn⟩ := getInode_ok.1 hi
  have hfile : s.files s.nextFile = none := hs.fresh.2.2 _ le_rfl
  simp only [Except.ok.injEq, Prod.mk.injEq] at h
  obtain ⟨-, hs'⟩ := h
  have hdentries : s'.dentries = s.dentries := by rw [← hs']; rfl
  have hfiles : s'.files = update s.files s.nextFile (some ⟨d, unlinkOnClose⟩) := by rw [← hs']; rfl
  have hopens := opens_of_update hdentries hfiles
  refine ⟨hdentries, ?_⟩
  refine inv_of_update (m := { n with refCount := n.refCount + 1 }) hs hn hdentries
    (by rw [← hs', setInode, hn]; rfl) rfl ?_ (fun j hj => ?_) (fun f x hx => ?_)
    (by rw [← hs']; exact ⟨rfl, rfl⟩) (fun f hf => ?_)
  · have hinsert : s'.opens i = insert s.nextFile (s.opens i) := by
      rw [hopens]
      ext g
      by_cases hg : g = s.nextFile <;> simp [hg, hnode]
    have hnew : s.nextFile ∉ s.opens i := by simp [opens, hfile]
    rw [hinsert, Set.encard_insert_of_notMem hnew, ← hs.refs i n hn]
    push_cast
    rfl
  · rw [hopens]
    ext g
    by_cases hg : g = s.nextFile
    · have hold : s.nextFile ∉ s.opens j := by simp [opens, hfile]
      simpa [hg, hnode, hold] using hj.symm
    · simp [hg]
  · rw [hfiles] at hx
    by_cases hf : f = s.nextFile
    · rw [hf, update_self] at hx
      cases hx
      exact nodeOf_some hnode
    · rw [update_of_ne hf] at hx
      exact hs.file f x hx
  · have hf : s.nextFile + 1 ≤ f := by rw [← hs'] at hf; exact hf
    rw [hfiles, update_of_ne (by omega)]
    exact hs.fresh.2.2 f (by omega)

def dropFile (s : Vfs) (f i : ℕ) : Vfs :=
  { s with files := update s.files f none }.setInode i
    fun n => { n with refCount := n.refCount - 1 }

omit hs in
lemma dropFile_inodes (hn : s.inodes i = some n) : (s.dropFile f i).inodes =
      update s.inodes i (some { n with refCount := n.refCount - 1 }) := by
  rw [dropFile, setInode, hn]
  rfl

lemma dropFile_inv (hfile : s.files f = some x) (hnode : s.nodeOf x.entry = some i)
    (hn : s.inodes i = some n) : (s.dropFile f i).Inv := by
  have hfiles : (s.dropFile f i).files = update s.files f none := rfl
  have hopens := opens_of_update (s := s) (t := s.dropFile f i) rfl hfiles
  refine inv_of_update (m := { n with refCount := n.refCount - 1 }) hs hn rfl
    (dropFile_inodes hn) rfl ?_ (fun j hj => ?_) (fun g y hy => ?_) ⟨rfl, rfl⟩ (fun g hg => ?_)
  · have hremove : (s.dropFile f i).opens i = s.opens i \ {f} := by
      rw [hopens]
      ext g
      by_cases hg : g = f <;> simp [hg]
    have hmem : f ∈ s.opens i := ⟨x, hfile, hnode⟩
    rw [hremove, Set.encard_sdiff_singleton_of_mem hmem, ← hs.refs i n hn]
    push_cast
    rfl
  · rw [hopens]
    ext g
    by_cases hg : g = f
    · simpa [hg, opens, hfile, hnode] using hj.symm
    · simp [hg]
  · rw [hfiles] at hy
    by_cases hg : g = f
    · rw [hg, update_self] at hy
      cases hy
    · rw [update_of_ne hg] at hy
      exact hs.file g y hy
  · have hg : s.nextFile ≤ g := hg
    simp [hfiles, update_apply, hs.fresh.2.2 g hg]

omit hs in
lemma closeFile_ok (hfile : s.files f = some x) (h : s.closeFile f = .ok (b, s')) :
    ∃ i n, s.nodeOf x.entry = some i ∧ s.inodes i = some n ∧
      if x.unlinkOnClose = true ∨ n.linkCount = 0 then
        (s.dropFile f i).unlinkEntry x.entry = .ok (b, s')
      else s' = s.dropFile f i := by
  rw [closeFile, hfile] at h
  obtain ⟨⟨i, n⟩, hi, h⟩ := bind_eq_ok.1 h
  obtain ⟨hnode, hn⟩ := getInode_ok.1 hi
  refine ⟨i, n, hnode, hn, ?_⟩
  simp only at h
  split at h
  next hunlink => rwa [if_pos hunlink]
  next hkeep =>
    rw [if_neg hkeep]
    cases h
    rfl

/-- **A file is closed**: its entry is given back when it has left the tree, and removed when it
is to be. -/
theorem closeFile_keeps (h : s.closeFile f = .ok (b, s'))
    (hf : ∀ x, s.files f = some x → x.unlinkOnClose = true → s.Attached x.entry →
      s.Removable x.entry) : Keeps s s' := by
  cases hfile : s.files f with
  | none =>
    rw [closeFile, hfile] at h
    cases h
    exact .refl hs
  | some x =>
    obtain ⟨i, n, hnode, hn, h⟩ := closeFile_ok hfile h
    have hinv := dropFile_inv hs hfile hnode hn
    split at h
    next hunlink =>
      refine .of_dentries_trans (t := s.dropFile f i) rfl (unlinkEntry_keeps hinv h fun hin => ?_)
      have hremovable := hf x hfile (hunlink.resolve_right (hs.names_live hin hnode hn)) hin
      refine ⟨hremovable.ne_root, hin, hremovable.leaf, fun j m hj hm => ?_⟩
      obtain rfl : i = j := some.inj (hnode.symm.trans hj)
      rw [dropFile_inodes hn, update_self] at hm
      cases hm
      exact hremovable.single i n hnode hn
    · subst h
      exact (Keeps.refl hs).trans_of_dentries (t := s.dropFile f i) rfl hinv

/-- **A new file becomes a symbolic link.** -/
theorem createSymbolink_inv (hnode : s.nodeOf d = some i) (hn : s.inodes i = some { type := type })
    (hopen : s.opens i = ∅) (h : s.createSymbolink d target = .ok s') :
    s'.dentries = s.dentries ∧ s'.Inv := by
  rw [createSymbolink, getInode_ok.2 ⟨hnode, hn⟩, ok_bind] at h
  simp only at h
  split at h
  · cases h
    refine ⟨rfl, ?_⟩
    refine inv_of_update (m := { type := .symbolink, data := some (target ++ ['\x00']) }) hs hn rfl
      (by rw [setInode, hn]; rfl) rfl ?_ (fun _ _ => rfl) hs.file ⟨rfl, rfl⟩ hs.fresh.2.2
    exact (Set.encard_eq_zero.2 hopen).symm
  · cases h
    refine ⟨rfl, ?_⟩
    refine inv_of_update (m := { type := .symbolink }) hs hn rfl
      (by rw [setInode, hn]; rfl) rfl ?_ (fun _ _ => rfl) hs.file ⟨rfl, rfl⟩ hs.fresh.2.2
    exact (Set.encard_eq_zero.2 hopen).symm

/-! ## Runs -/

/-- A walk has ended at a directory of the tree, which has no entry of this name. -/
def Ready (s : Vfs) (idata : Idata ℕ) (name : Name) : Prop :=
  ∀ p, idata.lastAvailableEntry = some p → s.Attached p ∧ s.Vacant p name

/-- **The conditions that the operations do not test.**  A name that is created is not there yet,
an entry that is removed is not the root, has no children and is the only name of its inode, and
an entry is not moved below itself. -/
def Orderly (s : Vfs) : Action → Prop
  | .create path root curDir _ => ∀ idata name, s.walk root curDir path {} {} = .ok (none, idata) →
      restFileName idata.lastScanUrlPoint = some name → s.Ready idata name
  | .mkdir dir root curDir attr idata => ∀ idata' name ended,
      s.walk root curDir dir { attr with file := false, directory := true } idata =
        .ok (none, idata') →
      restDirName idata'.lastScanUrlPoint = some (name, ended) → s.Ready idata' name
  | .link src target root curDir =>
    (∀ idata name, s.walk root curDir src { file := true } {} = .ok (none, idata) →
      restFileName idata.lastScanUrlPoint = some name → s.Ready idata name) ∧
    ∀ t idata, s.walk root curDir target {} {} = .ok (some t, idata) → s.Attached t
  | .symbolink src _ root curDir => ∀ idata name, s.walk root curDir src {} {} = .ok (none, idata) →
      restFileName idata.lastScanUrlPoint = some name → s.Ready idata name
  | .rename newDir oldDir root curDir => ∀ d idata₀ idata i n name ended p,
      s.walk root curDir oldDir {} {} = .ok (some d, idata₀) →
      s.walk root curDir newDir {} {} = .ok (none, idata) → s.getInode d = .ok (i, n) →
      (if n.type ≠ .directory then (restFileName idata.lastScanUrlPoint).map (·, true)
        else restDirName idata.lastScanUrlPoint) = some (name, ended) →
      idata.lastAvailableEntry = some p → ended = true ∧ s.Movable d p name
  | .unlink path root curDir => ∀ d idata,
      s.walk root curDir path { notResolveSymbolicLink := true } {} = .ok (some d, idata) →
      s.Removable d
  | .rmdir dir root curDir => ∀ d idata,
      s.walk root curDir dir { directory := true } {} = .ok (some d, idata) → s.Removable d
  | .openFile path root curDir _ attr idata => attr.autoCreateFile = true → ∀ idata' name,
      s.walk root curDir path attr idata = .ok (none, idata') →
      restFileName idata'.lastScanUrlPoint = some name → s.Ready idata' name
  | .closeFile f => ∀ x, s.files f = some x → x.unlinkOnClose = true → s.Attached x.entry →
      s.Removable x.entry

omit hs in
lemma available_ok (h : available idata = .ok p) : idata.lastAvailableEntry = some p := by
  rw [available] at h
  cases hp : idata.lastAvailableEntry with
  | none => simp [hp] at h
  | some q => simpa [hp] using h

lemma create_keeps {flags : CreateFlags} (h : s.create path root curDir flags = .ok (b, s'))
    (ho : s.Orderly (.create path root curDir flags)) : Keeps s s' := by
  obtain ⟨⟨entry, idata⟩, hwalk, h⟩ := bind_eq_ok.1 h
  cases entry with
  | some d =>
    cases h
    exact .refl hs
  | none =>
    simp only [isSome_none, Bool.false_eq_true, if_false] at h
    split at h
    next name type hname _ =>
      obtain ⟨p, hp, h⟩ := bind_eq_ok.1 h
      obtain ⟨⟨d, s₁⟩, hnew, h⟩ := bind_eq_ok.1 h
      cases h
      exact (newEntry_keeps hs hnew (ho idata name hwalk hname p (available_ok hp))).1
    · cases h
      exact .refl hs

lemma mkdir_keeps {dir : Name} (h : s.mkdir dir root curDir attr idata = .ok (b, s'))
    (ho : s.Orderly (.mkdir dir root curDir attr idata)) : Keeps s s' := by
  obtain ⟨⟨entry, idata'⟩, hwalk, h⟩ := bind_eq_ok.1 h
  cases entry with
  | some d =>
    cases h
    exact .refl hs
  | none =>
    simp only [isSome_none, Bool.false_eq_true, if_false] at h
    split at h
    · cases h
      exact .refl hs
    next name ended hname =>
      obtain ⟨p, hp, h⟩ := bind_eq_ok.1 h
      obtain ⟨⟨d, s₁⟩, hnew, h⟩ := bind_eq_ok.1 h
      cases h
      exact (newEntry_keeps hs hnew (ho idata' name ended hwalk hname p (available_ok hp))).1

lemma linkPath_keeps (h : s.link src target root curDir = .ok (b, s'))
    (ho : s.Orderly (.link src target root curDir)) : Keeps s s' := by
  obtain ⟨⟨entryTarget, idata₀⟩, htarget, h⟩ := bind_eq_ok.1 h
  cases entryTarget with
  | none =>
    cases h
    exact .refl hs
  | some t =>
    obtain ⟨⟨entry, idata⟩, hwalk, h⟩ := bind_eq_ok.1 h
    cases entry with
    | some d =>
      cases h
      exact .refl hs
    | none =>
      simp only [isSome_none, Bool.false_eq_true, if_false] at h
      split at h
      · cases h
        exact .refl hs
      rename_i name hname
      obtain ⟨p, hp, h⟩ := bind_eq_ok.1 h
      obtain ⟨⟨d, s₁⟩, hnew, h⟩ := bind_eq_ok.1 h
      obtain ⟨⟨i, n⟩, hi, h⟩ := bind_eq_ok.1 h
      cases h
      exact link_keeps hs hnew (ho.1 idata name hwalk hname p (available_ok hp))
        (ho.2 t idata₀ htarget) hi

lemma symbolink_keeps (h : s.symbolink src target root curDir = .ok (b, s'))
    (ho : s.Orderly (.symbolink src target root curDir)) : Keeps s s' := by
  obtain ⟨⟨entry, idata⟩, hwalk, h⟩ := bind_eq_ok.1 h
  cases entry with
  | some d =>
    cases h
    exact .refl hs
  | none =>
    simp only [isSome_none, Bool.false_eq_true, if_false] at h
    split at h
    · cases h
      exact .refl hs
    rename_i name hname
    obtain ⟨p, hp, h⟩ := bind_eq_ok.1 h
    obtain ⟨⟨d, s₁⟩, hnew, h⟩ := bind_eq_ok.1 h
    obtain ⟨s₂, hlink, h⟩ := bind_eq_ok.1 h
    cases h
    obtain ⟨hkeeps, i, hnode, hn, hopen⟩ :=
      newEntry_keeps hs hnew (ho idata name hwalk hname p (available_ok hp))
    obtain ⟨hdentries, hinv⟩ := createSymbolink_inv hkeeps.inv hnode hn hopen hlink
    exact hkeeps.trans_of_dentries hdentries hinv

lemma rename_keeps {newDir oldDir : Name} (h : s.rename newDir oldDir root curDir = .ok (b, s'))
    (ho : s.Orderly (.rename newDir oldDir root curDir)) : Keeps s s' := by
  obtain ⟨⟨old, idata₀⟩, hold, h⟩ := bind_eq_ok.1 h
  cases old with
  | none =>
    cases h
    exact .refl hs
  | some d =>
    obtain ⟨⟨entry, idata⟩, hwalk, h⟩ := bind_eq_ok.1 h
    obtain ⟨⟨i, n⟩, hi, h⟩ := bind_eq_ok.1 h
    simp only at h
    generalize hname : (if n.type ≠ .directory then
        (restFileName idata.lastScanUrlPoint).map (·, true)
      else restDirName idata.lastScanUrlPoint) = name at h
    cases entry with
    | some _ =>
      cases h
      exact .refl hs
    | none =>
      rcases name with - | ⟨name, ended⟩
      · cases h
        exact .refl hs
      obtain ⟨p, hp, h⟩ := bind_eq_ok.1 h
      obtain ⟨s₁, hmove, h⟩ := bind_eq_ok.1 h
      cases h
      obtain ⟨rfl, hd⟩ := ho d idata₀ idata i n name ended p hold hwalk hi hname (available_ok hp)
      have hmoves := moveEntry_moves hs hmove hd
      have hinv := hmoves.inv hs hd.ne_root hd.attached hd.dest hd.not_below hd.vacant
      exact ⟨hinv, fun c hc hnot => absurd ((hmoves.attached hd.attached).2 hc) hnot⟩

lemma openFile_keeps (h : s.openFile path root curDir unlinkOnClose attr idata = .ok (b, s'))
    (ho : s.Orderly (.openFile path root curDir unlinkOnClose attr idata)) : Keeps s s' := by
  obtain ⟨⟨entry, idata'⟩, hwalk, h⟩ := bind_eq_ok.1 h
  cases entry with
  | some d =>
    obtain ⟨hdentries, hinv⟩ := openEntry_inv hs h
    exact (Keeps.refl hs).trans_of_dentries hdentries hinv
  | none =>
    simp only at h
    split at h
    next hauto =>
      split at h
      · cases h
        exact .refl hs
      rename_i name hname
      obtain ⟨p, hp, h⟩ := bind_eq_ok.1 h
      obtain ⟨⟨d, s₁⟩, hnew, h⟩ := bind_eq_ok.1 h
      have hkeeps :=
        (newEntry_keeps hs hnew (ho hauto idata' name hwalk hname p (available_ok hp))).1
      obtain ⟨hdentries, hinv⟩ := openEntry_inv hkeeps.inv h
      exact hkeeps.trans_of_dentries hdentries hinv
    · cases h
      exact .refl hs

/-- **One operation keeps the tree.** -/
theorem act_keeps (h : s.act a = .ok (b, s')) (ho : s.Orderly a) : Keeps s s' := by
  cases a with
  | create path root curDir flags => exact create_keeps hs h ho
  | mkdir dir root curDir attr idata => exact mkdir_keeps hs h ho
  | link src target root curDir => exact linkPath_keeps hs h ho
  | symbolink src target root curDir => exact symbolink_keeps hs h ho
  | rename newDir oldDir root curDir => exact rename_keeps hs h ho
  | unlink path root curDir =>
    obtain ⟨⟨entry, idata⟩, hwalk, h⟩ := bind_eq_ok.1 h
    cases entry with
    | none =>
      cases h
      exact .refl hs
    | some d => exact unlinkEntry_keeps hs h fun _ => ho d idata hwalk
  | rmdir dir root curDir =>
    obtain ⟨⟨entry, idata⟩, hwalk, h⟩ := bind_eq_ok.1 h
    cases entry with
    | none =>
      cases h
      exact .refl hs
    | some d =>
      obtain ⟨s₁, hremove, h⟩ := bind_eq_ok.1 h
      cases h
      exact rmdirEntry_keeps hs hremove (ho d idata hwalk)
  | openFile path root curDir unlinkOnClose attr idata => exact openFile_keeps hs h ho
  | closeFile f => exact closeFile_keeps hs h ho

lemma step_keeps (ho : s.Orderly a) (h : s.step a = some s') :
    Keeps s s' := by
  rw [step] at h
  cases hact : s.act a with
  | error e =>
    rw [hact] at h
    cases h
  | ok r =>
    rw [hact] at h
    cases h
    exact act_keeps hs hact ho

end

lemma load_inv (maxRam : ℕ) : (load maxRam).Inv := by
  have hdentries : ∀ d e, (load maxRam).dentries d = some e →
      d = globalRoot ∧ e = { name := some ['/'], node := some 0 } := by
    intro d e he
    obtain ⟨hd, he⟩ := ite_none_right_eq_some.1 he
    exact ⟨hd, (some.inj he).symm⟩
  have hparent : ∀ c q, ¬ (load maxRam).Parent c q := by
    rintro c q ⟨x, hx, hxq⟩
    rw [(hdentries c x hx).2] at hxq
    cases hxq
  have hroot : (load maxRam).dentries globalRoot = some { name := some ['/'], node := some 0 } :=
    by simp [load]
  have hnodeOf : (load maxRam).nodeOf globalRoot = some 0 := by rw [nodeOf, hroot]; rfl
  have hlive : ∀ d, (load maxRam).dentries d ≠ none → d = globalRoot := by
    intro d hd
    obtain ⟨e, he⟩ := ne_none_iff_exists'.1 hd
    exact (hdentries d e he).1
  have hinode : ∀ i n, (load maxRam).inodes i = some n → i = 0 ∧ n = { type := .directory } := by
    intro i n hn
    obtain ⟨hi, hn⟩ := ite_none_right_eq_some.1 hn
    exact ⟨hi, (some.inj hn).symm⟩
  refine ⟨⟨by simp [hroot], hparent globalRoot⟩, fun q c => ?_, fun q e he => ?_,
    fun q c _ hc => absurd hc (hparent c q), fun c q hc => absurd hc (hparent c q),
    fun c q hc => absurd hc (hparent c q), ?_, ?_, ?_,
    (fun _ _ h => by cases h), ?_, fun d hd => ?_, fun j hj => ?_, fun f _ => rfl⟩
  · refine iff_of_false ?_ (hparent c q)
    rintro ⟨e, he, hmem⟩
    rw [(hdentries q e he).2] at hmem
    cases hmem
  · rw [(hdentries q e he).2]
    exact List.nodup_nil
  · intro j n hn
    obtain ⟨rfl, rfl⟩ := hinode j n hn
    have hnames : (load maxRam).names 0 = {globalRoot} := by
      ext d
      refine ⟨fun hd => hlive d hd.1.1, ?_⟩
      rintro rfl
      exact ⟨⟨by simp [hroot], .inl rfl⟩, hnodeOf⟩
    rw [hnames, Set.encard_singleton]
    rfl
  · intro j n hn
    obtain ⟨rfl, rfl⟩ := hinode j n hn
    have hopens : (load maxRam).opens 0 = ∅ := by
      ext f
      simp [opens, load]
    rw [hopens, Set.encard_empty]
    rfl
  · intro d hd
    rw [hlive d hd]
    exact ⟨0, { type := .directory }, hnodeOf, by simp [load]⟩
  · intro d j hd hout _
    exact absurd ⟨hd, .inl (hlive d hd)⟩ hout
  · have hd : 1 ≤ d := hd
    exact if_neg (by unfold globalRoot; omega)
  · have hj : 1 ≤ j := hj
    exact if_neg (by omega)

lemma inv_of_exec {l : List Action} (hok : Along step Orderly (load maxRam) l)
    (hexec : exec step (load maxRam) l = some s) :
    s.Inv :=
  exec_induct (I := Inv) (fun _ _ _ hs ho h => (step_keeps hs ho h).inv) (load_inv maxRam) hok hexec

/-- **The entries form a tree.**  In every run whose operations meet their conditions, from an
empty file system, the entries form a tree below the root: siblings have different names,
children and parents agree, there is no cycle, and the link count of a regular file is the number
of its names.  What the next operation takes out of the tree has no children. -/
theorem tree_of_exec {maxRam : ℕ} {as : List Action} {s : Vfs}
    (hexec : exec step (load maxRam) as = some s)
    (hok : Along step Orderly (load maxRam) as) :
    s.Tree ∧ ∀ a s', s.Orderly a → s.step a = some s' →
      ∀ d, s.Attached d → ¬ s'.Attached d → ∀ c, ¬ s.Parent c d := by
  have hinv := inv_of_exec hok hexec
  exact ⟨hinv.tree, fun a s' ho h => (step_keeps hinv ho h).leaves⟩

/-! ## Runs of a small file system -/

def ran (as : List Action) : Vfs := (exec step (load 4096) as).getD (load 4096)

lemma Inv.vacant (hs : s.Inv) (he : s.dentries p = some e)
    (h : ∀ c ∈ e.children, s.nameOf c ≠ some name) : s.Vacant p name := by
  intro c hc
  obtain ⟨e', he', hmem⟩ := (hs.agree p c).2 hc
  obtain rfl := some.inj (he.symm.trans he')
  exact h c hmem

def moveRun : List Action :=
  [.create ['/', 'f'] 0 0 {}, .mkdir ['/', 'd'] 0 0 {} {},
    .rename ['/', 'd', '/', 'g'] ['/', 'f'] 0 0, .unlink ['/', 'd', '/', 'g'] 0 0]

lemma orderly_create : (load 4096).Orderly (.create ['/', 'f'] 0 0 {}) := by
  intro idata name hwalk hname p hp
  have heval : (load 4096).walk 0 0 ['/', 'f'] {} {} = .ok (none, ⟨some 0, 0, ['f']⟩) := by
    decide +kernel
  cases heval.symm.trans hwalk
  obtain rfl : 0 = p := some.inj hp
  exact ⟨⟨by decide, .inl rfl⟩, (load_inv 4096).vacant rfl nofun⟩

lemma orderly_mkdir : (ran (moveRun.take 1)).Orderly (.mkdir ['/', 'd'] 0 0 {} {}) := by
  intro idata name ended hwalk hname p hp
  have hinv : (ran (moveRun.take 1)).Inv :=
    inv_of_exec (l := moveRun.take 1) ⟨orderly_create, trivial⟩ rfl
  have heval : (ran (moveRun.take 1)).walk 0 0 ['/', 'd'] { directory := true } {} =
      .ok (none, ⟨some 0, 0, ['d']⟩) := by decide +kernel
  cases heval.symm.trans hwalk
  obtain rfl : 0 = p := some.inj hp
  obtain rfl : ['d'] = name := congrArg Prod.fst (some.inj hname)
  exact ⟨⟨by decide +kernel, .inl rfl⟩,
    hinv.vacant (e := ⟨some ['/'], some 0, none, [1]⟩) (by decide +kernel) (by decide +kernel)⟩

lemma orderly_rename :
    (ran (moveRun.take 2)).Orderly (.rename ['/', 'd', '/', 'g'] ['/', 'f'] 0 0) := by
  intro d idata₀ idata i n name ended p hold hnew hnode hname hp
  have hinv : (ran (moveRun.take 2)).Inv :=
    inv_of_exec (l := moveRun.take 2) ⟨orderly_create, orderly_mkdir, trivial⟩ rfl
  have heval : (ran (moveRun.take 2)).walk 0 0 ['/', 'f'] {} {} =
      .ok (some 1, ⟨some 0, 0, ['f']⟩) := by decide +kernel
  have heval' : (ran (moveRun.take 2)).walk 0 0 ['/', 'd', '/', 'g'] {} {} =
      .ok (none, ⟨some 2, 0, ['g']⟩) := by decide +kernel
  have hnode' : (ran (moveRun.take 2)).getInode 1 = .ok (1, { type := .file }) := by decide +kernel
  cases heval.symm.trans hold
  cases heval'.symm.trans hnew
  cases hnode'.symm.trans hnode
  obtain rfl : 2 = p := some.inj hp
  cases hname
  have hfile : (ran (moveRun.take 2)).dentries 1 = some ⟨some ['f'], some 1, some 0, []⟩ := by
    decide +kernel
  have hdir : (ran (moveRun.take 2)).dentries 2 = some ⟨some ['d'], some 2, some 0, []⟩ := by
    decide +kernel
  refine ⟨rfl, nofun, Parent.attached ⟨_, hfile, rfl⟩, Parent.attached ⟨_, hdir, rfl⟩, ?_,
    hinv.vacant hdir nofun⟩
  intro hbelow
  cases hbelow with
  | step hc hparent hroot =>
    obtain rfl := some.inj (hdir.symm.trans hc)
    cases hparent
    cases hroot with
    | step hc hparent _ => exact hinv.root.2 _ ⟨_, hc, hparent⟩

lemma orderly_unlink : (ran (moveRun.take 3)).Orderly (.unlink ['/', 'd', '/', 'g'] 0 0) := by
  intro d idata hwalk
  have hinv : (ran (moveRun.take 3)).Inv :=
    inv_of_exec (l := moveRun.take 3) ⟨orderly_create, orderly_mkdir, orderly_rename, trivial⟩ rfl
  have heval : (ran (moveRun.take 3)).walk 0 0 ['/', 'd', '/', 'g']
      { notResolveSymbolicLink := true } {} = .ok (some 1, ⟨some 2, 0, ['g']⟩) := by
    decide +kernel
  cases heval.symm.trans hwalk
  have hfile : (ran (moveRun.take 3)).dentries 1 = some ⟨some ['g'], some 1, some 2, []⟩ := by
    decide +kernel
  refine ⟨nofun, Parent.attached ⟨_, hfile, rfl⟩, fun c hc => ?_, fun i n hi hn => ?_⟩
  · obtain ⟨e, he, hmem⟩ := (hinv.agree 1 c).2 hc
    obtain rfl := some.inj (hfile.symm.trans he)
    cases hmem
  · have hi' : (ran (moveRun.take 3)).nodeOf 1 = some 1 := by decide +kernel
    obtain rfl : 1 = i := some.inj (hi'.symm.trans hi)
    have hn' : (ran (moveRun.take 3)).inodes 1 = some { type := .file } := by decide +kernel
    obtain rfl := some.inj (hn'.symm.trans hn)
    rfl

theorem tree_of_exec_moveRun : exec step (load 4096) moveRun = some (ran moveRun) ∧
    Along step Orderly (load 4096) moveRun ∧ (ran moveRun).Tree :=
  have hok : Along step Orderly (load 4096) moveRun :=
    ⟨orderly_create, orderly_mkdir, orderly_rename, orderly_unlink, trivial⟩
  ⟨rfl, hok, (tree_of_exec rfl hok).1⟩

def linkRun : List Action :=
  [.create ['/', 'f'] 0 0 {}, .link ['/', 'g'] ['/', 'f'] 0 0, .unlink ['/', 'g'] 0 0]

def cycleRun : List Action :=
  [.mkdir ['/', 'd'] 0 0 {} {}, .mkdir ['/', 'd', '/', 'e'] 0 0 {} {},
    .rename ['/', 'd', '/', 'e', '/', 'x'] ['/', 'd'] 0 0]

def sameNameRun : List Action := [.create ['/', 'f'] 0 0 {}, .mkdir ['/', 'f'] 0 0 {} {}]

def orphanRun : List Action :=
  [.mkdir ['/', 'd'] 0 0 {} {}, .create ['/', 'd', '/', 'f'] 0 0 {}, .rmdir ['/', 'd'] 0 0]

/-- **Each of the conditions is needed.**  A second name is still there when it has been unlinked
and only the count has gone down, a directory is its own ancestor, two siblings have one name, and
an entry has lost its parent. -/
theorem not_tree_of_exec :
    (exec step (load 4096) linkRun = some (ran linkRun) ∧ ¬ (ran linkRun).Tree) ∧
    (exec step (load 4096) cycleRun = some (ran cycleRun) ∧ ¬ (ran cycleRun).Tree) ∧
    (exec step (load 4096) sameNameRun = some (ran sameNameRun) ∧ ¬ (ran sameNameRun).Tree) ∧
    (exec step (load 4096) orphanRun = some (ran orphanRun) ∧ ¬ (ran orphanRun).Tree) := by
  refine ⟨⟨rfl, fun h => ?_⟩, ⟨rfl, fun h => ?_⟩, ⟨rfl, fun h => ?_⟩, ⟨rfl, fun h => ?_⟩⟩
  · have hf : (ran linkRun).dentries 1 = some ⟨some ['f'], some 1, some 0, []⟩ := by decide +kernel
    have hg : (ran linkRun).dentries 2 = some ⟨some ['g'], some 1, some 0, []⟩ := by decide +kernel
    have hcount := h.links 1 ⟨.file, 1, 0, none⟩ (by decide +kernel) rfl
    rw [Nat.cast_one, eq_comm, Set.encard_eq_one] at hcount
    obtain ⟨d, hd⟩ := hcount
    have h1 : 1 ∈ (ran linkRun).names 1 := ⟨Parent.attached ⟨_, hf, rfl⟩, by decide +kernel⟩
    have h2 : 2 ∈ (ran linkRun).names 1 := ⟨Parent.attached ⟨_, hg, rfl⟩, by decide +kernel⟩
    rw [hd, Set.mem_singleton_iff] at h1 h2
    omega
  · have hd : (ran cycleRun).dentries 1 = some ⟨some ['x'], some 1, some 2, [2]⟩ := by
      decide +kernel
    have he : (ran cycleRun).dentries 2 = some ⟨some ['e'], some 2, some 1, [1]⟩ := by
      decide +kernel
    exact h.acyclic 1 2 ⟨_, hd, rfl⟩ (.step he rfl .self)
  · have hf : (ran sameNameRun).dentries 1 = some ⟨some ['f'], some 1, some 0, []⟩ := by
      decide +kernel
    have hd : (ran sameNameRun).dentries 2 = some ⟨some ['f'], some 2, some 0, []⟩ := by
      decide +kernel
    have heq := h.siblings 0 1 2 ⟨_, hf, rfl⟩ ⟨_, hd, rfl⟩ (by decide +kernel)
    cases heq
  · have hf : (ran orphanRun).dentries 2 = some ⟨some ['f'], some 2, some 1, []⟩ := by
      decide +kernel
    have hd : (ran orphanRun).dentries 1 = none := by decide +kernel
    obtain ⟨e, he, -⟩ := (h.agree 1 2).2 ⟨_, hf, rfl⟩
    rw [hd] at he
    cases he

end Naos.Fs.Vfs
