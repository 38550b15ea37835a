import Naos.Fs.Operations

/-!
# Unlinking an entry

A walk in a heap that has lost an entry goes the same way as before until it comes to that entry,
and then ends with a null pointer.  So the path of a removed entry no longer resolves, and a path
that does not come to the entry resolves as before.
-/

namespace Naos.Fs

open Outcome Option

variable {E : Type} [DecidableEq E]

/-! ## Link counts -/

/-- A walk asks of a link count only whether it is zero. -/
def View.capped (V : View E) : View E :=
  { V with linkCount := fun e => V.linkCount e >>= fun k => .ok (min k 1) }

section Capped

variable (V : View E) (nested : Name → Idata E → Except Fault (Walked E)) (root : E)
  (flags : WalkFlags)

omit [DecidableEq E] in
lemma View.capped_linkCount (e : E) {β : Type} {f : ℕ → Except Fault β}
    (hf : ∀ k, f (min k 1) = f k) : V.capped.linkCount e >>= f = V.linkCount e >>= f := by
  rw [View.capped]
  dsimp only
  cases V.linkCount e with
  | error => rfl
  | ok k => exact hf k

omit [DecidableEq E] in
lemma View.capped_follow (next : E) (idata : Idata E) :
    V.capped.follow nested next idata = V.follow nested next idata := by
  rw [View.follow, View.follow]
  have hlast : (fun (next : E) (idata : Idata E) => V.capped.linkCount next >>= fun count =>
      (.ok (if count = 0 then none else some next, idata) : Except Fault (Walked E))) =
      fun next idata => V.linkCount next >>= fun count =>
        .ok (if count = 0 then none else some next, idata) := by
    funext next idata
    refine V.capped_linkCount next fun k => ?_
    cases k <;> simp
  rw [hlast]
  rfl

lemma View.capped_walkScan (last : Bool) (scan : Scan) (prev : E) (idata : Idata E) :
    walkScan V.capped nested root flags last scan prev idata =
      walkScan V nested root flags last scan prev idata := by
  have henter (idata : Idata E) : V.capped.enter nested flags last scan.entry prev idata =
      V.enter nested flags last scan.entry prev idata := by
    rw [View.enter, View.enter]
    refine congrArg (V.findChild prev scan.entry >>= ·) (funext fun found => ?_)
    refine congrArg (Walked.andThen (found, idata)) (funext fun next => funext fun idata => ?_)
    rw [View.capped_follow]
    refine V.capped_linkCount next fun k => ?_
    cases k <;> simp
  rw [walkScan, walkScan, henter]
  rfl

lemma View.capped_walkScans (l : List Scan) : ∀ prev idata,
    walkScans V.capped nested root flags l prev idata =
      walkScans V nested root flags l prev idata := by
  induction l with
  | nil => exact fun _ _ => rfl
  | cons scan rest ih =>
    intro prev idata
    rw [walkScans, walkScans, View.capped_walkScan, funext fun prev => funext (ih prev)]

lemma View.capped_pathWalkUpTo (curDir : E) (n : ℕ) : ∀ name flags idata,
    pathWalkUpTo V.capped root curDir n name flags idata =
      pathWalkUpTo V root curDir n name flags idata := by
  induction n with
  | zero => exact fun _ _ _ => rfl
  | succ n ih =>
    intro name flags idata
    cases name with
    | nil => rfl
    | cons c path =>
      rw [pathWalkUpTo, pathWalkUpTo]
      simp only [ih, View.capped_walkScans]
      rfl
end Capped

/-! ## Walks without an entry -/

/-- The second view is the first one without the entry `d`, which has no children. -/
structure View.Loses (V V' : View E) (d : E) : Prop where
  findChild : ∀ e n c, e ≠ d → V.findChild e n = .ok c →
    V'.findChild e n = .ok (if c = some d then none else c)
  parent : ∀ e p, e ≠ d → V.parent e = .ok p → V'.parent e = .ok p ∧ p ≠ some d
  type : ∀ e, e ≠ d → Outcome.Refines (V.type e) (V'.type e)
  linkCount : ∀ e, e ≠ d → Outcome.Refines (V.linkCount e) (V'.linkCount e)
  symbolink : ∀ e, e ≠ d → Outcome.Refines (V.symbolink e) (V'.symbolink e)

/-- The second walk ends like the first one and not at `d`, or it finds nothing. -/
def Lost (d : E) (x y : Except Fault (Walked E)) : Prop :=
  ∀ w, x = .ok w → (y = .ok w ∧ w.1 ≠ some d) ∨ ∃ idata, y = .ok (none, idata)

namespace Lost

variable {d : E} {x y : Except Fault (Walked E)}

omit [DecidableEq E] in
lemma some {e : E} (he : e ≠ d) (idata : Idata E) :
    Lost d (.ok (Option.some e, idata)) (.ok (Option.some e, idata)) := by
  intro w hw
  cases hw
  exact .inl ⟨rfl, by simpa using he⟩

omit [DecidableEq E] in
lemma none (x : Except Fault (Walked E)) (idata : Idata E) : Lost d x (.ok (none, idata)) :=
  fun _ _ => .inr ⟨idata, rfl⟩

omit [DecidableEq E] in
lemma bind {α : Type} {u v : Except Fault α} {f g : α → Except Fault (Walked E)}
    (huv : Refines u v) (hfg : ∀ a, Lost d (f a) (g a)) : Lost d (u >>= f) (v >>= g) := by
  intro w hw
  obtain ⟨a, ha, hw⟩ := bind_eq_ok.1 hw
  rw [huv a ha]
  exact hfg a w hw

omit [DecidableEq E] in
lemma andThen {f g : E → Idata E → Except Fault (Walked E)} (hxy : Lost d x y)
    (hfg : ∀ e idata, e ≠ d → Lost d (f e idata) (g e idata)) :
    Lost d (x >>= fun w => w.andThen f) (y >>= fun w => w.andThen g) := by
  intro w hw
  obtain ⟨u, hu, hw⟩ := bind_eq_ok.1 hw
  rcases hxy u hu with ⟨hy, hne⟩ | ⟨idata, hy⟩
  · rw [hy, ok_bind]
    rw [Walked.andThen] at hw ⊢
    cases he : u.1 with
    | none => exact .inr ⟨u.2, rfl⟩
    | some e =>
      rw [he] at hw
      exact hfg e u.2 (by simpa [he] using hne) w hw
  · exact .inr ⟨idata, by rw [hy]; rfl⟩

end Lost

namespace View.Loses

variable {V V' : View E} {d root : E} {flags : WalkFlags}
  {nested nested' : Name → Idata E → Except Fault (Walked E)}

variable {prev : E}

lemma dotDot (h : V.Loses V' d) {p : E} (hprev : prev ≠ d)
    (hp : V.dotDot root flags prev = .ok p) : V'.dotDot root flags prev = .ok p ∧ p ≠ d := by
  revert hp
  rw [View.dotDot, View.dotDot]
  repeat' split
  iterate 2
    · intro hp
      obtain ⟨r, hr, hp⟩ := bind_eq_ok.1 hp
      obtain ⟨hr', hrd⟩ := h.parent prev r hprev hr
      rw [hr', ok_bind]
      cases r with
      | none =>
        cases hp
        try exact ⟨rfl, hprev⟩
      | some q =>
        cases hp
        exact ⟨rfl, by simpa using hrd⟩
  · intro hp
    cases hp
    exact ⟨rfl, hprev⟩

section

variable (h : V.Loses V' d) (hn : ∀ t i, Lost d (nested t i) (nested' t i))
include h hn

lemma follow {next : E} (hnext : next ≠ d) (idata : Idata E) :
    Lost d (V.follow nested next idata) (V'.follow nested' next idata) := by
  rw [View.follow, View.follow]
  split
  · exact .none _ _
  refine .bind (h.symbolink next hnext) fun target => Lost.andThen ?_ fun e i he => ?_
  · cases target with
    | none => exact fun _ hw => by cases hw
    | some target => exact hn target _
  · refine .bind (h.linkCount e he) fun count => ?_
    split
    · exact .none _ _
    · exact .some he i

lemma enter (last : Bool) (entry : Name) (hprev : prev ≠ d) (idata : Idata E) :
    Lost d (V.enter nested flags last entry prev idata)
      (V'.enter nested' flags last entry prev idata) := by
  intro w hw
  rw [View.enter] at hw ⊢
  obtain ⟨found, hfound, hw⟩ := bind_eq_ok.1 hw
  rw [h.findChild prev entry found hprev hfound, ok_bind]
  split
  · exact .inr ⟨idata, rfl⟩
  rename_i hne
  cases found with
  | none => exact .inr ⟨idata, rfl⟩
  | some next =>
    have hnext : next ≠ d := by simpa using hne
    refine Lost.bind (h.linkCount next hnext) (fun count =>
      Lost.bind (h.type next hnext) fun type => ?_) w hw
    split
    · exact .none _ _
    split
    · exact .some hnext _
    split
    · cases last with
      | false => exact .none _ _
      | true => exact .some hnext _
    · exact h.follow hn hnext idata

lemma walkScan (last : Bool) (scan : Scan) (hprev : prev ≠ d) (idata : Idata E) :
    Lost d (walkScan V nested root flags last scan prev idata)
      (walkScan V' nested' root flags last scan prev idata) := by
  rw [Fs.walkScan, Fs.walkScan]
  split
  · exact fun _ hw => by cases hw
  split
  · exact .some hprev _
  split
  · intro w hw
    obtain ⟨p, hp, hw⟩ := bind_eq_ok.1 hw
    obtain ⟨hp', hpd⟩ := h.dotDot hprev hp
    rw [hp']
    exact Lost.some hpd _ w hw
  · exact h.enter hn last _ hprev _

lemma walkScans (scans : List Scan) :
    ∀ prev idata, prev ≠ d → Lost d (walkScans V nested root flags scans prev idata)
      (walkScans V' nested' root flags scans prev idata) := by
  induction scans with
  | nil => exact fun prev idata hprev => .some hprev idata
  | cons scan rest ih =>
    intro prev idata hprev
    exact (h.walkScan hn _ scan hprev idata).andThen fun e i he => ih e i he

end

/-- **A walk in a view that has lost an entry** ends as before, but not at the entry, or finds
nothing. -/
theorem pathWalkUpTo (h : V.Loses V' d) (hroot : root ≠ d) {curDir : E} (hcur : curDir ≠ d)
    (n : ℕ) (name : Name) (flags : WalkFlags) (idata : Idata E) :
    Lost d (pathWalkUpTo V root curDir n name flags idata)
      (pathWalkUpTo V' root curDir n name flags idata) := by
  induction n generalizing name flags idata with
  | zero => exact fun _ hw => nomatch hw
  | succ n ih =>
    cases name with
    | nil => exact .some hcur idata
    | cons c path =>
      have hstart : (if c = '/' then root else curDir) ≠ d := by split <;> assumption
      refine (h.walkScans (fun t i => ih t _ i) _ _ _ hstart).andThen fun e i he => ?_
      refine .bind (h.type e he) fun type => ?_
      split
      · exact .none _ _
      · exact .some he i

end View.Loses

/-- The questions of the walks that do not come to the entry `d` and do not look up one of the
names of `lookup`. -/
def View.hide (V : View E) (d : E) (lookup : E → Name → Bool) : View E where
  findChild e n :=
    if e = d ∨ lookup e n = true then .error .freed
    else V.findChild e n >>= fun c => if c = some d then .error .freed else .ok c
  parent e :=
    if e = d then .error .freed
    else V.parent e >>= fun p => if p = some d then .error .freed else .ok p
  type e := if e = d then .error .freed else V.type e
  linkCount e := if e = d then .error .freed else V.linkCount e
  symbolink e := if e = d then .error .freed else V.symbolink e

lemma View.Loses.hide {V V' : View E} {d : E} (h : V.Loses V' d) (lookup : E → Name → Bool) :
    (V.hide d lookup).Refines V' := by
  have hread : ∀ {α : Type} {x y : Except Fault α} (e : E), (e ≠ d → Outcome.Refines x y) →
      Outcome.Refines (if e = d then .error .freed else x) y := by
    intro α x y e hxy
    split
    · exact .error _ _
    next he => exact hxy he
  refine ⟨fun e n c hc => ?_, fun e => hread e fun he p hp => ?_, fun e => hread e (h.type e),
    fun e => hread e (h.linkCount e), fun e => hread e (h.symbolink e)⟩
  · simp only [View.hide] at hc
    split at hc
    · cases hc
    rename_i hvisible
    obtain ⟨c', hc', hc⟩ := bind_eq_ok.1 hc
    split at hc
    · cases hc
    next hne =>
      cases hc
      rw [h.findChild e n c (fun he => hvisible (.inl he)) hc', if_neg hne]
  · obtain ⟨p', hp', hp⟩ := bind_eq_ok.1 hp
    split at hp
    · cases hp
    · cases hp
      exact (h.parent e p he hp').1

namespace Vfs

variable {s s' : Vfs} {d i : ℕ}

/-! ## The heap without an entry -/

lemma findChild_spec (hs : s.Inv) (hd : s.dentries d ≠ none) (name : Name) :
    ∃ c, s.findChild d name = .ok c ∧ ∀ x, c = some x ↔ s.Parent x d ∧ s.nameOf x = some name := by
  obtain ⟨e, he⟩ := ne_none_iff_exists'.1 hd
  have hchild : ∀ x, x ∈ e.children ↔ s.Parent x d := by
    intro x
    rw [← hs.agree]
    simp [Child, he]
  -- The loop over any part of the list of children.
  have hloop : ∀ cs : List ℕ, (∀ x ∈ cs, s.Parent x d) → ∃ c, s.findIn name cs = .ok c ∧
      ∀ x, c = some x ↔ x ∈ cs ∧ s.nameOf x = some name := by
    intro cs
    induction cs with
    | nil => exact fun _ => ⟨none, rfl, by simp⟩
    | cons y cs ih =>
      intro hcs
      have hy := hcs y (by simp)
      obtain ⟨c, hc, hiff⟩ := ih fun x hx => hcs x (by simp [hx])
      obtain ⟨ey, hey, -⟩ := id hy
      obtain ⟨own, hown⟩ := ne_none_iff_exists'.1 (hs.named y d hy)
      have hown' : ey.name = some own := by simpa [nameOf, hey] using hown
      rw [findIn, dentry_eq hey, ok_bind, hown', elim_some, ok_bind]
      split
      next heq =>
        subst heq
        refine ⟨some y, rfl, fun x => ⟨fun hx => ?_, fun hx => ?_⟩⟩
        · cases hx
          exact ⟨by simp, hown⟩
        · rw [hs.siblings d y x hy (hcs x hx.1) (hown.trans hx.2.symm)]
      next hne =>
        refine ⟨c, hc, fun x => ?_⟩
        rw [hiff, List.mem_cons]
        refine and_congr_left fun hx => (or_iff_right ?_).symm
        rintro rfl
        exact hne (some.inj (hx.symm.trans hown))
  obtain ⟨c, hc, hiff⟩ := hloop e.children fun x hx => (hchild x).1 hx
  refine ⟨c, ?_, fun x => by rw [hiff, hchild]⟩
  rw [Vfs.findChild, dentry_eq he, ok_bind, hc]

/-- The entry `d` is no longer in the tree, and nothing else has changed but its inode `i`. -/
structure Removes (s s' : Vfs) (d i : ℕ) : Prop where
  inv : s'.Inv
  parent : ∀ c q, s'.Parent c q ↔ s.Parent c q ∧ c ≠ d
  live : ∀ c, c ≠ d → (s'.dentries c ≠ none ↔ s.dentries c ≠ none)
  nameOf : ∀ c, c ≠ d → s'.nameOf c = s.nameOf c
  nodeOf : ∀ c, c ≠ d → s'.nodeOf c = s.nodeOf c
  inodes : ∀ j, j ≠ i → s'.inodes j = s.inodes j
  files : s'.files = s.files

lemma parent_ok {p : Option ℕ} :
    s.view.parent d = .ok p ↔ s.dentries d ≠ none ∧ ∀ q, p = some q ↔ s.Parent d q := by
  change (s.dentry d >>= fun entry => .ok entry.parent) = .ok p ↔ _
  constructor
  · intro h
    obtain ⟨x, hx, h⟩ := bind_eq_ok.1 h
    cases h
    have hx := dentry_ok.1 hx
    exact ⟨by simp [hx], fun q => by simp [Parent, hx]⟩
  · rintro ⟨hd, hp⟩
    obtain ⟨x, hx⟩ := ne_none_iff_exists'.1 hd
    rw [dentry_eq hx, ok_bind]
    refine congrArg _ (ext fun q => ?_)
    simp [hp, Parent, hx]

lemma Inv.eq_of_single (hs : s.Inv) (hd : s.Removable d) (hi : s.nodeOf d = some i) {c : ℕ}
    (hc : s.nodeOf c = some i) : c = d := by
  obtain ⟨n, hn⟩ := hs.inode_of_nodeOf hi
  have hcount := hs.links i n hn
  rw [hd.single i n hi hn, Nat.cast_one, eq_comm, Set.encard_eq_one] at hcount
  obtain ⟨x, hx⟩ := hcount
  have hmem : ∀ y, s.Attached y → s.nodeOf y = some i → y = x := by
    intro y hy hyi
    have hmem : y ∈ s.names i := ⟨hy, hyi⟩
    rwa [hx] at hmem
  have hin : s.Attached c := by
    by_contra hout
    have hempty := (hs.detached c i (nodeOf_some hc) hout hc).1
    rw [hx] at hempty
    exact Set.singleton_ne_empty x hempty
  rw [hmem c hin hc, hmem d hd.attached hi]

lemma Removes.loses (h : Removes s s' d i) (hs : s.Inv) (hd : s.Removable d)
    (hi : s.nodeOf d = some i) : s.view.Loses s'.view d := by
  have hinode : ∀ e, e ≠ d → Outcome.Refines (s.getInode e) (s'.getInode e) := by
    rintro e he ⟨j, n⟩ hj
    obtain ⟨hnode, hn⟩ := getInode_ok.1 hj
    have hji : j ≠ i := by
      rintro rfl
      exact he (hs.eq_of_single hd hi hnode)
    exact getInode_ok.2 ⟨(h.nodeOf e he).trans hnode, (h.inodes j hji).trans hn⟩
  refine ⟨fun e n c he hc => ?_, fun e p he hp => ?_,
    fun e he => (hinode e he).bind fun _ => .refl _,
    fun e he => (hinode e he).bind fun _ => .refl _,
    fun e he => (hinode e he).bind fun _ => .refl _⟩
  · have hlive : s.dentries e ≠ none := by
      obtain ⟨x, hx, -⟩ := bind_eq_ok.1 hc
      simp [dentry_ok.1 hx]
    obtain ⟨c', hc', hiff⟩ := findChild_spec hs hlive n
    obtain rfl : c' = c := Except.ok.inj (hc'.symm.trans hc)
    obtain ⟨c'', hc'', hiff'⟩ := findChild_spec h.inv ((h.live e he).2 hlive) n
    change s'.findChild e n = _
    rw [hc'']
    refine congrArg _ (ext fun x => ?_)
    rw [hiff', h.parent]
    by_cases hx : x = d
    · subst hx
      constructor
      · exact fun hx => absurd rfl hx.1.2
      · intro hx
        split at hx
        · cases hx
        next hne => exact absurd hx hne
    · have hsame : c' = some x ↔ s.Parent x e ∧ s.nameOf x = some n := hiff x
      rw [h.nameOf x hx]
      split
      next heq =>
        simp only [heq, Option.some.injEq] at hsame
        simp only [hx, ne_eq, not_false_eq_true, and_true, reduceCtorEq, iff_false]
        rw [← hsame]
        exact Ne.symm hx
      · rw [hsame]
        simp [hx]
  · obtain ⟨hlive, hparent⟩ := parent_ok.1 hp
    refine ⟨parent_ok.2 ⟨(h.live e he).2 hlive, fun q => ?_⟩, ?_⟩
    · rw [hparent, h.parent]
      simp [he]
    · rw [ne_eq, hparent]
      exact hd.leaf e

variable {b : Bool} {n : Inode}

section

variable (hs : s.Inv) (hd : s.Removable d) (hi : s.nodeOf d = some i) (hn : s.inodes i = some n)
  (h : s.unlinkEntry d = .ok (b, s'))
include hs hd hi hn h

lemma unlinkEntry_removes :
    Removes s s' d i := by
  have hinv := (unlinkEntry_keeps hs h fun _ => hd).inv
  obtain ⟨s₁, hdetaches, rfl⟩ := unlinkEntry_of_removable hs hd hi hn h
  rw [reap] at hinv ⊢
  split
  next hrefs =>
    rw [if_pos hrefs] at hinv
    have hfrees : Frees s₁ (s₁.dealloc i d) d i := dealloc_frees (hdetaches.keeps hs hd hi hn).inv
    refine ⟨hinv, fun c q => ?_, fun c hc => ?_, fun c hc => ?_, fun c hc => ?_, fun j hj => ?_,
      hdetaches.files⟩
    · rw [hfrees.parent, hdetaches.parent, and_assoc, and_self]
    · rw [hfrees.dentries c hc]
      exact hdetaches.live c
    · rw [Vfs.nameOf, hfrees.dentries c hc]
      exact hdetaches.nameOf c
    · rw [Vfs.nodeOf, hfrees.dentries c hc]
      exact hdetaches.nodeOf c
    · rw [hfrees.inodes j hj, hdetaches.inodes j hj]
  next hrefs =>
    rw [if_neg hrefs] at hinv
    exact ⟨hinv, hdetaches.parent, fun c _ => hdetaches.live c, fun c _ => hdetaches.nameOf c,
      fun c _ => hdetaches.nodeOf c, hdetaches.inodes, hdetaches.files⟩

/-! ## What is left -/

def contents (s : Vfs) (f : ℕ) : Option (List Char) :=
  (s.files f).bind fun x => (s.nodeOf x.entry).bind fun i => (s.inodes i).bind Inode.data

omit hs hd hi hn h in
lemma Inv.refCount_eq_zero (hs : s.Inv) (hn : s.inodes i = some n) :
    n.refCount = 0 ↔ s.opens i = ∅ := by
  rw [← Set.encard_eq_zero, ← hs.refs i n hn, Nat.cast_eq_zero]

omit hs hd hi hn h in
lemma Inv.linkCount_eq_zero (hs : s.Inv) (hn : s.inodes i = some n) :
    n.linkCount = 0 ↔ s.names i = ∅ := by
  rw [← Set.encard_eq_zero, ← hs.links i n hn, Nat.cast_eq_zero]

lemma unlinkEntry_release : s'.inodes i = none ↔ s.opens i = ∅ := by
  obtain ⟨s₁, hdetaches, rfl⟩ := unlinkEntry_of_removable hs hd hi hn h
  rw [← hs.refCount_eq_zero hn, reap]
  split
  next hrefs => simp [dealloc, hrefs]
  next hrefs => simp [hdetaches.node n hn, hrefs]

lemma unlinkEntry_contents (f : ℕ) : s'.contents f = s.contents f := by
  have hremoves := unlinkEntry_removes hs hd hi hn h
  rw [contents, contents, hremoves.files]
  cases hf : s.files f with
  | none => rfl
  | some x =>
    simp only [bind_some]
    by_cases hxd : x.entry = d
    · obtain ⟨s₁, hdetaches, rfl⟩ := unlinkEntry_of_removable hs hd hi hn h
      have hopen : n.refCount ≠ 0 := by
        rw [ne_eq, hs.refCount_eq_zero hn]
        exact Set.Nonempty.ne_empty ⟨f, x, hf, hxd ▸ hi⟩
      rw [hxd, reap, if_neg hopen, hdetaches.nodeOf, hi, bind_some, hdetaches.node n hn,
        bind_some, bind_some, hn]
      rfl
    · obtain ⟨j, m, hj, hm⟩ := hs.node x.entry (hs.file f x hf)
      have hji : j ≠ i := by
        rintro rfl
        exact hxd (hs.eq_of_single hd hi hj)
      rw [hremoves.nodeOf x.entry hxd, hj, bind_some, bind_some, hremoves.inodes j hji]

end

lemma closeFile_release {f : ℕ} {x : File} (hs : s.Inv) (hfile : s.files f = some x)
    (hkeep : x.unlinkOnClose = false) (hi : s.nodeOf x.entry = some i)
    (h : s.closeFile f = .ok (b, s')) :
    s'.inodes i = none ↔ s.names i = ∅ ∧ s.opens i = {f} := by
  obtain ⟨j, n, hj, hn, h⟩ := closeFile_ok hfile h
  obtain rfl : j = i := some.inj (hj.symm.trans hi)
  have hinodes := dropFile_inodes (f := f) hn
  have hmem : f ∈ s.opens j := ⟨x, hfile, hi⟩
  simp only [hkeep, Bool.false_eq_true, false_or] at h
  split at h
  next hzero =>
    have hempty := (hs.linkCount_eq_zero hn).1 hzero
    have hout : ¬ s.Attached x.entry := by
      intro hin
      have hnames : x.entry ∈ s.names j := ⟨hin, hi⟩
      rw [hempty] at hnames
      exact hnames
    have hinv := dropFile_inv hs hfile hi hn
    have hreap := unlinkEntry_of_detached (s := s.dropFile f j) hinv hout hi
      (by rw [hinodes, Function.update_self]) h
    have hlast : n.refCount - 1 = 0 ↔ s.opens j = {f} := by
      have hcount := hs.refs j n hn
      have hpos : n.refCount ≠ 0 := by
        rw [ne_eq, hs.refCount_eq_zero hn]
        exact Set.Nonempty.ne_empty ⟨f, hmem⟩
      have hone : n.refCount - 1 = 0 ↔ n.refCount = 1 := by omega
      rw [hone]
      constructor
      · intro h1
        rw [h1, Nat.cast_one, eq_comm, Set.encard_eq_one] at hcount
        obtain ⟨g, hg⟩ := hcount
        rw [hg, Set.mem_singleton_iff] at hmem
        rw [hg, hmem]
      · intro h1
        rw [h1, Set.encard_singleton] at hcount
        exact_mod_cast hcount
    rw [hreap, ← hlast, reap]
    split
    next hrefs =>
      have hrefs : n.refCount - 1 = 0 := hrefs
      simp [dealloc, hempty, hrefs]
    next hrefs =>
      simp [hinodes, hrefs]
  next hlinks =>
    subst h
    rw [hinodes, Function.update_self, ← hs.linkCount_eq_zero hn]
    simp [hlinks]

/-- **One name is gone, and nothing else.**  The path no longer resolves; a path that does not come
to the entry resolves as before; every other entry keeps its inode with what is in it, and open
files read what they read before.  The inode is released when no file is open on it. -/
structure Unlinked (s s' : Vfs) (root curDir : ℕ) (path : Name) (d i : ℕ) : Prop where
  gone : ∃ idata, s'.walk root curDir path { notResolveSymbolicLink := true } {} = .ok (none, idata)
  walks : ∀ root' curDir' path' flags idata w,
    pathWalk (s.view.hide d fun _ _ => false) root' curDir' path' flags idata = .ok w →
      s'.walk root' curDir' path' flags idata = .ok w
  entries : ∀ e j, e ≠ d → s.nodeOf e = some j → s'.nodeOf e = some j ∧ s'.inodes j = s.inodes j
  files : ∀ f, s'.files f = s.files f ∧ s'.contents f = s.contents f
  release : s'.inodes i = none ↔ s.opens i = ∅

lemma unlinked_of_removable {path : Name} {root curDir : ℕ} {idata : Idata ℕ} (hs : s.Inv)
    (hwalk : s.walk root curDir path { notResolveSymbolicLink := true } {} = .ok (some d, idata))
    (hd : s.Removable d) (hi : s.nodeOf d = some i) (hroot : root ≠ d) (hcur : curDir ≠ d)
    (h : s.unlinkEntry d = .ok (true, s')) : Unlinked s s' root curDir path d i := by
  obtain ⟨n, hn⟩ := hs.inode_of_nodeOf hi
  have hremoves := unlinkEntry_removes hs hd hi hn h
  have hloses := hremoves.loses hs hd hi
  refine ⟨?_, fun root' curDir' path' flags idata₀ w hw => ?_, fun e j he hj => ?_, fun f => ?_,
    unlinkEntry_release hs hd hi hn h⟩
  · rcases hloses.pathWalkUpTo hroot hcur 17 path _ _ _ hwalk with ⟨-, hne⟩ | hnone
    · exact absurd rfl hne
    · exact hnone
  · exact pathWalkUpTo_mono (hloses.hide _) (Nat.le_refl 17) path' flags idata₀ w hw
  · have hji : j ≠ i := by
      rintro rfl
      exact he (hs.eq_of_single hd hi hj)
    exact ⟨(hremoves.nodeOf e he).trans hj, hremoves.inodes j hji⟩
  · exact ⟨congrFun hremoves.files f, unlinkEntry_contents hs hd hi hn h f⟩

/-- The entry of an inode with more names stays, and all walks go as before. -/
lemma walk_of_linked (hi : s.nodeOf d = some i) (hn : s.inodes i = some n)
    (hlinks : 2 ≤ n.linkCount) (h : s.unlinkEntry d = .ok (b, s')) (root curDir : ℕ) (path : Name)
    (flags : WalkFlags) (idata : Idata ℕ) :
    s'.walk root curDir path flags idata = s.walk root curDir path flags idata := by
  obtain ⟨x, hx, hnode⟩ := bind_eq_some_iff.1 hi
  have hs' : s' = s.setInode i fun n' => { n' with linkCount := n.linkCount - 1 } := by
    rw [unlinkEntry, dentry_eq hx, ok_bind, hnode] at h
    dsimp only at h
    rw [inode_ok.2 hn, ok_bind, if_neg (by omega)] at h
    cases h
    rfl
  have hget {β : Type} (e : ℕ) {f : Inode → β}
      (hf : f { n with linkCount := n.linkCount - 1 } = f n) :
      (s'.getInode e >>= fun x => .ok (f x.2) : Except Fault β) =
        s.getInode e >>= fun x => .ok (f x.2) := by
    rw [hs', getInode, getInode]
    change (s.dentry e >>= _) >>= _ = _
    cases s.dentry e with
    | error => rfl
    | ok entry =>
      cases hj : entry.node with
      | none => simp only [ok_bind, hj, elim_none]; rfl
      | some j =>
        simp only [ok_bind, hj, elim_some]
        by_cases hji : j = i
        · subst hji
          simp [inode, setInode, hn, ok_bind, hf]
        · have hother : (s.setInode i fun n' => { n' with linkCount := n.linkCount - 1 }).inode j =
              s.inode j := by simp [inode, setInode, hji]
          rw [hother]
  have hfind : s'.findChild = s.findChild := by
    rw [hs']
    funext e name
    have hin (cs : List ℕ) : (s.setInode i fun n' =>
        { n' with linkCount := n.linkCount - 1 }).findIn name cs = s.findIn name cs := by
      induction cs with
      | nil => rfl
      | cons c cs ih =>
        rw [findIn, findIn, ih]
        rfl
    rw [findChild, findChild, funext fun e : Dentry => hin e.children]
    rfl
  have hview : s'.view.capped = s.view.capped := by
    have hparent : s'.view.parent = s.view.parent := by rw [hs']; rfl
    have htype : s'.view.type = s.view.type := funext fun e => hget e rfl
    have hlink : s'.view.symbolink = s.view.symbolink := funext fun e => hget e rfl
    have hcount : s'.view.capped.linkCount = s.view.capped.linkCount := by
      have hcap : min (n.linkCount - 1) 1 = min n.linkCount 1 := by omega
      funext e
      have hmin := hget e (f := fun n' => min n'.linkCount 1) hcap
      change (s'.getInode e >>= fun x => .ok x.2.linkCount) >>= _ =
        (s.getInode e >>= fun x => .ok x.2.linkCount) >>= _
      rw [LawfulMonad.bind_assoc, LawfulMonad.bind_assoc]
      exact hmin
    change View.mk s'.findChild s'.view.parent s'.view.type s'.view.capped.linkCount
      s'.view.symbolink = _
    rw [hfind, hparent, htype, hcount, hlink]
    rfl
  rw [walk, walk, pathWalk, pathWalk, ← View.capped_pathWalkUpTo, hview, View.capped_pathWalkUpTo]

/-- **`unlink` removes one name only** exactly when the entry is the only name of its inode: an
entry without children that is in the tree, and neither the root nor the directory from which the
path goes.  The inode is released when the last name and the last open file are gone. -/
theorem unlink_removes_iff {path : Name} {root curDir d i : ℕ} {idata : Idata ℕ} {s s' : Vfs}
    {n : Inode} (hs : s.Inv)
    (hwalk : s.walk root curDir path { notResolveSymbolicLink := true } {} = .ok (some d, idata))
    (hin : d ≠ globalRoot ∧ s.Attached d) (hleaf : ∀ c, ¬ s.Parent c d)
    (hi : s.nodeOf d = some i) (hn : s.inodes i = some n) (hroot : root ≠ d) (hcur : curDir ≠ d)
    (h : s.unlink path root curDir = .ok (true, s')) :
    (Unlinked s s' root curDir path d i ↔ n.linkCount = 1) ∧
    ∀ (t t' : Vfs) (f : ℕ) (x : File) (j : ℕ) (b : Bool), t.Inv → t.files f = some x →
      x.unlinkOnClose = false → t.nodeOf x.entry = some j → t.closeFile f = .ok (b, t') →
      (t'.inodes j = none ↔ t.names j = ∅ ∧ t.opens j = {f}) := by
  have hentry : s.unlinkEntry d = .ok (true, s') := by
    rw [unlink, hwalk, ok_bind] at h
    exact h
  refine ⟨⟨fun hgone => ?_, fun hone => ?_⟩, fun t t' f x j b ht hfile hkeep hj hclose =>
    closeFile_release ht hfile hkeep hj hclose⟩
  · by_contra hmore
    have hpos : n.linkCount ≠ 0 := by
      rw [ne_eq, hs.linkCount_eq_zero hn]
      exact Set.Nonempty.ne_empty ⟨d, hin.2, hi⟩
    obtain ⟨idata', hnone⟩ := hgone.gone
    rw [walk_of_linked hi hn (by omega) hentry, hwalk] at hnone
    cases hnone
  · refine unlinked_of_removable hs hwalk ⟨hin.1, hin.2, hleaf, fun j m hj hm => ?_⟩ hi hroot hcur
      hentry
    obtain rfl := some.inj (hi.symm.trans hj)
    obtain rfl := some.inj (hn.symm.trans hm)
    exact hone

/-- A file is made, opened and unlinked. -/
def openRun : List Action :=
  [.create ['/', 'f'] 0 0 {}, .openFile ['/', 'f'] 0 0 false {} {}, .unlink ['/', 'f'] 0 0]

/-- The name is gone, and the inode stays for the open file. -/
theorem unlink_removes_openRun :
    Unlinked (ran (openRun.take 2)) (ran openRun) 0 0 ['/', 'f'] 1 1 ∧
      (ran openRun).inodes 1 ≠ none := by
  have hinv : (ran (openRun.take 2)).Inv :=
    inv_of_exec (l := openRun.take 2) ⟨orderly_create, nofun, trivial⟩ rfl
  have hwalk : (ran (openRun.take 2)).walk 0 0 ['/', 'f'] { notResolveSymbolicLink := true } {} =
      .ok (some 1, ⟨some 0, 0, ['f']⟩) := by decide +kernel
  have hentry : (ran (openRun.take 2)).dentries 1 = some ⟨some ['f'], some 1, some 0, []⟩ := by
    decide +kernel
  have hleaf : ∀ c, ¬ (ran (openRun.take 2)).Parent c 1 := by
    intro c hc
    obtain ⟨e, he, hmem⟩ := (hinv.agree 1 c).2 hc
    obtain rfl := some.inj (hentry.symm.trans he)
    cases hmem
  refine ⟨(unlink_removes_iff (n := { type := .file, refCount := 1 }) hinv hwalk
    ⟨nofun, Parent.attached ⟨_, hentry, rfl⟩⟩ hleaf (by decide +kernel) (by decide +kernel)
    (by decide) (by decide) rfl).1.2 rfl, by decide +kernel⟩

/-- **A name of two stays.**  `unlink` of the second name succeeds and the name still resolves,
and when the first name is unlinked the inode is released with the second name in the tree. -/
theorem not_unlink_removes_linkRun :
    (ran (linkRun.take 2)).unlink ['/', 'g'] 0 0 = .ok (true, ran linkRun) ∧
    (∃ idata, (ran linkRun).walk 0 0 ['/', 'g'] { notResolveSymbolicLink := true } {} =
      .ok (some 2, idata)) ∧
    (ran linkRun).unlink ['/', 'f'] 0 0 = .ok (true, ran (linkRun ++ [.unlink ['/', 'f'] 0 0])) ∧
    (ran (linkRun ++ [.unlink ['/', 'f'] 0 0])).inodes 1 = none ∧
    (ran (linkRun ++ [.unlink ['/', 'f'] 0 0])).dentries 2 =
      some ⟨some ['g'], some 1, some 0, []⟩ :=
  ⟨rfl, ⟨⟨some 0, 0, ['g']⟩, by decide +kernel⟩, rfl, by decide +kernel, by decide +kernel⟩

end Vfs

end Naos.Fs
