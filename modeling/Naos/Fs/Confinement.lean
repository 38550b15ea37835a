import Naos.Fs.Vfs

/-!
# A walk stays below its root

A walk without `cross_root` starts at the root or at a directory below it.  It goes to a child,
to a parent unless it is at the root, and to the end of a symbolic link, which is another walk
from one of the two starts.  So it stays below the root, and as at most sixteen links are
followed it ends.  What can stop it is a component that does not fit into the buffer: the
buffer has room for 4095 characters and the length is not tested.
-/

namespace Naos.Fs.Vfs

open Outcome List Option

/-- `r`, or an entry from which the parents lead to `r`. -/
inductive Below (s : Vfs) (r : ℕ) : ℕ → Prop
  | self : Below s r r
  | step {c d : ℕ} {e : Dentry} (hc : s.dentries c = some e) (hparent : e.parent = some d)
      (h : Below s r d) : Below s r c

/-- The pointers of the entries agree: a child of an entry has it as its parent and a name, an
entry has an inode, and a symbolic link has a target. -/
structure Linked (s : Vfs) : Prop where
  child : ∀ d e, s.dentries d = some e → ∀ c ∈ e.children,
    ∃ x, s.dentries c = some x ∧ x.parent = some d ∧ x.name ≠ none
  parent : ∀ c x d, s.dentries c = some x → x.parent = some d → s.dentries d ≠ none
  node : ∀ d e, s.dentries d = some e → ∃ i n, e.node = some i ∧ s.inodes i = some n ∧
    (n.type = .symbolink → n.data ≠ none)

variable {s : Vfs} {d : ℕ} {e : Dentry}

lemma dentry_eq (h : s.dentries d = some e) : s.dentry d = .ok e := by
  rw [dentry, h]
  rfl

lemma Linked.getInode (hs : s.Linked) (h : s.dentries d = some e) :
    ∃ i n, s.getInode d = .ok (i, n) ∧ (n.type = .symbolink → n.data ≠ none) := by
  obtain ⟨i, n, hnode, hi, hdata⟩ := hs.node d e h
  refine ⟨i, n, ?_, hdata⟩
  rw [Vfs.getInode, dentry_eq h, ok_bind, hnode, elim_some, ok_bind, inode, hi]
  rfl

lemma Linked.findIn (name : Name) {cs : List ℕ}
    (hcs : ∀ c ∈ cs, ∃ x, s.dentries c = some x ∧ x.name ≠ none) :
    ∃ r, s.findIn name cs = .ok r ∧ ∀ c, r = some c → c ∈ cs := by
  induction cs with
  | nil => exact ⟨none, rfl, nofun⟩
  | cons c cs ih =>
    obtain ⟨x, hx, hname⟩ := hcs c (by simp)
    obtain ⟨own, hown⟩ := ne_none_iff_exists'.1 hname
    obtain ⟨r, hr, hmem⟩ := ih fun c' hc' => hcs c' (by simp [hc'])
    rw [Vfs.findIn, dentry_eq hx, ok_bind, hown, elim_some, ok_bind]
    split
    · exact ⟨some c, rfl, fun c' hc' => by simp [some.inj hc']⟩
    · exact ⟨r, hr, fun c' hc' => by simp [hmem c' hc']⟩

lemma Linked.closed (hs : s.Linked) {root : ℕ} (hroot : s.dentries root ≠ none) :
    s.view.Closed (fun d => s.dentries d ≠ none ∧ s.Below root d) root := by
  have hentry : ∀ d, (s.dentries d ≠ none ∧ s.Below root d) → ∃ e, s.dentries d = some e :=
    fun d hd => ne_none_iff_exists'.1 hd.1
  refine ⟨⟨hroot, .self⟩, ?_, ?_, ?_, ?_, ?_⟩
  · intro d name hd
    obtain ⟨e, he⟩ := hentry d hd
    have hchildren : ∀ c ∈ e.children, ∃ x, s.dentries c = some x ∧ x.name ≠ none := by
      intro c hc
      obtain ⟨x, hx, -, hname⟩ := hs.child d e he c hc
      exact ⟨x, hx, hname⟩
    obtain ⟨r, hr, hmem⟩ := Linked.findIn name hchildren
    refine ⟨r, ?_, fun c hc => ?_⟩
    · change s.findChild d name = .ok r
      rw [Vfs.findChild, dentry_eq he, ok_bind, hr]
    · obtain ⟨x, hx, hparent, -⟩ := hs.child d e he c (hmem c hc)
      exact ⟨by simp [hx], .step hx hparent hd.2⟩
  · intro d hd hne
    cases hd.2 with
    | self => exact absurd rfl hne
    | step hc hparent hbelow =>
      refine ⟨_, ?_, hs.parent _ _ _ hc hparent, hbelow⟩
      change s.dentry d >>= _ = _
      rw [dentry_eq hc, ok_bind, hparent]
  · intro d hd
    obtain ⟨e, he⟩ := hentry d hd
    obtain ⟨i, n, hin, -⟩ := hs.getInode he
    exact ⟨n.type, by change s.getInode d >>= _ = _; rw [hin]; rfl⟩
  · intro d hd
    obtain ⟨e, he⟩ := hentry d hd
    obtain ⟨i, n, hin, -⟩ := hs.getInode he
    exact ⟨n.linkCount, by change s.getInode d >>= _ = _; rw [hin]; rfl⟩
  · intro d hd htype
    obtain ⟨e, he⟩ := hentry d hd
    obtain ⟨i, n, hin, hdata⟩ := hs.getInode he
    change s.getInode d >>= _ = _ at htype
    rw [hin, ok_bind] at htype
    obtain ⟨data, hsome⟩ := ne_none_iff_exists'.1 (hdata (Except.ok.inj htype))
    refine ⟨data.takeWhile (· ≠ '\x00'), ?_⟩
    change s.getInode d >>= _ = _
    rw [hin, ok_bind, Inode.target, hsome, map_some]

/-- **A walk stays below its root.**  In a tree with any symbolic links, whose names and targets
have components that fit into the buffer, `path_walk` ends, however deep the nested walks may
go, and the entry it returns is the root or is below it. -/
theorem walk_below (hs : s.Linked) {root curDir : ℕ} (hroot : s.dentries root ≠ none)
    (hcur : s.dentries curDir ≠ none) (hbelow : s.Below root curDir) (path : Name)
    (flags : WalkFlags) (hflags : flags.crossRoot = false) (idata : Idata ℕ)
    (hpath : Short path)
    (htargets : ∀ d t, s.view.symbolink d = .ok (some t) → Short t) :
    ∃ entry idata', (∀ n ≥ 17, pathWalkUpTo s.view root curDir n path flags idata =
        .ok (entry, idata')) ∧ ∀ d, entry = some d → s.Below root d := by
  have hends : Ensures (fun _ => False) (pathWalkUpTo s.view root curDir 17 path flags idata)
      (Inside (fun d => s.dentries d ≠ none ∧ s.Below root d) 0) :=
    (hs.closed hroot).pathWalkUpTo ⟨hcur, hbelow⟩ hflags (fun _ => Nat.zero_le _) (fun _ => rfl)
      (by omega) (by omega) hpath fun d t _ ht => htargets d t ht
  cases hwalk : pathWalkUpTo s.view root curDir 17 path flags idata with
  | error e => exact (hends.of_error hwalk).elim
  | ok w =>
    refine ⟨w.1, w.2, fun n hn => ?_, fun d hd => (hends.of_ok hwalk d hd).1.2⟩
    exact pathWalkUpTo_mono (View.Refines.refl _) hn path flags idata w hwalk

end Naos.Fs.Vfs
