import Mathlib

/-!
# Trees that share their nodes

Several roots name trees of one depth whose nodes live in one store.  A node is a number,
and its links are numbered by an index type.  Two trees may share a node, and everything
below it: copying a tree then takes one more reference to each node below the root, and a
tree is changed only where its own nodes are not shared.

A node is counted by the links that point to it.  `Counted` says that the counts are right
and that a node is always at the same distance from the roots.  The store changes at one
link of a live node (`Rewires`) or at one root (`Reroots`).

What a tree contains is `lookup`: the leaf at the end of a path.  A path whose nodes are all
counted once belongs to one tree (`Counted.lookup_parent`), so that a change there is seen
nowhere else.
-/

namespace Sharing

open List Option

universe u v

/-- Roots and links between nodes. -/
@[ext] structure Graph (κ : Type u) (ι : Type v) where
  root : κ → Option ℕ
  link : ℕ → ι → Option ℕ

namespace Graph

variable {κ : Type u} {ι : Type v} (G : Graph κ ι)

/-- The nodes at a distance from the roots. -/
def tier : ℕ → Set ℕ
  | 0 => {b | ∃ p, G.root p = some b}
  | k + 1 => {f | ∃ g ∈ tier k, ∃ i, G.link g i = some f}

/-- The links from one tier to a node of the next. -/
def parents (k f : ℕ) : Set (ℕ × ι) := {x | x.1 ∈ G.tier k ∧ G.link x.1 x.2 = some f}

/-- The node at the end of a path. -/
def follow : ℕ → List ι → Option ℕ
  | x, [] => some x
  | x, i :: l => (G.link x i).bind fun y => follow y l

/-- What a root has at the end of a path. -/
def lookup (p : κ) (l : List ι) : Option ℕ := (G.root p).bind fun b => G.follow b l

/-- **The counts are right** down to the leaves at `depth`: a root has its own first node,
no node is at two distances, and the count of a node is the number of links to it. -/
structure Counted (depth : ℕ) (refs : ℕ → ℕ) : Prop where
  root_inj : ∀ p q b, G.root p = some b → G.root q = some b → p = q
  root_refs : ∀ p b, G.root p = some b → refs b = 1
  apart : ∀ j ≤ depth, ∀ k ≤ depth, ∀ x, x ∈ G.tier j → x ∈ G.tier k → j = k
  refs : ∀ k < depth, ∀ f ∈ G.tier (k + 1), (refs f : ℕ∞) = (G.parents k f).encard

variable {G} {G' : Graph κ ι} {depth : ℕ} {refs refs' : ℕ → ℕ}

/-! ## Paths -/

lemma follow_cons (x : ℕ) (i : ι) (l : List ι) :
    G.follow x (i :: l) = (G.link x i).bind fun y => G.follow y l := rfl

lemma follow_append (x : ℕ) (l l' : List ι) :
    G.follow x (l ++ l') = (G.follow x l).bind fun y => G.follow y l' := by
  induction l generalizing x with
  | nil => rfl
  | cons i l ih =>
    rw [cons_append, follow_cons, follow_cons, bind_assoc]
    exact congrArg _ (funext ih)

lemma follow_snoc (x : ℕ) (l : List ι) (i : ι) :
    G.follow x (l ++ [i]) = (G.follow x l).bind fun y => G.link y i := by
  rw [follow_append]
  refine congrArg _ (funext fun y => ?_)
  rw [follow_cons]
  cases G.link y i <;> rfl

variable {f k y : ℕ} {p : κ} {l : List ι}

lemma mem_tier_succ : f ∈ G.tier (k + 1) ↔ ∃ g ∈ G.tier k, ∃ i, G.link g i = some f := Iff.rfl

lemma tier_of_link {g : ℕ} {i : ι} (hg : g ∈ G.tier k) (h : G.link g i = some f) :
    f ∈ G.tier (k + 1) := ⟨g, hg, i, h⟩

lemma parents_congr (htier : G'.tier k = G.tier k)
    (hlink : ∀ x ∈ G.tier k, ∀ i, G'.link x i = G.link x i) (f : ℕ) :
    G'.parents k f = G.parents k f := by
  ext ⟨x, i⟩
  simp only [parents, Set.mem_ofPred_eq, htier]
  exact and_congr_right fun hx => by rw [hlink x hx]

lemma tier_congr (h : ∀ f, G'.parents k f = G.parents k f) : G'.tier (k + 1) = G.tier (k + 1) := by
  have hmem : ∀ (H : Graph κ ι) (f : ℕ), f ∈ H.tier (k + 1) ↔ (H.parents k f).Nonempty :=
    fun H f => ⟨fun ⟨x, hx, i, hi⟩ => ⟨(x, i), hx, hi⟩, fun ⟨(x, i), hx, hi⟩ => ⟨x, hx, i, hi⟩⟩
  ext f
  rw [hmem, hmem, h]

lemma tier_of_root {b : ℕ} (h : G.root p = some b) : b ∈ G.tier 0 := ⟨p, h⟩

lemma tier_of_follow {j x : ℕ} (hx : x ∈ G.tier j) (h : G.follow x l = some y) :
    y ∈ G.tier (j + l.length) := by
  induction l generalizing j x with
  | nil =>
    obtain rfl : x = y := some.inj h
    exact hx
  | cons i l ih =>
    obtain ⟨z, hz, hrest⟩ := bind_eq_some_iff.1 h
    have hnext := ih (tier_of_link hx hz) hrest
    rwa [Nat.add_right_comm] at hnext

lemma follow_congr {j x : ℕ} (hx : x ∈ G.tier j) (hlink : ∀ n, j ≤ n → n < j + l.length →
    ∀ y ∈ G.tier n, ∀ i, G'.link y i = G.link y i) : G'.follow x l = G.follow x l := by
  induction l generalizing j x with
  | nil => rfl
  | cons i l ih =>
    rw [length_cons] at hlink
    rw [follow_cons, follow_cons, hlink j le_rfl (by omega) x hx]
    cases hy : G.link x i with
    | none => rfl
    | some y => exact ih (tier_of_link hx hy) fun n hn hlt => hlink n (by omega) (by omega)

lemma tier_of_lookup (h : G.lookup p l = some y) : y ∈ G.tier l.length := by
  obtain ⟨b, hb, hfollow⟩ := bind_eq_some_iff.1 h
  simpa using tier_of_follow (tier_of_root hb) hfollow

lemma lookup_append (p : κ) (l : List ι) (i : ι) :
    G.lookup p (l ++ [i]) = (G.lookup p l).bind fun y => G.link y i := by
  rw [lookup, lookup, bind_assoc]
  exact congrArg _ (funext fun b => follow_snoc b l i)

lemma lookup_nil (p : κ) : G.lookup p [] = G.root p := by
  rw [lookup]
  cases G.root p <;> rfl

lemma lookup_extend (h : G.lookup p l = some y) (i : ι) : G.lookup p (l ++ [i]) = G.link y i := by
  rw [lookup_append, h, bind_some]

/-! ## Counts -/

namespace Counted

variable {f k g : ℕ} {i i' : ι}

lemma pos (hG : G.Counted depth refs) (hk : k ≤ depth) (hf : f ∈ G.tier k) : refs f ≠ 0 := by
  cases k with
  | zero =>
    obtain ⟨p, hp⟩ := hf
    rw [hG.root_refs p f hp]
    exact one_ne_zero
  | succ k =>
    intro hzero
    have hcount := hG.refs k hk f hf
    rw [hzero, Nat.cast_zero, eq_comm, Set.encard_eq_zero] at hcount
    obtain ⟨g, hg, i, hlink⟩ := hf
    have hmem : (g, i) ∈ G.parents k f := ⟨hg, hlink⟩
    rw [hcount] at hmem
    exact hmem

variable (hG : G.Counted depth refs) (hk : k < depth)
include hG hk

/-- A node that is counted once has one link to it. -/
lemma parent_unique {g' : ℕ} (hone : refs f = 1) (hg : g ∈ G.tier k) (h : G.link g i = some f)
    (hg' : g' ∈ G.tier k) (h' : G.link g' i' = some f) : g = g' ∧ i = i' := by
  have hcount := hG.refs k hk f (tier_of_link hg h)
  rw [hone, Nat.cast_one, eq_comm, Set.encard_eq_one] at hcount
  obtain ⟨x, hx⟩ := hcount
  have hmem : (g, i) ∈ G.parents k f := ⟨hg, h⟩
  have hmem' : (g', i') ∈ G.parents k f := ⟨hg', h'⟩
  rw [hx, Set.mem_singleton_iff] at hmem hmem'
  exact Prod.mk.inj (hmem.trans hmem'.symm)

/-- A node that is counted twice has another link to it. -/
lemma exists_other_parent (htwo : refs f ≠ 1) (hg : g ∈ G.tier k) (h : G.link g i = some f) :
    ∃ g' ∈ G.tier k, ∃ i', (g' ≠ g ∨ i' ≠ i) ∧ G.link g' i' = some f := by
  by_contra hnone
  push Not at hnone
  have hsingle : G.parents k f = {(g, i)} := by
    ext ⟨g', i'⟩
    constructor
    · rintro ⟨hg', h'⟩
      by_contra hne
      refine hnone g' hg' i' ?_ h'
      by_contra hboth
      push Not at hboth
      exact hne (by rw [hboth.1, hboth.2]; rfl)
    · rintro ⟨⟩
      exact ⟨hg, h⟩
  have hcount := hG.refs k hk f (tier_of_link hg h)
  rw [hsingle, Set.encard_singleton] at hcount
  exact htwo (by exact_mod_cast hcount)

/-- **The way to a node that is counted once**: every path to it goes through the one link
to it.  A node whose ancestors are all counted once belongs to one root and one path. -/
theorem lookup_parent (hone : refs f = 1) (hg : g ∈ G.tier k) (hlink : G.link g i = some f) {q : κ}
    {l : List ι} (hl : l.length = k) (h : G.lookup q (l ++ [i']) = some f) :
    G.lookup q l = some g ∧ i' = i := by
  rw [lookup_append] at h
  obtain ⟨x, hx, hlink'⟩ := bind_eq_some_iff.1 h
  have hxtier := tier_of_lookup hx
  rw [hl] at hxtier
  obtain ⟨rfl, rfl⟩ := hG.parent_unique hk hone hg hlink hxtier hlink'
  exact ⟨hx, rfl⟩

end Counted

/-! ## Changing one link -/

/-- Only one link of a live node changes, below a node of tier `k`. -/
structure Rewires (G G' : Graph κ ι) (depth k g : ℕ) (i : ι) : Prop where
  root : G'.root = G.root
  mem : g ∈ G.tier k
  lt : k < depth
  keep : ∀ j ≤ depth, ∀ x ∈ G.tier j, ∀ i', (x ≠ g ∨ i' ≠ i) → G'.link x i' = G.link x i'

namespace Rewires

variable {k g : ℕ} {i : ι}

variable {j f c p : ℕ} {l : List ι}

variable (h : Rewires G G' depth k g i) (hG : G.Counted depth refs)
include h hG

lemma link_eq {x : ℕ} (hj : j ≤ depth) (hne : j ≠ k) (hx : x ∈ G.tier j) (i' : ι) :
    G'.link x i' = G.link x i' := by
  refine h.keep j hj x hx i' (.inl ?_)
  rintro rfl
  exact hne (hG.apart j hj k h.lt.le _ hx h.mem)

lemma tier_le : ∀ j ≤ k, G'.tier j = G.tier j := by
  intro j
  induction j with
  | zero =>
    intro _
    simp only [tier, h.root]
  | succ j ih =>
    intro hj
    have hlt := h.lt
    exact tier_congr (parents_congr (ih (by omega)) fun x hx =>
      h.link_eq hG (by omega) (by omega) hx)

lemma mem_tier_succ : f ∈ G'.tier (k + 1) ↔ G'.link g i = some f ∨
        ∃ x ∈ G.tier k, ∃ i', (x ≠ g ∨ i' ≠ i) ∧ G.link x i' = some f := by
  rw [Graph.mem_tier_succ, h.tier_le hG k le_rfl]
  constructor
  · rintro ⟨x, hx, i', hi'⟩
    by_cases hsame : x = g ∧ i' = i
    · obtain ⟨rfl, rfl⟩ := hsame
      exact .inl hi'
    · have hother : x ≠ g ∨ i' ≠ i := by tauto
      exact .inr ⟨x, hx, i', hother, (h.keep k h.lt.le x hx i' hother).symm.trans hi'⟩
  · rintro (hlink | ⟨x, hx, i', hother, hi'⟩)
    · exact ⟨g, h.mem, i, hlink⟩
    · exact ⟨x, hx, i', (h.keep k h.lt.le x hx i' hother).trans hi'⟩

/-- The tiers further down stay if the nodes of the changed tier have the same links down
as before. -/
lemma tier_gt (hnext : k + 2 ≤ depth → G'.tier (k + 2) = G.tier (k + 2)) :
    ∀ j, k + 2 ≤ j → j ≤ depth → G'.tier j = G.tier j := by
  intro j hj
  induction j, hj using Nat.le_induction with
  | base => exact hnext
  | succ j hj ih =>
    intro hle
    exact tier_congr (parents_congr (ih (by omega)) fun x hx =>
      h.link_eq hG (by omega) (by omega) hx)

lemma tier_ne (hnext : k + 2 ≤ depth → G'.tier (k + 2) = G.tier (k + 2)) (hj : j ≤ depth)
    (hne : j ≠ k + 1) : G'.tier j = G.tier j := by
  by_cases hle : j ≤ k
  · exact h.tier_le hG j hle
  · exact h.tier_gt hG hnext j (by omega) hj

lemma follow_of_lt {x : ℕ} (hj : k < j) (hx : x ∈ G.tier j) (hle : j + l.length ≤ depth) :
    G'.follow x l = G.follow x l :=
  follow_congr hx fun _ _ _ _ hy => h.link_eq hG (by omega) (by omega) hy

lemma follow_of_short {x : ℕ} (hx : x ∈ G.tier j) (hle : j + l.length ≤ k) :
    G'.follow x l = G.follow x l := by
  have hlt := h.lt
  exact follow_congr hx fun _ _ _ _ hy => h.link_eq hG (by omega) (by omega) hy

/-- **Paths through the changed link**: if the link leads to the same ends, so does every
path. -/
theorem follow_eq {n : ℕ} (hend : ∀ l : List ι, l.length = n → k + 1 + n ≤ depth →
      ((G'.link g i).bind fun y => G'.follow y l) = (G.link g i).bind fun y => G.follow y l) :
    ∀ {l : List ι} {j x : ℕ}, x ∈ G.tier j → j + l.length = k + 1 + n → k + 1 + n ≤ depth →
      G'.follow x l = G.follow x l := by
  intro l
  induction l with
  | nil =>
    intro j x _ _ _
    rfl
  | cons i' l ih =>
    intro j x hx hlen hle
    rw [length_cons] at hlen
    by_cases hgt : k < j
    · exact h.follow_of_lt hG hgt hx (by rw [length_cons]; omega)
    rw [follow_cons, follow_cons]
    by_cases hsame : x = g ∧ i' = i
    · obtain ⟨rfl, rfl⟩ := hsame
      have hj : j = k := hG.apart j (by omega) k h.lt.le _ hx h.mem
      exact hend l (by omega) hle
    · have hother : x ≠ g ∨ i' ≠ i := by tauto
      rw [h.keep j (by omega) x hx i' hother]
      cases hlink : G.link x i' with
      | none => rfl
      | some y => exact ih (tier_of_link hx hlink) (by omega) hle

lemma lookup_of_le (q : κ) (hl : l.length ≤ k) : G'.lookup q l = G.lookup q l := by
  rw [lookup, lookup, h.root]
  cases hq : G.root q with
  | none => rfl
  | some b => exact h.follow_of_short hG (tier_of_root hq) (by omega)

lemma lookup_snoc [DecidableEq ι] (q : κ) (hl : l.length = k) (i' : ι) : G'.lookup q (l ++ [i']) =
      if G.lookup q l = some g ∧ i' = i then G'.link g i else G.lookup q (l ++ [i']) := by
  rw [lookup_append, lookup_append, h.lookup_of_le hG q hl.le]
  cases hx : G.lookup q l with
  | none => simp
  | some x =>
    have htier := tier_of_lookup hx
    rw [hl] at htier
    simp only [bind_some, Option.some.injEq]
    split
    next hsame =>
      obtain ⟨rfl, rfl⟩ := hsame
      rfl
    next hother => exact h.keep k h.lt.le x htier i' (by tauto)

/-- What the roots have below the changed link stays, if the link leads to the same ends. -/
lemma lookup_of_gt (q : κ) (hend : ∀ l : List ι, l ≠ [] → k + 1 + l.length ≤ depth →
      ((G'.link g i).bind fun y => G'.follow y l) = (G.link g i).bind fun y => G.follow y l)
    (hk : k + 1 < l.length) (hl : l.length ≤ depth) :
    G'.lookup q l = G.lookup q l := by
  rw [lookup, lookup, h.root]
  cases hq : G.root q with
  | none => rfl
  | some b =>
    obtain ⟨n, hn⟩ := Nat.exists_eq_add_of_lt hk
    refine h.follow_eq hG (n := n + 1) ?_ (tier_of_root hq) (by omega) (by omega)
    intro l' hl' hle
    refine hend l' ?_ (hl' ▸ hle)
    rintro rfl
    simp at hl'

lemma ends_of_copy (hc : G.link g i = some c) (hp : G'.link g i = some p)
    (hlinks : ∀ i', G'.link p i' = G.link c i') (hl : l ≠ []) (hle : k + 1 + l.length ≤ depth) :
    ((G'.link g i).bind fun y => G'.follow y l) = (G.link g i).bind fun y => G.follow y l := by
  obtain ⟨i', l, rfl⟩ := exists_cons_of_ne_nil hl
  rw [length_cons] at hle
  rw [hp, hc, bind_some, bind_some, follow_cons, follow_cons, hlinks]
  cases hy : G.link c i' with
  | none => rfl
  | some y =>
    have htier := tier_of_link (tier_of_link h.mem hc) hy
    exact h.follow_of_lt hG (by omega) htier (by omega)

omit h hG in
lemma ends_of_bare (hnone : G.link g i = none)
    (hbare : ∀ f, G'.link g i = some f → ∀ i', G'.link f i' = none) (hl : l ≠ []) :
    ((G'.link g i).bind fun y => G'.follow y l) = (G.link g i).bind fun y => G.follow y l := by
  obtain ⟨i', l, rfl⟩ := exists_cons_of_ne_nil hl
  rw [hnone]
  cases hp : G'.link g i with
  | none => rfl
  | some p => rw [bind_some, follow_cons, hbare p hp i', bind_none, bind_none]

lemma parents_eq (hj : j ≤ depth) (hne : j ≠ k) (htier : G'.tier j = G.tier j) (f : ℕ) :
    G'.parents j f = G.parents j f := parents_congr htier (fun _ hx => h.link_eq hG hj hne hx) f

lemma encard_parents (f : ℕ) :
    (G'.parents k f).encard + ((if G.link g i = some f then 1 else 0 : ℕ) : ℕ∞) =
      (G.parents k f).encard + ((if G'.link g i = some f then 1 else 0 : ℕ) : ℕ∞) := by
  have hother : G'.parents k f \ {(g, i)} = G.parents k f \ {(g, i)} := by
    ext ⟨x, i'⟩
    simp only [parents, Set.mem_sdiff, Set.mem_ofPred_eq, Set.mem_singleton_iff, Prod.mk.injEq,
      h.tier_le hG k le_rfl]
    constructor
    · rintro ⟨⟨hx, hlink⟩, hne⟩
      rw [h.keep k h.lt.le x hx i' (by tauto)] at hlink
      exact ⟨⟨hx, hlink⟩, hne⟩
    · rintro ⟨⟨hx, hlink⟩, hne⟩
      rw [← h.keep k h.lt.le x hx i' (by tauto)] at hlink
      exact ⟨⟨hx, hlink⟩, hne⟩
  have hsplit : ∀ H : Graph κ ι, g ∈ H.tier k → (H.parents k f).encard =
        (H.parents k f \ {(g, i)}).encard + ((if H.link g i = some f then 1 else 0 : ℕ) : ℕ∞) := by
    intro H hg
    split
    next hlink =>
      rw [Nat.cast_one, Set.encard_sdiff_singleton_add_one]
      exact ⟨hg, hlink⟩
    next hlink =>
      rw [Set.sdiff_singleton_eq_self, Nat.cast_zero, add_zero]
      rintro ⟨-, hmem⟩
      exact hlink hmem
  have hmem' : g ∈ G'.tier k := by
    rw [h.tier_le hG k le_rfl]
    exact h.mem
  rw [hsplit G h.mem, hsplit G' hmem', hother, add_right_comm]

lemma of_come (hf' : f ∈ G'.tier (k + 1)) (hf : f ∉ G.tier (k + 1)) : G'.link g i = some f := by
  rcases (h.mem_tier_succ hG).1 hf' with hlink | ⟨x, hx, i', -, hlink⟩
  · exact hlink
  · exact absurd (tier_of_link hx hlink) hf

/-- A node that goes is what the link was set to, and nothing else pointed to it. -/
lemma of_gone (hf : f ∈ G.tier (k + 1)) (hf' : f ∉ G'.tier (k + 1)) :
    G.link g i = some f ∧ refs f = 1 := by
  have honly : ∀ x ∈ G.tier k, ∀ i', G.link x i' = some f → x = g ∧ i' = i := by
    intro x hx i' hlink
    by_contra hne
    exact hf' ((h.mem_tier_succ hG).2 (.inr ⟨x, hx, i', by tauto, hlink⟩))
  obtain ⟨x, hx, i', hlink⟩ := hf
  obtain ⟨rfl, rfl⟩ := honly x hx i' hlink
  refine ⟨hlink, ?_⟩
  by_contra htwo
  obtain ⟨y, hy, i'', hne, hother⟩ := hG.exists_other_parent h.lt htwo hx hlink
  have := honly y hy i'' hother
  tauto

section

variable
    (hgone : k + 2 ≤ depth → ∀ f, G.link g i = some f → refs f = 1 → ∀ i', G.link f i' = none)
    (hcome : k + 2 ≤ depth → ∀ f, G'.link g i = some f → f ∉ G.tier (k + 1) →
      ∀ i', G'.link f i' = none)
    (hle : k + 2 ≤ depth)
include hgone hcome hle

/-- The links from the next tier stay, if the nodes that come or go have none. -/
lemma next_parents_of_bare (f : ℕ) : G'.parents (k + 1) f = G.parents (k + 1) f := by
  ext ⟨x, i'⟩
  constructor
  · rintro ⟨hx', hlink⟩
    by_cases hx : x ∈ G.tier (k + 1)
    · rw [h.link_eq hG (by omega) (by omega) hx] at hlink
      exact ⟨hx, hlink⟩
    · rw [hcome hle x (h.of_come hG hx' hx) hx i'] at hlink
      cases hlink
  · rintro ⟨hx, hlink⟩
    by_cases hx' : x ∈ G'.tier (k + 1)
    · rw [← h.link_eq hG (by omega) (by omega) hx] at hlink
      exact ⟨hx', hlink⟩
    · obtain ⟨htarget, hone⟩ := h.of_gone hG hx hx'
      rw [hgone hle x htarget hone i'] at hlink
      cases hlink

lemma next_of_bare : G'.tier (k + 2) = G.tier (k + 2) :=
  tier_congr (h.next_parents_of_bare hG hgone hcome hle)

end

/-- A copy of a shared node is the only new node: the shared one keeps its other parents. -/
lemma mem_tier_of_copy (hc : G.link g i = some c) (hshared : refs c ≠ 1)
    (hp : G'.link g i = some p) (x : ℕ) :
    x ∈ G'.tier (k + 1) ↔ x ∈ G.tier (k + 1) ∨ x = p := by
  rw [h.mem_tier_succ hG, hp]
  constructor
  · rintro (hx | ⟨y, hy, i', -, hlink⟩)
    · exact .inr (some.inj hx).symm
    · exact .inl (tier_of_link hy hlink)
  · rintro (⟨y, hy, i', hlink⟩ | rfl)
    · by_cases hsame : y = g ∧ i' = i
      · obtain ⟨rfl, rfl⟩ := hsame
        obtain rfl : c = x := some.inj (hc.symm.trans hlink)
        exact .inr (hG.exists_other_parent h.lt hshared hy hlink)
      · exact .inr ⟨y, hy, i', by tauto, hlink⟩
    · exact .inl rfl

lemma next_of_copy (hc : G.link g i = some c) (hshared : refs c ≠ 1) (hp : G'.link g i = some p)
    (hlinks : ∀ i', G'.link p i' = G.link c i') (hle : k + 2 ≤ depth) :
    G'.tier (k + 2) = G.tier (k + 2) := by
  have hsucc := h.mem_tier_of_copy hG hc hshared hp
  have hkeep : ∀ x ∈ G.tier (k + 1), ∀ i', G'.link x i' = G.link x i' := fun x hx i' =>
    h.link_eq hG (by omega) (by omega) hx i'
  ext f
  constructor
  · rintro ⟨x, hx, i', hlink⟩
    rcases (hsucc x).1 hx with hx | rfl
    · exact tier_of_link hx ((hkeep x hx i').symm.trans hlink)
    · exact tier_of_link (tier_of_link h.mem hc) ((hlinks i').symm.trans hlink)
  · rintro ⟨x, hx, i', hlink⟩
    exact tier_of_link ((hsucc x).2 (.inl hx)) ((hkeep x hx i').trans hlink)

end Rewires

namespace Counted

variable {g k : ℕ} {i : ι}

variable (hG : G.Counted depth refs) (h : Rewires G G' depth k g i)
include hG h

/-- One link changes, and two tiers below it are counted anew. -/
lemma of_rewires (hnext : k + 2 ≤ depth → G'.tier (k + 2) = G.tier (k + 2))
    (hnew : ∀ f, G'.link g i = some f → ∀ j ≤ depth, f ∈ G.tier j → j = k + 1)
    (hfresh : ∀ f, G'.link g i = some f → f ∉ G.tier (k + 1) → refs' f = 1)
    (hcount : ∀ f ∈ G.tier (k + 1), refs' f + (if G.link g i = some f then 1 else 0) =
        refs f + (if G'.link g i = some f then 1 else 0))
    (hbelow : k + 2 ≤ depth → ∀ f ∈ G.tier (k + 2), (refs' f : ℕ∞) = (G'.parents (k + 1) f).encard)
    (hrefs : ∀ j ≤ depth, j ≠ k + 1 → j ≠ k + 2 → ∀ f ∈ G.tier j, refs' f = refs f) :
    G'.Counted depth refs' := by
  have hsuccessor : ∀ f ∈ G'.tier (k + 1), f ∈ G.tier (k + 1) ∨ G'.link g i = some f :=
    fun f hf => or_iff_not_imp_left.2 (h.of_come hG hf)
  have htier : ∀ j ≤ depth, j ≠ k + 1 → G'.tier j = G.tier j := fun j hj hne =>
    h.tier_ne hG hnext hj hne
  exact
    { root_inj := fun p q b hp hq => hG.root_inj p q b (h.root ▸ hp) (h.root ▸ hq)
      root_refs := by
        intro p b hp
        rw [h.root] at hp
        rw [hrefs 0 (Nat.zero_le _) (by omega) (by omega) b (tier_of_root hp)]
        exact hG.root_refs p b hp
      apart := by
        have hcross : ∀ j ≤ depth, j ≠ k + 1 → ∀ x, x ∈ G'.tier (k + 1) → x ∈ G.tier j →
            False := by
          intro j hj hne x hx hxj
          rcases hsuccessor x hx with hold | hlink
          · exact hne (hG.apart j hj (k + 1) h.lt x hxj hold)
          · exact hne (hnew x hlink j hj hxj)
        intro a ha b hb x hxa hxb
        by_cases hak : a = k + 1
        · by_cases hbk : b = k + 1
          · omega
          · rw [htier b hb hbk] at hxb
            exact (hcross b hb hbk x (hak ▸ hxa) hxb).elim
        · rw [htier a ha hak] at hxa
          by_cases hbk : b = k + 1
          · exact (hcross a ha hak x (hbk ▸ hxb) hxa).elim
          · rw [htier b hb hbk] at hxb
            exact hG.apart a ha b hb x hxa hxb
      refs := by
        intro j hj f hf
        rcases eq_or_ne j k with rfl | hjk
        · have hencard := h.encard_parents hG f
          by_cases hold : f ∈ G.tier (j + 1)
          · have hsum := hcount f hold
            rw [← hG.refs j hj f hold, ← Nat.cast_add, ← hsum, Nat.cast_add] at hencard
            exact (ENat.add_left_injective_of_ne_top (ENat.natCast_ne_top _) hencard).symm
          · have hlink : G'.link g i = some f := (hsuccessor f hf).resolve_left hold
            have hnot : G.link g i ≠ some f := fun hlink => hold (tier_of_link h.mem hlink)
            have hempty : G.parents j f = ∅ :=
              Set.eq_empty_of_forall_notMem fun x hx => hold (tier_of_link hx.1 hx.2)
            rw [if_pos hlink, if_neg hnot, hempty, Set.encard_empty, Nat.cast_zero, add_zero,
              zero_add] at hencard
            rw [hencard, hfresh f hlink hold]
        rcases eq_or_ne j (k + 1) with rfl | hne
        · rw [hnext hj] at hf
          exact hbelow hj f hf
        · rw [htier (j + 1) hj (by omega)] at hf
          rw [h.parents_eq hG hj.le hjk (htier j hj.le hne),
            hrefs (j + 1) hj (by omega) (by omega) f hf]
          exact hG.refs j hj f hf }

/-- **One link changes**, and the nodes that come or go have no links down.  The count of
the old target goes down by one and the count of the new target goes up by one. -/
theorem relink
    (hgone : k + 2 ≤ depth → ∀ f, G.link g i = some f → refs f = 1 → ∀ i', G.link f i' = none)
    (hcome : k + 2 ≤ depth → ∀ f, G'.link g i = some f → f ∉ G.tier (k + 1) →
      ∀ i', G'.link f i' = none)
    (hnew : ∀ f, G'.link g i = some f → ∀ j ≤ depth, f ∈ G.tier j → j = k + 1)
    (hfresh : ∀ f, G'.link g i = some f → f ∉ G.tier (k + 1) → refs' f = 1)
    (hcount : ∀ f ∈ G.tier (k + 1), refs' f + (if G.link g i = some f then 1 else 0) =
        refs f + (if G'.link g i = some f then 1 else 0))
    (hrefs : ∀ j ≤ depth, j ≠ k + 1 → ∀ f ∈ G.tier j, refs' f = refs f) :
    G'.Counted depth refs' := by
  refine hG.of_rewires h (h.next_of_bare hG hgone hcome) hnew hfresh hcount ?_
    fun j hj hne _ => hrefs j hj hne
  intro hle f hf
  rw [h.next_parents_of_bare hG hgone hcome hle, hrefs (k + 2) hle (by omega) f hf]
  exact hG.refs (k + 1) hle f hf

/-- **A link to a shared node is set to a copy of it**, with the same links down. -/
theorem copy (hk : k + 2 ≤ depth) {c p : ℕ} (hc : G.link g i = some c) (hshared : refs c ≠ 1)
    (hp : G'.link g i = some p) (hfresh : ∀ j ≤ depth, p ∉ G.tier j)
    (hlinks : ∀ i', G'.link p i' = G.link c i') (hone : refs' p = 1) (hless : refs' c + 1 = refs c)
    (hmore : ∀ f ∈ G.tier (k + 2), (refs' f : ℕ∞) = refs f + {i' | G.link c i' = some f}.encard)
    (hrefs : ∀ j ≤ depth, j ≠ k + 2 → ∀ f ∈ G.tier j, f ≠ c → refs' f = refs f) :
    G'.Counted depth refs' := by
  have hlt := h.lt
  have hctier : c ∈ G.tier (k + 1) := tier_of_link h.mem hc
  have hptier : p ∉ G.tier (k + 1) := hfresh (k + 1) hlt
  have hsucc := h.mem_tier_of_copy hG hc hshared hp
  have hkeep : ∀ x ∈ G.tier (k + 1), ∀ i', G'.link x i' = G.link x i' := fun x hx i' =>
    h.link_eq hG hlt (by omega) hx i'
  have hparents : ∀ f, G'.parents (k + 1) f =
      G.parents (k + 1) f ∪ (Prod.mk p) '' {i' | G.link c i' = some f} := by
    intro f
    ext ⟨x, i'⟩
    simp only [parents, Set.mem_ofPred_eq, Set.mem_union, Set.mem_image, Prod.mk.injEq, hsucc]
    constructor
    · rintro ⟨hx | rfl, hlink⟩
      · exact .inl ⟨hx, (hkeep x hx i').symm.trans hlink⟩
      · exact .inr ⟨i', (hlinks i').symm.trans hlink, rfl, rfl⟩
    · rintro (⟨hx, hlink⟩ | ⟨_, hlink, rfl, rfl⟩)
      · exact ⟨.inl hx, (hkeep x hx i').trans hlink⟩
      · exact ⟨.inr rfl, (hlinks _).trans hlink⟩
  refine hG.of_rewires h (h.next_of_copy hG hc hshared hp hlinks) ?_ ?_ ?_ ?_ ?_
  · intro f hf j hj hmem
    obtain rfl : p = f := some.inj (hp.symm.trans hf)
    exact absurd hmem (hfresh j hj)
  · intro f hf _
    obtain rfl : p = f := some.inj (hp.symm.trans hf)
    exact hone
  · intro f hf
    have hnot : G'.link g i ≠ some f := by
      rw [hp]
      rintro ⟨⟩
      exact hptier hf
    rw [if_neg hnot]
    by_cases hfc : f = c
    · subst hfc
      rw [if_pos hc, hless, add_zero]
    · have hne : G.link g i ≠ some f := by
        rw [hc]
        rintro ⟨⟩
        exact hfc rfl
      rw [if_neg hne, hrefs (k + 1) hlt (by omega) f hf hfc]
  · intro _ f hf
    have hdisjoint : Disjoint (G.parents (k + 1) f) (Prod.mk p '' {i' | G.link c i' = some f}) := by
      rw [Set.disjoint_right]
      rintro _ ⟨i', -, rfl⟩ hmem
      exact hptier hmem.1
    rw [hparents f, Set.encard_union_eq hdisjoint,
      (Prod.mk_right_injective p).encard_image, ← hG.refs (k + 1) hk f hf]
    exact hmore f hf
  · intro j hj hne hne' f hf
    refine hrefs j hj hne' f hf ?_
    rintro rfl
    exact hne (hG.apart j hj (k + 1) hlt _ hf hctier)

end Counted

/-! ## Changing one root -/

/-- A root comes or goes, and its first node has no links. -/
structure Reroots (G G' : Graph κ ι) (depth : ℕ) (p : κ) : Prop where
  root : ∀ q ≠ p, G'.root q = G.root q
  link : ∀ j ≤ depth, ∀ x ∈ G.tier j, ∀ i, G'.link x i = G.link x i
  bare : ∀ b, G.root p = some b → ∀ i, G.link b i = none
  bare' : ∀ b, G'.root p = some b → ∀ i, G'.link b i = none

namespace Reroots

variable {p : κ}

lemma first_parents (h : Reroots G G' depth p) (f : ℕ) : G'.parents 0 f = G.parents 0 f := by
  ext ⟨x, i⟩
  constructor
  · rintro ⟨⟨q, hq⟩, hlink⟩
    by_cases hqp : q = p
    · subst hqp
      rw [h.bare' x hq i] at hlink
      cases hlink
    · rw [h.root q hqp] at hq
      have hx := tier_of_root hq
      exact ⟨hx, (h.link 0 (Nat.zero_le _) x hx i).symm.trans hlink⟩
  · rintro ⟨⟨q, hq⟩, hlink⟩
    by_cases hqp : q = p
    · subst hqp
      rw [h.bare x hq i] at hlink
      cases hlink
    · have hx := tier_of_root hq
      rw [← h.root q hqp] at hq
      exact ⟨tier_of_root hq, (h.link 0 (Nat.zero_le _) x hx i).trans hlink⟩

lemma parents_eq (h : Reroots G G' depth p) (hk : k < depth) (f : ℕ) :
    G'.parents k f = G.parents k f := by
  induction k generalizing f with
  | zero => exact h.first_parents f
  | succ k ih => exact parents_congr (tier_congr (ih (by omega))) (h.link (k + 1) hk.le) f

lemma tier_succ (h : Reroots G G' depth p) (k : ℕ) (hk : k < depth) :
    G'.tier (k + 1) = G.tier (k + 1) := tier_congr (h.parents_eq hk)

/-- **The counts stay right** when a root comes or goes. -/
theorem counted (h : Reroots G G' depth p) (hG : G.Counted depth refs)
    (hfresh : ∀ b, G'.root p = some b → ∀ j ≤ depth, b ∉ G.tier j)
    (hone : ∀ b, G'.root p = some b → refs' b = 1)
    (hrefs : ∀ j ≤ depth, ∀ f ∈ G.tier j, G.root p ≠ some f → refs' f = refs f) :
    G'.Counted depth refs' := by
  have hfirst : ∀ x ∈ G'.tier 0, x ∈ G.tier 0 ∨ ∀ j ≤ depth, x ∉ G.tier j := by
    rintro x ⟨q, hq⟩
    by_cases hqp : q = p
    · exact .inr (hfresh x (hqp ▸ hq))
    · exact .inl ⟨q, (h.root q hqp).symm.trans hq⟩
  have hcross : ∀ k < depth, ∀ x ∈ G'.tier 0, x ∉ G.tier (k + 1) := by
    intro k hk x hx hmem
    rcases hfirst x hx with hold | hnew
    · have := hG.apart 0 (Nat.zero_le _) (k + 1) hk x hold hmem
      omega
    · exact hnew (k + 1) hk hmem
  exact
    { root_inj := by
        intro q q' b hq hq'
        by_cases hqp : q = p <;> by_cases hqp' : q' = p
        · rw [hqp, hqp']
        · subst hqp
          rw [h.root q' hqp'] at hq'
          exact (hfresh b hq 0 (Nat.zero_le _) (tier_of_root hq')).elim
        · subst hqp'
          rw [h.root q hqp] at hq
          exact (hfresh b hq' 0 (Nat.zero_le _) (tier_of_root hq)).elim
        · rw [h.root q hqp] at hq
          rw [h.root q' hqp'] at hq'
          exact hG.root_inj q q' b hq hq'
      root_refs := by
        intro q b hq
        by_cases hqp : q = p
        · exact hone b (hqp ▸ hq)
        · rw [h.root q hqp] at hq
          have hne : G.root p ≠ some b := fun hp => hqp (hG.root_inj q p b hq hp)
          rw [hrefs 0 (Nat.zero_le _) b (tier_of_root hq) hne]
          exact hG.root_refs q b hq
      apart := by
        intro a ha b hb x hxa hxb
        match a, b with
        | 0, 0 => rfl
        | 0, b + 1 =>
          rw [h.tier_succ b hb] at hxb
          exact (hcross b hb x hxa hxb).elim
        | a + 1, 0 =>
          rw [h.tier_succ a ha] at hxa
          exact (hcross a ha x hxb hxa).elim
        | a + 1, b + 1 =>
          rw [h.tier_succ a ha] at hxa
          rw [h.tier_succ b hb] at hxb
          exact hG.apart (a + 1) ha (b + 1) hb x hxa hxb
      refs := by
        intro k hk f hf
        rw [h.tier_succ k hk] at hf
        have hne : G.root p ≠ some f := by
          intro hp
          have := hG.apart 0 (Nat.zero_le _) (k + 1) hk f (tier_of_root hp) hf
          omega
        rw [h.parents_eq hk, hrefs (k + 1) hk f hf hne]
        exact hG.refs k hk f hf }

end Reroots

end Graph

end Sharing
