import Naos.Lib.Outcome
import Mathlib

/-!
# Path resolution

`path_walk` reads a path component by component.  A symbolic link starts a nested walk of its
target, and all walks of one call share the record `nameidata`, which counts the links and
remembers where the last component was looked up.

The walk only asks five questions about entries, and a `View` answers them.  The file system is
one view; the same walk over a view that refuses to answer for some entries says which paths
do not pass through them.
-/

namespace Naos.Fs

open Outcome List Option

inductive InodeType where
  | file
  | directory
  | symbolink
  | socket
  | block
  | chr
  | pipe
  deriving DecidableEq, Repr

abbrev Name : Type := List Char

def directoryMaximumPathSize : ℕ := 4096

inductive Fault where
  /-- A component is longer than `entry_buffer`. -/
  | overflow
  | null
  | freed
  | unterminated
  | depth
  deriving DecidableEq, Repr

/-! ## Components -/

/-- `next_path_entry_str`: the next component, and the path behind it and its slashes. -/
def nextPathEntryStr : Name → Name × Name
  | [] => ([], [])
  | c :: name =>
    if c = '/' then ([], name.dropWhile (· = '/'))
    else
      match nextPathEntryStr name with
      | (entry, rest) => (c :: entry, rest)

lemma length_nextPathEntryStr_le (name : Name) :
    (nextPathEntryStr name).2.length ≤ name.length - 1 := by
  induction name with
  | nil => simp [nextPathEntryStr]
  | cons c name ih =>
    rw [nextPathEntryStr]
    split
    · simpa using (dropWhile_sublist _).length_le
    · simp only [length_cons]
      omega

lemma nextPathEntryStr_of_notMem {name : Name} (h : '/' ∉ name) :
    nextPathEntryStr name = (name, []) := by
  induction name with
  | nil => rfl
  | cons c name ih =>
    rw [mem_cons, not_or] at h
    rw [nextPathEntryStr, if_neg (Ne.symm h.1), ih h.2]

/-- One pass of the loop of `path_walk`: `last_scan_url_point` and `entry_buffer`. -/
structure Scan where
  point : Name
  entry : Name
  deriving DecidableEq, Repr

/-- The passes over at most `n` characters. -/
def scansUpTo : ℕ → Name → List Scan
  | _, [] => []
  | 0, _ :: _ => []
  | n + 1, c :: name =>
    ⟨c :: name, (nextPathEntryStr (c :: name)).1⟩ :: scansUpTo n (nextPathEntryStr (c :: name)).2

/-- The passes of the loop of `path_walk`. -/
def scans (name : Name) : List Scan := scansUpTo name.length name

@[simp] lemma scans_nil : scans [] = [] := rfl

lemma scansUpTo_eq {n m : ℕ} {name : Name} (hn : name.length ≤ n) (hm : name.length ≤ m) :
    scansUpTo n name = scansUpTo m name := by
  induction n generalizing m name with
  | zero =>
    obtain rfl : name = [] := length_eq_zero_iff.1 (Nat.le_zero.1 hn)
    simp [scansUpTo]
  | succ n ih =>
    cases name with
    | nil => simp [scansUpTo]
    | cons c name =>
      cases m with
      | zero => simp at hm
      | succ m =>
        have hlen := length_nextPathEntryStr_le (c :: name)
        exact congrArg _ (ih (by omega) (by omega))

lemma scans_cons (c : Char) (name : Name) : scans (c :: name) =
      ⟨c :: name, (nextPathEntryStr (c :: name)).1⟩ :: scans (nextPathEntryStr (c :: name)).2 := by
  have hlen := length_nextPathEntryStr_le (c :: name)
  simp only [length_cons] at hlen
  exact congrArg _ (scansUpTo_eq (by omega) (Nat.le_refl _))

lemma scans_of_notMem {name : Name} (hne : name ≠ []) (h : '/' ∉ name) :
    scans name = [⟨name, name⟩] := by
  obtain ⟨c, name, rfl⟩ := exists_cons_of_ne_nil hne
  rw [scans_cons, nextPathEntryStr_of_notMem h, scans_nil]

/-! ## The walk -/

/-- `path_walk_flags`, those that are read. -/
structure WalkFlags where
  autoCreateFile : Bool := false
  continueParse : Bool := false
  notResolveSymbolicLink : Bool := false
  directory : Bool := false
  file : Bool := false
  crossRoot : Bool := false
  deriving DecidableEq, Repr

structure View (E : Type) where
  findChild : E → Name → Except Fault (Option E)
  parent : E → Except Fault (Option E)
  type : E → Except Fault InodeType
  linkCount : E → Except Fault ℕ
  symbolink : E → Except Fault (Option Name)

/-- `nameidata`, without `deep`, which nobody reads. -/
structure Idata (E : Type) where
  lastAvailableEntry : Option E := none
  symlinkDeep : ℕ := 0
  lastScanUrlPoint : Name := []
  deriving DecidableEq, Repr

/-- The entry that is returned, `none` for a null pointer, and `nameidata`. -/
abbrev Walked (E : Type) : Type := Option E × Idata E

variable {E : Type} [DecidableEq E]

def Walked.andThen (w : Walked E) (f : E → Idata E → Except Fault (Walked E)) :
    Except Fault (Walked E) :=
  match w.1 with
  | none => .ok (none, w.2)
  | some e => f e w.2

/-- The step to `..`. -/
def View.dotDot (V : View E) (root : E) (flags : WalkFlags) (prev : E) : Except Fault E :=
  if prev ≠ root then
    -- the pointer is followed without a test
    V.parent prev >>= fun p => p.elim (.error .null) .ok
  else if flags.crossRoot then V.parent prev >>= fun p => .ok (p.getD prev)
  else .ok prev

def View.follow (V : View E) (nested : Name → Idata E → Except Fault (Walked E)) (next : E)
    (idata : Idata E) : Except Fault (Walked E) :=
  let deep := idata.symlinkDeep
  let idata := { idata with symlinkDeep := (deep + 1) % 2 ^ 16 }
  if 15 < deep then .ok (none, idata)
  else do
    let target ← V.symbolink next
    let walked ← target.elim (.error .null) fun target => nested target idata
    walked.andThen fun next idata => do
      let count ← V.linkCount next
      .ok (if count = 0 then none else some next, idata)

/-- The name of a component is looked up, which is the `last` one or not. -/
def View.enter (V : View E) (nested : Name → Idata E → Except Fault (Walked E))
    (flags : WalkFlags) (last : Bool) (entry : Name) (prev : E) (idata : Idata E) :
    Except Fault (Walked E) := do
  let found ← V.findChild prev entry
  Walked.andThen (found, idata) fun next idata => do
    let count ← V.linkCount next
    let type ← V.type next
    if count = 0 then .ok (none, idata)
    else if type ≠ .symbolink then .ok (some next, idata)
    else if flags.notResolveSymbolicLink then .ok (if last then some next else none, idata)
    else V.follow nested next idata

/-- One pass of the loop of `path_walk`.  A component of `directoryMaximumPathSize` characters
does not fit into `entry_buffer` with its end. -/
def walkScan (V : View E) (nested : Name → Idata E → Except Fault (Walked E)) (root : E)
    (flags : WalkFlags) (last : Bool) (scan : Scan) (prev : E) (idata : Idata E) :
    Except Fault (Walked E) :=
  let idata := { idata with lastScanUrlPoint := scan.point, lastAvailableEntry := some prev }
  if directoryMaximumPathSize ≤ scan.entry.length then .error .overflow
  else if scan.entry = ['.'] then .ok (some prev, idata)
  else if scan.entry = ['.', '.'] then do
    let prev ← V.dotDot root flags prev
    .ok (some prev, idata)
  else V.enter nested flags last scan.entry prev idata

/-- The loop of `path_walk` over the components that are left. -/
def walkScans (V : View E) (nested : Name → Idata E → Except Fault (Walked E)) (root : E)
    (flags : WalkFlags) : List Scan → E → Idata E → Except Fault (Walked E)
  | [], prev, idata => .ok (some prev, idata)
  | scan :: rest, prev, idata => do
    let walked ← walkScan V nested root flags rest.isEmpty scan prev idata
    walked.andThen (walkScans V nested root flags rest)

/-- The end of `path_walk`: what the flags say about the type of the entry. -/
def View.checkType (V : View E) (flags : WalkFlags) (prev : E) (idata : Idata E) :
    Except Fault (Walked E) := do
  let type ← V.type prev
  if type = .file ∧ flags.directory ∨ type = .directory ∧ flags.file then .ok (none, idata)
  else .ok (some prev, idata)

/-- `path_walk`, with at most `n` walks inside each other. -/
def pathWalkUpTo (V : View E) (root curDir : E) :
    ℕ → Name → WalkFlags → Idata E → Except Fault (Walked E)
  | 0, _, _, _ => .error .depth
  | _ + 1, [], _, idata => .ok (some curDir, idata)
  | n + 1, c :: path, flags, idata => do
    let prev := if c = '/' then root else curDir
    let name := (c :: path).dropWhile (· = '/')
    let idata := if flags.continueParse then idata else ⟨some prev, 0, name⟩
    let nested := fun target idata =>
      pathWalkUpTo V root curDir n target { flags with continueParse := true } idata
    let walked ← walkScans V nested root flags (scans name) prev idata
    walked.andThen (V.checkType flags)

/-- `path_walk`.  A walk stops at its seventeenth link. -/
def pathWalk (V : View E) (root curDir : E) (name : Name) (flags : WalkFlags) (idata : Idata E) :
    Except Fault (Walked E) := pathWalkUpTo V root curDir 17 name flags idata

/-! ## Views that answer more -/

omit [DecidableEq E] in
lemma Walked.refines_andThen {w : Walked E} {f g : E → Idata E → Except Fault (Walked E)}
    (hfg : ∀ e i, Refines (f e i) (g e i)) : Refines (w.andThen f) (w.andThen g) := by
  rw [Walked.andThen, Walked.andThen]
  cases w.1 with
  | none => exact .refl _
  | some e => exact hfg e w.2

structure View.Refines (V V' : View E) : Prop where
  findChild : ∀ e n, Outcome.Refines (V.findChild e n) (V'.findChild e n)
  parent : ∀ e, Outcome.Refines (V.parent e) (V'.parent e)
  type : ∀ e, Outcome.Refines (V.type e) (V'.type e)
  linkCount : ∀ e, Outcome.Refines (V.linkCount e) (V'.linkCount e)
  symbolink : ∀ e, Outcome.Refines (V.symbolink e) (V'.symbolink e)

section Mono

variable {V V' : View E} {nested nested' : Name → Idata E → Except Fault (Walked E)} {root : E}
  {flags : WalkFlags}

omit [DecidableEq E] in
lemma View.Refines.refl (V : View E) : V.Refines V :=
  ⟨fun _ _ => .refl _, fun _ => .refl _, fun _ => .refl _, fun _ => .refl _, fun _ => .refl _⟩

lemma View.Refines.dotDot (h : V.Refines V') (prev : E) :
    Outcome.Refines (V.dotDot root flags prev) (V'.dotDot root flags prev) := by
  rw [View.dotDot, View.dotDot]
  split
  · exact (h.parent prev).bind fun _ => .refl _
  split
  · exact (h.parent prev).bind fun _ => .refl _
  · exact .refl _

section

variable (h : V.Refines V') (hn : ∀ t i, Outcome.Refines (nested t i) (nested' t i))
include h hn

omit [DecidableEq E] in
lemma View.Refines.follow (next : E) (idata : Idata E) :
    Outcome.Refines (V.follow nested next idata) (V'.follow nested' next idata) := by
  rw [View.follow, View.follow]
  split
  · exact .refl _
  · refine (h.symbolink next).bind fun target => Outcome.Refines.bind ?_ fun walked => ?_
    · cases target with
      | none => exact .refl _
      | some target => exact hn target _
    · exact Walked.refines_andThen fun next idata => (h.linkCount next).bind fun _ => .refl _

lemma View.Refines.walkScan (last : Bool) (scan : Scan) (prev : E) (idata : Idata E) :
    Outcome.Refines (walkScan V nested root flags last scan prev idata)
      (walkScan V' nested' root flags last scan prev idata) := by
  rw [Fs.walkScan, Fs.walkScan]
  split
  · exact .error _ _
  split
  · exact .refl _
  split
  · exact (h.dotDot prev).bind fun _ => .refl _
  refine (h.findChild prev _).bind fun found => Walked.refines_andThen fun next idata => ?_
  refine (h.linkCount next).bind fun count => (h.type next).bind fun type => ?_
  iterate 3
    split
    · exact .refl _
  · exact h.follow hn next idata

lemma View.Refines.walkScans (scans : List Scan) :
    ∀ prev idata, Outcome.Refines (walkScans V nested root flags scans prev idata)
      (walkScans V' nested' root flags scans prev idata) := by
  induction scans with
  | nil => exact fun _ _ => .refl _
  | cons scan rest ih =>
    intro prev idata
    exact (h.walkScan hn _ scan prev idata).bind fun walked => Walked.refines_andThen ih

end

/-- **A view that answers more, and more room for nested walks, give the same result.** -/
theorem pathWalkUpTo_mono (h : V.Refines V') {curDir : E} {n m : ℕ} (hnm : n ≤ m) (name : Name)
    (flags : WalkFlags) (idata : Idata E) :
    Refines (pathWalkUpTo V root curDir n name flags idata)
      (pathWalkUpTo V' root curDir m name flags idata) := by
  induction n generalizing m name flags idata with
  | zero => exact .error _ _
  | succ n ih =>
    obtain ⟨m, rfl⟩ : ∃ k, m = k + 1 := ⟨m - 1, by omega⟩
    cases name with
    | nil => exact .refl _
    | cons c path =>
      refine (h.walkScans (fun t i => ih (by omega) t _ i) _ _ _).bind fun walked => ?_
      exact Walked.refines_andThen fun e i => (h.type e).bind fun _ => .refl _

end Mono

/-! ## Where a walk can end -/

/-- Every component of the path fits into `entry_buffer`. -/
def Short (name : Name) : Prop :=
  ∀ scan ∈ scans (name.dropWhile (· = '/')), scan.entry.length < directoryMaximumPathSize

instance (name : Name) : Decidable (Short name) :=
  inferInstanceAs (Decidable (∀ scan ∈ scans (name.dropWhile (· = '/')), _))

/-- A set of entries that a walk cannot leave, and about which all questions are answered. -/
structure View.Closed (V : View E) (S : E → Prop) (root : E) : Prop where
  start : S root
  findChild : ∀ e n, S e → ∃ c, V.findChild e n = .ok c ∧ ∀ x, c = some x → S x
  parent : ∀ e, S e → e ≠ root → ∃ p, V.parent e = .ok (some p) ∧ S p
  type : ∀ e, S e → ∃ t, V.type e = .ok t
  linkCount : ∀ e, S e → ∃ k, V.linkCount e = .ok k
  symbolink : ∀ e, S e → V.type e = .ok .symbolink → ∃ t, V.symbolink e = .ok (some t)

section Closed

variable {V : View E} {S : E → Prop} {root : E} {P : Fault → Prop} {flags : WalkFlags}
  {nested : Name → Idata E → Except Fault (Walked E)}

/-- The entry that is returned is one of `S`, after at least `k` links. -/
def Inside (S : E → Prop) (k : ℕ) (w : Walked E) : Prop :=
  ∀ e, w.1 = some e → S e ∧ k ≤ w.2.symlinkDeep

omit [DecidableEq E] in
lemma Inside.andThen {k : ℕ} {w : Walked E} {f : E → Idata E → Except Fault (Walked E)}
    (hw : Inside S k w)
    (hf : ∀ e i, S e → k ≤ i.symlinkDeep → Ensures P (f e i) (Inside S k)) :
    Ensures P (w.andThen f) (Inside S k) := by
  rw [Walked.andThen]
  cases hfirst : w.1 with
  | none => exact .ok fun _ h => nomatch h
  | some e =>
    obtain ⟨he, hk⟩ := hw e hfirst
    exact hf e w.2 he hk

variable (h : V.Closed S root)
include h

lemma View.Closed.dotDot (hflags : flags.crossRoot = false) {prev : E} (hprev : S prev) :
    ∃ p, V.dotDot root flags prev = .ok p ∧ S p := by
  rw [View.dotDot]
  split
  next hne =>
    obtain ⟨p, hp, hS⟩ := h.parent prev hprev hne
    exact ⟨p, by rw [hp]; rfl, hS⟩
  · rw [hflags]
    exact ⟨prev, rfl, hprev⟩

omit [DecidableEq E] in
lemma View.Closed.follow {next : E} (hnext : S next) (htype : V.type next = .ok .symbolink)
    {k : ℕ} {idata : Idata E} (hk : k ≤ idata.symlinkDeep)
    (hnested : ∀ t i, V.symbolink next = .ok (some t) → idata.symlinkDeep < i.symlinkDeep →
      i.symlinkDeep ≤ 16 → Ensures P (nested t i) (Inside S i.symlinkDeep)) :
    Ensures P (V.follow nested next idata) (Inside S k) := by
  obtain ⟨target, htarget⟩ := h.symbolink next hnext htype
  rw [View.follow]
  split
  · exact .ok fun _ hnone => nomatch hnone
  have hmod : (idata.symlinkDeep + 1) % 2 ^ 16 = idata.symlinkDeep + 1 :=
    Nat.mod_eq_of_lt (by omega)
  rw [htarget, hmod, ok_bind, Option.elim_some]
  have hwalk := hnested target { idata with symlinkDeep := idata.symlinkDeep + 1 } htarget
    (Nat.lt_succ_self _) (by dsimp only; omega)
  have hwalk' := hwalk.mono (fun _ => id) (Q := Inside S k) fun w hw e he =>
    ⟨(hw e he).1, Nat.le_trans hk (Nat.le_trans (Nat.le_succ _) (hw e he).2)⟩
  refine hwalk'.bind fun w hw => hw.andThen ?_
  · intro e i he hki
    obtain ⟨count, hcount⟩ := h.linkCount e he
    rw [hcount]
    refine .ok fun x hx => ?_
    split at hx
    · cases hx
    · obtain rfl : e = x := some.inj hx
      exact ⟨he, hki⟩

lemma View.Closed.walkScan (hflags : flags.crossRoot = false) (last : Bool) {scan : Scan}
    {prev : E} (hprev : S prev) {k : ℕ} {idata : Idata E} (hk : k ≤ idata.symlinkDeep)
    (hshort : scan.entry.length < directoryMaximumPathSize)
    (hnested : ∀ e t i, S e → V.symbolink e = .ok (some t) → k < i.symlinkDeep →
      i.symlinkDeep ≤ 16 → Ensures P (nested t i) (Inside S i.symlinkDeep)) :
    Ensures P (Fs.walkScan V nested root flags last scan prev idata) (Inside S k) := by
  have hinside : ∀ e (i : Idata E), S e → k ≤ i.symlinkDeep → Inside S k (some e, i) := by
    intro e i he hi x hx
    exact some.inj hx ▸ ⟨he, hi⟩
  rw [Fs.walkScan, if_neg (by omega)]
  split
  · exact .ok (hinside _ _ hprev hk)
  split
  · obtain ⟨p, hp, hS⟩ := h.dotDot hflags hprev
    rw [hp]
    exact .ok (hinside _ _ hS hk)
  obtain ⟨c, hc, hcS⟩ := h.findChild prev scan.entry hprev
  rw [View.enter, hc]
  have hfound : Inside S k (c, ⟨some prev, idata.symlinkDeep, scan.point⟩) :=
    fun e he => ⟨hcS e he, hk⟩
  rw [ok_bind]
  refine hfound.andThen fun next i hnext hi => ?_
  obtain ⟨count, hcount⟩ := h.linkCount next hnext
  obtain ⟨type, htype⟩ := h.type next hnext
  rw [hcount, htype, ok_bind, ok_bind]
  split
  · exact .ok fun _ hnone => nomatch hnone
  split
  · exact .ok (hinside _ _ hnext hi)
  split
  · refine .ok fun x hx => ?_
    cases last with
    | false => cases hx
    | true => exact some.inj hx ▸ ⟨hnext, hi⟩
  next hlink _ =>
    rw [ne_eq, not_not] at hlink
    exact h.follow hnext (hlink ▸ htype) hi fun t i' ht hlt hle =>
      hnested next t i' hnext ht (by omega) hle

lemma View.Closed.walkScans (hflags : flags.crossRoot = false) {k : ℕ} {scans : List Scan}
    (hshort : ∀ scan ∈ scans, scan.entry.length < directoryMaximumPathSize)
    (hnested : ∀ e t i, S e → V.symbolink e = .ok (some t) → k < i.symlinkDeep →
      i.symlinkDeep ≤ 16 → Ensures P (nested t i) (Inside S i.symlinkDeep)) :
    ∀ {prev : E} {idata : Idata E}, S prev → k ≤ idata.symlinkDeep →
      Ensures P (Fs.walkScans V nested root flags scans prev idata) (Inside S k) := by
  induction scans with
  | nil =>
    intro prev idata hprev hk
    exact .ok fun e he => some.inj he ▸ ⟨hprev, hk⟩
  | cons scan rest ih =>
    intro prev idata hprev hk
    refine (h.walkScan hflags _ hprev hk (hshort scan (by simp)) hnested).bind
      fun w hw => hw.andThen fun e i he hi => ?_
    exact ih (fun scan' hmem => hshort scan' (by simp [hmem])) he hi

/-- **Where a walk can end.**  The entry that is returned is in the set, the walks inside each
other end, and the walk is not stopped. -/
theorem View.Closed.pathWalkUpTo {curDir : E} (hcur : S curDir) {n : ℕ} {name : Name}
    (hflags : flags.crossRoot = false) {idata : Idata E} {k : ℕ}
    (hk : flags.continueParse → k ≤ idata.symlinkDeep) (hk' : flags.continueParse = false → k = 0)
    (hn : 1 ≤ n) (hdeep : 17 ≤ n + k)
    (hname : Short name) (htargets : ∀ e t, S e → V.symbolink e = .ok (some t) → Short t) :
    Ensures P (Fs.pathWalkUpTo V root curDir n name flags idata) (Inside S k) := by
  induction n generalizing name flags idata k with
  | zero => omega
  | succ n ih =>
    cases name with
    | nil =>
      refine .ok fun e he => ⟨some.inj he ▸ hcur, ?_⟩
      cases hparse : flags.continueParse with
      | true => exact hk hparse
      | false => exact hk' hparse ▸ Nat.zero_le _
    | cons c path =>
      have hstart : S (if c = '/' then root else curDir) := by
        split
        · exact h.start
        · exact hcur
      refine (h.walkScans hflags hname ?_ hstart ?_).bind
        fun w hw => hw.andThen fun e i he hi => ?_
      · intro e t i he ht hlt hle
        refine ih ?_ (fun _ => Nat.le_refl _) ?_ (by omega) (by omega) (htargets e t he ht)
        · exact hflags
        · nofun
      · cases hparse : flags.continueParse with
        | true => exact hk hparse
        | false =>
          rw [hk' hparse]
          exact Nat.zero_le _
      · obtain ⟨type, htype⟩ := h.type e he
        rw [View.checkType, htype, ok_bind]
        split
        · exact .ok fun _ hnone => nomatch hnone
        · exact .ok fun x hx => some.inj hx ▸ ⟨he, hi⟩

end Closed

end Naos.Fs
