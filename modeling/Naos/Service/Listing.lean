import Mathlib
import Naos.Service.Directory

/-!
# Listings

`list_services` and the list call of a directory return whole records, page by page, and the
cursor of the next page; `fill` is the loop of both.  The list call counts the `next` and the
`count` of its response against the size of the page: a page of the size of a record holds no
record, and its caller takes it for the end.

Whether the generated encoders have room for a page is not modelled.
-/

namespace Naos.Service

open Naos.Ipc List

/-! ## Pages -/

section Pages

variable {α β : Type*} (limit : ℕ) (record : α → Option (List β))

/-- The records from index `i` on that fit, and the cursor after the last of them.  `used` is
the size of the page so far. -/
def fill : List α → ℕ → ℕ → ℕ → ℕ × List (List β)
  | [], _, _, next => (next, [])
  | x :: xs, i, used, next =>
    match record x with
    | none => fill xs (i + 1) used next
    | some r =>
      if limit - used < r.length then (next, [])
      else
        let page := fill xs (i + 1) (used + r.length) (i + 1)
        (page.1, r :: page.2)

/-- Follows the cursor until a page is empty; `none` is an error, or no end after `fuel`
pages. -/
def walk (fetch : ℕ → Option (ℕ × List β)) : ℕ → ℕ → Option (List β)
  | 0, _ => none
  | fuel + 1, cursor =>
    match fetch cursor with
    | none => none
    | some (_, []) => some []
    | some (next, r :: rs) => (walk fetch fuel next).map (r :: rs ++ ·)

variable {record} {all xs : List α} {limit i used next : ℕ}

/-- What is left after a page is what its cursor leads to.  Between `next` and `i` nothing has
a record. -/
lemma fill_next (limit used : ℕ) (hxs : all.drop i = xs) (hnext : next ≤ all.length)
    (hgap : (all.drop next).filterMap record = xs.filterMap record) :
    (fill limit record xs i used next).1 ≤ all.length ∧
      xs.filterMap record = (fill limit record xs i used next).2 ++
        (all.drop (fill limit record xs i used next).1).filterMap record := by
  induction xs generalizing i used next with
  | nil => exact ⟨hnext, hgap.symm⟩
  | cons x xs ih =>
    have htail : all.drop (i + 1) = xs := by simpa using congrArg tail hxs
    have hlt : i + 1 ≤ all.length := by
      have := congrArg length hxs
      simp at this
      omega
    rw [fill]
    cases hr : record x with
    | none =>
      rw [filterMap_cons_none hr] at hgap ⊢
      exact ih used htail hnext hgap
    | some r =>
      dsimp only
      split_ifs
      · exact ⟨hnext, hgap.symm⟩
      · have hrest := ih (used + r.length) htail hlt (by rw [htail])
        refine ⟨hrest.1, ?_⟩
        rw [filterMap_cons_some hr, cons_append, ← hrest.2]

lemma fill_eq_nil (i next : ℕ) (hroom : ∀ r ∈ xs.filterMap record, r.length ≤ limit - used)
    (hpage : (fill limit record xs i used next).2 = []) : xs.filterMap record = [] := by
  induction xs generalizing i with
  | nil => rfl
  | cons x xs ih =>
    rw [fill] at hpage
    cases hr : record x with
    | none =>
      rw [filterMap_cons_none hr] at hroom ⊢
      exact ih (i + 1) hroom (by simpa [hr] using hpage)
    | some r =>
      have := hroom r (by simp [filterMap_cons_some hr])
      simp [hr, not_lt.2 this] at hpage

lemma walk_fill (limit used : ℕ) {fetch : ℕ → Option (ℕ × List (List β))}
    (hroom : ∀ r ∈ all.filterMap record, r.length ≤ limit - used)
    (hfetch : ∀ c ≤ all.length, fetch c = some (fill limit record (all.drop c) c used c))
    {fuel cursor : ℕ} (hcursor : cursor ≤ all.length)
    (hfuel : ((all.drop cursor).filterMap record).length < fuel) :
    walk fetch fuel cursor = some ((all.drop cursor).filterMap record) := by
  induction fuel generalizing cursor with
  | zero => omega
  | succ fuel ih =>
    have hnext := fill_next limit used rfl hcursor (rfl : (all.drop cursor).filterMap record = _)
    have hnil := fill_eq_nil cursor cursor
      fun r hr => hroom r (((drop_sublist cursor all).filterMap record).subset hr)
    rw [walk, hfetch cursor hcursor]
    rcases hpage : fill limit record (all.drop cursor) cursor used cursor with ⟨next, _ | ⟨r, rs⟩⟩
    · rw [hpage] at hnil
      simp [hnil rfl]
    · rw [hpage] at hnext
      dsimp only at hnext ⊢
      rw [hnext.2] at hfuel ⊢
      simp only [length_append, length_cons] at hfuel
      rw [ih hnext.1 (by omega), Option.map_some]

end Pages

/-! ## The two calls -/

/-- `list_services`; the call that publishes it checks the size of the page once more. -/
def Directory.listServices (d : Directory) (requested : ℕ) (memory : Bool) (offset : ℕ) :
    Except Errno (ℕ × List Uri) :=
  if maxMessageBytes < requested then .error .einval
  else if !memory then .error .enomem
  else if d.entries.length < offset then .error .einval
  else .ok (fill requested (fun e : Entry => some (e.uri ++ [0])) (d.entries.drop offset) offset
    0 offset)

/-- A child that has an inode: the index and the type of the inode, and the name. -/
structure Child where
  index : BitVec 64
  type : BitVec 32
  name : Option (List (BitVec 8))

/-- `append_u64`, `append_u32`. -/
def append (n : ℕ) {w : ℕ} (value : BitVec w) : List (BitVec 8) :=
  (range n).map fun i => (value >>> (i * 8)).setWidth 8

/-- The record of a child; there is none for a child without an inode or a name. -/
def childRecord : Option Child → Option (List (BitVec 8))
  | none => none
  | some c => c.name.map fun name =>
    append 8 c.index ++ append 4 c.type ++ append 4 (BitVec.ofNat 32 (name.length + 1)) ++
      (name ++ [0])

/-- `max_bytes` of the list call. -/
def pageBytes (requested : ℕ) : ℕ := if requested = 0 then maxMessageBytes else requested

/-- The list call of a directory.  The response begins with `next` and `count`. -/
def listDirectory (children : List (Option Child)) (requested offset : ℕ) :
    Option (ℕ × List (List (BitVec 8))) :=
  if maxMessageBytes < pageBytes requested then none
  else some (fill (pageBytes requested) childRecord (children.drop offset) offset 16 offset)

/-- A child named `a` has a record of eighteen bytes. -/
def oneChild : List (Option Child) := [none, some ⟨7, 1, some [0x61]⟩]

/-- Five services with names of one letter. -/
def fiveServices : Directory where
  entries := [0x61, 0x62, 0x63, 0x64, 0x65].map fun c => ⟨uriScheme ++ [c], none, {}, false, 1, 0⟩

/-- Three children with names, and two without a record between them. -/
def threeChildren : List (Option Child) :=
  [some ⟨7, 1, some [0x61]⟩, none, some ⟨8, 2, some [0x62, 0x62]⟩, some ⟨9, 1, none⟩,
    some ⟨10, 1, some [0x63]⟩]

end Naos.Service
