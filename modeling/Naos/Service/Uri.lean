import Mathlib
import Naos.Service.Directory

/-!
# The grammar of service names

`valid_uri` reads a name once, with three facts about the segment it is in.  It is to refuse the
segments `.` and `..`, and knows the second by its length: so it refuses every segment of two
characters.
-/

namespace Naos.Service

open List

/-- A segment of letters, digits and `-`, `_`, `.`, `~` that is neither `.` nor `..`. -/
structure IsSegment (seg : Uri) : Prop where
  bytes : ∀ b ∈ seg, uriByte b = true
  value : seg ≠ []
  dot : seg ≠ [0x2E]
  dots : seg ≠ [0x2E, 0x2E]

/-- `naos://` and one or more segments with single slashes between them. -/
structure WellFormed (uri : Uri) : Prop where
  length : 8 ≤ uri.length ∧ uri.length ≤ 255
  segments : ∃ segs, segs ≠ [] ∧ (∀ seg ∈ segs, IsSegment seg) ∧
    uri = uriScheme ++ intercalate [0x2F] segs

/-- What the scan knows after the bytes `seen` of a segment. -/
def segmentOf (seen : Uri) : Segment where
  hasValue := seen ≠ []
  isDot := seen.all (· == 0x2E) && decide (seen.length ≤ 2)
  size := seen.length

lemma closes_segmentOf (seen : Uri) :
    (segmentOf seen).closes = true ↔ seen ≠ [] ∧ seen ≠ [0x2E] ∧ seen.length ≠ 2 := by
  rcases seen with - | ⟨a, - | ⟨b, seen⟩⟩
  · simp [segmentOf, Segment.closes]
  · simp [segmentOf, Segment.closes]
  · simp only [segmentOf, Segment.closes]
    grind

lemma slash_notMem {seg : Uri} (h : ∀ b ∈ seg, uriByte b = true) : 0x2F ∉ seg :=
  fun hmem => absurd (h _ hmem) (by decide)

lemma modifyHead_nil_append (segs : List Uri) : segs.modifyHead ([] ++ ·) = segs := by
  cases segs <;> rfl

/-- **The scan** accepts what follows the bytes `seen` if every segment closes. -/
lemma scanUri_iff (seen rest : Uri) :
    (∀ b ∈ seen, uriByte b = true) ∧ scanUri (segmentOf seen) rest = true ↔
      ∀ seg ∈ (rest.splitOn 0x2F).modifyHead (seen ++ ·),
        (∀ b ∈ seg, uriByte b = true) ∧ (segmentOf seg).closes = true := by
  induction rest generalizing seen with
  | nil => simp [scanUri, splitOn]
  | cons b rest ih =>
    rw [splitOn, splitOnP_cons_eq_if_modifyHead]
    by_cases hb : b = 0x2F
    · subst hb
      rw [if_pos (beq_self_eq_true _), modifyHead_cons, forall_mem_cons, append_nil, scanUri,
        if_pos rfl, Bool.and_eq_true, ← and_assoc]
      have hrest := ih []
      rw [modifyHead_nil_append] at hrest
      exact and_congr_right' ((and_iff_right (by simp)).symm.trans hrest)
    · have hnext : segmentOf (seen ++ [b]) =
          { hasValue := true
            isDot := (segmentOf seen).isDot && decide ((segmentOf seen).size + 1 ≤ 2) && b == 0x2E
            size := (segmentOf seen).size + 1 } := by
        rcases seen with - | ⟨a, - | ⟨c, seen⟩⟩ <;> simp [segmentOf]
      have hseen : (seen ++ ·) ∘ cons b = (seen ++ [b] ++ ·) := by
        funext seg
        simp
      rw [if_neg (by simpa using hb), modifyHead_modifyHead, hseen, scanUri, if_neg hb, ← hnext,
        Bool.and_eq_true, ← and_assoc]
      refine Iff.trans (and_congr_left' ?_) (ih (seen ++ [b]))
      simp [or_imp, forall_and]

/-- The segments of a name: what stands between the slashes behind `naos://`. -/
def segments (uri : Uri) : List Uri := (uri.drop uriScheme.length).splitOn 0x2F

lemma segments_wellFormed {segs : List Uri} (hne : segs ≠ [])
    (hall : ∀ seg ∈ segs, IsSegment seg) :
    segments (uriScheme ++ intercalate [0x2F] segs) = segs := by
  rw [segments, drop_left]
  exact splitOn_intercalate 0x2F (fun seg hseg => slash_notMem (hall seg hseg).bytes) hne

/-- **What the check accepts**: the names of the grammar without a segment of two characters. -/
lemma validUri_eq_true (uri : Uri) :
    validUri uri = true ↔ WellFormed uri ∧ ∀ seg ∈ segments uri, seg.length ≠ 2 := by
  simp only [validUri, Bool.and_eq_true, decide_eq_true_eq, beq_iff_eq]
  constructor
  · rintro ⟨⟨⟨hshort, hlong⟩, htake⟩, hscan⟩
    have hall := (scanUri_iff [] _).1 ⟨by simp, hscan⟩
    rw [modifyHead_nil_append] at hall
    refine ⟨⟨⟨hshort, hlong⟩, segments uri, splitOn_ne_nil 0x2F _, ?_, ?_⟩, ?_⟩
    · intro seg hseg
      obtain ⟨hbytes, hcloses⟩ := hall seg hseg
      obtain ⟨hvalue, hdot, hlen⟩ := (closes_segmentOf seg).1 hcloses
      exact ⟨hbytes, hvalue, hdot, fun hdots => hlen (hdots ▸ rfl)⟩
    · rw [segments, intercalate_splitOn]
      conv_lhs => rw [← take_append_drop uriScheme.length uri, htake]
    · exact fun seg hseg => ((closes_segmentOf seg).1 (hall seg hseg).2).2.2
  · rintro ⟨⟨⟨hshort, hlong⟩, segs, hne, hall, rfl⟩, htwo⟩
    have hsplit := segments_wellFormed hne hall
    rw [hsplit] at htwo
    refine ⟨⟨⟨hshort, hlong⟩, take_left⟩, ((scanUri_iff [] _).2 ?_).2⟩
    rw [modifyHead_nil_append, ← segments, hsplit]
    intro seg hseg
    have hgood := hall seg hseg
    exact ⟨hgood.bytes, (closes_segmentOf seg).2 ⟨hgood.value, hgood.dot, htwo seg hseg⟩⟩

/-- **The check judges a name by the grammar** exactly when the name is not one of the grammar
with a segment of two characters. -/
theorem validUri_iff_wellFormed (uri : Uri) :
    (validUri uri = true ↔ WellFormed uri) ↔
      ¬ (WellFormed uri ∧ ∃ seg ∈ segments uri, seg.length = 2) := by
  rw [validUri_eq_true, and_iff_left_iff_imp, not_and, not_exists]
  exact imp_congr_right fun _ => forall_congr' fun _ => by rw [not_and]

/-- **`naos://ab` is refused.** -/
theorem not_validUri_two : WellFormed (uriScheme ++ [0x61, 0x62]) ∧
    validUri (uriScheme ++ [0x61, 0x62]) = false := by
  refine ⟨⟨by decide, [[0x61, 0x62]], by simp, ?_, rfl⟩, by decide⟩
  intro seg hseg
  obtain rfl := mem_singleton.1 hseg
  exact ⟨by decide, by decide, by decide, by decide⟩

end Naos.Service
