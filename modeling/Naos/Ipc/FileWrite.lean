import Mathlib
import Naos.Ipc.Send

/-!
# File writes

The view of a file decodes a write call to a size and a string of bytes, two fields that the
caller fills in.  The vectored calls compare them.  The plain ones hand the file a pointer to
the string together with the size field, so the file reads what follows the string in the
kernel's memory.  A failed write reports the error number as the count.
-/

namespace Naos.Ipc

/-- The six methods of the write family. -/
inductive WriteMethod where
  | streamWrite
  | fileWrite
  | filePwrite
  | streamWritev
  | fileWritev
  | filePwritev
  deriving DecidableEq, Repr

def WriteMethod.vectored (m : WriteMethod) : Bool :=
  m == .streamWritev || m == .fileWritev || m == .filePwritev

def WriteMethod.positional (m : WriteMethod) : Bool := m == .filePwrite || m == .filePwritev

/-- A decoded request; the plain methods have no layout, and only the positional ones an
offset. -/
structure WriteRequest where
  size : ℕ
  data : List (BitVec 8)
  flags : BitVec 64 := 0
  offset : ℤ := 0
  lengths : List ℕ := []
  segmentCount : ℕ := 0

/-- `valid_iov_layout`; `total` is its accumulator. -/
def validIovLayout (size : ℕ) : List ℕ → ℕ → Bool
  | [], total => total == size && decide (size ≤ maxMessageBytes)
  | n :: rest, total =>
    decide (n ≤ maxMessageBytes) && decide (total ≤ maxMessageBytes - n) &&
      validIovLayout size rest (total + n)

/-- The call of `file.write` or `file.pwrite`.  A byte that is read behind the string is
`none`. -/
structure FileCall where
  offset : Option ℤ
  bytes : List (Option (BitVec 8))
  noBlock : Bool

/-- What a write leaves: the call of the file, and the count and the error of the reply.  A
refused layout has neither. -/
structure WriteOutcome where
  call : Option FileCall := none
  count : Option ℕ := none
  protocolError : ℤ := 0

def fileCall (m : WriteMethod) (r : WriteRequest) : FileCall where
  offset := if m.positional then some r.offset else none
  bytes := (List.range r.size).map (r.data[·]?)
  noBlock := r.flags &&& 1 != 0

/-- The vectored methods compare the layout with the size and the string. -/
def WriteRequest.Refused (m : WriteMethod) (r : WriteRequest) : Prop :=
  m.vectored ∧ (r.lengths.length < r.segmentCount ∨
    validIovLayout r.size (r.lengths.take r.segmentCount) 0 = false ∨ r.data.length ≠ r.size)

instance (m : WriteMethod) (r : WriteRequest) : Decidable (r.Refused m) := by
  unfold WriteRequest.Refused; infer_instance

def publishWrite (m : WriteMethod) (r : WriteRequest) (file : FileCall → ℤ) : WriteOutcome :=
  if r.Refused m then {}
  else
    let result := file (fileCall m r)
    { call := some (fileCall m r)
      count := some result.natAbs
      protocolError := min result 0 }

/-- The file gets bytes of the string only, and the count is at most its length. -/
structure OwnBytes (data : List (BitVec 8)) (o : WriteOutcome) : Prop where
  bytes : ∀ call ∈ o.call, ∀ b ∈ call.bytes, b.isSome = true
  count : ∀ n ∈ o.count, n ≤ data.length

/-- A call has bytes of the string only when its size is at most the length of the string. -/
lemma isSome_fileCall (m : WriteMethod) (r : WriteRequest) :
    (∀ b ∈ (fileCall m r).bytes, b.isSome = true) ↔ r.size ≤ r.data.length := by
  simp only [fileCall, List.mem_map, List.mem_range, forall_exists_index, and_imp,
    forall_apply_eq_imp_iff₂, Option.isSome_iff_exists, List.getElem?_eq_some_iff]
  constructor
  · intro h
    by_contra hlt
    obtain ⟨_, hlength, -⟩ := h r.data.length (by omega)
    exact lt_irrefl _ hlength
  · exact fun h i hi => ⟨_, hi.trans_le h, rfl⟩

/-- **Writes use the bytes they were sent** exactly when the layout is refused, or the size is
at most the length of the string and so is the number of an error of the file.  The file
writes no more than it is given. -/
theorem ownBytes_iff (m : WriteMethod) (r : WriteRequest) (file : FileCall → ℤ)
    (hfile : ∀ call, file call ≤ call.bytes.length) :
    OwnBytes r.data (publishWrite m r file) ↔
      r.Refused m ∨ r.size ≤ r.data.length ∧ -file (fileCall m r) ≤ r.data.length := by
  rw [publishWrite]
  split_ifs with hrefused
  · exact iff_of_true ⟨by simp, by simp⟩ (.inl hrefused)
  have hresult : file (fileCall m r) ≤ r.size := by simpa [fileCall] using hfile (fileCall m r)
  simp only [hrefused, false_or]
  constructor
  · rintro ⟨hbytes, hcount⟩
    refine ⟨(isSome_fileCall m r).1 (hbytes _ rfl), ?_⟩
    have := hcount _ rfl
    omega
  · rintro ⟨hsize, herror⟩
    constructor
    · rintro _ ⟨⟩
      exact (isSome_fileCall m r).2 hsize
    · rintro _ ⟨⟩
      omega

def obliging (call : FileCall) : ℤ := call.bytes.length

/-- A vectored write of three bytes in two pieces. -/
theorem ownBytes_twoPieces : OwnBytes [0x41, 0x42, 0x43] (publishWrite .filePwritev
    { size := 3, data := [0x41, 0x42, 0x43], lengths := [1, 2], segmentCount := 2 } obliging) :=
  (ownBytes_iff .filePwritev
    { size := 3, data := [0x41, 0x42, 0x43], lengths := [1, 2], segmentCount := 2 } obliging
    fun _ => le_rfl).2 (.inr (by decide))

/-- One byte is sent, and the file gets two. -/
theorem not_ownBytes_oversized :
    ¬ OwnBytes [0x41] (publishWrite .fileWrite { size := 2, data := [0x41] } obliging) :=
  fun h => absurd (h.count 2 (by decide)) (by decide)

end Naos.Ipc
