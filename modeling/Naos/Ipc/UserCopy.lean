import Naos.Capability.Basic
import Mathlib

/-!
# Copies from user memory

A system call reads its frame and its buffers from the caller's address space.  Every
read is checked against the user range first and either succeeds or faults; which
addresses fault is up to the caller's mappings, so user memory is a parameter.
-/

namespace Naos.Ipc

def maximumUserAddr : ℕ := 0x7FFFFFFFFFFF

def isUserSpacePointer (address : ℕ) : Bool :=
  decide (address ≠ 0) && decide (address ≤ maximumUserAddr)

def isUserSpaceRange (address size : ℕ) : Bool :=
  if size = 0 then decide (address = 0) || isUserSpacePointer address
  else isUserSpacePointer address && decide (size - 1 ≤ maximumUserAddr - address)

def validRange (address size : ℕ) : Bool :=
  if size = 0 then decide (address = 0) else isUserSpaceRange address size

def rangesOverlap (first firstSize second secondSize : ℕ) : Bool :=
  if firstSize = 0 ∨ secondSize = 0 then false
  else if !validRange first firstSize || !validRange second secondSize then true
  else if first < second then decide (second - first < firstSize)
  else decide (first - second < secondSize)

/-- `usercopy::copy_from` into a byte buffer, where `byteAt` answers `none` for an
address that faults. -/
def copyFrom (byteAt : ℕ → Option (BitVec 8)) (source size : ℕ) : Except Status (List (BitVec 8)) :=
  if size = 0 then .ok []
  else if !isUserSpaceRange source size then .error .fault
  else
    match (List.range size).mapM fun i => byteAt (source + i) with
    | none => .error .fault
    | some bytes => .ok bytes

/-- `usercopy::copy_from` into a structure of the given size, where `read` answers
`none` for an address that faults. -/
def copyStruct {α : Type} (read : ℕ → Option α) (size source : ℕ) : Except Status α :=
  if !isUserSpaceRange source size then .error .fault
  else
    match read source with
    | none => .error .fault
    | some value => .ok value

/-- `usercopy::copy_versioned`: the size prefix is read and checked before the frame. -/
def copyVersioned {α : Type} (prefixAt : ℕ → Option ℕ) (read : ℕ → Option α)
    (size source : ℕ) : Except Status α :=
  if source = 0 then .error .fault
  else
    match copyStruct prefixAt 4 source with
    | .error status => .error status
    | .ok declared =>
      if declared < size then .error .invalidArgument else copyStruct read size source

end Naos.Ipc
