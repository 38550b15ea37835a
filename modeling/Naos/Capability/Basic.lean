import Mathlib

/-!
# Capabilities: the data

A process names kernel objects by handles.  A handle is a key of the process's
resource table, and the entry under it carries the object together with metadata:
how the object is bound, which protocol scope it belongs to, and the rights the
holder has.  The objects themselves are identified here by their kind and an
identifier; the state behind them lives in the modules of `Naos.Ipc`.
-/

namespace Naos

inductive Status where
  | ok
  | invalidHandle
  | wrongBinding
  | wrongScope
  | accessDenied
  | invalidArgument
  | invalidMessage
  | bufferTooSmall
  | wouldBlock
  | waitTimedOut
  | resourceExhausted
  | fault
  | objectRevoked
  | peerClosed
  | alreadyConsumed
  | notSupported
  | ioError
  deriving DecidableEq, Repr, Inhabited

namespace Capability

/-- `na_handle_t`; zero is `NA_HANDLE_INVALID`. -/
abbrev Handle := ℕ

def maxPerProcess : ℕ := 4096

/-- `NA_CHANNEL_MAX_RESOURCES`, the largest batch of handles one message may carry. -/
def maxResources : ℕ := 64

/-- `na_meta_rights_t` and the other 64-bit masks. -/
abbrev Mask := BitVec 64

def rightDuplicate : Mask := 1

def rightTransfer : Mask := 2

def rightWait : Mask := 4

def rightInspect : Mask := 8

def has (rights right : Mask) : Bool := rights &&& right != 0

/-- Every bit of `rights` is a bit of `held`: the source's `(rights & ~held) == 0`. -/
def within (rights held : Mask) : Bool := rights &&& ~~~held == 0

inductive Binding where
  | none
  | rawChannelEnd
  | clientEnd
  | serverEnd
  | kernelView
  | invocation
  | responder
  | memoryObject
  | sharedRing
  deriving DecidableEq, Repr, Inhabited

/-- A protocol scope.  `unset` is the value zero; the numbers of the two terminal
scopes come from a generated header, and the code only compares with them. -/
inductive Scope where
  | unset
  | terminalMaster
  | terminalSlave
  | other (value : ℕ)
  deriving DecidableEq, Repr, Inhabited

/-- The side of a raw channel, `0` or `1`. -/
abbrev Side := Fin 2

instance neZeroTwo : NeZero (2 : ℕ) := ⟨by decide⟩

/-- `1 - side`. -/
def peer (side : Side) : Side := 1 - side

inductive Role where
  | client
  | server
  deriving DecidableEq, Repr, Inhabited

/-- The object kinds that keep the default capability hooks of `kobject`. -/
inductive PlainType where
  | file
  | semaphore
  | protocolDescriptor
  | directory
  | memoryObject
  | sharedRing
  | process
  | serviceDirectory
  | inputEventSource
  | terminalIdentity
  | terminalJobControl
  | terminalDriverFactory
  | consoleFrontend
  deriving DecidableEq, Repr, Inhabited

/-- The identity of a kernel object.  A channel has one endpoint object per side, a
protocol one per role, and an invocation one object for the caller and one for the
responder. -/
inductive KObject where
  | rawChannelEnd (state : ℕ) (side : Side)
  | protocolEndpoint (state : ℕ) (role : Role)
  | invocation (state : ℕ)
  | responder (state : ℕ)
  | terminalDriverControl (id : ℕ)
  | plain (type : PlainType) (id : ℕ)
  deriving DecidableEq, Repr

def KObject.capabilityIsUnique : KObject → Bool
  | .rawChannelEnd _ _ | .protocolEndpoint _ _ | .invocation _ | .responder _
  | .terminalDriverControl _ => true
  | .plain _ _ => false

inductive EntryState where
  | reserved
  | active
  | restricting
  deriving DecidableEq, Repr, Inhabited

inductive Location where
  | tableRoot
  | inTransit
  deriving DecidableEq, Repr, Inhabited

structure Metadata where
  binding : Binding := .none
  protocolUuid : BitVec 128 := 0
  scope : Scope := .unset
  revision : ℕ := 0
  features : Mask := 0
  metaRights : Mask := rightTransfer ||| rightWait
  protocolRights : Mask := 0
  deriving DecidableEq, Repr, Inhabited

structure Entry where
  object : Option KObject := .none
  generation : ℕ := 0
  state : EntryState := .reserved
  info : Metadata := {}
  deriving DecidableEq, Repr

/-- The virtual calls a table or a transferred resource makes on an object when the
object changes its place. -/
inductive Hook where
  | acquire (object : KObject) (location : Location)
  | release (object : KObject) (location : Location)
  | handoff (object : KObject) (source target : Location)
  deriving DecidableEq, Repr

/-- `na_handle_restriction_t`.  A field counts only where its flag is set. -/
structure Restriction where
  structSize : ℕ := 48
  flags : BitVec 32 := 0
  scope : Scope := .unset
  revision : ℕ := 0
  features : Mask := 0
  metaRights : Mask := 0
  protocolRights : Mask := 0
  deriving DecidableEq, Repr

def Restriction.size : ℕ := 48

inductive RestrictionFlag where
  | scope
  | revision
  | features
  | metaRights
  | protocolRights
  deriving DecidableEq, Repr

/-- `NA_RESTRICTION_*`. -/
def RestrictionFlag.bit : RestrictionFlag → BitVec 32
  | .scope => 1
  | .revision => 2
  | .features => 4
  | .metaRights => 8
  | .protocolRights => 16

def Restriction.knownFlags : BitVec 32 := 31

def Restriction.sets (r : Restriction) (f : RestrictionFlag) : Bool := r.flags &&& f.bit != 0

/-- `NA_RESOURCE_MOVE`, `NA_RESOURCE_DUPLICATE`, or a value that is neither. -/
inductive Operation where
  | move
  | duplicate
  | unknown
  deriving DecidableEq, Repr, Inhabited

structure Disposition where
  handle : Handle
  operation : Operation
  flags : ℕ := 0
  rights : Mask := 0
  scope : Scope := .unset
  deriving DecidableEq, Repr

end Capability

end Naos
