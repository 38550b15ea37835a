import Naos.Ipc.Kernel
import Naos.Ipc.Life

/-!
# Closing a server end

The requests of a protocol wait in one queue, and when the server goes away their callers
must hear of it.  `close_server_queue` marks the queue as closed, takes the requests out
under the lock and publishes an outcome for each of them afterwards.  It stops at a claimed
head, since a `receive_protocol` on another thread still reads that request.

That receiver may cancel its claim later, and the request is then back in a closed queue.
But a receiver has a handle of the server end, so the end outlives it; when the last handle
goes, the destructor of the end closes the queue once more.

The model follows one server end: who holds it, which operations on it are in progress and
what each of them has to do next.  `activeOperations` is not followed, as nothing reads it.
-/

namespace Naos.Ipc

open ProtocolState InvocationState BoundedQueue

open Capability Function Transition List Option

/-- What an operation on a server end has to do before anything else. -/
inductive Due where
  | nothing
  /-- `endpoint_acquired`, after the operation has given the end to a holder. -/
  | acquire (location : Location)
  /-- `endpoint_released`, after the operation has taken the end from a holder. -/
  | release (location : Location)
  /-- The load of `owners_` at the end of `endpoint_released`. -/
  | check
  | close
  deriving DecidableEq, Repr

structure EndOperation where
  holds : Bool := true
  due : Due := .nothing
  /-- The request that its `receive_protocol` has claimed. -/
  claim : Option InvocationRequest := none
  /-- What its `close_server_queue` has taken out and not completed yet. -/
  discarded : List InvocationRequest := []
  /-- `clear_queue_owner` was called for the first of them. -/
  cleared : Bool := false
  deriving DecidableEq

open EndOperation

namespace EndOperation

variable (o : EndOperation)

def free : Bool :=
  o.holds && decide (o.due = .nothing) && o.claim.isNone && o.discarded.isEmpty

def returned : Bool :=
  !o.holds && decide (o.due = .nothing) && o.claim.isNone && o.discarded.isEmpty

end EndOperation

/-- A server end of a protocol, and everything that happens around it. -/
structure ServerEnd where
  protocol : ProtocolState
  budget : ProtocolBudget := {}
  calls : ℕ → InvocationState
  holders : ℕ := 0
  operations : List EndOperation
  /-- History: the invocations whose requests `close_server_queue` has taken out. -/
  drained : List ℕ := []
  answered : List (ℕ × InvocationState) := []

inductive EndStep where
  /-- Give the end to a holder: `install_native`, `activate_native`, a record. -/
  | insert (location : Location)
  /-- The change of `owners_` in a capability hook. -/
  | hook
  | check
  | claim
  | cancelClaim
  /-- `commit_claim` or `abort_claim`. -/
  | commitClaim
  | violation
  /-- The locked part of `close_server_queue`. -/
  | close
  /-- `clear_queue_owner` of the next request that was taken out. -/
  | clear
  /-- `complete_not_delivered` of it. -/
  | complete
  | drop

inductive ServerAction where
  | enqueue (r : InvocationRequest)
  | removeQueued (invocation : ℕ)
  | clientAcquired (location : Location)
  | clientReleased (location : Location)
  | invocation (i : ℕ) (a : InvocationSection)
  | closeClient (i : ℕ)
  /-- `lookup_native` copies a handle into a new operation. -/
  | lookup
  | take (location : Location)
  | operate (k : ℕ) (a : EndStep)

namespace ServerEnd

variable (s : ServerEnd)

def references : ℕ := s.holders + s.operations.countP holds

def setCall (i : ℕ) (c : InvocationState) : ServerEnd :=
  { s with calls := update s.calls i c }

def setOperation (k : ℕ) (o : EndOperation) : ServerEnd :=
  { s with operations := s.operations.set k o }

/-- The locked part of `close_server_queue`, run by an operation. -/
def close (k : ℕ) (o : EndOperation) : ServerEnd :=
  let requests := s.protocol.closeServerQueue.2
  { s.setOperation k { o with due := .nothing, discarded := requests } with
    protocol := s.protocol.closeServerQueue.1
    budget := s.budget.releaseAll requests
    drained := s.drained ++ requests.map InvocationRequest.state }

/-- The handle of an operation goes out of scope; the last one runs the destructor. -/
def drop (k : ℕ) (o : EndOperation) : ServerEnd :=
  s.setOperation k { o with holds := false, due := if s.references = 1 then .close else .nothing }

/-- A step of the operation `o`, which has the number `k`. -/
def operate (k : ℕ) (o : EndOperation) : EndStep → Option ServerEnd
  | .insert location =>
    if o.free then
      some { s.setOperation k { o with due := .acquire location } with holders := s.holders + 1 }
    else none
  | .hook =>
    match o.holds, o.due with
    | true, .acquire location =>
      some { s.setOperation k { o with due := .nothing } with
        protocol := s.protocol.endpointAcquired .server location }
    | true, .release location =>
      some { s.setOperation k { o with due := .check } with
        protocol := s.protocol.released .server location }
    | _, _ => none
  | .check =>
    if o.holds = true ∧ o.due = .check then
      some (s.setOperation k
        { o with due := if s.protocol.owners .server = 0 then .close else .nothing })
    else none
  | .claim =>
    match o.free, s.protocol.claim with
    | true, .ok (r, p) => some { s.setOperation k { o with claim := some r } with protocol := p }
    | _, _ => none
  | .cancelClaim =>
    match o.claim with
    | some r =>
      some { s.setOperation k { o with claim := none } with
        protocol := s.protocol.cancelClaim r.state }
    | none => none
  | .commitClaim =>
    match o.claim with
    | some r =>
      some { s.setOperation k { o with claim := none } with
        protocol := (s.protocol.commitClaim r).2
        budget := if (s.protocol.commitClaim r).1 then
            s.budget.release r.bytes.length r.queuedResourceCount
          else s.budget }
    | none => none
  | .violation => if o.free then some (s.setOperation k { o with due := .close }) else none
  | .close =>
    match o.due, o.discarded with
    | .close, [] => some (s.close k o)
    | _, _ => none
  | .clear =>
    match o.discarded, o.cleared with
    | r :: _, false =>
      some ((s.setOperation k { o with cleared := true }).setCall r.state
        (s.calls r.state).clearQueueOwner)
    | _, _ => none
  | .complete =>
    match o.discarded, o.cleared with
    | r :: rest, true =>
      some { (s.setOperation k { o with discarded := rest, cleared := false }).setCall r.state
          ((s.calls r.state).completeNotDelivered .peerClosed).state with
        answered := (r.state, s.calls r.state) :: s.answered }
    | _, _ => none
  | .drop => if o.free then some (s.drop k o) else none

def step : ServerAction → Option ServerEnd
  | .enqueue r =>
    if s.protocol.refusal s.budget r = none then
      some { s with
        protocol := s.protocol.push r
        budget := (s.budget.reserve r.bytes.length (resourceCountOf r)).getD s.budget }
    else none
  | .removeQueued i =>
    (s.protocol.removeQueued i).map fun o =>
      { s with
        protocol := o.2
        budget := s.budget.release o.1.bytes.length o.1.queuedResourceCount }
  | .clientAcquired location =>
    some { s with protocol := s.protocol.endpointAcquired .client location }
  | .clientReleased location => some { s with protocol := s.protocol.released .client location }
  | .invocation i a => some (s.setCall i (a.run (s.calls i)).state)
  | .closeClient i => some (s.setCall i (s.calls i).closeClient.state)
  | .lookup =>
    if s.holders ≠ 0 then some { s with operations := s.operations ++ [{}] } else none
  | .take location =>
    if s.holders ≠ 0 then
      some { s with
        holders := s.holders - 1
        operations := s.operations ++ [{ due := .release location }] }
    else none
  | .operate k a => (s.operations[k]?).bind fun o => s.operate k o a

def Over : Prop := s.holders = 0 ∧ ∀ o ∈ s.operations, o.returned = true

instance : Decidable s.Over := inferInstanceAs (Decidable (_ ∧ _))

/-- The operation that creates the protocol has the only handle of the end. -/
def start (capacity maxBytes maxResources : ℕ) (calls : ℕ → InvocationState) : ServerEnd where
  protocol := { fifo := { capacity }, maxBytes, maxResources }
  calls
  operations := [{}]

end ServerEnd

/-- What a call has whose request was taken out of a closed queue, given how
`complete_not_delivered` has found it: it was not delivered because the peer has closed, or
it had an outcome before, or its client is gone. -/
def Told (found now : InvocationState) : Prop :=
  (now.Settled ∧ now.executionOutcome = .notDelivered ∧ now.outcomeReason = .peerClosed) ∨
    (found.Settled ∧ now.Settled ∧ now.outcome = found.outcome) ∨ now.clientClosed = true

/-! ## What stays of an invocation -/

/-- An outcome stays, and so does the end of the client. -/
structure Endures (s s' : InvocationState) : Prop where
  settled : s.Settled → s'.Settled ∧ s'.outcome = s.outcome
  closed : s.clientClosed = true → s'.clientClosed = true

namespace Endures

variable {s s' : InvocationState}

lemma of_edited (h : Edited s s') : Endures s s' := by
  cases h with
  | same | result => exact ⟨fun hs => ⟨hs, rfl⟩, id⟩
  | publish hopen =>
    simp only [publishable, Bool.and_eq_true, bne_iff_ne] at hopen
    exact ⟨fun hs => absurd hs (not_or.2 hopen.1), id⟩

/-- **Every section of an invocation keeps what is settled.** -/
theorem of_changed (h : Changed s s') : Endures s s' := by
  cases h with
  | edited cancelled alive h => exact ⟨(of_edited h).settled, (of_edited h).closed⟩
  | phase p h hp =>
    refine ⟨fun hs => ?_, id⟩
    rcases h with h | h <;> simp [InvocationState.Settled, h] at hs
  | owner owner => exact ⟨fun hs => ⟨hs, rfl⟩, id⟩
  | consume h => exact ⟨fun _ => ⟨.inr rfl, rfl⟩, id⟩

lemma closeClient (s : InvocationState) : Endures s s.closeClient.state :=
  ⟨fun hs => ⟨hs, rfl⟩, fun _ => rfl⟩

end Endures

lemma Told.endures {found now later : InvocationState} (h : Told found now)
    (hlater : Endures now later) : Told found later := by
  rcases h with ⟨hsettled, hexecution, hreason⟩ | ⟨hfound, hsettled, houtcome⟩ | hclosed
  · obtain ⟨hsettled', houtcome⟩ := hlater.settled hsettled
    simp only [outcome, Prod.mk.injEq] at houtcome
    exact .inl ⟨hsettled', houtcome.1.trans hexecution, houtcome.2.1.trans hreason⟩
  · obtain ⟨hsettled', houtcome'⟩ := hlater.settled hsettled
    exact .inr (.inl ⟨hfound, hsettled', houtcome'.trans houtcome⟩)
  · exact .inr (.inr (hlater.closed hclosed))

/-- `complete_not_delivered` tells a call that its peer has closed, if it tells it anything. -/
lemma told_completeNotDelivered (s : InvocationState) :
    Told s (s.completeNotDelivered .peerClosed).state := by
  have hvalid : validFailure .notDelivered .peerClosed = true := rfl
  rw [completeNotDelivered, completeFailure, if_pos hvalid, publishLockedNoWake]
  split
  next s' hpub =>
    obtain ⟨-, rfl⟩ := ite_some_none_eq_some.1 hpub
    exact .inl ⟨.inl rfl, rfl, rfl⟩
  rename_i hpub
  split at hpub
  · simp at hpub
  rename_i hopen
  simp only [publishable, Bool.and_eq_true, bne_iff_ne,
    Bool.not_eq_true', not_and, Bool.not_eq_false] at hopen
  by_cases hs : s.Settled
  · exact .inr (.inl ⟨hs, hs, rfl⟩)
  · obtain ⟨hready, hconsumed⟩ := not_or.1 hs
    exact .inr (.inr (hopen ⟨hready, hconsumed⟩))

/-! ## The queue -/

namespace ProtocolState

variable {p p' : ProtocolState} {b : ProtocolBudget} {r : InvocationRequest}

def Sealed (p : ProtocolState) : Prop := p.serverClosed = true ∧ p.fifo.items = []

lemma refusal_of_serverClosed (h : p.serverClosed = true) (b : ProtocolBudget)
    (r : InvocationRequest) : p.refusal b r ≠ none := by
  rw [refusal]
  split
  · simp
  · rw [if_pos (.inr h)]
    simp

/-- A change of the queue that leaves a claim alone and does not fill a sealed queue. -/
structure Spares (p p' : ProtocolState) : Prop where
  holdsClaim : ∀ i, p.holdsClaim i = true → p'.holdsClaim i = true
  claimed : p'.fifo.claimed = true → p.fifo.claimed = true
  isSealed : p.Sealed → p'.Sealed

lemma Spares.refl (p : ProtocolState) : Spares p p := ⟨fun _ h => h, id, id⟩

lemma Spares.of_eq (hfifo : p'.fifo = p.fifo) (hvalid : p'.valid = p.valid)
    (hclosed : p'.serverClosed = p.serverClosed) : Spares p p' where
  holdsClaim := fun i h => by
    rw [ProtocolState.holdsClaim, hfifo, hvalid]
    exact h
  claimed := fun h => hfifo ▸ h
  isSealed := fun h => ⟨hclosed.trans h.1, by rw [hfifo]; exact h.2⟩

variable {i : ℕ}

lemma holdsClaim_iff : p.holdsClaim i = true ↔
      p.valid = true ∧ p.fifo.claimed = true ∧ (p.fifo.items.head?.map (·.state)) = some i := by
  simp [holdsClaim, and_assoc]

lemma spares_push (h : p.refusal b r = none) : Spares p (p.push r) := by
  have hfifo : (p.push r).fifo.claimed = p.fifo.claimed ∧
      ∃ rest, (p.push r).fifo.items = p.fifo.items ++ rest := by
    rw [push]
    cases htry : p.fifo.tryPush { r with queuedResourceCount := resourceCountOf r } with
    | none => exact ⟨rfl, [], (append_nil _).symm⟩
    | some fifo =>
      rw [tryPush_eq_some htry, getD_some]
      exact ⟨rfl, _, rfl⟩
  obtain ⟨hclaimed, rest, hitems⟩ := hfifo
  refine ⟨fun i hi => ?_, fun hc => hclaimed ▸ hc, fun hsealed => ?_⟩
  · obtain ⟨hvalid, hc, hhead⟩ := holdsClaim_iff.1 hi
    refine holdsClaim_iff.2 ⟨hvalid, hclaimed.trans hc, ?_⟩
    rw [hitems, head?_append]
    cases hcase : p.fifo.items.head? with
    | none => simp [hcase] at hhead
    | some head => simpa [hcase] using hhead
  · exact absurd h (refusal_of_serverClosed hsealed.1 b r)

lemma spares_removeQueued (h : p.removeQueued i = some (r, p')) : Spares p p' := by
  rw [removeQueued] at h
  split at h
  · simp at h
  dsimp only at h
  split at h
  next hget hremove =>
    cases h
    rw [removeAt] at hremove
    split at hremove
    · simp at hremove
    rename_i hguard
    rw [not_or, not_and] at hguard
    cases hremove
    refine ⟨fun j hj => ?_, fun hc => hc, fun hsealed => ?_⟩
    · obtain ⟨hvalid, hc, hhead⟩ := holdsClaim_iff.1 hj
      refine holdsClaim_iff.2 ⟨hvalid, hc, ?_⟩
      have hne := hguard.2 hc
      cases hcase : p.fifo.items with
      | nil => simp [hcase] at hhead
      | cons head rest =>
        rw [hcase] at hne hhead
        obtain ⟨m, hm⟩ := Nat.exists_eq_succ_of_ne_zero hne
        rw [hm]
        simpa using hhead
    · simp [hsealed.2] at hget
  · simp at h

lemma spares_closeServerQueue (p : ProtocolState) : Spares p p.closeServerQueue.1 := by
  rw [closeServerQueue]
  split
  next hc =>
    exact ⟨fun i hi => holdsClaim_iff.2 (holdsClaim_iff.1 hi), fun _ => hc, fun h => ⟨rfl, h.2⟩⟩
  next hc =>
    refine ⟨fun i hi => ?_, fun h => h, fun _ => ⟨rfl, rfl⟩⟩
    exact absurd (holdsClaim_iff.1 hi).2.1 hc

lemma sealed_closeServerQueue (h : p.fifo.claimed = false) : p.closeServerQueue.1.Sealed := by
  rw [closeServerQueue, if_neg (Bool.eq_false_iff.1 h)]
  exact ⟨rfl, rfl⟩

lemma claim_spec (h : p.claim = .ok (r, p')) :
    p.fifo.claimed = false ∧ p'.holdsClaim r.state = true := by
  obtain ⟨hvalid, hfree, hhead, rfl⟩ := claim_eq_ok h
  exact ⟨hfree, holdsClaim_iff.2 ⟨hvalid, rfl, by rw [hhead]; rfl⟩⟩

lemma claimed_cancelClaim (h : p.holdsClaim i = true) : (p.cancelClaim i).fifo.claimed = false := by
  rw [cancelClaim, if_pos h]
  rfl

lemma claimed_commitClaim (h : p.holdsClaim r.state = true) :
    (p.commitClaim r).2.fifo.claimed = false := by
  obtain ⟨-, hc, hhead⟩ := holdsClaim_iff.1 h
  have hne : p.fifo.items ≠ [] := by
    intro hnil
    simp [hnil] at hhead
  rw [commitClaim, if_pos h]
  rw [BoundedQueue.commitClaim, if_pos ⟨hc, hne⟩]

end ProtocolState

/-! ## The invariant -/

section Lists

variable {α : Type*} {l : List α} {k : ℕ} {a b : α}

lemma exists_mem_set {P : α → Prop} (h : ∃ x ∈ l, P x) (hget : l[k]? = some a)
    (hab : P a → P b) : ∃ x ∈ l.set k b, P x := by
  obtain ⟨x, hx, hP⟩ := h
  obtain ⟨j, hj⟩ := mem_iff_getElem?.1 hx
  obtain ⟨hk, -⟩ := List.getElem?_eq_some_iff.1 hget
  by_cases hjk : k = j
  · subst hjk
    obtain rfl : a = x := some.inj (hget.symm.trans hj)
    exact ⟨b, mem_set hk b, hab hP⟩
  · refine ⟨x, mem_iff_getElem?.2 ⟨j, ?_⟩, hP⟩
    rw [List.getElem?_set_ne hjk]
    exact hj

lemma getElem?_set_cases {x : α} {j : ℕ} (h : (l.set k b)[j]? = some x) :
    (j = k ∧ x = b) ∨ (j ≠ k ∧ l[j]? = some x) := by
  rw [List.getElem?_set] at h
  split at h
  next hjk =>
    split at h
    · exact .inl ⟨hjk.symm, (some.inj h).symm⟩
    · simp at h
  next hjk => exact .inr ⟨fun heq => hjk heq.symm, h⟩

end Lists

namespace ServerEnd

/-- The claim on the head belongs to one operation, and that operation has a handle of the
end. -/
structure Claims (p : ProtocolState) (os : List EndOperation) : Prop where
  held : ∀ o ∈ os, ∀ r, o.claim = some r → o.holds = true ∧ p.holdsClaim r.state = true
  owned : p.fifo.claimed = true → ∃ o ∈ os, o.claim.isSome = true
  single : ∀ (j k : ℕ) (o o' : EndOperation), os[j]? = some o → os[k]? = some o' →
    o.claim.isSome = true → o'.claim.isSome = true → j = k

structure Inv (s : ServerEnd) : Prop where
  claims : Claims s.protocol s.operations
  last : s.references = 0 → (∃ o ∈ s.operations, o.due = .close) ∨ s.protocol.Sealed
  waiting : ∀ i ∈ s.drained, (∃ o ∈ s.operations, i ∈ o.discarded.map InvocationRequest.state) ∨
      ∃ found, (i, found) ∈ s.answered
  told : ∀ e ∈ s.answered, Told e.2 (s.calls e.1)

namespace Claims

variable {p p' : ProtocolState} {os : List EndOperation} {k : ℕ} {o : EndOperation}
  {r : InvocationRequest}

variable (h : Claims p os)
include h

lemma change (hp : p.Spares p') (hget : os[k]? = some o) (o' : EndOperation)
    (hclaim : o'.claim = o.claim) (hholds : o.claim.isSome = true → o'.holds = o.holds) :
    Claims p' (os.set k o') := by
  have hmem := mem_of_getElem? hget
  refine ⟨fun x hx r hr => ?_, fun hc => ?_, fun i j x y hx hy hxc hyc => ?_⟩
  · rcases mem_or_eq_of_mem_set hx with hx | rfl
    · exact ⟨(h.held x hx r hr).1, hp.holdsClaim _ (h.held x hx r hr).2⟩
    · rw [hclaim] at hr
      obtain ⟨hheld, hholdsClaim⟩ := h.held o hmem r hr
      exact ⟨(hholds (hr ▸ rfl)).trans hheld, hp.holdsClaim _ hholdsClaim⟩
  · exact exists_mem_set (h.owned (hp.claimed hc)) hget fun hsome => hclaim ▸ hsome
  · have hback : ∀ {i : ℕ} {x : EndOperation}, (os.set k o')[i]? = some x →
        x.claim.isSome = true → ∃ x', os[i]? = some x' ∧ x'.claim.isSome = true := by
      intro i x hx hxc
      rcases getElem?_set_cases hx with ⟨rfl, rfl⟩ | ⟨-, hx⟩
      · exact ⟨o, hget, hclaim ▸ hxc⟩
      · exact ⟨x, hx, hxc⟩
    obtain ⟨x', hx', hxc'⟩ := hback hx hxc
    obtain ⟨y', hy', hyc'⟩ := hback hy hyc
    exact h.single i j x' y' hx' hy' hxc' hyc'

lemma spares (hp : p.Spares p') : Claims p' os :=
  ⟨fun o ho r hr => ⟨(h.held o ho r hr).1, hp.holdsClaim _ (h.held o ho r hr).2⟩,
    fun hc => h.owned (hp.claimed hc), h.single⟩

lemma append (ho : o.claim = none) : Claims p (os ++ [o]) := by
  have hback : ∀ {i : ℕ} {x : EndOperation}, (os ++ [o])[i]? = some x →
      x.claim.isSome = true → os[i]? = some x := by
    intro i x hx hxc
    rw [List.getElem?_append] at hx
    split at hx
    · exact hx
    · have hmem := mem_of_getElem? hx
      rw [mem_singleton.1 hmem, ho] at hxc
      simp at hxc
  refine ⟨fun x hx r hr => ?_, fun hc => ?_, fun i j x y hx hy hxc hyc => ?_⟩
  · rcases mem_append.1 hx with hx | hx
    · exact h.held x hx r hr
    · rw [mem_singleton.1 hx, ho] at hr
      simp at hr
  · obtain ⟨x, hx, hsome⟩ := h.owned hc
    exact ⟨x, mem_append_left _ hx, hsome⟩
  · exact h.single i j x y (hback hx hxc) (hback hy hyc) hxc hyc

lemma none_of_not_claimed (hc : p.fifo.claimed = false) (ho : o ∈ os) : o.claim = none := by
  cases hclaim : o.claim with
  | none => rfl
  | some r =>
    have hheld := (h.held o ho r hclaim).2
    exact absurd (holdsClaim_iff.1 hheld).2.1 (Bool.eq_false_iff.1 hc)

lemma claim (hclaim : p.claim = .ok (r, p')) (hget : os[k]? = some o) (hholds : o.holds = true) :
    Claims p' (os.set k { o with claim := some r }) := by
  obtain ⟨hfree, hheld⟩ := claim_spec hclaim
  have hnone : ∀ {i : ℕ} {x : EndOperation},
      (os.set k { o with claim := some r })[i]? = some x → x.claim.isSome = true → i = k := by
    intro i x hx hxc
    rcases getElem?_set_cases hx with ⟨rfl, -⟩ | ⟨-, hx⟩
    · rfl
    · rw [h.none_of_not_claimed hfree (mem_of_getElem? hx)] at hxc
      simp at hxc
  obtain ⟨hk, -⟩ := List.getElem?_eq_some_iff.1 hget
  refine ⟨fun x hx r' hr' => ?_, fun _ => ⟨_, mem_set hk _, rfl⟩,
    fun i j x y hx hy hxc hyc => (hnone hx hxc).trans (hnone hy hyc).symm⟩
  rcases mem_or_eq_of_mem_set hx with hx | rfl
  · rw [h.none_of_not_claimed hfree hx] at hr'
    simp at hr'
  · obtain rfl : r = r' := some.inj hr'
    exact ⟨hholds, hheld⟩

lemma unclaim (hget : os[k]? = some o) (hclaim : o.claim = some r)
    (hc : p'.fifo.claimed = false) : Claims p' (os.set k { o with claim := none }) := by
  have hnone : ∀ {i : ℕ} {x : EndOperation},
      (os.set k { o with claim := none })[i]? = some x → x.claim = none := by
    intro i x hx
    rcases getElem?_set_cases hx with ⟨-, rfl⟩ | ⟨hne, hx⟩
    · rfl
    · cases hxc : x.claim with
      | none => rfl
      | some r' => exact absurd (h.single i k x o hx hget (hxc ▸ rfl) (hclaim ▸ rfl)) hne
  refine ⟨fun x hx r' hr' => ?_, fun hc' => absurd hc' (Bool.eq_false_iff.1 hc),
    fun i j x y hx _ hxc _ => ?_⟩
  · obtain ⟨i, hi⟩ := mem_iff_getElem?.1 hx
    rw [hnone hi] at hr'
    simp at hr'
  · rw [hnone hx] at hxc
    simp at hxc

end Claims

section Steps

variable {s s' : ServerEnd} {k : ℕ} {o o' : EndOperation}

lemma references_ne_zero (ho : o ∈ s.operations) (hholds : o.holds = true) : s.references ≠ 0 := by
  have hcount : 0 < s.operations.countP holds := countP_pos_iff.2 ⟨o, ho, hholds⟩
  rw [references]
  omega

/-- **Without a handle of the end there is no claim.** -/
theorem Inv.not_claimed (h : s.Inv) (href : s.references = 0) :
    s.protocol.fifo.claimed = false := by
  refine Bool.eq_false_iff.2 fun hc => ?_
  obtain ⟨o, ho, hsome⟩ := h.claims.owned hc
  obtain ⟨r, hr⟩ := isSome_iff_exists.1 hsome
  exact references_ne_zero ho (h.claims.held o ho r hr).1 href

lemma Inv.spares (h : s.Inv) {p : ProtocolState} (hp : s.protocol.Spares p)
    (b : ProtocolBudget) : { s with protocol := p, budget := b }.Inv where
  claims := h.claims.spares hp
  last := fun href => (h.last href).imp_right hp.isSealed
  waiting := h.waiting
  told := h.told

lemma Inv.setCall (h : s.Inv) {i : ℕ} {c : InvocationState} (hc : Endures (s.calls i) c) :
    (s.setCall i c).Inv where
  claims := h.claims
  last := h.last
  waiting := h.waiting
  told := fun e he => by
    rw [ServerEnd.setCall]
    dsimp only
    by_cases hi : e.1 = i
    · rw [hi, update_self]
      exact (hi ▸ h.told e he).endures hc
    · rw [update_of_ne hi]
      exact h.told e he

lemma Inv.begin (h : s.Inv) (hholds : o.holds = true) (hclaim : o.claim = none) (n : ℕ) :
    { s with holders := n, operations := s.operations ++ [o] }.Inv where
  claims := h.claims.append hclaim
  last := fun href =>
    absurd href (references_ne_zero (mem_append_right _ (mem_singleton.2 rfl)) hholds)
  waiting := fun i hi => (h.waiting i hi).imp_left fun ⟨x, hx, hi⟩ =>
    ⟨x, mem_append_left _ hx, hi⟩
  told := h.told

section

variable (h : s.Inv) (hget : s.operations[k]? = some o)
include h hget

lemma Inv.act (o' : EndOperation) (hholds : o'.holds = true)
    (hdiscarded : o'.discarded = o.discarded) {p : ProtocolState}
    (hclaims : Claims p (s.operations.set k o')) (b : ProtocolBudget) (n : ℕ) :
    { s.setOperation k o' with protocol := p, budget := b, holders := n }.Inv where
  claims := hclaims
  last := fun href => by
    obtain ⟨hk, -⟩ := List.getElem?_eq_some_iff.1 hget
    exact absurd href (references_ne_zero (mem_set hk o') hholds)
  waiting := fun i hi => (h.waiting i hi).imp_left fun hx =>
    exists_mem_set hx hget fun ho => hdiscarded ▸ ho
  told := h.told

omit h hget in
lemma references_setOperation (hget : s.operations[k]? = some o) (hholds : o'.holds = o.holds) :
    (s.setOperation k o').references = s.references := by
  obtain ⟨hk, hok⟩ := List.getElem?_eq_some_iff.1 hget
  have hpos : o.holds = true → 0 < s.operations.countP holds := fun ho =>
    countP_pos_iff.2 ⟨o, mem_of_getElem? hget, ho⟩
  rw [references, references, setOperation]
  dsimp only
  rw [countP_set hk, hok, hholds]
  split
  next ho =>
    have := hpos ho
    omega
  · omega

lemma Inv.close (hempty : o.discarded = []) : (s.close k o).Inv where
  claims := h.claims.change (spares_closeServerQueue _) hget _ rfl fun _ => rfl
  last := fun href => by
    have hsame : (s.close k o).references = s.references := references_setOperation hget rfl
    exact .inr (sealed_closeServerQueue (h.not_claimed (hsame ▸ href)))
  waiting := fun i hi => by
    obtain ⟨hk, -⟩ := List.getElem?_eq_some_iff.1 hget
    rcases mem_append.1 hi with hi | hi
    · refine (h.waiting i hi).imp_left fun hx => exists_mem_set hx hget fun ho => ?_
      rw [hempty] at ho
      simp at ho
    · exact .inl ⟨_, mem_set hk _, hi⟩
  told := h.told

lemma Inv.clear : (s.setOperation k { o with cleared := true }).Inv where
  claims := h.claims.change (.refl _) hget _ rfl fun _ => rfl
  last := fun href => by
    have hsame : (s.setOperation k { o with cleared := true }).references = s.references :=
      references_setOperation hget rfl
    exact (h.last (hsame ▸ href)).imp_left fun hx => exists_mem_set hx hget fun ho => ho
  waiting := fun i hi => (h.waiting i hi).imp_left fun hx => exists_mem_set hx hget fun ho => ho
  told := h.told

lemma Inv.complete {r : InvocationRequest} {rest : List InvocationRequest}
    (hdiscarded : o.discarded = r :: rest) :
    { (s.setOperation k { o with discarded := rest, cleared := false }).setCall r.state
        ((s.calls r.state).completeNotDelivered .peerClosed).state with
      answered := (r.state, s.calls r.state) :: s.answered }.Inv where
  claims := h.claims.change (.refl _) hget _ rfl fun _ => rfl
  last := fun href => by
    have hsame : (s.setOperation k { o with discarded := rest, cleared := false }).references =
        s.references := references_setOperation hget rfl
    exact (h.last (hsame ▸ href)).imp_left fun hx => exists_mem_set hx hget fun ho => ho
  waiting := fun i hi => by
    by_cases hir : i = r.state
    · subst hir
      exact .inr ⟨_, mem_cons_self⟩
    · rcases h.waiting i hi with hx | ⟨found, hfound⟩
      · refine .inl (exists_mem_set hx hget fun ho => ?_)
        rw [hdiscarded, map_cons, mem_cons] at ho
        exact ho.resolve_left hir
      · exact .inr ⟨found, mem_cons_of_mem _ hfound⟩
  told := fun e he => by
    rcases mem_cons.1 he with rfl | he
    · change Told _ (update s.calls r.state _ r.state)
      rw [update_self]
      exact told_completeNotDelivered _
    · have hcall : Endures (s.calls r.state)
          ((s.calls r.state).completeNotDelivered .peerClosed).state :=
        .of_edited (.completeFailure _ _ _ _)
      exact (h.setCall hcall).told e he

lemma Inv.drop (hholds : o.holds = true) (hclaim : o.claim = none) : (s.drop k o).Inv where
  claims := h.claims.change (.refl _) hget _ rfl fun hsome => by simp [hclaim] at hsome
  last := fun href => by
    obtain ⟨hk, hok⟩ := List.getElem?_eq_some_iff.1 hget
    have hpos : 0 < s.operations.countP holds :=
      countP_pos_iff.2 ⟨o, mem_of_getElem? hget, hholds⟩
    have hone : s.references = 1 := by
      rw [references, ServerEnd.drop, setOperation] at href
      rw [countP_set hk, hok, if_pos hholds] at href
      simp only [Bool.false_eq_true, if_false] at href
      rw [references]
      omega
    refine .inl ⟨_, mem_set hk _, ?_⟩
    dsimp only
    rw [if_pos hone]
  waiting := fun i hi => (h.waiting i hi).imp_left fun hx => exists_mem_set hx hget fun ho => ho
  told := h.told

omit h hget in
lemma free_iff : o.free = true ↔
    o.holds = true ∧ o.due = .nothing ∧ o.claim = none ∧ o.discarded = [] := by
  simp [free, and_assoc]

lemma inv_operate {a : EndStep} (hstep : s.operate k o a = some s') : s'.Inv := by
  have hmem := mem_of_getElem? hget
  cases a with rw [operate] at hstep
  | insert location =>
    obtain ⟨hfree, rfl⟩ := ite_some_none_eq_some.1 hstep
    exact h.act hget { o with due := .acquire location } (free_iff.1 hfree).1 rfl
      (h.claims.change (.refl _) hget _ rfl fun _ => rfl) _ _
  | hook =>
    split at hstep
    next location hholds _ =>
      cases hstep
      have hspares : s.protocol.Spares (s.protocol.endpointAcquired .server location) :=
        .of_eq rfl rfl rfl
      exact h.act hget { o with due := .nothing } hholds rfl
        (h.claims.change hspares hget _ rfl fun _ => rfl) _ _
    next location hholds _ =>
      cases hstep
      have hspares : s.protocol.Spares (s.protocol.released .server location) := .of_eq rfl rfl rfl
      exact h.act hget { o with due := .check } hholds rfl
        (h.claims.change hspares hget _ rfl fun _ => rfl) _ _
    · simp at hstep
  | check =>
    obtain ⟨hguard, rfl⟩ := ite_some_none_eq_some.1 hstep
    exact h.act hget { o with due := if s.protocol.owners .server = 0 then .close else .nothing }
      hguard.1 rfl (h.claims.change (.refl _) hget _ rfl fun _ => rfl) _ _
  | claim =>
    split at hstep
    next r p hfree hclaim =>
      cases hstep
      have hholds := (free_iff.1 hfree).1
      exact h.act hget { o with claim := some r } hholds rfl (h.claims.claim hclaim hget hholds) _ _
    · simp at hstep
  | cancelClaim =>
    split at hstep
    next r hclaim =>
      cases hstep
      obtain ⟨hholds, hheld⟩ := h.claims.held o hmem r hclaim
      exact h.act hget { o with claim := none } hholds rfl
        (h.claims.unclaim hget hclaim (claimed_cancelClaim hheld)) _ _
    · simp at hstep
  | commitClaim =>
    split at hstep
    next r hclaim =>
      cases hstep
      obtain ⟨hholds, hheld⟩ := h.claims.held o hmem r hclaim
      exact h.act hget { o with claim := none } hholds rfl
        (h.claims.unclaim hget hclaim (claimed_commitClaim hheld)) _ _
    · simp at hstep
  | violation =>
    obtain ⟨hfree, rfl⟩ := ite_some_none_eq_some.1 hstep
    exact h.act hget { o with due := .close } (free_iff.1 hfree).1 rfl
      (h.claims.change (.refl _) hget _ rfl fun _ => rfl) _ _
  | close =>
    split at hstep
    next hempty =>
      cases hstep
      exact h.close hget hempty
    · simp at hstep
  | clear =>
    split at hstep
    next r rest _ _ =>
      cases hstep
      exact (h.clear hget).setCall (.of_changed (.owner none))
    · simp at hstep
  | complete =>
    split at hstep
    next r rest hdiscarded _ =>
      cases hstep
      exact h.complete hget hdiscarded
    · simp at hstep
  | drop =>
    obtain ⟨hfree, rfl⟩ := ite_some_none_eq_some.1 hstep
    obtain ⟨hholds, -, hclaim, -⟩ := free_iff.1 hfree
    exact h.drop hget hholds hclaim

end

variable {a : ServerAction}

/-- **Every step keeps the invariant.** -/
theorem inv_step (h : s.Inv) (hstep : s.step a = some s') : s'.Inv := by
  cases a with
  | enqueue r =>
    obtain ⟨hadmitted, hstep⟩ := ite_none_right_eq_some.1 hstep
    cases hstep
    exact h.spares (spares_push hadmitted) _
  | removeQueued i =>
    obtain ⟨⟨r, p⟩, hremoved, rfl⟩ := map_eq_some_iff.1 hstep
    exact h.spares (spares_removeQueued hremoved) _
  | clientAcquired location =>
    cases hstep
    exact h.spares (p := s.protocol.endpointAcquired .client location) (.of_eq rfl rfl rfl) _
  | clientReleased location =>
    cases hstep
    exact h.spares (p := s.protocol.released .client location) (.of_eq rfl rfl rfl) _
  | invocation i a =>
    cases hstep
    exact h.setCall (.of_changed (.run _ a))
  | closeClient i =>
    cases hstep
    exact h.setCall (.closeClient _)
  | lookup | take location =>
    obtain rfl := some.inj (ite_none_right_eq_some.1 hstep).2
    exact h.begin rfl rfl _
  | operate k a =>
    obtain ⟨o, hget, hoperate⟩ := bind_eq_some_iff.1 hstep
    exact inv_operate h hget hoperate

lemma inv_start (capacity maxBytes maxResources : ℕ) (calls : ℕ → InvocationState) :
    (start capacity maxBytes maxResources calls).Inv where
  claims := by
    refine ⟨fun o ho r hr => ?_, fun hc => ?_, fun i j x y hx _ hxc _ => ?_⟩
    · rw [mem_singleton.1 ho] at hr
      simp at hr
    · simp [start] at hc
    · rw [mem_singleton.1 (mem_of_getElem? hx)] at hxc
      simp at hxc
  last := fun href => absurd href (references_ne_zero (mem_singleton.2 rfl) rfl)
  waiting := by simp [start]
  told := by simp [start]

/-! ## An end that is over -/

lemma returned_iff : o.returned = true ↔
    o.holds = false ∧ o.due = .nothing ∧ o.claim = none ∧ o.discarded = [] := by
  simp [returned, and_assoc]

lemma Inv.isSealed (h : s.Inv) (hover : s.Over) : s.protocol.Sealed := by
  have hcount : s.operations.countP holds = 0 := by
    refine countP_eq_zero.2 fun o ho => ?_
    simp [(returned_iff.1 (hover.2 o ho)).1]
  have href : s.references = 0 := by rw [references, hover.1, hcount]
  rcases h.last href with ⟨o, ho, hdue⟩ | hsealed
  · rw [(returned_iff.1 (hover.2 o ho)).2.1] at hdue
    exact absurd hdue (by decide)
  · exact hsealed

lemma operate_returned (ho : o.returned = true) (a : EndStep) : s.operate k o a = none := by
  obtain ⟨hholds, hdue, hclaim, hdiscarded⟩ := returned_iff.1 ho
  have hfree : o.free = false := by simp [free, hholds]
  cases a <;> simp [operate, hfree, hholds, hdue, hclaim, hdiscarded]

lemma over_step (h : s.Over) (hstep : s.step a = some s') : s'.Over := by
  cases a with
  | enqueue r =>
    obtain rfl := some.inj (ite_none_right_eq_some.1 hstep).2
    exact h
  | removeQueued i =>
    obtain ⟨o, -, rfl⟩ := map_eq_some_iff.1 hstep
    exact h
  | clientAcquired location | clientReleased location | invocation i a | closeClient i =>
    cases hstep
    exact h
  | lookup | take location => simp [step, h.1] at hstep
  | operate k a =>
    obtain ⟨o, hget, hoperate⟩ := bind_eq_some_iff.1 hstep
    rw [operate_returned (h.2 o (mem_of_getElem? hget))] at hoperate
    simp at hoperate

/-- **Closing a server end settles every call.**  Once nobody holds the end and every
operation on it has returned, its queue is empty, every call whose request was taken out of
it has been told, and no request is taken ever after. -/
theorem closed_of_exec {capacity maxBytes maxResources : ℕ} {calls : ℕ → InvocationState}
    {actions : List ServerAction}
    (hrun : exec step (start capacity maxBytes maxResources calls) actions = some s)
    (hover : s.Over) :
    s.protocol.fifo.items = [] ∧
      (∀ i ∈ s.drained, ∃ found, (i, found) ∈ s.answered ∧ Told found (s.calls i)) ∧
      ∀ later t, exec step s later = some t → ∀ b r, t.protocol.refusal b r ≠ none := by
  have hinv : s.Inv := exec_invariant (fun _ _ _ hs hstep => inv_step hs hstep)
    (inv_start capacity maxBytes maxResources calls) hrun
  refine ⟨(hinv.isSealed hover).2, fun i hi => ?_, fun later t hlater b r => ?_⟩
  · rcases hinv.waiting i hi with ⟨o, ho, hi⟩ | ⟨found, hfound⟩
    · rw [(returned_iff.1 (hover.2 o ho)).2.2.2] at hi
      simp at hi
    · exact ⟨found, hfound, hinv.told _ hfound⟩
  · have hlast : t.Inv ∧ t.Over := exec_invariant (I := fun u => u.Inv ∧ u.Over)
      (fun _ _ _ hs hstep => ⟨inv_step hs.1 hstep, over_step hs.2 hstep⟩) ⟨hinv, hover⟩ hlater
    exact refusal_of_serverClosed (hlast.1.isSealed hlast.2).1 b r

end Steps

/-- Two calls wait.  A receiver has claimed the first of them when the only handle of the end
is closed; it finds its buffer too small, cancels the claim and returns. -/
def closedWhileClaimed : List ServerAction :=
  [.operate 0 (.insert .tableRoot), .operate 0 .hook, .operate 0 .drop,
    .enqueue { state := 7 }, .enqueue { state := 8 },
    .lookup, .operate 1 .claim,
    .take .tableRoot, .operate 2 .hook, .operate 2 .check, .operate 2 .close, .operate 2 .drop,
    .operate 1 .cancelClaim, .operate 1 .drop,
    -- The destructor of the end, on the thread of the receiver.
    .operate 1 .close, .operate 1 .clear, .operate 1 .complete, .operate 1 .clear,
    .operate 1 .complete]

/-- Both callers are told that their peer has closed. -/
theorem closed_closedWhileClaimed :
    ∃ s, exec step (start 4 16 4 fun _ => {}) closedWhileClaimed = some s ∧
      s.Over ∧ s.drained = [7, 8] ∧ (s.calls 7).outcomeReason = .peerClosed ∧
      s.protocol.fifo.items = [] ∧ ∀ b r, s.protocol.refusal b r ≠ none := by
  have hends : (exec step (start 4 16 4 fun _ => {}) closedWhileClaimed).map
      (fun s => (decide s.Over, s.drained, (s.calls 7).outcomeReason)) =
        some (true, [7, 8], .peerClosed) := by
    decide +kernel
  obtain ⟨s, hrun, heq⟩ := map_eq_some_iff.1 hends
  simp only [Prod.mk.injEq, decide_eq_true_eq] at heq
  obtain ⟨hempty, -, hrefused⟩ := closed_of_exec hrun heq.1
  exact ⟨s, hrun, heq.1, heq.2.1, heq.2.2, hempty, hrefused [] s rfl⟩

end ServerEnd

end Naos.Ipc
