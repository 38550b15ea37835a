import Naos.Ipc.Kernel
import Naos.Ipc.Quotas

/-!
# What the queues and the results of the protocols hold

The requests that wait at the servers and the results that wait for their clients share three
global counters.  A request reserves its amounts when it is enqueued and whatever takes it
out of the queue gives them back: the end of a receive, a cancellation, the closing of the
server, or the destructor of the protocol.  A call that has a result reserves the largest
result it may have, before anything else happens, and gives that back when the result is
consumed, when the client closes its handle, or in the destructor of the invocation,
whichever comes first.

As with the raw channels, each access to a counter is a step.

A request holds a reference to its invocation, so an invocation is destroyed only when no
queue has a request of it.
-/

namespace Naos.Ipc

open Capability Function Transition List Option BoundedQueue InvocationState

/-! ## Amounts -/

inductive Holder where
  | server (p : ℕ)
  | invocation (i : ℕ)
  deriving DecidableEq

def InvocationRequest.cost (r : InvocationRequest) : Quantity → ℕ :=
  charge r.bytes.length r.queuedResourceCount

def InvocationState.resultCost (s : InvocationState) : Quantity → ℕ :=
  charge s.maxResponseBytes s.maxResponseResources

inductive Purpose where
  | request (r : InvocationRequest)
  | result

/-- The result of an invocation is of no use any more: it was consumed, or the client is gone. -/
def InvocationState.settled (s : InvocationState) : Bool := s.phase == .consumed || s.clientClosed

/-! ## The servers and the invocations -/

/-- All servers and invocations.  `dying` has those whose destructor runs. -/
structure ProtocolPool where
  servers : ℕ → ProtocolState
  invocations : ℕ → InvocationState := fun _ => {}
  live : List Holder := []
  dying : List Holder := []
  counter : Quantity → BitVec 64 := fun _ => 0
  tasks : Holder → Option (Quota.Task Quantity Purpose) := fun _ => none
  born : List ℕ := []
  /-- The invocations that have got a result budget, and those that have given it back. -/
  admitted : List ℕ := []
  released : List ℕ := []

inductive ProtocolAction where
  | createServer (p maxMessages maxBytes maxResources : ℕ)
  | endpointAcquired (p : ℕ) (role : Role) (location : Location)
  /-- The counters of `endpoint_released`. -/
  | endpointReleased (p : ℕ) (role : Role) (location : Location)
  /-- The checks of `enqueue`. -/
  | submit (p : ℕ) (r : InvocationRequest)
  | advance (h : Holder)
  | claim (p : ℕ)
  | cancelClaim (p i : ℕ)
  /-- `commit_claim`, `abort_claim` -/
  | commitClaim (p : ℕ)
  /-- `remove_queued`, in a cancellation or when a deadline expires. -/
  | removeQueued (p i : ℕ)
  /-- The first line of `close_server_queue`, and one round of its loop. -/
  | close (p : ℕ)
  | drain (p : ℕ)
  /-- A new invocation.  Unless the call is one way, `reserve_result_budget` follows before
  anybody else knows of it. -/
  | createInvocation (i : ℕ) (deadline : Option ℕ) (maxBytes maxResources : ℕ) (oneway : Bool)
  | act (i : ℕ) (a : InvocationSection)
  | closeClient (i : ℕ)
  | destroy (h : Holder)
  | bury (h : Holder)

namespace ProtocolPool

variable (p : ProtocolPool)

def setServer (n : ℕ) (s : ProtocolState) : ProtocolPool :=
  { p with servers := update p.servers n s }

def setInvocation (i : ℕ) (s : InvocationState) : ProtocolPool :=
  { p with invocations := update p.invocations i s }

def setTask (h : Holder) (t : Option (Quota.Task Quantity Purpose)) : ProtocolPool :=
  { p with tasks := update p.tasks h t }

def unlocked (h : Holder) : Bool := decide (h ∈ p.live) && (p.tasks h).isNone

/-- The checks of `enqueue` before the reservation. -/
def admits (s : ProtocolState) (r : InvocationRequest) : Bool :=
  s.valid && decide (r.bytes.length ≤ s.maxBytes) &&
    decide (r.resources.length ≤ s.maxResources) && decide (s.owners .server ≠ 0) &&
    !s.serverClosed && decide (ProtocolState.resourceCountOf r ≤ s.maxResources) &&
    !s.fifo.full && decide (s.queuedBytes ≤ s.maxBytes - r.bytes.length) &&
    decide (s.queuedResources ≤ s.maxResources - ProtocolState.resourceCountOf r)

def takeOut (n : ℕ) (r : InvocationRequest) (s : ProtocolState) : ProtocolPool :=
  (p.setServer n s).setTask (.server n) (some (.releasing r.cost quantities))

/-- A section of an invocation has ended.  If it had a result budget and has none now, the
section is in `release_result_budget_locked`. -/
def finish (i : ℕ) (s : InvocationState) : ProtocolPool :=
  if (p.invocations i).resultBudgetReserved && !s.resultBudgetReserved then
    { (p.setInvocation i s).setTask (.invocation i)
        (some (.releasing (p.invocations i).resultCost quantities)) with
      released := i :: p.released }
  else p.setInvocation i s

/-- A new `invocation_state`; zero asks for the largest response. -/
def newInvocation (deadline : Option ℕ) (maxBytes maxResources : ℕ) : InvocationState where
  operationDeadline := deadline
  maxResponseBytes := if maxBytes = 0 then 65536 else maxBytes
  maxResponseResources := if maxResources = 0 then 64 else maxResources

def complete (h : Holder) (amount : Quantity → ℕ) : Purpose → ProtocolPool
  | .request r =>
    match h with
    | .server n =>
      match (p.servers n).fifo.tryPush
          { r with queuedResourceCount := ProtocolState.resourceCountOf r } with
      | none => p.setTask h (Quota.Task.giveBack amount quantities)
      | some _ => (p.setServer n ((p.servers n).push r)).setTask h none
    | .invocation _ => p
  | .result =>
    match h with
    | .server _ => p
    | .invocation i =>
      { (p.setInvocation i { p.invocations i with resultBudgetReserved := true }).setTask h
          none with
        admitted := i :: p.admitted }

/-- The head leaves the queue in a round of `close_server_queue`. -/
def drained (s : ProtocolState) : Option (InvocationRequest × ProtocolState) :=
  match s.fifo.items, s.fifo.claimFront with
  | r :: _, some fifo => some (r, { s.uncount r with fifo := fifo.commitClaim })
  | _, _ => none

def requests (n : ℕ) : List InvocationRequest :=
  (p.servers n).fifo.items ++
    match p.tasks (.server n) with
    | some (.reserving _ _ _ (.request r)) => [r]
    | _ => []

def referenced (i : ℕ) : Bool :=
  (p.live ++ p.dying).any fun h =>
    match h with
    | .server n => (p.requests n).any fun r => r.state == i
    | .invocation _ => false

def buryNext : Holder → ProtocolPool
  | .server n =>
    match (p.servers n).fifo.items with
    | r :: rest =>
      p.takeOut n r { p.servers n with fifo := { (p.servers n).fifo with items := rest } }
    | [] => { p with dying := p.dying.erase (.server n) }
  | .invocation i =>
    if (p.invocations i).resultBudgetReserved then
      p.finish i { p.invocations i with resultBudgetReserved := false }
    else { p with dying := p.dying.erase (.invocation i) }

/-- The destructor may run.  A thread that has claimed a request has a reference to the
server, and a request has one to its invocation. -/
def mayDie : Holder → Bool
  | .server n => !(p.servers n).fifo.claimed
  | .invocation i => !p.referenced i

def step : ProtocolAction → Option ProtocolPool
  | .createServer n maxMessages maxBytes maxResources =>
    if .server n ∈ p.live ∨ .server n ∈ p.dying then none
    else
      some
        { p with
          servers := update p.servers n
            { fifo := { capacity := maxMessages }, maxBytes, maxResources }
          live := .server n :: p.live }
  | .endpointAcquired n role l =>
    some (p.setServer n ((p.servers n).endpointAcquired role l))
  | .endpointReleased n role l => some (p.setServer n ((p.servers n).released role l))
  | .submit n r =>
    if p.unlocked (.server n) && decide (.invocation r.state ∈ p.live) then
      if admits (p.servers n) r then
        some (p.setTask (.server n)
          (some (.reserving (charge r.bytes.length (ProtocolState.resourceCountOf r)) []
            quantities (.request r))))
      else some p
    else none
  | .advance h =>
    match p.tasks h with
    | none => none
    | some (.reserving amount _ [] goal) => some (p.complete h amount goal)
    | some t =>
      let o := t.next globalLimit p.counter
      some ({ p with counter := o.1 }.setTask h o.2)
  | .claim n =>
    if p.unlocked (.server n) then
      (p.servers n).claim.toOption.map fun o => p.setServer n o.2
    else none
  | .cancelClaim n i =>
    if p.unlocked (.server n) then some (p.setServer n ((p.servers n).cancelClaim i)) else none
  | .commitClaim n =>
    if p.unlocked (.server n) then
      (p.servers n).fifo.items.head?.bind fun r =>
        if (p.servers n).holdsClaim r.state then
          some (p.takeOut n r ((p.servers n).commitClaim r).2)
        else none
    else none
  | .removeQueued n i =>
    if p.unlocked (.server n) then
      ((p.servers n).removeQueued i).map fun o => p.takeOut n o.1 o.2
    else none
  | .close n =>
    if p.unlocked (.server n) then
      some (p.setServer n { p.servers n with serverClosed := true })
    else none
  | .drain n =>
    if p.unlocked (.server n) then (drained (p.servers n)).map fun o => p.takeOut n o.1 o.2
    else none
  | .createInvocation i deadline maxBytes maxResources oneway =>
    if i ∈ p.born then none
    else
      let s := newInvocation deadline maxBytes maxResources
      let made :=
        { p.setInvocation i s with live := .invocation i :: p.live, born := i :: p.born }
      if oneway then some made
      else
        some (made.setTask (.invocation i) (some (.reserving s.resultCost [] quantities .result)))
  | .act i a =>
    if p.unlocked (.invocation i) then some (p.finish i (a.run (p.invocations i)).state)
    else none
  | .closeClient i =>
    if p.unlocked (.invocation i) then some (p.finish i (p.invocations i).closeClient.state)
    else none
  | .destroy h =>
    if p.unlocked h && p.mayDie h then
      some { p with live := p.live.erase h, dying := h :: p.dying }
    else none
  | .bury h => if h ∈ p.dying ∧ (p.tasks h).isNone then some (p.buryNext h) else none

def Idle : Prop := (∀ h, p.tasks h = none) ∧ p.dying = []

def requestCosts (rs : List InvocationRequest) (q : Quantity) : ℕ :=
  (rs.map fun r => r.cost q).sum

def Holds (i : ℕ) : Prop :=
  .invocation i ∈ p.live ++ p.dying ∧ (p.invocations i).resultBudgetReserved = true

/-- The result of an invocation was admitted, and is still to be consumed. -/
def Unconsumed (i : ℕ) : Prop := i ∈ p.admitted ∧ (p.invocations i).settled = false

instance (i : ℕ) : Decidable (p.Holds i) := inferInstanceAs (Decidable (_ ∧ _))

instance (i : ℕ) : Decidable (p.Unconsumed i) := inferInstanceAs (Decidable (_ ∧ _))

def waiting (q : Quantity) : Holder → ℕ
  | .server n => requestCosts (p.servers n).fifo.items q
  | .invocation i => if p.Unconsumed i then (p.invocations i).resultCost q else 0

/-- **The accounts are right.** -/
structure Accounted : Prop where
  totals : ∀ n, .server n ∈ p.live →
    (p.servers n).queuedBytes = ((p.servers n).fifo.items.map (·.bytes.length)).sum ∧
      (p.servers n).queuedResources = ((p.servers n).fifo.items.map (·.queuedResourceCount)).sum
  once : ∀ i, p.released.count i ≤ 1 ∧ (i ∈ p.released → i ∈ p.admitted)
  back : ∀ i ∈ p.admitted, (p.released.count i = 1 ↔ ¬p.Holds i)
  /-- The global counters are within their limits, and a release never takes more than there
  is. -/
  limits : ∀ q, (p.counter q).toNat ≤ globalLimit q
  covered : ∀ h amount q held, p.tasks h = some (.releasing amount (q :: held)) →
    amount q ≤ (p.counter q).toNat
  /-- With no operation in progress the global counters are the sums over all requests in the
  queues and all results that are still to be consumed. -/
  global : p.Idle → ∀ q, (p.counter q).toNat = (p.live.map (p.waiting q)).sum
  zero : p.Idle → (∀ i, .invocation i ∉ p.live) → ∀ q, p.counter q = 0

/-! ## The invariant -/

structure Fits (s : ProtocolState) : Prop where
  bytes : s.queuedBytes = (s.fifo.items.map (·.bytes.length)).sum
  resources : s.queuedResources = (s.fifo.items.map (·.queuedResourceCount)).sum

/-- What a holder has of a counter, apart from what is done under its lock. -/
def own (q : Quantity) : Holder → ℕ
  | .server n => requestCosts (p.servers n).fifo.items q
  | .invocation i =>
    if (p.invocations i).resultBudgetReserved then (p.invocations i).resultCost q else 0

def weight (h : Holder) (q : Quantity) : ℕ := p.own q h + Quota.Task.weight (p.tasks h) q

def Fitting (h : Holder) (amount : Quantity → ℕ) : Purpose → Prop
  | .request r =>
    (∃ n, h = .server n) ∧ .invocation r.state ∈ p.live ∧
      amount = charge r.bytes.length (ProtocolState.resourceCountOf r)
  | .result =>
    ∃ i, h = .invocation i ∧ amount = (p.invocations i).resultCost ∧
      (p.invocations i).resultBudgetReserved = false ∧ (p.invocations i).settled = false ∧
      i ∉ p.admitted

def Prepared (h : Holder) : Option (Quota.Task Quantity Purpose) → Prop
  | some (.reserving amount held todo goal) =>
    h ∈ p.live ∧ p.Fitting h amount goal ∧ ∀ q, held.count q + todo.count q = 1
  | _ => True

structure Books : Prop where
  nodup : (p.live ++ p.dying).Nodup
  idle : ∀ h, h ∉ p.live ++ p.dying → p.tasks h = none
  prepared : ∀ h, p.Prepared h (p.tasks h)
  balanced : Quota.Balanced globalLimit p.counter (p.live ++ p.dying) p.weight

structure Queues : Prop where
  fits : ∀ n, .server n ∈ p.live → Fits (p.servers n)
  alive : ∀ n, .server n ∈ p.live ++ p.dying →
    ∀ r ∈ (p.servers n).fifo.items, .invocation r.state ∈ p.live

structure Results : Prop where
  conserved : ∀ i, p.released.count i + (if p.Holds i then 1 else 0) = p.admitted.count i
  admitted : ∀ i, p.admitted.count i ≤ 1
  born : ∀ i, i ∈ p.admitted ∨ .invocation i ∈ p.live ++ p.dying → i ∈ p.born
  reserved : ∀ i, .invocation i ∈ p.live →
    ((p.invocations i).resultBudgetReserved = true ↔ p.Unconsumed i)

structure Inv : Prop where
  books : p.Books
  queues : p.Queues
  results : p.Results

section Accounts

variable {p}

lemma Inv.counter_of_idle (h : p.Inv) (hidle : p.Idle) (q : Quantity) :
    (p.counter q).toNat = (p.live.map (p.waiting q)).sum := by
  have heq := h.books.balanced.eq q
  rw [hidle.2, append_nil] at heq
  rw [heq, Quota.total]
  congr 1
  refine map_congr_left fun k hk => ?_
  rw [weight, hidle.1 k, Quota.Task.weight_none, Nat.add_zero]
  cases k with
  | server n => rfl
  | invocation i =>
    have hreserved := h.results.reserved i hk
    by_cases hunconsumed : p.Unconsumed i
    · rw [own, waiting, if_pos (hreserved.2 hunconsumed), if_pos hunconsumed]
    · rw [own, waiting, if_neg fun hflag => hunconsumed (hreserved.1 hflag), if_neg hunconsumed]

lemma Inv.waiting_eq_zero (h : p.Inv) (hnone : ∀ i, .invocation i ∉ p.live) (q : Quantity)
    {k : Holder} (hk : k ∈ p.live) : p.waiting q k = 0 := by
  cases k with
  | server n =>
    have hempty : (p.servers n).fifo.items = [] := by
      refine eq_nil_iff_forall_not_mem.2 fun r hr => ?_
      exact hnone r.state (h.queues.alive n (mem_append_left _ hk) r hr)
    rw [waiting, hempty]
    rfl
  | invocation i => exact absurd hk (hnone i)

end Accounts

lemma Inv.accounted (h : p.Inv) : p.Accounted where
  totals := fun n hn => ⟨(h.queues.fits n hn).bytes, (h.queues.fits n hn).resources⟩
  once := by
    intro i
    have hconserved := h.results.conserved i
    have hadmitted := h.results.admitted i
    refine ⟨by omega, fun hmem => ?_⟩
    have hpos := count_pos_iff.2 hmem
    exact count_pos_iff.1 (by omega)
  back := by
    intro i hi
    have hconserved := h.results.conserved i
    have hadmitted := h.results.admitted i
    have hpos := count_pos_iff.2 hi
    by_cases hholds : p.Holds i
    · rw [if_pos hholds] at hconserved
      exact ⟨fun _ => by omega, fun hno => absurd hholds hno⟩
    · rw [if_neg hholds] at hconserved
      exact ⟨fun _ => hholds, fun _ => by omega⟩
  limits := fun q => (h.books.balanced.eq q).trans_le (h.books.balanced.le q)
  covered := by
    intro k amount q held htask
    have hmem : k ∈ p.live ++ p.dying := by
      by_contra hnot
      rw [h.books.idle k hnot] at htask
      cases htask
    have hpart : p.weight k q ≤ Quota.total (p.live ++ p.dying) p.weight q :=
      single_le_sum (by simp) _ (List.mem_map.2 ⟨k, hmem, rfl⟩)
    have hamount : amount q ≤ p.weight k q := by
      rw [weight, htask]
      simp only [Quota.Task.weight, count_cons_self, Nat.succ_mul]
      omega
    rw [h.books.balanced.eq q]
    exact hamount.trans hpart
  global := fun hidle q => h.counter_of_idle hidle q
  zero := by
    intro hidle hnone q
    have hzero : (p.live.map (p.waiting q)).sum = 0 := by
      refine sum_eq_zero fun n hn => ?_
      obtain ⟨k, hk, rfl⟩ := List.mem_map.1 hn
      exact h.waiting_eq_zero hnone q hk
    have hcounter := (h.counter_of_idle hidle q).trans hzero
    exact BitVec.eq_of_toNat_eq hcounter

/-! ## Taking a request out -/

structure Pops (s : ProtocolState) (r : InvocationRequest) (s' : ProtocolState) : Prop where
  fits : Fits s → Fits s'
  costs : ∀ q, requestCosts s.fifo.items q = requestCosts s'.fifo.items q + r.cost q
  mem : ∀ r' ∈ s'.fifo.items, r' ∈ s.fifo.items

variable {k : ℕ} {r : InvocationRequest} {s s' : ProtocolState}

lemma requestCosts_eraseIdx {rs : List InvocationRequest} (h : rs[k]? = some r) (q : Quantity) :
    requestCosts rs q = requestCosts (rs.eraseIdx k) q + r.cost q :=
  (Counter.sum_map_eraseIdx (fun r => InvocationRequest.cost r q) h).symm

lemma Pops.of_eraseIdx (hget : s.fifo.items[k]? = some r)
    (hitems : s'.fifo.items = s.fifo.items.eraseIdx k)
    (hbytes : s'.queuedBytes = (s.uncount r).queuedBytes)
    (hresources : s'.queuedResources = (s.uncount r).queuedResources) : Pops s r s' where
  fits := by
    intro hfits
    have hsumBytes := Counter.sum_map_eraseIdx (fun r : InvocationRequest => r.bytes.length) hget
    have hsumResources :=
      Counter.sum_map_eraseIdx (fun r : InvocationRequest => r.queuedResourceCount) hget
    constructor
    · rw [hbytes, ProtocolState.uncount, hitems]
      rw [hfits.bytes, ← hsumBytes, Counter.add_sub_cancel]
    · rw [hresources, ProtocolState.uncount, hitems]
      rw [hfits.resources, ← hsumResources, Counter.add_sub_cancel]
  costs := fun q => by rw [hitems, requestCosts_eraseIdx hget]
  mem := fun r' hr' => mem_of_mem_eraseIdx (hitems ▸ hr')

lemma pops_commitClaim (hhead : s.fifo.items.head? = some r)
    (hholds : s.holdsClaim r.state = true) :
    Pops s r (s.commitClaim r).2 := by
  have hclaimed : s.fifo.claimed = true := by
    simp only [ProtocolState.holdsClaim, Bool.and_eq_true] at hholds
    exact hholds.1.2
  obtain ⟨rest, hitems⟩ : ∃ rest, s.fifo.items = r :: rest := by
    cases hcase : s.fifo.items with
    | nil => simp [hcase] at hhead
    | cons r' rest => exact ⟨rest, by simpa [hcase] using hhead⟩
  refine Pops.of_eraseIdx (k := 0) (by rw [hitems]; rfl) ?_ ?_ ?_
  · simp [ProtocolState.commitClaim, hholds, commitClaim, hclaimed, hitems]
  · simp [ProtocolState.commitClaim, hholds]
  · simp [ProtocolState.commitClaim, hholds]

lemma pops_removeQueued {i : ℕ} (h : s.removeQueued i = some (r, s')) : Pops s r s' := by
  rw [ProtocolState.removeQueued] at h
  split at h
  · simp at h
  dsimp only at h
  split at h
  next hget hremove =>
    cases h
    refine Pops.of_eraseIdx hget ?_ rfl rfl
    rw [removeAt] at hremove
    split at hremove
    · simp at hremove
    · rw [← some.inj hremove]
  · simp at h

lemma pops_drained (h : drained s = some (r, s')) : Pops s r s' := by
  rw [drained] at h
  split at h
  next head rest fifo hitems hclaim =>
    cases h
    refine Pops.of_eraseIdx (k := 0) (by rw [hitems]; rfl) ?_ rfl rfl
    rw [claimFront_eq_some hclaim]
    simp [commitClaim, hitems]
  · simp at h

/-! ## Changes of one holder -/

section Steps

variable {p} {p' : ProtocolPool} {k : Holder}

variable {t : Option (Quota.Task Quantity Purpose)} {n i : ℕ} {s : ProtocolState}
  {r : InvocationRequest}

lemma Prepared.congr {h : Holder} (hprepared : p.Prepared h t) (hlive : p.live ⊆ p'.live)
    (hsame : ∀ i, h = .invocation i →
      p'.invocations i = p.invocations i ∧ (i ∈ p'.admitted → i ∈ p.admitted)) :
    p'.Prepared h t := by
  rcases t with _ | ⟨amount, held, todo, goal⟩ | _
  · trivial
  · obtain ⟨hmem, hfitting, hcounts⟩ := hprepared
    refine ⟨hlive hmem, ?_, hcounts⟩
    cases goal with
    | request r => exact ⟨hfitting.1, hlive hfitting.2.1, hfitting.2.2⟩
    | result =>
      obtain ⟨i, hi, hamount, hflag, hsettled, hnew⟩ := hfitting
      obtain ⟨hinvocation, hadmitted⟩ := hsame i hi
      exact ⟨i, hi, hinvocation ▸ hamount, hinvocation ▸ hflag, hinvocation ▸ hsettled,
        fun hmem => hnew (hadmitted hmem)⟩
  · trivial

lemma Books.balanced_of_weight (h : p.Books) (hcounter : p'.counter = p.counter)
    (hweight : ∀ j ∈ p.live ++ p.dying, ∀ q, p'.weight j q = p.weight j q) :
    Quota.Balanced globalLimit p'.counter (p.live ++ p.dying) p'.weight := by
  rw [hcounter]
  exact h.balanced.congr hweight

lemma Books.change (h : p.Books) (hidle : k ∈ p.live ++ p.dying ∨ p'.tasks k = none)
    (hlive : p'.live = p.live) (hdying : p'.dying = p.dying)
    (htasks : ∀ j ≠ k, p'.tasks j = p.tasks j) (hsame : ∀ i, .invocation i ≠ k →
      p'.invocations i = p.invocations i ∧ (i ∈ p'.admitted → i ∈ p.admitted))
    (hprepared : p'.Prepared k (p'.tasks k))
    (hbalanced : Quota.Balanced globalLimit p'.counter (p.live ++ p.dying) p'.weight) :
    p'.Books where
  nodup := by
    rw [hlive, hdying]
    exact h.nodup
  idle := by
    intro j hj
    rw [hlive, hdying] at hj
    by_cases hjk : j = k
    · exact hjk ▸ hidle.resolve_left (hjk ▸ hj)
    · exact (htasks j hjk).trans (h.idle j hj)
  prepared := by
    intro j
    by_cases hjk : j = k
    · exact hjk ▸ hprepared
    · rw [htasks j hjk]
      exact (h.prepared j).congr (fun _ hx => hlive ▸ hx) fun i hi => hsame i (hi ▸ hjk)
  balanced := by
    rw [hlive, hdying]
    exact hbalanced

lemma Results.congr (h : p.Results) (hlive : p'.live = p.live) (hdying : p'.dying = p.dying)
    (hinvocations : p'.invocations = p.invocations) (hborn : p'.born = p.born)
    (hadmitted : p'.admitted = p.admitted) (hreleased : p'.released = p.released) :
    p'.Results := by
  have hholds : ∀ i, p'.Holds i ↔ p.Holds i := by
    intro i
    rw [Holds, Holds, hlive, hdying, hinvocations]
  have hunconsumed : ∀ i, p'.Unconsumed i ↔ p.Unconsumed i := by
    intro i
    rw [Unconsumed, Unconsumed, hadmitted, hinvocations]
  exact
    { conserved := by
        intro i
        rw [hreleased, hadmitted, ← h.conserved i]
        simp only [hholds]
      admitted := hadmitted ▸ h.admitted
      born := by
        rw [hadmitted, hlive, hdying, hborn]
        exact h.born
      reserved := by
        intro i hi
        rw [hinvocations, hunconsumed]
        exact h.reserved i (hlive ▸ hi) }

lemma count_quantities (q : Quantity) : quantities.count q = 1 := by cases q <;> rfl

section Frames

variable (p)

@[simp] lemma tasks_setTask_self (t : Option (Quota.Task Quantity Purpose)) :
    (p.setTask k t).tasks k = t := by
  simp [setTask]

variable {j : Holder}

lemma tasks_setTask_of_ne (h : j ≠ k) (t : Option (Quota.Task Quantity Purpose)) :
    (p.setTask k t).tasks j = p.tasks j := by
  simp [setTask, h]

lemma own_setTask (t : Option (Quota.Task Quantity Purpose)) (q : Quantity) (j : Holder) :
    (p.setTask k t).own q j = p.own q j := by
  cases j <;> rfl

@[simp] lemma dying_setInvocation (i : ℕ) (s : InvocationState) :
    (p.setInvocation i s).dying = p.dying := rfl

@[simp] lemma admitted_setInvocation (i : ℕ) (s : InvocationState) :
    (p.setInvocation i s).admitted = p.admitted := rfl

@[simp] lemma servers_setServer_self (n : ℕ) (s : ProtocolState) :
    (p.setServer n s).servers n = s := by
  simp [setServer]

lemma own_setServer_of_ne {n : ℕ} (h : j ≠ .server n) (s : ProtocolState) (q : Quantity) :
    (p.setServer n s).own q j = p.own q j := by
  cases j with
  | server m =>
    have hm : m ≠ n := fun heq => h (heq ▸ rfl)
    simp [own, setServer, hm]
  | invocation i => rfl

lemma own_setInvocation_of_ne {i : ℕ} (h : j ≠ .invocation i) (s : InvocationState)
    (q : Quantity) : (p.setInvocation i s).own q j = p.own q j := by
  cases j with
  | server m => rfl
  | invocation m =>
    have hm : m ≠ i := fun heq => h (heq ▸ rfl)
    simp [own, setInvocation, hm]

end Frames

/-- A server that does not exist counts for nothing. -/
lemma Inv.setServer (h : p.Inv) (hidle : .server n ∈ p.live ++ p.dying ∨ t = none)
    (hfits : .server n ∈ p.live → Fits s)
    (halive : .server n ∈ p.live ++ p.dying → ∀ r ∈ s.fifo.items, .invocation r.state ∈ p.live)
    (hprepared : p.Prepared (.server n) t) (hweight : .server n ∈ p.live ++ p.dying →
      ∀ q, requestCosts s.fifo.items q + Quota.Task.weight t q = p.weight (.server n) q) :
    ((p.setServer n s).setTask (.server n) t).Inv where
  books := by
    refine h.books.change (by rwa [tasks_setTask_self]) rfl rfl
      (fun j hj => tasks_setTask_of_ne _ hj t) (fun i _ => ⟨rfl, id⟩) ?_
      (h.books.balanced_of_weight rfl fun j hmem q => ?_)
    · rw [tasks_setTask_self]
      exact hprepared.congr (List.Subset.refl _) fun i hi => by cases hi
    · by_cases hj : j = .server n
      · subst hj
        rw [weight, tasks_setTask_self, own_setTask, own, servers_setServer_self]
        exact hweight hmem q
      · rw [weight, weight, tasks_setTask_of_ne _ hj, own_setTask, own_setServer_of_ne p hj]
        rfl
  queues :=
    { fits := by
        intro m hm
        by_cases hmn : m = n
        · subst hmn
          simpa [setTask, ProtocolPool.setServer] using hfits hm
        · simpa [setTask, ProtocolPool.setServer, hmn] using h.queues.fits m hm
      alive := by
        intro m hm r hr
        by_cases hmn : m = n
        · subst hmn
          exact halive hm r (by simpa [setTask, ProtocolPool.setServer] using hr)
        · exact h.queues.alive m hm r (by simpa [setTask, ProtocolPool.setServer, hmn] using hr) }
  results := h.results.congr rfl rfl rfl rfl rfl rfl

/-! ## The results -/

/-- What a section may do to the result budget: nothing, or give it back when the result is
settled. -/
structure Settles (s s' : InvocationState) : Prop where
  cost : s'.resultCost = s.resultCost
  budget : (s'.resultBudgetReserved = s.resultBudgetReserved ∧ s'.settled = s.settled) ∨
    (s'.resultBudgetReserved = false ∧ s'.settled = true)

namespace Settles

variable {s s' s'' : InvocationState}

lemma of_phase (hcost : s'.resultCost = s.resultCost)
    (hreserved : s'.resultBudgetReserved = s.resultBudgetReserved)
    (hclosed : s'.clientClosed = s.clientClosed) (h : s.phase ≠ .consumed)
    (h' : s'.phase ≠ .consumed) : Settles s s' := by
  refine ⟨hcost, .inl ⟨hreserved, ?_⟩⟩
  rw [settled, settled, beq_eq_false_iff_ne.2 h, beq_eq_false_iff_ne.2 h', hclosed]

lemma of_edited (h : Edited s s') : Settles s s' := by
  cases h with
  | same | result => exact ⟨rfl, .inl ⟨rfl, rfl⟩⟩
  | publish hopen =>
    refine of_phase rfl rfl rfl ?_ nofun
    simp only [publishable, Bool.and_eq_true, bne_iff_ne] at hopen
    exact hopen.1.2

/-- **No section gives a result budget back before the result is settled.** -/
theorem of_changed (h : Changed s s') : Settles s s' := by
  cases h with
  | edited cancelled alive h => exact ⟨(of_edited h).cost, (of_edited h).budget⟩
  | phase p h hp => exact of_phase rfl rfl rfl (by rcases h with h | h <;> simp [h]) hp
  | owner owner => exact ⟨rfl, .inl ⟨rfl, rfl⟩⟩
  | consume h => exact ⟨rfl, .inr ⟨rfl, rfl⟩⟩

lemma closeClient (s : InvocationState) : Settles s s.closeClient.state :=
  ⟨rfl, .inr ⟨rfl, by simp [InvocationState.closeClient, InvocationState.settled]⟩⟩

end Settles

/-- The pool in which an invocation has changed, with its lock and its history. -/
def changed (i : ℕ) (s : InvocationState) (t : Option (Quota.Task Quantity Purpose))
    (admitted released : List ℕ) : ProtocolPool :=
  { (p.setInvocation i s).setTask (.invocation i) t with admitted, released }

lemma invocations_changed_self (i : ℕ) (s : InvocationState)
    (t : Option (Quota.Task Quantity Purpose)) (admitted released : List ℕ) :
    (p.changed i s t admitted released).invocations i = s := by
  simp [changed, setInvocation, setTask]

lemma invocations_changed_of_ne {j : ℕ} (h : j ≠ i) (s : InvocationState)
    (t : Option (Quota.Task Quantity Purpose)) (admitted released : List ℕ) :
    (p.changed i s t admitted released).invocations j = p.invocations j := by
  simp [changed, setInvocation, setTask, h]

variable (h : p.Inv)
include h

lemma Inv.changed {s : InvocationState} {admitted released : List ℕ}
    (hmem : .invocation i ∈ p.live ++ p.dying)
    (hprepared : (p.changed i s t admitted released).Prepared (.invocation i) t)
    (hweight : ∀ q, (if s.resultBudgetReserved then s.resultCost q else 0) +
      Quota.Task.weight t q = p.weight (.invocation i) q)
    (hadmitted : ∀ j ≠ i, admitted.count j = p.admitted.count j)
    (hreleased : ∀ j ≠ i, released.count j = p.released.count j)
    (hconserved : released.count i + (if s.resultBudgetReserved then 1 else 0) = admitted.count i)
    (honce : admitted.count i ≤ 1)
    (hreserved : .invocation i ∈ p.live →
      (s.resultBudgetReserved = true ↔ i ∈ admitted ∧ s.settled = false)) :
    (p.changed i s t admitted released).Inv := by
  have hself := invocations_changed_self (p := p) i s t admitted released
  have hother := fun {j : ℕ} (hj : j ≠ i) =>
    invocations_changed_of_ne (p := p) hj s t admitted released
  have hmemAdmitted : ∀ j ≠ i, (j ∈ admitted ↔ j ∈ p.admitted) := by
    intro j hj
    rw [← count_pos_iff, hadmitted j hj, count_pos_iff]
  refine ⟨?_, ⟨h.queues.fits, h.queues.alive⟩, ?_⟩
  · refine h.books.change (.inl hmem) rfl rfl
      (fun j hj => tasks_setTask_of_ne (p.setInvocation i s) hj t) (fun j hj => ?_) ?_
      (h.books.balanced_of_weight rfl fun j _ q => ?_)
    · have hji : j ≠ i := fun heq => hj (heq ▸ rfl)
      exact ⟨hother hji, (hmemAdmitted j hji).1⟩
    · have htask : (p.changed i s t admitted released).tasks (.invocation i) = t :=
        tasks_setTask_self (p.setInvocation i s) t
      rw [htask]
      exact hprepared
    · by_cases hj : j = .invocation i
      · subst hj
        have htask : (p.changed i s t admitted released).tasks (.invocation i) = t :=
          tasks_setTask_self (p.setInvocation i s) t
        rw [weight, own, hself, htask]
        exact hweight q
      · have hown : (p.changed i s t admitted released).own q j = p.own q j :=
          own_setInvocation_of_ne p hj s q
        have htask : (p.changed i s t admitted released).tasks j = p.tasks j :=
          tasks_setTask_of_ne (p.setInvocation i s) hj t
        rw [weight, weight, hown, htask]
  · have hholds : ∀ j ≠ i, ((p.changed i s t admitted released).Holds j ↔ p.Holds j) := by
      intro j hj
      rw [Holds, Holds, hother hj]
      rfl
    refine ⟨fun j => ?_, fun j => ?_, fun j hj => ?_, fun j hj => ?_⟩
    · by_cases hji : j = i
      · subst hji
        have hiff : (p.changed j s t admitted released).Holds j ↔
            s.resultBudgetReserved = true := by
          rw [Holds, hself]
          exact ⟨fun hboth => hboth.2, fun hflag => ⟨hmem, hflag⟩⟩
        simp only [hiff]
        exact hconserved
      · have hold := h.results.conserved j
        simp only [hholds j hji]
        change released.count j + _ = admitted.count j
        rw [hreleased j hji, hadmitted j hji]
        exact hold
    · by_cases hji : j = i
      · exact hji ▸ honce
      · exact (hadmitted j hji).trans_le (h.results.admitted j)
    · by_cases hji : j = i
      · exact hji ▸ h.results.born i (.inr hmem)
      · exact h.results.born j (hj.imp_left (hmemAdmitted j hji).1)
    · by_cases hji : j = i
      · subst hji
        rw [Unconsumed, hself]
        exact hreserved hj
      · rw [Unconsumed, hother hji]
        exact (h.results.reserved j hj).trans (and_congr_left' (hmemAdmitted j hji).symm)

lemma Inv.finish {s : InvocationState} (hmem : .invocation i ∈ p.live ++ p.dying)
    (htask : p.tasks (.invocation i) = none) (hcost : s.resultCost = (p.invocations i).resultCost)
    (hgain : s.resultBudgetReserved = true → (p.invocations i).resultBudgetReserved = true)
    (hreserved : .invocation i ∈ p.live →
      (s.resultBudgetReserved = true ↔ i ∈ p.admitted ∧ s.settled = false)) :
    (p.finish i s).Inv := by
  have hconserved := h.results.conserved i
  have hholds : p.Holds i ↔ (p.invocations i).resultBudgetReserved = true :=
    ⟨fun hboth => hboth.2, fun hflag => ⟨hmem, hflag⟩⟩
  simp only [hholds] at hconserved
  rw [ProtocolPool.finish]
  split
  next hgives =>
    rw [Bool.and_eq_true, Bool.not_eq_true'] at hgives
    rw [if_pos hgives.1] at hconserved
    change (p.changed i s (some (.releasing (p.invocations i).resultCost quantities)) p.admitted
      (i :: p.released)).Inv
    refine h.changed hmem trivial (fun q => ?_) (fun j _ => rfl) (fun j hj => ?_) ?_
      (h.results.admitted i) hreserved
    · rw [weight, htask, own, if_pos hgives.1, hgives.2]
      simp [Quota.Task.weight, count_quantities]
    · exact count_cons_of_ne hj.symm
    · rw [count_cons_self, hgives.2]
      exact hconserved
  next hkeeps =>
    have hflag : s.resultBudgetReserved = (p.invocations i).resultBudgetReserved := by
      cases hold : (p.invocations i).resultBudgetReserved with
      | false => exact Bool.eq_false_iff.2 fun hnew => by simp [hgain hnew] at hold
      | true => simpa [hold] using hkeeps
    have hpool : p.setInvocation i s = p.changed i s none p.admitted p.released := by
      rw [ProtocolPool.changed, setTask, setInvocation]
      simp only [← htask, update_eq_self]
    rw [hpool]
    refine h.changed hmem trivial (fun q => ?_) (fun _ _ => rfl) (fun _ _ => rfl) ?_
      (h.results.admitted i) hreserved
    · rw [weight, htask, own, hflag, hcost]
    · rw [hflag]
      exact hconserved

/-! ## The steps -/

omit h in
lemma mem_of_unlocked (h : p.unlocked k = true) : k ∈ p.live ∧ p.tasks k = none := by
  simpa [unlocked] using h

lemma Inv.act {s : InvocationState} (hunlocked : p.unlocked (.invocation i) = true)
    (hsettles : Settles (p.invocations i) s) :
    (p.finish i s).Inv := by
  obtain ⟨hmem, htask⟩ := mem_of_unlocked hunlocked
  have hreserved := h.results.reserved i hmem
  refine h.finish (mem_append_left _ hmem) htask hsettles.cost ?_ fun _ => ?_
  · rcases hsettles.budget with hsame | hgone
    · rw [hsame.1]
      exact id
    · simp [hgone.1]
  · rcases hsettles.budget with hsame | hgone
    · rw [hsame.1, hsame.2]
      exact hreserved
    · simp [hgone.1, hgone.2]

lemma Inv.sameQueue (hitems : s.fifo.items = (p.servers n).fifo.items)
    (hbytes : s.queuedBytes = (p.servers n).queuedBytes)
    (hresources : s.queuedResources = (p.servers n).queuedResources) : (p.setServer n s).Inv := by
  have hpool : p.setServer n s = (p.setServer n s).setTask (.server n) (p.tasks (.server n)) := by
    rw [setTask, ProtocolPool.setServer]
    simp only [update_eq_self]
  rw [hpool]
  refine h.setServer (or_iff_not_imp_left.2 (h.books.idle _)) (fun hlive => ?_)
    (fun hmem r hr => ?_) (h.books.prepared _) fun _ q => ?_
  · have hfits := h.queues.fits n hlive
    exact ⟨by rw [hbytes, hitems, hfits.bytes], by rw [hresources, hitems, hfits.resources]⟩
  · exact h.queues.alive n hmem r (hitems ▸ hr)
  · rw [hitems, weight, own]

lemma Inv.takeOut (hmem : .server n ∈ p.live ++ p.dying) (htask : p.tasks (.server n) = none)
    (hfits : .server n ∈ p.live → Fits s)
    (hcosts : ∀ q, requestCosts (p.servers n).fifo.items q = requestCosts s.fifo.items q + r.cost q)
    (hsub : ∀ r' ∈ s.fifo.items, r' ∈ (p.servers n).fifo.items) : (p.takeOut n r s).Inv := by
  refine h.setServer (.inl hmem) hfits
    (fun _ r' hr' => h.queues.alive n hmem r' (hsub r' hr')) trivial fun _ q => ?_
  rw [weight, htask, own, hcosts]
  simp [Quota.Task.weight, count_quantities]

lemma Inv.pops (hunlocked : p.unlocked (.server n) = true) (hpops : Pops (p.servers n) r s) :
    (p.takeOut n r s).Inv := by
  obtain ⟨hmem, htask⟩ := mem_of_unlocked hunlocked
  exact h.takeOut (mem_append_left _ hmem) htask
    (fun hlive => hpops.fits (h.queues.fits n hlive)) hpops.costs hpops.mem

lemma Inv.setTask (hmem : k ∈ p.live ++ p.dying) (hprepared : p.Prepared k t)
    (hweight : ∀ q, Quota.Task.weight t q = Quota.Task.weight (p.tasks k) q) :
    (p.setTask k t).Inv where
  books := by
    refine h.books.change (.inl hmem) rfl rfl (fun j hj => tasks_setTask_of_ne p hj t)
      (fun i _ => ⟨rfl, id⟩) ?_ (h.books.balanced_of_weight rfl fun j _ q => ?_)
    · rw [tasks_setTask_self]
      exact hprepared.congr (List.Subset.refl _) fun i _ => ⟨rfl, id⟩
    · rw [weight, weight, own_setTask]
      by_cases hj : j = k
      · subst hj
        rw [tasks_setTask_self, hweight]
      · rw [tasks_setTask_of_ne p hj]
  queues := ⟨h.queues.fits, h.queues.alive⟩
  results := h.results.congr rfl rfl rfl rfl rfl rfl

omit h in
lemma Prepared.next {t : Quota.Task Quantity Purpose} (h : p.Prepared k (some t))
    (counter : Quantity → BitVec 64) : p.Prepared k (t.next globalLimit counter).2 := by
  rcases t with ⟨amount, held, _ | ⟨q, todo⟩, goal⟩ | ⟨amount, _ | ⟨q, held⟩⟩
  · exact h
  · rw [Quota.Task.next]
    cases Quota.reserve (counter q) (amount q) (globalLimit q) with
    | some n =>
      refine ⟨h.1, h.2.1, fun q' => ?_⟩
      have hcount := h.2.2 q'
      simp only [count_cons] at hcount ⊢
      omega
    | none =>
      cases held with
      | nil | cons q' held => trivial
  · trivial
  · cases held with
    | nil | cons q' held => trivial

omit h in
lemma Books.mem_of_task (h : p.Books) {t : Quota.Task Quantity Purpose}
    (htask : p.tasks k = some t) : k ∈ p.live ++ p.dying := by
  by_contra hnot
  rw [h.idle k hnot] at htask
  cases htask

lemma Inv.next {t : Quota.Task Quantity Purpose} (htask : p.tasks k = some t) :
    ({ p with counter := (t.next globalLimit p.counter).1 }.setTask k
      (t.next globalLimit p.counter).2).Inv where
  books := by
    have hmem := h.books.mem_of_task htask
    have hprepared := h.books.prepared k
    rw [htask] at hprepared
    refine h.books.change (.inl hmem) rfl rfl (fun j hj => tasks_setTask_of_ne _ hj _)
      (fun i _ => ⟨rfl, id⟩) ?_ ?_
    · rw [tasks_setTask_self]
      exact (hprepared.next p.counter).congr (List.Subset.refl _) fun i _ => ⟨rfl, id⟩
    · have hself : ∀ q, p.weight k q = p.own q k + Quota.Task.weight (some t) q :=
        fun q => by rw [weight, htask]
      refine h.books.balanced.next globalLimit_lt h.books.nodup hmem hself
        (fun j _ hj q => ?_) fun q => ?_
      · rw [weight, weight, tasks_setTask_of_ne _ hj, own_setTask]
        cases j <;> rfl
      · rw [weight, tasks_setTask_self, own_setTask]
        cases k <;> rfl
  queues := ⟨h.queues.fits, h.queues.alive⟩
  results := h.results.congr rfl rfl rfl rfl rfl rfl

lemma Inv.complete {amount : Quantity → ℕ} {held : List Quantity} {goal : Purpose}
    (htask : p.tasks k = some (.reserving amount held [] goal)) :
    (p.complete k amount goal).Inv := by
  have hmem := h.books.mem_of_task htask
  have hprepared := h.books.prepared k
  rw [htask] at hprepared
  obtain ⟨hlive, hfitting, hheld⟩ := hprepared
  have hweight : ∀ q, Quota.Task.weight (p.tasks k) q = amount q := by
    intro q
    have hcount : held.count q = 1 := by simpa using hheld q
    rw [htask]
    simp [Quota.Task.weight, hcount]
  cases goal with
  | request r =>
    obtain ⟨⟨n, rfl⟩, halive, hamount⟩ := hfitting
    rw [ProtocolPool.complete]
    split
    · refine h.setTask hmem trivial fun q => ?_
      rw [hweight, Quota.Task.weight_giveBack, count_quantities, Nat.one_mul]
    rename_i fifo hpush
    have hitems : ((p.servers n).push r).fifo.items = (p.servers n).fifo.items ++
        [{ r with queuedResourceCount := ProtocolState.resourceCountOf r }] := by
      rw [ProtocolState.push, hpush, tryPush_eq_some hpush]
      rfl
    refine h.setServer (.inl hmem) (fun hlive => ?_) (fun _ r' hr' => ?_) trivial fun _ q => ?_
    · have hfits := h.queues.fits n hlive
      constructor
      · rw [hitems]
        simp [ProtocolState.push, hfits.bytes]
      · rw [hitems]
        simp [ProtocolState.push, hfits.resources]
    · rw [hitems, mem_append, mem_singleton] at hr'
      rcases hr' with hold | rfl
      · exact h.queues.alive n hmem r' hold
      · exact halive
    · rw [weight, hweight, own, hitems, hamount]
      simp [requestCosts, InvocationRequest.cost]
  | result =>
    obtain ⟨i, rfl, hamount, hflag, hsettled, hnew⟩ := hfitting
    have hconserved := h.results.conserved i
    have hholds : ¬p.Holds i := fun hboth => by
      rw [Holds, hflag] at hboth
      exact Bool.noConfusion hboth.2
    have hcount : p.admitted.count i = 0 := List.count_eq_zero.2 hnew
    rw [if_neg hholds, hcount] at hconserved
    change (p.changed i { p.invocations i with resultBudgetReserved := true } none
      (i :: p.admitted) p.released).Inv
    refine h.changed hmem trivial (fun q => ?_) (fun j hj => ?_) (fun _ _ => rfl) ?_ ?_ fun _ => ?_
    · rw [weight, hweight, own, hflag, hamount]
      simp [resultCost]
    · exact count_cons_of_ne hj.symm
    · rw [count_cons_self, hcount]
      simpa using hconserved
    · rw [count_cons_self, hcount]
    · exact ⟨fun _ => ⟨mem_cons_self, hsettled⟩, fun _ => rfl⟩

lemma Inv.createServer (hnew : .server n ∉ p.live ++ p.dying) (hempty : s.fifo.items = [])
    (hbytes : s.queuedBytes = 0) (hresources : s.queuedResources = 0) :
    ({ p with
        servers := update p.servers n s
        live := .server n :: p.live } : ProtocolPool).Inv := by
  have hne : ∀ m, .server m ∈ p.live ++ p.dying → m ≠ n := fun m hm heq => hnew (heq ▸ hm)
  have htask := h.books.idle _ hnew
  refine ⟨⟨nodup_cons.2 ⟨hnew, h.books.nodup⟩, fun j hj => ?_, fun j => ?_, ?_⟩,
    ⟨fun m hm => ?_, fun m hm r hr => ?_⟩, ?_⟩
  · exact h.books.idle j fun hold => hj (mem_cons_of_mem _ hold)
  · exact (h.books.prepared j).congr (fun x hx => mem_cons_of_mem _ hx) fun i _ => ⟨rfl, id⟩
  · refine (Quota.Balanced.cons_iff fun q => ?_).2 (h.books.balanced.congr fun j hj q => ?_)
    · simp [weight, own, htask, hempty, requestCosts]
    · rw [weight, weight]
      congr 1
      exact own_setServer_of_ne p (fun heq => hnew (heq ▸ hj)) s q
  · rcases mem_cons.1 hm with heq | hold
    · obtain rfl := Holder.server.inj heq
      simp only [update_self]
      exact ⟨by rw [hbytes, hempty]; rfl, by rw [hresources, hempty]; rfl⟩
    · have hmn := hne m (mem_append_left _ hold)
      simpa [hmn] using h.queues.fits m hold
  · rcases mem_cons.1 hm with heq | hold
    · obtain rfl := Holder.server.inj heq
      simp [hempty] at hr
    · have hmn := hne m hold
      exact mem_cons_of_mem _ (h.queues.alive m hold r (by simpa [hmn] using hr))
  · have hholds : ∀ i, ({ p with
        servers := update p.servers n s
        live := .server n :: p.live } : ProtocolPool).Holds i ↔ p.Holds i := by
      intro i
      simp [Holds]
    refine ⟨fun i => ?_, h.results.admitted, fun i hi => ?_, fun i hi => ?_⟩
    · simp only [hholds]
      exact h.results.conserved i
    · exact h.results.born i (hi.imp_right fun hmem => by simpa using hmem)
    · exact h.results.reserved i (by simpa using hi)

lemma Inv.not_born (hnew : i ∉ p.born) : .invocation i ∉ p.live ++ p.dying ∧ i ∉ p.admitted :=
  ⟨fun hmem => hnew (h.results.born i (.inr hmem)), fun hmem => hnew (h.results.born i (.inl hmem))⟩

lemma Inv.createInvocation {s : InvocationState} (hnew : i ∉ p.born)
    (hflag : s.resultBudgetReserved = false) :
    ({ p.setInvocation i s with
        live := .invocation i :: p.live, born := i :: p.born } : ProtocolPool).Inv := by
  obtain ⟨hmem, hadmitted⟩ := h.not_born hnew
  have htask := h.books.idle _ hmem
  have hself : (p.setInvocation i s).invocations i = s := by simp [setInvocation]
  have hother : ∀ j, j ≠ i → (p.setInvocation i s).invocations j = p.invocations j :=
    fun j hj => by simp [setInvocation, hj]
  refine ⟨⟨nodup_cons.2 ⟨hmem, h.books.nodup⟩, fun j hj => ?_, fun j => ?_, ?_⟩,
    ⟨fun m hm => ?_, fun m hm r hr => ?_⟩, ⟨fun j => ?_, h.results.admitted, fun j hj => ?_,
      fun j hj => ?_⟩⟩
  · exact h.books.idle j fun hold => hj (mem_cons_of_mem _ hold)
  · by_cases hj : j = .invocation i
    · subst hj
      change Prepared _ _ (p.tasks (.invocation i))
      rw [htask]
      trivial
    · refine (h.books.prepared j).congr (fun x hx => mem_cons_of_mem _ hx) fun m hm => ?_
      exact ⟨hother m fun heq => hj (hm.trans (heq ▸ rfl)), id⟩
  · refine (Quota.Balanced.cons_iff fun q => ?_).2 (h.books.balanced.congr fun j hj q => ?_)
    · change own _ q (.invocation i) + Quota.Task.weight (p.tasks (.invocation i)) q = 0
      rw [own, hself, htask, hflag]
      rfl
    · exact congrArg (· + _) (own_setInvocation_of_ne p (fun heq => hmem (heq ▸ hj)) s q)
  · exact h.queues.fits m (by simpa using hm)
  · exact mem_cons_of_mem _ (h.queues.alive m (by simpa using hm) r hr)
  · have hholds : ({ p.setInvocation i s with
        live := .invocation i :: p.live, born := i :: p.born } : ProtocolPool).Holds j ↔
        p.Holds j := by
      by_cases hji : j = i
      · subst hji
        simp [Holds, hself, hflag, hmem]
      · simp [Holds, hother j hji, hji]
    simp only [hholds]
    exact h.results.conserved j
  · by_cases hji : j = i
    · exact hji ▸ mem_cons_self
    · refine mem_cons_of_mem _ (h.results.born j (hj.imp_right fun hmem' => ?_))
      simpa [hji] using hmem'
  · by_cases hji : j = i
    · subst hji
      simp [Unconsumed, hself, hflag, hadmitted]
    · have hold := h.results.reserved j (by simpa [hji] using hj)
      simpa [Unconsumed, hother j hji] using hold

lemma Inv.destroy (hunlocked : p.unlocked k = true) (hdie : p.mayDie k = true) :
    ({ p with live := p.live.erase k, dying := k :: p.dying } : ProtocolPool).Inv := by
  obtain ⟨hmem, htask⟩ := mem_of_unlocked hunlocked
  have hperm : (p.live ++ p.dying).Perm (p.live.erase k ++ k :: p.dying) :=
    ((perm_cons_erase hmem).append_right p.dying).trans perm_middle.symm
  have hstays : ∀ n, .server n ∈ p.live ++ p.dying → ∀ r ∈ p.requests n,
      .invocation r.state ∈ p.live → .invocation r.state ∈ p.live.erase k := by
    intro n hn r hr hlive
    refine (mem_erase_of_ne fun heq => ?_).2 hlive
    subst heq
    simp only [mayDie, referenced, Bool.not_eq_true', List.any_eq_false] at hdie
    have hnone := hdie _ hn
    simp only [List.any_eq_true, not_exists, not_and] at hnone
    exact hnone r hr (by simp)
  refine ⟨⟨hperm.nodup_iff.1 h.books.nodup,
    fun j hj => h.books.idle j fun hold => hj (hperm.subset hold), fun j => ?_,
    h.books.balanced.perm hperm⟩,
    ⟨fun n hn => h.queues.fits n (mem_of_mem_erase hn), fun n hn r hr => ?_⟩, ?_⟩
  · have hprepared := h.books.prepared j
    rcases hj : p.tasks j with _ | ⟨amount, held, todo, goal⟩ | _
    · trivial
    · rw [hj] at hprepared
      obtain ⟨hlive, hfitting, hcounts⟩ := hprepared
      have hjk : j ≠ k := fun heq => by simp [heq, htask] at hj
      refine ⟨(mem_erase_of_ne hjk).2 hlive, ?_, hcounts⟩
      cases goal with
      | request r =>
        obtain ⟨⟨n, rfl⟩, halive, hamount⟩ := hfitting
        exact ⟨⟨n, rfl⟩, hstays n (mem_append_left _ hlive) r (by simp [requests, hj])
          halive, hamount⟩
      | result => exact hfitting
    · trivial
  · have hold : .server n ∈ p.live ++ p.dying := hperm.symm.subset hn
    exact hstays n hold r (mem_append_left _ hr) (h.queues.alive n hold r hr)
  · have hholds : ∀ i, ({ p with live := p.live.erase k, dying := k :: p.dying } :
        ProtocolPool).Holds i ↔ p.Holds i :=
      fun i => and_congr_left' hperm.symm.mem_iff
    refine ⟨fun i => ?_, h.results.admitted,
      fun i hi => h.results.born i (hi.imp_right fun hm => hperm.symm.subset hm),
      fun i hi => h.results.reserved i (mem_of_mem_erase hi)⟩
    simp only [hholds]
    exact h.results.conserved i

lemma Inv.gone (hmem : k ∈ p.dying) (htask : p.tasks k = none) (hown : ∀ q, p.own q k = 0)
    (hflag : ∀ i, k = .invocation i → (p.invocations i).resultBudgetReserved = false) :
    ({ p with dying := p.dying.erase k } : ProtocolPool).Inv := by
  have hperm : (p.live ++ p.dying).Perm (k :: (p.live ++ p.dying.erase k)) :=
    ((perm_cons_erase hmem).append_left p.live).trans perm_middle
  have hsub : ∀ j ∈ p.live ++ p.dying.erase k, j ∈ p.live ++ p.dying :=
    fun j hj => hperm.symm.subset (mem_cons_of_mem _ hj)
  refine ⟨⟨(nodup_cons.1 (hperm.nodup_iff.1 h.books.nodup)).2, fun j hj => ?_, fun j => ?_,
    ?_⟩, ⟨h.queues.fits, fun n hn => h.queues.alive n (hsub _ hn)⟩, ⟨fun i => ?_,
    h.results.admitted, fun i hi => h.results.born i (hi.imp_right (hsub _)),
    h.results.reserved⟩⟩
  · by_cases hjk : j = k
    · exact hjk ▸ htask
    · refine h.books.idle j fun hold => ?_
      rcases mem_cons.1 (hperm.subset hold) with heq | hrest
      · exact hjk heq
      · exact hj hrest
  · exact (h.books.prepared j).congr (List.Subset.refl _) fun i _ => ⟨rfl, id⟩
  · refine (Quota.Balanced.cons_iff fun q => ?_).1 (h.books.balanced.perm hperm)
    have hzero : ({ p with dying := p.dying.erase k } : ProtocolPool).own q k = 0 := by
      rw [← hown q]
      cases k <;> rfl
    rw [weight, hzero, htask]
    rfl
  · have hholds : ({ p with dying := p.dying.erase k } : ProtocolPool).Holds i ↔ p.Holds i := by
      refine ⟨fun hboth => ⟨hsub _ hboth.1, hboth.2⟩, fun hboth => ⟨?_, hboth.2⟩⟩
      rcases mem_cons.1 (hperm.subset hboth.1) with heq | hrest
      · have hno := hflag i heq.symm
        rw [hboth.2] at hno
        cases hno
      · exact hrest
    simp only [hholds]
    exact h.results.conserved i

lemma Inv.bury (hmem : k ∈ p.dying) (htask : p.tasks k = none) : (p.buryNext k).Inv := by
  have hholder : k ∈ p.live ++ p.dying := mem_append_right _ hmem
  have hnot : k ∉ p.live := fun hlive => (nodup_append.1 h.books.nodup).2.2 k hlive k hmem rfl
  cases k with
  | server n =>
    rw [buryNext]
    split
    next r rest hitems =>
      refine h.takeOut hholder htask (fun hlive => absurd hlive hnot) (fun q => ?_) fun r' hr' => ?_
      · rw [hitems]
        simp [requestCosts, Nat.add_comm]
      · exact hitems ▸ mem_cons_of_mem _ hr'
    next hitems =>
      exact h.gone hmem htask (fun q => by rw [own, hitems]; rfl) (fun i hi => by cases hi)
  | invocation i =>
    rw [buryNext]
    split
    · exact h.finish hholder htask rfl (fun hflag => by cases hflag) fun hlive => absurd hlive hnot
    next hflag =>
      have hfalse := Bool.eq_false_iff.2 hflag
      refine h.gone hmem htask (fun q => by rw [own, if_neg hflag]) fun j hj => ?_
      obtain rfl := Holder.invocation.inj hj
      exact hfalse

lemma inv_step {a : ProtocolAction} (hstep : p.step a = some p') : p'.Inv := by
  cases a with rw [step] at hstep
  | createServer n maxMessages maxBytes maxResources =>
    split_ifs at hstep with hold
    cases hstep
    exact h.createServer (by simpa using hold) rfl rfl rfl
  | endpointAcquired n role l | endpointReleased n role l =>
    cases hstep
    exact h.sameQueue rfl rfl rfl
  | submit n r =>
    split_ifs at hstep with hready hadmits
    · cases hstep
      rw [Bool.and_eq_true, decide_eq_true_eq] at hready
      obtain ⟨hmem, htask⟩ := mem_of_unlocked hready.1
      refine h.setTask (mem_append_left _ hmem)
        ⟨hmem, ⟨⟨n, rfl⟩, hready.2, rfl⟩, fun q => ?_⟩ fun q => ?_
      · cases q <;> rfl
      · rw [htask]
        simp [Quota.Task.weight]
    · cases hstep
      exact h
  | advance j =>
    split at hstep
    · simp at hstep
    next htask =>
      cases hstep
      exact h.complete htask
    next htask =>
      cases hstep
      exact h.next htask
  | claim n =>
    split_ifs at hstep with hunlocked
    obtain ⟨o, ho, rfl⟩ := Option.map_eq_some_iff.1 hstep
    cases hclaim : (p.servers n).claim with
    | error e => simp [hclaim, Except.toOption] at ho
    | ok o' =>
      obtain rfl : o' = o := by simpa [hclaim, Except.toOption] using ho
      obtain ⟨-, -, -, heq⟩ := ProtocolState.claim_eq_ok hclaim
      rw [heq]
      exact h.sameQueue rfl rfl rfl
  | cancelClaim n i =>
    split_ifs at hstep with hunlocked
    cases hstep
    rw [ProtocolState.cancelClaim]
    split <;> exact h.sameQueue rfl rfl rfl
  | commitClaim n =>
    split_ifs at hstep with hunlocked
    obtain ⟨r, hhead, hcommit⟩ := Option.bind_eq_some_iff.1 hstep
    split_ifs at hcommit with hholds
    cases hcommit
    exact h.pops hunlocked (pops_commitClaim hhead hholds)
  | removeQueued n i =>
    split_ifs at hstep with hunlocked
    obtain ⟨⟨r, s⟩, hs, rfl⟩ := Option.map_eq_some_iff.1 hstep
    exact h.pops hunlocked (pops_removeQueued hs)
  | close n =>
    split_ifs at hstep with hunlocked
    cases hstep
    exact h.sameQueue rfl rfl rfl
  | drain n =>
    split_ifs at hstep with hunlocked
    obtain ⟨⟨r, s⟩, hs, rfl⟩ := Option.map_eq_some_iff.1 hstep
    exact h.pops hunlocked (pops_drained hs)
  | createInvocation i deadline maxBytes maxResources oneway =>
    split_ifs at hstep with hborn honeway
    · cases hstep
      exact h.createInvocation hborn rfl
    cases hstep
    obtain ⟨hmem, hadmitted⟩ := h.not_born hborn
    have hmade := h.createInvocation (s := newInvocation deadline maxBytes maxResources) hborn rfl
    refine hmade.setTask mem_cons_self
      ⟨mem_cons_self, ⟨i, rfl, ?_, ?_, ?_, hadmitted⟩, fun q => ?_⟩ fun q => ?_
    · simp [setInvocation]
    · simp [setInvocation, newInvocation]
    · simp [setInvocation, newInvocation, settled]
    · cases q <;> rfl
    · change _ = Quota.Task.weight (p.tasks (.invocation i)) q
      rw [h.books.idle _ hmem]
      simp [Quota.Task.weight]
  | act i a =>
    split_ifs at hstep with hunlocked
    cases hstep
    exact h.act hunlocked (Settles.of_changed (.run _ a))
  | closeClient i =>
    split_ifs at hstep with hunlocked
    cases hstep
    exact h.act hunlocked (Settles.closeClient _)
  | destroy j =>
    split_ifs at hstep with hdie
    cases hstep
    rw [Bool.and_eq_true] at hdie
    exact h.destroy hdie.1 hdie.2
  | bury j =>
    split_ifs at hstep with hdying
    cases hstep
    exact h.bury hdying.1 (by simpa using hdying.2)

end Steps

/-! ## Runs -/

def empty (servers : ℕ → ProtocolState) : ProtocolPool := { servers }

lemma inv_empty (servers : ℕ → ProtocolState) : (empty servers).Inv where
  books :=
    { nodup := nodup_nil
      idle := fun _ _ => rfl
      prepared := fun _ => trivial
      balanced :=
        { eq := fun _ => rfl
          le := fun _ => Nat.zero_le _ } }
  queues := ⟨(fun _ hn => by cases hn), (fun _ hn => by cases hn)⟩
  results :=
    { conserved := fun _ => by simp [Holds, empty]
      admitted := fun _ => Nat.zero_le _
      born := fun _ hi => by simp [empty] at hi
      reserved := fun _ hi => by cases hi }

/-- **The accounts of the protocols are right.**  In every interleaving the totals of every server
are the sums over its queue, every result budget is given back once and as soon as the result
is consumed or its client is gone, the global counters are within their limits, and no
release takes more than there is.  When no operation is in progress, the global counters are
the sums over all requests in the queues and all results that are still to be consumed, and
without invocations they are zero. -/
theorem protocolsAccounted_of_exec {servers : ℕ → ProtocolState}
    {actions : List ProtocolAction} {p : ProtocolPool}
    (hexec : exec step (empty servers) actions = some p) : p.Accounted :=
  (exec_invariant (fun _ _ _ h hs => inv_step h hs) (inv_empty servers) hexec).accounted

def calledOnce : List ProtocolAction :=
  List.flatten [[.createServer 0 4 4096 8, .endpointAcquired 0 .server .tableRoot,
        .createInvocation 0 none 0 0 false],
      replicate 4 (.advance (.invocation 0)),
      [.submit 0 { state := 0, bytes := [1, 2] }],
      replicate 4 (.advance (.server 0)),
      [.claim 0, .act 0 .beginReceive, .act 0 .finishDispatch, .commitClaim 0],
      replicate 3 (.advance (.server 0)),
      [.act 0 (.completeReply [3] [] 0), .act 0 (.claimResult 0 1 0), .act 0 .commitResult],
      replicate 3 (.advance (.invocation 0)),
      [.destroy (.invocation 0), .bury (.invocation 0)]]

def noServers : ℕ → ProtocolState :=
  fun _ => { fifo := { capacity := 0 }, maxBytes := 0, maxResources := 0 }

theorem protocolsAccounted_calledOnce :
    ∃ p, exec step (empty noServers) calledOnce = some p ∧ p.Accounted := by
  have hruns : (exec step (empty noServers) calledOnce).isSome = true := by decide +kernel
  obtain ⟨p, hexec⟩ := Option.isSome_iff_exists.1 hruns
  exact ⟨p, hexec, protocolsAccounted_of_exec hexec⟩

end ProtocolPool

end Naos.Ipc
