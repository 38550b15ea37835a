import Mathlib
import Naos.Ipc.Submit

/-!
# Admission and delivery

`invoke_submit_impl` checks a request against the descriptor of its protocol, and
`receive_protocol` checks the request that it has claimed once more.  What has passed the first
check passes the second, whatever the descriptor says: the bytes, the number of resources and
the responder of a request stay as they are in the queue.
-/

namespace Naos.Ipc

open Capability Transition Function ProtocolState

/-- The validation of a claimed request in `receive_protocol`. -/
def ProtocolDescriptor.accepts (d : ProtocolDescriptor) (r : InvocationRequest) : Bool :=
  d.allowsMethod r.methodId &&
    (d.maxRequestBytes == 0 || decide (r.bytes.length ≤ d.maxRequestBytes)) &&
    (d.maxResources == 0 || decide (r.resources.length ≤ d.maxResources)) &&
    d.allowsOneway r.methodId != r.responder.object.isSome

/-- The first `n` resources of the head were activated, and are moved from. -/
def ProtocolState.moveOut (p : ProtocolState) (n : ℕ) : ProtocolState :=
  { p with
    fifo :=
      { p.fifo with
        items := p.fifo.items.modifyHead fun r =>
          { r with
            resources := r.resources.mapIdx fun i x =>
              if i < n then { x with resource := x.resource.movedFrom } else x } } }

/-- What submitters, receivers and the owners of the ends do to a queue. -/
inductive QueueAction where
  | submit (self id : ℕ) (env : SubmitEnv) (t : ResourceTable) (target : Handle)
      (frame output : ℕ) (oneway : Bool)
  | claim (p : ℕ)
  /-- A receive fails after it has activated some resources. -/
  | giveBack (p invocation activated : ℕ)
  | commit (p : ℕ) (r : InvocationRequest)
  | remove (p invocation : ℕ)
  | acquire (p : ℕ) (role : Role) (location : Location)
  | release (p : ℕ) (role : Role) (location : Location)
  /-- Reservations and releases of others. -/
  | budget (b : ProtocolBudget)

namespace SubmitWorld

variable (w : SubmitWorld)

def setProtocol (p : ℕ) (s : ProtocolState) : SubmitWorld :=
  { w with protocols := update w.protocols p s }

/-- `invoke_submit_impl`, on the queue of the server. -/
def submit (self id : ℕ) (env : SubmitEnv) (t : ResourceTable) (target : Handle)
    (frame output : ℕ) (oneway : Bool) : Option SubmitWorld :=
  match prepareSubmit env w t target frame output oneway,
      enterQueue self id env w t target frame output oneway with
  | .ok p, .ok _ =>
    match p.target with
    | .kernel => none
    | .client owner =>
      let installed := installInvocation id t (invocationInfo p.info) oneway
      let taken := takeNativeBatch self installed.table p.dispositions target env.batchAllocated
      let records := (commitNativeBatch self taken.table taken.value.2).value
      if taken.value.1 ≠ .ok then none
      else some (w.setProtocol owner ((w.protocols owner).push (newRequest id p oneway records)))
  | _, _ => none

def step : QueueAction → Option SubmitWorld
  | .submit self id env t target frame output oneway =>
    w.submit self id env t target frame output oneway
  | .claim p => (w.protocols p).claim.toOption.map fun c => w.setProtocol p c.2
  | .giveBack p i n => some (w.setProtocol p (((w.protocols p).moveOut n).cancelClaim i))
  | .commit p r => some (w.setProtocol p ((w.protocols p).commitClaim r).2)
  | .remove p i => ((w.protocols p).removeQueued i).map fun c => w.setProtocol p c.2
  | .acquire p role location =>
    some (w.setProtocol p ((w.protocols p).endpointAcquired role location))
  | .release p role location =>
    let s := (w.protocols p).released role location
    some (w.setProtocol p
      (if (w.protocols p).closesServer role location then s.closeServerQueue.1 else s))
  | .budget b => some { w with budget := b }

/-- Every queued request passes the validation. -/
def Acceptable : Prop := ∀ p, ∀ r ∈ (w.protocols p).fifo.items, (w.descriptors p).accepts r = true

variable {w} {w' : SubmitWorld} {env : SubmitEnv} {t : ResourceTable} {target : Handle}
  {frame output id self : ℕ} {oneway : Bool}

lemma length_mapM {α β : Type} {f : α → Option β} {xs : List α} {ys : List β}
    (h : xs.mapM f = some ys) : ys.length = xs.length := by
  induction xs generalizing ys with
  | nil =>
    cases h
    rfl
  | cons x xs ih =>
    simp only [List.mapM_cons, Option.pure_def, Option.bind_eq_bind, Option.bind_eq_some_iff,
      Option.some.injEq] at h
    obtain ⟨y, -, zs, hzs, rfl⟩ := h
    simp [ih hzs]

lemma length_snapshotRequest {v : SubmitFrame} {bytes : List (BitVec 8)} {ds : List Disposition}
    (h : snapshotRequest env v = .ok (bytes, ds)) :
    bytes.length = v.requestBytes ∧ ds.length = v.resourceCount := by
  simp only [snapshotRequest, copyFrom, copyArray] at h
  grind [length_mapM, List.length_range]

lemma Acceptable.setProtocol (h : w.Acceptable) {p : ℕ} {s : ProtocolState}
    (hs : ∀ r ∈ s.fifo.items, (w.descriptors p).accepts r = true) :
    (w.setProtocol p s).Acceptable := by
  intro q r hr
  by_cases hq : q = p
  · subst hq
    exact hs r (by simpa [SubmitWorld.setProtocol] using hr)
  · exact h q r (by simpa [SubmitWorld.setProtocol, hq] using hr)

lemma accepts_newRequest {p : Prepared} {owner : ℕ} {records : List TransferRecord}
    (hprepare : prepareSubmit env w t target frame output oneway = .ok p)
    (htarget : p.target = .client owner) (hrecords : records.length = p.dispositions.length) :
    (w.descriptors owner).accepts (newRequest id p oneway records) = true := by
  rw [prepareSubmit] at hprepare
  iterate 8
    split at hprepare
    · cases hprepare
  split at hprepare
  · cases hprepare
  rename_i bytes ds hsnap
  iterate 2
    split at hprepare
    · cases hprepare
  dsimp only at hprepare
  split at hprepare
  · cases hprepare
  rename_i hcheck
  cases hprepare
  dsimp only at htarget hrecords
  subst htarget
  obtain ⟨hbytes, hds⟩ := length_snapshotRequest hsnap
  simp only [checkClient] at hcheck
  simp only [ProtocolDescriptor.accepts, newRequest, hbytes, hrecords, hds]
  grind

lemma accepts_of_same {d : ProtocolDescriptor} {r r' : InvocationRequest}
    (h : d.accepts r = true) (hmethod : r'.methodId = r.methodId) (hbytes : r'.bytes = r.bytes)
    (hresources : r'.resources.length = r.resources.length)
    (hresponder : r'.responder = r.responder) : d.accepts r' = true := by
  rw [ProtocolDescriptor.accepts, hmethod, hbytes, hresources, hresponder]
  exact h

lemma mem_push {p : ProtocolState} {r x : InvocationRequest} (hx : x ∈ (p.push r).fifo.items) :
    x ∈ p.fifo.items ∨ x = { r with queuedResourceCount := resourceCountOf r } := by
  simp only [push, BoundedQueue.tryPush] at hx
  split_ifs at hx <;> simp_all

lemma claim_items {p s : ProtocolState} {r : InvocationRequest} (h : p.claim = .ok (r, s)) :
    s.fifo.items = p.fifo.items ∧ r ∈ p.fifo.items := by
  obtain ⟨-, -, hhead, rfl⟩ := claim_eq_ok h
  exact ⟨rfl, List.mem_of_mem_head? hhead⟩

lemma Acceptable.submit (h : w.Acceptable)
    (hstep : w.submit self id env t target frame output oneway = some w') : w'.Acceptable := by
  rw [SubmitWorld.submit] at hstep
  split at hstep
  next p e hprepare henter =>
    split at hstep
    · cases hstep
    rename_i owner htarget
    dsimp only at hstep
    split_ifs at hstep with htaken
    cases hstep
    obtain ⟨es, hes, -, -, heq⟩ := takeNativeBatch_ok (not_not.1 htaken)
    refine h.setProtocol fun r hr => ?_
    rcases mem_push hr with hr | rfl
    · exact h owner r hr
    · have hcount := congrArg List.length hes
      refine accepts_of_same (accepts_newRequest hprepare htarget ?_) rfl rfl rfl rfl
      rw [heq]
      simpa [newRequest, commitNativeBatch, recordsOf] using hcount
  · cases hstep

lemma Acceptable.step (h : w.Acceptable) {a : QueueAction} (hstep : w.step a = some w') :
    w'.Acceptable := by
  cases a with
  | submit self id env t target frame output oneway => exact h.submit hstep
  | claim p =>
    obtain ⟨c, hc, rfl⟩ := Option.map_eq_some_iff.1 hstep
    cases hclaim : (w.protocols p).claim with
    | error status => simp [hclaim, Except.toOption] at hc
    | ok c' =>
      obtain rfl : c' = c := by simpa [hclaim, Except.toOption] using hc
      exact h.setProtocol fun r hr => h p r ((claim_items hclaim).1 ▸ hr)
  | giveBack p i n =>
    cases hstep
    refine h.setProtocol fun r hr => ?_
    have hout : r ∈ ((w.protocols p).moveOut n).fifo.items := by
      simpa only [cancelClaim, BoundedQueue.cancelClaim, apply_ite
        (fun s : ProtocolState => s.fifo.items), ite_self] using hr
    cases hitems : (w.protocols p).fifo.items with
    | nil => simp [moveOut, hitems] at hout
    | cons x xs =>
      simp only [moveOut, hitems, List.modifyHead_cons, List.mem_cons] at hout
      rcases hout with rfl | hout
      · exact accepts_of_same (h p x (by simp [hitems])) rfl rfl List.length_mapIdx rfl
      · exact h p r (by simp [hitems, hout])
  | commit p r =>
    cases hstep
    refine h.setProtocol fun r hr => h p r ?_
    simp only [commitClaim, BoundedQueue.commitClaim] at hr
    split_ifs at hr
    · exact List.mem_of_mem_tail hr
    · exact hr
    · exact hr
  | remove p i =>
    obtain ⟨c, hc, rfl⟩ := Option.map_eq_some_iff.1 hstep
    refine h.setProtocol fun r hr => h p r ?_
    simp only [removeQueued, BoundedQueue.removeAt] at hc
    grind [List.mem_of_mem_eraseIdx]
  | acquire p role location =>
    cases hstep
    exact h.setProtocol fun r hr => h p r hr
  | release p role location =>
    cases hstep
    refine h.setProtocol fun r hr => h p r ?_
    split at hr
    · rw [closeServerQueue] at hr
      split at hr
      · exact hr
      · simp at hr
    · exact hr
  | budget b =>
    cases hstep
    exact h

/-- **Admission implies delivery.**  Whatever the descriptors, every request that a receive
claims in a run passes its validation. -/
theorem accepts_of_claim {as : List QueueAction} {p : ℕ} {r : InvocationRequest}
    {s : ProtocolState} (hempty : ∀ p, (w.protocols p).fifo.items = [])
    (hrun : exec SubmitWorld.step w as = some w') (hclaim : (w'.protocols p).claim = .ok (r, s)) :
    (w'.descriptors p).accepts r = true := by
  have hstart : w.Acceptable := by
    intro p r hr
    simp [hempty p] at hr
  have hend := exec_invariant (fun _ _ _ h hstep => Acceptable.step h hstep) hstart hrun
  exact hend p r (claim_items hclaim).2

/-- A request with a file is queued, claimed, and given back without the file. -/
def fileMovedOut : List QueueAction :=
  [.submit 0 5 (movingEnv 2 false) callerTable 1 0x1000 0x3000 false, .claim 7, .giveBack 7 5 1]

theorem accepts_of_claim_fileMovedOut : ∃ w' r s,
    exec SubmitWorld.step oneMethod fileMovedOut = some w' ∧
      (w'.protocols 7).claim = .ok (r, s) ∧ (w'.descriptors 7).accepts r = true := by
  obtain ⟨w', hrun⟩ : ∃ w', exec SubmitWorld.step oneMethod fileMovedOut = some w' := ⟨_, rfl⟩
  obtain ⟨r, s, hclaim⟩ : ∃ r s, (w'.protocols 7).claim = .ok (r, s) := by
    cases hrun
    exact ⟨_, _, rfl⟩
  exact ⟨w', r, s, hrun, hclaim, accepts_of_claim (fun _ => rfl) hrun hclaim⟩

end SubmitWorld

end Naos.Ipc
