import Naos.Ipc.Protocol

/-!
# The objects behind the handles

Everything a capability hook can reach: the channels, the protocols, the invocations and
the driver ends of terminals.  Restricting a handle moves its object from one table entry
to another, and tells the object so by an acquire and a release of the table root.  For
objects that count their capabilities the two cancel out.  For an invocation and for a
responder they do not: there the release is the end of the call.
-/

namespace Naos.Ipc

open Capability Function Option ResourceTable InvocationState

/-- `terminal_driver_control` and the identity it holds. -/
structure TerminalControl where
  capabilityReferences : BitVec 64 := 0
  revoked : Bool := false
  foreground : ℕ := 0
  deriving DecidableEq

/-- The objects.  `responderConsumed` is the flag of the responder object of an
invocation, `hangups` the process groups that were told that their terminal is gone, and
`discarded` the requests that a closing server end has thrown out of its queue. -/
structure ObjectWorld where
  channel : ChannelWorld
  protocols : ℕ → ProtocolState
  budget : ProtocolBudget := {}
  invocations : ℕ → InvocationState := fun _ => {}
  responderConsumed : ℕ → Bool := fun _ => false
  terminals : ℕ → TerminalControl := fun _ => {}
  hangups : List ℕ := []
  discarded : List InvocationRequest := []

namespace ObjectWorld

variable (w : ObjectWorld)

def wake : ObjectWorld := { w with channel := w.channel.notifyChannelWaiters }

def wakeIf (condition : Bool) : ObjectWorld := if condition then w.wake else w

def setProtocol (p : ℕ) (s : ProtocolState) : ObjectWorld :=
  { w with protocols := update w.protocols p s }

def runSection {α : Type} (i : ℕ) (o : Section α) : ObjectWorld :=
  { w with invocations := update w.invocations i o.state }.wakeIf o.wake

def setTerminal (i : ℕ) (t : TerminalControl) : ObjectWorld :=
  { w with terminals := update w.terminals i t }

/-- What `close_server_queue` does with one request it has thrown out. -/
def discardRequest (r : InvocationRequest) : ObjectWorld :=
  w.runSection r.state ((w.invocations r.state).clearQueueOwner.completeNotDelivered .peerClosed)

def closeServerQueue (p : ℕ) : ObjectWorld :=
  let (s, requests) := (w.protocols p).closeServerQueue
  let closed := { w.setProtocol p s with budget := w.budget.releaseAll requests }
  let told := requests.foldl discardRequest closed
  { told with discarded := told.discarded ++ requests }.wake

def endpointReleased (p : ℕ) (role : Role) (location : Location) : ObjectWorld :=
  let w' := w.setProtocol p ((w.protocols p).released role location)
  if (w.protocols p).closesServer role location then w'.closeServerQueue p else w'

/-- `close_client`, with the budget of its result. -/
def closeClient (i : ℕ) : ObjectWorld :=
  let s := w.invocations i
  let o := s.closeClient
  let w' := w.runSection i o
  if o.value then
    { w' with budget := w'.budget.release s.maxResponseBytes s.maxResponseResources }
  else w'

/-- `release_capability` of a terminal driver: the identity is revoked once, and the
foreground group hangs up. -/
def releaseCapability (i : ℕ) : ObjectWorld :=
  let t := w.terminals i
  if t.revoked then w
  else
    let w' := w.setTerminal i { t with revoked := true, foreground := 0 }
    if t.foreground = 0 then w' else { w' with hangups := w'.hangups ++ [t.foreground] }

def terminalReleased (i : ℕ) : ObjectWorld :=
  let t := w.terminals i
  let w' := w.setTerminal i { t with capabilityReferences := t.capabilityReferences - 1 }
  if t.capabilityReferences = 1 then w'.releaseCapability i else w'

def hook : Hook → ObjectWorld
  | .acquire (.protocolEndpoint p role) l =>
    w.setProtocol p ((w.protocols p).endpointAcquired role l)
  | .release (.protocolEndpoint p role) l | .handoff (.protocolEndpoint p role) l _ =>
    w.endpointReleased p role l
  | .release (.invocation i) .tableRoot => w.closeClient i
  | .release (.responder i) .tableRoot =>
    if w.responderConsumed i then w else w.runSection i (w.invocations i).abandonResponder
  | .acquire (.terminalDriverControl i) _ =>
    w.setTerminal i
      { w.terminals i with
        capabilityReferences := (w.terminals i).capabilityReferences + 1 }
  | .release (.terminalDriverControl i) _ | .handoff (.terminalDriverControl i) _ _ =>
    w.terminalReleased i
  | h => { w with channel := w.channel.hook h }

def applyHooks (hooks : List Hook) : ObjectWorld := hooks.foldl hook w

end ObjectWorld

/-! ## Restricting a handle -/

/-- `restrict_native` followed by `commit_restrict`: the status and the new handle. -/
def restrictHandle (t : ResourceTable) (source : Handle) (r : Restriction) :
    Outcome (Status × Handle) :=
  let o := t.restrictNative source r
  if o.value.1 ≠ .ok then { value := (o.value.1, 0), table := o.table }
  else
    let o' := o.table.commitRestrict source o.value.2.1
    { value := (o'.value, o.value.2.1), table := o'.table, hooks := o'.hooks }

/-- **A restriction keeps the object**: the entry stands under a new handle with the
restricted metadata instead of the old one, every other entry and the count are the same,
and so is everything behind the handles. -/
structure RestrictKeepsObject (t t' : ResourceTable) (w w' : ObjectWorld)
    (source restricted : Handle) (r : Restriction) : Prop where
  fresh : t.get restricted = none
  gone : t'.get source = none
  replaced : ∃ e, t.get source = some e ∧ t'.get restricted = some
      { e with generation := restricted, info := restrictedInfo e.info r }
  others : ∀ h, h ≠ source → h ≠ restricted → t'.get h = t.get h
  count : t'.nativeEntryCount = t.nativeEntryCount
  objects : w' = w

/-- The object does not notice an acquire and a release of the table root.  A server end
and a terminal driver are counted, so they must not be at zero; an invocation must have
nothing left that `close_client` would change, and a responder nothing that
`abandon_responder` would. -/
def Undisturbed (w : ObjectWorld) : KObject → Prop
  | .rawChannelEnd _ _ | .protocolEndpoint _ .client | .plain _ _ => True
  | .protocolEndpoint p .server => (w.protocols p).owners .server ≠ 0
  | .invocation i =>
    (w.invocations i).clientClosed = true ∧ (w.invocations i).responseBytes = [] ∧
      (w.invocations i).responseResources = [] ∧
      (w.invocations i).resultBudgetReserved = false
  | .responder i => w.responderConsumed i = true ∨ (w.invocations i).responderAlive = false
  | .terminalDriverControl i =>
    (w.terminals i).capabilityReferences ≠ 0 ∨ (w.terminals i).revoked = true

/-! ## One kind of object after the other -/

namespace ObjectWorld

variable (w : ObjectWorld) (p i : ℕ)

lemma setProtocol_self : w.setProtocol p (w.protocols p) = w := by
  rw [setProtocol, update_eq_self]

lemma setProtocol_setProtocol (s s' : ProtocolState) :
    (w.setProtocol p s).setProtocol p s' = w.setProtocol p s' := by
  simp [setProtocol]

lemma protocols_setProtocol (s : ProtocolState) : (w.setProtocol p s).protocols p = s := by
  simp [setProtocol]

lemma setTerminal_self : w.setTerminal i (w.terminals i) = w := by
  rw [setTerminal, update_eq_self]

lemma setTerminal_setTerminal (t t' : TerminalControl) :
    (w.setTerminal i t).setTerminal i t' = w.setTerminal i t' := by
  simp [setTerminal]

lemma terminals_setTerminal (t : TerminalControl) :
    (w.setTerminal i t).terminals i = t := by
  simp [setTerminal]

lemma invocations_runSection {α : Type} (o : Section α) :
    (w.runSection i o).invocations i = o.state := by
  rw [runSection, wakeIf]
  split
  · simp [wake]
  · simp

lemma runSection_self {α : Type} {o : Section α} (hstate : o.state = w.invocations i)
    (hwake : o.wake = false) : w.runSection i o = w := by
  rw [runSection, hstate, update_eq_self, hwake]
  rfl

lemma hook_rawChannelEnd (c : ℕ) (side : Side) :
    (w.hook (.acquire (.rawChannelEnd c side) .tableRoot)).hook
      (.release (.rawChannelEnd c side) .tableRoot) = w := by
  have hcancel : (w.channel.hook (.acquire (.rawChannelEnd c side) .tableRoot)).hook
      (.release (.rawChannelEnd c side) .tableRoot) = w.channel := by
    change w.channel.applyHooks [.acquire (.rawChannelEnd c side) .tableRoot,
      .release (.rawChannelEnd c side) .tableRoot] = w.channel
    apply applyHooks_of_cancel
    · intro c' side'
      by_cases h : KObject.rawChannelEnd c side = .rawChannelEnd c' side' <;>
        simp [ownersSum, ownersDelta, h]
    · intro c' side'
      by_cases h : KObject.rawChannelEnd c side = .rawChannelEnd c' side' <;>
        simp [rootsSum, rootsDelta, h]
  calc (w.hook (.acquire (.rawChannelEnd c side) .tableRoot)).hook
        (.release (.rawChannelEnd c side) .tableRoot)
      = { w with
          channel := (w.channel.hook (.acquire (.rawChannelEnd c side) .tableRoot)).hook
            (.release (.rawChannelEnd c side) .tableRoot) } := rfl
    _ = w := by rw [hcancel]

lemma released_endpointAcquired (s : ProtocolState) (role : Role) :
    (s.endpointAcquired role .tableRoot).released role .tableRoot = s := by
  simp [ProtocolState.endpointAcquired, ProtocolState.released]

lemma hook_protocolEndpoint (role : Role)
    (h : role = .server → (w.protocols p).owners .server ≠ 0) :
    (w.hook (.acquire (.protocolEndpoint p role) .tableRoot)).hook
      (.release (.protocolEndpoint p role) .tableRoot) = w := by
  have hopen : ((w.protocols p).endpointAcquired role .tableRoot).closesServer role .tableRoot
      = false := by
    rw [ProtocolState.closesServer, released_endpointAcquired]
    simpa using h
  rw [hook, hook, endpointReleased, protocols_setProtocol, hopen, released_endpointAcquired,
    setProtocol_setProtocol, setProtocol_self]
  rfl

/-! ## The end of a server -/

lemma generation_runSection {α : Type} (o : Section α) :
    w.channel.waitGeneration ≤ (w.runSection i o).channel.waitGeneration := by
  rw [runSection, wakeIf]
  split
  · exact Nat.le_succ _
  · exact le_refl _

lemma generation_foldl_discardRequest (rs : List InvocationRequest) (w : ObjectWorld) :
    w.channel.waitGeneration ≤ (rs.foldl discardRequest w).channel.waitGeneration := by
  induction rs generalizing w with
  | nil => exact le_refl _
  | cons r rs ih => exact le_trans (generation_runSection w _ _) (ih (w.discardRequest r))

lemma generation_closeServerQueue :
    w.channel.waitGeneration < (w.closeServerQueue p).channel.waitGeneration := by
  exact Nat.lt_succ_of_le (generation_foldl_discardRequest _
    { w.setProtocol p (w.protocols p).closeServerQueue.1 with
      budget := w.budget.releaseAll (w.protocols p).closeServerQueue.2 })

lemma hook_serverEnd_ne (h : (w.protocols p).owners .server = 0) :
    (w.hook (.acquire (.protocolEndpoint p .server) .tableRoot)).hook
      (.release (.protocolEndpoint p .server) .tableRoot) ≠ w := by
  have hcloses : ((w.protocols p).endpointAcquired .server .tableRoot).closesServer .server
      .tableRoot = true := by
    rw [ProtocolState.closesServer, released_endpointAcquired]
    simpa using h
  intro heq
  rw [hook, hook, endpointReleased, protocols_setProtocol, hcloses, if_pos rfl] at heq
  have hgen := generation_closeServerQueue
    ((w.setProtocol p ((w.protocols p).endpointAcquired .server .tableRoot)).setProtocol p
      (((w.protocols p).endpointAcquired .server .tableRoot).released .server .tableRoot)) p
  rw [heq] at hgen
  exact lt_irrefl _ hgen

/-! ## The end of a call -/

lemma closeClient_eq_self_iff : w.closeClient i = w ↔ Undisturbed w (.invocation i) := by
  constructor
  · intro h
    have hstate : (w.invocations i).closeClient.state = w.invocations i := by
      have hi := congrArg (fun w' => ObjectWorld.invocations w' i) h
      rw [closeClient] at hi
      split at hi
      · rw [invocations_runSection] at hi
        exact hi
      · rw [invocations_runSection] at hi
        exact hi
    rw [Undisturbed, ← hstate]
    exact ⟨rfl, rfl, rfl, rfl⟩
  · rintro ⟨hclosed, hbytes, hres, hbudget⟩
    have hstate : (w.invocations i).closeClient.state = w.invocations i := by
      rw [InvocationState.closeClient]
      cases hs : w.invocations i
      simp_all
    have hvalue : (w.invocations i).closeClient.value = false := hbudget
    rw [closeClient]
    rw [hvalue]
    exact runSection_self w i hstate rfl

lemma responderAlive_publishEmpty (s : InvocationState) (outcome : Execution)
    (reason : Reason) : (s.publishEmpty outcome reason).state.responderAlive
      = s.responderAlive := by
  rw [publishEmpty, publishLockedNoWake]
  by_cases h : s.publishable = true <;> simp [h]

lemma responderAlive_abandonResponder (s : InvocationState) :
    s.abandonResponder.state.responderAlive = false := by
  rw [abandonResponder]
  split
  · assumption
  · cases s.phase with
    | queued | dispatched => rw [responderAlive_publishEmpty]
    | receiving | ready | consumed => rfl

lemma release_responder_eq_self_iff :
    w.hook (.release (.responder i) .tableRoot) = w ↔ Undisturbed w (.responder i) := by
  rw [hook, Undisturbed]
  by_cases hconsumed : w.responderConsumed i = true
  · simp [hconsumed]
  rw [if_neg hconsumed]
  constructor
  · intro h
    have hi := congrArg (fun w' => (ObjectWorld.invocations w' i).responderAlive) h
    rw [invocations_runSection, responderAlive_abandonResponder] at hi
    exact .inr hi.symm
  · intro h
    have hdead := h.resolve_left hconsumed
    apply runSection_self
    · rw [abandonResponder, if_pos hdead]
    · rw [abandonResponder, if_pos hdead]

lemma hook_terminal_eq_self_iff :
    (w.hook (.acquire (.terminalDriverControl i) .tableRoot)).hook
        (.release (.terminalDriverControl i) .tableRoot) = w ↔
      Undisturbed w (.terminalDriverControl i) := by
  have hback : ∀ t : TerminalControl,
      { t with capabilityReferences := t.capabilityReferences + 1 - 1 } = t := by
    intro t
    simp
  rw [hook, hook, terminalReleased, terminals_setTerminal, setTerminal_setTerminal, Undisturbed]
  rw [hback, setTerminal_self]
  have hone : (w.terminals i).capabilityReferences + 1 = 1 ↔
      (w.terminals i).capabilityReferences = 0 := by
    simp
  by_cases hzero : (w.terminals i).capabilityReferences = 0
  · rw [if_pos (hone.2 hzero), releaseCapability]
    by_cases hrev : (w.terminals i).revoked = true
    · simp [hrev]
    refine iff_of_false ?_ (by simp [hzero, hrev])
    intro h
    have hi := congrArg (fun w' => (ObjectWorld.terminals w' i).revoked) h
    rw [if_neg hrev] at hi
    split at hi
    · rw [terminals_setTerminal] at hi
      exact hrev hi.symm
    · rw [terminals_setTerminal] at hi
      exact hrev hi.symm
  · rw [if_neg fun h => hzero (hone.1 h)]
    exact iff_of_true rfl (.inl hzero)

/-- **An acquire and a release of the table root** go unnoticed exactly by the
undisturbed objects. -/
theorem acquire_release_eq_self_iff (o : KObject) :
    (w.hook (.acquire o .tableRoot)).hook (.release o .tableRoot) = w ↔ Undisturbed w o := by
  cases o with
  | rawChannelEnd c side => exact iff_of_true (hook_rawChannelEnd w c side) trivial
  | protocolEndpoint p role =>
    cases role with
    | client => exact iff_of_true (hook_protocolEndpoint w p .client (by simp)) trivial
    | server =>
      constructor
      · intro h hzero
        exact hook_serverEnd_ne w p hzero h
      · intro h
        exact hook_protocolEndpoint w p .server fun _ => h
  | invocation i =>
    exact closeClient_eq_self_iff w i
  | responder i =>
    exact release_responder_eq_self_iff w i
  | terminalDriverControl i => exact hook_terminal_eq_self_iff w i
  | plain type id => exact iff_of_true rfl trivial

end ObjectWorld

/-! ## The restriction -/

lemma restrictHandle_ok {t : ResourceTable} {source : Handle} {r : Restriction}
    (h : (restrictHandle t source r).value.1 = .ok) :
    ∃ e o, t.get source = some e ∧ e.object = some o ∧ e.state = .active ∧
      source ≠ t.nextNativeHandle ∧ (restrictHandle t source r).value.2 = t.nextNativeHandle ∧
      (restrictHandle t source r).hooks = [.acquire o .tableRoot, .release o .tableRoot] ∧
      (restrictHandle t source r).table.nativeEntryCount = t.nativeEntryCount ∧
      (restrictHandle t source r).table.get source = none ∧
      (restrictHandle t source r).table.get t.nextNativeHandle = some
        { e with
          generation := t.nextNativeHandle
          info := restrictedInfo e.info r } ∧
      ∀ k, k ≠ source → k ≠ t.nextNativeHandle →
        (restrictHandle t source r).table.get k = t.get k := by
  rw [restrictHandle] at h
  split at h
  next hfail => exact absurd h hfail
  rename_i hok
  rw [not_not] at hok
  dsimp only at h
  obtain ⟨e, next, hget, hactive, -, -, hrestrict⟩ := restrictNative_ok hok
  obtain ⟨s, p, o, hs, hp, ho, hstate, -, hcommit⟩ := commitRestrict_ok h
  have hresult : restrictHandle t source r =
      { value := (.ok, t.nextNativeHandle)
        table := ((t.restrictNative source r).table.commitRestrict source t.nextNativeHandle).table
        hooks := ((t.restrictNative source r).table.commitRestrict source
          t.nextNativeHandle).hooks } := by
    rw [restrictHandle]
    dsimp only
    rw [if_neg (not_not.2 hok), h, hrestrict]
  rw [hrestrict] at hs hp hcommit
  have hne : source ≠ t.nextNativeHandle := by
    intro heq
    rw [heq, get_put_self, Option.some.injEq] at hs
    rw [← hs] at hstate
    exact EntryState.noConfusion hstate
  rw [get_put_of_ne hne, get_set_self, Option.some.injEq] at hs
  rw [get_put_self, Option.some.injEq] at hp
  subst hs
  subst hp
  refine ⟨e, o, hget, ho, hactive, hne, ?_⟩
  rw [hresult, hrestrict]
  rw [hcommit]
  refine ⟨rfl, rfl, ?_, get_drop_self _, ?_, ?_⟩
  · exact Counter.add_sub_cancel t.nativeEntryCount 1
  · rw [get_drop_of_ne hne.symm, get_set_self, Option.some.injEq]
    simp_all
  · intro k hk hk'
    rw [get_drop_of_ne hk, get_set_of_ne hk', get_put_of_ne hk', get_set_of_ne hk]
    rfl

/-- **Exactly when a restriction keeps the object**: the new handle is unused, as handles
are never given out twice, and the object is undisturbed. -/
theorem restrictKeepsObject_iff (t : ResourceTable) (w : ObjectWorld) (source : Handle)
    (r : Restriction) (h : (restrictHandle t source r).value.1 = .ok) :
    RestrictKeepsObject t (restrictHandle t source r).table w
        (w.applyHooks (restrictHandle t source r).hooks) source
        (restrictHandle t source r).value.2 r ↔
      t.get t.nextNativeHandle = none ∧
        ∀ e o, t.get source = some e → e.object = some o → Undisturbed w o := by
  obtain ⟨e, o, hget, hobject, -, hne, hhandle, hhooks, hcount, hgone, hnew, hothers⟩ :=
    restrictHandle_ok h
  have hworld : w.applyHooks (restrictHandle t source r).hooks
      = (w.hook (.acquire o .tableRoot)).hook (.release o .tableRoot) := by
    rw [hhooks]
    rfl
  rw [hhandle, hworld]
  constructor
  · intro hkeep
    refine ⟨hkeep.fresh, ?_⟩
    intro e' o' hget' hobject'
    rw [hget, Option.some.injEq] at hget'
    subst hget'
    rw [hobject, Option.some.injEq] at hobject'
    subst hobject'
    exact (w.acquire_release_eq_self_iff o).1 hkeep.objects
  · rintro ⟨hfresh, hundisturbed⟩
    exact ⟨hfresh, hgone, ⟨e, hget, hnew⟩, hothers, hcount,
      (w.acquire_release_eq_self_iff o).2 (hundisturbed e o hget hobject)⟩

def oneHandle (o : KObject) (binding : Binding) : ResourceTable :=
  (({} : ResourceTable).installNative (some o)
    { binding := binding, metaRights := rightTransfer ||| rightWait ||| rightInspect }).table

def freshWorld : ObjectWorld where
  channel := { channels := fun _ => newChannel defaultLimits }
  protocols := fun _ => { fifo := { capacity := 64 }, maxBytes := 65536, maxResources := 64 }

def withoutTransfer : Restriction :=
  { flags := RestrictionFlag.metaRights.bit, metaRights := rightWait ||| rightInspect }

theorem restrictKeepsObject_rawEnd :
    RestrictKeepsObject (oneHandle (.rawChannelEnd 0 0) .rawChannelEnd)
      (restrictHandle (oneHandle (.rawChannelEnd 0 0) .rawChannelEnd) 1 withoutTransfer).table
      freshWorld
      (freshWorld.applyHooks
        (restrictHandle (oneHandle (.rawChannelEnd 0 0) .rawChannelEnd) 1 withoutTransfer).hooks)
      1 (restrictHandle (oneHandle (.rawChannelEnd 0 0) .rawChannelEnd) 1 withoutTransfer).value.2
      withoutTransfer := by
  refine (restrictKeepsObject_iff _ _ _ _ (by decide)).2 ⟨by decide, ?_⟩
  intro e o hget hobject
  have he : e = ⟨some (.rawChannelEnd 0 0), 1, .active,
      { binding := .rawChannelEnd, metaRights := rightTransfer ||| rightWait ||| rightInspect }⟩ :=
    (some.inj hget).symm
  rw [he, Option.some.injEq] at hobject
  rw [← hobject]
  trivial

/-- Restricting the responder of a call that was delivered answers the call: the caller
reads an unknown outcome. -/
theorem not_restrictKeepsObject_responder :
    (restrictHandle (oneHandle (.responder 5) .responder) 1 withoutTransfer).value.1 = .ok ∧
      ¬ RestrictKeepsObject (oneHandle (.responder 5) .responder)
        (restrictHandle (oneHandle (.responder 5) .responder) 1 withoutTransfer).table
        { freshWorld with invocations := fun _ => { phase := .dispatched } }
        ({ freshWorld with invocations := fun _ => { phase := .dispatched } }.applyHooks
          (restrictHandle (oneHandle (.responder 5) .responder) 1 withoutTransfer).hooks)
        1 (restrictHandle (oneHandle (.responder 5) .responder) 1 withoutTransfer).value.2
        withoutTransfer := by
  refine ⟨by decide, ?_⟩
  intro h
  have hphase := congrArg (fun w => (ObjectWorld.invocations w 5).phase) h.objects
  exact absurd hphase (by decide)

end Naos.Ipc
