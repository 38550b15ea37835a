import Naos.Ipc.Interference

/-!
# Delivery through a raw channel

The two directions of one raw channel, with the tables of the processes that use it.  A
message is a cell of the heap, and a queue holds the addresses of its messages.  A receive
claims the head of a queue, reserves handles for the capabilities of the message, copies
the bytes out, moves one capability after the other into the reserved entries, and commits
the claim; where a step fails it takes back what it did and cancels the claim.  A discard
takes the head at once.  Every section that runs under a lock is one step.

The message is emptied while it is still in the queue, which is right because activating a
capability cannot fail: the handles were reserved by the same call, and nobody else works
on an entry that no lookup shows.
-/

namespace Naos.Ipc

open Capability Function Transition List Option Sublist
open ResourceTable hiding get set put drop clear

/-! ## The state -/

/-- What a message is for its receiver: the bytes, and the capabilities with their
metadata. -/
structure Parcel where
  bytes : List (BitVec 8)
  resources : List (Option KObject × Metadata)
  deriving DecidableEq

def parcelResource (r : TransferredResource) : Option KObject × Metadata := (r.object, r.info)

def ChannelMessage.parcel (m : ChannelMessage) : Parcel where
  bytes := m.bytes
  resources := m.resources.map parcelResource

/-- The part of `na_channel_receive_frame_t` that is compared with the message. -/
structure ReceiveFrame where
  byteCapacity : ℕ
  resourceCapacity : ℕ
  deriving DecidableEq

/-- Where a call of `receive_raw_channel` is, once it holds the claim. -/
inductive ReceiveStage where
  | claimed
  | reserving
  | copying (handles : List Handle)
  /-- The loop over the capabilities: the next index, the bytes that were copied out, and
  what the table shows under the handles activated so far. -/
  | activating (handles : List Handle) (index : ℕ) (bytes : List (BitVec 8))
      (installed : List (Option KObject × Metadata))
  /-- A failure in that loop at index `upto`: the handles before it are closed. -/
  | closing (handles : List Handle) (upto index : ℕ)
  | rollingBack (handles : List Handle)
  | cancelling
  deriving DecidableEq

/-- A call that holds the claim on a message, in the process `pid`. -/
structure Receive where
  pid : ℕ
  message : ℕ
  frame : ReceiveFrame
  stage : ReceiveStage
  deriving DecidableEq

def ReceiveStage.unpublished : ReceiveStage → List Handle
  | .copying handles | .rollingBack handles | .closing handles _ _ => handles
  | .activating handles index _ _ => handles.drop index
  | .claimed | .reserving | .cancelling => []

/-- One direction: the queue towards a side with its totals, the call that holds the claim,
and the history.  No operation reads the last two fields. -/
structure Lane where
  fifo : BoundedQueue ℕ
  bytes : ℕ := 0
  resources : ℕ := 0
  receive : Option Receive := none
  sent : List Parcel := []
  /-- The messages that have left: what a committed receive has copied out and installed,
  and what a discard has destroyed. -/
  removed : List Parcel := []

/-- One channel, with everything that its operations work on. -/
structure RawChannel where
  lanes : Side → Lane
  heap : ℕ → ChannelMessage := fun _ => {}
  nextMessage : ℕ := 0
  owners : Side → BitVec 64 := fun _ => 0
  maxBytes : ℕ
  maxResources : ℕ
  tables : ℕ → ResourceTable := fun _ => {}
  transfers : List (List TransferRecord) := []

def RawChannel.initial (l : Limits) : RawChannel where
  lanes := fun _ => { fifo := { capacity := l.messages } }
  maxBytes := l.bytes
  maxResources := l.resources

def Lane.unpublished (l : Lane) (pid : ℕ) : List Handle :=
  match l.receive with
  | some r => if r.pid = pid then r.stage.unpublished else []
  | none => []

def Lane.push (l : Lane) (fifo : BoundedQueue ℕ) (m : ChannelMessage) : Lane :=
  { l with
    fifo := fifo
    bytes := l.bytes + m.bytes.length
    resources := l.resources + m.resources.length
    sent := l.sent ++ [m.parcel] }

/-! ## The steps -/

inductive RawAction where
  | setOwners (side : Side) (count : BitVec 64)
  | table (pid : ℕ) (st : TableStep)
  /-- `take_native_batch`, for a send to this channel. -/
  | take (pid : ℕ) (ds : List Disposition) (target : Handle) (allocated : Bool)
  | produce (objects : List (KObject × Metadata))
  /-- The locked part of `enqueue`, or of `enqueue_kernel` with a limit on the queue.
  `budget` says whether `reserve_global` succeeds. -/
  | send (transfer : ℕ) (sender : Side) (bytes : List (BitVec 8)) (limit : ℕ) (budget : Bool)
  | claim (side : Side) (pid : ℕ) (frame : ReceiveFrame)
  /-- The next section of the call that holds the claim; `succeeds` decides what is not
  decided by the state: whether the ranges are valid, the vector could grow, and the copies
  succeed. -/
  | advance (side : Side) (succeeds : Bool)
  | discard (side : Side)

namespace RawChannel

variable (s : RawChannel)

def content (p : ℕ) : Parcel := (s.heap p).parcel

variable (side : Side)

def setLane (l : Lane) : RawChannel :=
  { s with lanes := update s.lanes side l }

def setTable (pid : ℕ) (t : ResourceTable) : RawChannel :=
  { s with tables := update s.tables pid t }

def unpublished (pid : ℕ) : List Handle :=
  (s.lanes 0).unpublished pid ++ (s.lanes 1).unpublished pid

/-- The checks of `enqueue` on a message that was made for `count` resources. -/
def admits (receiver : Side) (bytes count limit : ℕ) (budget : Bool) : Bool :=
  let q := s.lanes receiver
  decide (count ≤ s.maxResources) && decide (bytes ≤ s.maxBytes) &&
    decide (s.owners receiver ≠ 0) &&
    !(decide (limit ≠ 0) && decide (limit ≤ q.fifo.size)) && !q.fifo.full &&
    decide (q.bytes ≤ s.maxBytes - bytes) && decide (q.resources ≤ s.maxResources - count) &&
    budget

def push (receiver : Side) (m : ChannelMessage) : RawChannel :=
  let q := s.lanes receiver
  match q.fifo.tryPush s.nextMessage with
  | none => s
  | some fifo =>
    { s.setLane receiver (q.push fifo m) with
      heap := update s.heap s.nextMessage m
      nextMessage := s.nextMessage + 1 }

/-- The lane after its claimed head has left, with what is known of it. -/
def pop (l : Lane) (m : ChannelMessage) (p : Parcel) : Lane :=
  { l with
    fifo := l.fifo.commitClaim
    bytes := Counter.sub l.bytes m.bytes.length
    resources := Counter.sub l.resources m.resources.length
    receive := none
    removed := l.removed ++ [p] }

def holdsClaim (message : ℕ) : Bool :=
  (s.lanes side).fifo.claimed && (s.lanes side).fifo.items.head? == some message

def setStage (r : Receive) (stage : ReceiveStage) : RawChannel :=
  s.setLane side { s.lanes side with receive := some { r with stage := stage } }

/-- `activate_native` for the capability at an index, which leaves the message. -/
def activate (r : Receive) (handles : List Handle) (index : ℕ)
    (bytes : List (BitVec 8)) (installed : List (Option KObject × Metadata)) (h : Handle)
    (resource : TransferredResource) : RawChannel :=
  let o := (s.tables r.pid).activateNative h resource.object resource.info
  if o.value = .ok then
    let m := s.heap r.message
    let shown := (o.table.get h).map fun e => (e.object, e.info)
    { (s.setTable r.pid o.table).setStage side r
        (.activating handles (index + 1) bytes (installed ++ shown.toList)) with
      heap := update s.heap r.message
        { m with resources := m.resources.set index resource.movedFrom } }
  else s.setStage side r (.closing handles index 0)

/-- The end of the loop: `commit_receive`. -/
def commit (r : Receive) (handles : List Handle) (bytes : List (BitVec 8))
    (installed : List (Option KObject × Metadata)) : RawChannel :=
  if s.holdsClaim side r.message then
    s.setLane side (pop (s.lanes side) (s.heap r.message) ⟨bytes, installed⟩)
  else s.setStage side r (.closing handles handles.length 0)

def advance (r : Receive) (succeeds : Bool) : RawChannel :=
  let m := s.heap r.message
  match r.stage with
  | .claimed =>
    if r.frame.byteCapacity < m.bytes.length ∨ r.frame.resourceCapacity < m.resources.length ∨
        succeeds = false then s.setStage side r .cancelling
    else s.setStage side r .reserving
  | .reserving =>
    let o := (s.tables r.pid).reserveNative m.resources.length succeeds
    if o.value.1 = .ok then (s.setTable r.pid o.table).setStage side r (.copying o.value.2)
    else (s.setTable r.pid o.table).setStage side r .cancelling
  | .copying handles =>
    if succeeds then s.setStage side r (.activating handles 0 m.bytes [])
    else s.setStage side r (.rollingBack handles)
  | .activating handles index bytes installed =>
    match m.resources[index]?, handles[index]? with
    | some resource, some h => s.activate side r handles index bytes installed h resource
    | _, _ => s.commit side r handles bytes installed
  | .closing handles upto index =>
    match (handles.take upto)[index]? with
    | some h =>
      (s.setTable r.pid ((s.tables r.pid).closeNative h).table).setStage side r
        (.closing handles upto (index + 1))
    | none => s.setStage side r (.rollingBack handles)
  | .rollingBack handles =>
    (s.setTable r.pid ((s.tables r.pid).rollbackNative handles)).setStage side r .cancelling
  | .cancelling =>
    if s.holdsClaim side r.message then
      s.setLane side { s.lanes side with
        fifo := (s.lanes side).fifo.cancelClaim
        receive := none }
    else s.setLane side { s.lanes side with receive := none }

/-- The step function.  A step that names a batch or a call that does not exist is no
step, and neither is a section of another thread on the handles of a call. -/
def step : RawAction → Option RawChannel
  | .setOwners side n => some { s with owners := update s.owners side n }
  | .table pid st =>
    if st.Respects (s.tables pid) (s.unpublished pid) then
      some (s.setTable pid (st.apply (s.tables pid)))
    else none
  | .take pid ds target allocated =>
    let o := takeNativeBatch pid (s.tables pid) ds target allocated
    if o.value.1 = .ok then
      some { s.setTable pid o.table with transfers := o.value.2 :: s.transfers }
    else some (s.setTable pid o.table)
  | .produce objects =>
    some { s with transfers := (objects.map fun p =>
      { source := 0, moved := false, resource := ⟨some p.1, p.2, true⟩ }) :: s.transfers }
  | .send k sender bytes limit budget =>
    match s.transfers[k]? with
    | none => none
    | some records =>
      let s' := { s with transfers := s.transfers.eraseIdx k }
      if s.admits (peer sender) bytes.length records.length limit budget then
        some (((appendAll (newMessage bytes records.length) records).map
          (s'.push (peer sender))).getD s')
      else some s'
  | .claim side pid frame =>
    match (s.lanes side).fifo.items, (s.lanes side).fifo.claimFront with
    | p :: _, some fifo =>
      some (s.setLane side { s.lanes side with
        fifo := fifo
        receive := some ⟨pid, p, frame, .claimed⟩ })
    | _, _ => some s
  | .advance side succeeds => (s.lanes side).receive.map fun r => s.advance side r succeeds
  | .discard side =>
    match (s.lanes side).fifo.items, (s.lanes side).fifo.claimFront with
    | p :: _, some fifo =>
      let l := pop { s.lanes side with fifo := fifo } (s.heap p) (s.content p)
      some (s.setLane side { l with receive := (s.lanes side).receive })
    | _, _ => some s

end RawChannel

/-! ## The property -/

/-- **The lane delivers what was sent**: what has left is a prefix of what was enqueued, in
the same order and with the same content; while no claim is held the rest is what waits in
the queue, unchanged; and what waits behind a claimed head is unchanged as well. -/
structure Lane.Faithful (s : RawChannel) (l : Lane) : Prop where
  delivered : l.removed <+: l.sent
  once : l.sent.length = l.removed.length + l.fifo.items.length
  waiting : l.fifo.claimed = false → l.sent = l.removed ++ l.fifo.items.map s.content
  behind : l.sent.drop (l.removed.length + 1) = l.fifo.items.tail.map s.content

/-! ## Reserved handles -/

variable {n : ℕ} {t : ResourceTable}

lemma length_reserveLoop {handles : List Handle} (h : (reserveLoop n handles t).value.1 = .ok) :
    (reserveLoop n handles t).value.2.length = handles.length + n := by
  fun_induction reserveLoop n handles t with
  | case1 => rfl
  | case2 => cases h
  | case3 _ _ _ _ _ _ _ ih =>
    rw [ih h, length_append, length_singleton]
    omega

/-- A reservation makes its entries under handles that were in no entry before. -/
lemma reserveLoop_fresh (ht : t.Issued) :
    (reserveLoop n [] t).value.2.Nodup ∧ ∀ h ∈ (reserveLoop n [] t).value.2,
      h ∉ t.nativeHandleMap ∧ h ≠ 0 ∧
        (reserveLoop n [] t).table.get h = some { generation := h } := by
  refine reserveLoop_induct (P := fun handles t₁ => t₁.Issued ∧
    (∀ k ∈ t.nativeHandleMap, k ∈ t₁.nativeHandleMap) ∧ handles.Nodup ∧ ∀ h ∈ handles,
      h ∉ t.nativeHandleMap ∧ h ≠ 0 ∧ t₁.get h = some { generation := h })
    ?_ (fun _ _ h => h.2.2) (by simp) ⟨ht, fun _ hk => hk, by simp⟩
  rintro handles t₁ k t' ⟨ht₁, hsub, hnodup, hall⟩ halloc hk
  have hfresh : Keeps [] t₁ t' ∧ _ ∧ _ ∧ _ := Keeps.allocate ht₁ halloc hk
  have hmap := ResourceTable.map_allocate halloc
  have hnot : ∀ h ∈ handles, h ≠ k := by
    rintro h hh rfl
    exact hfresh.2.1 (hmap ▸ mem_of_get (hall h hh).2.2)
  refine ⟨hfresh.1.issued.put hfresh.2.2.1 _,
    fun h hh => (AList.mem_insert _).2 (.inr (hmap ▸ hsub h hh)), ?_, fun h hh => ?_⟩
  · simpa [nodup_append, hnodup] using hnot
  · rcases mem_append.1 hh with hold | hlast
    · rw [get_put_of_ne (hnot h hold), ResourceTable.get, hmap]
      exact hall h hold
    · rw [mem_singleton.1 hlast]
      exact ⟨fun hmem => hfresh.2.1 (hmap ▸ hsub k hmem), hk, get_put_self _ _⟩

lemma reserveNative_ok (ht : t.Issued) {allocated : Bool}
    (hok : (t.reserveNative n allocated).value.1 = .ok) :
    (t.reserveNative n allocated).value.2.length = n ∧ (t.reserveNative n allocated).value.2.Nodup ∧
      ∀ h ∈ (t.reserveNative n allocated).value.2, h ∉ t.nativeHandleMap ∧ h ≠ 0 ∧
        (t.reserveNative n allocated).table.get h = some { generation := h } := by
  revert hok
  rw [reserveNative]
  iterate 2
    split
    · simp
  exact fun hok => ⟨by simpa using length_reserveLoop hok, reserveLoop_fresh ht⟩

lemma activateNative_reserved {h : Handle} {e : Entry} (hh : h ≠ 0) (hget : t.get h = some e)
    (hst : e.state = .reserved) (o : KObject) (info : Metadata) :
    (t.activateNative h (some o) info).value = .ok ∧ (t.activateNative h (some o) info).table.get h
        = some { e with object := some o, state := .active, info := info } := by
  simp [activateNative, hh, hget, hst]

/-! ## The invariant -/

namespace RawChannel

variable {s t : RawChannel}

lemma eq_or_eq_peer (side side' : Side) : side' = side ∨ side' = peer side := by
  revert side side'
  decide

lemma peer_ne (side : Side) : peer side ≠ side := by
  revert side
  decide

lemma peer_peer (side : Side) : peer (peer side) = side := by
  revert side
  decide

def Reserved (s : RawChannel) (pid : ℕ) (h : Handle) : Prop :=
  h ≠ 0 ∧ ∃ e, (s.tables pid).get h = some e ∧ e.state = .reserved

/-- What the calls have reserved and not published is still reserved, each handle for one
call. -/
structure TablesInv (s : RawChannel) : Prop where
  issued : ∀ pid, (s.tables pid).Issued
  nodup : ∀ side pid,
    ((s.lanes side).unpublished pid ++ (s.lanes (peer side)).unpublished pid).Nodup
  reserved : ∀ side pid, ∀ h ∈ (s.lanes side).unpublished pid, s.Reserved pid h

lemma TablesInv.of_keeps (hs : TablesInv s) (hsub : ∀ side pid,
      ((t.lanes side).unpublished pid).Sublist ((s.lanes side).unpublished pid))
    (htables : ∀ pid, ∃ named, Keeps named (s.tables pid) (t.tables pid) ∧
      ∀ side, ∀ h ∈ (t.lanes side).unpublished pid, h ∉ named) : TablesInv t where
  issued pid := by
    obtain ⟨named, hkeep, -⟩ := htables pid
    exact hkeep.issued
  nodup side pid := (hs.nodup side pid).sublist ((hsub side pid).append (hsub _ pid))
  reserved side pid h hh := by
    obtain ⟨named, hkeep, hnamed⟩ := htables pid
    obtain ⟨hne, e, hget, hst⟩ := hs.reserved side pid h ((hsub side pid).subset hh)
    exact ⟨hne, e, hkeep.unseen h e hget (by simp [hst]) (hnamed side h hh), hst⟩

lemma TablesInv.of_sublist (hs : TablesInv s) (htables : t.tables = s.tables) (hsub : ∀ side pid,
      ((t.lanes side).unpublished pid).Sublist ((s.lanes side).unpublished pid)) :
    TablesInv t :=
  hs.of_keeps hsub fun pid => ⟨[], by rw [htables]; exact Keeps.refl (hs.issued pid), by simp⟩

/-- The messages of a lane are what was sent and has not left, with all their
capabilities. -/
def Whole (s : RawChannel) (l : Lane) : Prop :=
  l.sent = l.removed ++ l.fifo.items.map s.content ∧
    ∀ p ∈ l.fifo.items, ∀ r ∈ (s.heap p).resources, r.object.isSome = true

/-- In the loop over the capabilities of the head: those before the index are installed, the
others are still in the message. -/
def Emptying (s : RawChannel) (l : Lane) (message : ℕ) (handles : List Handle) (index : ℕ)
    (bytes : List (BitVec 8)) (installed : List (Option KObject × Metadata)) : Prop :=
  ∃ resources : List TransferredResource, l.sent = l.removed ++
      ⟨bytes, resources.map parcelResource⟩ :: l.fifo.items.tail.map s.content ∧
    installed = (resources.take index).map parcelResource ∧
    (s.heap message).resources.drop index = resources.drop index ∧
    (s.heap message).resources.length = resources.length ∧
    handles.length = resources.length ∧
    (∀ r ∈ resources, r.object.isSome = true) ∧
    ∀ p ∈ l.fifo.items.tail, ∀ r ∈ (s.heap p).resources, r.object.isSome = true

def StageInv (s : RawChannel) (l : Lane) (r : Receive) : Prop :=
  match r.stage with
  | .claimed | .reserving | .cancelling | .rollingBack _ => Whole s l
  | .copying handles => Whole s l ∧ handles.length = (s.heap r.message).resources.length
  | .activating handles index bytes installed =>
    Emptying s l r.message handles index bytes installed
  | .closing _ _ _ => False

def LaneInv (s : RawChannel) (l : Lane) : Prop :=
  match l.receive with
  | none => l.fifo.claimed = false ∧ Whole s l
  | some r => l.fifo.claimed = true ∧ l.fifo.items.head? = some r.message ∧ StageInv s l r

structure LanesInv (s : RawChannel) : Prop where
  lane : ∀ side, LaneInv s (s.lanes side)
  nodup : ∀ side, (s.lanes side).fifo.items.Nodup
  apart : ∀ side, ∀ p ∈ (s.lanes side).fifo.items, p ∉ (s.lanes (peer side)).fifo.items
  below : ∀ side, ∀ p ∈ (s.lanes side).fifo.items, p < s.nextMessage

structure Inv (s : RawChannel) : Prop where
  tables : TablesInv s
  lanes : LanesInv s
  cargo : ∀ records ∈ s.transfers, ∀ r ∈ records, r.resource.object.isSome = true

/-! ## Other cells of the heap -/

variable {l : Lane} {side : Side} {named : List Handle} {pid p : ℕ} {t' : ResourceTable}
  {fifo : BoundedQueue ℕ} {rest : List ℕ}

lemma Whole.congr (hheap : ∀ p ∈ l.fifo.items, t.heap p = s.heap p) (h : Whole s l) :
    Whole t l := by
  refine ⟨h.1.trans ?_, ?_⟩
  · congr 1
    apply map_congr_left
    intro p hp
    rw [content, content, hheap p hp]
  · intro p hp
    rw [hheap p hp]
    exact h.2 p hp

/-- What is behind the message that is emptied is whole. -/
lemma emptying_iff {message index : ℕ} {handles : List Handle} {bytes : List (BitVec 8)}
    {installed : List (Option KObject × Metadata)} :
    Emptying s l message handles index bytes installed ↔
      ∃ resources : List TransferredResource,
        Whole s
          { l with
            removed := l.removed ++ [⟨bytes, resources.map parcelResource⟩]
            fifo := { l.fifo with items := l.fifo.items.tail } } ∧
        installed = (resources.take index).map parcelResource ∧
        (s.heap message).resources.drop index = resources.drop index ∧
        (s.heap message).resources.length = resources.length ∧
        handles.length = resources.length ∧ ∀ r ∈ resources, r.object.isSome = true := by
  simp only [Emptying, Whole, append_assoc, singleton_append]
  exact exists_congr fun _ => by tauto

/-- The head of a lane stays, and what its messages are. -/
lemma LaneInv.map {l' : Lane} (h : LaneInv s l) (hreceive : l'.receive = l.receive)
    (hclaimed : l'.fifo.claimed = l.fifo.claimed)
    (hhead : ∀ p, l.fifo.items.head? = some p →
      l'.fifo.items.head? = some p ∧ t.heap p = s.heap p)
    (hwhole : Whole s l → Whole t l')
    (htail : ∀ p removed, l.fifo.items.head? = some p →
      Whole s { l with removed := removed, fifo := { l.fifo with items := l.fifo.items.tail } } →
      Whole t { l' with
        removed := removed, fifo := { l'.fifo with items := l'.fifo.items.tail } })
    (hremoved : l'.removed = l.removed) : LaneInv t l' := by
  rw [LaneInv] at h ⊢
  rw [hreceive, hclaimed]
  cases hr : l.receive with
  | none =>
    rw [hr] at h
    exact ⟨h.1, hwhole h.2⟩
  | some r =>
    rw [hr] at h
    obtain ⟨hbusy, hfront, hstage⟩ := h
    obtain ⟨hfront', hmessage⟩ := hhead _ hfront
    refine ⟨hbusy, hfront', ?_⟩
    rw [StageInv] at hstage ⊢
    split at hstage
    · exact hwhole hstage
    · exact hwhole hstage
    · exact hwhole hstage
    · exact hwhole hstage
    · rw [hmessage]
      exact ⟨hwhole hstage.1, hstage.2⟩
    · rw [emptying_iff] at hstage ⊢
      obtain ⟨resources, hrest, hstage⟩ := hstage
      rw [hmessage, hremoved]
      exact ⟨resources, htail _ _ hfront hrest, hstage⟩
    · exact hstage.elim

lemma LaneInv.congr (hheap : ∀ p ∈ l.fifo.items, t.heap p = s.heap p) (h : LaneInv s l) :
    LaneInv t l :=
  h.map rfl rfl (fun p hp => ⟨hp, hheap p (mem_of_mem_head? hp)⟩) (.congr hheap)
    (fun _ _ _ => .congr fun p hp => hheap p (mem_of_mem_tail hp)) rfl

/-! ## Changing one lane -/

@[simp] lemma lanes_setLane_self (side : Side) (l : Lane) : (s.setLane side l).lanes side = l := by
  simp [setLane]

@[simp] lemma lanes_setLane_peer (side : Side) (l : Lane) :
    (s.setLane side l).lanes (peer side) = s.lanes (peer side) := by
  simp [setLane, peer_ne]

lemma LanesInv.of_lane (hs : LanesInv s) (hpeer : t.lanes (peer side) = s.lanes (peer side))
    (hnext : s.nextMessage ≤ t.nextMessage)
    (hheap : ∀ p ∈ (s.lanes (peer side)).fifo.items, t.heap p = s.heap p)
    (hlane : LaneInv t (t.lanes side)) (hnodup : (t.lanes side).fifo.items.Nodup)
    (hitems : ∀ p ∈ (t.lanes side).fifo.items,
      p ∉ (s.lanes (peer side)).fifo.items ∧ p < t.nextMessage) : LanesInv t where
  lane side' := by
    rcases eq_or_eq_peer side side' with rfl | rfl
    · exact hlane
    · rw [hpeer]
      exact (hs.lane _).congr hheap
  nodup side' := by
    rcases eq_or_eq_peer side side' with rfl | rfl
    · exact hnodup
    · rw [hpeer]
      exact hs.nodup _
  apart side' := by
    rcases eq_or_eq_peer side side' with rfl | rfl
    · rw [hpeer]
      exact fun p hp => (hitems p hp).1
    · rw [hpeer, peer_peer]
      exact fun p hp hmem => (hitems p hmem).1 hp
  below side' := by
    rcases eq_or_eq_peer side side' with rfl | rfl
    · exact fun p hp => (hitems p hp).2
    · rw [hpeer]
      exact fun p hp => (hs.below _ p hp).trans_le hnext

lemma LanesInv.of_sublist (hs : LanesInv s) (hpeer : t.lanes (peer side) = s.lanes (peer side))
    (hnext : t.nextMessage = s.nextMessage)
    (hheap : ∀ p ∈ (s.lanes (peer side)).fifo.items, t.heap p = s.heap p)
    (hlane : LaneInv t (t.lanes side))
    (hsub : (t.lanes side).fifo.items.Sublist (s.lanes side).fifo.items) : LanesInv t :=
  hs.of_lane hpeer hnext.ge hheap hlane ((hs.nodup side).sublist hsub) fun p hp =>
    ⟨hs.apart side p (hsub.subset hp), hnext ▸ hs.below side p (hsub.subset hp)⟩

lemma TablesInv.of_lane (hs : TablesInv s) (htables : t.tables = s.tables)
    (hpeer : t.lanes (peer side) = s.lanes (peer side))
    (hsub : ∀ pid, ((t.lanes side).unpublished pid).Sublist ((s.lanes side).unpublished pid)) :
    TablesInv t := by
  refine hs.of_sublist htables ?_
  intro side' pid
  rcases eq_or_eq_peer side side' with rfl | rfl
  · exact hsub pid
  · rw [hpeer]

lemma TablesInv.setStage (hs : TablesInv s) {r : Receive} {stage : ReceiveStage}
    (hr : (s.lanes side).receive = some r)
    (hsub : stage.unpublished.Sublist r.stage.unpublished) :
    TablesInv (s.setStage side r stage) := by
  refine hs.of_lane rfl (lanes_setLane_peer side _) ?_
  intro pid
  simp only [RawChannel.setStage, lanes_setLane_self, Lane.unpublished, hr]
  split
  · exact hsub
  · exact refl _

lemma Inv.setStage (hs : Inv s) {r : Receive} {stage : ReceiveStage}
    (hr : (s.lanes side).receive = some r) (hsub : stage.unpublished.Sublist r.stage.unpublished)
    (hstage : StageInv s (s.lanes side) { r with stage := stage }) :
    Inv (s.setStage side r stage) := by
  have hlane := hs.lanes.lane side
  rw [LaneInv, hr] at hlane
  refine ⟨hs.tables.setStage hr hsub, ?_, hs.cargo⟩
  refine hs.lanes.of_sublist (lanes_setLane_peer side _) rfl (fun _ _ => rfl) ?_ ?_
  · simp only [RawChannel.setStage, lanes_setLane_self, LaneInv]
    exact ⟨hlane.1, hlane.2.1, hstage⟩
  · simp only [RawChannel.setStage, lanes_setLane_self]
    exact refl _

/-! ## Changing one table -/

lemma LanesInv.setTable (hs : LanesInv s) (pid : ℕ) (t' : ResourceTable) :
    LanesInv (s.setTable pid t') :=
  ⟨hs.lane, hs.nodup, hs.apart, hs.below⟩

lemma TablesInv.setTable (hs : TablesInv s) (hkeep : Keeps named (s.tables pid) t')
    (hnamed : ∀ side, ∀ h ∈ (s.lanes side).unpublished pid, h ∉ named) :
    TablesInv (s.setTable pid t') := by
  refine hs.of_keeps (fun _ _ => refl _) ?_
  intro pid'
  by_cases hpid : pid' = pid
  · subst hpid
    exact ⟨named, by simpa [RawChannel.setTable] using hkeep, hnamed⟩
  · exact ⟨[], by simpa [RawChannel.setTable, hpid] using Keeps.refl (hs.issued pid'), by simp⟩

lemma Inv.setTable (hs : Inv s) (hkeep : Keeps named (s.tables pid) t')
    (hnamed : ∀ side, ∀ h ∈ (s.lanes side).unpublished pid, h ∉ named) :
    Inv (s.setTable pid t') :=
  ⟨hs.tables.setTable hkeep hnamed, hs.lanes.setTable pid t', hs.cargo⟩

lemma TablesInv.reserve {new : List Handle} (hs : TablesInv s)
    (hnone : ∀ pid, (s.lanes side).unpublished pid = []) (hkeep : Keeps [] (s.tables pid) t')
    (hnodup : new.Nodup) (hentries : ∀ h ∈ new, h ∉ (s.tables pid).nativeHandleMap ∧ h ≠ 0 ∧
      t'.get h = some { generation := h }) (htables : t.tables = update s.tables pid t')
    (hpeer : t.lanes (peer side) = s.lanes (peer side))
    (hlane : ∀ pid', (t.lanes side).unpublished pid' = if pid = pid' then new else []) :
    TablesInv t := by
  have hs' := hs.setTable hkeep (by simp)
  have htables' : t.tables = (s.setTable pid t').tables := htables
  have hpeerNodup : ∀ pid', ((s.lanes (peer side)).unpublished pid').Nodup := by
    intro pid'
    simpa [hnone] using hs.nodup side pid'
  have hapart : ∀ pid', ((t.lanes side).unpublished pid' ++
      (t.lanes (peer side)).unpublished pid').Nodup := by
    intro pid'
    rw [hlane, hpeer]
    split
    next hpid =>
      subst hpid
      refine nodup_append.2 ⟨hnodup, hpeerNodup pid, ?_⟩
      rintro h hh k hk rfl
      obtain ⟨-, e, hget, -⟩ := hs.reserved _ pid h hk
      exact (hentries h hh).1 (mem_of_get hget)
    · exact hpeerNodup pid'
  refine ⟨fun pid' => htables' ▸ hs'.issued pid', ?_, ?_⟩
  · intro side' pid'
    rcases eq_or_eq_peer side side' with rfl | rfl
    · exact hapart pid'
    · rw [peer_peer]
      exact nodup_append_comm.1 (hapart pid')
  · intro side' pid' h hh
    rcases eq_or_eq_peer side side' with rfl | rfl
    · rw [hlane] at hh
      split at hh
      next hpid =>
        subst hpid
        refine ⟨(hentries h hh).2.1, { generation := h }, ?_, rfl⟩
        rw [htables, update_self]
        exact (hentries h hh).2.2
      · simp at hh
    · rw [hpeer] at hh
      obtain ⟨hne, e, hget, hst⟩ := hs'.reserved _ pid' h hh
      exact ⟨hne, e, by rw [htables']; exact hget, hst⟩

lemma mem_unpublished {h : Handle} (side : Side) (hh : h ∈ (s.lanes side).unpublished pid) :
    h ∈ s.unpublished pid := by
  rcases eq_or_eq_peer 0 side with rfl | rfl
  · exact mem_append_left _ hh
  · exact mem_append_right _ hh

lemma Inv.table (hs : Inv s) {st : TableStep}
    (hst : st.Respects (s.tables pid) (s.unpublished pid)) :
    Inv (s.setTable pid (st.apply (s.tables pid))) :=
  hs.setTable (st.keeps (hs.tables.issued pid) hst.2) fun side h hh hmem =>
    hst.1 h hmem (mem_unpublished side hh)

/-! ## The stages of a call -/

section Stages

variable {side : Side} {r : Receive}

variable (hs : Inv s) (hr : (s.lanes side).receive = some r)
include hs hr

lemma Inv.call :
    (s.lanes side).fifo.claimed = true ∧ (s.lanes side).fifo.items.head? = some r.message ∧
      StageInv s (s.lanes side) r := by
  have hlane := hs.lanes.lane side
  rwa [LaneInv, hr] at hlane

lemma Inv.reserving (hstage : r.stage = .reserving) (succeeds : Bool) :
    Inv (s.advance side r succeeds) := by
  have hwhole : Whole s (s.lanes side) := by
    have hcall := (hs.call hr).2.2
    rwa [StageInv, hstage] at hcall
  have hkeep : Keeps [] (s.tables r.pid)
      ((s.tables r.pid).reserveNative (s.heap r.message).resources.length succeeds).table :=
    TableOp.keeps (hs.tables.issued r.pid) (.reserve _ _)
  have htable := hs.setTable hkeep (by simp)
  have hnone : ∀ pid, (s.lanes side).unpublished pid = [] := by
    intro pid
    simp [Lane.unpublished, hr, hstage, ReceiveStage.unpublished]
  simp only [advance, hstage]
  split
  next hok =>
    obtain ⟨hlength, hnodup, hentries⟩ := reserveNative_ok (hs.tables.issued r.pid) hok
    refine ⟨?_, ?_, hs.cargo⟩
    · refine hs.tables.reserve hnone hkeep hnodup hentries rfl (lanes_setLane_peer side _) ?_
      intro pid
      simp only [RawChannel.setStage, lanes_setLane_self]
      rfl
    · refine (hs.lanes.setTable r.pid _).of_sublist (lanes_setLane_peer side _) rfl
        (fun _ _ => rfl) ?_ ?_
      · simp only [RawChannel.setStage, lanes_setLane_self, LaneInv]
        exact ⟨(hs.call hr).1, (hs.call hr).2.1, hwhole, hlength⟩
      · simp only [RawChannel.setStage, lanes_setLane_self]
        exact refl _
  · refine htable.setStage hr ?_ hwhole
    simp [ReceiveStage.unpublished]

variable {bytes : List (BitVec 8)} {handles : List Handle} {index message : ℕ}
  {installed : List (Option KObject × Metadata)} {l : Lane} {resource : TransferredResource}

omit hs hr in
lemma Emptying.object (h : Emptying s l message handles index bytes installed)
    (hresource : (s.heap message).resources[index]? = some resource) :
    resource.object.isSome = true := by
  obtain ⟨resources, -, -, hdrop, -, -, hsome, -⟩ := h
  refine hsome resource (mem_of_mem_drop (i := index) ?_)
  rw [← hdrop]
  refine mem_of_getElem? (i := 0) ?_
  rw [getElem?_drop, Nat.add_zero]
  exact hresource

omit hs hr in
lemma Emptying.next {l' : Lane} (h : Emptying s l message handles index bytes installed)
    (hresource : (s.heap message).resources[index]? = some resource)
    (hother : ∀ p ∈ l.fifo.items.tail, p ≠ message) (hheap : t.heap = update s.heap message
      { s.heap message with
        resources := (s.heap message).resources.set index resource.movedFrom })
    (hlane : l'.sent = l.sent ∧ l'.removed = l.removed ∧ l'.fifo = l.fifo) :
    Emptying t l' message handles (index + 1) bytes (installed ++ [parcelResource resource]) := by
  obtain ⟨resources, hwhole, hinstalled, hdrop, hlength, hhandles, hsome⟩ := emptying_iff.1 h
  obtain ⟨hsent', hremoved', hfifo'⟩ := hlane
  have hresource' : resources[index]? = some resource := by
    rw [← Nat.add_zero index, ← getElem?_drop, ← hdrop, getElem?_drop, Nat.add_zero]
    exact hresource
  refine emptying_iff.2 ⟨resources, ?_, ?_, ?_, ?_, hhandles, hsome⟩
  · have hrest := hwhole.congr (t := t) fun p hp => by rw [hheap, update_of_ne (hother p hp)]
    simpa only [Whole, hsent', hremoved', hfifo'] using hrest
  · simp [hinstalled, take_add_one, hresource']
  · rw [hheap, update_self, drop_set_of_lt (Nat.lt_succ_self index),
      ← tail_drop, ← tail_drop, hdrop]
  · rw [hheap, update_self]
    simp [hlength]

lemma Inv.activating (hstage : r.stage = .activating handles index bytes installed) {h : Handle}
    (hresource : (s.heap r.message).resources[index]? = some resource)
    (hhandle : handles[index]? = some h) :
    Inv (s.activate side r handles index bytes installed h resource) := by
  obtain ⟨hclaimed, hhead, hcall⟩ := hs.call hr
  simp only [StageInv, hstage] at hcall
  have hdropHandles : handles.drop index = h :: handles.drop (index + 1) :=
    drop_eq_getElem?_toList_append.trans (by rw [hhandle]; rfl)
  have hmine : (s.lanes side).unpublished r.pid = h :: handles.drop (index + 1) := by
    simp [Lane.unpublished, hr, hstage, ReceiveStage.unpublished, hdropHandles]
  obtain ⟨o, ho⟩ := isSome_iff_exists.1 (hcall.object hresource)
  obtain ⟨hne, e, hget, hst⟩ := hs.tables.reserved side r.pid h (hmine ▸ mem_cons_self)
  obtain ⟨hok, hshown⟩ := activateNative_reserved hne hget hst o resource.info
  have hkeep : Keeps [h] (s.tables r.pid)
      ((s.tables r.pid).activateNative h (some o) resource.info).table :=
    TableOp.keeps (hs.tables.issued r.pid) (.activate _ _ _)
  have hnodup := hs.tables.nodup side r.pid
  rw [hmine, cons_append, nodup_cons, mem_append, not_or] at hnodup
  have hheadTail : (s.lanes side).fifo.items = r.message :: (s.lanes side).fifo.items.tail :=
    eq_cons_of_mem_head? hhead
  have hitems := hs.lanes.nodup side
  rw [hheadTail, nodup_cons] at hitems
  simp only [RawChannel.activate, ho, hok, if_true, hshown, map_some, toList_some]
  refine ⟨?_, ?_, hs.cargo⟩
  · -- First the call forgets the handle, then the table changes its entry.
    have hforget : TablesInv (s.setStage side r (.activating handles (index + 1) bytes
        (installed ++ [(some o, resource.info)]))) := hs.tables.setStage hr (by
      simp [hstage, ReceiveStage.unpublished, hdropHandles])
    refine .of_sublist (hforget.setTable hkeep ?_) rfl fun _ _ => refl _
    intro side' k hk
    rw [mem_singleton]
    rintro rfl
    rcases eq_or_eq_peer side side' with rfl | rfl
    · refine hnodup.1.1 ?_
      simpa [RawChannel.setStage, Lane.unpublished, ReceiveStage.unpublished] using hk
    · refine hnodup.1.2 ?_
      simpa [RawChannel.setStage] using hk
  · refine hs.lanes.of_sublist (lanes_setLane_peer side _) rfl ?_ ?_ ?_
    · intro p hp
      have hp' : p ≠ r.message := by
        rintro rfl
        exact hs.lanes.apart side _ (mem_of_mem_head? hhead) hp
      exact update_of_ne hp' _ _
    · simp only [RawChannel.setStage, lanes_setLane_self, LaneInv]
      have hshape : (some o, resource.info) = parcelResource resource := by rw [parcelResource, ho]
      rw [hshape]
      exact ⟨hclaimed, hhead, hcall.next hresource
        (fun p hp => ne_of_mem_of_not_mem hp hitems.1) rfl ⟨rfl, rfl, rfl⟩⟩
    · simp only [RawChannel.setStage, lanes_setLane_self]
      exact refl _

omit hs hr in
lemma Inv.finish (hs : Inv s) (hreceive : l.receive = none) (hclaimed : l.fifo.claimed = false)
    (hwhole : Whole s l) (hsub : l.fifo.items.Sublist (s.lanes side).fifo.items) :
    Inv (s.setLane side l) := by
  refine ⟨?_, ?_, hs.cargo⟩
  · refine hs.tables.of_lane rfl (lanes_setLane_peer side _) ?_
    intro pid
    simp [Lane.unpublished, hreceive]
  · refine hs.lanes.of_sublist (lanes_setLane_peer side _) rfl (fun _ _ => rfl) ?_ ?_
    · simp only [lanes_setLane_self, LaneInv, hreceive]
      exact ⟨hclaimed, hwhole⟩
    · simpa using hsub

omit hs hr in
lemma commitClaim_eq {q : BoundedQueue ℕ} {p : ℕ} (hclaimed : q.claimed = true)
    (hhead : q.items.head? = some p) :
    q.commitClaim = { q with items := q.items.tail, claimed := false } := by
  have hne : q.items ≠ [] := by
    rintro hnil
    simp [hnil] at hhead
  rw [BoundedQueue.commitClaim, if_pos ⟨hclaimed, hne⟩]

lemma Inv.commit (hstage : r.stage = .activating handles index bytes installed)
    (hend : (s.heap r.message).resources.length ≤ index) :
    Inv (s.commit side r handles bytes installed) := by
  obtain ⟨hclaimed, hhead, hcall⟩ := hs.call hr
  simp only [StageInv, hstage] at hcall
  obtain ⟨resources, hsent, hinstalled, -, hlength, -, -, htail⟩ := hcall
  have hholds : s.holdsClaim side r.message = true := by simp [holdsClaim, hclaimed, hhead]
  rw [RawChannel.commit, if_pos hholds]
  refine hs.finish rfl ?_ ?_ ?_
  · simp [pop, commitClaim_eq hclaimed hhead]
  · simp only [pop, commitClaim_eq hclaimed hhead, Whole]
    rw [take_of_length_le (by omega)] at hinstalled
    exact ⟨by simp [hsent, hinstalled], htail⟩
  · simp [pop, commitClaim_eq hclaimed hhead, tail_sublist]

lemma Inv.cancelling (hstage : r.stage = .cancelling) (succeeds : Bool) :
    Inv (s.advance side r succeeds) := by
  obtain ⟨hclaimed, hhead, hcall⟩ := hs.call hr
  have hholds : s.holdsClaim side r.message = true := by simp [holdsClaim, hclaimed, hhead]
  simp only [StageInv, hstage] at hcall
  simp only [advance, hstage, if_pos hholds]
  exact hs.finish rfl rfl hcall (refl _)

lemma Inv.rollingBack (hstage : r.stage = .rollingBack handles) (succeeds : Bool) :
    Inv (s.advance side r succeeds) := by
  obtain ⟨hclaimed, hhead, hcall⟩ := hs.call hr
  simp only [StageInv, hstage] at hcall
  have hmine : (s.lanes side).unpublished r.pid = handles := by
    simp [Lane.unpublished, hr, hstage, ReceiveStage.unpublished]
  have hkeep : Keeps handles (s.tables r.pid) ((s.tables r.pid).rollbackNative handles) :=
    Keeps.rollbackNative (hs.tables.issued r.pid) fun _ hh => hh
  have hnodup := hs.tables.nodup side r.pid
  rw [hmine, nodup_append] at hnodup
  simp only [advance, hstage]
  -- First the call forgets its handles, then the table loses their entries.
  have hforget : Inv (s.setStage side r .cancelling) := hs.setStage hr (by
    simp [ReceiveStage.unpublished]) hcall
  have hkeep' : Keeps handles ((s.setStage side r .cancelling).tables r.pid)
      ((s.tables r.pid).rollbackNative handles) := hkeep
  refine hforget.setTable hkeep' ?_
  intro side' h hh hmem
  rcases eq_or_eq_peer side side' with rfl | rfl
  · simp [RawChannel.setStage, Lane.unpublished, ReceiveStage.unpublished] at hh
  · simp only [RawChannel.setStage, lanes_setLane_peer] at hh
    exact hnodup.2.2 h hmem h hh rfl

/-- **The next section of a call keeps the invariant.** -/
theorem Inv.advance (succeeds : Bool) : Inv (s.advance side r succeeds) := by
  have hcall := (hs.call hr).2.2
  cases hstage : r.stage with
  | claimed =>
    simp only [StageInv, hstage] at hcall
    simp only [RawChannel.advance, hstage]
    split <;> exact hs.setStage hr (by simp [ReceiveStage.unpublished]) hcall
  | reserving => exact hs.reserving hr hstage succeeds
  | copying handles =>
    simp only [StageInv, hstage] at hcall
    obtain ⟨hwhole, hlength⟩ := hcall
    simp only [RawChannel.advance, hstage]
    split
    · refine hs.setStage hr (by simp [ReceiveStage.unpublished, hstage]) ?_
      have hhead : (s.lanes side).fifo.items = r.message :: (s.lanes side).fifo.items.tail :=
        eq_cons_of_mem_head? (hs.call hr).2.1
      have hsent := hwhole.1
      have hloaded := hwhole.2
      rw [hhead] at hsent hloaded
      refine ⟨(s.heap r.message).resources, hsent, rfl, rfl, rfl, hlength,
        hloaded _ mem_cons_self, fun p hp => hloaded p (mem_cons_of_mem _ hp)⟩
    · exact hs.setStage hr (by simp [ReceiveStage.unpublished, hstage]) hwhole
  | activating handles index bytes installed =>
    simp only [StageInv, hstage] at hcall
    simp only [RawChannel.advance, hstage]
    split
    next hresource hhandle => exact hs.activating hr hstage hresource hhandle
    next hend =>
      refine hs.commit hr hstage ?_
      obtain ⟨resources, -, -, -, hlength, hhandles, -, -⟩ := hcall
      by_contra hlt
      exact hend _ _ (getElem?_eq_getElem (by omega)) (getElem?_eq_getElem (by omega))
  | closing handles upto index => simp only [StageInv, hstage] at hcall
  | rollingBack handles => exact hs.rollingBack hr hstage succeeds
  | cancelling => exact hs.cancelling hr hstage succeeds

end Stages

/-! ## Sending, claiming and discarding -/

section Push

variable {l : Lane} {m : ChannelMessage}

lemma Whole.push (h : Whole s l) (hheap : t.heap = update s.heap s.nextMessage m)
    (hfresh : ∀ p ∈ l.fifo.items, p ≠ s.nextMessage)
    (hm : ∀ r ∈ m.resources, r.object.isSome = true) :
    Whole t (l.push { l.fifo with items := l.fifo.items ++ [s.nextMessage] } m) := by
  have h' : Whole t l := h.congr fun p hp => by rw [hheap, update_of_ne (hfresh p hp)]
  refine ⟨?_, ?_⟩
  · simp [Lane.push, h'.1, content, hheap]
  · intro p hp
    rcases mem_append.1 hp with hp | hp
    · exact h'.2 p hp
    · rw [mem_singleton.1 hp, hheap, update_self]
      exact hm

lemma LaneInv.push (h : LaneInv s l) (hheap : t.heap = update s.heap s.nextMessage m)
    (hfresh : ∀ p ∈ l.fifo.items, p ≠ s.nextMessage)
    (hm : ∀ r ∈ m.resources, r.object.isSome = true) :
    LaneInv t (l.push { l.fifo with items := l.fifo.items ++ [s.nextMessage] } m) := by
  refine h.map rfl rfl ?_ (fun hwhole => hwhole.push hheap hfresh hm) ?_ rfl
  · intro p hp
    refine ⟨by simp [Lane.push, hp], ?_⟩
    rw [hheap, update_of_ne (hfresh p (mem_of_mem_head? hp))]
  · intro p removed hp hwhole
    have hpush := hwhole.push hheap (fun q hq => hfresh q (mem_of_mem_tail hq)) hm
    have hne : l.fifo.items ≠ [] := ne_nil_of_mem (mem_of_mem_head? hp)
    simpa only [Lane.push, tail_append_of_ne_nil hne] using hpush

lemma Inv.push (hs : Inv s) (side : Side) (hm : ∀ r ∈ m.resources, r.object.isSome = true) :
    Inv (s.push side m) := by
  simp only [RawChannel.push]
  split
  · exact hs
  rename_i fifo hpush
  rw [BoundedQueue.tryPush_eq_some hpush]
  have hfresh : ∀ side', ∀ p ∈ (s.lanes side').fifo.items, p ≠ s.nextMessage :=
    fun side' p hp => (hs.lanes.below side' p hp).ne
  refine ⟨?_, ?_, hs.cargo⟩
  · refine hs.tables.of_lane rfl (lanes_setLane_peer side _) ?_
    intro pid
    simp only [lanes_setLane_self]
    exact refl _
  · refine hs.lanes.of_lane (lanes_setLane_peer side _) (Nat.le_succ _) ?_ ?_ ?_ ?_
    · intro p hp
      exact update_of_ne (hfresh _ p hp) _ _
    · simp only [lanes_setLane_self]
      exact (hs.lanes.lane side).push rfl (hfresh side) hm
    · simp only [lanes_setLane_self]
      refine nodup_append.2 ⟨hs.lanes.nodup side, nodup_singleton _, ?_⟩
      intro p hp q hq
      rw [mem_singleton.1 hq]
      exact hfresh side p hp
    · simp only [lanes_setLane_self]
      intro p hp
      rcases mem_append.1 hp with hp | hp
      · exact ⟨hs.lanes.apart side p hp, (hs.lanes.below side p hp).trans (Nat.lt_succ_self _)⟩
      · rw [mem_singleton.1 hp]
        exact ⟨fun hmem => hfresh _ _ hmem rfl, Nat.lt_succ_self _⟩

end Push

lemma Inv.unclaimed (hs : Inv s) (hclaim : (s.lanes side).fifo.claimFront = some fifo) :
    (s.lanes side).receive = none ∧ Whole s (s.lanes side) ∧
      fifo = { (s.lanes side).fifo with claimed := true } := by
  have hfifo := BoundedQueue.claimFront_eq_some hclaim
  have hfree : (s.lanes side).fifo.claimed = false := by
    rw [BoundedQueue.claimFront] at hclaim
    split at hclaim
    · simp at hclaim
    · simp_all
  have hlane := hs.lanes.lane side
  rw [LaneInv] at hlane
  cases hr : (s.lanes side).receive with
  | none =>
    rw [hr] at hlane
    exact ⟨rfl, hlane.2, hfifo⟩
  | some r =>
    rw [hr] at hlane
    simp [hfree] at hlane

lemma Inv.claim (hs : Inv s) (hitems : (s.lanes side).fifo.items = p :: rest)
    (hclaim : (s.lanes side).fifo.claimFront = some fifo) (pid : ℕ) (frame : ReceiveFrame) :
    Inv (s.setLane side { s.lanes side with
      fifo := fifo, receive := some ⟨pid, p, frame, .claimed⟩ }) := by
  obtain ⟨hnone, hwhole, rfl⟩ := hs.unclaimed hclaim
  refine ⟨?_, ?_, hs.cargo⟩
  · refine hs.tables.of_lane rfl (lanes_setLane_peer side _) ?_
    intro pid'
    simp [Lane.unpublished, ReceiveStage.unpublished]
  · refine hs.lanes.of_sublist (lanes_setLane_peer side _) rfl (fun _ _ => rfl) ?_ ?_
    · simp only [lanes_setLane_self, LaneInv]
      exact ⟨trivial, by simp [hitems], hwhole⟩
    · simp

lemma Inv.discard (hs : Inv s) (hitems : (s.lanes side).fifo.items = p :: rest)
    (hclaim : (s.lanes side).fifo.claimFront = some fifo) :
    Inv (s.setLane side { pop { s.lanes side with fifo := fifo } (s.heap p) (s.content p) with
      receive := (s.lanes side).receive }) := by
  obtain ⟨hnone, hwhole, rfl⟩ := hs.unclaimed hclaim
  have hpop : BoundedQueue.commitClaim { (s.lanes side).fifo with claimed := true }
      = { (s.lanes side).fifo with items := rest, claimed := false } := by
    rw [commitClaim_eq (p := p) rfl (by simp [hitems])]
    simp [hitems]
  obtain ⟨hsent, hloaded⟩ := hwhole
  rw [hitems] at hsent hloaded
  refine hs.finish hnone ?_ ⟨?_, ?_⟩ ?_
  · simp [pop, hpop]
  · simp [pop, hpop, hsent]
  · simp only [pop, hpop]
    exact fun q hq => hloaded q (mem_cons_of_mem _ hq)
  · simp only [pop, hitems]
    exact sublist_cons_self _ _

/-! ## Runs -/

lemma inv_initial (limits : Limits) : Inv (initial limits) where
  tables :=
    { issued := fun _ => ⟨by simp [initial], by simp [initial]⟩
      nodup := by simp [initial, Lane.unpublished]
      reserved := by simp [initial, Lane.unpublished] }
  lanes :=
    { lane := fun _ => by simp [initial, LaneInv, Whole]
      nodup := by simp [initial]
      apart := by simp [initial]
      below := by simp [initial] }
  cargo := by simp [initial]

lemma object_takeNativeBatch {self : ℕ} {table : ResourceTable} {ds : List Disposition}
    {target : Handle} {allocated : Bool}
    (hok : (takeNativeBatch self table ds target allocated).value.1 = .ok) :
    ∀ r ∈ (takeNativeBatch self table ds target allocated).value.2,
      r.resource.object.isSome = true := by
  obtain ⟨es, -, hall, -, heq⟩ := takeNativeBatch_ok hok
  rw [heq]
  intro r hr
  obtain ⟨p, hp, rfl⟩ := List.mem_map.1 hr
  obtain ⟨o, ho, -⟩ := (hall p hp).object
  simp [makeRecord, ho]

lemma Inv.transfers (hs : Inv s) {transfers : List (List TransferRecord)}
    (hcargo : ∀ records ∈ transfers, ∀ r ∈ records, r.resource.object.isSome = true) :
    Inv { s with transfers := transfers } :=
  ⟨⟨hs.tables.issued, hs.tables.nodup, hs.tables.reserved⟩,
    ⟨hs.lanes.lane, hs.lanes.nodup, hs.lanes.apart, hs.lanes.below⟩, hcargo⟩

/-- **One section keeps the invariant.** -/
theorem inv_step {a : RawAction} (hs : Inv s) (hstep : s.step a = some t) : Inv t := by
  cases a with
  | setOwners side n =>
    cases hstep
    exact ⟨⟨hs.tables.issued, hs.tables.nodup, hs.tables.reserved⟩,
      ⟨hs.lanes.lane, hs.lanes.nodup, hs.lanes.apart, hs.lanes.below⟩, hs.cargo⟩
  | table pid st =>
    obtain ⟨hst, hstep⟩ := ite_none_right_eq_some.1 hstep
    cases hstep
    exact hs.table hst
  | take pid ds target allocated =>
    have hkeep : Keeps [] (s.tables pid)
        (takeNativeBatch pid (s.tables pid) ds target allocated).table :=
      Keeps.takeNativeBatch (hs.tables.issued pid) pid ds target allocated
    have htable := hs.setTable hkeep (by simp)
    simp only [step] at hstep
    split at hstep
    next hok =>
      cases hstep
      refine htable.transfers ?_
      intro records hrecords
      rcases mem_cons.1 hrecords with rfl | hrecords
      · exact object_takeNativeBatch hok
      · exact hs.cargo records hrecords
    · cases hstep
      exact htable
  | produce objects =>
    cases hstep
    refine hs.transfers ?_
    intro records hrecords
    rcases mem_cons.1 hrecords with rfl | hrecords
    · intro r hr
      obtain ⟨p, -, rfl⟩ := List.mem_map.1 hr
      rfl
    · exact hs.cargo records hrecords
  | send k sender bytes limit budget =>
    simp only [step] at hstep
    split at hstep
    · simp at hstep
    rename_i records hk
    have hs' : Inv { s with transfers := s.transfers.eraseIdx k } :=
      hs.transfers fun rs hrs => hs.cargo rs (mem_of_mem_eraseIdx hrs)
    split at hstep
    · cases hstep
      rw [appendAll_newMessage, map_some, getD_some]
      refine hs'.push _ ?_
      intro r hr
      obtain ⟨record, hrecord, rfl⟩ := List.mem_map.1 hr
      exact hs.cargo records (mem_of_getElem? hk) record hrecord
    · cases hstep
      exact hs'
  | claim side pid frame =>
    simp only [step] at hstep
    split at hstep
    next hitems hclaim =>
      cases hstep
      exact hs.claim hitems hclaim pid frame
    · cases hstep
      exact hs
  | advance side succeeds =>
    obtain ⟨r, hr, rfl⟩ := map_eq_some_iff.1 hstep
    exact hs.advance hr succeeds
  | discard side =>
    simp only [step] at hstep
    split at hstep
    next hitems hclaim =>
      cases hstep
      exact hs.discard hitems hclaim
    · cases hstep
      exact hs

lemma LaneInv.faithful (h : LaneInv s l) : l.Faithful s := by
  have hwhole : Whole s l → l.Faithful s := by
    rintro ⟨hsent, -⟩
    refine ⟨⟨_, hsent.symm⟩, by simp [hsent], fun _ => hsent, ?_⟩
    rw [hsent, drop_append, drop_eq_nil_of_le (by omega), Nat.add_sub_cancel_left]
    simp
  rw [LaneInv] at h
  split at h
  · exact hwhole h.2
  obtain ⟨hclaimed, hhead, hstage⟩ := h
  rw [StageInv] at hstage
  split at hstage
  · exact hwhole hstage
  · exact hwhole hstage
  · exact hwhole hstage
  · exact hwhole hstage
  · exact hwhole hstage.1
  · obtain ⟨resources, hsent, -⟩ := hstage
    have hcons := eq_cons_of_mem_head? hhead
    refine ⟨⟨_, hsent.symm⟩, ?_, by simp [hclaimed], ?_⟩
    · rw [hsent, hcons]
      simp
    · rw [hsent, drop_append, drop_eq_nil_of_le (by omega), Nat.add_sub_cancel_left]
      simp
  · exact hstage.elim

/-- **A raw channel delivers what was sent.**  In every interleaving the messages that
have left a direction are a prefix of those that were enqueued there, in the same order, each
once, and with the bytes and capabilities it was sent with; what has not left waits unchanged,
a message whose claim was cancelled among it. -/
theorem faithful_of_exec {limits : Limits} {actions : List RawAction} {s : RawChannel}
    (hrun : exec RawChannel.step (initial limits) actions = some s) (side : Side) :
    (s.lanes side).Faithful s := by
  have hinv : Inv s :=
    exec_invariant (fun _ _ _ hs hstep => inv_step hs hstep) (inv_initial limits) hrun
  exact (hinv.lanes.lane side).faithful

/-- A file is moved into a message; a first receive cancels its claim, because its ranges
are not valid, and a second one receives the message. -/
def cancelThenReceive : List RawAction :=
  [.table 0 (.op (.install (some (.plain .file 3)) {})),
    .take 0 [{ handle := 1, operation := .move }] 0 true, .setOwners 1 1,
    .send 0 0 [7] 0 true, .claim 1 1 ⟨8, 4⟩, .advance 1 false, .advance 1 true,
    .claim 1 1 ⟨8, 4⟩, .advance 1 true, .advance 1 true, .advance 1 true, .advance 1 true,
    .advance 1 true]

/-- The message arrives as it was sent. -/
theorem faithful_cancelThenReceive :
    (exec RawChannel.step (initial ⟨2, 64, 4⟩) cancelThenReceive).map
        (fun s => (s.lanes 1).removed) = some [⟨[7], [(some (.plain .file 3), {})]⟩] ∧
      ∀ s, exec RawChannel.step (initial ⟨2, 64, 4⟩) cancelThenReceive = some s →
        (s.lanes 1).Faithful s :=
  ⟨by decide, fun _ hrun => faithful_of_exec hrun 1⟩

end RawChannel

end Naos.Ipc
