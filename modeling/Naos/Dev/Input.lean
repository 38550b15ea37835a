import Naos.Lib.Transition
import Mathlib

/-!
# The source of input events

`input_event_source` has one subscriber slot.  `publish` copies the slot under the
lock, sends on the subscriber's channel without it, and takes the lock again to write
back what the sends returned.  A step is one locked section or one operation of the
channel.

A channel is the stream of everything that was ever enqueued on it together with the
number of messages received so far.  Its receiving side counts as closed whenever no
capability for it exists.  That is so after the last one is released, but also between
the creation of the channel and the hand-over of its receiver.
-/

namespace Naos.Input

open Function List Option

open Transition (exec Along)

inductive Message where
  | event (code : ℕ)
  | overrun
  deriving DecidableEq

inductive Status where
  | ok | wouldBlock | resourceExhausted | peerClosed
  deriving DecidableEq

inductive Receiver where
  | unborn
  /-- `subscribe` has returned it, and no capability exists for it yet. -/
  | returned
  /-- Held by one capability and as many `others`. -/
  | owned (others : ℕ)
  /-- Released by its last owner, or taken back by `rollback_subscription`. -/
  | closed
  deriving DecidableEq

def Receiver.owners : Receiver → ℕ
  | .owned n => n + 1
  | _ => 0

/-- `capability_acquired` and `capability_released`. -/
def Receiver.change (acquired : Bool) : Receiver → Option Receiver
  | .returned => if acquired then some (.owned 0) else none
  | .owned n =>
    some (if acquired then .owned (n + 1) else if n = 0 then .closed else .owned (n - 1))
  | _ => none

/-- Handed out by `subscribe` and not closed since. -/
def Receiver.Live (r : Receiver) : Prop := r = .returned ∨ 0 < r.owners

def Receiver.Opened (r : Receiver) : Prop := 0 < r.owners ∨ r = .closed

/-- The channel of a subscription for `capacity` events: it has room for one message
more, which is kept for the marker. -/
structure Channel where
  capacity : ℕ := 0
  receiver : Receiver := .unborn
  sent : List Message := []
  taken : ℕ := 0
  drops : List (ℕ × ℕ) := []

def Channel.queued (ch : Channel) : ℕ := ch.sent.length - ch.taken

/-- `send_raw_channel_kernel`.  Whether the global budget is exhausted is up to the
rest of the system. -/
def Channel.send (ch : Channel) (m : Message) (exhausted : Bool) : Status × Channel :=
  if ch.receiver.owners = 0 then (.peerClosed, ch)
  else if ch.capacity + 1 ≤ ch.queued then (.wouldBlock, ch)
  else if exhausted then (.resourceExhausted, ch)
  else (.ok, { ch with sent := ch.sent ++ [m] })

/-- An event is dropped now.  Where the receiver is closed there is nobody to miss it. -/
def Channel.drop (ch : Channel) : Channel :=
  { ch with drops := (ch.taken, ch.sent.length) :: ch.drops }

/-- `subscriber`, with the channel its handles belong to. -/
structure Slot where
  producer : Option ℕ := none
  overrunPending : Bool := false
  reserved : Bool := false

/-- Where a caller stands in `publish`. -/
inductive Pc where
  | idle
  | flush
  /-- Before `queued_messages`. -/
  | check
  | mark
  | send
  | latch (failed : Bool)
  | settle (status : Status)
  deriving DecidableEq

/-- A caller of `publish` with its `publish_target`. -/
structure Publisher where
  pc : Pc := .idle
  event : ℕ := 0
  target : ℕ := 0
  pending : Bool := false

open Publisher

/-- The last section of `publish`, where the slot still holds the same producer. -/
def Slot.settle (slot : Slot) (pending : Bool) : Status → Slot
  | .wouldBlock | .resourceExhausted => { slot with overrunPending := true }
  | .peerClosed => { slot with producer := none, overrunPending := false }
  | .ok => { slot with overrunPending := pending }

/-- The next section of `publish`. -/
def Publisher.advance (p : Publisher) (slot : Slot) (ch : Channel) (exhausted : Bool) :
    Publisher × Slot × Channel :=
  match p.pc with
  | .idle => (p, slot, ch)
  | .flush =>
    if p.pending then
      let r := ch.send .overrun exhausted
      (if r.1 = .peerClosed then { p with pc := .idle }
        else { p with pc := .check, pending := r.1 != .ok }, slot, r.2)
    else ({ p with pc := .check }, slot, ch)
  | .check => ({ p with pc := if ch.capacity ≤ ch.queued then .mark else .send }, slot, ch)
  | .mark =>
    let r := ch.drop.send .overrun exhausted
    ({ p with pc := .latch (r.1 != .ok) }, slot, if r.1 = .peerClosed then ch else r.2)
  | .send =>
    let r := ch.send (.event p.event) exhausted
    ({ p with pc := .settle r.1 }, slot,
      if r.1 = .wouldBlock ∨ r.1 = .resourceExhausted then r.2.drop else r.2)
  | .latch failed =>
    ({ p with pc := .idle },
      if slot.producer = some p.target then { slot with overrunPending := failed } else slot, ch)
  | .settle status =>
    ({ p with pc := .idle },
      if slot.producer = some p.target then slot.settle p.pending status else slot, ch)

structure State where
  slot : Slot := {}
  channels : ℕ → Channel := fun _ => {}
  publishers : ℕ → Publisher := fun _ => {}

inductive Action where
  /-- The section of `publish` that copies the slot. -/
  | publish (i event : ℕ)
  | advance (i : ℕ) (exhausted : Bool)
  /-- The section of `subscribe` that reserves the slot. -/
  | reserve
  /-- The rest of `subscribe`, with the new channel `c`. -/
  | commit (c maxEvents : ℕ)
  /-- The rest of `subscribe` where no channel could be made. -/
  | abort
  | rollback (c : ℕ)
  | change (c : ℕ) (acquired : Bool)
  | receive (c : ℕ)

def State.setChannel (s : State) (c : ℕ) (ch : Channel) : State :=
  { s with channels := update s.channels c ch }

/-- One step of the system; `none` where the action is not enabled or is refused. -/
def step (s : State) : Action → Option State
  | .publish i event =>
    match (s.publishers i).pc, s.slot.producer with
    | .idle, some c =>
      let p : Publisher := ⟨.flush, event, c, s.slot.overrunPending⟩
      some { s with publishers := update s.publishers i p }
    | _, _ => none
  | .advance i exhausted =>
    let p := s.publishers i
    let r := p.advance s.slot (s.channels p.target) exhausted
    some
      { slot := r.2.1
        channels := update s.channels p.target r.2.2
        publishers := update s.publishers i r.1 }
  | .reserve =>
    if s.slot.reserved ∨ ∃ c ∈ s.slot.producer, (s.channels c).receiver.owners ≠ 0 then none
    else some { s with slot := { reserved := true } }
  | .commit c maxEvents =>
    if s.slot.reserved = false ∨ s.slot.producer ≠ none ∨
        (s.channels c).receiver ≠ .unborn then none
    else if 0 < maxEvents ∧ maxEvents ≤ 64 then
      some ({ s with slot := { producer := some c } }.setChannel c
        { capacity := maxEvents, receiver := .returned })
    else none
  | .abort => some { s with slot := { s.slot with reserved := false } }
  | .rollback c =>
    if s.slot.producer = some c then
      let slot := { s.slot with producer := none, overrunPending := false }
      some ({ s with slot := slot }.setChannel c { s.channels c with receiver := .closed })
    else none
  | .change c acquired =>
    ((s.channels c).receiver.change acquired).map fun r =>
      s.setChannel c { s.channels c with receiver := r }
  | .receive c =>
    let ch := s.channels c
    if 0 < ch.queued ∧ 0 < ch.receiver.owners then
      some (s.setChannel c { ch with taken := ch.taken + 1 })
    else none

variable {s t : State} {p : Publisher} {slot : Slot} {ch : Channel} {x : Bool} {m : Message}

@[simp] lemma send_receiver : (ch.send m x).2.receiver = ch.receiver := by
  unfold Channel.send
  split_ifs <;> rfl

@[simp] lemma advance_target : (p.advance slot ch x).1.target = p.target := by
  unfold advance
  split <;> try rfl
  dsimp only
  split_ifs <;> rfl

/-! ## The hand-over of a subscription -/

/-- **Every subscription that was handed out keeps the slot** until its receiver closes. -/
def Kept (s : State) : Prop := ∀ c, (s.channels c).receiver.Live → s.slot.producer = some c

/-- No section of `publish` runs on a subscription whose receiver has had no capability
yet, and nobody else subscribes over it. -/
def HandedOver (s : State) : Action → Prop
  | .advance i _ =>
    (s.publishers i).pc ≠ .idle → (s.channels (s.publishers i).target).receiver.Opened
  | .reserve => ∀ c ∈ s.slot.producer, (s.channels c).receiver.Opened
  | _ => True

instance (s : State) : ∀ a, Decidable (HandedOver s a)
  | .advance _ _ => inferInstanceAs (Decidable (_ → _ ∨ _))
  | .reserve => inferInstanceAs (Decidable (∀ c ∈ s.slot.producer, _ ∨ _))
  | .publish _ _ | .commit _ _ | .abort | .rollback _ | .change _ _ | .receive _ =>
    inferInstanceAs (Decidable True)

lemma advance_spec (p : Publisher) (slot : Slot) (ch : Channel) (x : Bool) :
    (p.advance slot ch x).2.2.receiver = ch.receiver ∧
      ((p.advance slot ch x).1.pc = .settle .peerClosed → p.pc = .send ∧ ch.receiver.owners = 0) ∧
      ((p.advance slot ch x).2.1.producer = slot.producer ∨
        p.pc = .settle .peerClosed ∧ slot.producer = some p.target) := by
  rcases hpc : p.pc with _ | _ | _ | _ | _ | failed | status
  case idle => simp [advance, hpc]
  case flush => by_cases hp : p.pending <;> simp [advance, hpc, hp]; split_ifs <;> simp
  case check => simp [advance, hpc]; split_ifs <;> simp
  case mark =>
    simp only [advance, hpc]
    refine ⟨by split_ifs <;> simp [Channel.drop], by simp, by simp⟩
  case send =>
    simp only [advance, hpc]
    refine ⟨by split_ifs <;> simp [Channel.drop], ?_, by simp⟩
    unfold Channel.send
    split_ifs <;> simp_all
  case latch => simp [advance, hpc]; split_ifs <;> simp
  case settle =>
    by_cases hs : slot.producer = some p.target <;> cases status <;>
      simp [advance, hpc, Slot.settle, hs]

structure Handing (s : State) : Prop where
  kept : Kept s
  stale : ∀ i, (s.publishers i).pc = .settle .peerClosed →
    (s.channels (s.publishers i).target).receiver = .closed

lemma Handing.set {c : ℕ} (h : Handing s) (slot : Slot)
    (hslot : ∀ d ≠ c, s.slot.producer = some d → slot.producer = some d)
    (hlive : ch.receiver.Live → slot.producer = some c)
    (hclosed : (s.channels c).receiver = .closed → ch.receiver = .closed) :
    Handing ({ s with slot := slot }.setChannel c ch) := by
  constructor
  · intro d hd
    by_cases hdc : d = c
    · subst hdc
      exact hlive (by simpa [State.setChannel] using hd)
    · exact hslot d hdc (h.kept d (by simpa [State.setChannel, hdc] using hd))
  · intro i hi
    by_cases hic : (s.publishers i).target = c
    · simpa [State.setChannel, hic] using hclosed (hic ▸ h.stale i hi)
    · simpa [State.setChannel, hic] using h.stale i hi

/-- A section of `publish` gives the slot up only for a receiver that is closed. -/
lemma Handing.advance (h : Handing s) {i : ℕ} (hok : HandedOver s (.advance i x))
    (hstep : step s (.advance i x) = some t) : Handing t := by
  simp only [step, some.injEq] at hstep
  subst hstep
  obtain ⟨hrecv, hstale, hslot⟩ := advance_spec (s.publishers i) s.slot
    (s.channels (s.publishers i).target) x
  have htarget : ((s.publishers i).advance s.slot (s.channels (s.publishers i).target) x).1.target =
      (s.publishers i).target := advance_target
  generalize (s.publishers i).advance s.slot (s.channels (s.publishers i).target) x = r at *
  have hch : ∀ c, (update s.channels (s.publishers i).target r.2.2 c).receiver =
      (s.channels c).receiver := by
    intro c
    by_cases hc : c = (s.publishers i).target
    · subst hc
      simpa using hrecv
    · simp [hc]
  constructor
  · intro c hc
    rw [hch] at hc
    have hkept := h.kept c hc
    rcases hslot with hslot | ⟨hpc, hprod⟩
    · exact hslot.trans hkept
    · obtain rfl : (s.publishers i).target = c := by simpa [hprod] using hkept
      simp [h.stale i hpc, Receiver.Live, Receiver.owners] at hc
  · intro j hj
    rw [hch]
    by_cases hji : j = i
    · subst hji
      simp only [update_self] at hj ⊢
      obtain ⟨hpc, howners⟩ := hstale hj
      rw [htarget]
      exact (hok (by simp [hpc])).resolve_left (by omega)
    · simp only [update_of_ne hji] at hj ⊢
      exact h.stale j hj

lemma Handing.step {a : Action} (h : Handing s) (hok : HandedOver s a)
    (hstep : step s a = some t) : Handing t := by
  cases a with
  | advance i x => exact h.advance hok hstep
  | publish i event =>
    simp only [Input.step] at hstep
    split at hstep
    · simp only [some.injEq] at hstep
      subst hstep
      refine ⟨h.kept, fun j hj => ?_⟩
      by_cases hji : j = i
      · simp [hji] at hj
      · simp only [update_of_ne hji] at hj ⊢
        exact h.stale j hj
    · simp at hstep
  | reserve =>
    simp only [Input.step, ite_none_left_eq_some, not_or, some.injEq] at hstep
    obtain ⟨⟨-, hfree⟩, rfl⟩ := hstep
    refine ⟨fun c hc => ?_, h.stale⟩
    have hslot := h.kept c hc
    rcases hok c hslot with howned | hclosed
    · exact absurd ⟨c, hslot, Nat.ne_of_gt howned⟩ hfree
    · simp [Receiver.Live, hclosed, Receiver.owners] at hc
  | commit c maxEvents =>
    simp only [Input.step, ite_none_left_eq_some, ite_none_right_eq_some, not_or,
      not_not, some.injEq] at hstep
    obtain ⟨⟨-, hslot, hunborn⟩, -, rfl⟩ := hstep
    exact h.set _ (by simp [hslot]) (by simp) (by simp [hunborn])
  | abort =>
    simp only [Input.step, some.injEq] at hstep
    subst hstep
    exact ⟨h.kept, h.stale⟩
  | rollback c =>
    simp only [Input.step, ite_none_right_eq_some, some.injEq] at hstep
    obtain ⟨hslot, rfl⟩ := hstep
    exact h.set _ (by simp [hslot, eq_comm]) (by simp [Receiver.Live, Receiver.owners]) (by simp)
  | change c acquired =>
    simp only [Input.step, map_eq_some_iff] at hstep
    obtain ⟨r, hr, rfl⟩ := hstep
    have hlive : (s.channels c).receiver.Live ∧ (s.channels c).receiver ≠ .closed := by
      cases hc : (s.channels c).receiver <;>
        simp_all [Receiver.change, Receiver.Live, Receiver.owners]
    exact h.set s.slot (by simp) (fun _ => h.kept c hlive.1) (absurd · hlive.2)
  | receive c =>
    simp only [Input.step, ite_none_right_eq_some, some.injEq] at hstep
    obtain ⟨-, rfl⟩ := hstep
    exact h.set s.slot (by simp) (h.kept c) id

/-- **A subscription survives its hand-over** in every run, of any number of publishers and
subscribers in any order, in which nobody sends to it or subscribes over it before its
receiver has its first capability. -/
theorem kept_of_handedOver (as : List Action) (hok : Along step HandedOver {} as)
    (hrun : exec step {} as = some s) : Kept s := by
  have hinit : Handing {} := by constructor <;> simp [Kept, Receiver.Live, Receiver.owners]
  exact (Transition.exec_induct (fun s a t hs ha ht => hs.step ha ht) hinit hok hrun).kept

def installed : List Action :=
  [.reserve, .commit 0 4, .change 0 true, .publish 0 7, .advance 0 false, .advance 0 false,
    .advance 0 false, .advance 0 false]

theorem kept_installed : ∃ s, exec step {} installed = some s ∧ Kept s :=
  ⟨_, rfl, kept_of_handedOver installed (by decide) rfl⟩

/-- **The subscription is dropped before its hand-over** where the event is published
before the receiver has a capability: the send finds no owner. -/
theorem not_kept_publishedFirst : ∃ s, exec step {} (installed.eraseIdx 2) = some s ∧ ¬ Kept s :=
  ⟨_, rfl, fun h => absurd (h 0 (.inl rfl)) (by decide)⟩

/-! ## The marker of an overrun -/

/-- **Every drop is reported**: a marker that was not received when the event was dropped
comes before every event that is sent after it. -/
def Channel.Reported (ch : Channel) : Prop :=
  ∀ d ∈ ch.drops, ∀ k e, d.2 ≤ k → ch.sent[k]? = some (.event e) →
    ∃ j < k, d.1 ≤ j ∧ ch.sent[j]? = some .overrun

/-- No two calls of `publish` overlap, and the global budget suffices. -/
def Alone (s : State) : Action → Prop
  | .publish _ _ => ∀ j, (s.publishers j).pc = .idle
  | .advance _ exhausted => exhausted = false
  | _ => True

/-- Events leave the last place free, so that a full channel ends in a marker. -/
structure Channel.Good (ch : Channel) : Prop where
  inside : ch.taken ≤ ch.sent.length
  full : ch.taken + ch.capacity < ch.sent.length → ch.sent.getLast? = some .overrun
  reported : ∀ d ∈ ch.drops, ∃ j ≤ d.2, d.1 ≤ j ∧ ch.sent[j]? = some .overrun

lemma Channel.Good.reports (h : ch.Good) : ch.Reported := by
  intro d hd k e hk he
  obtain ⟨j, hj, hdj, hmark⟩ := h.reported d hd
  refine ⟨j, Nat.lt_of_le_of_ne (Nat.le_trans hj hk) ?_, hdj, hmark⟩
  rintro rfl
  simp [hmark] at he

lemma Channel.Good.send (h : ch.Good) (hm : m = .overrun ∨ ch.queued < ch.capacity) :
    (ch.send m false).2.Good := by
  simp only [Channel.send, Bool.false_eq_true, if_false]
  split_ifs
  · exact h
  · exact h
  · have hinside := h.inside
    simp only [Channel.queued] at hm
    refine ⟨?_, fun hlen => ?_, fun d hd => ?_⟩
    · simp only [length_append]
      omega
    · rcases hm with rfl | hm
      · simp
      · simp only [length_append, length_singleton] at hlen
        omega
    · obtain ⟨j, hj, hdj, hmark⟩ := h.reported d hd
      refine ⟨j, hj, hdj, ?_⟩
      rw [List.getElem?_append_left (List.getElem?_eq_some_iff.1 hmark).1, hmark]

/-- The marker that is sent in place of a dropped event, or the one that fills the
channel, reports the drop. -/
lemma Channel.Good.mark (h : ch.Good) (howners : ch.receiver.owners ≠ 0) :
    (ch.drop.send .overrun false).2.Good := by
  have hsend := h.send (m := .overrun) (.inl rfl)
  have hinside := h.inside
  simp only [Channel.send, Channel.drop, Channel.queued, howners, Bool.false_eq_true,
    if_false] at hsend ⊢
  split_ifs at hsend ⊢ with hfull <;>
    refine ⟨hsend.inside, hsend.full, forall_mem_cons.2 ⟨?_, hsend.reported⟩⟩
  · have hlast := h.full (by omega)
    rw [getLast?_eq_getElem?] at hlast
    exact ⟨ch.sent.length - 1, by simp, by dsimp only; omega, hlast⟩
  · exact ⟨ch.sent.length, Nat.le_refl _, hinside, by simp⟩

/-- A publisher that is about to send its event has seen room for it. -/
def Publisher.Fits (p : Publisher) (ch : Channel) : Prop := p.pc = .send → ch.queued < ch.capacity

lemma Channel.Good.advance (h : ch.Good) (slot : Slot) (hp : p.Fits ch) :
    (p.advance slot ch false).2.2.Good ∧
      (p.advance slot ch false).1.Fits (p.advance slot ch false).2.2 := by
  rcases hpc : p.pc with _ | _ | _ | _ | _ | failed | status <;> simp only [Publisher.advance, hpc]
  case idle => exact ⟨h, hp⟩
  case flush =>
    split_ifs
    · exact ⟨h.send (.inl rfl), nofun⟩
    · exact ⟨h.send (.inl rfl), nofun⟩
    · exact ⟨h, nofun⟩
  case check =>
    split_ifs with hfull
    · exact ⟨h, nofun⟩
    · exact ⟨h, fun _ => Nat.lt_of_not_le hfull⟩
  case mark =>
    split_ifs with hclosed
    · exact ⟨h, nofun⟩
    · refine ⟨h.mark fun howners => hclosed ?_, nofun⟩
      simp [Channel.send, Channel.drop, howners]
  case send =>
    have hroom := hp hpc
    have hstatus : ¬ ((ch.send (.event p.event) false).1 = .wouldBlock ∨
        (ch.send (.event p.event) false).1 = .resourceExhausted) := by
      simp only [Channel.send, Bool.false_eq_true, if_false]
      split_ifs <;> simp
      omega
    rw [if_neg hstatus]
    exact ⟨h.send (.inr hroom), nofun⟩
  case latch => exact ⟨h, nofun⟩
  case settle => exact ⟨h, nofun⟩

/-- The invariant of runs in which calls of `publish` do not overlap. -/
structure Reporting (s : State) : Prop where
  good : ∀ c, (s.channels c).Good
  fits : ∀ i, (s.publishers i).Fits (s.channels (s.publishers i).target)
  single : ∃ i, ∀ j ≠ i, (s.publishers j).pc = .idle

lemma Reporting.set {c : ℕ} (h : Reporting s) (slot : Slot) (hgood : ch.Good)
    (hfits : ∀ p : Publisher, p.Fits (s.channels c) → p.Fits ch) :
    Reporting ({ s with slot := slot }.setChannel c ch) := by
  refine ⟨fun d => ?_, fun i => ?_, h.single⟩
  · by_cases hd : d = c <;> simp [State.setChannel, hd, hgood, h.good]
  · have hi := h.fits i
    by_cases hc : (s.publishers i).target = c
    · simpa [State.setChannel, hc] using hfits _ (hc ▸ hi)
    · simpa [State.setChannel, hc] using hi

lemma Reporting.advance (h : Reporting s) {i : ℕ}
    (hstep : Input.step s (.advance i false) = some t) : Reporting t := by
  simp only [Input.step, some.injEq] at hstep
  subst hstep
  obtain ⟨k, hk⟩ := h.single
  by_cases hik : i = k
  · subst hik
    obtain ⟨hgood, hfits⟩ := (h.good (s.publishers i).target).advance s.slot (h.fits i)
    refine ⟨fun c => ?_, fun j => ?_, i, fun j hj => by simp [hj, hk j hj]⟩
    · by_cases hc : c = (s.publishers i).target
      · subst hc
        simpa using hgood
      · simpa [hc] using h.good c
    · by_cases hj : j = i
      · subst hj
        simpa using hfits
      · simp [Publisher.Fits, hj, hk j hj]
  · simpa [advance, hk i hik] using h

lemma Reporting.step {a : Action} (h : Reporting s) (hok : Alone s a)
    (hstep : step s a = some t) : Reporting t := by
  cases a with
  | advance i x =>
    obtain rfl : x = false := hok
    exact h.advance hstep
  | publish i event =>
    simp only [Input.step] at hstep
    split at hstep
    · simp only [some.injEq] at hstep
      subst hstep
      refine ⟨h.good, fun j => ?_, i, fun j hj => by simp [hj, hok j]⟩
      by_cases hji : j = i
      · subst hji
        simp [Publisher.Fits]
      · simpa [hji] using h.fits j
    · simp at hstep
  | reserve =>
    simp only [Input.step, ite_none_left_eq_some, some.injEq] at hstep
    obtain ⟨-, rfl⟩ := hstep
    exact ⟨h.good, h.fits, h.single⟩
  | commit c maxEvents =>
    simp only [Input.step, ite_none_left_eq_some, ite_none_right_eq_some, some.injEq] at hstep
    obtain ⟨-, hmax, rfl⟩ := hstep
    exact h.set _ (by constructor <;> simp) fun p hp _ => hmax.1
  | abort =>
    simp only [Input.step, some.injEq] at hstep
    subst hstep
    exact ⟨h.good, h.fits, h.single⟩
  | rollback c =>
    simp only [Input.step, ite_none_right_eq_some, some.injEq] at hstep
    obtain ⟨-, rfl⟩ := hstep
    exact h.set _ ⟨(h.good c).inside, (h.good c).full, (h.good c).reported⟩ fun p hp => hp
  | change c acquired =>
    simp only [Input.step, map_eq_some_iff] at hstep
    obtain ⟨r, -, rfl⟩ := hstep
    exact h.set s.slot ⟨(h.good c).inside, (h.good c).full, (h.good c).reported⟩ fun p hp => hp
  | receive c =>
    simp only [Input.step, ite_none_right_eq_some, some.injEq] at hstep
    obtain ⟨⟨hqueued, -⟩, rfl⟩ := hstep
    simp only [Channel.queued] at hqueued
    refine h.set s.slot ⟨?_, fun hlen => (h.good c).full ?_, (h.good c).reported⟩
      fun p hp hpc => Nat.lt_of_le_of_lt (Nat.sub_le_sub_left (Nat.le_succ _) _) (hp hpc)
    · dsimp only
      omega
    · dsimp only at hlen
      omega

/-- **Every overrun is reported** to every subscriber, in every run in which no two calls of
`publish` overlap and no send fails for another reason than a full channel. -/
theorem reported_of_alone (as : List Action) (hok : Along step Alone {} as)
    (hrun : exec step {} as = some s) (c : ℕ) : (s.channels c).Reported := by
  have hinit : Reporting {} := ⟨fun _ => by constructor <;> simp, fun _ => nofun, 0, fun _ _ => rfl⟩
  exact ((Transition.exec_induct (fun s a t hs ha ht => hs.step ha ht) hinit hok hrun).good
    c).reports

/-- The sections of `publish` by publisher `i`, one of them for each of the `steps`. -/
def publishing (i event steps : ℕ) : List Action :=
  .publish i event :: replicate steps (.advance i false)

def threeEvents : List Action :=
  [.reserve, .commit 0 1, .change 0 true] ++ publishing 0 1 4 ++ publishing 0 2 4 ++
    [.receive 0, .receive 0] ++ publishing 0 3 4

theorem reported_threeEvents : ∃ s, exec step {} threeEvents = some s ∧
    ((s.channels 0).drops, (s.channels 0).sent) = ([(0, 1)], [.event 1, .overrun, .event 3]) ∧
    (s.channels 0).Reported := by
  have h : (exec step {} threeEvents).map (fun s => ((s.channels 0).drops, (s.channels 0).sent)) =
      some ([(0, 1)], [.event 1, .overrun, .event 3]) := by
    decide +kernel
  obtain ⟨s, hs, hview⟩ := map_eq_some_iff.1 h
  refine ⟨s, hs, hview, reported_of_alone threeEvents ?_ hs 0⟩
  refine ⟨trivial, trivial, trivial, fun _ => rfl, rfl, rfl, rfl, rfl, fun j => ?_, rfl, rfl, rfl,
    rfl, trivial, trivial, fun j => ?_, rfl, rfl, rfl, rfl, trivial⟩ <;> cases j <;> rfl

/-- Publishers 0 and 1 fill the channel, publisher 2 copies the slot, and publisher 3 drops its
event and sets the flag.  When the receiver has taken both events, publisher 2 sends its own
and clears the flag again.  Publisher 4 comes after all of this. -/
def clearedFlag : List Action :=
  [.reserve, .commit 0 1, .change 0 true] ++ publishing 0 1 2 ++ publishing 1 2 4 ++
    replicate 2 (.advance 0 false) ++ publishing 2 3 0 ++ publishing 3 4 4 ++
    [.receive 0, .receive 0] ++ replicate 4 (.advance 2 false) ++ [.receive 0] ++
    publishing 4 5 4

/-- **The overrun is never reported** to the receiver. -/
theorem not_reported_clearedFlag :
    ∃ s, exec step {} clearedFlag = some s ∧ ¬ (s.channels 0).Reported := by
  have h : (exec step {} clearedFlag).map (fun s => ((s.channels 0).drops, (s.channels 0).sent)) =
      some ([(0, 2)], [.event 2, .event 1, .event 3, .event 5]) := by
    decide +kernel
  obtain ⟨s, hs, hview⟩ := map_eq_some_iff.1 h
  obtain ⟨hdrops, hsent⟩ := Prod.mk.inj hview
  refine ⟨s, hs, fun h => ?_⟩
  obtain ⟨j, hj, -, hmark⟩ := h (0, 2) (by simp [hdrops]) 3 5 (by decide) (by simp [hsent])
  rw [hsent] at hmark
  rcases j with _ | _ | _ | j
  · simp at hmark
  · simp at hmark
  · simp at hmark
  · omega

end Naos.Input
