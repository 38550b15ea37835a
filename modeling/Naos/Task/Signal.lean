import Naos.Lib.Transition
import Mathlib

/-!
# Signals

`signal_pack_t` keeps the pending signals of a process and three masks.  A signal is
*valid* when the process has a handler of its own for it.  `send` runs the default
handler, ignores the signal or queues it.  `wait` sleeps until some pending signal is
not blocked and then scans the queue from its head.

Every branch of the scan removes the event it looks at, except that there is none for an
event which is valid, not ignored and blocked.
-/

namespace Naos.Signal

open List

open Transition (exec Along)

structure Info where
  number : ℕ
  error : Int := 0
  code : Int := 0
  pid : ℕ := 0
  tid : ℕ := 0
  status : Int := 0
  deriving DecidableEq

inductive Handler where
  | ignore | kill | killDump | stop | cont
  deriving DecidableEq

/-- `default_signal_handler`: an array of 64 whose entries after these are null. -/
def defaultSignalHandler : List Handler :=
  [.kill, .kill, .kill, .kill, .killDump, .killDump, .killDump, .killDump, .kill, .kill,
    .killDump, .kill, .kill, .kill, .kill, .kill, .kill, .ignore, .cont, .stop, .stop, .stop,
    .stop] ++ replicate 8 .ignore

/-- `signal_mask_t`. -/
structure Masks where
  block : ℕ → Bool := fun _ => false
  ignore : ℕ → Bool := fun _ => false
  valid : ℕ → Bool := fun _ => false

inductive Way where
  | byDefault (handler : Handler)
  | ignored
  | delivered
  deriving DecidableEq

/-- `signal_pack_t`, with the history of the signals sent to it and of their ends. -/
structure State where
  masks : Masks := {}
  events : List Info := []
  sent : List Info := []
  handled : List (Way × Info) := []

namespace State

variable (s : State)

def finish (way : Way) (info : Info) : State := { s with handled := (way, info) :: s.handled }

/-- A call through `default_signal_handler`; `none` where the pointer is null. -/
def callDefault (info : Info) : Option State :=
  defaultSignalHandler[info.number]?.map fun h => s.finish (.byDefault h) info

/-- `send`; `none` where it calls a null handler. -/
def send (info : Info) : Option State :=
  let num := info.number
  if num = 0 ∨ 64 ≤ num then some s
  else
    let s := { s with sent := info :: s.sent }
    if num = 9 ∨ num = 19 ∨ num = 18 then s.callDefault info
    else if 1024 < s.events.length then some s
    else if s.masks.valid num = false then s.callDefault info
    else if s.masks.ignore num then some (s.finish .ignored info)
    else some { s with events := s.events ++ [info] }

end State

/-- Where the scan of `wait` is after one turn of its loop. -/
inductive Turn where
  | finished (s : State)
  | next (s : State)
  /-- `wait` returns. -/
  | delivered (info : Info) (s : State)
  | fault

namespace State

variable (s : State)

/-- One turn of the scan.  All events before the iterator are removed already. -/
def turn : Turn :=
  match s.events with
  | [] => .finished s
  | e :: es =>
    let rest := { s with events := es }
    if s.masks.valid e.number = false then (rest.callDefault e).elim .fault .next
    else if s.masks.ignore e.number then .next (rest.finish .ignored e)
    else if s.masks.block e.number = false then .delivered e (rest.finish .delivered e)
    else .next s

/-- At most `n` turns of the scan. -/
def scan : ℕ → State → Turn
  | 0, s => .next s
  | n + 1, s =>
    match s.turn with
    | .next s => scan n s
    | r => r

/-- One round of `wait`: it sleeps on, or scans.  A scan that has not ended after a turn for
each event and one more does not end; `none` stands for it and for a call of a null handler. -/
def wait : Option State :=
  if s.events.any fun e => s.masks.block e.number = false then
    match s.scan (s.events.length + 1) with
    | .finished s | .delivered _ s => some s
    | .next _ | .fault => none
  else some s

end State

inductive Action where
  | send (info : Info)
  | wait
  | setMasks (masks : Masks)

def step (s : State) : Action → Option State
  | .send info => s.send info
  | .wait => s.wait
  | .setMasks masks => some { s with masks := masks }

def Masks.Takes (m : Masks) (e : Info) : Prop := m.valid e.number = true ∧ m.ignore e.number = false

/-- The event is one that `wait` is to deliver. -/
def Masks.Deliverable (m : Masks) (e : Info) : Prop := m.Takes e ∧ m.block e.number = false

/-- **What the scan is for**: it ends, and either there was nothing to deliver and nothing is
left, or it returns the first event to deliver and leaves those after it as they were. -/
def Delivers (s : State) : Prop :=
  ∃ n s', (s.scan n = .finished s' ∧ s'.events = [] ∧ ∀ e ∈ s.events, ¬ s.masks.Deliverable e) ∨
    ∃ before e, s.scan n = .delivered e s' ∧ s.events = before ++ e :: s'.events ∧
      s.masks.Deliverable e ∧ ∀ x ∈ before, ¬ s.masks.Deliverable x

/-- **Every signal that was sent is pending or has come to its end**, once. -/
def Accounted (s : State) : Prop := (s.handled.map Prod.snd ++ s.events).Perm s.sent

/-- The scan removes the event and goes on: the default handler is there, or the process
ignores the signal. -/
def Masks.Passable (m : Masks) (e : Info) : Prop :=
  if m.valid e.number = true then m.ignore e.number = true else e.number < 31

/-- **The scan comes to the first event to deliver**: every event before it can be removed. -/
def Masks.Clear (m : Masks) : List Info → Prop
  | [] => True
  | e :: es => m.Deliverable e ∨ m.Passable e ∧ m.Clear es

/-- The sender uses a number with a default handler or a handler of the process while the queue
takes signals, and a `wait` that scans comes to the first event to deliver. -/
def Heeds (s : State) : Action → Prop
  | .send info =>
    info.number < 64 → ¬ (info.number = 9 ∨ info.number = 19 ∨ info.number = 18) →
      s.events.length ≤ 1024 ∧ (s.masks.valid info.number = false → info.number < 31)
  | .wait => (∃ e ∈ s.events, s.masks.block e.number = false) → s.masks.Clear s.events
  | .setMasks _ => True

variable {s t : State} {e : Info} {es : List Info}

lemma callDefault_eq (h : e.number < 31) (s : State) :
    ∃ way, s.callDefault e = some (s.finish way e) := by
  have hlen : e.number < defaultSignalHandler.length := h
  exact ⟨_, by rw [State.callDefault, getElem?_eq_getElem hlen]; rfl⟩

/-- What the scan keeps: the masks, the order of what is left, and the account. -/
structure Passes (s t : State) : Prop where
  masks : t.masks = s.masks
  sent : t.sent = s.sent
  events : t.events <:+ s.events
  account : (t.handled.map Prod.snd ++ t.events).Perm (s.handled.map Prod.snd ++ s.events)

lemma passes_finish (hs : s.events = e :: es) (way : Way) :
    Passes s ({ s with events := es }.finish way e) where
  masks := rfl
  sent := rfl
  events := hs ▸ suffix_cons e es
  account := by simpa [State.finish, hs] using perm_middle.symm

lemma Passes.trans {u : State} (h : Passes s t) (h' : Passes t u) : Passes s u where
  masks := h'.masks.trans h.masks
  sent := h'.sent.trans h.sent
  events := h'.events.trans h.events
  account := h'.account.trans h.account

lemma turn_cons (hs : s.events = e :: es) :
    (s.masks.Deliverable e ∧
        s.turn = .delivered e ({ s with events := es }.finish .delivered e)) ∨
      ¬ s.masks.Deliverable e ∧
        ((s.masks.Passable e ∧ ∃ way, s.turn = .next ({ s with events := es }.finish way e)) ∨
          ¬ s.masks.Passable e ∧ (s.turn = .fault ∨ s.turn = .next s)) := by
  simp only [State.turn, hs, Masks.Deliverable, Masks.Takes, Masks.Passable]
  cases hv : s.masks.valid e.number with
  | false =>
    by_cases hnum : e.number < 31
    · obtain ⟨way, hway⟩ := callDefault_eq hnum { s with events := es }
      exact .inr ⟨by simp, .inl ⟨by simpa using hnum, way, by simp [hway]⟩⟩
    · have hnull : defaultSignalHandler.length ≤ e.number := Nat.not_lt.1 hnum
      simp [hnum, State.callDefault, getElem?_eq_none hnull]
  | true =>
    cases hi : s.masks.ignore e.number with
    | true => exact .inr ⟨by simp, .inl ⟨by simp, .ignored, by simp⟩⟩
    | false => cases hb : s.masks.block e.number <;> simp

/-- **The scan ends** after at most a turn for each event and one more. -/
theorem scan_clear (h : s.masks.Clear s.events) : ∃ t, Passes s t ∧
    ((s.scan (s.events.length + 1) = .finished t ∧ t.events = [] ∧
        ∀ e ∈ s.events, ¬ s.masks.Deliverable e) ∨
      ∃ before e, s.scan (s.events.length + 1) = .delivered e t ∧
        s.events = before ++ e :: t.events ∧ s.masks.Deliverable e ∧
        ∀ x ∈ before, ¬ s.masks.Deliverable x) := by
  induction hs : s.events generalizing s with
  | nil =>
    refine ⟨s, ⟨rfl, rfl, suffix_rfl, .rfl⟩, .inl ⟨?_, hs, nofun⟩⟩
    simp [State.scan, State.turn, hs]
  | cons e es ih =>
    rw [hs, Masks.Clear] at h
    rcases turn_cons hs with ⟨hdel, hturn⟩ | ⟨hnot, ⟨-, way, hturn⟩ | ⟨hstuck, -⟩⟩
    · refine ⟨_, passes_finish hs .delivered, .inr ⟨[], e, ?_, rfl, hdel, nofun⟩⟩
      rw [State.scan, hturn]
    · have hpass := passes_finish hs way
      obtain ⟨t, ht, hend⟩ := ih (s := { s with events := es }.finish way e)
        (h.resolve_left hnot).2 rfl
      refine ⟨t, hpass.trans ht, ?_⟩
      rw [length_cons, State.scan, hturn]
      rcases hend with ⟨hscan, hnil, hall⟩ | ⟨before, x, hscan, hsplit, hx, hall⟩
      · exact .inl ⟨hscan, hnil, forall_mem_cons.2 ⟨hnot, hall⟩⟩
      · exact .inr ⟨e :: before, x, hscan, congrArg (e :: ·) hsplit, hx,
          forall_mem_cons.2 ⟨hnot, hall⟩⟩
    · exact absurd (h.resolve_left hnot).1 hstuck

/-- A scan that ends has come to the first event to deliver. -/
lemma clear_of_scan (n : ℕ) : ∀ s : State,
    (s.scan n = .finished t ∨ ∃ e, s.scan n = .delivered e t) → s.masks.Clear s.events := by
  induction n with
  | zero =>
    rintro s (h | ⟨e, h⟩)
    · cases h
    · cases h
  | succ n ih =>
    intro s h
    rw [State.scan] at h
    match hs : s.events with
    | [] => exact trivial
    | e :: es =>
      rcases turn_cons hs with ⟨hdel, -⟩ | ⟨-, ⟨hpass, way, hturn⟩ | ⟨-, hturn | hturn⟩⟩
      · exact .inl hdel
      · rw [hturn] at h
        exact .inr ⟨hpass, ih _ h⟩
      · simp [hturn] at h
      · rw [hturn] at h
        exact hs ▸ ih s h

lemma delivers_iff_clear : Delivers s ↔ s.masks.Clear s.events := by
  constructor
  · rintro ⟨n, t, ⟨hscan, -⟩ | ⟨-, e, hscan, -⟩⟩
    · exact clear_of_scan n s (.inl hscan)
    · exact clear_of_scan n s (.inr ⟨e, hscan⟩)
  · intro h
    obtain ⟨t, -, hend⟩ := scan_clear h
    exact ⟨_, t, hend⟩

lemma Accounted.finish (h : Accounted s) (way : Way) (e : Info) :
    Accounted ({ s with sent := e :: s.sent }.finish way e) := h.cons e

/-- **A step** goes through and keeps the account. -/
lemma Accounted.step {a : Action} (h : Accounted s) (hok : Heeds s a) :
    ∃ t, step s a = some t ∧ Accounted t := by
  cases a with
  | setMasks masks => exact ⟨_, rfl, h⟩
  | send info =>
    have hdefault : info.number < 31 →
        ∃ t, State.callDefault { s with sent := info :: s.sent } info = some t ∧ Accounted t := by
      intro hnum
      obtain ⟨way, hway⟩ := callDefault_eq hnum { s with sent := info :: s.sent }
      exact ⟨_, hway, h.finish way info⟩
    simp only [Signal.step, State.send]
    split_ifs with hrange hspecial hfull hvalid
    · exact ⟨s, rfl, h⟩
    · exact hdefault (by omega)
    · exact absurd hfull (Nat.not_lt.2 (hok (by omega) hspecial).1)
    · exact hdefault ((hok (by omega) hspecial).2 hvalid)
    · exact ⟨_, rfl, h.finish .ignored info⟩
    · refine ⟨_, rfl, ?_⟩
      rw [Accounted, ← append_assoc]
      exact (perm_append_singleton _ _).trans (h.cons info)
  | wait =>
    simp only [Signal.step, State.wait]
    split_ifs with hany
    · have hsome : ∃ e ∈ s.events, s.masks.block e.number = false := by simpa using hany
      obtain ⟨t, hpass, hend⟩ := scan_clear (hok hsome)
      refine ⟨t, ?_, (hpass.account.trans h).trans (.of_eq hpass.sent.symm)⟩
      rcases hend with ⟨hscan, -⟩ | ⟨-, e, hscan, -⟩ <;> rw [hscan]
    · exact ⟨s, rfl, h⟩

def userSignal (number : ℕ) : Info := ⟨number, 0, 0, 1, 1, 0⟩

/-- The process has a handler for 10, which is blocked, and one for 12. -/
def handledSignal : List Action :=
  [.setMasks { valid := fun n => n = 10 || n = 12, block := fun n => n = 10 },
    .send (userSignal 12), .send (userSignal 10), .send (userSignal 17), .wait]

def heldBack : State where
  masks := { valid := fun _ => true, block := fun n => n = 10 }
  events := [⟨10, 0, 0, 1, 1, 0⟩, ⟨12, 0, 0, 1, 1, 0⟩]

end Naos.Signal
