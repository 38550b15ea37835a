import Naos.Lib.Transition
import Mathlib

/-!
# The core of a terminal

`terminal_core` has the line discipline and the queues of a pseudo terminal.  Its master feeds
it with input, which is edited and echoed, and its slave with output.  No call blocks: one that
finds no room, or nothing to read, returns `-EAGAIN` and is repeated when the poll events or
the generation have changed.

A ring is the list of the bytes in it.  The attributes that `validate_termios` accepts are the
choices of the supported flags; what the core does not read of them is left out, as are the
window size and the handler of the control events.
-/

namespace Naos.Tty

open Option

def capacity : ℕ := 4096

/-- `termios`, by default that of `default_termios`. -/
structure Termios where
  inlcr : Bool := false
  igncr : Bool := false
  icrnl : Bool := true
  ixon : Bool := true
  ixany : Bool := false
  opost : Bool := true
  onlcr : Bool := true
  isig : Bool := true
  icanon : Bool := true
  echo : Bool := true
  echoe : Bool := true
  echok : Bool := true
  echonl : Bool := false
  noflsh : Bool := false
  ixten : Bool := true
  intr : UInt8 := 3
  quit : UInt8 := 28
  erase : UInt8 := 127
  kill : UInt8 := 21
  eof : UInt8 := 4
  time : UInt8 := 0
  min : UInt8 := 1
  start : UInt8 := 17
  stop : UInt8 := 19
  susp : UInt8 := 26

namespace Termios

variable (t : Termios) (v : UInt8)

/-- The mapping of `\r` and `\n` on input; `none` for a byte that is ignored. -/
def mapped : Option UInt8 :=
  if v = 13 then if t.igncr then none else if t.icrnl then some 10 else some v
  else if v = 10 ∧ t.inlcr then some 13 else some v

/-- The bytes of `echo_byte`. -/
def echoOf : List UInt8 :=
  if t.echo = false ∧ (v ≠ 10 ∨ t.echonl = false) then []
  else if v = 10 ∧ t.onlcr then [13, 10] else [v]

/-- The bytes of `echo_erase`. -/
def eraseEcho : List UInt8 := if t.echoe then [8, 32, 8] else []

/-- The bytes of `echo_kill`. -/
def killEcho : List UInt8 := if t.echok then [10] else []

/-- What `write_output` makes of a byte. -/
def translated : List UInt8 := if t.opost ∧ t.onlcr ∧ v = 10 then [13, 10] else [v]

def Signals : Prop := t.isig ∧ (v = t.intr ∨ v = t.quit ∨ v = t.susp)

instance : Decidable (t.Signals v) := inferInstanceAs (Decidable (_ ∧ _))

/-- Some byte comes to the data as `v`. -/
def Types : Prop :=
  (∃ b, t.mapped b = some v) ∧ ¬ (t.ixon ∧ (v = t.stop ∨ v = t.start)) ∧ ¬ t.Signals v

end Termios

/-- `terminal_core`.  `records` are the sizes from `input_record_head_` on, and `bumps` counts
the calls of `bump_generation`. -/
structure Core where
  term : Termios := {}
  input : List UInt8 := []
  output : List UInt8 := []
  line : List UInt8 := []
  records : List ℕ := []
  eofCount : ℕ := 0
  paused : Bool := false
  shutdown : Bool := false
  masterHungUp : Bool := false
  slaveHungUp : Bool := false
  bumps : ℕ := 0

inductive Errno where
  | again
  | io
  | pipe
  deriving DecidableEq

/-- What a call returns, with the bytes and the number it writes to its arguments. -/
structure Reply where
  result : Except Errno ℕ
  count : ℕ := 0
  bytes : List UInt8 := []

/-- A read of `count` bytes; `bytes` are those that were there. -/
def Reply.read (count : ℕ) (bytes : List UInt8) : Reply := ⟨.ok count, count, bytes⟩

def Reply.error (e : Errno) : Reply := ⟨.error e, 0, []⟩

/-- The loop of `receive_input` and `write_output`: how many bytes are taken, and the state. -/
def feed {σ : Type} (take : σ → UInt8 → Bool × σ) (s : σ) : List UInt8 → ℕ × σ
  | [] => (0, s)
  | v :: data =>
    match take s v with
    | (false, s) => (0, s)
    | (true, s) => ((feed take s data).1 + 1, (feed take s data).2)

namespace Core

variable (s : Core)

/-- `generation_`, which starts at 1 and does not come to 0. -/
def generation : ℕ := s.bumps % (2 ^ 64 - 1) + 1

def bump : Core := { s with bumps := s.bumps + 1 }

def emit (bytes : List UInt8) : Option Core :=
  if s.output.length + bytes.length ≤ capacity then
    some { s with output := s.output ++ bytes, bumps := s.bumps + bytes.length }
  else none

def setPaused (paused : Bool) : Core :=
  { s with paused, bumps := if s.paused = paused then s.bumps else s.bumps + 1 }

def clearInput : Core := { s with input := [], line := [], records := [], eofCount := 0 }

/-- `enqueue_input_record`. -/
def enqueueRecord (size : ℕ) : Option Core :=
  if s.records.length = capacity then none
  else some { s with records := s.records ++ [size], bumps := s.bumps + 1 }

/-- The part of `receive_input` for data.  The line is only completed where it fits, so that
`enqueue_input_line` succeeds. -/
def accept (v : UInt8) : Option Core :=
  if s.term.icanon then
    if s.term.ixten ∧ v = s.term.erase then
      if s.line = [] then some s
      else (s.emit s.term.eraseEcho).map fun s => { s with line := s.line.dropLast }
    else if s.term.ixten ∧ v = s.term.kill then
      (s.emit s.term.killEcho).map fun s => { s with line := [] }
    else if s.line = [] ∧ v = s.term.eof then s.enqueueRecord 0
    else if capacity ≤ s.line.length then none
    else if v = 10 then
      if capacity < s.input.length + s.line.length + 1 ∨ s.records.length = capacity then none
      else (s.emit (s.term.echoOf v)).map fun s =>
        { s with
          input := s.input ++ (s.line ++ [v])
          records := s.records ++ [s.line.length + 1]
          line := []
          bumps := s.bumps + 1 }
    else (s.emit (s.term.echoOf v)).map fun s => { s with line := s.line ++ [v] }
  else if s.input.length = capacity then none
  else (s.emit (s.term.echoOf v)).map fun s => { s with input := s.input ++ [v] }.bump

/-- One round of the loop of `receive_input`, and whether it takes the byte. -/
def take (b : UInt8) : Bool × Core :=
  match s.term.mapped b with
  | none => (true, s)
  | some v =>
    if s.term.ixon ∧ v = s.term.stop then (true, s.setPaused true)
    else if s.term.ixon ∧ v = s.term.start then (true, s.setPaused false)
    else
      let s := if s.term.ixon ∧ s.term.ixany then s.setPaused false else s
      if s.term.Signals v then
        (true, if s.term.noflsh then s else { s.clearInput with output := [] }.bump)
      else
        match s.accept v with
        | some s => (true, s)
        | none => (false, s)

/-- What `receive_input` and `write_output` return after their loops. -/
def answer (size count : ℕ) (nonblock : Bool) : Reply :=
  ⟨if count = size ∨ nonblock ∧ count ≠ 0 then .ok count else .error .again, count, []⟩

def receiveInput (data : List UInt8) (nonblock : Bool) : Reply × Core :=
  if s.slaveHungUp then (.error .io, s)
  else if s.shutdown then (.error .pipe, s)
  else
    let r := feed take s data
    (answer data.length r.1 nonblock, r.2)

/-- One round of the loop of `write_output`, with `output_byte`. -/
def put (v : UInt8) : Bool × Core :=
  match s.emit (s.term.translated v) with
  | some s => (true, s)
  | none => (false, s)

def writeOutput (data : List UInt8) (nonblock : Bool) : Reply × Core :=
  if s.masterHungUp then (.error .io, s)
  else if data ≠ [] ∧ s.paused then (.error .again, s)
  else
    let r := feed put s data
    (answer data.length r.1 nonblock, r.2)

/-- `read_input` without a record to read. -/
def readRing (max : ℕ) (timeout : Bool) : Reply × Core :=
  if s.input = [] then
    if s.eofCount ≠ 0 then (.read 0 [], { s with eofCount := s.eofCount - 1 }.bump)
    else if s.shutdown ∨ s.masterHungUp ∨ s.term.icanon = false ∧
        (s.term.time ≠ 0 ∧ timeout ∨ s.term.min = 0 ∧ s.term.time = 0) then (.read 0 [], s)
    else (.error .again, s)
  else if s.term.icanon = false ∧ s.input.length < min s.term.min.toNat max ∧
      timeout = false then (.error .again, s)
  else
    (.read (s.input.take max).length (s.input.take max), { s with input := s.input.drop max }.bump)

/-- `read_input`, which does not look at `nonblock`. -/
def readInput (max : ℕ) (timeout : Bool) : Reply × Core :=
  if max = 0 then (.read 0 [], s)
  else
    match s.term.icanon, s.records with
    | true, size :: records =>
      let count := min size max
      (.read count (s.input.take count),
        { s with
          input := s.input.drop count
          records := if size - count = 0 then records else (size - count) :: records }.bump)
    | _, _ => s.readRing max timeout

def readOutput (max : ℕ) : Reply × Core :=
  if max = 0 then (.read 0 [], s)
  else if s.output = [] then (.error (if s.slaveHungUp then .io else .again), s)
  else (.read (s.output.take max).length (s.output.take max),
    { s with output := s.output.drop max }.bump)

/-- `master_poll_events` and `slave_poll_events`, where `hangup` comes with `error`. -/
structure Events where
  readable : Bool
  writable : Bool
  hangup : Bool

def masterPoll : Events where
  readable := s.output ≠ [] ∨ s.slaveHungUp
  writable :=
    let space := if s.term.echo ∨ s.term.echonl then if s.term.onlcr then 2 else 1 else 0
    (if s.term.icanon then s.line.length < capacity ∧ s.records.length < capacity
      else s.input.length ≠ capacity) ∧
    s.shutdown = false ∧ s.slaveHungUp = false ∧ s.output.length + space ≤ capacity
  hangup := s.slaveHungUp

def slavePoll : Events where
  readable := s.input ≠ [] ∨ s.records ≠ [] ∨ s.eofCount ≠ 0 ∨ s.shutdown ∨ s.masterHungUp
  writable := s.output.length ≠ capacity ∧ s.masterHungUp = false ∧ s.paused = false
  hangup := s.masterHungUp

end Core

/-- The public operations. -/
inductive Call where
  | receiveInput (data : List UInt8) (nonblock : Bool)
  | readInput (max : ℕ) (timeout : Bool)
  | writeOutput (data : List UInt8) (nonblock : Bool)
  | readOutput (max : ℕ)
  | flush (input output : Bool)
  | sendEof
  | shutdownInput
  | hangupMaster
  | hangupSlave
  | openMaster
  | openSlave
  | setFlow (pause : Bool)
  | setTermios (term : Termios)
  /-- `set_winsize`, `set_control_event_handler` and `notify_external_change`. -/
  | touch
  | other

namespace Core

def step (s : Core) : Call → Reply × Core
  | .receiveInput data nonblock => s.receiveInput data nonblock
  | .readInput max timeout => s.readInput max timeout
  | .writeOutput data nonblock => s.writeOutput data nonblock
  | .readOutput max => s.readOutput max
  | .flush input output =>
    let s := if input then s.clearInput else s
    (.read 0 [], (if output then { s with output := [] } else s).bump)
  | .sendEof =>
    (.read 0 [], if s.term.icanon then (s.enqueueRecord 0).getD s
      else { s with eofCount := s.eofCount + 1 }.bump)
  | .shutdownInput => (.read 0 [], { s with shutdown := true }.bump)
  | .hangupMaster => (.read 0 [], { s with masterHungUp := true }.bump)
  | .hangupSlave => (.read 0 [], { s with slaveHungUp := true }.bump)
  | .openMaster =>
    (.read 0 [], if s.masterHungUp then { s with masterHungUp := false }.bump else s)
  | .openSlave =>
    (.read 0 [], if s.slaveHungUp then { s with slaveHungUp := false }.bump else s)
  | .setFlow pause => (.read 0 [], s.setPaused pause)
  | .setTermios term =>
    (.read 0 [], { s with term, paused := term.ixon && s.paused }.bump)
  | .touch => (.read 0 [], s.bump)
  | .other => (.read 0 [], s)

def run (s : Core) (calls : List Call) : Core := calls.foldl (fun s c => (s.step c).2) s

/-! ## Readiness -/

/-- **Readiness is honest**: what the poll events announce is not refused with `-EAGAIN`. -/
structure Honest (s : Core) : Prop where
  readable : s.slavePoll.readable → ∀ max timeout, 0 < max →
    (s.readInput max timeout).1.result ≠ .error .again
  masterWritable : s.masterPoll.writable → ∀ v nonblock,
    (s.receiveInput [v] nonblock).1.result ≠ .error .again
  slaveWritable : s.slavePoll.writable → ∀ v nonblock,
    (s.writeOutput [v] nonblock).1.result ≠ .error .again

/-- What the poll events do not look at: how many bytes a raw read waits for, and a record that
is left from canonical mode; the echo of an erased byte and of a line that is killed, and the
room for a line that is completed; the two bytes of a translated newline. -/
structure Ample (s : Core) : Prop where
  raw : s.term.icanon = false → s.input ≠ [] → s.term.min.toNat ≤ s.input.length
  record : s.term.icanon = false → s.input = [] → s.records ≠ [] →
    s.eofCount ≠ 0 ∨ s.shutdown ∨ s.masterHungUp ∨ s.term.min = 0 ∧ s.term.time = 0
  erase : s.masterPoll.writable → s.term.icanon → s.term.ixten → s.term.Types s.term.erase →
    s.line ≠ [] → s.output.length + s.term.eraseEcho.length ≤ capacity
  kill : s.masterPoll.writable → s.term.icanon → s.term.ixten → s.term.Types s.term.kill →
    s.term.kill ≠ s.term.erase → s.output.length + s.term.killEcho.length ≤ capacity
  line : s.masterPoll.writable → s.term.icanon → s.term.Types 10 →
    ¬ (s.term.ixten ∧ (10 = s.term.erase ∨ 10 = s.term.kill)) →
    ¬ (s.line = [] ∧ 10 = s.term.eof) → s.input.length + s.line.length + 1 ≤ capacity
  newline : s.slavePoll.writable →
    s.output.length + (if s.term.opost ∧ s.term.onlcr then 2 else 1) ≤ capacity

variable {s t : Core} {v : UInt8} {bytes : List UInt8}

lemma emit_isSome : (s.emit bytes).isSome ↔ s.output.length + bytes.length ≤ capacity := by
  unfold emit
  split_ifs with h <;> simp [h]

lemma length_echo_le (t : Termios) : (t.echoOf v).length ≤ 2 ∧ t.eraseEcho.length ≤ 3 ∧
    t.killEcho.length ≤ 1 ∧ (t.translated v).length ≤ 2 := by
  unfold Termios.echoOf Termios.eraseEcho Termios.killEcho Termios.translated
  split_ifs <;> simp

/-- The room that `master_poll_events` asks for is that of every echo of a byte. -/
lemma echo_room (hw : s.masterPoll.writable) :
    s.output.length + (s.term.echoOf v).length ≤ capacity := by
  simp only [masterPoll, decide_eq_true_eq] at hw
  obtain ⟨-, -, -, hspace⟩ := hw
  unfold Termios.echoOf
  split_ifs at hspace ⊢ <;> simp_all <;> omega

/-- A read is refused in raw mode only. -/
lemma readInput_ready_iff : (s.slavePoll.readable → ∀ max timeout, 0 < max →
    (s.readInput max timeout).1.result ≠ .error .again) ↔
    (s.term.icanon = false → s.input ≠ [] → s.term.min.toNat ≤ s.input.length) ∧
      (s.term.icanon = false → s.input = [] → s.records ≠ [] →
        s.eofCount ≠ 0 ∨ s.shutdown ∨ s.masterHungUp ∨ s.term.min = 0 ∧ s.term.time = 0) := by
  simp only [slavePoll, decide_eq_true_eq]
  constructor
  · intro h
    constructor
    · intro hraw hinput
      have hread := h (.inl hinput) s.term.min.toNat false
      by_contra hlt
      simp [readInput, readRing, hraw, hinput, Reply.error, show s.term.min.toNat ≠ 0 by omega,
        not_le.1 hlt, show 0 < s.term.min.toNat by omega] at hread
    · intro hraw hinput hrecords
      have hread := h (.inr (.inl hrecords)) 1 false one_pos
      by_contra hnone
      simp only [not_or, Bool.not_eq_true, not_not] at hnone
      obtain ⟨heof, hshut, hhung, hzero⟩ := hnone
      simp [readInput, readRing, hraw, hinput, heof, hshut, hhung, hzero, Reply.error] at hread
  · rintro ⟨hmin, hleft⟩ hready max timeout hmax
    rw [readInput, if_neg (by omega)]
    split
    · simp [Reply.read]
    rename_i hrecord
    unfold readRing
    split_ifs with hinput heof hnone hwait
    · simp [Reply.read]
    · simp [Reply.read]
    · cases hmode : s.term.icanon
      · simp_all
      · cases hs : s.records <;> simp_all
    · have := hmin hwait.1 hinput
      omega
    · simp [Reply.read]

lemma isSome_accept_setPaused (paused : Bool) (w : UInt8) :
    ((s.setPaused paused).accept w).isSome = (s.accept w).isSome := by
  unfold accept enqueueRecord emit
  simp only [apply_ite Option.isSome, Option.isSome_map, Option.isSome_some, Option.isSome_none]
  rfl

/-- `receive_input` refuses a byte where the editing of the line does. -/
lemma take_iff (s : Core) (b : UInt8) : (s.take b).1 = true ↔
    ∀ w, s.term.mapped b = some w → s.term.ixon ∧ (w = s.term.stop ∨ w = s.term.start) ∨
      s.term.Signals w ∨ (s.accept w).isSome := by
  cases hb : s.term.mapped b with
  | none => simp [take, hb]
  | some w =>
    obtain ⟨s', hs', hterm, haccept⟩ : ∃ s', (if s.term.ixon ∧ s.term.ixany then s.setPaused false
        else s) = s' ∧ s'.term = s.term ∧ (s'.accept w).isSome = (s.accept w).isSome := by
      split_ifs
      · exact ⟨_, rfl, rfl, isSome_accept_setPaused false w⟩
      · exact ⟨_, rfl, rfl, rfl⟩
    simp only [take, hb, hs', hterm, Option.some.injEq, forall_eq', ← haccept]
    by_cases hstop : s.term.ixon ∧ w = s.term.stop
    · simp [hstop]
    by_cases hstart : s.term.ixon ∧ w = s.term.start
    · rw [if_neg hstop, if_pos hstart]
      simp [hstart]
    by_cases hsignal : s.term.Signals w
    · simp [hstop, hstart, hsignal]
    · have hflow : ¬ (s.term.ixon ∧ (w = s.term.stop ∨ w = s.term.start)) := by tauto
      cases s'.accept w <;> simp [hstop, hstart, hsignal, hflow]

/-- What is accepted of the bytes that a writable terminal gets. -/
lemma accept_isSome_iff (hw : s.masterPoll.writable) : (s.accept v).isSome ↔
    (s.term.icanon → if s.term.ixten ∧ v = s.term.erase then
        s.line ≠ [] → s.output.length + s.term.eraseEcho.length ≤ capacity
      else if s.term.ixten ∧ v = s.term.kill then
        s.output.length + s.term.killEcho.length ≤ capacity
      else ¬ (s.line = [] ∧ v = s.term.eof) → v = 10 →
        s.input.length + s.line.length + 1 ≤ capacity) := by
  have hecho := echo_room (v := v) hw
  simp only [masterPoll, decide_eq_true_eq] at hw
  have hspace := hw.1
  unfold accept
  split_ifs at hspace ⊢ with hcanon herase hline hkill heof hfull hnl hroom hring <;>
    simp_all [emit_isSome, enqueueRecord] <;> omega

lemma receive_ready_iff : (s.masterPoll.writable → ∀ v nonblock,
    (s.receiveInput [v] nonblock).1.result ≠ .error .again) ↔
      (s.masterPoll.writable → ∀ w, s.term.Types w → (s.accept w).isSome) := by
  refine forall_congr' fun hw => ?_
  simp only [masterPoll, decide_eq_true_eq] at hw
  have hone (v : UInt8) : (∀ nonblock, (s.receiveInput [v] nonblock).1.result ≠ .error .again) ↔
      (s.take v).1 = true := by
    rcases hv : s.take v with ⟨_ | _, s'⟩ <;>
      simp [receiveInput, hw.2.1, hw.2.2.1, feed, hv, answer]
  simp only [hone, take_iff]
  constructor
  · rintro h w ⟨⟨b, hb⟩, hflow, hsignal⟩
    exact ((h b w hb).resolve_left hflow).resolve_left hsignal
  · intro h b w hb
    by_contra hnone
    push Not at hnone
    exact hnone.2.2 (h w ⟨⟨b, hb⟩, fun hf => hnone.1 hf.1 |>.elim hf.2.elim, hnone.2.1⟩)

lemma write_ready_iff : (s.slavePoll.writable → ∀ v nonblock,
    (s.writeOutput [v] nonblock).1.result ≠ .error .again) ↔
      (s.slavePoll.writable →
        s.output.length + (if s.term.opost ∧ s.term.onlcr then 2 else 1) ≤ capacity) := by
  refine forall_congr' fun hw => ?_
  simp only [slavePoll, decide_eq_true_eq] at hw
  have hone (v : UInt8) : (∀ nonblock, (s.writeOutput [v] nonblock).1.result ≠ .error .again) ↔
      s.output.length + (s.term.translated v).length ≤ capacity := by
    rw [← emit_isSome]
    cases hv : s.emit (s.term.translated v) <;>
      simp [writeOutput, hw.2.1, hw.2.2, feed, put, hv, answer]
  simp only [hone]
  constructor
  · intro h
    have hnl := h 10
    unfold Termios.translated at hnl
    split_ifs at hnl ⊢ <;> simp_all
  · intro h v
    unfold Termios.translated
    split_ifs at h ⊢ <;> simp_all
    omega

/-- **Readiness is honest** exactly in the states that leave room for what the poll events do
not look at. -/
theorem honest_iff_ample (s : Core) : s.Honest ↔ s.Ample := by
  constructor
  · rintro ⟨hread, hreceive, hwrite⟩
    obtain ⟨hmin, hleft⟩ := readInput_ready_iff.1 hread
    rw [receive_ready_iff] at hreceive
    refine ⟨hmin, hleft, ?_, ?_, ?_, write_ready_iff.1 hwrite⟩
    · intro hw hcanon hixten htypes hline
      have := (accept_isSome_iff hw).1 (hreceive hw _ htypes) hcanon
      rw [if_pos ⟨hixten, rfl⟩] at this
      exact this hline
    · intro hw hcanon hixten htypes hne
      have := (accept_isSome_iff hw).1 (hreceive hw _ htypes) hcanon
      rwa [if_neg (by simp [hne]), if_pos ⟨hixten, rfl⟩] at this
    · intro hw hcanon htypes hedit heof
      have := (accept_isSome_iff hw).1 (hreceive hw _ htypes) hcanon
      rw [if_neg (by tauto), if_neg (by tauto)] at this
      exact this heof rfl
  · intro h
    refine ⟨readInput_ready_iff.2 ⟨h.raw, h.record⟩, receive_ready_iff.2 fun hw w htypes => ?_,
      write_ready_iff.2 h.newline⟩
    refine (accept_isSome_iff hw).2 fun hcanon => ?_
    split_ifs with herase hkill
    · obtain ⟨hixten, rfl⟩ := herase
      exact h.erase hw hcanon hixten htypes
    · obtain ⟨hixten, rfl⟩ := hkill
      exact h.kill hw hcanon hixten htypes (by tauto)
    · rintro heof rfl
      exact h.line hw hcanon htypes (by tauto) heof

def awaitedFive : List Call :=
  [.setTermios { icanon := false, min := 5 }, .receiveInput [97] true]

/-- **A terminal that says it is readable refuses a read.** -/
theorem not_honest_awaitedFive : ¬ (run {} awaitedFive).Honest :=
  fun h => h.readable (by decide) 8 false (by decide) (by decide)

/-! ## The generation -/

def view (s : Core) : Events × Events := (s.masterPoll, s.slavePoll)

/-- A call that changes a poll event changes the generation as well. -/
def Heard (s : Core) (c : Call) : Prop :=
  (s.step c).2.view ≠ s.view → (s.step c).2.generation ≠ s.generation

/-- Input is edited with echoes or not at all, and the generation does not come round. -/
def Audible (s : Core) : Call → Prop
  | .receiveInput data _ => 4 * data.length < 2 ^ 64 - 1 ∧
      (s.term.icanon → s.term.echo ∧ s.term.echoe ∧ s.term.echok)
  | .writeOutput data _ => 4 * data.length < 2 ^ 64 - 1
  | _ => True

/-- Up to `k` bumps, and at least one if the view has changed. -/
structure Notes (k : ℕ) (s t : Core) : Prop where
  le : s.bumps ≤ t.bumps
  bound : t.bumps ≤ s.bumps + k
  still : t.bumps = s.bumps → t.view = s.view

namespace Notes

variable {k : ℕ}

lemma refl (k : ℕ) (s : Core) : Notes k s s := ⟨le_rfl, by omega, fun _ => rfl⟩

lemma of_lt (h : s.bumps < t.bumps) (hk : t.bumps ≤ s.bumps + k) : Notes k s t :=
  ⟨h.le, hk, fun heq => absurd heq (by omega)⟩

lemma trans {j : ℕ} {u : Core} (h : Notes j s t) (h' : Notes k t u) : Notes (j + k) s u where
  le := h.le.trans h'.le
  bound := by have := h.bound; have := h'.bound; omega
  still heq := by
    have := h.le
    have := h'.le
    rw [h'.still (by omega), h.still (by omega)]

lemma setPaused (s : Core) (paused : Bool) : Notes 1 s (s.setPaused paused) := by
  by_cases h : s.paused = paused
  · subst h
    simpa [Core.setPaused] using refl 1 s
  · exact of_lt (by simp [Core.setPaused, h]) (by simp [Core.setPaused, h])

lemma generation_ne (h : Notes k s t) (hk : k < 2 ^ 64 - 1) (hview : t.view ≠ s.view) :
    t.generation ≠ s.generation := by
  have hne := mt h.still hview
  obtain ⟨hle, hbound, -⟩ := h
  unfold generation
  omega

end Notes

lemma emit_eq_some (h : s.emit bytes = some t) :
    t = { s with output := s.output ++ bytes, bumps := s.bumps + bytes.length } := by
  unfold emit at h
  split_ifs at h
  rw [← some.inj h]

lemma emit_map_eq_some {f : Core → Core} (h : (s.emit bytes).map f = some t) :
    t = f { s with output := s.output ++ bytes, bumps := s.bumps + bytes.length } := by
  obtain ⟨u, hu, rfl⟩ := Option.map_eq_some_iff.1 h
  rw [emit_eq_some hu]

variable (hecho : s.term.icanon → s.term.echo ∧ s.term.echoe ∧ s.term.echok)
include hecho

lemma accept_notes (h : s.accept v = some t) : Notes 3 s t ∧ t.term = s.term := by
  obtain ⟨hbyte, -, -, -⟩ := length_echo_le (v := v) s.term
  have hsound (hcanon : s.term.icanon) : 0 < (s.term.echoOf v).length := by
    simp only [Termios.echoOf, hecho hcanon]
    split_ifs <;> simp_all
  unfold accept at h
  split_ifs at h with hcanon _ _ _ _ _ hnl
  · cases h
    exact ⟨.refl 3 s, rfl⟩
  · rw [emit_map_eq_some h]
    have hlen : s.term.eraseEcho.length = 3 := by simp [Termios.eraseEcho, hecho hcanon]
    exact ⟨.of_lt (by dsimp; omega) (by dsimp; omega), rfl⟩
  · rw [emit_map_eq_some h]
    have hlen : s.term.killEcho.length = 1 := by simp [Termios.killEcho, hecho hcanon]
    exact ⟨.of_lt (by dsimp; omega) (by dsimp; omega), rfl⟩
  · unfold enqueueRecord at h
    split_ifs at h
    cases h
    exact ⟨.of_lt (by simp) (by simp), rfl⟩
  · rw [emit_map_eq_some h]
    exact ⟨.of_lt (by dsimp; omega) (by dsimp; omega), rfl⟩
  · rw [emit_map_eq_some h]
    have := hsound hcanon
    exact ⟨.of_lt (by dsimp; omega) (by dsimp; omega), rfl⟩
  · rw [emit_map_eq_some h]
    exact ⟨.of_lt (by dsimp [bump]; omega) (by dsimp [bump]; omega), rfl⟩

lemma take_notes (b : UInt8) : Notes 4 s (s.take b).2 ∧ (s.take b).2.term = s.term := by
  have hmore {s' : Core} (h : Notes 1 s s') : Notes 4 s s' := h.trans (.refl 3 s')
  unfold take
  split
  · exact ⟨.refl 4 s, rfl⟩
  have hany : ∃ s', (if s.term.ixon ∧ s.term.ixany then s.setPaused false else s) = s' ∧
      Notes 1 s s' ∧ s'.term = s.term := by
    split_ifs
    · exact ⟨_, rfl, .setPaused s false, rfl⟩
    · exact ⟨_, rfl, .refl 1 s, rfl⟩
  obtain ⟨s', hs', hnotes, hterm⟩ := hany
  simp only [hs']
  split_ifs
  · exact ⟨hmore (.setPaused s true), rfl⟩
  · exact ⟨hmore (.setPaused s false), rfl⟩
  · exact ⟨hmore hnotes, hterm⟩
  · refine ⟨hnotes.trans (k := 3) (.of_lt ?_ ?_), hterm⟩
    all_goals dsimp only [bump, clearInput]; omega
  · split
    next t ht =>
      have := accept_notes (hterm ▸ hecho) ht
      exact ⟨hnotes.trans this.1, this.2.trans hterm⟩
    · exact ⟨hmore hnotes, hterm⟩

omit hecho

lemma feed_notes {take : Core → UInt8 → Bool × Core} {C : Termios → Prop}
    (htake : ∀ s v, C s.term → Notes 4 s (take s v).2 ∧ (take s v).2.term = s.term)
    (data : List UInt8) (s : Core) (hs : C s.term) :
    Notes (4 * data.length) s (feed take s data).2 := by
  induction data generalizing s with
  | nil => exact .refl _ s
  | cons v data ih =>
    obtain ⟨hnotes, hterm⟩ := htake s v hs
    rcases htaken : take s v with ⟨_ | _, t⟩ <;> rw [htaken] at hnotes hterm
    · simp only [feed, htaken, List.length_cons, Nat.mul_succ, Nat.add_comm _ 4]
      exact hnotes.trans (.refl _ t)
    · simp only [feed, htaken, List.length_cons, Nat.mul_succ, Nat.add_comm _ 4]
      exact hnotes.trans (ih t (hterm ▸ hs))

lemma put_notes (s : Core) (v : UInt8) : Notes 4 s (s.put v).2 ∧ (s.put v).2.term = s.term := by
  have hlen := (length_echo_le (v := v) s.term).2.2.2
  have hpos : 0 < (s.term.translated v).length := by
    unfold Termios.translated
    split_ifs <;> simp
  unfold put
  split
  next t ht =>
    rw [emit_eq_some ht]
    exact ⟨.of_lt (by dsimp; omega) (by dsimp; omega), rfl⟩
  · exact ⟨.refl 4 s, rfl⟩

lemma step_notes (s : Core) (c : Call) (h : s.Audible c) :
    ∃ k < 2 ^ 64 - 1, Notes k s (s.step c).2 := by
  have hbump {s' : Core} (h : s'.bumps = s.bumps + 1) : ∃ k < 2 ^ 64 - 1, Notes k s s' :=
    ⟨1, by decide, .of_lt (by omega) (by omega)⟩
  have hstay : ∃ k < 2 ^ 64 - 1, Notes k s s := ⟨0, by decide, .refl 0 s⟩
  cases c with
  | receiveInput data nonblock =>
    dsimp only [step, receiveInput]
    split_ifs
    · exact hstay
    · exact hstay
    · exact ⟨_, h.1, feed_notes (C := fun t => t.icanon → t.echo ∧ t.echoe ∧ t.echok)
        (fun s v hs => take_notes hs v) data s h.2⟩
  | writeOutput data nonblock =>
    dsimp only [step, writeOutput]
    split_ifs
    · exact hstay
    · exact hstay
    · exact ⟨_, h, feed_notes (C := fun _ => True) (fun s v _ => put_notes s v) data s trivial⟩
  | readInput max timeout =>
    dsimp only [step, readInput]
    split_ifs
    · exact hstay
    · split
      · exact hbump rfl
      · unfold readRing
        split_ifs <;> first | exact hstay | exact hbump rfl
  | flush input output =>
    refine hbump ?_
    cases input <;> cases output <;> rfl
  | readOutput | sendEof | openMaster | openSlave =>
    dsimp only [step, readOutput, enqueueRecord]
    split_ifs <;> first | exact hstay | exact hbump rfl
  | setFlow pause => exact ⟨1, by decide, .setPaused s pause⟩
  | other => exact hstay
  | _ => exact hbump rfl

/-- **A call changes no poll event without the generation**, if no edit of the line is silent. -/
theorem heard_of_audible (s : Core) (c : Call) (h : s.Audible c) : s.Heard c := by
  intro hview
  obtain ⟨k, hk, hnotes⟩ := step_notes s c h
  exact hnotes.generation_ne hk hview

theorem heard_of_audible_letter : Heard {} (.receiveInput [97] true) :=
  heard_of_audible {} (.receiveInput [97] true) ⟨by decide, fun _ => by decide⟩

/-- An unfinished line of `n` letters that nobody sees. -/
def silent (n : ℕ) : Core :=
  { term := { echo := false }, line := .replicate n 97, bumps := 1 }

lemma feed_silent (n m : ℕ) (h : n + m ≤ capacity) :
    feed take (silent n) (.replicate m 97) = (m, silent (n + m)) := by
  induction m generalizing n with
  | zero => rfl
  | succ m ih =>
    have htake : (silent n).take 97 = (true, silent (n + 1)) := by
      have hnot : ¬ capacity ≤ n := by omega
      simp [silent, take, accept, emit, Termios.mapped, Termios.Signals, Termios.echoOf, hnot,
        List.replicate_succ']
    rw [List.replicate_succ, feed, htake]
    dsimp only
    rw [ih (n + 1) (by omega), Nat.add_assoc, Nat.add_comm 1]

/-- `n` letters are typed without an echo. -/
def typed (n : ℕ) : Core :=
  run {} [.setTermios { echo := false }, .receiveInput (.replicate n 97) true]

lemma typed_eq (n : ℕ) (h : n ≤ capacity) : typed n = silent n := by
  have hfeed := feed_silent 0 n (by omega)
  rw [Nat.zero_add] at hfeed
  exact congrArg Prod.snd hfeed

/-- **The last letter that fits takes the room away without a new generation.** -/
theorem not_heard_lastLetter : ¬ (typed 4095).Heard (.receiveInput [97] true) := by
  have hlast (n : ℕ) (h : n + 1 ≤ capacity) :
      ((silent n).step (.receiveInput [97] true)).2 = silent (n + 1) :=
    congrArg Prod.snd (feed_silent n 1 h)
  rw [Heard, typed_eq 4095 (by decide), hlast 4095 (by decide)]
  simp [silent, view, masterPoll, generation, capacity, -List.reduceReplicate]

end Core
end Naos.Tty
