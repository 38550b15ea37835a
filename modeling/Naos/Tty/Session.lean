import Naos.Tty.Core

/-!
# What a terminal is for

A `Session` is a terminal without rings and without bounds: the line that is being typed, the
lines that were completed and all that was shown.  The bytes that `receive_input` and
`write_output` have taken so far, in the order of the calls, say what it is.  The core serves
it: what the slave has read are parts of the completed lines, one after the other, and what the
master has read and can still read is what was shown.
-/

namespace Naos.Tty

open List Option

open Transition (exec exec_induct Along)

open Naos.Tty.Core

variable {σ : Type} {eat : σ → UInt8 → Bool × σ} {P : List UInt8 → σ → Prop}

lemma feed_induct (data : List UInt8)
    (hyes : ∀ done s, ∀ v ∈ data, P done s → (eat s v).1 = true → P (done ++ [v]) (eat s v).2)
    (hno : ∀ done s, ∀ v ∈ data, P done s → (eat s v).1 = false → P done (eat s v).2) (s : σ)
    (h : P [] s) : P (data.take (feed eat s data).1) (feed eat s data).2 := by
  suffices hdone : ∀ done s, P done s →
      P (done ++ data.take (feed eat s data).1) (feed eat s data).2 from hdone [] s h
  induction data with
  | nil => simp [feed]
  | cons v data ih =>
    intro done s h
    rcases htaken : eat s v with ⟨_ | _, t⟩
    · simpa [feed, htaken] using hno done s v mem_cons_self h (by rw [htaken])
    · have hv := hyes done s v mem_cons_self h (by rw [htaken])
      rw [htaken] at hv
      simpa [feed, htaken] using ih (fun d s v hm => hyes d s v (mem_cons_of_mem _ hm))
        (fun d s v hm => hno d s v (mem_cons_of_mem _ hm)) (done ++ [v]) t hv

/-- What every byte keeps, taken or not, a call keeps. -/
lemma feed_keeps {Q : σ → Prop} (data : List UInt8)
    (hQ : ∀ s, ∀ v ∈ data, Q s → Q (eat s v).2) (s : σ) (h : Q s) : Q (feed eat s data).2 :=
  feed_induct (P := fun _ => Q) data (fun _ s v hv hs _ => hQ s v hv hs)
    (fun _ s v hv hs _ => hQ s v hv hs) s h

/-! ## The session -/

/-- An end of file is a completed line without bytes. -/
structure Session where
  line : List UInt8 := []
  lines : List (List UInt8) := []
  shown : List UInt8 := []

namespace Session

variable (t : Termios)

def key (x : Session) (v : UInt8) : Session :=
  if t.icanon then
    if t.ixten ∧ v = t.erase then
      if x.line = [] then x
      else { x with line := x.line.dropLast, shown := x.shown ++ t.eraseEcho }
    else if t.ixten ∧ v = t.kill then { x with line := [], shown := x.shown ++ t.killEcho }
    else if x.line = [] ∧ v = t.eof then { x with lines := x.lines ++ [[]] }
    else if v = 10 then
      { line := [], lines := x.lines ++ [x.line ++ [v]], shown := x.shown ++ t.echoOf v }
    else { x with line := x.line ++ [v], shown := x.shown ++ t.echoOf v }
  else { x with shown := x.shown ++ t.echoOf v }

def type (x : Session) (b : UInt8) : Session :=
  match t.mapped b with
  | none => x
  | some v => if t.ixon ∧ (v = t.stop ∨ v = t.start) then x else x.key t v

def after (x : Session) : Call × Reply → Session
  | (.receiveInput data _, r) => (data.take r.count).foldl (type t) x
  | (.writeOutput data _, r) =>
    { x with shown := x.shown ++ (data.take r.count).flatMap t.translated }
  | _ => x

end Session

/-! ## Records -/

namespace Session

/-- A byte that is typed, with the signal characters. -/
def press (t : Termios) (x : Session) (b : UInt8) : Session :=
  match t.mapped b with
  | none => x
  | some v =>
    if t.ixon ∧ (v = t.stop ∨ v = t.start) then x
    else if t.Signals v then if t.noflsh then x else { x with line := [], lines := [] }
    else x.key t v

/-- What is owed to the slave after a call: the lines that are completed and not yet read.  The
record of an end of file is dropped where there are `capacity` of them. -/
def owe (p : Termios × Session) : Call × Reply → Termios × Session
  | (.receiveInput data _, r) => (p.1, (data.take r.count).foldl (press p.1) p.2)
  | (.readInput max _, r) =>
    match p.2.lines with
    | [] => p
    | line :: lines =>
      if max = 0 then p
      else if r.count < line.length then
        (p.1, { p.2 with lines := line.drop r.count :: lines })
      else (p.1, { p.2 with lines := lines })
  | (.flush true _, _) => (p.1, { p.2 with line := [], lines := [] })
  | (.sendEof, _) =>
    if p.1.icanon ∧ p.2.lines.length ≠ capacity then
      (p.1, { p.2 with lines := p.2.lines ++ [[]] })
    else p
  | (.setTermios term, _) => (term, p.2)
  | _ => p

end Session

namespace Core

def Backed (s : Core) : Prop := s.records.sum ≤ s.input.length

def Steady (s : Core) : Call → Prop
  | .setTermios term => term.icanon = s.term.icanon ∨ s.input = [] ∧ s.records = []
  | _ => True

/-- The ring and the records are the lines that are owed; in raw mode there is none. -/
structure Owes (p : Termios × Session) (s : Core) : Prop where
  term : s.term = p.1
  line : s.line = p.2.line
  input : p.1.icanon → s.input = p.2.lines.flatten
  records : s.records = p.2.lines.map length
  raw : p.1.icanon = false → p.2.lines = []

namespace Owes

variable {p : Termios × Session} {s u : Core} {v : UInt8}

lemma congr (h : Owes p s) (hterm : u.term = s.term) (hline : u.line = s.line)
    (hinput : u.input = s.input) (hrecords : u.records = s.records) : Owes p u :=
  ⟨hterm.trans h.term, hline.trans h.line, fun hcanon => hinput.trans (h.input hcanon),
    hrecords.trans h.records, h.raw⟩

lemma accept (h : Owes p s) (hu : s.accept v = some u) : Owes (p.1, p.2.key p.1 v) u := by
  unfold Core.accept at hu
  unfold Session.key
  rw [h.term, h.line] at hu
  split_ifs at hu ⊢ with hcanon _ _ _ _ _ hnl
  · exact some.inj hu ▸ h
  · rw [emit_map_eq_some hu]
    exact { h with line := by simp [h.line] }
  · rw [emit_map_eq_some hu]
    exact { h with line := rfl }
  · unfold enqueueRecord at hu
    split_ifs at hu
    rw [← some.inj hu]
    exact { h with
      input := by simpa using h.input
      records := by simp [h.records]
      raw := by simp [hcanon] }
  · rw [emit_map_eq_some hu]
    exact { h with
      line := rfl
      input := by simp [h.input hcanon, h.line]
      records := by simp [h.records, h.line]
      raw := by simp [hcanon] }
  · rw [emit_map_eq_some hu]
    exact { h with line := by simp [h.line] }
  · rw [emit_map_eq_some hu]
    exact { h with input := by simp [hcanon] }

lemma put (h : Owes p s) (v : UInt8) : Owes p (s.put v).2 := by
  unfold Core.put
  split
  next u hu =>
    rw [emit_eq_some hu]
    exact h.congr rfl rfl rfl rfl
  · exact h

lemma take (h : Owes p s) (b : UInt8) :
    ((s.take b).1 = true → Owes (p.1, p.2.press p.1 b) (s.take b).2) ∧
      ((s.take b).1 = false → Owes p (s.take b).2) := by
  have hpaused (paused : Bool) : Owes p (s.setPaused paused) := h.congr rfl rfl rfl rfl
  have hany : Owes p (if p.1.ixon ∧ p.1.ixany then s.setPaused false else s) := by
    split_ifs
    · exact hpaused false
    · exact h
  unfold Core.take Session.press
  rw [h.term]
  cases hv : p.1.mapped b with
  | none => exact ⟨fun _ => h, by simp⟩
  | some v =>
    revert hany
    generalize (if p.1.ixon ∧ p.1.ixany then s.setPaused false else s) = s'
    intro hany
    dsimp only
    rw [hany.term]
    by_cases hstop : p.1.ixon ∧ v = p.1.stop
    · rw [if_pos hstop, if_pos ⟨hstop.1, .inl hstop.2⟩]
      exact ⟨fun _ => hpaused true, by simp⟩
    by_cases hstart : p.1.ixon ∧ v = p.1.start
    · rw [if_neg hstop, if_pos hstart, if_pos ⟨hstart.1, .inr hstart.2⟩]
      exact ⟨fun _ => hpaused false, by simp⟩
    rw [if_neg hstop, if_neg hstart,
      if_neg (c := p.1.ixon = true ∧ (v = p.1.stop ∨ v = p.1.start)) (by tauto)]
    by_cases hsignal : p.1.Signals v
    · rw [if_pos hsignal, if_pos hsignal]
      refine ⟨fun _ => ?_, by simp⟩
      split_ifs
      · exact hany
      · exact ⟨hany.term, rfl, fun _ => rfl, rfl, fun _ => rfl⟩
    rw [if_neg hsignal, if_neg hsignal]
    split
    next ht => exact ⟨fun _ => hany.accept ht, by simp⟩
    · exact ⟨by simp, fun _ => hany⟩

/-- **A read in canonical mode** returns the first bytes of the first line that is owed. -/
lemma readInput (h : Owes p s) (max : ℕ) (timeout : Bool) :
    Owes (Session.owe p (.readInput max timeout, (s.readInput max timeout).1))
        (s.readInput max timeout).2 ∧
      (s.readInput max timeout).1.bytes.length = (s.readInput max timeout).1.count ∧
      (p.1.icanon → (s.readInput max timeout).1.bytes = (p.2.lines.headD []).take max) := by
  unfold Core.readInput Session.owe
  by_cases hmax : max = 0
  · subst hmax
    rw [if_pos rfl]
    cases p.2.lines <;> exact ⟨h, rfl, fun _ => by simp [Reply.read]⟩
  rw [if_neg hmax]
  have hring (hlines : p.2.lines = []) (hempty : p.1.icanon → s.input = []) :
      Owes p (s.readRing max timeout).2 ∧
        (s.readRing max timeout).1.bytes.length = (s.readRing max timeout).1.count ∧
        (p.1.icanon → (s.readRing max timeout).1.bytes = []) := by
    unfold readRing
    split_ifs with hinput
    · exact ⟨h.congr rfl rfl rfl rfl, rfl, fun _ => rfl⟩
    · exact ⟨h, rfl, fun _ => rfl⟩
    · exact ⟨h, rfl, fun _ => rfl⟩
    · exact ⟨h, rfl, fun _ => rfl⟩
    · refine ⟨⟨h.term, h.line, fun hcanon => absurd (hempty hcanon) hinput, h.records, h.raw⟩, rfl,
        fun hcanon => absurd (hempty hcanon) hinput⟩
  have hrecords := h.records
  cases hlines : p.2.lines with
  | nil =>
    have hnone : s.records = [] := by simpa [hlines] using hrecords
    simpa [hnone] using hring hlines fun hcanon => by simpa [hlines] using h.input hcanon
  | cons line lines =>
    have hcanon : p.1.icanon = true := by
      by_contra hraw
      simp [h.raw (by simpa using hraw)] at hlines
    have hinput := h.input hcanon
    rw [hlines, map_cons] at hrecords
    rw [hlines, flatten_cons] at hinput
    rw [h.term, hcanon, hrecords]
    simp only [Reply.read, headD_cons, if_neg hmax]
    rcases le_or_gt line.length max with hle | hlt
    · refine ⟨⟨?_, ?_, ?_, ?_, ?_⟩, ?_, ?_⟩
      all_goals simp [hinput, hle, hcanon, bump, h.line]
    · have hne : line.length - max ≠ 0 := by omega
      refine ⟨⟨?_, ?_, ?_, ?_, ?_⟩, ?_, ?_⟩
      all_goals
        simp [hinput, hlt.le, hlt, hcanon, bump, hne, h.line, take_append_of_le_length,
          drop_append_of_le_length]

lemma step (h : Owes p s) (c : Call) (hc : s.Steady c) :
    Owes (Session.owe p (c, (s.step c).1)) (s.step c).2 := by
  cases c with
  | receiveInput data nonblock =>
    have hfeed := feed_induct (P := fun done s => Owes (p.1, done.foldl (.press p.1) p.2) s)
      data (fun done s v _ h htaken => by simpa using (h.take v).1 htaken)
      (fun done s v _ h htaken => (h.take v).2 htaken) s h
    simp only [Core.step, Core.receiveInput]
    split_ifs
    · exact h
    · exact h
    · exact hfeed
  | writeOutput data nonblock =>
    have hfeed := feed_keeps (Q := Owes p) data (fun s v _ h => h.put v) s h
    simp only [Core.step, Core.writeOutput]
    split_ifs
    · exact h
    · exact h
    · exact hfeed
  | readInput max timeout => exact (h.readInput max timeout).1
  | readOutput max =>
    dsimp only [Core.step, Core.readOutput]
    split_ifs <;> exact h.congr rfl rfl rfl rfl
  | flush input output =>
    cases input
    · cases output <;> exact h.congr rfl rfl rfl rfl
    · cases output <;> exact ⟨h.term, rfl, fun _ => rfl, rfl, fun _ => rfl⟩
  | sendEof =>
    have hlength : s.records.length = p.2.lines.length := by rw [h.records, length_map]
    dsimp only [Core.step, Session.owe, enqueueRecord]
    rw [hlength, h.term]
    by_cases hcanon : p.1.icanon = true
    · rw [if_pos hcanon]
      by_cases hfull : p.2.lines.length = capacity
      · rw [if_pos hfull, if_neg fun hroom => hroom.2 hfull]
        exact h
      · rw [if_neg hfull, if_pos ⟨hcanon, hfull⟩]
        exact ⟨rfl, h.line, fun _ => by simp [h.input hcanon], by simp [h.records],
          by simp [hcanon]⟩
    · rw [if_neg hcanon, if_neg fun hroom => hcanon hroom.1]
      exact h.congr h.term.symm rfl rfl rfl
  | openMaster =>
    dsimp only [Core.step]
    split_ifs <;> exact h.congr rfl rfl rfl rfl
  | openSlave =>
    dsimp only [Core.step]
    split_ifs <;> exact h.congr rfl rfl rfl rfl
  | setTermios term =>
    rcases hc with hsame | ⟨hinput, hrecords⟩
    · rw [h.term] at hsame
      exact ⟨rfl, h.line, fun hmode => h.input (hsame.symm.trans hmode), h.records,
        fun hmode => h.raw (hsame.symm.trans hmode)⟩
    · have hnone : p.2.lines = [] := by simpa [h.records] using hrecords
      refine ⟨rfl, h.line, fun _ => ?_, h.records, fun _ => hnone⟩
      simp [Core.step, bump, Session.owe, hinput, hnone]
  | _ => exact h.congr rfl rfl rfl rfl

end Owes

/-- A step of the core with what is owed. -/
def next (q : Core × Termios × Session) (c : Call) : Option (Core × Termios × Session) :=
  some ((q.1.step c).2, Session.owe q.2 (c, (q.1.step c).1))

/-- **Records are backed, and reads return that many real bytes**, in every run that does not
change the mode over input: in canonical mode they are the first bytes of the first line that was
completed and is not yet read. -/
theorem backed_of_steady (calls : List Call) {s : Core} {t : Termios} {x : Session}
    (h : Along next (fun q => q.1.Steady) ({}, {}, {}) calls)
    (hrun : exec next ({}, {}, {}) calls = some (s, t, x)) :
    s.Backed ∧ ∀ max timeout,
      (s.readInput max timeout).1.bytes.length = (s.readInput max timeout).1.count ∧
        (t.icanon → (s.readInput max timeout).1.bytes = (x.lines.headD []).take max) := by
  have hinv : Owes (t, x) s :=
    exec_induct (I := fun q => Owes q.2 q.1) (fun q c u hq hc hu => some.inj hu ▸ hq.step c hc)
      ⟨rfl, rfl, fun _ => rfl, rfl, fun _ => rfl⟩ h hrun
  refine ⟨?_, fun max timeout => (hinv.readInput max timeout).2⟩
  rw [Backed, hinv.records]
  cases hmode : t.icanon
  · simp [show x.lines = [] from hinv.raw hmode]
  · rw [show s.input = x.lines.flatten from hinv.input hmode, length_flatten]

/-- A line of which two bytes are read, an end of file and another line. -/
def halfRead : List Call :=
  [.receiveInput [97, 98, 10, 4, 99, 10] true, .readInput 2 false, .setTermios { echo := false }]

/-- The next read returns the newline of the first line. -/
theorem backed_of_steady_halfRead : ∃ s t x, exec next ({}, {}, {}) halfRead = some (s, t, x) ∧
    x.lines = [[10], [], [99, 10]] ∧ s.Backed ∧ (s.readInput 8 false).1.bytes = [10] := by
  have h := backed_of_steady halfRead ⟨trivial, trivial, .inl rfl, trivial⟩ rfl
  exact ⟨_, _, _, rfl, by decide +kernel, h.1, by decide +kernel⟩

/-- **A byte that is read in raw mode is missing from its record.** -/
theorem not_backed_rawRead :
    ¬ (run {} [.receiveInput [97, 98, 10] true, .setTermios { icanon := false },
      .readInput 1 false]).Backed := by
  unfold Backed
  decide

end Core

/-! ## Serving the session -/

/-- The lines that are left when the slave has read something: the rest of the first line, or
all of it with its end, or an end of file. -/
def serve : List (List UInt8) → List UInt8 → Option (List (List UInt8))
  | [], _ => none
  | line :: lines, bytes =>
    if bytes = line then some lines
    else if bytes ≠ [] ∧ bytes <+: line then some (line.drop bytes.length :: lines)
    else none

def Core.history (s : Core) : List Call → List (Call × Reply)
  | [] => []
  | c :: calls => (c, (s.step c).1) :: (s.step c).2.history calls

def slaveRead : Call × Reply → Option (List UInt8)
  | (.readInput max _, ⟨.ok _, _, bytes⟩) => if max = 0 then none else some bytes
  | _ => none

def masterRead : Call × Reply → List UInt8
  | (.readOutput _, r) => r.bytes
  | _ => []

/-- Bytes are read or written, and no signal character is typed. -/
def Ordinary (t : Termios) : Call → Prop
  | .receiveInput data _ => ∀ b ∈ data, ∀ v ∈ t.mapped b, ¬ t.Signals v
  | .writeOutput _ _ | .readInput _ _ | .readOutput _ => True
  | _ => False

variable {t : Termios} {x : Session} {reads : List (List UInt8)} {shown : List UInt8}
  {s u : Core} {lines rest : List (List UInt8)}

/-- The core serves the session, where the slave has read `reads` and the master `shown`. -/
structure Serves (t : Termios) (reads : List (List UInt8)) (shown : List UInt8) (x : Session)
    (s : Core) : Prop where
  term : s.term = t
  line : s.line = x.line
  alive : s.eofCount = 0 ∧ s.shutdown = false ∧ s.masterHungUp = false ∧ s.slaveHungUp = false
  output : shown ++ s.output = x.shown
  input : t.icanon → ∃ rest, reads.foldlM serve x.lines = some rest ∧ s.input = rest.flatten ∧
    s.records = rest.map length

lemma serve_append (more : List (List UInt8)) (h : reads.foldlM serve lines = some rest) :
    reads.foldlM serve (lines ++ more) = some (rest ++ more) := by
  induction reads generalizing lines with
  | nil => simp_all
  | cons bytes reads ih =>
    obtain ⟨ls, hls, h⟩ := bind_eq_some_iff.1 h
    refine bind_eq_some_iff.2 ⟨ls ++ more, ?_, ih h⟩
    cases lines with
    | nil => simp [serve] at hls
    | cons line lines =>
      rw [serve] at hls
      rw [cons_append, serve]
      split_ifs at hls ⊢ <;> simp [← some.inj hls]

lemma serve_flatten (h : reads.foldlM serve lines = some rest) :
    reads.flatten ++ rest.flatten = lines.flatten := by
  induction reads generalizing lines with
  | nil => simp_all
  | cons bytes reads ih =>
    obtain ⟨ls, hls, h⟩ := bind_eq_some_iff.1 h
    rw [flatten_cons, append_assoc, ih h]
    cases lines with
    | nil => simp [serve] at hls
    | cons line lines =>
      rw [serve] at hls
      split_ifs at hls with hall hpart
      · simp_all
      · obtain ⟨rest', rfl⟩ := hpart.2
        simp [← some.inj hls]

namespace Serves

lemma input_append (h : Serves t reads shown x s) (line : List UInt8) (hcanon : t.icanon) :
    ∃ rest, reads.foldlM serve (x.lines ++ [line]) = some rest ∧
      s.input ++ line = rest.flatten ∧ s.records ++ [line.length] = rest.map length := by
  obtain ⟨rest, hreads, hinput, hrecords⟩ := h.input hcanon
  exact ⟨_, serve_append [line] hreads, by simp [hinput], by simp [hrecords]⟩

lemma accept {v : UInt8} (h : Serves t reads shown x s) (hu : s.accept v = some u) :
    Serves t reads shown (x.key t v) u := by
  unfold Core.accept at hu
  unfold Session.key
  rw [h.term, h.line] at hu
  split_ifs at hu ⊢ with hcanon _ _ _ _ _ hnl
  · exact some.inj hu ▸ h
  · rw [emit_map_eq_some hu]
    exact { h with line := by simp [h.line], output := by simp [← h.output] }
  · rw [emit_map_eq_some hu]
    exact { h with line := rfl, output := by simp [← h.output] }
  · unfold enqueueRecord at hu
    split_ifs at hu
    rw [← some.inj hu]
    exact { h with input := by simpa using h.input_append [] }
  · rw [emit_map_eq_some hu]
    exact { h with
      line := rfl
      output := by simp [← h.output]
      input := by simpa [h.line] using h.input_append (x.line ++ [v]) }
  · rw [emit_map_eq_some hu]
    exact { h with line := by simp [h.line], output := by simp [← h.output] }
  · rw [emit_map_eq_some hu]
    exact { h with output := by simp [← h.output, bump], input := by simp [hcanon] }

lemma take {b : UInt8} (h : Serves t reads shown x s) (hb : ∀ v ∈ t.mapped b, ¬ t.Signals v) :
    ((s.take b).1 = true → Serves t reads shown (x.type t b) (s.take b).2) ∧
      ((s.take b).1 = false → Serves t reads shown x (s.take b).2) := by
  have hpaused (paused : Bool) : Serves t reads shown x (s.setPaused paused) := { h with }
  have hany : Serves t reads shown x (if t.ixon ∧ t.ixany then s.setPaused false else s) := by
    split_ifs
    · exact hpaused false
    · exact h
  unfold Core.take Session.type
  rw [h.term]
  cases hv : t.mapped b with
  | none => exact ⟨fun _ => h, by simp⟩
  | some v =>
    revert hany
    generalize (if t.ixon ∧ t.ixany then s.setPaused false else s) = s'
    intro hany
    dsimp only
    rw [hany.term, if_neg (c := t.Signals v) (hb v hv)]
    by_cases hstop : t.ixon ∧ v = t.stop
    · rw [if_pos hstop, if_pos ⟨hstop.1, .inl hstop.2⟩]
      exact ⟨fun _ => hpaused true, by simp⟩
    by_cases hstart : t.ixon ∧ v = t.start
    · rw [if_neg hstop, if_pos hstart, if_pos ⟨hstart.1, .inr hstart.2⟩]
      exact ⟨fun _ => hpaused false, by simp⟩
    rw [if_neg hstop, if_neg hstart, if_neg (by tauto)]
    split
    next ht => exact ⟨fun _ => hany.accept ht, by simp⟩
    · exact ⟨by simp, fun _ => hany⟩

lemma put {v : UInt8} (h : Serves t reads shown x s) : ((s.put v).1 = true → Serves t reads shown
      { x with shown := x.shown ++ t.translated v } (s.put v).2) ∧
      ((s.put v).1 = false → Serves t reads shown x (s.put v).2) := by
  unfold Core.put
  split
  next u hu =>
    rw [Core.emit_eq_some hu]
    exact ⟨fun _ => { h with output := by simp [← h.output, h.term] }, by simp⟩
  · exact ⟨by simp, fun _ => h⟩

lemma readInput (h : Serves t reads shown x s) (max : ℕ) (timeout : Bool) :
    Serves t (reads ++ (slaveRead (.readInput max timeout, (s.readInput max timeout).1)).toList)
      shown x (s.readInput max timeout).2 := by
  obtain rfl := h.term
  unfold readInput
  split_ifs with hmax
  · simpa [slaveRead, Reply.read, hmax] using h
  cases hcanon : s.term.icanon with
  | false =>
    have hraw {reads' : List (List UInt8)} {input : List UInt8} {bumps : ℕ} :
        Serves s.term reads' shown x { s with input, bumps } :=
      { h with input := by simp [hcanon] }
    unfold readRing
    split_ifs with _ heof
    · exact absurd h.alive.1 heof
    all_goals exact hraw
  | true =>
    obtain ⟨rest, hreads, hinput, hrecords⟩ := h.input hcanon
    cases rest with
    | nil => simpa [readRing, hrecords, hinput, h.alive, hcanon, Reply.error, slaveRead] using h
    | cons line rest =>
      simp only [hrecords, map_cons, slaveRead, Reply.read, if_neg hmax, toList_some]
      rcases le_or_gt line.length max with hle | hlt
      · refine { h with input := fun _ => ⟨rest, ?_, ?_, ?_⟩ }
        · simp [foldlM_append, hreads, hinput, hle, serve]
        · simp [hinput, hle, bump]
        · simp [hle, bump]
      · have hpart : line.take max ≠ line ∧ line ≠ [] ∧ line.take max <+: line :=
          ⟨by simpa using hlt, by rintro rfl; simp at hlt, take_prefix max line⟩
        refine { h with input := fun _ => ⟨line.drop max :: rest, ?_, ?_, ?_⟩ }
        · simp [foldlM_append, hreads, hinput, hlt.le, serve, hmax, hpart, take_append_of_le_length]
        · simp [hinput, hlt.le, bump, drop_append_of_le_length]
        · simp [hlt.le, bump, Nat.sub_ne_zero_of_lt hlt]

lemma step (h : Serves t reads shown x s) (c : Call) (hc : Ordinary t c) :
    Serves t (reads ++ (slaveRead (c, (s.step c).1)).toList)
      (shown ++ masterRead (c, (s.step c).1)) (x.after t (c, (s.step c).1)) (s.step c).2 := by
  cases c with
  | receiveInput data nonblock =>
    have hfeed := feed_induct (P := fun done s => Serves t reads shown (done.foldl (.type t) x) s)
      data (fun done s v hv h htaken => by simpa using (h.take (hc v hv)).1 htaken)
      (fun done s v hv h htaken => (h.take (hc v hv)).2 htaken) s h
    simp only [slaveRead, masterRead, toList_none, append_nil, Core.step, Core.receiveInput]
    split_ifs
    · exact h
    · exact h
    · exact hfeed
  | writeOutput data nonblock =>
    have hfeed := feed_induct (P := fun done s => Serves t reads shown
        { x with shown := x.shown ++ done.flatMap t.translated } s)
      data (fun done s v hv h htaken => by simpa using h.put.1 htaken)
      (fun done s v hv h htaken => h.put.2 htaken) s (by simpa using h)
    simp only [slaveRead, masterRead, toList_none, append_nil, Core.step, Core.writeOutput]
    split_ifs
    · simpa [Session.after, Reply.error] using h
    · simpa [Session.after, Reply.error] using h
    · exact hfeed
  | readInput max timeout =>
    simpa [masterRead, Session.after, Core.step] using h.readInput max timeout
  | readOutput max =>
    simp only [slaveRead, masterRead, toList_none, append_nil, Core.step, Core.readOutput]
    split_ifs
    · simpa [Session.after, Reply.read] using h
    · simpa [Session.after, Reply.error] using h
    · simpa [Session.after, Reply.error] using h
    · exact { h with output := by simp [Reply.read, bump, h.output, Session.after] }
  | _ => exact hc.elim

lemma run (calls : List Call) (hcalls : ∀ c ∈ calls, Ordinary t c) (h : Serves t reads shown x s) :
    Serves t (reads ++ (s.history calls).filterMap slaveRead)
      (shown ++ (s.history calls).flatMap masterRead) ((s.history calls).foldl (.after t) x)
      (s.run calls) := by
  induction calls generalizing reads shown x s with
  | nil => simpa [history, run] using h
  | cons c calls ih =>
    have hnext := ih (fun c hc => hcalls c (mem_cons_of_mem _ hc))
      (h.step c (hcalls c mem_cons_self))
    cases hread : slaveRead (c, (s.step c).1) <;>
      simpa [history, run, hread] using hnext

lemma run_new (calls : List Call) (hcalls : ∀ c ∈ calls, Ordinary t c) :
    Serves t ((history { term := t } calls).filterMap slaveRead)
      ((history { term := t } calls).flatMap masterRead)
      ((Core.history { term := t } calls).foldl (.after t) {}) (Core.run { term := t } calls) :=
  have h : Serves t [] [] {} { term := t } :=
    ⟨rfl, rfl, ⟨rfl, rfl, rfl, rfl⟩, rfl, fun _ => ⟨[], rfl, rfl, rfl⟩⟩
  h.run calls hcalls

end Serves

/-! ## Streams -/

/-- The bytes that a call has taken from the stream. -/
def typed : Call × Reply → List UInt8
  | (.receiveInput data _, r) => data.take r.count
  | _ => []

/-- The line editing of a whole stream. -/
def edited (t : Termios) (stream : List UInt8) : Session := stream.foldl (.type t) {}

/-- The stream is fed in chunks, and what a call has not taken is fed again; the other calls read
or write. -/
def Retries (s : Core) (stream : List UInt8) : List Call → Prop
  | [] => True
  | c :: calls =>
    (match c with
      | .receiveInput data _ => data <+: stream
      | .writeOutput _ _ | .readInput _ _ | .readOutput _ => True
      | _ => False) ∧
      Retries (s.step c).2 (stream.drop (typed (c, (s.step c).1)).length) calls

lemma Retries.ordinary {calls : List Call} {stream : List UInt8}
    (hstream : ∀ b ∈ stream, ∀ v ∈ t.mapped b, ¬ t.Signals v) (h : Retries s stream calls) :
    ∀ c ∈ calls, Ordinary t c := by
  induction calls generalizing s stream with
  | nil => simp
  | cons c calls ih =>
    refine forall_mem_cons.2 ⟨?_, ih (fun b hb => hstream b (mem_of_mem_drop hb)) h.2⟩
    cases c with
    | receiveInput data nonblock => exact fun b hb => hstream b (h.1.subset hb)
    | writeOutput | readInput | readOutput => trivial
    | _ => exact h.1.elim

lemma Retries.typed_append {calls : List Call} {stream : List UInt8} (h : Retries s stream calls) :
    ∃ left, (s.history calls).flatMap typed ++ left = stream := by
  induction calls generalizing s stream with
  | nil => exact ⟨stream, rfl⟩
  | cons c calls ih =>
    obtain ⟨left, hleft⟩ := ih h.2
    have htaken : typed (c, (s.step c).1) <+: stream := by
      cases c with
      | receiveInput data nonblock => exact ( take_prefix _ data).trans h.1
      | _ => exact nil_prefix
    refine ⟨left, ?_⟩
    obtain ⟨rest, hrest⟩ := htaken
    rw [history, flatMap_cons, append_assoc, hleft, ← hrest, drop_left]

lemma type_congr {y : Session} (b : UInt8) (h : x.line = y.line ∧ x.lines = y.lines) :
    (x.type t b).line = (y.type t b).line ∧ (x.type t b).lines = (y.type t b).lines := by
  obtain ⟨hline, hlines⟩ := h
  unfold Session.type Session.key
  cases t.mapped b with
  | none => exact ⟨hline, hlines⟩
  | some v =>
    dsimp only
    rw [hline]
    split_ifs <;> simp [hline, hlines]

/-- Only the bytes of the stream change the lines. -/
lemma lines_after (h : List (Call × Reply)) {y : Session}
    (hxy : x.line = y.line ∧ x.lines = y.lines) :
    (h.foldl (.after t) x).line = ((h.flatMap typed).foldl (.type t) y).line ∧
      (h.foldl (.after t) x).lines = ((h.flatMap typed).foldl (.type t) y).lines := by
  have hbytes (bytes : List UInt8) : ∀ {x y : Session}, x.line = y.line ∧ x.lines = y.lines →
      (bytes.foldl (.type t) x).line = (bytes.foldl (.type t) y).line ∧
        (bytes.foldl (.type t) x).lines = (bytes.foldl (.type t) y).lines := by
    induction bytes with
    | nil => exact id
    | cons b bytes ih => exact fun h => ih (type_congr b h)
  induction h generalizing x y with
  | nil => exact hxy
  | cons e h ih =>
    rw [flatMap_cons, foldl_append]
    refine ih ?_
    obtain ⟨c, r⟩ := e
    cases c with
    | receiveInput data nonblock => exact hbytes _ hxy
    | _ => exact hxy

/-- Where the rings are read out, the next byte of the stream is taken. -/
lemma Serves.takes (h : Serves t reads shown x s) (hinput : s.input = [])
    (hrecords : s.records = []) (houtput : s.output = []) (hline : x.line.length < capacity)
    (b : UInt8) (nonblock : Bool) :
    (s.receiveInput [b] nonblock).1.count = 1 := by
  obtain rfl := h.term
  obtain ⟨-, hshut, -, hslave⟩ := h.alive
  have hwritable : s.masterPoll.writable = true := by
    simp only [masterPoll, decide_eq_true_eq, h.line, hrecords, houtput, hinput]
    refine ⟨?_, hshut, hslave, ?_⟩
    · split_ifs
      · exact ⟨hline, by decide⟩
      · decide
    · split_ifs <;> decide
  have htaken : (s.take b).1 = true := by
    refine (take_iff s b).2 fun w hw => .inr (.inr ((accept_isSome_iff hwritable).2 fun _ => ?_))
    obtain ⟨-, herase, hkill, -⟩ := length_echo_le (v := w) s.term
    rw [houtput, hinput, h.line]
    split_ifs
    · exact fun _ => by simpa using herase.trans (by decide : 3 ≤ capacity)
    · simpa using hkill.trans (by decide : 1 ≤ capacity)
    · intro _ _
      simpa using hline
  rcases hb : s.take b with ⟨_ | _, s'⟩
  · simp [hb] at htaken
  · simp [receiveInput, hshut, hslave, feed, hb, answer]

def editedLine : List Call :=
  [.receiveInput [97, 98, 127, 13, 4] true, .readInput 1 false, .readInput 8 false,
    .writeOutput [10] true, .readOutput 9, .readInput 8 false]

lemma ordinary_editedLine : ∀ c ∈ editedLine, Ordinary {} c := by
  simp only [editedLine, mem_cons, not_mem_nil, or_false, forall_eq_or_imp, forall_eq, Ordinary]
  decide +kernel

/-- The line `ab`, of which the second byte is erased, is fed in two chunks. -/
def twoChunks : List Call :=
  [.receiveInput [97, 98, 127] true, .readOutput 9, .receiveInput [13, 4] true, .readInput 1 false,
    .readInput 8 false, .readInput 8 false]

/-- A terminal without echo, in the middle of a line. -/
structure Quiet (s : Core) (n : ℕ) : Prop where
  term : s.term = { echo := false }
  line : s.line.length = n

lemma Quiet.feed (n : ℕ) : ∀ s : Core, ∀ k, Quiet s k → s.output = [] → k + n ≤ capacity →
    Quiet (feed take s (replicate n 97)).2 (k + n) := by
  induction n with
  | zero => exact fun s k h _ _ => h
  | succ n ih =>
    intro s k h hout hroom
    have hnot : ¬ capacity ≤ s.line.length := by
      rw [h.line]
      omega
    have htake : s.take 97 =
        (true, { s with output := s.output ++ [], line := s.line ++ [97] }) := by
      simp [Core.take, Core.accept, h.term, Termios.mapped, Termios.Signals, Termios.echoOf, emit,
        hout, hnot]
    rw [replicate_succ, Tty.feed, htake, ← Nat.add_assoc, Nat.add_right_comm]
    refine ih _ (k + 1) ⟨h.term, by simp [h.line]⟩ (by simp [hout]) (by omega)

lemma Quiet.run {n : ℕ} (calls : List Call)
    (hcalls : ∀ c ∈ calls, ∃ max, c = .readInput max false ∨ c = .readOutput max) :
    ∀ {s : Core}, Quiet s n → Quiet (s.run calls) n := by
  induction calls with
  | nil => exact id
  | cons c calls ih =>
    intro s h
    refine ih (fun c hc => hcalls c (mem_cons_of_mem _ hc)) ?_
    obtain ⟨max, rfl | rfl⟩ := hcalls c mem_cons_self
    · dsimp only [Core.step, Core.readInput]
      split_ifs
      · exact h
      split
      · exact ⟨h.term, h.line⟩
      · unfold readRing
        split_ifs <;> exact ⟨h.term, h.line⟩
    · dsimp only [Core.step, readOutput]
      split_ifs <;> exact ⟨h.term, h.line⟩

lemma run_receive {data : List UInt8} {nonblock : Bool} {calls : List Call}
    (hslave : s.slaveHungUp = false) (hshut : s.shutdown = false) :
    s.run (.receiveInput data nonblock :: calls) = (feed take s data).2.run calls := by
  simp [run, Core.step, receiveInput, hslave, hshut]

lemma Quiet.refuses (h : Quiet s capacity) : (s.receiveInput [10] true).1.count = 0 := by
  have htake : (s.take 10).1 = false := by
    simp [Core.take, Core.accept, h.term, h.line, Termios.mapped, Termios.Signals]
  rcases hs : s.take 10 with ⟨_ | _, s'⟩
  · unfold receiveInput
    split_ifs <;> simp [Reply.error, Tty.feed, hs, answer]
  · simp [hs] at htake

/-- **Output is ordered and never split**: what the master has read and can still read are the
echoes and the translated bytes of the calls, one after the other. -/
theorem output_shown (t : Termios) (calls : List Call) (hcalls : ∀ c ∈ calls, Ordinary t c) :
    (history { term := t } calls).flatMap masterRead ++ (run { term := t } calls).output =
      ((history { term := t } calls).foldl (Session.after t) {}).shown :=
  (Serves.run_new calls hcalls).output

theorem output_shown_editedLine :
    (history {} editedLine).flatMap masterRead ++ (run {} editedLine).output =
      ((history {} editedLine).foldl (Session.after {}) {}).shown :=
  output_shown {} editedLine ordinary_editedLine

end Naos.Tty
