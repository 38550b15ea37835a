import Naos.Tty.Session

/-!
# Pending reads

A read that finds too little waits in `ttyd`.  With `VTIME` the first byte starts its timer, and
when that has run out it gets what is there.  By then the byte may be gone.

A `Daemon` is one pair of `ttyd` with its pending reads.  Between the rounds of
`flush_pending_reads` there are new reads and any calls of the core; in a round a read may be
found cancelled.  The quotas of `add_pending_read` only keep reads out.
-/

namespace Naos.Tty

open List

open Transition (exec exec_induct Along)

structure PendingRead where
  responder : ℕ := 0
  size : ℕ
  master : Bool
  deadlineMs : ℕ := 0
  timerStarted : Bool := false
  nonblock : Bool

/-- What becomes of a read in a round. -/
inductive Served where
  | waits (p : PendingRead)
  | rejected (e : Errno)
  | answered (r : Reply)

namespace Core

variable (s : Core) (p : PendingRead) (now : ℕ)

/-- `add_pending_read`, within its quotas. -/
def addPendingRead (responder size : ℕ) (master nonblock : Bool) : PendingRead :=
  let p : PendingRead := { responder, size, master, nonblock }
  if master = false ∧ s.term.icanon = false ∧ s.term.time ≠ 0 ∧
      (s.term.min = 0 ∨ s.input ≠ []) then
    { p with timerStarted := s.term.min = 0, deadlineMs := now + s.term.time.toNat * 100 }
  else p

/-- A round of `flush_pending_reads` for a read that was not cancelled. -/
def serve : Served × Core :=
  let want := min p.size 65536
  let r := if p.master then s.readOutput want
    else s.readInput want (p.deadlineMs ≠ 0 ∧ p.deadlineMs ≤ now)
  match r.1.result with
  | .error .again =>
    if p.nonblock then (.rejected .again, r.2)
    else if p.master = false ∧ r.2.term.icanon = false ∧ r.2.term.min ≠ 0 ∧ r.2.term.time ≠ 0 ∧
        p.timerStarted = false ∧ r.2.input ≠ [] then
      (.waits { p with timerStarted := true, deadlineMs := now + r.2.term.time.toNat * 100 }, r.2)
    else (.waits p, r.2)
  | .error e => (.rejected e, r.2)
  | .ok _ => (.answered r.1, r.2)

section

variable {s p now} {r : Reply} {t : Core} (hraw : s.term.icanon = false) (hmin : s.term.min ≠ 0)
  (hopen : s.eofCount = 0 ∧ s.shutdown = false ∧ s.masterHungUp = false)
include hraw hmin hopen

lemma one_le_readInput {max n : ℕ} {timeout : Bool} (hmax : max ≠ 0)
    (hlate : s.input = [] → timeout = false) (h : (s.readInput max timeout).1.result = .ok n) :
    1 ≤ (s.readInput max timeout).1.count := by
  have hread : s.readInput max timeout = s.readRing max timeout := by simp [readInput, hmax, hraw]
  rw [hread, readRing] at h ⊢
  by_cases hinput : s.input = []
  · simp [hinput, hopen, hmin, hlate hinput, Reply.error] at h
  · rw [if_neg hinput] at h ⊢
    split at h
    · simp [Reply.error] at h
    next hwait =>
      rw [if_neg hwait]
      have hlength := List.length_pos_iff.2 hinput
      simp only [Reply.read, List.length_take]
      omega

lemma one_le_count_of_answered (hslave : p.master = false) (hsize : 1 ≤ p.size)
    (hlate : s.input = [] → p.deadlineMs = 0) (h : s.serve p now = (.answered r, t)) :
    1 ≤ r.count := by
  simp only [serve, hslave] at h
  split at h
  · split_ifs at h <;> simp at h
  · simp at h
  next n hok =>
    cases h
    exact one_le_readInput hraw hmin hopen (by omega) (fun hinput => by simp [hlate hinput]) hok

end

end Core

/-! ## The rounds -/

/-- An answer, with the core that gave it. -/
structure Answer where
  core : Core
  read : PendingRead
  reply : Reply

structure Daemon where
  core : Core := {}
  pending : List PendingRead := []
  answers : List Answer := []

/-- `pending = state.pending_reads[--state.pending_read_count]` -/
def removeAt {α : Type} (l : List α) (i : ℕ) : List α :=
  match l.getLast? with
  | none => []
  | some x => (l.set i x).dropLast

namespace Daemon

variable (now : ℕ) (cancelled : ℕ → Bool)

/-- A turn of the loop of `flush_pending_reads`, and the next index. -/
def turn (d : Daemon) (i : ℕ) (p : PendingRead) : Daemon × ℕ :=
  if cancelled p.responder then ({ d with pending := removeAt d.pending i }, i)
  else
    match d.core.serve p now with
    | (.waits p', core) => ({ d with core, pending := d.pending.set i p' }, i + 1)
    | (.rejected _, core) => ({ d with core, pending := removeAt d.pending i }, i)
    | (.answered r, core) =>
      ({ core, pending := removeAt d.pending i, answers := ⟨d.core, p, r⟩ :: d.answers }, i)

/-- The loop of `flush_pending_reads`: a turn goes on or removes a read, so that as many turns as
there are reads are enough. -/
def flushPendingReads : ℕ → ℕ → Daemon → Daemon
  | 0, _, d => d
  | n + 1, i, d =>
    match d.pending[i]? with
    | none => d
    | some p => flushPendingReads n (d.turn now cancelled i p).2 (d.turn now cancelled i p).1

end Daemon

inductive Event where
  /-- A read that `add_pending_read` takes. -/
  | request (responder size : ℕ) (master nonblock : Bool) (now : ℕ)
  | call (c : Call)
  | round (now : ℕ) (cancelled : ℕ → Bool)

namespace Daemon

def step (d : Daemon) : Event → Option Daemon
  | .request responder size master nonblock now =>
    some { d with
      pending := d.pending ++ [d.core.addPendingRead now responder size master nonblock] }
  | .call c => some { d with core := (d.core.step c).2 }
  | .round now cancelled =>
    some (d.flushPendingReads now cancelled d.pending.length 0)

/-- A read of the slave whose timer runs. -/
def Timed (p : PendingRead) : Prop := p.master = false ∧ p.deadlineMs ≠ 0

/-- The number of pending reads of the slave. -/
def slaves (d : Daemon) : ℕ := (d.pending.map PendingRead.master).count false

/-- The attributes start timers. -/
def Timing (t : Termios) : Prop := t.icanon = false ∧ t.time ≠ 0

/-- The call may take bytes of the input away, or changes what they are waited for. -/
def Takes (t : Termios) : Call → Prop
  | .receiveInput data _ => t.noflsh = false ∧ ∃ b ∈ data, ∃ v ∈ t.mapped b, t.Signals v
  | .readInput _ _ | .flush true _ | .setTermios _ => True
  | _ => False

/-- **The byte that has started a timer is left to its read**: while a timer runs, no other call
takes input away, and while the attributes start timers there is one read of the slave. -/
def Careful (d : Daemon) : Event → Prop
  | .request _ _ master _ _ => master = false → Timing d.core.term → d.slaves = 0
  | .call c => (Takes d.core.term c → ∀ p ∈ d.pending, ¬ Timed p) ∧
      ∀ t, c = .setTermios t → Timing t → d.slaves ≤ 1
  | .round _ _ => True

/-- **No end of file is made up**: a raw read with `VMIN` is answered with a byte, unless the
input has ended. -/
def HonestAnswer (a : Answer) : Prop :=
  a.read.master = false → 1 ≤ a.read.size → a.core.term.icanon = false → a.core.term.min ≠ 0 →
    a.core.eofCount = 0 ∧ a.core.shutdown = false ∧ a.core.masterHungUp = false → 1 ≤ a.reply.count

/-- What holds between the turns. -/
structure Inv (d : Daemon) : Prop where
  timed : ∀ p ∈ d.pending, Timed p →
    Timing d.core.term ∧ (d.core.term.min ≠ 0 → d.core.input ≠ [])
  single : Timing d.core.term → d.slaves ≤ 1
  honest : ∀ a ∈ d.answers, HonestAnswer a

end Daemon

/-! ## The core between the rounds -/

namespace Core

variable {s t : Core} {p p' : PendingRead} {now : ℕ}

/-- The attributes stay, and there is input where there was. -/
structure Leaves (s t : Core) : Prop where
  term : t.term = s.term
  input : s.input ≠ [] → t.input ≠ []

lemma Leaves.refl (s : Core) : s.Leaves s := ⟨rfl, id⟩

lemma Leaves.trans {u : Core} (h : s.Leaves t) (h' : t.Leaves u) : s.Leaves u :=
  ⟨h'.term.trans h.term, fun hne => h'.input (h.input hne)⟩

lemma leaves_emit {bytes : List UInt8} (h : s.emit bytes = some t) : s.Leaves t := by
  rw [emit_eq_some h]
  exact ⟨rfl, id⟩

lemma leaves_accept {v : UInt8} (h : s.accept v = some t) : s.Leaves t := by
  unfold accept enqueueRecord at h
  split_ifs at h
  · exact Option.some.inj h ▸ .refl s
  · rw [emit_map_eq_some h]
    exact ⟨rfl, id⟩
  · rw [emit_map_eq_some h]
    exact ⟨rfl, id⟩
  · rw [← Option.some.inj h]
    exact ⟨rfl, id⟩
  · rw [emit_map_eq_some h]
    exact ⟨rfl, fun hne => by simp [hne]⟩
  · rw [emit_map_eq_some h]
    exact ⟨rfl, id⟩
  · rw [emit_map_eq_some h]
    exact ⟨rfl, fun hne => by simp [bump]⟩

lemma take_leaves (b : UInt8) : (s.take b).2.term = s.term ∧
    (¬ (s.term.noflsh = false ∧ ∃ v ∈ s.term.mapped b, s.term.Signals v) →
      s.input ≠ [] → (s.take b).2.input ≠ []) := by
  unfold take
  split
  · exact ⟨rfl, fun _ => id⟩
  next v hv =>
    have hany : s.Leaves (if s.term.ixon ∧ s.term.ixany then s.setPaused false else s) := by
      split_ifs
      · exact ⟨rfl, id⟩
      · exact .refl s
    revert hany
    generalize (if s.term.ixon ∧ s.term.ixany then s.setPaused false else s) = s'
    intro hany
    dsimp only
    rw [hany.term]
    split_ifs with _ _ hsignal hnoflsh
    · exact ⟨rfl, fun _ => id⟩
    · exact ⟨rfl, fun _ => id⟩
    · exact ⟨hany.term, fun _ => hany.input⟩
    · exact ⟨hany.term, fun hkeep => absurd ⟨by simpa using hnoflsh, v, hv, hsignal⟩ hkeep⟩
    · split
      next ht =>
        have hboth := hany.trans (leaves_accept ht)
        exact ⟨hboth.term, fun _ => hboth.input⟩
      · exact ⟨hany.term, fun _ => hany.input⟩

lemma term_readInput (max : ℕ) (timeout : Bool) : (s.readInput max timeout).2.term = s.term := by
  unfold readInput
  split_ifs
  · rfl
  split
  · rfl
  · unfold readRing
    split_ifs <;> rfl

lemma leaves_readOutput (max : ℕ) : s.Leaves (s.readOutput max).2 := by
  unfold readOutput
  split_ifs <;> exact ⟨rfl, id⟩

/-- A read that is refused has changed nothing. -/
lemma readInput_again {max : ℕ} {timeout : Bool}
    (h : (s.readInput max timeout).1.result = .error .again) : (s.readInput max timeout).2 = s := by
  unfold readInput at h ⊢
  split_ifs at h ⊢
  · rfl
  split at h
  · simp [Reply.read] at h
  · unfold readRing at h ⊢
    split_ifs at h ⊢ <;> first | rfl | simp [Reply.read] at h

/-- The call of the core in a round. -/
lemma serve_snd : (s.serve p now).2 = (if p.master then s.readOutput (min p.size 65536)
    else s.readInput (min p.size 65536) (p.deadlineMs ≠ 0 ∧ p.deadlineMs ≤ now)).2 := by
  unfold serve
  dsimp only
  generalize (if p.master = true then s.readOutput (min p.size 65536)
    else s.readInput (min p.size 65536) (p.deadlineMs ≠ 0 ∧ p.deadlineMs ≤ now)) = r
  split
  · split_ifs <;> rfl
  · rfl
  · rfl

lemma term_serve : (s.serve p now).2.term = s.term := by
  rw [serve_snd]
  split
  · exact (leaves_readOutput _).term
  · exact term_readInput _ _

/-- A read of the master leaves the input. -/
lemma leaves_serve_master (h : p.master = true) : s.Leaves (s.serve p now).2 := by
  rw [serve_snd, if_pos h]
  exact leaves_readOutput _

/-- A read waits on, or its timer starts because there is input. -/
lemma serve_waits (h : s.serve p now = (.waits p', t)) : s.Leaves t ∧
    (p' = p ∨ p'.master = false ∧ p.master = false ∧ Daemon.Timing s.term ∧ s.input ≠ []) := by
  have ht : t = (s.serve p now).2 := by rw [h]
  cases hmaster : p.master with
  | true =>
    refine ⟨ht ▸ leaves_serve_master hmaster, .inl ?_⟩
    unfold serve at h
    dsimp only at h
    split at h
    · split_ifs at h with _ hslave <;> cases h
      · simp [hmaster] at hslave
      · rfl
    · cases h
    · cases h
  | false =>
    unfold serve at h
    dsimp only at h
    rw [if_neg (by simp [hmaster])] at h
    split at h
    next hagain =>
      rw [readInput_again hagain] at h
      split_ifs at h with _ hstart <;> cases h
      · exact ⟨.refl s, .inr ⟨hmaster, rfl, ⟨hstart.2.1, hstart.2.2.2.1⟩, hstart.2.2.2.2.2⟩⟩
      · exact ⟨.refl s, .inl rfl⟩
    · cases h
    · cases h

/-- Only `set_termios` changes the attributes, and only some calls take input away. -/
lemma step_leaves (c : Call) : ((∀ t, c ≠ .setTermios t) → (s.step c).2.term = s.term) ∧
    (¬ Daemon.Takes s.term c → s.Leaves (s.step c).2) := by
  have hboth {t : Core} (h : s.Leaves t) : ((∀ t, c ≠ .setTermios t) → t.term = s.term) ∧
      (¬ Daemon.Takes s.term c → s.Leaves t) := ⟨fun _ => h.term, fun _ => h⟩
  cases c with
  | receiveInput data nonblock =>
    dsimp only [step, receiveInput]
    split_ifs
    · exact hboth (.refl s)
    · exact hboth (.refl s)
    · refine ⟨fun _ => ?_, fun hkeep => ?_⟩
      · exact feed_keeps (Q := fun t => t.term = s.term) data
          (fun t v _ h => (take_leaves v).1.trans h) s rfl
      · refine feed_keeps (Q := s.Leaves) data (fun t v hv h => ?_) s (.refl s)
        obtain ⟨hterm, hinput⟩ := take_leaves (s := t) v
        refine h.trans ⟨hterm, hinput fun hflush => ?_⟩
        rw [h.term] at hflush
        exact hkeep ⟨hflush.1, v, hv, hflush.2⟩
  | writeOutput data nonblock =>
    have hput (t : Core) (v : UInt8) (h : s.Leaves t) : s.Leaves (t.put v).2 := by
      unfold put
      split
      next u hu => exact h.trans (leaves_emit hu)
      · exact h
    dsimp only [step, writeOutput]
    split_ifs
    · exact hboth (.refl s)
    · exact hboth (.refl s)
    · exact hboth (feed_keeps data (fun t v _ => hput t v) s (.refl s))
  | readInput max timeout => exact ⟨fun _ => term_readInput max timeout, absurd trivial⟩
  | readOutput max => exact hboth (leaves_readOutput max)
  | flush input output =>
    cases input
    · cases output <;> exact hboth ⟨rfl, id⟩
    · cases output <;> exact ⟨fun _ => rfl, absurd trivial⟩
  | sendEof =>
    dsimp only [step, enqueueRecord]
    split_ifs <;> exact hboth ⟨rfl, id⟩
  | openMaster =>
    dsimp only [step]
    split_ifs <;> exact hboth ⟨rfl, id⟩
  | openSlave =>
    dsimp only [step]
    split_ifs <;> exact hboth ⟨rfl, id⟩
  | setTermios term => exact ⟨fun hother => absurd rfl (hother term), absurd trivial⟩
  | _ => exact hboth ⟨rfl, id⟩

end Core

/-! ## Runs -/

lemma removeAt_perm {α : Type} {l : List α} {i : ℕ} {x : α} (h : l[i]? = some x) :
    (x :: removeAt l i).Perm l := by
  obtain ⟨hi, rfl⟩ := List.getElem?_eq_some_iff.1 h
  obtain ⟨init, last, rfl⟩ : ∃ init last, l = init ++ [last] :=
    ⟨l.dropLast, l.getLast (ne_nil_of_length_pos (by omega)), (dropLast_append_getLast _).symm⟩
  rw [removeAt, getLast?_concat]
  dsimp only
  rcases Nat.lt_or_ge i init.length with hlt | hge
  · rw [set_append_left _ _ hlt, dropLast_concat, getElem_append_left hlt,
      set_eq_take_append_cons_drop, if_pos hlt]
    have hinit : init.take i ++ init[i] :: init.drop (i + 1) = init := by
      rw [getElem_cons_drop, take_append_drop]
    calc init[i] :: (init.take i ++ last :: init.drop (i + 1))
      _ ~ init[i] :: last :: (init.take i ++ init.drop (i + 1)) := perm_middle.cons _
      _ ~ last :: init[i] :: (init.take i ++ init.drop (i + 1)) := .swap ..
      _ ~ last :: (init.take i ++ init[i] :: init.drop (i + 1)) := perm_middle.symm.cons _
      _ = last :: init := by rw [hinit]
      _ ~ init ++ [last] := (perm_append_singleton last init).symm
  · obtain rfl : i = init.length := by simp at hi; omega
    simpa using (perm_append_singleton last init).symm

namespace Daemon

variable {d : Daemon} {i : ℕ} {p : PendingRead} {now : ℕ} {cancelled : ℕ → Bool}

/-- A read that is done with: if it is one of the slave, none of them is left while timers are
started. -/
lemma Inv.remove (h : Inv d) (hp : d.pending[i]? = some p) {core : Core}
    (hterm : core.term = d.core.term) (hmaster : p.master = true → d.core.Leaves core)
    {answers : List Answer} (hanswers : ∀ a ∈ answers, HonestAnswer a) :
    Inv ⟨core, removeAt d.pending i, answers⟩ := by
  have hperm := removeAt_perm hp
  have hcount : d.slaves = ((removeAt d.pending i).map PendingRead.master).count false +
      if p.master = false then 1 else 0 := by
    rw [slaves, ← (hperm.map PendingRead.master).count_eq, map_cons, count_cons]
    cases p.master <;> rfl
  refine ⟨fun q hq htimed => ?_, fun htiming => ?_, hanswers⟩
  · obtain ⟨htiming, hinput⟩ := h.timed q (hperm.subset (mem_cons_of_mem p hq)) htimed
    rw [hterm]
    cases hm : p.master with
    | true => exact ⟨htiming, fun hmin => (hmaster hm).input (hinput hmin)⟩
    | false =>
      have hsingle := h.single htiming
      have hpos : 0 < ((removeAt d.pending i).map PendingRead.master).count false :=
        count_pos_iff.2 (mem_map.2 ⟨q, hq, htimed.1⟩)
      rw [if_pos hm] at hcount
      omega
  · have hsingle := h.single (hterm ▸ htiming)
    change ((removeAt d.pending i).map PendingRead.master).count false ≤ 1
    omega

lemma Inv.turn (h : Inv d) (hp : d.pending[i]? = some p) :
    Inv (d.turn now cancelled i p).1 := by
  have hterm : (d.core.serve p now).2.term = d.core.term := Core.term_serve
  have hleaves : p.master = true → d.core.Leaves (d.core.serve p now).2 :=
    Core.leaves_serve_master
  unfold Daemon.turn
  split_ifs
  · exact h.remove hp rfl (fun _ => .refl _) h.honest
  split
  next p' core hserve =>
    obtain ⟨hkeep, hnext⟩ := Core.serve_waits hserve
    have hmaster : p'.master = p.master := by
      rcases hnext with rfl | ⟨hp', hp, -⟩
      · rfl
      · rw [hp', hp]
    obtain ⟨hi, hget⟩ := List.getElem?_eq_some_iff.1 hp
    refine ⟨fun q hq htimed => ?_, fun htiming => ?_, h.honest⟩
    · rw [hkeep.term]
      have hold : Timing d.core.term ∧ (d.core.term.min ≠ 0 → d.core.input ≠ []) := by
        rcases mem_or_eq_of_mem_set hq with hmem | rfl
        · exact h.timed q hmem htimed
        · rcases hnext with rfl | ⟨-, -, htiming, hinput⟩
          · exact h.timed _ (mem_of_getElem? hp) htimed
          · exact ⟨htiming, fun _ => hinput⟩
      exact ⟨hold.1, fun hmin => hkeep.input (hold.2 hmin)⟩
    · have hsame : (d.pending.set i p').map PendingRead.master =
          d.pending.map PendingRead.master := by
        rw [map_set, hmaster, ← hget, ← getElem_map PendingRead.master, set_getElem_self]
        simpa using hi
      have hsingle := h.single (hkeep.term ▸ htiming)
      rw [slaves] at hsingle ⊢
      dsimp only
      rwa [hsame]
  next core hserve =>
    rw [hserve] at hterm hleaves
    exact h.remove hp hterm hleaves h.honest
  next r core hserve =>
    rw [hserve] at hterm hleaves
    refine h.remove hp hterm hleaves (forall_mem_cons.2 ⟨?_, h.honest⟩)
    intro hslave hsize hraw hmin hopen
    refine Core.one_le_count_of_answered hraw hmin hopen hslave hsize (fun hempty => ?_) hserve
    by_contra htimer
    exact (h.timed p (mem_of_getElem? hp) ⟨hslave, htimer⟩).2 hmin hempty

lemma Inv.flush (n : ℕ) : ∀ {d : Daemon} (i : ℕ), Inv d →
    Inv (d.flushPendingReads now cancelled n i) := by
  induction n with
  | zero => exact fun _ h => h
  | succ n ih =>
    intro d i h
    unfold flushPendingReads
    split
    · exact h
    next p hp => exact ih _ (h.turn hp)

lemma Inv.step {d' : Daemon} {e : Event} (h : Inv d) (hcareful : d.Careful e)
    (hstep : d.step e = some d') : Inv d' := by
  cases e with
  | request responder size master nonblock now =>
    cases hstep
    have hnew : (d.core.addPendingRead now responder size master nonblock).master = master ∧
        (Timed (d.core.addPendingRead now responder size master nonblock) →
          Timing d.core.term ∧ (d.core.term.min ≠ 0 → d.core.input ≠ [])) := by
      unfold Core.addPendingRead Timed
      dsimp only
      split_ifs with hstart
      · exact ⟨rfl, fun _ => ⟨⟨hstart.2.1, hstart.2.2.1⟩, hstart.2.2.2.resolve_left⟩⟩
      · exact ⟨rfl, fun htimed => absurd rfl htimed.2⟩
    refine ⟨fun p hp htimed => ?_, fun htiming => ?_, h.honest⟩
    · rcases mem_append.1 hp with hp | hp
      · exact h.timed p hp htimed
      · obtain rfl := mem_singleton.1 hp
        exact hnew.2 htimed
    · have hsingle := h.single htiming
      simp only [slaves, map_append, map_cons, map_nil, count_append, hnew.1] at hsingle ⊢
      cases master with
      | true => simpa using hsingle
      | false =>
        have hnone := hcareful rfl htiming
        simp only [slaves] at hnone
        simp [hnone]
  | call c =>
    cases hstep
    refine ⟨fun p hp htimed => ?_, fun htiming => ?_, h.honest⟩
    · have hkeep := (Core.step_leaves c).2 fun htakes => hcareful.1 htakes p hp htimed
      obtain ⟨htiming, hinput⟩ := h.timed p hp htimed
      exact ⟨hkeep.term ▸ htiming, fun hmin => hkeep.input (hinput (hkeep.term ▸ hmin))⟩
    · by_cases hset : ∃ t, c = .setTermios t
      · obtain ⟨t, rfl⟩ := hset
        exact hcareful.2 t rfl htiming
      · have hterm := (Core.step_leaves (s := d.core) c).1 fun t ht => hset ⟨t, ht⟩
        exact h.single (hterm ▸ htiming)
  | round now cancelled =>
    cases hstep
    exact h.flush _ 0

/-- **A raw read with `VMIN` does not make up an end of file**, in every run of `ttyd` that leaves
the byte which has started a timer to its read. -/
theorem honest_of_careful (events : List Event) {d : Daemon}
    (hcareful : Along step Careful {} events) (hrun : exec step {} events = some d) :
    ∀ a ∈ d.answers, HonestAnswer a := by
  have hstart : Inv {} := ⟨by simp, fun _ => Nat.zero_le 1, by simp⟩
  exact (exec_induct (fun _ _ _ h hc hs => h.step hc hs) hstart hcareful hrun).honest

/-- Raw reads wait for two bytes, and a tenth of a second after the first. -/
def raw : Event := .call (.setTermios { icanon := false, min := 2, time := 1 })

def slaveRead : Event := .request 7 4 false false 0

def firstByte : Event := .call (.receiveInput [97] true)

def lateRounds : List Event :=
  [raw, slaveRead, firstByte, .round 0 fun _ => false, .round 100 fun _ => false]

/-- The read gets its one byte when the timer has run out. -/
theorem honest_of_careful_late : ∃ d a, exec step {} lateRounds = some d ∧ d.answers = [a] ∧
    a.reply.bytes = [97] ∧ HonestAnswer a := by
  have hcareful : Along step Careful {} lateRounds := by
    refine ⟨⟨fun _ => by simp, fun t ht _ => by simp [slaves]⟩, fun _ _ => rfl,
      ⟨fun _ p hp htimed => ?_, fun _ hset => by simp at hset⟩, trivial, trivial, trivial⟩
    obtain rfl := mem_singleton.1 hp
    exact htimed.2 (by decide +kernel)
  have hbytes : (exec step {} lateRounds).map (fun d => d.answers.map fun a => a.reply.bytes) =
      some [[97]] := by decide +kernel
  obtain ⟨d, hd, hanswers⟩ := Option.map_eq_some_iff.1 hbytes
  obtain ⟨a, ha, hread⟩ := map_eq_singleton_iff.1 hanswers
  have hmem : a ∈ d.answers := ha ▸ mem_singleton_self a
  exact ⟨d, a, hd, ha, hread, honest_of_careful lateRounds hcareful hd a hmem⟩

/-- The byte is flushed between the two rounds. -/
def flushedRounds : List Event :=
  [raw, slaveRead, firstByte, .round 0 fun _ => false, .call (.flush true false),
    .round 100 fun _ => false]

/-- **The byte that started the timer is flushed**, and the read answered without it. -/
theorem not_honest_flushed : ∃ d a, exec step {} flushedRounds = some d ∧ d.answers = [a] ∧
    ¬ HonestAnswer a := by
  have hseen : (exec step {} flushedRounds).map (fun d => d.answers.map fun a =>
      decide ((a.read.master = false ∧ 1 ≤ a.read.size ∧ a.core.term.icanon = false ∧
        a.core.term.min ≠ 0) ∧ (a.core.eofCount = 0 ∧ a.core.shutdown = false ∧
        a.core.masterHungUp = false) ∧ a.reply.count = 0)) = some [true] := by decide +kernel
  obtain ⟨d, hd, hanswers⟩ := Option.map_eq_some_iff.1 hseen
  obtain ⟨a, ha, hread⟩ := map_eq_singleton_iff.1 hanswers
  obtain ⟨⟨hslave, hsize, hraw, hmin⟩, hopen, hcount⟩ := of_decide_eq_true hread
  refine ⟨d, a, hd, ha, fun h => ?_⟩
  have hone := h hslave hsize hraw hmin hopen
  omega

end Daemon

end Naos.Tty
