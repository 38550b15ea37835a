import Mathlib
import Naos.Tty.Session

/-!
# Input in pieces

Whoever feeds a terminal may cut its input as it likes, and repeats what a call has not taken.
A round of `receive_input` that refuses a byte should leave no trace of it.  One does: with
`IXANY` every byte resumes a paused output, and only then the room for the byte is looked at.
-/

namespace Naos.Tty

open List

section Feed

variable {σ : Type} {eat : σ → UInt8 → Bool × σ} {s : σ}

/-- What comes after bytes that are all taken is fed to the state they leave. -/
lemma feed_append {a : List UInt8} (h : (feed eat s a).1 = a.length) (b : List UInt8) :
    feed eat s (a ++ b) =
      (a.length + (feed eat (feed eat s a).2 b).1, (feed eat (feed eat s a).2 b).2) := by
  induction a generalizing s with
  | nil => simp [feed]
  | cons v a ih =>
    rcases htaken : eat s v with ⟨_ | _, t⟩
    · simp [feed, htaken] at h
    · simp only [feed, htaken, cons_append, length_cons, Nat.add_right_cancel_iff] at h ⊢
      rw [ih h]
      simp only [Prod.mk.injEq, and_true]
      omega

lemma feed_le (s : σ) (data : List UInt8) : (feed eat s data).1 ≤ data.length := by
  induction data generalizing s with
  | nil => exact le_rfl
  | cons v data ih =>
    rcases htaken : eat s v with ⟨_ | _, t⟩
    · simp [feed, htaken]
    · simpa [feed, htaken] using ih t

/-- Where a refused byte leaves the state as it is, only the bytes that were taken count. -/
lemma feed_take {C : σ → Prop} (hkeep : ∀ s v, C s → C (eat s v).2)
    (hstop : ∀ s v, C s → (eat s v).1 = false → (eat s v).2 = s) (hs : C s)
    (data : List UInt8) : (feed eat s data).2 = (feed eat s (data.take (feed eat s data).1)).2 := by
  induction data generalizing s with
  | nil => rfl
  | cons v data ih =>
    have hnext := hkeep s v hs
    have hsame := hstop s v hs
    rcases htaken : eat s v with ⟨_ | _, t⟩ <;> rw [htaken] at hnext hsame
    · simpa [feed, htaken] using hsame rfl
    · simpa [feed, htaken] using ih hnext

end Feed

namespace Core

variable (s : Core)

/-- The calls of a feeder, one after the other. -/
def receiveAll (calls : List (List UInt8 × Bool)) : Core :=
  calls.foldl (fun s c => (s.receiveInput c.1 c.2).2) s

/-- `-EAGAIN` or a short count. -/
def Refuses (r : Reply) (size : ℕ) : Prop := r.result = .error .again ∨ ∃ n < size, r.result = .ok n

/-- No call reports back-pressure. -/
def Flows (s : Core) : List (List UInt8 × Bool) → Prop
  | [] => True
  | c :: calls => ¬ Refuses (s.receiveInput c.1 c.2).1 c.1.length ∧
      Flows (s.receiveInput c.1 c.2).2 calls

/-- The state after a call is the state after the bytes that it has consumed. -/
def Resumes : Prop := ∀ data nonblock, (s.receiveInput data nonblock).2 =
  (s.receiveInput (data.take (s.receiveInput data nonblock).1.count) nonblock).2

variable {s} {t : Core} {v : UInt8}

/-- What no round of `receive_input` changes. -/
def fixed (s : Core) : Termios × Bool × Bool := (s.term, s.slaveHungUp, s.shutdown)

lemma fixed_accept (h : s.accept v = some t) : t.fixed = s.fixed ∧ t.paused = s.paused := by
  unfold accept enqueueRecord at h
  split_ifs at h
  all_goals first
    | (obtain rfl := emit_map_eq_some h; exact ⟨rfl, rfl⟩)
    | (cases h; exact ⟨rfl, rfl⟩)

lemma fixed_take (s : Core) (v : UInt8) : (s.take v).2.fixed = s.fixed := by
  unfold take
  split
  · rfl
  simp only
  split_ifs
  all_goals try rfl
  all_goals
    split
    next haccept => exact (fixed_accept haccept).1.trans rfl
    · rfl

lemma term_take (s : Core) (v : UInt8) : (s.take v).2.term = s.term :=
  congrArg Prod.fst (fixed_take s v)

lemma fixed_feed (s : Core) (data : List UInt8) : (feed take s data).2.fixed = s.fixed :=
  feed_keeps (Q := fun t => t.fixed = s.fixed) data (fun t v _ h => (fixed_take t v).trans h) s rfl

/-- Only `IXANY` leaves a trace of a byte that finds no room. -/
lemma take_of_refused (h : (s.take v).1 = false) :
    (s.take v).2 = if s.term.ixon ∧ s.term.ixany then s.setPaused false else s := by
  unfold take at h ⊢
  split at h
  · simp at h
  generalize (if s.term.ixon ∧ s.term.ixany then s.setPaused false else s) = s' at h ⊢
  dsimp only at h ⊢
  split_ifs at h ⊢
  split at h
  · simp at h
  · simp_all

lemma receiveInput_state (s : Core) (data : List UInt8) (nonblock : Bool) :
    (s.receiveInput data nonblock).2 =
      if s.slaveHungUp = true ∨ s.shutdown = true then s else (feed take s data).2 := by
  cases hhung : s.slaveHungUp <;> cases hshut : s.shutdown <;> simp [receiveInput, hhung, hshut]

lemma feed_of_flows {data : List UInt8} {nonblock : Bool}
    (hopen : ¬ (s.slaveHungUp = true ∨ s.shutdown = true))
    (h : ¬ Refuses (s.receiveInput data nonblock).1 data.length) :
    (feed take s data).1 = data.length := by
  by_contra hne
  have hlt := lt_of_le_of_ne (feed_le s data) hne
  refine h ?_
  simp only [not_or, Bool.not_eq_true] at hopen
  simp only [receiveInput, hopen, Bool.false_eq_true, if_false, answer]
  split_ifs
  · exact .inr ⟨_, hlt, rfl⟩
  · exact .inl rfl

lemma receiveAll_of_flows {calls : List (List UInt8 × Bool)} (h : s.Flows calls)
    (nonblock : Bool) :
    s.receiveAll calls = (s.receiveInput (calls.flatMap Prod.fst) nonblock).2 := by
  induction calls generalizing s with
  | nil =>
    rw [receiveInput_state]
    exact (ite_self _).symm
  | cons c calls ih =>
    have hrest : s.receiveAll (c :: calls) = (s.receiveInput c.1 c.2).2.receiveAll calls := rfl
    rw [hrest, ih h.2, receiveInput_state, receiveInput_state s c.1, receiveInput_state,
      flatMap_cons]
    by_cases hopen : s.slaveHungUp = true ∨ s.shutdown = true
    · simp [hopen]
    · obtain ⟨-, hhung, hshut⟩ := Prod.mk.inj (fixed_feed s c.1) |>.imp id Prod.mk.inj
      simp only [hopen, if_false, hhung, hshut]
      rw [feed_append (feed_of_flows hopen h.1)]

/-! ## The bytes that resume the output -/

/-- The output resumes at every byte, and it can be stopped before a byte that finds no room: by
a byte, or it is stopped already and there is no room. -/
def Wakes (s : Core) : Prop :=
  (s.slaveHungUp = false ∧ s.shutdown = false) ∧ (s.term.ixon ∧ s.term.ixany) ∧
    ((∃ b, s.term.mapped b = some s.term.stop) ∨ s.paused ∧ ∃ b, (s.take b).1 = false)

lemma resumes_iff_feed (hopen : s.slaveHungUp = false ∧ s.shutdown = false) : s.Resumes ↔
    ∀ data, (feed take s data).2 = (feed take s (data.take (feed take s data).1)).2 := by
  simp [Resumes, receiveInput, hopen, answer]

/-- Without a byte that stops the output, a byte resumes it or does nothing. -/
lemma take_paused (hany : s.term.ixon ∧ s.term.ixany)
    (hstop : ∀ b, s.term.mapped b ≠ some s.term.stop) (v : UInt8) :
    (s.take v).2 = s ∨ (s.take v).2.paused = false := by
  cases hv : s.term.mapped v with
  | none => exact .inl (by simp [take, hv])
  | some w =>
    have hne : w ≠ s.term.stop := fun h => hstop v (h ▸ hv)
    refine .inr ?_
    simp only [take, hv, hne, hany, and_false, if_false, and_self, if_true, true_and]
    split_ifs
    · rfl
    · rfl
    · rfl
    · split
      next haccept => exact (fixed_accept haccept).2
      · rfl

/-- A byte that is none of the characters of the terminal. -/
lemma exists_ordinary (t : Termios) : ∃ v, t.mapped v = some v ∧ v ≠ t.stop ∧ v ≠ t.start ∧
    ¬ t.Signals v ∧ v ≠ t.erase ∧ v ≠ t.kill ∧ v ≠ t.eof ∧ v ≠ 10 := by
  let special := [10, 13, t.stop, t.start, t.intr, t.quit, t.susp, t.erase, t.kill, t.eof]
  have hcard : special.toFinset.card < ((range 11).map UInt8.ofNat).toFinset.card :=
    lt_of_le_of_lt (toFinset_card_le special)
      (show 10 < ((range 11).map UInt8.ofNat).toFinset.card by decide)
  obtain ⟨v, -, hv⟩ := Finset.exists_mem_notMem_of_card_lt_card hcard
  simp only [special, mem_toFinset, mem_cons, not_mem_nil, or_false, not_or] at hv
  exact ⟨v, by simp [Termios.mapped, hv], by simp [hv, Termios.Signals]⟩

/-- Where an ordinary byte goes. -/
def store (s : Core) : List UInt8 := if s.term.icanon then s.line else s.input

lemma exists_full (s : Core) (hring : s.input.length ≤ capacity) :
    ∃ v n, (feed take s (replicate n v)).1 = n ∧
      ((feed take s (replicate n v)).2.take v).1 = false := by
  obtain ⟨v, hmapped, hstop, hstart, hsignal, herase, hkill, heof, hnl⟩ := exists_ordinary s.term
  -- Every byte that is taken makes the store longer, which has a bound.
  have hgrow (u : Core) (hterm : u.term = s.term) (hu : u.input.length ≤ capacity)
      (htaken : (u.take v).1 = true) : u.store.length < capacity ∧
        (u.take v).2.store.length = u.store.length + 1 ∧ (u.take v).2.input.length ≤ capacity := by
    obtain ⟨u', hu', hterm', hline, hinput⟩ : ∃ u', u.take v = (match u'.accept v with
        | some t => (true, t)
        | none => (false, u')) ∧ u'.term = s.term ∧ u'.line = u.line ∧ u'.input = u.input := by
      have hsame : (if s.term.ixon ∧ s.term.ixany then u.setPaused false else u).term = s.term := by
        split_ifs <;> exact hterm
      refine ⟨_, ?_, hsame, by split_ifs <;> rfl, by split_ifs <;> rfl⟩
      simp only [take, hterm, hmapped, hstop, hstart, and_false, if_false, hsame, hsignal]
      rfl
    cases haccept : u'.accept v with
    | none => simp [hu', haccept] at htaken
    | some t =>
      rw [hu', haccept]
      unfold accept at haccept
      simp only [hterm', herase, hkill, heof, hnl, and_false, if_false] at haccept
      split_ifs at haccept with hcanon hfull hfull <;> rw [emit_map_eq_some haccept] <;>
        simp [store, bump, hterm, hterm', hline, hinput, hcanon] at hfull ⊢ <;> omega
  suffices h : ∀ k u, u.term = s.term → u.input.length ≤ capacity →
      capacity - u.store.length ≤ k → ∃ n, (feed take u (replicate n v)).1 = n ∧
        ((feed take u (replicate n v)).2.take v).1 = false by
    exact ⟨v, h _ s rfl hring le_rfl⟩
  intro k
  induction k with
  | zero =>
    intro u hterm hu hk
    refine ⟨0, rfl, ?_⟩
    by_contra htaken
    have := (hgrow u hterm hu (Bool.not_eq_false _ ▸ htaken)).1
    omega
  | succ k ih =>
    intro u hterm hu hk
    rcases htaken : (u.take v).1 with _ | _
    · exact ⟨0, rfl, htaken⟩
    obtain ⟨hlt, hlength, hinput⟩ := hgrow u hterm hu htaken
    obtain ⟨n, hn, hfull⟩ := ih (u.take v).2 ((term_take u v).trans hterm) hinput (by omega)
    have hpair : u.take v = (true, (u.take v).2) := by rw [← htaken]
    refine ⟨n + 1, ?_, ?_⟩ <;> rw [replicate_succ, feed, hpair]
    · simpa using hn
    · exact hfull

lemma take_setPaused (paused : Bool) : ((s.setPaused paused).take v).1 = (s.take v).1 := by
  rw [Bool.eq_iff_iff, take_iff, take_iff]
  simp only [isSome_accept_setPaused]
  rfl

lemma not_resumes_of_wakes (hring : s.input.length ≤ capacity) (h : s.Wakes) : ¬ s.Resumes := by
  obtain ⟨hopen, hany, hpaused⟩ := h
  rw [resumes_iff_feed hopen]
  intro hresumes
  have hrefused {u : Core} {v : UInt8} (hterm : u.term = s.term) (hv : (u.take v).1 = false) :
      u.take v = (false, u.setPaused false) := by
    refine Prod.ext hv ((take_of_refused hv).trans ?_)
    rw [hterm, if_pos hany]
  rcases hpaused with ⟨b, hb⟩ | ⟨hpaused, b, hb⟩
  · -- The ring is filled, then the output is stopped, and the next byte finds no room.
    obtain ⟨v, n, hn, hfull⟩ := exists_full s hring
    have hterm : (feed take s (replicate n v)).2.term = s.term := congrArg Prod.fst (fixed_feed s _)
    have hfilled := feed_append (s := s) (hn.trans length_replicate.symm)
    generalize (feed take s (replicate n v)).2 = u at hfull hterm hfilled
    have hstop : u.take b = (true, u.setPaused true) := by simp [take, hterm, hb, hany.1]
    have hlast : (u.setPaused true).take v = (false, (u.setPaused true).setPaused false) :=
      hrefused hterm ((take_setPaused true).trans hfull)
    have hlong := hfilled [b, v]
    have hshort := hfilled [b]
    simp only [feed, hstop, hlast, length_replicate, zero_add] at hlong hshort
    have hcut : (replicate n v ++ [b, v]).take (n + 1) = replicate n v ++ [b] := by
      simp [take_append]
    have hsame := hresumes (replicate n v ++ [b, v])
    rw [hlong, hcut, hshort] at hsame
    exact Bool.false_ne_true (congrArg Core.paused hsame)
  · have := congrArg Core.paused (hresumes [b])
    simp [feed, hrefused rfl hb, setPaused, hpaused] at this

lemma resumes_iff (hring : s.input.length ≤ capacity) : s.Resumes ↔ ¬ s.Wakes := by
  refine ⟨fun h hwakes => not_resumes_of_wakes hring hwakes h, fun h => ?_⟩
  by_cases hopen : s.slaveHungUp = false ∧ s.shutdown = false
  swap
  · have hclosed : s.slaveHungUp = true ∨ s.shutdown = true := by
      simpa [or_iff_not_imp_left] using hopen
    intro data nonblock
    rw [receiveInput_state, receiveInput_state, if_pos hclosed, if_pos hclosed]
  rw [resumes_iff_feed hopen]
  intro data
  by_cases hany : s.term.ixon ∧ s.term.ixany
  · have hnever : (∀ b, s.term.mapped b ≠ some s.term.stop) ∧
        (s.paused → ∀ b, (s.take b).1 = true) := by
      simp only [Wakes, hopen, hany, and_self, true_and, not_or, not_exists, not_and,
        Bool.not_eq_false] at h
      exact h
    refine feed_take (C := fun u => u.term = s.term ∧ (u.paused → ∀ b, (u.take b).1 = true))
      (fun u v hu => ⟨(term_take u v).trans hu.1, ?_⟩) (fun u v hu hv => ?_) ⟨rfl, hnever.2⟩ data
    · rcases take_paused (by rwa [hu.1]) (by rw [hu.1]; exact hnever.1) v with hsame | hfalse
      · rw [hsame]
        exact hu.2
      · simp [hfalse]
    · have hrun : u.paused = false := by
        by_contra hpaused
        simp [hu.2 (by simpa using hpaused) v] at hv
      rw [take_of_refused hv, hu.1, if_pos hany]
      simp [setPaused, ← hrun]
  · refine feed_take (C := fun u => u.term = s.term) (fun u v hu => (term_take u v).trans hu)
      (fun u v hu hv => ?_) rfl data
    rw [take_of_refused hv, hu, if_neg hany]

/-- **Input may be cut anywhere and repeated**: calls that report no back-pressure are one call
with all their bytes, and a call that does is one with the bytes it has taken, exactly where no
byte that finds no room resumes the output. -/
theorem receive_chunks_iff (s : Core) (hring : s.input.length ≤ capacity) :
    ((∀ calls nonblock, s.Flows calls →
        s.receiveAll calls = (s.receiveInput (calls.flatMap Prod.fst) nonblock).2) ∧ s.Resumes) ↔
      ¬ s.Wakes :=
  ⟨fun h => (resumes_iff hring).1 h.2, fun h =>
    ⟨fun _ nonblock hflows => receiveAll_of_flows hflows nonblock, (resumes_iff hring).2 h⟩⟩

/-- A raw terminal without room, whose output was stopped. -/
def stopped : Core where
  term := { icanon := false, ixany := true }
  input := replicate capacity 97
  paused := true

/-- A stopped terminal without room keeps what it is when a byte is refused, without `IXANY`. -/
theorem resumes_stopped : { stopped with term := { icanon := false } }.Resumes :=
  ((receive_chunks_iff _ (by simp [stopped])).2 fun h => by simp [Wakes] at h).2

/-- **A refused byte resumes the output.** -/
theorem not_resumes_stopped : ¬ stopped.Resumes := by
  intro h
  have hpaused := congrArg Core.paused (h [98] true)
  revert hpaused
  simp [stopped, receiveInput, feed, take, Termios.mapped, Termios.Signals, accept, setPaused,
    answer]

end Core

end Naos.Tty
