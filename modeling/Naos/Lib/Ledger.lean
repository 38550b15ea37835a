import Naos.Lib.Transition
import Mathlib

/-!
# Counters that lag behind what they count

Code that keeps its holders under a lock often counts them with calls it makes after the
lock is dropped: the holders change in one section, and the calls that count them in and
out follow one by one, between the sections and the calls of other threads.  So a counter
agrees with its holders only when no call is due.

A call is entered for an account.  `settle` is the balance of an account after a list of
calls; it fails where a call takes from an empty account, so that a section whose calls
settle neither loses a holder nor takes a counter below zero.
-/

namespace Ledger

open Transition List

universe u v w x

/-- A call counts a holder of an account in or out. -/
structure Call (α : Type u) where
  account : α
  up : Bool
  deriving DecidableEq

section Settle

variable {α : Type u} [DecidableEq α] {β : Type v}

/-- The balance of one account after a call; `none` where the call takes from an empty
account. -/
def post (a : α) (n : ℕ) (c : Call α) : Option ℕ :=
  if c.account = a then
    if c.up then some (n + 1)
    else if n = 0 then none
    else some (n - 1)
  else some n

/-- The balance of one account after a list of calls. -/
def settle (a : α) (n : ℕ) (cs : List (Call α)) : Option ℕ := cs.foldlM (post a) n

/-- The calls that count into the account. -/
def ups (a : α) (cs : List (Call α)) : ℕ := cs.count ⟨a, true⟩

/-- The calls that count out of the account. -/
def downs (a : α) (cs : List (Call α)) : ℕ := cs.count ⟨a, false⟩

section

variable (a : α) (n : ℕ) (c : Call α) (cs cs' : List (Call α))

@[simp] lemma settle_nil : settle a n [] = some n := rfl

@[simp] lemma ups_nil : ups a [] = 0 := rfl

@[simp] lemma downs_nil : downs a [] = 0 := rfl

@[simp] lemma ups_append : ups a (cs ++ cs') = ups a cs + ups a cs' := count_append

@[simp] lemma downs_append : downs a (cs ++ cs') = downs a cs + downs a cs' := count_append

lemma ups_cons : ups a (c :: cs) = ups a [c] + ups a cs := ups_append a [c] cs

lemma downs_cons : downs a (c :: cs) = downs a [c] + downs a cs := downs_append a [c] cs

lemma settle_cons :
    settle a n (c :: cs) = (post a n c).bind fun m => settle a m cs :=
  foldlM_cons

lemma settle_append_eq :
    settle a n (cs ++ cs') = (settle a n cs).bind fun m => settle a m cs' :=
  foldlM_append

end

variable {a b : α} {n m k : ℕ} {cs cs' : List (Call α)}

lemma settle_append_iff :
    settle a n (cs ++ cs') = some k ↔ ∃ m, settle a n cs = some m ∧ settle a m cs' = some k := by
  rw [settle_append_eq, Option.bind_eq_some_iff]

variable {c : Call α}

lemma post_add (h : post a n c = some m) (k : ℕ) : post a (n + k) c = some (m + k) := by
  unfold post at h ⊢
  split_ifs at h with hc hup hn
  · cases h
    simp only [Nat.add_right_comm, *, if_true]
  · cases h
    have hpos : n + k ≠ 0 := by omega
    have hsub : n + k - 1 = n - 1 + k := by omega
    rw [if_pos hc, if_neg hup, if_neg hpos, hsub]
  · cases h
    rw [if_neg hc]

lemma settle_add (h : settle a n cs = some m) (k : ℕ) : settle a (n + k) cs = some (m + k) := by
  induction cs generalizing n with
  | nil =>
    obtain rfl : n = m := Option.some.inj h
    rfl
  | cons c cs ih =>
    rw [settle_cons] at h ⊢
    obtain ⟨n', hpost, hrest⟩ := Option.bind_eq_some_iff.1 h
    rw [post_add hpost k]
    exact ih hrest

/-- The calls of a part settle the whole it is a part of. -/
lemma settle_part {N M : ℕ} (h : settle a n cs = some m) (hle : n ≤ N)
    (hpart : M + n = N + m) : settle a N cs = some M := by
  have hadd := settle_add h (N - n)
  have hN : n + (N - n) = N := by omega
  have hM : m + (N - n) = M := by omega
  rwa [hN, hM] at hadd

lemma settle_append_add {n' m' : ℕ} (h : settle a n cs = some m)
    (h' : settle a n' cs' = some m') : settle a (n + n') (cs ++ cs') = some (m + m') := by
  have hsecond := settle_add h' m
  rw [Nat.add_comm n' m, Nat.add_comm m' m] at hsecond
  exact settle_append_iff.2 ⟨m + n', settle_add h n', hsecond⟩

lemma settle_up (a b : α) (n : ℕ) : settle a n [⟨b, true⟩] = some (n + if b = a then 1 else 0) := by
  by_cases h : b = a <;> simp [settle, post, h]

lemma settle_down (a b : α) (n : ℕ) :
    settle a (n + if b = a then 1 else 0) [⟨b, false⟩] = some n := by
  by_cases h : b = a <;> simp [settle, post, h]

lemma settle_flatMap {f : β → List (Call α)} {g g' : β → ℕ} {l : List β}
    (h : ∀ x ∈ l, settle a (g x) (f x) = some (g' x)) :
    settle a (l.map g).sum (l.flatMap f) = some (l.map g').sum := by
  induction l with
  | nil => rfl
  | cons x l ih =>
    exact settle_append_add (h x mem_cons_self) (ih fun y hy => h y (mem_cons_of_mem _ hy))

lemma balance_of_post (h : post a n c = some m) : m + downs a [c] = n + ups a [c] := by
  obtain ⟨b, up⟩ := c
  by_cases hb : b = a
  · subst hb
    cases up with
    | true =>
      obtain rfl : n + 1 = m := by simpa [post] using h
      simp [ups, downs]
    | false =>
      obtain ⟨hn, rfl⟩ : n ≠ 0 ∧ n - 1 = m := by simpa [post] using h
      simp only [ups, downs, count_singleton_self, count_singleton]
      simp
      omega
  · obtain rfl : n = m := by simpa [post, hb] using h
    simp [ups, downs, hb]

/-- What settles adds up. -/
lemma balance_of_settle (h : settle a n cs = some m) : m + downs a cs = n + ups a cs := by
  induction cs generalizing n with
  | nil =>
    obtain rfl : n = m := Option.some.inj h
    rfl
  | cons c cs ih =>
    rw [settle_cons] at h
    obtain ⟨n', hpost, hrest⟩ := Option.bind_eq_some_iff.1 h
    have hone := balance_of_post hpost
    have hmany := ih hrest
    rw [ups_cons, downs_cons]
    omega

/-- What a call adds to an account. -/
def Call.sign (a : α) (c : Call α) : ℤ := if c.account = a then if c.up then 1 else -1 else 0

lemma sum_sign (a : α) (cs : List (Call α)) :
    (cs.map (Call.sign a)).sum = (ups a cs : ℤ) - downs a cs := by
  induction cs with
  | nil => rfl
  | cons c cs ih =>
    have hone : c.sign a = (ups a [c] : ℤ) - downs a [c] := by
      obtain ⟨b, up⟩ := c
      by_cases hb : b = a
      · subst hb
        cases up <;> simp [Call.sign, ups, downs]
      · simp [Call.sign, ups, downs, hb]
    rw [map_cons, sum_cons, ih, hone, ups_cons a c cs, downs_cons a c cs]
    omega

end Settle

/-! ## Sections and the calls they leave due -/

/-- The holders, the calls each section under way has still to make, and the calls made so
far. -/
structure State (σ : Type v) (ε : Type w) where
  held : σ
  due : List (List ε) := []
  made : List ε := []

namespace State

variable {σ : Type v} {ε : Type w}

/-- No section has calls to make. -/
def Quiet (s : State σ ε) : Prop := ∀ es ∈ s.due, es = []

instance (s : State σ ε) : Decidable s.Quiet :=
  decidable_of_iff (∀ es ∈ s.due, es.isEmpty = true) (by simp [Quiet])

lemma Quiet.flatten {s : State σ ε} (h : s.Quiet) : s.due.flatten = [] :=
  flatten_eq_nil_iff.2 h

end State

/-- A section, or the next call of a section under way. -/
inductive Action (ι : Type x) where
  | start (i : ι)
  | call (k : ℕ)

/-- An action that starts no section while a call is due. -/
def Action.Serial {σ : Type v} {ε : Type w} {ι : Type x} (s : State σ ε) : Action ι → Prop
  | .start _ => s.Quiet
  | .call _ => True

instance {σ : Type v} {ε : Type w} {ι : Type x} (s : State σ ε) :
    ∀ a : Action ι, Decidable (a.Serial s)
  | .start _ => inferInstanceAs (Decidable s.Quiet)
  | .call _ => inferInstanceAs (Decidable True)

section Runs

variable {α : Type u} [DecidableEq α] {σ : Type v} {ε : Type w} {ι : Type x}
variable (critical : σ → ι → Option (σ × List ε))

/-- One action.  A section changes the holders and leaves its calls due. -/
def step (s : State σ ε) : Action ι → Option (State σ ε)
  | .start i =>
    (critical s.held i).map fun r => { s with held := r.1, due := r.2 :: s.due }
  | .call k =>
    match s.due[k]? with
    | some (e :: es) => some { s with due := s.due.set k es, made := s.made ++ [e] }
    | some [] | none => none

variable {critical} (read : ε → Call α) (count : α → σ → ℕ)

/-- A section settles: its calls take every account from the holders before it to the
holders after it. -/
def Settles (s s' : σ) (es : List ε) : Prop :=
  ∀ a, settle a (count a s) (es.map read) = some (count a s')

/-- The calls made and due add up to the holders. -/
def Balanced (s : State σ ε) : Prop :=
  ∀ a, count a s.held + downs a ((s.made ++ s.due.flatten).map read)
    = ups a ((s.made ++ s.due.flatten).map read)

/-- At most one section has calls to make, and together with those made they settle. -/
def Orderly (s : State σ ε) : Prop :=
  ∃ k es, (∀ j, s.due.getD j [] = if j = k then es else []) ∧
    ∀ a, settle a 0 ((s.made ++ es).map read) = some (count a s.held)

variable {read count} {I : σ → Prop}

variable {s s' : State σ ε} {act : Action ι} {acts : List (Action ι)}

lemma perm_call {k : ℕ} (h : step critical s (.call k) = some s') :
    s'.held = s.held ∧ (s'.made ++ s'.due.flatten).Perm (s.made ++ s.due.flatten) := by
  rw [step] at h
  split at h
  next e es hk =>
    cases h
    refine ⟨rfl, ?_⟩
    obtain ⟨hlt, hget⟩ := List.getElem?_eq_some_iff.1 hk
    obtain ⟨before, after, hdue, -, hset⟩ := @exists_of_set _ k es s.due hlt
    rw [hget] at hdue
    dsimp only
    rw [hset, hdue]
    simp only [flatten_append, flatten_cons, append_assoc, cons_append, nil_append]
    exact perm_middle.symm.append_left _
  · cases h
  · cases h

variable
  (hsec : ∀ s i s' es, I s → critical s i = some (s', es) → I s' ∧ Settles read count s s' es)
  (hI : I s.held)
include hsec hI

lemma balanced_step (hs : Balanced read count s) (h : step critical s act = some s') :
    I s'.held ∧ Balanced read count s' := by
  cases act with
  | start i =>
    obtain ⟨⟨t, es⟩, hcrit, rfl⟩ := Option.map_eq_some_iff.1 h
    obtain ⟨hI', hsettles⟩ := hsec _ _ _ _ hI hcrit
    refine ⟨hI', ?_⟩
    intro a
    have hold := hs a
    have hnew := balance_of_settle (hsettles a)
    simp only [flatten_cons, map_append, downs_append, ups_append] at hold ⊢
    omega
  | call k =>
    obtain ⟨hheld, hperm⟩ := perm_call h
    rw [hheld]
    refine ⟨hI, ?_⟩
    intro a
    have hold := hs a
    have hperm' := hperm.map read
    rw [hheld, downs, ups, hperm'.count_eq, hperm'.count_eq]
    exact hold

/-- **The books balance** in every run, however the sections and the calls of different
threads are ordered. -/
theorem balance_of_exec (hs : Balanced read count s) (h : exec (step critical) s acts = some s') :
    I s'.held ∧ Balanced read count s' :=
  exec_invariant (I := fun s : State σ ε => I s.held ∧ Balanced read count s)
    (fun _ _ _ hinv hstep => balanced_step hsec hinv.1 hinv.2 hstep) ⟨hI, hs⟩ h

lemma orderly_step (hs : Orderly read count s) (hserial : act.Serial s)
    (h : step critical s act = some s') :
    I s'.held ∧ Orderly read count s' := by
  obtain ⟨k, es, hdue, hsettle⟩ := hs
  cases act with
  | start i =>
    obtain ⟨⟨t, new⟩, hcrit, rfl⟩ := Option.map_eq_some_iff.1 h
    obtain ⟨hI', hsettles⟩ := hsec _ _ _ _ hI hcrit
    have hquiet : ∀ j, s.due.getD j [] = [] := by
      intro j
      rcases hj : s.due[j]? with _ | l
      · simp [hj]
      · simpa [hj] using hserial l (mem_of_getElem? hj)
    have hes : es = [] := by
      have hk := hdue k
      rwa [if_pos rfl, hquiet k, eq_comm] at hk
    subst hes
    refine ⟨hI', 0, new, ?_, ?_⟩
    · intro j
      cases j with
      | zero => rfl
      | succ j => exact hquiet j
    · intro a
      have hold := hsettle a
      rw [append_nil] at hold
      rw [map_append]
      exact settle_append_iff.2 ⟨_, hold, hsettles a⟩
  | call j =>
    rw [step] at h
    split at h
    next e rest hj =>
      cases h
      have hget : s.due.getD j [] = e :: rest := by simp [hj]
      have hk := hdue j
      rw [hget] at hk
      split at hk
      next hjk =>
        subst hjk hk
        refine ⟨hI, j, rest, ?_, ?_⟩
        · intro i
          have hi := hdue i
          by_cases hij : i = j
          · subst hij
            obtain ⟨hlt, -⟩ := List.getElem?_eq_some_iff.1 hj
            simp [List.getElem?_set_self hlt]
          · have hji : j ≠ i := fun h => hij h.symm
            simp only [hij, if_false, getD_eq_getElem?_getD] at hi ⊢
            rw [List.getElem?_set_ne hji]
            exact hi
        · intro a
          have hold := hsettle a
          rwa [append_assoc]
      · cases hk
    · cases h
    · cases h

/-- **No account is ever taken below zero** in a run where no section starts while a call
is due: at every point the calls out are covered by calls in. -/
theorem downs_le_ups_of_serial (hs : Orderly read count s)
    (hserial : Along (step critical) (fun s a => a.Serial s) s acts)
    (h : exec (step critical) s acts = some s') (a : α) :
    downs a (s'.made.map read) ≤ ups a (s'.made.map read) := by
  have hinv : I s'.held ∧ Orderly read count s' :=
    exec_induct (I := fun s : State σ ε => I s.held ∧ Orderly read count s)
      (fun _ _ _ hinv hok hstep => orderly_step hsec hinv.1 hinv.2 hok hstep) ⟨hI, hs⟩ hserial h
  obtain ⟨k, es, -, hsettle⟩ := hinv.2
  have hall := hsettle a
  rw [map_append] at hall
  obtain ⟨m, hm, -⟩ := settle_append_iff.1 hall
  have hbalance := balance_of_settle hm
  omega

end Runs

end Ledger
