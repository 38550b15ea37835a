import Mathlib

/-!
# Runs of a partial step function

A system is a function `step s a` that answers the state after the action `a`, or
`none` where the action is not enabled in `s`.  A run is a list of actions, and an
interleaving of several parties is a run whose actions name the party that moves.

Assumptions about the environment are conditions on one action and the state
*before* it.  `Along` says that every action of a run meets such a condition, and
`exec_induct` is the one induction that every safety theorem of the development
goes through.
-/

namespace Transition

universe u v
variable {σ : Type u} {α : Type v}

/-- The state after a list of actions; `none` as soon as one is not enabled. -/
def exec (step : σ → α → Option σ) : σ → List α → Option σ
  | s, [] => some s
  | s, a :: as => (step s a).bind fun t => exec step t as

/-- Every action of the run is taken in a state that meets `ok`. -/
def Along (step : σ → α → Option σ) (ok : σ → α → Prop) : σ → List α → Prop
  | _, [] => True
  | s, a :: as => ok s a ∧ (step s a).elim True fun t => Along step ok t as

@[simp] lemma exec_nil (step : σ → α → Option σ) (s : σ) : exec step s [] = some s := rfl

lemma exec_cons (step : σ → α → Option σ) (s : σ) (a : α) (as : List α) :
    exec step s (a :: as) = (step s a).bind fun t => exec step t as := rfl

variable {a : α} {as : List α} {s t : σ} {step : σ → α → Option σ} {I : σ → Prop}
  {ok : σ → α → Prop}

/-- A run with a first action is that step followed by the rest of the run. -/
lemma exec_cons_eq_some :
    exec step s (a :: as) = some t ↔ ∃ u, step s a = some u ∧ exec step u as = some t := by
  rw [exec_cons, Option.bind_eq_some_iff]

instance decidableAlong (step : σ → α → Option σ) (ok : σ → α → Prop)
    [∀ s a, Decidable (ok s a)] : ∀ s as, Decidable (Along step ok s as)
  | _, [] => inferInstanceAs (Decidable True)
  | s, a :: as =>
    match h : step s a with
    | none => decidable_of_iff (ok s a) (by simp [Along, h])
    | some t =>
      have : Decidable (Along step ok t as) := decidableAlong step ok t as
      decidable_of_iff (ok s a ∧ Along step ok t as) (by simp [Along, h])

/-- **The invariant rule.**  What holds at the start, and is kept by every step
whose state before it meets `ok`, holds in every state a run under `ok` reaches. -/
theorem exec_induct (hstep : ∀ s a t, I s → ok s a → step s a = some t → I t) :
    ∀ {as : List α} {s t : σ}, I s → Along step ok s as → exec step s as = some t → I t := by
  intro as
  induction as with
  | nil =>
    intro s t hs _ hrun
    simp only [exec_nil, Option.some.injEq] at hrun
    exact hrun ▸ hs
  | cons a as ih =>
    intro s t hs hok hrun
    obtain ⟨u, hu, htail⟩ := exec_cons_eq_some.1 hrun
    have hok' : ok s a ∧ Along step ok u as := by simpa [Along, hu] using hok
    exact ih (hstep s a u hs hok'.1 hu) hok'.2 htail

/-- Where a step that meets `ok` is always enabled and keeps the invariant, a whole run is
enabled and keeps it. -/
lemma exec_exists (hstep : ∀ s a, I s → ok s a → ∃ t, step s a = some t ∧ I t) :
    ∀ {s : σ}, I s → Along step ok s as → ∃ t, exec step s as = some t ∧ I t := by
  induction as with
  | nil => exact fun h _ => ⟨_, rfl, h⟩
  | cons a as ih =>
    intro s h hok
    obtain ⟨u, hu, hI⟩ := hstep s a h hok.1
    obtain ⟨t, ht, hend⟩ := ih hI (by simpa [hu] using hok.2)
    exact ⟨t, exec_cons_eq_some.2 ⟨u, hu, ht⟩, hend⟩

lemma Along.of_mem (h : ∀ a ∈ as, ∀ s, ok s a) : ∀ s, Along step ok s as := by
  induction as with
  | nil => exact fun _ => trivial
  | cons a as ih =>
    intro s
    refine ⟨h a List.mem_cons_self s, ?_⟩
    cases step s a with
    | none => trivial
    | some t => exact ih (fun b hb => h b (List.mem_cons_of_mem a hb)) t

lemma Along.of_forall (h : ∀ s a, ok s a) (as : List α) :
    ∀ s, Along step ok s as := Along.of_mem fun a _ s => h s a

/-- The invariant rule for steps that need no condition. -/
lemma exec_invariant (hstep : ∀ s a t, I s → step s a = some t → I t) (hs : I s)
    (hrun : exec step s as = some t) : I t :=
  exec_induct (fun s a t hs _ h => hstep s a t hs h) hs
    (Along.of_forall (fun _ _ => True.intro) as s) hrun

lemma Along.mono {ok' : σ → α → Prop} (h : ∀ s a, ok s a → ok' s a) :
    ∀ {s : σ}, Along step ok s as → Along step ok' s as := by
  induction as with
  | nil => exact fun _ => trivial
  | cons a as ih =>
    intro s hok
    refine ⟨h s a hok.1, ?_⟩
    have htail := hok.2
    cases hs : step s a with
    | none => trivial
    | some t =>
      rw [hs] at htail
      exact ih htail

lemma Along.concat : ∀ {s : σ}, Along step ok s as → (∀ t, exec step s as = some t → ok t a) →
      Along step ok s (as ++ [a]) := by
  induction as with
  | nil =>
    intro s _ ha
    refine ⟨ha s rfl, ?_⟩
    cases step s a <;> trivial
  | cons b as ih =>
    intro s hok ha
    refine ⟨hok.1, ?_⟩
    have htail := hok.2
    cases hs : step s b with
    | none => trivial
    | some t =>
      rw [hs] at htail
      exact ih htail fun u hu => ha u (exec_cons_eq_some.2 ⟨t, hs, hu⟩)

end Transition
