import Mathlib

/-!
# Programs that may stop

A program that may stop early is a value of `Except ε α`.  `Ensures E x Q` says what such a
program does as a whole: it returns only results with `Q`, and it stops only with an error
of `E`.  A specification of this form covers both outcomes at once, so that a program built
from specified parts is specified by the rules below, and no part is unfolded again.

`Refines x y` compares two such programs: the second one may stop less often, and otherwise
returns what the first one returns.
-/

namespace Outcome

universe u v

variable {ε : Type u} {α β : Type v} {E : ε → Prop}

lemma ok_bind (a : α) (f : α → Except ε β) : (.ok a >>= f) = f a := rfl

variable {x : Except ε α}

lemma bind_eq_ok {f : α → Except ε β} {b : β} :
    (x >>= f) = .ok b ↔ ∃ a, x = .ok a ∧ f a = .ok b := by
  cases x with
  | error e =>
    constructor
    · intro h
      cases h
    · rintro ⟨a, h, -⟩
      cases h
  | ok a => simp [ok_bind]

lemma toOption_eq_some {a : α} : x.toOption = some a ↔ x = .ok a := by
  cases x <;> simp [Except.toOption]

/-- The program returns only results with `Q` and stops only with an error of `E`. -/
inductive Ensures (E : ε → Prop) : Except ε α → (α → Prop) → Prop
  | ok {a : α} {Q : α → Prop} (h : Q a) : Ensures E (.ok a) Q
  | error {e : ε} {Q : α → Prop} (h : E e) : Ensures E (.error e) Q

namespace Ensures

variable {P Q : α → Prop} {x : Except ε α}

lemma bind {f : α → Except ε β} {Q : β → Prop} (hx : Ensures E x P)
    (hf : ∀ a, P a → Ensures E (f a) Q) : Ensures E (x >>= f) Q := by
  cases hx with
  | error h => exact .error h
  | ok h => exact hf _ h

/-- The rule of consequence. -/
lemma mono {E' : ε → Prop} (hx : Ensures E x P) (hE : ∀ e, E e → E' e) (hQ : ∀ a, P a → Q a) :
    Ensures E' x Q := by
  cases hx with
  | error h => exact .error (hE _ h)
  | ok h => exact .ok (hQ _ h)

/-- What holds of the results, read off at one result. -/
lemma of_ok (hx : Ensures E x Q) {a : α} (h : x = .ok a) :
    Q a := by
  subst h
  cases hx with
  | ok h => exact h

lemma of_error (hx : Ensures E x Q) {e : ε} (h : x = .error e) : E e := by
  subst h
  cases hx with
  | error h => exact h

end Ensures

/-- Whatever the first program returns, the second one returns. -/
def Refines (x y : Except ε α) : Prop := ∀ a, x = .ok a → y = .ok a

namespace Refines

lemma refl (x : Except ε α) : Refines x x := fun _ h => h

lemma error (e : ε) (y : Except ε α) : Refines (.error e) y := nofun

lemma bind {x y : Except ε α} {f g : α → Except ε β} (hxy : Refines x y)
    (hfg : ∀ a, Refines (f a) (g a)) : Refines (x >>= f) (y >>= g) := by
  intro b hb
  cases hx : x with
  | error e =>
    rw [hx] at hb
    cases hb
  | ok a =>
    rw [hx] at hb
    rw [hxy a hx]
    exact hfg a b hb

end Refines

end Outcome
