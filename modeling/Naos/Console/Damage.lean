import Mathlib
import Naos.Lib.Transition

/-!
# What the console draws

`consoled` collects what has changed on the screen in one rectangle, and draws that when the
framebuffer is there.  A rectangle that waits for the framebuffer is not cut when the screen
becomes smaller meanwhile.
-/

namespace Naos.Console

open Transition

/-- `VTermRect`: the ends are not in it. -/
structure Rect where
  startRow : ℤ
  endRow : ℤ
  startCol : ℤ
  endCol : ℤ

def Rect.Has (r : Rect) (row col : ℤ) : Prop :=
  r.startRow ≤ row ∧ row < r.endRow ∧ r.startCol ≤ col ∧ col < r.endCol

instance decidableHas (r : Rect) (row col : ℤ) : Decidable (r.Has row col) :=
  inferInstanceAs (Decidable (_ ∧ _))

/-- `renderer`, the framebuffer being there or not, and the cells that have changed since
`render_damage` ran. -/
structure Renderer where
  rows : ℤ
  cols : ℤ
  damaged : Bool := false
  damage : Rect := ⟨0, 0, 0, 0⟩
  enabled : Bool := true
  changed : ℤ → ℤ → Bool := fun _ _ => false

inductive Event where
  /-- `damage_callback`, also for what has scrolled, and each cell of `cursor_callback`. -/
  | damage (r : Rect)
  | disable
  /-- `enable_framebuffer`, and the check that finds a new geometry.  The callbacks of
  `vterm_set_size` and of the flush are events of their own. -/
  | enable (rows cols : ℤ)
  | resize (rows cols : ℤ)
  | render

namespace Renderer

variable (s : Renderer)

def screen : Rect := ⟨0, s.rows, 0, s.cols⟩

def addDamage (r : Rect) : Renderer :=
  let r : Rect := ⟨max 0 r.startRow, min s.rows r.endRow, max 0 r.startCol, min s.cols r.endCol⟩
  if r.endRow ≤ r.startRow ∨ r.endCol ≤ r.startCol then s
  else if s.damaged = false then { s with damage := r, damaged := true }
  else
    { s with damage :=
        ⟨min s.damage.startRow r.startRow, max s.damage.endRow r.endRow,
          min s.damage.startCol r.startCol, max s.damage.endCol r.endCol⟩ }

/-- The cells of a rectangle change, and it is reported. -/
def report (r : Rect) : Renderer :=
  { s.addDamage r with
    changed := fun row col => s.changed row col || decide (r.Has row col ∧ s.screen.Has row col) }

/-- The screen gets its size, and all of it changes. -/
def setSize (rows cols : ℤ) : Renderer := report { s with rows, cols } ⟨0, rows, 0, cols⟩

def renderDamage : Renderer := { s with damaged := false, changed := fun _ _ => false }

def step : Event → Option Renderer
  | .damage r => some (s.report r)
  | .disable => some { s with enabled := false }
  | .enable rows cols => some (if s.enabled then s else { s.setSize rows cols with enabled := true })
  | .resize rows cols => if s.enabled then some (s.setSize rows cols) else none
  | .render => if s.enabled then some s.renderDamage else none

/-- **What `render_damage` finds**: a rectangle on the screen, with all cells that have changed.
It leaves none. -/
structure Drawable : Prop where
  bounded : s.damaged = true → 0 ≤ s.damage.startRow ∧ s.damage.endRow ≤ s.rows ∧
    0 ≤ s.damage.startCol ∧ s.damage.endCol ≤ s.cols
  covered : ∀ row col, s.changed row col = true → s.damaged = true ∧ s.damage.Has row col
  empty : s.renderDamage.damaged = false

/-- What waits to be drawn fits on the screen of the new size. -/
def Fitting : Event → Prop
  | .enable rows cols | .resize rows cols =>
    s.damaged = true → s.damage.endRow ≤ rows ∧ s.damage.endCol ≤ cols
  | _ => True

variable {s}

lemma Drawable.report (h : s.Drawable) (r : Rect) : (s.report r).Drawable where
  bounded := by
    have hb := h.bounded
    simp only [Renderer.report, addDamage]
    split_ifs with hout hnew
    · exact hb
    · intro _
      dsimp only
      omega
    · intro hd
      have := hb hd
      dsimp only
      omega
  covered := by
    intro row col hc
    have hold := h.covered row col
    simp only [Renderer.report, Bool.or_eq_true, decide_eq_true_eq] at hc
    simp only [Renderer.report, addDamage, Rect.Has, screen] at hc hold ⊢
    split_ifs with hout hnew
    · refine hc.elim hold fun hr => ?_
      omega
    · rcases hc with hc | hr
      · exact absurd (hold hc).1 (by simp [hnew])
      · exact ⟨rfl, by dsimp only; omega⟩
    · refine ⟨by simpa using hnew, ?_⟩
      dsimp only
      rcases hc with hc | hr
      · have := (hold hc).2
        omega
      · omega
  empty := rfl

lemma Drawable.setSize (h : s.Drawable) {rows cols : ℤ}
    (hfit : s.damaged = true → s.damage.endRow ≤ rows ∧ s.damage.endCol ≤ cols) :
    (s.setSize rows cols).Drawable := by
  have hsized : Drawable { s with rows, cols } := by
    refine ⟨fun hd => ?_, h.covered, rfl⟩
    obtain ⟨hrow, -, hcol, -⟩ := h.bounded hd
    exact ⟨hrow, (hfit hd).1, hcol, (hfit hd).2⟩
  exact hsized.report _

lemma Drawable.of_enabled (h : s.Drawable) (b : Bool) : Drawable { s with enabled := b } :=
  ⟨h.bounded, h.covered, rfl⟩

lemma drawable_of_clean (hd : s.damaged = false) (hc : s.changed = fun _ _ => false) :
    s.Drawable := ⟨by simp [hd], by simp [hc], rfl⟩

lemma Drawable.step {s' : Renderer} {e : Event} (h : s.Drawable) (hok : s.Fitting e)
    (hstep : s.step e = some s') : s'.Drawable := by
  cases e with
  | damage r =>
    cases hstep
    exact h.report r
  | disable =>
    cases hstep
    exact h.of_enabled false
  | enable rows cols =>
    cases hstep
    split
    · exact h
    · exact (h.setSize hok).of_enabled true
  | resize rows cols =>
    obtain ⟨-, hstep⟩ := Option.ite_none_right_eq_some.1 hstep
    cases hstep
    exact h.setSize hok
  | render =>
    obtain ⟨-, hstep⟩ := Option.ite_none_right_eq_some.1 hstep
    cases hstep
    exact drawable_of_clean rfl rfl

/-- **The console draws what has changed and nothing outside the screen**, in every run in which
what waits to be drawn fits on the screen whenever its size is set. -/
theorem drawable_of_fitting {rows cols : ℤ} {es : List Event}
    (hok : Along step Fitting { rows, cols } es) (hrun : exec step { rows, cols } es = some s) :
    s.Drawable :=
  exec_induct (fun _ _ _ h hok hstep => h.step hok hstep) (drawable_of_clean rfl rfl) hok hrun

theorem drawable_of_fitting_grown : ∃ s, exec step { rows := 25, cols := 80 }
      [.disable, .damage ⟨24, 25, 0, 80⟩, .enable 50 100] = some s ∧ s.Drawable :=
  ⟨_, rfl, @drawable_of_fitting _ _ _ [.disable, .damage ⟨24, 25, 0, 80⟩, .enable 50 100]
    ⟨trivial, trivial, fun _ => by decide, trivial⟩ rfl⟩

/-- **Damage of a larger screen**: the last row changes while the framebuffer is away, and it
comes back with half of the rows. -/
theorem not_drawable_shrunk : ∃ s, exec step { rows := 50, cols := 100 }
      [.disable, .damage ⟨49, 50, 0, 8⟩, .enable 25 100] = some s ∧ ¬ s.Drawable :=
  ⟨_, rfl, fun h => absurd (h.bounded rfl) (by decide)⟩

end Renderer

end Naos.Console
