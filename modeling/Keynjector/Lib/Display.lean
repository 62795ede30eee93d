import Mathlib.Data.List.Basic
/-
# A display written through address windows

`select` opens a window; each `write` sets its next pixel, row by row from the top left.
Nothing tells the display where a row ends, so a trace has to fill each window exactly:
one pixel too many or too few shifts everything after it.
-/

namespace Keynjector.Display

universe u

variable {κ : Type u}

inductive Draw (κ : Type u) where
  | select (x0 y0 x1 y1 : Int)
  | write (c : κ)
deriving DecidableEq, Repr

def Draw.isWrite : Draw κ → Bool
  | .select .. => false
  | .write _ => true

/-- The pixels of a window, both corners included. -/
def area (x0 y0 x1 y1 : Int) : Nat := (x1 - x0 + 1).toNat * (y1 - y0 + 1).toNat

/-- The writes before the next `select`. -/
def burst (t : List (Draw κ)) : Nat := (t.takeWhile Draw.isWrite).length

/-- After each `select`, and before the next, come as many writes as its window has pixels. -/
def Filled : List (Draw κ) → Prop
  | [] => True
  | .select x0 y0 x1 y1 :: t => burst t = area x0 y0 x1 y1 ∧ Filled t
  | .write _ :: t => Filled t

/-- The windows of a trace. -/
def selects : List (Draw κ) → List (Int × Int × Int × Int)
  | [] => []
  | .select x0 y0 x1 y1 :: t => (x0, y0, x1, y1) :: selects t
  | .write _ :: t => selects t

/-- A window and the pixels written to it. -/
def window (x0 y0 x1 y1 : Int) (pixels : List κ) : List (Draw κ) := .select x0 y0 x1 y1 :: pixels.map .write

section

variable {t u : List (Draw κ)} {x0 y0 x1 y1 : Int} {pixels : List κ}

theorem area_window (x y w h : Int) : area x y (x + w - 1) (y + h - 1) = w.toNat * h.toNat := by
  rw [area, show x + w - 1 - x + 1 = w by omega, show y + h - 1 - y + 1 = h by omega]

@[simp] theorem burst_window : burst (window x0 y0 x1 y1 pixels ++ t) = 0 := rfl

theorem burst_writes (pixels : List κ) (t : List (Draw κ)) :
    burst (pixels.map .write ++ t) = pixels.length + burst t := by
  induction pixels with
  | nil => exact (Nat.zero_add _).symm
  | cons c pixels ih =>
    simp only [burst, List.map_cons, List.cons_append, List.takeWhile_cons, Draw.isWrite, if_true,
      List.length_cons] at ih ⊢
    omega

theorem Filled.writes (h : Filled t) (pixels : List κ) : Filled (pixels.map .write ++ t) := by
  induction pixels with
  | nil => exact h
  | cons c pixels ih => exact ih

theorem window_inj {pixels' : List κ} (h : window x0 y0 x1 y1 pixels = window x0 y0 x1 y1 pixels') :
    pixels = pixels' :=
  (List.map_inj_right fun _ _ => Draw.write.inj).1 (List.cons.inj h).2

/-- **A window before a filled trace** that starts with a window of its own, or is over. -/
theorem Filled.window (h : Filled t) (ht : burst t = 0) (hp : pixels.length = area x0 y0 x1 y1) :
    Filled (window x0 y0 x1 y1 pixels ++ t) := by
  have hburst : burst (pixels.map .write ++ t) = area x0 y0 x1 y1 := by rw [burst_writes, ht, hp, Nat.add_zero]
  exact ⟨hburst, h.writes pixels⟩

@[simp] theorem selects_append : selects (t ++ u) = selects t ++ selects u := by
  induction t with
  | nil => rfl
  | cons c t ih => cases c <;> simp only [List.cons_append, selects, ih]

@[simp] theorem selects_window : selects (window x0 y0 x1 y1 pixels) = [(x0, y0, x1, y1)] := by
  have key : selects (pixels.map (Draw.write (κ := κ))) = [] := by
    induction pixels with
    | nil => rfl
    | cons c pixels ih => exact ih
  rw [window, selects, key]

end

end Keynjector.Display
