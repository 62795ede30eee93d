import Mathlib.Data.List.Basic
/-
# Tilings of an interval

A list of bands `(start, height)` tiles `[a, b)` when each band is nonempty and
starts where the one before it ends. Every point of the interval then lies in
exactly one band.
-/

namespace Keynjector.Tiling

def Covers (y : Int) (band : Int × Int) : Prop := band.1 ≤ y ∧ y < band.1 + band.2

instance (y : Int) (band : Int × Int) : Decidable (Covers y band) :=
  inferInstanceAs (Decidable (band.1 ≤ y ∧ y < band.1 + band.2))

/-- The bands cut `[a, b)` into consecutive nonempty pieces. -/
def Tiles (a b : Int) : List (Int × Int) → Prop
  | [] => a = b
  | band :: bands => band.1 = a ∧ 0 < band.2 ∧ Tiles (a + band.2) b bands

variable {a b c : Int} {l l' : List (Int × Int)}

theorem Tiles.single (h : a < b) : Tiles a b [(a, b - a)] :=
  ⟨rfl, Int.sub_pos_of_lt h, show a + (b - a) = b by omega⟩

theorem Tiles.le (h : Tiles a b l) : a ≤ b := by
  induction l generalizing a with
  | nil => exact Int.le_of_eq h
  | cons band bands ih =>
    obtain ⟨_, hpos, ht⟩ := h
    have := ih ht
    omega

theorem Tiles.append (h : Tiles a b l) (h' : Tiles b c l') : Tiles a c (l ++ l') := by
  induction l generalizing a with
  | nil =>
    obtain rfl : a = b := h
    exact h'
  | cons band bands ih => exact ⟨h.1, h.2.1, ih h.2.2⟩

/-- Bands lie inside the interval they tile. -/
theorem Tiles.mem (h : Tiles a b l) {band : Int × Int} (hm : band ∈ l) :
    a ≤ band.1 ∧ 0 < band.2 ∧ band.1 + band.2 ≤ b := by
  induction l generalizing a with
  | nil => cases hm
  | cons c bands ih =>
    obtain ⟨hs, hpos, ht⟩ := h
    have hle := ht.le
    rcases List.mem_cons.1 hm with rfl | hm
    · omega
    · have := ih ht hm
      omega

theorem Tiles.count_outside (h : Tiles a b l) {y : Int} (hy : y < a) : l.countP (Covers y ·) = 0 := by
  refine List.countP_eq_zero.2 fun band hm hc => ?_
  have := h.mem hm
  obtain ⟨h1, _⟩ : Covers y band := by simpa using hc
  omega

/-- **Exactly one band covers each point.** -/
theorem Tiles.count_eq_one (h : Tiles a b l) {y : Int} (ha : a ≤ y) (hb : y < b) : l.countP (Covers y ·) = 1 := by
  induction l generalizing a with
  | nil =>
    obtain rfl : a = b := h
    omega
  | cons band bands ih =>
    obtain ⟨hs, hpos, ht⟩ := h
    by_cases hy : y < a + band.2
    · have hc : Covers y band := ⟨by omega, by omega⟩
      rw [List.countP_cons_of_pos (by simpa using hc), ht.count_outside hy]
    · have hc : ¬ Covers y band := fun hc => by
        have := hc.2
        omega
      rw [List.countP_cons_of_neg (by simpa using hc)]
      exact ih ht (by omega)

end Keynjector.Tiling
