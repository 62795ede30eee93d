import Keynjector.Lib.Runs
import Keynjector.Ui.Screen
/-
# Scrolling and selecting (ui.c:1071-1087, 1245-1331, 2162-2183)

The seven functions that change `origin`, `n_items` or `selected_item`. Three of them clamp
the origin; `lbx_set_items` does not, and leaves the selection as it was too.

| here | there |
| --- | --- |
| `KeyBox`, `LbxCall` | `key_lbx` with `capturing_control == c`; the seven functions |
| `maxOrigin`         | `max_origin` of `lbx_mouse_move` and `key_down_click` |
| `InRange`           | the origin inside the list, the selection one of its items |
| `Fits`              | a new list that has room for the old origin and selection |
-/

namespace Keynjector.Ui

open Runs

/-- `key_lbx`, and whether it captures the mouse. -/
structure KeyBox where
  lbx : Lbx
  captured : Bool

def KeyBox.boot : KeyBox := ⟨Ui.keyLbx, false⟩

inductive LbxCall where
  | setItems (items : List UInt8)
  | mouseDown (y : Int)
  | mouseMove (y : Int)
  | mouseUp
  | timerTick
  | keyUpClick
  | keyDownClick

def KeyBox.step (b : KeyBox) : LbxCall → KeyBox
  | .setItems items => { b with lbx := (lbxSetItems b.lbx items).1 }
  | .mouseDown y => ⟨lbxMouseDown b.lbx y, true⟩
  | .mouseMove y => if b.captured then { b with lbx := lbxMouseMove b.lbx y } else b
  | .mouseUp => if b.captured then ⟨lbxMouseUp b.lbx, false⟩ else b
  | .timerTick => { b with lbx := (lbxTimerTick b.lbx).1 }
  | .keyUpClick => { b with lbx := Ui.keyUpClick b.lbx }
  | .keyDownClick => { b with lbx := Ui.keyDownClick b.lbx }

/-- `max_origin` for a list of `n` items. -/
def maxOrigin (lc : Lbx) (n : Int) : Int := (n - (lc.height.tdiv lbxItemHeight - 2)) * lbxItemHeight

structure InRange (lc : Lbx) : Prop where
  nonneg : 0 ≤ lc.origin
  origin_le : lc.origin ≤ max 0 (maxOrigin lc lc.nItems)
  selected : lc.selectedItem = -1 ∨ 0 ≤ lc.selectedItem ∧ lc.selectedItem < lc.nItems

/-- A new list is as long as the scroll position and the selection need it. -/
def Fits (b : KeyBox) : LbxCall → Prop
  | .setItems items => b.lbx.origin ≤ max 0 (maxOrigin b.lbx (max 0 (validateLbxItems items))) ∧
      (b.lbx.selectedItem = -1 ∨ b.lbx.selectedItem < max 0 (validateLbxItems items))
  | _ => True

/-! ## Each function -/

section

variable {lc : Lbx}

theorem lbxSetItems_nItems (lc : Lbx) (items : List UInt8) :
    (lbxSetItems lc items).1.nItems = max 0 (validateLbxItems items) := by
  unfold lbxSetItems
  split_ifs with hv
  · exact (Int.max_eq_right hv).symm
  · exact (Int.max_eq_left (Int.le_of_lt (Int.not_le.1 hv))).symm

theorem lbxSetItems_rest (lc : Lbx) (items : List UInt8) : (lbxSetItems lc items).1.origin = lc.origin ∧
    (lbxSetItems lc items).1.selectedItem = lc.selectedItem ∧ (lbxSetItems lc items).1.height = lc.height := by
  unfold lbxSetItems
  split_ifs <;> exact ⟨rfl, rfl, rfl⟩

/-- A new list keeps the box in range exactly if it fits. -/
theorem setItems_inRange (h : InRange lc) (items : List UInt8) :
    InRange (lbxSetItems lc items).1 ↔ lc.origin ≤ max 0 (maxOrigin lc (max 0 (validateLbxItems items))) ∧
      (lc.selectedItem = -1 ∨ lc.selectedItem < max 0 (validateLbxItems items)) := by
  obtain ⟨horigin, hselected, hheight⟩ := lbxSetItems_rest lc items
  have hn := lbxSetItems_nItems lc items
  have hmax : maxOrigin (lbxSetItems lc items).1 (lbxSetItems lc items).1.nItems =
      maxOrigin lc (max 0 (validateLbxItems items)) := by rw [maxOrigin, hheight, hn, maxOrigin]
  constructor
  · rintro ⟨-, hle, hsel⟩
    rw [hmax, horigin] at hle
    rw [hselected, hn] at hsel
    exact ⟨hle, hsel.imp id And.right⟩
  · rintro ⟨hle, hsel⟩
    refine ⟨by rw [horigin]; exact h.nonneg, by rw [hmax, horigin]; exact hle, ?_⟩
    rw [hselected, hn]
    rcases h.selected with hnone | ⟨hpos, -⟩
    · exact .inl hnone
    · exact hsel.imp id fun hlt => ⟨hpos, hlt⟩

theorem InRange.mouseDown (h : InRange lc) (y : Int) : InRange (lbxMouseDown lc y) := by
  obtain ⟨hnonneg, hle, -⟩ := h
  simp only [lbxMouseDown]
  split_ifs with hout
  · exact ⟨hnonneg, hle, .inl rfl⟩
  · rw [not_or, Int.not_lt, Int.not_le] at hout
    exact ⟨hnonneg, hle, .inr ⟨Int.tdiv_nonneg hout.1 (by decide), hout.2⟩⟩

theorem InRange.mouseUp (h : InRange lc) : InRange (lbxMouseUp lc) := ⟨h.nonneg, h.origin_le, .inl rfl⟩

theorem InRange.timerTick (h : InRange lc) : InRange (lbxTimerTick lc).1 := by
  obtain ⟨hnonneg, hle, hsel⟩ := h
  simp only [lbxTimerTick]
  split_ifs
  · exact ⟨hnonneg, hle, .inl rfl⟩
  · exact ⟨hnonneg, hle, hsel⟩
  · exact ⟨hnonneg, hle, hsel⟩

theorem InRange.mouseMove (h : InRange lc) (y : Int) : InRange (lbxMouseMove lc y) := by
  obtain ⟨hnonneg, hle, hsel⟩ := h
  have hrest : (lbxMouseMove lc y).nItems = lc.nItems ∧ (lbxMouseMove lc y).height = lc.height := by
    simp only [lbxMouseMove]
    split_ifs <;> exact ⟨rfl, rfl⟩
  have hsel' : (lbxMouseMove lc y).selectedItem = -1 ∨ (lbxMouseMove lc y).selectedItem = lc.selectedItem := by
    simp only [lbxMouseMove]
    split_ifs <;> simp
  have horigin : 0 ≤ (lbxMouseMove lc y).origin ∧ (lbxMouseMove lc y).origin ≤ max 0 (maxOrigin lc lc.nItems) := by
    rw [maxOrigin] at hle ⊢
    by_cases hfar : ABS (y - lc.mouseDownY) > lbxItemHeight.tdiv 2
    · simp only [lbxMouseMove, if_pos hfar, apply_ite Lbx.origin]
      split_ifs <;> omega
    · simp only [lbxMouseMove, if_neg hfar, apply_ite Lbx.origin]
      split_ifs <;> omega
  refine ⟨horigin.1, ?_, ?_⟩
  · rw [maxOrigin, hrest.1, hrest.2]
    exact horigin.2
  · rw [hrest.1]
    exact hsel'.elim .inl fun heq => heq ▸ hsel

theorem InRange.keyUpClick (h : InRange lc) (hheight : lbxItemHeight ≤ lc.height) : InRange (Ui.keyUpClick lc) := by
  obtain ⟨hnonneg, hle, hsel⟩ := h
  refine ⟨?_, ?_, hsel⟩ <;> simp only [Ui.keyUpClick, maxOrigin] at hle ⊢ <;> split_ifs <;> omega

theorem InRange.keyDownClick (h : InRange lc) (hheight : lbxItemHeight ≤ lc.height) : InRange (Ui.keyDownClick lc) := by
  obtain ⟨hnonneg, hle, hsel⟩ := h
  refine ⟨?_, ?_, hsel⟩ <;> simp only [Ui.keyDownClick, maxOrigin] at hle ⊢ <;> split_ifs <;> omega

end

/-! ## Runs -/

theorem height_step (b : KeyBox) (c : LbxCall) : (b.step c).lbx.height = b.lbx.height := by
  cases c with
  | setItems items => exact (lbxSetItems_rest b.lbx items).2.2
  | mouseDown y =>
    simp only [KeyBox.step, lbxMouseDown]
    split_ifs <;> rfl
  | mouseMove y =>
    simp only [KeyBox.step, lbxMouseMove]
    split_ifs <;> rfl
  | mouseUp =>
    simp only [KeyBox.step]
    split_ifs <;> rfl
  | timerTick =>
    simp only [KeyBox.step, lbxTimerTick]
    split_ifs <;> rfl
  | keyUpClick => rfl
  | keyDownClick => rfl

/-- **One call** keeps the box in range, unless it is a new list that does not fit. -/
theorem step_inRange {b : KeyBox} (h : InRange b.lbx) (hheight : lbxItemHeight ≤ b.lbx.height) (c : LbxCall) :
    InRange (b.step c).lbx ↔ Fits b c := by
  cases c with
  | setItems items => exact setItems_inRange h items
  | mouseDown y => exact iff_of_true (h.mouseDown y) trivial
  | mouseMove y =>
    refine iff_of_true ?_ trivial
    simp only [KeyBox.step]
    split_ifs
    · exact h.mouseMove y
    · exact h
  | mouseUp =>
    refine iff_of_true ?_ trivial
    simp only [KeyBox.step]
    split_ifs
    · exact h.mouseUp
    · exact h
  | timerTick => exact iff_of_true h.timerTick trivial
  | keyUpClick => exact iff_of_true (h.keyUpClick hheight) trivial
  | keyDownClick => exact iff_of_true (h.keyDownClick hheight) trivial

/-- **The list box stays in range** over a run exactly if each new list fits the scroll position and the selection it
finds. -/
theorem keyLbx_inRange_iff (cs : List LbxCall) :
    (∀ p, p <+: cs → InRange (run KeyBox.step .boot p).lbx) ↔ Guarded KeyBox.step Fits .boot cs := by
  refine Guarded.exact (fun b : KeyBox => InRange b.lbx ∧ lbxItemHeight ≤ b.lbx.height) (fun b => InRange b.lbx)
    (fun b hb => hb.1) (fun b c hb hfits => ⟨(step_inRange hb.1 hb.2 c).2 hfits, ?_⟩)
    (fun b c hb hgood => (step_inRange hb.1 hb.2 c).1 hgood) ⟨⟨by decide, by decide, .inl rfl⟩, by decide⟩
  rw [height_step]
  exact hb.2

/-- Twelve entries, scrolled to their end, and then a list of two. -/
def shorterList : List LbxCall :=
  [.setItems (List.replicate 12 "a\tA\n".toUTF8.toList).flatten, .keyDownClick, .setItems sampleItems]

/-- The two are out of sight: the box stays 180 rows below their start. -/
theorem keyLbx_out_of_range : (run KeyBox.step .boot shorterList).lbx.nItems = 2 ∧
    (run KeyBox.step .boot shorterList).lbx.origin = 180 ∧ ¬ InRange (run KeyBox.step .boot shorterList).lbx := by
  have hn : (run KeyBox.step .boot shorterList).lbx.nItems = 2 := by decide +kernel
  have horigin : (run KeyBox.step .boot shorterList).lbx.origin = 180 := by decide +kernel
  have hheight : (run KeyBox.step .boot shorterList).lbx.height = 250 := by decide +kernel
  refine ⟨hn, horigin, fun h => ?_⟩
  have hle := h.origin_le
  rw [horigin, maxOrigin, hn, hheight] at hle
  exact absurd hle (by decide)

end Keynjector.Ui
