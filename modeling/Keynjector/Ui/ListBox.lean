import Keynjector.Ui.Items
import Keynjector.Ui.Text
/-
# The list box (ui.c:1052-1350)

| here | there |
| --- | --- |
| `Lbx`                       | `lbx_control_t` (`:801-821`), less the callbacks `key_lbx` fixes |
| `lbxSetItems`, `lbxLimitY`  | `lbx_set_items`, `lbx_limit_y` |
| `fillAlpha`, `renderRow`    | one turn of the row loop of `lbx_render` |
| `renderFrom`, `lbxRender`   | the loop, `lbx_render` |
| `lbxMouseDown` … `lbxTimerTick` | `lbx_mouse_down`, `lbx_mouse_up`, `lbx_mouse_move`, `lbx_timer_tick` |
| `lbxLongPress`              | `lbx_long_press` |

`int` is `Int`, with the division of C. Rendering is the list of rows, each with the
drawing calls made for it; an access outside the alpha array is `none`.
-/

namespace Keynjector.Ui

/-- `LBX_PAD`. -/
def lbxPad : Int := 5

/-- `LBX_ITEM_HEIGHT`. -/
def lbxItemHeight : Int := 2 * lbxPad + fontHeight

/-- `LBX_BUF_LEN`. -/
def lbxBufLen : Nat := 1024

/-- `LONG_PRESS_TICKS` (`ui.c:37`). -/
def longPressTicks : Int := 20

/-- `key_lbx.click` is `NULL` and `key_lbx.long_press` is `lbx_long_press` throughout. -/
structure Lbx where
  x : Int
  y : Int
  width : Int
  height : Int
  items : Option (List UInt8)
  nItems : Int
  origin : Int
  mouseDownY : Int
  mouseDownOrigin : Int
  selectedItem : Int
  longPressTimer : Int
  alpha : Int
deriving DecidableEq, Repr

/-- The initial `key_lbx` (`ui.c:1638`): `KEY_TOP_PAD` is 10 and `KEY_LBX_HEIGHT` 250. -/
def keyLbx : Lbx :=
  { x := 0, y := 10, width := 240, height := 250, items := none, nItems := 0, origin := 0, mouseDownY := 0,
    mouseDownOrigin := 0, selectedItem := -1, longPressTimer := 0, alpha := 0 }

/-- `lbx_set_items`: the flag tells whether the items were accepted. -/
def lbxSetItems (lc : Lbx) (items : List UInt8) : Lbx × Bool :=
  if validateLbxItems items ≥ 0 then ({ lc with items := some items, nItems := validateLbxItems items }, true)
  else ({ lc with items := none, nItems := 0 }, false)

/-- Two entries in the firmware's own list box. -/
def sampleItems : List UInt8 := "bank\tXy1\nmail\tpW2".toUTF8.toList

def sampleLbx : Lbx := { keyLbx with items := some sampleItems, nItems := 2 }

example : lbxSetItems keyLbx sampleItems = (sampleLbx, true) := by decide +kernel

/-- What `lbx_set_items` accepts is a list of entries, and `n_items` counts them. -/
theorem lbxSetItems_accepts {lc₀ lc : Lbx} {items : List UInt8} (h : lbxSetItems lc₀ items = (lc, true)) :
    ∃ es, Items es items ∧ lc = { lc₀ with items := some items, nItems := es.length } := by
  unfold lbxSetItems at h
  split_ifs at h with hv
  · obtain ⟨rfl, -⟩ := Prod.mk.inj h
    have hn : validateLbxItems items = (validateLbxItems items).toNat := by omega
    obtain ⟨es, hes, hlen⟩ := (validateLbxItems_iff items _).1 hn
    exact ⟨es, hes, by rw [hlen, ← hn]⟩
  · exact absurd (Prod.mk.inj h).2 (by decide)

/-! ## Rendering -/

def lbxLimitY (lc : Lbx) (y : Int) : Int :=
  if y < lc.y then lc.y else if y ≥ lc.y + lc.height then lc.y + lc.height else y

/-- A call of `draw_background` or `draw_text`. -/
inductive DrawOp where
  | background (x y width height : Int)
  | text (s : List UInt8) (x y yStart width height : Int) (pen : Pen)
deriving DecidableEq, Repr

/-- Turn `i` of the row loop: the row starts at screen row `y`. -/
structure Row where
  item : Int
  y : Int
  ops : List DrawOp
deriving DecidableEq, Repr

/-- The alpha of screen row `j`, fading out towards the top and the bottom. -/
def rowAlpha (lc : Lbx) (j : Int) : UInt8 :=
  let dy := j - lc.y
  let yStop := lc.y + lc.height
  let a : UInt8 :=
    if dy < 32 then UInt8.ofInt (dy * 8)
    else if yStop - j < 32 then UInt8.ofInt ((yStop - j) * 8)
    else 0xFF
  UInt8.ofInt (a.toNat * lc.alpha / 256)

/-- The loop filling `alpha[k]`, `k` starting at the length of `alpha`, for `n` rows from
`j` on. The list is the part of the `FONT_HEIGHT` elements written so far. -/
def fillAlpha (lc : Lbx) : Nat → Int → List UInt8 → Option (List UInt8)
  | 0, _, alpha => some alpha
  | n + 1, j, alpha =>
    if (alpha.length : Int) < fontHeight then fillAlpha lc n (j + 1) (alpha ++ [rowAlpha lc j]) else none

/-- Background between two screen rows, if there is any. -/
def backgroundBand (lc : Lbx) (y1 y2 : Int) : List DrawOp :=
  if y2 - y1 > 0 then [.background lc.x y1 lc.width (y2 - y1)] else []

/-- The text of a row, from `y2` to `y3` on screen; `y1` is where its font line starts. -/
def textBand (lc : Lbx) (i : Int) (s : List UInt8) (y1 y2 y3 : Int) : Option (List DrawOp) := do
  let h := y3 - y2
  if h > 0 then
    if 0 ≤ i ∧ i < lc.nItems then
      let offset := y2 - y1
      let buf := lbxGetKeyText s lbxBufLen
      let alpha ← fillAlpha lc h.toNat y2 []
      let pen : Pen := ⟨alpha, true, i = lc.selectedItem⟩
      let _ ← drawText buf lc.x y2 offset lc.width h pen
      some [.text buf lc.x y2 offset lc.width h pen]
    else some [.background lc.x y2 lc.width h]
  else some []

/-- Top pad, text and bottom pad of one row. -/
def renderRow (lc : Lbx) (y i : Int) (s : List UInt8) : Option Row := do
  let y2 := lbxLimitY lc (y + lbxPad)
  let y3 := lbxLimitY lc (y + lbxPad + fontHeight)
  let text ← textBand lc i s (y + lbxPad) y2 y3
  some ⟨i, y, backgroundBand lc (lbxLimitY lc y) y2 ++ text ++
    backgroundBand lc y3 (lbxLimitY lc (y + lbxItemHeight))⟩

/-- The row loop from `y` on. -/
def renderFrom (lc : Lbx) (y i : Int) (s : List UInt8) : Option (List Row) := do
  if y < lc.y + lc.height then
    let row ← renderRow lc y i s
    let rows ← renderFrom lc (y + lbxItemHeight) (i + 1) (if i ≥ 0 then lbxAdvanceEntry s else s)
    some (row :: rows)
  else some []
termination_by (lc.y + lc.height - y).toNat
decreasing_by simp only [lbxItemHeight, lbxPad, fontHeight]; omega

/-- `lbx_render`. -/
def lbxRender (lc : Lbx) : Option (List Row) :=
  let i := lc.origin.tdiv lbxItemHeight - 1
  renderFrom lc (lc.y - lc.origin.tmod lbxItemHeight) i (lbxSkip (lc.items.getD []) i.toNat)

/-! ## Mouse and timer -/

/-- `lbx_mouse_down`; capturing the mouse is left to the view. -/
def lbxMouseDown (lc : Lbx) (y : Int) : Lbx :=
  let selectedY := y - lc.y - lbxItemHeight + lc.origin
  let selectedItem := selectedY.tdiv lbxItemHeight
  let lc := { lc with mouseDownY := y, mouseDownOrigin := lc.origin }
  if selectedY < 0 ∨ selectedItem ≥ lc.nItems then { lc with selectedItem := -1 }
  else { lc with selectedItem := selectedItem, longPressTimer := longPressTicks }

/-- `lbx_mouse_up`, once the list box has been capturing. -/
def lbxMouseUp (lc : Lbx) : Lbx := { lc with selectedItem := -1, longPressTimer := 0 }

def ABS (x : Int) : Int := if x > 0 then x else -x

/-- `lbx_mouse_move`, while the list box is capturing. -/
def lbxMouseMove (lc : Lbx) (y : Int) : Lbx :=
  let dy := y - lc.mouseDownY
  let lc := if ABS dy > lbxItemHeight.tdiv 2 then { lc with selectedItem := -1 } else lc
  if dy ≠ 0 then
    let origin := lc.mouseDownOrigin - dy
    let maxOrigin := (lc.nItems - (lc.height.tdiv lbxItemHeight - 2)) * lbxItemHeight
    let origin := if origin > maxOrigin then maxOrigin else origin
    let origin := if origin < 0 then 0 else origin
    { lc with origin := origin }
  else lc

/-- `lbx_long_press`: the string passed to `lcd_item_long_press`. -/
def lbxLongPress (lc : Lbx) : List UInt8 :=
  let s := lbxSkip (lc.items.getD []) lc.selectedItem.toNat
  let s := s.drop (countLbxKeyChars s)
  let s := s.drop (countLbxKeyValueDelimiterChars s)
  lbxGetValueText s lbxBufLen

/-- `lbx_timer_tick`, with the string of a long press that completes. -/
def lbxTimerTick (lc : Lbx) : Lbx × Option (List UInt8) :=
  if lc.selectedItem ≠ -1 ∧ lc.longPressTimer > 0 then
    let lc := { lc with longPressTimer := lc.longPressTimer - 1 }
    if lc.longPressTimer = 0 then ({ lc with selectedItem := -1 }, some (lbxLongPress lc))
    else (lc, none)
  else (lc, none)

end Keynjector.Ui
