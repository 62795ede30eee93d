import Keynjector.Ui.ListBox
/-
# Controls and views (ui.c:714-830, 1352-1655)

| here | there |
| --- | --- |
| `View`                    | `VIEW_NONE` to `VIEW_KEY` (`ui.h:40-46`) |
| `PassCtl`, `PinCtl`, `KeyCtl` | the controls of the three views that have mouse callbacks |
| `passControls`, `pinControls`, `keyControls` | the control arrays of `pass_view`, `pin_view`, `key_view` with their rectangles |
| `Panel`                   | `capturing_control` of a view and `inverted` of its buttons |
| `findControl`, `getReceiver` | `find_control`, `get_receiver` |
| `btnMouseDown`, `btnMouseUp`, `btnMouseMove` | `btn_mouse_down`, `btn_mouse_up`, `btn_mouse_move` |

A control without mouse callbacks is `none`: it takes the event and does nothing. The
controls of the other three views are all of this kind.
-/

namespace Keynjector.Ui

inductive View where
  | none | logo | calib | title | pass | pin | key
deriving DecidableEq, Repr

structure Rect where
  x : Int
  y : Int
  width : Int
  height : Int
deriving DecidableEq, Repr

/-- The test of `find_control` and `btn_mouse_move`. -/
def Rect.contains (r : Rect) (x y : Int) : Bool :=
  0 ≤ x - r.x ∧ 0 ≤ y - r.y ∧ x - r.x < r.width ∧ y - r.y < r.height

def lcdWidth : Int := 240
def lcdHeight : Int := 320

/-! ## The passphrase view -/

inductive PassCtl where
  | up | down | back | fwd | ok
deriving DecidableEq, Repr

def passBtnHeight : Int := 45
def passBtnWidth : Int := 60
def passBtnPad : Int := 5
def passBtnCenterRow : Int := 170
def passRow1 : Int := passBtnCenterRow - passBtnHeight - passBtnPad / 2
def passRow2 : Int := passBtnCenterRow - passBtnHeight / 2
def passRow3 : Int := passRow1 + passBtnHeight + passBtnPad
def passRow4 : Int := passRow3 + passBtnHeight + passBtnPad
def passCol2 : Int := (lcdWidth - passBtnWidth) / 2
def passCol1 : Int := passCol2 - passBtnPad - passBtnWidth
def passCol3 : Int := passCol2 + passBtnPad + passBtnWidth

def passControls : List (Option PassCtl × Rect) :=
  [(none, ⟨0, 0, lcdWidth, 20⟩), (none, ⟨0, 20, lcdWidth, 20⟩), (none, ⟨0, 40, lcdWidth, 5⟩),
   (none, ⟨0, 45, lcdWidth, 20⟩), (none, ⟨0, 65, lcdWidth, passRow1 - 65⟩),
   (some .up, ⟨passCol2, passRow1, passBtnWidth, passBtnHeight⟩),
   (some .down, ⟨passCol2, passRow3, passBtnWidth, passBtnHeight⟩),
   (none, ⟨passCol2 - passBtnPad, passRow2, passBtnPad, passBtnHeight⟩),
   (none, ⟨passCol3 - passBtnPad, passRow1, passBtnPad, passRow3 + passBtnHeight - passRow1⟩),
   (none, ⟨passCol2, passRow3 - passBtnPad, passBtnWidth, passBtnPad⟩),
   (none, ⟨0, passRow1, passCol2, passRow2 - passRow1⟩),
   (none, ⟨passCol2 + passBtnWidth, passRow1, lcdWidth - passCol2 - passBtnWidth, passRow2 - passRow1⟩),
   (none, ⟨0, passRow2, passCol1, passBtnHeight⟩),
   (none, ⟨passCol3 + passBtnWidth, passRow2, lcdWidth - passCol3 - passBtnWidth, passBtnHeight⟩),
   (none, ⟨0, passRow2 + passBtnHeight, passCol2, passRow3 + passBtnHeight - passRow2 - passBtnHeight⟩),
   (none, ⟨passCol2 + passBtnWidth, passRow2 + passBtnHeight, lcdWidth - passCol2 - passBtnWidth,
     passRow3 + passBtnHeight - passRow2 - passBtnHeight⟩),
   (some .back, ⟨passCol1, passRow2, passBtnWidth, passBtnHeight⟩),
   (some .fwd, ⟨passCol3, passRow2, passBtnWidth, passBtnHeight⟩),
   (none, ⟨0, passRow3 + passBtnHeight, lcdWidth, passBtnPad⟩),
   (some .ok, ⟨passCol3, passRow4, passBtnWidth, passBtnHeight⟩),
   (none, ⟨0, passRow4, passCol3, passBtnHeight⟩),
   (none, ⟨passCol3 + passBtnWidth, passRow4, lcdWidth - passCol3 - passBtnWidth, passBtnHeight⟩),
   (none, ⟨0, passRow4 + passBtnHeight, lcdWidth, lcdHeight - passRow4 - passBtnHeight⟩)]

/-! ## The PIN view -/

/-- `pin_btn_0` to `pin_btn_9` are `digit 0` to `digit 9`. -/
inductive PinCtl where
  | digit (d : Fin 10) | back | ok
deriving DecidableEq, Repr

def pinBtnSize : Int := 50
def pinBtnSpace : Int := 5
def pinRow1 : Int := 90
def pinRow2 : Int := pinRow1 + pinBtnSize + pinBtnSpace
def pinRow3 : Int := pinRow2 + pinBtnSize + pinBtnSpace
def pinRow4 : Int := pinRow3 + pinBtnSize + pinBtnSpace
def pinCol1 : Int := lcdWidth / 2 - pinBtnSize * 3 / 2 - pinBtnSpace
def pinCol2 : Int := pinCol1 + pinBtnSize + pinBtnSpace
def pinCol3 : Int := pinCol2 + pinBtnSize + pinBtnSpace

/-- The buttons are all `PIN_BTN_SIZE` square, the gaps between two of them `PIN_BTN_SPACE`. -/
def pinBtn (c : PinCtl) (x y : Int) : Option PinCtl × Rect := (some c, ⟨x, y, pinBtnSize, pinBtnSize⟩)

def pinControls : List (Option PinCtl × Rect) :=
  [(none, ⟨0, 0, lcdWidth, 20⟩), (none, ⟨0, 20, lcdWidth, fontHeight⟩), (none, ⟨0, 40, lcdWidth, 5⟩),
   (none, ⟨0, 45, lcdWidth, fontHeight⟩), (none, ⟨0, 65, lcdWidth, pinRow1 - 65⟩),
   pinBtn (.digit 1) pinCol1 pinRow1, pinBtn (.digit 2) pinCol2 pinRow1, pinBtn (.digit 3) pinCol3 pinRow1,
   pinBtn (.digit 4) pinCol1 pinRow2, pinBtn (.digit 5) pinCol2 pinRow2, pinBtn (.digit 6) pinCol3 pinRow2,
   pinBtn (.digit 7) pinCol1 pinRow3, pinBtn (.digit 8) pinCol2 pinRow3, pinBtn (.digit 9) pinCol3 pinRow3,
   pinBtn .back pinCol1 pinRow4, pinBtn (.digit 0) pinCol2 pinRow4, pinBtn .ok pinCol3 pinRow4,
   (none, ⟨0, pinRow1, pinCol1, lcdHeight - pinRow1⟩),
   (none, ⟨pinCol3 + pinBtnSize, pinRow1, lcdWidth - (pinCol3 + pinBtnSize), lcdHeight - pinRow1⟩),
   (none, ⟨pinCol1, pinRow4 + pinBtnSize, pinBtnSize * 3 + pinBtnSpace * 2, lcdHeight - (pinRow4 + pinBtnSize)⟩),
   (none, ⟨pinCol1, pinRow1 + pinBtnSize, pinBtnSize * 3 + pinBtnSpace * 2, pinBtnSpace⟩),
   (none, ⟨pinCol1, pinRow2 + pinBtnSize, pinBtnSize * 3 + pinBtnSpace * 2, pinBtnSpace⟩),
   (none, ⟨pinCol1, pinRow3 + pinBtnSize, pinBtnSize * 3 + pinBtnSpace * 2, pinBtnSpace⟩),
   (none, ⟨pinCol1 + pinBtnSize, pinRow1, pinBtnSpace, pinBtnSize⟩),
   (none, ⟨pinCol1 + pinBtnSize, pinRow2, pinBtnSpace, pinBtnSize⟩),
   (none, ⟨pinCol1 + pinBtnSize, pinRow3, pinBtnSpace, pinBtnSize⟩),
   (none, ⟨pinCol1 + pinBtnSize, pinRow4, pinBtnSpace, pinBtnSize⟩),
   (none, ⟨pinCol2 + pinBtnSize, pinRow1, pinBtnSpace, pinBtnSize⟩),
   (none, ⟨pinCol2 + pinBtnSize, pinRow2, pinBtnSpace, pinBtnSize⟩),
   (none, ⟨pinCol2 + pinBtnSize, pinRow3, pinBtnSpace, pinBtnSize⟩),
   (none, ⟨pinCol2 + pinBtnSize, pinRow4, pinBtnSpace, pinBtnSize⟩)]

/-! ## The key view -/

inductive KeyCtl where
  | lbx | up | down
deriving DecidableEq, Repr

def keyTopPad : Int := 10
def keyBtnHeight : Int := 50
def keyBtnWidth : Int := 80
def keyBtnPad : Int := 5
def keyLbxHeight : Int := lcdHeight - keyTopPad - 2 * keyBtnPad - keyBtnHeight
def keyBtnTop : Int := keyTopPad + keyLbxHeight
def keyUpLeft : Int := lcdWidth / 2 - keyBtnPad - keyBtnWidth
def keyUpRight : Int := keyUpLeft + keyBtnWidth
def keyDownLeft : Int := keyUpRight + 2 * keyBtnPad
def keyDownRight : Int := keyDownLeft + keyBtnWidth

def keyControls : List (Option KeyCtl × Rect) :=
  [(none, ⟨0, 0, 240, keyTopPad⟩), (some .lbx, ⟨0, keyTopPad, lcdWidth, keyLbxHeight⟩),
   (none, ⟨0, keyTopPad + keyLbxHeight, 240, 5⟩), (none, ⟨0, keyBtnTop, keyUpLeft, keyBtnHeight⟩),
   (some .up, ⟨keyUpLeft, keyBtnTop, keyBtnWidth, keyBtnHeight⟩),
   (none, ⟨keyUpRight, keyBtnTop, 2 * keyBtnPad, keyBtnHeight⟩),
   (some .down, ⟨keyDownLeft, keyBtnTop, keyBtnWidth, keyBtnHeight⟩),
   (none, ⟨keyDownRight, keyBtnTop, lcdWidth - keyDownRight, keyBtnHeight⟩),
   (none, ⟨0, keyBtnTop + keyBtnHeight, lcdWidth, keyBtnPad⟩)]

/-- The list box of the table is the one `key_lbx` draws. -/
example : (some KeyCtl.lbx, (⟨keyLbx.x, keyLbx.y, keyLbx.width, keyLbx.height⟩ : Rect)) ∈ keyControls := by decide

/-! ## Receivers and buttons -/

section

variable {C : Type} [DecidableEq C]

/-- `capturing_control` of a view and `inverted` of its buttons. -/
structure Panel (C : Type) where
  capturing : Option C
  inverted : C → Bool

/-- Nothing pressed, as the views start. -/
def Panel.idle : Panel C := ⟨none, fun _ => false⟩

/-- The first control at the position. -/
def findControl (cs : List (Option C × Rect)) (x y : Int) : Option C :=
  (cs.find? fun c => c.2.contains x y).bind Prod.fst

/-- A capturing control has priority. -/
def getReceiver (p : Panel C) (cs : List (Option C × Rect)) (x y : Int) : Option C :=
  match p.capturing with
  | some c => some c
  | none => findControl cs x y

/-- `inside` of `btn_mouse_move`: the rectangle of `c` holds the position. -/
def inside (cs : List (Option C × Rect)) (c : C) (x y : Int) : Bool :=
  cs.any fun d => d.1 = some c ∧ d.2.contains x y

def Panel.setInverted (p : Panel C) (c : C) (b : Bool) : Panel C :=
  { p with inverted := fun d => if d = c then b else p.inverted d }

def btnMouseDown (p : Panel C) (c : C) : Panel C := { p.setInverted c true with capturing := some c }

/-- The flag tells whether the click callback runs. -/
def btnMouseUp (p : Panel C) (c : C) : Panel C × Bool :=
  if p.capturing = some c then
    if p.inverted c then ({ p.setInverted c false with capturing := none }, true)
    else ({ p with capturing := none }, false)
  else (p, false)

def btnMouseMove (p : Panel C) (cs : List (Option C × Rect)) (c : C) (x y : Int) : Panel C :=
  if p.capturing = some c then p.setInverted c (inside cs c x y) else p

/-! The mouse handlers on a view all of whose live controls are buttons. -/

def Panel.mouseDown (p : Panel C) (cs : List (Option C × Rect)) (x y : Int) : Panel C :=
  match getReceiver p cs x y with
  | some c => btnMouseDown p c
  | none => p

def Panel.mouseMove (p : Panel C) (cs : List (Option C × Rect)) (x y : Int) : Panel C :=
  match getReceiver p cs x y with
  | some c => btnMouseMove p cs c x y
  | none => p

/-- With the button that is clicked, if one is. -/
def Panel.mouseUp (p : Panel C) (cs : List (Option C × Rect)) (x y : Int) : Panel C × Option C :=
  match getReceiver p cs x y with
  | some c => ((btnMouseUp p c).1, if (btnMouseUp p c).2 then some c else none)
  | none => (p, none)

end

end Keynjector.Ui
