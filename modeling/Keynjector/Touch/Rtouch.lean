import Mathlib.Algebra.GroupWithZero.Nat
import Keynjector.Lib.Runs
/-
# The touch screen (rtouch.c, main.c:33-63)

| here | there |
| --- | --- |
| `Rtouch`                   | the static variables of `rtouch.c:75-116` |
| `rtouchGetCalibratedPoint` | `rtouch_get_calibrated_point` (`:135-152`) |
| `rtouchPenHandler`         | `rtouch_pen_handler` (`:157-171`) |
| `rtouchComputeCalibration` | `rtouch_compute_calibration` (`:245-313`) |
| `rtouchProcess`            | `rtouch_process` (`:336-408`), with the calls of the event handler |
| `Input`                    | the interrupt of the pen, the tick every 10 ms, a calibration |

`rtouch_is_pressed` is read twice in a tick. A handler is set, and no interrupt comes
inside another. A division by zero gives zero, as on the controller.
-/

namespace Keynjector.Touch

/-- `rtouch_point_t`, in 16 bits. -/
structure Point where
  x : Nat
  y : Nat
deriving DecidableEq, Repr

structure CalibrationPoint where
  panel : Point
  raw : Point
deriving DecidableEq, Repr

inductive PenState where
  | released
  | pressed
  | debounce
deriving DecidableEq, Repr

inductive EventType where
  | press
  | move
  | release
deriving DecidableEq, Repr

structure TouchEvent where
  type : EventType
  panel : Point
  raw : Point
deriving DecidableEq, Repr

structure Rtouch where
  timestamp : Nat
  timepress : Nat
  timerelease : Nat
  penState : PenState
  isEnabled : Bool
  isCalibrated : Bool
  xslope : Int
  yslope : Int
  calibrationPoint0 : CalibrationPoint
  event : TouchEvent
  oldPosition : Point
  width : Nat
  height : Nat
deriving DecidableEq, Repr

def DEBOUNCE_TIME : Nat := 6
def POINTS_MAX_ERROR : Int := 10
def MULTI_FACTOR : Int := 1024

/-- A difference of two times, in 32 bits. -/
def timeKeep (now before : Nat) : Nat := (now + 2 ^ 32 - before) % 2 ^ 32

/-! ## Calibration -/

/-- One coordinate: the place on the panel, stored in 16 bits before the upper bound is applied. -/
def calibrated (panel raw0 raw : Nat) (slope : Int) (limit : Nat) : Nat :=
  let point := (panel : Int) - (((raw0 : Int) - raw) * MULTI_FACTOR).tdiv slope
  let stored := if 0 < point then point.toNat % 2 ^ 16 else 0
  if limit < stored then limit else stored

def rtouchGetCalibratedPoint (t : Rtouch) (raw : Point) : Point where
  x := calibrated t.calibrationPoint0.panel.x t.calibrationPoint0.raw.x raw.x t.xslope t.width
  y := calibrated t.calibrationPoint0.panel.y t.calibrationPoint0.raw.y raw.y t.yslope t.height

/-- The slope between two points. -/
def slope (rawA rawB panelA panelB : Nat) : Int := (((rawA : Int) - rawB) * MULTI_FACTOR).tdiv ((panelA : Int) - panelB)

def near (d : Int) : Bool := -POINTS_MAX_ERROR ≤ d && d ≤ POINTS_MAX_ERROR

/-- The four corners and the point to test; the second part is what is returned. -/
def rtouchComputeCalibration (t : Rtouch) (p0 p1 p2 p3 p4 : CalibrationPoint) : Rtouch × Nat :=
  let t := { t with
    xslope := (slope p0.raw.x p1.raw.x p0.panel.x p1.panel.x + slope p2.raw.x p3.raw.x p2.panel.x p3.panel.x).tdiv 2
    yslope := (slope p0.raw.y p2.raw.y p0.panel.y p2.panel.y + slope p1.raw.y p3.raw.y p1.panel.y p3.panel.y).tdiv 2
    calibrationPoint0 := p0 }
  let point := rtouchGetCalibratedPoint t p4.raw
  if near ((point.x : Int) - p4.panel.x) && near ((point.y : Int) - p4.panel.y) then ({ t with isCalibrated := true }, 0)
  else ({ t with isCalibrated := false }, 1)

/-! ## The pen -/

def rtouchPenHandler (t : Rtouch) (isPressed : Bool) : Rtouch :=
  if isPressed then
    if t.penState = .released then { t with timepress := t.timestamp, penState := .debounce } else t
  else
    if t.penState = .pressed then { t with timerelease := t.timestamp, penState := .debounce } else t

/-- The position is read. -/
def readPosition (t : Rtouch) (raw : Point) : Rtouch :=
  if t.isCalibrated then
    { t with
      event := ⟨t.event.type, rtouchGetCalibratedPoint t raw, raw⟩
      oldPosition := t.event.panel }
  else t

/-- `event.type` is set and the handler called. -/
def notify (t : Rtouch) (type : EventType) : Rtouch × List TouchEvent :=
  let t := { t with event := { t.event with type } }
  (t, if t.isCalibrated then [t.event] else [])

/-- The callback for moves, with its filter. -/
def moved (t : Rtouch) : Rtouch × List TouchEvent :=
  if t.penState = .pressed ∧ t.isCalibrated ∧
      ¬(near ((t.oldPosition.x : Int) - t.event.panel.x) && near ((t.oldPosition.y : Int) - t.event.panel.y)) then
    notify t .move
  else (t, [])

/-- What is done when the first look finds the pen down. -/
def look (t : Rtouch) (isPressed : Bool) (raw : Point) : Rtouch × List TouchEvent :=
  if isPressed then moved (readPosition t raw) else (t, [])

/-- The state of the pen, after the second look at it. -/
def determinePenState (t : Rtouch) (isPressed : Bool) : Rtouch × List TouchEvent :=
  if isPressed then
    let t := { t with timerelease := t.timestamp }
    if t.penState = .debounce ∧ DEBOUNCE_TIME < timeKeep t.timestamp t.timepress then
      notify { t with penState := .pressed } .press
    else (t, [])
  else
    let t := { t with timepress := t.timestamp }
    if t.penState = .debounce ∧ DEBOUNCE_TIME < timeKeep t.timestamp t.timerelease then
      notify { t with penState := .released } .release
    else (t, [])

/-- `first` and `second` are the answers of `rtouch_is_pressed`. -/
def rtouchProcess (t : Rtouch) (first : Bool) (raw : Point) (second : Bool) : Rtouch × List TouchEvent :=
  if t.isEnabled then
    let (t, moves) := look { t with timestamp := (t.timestamp + 1) % 2 ^ 32 } first raw
    let (t, changes) := determinePenState t second
    (t, moves ++ changes)
  else (t, [])

/-! ## Runs -/

inductive Input where
  | pen (isPressed : Bool)
  | tick (first : Bool) (raw : Point) (second : Bool)
  | calibrate (p0 p1 p2 p3 p4 : CalibrationPoint)
deriving DecidableEq

/-- The touch screen with the events handed on so far. -/
structure Screen where
  rtouch : Rtouch
  log : List TouchEvent

def Screen.step (s : Screen) : Input → Screen
  | .pen isPressed => { s with rtouch := rtouchPenHandler s.rtouch isPressed }
  | .tick first raw second =>
    ⟨(rtouchProcess s.rtouch first raw second).1, s.log ++ (rtouchProcess s.rtouch first raw second).2⟩
  | .calibrate p0 p1 p2 p3 p4 => { s with rtouch := (rtouchComputeCalibration s.rtouch p0 p1 p2 p3 p4).1 }

def Screen.run (s : Screen) (is : List Input) : Screen := Runs.run Screen.step s is

/-- The screen after `rtouch_init` and `rtouch_enable`, with the calibration of `t`. -/
def Screen.start (t : Rtouch) : Screen where
  rtouch := { t with
    timestamp := 0
    timepress := 0
    timerelease := 0
    penState := .released
    isEnabled := true
    event := ⟨.press, ⟨0, 0⟩, ⟨0, 0⟩⟩ }
  log := []

/-- A calibrated screen of 240 by 320 pixels whose readings are the places themselves. -/
def sampleRtouch : Rtouch where
  timestamp := 0
  timepress := 0
  timerelease := 0
  penState := .released
  isEnabled := false
  isCalibrated := true
  xslope := 1024
  yslope := 1024
  calibrationPoint0 := ⟨⟨0, 0⟩, ⟨0, 0⟩⟩
  event := ⟨.press, ⟨0, 0⟩, ⟨0, 0⟩⟩
  oldPosition := ⟨0, 0⟩
  width := 240
  height := 320

end Keynjector.Touch
