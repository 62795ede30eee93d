import Keynjector.Ui.Screen
/-
# The firmware (main.c)

| here | there |
| --- | --- |
| `Image`, `Fw`          | the NVRAM image, and `g_state` with the static variables of `main.c` |
| `Card`                 | the card in the slot: `sd_valid`, `file_exists` and the result of decryption |
| `initState`, `boot`    | `init_state`, `read_state` and `main` up to its loop |
| `writeState`, `verifyPin`, `decryptFile` | `write_state`, `verify_pin`, `decrypt_file` |
| `setNextView`          | `set_next_view` (`:256-356`), its prompts as functions of their own |
| `getCalibPoint`        | `get_calib_point`, once its samples are in |
| `lcdCommandComplete`, `lcdPassphraseOk`, `lcdPinOk` | the callbacks of the same names |
| `mainLoop`             | the loop of `main` (`:583-621`) |
| `observeCard`, `startFade` | what the loop does on a change of the card (`:614-618`), in two steps |
| `Input`, `Fw.step`     | the interrupts (timer tick, touch) and the main loop, in any order |
| `Event`                | a record of what happened; nothing reads it |

Flags are `Bool`. A turn of the main loop is one step, and so is an interrupt; on a change
of the card the turn is two steps, with interrupts between `sd_card_inserted` and
`lcd_start_command`. The digest of the NVRAM image is the flag `valid` of `boot`:
`write_state` always sets it.
-/

namespace Keynjector.Firmware

open Ui

/-- `p .p1` is `CALIB_P1`. -/
inductive CalibState where
  | init | p (i : PointNo) | done
deriving DecidableEq, Repr

/-- `rtouch_calibration_point_t`. -/
structure CalibPoint where
  panelX : Int
  panelY : Int
  rawX : Int
  rawY : Int
deriving DecidableEq, Repr

/-- `PASSPHRASE_BUFSIZE` and `PIN_BUFSIZE`. -/
def passphraseBufsize : Nat := 101
def pinBufsize : Nat := 101

/-- `SD_MMC_ERR_NO_CARD`; `main` compares with `CTRL_NO_PRESENT`, which has the same value. -/
def noCard : Nat := 2

/-- The persistent state. -/
structure Image where
  calibState : CalibState
  points : List CalibPoint
  passphrase : List UInt8
  pin : List UInt8
  pinSet : Bool
  passphraseSet : Bool
deriving DecidableEq, Repr

/-- What the card answers: whether it mounts, whether the key file is there, and what the
file decrypts to under a passphrase. -/
structure Card where
  valid : Bool
  fileExists : Bool
  decrypt : List UInt8 → Option (List UInt8)

/-- The answers met in one step: those of the card, those to a second round of
`set_next_view`, and whether the calibration is good. -/
structure Env where
  card : Card
  again : Card
  calibOk : Bool

inductive Event where
  /-- The main loop finds the card gone, or there. -/
  | card (inserted : Bool)
  /-- `lcd_set_passphrase_buffer` on `g_state.passphrase`. -/
  | wipe
  | passClick (c : PassCtl)
  /-- A call of `decrypt_file` and its result. -/
  | decrypt (passphrase : List UInt8) (ok : Bool)
  | passphraseOk (ok : Bool)
  /-- A call of `lcd_pin_ok`: `pin_set`, the PIN typed and the PIN stored. -/
  | pinOk (pinSet : Bool) (typed stored : List UInt8)
  /-- The prompt that re-arms `pin_attempts`. -/
  | enterPin
  /-- `set_next_view` selects `VIEW_KEY`, with `decrypt_ok`, `pin_set` and both PINs. -/
  | keyView (decryptOk pinSet : Bool) (pin stored : List UInt8)
  | longPress (value : List UInt8)
deriving DecidableEq, Repr

/-- `g_state.passphrase`, `g_state.pin` and `pin` are the arrays of `ui.mem`. -/
structure Fw where
  ui : Screen
  calibState : CalibState
  points : List CalibPoint
  pinSet : Bool
  passphraseSet : Bool
  fileFormatValid : Bool
  items : Option (List UInt8)
  sdCardInserted : Bool
  pinOk : Bool
  pinEntered : Bool
  pinAttempts : Int
  decryptAttempted : Bool
  decryptOk : Bool
  lastMmcErr : Nat
  /-- The main loop has set `sd_card_inserted` and calls `lcd_start_command` next. -/
  fadeDue : Bool
  nvram : Image
  /-- The commands that were pending at an `lcd_set_view`; nothing reads them. -/
  overtaken : List Command
  log : List Event

def Fw.emit (fw : Fw) (e : Event) : Fw := { fw with log := fw.log ++ [e] }

/-- The string typed into `pin`, and the one in `g_state.pin`. -/
def Fw.typedPin (fw : Fw) : List UInt8 := cstr fw.ui.mem.pin
def Fw.storedPin (fw : Fw) : List UInt8 := cstr fw.ui.mem.gPin

/-! ## Boot and NVRAM -/

/-- `init_state`: raw calibration points stay as they were read. -/
def initState (img : Image) : Image :=
  let panel := [(30, 30), (210, 30), (210, 290), (30, 290), (120, 160)]
  { calibState := .init,
    points := (img.points.zip panel).map fun (p, xy) => { p with panelX := xy.1, panelY := xy.2 },
    passphrase := List.replicate passphraseBufsize 0, pin := List.replicate pinBufsize 0,
    pinSet := false, passphraseSet := false }

/-- Power-on with the image `img` in NVRAM. -/
def boot (img : Image) (valid : Bool) (mmcErr : Nat) : Fw :=
  let g := if valid then img else initState img
  let ui := Screen.init ⟨g.passphrase, g.pin, List.replicate pinBufsize 0⟩
  { ui := lcdStartCommand (lcdSetView ui .logo) .fadeIn,
    calibState := g.calibState, points := g.points, pinSet := g.pinSet, passphraseSet := g.passphraseSet,
    fileFormatValid := true, items := none, sdCardInserted := mmcErr ≠ noCard, pinOk := false, pinEntered := false,
    pinAttempts := 0, decryptAttempted := false, decryptOk := false, lastMmcErr := mmcErr, fadeDue := false, nvram := img,
    overtaken := ui.currentCommand.toList, log := [] }

def writeState (fw : Fw) : Fw :=
  { fw with nvram := { calibState := fw.calibState, points := fw.points, passphrase := fw.ui.mem.passphrase,
                       pin := fw.ui.mem.gPin, pinSet := fw.pinSet, passphraseSet := fw.passphraseSet } }

/-! ## Decryption and PIN check -/

/-- `decrypt_file` with the string in `g_state.passphrase`. -/
def decryptFile (card : Card) (fw : Fw) : Fw × Bool :=
  let p := cstr fw.ui.mem.passphrase
  match card.decrypt p with
  | some plain => ({ fw with items := some plain }.emit (.decrypt p true), true)
  | none => (fw.emit (.decrypt p false), false)

/-- `decrypt_ok = decrypt_file()`. -/
def setDecryptOk (card : Card) (fw : Fw) : Fw :=
  let (fw, ok) := decryptFile card fw
  { fw with decryptOk := ok }

def verifyPin (fw : Fw) : Bool := fw.storedPin = fw.typedPin

/-! ## Choosing the next view -/

/-- `lcd_set_view` and `lcd_start_command`. -/
def Fw.show (fw : Fw) (v : View) (c : Command) : Fw :=
  { fw with ui := lcdStartCommand (lcdSetView fw.ui v) c, overtaken := fw.overtaken ++ fw.ui.currentCommand.toList }

/-- `lcd_set_title_msg`, `VIEW_TITLE`, `CMD_FADE_IN`. -/
def showTitle (msg : String) (fw : Fw) : Fw := { fw with ui := lcdSetTitleMsg fw.ui msg }.show .title .fadeIn

def showCalib (fw : Fw) : Fw := { fw with calibState := .init }.show .calib .calibLblFadeIn

/-- No card: everything entered is forgotten. -/
def forgetEntered (fw : Fw) : Fw :=
  { fw with decryptAttempted := false, decryptOk := false, pinOk := false, pinEntered := false,
            fileFormatValid := true }

def showInsertSd (fw : Fw) : Fw := showTitle "Insert SD card" (forgetEntered fw)

def attemptDecrypt (card : Card) (fw : Fw) : Fw :=
  let fw := if !fw.decryptAttempted && fw.passphraseSet then setDecryptOk card fw else fw
  { fw with decryptAttempted := true }

/-- With the passphrase, the PIN is given up. -/
def wipePassphrase (fw : Fw) : Fw :=
  { fw with ui := lcdSetPassphraseBuffer fw.ui .passphrase passphraseBufsize, passphraseSet := false,
            decryptAttempted := false, pinSet := false }.emit .wipe

def promptPassphrase (fw : Fw) : Fw :=
  let fw := wipePassphrase fw
  { fw with ui := lcdSetPassphraseMsg fw.ui "Enter passphrase to unlock" }.show .pass .fadeIn

/-- `lcd_set_pin_msg`, `lcd_set_pin_buffer` and `pin_entered = 0`. -/
def askPin (msg : String) (b : Buf) (fw : Fw) : Fw :=
  { fw with ui := lcdSetPinBuffer (lcdSetPinMsg fw.ui msg) b pinBufsize, pinEntered := false }

def assignPin (fw : Fw) : Fw := { askPin "Assign PIN" .gPin fw with pinOk := false }.show .pin .fadeIn

def enterPin (fw : Fw) : Fw := ({ askPin "Enter PIN" .pin fw with pinAttempts := 3 }.emit .enterPin).show .pin .fadeIn

def showKeys (fw : Fw) : Fw :=
  { fw with fileFormatValid := true }.emit (.keyView fw.decryptOk fw.pinSet fw.typedPin fw.storedPin)
    |>.show .key .fadeIn

def comparePin (fw : Fw) : Fw := if fw.pinEntered && fw.pinSet then { fw with pinOk := verifyPin fw } else fw

/-- The end of `set_next_view`, once the keys are set. -/
def checkPin (fw : Fw) : Fw :=
  let fw := comparePin fw
  if !fw.pinSet then assignPin fw
  else if !fw.pinEntered || !fw.pinOk then enterPin fw
  else showKeys fw

/-- The middle of `set_next_view`, once the file is decrypted; `again` is the call of
`set_next_view` for a file that is no key list. -/
def setKeys (again : Fw → Fw) (fw : Fw) : Fw :=
  let (ui, ok) := lcdSetKeys fw.ui (fw.items.getD [])
  let fw := { fw with ui := ui }
  if ok then checkPin fw else again { fw with fileFormatValid := false }

def nextView (again : Fw → Fw) (card : Card) (fw : Fw) : Fw :=
  if fw.calibState ≠ .done then showCalib fw
  else if !fw.sdCardInserted then showInsertSd fw
  else if !card.valid then showTitle "SD card cannot be read" fw
  else if !card.fileExists then showTitle "Key file not found" fw
  else
    let fw := attemptDecrypt card fw
    if !fw.decryptOk then promptPassphrase fw
    else if !fw.fileFormatValid then showTitle "Unknown key file format" fw
    else setKeys again fw

/-- `set_next_view`. The inner call finds `file_format_valid` cleared and makes no other. -/
def setNextView (env : Env) : Fw → Fw := nextView (nextView id env.again) env.card

/-! ## Callbacks of the interface -/

def Fw.start (fw : Fw) (c : Command) : Fw := { fw with ui := lcdStartCommand fw.ui c }

/-- The point that is shown after a point, and the index of its coordinates. -/
def nextPoint : PointNo → Option PointNo
  | .p1 => some .p2
  | .p2 => some .p3
  | .p3 => some .p4
  | .p4 => some .p5
  | .p5 => none

def pointIndex : PointNo → Nat
  | .p1 => 0
  | .p2 => 1
  | .p3 => 2
  | .p4 => 3
  | .p5 => 4

def lcdCommandComplete (env : Env) (c : Command) (fw : Fw) : Fw :=
  match c with
  | .calibLblFadeIn => fw.start (.calibPointFadeIn .p1)
  | .calibLblFadeOut => setNextView env fw
  | .calibPointFadeIn i => { fw with calibState := .p i }
  | .calibPointFadeOut i =>
    match nextPoint i with
    | some j => fw.start (.calibPointFadeIn j)
    | none =>
      if env.calibOk then (writeState { fw with calibState := .done }).start .calibLblFadeOut
      else fw.start (.calibPointFadeIn .p1)
  | .fadeIn => if fw.ui.currentView = .logo then fw.start .fadeOut else fw
  | .fadeOut => setNextView env fw

def lcdPassphraseOk (card : Card) (fw : Fw) : Fw :=
  let fw := setDecryptOk card { fw with passphraseSet := true }
  let fw := { fw with decryptAttempted := true }.emit (.passphraseOk fw.decryptOk)
  if fw.decryptOk then fw.start .fadeOut
  else { fw with ui := lcdSetPassphraseMsg fw.ui "Wrong passphrase - try again" }

/-- `strcpy(pin, g_state.pin)`. -/
def copyPin (m : Memory) : Memory :=
  { m with pin := cstr m.gPin ++ 0 :: m.pin.drop ((cstr m.gPin).length + 1) }

/-- The first PIN is taken over and stored. -/
def acceptNewPin (fw : Fw) : Fw :=
  let fw := { fw with pinEntered := true, pinSet := true, ui := { fw.ui with mem := copyPin fw.ui.mem } }
  (writeState fw).start .fadeOut

def acceptPin (fw : Fw) : Fw := { fw with pinEntered := true }.start .fadeOut

/-- The `default` case of a wrong PIN. -/
def lockOut (fw : Fw) : Fw :=
  let fw := { fw with passphraseSet := false, decryptAttempted := false, decryptOk := false, pinOk := false,
                      pinEntered := false, pinSet := false }
  (writeState fw).start .fadeOut

def wrongPin (fw : Fw) : Fw :=
  let fw := { fw with pinAttempts := fw.pinAttempts - 1 }
  if fw.pinAttempts = 2 then { fw with ui := lcdSetPinMsg fw.ui "Wrong PIN - 2 attempts left" }
  else if fw.pinAttempts = 1 then { fw with ui := lcdSetPinMsg fw.ui "Wrong PIN - 1 attempt left" }
  else lockOut fw

def lcdPinOk (fw : Fw) : Fw :=
  let fw := fw.emit (.pinOk fw.pinSet fw.typedPin fw.storedPin)
  if !fw.pinSet then acceptNewPin fw
  else if fw.typedPin = fw.storedPin then acceptPin fw
  else wrongPin fw

/-- What `main.c` does when the interface calls it. -/
def Fw.callback (env : Env) (fw : Fw) : Callback → Fw
  | .commandComplete c => lcdCommandComplete env c fw
  | .passphraseOk => lcdPassphraseOk env.card fw
  | .pinOk => lcdPinOk fw
  | .itemLongPress v => fw.emit (.longPress v)

/-! ## Main loop and interrupts -/

/-- `get_calib_point`, `raw` being the medians of its samples; `none` when the panel is
let go of before they are complete. -/
def getCalibPoint (i : PointNo) (raw : Option (Int × Int)) (fw : Fw) : Fw :=
  match raw with
  | none => fw
  | some (x, y) =>
    { fw with points := fw.points.modify (pointIndex i) fun p => { p with rawX := x, rawY := y },
              calibState := .init }.start (.calibPointFadeOut i)

/-- The main loop sees that the card has come, gone or changed its state. -/
def observeCard (err : Nat) (fw : Fw) : Fw :=
  { fw with sdCardInserted := err ≠ noCard, lastMmcErr := err, fadeDue := true }.emit (.card (err ≠ noCard))

/-- The call that follows. -/
def startFade (fw : Fw) : Fw := { fw with fadeDue := false }.start .fadeOut

/-- The card check of the main loop. -/
def pollCard (err : Nat) (fw : Fw) : Fw := if err ≠ fw.lastMmcErr then observeCard err fw else fw

/-- One turn: a calibration point while calibrating, else the card check, unless that is to be ended first. -/
def mainLoop (err : Nat) (raw : Option (Int × Int)) (fw : Fw) : Fw :=
  if fw.fadeDue then startFade fw
  else
    match fw.calibState with
    | .done => pollCard err fw
    | .p i => getCalibPoint i raw fw
    | .init => fw

inductive Input where
  | tick (env : Env)
  | mouseDown (x y : Int)
  | mouseMove (x y : Int)
  | mouseUp (x y : Int) (env : Env)
  | mainLoop (err : Nat) (raw : Option (Int × Int))

/-- The click callback of a button. -/
def Fw.click (env : Env) (fw : Fw) (k : Click) : Fw :=
  let fw := match k with
    | .pass c => fw.emit (.passClick c)
    | _ => fw
  let (ui, calls) := fw.ui.click k
  calls.foldl (Fw.callback env) { fw with ui := ui }

def Fw.step (fw : Fw) : Input → Fw
  | .tick env =>
    let (ui, calls) := lcdTimerTick fw.ui
    calls.foldl (Fw.callback env) { fw with ui := ui }
  | .mouseDown x y => { fw with ui := viewMouseDown fw.ui x y }
  | .mouseMove x y => { fw with ui := viewMouseMove fw.ui x y }
  | .mouseUp x y env =>
    match viewMouseUp fw.ui x y with
    | (ui, none) => { fw with ui := ui }
    | (ui, some k) => Fw.click env { fw with ui := ui } k
  | .mainLoop err raw => Firmware.mainLoop err raw fw

/-! ## A sample session: the PIN is `1`, the passphrase `A` -/

def sampleImage : Image :=
  { calibState := .done, points := [], passphrase := 65 :: List.replicate 100 0, pin := 49 :: List.replicate 100 0,
    pinSet := true, passphraseSet := true }

def sampleCard : Card := ⟨true, true, fun p => if p = [65] then some sampleItems else none⟩

def sampleEnv : Env := ⟨sampleCard, sampleCard, true⟩

def ticks (n : Nat) : List Input := List.replicate n (.tick sampleEnv)

def tap (x y : Int) : List Input := [.mouseDown x y, .mouseUp x y sampleEnv]

/-- Buttons of the PIN view. -/
def tapOne : List Input := tap 60 110
def tapTwo : List Input := tap 120 110
def tapOk : List Input := tap 175 280

/-- The loop sees the card gone, or back, and starts the fade-out. -/
def cardOut : List Input := [.mainLoop noCard none, .mainLoop noCard none]
def cardIn : List Input := [.mainLoop 0 none, .mainLoop 0 none]

/-- The logo fades in and out, the PIN is asked for and entered. -/
def unlock : List Input := ticks 20 ++ tapOne ++ tapOk ++ ticks 10

end Keynjector.Firmware
