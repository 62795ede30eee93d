import Keynjector.Ui.Controls
/-
# The user interface (ui.c)

| here | there |
| --- | --- |
| `Command`                 | `CMD_…` (`ui.h:49-62`) |
| `Memory`, `Buf`           | the character arrays the captions point to: `g_state.passphrase`, `g_state.pin`, `pin` |
| `Screen`                  | the static objects of `ui.c` |
| `passUpClick` … `pinBackClick`, `keyUpClick`, `keyDownClick` | the click callbacks (`:1704-1809`, `:2162-2183`) |
| `viewTick`, `logoTimerTick` … `keyTimerTick` | the `…_timer_tick` functions |
| `lcdStartCommand`, `lcdTimerTick`, `lcdSetView`, `lcdSetKeys` | the functions of `ui.h` |
| `viewMouseDown`, `viewMouseUp`, `viewMouseMove` | the mouse handlers (`:2291-2328`) |
| `Callback`                | the calls `ui.c` makes to `main.c` |

A callback is the last thing the calling function does, but for `lcd_item_long_press`,
which does not come back to the interface; so a function returns the callbacks it makes.
Fading alphas matter to the list box only; the other controls' are left out.
-/

namespace Keynjector.Ui

/-- The five calibration points. -/
inductive PointNo where
  | p1 | p2 | p3 | p4 | p5
deriving DecidableEq, Repr

/-- `calibPointFadeIn .p1` is `CMD_CALIB_POINT_1_FADE_IN`. -/
inductive Command where
  | calibLblFadeIn | calibLblFadeOut
  | calibPointFadeIn (i : PointNo) | calibPointFadeOut (i : PointNo)
  | fadeIn | fadeOut
deriving DecidableEq, Repr

/-- `ANIMATION_TICKS`. -/
def animationTicks : Int := 10

/-! ## Character arrays -/

inductive Buf where
  | passphrase | gPin | pin
deriving DecidableEq, Repr

structure Memory where
  passphrase : List UInt8
  gPin : List UInt8
  pin : List UInt8
deriving DecidableEq, Repr

def Memory.get (m : Memory) : Buf → List UInt8
  | .passphrase => m.passphrase
  | .gPin => m.gPin
  | .pin => m.pin

def Memory.set (m : Memory) (s : List UInt8) : Buf → Memory
  | .passphrase => { m with passphrase := s }
  | .gPin => { m with gPin := s }
  | .pin => { m with pin := s }

/-- `s[i] = c`. -/
def store (s : List UInt8) (i : Int) (c : UInt8) : List UInt8 := if 0 ≤ i then s.set i.toNat c else s

/-- `s[i]`. -/
def load (s : List UInt8) (i : Int) : UInt8 := if 0 ≤ i then s.getD i.toNat 0 else 0

/-! ## The passphrase and PIN editors -/

/-- `passphrase_charset` and its length. -/
def passphraseCharset : List UInt8 := lbxValueCharset
def passphraseCharsetLen : Int := 62

/-- `passphrase_maxlen`, `passphrase_len`, `passphrase_index` and the array behind the caption. -/
structure PassEdit where
  s : List UInt8
  maxlen : Int
  len : Int
  index : Int
deriving DecidableEq, Repr

/-- `lcd_set_passphrase_buffer`, `n` being the size of the array. -/
def PassEdit.fresh (n : Nat) : PassEdit :=
  { s := load passphraseCharset 0 :: List.replicate (n - 1) 0, maxlen := n, len := 1, index := 0 }

/-- `s[passphrase_len-1] = passphrase_charset[passphrase_index]`. -/
def PassEdit.put (e : PassEdit) : PassEdit := { e with s := store e.s (e.len - 1) (load passphraseCharset e.index) }

def passUpClick (e : PassEdit) : PassEdit :=
  let index := e.index + 1
  { e with index := if index ≥ passphraseCharsetLen then 0 else index }.put

def passDownClick (e : PassEdit) : PassEdit :=
  let index := e.index - 1
  { e with index := if index < 0 then passphraseCharsetLen - 1 else index }.put

def passFwdClick (e : PassEdit) : PassEdit :=
  if e.len < e.maxlen - 1 then { e with len := e.len + 1 }.put else e

def passBackClick (e : PassEdit) : PassEdit :=
  if e.len > 1 then
    let e := { e with s := store e.s (e.len - 1) 0, len := e.len - 1 }
    match passphraseCharset.findIdx? (· == load e.s (e.len - 1)) with
    | some i => { e with index := i }
    | none => e
  else e

/-- What the buttons of the passphrase view do to the editor. -/
def PassEdit.click (e : PassEdit) : PassCtl → PassEdit
  | .up => passUpClick e
  | .down => passDownClick e
  | .back => passBackClick e
  | .fwd => passFwdClick e
  | .ok => e

/-- `pin_maxlen`, `pin_len` and the array behind the caption. -/
structure PinEdit where
  s : List UInt8
  maxlen : Int
  len : Int
deriving DecidableEq, Repr

/-- `lcd_set_pin_buffer`. -/
def PinEdit.fresh (n : Nat) : PinEdit := { s := List.replicate n 0, maxlen := n, len := 0 }

/-- The digit is the first character of the button's caption. -/
def pinBtnClick (e : PinEdit) (d : Fin 10) : PinEdit :=
  if e.len < e.maxlen - 1 then { e with s := store e.s e.len (UInt8.ofNat (48 + d)), len := e.len + 1 } else e

def pinBackClick (e : PinEdit) : PinEdit :=
  if e.len > 0 then { e with s := store e.s (e.len - 1) 0, len := e.len - 1 } else e

def PinEdit.click (e : PinEdit) : PinCtl → PinEdit
  | .digit d => pinBtnClick e d
  | .back => pinBackClick e
  | .ok => e

/-! ## State -/

structure Screen where
  currentView : View
  currentCommand : Option Command
  animationTimer : Int
  passView : Panel PassCtl
  pinView : Panel PinCtl
  keyView : Panel KeyCtl
  keyLbx : Lbx
  titleMsg : String
  passMsg : String
  pinMsg : String
  mem : Memory
  /-- `pass_passphrase.caption`; `none` is the literal `""` it starts with. -/
  passCaption : Option Buf
  passphraseMaxlen : Int
  passphraseLen : Int
  passphraseIndex : Int
  /-- `pin_code.caption`. -/
  pinCaption : Option Buf
  pinMaxlen : Int
  pinLen : Int

/-- The interface before `main` starts, the arrays being as given. -/
def Screen.init (mem : Memory) : Screen :=
  { currentView := .none, currentCommand := none, animationTimer := 0,
    passView := .idle, pinView := .idle, keyView := .idle, keyLbx := Ui.keyLbx,
    titleMsg := "", passMsg := "Type passphrase to unlock", pinMsg := "Please type PIN", mem := mem,
    passCaption := none, passphraseMaxlen := 0, passphraseLen := 0, passphraseIndex := 0,
    pinCaption := none, pinMaxlen := 0, pinLen := 0 }

/-- The array behind a caption; the empty literal has no room for a character. -/
def Memory.read (m : Memory) (b : Option Buf) : List UInt8 := (b.map m.get).getD []

def Memory.write (m : Memory) (b : Option Buf) (s : List UInt8) : Memory :=
  match b with
  | none => m
  | some b => m.set s b

def Screen.passEdit (u : Screen) : PassEdit :=
  ⟨u.mem.read u.passCaption, u.passphraseMaxlen, u.passphraseLen, u.passphraseIndex⟩

def Screen.pinEdit (u : Screen) : PinEdit := ⟨u.mem.read u.pinCaption, u.pinMaxlen, u.pinLen⟩

/-- Put an editor's state back, its caption pointing to `b`. -/
def Screen.withPass (u : Screen) (b : Option Buf) (e : PassEdit) : Screen :=
  { u with mem := u.mem.write b e.s, passCaption := b, passphraseMaxlen := e.maxlen, passphraseLen := e.len,
           passphraseIndex := e.index }

def Screen.withPin (u : Screen) (b : Option Buf) (e : PinEdit) : Screen :=
  { u with mem := u.mem.write b e.s, pinCaption := b, pinMaxlen := e.maxlen, pinLen := e.len }

def lcdSetTitleMsg (u : Screen) (msg : String) : Screen := { u with titleMsg := msg }
def lcdSetPassphraseMsg (u : Screen) (msg : String) : Screen := { u with passMsg := msg }
def lcdSetPinMsg (u : Screen) (msg : String) : Screen := { u with pinMsg := msg }

def lcdSetPassphraseBuffer (u : Screen) (b : Buf) (n : Nat) : Screen :=
  if n > 1 then u.withPass (some b) (.fresh n) else u

def lcdSetPinBuffer (u : Screen) (b : Buf) (n : Nat) : Screen :=
  if n > 1 then u.withPin (some b) (.fresh n) else u

def lcdSetView (u : Screen) (v : View) : Screen := if v = .none then u else { u with currentView := v }

def lcdSetKeys (u : Screen) (keys : List UInt8) : Screen × Bool :=
  let (l, ok) := lbxSetItems u.keyLbx keys
  ({ u with keyLbx := l }, ok)

/-! ## Commands and timer -/

/-- The calls made to `main.c`. -/
inductive Callback where
  | commandComplete (c : Command)
  | passphraseOk
  | pinOk
  | itemLongPress (value : List UInt8)
deriving DecidableEq, Repr

def Command.isFade : Command → Bool
  | .fadeIn | .fadeOut => true
  | _ => false

/-- The commands that a view's `timer_tick` and `start_command` handle. -/
def View.handles : View → Command → Bool
  | .none, _ => false
  | .calib, c => !c.isFade
  | _, c => c.isFade

/-- `lcd_start_command` with the `…_start_command` of each view. -/
def lcdStartCommand (u : Screen) (c : Command) : Screen :=
  if u.currentView.handles c then { u with currentCommand := some c, animationTimer := animationTicks } else u

/-- The common body of the `…_timer_tick` functions; `fade` redraws with the new alpha. -/
def viewTick (handles : Command → Bool) (fade : Command → Screen → Screen) (u : Screen) : Screen × List Callback :=
  match u.currentCommand with
  | none => (u, [])
  | some c =>
    let u := { u with animationTimer := u.animationTimer - 1 }
    if handles c then
      let u := fade c u
      if u.animationTimer = 0 then ({ u with currentCommand := none }, [.commandComplete c]) else (u, [])
    else (u, [])

def noFade (_ : Command) (u : Screen) : Screen := u

def logoTimerTick : Screen → Screen × List Callback := viewTick Command.isFade noFade
def calibTimerTick : Screen → Screen × List Callback := viewTick (fun c => !c.isFade) noFade
def titleTimerTick : Screen → Screen × List Callback := viewTick Command.isFade noFade
def passTimerTick : Screen → Screen × List Callback := viewTick Command.isFade noFade
def pinTimerTick : Screen → Screen × List Callback := viewTick Command.isFade noFade

/-- `fade_in_alpha`, `fade_out_alpha`, put into `key_lbx.alpha`. -/
def keyFade (c : Command) (u : Screen) : Screen :=
  let alpha := if c = .fadeIn then (animationTicks - u.animationTimer) * (255 / animationTicks)
    else u.animationTimer * (255 / animationTicks)
  { u with keyLbx := { u.keyLbx with alpha := alpha } }

/-- The list box has a timer of its own, which runs first. -/
def keyTimerTick (u : Screen) : Screen × List Callback :=
  let (l, press) := lbxTimerTick u.keyLbx
  let (u, done) := viewTick Command.isFade keyFade { u with keyLbx := l }
  (u, (press.map Callback.itemLongPress).toList ++ done)

def lcdTimerTick (u : Screen) : Screen × List Callback :=
  match u.currentView with
  | .none => (u, [])
  | .logo => logoTimerTick u
  | .calib => calibTimerTick u
  | .title => titleTimerTick u
  | .pass => passTimerTick u
  | .pin => pinTimerTick u
  | .key => keyTimerTick u

/-- In the key view the list box ticks first. -/
theorem lcdTimerTick_cases (u : Screen) :
    (u.currentView = .none ∧ lcdTimerTick u = (u, [])) ∨
      (u.currentView ≠ .key ∧ lcdTimerTick u = viewTick u.currentView.handles noFade u) ∨
      (u.currentView = .key ∧ lcdTimerTick u = keyTimerTick u) := by
  unfold lcdTimerTick
  cases u.currentView with
  | none => exact .inl ⟨rfl, rfl⟩
  | key => exact .inr (.inr ⟨rfl, rfl⟩)
  | _ => exact .inr (.inl ⟨by decide, rfl⟩)

/-- The body of a tick changes the animation and the alpha of the list box. -/
theorem viewTick_eq (handles : Command → Bool) {fade : Command → Screen → Screen}
    (hf : ∀ c u, ∃ a, fade c u = { u with keyLbx := { u.keyLbx with alpha := a } }) (u : Screen) :
    ∃ t c a, (viewTick handles fade u).1 =
      { u with animationTimer := t, currentCommand := c, keyLbx := { u.keyLbx with alpha := a } } := by
  simp only [viewTick]
  split
  · exact ⟨_, _, _, rfl⟩
  rename_i c _
  obtain ⟨a, ha⟩ := hf c { u with animationTimer := u.animationTimer - 1 }
  rw [ha]
  split_ifs
  · exact ⟨_, _, a, rfl⟩
  · exact ⟨_, _, a, rfl⟩
  · exact ⟨_, _, _, rfl⟩

/-- A tick changes the animation and the list box, and that by its alpha and its own tick. -/
theorem lcdTimerTick_eq (u : Screen) :
    ∃ t c a l, (l = u.keyLbx ∨ l = (lbxTimerTick u.keyLbx).1) ∧ (lcdTimerTick u).1 =
      { u with animationTimer := t, currentCommand := c, keyLbx := { l with alpha := a } } := by
  rcases lcdTimerTick_cases u with ⟨-, h⟩ | ⟨-, h⟩ | ⟨-, h⟩ <;> rw [h]
  · exact ⟨_, _, _, _, .inl rfl, rfl⟩
  · obtain ⟨t, c, a, hv⟩ := viewTick_eq u.currentView.handles (fun _ u => ⟨u.keyLbx.alpha, rfl⟩) u
    exact ⟨t, c, a, _, .inl rfl, hv⟩
  · obtain ⟨t, c, a, hv⟩ := viewTick_eq Command.isFade (fun _ _ => ⟨_, rfl⟩)
      { u with keyLbx := (lbxTimerTick u.keyLbx).1 }
    exact ⟨t, c, a, _, .inr rfl, hv⟩

/-! ## Mouse -/

/-- A button whose click callback runs. -/
inductive Click where
  | pass (c : PassCtl)
  | pin (c : PinCtl)
  | key (c : KeyCtl)
deriving DecidableEq, Repr

def keyUpClick (l : Lbx) : Lbx :=
  let origin := l.origin - l.height + lbxItemHeight
  { l with origin := if origin < 0 then 0 else origin }

def keyDownClick (l : Lbx) : Lbx :=
  let maxOrigin := (l.nItems - (l.height.tdiv lbxItemHeight - 2)) * lbxItemHeight
  let maxOrigin := if maxOrigin < 0 then 0 else maxOrigin
  let origin := l.origin + l.height - lbxItemHeight
  { l with origin := if origin > maxOrigin then maxOrigin else origin }

/-- The click callbacks. -/
def Screen.click (u : Screen) : Click → Screen × List Callback
  | .pass .ok => (u, [.passphraseOk])
  | .pass c => (u.withPass u.passCaption (u.passEdit.click c), [])
  | .pin .ok => (u, [.pinOk])
  | .pin c => (u.withPin u.pinCaption (u.pinEdit.click c), [])
  | .key .up => ({ u with keyLbx := keyUpClick u.keyLbx }, [])
  | .key .down => ({ u with keyLbx := keyDownClick u.keyLbx }, [])
  | .key .lbx => (u, [])

def viewMouseDown (u : Screen) (x y : Int) : Screen :=
  match u.currentView with
  | .pass => { u with passView := u.passView.mouseDown passControls x y }
  | .pin => { u with pinView := u.pinView.mouseDown pinControls x y }
  | .key =>
    match getReceiver u.keyView keyControls x y with
    | some .lbx => { u with keyLbx := lbxMouseDown u.keyLbx y, keyView := { u.keyView with capturing := some .lbx } }
    | some c => { u with keyView := btnMouseDown u.keyView c }
    | none => u
  | _ => u

def viewMouseMove (u : Screen) (x y : Int) : Screen :=
  match u.currentView with
  | .pass => { u with passView := u.passView.mouseMove passControls x y }
  | .pin => { u with pinView := u.pinView.mouseMove pinControls x y }
  | .key =>
    match getReceiver u.keyView keyControls x y with
    | some .lbx => if u.keyView.capturing = some .lbx then { u with keyLbx := lbxMouseMove u.keyLbx y } else u
    | some c => { u with keyView := btnMouseMove u.keyView keyControls c x y }
    | none => u
  | _ => u

/-- With the click to run, if the release is one. -/
def viewMouseUp (u : Screen) (x y : Int) : Screen × Option Click :=
  match u.currentView with
  | .pass =>
    let (p, c) := u.passView.mouseUp passControls x y
    ({ u with passView := p }, c.map .pass)
  | .pin =>
    let (p, c) := u.pinView.mouseUp pinControls x y
    ({ u with pinView := p }, c.map .pin)
  | .key =>
    match getReceiver u.keyView keyControls x y with
    | some .lbx =>
      if u.keyView.capturing = some .lbx then
        ({ u with keyView := { u.keyView with capturing := none }, keyLbx := lbxMouseUp u.keyLbx }, none)
      else (u, none)
    | some c =>
      let (p, click) := btnMouseUp u.keyView c
      ({ u with keyView := p }, if click then some (.key c) else none)
    | none => (u, none)
  | _ => (u, none)

end Keynjector.Ui
