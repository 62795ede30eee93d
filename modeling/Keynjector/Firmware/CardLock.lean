import Keynjector.Ui.LongPress
import Keynjector.Firmware.Moves
/-
# The card as a lock (main.c:610-618, 256-356, ui.c:1318-1331, 2186-2243)

The main loop sees the card gone and then starts a fade-out; only when that completes with
the card still away does `set_next_view` clear `pin_entered`. Until then the key view can come
back, or a long press complete: `backInTime`, `heldOn` and `pressedBetween` are such
sessions. `cardLock_of_timely` says that these races are the only ways.

| here | there |
| --- | --- |
| `locked`      | the card was seen gone, and no PIN has been accepted since |
| `FadesFirst`  | the key view fades out, and no long press can complete before it is gone |
| `Sealed`      | locked, with the key view not shown and not to be selected |
-/

namespace Keynjector.Firmware

open Ui Runs

def lockStep (locked : Bool) : Event → Bool
  | .card inserted => !inserted || locked
  | .pinOk pinSet typed stored => locked && pinSet && typed ≠ stored
  | _ => locked

def locked (log : List Event) : Bool := run lockStep false log

/-- The key view is selected, or a long press completes. -/
def Event.reveals : Event → Bool
  | .keyView .. | .longPress _ => true
  | _ => false

def CardLock (log : List Event) : Prop := AtEach (fun pre e => locked pre = true → e.reveals = false) log

instance (log : List Event) : Decidable (CardLock log) := inferInstanceAs (Decidable (AtEach _ _))

/-- With the card seen gone, no long press completes in the key view before the fade-out is started, and none is then as
near as the ten ticks of the fade-out and one that `key_start_command` may be interrupted by; a poll that sees the card
back finds `pin_entered` cleared already. -/
def Timely (fw : Fw) : Input → Prop
  | .tick _ => fw.fadeDue = true → fw.sdCardInserted = false → fw.ui.currentView = .key →
      fw.ui.keyLbx.selectedItem ≠ -1 → fw.ui.keyLbx.longPressTimer ≠ 1
  | .mainLoop err _ =>
      if fw.fadeDue then
        fw.sdCardInserted = false → fw.ui.currentView = .key → fw.ui.keyLbx.selectedItem ≠ -1 →
          animationTicks + 1 < fw.ui.keyLbx.longPressTimer
      else fw.calibState = .done → err ≠ fw.lastMmcErr → err ≠ noCard → locked fw.log = true → fw.pinEntered = false
  | _ => True

instance (fw : Fw) : (i : Input) → Decidable (Timely fw i)
  | .tick _ => inferInstanceAs (Decidable (_ → _ → _ → _ → _))
  | .mainLoop _ _ => inferInstanceAs (Decidable (ite _ _ _))
  | .mouseDown .. | .mouseMove .. | .mouseUp .. => .isTrue trivial

/-- The fade-out of the key view ends before a long press could. -/
structure FadesFirst (u : Screen) : Prop where
  command : u.currentCommand = some .fadeOut
  pos : 1 ≤ u.animationTimer
  le : u.animationTimer ≤ animationTicks
  first : u.keyLbx.selectedItem ≠ -1 → u.animationTimer < u.keyLbx.longPressTimer

structure LockInv (fw : Fw) : Prop where
  away : locked fw.log = true → fw.sdCardInserted = false ∨ fw.pinEntered = false
  entered : fw.ui.currentView = .key → fw.pinEntered = true
  fades : locked fw.log = true → fw.ui.currentView = .key → fw.fadeDue = true ∨ FadesFirst fw.ui
  lock : CardLock fw.log

variable {fw fw' : Fw} {u : Screen} {log : List Event} {e : Event}

theorem locked_snoc : locked (log ++ [e]) = lockStep (locked log) e := run_snoc log e

theorem CardLock.snoc (h : CardLock log) (he : locked log = true → e.reveals = false) : CardLock (log ++ [e]) :=
  AtEach.snoc.2 ⟨h, he⟩

/-! ## While the key view fades out -/

/-- One tick: the animation goes on, or it ends and nothing was pressed. -/
theorem FadesFirst.tick (h : FadesFirst u) (hv : u.currentView = .key) :
    ((lcdTimerTick u).2 = [] ∧ FadesFirst (lcdTimerTick u).1) ∨ (lcdTimerTick u).2 = [.commandComplete .fadeOut] := by
  obtain ⟨hc, hpos, hle, hfirst⟩ := h
  -- the list box ticks first, with more than one tick to go
  have hbox : (lbxTimerTick u.keyLbx).2 = none ∧ ((lbxTimerTick u.keyLbx).1.selectedItem ≠ -1 →
      u.animationTimer - 1 < (lbxTimerTick u.keyLbx).1.longPressTimer) := by
    simp only [lbxTimerTick]
    split_ifs with hsel hz
    · have := hfirst hsel.1
      omega
    · refine ⟨rfl, fun _ => ?_⟩
      have := hfirst hsel.1
      simp only
      omega
    · refine ⟨rfl, fun hs => ?_⟩
      have := hfirst hs
      simp only
      omega
  obtain ⟨hnone, hlt⟩ := hbox
  simp only [lcdTimerTick, hv, keyTimerTick, viewTick, hc, hnone, Command.isFade, if_true, Option.map_none,
    Option.toList_none, List.nil_append]
  split_ifs with hz
  · exact .inr rfl
  · refine .inl ⟨rfl, ⟨rfl, ?_, ?_, hlt⟩⟩
    · simp only [keyFade] at hz ⊢
      omega
    · simp only [keyFade]
      omega

theorem FadesFirst.mouseDown (h : FadesFirst u) (hv : u.currentView = .key) (x y : Int) :
    FadesFirst (viewMouseDown u x y) := by
  obtain ⟨hc, hpos, hle, hfirst⟩ := h
  simp only [viewMouseDown, hv]
  split
  · refine ⟨hc, hpos, hle, ?_⟩
    simp only [lbxMouseDown]
    split_ifs
    · intro hs
      exact absurd rfl hs
    · intro _
      simp only [longPressTicks, animationTicks] at *
      omega
  · exact ⟨hc, hpos, hle, hfirst⟩
  · exact ⟨hc, hpos, hle, hfirst⟩

theorem lbxMouseMove_timer (l : Lbx) (y : Int) : (lbxMouseMove l y).longPressTimer = l.longPressTimer := by
  simp only [lbxMouseMove]
  split_ifs <;> rfl

theorem FadesFirst.mouseMove (h : FadesFirst u) (hv : u.currentView = .key) (x y : Int) :
    FadesFirst (viewMouseMove u x y) := by
  obtain ⟨hc, hpos, hle, hfirst⟩ := h
  simp only [viewMouseMove, hv]
  split
  · split_ifs
    · refine ⟨hc, hpos, hle, fun hs => ?_⟩
      rw [lbxMouseMove_timer]
      have hkept := (lbxMouseMove_selected u.keyLbx y).resolve_right hs
      exact hfirst (hkept ▸ hs)
    · exact ⟨hc, hpos, hle, hfirst⟩
  · exact ⟨hc, hpos, hle, hfirst⟩
  · exact ⟨hc, hpos, hle, hfirst⟩

theorem FadesFirst.mouseUp (h : FadesFirst u) (hv : u.currentView = .key) (x y : Int) :
    FadesFirst (viewMouseUp u x y).1 := by
  obtain ⟨hc, hpos, hle, hfirst⟩ := h
  simp only [viewMouseUp, hv]
  split
  · split_ifs
    · exact ⟨hc, hpos, hle, fun hs => absurd rfl hs⟩
    · exact ⟨hc, hpos, hle, hfirst⟩
  · exact ⟨hc, hpos, hle, hfirst⟩
  · exact ⟨hc, hpos, hle, hfirst⟩

theorem FadesFirst.click (h : FadesFirst u) (c : KeyCtl) :
    (u.click (.key c)).2 = [] ∧ FadesFirst (u.click (.key c)).1 := by
  cases c <;> exact ⟨rfl, h.command, h.pos, h.le, h.first⟩

theorem setNextView_away (env : Env) (hsd : fw.sdCardInserted = false) :
    setNextView env fw = showCalib fw ∨ setNextView env fw = showInsertSd fw := by
  by_cases hc : fw.calibState = .done
  · exact .inr (by simp [setNextView, nextView, hc, hsd])
  · exact .inl (by simp [setNextView, nextView, hc])

/-- What a step leaves of the lock, with the card away and the key view to fade out. -/
def StaysLocked (fw fw' : Fw) : Prop :=
  fw'.log = fw.log ∧ fw'.sdCardInserted = false ∧
    (fw'.ui.currentView = .key → fw'.fadeDue = true ∨ FadesFirst fw'.ui)

theorem StaysLocked.screen (hsd : fw.sdCardInserted = false) (h : FadesFirst u) : StaysLocked fw { fw with ui := u } :=
  ⟨rfl, hsd, fun _ => .inr h⟩

theorem StaysLocked.next (hsd : fw.sdCardInserted = false) (env : Env) (u : Screen) :
    StaysLocked fw (setNextView env { fw with ui := u }) := by
  have hsd' : ({ fw with ui := u } : Fw).sdCardInserted = false := hsd
  rcases setNextView_away env hsd' with h | h <;> rw [h]
  · exact ⟨rfl, hsd, fun hk => absurd ((show_view (by decide) _).symm.trans hk) (by decide)⟩
  · exact ⟨rfl, hsd, fun hk => absurd ((show_view (by decide) _).symm.trans hk) (by decide)⟩

theorem tick_staysLocked (hv : fw.ui.currentView = .key) (hf : FadesFirst fw.ui) (hsd : fw.sdCardInserted = false)
    (env : Env) : StaysLocked fw (fw.step (.tick env)) := by
  rcases hf.tick hv with ⟨hcalls, hf'⟩ | hcalls
  · simp only [Fw.step, hcalls, List.foldl_nil]
    exact .screen hsd hf'
  · simp only [Fw.step, hcalls, List.foldl_cons, List.foldl_nil]
    exact .next hsd env _

theorem mouseUp_staysLocked (hv : fw.ui.currentView = .key) (hf : FadesFirst fw.ui) (hsd : fw.sdCardInserted = false)
    (x y : Int) (env : Env) : StaysLocked fw (fw.step (.mouseUp x y env)) := by
  have hf' := hf.mouseUp hv x y
  simp only [Fw.step]
  split
  · rename_i h
    rw [h] at hf'
    exact .screen hsd hf'
  · rename_i u k h
    rw [h] at hf'
    have hk : fw.ui.currentView = clickView k := viewMouseUp_click (by rw [h])
    rw [hv] at hk
    cases k with
    | pass | pin => cases hk
    | key c =>
      obtain ⟨hcalls, hclick⟩ := hf'.click c
      simp only [Fw.click, hcalls, List.foldl_nil]
      exact .screen hsd hclick

/-- Commands of the calibration do not reach the key view. -/
theorem lcdStartCommand_key (hv : u.currentView = .key) (i : PointNo) :
    lcdStartCommand u (.calibPointFadeOut i) = u := by
  simp [lcdStartCommand, hv, View.handles, Command.isFade]

theorem mainLoop_staysLocked (hv : fw.ui.currentView = .key) (hf : FadesFirst fw.ui) (hsd : fw.sdCardInserted = false)
    (hdue : fw.fadeDue = false) {err : Nat} {raw : Option (Int × Int)}
    (hpoll : fw.calibState = .done → err = fw.lastMmcErr) : StaysLocked fw (fw.step (.mainLoop err raw)) := by
  have hdue : ¬ fw.fadeDue = true := Bool.eq_false_iff.1 hdue
  cases hc : fw.calibState with
  | init => simpa only [Fw.step, mainLoop, if_neg hdue, hc] using .screen hsd hf
  | p i =>
    simp only [Fw.step, mainLoop, if_neg hdue, hc]
    rcases raw with _ | ⟨x, y⟩
    · exact .screen hsd hf
    · refine ⟨rfl, hsd, fun _ => .inr ?_⟩
      simpa only [getCalibPoint, Fw.start, lcdStartCommand_key hv] using hf
  | done =>
    simp only [Fw.step, mainLoop, if_neg hdue, hc, pollCard, hpoll hc, ne_eq, not_true, if_false]
    exact .screen hsd hf

theorem step_staysLocked (hv : fw.ui.currentView = .key) (hf : FadesFirst fw.ui) (hsd : fw.sdCardInserted = false)
    (hdue : fw.fadeDue = false) {i : Input}
    (hpoll : ∀ err raw, i = .mainLoop err raw → fw.calibState = .done → err = fw.lastMmcErr) :
    StaysLocked fw (fw.step i) := by
  cases i with
  | tick env => exact tick_staysLocked hv hf hsd env
  | mouseDown x y => exact .screen hsd (hf.mouseDown hv x y)
  | mouseMove x y => exact .screen hsd (hf.mouseMove hv x y)
  | mouseUp x y env => exact mouseUp_staysLocked hv hf hsd x y env
  | mainLoop err raw => exact mainLoop_staysLocked hv hf hsd hdue (hpoll err raw rfl)

/-! ## Before the fade-out is started -/

theorem StaysLocked.due (hsd : fw.sdCardInserted = false) (hdue : fw.fadeDue = true) :
    StaysLocked fw { fw with ui := u } :=
  ⟨rfl, hsd, fun _ => .inl hdue⟩

theorem lbxTimerTick_none {l : Lbx} (h : l.selectedItem ≠ -1 → l.longPressTimer ≠ 1) : (lbxTimerTick l).2 = none := by
  simp only [lbxTimerTick]
  split_ifs with hsel hz
  · have := h hsel.1
    omega
  · rfl
  · rfl

/-- The list box keeps still, so a tick ends a fade at most. -/
theorem tick_due (hv : fw.ui.currentView = .key) (hsd : fw.sdCardInserted = false) (hdue : fw.fadeDue = true)
    (hpress : fw.ui.keyLbx.selectedItem ≠ -1 → fw.ui.keyLbx.longPressTimer ≠ 1) (env : Env) :
    StaysLocked fw (fw.step (.tick env)) := by
  have hcalls : Completes fw.ui (lcdTimerTick fw.ui).2 := by
    have hview : (lcdTimerTick fw.ui).2 =
        (viewTick Command.isFade keyFade { fw.ui with keyLbx := (lbxTimerTick fw.ui.keyLbx).1 }).2 := by
      simp only [lcdTimerTick, hv, keyTimerTick, lbxTimerTick_none hpress]
      rfl
    rw [hview]
    have h := @viewTick_calls keyFade fw.ui
    rw [hv] at h
    exact h _
  rcases hcalls with hcalls | ⟨c, hcalls, hc⟩
  · simp only [Fw.step, hcalls, List.foldl_nil]
    exact .due hsd hdue
  · simp only [Fw.step, hcalls, List.foldl_cons, List.foldl_nil]
    rw [hv] at hc
    have hview : (lcdTimerTick fw.ui).1.currentView = .key := (lcdTimerTick_same fw.ui).view.trans hv
    cases c with
    | fadeIn =>
      simp only [Fw.callback, lcdCommandComplete, hview, reduceCtorEq, if_false]
      exact .due hsd hdue
    | fadeOut => exact .next hsd env _
    | _ => cases hc

theorem step_due (hv : fw.ui.currentView = .key) (hsd : fw.sdCardInserted = false) (hdue : fw.fadeDue = true) {i : Input}
    (hg : Timely fw i) : StaysLocked fw (fw.step i) := by
  cases i with
  | tick env => exact tick_due hv hsd hdue (hg hdue hsd hv) env
  | mouseDown x y => exact .due hsd hdue
  | mouseMove x y => exact .due hsd hdue
  | mouseUp x y env =>
    simp only [Fw.step]
    split
    · exact .due hsd hdue
    · rename_i u k h
      have hk : fw.ui.currentView = clickView k := viewMouseUp_click (by rw [h])
      rw [hv] at hk
      cases k with
      | pass | pin => cases hk
      | key c => cases c <;> exact .due hsd hdue
  | mainLoop err raw =>
    rw [Timely, if_pos hdue] at hg
    have hstart : (startFade fw).ui =
        { fw.ui with currentCommand := some .fadeOut, animationTimer := animationTicks } := by
      simp [startFade, Fw.start, lcdStartCommand, hv, View.handles, Command.isFade]
    rw [Fw.step, mainLoop, if_pos hdue]
    refine ⟨rfl, hsd, fun _ => .inr ?_⟩
    rw [hstart]
    refine ⟨rfl, by simp [animationTicks], Int.le_refl _, fun hs => ?_⟩
    have := hg hsd hv hs
    simp only
    omega

/-! ## While the key view is not shown -/

/-- Locked, with the key view neither shown nor to be selected. -/
structure Sealed (fw : Fw) : Prop where
  away : locked fw.log = true → fw.sdCardInserted = false ∨ fw.pinEntered = false
  hidden : locked fw.log = true → fw.ui.currentView ≠ .key
  lock : CardLock fw.log

theorem Sealed.mono (h : Sealed fw) (hlog : fw'.log = fw.log) (hsd : fw'.sdCardInserted = fw.sdCardInserted)
    (hent : fw'.pinEntered = true → fw.pinEntered = true) (hv : fw'.ui.currentView = .key → fw.ui.currentView = .key) :
    Sealed fw' := by
  refine ⟨?_, ?_, hlog ▸ h.lock⟩
  · rw [hlog, hsd]
    intro hl
    exact (h.away hl).imp_right fun he => Bool.eq_false_iff.2 fun ht => Bool.eq_false_iff.1 he (hent ht)
  · rw [hlog]
    intro hl hk
    exact h.hidden hl (hv hk)

theorem Sealed.emit (h : Sealed fw) (hs : lockStep (locked fw.log) e = locked fw.log) (he : e.reveals = false) :
    Sealed (fw.emit e) := by
  have hlog : locked (fw.log ++ [e]) = locked fw.log := locked_snoc.trans hs
  refine ⟨?_, ?_, h.lock.snoc fun _ => he⟩
  · rw [Fw.emit, hlog]
    exact h.away
  · rw [Fw.emit, hlog]
    exact h.hidden

/-- A device that is not locked. -/
theorem Sealed.open (hl : locked fw.log = false) (hc : CardLock fw.log) : Sealed fw :=
  ⟨fun h => absurd (hl.symm.trans h) (by decide), fun h => absurd (hl.symm.trans h) (by decide), hc⟩

theorem Sealed.unlocked (h : Sealed fw) (hsd : fw.sdCardInserted = true) (he : fw.pinEntered = true) :
    locked fw.log = false := by
  refine Bool.eq_false_iff.2 fun hl => ?_
  rcases h.away hl with h | h
  · exact absurd (hsd.symm.trans h) (by decide)
  · exact absurd (he.symm.trans h) (by decide)

theorem lockStep_wrong (l : Bool) {typed stored : List UInt8} (h : typed ≠ stored) :
    lockStep l (.pinOk true typed stored) = l := by
  simp [lockStep, h]

theorem Sealed.pinOk (h : Sealed fw) : Sealed (lcdPinOk fw) := by
  have hc : CardLock (fw.log ++ [.pinOk fw.pinSet fw.typedPin fw.storedPin]) := h.lock.snoc fun _ => rfl
  simp only [lcdPinOk]
  split_ifs with hp heq
  · have hset : fw.pinSet = false := by simpa [Fw.emit] using hp
    refine Sealed.open ?_ hc
    simp only [acceptNewPin, writeState, Fw.start, Fw.emit, locked_snoc, lockStep, hset, Bool.and_false, Bool.false_and]
  · have heq : fw.typedPin = fw.storedPin := heq
    refine Sealed.open ?_ hc
    simp [acceptPin, Fw.start, Fw.emit, locked_snoc, lockStep, heq]
  · have hset : fw.pinSet = true := by simpa [Fw.emit] using hp
    have he : Sealed (fw.emit (.pinOk fw.pinSet fw.typedPin fw.storedPin)) := by
      rw [hset]
      exact h.emit (lockStep_wrong _ heq) rfl
    simp only [wrongPin]
    split_ifs
    · exact he.mono rfl rfl id id
    · exact he.mono rfl rfl id id
    · exact he.mono rfl rfl of_cleared fun hk => (lcdStartCommand_same _ _).view.symm.trans hk

theorem Sealed.screen (h : Sealed fw) (hs : SameEditors fw.ui u) : Sealed { fw with ui := u } :=
  h.mono rfl rfl id fun hk => hs.view.symm.trans hk

theorem Sealed.show (h : Sealed fw) {v : View} (hv : v ≠ .none ∧ v ≠ .key) (c : Command) : Sealed (fw.show v c) :=
  h.mono rfl rfl id fun hk => absurd ((show_view hv.1 c).symm.trans hk) hv.2

theorem Sealed.move {K : Click → Prop} (hm : Move K fw fw') (h : Sealed fw) : Sealed fw' := by
  cases hm with
  | screen hs => exact h.screen hs
  | view hv => exact h.show (by rcases hv with rfl | ⟨rfl, -⟩ <;> decide) _
  | minor => exact h.mono rfl rfl id id
  | writeState => exact h.mono rfl rfl id id
  | insertSd =>
    have hf : Sealed (forgetEntered fw) := h.mono rfl rfl of_cleared id
    exact (hf.screen (SameEditors.titleMsg _ _)).show (by decide) _
  | decrypt card =>
    obtain ⟨plain, hd⟩ | hd := setDecryptOk_cases card fw <;> rw [hd]
    · exact (h.emit rfl rfl).mono rfl rfl id id
    · exact (h.emit rfl rfl).mono rfl rfl id id
  | promptPassphrase =>
    have hw : Sealed (wipePassphrase fw) := (h.emit (e := .wipe) rfl rfl).mono rfl rfl id id
    exact (hw.screen (SameEditors.passphraseMsg _ _)).show (by decide) _
  | assignPin =>
    have ha : Sealed { askPin "Assign PIN" .gPin fw with pinOk := false } := h.mono rfl rfl of_cleared id
    exact ha.show (by decide) _
  | enterPin =>
    have ha : Sealed { askPin "Enter PIN" .pin fw with pinAttempts := 3 } := h.mono rfl rfl of_cleared id
    exact (ha.emit (e := .enterPin) rfl rfl).show (by decide) _
  | showKeys hsd _ _ he =>
    have hl := h.unlocked hsd he
    have hl' : locked (fw.log ++ [.keyView fw.decryptOk fw.pinSet fw.typedPin fw.storedPin]) = false :=
      locked_snoc.trans hl
    exact .open hl' (h.lock.snoc fun ht => absurd (hl.symm.trans ht) (by decide))
  | passClick c => exact (h.emit (e := .passClick c) rfl rfl).mono rfl rfl id id
  | pinClick => exact h.mono rfl rfl id id
  | passphraseOk card _ hv =>
    obtain ⟨u, hs, ⟨plain, hd⟩ | hd⟩ := lcdPassphraseOk_cases card fw <;> rw [hd]
    · have he := h.emit (e := .decrypt (cstr fw.ui.mem.passphrase) true) rfl rfl
      exact (he.emit (e := .passphraseOk true) rfl rfl).mono rfl rfl id fun hk => hs.view.symm.trans hk
    · have he := h.emit (e := .decrypt (cstr fw.ui.mem.passphrase) false) rfl rfl
      exact (he.emit (e := .passphraseOk false) rfl rfl).mono rfl rfl id fun hk => hs.view.symm.trans hk
  | pinOk => exact h.pinOk
  | longPress v hv =>
    have hl : locked fw.log = false := Bool.eq_false_iff.2 fun hl => h.hidden hl hv
    exact .open (locked_snoc.trans hl) (h.lock.snoc fun ht => absurd (hl.symm.trans ht) (by decide))
  | faded => exact h.mono rfl rfl id id

/-! ## Runs -/

/-- The key view is shown only with `pin_entered` set. -/
def KeyEntered (fw : Fw) : Prop := fw.ui.currentView = .key → fw.pinEntered = true

theorem KeyEntered.move {K : Click → Prop} (hm : Move K fw fw') (h : KeyEntered fw) : KeyEntered fw' := by
  intro hk
  rcases hm.key_view hk with ⟨hv, he⟩ | ⟨rfl, he⟩
  · exact he.trans (h hv)
  · exact he

/-- The main loop sees the card gone, or back in time. -/
theorem LockInv.card (h : LockInv fw) {err : Nat} (hg : err ≠ noCard → locked fw.log = true → fw.pinEntered = false) :
    LockInv (observeCard err fw) := by
  refine ⟨?_, h.entered, fun _ _ => .inl rfl, h.lock.snoc fun _ => rfl⟩
  by_cases ho : err = noCard
  · exact fun _ => .inl (by simp [observeCard, Fw.emit, ho])
  · have hlog : locked (observeCard err fw).log = locked fw.log := by
      simp [observeCard, Fw.emit, locked_snoc, lockStep, ho]
    exact fun hl => .inr (hg ho (hlog ▸ hl))

theorem LockInv.step {i : Input} (hg : Timely fw i) (h : LockInv fw) : LockInv (fw.step i) := by
  rcases step_cases fw i with hm | ⟨err, raw, rfl, hdue, hc, herr, hs⟩
  swap
  · rw [Timely, if_neg (Bool.eq_false_iff.1 hdue)] at hg
    exact hs ▸ h.card (hg hc herr)
  have hent : KeyEntered (fw.step i) := moves_invariant (fun _ _ hm hk => KeyEntered.move hm hk) hm h.entered
  by_cases hk : locked fw.log = true ∧ fw.ui.currentView = .key
  · obtain ⟨hl, hv⟩ := hk
    have hsd : fw.sdCardInserted = false := by
      refine (h.away hl).resolve_right fun he => ?_
      exact absurd (he.symm.trans (h.entered hv)) (by decide)
    have hstays : StaysLocked fw (fw.step i) → LockInv (fw.step i) := fun ⟨hlog, hsd', hf⟩ =>
      ⟨fun _ => .inl hsd', hent, fun _ => hf, hlog ▸ h.lock⟩
    cases hdue : fw.fadeDue with
    | true => exact hstays (step_due hv hsd hdue hg)
    | false =>
      have hf : FadesFirst fw.ui := (h.fades hl hv).resolve_left (Bool.eq_false_iff.1 hdue)
      by_cases hpoll : ∀ err raw, i = .mainLoop err raw → fw.calibState = .done → err = fw.lastMmcErr
      · exact hstays (step_staysLocked hv hf hsd hdue hpoll)
      · push Not at hpoll
        obtain ⟨err, raw, rfl, hc, herr⟩ := hpoll
        rw [Timely, if_neg (Bool.eq_false_iff.1 hdue)] at hg
        simp only [Fw.step, mainLoop, hdue, hc, pollCard, ne_eq, herr, not_false_eq_true, if_true]
        exact h.card (hg hc herr)
  · have hseal : Sealed fw := ⟨h.away, fun hl hv => hk ⟨hl, hv⟩, h.lock⟩
    obtain ⟨haway, hhid, hlock⟩ := moves_invariant (fun _ _ hm hs => Sealed.move hm hs) hm hseal
    exact ⟨haway, hent, fun hl hv => absurd hv (hhid hl), hlock⟩

theorem lockInv_boot (img : Image) (valid : Bool) (mmcErr : Nat) : LockInv (boot img valid mmcErr) :=
  ⟨nofun, nofun, nofun, AtEach.nil⟩

/-- **Card removal locks the device**: from the poll that sees the card gone to the next
accepted PIN the key view is never selected and no long press completes, in every session
without a held item at the removal or a return of the card during the fade-out. -/
theorem cardLock_of_timely (img : Image) (valid : Bool) (mmcErr : Nat) (is : List Input)
    (hg : Guarded Fw.step Timely (boot img valid mmcErr) is) : CardLock (run Fw.step (boot img valid mmcErr) is).log :=
  (hg.invariant (fun _ _ hg hi => LockInv.step hg hi) (lockInv_boot img valid mmcErr)).lock

/-- The card is pulled and put back after the fade-out: the PIN is asked for. -/
def pulled : List Input := unlock ++ cardOut ++ ticks 10 ++ cardIn ++ ticks 10

theorem cardLock_of_timely_sample :
    (run Fw.step (boot sampleImage true 0) pulled).ui.currentView = .pin ∧
      CardLock (run Fw.step (boot sampleImage true 0) pulled).log :=
  ⟨by decide +kernel, cardLock_of_timely sampleImage true 0 pulled (by decide +kernel)⟩

/-- The card is put back three ticks after it was pulled. -/
def backInTime : List Input := unlock ++ cardOut ++ ticks 3 ++ cardIn ++ ticks 10

/-- An item is held for fifteen ticks when the card is pulled. -/
def heldOn : List Input := unlock ++ [.mouseDown 100 75] ++ ticks 15 ++ cardOut ++ ticks 5

/-- An item is held for nineteen ticks when the loop sees the card gone, and one more before it starts the fade-out. -/
def pressedBetween : List Input := unlock ++ [.mouseDown 100 75] ++ ticks 19 ++ [.mainLoop noCard none] ++ ticks 1

/-- **The lock is open**: the key view comes back without a PIN, and a password is typed
with the card away. -/
theorem cardLock_races : ¬ CardLock (run Fw.step (boot sampleImage true 0) backInTime).log ∧
    ¬ CardLock (run Fw.step (boot sampleImage true 0) heldOn).log ∧
    ¬ CardLock (run Fw.step (boot sampleImage true 0) pressedBetween).log := by
  decide +kernel

end Keynjector.Firmware
