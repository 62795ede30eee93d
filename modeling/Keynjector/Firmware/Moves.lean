import Mathlib.Logic.Relation
import Keynjector.Lib.Runs
import Keynjector.Firmware.Main
/-
# What a step of the firmware can do

`Move` lists the changes a step is made of, each with the tests the code has made before
it and, for a click, the button that was released (`clicked`). `step_cases` says that a step
is moves, or the main loop seeing the card change; after it no function of `main.c` need be
taken apart, and an invariant of the firmware is shown move by move (`run_invariant`).
-/

namespace Keynjector.Firmware

open Ui Runs

/-- Same view, same character arrays and editors: a redraw, a message, an animation step,
a change in the list box or in what the mouse holds. -/
structure SameEditors (u u' : Screen) : Prop where
  view : u'.currentView = u.currentView
  mem : u'.mem = u.mem
  passCaption : u'.passCaption = u.passCaption
  passEdit : u'.passEdit = u.passEdit
  pinCaption : u'.pinCaption = u.pinCaption
  pinEdit : u'.pinEdit = u.pinEdit

/-- `K` are the clicks that can happen. -/
inductive Move (K : Click → Prop) (fw : Fw) : Fw → Prop
  | screen {u : Screen} : SameEditors fw.ui u → Move K fw { fw with ui := u }
  | view {v : View} {c : Command} : v = .title ∨ v = .calib ∧ fw.calibState ≠ .done → Move K fw (fw.show v c)
  | minor (s : CalibState) (ps : List CalibPoint) (formatValid attempted ok : Bool) :
      s = fw.calibState ∨ fw.calibState ≠ .done ∨ fw.ui.currentView = .calib →
      (fw.decryptAttempted = true → attempted = true) →
      Move K fw { fw with calibState := s, points := ps, fileFormatValid := formatValid, decryptAttempted := attempted,
                          pinOk := ok }
  | writeState : fw.calibState = .done → fw.ui.currentView = .calib → Move K fw (writeState fw)
  | insertSd : fw.sdCardInserted = false → Move K fw (showInsertSd fw)
  | decrypt (card : Card) : fw.sdCardInserted = true → fw.passphraseSet = true → fw.decryptAttempted = false →
      Move K fw (setDecryptOk card fw)
  | promptPassphrase : fw.sdCardInserted = true → fw.decryptOk = false → fw.calibState = .done →
      Move K fw (promptPassphrase fw)
  | assignPin : fw.sdCardInserted = true → fw.decryptOk = true → fw.pinSet = false → fw.calibState = .done →
      fw.decryptAttempted = true → Move K fw (assignPin fw)
  | enterPin : fw.sdCardInserted = true → fw.decryptOk = true → fw.pinSet = true → fw.calibState = .done →
      fw.decryptAttempted = true → Move K fw (enterPin fw)
  | showKeys : fw.sdCardInserted = true → fw.decryptOk = true → fw.pinSet = true → fw.pinEntered = true →
      fw.storedPin = fw.typedPin → Move K fw (showKeys fw)
  | passClick (c : PassCtl) : K (.pass c) → fw.ui.currentView = .pass →
      Move K fw { fw.emit (.passClick c) with ui := fw.ui.withPass fw.ui.passCaption (fw.ui.passEdit.click c) }
  | pinClick (c : PinCtl) : K (.pin c) → c ≠ .ok → fw.ui.currentView = .pin →
      Move K fw { fw with ui := fw.ui.withPin fw.ui.pinCaption (fw.ui.pinEdit.click c) }
  | passphraseOk (card : Card) : K (.pass .ok) → fw.ui.currentView = .pass → Move K fw (lcdPassphraseOk card fw)
  | pinOk : K (.pin .ok) → fw.ui.currentView = .pin → Move K fw (lcdPinOk fw)
  | longPress (v : List UInt8) : fw.ui.currentView = .key → Move K fw (fw.emit (.longPress v))
  | faded : Move K fw { fw with fadeDue := false }

/-- Any number of moves. -/
abbrev Moves (K : Click → Prop) : Fw → Fw → Prop := Relation.ReflTransGen (Move K)

variable {K : Click → Prop}

theorem Move.moves {fw fw' : Fw} (h : Move K fw fw') : Moves K fw fw' := .single h

/-- A flag that is cleared. -/
theorem of_cleared {p : Prop} (h : false = true) : p := by cases h

/-! ## Changes that leave the editors alone -/

theorem SameEditors.refl (u : Screen) : SameEditors u u := ⟨rfl, rfl, rfl, rfl, rfl, rfl⟩

theorem SameEditors.trans {u v w : Screen} (h : SameEditors u v) (h' : SameEditors v w) : SameEditors u w :=
  ⟨h'.view.trans h.view, h'.mem.trans h.mem, h'.passCaption.trans h.passCaption, h'.passEdit.trans h.passEdit,
    h'.pinCaption.trans h.pinCaption, h'.pinEdit.trans h.pinEdit⟩

theorem SameEditors.titleMsg (u : Screen) (msg : String) : SameEditors u (lcdSetTitleMsg u msg) :=
  ⟨rfl, rfl, rfl, rfl, rfl, rfl⟩

theorem SameEditors.passphraseMsg (u : Screen) (msg : String) : SameEditors u (lcdSetPassphraseMsg u msg) :=
  ⟨rfl, rfl, rfl, rfl, rfl, rfl⟩

theorem SameEditors.pinMsg (u : Screen) (msg : String) : SameEditors u (lcdSetPinMsg u msg) :=
  ⟨rfl, rfl, rfl, rfl, rfl, rfl⟩

theorem lcdStartCommand_same (u : Screen) (c : Command) : SameEditors u (lcdStartCommand u c) := by
  unfold lcdStartCommand
  split_ifs <;> exact ⟨rfl, rfl, rfl, rfl, rfl, rfl⟩

theorem lcdSetKeys_same (u : Screen) (keys : List UInt8) : SameEditors u (lcdSetKeys u keys).1 :=
  ⟨rfl, rfl, rfl, rfl, rfl, rfl⟩

theorem lcdTimerTick_same (u : Screen) : SameEditors u (lcdTimerTick u).1 := by
  obtain ⟨t, c, a, l, -, h⟩ := lcdTimerTick_eq u
  rw [h]
  exact ⟨rfl, rfl, rfl, rfl, rfl, rfl⟩

/-- A touch changes what the views hold, and the list box but for its alpha. -/
inductive Touched (u : Screen) : Screen → Prop
  | mk {p : Panel PassCtl} {q : Panel PinCtl} {r : Panel KeyCtl} {l : Lbx} : l.alpha = u.keyLbx.alpha →
      Touched u { u with passView := p, pinView := q, keyView := r, keyLbx := l }

theorem Touched.refl (u : Screen) : Touched u u := .mk rfl

theorem Touched.same {u u' : Screen} (h : Touched u u') : SameEditors u u' := by
  cases h
  exact ⟨rfl, rfl, rfl, rfl, rfl, rfl⟩

theorem lbxMouseDown_alpha (l : Lbx) (y : Int) : (lbxMouseDown l y).alpha = l.alpha := by
  simp only [lbxMouseDown]
  split_ifs <;> rfl

theorem lbxMouseMove_alpha (l : Lbx) (y : Int) : (lbxMouseMove l y).alpha = l.alpha := by
  simp only [lbxMouseMove]
  split_ifs <;> rfl

theorem viewMouseDown_touched (u : Screen) (x y : Int) : Touched u (viewMouseDown u x y) := by
  unfold viewMouseDown
  split
  · exact .mk rfl
  · exact .mk rfl
  · split
    · exact .mk (lbxMouseDown_alpha u.keyLbx y)
    · exact .mk rfl
    · exact .refl u
  · exact .refl u

theorem viewMouseMove_touched (u : Screen) (x y : Int) : Touched u (viewMouseMove u x y) := by
  unfold viewMouseMove
  split
  · exact .mk rfl
  · exact .mk rfl
  · split
    · split_ifs
      · exact .mk (lbxMouseMove_alpha u.keyLbx y)
      · exact .refl u
    · exact .mk rfl
    · exact .refl u
  · exact .refl u

theorem viewMouseUp_touched (u : Screen) (x y : Int) : Touched u (viewMouseUp u x y).1 := by
  unfold viewMouseUp
  split
  · exact .mk rfl
  · exact .mk rfl
  · split
    · split_ifs
      · exact .mk rfl
      · exact .refl u
    · exact .mk rfl
    · exact .refl u
  · exact .refl u

theorem viewMouseDown_same (u : Screen) (x y : Int) : SameEditors u (viewMouseDown u x y) :=
  (viewMouseDown_touched u x y).same

theorem viewMouseMove_same (u : Screen) (x y : Int) : SameEditors u (viewMouseMove u x y) :=
  (viewMouseMove_touched u x y).same

theorem viewMouseUp_same (u : Screen) (x y : Int) : SameEditors u (viewMouseUp u x y).1 :=
  (viewMouseUp_touched u x y).same

/-- The view a button belongs to. -/
def clickView : Click → View
  | .pass _ => .pass
  | .pin _ => .pin
  | .key _ => .key

/-- Only buttons of the current view are clicked. -/
theorem viewMouseUp_click {u : Screen} {x y : Int} {k : Click} (h : (viewMouseUp u x y).2 = some k) :
    u.currentView = clickView k := by
  cases hv : u.currentView <;> simp only [viewMouseUp, hv] at h
  case pass =>
    obtain ⟨c, -, rfl⟩ := Option.map_eq_some_iff.1 h
    rfl
  case pin =>
    obtain ⟨c, -, rfl⟩ := Option.map_eq_some_iff.1 h
    rfl
  case key =>
    split at h
    · split_ifs at h
    · split_ifs at h
      obtain rfl := Option.some.inj h
      rfl
    · cases h
  all_goals cases h

/-! ## The functions of `main.c` as moves -/

theorem SameEditors.moves {fw : Fw} {u : Screen} (h : SameEditors fw.ui u) : Moves K fw { fw with ui := u } :=
  Move.moves (.screen h)

theorem start_moves (fw : Fw) (c : Command) : Moves K fw (fw.start c) := (lcdStartCommand_same fw.ui c).moves

theorem showTitle_moves (msg : String) (fw : Fw) : Moves K fw (showTitle msg fw) :=
  .head (.screen (SameEditors.titleMsg fw.ui msg)) (.single (.view (.inl rfl)))

theorem showCalib_moves {fw : Fw} (hc : fw.calibState ≠ .done) : Moves K fw (showCalib fw) :=
  .tail (.single (.minor .init fw.points fw.fileFormatValid fw.decryptAttempted fw.pinOk (.inr (.inl hc)) id))
    (.view (.inr ⟨rfl, nofun⟩))

theorem setDecryptOk_cases (card : Card) (fw : Fw) :
    (∃ plain, setDecryptOk card fw =
        { fw with items := some plain, decryptOk := true }.emit (.decrypt (cstr fw.ui.mem.passphrase) true)) ∨
      setDecryptOk card fw = { fw with decryptOk := false }.emit (.decrypt (cstr fw.ui.mem.passphrase) false) := by
  simp only [setDecryptOk, decryptFile]
  cases card.decrypt (cstr fw.ui.mem.passphrase) with
  | some plain => exact .inl ⟨plain, rfl⟩
  | none => exact .inr rfl

theorem attemptDecrypt_moves (card : Card) {fw : Fw} (hsd : fw.sdCardInserted = true) :
    Moves K fw (attemptDecrypt card fw) := by
  have hlast : ∀ fw : Fw, Moves K fw { fw with decryptAttempted := true } := fun fw =>
    .single (.minor fw.calibState fw.points fw.fileFormatValid true fw.pinOk (.inl rfl) fun _ => rfl)
  unfold attemptDecrypt
  split_ifs with h
  · obtain ⟨ha, hp⟩ := Bool.and_eq_true_iff.1 h
    exact .head (.decrypt card hsd hp (by simpa using ha)) (hlast _)
  · exact hlast fw

/-- Card seen and panel calibrated: what the prompts of `set_next_view` come after. -/
structure Ready (fw : Fw) : Prop where
  sd : fw.sdCardInserted = true
  calibrated : fw.calibState = .done
  attempted : fw.decryptAttempted = true

theorem attemptDecrypt_ready (card : Card) {fw : Fw} (hsd : fw.sdCardInserted = true) (hc : fw.calibState = .done) :
    Ready (attemptDecrypt card fw) := by
  unfold attemptDecrypt
  split_ifs
  · obtain ⟨plain, h⟩ | h := setDecryptOk_cases card fw <;> rw [h] <;> exact ⟨hsd, hc, rfl⟩
  · exact ⟨hsd, hc, rfl⟩

theorem comparePin_moves (fw : Fw) : Moves K fw (comparePin fw) := by
  unfold comparePin
  split_ifs
  · exact .single (.minor fw.calibState fw.points fw.fileFormatValid fw.decryptAttempted (verifyPin fw) (.inl rfl) id)
  · exact .refl

theorem Ready.comparePin {fw : Fw} (h : Ready fw) : Ready (comparePin fw) := by
  unfold Firmware.comparePin
  split_ifs
  · exact ⟨h.sd, h.calibrated, h.attempted⟩
  · exact h

theorem comparePin_decryptOk (fw : Fw) : (comparePin fw).decryptOk = fw.decryptOk := by
  unfold comparePin
  split_ifs <;> rfl

/-- After the comparison, `pin_ok` stands for equal PINs. -/
theorem comparePin_spec {fw : Fw} (hp : (comparePin fw).pinSet = true) (he : (comparePin fw).pinEntered = true)
    (ho : (comparePin fw).pinOk = true) : (comparePin fw).storedPin = (comparePin fw).typedPin := by
  simp only [comparePin] at *
  split_ifs at * with h
  · exact of_decide_eq_true ho
  · exact absurd (Bool.and_eq_true_iff.2 ⟨he, hp⟩) h

theorem checkPin_moves {fw : Fw} (hr : Ready fw) (hd : fw.decryptOk = true) : Moves K fw (checkPin fw) := by
  obtain ⟨hsd, hc, ha⟩ := hr.comparePin
  have hd := (comparePin_decryptOk fw).trans hd
  refine .tail (comparePin_moves fw) ?_
  simp only [checkPin]
  split_ifs with hp he
  · exact .assignPin hsd hd (by simpa using hp) hc ha
  · exact .enterPin hsd hd (by simpa using hp) hc ha
  · simp only [Bool.or_eq_true, Bool.not_eq_true', not_or, Bool.not_eq_false] at hp he
    exact .showKeys hsd hd hp he.1 (comparePin_spec hp he.1 he.2)

theorem setKeys_moves {again : Fw → Fw} (hagain : ∀ fw, Moves K fw (again fw)) {fw : Fw} (hr : Ready fw)
    (hd : fw.decryptOk = true) : Moves K fw (setKeys again fw) := by
  refine .trans (lcdSetKeys_same fw.ui (fw.items.getD [])).moves ?_
  simp only [setKeys]
  split_ifs
  · exact checkPin_moves ⟨hr.sd, hr.calibrated, hr.attempted⟩ hd
  · exact .head (.minor fw.calibState fw.points false fw.decryptAttempted fw.pinOk (.inl rfl) id) (hagain _)

theorem nextView_moves {again : Fw → Fw} (hagain : ∀ fw, Moves K fw (again fw)) (card : Card) (fw : Fw) :
    Moves K fw (nextView again card fw) := by
  simp only [nextView]
  split_ifs with hc hsd hv hf hd hff
  · exact showCalib_moves hc
  · exact .single (.insertSd (by simpa using hsd))
  · exact showTitle_moves _ fw
  · exact showTitle_moves _ fw
  all_goals
    have hsd : fw.sdCardInserted = true := by simpa using hsd
    have hr := attemptDecrypt_ready card hsd (not_not.1 hc)
    refine .trans (attemptDecrypt_moves card hsd) ?_
  · exact .single (.promptPassphrase hr.sd (by simpa using hd) hr.calibrated)
  · exact showTitle_moves _ _
  · exact setKeys_moves hagain hr (by simpa using hd)

theorem setNextView_moves (env : Env) (fw : Fw) : Moves K fw (setNextView env fw) :=
  nextView_moves (nextView_moves (fun _ => .refl) env.again) env.card fw

/-- Only the calibration view runs commands that are no fades. -/
theorem view_of_handles {v : View} {c : Command} (h : v.handles c = true) (hc : c.isFade = false) : v = .calib := by
  cases v <;> simp_all [View.handles]

theorem lcdCommandComplete_moves (env : Env) {c : Command} {fw : Fw} (hv : fw.ui.currentView.handles c = true) :
    Moves K fw (lcdCommandComplete env c fw) := by
  cases c with
  | calibLblFadeIn => exact start_moves fw _
  | calibLblFadeOut => exact setNextView_moves env fw
  | calibPointFadeIn i =>
    have hcalib := view_of_handles hv rfl
    exact .single (.minor (.p i) fw.points fw.fileFormatValid fw.decryptAttempted fw.pinOk (.inr (.inr hcalib)) id)
  | calibPointFadeOut i =>
    have hcalib := view_of_handles hv rfl
    simp only [lcdCommandComplete]
    split
    · exact start_moves fw _
    · split_ifs
      · exact .head (.minor .done fw.points fw.fileFormatValid fw.decryptAttempted fw.pinOk (.inr (.inr hcalib)) id)
          (.head (.writeState rfl hcalib) (start_moves _ _))
      · exact start_moves fw _
  | fadeIn =>
    simp only [lcdCommandComplete]
    split_ifs
    · exact start_moves fw _
    · exact .refl
  | fadeOut => exact setNextView_moves env fw

theorem getCalibPoint_moves (i : PointNo) (raw : Option (Int × Int)) {fw : Fw} (hc : fw.calibState ≠ .done) :
    Moves K fw (getCalibPoint i raw fw) := by
  rcases raw with _ | ⟨x, y⟩
  · exact .refl
  · exact .head (.minor .init _ fw.fileFormatValid fw.decryptAttempted fw.pinOk (.inr (.inl hc)) id) (start_moves _ _)

theorem startFade_moves (fw : Fw) : Moves K fw (startFade fw) := .head .faded (start_moves _ _)

/-! ## Callbacks -/

/-- A view completes at most the command it runs. -/
def Completes (u : Screen) (calls : List Callback) : Prop :=
  calls = [] ∨ ∃ c, calls = [.commandComplete c] ∧ u.currentView.handles c = true

theorem viewTick_calls {fade : Command → Screen → Screen} (u v : Screen) :
    Completes u (viewTick u.currentView.handles fade v).2 := by
  simp only [viewTick]
  split
  · exact .inl rfl
  · rename_i c _
    split_ifs with hc
    · exact .inr ⟨c, rfl, hc⟩
    · exact .inl rfl
    · exact .inl rfl

/-- The long press, if there is one, comes first. -/
theorem lcdTimerTick_calls (u : Screen) :
    Completes u (lcdTimerTick u).2 ∨
      ∃ v l, (lcdTimerTick u).2 = .itemLongPress v :: l ∧ u.currentView = .key ∧ Completes u l := by
  have h := fun fade v => @viewTick_calls fade u v
  rcases lcdTimerTick_cases u with ⟨-, hu⟩ | ⟨-, hu⟩ | ⟨hv, hu⟩ <;> rw [hu]
  · exact .inl (.inl rfl)
  · exact .inl (h noFade u)
  · rw [hv] at h
    simp only [keyTimerTick]
    cases (lbxTimerTick u.keyLbx).2 with
    | none => exact .inl (h keyFade _)
    | some v => exact .inr ⟨v, _, rfl, hv, h keyFade _⟩

theorem Completes.moves (env : Env) {calls : List Callback} {fw : Fw} (h : Completes fw.ui calls) :
    Moves K fw (calls.foldl (Fw.callback env) fw) := by
  obtain rfl | ⟨c, rfl, hc⟩ := h
  · exact .refl
  · exact lcdCommandComplete_moves env hc

theorem Completes.same {u u' : Screen} {calls : List Callback} (hs : SameEditors u u') (h : Completes u calls) :
    Completes u' calls := by
  rwa [Completes, hs.view]

theorem tick_moves (env : Env) (fw : Fw) : Moves K fw (fw.step (.tick env)) := by
  have hs := lcdTimerTick_same fw.ui
  refine .head (.screen hs) ?_
  rcases lcdTimerTick_calls fw.ui with h | ⟨v, l, hl, hv, h⟩
  · exact Completes.moves env (h.same hs)
  · simp only [Fw.step, hl, List.foldl_cons]
    exact .head (.longPress v (hs.view.trans hv)) (Completes.moves env (h.same hs))

theorem Memory.write_read (m : Memory) (b : Option Buf) : m.write b (m.read b) = m := by
  rcases b with _ | _ | _ | _ <;> rfl

theorem withPass_self (u : Screen) : u.withPass u.passCaption u.passEdit = u := by
  simp only [Screen.withPass, Screen.passEdit, Memory.write_read]

theorem click_moves (env : Env) {fw : Fw} {k : Click} (hk : K k) (hv : fw.ui.currentView = clickView k) :
    Moves K fw (Fw.click env fw k) := by
  rcases k with c | c | c
  · have hmove := Move.passClick c hk hv
    cases c with
    | ok =>
      have hself : fw.ui.withPass fw.ui.passCaption (fw.ui.passEdit.click .ok) = fw.ui := withPass_self fw.ui
      rw [hself] at hmove
      exact .head hmove (.single (.passphraseOk env.card hk hv))
    | _ => exact .single hmove
  · cases c with
    | ok => exact .single (.pinOk hk hv)
    | _ => exact .single (.pinClick _ hk nofun hv)
  · cases c <;> exact .single (.screen ⟨rfl, rfl, rfl, rfl, rfl, rfl⟩)

/-- A passphrase submitted: what is left of it but for the screen. -/
theorem lcdPassphraseOk_cases (card : Card) (fw : Fw) :
    ∃ u, SameEditors fw.ui u ∧
      ((∃ plain, lcdPassphraseOk card fw =
          { fw with ui := u, items := some plain, passphraseSet := true, decryptOk := true, decryptAttempted := true,
                    log := fw.log ++ [.decrypt (cstr fw.ui.mem.passphrase) true] ++ [.passphraseOk true] }) ∨
        lcdPassphraseOk card fw =
          { fw with ui := u, passphraseSet := true, decryptOk := false, decryptAttempted := true,
                    log := fw.log ++ [.decrypt (cstr fw.ui.mem.passphrase) false] ++ [.passphraseOk false] }) := by
  rcases setDecryptOk_cases card { fw with passphraseSet := true } with ⟨plain, h⟩ | h
  · refine ⟨_, lcdStartCommand_same fw.ui .fadeOut, .inl ⟨plain, ?_⟩⟩
    simp only [lcdPassphraseOk, h]
    rfl
  · refine ⟨_, SameEditors.passphraseMsg fw.ui "Wrong passphrase - try again", .inr ?_⟩
    simp only [lcdPassphraseOk, h]
    rfl

/-! ## What holds of every move -/

theorem show_view {fw : Fw} {v : View} (hv : v ≠ .none) (c : Command) : (fw.show v c).ui.currentView = v := by
  refine (lcdStartCommand_same _ c).view.trans ?_
  rw [lcdSetView, if_neg hv]

theorem lcdPinOk_view (fw : Fw) : (lcdPinOk fw).ui.currentView = fw.ui.currentView := by
  simp only [lcdPinOk, wrongPin]
  split_ifs
  · exact (lcdStartCommand_same _ _).view
  · exact (lcdStartCommand_same _ _).view
  · rfl
  · rfl
  · exact (lcdStartCommand_same _ _).view

theorem lcdPinOk_log (fw : Fw) : (lcdPinOk fw).log = fw.log ++ [.pinOk fw.pinSet fw.typedPin fw.storedPin] := by
  simp only [lcdPinOk, wrongPin]
  split_ifs <;> rfl

/-- The log only grows. -/
theorem Move.log_prefix {fw fw' : Fw} (h : Move K fw fw') : fw.log <+: fw'.log := by
  cases h with
  | screen | view | minor | writeState | insertSd | assignPin | pinClick | faded => exact List.prefix_refl _
  | decrypt card =>
    obtain ⟨plain, h⟩ | h := setDecryptOk_cases card fw <;> rw [h] <;> exact ⟨_, rfl⟩
  | promptPassphrase | enterPin | showKeys | passClick | longPress => exact ⟨_, rfl⟩
  | passphraseOk card =>
    obtain ⟨u, -, ⟨plain, h⟩ | h⟩ := lcdPassphraseOk_cases card fw <;> rw [h] <;>
      exact ⟨_, (List.append_assoc ..).symm⟩
  | pinOk => exact ⟨_, (lcdPinOk_log fw).symm⟩

/-- **The key view is shown by `set_next_view` only.** -/
theorem Move.key_view {fw fw' : Fw} (h : Move K fw fw') (hk : fw'.ui.currentView = .key) :
    (fw.ui.currentView = .key ∧ fw'.pinEntered = fw.pinEntered) ∨
      (fw' = Firmware.showKeys fw ∧ fw.pinEntered = true) := by
  have hother : ∀ (fw : Fw) v c, v ≠ View.none → v ≠ View.key → (fw.show v c).ui.currentView ≠ .key :=
    fun fw v c hn hv hk => hv ((show_view hn c).symm.trans hk)
  cases h with
  | screen hs => exact .inl ⟨hs.view.symm.trans hk, rfl⟩
  | view hv =>
    refine absurd hk (hother _ _ _ ?_ ?_) <;> rcases hv with rfl | ⟨rfl, -⟩ <;> decide
  | minor | writeState | passClick | pinClick | longPress | faded => exact .inl ⟨hk, rfl⟩
  | insertSd | promptPassphrase | assignPin | enterPin => exact absurd hk (hother _ _ _ (by decide) (by decide))
  | decrypt card =>
    obtain ⟨plain, h⟩ | h := setDecryptOk_cases card fw <;> rw [h] at hk ⊢ <;> exact .inl ⟨hk, rfl⟩
  | showKeys _ _ _ he => exact .inr ⟨rfl, he⟩
  | passphraseOk card =>
    obtain ⟨u, hs, ⟨plain, h⟩ | h⟩ := lcdPassphraseOk_cases card fw <;> rw [h] at hk ⊢ <;>
      exact .inl ⟨hs.view.symm.trans hk, rfl⟩
  | pinOk _ hv => exact absurd (hv.symm.trans ((lcdPinOk_view fw).symm.trans hk)) (by decide)

/-! ## Steps and runs -/

/-- The button that a release clicks. -/
def clicked (fw : Fw) : Input → Option Click
  | .mouseUp x y _ => (viewMouseUp fw.ui x y).2
  | _ => none

theorem clicked_view {fw : Fw} {i : Input} {k : Click} (h : clicked fw i = some k) :
    fw.ui.currentView = clickView k := by
  cases i with
  | mouseUp x y env => exact viewMouseUp_click h
  | _ => cases h

/-- A step with a click is the click, on a screen that differs in what the mouse holds. -/
theorem step_click {fw : Fw} {i : Input} {k : Click} (h : clicked fw i = some k) :
    ∃ u env, SameEditors fw.ui u ∧ fw.step i = Fw.click env { fw with ui := u } k := by
  cases i with
  | mouseUp x y env =>
    have hs := viewMouseUp_same fw.ui x y
    have hk : (viewMouseUp fw.ui x y).2 = some k := h
    simp only [Fw.step]
    cases hu : viewMouseUp fw.ui x y with
    | mk u c =>
      rw [hu] at hs hk
      obtain rfl : c = some k := hk
      exact ⟨u, env, hs, rfl⟩
  | _ => cases h

/-- **One step** is moves, with the click of this step, or the main loop seeing the card change. -/
theorem step_cases (fw : Fw) (i : Input) :
    Moves (fun k => clicked fw i = some k) fw (fw.step i) ∨
      ∃ err raw, i = .mainLoop err raw ∧ fw.fadeDue = false ∧ fw.calibState = .done ∧ err ≠ fw.lastMmcErr ∧
        fw.step i = observeCard err fw := by
  cases i with
  | tick env => exact .inl (tick_moves env fw)
  | mouseDown x y => exact .inl (viewMouseDown_same fw.ui x y).moves
  | mouseMove x y => exact .inl (viewMouseMove_same fw.ui x y).moves
  | mouseUp x y env =>
    cases hk : clicked fw (.mouseUp x y env) with
    | none =>
      have hs := viewMouseUp_same fw.ui x y
      have hnone : (viewMouseUp fw.ui x y).2 = none := hk
      simp only [Fw.step]
      cases hu : viewMouseUp fw.ui x y with
      | mk u c =>
        rw [hu] at hs hnone
        obtain rfl : c = none := hnone
        exact .inl hs.moves
    | some k =>
      obtain ⟨u, env', hs, h⟩ := step_click hk
      rw [h]
      exact .inl (.trans hs.moves (click_moves env' rfl (hs.view.trans (clicked_view hk))))
  | mainLoop err raw =>
    simp only [Fw.step, mainLoop]
    split_ifs with hdue
    · exact .inl (startFade_moves fw)
    split
    · rename_i hc
      by_cases he : err = fw.lastMmcErr
      · rw [pollCard, if_neg (not_not.2 he)]
        exact .inl .refl
      · rw [pollCard, if_pos he]
        exact .inr ⟨err, raw, rfl, Bool.eq_false_iff.2 hdue, hc, he, rfl⟩
    · rename_i i hc
      exact .inl (getCalibPoint_moves i raw (by rw [hc]; rintro ⟨⟩))
    · exact .inl .refl

theorem moves_invariant {Inv : Fw → Prop} (hmove : ∀ fw fw', Move K fw fw' → Inv fw → Inv fw') {fw fw' : Fw}
    (h : Moves K fw fw') (hi : Inv fw) : Inv fw' := by
  induction h with
  | refl => exact hi
  | tail _ hm ih => exact hmove _ _ hm ih

theorem step_invariant {Inv : Fw → Prop} {fw : Fw} {i : Input}
    (hmove : ∀ fw₁ fw₂, Move (fun k => clicked fw i = some k) fw₁ fw₂ → Inv fw₁ → Inv fw₂)
    (hcard : ∀ fw err, Inv fw → Inv (observeCard err fw)) (h : Inv fw) : Inv (fw.step i) := by
  rcases step_cases fw i with hm | ⟨err, -, -, -, -, -, hs⟩
  · exact moves_invariant hmove hm h
  · exact hs ▸ hcard fw err h

/-- **The invariant rule** for runs of the firmware. -/
theorem run_invariant (Inv : Fw → Prop) (hmove : ∀ K fw fw', Move K fw fw' → Inv fw → Inv fw')
    (hcard : ∀ fw err, Inv fw → Inv (observeCard err fw)) (is : List Input) {fw : Fw} (h0 : Inv fw) :
    Inv (run Fw.step fw is) := by
  induction is generalizing fw with
  | nil => exact h0
  | cons i is ih => exact ih (step_invariant (hmove _) hcard h0)

end Keynjector.Firmware
