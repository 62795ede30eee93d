import Keynjector.Ui.LongPress
/-
# Where buttons are pressed (ui.c:1188-1242, 2257-2352)

A button that captures the mouse gets every event of its view, wherever it happens, and a
release is a click if the button is `inverted`. A mouse down inverts the capturing button
without a look at the position, and both the capture and the flag outlive a change of the
view. So a click may belong to a press long ago (`staleClick`), unless every mouse down hits
the buttons that are still held (`clicks_inside`).

| here | there |
| --- | --- |
| `lastDown`, `lastAt` | the last mouse down, and the last mouse down or move |
| `Panel.Tracks`       | what a view's capture and flags say of the two positions |
| `Aimed`              | an event hits the buttons that are still held |
-/

namespace Keynjector.Ui

open Runs

/-! ## The positions -/

/-- The position of the last mouse down. -/
def lastDown (cs : List Call) : Option (Int × Int) :=
  cs.foldl (fun at' c => match c with | .mouseDown x y => some (x, y) | _ => at') none

/-- The position of the last mouse down or move. -/
def lastAt (cs : List Call) : Option (Int × Int) :=
  cs.foldl (fun at' c => match c with | .mouseDown x y => some (x, y) | .mouseMove x y => some (x, y) | _ => at') none

def Click.view : Click → View
  | .pass _ => .pass
  | .pin _ => .pin
  | .key _ => .key

/-- The rectangle of the button holds the position. -/
def Click.contains : Click → Int → Int → Bool
  | .pass c => inside passControls c
  | .pin c => inside pinControls c
  | .key c => inside keyControls c

/-- The position is known and inside the button. -/
def Click.Holds (k : Click) (at' : Option (Int × Int)) : Prop := ∃ x y, at' = some (x, y) ∧ k.contains x y = true

/-- Every click is of a button of the current view that holds the last mouse down and the last position. -/
def ClicksInside (u : Screen) (cs : List Call) : Prop :=
  ∀ pre x y, pre ++ [.mouseUp x y] <+: cs → ∀ k, (viewMouseUp (run Screen.step u pre) x y).2 = some k →
    k.view = (run Screen.step u pre).currentView ∧ k.Holds (lastDown pre) ∧ k.Holds (lastAt pre)

/-- The button captures the mouse in its view. -/
def Screen.holds (u : Screen) : Click → Prop
  | .pass c => u.passView.capturing = some c
  | .pin c => u.pinView.capturing = some c
  | .key c => c ≠ .lbx ∧ u.keyView.capturing = some c

/-- The button is shown pressed. -/
def Screen.inverted (u : Screen) : Click → Bool
  | .pass c => u.passView.inverted c
  | .pin c => u.pinView.inverted c
  | .key c => u.keyView.inverted c

/-- A mouse down hits every button still held, and a move every one that another view still shows pressed. -/
def Aimed (u : Screen) : Call → Prop
  | .mouseDown x y => ∀ k, u.holds k → k.contains x y = true
  | .mouseMove x y => ∀ k, u.holds k → u.inverted k = true → k.view ≠ u.currentView → k.contains x y = true
  | _ => True

/-! ## One view -/

section

variable {C : Type} [DecidableEq C] {p : Panel C} {cs : List (Option C × Rect)} {btn : C → Prop}
  {down last : Option (Int × Int)} {c : C} {x y : Int}

/-- `btn` are the buttons among the controls. -/
structure Panel.Tracks (p : Panel C) (cs : List (Option C × Rect)) (btn : C → Prop)
    (down last : Option (Int × Int)) : Prop where
  held : ∀ c, p.inverted c = true → btn c ∧ p.capturing = some c
  down : ∀ c, btn c → p.capturing = some c → ∃ x y, down = some (x, y) ∧ inside cs c x y = true
  last : ∀ c, p.inverted c = true → ∃ x y, last = some (x, y) ∧ inside cs c x y = true

/-- With no button held, nothing is said of the positions. -/
theorem Panel.tracks_free (hinv : ∀ c, p.inverted c = false) (hfree : ∀ c, btn c → p.capturing ≠ some c) :
    p.Tracks cs btn down last :=
  ⟨fun c hi => absurd hi (by rw [hinv c]; decide), fun c hb hc => absurd hc (hfree c hb),
    fun c hi => absurd hi (by rw [hinv c]; decide)⟩

theorem inside_of_findControl (h : findControl cs x y = some c) : inside cs c x y = true := by
  obtain ⟨d, hd, hc⟩ := Option.bind_eq_some_iff.1 h
  exact List.any_eq_true.2 ⟨d, List.mem_of_find?_eq_some hd, by simpa [hc] using List.find?_some hd⟩

/-- The receiver of an event is the capturing control or is hit. -/
theorem getReceiver_cases (h : getReceiver p cs x y = some c) :
    p.capturing = some c ∨ p.capturing = none ∧ inside cs c x y = true := by
  unfold getReceiver at h
  split at h
  · rename_i d hd
    exact .inl (hd.trans h)
  · rename_i hnone
    exact .inr ⟨hnone, inside_of_findControl h⟩

namespace Panel.Tracks

/-- A mouse down that hits what is held, delivered elsewhere. -/
theorem downElsewhere (h : p.Tracks cs btn down last)
    (haim : ∀ c, btn c → p.capturing = some c → inside cs c x y = true) :
    p.Tracks cs btn (some (x, y)) (some (x, y)) :=
  ⟨h.held, fun c hb hc => ⟨x, y, rfl, haim c hb hc⟩,
    fun c hi => ⟨x, y, rfl, haim c (h.held c hi).1 (h.held c hi).2⟩⟩

theorem moveElsewhere (h : p.Tracks cs btn down last)
    (haim : ∀ c, btn c → p.capturing = some c → p.inverted c = true → inside cs c x y = true) :
    p.Tracks cs btn down (some (x, y)) :=
  ⟨h.held, h.down, fun c hi => ⟨x, y, rfl, haim c (h.held c hi).1 (h.held c hi).2 hi⟩⟩

theorem uninverted (h : p.Tracks cs btn down last) (hfree : ∀ c, btn c → p.capturing ≠ some c) (c : C) :
    p.inverted c = false := by
  by_contra hi
  obtain ⟨hb, hc⟩ := h.held c (by simpa using hi)
  exact hfree c hb hc

/-- A control that takes the mouse had it, or nothing had. -/
theorem only (h : p.Tracks cs btn down last) (hr : getReceiver p cs x y = some c) {d : C} (hi : p.inverted d = true) :
    d = c := by
  obtain ⟨-, hd⟩ := h.held d hi
  rcases getReceiver_cases hr with hc | ⟨hnone, -⟩
  · exact Option.some.inj (hd.symm.trans hc)
  · exact absurd (hnone.symm.trans hd) (by simp)

/-- A mouse down on a button. -/
theorem btnDown (h : p.Tracks cs btn down last) (hr : getReceiver p cs x y = some c) (hb : btn c)
    (haim : ∀ c, btn c → p.capturing = some c → inside cs c x y = true) :
    (btnMouseDown p c).Tracks cs btn (some (x, y)) (some (x, y)) := by
  have hin : inside cs c x y = true := (getReceiver_cases hr).elim (haim c hb) And.right
  have honly : ∀ d, (btnMouseDown p c).inverted d = true → d = c := by
    intro d hi
    by_contra hne
    refine hne (h.only hr ?_)
    simpa [btnMouseDown, Panel.setInverted, hne] using hi
  refine ⟨fun d hi => ?_, fun d _ hd => ?_, fun d hi => ?_⟩
  · rw [honly d hi]
    exact ⟨hb, rfl⟩
  · rw [← Option.some.inj hd]
    exact ⟨x, y, rfl, hin⟩
  · rw [honly d hi]
    exact ⟨x, y, rfl, hin⟩

/-- A mouse move seen by a button. -/
theorem btnMove (h : p.Tracks cs btn down last) (hr : getReceiver p cs x y = some c) (hb : btn c) :
    (btnMouseMove p cs c x y).Tracks cs btn down (some (x, y)) := by
  unfold btnMouseMove
  split_ifs with hc
  · have honly : ∀ d, (p.setInverted c (inside cs c x y)).inverted d = true → d = c := by
      intro d hi
      by_contra hne
      refine hne (h.only hr ?_)
      simpa [Panel.setInverted, hne] using hi
    refine ⟨fun d hi => ?_, h.down, fun d hi => ?_⟩
    · rw [honly d hi]
      exact ⟨hb, hc⟩
    · obtain rfl := honly d hi
      exact ⟨x, y, rfl, by simpa [Panel.setInverted] using hi⟩
  · have hnone : p.capturing = none := ((getReceiver_cases hr).resolve_left hc).1
    have hfree : ∀ d, btn d → p.capturing ≠ some d := fun d _ hd => absurd (hnone.symm.trans hd) (by simp)
    exact tracks_free (h.uninverted hfree) hfree

/-- A mouse up seen by a button; it lets go. -/
theorem btnUp (h : p.Tracks cs btn down last) (hr : getReceiver p cs x y = some c) :
    (btnMouseUp p c).1.Tracks cs btn down last := by
  unfold btnMouseUp
  split_ifs with hc hi
  · refine tracks_free (fun d => ?_) (fun d _ => by simp)
    by_contra hd
    have hne : d ≠ c := by
      rintro rfl
      simp [Panel.setInverted] at hd
    exact hne (h.only hr (by simpa [Panel.setInverted, hne] using hd))
  · refine tracks_free (fun d => ?_) (fun d _ => by simp)
    by_contra hd
    have hd : p.inverted d = true := by simpa using hd
    exact hi (h.only hr hd ▸ hd)
  · exact h

theorem btnUp_click (hclick : (btnMouseUp p c).2 = true) : p.capturing = some c ∧ p.inverted c = true := by
  unfold btnMouseUp at hclick
  split_ifs at hclick with hc hi
  exact ⟨hc, hi⟩

omit [DecidableEq C] in
/-- A view with no receiver holds nothing. -/
theorem free_of_none (hr : getReceiver p cs x y = none) (c : C) : p.capturing ≠ some c := by
  intro hc
  rw [getReceiver, hc] at hr
  cases hr

/-! A view all of whose live controls are buttons. -/

theorem mouseDown (h : p.Tracks cs (fun _ => True) down last)
    (haim : ∀ c, p.capturing = some c → inside cs c x y = true) :
    (p.mouseDown cs x y).Tracks cs (fun _ => True) (some (x, y)) (some (x, y)) := by
  unfold Panel.mouseDown
  split
  · rename_i c hr
    exact h.btnDown hr trivial fun c _ => haim c
  · rename_i hr
    exact tracks_free (h.uninverted fun c _ => free_of_none hr c) fun c _ => free_of_none hr c

theorem mouseMove (h : p.Tracks cs (fun _ => True) down last) :
    (p.mouseMove cs x y).Tracks cs (fun _ => True) down (some (x, y)) := by
  unfold Panel.mouseMove
  split
  · rename_i c hr
    exact h.btnMove hr trivial
  · rename_i hr
    exact tracks_free (h.uninverted fun c _ => free_of_none hr c) fun c _ => free_of_none hr c

theorem mouseUp (h : p.Tracks cs (fun _ => True) down last) :
    (p.mouseUp cs x y).1.Tracks cs (fun _ => True) down last := by
  unfold Panel.mouseUp
  split
  · rename_i c hr
    exact h.btnUp hr
  · exact h

theorem mouseUp_click (hclick : (p.mouseUp cs x y).2 = some c) : p.capturing = some c ∧ p.inverted c = true := by
  unfold Panel.mouseUp at hclick
  split at hclick
  · rename_i d hr
    dsimp only at hclick
    split_ifs at hclick with hd
    cases hclick
    exact btnUp_click hd
  · cases hclick

end Panel.Tracks

end

/-! ## The interface -/

structure Screen.Tracks (u : Screen) (down last : Option (Int × Int)) : Prop where
  pass : u.passView.Tracks passControls (fun _ => True) down last
  pin : u.pinView.Tracks pinControls (fun _ => True) down last
  key : u.keyView.Tracks keyControls (fun c => c ≠ .lbx) down last

section

variable {u : Screen} {cs : List Call} {down last : Option (Int × Int)} {x y : Int} {k : Click}

/-- The capture and the flags of all views are the same. -/
def SamePanels (u u' : Screen) : Prop := u'.passView = u.passView ∧ u'.pinView = u.pinView ∧ u'.keyView = u.keyView

theorem Screen.Tracks.same {u' : Screen} (h : u.Tracks down last) (hs : SamePanels u u') : u'.Tracks down last := by
  obtain ⟨hpass, hpin, hkey⟩ := hs
  exact ⟨hpass ▸ h.pass, hpin ▸ h.pin, hkey ▸ h.key⟩

theorem click_panels (u : Screen) (k : Click) : SamePanels u (u.click k).1 := by
  rcases k with (_ | _) | (_ | _) | (_ | _ | _) <;> exact ⟨rfl, rfl, rfl⟩

theorem lcdTimerTick_panels (u : Screen) : SamePanels u (lcdTimerTick u).1 := by
  obtain ⟨t, c, a, l, -, h⟩ := lcdTimerTick_eq u
  rw [h]
  exact ⟨rfl, rfl, rfl⟩

/-- While the list box takes the mouse, no button is shown pressed. -/
theorem Screen.Tracks.lbx (h : u.Tracks down last) (hr : getReceiver u.keyView keyControls x y = some .lbx)
    (c : KeyCtl) : u.keyView.inverted c = false := by
  by_contra hi
  have hi : u.keyView.inverted c = true := by simpa using hi
  exact (h.key.held c hi).1 (h.key.only hr hi)

theorem Screen.Tracks.mouseDown (h : u.Tracks down last) (haim : Aimed u (.mouseDown x y)) :
    (viewMouseDown u x y).Tracks (some (x, y)) (some (x, y)) := by
  have haimKey : ∀ c, c ≠ .lbx → u.keyView.capturing = some c → inside keyControls c x y = true :=
    fun c hb hc => haim (.key c) ⟨hb, hc⟩
  have hpass := h.pass.downElsewhere (x := x) (y := y) fun c _ hc => haim (.pass c) hc
  have hpin := h.pin.downElsewhere (x := x) (y := y) fun c _ hc => haim (.pin c) hc
  have hkey := h.key.downElsewhere haimKey
  cases hview : u.currentView <;> simp only [viewMouseDown, hview]
  case pass => exact ⟨h.pass.mouseDown fun c hc => haim (.pass c) hc, hpin, hkey⟩
  case pin => exact ⟨hpass, h.pin.mouseDown fun c hc => haim (.pin c) hc, hkey⟩
  case key =>
    rcases hr : getReceiver u.keyView keyControls x y with _ | _ | _ | _
    · exact ⟨hpass, hpin, hkey⟩
    · exact ⟨hpass, hpin, Panel.tracks_free (h.lbx hr) fun c hb hc => hb (Option.some.inj hc).symm⟩
    · exact ⟨hpass, hpin, h.key.btnDown hr (by decide) haimKey⟩
    · exact ⟨hpass, hpin, h.key.btnDown hr (by decide) haimKey⟩
  all_goals exact ⟨hpass, hpin, hkey⟩

theorem Screen.Tracks.mouseMove (h : u.Tracks down last) (haim : Aimed u (.mouseMove x y)) :
    (viewMouseMove u x y).Tracks down (some (x, y)) := by
  have hpass : u.currentView ≠ .pass → u.passView.Tracks passControls (fun _ => True) down (some (x, y)) :=
    fun hv => h.pass.moveElsewhere fun c _ hc hi => haim (.pass c) hc hi hv.symm
  have hpin : u.currentView ≠ .pin → u.pinView.Tracks pinControls (fun _ => True) down (some (x, y)) :=
    fun hv => h.pin.moveElsewhere fun c _ hc hi => haim (.pin c) hc hi hv.symm
  have hkey : u.currentView ≠ .key → u.keyView.Tracks keyControls (fun c => c ≠ .lbx) down (some (x, y)) :=
    fun hv => h.key.moveElsewhere fun c hb hc hi => haim (.key c) ⟨hb, hc⟩ hi hv.symm
  cases hview : u.currentView <;> rw [hview] at hpass hpin hkey <;> simp only [viewMouseMove, hview]
  case pass => exact ⟨h.pass.mouseMove, hpin (by decide), hkey (by decide)⟩
  case pin => exact ⟨hpass (by decide), h.pin.mouseMove, hkey (by decide)⟩
  case key =>
    rcases hr : getReceiver u.keyView keyControls x y with _ | _ | _ | _
    · have hfree : ∀ c : KeyCtl, c ≠ .lbx → u.keyView.capturing ≠ some c := fun c _ => Panel.Tracks.free_of_none hr c
      exact ⟨hpass (by decide), hpin (by decide), Panel.tracks_free (h.key.uninverted hfree) hfree⟩
    · have hfree : ∀ c : KeyCtl, c ≠ .lbx → u.keyView.capturing ≠ some c := by
        intro c hb hc
        rcases getReceiver_cases hr with hl | ⟨hnone, -⟩
        · exact hb (Option.some.inj (hc.symm.trans hl))
        · exact absurd (hnone.symm.trans hc) (by simp)
      dsimp only
      split_ifs
      · exact ⟨hpass (by decide), hpin (by decide), Panel.tracks_free (h.lbx hr) hfree⟩
      · exact ⟨hpass (by decide), hpin (by decide), Panel.tracks_free (h.lbx hr) hfree⟩
    · exact ⟨hpass (by decide), hpin (by decide), h.key.btnMove hr (by decide)⟩
    · exact ⟨hpass (by decide), hpin (by decide), h.key.btnMove hr (by decide)⟩
  all_goals exact ⟨hpass (by decide), hpin (by decide), hkey (by decide)⟩

theorem Screen.Tracks.mouseUp (h : u.Tracks down last) : (viewMouseUp u x y).1.Tracks down last := by
  have hlbx := fun hr => h.lbx (x := x) (y := y) hr
  obtain ⟨hpass, hpin, hkey⟩ := h
  cases hview : u.currentView <;> simp only [viewMouseUp, hview]
  case pass => exact ⟨hpass.mouseUp, hpin, hkey⟩
  case pin => exact ⟨hpass, hpin.mouseUp, hkey⟩
  case key =>
    rcases hr : getReceiver u.keyView keyControls x y with _ | _ | _ | _
    · exact ⟨hpass, hpin, hkey⟩
    · dsimp only
      split_ifs
      · exact ⟨hpass, hpin, Panel.tracks_free (hlbx hr) fun c _ => by simp⟩
      · exact ⟨hpass, hpin, hkey⟩
    · exact ⟨hpass, hpin, hkey.btnUp hr⟩
    · exact ⟨hpass, hpin, hkey.btnUp hr⟩
  all_goals exact ⟨hpass, hpin, hkey⟩

/-- **A click** is of a button of the current view that the last mouse down and the last position hit. -/
theorem Screen.Tracks.click (h : u.Tracks down last) (hclick : (viewMouseUp u x y).2 = some k) :
    k.view = u.currentView ∧ k.Holds down ∧ k.Holds last := by
  cases hview : u.currentView <;> simp only [viewMouseUp, hview] at hclick
  case pass =>
    obtain ⟨c, hc, rfl⟩ := Option.map_eq_some_iff.1 hclick
    obtain ⟨hcap, hi⟩ := Panel.Tracks.mouseUp_click hc
    exact ⟨rfl, h.pass.down c trivial hcap, h.pass.last c hi⟩
  case pin =>
    obtain ⟨c, hc, rfl⟩ := Option.map_eq_some_iff.1 hclick
    obtain ⟨hcap, hi⟩ := Panel.Tracks.mouseUp_click hc
    exact ⟨rfl, h.pin.down c trivial hcap, h.pin.last c hi⟩
  case key =>
    rcases hr : getReceiver u.keyView keyControls x y with _ | _ | _ | _ <;> simp only [hr] at hclick
    · cases hclick
    · split_ifs at hclick
    · split_ifs at hclick with hup
      cases hclick
      obtain ⟨hcap, hi⟩ := Panel.Tracks.btnUp_click hup
      exact ⟨rfl, h.key.down _ (by decide) hcap, h.key.last _ hi⟩
    · split_ifs at hclick with hup
      cases hclick
      obtain ⟨hcap, hi⟩ := Panel.Tracks.btnUp_click hup
      exact ⟨rfl, h.key.down _ (by decide) hcap, h.key.last _ hi⟩
  all_goals cases hclick

/-- **One call** keeps track of the two positions. -/
theorem Screen.Tracks.step (h : u.Tracks (lastDown cs) (lastAt cs)) {c : Call} (haim : Aimed u c) :
    (u.step c).Tracks (lastDown (cs ++ [c])) (lastAt (cs ++ [c])) := by
  have hdown : ∀ c, lastDown (cs ++ [c]) = match c with | .mouseDown x y => some (x, y) | _ => lastDown cs := by
    intro c
    rw [lastDown, List.foldl_append]
    rfl
  have hlast : ∀ c, lastAt (cs ++ [c]) = match c with
      | .mouseDown x y => some (x, y) | .mouseMove x y => some (x, y) | _ => lastAt cs := by
    intro c
    rw [lastAt, List.foldl_append]
    rfl
  rw [hdown, hlast]
  cases c with
  | mouseDown x y => exact h.mouseDown haim
  | mouseMove x y => exact h.mouseMove haim
  | mouseUp x y =>
    have hup := h.mouseUp (x := x) (y := y)
    simp only [Screen.step, Screen.call]
    split
    · rename_i heq
      rw [heq] at hup
      exact hup
    · rename_i heq
      rw [heq] at hup
      exact hup.same (click_panels _ _)
  | timerTick => exact h.same (lcdTimerTick_panels u)
  | setView v =>
    refine h.same ?_
    simp only [Screen.step, Screen.call, lcdSetView]
    split_ifs <;> exact ⟨rfl, rfl, rfl⟩
  | setKeys keys => exact h.same ⟨rfl, rfl, rfl⟩
  | startCommand c =>
    refine h.same ?_
    simp only [Screen.step, Screen.call, lcdStartCommand]
    split_ifs <;> exact ⟨rfl, rfl, rfl⟩

end

/-! ## Runs -/

theorem tracks_of_guarded (mem : Memory) {cs : List Call} (hg : Guarded Screen.step Aimed (Screen.init mem) cs) :
    (run Screen.step (Screen.init mem) cs).Tracks (lastDown cs) (lastAt cs) := by
  refine Guarded.history (P := fun cs => (run Screen.step (Screen.init mem) cs).Tracks (lastDown cs) (lastAt cs))
    ⟨Panel.tracks_free (fun _ => rfl) nofun, Panel.tracks_free (fun _ => rfl) nofun,
      Panel.tracks_free (fun _ => rfl) nofun⟩ ?_ hg
  rintro cs c - haim h
  rw [run_snoc]
  exact h.step haim

/-- **Buttons click only where they are pressed**, as long as every mouse down hits the buttons still held, and every
move those that another view still shows pressed. -/
theorem clicks_inside (mem : Memory) (cs : List Call) (hg : Guarded Screen.step Aimed (Screen.init mem) cs) :
    ClicksInside (Screen.init mem) cs := by
  rintro pre x y ⟨post, rfl⟩ k hclick
  rw [List.append_assoc] at hg
  exact (tracks_of_guarded mem (Guarded.append.1 hg).1).click hclick

/-- The button `up` of the passphrase view, pressed and let go. -/
theorem clicks_inside_sample : (Click.pass .up).Holds (lastDown [.setView .pass, .mouseDown 100 130]) := by
  have haim : ∀ k, (run Screen.step (Screen.init ⟨[], [], []⟩) [.setView .pass]).holds k →
      k.contains 100 130 = true := by
    rintro (c | c | c) hk
    · cases hk
    · cases hk
    · cases hk.2
  exact (clicks_inside ⟨[], [], []⟩ [.setView .pass, .mouseDown 100 130, .mouseUp 100 130]
    ⟨trivial, haim, trivial, trivial⟩ _ 100 130 ⟨[], rfl⟩ (.pass .up) (by decide +kernel)).2.1

/-- The digit 1 is pressed; the card is pulled, and the finger lifted while the title is shown. Back in the PIN view
the digit 5 is pressed. -/
def staleClick : List Call :=
  [.setView .pin, .mouseDown 60 100, .setView .title, .mouseUp 60 100, .setView .pin, .mouseDown 120 170]

/-- The release types a 1. -/
theorem clicks_stale : ¬ ClicksInside (Screen.init ⟨[], [], []⟩) (staleClick ++ [.mouseUp 120 170]) := by
  intro h
  obtain ⟨-, ⟨x, y, hdown, hin⟩, -⟩ := h staleClick 120 170 ⟨[], rfl⟩ (.pin (.digit 1)) (by decide +kernel)
  cases hdown
  exact absurd hin (by decide +kernel)

end Keynjector.Ui
