import Keynjector.Firmware.Moves
/-
# The interface is never stuck (ui.c:1811-2243, main.c:256-467, 582-621)

Six views share one command and one timer. Between two calls the command is one that the
current view handles and its timer runs (`Lively`), so every animation ends.

| here | there |
| --- | --- |
| `fadeInAlpha`, `fadeOutAlpha` | `fade_in_alpha`, `fade_out_alpha` |
| `Shade`, `faded`              | the controls that fade together, and those a view's `timer_tick` fades |
| `tickShades`                  | the `alpha`s a `…_timer_tick` assigns |

`lcd_set_view` leaves a pending command behind in the view it came from; `Fw.overtaken` tells
of it, and stays empty.
-/

namespace Keynjector.Firmware

open Ui Runs

/-! ## The alphas -/

def fadeInAlpha (timer : Int) : Int := (animationTicks - timer) * (255 / animationTicks)

def fadeOutAlpha (timer : Int) : Int := timer * (255 / animationTicks)

/-- `pass` stands for all controls of the passphrase view that fade, and so do `pin` and `key`. -/
inductive Shade where
  | logo | calibLbl | calibBtn (i : PointNo) | title | pass | pin | key
deriving DecidableEq

/-- What a tick of the view redraws for the command, and whether it fades in. -/
def faded : View → Command → Option (Shade × Bool)
  | .none, _ => none
  | .calib, .calibLblFadeIn => some (.calibLbl, true)
  | .calib, .calibLblFadeOut => some (.calibLbl, false)
  | .calib, .calibPointFadeIn i => some (.calibBtn i, true)
  | .calib, .calibPointFadeOut i => some (.calibBtn i, false)
  | .logo, .fadeIn => some (.logo, true)
  | .logo, .fadeOut => some (.logo, false)
  | .title, .fadeIn => some (.title, true)
  | .title, .fadeOut => some (.title, false)
  | .pass, .fadeIn => some (.pass, true)
  | .pass, .fadeOut => some (.pass, false)
  | .pin, .fadeIn => some (.pin, true)
  | .pin, .fadeOut => some (.pin, false)
  | .key, .fadeIn => some (.key, true)
  | .key, .fadeOut => some (.key, false)
  | _, _ => none

/-- The alphas after a tick. -/
def tickShades (u : Screen) (a : Shade → Int) : Shade → Int :=
  match u.currentCommand.bind (faded u.currentView) with
  | none => a
  | some (s, fadeIn) => fun s' =>
    if s' = s then
      if fadeIn then fadeInAlpha (u.animationTimer - 1) else fadeOutAlpha (u.animationTimer - 1)
    else a s'

/-- The firmware with the alphas of its controls. -/
def shadeStep (s : Fw × (Shade → Int)) (i : Input) : Fw × (Shade → Int) :=
  (s.1.step i, match i with
    | .tick _ => tickShades s.1.ui s.2
    | _ => s.2)

/-- All controls start with `0x00`. -/
def shadeBoot (img : Image) (valid : Bool) (mmcErr : Nat) : Fw × (Shade → Int) := (boot img valid mmcErr, fun _ => 0)

theorem shadeStep_run (s : Fw × (Shade → Int)) (is : List Input) :
    (run shadeStep s is).1 = run Fw.step s.1 is := by
  induction is generalizing s with
  | nil => rfl
  | cons i is ih => exact ih _

/-! ## What keeps the animation -/

/-- No command, or one that the view handles and whose timer runs. -/
def Steady (u : Screen) : Prop :=
  ∀ c, u.currentCommand = some c →
    u.currentView.handles c = true ∧ 1 ≤ u.animationTimer ∧ u.animationTimer ≤ animationTicks

/-- The animation is as it was. -/
structure SameAnimation (u u' : Screen) : Prop where
  view : u'.currentView = u.currentView
  command : u'.currentCommand = u.currentCommand
  timer : u'.animationTimer = u.animationTimer

theorem SameAnimation.refl (u : Screen) : SameAnimation u u := ⟨rfl, rfl, rfl⟩

theorem Steady.same {u u' : Screen} (h : Steady u) (hs : SameAnimation u u') : Steady u' := by
  intro c hc
  rw [hs.view, hs.timer]
  exact h c (hs.command.symm.trans hc)

theorem Steady.idle {u : Screen} (h : u.currentCommand = none) : Steady u := by
  intro c hc
  rw [h] at hc
  cases hc

theorem Steady.start {u : Screen} (h : Steady u) (c : Command) : Steady (lcdStartCommand u c) := by
  unfold lcdStartCommand
  split_ifs with hh
  · intro c' hc
    obtain rfl := Option.some.inj hc
    exact ⟨hh, show 1 ≤ animationTicks by decide, Int.le_refl animationTicks⟩
  · exact h

/-- Nor does the list box fade. -/
structure SameFade (u u' : Screen) : Prop extends SameAnimation u u' where
  alpha : u'.keyLbx.alpha = u.keyLbx.alpha

theorem Touched.fade {u u' : Screen} (h : Touched u u') : SameFade u u' := by
  cases h with
  | mk hl => exact ⟨⟨rfl, rfl, rfl⟩, hl⟩

theorem lbxTimerTick_alpha (l : Lbx) : (lbxTimerTick l).1.alpha = l.alpha := by
  simp only [lbxTimerTick]
  split_ifs <;> rfl

theorem click_fade (u : Screen) (k : Click) : SameFade u (u.click k).1 := by
  rcases k with (_ | _) | (_ | _) | (_ | _ | _) <;> exact ⟨⟨rfl, rfl, rfl⟩, rfl⟩

/-! ## Ticks -/

/-- After a tick the animation goes on, or its command is completed and none is pending. -/
structure Ticked (u : Screen) (calls : List Callback) : Prop where
  steady : Steady u
  completes : ∀ c, .commandComplete c ∈ calls → u.currentCommand = none

theorem viewTick_ticked {u : Screen} (h : Steady u) {handles : Command → Bool} (hh : u.currentView.handles = handles)
    {fade : Command → Screen → Screen} (hf : ∀ c u, SameAnimation u (fade c u)) :
    Ticked (viewTick handles fade u).1 (viewTick handles fade u).2 := by
  simp only [viewTick]
  split
  · exact ⟨h, fun _ hc => absurd hc List.not_mem_nil⟩
  rename_i c hc
  obtain ⟨hhandles, hpos, hle⟩ := h c hc
  have hs := hf c { u with animationTimer := u.animationTimer - 1 }
  rw [if_pos (hh ▸ hhandles)]
  split_ifs with h0
  · exact ⟨.idle rfl, fun _ _ => rfl⟩
  · refine ⟨fun c' hc' => ?_, fun _ hc => absurd hc List.not_mem_nil⟩
    obtain rfl : c = c' := Option.some.inj (hc.symm.trans (hs.command.symm.trans hc'))
    rw [hs.timer] at h0
    rw [hs.view, hs.timer]
    exact ⟨hhandles, by simp only at h0 ⊢; omega, by simp only; omega⟩

theorem lcdTimerTick_ticked {u : Screen} (h : Steady u) : Ticked (lcdTimerTick u).1 (lcdTimerTick u).2 := by
  rcases lcdTimerTick_cases u with ⟨-, hu⟩ | ⟨-, hu⟩ | ⟨hv, hu⟩ <;> rw [hu]
  · exact ⟨h, fun _ hc => absurd hc List.not_mem_nil⟩
  · exact viewTick_ticked h rfl fun _ u => .refl u
  · have hlbx : Steady { u with keyLbx := (lbxTimerTick u.keyLbx).1 } := h.same ⟨rfl, rfl, rfl⟩
    have hh : u.currentView.handles = Command.isFade := by
      rw [hv]
      rfl
    have hf : ∀ c u, SameAnimation u (keyFade c u) := fun _ _ => ⟨rfl, rfl, rfl⟩
    obtain ⟨hsteady, hdone⟩ := viewTick_ticked hlbx hh hf
    have hpress : ∀ (c : Command) (o : Option (List UInt8)),
        .commandComplete c ∉ (o.map Callback.itemLongPress).toList := by
      intro c o
      cases o <;> simp
    refine ⟨hsteady, fun c hc => ?_⟩
    rcases List.mem_append.1 hc with hc | hc
    · exact absurd hc (hpress c _)
    · exact hdone c hc

/-! ## Callbacks -/

/-- The animation goes on, no command is overtaken, and the list box is left to fade. -/
structure Animates (fw fw' : Fw) : Prop where
  steady : Steady fw'.ui
  overtaken : fw'.overtaken = fw.overtaken
  alpha : fw'.ui.keyLbx.alpha = fw.ui.keyLbx.alpha

/-- The interface is as it was. -/
structure SameScreen (fw fw' : Fw) : Prop where
  ui : fw'.ui = fw.ui
  overtaken : fw'.overtaken = fw.overtaken

variable {fw fw' : Fw}

theorem Animates.refl (h : Steady fw.ui) : Animates fw fw := ⟨h, rfl, rfl⟩

theorem SameScreen.animates (hs : SameScreen fw fw') (h : Steady fw.ui) : Animates fw fw' :=
  ⟨hs.ui ▸ h, hs.overtaken, by rw [hs.ui]⟩

theorem Animates.trans {fw₁ : Fw} (h : Animates fw fw₁) (h' : Animates fw₁ fw') : Animates fw fw' :=
  ⟨h'.steady, h'.overtaken.trans h.overtaken, h'.alpha.trans h.alpha⟩

theorem lcdStartCommand_alpha (u : Screen) (c : Command) : (lcdStartCommand u c).keyLbx.alpha = u.keyLbx.alpha := by
  unfold lcdStartCommand
  split_ifs <;> rfl

theorem start_animates {fw₁ : Fw} (c : Command) (h : Steady fw₁.ui) (ha : fw₁.ui.keyLbx.alpha = fw.ui.keyLbx.alpha)
    (ho : fw₁.overtaken = fw.overtaken) : Animates fw (fw₁.start c) :=
  ⟨h.start c, ho, (lcdStartCommand_alpha fw₁.ui c).trans ha⟩

theorem lcdSetView_idle {u : Screen} (h : u.currentCommand = none) (v : View) :
    (lcdSetView u v).currentCommand = none := by
  unfold lcdSetView
  split_ifs <;> exact h

theorem lcdSetView_alpha (u : Screen) (v : View) : (lcdSetView u v).keyLbx.alpha = u.keyLbx.alpha := by
  unfold lcdSetView
  split_ifs <;> rfl

/-- With no command pending, none is overtaken. -/
theorem show_animates {fw₁ : Fw} (v : View) (c : Command) (h : fw₁.ui.currentCommand = none)
    (ha : fw₁.ui.keyLbx.alpha = fw.ui.keyLbx.alpha) (ho : fw₁.overtaken = fw.overtaken) : Animates fw (fw₁.show v c) := by
  refine ⟨(Steady.idle (lcdSetView_idle h v)).start c, ?_, ?_⟩
  · simpa only [Fw.show, h, Option.toList_none, List.append_nil] using ho
  · exact (lcdStartCommand_alpha _ c).trans ((lcdSetView_alpha fw₁.ui v).trans ha)

theorem lcdSetKeys_alpha (u : Screen) (keys : List UInt8) : (lcdSetKeys u keys).1.keyLbx.alpha = u.keyLbx.alpha := by
  simp only [lcdSetKeys, lbxSetItems]
  split_ifs <;> rfl

theorem setDecryptOk_screen (card : Card) (fw : Fw) : SameScreen fw (setDecryptOk card fw) := by
  obtain ⟨plain, h⟩ | h := setDecryptOk_cases card fw <;> rw [h] <;> exact ⟨rfl, rfl⟩

theorem attemptDecrypt_screen (card : Card) (fw : Fw) : SameScreen fw (attemptDecrypt card fw) := by
  unfold attemptDecrypt
  split_ifs
  · exact ⟨(setDecryptOk_screen card fw).ui, (setDecryptOk_screen card fw).overtaken⟩
  · exact ⟨rfl, rfl⟩

theorem comparePin_screen (fw : Fw) : SameScreen fw (comparePin fw) := by
  unfold comparePin
  split_ifs <;> exact ⟨rfl, rfl⟩

theorem checkPin_animates (h : fw.ui.currentCommand = none) : Animates fw (checkPin fw) := by
  have hs := comparePin_screen fw
  have hc : (comparePin fw).ui.currentCommand = none := by rw [hs.ui, h]
  refine (hs.animates (.idle h)).trans ?_
  simp only [checkPin]
  split_ifs
  · exact show_animates _ _ hc rfl rfl
  · exact show_animates _ _ hc rfl rfl
  · exact show_animates _ _ hc rfl rfl

theorem setKeys_animates {again : Fw → Fw} (hagain : ∀ fw : Fw, fw.ui.currentCommand = none → Animates fw (again fw))
    (h : fw.ui.currentCommand = none) : Animates fw (setKeys again fw) := by
  have hkeys : Animates fw { fw with ui := (lcdSetKeys fw.ui (fw.items.getD [])).1 } :=
    ⟨.idle h, rfl, lcdSetKeys_alpha _ _⟩
  simp only [setKeys]
  split_ifs
  · exact hkeys.trans (checkPin_animates h)
  · refine (hkeys.trans ?_).trans (hagain _ h)
    exact ⟨.idle h, rfl, rfl⟩

theorem nextView_animates {again : Fw → Fw} (hagain : ∀ fw : Fw, fw.ui.currentCommand = none → Animates fw (again fw))
    (card : Card) (h : fw.ui.currentCommand = none) : Animates fw (nextView again card fw) := by
  have hs := attemptDecrypt_screen card fw
  have hc : (attemptDecrypt card fw).ui.currentCommand = none := by rw [hs.ui, h]
  simp only [nextView]
  split_ifs
  · exact show_animates _ _ h rfl rfl
  · exact show_animates _ _ h rfl rfl
  · exact show_animates _ _ h rfl rfl
  · exact show_animates _ _ h rfl rfl
  all_goals refine (hs.animates (.idle h)).trans ?_
  · exact show_animates _ _ hc rfl rfl
  · exact show_animates _ _ hc rfl rfl
  · exact setKeys_animates hagain hc

theorem setNextView_animates (env : Env) (h : fw.ui.currentCommand = none) : Animates fw (setNextView env fw) :=
  nextView_animates (fun _ hi => nextView_animates (fun _ hi => .refl (.idle hi)) env.again hi) env.card h

theorem lcdCommandComplete_animates (env : Env) (c : Command) (h : fw.ui.currentCommand = none) :
    Animates fw (lcdCommandComplete env c fw) := by
  have hs : Steady fw.ui := .idle h
  cases c with
  | calibLblFadeOut | fadeOut => exact setNextView_animates env h
  | calibLblFadeIn => exact start_animates _ hs rfl rfl
  | calibPointFadeIn i => exact ⟨hs, rfl, rfl⟩
  | calibPointFadeOut i =>
    simp only [lcdCommandComplete]
    split
    · exact start_animates _ hs rfl rfl
    · split_ifs
      · exact start_animates _ hs rfl rfl
      · exact start_animates _ hs rfl rfl
  | fadeIn =>
    simp only [lcdCommandComplete]
    split_ifs
    · exact start_animates _ hs rfl rfl
    · exact .refl hs

theorem lcdPassphraseOk_animates (card : Card) (h : Steady fw.ui) : Animates fw (lcdPassphraseOk card fw) := by
  have hset : Animates fw { fw with passphraseSet := true } := ⟨h, rfl, rfl⟩
  have hs := hset.trans ((setDecryptOk_screen card { fw with passphraseSet := true }).animates h)
  simp only [lcdPassphraseOk]
  split_ifs
  · exact hs.trans (start_animates _ hs.steady rfl rfl)
  · exact hs.trans ⟨hs.steady, rfl, rfl⟩

theorem lcdPinOk_animates (h : Steady fw.ui) : Animates fw (lcdPinOk fw) := by
  simp only [lcdPinOk, wrongPin]
  split_ifs
  · exact start_animates _ h rfl rfl
  · exact start_animates _ h rfl rfl
  · exact ⟨h, rfl, rfl⟩
  · exact ⟨h, rfl, rfl⟩
  · exact start_animates _ h rfl rfl

/-! ## Steps -/

/-- Only the end of a command switches the view, and then no command is pending. -/
theorem Completes.animates {calls : List Callback} {u : Screen} (hc : Completes u calls) (env : Env) (h : Steady fw.ui)
    (hidle : ∀ c, .commandComplete c ∈ calls → fw.ui.currentCommand = none) :
    Animates fw (calls.foldl (Fw.callback env) fw) := by
  obtain rfl | ⟨c, rfl, -⟩ := hc
  · exact .refl h
  · exact lcdCommandComplete_animates env c (hidle c (List.mem_singleton.2 rfl))

theorem tick_animates (env : Env) (h : Steady fw.ui) :
    Animates { fw with ui := (lcdTimerTick fw.ui).1 } (fw.step (.tick env)) := by
  obtain ⟨hsteady, hdone⟩ := lcdTimerTick_ticked h
  rcases lcdTimerTick_calls fw.ui with hc | ⟨v, l, hl, -, hc⟩
  · exact hc.animates env hsteady hdone
  · -- the long press leaves the interface alone
    simp only [Fw.step, hl, List.foldl_cons]
    rw [hl] at hdone
    refine Animates.trans ?_ (hc.animates env hsteady fun c hc => hdone c (.tail _ hc))
    exact ⟨hsteady, rfl, rfl⟩

theorem click_animates (env : Env) (k : Click) (h : Steady fw.ui) : Animates fw (Fw.click env fw k) := by
  have hs := click_fade fw.ui k
  rcases k with c | c | c
  · cases c with
    | ok =>
      have he : Animates fw (fw.emit (.passClick .ok)) := ⟨h, rfl, rfl⟩
      exact he.trans (lcdPassphraseOk_animates env.card h)
    | _ => exact ⟨h.same hs.toSameAnimation, rfl, hs.alpha⟩
  · cases c with
    | ok => exact lcdPinOk_animates h
    | _ => exact ⟨h.same hs.toSameAnimation, rfl, hs.alpha⟩
  · cases c <;> exact ⟨h.same hs.toSameAnimation, rfl, hs.alpha⟩

theorem SameFade.animates {u : Screen} (hs : SameFade fw.ui u) (h : Steady fw.ui) : Animates fw { fw with ui := u } :=
  ⟨h.same hs.toSameAnimation, rfl, hs.alpha⟩

theorem mouseUp_animates (x y : Int) (env : Env) (h : Steady fw.ui) : Animates fw (fw.step (.mouseUp x y env)) := by
  have hs := (viewMouseUp_touched fw.ui x y).fade
  simp only [Fw.step]
  rcases hu : viewMouseUp fw.ui x y with ⟨u, _ | k⟩ <;> rw [hu] at hs
  · exact hs.animates h
  · exact (hs.animates h).trans (click_animates env k (hs.animates h).steady)

theorem mainLoop_animates (err : Nat) (raw : Option (Int × Int)) (h : Steady fw.ui) :
    Animates fw (mainLoop err raw fw) := by
  simp only [mainLoop]
  split_ifs
  · exact start_animates _ h rfl rfl
  split
  · unfold pollCard
    split_ifs
    · exact ⟨h, rfl, rfl⟩
    · exact .refl h
  · rcases raw with _ | ⟨x, y⟩
    · exact .refl h
    · exact start_animates _ h rfl rfl
  · exact .refl h

/-- A step other than a tick. -/
theorem step_animates {i : Input} (hi : ∀ env, i ≠ .tick env) (h : Steady fw.ui) : Animates fw (fw.step i) := by
  cases i with
  | tick env => exact absurd rfl (hi env)
  | mouseDown x y => exact (viewMouseDown_touched fw.ui x y).fade.animates h
  | mouseMove x y => exact (viewMouseMove_touched fw.ui x y).fade.animates h
  | mouseUp x y env => exact mouseUp_animates x y env h
  | mainLoop err raw => exact mainLoop_animates err raw h

/-! ## Runs -/

/-- The timer runs, so a fade neither starts below 0 nor ends above 255. -/
theorem tickShades_bounds {u : Screen} {a : Shade → Int} (h : Steady u) (ha : ∀ s, 0 ≤ a s ∧ a s ≤ 255) (s : Shade) :
    0 ≤ tickShades u a s ∧ tickShades u a s ≤ 255 := by
  have hstep : (255 / animationTicks : Int) = 25 := by decide
  have hticks : animationTicks = 10 := rfl
  rcases hc : u.currentCommand with _ | c <;> simp only [tickShades, hc, Option.bind_none, Option.bind_some]
  · exact ha s
  obtain ⟨-, hpos, hle⟩ := h c hc
  rcases faded u.currentView c with _ | ⟨s', fadeIn⟩
  · exact ha s
  · dsimp only
    split_ifs
    · rw [fadeInAlpha, hstep]
      omega
    · rw [fadeOutAlpha, hstep]
      omega
    · exact ha s

theorem viewTick_lbx (handles : Command → Bool) (u : Screen) : (viewTick handles noFade u).1.keyLbx = u.keyLbx := by
  simp only [viewTick]
  split
  · rfl
  · split_ifs <;> rfl

/-- Only the key view has the list box fade. -/
theorem tickShades_other {u : Screen} (hv : u.currentView ≠ .key) (a : Shade → Int) : tickShades u a .key = a .key := by
  unfold tickShades
  rcases u.currentCommand with _ | c
  · rfl
  · cases hu : u.currentView with
    | key => exact absurd hu hv
    | _ => cases c <;> rfl

theorem keyTimerTick_alpha {u : Screen} (hv : u.currentView = .key) {a : Shade → Int} (ha : a .key = u.keyLbx.alpha) :
    tickShades u a .key = (keyTimerTick u).1.keyLbx.alpha := by
  have hl := lbxTimerTick_alpha u.keyLbx
  rcases hc : u.currentCommand with _ | c <;> simp only [tickShades, keyTimerTick, viewTick, hc, hv]
  · exact ha.trans hl.symm
  · cases c with
    | fadeIn | fadeOut =>
      simp only [Option.bind_some, faded, Command.isFade, if_true, Bool.false_eq_true, if_false]
      split_ifs <;> rfl
    | _ => exact ha.trans hl.symm

/-- The list box gets the alpha of its view. -/
theorem tickShades_key {u : Screen} {a : Shade → Int} (ha : a .key = u.keyLbx.alpha) :
    tickShades u a .key = (lcdTimerTick u).1.keyLbx.alpha := by
  rcases lcdTimerTick_cases u with ⟨hv, hu⟩ | ⟨hv, hu⟩ | ⟨hv, hu⟩ <;> rw [hu]
  · rw [tickShades_other (by rw [hv]; decide)]
    exact ha
  · rw [tickShades_other hv, viewTick_lbx]
    exact ha
  · exact keyTimerTick_alpha hv ha

/-- What holds between two calls. -/
structure Lively (s : Fw × (Shade → Int)) : Prop where
  command : Steady s.1.ui
  overtaken : s.1.overtaken = []
  alphas : ∀ c, 0 ≤ s.2 c ∧ s.2 c ≤ 255
  lbx : s.2 .key = s.1.ui.keyLbx.alpha

theorem Lively.step {s : Fw × (Shade → Int)} (h : Lively s) (i : Input) : Lively (shadeStep s i) := by
  by_cases hi : ∃ env, i = .tick env
  · obtain ⟨env, rfl⟩ := hi
    obtain ⟨hsteady, hovertaken, halpha⟩ := tick_animates env h.command
    exact ⟨hsteady, hovertaken.trans h.overtaken, tickShades_bounds h.command h.alphas,
      (tickShades_key h.lbx).trans halpha.symm⟩
  · have hi : ∀ env, i ≠ .tick env := fun env he => hi ⟨env, he⟩
    obtain ⟨hsteady, hovertaken, halpha⟩ := step_animates hi h.command
    have ha : (shadeStep s i).2 = s.2 := by
      cases i with
      | tick env => exact absurd rfl (hi env)
      | _ => rfl
    refine ⟨hsteady, hovertaken.trans h.overtaken, ?_, ?_⟩ <;> rw [ha]
    · exact h.alphas
    · exact h.lbx.trans halpha.symm

theorem lively_boot (img : Image) (valid : Bool) (mmcErr : Nat) : Lively (shadeBoot img valid mmcErr) := by
  refine ⟨?_, rfl, fun _ => ⟨Int.le_refl 0, show (0 : Int) ≤ 255 by decide⟩, rfl⟩
  exact Steady.start (.idle rfl) .fadeIn

/-- **No animation is stuck**: from power-on, whatever is in NVRAM, through any ticks, touches,
calibration points, card events and answers of the card, a command that is pending is one
the view handles with 1 to `animationTicks` ticks to go. So every alpha is in 0 to 255, and no
view has been set, at power-on or since, while a command was pending. -/
theorem animation_lively (img : Image) (valid : Bool) (mmcErr : Nat) (is : List Input) :
    Lively (run shadeStep (shadeBoot img valid mmcErr) is) ∧
      (run shadeStep (shadeBoot img valid mmcErr) is).1 = run Fw.step (boot img valid mmcErr) is :=
  ⟨(Guarded.all is).invariant (fun _ i _ h => h.step i) (lively_boot img valid mmcErr),
    shadeStep_run (shadeBoot img valid mmcErr) is⟩

end Keynjector.Firmware
