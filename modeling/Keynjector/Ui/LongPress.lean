import Keynjector.Lib.Runs
import Keynjector.Ui.Screen
/-
# Long presses (ui.c:1245-1331, 2186-2196, 2291-2352)

Runs of the interface under any order of calls. An item is selected by a mouse down
in the key view and is let go by the mouse up, by moving away or by its long press. The
selection lives in the list box and the mouse goes to the current view only, so it is
lost from sight when another view is current at the release: `phantom` is such a run, and
`longPress_pressed` says that this is the only way.
-/

namespace Keynjector.Ui

open Runs

inductive Call where
  | mouseDown (x y : Int)
  | mouseMove (x y : Int)
  | mouseUp (x y : Int)
  | timerTick
  | setView (v : View)
  | setKeys (keys : List UInt8)
  | startCommand (c : Command)
deriving DecidableEq, Repr

/-- One call of the interface, with the calls it makes to `main.c`. -/
def Screen.call (u : Screen) : Call → Screen × List Callback
  | .mouseDown x y => (viewMouseDown u x y, [])
  | .mouseMove x y => (viewMouseMove u x y, [])
  | .mouseUp x y =>
    match viewMouseUp u x y with
    | (u, none) => (u, [])
    | (u, some k) => u.click k
  | .timerTick => lcdTimerTick u
  | .setView v => (lcdSetView u v, [])
  | .setKeys keys => ((lcdSetKeys u keys).1, [])
  | .startCommand c => (lcdStartCommand u c, [])

def Screen.step (u : Screen) (c : Call) : Screen := (u.call c).1

def Call.isUp : Call → Bool
  | .mouseUp .. => true
  | _ => false

/-- `selected_item` after the calls `cs`. -/
def selectedAfter (u : Screen) (cs : List Call) : Int := (run Screen.step u cs).keyLbx.selectedItem

/-- The item selected after `cs` was selected by a mouse down on the key view, it has
stayed selected since, and no mouse up has been delivered since. -/
def Pressed (u : Screen) (cs : List Call) : Prop :=
  ∃ a x y b, cs = a ++ .mouseDown x y :: b ∧ (run Screen.step u a).currentView = .key ∧
    (∀ b', b' <+: b → selectedAfter u (a ++ .mouseDown x y :: b') = selectedAfter u cs) ∧ ∀ c ∈ b, c.isUp = false

/-- Whenever `lcd_item_long_press` is called, the pointer is still down. -/
def NoPhantom (u : Screen) (cs : List Call) : Prop :=
  ∀ pre c, pre ++ [c] <+: cs → ∀ v, .itemLongPress v ∈ ((run Screen.step u pre).call c).2 → Pressed u pre

/-- A mouse up is delivered while the key view is current or no item is selected. -/
def ReleaseSeen (u : Screen) (c : Call) : Prop :=
  c.isUp = true → u.currentView = .key ∨ u.keyLbx.selectedItem = -1

instance (u : Screen) (c : Call) : Decidable (ReleaseSeen u c) :=
  inferInstanceAs (Decidable (c.isUp = true → u.currentView = .key ∨ u.keyLbx.selectedItem = -1))

/-! ## What a call does to the selection -/

/-- A selected item holds the mouse. -/
def Captured (u : Screen) : Prop := u.keyLbx.selectedItem ≠ -1 → u.keyView.capturing = some .lbx

theorem lbxTimerTick_selected (l : Lbx) :
    (lbxTimerTick l).1.selectedItem = l.selectedItem ∨ (lbxTimerTick l).1.selectedItem = -1 := by
  simp only [lbxTimerTick]
  split_ifs <;> simp

theorem lbxTimerTick_press {l : Lbx} (h : (lbxTimerTick l).2 ≠ none) : l.selectedItem ≠ -1 := by
  unfold lbxTimerTick at h
  split_ifs at h with h1 <;> simp_all

theorem lbxMouseMove_selected (l : Lbx) (y : Int) :
    (lbxMouseMove l y).selectedItem = l.selectedItem ∨ (lbxMouseMove l y).selectedItem = -1 := by
  simp only [lbxMouseMove]
  split_ifs <;> simp

theorem lbxSetItems_selected (l : Lbx) (items : List UInt8) :
    (lbxSetItems l items).1.selectedItem = l.selectedItem := by
  unfold lbxSetItems
  split_ifs <;> rfl

/-- The selection is given up, or stays and keeps the mouse. -/
def Kept (u u' : Screen) : Prop :=
  u'.keyLbx.selectedItem ≠ -1 →
    u'.keyLbx.selectedItem = u.keyLbx.selectedItem ∧ u'.keyView.capturing = u.keyView.capturing

theorem Kept.refl (u : Screen) : Kept u u := fun _ => ⟨rfl, rfl⟩

theorem lcdTimerTick_kept (u : Screen) : Kept u (lcdTimerTick u).1 := by
  obtain ⟨t, c, a, l, hl, h⟩ := lcdTimerTick_eq u
  rw [h]
  intro hs
  rcases hl with rfl | rfl
  · exact ⟨rfl, rfl⟩
  · exact ⟨(lbxTimerTick_selected u.keyLbx).resolve_right hs, rfl⟩

theorem Captured.receiver {u : Screen} (h : Captured u) (hs : u.keyLbx.selectedItem ≠ -1) (x y : Int) :
    getReceiver u.keyView keyControls x y = some .lbx := by
  rw [getReceiver, h hs]

/-- A mouse down selects an item of the list box or leaves the selection alone. -/
theorem mouseDown_kept {u : Screen} (hc : Captured u) (x y : Int) :
    (u.currentView = .key ∧ (viewMouseDown u x y).keyView.capturing = some .lbx) ∨
      Kept u (viewMouseDown u x y) := by
  by_cases hv : u.currentView = .key
  · cases hr : getReceiver u.keyView keyControls x y with
    | none => exact Or.inr (by simp only [viewMouseDown, hv, hr]; exact Kept.refl u)
    | some k =>
      cases k with
      | lbx => exact Or.inl ⟨hv, by simp only [viewMouseDown, hv, hr]⟩
      | up | down =>
        refine Or.inr fun hs => ?_
        simp only [viewMouseDown, hv, hr] at hs
        exact absurd (hr.symm.trans (hc.receiver hs x y)) (by decide)
  · refine Or.inr ?_
    cases hview : u.currentView <;> simp only [viewMouseDown, hview] <;>
      first | exact absurd hview hv | exact fun _ => ⟨rfl, rfl⟩

theorem mouseMove_kept (u : Screen) (x y : Int) : Kept u (viewMouseMove u x y) := by
  cases hview : u.currentView <;> simp only [viewMouseMove, hview]
  case key =>
    cases hr : getReceiver u.keyView keyControls x y with
    | none => exact Kept.refl u
    | some k =>
      cases k with
      | lbx =>
        simp only
        split_ifs
        · intro hs
          exact ⟨(lbxMouseMove_selected u.keyLbx y).resolve_right hs, rfl⟩
        · exact Kept.refl u
      | up | down =>
        refine fun _ => ⟨rfl, ?_⟩
        simp only [btnMouseMove]
        split_ifs <;> rfl
  all_goals exact fun _ => ⟨rfl, rfl⟩

theorem viewMouseUp_selected (u : Screen) (x y : Int) :
    (viewMouseUp u x y).1.keyLbx.selectedItem = u.keyLbx.selectedItem ∨
      (viewMouseUp u x y).1.keyLbx.selectedItem = -1 := by
  cases hview : u.currentView <;> simp only [viewMouseUp, hview]
  case key =>
    cases hr : getReceiver u.keyView keyControls x y with
    | none => exact Or.inl rfl
    | some k =>
      cases k with
      | lbx =>
        simp only
        split_ifs
        · exact Or.inr rfl
        · exact Or.inl rfl
      | up | down => exact Or.inl rfl
  all_goals exact Or.inl trivial

theorem click_selected (u : Screen) (k : Click) : (u.click k).1.keyLbx.selectedItem = u.keyLbx.selectedItem := by
  rcases k with (_ | _) | (_ | _) | (_ | _ | _) <;> rfl

/-- A release that is seen ends the selection. -/
theorem mouseUp_selected {u : Screen} (hc : Captured u) {x y : Int} (hr : ReleaseSeen u (.mouseUp x y)) :
    (u.step (.mouseUp x y)).keyLbx.selectedItem = -1 := by
  have hclick : (u.step (.mouseUp x y)).keyLbx.selectedItem = (viewMouseUp u x y).1.keyLbx.selectedItem := by
    simp only [Screen.step, Screen.call]
    split
    · rename_i h
      rw [h]
    · rename_i h
      rw [h, click_selected]
  rw [hclick]
  by_cases hs : u.keyLbx.selectedItem = -1
  · exact (viewMouseUp_selected u x y).elim (fun h => h.trans hs) id
  · have hv : u.currentView = .key := (hr rfl).resolve_right hs
    simp only [viewMouseUp, hv, hc.receiver hs x y, hc hs, if_true, lbxMouseUp]

/-- **One call**: an item selected after it has just been selected by a mouse down on the
key view, or was selected before and the call is no mouse up. -/
theorem step_selected {u : Screen} (hc : Captured u) {c : Call} (hr : ReleaseSeen u c)
    (h : (u.step c).keyLbx.selectedItem ≠ -1) :
    (∃ x y, c = .mouseDown x y ∧ u.currentView = .key ∧ (u.step c).keyView.capturing = some .lbx) ∨
      (c.isUp = false ∧ (u.step c).keyLbx.selectedItem = u.keyLbx.selectedItem ∧
        (u.step c).keyView.capturing = u.keyView.capturing) := by
  cases c with
  | mouseDown x y =>
    rcases mouseDown_kept hc x y with ⟨hv, hcap⟩ | hk
    · exact Or.inl ⟨x, y, rfl, hv, hcap⟩
    · exact Or.inr ⟨rfl, hk h⟩
  | mouseMove x y => exact Or.inr ⟨rfl, mouseMove_kept u x y h⟩
  | mouseUp x y => exact absurd (mouseUp_selected hc hr) h
  | timerTick => exact Or.inr ⟨rfl, lcdTimerTick_kept u h⟩
  | setView v =>
    refine Or.inr ⟨rfl, ?_⟩
    simp only [Screen.step, Screen.call, lcdSetView]
    split_ifs <;> exact ⟨rfl, rfl⟩
  | setKeys keys => exact Or.inr ⟨rfl, lbxSetItems_selected _ _, rfl⟩
  | startCommand c =>
    refine Or.inr ⟨rfl, ?_⟩
    simp only [Screen.step, Screen.call, lcdStartCommand]
    split_ifs <;> exact ⟨rfl, rfl⟩

/-- Only a selected item is long pressed. -/
theorem call_longPress {u : Screen} {c : Call} {v : List UInt8} (h : .itemLongPress v ∈ (u.call c).2) :
    u.keyLbx.selectedItem ≠ -1 := by
  have hview : ∀ handles fade (u : Screen), Callback.itemLongPress v ∉ (viewTick handles fade u).2 := by
    intro handles fade u
    simp only [viewTick]
    split
    · simp
    · split_ifs <;> simp
  cases c with
  | timerTick =>
    simp only [Screen.call] at h
    rcases lcdTimerTick_cases u with ⟨-, hu⟩ | ⟨-, hu⟩ | ⟨-, hu⟩ <;> rw [hu] at h
    · cases h
    · exact absurd h (hview _ _ _)
    · simp only [keyTimerTick, List.mem_append] at h
      rcases h with h | h
      · refine lbxTimerTick_press fun hn => ?_
        simp [hn] at h
      · exact absurd h (hview _ _ _)
  | mouseUp x y =>
    simp only [Screen.call] at h
    split at h
    · cases h
    · rename_i k _
      rcases k with (_ | _) | (_ | _) | (_ | _ | _) <;> simp [Screen.click] at h
  | _ => cases h

/-! ## Runs -/

theorem prefix_snoc {α : Type} {l m : List α} {a : α} (h : l <+: m ++ [a]) : l <+: m ∨ l = m ++ [a] := by
  rcases List.prefix_concat_iff.1 h with h | h
  · exact Or.inr h
  · exact Or.inl h

theorem Pressed.snoc {u : Screen} {cs : List Call} {c : Call} (h : Pressed u cs) (hc : c.isUp = false)
    (hs : selectedAfter u (cs ++ [c]) = selectedAfter u cs) : Pressed u (cs ++ [c]) := by
  obtain ⟨a, x, y, b, rfl, hv, hb, hup⟩ := h
  refine ⟨a, x, y, b ++ [c], by simp, hv, fun b' hb' => ?_, fun d hd => ?_⟩
  · rcases prefix_snoc hb' with hb' | rfl
    · rw [hb b' hb', hs]
    · rw [List.append_assoc, List.cons_append]
  · rcases List.mem_append.1 hd with hd | hd
    · exact hup d hd
    · rwa [List.mem_singleton.1 hd]

/-- A run whose releases are all seen. -/
theorem pressed_of_guarded (mem : Memory) {cs : List Call}
    (hg : Guarded Screen.step ReleaseSeen (Screen.init mem) cs) :
    Captured (run Screen.step (Screen.init mem) cs) ∧
      (selectedAfter (Screen.init mem) cs ≠ -1 → Pressed (Screen.init mem) cs) := by
  refine Guarded.history (P := fun cs => Captured (run Screen.step (Screen.init mem) cs) ∧
    (selectedAfter (Screen.init mem) cs ≠ -1 → Pressed (Screen.init mem) cs))
    ⟨fun h => absurd rfl h, fun h => absurd rfl h⟩ ?_ hg
  rintro cs c - hr ⟨hcap, hp⟩
  rw [run_snoc]
  have hstep : selectedAfter (Screen.init mem) (cs ++ [c]) =
      ((run Screen.step (Screen.init mem) cs).step c).keyLbx.selectedItem := by rw [selectedAfter, run_snoc]
  refine ⟨fun hs => ?_, fun hs => ?_⟩
  · rcases step_selected hcap hr hs with ⟨_, _, _, _, h⟩ | ⟨_, hsel, hc⟩
    · exact h
    · exact hc.trans (hcap (hsel ▸ hs))
  · rcases step_selected hcap hr (hstep ▸ hs) with ⟨x, y, rfl, hv, -⟩ | ⟨hup, hsel, -⟩
    · refine ⟨cs, x, y, [], rfl, hv, fun b' hb' => ?_, fun d hd => by cases hd⟩
      rw [List.prefix_nil.1 hb']
    · have heq : selectedAfter (Screen.init mem) (cs ++ [c]) = selectedAfter (Screen.init mem) cs := hstep.trans hsel
      exact (hp (heq ▸ hs)).snoc hup heq

/-- **No phantom password**, as long as every mouse up is delivered while the key view is
current or no item is selected. -/
theorem longPress_pressed (mem : Memory) (cs : List Call)
    (hg : Guarded Screen.step ReleaseSeen (Screen.init mem) cs) : NoPhantom (Screen.init mem) cs := by
  rintro pre c ⟨post, rfl⟩ v hv
  rw [List.append_assoc] at hg
  exact (pressed_of_guarded mem (Guarded.append.1 hg).1).2 (call_longPress hv)

/-- Items of the sample list, `mail` pressed and held. -/
def held : List Call := [.setKeys sampleItems, .setView .key, .mouseDown 100 75] ++ List.replicate 19 .timerTick

theorem longPress_pressed_sample : Pressed (Screen.init ⟨[], [], []⟩) held :=
  longPress_pressed ⟨[], [], []⟩ (held ++ [.timerTick]) (by decide +kernel) held .timerTick ⟨[], rfl⟩
    "pW2".toUTF8.toList (by decide +kernel)

/-- `mail` pressed; the card is pulled, and the finger lifted while the title is shown;
with the card and the PIN back, the key view fades in. -/
def phantom : List Call :=
  [.setKeys sampleItems, .setView .key, .mouseDown 100 75, .startCommand .fadeOut] ++ List.replicate 10 .timerTick ++
    [.setView .title, .startCommand .fadeIn, .mouseUp 100 75, .setView .pin, .setView .key, .startCommand .fadeIn] ++
    List.replicate 9 .timerTick

theorem Pressed.exists_down {u : Screen} {cs : List Call} (h : Pressed u cs) :
    ∃ k < cs.length, (cs[k]?.any fun c => c matches .mouseDown ..) ∧ ∀ c ∈ cs.drop (k + 1), c.isUp = false := by
  obtain ⟨a, x, y, b, rfl, -, -, hup⟩ := h
  refine ⟨a.length, by simp, by simp, ?_⟩
  rwa [← List.drop_drop, List.drop_left, List.drop_one, List.tail_cons]

/-- **A phantom password**: the tenth tick of the fade-in types the password of an item
let go of long before. -/
theorem longPress_phantom : ¬ NoPhantom (Screen.init ⟨[], [], []⟩) (phantom ++ [.timerTick]) := by
  intro h
  have hp := h phantom .timerTick ⟨[], rfl⟩ "pW2".toUTF8.toList (by decide +kernel)
  obtain ⟨k, hk, hdown, hup⟩ := hp.exists_down
  have key : ∀ k < phantom.length, (phantom[k]?.any fun c => c matches .mouseDown ..) →
      ¬ ∀ c ∈ phantom.drop (k + 1), c.isUp = false := by decide +kernel
  exact key k hk hdown hup

end Keynjector.Ui
