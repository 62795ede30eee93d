import Keynjector.Firmware.Moves
/-
# NVRAM and power (main.c:113-176, 446-522)

| here | there |
| --- | --- |
| `Saver`     | the three callers of `write_state`: the end of the calibration, a first PIN, the lock-out |
| `imageFor`  | `g_state` as each of them stores it |
| `Fw.saves`  | which of them runs in a step, if one does |
| `Device`    | the firmware with its NVRAM: whether the digest there is good, and all that was stored so far |
| `Turn`      | an input, or a power cycle: RAM is lost, and `read_state` finds what was stored |
| `Device.factory` | NVRAM holds no valid image, so that the device starts from `init_state` |

`saves_nvram` checks the record against the model: a step changes NVRAM by the image of the
caller that runs in it, and by nothing else. On top of it, `stored_guarded`: a passphrase is
never stored without a PIN.
-/

namespace Keynjector.Firmware

open Ui Runs

/-! ## What is stored -/

inductive Saver where
  | calibration | firstPin | lockOut
deriving DecidableEq, Repr

/-- `g_state` as it is now. -/
def Fw.image (fw : Fw) : Image := (writeState fw).nvram

def Fw.imageFor (fw : Fw) : Saver → Image
  | .calibration => { fw.image with calibState := .done }
  | .firstPin => { fw.image with pinSet := true }
  | .lockOut => { fw.image with passphraseSet := false, pinSet := false }

/-- The countdown of `lcd_pin_ok` comes to its `default` case. -/
def Fw.lastAttempt (fw : Fw) : Bool := fw.pinAttempts - 1 ≠ 2 ∧ fw.pinAttempts - 1 ≠ 1

/-- What a callback makes `write_state` store. -/
def callbackSaves (env : Env) (fw : Fw) : Callback → Option Saver
  | .commandComplete (.calibPointFadeOut i) =>
    if nextPoint i = none ∧ env.calibOk = true then some .calibration else none
  | .pinOk =>
    if fw.pinSet = false then some .firstPin
    else if fw.typedPin ≠ fw.storedPin ∧ fw.lastAttempt = true then some .lockOut
    else none
  | _ => none

def Fw.saves (fw : Fw) : Input → Option Saver
  | .tick env => (lcdTimerTick fw.ui).2.findSome? (callbackSaves env fw)
  | .mouseUp x y env => (viewMouseUp fw.ui x y).2.bind fun k => (fw.ui.click k).2.findSome? (callbackSaves env fw)
  | _ => none

variable {fw : Fw} {img : Image} {s : Saver} {i : Input}

/-! ## Functions that store nothing -/

theorem setDecryptOk_nvram (card : Card) (fw : Fw) : (setDecryptOk card fw).nvram = fw.nvram := by
  obtain ⟨plain, h⟩ | h := setDecryptOk_cases card fw <;> rw [h] <;> rfl

theorem attemptDecrypt_nvram (card : Card) (fw : Fw) : (attemptDecrypt card fw).nvram = fw.nvram := by
  unfold attemptDecrypt
  split_ifs
  · exact setDecryptOk_nvram card fw
  · rfl

theorem checkPin_nvram (fw : Fw) : (checkPin fw).nvram = fw.nvram := by
  have hcompare : (comparePin fw).nvram = fw.nvram := by
    unfold comparePin
    split_ifs <;> rfl
  simp only [checkPin]
  split_ifs <;> exact hcompare

theorem nextView_nvram {again : Fw → Fw} (hagain : ∀ fw, (again fw).nvram = fw.nvram) (card : Card) (fw : Fw) :
    (nextView again card fw).nvram = fw.nvram := by
  have hkeys : ∀ fw, (setKeys again fw).nvram = fw.nvram := by
    intro fw
    simp only [setKeys]
    split_ifs
    · exact checkPin_nvram _
    · exact hagain _
  simp only [nextView]
  split_ifs
  · rfl
  · rfl
  · rfl
  · rfl
  · exact attemptDecrypt_nvram card fw
  · exact attemptDecrypt_nvram card fw
  · exact (hkeys _).trans (attemptDecrypt_nvram card fw)

theorem setNextView_nvram (env : Env) (fw : Fw) : (setNextView env fw).nvram = fw.nvram :=
  nextView_nvram (nextView_nvram (fun _ => rfl) env.again) env.card fw

/-! ## The record is right -/

theorem wrongPin_cases (fw : Fw) :
    (fw.lastAttempt = false ∧ ∃ u, SameEditors fw.ui u ∧
      wrongPin fw = { fw with ui := u, pinAttempts := fw.pinAttempts - 1 }) ∨
    (fw.lastAttempt = true ∧ wrongPin fw = lockOut { fw with pinAttempts := fw.pinAttempts - 1 }) := by
  have hlast : fw.lastAttempt = decide (fw.pinAttempts - 1 ≠ 2 ∧ fw.pinAttempts - 1 ≠ 1) := rfl
  simp only [wrongPin]
  by_cases h2 : fw.pinAttempts - 1 = 2
  · rw [if_pos h2]
    exact .inl ⟨by simp [hlast, h2], _, SameEditors.pinMsg fw.ui _, rfl⟩
  by_cases h1 : fw.pinAttempts - 1 = 1
  · rw [if_neg h2, if_pos h1]
    exact .inl ⟨by simp [hlast, h1], _, SameEditors.pinMsg fw.ui _, rfl⟩
  · rw [if_neg h2, if_neg h1]
    exact .inr ⟨by simp [hlast, h1, h2], rfl⟩

/-- A PIN submitted: taken over, accepted, wrong with attempts left, or wrong for good. -/
theorem lcdPinOk_cases (fw : Fw) :
    ∃ fw₀, fw₀ = fw.emit (.pinOk fw.pinSet fw.typedPin fw.storedPin) ∧
      ((fw.pinSet = false ∧ lcdPinOk fw = acceptNewPin fw₀) ∨
        (fw.pinSet = true ∧ fw.typedPin = fw.storedPin ∧ lcdPinOk fw = acceptPin fw₀) ∨
        (fw.pinSet = true ∧ fw.typedPin ≠ fw.storedPin ∧ fw.lastAttempt = false ∧ ∃ u, SameEditors fw.ui u ∧
          lcdPinOk fw = { fw₀ with ui := u, pinAttempts := fw.pinAttempts - 1 }) ∨
        (fw.pinSet = true ∧ fw.typedPin ≠ fw.storedPin ∧ fw.lastAttempt = true ∧
          lcdPinOk fw = lockOut { fw₀ with pinAttempts := fw.pinAttempts - 1 })) := by
  refine ⟨_, rfl, ?_⟩
  simp only [lcdPinOk]
  split_ifs with hp heq
  · exact .inl ⟨by simpa [Fw.emit] using hp, rfl⟩
  · exact .inr (.inl ⟨by simpa [Fw.emit] using hp, heq, rfl⟩)
  · have hp : fw.pinSet = true := by simpa [Fw.emit] using hp
    rcases wrongPin_cases (fw.emit (.pinOk fw.pinSet fw.typedPin fw.storedPin)) with ⟨hl, u, hu, h⟩ | ⟨hl, h⟩
    · exact .inr (.inr (.inl ⟨hp, heq, hl, u, hu, h⟩))
    · exact .inr (.inr (.inr ⟨hp, heq, hl, h⟩))

theorem lcdPinOk_nvram (fw : Fw) (env : Env) :
    (lcdPinOk fw).nvram = (callbackSaves env fw .pinOk).elim fw.nvram fw.imageFor := by
  obtain ⟨_, rfl, ⟨hp, h⟩ | ⟨hp, heq, h⟩ | ⟨hp, hne, hl, u, -, h⟩ | ⟨hp, hne, hl, h⟩⟩ := lcdPinOk_cases fw <;> rw [h]
  · simp only [callbackSaves, if_pos hp]
    rfl
  · simp only [callbackSaves, hp, Bool.true_eq_false, if_false, heq, ne_eq, not_true, false_and]
    rfl
  · simp only [callbackSaves, hp, Bool.true_eq_false, if_false, hl, Bool.false_eq_true, and_false]
    rfl
  · simp only [callbackSaves, hp, Bool.true_eq_false, if_false, hl, and_true, ne_eq, hne, not_false_eq_true, if_true]
    rfl

/-- A callback changes NVRAM by what it saves. -/
theorem callback_nvram (env : Env) (fw : Fw) (k : Callback) :
    (Fw.callback env fw k).nvram = (callbackSaves env fw k).elim fw.nvram fw.imageFor := by
  cases k with
  | commandComplete c =>
    cases c with
    | calibLblFadeOut | fadeOut => exact setNextView_nvram env fw
    | fadeIn =>
      simp only [Fw.callback, lcdCommandComplete, callbackSaves]
      split_ifs <;> rfl
    | calibLblFadeIn | calibPointFadeIn => rfl
    | calibPointFadeOut i =>
      simp only [Fw.callback, lcdCommandComplete, callbackSaves]
      cases hn : nextPoint i with
      | some j => simp [Fw.start]
      | none =>
        simp only [true_and]
        split_ifs <;> rfl
  | passphraseOk =>
    obtain ⟨u, -, ⟨plain, h⟩ | h⟩ := lcdPassphraseOk_cases env.card fw
    · exact (congrArg Fw.nvram h :)
    · exact (congrArg Fw.nvram h :)
  | pinOk => exact lcdPinOk_nvram fw env
  | itemLongPress v => rfl

theorem imageFor_same {u : Screen} (hs : SameEditors fw.ui u) (s : Saver) :
    { fw with ui := u }.imageFor s = fw.imageFor s := by
  cases s <;> simp [Fw.imageFor, Fw.image, writeState, hs.mem]

theorem callbackSaves_same {u : Screen} (hs : SameEditors fw.ui u) (env : Env) :
    callbackSaves env { fw with ui := u } = callbackSaves env fw := by
  have htyped : { fw with ui := u }.typedPin = fw.typedPin := by simp [Fw.typedPin, hs.mem]
  have hstored : { fw with ui := u }.storedPin = fw.storedPin := by simp [Fw.storedPin, hs.mem]
  funext k
  cases k with
  | pinOk =>
    simp only [callbackSaves, htyped, hstored]
    rfl
  | commandComplete c => cases c <;> rfl
  | _ => rfl

theorem Completes.nvram (env : Env) (fw : Fw) {calls : List Callback} (h : Completes fw.ui calls) :
    (calls.foldl (Fw.callback env) fw).nvram = (calls.findSome? (callbackSaves env fw)).elim fw.nvram fw.imageFor := by
  obtain rfl | ⟨c, rfl, -⟩ := h
  · rfl
  · rw [List.findSome?_singleton]
    exact callback_nvram env fw (.commandComplete c)

theorem tick_nvram (env : Env) (fw : Fw) :
    (fw.step (.tick env)).nvram = (fw.saves (.tick env)).elim fw.nvram fw.imageFor := by
  have hs := lcdTimerTick_same fw.ui
  have himage := funext (imageFor_same hs)
  have hsaves := callbackSaves_same hs env
  rcases lcdTimerTick_calls fw.ui with h | ⟨v, l, hl, -, h⟩
  · have hn := Completes.nvram env { fw with ui := (lcdTimerTick fw.ui).1 } (h.same hs)
    rwa [himage, hsaves] at hn
  · have hn := Completes.nvram env ({ fw with ui := (lcdTimerTick fw.ui).1 }.emit (.longPress v)) (h.same hs)
    have hemit : callbackSaves env ({ fw with ui := (lcdTimerTick fw.ui).1 }.emit (.longPress v)) =
        callbackSaves env fw := hsaves
    rw [hemit] at hn
    simp only [Fw.step, Fw.saves, hl, List.foldl_cons, List.findSome?_cons, callbackSaves]
    exact himage ▸ hn

theorem mouseUp_nvram (x y : Int) (env : Env) (fw : Fw) :
    (fw.step (.mouseUp x y env)).nvram = (fw.saves (.mouseUp x y env)).elim fw.nvram fw.imageFor := by
  have hs := viewMouseUp_same fw.ui x y
  simp only [Fw.step, Fw.saves]
  cases hk : viewMouseUp fw.ui x y with
  | mk u k =>
    rw [hk] at hs
    cases k with
    | none => rfl
    | some k =>
      rcases k with c | c | c
      · cases c with
        | ok =>
          exact callback_nvram env _ .passphraseOk
        | _ => rfl
      · cases c with
        | ok =>
          have hn := callback_nvram env { fw with ui := u } .pinOk
          rw [callbackSaves_same hs, funext (imageFor_same hs)] at hn
          refine Eq.trans hn ?_
          simp [Screen.click]
        | _ => rfl
      · cases c <;> rfl

/-- **A step changes NVRAM by what is saved in it**, and by nothing else. -/
theorem saves_nvram (fw : Fw) (i : Input) : (fw.step i).nvram = (fw.saves i).elim fw.nvram fw.imageFor := by
  cases i with
  | tick env => exact tick_nvram env fw
  | mouseDown | mouseMove => rfl
  | mouseUp x y env => exact mouseUp_nvram x y env fw
  | mainLoop err raw =>
    simp only [Fw.step, mainLoop]
    split_ifs
    · rfl
    split
    · unfold pollCard
      split_ifs <;> rfl
    · unfold getCalibPoint
      split <;> rfl
    · rfl

/-! ## When it is stored -/

/-- An OK that finds the wrong PIN, and no attempt left. -/
def Fw.LocksOut (fw : Fw) (i : Input) : Prop :=
  clicked fw i = some (.pin .ok) ∧ fw.pinSet = true ∧ fw.typedPin ≠ fw.storedPin ∧ fw.lastAttempt = true

instance Fw.decidableLocksOut (fw : Fw) (i : Input) : Decidable (fw.LocksOut i) :=
  inferInstanceAs (Decidable (_ ∧ _ ∧ _ ∧ _))

theorem saves_mouseUp {x y : Int} {env : Env} (hk : clicked fw (.mouseUp x y env) = some (.pin .ok)) :
    fw.saves (.mouseUp x y env) = callbackSaves env fw .pinOk := by
  have hk : (viewMouseUp fw.ui x y).2 = some (.pin .ok) := hk
  rw [Fw.saves, hk, Option.bind_some]
  exact List.findSome?_singleton

theorem Completes.saves {env : Env} {calls : List Callback} (hc : Completes fw.ui calls)
    (h : calls.findSome? (callbackSaves env fw) = some s) : s = .calibration ∧ fw.ui.currentView = .calib := by
  obtain rfl | ⟨c, rfl, hc⟩ := hc
  · cases h
  · rw [List.findSome?_singleton] at h
    cases c with
    | calibPointFadeOut i =>
      simp only [callbackSaves] at h
      split_ifs at h
      exact ⟨(Option.some.inj h).symm, view_of_handles hc rfl⟩
    | _ => cases h

/-- `write_state` runs at the end of the calibration or on the OK of the PIN view. -/
theorem saves_cases (h : fw.saves i = some s) :
    (s = .calibration ∧ fw.ui.currentView = .calib) ∨
      (clicked fw i = some (.pin .ok) ∧ (s = .firstPin ∧ fw.pinSet = false ∨ s = .lockOut ∧ fw.LocksOut i)) := by
  cases i with
  | tick env =>
    rcases lcdTimerTick_calls fw.ui with hc | ⟨v, l, hl, -, hc⟩
    · exact .inl (hc.saves h)
    · simp only [Fw.saves, hl, List.findSome?_cons, callbackSaves] at h
      exact .inl (hc.saves h)
  | mouseDown | mouseMove | mainLoop => cases h
  | mouseUp x y env =>
    simp only [Fw.saves] at h
    obtain ⟨k, hk, hs⟩ := Option.bind_eq_some_iff.1 h
    rcases k with c | c | c
    · cases c <;> cases hs
    · cases c with
      | ok =>
        have hs := (saves_mouseUp hk).symm.trans h
        simp only [callbackSaves] at hs
        refine .inr ⟨hk, ?_⟩
        split_ifs at hs with hp hl
        · exact .inl ⟨(Option.some.inj hs).symm, hp⟩
        · exact .inr ⟨(Option.some.inj hs).symm, hk, by simpa using hp, hl⟩
      | _ => cases hs
    · cases c <;> cases hs

theorem saves_lockOut : fw.saves i = some .lockOut ↔ fw.LocksOut i := by
  constructor
  · intro h
    rcases saves_cases h with ⟨h, -⟩ | ⟨-, ⟨h, -⟩ | ⟨-, h⟩⟩
    · cases h
    · cases h
    · exact h
  · rintro ⟨hk, hp, hne, hl⟩
    cases i with
    | mouseUp x y env =>
      rw [saves_mouseUp hk, callbackSaves, if_neg (by simp [hp]), if_pos ⟨hne, hl⟩]
    | _ => cases hk

/-! ## The device -/

/-- A call of `write_state`: what it left in NVRAM, and the session before it. -/
structure Write where
  saver : Saver
  image : Image
  log : List Event

/-- `valid`: the digest in NVRAM is that of the image. `stored` is a record; nothing reads it. -/
structure Device where
  fw : Fw
  valid : Bool
  stored : List Write

inductive Turn where
  | input (i : Input)
  | power (mmcErr : Nat)

def Device.turn (d : Device) : Turn → Device
  | .input i =>
    match d.fw.saves i with
    | some s => ⟨d.fw.step i, true, d.stored ++ [⟨s, (d.fw.step i).nvram, d.fw.log⟩]⟩
    | none => { d with fw := d.fw.step i }
  | .power mmcErr => { d with fw := boot d.fw.nvram d.valid mmcErr }

/-- First power-on, with whatever the flash held. -/
def Device.factory (img : Image) (mmcErr : Nat) : Device := ⟨boot img false mmcErr, false, []⟩

/-- After the turns, from a device that was never used. -/
def Device.after (img : Image) (mmcErr : Nat) (turns : List Turn) : Device :=
  run Device.turn (.factory img mmcErr) turns

/-- An input stores nothing, or the image of the caller that runs. -/
theorem Device.input_cases (d : Device) (i : Input) :
    (d.fw.saves i = none ∧ d.turn (.input i) = { d with fw := d.fw.step i } ∧
      (d.fw.step i).nvram = d.fw.nvram) ∨
    ∃ s, d.fw.saves i = some s ∧ d.turn (.input i) = ⟨d.fw.step i, true, d.stored ++ [⟨s, d.fw.imageFor s, d.fw.log⟩]⟩ ∧
      (d.fw.step i).nvram = d.fw.imageFor s := by
  have hn := saves_nvram d.fw i
  cases hs : d.fw.saves i with
  | none =>
    rw [hs] at hn
    exact .inl ⟨rfl, by simp only [Device.turn, hs], hn⟩
  | some s =>
    rw [hs] at hn
    have hn : (d.fw.step i).nvram = d.fw.imageFor s := hn
    exact .inr ⟨s, rfl, by simp only [Device.turn, hs, hn], hn⟩

/-- `w` is written in the turn. -/
def Device.Writes (d : Device) (t : Turn) (w : Write) : Prop :=
  ∃ i s, t = .input i ∧ d.fw.saves i = some s ∧ w = ⟨s, d.fw.imageFor s, d.fw.log⟩

theorem Device.atEach_turn {P : List Write → Write → Prop} {d : Device} {t : Turn} :
    AtEach P (d.turn t).stored ↔ AtEach P d.stored ∧ ∀ w, d.Writes t w → P d.stored w := by
  cases t with
  | power mmcErr => exact ⟨fun h => ⟨h, fun w ⟨i, s, hi, _⟩ => by cases hi⟩, fun h => h.1⟩
  | input i =>
    rcases d.input_cases i with ⟨hs, h, -⟩ | ⟨s, hs, h, -⟩ <;> rw [h]
    · refine ⟨fun h => ⟨h, ?_⟩, fun h => h.1⟩
      rintro w ⟨j, s, hj, hsave, -⟩
      obtain rfl := Turn.input.inj hj
      cases hs.symm.trans hsave
    · refine AtEach.snoc.trans (and_congr_right fun _ => ⟨fun hw => ?_, fun hw => hw _ ⟨i, s, rfl, hs, rfl⟩⟩)
      rintro w ⟨j, s', hj, hsave, rfl⟩
      obtain rfl := Turn.input.inj hj
      obtain rfl := Option.some.inj (hs.symm.trans hsave)
      exact hw

/-- **What is stored in a run**, each image with those before it, is what its turns write. -/
theorem Device.stored_atEach {P : List Write → Write → Prop} {d : Device} (turns : List Turn) :
    AtEach P (run Device.turn d turns).stored ↔
      AtEach P d.stored ∧ Guarded Device.turn (fun d t => ∀ w, d.Writes t w → P d.stored w) d turns := by
  induction turns generalizing d with
  | nil => simp [run, Guarded]
  | cons t turns ih => exact ih.trans (by rw [Device.atEach_turn, Guarded, and_assoc])

theorem Device.stored_run {P : Write → Prop} {d : Device} (turns : List Turn) :
    (∀ w ∈ (run Device.turn d turns).stored, P w) ↔
      (∀ w ∈ d.stored, P w) ∧ Guarded Device.turn (fun d t => ∀ w, d.Writes t w → P w) d turns := by
  simp only [← atEach_iff_mem]
  exact Device.stored_atEach turns

/-! ## What was stored last -/

variable {fw' : Fw} {K : Click → Prop}

/-- A turn that is an input, and such an input. -/
def Turn.Is (P : Input → Prop) : Turn → Prop
  | .input i => P i
  | .power _ => False

instance Turn.decidableIs {P : Input → Prop} [DecidablePred P] : DecidablePred (Turn.Is P)
  | .input i => inferInstanceAs (Decidable (P i))
  | .power _ => .isFalse id

/-- Only an OK on the PIN view sets `pin_set`. -/
theorem Move.pinSet (hK : ¬ K (.pin .ok)) (h : Move K fw fw') (hp : fw'.pinSet = true) : fw.pinSet = true := by
  cases h with
  | decrypt card =>
    obtain ⟨plain, h⟩ | h := setDecryptOk_cases card fw <;> rw [h] at hp <;> exact hp
  | promptPassphrase => cases hp
  | passphraseOk card =>
    obtain ⟨u, -, ⟨plain, h⟩ | h⟩ := lcdPassphraseOk_cases card fw <;> rw [h] at hp <;> exact hp
  | pinOk hk => exact absurd hk hK
  | _ => exact hp

theorem step_pinSet (hs : fw.saves i = none) (hp : (fw.step i).pinSet = true) : fw.pinSet = true := by
  by_cases hk : clicked fw i = some (.pin .ok)
  · cases i with
    | mouseUp x y env =>
      by_contra hset
      have hfirst := (saves_mouseUp hk).symm.trans hs
      rw [callbackSaves, if_pos (Bool.eq_false_iff.2 hset)] at hfirst
      cases hfirst
    | _ => cases hk
  · have hstep : (fw.step i).pinSet = true → fw.pinSet = true := by
      refine @step_invariant (fun fw₁ => fw₁.pinSet = true → fw.pinSet = true) fw i ?_ (fun _ _ h => h) id
      exact fun _ _ hm h hp => h (hm.pinSet hk hp)
    exact hstep hp

/-- What was stored last is in NVRAM, under a good digest; a PIN is in force only then. -/
structure Recorded (d : Device) : Prop where
  valid : d.fw.pinSet = true → d.valid = true
  last : d.valid = true → ∃ w, d.stored.getLast? = some w ∧ w.image = d.fw.nvram

theorem recorded_factory (img : Image) (mmcErr : Nat) : Recorded (.factory img mmcErr) := ⟨of_cleared, of_cleared⟩

theorem Recorded.turn {d : Device} (hi : Recorded d) (t : Turn) : Recorded (d.turn t) := by
  cases t with
  | power mmcErr =>
    refine ⟨fun h => ?_, hi.last⟩
    have h : (boot d.fw.nvram d.valid mmcErr).pinSet = true := h
    show d.valid = true
    by_contra hv
    rw [Bool.not_eq_true] at hv
    rw [hv] at h
    cases h
  | input i =>
    rcases d.input_cases i with ⟨hs, h, hn⟩ | ⟨s, -, h, hn⟩ <;> rw [h]
    · refine ⟨fun hset => hi.valid (step_pinSet hs hset), fun hv => ?_⟩
      obtain ⟨w, hw, himage⟩ := hi.last hv
      exact ⟨w, hw, himage.trans hn.symm⟩
    · exact ⟨fun _ => rfl, fun _ => ⟨_, List.getLast?_concat, hn.symm⟩⟩

/-- With a PIN in force, the image stored last with `pin_set` is the one in NVRAM. -/
theorem Recorded.latest {d : Device} (hi : Recorded d) (hset : d.fw.pinSet = true) (hn : d.fw.nvram.pinSet = true) :
    ∃ w, (d.stored.filter fun w => w.image.pinSet).getLast? = some w ∧ w.image = d.fw.nvram := by
  obtain ⟨w, hw, himage⟩ := hi.last (hi.valid hset)
  obtain ⟨ws, hws⟩ := List.getLast?_eq_some_iff.1 hw
  refine ⟨w, ?_, himage⟩
  rw [hws, List.filter_append, List.filter_singleton, himage, hn]
  exact List.getLast?_concat

/-! ## A sample device: calibrated, then started with the passphrase `A` and the PIN `1` -/

def blankFlash : Image :=
  { calibState := .init, points := List.replicate 5 ⟨0, 0, 0, 0⟩, passphrase := [], pin := [],
    pinSet := false, passphraseSet := false }

def inputs (is : List Input) : List Turn := is.map .input

/-- A press on the point shown; it fades out, and the next one in. -/
def pressPoint : List Input := [.mainLoop 0 (some (0, 0))] ++ ticks 20

def calibrate : List Input := ticks 40 ++ pressPoint ++ pressPoint ++ pressPoint ++ pressPoint ++ pressPoint

/-- Buttons of the passphrase view. -/
def tapPassUp : List Input := tap 120 125
def tapPassOk : List Input := tap 180 240

/-- The passphrase the prompt starts with opens the file, and a PIN is assigned. -/
def firstUse : List Turn :=
  inputs calibrate ++ [.power 0] ++ inputs (ticks 20 ++ tapPassOk ++ ticks 10 ++ tapOne ++ tapOk)

/-! ## A passphrase is stored with a PIN -/

/-- The views that ask for a secret. -/
def asksSecret : View → Bool
  | .pass | .pin => true
  | _ => false

/-- Nothing is asked for before the panel is calibrated. -/
structure CalibratedFirst (fw : Fw) : Prop where
  bare : fw.calibState ≠ .done ∨ fw.ui.currentView = .calib → fw.passphraseSet = false
  asked : asksSecret fw.ui.currentView = true → fw.calibState = .done

/-- Neither the view nor the calibration changes, and no passphrase is set. -/
theorem CalibratedFirst.mono (hi : CalibratedFirst fw) (hv : fw'.ui.currentView = fw.ui.currentView)
    (hc : fw'.calibState = fw.calibState) (hp : fw'.passphraseSet = true → fw.passphraseSet = true) :
    CalibratedFirst fw' := by
  refine ⟨?_, ?_⟩ <;> rw [hv, hc]
  · intro h
    exact Bool.eq_false_iff.2 fun h' => Bool.eq_false_iff.1 (hi.bare h) (hp h')
  · exact hi.asked

theorem CalibratedFirst.show (hi : CalibratedFirst fw) (v : View) (hn : v ≠ .none)
    (hcalib : v = .calib → fw.calibState ≠ .done) (hask : asksSecret v = true → fw.calibState = .done) (c : Command) :
    CalibratedFirst (fw.show v c) := by
  have hv : (fw.show v c).ui.currentView = v := show_view hn c
  refine ⟨?_, ?_⟩ <;> rw [hv]
  · rintro (h | h)
    · exact hi.bare (.inl h)
    · exact hi.bare (.inl (hcalib h))
  · exact hask

theorem CalibratedFirst.move (h : Move K fw fw') (hi : CalibratedFirst fw) : CalibratedFirst fw' := by
  cases h with
  | screen hs => exact hi.mono hs.view rfl id
  | view hv =>
    rcases hv with rfl | ⟨rfl, hc⟩
    · exact hi.show .title (by decide) nofun of_cleared _
    · exact hi.show .calib (by decide) (fun _ => hc) of_cleared _
  | minor t ps formatValid attempted ok ht =>
    -- the calibration goes on only where nothing is asked for
    rcases ht with rfl | hc
    · exact hi.mono rfl rfl id
    · refine ⟨fun _ => hi.bare hc, fun hv => ?_⟩
      rcases hc with hc | hc
      · exact absurd (hi.asked hv) hc
      · exact of_cleared ((congrArg asksSecret hc).symm.trans hv)
  | writeState => exact hi.mono rfl rfl id
  | insertSd =>
    have hf : CalibratedFirst { forgetEntered fw with ui := lcdSetTitleMsg fw.ui "Insert SD card" } :=
      hi.mono rfl rfl id
    exact hf.show .title (by decide) nofun of_cleared _
  | decrypt card =>
    obtain ⟨plain, h⟩ | h := setDecryptOk_cases card fw <;> rw [h] <;> exact hi.mono rfl rfl id
  | promptPassphrase _ _ hc =>
    have hw : CalibratedFirst { wipePassphrase fw with
        ui := lcdSetPassphraseMsg (wipePassphrase fw).ui "Enter passphrase to unlock" } := hi.mono rfl rfl of_cleared
    exact hw.show .pass (by decide) nofun (fun _ => hc) _
  | assignPin _ _ _ hc =>
    have ha : CalibratedFirst { askPin "Assign PIN" .gPin fw with pinOk := false } := hi.mono rfl rfl id
    exact ha.show .pin (by decide) nofun (fun _ => hc) _
  | enterPin _ _ _ hc =>
    have ha : CalibratedFirst ({ askPin "Enter PIN" .pin fw with pinAttempts := 3 }.emit .enterPin) :=
      hi.mono rfl rfl id
    exact ha.show .pin (by decide) nofun (fun _ => hc) _
  | showKeys =>
    have hk : CalibratedFirst ({ fw with fileFormatValid := true }.emit
        (.keyView fw.decryptOk fw.pinSet fw.typedPin fw.storedPin)) := hi.mono rfl rfl id
    exact hk.show .key (by decide) nofun of_cleared _
  | passClick | pinClick | longPress | faded => exact hi.mono rfl rfl id
  | passphraseOk card _ hv =>
    have hc := hi.asked (congrArg asksSecret hv)
    obtain ⟨u, hs, ⟨plain, h⟩ | h⟩ := lcdPassphraseOk_cases card fw <;> rw [h] <;> refine ⟨?_, fun _ => hc⟩ <;>
      rintro (h | h)
    · exact absurd hc h
    · cases hv.symm.trans (hs.view.symm.trans h)
    · exact absurd hc h
    · cases hv.symm.trans (hs.view.symm.trans h)
  | pinOk =>
    have hv := lcdPinOk_view fw
    obtain ⟨_, rfl, ⟨-, h⟩ | ⟨-, -, h⟩ | ⟨-, -, -, u, hs, h⟩ | ⟨-, -, -, h⟩⟩ := lcdPinOk_cases fw <;> rw [h] at hv ⊢
    · exact hi.mono hv rfl id
    · exact hi.mono hv rfl id
    · exact hi.mono hv rfl id
    · exact hi.mono hv rfl of_cleared

theorem CalibratedFirst.card (hi : CalibratedFirst fw) (err : Nat) : CalibratedFirst (observeCard err fw) :=
  hi.mono rfl rfl id

theorem calibratedFirst_boot {valid : Bool} (h : valid = true → img.calibState = .done) (mmcErr : Nat) :
    CalibratedFirst (boot img valid mmcErr) := by
  refine ⟨?_, ?_⟩
  · cases valid with
    | false => exact fun _ => rfl
    | true =>
      rintro (hc | hc)
      · exact absurd (h rfl) hc
      · cases hc
  · exact of_cleared

theorem CalibratedFirst.calibrated (hi : CalibratedFirst fw) (h : fw.saves i = some s) :
    (fw.imageFor s).calibState = .done := by
  rcases saves_cases h with ⟨rfl, -⟩ | ⟨hk, hs⟩
  · rfl
  · have hc : fw.calibState = .done := hi.asked (congrArg asksSecret (clicked_view hk))
    rcases hs with ⟨rfl, -⟩ | ⟨rfl, -⟩ <;> exact hc

theorem CalibratedFirst.guarded (hi : CalibratedFirst fw) (h : fw.saves i = some s)
    (hp : (fw.imageFor s).passphraseSet = true) : (fw.imageFor s).pinSet = true := by
  rcases saves_cases h with ⟨rfl, hv⟩ | ⟨-, ⟨rfl, -⟩ | ⟨rfl, -⟩⟩
  · exact absurd ((hi.bare (.inr hv)).symm.trans hp) (by decide)
  · rfl
  · cases hp

/-- What is in NVRAM comes from a calibrated device. -/
structure Safe (d : Device) : Prop where
  fw : CalibratedFirst d.fw
  nvram : d.valid = true → d.fw.nvram.calibState = .done

theorem Safe.turn {d : Device} (hi : Safe d) (t : Turn) : Safe (d.turn t) := by
  cases t with
  | input i =>
    have hfw : CalibratedFirst (d.fw.step i) :=
      step_invariant (fun _ _ hm h => h.move hm) (fun _ err h => h.card err) hi.fw
    rcases d.input_cases i with ⟨-, h, hn⟩ | ⟨s, hs, h, hn⟩ <;> rw [h]
    · exact ⟨hfw, fun hv => (congrArg Image.calibState hn).trans (hi.nvram hv)⟩
    · exact ⟨hfw, fun _ => (congrArg Image.calibState hn).trans (hi.fw.calibrated hs)⟩
  | power mmcErr => exact ⟨calibratedFirst_boot hi.nvram mmcErr, hi.nvram⟩

theorem safe_factory (img : Image) (mmcErr : Nat) : Safe (.factory img mmcErr) :=
  ⟨calibratedFirst_boot of_cleared mmcErr, of_cleared⟩

/-- **A stored passphrase is guarded by a PIN**: from a device that was never used, through
any touches, ticks, card events and power cycles, `write_state` stores no image in which
`passphrase_set` is 1 and `pin_set` is not. -/
theorem stored_guarded (img : Image) (mmcErr : Nat) (turns : List Turn) :
    ∀ w ∈ (Device.after img mmcErr turns).stored, w.image.passphraseSet = true → w.image.pinSet = true := by
  refine (Device.stored_run turns).2 ⟨nofun, ?_⟩
  refine (Guarded.all turns).imp (fun d t _ (hi : Safe d) => hi.turn t) ?_ (safe_factory img mmcErr)
  rintro d t - hi w ⟨i, s, -, hs, rfl⟩
  exact hi.fw.guarded hs

theorem stored_guarded_sample :
    ∃ w ∈ (Device.after blankFlash 0 firstUse).stored, w.image.passphraseSet = true ∧ w.image.pinSet = true := by
  have h : (Device.after blankFlash 0 firstUse).stored.any (fun w => w.image.passphraseSet) = true := by
    decide +kernel
  obtain ⟨w, hw, hp⟩ := List.any_eq_true.1 h
  exact ⟨w, hw, hp, stored_guarded blankFlash 0 firstUse w hw hp⟩

end Keynjector.Firmware
