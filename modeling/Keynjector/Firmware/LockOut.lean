import Keynjector.Ui.Typing
import Keynjector.Firmware.Device
/-
# The lock-out and the secrets (main.c:172-176, 500-521, ui.c:1675-1686)

`lcd_pin_ok` clears the flags and calls `write_state`; the arrays of `g_state` are wiped only
later, when `set_next_view` asks for a passphrase. So every lock-out stores the passphrase
that was in use: `lockOut_forgets`.

| here | there |
| --- | --- |
| `inUse`      | the image stored last with `pin_set`: its passphrase and its PIN are in use |
| `Blank`      | both arrays read as empty, or as freshly reset |
| `PassInUse`  | the passphrase of `g_state` is not empty once it is used, and is the stored one once there is a PIN |
-/

namespace Keynjector.Firmware

open Ui Runs

variable {fw fw' : Fw} {i : Input} {K : Click → Prop}

def inUse (before : List Write) : Option Image := ((before.filter fun w => w.image.pinSet).getLast?).map Write.image

/-- A reset PIN array reads as empty. -/
def Blank (passphrase pin : List UInt8) : Prop :=
  (cstr passphrase = [] ∨ cstr passphrase = cstr (PassEdit.fresh passphraseBufsize).s) ∧ cstr pin = []

/-- The arrays are blank, and hold no character of the secrets in use. -/
structure Forgets (before : List Write) (img : Image) : Prop where
  blank : Blank img.passphrase img.pin
  forgotten : ∀ used ∈ inUse before, ∀ c ∈ cstr used.passphrase ++ cstr used.pin, c ∉ img.passphrase ∧ c ∉ img.pin

/-! ## The passphrase in use -/

structure PassInUse (fw : Fw) : Prop where
  kept : fw.pinSet = true → fw.nvram.pinSet = true ∧ fw.nvram.passphrase = fw.ui.mem.passphrase
  used : fw.pinSet = true ∨ fw.passphraseSet = true ∨ fw.decryptOk = true ∨ fw.ui.currentView = .pin →
    cstr fw.ui.mem.passphrase ≠ []
  typed : fw.ui.currentView = .pass → fw.pinSet = false ∧ fw.ui.passCaption = some .passphrase ∧
    ∃ v i, fw.ui.passEdit.Holds passphraseBufsize v i
  caption : fw.ui.pinCaption ≠ some .passphrase

/-- What the passphrase editor holds is not empty. -/
theorem passphrase_ne_nil {u : Screen} (hcap : u.passCaption = some .passphrase) {n : Nat} {v : List UInt8} {i : Nat}
    (h : u.passEdit.Holds n v i) : cstr u.mem.passphrase ≠ [] := by
  have hs : u.passEdit.s = u.mem.passphrase := by
    simp only [Screen.passEdit, hcap]
    rfl
  rw [← hs, h.cstr]
  exact List.append_ne_nil_of_right_ne_nil _ (List.cons_ne_nil _ _)

/-- Same view, same arrays and editors; flags may be cleared. -/
theorem PassInUse.mono (hi : PassInUse fw) (hs : SameEditors fw.ui fw'.ui) (hn : fw'.nvram = fw.nvram)
    (hpin : fw'.pinSet = true → fw.pinSet = true) (hpass : fw'.passphraseSet = true → fw.passphraseSet = true)
    (hdec : fw'.decryptOk = true → fw.decryptOk = true) : PassInUse fw' := by
  refine ⟨fun h => ?_, fun h => ?_, fun hv => ?_, hs.pinCaption ▸ hi.caption⟩
  · rw [hn, hs.mem]
    exact hi.kept (hpin h)
  · rw [hs.mem]
    refine hi.used ?_
    rw [← hs.view]
    exact h.imp hpin (Or.imp hpass (Or.imp_left hdec))
  · obtain ⟨hset, hcap, hedit⟩ := hi.typed (hs.view.symm.trans hv)
    refine ⟨Bool.eq_false_iff.2 fun h => Bool.eq_false_iff.1 hset (hpin h), hs.passCaption.trans hcap, ?_⟩
    rw [hs.passEdit]
    exact hedit

theorem PassInUse.screen (hi : PassInUse fw) {u : Screen} (hs : SameEditors fw.ui u) : PassInUse { fw with ui := u } :=
  hi.mono hs rfl id id id

theorem PassInUse.start (hi : PassInUse fw) (c : Command) : PassInUse (fw.start c) :=
  hi.screen (lcdStartCommand_same fw.ui c)

/-- Another view than the one that edits the passphrase is shown. -/
theorem passInUse_show {v : View} {c : Command} (hv : v ≠ .none ∧ v ≠ .pass)
    (hkept : fw.pinSet = true → fw.nvram.pinSet = true ∧ fw.nvram.passphrase = fw.ui.mem.passphrase)
    (hused : fw.pinSet = true ∨ fw.passphraseSet = true ∨ fw.decryptOk = true ∨ v = .pin →
      cstr fw.ui.mem.passphrase ≠ []) (hcap : fw.ui.pinCaption ≠ some .passphrase) : PassInUse (fw.show v c) := by
  have hs := lcdStartCommand_same (lcdSetView fw.ui v) c
  have hview : (fw.show v c).ui.currentView = v := show_view hv.1 c
  have hset : lcdSetView fw.ui v = { fw.ui with currentView := v } := if_neg hv.1
  rw [hset] at hs
  have hmem : (fw.show v c).ui.mem = fw.ui.mem := by
    rw [Fw.show, hset]
    exact hs.mem
  refine ⟨?_, ?_, fun h => absurd (hview.symm.trans h) hv.2, ?_⟩
  · rw [hmem]
    exact hkept
  · rw [hmem, hview]
    exact hused
  · rw [Fw.show, hset, hs.pinCaption]
    exact hcap

theorem PassInUse.show (hi : PassInUse fw) {v : View} (hv : v ≠ .none ∧ v ≠ .pass ∧ v ≠ .pin) (c : Command) :
    PassInUse (fw.show v c) := by
  refine passInUse_show ⟨hv.1, hv.2.1⟩ hi.kept (fun h => hi.used ?_) hi.caption
  exact h.imp_right (Or.imp_right (Or.imp_right fun hp => absurd hp hv.2.2))

/-- The prompt for the passphrase starts its editor anew. -/
theorem PassInUse.promptPassphrase (hi : PassInUse fw) (hd : fw.decryptOk = false) : PassInUse (promptPassphrase fw) := by
  have hview : (Firmware.promptPassphrase fw).ui.currentView = .pass := show_view (by decide) _
  refine ⟨of_cleared, ?_, fun _ => ⟨rfl, rfl, [], 0, PassEdit.holds_fresh (by decide)⟩, hi.caption⟩
  rw [hview]
  rintro (h | h | h | h)
  · exact of_cleared h
  · exact of_cleared h
  · exact absurd (hd.symm.trans h) (by decide)
  · cases h

theorem PassInUse.passClick (hi : PassInUse fw) (hv : fw.ui.currentView = .pass) (c : PassCtl) :
    PassInUse { fw.emit (.passClick c) with ui := fw.ui.withPass fw.ui.passCaption (fw.ui.passEdit.click c) } := by
  obtain ⟨hset, hcap, v, i, hedit⟩ := hi.typed hv
  obtain ⟨v', j, hclick⟩ := hedit.click c
  have hholds : (fw.ui.withPass fw.ui.passCaption (fw.ui.passEdit.click c)).passEdit.Holds passphraseBufsize v' j := by
    rw [hcap]
    exact hclick
  refine ⟨fun h => absurd (hset.symm.trans h) (by decide), fun _ => ?_, fun _ => ⟨hset, hcap, v', j, hholds⟩, hi.caption⟩
  exact passphrase_ne_nil hcap hholds

theorem PassInUse.passphraseOk (hi : PassInUse fw) (hv : fw.ui.currentView = .pass) (card : Card) :
    PassInUse (lcdPassphraseOk card fw) := by
  obtain ⟨hset, hcap, v, i, hedit⟩ := hi.typed hv
  have hne := passphrase_ne_nil hcap hedit
  obtain ⟨u, hs, ⟨plain, h⟩ | h⟩ := lcdPassphraseOk_cases card fw <;> rw [h]
  · refine ⟨fun h => absurd (hset.symm.trans h) (by decide), fun _ => hs.mem ▸ hne, fun _ => ?_,
      hs.pinCaption ▸ hi.caption⟩
    exact ⟨hset, hs.passCaption.trans hcap, v, i, hs.passEdit ▸ hedit⟩
  · refine ⟨fun h => absurd (hset.symm.trans h) (by decide), fun _ => hs.mem ▸ hne, fun _ => ?_,
      hs.pinCaption ▸ hi.caption⟩
    exact ⟨hset, hs.passCaption.trans hcap, v, i, hs.passEdit ▸ hedit⟩

theorem withPin_passphrase {u : Screen} {b : Option Buf} (hb : b ≠ some .passphrase) (e : PinEdit) :
    (u.withPin b e).mem.passphrase = u.mem.passphrase := by
  rcases b with _ | _ | _ | _
  · rfl
  · exact absurd rfl hb
  · rfl
  · rfl

theorem PassInUse.pinClick (hi : PassInUse fw) (hv : fw.ui.currentView = .pin) (c : PinCtl) :
    PassInUse { fw with ui := fw.ui.withPin fw.ui.pinCaption (fw.ui.pinEdit.click c) } := by
  have hmem := withPin_passphrase (u := fw.ui) hi.caption (fw.ui.pinEdit.click c)
  refine ⟨?_, ?_, fun h => absurd (hv.symm.trans h) (by decide), hi.caption⟩
  · show fw.pinSet = true → fw.nvram.pinSet = true ∧ fw.nvram.passphrase = _
    rw [hmem]
    exact hi.kept
  · intro h
    show cstr (fw.ui.withPin fw.ui.pinCaption (fw.ui.pinEdit.click c)).mem.passphrase ≠ []
    rw [hmem]
    exact hi.used h

theorem PassInUse.pinOk (hi : PassInUse fw) (hv : fw.ui.currentView = .pin) : PassInUse (lcdPinOk fw) := by
  have hne : cstr fw.ui.mem.passphrase ≠ [] := hi.used (.inr (.inr (.inr hv)))
  obtain ⟨_, rfl, ⟨-, h⟩ | ⟨-, -, h⟩ | ⟨-, -, -, u, hs, h⟩ | ⟨-, -, -, h⟩⟩ := lcdPinOk_cases fw <;> rw [h]
  · refine PassInUse.start ?_ .fadeOut
    exact ⟨fun _ => ⟨rfl, rfl⟩, fun _ => hne, fun h => absurd (hv.symm.trans h) (by decide), hi.caption⟩
  · refine PassInUse.start ?_ .fadeOut
    exact hi.mono (SameEditors.refl _) rfl id id id
  · exact hi.mono hs rfl id id id
  · refine PassInUse.start ?_ .fadeOut
    exact ⟨of_cleared, fun _ => hne, fun h => absurd (hv.symm.trans h) (by decide), hi.caption⟩

theorem PassInUse.move (h : Move K fw fw') (hi : PassInUse fw) : PassInUse fw' := by
  cases h with
  | screen hs => exact hi.screen hs
  | view hv => exact hi.show (by rcases hv with rfl | ⟨rfl, -⟩ <;> decide) _
  | minor => exact hi.mono (SameEditors.refl _) rfl id id id
  | writeState => exact ⟨fun h => ⟨h, rfl⟩, hi.used, hi.typed, hi.caption⟩
  | insertSd =>
    have hf : PassInUse (forgetEntered fw) := hi.mono (SameEditors.refl _) rfl id id of_cleared
    exact (hf.screen (SameEditors.titleMsg _ "Insert SD card")).show (by decide) .fadeIn
  | decrypt card _ hp =>
    have hne : cstr fw.ui.mem.passphrase ≠ [] := hi.used (.inr (.inl hp))
    obtain ⟨plain, h⟩ | h := setDecryptOk_cases card fw <;> rw [h] <;> exact ⟨hi.kept, fun _ => hne, hi.typed, hi.caption⟩
  | promptPassphrase _ hd => exact hi.promptPassphrase hd
  | assignPin _ hd => exact passInUse_show (by decide) hi.kept (fun _ => hi.used (.inr (.inr (.inl hd)))) fun h => by cases h
  | enterPin _ hd => exact passInUse_show (by decide) hi.kept (fun _ => hi.used (.inr (.inr (.inl hd)))) fun h => by cases h
  | showKeys =>
    have hk : PassInUse ({ fw with fileFormatValid := true }.emit
        (.keyView fw.decryptOk fw.pinSet fw.typedPin fw.storedPin)) := hi.mono (SameEditors.refl _) rfl id id id
    exact hk.show (by decide) .fadeIn
  | passClick c _ hv => exact hi.passClick hv c
  | pinClick c _ _ hv => exact hi.pinClick hv c
  | passphraseOk card _ hv => exact hi.passphraseOk hv card
  | pinOk _ hv => exact hi.pinOk hv
  | longPress | faded => exact hi.mono (SameEditors.refl _) rfl id id id

theorem PassInUse.step (hi : PassInUse fw) (i : Input) : PassInUse (fw.step i) :=
  step_invariant (fun _ _ hm h => h.move hm) (fun _ _ h => h.mono (SameEditors.refl _) rfl id id id) hi

/-- The digest is good only for an image with a passphrase in use, if it has a flag set. -/
theorem passInUse_boot {img : Image} {valid : Bool}
    (h : valid = true → img.pinSet = true ∨ img.passphraseSet = true → cstr img.passphrase ≠ []) (mmcErr : Nat) :
    PassInUse (boot img valid mmcErr) := by
  have hview : (boot img valid mmcErr).ui.currentView = .pass → False := fun h => by cases h
  have hcap : (boot img valid mmcErr).ui.pinCaption ≠ some .passphrase := fun h => by cases h
  cases valid with
  | false =>
    refine ⟨of_cleared, ?_, fun h => (hview h).elim, hcap⟩
    rintro (h | h | h | h) <;> cases h
  | true =>
    refine ⟨fun hset => ⟨hset, rfl⟩, ?_, fun h => (hview h).elim, hcap⟩
    rintro (hset | hset | hset | hset)
    · exact h rfl (.inl hset)
    · exact h rfl (.inr hset)
    · cases hset
    · cases hset

/-! ## Runs -/

structure PassRecorded (d : Device) : Prop extends Recorded d where
  fw : PassInUse d.fw
  nvram : d.valid = true → d.fw.nvram.pinSet = true ∨ d.fw.nvram.passphraseSet = true →
    cstr d.fw.nvram.passphrase ≠ []

/-- An image with a flag set has a passphrase. -/
theorem PassInUse.imageFor (hi : PassInUse fw) {s : Saver} (hs : fw.saves i = some s)
    (hset : (fw.imageFor s).pinSet = true ∨ (fw.imageFor s).passphraseSet = true) :
    cstr (fw.imageFor s).passphrase ≠ [] := by
  rcases saves_cases hs with ⟨rfl, -⟩ | ⟨hk, ⟨rfl, -⟩ | ⟨rfl, -⟩⟩
  · exact hi.used (hset.imp_right .inl)
  · exact hi.used (.inr (.inr (.inr (clicked_view hk))))
  · rcases hset with h | h <;> cases h

theorem PassRecorded.turn {d : Device} (hi : PassRecorded d) (t : Turn) : PassRecorded (d.turn t) := by
  refine ⟨hi.toRecorded.turn t, ?_, ?_⟩
  · cases t with
    | power mmcErr => exact passInUse_boot hi.nvram mmcErr
    | input i => rcases d.input_cases i with ⟨-, h, -⟩ | ⟨s, -, h, -⟩ <;> rw [h] <;> exact hi.fw.step i
  · cases t with
    | power mmcErr => exact hi.nvram
    | input i =>
      rcases d.input_cases i with ⟨-, h, hn⟩ | ⟨s, hs, h, hn⟩ <;> rw [h] <;> simp only [hn]
      · exact hi.nvram
      · exact fun _ => hi.fw.imageFor hs

theorem passRecorded_after (img : Image) (mmcErr : Nat) (turns : List Turn) :
    PassRecorded (.after img mmcErr turns) := by
  have h0 : PassRecorded (.factory img mmcErr) :=
    ⟨recorded_factory img mmcErr, passInUse_boot of_cleared mmcErr, of_cleared⟩
  exact (Guarded.all turns).invariant (fun d t _ hi => hi.turn t) h0

/-- The passphrase in use, whole. -/
def KeepsPassphrase (before : List Write) (img : Image) : Prop :=
  ∃ used, inUse before = some used ∧ img.passphrase = used.passphrase ∧ cstr used.passphrase ≠ []

theorem PassRecorded.lockOut {d : Device} (hi : PassRecorded d) (hl : d.fw.LocksOut i) :
    KeepsPassphrase d.stored (d.fw.imageFor .lockOut) := by
  obtain ⟨-, hset, -⟩ := hl
  obtain ⟨hn, hpass⟩ := hi.fw.kept hset
  obtain ⟨w, hw, himage⟩ := hi.toRecorded.latest hset hn
  refine ⟨w.image, by rw [inUse, hw, Option.map_some], ?_, ?_⟩
  · rw [himage, hpass]
    rfl
  · rw [himage, hpass]
    exact hi.fw.used (.inl hset)

theorem KeepsPassphrase.not_forgets {before : List Write} {img : Image} (h : KeepsPassphrase before img) :
    ¬ Forgets before img := by
  obtain ⟨used, hused, hpass, hne⟩ := h
  intro hf
  obtain ⟨c, hc⟩ := List.exists_mem_of_ne_nil _ hne
  exact (hf.forgotten used hused c (List.mem_append_left _ hc)).1 (hpass ▸ List.takeWhile_subset _ hc)

theorem writes_lockOut {d : Device} {t : Turn} {w : Write} :
    d.Writes t w ∧ w.saver = .lockOut ↔
      ∃ i, t = .input i ∧ d.fw.LocksOut i ∧ w = ⟨.lockOut, d.fw.imageFor .lockOut, d.fw.log⟩ := by
  constructor
  · rintro ⟨⟨i, s, rfl, hs, rfl⟩, rfl⟩
    exact ⟨i, rfl, saves_lockOut.1 hs, rfl⟩
  · rintro ⟨i, rfl, hl, rfl⟩
    exact ⟨⟨i, .lockOut, rfl, saves_lockOut.2 hl, rfl⟩, rfl⟩

variable (img : Image) (mmcErr : Nat) (turns : List Turn)

theorem keepsPassphrase_atEach :
    AtEach (fun before w => w.saver = .lockOut → KeepsPassphrase before w.image)
      (Device.after img mmcErr turns).stored := by
  refine (Device.stored_atEach turns).2 ⟨AtEach.nil, ?_⟩
  refine (Guarded.all turns).imp (fun d t _ (hi : PassRecorded d) => hi.turn t) ?_ (passRecorded_after img mmcErr [])
  rintro d t - hi w hw hs
  obtain ⟨i, -, hl, rfl⟩ := writes_lockOut.1 ⟨hw, hs⟩
  exact hi.lockOut hl

theorem forgets_iff_guarded :
    AtEach (fun before w => w.saver = .lockOut → Forgets before w.image) (Device.after img mmcErr turns).stored ↔
      Guarded Device.turn (fun d t => ¬ t.Is d.fw.LocksOut) (.factory img mmcErr) turns := by
  have h0 : PassRecorded (.factory img mmcErr) := passRecorded_after img mmcErr []
  refine (Device.stored_atEach turns).trans ((and_iff_right AtEach.nil).trans ⟨fun hg => ?_, fun hg => ?_⟩)
  · refine hg.imp (fun d t _ (hi : PassRecorded d) => hi.turn t) ?_ h0
    rintro d t hf hi hl
    cases t with
    | power => exact hl
    | input i =>
      obtain ⟨hw, hs⟩ := writes_lockOut.2 ⟨i, rfl, hl, rfl⟩
      exact (hi.lockOut hl).not_forgets (hf _ hw hs)
  · refine hg.imp (fun d t _ (hi : PassRecorded d) => hi.turn t) ?_ h0
    rintro d t hn - w hw hs
    obtain ⟨i, rfl, hl, -⟩ := writes_lockOut.1 ⟨hw, hs⟩
    exact absurd hl hn

/-- **No lock-out forgets the secrets**: the images that lock-outs store in a run are rid of
what was in use exactly if the run has no lock-out, since each of them keeps the passphrase. -/
theorem lockOut_forgets :
    (AtEach (fun before w => w.saver = .lockOut → Forgets before w.image) (Device.after img mmcErr turns).stored ↔
      Guarded Device.turn (fun d t => ¬ t.Is d.fw.LocksOut) (.factory img mmcErr) turns) ∧
      AtEach (fun before w => w.saver = .lockOut → KeepsPassphrase before w.image)
        (Device.after img mmcErr turns).stored :=
  ⟨forgets_iff_guarded img mmcErr turns, keepsPassphrase_atEach img mmcErr turns⟩

/-- The same session with another card. -/
def withCard (card : Card) : Input → Input
  | .tick _ => .tick ⟨card, card, true⟩
  | .mouseUp x y _ => .mouseUp x y ⟨card, card, true⟩
  | i => i

/-- Passphrase `B` and PIN `1`; after a power cycle, the PIN `2` three times. -/
def thirdWrong : List Turn :=
  inputs ((calibrate ++ tapPassUp ++ tapPassOk ++ ticks 10 ++ tapOne ++ tapOk ++ ticks 10).map
      (withCard ⟨true, true, fun p => if p = [66] then some sampleItems else none⟩)) ++ [.power 0] ++
    inputs ((ticks 20 ++ tapTwo ++ tapOk ++ tapOk ++ tapOk).map
      (withCard ⟨true, true, fun p => if p = [66] then some sampleItems else none⟩))

/-- Passphrase `A` and no PIN; after a power cycle, the PIN `2` three times. -/
def thirdWrongEmpty : List Turn :=
  inputs (calibrate ++ tapPassOk ++ ticks 10 ++ tapOk ++ ticks 10) ++ [.power 0] ++
    inputs (ticks 20 ++ tapTwo ++ tapOk ++ tapOk ++ tapOk)

/-- What the images hold. -/
def strings (w : Write) : Saver × List UInt8 × List UInt8 := (w.saver, cstr w.image.passphrase, cstr w.image.pin)

/-- **The lock-out keeps the secrets**: `B` and `1` are in use and still there after it, and so
is an `A`, which looks like a reset array. -/
theorem lockOut_keeps :
    (Device.after blankFlash 0 thirdWrong).stored.map strings =
        [(.calibration, [], []), (.firstPin, [66], [49]), (.lockOut, [66], [49])] ∧
      (Device.after blankFlash 0 thirdWrongEmpty).stored.map strings =
        [(.calibration, [], []), (.firstPin, [65], []), (.lockOut, [65], [])] ∧
      ∀ turns ∈ [thirdWrong, thirdWrongEmpty],
        ¬ AtEach (fun before w => w.saver = .lockOut → Forgets before w.image) (Device.after blankFlash 0 turns).stored := by
  refine ⟨by decide +kernel, by decide +kernel, ?_⟩
  simp only [List.forall_mem_cons, forgets_iff_guarded]
  exact ⟨by decide +kernel, by decide +kernel, List.forall_mem_nil _⟩

end Keynjector.Firmware
