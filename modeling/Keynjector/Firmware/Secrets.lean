import Keynjector.Ui.Editors
import Keynjector.Firmware.Unlock
import Keynjector.Firmware.LockOut
/-
# The secrets in NVRAM (main.c:172-176, 256-356, 471-522, ui.c:1675-1803)

The passphrase editor and, while a first PIN is assigned, the PIN editor write straight into
`g_state`; what `write_state` stores is what they left there.

| here | there |
| --- | --- |
| `PinKept`          | the PIN in force is the one of the image stored last with `pin_set`, and outlives a power cycle |
| `lastDecrypt`      | the latest call of `decrypt_file` in a session |
| `Fw.EditsPin`      | a digit or a back click that the PIN editor takes while `g_state.pin` is set and behind it |
| `Fw.EditsPassphrase` | a click that the passphrase editor takes after a successful decryption |

`pinKept_iff` and `stored_decrypts`: the two edits during a fade-out are all that can put
another PIN in force or store a passphrase that was not tried.
-/

namespace Keynjector.Firmware

open Ui Runs

variable {fw fw' : Fw} {i : Input} {K : Click → Prop}

/-! ## Clicks -/

theorem step_pinClick {c : PinCtl} (hk : clicked fw i = some (.pin c)) (hc : c ≠ .ok) :
    ∃ u, SameEditors fw.ui u ∧ fw.step i = { fw with ui := u.withPin u.pinCaption (u.pinEdit.click c) } := by
  obtain ⟨u, env, hs, h⟩ := step_click hk
  refine ⟨u, hs, h.trans ?_⟩
  cases c with
  | ok => exact absurd rfl hc
  | _ => rfl

theorem step_passClick {c : PassCtl} (hk : clicked fw i = some (.pass c)) (hc : c ≠ .ok) :
    ∃ u, SameEditors fw.ui u ∧
      fw.step i = { fw.emit (.passClick c) with ui := u.withPass u.passCaption (u.passEdit.click c) } := by
  obtain ⟨u, env, hs, h⟩ := step_click hk
  refine ⟨u, hs, h.trans ?_⟩
  cases c with
  | ok => exact absurd rfl hc
  | _ => rfl

/-- Only the OK buttons store. -/
theorem saves_edit {k : Click} (hk : clicked fw i = some k) (hc : k ≠ .pin .ok) : fw.saves i = none := by
  cases hs : fw.saves i with
  | none => rfl
  | some s =>
    rcases saves_cases hs with ⟨-, hv⟩ | ⟨hk', -⟩
    · cases k <;> cases (clicked_view hk).symm.trans hv
    · exact absurd (Option.some.inj (hk.symm.trans hk')) hc

/-! ## The PIN in force -/

/-- A PIN click that is taken while the editor writes into a `g_state.pin` that is set. -/
def Fw.EditsPin (fw : Fw) (i : Input) : Prop :=
  fw.pinSet = true ∧ fw.ui.pinCaption = some .gPin ∧ ∃ c, clicked fw i = some (.pin c) ∧ fw.ui.pinEdit.takes c = true

/-- The image stored last with `pin_set` has the PIN that is in force, and it stays so when
power is lost. -/
def PinKept (d : Device) : Prop :=
  d.fw.pinSet = true →
    (∃ w, (d.stored.filter fun w => w.image.pinSet).getLast? = some w ∧ w.image.pin = d.fw.ui.mem.gPin) ∧
      ∀ mmcErr, (d.turn (.power mmcErr)).fw.pinSet = true ∧
        (d.turn (.power mmcErr)).fw.storedPin = d.fw.storedPin

/-- `g_state.pin` with the lengths of the PIN editor. -/
def gPinEdit (u : Screen) : PinEdit := ⟨u.mem.gPin, u.pinMaxlen, u.pinLen⟩

structure PinInForce (fw : Fw) : Prop where
  kept : fw.pinSet = true → fw.nvram.pinSet = true ∧ fw.nvram.pin = fw.ui.mem.gPin
  passCaption : fw.ui.passCaption ≠ some .gPin
  typed : fw.ui.pinCaption = some .gPin → ∃ ds room, (gPinEdit fw.ui).Typed ds room

/-- Neither the captions nor `g_state.pin` change; `pin_set` may be cleared. -/
theorem PinInForce.mono (hi : PinInForce fw) (hg : gPinEdit fw'.ui = gPinEdit fw.ui)
    (hpass : fw'.ui.passCaption = fw.ui.passCaption) (hpin : fw'.ui.pinCaption = fw.ui.pinCaption)
    (hn : fw'.nvram = fw.nvram) (hset : fw'.pinSet = true → fw.pinSet = true) : PinInForce fw' := by
  refine ⟨fun h => ?_, hpass ▸ hi.passCaption, ?_⟩
  · rw [hn, show fw'.ui.mem.gPin = fw.ui.mem.gPin from congrArg PinEdit.s hg]
    exact hi.kept (hset h)
  · rw [hg, hpin]
    exact hi.typed

theorem SameEditors.gPinEdit {u u' : Screen} (hs : SameEditors u u') : gPinEdit u' = gPinEdit u := by
  rw [Firmware.gPinEdit, hs.mem]
  exact congrArg₂ (PinEdit.mk _) (congrArg PinEdit.maxlen hs.pinEdit :) (congrArg PinEdit.len hs.pinEdit :)

theorem PinInForce.screen (hi : PinInForce fw) {u : Screen} (hs : SameEditors fw.ui u) :
    PinInForce { fw with ui := u } :=
  hi.mono hs.gPinEdit hs.passCaption hs.pinCaption rfl id

theorem PinInForce.show (hi : PinInForce fw) (v : View) (c : Command) : PinInForce (fw.show v c) := by
  have hview : PinInForce { fw with ui := lcdSetView fw.ui v } := by
    unfold lcdSetView
    split_ifs <;> exact hi.mono rfl rfl rfl rfl id
  exact (hview.screen (lcdStartCommand_same _ c)).mono rfl rfl rfl rfl id

theorem PinInForce.start (hi : PinInForce fw) (c : Command) : PinInForce (fw.start c) :=
  hi.screen (lcdStartCommand_same fw.ui c)

/-- Another editor than the one of `g_state.pin` is opened. -/
theorem PinInForce.promptPassphrase (hi : PinInForce fw) : PinInForce (promptPassphrase fw) := by
  have hw : PinInForce (wipePassphrase fw) := ⟨of_cleared, nofun, hi.typed⟩
  exact (hw.screen (SameEditors.passphraseMsg _ "Enter passphrase to unlock")).show .pass .fadeIn

theorem PinInForce.assignPin (hi : PinInForce fw) (hp : fw.pinSet = false) : PinInForce (assignPin fw) := by
  have ha : PinInForce { askPin "Assign PIN" .gPin fw with pinOk := false } :=
    ⟨fun h => absurd (hp.symm.trans h) (by decide), hi.passCaption, fun _ => ⟨[], 100, PinEdit.typed_fresh 100⟩⟩
  exact ha.show .pin .fadeIn

theorem PinInForce.enterPin (hi : PinInForce fw) : PinInForce (enterPin fw) := by
  have ha : PinInForce ({ askPin "Enter PIN" .pin fw with pinAttempts := 3 }.emit .enterPin) :=
    ⟨hi.kept, hi.passCaption, nofun⟩
  exact ha.show .pin .fadeIn

theorem PinInForce.passClick (hi : PinInForce fw) (c : PassCtl) :
    PinInForce { fw.emit (.passClick c) with ui := fw.ui.withPass fw.ui.passCaption (fw.ui.passEdit.click c) } := by
  have hmem : ((fw.ui.mem.write fw.ui.passCaption (fw.ui.passEdit.click c).s)).gPin = fw.ui.mem.gPin := by
    have hne := hi.passCaption
    generalize fw.ui.passCaption = b at hne
    rcases b with _ | _ | _ | _
    · rfl
    · rfl
    · exact absurd rfl hne
    · rfl
  exact hi.mono (congrArg (fun s => PinEdit.mk s _ _) hmem) rfl rfl rfl id

/-- `lcd_pin_ok` stores the PIN it puts in force. -/
theorem PinInForce.pinOk (hi : PinInForce fw) : PinInForce (lcdPinOk fw) := by
  obtain ⟨_, rfl, ⟨-, h⟩ | ⟨-, -, h⟩ | ⟨-, -, -, u, hs, h⟩ | ⟨-, -, -, h⟩⟩ := lcdPinOk_cases fw <;> rw [h]
  · have hset : PinInForce (writeState { fw.emit (.pinOk fw.pinSet fw.typedPin fw.storedPin) with
        pinEntered := true, pinSet := true, ui := { fw.ui with mem := copyPin fw.ui.mem } }) :=
      ⟨fun _ => ⟨rfl, rfl⟩, hi.passCaption, hi.typed⟩
    exact hset.start .fadeOut
  · have he : PinInForce { fw.emit (.pinOk fw.pinSet fw.typedPin fw.storedPin) with pinEntered := true } :=
      hi.mono rfl rfl rfl rfl id
    exact he.start .fadeOut
  · have hu : PinInForce { fw with ui := u } := hi.screen hs
    exact hu.mono rfl rfl rfl rfl id
  · refine PinInForce.start ?_ .fadeOut
    exact ⟨of_cleared, hi.passCaption, hi.typed⟩

/-- Moves without a click of the PIN editor. -/
theorem PinInForce.move (hK : ∀ c, K (.pin c) → c = .ok) (h : Move K fw fw') (hi : PinInForce fw) : PinInForce fw' := by
  cases h with
  | screen hs => exact hi.screen hs
  | view => exact hi.show _ _
  | minor => exact hi.mono rfl rfl rfl rfl id
  | writeState => exact ⟨fun h => ⟨h, rfl⟩, hi.passCaption, hi.typed⟩
  | insertSd =>
    have hf : PinInForce (forgetEntered fw) := hi.mono rfl rfl rfl rfl id
    exact (hf.screen (SameEditors.titleMsg _ "Insert SD card")).show .title .fadeIn
  | decrypt card =>
    obtain ⟨plain, h⟩ | h := setDecryptOk_cases card fw <;> rw [h] <;> exact hi.mono rfl rfl rfl rfl id
  | promptPassphrase => exact hi.promptPassphrase
  | assignPin _ _ hp => exact hi.assignPin hp
  | enterPin => exact hi.enterPin
  | showKeys =>
    have hk : PinInForce ({ fw with fileFormatValid := true }.emit
        (.keyView fw.decryptOk fw.pinSet fw.typedPin fw.storedPin)) := hi.mono rfl rfl rfl rfl id
    exact hk.show .key .fadeIn
  | passClick c => exact hi.passClick c
  | pinClick c hc hok => exact absurd (hK c hc) hok
  | passphraseOk card =>
    obtain ⟨u, hs, ⟨plain, h⟩ | h⟩ := lcdPassphraseOk_cases card fw <;> rw [h] <;>
      exact (hi.screen hs).mono rfl rfl rfl rfl id
  | pinOk => exact hi.pinOk
  | longPress | faded => exact hi.mono rfl rfl rfl rfl id

theorem PinInForce.card (hi : PinInForce fw) (err : Nat) : PinInForce (observeCard err fw) :=
  hi.mono rfl rfl rfl rfl id

theorem pinEdit_gPin {u : Screen} (h : u.pinCaption = some .gPin) : u.pinEdit = gPinEdit u := by
  rw [Screen.pinEdit, h]
  rfl

theorem withPin_gPinEdit {u : Screen} (h : u.pinCaption = some .gPin) (e : PinEdit) :
    gPinEdit (u.withPin u.pinCaption e) = e := by
  rw [h]
  rfl

theorem PinInForce.pinClick (hi : PinInForce fw) (c : PinCtl)
    (hidle : fw.pinSet = true → fw.ui.pinCaption = some .gPin → fw.ui.pinEdit.takes c = false) :
    PinInForce { fw with ui := fw.ui.withPin fw.ui.pinCaption (fw.ui.pinEdit.click c) } := by
  by_cases hcap : fw.ui.pinCaption = some .gPin
  · refine ⟨fun hset => ?_, hi.passCaption, fun _ => ?_⟩
    · have hclick : fw.ui.pinEdit.click c = gPinEdit fw.ui := by
        rw [PinEdit.click_idle (hidle hset hcap), pinEdit_gPin hcap]
      have hpin : (fw.ui.withPin fw.ui.pinCaption (fw.ui.pinEdit.click c)).mem.gPin = fw.ui.mem.gPin :=
        congrArg PinEdit.s ((withPin_gPinEdit hcap _).trans hclick)
      exact (hi.kept hset).imp_right fun h => h.trans hpin.symm
    · obtain ⟨ds, room, ht⟩ := hi.typed hcap
      rw [withPin_gPinEdit hcap, pinEdit_gPin hcap]
      exact ht.click c
  · have hpin : (fw.ui.withPin fw.ui.pinCaption (fw.ui.pinEdit.click c)).mem.gPin = fw.ui.mem.gPin :=
      withPin_gPin hcap _
    exact ⟨fun hset => (hi.kept hset).imp_right fun h => h.trans hpin.symm, hi.passCaption, fun h => absurd h hcap⟩

theorem PinInForce.step (hi : PinInForce fw) (hg : ¬ fw.EditsPin i) : PinInForce (fw.step i) := by
  by_cases hk : ∃ c, clicked fw i = some (.pin c) ∧ c ≠ .ok
  · obtain ⟨c, hc, hok⟩ := hk
    obtain ⟨u, hs, h⟩ := step_pinClick hc hok
    rw [h]
    refine (hi.screen hs).pinClick c fun hset hcap => ?_
    by_contra ht
    refine hg ⟨hset, hs.pinCaption ▸ hcap, c, hc, ?_⟩
    rw [← hs.pinEdit]
    simpa using ht
  · refine step_invariant (fun _ _ hm h => h.move (fun c hc => ?_) hm) (fun _ err h => h.card err) hi
    by_contra hok
    exact hk ⟨c, hc, hok⟩

/-- A click that is taken changes `g_state.pin`, and NVRAM does not follow. -/
theorem PinInForce.edited (hi : PinInForce fw) (he : fw.EditsPin i) :
    (fw.step i).pinSet = true ∧ (fw.step i).ui.mem.gPin ≠ fw.ui.mem.gPin := by
  obtain ⟨hset, hcap, c, hc, ht⟩ := he
  obtain ⟨u, hs, h⟩ := step_pinClick hc (by rintro rfl; cases ht)
  rw [h]
  refine ⟨hset, fun heq => ?_⟩
  have hcap : u.pinCaption = some .gPin := hs.pinCaption.trans hcap
  obtain ⟨ds, room, htyped⟩ := (hi.screen hs).typed hcap
  rw [← hs.pinEdit, pinEdit_gPin hcap] at ht
  obtain ⟨ds', room', htyped', hne⟩ := htyped.take ht
  have hcstr := htyped'.cstr
  rw [← pinEdit_gPin hcap, ← withPin_gPinEdit hcap (u.pinEdit.click c)] at hcstr
  have hgpin : (gPinEdit (u.withPin u.pinCaption (u.pinEdit.click c))).s = (gPinEdit u).s :=
    heq.trans (congrArg Memory.gPin hs.mem.symm)
  rw [hgpin, htyped.cstr] at hcstr
  exact hne hcstr.symm

/-- What was stored last is in NVRAM, with the PIN in force. -/
structure PinRecorded (d : Device) : Prop extends Recorded d where
  fw : PinInForce d.fw

theorem pinInForce_boot (img : Image) (valid : Bool) (mmcErr : Nat) : PinInForce (boot img valid mmcErr) := by
  cases valid with
  | true => exact ⟨fun h => ⟨h, rfl⟩, nofun, nofun⟩
  | false => exact ⟨of_cleared, nofun, nofun⟩

theorem pinRecorded_factory (img : Image) (mmcErr : Nat) : PinRecorded (.factory img mmcErr) :=
  ⟨recorded_factory img mmcErr, pinInForce_boot img false mmcErr⟩

theorem PinRecorded.turn {d : Device} (hi : PinRecorded d) {t : Turn} (hg : ¬ t.Is d.fw.EditsPin) :
    PinRecorded (d.turn t) := by
  refine ⟨hi.toRecorded.turn t, ?_⟩
  cases t with
  | power mmcErr => exact pinInForce_boot _ _ _
  | input i =>
    have hfw := hi.fw.step hg
    rcases d.input_cases i with ⟨-, h, -⟩ | ⟨s, -, h, -⟩ <;> rw [h] <;> exact hfw

theorem PinRecorded.latest {d : Device} (hi : PinRecorded d) (hset : d.fw.pinSet = true) :
    ∃ w, (d.stored.filter fun w => w.image.pinSet).getLast? = some w ∧ w.image.pin = d.fw.ui.mem.gPin := by
  obtain ⟨hnset, hnpin⟩ := hi.fw.kept hset
  obtain ⟨w, hw, himage⟩ := hi.toRecorded.latest hset hnset
  exact ⟨w, hw, by rw [himage, hnpin]⟩

theorem PinRecorded.pinKept {d : Device} (hi : PinRecorded d) : PinKept d := by
  intro hset
  obtain ⟨hnset, hnpin⟩ := hi.fw.kept hset
  refine ⟨hi.latest hset, fun mmcErr => ?_⟩
  have hboot : (d.turn (.power mmcErr)).fw = boot d.fw.nvram true mmcErr := by
    rw [Device.turn, hi.valid hset]
  rw [hboot]
  exact ⟨hnset, congrArg cstr hnpin⟩

/-- After an edit the image stored last has another PIN. -/
theorem PinRecorded.edited {d : Device} (hi : PinRecorded d) {t : Turn} (he : t.Is d.fw.EditsPin) :
    ¬ PinKept (d.turn t) := by
  cases t with
  | power => cases he
  | input i =>
    obtain ⟨hset, hcap, c, hc, ht⟩ := id he
    obtain ⟨hset', hne⟩ := hi.fw.edited he
    have hsaves : d.fw.saves i = none := saves_edit hc (by rintro ⟨⟩; cases ht)
    have hturn : d.turn (.input i) = { d with fw := d.fw.step i } := by simp only [Device.turn, hsaves]
    rw [hturn]
    intro hk
    obtain ⟨⟨w, hw, hpin⟩, -⟩ := hk hset'
    obtain ⟨w', hw', hpin'⟩ := hi.latest hset
    obtain rfl := Option.some.inj (hw'.symm.trans hw)
    exact hne (hpin.symm.trans hpin')

/-- **The PIN in force is the PIN that was confirmed**, in every state that a run reaches,
exactly if no digit and no back click is taken while the editor of an assigned PIN fades out. -/
theorem pinKept_iff (img : Image) (mmcErr : Nat) (turns : List Turn) :
    (∀ before, before <+: turns → PinKept (.after img mmcErr before)) ↔
      Guarded Device.turn (fun d t => ¬ t.Is d.fw.EditsPin) (.factory img mmcErr) turns := by
  have hkept : ∀ {ts}, Guarded Device.turn (fun d t => ¬ t.Is d.fw.EditsPin) (.factory img mmcErr) ts →
      PinRecorded (.after img mmcErr ts) := fun hg =>
    hg.invariant (fun d t h (hi : PinRecorded d) => hi.turn h) (pinRecorded_factory img mmcErr)
  constructor
  · intro h
    induction turns using List.reverseRecOn with
    | nil => trivial
    | append_singleton ts t ih =>
      have hg := ih fun before hb => h before (hb.trans (List.prefix_append ts [t]))
      refine Guarded.snoc.2 ⟨hg, fun he => (hkept hg).edited he ?_⟩
      have hlast := h (ts ++ [t]) (List.prefix_refl _)
      rwa [Device.after, run_snoc] at hlast
  · rintro hg before ⟨rest, rfl⟩
    exact (hkept (Guarded.append.1 hg).1).pinKept

/-- The PIN `1` is assigned, and a `2` typed while the view fades out. -/
def lateDigit : List Turn := inputs (calibrate ++ tapPassOk ++ ticks 10 ++ tapOne ++ tapOk ++ tapTwo)

/-- **Another PIN comes into force**: `12`, with `1` in NVRAM. -/
theorem pin_edited_late :
    (Device.after blankFlash 0 lateDigit).fw.pinSet = true ∧
      (Device.after blankFlash 0 lateDigit).fw.storedPin = [49, 50] ∧
      ¬ PinKept (.after blankFlash 0 lateDigit) := by
  have hset : (Device.after blankFlash 0 lateDigit).fw.pinSet = true := by decide +kernel
  have hpin : (Device.after blankFlash 0 lateDigit).fw.storedPin = [49, 50] := by decide +kernel
  have hlast : (((Device.after blankFlash 0 lateDigit).stored.filter fun w => w.image.pinSet).getLast?.map
      fun w => cstr w.image.pin) = some [49] := by decide +kernel
  refine ⟨hset, hpin, fun h => ?_⟩
  obtain ⟨⟨w, hw, heq⟩, -⟩ := h hset
  rw [hw, Option.map_some, heq] at hlast
  exact absurd (hpin.symm.trans (Option.some.inj hlast)) (by decide)

/-! ## The passphrase that is stored -/

/-- The latest call of `decrypt_file` and its result. -/
def lastDecrypt (log : List Event) : Option (List UInt8 × Bool) :=
  (log.filterMap fun e => match e with
    | .decrypt p ok => some (p, ok)
    | _ => none).getLast?

/-- A click that the passphrase editor takes once the passphrase has decrypted the file. -/
def Fw.EditsPassphrase (fw : Fw) (i : Input) : Prop :=
  fw.decryptOk = true ∧ ∃ c, clicked fw i = some (.pass c) ∧ fw.ui.passEdit.takes c = true

instance Fw.decidableEditsPassphrase (fw : Fw) (i : Input) : Decidable (fw.EditsPassphrase i) :=
  decidable_of_iff (fw.decryptOk = true ∧ ∃ c ∈ [PassCtl.up, .down, .back, .fwd, .ok],
      clicked fw i = some (.pass c) ∧ fw.ui.passEdit.takes c = true)
    (and_congr_right' ⟨fun ⟨c, _, h⟩ => ⟨c, h⟩, fun ⟨c, h⟩ => ⟨c, by cases c <;> decide, h⟩⟩)

theorem lastDecrypt_snoc (log : List Event) (p : List UInt8) (ok : Bool) :
    lastDecrypt (log ++ [.decrypt p ok]) = some (p, ok) := by
  simp [lastDecrypt]

theorem lastDecrypt_other {log : List Event} {e : Event} (h : ∀ p ok, e ≠ .decrypt p ok) :
    lastDecrypt (log ++ [e]) = lastDecrypt log := by
  cases e <;> first | exact absurd rfl (h _ _) | simp [lastDecrypt]

/-- The passphrase of `g_state` is the one that was tried last, with success; and a PIN is
asked for only then. -/
structure Tried (fw : Fw) : Prop where
  decrypted : fw.decryptOk = true → fw.passphraseSet = true →
    lastDecrypt fw.log = some (cstr fw.ui.mem.passphrase, true)
  asked : fw.ui.currentView = .pin → fw.passphraseSet = true → fw.decryptAttempted = true ∧ fw.decryptOk = true
  caption : fw.ui.pinCaption ≠ some .passphrase

/-- Same view, same passphrase, same outcome of the last decryption. -/
theorem Tried.mono (hi : Tried fw) (hview : fw'.ui.currentView = fw.ui.currentView)
    (hmem : fw'.ui.mem.passphrase = fw.ui.mem.passphrase) (hcap : fw'.ui.pinCaption = fw.ui.pinCaption)
    (hlog : lastDecrypt fw'.log = lastDecrypt fw.log) (hdec : fw'.decryptOk = fw.decryptOk)
    (hset : fw'.passphraseSet = true → fw.passphraseSet = true)
    (hatt : fw.decryptAttempted = true → fw'.decryptAttempted = true) : Tried fw' := by
  refine ⟨?_, ?_, hcap ▸ hi.caption⟩
  · rw [hmem, hlog, hdec]
    exact fun hd hp => hi.decrypted hd (hset hp)
  · rw [hview, hdec]
    exact fun hv hp => (hi.asked hv (hset hp)).imp_left hatt

theorem Tried.screen (hi : Tried fw) {u : Screen} (hs : SameEditors fw.ui u) : Tried { fw with ui := u } :=
  hi.mono hs.view (congrArg Memory.passphrase hs.mem) hs.pinCaption rfl rfl id id

theorem Tried.start (hi : Tried fw) (c : Command) : Tried (fw.start c) := hi.screen (lcdStartCommand_same fw.ui c)

theorem Tried.emit (hi : Tried fw) {e : Event} (h : ∀ p ok, e ≠ .decrypt p ok) : Tried (fw.emit e) :=
  hi.mono rfl rfl rfl (lastDecrypt_other h) rfl id id

/-- Another view is shown. -/
theorem tried_show (v : View) (c : Command) (hn : v ≠ .none)
    (hdec : fw.decryptOk = true → fw.passphraseSet = true →
      lastDecrypt fw.log = some (cstr fw.ui.mem.passphrase, true))
    (hask : v = .pin → fw.passphraseSet = true → fw.decryptAttempted = true ∧ fw.decryptOk = true)
    (hcap : fw.ui.pinCaption ≠ some .passphrase) : Tried (fw.show v c) := by
  have hs := lcdStartCommand_same (lcdSetView fw.ui v) c
  have hview : lcdSetView fw.ui v = { fw.ui with currentView := v } := if_neg hn
  rw [hview] at hs
  refine ⟨?_, ?_, ?_⟩
  · rw [Fw.show, hview, hs.mem]
    exact hdec
  · rw [show_view hn c]
    exact hask
  · rw [Fw.show, hview, hs.pinCaption]
    exact hcap

theorem Tried.show (hi : Tried fw) (v : View) (c : Command) (hn : v ≠ .none) (hv : v ≠ .pin) : Tried (fw.show v c) :=
  tried_show v c hn hi.decrypted (fun h => absurd h hv) hi.caption

theorem Tried.decrypt (hi : Tried fw) (hp : fw.passphraseSet = true) (ha : fw.decryptAttempted = false) (card : Card) :
    Tried (setDecryptOk card fw) := by
  have hv : fw.ui.currentView ≠ .pin := fun hv => absurd (ha.symm.trans (hi.asked hv hp).1) (by decide)
  obtain ⟨plain, h⟩ | h := setDecryptOk_cases card fw <;> rw [h]
  · exact ⟨fun _ _ => lastDecrypt_snoc _ _ _, fun h => absurd h hv, hi.caption⟩
  · exact ⟨of_cleared, fun h => absurd h hv, hi.caption⟩

theorem Tried.passphraseOk (hi : Tried fw) (hv : fw.ui.currentView = .pass) (card : Card) :
    Tried (lcdPassphraseOk card fw) := by
  obtain ⟨u, hs, ⟨plain, h⟩ | h⟩ := lcdPassphraseOk_cases card fw <;> rw [h]
  · refine ⟨fun _ _ => ?_, fun h => ?_, hs.pinCaption ▸ hi.caption⟩
    · refine (lastDecrypt_other fun _ _ h => by cases h).trans ?_
      rw [lastDecrypt_snoc, hs.mem]
    · cases hv.symm.trans (hs.view.symm.trans h)
  · refine ⟨of_cleared, fun h => ?_, hs.pinCaption ▸ hi.caption⟩
    cases hv.symm.trans (hs.view.symm.trans h)

theorem Tried.promptPassphrase (hi : Tried fw) : Tried (promptPassphrase fw) :=
  tried_show .pass .fadeIn (by decide) (fun _ h => by cases h) nofun hi.caption

theorem Tried.insertSd (hi : Tried fw) : Tried (showInsertSd fw) :=
  tried_show .title .fadeIn (by decide) of_cleared nofun hi.caption

theorem Tried.assignPin (hi : Tried fw) (hd : fw.decryptOk = true) (ha : fw.decryptAttempted = true) :
    Tried (assignPin fw) :=
  tried_show .pin .fadeIn (by decide) hi.decrypted (fun _ _ => ⟨ha, hd⟩) nofun

theorem Tried.enterPin (hi : Tried fw) (hd : fw.decryptOk = true) (ha : fw.decryptAttempted = true) :
    Tried (enterPin fw) := by
  refine tried_show .pin .fadeIn (by decide) ?_ (fun _ _ => ⟨ha, hd⟩) nofun
  intro hd hp
  exact (lastDecrypt_other fun _ _ h => by cases h).trans (hi.decrypted hd hp)

theorem Tried.pinClick (hi : Tried fw) (c : PinCtl) :
    Tried { fw with ui := fw.ui.withPin fw.ui.pinCaption (fw.ui.pinEdit.click c) } :=
  hi.mono rfl (withPin_passphrase hi.caption _) rfl rfl rfl id id

theorem Tried.passClick (hi : Tried fw) (hv : fw.ui.currentView = .pass) (c : PassCtl)
    (hidle : fw.decryptOk = true → fw.ui.passEdit.takes c = false) :
    Tried { fw.emit (.passClick c) with ui := fw.ui.withPass fw.ui.passCaption (fw.ui.passEdit.click c) } := by
  cases hd : fw.decryptOk with
  | true =>
    rw [PassEdit.click_idle (hidle hd), withPass_self]
    exact hi.emit nofun
  | false =>
    refine ⟨fun h => absurd (hd.symm.trans h) (by decide), fun h => ?_, hi.caption⟩
    cases hv.symm.trans h

theorem Tried.pinOk (hi : Tried fw) : Tried (lcdPinOk fw) := by
  have hv := lcdPinOk_view fw
  have hlog : lastDecrypt (lcdPinOk fw).log = lastDecrypt fw.log := by
    rw [lcdPinOk_log]
    exact lastDecrypt_other nofun
  obtain ⟨_, rfl, ⟨-, h⟩ | ⟨-, -, h⟩ | ⟨-, -, -, u, hs, h⟩ | ⟨-, -, -, h⟩⟩ := lcdPinOk_cases fw <;>
    rw [h] at hv hlog ⊢
  · refine hi.mono hv ?_ ?_ hlog rfl id id
    · exact (congrArg Memory.passphrase (lcdStartCommand_same _ _).mem).trans rfl
    · exact (lcdStartCommand_same _ _).pinCaption
  · refine hi.mono hv ?_ ?_ hlog rfl id id
    · exact congrArg Memory.passphrase (lcdStartCommand_same _ _).mem
    · exact (lcdStartCommand_same _ _).pinCaption
  · exact hi.mono hv (congrArg Memory.passphrase hs.mem) hs.pinCaption hlog rfl id id
  · refine ⟨of_cleared, fun _ h => of_cleared h, ?_⟩
    exact fun h => hi.caption ((lcdStartCommand_same _ _).pinCaption.symm.trans h)

/-- Moves without a click of the passphrase editor. -/
theorem Tried.move (hK : ∀ c, K (.pass c) → c = .ok) (h : Move K fw fw') (hi : Tried fw) : Tried fw' := by
  cases h with
  | screen hs => exact hi.screen hs
  | view hv => rcases hv with rfl | ⟨rfl, -⟩ <;> exact hi.show _ _ (by decide) (by decide)
  | minor _ _ _ _ _ _ hatt => exact hi.mono rfl rfl rfl rfl rfl id hatt
  | writeState => exact hi.mono rfl rfl rfl rfl rfl id id
  | insertSd => exact hi.insertSd
  | decrypt card _ hp ha => exact hi.decrypt hp ha card
  | promptPassphrase => exact hi.promptPassphrase
  | assignPin _ hd _ _ ha => exact hi.assignPin hd ha
  | enterPin _ hd _ _ ha => exact hi.enterPin hd ha
  | showKeys =>
    have hk : Tried ({ fw with fileFormatValid := true }.emit
        (.keyView fw.decryptOk fw.pinSet fw.typedPin fw.storedPin)) :=
      hi.mono rfl rfl rfl (lastDecrypt_other fun _ _ h => by cases h) rfl id id
    exact hk.show .key .fadeIn (by decide) (by decide)
  | passClick c hk hv =>
    obtain rfl := hK c hk
    exact hi.passClick hv .ok fun _ => rfl
  | pinClick c => exact hi.pinClick c
  | passphraseOk card _ hv => exact hi.passphraseOk hv card
  | pinOk => exact hi.pinOk
  | longPress => exact hi.emit fun _ _ h => by cases h
  | faded => exact hi.mono rfl rfl rfl rfl rfl id id

theorem Tried.card (hi : Tried fw) (err : Nat) : Tried (observeCard err fw) :=
  hi.mono rfl rfl rfl (lastDecrypt_other fun _ _ h => by cases h) rfl id id

theorem Tried.step (hi : Tried fw) (hg : ¬ fw.EditsPassphrase i) : Tried (fw.step i) := by
  by_cases hk : ∃ c, clicked fw i = some (.pass c) ∧ c ≠ .ok
  · obtain ⟨c, hc, hok⟩ := hk
    obtain ⟨u, hs, h⟩ := step_passClick hc hok
    rw [h]
    refine (hi.screen hs).passClick (hs.view.trans (clicked_view hc)) c fun hd => ?_
    by_contra ht
    refine hg ⟨hd, c, hc, ?_⟩
    rw [← hs.passEdit]
    simpa using ht
  · refine step_invariant (fun _ _ hm h => h.move (fun c hc => ?_) hm) (fun _ err h => h.card err) hi
    by_contra hok
    exact hk ⟨c, hc, hok⟩

theorem tried_boot (img : Image) (valid : Bool) (mmcErr : Nat) : Tried (boot img valid mmcErr) :=
  ⟨of_cleared, nofun, nofun⟩

/-- What is stored with both flags set was tried. -/
theorem Tried.stored {s : Saver} (hi : Tried fw) (hc : CalibratedFirst fw) (hs : fw.saves i = some s)
    (hp : (fw.imageFor s).passphraseSet = true) (hset : (fw.imageFor s).pinSet = true) :
    lastDecrypt fw.log = some (cstr (fw.imageFor s).passphrase, true) := by
  rcases saves_cases hs with ⟨rfl, hv⟩ | ⟨hk, ⟨rfl, -⟩ | ⟨rfl, -⟩⟩
  · exact absurd ((hc.bare (.inr hv)).symm.trans hp) (by decide)
  · exact hi.decrypted (hi.asked (clicked_view hk) hp).2 hp
  · cases hp

/-- **Only a working passphrase is stored**, in every run in which the passphrase editor
takes no click between a successful decryption and the PIN view: what is stored with both
flags set holds the passphrase of the latest `decrypt_file`, which succeeded. -/
theorem stored_decrypts (img : Image) (mmcErr : Nat) (turns : List Turn)
    (hg : Guarded Device.turn (fun d t => ¬ t.Is d.fw.EditsPassphrase) (.factory img mmcErr) turns) :
    ∀ w ∈ (Device.after img mmcErr turns).stored, w.image.passphraseSet = true → w.image.pinSet = true →
      lastDecrypt w.log = some (cstr w.image.passphrase, true) := by
  refine (Device.stored_run turns).2 ⟨nofun, ?_⟩
  refine hg.imp (fun d t hg (hi : Safe d ∧ Tried d.fw) => ⟨hi.1.turn t, ?_⟩) ?_
    ⟨safe_factory img mmcErr, tried_boot img false mmcErr⟩
  · cases t with
    | power => exact tried_boot _ _ _
    | input i =>
      have hfw := hi.2.step hg
      rcases d.input_cases i with ⟨-, h, -⟩ | ⟨s, -, h, -⟩ <;> rw [h] <;> exact hfw
  · rintro d t - ⟨hsafe, htried⟩ w ⟨i, s, -, hs, rfl⟩ hp hset
    exact htried.stored hsafe.fw hs hp hset

theorem stored_decrypts_sample :
    ∃ w ∈ (Device.after blankFlash 0 firstUse).stored, w.image.passphraseSet = true ∧ w.image.pinSet = true ∧
      lastDecrypt w.log = some (cstr w.image.passphrase, true) := by
  have h : (Device.after blankFlash 0 firstUse).stored.any
      (fun w => w.image.passphraseSet ∧ w.image.pinSet) = true := by decide +kernel
  obtain ⟨w, hw, hflags⟩ := List.any_eq_true.1 h
  obtain ⟨hp, hset⟩ := of_decide_eq_true hflags
  exact ⟨w, hw, hp, hset, stored_decrypts blankFlash 0 firstUse (by decide +kernel) w hw hp hset⟩

/-- The passphrase `A` opens the file and is made a `B` while the view fades out; a PIN is
assigned. -/
def lateEdit : List Turn := inputs (calibrate ++ tapPassOk ++ tapPassUp ++ ticks 10 ++ tapOne ++ tapOk)

/-- **Another passphrase is stored**: `B`, with `A` the one that was tried. -/
theorem passphrase_edited_late :
    ((Device.after blankFlash 0 lateEdit).stored.getLast?.map fun w =>
      (w.image.passphraseSet, w.image.pinSet, cstr w.image.passphrase, lastDecrypt w.log)) =
        some (true, true, [66], some ([65], true)) ∧
      ¬ ∀ w ∈ (Device.after blankFlash 0 lateEdit).stored, w.image.passphraseSet = true → w.image.pinSet = true →
        lastDecrypt w.log = some (cstr w.image.passphrase, true) := by
  have hlast : ((Device.after blankFlash 0 lateEdit).stored.getLast?.map fun w =>
      (w.image.passphraseSet, w.image.pinSet, cstr w.image.passphrase, lastDecrypt w.log)) =
        some (true, true, [66], some ([65], true)) := by decide +kernel
  refine ⟨hlast, fun h => ?_⟩
  obtain ⟨w, hw, heq⟩ := Option.map_eq_some_iff.1 hlast
  obtain ⟨hp, hset, hpass, hdec⟩ : w.image.passphraseSet = true ∧ w.image.pinSet = true ∧
      cstr w.image.passphrase = [66] ∧ lastDecrypt w.log = some ([65], true) := by simpa using heq
  have htried := h w (List.mem_of_getLast? hw) hp hset
  rw [hdec, hpass] at htried
  exact absurd htried (by decide)

end Keynjector.Firmware
