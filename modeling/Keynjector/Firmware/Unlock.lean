import Keynjector.Firmware.Moves
/-
# Unlock safety (main.c:256-356, 471-522, 610-618)

| here | there |
| --- | --- |
| `replay`   | the passphrase editor, rebuilt from the wipes and the clicks of the session |
| `Matched`  | `lcd_pin_ok` saw the PIN of the power-on image while `pin_set` was 1 |
| `Opened`   | `decrypt_file` succeeded on a passphrase typed in this session |
| `Booted`   | the PIN in force is still the one of the power-on image |
| `UnlockInv` | how the flags, both credential arrays and the session hang together |

The passphrase of the image can decrypt the file, so `decrypt_ok` alone opens nothing: as
long as nothing was typed, the PIN of the image is in force and has to be matched.
-/

namespace Keynjector.Firmware

open Ui Runs

/-- What a wipe or a click makes of the editor; `none` before the first wipe. -/
def replayStep (e : Option PassEdit) : Event → Option PassEdit
  | .wipe => some (.fresh passphraseBufsize)
  | .passClick c => e.map fun e => e.click c
  | _ => e

def replay (log : List Event) : Option PassEdit := run replayStep none log

def Matched (pin : List UInt8) (log : List Event) : Prop := Once (fun _ e => ∃ stored, e = .pinOk true pin stored) log

def Opened (log : List Event) : Prop :=
  Once (fun pre e => ∃ p edit, e = .decrypt p true ∧ replay pre = some edit ∧ cstr edit.s = p) log

def Unlocked (pin : List UInt8) (log : List Event) : Prop := Matched pin log ∨ Opened log

/-- At each selection of the key view: `decrypt_ok` and `pin_set` are 1, the PINs are
equal, and the session had been unlocked. -/
def KeysGuarded (pin : List UInt8) (log : List Event) : Prop :=
  AtEach (fun pre e => ∀ decryptOk pinSet typed stored, e = .keyView decryptOk pinSet typed stored →
    decryptOk = true ∧ pinSet = true ∧ typed = stored ∧ Unlocked pin pre) log

def Booted (pin : List UInt8) (fw : Fw) : Prop :=
  fw.pinSet = true ∧ fw.storedPin = pin ∧ fw.ui.pinCaption ≠ some .gPin

structure UnlockInv (pin : List UInt8) (fw : Fw) : Prop where
  caption : fw.ui.pinCaption ≠ some .passphrase
  replayed : ∀ edit, replay fw.log = some edit → fw.ui.passCaption = some .passphrase ∧ fw.ui.passEdit = edit
  wiped : fw.ui.currentView = .pass → replay fw.log ≠ none
  entered : fw.decryptOk = true → fw.pinEntered = true → Unlocked pin fw.log
  opened : fw.decryptOk = true → Opened fw.log ∨ Booted pin fw
  stored : fw.passphraseSet = true → replay fw.log = none →
    Booted pin fw ∧ (fw.pinEntered = true → Matched pin fw.log)
  guarded : KeysGuarded pin fw.log

variable {pin : List UInt8} {fw : Fw} {log : List Event} {e : Event}

/-! ## The log -/

theorem replay_snoc : replay (log ++ [e]) = replayStep (replay log) e := run_snoc log e

theorem Unlocked.snoc (h : Unlocked pin log) : Unlocked pin (log ++ [e]) := h.imp Once.snoc Once.snoc

theorem KeysGuarded.snoc (h : KeysGuarded pin log) (he : ∀ d p t s, e ≠ .keyView d p t s) :
    KeysGuarded pin (log ++ [e]) :=
  AtEach.snoc.2 ⟨h, fun d p t s hk => absurd hk (he d p t s)⟩

/-- An event that is neither a wipe, a click nor a selection of the key view. -/
def Event.quiet : Event → Bool
  | .wipe | .passClick _ | .keyView .. => false
  | _ => true

theorem replay_quiet (h : e.quiet = true) : replay (log ++ [e]) = replay log := by
  rw [replay_snoc]
  cases e <;> first | rfl | cases h

theorem KeysGuarded.quiet (hk : KeysGuarded pin log) (h : e.quiet = true) : KeysGuarded pin (log ++ [e]) :=
  hk.snoc fun _ _ _ _ he => by rw [he] at h; cases h

theorem UnlockInv.emit (hi : UnlockInv pin fw) (hr : replay (fw.log ++ [e]) = replay fw.log)
    (hk : KeysGuarded pin (fw.log ++ [e])) : UnlockInv pin (fw.emit e) := by
  constructor
  · exact hi.caption
  · intro edit h
    exact hi.replayed edit (hr ▸ h)
  · intro hv
    exact hr ▸ hi.wiped hv
  · intro hd he
    exact (hi.entered hd he).snoc
  · intro hd
    exact (hi.opened hd).imp_left Once.snoc
  · intro hp h
    obtain ⟨hb, hm⟩ := hi.stored hp (hr ▸ h)
    exact ⟨hb, fun he => (hm he).snoc⟩
  · exact hk

theorem UnlockInv.emit_quiet (hi : UnlockInv pin fw) (h : e.quiet = true) : UnlockInv pin (fw.emit e) :=
  hi.emit (replay_quiet h) (hi.guarded.quiet h)

/-- Flags may be cleared, all but `pin_set`. -/
theorem UnlockInv.mono (hi : UnlockInv pin fw) {fw' : Fw} (hui : fw'.ui = fw.ui) (hlog : fw'.log = fw.log)
    (hpin : fw'.pinSet = fw.pinSet) (hpass : fw'.passphraseSet = true → fw.passphraseSet = true)
    (hdec : fw'.decryptOk = true → fw.decryptOk = true) (hent : fw'.pinEntered = true → fw.pinEntered = true) :
    UnlockInv pin fw' := by
  have hb : Booted pin fw → Booted pin fw' := by
    intro h
    rwa [Booted, Fw.storedPin, hui, hpin]
  constructor
  · rw [hui]
    exact hi.caption
  · rw [hui, hlog]
    exact hi.replayed
  · rw [hui, hlog]
    exact hi.wiped
  · rw [hlog]
    intro hd he
    exact hi.entered (hdec hd) (hent he)
  · rw [hlog]
    intro hd
    exact (hi.opened (hdec hd)).imp_right hb
  · rw [hlog]
    intro hp hr
    obtain ⟨hbooted, hm⟩ := hi.stored (hpass hp) hr
    exact ⟨hb hbooted, fun he => hm (hent he)⟩
  · rw [hlog]
    exact hi.guarded

/-! ## The screen -/

theorem UnlockInv.screen (hi : UnlockInv pin fw) {u : Screen} (hs : SameEditors fw.ui u) :
    UnlockInv pin { fw with ui := u } := by
  have hb : Booted pin fw → Booted pin { fw with ui := u } := by
    rintro ⟨hp, hst, hc⟩
    refine ⟨hp, ?_, ?_⟩
    · rw [← hst, Fw.storedPin, Fw.storedPin, hs.mem]
    · rwa [hs.pinCaption]
  constructor
  · rw [hs.pinCaption]
    exact hi.caption
  · rw [hs.passCaption, hs.passEdit]
    exact hi.replayed
  · rw [hs.view]
    exact hi.wiped
  · exact hi.entered
  · intro hd
    exact (hi.opened hd).imp_right hb
  · intro hp hr
    exact (hi.stored hp hr).imp_left hb
  · exact hi.guarded

theorem UnlockInv.show (hi : UnlockInv pin fw) {v : View} (hv : v ≠ .pass ∨ replay fw.log ≠ none) (c : Command) :
    UnlockInv pin (fw.show v c) := by
  have hview : UnlockInv pin
      { fw with ui := lcdSetView fw.ui v, overtaken := fw.overtaken ++ fw.ui.currentCommand.toList } := by
    unfold lcdSetView
    split_ifs
    · exact hi.mono rfl rfl rfl id id id
    · have hwiped : v = .pass → replay fw.log ≠ none := fun h => hv.resolve_left fun hne => hne h
      exact ⟨hi.caption, hi.replayed, hwiped, hi.entered, hi.opened, hi.stored, hi.guarded⟩
  exact hview.screen (lcdStartCommand_same _ c)

theorem UnlockInv.start (hi : UnlockInv pin fw) (c : Command) : UnlockInv pin (fw.start c) :=
  hi.screen (lcdStartCommand_same fw.ui c)

theorem UnlockInv.showTitle (hi : UnlockInv pin fw) (msg : String) : UnlockInv pin (showTitle msg fw) :=
  (hi.screen (SameEditors.titleMsg fw.ui msg)).show (.inl (by decide)) _

/-! ## The editors -/

theorem withPass_passEdit (u : Screen) (b : Buf) (edit : PassEdit) : (u.withPass (some b) edit).passEdit = edit := by
  cases b <;> rfl

theorem withPin_passEdit {u : Screen} {b : Option Buf} (hb : b ≠ some .passphrase)
    (hp : u.passCaption = some .passphrase) (edit : PinEdit) : (u.withPin b edit).passEdit = u.passEdit := by
  rcases b with _ | _ | _ | _
  · rfl
  · exact absurd rfl hb
  all_goals simp [Screen.withPin, Screen.passEdit, Memory.write, Memory.set, Memory.read, Memory.get, hp]

theorem withPin_gPin {u : Screen} {b : Option Buf} (hb : b ≠ some .gPin) (edit : PinEdit) :
    (u.withPin b edit).mem.gPin = u.mem.gPin := by
  rcases b with _ | _ | _ | _
  · rfl
  · rfl
  · exact absurd rfl hb
  · rfl

/-- The PIN editor writes neither the passphrase nor, while it counts, the PIN of the image. -/
theorem UnlockInv.withPin (hi : UnlockInv pin fw) {b : Option Buf} (hb : b ≠ some .passphrase)
    (hg : Booted pin fw → b ≠ some .gPin) (edit : PinEdit) : UnlockInv pin { fw with ui := fw.ui.withPin b edit } := by
  have hbooted : Booted pin fw → Booted pin { fw with ui := fw.ui.withPin b edit } := by
    intro h
    refine ⟨h.1, ?_, hg h⟩
    rw [← h.2.1, Fw.storedPin, withPin_gPin (hg h), Fw.storedPin]
  constructor
  · exact hb
  · intro e he
    obtain ⟨hc, hp⟩ := hi.replayed e he
    exact ⟨hc, (withPin_passEdit hb hc edit).trans hp⟩
  · exact hi.wiped
  · exact hi.entered
  · intro hd
    exact (hi.opened hd).imp_right hbooted
  · intro hp hr
    exact (hi.stored hp hr).imp_left hbooted
  · exact hi.guarded

theorem UnlockInv.passClick (hi : UnlockInv pin fw) (hv : fw.ui.currentView = .pass) (c : PassCtl) :
    UnlockInv pin { fw.emit (.passClick c) with ui := fw.ui.withPass fw.ui.passCaption (fw.ui.passEdit.click c) } := by
  obtain ⟨edit, hr⟩ := Option.ne_none_iff_exists'.1 (hi.wiped hv)
  obtain ⟨hc, hp⟩ := hi.replayed edit hr
  have hreplay : replay (fw.log ++ [.passClick c]) = some (edit.click c) := by
    rw [replay_snoc, hr]
    rfl
  rw [hc, hp]
  constructor
  · exact hi.caption
  · intro e he
    rw [Fw.emit, hreplay] at he
    obtain rfl := Option.some.inj he
    exact ⟨rfl, withPass_passEdit _ _ _⟩
  · intro _ h
    rw [Fw.emit, hreplay] at h
    cases h
  · intro hd he
    exact (hi.entered hd he).snoc
  · intro hd
    exact (hi.opened hd).imp Once.snoc id
  · intro _ h
    rw [Fw.emit, hreplay] at h
    cases h
  · exact hi.guarded.snoc fun _ _ _ _ h => by cases h

/-! ## Decryption -/

/-- A success opens the session, or finds the image's passphrase with its PIN in force. -/
theorem UnlockInv.decrypt (hi : UnlockInv pin fw) (hp : fw.passphraseSet = true) (card : Card) :
    UnlockInv pin (setDecryptOk card fw) := by
  have he := fun ok => hi.emit_quiet (e := .decrypt (cstr fw.ui.mem.passphrase) ok) rfl
  rcases setDecryptOk_cases card fw with ⟨plain, h⟩ | h <;> rw [h]
  · have h' := he true
    have key : Opened (fw.log ++ [.decrypt (cstr fw.ui.mem.passphrase) true]) ∨
        Booted pin fw ∧ (fw.pinEntered = true → Matched pin fw.log) := by
      cases hr : replay fw.log with
      | none => exact .inr (hi.stored hp hr)
      | some edit =>
        obtain ⟨hc, hs⟩ := hi.replayed edit hr
        refine .inl (Once.last ⟨_, edit, rfl, hr, ?_⟩)
        rw [← hs, Screen.passEdit, hc]
        rfl
    refine ⟨h'.caption, h'.replayed, h'.wiped, ?_, ?_, h'.stored, h'.guarded⟩
    · intro _ hent
      exact key.elim .inr fun h => .inl (h.2 hent).snoc
    · intro _
      exact key.imp_right And.left
  · have h' := he false
    exact ⟨h'.caption, h'.replayed, h'.wiped, of_cleared, of_cleared, h'.stored, h'.guarded⟩

theorem UnlockInv.passphraseOk (hi : UnlockInv pin fw) (hv : fw.ui.currentView = .pass) (card : Card) :
    UnlockInv pin (lcdPassphraseOk card fw) := by
  have hset : UnlockInv pin { fw with passphraseSet := true } :=
    ⟨hi.caption, hi.replayed, hi.wiped, hi.entered, hi.opened, fun _ hr => absurd hr (hi.wiped hv), hi.guarded⟩
  have hd := hset.decrypt rfl card
  simp only [lcdPassphraseOk]
  generalize setDecryptOk card { fw with passphraseSet := true } = fw at hd
  have ha : UnlockInv pin { fw with decryptAttempted := true } := hd.mono rfl rfl rfl id id id
  have ha := ha.emit_quiet (e := .passphraseOk fw.decryptOk) rfl
  split_ifs
  · exact ha.start _
  · exact ha.screen ⟨rfl, rfl, rfl, rfl, rfl, rfl⟩

/-! ## The prompts -/

theorem UnlockInv.insertSd (hi : UnlockInv pin fw) : UnlockInv pin (showInsertSd fw) := by
  have hf : UnlockInv pin (forgetEntered fw) := hi.mono rfl rfl rfl id of_cleared of_cleared
  exact hf.showTitle _

theorem UnlockInv.promptPassphrase (hi : UnlockInv pin fw) (hd : fw.decryptOk = false) :
    UnlockInv pin (promptPassphrase fw) := by
  have hreplay : replay (wipePassphrase fw).log = some (.fresh passphraseBufsize) := replay_snoc
  have hw : UnlockInv pin (wipePassphrase fw) := by
    constructor
    · exact hi.caption
    · intro edit h
      obtain rfl := Option.some.inj (hreplay.symm.trans h)
      exact ⟨rfl, rfl⟩
    · intro _ h
      cases hreplay.symm.trans h
    · intro h
      exact absurd (hd.symm.trans h) (by decide)
    · intro h
      exact absurd (hd.symm.trans h) (by decide)
    · exact fun h => by cases h
    · exact hi.guarded.snoc fun _ _ _ _ h => by cases h
  have hmsg := hw.screen (SameEditors.passphraseMsg (wipePassphrase fw).ui "Enter passphrase to unlock")
  exact hmsg.show (.inr fun h => by cases hreplay.symm.trans h) _

theorem UnlockInv.askPin (hi : UnlockInv pin fw) (msg : String) {b : Buf} (hb : b ≠ .passphrase)
    (hg : Booted pin fw → b ≠ .gPin) : UnlockInv pin (askPin msg b fw) := by
  have hmsg := hi.screen (SameEditors.pinMsg fw.ui msg)
  have hbuf := hmsg.withPin (b := some b) (by simpa using hb) (fun h => by simpa using hg h) (.fresh pinBufsize)
  exact hbuf.mono rfl rfl rfl id id of_cleared

theorem UnlockInv.assignPin (hi : UnlockInv pin fw) (hp : fw.pinSet = false) : UnlockInv pin (assignPin fw) := by
  have hb : ¬ Booted pin fw := fun h => absurd (hp.symm.trans h.1) (by decide)
  have ha := hi.askPin "Assign PIN" (b := .gPin) (by decide) fun h => absurd h hb
  have hok : UnlockInv pin { Firmware.askPin "Assign PIN" .gPin fw with pinOk := false } := ha.mono rfl rfl rfl id id id
  exact hok.show (.inl (by decide)) _

theorem UnlockInv.enterPin (hi : UnlockInv pin fw) : UnlockInv pin (enterPin fw) := by
  have ha := hi.askPin "Enter PIN" (b := .pin) (by decide) fun _ => by decide
  have hcount : UnlockInv pin { Firmware.askPin "Enter PIN" .pin fw with pinAttempts := 3 } :=
    ha.mono rfl rfl rfl id id id
  exact (hcount.emit_quiet (e := .enterPin) rfl).show (.inl (by decide)) _

/-- `VIEW_KEY` is selected with everything in order. -/
theorem UnlockInv.showKeys (hi : UnlockInv pin fw) (hd : fw.decryptOk = true) (hp : fw.pinSet = true)
    (he : fw.pinEntered = true) (heq : fw.storedPin = fw.typedPin) : UnlockInv pin (showKeys fw) := by
  have hvalid : UnlockInv pin { fw with fileFormatValid := true } := hi.mono rfl rfl rfl id id id
  have hk : KeysGuarded pin (fw.log ++ [.keyView fw.decryptOk fw.pinSet fw.typedPin fw.storedPin]) := by
    refine AtEach.snoc.2 ⟨hi.guarded, fun d p t s h => ?_⟩
    obtain ⟨rfl, rfl, rfl, rfl⟩ := Event.keyView.inj h
    exact ⟨hd, hp, heq.symm, hi.entered hd he⟩
  exact (hvalid.emit replay_snoc hk).show (.inl (by decide)) _

/-! ## The PIN -/

/-- A first PIN is accepted only once a typed passphrase has opened the session. -/
theorem UnlockInv.acceptNewPin (hi : UnlockInv pin fw) (hp : fw.pinSet = false) : UnlockInv pin (acceptNewPin fw) := by
  have hb : ¬ Booted pin fw := fun h => absurd (hp.symm.trans h.1) (by decide)
  have hopen : fw.decryptOk = true → Opened fw.log := fun hd => (hi.opened hd).resolve_right hb
  refine UnlockInv.screen ?_ (lcdStartCommand_same _ _)
  constructor
  · exact hi.caption
  · intro edit h
    obtain ⟨hc, hs⟩ := hi.replayed edit h
    refine ⟨hc, ?_⟩
    rw [← hs, Screen.passEdit, Screen.passEdit, writeState, hc]
    rfl
  · exact hi.wiped
  · intro hd _
    exact .inr (hopen hd)
  · intro hd
    exact .inl (hopen hd)
  · intro hs hr
    exact absurd (hi.stored hs hr).1 hb
  · exact hi.guarded

/-- The PIN that is matched is the image's, or the session is open already. -/
theorem UnlockInv.acceptPin (hi : UnlockInv pin fw) (hm : Booted pin fw → Matched pin fw.log) :
    UnlockInv pin (acceptPin fw) := by
  refine UnlockInv.screen ?_ (lcdStartCommand_same _ _)
  refine ⟨hi.caption, hi.replayed, hi.wiped, ?_, hi.opened, ?_, hi.guarded⟩
  · intro hd _
    exact (hi.opened hd).elim .inr fun hb => .inl (hm hb)
  · intro hp hr
    obtain ⟨hb, -⟩ := hi.stored hp hr
    exact ⟨hb, fun _ => hm hb⟩

theorem UnlockInv.lockOut (hi : UnlockInv pin fw) : UnlockInv pin (lockOut fw) := by
  refine UnlockInv.screen ?_ (lcdStartCommand_same _ _)
  exact ⟨hi.caption, hi.replayed, hi.wiped, of_cleared, of_cleared, of_cleared, hi.guarded⟩

theorem UnlockInv.wrongPin (hi : UnlockInv pin fw) : UnlockInv pin (wrongPin fw) := by
  have hcount : UnlockInv pin { fw with pinAttempts := fw.pinAttempts - 1 } :=
    hi.mono rfl rfl rfl id id id
  simp only [Firmware.wrongPin]
  split_ifs
  · exact hcount.screen ⟨rfl, rfl, rfl, rfl, rfl, rfl⟩
  · exact hcount.screen ⟨rfl, rfl, rfl, rfl, rfl, rfl⟩
  · exact hcount.lockOut

theorem UnlockInv.pinOk (hi : UnlockInv pin fw) : UnlockInv pin (lcdPinOk fw) := by
  have he := hi.emit_quiet (e := .pinOk fw.pinSet fw.typedPin fw.storedPin) rfl
  simp only [lcdPinOk]
  split_ifs with hp heq
  · exact he.acceptNewPin (by simpa [Fw.emit] using hp)
  · refine he.acceptPin fun hb => Once.last ⟨fw.storedPin, ?_⟩
    obtain ⟨hset, hpin, -⟩ : Booted pin fw := hb
    have heq : fw.typedPin = fw.storedPin := heq
    rw [hset, heq, hpin]
  · exact he.wrongPin

/-! ## Runs -/

theorem UnlockInv.move {K : Click → Prop} {fw' : Fw} (h : Move K fw fw') (hi : UnlockInv pin fw) :
    UnlockInv pin fw' := by
  cases h with
  | screen hs => exact hi.screen hs
  | view hv => exact hi.show (.inl (by rcases hv with rfl | ⟨rfl, -⟩ <;> decide)) _
  | minor => exact hi.mono rfl rfl rfl id id id
  | writeState => exact hi.mono rfl rfl rfl id id id
  | insertSd => exact hi.insertSd
  | decrypt card _ hp => exact hi.decrypt hp card
  | promptPassphrase _ hd => exact hi.promptPassphrase hd
  | assignPin _ _ hp => exact hi.assignPin hp
  | enterPin => exact hi.enterPin
  | showKeys _ hd hp he heq => exact hi.showKeys hd hp he heq
  | passClick c _ hv => exact hi.passClick hv c
  | pinClick c =>
    refine hi.withPin hi.caption ?_ _
    intro hb
    exact hb.2.2
  | passphraseOk card _ hv => exact hi.passphraseOk hv card
  | pinOk => exact hi.pinOk
  | longPress v => exact hi.emit_quiet rfl
  | faded => exact hi.mono rfl rfl rfl id id id

theorem UnlockInv.card (hi : UnlockInv pin fw) (err : Nat) : UnlockInv pin (observeCard err fw) := by
  have h : UnlockInv pin { fw with sdCardInserted := err ≠ noCard, lastMmcErr := err, fadeDue := true } :=
    hi.mono rfl rfl rfl id id id
  exact h.emit_quiet rfl

theorem unlockInv_boot (img : Image) (valid : Bool) (mmcErr : Nat)
    (h : valid = true → img.passphraseSet = true → img.pinSet = true) :
    UnlockInv (boot img valid mmcErr).storedPin (boot img valid mmcErr) := by
  have hset : (boot img valid mmcErr).passphraseSet = true → (boot img valid mmcErr).pinSet = true := by
    cases valid with
    | true => exact h rfl
    | false => exact nofun
  exact ⟨nofun, nofun, nofun, nofun, nofun, fun hp _ => ⟨⟨hset hp, rfl, nofun⟩, nofun⟩, AtEach.nil⟩

/-- **Unlock safety.** From an image whose passphrase comes with a PIN, in any order of
ticks, card events and touches: whenever `set_next_view` selects the key view,
`decrypt_ok` and `pin_set` are 1 and the PINs are equal, and before it in this session
the PIN of the image was matched or a passphrase typed in this session decrypted the file. -/
theorem keyView_unlocked (img : Image) (valid : Bool) (mmcErr : Nat)
    (h : valid = true → img.passphraseSet = true → img.pinSet = true) (is : List Input) :
    KeysGuarded (boot img valid mmcErr).storedPin (run Fw.step (boot img valid mmcErr) is).log :=
  (run_invariant (UnlockInv (boot img valid mmcErr).storedPin) (fun _ _ _ hm hi => hi.move hm)
    (fun _ err hi => hi.card err) is (unlockInv_boot img valid mmcErr h)).guarded

theorem keyView_unlocked_sample :
    (run Fw.step (boot sampleImage true 0) unlock).ui.currentView = .key ∧
      KeysGuarded [49] (run Fw.step (boot sampleImage true 0) unlock).log :=
  ⟨by decide +kernel, keyView_unlocked sampleImage true 0 (fun _ _ => rfl) unlock⟩

/-- The log tells of the selection of the key view as long as it is shown. -/
def KeyLogged (fw : Fw) : Prop :=
  fw.ui.currentView = .key → Once (fun _ e => ∃ d p t s, e = .keyView d p t s) fw.log

theorem KeyLogged.move {K : Click → Prop} {fw' : Fw} (hm : Move K fw fw') (h : KeyLogged fw) : KeyLogged fw' := by
  intro hk
  rcases hm.key_view hk with ⟨hv, -⟩ | ⟨rfl, -⟩
  · exact (h hv).mono hm.log_prefix
  · exact Once.last ⟨_, _, _, _, rfl⟩

theorem KeyLogged.card (h : KeyLogged fw) (err : Nat) : KeyLogged (observeCard err fw) := by
  intro hk
  exact (h hk).snoc

/-- **The key view is shown in an unlocked session only.** -/
theorem unlocked_of_key (img : Image) (valid : Bool) (mmcErr : Nat)
    (h : valid = true → img.passphraseSet = true → img.pinSet = true) (is : List Input)
    (hk : (run Fw.step (boot img valid mmcErr) is).ui.currentView = .key) :
    Unlocked (boot img valid mmcErr).storedPin (run Fw.step (boot img valid mmcErr) is).log := by
  have hinv := run_invariant (UnlockInv (boot img valid mmcErr).storedPin) (fun _ _ _ hm hi => hi.move hm)
    (fun _ err hi => hi.card err) is (unlockInv_boot img valid mmcErr h)
  have hlog : KeyLogged (boot img valid mmcErr) := fun hv => by cases hv
  obtain ⟨pre, e, post, hsplit, d, p, t, s, he⟩ :=
    run_invariant KeyLogged (fun _ _ _ hm hi => hi.move hm) (fun _ err hi => hi.card err) is hlog hk
  obtain ⟨-, -, -, hu⟩ := hinv.guarded pre e post hsplit d p t s he
  have hprefix : pre <+: (run Fw.step (boot img valid mmcErr) is).log := ⟨e :: post, hsplit.symm⟩
  exact hu.imp (·.mono hprefix) (·.mono hprefix)

end Keynjector.Firmware
