import Keynjector.Firmware.Moves
/-
# When the PIN is asked for (main.c:256-356)

`set_next_view` shows the prompt that re-arms `pin_attempts` when a fade-out ends and all is
in place but the PIN (`Fw.asksPin`). `step_adds` says what a step adds to the log: a prompt
then and only then, a guess on OK in the PIN view only, and else neither (`Quiet`).

| here | there |
| --- | --- |
| `Fw.opened`  | the key list, after `set_next_view` has tried the passphrase (`:301-305`) |
| `Fw.asksPin` | the tests of `set_next_view` on the way to the prompt (`:256-349`) |
-/

namespace Keynjector.Firmware

open Ui

variable {fw fw' : Fw} {e : Event}

/-- The key list, once the passphrase has been tried. -/
def Fw.opened (card : Card) (fw : Fw) : Option (List UInt8) :=
  if !fw.decryptAttempted && fw.passphraseSet then card.decrypt (cstr fw.ui.mem.passphrase)
  else if fw.decryptOk then some (fw.items.getD []) else none

/-- Everything is in place but a PIN that was entered and is right. -/
def Fw.asksPin (card : Card) (fw : Fw) : Bool :=
  fw.calibState = .done && fw.sdCardInserted && card.valid && card.fileExists && fw.fileFormatValid &&
    (fw.opened card).any (fun keys => 0 ≤ validateLbxItems keys) && fw.pinSet && !(fw.pinEntered && verifyPin fw)

/-- A fade-out ends. -/
def FadedOut (calls : List Callback) : Prop :=
  .commandComplete .fadeOut ∈ calls ∨ .commandComplete .calibLblFadeOut ∈ calls

instance (calls : List Callback) : Decidable (FadedOut calls) := inferInstanceAs (Decidable (_ ∨ _))

/-- The tick ends a fade-out, and `set_next_view` asks for the PIN. -/
def Fw.AsksPin (fw : Fw) : Input → Prop
  | .tick env => FadedOut (lcdTimerTick fw.ui).2 ∧ fw.asksPin env.card = true
  | _ => False

instance Fw.decidableAsksPin (fw : Fw) : (i : Input) → Decidable (fw.AsksPin i)
  | .tick _ => inferInstanceAs (Decidable (_ ∧ _))
  | .mouseDown .. | .mouseMove .. | .mouseUp .. | .mainLoop .. => .isFalse id

/-! ## What the functions add to the log -/

/-- No guess, and no prompt for one. -/
def Event.plain : Event → Bool
  | .enterPin | .pinOk .. => false
  | _ => true

/-- The log grows by plain events. -/
def Quiet (fw fw' : Fw) : Prop := ∃ es, fw'.log = fw.log ++ es ∧ ∀ e ∈ es, e.plain = true

theorem Quiet.of_log (h : fw'.log = fw.log) : Quiet fw fw' :=
  ⟨[], by rw [h, List.append_nil], fun _ he => absurd he List.not_mem_nil⟩

theorem Quiet.snoc (h : Quiet fw fw') {fw₂ : Fw} (hlog : fw₂.log = fw'.log ++ [e]) (he : e.plain = true) :
    Quiet fw fw₂ := by
  obtain ⟨es, hes, hplain⟩ := h
  refine ⟨es ++ [e], by rw [hlog, hes, List.append_assoc], fun x hx => ?_⟩
  rcases List.mem_append.1 hx with hx | hx
  · exact hplain x hx
  · rwa [List.mem_singleton.1 hx]

theorem Quiet.then (h : Quiet fw fw') {fw₂ : Fw} (hlog : fw₂.log = fw'.log) : Quiet fw fw₂ := by
  rwa [Quiet, hlog]

theorem Quiet.trans (h : Quiet fw fw') {fw₂ : Fw} (h' : Quiet fw' fw₂) : Quiet fw fw₂ := by
  obtain ⟨es, hes, hplain⟩ := h
  obtain ⟨es', hes', hplain'⟩ := h'
  refine ⟨es ++ es', by rw [hes', hes, List.append_assoc], fun x hx => ?_⟩
  exact (List.mem_append.1 hx).elim (hplain x) (hplain' x)

/-- What the attempt to decrypt adds, if there is one. -/
def Fw.tries (card : Card) (fw : Fw) : List Event :=
  if !fw.decryptAttempted && fw.passphraseSet then
    [.decrypt (cstr fw.ui.mem.passphrase) (card.decrypt (cstr fw.ui.mem.passphrase)).isSome]
  else []

/-- The key list is there if the file was decrypted, now or before. -/
structure Attempted (card : Card) (fw fw' : Fw) : Prop where
  ok : fw'.decryptOk = (fw.opened card).isSome
  keys : ∀ keys, fw.opened card = some keys → fw'.items.getD [] = keys
  log : fw'.log = fw.log ++ fw.tries card
  ui : fw'.ui = fw.ui
  valid : fw'.fileFormatValid = fw.fileFormatValid
  pinSet : fw'.pinSet = fw.pinSet
  entered : fw'.pinEntered = fw.pinEntered

theorem attemptDecrypt_attempted (card : Card) (fw : Fw) : Attempted card fw (attemptDecrypt card fw) := by
  by_cases h : (!fw.decryptAttempted && fw.passphraseSet) = true
  · have hopened : fw.opened card = card.decrypt (cstr fw.ui.mem.passphrase) := if_pos h
    have htries : fw.tries card = _ := if_pos h
    rw [attemptDecrypt, if_pos h, setDecryptOk, decryptFile]
    cases hd : card.decrypt (cstr fw.ui.mem.passphrase) with
    | none => constructor <;> simp [hopened, htries, hd, Fw.emit]
    | some plain => constructor <;> simp [hopened, htries, hd, Fw.emit]
  · have htries : fw.tries card = [] := if_neg h
    have hopened : fw.opened card = if fw.decryptOk then some (fw.items.getD []) else none := if_neg h
    rw [attemptDecrypt, if_neg h]
    cases hok : fw.decryptOk <;> constructor <;> simp [hopened, htries, hok]

theorem tries_plain (card : Card) (fw : Fw) : ∀ e ∈ fw.tries card, e.plain = true := by
  intro e he
  rw [Fw.tries] at he
  split_ifs at he
  · rw [List.mem_singleton.1 he]
    rfl
  · exact absurd he List.not_mem_nil

theorem Attempted.quiet {card : Card} (h : Attempted card fw fw') : Quiet fw fw' :=
  ⟨fw.tries card, h.log, tries_plain card fw⟩

/-- Where the PIN is asked for, an attempt succeeds if one is made. -/
theorem tries_of_asksPin {card : Card} (h : fw.asksPin card = true) :
    fw.decryptAttempted = false ∧ fw.passphraseSet = true ∧
        fw.tries card = [.decrypt (cstr fw.ui.mem.passphrase) true] ∨
      ¬ (fw.decryptAttempted = false ∧ fw.passphraseSet = true) ∧ fw.tries card = [] := by
  simp only [Fw.asksPin, Bool.and_eq_true] at h
  obtain ⟨keys, hopened, -⟩ := (Option.any_eq_true _ _).1 h.1.1.2
  by_cases ht : fw.decryptAttempted = false ∧ fw.passphraseSet = true
  · obtain ⟨ha, hp⟩ := ht
    have hd : card.decrypt (cstr fw.ui.mem.passphrase) = some keys := by simpa [Fw.opened, ha, hp] using hopened
    exact .inl ⟨ha, hp, by simp [Fw.tries, ha, hp, hd]⟩
  · exact .inr ⟨ht, by simpa [Fw.tries] using ht⟩

theorem checkPin_asks (hp : fw.pinSet = true) (h : (fw.pinEntered && verifyPin fw) = false) :
    (checkPin fw).log = fw.log ++ [.enterPin] := by
  simp only [checkPin, comparePin, hp, Bool.and_true]
  cases he : fw.pinEntered with
  | false => simp [he, hp, enterPin, askPin, Fw.emit, Fw.show]
  | true =>
    have hv : verifyPin fw = false := by simpa [he] using h
    simp [hv, enterPin, askPin, Fw.emit, Fw.show]

theorem checkPin_quiet (h : fw.pinSet = true → (fw.pinEntered && verifyPin fw) = true) : Quiet fw (checkPin fw) := by
  cases hp : fw.pinSet with
  | false => exact .of_log (by simp [checkPin, comparePin, hp, assignPin, askPin, Fw.show])
  | true =>
    obtain ⟨he, hv⟩ := Bool.and_eq_true_iff.1 (h hp)
    have hlog : (checkPin fw).log = fw.log ++ [.keyView fw.decryptOk fw.pinSet fw.typedPin fw.storedPin] := by
      simp [checkPin, comparePin, hp, he, hv, showKeys, Fw.emit, Fw.show, Fw.typedPin, Fw.storedPin]
    exact (Quiet.of_log rfl).snoc hlog rfl

theorem verifyPin_congr (h : fw'.ui.mem = fw.ui.mem) : verifyPin fw' = verifyPin fw := by
  unfold verifyPin Fw.storedPin Fw.typedPin
  rw [h]

/-- A key list goes on to the PIN, any other file to the message. -/
theorem setKeys_cases (again : Fw → Fw) (fw : Fw) :
    ∃ u, u.mem = fw.ui.mem ∧
      (0 ≤ validateLbxItems (fw.items.getD []) ∧ setKeys again fw = checkPin { fw with ui := u } ∨
        ¬ 0 ≤ validateLbxItems (fw.items.getD []) ∧
          setKeys again fw = again { fw with ui := u, fileFormatValid := false }) := by
  refine ⟨(lcdSetKeys fw.ui (fw.items.getD [])).1, (lcdSetKeys_same _ _).mem, ?_⟩
  by_cases h : 0 ≤ validateLbxItems (fw.items.getD [])
  · refine .inl ⟨h, ?_⟩
    simp only [setKeys, lcdSetKeys, lbxSetItems, ge_iff_le, if_pos h]
    rfl
  · refine .inr ⟨h, ?_⟩
    simp only [setKeys, lcdSetKeys, lbxSetItems, ge_iff_le, if_neg h]
    rfl

theorem nextView_asks (again : Fw → Fw) {card : Card} (h : fw.asksPin card = true) :
    (nextView again card fw).log = fw.log ++ fw.tries card ++ [.enterPin] := by
  simp only [Fw.asksPin, Bool.and_eq_true, decide_eq_true_eq, Bool.not_eq_true'] at h
  obtain ⟨⟨⟨⟨⟨⟨⟨hc, hsd⟩, hv⟩, hf⟩, hff⟩, hk⟩, hp⟩, he⟩ := h
  obtain ⟨keys, hopened, hkeys⟩ := (Option.any_eq_true _ _).1 hk
  have ha := attemptDecrypt_attempted card fw
  have hok : (attemptDecrypt card fw).decryptOk = true := by rw [ha.ok, hopened, Option.isSome_some]
  have hgo : nextView again card fw = setKeys again (attemptDecrypt card fw) := by
    simp [nextView, hc, hsd, hv, hf, ha.valid, hff, hok]
  obtain ⟨u, hu, ⟨-, hset⟩ | ⟨hn, -⟩⟩ := setKeys_cases again (attemptDecrypt card fw)
  · rw [hgo, hset, checkPin_asks]
    · exact congrArg (· ++ _) ha.log
    · exact ha.pinSet.trans hp
    · exact (congrArg₂ and ha.entered (verifyPin_congr (hu.trans (congrArg _ ha.ui)))).trans he
  · rw [ha.keys keys hopened] at hn
    exact absurd (of_decide_eq_true hkeys) hn

/-- A prompt for the PIN comes from nowhere else. -/
theorem nextView_quiet {again : Fw → Fw} (hagain : ∀ fw, fw.fileFormatValid = false → Quiet fw (again fw)) {card : Card}
    (h : fw.asksPin card = false) : Quiet fw (nextView again card fw) := by
  simp only [nextView]
  split_ifs with hc hsd hv hf hd hff
  · exact .of_log rfl
  · exact .of_log rfl
  · exact .of_log rfl
  · exact .of_log rfl
  all_goals
    have ha := attemptDecrypt_attempted card fw
    have hq := ha.quiet
  · exact hq.snoc rfl rfl
  · exact hq.then rfl
  · have hok : (fw.opened card).isSome = true := by simpa only [ha.ok, Bool.not_eq_true', Bool.not_eq_false] using hd
    obtain ⟨keys, hopened⟩ := Option.isSome_iff_exists.1 hok
    obtain ⟨u, hu, ⟨hkeys, hset⟩ | ⟨-, hset⟩⟩ := setKeys_cases again (attemptDecrypt card fw) <;> rw [hset]
    · refine hq.trans (Quiet.trans (.of_log rfl) (checkPin_quiet fun hp => ?_))
      have hp : fw.pinSet = true := ha.pinSet.symm.trans hp
      have hmem : u.mem = fw.ui.mem := hu.trans (congrArg _ ha.ui)
      have hverify : verifyPin { attemptDecrypt card fw with ui := u } = verifyPin fw := verifyPin_congr hmem
      rw [ha.keys keys hopened] at hkeys
      rw [ha.valid] at hff
      refine (congrArg₂ and ha.entered hverify).trans ?_
      simp_all [Fw.asksPin]
    · exact hq.trans (Quiet.trans (.of_log rfl) (hagain _ rfl))

theorem setNextView_asks {env : Env} (h : fw.asksPin env.card = true) :
    (setNextView env fw).log = fw.log ++ fw.tries env.card ++ [.enterPin] :=
  nextView_asks _ h

theorem setNextView_quiet {env : Env} (h : fw.asksPin env.card = false) : Quiet fw (setNextView env fw) := by
  refine nextView_quiet (fun fw hff => nextView_quiet (fun fw _ => .of_log rfl) ?_) h
  simp [Fw.asksPin, hff]

theorem lcdCommandComplete_log (env : Env) {c : Command} (hc : ¬ (c = .fadeOut ∨ c = .calibLblFadeOut)) (fw : Fw) :
    (lcdCommandComplete env c fw).log = fw.log := by
  cases c with
  | fadeOut => exact absurd (.inl rfl) hc
  | calibLblFadeOut => exact absurd (.inr rfl) hc
  | calibLblFadeIn | calibPointFadeIn => rfl
  | calibPointFadeOut i =>
    simp only [lcdCommandComplete]
    split
    · rfl
    · split_ifs <;> rfl
  | fadeIn =>
    simp only [lcdCommandComplete]
    split_ifs <;> rfl

/-- The end of a command is quiet, but for the prompt. -/
theorem Completes.adds (env : Env) {calls : List Callback} (h : Completes fw.ui calls) :
    ¬ (FadedOut calls ∧ fw.asksPin env.card = true) ∧ Quiet fw (calls.foldl (Fw.callback env) fw) ∨
      FadedOut calls ∧ fw.asksPin env.card = true ∧
        (calls.foldl (Fw.callback env) fw).log = fw.log ++ fw.tries env.card ++ [.enterPin] := by
  obtain rfl | ⟨c, rfl, -⟩ := h
  · exact .inl ⟨fun h => by simp [FadedOut] at h, .of_log rfl⟩
  have hfaded : FadedOut [.commandComplete c] ↔ c = .fadeOut ∨ c = .calibLblFadeOut := by simp [FadedOut, eq_comm]
  rw [hfaded]
  by_cases hc : c = .fadeOut ∨ c = .calibLblFadeOut
  · have hnext : [Callback.commandComplete c].foldl (Fw.callback env) fw = setNextView env fw := by
      rcases hc with rfl | rfl <;> rfl
    rw [hnext]
    cases hasks : fw.asksPin env.card with
    | false => exact .inl ⟨fun h => of_cleared h.2, setNextView_quiet hasks⟩
    | true => exact .inr ⟨hc, rfl, setNextView_asks hasks⟩
  · exact .inl ⟨fun h => hc h.1, .of_log (lcdCommandComplete_log env hc fw)⟩

theorem asksPin_screen {u : Screen} (h : u.mem = fw.ui.mem) {card : Card} :
    { fw with ui := u }.asksPin card = fw.asksPin card := by
  have hv : verifyPin { fw with ui := u } = verifyPin fw := verifyPin_congr h
  simp only [Fw.asksPin, Fw.opened, h, hv]

theorem tries_screen {u : Screen} (h : u.mem = fw.ui.mem) {card : Card} :
    { fw with ui := u }.tries card = fw.tries card := by
  simp only [Fw.tries, h]

/-- A step adds no guess and no prompt, or the prompt after a fade-out, or a guess. -/
inductive Adds (fw : Fw) : Input → Fw → Prop
  | quiet {i : Input} {fw' : Fw} : ¬ fw.AsksPin i → clicked fw i ≠ some (.pin .ok) → Quiet fw fw' → Adds fw i fw'
  | asks {env : Env} {presses : List Event} {fw' : Fw} :
      fw.AsksPin (.tick env) → (∀ e ∈ presses, ∃ v, e = .longPress v) →
      fw'.log = fw.log ++ presses ++ fw.tries env.card ++ [.enterPin] → Adds fw (.tick env) fw'
  | guess {i : Input} {fw' : Fw} : clicked fw i = some (.pin .ok) →
      fw'.log = fw.log ++ [.pinOk fw.pinSet fw.typedPin fw.storedPin] → Adds fw i fw'

theorem lcdPassphraseOk_quiet (card : Card) (fw : Fw) : Quiet fw (lcdPassphraseOk card fw) := by
  obtain ⟨u, -, ⟨plain, h⟩ | h⟩ := lcdPassphraseOk_cases card fw <;> rw [h]
  · exact ⟨_, List.append_assoc .., by simp [Event.plain]⟩
  · exact ⟨_, List.append_assoc .., by simp [Event.plain]⟩

theorem click_adds (env : Env) (fw : Fw) (k : Click) :
    k ≠ .pin .ok ∧ Quiet fw (Fw.click env fw k) ∨
      k = .pin .ok ∧ (Fw.click env fw k).log = fw.log ++ [.pinOk fw.pinSet fw.typedPin fw.storedPin] := by
  rcases k with c | c | c
  · refine .inl ⟨by simp, ?_⟩
    have hq : Quiet fw (fw.emit (.passClick c)) := (Quiet.of_log rfl).snoc rfl rfl
    cases c with
    | ok => exact hq.trans (lcdPassphraseOk_quiet env.card _)
    | _ => exact hq.then rfl
  · cases c with
    | ok => exact .inr ⟨rfl, lcdPinOk_log fw⟩
    | _ => exact .inl ⟨by simp, .of_log rfl⟩
  · cases c <;> exact .inl ⟨by simp, .of_log rfl⟩

theorem tick_adds (env : Env) (fw : Fw) : Adds fw (.tick env) (fw.step (.tick env)) := by
  have hs := lcdTimerTick_same fw.ui
  rcases lcdTimerTick_calls fw.ui with h | ⟨v, l, hl, -, h⟩
  · let ticked := { fw with ui := (lcdTimerTick fw.ui).1 }
    have hsame : Completes ticked.ui (lcdTimerTick fw.ui).2 := h.same hs
    rcases hsame.adds env with ⟨hn, hq⟩ | ⟨hc, ha, hlog⟩
    · exact .quiet (fun h => hn ⟨h.1, (asksPin_screen hs.mem).trans h.2⟩) (fun h => by cases h) hq
    · have htries : ticked.tries env.card = fw.tries env.card := tries_screen hs.mem
      refine .asks ⟨hc, (asksPin_screen hs.mem).symm.trans ha⟩ (fun e he => absurd he List.not_mem_nil) ?_
      rw [List.append_nil, ← htries]
      exact hlog
  · have hfaded : FadedOut (lcdTimerTick fw.ui).2 ↔ FadedOut l := by simp [FadedOut, hl]
    let pressed := { fw with ui := (lcdTimerTick fw.ui).1 }.emit (.longPress v)
    have hsame : Completes pressed.ui l := h.same hs
    have hstep : fw.step (.tick env) = l.foldl (Fw.callback env) pressed := by
      simp only [Fw.step, hl, List.foldl_cons]
      rfl
    rw [hstep]
    rcases hsame.adds env with ⟨hn, hq⟩ | ⟨hc, ha, hlog⟩
    · refine .quiet (fun h => hn ⟨hfaded.1 h.1, (asksPin_screen hs.mem).trans h.2⟩) (fun h => by cases h) ?_
      exact Quiet.trans ((Quiet.of_log rfl).snoc rfl rfl) hq
    · have htries : pressed.tries env.card = fw.tries env.card := tries_screen hs.mem
      rw [htries] at hlog
      refine .asks ⟨hfaded.2 hc, (asksPin_screen hs.mem).symm.trans ha⟩ ?_ hlog
      exact fun e he => ⟨v, List.mem_singleton.1 he⟩

theorem mainLoop_quiet (err : Nat) (raw : Option (Int × Int)) (fw : Fw) : Quiet fw (mainLoop err raw fw) := by
  simp only [mainLoop]
  split_ifs with hdue
  · exact .of_log rfl
  split
  · rw [pollCard]
    split_ifs
    · exact (Quiet.of_log rfl).snoc rfl rfl
    · exact .of_log rfl
  · rcases raw with _ | ⟨x, y⟩ <;> exact .of_log rfl
  · exact .of_log rfl

/-- **What a step adds to the log.** -/
theorem step_adds (fw : Fw) (i : Input) : Adds fw i (fw.step i) := by
  cases i with
  | tick env => exact tick_adds env fw
  | mouseDown x y => exact .quiet id (fun h => by cases h) (.of_log rfl)
  | mouseMove x y => exact .quiet id (fun h => by cases h) (.of_log rfl)
  | mouseUp x y env =>
    cases hk : clicked fw (.mouseUp x y env) with
    | none =>
      have hnone : (viewMouseUp fw.ui x y).2 = none := hk
      refine .quiet id (by rw [hk]; exact fun h => by cases h) (.of_log ?_)
      simp only [Fw.step]
      cases hu : viewMouseUp fw.ui x y with
      | mk u c =>
        obtain rfl : c = none := (congrArg Prod.snd hu).symm.trans hnone
        rfl
    | some k =>
      obtain ⟨u, env', hs, h⟩ := step_click hk
      rw [h]
      rcases click_adds env' { fw with ui := u } k with ⟨hne, hq⟩ | ⟨rfl, hlog⟩
      · exact .quiet id (by rw [hk]; exact fun h => hne (Option.some.inj h)) hq
      · refine .guess hk (hlog.trans ?_)
        simp only [Fw.typedPin, Fw.storedPin, hs.mem]
  | mainLoop err raw => exact .quiet id (fun h => by cases h) (mainLoop_quiet err raw fw)

theorem Adds.log_grows {i : Input} (h : Adds fw i fw') : ∃ es, fw'.log = fw.log ++ es := by
  cases h with
  | quiet _ _ hq =>
    obtain ⟨es, hes, -⟩ := hq
    exact ⟨es, hes⟩
  | asks _ _ hlog => exact ⟨_, by rw [hlog, List.append_assoc, List.append_assoc]⟩
  | guess _ hlog => exact ⟨_, hlog⟩

end Keynjector.Firmware
