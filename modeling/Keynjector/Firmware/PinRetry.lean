import Keynjector.Firmware.Prompt
/-
# The PIN retry limit (main.c:485-522, 256-356, 610-618)

`lcd_pin_ok` counts `pin_attempts` down to the lock-out; `set_next_view` sets it back to 3
whenever it asks for the PIN. It asks again after a card event or a late touch, with the
wrong PINs of before forgotten: `rearmed` is such a session. `retryLimit_of_orderly` says
that nothing else breaks the limit but an OK during the fade-out of the lock-out, which
`lcd_pin_ok` takes for a first PIN (`lateOk`).

`Guesses` counts from the log, apart from the code: wrong PINs since the last correct one
or the last passphrase entered with success. A passphrase is entered with success when it
decrypts at once, or later, once the right card is in (`pending`).

`Fw.InOrder` is the condition on an input and the state it finds; `guarded_iff_orderly` says
what it comes to in the log.
-/

namespace Keynjector.Firmware

open Ui Runs

structure Guesses where
  wrong : Nat
  /-- A passphrase was submitted since the last guess and has not decrypted a file yet. -/
  pending : Bool
deriving DecidableEq, Repr

def guessStep (g : Guesses) : Event → Guesses
  | .pinOk true typed stored => ⟨if typed = stored then 0 else g.wrong + 1, false⟩
  | .passphraseOk ok => if ok then ⟨0, false⟩ else { g with pending := true }
  | .decrypt _ ok => if ok && g.pending then ⟨0, false⟩ else g
  | .wipe => { g with pending := false }
  | _ => g

def guesses (log : List Event) : Guesses := run guessStep ⟨0, false⟩ log

/-- A PIN is compared with `g_state.pin` only while fewer than three wrong ones are outstanding. -/
def Compared (log : List Event) : Prop :=
  AtEach (fun pre e => ∀ typed stored, e = .pinOk true typed stored → (guesses pre).wrong < 3) log

/-- Once three wrong PINs are outstanding, the device is locked until a passphrase opens it. -/
structure RetryLimit (fw : Fw) : Prop where
  compared : Compared fw.log
  locked : 3 ≤ (guesses fw.log).wrong → fw.pinSet = false ∧ fw.decryptOk = false ∧
    (fw.passphraseSet = true → (guesses fw.log).pending = true)

/-- `pin_attempts` is set back to 3 with no wrong PIN outstanding; a first PIN is taken
while the device is not locked. -/
def inOrder (g : Guesses) : Event → Bool
  | .enterPin => g.wrong = 0
  | .pinOk false _ _ => g.wrong < 3
  | _ => true

def Orderly (log : List Event) : Prop := AtEach (fun pre e => inOrder (guesses pre) e = true) log

instance (log : List Event) : Decidable (Orderly log) := inferInstanceAs (Decidable (AtEach _ _))

structure RetryInv (fw : Fw) : Prop extends RetryLimit fw where
  attempts : fw.pinAttempts ≤ 3
  budget : (guesses fw.log).wrong + fw.pinAttempts ≤ 3
  unlocked : fw.pinSet = true → (guesses fw.log).wrong < 3

variable {fw fw' : Fw} {log : List Event} {e : Event}

theorem guesses_snoc : guesses (log ++ [e]) = guessStep (guesses log) e := run_snoc log e

/-! ## What keeps the invariant -/

/-- Flags may be cleared. -/
theorem RetryInv.mono (hi : RetryInv fw) (hlog : fw'.log = fw.log) (hatt : fw'.pinAttempts = fw.pinAttempts)
    (hpin : fw'.pinSet = true → fw.pinSet = true) (hpass : fw'.passphraseSet = true → fw.passphraseSet = true)
    (hdec : fw'.decryptOk = true → fw.decryptOk = true) : RetryInv fw' := by
  refine ⟨⟨hlog ▸ hi.compared, ?_⟩, hatt ▸ hi.attempts, by rw [hlog, hatt]; exact hi.budget, ?_⟩
  · rw [hlog]
    intro h
    obtain ⟨hp, hd, hs⟩ := hi.locked h
    refine ⟨?_, ?_, fun h => hs (hpass h)⟩
    · exact Bool.eq_false_iff.2 fun h => Bool.eq_false_iff.1 hp (hpin h)
    · exact Bool.eq_false_iff.2 fun h => Bool.eq_false_iff.1 hd (hdec h)
  · rw [hlog]
    intro h
    exact hi.unlocked (hpin h)

theorem Compared.snoc (h : Compared log) (he : ∀ typed stored, e ≠ .pinOk true typed stored) : Compared (log ++ [e]) :=
  AtEach.snoc.2 ⟨h, fun t s ht => absurd ht (he t s)⟩

/-- An event that is no guess and does not touch the count. -/
theorem RetryInv.emit (hi : RetryInv fw) (hg : guessStep (guesses fw.log) e = guesses fw.log)
    (he : ∀ typed stored, e ≠ .pinOk true typed stored) : RetryInv (fw.emit e) := by
  have hlog : guesses (fw.emit e).log = guesses fw.log := guesses_snoc.trans hg
  refine ⟨⟨hi.compared.snoc he, ?_⟩, hi.attempts, ?_, ?_⟩ <;> rw [hlog]
  · exact hi.locked
  · exact hi.budget
  · exact hi.unlocked

/-- With no wrong PIN outstanding. -/
theorem RetryInv.cleared (hc : Compared fw.log) (ha : fw.pinAttempts ≤ 3) (hg : (guesses fw.log).wrong = 0) :
    RetryInv fw :=
  ⟨⟨hc, by omega⟩, ha, by omega, by omega⟩

theorem RetryInv.screen (hi : RetryInv fw) (u : Screen) : RetryInv { fw with ui := u } := hi.mono rfl rfl id id id

theorem RetryInv.show (hi : RetryInv fw) (v : View) (c : Command) : RetryInv (fw.show v c) := hi.mono rfl rfl id id id

/-! ## Passphrases -/

/-- A file that the passphrase of `g_state` decrypts: a late success, if one was pending. -/
theorem RetryInv.decrypt (hi : RetryInv fw) (hp : fw.passphraseSet = true) (card : Card) :
    RetryInv (setDecryptOk card fw) := by
  rcases setDecryptOk_cases card fw with ⟨plain, h⟩ | h <;> rw [h]
  · have hc := hi.compared.snoc (e := .decrypt (cstr fw.ui.mem.passphrase) true) fun _ _ h => by cases h
    by_cases hg : (guesses fw.log).pending = true
    · refine RetryInv.cleared hc hi.attempts ?_
      simp [Fw.emit, guesses_snoc, guessStep, hg]
    · have hw : (guesses fw.log).wrong < 3 := by
        by_contra hw
        exact hg ((hi.locked (by omega)).2.2 hp)
      have hlog : guesses (fw.log ++ [.decrypt (cstr fw.ui.mem.passphrase) true]) = guesses fw.log := by
        simp [guesses_snoc, guessStep, hg]
      refine ⟨⟨hc, ?_⟩, hi.attempts, ?_, ?_⟩ <;> rw [Fw.emit, hlog]
      · omega
      · exact hi.budget
      · exact hi.unlocked
  · have hf : RetryInv { fw with decryptOk := false } := hi.mono rfl rfl id id of_cleared
    exact hf.emit rfl fun _ _ h => by cases h

theorem RetryInv.promptPassphrase (hi : RetryInv fw) : RetryInv (promptPassphrase fw) := by
  have hw : RetryInv (wipePassphrase fw) := by
    have hc : Compared (fw.log ++ [.wipe]) := hi.compared.snoc fun _ _ h => by cases h
    refine ⟨⟨hc, ?_⟩, hi.attempts, ?_, of_cleared⟩ <;> rw [wipePassphrase, Fw.emit, guesses_snoc]
    · intro h
      exact ⟨rfl, (hi.locked h).2.1, of_cleared⟩
    · exact hi.budget
  exact (hw.screen _).show .pass .fadeIn

theorem RetryInv.passphraseOk (hi : RetryInv fw) (card : Card) : RetryInv (lcdPassphraseOk card fw) := by
  have hc : ∀ p ok, Compared (fw.log ++ [.decrypt p ok] ++ [.passphraseOk ok]) := fun p ok =>
    (hi.compared.snoc fun _ _ h => by cases h).snoc fun _ _ h => by cases h
  obtain ⟨u, -, ⟨plain, h⟩ | h⟩ := lcdPassphraseOk_cases card fw <;> rw [h]
  · exact RetryInv.cleared (hc _ true) hi.attempts (by simp only [guesses_snoc, guessStep, if_true])
  · have hlog : guesses (fw.log ++ [.decrypt (cstr fw.ui.mem.passphrase) false] ++ [.passphraseOk false]) =
        { guesses fw.log with pending := true } := by
      rw [guesses_snoc, guesses_snoc]
      rfl
    refine ⟨⟨hc _ false, ?_⟩, hi.attempts, ?_, ?_⟩ <;> rw [hlog]
    · intro h
      exact ⟨(hi.locked h).1, rfl, fun _ => rfl⟩
    · exact hi.budget
    · exact hi.unlocked

/-! ## PINs -/

/-- The prompt starts a new count; no wrong PIN is outstanding. -/
theorem RetryInv.enterPin (hi : RetryInv fw) (hw : (guesses fw.log).wrong = 0) : RetryInv (enterPin fw) := by
  have ha : RetryInv ({ askPin "Enter PIN" .pin fw with pinAttempts := 3 }.emit .enterPin) := by
    refine RetryInv.cleared (hi.compared.snoc fun _ _ h => by cases h) (Int.le_refl 3) ?_
    rw [Fw.emit, guesses_snoc]
    exact hw
  exact ha.show .pin .fadeIn

/-- A first PIN, taken while the device is not locked. -/
theorem RetryInv.acceptNewPin (hi : RetryInv fw) (hw : (guesses fw.log).wrong < 3) : RetryInv (acceptNewPin fw) := by
  have hset : RetryInv (writeState { fw with pinEntered := true, pinSet := true }) :=
    ⟨⟨hi.compared, fun h => absurd hw (Nat.not_lt.2 h)⟩, hi.attempts, hi.budget, fun _ => hw⟩
  exact hset.mono rfl rfl id id id

/-- The count of the log and the countdown of the code move together. -/
theorem RetryInv.wrongPin (hi : RetryInv fw) (hp : fw.pinSet = true) {typed stored : List UInt8}
    (hne : typed ≠ stored) : RetryInv (wrongPin (fw.emit (.pinOk true typed stored))) := by
  have hw := hi.unlocked hp
  have ha := hi.attempts
  have hb := hi.budget
  have hc : Compared (fw.log ++ [.pinOk true typed stored]) := AtEach.snoc.2 ⟨hi.compared, fun _ _ _ => hw⟩
  have hlog : guesses (fw.log ++ [.pinOk true typed stored]) = ⟨(guesses fw.log).wrong + 1, false⟩ := by
    rw [guesses_snoc, guessStep, if_neg hne]
  simp only [Firmware.wrongPin]
  -- one more is wrong, one fewer is left: with none left, all flags are cleared
  split_ifs with h2 h1
  · refine ⟨⟨hc, ?_⟩, ?_, ?_, ?_⟩ <;> simp only [Fw.emit, hlog] at * <;> omega
  · refine ⟨⟨hc, ?_⟩, ?_, ?_, ?_⟩ <;> simp only [Fw.emit, hlog] at * <;> omega
  · refine RetryInv.screen ?_ _
    refine ⟨⟨hc, fun _ => ⟨rfl, rfl, of_cleared⟩⟩, ?_, ?_, of_cleared⟩ <;>
      simp only [Fw.emit, hlog, writeState] at * <;> omega

theorem RetryInv.pinOk (hi : RetryInv fw) (ho : fw.pinSet = false → (guesses fw.log).wrong < 3) :
    RetryInv (lcdPinOk fw) := by
  simp only [lcdPinOk]
  split_ifs with hp heq
  · have hset : fw.pinSet = false := by simpa [Fw.emit] using hp
    refine RetryInv.acceptNewPin (hi.emit ?_ ?_) ?_
    · rw [hset]
      rfl
    · rw [hset]
      exact fun _ _ h => by cases h
    · rw [Fw.emit, guesses_snoc, hset]
      exact ho hset
  · have hset : fw.pinSet = true := by simpa [Fw.emit] using hp
    have heq : fw.typedPin = fw.storedPin := heq
    refine RetryInv.screen ?_ _
    refine RetryInv.cleared (AtEach.snoc.2 ⟨hi.compared, fun _ _ _ => hi.unlocked hset⟩) hi.attempts ?_
    rw [Fw.emit, guesses_snoc, hset, guessStep, if_pos heq]
  · have hset : fw.pinSet = true := by simpa [Fw.emit] using hp
    have hne : fw.typedPin ≠ fw.storedPin := heq
    rw [hset]
    exact hi.wrongPin hset hne

/-! ## Runs -/

theorem Orderly.of_snoc (h : Orderly (log ++ [e])) : Orderly log := (AtEach.snoc.1 h).1

theorem RetryInv.move {K : Click → Prop} (h : Move K fw fw') (hi : Orderly fw.log → RetryInv fw)
    (ho : Orderly fw'.log) : RetryInv fw' := by
  cases h with
  | screen => exact (hi ho).screen _
  | view => exact (hi ho).show _ _
  | minor => exact (hi ho).mono rfl rfl id id id
  | writeState => exact (hi ho).mono rfl rfl id id id
  | insertSd => exact (hi ho).mono rfl rfl id id of_cleared
  | decrypt card _ hp =>
    refine RetryInv.decrypt (hi ?_) hp card
    obtain ⟨_, h⟩ | h := setDecryptOk_cases card fw <;> exact Orderly.of_snoc (h ▸ ho)
  | promptPassphrase => exact (hi ho.of_snoc).promptPassphrase
  | assignPin => exact (hi ho).mono rfl rfl id id id
  | enterPin =>
    obtain ⟨ho, hw⟩ := AtEach.snoc.1 ho
    exact (hi ho).enterPin (of_decide_eq_true hw)
  | showKeys =>
    have he := (hi ho.of_snoc).emit (e := .keyView fw.decryptOk fw.pinSet fw.typedPin fw.storedPin) rfl
      fun _ _ h => by cases h
    exact he.mono rfl rfl id id id
  | passClick c =>
    have he := (hi ho.of_snoc).emit (e := .passClick c) rfl fun _ _ h => by cases h
    exact he.screen _
  | pinClick c => exact (hi ho).screen _
  | passphraseOk card =>
    refine RetryInv.passphraseOk (hi ?_) card
    obtain ⟨_, -, ⟨_, h⟩ | h⟩ := lcdPassphraseOk_cases card fw <;> exact (Orderly.of_snoc (h ▸ ho)).of_snoc
  | pinOk =>
    obtain ⟨ho, hlate⟩ := AtEach.snoc.1 (lcdPinOk_log fw ▸ ho)
    refine (hi ho).pinOk fun hp => ?_
    rw [hp] at hlate
    exact of_decide_eq_true hlate
  | longPress v => exact (hi ho.of_snoc).emit rfl fun _ _ h => by cases h
  | faded => exact (hi ho).mono rfl rfl id id id

/-! ## The condition -/

/-- The PIN is asked for with no wrong one outstanding, or after a passphrase that is tried again now; a first PIN is
taken while the device is not locked. -/
structure Fw.InOrder (fw : Fw) (i : Input) : Prop where
  asked : fw.AsksPin i → (guesses fw.log).wrong = 0 ∨
    (guesses fw.log).pending = true ∧ fw.decryptAttempted = false ∧ fw.passphraseSet = true
  first : clicked fw i = some (.pin .ok) → fw.pinSet = false → (guesses fw.log).wrong < 3

instance Fw.decidableInOrder (fw : Fw) (i : Input) : Decidable (fw.InOrder i) :=
  decidable_of_iff ((fw.AsksPin i → (guesses fw.log).wrong = 0 ∨
      (guesses fw.log).pending = true ∧ fw.decryptAttempted = false ∧ fw.passphraseSet = true) ∧
    (clicked fw i = some (.pin .ok) → fw.pinSet = false → (guesses fw.log).wrong < 3))
    ⟨fun h => ⟨h.1, h.2⟩, fun h => ⟨h.asked, h.first⟩⟩

theorem inOrder_plain (h : e.plain = true) (g : Guesses) : inOrder g e = true := by
  cases e <;> first | rfl | cases h

theorem Quiet.orderly (h : Quiet fw fw') (ho : Orderly fw.log) : Orderly fw'.log := by
  obtain ⟨es, hes, hplain⟩ := h
  rw [hes]
  refine ho.append fun pre e post hsplit => inOrder_plain (hplain e ?_) _
  rw [hsplit]
  exact List.mem_append_right _ List.mem_cons_self

theorem guesses_presses {presses : List Event} (h : ∀ e ∈ presses, ∃ v, e = .longPress v) :
    guesses (log ++ presses) = guesses log := by
  induction presses using List.reverseRecOn with
  | nil => rw [List.append_nil]
  | append_singleton es e ih =>
    obtain ⟨v, rfl⟩ := h e (by simp)
    rw [← List.append_assoc, guesses_snoc]
    exact ih fun x hx => h x (List.mem_append_left _ hx)

/-- Before the prompt, a pending passphrase that decrypts now clears the count; nothing else touches it. -/
theorem guesses_asks {env : Env} (hasks : fw.AsksPin (.tick env)) {presses : List Event}
    (hpresses : ∀ e ∈ presses, ∃ v, e = .longPress v) :
    (guesses (fw.log ++ presses ++ fw.tries env.card)).wrong = 0 ↔
      (guesses fw.log).wrong = 0 ∨
        (guesses fw.log).pending = true ∧ fw.decryptAttempted = false ∧ fw.passphraseSet = true := by
  rcases tries_of_asksPin hasks.2 with ⟨ha, hp, ht⟩ | ⟨hn, ht⟩
  · rw [ht, guesses_snoc, guesses_presses hpresses, guessStep]
    cases hg : (guesses fw.log).pending <;> simp [ha, hp]
  · rw [ht, List.append_nil, guesses_presses hpresses]
    simp only [hn, and_false, or_false]

/-- **The steps in order are those that keep the log orderly.** -/
theorem Adds.orderly_iff {i : Input} (h : Adds fw i fw') (ho : Orderly fw.log) : Orderly fw'.log ↔ fw.InOrder i := by
  cases h with
  | quiet hasks hk hq => exact ⟨fun _ => ⟨fun h => absurd h hasks, fun h => absurd h hk⟩, fun _ => hq.orderly ho⟩
  | guess hk hlog =>
    have hasks : ¬ fw.AsksPin i := by
      cases i with
      | tick => cases hk
      | _ => exact id
    rw [hlog, Orderly, AtEach.snoc]
    constructor
    · rintro ⟨-, h⟩
      refine ⟨fun h => absurd h hasks, fun _ hp => ?_⟩
      rw [hp] at h
      exact of_decide_eq_true h
    · intro h
      refine ⟨ho, ?_⟩
      cases hp : fw.pinSet with
      | false => exact decide_eq_true (h.first hk hp)
      | true => rfl
  | @asks env presses _ hasks hpresses hlog =>
    have hq : Quiet fw { fw with log := fw.log ++ presses ++ fw.tries env.card } := by
      refine ⟨presses ++ fw.tries env.card, List.append_assoc .., fun e he => ?_⟩
      rcases List.mem_append.1 he with he | he
      · obtain ⟨v, rfl⟩ := hpresses e he
        rfl
      · exact tries_plain env.card fw e he
    rw [hlog, Orderly, AtEach.snoc, inOrder, decide_eq_true_iff, guesses_asks hasks hpresses]
    exact ⟨fun h => ⟨fun _ => h.2, fun h => by cases h⟩, fun h => ⟨hq.orderly ho, h.asked hasks⟩⟩

/-! ## Sessions -/

theorem RetryInv.card (hi : Orderly fw.log → RetryInv fw) (err : Nat) (ho : Orderly (observeCard err fw).log) :
    RetryInv (observeCard err fw) :=
  ((hi ho.of_snoc).emit (e := .card (err ≠ noCard)) rfl fun _ _ h => by cases h).mono rfl rfl id id id

theorem retryInv_boot (img : Image) (valid : Bool) (mmcErr : Nat) : RetryInv (boot img valid mmcErr) :=
  ⟨⟨AtEach.nil, nofun⟩, by simp [boot], by simp [boot, guesses, run], fun _ => by simp [boot, guesses, run]⟩

theorem guarded_iff_orderly {is : List Input} (ho : Orderly fw.log) :
    Guarded Fw.step Fw.InOrder fw is ↔ Orderly (run Fw.step fw is).log := by
  induction is using List.reverseRecOn with
  | nil => exact ⟨fun _ => ho, fun _ => trivial⟩
  | append_singleton is i ih =>
    have hadds := step_adds (run Fw.step fw is) i
    rw [Guarded.snoc, run_snoc, ih]
    refine ⟨fun h => (hadds.orderly_iff h.1).2 h.2, fun h => ?_⟩
    obtain ⟨es, hes⟩ := hadds.log_grows
    have ho : Orderly (run Fw.step fw is).log := AtEach.of_append (hes ▸ h)
    exact ⟨ho, (hadds.orderly_iff ho).1 h⟩

/-- **The retry limit**, in every session in which the PIN is asked for only with no wrong
one outstanding and no first PIN is taken while the device is locked. -/
theorem retryLimit_of_orderly (img : Image) (valid : Bool) (mmcErr : Nat) (is : List Input)
    (hg : Guarded Fw.step Fw.InOrder (boot img valid mmcErr) is) : RetryLimit (run Fw.step (boot img valid mmcErr) is) := by
  have ho : Orderly (boot img valid mmcErr).log := AtEach.nil
  exact (run_invariant (fun fw => Orderly fw.log → RetryInv fw) (fun _ _ _ hm hi ho => RetryInv.move hm hi ho)
    (fun _ err hi ho => RetryInv.card hi err ho) is
    (fun _ => retryInv_boot img valid mmcErr) ((guarded_iff_orderly ho).1 hg)).toRetryLimit

/-- Three wrong PINs, and the passphrase view after the fade-out. -/
def threeWrong : List Input := ticks 20 ++ tapTwo ++ tapOk ++ tapOk ++ tapOk ++ ticks 10

theorem retryLimit_of_orderly_sample :
    (guesses (run Fw.step (boot sampleImage true 0) threeWrong).log).wrong = 3 ∧
      RetryLimit (run Fw.step (boot sampleImage true 0) threeWrong) :=
  ⟨by decide +kernel, retryLimit_of_orderly sampleImage true 0 threeWrong (by decide +kernel)⟩

/-- Two wrong PINs; the card is pulled and put back; the prompt starts anew, and a third
and a fourth wrong PIN are compared. -/
def rearmed : List Input :=
  ticks 20 ++ tapTwo ++ tapOk ++ tapOk ++ cardOut ++ ticks 10 ++ cardIn ++ ticks 10 ++ tapTwo ++ tapOk ++ tapOk

/-- Three wrong PINs, and one more OK while the view fades out. -/
def lateOk : List Input := ticks 20 ++ tapTwo ++ tapOk ++ tapOk ++ tapOk ++ tapOk

/-- **The limit is broken**: wrong PINs enough in a row, and `pin_set` is 1. -/
theorem retryLimit_broken : ¬ RetryLimit (run Fw.step (boot sampleImage true 0) rearmed) ∧
    ¬ RetryLimit (run Fw.step (boot sampleImage true 0) lateOk) := by
  constructor
  · intro h
    exact absurd (h.locked (by decide +kernel)).1 (by decide +kernel)
  · intro h
    exact absurd (h.locked (by decide +kernel)).1 (by decide +kernel)

end Keynjector.Firmware
