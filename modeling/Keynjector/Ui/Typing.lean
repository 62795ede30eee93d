import Keynjector.Lib.Runs
import Keynjector.Ui.Editors
/-
# What is typed (ui.c:1675-1803)

The passphrase editor keeps its string, the length and the index of the last character in
step, so that every string can be typed from wherever it stands. The PIN editor is a stack.

| here | there |
| --- | --- |
| `PassEdit.Holds`                     | the string in the array, its last character being `passphrase_charset[i]` |
| `PassEdit.writes`, `PinEdit.writes`  | the assignments `s[i] = c` of a click |
| `pinStack`                           | the stack of digits the PIN editor implements |
-/

namespace Keynjector.Ui

open Runs

/-- `passphrase_charset[i]` -/
def charAt (i : Nat) : UInt8 := load passphraseCharset i

theorem passphraseCharset_length : passphraseCharset.length = 62 := by decide +kernel

theorem charAt_eq {i : Nat} (hi : i < passphraseCharset.length) : charAt i = passphraseCharset[i] := by
  rw [charAt, load, if_pos (Int.natCast_nonneg i), Int.toNat_natCast, List.getD_eq_getElem?_getD,
    List.getElem?_eq_getElem hi, Option.getD_some]

theorem charAt_mem {i : Nat} (hi : i < 62) : charAt i ∈ passphraseCharset := by
  rw [charAt_eq (passphraseCharset_length ▸ hi)]
  exact List.getElem_mem _

theorem mem_passphraseCharset {c : UInt8} (hc : c ∈ passphraseCharset) : ∃ i < 62, charAt i = c := by
  obtain ⟨i, hi, rfl⟩ := List.getElem_of_mem hc
  exact ⟨i, passphraseCharset_length ▸ hi, charAt_eq hi⟩

theorem nul_not_mem_passphraseCharset : 0 ∉ passphraseCharset := fun h => by
  have hin : inLbxValueCharset 0 = true := List.contains_iff_mem.2 h
  rw [nul_not_value] at hin
  cases hin

/-- `s[k] = c` inside a string of NULs after `v`. -/
theorem store_append (v : List UInt8) (x c : UInt8) (rest : List UInt8) {k : Int} (hk : k = v.length) :
    store (v ++ x :: rest) k c = v ++ c :: rest := by
  rw [store, if_pos (by omega), hk, Int.toNat_natCast, List.set_append_right _ _ Nat.le.refl, Nat.sub_self,
    List.set_cons_zero]

theorem load_append (v : List UInt8) (x : UInt8) (rest : List UInt8) {k : Int} (hk : k = v.length) :
    load (v ++ x :: rest) k = x := by
  rw [load, if_pos (by omega), hk, Int.toNat_natCast]
  simp

/-! ## The passphrase editor -/

/-- The array of `n` bytes holds `v` and the character of index `i`, then NULs. -/
structure PassEdit.Holds (e : PassEdit) (n : Nat) (v : List UInt8) (i : Nat) : Prop where
  array : e.s = v ++ charAt i :: List.replicate (n - v.length - 1) 0
  len : e.len = v.length + 1
  maxlen : e.maxlen = n
  index : e.index = i
  valid : i < 62
  fits : v.length + 1 < n
  chars : ∀ c ∈ v, c ∈ passphraseCharset

section

variable {e : PassEdit} {n i : Nat} {v : List UInt8}

theorem PassEdit.holds_fresh (hn : 1 < n) : (PassEdit.fresh n).Holds n [] 0 :=
  ⟨rfl, rfl, rfl, rfl, by decide, hn, nofun⟩

/-- Another character in the place of the last. -/
theorem PassEdit.Holds.put {j : Nat} (h : e.Holds n v i) (hj : j < 62) :
    (PassEdit.put { e with index := j }).Holds n v j := by
  obtain ⟨ha, hl, hm, hi, hv, hf, hc⟩ := h
  refine ⟨?_, hl, hm, rfl, hj, hf, hc⟩
  show store e.s (e.len - 1) (charAt j) = _
  rw [ha, store_append _ _ _ _ (by omega)]

theorem PassEdit.Holds.up (h : e.Holds n v i) : (e.click .up).Holds n v (if i + 1 = 62 then 0 else i + 1) := by
  have hv := h.valid
  have hput : e.click .up = PassEdit.put { e with index := (if i + 1 = 62 then 0 else i + 1 : Nat) } := by
    simp only [PassEdit.click, passUpClick, passphraseCharsetLen, h.index]
    congr 2
    split_ifs <;> omega
  rw [hput]
  exact h.put (by split_ifs <;> omega)

theorem PassEdit.Holds.down (h : e.Holds n v i) : (e.click .down).Holds n v (if i = 0 then 61 else i - 1) := by
  have hv := h.valid
  have hput : e.click .down = PassEdit.put { e with index := (if i = 0 then 61 else i - 1 : Nat) } := by
    simp only [PassEdit.click, passDownClick, passphraseCharsetLen, h.index]
    congr 2
    split_ifs <;> omega
  rw [hput]
  exact h.put (by split_ifs <;> omega)

/-- A new character is a copy of the last. -/
theorem PassEdit.Holds.fwd (h : e.Holds n v i) (hroom : v.length + 2 < n) :
    (e.click .fwd).Holds n (v ++ [charAt i]) i := by
  obtain ⟨ha, hl, hm, hi, hv, hf, hc⟩ := h
  have hlt : e.len < e.maxlen - 1 := by omega
  simp only [PassEdit.click, passFwdClick, if_pos hlt, PassEdit.put]
  refine ⟨?_, by simp [hl], hm, hi, hv, by simp; omega, ?_⟩
  · rw [ha, show e.len + 1 - 1 = e.len by omega,
      show n - v.length - 1 = n - (v ++ [charAt i]).length - 1 + 1 by simp; omega,
      List.replicate_succ, hi, List.append_cons, store_append _ _ _ _ (by simp; omega)]
    rfl
  · intro c hcm
    rcases List.mem_append.1 hcm with hcm | hcm
    · exact hc c hcm
    · rw [List.mem_singleton.1 hcm]
      exact charAt_mem hv

/-- The last character goes, and the index is looked up. -/
theorem PassEdit.Holds.back {x : UInt8} (h : e.Holds n (v ++ [x]) i) :
    ∃ j, charAt j = x ∧ (e.click .back).Holds n v j := by
  obtain ⟨ha, hl, hm, hi, hv, hf, hc⟩ := h
  rw [List.length_append, List.length_singleton] at hl hf
  have hpos : e.len > 1 := by omega
  have hx : x ∈ passphraseCharset := hc x (by simp)
  have hstore : store e.s (e.len - 1) 0 = v ++ x :: List.replicate (n - v.length - 1) 0 := by
    rw [ha, store_append _ _ _ _ (by simp; omega), List.append_assoc, List.length_append, List.length_singleton,
      show n - v.length - 1 = n - (v.length + 1) - 1 + 1 by omega, List.replicate_succ]
    rfl
  have hload : load (v ++ x :: List.replicate (n - v.length - 1) 0) (e.len - 1 - 1) = x :=
    load_append _ _ _ (by omega)
  obtain ⟨j, hj⟩ : ∃ j, passphraseCharset.findIdx? (· == x) = some j := by
    rw [← Option.isSome_iff_exists, List.findIdx?_isSome]
    exact List.any_eq_true.2 ⟨x, hx, beq_self_eq_true x⟩
  obtain ⟨hlt, hjx, -⟩ := List.findIdx?_eq_some_iff_getElem.1 hj
  have hjx : charAt j = x := (charAt_eq hlt).trans (eq_of_beq hjx)
  refine ⟨j, hjx, ?_⟩
  simp only [PassEdit.click, passBackClick, if_pos hpos, hstore, hload, hj]
  refine ⟨by rw [hjx], by simp only; omega, hm, rfl, passphraseCharset_length ▸ hlt, by omega, fun c hcm => ?_⟩
  exact hc c (List.mem_append_left _ hcm)

theorem PassEdit.Holds.back_first (h : e.Holds n [] i) : e.click .back = e :=
  PassEdit.click_idle (decide_eq_false (by rw [h.len]; decide))

theorem PassEdit.Holds.fwd_full (h : e.Holds n v i) (hfull : n ≤ v.length + 2) : e.click .fwd = e :=
  PassEdit.click_idle (decide_eq_false (by rw [h.len, h.maxlen]; omega))

/-- **One click** keeps string, length and index in step. -/
theorem PassEdit.Holds.click (h : e.Holds n v i) (c : PassCtl) : ∃ v' j, (e.click c).Holds n v' j := by
  cases c with
  | up => exact ⟨_, _, h.up⟩
  | down => exact ⟨_, _, h.down⟩
  | fwd =>
    by_cases hroom : v.length + 2 < n
    · exact ⟨_, _, h.fwd hroom⟩
    · exact ⟨v, i, (h.fwd_full (Nat.le_of_not_lt hroom)).symm ▸ h⟩
  | back =>
    rcases List.eq_nil_or_concat v with rfl | ⟨v', x, rfl⟩
    · exact ⟨[], i, h.back_first.symm ▸ h⟩
    · rw [List.concat_eq_append] at h
      obtain ⟨j, -, hj⟩ := h.back
      exact ⟨v', j, hj⟩
  | ok => exact ⟨v, i, h⟩

theorem PassEdit.Holds.run (h : e.Holds n v i) (cs : List PassCtl) :
    ∃ v' j, (Runs.run PassEdit.click e cs).Holds n v' j := by
  induction cs generalizing e v i with
  | nil => exact ⟨v, i, h⟩
  | cons c cs ih =>
    obtain ⟨v', j, h'⟩ := h.click c
    exact ih h'

theorem PassEdit.Holds.size (h : e.Holds n v i) : e.s.length = n := by
  have := h.fits
  rw [h.array, List.length_append, List.length_cons, List.length_replicate]
  omega

theorem PassEdit.Holds.cstr (h : e.Holds n v i) : Ui.cstr e.s = v ++ [charAt i] := by
  have hnul : 0 ∉ v ++ [charAt i] := by
    intro h0
    rcases List.mem_append.1 h0 with h0 | h0
    · exact nul_not_mem_passphraseCharset (h.chars 0 h0)
    · exact nul_not_mem_passphraseCharset (List.mem_singleton.1 h0 ▸ charAt_mem h.valid)
  obtain ⟨room, hroom⟩ : ∃ room, n - v.length - 1 = room + 1 := ⟨n - v.length - 2, by have := h.fits; omega⟩
  rw [h.array, hroom, List.append_cons, cstr_append hnul, List.replicate_succ]
  exact List.append_nil _

/-- The assignments `s[i] = c` of a click. -/
def PassEdit.writes (e : PassEdit) : PassCtl → List (Int × UInt8)
  | .up => [(e.len - 1, load passphraseCharset (passUpClick e).index)]
  | .down => [(e.len - 1, load passphraseCharset (passDownClick e).index)]
  | .back => if e.len > 1 then [(e.len - 1, 0)] else []
  | .fwd => if e.len < e.maxlen - 1 then [(e.len + 1 - 1, load passphraseCharset e.index)] else []
  | .ok => []

/-- They are all a click does to the array. -/
theorem PassEdit.click_writes (e : PassEdit) (c : PassCtl) :
    (e.click c).s = (e.writes c).foldl (fun s w => store s w.1 w.2) e.s := by
  cases c with
  | up => rfl
  | down => rfl
  | back =>
    simp only [PassEdit.click, passBackClick, PassEdit.writes]
    split_ifs
    · split <;> rfl
    · rfl
  | fwd =>
    simp only [PassEdit.click, passFwdClick, PassEdit.writes]
    split_ifs <;> rfl
  | ok => rfl

theorem PassEdit.Holds.writes (h : e.Holds n v i) (c : PassCtl) : ∀ w ∈ e.writes c, 0 ≤ w.1 ∧ w.1 < n := by
  obtain ⟨-, hl, hm, -, -, hf, -⟩ := h
  intro w hw
  cases c <;> simp only [PassEdit.writes] at hw
  case up | down =>
    rw [List.mem_singleton.1 hw]
    exact ⟨by simp only; omega, by simp only; omega⟩
  case back | fwd =>
    split_ifs at hw with hc
    · rw [List.mem_singleton.1 hw]
      exact ⟨by simp only; omega, by simp only; omega⟩
    · cases hw
  case ok => cases hw

/-- String, length and index agree; the stores of a click are its `writes`, inside the array of `n` bytes. -/
structure PassEdit.Ok (e : PassEdit) (n : Nat) : Prop where
  size : e.s.length = n
  len : 1 ≤ e.len ∧ e.len ≤ n - 1
  string : (Ui.cstr e.s).length = e.len
  chars : ∀ c ∈ Ui.cstr e.s, c ∈ passphraseCharset
  index : 0 ≤ e.index ∧ e.index < passphraseCharsetLen
  last : (Ui.cstr e.s).getLast? = some (load passphraseCharset e.index)
  stores : ∀ c, (e.click c).s = (e.writes c).foldl (fun s w => store s w.1 w.2) e.s
  writes : ∀ c, ∀ w ∈ e.writes c, 0 ≤ w.1 ∧ w.1 < n

theorem PassEdit.Holds.ok (h : e.Holds n v i) : e.Ok n := by
  have hl := h.len
  have hf := h.fits
  have hv := h.valid
  refine ⟨h.size, ⟨by omega, by omega⟩, ?_, fun c hc => ?_, ?_, ?_, e.click_writes, h.writes⟩
  · rw [h.cstr, hl, List.length_append, List.length_singleton]
    rfl
  · rw [h.cstr] at hc
    rcases List.mem_append.1 hc with hc | hc
    · exact h.chars c hc
    · exact List.mem_singleton.1 hc ▸ charAt_mem hv
  · rw [h.index]
    exact ⟨Int.natCast_nonneg i, Int.ofNat_lt.2 hv⟩
  · rw [h.cstr, h.index, List.getLast?_concat]
    rfl

end

/-! ## The PIN editor -/

/-- A stack of at most `n - 1` digits. -/
def pinStack (n : Nat) (ds : List UInt8) : PinCtl → List UInt8
  | .digit d => if ds.length = n - 1 then ds else ds ++ [UInt8.ofNat (48 + d)]
  | .back => ds.dropLast
  | .ok => ds

def PinEdit.writes (e : PinEdit) : PinCtl → List (Int × UInt8)
  | .digit d => if e.len < e.maxlen - 1 then [(e.len, UInt8.ofNat (48 + d))] else []
  | .back => if e.len > 0 then [(e.len - 1, 0)] else []
  | .ok => []

theorem PinEdit.click_writes (e : PinEdit) (c : PinCtl) :
    (e.click c).s = (e.writes c).foldl (fun s w => store s w.1 w.2) e.s := by
  cases c with
  | digit d =>
    simp only [PinEdit.click, pinBtnClick, PinEdit.writes]
    split_ifs <;> rfl
  | back =>
    simp only [PinEdit.click, pinBackClick, PinEdit.writes]
    split_ifs <;> rfl
  | ok => rfl

/-- The string is the stack `ds`; the stores of a click are its `writes`, inside the array of `n` bytes. -/
structure PinEdit.Ok (e : PinEdit) (n : Nat) (ds : List UInt8) : Prop where
  size : e.s.length = n
  string : Ui.cstr e.s = ds
  len : e.len = ds.length ∧ e.len ≤ n - 1
  stores : ∀ c, (e.click c).s = (e.writes c).foldl (fun s w => store s w.1 w.2) e.s
  writes : ∀ c, ∀ w ∈ e.writes c, 0 ≤ w.1 ∧ w.1 < n

section

variable {e : PinEdit} {ds : List UInt8} {n room : Nat}

/-- **One click** is one operation of the stack. -/
theorem PinEdit.Typed.pinStack (h : e.Typed ds room) (c : PinCtl) :
    ∃ room', (e.click c).Typed (Ui.pinStack (ds.length + room + 1) ds c) room' ∧
      (Ui.pinStack (ds.length + room + 1) ds c).length + room' = ds.length + room := by
  cases c with
  | digit d =>
    cases room with
    | zero =>
      have hfull : e.click (.digit d) = e :=
        PinEdit.click_idle (c := .digit d) (decide_eq_false (by rw [h.len, h.maxlen]; omega))
      refine ⟨0, ?_, ?_⟩
      · rw [Ui.pinStack, if_pos (by omega), hfull]
        exact h
      · rw [Ui.pinStack, if_pos (by omega)]
    | succ room =>
      refine ⟨room, ?_, ?_⟩
      · rw [Ui.pinStack, if_neg (by omega)]
        exact h.digit d
      · rw [Ui.pinStack, if_neg (by omega), List.length_append, List.length_singleton]
        omega
  | back =>
    rcases List.eq_nil_or_concat ds with rfl | ⟨ds', x, rfl⟩
    · exact ⟨room, (PinEdit.click_idle (c := .back) (decide_eq_false (by rw [h.len]; decide))).symm ▸ h, rfl⟩
    · rw [List.concat_eq_append] at h ⊢
      refine ⟨room + 1, ?_, ?_⟩
      · rw [Ui.pinStack, List.dropLast_concat]
        exact h.back
      · rw [Ui.pinStack, List.dropLast_concat, List.length_append, List.length_singleton]
        omega
  | ok => exact ⟨room, h, rfl⟩

theorem PinEdit.Typed.run (h : e.Typed ds room) (cs : List PinCtl) :
    ∃ room', (Runs.run PinEdit.click e cs).Typed (Runs.run (Ui.pinStack (ds.length + room + 1)) ds cs) room' ∧
      (Runs.run (Ui.pinStack (ds.length + room + 1)) ds cs).length + room' = ds.length + room := by
  induction cs generalizing e ds room with
  | nil => exact ⟨room, h, rfl⟩
  | cons c cs ih =>
    obtain ⟨room', h', hsum⟩ := h.pinStack c
    obtain ⟨room'', h'', hsum'⟩ := ih h'
    rw [hsum] at h'' hsum'
    exact ⟨room'', h'', hsum'⟩

theorem PinEdit.Typed.ok (h : e.Typed ds room) : e.Ok (ds.length + room + 1) ds := by
  have hstring := h.cstr
  obtain ⟨-, ha, hl, hm⟩ := h
  refine ⟨by rw [ha, List.length_append, List.length_replicate]; rfl, hstring, ⟨hl, by omega⟩, e.click_writes,
    fun c w hw => ?_⟩
  cases c <;> simp only [PinEdit.writes] at hw
  case digit | back =>
    split_ifs at hw
    · rw [List.mem_singleton.1 hw]
      exact ⟨by simp only; omega, by simp only; omega⟩
    · cases hw
  case ok => cases hw

end

/-! ## In the interface -/

section

variable {u : Screen} {b : Buf}

theorem Memory.read_write (m : Memory) (b : Buf) (s : List UInt8) : (m.write (some b) s).read (some b) = s := by
  cases b <;> rfl

/-- A click on a button of the passphrase view. -/
def passStep (u : Screen) (c : PassCtl) : Screen := (u.click (.pass c)).1

/-- A click on a button of the PIN view. -/
def pinStep (u : Screen) (c : PinCtl) : Screen := (u.click (.pin c)).1

theorem passStep_edit (hb : u.passCaption = some b) (c : PassCtl) :
    (passStep u c).passCaption = some b ∧ (passStep u c).passEdit = u.passEdit.click c := by
  have hwith : ∀ e : PassEdit, (u.withPass (some b) e).passCaption = some b ∧ (u.withPass (some b) e).passEdit = e := by
    intro e
    exact ⟨rfl, by rw [Screen.passEdit, Screen.withPass, Memory.read_write]⟩
  cases c with
  | ok => exact ⟨hb, rfl⟩
  | up | down | back | fwd =>
    unfold passStep Screen.click
    rw [hb]
    exact hwith _

theorem pinStep_edit (hb : u.pinCaption = some b) (c : PinCtl) :
    (pinStep u c).pinCaption = some b ∧ (pinStep u c).pinEdit = u.pinEdit.click c := by
  have hwith : ∀ e : PinEdit, (u.withPin (some b) e).pinCaption = some b ∧ (u.withPin (some b) e).pinEdit = e := by
    intro e
    exact ⟨rfl, by rw [Screen.pinEdit, Screen.withPin, Memory.read_write]⟩
  cases c with
  | ok => exact ⟨hb, rfl⟩
  | digit | back =>
    unfold pinStep Screen.click
    rw [hb]
    exact hwith _

theorem passStep_run (hb : u.passCaption = some b) (cs : List PassCtl) :
    (run passStep u cs).passCaption = some b ∧ (run passStep u cs).passEdit = run PassEdit.click u.passEdit cs := by
  induction cs generalizing u with
  | nil => exact ⟨hb, rfl⟩
  | cons c cs ih =>
    obtain ⟨hb', he⟩ := passStep_edit hb c
    obtain ⟨hcap, hrun⟩ := ih hb'
    rw [he] at hrun
    exact ⟨hcap, hrun⟩

theorem pinStep_run (hb : u.pinCaption = some b) (cs : List PinCtl) :
    (run pinStep u cs).pinEdit = run PinEdit.click u.pinEdit cs := by
  induction cs generalizing u with
  | nil => rfl
  | cons c cs ih =>
    obtain ⟨hb', he⟩ := pinStep_edit hb c
    have hrun := ih hb'
    rw [he] at hrun
    exact hrun

theorem lcdSetPassphraseBuffer_edit (u : Screen) (b : Buf) {n : Nat} (hn : 1 < n) :
    (lcdSetPassphraseBuffer u b n).passCaption = some b ∧ (lcdSetPassphraseBuffer u b n).passEdit = .fresh n := by
  rw [lcdSetPassphraseBuffer, if_pos hn]
  exact ⟨rfl, by rw [Screen.passEdit, Screen.withPass, Memory.read_write]⟩

theorem lcdSetPinBuffer_edit (u : Screen) (b : Buf) {n : Nat} (hn : 1 < n) :
    (lcdSetPinBuffer u b n).pinCaption = some b ∧ (lcdSetPinBuffer u b n).pinEdit = .fresh n := by
  rw [lcdSetPinBuffer, if_pos hn]
  exact ⟨rfl, by rw [Screen.pinEdit, Screen.withPin, Memory.read_write]⟩

/-- What any clicks make of the passphrase editor. -/
theorem passStep_holds (u : Screen) (b : Buf) {n : Nat} (hn : 1 < n) (cs : List PassCtl) :
    ∃ v i, (run passStep (lcdSetPassphraseBuffer u b n) cs).passEdit.Holds n v i := by
  obtain ⟨hb, he⟩ := lcdSetPassphraseBuffer_edit u b hn
  rw [(passStep_run hb cs).2, he]
  exact (PassEdit.holds_fresh hn).run cs

/-- **The credential editors** keep string, length and index in step under any clicks, and the PIN editor is a stack;
neither writes outside its array. -/
theorem editors_ok (u : Screen) (b : Buf) {n : Nat} (hn : 1 < n) :
    (∀ cs, (run passStep (lcdSetPassphraseBuffer u b n) cs).passEdit.Ok n) ∧
      ∀ cs, (run pinStep (lcdSetPinBuffer u b n) cs).pinEdit.Ok n (run (pinStack n) [] cs) := by
  refine ⟨fun cs => ?_, fun cs => ?_⟩
  · obtain ⟨v, i, h⟩ := passStep_holds u b hn cs
    exact h.ok
  · obtain ⟨n, rfl⟩ : ∃ m, n = m + 1 := ⟨n - 1, by omega⟩
    obtain ⟨hb, he⟩ := lcdSetPinBuffer_edit u b hn
    obtain ⟨room, htyped, hsum⟩ := (PinEdit.typed_fresh n).run cs
    have hsize : ([] : List UInt8).length + n + 1 = n + 1 := by rw [List.length_nil, Nat.zero_add]
    rw [hsize] at htyped hsum
    have hok := htyped.ok
    rw [hsum, hsize] at hok
    rw [pinStep_run hb cs, he]
    exact hok

theorem editors_ok_sample :
    (run passStep (lcdSetPassphraseBuffer (Screen.init ⟨[], [], []⟩) .passphrase 3)
        [.down, .fwd, .fwd, .back]).passEdit.Ok 3 ∧
      (run pinStep (lcdSetPinBuffer (Screen.init ⟨[], [], []⟩) .gPin 3)
        [.back, .digit 7, .digit 1, .digit 2]).pinEdit.Ok 3 [0x37, 0x31] :=
  ⟨(editors_ok _ .passphrase (n := 3) (by decide)).1 _, (editors_ok _ .gPin (n := 3) (by decide)).2 _⟩

end

/-! ## Every passphrase can be typed -/

section

variable {e : PassEdit} {n i : Nat} {v : List UInt8}

/-- The editor gets from `e` to `v` and index `i` by clicks on its four buttons. -/
def PassEdit.Reaches (e : PassEdit) (n : Nat) (v : List UInt8) (i : Nat) : Prop :=
  ∃ cs : List PassCtl, .ok ∉ cs ∧ (Runs.run PassEdit.click e cs).Holds n v i

theorem PassEdit.Reaches.then {e' : PassEdit} {v' : List UInt8} {j : Nat} {cs : List PassCtl} (hcs : .ok ∉ cs)
    (he : Runs.run PassEdit.click e cs = e') (h : e'.Reaches n v' j) : e.Reaches n v' j := by
  obtain ⟨cs', hcs', h'⟩ := h
  refine ⟨cs ++ cs', fun hok => (List.mem_append.1 hok).elim hcs hcs', ?_⟩
  rw [run_append, he]
  exact h'

/-- Back to one character. -/
theorem PassEdit.Holds.reaches_first (h : e.Holds n v i) : ∃ j, e.Reaches n [] j := by
  induction v using List.reverseRecOn generalizing e i with
  | nil => exact ⟨i, [], List.not_mem_nil, h⟩
  | append_singleton v x ih =>
    obtain ⟨j, -, hback⟩ := h.back
    obtain ⟨k, hk⟩ := ih hback
    exact ⟨k, hk.then (show .ok ∉ [PassCtl.back] by decide) rfl⟩

/-- `k` steps up the charset, rolling over at its end. -/
theorem PassEdit.Holds.ups (h : e.Holds n v i) (k : Nat) :
    (Runs.run PassEdit.click e (List.replicate k .up)).Holds n v ((i + k) % 62) := by
  induction k generalizing e i with
  | zero => rwa [Nat.add_zero, Nat.mod_eq_of_lt h.valid]
  | succ k ih =>
    have hnext := ih h.up
    have hidx : ((if i + 1 = 62 then 0 else i + 1) + k) % 62 = (i + (k + 1)) % 62 := by split_ifs <;> omega
    rwa [hidx] at hnext

theorem PassEdit.Holds.reaches_last (h : e.Holds n v i) {j : Nat} (hj : j < 62) : e.Reaches n v j := by
  refine ⟨List.replicate (j + 62 - i) .up, fun hok => ?_, ?_⟩
  · cases List.eq_of_mem_replicate hok
  · have hups := h.ups (j + 62 - i)
    have hv := h.valid
    rwa [show (i + (j + 62 - i)) % 62 = j by omega] at hups

/-- From one character on, any string: each character is made from a copy of the one before. -/
theorem PassEdit.Holds.reaches_append (h : e.Holds n [] i) (w : List UInt8) {c : UInt8}
    (hw : ∀ x ∈ w ++ [c], x ∈ passphraseCharset) (hlen : w.length + 1 < n) : ∃ j, charAt j = c ∧ e.Reaches n w j := by
  induction w using List.reverseRecOn generalizing c with
  | nil =>
    obtain ⟨j, hj, hc⟩ := mem_passphraseCharset (hw c (by simp))
    exact ⟨j, hc, h.reaches_last hj⟩
  | append_singleton w x ih =>
    rw [List.length_append, List.length_singleton] at hlen
    obtain ⟨k, hk, cs, hcs, hx⟩ := ih (c := x) (fun y hy => hw y (List.mem_append_left _ hy)) (by omega)
    obtain ⟨j, hj, hc⟩ := mem_passphraseCharset (hw c (by simp))
    have hfwd := hx.fwd (by omega)
    rw [hk] at hfwd
    have hok : .ok ∉ cs ++ [PassCtl.fwd] := by
      intro hok
      rcases List.mem_append.1 hok with hok | hok
      · exact hcs hok
      · cases List.mem_singleton.1 hok
    exact ⟨j, hc, (hfwd.reaches_last hj).then hok (run_snoc cs .fwd)⟩

end

/-- **Every passphrase can be typed**, from wherever the editor stands. -/
theorem passphrase_typeable (u : Screen) (b : Buf) {n : Nat} (hn : 1 < n) (before : List PassCtl) (w : List UInt8)
    (hw : ∀ c ∈ w, c ∈ passphraseCharset) (hpos : 1 ≤ w.length) (hlen : w.length ≤ n - 1) :
    ∃ cs : List PassCtl, .ok ∉ cs ∧
      (run passStep (lcdSetPassphraseBuffer u b n) (before ++ cs)).mem.get b = w ++ List.replicate (n - w.length) 0 := by
  obtain ⟨v, i, h⟩ := passStep_holds u b hn before
  obtain ⟨j, cs1, hcs1, h1⟩ := h.reaches_first
  obtain ⟨w', c, rfl⟩ : ∃ w' c, w = w' ++ [c] := by
    rcases List.eq_nil_or_concat w with rfl | ⟨w', c, rfl⟩
    · exact absurd hpos (by decide)
    · exact ⟨w', c, List.concat_eq_append ..⟩
  rw [List.length_append, List.length_singleton] at hlen
  obtain ⟨k, hk, cs2, hcs2, h2⟩ := h1.reaches_append w' hw (by omega)
  refine ⟨cs1 ++ cs2, fun hok => (List.mem_append.1 hok).elim hcs1 hcs2, ?_⟩
  obtain ⟨hcap, hedit⟩ := passStep_run (passStep_run (lcdSetPassphraseBuffer_edit u b hn).1 before).1 (cs1 ++ cs2)
  have harray := h2.array
  rw [← run_append, ← hedit, Screen.passEdit, hcap, hk, List.append_cons] at harray
  rw [run_append, List.length_append, List.length_singleton, Nat.sub_add_eq]
  exact harray

/-- In four bytes, from `A` to `CAB`. -/
theorem passphrase_typeable_sample : ∃ cs : List PassCtl, .ok ∉ cs ∧
    (run passStep (lcdSetPassphraseBuffer (Screen.init ⟨[], [], []⟩) .passphrase 4) ([.down, .fwd] ++ cs)).mem.get
      .passphrase = [0x43, 0x41, 0x42] ++ List.replicate 1 0 :=
  passphrase_typeable _ .passphrase (n := 4) (by decide) [.down, .fwd] [0x43, 0x41, 0x42] (by decide +kernel)
    (by decide) (by decide)

end Keynjector.Ui
