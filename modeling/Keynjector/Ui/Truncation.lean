import Mathlib.Algebra.GroupWithZero.Nat
import Keynjector.Lib.Loop
import Keynjector.Ui.Text
/-
# Text cut to its width (ui.c:196-241, 277-284)

| here | there |
| --- | --- |
| `PlainChar`          | a plain `char` as the build reads it: unsigned on ARM |
| `CString`            | `char const *s` with its terminating NUL |
| `turns`              | `c` and `advance` of `for (i = 0; i < (int)s_len; i++)` (`:216-231`, `:321-343`) |
| `CString.textWidth`  | `text_width`, `size_t` and the casts to `int` included |
| `CString.truncate`   | the loop on `s_len` of `draw_text` |
| `spanWidth`          | the width of a text |
| `LongestFit`         | the longest prefix that fits |

`FULL_LENGTH` is 0, so a loop that comes down to 0 measures the whole text again, steps to
`SIZE_MAX` and reads that back as -1, where no character is left to measure.
-/

namespace Keynjector.Ui

open Loop

inductive PlainChar where
  | unsigned
  | signed
deriving DecidableEq, Repr

def PlainChar.read : PlainChar → Nat → Int
  | .unsigned, v => v
  | .signed, v => if v < 128 then v else v - 256

/-- A string of a 32-bit address space: no object is larger than `PTRDIFF_MAX`. -/
structure CString where
  chars : List UInt8
  noNul : 0 ∉ chars
  short : chars.length < 2 ^ 31

def CString.memory (s : CString) : List UInt8 := s.chars ++ [0]

def CString.strlen (s : CString) : BitVec 32 := BitVec.ofNat 32 s.chars.length

/-- The character the kerning is for; there is none after the last turn. -/
def kerningChar (mem : List UInt8) (sLen : BitVec 32) (i : Nat) : Option (Option UInt8) :=
  if (i : Int) < (sLen - 1).toInt then (mem[i + 1]?).map some else some none

/-- The last `n` turns, from `i` on. -/
def turns (mem : List UInt8) (sLen : BitVec 32) : Nat → Nat → Option (List (UInt8 × Int))
  | 0, _ => some []
  | n + 1, i => do
    let c ← mem[i]?
    let next ← kerningChar mem sLen i
    let rest ← turns mem sLen n (i + 1)
    some ((c, kernedAdvance c next) :: rest)

/-- `x` of `text_width` after a character. -/
def widen (pc : PlainChar) (x : Int) (t : UInt8 × Int) : Int :=
  let xoffset := pc.read (charCoord t.1).xoffset
  (if xoffset < 0 then x + xoffset else x) + t.2

def CString.textWidth (s : CString) (pc : PlainChar) (sLen : BitVec 32) : Option Int := do
  let sLen := if sLen = 0 then s.strlen else sLen
  let ts ← turns s.memory sLen sLen.toInt.toNat 0
  some (ts.foldl (widen pc) 0)

/-- `s_width > width`, on `s_len` and `s_width`. -/
def tooWide (width : Int) (t : BitVec 32 × Int) : Option Bool := some (decide (t.2 > width))

/-- The loop's body. -/
def CString.dropChar (s : CString) (pc : PlainChar) (t : BitVec 32 × Int) : Option (BitVec 32 × Int) := do
  let sLen := t.1 - 1
  let sWidth ← s.textWidth pc sLen
  some (sLen, sWidth)

/-- `s_len` and `s_width` at the end of the loop. -/
def CString.truncate (s : CString) (pc : PlainChar) (width : Int) : Option (BitVec 32 × Int) := do
  let sWidth ← s.textWidth pc 0
  whileLoop (tooWide width) (s.dropChar pc) (s.chars.length + 2) (s.strlen, sWidth)

/-! ## The width of a text -/

/-- Each character of a text with its advance. -/
def advances : List UInt8 → List (UInt8 × Int)
  | [] => []
  | c :: s => (c, kernedAdvance c s.head?) :: advances s

def spanWidth (pc : PlainChar) (s : List UInt8) : Int := (advances s).foldl (widen pc) 0

/-- The first `n` characters are the longest prefix no wider than `width`; none are if no
prefix of a character or more is. -/
structure LongestFit (pc : PlainChar) (s : List UInt8) (width : Int) (n : Nat) : Prop where
  le : n ≤ s.length
  fits : 0 < n → spanWidth pc (s.take n) ≤ width
  longer : ∀ m, n < m → m ≤ s.length → width < spanWidth pc (s.take m)

section

variable {s : CString} {sLen : BitVec 32}

theorem CString.strlen_toInt (s : CString) : s.strlen.toInt = s.chars.length := by
  have := s.short
  rw [CString.strlen, BitVec.toInt_eq_toNat_of_lt] <;> rw [BitVec.toNat_ofNat] <;> omega

theorem toInt_sub_one (h : -1 < sLen.toInt) : (sLen - 1).toInt = sLen.toInt - 1 := by
  have := sLen.toInt_lt
  rw [BitVec.toInt_sub, Int.bmod_eq_of_le] <;> simp at * <;> omega

/-- The turns are the characters before `(int)s_len`. -/
theorem turns_eq {mem t : List UInt8} (hmem : ∀ i, i < t.length → mem[i]? = t[i]?) (hlen : sLen.toInt = t.length)
    (n i : Nat) (hn : i + n = t.length) : turns mem sLen n i = some (advances (t.drop i)) := by
  induction n generalizing i with
  | zero => rw [List.drop_of_length_le (by omega), turns, advances]
  | succ n ih =>
    have hi : i < t.length := by omega
    have hnext : kerningChar mem sLen i = some (t.drop (i + 1)).head? := by
      rw [kerningChar, toInt_sub_one (by omega), hlen, List.head?_drop]
      split_ifs with h
      · rw [hmem _ (by omega), List.getElem?_eq_getElem (by omega), Option.map_some]
      · rw [List.getElem?_eq_none (by omega)]
    rw [List.drop_eq_getElem_cons hi, advances, turns, hmem i hi, List.getElem?_eq_getElem hi, hnext,
      ih (i + 1) (by omega)]
    rfl

theorem CString.turns_take (s : CString) (h : sLen.toInt ≤ s.chars.length) :
    turns s.memory sLen sLen.toInt.toNat 0 = some (advances (s.chars.take sLen.toInt.toNat)) := by
  by_cases h0 : sLen.toInt ≤ 0
  · rw [show sLen.toInt.toNat = 0 by omega]
    rfl
  · have ht : (s.chars.take sLen.toInt.toNat).length = sLen.toInt.toNat := by
      rw [List.length_take]
      omega
    refine turns_eq (fun i hi => ?_) (by omega) _ _ (by omega)
    rw [CString.memory, List.getElem?_append_left (by omega), List.getElem?_take_of_lt (by omega)]

/-- The part of the text that `text_width` measures. -/
def CString.measured (s : CString) (sLen : BitVec 32) : List UInt8 :=
  if sLen = 0 then s.chars else s.chars.take sLen.toInt.toNat

theorem CString.textWidth_eq (s : CString) (pc : PlainChar) (h : sLen.toInt ≤ s.chars.length) :
    s.textWidth pc sLen = some (spanWidth pc (s.measured sLen)) := by
  rw [CString.textWidth, CString.measured]
  by_cases h0 : sLen = 0
  · have ht := s.turns_take (Int.le_of_eq s.strlen_toInt)
    rw [s.strlen_toInt, Int.toNat_natCast, List.take_length] at ht
    simp only [h0, if_true, s.strlen_toInt, Int.toNat_natCast, ht]
    rfl
  · simp only [h0, if_false, s.turns_take h]
    rfl

/-- Nothing longer than where the loop stands fits, and `s_width` is the width there; -1 is the
length after 0. -/
structure Shortened (s : CString) (pc : PlainChar) (width : Int) (sLen : BitVec 32) (sWidth : Int) : Prop where
  lower : -1 ≤ sLen.toInt
  upper : sLen.toInt ≤ s.chars.length
  sWidth : sWidth = spanWidth pc (s.measured sLen)
  longer : ∀ m : Nat, sLen.toInt < m → 0 < m → m ≤ s.chars.length → width < spanWidth pc (s.chars.take m)

theorem measured_neg (h : sLen.toInt < 0) : s.measured sLen = [] := by
  rw [CString.measured, if_neg, show sLen.toInt.toNat = 0 by omega, List.take_zero]
  rintro rfl
  exact absurd h (by decide)

theorem measured_pos (h : 0 < sLen.toInt) : s.measured sLen = s.chars.take sLen.toInt.toNat := by
  rw [CString.measured, if_neg]
  rintro rfl
  exact absurd h (by decide)

variable {pc : PlainChar} {width sWidth : Int}

theorem Shortened.start (s : CString) (pc : PlainChar) (width : Int) :
    Shortened s pc width s.strlen (spanWidth pc s.chars) := by
  have hlen := s.strlen_toInt
  refine ⟨by omega, by omega, ?_, fun m hm h0 hle => by omega⟩
  rw [CString.measured, hlen, Int.toNat_natCast, List.take_length, ite_self]

theorem Shortened.next (h : Shortened s pc width sLen sWidth) (hw : 0 ≤ width) (hwide : width < sWidth) :
    Shortened s pc width (sLen - 1) (spanWidth pc (s.measured (sLen - 1))) ∧
      (sLen - 1).toInt = sLen.toInt - 1 := by
  obtain ⟨hlower, hupper, rfl, hlonger⟩ := h
  -- at -1 nothing is measured, and the loop has ended
  have hpos : -1 < sLen.toInt := by
    refine Int.lt_of_not_ge fun hneg => ?_
    rw [measured_neg (by omega)] at hwide
    exact absurd hwide (Int.not_lt.2 hw)
  have hsub := toInt_sub_one hpos
  refine ⟨⟨by omega, by omega, rfl, fun m hm h0 hle => ?_⟩, hsub⟩
  by_cases heq : sLen.toInt = m
  · rw [measured_pos (by omega), heq, Int.toNat_natCast] at hwide
    exact hwide
  · exact hlonger m (by omega) h0 hle

theorem Shortened.dropChar {t : BitVec 32 × Int} (h : Shortened s pc width t.1 t.2) (hw : 0 ≤ width)
    (hwide : width < t.2) : ∃ t', s.dropChar pc t = some t' ∧ Shortened s pc width t'.1 t'.2 ∧
      (t'.1.toInt + 1).toNat < (t.1.toInt + 1).toNat := by
  obtain ⟨hnext, hsub⟩ := h.next hw hwide
  refine ⟨(t.1 - 1, spanWidth pc (s.measured (t.1 - 1))), ?_, hnext, ?_⟩
  · rw [CString.dropChar, s.textWidth_eq pc hnext.upper]
    rfl
  · have := hnext.lower
    simp only
    omega

/-- At 0 the whole text fits only if it is empty. -/
theorem Shortened.width_eq (h : Shortened s pc width sLen sWidth) (hfit : sWidth ≤ width) :
    sWidth = spanWidth pc (s.chars.take sLen.toInt.toNat) := by
  obtain ⟨hlower, hupper, rfl, hlonger⟩ := h
  rcases Int.lt_trichotomy sLen.toInt 0 with hneg | h0 | hpos
  · rw [measured_neg hneg, show sLen.toInt.toNat = 0 by omega, List.take_zero]
  · obtain rfl : sLen = 0 := BitVec.eq_of_toInt_eq h0
    rw [CString.measured, if_pos rfl] at hfit ⊢
    cases hchars : s.chars with
    | nil => rw [List.take_nil]
    | cons c cs =>
      have hall := hlonger s.chars.length (by rw [h0, hchars, List.length_cons]; omega)
        (by rw [hchars, List.length_cons]; omega) (Nat.le_refl _)
      rw [List.take_length] at hall
      omega
  · rw [measured_pos hpos]

theorem CString.truncate_fit (s : CString) (pc : PlainChar) {width : Int} (hw : 0 ≤ width) :
    ∃ sLen sWidth, s.truncate pc width = some (sLen, sWidth) ∧
      LongestFit pc s.chars width sLen.toInt.toNat ∧
      turns s.memory sLen sLen.toInt.toNat 0 = some (advances (s.chars.take sLen.toInt.toNat)) ∧
      sWidth = spanWidth pc (s.chars.take sLen.toInt.toNat) ∧ sWidth ≤ width := by
  have hstart := Shortened.start s pc width
  have hfuel : (s.strlen.toInt + 1).toNat < s.chars.length + 2 := by
    rw [s.strlen_toInt]
    omega
  obtain ⟨⟨sLen, sWidth⟩, hrun, hend, hdone⟩ := whileLoop_spec
    (fun t : BitVec 32 × Int => Shortened s pc width t.1 t.2) (fun t => (t.1.toInt + 1).toNat)
    (fun t _ => ⟨_, (rfl : tooWide width t = _)⟩) (fun t ht hgo => ht.dropChar hw (by simpa [tooWide] using hgo))
    (show Shortened s pc width (s.strlen, spanWidth pc s.chars).1 (s.strlen, spanWidth pc s.chars).2 from hstart) hfuel
  have hfit : sWidth ≤ width := by simpa [tooWide] using hdone
  have hwidth := hend.width_eq hfit
  have hupper : sLen.toInt ≤ s.chars.length := hend.upper
  have hfirst := s.textWidth_eq pc (show (0 : BitVec 32).toInt ≤ s.chars.length by simp)
  refine ⟨sLen, sWidth, ?_, ⟨by omega, fun _ => hwidth ▸ hfit, fun m hm hle => ?_⟩, s.turns_take hupper, hwidth, hfit⟩
  · rw [CString.truncate, hfirst]
    exact hrun
  · exact hend.longer m (by simp only; omega) (by omega) hle

/-- **The loop ends on the longest prefix that fits**, from the whole text downwards, and the
turns after it are that prefix. -/
theorem CString.truncate_longest (s : CString) (pc : PlainChar) {width : Int} (hw : 0 ≤ width) :
    ∃ sLen sWidth, s.truncate pc width = some (sLen, sWidth) ∧
      LongestFit pc s.chars width sLen.toInt.toNat ∧
      turns s.memory sLen sLen.toInt.toNat 0 = some (advances (s.chars.take sLen.toInt.toNat)) := by
  obtain ⟨sLen, sWidth, hrun, hlongest, hturns, -⟩ := s.truncate_fit pc hw
  exact ⟨sLen, sWidth, hrun, hlongest, hturns⟩

theorem truncate_longest_sample : ∃ s : CString, s.chars = [0x41, 0x56] ∧ (0 : Int) ≤ 12 ∧
    ∃ sLen sWidth, s.truncate .unsigned 12 = some (sLen, sWidth) ∧
      LongestFit .unsigned s.chars 12 sLen.toInt.toNat := by
  let s : CString := ⟨[0x41, 0x56], by decide, by decide⟩
  obtain ⟨sLen, sWidth, hrun, hlongest, -⟩ := s.truncate_longest .unsigned (show (0 : Int) ≤ 12 by decide)
  exact ⟨s, rfl, by decide, sLen, sWidth, hrun, hlongest⟩

/-! ## The loop without the machine integers -/

theorem LongestFit.unique {t : List UInt8} {n m : Nat} (h : LongestFit pc t width n) (h' : LongestFit pc t width m) :
    n = m := by
  rcases Nat.lt_trichotomy n m with hlt | heq | hgt
  · exact absurd (h'.fits (by omega)) (Int.not_le.2 (h.longer m hlt h'.le))
  · exact heq
  · exact absurd (h.fits (by omega)) (Int.not_le.2 (h'.longer n hgt h.le))

theorem widen_unsigned (x : Int) (t : UInt8 × Int) : widen .unsigned x t = x + t.2 := by
  rw [widen, PlainChar.read, if_neg (by omega)]

theorem spanWidth_unsigned (t : List UInt8) : spanWidth .unsigned t = runWidth t := by
  have key : ∀ (t : List UInt8) (x : Int), (advances t).foldl (widen .unsigned) x = x + runWidth t := by
    intro t
    induction t with
    | nil => exact fun x => (Int.add_zero x).symm
    | cons c t ih =>
      intro x
      rw [advances, List.foldl_cons, widen_unsigned, ih]
      cases t with
      | nil => simp [runWidth]
      | cons c2 t => simp only [runWidth, List.head?_cons, Int.add_assoc]
  rw [spanWidth, key, Int.zero_add]

/-- `shorten` stops at the same prefix. -/
theorem shorten_longest (t : List UInt8) (n : Nat) (hn : n ≤ t.length)
    (hlonger : ∀ m, n < m → m ≤ t.length → width < spanWidth .unsigned (t.take m)) :
    LongestFit .unsigned t width (shorten t width n (textWidth t n)).1.toNat ∧
      (shorten t width n (textWidth t n)).2 =
        spanWidth .unsigned (t.take (shorten t width n (textWidth t n)).1.toNat) := by
  induction n with
  | zero =>
    unfold shorten
    split_ifs with hwide
    · exact ⟨⟨Nat.zero_le _, fun h => absurd h (Nat.lt_irrefl 0), hlonger⟩, rfl⟩
    · have hnil : t = [] := by
        refine List.eq_nil_of_length_eq_zero (Nat.eq_zero_of_not_pos fun hpos => hwide ?_)
        have := hlonger t.length hpos (Nat.le_refl _)
        rwa [List.take_length, spanWidth_unsigned] at this
      subst hnil
      exact ⟨⟨Nat.zero_le _, fun h => absurd h (Nat.lt_irrefl 0), hlonger⟩, rfl⟩
  | succ n ih =>
    have hn1 : textWidth t (n + 1 : Nat) = spanWidth .unsigned (t.take (n + 1)) := by
      rw [textWidth, if_neg (by omega), spanWidth_unsigned, Int.toNat_natCast]
    unfold shorten
    split_ifs with hwide
    · refine ih (by omega) fun m hm hle => ?_
      by_cases heq : m = n + 1
      · rw [heq, ← hn1]
        exact hwide
      · exact hlonger m (by omega) hle
    · exact ⟨⟨hn, fun _ => hn1 ▸ Int.not_lt.1 hwide, hlonger⟩, hn1⟩

theorem shorten_fit (t : List UInt8) (width : Int) :
    LongestFit .unsigned t width (shorten t width t.length (textWidth t 0)).1.toNat ∧
      (shorten t width t.length (textWidth t 0)).2 =
        spanWidth .unsigned (t.take (shorten t width t.length (textWidth t 0)).1.toNat) := by
  have hfull : textWidth t 0 = textWidth t t.length := by simp [textWidth]
  rw [hfull]
  exact shorten_longest t t.length (Nat.le_refl _) fun m hm hle => by omega

/-- **`truncate` refines `shorten`**: the same characters, of the same width. -/
theorem CString.truncate_shorten (s : CString) (hw : 0 ≤ width) :
    ∃ sLen, s.truncate .unsigned width =
        some (sLen, (shorten s.chars width s.chars.length (Ui.textWidth s.chars 0)).2) ∧
      turns s.memory sLen sLen.toInt.toNat 0 =
        some (advances (s.chars.take (shorten s.chars width s.chars.length (Ui.textWidth s.chars 0)).1.toNat)) := by
  obtain ⟨sLen, sWidth, hrun, hlongest, hturns, hwidth, -⟩ := s.truncate_fit .unsigned hw
  obtain ⟨hshort, hsWidth⟩ := shorten_fit s.chars width
  have hn := hlongest.unique hshort
  exact ⟨sLen, by rw [hrun, hwidth, hsWidth, hn], by rw [hturns, hn]⟩

end

end Keynjector.Ui
