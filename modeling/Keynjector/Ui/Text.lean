import Keynjector.Ui.Font
/-
# Text drawing (`draw_text`, ui.c:251-535)

| here | there |
| --- | --- |
| `shorten`             | the loop that drops characters until the text fits (`:278-284`) |
| `padRows`, `textRows` | the row loops of the margins, the pads and the glyph cell |
| `clipRows`            | the row clipping of one glyph (`:364-386`) |
| `drawChar`            | one turn of the character loop (`:320-506`) |
| `drawText`            | `draw_text` |

A `Window` is what one `lcd_select_window` receives: its corners and the rows of
pixels written to it. Colours are left out; each row keeps the alpha it reads. A
read beyond the alpha array is `none`.
-/

namespace Keynjector.Ui

/-- One row of pixels and the alpha read for it, if any. -/
structure PixelRow where
  y : Int
  pixels : Nat
  alpha : Option UInt8
deriving DecidableEq, Repr

structure Window where
  x : Int
  y : Int
  x1 : Int
  y1 : Int
  rows : List PixelRow
deriving DecidableEq, Repr

/-- How `draw_text` reads its alphas: the array, whether it steps through it
(`dalpha`), and whether the background is filled (`back_fill`). -/
structure Pen where
  alpha : List UInt8
  dalpha : Bool
  backFill : Bool
deriving DecidableEq, Repr

/-- The alpha offset `n` rows down. -/
def Pen.offset (p : Pen) (n : Int) : Nat := if p.dalpha then n.toNat else 0

/-- A character string ends at its first NUL. -/
def cstr (s : List UInt8) : List UInt8 := s.takeWhile (· ≠ 0)

theorem cstr_append {bs : List UInt8} (hnul : 0 ∉ bs) (rest : List UInt8) : cstr (bs ++ rest) = bs ++ cstr rest := by
  refine List.takeWhile_append_of_pos fun c hc => decide_eq_true ?_
  rintro rfl
  exact hnul hc

/-- `n` rows from `y` on with the alpha pointer at offset `k`. -/
def textRows (p : Pen) (reads : Bool) (pixels : Int) : Nat → Int → Nat → Option (List PixelRow)
  | 0, _, _ => some []
  | n + 1, y, k => do
    let a ← if reads then (p.alpha[k]?).map some else some none
    let rest ← textRows p reads pixels n (y + 1) (if p.dalpha then k + 1 else k)
    some (⟨y, pixels.toNat, a⟩ :: rest)

/-- Rows of a margin or a pad: the alpha counts only when the background is filled. -/
def padRows (p : Pen) (pixels n y : Int) (k : Nat) : Option (List PixelRow) :=
  textRows p p.backFill pixels n.toNat y k

/-- The loop on `s_len`. At 0 the width measured is again that of the whole text, so a
text too wide down to its first character leaves the loop at -1. -/
def shorten (s : List UInt8) (width : Int) : Nat → Int → Int × Int
  | 0, sWidth => if sWidth > width then (-1, textWidth s (-1)) else (0, sWidth)
  | n + 1, sWidth => if sWidth > width then shorten s width n (textWidth s n) else (n + 1, sWidth)

/-- Rows of a glyph above, in and below its cell. -/
structure GlyphRows where
  topPad : Int
  cHeight : Int
  bottomPad : Int
deriving DecidableEq, Repr

/-- `n` rows off the top: out of the pad, then the cell, then the pad below. -/
def GlyphRows.cutTop (g : GlyphRows) (n : Int) : GlyphRows :=
  let g := { g with topPad := g.topPad - n }
  let g := if g.topPad < 0 then { g with cHeight := g.cHeight + g.topPad, topPad := 0 } else g
  if g.cHeight < 0 then { g with bottomPad := g.bottomPad + g.cHeight, cHeight := 0 } else g

/-- `n` rows off the bottom. -/
def GlyphRows.cutBottom (g : GlyphRows) (n : Int) : GlyphRows :=
  let g := { g with bottomPad := g.bottomPad - n }
  let g := if g.bottomPad < 0 then { g with cHeight := g.cHeight + g.bottomPad, bottomPad := 0 } else g
  if g.cHeight < 0 then { g with topPad := g.topPad + g.cHeight, cHeight := 0 } else g

/-- The rows of a glyph clipped to `height` rows from `yStart`. -/
def clipRows (yoffset cHeight yStart height : Int) : GlyphRows :=
  let g : GlyphRows := ⟨yoffset, cHeight, fontHeight - yoffset - cHeight⟩
  (g.cutTop yStart).cutBottom (fontHeight - yStart - height)

def rightPad (c : UInt8) (advance : Int) : Int :=
  let leftPad : Int := (charCoord c).xoffset
  if advance > leftPad + (charCoord c).width then advance - leftPad - (charCoord c).width else 0

def totalWidth (c : UInt8) (advance : Int) : Int :=
  (charCoord c).xoffset + (charCoord c).width + rightPad c advance

/-- Whether a row of the glyph cell reads its alpha: for a pixel of the cell, or to fill a pad. -/
def cellReads (p : Pen) (c : UInt8) (advance : Int) : Bool :=
  0 < (charCoord c).width || p.backFill && 0 < (charCoord c).xoffset + rightPad c advance

/-- The window of character `c` at column `x`, `advance` being its kerned advance. -/
def drawChar (p : Pen) (yStart height x y0 : Int) (c : UInt8) (advance : Int) : Option Window := do
  let w := totalWidth c advance
  let g := clipRows (charCoord c).yoffset (charCoord c).height yStart height
  let top ← padRows p w g.topPad y0 (p.offset 0)
  let cell ← textRows p (cellReads p c advance) w g.cHeight.toNat (y0 + g.topPad) (p.offset g.topPad)
  let bottom ← padRows p w g.bottomPad (y0 + g.topPad + g.cHeight) (p.offset (g.topPad + g.cHeight))
  some ⟨x, y0, x + w - 1, y0 + height - 1, top ++ cell ++ bottom⟩

/-- The character loop: the windows and the column after the last character. -/
def drawChars (p : Pen) (yStart height y0 : Int) : List UInt8 → Int → Option (List Window × Int)
  | [], x => some ([], x)
  | c :: s, x => do
    let advance := kernedAdvance c s.head?
    let w ← drawChar p yStart height x y0 c advance
    let (ws, x') ← drawChars p yStart height y0 s (x + advance)
    some (w :: ws, x')

/-- `draw_text`. With a negative width the first loop never ends inside the string, so
no window is selected. -/
def drawText (str : List UInt8) (x y yStart width height : Int) (p : Pen) : Option (List Window) := do
  if width < 0 then some [] else
  let s := cstr str
  let (sLen, sWidth) := shorten s width s.length (textWidth s 0)
  let leftMargin := (width - sWidth) / 2
  let rightMargin := width - leftMargin - sWidth
  let left ← padRows p leftMargin height y (p.offset 0)
  let (chars, x') ← drawChars p yStart height y (s.take sLen.toNat) (x + leftMargin)
  let right ← padRows p rightMargin height y (p.offset 0)
  some (⟨x, y, x + leftMargin - 1, y + height - 1, left⟩ :: chars ++
    [⟨x', y, x' + rightMargin - 1, y + height - 1, right⟩])

/-! ## Alpha accesses -/

/-- The alphas at hand cover `n` rows. -/
def Pen.Covers (p : Pen) (n : Int) : Prop :=
  if p.dalpha then n ≤ p.alpha.length else 0 < p.alpha.length

theorem textRows_some {p : Pen} (reads : Bool) (pixels : Int) (n : Nat) (y k : Int) (hk : 0 ≤ k)
    (h : p.Covers (k + n)) : ∃ rows, textRows p reads pixels n y (p.offset k) = some rows := by
  induction n generalizing y k with
  | zero => exact ⟨[], rfl⟩
  | succ n ih =>
    have hlt : p.offset k < p.alpha.length := by
      simp only [Pen.Covers, Pen.offset] at h ⊢
      split_ifs at h ⊢ <;> omega
    have hnext : (if p.dalpha then p.offset k + 1 else p.offset k) = p.offset (k + 1) := by
      unfold Pen.offset
      split_ifs <;> omega
    obtain ⟨rest, hrest⟩ := ih (y + 1) (k + 1) (by omega) (by
      rw [show k + 1 + (n : Int) = k + (n + 1 : Nat) by omega]
      exact h)
    cases reads <;> simp [textRows, hnext, hrest, List.getElem?_eq_getElem hlt]

theorem padRows_some {p : Pen} (pixels : Int) {n : Int} (y k : Int) (hk : 0 ≤ k) (hn : 0 ≤ n) (h : p.Covers (k + n)) :
    ∃ rows, padRows p pixels n y (p.offset k) = some rows :=
  textRows_some _ _ _ _ _ hk (by rwa [Int.toNat_of_nonneg hn])

theorem Pen.Covers.mono {p : Pen} {m n : Int} (h : p.Covers n) (hm : m ≤ n) : p.Covers m := by
  simp only [Pen.Covers] at h ⊢
  split_ifs at h ⊢ <;> omega

structure GlyphRows.Holds (g : GlyphRows) (n : Int) : Prop where
  topPad : 0 ≤ g.topPad
  cHeight : 0 ≤ g.cHeight
  bottomPad : 0 ≤ g.bottomPad
  sum : g.topPad + g.cHeight + g.bottomPad = n

theorem GlyphRows.Holds.cutTop {g : GlyphRows} {n m : Int} (h : g.Holds n) (hm : m ≤ n) :
    (g.cutTop m).Holds (n - m) := by
  obtain ⟨h1, h2, h3, rfl⟩ := h
  by_cases ht : g.topPad - m < 0
  · by_cases hc : g.cHeight + (g.topPad - m) < 0 <;>
      constructor <;> simp only [GlyphRows.cutTop, ht, hc, if_true, if_false] <;> omega
  · have hc : ¬ g.cHeight < 0 := by omega
    constructor <;> simp only [GlyphRows.cutTop, ht, hc, if_false] <;> omega

theorem GlyphRows.Holds.cutBottom {g : GlyphRows} {n m : Int} (h : g.Holds n) (hm : m ≤ n) :
    (g.cutBottom m).Holds (n - m) := by
  obtain ⟨h1, h2, h3, rfl⟩ := h
  by_cases hb : g.bottomPad - m < 0
  · by_cases hc : g.cHeight + (g.bottomPad - m) < 0 <;>
      constructor <;> simp only [GlyphRows.cutBottom, hb, hc, if_true, if_false] <;> omega
  · have hc : ¬ g.cHeight < 0 := by omega
    constructor <;> simp only [GlyphRows.cutBottom, hb, hc, if_false] <;> omega

/-- The clipped parts of a glyph that fits the font add up to the height drawn. -/
theorem clipRows_holds {yoffset cHeight : Nat} {yStart height : Int} (hg : (yoffset : Int) + cHeight ≤ fontHeight)
    (hh : 0 ≤ height) (hb : yStart + height ≤ fontHeight) :
    (clipRows yoffset cHeight yStart height).Holds height := by
  have h : GlyphRows.Holds ⟨yoffset, cHeight, fontHeight - yoffset - cHeight⟩ fontHeight := by
    constructor <;> simp only <;> omega
  have h' := (h.cutTop (m := yStart) (by omega)).cutBottom (m := fontHeight - yStart - height) (by omega)
  rwa [show fontHeight - yStart - (fontHeight - yStart - height) = height by omega] at h'

variable {p : Pen} {yStart height : Int}

theorem drawChar_some (hh : 0 ≤ height) (hb : yStart + height ≤ fontHeight)
    (ha : p.Covers height) (x y0 : Int) (c : UInt8) (advance : Int) :
    ∃ w, drawChar p yStart height x y0 c advance = some w := by
  have hg : ((charCoord c).yoffset : Int) + (charCoord c).height ≤ fontHeight := by
    have := yoffset_add_height_le c
    unfold fontHeight
    omega
  obtain ⟨g, hclip⟩ : ∃ g, clipRows (charCoord c).yoffset (charCoord c).height yStart height = g := ⟨_, rfl⟩
  obtain ⟨ht, hr, hbot, hsum⟩ := hclip ▸ clipRows_holds hg hh hb
  obtain ⟨top, htop⟩ := padRows_some (totalWidth c advance) y0 0 (Int.le_refl 0) ht (ha.mono (by omega))
  obtain ⟨cell, hcell⟩ := textRows_some (cellReads p c advance) (totalWidth c advance)
    g.cHeight.toNat (y0 + g.topPad) g.topPad ht (ha.mono (by omega))
  obtain ⟨bottom, hbottom⟩ := padRows_some (totalWidth c advance) (y0 + g.topPad + g.cHeight)
    (g.topPad + g.cHeight) (by omega) hbot (ha.mono (by omega))
  simp [drawChar, hclip, htop, hcell, hbottom]

theorem drawChars_some (hh : 0 ≤ height) (hb : yStart + height ≤ fontHeight)
    (ha : p.Covers height) (y0 : Int) (s : List UInt8) (x : Int) :
    ∃ r, drawChars p yStart height y0 s x = some r := by
  induction s generalizing x with
  | nil => exact ⟨_, rfl⟩
  | cons c s ih =>
    obtain ⟨w, hw⟩ := drawChar_some hh hb ha x y0 c (kernedAdvance c s.head?)
    obtain ⟨r, hr⟩ := ih (x + kernedAdvance c s.head?)
    simp [drawChars, hw, hr]

/-- **No alpha is read past the array**: a slice of the font's line that the alphas cover
is drawn to the end, whatever the text and the width. -/
theorem drawText_some (hh : 0 ≤ height) (hb : yStart + height ≤ fontHeight)
    (ha : p.Covers height) (s : List UInt8) (x y width : Int) :
    ∃ ws, drawText s x y yStart width height p = some ws := by
  by_cases hw : width < 0
  · exact ⟨[], by simp [drawText, hw]⟩
  obtain ⟨l, hl⟩ : ∃ l, shorten (cstr s) width (cstr s).length (textWidth (cstr s) 0) = l := ⟨_, rfl⟩
  have hm : ∀ m, ∃ rows, padRows p m height y (p.offset 0) = some rows := fun m =>
    padRows_some m y 0 (Int.le_refl 0) hh (by simpa using ha)
  obtain ⟨left, hleft⟩ := hm ((width - l.2) / 2)
  obtain ⟨chars, hchars⟩ := drawChars_some hh hb ha y ((cstr s).take l.1.toNat) (x + (width - l.2) / 2)
  obtain ⟨right, hright⟩ := hm (width - (width - l.2) / 2 - l.2)
  simp [drawText, hw, hl, hleft, hchars, hright]

end Keynjector.Ui
