import Keynjector.Lib.Display
import Keynjector.Ui.Background
import Keynjector.Ui.Truncation
/-
# Text drawing, pixel by pixel (`draw_text`, ui.c:251-535)

| here | there |
| --- | --- |
| `Font`                 | `font`, 256 by 75 pixels of four bits |
| `Cursor`               | `y`, `alpha` and the pixels of the window so far |
| `rowsTo`               | `for ( ; y < y2; y++)` |
| `margin`               | a row of a margin, of a top pad or of a bottom pad |
| `fills`, `glyphPixels`, `cellRow` | a row of a glyph: left pad, bitmap, right pad |
| `drawGlyph`            | one turn of the character loop |
| `CString.drawText`     | `draw_text`: the calls of `lcd_select_window` and `lcd_write_pixel` |

A read past `bg`, `font` or the alphas is `none`.
-/

namespace Keynjector.Ui

open Display

structure Font where
  pixelData : List UInt8
  size : pixelData.length = 256 * 75 / 2

/-- The colour of a pixel that shows no glyph. -/
def Pen.fill (p : Pen) (b : Rgb) (k : Nat) : Option Rgb :=
  if p.backFill then (p.alpha[k]?).map fun a => blend a.toNat b else some b

structure Cursor where
  y : Int
  alpha : Nat
  pixels : List Rgb

/-- `n` rows from the cursor on. -/
def rowsDown (p : Pen) (row : Int → Nat → Rgb → Option (List Rgb)) : Nat → Cursor → Option Cursor
  | 0, u => some u
  | n + 1, u => do
    let b ← bgRow u.y
    let px ← row u.y u.alpha b
    rowsDown p row n ⟨u.y + 1, if p.dalpha then u.alpha + 1 else u.alpha, u.pixels ++ px⟩

def rowsTo (p : Pen) (row : Int → Nat → Rgb → Option (List Rgb)) (y2 : Int) (u : Cursor) : Option Cursor :=
  rowsDown p row (y2 - u.y).toNat u

/-- The colour is computed once for the row, whatever its width. -/
def margin (p : Pen) (width : Int) (_y : Int) (k : Nat) (b : Rgb) : Option (List Rgb) := do
  let c ← p.fill b k
  some (List.replicate width.toNat c)

/-- The colour is computed for each pixel. -/
def fills (p : Pen) (k : Nat) (b : Rgb) : Nat → Option (List Rgb)
  | 0 => some []
  | n + 1 => do
    let c ← p.fill b k
    let rest ← fills p k b n
    some (c :: rest)

/-- A pixel of the bitmap, `byte` being the one of column `cx`. -/
def glyphPixel (p : Pen) (cx : Nat) (byte alpha : UInt8) (b : Rgb) : Rgb :=
  let a := if cx % 2 = 1 then (byte.toNat &&& 0xF) <<< 4 else byte.toNat &&& 0xF0
  let a := if p.backFill then 0xFF - a else a
  blend ((a * alpha.toNat) >>> 8) b

/-- `n` pixels of the bitmap from column `cx` on, `ci` being the index of its byte. -/
def glyphPixels (f : Font) (p : Pen) (k : Nat) (b : Rgb) : Nat → Nat → Nat → Option (List Rgb)
  | 0, _, _ => some []
  | n + 1, cx, ci => do
    let byte ← f.pixelData[ci]?
    let alpha ← p.alpha[k]?
    let rest ← glyphPixels f p k b n (cx + 1) (if cx % 2 = 1 then ci + 1 else ci)
    some (glyphPixel p cx byte alpha b :: rest)

/-- Row `cy` of the font, at the glyph of `c`. -/
def cellRow (f : Font) (p : Pen) (c : UInt8) (leftPad rightPad cy : Int) (k : Nat) (b : Rgb) : Option (List Rgb) := do
  let cl := (charCoord c).x
  let left ← fills p k b leftPad.toNat
  let glyph ← glyphPixels f p k b (charCoord c).width cl ((cy * 256 + cl) / 2).toNat
  let right ← fills p k b rightPad.toNat
  some (left ++ glyph ++ right)

/-- Left pad, bitmap and right pad of a glyph. -/
structure GlyphColumns where
  leftPad : Int
  cWidth : Int
  rightPad : Int

def GlyphColumns.totalWidth (g : GlyphColumns) : Int := g.leftPad + g.cWidth + g.rightPad

/-- `xoffset` is that of the glyph, as the build reads it. -/
def glyphColumns (xoffset : Int) (c : UInt8) (advance : Int) : GlyphColumns :=
  let leftPad := if xoffset < 0 then 0 else xoffset
  let cWidth : Int := (charCoord c).width
  ⟨leftPad, cWidth, if advance > leftPad + cWidth then advance - leftPad - cWidth else 0⟩

/-- The window of character `c` and the column after it. -/
def drawGlyph (f : Font) (pc : PlainChar) (p : Pen) (yStart height y0 : Int) (t : UInt8 × Int) (x : Int) :
    Option (List (Draw Rgb) × Int) := do
  let (c, advance) := t
  let xoffset := pc.read (charCoord c).xoffset
  let x := if xoffset < 0 then x + xoffset else x
  let g := glyphColumns xoffset c advance
  let rows := clipRows (charCoord c).yoffset (charCoord c).height yStart height
  -- rows cut off the top of the bitmap
  let cut := max 0 (yStart - (charCoord c).yoffset)
  let top ← rowsTo p (margin p g.totalWidth) (y0 + rows.topPad) ⟨y0, 0, []⟩
  let cell ← rowsTo p (fun y => cellRow f p c g.leftPad g.rightPad ((charCoord c).y + cut + (y - top.y)))
    (y0 + rows.topPad + rows.cHeight) top
  let bottom ← rowsTo p (margin p g.totalWidth) (y0 + rows.topPad + rows.cHeight + rows.bottomPad) cell
  some (window x y0 (x + g.totalWidth - 1) (y0 + height - 1) bottom.pixels, x + advance)

def drawGlyphs (f : Font) (pc : PlainChar) (p : Pen) (yStart height y0 : Int) :
    List (UInt8 × Int) → Int → Option (List (Draw Rgb) × Int)
  | [], x => some ([], x)
  | t :: ts, x => do
    let (calls, x) ← drawGlyph f pc p yStart height y0 t x
    let (rest, x) ← drawGlyphs f pc p yStart height y0 ts x
    some (calls ++ rest, x)

def CString.drawText (s : CString) (f : Font) (pc : PlainChar) (x y yStart width height : Int) (p : Pen) :
    Option (List (Draw Rgb)) := do
  let (sLen, sWidth) ← s.truncate pc width
  let leftMargin := (width - sWidth) / 2
  let rightMargin := width - leftMargin - sWidth
  let left ← rowsTo p (margin p leftMargin) (y + height) ⟨y, 0, []⟩
  let ts ← turns s.memory sLen sLen.toInt.toNat 0
  let (glyphs, x') ← drawGlyphs f pc p yStart height y ts (x + leftMargin)
  let right ← rowsTo p (margin p rightMargin) (y + height) ⟨y, 0, []⟩
  some (window x y (x + leftMargin - 1) (y + height - 1) left.pixels ++ glyphs ++
    window x' y (x' + rightMargin - 1) (y + height - 1) right.pixels)

/-! ## Rows -/

/-- The pen with the first `n` alphas alone. -/
def Pen.first (p : Pen) (n : Int) : Pen := { p with alpha := p.alpha.take n.toNat }

/-- A row of `w` pixels, the same for both pens. -/
def Draws (o o' : Option (List Rgb)) (w : Nat) : Prop := ∃ px, o = some px ∧ o' = some px ∧ px.length = w

/-- Row `j` of a window that starts at `y0`, after `n` pixels. -/
structure Cursor.At (p : Pen) (y0 j : Int) (n : Nat) (u : Cursor) : Prop where
  y : u.y = y0 + j
  alpha : u.alpha = p.offset j
  pixels : u.pixels.length = n

section

variable {p : Pen} {height : Int}

/-- An alpha of the first `height` is at hand for both pens. -/
theorem alpha_first (ha : p.Covers height) {i : Int} (h0 : 0 ≤ i) (hi : i < height) :
    ∃ a, p.alpha[p.offset i]? = some a ∧ (p.first height).alpha[p.offset i]? = some a := by
  have hlt : p.offset i < p.alpha.length ∧ p.offset i < height.toNat := by
    simp only [Pen.Covers, Pen.offset] at ha ⊢
    split_ifs at ha ⊢ <;> omega
  refine ⟨p.alpha[p.offset i], List.getElem?_eq_getElem hlt.1, ?_⟩
  rw [Pen.first, List.getElem?_take_of_lt hlt.2, List.getElem?_eq_getElem hlt.1]

theorem fill_first (ha : p.Covers height) {i : Int} (h0 : 0 ≤ i) (hi : i < height) (b : Rgb) :
    ∃ c, p.fill b (p.offset i) = some c ∧ (p.first height).fill b (p.offset i) = some c := by
  obtain ⟨a, hp, hq⟩ := alpha_first ha h0 hi
  have hback : (p.first height).backFill = p.backFill := rfl
  simp only [Pen.fill, hback, hp, hq, Option.map_some]
  split_ifs <;> exact ⟨_, rfl, rfl⟩

theorem margin_draws (ha : p.Covers height) {i : Int} (h0 : 0 ≤ i) (hi : i < height) (width y : Int) (b : Rgb) :
    Draws (margin p width y (p.offset i) b) (margin (p.first height) width y (p.offset i) b) width.toNat := by
  obtain ⟨c, hp, hq⟩ := fill_first ha h0 hi b
  exact ⟨List.replicate width.toNat c, by rw [margin, hp]; rfl, by rw [margin, hq]; rfl, List.length_replicate⟩

theorem fills_draws (ha : p.Covers height) {i : Int} (h0 : 0 ≤ i) (hi : i < height) (b : Rgb) (n : Nat) :
    Draws (fills p (p.offset i) b n) (fills (p.first height) (p.offset i) b n) n := by
  obtain ⟨c, hp, hq⟩ := fill_first ha h0 hi b
  induction n with
  | zero => exact ⟨[], rfl, rfl, rfl⟩
  | succ n ih =>
    obtain ⟨px, hpx, hqx, hlen⟩ := ih
    exact ⟨c :: px, by rw [fills, hp, hpx]; rfl, by rw [fills, hq, hqx]; rfl, congrArg (· + 1) hlen⟩

/-- The byte index follows the column: two pixels to a byte, 128 bytes to a row. -/
theorem glyphPixels_draws (f : Font) (ha : p.Covers height) {i : Int} (h0 : 0 ≤ i) (hi : i < height) (b : Rgb)
    {cy : Nat} (hcy : cy < 75) (n cx ci : Nat) (hci : ci = (cy * 256 + cx) / 2) (hcx : cx + n ≤ 256) :
    Draws (glyphPixels f p (p.offset i) b n cx ci) (glyphPixels f (p.first height) (p.offset i) b n cx ci) n := by
  obtain ⟨a, hp, hq⟩ := alpha_first ha h0 hi
  induction n generalizing cx ci with
  | zero => exact ⟨[], rfl, rfl, rfl⟩
  | succ n ih =>
    have hlt : ci < f.pixelData.length := by
      rw [f.size]
      omega
    obtain ⟨px, hpx, hqx, hlen⟩ := ih (cx + 1) (if cx % 2 = 1 then ci + 1 else ci)
      (by split_ifs <;> omega) (by omega)
    refine ⟨glyphPixel p cx f.pixelData[ci] a b :: px, ?_, ?_, congrArg (· + 1) hlen⟩
    · simp only [glyphPixels, List.getElem?_eq_getElem hlt, hp, hpx, Option.bind_eq_bind, Option.bind_some]
    · simp only [glyphPixels, List.getElem?_eq_getElem hlt, hq, hqx, Option.bind_eq_bind, Option.bind_some]
      rfl

/-- Every glyph lies in the font's bitmap. -/
theorem charCoord_inside (c : UInt8) : (charCoord c).x + (charCoord c).width ≤ 256 ∧
    (charCoord c).y + (charCoord c).height ≤ 75 := by
  have key : ∀ g ∈ charCoordTable, g.x + g.width ≤ 256 ∧ g.y + g.height ≤ 75 := by decide +kernel
  exact key _ (charCoord_mem c)

theorem cellRow_draws (f : Font) (ha : p.Covers height) {i : Int} (h0 : 0 ≤ i) (hi : i < height) (c : UInt8)
    (leftPad rightPad : Int) {cy : Int} (hcy : 0 ≤ cy) (hcy' : cy < 75) (b : Rgb) :
    Draws (cellRow f p c leftPad rightPad cy (p.offset i) b)
      (cellRow f (p.first height) c leftPad rightPad cy (p.offset i) b)
      (leftPad.toNat + (charCoord c).width + rightPad.toNat) := by
  obtain ⟨left, hpl, hql, hl⟩ := fills_draws ha h0 hi b leftPad.toNat
  obtain ⟨glyph, hpg, hqg, hg⟩ := glyphPixels_draws f ha h0 hi b (show cy.toNat < 75 by omega) (charCoord c).width
    (charCoord c).x ((cy * 256 + (charCoord c).x) / 2).toNat (by omega) (charCoord_inside c).1
  obtain ⟨right, hpr, hqr, hr⟩ := fills_draws ha h0 hi b rightPad.toNat
  refine ⟨left ++ glyph ++ right, ?_, ?_, by rw [List.length_append, List.length_append, hl, hg, hr]⟩
  · simp only [cellRow, hpl, hpg, hpr, Option.bind_eq_bind, Option.bind_some]
  · simp only [cellRow, hql, hqg, hqr, Option.bind_eq_bind, Option.bind_some]

theorem Cursor.at_start (p : Pen) (y0 : Int) : (⟨y0, 0, []⟩ : Cursor).At p y0 0 0 := by
  refine ⟨(Int.add_zero y0).symm, ?_, rfl⟩
  unfold Pen.offset
  split_ifs <;> rfl

/-- **A row loop** that gets `w` pixels from each row moves on by whole rows. -/
theorem rowsTo_at (height : Int) (row row' : Int → Nat → Rgb → Option (List Rgb)) {y0 j : Int} (j' : Int) {n w : Nat}
    {u : Cursor} (hu : u.At p y0 j n) (hj : 0 ≤ j) (hjj : j ≤ j') (hy : 0 ≤ y0) (hy' : y0 + j' ≤ lcdHeight)
    (hrow : ∀ i b, j ≤ i → i < j' → Draws (row (y0 + i) (p.offset i) b) (row' (y0 + i) (p.offset i) b) w) :
    ∃ u', rowsTo p row (y0 + j') u = some u' ∧ rowsTo (p.first height) row' (y0 + j') u = some u' ∧
      u'.At p y0 j' (n + (j' - j).toNat * w) := by
  obtain ⟨m, hm⟩ : ∃ m, (j' - j).toNat = m := ⟨_, rfl⟩
  have hcount : (y0 + j' - u.y).toNat = m := by
    rw [hu.y]
    omega
  rw [rowsTo, rowsTo, hcount, hm]
  induction m generalizing j n u with
  | zero =>
    obtain rfl : j' = j := by omega
    exact ⟨u, rfl, rfl, by simpa using hu⟩
  | succ m ih =>
    obtain ⟨hy1, halpha, hpixels⟩ := hu
    obtain ⟨b, hb⟩ := bgRow_some (show 0 ≤ y0 + j by omega) (show y0 + j < lcdHeight by omega)
    obtain ⟨px, hp, hq, hlen⟩ := hrow j b (Int.le_refl j) (by omega)
    have hnext : (if p.dalpha then p.offset j + 1 else p.offset j) = p.offset (j + 1) := by
      unfold Pen.offset
      split_ifs <;> omega
    have hdalpha : (p.first height).dalpha = p.dalpha := rfl
    have hat : (⟨y0 + j + 1, p.offset (j + 1), u.pixels ++ px⟩ : Cursor).At p y0 (j + 1) (n + w) :=
      ⟨Int.add_assoc y0 j 1, rfl, by rw [List.length_append, hpixels, hlen]⟩
    obtain ⟨u', hpu, hqu, hend⟩ := ih hat (by omega) (by omega) (fun i b h h' => hrow i b (by omega) h') (by omega)
      (by simp only; omega)
    refine ⟨u', ?_, ?_, ?_⟩
    · simp only [rowsDown, hy1, halpha, hb, hp, hnext, Option.bind_eq_bind, Option.bind_some, hpu]
    · simp only [rowsDown, hy1, halpha, hb, hq, hdalpha, hnext, Option.bind_eq_bind, Option.bind_some, hqu]
    · rwa [Nat.succ_mul, Nat.add_comm (m * w) w, ← Nat.add_assoc]

/-! ## Windows -/

/-- Where the window of a glyph starts, and how wide it is. -/
def glyphStart (pc : PlainChar) (t : UInt8 × Int) (x : Int) : Int :=
  if pc.read (charCoord t.1).xoffset < 0 then x + pc.read (charCoord t.1).xoffset else x

def glyphWidth (pc : PlainChar) (t : UInt8 × Int) : Int :=
  (glyphColumns (pc.read (charCoord t.1).xoffset) t.1 t.2).totalWidth

theorem glyphColumns_nonneg (xoffset : Int) (c : UInt8) (advance : Int) :
    0 ≤ (glyphColumns xoffset c advance).leftPad ∧ 0 ≤ (glyphColumns xoffset c advance).rightPad := by
  simp only [glyphColumns]
  split_ifs <;> omega

theorem GlyphRows.cutTop_cHeight (g : GlyphRows) (m : Int) (h : 0 < (g.cutTop m).cHeight) :
    (g.cutTop m).cHeight = g.cHeight + min 0 (g.topPad - m) := by
  by_cases ht : g.topPad - m < 0
  · by_cases hc : g.cHeight + (g.topPad - m) < 0 <;> simp only [GlyphRows.cutTop, ht, hc, if_true, if_false] at h ⊢ <;>
      omega
  · by_cases hc : g.cHeight < 0 <;> simp only [GlyphRows.cutTop, ht, hc, if_true, if_false] at h ⊢ <;> omega

theorem GlyphRows.cutBottom_cHeight (g : GlyphRows) (m : Int) (h : 0 < (g.cutBottom m).cHeight) :
    (g.cutBottom m).cHeight ≤ g.cHeight := by
  by_cases hb : g.bottomPad - m < 0
  · by_cases hc : g.cHeight + (g.bottomPad - m) < 0 <;>
      simp only [GlyphRows.cutBottom, hb, hc, if_true, if_false] at h ⊢ <;> omega
  · by_cases hc : g.cHeight < 0 <;> simp only [GlyphRows.cutBottom, hb, hc, if_true, if_false] at h ⊢ <;> omega

/-- What is left of the bitmap lies in the glyph's rows of the font. -/
theorem clipRows_inside {yoffset cHeight yStart height : Int}
    (h : 0 < (clipRows yoffset cHeight yStart height).cHeight) :
    max 0 (yStart - yoffset) + (clipRows yoffset cHeight yStart height).cHeight ≤ cHeight := by
  have hbottom := GlyphRows.cutBottom_cHeight _ _ h
  have htop := GlyphRows.cutTop_cHeight ⟨yoffset, cHeight, fontHeight - yoffset - cHeight⟩ yStart (by
    rw [clipRows] at h
    omega)
  rw [clipRows] at h ⊢
  simp only at htop hbottom
  omega

/-- **One glyph**: a window as wide as its pads and bitmap, and every pixel of it. -/
theorem drawGlyph_window (f : Font) (pc : PlainChar) (ha : p.Covers height) (hh : 0 ≤ height) {yStart y0 : Int}
    (hb : yStart + height ≤ fontHeight) (hy : 0 ≤ y0) (hy' : y0 + height ≤ lcdHeight) (t : UInt8 × Int) (x : Int) :
    ∃ calls px, calls = window (glyphStart pc t x) y0 (glyphStart pc t x + glyphWidth pc t - 1) (y0 + height - 1) px ∧
      drawGlyph f pc p yStart height y0 t x = some (calls, widen pc x t) ∧
      drawGlyph f pc (p.first height) yStart height y0 t x = some (calls, widen pc x t) ∧
      px.length = (glyphWidth pc t).toNat * height.toNat := by
  obtain ⟨c, advance⟩ := t
  obtain ⟨g, hg⟩ : ∃ g, glyphColumns (pc.read (charCoord c).xoffset) c advance = g := ⟨_, rfl⟩
  obtain ⟨hleft, hright⟩ := hg ▸ glyphColumns_nonneg (pc.read (charCoord c).xoffset) c advance
  have hwidth : g.leftPad.toNat + (charCoord c).width + g.rightPad.toNat = g.totalWidth.toNat := by
    have : g.cWidth = (charCoord c).width := by rw [← hg, glyphColumns]
    rw [GlyphColumns.totalWidth]
    omega
  have hfont : ((charCoord c).yoffset : Int) + (charCoord c).height ≤ fontHeight := by
    have := yoffset_add_height_le c
    unfold fontHeight
    omega
  obtain ⟨rows, hrows⟩ : ∃ rows, clipRows (charCoord c).yoffset (charCoord c).height yStart height = rows := ⟨_, rfl⟩
  obtain ⟨htop, hcell, hbottom, hsum⟩ := hrows ▸ clipRows_holds hfont hh hb
  have hinside : 0 < rows.cHeight → _ := hrows ▸ clipRows_inside
  have hfontRows := (charCoord_inside c).2
  obtain ⟨cy, hcy⟩ : ∃ cy : Int, (charCoord c).y + max 0 (yStart - (charCoord c).yoffset) = cy := ⟨_, rfl⟩
  -- top pad, bitmap, bottom pad
  obtain ⟨u1, hp1, hq1, hu1⟩ := rowsTo_at height (margin p g.totalWidth) (margin (p.first height) g.totalWidth)
    rows.topPad (Cursor.at_start p y0) (Int.le_refl 0) htop hy (by omega)
    fun i b h h' => margin_draws ha h (by omega) _ _ b
  obtain ⟨u2, hp2, hq2, hu2⟩ := rowsTo_at height
    (fun y => cellRow f p c g.leftPad g.rightPad (cy + (y - u1.y)))
    (fun y => cellRow f (p.first height) c g.leftPad g.rightPad (cy + (y - u1.y)))
    (rows.topPad + rows.cHeight) hu1 htop (by omega) hy (by omega) fun i b h h' => by
      have := hu1.y
      exact cellRow_draws f ha (by omega) (by omega) c _ _ (by omega) (by omega) b
  obtain ⟨u3, hp3, hq3, hu3⟩ := rowsTo_at height (margin p g.totalWidth) (margin (p.first height) g.totalWidth)
    (rows.topPad + rows.cHeight + rows.bottomPad) hu2 (by omega) (by omega) hy (by omega)
    fun i b h h' => margin_draws ha (by omega) (by omega) _ _ b
  rw [← Int.add_assoc] at hp2 hq2
  rw [← Int.add_assoc, ← Int.add_assoc] at hp3 hq3
  refine ⟨_, u3.pixels, rfl, ?_, ?_, ?_⟩
  · simp only [drawGlyph, hg, hrows, hcy, hp1, hp2, hp3, Option.bind_eq_bind, Option.bind_some]
    simp only [glyphStart, glyphWidth, hg, widen]
  · simp only [drawGlyph, hg, hrows, hcy, hq1, hq2, hq3, Option.bind_eq_bind, Option.bind_some]
    simp only [glyphStart, glyphWidth, hg, widen]
  · rw [hu3.pixels, hwidth, glyphWidth, hg, Nat.zero_add, ← Nat.add_mul, ← Nat.add_mul, Nat.mul_comm]
    congr 1
    omega

/-- The windows of the glyphs, the first starting at column `x`. -/
def glyphWindows (pc : PlainChar) (y0 height : Int) : List (UInt8 × Int) → Int → List (Int × Int × Int × Int)
  | [], _ => []
  | t :: ts, x =>
    (glyphStart pc t x, y0, glyphStart pc t x + glyphWidth pc t - 1, y0 + height - 1) ::
      glyphWindows pc y0 height ts (widen pc x t)

/-- Margin, glyphs and margin of the text `t`. -/
def textWindows (pc : PlainChar) (x y width height : Int) (t : List UInt8) : List (Int × Int × Int × Int) :=
  let leftMargin := (width - spanWidth pc t) / 2
  (x, y, x + leftMargin - 1, y + height - 1) :: glyphWindows pc y height (advances t) (x + leftMargin) ++
    [(x + leftMargin + spanWidth pc t, y, x + width - 1, y + height - 1)]

theorem foldl_widen (pc : PlainChar) (ts : List (UInt8 × Int)) (x : Int) :
    ts.foldl (widen pc) x = x + ts.foldl (widen pc) 0 := by
  induction ts generalizing x with
  | nil => exact (Int.add_zero x).symm
  | cons t ts ih =>
    have hshift : widen pc x t = x + widen pc 0 t := by
      simp only [widen]
      split_ifs <;> omega
    rw [List.foldl_cons, List.foldl_cons, ih, ih (widen pc 0 t), hshift, Int.add_assoc]

theorem drawGlyphs_windows (f : Font) (pc : PlainChar) (ha : p.Covers height) (hh : 0 ≤ height) {yStart y0 : Int}
    (hb : yStart + height ≤ fontHeight) (hy : 0 ≤ y0) (hy' : y0 + height ≤ lcdHeight) (ts : List (UInt8 × Int))
    (x : Int) : ∃ calls, drawGlyphs f pc p yStart height y0 ts x = some (calls, ts.foldl (widen pc) x) ∧
      drawGlyphs f pc (p.first height) yStart height y0 ts x = some (calls, ts.foldl (widen pc) x) ∧
      selects calls = glyphWindows pc y0 height ts x ∧
      ∀ rest, Filled rest → burst rest = 0 → Filled (calls ++ rest) ∧ burst (calls ++ rest) = 0 := by
  induction ts generalizing x with
  | nil => exact ⟨[], rfl, rfl, rfl, fun _ h h0 => ⟨h, h0⟩⟩
  | cons t ts ih =>
    obtain ⟨glyph, px, hglyph, hp, hq, hlen⟩ := drawGlyph_window f pc ha hh hb hy hy' t x
    obtain ⟨calls, hps, hqs, hselects, hfilled⟩ := ih (widen pc x t)
    refine ⟨glyph ++ calls, ?_, ?_, ?_, fun rest h h0 => ?_⟩
    · simp only [drawGlyphs, hp, hps, Option.bind_eq_bind, Option.bind_some, List.foldl_cons]
    · simp only [drawGlyphs, hq, hqs, Option.bind_eq_bind, Option.bind_some, List.foldl_cons]
    · rw [selects_append, hglyph, selects_window, hselects]
      rfl
    · obtain ⟨hrest, hburst⟩ := hfilled rest h h0
      rw [List.append_assoc, hglyph]
      exact ⟨hrest.window hburst (by rw [area_window]; exact hlen), burst_window⟩

theorem margins_draws (ha : p.Covers height) (hh : 0 ≤ height) {y : Int} (hy : 0 ≤ y) (hy' : y + height ≤ lcdHeight)
    (width : Int) : ∃ u, rowsTo p (margin p width) (y + height) ⟨y, 0, []⟩ = some u ∧
      rowsTo (p.first height) (margin (p.first height) width) (y + height) ⟨y, 0, []⟩ = some u ∧
      u.pixels.length = width.toNat * height.toNat := by
  obtain ⟨u, hp, hq, hu⟩ := rowsTo_at height (margin p width) (margin (p.first height) width) height
    (Cursor.at_start p y) (Int.le_refl 0) hh hy hy' fun i b h h' => margin_draws ha h h' _ _ b
  exact ⟨u, hp, hq, by rw [hu.pixels, Int.sub_zero, Nat.zero_add, Nat.mul_comm]⟩

/-- **The calls of `draw_text`**: the windows of the longest prefix that fits, each filled. -/
theorem CString.drawText_windows (s : CString) (f : Font) (pc : PlainChar) (ha : p.Covers height) (hh : 0 ≤ height)
    {x y yStart width : Int} (hb : yStart + height ≤ fontHeight) (hw : 0 ≤ width) (hy : 0 ≤ y)
    (hy' : y + height ≤ lcdHeight) : ∃ n calls, LongestFit pc s.chars width n ∧
      s.drawText f pc x y yStart width height p = some calls ∧
      s.drawText f pc x y yStart width height (p.first height) = some calls ∧ Filled calls ∧
      selects calls = textWindows pc x y width height (s.chars.take n) := by
  obtain ⟨sLen, sWidth, hrun, hlongest, hturns, hwidth, hfit⟩ := s.truncate_fit pc hw
  obtain ⟨l, hl⟩ : ∃ l, (width - sWidth) / 2 = l := ⟨_, rfl⟩
  obtain ⟨left, hpl, hql, hleft⟩ := margins_draws ha hh hy hy' l
  obtain ⟨right, hpr, hqr, hright⟩ := margins_draws ha hh hy hy' (width - l - sWidth)
  obtain ⟨glyphs, hpg, hqg, hselects, hfilled⟩ := drawGlyphs_windows f pc ha hh hb hy hy'
    (advances (s.chars.take sLen.toInt.toNat)) (x + l)
  have hend : (advances (s.chars.take sLen.toInt.toNat)).foldl (widen pc) (x + l) = x + l + sWidth := by
    rw [foldl_widen, hwidth, spanWidth]
  rw [hend] at hpg hqg
  obtain ⟨first, hfirst⟩ : ∃ w, window x y (x + l - 1) (y + height - 1) left.pixels = w := ⟨_, rfl⟩
  obtain ⟨last, hlast⟩ : ∃ w, window (x + l + sWidth) y (x + l + sWidth + (width - l - sWidth) - 1) (y + height - 1)
    right.pixels = w := ⟨_, rfl⟩
  refine ⟨sLen.toInt.toNat, first ++ glyphs ++ last, hlongest, ?_, ?_, ?_, ?_⟩
  · simp only [CString.drawText, hrun, hl, hpl, hpr, hturns, hpg, hfirst, hlast, Option.bind_eq_bind, Option.bind_some]
  · simp only [CString.drawText, hrun, hl, hql, hqr, hturns, hqg, hfirst, hlast, Option.bind_eq_bind, Option.bind_some]
  · have hlastFilled : Filled (last ++ []) := by
      rw [← hlast]
      exact Filled.window trivial rfl (by rw [area_window]; exact hright)
    have hlastBurst : burst (last ++ []) = 0 := by rw [← hlast, burst_window]
    obtain ⟨hrest, hburst⟩ := hfilled _ hlastFilled hlastBurst
    rw [List.append_nil] at hrest hburst
    rw [List.append_assoc, ← hfirst]
    exact hrest.window hburst (by rw [area_window]; exact hleft)
  · have hright1 : x + l + sWidth + (width - l - sWidth) - 1 = x + width - 1 := by omega
    rw [selects_append, selects_append, ← hfirst, ← hlast, selects_window, selects_window, hselects, hright1,
      textWindows, ← hwidth, hl]
    rfl

/-- **Every window is filled exactly**, the windows being those of the longest prefix that fits, and no alpha past
the first `height` is read: the first `height` alone give the same calls. -/
theorem CString.drawText_filled (s : CString) (f : Font) (pc : PlainChar) {x y yStart width : Int} (hy : 0 ≤ y)
    (hy' : y + height ≤ lcdHeight) (hh : 0 < height) (hb : yStart + height ≤ fontHeight) (hw : 0 ≤ width)
    (ha : p.Covers height) : ∃ calls, s.drawText f pc x y yStart width height p = some calls ∧
      s.drawText f pc x y yStart width height (p.first height) = some calls ∧ Filled calls ∧
      ∃ n, LongestFit pc s.chars width n ∧ selects calls = textWindows pc x y width height (s.chars.take n) := by
  obtain ⟨n, calls, hfit, hp, hq, hfilled, hselects⟩ :=
    s.drawText_windows f pc (x := x) ha (Int.le_of_lt hh) hb hw hy hy'
  exact ⟨calls, hp, hq, hfilled, n, hfit, hselects⟩

theorem drawText_filled_sample : ∃ (s : CString) (f : Font), s.chars = [0x41, 0x56] ∧ (0 : Int) ≤ 10 ∧
    10 + 20 ≤ lcdHeight ∧ (0 : Int) < 20 ∧ 0 + 20 ≤ fontHeight ∧ (0 : Int) ≤ 240 ∧
    Pen.Covers ⟨List.replicate 20 0xFF, true, true⟩ 20 ∧
    ∃ calls, s.drawText f .unsigned 0 10 0 240 20 ⟨List.replicate 20 0xFF, true, true⟩ = some calls ∧ Filled calls := by
  let s : CString := ⟨[0x41, 0x56], by decide, by decide⟩
  let f : Font := ⟨List.replicate 9600 0, List.length_replicate⟩
  have ha : Pen.Covers ⟨List.replicate 20 0xFF, true, true⟩ 20 := by
    simp only [Pen.Covers, if_true, List.length_replicate]
    decide
  obtain ⟨calls, hcalls, -, hfilled, -⟩ := s.drawText_filled f .unsigned (x := 0) (show (0 : Int) ≤ 10 by decide)
    (show 10 + 20 ≤ lcdHeight by decide) (by decide) (show 0 + 20 ≤ fontHeight by decide)
    (show (0 : Int) ≤ 240 by decide) ha
  exact ⟨s, f, rfl, by decide, by decide, by decide, by decide, by decide, ha, calls, hcalls, hfilled⟩

/-! ## The rows of the windows -/

def Window.corners (w : Window) : Int × Int × Int × Int := (w.x, w.y, w.x1, w.y1)

theorem totalWidth_glyphWidth (c : UInt8) (advance : Int) :
    totalWidth c advance = glyphWidth .unsigned (c, advance) := by
  have hleft : ¬ ((charCoord c).xoffset : Int) < 0 := by omega
  simp only [totalWidth, rightPad, glyphWidth, glyphColumns, GlyphColumns.totalWidth, PlainChar.read, hleft, if_false]

theorem drawChars_windows {yStart y0 : Int} (t : List UInt8) (x : Int) {ws : List Window} {x' : Int}
    (h : drawChars p yStart height y0 t x = some (ws, x')) :
    ws.map Window.corners = glyphWindows .unsigned y0 height (advances t) x ∧
      x' = (advances t).foldl (widen .unsigned) x := by
  induction t generalizing x ws with
  | nil =>
    obtain ⟨rfl, rfl⟩ := Prod.mk.inj (Option.some.inj h)
    exact ⟨rfl, rfl⟩
  | cons c t ih =>
    simp only [drawChars, Option.bind_eq_bind, Option.bind_eq_some_iff, Option.some.injEq, Prod.mk.injEq,
      Prod.exists] at h
    obtain ⟨w, hw, rest, _, hrest, rfl, rfl⟩ := h
    obtain ⟨hws, hx⟩ := ih _ hrest
    have hnext : x + kernedAdvance c t.head? = widen .unsigned x (c, kernedAdvance c t.head?) := by
      rw [widen_unsigned]
    have hstart : glyphStart .unsigned (c, kernedAdvance c t.head?) x = x :=
      if_neg (by simp only [PlainChar.read]; omega)
    have hcorners : w.corners =
        (x, y0, x + glyphWidth .unsigned (c, kernedAdvance c t.head?) - 1, y0 + height - 1) := by
      simp only [drawChar, Option.bind_eq_bind, Option.bind_eq_some_iff, Option.some.injEq] at hw
      obtain ⟨top, -, cell, -, bottom, -, rfl⟩ := hw
      rw [Window.corners, totalWidth_glyphWidth]
    rw [hnext] at hws hx
    exact ⟨by rw [List.map_cons, hcorners, hws, advances, glyphWindows, hstart], hx⟩

/-- **The calls refine the rows**: `drawText` has the same windows. -/
theorem CString.drawText_corners (s : CString) (f : Font) (ha : p.Covers height) (hh : 0 ≤ height)
    {x y yStart width : Int} (hb : yStart + height ≤ fontHeight) (hw : 0 ≤ width) (hy : 0 ≤ y)
    (hy' : y + height ≤ lcdHeight) : ∃ calls ws,
      s.drawText f .unsigned x y yStart width height p = some calls ∧
      Ui.drawText s.chars x y yStart width height p = some ws ∧ selects calls = ws.map Window.corners := by
  obtain ⟨n, calls, hlongest, hcalls, -, -, hselects⟩ := s.drawText_windows f .unsigned (x := x) ha hh hb hw hy hy'
  obtain ⟨ws, hws⟩ := drawText_some hh hb ha s.chars x y width
  refine ⟨calls, ws, hcalls, hws, ?_⟩
  obtain ⟨hshort, hsWidth⟩ := shorten_fit s.chars width
  obtain ⟨l, hl⟩ : ∃ l, shorten s.chars width s.chars.length (Ui.textWidth s.chars 0) = l := ⟨_, rfl⟩
  rw [hl] at hshort hsWidth
  rw [hlongest.unique hshort] at hselects
  have hcstr : cstr s.chars = s.chars := by simpa [cstr] using cstr_append s.noNul []
  simp only [Ui.drawText, Int.not_lt.2 hw, if_false, hcstr, hl, Option.bind_eq_bind, Option.bind_eq_some_iff,
    Option.some.injEq, Prod.exists] at hws
  obtain ⟨left, -, chars, x', hchars, right, -, rfl⟩ := hws
  obtain ⟨hcorners, rfl⟩ := drawChars_windows _ _ hchars
  have hright1 : x + width - 1 = x + (width - l.2) / 2 + l.2 + (width - (width - l.2) / 2 - l.2) - 1 := by omega
  rw [hselects, textWindows, ← hsWidth, hright1, List.map_append, List.map_cons, hcorners, foldl_widen, ← spanWidth,
    ← hsWidth]
  rfl

end

end Keynjector.Ui
