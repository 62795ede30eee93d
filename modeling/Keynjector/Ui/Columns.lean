import Keynjector.Ui.Items
import Keynjector.Ui.Pixels
/-
# Text inside its columns (ui.c:277-386, ui_data.h:98-408)

| here | there |
| --- | --- |
| `extent`      | the columns from the start of a glyph's window to the end of its bitmap |
| `StaysInside` | the texts all of whose windows lie on the screen |

`text_width` adds up advances, but a bitmap may be wider than its advance. Before another
character that does no harm, since the next advance takes it up. After the last one the
right margin has to.

On ARM an `xoffset` of -1 reads as 255, so the window of the two glyphs that have one ends
far off the screen.
-/

namespace Keynjector.Ui

open Display

def extent (c : UInt8) : Int := (charCoord c).xoffset + (charCoord c).width

/-- `Ì` and `ì`, whose `xoffset` is -1. -/
def readsNegative (c : UInt8) : Bool := c = 204 || c = 236

/-- No glyph with a negative `xoffset` is drawn, and the bitmap of the last one ends within
the right margin. -/
def StaysInside (s : List UInt8) : Prop :=
  ∃ n, LongestFit .unsigned s lcdWidth n ∧ (∀ c ∈ s.take n, readsNegative c = false) ∧
    ∀ c, (s.take n).getLast? = some c →
      2 * (extent c - (charCoord c).xadvance) ≤ lcdWidth - spanWidth .unsigned (s.take n) + 1

/-- Every window that has pixels lies on the screen. -/
def OnScreen (ws : List (Int × Int × Int × Int)) : Prop :=
  ∀ x0 y0 x1 y1, (x0, y0, x1, y1) ∈ ws → x0 ≤ x1 → y0 ≤ y1 → 0 ≤ x0 ∧ x1 ≤ lcdWidth - 1

/-! ## The font -/

/-- The parts of a list that an index of their starts divides it into. -/
def slices {α : Type} : List Nat → List α → List (List α)
  | i :: j :: is, l => l.take (j - i) :: slices (j :: is) (l.drop (j - i))
  | _, _ => []

theorem slices_getElem? {α : Type} {is : List Nat} (h : is.Pairwise (· ≤ ·)) (l : List α) {n i j : Nat}
    (hi : is[n]? = some i) (hj : is[n + 1]? = some j) :
    (slices is l)[n]? = some ((l.drop (i - is.headD 0)).take (j - i)) := by
  induction n generalizing is l with
  | zero =>
    cases is with
    | nil => cases hi
    | cons a is =>
      cases is with
      | nil => cases hj
      | cons b is =>
        obtain rfl := Option.some.inj hi
        obtain rfl := Option.some.inj hj
        simp [slices]
  | succ n ih =>
    cases is with
    | nil => cases hi
    | cons a is =>
      cases is with
      | nil => cases hi
      | cons b is =>
        obtain ⟨hfirst, hrest⟩ := List.pairwise_cons.1 h
        have hab : a ≤ b := hfirst b List.mem_cons_self
        have hbi : b ≤ i := by
          cases n with
          | zero => exact Nat.le_of_eq (Option.some.inj hi)
          | succ n => exact (List.pairwise_cons.1 hrest).1 i (List.mem_of_getElem? hi)
        have hslice := ih hrest (l.drop (b - a)) hi hj
        rw [List.headD_cons, List.drop_drop, show b - a + (i - b) = i - a by omega] at hslice
        exact hslice

/-- The kerning pairs of a character. -/
def kernRow (c : UInt8) : List KernPair :=
  (kern.drop (kernIndex.getD c.toNat 0)).take (kernIndex.getD (c.toNat + 1) 0 - kernIndex.getD c.toNat 0)

/-- Every glyph with its kerning pairs and its number. -/
def glyphs : List ((CharCoord × List KernPair) × Nat) := (charCoordTable.zip (slices kernIndex kern)).zipIdx

theorem mem_glyphs (c : UInt8) : ((charCoord c, kernRow c), c.toNat) ∈ glyphs := by
  have hc := c.toNat_lt
  obtain ⟨hindex, hsorted⟩ : kernIndex.length = 257 ∧ kernIndex.IsChain (· ≤ ·) := by decide +kernel
  have hi : kernIndex[c.toNat]? = some (kernIndex.getD c.toNat 0) := by
    rw [List.getD_eq_getElem?_getD, List.getElem?_eq_getElem (by omega), Option.getD_some]
  have hj : kernIndex[c.toNat + 1]? = some (kernIndex.getD (c.toNat + 1) 0) := by
    rw [List.getD_eq_getElem?_getD, List.getElem?_eq_getElem (by omega), Option.getD_some]
  have hrow := slices_getElem? (List.isChain_iff_pairwise.1 hsorted) kern hi hj
  rw [glyphs, List.mk_mem_zipIdx_iff_getElem?, List.getElem?_zip_eq_some]
  exact ⟨charCoord_getElem? c, hrow⟩

theorem filter_second {row : List KernPair} (h : row.Pairwise fun p q => p.second < q.second) (k : Nat) :
    row.filter (·.second == k) = [] ∨ ∃ q ∈ row, q.second = k ∧ row.filter (·.second == k) = [q] := by
  induction row with
  | nil => exact .inl rfl
  | cons q row ih =>
    obtain ⟨hfirst, hrest⟩ := List.pairwise_cons.1 h
    by_cases hq : q.second = k
    · refine .inr ⟨q, List.mem_cons_self, hq, ?_⟩
      rw [List.filter_cons, if_pos (beq_iff_eq.2 hq), List.filter_eq_nil_iff.2]
      intro p hp heq
      have := hfirst p hp
      have := beq_iff_eq.1 heq
      omega
    · rw [List.filter_cons, if_neg fun heq => hq (beq_iff_eq.1 heq)]
      exact (ih hrest).imp id fun ⟨p, hp, hsecond, hfilter⟩ => ⟨p, List.mem_cons_of_mem _ hp, hsecond, hfilter⟩

/-- What the font's tables keep: sorted pairs, and no bitmap far wider than the advance. -/
theorem glyphs_table : ∀ e ∈ glyphs, (e.1.2.map KernPair.second).IsChain (· < ·) ∧
    (e.1.1.xadvance ≠ 0 → (if e.2 = 39 then 2 else 3) ≤ (e.1.1.xadvance : Int) ∧
      ∀ q ∈ e.1.2, (if e.2 = 39 then 2 else 3) ≤ (e.1.1.xadvance : Int) + q.amount) ∧
    (e.2 ≠ 204 → e.2 ≠ 236 → (e.1.1.xoffset : Int) + e.1.1.width ≤ e.1.1.xadvance + 2 ∧
      ∀ q ∈ e.1.2, (e.1.1.xoffset : Int) + e.1.1.width ≤
        e.1.1.xadvance + q.amount + (if q.second = 39 then 2 else 3)) := by
  decide +kernel

/-- An advance is the plain one, or the one with the pair for the next character. -/
theorem kernedAdvance_of_row {P : Int → Prop} {c : UInt8} {next : Option UInt8} (h : P (charCoord c).xadvance)
    (hrow : ∀ q ∈ kernRow c, next.map UInt8.toNat = some q.second → P ((charCoord c).xadvance + q.amount)) :
    P (kernedAdvance c next) := by
  cases next with
  | none => exact h
  | some c2 =>
    have hchain := List.isChain_iff_pairwise.1 (glyphs_table _ (mem_glyphs c)).1
    have hfold : kernedAdvance c (some c2) = ((kernRow c).filter (·.second == c2.toNat)).foldl
        (fun advance p => advance + p.amount) ((charCoord c).xadvance : Int) := rfl
    rw [hfold]
    rcases filter_second (List.pairwise_map.1 hchain) c2.toNat with hnone | ⟨q, hq, hsecond, hone⟩
    · rw [hnone]
      exact h
    · rw [hone]
      exact hrow q hq (congrArg some hsecond.symm)

theorem kernedAdvance_ge (c : UInt8) (hc : (charCoord c).xadvance ≠ 0) (next : Option UInt8) :
    (if c.toNat = 39 then 2 else 3) ≤ kernedAdvance c next := by
  obtain ⟨hplain, hrow⟩ := (glyphs_table _ (mem_glyphs c)).2.1 hc
  exact kernedAdvance_of_row (P := fun a => (if c.toNat = 39 then 2 else 3) ≤ a) hplain fun q hq _ => hrow q hq

theorem kernedAdvance_pos {c : UInt8} (hc : (charCoord c).xadvance ≠ 0) (next : Option UInt8) :
    0 < kernedAdvance c next := by
  have := kernedAdvance_ge c hc next
  split_ifs at this <;> omega

theorem extent_le {c : UInt8} (hc : readsNegative c = false) (c2 : UInt8) :
    extent c ≤ kernedAdvance c (some c2) + (if c2.toNat = 39 then 2 else 3) := by
  obtain ⟨h204, h236⟩ : c ≠ 204 ∧ c ≠ 236 := by simpa [readsNegative] using hc
  obtain ⟨hplain, hrow⟩ := (glyphs_table _ (mem_glyphs c)).2.2 (fun h => h204 (UInt8.toNat_inj.1 h))
    fun h => h236 (UInt8.toNat_inj.1 h)
  refine kernedAdvance_of_row (P := fun a => extent c ≤ a + (if c2.toNat = 39 then 2 else 3)) ?_ fun q hq hnext => ?_
  · simp only [extent] at hplain ⊢
    split_ifs <;> omega
  · have hsecond : c2.toNat = q.second := Option.some.inj hnext
    rw [hsecond]
    exact hrow q hq

/-- **The next advance takes up** what a bitmap is wider than its own. -/
theorem extent_le_advances {c c2 : UInt8} (hc : readsNegative c = false) (hc2 : (charCoord c2).xadvance ≠ 0)
    (next : Option UInt8) : extent c ≤ kernedAdvance c (some c2) + kernedAdvance c2 next := by
  have hnext := kernedAdvance_ge c2 hc2 next
  have hextent := extent_le hc c2
  split_ifs at hnext hextent <;> omega

theorem extent_readsNegative {c : UInt8} (hc : readsNegative c = true) : lcdWidth < extent c := by
  simp only [readsNegative, Bool.or_eq_true, decide_eq_true_eq] at hc
  rcases hc with rfl | rfl <;> decide +kernel

/-! ## The windows -/

section

variable {y0 height : Int}

theorem glyphWidth_unsigned (t : UInt8 × Int) : glyphWidth .unsigned t = max t.2 (extent t.1) := by
  have hleft : ¬ ((charCoord t.1).xoffset : Int) < 0 := by omega
  simp only [glyphWidth, glyphColumns, GlyphColumns.totalWidth, PlainChar.read, hleft, if_false, extent]
  split_ifs <;> omega

theorem glyphStart_unsigned (t : UInt8 × Int) (x : Int) : glyphStart .unsigned t x = x :=
  if_neg (by simp only [PlainChar.read]; omega)

theorem spanWidth_cons (c : UInt8) (t : List UInt8) :
    spanWidth .unsigned (c :: t) = kernedAdvance c t.head? + spanWidth .unsigned t := by
  rw [spanWidth, advances, List.foldl_cons, foldl_widen, widen_unsigned, spanWidth]
  omega

theorem spanWidth_nonneg {t : List UInt8} (ht : ∀ c ∈ t, (charCoord c).xadvance ≠ 0) : 0 ≤ spanWidth .unsigned t := by
  induction t with
  | nil => exact Int.le_refl 0
  | cons c t ih =>
    have := kernedAdvance_pos (ht c List.mem_cons_self) t.head?
    have := ih fun d hd => ht d (List.mem_cons_of_mem _ hd)
    rw [spanWidth_cons]
    omega

theorem OnScreen.cons_iff {x0 y0 x1 y1 : Int} {ws : List (Int × Int × Int × Int)} :
    OnScreen ((x0, y0, x1, y1) :: ws) ↔ (x0 ≤ x1 → y0 ≤ y1 → 0 ≤ x0 ∧ x1 ≤ lcdWidth - 1) ∧ OnScreen ws := by
  simp only [OnScreen, List.mem_cons, Prod.mk.injEq]
  constructor
  · intro h
    exact ⟨h _ _ _ _ (Or.inl ⟨rfl, rfl, rfl, rfl⟩), fun _ _ _ _ hm => h _ _ _ _ (Or.inr hm)⟩
  · rintro ⟨hfirst, hrest⟩ _ _ _ _ (⟨rfl, rfl, rfl, rfl⟩ | hm)
    · exact hfirst
    · exact hrest _ _ _ _ hm

/-- **The glyph windows**, with `r` columns to the right of the text. -/
theorem glyphWindows_onScreen (y0 : Int) {t : List UInt8} (ht : ∀ c ∈ t, (charCoord c).xadvance ≠ 0) (hh : 0 < height)
    {x r : Int} (hx : 0 ≤ x) (hr : 0 ≤ r) (hend : x + spanWidth .unsigned t + r = lcdWidth) :
    OnScreen (glyphWindows .unsigned y0 height (advances t) x) ↔
      (∀ c ∈ t, readsNegative c = false) ∧ ∀ c, t.getLast? = some c → extent c - (charCoord c).xadvance ≤ r := by
  induction t generalizing x with
  | nil => simp [OnScreen, advances, glyphWindows]
  | cons c t ih =>
    have htail : ∀ d ∈ t, (charCoord d).xadvance ≠ 0 := fun d hd => ht d (List.mem_cons_of_mem _ hd)
    have hpos := kernedAdvance_pos (ht c List.mem_cons_self) t.head?
    have hspan := spanWidth_nonneg htail
    rw [spanWidth_cons] at hend
    have hih := ih htail (x := x + kernedAdvance c t.head?) (by omega) (by omega)
    rw [advances, glyphWindows, OnScreen.cons_iff, glyphStart_unsigned, glyphWidth_unsigned, widen_unsigned, hih]
    cases hneg : readsNegative c with
    | true =>
      have := extent_readsNegative hneg
      simp only [List.mem_cons, forall_eq_or_imp, hneg]
      constructor
      · rintro ⟨hfirst, -⟩
        have := hfirst (by omega) (by omega)
        omega
      · rintro ⟨⟨hfalse, -⟩, -⟩
        exact absurd hfalse (by decide)
    | false =>
      simp only [List.mem_cons, forall_eq_or_imp, hneg, true_and]
      cases t with
      | nil =>
        -- the last character: its bitmap ends within the `r` columns
        have hlast : kernedAdvance c ([] : List UInt8).head? = (charCoord c).xadvance := rfl
        rw [hlast] at hpos hend ⊢
        have hnone : spanWidth .unsigned [] = 0 := rfl
        simp only [List.not_mem_nil, false_implies, implies_true, true_and, and_true, List.getLast?_nil,
          List.getLast?_singleton, Option.some.injEq, forall_eq', reduceCtorEq]
        omega
      | cons c2 t =>
        have hnext := extent_le_advances hneg (htail c2 List.mem_cons_self) t.head?
        have hrest := spanWidth_nonneg fun d hd => htail d (List.mem_cons_of_mem _ hd)
        have hpos2 := kernedAdvance_pos (htail c2 List.mem_cons_self) t.head?
        rw [spanWidth_cons] at hend
        have hinside : x + max (kernedAdvance c (c2 :: t).head?) (extent c) - 1 ≤ lcdWidth - 1 := by
          rw [List.head?_cons] at hpos hend ⊢
          omega
        rw [List.getLast?_cons_cons]
        exact and_iff_right fun _ _ => ⟨hx, hinside⟩

/-- **The windows of a text** that fits the screen. -/
theorem textWindows_onScreen {t : List UInt8} (ht : ∀ c ∈ t, (charCoord c).xadvance ≠ 0) (hh : 0 < height)
    (hfit : spanWidth .unsigned t ≤ lcdWidth) : OnScreen (textWindows .unsigned 0 y0 lcdWidth height t) ↔
      (∀ c ∈ t, readsNegative c = false) ∧ ∀ c, t.getLast? = some c →
        2 * (extent c - (charCoord c).xadvance) ≤ lcdWidth - spanWidth .unsigned t + 1 := by
  have hspan := spanWidth_nonneg ht
  obtain ⟨l, hl⟩ : ∃ l, (lcdWidth - spanWidth .unsigned t) / 2 = l := ⟨_, rfl⟩
  have hglyphs := glyphWindows_onScreen y0 ht hh (show 0 ≤ 0 + l by omega)
    (show 0 ≤ lcdWidth - spanWidth .unsigned t - l by omega) (by omega)
  have happend : ∀ ws, OnScreen (ws ++ [(0 + l + spanWidth .unsigned t, y0, 0 + lcdWidth - 1, y0 + height - 1)]) ↔
      OnScreen ws := by
    intro ws
    induction ws with
    | nil =>
      rw [List.nil_append, OnScreen.cons_iff]
      exact and_iff_right fun _ _ => by omega
    | cons w ws ih =>
      obtain ⟨x0, y0, x1, y1⟩ := w
      rw [List.cons_append, OnScreen.cons_iff, OnScreen.cons_iff, ih]
  rw [textWindows, hl, happend, OnScreen.cons_iff, hglyphs]
  have hleft : 0 ≤ 0 + l - 1 → y0 ≤ y0 + height - 1 → (0 : Int) ≤ 0 ∧ 0 + l - 1 ≤ lcdWidth - 1 := fun _ _ => by omega
  rw [and_iff_right hleft]
  refine and_congr_right fun _ => forall_congr' fun c => imp_congr_right fun _ => ?_
  omega

end

/-- **Text stays inside the screen** exactly if no glyph with a negative `xoffset` is drawn and the
right margin covers the last bitmap. -/
theorem CString.drawText_onScreen_iff (s : CString) (f : Font) {p : Pen} {y yStart height : Int}
    (hs : ∀ c ∈ s.chars, inLbxKeyCharset c = true) (hy : 0 ≤ y) (hy' : y + height ≤ lcdHeight) (hh : 0 < height)
    (hb : yStart + height ≤ fontHeight) (ha : p.Covers height) :
    ∃ calls, s.drawText f .unsigned 0 y yStart lcdWidth height p = some calls ∧
      (OnScreen (selects calls) ↔ StaysInside s.chars) := by
  obtain ⟨n, calls, hlongest, hcalls, -, -, hselects⟩ := s.drawText_windows f .unsigned (x := 0) ha (Int.le_of_lt hh) hb
    (show 0 ≤ lcdWidth by decide) hy hy'
  refine ⟨calls, hcalls, ?_⟩
  have hadvance : ∀ c ∈ s.chars.take n, (charCoord c).xadvance ≠ 0 := fun c hc =>
    of_decide_eq_true (hs c (List.mem_of_mem_take hc))
  have hfit : spanWidth .unsigned (s.chars.take n) ≤ lcdWidth := by
    cases n with
    | zero => exact (by decide : (0 : Int) ≤ lcdWidth)
    | succ n => exact hlongest.fits (Nat.succ_pos n)
  rw [hselects, textWindows_onScreen hadvance hh hfit]
  exact ⟨fun h => ⟨n, hlongest, h⟩, fun ⟨m, hm, h⟩ => hlongest.unique hm ▸ h⟩

theorem drawText_onScreen_iff_sample : ∃ (s : CString) (f : Font), s.chars = [0x54, 0x61, 0x62] ∧
    (∀ c ∈ s.chars, inLbxKeyCharset c = true) ∧ (0 : Int) ≤ 10 ∧ 10 + 20 ≤ lcdHeight ∧ (0 : Int) < 20 ∧
    0 + 20 ≤ fontHeight ∧ Pen.Covers ⟨[0xFF], false, false⟩ 20 ∧
    ∃ calls, s.drawText f .unsigned 0 10 0 lcdWidth 20 ⟨[0xFF], false, false⟩ = some calls ∧
      (OnScreen (selects calls) ↔ StaysInside s.chars) := by
  let s : CString := ⟨[0x54, 0x61, 0x62], by decide, by decide⟩
  let f : Font := ⟨List.replicate 9600 0, List.length_replicate⟩
  have hs : ∀ c ∈ s.chars, inLbxKeyCharset c = true := by
    show ∀ c ∈ [(0x54 : UInt8), 0x61, 0x62], inLbxKeyCharset c = true
    decide +kernel
  have ha : Pen.Covers ⟨[0xFF], false, false⟩ 20 := by simp [Pen.Covers]
  obtain ⟨calls, hcalls, hiff⟩ := s.drawText_onScreen_iff f hs (show (0 : Int) ≤ 10 by decide)
    (show 10 + 20 ≤ lcdHeight by decide) (by decide) (show 0 + 20 ≤ fontHeight by decide) ha
  exact ⟨s, f, rfl, hs, by decide, by decide, by decide, by decide, ha, calls, hcalls, hiff⟩

/-- `ì` alone: its window is 259 columns wide and starts at column 118. -/
theorem igrave_offScreen : ∃ (s : CString) (f : Font) (calls : List (Draw Rgb)), s.chars = [236] ∧
    (∀ c ∈ s.chars, inLbxKeyCharset c = true) ∧
    s.drawText f .unsigned 0 10 0 lcdWidth fontHeight ⟨[0xFF], false, false⟩ = some calls ∧
    (118, 10, 376, 29) ∈ selects calls ∧ ¬ OnScreen (selects calls) := by
  let s : CString := ⟨[236], by decide, by decide⟩
  let f : Font := ⟨List.replicate 9600 0, List.length_replicate⟩
  have ha : Pen.Covers ⟨[0xFF], false, false⟩ fontHeight := by simp [Pen.Covers]
  have hone : LongestFit .unsigned s.chars lcdWidth 1 := by
    refine ⟨Nat.le_refl 1, fun _ => by decide +kernel, fun m hm hle => ?_⟩
    have : m ≤ 1 := hle
    omega
  obtain ⟨n, calls, hlongest, hcalls, -, -, hselects⟩ := s.drawText_windows f .unsigned (x := 0) ha (by decide)
    (show 0 + fontHeight ≤ fontHeight by decide) (show 0 ≤ lcdWidth by decide) (show (0 : Int) ≤ 10 by decide)
    (show 10 + fontHeight ≤ lcdHeight by decide)
  rw [hlongest.unique hone] at hselects
  have hwindow : (118, 10, 376, 29) ∈ selects calls := by
    rw [hselects]
    show (118, 10, 376, 29) ∈ textWindows .unsigned 0 10 lcdWidth fontHeight [236]
    decide +kernel
  refine ⟨s, f, calls, rfl, by decide +kernel, hcalls, hwindow, fun h => ?_⟩
  exact absurd (h 118 10 376 29 hwindow (by decide) (by decide)).2 (by decide)

end Keynjector.Ui
