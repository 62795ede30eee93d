import Keynjector.Lib.Tiling
import Keynjector.Ui.ListBox
/-
# What is drawn is what is hit (ui.c:1096-1181, 1245-1265)

The drawing calls of `lbx_render` tile the list box from top to bottom, no alpha
access leaves the array, and the row under a point is that of the entry which
`lbx_mouse_down` selects there. It shows the key as far as its font line lies in the
list box, which can be not at all (`lbxRender_pad_hit`).
-/

namespace Keynjector.Ui

open Tiling

/-- First screen row and number of rows of a drawing call. -/
def DrawOp.band : DrawOp → Int × Int
  | .background _ y _ h => (y, h)
  | .text _ _ y _ _ h _ => (y, h)

/-- First column and number of columns of a drawing call. -/
def DrawOp.columns : DrawOp → Int × Int
  | .background x _ w _ => (x, w)
  | .text _ x _ _ w _ _ => (x, w)

/-- The string a drawing call shows. -/
def DrawOp.shown : DrawOp → Option (List UInt8)
  | .background .. => none
  | .text s .. => some s

def Row.bands (row : Row) : List (Int × Int) := row.ops.map DrawOp.band

/-- Screen row `y` lies in the row. -/
def Row.Contains (row : Row) (y : Int) : Prop := row.y ≤ y ∧ y < row.y + lbxItemHeight

/-- The row's font line is not entirely above or below the list box. -/
def Row.TextVisible (lc : Lbx) (row : Row) : Prop :=
  lbxLimitY lc (row.y + lbxPad) < lbxLimitY lc (row.y + lbxPad + fontHeight)

instance (lc : Lbx) (row : Row) : Decidable (row.TextVisible lc) :=
  inferInstanceAs (Decidable (lbxLimitY lc (row.y + lbxPad) < lbxLimitY lc (row.y + lbxPad + fontHeight)))

/-- The row shows the key of entry `k`, as far as its font line is visible. -/
structure Row.Shows (lc : Lbx) (es : List Entry) (row : Row) (k : Nat) : Prop where
  item : row.item = k
  key : ∃ e, es[k]? = some e ∧
    row.ops.filterMap DrawOp.shown = if row.TextVisible lc then [e.key.take (lbxBufLen - 1)] else []

section

variable {lc : Lbx}

theorem lbxLimitY_mono (hh : 0 < lc.height) {y y' : Int} (h : y ≤ y') : lbxLimitY lc y ≤ lbxLimitY lc y' := by
  unfold lbxLimitY
  split_ifs <;> omega

/-- A visible slice of the font line never reaches below the line. -/
theorem lbxLimitY_slice (hh : 0 < lc.height) {y n : Int} (h : lbxLimitY lc y < lbxLimitY lc (y + n)) :
    lbxLimitY lc (y + n) ≤ y + n ∧ y ≤ lbxLimitY lc y := by
  simp only [lbxLimitY] at h ⊢
  split_ifs at h ⊢ <;> omega

theorem backgroundBand_tiles (lc : Lbx) {y1 y2 : Int} (h : y1 ≤ y2) :
    Tiles y1 y2 ((backgroundBand lc y1 y2).map DrawOp.band) := by
  unfold backgroundBand
  split_ifs with hp
  · exact Tiles.single (by omega)
  · exact (show y1 = y2 by omega)

theorem backgroundBand_shown (y1 y2 : Int) : (backgroundBand lc y1 y2).filterMap DrawOp.shown = [] := by
  unfold backgroundBand
  split_ifs <;> rfl

theorem backgroundBand_columns {y1 y2 : Int} {op : DrawOp} (h : op ∈ backgroundBand lc y1 y2) :
    op.columns = (lc.x, lc.width) := by
  unfold backgroundBand at h
  split_ifs at h
  · obtain rfl := List.mem_singleton.1 h
    rfl
  · cases h

theorem fillAlpha_some (lc : Lbx) (n : Nat) (j : Int) (alpha : List UInt8) (h : (alpha.length + n : Int) ≤ fontHeight) :
    ∃ a, fillAlpha lc n j alpha = some a ∧ a.length = alpha.length + n := by
  induction n generalizing j alpha with
  | zero => exact ⟨alpha, rfl, rfl⟩
  | succ n ih =>
    have hlt : (alpha.length : Int) < fontHeight := by omega
    obtain ⟨a, ha, hl⟩ := ih (j + 1) (alpha ++ [rowAlpha lc j]) (by
      simp only [List.length_append, List.length_singleton]
      omega)
    refine ⟨a, by rw [fillAlpha, if_pos hlt, ha], ?_⟩
    simp only [List.length_append, List.length_singleton] at hl
    omega

/-- The text part of a row fills its band and shows the key exactly on an entry's row. -/
theorem textBand_some (lc : Lbx) (i : Int) (s : List UInt8) {y1 y2 y3 : Int} (h : y2 ≤ y3)
    (hslice : y2 < y3 → y3 ≤ y1 + fontHeight ∧ y1 ≤ y2) :
    ∃ ops, textBand lc i s y1 y2 y3 = some ops ∧ Tiles y2 y3 (ops.map DrawOp.band) ∧
      (∀ op ∈ ops, op.columns = (lc.x, lc.width)) ∧
      ops.filterMap DrawOp.shown =
        if 0 ≤ i ∧ i < lc.nItems ∧ y2 < y3 then [lbxGetKeyText s lbxBufLen] else [] := by
  by_cases hp : y2 < y3
  · have hgt : y3 - y2 > 0 := by omega
    obtain ⟨h3, h1⟩ := hslice hp
    by_cases hi : 0 ≤ i ∧ i < lc.nItems
    · obtain ⟨a, ha, hl⟩ := fillAlpha_some lc (y3 - y2).toNat y2 [] (by
        simp only [List.length_nil]
        omega)
      obtain ⟨pen, hpen⟩ : ∃ pen : Pen, Pen.mk a true (i = lc.selectedItem) = pen := ⟨_, rfl⟩
      have hcov : pen.Covers (y3 - y2) := by
        simp only [← hpen, Pen.Covers, if_true, hl, List.length_nil]
        omega
      have hline : y2 - y1 + (y3 - y2) ≤ fontHeight := by omega
      obtain ⟨ws, hws⟩ := drawText_some (by omega) hline hcov (lbxGetKeyText s lbxBufLen) lc.x y2 lc.width
      refine ⟨[.text (lbxGetKeyText s lbxBufLen) lc.x y2 (y2 - y1) lc.width (y3 - y2) pen], ?_,
        Tiles.single hp, by simp [DrawOp.columns], ?_⟩
      · simp only [textBand, hgt, if_true, hi, and_self, ha, hpen, hws, Option.bind_eq_bind, Option.bind_some]
      · rw [if_pos ⟨hi.1, hi.2, hp⟩]
        rfl
    · refine ⟨[.background lc.x y2 lc.width (y3 - y2)], by simp only [textBand, hgt, hi, if_true, if_false],
        Tiles.single hp, by simp [DrawOp.columns], ?_⟩
      rw [if_neg fun hc => hi ⟨hc.1, hc.2.1⟩]
      rfl
  · have hgt : ¬ y3 - y2 > 0 := by omega
    refine ⟨[], by simp only [textBand, hgt, if_false], show y2 = y3 by omega, by simp, ?_⟩
    rw [if_neg fun hc => hp hc.2.2]
    rfl

/-- **One row of the loop** tiles its part of the list box. -/
theorem renderRow_some (hh : 0 < lc.height) (y i : Int) (s : List UInt8) :
    ∃ row, renderRow lc y i s = some row ∧ row.item = i ∧ row.y = y ∧
      Tiles (lbxLimitY lc y) (lbxLimitY lc (y + lbxItemHeight)) row.bands ∧
      (∀ op ∈ row.ops, op.columns = (lc.x, lc.width)) ∧
      row.ops.filterMap DrawOp.shown =
        if 0 ≤ i ∧ i < lc.nItems ∧ row.TextVisible lc then [lbxGetKeyText s lbxBufLen] else [] := by
  obtain ⟨ops, hops, htiles, hcols, hshown⟩ := textBand_some lc i s
    (lbxLimitY_mono hh (show y + lbxPad ≤ y + lbxPad + fontHeight by simp only [fontHeight]; omega))
    (lbxLimitY_slice hh)
  have htop := backgroundBand_tiles lc (lbxLimitY_mono hh (show y ≤ y + lbxPad by simp only [lbxPad]; omega))
  have hbottom := backgroundBand_tiles lc (lbxLimitY_mono hh
    (show y + lbxPad + fontHeight ≤ y + lbxItemHeight by simp only [lbxItemHeight, lbxPad]; omega))
  refine ⟨⟨i, y, backgroundBand lc (lbxLimitY lc y) (lbxLimitY lc (y + lbxPad)) ++ ops ++
    backgroundBand lc (lbxLimitY lc (y + lbxPad + fontHeight)) (lbxLimitY lc (y + lbxItemHeight))⟩,
    by simp only [renderRow, hops, Option.bind_eq_bind, Option.bind_some], rfl, rfl, ?_, ?_, ?_⟩
  · simp only [Row.bands, List.map_append]
    exact (htop.append htiles).append hbottom
  · intro op hop
    simp only [List.mem_append] at hop
    rcases hop with (hop | hop) | hop
    · exact backgroundBand_columns hop
    · exact hcols op hop
    · exact backgroundBand_columns hop
  · simp only [List.filterMap_append, backgroundBand_shown, List.nil_append, List.append_nil, hshown, Row.TextVisible]
    rfl

/-- The rows drawn from `y` on, row `m` being turn `i + m` at `y + 30 m`. -/
structure Rows (lc : Lbx) (items : List UInt8) (y i : Int) (rows : List Row) : Prop where
  tiles : Tiles (lbxLimitY lc y) (lc.y + lc.height) (rows.flatMap Row.bands)
  columns : ∀ row ∈ rows, ∀ op ∈ row.ops, op.columns = (lc.x, lc.width)
  place : ∀ row ∈ rows, row.y = y + lbxItemHeight * (row.item - i)
  shown : ∀ row ∈ rows, row.ops.filterMap DrawOp.shown =
    if 0 ≤ row.item ∧ row.item < lc.nItems ∧ row.TextVisible lc then
      [lbxGetKeyText (lbxSkip items row.item.toNat) lbxBufLen] else []
  cover : ∀ y', y ≤ y' → y' < lc.y + lc.height → ∃ row ∈ rows, row.Contains y'

theorem lbxSkip_succ' (s : List UInt8) (i : Nat) : lbxSkip s (i + 1) = lbxAdvanceEntry (lbxSkip s i) :=
  Function.iterate_succ_apply' _ _ _

theorem lbxLimitY_of_ge {y : Int} (hh : 0 < lc.height) (h : lc.y + lc.height ≤ y) :
    lbxLimitY lc y = lc.y + lc.height := by
  unfold lbxLimitY
  split_ifs <;> omega

/-- **The row loop**, by the rows still to draw: the pointer follows the row index. -/
theorem renderFrom_rows (hh : 0 < lc.height) (items : List UInt8) (y i : Int) (s : List UInt8)
    (hs : s = lbxSkip items i.toNat) : ∃ rows, renderFrom lc y i s = some rows ∧ Rows lc items y i rows := by
  fun_induction renderFrom lc y i s with
  | case1 y i s hy ih =>
    obtain ⟨row, hrow, hitem, hrowy, htiles, hcols, hshown⟩ := renderRow_some hh y i s
    obtain ⟨rows, hrows, hr⟩ := ih (by
      by_cases hi : i ≥ 0
      · rw [dif_pos hi, hs, show (i + 1).toNat = i.toNat + 1 by omega, lbxSkip_succ']
      · rw [dif_neg hi, hs, show (i + 1).toNat = i.toNat by omega])
    simp only [dite_eq_ite] at hrows
    refine ⟨row :: rows, by simp only [hrow, hrows, Option.bind_eq_bind, Option.bind_some], ?_⟩
    subst hs
    constructor
    · exact htiles.append hr.tiles
    · simpa using ⟨hcols, hr.columns⟩
    · simp only [List.mem_cons, forall_eq_or_imp]
      refine ⟨by simp [hitem, hrowy], fun r hm => ?_⟩
      have := hr.place r hm
      simp only [lbxItemHeight, lbxPad, fontHeight] at *
      omega
    · simp only [List.mem_cons, forall_eq_or_imp]
      exact ⟨by rw [hshown, hitem], hr.shown⟩
    · intro y' hy' hlt
      by_cases hin : y' < y + lbxItemHeight
      · exact ⟨row, List.mem_cons_self, by rw [hrowy]; exact hy', by rw [hrowy]; exact hin⟩
      · obtain ⟨r, hm, hc⟩ := hr.cover y' (by omega) hlt
        exact ⟨r, List.mem_cons_of_mem _ hm, hc⟩
  | case2 y i s hy =>
    exact ⟨[], rfl, lbxLimitY_of_ge hh (by omega), by simp, by simp, by simp, fun y' _ _ => by omega⟩

/-- The hit test: the row under `y` is `(y - row.y) + 30 * row.item` down the list. -/
theorem lbxMouseDown_selected (lc : Lbx) (y : Int) {ry i : Int} (hy : ry ≤ y) (hlt : y < ry + lbxItemHeight)
    (hi : y - lc.y - lbxItemHeight + lc.origin = y - ry + lbxItemHeight * i) :
    (lbxMouseDown lc y).selectedItem = if 0 ≤ i ∧ i < lc.nItems then i else -1 := by
  have h30 : lbxItemHeight = 30 := rfl
  have h30i : lbxItemHeight * i = 30 * i := rfl
  simp only [lbxMouseDown, hi]
  by_cases h0 : 0 ≤ i
  · have hd : (y - ry + lbxItemHeight * i).tdiv lbxItemHeight = i := by
      rw [Int.tdiv_eq_ediv_of_nonneg (by omega), h30i, h30]
      omega
    simp only [hd]
    by_cases hn : i < lc.nItems
    · rw [if_pos (And.intro h0 hn), if_neg (by omega)]
    · rw [if_neg fun hc : 0 ≤ i ∧ i < lc.nItems => hn hc.2, if_pos (Or.inr (by omega))]
  · rw [if_neg fun hc : 0 ≤ i ∧ i < lc.nItems => h0 hc.1, if_pos (Or.inl (by omega))]

/-- The rows of the whole list box. -/
theorem lbxRender_rows {items : List UInt8} (hh : 0 < lc.height) (ho : 0 ≤ lc.origin)
    (hitems : lc.items = some items) :
    ∃ rows, lbxRender lc = some rows ∧
      Rows lc items (lc.y - lc.origin % 30) (lc.origin / 30 - 1) rows ∧
      Tiles lc.y (lc.y + lc.height) (rows.flatMap Row.bands) := by
  have hq : lc.origin.tdiv lbxItemHeight = lc.origin / 30 := Int.tdiv_eq_ediv_of_nonneg ho
  have hm : lc.origin.tmod lbxItemHeight = lc.origin % 30 := Int.tmod_eq_emod_of_nonneg ho
  obtain ⟨rows, hrows, hr⟩ := renderFrom_rows hh items (lc.y - lc.origin % 30) (lc.origin / 30 - 1) _ rfl
  have htop : lbxLimitY lc (lc.y - lc.origin % 30) = lc.y := by
    unfold lbxLimitY
    split_ifs <;> omega
  refine ⟨rows, by rw [lbxRender, hitems, hq, hm]; exact hrows, hr, ?_⟩
  have := hr.tiles
  rwa [htop] at this

/-- A row shows exactly the entry of its index. -/
theorem Rows.shows_iff {items : List UInt8} {es : List Entry} {y i : Int} {rows : List Row}
    (hr : Rows lc items y i rows) (hes : Items es items) (hlen : lc.nItems = es.length) {row : Row}
    (hrow : row ∈ rows) (k : Nat) : row.Shows lc es k ↔ row.item = k ∧ k < es.length := by
  constructor
  · rintro ⟨hitem, e, he, -⟩
    exact ⟨hitem, (List.getElem?_eq_some_iff.1 he).1⟩
  · rintro ⟨hitem, hk⟩
    obtain ⟨e, he⟩ : ∃ e, es[k]? = some e := ⟨_, List.getElem?_eq_getElem hk⟩
    obtain ⟨s', hskip, -, -⟩ := hes.at he
    refine ⟨hitem, e, he, ?_⟩
    rw [hr.shown row hrow, hitem, Int.toNat_natCast, hskip, lbxGetKeyText_cons]
    by_cases hv : row.TextVisible lc
    · rw [if_pos ⟨by omega, by omega, hv⟩, if_pos hv]
    · rw [if_neg fun hc : _ ∧ _ ∧ _ => hv hc.2.2, if_neg hv]

/-- **What is drawn is what is hit.** The drawing calls tile the list box; the row under
a point shows the entry that a mouse down there selects, and none if that is -1. -/
theorem lbxRender_hit {lc₀ lc : Lbx} {items : List UInt8} (hset : lbxSetItems lc₀ items = (lc, true))
    (hh : 0 < lc.height) (ho : 0 ≤ lc.origin) :
    ∃ es rows, Items es items ∧ lc.nItems = es.length ∧ lbxRender lc = some rows ∧
      (∀ row ∈ rows, ∀ op ∈ row.ops, op.columns = (lc.x, lc.width)) ∧
      (∀ band ∈ rows.flatMap Row.bands, lc.y ≤ band.1 ∧ 0 < band.2 ∧ band.1 + band.2 ≤ lc.y + lc.height) ∧
      ∀ y, lc.y ≤ y → y < lc.y + lc.height →
        (rows.flatMap Row.bands).countP (Covers y ·) = 1 ∧
        ∃ row ∈ rows, row.Contains y ∧ (∀ row' ∈ rows, row'.Contains y → row'.item = row.item) ∧
          (∀ k : Nat, row.Shows lc es k ↔ (lbxMouseDown lc y).selectedItem = k) ∧
          ((∀ k, ¬ row.Shows lc es k) ↔ (lbxMouseDown lc y).selectedItem = -1) ∧
          ((lbxMouseDown lc y).selectedItem = -1 → row.ops.filterMap DrawOp.shown = []) := by
  obtain ⟨es, hes, hlc⟩ := lbxSetItems_accepts hset
  have hitems : lc.items = some items := by rw [hlc]
  have hlen : lc.nItems = es.length := by rw [hlc]
  obtain ⟨rows, hrows, hr, htiles⟩ := lbxRender_rows hh ho hitems
  refine ⟨es, rows, hes, hlen, hrows, hr.columns, fun band hb => htiles.mem hb, fun y hy hlt => ?_⟩
  obtain ⟨row, hrow, hin⟩ := hr.cover y (by omega) hlt
  have hplace : ∀ r ∈ rows, r.y = lc.y - lc.origin % 30 + 30 * (r.item - (lc.origin / 30 - 1)) := hr.place
  have hsel := lbxMouseDown_selected lc y hin.1 hin.2 (show _ = y - row.y + 30 * row.item by
    have := hplace row hrow
    simp only [lbxItemHeight, lbxPad, fontHeight]
    omega)
  have hshows := hr.shows_iff hes hlen hrow
  refine ⟨htiles.count_eq_one hy hlt, row, hrow, hin, fun row' hrow' hin' => ?_, fun k => ?_, ?_, fun h => ?_⟩
  · have h1 := hplace row hrow
    have h2 := hplace row' hrow'
    simp only [Row.Contains, lbxItemHeight, lbxPad, fontHeight] at hin hin'
    omega
  · rw [hshows, hsel]
    split_ifs with hc
    · exact ⟨fun h => h.1, fun h => ⟨h, by omega⟩⟩
    · exact ⟨fun h => absurd ⟨by omega, by omega⟩ hc, False.elim⟩
  · rw [hsel]
    constructor
    · intro h
      split_ifs with hc
      · exact absurd ((hshows row.item.toNat).2 (by omega)) (h _)
      · rfl
    · intro h k hk
      obtain ⟨h1, h2⟩ := (hshows k).1 hk
      split_ifs at h <;> omega
  · rw [hr.shown row hrow, if_neg]
    rintro ⟨h1, h2, -⟩
    rw [hsel, if_pos ⟨h1, h2⟩] at h
    omega

theorem lbxRender_hit_sample :
    ∃ es rows, Items es sampleItems ∧ lbxRender sampleLbx = some rows ∧
      ∃ row ∈ rows, row.Contains 75 ∧ (∀ k : Nat, row.Shows sampleLbx es k ↔ k = 1) := by
  obtain ⟨es, rows, hes, -, hrows, -, -, h⟩ := lbxRender_hit
    (show lbxSetItems keyLbx sampleItems = (sampleLbx, true) by decide +kernel) (by decide) (by decide)
  obtain ⟨-, row, hrow, hin, -, hk, -⟩ := h 75 (by decide) (by decide)
  have hsel : (lbxMouseDown sampleLbx 75).selectedItem = 1 := by decide +kernel
  exact ⟨es, rows, hes, hrows, row, hrow, hin, fun k => by rw [hk, hsel]; omega⟩

/-- Twelve entries, scrolled until three rows of the first one's bottom pad are left. -/
def twelveItems : List UInt8 := List.intercalate [10] ((List.range 12).map fun i => [UInt8.ofNat (97 + i), 9, 88])

def padLbx : Lbx := { keyLbx with items := some twelveItems, nItems := 12, origin := 57 }

/-- **A row that shows nothing is hit**: the strip at the top is the pad of entry 0. -/
theorem lbxRender_pad_hit :
    lbxSetItems { keyLbx with origin := 57 } twelveItems = (padLbx, true) ∧
      ∃ rows, lbxRender padLbx = some rows ∧
        (∃ row ∈ rows, row.Contains 10 ∧ row.ops.filterMap DrawOp.shown = [] ∧
          (lbxMouseDown padLbx 10).selectedItem = 0) ∧
        ¬ ∀ row ∈ rows, ∀ y, row.Contains y → row.ops.filterMap DrawOp.shown = [] →
            (lbxMouseDown padLbx y).selectedItem = -1 := by
  have hset : lbxSetItems { keyLbx with origin := 57 } twelveItems = (padLbx, true) := by decide +kernel
  have hsel : (lbxMouseDown padLbx 10).selectedItem = 0 := by decide +kernel
  obtain ⟨rows, hrows, hr, -⟩ := lbxRender_rows (show 0 < padLbx.height by decide) (show 0 ≤ padLbx.origin by decide)
    (show padLbx.items = some twelveItems from rfl)
  obtain ⟨row, hrow, hin⟩ := hr.cover 10 (by decide) (by decide)
  have hitem : row.item = 0 ∧ row.y = -17 := by
    have hplace : row.y = -17 + 30 * (row.item - 0) := hr.place row hrow
    obtain ⟨h1, h2⟩ : row.y ≤ 10 ∧ 10 < row.y + 30 := hin
    omega
  have hshown : row.ops.filterMap DrawOp.shown = [] := by
    refine (hr.shown row hrow).trans (if_neg ?_)
    rw [Row.TextVisible, hitem.2, hitem.1]
    decide
  refine ⟨hset, rows, hrows, ⟨row, hrow, hin, hshown, hsel⟩, fun h => ?_⟩
  exact absurd (hsel.symm.trans (h row hrow 10 hin hshown)) (by decide)

end

end Keynjector.Ui
