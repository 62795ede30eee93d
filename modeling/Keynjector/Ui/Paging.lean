import Mathlib.Data.Nat.Find
import Keynjector.Ui.HitTest
import Keynjector.Ui.Scrolling
/-
# Paging through the list (ui.c:1102-1181, 2162-2183)

| here | there |
| --- | --- |
| `paged`        | an origin that steps towards a bound and stops there |
| `FullyShown`   | `lbx_render` draws the key of an entry, all `FONT_HEIGHT` rows of it inside the list box |
| `keyDownClick^[c]`, `keyUpClick^[c]` | `c` calls of `key_down_click`, `key_up_click` (`:2162-2183`) |

A page is one row less than the list box, `height - 30`. At origin `o` the font line of
entry `k` starts `30 * k + 35 - o` rows below the top of the list box, so it is in
sight for `height - 20` origins in a row, which no page can step over.
-/

namespace Keynjector.Ui

/-! ## Stepping up to a bound -/

/-- The origin after `c` steps from 0. -/
def paged (step bound : Int) (c : Nat) : Int := min (step * c) bound

theorem paged_succ {step bound : Int} (hs : 0 ≤ step) (c : Nat) :
    paged step bound (c + 1) = min (paged step bound c + step) bound := by
  have : step * (c + 1 : Nat) = step * c + step := by rw [Int.natCast_succ, Int.mul_add, Int.mul_one]
  simp only [paged]
  omega

/-- The bound is reached and kept. -/
theorem paged_end {step bound : Int} (hs : 0 < step) {c : Nat} (hc : bound ≤ c) : paged step bound c = bound := by
  have : 1 * (c : Int) ≤ step * c := Int.mul_le_mul_of_nonneg_right (by omega) (Int.natCast_nonneg c)
  simp only [paged]
  omega

/-- **No step passes over a window** at least as long as the step, if it starts at or below the
bound and does not end below 0. -/
theorem paged_window {step bound lo hi : Int} (hs : 0 < step) (hb : 0 ≤ bound) (hlo : lo ≤ bound) (hhi : 0 ≤ hi)
    (hlen : lo + step ≤ hi + 1) : ∃ c, lo ≤ paged step bound c ∧ paged step bound c ≤ hi := by
  have hex : ∃ c, lo ≤ paged step bound c := ⟨bound.toNat, by rw [paged_end hs (by omega)]; exact hlo⟩
  -- the first origin that is not before the window
  refine ⟨Nat.find hex, Nat.find_spec hex, ?_⟩
  cases hc : Nat.find hex with
  | zero =>
    simp only [paged, Int.natCast_zero, Int.mul_zero]
    omega
  | succ c =>
    have hbelow : ¬ lo ≤ paged step bound c := Nat.find_min hex (by omega)
    rw [paged_succ (Int.le_of_lt hs)]
    omega

/-! ## The clicks -/

section

variable {lc : Lbx}

/-- The page of the firmware's list box: 250 rows less one item. -/
def pageStep : Int := 220

theorem keyDownClick_origin (hh : lc.height = 250) (c : Nat) (h0 : lc.origin = 0) :
    keyDownClick^[c] lc = { lc with origin := paged pageStep (max 0 (maxOrigin lc lc.nItems)) c } := by
  induction c with
  | zero =>
    rw [Function.iterate_zero, id, show paged pageStep (max 0 (maxOrigin lc lc.nItems)) 0 = lc.origin by
      simp only [paged, h0]
      omega]
  | succ c ih =>
    rw [Function.iterate_succ_apply', ih, paged_succ (by decide)]
    simp only [keyDownClick, Lbx.mk.injEq, true_and, and_true, hh, maxOrigin, pageStep, lbxItemHeight, lbxPad,
      fontHeight]
    generalize paged 220 _ c = o
    split_ifs <;> omega

/-- Each click up takes a page off, down to 0. -/
theorem keyUpClick_origin (hh : lc.height = 250) (c : Nat) :
    (keyUpClick^[c] lc).origin ≤ max 0 (lc.origin - pageStep * c) ∧
      (0 ≤ lc.origin → 0 ≤ (keyUpClick^[c] lc).origin) ∧ (keyUpClick^[c] lc).height = 250 := by
  induction c with
  | zero =>
    simp only [Function.iterate_zero, id]
    omega
  | succ c ih =>
    obtain ⟨hle, hnonneg, hheight⟩ := ih
    rw [Function.iterate_succ_apply']
    have hc : pageStep * (c + 1 : Nat) = pageStep * c + 220 := by
      rw [Int.natCast_succ, Int.mul_add, Int.mul_one, pageStep]
    simp only [keyUpClick, hheight, hc, lbxItemHeight, lbxPad, fontHeight, and_true]
    split_ifs <;> omega

/-! ## The rows in sight -/

/-- `lbx_render` draws the key of entry `k`: the whole font line, inside the list box. -/
structure FullyShown (lc : Lbx) (es : List Entry) (rows : List Row) (k : Nat) : Prop where
  key : ∃ e, es[k]? = some e ∧ ∃ row ∈ rows, row.item = k ∧ ∃ pen,
    .text (e.key.take (lbxBufLen - 1)) lc.x (row.y + lbxPad) 0 lc.width fontHeight pen ∈ row.ops ∧
      lc.y ≤ row.y + lbxPad ∧ row.y + lbxPad + fontHeight ≤ lc.y + lc.height

/-- Each row of the loop comes from its own turn. -/
theorem renderFrom_mem (items : List UInt8) (y i : Int) (s : List UInt8) (hs : s = lbxSkip items i.toNat)
    {rows : List Row} (hrows : renderFrom lc y i s = some rows) {row : Row} (hrow : row ∈ rows) :
    renderRow lc row.y row.item (lbxSkip items row.item.toNat) = some row := by
  fun_induction renderFrom lc y i s generalizing rows with
  | case1 y i s hy ih =>
    simp only [Option.bind_eq_bind, Option.bind_eq_some_iff, Option.some.injEq] at hrows
    obtain ⟨first, hfirst, rest, hrest, rfl⟩ := hrows
    rcases List.mem_cons.1 hrow with rfl | hrow
    · obtain ⟨text, -, hrow⟩ : ∃ text, textBand lc i s _ _ _ = some text ∧ _ := by
        simpa only [renderRow, Option.bind_eq_bind, Option.bind_eq_some_iff] using hfirst
      obtain ⟨hi, hy⟩ : row.item = i ∧ row.y = y := by
        rw [← Option.some.inj hrow]
        exact ⟨rfl, rfl⟩
      rw [hi, hy, ← hs]
      exact hfirst
    · refine ih ?_ hrest hrow
      by_cases hi : i ≥ 0
      · rw [dif_pos hi, hs, show (i + 1).toNat = i.toNat + 1 by omega, lbxSkip_succ']
      · rw [dif_neg hi, hs, show (i + 1).toNat = i.toNat by omega]
  | case2 y i s hy =>
    obtain rfl := Option.some.inj hrows
    cases hrow

theorem lbxLimitY_of_mem {y : Int} (h : lc.y ≤ y) (h' : y ≤ lc.y + lc.height) : lbxLimitY lc y = y := by
  unfold lbxLimitY
  split_ifs <;> omega

/-- An entry's row draws the whole font line where that lies inside the list box. -/
theorem renderRow_text {y i : Int} {s : List UInt8} {row : Row} (hrow : renderRow lc y i s = some row)
    (hi : 0 ≤ i) (hn : i < lc.nItems) (htop : lc.y ≤ y + lbxPad)
    (hbottom : y + lbxPad + fontHeight ≤ lc.y + lc.height) :
    ∃ pen, .text (lbxGetKeyText s lbxBufLen) lc.x (y + lbxPad) 0 lc.width fontHeight pen ∈ row.ops := by
  have h2 : lbxLimitY lc (y + lbxPad) = y + lbxPad :=
    lbxLimitY_of_mem htop (by simp only [fontHeight] at hbottom; omega)
  have h3 : lbxLimitY lc (y + lbxPad + fontHeight) = y + lbxPad + fontHeight :=
    lbxLimitY_of_mem (by simp only [fontHeight]; omega) hbottom
  have hline : y + lbxPad + fontHeight - (y + lbxPad) = fontHeight := by omega
  simp only [renderRow, textBand, h2, h3, hline, Int.sub_self, show fontHeight > 0 by decide, if_true, hi, hn, and_self,
    Option.bind_eq_bind, Option.bind_eq_some_iff, Option.some.injEq] at hrow
  obtain ⟨text, ⟨alpha, -, windows, -, rfl⟩, rfl⟩ := hrow
  exact ⟨⟨alpha, true, i = lc.selectedItem⟩, by simp⟩

/-- The origins at which entry `k` is drawn whole. -/
theorem lbxRender_fullyShown {items : List UInt8} {es : List Entry} {k : Nat} (hh : 0 < lc.height) (ho : 0 ≤ lc.origin)
    (hitems : lc.items = some items) (hes : Items es items) (hlen : lc.nItems = es.length) (hk : k < es.length)
    (htop : lc.origin ≤ lbxItemHeight * k + lbxItemHeight + lbxPad)
    (hbottom : lbxItemHeight * k + lbxItemHeight + lbxPad + fontHeight - lc.height ≤ lc.origin) :
    ∃ rows, lbxRender lc = some rows ∧ FullyShown lc es rows k := by
  obtain ⟨rows, hrows, hr, -⟩ := lbxRender_rows hh ho hitems
  have hmem := hrows
  rw [lbxRender, hitems] at hmem
  simp only [lbxItemHeight, lbxPad, fontHeight] at htop hbottom
  -- the row over the first line of the text
  obtain ⟨row, hrow, hin⟩ := hr.cover (lc.y + 30 * k + 35 - lc.origin) (by omega) (by omega)
  have hplace := hr.place row hrow
  simp only [Row.Contains, lbxItemHeight, lbxPad, fontHeight] at hplace hin
  have hitem : row.item = k := by omega
  obtain ⟨e, he⟩ : ∃ e, es[k]? = some e := ⟨_, List.getElem?_eq_getElem hk⟩
  obtain ⟨s', hskip, -, -⟩ := hes.at he
  have hturn := renderFrom_mem items _ _ _ rfl hmem hrow
  rw [hitem, Int.toNat_natCast, hskip] at hturn
  have hy : lc.y ≤ row.y + lbxPad ∧ row.y + lbxPad + fontHeight ≤ lc.y + lc.height := by
    simp only [lbxPad, fontHeight]
    omega
  obtain ⟨pen, hpen⟩ := renderRow_text hturn (by omega) (by omega) hy.1 hy.2
  rw [lbxGetKeyText_cons] at hpen
  exact ⟨rows, hrows, ⟨e, he, row, hrow, hitem, pen, hpen, hy⟩⟩

/-- **Paging reaches every entry.** From the top, clicks down end at the maximal origin, on
the way every entry is drawn whole, and clicks up lead back to the top. -/
theorem keyDownClick_reaches {lc₀ lc : Lbx} {items : List UInt8} (hset : lbxSetItems lc₀ items = (lc, true))
    (hh : lc.height = 250) (h0 : lc.origin = 0) :
    ∃ es, Items es items ∧ lc.nItems = es.length ∧
      (∃ c₀, ∀ c, c₀ ≤ c → (keyDownClick^[c] lc).origin = max 0 (maxOrigin lc es.length)) ∧
      (∀ k, k < es.length → ∃ c rows, lbxRender (keyDownClick^[c] lc) = some rows ∧
        FullyShown (keyDownClick^[c] lc) es rows k) ∧
      ∀ c, ∃ u₀, ∀ u, u₀ ≤ u → (keyUpClick^[u] (keyDownClick^[c] lc)).origin = 0 := by
  obtain ⟨es, hes, hlc⟩ := lbxSetItems_accepts hset
  have hitems : lc.items = some items := by rw [hlc]
  have hlen : lc.nItems = es.length := by rw [hlc]
  have hbound : 0 ≤ max 0 (maxOrigin lc lc.nItems) := Int.le_max_left _ _
  refine ⟨es, hes, hlen, ⟨(max 0 (maxOrigin lc lc.nItems)).toNat, fun c hc => ?_⟩, fun k hk => ?_, fun c => ?_⟩
  · rw [keyDownClick_origin hh c h0, paged_end (by decide) (by omega), hlen]
  · have hk' : lbxItemHeight * k + lbxItemHeight + lbxPad + fontHeight - 250 ≤ max 0 (maxOrigin lc lc.nItems) := by
      rw [maxOrigin, hh, hlen, show (250 : Int).tdiv lbxItemHeight = 8 from rfl]
      simp only [lbxItemHeight, lbxPad, fontHeight]
      omega
    -- entry `k` is whole at 231 origins in a row
    obtain ⟨c, hlo, hhi⟩ := paged_window (show 0 < pageStep by decide) hbound hk'
      (show 0 ≤ lbxItemHeight * k + lbxItemHeight + lbxPad by simp only [lbxItemHeight, lbxPad, fontHeight]; omega)
      (by simp only [pageStep, fontHeight]; omega)
    refine ⟨c, ?_⟩
    rw [keyDownClick_origin hh c h0]
    exact lbxRender_fullyShown (show 0 < lc.height by omega)
      (show 0 ≤ paged _ _ c by simp only [paged, pageStep]; omega) hitems hes hlen hk hhi (by
        rw [hh]
        exact hlo)
  · have hdown : keyDownClick^[c] lc = { lc with origin := (keyDownClick^[c] lc).origin } := by
      rw [keyDownClick_origin hh c h0]
    refine ⟨(keyDownClick^[c] lc).origin.toNat, fun u hu => ?_⟩
    obtain ⟨hle, hnonneg, -⟩ := keyUpClick_origin
      (show (keyDownClick^[c] lc).height = 250 by rw [hdown, hh]) u
    have := hnonneg (by
      rw [keyDownClick_origin hh c h0]
      simp only [paged, pageStep]
      omega)
    simp only [pageStep] at hle
    omega

theorem keyDownClick_reaches_sample :
    lbxSetItems keyLbx sampleItems = (sampleLbx, true) ∧ ∃ es, Items es sampleItems ∧ es.length = 2 ∧
      ∃ c rows, lbxRender (keyDownClick^[c] sampleLbx) = some rows ∧
        FullyShown (keyDownClick^[c] sampleLbx) es rows 1 := by
  have hset : lbxSetItems keyLbx sampleItems = (sampleLbx, true) := by decide +kernel
  obtain ⟨es, hes, hlen, -, hshown, -⟩ := keyDownClick_reaches hset rfl rfl
  have h2 : es.length = 2 := by
    simp only [sampleLbx] at hlen
    omega
  exact ⟨hset, es, hes, h2, hshown 1 (by omega)⟩

end

end Keynjector.Ui
