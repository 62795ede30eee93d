import Keynjector.Lib.Display
import Keynjector.Lib.Rle
import Keynjector.Ui.Background
/-
# Bitmaps (`draw_bmp`, ui.c:120-194)

| here | there |
| --- | --- |
| `Bmp`         | `bmp_t` |
| `BmpState`    | `i`, `c` and `r`, `g`, `b` between two pixels |
| `bmpPixel`    | one turn of the pixel loop (`:164-187`) |
| `drawBmp`     | `draw_bmp` |
| `rleRuns`     | the compressed format: an even value is followed by its repeat count |
| `decodeBlend` | the bitmap decoded first, then blended pixel by pixel |

The colour of a run is computed in the row where the run starts, and a run goes on into the
next row, where the background is another. So `drawBmp` is `decodeBlend` exactly for the
bitmaps whose runs have the same colour in each row they reach.
-/

namespace Keynjector.Ui

open Display Rle

structure Bmp where
  width : Nat
  height : Nat
  pixelData : List UInt8

structure BmpState where
  i : Nat
  c : Int
  rgb : Option Rgb

/-- The weight of white for a value of the bitmap. -/
def weight (inverted : Bool) (alpha a : UInt8) : Nat :=
  let a := if inverted then 0xFF - a.toNat else a.toNat
  (a * alpha.toNat) >>> 8

def bmpPixel (bmp : Bmp) (inverted : Bool) (alpha : UInt8) (b : Rgb) (t : BmpState) : Option (Rgb × BmpState) :=
  if t.c = 0 then do
    let a ← bmp.pixelData[t.i]?
    if a &&& 1 = 0 then
      let n ← bmp.pixelData[t.i + 1]?
      let rgb := blend (weight inverted alpha a) b
      some (rgb, ⟨t.i + 2, (n.toNat : Int) - 1, some rgb⟩)
    else
      let rgb := blend (weight inverted alpha a) b
      some (rgb, ⟨t.i + 1, t.c, some rgb⟩)
  else do
    let rgb ← t.rgb
    some (rgb, ⟨t.i, t.c - 1, t.rgb⟩)

/-- The last `n` pixels of a row. -/
def bmpPixels (bmp : Bmp) (inverted : Bool) (alpha : UInt8) (b : Rgb) : Nat → BmpState → Option (List Rgb × BmpState)
  | 0, t => some ([], t)
  | n + 1, t => do
    let (c, t) ← bmpPixel bmp inverted alpha b t
    let (rest, t) ← bmpPixels bmp inverted alpha b n t
    some (c :: rest, t)

/-- The last `n` rows, the next one at `y`, between margins of `left` and `right` columns. -/
def bmpRows (bmp : Bmp) (inverted : Bool) (alpha : UInt8) (left right : Nat) :
    Nat → Int → BmpState → Option (List Rgb)
  | 0, _, _ => some []
  | n + 1, y, t => do
    let b ← bgRow y
    let (px, t) ← bmpPixels bmp inverted alpha b bmp.width t
    let rest ← bmpRows bmp inverted alpha left right n (y + 1) t
    some (List.replicate left b ++ px ++ List.replicate right b ++ rest)

/-- `x1 - x0` and `x2 - x` at the two margins. -/
def bmpLeft (bmp : Bmp) (width : Int) : Nat := ((width - bmp.width) / 2).toNat
def bmpRight (bmp : Bmp) (width : Int) : Nat := (width - (bmp.width + (width - bmp.width) / 2)).toNat

def drawBmp (bmp : Bmp) (x y width : Int) (inverted : Bool) (alpha : UInt8) : Option (List (Draw Rgb)) := do
  let px ← bmpRows bmp inverted alpha (bmpLeft bmp width) (bmpRight bmp width) bmp.height y ⟨0, 0, none⟩
  some (window x y (x + width - 1) (y + bmp.height - 1) px)

/-! ## Decode, then blend -/

/-- The runs of the compressed data; a repeat count of 0 is none. -/
def rleRuns : List UInt8 → Option (List (UInt8 × Nat))
  | [] => some []
  | a :: s =>
    if a &&& 1 = 0 then
      match s with
      | [] => none
      | n :: s => if n = 0 then none else (rleRuns s).map ((a, n.toNat) :: ·)
    else (rleRuns s).map ((a, 1) :: ·)

/-- `n` rows of decoded values from screen row `y` on, each blended with the background of its row. -/
def blendRows (inverted : Bool) (alpha : UInt8) (width left right : Nat) :
    List UInt8 → Nat → Int → Option (List Rgb)
  | _, 0, _ => some []
  | vs, n + 1, y => do
    let b ← bgRow y
    let px := (vs.take width).map fun a => blend (weight inverted alpha a) b
    let rest ← blendRows inverted alpha width left right (vs.drop width) n (y + 1)
    some (List.replicate left b ++ px ++ List.replicate right b ++ rest)

def decodeBlend (bmp : Bmp) (x y width : Int) (inverted : Bool) (alpha : UInt8) : Option (List (Draw Rgb)) := do
  let runs ← rleRuns bmp.pixelData
  let px ← blendRows inverted alpha bmp.width (bmpLeft bmp width) (bmpRight bmp width) (expand runs) bmp.height y
  some (window x y (x + width - 1) (y + bmp.height - 1) px)

/-- The colour of value `a` at position `i` of a bitmap drawn from screen row `y` on. -/
def colourAt (inverted : Bool) (alpha : UInt8) (y : Int) (width : Nat) (a : UInt8) (i : Nat) : Rgb :=
  blend (weight inverted alpha a) (bg.getD (y + (i / width : Nat)).toNat ⟨0, 0, 0⟩)

/-- `n` rows of colours between their margins. -/
def framed (width left right : Nat) : List Rgb → Nat → Int → Option (List Rgb)
  | _, 0, _ => some []
  | px, n + 1, y => do
    let b ← bgRow y
    let rest ← framed width left right (px.drop width) n (y + 1)
    some (List.replicate left b ++ px.take width ++ List.replicate right b ++ rest)

section

variable {bmp : Bmp} {inverted : Bool} {alpha : UInt8} {y : Int} {width left right : Nat}

theorem bg_of_bgRow {b : Rgb} (h : bgRow y = some b) : bg.getD y.toNat ⟨0, 0, 0⟩ = b := by
  unfold bgRow at h
  split_ifs at h
  rw [List.getD_eq_getElem?_getD, h, Option.getD_some]

theorem colourAt_row {b : Rgb} {r k : Nat} (hk : k < width) (hb : bgRow (y + r) = some b) (a : UInt8) :
    colourAt inverted alpha y width a (r * width + k) = blend (weight inverted alpha a) b := by
  have hrow : (r * width + k) / width = r := by
    rw [Nat.mul_comm, Nat.mul_add_div (by omega), Nat.div_eq_of_lt hk, Nat.add_zero]
  rw [colourAt, hrow, bg_of_bgRow hb]

/-- Frames tell their colours apart. -/
theorem framed_inj {px px' : List Rgb} (n : Nat) (hlen : px.length = n * width) (hlen' : px'.length = n * width)
    {u : List Rgb} (h : framed width left right px n y = some u) (h' : framed width left right px' n y = some u) :
    px = px' := by
  induction n generalizing px px' y u with
  | zero =>
    obtain rfl := List.eq_nil_of_length_eq_zero (show px.length = 0 by omega)
    obtain rfl := List.eq_nil_of_length_eq_zero (show px'.length = 0 by omega)
    rfl
  | succ n ih =>
    simp only [framed, Option.bind_eq_bind, Option.bind_eq_some_iff, Option.some.injEq] at h h'
    obtain ⟨b, hb, rest, hrest, rfl⟩ := h
    obtain ⟨b', hb', rest', hrest', heq⟩ := h'
    obtain rfl : b = b' := Option.some.inj (hb.symm.trans hb')
    rw [Nat.succ_mul] at hlen hlen'
    have htake : (px.take width).length = (px'.take width).length := by
      simp only [List.length_take]
      omega
    obtain ⟨hrow, rfl⟩ := List.append_inj heq.symm (by simp only [List.length_append, htake])
    obtain ⟨hrow, -⟩ := List.append_inj hrow (by simp only [List.length_append, htake])
    have hrow := List.append_cancel_left hrow
    have hdrop := ih (by rw [List.length_drop]; omega) (by rw [List.length_drop]; omega) hrest hrest'
    rw [← List.take_append_drop width px, hrow, hdrop, List.take_append_drop]

theorem framed_some (width left right : Nat) (n : Nat) (hy : 0 ≤ y) (hy' : y + n ≤ lcdHeight) (px : List Rgb) :
    ∃ u, framed width left right px n y = some u := by
  induction n generalizing px y with
  | zero => exact ⟨[], rfl⟩
  | succ n ih =>
    obtain ⟨b, hb⟩ := bgRow_some hy (by omega)
    obtain ⟨rest, hrest⟩ := ih (y := y + 1) (by omega) (by omega) (px.drop width)
    exact ⟨_, by rw [framed, hb, Option.bind_eq_bind, Option.bind_some, hrest]; rfl⟩

/-- Blending row by row, as a function of value and position. -/
theorem blendRows_framed (inverted : Bool) (alpha : UInt8) (left right : Nat) (vs : List UInt8) (n r : Nat)
    (hlen : vs.length = n * width) (hy : 0 ≤ y)
    (hy' : y + r + n ≤ lcdHeight) : blendRows inverted alpha width left right vs n (y + r) =
      framed width left right (perElement (colourAt inverted alpha y width) vs (r * width)) n (y + r) := by
  induction n generalizing vs r with
  | zero => rfl
  | succ n ih =>
    obtain ⟨b, hb⟩ := bgRow_some (show 0 ≤ y + r by omega) (by omega)
    rw [Nat.succ_mul] at hlen
    have htake : (vs.take width).length = width := by rw [List.length_take]; omega
    have hrow : perElement (colourAt inverted alpha y width) (vs.take width) (r * width) =
        (vs.take width).map fun a => blend (weight inverted alpha a) b := by
      refine List.ext_getElem (by simp [perElement]) fun k hk hk' => ?_
      rw [List.length_map, htake] at hk'
      simp only [perElement, List.getElem_mapIdx, List.getElem_map]
      exact colourAt_row hk' hb _
    have hsplit := perElement_append (colourAt inverted alpha y width) (vs.take width) (vs.drop width) (r * width)
    rw [List.take_append_drop, hrow, htake, ← Nat.succ_mul] at hsplit
    have hih := ih (vs.drop width) (r + 1) (by rw [List.length_drop]; omega) (by omega)
    rw [show y + (r + 1 : Nat) = y + r + 1 by omega] at hih
    rw [blendRows, framed, hb, hsplit, List.drop_left' (by rw [List.length_map, htake]),
      List.take_left' (by rw [List.length_map, htake])]
    simp only [Option.bind_eq_bind, Option.bind_some, hih]

/-! ## The loops -/

/-- What is left to draw from position `q` on: the rest of a run, then the runs not read yet. -/
def Left (bmp : Bmp) (f : UInt8 → Nat → Rgb) (q : Nat) (t : BmpState) (px : List Rgb) : Prop :=
  ∃ (n : Nat) (rgb : Rgb) (rs : List (UInt8 × Nat)), t.c = n ∧ (0 < n → t.rgb = some rgb) ∧
    rleRuns (bmp.pixelData.drop t.i) = some rs ∧ px = List.replicate n rgb ++ perRun f rs (q + n)

theorem drop_cons {α : Type} {l s : List α} {a : α} {i : Nat} (h : l.drop i = a :: s) :
    l[i]? = some a ∧ l.drop (i + 1) = s := by
  constructor
  · rw [← Nat.add_zero i, ← List.getElem?_drop, h]
    rfl
  · rw [← List.drop_drop, h]
    rfl

/-- The first run is a value with bit 0 clear and its count, or a value alone. -/
theorem rleRuns_cons {s : List UInt8} {a : UInt8} {n : Nat} {rs : List (UInt8 × Nat)}
    (h : rleRuns s = some ((a, n) :: rs)) :
    (a &&& 1 = 0 ∧ ∃ k s', s = a :: k :: s' ∧ 0 < n ∧ n = k.toNat ∧ rleRuns s' = some rs) ∨
      (a &&& 1 ≠ 0 ∧ n = 1 ∧ ∃ s', s = a :: s' ∧ rleRuns s' = some rs) := by
  unfold rleRuns at h
  split at h
  · cases h
  · rename_i a' s'
    split_ifs at h with ha
    · split at h
      · cases h
      · rename_i k s''
        split_ifs at h with hk
        simp only [Option.map_eq_some_iff, List.cons.injEq, Prod.mk.injEq] at h
        obtain ⟨rs', hrs, ⟨rfl, rfl⟩, rfl⟩ := h
        have hpos : 0 < k.toNat := Nat.pos_of_ne_zero fun h0 => hk (UInt8.toNat_inj.1 h0)
        exact .inl ⟨ha, k, s'', rfl, hpos, rfl, hrs⟩
    · simp only [Option.map_eq_some_iff, List.cons.injEq, Prod.mk.injEq] at h
      obtain ⟨rs', hrs, ⟨rfl, rfl⟩, rfl⟩ := h
      exact .inr ⟨ha, rfl, s', rfl, hrs⟩

variable {f : UInt8 → Nat → Rgb} {b : Rgb}

/-- **One pixel** takes the first of what is left. -/
theorem Left.pixel {q : Nat} {t : BmpState} {c : Rgb} {px : List Rgb} (h : Left bmp f q t (c :: px))
    (hf : ∀ a, f a q = blend (weight inverted alpha a) b) :
    ∃ t', bmpPixel bmp inverted alpha b t = some (c, t') ∧ Left bmp f (q + 1) t' px := by
  obtain ⟨n, rgb, rs, hc, hrgb, hrs, hpx⟩ := h
  cases n with
  | zero =>
    rw [List.replicate_zero, List.nil_append, Nat.add_zero] at hpx
    cases rs with
    | nil => cases hpx
    | cons r rs =>
      obtain ⟨a, n⟩ := r
      rcases rleRuns_cons hrs with ⟨ha, k, s', hs, hn, hk, hrs'⟩ | ⟨ha, rfl, s', hs, hrs'⟩
      · -- a run of `k` pixels starts here
        obtain ⟨hget, hnext⟩ := drop_cons hs
        obtain ⟨hget', hrest⟩ := drop_cons hnext
        obtain ⟨m, rfl⟩ : ∃ m, n = m + 1 := ⟨n - 1, by omega⟩
        rw [perRun, List.replicate_succ, List.cons_append, hf] at hpx
        obtain ⟨rfl, rfl⟩ := List.cons.inj hpx
        refine ⟨⟨t.i + 2, (k.toNat : Int) - 1, some (blend (weight inverted alpha a) b)⟩, ?_, m, _, rs,
          by simp only; omega, fun _ => rfl, by rw [← hrest] at hrs'; exact hrs', ?_⟩
        · simp only [bmpPixel, hc, hget, hget', ha, Int.natCast_zero, if_true, Option.bind_eq_bind, Option.bind_some]
        · rw [Nat.add_assoc, Nat.add_comm 1 m]
      · -- a single pixel
        obtain ⟨hget, hnext⟩ := drop_cons hs
        rw [perRun, List.replicate_one, List.singleton_append, hf] at hpx
        obtain ⟨rfl, rfl⟩ := List.cons.inj hpx
        refine ⟨⟨t.i + 1, t.c, some (blend (weight inverted alpha a) b)⟩, ?_, 0, b, rs, hc,
          fun h0 => absurd h0 (Nat.lt_irrefl 0), by rw [← hnext] at hrs'; exact hrs', rfl⟩
        simp only [bmpPixel, hc, hget, ha, Int.natCast_zero, if_true, if_false, Option.bind_eq_bind, Option.bind_some]
  | succ m =>
    rw [List.replicate_succ, List.cons_append] at hpx
    obtain ⟨rfl, rfl⟩ := List.cons.inj hpx
    have hne : ¬ t.c = 0 := by omega
    refine ⟨⟨t.i, t.c - 1, t.rgb⟩, ?_, m, c, rs, by simp only; omega, fun _ => hrgb (Nat.succ_pos m), hrs, ?_⟩
    · simp only [bmpPixel, hne, if_false, hrgb (Nat.succ_pos m), Option.bind_eq_bind, Option.bind_some]
    · rw [Nat.add_assoc, Nat.add_comm 1 m]

theorem Left.pixels {q : Nat} {t : BmpState} {px : List Rgb} (n : Nat) (h : Left bmp f q t px) (hn : n ≤ px.length)
    (hf : ∀ k, k < n → ∀ a, f a (q + k) = blend (weight inverted alpha a) b) :
    ∃ t', bmpPixels bmp inverted alpha b n t = some (px.take n, t') ∧ Left bmp f (q + n) t' (px.drop n) := by
  induction n generalizing q t px with
  | zero => exact ⟨t, rfl, h⟩
  | succ n ih =>
    cases px with
    | nil => exact absurd hn (Nat.not_succ_le_zero n)
    | cons c px =>
      obtain ⟨t1, hpixel, h1⟩ := h.pixel (hf 0 (Nat.succ_pos n))
      obtain ⟨t', hrest, h'⟩ := ih h1 (Nat.le_of_succ_le_succ hn) fun k hk a => by
        rw [Nat.add_assoc, Nat.add_comm 1 k]
        exact hf (k + 1) (Nat.succ_lt_succ hk) a
      refine ⟨t', by simp only [bmpPixels, hpixel, hrest, Option.bind_eq_bind, Option.bind_some]; rfl, ?_⟩
      rw [Nat.add_comm n 1, ← Nat.add_assoc]
      rwa [Nat.add_comm 1 n]

/-- **The row loop** frames what is left. -/
theorem Left.rows (left right : Nat) {t : BmpState} {px : List Rgb} (n r : Nat)
    (h : Left bmp (colourAt inverted alpha y bmp.width) (r * bmp.width) t px) (hlen : px.length = n * bmp.width)
    (hy : 0 ≤ y) (hy' : y + r + n ≤ lcdHeight) :
    bmpRows bmp inverted alpha left right n (y + r) t = framed bmp.width left right px n (y + r) := by
  induction n generalizing t px r with
  | zero => rfl
  | succ n ih =>
    obtain ⟨b, hb⟩ := bgRow_some (show 0 ≤ y + r by omega) (by omega)
    rw [Nat.succ_mul] at hlen
    obtain ⟨t', hpixels, h'⟩ := h.pixels (b := b) bmp.width (by omega) fun k hk a => colourAt_row hk hb a
    rw [← Nat.succ_mul] at h'
    have hih := ih (r + 1) h' (by rw [List.length_drop]; omega) (by omega)
    rw [show y + (r + 1 : Nat) = y + r + 1 by omega] at hih
    simp only [bmpRows, framed, hb, hpixels, hih, Option.bind_eq_bind, Option.bind_some]

theorem length_framed (px : List Rgb) (n : Nat) (hlen : px.length = n * width) {u : List Rgb}
    (h : framed width left right px n y = some u) : u.length = n * (left + width + right) := by
  induction n generalizing px y u with
  | zero =>
    obtain rfl := Option.some.inj h
    exact (Nat.zero_mul _).symm
  | succ n ih =>
    simp only [framed, Option.bind_eq_bind, Option.bind_eq_some_iff, Option.some.injEq] at h
    obtain ⟨b, -, rest, hrest, rfl⟩ := h
    rw [Nat.succ_mul] at hlen
    have hrest := ih (px.drop width) (by rw [List.length_drop]; omega) hrest
    simp only [List.length_append, List.length_replicate, List.length_take, hrest, Nat.succ_mul]
    omega

theorem bmp_columns {w : Int} (hw : bmp.width ≤ w) : bmpLeft bmp w + bmp.width + bmpRight bmp w = w.toNat := by
  simp only [bmpLeft, bmpRight]
  omega

/-- **Drawing is decoding and blending** exactly for bitmaps each of whose runs has one colour
in all the rows it reaches. Either way the window is filled. -/
theorem drawBmp_eq_decodeBlend_iff {runs : List (UInt8 × Nat)} (hruns : rleRuns bmp.pixelData = some runs)
    (hlen : (expand runs).length = bmp.width * bmp.height) (x : Int) {w : Int} (hw : bmp.width ≤ w) (hy : 0 ≤ y)
    (hy' : y + bmp.height ≤ lcdHeight) (inverted : Bool) (alpha : UInt8) :
    ∃ calls spec, drawBmp bmp x y w inverted alpha = some calls ∧ Filled calls ∧
      decodeBlend bmp x y w inverted alpha = some spec ∧
      (calls = spec ↔ Uniform (colourAt inverted alpha y bmp.width) runs 0) := by
  have hlen : (expand runs).length = bmp.height * bmp.width := by rw [hlen, Nat.mul_comm]
  have hper : (perRun (colourAt inverted alpha y bmp.width) runs 0).length = bmp.height * bmp.width := by
    rw [length_perRun, hlen]
  have helem : (perElement (colourAt inverted alpha y bmp.width) (expand runs) 0).length = bmp.height * bmp.width := by
    rw [perElement, List.length_mapIdx, hlen]
  have hstart : Left bmp (colourAt inverted alpha y bmp.width) (0 * bmp.width) ⟨0, 0, none⟩
      (perRun (colourAt inverted alpha y bmp.width) runs 0) :=
    ⟨0, ⟨0, 0, 0⟩, runs, rfl, fun h => absurd h (Nat.lt_irrefl 0), hruns, by simp⟩
  obtain ⟨px, hpx⟩ := framed_some bmp.width (bmpLeft bmp w) (bmpRight bmp w) bmp.height hy hy'
    (perRun (colourAt inverted alpha y bmp.width) runs 0)
  obtain ⟨px', hpx'⟩ := framed_some bmp.width (bmpLeft bmp w) (bmpRight bmp w) bmp.height hy hy'
    (perElement (colourAt inverted alpha y bmp.width) (expand runs) 0)
  have hrows := hstart.rows (bmpLeft bmp w) (bmpRight bmp w) bmp.height 0 hper hy (by omega)
  have hblend := blendRows_framed inverted alpha (bmpLeft bmp w) (bmpRight bmp w) (expand runs) bmp.height 0 hlen hy
    (by omega)
  simp only [Int.natCast_zero, Int.add_zero, Nat.zero_mul] at hrows hblend
  rw [hpx] at hrows
  rw [hpx'] at hblend
  have hdraw : drawBmp bmp x y w inverted alpha = some (window x y (x + w - 1) (y + bmp.height - 1) px) := by
    rw [drawBmp, hrows]
    rfl
  have hdecode : decodeBlend bmp x y w inverted alpha = some (window x y (x + w - 1) (y + bmp.height - 1) px') := by
    rw [decodeBlend, hruns, Option.bind_eq_bind, Option.bind_some, hblend]
    rfl
  refine ⟨_, _, hdraw, ?_, hdecode, ?_⟩
  · have hcount := length_framed _ _ hper hpx
    rw [bmp_columns hw] at hcount
    have hfilled : Filled (window x y (x + w - 1) (y + bmp.height - 1) px ++ []) :=
      Filled.window trivial rfl (by rw [area_window, hcount, Int.toNat_natCast, Nat.mul_comm])
    rwa [List.append_nil] at hfilled
  · rw [← perRun_eq_perElement_iff]
    constructor
    · intro h
      obtain rfl := window_inj h
      exact framed_inj bmp.height hper helem hpx hpx'
    · intro h
      rw [h, hpx'] at hpx
      rw [Option.some.inj hpx]

end

theorem drawBmp_eq_decodeBlend_iff_sample : rleRuns [254, 2, 1, 0, 3] = some [(254, 2), (1, 1), (0, 3)] ∧
    (expand [((254 : UInt8), 2), (1, 1), (0, 3)]).length = 3 * 2 ∧ ((3 : Nat) : Int) ≤ 5 ∧ (0 : Int) ≤ 10 ∧
    10 + ((2 : Nat) : Int) ≤ lcdHeight ∧
    ∃ calls spec, drawBmp ⟨3, 2, [254, 2, 1, 0, 3]⟩ 0 10 5 false 0xFF = some calls ∧
      decodeBlend ⟨3, 2, [254, 2, 1, 0, 3]⟩ 0 10 5 false 0xFF = some spec ∧
      (calls = spec ↔ Uniform (colourAt false 0xFF 10 3) [(254, 2), (1, 1), (0, 3)] 0) := by
  have hruns : rleRuns [254, 2, 1, 0, 3] = some [(254, 2), (1, 1), (0, 3)] := by decide
  have hlen : (expand [((254 : UInt8), 2), (1, 1), (0, 3)]).length = 3 * 2 := by decide
  have hscreen : 10 + ((2 : Nat) : Int) ≤ lcdHeight := by decide
  let bmp : Bmp := ⟨3, 2, [254, 2, 1, 0, 3]⟩
  obtain ⟨calls, spec, hcalls, -, hspec, hiff⟩ := drawBmp_eq_decodeBlend_iff
    (show rleRuns bmp.pixelData = some _ from hruns) hlen 0 (show ((3 : Nat) : Int) ≤ 5 by decide)
    (show (0 : Int) ≤ 10 by decide) hscreen false 0xFF
  exact ⟨hruns, hlen, by decide, by decide, hscreen, calls, spec, hcalls, hspec, hiff⟩

/-- `down_arrow` (`ui_data.h:687-714`). -/
def downArrow : Bmp :=
  ⟨27, 20,
    [141, 254, 25, 131, 183, 254, 23, 255, 255, 161, 69, 251, 255, 243, 113, 105, 104, 15, 101, 125, 223, 255, 243,
     77, 1, 131, 255, 245, 113, 0, 17, 107, 237, 255, 129, 9, 1, 19, 193, 255, 233, 65, 0, 15, 69, 219, 255, 183,
     31, 0, 3, 53, 243, 255, 199, 15, 0, 13, 27, 179, 255, 231, 69, 0, 5, 105, 255, 251, 147, 0, 13, 131, 251, 255,
     115, 7, 0, 5, 15, 169, 255, 235, 87, 0, 11, 81, 227, 255, 167, 25, 0, 7, 41, 229, 255, 207, 29, 0, 9, 39, 187,
     255, 215, 61, 0, 8, 1, 85, 255, 253, 163, 0, 8, 7, 139, 255, 253, 105, 1, 0, 9, 13, 145, 255, 237, 107, 0, 7,
     91, 239, 255, 153, 17, 0, 11, 35, 211, 255, 211, 49, 0, 5, 49, 199, 255, 201, 53, 0, 12, 1, 71, 254, 2, 175, 3,
     0, 3, 17, 149, 255, 241, 97, 0, 14, 11, 125, 255, 243, 123, 0, 3, 99, 251, 255, 145, 9, 0, 15, 31, 189, 255,
     217, 67, 1, 57, 215, 255, 189, 39, 0, 17, 61, 243, 255, 179, 41, 157, 255, 229, 87, 0, 18, 7, 109, 255, 241,
     219, 249, 255, 137, 0, 20, 27, 169, 255, 255, 255, 183, 25, 0, 21, 55, 227, 255, 219, 75, 0, 22, 3, 85, 205,
     107, 0, 12]⟩

/-- The arrow of the key list's down button, fully faded in: row 5 starts in the colour of row 4. -/
theorem downArrow_runs_on : ∃ runs calls spec, rleRuns downArrow.pixelData = some runs ∧
    (expand runs).length = downArrow.width * downArrow.height ∧
    drawBmp downArrow 151 275 27 false 0xFF = some calls ∧ decodeBlend downArrow 151 275 27 false 0xFF = some spec ∧
    calls[136]? = some (.write ⟨82, 157, 218⟩) ∧ spec[136]? = some (.write ⟨82, 158, 219⟩) ∧ calls ≠ spec := by
  have hlen : (rleRuns downArrow.pixelData).map (fun runs => (expand runs).length) =
      some (downArrow.width * downArrow.height) := by decide +kernel
  have hcalls : (drawBmp downArrow 151 275 27 false 0xFF).map (fun calls => calls[136]?) =
      some (some (.write ⟨82, 157, 218⟩)) := by decide +kernel
  have hspec : (decodeBlend downArrow 151 275 27 false 0xFF).map (fun calls => calls[136]?) =
      some (some (.write ⟨82, 158, 219⟩)) := by decide +kernel
  obtain ⟨runs, hruns, hlen⟩ := Option.map_eq_some_iff.1 hlen
  obtain ⟨calls, hdraw, hcalls⟩ := Option.map_eq_some_iff.1 hcalls
  obtain ⟨spec, hdecode, hspec⟩ := Option.map_eq_some_iff.1 hspec
  refine ⟨runs, calls, spec, hruns, hlen, hdraw, hdecode, hcalls, hspec, ?_⟩
  rintro rfl
  rw [hcalls] at hspec
  exact absurd hspec (by decide)

end Keynjector.Ui
