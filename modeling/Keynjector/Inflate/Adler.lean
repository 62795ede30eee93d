import Keynjector.Inflate.Expect
/-
# The checksum (tinfl.c:373-390)

Eight bytes a turn, no remainder before the end of a block of 5552 bytes, and only what a call
put out: this still is the checksum of all output, as the sums of a block fit in 32 bits.
-/

namespace Keynjector.Inflate

open Deflate (adler adlerBytes)

/-- Both sums without a remainder, and with one after every byte -/
def sums (s : Nat × Nat) (bs : List UInt8) : Nat × Nat := bs.foldl (fun (a, b) x => (a + x.toNat, b + (a + x.toNat))) s

def remainders (s : Nat × Nat) (bs : List UInt8) : Nat × Nat :=
  bs.foldl (fun (a, b) x => ((a + x.toNat) % 65521, (b + (a + x.toNat)) % 65521)) s

def adlerValue (bs : List UInt8) : Nat := (adler bs).2 * 65536 + (adler bs).1

theorem remainders_append (s : Nat × Nat) (xs ys : List UInt8) :
    remainders s (xs ++ ys) = remainders (remainders s xs) ys := List.foldl_append ..

theorem adler_append (xs ys : List UInt8) : adler (xs ++ ys) = remainders (adler xs) ys := List.foldl_append ..

theorem remainders_eq (a b : Nat) (bs : List UInt8) :
    remainders (a % 65521, b % 65521) bs = ((sums (a, b) bs).1 % 65521, (sums (a, b) bs).2 % 65521) := by
  induction bs generalizing a b with
  | nil => rfl
  | cons x bs ih =>
    rw [show sums (a, b) (x :: bs) = sums (a + x.toNat, b + (a + x.toNat)) bs from rfl, ← ih]
    show remainders ((a % 65521 + x.toNat) % 65521, (b % 65521 + (a % 65521 + x.toNat)) % 65521) bs = _
    congr 2 <;> omega

theorem remainders_lt {s : Nat × Nat} (h : s.1 < 65521 ∧ s.2 < 65521) (bs : List UInt8) :
    (remainders s bs).1 < 65521 ∧ (remainders s bs).2 < 65521 := by
  induction bs generalizing s with
  | nil => exact h
  | cons x bs ih => exact ih ⟨Nat.mod_lt _ (by decide), Nat.mod_lt _ (by decide)⟩

theorem adler_lt (bs : List UInt8) : (adler bs).1 < 65521 ∧ (adler bs).2 < 65521 := by
  have := remainders_lt (s := (1, 0)) (by decide) bs
  exact this

/-- The sums grow by 255 a byte at most. -/
theorem sums_le (a b : Nat) (bs : List UInt8) :
    (sums (a, b) bs).1 ≤ a + 255 * bs.length ∧
      2 * (sums (a, b) bs).2 ≤ 2 * b + 2 * (bs.length * a) + 255 * (bs.length * (bs.length + 1)) := by
  induction bs generalizing a b with
  | nil => exact ⟨Nat.le_refl _, Nat.le_add_right ..⟩
  | cons x bs ih =>
    obtain ⟨h1, h2⟩ := ih (a + x.toNat) (b + (a + x.toNat))
    have hx : x.toNat ≤ 255 := Nat.le_pred_of_lt x.toNat_lt
    rw [show sums (a, b) (x :: bs) = sums (a + x.toNat, b + (a + x.toNat)) bs from rfl, List.length_cons]
    have hmul : bs.length * x.toNat ≤ bs.length * 255 := Nat.mul_le_mul_left _ hx
    constructor
    · omega
    · calc 2 * (sums (a + x.toNat, b + (a + x.toNat)) bs).2
          ≤ 2 * (b + (a + x.toNat)) + 2 * (bs.length * (a + x.toNat)) + 255 * (bs.length * (bs.length + 1)) := h2
        _ = 2 * b + 2 * ((bs.length + 1) * a) + (2 * x.toNat + 2 * (bs.length * x.toNat)) + 255 * (bs.length * (bs.length + 1)) := by
          ring
        _ ≤ 2 * b + 2 * ((bs.length + 1) * a) + (2 * 255 + 2 * (bs.length * 255)) + 255 * (bs.length * (bs.length + 1)) := by omega
        _ = 2 * b + 2 * ((bs.length + 1) * a) + 255 * ((bs.length + 1) * (bs.length + 1 + 1)) := by ring

/-! ## A block -/

theorem adlerBlock_eq (bs : List UInt8) (s : UInt32 × UInt32) :
    adlerBlock bs s = bs.foldl (fun (s1, s2) b => (s1 + b.toUInt32, s2 + (s1 + b.toUInt32))) s := by
  fun_induction adlerBlock bs s with
  | case1 b0 b1 b2 b3 b4 b5 b6 b7 bs s1 s2 _ _ _ _ _ _ _ _ _ _ _ _ _ _ _ _ ih =>
    simp only [List.foldl_cons]
    exact ih
  | case2 b bs s1 s2 _ ih => exact ih
  | case3 s => rfl

/-- The sums of up to 5552 bytes do not overflow. -/
theorem adlerBlock_toNat {bs : List UInt8} (hlen : bs.length ≤ 5552) {s1 s2 : UInt32} (h1 : s1.toNat < 65521) (h2 : s2.toNat < 65521) :
    ((adlerBlock bs (s1, s2)).1.toNat, (adlerBlock bs (s1, s2)).2.toNat) = sums (s1.toNat, s2.toNat) bs := by
  have hmono : ∀ (s : Nat × Nat) (bs : List UInt8), s.1 ≤ (sums s bs).1 ∧ s.2 ≤ (sums s bs).2 := by
    intro s bs
    induction bs generalizing s with
    | nil => exact ⟨Nat.le_refl _, Nat.le_refl _⟩
    | cons x bs ih =>
      obtain ⟨ha, hb⟩ := ih (s.1 + x.toNat, s.2 + (s.1 + x.toNat))
      exact ⟨(Nat.le_add_right _ _).trans ha, (Nat.le_add_right _ _).trans hb⟩
  suffices h : ∀ (bs : List UInt8) (s1 s2 : UInt32), (sums (s1.toNat, s2.toNat) bs).1 < 2 ^ 32 →
      (sums (s1.toNat, s2.toNat) bs).2 < 2 ^ 32 →
        ((adlerBlock bs (s1, s2)).1.toNat, (adlerBlock bs (s1, s2)).2.toNat) = sums (s1.toNat, s2.toNat) bs by
    obtain ⟨ha, hb⟩ := sums_le s1.toNat s2.toNat bs
    have hsquare : bs.length * (bs.length + 1) ≤ 5552 * 5553 := Nat.mul_le_mul hlen (Nat.succ_le_succ hlen)
    have hprod : bs.length * s1.toNat ≤ 5552 * 65520 := Nat.mul_le_mul hlen (Nat.le_of_lt_succ h1)
    exact h bs s1 s2 (by omega) (by omega)
  intro bs
  induction bs with
  | nil =>
    intro s1 s2 _ _
    rw [adlerBlock_eq]
    rfl
  | cons x bs ih =>
    intro s1 s2 ha hb
    obtain ⟨hma, hmb⟩ := hmono (s1.toNat + x.toNat, s2.toNat + (s1.toNat + x.toNat)) bs
    rw [show sums (s1.toNat, s2.toNat) (x :: bs) = sums (s1.toNat + x.toNat, s2.toNat + (s1.toNat + x.toNat)) bs from rfl] at ha hb ⊢
    have hx : (s1 + x.toUInt32).toNat = s1.toNat + x.toNat := by
      rw [UInt32.toNat_add, UInt8.toNat_toUInt32, Nat.mod_eq_of_lt (by omega)]
    have hy : (s2 + (s1 + x.toUInt32)).toNat = s2.toNat + (s1.toNat + x.toNat) := by
      rw [UInt32.toNat_add, hx, Nat.mod_eq_of_lt (by omega)]
    have hnext := ih (s1 + x.toUInt32) (s2 + (s1 + x.toUInt32))
    rw [hx, hy] at hnext
    rw [adlerBlock_eq] at hnext ⊢
    exact hnext ha hb

/-! ## All blocks -/

theorem adlerBlocks_toNat (fuel : Nat) (buf : List UInt8) (s1 s2 : UInt32) {blockLen : Nat} (hblock : blockLen ≤ 5552)
    (h1 : s1.toNat < 65521) (h2 : s2.toNat < 65521) (hbuf : buf = [] ∨ 0 < fuel ∧ buf.length ≤ blockLen + 5552 * (fuel - 1)) :
    ((adlerBlocks buf blockLen s1 s2 fuel).1.toNat, (adlerBlocks buf blockLen s1 s2 fuel).2.toNat) =
      remainders (s1.toNat, s2.toNat) buf := by
  induction fuel generalizing buf blockLen s1 s2 with
  | zero =>
    obtain rfl := hbuf.resolve_right fun h => Nat.lt_irrefl 0 h.1
    rfl
  | succ fuel ih =>
    rw [adlerBlocks]
    by_cases hnil : buf = []
    · rw [if_pos hnil, hnil]
      rfl
    · rw [if_neg hnil]
      have hlen := (hbuf.resolve_left hnil).2
      have htake : (buf.take blockLen).length ≤ 5552 := (List.length_take_le _ _).trans hblock
      have hsums := adlerBlock_toNat htake h1 h2
      have hmod := remainders_eq s1.toNat s2.toNat (buf.take blockLen)
      rw [Nat.mod_eq_of_lt h1, Nat.mod_eq_of_lt h2, ← hsums] at hmod
      have hp : (65521 : UInt32).toNat = 65521 := rfl
      have hnext := ih (buf.drop blockLen) ((adlerBlock (buf.take blockLen) (s1, s2)).1 % 65521)
        ((adlerBlock (buf.take blockLen) (s1, s2)).2 % 65521) (Nat.le_refl 5552)
        (by rw [UInt32.toNat_mod, hp]; exact Nat.mod_lt _ (by decide)) (by rw [UInt32.toNat_mod, hp]; exact Nat.mod_lt _ (by decide))
        (by
          rw [← List.length_eq_zero_iff, List.length_drop]
          omega)
      rw [UInt32.toNat_mod, UInt32.toNat_mod, hp, ← hmod, ← remainders_append, List.take_append_drop] at hnext
      exact hnext

/-- What a call adds to the checksum -/
theorem updateAdler_append (xs ys : List UInt8) : updateAdler (adlerValue xs) ys = adlerValue (xs ++ ys) := by
  obtain ⟨h1, h2⟩ := adler_lt xs
  have hlow : (UInt32.ofNat (adlerValue xs &&& 0xffff)).toNat = (adler xs).1 := by
    rw [UInt32.toNat_ofNat', Nat.and_two_pow_sub_one_eq_mod _ 16, adlerValue]
    omega
  have hhigh : (UInt32.ofNat (adlerValue xs >>> 16)).toNat = (adler xs).2 := by
    rw [UInt32.toNat_ofNat', Nat.shiftRight_eq_div_pow, adlerValue]
    omega
  have hblocks := adlerBlocks_toNat (ys.length / 5552 + 2) ys (UInt32.ofNat (adlerValue xs &&& 0xffff))
    (UInt32.ofNat (adlerValue xs >>> 16)) (Nat.le_of_lt (Nat.mod_lt ys.length (by decide : 0 < 5552))) (by rwa [hlow])
    (by rwa [hhigh]) (.inr ⟨Nat.succ_pos _, by omega⟩)
  rw [hlow, hhigh, Prod.mk.eta, ← adler_append] at hblocks
  obtain ⟨h1', h2'⟩ := adler_lt (xs ++ ys)
  unfold updateAdler
  generalize adlerBlocks ys (ys.length % 5552) (UInt32.ofNat (adlerValue xs &&& 0xffff)) (UInt32.ofNat (adlerValue xs >>> 16))
    (ys.length / 5552 + 2) = s at hblocks ⊢
  obtain ⟨s1, s2⟩ := s
  rw [adlerValue, ← hblocks]
  rw [← hblocks] at h1' h2'
  dsimp only at h1' h2' ⊢
  rw [UInt32.toNat_add, UInt32.toNat_shiftLeft, Nat.shiftLeft_eq]
  show (s2.toNat * 2 ^ 16 % 2 ^ 32 + s1.toNat) % 2 ^ 32 = s2.toNat * 65536 + s1.toNat
  omega

/-- **The checksum.** Over any cuts the checksum kept across calls is the Adler-32 of all the output. -/
theorem updateAdler_calls (outs : List (List UInt8)) : outs.foldl updateAdler 1 = adlerValue outs.flatten := by
  have hrun : ∀ xs, outs.foldl updateAdler (adlerValue xs) = adlerValue (xs ++ outs.flatten) := by
    intro xs
    induction outs generalizing xs with
    | nil => rw [List.flatten_nil, List.append_nil, List.foldl_nil]
    | cons out outs ih => rw [List.foldl_cons, updateAdler_append, ih, List.flatten_cons, List.append_assoc]
  exact hrun []

theorem beNat_four (a b c d : UInt8) :
    beNat [a, b, c, d] = ((a.toNat * 256 + b.toNat) * 256 + c.toNat) * 256 + d.toNat := by
  have hstep : ∀ (n : Nat) (b : UInt8), (n <<< 8 ||| b.toNat) % 2 ^ 32 = (256 * n + b.toNat) % 2 ^ 32 := by
    intro n b
    rw [Nat.or_comm, or_shiftLeft (b.toNat_lt : b.toNat < 2 ^ 8), Nat.add_comm]
    rfl
  have ha := a.toNat_lt
  have hb := b.toNat_lt
  have hc := c.toNat_lt
  have hd := d.toNat_lt
  unfold beNat
  simp only [List.foldl_cons, List.foldl_nil, hstep]
  omega

/-- The checksum at the end of a zlib stream -/
theorem beNat_adlerBytes (bs : List UInt8) : beNat (adlerBytes bs).toList = adlerValue bs := by
  obtain ⟨h1, h2⟩ := adler_lt bs
  show beNat [_, _, _, _] = _
  rw [beNat_four, adlerValue]
  simp only [UInt8.toNat_ofNat']
  omega

theorem beNat_inj {s t : Vector UInt8 4} (h : beNat s.toList = beNat t.toList) : s = t := by
  match s, t, h with
  | ⟨⟨[a, b, c, d]⟩, _⟩, ⟨⟨[a', b', c', d']⟩, _⟩, h =>
    have h : beNat [a, b, c, d] = beNat [a', b', c', d'] := h
    rw [beNat_four, beNat_four] at h
    have ha := a.toNat_lt
    have hb := b.toNat_lt
    have hc := c.toNat_lt
    have hd := d.toNat_lt
    have ha' := a'.toNat_lt
    have hb' := b'.toNat_lt
    have hc' := c'.toNat_lt
    have hd' := d'.toNat_lt
    obtain rfl : a = a' := UInt8.toNat_inj.1 (by omega)
    obtain rfl : b = b' := UInt8.toNat_inj.1 (by omega)
    obtain rfl : c = c' := UInt8.toNat_inj.1 (by omega)
    obtain rfl : d = d' := UInt8.toNat_inj.1 (by omega)
    rfl

end Keynjector.Inflate
