import Keynjector.Lib.Loop
import Keynjector.Lib.Segment
/-
# Sorting the touch samples (qsort.c)

| here | there |
| --- | --- |
| `scanUp`, `scanDown`  | the two scans of one turn (`qsort.c:31-34`) |
| `partitionTurn`       | the body of `while(i<j)` (`qsort.c:30-40`) |
| `quicksortInternal`   | `quicksort_internal` (`qsort.c:22-49`) |
| `quicksort`           | `quicksort` (`qsort.c:51-53`) |
| `calibSample`         | the sorting of one coordinate in `get_calib_point` (`main.c:365-379`) |

The first scan reads `x[i]` before it tests `i<last`; the second has no bound of its own
and stops at the pivot at the latest. An access outside the array is `none`, as are
turns or calls beyond `fuel`.
-/

namespace Keynjector.Firmware

open Keynjector.Loop Keynjector.Segment

/-- The array and the two indices of a partition. -/
structure Partition where
  x : List UInt32
  i : Int
  j : Int
deriving DecidableEq, Repr

/-- `x[i]<=x[pivot]&&i<last`. -/
def scanUpTest (x : List UInt32) (pivot last i : Int) : Option Bool := do
  let a ← load x i
  let p ← load x pivot
  some (decide (a ≤ p) && decide (i < last))

/-- `x[j]>x[pivot]`. -/
def scanDownTest (x : List UInt32) (pivot j : Int) : Option Bool := do
  let a ← load x j
  let p ← load x pivot
  some (decide (p < a))

def scanUp (fuel : Nat) (x : List UInt32) (pivot last : Int) : Int → Option Int :=
  whileLoop (scanUpTest x pivot last) (fun i => some (i + 1)) fuel

def scanDown (fuel : Nat) (x : List UInt32) (pivot : Int) : Int → Option Int :=
  whileLoop (scanDownTest x pivot) (fun j => some (j - 1)) fuel

def partitionTurn (fuel : Nat) (pivot last : Int) (s : Partition) : Option Partition := do
  let i ← scanUp fuel s.x pivot last s.i
  let j ← scanDown fuel s.x pivot s.j
  if i < j then
    let x ← swap s.x i j
    some ⟨x, i, j⟩
  else some ⟨s.x, i, j⟩

def quicksortInternal : Nat → List UInt32 → Int → Int → Option (List UInt32)
  | 0, _, _, _ => none
  | fuel + 1, x, first, last =>
    if first < last then do
      let s ← whileLoop (fun s : Partition => some (decide (s.i < s.j))) (partitionTurn fuel first last) fuel
        ⟨x, first, last⟩
      let x ← swap s.x first s.j
      let x ← quicksortInternal fuel x first (s.j - 1)
      quicksortInternal fuel x (s.j + 1) last
    else some x

def quicksort (fuel : Nat) (x : List UInt32) (size : Int) : Option (List UInt32) :=
  quicksortInternal fuel x 0 (size - 1)

/-- `CALIB_OVERSAMPLING` (`main.c:358`). -/
def calibOversampling : Nat := 100

/-- The coordinate that `get_calib_point` keeps of its samples. -/
def calibSample (fuel : Nat) (x : List UInt32) : Option UInt32 := do
  let x ← quicksort fuel x calibOversampling
  load x (calibOversampling / 2)

/-! ## The scans -/

variable {fuel : Nat} {x : List UInt32} {first last : Int}

theorem scanUpTest_eq (h0 : 0 ≤ first) (hf : first ≤ last) (hlast : last < x.length) {i : Int} (hi : first ≤ i)
    (hi' : i ≤ last) :
    scanUpTest x first last i = some (decide (elem x i ≤ elem x first) && decide (i < last)) := by
  simp [scanUpTest, load_eq (show 0 ≤ i by omega) (show i < x.length by omega),
    load_eq h0 (show first < x.length by omega)]

theorem scanDownTest_eq (h0 : 0 ≤ first) (hf : first ≤ last) (hlast : last < x.length) {j : Int} (hj : first ≤ j)
    (hj' : j ≤ last) : scanDownTest x first j = some (decide (elem x first < elem x j)) := by
  simp [scanDownTest, load_eq (show 0 ≤ j by omega) (show j < x.length by omega),
    load_eq h0 (show first < x.length by omega)]

/-- The first scan passes elements that are not above the pivot and stops at `last` or at one
that is. -/
theorem scanUp_spec (h0 : 0 ≤ first) (hlast : last < x.length) {i : Int} (hi : first ≤ i) (hi' : i ≤ last)
    (hfuel : last - i < fuel) : ∃ i', scanUp fuel x first last i = some i' ∧ i ≤ i' ∧ i' ≤ last ∧
      (∀ k, i ≤ k → k < i' → elem x k ≤ elem x first) ∧ (i' = last ∨ elem x first < elem x i') := by
  have htest : ∀ i', i ≤ i' → i' ≤ last → scanUpTest x first last i' =
      some (decide (elem x i' ≤ elem x first) && decide (i' < last)) := fun i' h h' =>
    scanUpTest_eq h0 (by omega) hlast (by omega) h'
  obtain ⟨i', hrun, ⟨hii', hle, hpassed⟩, hstop⟩ := whileLoop_spec
    (fun i' => i ≤ i' ∧ i' ≤ last ∧ ∀ k, i ≤ k → k < i' → elem x k ≤ elem x first)
    (fun i' => (last - i').toNat) (fun i' h => ⟨_, htest i' h.1 h.2.1⟩)
    (fun i' h hgo => by
      obtain ⟨h1, h2, h3⟩ := h
      simp only [htest i' h1 h2, Option.some.injEq, Bool.and_eq_true, decide_eq_true_eq] at hgo
      refine ⟨i' + 1, rfl, ⟨by omega, by omega, fun k hk hk' => ?_⟩, by omega⟩
      by_cases hki : k = i'
      · exact hki ▸ hgo.1
      · exact h3 k hk (by omega))
    (show _ ∧ _ ∧ _ from ⟨Int.le_refl i, hi', fun k hk hk' => absurd hk' (by omega)⟩)
    (show (last - i).toNat < fuel by omega)
  refine ⟨i', hrun, hii', hle, hpassed, ?_⟩
  simp only [htest i' hii' hle, Option.some.injEq, Bool.and_eq_false_iff, decide_eq_false_iff_not] at hstop
  rcases hstop with h | h
  · exact Or.inr (UInt32.not_le.mp h)
  · exact Or.inl (by omega)

/-- The second scan passes elements above the pivot; the pivot itself stops it. -/
theorem scanDown_spec (h0 : 0 ≤ first) (hlast : last < x.length) {j : Int} (hj : first ≤ j) (hj' : j ≤ last)
    (hfuel : j - first < fuel) : ∃ j', scanDown fuel x first j = some j' ∧ first ≤ j' ∧ j' ≤ j ∧
      (∀ k, j' < k → k ≤ j → elem x first < elem x k) ∧ elem x j' ≤ elem x first := by
  have htest : ∀ j', first ≤ j' → j' ≤ j → scanDownTest x first j' =
      some (decide (elem x first < elem x j')) := fun j' h h' =>
    scanDownTest_eq h0 (by omega) hlast h (Int.le_trans h' hj')
  obtain ⟨j', hrun, ⟨hfj, hjj, hpassed⟩, hstop⟩ := whileLoop_spec
    (fun j' => first ≤ j' ∧ j' ≤ j ∧ ∀ k, j' < k → k ≤ j → elem x first < elem x k)
    (fun j' => (j' - first).toNat) (fun j' h => ⟨_, htest j' h.1 h.2.1⟩)
    (fun j' h hgo => by
      obtain ⟨h1, h2, h3⟩ := h
      simp only [htest j' h1 h2, Option.some.injEq, decide_eq_true_eq] at hgo
      have hne : j' ≠ first := by
        rintro rfl
        exact UInt32.lt_irrefl _ hgo
      refine ⟨j' - 1, rfl, ⟨by omega, by omega, fun k hk hk' => ?_⟩, by omega⟩
      by_cases hkj : k = j'
      · exact hkj ▸ hgo
      · exact h3 k (by omega) hk')
    (show _ ∧ _ ∧ _ from ⟨hj, Int.le_refl j, fun k hk hk' => absurd hk' (by omega)⟩)
    (show (j - first).toNat < fuel by omega)
  refine ⟨j', hrun, hfj, hjj, hpassed, ?_⟩
  simp only [htest j' hfj hjj, Option.some.injEq, decide_eq_false_iff_not] at hstop
  exact UInt32.not_lt.mp hstop

/-! ## The partition -/

/-- Before each turn: the array is a rearrangement of `x` with the pivot in place, what
the first scan passed is not above it, what the second scan passed is above it, and the
element at the index that decides is not above it. -/
structure Partition.Inv (x : List UInt32) (first last : Int) (s : Partition) : Prop where
  rearranges : Rearranges first last x s.x
  i_range : first ≤ s.i ∧ s.i ≤ last
  j_range : first ≤ s.j ∧ s.j ≤ last
  passedUp : ∀ k, first ≤ k → k < s.i → elem s.x k ≤ elem s.x first
  passedDown : ∀ k, s.j < k → k ≤ last → elem s.x first < elem s.x k
  decides : elem s.x (if s.i < s.j then s.i else s.j) ≤ elem s.x first

theorem Partition.Inv.init (hlt : first < last) : Partition.Inv x first last ⟨x, first, last⟩ where
  rearranges := .refl first last x
  i_range := ⟨Int.le_refl _, Int.le_of_lt hlt⟩
  j_range := ⟨Int.le_of_lt hlt, Int.le_refl _⟩
  passedUp k hk hk' := absurd hk' (by simp only; omega)
  passedDown k hk hk' := absurd hk (by simp only; omega)
  decides := by rw [if_pos hlt]; exact UInt32.le_refl _

/-- **One turn** keeps the invariant and brings the indices closer. -/
theorem partitionTurn_spec (h0 : 0 ≤ first) (hlast : last < x.length) (hfuel : last - first < fuel) {s : Partition}
    (h : s.Inv x first last) (hgo : s.i < s.j) : ∃ s', partitionTurn fuel first last s = some s' ∧
      s'.Inv x first last ∧ (s'.j - s'.i).toNat < (s.j - s.i).toNat := by
  obtain ⟨hre, ⟨hi, hi'⟩, ⟨hj, hj'⟩, hup, hdown, hdec⟩ := h
  rw [if_pos hgo] at hdec
  have hlen : last < s.x.length := by rw [hre.length_eq]; exact hlast
  obtain ⟨i, hrunUp, hsi, hil, hpassUp, hstopUp⟩ := scanUp_spec h0 hlen hi hi'
    (show last - s.i < fuel by omega)
  obtain ⟨j, hrunDown, hfj, hjs, hpassDown, hstopDown⟩ := scanDown_spec h0 hlen hj hj'
    (show s.j - first < fuel by omega)
  have hup' : ∀ k, first ≤ k → k < i → elem s.x k ≤ elem s.x first := fun k hk hk' => by
    by_cases hks : k < s.i
    · exact hup k hk hks
    · exact hpassUp k (by omega) hk'
  have hdown' : ∀ k, j < k → k ≤ last → elem s.x first < elem s.x k := fun k hk hk' => by
    by_cases hks : k ≤ s.j
    · exact hpassDown k hk hks
    · exact hdown k (by omega) hk'
  -- the element at the old `i` is passed, so `i` moves
  have hmoved : s.i < i := by
    refine Int.lt_iff_le_and_ne.mpr ⟨hsi, fun he => ?_⟩
    rcases hstopUp with hl | habove
    · omega
    · exact UInt32.not_le.mpr habove (he ▸ hdec)
  have hirange : first ≤ i ∧ i ≤ last := ⟨by omega, hil⟩
  have hjrange : first ≤ j ∧ j ≤ last := ⟨hfj, by omega⟩
  have hcloser : (j - i).toNat < (s.j - s.i).toNat := by omega
  by_cases hij : i < j
  · obtain ⟨y, hy, hyre, hyi, hyj, hyrest⟩ :=
      swap_rearranges h0 hlen hirange.1 hirange.2 hjrange.1 hjrange.2
    have hyfirst : elem y first = elem s.x first := hyrest first h0 (by omega) (by omega)
    refine ⟨⟨y, i, j⟩, by simp [partitionTurn, hrunUp, hrunDown, hij, hy], ⟨hre.trans hyre, hirange, hjrange,
      fun k hk hk' => ?_, fun k hk hk' => ?_, ?_⟩, hcloser⟩
    · simp only at hk'
      rw [hyfirst, hyrest k (by omega) (by omega) (by omega)]
      exact hup' k hk hk'
    · simp only at hk
      rw [hyfirst, hyrest k (by omega) (by omega) (by omega)]
      exact hdown' k hk hk'
    · rw [if_pos hij, hyfirst, hyi]
      exact hstopDown
  · exact ⟨⟨s.x, i, j⟩, by simp [partitionTurn, hrunUp, hrunDown, hij], ⟨hre, hirange, hjrange, hup', hdown',
      by rw [if_neg hij]; exact hstopDown⟩, hcloser⟩

/-! ## The recursion -/

/-- **A segment inside the array is sorted**, by calls and loops that `fuel` bounds. -/
theorem quicksortInternal_spec {fuel : Nat} {x : List UInt32} {first last : Int} (h0 : 0 ≤ first)
    (hlast : last < x.length) (hfuel : last - first + 1 < fuel) (hpos : 0 < fuel) :
    ∃ y, quicksortInternal fuel x first last = some y ∧ Rearranges first last x y ∧ SortedOn first last y := by
  induction fuel generalizing x first last with
  | zero => exact absurd hpos (Nat.lt_irrefl 0)
  | succ fuel ih =>
    by_cases hlt : first < last
    · obtain ⟨s, hloop, hinv, hdone⟩ := whileLoop_spec (Partition.Inv x first last) (fun s => (s.j - s.i).toNat)
        (fun s _ => ⟨_, (rfl : (fun s : Partition => some (decide (s.i < s.j))) s = _)⟩)
        (fun s hs hgo => partitionTurn_spec h0 hlast (show last - first < fuel by omega) hs (by simpa using hgo))
        (Partition.Inv.init hlt) (show (last - first).toNat < fuel by omega)
      obtain ⟨hre, hi, ⟨hj, hj'⟩, hup, hdown, hdec⟩ := hinv
      have hij : ¬ s.i < s.j := by simpa using hdone
      rw [if_neg hij] at hdec
      have hlen : last < s.x.length := by rw [hre.length_eq]; exact hlast
      obtain ⟨y, hy, hyre, hyfirst, hyj, hyrest⟩ :=
        swap_rearranges h0 hlen (Int.le_refl first) (Int.le_of_lt hlt) hj hj'
      -- with the pivot at `j`, the elements are bounded on both sides of it
      have hle : ∀ k, first ≤ k → k ≤ s.j - 1 → elem y k ≤ elem y s.j := fun k hk hk' => by
        rw [hyj]
        by_cases hkf : k = first
        · rw [hkf, hyfirst]
          exact hdec
        · rw [hyrest k (by omega) hkf (by omega)]
          exact hup k hk (by omega)
      have hge : ∀ k, s.j + 1 ≤ k → k ≤ last → elem y s.j ≤ elem y k := fun k hk hk' => by
        rw [hyj, hyrest k (by omega) (by omega) (by omega)]
        exact Std.le_of_lt (hdown k (by omega) hk')
      have hylen : y.length = x.length := by rw [hyre.length_eq, hre.length_eq]
      obtain ⟨l, hl, hlre, hlsorted⟩ := ih (x := y) h0 (show s.j - 1 < y.length by omega) (by omega) (by omega)
      have hllen : l.length = x.length := by rw [hlre.length_eq, hylen]
      obtain ⟨r, hr, hrre, hrsorted⟩ := ih (x := l) (show 0 ≤ s.j + 1 by omega) (show last < l.length by omega)
        (by omega) (by omega)
      have hrj : elem r s.j = elem y s.j := by
        rw [hrre.outside s.j (by omega) (by omega), hlre.outside s.j (by omega) (by omega)]
      have hleft : ∀ k, first ≤ k → k ≤ s.j - 1 → elem r k = elem l k := fun k hk hk' =>
        hrre.outside k (by omega) (by omega)
      refine ⟨r, by simp [quicksortInternal, hlt, hloop, hy, hl, hr],
        ((hre.trans hyre).trans (hlre.widen h0 (Int.le_refl _) (by omega))).trans
          (hrre.widen h0 (by omega) (Int.le_refl _)), ?_⟩
      refine SortedOn.join (j := s.j) (fun k m hk hkm hm => ?_) hrsorted (fun k hk hk' => ?_) (fun k hk hk' => ?_)
      · rw [hleft k hk (by omega), hleft m (by omega) hm]
        exact hlsorted k m hk hkm hm
      · rw [hleft k hk hk', hrj]
        exact hlre.forall_mem (P := (· ≤ elem y s.j)) hle hk hk'
      · rw [hrj]
        refine hrre.forall_mem (P := (elem y s.j ≤ ·)) (fun m hm hm' => ?_) hk hk'
        rw [hlre.outside m (by omega) (by omega)]
        exact hge m hm hm'
    · refine ⟨x, by simp [quicksortInternal, hlt], .refl first last x, fun k l hk hkl hl => ?_⟩
      have : k = l := by omega
      exact this ▸ UInt32.le_refl _

theorem quicksort_spec {fuel : Nat} (x : List UInt32) (hfuel : x.length < fuel) :
    ∃ y, quicksort fuel x x.length = some y ∧ y.Perm x ∧ y.Pairwise (· ≤ ·) := by
  obtain ⟨y, hy, hre, hsorted⟩ := quicksortInternal_spec (x := x) (Int.le_refl 0)
    (show (x.length : Int) - 1 < x.length by omega) (show (x.length : Int) - 1 - 0 + 1 < fuel by omega) (by omega)
  exact ⟨y, hy, hre.perm, SortedOn.pairwise (by rwa [hre.length_eq])⟩

/-- **Sorting**: whatever the samples, `quicksort` ends without an access outside the array, and
leaves a rearrangement of them in order; so each of its elements is the order statistic
of the samples at its index. -/
theorem quicksort_sorts (x : List UInt32) : ∃ y, (∀ fuel, x.length < fuel → quicksort fuel x x.length = some y) ∧
    y.Perm x ∧ y.Pairwise (· ≤ ·) ∧ ∀ k v, load y k = some v → IsOrderStatistic x k.toNat v := by
  obtain ⟨y, hy, hperm, hsorted⟩ := quicksort_spec x (Nat.lt_succ_self x.length)
  refine ⟨y, fun fuel hfuel => ?_, hperm, hsorted, fun k v hv => ?_⟩
  · obtain ⟨z, hz, hzperm, hzsorted⟩ := quicksort_spec x hfuel
    rw [hz, (hzperm.trans hperm.symm).eq_of_pairwise (fun a b _ _ h h' => UInt32.le_antisymm h h') hzsorted hsorted]
  · unfold load at hv
    split at hv
    · obtain ⟨hk, rfl⟩ := List.getElem?_eq_some_iff.mp hv
      exact (isOrderStatistic_of_pairwise hsorted hk).of_perm hperm
    · exact absurd hv (by simp)

/-- The coordinate kept of a full set of samples is their upper median. -/
theorem calibSample_orderStatistic {x : List UInt32} (hx : x.length = calibOversampling) {fuel : Nat}
    (hfuel : calibOversampling < fuel) : ∃ v, calibSample fuel x = some v ∧ IsOrderStatistic x 50 v := by
  obtain ⟨y, hy, hperm, hsorted⟩ := quicksort_spec x (hx ▸ hfuel)
  have hlen : y.length = 100 := by rw [hperm.length_eq, hx, calibOversampling]
  have hk : 50 < y.length := by omega
  refine ⟨y[50], ?_, (isOrderStatistic_of_pairwise hsorted hk).of_perm hperm⟩
  have hload : load y (calibOversampling / 2) = some y[50] := List.getElem?_eq_getElem hk
  rw [hx] at hy
  simp [calibSample, hy, hload]

end Keynjector.Firmware
