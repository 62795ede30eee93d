import Mathlib.Data.List.GetD
/-
# Rearranging a segment of an array in place

The indices are integers and every access is checked: one outside the array is
`none`. `Rearranges first last x y` says that `y` is `x` with the elements from
`first` to `last` in another order, `SortedOn` that this segment is in order. The
element at index `k` of the sorted array is the `k`-th order statistic.
-/

namespace Keynjector.Segment

universe u

variable {α : Type u}

def load (x : List α) (i : Int) : Option α := if 0 ≤ i then x[i.toNat]? else none

def store (x : List α) (i : Int) (v : α) : Option (List α) :=
  if 0 ≤ i ∧ i < x.length then some (x.set i.toNat v) else none

/-- `temp = x[i]; x[i] = x[j]; x[j] = temp`. -/
def swap (x : List α) (i j : Int) : Option (List α) := do
  let temp ← load x i
  let v ← load x j
  let x ← store x i v
  store x j temp

variable [Inhabited α]

/-- The element at an index of the array. -/
def elem (x : List α) (i : Int) : α := x.getD i.toNat default

theorem load_eq {x : List α} {i : Int} (h0 : 0 ≤ i) (h : i < x.length) : load x i = some (elem x i) := by
  have hi : i.toNat < x.length := by omega
  rw [load, if_pos h0, elem, List.getElem?_eq_getElem hi, List.getD_eq_getElem x default hi]

theorem elem_eq_getElem {x : List α} {k : Nat} (h : k < x.length) : elem x k = x[k] :=
  List.getD_eq_getElem x default h

theorem swap_spec {x : List α} {i j : Int} (hi0 : 0 ≤ i) (hi : i < x.length) (hj0 : 0 ≤ j) (hj : j < x.length) :
    ∃ y, swap x i j = some y ∧ y.Perm x ∧ elem y i = elem x j ∧ elem y j = elem x i ∧
      ∀ k, 0 ≤ k → k ≠ i → k ≠ j → elem y k = elem x k := by
  have hi' : i.toNat < x.length := by omega
  have hj' : j.toNat < x.length := by omega
  have hx : x[i.toNat] = elem x i := (List.getD_eq_getElem x default hi').symm
  have hy : x[j.toNat] = elem x j := (List.getD_eq_getElem x default hj').symm
  refine ⟨(x.set i.toNat (elem x j)).set j.toNat (elem x i), ?_, ?_, ?_, ?_, ?_⟩
  · simp [swap, load_eq hi0 hi, load_eq hj0 hj, store, hi0, hi, hj0, hj]
  · rw [← hx, ← hy]
    exact List.set_set_perm hi' hj'
  · by_cases h : i = j
    · subst h
      simp [elem, hi']
    · have hne : j.toNat ≠ i.toNat := by omega
      rw [elem, List.getD_eq_getElem?_getD, List.getElem?_set_ne hne, List.getElem?_set_self hi', Option.getD_some]
  · simp [elem, hj']
  · intro k hk hki hkj
    have h1 : j.toNat ≠ k.toNat := by omega
    have h2 : i.toNat ≠ k.toNat := by omega
    simp [elem, List.getD_eq_getElem?_getD, List.getElem?_set_ne h1, List.getElem?_set_ne h2]

/-! ## Rearrangements -/

structure Rearranges (first last : Int) (x y : List α) : Prop where
  perm : y.Perm x
  outside : ∀ k, 0 ≤ k → k < first ∨ last < k → elem y k = elem x k
  inside : ∀ k, first ≤ k → k ≤ last → ∃ l, first ≤ l ∧ l ≤ last ∧ elem y k = elem x l

variable {first last : Int} {x y z : List α}

theorem Rearranges.refl (first last : Int) (x : List α) : Rearranges first last x x :=
  ⟨.refl x, fun _ _ _ => rfl, fun k h h' => ⟨k, h, h', rfl⟩⟩

theorem Rearranges.trans (h : Rearranges first last x y) (h' : Rearranges first last y z) :
    Rearranges first last x z := by
  refine ⟨h'.perm.trans h.perm, fun k hk hout => (h'.outside k hk hout).trans (h.outside k hk hout), ?_⟩
  intro k hk hk'
  obtain ⟨l, hl, hl', hkl⟩ := h'.inside k hk hk'
  obtain ⟨m, hm, hm', hlm⟩ := h.inside l hl hl'
  exact ⟨m, hm, hm', hkl.trans hlm⟩

/-- A rearrangement of a part is one of the whole. -/
theorem Rearranges.widen {a b : Int} (h : Rearranges a b x y) (h0 : 0 ≤ first) (ha : first ≤ a) (hb : b ≤ last) :
    Rearranges first last x y := by
  refine ⟨h.perm, fun k hk hout => h.outside k hk (by omega), ?_⟩
  intro k hk hk'
  by_cases hin : a ≤ k ∧ k ≤ b
  · obtain ⟨l, hl, hl', hkl⟩ := h.inside k hin.1 hin.2
    exact ⟨l, by omega, by omega, hkl⟩
  · exact ⟨k, hk, hk', h.outside k (by omega) (by omega)⟩

/-- What holds of every element of the segment before holds of every one after. -/
theorem Rearranges.forall_mem {P : α → Prop} (h : Rearranges first last x y)
    (hP : ∀ k, first ≤ k → k ≤ last → P (elem x k)) {k : Int} (hk : first ≤ k) (hk' : k ≤ last) :
    P (elem y k) := by
  obtain ⟨l, hl, hl', hkl⟩ := h.inside k hk hk'
  exact hkl ▸ hP l hl hl'

theorem Rearranges.length_eq (h : Rearranges first last x y) : y.length = x.length := h.perm.length_eq

theorem swap_rearranges {i j : Int} (h0 : 0 ≤ first) (hlast : last < x.length) (hi : first ≤ i) (hi' : i ≤ last)
    (hj : first ≤ j) (hj' : j ≤ last) : ∃ y, swap x i j = some y ∧ Rearranges first last x y ∧
      elem y i = elem x j ∧ elem y j = elem x i ∧ ∀ k, 0 ≤ k → k ≠ i → k ≠ j → elem y k = elem x k := by
  obtain ⟨y, hy, hperm, hyi, hyj, hrest⟩ := swap_spec (x := x) (i := i) (j := j) (by omega) (by omega)
    (by omega) (by omega)
  refine ⟨y, hy, ⟨hperm, fun k hk hout => hrest k hk (by omega) (by omega), ?_⟩, hyi, hyj, hrest⟩
  intro k hk hk'
  by_cases hki : k = i
  · exact ⟨j, hj, hj', hki ▸ hyi⟩
  by_cases hkj : k = j
  · exact ⟨i, hi, hi', hkj ▸ hyj⟩
  · exact ⟨k, hk, hk', hrest k (by omega) hki hkj⟩

/-! ## Order -/

variable [LE α]

def SortedOn (first last : Int) (x : List α) : Prop := ∀ k l, first ≤ k → k ≤ l → l ≤ last → elem x k ≤ elem x l

theorem SortedOn.pairwise (h : SortedOn 0 (x.length - 1) x) : x.Pairwise (· ≤ ·) := by
  refine List.pairwise_iff_getElem.mpr fun k l hk hl hkl => ?_
  rw [← elem_eq_getElem hk, ← elem_eq_getElem hl]
  exact h k l (by omega) (by omega) (by omega)

/-- Two sorted parts around an element that bounds both. -/
theorem SortedOn.join [Std.IsLinearOrder α] {j : Int} (hl : SortedOn first (j - 1) x) (hr : SortedOn (j + 1) last x)
    (hle : ∀ k, first ≤ k → k ≤ j - 1 → elem x k ≤ elem x j)
    (hge : ∀ k, j + 1 ≤ k → k ≤ last → elem x j ≤ elem x k) : SortedOn first last x := by
  intro k l hk hkl hl'
  by_cases h1 : l ≤ j - 1
  · exact hl k l hk hkl h1
  by_cases h2 : j + 1 ≤ k
  · exact hr k l h2 hkl hl'
  have hkj : elem x k ≤ elem x j := by
    by_cases h : k = j
    · exact h ▸ Std.le_refl _
    · exact hle k hk (by omega)
  have hjl : elem x j ≤ elem x l := by
    by_cases h : l = j
    · exact h ▸ Std.le_refl _
    · exact hge l (by omega) hl'
  exact Std.le_trans hkj hjl

omit [Inhabited α]
variable [LT α] [DecidableLE α] [DecidableLT α]

/-- `v` is the `k`-th smallest element, counted from 0: at most `k` elements are below it,
more than `k` are not above it. -/
structure IsOrderStatistic (x : List α) (k : Nat) (v : α) : Prop where
  mem : v ∈ x
  below : x.countP (fun a => a < v) ≤ k
  upTo : k < x.countP (fun a => a ≤ v)

theorem IsOrderStatistic.of_perm {k : Nat} {v : α} (h : IsOrderStatistic y k v) (hp : y.Perm x) :
    IsOrderStatistic x k v :=
  ⟨hp.mem_iff.mp h.mem, hp.countP_eq _ ▸ h.below, hp.countP_eq _ ▸ h.upTo⟩

/-- **The order statistics of a sorted array** are its elements. -/
theorem isOrderStatistic_of_pairwise [Std.IsLinearOrder α] [Std.LawfulOrderLT α] (h : x.Pairwise (· ≤ ·)) {k : Nat}
    (hk : k < x.length) :
    IsOrderStatistic x k x[k] := by
  have hpair := List.pairwise_iff_getElem.mp h
  refine ⟨List.getElem_mem hk, ?_, ?_⟩
  · have hdrop : (x.drop k).countP (fun a => a < x[k]) = 0 := by
      refine List.countP_eq_zero.mpr fun a ha => ?_
      obtain ⟨n, hn, rfl⟩ := List.getElem_of_mem ha
      rw [List.length_drop] at hn
      rw [List.getElem_drop, decide_eq_true_iff, Std.not_lt]
      by_cases hn0 : n = 0
      · subst hn0
        exact Std.le_refl _
      · exact hpair k (k + n) hk (by omega) (by omega)
    have hcount : x.countP (fun a => a < x[k]) =
        (x.take k).countP (fun a => a < x[k]) + (x.drop k).countP (fun a => a < x[k]) := by
      rw [← List.countP_append, List.take_append_drop]
    have htake := List.countP_le_length (p := fun a => decide (a < x[k])) (l := x.take k)
    rw [List.length_take] at htake
    omega
  · have htake : (x.take (k + 1)).countP (fun a => a ≤ x[k]) = (x.take (k + 1)).length := by
      refine List.countP_eq_length.mpr fun a ha => ?_
      obtain ⟨n, hn, rfl⟩ := List.getElem_of_mem ha
      rw [List.length_take] at hn
      rw [List.getElem_take, decide_eq_true_iff]
      by_cases hnk : n = k
      · subst hnk
        exact Std.le_refl _
      · exact hpair n k (by omega) hk (by omega)
    have hcount : x.countP (fun a => a ≤ x[k]) =
        (x.take (k + 1)).countP (fun a => a ≤ x[k]) + (x.drop (k + 1)).countP (fun a => a ≤ x[k]) := by
      rw [← List.countP_append, List.take_append_drop]
    rw [List.length_take] at htake
    omega

end Keynjector.Segment
