import Keynjector.Lib.Bits
import Mathlib.Data.List.Perm.Subperm
import Mathlib.Data.List.Nodup
import Mathlib.Data.List.Infix
/-
# Canonical prefix codes

A code is given by the length of each symbol's word, 0 for a symbol without one. The words
of a length are consecutive numbers, in the order of their symbols, and follow twice the
number behind the last shorter word. `kraft lens l` is the Kraft sum of the lengths up to
`l`, in units of `2 ^ -l`.
-/

namespace Canonical

variable (lens : List Nat)

def kraft : Nat → Nat
  | 0 => 0
  | l + 1 => 2 * kraft l + lens.count (l + 1)

/-- The symbols with a word of at most `l` bits. -/
def used : Nat → Nat
  | 0 => 0
  | l + 1 => used l + lens.count (l + 1)

/-- The number of the first word of length `l`. -/
def first (l : Nat) : Nat := 2 * kraft lens (l - 1)

def size (s : Nat) : Nat := lens.getD s 0

/-- The number of the word of `s`. -/
def code (s : Nat) : Nat := first lens (size lens s) + (lens.take s).count (size lens s)

/-- The word of `s`, the most significant bit first. -/
def word (s : Nat) : List Bool := (Bits.ofNat (size lens s) (code lens s)).reverse

/-- The lengths of a code of at most `L` bits. -/
structure Fits (L : Nat) : Prop where
  sum : kraft lens L ≤ 2 ^ L
  max : ∀ l ∈ lens, l ≤ L

variable {lens} {L l m s t : Nat}

@[simp] theorem length_word : (word lens s).length = size lens s := by
  rw [word, List.length_reverse, Bits.length_ofNat]

theorem lt_length_of_size (h : size lens s ≠ 0) : s < lens.length := by
  by_contra hs
  exact h (List.getD_eq_default _ _ (Nat.le_of_not_lt hs))

theorem size_eq_getElem (h : s < lens.length) : size lens s = lens[s] := List.getD_eq_getElem _ _ h

theorem size_le (hf : Fits lens L) : size lens s ≤ L := by
  by_cases h : s < lens.length
  · rw [size_eq_getElem h]
    exact hf.max _ (List.getElem_mem h)
  · rw [size, List.getD_eq_default _ _ (Nat.le_of_not_lt h)]
    exact Nat.zero_le L

/-! ## The numbers of the words -/

theorem kraft_mul_le (h : l ≤ m) : kraft lens l * 2 ^ (m - l) ≤ kraft lens m := by
  induction m, h using Nat.le_induction with
  | base => rw [Nat.sub_self, Nat.pow_zero, Nat.mul_one]
  | succ m hm ih =>
    have hpow : kraft lens l * 2 ^ (m + 1 - l) = 2 * (kraft lens l * 2 ^ (m - l)) := by
      rw [Nat.succ_sub hm, Nat.pow_succ]
      ring
    rw [hpow, kraft]
    omega

theorem kraft_le (hf : Fits lens L) (h : l ≤ L) : kraft lens l ≤ 2 ^ l := by
  have hle := (kraft_mul_le h).trans hf.sum
  have hpow : 2 ^ L = 2 ^ l * 2 ^ (L - l) := by rw [← Nat.pow_add, Nat.add_sub_cancel' h]
  rw [hpow] at hle
  exact Nat.le_of_mul_le_mul_right hle (Nat.two_pow_pos _)

theorem kraft_le_used : kraft lens l ≤ used lens l * 2 ^ l := by
  induction l with
  | zero => exact Nat.zero_le _
  | succ l ih =>
    have hpos := Nat.one_le_two_pow (n := l + 1)
    calc kraft lens (l + 1) = 2 * kraft lens l + lens.count (l + 1) := rfl
      _ ≤ 2 * (used lens l * 2 ^ l) + lens.count (l + 1) * 2 ^ (l + 1) :=
        Nat.add_le_add (Nat.mul_le_mul_left 2 ih) (Nat.le_mul_of_pos_right _ hpos)
      _ = used lens (l + 1) * 2 ^ (l + 1) := by rw [used, Nat.pow_succ]; ring

/-- Words before `s` of its own length. -/
theorem count_take_lt (h : size lens s ≠ 0) : (lens.take s).count (size lens s) < lens.count (size lens s) := by
  have hs := lt_length_of_size h
  have hsplit : lens.count (size lens s) =
      (lens.take s).count (size lens s) + (lens.drop s).count (size lens s) := by
    rw [← List.count_append, List.take_append_drop]
  rw [hsplit, List.drop_eq_getElem_cons hs, ← size_eq_getElem hs, List.count_cons_self]
  omega

theorem first_le_code : first lens (size lens s) ≤ code lens s := Nat.le_add_right _ _

theorem code_lt_kraft (h : size lens s ≠ 0) : code lens s < kraft lens (size lens s) := by
  have hcount := count_take_lt h
  rw [code, first]
  generalize size lens s = l at h hcount ⊢
  cases l with
  | zero => exact absurd rfl h
  | succ l =>
    rw [kraft, Nat.add_sub_cancel]
    omega

theorem code_lt (hf : Fits lens L) (h : size lens s ≠ 0) : code lens s < 2 ^ size lens s :=
  (code_lt_kraft h).trans_le (kraft_le hf (size_le hf))

theorem count_take_lt_count_take (hs : size lens s ≠ 0) (hst : s < t) :
    (lens.take s).count (size lens s) < (lens.take t).count (size lens s) := by
  have hlt := lt_length_of_size hs
  have hsplit : lens.take t = lens.take s ++ lens[s] :: (lens.take t).drop (s + 1) := by
    conv_lhs => rw [← List.take_append_drop s (lens.take t), List.take_take, Nat.min_eq_left (Nat.le_of_lt hst)]
    rw [List.drop_eq_getElem_cons (by rw [List.length_take]; omega), List.getElem_take]
  rw [hsplit, List.count_append, ← size_eq_getElem hlt, List.count_cons_self]
  omega

theorem code_inj (hs : size lens s ≠ 0) (hsize : size lens s = size lens t) (h : code lens s = code lens t) : s = t := by
  have ht : size lens t ≠ 0 := hsize ▸ hs
  unfold code at h
  rw [hsize] at h
  rcases Nat.lt_trichotomy s t with hlt | heq | hgt
  · have := count_take_lt_count_take hs hlt
    rw [hsize] at this
    omega
  · exact heq
  · have := count_take_lt_count_take ht hgt
    omega

/-- The numbers of longer words lie behind those of shorter ones. -/
theorem code_prefix (hs : size lens s ≠ 0) (hle : size lens s ≤ size lens t)
    (h : code lens t / 2 ^ (size lens t - size lens s) = code lens s) : s = t := by
  rcases Nat.eq_or_lt_of_le hle with heq | hlt
  · rw [heq, Nat.sub_self, Nat.pow_zero, Nat.div_one] at h
    exact code_inj hs heq h.symm
  · exfalso
    have hpow : 2 ^ (size lens t - size lens s) = 2 ^ (size lens t - 1 - size lens s) * 2 := by
      rw [← Nat.pow_succ]
      congr 1
      omega
    have hfirst : kraft lens (size lens s) * 2 ^ (size lens t - size lens s) ≤ code lens t := by
      refine Nat.le_trans ?_ first_le_code
      rw [hpow, ← Nat.mul_assoc, first, Nat.mul_comm _ 2]
      exact Nat.mul_le_mul_left 2 (kraft_mul_le (by omega))
    have := (Nat.le_div_iff_mul_le (Nat.two_pow_pos _)).2 hfirst
    have := code_lt_kraft hs
    omega

/-! ## The words -/

theorem toNat_word_reverse (hf : Fits lens L) (h : size lens s ≠ 0) :
    Bits.toNat (word lens s).reverse = code lens s := by
  rw [word, List.reverse_reverse, Bits.toNat_ofNat, Nat.mod_eq_of_lt (code_lt hf h)]

/-- **No word is a prefix of another's.** -/
theorem word_prefix (hf : Fits lens L) (hs : size lens s ≠ 0) (h : word lens s <+: word lens t) : s = t := by
  have hle : size lens s ≤ size lens t := by simpa using h.length_le
  have ht : size lens t ≠ 0 := by omega
  refine code_prefix hs hle ?_
  have hdrop := List.suffix_iff_eq_drop.1 (List.reverse_suffix.2 h)
  have hrev : (word lens t).reverse = Bits.ofNat (size lens t) (code lens t) := List.reverse_reverse _
  rw [hrev, List.length_reverse, Bits.length_ofNat, length_word, Bits.drop_ofNat (Nat.sub_le _ _),
    Nat.sub_sub_self hle] at hdrop
  have := congrArg Bits.toNat hdrop
  rw [toNat_word_reverse hf hs, Bits.toNat_ofNat, Nat.mod_eq_of_lt] at this
  · exact this.symm
  · rw [Nat.div_lt_iff_lt_mul (Nat.two_pow_pos _), ← Nat.pow_add, Nat.add_sub_cancel' hle]
    exact code_lt hf ht

theorem exists_count_take {k : Nat} (h : k < lens.count l) :
    ∃ s, ∃ hs : s < lens.length, lens[s] = l ∧ (lens.take s).count l = k := by
  induction lens generalizing k with
  | nil => exact absurd h (Nat.not_lt_zero _)
  | cons x xs ih =>
    by_cases hx : x = l
    · subst hx
      rw [List.count_cons_self] at h
      cases k with
      | zero => exact ⟨0, Nat.succ_pos _, rfl, rfl⟩
      | succ k =>
        obtain ⟨s, hs, hl, hk⟩ := ih (Nat.lt_of_succ_lt_succ h)
        exact ⟨s + 1, Nat.succ_lt_succ hs, hl, by rw [List.take_succ_cons, List.count_cons_self, hk]⟩
    · rw [List.count_cons_of_ne hx] at h
      obtain ⟨s, hs, hl, hk⟩ := ih h
      exact ⟨s + 1, Nat.succ_lt_succ hs, hl, by rw [List.take_succ_cons, List.count_cons_of_ne hx, hk]⟩

/-- The numbers of `L` bits are shared out among the words without a gap. -/
theorem exists_code (hfull : kraft lens L = 2 ^ L) {w : Nat} (hw : w < 2 ^ L) :
    ∃ s, size lens s ≠ 0 ∧ size lens s ≤ L ∧ code lens s = w / 2 ^ (L - size lens s) := by
  have hex : ∃ l, l ≤ L ∧ w / 2 ^ (L - l) < kraft lens l := by
    refine ⟨L, Nat.le_refl L, ?_⟩
    rwa [Nat.sub_self, Nat.pow_zero, Nat.div_one, hfull]
  -- the shortest length whose words reach behind `w`
  obtain ⟨hl, hlt⟩ := Nat.find_spec hex
  generalize hfind : Nat.find hex = l at hl hlt
  cases l with
  | zero => exact absurd hlt (Nat.not_lt_zero _)
  | succ l =>
    have hge : 2 * kraft lens l ≤ w / 2 ^ (L - (l + 1)) := by
      have hmin := Nat.find_min hex (m := l) (by omega)
      have hdiv : w / 2 ^ (L - l) = w / 2 ^ (L - (l + 1)) / 2 := by
        rw [Nat.div_div_eq_div_mul, ← Nat.pow_succ]
        congr 2
        omega
      have : kraft lens l ≤ w / 2 ^ (L - l) := by
        by_contra hcon
        exact hmin ⟨by omega, by omega⟩
      omega
    rw [kraft] at hlt
    have hindex : w / 2 ^ (L - (l + 1)) - 2 * kraft lens l < lens.count (l + 1) := by omega
    obtain ⟨s, hs, hlen, hcount⟩ := exists_count_take hindex
    have hsize : size lens s = l + 1 := by rw [size_eq_getElem hs, hlen]
    refine ⟨s, by omega, by omega, ?_⟩
    rw [code, hsize, hcount, first, Nat.add_sub_cancel]
    omega

/-- **A full code has a word in front of every string of `L` bits.** -/
theorem exists_word (hfull : kraft lens L = 2 ^ L) {w : List Bool} (hw : w.length = L) :
    ∃ s, size lens s ≠ 0 ∧ word lens s <+: w := by
  have hlt := Bits.toNat_lt w.reverse
  rw [List.length_reverse, hw] at hlt
  obtain ⟨s, hs, hle, hcode⟩ := exists_code hfull hlt
  refine ⟨s, hs, ?_⟩
  rw [word, ← List.reverse_suffix, List.reverse_reverse, List.suffix_iff_eq_drop, hcode, Bits.length_ofNat,
    List.length_reverse, hw]
  have hofNat := Bits.ofNat_toNat w.reverse
  rw [List.length_reverse, hw] at hofNat
  conv_rhs => rw [← hofNat, Bits.drop_ofNat (Nat.sub_le _ _), Nat.sub_sub_self hle]

/-! ## The nodes of the tree -/

theorem append_one_zeros_inj {p q : List Bool} {i j : Nat}
    (h : p ++ true :: List.replicate i false = q ++ true :: List.replicate j false) : p = q := by
  have hrev := congrArg List.reverse h
  simp only [List.reverse_append, List.reverse_cons, List.reverse_replicate, List.append_assoc,
    List.singleton_append] at hrev
  have hij : i = j := by
    have hcount : ∀ k (r : List Bool), (List.replicate k false ++ true :: r).findIdx id = k := by
      intro k r
      induction k with
      | zero => rfl
      | succ k ih => rw [List.replicate_succ, List.cons_append, List.findIdx_cons, ih]; rfl
    rw [← hcount i p.reverse, ← hcount j q.reverse, hrev]
  subst hij
  have := List.append_cancel_left hrev
  exact List.reverse_injective (List.cons.inj this).2

/-- A string inside the tree of the words: a proper prefix of one. -/
def Inner (lens : List Nat) (p : List Bool) : Prop := ∃ s, size lens s ≠ 0 ∧ p <+: word lens s ∧ p ≠ word lens s

theorem Inner.word_after (hf : Fits lens L) (hfull : kraft lens L = 2 ^ L) {p : List Bool} (h : Inner lens p) :
    ∃ s, s < lens.length ∧ ∃ j, word lens s = p ++ true :: List.replicate j false := by
  obtain ⟨t, ht, hp, hne⟩ := h
  have hlen : p.length < L := by
    refine Nat.lt_of_lt_of_le ?_ (size_le hf (s := t))
    have := hp.length_le
    rw [length_word] at this
    refine Nat.lt_of_le_of_ne this fun heq => hne (hp.eq_of_length ?_)
    rw [length_word, heq]
  obtain ⟨s, hs, hword⟩ := exists_word hfull (w := p ++ true :: List.replicate (L - p.length - 1) false) (by
    rw [List.length_append, List.length_cons, List.length_replicate]
    omega)
  refine ⟨s, lt_length_of_size hs, ?_⟩
  rcases List.prefix_or_prefix_of_prefix hword (List.prefix_append p _) with hshort | ⟨r, hr⟩
  · exfalso
    have heq := word_prefix hf hs (hshort.trans hp)
    subst heq
    exact hne (hp.eq_of_length (Nat.le_antisymm hp.length_le hshort.length_le))
  · rw [← hr, List.prefix_append_right_inj] at hword
    rcases List.prefix_cons_iff.1 hword with rfl | ⟨r', rfl, hzeros⟩
    · exfalso
      rw [List.append_nil] at hr
      have heq := word_prefix hf hs (hr.symm ▸ hp)
      subst heq
      exact hne hr
    · obtain ⟨hle, hzeros⟩ := List.prefix_replicate_iff.1 hzeros
      exact ⟨_, by rw [← hr, hzeros]⟩

/-- **A full code has fewer inner nodes than words.** -/
theorem inner_le (hf : Fits lens L) (hfull : kraft lens L = 2 ^ L) {nodes : List (List Bool)} (hnd : nodes.Nodup)
    (hin : ∀ p ∈ nodes, Inner lens p) : nodes.length ≤ lens.length := by
  choose! f hf1 hf2 using fun p (hp : p ∈ nodes) => (hin p hp).word_after hf hfull
  have hmap : (nodes.map f).Nodup := by
    refine List.Nodup.map_on (fun p hp q hq heq => ?_) hnd
    obtain ⟨i, hi⟩ := hf2 p hp
    obtain ⟨j, hj⟩ := hf2 q hq
    rw [heq] at hi
    exact append_one_zeros_inj (hi.symm.trans hj)
  have hsub : nodes.map f ⊆ List.range lens.length := by
    intro s hs
    obtain ⟨p, hp, rfl⟩ := List.mem_map.1 hs
    exact List.mem_range.2 (hf1 p hp)
  have := (hmap.subperm hsub).length_le
  rwa [List.length_map, List.length_range] at this

end Canonical
