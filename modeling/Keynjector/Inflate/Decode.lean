import Keynjector.Inflate.Codes
/-
# Reading a symbol (tinfl.c:62-108)

`TINFL_HUFF_DECODE` finds the symbol whose word is in front of the bit buffer, and
`TINFL_HUFF_BITBUF_FILL` asks for another byte only when the word is not all there. For
bits that begin no word both still end inside the arrays.
-/

namespace Keynjector.Inflate

open Canonical (word size Fits Inner)

variable {sizes : List Nat} {t : HuffTable} {n s : Nat} {nodes : List (List Bool)} {b : Building}

/-! ## Paths -/

theorem Entry.of_short (hf : Fits sizes 15) {p : List Bool} {x : Int} (h : Entry sizes n nodes p x)
    (hin : ∀ p ∈ nodes, Inner sizes p) (hs : size sizes s ≠ 0) (hn : s < n) (hp : p.length = 10)
    (hpre : word sizes s <+: p) : x = (size sizes s <<< 9 ||| s : Nat) := by
  cases h with
  | short _ _ hs' _ hpre' =>
    rcases List.prefix_or_prefix_of_prefix hpre hpre' with h1 | h1
    · rw [Canonical.word_prefix hf hs h1]
    · rw [Canonical.word_prefix hf hs' h1]
  | long _ hlt =>
    rw [Canonical.length_word] at hp
    omega
  | node hk => exact absurd hpre (Inner.not_word hf (hin _ (List.mem_of_getElem? hk)) hs)
  | free _ hword => exact absurd hpre (hword s hn hs)

theorem Entry.of_long (hf : Fits sizes 15) {p : List Bool} {x : Int} (h : Entry sizes n nodes p x)
    (hin : ∀ p ∈ nodes, Inner sizes p) (hs : 10 < size sizes s) (hn : s < n) (hp : p = word sizes s) : x = s := by
  cases h with
  | short hlen =>
    rw [hp, Canonical.length_word] at hlen
    omega
  | @long r _ hlt =>
    have hpre : word sizes r <+: word sizes s := by rw [hp]
    rw [Canonical.word_prefix hf (by omega) hpre]
  | node hk =>
    exact absurd (hp ▸ List.prefix_refl _) (Inner.not_word hf (hin _ (List.mem_of_getElem? hk)) (by omega : size sizes s ≠ 0))
  | free _ hword => exact absurd (hp ▸ List.prefix_refl _) (hword s hn (by omega))

/-- The strings inside a long word have pairs. -/
theorem Filed.mem_take (h : Filed sizes n n nodes b) (hn : s < n) {i : Nat} (hi : 10 ≤ i) (hlt : i < size sizes s) :
    (word sizes s).take i ∈ nodes := by
  obtain ⟨j, hj⟩ := Nat.exists_eq_add_of_lt hlt
  induction j generalizing i with
  | zero =>
    have := h.last s hn (by omega)
    rwa [List.dropLast_eq_take, Canonical.length_word, hj, Nat.add_zero, Nat.add_sub_cancel] at this
  | succ j ih =>
    have hmem := ih (i := i + 1) (by omega) (by omega) (by omega)
    rw [take_concat (by rw [Canonical.length_word]; omega)] at hmem
    refine h.closed _ _ hmem ?_
    rw [List.length_take, Canonical.length_word]
    omega

theorem treeAt_pair_bit (tree : Vector Int 576) (k : Nat) (bit : Bool) :
    treeAt tree (pair k) bit.toNat = tree[2 * k + bit.toNat]? := by
  have hneg : pair k < 0 := by
    unfold pair
    omega
  have hidx : (-pair k - 1).toNat = 2 * k := by
    unfold pair
    omega
  rw [treeAt, if_pos hneg, hidx]

theorem bit_of_ofNat {w : List Bool} {m v i : Nat} (h : Bits.ofNat m v = w.take m) (hi : i < m) (hlt : i < w.length) :
    v >>> i &&& 1 = w[i].toNat := by
  have hget : (Bits.ofNat m v)[i]? = (w.take m)[i]? := by rw [h]
  rw [List.getElem?_take_of_lt hi, List.getElem?_eq_getElem hlt, List.getElem?_eq_getElem (by rwa [Bits.length_ofNat]),
    Bits.getElem_ofNat, Option.some_inj] at hget
  rw [← hget, Nat.toNat_testBit, Nat.and_one_is_mod, Nat.shiftRight_eq_div_pow]

theorem pair_neg (k : Nat) : pair k < 0 := by
  unfold pair
  omega

/-- From the pair inside a word the walk comes to the word's symbol. -/
theorem Filed.walk_word (hf : Fits sizes 15) (h : Filed sizes n n nodes b) (hn : s < n) (hs : 10 < size sizes s) {v : Nat}
    (hv : Bits.ofNat (size sizes s) v = word sizes s) (j : Nat) {i k fuel : Nat} (hi : 10 ≤ i)
    (hj : i + j + 1 = size sizes s) (hk : nodes[k]? = some ((word sizes s).take i)) (hfuel : j < fuel) :
    walk b.tree v fuel (pair k) i = some ((s : Int), size sizes s) := by
  induction j generalizing i k fuel with
  | zero =>
    obtain ⟨fuel, rfl⟩ := Nat.exists_eq_succ_of_ne_zero (Nat.ne_of_gt hfuel)
    have hlt : i < (word sizes s).length := by rw [Canonical.length_word]; omega
    have hbit := bit_of_ofNat (w := word sizes s) (by rw [hv, List.take_of_length_le (Nat.le_of_eq Canonical.length_word)])
      (show i < size sizes s by omega) hlt
    obtain ⟨hbound, hentry⟩ := h.tree k _ hk (word sizes s)[i]
    have hx := hentry.of_long hf (fun p hp => h.isInner hp) hs hn (by
      rw [← take_concat hlt, List.take_of_length_le (by rw [Canonical.length_word]; omega)])
    rw [walk, hbit, treeAt_pair_bit, Vector.getElem?_eq_getElem hbound]
    dsimp only
    rw [hx, if_neg (by omega), show i + 1 = size sizes s by omega]
  | succ j ih =>
    obtain ⟨fuel, rfl⟩ := Nat.exists_eq_succ_of_ne_zero (Nat.ne_of_gt (Nat.zero_lt_of_lt hfuel))
    have hlt : i < (word sizes s).length := by rw [Canonical.length_word]; omega
    have hbit := bit_of_ofNat (w := word sizes s) (by rw [hv, List.take_of_length_le (Nat.le_of_eq Canonical.length_word)])
      (show i < size sizes s by omega) hlt
    obtain ⟨hbound, hentry⟩ := h.tree k _ hk (word sizes s)[i]
    rw [← take_concat hlt] at hentry
    obtain ⟨k', hk', hx⟩ := hentry.of_mem hf (fun p hp => h.isInner hp) (h.mem_take hn (by omega) (by omega))
    rw [walk, hbit, treeAt_pair_bit, Vector.getElem?_eq_getElem hbound]
    dsimp only
    rw [hx, if_pos (pair_neg k')]
    exact ih (by omega) (by omega) hk' (by omega)

/-- The walk of the fill test, as far as `m` bits of the word are there. -/
theorem Filed.walkReady_word (hf : Fits sizes 15) (h : Filed sizes n n nodes b) (hn : s < n) (hs : 10 < size sizes s)
    {v m : Nat} (hv : Bits.ofNat (min m (size sizes s)) v = (word sizes s).take (min m (size sizes s))) (j : Nat)
    {i k fuel : Nat} (hi : 10 ≤ i) (hm : i < m) (hj : i + j + 1 = size sizes s)
    (hk : nodes[k]? = some ((word sizes s).take i)) (hfuel : j < fuel) :
    walkReady b.tree v m fuel (pair k) i = some (decide (size sizes s ≤ m)) := by
  induction j generalizing i k fuel with
  | zero =>
    obtain ⟨fuel, rfl⟩ := Nat.exists_eq_succ_of_ne_zero (Nat.ne_of_gt hfuel)
    have hlt : i < (word sizes s).length := by rw [Canonical.length_word]; omega
    have hbit := bit_of_ofNat hv (i := i) (by omega) hlt
    obtain ⟨hbound, hentry⟩ := h.tree k _ hk (word sizes s)[i]
    have hx := hentry.of_long hf (fun p hp => h.isInner hp) hs hn (by
      rw [← take_concat hlt, List.take_of_length_le (by rw [Canonical.length_word]; omega)])
    rw [walkReady, hbit, treeAt_pair_bit, Vector.getElem?_eq_getElem hbound]
    dsimp only
    rw [hx, if_neg (by omega), decide_eq_true (by omega), decide_eq_true (by omega)]
  | succ j ih =>
    obtain ⟨fuel, rfl⟩ := Nat.exists_eq_succ_of_ne_zero (Nat.ne_of_gt (Nat.zero_lt_of_lt hfuel))
    have hlt : i < (word sizes s).length := by rw [Canonical.length_word]; omega
    have hbit := bit_of_ofNat hv (i := i) (by omega) hlt
    obtain ⟨hbound, hentry⟩ := h.tree k _ hk (word sizes s)[i]
    rw [← take_concat hlt] at hentry
    obtain ⟨k', hk', hx⟩ := hentry.of_mem hf (fun p hp => h.isInner hp) (h.mem_take hn (by omega) (by omega))
    rw [walkReady, hbit, treeAt_pair_bit, Vector.getElem?_eq_getElem hbound]
    dsimp only
    rw [hx]
    by_cases hmore : m ≥ i + 1 + 1
    · rw [if_pos ⟨pair_neg k', hmore⟩]
      exact ih (by omega) (by omega) (by omega) hk' (by omega)
    · rw [if_neg (fun hcon => hmore hcon.2), decide_eq_false (Int.not_le.2 (pair_neg k')), decide_eq_false (by omega)]

/-! ## Symbols -/

theorem shiftLeft_or {l s : Nat} (hs : s < 512) : (l <<< 9 ||| s) = 512 * l + s := by
  have := Nat.two_pow_add_eq_or_of_lt (i := 9) (b := s) hs l
  rw [Nat.shiftLeft_eq, Nat.mul_comm]
  exact this.symm

theorem Built.symbol_lt (h : Built sizes t) (hs : size sizes s ≠ 0) : s < 288 :=
  (Canonical.lt_length_of_size hs).trans_le h.1.length

/-- The look-up entry for a long word. -/
theorem Filed.lookUp_long (hf : Fits sizes 15) (h : Filed sizes n n nodes b) (hn : s < n) (hs : 10 < size sizes s) {v : Nat}
    (hv : Bits.ofNat 10 v = (word sizes s).take 10) :
    ∃ k, b.lookUp[v % 1024]? = some (pair k) ∧ nodes[k]? = some ((word sizes s).take 10) := by
  have hlt : v % 1024 < 1024 := Nat.mod_lt _ (by decide)
  have hentry := h.lookUp _ hlt
  rw [ofNat_lookUp, hv] at hentry
  obtain ⟨k, hk, hx⟩ := hentry.of_mem hf (fun p hp => h.isInner hp) (h.mem_take hn (Nat.le_refl _) hs)
  exact ⟨k, by rw [Vector.getElem?_eq_getElem hlt, hx], hk⟩

theorem Filed.lookUp_short (hf : Fits sizes 15) (h : Filed sizes n n nodes b) (hn : s < n) (hs : size sizes s ≠ 0)
    {v : Nat} (hv : word sizes s <+: Bits.ofNat 10 v) :
    b.lookUp[v % 1024]? = some ((size sizes s <<< 9 ||| s : Nat) : Int) := by
  have hlt : v % 1024 < 1024 := Nat.mod_lt _ (by decide)
  have hentry := h.lookUp _ hlt
  rw [ofNat_lookUp] at hentry
  rw [Vector.getElem?_eq_getElem hlt, hentry.of_short hf (fun p hp => h.isInner hp) hs hn (Bits.length_ofNat 10 v) hv]

theorem take_ofNat_word {v : Nat} (hv : Bits.ofNat (size sizes s) v = word sizes s) {i : Nat} (hi : i ≤ size sizes s) :
    Bits.ofNat i v = (word sizes s).take i := by
  rw [← hv, Bits.take_ofNat hi]

theorem prefix_ofNat {w : List Bool} {v m : Nat} (hv : Bits.ofNat w.length v = w) (hm : w.length ≤ m) :
    w <+: Bits.ofNat m v := by
  rw [List.prefix_iff_eq_take, Bits.take_ofNat hm, hv]

/-- What is found for the bits in front: the symbol and the length of its word. -/
theorem Built.findWith (h : Built sizes t) (hs : size sizes s ≠ 0) {v : Nat}
    (hv : Bits.ofNat (size sizes s) v = word sizes s) (entry : Nat → Nat) :
    t.findWith entry v = some (if size sizes s ≤ 10 then entry (512 * size sizes s + s) else s, size sizes s) := by
  obtain ⟨ha, nodes, next, codes, hfiled⟩ := h
  have hn := Canonical.lt_length_of_size hs
  have h512 : s < 512 := by
    have := ha.length
    omega
  unfold HuffTable.findWith
  rw [and_lookUp]
  by_cases hle : size sizes s ≤ 10
  · have hlook := hfiled.lookUp_short ha.fits hn hs (prefix_ofNat (by rwa [Canonical.length_word])
      (by rwa [Canonical.length_word]))
    dsimp only at hlook
    rw [hlook]
    dsimp only
    rw [if_pos (Int.natCast_nonneg _), if_pos hle, Int.toNat_natCast, shiftLeft_or h512, Nat.shiftRight_eq_div_pow]
    congr 2
    omega
  · obtain ⟨k, hlook, hk⟩ := hfiled.lookUp_long ha.fits hn (by omega) (take_ofNat_word hv (by omega))
    dsimp only at hlook
    have hle15 := Canonical.size_le ha.fits (s := s)
    rw [hlook]
    dsimp only
    rw [if_neg (Int.not_le.2 (pair_neg k)), if_neg hle, show TINFL_FAST_LOOKUP_BITS = 10 from rfl,
      hfiled.walk_word ha.fits hn (by omega) hv (size sizes s - 11) (Nat.le_refl _) (by omega) hk (by omega)]
    rfl

/-- **The symbol whose word is in front is decoded.** -/
theorem Built.decode (h : Built sizes t) (hs : size sizes s ≠ 0) {v : Nat}
    (hv : Bits.ofNat (size sizes s) v = word sizes s) : t.decode v = some (s, size sizes s) := by
  have hlt := h.symbol_lt hs
  unfold HuffTable.decode
  rw [h.findWith hs hv]
  have hmask : 512 * size sizes s + s &&& 511 = s := by
    rw [Nat.and_two_pow_sub_one_eq_mod _ 9]
    omega
  split_ifs
  · rw [hmask]
  · rfl

theorem Built.find (h : Built sizes t) (hs : size sizes s ≠ 0) {v : Nat}
    (hv : Bits.ofNat (size sizes s) v = word sizes s) : ∃ sym, t.find v = some (sym, size sizes s) ∧ sym % 512 = s := by
  have hlt := h.symbol_lt hs
  unfold HuffTable.find
  rw [h.findWith hs hv]
  refine ⟨_, rfl, ?_⟩
  split_ifs
  · show (512 * size sizes s + s) % 512 = s
    omega
  · omega

/-- **Another byte is asked for exactly when the word in front is not all there.** -/
theorem Built.ready (h : Built sizes t) (hs : size sizes s ≠ 0) {v m : Nat}
    (hv : Bits.ofNat (min m (size sizes s)) v = (word sizes s).take (min m (size sizes s))) :
    t.ready v m = some (decide (size sizes s ≤ m)) := by
  obtain ⟨ha, nodes, next, codes, hfiled⟩ := h
  have hn := Canonical.lt_length_of_size hs
  have h512 : s < 512 := by
    have := ha.length
    omega
  have hle15 := Canonical.size_le ha.fits (s := s)
  unfold HuffTable.ready
  rw [and_lookUp]
  by_cases hall : size sizes s ≤ m ∧ size sizes s ≤ 10
  · -- a short word that is all there
    rw [Nat.min_eq_right hall.1, List.take_of_length_le (Nat.le_of_eq Canonical.length_word)] at hv
    have hlook := hfiled.lookUp_short ha.fits hn hs (prefix_ofNat (by rwa [Canonical.length_word])
      (by rw [Canonical.length_word]; exact hall.2))
    dsimp only at hlook
    rw [hlook]
    dsimp only
    rw [if_pos (Int.natCast_nonneg _), Int.toNat_natCast, shiftLeft_or h512, Nat.shiftRight_eq_div_pow]
    congr 2
    rw [eq_iff_iff]
    omega
  · by_cases hlong : 10 < m ∧ 10 < size sizes s
    · -- a long word of which the first ten bits are there
      obtain ⟨k, hlook, hk⟩ := hfiled.lookUp_long ha.fits hn hlong.2 (v := v) (by
        have := congrArg (List.take 10) hv
        rwa [Bits.take_ofNat (by omega), List.take_take, Nat.min_eq_left (by omega : 10 ≤ min m (size sizes s))] at this)
      dsimp only at hlook
      rw [hlook]
      dsimp only
      rw [if_neg (Int.not_le.2 (pair_neg k)), if_pos (show m > TINFL_FAST_LOOKUP_BITS from hlong.1),
        show TINFL_FAST_LOOKUP_BITS = 10 from rfl, hfiled.walkReady_word ha.fits hn hlong.2 hv (size sizes s - 11) (Nat.le_refl _)
          hlong.1 (by omega) hk (by omega)]
    · -- less than the word: whatever the missing bits would make of it is longer than what is there
      have hm : m < size sizes s := by omega
      have hm10 : m ≤ 10 := by omega
      have hmod : v % 1024 < 1024 := Nat.mod_lt _ (by decide)
      have hentry := hfiled.lookUp _ hmod
      rw [ofNat_lookUp] at hentry
      rw [Nat.min_eq_left (Nat.le_of_lt hm)] at hv
      rw [Vector.getElem?_eq_getElem hmod, decide_eq_false (by omega)]
      dsimp only at hentry ⊢
      generalize t.lookUp[v % 1024] = x at hentry ⊢
      generalize hp : Bits.ofNat 10 v = p at hentry
      cases hentry with
      | @short _ r _ hr hr0 hrle hpre =>
        have hr512 : r < 512 := by
          have := ha.length
          omega
        rw [if_pos (Int.natCast_nonneg _), Int.toNat_natCast, shiftLeft_or hr512, Nat.shiftRight_eq_div_pow]
        congr 1
        rw [decide_eq_false_iff_not]
        rintro ⟨-, hge⟩
        have hge : size sizes r ≤ m := by omega
        have hcon : word sizes r <+: word sizes s := by
          refine List.IsPrefix.trans ?_ (List.take_prefix m _)
          rw [← hv, ← Bits.take_ofNat hm10, hp, List.prefix_take_iff]
          exact ⟨hpre, by rwa [Canonical.length_word]⟩
        obtain rfl := Canonical.word_prefix ha.fits hr0 hcon
        omega
      | long _ hlt' =>
        have := congrArg List.length hp
        rw [Bits.length_ofNat, Canonical.length_word] at this
        omega
      | node _ => rw [if_neg (Int.not_le.2 (pair_neg _)), if_neg (show ¬ m > TINFL_FAST_LOOKUP_BITS from by
          rw [show TINFL_FAST_LOOKUP_BITS = 10 from rfl]; omega)]
      | free _ _ => rfl

/-! ## Building and reading -/

theorem toNat_word_append (w after : List Bool) {k : Nat} (hk : k ≤ w.length) :
    Bits.ofNat k (Bits.toNat (w ++ after)) = w.take k := by
  have hall := Bits.ofNat_toNat (w ++ after)
  have hlong : k ≤ (w ++ after).length := hk.trans (by rw [List.length_append]; exact Nat.le_add_right _ _)
  rw [← Bits.take_ofNat hlong, hall, List.take_append_of_le_length hk]

/-- **Huffman tables.** The code sizes that pass the test for a complete code build their tables without an access outside an
array. Each symbol is then found by its word, whatever bits follow it, and the test whether there are bits enough says so
exactly when the word is there. -/
theorem buildTable_decodes {sizes : List Nat} (hlen : sizes.length ≤ 288) (hmax : ∀ l ∈ sizes, l ≤ 15)
    (hgood : refused sizes = false) :
    ∃ b, buildTable sizes = some b ∧ ∀ (codeSize : Vector Nat 288) (s : Nat) (after : List Bool), size sizes s ≠ 0 →
      (HuffTable.mk codeSize b.lookUp b.tree).decode (Bits.toNat (word sizes s ++ after)) = some (s, size sizes s) ∧
      (∃ sym, (HuffTable.mk codeSize b.lookUp b.tree).find (Bits.toNat (word sizes s ++ after)) = some (sym, size sizes s) ∧
        sym % 512 = s) ∧
      ∀ m, (HuffTable.mk codeSize b.lookUp b.tree).ready (Bits.toNat ((word sizes s ++ after).take m)) m =
        some (decide (size sizes s ≤ m)) := by
  obtain ⟨b, hb, hbuilt⟩ := buildTable_built ⟨hmax, hlen, refused_iff.1 hgood⟩
  refine ⟨b, hb, fun codeSize s after hs => ?_⟩
  have hword : Bits.ofNat (size sizes s) (Bits.toNat (word sizes s ++ after)) = word sizes s := by
    rw [toNat_word_append _ _ (Canonical.length_word ..).ge, List.take_of_length_le (Canonical.length_word ..).le]
  refine ⟨(hbuilt codeSize).decode hs hword, (hbuilt codeSize).find hs hword, fun m => (hbuilt codeSize).ready hs ?_⟩
  have hlength : ((word sizes s).take m).length = min m (size sizes s) := by
    rw [List.length_take, Canonical.length_word]
  rw [List.take_append, toNat_word_append _ _ hlength.ge, List.take_take, Nat.min_eq_left (Nat.min_le_left _ _)]

/-- Words of up to twelve bits: the last two end in the tree. -/
theorem buildTable_decodes_sample : ∃ b, buildTable [1, 2, 3, 4, 5, 6, 7, 8, 9, 10, 11, 12, 12] = some b ∧ ∀ codeSize,
    (HuffTable.mk codeSize b.lookUp b.tree).decode
      (Bits.toNat (word [1, 2, 3, 4, 5, 6, 7, 8, 9, 10, 11, 12, 12] 12 ++ [true])) = some (12, 12) := by
  obtain ⟨b, hb, hread⟩ := buildTable_decodes (show [1, 2, 3, 4, 5, 6, 7, 8, 9, 10, 11, 12, 12].length ≤ 288 by decide)
    (by decide) (by decide)
  exact ⟨b, hb, fun codeSize => (hread codeSize 12 [true] (by decide)).1⟩

end Keynjector.Inflate
