import Keynjector.Inflate.HuffTable
import Keynjector.Lib.Canonical
/-
# What the tables hold (tinfl.c:226-262)

The loop over `sym_index` gives each symbol its canonical word and files it: a word of at
most ten bits in every look-up entry it is a prefix of, a longer one at the end of a path of
pairs. `nodes` are the strings the pairs stand for, in the order in which they were made, so
that pair `k` belongs to `nodes[k]`.

| here | there |
| --- | --- |
| `Entry`  | what the entry for a string of bits has to be |
| `Filed`  | all entries are as they have to be, for the first `n` symbols |
| `Built`  | the same for a finished table |

A full code has fewer pairs than symbols, so that `m_tree` does not overflow.
-/

namespace Keynjector.Inflate

open Canonical (word size code kraft used first Fits Inner)

/-! ## Counts and first codes -/

variable {sizes : List Nat}

theorem totalSyms_getD {i : Nat} (hi : i < 16) : (totalSyms sizes).getD i 0 = sizes.count i := by
  suffices h : ∀ ts : List Nat, ts.length = 16 →
      (sizes.foldl (fun ts l => ts.modify l (· + 1)) ts).getD i 0 = ts.getD i 0 + sizes.count i by
    have := h (List.replicate 16 0) List.length_replicate
    rw [List.getD_replicate _ hi, Nat.zero_add] at this
    exact this
  intro ts hts
  induction sizes generalizing ts with
  | nil => rfl
  | cons l sizes ih =>
    rw [List.foldl_cons, ih _ (by rw [List.length_modify, hts]), List.getD_eq_getElem?_getD, List.getElem?_modify,
      List.count_cons, List.getD_eq_getElem?_getD, List.getElem?_eq_getElem (by omega)]
    by_cases hl : l = i
    · simp [hl]
      omega
    · simp [hl]

/-- The loop over the sizes after `k` turns. -/
theorem nextCodes_loop {ts : List Nat} (hts : ∀ {i}, i < 16 → ts.getD i 0 = sizes.count i) (k : Nat) (hk : k ≤ 15) :
    ∃ next : List Nat, (List.range' 1 k).foldl (fun (used, total, next) i =>
        (used + ts.getD i 0, (total + ts.getD i 0) <<< 1, next.set (i + 1) ((total + ts.getD i 0) <<< 1)))
        (0, 0, List.replicate 17 0) = (used sizes k, 2 * kraft sizes k, next) ∧
      next.length = 17 ∧ ∀ l ≤ k + 1, next.getD l 0 = first sizes l := by
  induction k with
  | zero =>
    refine ⟨List.replicate 17 0, rfl, List.length_replicate, fun l hl => ?_⟩
    rw [List.getD_replicate _ (by omega), first, show l - 1 = 0 by omega]
    rfl
  | succ k ih =>
    obtain ⟨next, hfold, hlen, hnext⟩ := ih (by omega)
    rw [List.range'_1_concat, List.foldl_concat, hfold]
    have htotal : (2 * kraft sizes k + ts.getD (1 + k) 0) <<< 1 = 2 * kraft sizes (k + 1) := by
      rw [hts (by omega), Nat.shiftLeft_eq, Nat.pow_one, Nat.mul_comm, kraft, Nat.add_comm 1 k]
    refine ⟨next.set (1 + k + 1) (2 * kraft sizes (k + 1)), ?_, by rw [List.length_set, hlen], fun l hl => ?_⟩
    · dsimp only
      rw [htotal, hts (by omega), Nat.add_comm 1 k, used]
    · rw [List.getD_eq_getElem?_getD, List.getElem?_set]
      by_cases heq : 1 + k + 1 = l
      · rw [if_pos heq, if_pos (by omega), ← heq, first, Option.getD_some, Nat.add_comm 1 k, Nat.add_sub_cancel]
      · rw [if_neg heq, ← List.getD_eq_getElem?_getD]
        exact hnext l (by omega)

theorem nextCodes_spec (sizes : List Nat) : (nextCodes (totalSyms sizes)).1 = used sizes 15 ∧
    (nextCodes (totalSyms sizes)).2.1 = 2 * kraft sizes 15 ∧ (nextCodes (totalSyms sizes)).2.2.length = 17 ∧
    ∀ l ≤ 16, (nextCodes (totalSyms sizes)).2.2.getD l 0 = first sizes l := by
  obtain ⟨next, hfold, hlen, hnext⟩ := nextCodes_loop (@totalSyms_getD sizes) 15 (Nat.le_refl _)
  have heq : nextCodes (totalSyms sizes) = (used sizes 15, 2 * kraft sizes 15, next) := hfold
  rw [heq]
  exact ⟨rfl, rfl, hlen, hnext⟩

/-- The sizes of a code the loop is made for: they fill the code space, or there is one word at most. -/
structure Accepted (sizes : List Nat) : Prop where
  max : ∀ l ∈ sizes, l ≤ 15
  length : sizes.length ≤ 288
  full : kraft sizes 15 = 2 ^ 15 ∨ used sizes 15 ≤ 1

theorem refused_iff : refused sizes = false ↔ kraft sizes 15 = 2 ^ 15 ∨ used sizes 15 ≤ 1 := by
  obtain ⟨hused, htotal, -⟩ := nextCodes_spec sizes
  have heq : refused sizes = decide (65536 ≠ (nextCodes (totalSyms sizes)).2.1 ∧ (nextCodes (totalSyms sizes)).1 > 1) := rfl
  rw [heq, hused, htotal, decide_eq_false_iff_not]
  omega

theorem Accepted.fits (h : Accepted sizes) : Fits sizes 15 := by
  refine ⟨?_, h.max⟩
  rcases h.full with hfull | hone
  · exact Nat.le_of_eq hfull
  · calc kraft sizes 15 ≤ used sizes 15 * 2 ^ 15 := Canonical.kraft_le_used
      _ ≤ 1 * 2 ^ 15 := Nat.mul_le_mul_right _ hone
      _ = 2 ^ 15 := Nat.one_mul _

/-! ## The number of pairs -/

theorem used_one {s t : Nat} (h : used sizes 15 ≤ 1) (hmax : ∀ l ∈ sizes, l ≤ 15) (hs : size sizes s ≠ 0)
    (ht : size sizes t ≠ 0) : s = t := by
  have hcount : ∀ k, used sizes k = (sizes.filter fun l => decide (l ≠ 0 ∧ l ≤ k)).length := by
    intro k
    induction k with
    | zero =>
      rw [used, eq_comm, List.length_eq_zero_iff, List.filter_eq_nil_iff]
      intro l _
      simp
    | succ k ih =>
      rw [used, ih, List.count_eq_countP, ← List.countP_eq_length_filter, ← List.countP_eq_length_filter]
      clear ih hs ht h hmax
      induction sizes with
      | nil => rfl
      | cons l sizes ih =>
        simp only [List.countP_cons, decide_eq_true_eq, beq_iff_eq]
        split_ifs <;> omega
  have hall : sizes.filter (fun l => decide (l ≠ 0 ∧ l ≤ 15)) = sizes.filter (fun l => decide (l ≠ 0)) :=
    List.filter_congr fun l hl => by simp [hmax l hl]
  rw [hcount, hall] at h
  by_contra hne
  have hlt : ∀ {a b : Nat}, a < b → size sizes a ≠ 0 → size sizes b ≠ 0 →
      1 < (sizes.filter fun l => decide (l ≠ 0)).length := by
    intro a b hab ha hb
    have hblt := Canonical.lt_length_of_size hb
    have halt : a < (sizes.take b).length := by rw [List.length_take]; omega
    have hsplit : (sizes.filter fun l => decide (l ≠ 0)).length =
        ((sizes.take b).filter fun l => decide (l ≠ 0)).length + ((sizes.drop b).filter fun l => decide (l ≠ 0)).length := by
      rw [← List.length_append, ← List.filter_append, List.take_append_drop]
    have hleft : 0 < ((sizes.take b).filter fun l => decide (l ≠ 0)).length := by
      refine List.length_pos_of_mem (a := size sizes a) (List.mem_filter.2 ⟨?_, by simp [ha]⟩)
      rw [Canonical.size_eq_getElem (by omega : a < sizes.length), ← List.getElem_take (h := halt)]
      exact List.getElem_mem halt
    have hright : 0 < ((sizes.drop b).filter fun l => decide (l ≠ 0)).length := by
      refine List.length_pos_of_mem (a := size sizes b) (List.mem_filter.2 ⟨?_, by simp [hb]⟩)
      rw [Canonical.size_eq_getElem hblt, List.drop_eq_getElem_cons hblt]
      exact List.mem_cons_self
    omega
  rcases Nat.lt_or_gt_of_ne hne with h1 | h1
  · exact absurd (hlt h1 hs ht) (by omega)
  · exact absurd (hlt h1 ht hs) (by omega)

/-- **There are no more pairs than `m_tree` has room for.** -/
theorem Accepted.nodes_le (h : Accepted sizes) {nodes : List (List Bool)} (hnd : nodes.Nodup)
    (hin : ∀ p ∈ nodes, Inner sizes p) : nodes.length ≤ 288 := by
  rcases h.full with hfull | hone
  · exact (Canonical.inner_le h.fits hfull hnd hin).trans h.length
  · by_cases hnil : nodes = []
    · rw [hnil]
      exact Nat.zero_le _
    · obtain ⟨q, hq⟩ := List.exists_mem_of_ne_nil nodes hnil
      obtain ⟨s, hs, -, -⟩ := hin q hq
      have hsub : nodes ⊆ (word sizes s).inits := by
        intro p hp
        obtain ⟨t, ht, hpre, -⟩ := hin p hp
        rw [used_one hone h.max ht hs] at hpre
        exact (List.mem_inits _ _).2 hpre
      have hle := (hnd.subperm hsub).length_le
      rw [List.length_inits, Canonical.length_word] at hle
      have := Canonical.size_le h.fits (s := s)
      omega

/-! ## Reversed codes -/

theorem revCode_eq (l cur rev : Nat) : revCode l cur rev = Bits.toNat (Bits.ofNat l cur).reverse + 2 ^ l * rev := by
  induction l generalizing cur rev with
  | zero => rw [revCode, Nat.pow_zero, Nat.one_mul]; exact (Nat.zero_add _).symm
  | succ l ih =>
    have hbit : rev <<< 1 ||| (cur &&& 1) = 2 * rev + (cur.testBit 0).toNat := by
      rw [Nat.and_one_is_mod, Nat.shiftLeft_eq, Nat.pow_one, Nat.mul_comm rev, Bits.testBit_zero_toNat]
      have := Nat.two_pow_add_eq_or_of_lt (i := 1) (b := cur % 2) (by omega) rev
      rw [Nat.pow_one] at this
      exact this.symm
    rw [revCode, ih, hbit, Bits.ofNat, List.reverse_cons, Bits.toNat_append, List.length_reverse, Bits.length_ofNat,
      Nat.shiftRight_eq_div_pow, Nat.pow_one, Bits.toNat, Bits.toNat, Nat.pow_succ]
    ring

/-- `rev_code` is the word of the symbol as the bit buffer shows it. -/
theorem revCode_word (s : Nat) : revCode (size sizes s) (code sizes s) 0 = Bits.toNat (word sizes s) := by
  rw [revCode_eq, Nat.mul_zero, Nat.add_zero, word]

/-- Which entries a short code is written to. -/
theorem getElem_fillLookUp (k : Int) (l : Nat) (lookUp : Vector Int 1024) (rev v : Nat) (hv : v < 1024) :
    (fillLookUp k l lookUp rev)[v] = if rev ≤ v ∧ (v - rev) % 2 ^ l = 0 then k else lookUp[v] := by
  have hpos := Nat.two_pow_pos l
  fun_induction fillLookUp k l lookUp rev with
  | case1 lookUp rev hrev ih =>
    rw [ih, Nat.one_shiftLeft]
    by_cases heq : rev = v
    · subst heq
      rw [if_neg (by omega), if_pos ⟨Nat.le_refl _, by rw [Nat.sub_self, Nat.zero_mod]⟩, Vector.getElem_set_self]
    · rw [Vector.getElem_set_ne hrev hv heq]
      refine if_congr ⟨?_, ?_⟩ rfl rfl
      · rintro ⟨hle, hmod⟩
        refine ⟨by omega, ?_⟩
        rw [show v - rev = v - (rev + 2 ^ l) + 2 ^ l by omega, Nat.add_mod_right, hmod]
      · rintro ⟨hle, hmod⟩
        have hge : 2 ^ l ≤ v - rev := Nat.le_of_dvd (by omega) (Nat.dvd_of_mod_eq_zero hmod)
        refine ⟨by omega, ?_⟩
        rwa [show v - rev = v - (rev + 2 ^ l) + 2 ^ l by omega, Nat.add_mod_right] at hmod
  | case2 lookUp rev hrev => rw [if_neg (by omega)]

theorem fillLookUp_word {w : List Bool} (k : Int) (lookUp : Vector Int 1024) {v : Nat} (hv : v < 1024)
    (hw : w.length ≤ 10) :
    (fillLookUp k w.length lookUp (Bits.toNat w))[v] = if w <+: Bits.ofNat 10 v then k else lookUp[v] := by
  rw [getElem_fillLookUp]
  refine if_congr ?_ rfl rfl
  have hlt := Bits.toNat_lt w
  have hpref : w <+: Bits.ofNat 10 v ↔ v % 2 ^ w.length = Bits.toNat w := by
    rw [List.prefix_iff_eq_take, Bits.take_ofNat hw, eq_comm, Bits.ofNat_eq_iff rfl]
  rw [hpref]
  constructor
  · rintro ⟨hle, hmod⟩
    have hdvd := Nat.dvd_of_mod_eq_zero hmod
    obtain ⟨c, hc⟩ := hdvd
    rw [show v = Bits.toNat w + 2 ^ w.length * c by omega, Nat.add_mul_mod_self_left, Nat.mod_eq_of_lt hlt]
  · intro hmod
    refine ⟨hmod ▸ Nat.mod_le _ _, ?_⟩
    rw [← hmod]
    exact Nat.mod_eq_zero_of_dvd (Nat.dvd_sub_mod v)
/-! ## The entries -/

/-- The entry that names pair `k` -/
def pair (k : Nat) : Int := -(2 * k + 1)

/-- The entry for the bits `p`, when the first `n` symbols are filed and the pairs stand for `nodes`. -/
inductive Entry (sizes : List Nat) (n : Nat) (nodes : List (List Bool)) : List Bool → Int → Prop
  | short {p s} (hp : p.length = 10) (hn : s < n) (hs : size sizes s ≠ 0) (hle : size sizes s ≤ 10)
      (hpre : word sizes s <+: p) : Entry sizes n nodes p ((size sizes s <<< 9 ||| s : Nat) : Int)
  | long {s} (hn : s < n) (hlt : 10 < size sizes s) : Entry sizes n nodes (word sizes s) (s : Int)
  | node {p k} (hk : nodes[k]? = some p) : Entry sizes n nodes p (pair k)
  | free {p} (hnode : p ∉ nodes) (hword : ∀ s < n, size sizes s ≠ 0 → ¬ word sizes s <+: p) : Entry sizes n nodes p 0

/-- The first `n` symbols are filed. While the next one is, `m = n + 1` has its pairs already. -/
structure Filed (sizes : List Nat) (n m : Nat) (nodes : List (List Bool)) (b : Building) : Prop where
  next : b.treeNext = pair nodes.length
  nodup : nodes.Nodup
  inner : ∀ p ∈ nodes, 10 ≤ p.length ∧ ∃ s < m, size sizes s ≠ 0 ∧ p <+: word sizes s ∧ p ≠ word sizes s
  closed : ∀ p bit, p ++ [bit] ∈ nodes → 10 ≤ p.length → p ∈ nodes
  last : ∀ s < n, 10 < size sizes s → (word sizes s).dropLast ∈ nodes
  lookUp : ∀ v, ∀ hv : v < 1024, Entry sizes n nodes (Bits.ofNat 10 v) b.lookUp[v]
  tree : ∀ k p, nodes[k]? = some p → ∀ bit : Bool, ∃ h : 2 * k + bit.toNat < 576,
    Entry sizes n nodes (p ++ [bit]) b.tree[2 * k + bit.toNat]
  fresh : ∀ j, ∀ hj : j < 576, 2 * nodes.length ≤ j → b.tree[j] = 0
  nextLen : b.nextCode.length = 17
  nextCode : ∀ l ≤ 15, l ≠ 0 → b.nextCode.getD l 0 = first sizes l + (sizes.take n).count l

section

variable {n m : Nat} {nodes : List (List Bool)} {b : Building}

theorem Filed.isInner (h : Filed sizes n m nodes b) {p : List Bool} (hp : p ∈ nodes) : Inner sizes p := by
  obtain ⟨-, s, -, hs, hpre, hne⟩ := h.inner p hp
  exact ⟨s, hs, hpre, hne⟩

theorem Inner.not_word {s : Nat} {p : List Bool} (hf : Fits sizes 15) (h : Inner sizes p) (hs : size sizes s ≠ 0) :
    ¬ word sizes s <+: p := by
  intro hpre
  obtain ⟨t, ht, hp, hne⟩ := h
  obtain rfl := Canonical.word_prefix hf hs (hpre.trans hp)
  exact hne (hp.eq_of_length (Nat.le_antisymm hp.length_le hpre.length_le))

/-- A string of the pairs has its pair for an entry. -/
theorem Entry.of_mem (hf : Fits sizes 15) (hin : ∀ p ∈ nodes, Inner sizes p) {p : List Bool} {x : Int}
    (h : Entry sizes n nodes p x) (hp : p ∈ nodes) : ∃ k : Nat, nodes[k]? = some p ∧ x = pair k := by
  cases h with
  | short _ _ hs _ hpre => exact absurd hpre (Inner.not_word hf (hin _ hp) hs)
  | long _ hlt => exact absurd (List.prefix_refl _) (Inner.not_word hf (hin _ hp) (by omega))
  | node hk => exact ⟨_, hk, rfl⟩
  | free hnode => exact absurd hp hnode

/-- A string in front of a word that is not filed yet has a pair or nothing for an entry. -/
theorem Entry.of_prefix (hf : Fits sizes 15) {p : List Bool} {x : Int} (h : Entry sizes n nodes p x)
    (hp : p <+: word sizes n) :
    (∃ k : Nat, nodes[k]? = some p ∧ x = pair k) ∨ x = 0 ∧ p ∉ nodes := by
  cases h with
  | short _ hn hs' _ hpre => exact absurd (Canonical.word_prefix hf hs' (hpre.trans hp)) (Nat.ne_of_lt hn)
  | long hn hlt => exact absurd (Canonical.word_prefix hf (by omega) hp) (Nat.ne_of_lt hn)
  | node hk => exact .inl ⟨_, hk, rfl⟩
  | free hnode => exact .inr ⟨rfl, hnode⟩

/-- A new pair leaves the entries of the other strings as they are. -/
theorem Entry.grow {p q : List Bool} {x : Int} (h : Entry sizes n nodes p x) (hne : p ≠ q) :
    Entry sizes n (nodes ++ [q]) p x := by
  cases h with
  | short hp hn hs hle hpre => exact .short hp hn hs hle hpre
  | long hn hlt => exact .long hn hlt
  | node hk =>
    refine .node ?_
    rw [List.getElem?_append_left (List.getElem?_eq_some_iff.1 hk).1, hk]
  | free hnode hword =>
    refine .free ?_ hword
    rw [List.mem_append, List.mem_singleton]
    exact not_or.2 ⟨hnode, hne⟩

/-- A word that is filed leaves the entries of the strings alone that it is no prefix of. -/
theorem Entry.succ {p : List Bool} {x : Int} (h : Entry sizes n nodes p x)
    (hne : size sizes n ≠ 0 → ¬ word sizes n <+: p) : Entry sizes (n + 1) nodes p x := by
  cases h with
  | short hp hn hs hle hpre => exact .short hp (Nat.lt_succ_of_lt hn) hs hle hpre
  | long hn hlt => exact .long (Nat.lt_succ_of_lt hn) hlt
  | node hk => exact .node hk
  | free hnode hword =>
    refine .free hnode fun s hs hsize => ?_
    rcases Nat.lt_succ_iff_lt_or_eq.1 hs with hlt | rfl
    · exact hword s hlt hsize
    · exact hne hsize

theorem prefix_concat {w p : List Bool} {bit : Bool} (h : w <+: p ++ [bit]) : w <+: p ∨ w = p ++ [bit] := by
  rcases List.prefix_concat_iff.1 h with rfl | h
  · exact .inr rfl
  · exact .inl h

/-- A pair is made for `q`, a string in front of the next word. -/
theorem Filed.push (ha : Accepted sizes) (h : Filed sizes n (n + 1) nodes b) {q : List Bool} (hlen : 10 ≤ q.length)
    (hs : size sizes n ≠ 0) (hq : q <+: word sizes n) (hne : q ≠ word sizes n) (hnew : q ∉ nodes)
    (hparent : ∀ p bit, q = p ++ [bit] → 10 ≤ p.length → p ∈ nodes) {b' : Building}
    (hnext : b'.treeNext = b.treeNext - 2) (hcode : b'.nextCode = b.nextCode)
    (hlookUp : ∀ v, ∀ hv : v < 1024,
      b'.lookUp[v] = if Bits.ofNat 10 v = q then pair nodes.length else b.lookUp[v])
    (htree : ∀ k p, nodes[k]? = some p → ∀ bit : Bool, ∀ hk : 2 * k + bit.toNat < 576,
      b'.tree[2 * k + bit.toNat] = if p ++ [bit] = q then pair nodes.length else b.tree[2 * k + bit.toNat])
    (hfresh : ∀ j, ∀ hj : j < 576, 2 * nodes.length ≤ j → b'.tree[j] = b.tree[j]) :
    Filed sizes n (n + 1) (nodes ++ [q]) b' := by
  have hnodup : (nodes ++ [q]).Nodup := List.nodup_append.2 ⟨h.nodup, List.nodup_singleton q, by
    rintro p hp _ hr rfl
    rw [List.mem_singleton] at hr
    exact hnew (hr ▸ hp)⟩
  have hinner : ∀ p ∈ nodes ++ [q], 10 ≤ p.length ∧ ∃ s < n + 1, size sizes s ≠ 0 ∧ p <+: word sizes s ∧ p ≠ word sizes s := by
    intro p hp
    rcases List.mem_append.1 hp with hp | hp
    · exact h.inner p hp
    · rw [List.mem_singleton.1 hp]
      exact ⟨hlen, n, Nat.lt_succ_self n, hs, hq, hne⟩
  have hroom : nodes.length < 288 := by
    have := ha.nodes_le hnodup fun p hp => by
      obtain ⟨-, s, -, hs, hpre, hne⟩ := hinner p hp
      exact ⟨s, hs, hpre, hne⟩
    rw [List.length_append, List.length_singleton] at this
    omega
  have hself : ∀ {p : List Bool} {x : Int}, Entry sizes n nodes p x →
      Entry sizes n (nodes ++ [q]) p (if p = q then pair nodes.length else x) := by
    intro p x hx
    split_ifs with heq
    · subst heq
      exact .node (List.getElem?_concat_length)
    · exact hx.grow heq
  refine ⟨?_, hnodup, hinner, ?_, fun s hs hlt => List.mem_append_left _ (h.last s hs hlt), ?_, ?_, ?_, hcode ▸ h.nextLen,
    hcode ▸ h.nextCode⟩
  · rw [hnext, h.next, List.length_append, List.length_singleton, pair, pair]
    omega
  · intro p bit hp hplen
    rcases List.mem_append.1 hp with hp | hp
    · exact List.mem_append_left _ (h.closed p bit hp hplen)
    · exact List.mem_append_left _ (hparent p bit (List.mem_singleton.1 hp).symm hplen)
  · intro v hv
    rw [hlookUp v hv]
    exact hself (h.lookUp v hv)
  · intro k p hk bit
    have hbit := Bool.toNat_le bit
    rcases Nat.lt_or_ge k nodes.length with hlt | hge
    · rw [List.getElem?_append_left hlt] at hk
      obtain ⟨hbound, hentry⟩ := h.tree k p hk bit
      refine ⟨hbound, ?_⟩
      rw [htree k p hk bit hbound]
      exact hself hentry
    · -- the new pair is empty: a word that ends in it would have made it before
      obtain ⟨hlt, hget⟩ := List.getElem?_eq_some_iff.1 hk
      rw [List.length_append, List.length_singleton] at hlt
      obtain rfl : k = nodes.length := by omega
      rw [List.getElem_concat_length rfl] at hget
      subst hget
      refine ⟨by omega, ?_⟩
      rw [hfresh _ (by omega) (by omega), h.fresh _ (by omega) (by omega)]
      refine .free ?_ fun s hs hsize hpre => ?_
      · rw [List.mem_append, List.mem_singleton]
        rintro (hmem | heq)
        · exact hnew (h.closed _ bit hmem hlen)
        · exact absurd (congrArg List.length heq) (by simp)
      · rcases prefix_concat hpre with hpre | heq
        · exact absurd (Canonical.word_prefix ha.fits hsize (hpre.trans hq)) (Nat.ne_of_lt hs)
        · refine hnew ?_
          have hlong : 10 < size sizes s := by
            rw [← Canonical.length_word, heq, List.length_append, List.length_singleton]
            omega
          have := h.last s hs hlong
          rwa [heq, List.dropLast_concat] at this
  · intro j hj hge
    rw [List.length_append, List.length_singleton] at hge
    rw [hfresh j hj (by omega), h.fresh j hj (by omega)]

/-! ## A long word -/

theorem bit_toNat {w : List Bool} {i : Nat} (h : i < w.length) : Bits.toNat w >>> i &&& 1 = w[i].toNat := by
  have hget := Bits.getElem_ofNat (n := w.length) (i := i) (Bits.toNat w) (by rwa [Bits.length_ofNat])
  simp only [Bits.ofNat_toNat] at hget
  rw [hget, Nat.toNat_testBit, Nat.and_one_is_mod, Nat.shiftRight_eq_div_pow]

theorem pair_index (k : Nat) (bit : Bool) : (-(pair k - (bit.toNat : Int)) - 1).toNat = 2 * k + bit.toNat := by
  unfold pair
  omega

theorem treeAt_pair (tree : Vector Int 576) (k : Nat) (bit : Bool) :
    treeAt tree (pair k - (bit.toNat : Int)) 0 = tree[2 * k + bit.toNat]? := by
  have hneg : pair k - (bit.toNat : Int) < 0 := by
    unfold pair
    omega
  unfold treeAt
  rw [if_pos hneg, Nat.add_zero, pair_index]

theorem take_concat {w : List Bool} {i : Nat} (h : i < w.length) : w.take (i + 1) = w.take i ++ [w[i]] :=
  (List.take_concat_get' w i h).symm

theorem take_ne {w : List Bool} {i : Nat} (h : i < w.length) : w.take i ≠ w := fun heq => by
  have := congrArg List.length heq
  rw [List.length_take] at this
  omega

/-- Pairs of other strings are not moved. -/
theorem pair_index_ne {k k' : Nat} {p q : List Bool} (hk : nodes[k]? = some p) (hk' : nodes[k']? = some q)
    {bit bit' : Bool} (hne : p ++ [bit] ≠ q ++ [bit']) : 2 * k' + bit'.toNat ≠ 2 * k + bit.toNat := by
  intro heq
  have hkk : k' = k ∧ bit'.toNat = bit.toNat := by
    have := Bool.toNat_le bit
    have := Bool.toNat_le bit'
    omega
  obtain ⟨rfl, hbit⟩ := hkk
  rw [hk] at hk'
  have hsame : bit = bit' := by
    revert hbit
    cases bit <;> cases bit' <;> decide
  exact hne (by rw [Option.some.inj hk', hsame])

/-- The loop that goes down to the last pair of a word. -/
theorem grow_filed (ha : Accepted sizes) (hs : size sizes n ≠ 0) (j : Nat) {i k : Nat}
    (h : Filed sizes n (n + 1) nodes b) (hk : nodes[k]? = some ((word sizes n).take i)) (hi : 10 ≤ i)
    (hj : i + 1 + j = size sizes n) :
    ∃ nodes' tree' k', grow j b.tree b.treeNext (pair k) (Bits.toNat (word sizes n) >>> (i - 1)) =
        some (tree', pair nodes'.length, pair k', Bits.toNat (word sizes n) >>> (size sizes n - 2)) ∧
      Filed sizes n (n + 1) nodes' { b with tree := tree', treeNext := pair nodes'.length } ∧
      nodes'[k']? = some (word sizes n).dropLast := by
  induction j generalizing nodes b i k with
  | zero =>
    refine ⟨nodes, b.tree, k, ?_, ?_, ?_⟩
    · rw [grow, h.next, show i - 1 = size sizes n - 2 by omega]
    · exact { h with next := rfl }
    · rw [hk, List.dropLast_eq_take, Canonical.length_word, show i = size sizes n - 1 by omega]
  | succ j ih =>
    have hlt : i < (word sizes n).length := by rw [Canonical.length_word]; omega
    have hshift : Bits.toNat (word sizes n) >>> (i - 1) >>> 1 = Bits.toNat (word sizes n) >>> i := by
      rw [← Nat.shiftRight_add, Nat.sub_add_cancel (by omega)]
    obtain ⟨hbound, hentry⟩ := h.tree k _ hk (word sizes n)[i]
    rw [← take_concat hlt] at hentry
    rw [grow, hshift, bit_toNat hlt, treeAt_pair, Vector.getElem?_eq_getElem hbound]
    dsimp only
    rcases hentry.of_prefix ha.fits (List.take_prefix _ _) with ⟨k', hk', hx⟩ | ⟨hx, hnew⟩
    · rw [if_neg (by rw [hx]; unfold pair; omega), hx]
      exact ih h hk' (by omega) (by omega)
    · -- no pair yet: the next one is made
      rw [if_pos hx, pair_index]
      have htree : ∀ k'' p, nodes[k'']? = some p → ∀ bit : Bool, ∀ hb : 2 * k'' + bit.toNat < 576,
          (b.tree.setIfInBounds (2 * k + (word sizes n)[i].toNat) b.treeNext)[2 * k'' + bit.toNat] =
            if p ++ [bit] = (word sizes n).take (i + 1) then pair nodes.length else b.tree[2 * k'' + bit.toNat] := by
        intro k'' p hp bit hb
        split_ifs with heq
        · have hp' := List.append_inj' (heq.trans (take_concat hlt)) rfl
          obtain rfl : k'' = k := (List.getElem?_inj (List.getElem?_eq_some_iff.1 hp).1 h.nodup).1 (by rw [hp, hk, hp'.1])
          have hbit : bit = (word sizes n)[i] := List.singleton_inj.1 hp'.2
          simp only [hbit, Vector.getElem_setIfInBounds_self, h.next]
        · rw [Vector.getElem_setIfInBounds_ne hb (pair_index_ne hp hk (fun hcon => heq (hcon.trans (take_concat hlt).symm)))]
      have hpush : Filed sizes n (n + 1) (nodes ++ [(word sizes n).take (i + 1)])
          { b with tree := b.tree.setIfInBounds (2 * k + (word sizes n)[i].toNat) b.treeNext, treeNext := b.treeNext - 2 } := by
        refine h.push ha ?_ hs (List.take_prefix _ _) (take_ne ?_) hnew ?_ rfl rfl ?_ htree ?_
        · rw [List.length_take]
          omega
        · rw [Canonical.length_word]
          omega
        · intro p bit heq _
          rw [take_concat hlt] at heq
          rw [← (List.append_inj' heq rfl).1]
          exact List.mem_of_getElem? hk
        · intro v hv
          rw [if_neg]
          intro heq
          have := congrArg List.length heq
          rw [Bits.length_ofNat, List.length_take] at this
          omega
        · intro j' hj' hge
          have hklt := (List.getElem?_eq_some_iff.1 hk).1
          have := Bool.toNat_le (word sizes n)[i]
          exact Vector.getElem_setIfInBounds_ne hj' (by omega)
      have hlast : (nodes ++ [(word sizes n).take (i + 1)])[nodes.length]? = some ((word sizes n).take (i + 1)) :=
        List.getElem?_concat_length
      obtain ⟨nodes', tree', k', hgrow, hfiled, hk'⟩ := ih hpush hlast (by omega) (by omega)
      dsimp only at hgrow hfiled
      rw [Nat.add_sub_cancel] at hgrow
      rw [h.next] at hgrow ⊢
      exact ⟨nodes', tree', k', hgrow, hfiled, hk'⟩

theorem and_lookUp (v : Nat) : v &&& (TINFL_FAST_LOOKUP_SIZE - 1) = v % 1024 :=
  Nat.and_two_pow_sub_one_eq_mod v 10

theorem ofNat_lookUp (v : Nat) : Bits.ofNat 10 (v % 1024) = Bits.ofNat 10 v := Bits.ofNat_mod 10 v

theorem ofNat_take {w : List Bool} (h : 10 ≤ w.length) : Bits.ofNat 10 (Bits.toNat w) = w.take 10 := by
  rw [← Bits.take_ofNat h, Bits.ofNat_toNat]

theorem Filed.weaken (h : Filed sizes n n nodes b) : Filed sizes n (n + 1) nodes b :=
  { h with
    inner := fun p hp => by
      obtain ⟨hlen, s, hs, hrest⟩ := h.inner p hp
      exact ⟨hlen, s, Nat.lt_succ_of_lt hs, hrest⟩ }

/-- The last entry of a long word. -/
theorem Filed.leaf (ha : Accepted sizes) (h : Filed sizes n (n + 1) nodes b) (hlong : 10 < size sizes n) {k : Nat}
    (hk : nodes[k]? = some (word sizes n).dropLast) {bit : Bool} (hbit : word sizes n = (word sizes n).dropLast ++ [bit])
    {next : List Nat} (hnext : next.length = 17)
    (hcode : ∀ l ≤ 15, l ≠ 0 → next.getD l 0 = first sizes l + (sizes.take (n + 1)).count l) :
    Filed sizes (n + 1) (n + 1) nodes
      { b with tree := b.tree.setIfInBounds (2 * k + bit.toNat) n, nextCode := next } := by
  refine { h with last := ?_, lookUp := ?_, tree := ?_, fresh := ?_, nextLen := hnext, nextCode := hcode }
  · intro s hs hlt
    rcases Nat.lt_succ_iff_lt_or_eq.1 hs with hs | rfl
    · exact h.last s hs hlt
    · exact List.mem_of_getElem? hk
  · intro v hv
    refine (h.lookUp v hv).succ fun _ hpre => ?_
    have := hpre.length_le
    rw [Canonical.length_word, Bits.length_ofNat] at this
    omega
  · intro k' p hp bit'
    obtain ⟨hbound, hentry⟩ := h.tree k' p hp bit'
    refine ⟨hbound, ?_⟩
    dsimp only
    by_cases heq : p ++ [bit'] = word sizes n
    · have hp' := List.append_inj' (heq.trans hbit) rfl
      obtain rfl : k' = k := (List.getElem?_inj (List.getElem?_eq_some_iff.1 hp).1 h.nodup).1 (by rw [hp, hk, hp'.1])
      obtain rfl : bit' = bit := List.singleton_inj.1 hp'.2
      rw [Vector.getElem_setIfInBounds_self, heq]
      exact .long (Nat.lt_succ_self n) hlong
    · rw [Vector.getElem_setIfInBounds_ne hbound (pair_index_ne hp hk fun hcon => heq (hcon.trans hbit.symm))]
      refine hentry.succ fun hs hpre => ?_
      rcases prefix_concat hpre with hpre | hcon
      · exact Inner.not_word ha.fits (h.isInner (List.mem_of_getElem? hp)) hs hpre
      · exact heq hcon.symm
  · intro j hj hge
    have hklt := (List.getElem?_eq_some_iff.1 hk).1
    have := Bool.toNat_le bit
    show (b.tree.setIfInBounds _ _)[j] = 0
    rw [Vector.getElem_setIfInBounds_ne hj (by omega), h.fresh j hj hge]

/-- The first pair of a long word. -/
theorem root_filed (ha : Accepted sizes) (h : Filed sizes n n nodes b) (hlong : 10 < size sizes n) :
    ∃ cur, b.lookUp[Bits.toNat (word sizes n) % 1024]? = some cur ∧ ∃ nodes' lookUp' k,
      (if cur = 0 then (b.lookUp.setIfInBounds (Bits.toNat (word sizes n) % 1024) b.treeNext, b.treeNext, b.treeNext - 2)
        else (b.lookUp, cur, b.treeNext)) = (lookUp', pair k, pair nodes'.length) ∧
      nodes'[k]? = some ((word sizes n).take 10) ∧
      Filed sizes n (n + 1) nodes' { b with lookUp := lookUp', treeNext := pair nodes'.length } := by
  have hlen : 10 < (word sizes n).length := by rwa [Canonical.length_word]
  have hv : Bits.toNat (word sizes n) % 1024 < 1024 := Nat.mod_lt _ (by decide)
  have hbits : Bits.ofNat 10 (Bits.toNat (word sizes n) % 1024) = (word sizes n).take 10 := by
    rw [ofNat_lookUp, ofNat_take (Nat.le_of_lt hlen)]
  have hentry := h.lookUp _ hv
  rw [hbits] at hentry
  refine ⟨_, Vector.getElem?_eq_getElem hv, ?_⟩
  rcases hentry.of_prefix ha.fits (List.take_prefix _ _) with ⟨k, hk, hx⟩ | ⟨hx, hnew⟩
  · refine ⟨nodes, b.lookUp, k, ?_, hk, { h.weaken with next := rfl }⟩
    rw [if_neg (by rw [hx]; unfold pair; omega), hx, h.next]
  · have hnext : b.treeNext - 2 = pair (nodes ++ [(word sizes n).take 10]).length := by
      rw [h.next, List.length_append, List.length_singleton]
      unfold pair
      omega
    refine ⟨nodes ++ [(word sizes n).take 10], b.lookUp.setIfInBounds (Bits.toNat (word sizes n) % 1024) b.treeNext,
      nodes.length, ?_, List.getElem?_concat_length, ?_⟩
    · rw [if_pos hx, hnext, ← h.next]
    · refine h.weaken.push ha ?_ (by omega) (List.take_prefix _ _) (take_ne hlen) hnew ?_ ?_ rfl ?_ ?_
        fun j hj _ => rfl
      · rw [List.length_take]
        omega
      · intro p bit heq hp
        have := congrArg List.length heq
        rw [List.length_take, List.length_append, List.length_singleton] at this
        omega
      · exact hnext.symm
      · intro v hv'
        dsimp only
        rw [← h.next]
        split_ifs with heq
        · have hsame : Bits.toNat (word sizes n) % 1024 = v := by
            have := congrArg Bits.toNat (hbits.trans heq.symm)
            rw [Bits.toNat_ofNat, Bits.toNat_ofNat] at this
            omega
          simp only [hsame, Vector.getElem_setIfInBounds_self]
        · refine Vector.getElem_setIfInBounds_ne hv' fun hcon => heq ?_
          rw [← hcon, hbits]
      · intro k p hk bit hb
        rw [if_neg]
        intro heq
        have := congrArg List.length heq
        have := (h.inner p (List.mem_of_getElem? hk)).1
        rw [List.length_append, List.length_singleton, List.length_take] at *
        omega

theorem insertLong_filed (ha : Accepted sizes) (h : Filed sizes n n nodes b) (hlong : 10 < size sizes n)
    {next : List Nat} (hnext : next.length = 17)
    (hcode : ∀ l ≤ 15, l ≠ 0 → next.getD l 0 = first sizes l + (sizes.take (n + 1)).count l) :
    ∃ b' nodes', insertLong { b with nextCode := next } n (size sizes n) (Bits.toNat (word sizes n)) = some b' ∧
      Filed sizes (n + 1) (n + 1) nodes' b' := by
  have hlen : (word sizes n).length = size sizes n := Canonical.length_word
  obtain ⟨cur, hcur, nodes1, lookUp1, k1, hroot, hk1, h1⟩ := root_filed ha h hlong
  obtain ⟨nodes2, tree2, k2, hgrow, h2, hk2⟩ := grow_filed ha (by omega) (size sizes n - 11) h1 hk1 (Nat.le_refl _)
    (by omega)
  have hlast : size sizes n - 1 < (word sizes n).length := by omega
  have hbit : word sizes n = (word sizes n).dropLast ++ [(word sizes n)[size sizes n - 1]] := by
    rw [List.dropLast_eq_take, hlen, ← take_concat hlast, List.take_of_length_le (by omega)]
  obtain ⟨hbound, -⟩ := h2.tree k2 _ hk2 (word sizes n)[size sizes n - 1]
  unfold insertLong
  rw [and_lookUp, hcur]
  dsimp only
  rw [hroot]
  dsimp only at hgrow ⊢
  rw [show TINFL_FAST_LOOKUP_BITS - 1 = 10 - 1 from rfl, show TINFL_FAST_LOOKUP_BITS + 1 = 11 from rfl, hgrow]
  dsimp only
  rw [← Nat.shiftRight_add, show size sizes n - 2 + 1 = size sizes n - 1 by omega, bit_toNat hlast, treeAt_pair,
    Vector.getElem?_eq_getElem hbound, pair_index]
  exact ⟨_, nodes2, rfl, h2.leaf ha hlong hk2 hbit hnext hcode⟩

/-! ## All words -/

theorem count_take_succ (hn : n < sizes.length) (l : Nat) :
    (sizes.take (n + 1)).count l = (sizes.take n).count l + if size sizes n = l then 1 else 0 := by
  rw [List.take_add_one, List.getElem?_eq_getElem hn, Option.toList_some, List.count_append, ← Canonical.size_eq_getElem hn,
    List.count_singleton]
  simp only [beq_iff_eq]

/-- **One symbol is filed.** -/
theorem insertSym_filed (ha : Accepted sizes) (hn : n < sizes.length) (h : Filed sizes n n nodes b) :
    ∃ b' nodes', insertSym b n (size sizes n) = some b' ∧ Filed sizes (n + 1) (n + 1) nodes' b' := by
  unfold insertSym
  by_cases h0 : size sizes n = 0
  · rw [if_pos h0]
    refine ⟨b, nodes, rfl, { h.weaken with last := ?_, lookUp := ?_, tree := ?_, nextCode := ?_ }⟩
    · intro s hs hlt
      rcases Nat.lt_succ_iff_lt_or_eq.1 hs with hs | rfl
      · exact h.last s hs hlt
      · omega
    · exact fun v hv => (h.lookUp v hv).succ fun hs => absurd h0 hs
    · intro k p hk bit
      obtain ⟨hbound, hentry⟩ := h.tree k p hk bit
      exact ⟨hbound, hentry.succ fun hs => absurd h0 hs⟩
    · intro l hl hl0
      rw [h.nextCode l hl hl0, count_take_succ hn, if_neg (by omega), Nat.add_zero]
  · have hle15 : size sizes n ≤ 15 := Canonical.size_le ha.fits
    have hget : b.nextCode[size sizes n]? = some (code sizes n) := by
      have := h.nextCode _ hle15 h0
      rw [List.getD_eq_getElem?_getD, List.getElem?_eq_getElem (by rw [h.nextLen]; omega), Option.getD_some] at this
      rw [List.getElem?_eq_getElem (by rw [h.nextLen]; omega), this]
      rfl
    have hnext : (b.nextCode.set (size sizes n) (code sizes n + 1)).length = 17 := by rw [List.length_set, h.nextLen]
    have hcode : ∀ l ≤ 15, l ≠ 0 → (b.nextCode.set (size sizes n) (code sizes n + 1)).getD l 0 =
        first sizes l + (sizes.take (n + 1)).count l := by
      intro l hl hl0
      rw [count_take_succ hn, List.getD_eq_getElem?_getD, List.getElem?_set]
      by_cases heq : size sizes n = l
      · subst heq
        rw [if_pos rfl, if_pos rfl, if_pos (by rw [h.nextLen]; omega), Option.getD_some, code, Nat.add_assoc]
      · rw [if_neg heq, if_neg heq, ← List.getD_eq_getElem?_getD, h.nextCode l hl hl0, Nat.add_zero]
    rw [if_neg h0, hget]
    dsimp only
    rw [revCode_word]
    by_cases hshort : size sizes n ≤ 10
    · rw [if_pos (show size sizes n ≤ TINFL_FAST_LOOKUP_BITS from hshort)]
      refine ⟨_, nodes, rfl, { h.weaken with last := ?_, lookUp := ?_, tree := ?_, nextLen := hnext, nextCode := hcode }⟩
      · intro s hs hlt
        rcases Nat.lt_succ_iff_lt_or_eq.1 hs with hs | rfl
        · exact h.last s hs hlt
        · omega
      · intro v hv
        have hfill := fillLookUp_word (w := word sizes n) ((size sizes n <<< 9 ||| n : Nat) : Int) b.lookUp hv
          (by rwa [Canonical.length_word])
        rw [Canonical.length_word] at hfill
        rw [hfill]
        split_ifs with hpre
        · exact .short (Bits.length_ofNat 10 v) (Nat.lt_succ_self n) h0 hshort hpre
        · exact (h.lookUp v hv).succ fun _ => hpre
      · intro k p hk bit
        obtain ⟨hbound, hentry⟩ := h.tree k p hk bit
        refine ⟨hbound, hentry.succ fun _ hpre => ?_⟩
        have hp := List.mem_of_getElem? hk
        have hlen := (h.inner p hp).1
        refine Inner.not_word ha.fits (h.isInner hp) h0 ?_
        rcases prefix_concat hpre with hpre | heq
        · exact hpre
        · have := congrArg List.length heq
          rw [Canonical.length_word, List.length_append, List.length_singleton] at this
          omega
    · rw [if_neg (show ¬ size sizes n ≤ TINFL_FAST_LOOKUP_BITS from hshort)]
      exact insertLong_filed ha h (by omega) hnext hcode

theorem insertSyms_filed (ha : Accepted sizes) (rest : List Nat) (hrest : sizes.drop n = rest) (hn : n ≤ sizes.length)
    (h : Filed sizes n n nodes b) :
    ∃ b' nodes', insertSyms rest n b = some b' ∧ Filed sizes sizes.length sizes.length nodes' b' := by
  induction rest generalizing n nodes b with
  | nil =>
    obtain rfl : n = sizes.length := Nat.le_antisymm hn (List.drop_eq_nil_iff.1 hrest)
    exact ⟨b, nodes, rfl, h⟩
  | cons l rest ih =>
    have hlt : n < sizes.length := by
      by_contra hge
      rw [List.drop_eq_nil_of_le (by omega)] at hrest
      cases hrest
    rw [List.drop_eq_getElem_cons hlt, ← Canonical.size_eq_getElem hlt] at hrest
    obtain ⟨hl, hrest⟩ := List.cons.inj hrest
    obtain ⟨b1, nodes1, hb1, h1⟩ := insertSym_filed ha hlt h
    rw [insertSyms, ← hl, hb1]
    exact ih hrest hlt h1

end

theorem emptyTables_filed : Filed sizes 0 0 [] (emptyTables sizes) := by
  obtain ⟨-, -, hlen, hnext⟩ := nextCodes_spec sizes
  refine ⟨rfl, List.nodup_nil, fun p hp => absurd hp List.not_mem_nil, fun p bit hp => absurd hp List.not_mem_nil,
    fun s hs => absurd hs (Nat.not_lt_zero s), ?_, fun k p hk => absurd hk (by simp), ?_, hlen, ?_⟩
  · intro v hv
    show Entry sizes 0 [] (Bits.ofNat 10 v) (Vector.replicate 1024 (0 : Int))[v]
    rw [Vector.getElem_replicate]
    exact .free List.not_mem_nil fun s hs => absurd hs (Nat.not_lt_zero s)
  · intro j hj _
    exact Vector.getElem_replicate hj
  · intro l hl _
    rw [List.take_zero, List.count_nil, Nat.add_zero]
    exact hnext l (by omega)

/-- A table with the words of `sizes`. -/
def Built (sizes : List Nat) (t : HuffTable) : Prop :=
  Accepted sizes ∧ ∃ nodes next codes, Filed sizes sizes.length sizes.length nodes ⟨t.lookUp, t.tree, next, codes⟩

/-- **The table of an accepted code is built**, without an access outside its arrays. -/
theorem buildTable_built (ha : Accepted sizes) :
    ∃ b, buildTable sizes = some b ∧ ∀ codeSize, Built sizes ⟨codeSize, b.lookUp, b.tree⟩ := by
  obtain ⟨b, nodes, hb, hfiled⟩ := insertSyms_filed ha sizes List.drop_zero (Nat.zero_le _) emptyTables_filed
  refine ⟨b, ?_, fun codeSize => ⟨ha, nodes, b.treeNext, b.nextCode, hfiled⟩⟩
  rw [buildTable, if_pos (by simpa using ha.max), hb]

end Keynjector.Inflate
