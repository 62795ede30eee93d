import Keynjector.Inflate.Blocks
/-
# The codes of a dynamic block (tinfl.c:182-262)

The three table sizes, the sizes of the code for sizes, its table, and with it the run-length
encoded sizes of the two codes of the block. The tables are built from the last to the first.
-/

namespace Keynjector.Inflate

open Deflate (Mark bits output silent emit Codes Header SizeItem encodeItems expandItems ValidItems sizeOrder)
open Canonical (word size)

variable {zl : Bool} {pad : Nat} {sum : Vector UInt8 4} {c : Call} {m m' : Machine} {d d' : Core} {hist : List UInt8} {r : List Mark} {hd : Header} {cs : Codes}

/-! ## What steps leave alone -/

theorem Tokens.congr (h : Tokens zl pad sum d cs hist r) (hz : d'.zAdler32 = d.zAdler32) (hfinal : d'.final = d.final) :
    Tokens zl pad sum d' cs hist r := by
  obtain ⟨ts, tail, hr, hv, hadler, hafter⟩ := h
  exact ⟨ts, tail, hr, hv, hz ▸ hadler, hfinal ▸ hafter⟩

theorem InHeader.congr (h : InHeader zl pad sum d hist hd r) (htype : d'.type = d.type) (hz : d'.zAdler32 = d.zAdler32)
    (hfinal : d'.final = d.final) : InHeader zl pad sum d' hist hd r :=
  ⟨htype.trans h.type, h.valid, h.tokens.congr hz hfinal⟩

theorem sizeCode_accepted (h : hd.Valid) : Accepted hd.sizeCode :=
  ⟨h.properSizes.max, by rw [h.sizeCode.1]; decide, h.properSizes.full⟩

theorem lit_accepted (h : hd.Valid) : Accepted hd.codes.lit := ⟨h.properLit.max, h.lit.2, h.properLit.full⟩

theorem dist_accepted (h : hd.Valid) : Accepted hd.codes.dist :=
  ⟨h.properDist.max, h.dist.2.trans (by decide), h.properDist.full⟩

/-! ## The table sizes -/

/-- A field of the header, and the size it stands for -/
theorem headerField (h : hd.Valid) {i : Nat} (hi : i < 3) :
    ∃ v, (knownSizes hd)[i]? = some (v + s_min_table_sizes.getD i 0) ∧ v < 2 ^ [5, 5, 4].getD i 0 ∧
      ((headerFields hd).drop i).flatten = Bits.ofNat ([5, 5, 4].getD i 0) v ++ ((headerFields hd).drop (i + 1)).flatten := by
  have hlit := h.lit
  have hdist := h.dist
  have hsent := h.sent
  rcases (by omega : i = 0 ∨ i = 1 ∨ i = 2) with rfl | rfl | rfl
  · refine ⟨hd.codes.lit.length - 257, congrArg some ?_, ?_, rfl⟩
    · show hd.codes.lit.length = hd.codes.lit.length - 257 + 257
      omega
    · show hd.codes.lit.length - 257 < 32
      omega
  · refine ⟨hd.codes.dist.length - 1, congrArg some ?_, ?_, rfl⟩
    · show hd.codes.dist.length = hd.codes.dist.length - 1 + 1
      omega
    · show hd.codes.dist.length - 1 < 32
      omega
  · refine ⟨hd.sent - 4, congrArg some ?_, ?_, rfl⟩
    · show hd.sent = hd.sent - 4 + 4
      omega
    · show hd.sent - 4 < 16
      omega

theorem take_setIfInBounds {n k x : Nat} {xs : Vector Nat n} {ys : List Nat} (hk : k < n)
    (h : xs.toList.take k = ys.take k) (hx : ys[k]? = some x) : (xs.setIfInBounds k x).toList.take (k + 1) = ys.take (k + 1) := by
  rw [Vector.toList_setIfInBounds, List.take_add_one, List.take_set_of_le (Nat.le_refl _), h,
    List.getElem?_set_self (by rwa [Vector.length_toList]), List.take_add_one (l := ys), hx]

theorem stepTableSizes_good (hok : c.Ok) {rest : List Bool} (hrest : rest = sizeBits hd 0 ++ encodeItems hd.sizeCode hd.items)
    (h : Sync c m hist (silent (((headerFields hd).drop m.counter).flatten ++ rest) ++ r) []) (hstate : m.state = .tableSizes)
    (hcount : m.counter ≤ 3) (hsizes : m.tableSizes.toList.take m.counter = (knownSizes hd).take m.counter)
    (hin : InHeader zl pad sum m hist hd r) :
    Good (Expect zl pad sum c.window) c (cost c m (silent (((headerFields hd).drop m.counter).flatten ++ rest) ++ r) [])
      (stepTableSizes c.env m) := by
  have hrank : m.rank c.env = 15 := by rw [Machine.rank, hstate]
  unfold stepTableSizes
  by_cases hlt : m.counter < 3
  · rw [if_pos hlt]
    obtain ⟨v, hknown, hv, hfields⟩ := headerField hin.valid hlt
    have hi : ∀ m' : Machine, m'.state = m.state → m'.counter = m.counter → m'.tableSizes = m.tableSizes →
        m'.type = m.type → m'.zAdler32 = m.zAdler32 → m'.final = m.final →
          Expect zl pad sum c.window m' hist (silent (((headerFields hd).drop m.counter).flatten ++ rest) ++ r) [] := by
      intro m' hstate' hcount' hsizes' htype hz hfinal
      rw [← hcount', hrest]
      exact .tableSizes (hstate'.trans hstate) (hcount' ▸ hcount) (by rw [hcount', hsizes']; exact hsizes)
        (hin.congr htype hz hfinal)
    have hsplit : silent (((headerFields hd).drop m.counter).flatten ++ rest) ++ r =
        silent (Bits.ofNat ([5, 5, 4].getD m.counter 0) v) ++
          (silent (((headerFields hd).drop (m.counter + 1)).flatten ++ rest) ++ r) := by
      rw [hfields, List.append_assoc, Deflate.silent_append, List.append_assoc]
    rw [hsplit] at h hi ⊢
    have hpos : 0 < [5, 5, 4].getD m.counter 0 := by
      rcases (by omega : m.counter = 0 ∨ m.counter = 1 ∨ m.counter = 2) with h0 | h0 | h0 <;> rw [h0] <;> decide
    refine getBits_good hok h (hi m rfl rfl rfl rfl rfl rfl) (quiet_silent _)
      (by rw [Deflate.length_silent, Bits.length_ofNat]) (fun b input _ => hi _ rfl rfl rfl rfl rfl rfl) fun w hn hsync => ?_
    rw [Deflate.output_silent] at hsync
    rw [Deflate.bits_silent, Bits.toNat_ofNat, Nat.mod_eq_of_lt hv]
    rw [store_lt hlt, Next.access_some]
    refine ⟨hist, _, [], hsync.frame rfl rfl rfl rfl rfl rfl, ?_, cost_silent (by rwa [Bits.length_ofNat]) ?_⟩
    · rw [hrest]
      refine .tableSizes hstate hlt ?_ (hin.congr rfl rfl rfl)
      exact take_setIfInBounds hlt hsizes hknown
    · rw [Bits.length_ofNat]
      show m.numBits ≤ m.numBits - [5, 5, 4].getD m.counter 0 + [5, 5, 4].getD m.counter 0
      omega
  · rw [if_neg hlt]
    have h3 : m.counter = 3 := Nat.le_antisymm hcount (Nat.le_of_not_lt hlt)
    rw [h3] at h hsizes ⊢
    rw [List.take_of_length_le (Nat.le_of_eq Vector.length_toList)] at hsizes
    have hr : silent (((headerFields hd).drop 3).flatten ++ rest) ++ r =
        silent (sizeBits hd 0 ++ encodeItems hd.sizeCode hd.items) ++ r := by
      rw [hrest]
      rfl
    rw [hr] at h ⊢
    refine ⟨hist, _, [], h.frame rfl rfl rfl rfl rfl rfl, .codeSizes rfl (Nat.zero_le _) hsizes (fun i hi => ?_) (hin.congr rfl rfl rfl),
      cost_rank rfl (by rw [hrank]; exact Nat.lt_succ_self 14)⟩
    simp only [Core.sizeTable, Vector.getElem_set_self, Vector.getElem_replicate]
    exact (if_neg List.not_mem_nil).symm

/-! ## The code for sizes -/

theorem length_sizeOrder : sizeOrder.length = 19 := rfl

theorem mem_sizeOrder {i : Nat} (hi : i < 19) : i ∈ sizeOrder := by
  have hall : ∀ i < 19, i ∈ sizeOrder := by decide
  exact hall i hi

theorem sizeBits_cons {k i : Nat} (hk : k < hd.sent) (hi : sizeOrder[k]? = some i) :
    sizeBits hd k = Bits.ofNat 3 (size hd.sizeCode i) ++ sizeBits hd (k + 1) := by
  have htake : (sizeOrder.take hd.sent)[k]? = some i := by rw [List.getElem?_take_of_lt hk, hi]
  obtain ⟨hlen, hget⟩ := List.getElem?_eq_some_iff.1 htake
  rw [sizeBits, List.drop_eq_getElem_cons hlen, List.flatMap_cons, hget]
  rfl

theorem mem_take_succ {k i j : Nat} (hi : sizeOrder[k]? = some i) :
    j ∈ sizeOrder.take (k + 1) ↔ j ∈ sizeOrder.take k ∨ j = i := by
  rw [List.take_add_one, hi, List.mem_append]
  exact or_congr_right List.mem_singleton

/-- The sizes of the code for sizes that were sent -/
theorem sizeCode_eq (h : hd.Valid) {codeSize : Vector Nat 288}
    (hcodes : ∀ i, ∀ hi : i < 288, codeSize[i] = if i ∈ sizeOrder.take hd.sent then size hd.sizeCode i else 0) :
    codeSize.toList.take 19 = hd.sizeCode := by
  refine List.ext_getElem ?_ fun i hi hi' => ?_
  · rw [List.length_take, Vector.length_toList, h.sizeCode.1]
    rfl
  · have h19 : i < 19 := by rwa [h.sizeCode.1] at hi'
    rw [List.getElem_take, Vector.getElem_toList, hcodes i (by omega)]
    have hsize : size hd.sizeCode i = hd.sizeCode[i] := List.getD_eq_getElem _ _ hi'
    split
    · exact hsize
    · next hnot =>
      have hmem := mem_sizeOrder h19
      rw [← List.take_append_drop hd.sent sizeOrder, List.mem_append] at hmem
      rw [← hsize, h.unsent i (hmem.resolve_left hnot)]

theorem size_lt_eight (h : hd.Valid) (i : Nat) : size hd.sizeCode i < 2 ^ 3 := by
  unfold size
  rw [List.getD_eq_getElem?_getD]
  rcases hget : hd.sizeCode[i]? with _ | l
  · exact Nat.succ_pos 7
  · exact h.sizeCode.2 l (List.mem_of_getElem? hget)

theorem stepCodeSizes_good (hok : c.Ok) (h : Sync c m hist (silent (sizeBits hd m.counter ++ encodeItems hd.sizeCode hd.items) ++ r) [])
    (hstate : m.state = .codeSizes) (hcount : m.counter ≤ hd.sent) (hsizes : m.tableSizes.toList = knownSizes hd)
    (hcodes : ∀ i, ∀ hi : i < 288, m.sizeTable.codeSize[i] = if i ∈ sizeOrder.take m.counter then size hd.sizeCode i else 0)
    (hin : InHeader zl pad sum m hist hd r) :
    Good (Expect zl pad sum c.window) c (cost c m (silent (sizeBits hd m.counter ++ encodeItems hd.sizeCode hd.items) ++ r) [])
      (stepCodeSizes c.env m) := by
  have hsent := hin.valid.sent
  have hsize2 : m.sentSize = hd.sent := by
    have : m.tableSizes.toList[2]? = (knownSizes hd)[2]? := by rw [hsizes]
    rwa [Vector.getElem?_toList, Vector.getElem?_eq_getElem (by decide), show (knownSizes hd)[2]? = some hd.sent from rfl,
      Option.some_inj] at this
  have hrank : m.rank c.env = 14 := by rw [Machine.rank, hstate]
  unfold stepCodeSizes
  by_cases hlt : m.counter < m.sentSize
  · rw [if_pos hlt]
    rw [hsize2] at hlt
    obtain ⟨i, hi⟩ : ∃ i, sizeOrder[m.counter]? = some i :=
      ⟨_, List.getElem?_eq_getElem (by rw [length_sizeOrder]; omega)⟩
    have hi19 : i < 19 := by
      have hall : ∀ i ∈ sizeOrder, i < 19 := by decide
      exact hall i (List.mem_of_getElem? hi)
    have hexp : ∀ m' : Machine, m'.state = m.state → m'.counter = m.counter → m'.tableSizes = m.tableSizes →
        m'.tables = m.tables → m'.type = m.type → m'.zAdler32 = m.zAdler32 → m'.final = m.final →
          Expect zl pad sum c.window m' hist (silent (sizeBits hd m.counter ++ encodeItems hd.sizeCode hd.items) ++ r) [] := by
      intro m' hstate' hcount' hsizes' htables htype hz hfinal
      rw [← hcount']
      exact .codeSizes (hstate'.trans hstate) (hcount' ▸ hcount) (by rw [hsizes']; exact hsizes)
        (by rw [hcount', Core.sizeTable, htables]; exact hcodes) (hin.congr htype hz hfinal)
    have hsplit : silent (sizeBits hd m.counter ++ encodeItems hd.sizeCode hd.items) ++ r =
        silent (Bits.ofNat 3 (size hd.sizeCode i)) ++
          (silent (sizeBits hd (m.counter + 1) ++ encodeItems hd.sizeCode hd.items) ++ r) := by
      rw [sizeBits_cons hlt hi, List.append_assoc, Deflate.silent_append, List.append_assoc]
    rw [hsplit] at h hexp ⊢
    refine getBits_good hok h (hexp m rfl rfl rfl rfl rfl rfl rfl) (quiet_silent _) rfl
      (fun b input _ => hexp _ rfl rfl rfl rfl rfl rfl rfl) fun w hn hsync => ?_
    rw [Deflate.output_silent] at hsync
    rw [Deflate.bits_silent, Bits.toNat_ofNat, Nat.mod_eq_of_lt (size_lt_eight hin.valid i)]
    have hget : s_length_dezigzag[m.counter]? = some i := hi
    dsimp only
    rw [hget, Next.access_some, store_lt (by omega : i < 288), Next.access_some]
    refine ⟨hist, _, [], hsync.frame rfl rfl rfl rfl rfl rfl, .codeSizes hstate hlt hsizes (fun j hj => ?_) (hin.congr rfl rfl rfl),
      cost_silent (by simp) ?_⟩
    · simp only [Core.sizeTable, Vector.getElem_set_self]
      rw [Vector.getElem_setIfInBounds, hcodes j hj, eq_comm]
      by_cases hij : i = j
      · rw [if_pos hij, if_pos ((mem_take_succ hi).2 (.inr hij.symm)), hij]
      · rw [if_neg hij]
        exact if_congr ((mem_take_succ hi).trans (or_iff_left (Ne.symm hij))) rfl rfl
    · show m.numBits ≤ m.numBits - 3 + 3
      omega
  · rw [if_neg hlt]
    rw [hsize2] at hlt
    have hall : m.counter = hd.sent := Nat.le_antisymm hcount (Nat.le_of_not_lt hlt)
    have hr : sizeBits hd m.counter = [] := by
      rw [sizeBits, hall, List.drop_eq_nil_of_le (by rw [List.length_take]; exact Nat.min_le_left _ _)]
      rfl
    rw [hr, List.nil_append] at h ⊢
    rw [hall] at hcodes
    refine ⟨hist, _, [], h.frame rfl rfl rfl rfl rfl rfl, .buildSizes rfl (hin.congr rfl rfl rfl) ?_
      (sizeCode_eq hin.valid hcodes), cost_rank rfl ?_⟩
    · rw [Vector.toList_set, hsizes]
      rfl
    · rw [hrank]
      show min 12 (3 + 3 * ((m.type + 1) % 2 ^ 32)) < 14
      omega

/-! ## The sizes of the two codes -/

variable {sizes : List Nat} {item : SizeItem} {items : List SizeItem}

theorem expandItems_starts (sizes : List Nat) (items : List SizeItem) : sizes <+: expandItems sizes items := by
  induction items generalizing sizes with
  | nil => exact List.prefix_refl sizes
  | cons item items ih => exact (List.prefix_append _ _).trans (ih _)

theorem expand_pos (item : SizeItem) (sizes : List Nat) : 0 < (item.expand sizes).length := by
  cases item <;> simp [SizeItem.expand]

theorem InSizes.congr (h : InSizes zl pad sum d hist hd sizes items r) (htype : d'.type = d.type)
    (hsizes : d'.tableSizes = d.tableSizes) (htables : d'.tables = d.tables) (hcount : d'.counter = d.counter)
    (hcodes : d'.lenCodes = d.lenCodes) (hz : d'.zAdler32 = d.zAdler32) (hfinal : d'.final = d.final) :
    InSizes zl pad sum d' hist hd sizes items r :=
  ⟨h.header.congr htype hz hfinal, by rw [Core.litSize, hsizes]; exact h.size0,
    by rw [Core.distSize, hsizes]; exact h.size1, by rw [Core.sizeTable, htables]; exact h.built,
    h.valid, h.expand, hcount.trans h.counter, by rw [hcodes]; exact h.codes⟩

/-- The sizes of an item are written behind those that were read. -/
theorem InSizes.next (h : InSizes zl pad sum d hist hd sizes (item :: items) r) (htype : d'.type = d.type)
    (hsizes : d'.tableSizes = d.tableSizes) (htables : d'.tables = d.tables)
    (hcount : d'.counter = sizes.length + (item.expand sizes).length)
    (hcodes : d'.lenCodes.toList.take (sizes.length + (item.expand sizes).length) = sizes ++ item.expand sizes)
    (hz : d'.zAdler32 = d.zAdler32) (hfinal : d'.final = d.final) :
    InSizes zl pad sum d' hist hd (sizes ++ item.expand sizes) items r :=
  ⟨h.header.congr htype hz hfinal, by rw [Core.litSize, hsizes]; exact h.size0,
    by rw [Core.distSize, hsizes]; exact h.size1, by rw [Core.sizeTable, htables]; exact h.built,
    h.valid.2, h.expand, by rw [hcount, List.length_append], by rw [List.length_append]; exact hcodes⟩

/-- They are no more than the two codes have. -/
theorem InSizes.room (h : InSizes zl pad sum m hist hd sizes (item :: items) r) :
    sizes.length + (item.expand sizes).length ≤ m.litSize + m.distSize := by
  have hle := (expandItems_starts (sizes ++ item.expand sizes) items).length_le
  have hexpand : expandItems (sizes ++ item.expand sizes) items = hd.codes.lit ++ hd.codes.dist := h.expand
  rw [hexpand, List.length_append, List.length_append] at hle
  rwa [h.size0, h.size1]

theorem InSizes.size_le (h : InSizes zl pad sum m hist hd sizes items r) : m.litSize + m.distSize ≤ 320 := by
  have hlit := h.header.valid.lit
  have hdist := h.header.valid.dist
  rw [h.size0, h.size1]
  omega

/-- A repetition: how many bits follow its symbol, what they are and what it stands for -/
theorem repetition (hv : item.Valid sizes) (hge : 16 ≤ item.symbol) :
    [2, 3, 7][item.symbol - 16]? = some item.extra.length ∧ ∃ k base, item.extra = Bits.ofNat item.extra.length k ∧
      k < 2 ^ item.extra.length ∧ [3, 3, 11][item.symbol - 16]? = some base ∧
        item.expand sizes = List.replicate (k + base) (if item.symbol = 16 then sizes.getLastD 0 else 0) := by
  have hlen : ∀ n k : Nat, k < 2 ^ n → k < 2 ^ (Bits.ofNat n k).length := fun n k hk => by rwa [Bits.length_ofNat]
  cases item with
  | size l => exact absurd hge (Nat.not_le.2 hv)
  | again k => exact ⟨rfl, k, 3, rfl, hlen 2 k hv.1, rfl, congrArg (List.replicate · _) (Nat.add_comm 3 k)⟩
  | zeros k => exact ⟨rfl, k, 3, rfl, hlen 3 k hv, rfl, congrArg (List.replicate · _) (Nat.add_comm 3 k)⟩
  | manyZeros k => exact ⟨rfl, k, 11, rfl, hlen 7 k hv, rfl, congrArg (List.replicate · _) (Nat.add_comm 11 k)⟩

/-- The marks of an item and of those behind it -/
theorem encodeItems_cons (code : List Nat) (item : SizeItem) (items : List SizeItem) (r : List Mark) :
    silent (encodeItems code (item :: items)) ++ r =
      silent (word code item.symbol) ++ (silent (item.extra ++ encodeItems code items) ++ r) := by
  rw [encodeItems, List.flatMap_cons, List.append_assoc, Deflate.silent_append, List.append_assoc]
  rfl

/-- What follows a symbol of the code for sizes. -/
theorem lenSymbol_decoded (hin : InSizes zl pad sum m hist hd sizes (item :: items) r) :
    Decoded (Expect zl pad sum c.window) c
      (cost c m (silent (word hd.sizeCode item.symbol) ++ (silent (item.extra ++ encodeItems hd.sizeCode items) ++ r)) []) m
      lenSymbol item.symbol (silent (word hd.sizeCode item.symbol)) hist
      (silent (item.extra ++ encodeItems hd.sizeCode items) ++ r) := by
  intro input n v hn hsync
  have hword : 0 < (word hd.sizeCode item.symbol).length := by
    rw [Canonical.length_word]
    exact Nat.pos_of_ne_zero hin.valid.1.1
  have hroom := hin.room
  have hle := hin.size_le
  have hpos := expand_pos item sizes
  have hcount := hin.counter
  rw [Deflate.output_silent] at hsync
  rw [Deflate.length_silent] at hn
  unfold lenSymbol
  dsimp only
  by_cases hlt : item.symbol < 16
  · -- a size of its own
    obtain ⟨l, rfl⟩ : ∃ l, item = .size l := by
      cases item with
      | size l => exact ⟨l, rfl⟩
      | again | zeros | manyZeros => simp [SizeItem.symbol] at hlt
    rw [if_pos hlt, store_lt (by omega), Next.access_some]
    refine ⟨hist, _, [], hsync.frame rfl rfl rfl rfl rfl rfl, .lenCode rfl (hin.next rfl rfl rfl ?_ ?_ rfl rfl), cost_silent hword hn⟩
    · exact congrArg (· + 1) hcount
    · show (m.lenCodes.setIfInBounds m.counter l).toList.take (sizes.length + 1) = sizes ++ [l]
      have htake : _ = (sizes ++ [l]).take _ := take_setIfInBounds (show sizes.length < 457 by omega)
        (by rw [List.take_left]; exact hin.codes) List.getElem?_concat_length
      rw [List.take_of_length_le (show (sizes ++ [l]).length ≤ sizes.length + 1 by simp), ← hcount] at htake
      rwa [← hcount]
  · -- a repetition, its count still to come
    have hge : 16 ≤ item.symbol := Nat.le_of_not_lt hlt
    have hfirst : ¬ (item.symbol = 16 ∧ m.counter = 0) := by
      rintro ⟨h16, h0⟩
      cases item with
      | again k => exact hin.valid.1.2.2 (List.length_eq_zero_iff.1 (hcount.symm.trans h0))
      | size l => exact absurd (hin.valid.1.2) (Nat.not_lt.2 hge)
      | zeros | manyZeros => simp [SizeItem.symbol] at h16
    rw [if_neg hlt, if_neg hfirst, (repetition hin.valid.1.2 hge).1, Next.access_some]
    exact ⟨hist, _, [], hsync.frame rfl rfl rfl rfl rfl rfl,
      .lenRepeat rfl (hin.congr rfl rfl rfl rfl rfl rfl rfl) rfl hge rfl, cost_silent hword hn⟩

/-- The code sizes that were read are the sizes of the two codes. -/
theorem splitLenCodes_sizes (hin : InSizes zl pad sum m hist hd sizes [] r) :
    (splitLenCodes m).litTable.codeSize.toList.take (splitLenCodes m).litSize = hd.codes.lit ∧
      (splitLenCodes m).distTable.codeSize.toList.take (splitLenCodes m).distSize = hd.codes.dist := by
  have hlit := hin.header.valid.lit
  have hdist := hin.header.valid.dist
  obtain rfl : sizes = hd.codes.lit ++ hd.codes.dist := hin.expand
  have hget : ∀ i, ∀ hi : i < (hd.codes.lit ++ hd.codes.dist).length,
      m.lenCodes.toList.getD i 0 = (hd.codes.lit ++ hd.codes.dist)[i] := by
    intro i hi
    have := congrArg (·[i]?) hin.codes
    rw [List.getD_eq_getElem?_getD, ← List.getElem?_take_of_lt hi, this, List.getElem?_eq_getElem hi]
    rfl
  constructor
  · have hsize : (splitLenCodes m).litSize = hd.codes.lit.length := hin.size0
    have hcodes : (splitLenCodes m).litTable.codeSize = Vector.ofFn fun i : Fin 288 =>
        if i.val < m.litSize then m.lenCodes.toList.getD i.val 0 else m.litTable.codeSize[i] := by
      unfold Core.litTable splitLenCodes
      rw [Vector.getElem_set_ne _ _ (by decide), Vector.getElem_set_self]
    rw [hsize, hcodes]
    refine take_toList_ofFn _ _ hlit.2 rfl fun i hi => ?_
    rw [if_pos (by rwa [hin.size0]), hget i (by rw [List.length_append]; omega), List.getElem_append_left hi]
  · have hsize : (splitLenCodes m).distSize = hd.codes.dist.length := hin.size1
    have hcodes : (splitLenCodes m).distTable.codeSize = Vector.ofFn fun i : Fin 288 =>
        if i.val < m.distSize then m.lenCodes.toList.getD (m.litSize + i.val) 0 else m.distTable.codeSize[i] := by
      unfold Core.distTable splitLenCodes
      rw [Vector.getElem_set_self]
    rw [hsize, hcodes]
    refine take_toList_ofFn _ _ (hdist.2.trans (by decide)) rfl fun i hi => ?_
    show (if i < m.distSize then m.lenCodes.toList.getD (m.litSize + i) 0 else m.distTable.codeSize[i]) = _
    rw [if_pos (by rwa [hin.size1]), hin.size0, hget _ (by rw [List.length_append]; exact Nat.add_lt_add_left hi _),
      List.getElem_append_right (Nat.le_add_right _ _)]
    congr 1
    exact Nat.add_sub_cancel_left _ _

theorem stepLenCode_good (h : Sync c m hist (silent (encodeItems hd.sizeCode items) ++ r) []) (hstate : m.state = .lenCode)
    (hin : InSizes zl pad sum m hist hd sizes items r) :
    Good (Expect zl pad sum c.window) c (cost c m (silent (encodeItems hd.sizeCode items) ++ r) []) (stepLenCode m) := by
  have hrank : m.rank c.env = 10 := by rw [Machine.rank, hstate]
  unfold stepLenCode
  cases items with
  | nil =>
    have hvalid := hin.header.valid
    have hall : m.counter = m.litSize + m.distSize := by
      have hexpand : sizes = hd.codes.lit ++ hd.codes.dist := hin.expand
      rw [hin.counter, hexpand, List.length_append, hin.size0, hin.size1]
    obtain ⟨hlit, hdist⟩ := splitLenCodes_sizes hin
    rw [if_neg (Nat.not_lt.2 hall.ge), if_neg (not_not.2 hall.symm)]
    refine ⟨hist, r, [], h.frame rfl rfl rfl rfl rfl rfl, .buildDist rfl ?_ hlit hdist (lit_accepted hvalid) (dist_accepted hvalid)
      (hin.header.tokens.congr rfl rfl), cost_rank rfl ?_⟩
    · show (m.type + (2 ^ 32 - 1)) % 2 ^ 32 = 1
      rw [hin.header.type]
      rfl
    · rw [hrank]
      show min 12 (3 + 3 * (((m.type + (2 ^ 32 - 1)) % 2 ^ 32 + 1) % 2 ^ 32)) < 10
      rw [hin.header.type]
      decide
  | cons item items =>
    have hroom := hin.room
    have hpos := expand_pos item sizes
    have hlt : m.counter < m.litSize + m.distSize := by
      have := hin.counter
      omega
    rw [if_pos hlt]
    have hdecoded := lenSymbol_decoded (c := c) hin
    rw [← encodeItems_cons] at hdecoded
    have h' := h
    rw [encodeItems_cons] at h'
    refine huffHead_good h' hin.built hin.valid.1.1 (Deflate.bits_silent _) hdecoded fun hfew => ?_
    exact ⟨hist, _, [], h.frame rfl rfl rfl rfl rfl rfl, .lenFill rfl (hin.congr rfl rfl rfl rfl rfl rfl rfl) hfew,
      cost_rank rfl (by rw [hrank]; exact Nat.lt_of_sub_eq_succ rfl)⟩

theorem lenFill_good (hok : c.Ok) (h : Sync c m hist (silent (encodeItems hd.sizeCode (item :: items)) ++ r) [])
    (hstate : m.state = .lenFill) (hin : InSizes zl pad sum m hist hd sizes (item :: items) r)
    (hlt : m.numBits < size hd.sizeCode item.symbol) :
    Good (Expect zl pad sum c.window) c (cost c m (silent (encodeItems hd.sizeCode (item :: items)) ++ r) [])
      (huffByte c.env m.sizeTable .lenFill m lenSymbol) := by
  have hi : ∀ n v, n < size hd.sizeCode item.symbol → Expect zl pad sum c.window { m.toCore with numBits := n, bitBuf := v }
      hist (silent (encodeItems hd.sizeCode (item :: items)) ++ r) [] :=
    fun n v hn => .lenFill hstate (hin.congr rfl rfl rfl rfl rfl rfl rfl) hn
  have hnow := hi m.numBits m.bitBuf hlt
  rw [encodeItems_cons] at h hi hnow ⊢
  rw [← hstate]
  exact huffByte_good hok h hnow (quiet_silent _) hin.built hin.valid.1.1 (Deflate.bits_silent _) hlt
    (lenSymbol_decoded hin) hi

/-- `TINFL_MEMSET` behind what is written already -/
theorem memset_behind {n x k : Nat} {xs : Vector Nat n} (hroom : sizes.length + k ≤ n)
    (h : xs.toList.take sizes.length = sizes) :
    ∃ ys, memset xs sizes.length x k = some ys ∧ ys.toList.take (sizes.length + k) = sizes ++ List.replicate k x := by
  refine ⟨_, if_pos hroom, take_toList_ofFn _ _ hroom (by rw [List.length_append, List.length_replicate]) fun i hi => ?_⟩
  by_cases hlt : i < sizes.length
  · have hget : xs[i] = sizes[i] := by
      have := congrArg (·[i]?) h
      rw [List.getElem?_take_of_lt hlt, Vector.getElem?_toList, Vector.getElem?_eq_getElem (by omega),
        List.getElem?_eq_getElem hlt, Option.some_inj] at this
      exact this
    rw [if_neg (fun hge => Nat.not_le.2 hlt hge.1), List.getElem_append_left hlt]
    exact hget
  · rw [if_pos ⟨Nat.le_of_not_lt hlt, hi⟩, List.getElem_append_right (Nat.le_of_not_lt hlt), List.getElem_replicate]

theorem stepLenRepeat_good (hok : c.Ok) (h : Sync c m hist (silent (item.extra ++ encodeItems hd.sizeCode items) ++ r) [])
    (hstate : m.state = .lenRepeat) (hin : InSizes zl pad sum m hist hd sizes (item :: items) r) (hdist : m.dist = item.symbol)
    (hge : 16 ≤ item.symbol) (hextra : m.numExtra = item.extra.length) :
    Good (Expect zl pad sum c.window) c (cost c m (silent (item.extra ++ encodeItems hd.sizeCode items) ++ r) []) (stepLenRepeat c.env m) := by
  obtain ⟨-, k, base, hbits, hk, hbase, hexpand⟩ := repetition hin.valid.1.2 hge
  have hi : ∀ m' : Machine, m'.state = m.state → m'.dist = m.dist → m'.numExtra = m.numExtra → m'.type = m.type →
      m'.tableSizes = m.tableSizes → m'.tables = m.tables → m'.counter = m.counter → m'.lenCodes = m.lenCodes →
        m'.zAdler32 = m.zAdler32 → m'.final = m.final →
          Expect zl pad sum c.window m' hist (silent (item.extra ++ encodeItems hd.sizeCode items) ++ r) [] :=
    fun m' hstate' hdist' hextra' htype hsizes htables hcount hcodes hz hfinal =>
      .lenRepeat (hstate'.trans hstate) (hin.congr htype hsizes htables hcount hcodes hz hfinal) (hdist'.trans hdist) hge
        (hextra'.trans hextra)
  have hroom := hin.room
  have hle := hin.size_le
  have hcount := hin.counter
  unfold stepLenRepeat
  rw [Deflate.silent_append, List.append_assoc] at h hi ⊢
  have hlong : 0 < item.extra.length := by
    cases item with
    | size l => exact absurd (hin.valid.1.2) (Nat.not_lt.2 hge)
    | again | zeros | manyZeros => simp [SizeItem.extra]
  refine getBits_good hok h (hi m rfl rfl rfl rfl rfl rfl rfl rfl rfl rfl) (quiet_silent _)
    (by rw [Deflate.length_silent, hextra]) (fun b input _ => hi _ rfl rfl rfl rfl rfl rfl rfl rfl rfl rfl) fun v hn hsync => ?_
  rw [Deflate.output_silent] at hsync
  have hval : Bits.toNat (bits (silent item.extra)) = k := by
    rw [Deflate.bits_silent, hbits, Bits.toNat_ofNat, Nat.mod_eq_of_lt hk]
  rw [hval]
  dsimp only
  rw [hdist, hbase, Next.access_some]
  have hlast : (if item.symbol = 16 then m.lenCodes[m.counter - 1]? else some 0) =
      some (if item.symbol = 16 then sizes.getLastD 0 else 0) := by
    by_cases h16 : item.symbol = 16
    · rw [if_pos h16, if_pos h16]
      have hne : sizes ≠ [] := by
        cases item with
        | again k => exact hin.valid.1.2.2
        | size l => exact absurd (hin.valid.1.2) (Nat.not_lt.2 hge)
        | zeros | manyZeros => simp [SizeItem.symbol] at h16
      have hlen : 0 < sizes.length := List.length_pos_iff.2 hne
      have := congrArg (·[sizes.length - 1]?) hin.codes
      rw [List.getElem?_take_of_lt (by omega), Vector.getElem?_toList] at this
      rw [hcount, this, ← List.getLast?_eq_getElem?, List.getLast?_eq_some_getLast hne, List.getLastD_eq_getLast?,
        List.getLast?_eq_some_getLast hne]
      rfl
    · rw [if_neg h16, if_neg h16]
  rw [hlast, Next.access_some]
  rw [hexpand, List.length_replicate] at hroom
  obtain ⟨codes, hset, hcodes⟩ := memset_behind (n := 457) (x := if item.symbol = 16 then sizes.getLastD 0 else 0)
    (k := k + base) (by omega) hin.codes
  rw [hcount, hset, Next.access_some]
  refine ⟨hist, _, [], hsync.frame rfl rfl rfl rfl rfl rfl, .lenCode rfl (hin.next rfl rfl rfl ?_ ?_ rfl rfl), cost_silent hlong ?_⟩
  · rw [hexpand, List.length_replicate]
  · rw [hexpand, List.length_replicate]
    exact hcodes
  · show m.numBits ≤ m.numBits - m.numExtra + item.extra.length
    omega

/-! ## The tables -/

/-- A turn of the loop over `m_type` -/
theorem stepBuild_eq {t : Nat} (ht : t < 3) (htype : m.type = t) (hcodes : m.tables[t].codeSize.toList.take m.tableSizes[t] = sizes)
    (ha : Accepted sizes) :
    ∃ table type, Built sizes table ∧ type = (t + (2 ^ 32 - 1)) % 2 ^ 32 ∧ stepBuild m =
      if t = 2 then .go { m with tables := m.tables.setIfInBounds t table, counter := 0, state := .lenCode }
      else .go { m with tables := m.tables.setIfInBounds t table, type := type } := by
  obtain ⟨b, hb, hbuilt⟩ := buildTable_built ha
  have hrefused : refused sizes = false := refused_iff.2 ha.full
  subst htype
  refine ⟨⟨m.tables[m.type].codeSize, b.lookUp, b.tree⟩, _, hbuilt _, rfl, ?_⟩
  unfold stepBuild
  rw [if_pos (by omega), Vector.getElem?_eq_getElem ht, Next.access_some, Vector.getElem?_eq_getElem ht, Next.access_some, hcodes]
  dsimp only
  rw [hrefused, if_neg Bool.false_ne_true, hb, Next.access_some]

theorem rank_build (hstate : m.state = .build) : m.rank c.env = min 12 (3 + 3 * ((m.type + 1) % 2 ^ 32)) := by
  rw [Machine.rank, hstate]

/-- `r->m_type--` -/
theorem cost_turn {pending : List UInt8} (hstate : m.state = .build) (hstate' : m'.state = .build)
    (hbits : m'.numBits = m.numBits) {t : Nat} (ht : t < 2) (htype : m.type = t) (htype' : m'.type = (t + (2 ^ 32 - 1)) % 2 ^ 32) :
    cost c m' r pending < cost c m r pending := by
  refine cost_rank hbits ?_
  rw [rank_build hstate, rank_build hstate', htype, htype']
  omega

theorem stepBuild_good (h : Sync c m hist r []) (hstate : m.state = .build) (htype : m.type = 2 ^ 32 - 1)
    (hin : InTokens zl pad sum m hist r) : Good (Expect zl pad sum c.window) c (cost c m r []) (stepBuild m) := by
  unfold stepBuild
  rw [if_neg (by omega)]
  refine ⟨hist, r, [], h.frame rfl rfl rfl rfl rfl rfl, .symbol rfl ?_, cost_rank rfl ?_⟩
  · obtain ⟨cs, hb, ht⟩ := hin
    exact ⟨cs, ⟨hb.lit, hb.dist⟩, ht.congr rfl rfl⟩
  · rw [rank_build hstate, htype]
    show 2 < min 12 (3 + 3 * ((2 ^ 32 - 1 + 1) % 2 ^ 32))
    omega

/-- The last table built is that of the literals. -/
theorem buildLit_good (h : Sync c m hist r []) (hstate : m.state = .build) (htype : m.type = 0)
    (hlit : m.litTable.codeSize.toList.take m.litSize = cs.lit) (hdist : Built cs.dist m.distTable)
    (hl : Accepted cs.lit) (ht : Tokens zl pad sum m cs hist r) :
    Good (Expect zl pad sum c.window) c (cost c m r []) (stepBuild m) := by
  obtain ⟨table, type, hbuilt, htype', hstep⟩ := stepBuild_eq (by decide : 0 < 3) htype hlit hl
  rw [hstep, if_neg (by decide)]
  refine ⟨hist, r, [], h.frame rfl rfl rfl rfl rfl rfl, .buildDone hstate (htype'.trans (by omega)) ⟨cs, ⟨?_, ?_⟩, ht.congr rfl rfl⟩,
    cost_turn hstate hstate rfl (by decide) htype htype'⟩
  · show Built cs.lit (m.tables.setIfInBounds 0 table)[0]
    rwa [Vector.getElem_setIfInBounds_self]
  · show Built cs.dist (m.tables.setIfInBounds 0 table)[1]
    rwa [Vector.getElem_setIfInBounds_ne _ (by decide)]

theorem buildDist_good (h : Sync c m hist r []) (hstate : m.state = .build) (htype : m.type = 1)
    (hlit : m.litTable.codeSize.toList.take m.litSize = cs.lit)
    (hdist : m.distTable.codeSize.toList.take m.distSize = cs.dist) (hl : Accepted cs.lit) (hd : Accepted cs.dist)
    (ht : Tokens zl pad sum m cs hist r) :
    Good (Expect zl pad sum c.window) c (cost c m r []) (stepBuild m) := by
  obtain ⟨table, type, hbuilt, htype', hstep⟩ := stepBuild_eq (by decide : 1 < 3) htype hdist hd
  rw [hstep, if_neg (by decide)]
  refine ⟨hist, r, [], h.frame rfl rfl rfl rfl rfl rfl, .buildLit hstate (htype'.trans (by omega)) ?_ ?_ hl (ht.congr rfl rfl),
    cost_turn hstate hstate rfl (by decide) htype htype'⟩
  · show (m.tables.setIfInBounds 1 table)[0].codeSize.toList.take m.litSize = cs.lit
    rwa [Vector.getElem_setIfInBounds_ne _ (by decide)]
  · show Built cs.dist (m.tables.setIfInBounds 1 table)[1]
    rwa [Vector.getElem_setIfInBounds_self]

theorem buildSizes_good (h : Sync c m hist (silent (encodeItems hd.sizeCode hd.items) ++ r) []) (hstate : m.state = .build)
    (hin : InHeader zl pad sum m hist hd r) (hsizes : m.tableSizes.toList = [hd.codes.lit.length, hd.codes.dist.length, 19])
    (hcodes : m.sizeTable.codeSize.toList.take 19 = hd.sizeCode) :
    Good (Expect zl pad sum c.window) c (cost c m (silent (encodeItems hd.sizeCode hd.items) ++ r) []) (stepBuild m) := by
  have hget : ∀ i, ∀ hi : i < 3, m.tableSizes[i] = [hd.codes.lit.length, hd.codes.dist.length, 19][i] := by
    intro i hi
    have := congrArg (·[i]?) hsizes
    rw [Vector.getElem?_toList, Vector.getElem?_eq_getElem hi, List.getElem?_eq_getElem hi, Option.some_inj] at this
    exact this
  obtain ⟨table, type, hbuilt, htype', hstep⟩ := stepBuild_eq (by decide : 2 < 3) hin.type (by rw [hget 2 (by decide)]; exact hcodes)
    (sizeCode_accepted hin.valid)
  rw [hstep, if_pos rfl]
  refine ⟨hist, _, [], h.frame rfl rfl rfl rfl rfl rfl, .lenCode rfl ⟨hin.congr rfl rfl rfl, hget 0 (by decide), hget 1 (by decide), ?_,
    hin.valid.items, hin.valid.expand, rfl, rfl⟩, cost_rank rfl ?_⟩
  · show Built hd.sizeCode (m.tables.setIfInBounds 2 table)[2]
    rwa [Vector.getElem_setIfInBounds_self]
  · rw [rank_build hstate, hin.type]
    show 10 < min 12 (3 + 3 * ((2 + 1) % 2 ^ 32))
    omega

end Keynjector.Inflate
