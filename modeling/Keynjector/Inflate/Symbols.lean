import Keynjector.Inflate.Sizes
/-
# The symbols of a block (tinfl.c:263-311)

Near the end of the input or of the output one symbol is decoded at a time, with the bits
that it takes; elsewhere two at once, from a bit buffer that holds both.
-/

namespace Keynjector.Inflate

open Deflate (Mark bits output silent emit Token Codes encodeTokens tokensData ValidTokens copied distBase distExtra lengthBase)
open Canonical (word size)

variable {zl : Bool} {pad : Nat} {sum : Vector UInt8 4} {c : Call} {m : Machine} {d d' : Core} {hist : List UInt8} {r y : List Mark} {cs : Codes} {s : Nat}

/-! ## The symbol in front -/

theorem lengthBase_ge (n : Nat) : 3 ≤ lengthBase n := by
  unfold lengthBase
  split_ifs <;> omega

theorem tokens_first {ts : List Token} {tail : List Mark} (hv : ValidTokens cs hist ts)
    (h : AfterBlock zl pad sum m (hist ++ tokensData hist ts) tail) :
    ∃ s y r, encodeTokens cs hist ts ++ tail = y ++ r ∧ size cs.lit s ≠ 0 ∧ AtSymbol zl pad sum m cs hist s y r := by
  cases ts with
  | nil => exact ⟨256, _, tail, rfl, hv, .other (.ends (List.append_nil hist ▸ h))⟩
  | cons t ts =>
    obtain ⟨ht, hts⟩ := hv
    rw [tokensData, ← List.append_assoc] at h
    cases t with
    | literal b => exact ⟨b.toNat, _, encodeTokens cs (hist ++ [b]) ts ++ tail, List.append_assoc .., ht,
        .literal ⟨ts, tail, rfl, hts, h⟩⟩
    | copy n ex d dx =>
      obtain ⟨⟨hn, hex, hlit⟩, hd, hdx, hdist, hback⟩ := ht
      refine ⟨257 + n, _, _, ?_, hlit, .other (.copy hn hex ⟨Nat.le_add_right_of_le (lengthBase_ge n), hd, hdx, hdist, hback⟩
        ⟨ts, tail, rfl, hts, h⟩)⟩
      rw [encodeTokens, Token.encode, Deflate.silent_append]
      simp only [List.append_assoc]
      rfl

theorem AtSymbol.bits (h : AtSymbol zl pad sum d cs hist s y r) : bits y = word cs.lit s := by
  cases h with
  | literal => exact Deflate.bits_emit _ _
  | other => exact Deflate.bits_silent _

theorem AtSymbol.quiet (h : AtSymbol zl pad sum d cs hist s y r) : Quiet y := by
  cases h with
  | literal => exact quiet_emit _ _
  | other => exact quiet_silent _

theorem AfterSymbol.congr (h : AfterSymbol zl pad sum d cs hist s r) (hz : d'.zAdler32 = d.zAdler32) (hfinal : d'.final = d.final) :
    AfterSymbol zl pad sum d' cs hist s r := by
  cases h with
  | ends h => exact .ends ⟨hz ▸ h.1, hfinal ▸ h.2⟩
  | copy hn hex hcopy h => exact .copy hn hex hcopy (h.congr hz hfinal)

theorem AtSymbol.congr (h : AtSymbol zl pad sum d cs hist s y r) (hz : d'.zAdler32 = d.zAdler32) (hfinal : d'.final = d.final) :
    AtSymbol zl pad sum d' cs hist s y r := by
  cases h with
  | literal h => exact .literal (h.congr hz hfinal)
  | other h => exact .other (h.congr hz hfinal)

theorem AfterSymbol.ge (h : AfterSymbol zl pad sum d cs hist s r) : 256 ≤ s := by
  cases h with
  | ends => exact Nat.le_refl _
  | copy => omega

/-! ## Behind the loop over literals -/

theorem s_length_extra_eq {n : Nat} (hn : n < 29) : s_length_extra[n]? = some (Deflate.lengthExtra n) := by
  have hall : ∀ n < 29, s_length_extra[n]? = some (Deflate.lengthExtra n) := by decide
  exact hall n hn

theorem s_length_base_eq {n : Nat} (hn : n < 29) : s_length_base[n]? = some (lengthBase n) := by
  have hall : ∀ n < 29, s_length_base[n]? = some (lengthBase n) := by decide
  exact hall n hn

theorem and_511 (n : Nat) : n &&& 511 = n % 512 := Nat.and_two_pow_sub_one_eq_mod n 9

theorem afterLiterals_good (hok : c.Ok) (hz : c.env.parseZlibHeader = zl) (h : Sync c m hist r []) (hb : BuiltCodes m cs)
    (hcount : m.counter % 512 = s) (hafter : AfterSymbol zl pad sum m cs hist s r) {w : Nat}
    (hw : 32 * (r.length + (r.length + 24 - m.numBits) + (output r).length) + 2 < w) :
    Good (Expect zl pad sum c.window) c w (afterLiterals c.env m) := by
  unfold afterLiterals
  rw [and_511, hcount]
  dsimp only
  cases hafter with
  | ends hafter =>
    rw [if_pos rfl]
    have hframe : Sync c { m with counter := 256 } hist r [] := h.frame rfl rfl rfl rfl rfl rfl
    exact endBlock_holds hok hz hframe hafter hw
  | @copy n ex d dx r' hn hex hcopy ht =>
    rw [if_neg (by omega), show 257 + n - 257 = n from Nat.add_sub_cancel_left 257 n, s_length_extra_eq hn, Next.access_some,
      s_length_base_eq hn, Next.access_some]
    by_cases hextra : Deflate.lengthExtra n = 0
    · rw [if_neg (not_not.2 hextra)]
      have hzero : ex = 0 := by
        rw [hextra] at hex
        exact Nat.lt_one_iff.1 hex
      have hr : silent (Bits.ofNat (Deflate.lengthExtra n) ex) = [] := by
        rw [hextra]
        rfl
      subst hzero
      rw [hr] at h hw
      refine ⟨hist, _, [], h.frame rfl rfl rfl rfl rfl rfl, .distance rfl ⟨hb.lit, hb.dist⟩ hcopy (ht.congr rfl rfl), ?_⟩
      unfold cost
      rw [List.length_nil, Nat.zero_add]
      exact hw
    · rw [if_pos hextra]
      refine ⟨hist, _, [], h.frame rfl rfl rfl rfl rfl rfl, .lengthExtra rfl ⟨hb.lit, hb.dist⟩ rfl hextra rfl hex hcopy
        (ht.congr rfl rfl), ?_⟩
      unfold cost
      rw [List.length_nil, Nat.zero_add]
      exact Nat.lt_of_succ_lt hw

/-! ## One symbol -/

theorem literal_decoded (hok : c.Ok) (hz : c.env.parseZlibHeader = zl) (hb : BuiltCodes m cs) (hs : size cs.lit s ≠ 0)
    (hat : AtSymbol zl pad sum m cs hist s y r) :
    Decoded (Expect zl pad sum c.window) c (cost c m (y ++ r) []) m (literal c.env) s y hist r := by
  intro input n v hn hsync
  have hy : 0 < y.length := by
    rw [← Deflate.length_bits, hat.bits, Canonical.length_word]
    exact Nat.pos_of_ne_zero hs
  have h288 := hb.lit.symbol_lt hs
  have hmod : s % 512 = s := Nat.mod_eq_of_lt (by omega)
  unfold literal
  dsimp only
  cases hat with
  | @literal b _ ht =>
    have hout : output (emit (word cs.lit b.toNat) [b]) = [b] :=
      Deflate.output_emit (List.ne_nil_of_length_pos (by rwa [← Deflate.length_emit])) [b]
    rw [if_neg (Nat.not_le.2 b.toNat_lt)]
    rw [hout] at hsync
    refine ⟨hist, r, [UInt8.ofNat b.toNat], ?_, .symbolPut rfl ⟨cs, ⟨hb.lit, hb.dist⟩, ?_⟩, cost_marks hy hn ?_⟩
    · rw [UInt8.ofNat_toNat]
      exact hsync.frame rfl rfl rfl rfl rfl rfl
    · show Tokens zl pad sum _ cs (hist ++ [UInt8.ofNat b.toNat]) r
      rw [UInt8.ofNat_toNat]
      exact ht.congr rfl rfl
    · rw [hout]
      rfl
  | other hafter =>
    rw [if_pos hafter.ge]
    rw [Deflate.output_silent] at hsync
    have hnow : Sync c { m with input := input, numBits := n, bitBuf := v, counter := s } hist r [] :=
      hsync.frame rfl rfl rfl rfl rfl rfl
    refine afterLiterals_good hok hz hnow ⟨hb.lit, hb.dist⟩ hmod (hafter.congr rfl rfl) ?_
    have hrank := m.rank_lt c.env
    unfold cost
    rw [List.length_append, Deflate.output_append, Deflate.output_silent, List.nil_append, List.length_nil]
    dsimp only
    omega

theorem symbolPut_good (hok : c.Ok) (h : Sync c m hist r [UInt8.ofNat m.counter]) (hstate : m.state = .symbolPut)
    (hin : InTokens zl pad sum m (hist ++ [UInt8.ofNat m.counter]) r) :
    Good (Expect zl pad sum c.window) c (cost c m r [UInt8.ofNat m.counter]) (stepSymbolPut c.env m) := by
  refine putByte_good hok h (.symbolPut hstate hin) fun hsync => ?_
  obtain ⟨cs, hb, ht⟩ := hin
  exact ⟨_, r, [], hsync.frame rfl rfl rfl rfl rfl rfl, .symbol rfl ⟨cs, ⟨hb.lit, hb.dist⟩, ht.congr rfl rfl⟩,
    cost_put rfl (Nat.succ_pos 0)⟩

theorem symbolFill_good (hok : c.Ok) (hz : c.env.parseZlibHeader = zl) (h : Sync c m hist (y ++ r) [])
    (hstate : m.state = .symbolFill) (hb : BuiltCodes m cs) (hs : size cs.lit s ≠ 0) (hat : AtSymbol zl pad sum m cs hist s y r)
    (hlt : m.numBits < size cs.lit s) :
    Good (Expect zl pad sum c.window) c (cost c m (y ++ r) []) (huffByte c.env m.litTable .symbolFill m (literal c.env)) := by
  have hi : ∀ n v, n < size cs.lit s →
      Expect zl pad sum c.window { m.toCore with numBits := n, bitBuf := v } hist (y ++ r) [] :=
    fun n v hn => .symbolFill hstate ⟨hb.lit, hb.dist⟩ hs (hat.congr rfl rfl) hn
  rw [← hstate]
  exact huffByte_good hok h (hi m.numBits m.bitBuf hlt) hat.quiet hb.lit hs hat.bits hlt (literal_decoded hok hz hb hs hat) hi

theorem stepLengthExtra_good {n ex d dx : Nat} (hok : c.Ok)
    (h : Sync c m hist (silent (Bits.ofNat (Deflate.lengthExtra n) ex) ++
      (emit (word cs.dist d ++ Bits.ofNat (distExtra d) dx) (copied hist (distBase d + dx) (lengthBase n + ex)) ++ r)) [])
    (hstate : m.state = .lengthExtra) (hb : BuiltCodes m cs) (hextra : m.numExtra = Deflate.lengthExtra n) (hne : m.numExtra ≠ 0)
    (hcount : m.counter = lengthBase n) (hex : ex < 2 ^ Deflate.lengthExtra n)
    (hcopy : CopyAhead cs hist (lengthBase n + ex) d dx)
    (ht : Tokens zl pad sum m cs (hist ++ copied hist (distBase d + dx) (lengthBase n + ex)) r) :
    Good (Expect zl pad sum c.window) c (cost c m (silent (Bits.ofNat (Deflate.lengthExtra n) ex) ++
      (emit (word cs.dist d ++ Bits.ofNat (distExtra d) dx) (copied hist (distBase d + dx) (lengthBase n + ex)) ++ r)) [])
      (stepLengthExtra c.env m) := by
  unfold stepLengthExtra
  refine getBits_good hok h (.lengthExtra hstate hb hextra hne hcount hex hcopy ht) (quiet_silent _)
    (by rw [Deflate.length_silent, Bits.length_ofNat, hextra])
    (fun b input _ => .lengthExtra hstate ⟨hb.lit, hb.dist⟩ hextra hne hcount hex hcopy (ht.congr rfl rfl)) fun v hn hsync => ?_
  rw [Deflate.output_silent] at hsync
  rw [Deflate.bits_silent, Bits.toNat_ofNat, Nat.mod_eq_of_lt hex]
  dsimp only
  rw [hcount]
  refine ⟨hist, _, [], hsync.frame rfl rfl rfl rfl rfl rfl, .distance rfl ⟨hb.lit, hb.dist⟩ hcopy (ht.congr rfl rfl), cost_silent ?_ ?_⟩
  · rw [Bits.length_ofNat, ← hextra]
    exact Nat.pos_of_ne_zero hne
  · rw [Bits.length_ofNat, ← hextra]
    show m.numBits ≤ m.numBits - m.numExtra + m.numExtra
    omega

/-! ## Two symbols -/

theorem and_256 (n : Nat) : n &&& 256 ≠ 0 ↔ 256 ≤ n % 512 := by
  rw [show (256 : Nat) = 2 ^ 8 from rfl, Nat.and_two_pow, Nat.testBit_eq_decide_div_mod_eq]
  by_cases h : n / 2 ^ 8 % 2 = 1
  · simp only [h, decide_true, Bool.toNat_true]
    omega
  · simp only [h, decide_false, Bool.toNat_false]
    omega

theorem refill_good {I : Core → List UInt8 → List Mark → List UInt8 → Prop} {w : Nat} {k : Machine → Next}
    {pending : List UInt8} (h : Sync c m hist r pending) (hinput : 2 ≤ m.input.length)
    (hk : ∀ input n v, 15 ≤ n → m.numBits ≤ n → m.input.length ≤ input.length + 2 →
      Sync c { m with input := input, numBits := n, bitBuf := v } hist r pending →
        Good I c w (k { m with input := input, numBits := n, bitBuf := v })) :
    Good I c w (refill m k) := by
  unfold refill
  by_cases hlt : m.numBits < 15
  · rw [if_pos hlt]
    split
    · next b0 b1 input heq =>
      have hahead := h.ahead
      rw [heq] at hahead
      exact hk _ _ _ (Nat.le_add_left_of_le (by decide)) (Nat.le_add_right _ _) (by rw [heq]; rfl) (h.more hahead.two)
    · next hnone =>
      obtain ⟨b0, input, heq⟩ := List.exists_cons_of_ne_nil (List.ne_nil_of_length_pos (by omega : 0 < m.input.length))
      rw [heq, List.length_cons] at hinput
      obtain ⟨b1, input', rfl⟩ := List.exists_cons_of_ne_nil (List.ne_nil_of_length_pos (by omega : 0 < input.length))
      exact absurd heq (hnone b0 b1 input')
  · rw [if_neg hlt]
    exact hk _ _ _ (Nat.le_of_not_lt hlt) (Nat.le_refl _) (Nat.le_add_right _ _) h

/-- The symbol that is found in a bit buffer of 15 bits or more -/
theorem AtSymbol.find (hat : AtSymbol zl pad sum d cs hist s y r) {t : HuffTable} (ht : Built cs.lit t) (hs : size cs.lit s ≠ 0)
    {input : List UInt8} {n v : Nat} (ha : Ahead c input n v (y ++ r)) (hn : 15 ≤ n) :
    ∃ sym, t.find v = some (sym, y.length) ∧ sym % 512 = s ∧ 0 < y.length ∧ y.length ≤ n := by
  have hlen : y.length = size cs.lit s := by rw [← Deflate.length_bits, hat.bits, Canonical.length_word]
  have h15 := Canonical.size_le ht.1.fits (s := s)
  have hall := ha.bits_all (by omega)
  rw [hat.bits, hlen] at hall
  obtain ⟨sym, hfind, hsym⟩ := ht.find hs hall
  exact ⟨sym, by rw [hlen, hfind], hsym, by omega, by omega⟩

theorem ofNat_of_mod {b : UInt8} {n : Nat} (h : n % 512 = b.toNat) : UInt8.ofNat n = b := by
  refine UInt8.toNat_inj.1 ?_
  have := b.toNat_lt
  rw [UInt8.toNat_ofNat']
  omega

/-- Behind a literal: the second symbol. -/
theorem secondSymbol_good (hok : c.Ok) (hz : c.env.parseZlibHeader = zl) {b : UInt8} (h : Sync c m hist r [b])
    (hb : BuiltCodes m cs) (hcount : m.counter % 512 = b.toNat) (ht : Tokens zl pad sum m cs (hist ++ [b]) r)
    (hinput : 2 ≤ m.input.length) (hroom : m.cur + 2 ≤ c.env.outBufEnd) {w : Nat}
    (hw : 32 * (r.length + (r.length + 24 - m.numBits) + (1 + (output r).length)) + 2 < w) :
    Good (Expect zl pad sum c.window) c w (secondSymbol c.env m) := by
  obtain ⟨ts, tail, hr, hv, hafter⟩ := ht
  obtain ⟨s, y, r', hsplit, hs, hat⟩ := tokens_first hv hafter
  obtain rfl : r = y ++ r' := hr.trans hsplit
  unfold secondSymbol
  refine refill_good h hinput fun input n v hn hge hlen hsync => ?_
  obtain ⟨sym, hfind, hsym, hy, hyn⟩ := hat.find hb.lit hs hsync.ahead hn
  dsimp only
  rw [hfind, Next.access_some]
  dsimp only [Machine.skipBits]
  rw [ofNat_of_mod hcount, hsync.written.poke hok (by omega : m.cur < c.env.outBufEnd), Next.access_some]
  -- the literal is put out, and the second symbol is taken off the bits
  have hput : Sync c { m with input := input, numBits := n, bitBuf := v, out := m.out.set m.cur b, cur := m.cur + 1 }
      (hist ++ [b]) (y ++ r') [] := hsync.put hok (by omega : m.cur < c.env.outBufEnd)
  have hskip : Sync c { m with input := input, numBits := n - y.length, bitBuf := v >>> y.length,
                               out := m.out.set m.cur b, cur := m.cur + 1, counter := sym }
      (hist ++ [b]) r' (output y) := (hput.skip hput.ahead hyn).frame rfl rfl rfl rfl rfl rfl
  rw [List.length_append, Deflate.output_append, List.length_append] at hw
  cases hat with
  | other hafter =>
    rw [Deflate.output_silent] at hskip
    rw [if_pos ((and_256 sym).2 (hsym ▸ hafter.ge))]
    refine afterLiterals_good hok hz hskip ⟨hb.lit, hb.dist⟩ hsym (hafter.congr rfl rfl) ?_
    dsimp only
    omega
  | @literal b' _ ht =>
    have hout : output (emit (word cs.lit b'.toNat) [b']) = [b'] :=
      Deflate.output_emit (List.ne_nil_of_length_pos (by rwa [← Deflate.length_emit])) [b']
    have hb' := b'.toNat_lt
    rw [hout] at hskip hw
    rw [if_neg (by rw [and_256]; omega), ofNat_of_mod hsym, hskip.written.poke hok hroom, Next.access_some]
    refine ⟨_, r', [], (hskip.put hok hroom).frame rfl rfl rfl rfl rfl rfl, .symbol rfl ⟨cs, ⟨hb.lit, hb.dist⟩, ht.congr rfl rfl⟩, ?_⟩
    show 32 * (r'.length + (r'.length + 24 - (n - _)) + (0 + (output r').length)) + 2 < w
    rw [List.length_singleton] at hw
    omega

theorem twoSymbols_good (hok : c.Ok) (hz : c.env.parseZlibHeader = zl) (h : Sync c m hist (y ++ r) [])
    (hb : BuiltCodes m cs) (hs : size cs.lit s ≠ 0) (hat : AtSymbol zl pad sum m cs hist s y r) (hinput : 4 ≤ m.input.length)
    (hroom : m.cur + 2 ≤ c.env.outBufEnd) :
    Good (Expect zl pad sum c.window) c (cost c m (y ++ r) []) (twoSymbols c.env m) := by
  unfold twoSymbols
  refine refill_good h (by omega) fun input n v hn hge hlen hsync => ?_
  obtain ⟨sym, hfind, hsym, hy, hyn⟩ := hat.find hb.lit hs hsync.ahead hn
  dsimp only
  rw [hfind, Next.access_some]
  dsimp only [Machine.skipBits]
  have hskip := hsync.skip hsync.ahead hyn
  have hnow : Sync c { m with input := input, numBits := n - y.length, bitBuf := v >>> y.length, counter := sym } hist r (output y) :=
    hskip.frame rfl rfl rfl rfl rfl rfl
  have hcost : 32 * ((y ++ r).length + ((y ++ r).length + 24 - m.numBits) + (0 + (output (y ++ r)).length)) ≤ cost c m (y ++ r) [] :=
    Nat.le_add_right _ _
  rw [List.length_append, Deflate.output_append, List.length_append] at hcost
  cases hat with
  | other hafter =>
    rw [Deflate.output_silent] at hnow hcost
    rw [if_pos ((and_256 sym).2 (hsym ▸ hafter.ge))]
    refine afterLiterals_good hok hz hnow ⟨hb.lit, hb.dist⟩ hsym (hafter.congr rfl rfl) ?_
    dsimp only
    omega
  | @literal b _ ht =>
    have hout : output (emit (word cs.lit b.toNat) [b]) = [b] :=
      Deflate.output_emit (List.ne_nil_of_length_pos (by rwa [← Deflate.length_emit])) [b]
    have hlt := b.toNat_lt
    rw [hout] at hnow hcost
    rw [if_neg (by rw [and_256]; omega)]
    refine secondSymbol_good hok hz hnow ⟨hb.lit, hb.dist⟩ hsym (ht.congr rfl rfl) (show 2 ≤ input.length by omega) hroom ?_
    dsimp only
    rw [List.length_singleton] at hcost
    omega

theorem stepSymbol_good (hok : c.Ok) (hz : c.env.parseZlibHeader = zl) (h : Sync c m hist r []) (hstate : m.state = .symbol)
    (hin : InTokens zl pad sum m hist r) :
    Good (Expect zl pad sum c.window) c (cost c m r []) (stepSymbol c.env m) := by
  have hrank : m.rank c.env = 2 := by rw [Machine.rank, hstate]
  obtain ⟨cs, hb, ts, tail, rfl, hv, hafter⟩ := hin
  obtain ⟨s, y, r, hsplit, hs, hat⟩ := tokens_first hv hafter
  rw [hsplit] at h ⊢
  unfold stepSymbol
  by_cases hfew : m.input.length < 4 ∨ c.env.outBufEnd - m.cur < 2
  · rw [if_pos hfew]
    refine huffHead_good h hb.lit hs hat.bits (literal_decoded hok hz hb hs hat) fun hlt => ?_
    exact ⟨hist, y ++ r, [], h.frame rfl rfl rfl rfl rfl rfl, .symbolFill rfl ⟨hb.lit, hb.dist⟩ hs (hat.congr rfl rfl) hlt,
      cost_rank rfl (by rw [hrank]; exact Nat.lt_succ_self 1)⟩
  · rw [if_neg hfew]
    have := h.written.le
    exact twoSymbols_good hok hz h hb hs hat (by omega) (by omega)

end Keynjector.Inflate
