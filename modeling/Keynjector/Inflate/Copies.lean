import Keynjector.Inflate.Symbols
/-
# Copies (tinfl.c:312-372)

A copy reads what was put out before, through the mask of the window. Where source and target
are in one piece it goes three bytes at a time, elsewhere byte by byte, also across calls.
Both write the same bytes.
-/

namespace Keynjector.Inflate

open Deflate (Mark bits output silent emit Codes copied distBase distExtra)
open Canonical (word size)

variable {zl : Bool} {pad : Nat} {sum : Vector UInt8 4} {c : Call} {m m' : Machine} {hist : List UInt8} {r : List Mark} {cs : Codes}

/-! ## The fast loop is the plain one -/

theorem moveBytes_add (m n : Nat) (out : List UInt8) (src cur : Nat) :
    moveBytes (m + n) out src cur = (moveBytes m out src cur).bind fun out => moveBytes n out (src + m) (cur + m) := by
  induction m generalizing out src cur with
  | zero => rw [Nat.zero_add]; rfl
  | succ m ih =>
    rw [Nat.succ_add, moveBytes, moveBytes]
    cases out[src]? with
    | none => rfl
    | some b =>
      dsimp only
      cases poke out cur b with
      | none => rfl
      | some out =>
        dsimp only
        rw [ih, Nat.add_right_comm src, Nat.add_right_comm cur]
        rfl

theorem copyThrees_eq (n : Nat) (out : List UInt8) (src cur : Nat) :
    copyThrees (n + 3 : Nat) out src cur =
      (moveBytes (n + 3) out src cur).map fun out => (out, cur + (n + 3), ((n % 3 : Nat) : Int)) := by
  induction n using Nat.strongRecOn generalizing out src cur with
  | ind n ih =>
    have hcast : ((n + 3 : Nat) : Int) - 3 = (n : Int) := by omega
    rw [copyThrees, Nat.add_comm n 3, moveBytes_add]
    cases hmove : moveBytes 3 out src cur with
    | none => rfl
    | some out =>
      rw [Nat.add_comm 3 n, Option.bind_some]
      dsimp only
      rw [hcast]
      by_cases hmore : 2 < n
      · obtain ⟨k, rfl⟩ := Nat.exists_eq_add_of_le' hmore
        rw [if_pos (by omega), ih k (by omega), Nat.add_mod_right, Nat.add_assoc cur 3 (k + 3), Nat.add_comm 3 (k + 3)]
      · rw [if_neg (by omega)]
        obtain rfl | hpos := Nat.eq_zero_or_pos n
        · rfl
        · rw [if_pos (by omega), Int.toNat_natCast, Nat.mod_eq_of_lt (by omega), Nat.add_assoc cur 3 n, Nat.add_comm 3 n]

/-! ## What is copied -/

/-- A copy within the output buffer -/
theorem moveBytes_good (hok : c.Ok) {dist : Nat} (hpos : 0 < dist) (hle : dist ≤ 32768) (n : Nat) {out : List UInt8}
    {src cur : Nat} (h : Written c out cur hist) (hback : dist ≤ hist.length)
    (hsrc : src % c.window = (hist.length - dist) % c.window) (hin : src + n ≤ c.window) (hroom : cur + n ≤ c.env.outBufEnd) :
    ∃ out', moveBytes n out src cur = some out' ∧ Written c out' (cur + n) (hist ++ copied hist dist n) := by
  induction n generalizing out src cur hist with
  | zero => exact ⟨out, rfl, by rw [copied, List.append_nil]; exact h⟩
  | succ n ih =>
    have hget := h.get hok hpos hback hle
    rw [← hsrc, Nat.mod_eq_of_lt (by omega)] at hget
    have hnext : (src + 1) % c.window = ((hist ++ [hist.getD (hist.length - dist) 0]).length - dist) % c.window := by
      rw [List.length_append, List.length_singleton, Nat.sub_add_comm hback]
      exact Nat.ModEq.add_right 1 hsrc
    obtain ⟨out', hmove, hwritten⟩ := ih (h.set hok (by omega) (hist.getD (hist.length - dist) 0))
      (by rw [List.length_append]; omega) hnext (by omega) (by omega)
    refine ⟨out', ?_, ?_⟩
    · rw [moveBytes, hget]
      dsimp only
      rw [h.poke hok (by omega)]
      exact hmove
    · rw [copied, Nat.add_comm n 1, ← Nat.add_assoc]
      rwa [List.append_assoc] at hwritten

theorem copy_good (hok : c.Ok) (h : Sync c m hist r (copied hist m.dist m.counter)) (hb : BuiltCodes m cs) (hlen : 3 ≤ m.counter)
    (hpos : 0 < m.dist) (hle : m.dist ≤ 32768) (hback : m.dist ≤ hist.length)
    (ht : Tokens zl pad sum m cs (hist ++ copied hist m.dist m.counter) r) {w : Nat}
    (hw : 32 * (r.length + (r.length + 24 - m.numBits) + (m.counter + (output r).length)) + 3 < w) :
    Good (Expect zl pad sum c.window) c w (copy c.env m) := by
  have hmod := h.written.mod
  have hwindow := hok.end_le
  unfold copy
  dsimp only
  have hnear : ¬ (m.dist > m.cur ∧ c.env.nonWrapping = true) := by
    rintro ⟨hfar, hwhole⟩
    have := h.written.pos
    have := hok.whole hwhole
    omega
  rw [if_neg hnear, hok.behind hmod hback hle]
  by_cases hslow : max m.cur ((hist.length - m.dist) % c.window) + m.counter > c.env.outBufEnd
  · rw [if_pos hslow]
    refine ⟨hist, r, _, h.frame rfl rfl rfl rfl rfl rfl,
      .copyLoop rfl ⟨hpos, hle, hback, hmod⟩ ⟨cs, ⟨hb.lit, hb.dist⟩, ht.congr rfl rfl⟩, ?_⟩
    show 32 * (r.length + (r.length + 24 - m.numBits) + ((copied hist m.dist m.counter).length + (output r).length)) + 3 < w
    rwa [Deflate.length_copied]
  · rw [if_neg hslow]
    obtain ⟨out', hmove, hwritten⟩ := moveBytes_good hok hpos hle m.counter h.written hback (Nat.mod_mod _ _) (by omega) (by omega)
    obtain ⟨n, hn⟩ := Nat.exists_eq_add_of_le' hlen
    have hthrees := copyThrees_eq n m.out ((hist.length - m.dist) % c.window) m.cur
    rw [← hn, hmove] at hthrees
    rw [hthrees, Option.map_some, Next.access_some]
    refine ⟨_, r, [], ⟨h.ahead, hwritten, h.rest, ?_, h.check⟩, .symbol rfl ⟨cs, ⟨hb.lit, hb.dist⟩, ht.congr rfl rfl⟩, ?_⟩
    · rw [h.data, List.append_assoc]
      rfl
    · show 32 * (r.length + (r.length + 24 - m.numBits) + (0 + (output r).length)) + 2 < w
      omega

/-! ## Byte by byte -/

theorem stepCopyLoop_good (h : Sync c m hist r (copied hist m.dist m.counter)) (hstate : m.state = .copyLoop)
    (hcopy : Copying c.window m hist) (hin : InTokens zl pad sum m (hist ++ copied hist m.dist m.counter) r) :
    Good (Expect zl pad sum c.window) c (cost c m r (copied hist m.dist m.counter)) (stepCopyLoop m) := by
  have hrank : m.rank c.env = 3 := by rw [Machine.rank, hstate]
  obtain ⟨cs, hb, ht⟩ := hin
  unfold stepCopyLoop
  by_cases h0 : m.counter = 0
  · rw [if_pos h0]
    rw [h0, copied] at h ht ⊢
    rw [List.append_nil] at ht
    exact ⟨hist, r, [], h.frame rfl rfl rfl rfl rfl rfl, .symbol rfl ⟨cs, ⟨hb.lit, hb.dist⟩, ht.congr rfl rfl⟩,
      cost_rank rfl (by rw [hrank]; exact Nat.lt_succ_self 2)⟩
  · rw [if_neg h0]
    obtain ⟨n, hn⟩ := Nat.exists_eq_succ_of_ne_zero h0
    rw [hn] at h ht ⊢
    exact ⟨hist, r, _, h.frame rfl rfl rfl rfl rfl rfl, .copyPut rfl ⟨hcopy.pos, hcopy.le, hcopy.back, hcopy.from_mod⟩
      ⟨cs, ⟨hb.lit, hb.dist⟩, ht.congr rfl rfl⟩, cost_rank rfl (by rw [hrank]; exact Nat.lt_of_sub_eq_succ rfl)⟩

theorem stepCopyPut_good (hok : c.Ok) (h : Sync c m hist r (copied hist m.dist (m.counter + 1))) (hstate : m.state = .copyPut)
    (hcopy : Copying c.window m hist) (hin : InTokens zl pad sum m (hist ++ copied hist m.dist (m.counter + 1)) r) :
    Good (Expect zl pad sum c.window) c (cost c m r (copied hist m.dist (m.counter + 1))) (stepCopyPut c.env m) := by
  have hi : Expect zl pad sum c.window m hist r (copied hist m.dist (m.counter + 1)) := .copyPut hstate hcopy hin
  obtain ⟨cs, hb, ht⟩ := hin
  unfold stepCopyPut
  by_cases hfull : m.cur ≥ c.env.outBufEnd
  · rw [if_pos hfull]
    refine ⟨hist, r, _, h, hi, .inr (.inr ⟨rfl, Nat.le_antisymm h.written.le hfull, ?_⟩)⟩
    exact List.append_ne_nil_of_left_ne_nil (List.cons_ne_nil _ _) _
  · rw [if_neg hfull, hok.behind hcopy.from_mod hcopy.back hcopy.le, h.written.get hok hcopy.pos hcopy.back hcopy.le,
      Next.access_some]
    refine putByte_good hok h hi fun hsync => ?_
    refine ⟨_, r, _, hsync.frame rfl rfl rfl rfl rfl rfl, .copyLoop rfl ⟨hcopy.pos, hcopy.le, ?_, ?_⟩
      ⟨cs, ⟨hb.lit, hb.dist⟩, ?_⟩, cost_put rfl ?_⟩
    · rw [List.length_append]
      exact Nat.le_add_right_of_le hcopy.back
    · rw [List.length_append, List.length_singleton]
      exact Nat.ModEq.add_right 1 hcopy.from_mod
    · rw [List.append_assoc]
      exact ht.congr rfl rfl
    · rw [Deflate.length_copied, Deflate.length_copied]
      exact Nat.lt_succ_self _

/-! ## The distance -/

theorem s_dist_extra_eq {d : Nat} (hd : d < 30) : s_dist_extra[d]? = some (distExtra d) := by
  have hall : ∀ d < 30, s_dist_extra[d]? = some (distExtra d) := by decide
  exact hall d hd

theorem s_dist_base_eq {d : Nat} (hd : d < 30) : s_dist_base[d]? = some (distBase d) := by
  have hall : ∀ d < 30, s_dist_base[d]? = some (distBase d) := by decide
  exact hall d hd

theorem CopyAhead.dist_le {len d dx : Nat} (h : CopyAhead cs hist len d dx) :
    0 < distBase d + dx ∧ distBase d + dx ≤ 32768 := by
  have hall : ∀ d < 30, 0 < distBase d ∧ distBase d + 2 ^ distExtra d ≤ 32769 := by decide
  have := hall d h.symbol
  have := h.extra
  omega

/-- The distance is known. -/
theorem CopyAhead.copy_good (hok : c.Ok) {d dx : Nat} (h : Sync c m hist r (copied hist (distBase d + dx) m.counter))
    (hcopy : CopyAhead cs hist m.counter d dx) (hdist : m.dist = distBase d + dx) (hb : BuiltCodes m cs)
    (ht : Tokens zl pad sum m cs (hist ++ copied hist (distBase d + dx) m.counter) r) {w : Nat}
    (hw : 32 * (r.length + (r.length + 24 - m.numBits) + (m.counter + (output r).length)) + 3 < w) :
    Good (Expect zl pad sum c.window) c w (copy c.env m) := by
  obtain ⟨hpos, hle⟩ := hcopy.dist_le
  rw [← hdist] at hpos hle h ht
  exact Inflate.copy_good hok h hb hcopy.len hpos hle (hdist ▸ hcopy.back) ht hw

/-- The bits of a distance: its symbol, and what follows -/
theorem distSymbol_decoded (hok : c.Ok) (hb : BuiltCodes m cs) {d dx : Nat} (hcopy : CopyAhead cs hist m.counter d dx)
    (ht : Tokens zl pad sum m cs (hist ++ copied hist (distBase d + dx) m.counter) r) :
    ∃ y r', emit (word cs.dist d ++ Bits.ofNat (distExtra d) dx) (copied hist (distBase d + dx) m.counter) ++ r = y ++ r' ∧
      bits y = word cs.dist d ∧ Quiet y ∧
        Decoded (Expect zl pad sum c.window) c (cost c m (y ++ r') []) m (distSymbol c.env) d y hist r' := by
  have hword : 0 < (word cs.dist d).length := by
    rw [Canonical.length_word]
    exact Nat.pos_of_ne_zero hcopy.size
  have hne : word cs.dist d ≠ [] := List.ne_nil_of_length_pos hword
  by_cases hextra : distExtra d = 0
  · have hdx : dx = 0 := by
      have := hcopy.extra
      rw [hextra] at this
      exact Nat.lt_one_iff.1 this
    have hbits : Bits.ofNat (distExtra d) dx = [] := by
      rw [hextra]
      rfl
    refine ⟨_, r, rfl, ?_, quiet_emit _ _, fun input n v hn hsync => ?_⟩
    · rw [Deflate.bits_emit, hbits, List.append_nil]
    · rw [hbits, List.append_nil] at hn hsync ⊢
      rw [Deflate.output_emit hne] at hsync
      unfold distSymbol
      rw [s_dist_extra_eq hcopy.symbol, Next.access_some, s_dist_base_eq hcopy.symbol, Next.access_some]
      dsimp only
      rw [if_neg (not_not.2 hextra)]
      have hnow : Sync c { m with input := input, numBits := n, bitBuf := v, numExtra := distExtra d, dist := distBase d }
          hist r (copied hist (distBase d + dx) m.counter) := hsync.frame rfl rfl rfl rfl rfl rfl
      refine CopyAhead.copy_good hok hnow ⟨hcopy.len, hcopy.symbol, hcopy.extra, hcopy.size, hcopy.back⟩ (by rw [hdx]; rfl)
        ⟨hb.lit, hb.dist⟩ (ht.congr rfl rfl) ?_
      have hrank := m.rank_lt c.env
      unfold cost
      rw [Deflate.length_emit] at hn
      rw [List.length_append, Deflate.length_emit, Deflate.output_append, Deflate.output_emit hne, List.length_append,
        Deflate.length_copied, List.length_nil]
      dsimp only
      omega
  · have hlong : 0 < (Bits.ofNat (distExtra d) dx).length := by
      rw [Bits.length_ofNat]
      exact Nat.pos_of_ne_zero hextra
    refine ⟨silent (word cs.dist d), emit (Bits.ofNat (distExtra d) dx) (copied hist (distBase d + dx) m.counter) ++ r, ?_,
      Deflate.bits_silent _, quiet_silent _, fun input n v hn hsync => ?_⟩
    · rw [Deflate.emit_append _ (List.ne_nil_of_length_pos hlong), List.append_assoc]
    · rw [Deflate.output_silent] at hsync
      unfold distSymbol
      rw [s_dist_extra_eq hcopy.symbol, Next.access_some, s_dist_base_eq hcopy.symbol, Next.access_some]
      dsimp only
      rw [if_pos hextra]
      refine ⟨hist, _, [], hsync.frame rfl rfl rfl rfl rfl rfl, .distExtra rfl ⟨hb.lit, hb.dist⟩
        ⟨hcopy.len, hcopy.symbol, hcopy.extra, hcopy.size, hcopy.back⟩ rfl rfl hextra (ht.congr rfl rfl), cost_silent hword ?_⟩
      rwa [Deflate.length_silent] at hn

theorem distance_good (hok : c.Ok) {d dx : Nat}
    (h : Sync c m hist (emit (word cs.dist d ++ Bits.ofNat (distExtra d) dx) (copied hist (distBase d + dx) m.counter) ++ r) [])
    (hstate : m.state = .distance) (hb : BuiltCodes m cs) (hcopy : CopyAhead cs hist m.counter d dx)
    (ht : Tokens zl pad sum m cs (hist ++ copied hist (distBase d + dx) m.counter) r) :
    Good (Expect zl pad sum c.window) c
      (cost c m (emit (word cs.dist d ++ Bits.ofNat (distExtra d) dx) (copied hist (distBase d + dx) m.counter) ++ r) [])
      (huffHead m.distTable .distFill m (distSymbol c.env)) := by
  have hrank : m.rank c.env = 2 := by rw [Machine.rank, hstate]
  obtain ⟨y, r', hsplit, hy, hquiet, hdecoded⟩ := distSymbol_decoded hok hb hcopy ht
  have hfill : m.numBits < size cs.dist d → Expect zl pad sum c.window { m with state := .distFill } hist (y ++ r') [] := by
    intro hlt
    rw [← hsplit]
    exact .distFill rfl ⟨hb.lit, hb.dist⟩ ⟨hcopy.len, hcopy.symbol, hcopy.extra, hcopy.size, hcopy.back⟩ (ht.congr rfl rfl) hlt
  rw [hsplit] at h ⊢
  refine huffHead_good h hb.dist hcopy.size hy hdecoded fun hlt => ?_
  exact ⟨hist, y ++ r', [], h.frame rfl rfl rfl rfl rfl rfl, hfill hlt, cost_rank rfl (by rw [hrank]; exact Nat.lt_succ_self 1)⟩

theorem distFill_good (hok : c.Ok) {d dx : Nat}
    (h : Sync c m hist (emit (word cs.dist d ++ Bits.ofNat (distExtra d) dx) (copied hist (distBase d + dx) m.counter) ++ r) [])
    (hstate : m.state = .distFill) (hb : BuiltCodes m cs) (hcopy : CopyAhead cs hist m.counter d dx)
    (ht : Tokens zl pad sum m cs (hist ++ copied hist (distBase d + dx) m.counter) r) (hlt : m.numBits < size cs.dist d) :
    Good (Expect zl pad sum c.window) c
      (cost c m (emit (word cs.dist d ++ Bits.ofNat (distExtra d) dx) (copied hist (distBase d + dx) m.counter) ++ r) [])
      (huffByte c.env m.distTable .distFill m (distSymbol c.env)) := by
  obtain ⟨y, r', hsplit, hy, hquiet, hdecoded⟩ := distSymbol_decoded hok hb hcopy ht
  have hi : ∀ n v, n < size cs.dist d →
      Expect zl pad sum c.window { m.toCore with numBits := n, bitBuf := v } hist (y ++ r') [] := by
    intro n v hn
    rw [← hsplit]
    exact .distFill hstate ⟨hb.lit, hb.dist⟩ ⟨hcopy.len, hcopy.symbol, hcopy.extra, hcopy.size, hcopy.back⟩ (ht.congr rfl rfl) hn
  rw [hsplit] at h ⊢
  rw [← hstate]
  exact huffByte_good hok h (hi m.numBits m.bitBuf hlt) hquiet hb.dist hcopy.size hy hlt hdecoded hi

theorem stepDistExtra_good (hok : c.Ok) {d dx : Nat}
    (h : Sync c m hist (emit (Bits.ofNat (distExtra d) dx) (copied hist (distBase d + dx) m.counter) ++ r) [])
    (hstate : m.state = .distExtra) (hb : BuiltCodes m cs) (hcopy : CopyAhead cs hist m.counter d dx) (hdist : m.dist = distBase d)
    (hextra : m.numExtra = distExtra d) (hne : distExtra d ≠ 0)
    (ht : Tokens zl pad sum m cs (hist ++ copied hist (distBase d + dx) m.counter) r) :
    Good (Expect zl pad sum c.window) c
      (cost c m (emit (Bits.ofNat (distExtra d) dx) (copied hist (distBase d + dx) m.counter) ++ r) []) (stepDistExtra c.env m) := by
  have hlong : Bits.ofNat (distExtra d) dx ≠ [] := by
    rw [← List.length_pos_iff, Bits.length_ofNat]
    exact Nat.pos_of_ne_zero hne
  unfold stepDistExtra
  refine getBits_good hok h (.distExtra hstate hb hcopy hdist hextra hne ht) (quiet_emit _ _)
    (by rw [Deflate.length_emit, Bits.length_ofNat, hextra])
    (fun b input _ => .distExtra hstate ⟨hb.lit, hb.dist⟩ ⟨hcopy.len, hcopy.symbol, hcopy.extra, hcopy.size, hcopy.back⟩ hdist
      hextra hne (ht.congr rfl rfl)) fun v hn hsync => ?_
  rw [Deflate.output_emit hlong] at hsync
  rw [Deflate.bits_emit, Bits.toNat_ofNat, Nat.mod_eq_of_lt hcopy.extra]
  have hnow : Sync c { m with numBits := m.numBits - m.numExtra, bitBuf := v, dist := m.dist + dx } hist r
      (copied hist (distBase d + dx) m.counter) := hsync.frame rfl rfl rfl rfl rfl rfl
  refine CopyAhead.copy_good hok hnow ⟨hcopy.len, hcopy.symbol, hcopy.extra, hcopy.size, hcopy.back⟩
    (show m.dist + dx = distBase d + dx by rw [hdist]) ⟨hb.lit, hb.dist⟩ (ht.congr rfl rfl) ?_
  have hrank := m.rank_lt c.env
  unfold cost
  rw [List.length_append, Deflate.length_emit, Bits.length_ofNat, Deflate.output_append, Deflate.output_emit hlong,
    List.length_append, Deflate.length_copied, List.length_nil]
  dsimp only
  omega

end Keynjector.Inflate
