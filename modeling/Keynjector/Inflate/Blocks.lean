import Keynjector.Inflate.Expect
/-
# Blocks and what frames them (tinfl.c:139-160, 336-342)

The header of the stream, the header of a block, the way back to the next block, and the
checksum behind the last one.
-/

namespace Keynjector.Inflate

open Deflate (Mark bits output silent emit Block Token Codes Header SizeItem encodeBlocks encodeTokens encodeStored
  ValidBlocks ValidTokens fixedLit fixedDist)

variable {zl : Bool} {pad : Nat} {sum : Vector UInt8 4} {c : Call} {m : Machine} {hist : List UInt8} {r : List Mark}

/-! ## Alignment -/

/-- The bits of the bit buffer up to a byte of the stream -/
theorem Ahead.aligned (hok : c.Ok) {input : List UInt8} {n v : Nat} (h : Ahead c input n v r) {pos : Nat}
    (hpos : 8 ∣ pos + r.length) : n &&& 7 = Deflate.padding pos := by
  have hlen := h.length
  obtain ⟨-, hslack⟩ := hok.aligned
  rw [Nat.and_two_pow_sub_one_eq_mod n 3, Deflate.padding]
  omega

/-- The bits up to the next byte are skipped. -/
theorem Sync.align (hok : c.Ok) {pos pad : Nat} (h : Sync c m hist (silent (Bits.ofNat (Deflate.padding pos) pad) ++ r) [])
    (hpos : 8 ∣ pos + (silent (Bits.ofNat (Deflate.padding pos) pad) ++ r).length) :
    Sync c (m.skipBits (m.numBits &&& 7)) hist r [] ∧ 8 ∣ m.numBits - (m.numBits &&& 7) ∧
      m.numBits &&& 7 = Deflate.padding pos ∧ m.numBits &&& 7 ≤ m.numBits := by
  have halign := h.ahead.aligned hok hpos
  have hand : m.numBits &&& 7 = m.numBits % 8 := Nat.and_two_pow_sub_one_eq_mod m.numBits 3
  have hlen : (silent (Bits.ofNat (Deflate.padding pos) pad)).length = m.numBits &&& 7 := by
    rw [Deflate.length_silent, Bits.length_ofNat, halign]
  have hle : m.numBits &&& 7 ≤ m.numBits := by
    rw [hand]
    exact Nat.mod_le _ _
  have hskip := h.skip h.ahead (hlen.trans_le hle)
  rw [hlen, Deflate.output_silent] at hskip
  refine ⟨hskip, ?_, halign, hle⟩
  rw [hand]
  exact Nat.dvd_sub_mod _

/-! ## The next block, or the end -/

theorem and_one_iff (n : Nat) : n &&& 1 = 0 ↔ n % 2 = 0 := by rw [Nat.and_one_is_mod]

theorem endBlock_holds (hok : c.Ok) (hz : c.env.parseZlibHeader = zl) (h : Sync c m hist r [])
    (hafter : AfterBlock zl pad sum m hist r) {w : Nat}
    (hw : 32 * (r.length + (r.length + 24 - m.numBits) + (output r).length) + 2 < w) :
    Holds (Expect zl pad sum c.window) c (endBlock c.env m) w := by
  obtain ⟨hadler, bs, hfinal, pos, hr, hv, hpos⟩ := hafter
  unfold endBlock
  split
  · next hmore =>
    rw [and_one_iff] at hmore
    refine ⟨hist, r, [], h.frame rfl rfl rfl rfl rfl rfl, .blockHead rfl ⟨hadler, bs, ?_, pos, hr, hv, hpos⟩, ?_⟩
    · intro hnil
      have := hfinal.1 hnil
      omega
    · show 32 * (r.length + (r.length + 24 - m.numBits) + (0 + (output r).length)) + 1 < w
      omega
  · next hlast =>
    rw [and_one_iff] at hlast
    obtain rfl := hfinal.2 (by omega)
    split
    · next hzlib =>
      rw [hz] at hzlib
      have hr' : r = silent (Bits.ofNat (Deflate.padding pos) pad) ++ silent (Bits.ofBytes sum.toList) := by
        rw [hr, encodeBlocks, trailer, if_pos hzlib, Deflate.silent_append]
      rw [hr'] at h hpos
      obtain ⟨hsync, haligned, hskipped, hle⟩ := h.align hok hpos
      refine ⟨hist, silent (Bits.ofBytes sum.toList), [], hsync.frame rfl rfl rfl rfl rfl rfl,
        .adler rfl ⟨hzlib, Nat.zero_le _, haligned, rfl, hadler⟩, ?_⟩
      rw [hr', List.length_append, Deflate.length_silent, Bits.length_ofNat] at hw
      have hcost : cost c { m.skipBits (m.numBits &&& 7) with counter := 0, state := .adler }
          (silent (Bits.ofBytes sum.toList)) [] =
          32 * ((silent (Bits.ofBytes sum.toList)).length +
            ((silent (Bits.ofBytes sum.toList)).length + 24 - (m.numBits - (m.numBits &&& 7))) +
            (0 + (output (silent (Bits.ofBytes sum.toList))).length)) + 2 := rfl
      rw [hcost, Deflate.output_silent, List.length_nil]
      omega
    · next hraw =>
      rw [hz] at hraw
      have hr' : r = silent (Bits.ofNat (Deflate.padding pos) pad) := by
        rw [hr, encodeBlocks, trailer, if_neg hraw, List.append_nil]
      refine ⟨hist, r, [], h.frame rfl rfl rfl rfl rfl rfl, .done rfl ?_ ?_ fun hcon => absurd hcon hraw, ?_⟩
      · rw [hr', Deflate.length_silent, Bits.length_ofNat, Deflate.padding]
        exact Nat.mod_lt _ (by decide)
      · rw [hr', Deflate.output_silent]
      · show 32 * (r.length + (r.length + 24 - m.numBits) + (0 + (output r).length)) + 0 < w
        omega

/-! ## The header of a zlib stream -/

theorem zhdr0_good (hok : c.Ok) {cmf flg : UInt8} (h : Sync c m [] (silent (Bits.ofBytes [cmf, flg]) ++ r) [])
    (hi : Expect zl pad sum c.window m [] (silent (Bits.ofBytes [cmf, flg]) ++ r) []) (hbits : m.numBits = 0) (hz : zl = true)
    (hgood : GoodHeader cmf flg) (hat : AtBlock zl pad sum m [] r) :
    Good (Expect zl pad sum c.window) c (cost c m (silent (Bits.ofBytes [cmf, flg]) ++ r) [])
      (getByte c.env m fun b m => .go { m with zhdr0 := b, state := .zhdr1 }) := by
  have hsplit : silent (Bits.ofBytes [cmf, flg]) ++ r = silent (Bits.ofNat 8 cmf.toNat) ++ (silent (Bits.ofBytes [flg]) ++ r) := by
    rw [Bits.ofBytes_cons, Deflate.silent_append, List.append_assoc]
  rw [hsplit] at h hi ⊢
  refine getByte_first hok h hi (quiet_silent _) hbits rfl fun b input hb hsync => ?_
  rw [Deflate.bits_silent] at hb
  obtain rfl := Bits.byte_inj hb
  rw [Deflate.output_silent] at hsync
  exact ⟨[], _, [], hsync.frame rfl rfl rfl rfl rfl rfl, .zhdr1 rfl hbits hz rfl hgood hat, cost_silent (by simp) (by simp)⟩

theorem stepZhdr1_good (hok : c.Ok) {cmf flg : UInt8} (h : Sync c m [] (silent (Bits.ofBytes [flg]) ++ r) [])
    (hi : Expect zl pad sum c.window m [] (silent (Bits.ofBytes [flg]) ++ r) []) (hbits : m.numBits = 0) (hcmf : m.zhdr0 = cmf.toNat)
    (hgood : GoodHeader cmf flg) (hat : AtBlock zl pad sum m [] r) :
    Good (Expect zl pad sum c.window) c (cost c m (silent (Bits.ofBytes [flg]) ++ r) []) (stepZhdr1 c.env m) := by
  have hwindow := hok.window_pos
  have hlow := hgood.window
  refine getByte_first hok h hi (quiet_silent _) hbits rfl fun b input hb hsync => ?_
  rw [Deflate.bits_silent, Bits.ofBytes_cons, Bits.ofBytes_nil, List.append_nil] at hb
  obtain rfl := Bits.byte_inj hb
  rw [Deflate.output_silent] at hsync
  have hok' : ¬ ((m.zhdr0 * 256 + b.toNat) % 31 ≠ 0 ∨ b.toNat &&& 32 ≠ 0 ∨ m.zhdr0 &&& 15 ≠ 8 ∨
      ¬ c.env.nonWrapping ∧ (1 <<< (8 + m.zhdr0 >>> 4) > 32768 ∨
        (c.env.outBufSizeMask + 1) % 2 ^ 32 < 1 <<< (8 + m.zhdr0 >>> 4))) := by
    rw [hcmf]
    rintro (hcon | hcon | hcon | ⟨hwrap, hcon | hcon⟩)
    · exact hcon hgood.check
    · exact hcon hgood.dict
    · exact hcon hgood.method
    · omega
    · have := hok.wraps (Bool.eq_false_iff.2 hwrap)
      rw [hok.mask, Nat.sub_add_cancel (by omega), Nat.mod_eq_of_lt this] at hcon
      omega
  dsimp only
  rw [if_neg hok', if_neg hok']
  exact ⟨[], _, [], hsync.frame rfl rfl rfl rfl rfl rfl, .blockHead rfl hat, cost_silent (by simp) (by simp)⟩

/-! ## The header of a block -/

theorem ofNat_two_bytes (v : Nat) : Bits.ofBytes [UInt8.ofNat v, UInt8.ofNat (v / 256)] = Bits.ofNat 16 v := by
  rw [show (16 : Nat) = 8 + 8 from rfl, Bits.ofNat_add, Bits.ofBytes_cons, Bits.ofBytes_cons, Bits.ofBytes_nil,
    List.append_nil, UInt8.toNat_ofNat', UInt8.toNat_ofNat']
  exact congrArg₂ _ (Bits.ofNat_mod 8 v) (Bits.ofNat_mod 8 (v / 256))

theorem lenBytes_bits (data : List UInt8) :
    Bits.ofBytes (lenBytes data) = Bits.ofNat 16 data.length ++ Bits.ofNat 16 (65535 - data.length) := by
  rw [← ofNat_two_bytes, ← ofNat_two_bytes, ← Bits.ofBytes_append]
  rfl

theorem take_toList_ofFn {n k : Nat} (f : Fin n → Nat) (sizes : List Nat) (hk : k ≤ n) (hlen : sizes.length = k)
    (h : ∀ i, ∀ hi : i < k, f ⟨i, by omega⟩ = sizes[i]) : (Vector.ofFn f).toList.take k = sizes := by
  refine List.ext_getElem ?_ fun i hi hi' => ?_
  · rw [List.length_take, Vector.length_toList]
    omega
  · rw [List.getElem_take, Vector.getElem_toList, Vector.getElem_ofFn]
    exact h i (by omega)

theorem length_fixedLit : fixedLit.length = 288 := by rw [fixedLit, List.length_map, List.length_range]

theorem fixedLit_accepted : Accepted fixedLit := by
  refine ⟨?_, Nat.le_of_eq length_fixedLit, .inl ?_⟩ <;> decide +kernel

theorem fixedDist_accepted : Accepted fixedDist := by
  refine ⟨by decide, ?_, .inl (by decide +kernel)⟩
  rw [fixedDist, List.length_replicate]
  decide

theorem fixedSizes_lit (m : Machine) :
    (fixedSizes m).litTable.codeSize.toList.take (fixedSizes m).litSize = fixedLit := by
  have hsize : (fixedSizes m).litSize = 288 := by
    unfold Core.litSize fixedSizes
    rw [Vector.getElem_set_ne _ _ (by decide), Vector.getElem_set_self]
  have hcodes : (fixedSizes m).litTable.codeSize = Vector.ofFn fun i : Fin 288 => Deflate.fixedSize i := by
    unfold Core.litTable fixedSizes
    rw [Vector.getElem_set_self]
    rfl
  rw [hsize, hcodes]
  refine take_toList_ofFn _ _ (Nat.le_refl 288) length_fixedLit fun i hi => ?_
  unfold fixedLit
  rw [List.getElem_map, List.getElem_range]

theorem fixedSizes_dist (m : Machine) :
    (fixedSizes m).distTable.codeSize.toList.take (fixedSizes m).distSize = fixedDist := by
  have hsize : (fixedSizes m).distSize = 32 := by
    unfold Core.distSize fixedSizes
    rw [Vector.getElem_set_self]
  have hcodes : (fixedSizes m).distTable.codeSize =
      Vector.ofFn fun i : Fin 288 => if i.val < 32 then 5 else m.distTable.codeSize[i] := by
    unfold Core.distTable fixedSizes
    rw [Vector.getElem_set_ne _ _ (by decide), Vector.getElem_set_self]
  rw [hsize, hcodes]
  refine take_toList_ofFn _ _ (by decide) List.length_replicate fun i hi => ?_
  rw [if_pos (show i < 32 from hi)]
  exact (List.getElem_replicate ..).symm

/-- The first three bits: the mark of the last block and the type -/
theorem toNat_blockBits (final : Bool) {t : Nat} (ht : t < 4) :
    Bits.toNat (final :: Bits.ofNat 2 t) >>> 1 = t ∧ Bits.toNat (final :: Bits.ofNat 2 t) % 2 = final.toNat := by
  have := Bool.toNat_le final
  rw [Bits.toNat, Bits.toNat_ofNat, Nat.mod_eq_of_lt (by omega), Nat.shiftRight_eq_div_pow]
  omega

/-- **A block's header.** -/
theorem stepBlockHead_good (hok : c.Ok) (h : Sync c m hist r []) (hstate : m.state = .blockHead)
    (hat : AtBlock zl pad sum m hist r) :
    Good (Expect zl pad sum c.window) c (cost c m r []) (stepBlockHead c.env m) := by
  have hadler := hat.1
  obtain ⟨-, bs, hne, pos, hr, hv, hpos⟩ := hat
  obtain ⟨b, bs, rfl⟩ := List.exists_cons_of_ne_nil hne
  obtain ⟨hb, hbs⟩ := hv
  generalize htail : encodeBlocks (trailer zl pad sum) (pos + (b.encode pos bs.isEmpty hist).length) (hist ++ b.data hist) bs = tail
  have hencode : r = b.encode pos bs.isEmpty hist ++ tail := by rw [hr, encodeBlocks, htail]
  have hafter : ∀ m' : Machine, m'.zAdler32 = 1 → m'.final % 2 = bs.isEmpty.toNat →
      AfterBlock zl pad sum m' (hist ++ b.data hist) tail := by
    intro m' hz hfinal
    refine ⟨hz, bs, ?_, _, htail.symm, hbs, ?_⟩
    · rw [hfinal]
      cases bs <;> simp
    · rw [Nat.add_assoc, ← List.length_append, ← hencode]
      exact hpos
  have hstay : ∀ b input, m.input = b :: input → Expect zl pad sum c.window ({ m with input := input }.addByte b.toNat) hist r [] :=
    fun _ _ _ => .blockHead hstate ⟨hadler, _, hne, pos, hr, ⟨hb, hbs⟩, hpos⟩
  have hi : Expect zl pad sum c.window m hist r [] := .blockHead hstate ⟨hadler, _, hne, pos, hr, ⟨hb, hbs⟩, hpos⟩
  unfold stepBlockHead
  cases b with
  | stored pad' data =>
    obtain ⟨htype, hfinal⟩ := toNat_blockBits bs.isEmpty (t := 0) (by decide)
    rw [hencode, Block.encode, List.append_assoc, List.append_assoc] at h hi hstay hpos ⊢
    refine getBits_good hok h hi (quiet_silent _) rfl hstay fun v hn hsync => ?_
    rw [Deflate.bits_silent]
    dsimp only
    rw [htype, if_pos rfl]
    rw [Deflate.output_silent] at hsync
    rw [List.append_assoc] at hsync
    obtain ⟨halign, haligned, hskipped, hle⟩ := hsync.align hok (by
      rw [List.length_append, Deflate.length_silent, List.length_cons, Bits.length_ofNat, List.append_assoc] at hpos
      rwa [Nat.add_assoc])
    refine ⟨hist, _, [], halign.frame rfl rfl rfl rfl rfl rfl, .rawHead rfl ⟨Nat.zero_le _, haligned, data,
      encodeStored data ++ tail, hb, ?_, rfl, tail, rfl, hafter _ hadler hfinal⟩, ?_⟩
    · rw [List.drop_zero, lenBytes_bits]
    · rw [← List.append_assoc (silent (_ :: _)), ← Deflate.silent_append]
      refine cost_silent (by simp) ?_
      rw [List.length_append, Bits.length_ofNat, List.length_cons, Bits.length_ofNat, ← hskipped]
      show m.numBits ≤ m.numBits - 3 - (m.numBits - 3 &&& 7) + (3 + (m.numBits - 3 &&& 7))
      dsimp only at hle
      omega
  | fixed ts =>
    obtain ⟨htype, hfinal⟩ := toNat_blockBits bs.isEmpty (t := 1) (by decide)
    rw [hencode, Block.encode, List.append_assoc] at h hi hstay ⊢
    refine getBits_good hok h hi (quiet_silent _) rfl hstay fun v hn hsync => ?_
    rw [Deflate.bits_silent]
    dsimp only
    rw [htype, if_neg (by decide), if_neg (by decide), if_pos rfl]
    rw [Deflate.output_silent] at hsync
    refine ⟨hist, _, [], hsync.frame rfl rfl rfl rfl rfl rfl, .buildDist rfl rfl (fixedSizes_lit _) (fixedSizes_dist _)
      fixedLit_accepted fixedDist_accepted ⟨ts, tail, rfl, hb, hafter _ hadler hfinal⟩, ?_⟩
    exact cost_silent (by simp) (show m.numBits ≤ m.numBits - 3 + 3 by omega)
  | dynamic hd ts =>
    obtain ⟨htype, hfinal⟩ := toNat_blockBits bs.isEmpty (t := 2) (by decide)
    rw [hencode, Block.encode, List.append_assoc, List.append_assoc] at h hi hstay ⊢
    refine getBits_good hok h hi (quiet_silent _) rfl hstay fun v hn hsync => ?_
    rw [Deflate.bits_silent]
    dsimp only
    rw [htype, if_neg (by decide), if_neg (by decide), if_neg (by decide)]
    rw [Deflate.output_silent] at hsync
    refine ⟨hist, _, [], hsync.frame rfl rfl rfl rfl rfl rfl, ?_, ?_⟩
    · have hencode : hd.encode = ((headerFields hd).drop 0).flatten ++ (sizeBits hd 0 ++ Deflate.encodeItems hd.sizeCode hd.items) := by
        rw [Header.encode, List.drop_zero, headerFields, sizeBits, List.drop_zero]
        simp only [List.flatten_cons, List.flatten_nil, List.append_nil, List.append_assoc]
      rw [hencode]
      exact .tableSizes rfl (Nat.zero_le _) rfl ⟨rfl, hb.1, ts, tail, rfl, hb.2, hafter _ hadler hfinal⟩
    · exact cost_silent (by simp) (show m.numBits ≤ m.numBits - 3 + 3 by omega)

/-! ## The checksum of a zlib stream -/

theorem silent_drop_byte {bytes : List UInt8} {i : Nat} (h : i < bytes.length) :
    silent (Bits.ofBytes (bytes.drop i)) = silent (Bits.ofNat 8 bytes[i].toNat) ++ silent (Bits.ofBytes (bytes.drop (i + 1))) := by
  rw [List.drop_eq_getElem_cons h, Bits.ofBytes_cons, Deflate.silent_append]

theorem beNat_take {bytes : List UInt8} {i : Nat} (h : i < bytes.length) :
    beNat (bytes.take (i + 1)) = (beNat (bytes.take i) <<< 8 ||| bytes[i].toNat) % 2 ^ 32 := by
  rw [List.take_add_one, List.getElem?_eq_getElem h]
  exact List.foldl_concat ..

/-- A byte of the checksum is read. -/
theorem InAdler.byte (h : InAdler zl sum m hist r) (hlt : m.counter < 4) :
    ∃ b : UInt8, ∃ r', r = silent (Bits.ofNat 8 b.toNat) ++ r' ∧
      ∀ m' : Machine, m'.counter = m.counter + 1 → 8 ∣ m'.numBits →
        m'.zAdler32 = (m.zAdler32 <<< 8 ||| b.toNat) % 2 ^ 32 → InAdler zl sum m' hist r' := by
  have hlt' : m.counter < sum.toList.length := by rwa [Vector.length_toList]
  refine ⟨sum.toList[m.counter], _, by rw [h.rest, silent_drop_byte hlt'], fun m' hcount halign hvalue => ?_⟩
  refine ⟨h.zlib, by omega, halign, by rw [hcount], ?_⟩
  rw [hvalue, h.value, hcount, beNat_take hlt']

theorem adler_good (h : Sync c m hist r []) (hstate : m.state = .adler) (hin : InAdler zl sum m hist r) :
    Good (Expect zl pad sum c.window) c (cost c m r [])
      (if m.counter < 4 then .go { m with state := if m.numBits ≠ 0 then .adlerBits else .adlerByte }
        else .go { m with state := .done }) := by
  have hrank : m.rank c.env = 2 := by rw [Machine.rank, hstate]
  by_cases hlt : m.counter < 4
  · rw [if_pos hlt]
    by_cases hbits : m.numBits = 0
    · rw [if_neg (not_not.2 hbits)]
      exact ⟨hist, r, [], h.frame rfl rfl rfl rfl rfl rfl, .adlerByte rfl ⟨hin.zlib, hin.counter, hin.aligned, hin.rest, hin.value⟩ hlt hbits,
        cost_rank rfl (by rw [hrank]; exact Nat.lt_succ_self 1)⟩
    · rw [if_pos hbits]
      exact ⟨hist, r, [], h.frame rfl rfl rfl rfl rfl rfl, .adlerBits rfl ⟨hin.zlib, hin.counter, hin.aligned, hin.rest, hin.value⟩ hlt,
        cost_rank rfl (by rw [hrank]; exact Nat.lt_succ_self 1)⟩
  · rw [if_neg hlt]
    have hcount : m.counter = 4 := Nat.le_antisymm hin.counter (Nat.le_of_not_lt hlt)
    have hr : r = [] := by
      rw [hin.rest, hcount, List.drop_eq_nil_of_le (Nat.le_of_eq Vector.length_toList)]
      rfl
    refine ⟨hist, r, [], h.frame rfl rfl rfl rfl rfl rfl, .done rfl ?_ ?_ fun _ => ?_,
      cost_rank rfl (by rw [hrank]; exact Nat.succ_pos 1)⟩
    · rw [hr]
      exact Nat.succ_pos 7
    · rw [hr]
      rfl
    · show m.zAdler32 = beNat sum.toList
      rw [hin.value, hcount, List.take_of_length_le (Nat.le_of_eq Vector.length_toList)]

theorem stepAdlerBits_good (hok : c.Ok) (h : Sync c m hist r []) (hstate : m.state = .adlerBits)
    (hin : InAdler zl sum m hist r) (hlt : m.counter < 4) :
    Good (Expect zl pad sum c.window) c (cost c m r []) (stepAdlerBits c.env m) := by
  have hi : Expect zl pad sum c.window m hist r [] := .adlerBits hstate hin hlt
  obtain ⟨b, r', rfl, hnext⟩ := hin.byte hlt
  refine getBits_good hok h hi (quiet_silent _) rfl (fun b input _ => ?_) fun v hn hsync => ?_
  · exact .adlerBits hstate ⟨hin.zlib, hin.counter, (Nat.dvd_add_right hin.aligned).2 (Nat.dvd_refl 8), hin.rest, hin.value⟩ hlt
  · rw [Deflate.output_silent] at hsync
    rw [Deflate.bits_silent, Bits.toNat_ofNat, Nat.mod_eq_of_lt b.toNat_lt]
    refine ⟨hist, r', [], hsync.frame rfl rfl rfl rfl rfl rfl, .adler rfl (hnext _ rfl ?_ rfl), cost_silent (by simp) ?_⟩
    · exact Nat.dvd_sub hin.aligned (Nat.dvd_refl 8)
    · show m.numBits ≤ m.numBits - 8 + 8
      omega

theorem stepAdlerByte_good (hok : c.Ok) (h : Sync c m hist r []) (hstate : m.state = .adlerByte)
    (hin : InAdler zl sum m hist r) (hlt : m.counter < 4) (hbits : m.numBits = 0) :
    Good (Expect zl pad sum c.window) c (cost c m r []) (stepAdlerByte c.env m) := by
  have hi : Expect zl pad sum c.window m hist r [] := .adlerByte hstate hin hlt hbits
  obtain ⟨b, r', rfl, hnext⟩ := hin.byte hlt
  refine getByte_first hok h hi (quiet_silent _) hbits rfl fun b' input hb hsync => ?_
  rw [Deflate.bits_silent] at hb
  obtain rfl := Bits.byte_inj hb
  rw [Deflate.output_silent] at hsync
  exact ⟨hist, r', [], hsync.frame rfl rfl rfl rfl rfl rfl, .adler rfl (hnext _ rfl hin.aligned rfl),
    cost_silent (by simp) (by simp)⟩

end Keynjector.Inflate
