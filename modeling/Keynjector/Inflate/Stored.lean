import Keynjector.Inflate.Blocks
/-
# Stored blocks (tinfl.c:161-190)

The length with its complement, the bytes that are in the bit buffer already, and the rest
of the data in one piece.
-/

namespace Keynjector.Inflate

open Deflate (Mark bits output silent emit encodeStored encodeStored_cons output_byte bits_encodeStored output_encodeStored)

variable {zl : Bool} {pad : Nat} {sum : Vector UInt8 4} {c : Call} {m : Machine} {hist : List UInt8} {r : List Mark}

/-! ## The length -/

theorem xor_complement {n : Nat} (h : n < 2 ^ 16) : 0xFFFF ^^^ (65535 - n) = n := by
  refine Nat.eq_of_testBit_eq fun i => ?_
  have hsub : 65535 - n = 2 ^ 16 - (n + 1) := by omega
  have hall : (0xFFFF : Nat) = 2 ^ 16 - 1 := rfl
  rw [Nat.testBit_xor, hsub, Nat.testBit_two_pow_sub_succ h, hall, Nat.testBit_two_pow_sub_one]
  by_cases hi : i < 16
  · simp [hi]
  · have hzero : n.testBit i = false :=
      Nat.testBit_lt_two_pow (h.trans_le (Nat.pow_le_pow_right (by decide) (Nat.le_of_not_lt hi)))
    simp [hi, hzero]

theorem bytes_toNat {n : Nat} (h : n < 2 ^ 16) : (UInt8.ofNat n).toNat ||| (UInt8.ofNat (n / 256)).toNat <<< 8 = n := by
  have hlow : (UInt8.ofNat n).toNat < 2 ^ 8 := (UInt8.ofNat n).toNat_lt
  rw [or_shiftLeft hlow, UInt8.toNat_ofNat', UInt8.toNat_ofNat']
  omega

theorem InLength.congr {d d' : Core} (h : InLength zl pad sum d hist r) (hcount : d'.counter = d.counter)
    (halign : 8 ∣ d'.numBits) (hraw : d'.rawHeader = d.rawHeader) (hz : d'.zAdler32 = d.zAdler32)
    (hfinal : d'.final = d.final) : InLength zl pad sum d' hist r := by
  obtain ⟨data, r', hlen, hr, hbytes, tail, htail, hadler, hafter⟩ := h.rest
  exact ⟨by rw [hcount]; exact h.counter, halign, data, r', hlen, by rw [hcount]; exact hr,
    by rw [hcount, hraw]; exact hbytes, tail, htail, hz ▸ hadler, hfinal ▸ hafter⟩

theorem stepRawHead_good (h : Sync c m hist r []) (hstate : m.state = .rawHead) (hin : InLength zl pad sum m hist r) :
    Good (Expect zl pad sum c.window) c (cost c m r []) (stepRawHead m) := by
  have hrank : m.rank c.env = 8 := by rw [Machine.rank, hstate]
  unfold stepRawHead
  by_cases hlt : m.counter < 4
  · rw [if_pos hlt]
    by_cases hbits : m.numBits = 0
    · rw [if_neg (not_not.2 hbits)]
      exact ⟨hist, r, [], h.frame rfl rfl rfl rfl rfl rfl, .rawByte rfl (hin.congr rfl hin.aligned rfl rfl rfl) hlt hbits,
        cost_rank rfl (by rw [hrank]; exact Nat.lt_of_sub_eq_succ rfl)⟩
    · rw [if_pos hbits]
      exact ⟨hist, r, [], h.frame rfl rfl rfl rfl rfl rfl, .rawBits rfl (hin.congr rfl hin.aligned rfl rfl rfl) hlt hbits,
        cost_rank rfl (by rw [hrank]; exact Nat.lt_of_sub_eq_succ rfl)⟩
  · rw [if_neg hlt]
    have hcount : m.counter = 4 := Nat.le_antisymm hin.counter (Nat.le_of_not_lt hlt)
    obtain ⟨data, r', hlen, hr, hraw, hstored⟩ := hin.rest
    rw [hcount] at hr hraw
    rw [List.take_of_length_le (Nat.le_of_eq Vector.length_toList)] at hraw
    have hget : ∀ i, ∀ hi : i < 4, m.rawHeader[i] = ((lenBytes data).map UInt8.toNat)[i] := by
      intro i hi
      have := congrArg (·[i]?) hraw
      simp only [List.getElem?_eq_getElem (show i < m.rawHeader.toList.length by rwa [Vector.length_toList]),
        Vector.getElem_toList] at this
      rw [← Option.some_inj, this]
      exact List.getElem?_eq_getElem _
    have hlow : m.rawHeader[0] ||| m.rawHeader[1] <<< 8 = data.length := by
      rw [hget 0 (by decide), hget 1 (by decide)]
      exact bytes_toNat hlen
    have hhigh : m.rawHeader[2] ||| m.rawHeader[3] <<< 8 = 65535 - data.length := by
      rw [hget 2 (by decide), hget 3 (by decide)]
      exact bytes_toNat (by omega)
    dsimp only
    rw [hlow, hhigh, xor_complement hlen, if_neg (not_not.2 rfl)]
    rw [show silent (Bits.ofBytes ((lenBytes data).drop 4)) ++ r' = r' from rfl] at hr
    subst hr
    exact ⟨hist, r, [], h.frame rfl rfl rfl rfl rfl rfl, .storedBits rfl hin.aligned rfl hstored,
      cost_rank rfl (by rw [hrank]; exact Nat.lt_succ_self 7)⟩

/-- A byte of the length is read. -/
theorem InLength.byte (c : Call) (h : InLength zl pad sum m hist r) (hlt : m.counter < 4) :
    ∃ b : UInt8, ∃ r', r = silent (Bits.ofNat 8 b.toNat) ++ r' ∧
      ∀ m' : Machine, m'.counter = m.counter → m'.rawHeader = m.rawHeader → m'.zAdler32 = m.zAdler32 → m'.final = m.final →
        8 ∣ m'.numBits → m'.numBits ≤ m.numBits → m.numBits ≤ m'.numBits + 8 → Sync c m' hist r' [] →
          Good (Expect zl pad sum c.window) c (cost c m r []) (rawHeaderByte b.toNat m') := by
  obtain ⟨data, r', hlen, hr, hraw, tail, htail, hadler, hafter⟩ := h.rest
  have hlt' : m.counter < (lenBytes data).length := hlt
  refine ⟨(lenBytes data)[m.counter], silent (Bits.ofBytes ((lenBytes data).drop (m.counter + 1))) ++ r', ?_, ?_⟩
  · rw [hr, silent_drop_byte hlt', List.append_assoc]
  · intro m' hcount hraw' hz hfinal halign hle hge hsync
    unfold rawHeaderByte store
    rw [hcount, if_pos hlt]
    refine ⟨hist, _, [], hsync.frame rfl rfl rfl rfl rfl rfl, .rawHead rfl ⟨hlt, halign, data, r', hlen, rfl, ?_, tail, htail,
      hz ▸ hadler, hfinal ▸ hafter⟩, ?_⟩
    · show (m'.rawHeader.setIfInBounds m.counter _).toList.take (m.counter + 1) = _
      rw [hraw', Vector.toList_setIfInBounds, List.take_add_one, List.take_set_of_le (Nat.le_refl _), hraw,
        List.getElem?_set_self (by rwa [Vector.length_toList]), List.take_add_one (l := lenBytes data),
        List.getElem?_eq_getElem hlt', List.map_append]
      rfl
    · rw [hr, silent_drop_byte hlt', List.append_assoc]
      exact cost_silent (by simp) (by rw [Bits.length_ofNat]; exact hge)

theorem rawBits_good (hok : c.Ok) (h : Sync c m hist r []) (hstate : m.state = .rawBits) (hin : InLength zl pad sum m hist r)
    (hlt : m.counter < 4) (hbits : m.numBits ≠ 0) :
    Good (Expect zl pad sum c.window) c (cost c m r []) (getBits c.env 8 m rawHeaderByte) := by
  have hi : Expect zl pad sum c.window m hist r [] := .rawBits hstate hin hlt hbits
  obtain ⟨b, r', rfl, hnext⟩ := hin.byte c hlt
  refine getBits_good hok h hi (quiet_silent _) rfl (fun b input _ => ?_) fun v hn hsync => ?_
  · exact .rawBits hstate (hin.congr rfl ((Nat.dvd_add_right hin.aligned).2 (Nat.dvd_refl 8)) rfl rfl rfl) hlt
      (Nat.succ_ne_zero _)
  · rw [Deflate.output_silent] at hsync
    rw [Deflate.bits_silent, Bits.toNat_ofNat, Nat.mod_eq_of_lt b.toNat_lt]
    refine hnext _ rfl rfl rfl rfl (Nat.dvd_sub hin.aligned (Nat.dvd_refl 8)) (Nat.sub_le _ _) ?_ hsync
    show m.numBits ≤ m.numBits - 8 + 8
    omega

theorem rawByte_good (hok : c.Ok) (h : Sync c m hist r []) (hstate : m.state = .rawByte) (hin : InLength zl pad sum m hist r)
    (hlt : m.counter < 4) (hbits : m.numBits = 0) :
    Good (Expect zl pad sum c.window) c (cost c m r []) (getByte c.env m rawHeaderByte) := by
  have hi : Expect zl pad sum c.window m hist r [] := .rawByte hstate hin hlt hbits
  obtain ⟨b, r', rfl, hnext⟩ := hin.byte c hlt
  refine getByte_first hok h hi (quiet_silent _) hbits rfl fun b' input hb hsync => ?_
  rw [Deflate.bits_silent] at hb
  obtain rfl := Bits.byte_inj hb
  rw [Deflate.output_silent] at hsync
  exact hnext _ rfl rfl rfl rfl hin.aligned (Nat.le_refl _) (Nat.le_add_right _ _) hsync

/-! ## The data -/

theorem stepStoredBits_good {data : List UInt8} (h : Sync c m hist r []) (hstate : m.state = .storedBits)
    (halign : 8 ∣ m.numBits) (hcount : m.counter = data.length) (hin : InStored zl pad sum m hist data r) :
    Good (Expect zl pad sum c.window) c (cost c m r []) (stepStoredBits m) := by
  have hrank : m.rank c.env = 7 := by rw [Machine.rank, hstate]
  unfold stepStoredBits
  by_cases hgo : m.counter ≠ 0 ∧ m.numBits ≠ 0
  · rw [if_pos hgo]
    obtain ⟨b, data', rfl⟩ := List.exists_cons_of_ne_nil (List.ne_nil_of_length_pos (by omega : 0 < data.length))
    exact ⟨hist, r, [], h.frame rfl rfl rfl rfl rfl rfl, .storedGet rfl halign hcount hin,
      cost_rank rfl (by rw [hrank]; exact Nat.lt_of_sub_eq_succ rfl)⟩
  · rw [if_neg hgo]
    refine ⟨hist, r, [], h.frame rfl rfl rfl rfl rfl rfl, .storedBytes rfl ?_ hcount hin,
      cost_rank rfl (by rw [hrank]; exact Nat.lt_of_sub_eq_succ rfl)⟩
    show m.numBits = 0 ∨ data = []
    rw [← List.length_eq_zero_iff, ← hcount]
    omega

theorem storedGet_good (hok : c.Ok) {b : UInt8} {data : List UInt8} (h : Sync c m hist r []) (hstate : m.state = .storedGet)
    (halign : 8 ∣ m.numBits) (hcount : m.counter = (b :: data).length) (hin : InStored zl pad sum m hist (b :: data) r) :
    Good (Expect zl pad sum c.window) c (cost c m r []) (getBits c.env 8 m fun b m => .go { m with dist := b, state := .storedPut }) := by
  have hi : Expect zl pad sum c.window m hist r [] := .storedGet hstate halign hcount hin
  obtain ⟨tail, rfl, hadler, hafter⟩ := hin
  rw [encodeStored_cons, List.append_assoc] at h hi ⊢
  refine getBits_good hok h hi (quiet_emit _ _) rfl (fun b' input _ => ?_) fun v hn hsync => ?_
  · refine .storedGet hstate ((Nat.dvd_add_right halign).2 (Nat.dvd_refl 8)) hcount ⟨tail, ?_, hadler, hafter⟩
    rw [encodeStored_cons, List.append_assoc]
  · rw [output_byte] at hsync
    rw [Deflate.bits_emit, Bits.toNat_ofNat, Nat.mod_eq_of_lt b.toNat_lt]
    refine ⟨hist, encodeStored data ++ tail, [b], hsync.frame rfl rfl rfl rfl rfl rfl,
      .storedPut rfl (Nat.dvd_sub halign (Nat.dvd_refl 8)) hcount rfl ⟨tail, rfl, hadler, ?_⟩, cost_marks (by simp) ?_ ?_⟩
    · rwa [List.append_assoc]
    · show m.numBits ≤ m.numBits - 8 + (emit (Bits.ofNat 8 b.toNat) [b]).length
      rw [Deflate.length_emit, Bits.length_ofNat]
      omega
    · rw [output_byte]

theorem storedPut_good (hok : c.Ok) {b : UInt8} {data : List UInt8} (h : Sync c m hist r [b]) (hstate : m.state = .storedPut)
    (halign : 8 ∣ m.numBits) (hcount : m.counter = (b :: data).length) (hb : m.dist = b.toNat)
    (hin : InStored zl pad sum m (hist ++ [b]) data r) :
    Good (Expect zl pad sum c.window) c (cost c m r [b])
      (putByte c.env m (UInt8.ofNat m.dist) fun m => .go { m with counter := m.counter - 1, state := .storedBits }) := by
  have hi : Expect zl pad sum c.window m hist r [b] := .storedPut hstate halign hcount hb hin
  rw [hb, UInt8.ofNat_toNat]
  refine putByte_good hok h hi fun hsync => ?_
  refine ⟨hist ++ [b], r, [], hsync.frame rfl rfl rfl rfl rfl rfl, .storedBits rfl halign ?_ hin, cost_put rfl (Nat.succ_pos 0)⟩
  show m.counter - 1 = data.length
  rw [hcount, List.length_cons, Nat.add_sub_cancel]

theorem stepStoredBytes_good (hok : c.Ok) (hz : c.env.parseZlibHeader = zl) {data : List UInt8} (h : Sync c m hist r [])
    (hstate : m.state = .storedBytes) (hbits : m.numBits = 0 ∨ data = []) (hcount : m.counter = data.length)
    (hin : InStored zl pad sum m hist data r) :
    Good (Expect zl pad sum c.window) c (cost c m r []) (stepStoredBytes c.env m) := by
  have hrank : m.rank c.env = 5 := by rw [Machine.rank, hstate]
  unfold stepStoredBytes
  by_cases h0 : m.counter = 0
  · rw [if_pos h0]
    obtain rfl := List.length_eq_zero_iff.1 (hcount.symm.trans h0)
    obtain ⟨tail, rfl, hafter⟩ := hin
    rw [List.append_nil] at hafter
    refine endBlock_holds hok hz h hafter ?_
    rw [cost, hrank, List.length_nil, Nat.zero_add]
    exact Nat.lt_of_sub_eq_succ (Nat.add_sub_add_left ..)
  · rw [if_neg h0]
    have hne : data ≠ [] := fun hnil => h0 (by rw [hcount, hnil]; rfl)
    exact ⟨hist, r, [], h.frame rfl rfl rfl rfl rfl rfl, .storedOut rfl (hbits.resolve_right hne) hcount hne hin,
      cost_rank rfl (by rw [hrank]; exact Nat.lt_succ_self 4)⟩

theorem InStored.output_ne {data : List UInt8} (hin : InStored zl pad sum m hist data r) (hne : data ≠ []) : output r ≠ [] := by
  obtain ⟨tail, rfl, -⟩ := hin
  rw [Deflate.output_append, output_encodeStored]
  exact List.append_ne_nil_of_left_ne_nil hne _

theorem stepStoredOut_good {data : List UInt8} (h : Sync c m hist r []) (hstate : m.state = .storedOut) (hbits : m.numBits = 0)
    (hcount : m.counter = data.length) (hne : data ≠ []) (hin : InStored zl pad sum m hist data r) :
    Good (Expect zl pad sum c.window) c (cost c m r []) (stepStoredOut c.env m) := by
  have hrank : m.rank c.env = 4 := by rw [Machine.rank, hstate]
  unfold stepStoredOut
  by_cases hge : m.cur ≥ c.env.outBufEnd
  · rw [if_pos hge]
    exact ⟨hist, r, [], h, .storedOut hstate hbits hcount hne hin,
      .inr (.inr ⟨rfl, Nat.le_antisymm h.written.le hge, hin.output_ne hne⟩)⟩
  · rw [if_neg hge]
    refine ⟨hist, r, [], h.frame rfl rfl rfl rfl rfl rfl, .storedIn rfl hbits hcount hne hin, cost_rank rfl ?_⟩
    rw [hrank]
    show (if m.cur < c.env.outBufEnd then 3 else 6) < 4
    rw [if_pos (Nat.lt_of_not_le hge)]
    exact Nat.lt_succ_self 3

/-- `TINFL_MEMCPY(pOut_buf_cur, .., n)` -/
theorem Written.append (hok : c.Ok) {out : List UInt8} {cur : Nat} (bytes : List UInt8) (h : Written c out cur hist)
    (hle : cur + bytes.length ≤ c.env.outBufEnd) :
    Written c (out.take cur ++ (bytes ++ out.drop (cur + bytes.length))) (cur + bytes.length) (hist ++ bytes) := by
  induction bytes generalizing out cur hist with
  | nil =>
    rw [List.nil_append, List.length_nil, Nat.add_zero, List.take_append_drop, List.append_nil]
    exact h
  | cons b bytes ih =>
    rw [List.length_cons] at hle ⊢
    have hlen := h.length hok
    have hroom := hok.room
    have hnext := ih (h.set hok (by omega) b) (by omega)
    have htake : (out.set cur b).take (cur + 1) = out.take cur ++ [b] := by
      rw [List.take_add_one, List.take_set_of_le (Nat.le_refl _), List.getElem?_set_self (by omega)]
      rfl
    rw [htake, List.drop_set_of_lt (by omega)] at hnext
    rw [show cur + (bytes.length + 1) = cur + 1 + bytes.length by omega]
    rwa [List.append_assoc, List.append_assoc] at hnext

theorem stepStoredIn_good (hok : c.Ok) {data : List UInt8} (h : Sync c m hist r []) (hstate : m.state = .storedIn)
    (hbits : m.numBits = 0) (hcount : m.counter = data.length) (hne : data ≠ []) (hin : InStored zl pad sum m hist data r) :
    Good (Expect zl pad sum c.window) c (cost c m r []) (stepStoredIn c.env m) := by
  have hi : Expect zl pad sum c.window m hist r [] := .storedIn hstate hbits hcount hne hin
  obtain ⟨tail, rfl, hadler, hafter⟩ := hin
  have hdata : 0 < data.length := List.length_pos_iff.2 hne
  have hlong : data.length * 8 = (encodeStored data).length := by
    rw [← Deflate.length_bits, bits_encodeStored, Bits.length_ofBytes, Nat.mul_comm]
  unfold stepStoredIn
  by_cases hinput : m.input = []
  · have hahead := h.ahead
    rw [hinput] at hahead
    have hmarks : m.numBits < (encodeStored data ++ tail).length := by
      rw [List.length_append]
      omega
    have hmore := hahead.more hok hmarks
    rw [if_pos hinput, if_pos hmore]
    refine ⟨hist, _, [], h, hi, .inr (.inl ⟨rfl, hinput, hmore, hmarks, rfl, ?_⟩)⟩
    rw [hbits, List.take_zero]
    rfl
  · rw [if_neg hinput]
    have hle := h.written.le
    have hroom := hok.room
    have hlen := h.written.length hok
    generalize hn : min (min (c.env.outBufEnd - m.cur) m.input.length) m.counter = n
    rw [if_pos (by omega)]
    -- the next `n` bytes of the input are those of the data
    have hzero : m.bitBuf = 0 := by
      have := h.ahead.fits
      rw [hbits] at this
      exact Nat.lt_one_iff.1 this
    obtain ⟨junk, hjunk, hahead⟩ := h.ahead.ahead
    rw [hbits, Bits.ofNat, List.nil_append, Deflate.bits_append, bits_encodeStored] at hahead
    have hsplit : Bits.ofBytes (m.input.take n) ++ Bits.ofBytes (m.input.drop n ++ c.later) =
        Bits.ofBytes (data.take n) ++ (Bits.ofBytes (data.drop n) ++ bits tail ++ junk) := by
      rw [← Bits.ofBytes_append, ← List.append_assoc, List.take_append_drop, hahead, ← List.append_assoc,
        ← List.append_assoc, ← Bits.ofBytes_append, List.take_append_drop]
    obtain ⟨htake, hrest⟩ := List.append_inj hsplit (by
      rw [Bits.length_ofBytes, Bits.length_ofBytes, List.length_take, List.length_take]
      omega)
    have hbytes := Bits.ofBytes_inj htake
    have hcopied : (data.take n).length = n := by
      rw [List.length_take]
      omega
    have hmarks : encodeStored data = encodeStored (data.take n) ++ encodeStored (data.drop n) := by
      conv_lhs => rw [← List.take_append_drop n data]
      exact List.flatMap_append
    have hwritten := h.written.append hok (data.take n) (by omega)
    rw [hcopied, ← hbytes] at hwritten
    refine ⟨hist ++ data.take n, encodeStored (data.drop n) ++ tail, [], ⟨⟨?_, ⟨junk, hjunk, ?_⟩, ?_⟩, ?_, ?_, ?_, h.check⟩,
      .storedBytes rfl (.inl hbits) ?_ ⟨tail, rfl, hadler, ?_⟩, ?_⟩
    · show m.bitBuf < 2 ^ m.numBits
      exact h.ahead.fits
    · show Bits.ofNat m.numBits m.bitBuf ++ Bits.ofBytes (m.input.drop n ++ c.later) = _
      rw [hbits, Bits.ofNat, List.nil_append, hrest, Deflate.bits_append, bits_encodeStored]
    · exact (List.drop_suffix n m.input).trans h.ahead.suffix
    · rw [hbytes] at hwritten ⊢
      exact hwritten
    · refine List.IsSuffix.trans ?_ h.rest
      rw [hmarks, List.append_assoc]
      exact List.suffix_append _ _
    · rw [h.data, hmarks, List.append_assoc, Deflate.output_append, output_encodeStored]
      simp only [List.nil_append, List.append_assoc]
    · show m.counter - n = (data.drop n).length
      rw [List.length_drop, hcount]
    · rwa [List.append_assoc, List.take_append_drop]
    · by_cases h0 : n = 0
      · -- no room: back to the test of the loop, and from there out
        subst h0
        rw [List.drop_zero]
        refine cost_rank rfl ?_
        have hfull : ¬ m.cur < c.env.outBufEnd := by
          have : 0 < m.input.length := List.length_pos_iff.2 hinput
          omega
        rw [show m.rank c.env = 6 by rw [Machine.rank, hstate]; exact if_neg hfull]
        exact Nat.lt_succ_self 5
      · have hread : (encodeStored data ++ tail).length = 8 * n + (encodeStored (data.drop n) ++ tail).length := by
          rw [hmarks, List.append_assoc, List.length_append, ← Deflate.length_bits (encodeStored (data.take n)),
            bits_encodeStored, Bits.length_ofBytes, hcopied]
        refine cost_read ?_ ?_ ?_
        · omega
        · show _ + m.numBits ≤ _ + m.numBits
          omega
        · rw [hmarks, List.append_assoc, Deflate.output_append (encodeStored (data.take n)), List.length_append]
          omega

end Keynjector.Inflate
