import Keynjector.Inflate.Correct
import Keynjector.Inflate.Adler
import Keynjector.Opgp.Compressed
/-
# The inflater keeps its promise (tinfl.c:110-390, tinfl.h:40-60)

What the streams of opgp.c rely on holds of `tinfl_decompress`, for every deflate stream and
every zlib stream, however the input is cut and the output is taken, and whatever follows the
stream.

| here | there |
| --- | --- |
| `Body`    | the bytes of a stream |
| `Between` | the decompressor between two calls |
| `callOf`  | a call on the ring of opgp.c |
| `tinfl`   | `tinfl_init` and `tinfl_decompress`, as opgp.c calls them |
-/

namespace Keynjector.Inflate

open Deflate (Mark bits output silent Block ValidBlocks encodeBlocks)
open Opgp (TINFL_FLAG_HAS_MORE_INPUT TINFL_STATUS_DONE RingHolds Inflated Inflates)

/-- The bytes `body` are the stream `total`. -/
structure Body (zl : Bool) (pad : Nat) (sum : Vector UInt8 4) (body : List UInt8) (total : List Mark) : Prop where
  bits : Deflate.bits total = Bits.ofBytes body
  starts : ∀ (d : Core) (window : Nat), d.state = (if zl then .zhdr0 else .blockHead) → d.numBits = 0 → d.zAdler32 = 1 →
    Expect zl pad sum window d [] total []

variable {zl : Bool} {pad : Nat} {sum : Vector UInt8 4} {body rest input ring hist : List UInt8} {total r : List Mark} {pending : List UInt8}
  {d : Decompressor} {m : Machine} {i o next avail flags : Nat}

theorem Body.length (h : Body zl pad sum body total) : total.length = 8 * body.length := by
  rw [← Deflate.length_bits, h.bits, Bits.length_ofBytes]

theorem raw_body (sum : Vector UInt8 4) {blocks : List Block} (hne : blocks ≠ []) (hv : ValidBlocks [] blocks)
    (hbits : bits (Deflate.raw pad blocks) = Bits.ofBytes body) : Body false pad sum body (Deflate.raw pad blocks) := by
  refine ⟨hbits, fun d _ hstate hnum hadler => .blockHead hstate ⟨hadler, blocks, hne, 0, ?_, hv, ?_⟩⟩
  · rw [Deflate.raw]
    congr 1
    funext pos
    exact (List.append_nil _).symm
  · rw [Nat.zero_add, ← Deflate.length_bits, hbits, Bits.length_ofBytes]
    exact Nat.dvd_mul_right 8 _

theorem zlib_body {cmf flg : UInt8} {blocks : List Block} (hgood : GoodHeader cmf flg) (hne : blocks ≠ [])
    (hv : ValidBlocks [] blocks) (hbits : bits (Deflate.zlib cmf flg pad sum blocks) = Bits.ofBytes body) :
    Body true pad sum body (Deflate.zlib cmf flg pad sum blocks) := by
  refine ⟨hbits, fun d _ hstate hnum hadler => .zhdr0 hstate hnum rfl hgood ⟨hadler, blocks, hne, 16, rfl, hv, ?_⟩⟩
  have hlen := congrArg List.length hbits
  rw [Deflate.length_bits, Deflate.zlib, List.length_append, Deflate.length_silent, Bits.length_ofBytes, Bits.length_ofBytes] at hlen
  exact ⟨body.length, hlen⟩

/-- The decompressor when `i` bytes of input and `o` of output are through. -/
structure Between (zl : Bool) (pad : Nat) (sum : Vector UInt8 4) (window : Nat) (body : List UInt8) (total : List Mark)
    (d : Decompressor) (i o : Nat) (hist : List UInt8) (r : List Mark) (pending : List UInt8) : Prop where
  expect : Expect zl pad sum window d.toCore hist r pending
  length : hist.length = o
  fits : d.bitBuf < 2 ^ d.numBits
  ahead : ∃ junk, junk.length = 8 * (i - body.length) ∧
    Bits.ofNat d.numBits d.bitBuf ++ Bits.ofBytes (body.drop i) = bits r ++ junk
  rest : r <:+ total
  data : output total = hist ++ (pending ++ output r)
  check : zl = true → d.checkAdler32 = adlerValue hist

/-- Before the first call, or between two -/
def At (zl : Bool) (pad : Nat) (sum : Vector UInt8 4) (window : Nat) (body : List UInt8) (total : List Mark) (d : Decompressor)
    (i o : Nat) : Prop :=
  d.state = .start ∧ i = 0 ∧ o = 0 ∨ ∃ hist r pending, Between zl pad sum window body total d i o hist r pending

/-! ## A call -/

/-- `TINFL_FLAG_HAS_MORE_INPUT`, `TINFL_FLAG_USING_NON_WRAPPING_OUTPUT_BUF` and `TINFL_FLAG_PARSE_ZLIB_HEADER` -/
def callFlags (more whole zl : Bool) : Nat :=
  (if more then TINFL_FLAG_HAS_MORE_INPUT else 0) ||| (if whole then TINFL_FLAG_USING_NON_WRAPPING_OUTPUT_BUF else 0) |||
    if zl then TINFL_FLAG_PARSE_ZLIB_HEADER else 0

theorem callFlags_spec (more whole zl : Bool) (mask stop : Nat) :
    Env.hasMoreInput ⟨callFlags more whole zl, mask, stop⟩ = more ∧
      Env.nonWrapping ⟨callFlags more whole zl, mask, stop⟩ = whole ∧ Env.parseZlibHeader ⟨callFlags more whole zl, mask, stop⟩ = zl ∧
        (callFlags more whole zl &&& (TINFL_FLAG_PARSE_ZLIB_HEADER ||| TINFL_FLAG_COMPUTE_ADLER32) ≠ 0 ↔ zl = true) := by
  unfold callFlags Env.hasMoreInput Env.nonWrapping Env.parseZlibHeader TINFL_FLAG_HAS_MORE_INPUT TINFL_FLAG_PARSE_ZLIB_HEADER
    TINFL_FLAG_USING_NON_WRAPPING_OUTPUT_BUF TINFL_FLAG_COMPUTE_ADLER32
  cases more <;> cases whole <;> cases zl <;> simp

/-- A call that may follow: no more input is promised only when the stream ends in what is passed. The buffer holds all
the output, or is a ring up to the end of the room in it. -/
structure Follows (more whole : Bool) (window : Nat) (body input ring : List UInt8) (i o next avail : Nat) : Prop where
  ends : more = false → body.length ≤ i + input.length
  room : next + avail ≤ ring.length
  flat : whole = true → window = 2 ^ 32 ∧ next = o ∧ next + avail ≤ 2 ^ 32
  wrap : whole = false → window = next + avail ∧ next % window = o % window ∧ ∃ k < 32, 15 ≤ k ∧ window = 2 ^ k

/-- The last `window` bytes of `o` bytes of output are in the buffer. -/
def Holding (window : Nat) (ring out : List UInt8) (o : Nat) : Prop :=
  ∀ j < o, o ≤ j + window → ring[j % window]? = out[j]?

theorem Follows.power {more whole : Bool} {window : Nat} (h : Follows more whole window body input ring i o next avail) :
    ∃ k ≤ 32, 15 ≤ k ∧ window = 2 ^ k := by
  cases whole with
  | false =>
    obtain ⟨-, -, k, hk, hlow, hwindow⟩ := h.wrap rfl
    exact ⟨k, hk.le, hlow, hwindow⟩
  | true => exact ⟨32, Nat.le_refl _, by decide, (h.flat rfl).1⟩

theorem Follows.le {more whole : Bool} {window : Nat} (h : Follows more whole window body input ring i o next avail) :
    next + avail ≤ window := by
  cases whole with
  | false => exact (h.wrap rfl).1.ge
  | true =>
    rw [(h.flat rfl).1]
    exact (h.flat rfl).2.2

theorem Follows.mod {more whole : Bool} {window : Nat} (h : Follows more whole window body input ring i o next avail) :
    next % window = o % window := by
  cases whole with
  | false => exact (h.wrap rfl).2.1
  | true => rw [(h.flat rfl).2.1]

def callOf (flags window check : Nat) (body rest input ring : List UInt8) (total : List Mark) (i o next avail : Nat) : Call where
  env := ⟨flags, window - 1, next + avail⟩
  input := input
  later := ((body ++ rest).drop i).drop input.length
  slack := 8 * (i - body.length) + 8 * (rest.drop (i - body.length)).length
  out := ring
  next := next
  start := o
  check := check
  window := window
  total := total

variable {check window : Nat} {more whole : Bool}

theorem input_later {n : Nat} (hinput : input = ((body ++ rest).drop i).take n) :
    input ++ ((body ++ rest).drop i).drop input.length = (body ++ rest).drop i := by
  have hpref : input <+: (body ++ rest).drop i := hinput ▸ List.take_prefix n _
  conv_rhs => rw [← List.take_append_drop input.length ((body ++ rest).drop i)]
  rw [← List.prefix_iff_eq_take.1 hpref]

theorem callOf_ok (hlen : total.length = 8 * body.length) (h : Follows more whole window body input ring i o next avail) :
    (callOf (callFlags more whole zl) window check body rest input ring total i o next avail).Ok := by
  obtain ⟨hmore, hwhole, -, -⟩ := callFlags_spec more whole zl (window - 1) (next + avail)
  refine ⟨rfl, h.power, h.le, h.room, fun hno => ?_, fun hyes => ?_, fun hno => ?_, ?_⟩
  · have hends := h.ends (hmore.symm.trans hno)
    show 8 * (((body ++ rest).drop i).drop input.length).length ≤ 8 * (i - body.length) + 8 * (rest.drop (i - body.length)).length
    rw [List.length_drop, List.length_drop, List.length_append, List.length_drop]
    omega
  · exact (h.flat (hwhole.symm.trans hyes)).2.1
  · obtain ⟨-, -, k, hk, -, hwindow⟩ := h.wrap (hwhole.symm.trans hno)
    show window < 2 ^ 32
    rw [hwindow]
    exact Nat.pow_lt_pow_right (by decide) hk
  · show 8 ∣ total.length ∧ 8 ∣ 8 * (i - body.length) + 8 * (rest.drop (i - body.length)).length
    exact ⟨⟨_, hlen⟩, ⟨_, (Nat.mul_add ..).symm⟩⟩

/-- What the buffer holds before the call -/
theorem written_start {flags : Nat} (h : Follows more whole window body input ring i o next avail)
    (hholds : Holding window ring (output total) o) (hpref : hist <+: output total) (hlen : hist.length = o) :
    Written (callOf flags window check body rest input ring total i o next avail) ring next hist := by
  refine ⟨hlen.ge, ?_, (Nat.le_add_right next avail), ?_, ?_, fun j hj hback => ?_⟩
  · show next + o = next + hist.length
    rw [hlen]
  · show ring = ring.take next ++ (hist.drop o ++ ring.drop next)
    rw [List.drop_eq_nil_of_le hlen.le, List.nil_append, List.take_append_drop]
  · show next % window = hist.length % window
    rw [hlen, h.mod]
  · rw [hlen] at hj hback
    have := hholds j hj hback
    show ring[j % window]? = _
    rw [this]
    obtain ⟨more, hmore⟩ := hpref
    rw [← hmore, List.getElem?_append_left (by omega)]

theorem Between.sync {flags : Nat} (hb : Between zl pad sum window body total d i o hist r pending)
    (h : Follows more whole window body input ring i o next avail) (hholds : Holding window ring (output total) o) {n : Nat}
    (hinput : input = ((body ++ rest).drop i).take n) :
    Sync (callOf flags window d.checkAdler32 body rest input ring total i o next avail) ⟨d, input, ring, next⟩ hist r pending := by
  refine ⟨⟨hb.fits, ?_, List.suffix_refl _⟩, written_start h hholds ⟨_, hb.data.symm⟩ hb.length, hb.rest, hb.data, rfl⟩
  obtain ⟨junk, hjunk, hahead⟩ := hb.ahead
  refine ⟨junk ++ Bits.ofBytes (rest.drop (i - body.length)), ?_, ?_⟩
  · rw [List.length_append, Bits.length_ofBytes, hjunk]
    rfl
  · show Bits.ofNat d.numBits d.bitBuf ++ Bits.ofBytes (input ++ ((body ++ rest).drop i).drop input.length) = _
    rw [input_later hinput, List.drop_append, Bits.ofBytes_append, ← List.append_assoc, hahead, List.append_assoc]

/-- The bits behind the stream after a call -/
theorem Sync.junk (h : Sync (callOf flags window check body rest input ring total i o next avail) m hist r pending) {n : Nat}
    (hinput : input = ((body ++ rest).drop i).take n) :
    ∃ junk, junk.length = 8 * (i + (input.length - m.input.length) - body.length) ∧
      Bits.ofNat m.numBits m.bitBuf ++ Bits.ofBytes (body.drop (i + (input.length - m.input.length))) = bits r ++ junk := by
  obtain ⟨junk, hjunk, hahead⟩ := h.ahead.ahead
  have hlength := h.ahead.length
  obtain ⟨used, hused⟩ : m.input <:+ input := h.ahead.suffix
  have hle : m.input.length ≤ input.length := (h.ahead.suffix : m.input <:+ input).length_le
  generalize hi' : i + (input.length - m.input.length) = i' at *
  have hlater : m.input ++ ((body ++ rest).drop i).drop input.length = body.drop i' ++ rest.drop (i' - body.length) := by
    have hall := congrArg (List.drop used.length) (input_later hinput)
    rw [← hused, List.append_assoc, List.drop_left, hused] at hall
    have hcount : i + used.length = i' := by
      have := congrArg List.length hused
      rw [List.length_append] at this
      omega
    rw [hall, List.drop_drop, hcount, List.drop_append]
  have hfetched : input.length ≤ (body ++ rest).length - i := by
    rw [hinput, List.length_take, List.length_drop]
    exact Nat.min_le_right _ _
  rw [List.length_append] at hfetched
  have hjunk' : junk.length = 8 * (i' - body.length) + 8 * (rest.length - (i' - body.length)) := by
    rw [hjunk]
    show 8 * (i - body.length) + 8 * (rest.drop (i - body.length)).length = _
    rw [List.length_drop]
    omega
  refine ⟨junk.take (8 * (i' - body.length)), ?_, ?_⟩
  · rw [List.length_take]
    omega
  · have hsplit : Bits.ofNat m.numBits m.bitBuf ++ Bits.ofBytes (body.drop i') ++ Bits.ofBytes (rest.drop (i' - body.length)) =
        bits r ++ junk.take (8 * (i' - body.length)) ++ junk.drop (8 * (i' - body.length)) := by
      rw [List.append_assoc (bits r), List.take_append_drop, ← hahead, List.append_assoc, ← Bits.ofBytes_append, ← hlater]
      rfl
    refine (List.append_inj' hsplit ?_).1
    rw [Bits.length_ofBytes, List.length_drop, List.length_drop]
    omega

/-! ## The end of a call -/

/-- The status at the end of a stream of `data` -/
def endStatus (zl : Bool) (sum : Vector UInt8 4) (data : List UInt8) : Int :=
  if zl = true ∧ sum ≠ Deflate.adlerBytes data then TINFL_STATUS_ADLER32_MISMATCH else TINFL_STATUS_DONE

/-- The status of a call, where the end of the stream has the status `last` -/
def ended (last status : Int) : Int := if status = TINFL_STATUS_DONE then last else status

theorem commonExit_good {e : Env}
    (hflags : e.flags &&& (TINFL_FLAG_PARSE_ZLIB_HEADER ||| TINFL_FLAG_COMPUTE_ADLER32) ≠ 0 ↔ zl = true) {status : Int}
    (hparse : e.parseZlibHeader = zl) (hstatus : status ≥ 0) {data : List UInt8}
    (hvalue : zl = true → updateAdler m.checkAdler32 ((m.out.drop next).take (m.cur - next)) = adlerValue data)
    (hdone : zl = true → status = TINFL_STATUS_DONE → m.zAdler32 = beNat sum.toList) :
    ∃ d' : Decompressor, commonExit e next status m = (ended (endStatus zl sum data) status, d') ∧ d'.toCore = m.toCore ∧
      (zl = true → d'.checkAdler32 = adlerValue data) := by
  unfold commonExit
  by_cases hz : zl = true
  · rw [if_pos ⟨hflags.2 hz, hstatus⟩, hvalue hz, hparse]
    refine ⟨_, Prod.ext ?_ rfl, rfl, fun _ => rfl⟩
    dsimp only [ended, endStatus]
    by_cases hend : status = TINFL_STATUS_DONE
    · have hiff : adlerValue data ≠ m.zAdler32 ↔ sum ≠ Deflate.adlerBytes data := by
        rw [hdone hz hend, ← beNat_adlerBytes]
        exact not_congr ⟨fun heq => (beNat_inj heq).symm, fun heq => by rw [heq]⟩
      rw [if_pos hend]
      simp only [hend, hz, hiff, true_and]
    · rw [if_neg hend, if_neg fun h => hend h.1]
  · have hright : ¬ (zl = true ∧ sum ≠ Deflate.adlerBytes data) := fun h => hz h.1
    rw [if_neg (fun h => hz (hflags.1 h.1)), endStatus, if_neg hright, ended]
    refine ⟨_, ?_, rfl, fun h => absurd h hz⟩
    by_cases hend : status = TINFL_STATUS_DONE
    · rw [if_pos hend, hend]
    · rw [if_neg hend]

/-- The output that the first `i` bytes of the stream determine -/
def coded (total : List Mark) (i : Nat) : Nat := (output (total.take (8 * i))).length

theorem coded_mono (total : List Mark) : Monotone (coded total) := by
  intro i j hij
  have hpref : total.take (8 * i) <+: total.take (8 * j) := List.take_prefix_take_left (Nat.mul_le_mul_left 8 hij)
  obtain ⟨more, hmore⟩ := hpref
  unfold coded
  rw [← hmore, Deflate.output_append, List.length_append]
  exact Nat.le_add_right _ _

/-- What was put out in a call -/
theorem Sync.written_bytes (h : Sync (callOf flags window check body rest input ring total i o next avail) m hist r pending)
    (hroom : next + avail ≤ ring.length) :
    (m.out.drop next).take (m.cur - next) = hist.drop o ∧ m.cur - next = hist.length - o := by
  have hkept : m.out = ring.take next ++ (hist.drop o ++ ring.drop m.cur) := h.written.kept
  have hpos : m.cur + o = next + hist.length := h.written.pos
  have hstart : o ≤ hist.length := h.written.start
  have hcount : m.cur - next = hist.length - o := by omega
  refine ⟨?_, hcount⟩
  rw [hkept, List.drop_left' (by rw [List.length_take]; omega), hcount, List.take_left' List.length_drop]

/-- `tinfl_init` on memory that held `garbage`, and `tinfl_decompress` -/
def tinfl (fuel : Nat) (garbage : Decompressor) : Opgp.Tinfl where
  State := Decompressor
  init := { garbage with state := .start }
  decompress r input out next avail flags :=
    (tinflDecompress fuel r input out next avail flags).getD (TINFL_STATUS_FAILED, 0, 0, r, out)

variable {fuel : Nat} {garbage : Decompressor}

theorem Expect.of_done {window : Nat} {d : Core} (h : Expect zl pad sum window d hist r pending) (hdone : d.state = .done) :
    pending = [] ∧ r.length < 8 ∧ output r = [] ∧ (zl = true → d.zAdler32 = beNat sum.toList) := by
  cases h with
  | done _ hlt hout hadler => exact ⟨rfl, hlt, hout, hadler⟩
  | zhdr0 h | zhdr1 h | blockHead h | rawHead h | rawBits h | rawByte h | storedBits h | storedGet h | storedPut h | storedBytes h
  | storedOut h | storedIn h | tableSizes h | codeSizes h | buildSizes h | buildDist h | buildLit h | buildDone h | lenCode h
  | lenFill h | lenRepeat h | symbol h | symbolFill h | symbolPut h | lengthExtra h | distance h | distFill h | distExtra h
  | copyLoop h | copyPut h | adler h | adlerBits h | adlerByte h => exact absurd (h.symm.trans hdone) (by decide)

/-- What is put out is determined by what was read. -/
theorem coded_of_rest (hrest : r <:+ total) (hdata : output total = hist ++ output r) {k : Nat}
    (hk : 8 * i + r.length = total.length + k) (hquiet : output (r.take k) = []) : coded total i = hist.length := by
  obtain ⟨front, rfl⟩ := hrest
  rw [Deflate.output_append] at hdata
  have hfront : output front = hist := List.append_cancel_right hdata
  rw [List.length_append] at hk
  have htake : (front ++ r).take (8 * i) = front ++ r.take k := by
    rw [List.take_append, List.take_of_length_le (by omega), show 8 * i - front.length = k by omega]
  rw [coded, htake, Deflate.output_append, hquiet, List.append_nil, hfront]

/-- A call returns with a decompressor that goes on where it stopped. -/
theorem Sync.returned
    (h : Sync (callOf (callFlags more whole zl) window check body rest input ring total i o next avail) m hist r pending)
    (hi : Expect zl pad sum window m hist r pending) {status : Int}
    (hret : Returns (callOf (callFlags more whole zl) window check body rest input ring total i o next avail) status m r pending)
    (hlen : total.length = 8 * body.length) (hroom : next + avail ≤ ring.length) {n : Nat}
    (hinput : input = ((body ++ rest).drop i).take n) (hcheck : zl = true → check = adlerValue ((output total).take o)) :
    ∃ d', commonExit ⟨callFlags more whole zl, window - 1, next + avail⟩ next status m =
        (ended (endStatus zl sum (output total)) status, d') ∧
      Inflated (τ := tinfl fuel garbage) body (output total) (coded total) (At zl pad sum window body total) i o input ring next
        avail (status, input.length - m.input.length, m.cur - next, d', m.out) := by
  obtain ⟨hbytes, hcount⟩ := h.written_bytes hroom
  obtain ⟨junk, hjunk, hahead⟩ := h.junk hinput
  have hstart : o ≤ hist.length := h.written.start
  have hpref : hist <+: output total := ⟨_, h.data.symm⟩
  have hall : o + (m.cur - next) = hist.length := by omega
  have hvalue : zl = true → updateAdler m.checkAdler32 ((m.out.drop next).take (m.cur - next)) = adlerValue hist := by
    intro hz
    have htake : (output total).take o = hist.take o := by
      rw [List.prefix_iff_eq_take.1 hpref, List.take_take, Nat.min_eq_left hstart]
    rw [h.check, hbytes]
    show updateAdler check _ = _
    rw [hcheck hz, updateAdler_append, htake, List.take_append_drop]
  have hnonneg : status ≥ 0 := by
    rcases hret with ⟨rfl, -⟩ | ⟨rfl, -⟩ | ⟨rfl, -⟩ <;> decide
  have hstate : status = TINFL_STATUS_DONE → m.state = .done := by
    rintro rfl
    rcases hret with ⟨-, hstate⟩ | ⟨hcon, -⟩ | ⟨hcon, -⟩
    · exact hstate
    · exact absurd hcon (by decide)
    · exact absurd hcon (by decide)
  obtain ⟨-, -, hparse, hcompute⟩ := callFlags_spec more whole zl (window - 1) (next + avail)
  obtain ⟨d', hexit, hcore, hd'⟩ := commonExit_good (e := ⟨callFlags more whole zl, window - 1, next + avail⟩) hcompute hparse
    hnonneg hvalue fun hz hend => (hi.of_done (hstate hend)).2.2.2 hz
  have hend : ended (endStatus zl sum hist) status = ended (endStatus zl sum (output total)) status := by
    unfold ended
    by_cases hdone : status = TINFL_STATUS_DONE
    · obtain ⟨rfl, -, hout, -⟩ := hi.of_done (hstate hdone)
      have hdata : output total = hist ++ ([] ++ output r) := h.data
      rw [hdata, hout, List.nil_append, List.append_nil]
    · rw [if_neg hdone, if_neg hdone]
  rw [hend] at hexit
  have hcur : m.cur ≤ next + avail := h.written.le
  have hmiddle : hist.drop o = ((output total).drop o).take (m.cur - next) := by
    conv_lhs => rw [List.prefix_iff_eq_take.1 hpref]
    rw [hcount, List.drop_take]
  have hnum := congrArg List.length hahead
  rw [List.length_append, List.length_append, Bits.length_ofNat, Bits.length_ofBytes, List.length_drop, Deflate.length_bits, hjunk] at hnum
  have hpast : m.input.length ≤ input.length := (h.ahead.suffix : m.input <:+ input).length_le
  have hrest := h.rest
  have hdata := h.data
  dsimp only [callOf] at hrest hdata
  generalize hi' : i + (input.length - m.input.length) = i' at hjunk hahead hnum
  refine ⟨d', hexit, Nat.sub_le _ _, by dsimp only; omega, by dsimp only; rw [hall]; exact hpref.length_le, ?_, ?_, ?_⟩
  · rw [hi']
    refine .inr ⟨hist, r, pending, hcore ▸ hi, hall.symm, ?_, ⟨junk, hjunk, ?_⟩, hrest, hdata, hd'⟩
    · rw [hcore]
      exact h.ahead.fits
    · rw [hcore]
      exact hahead
  · show m.out = ring.take next ++ (((output total).drop o).take (m.cur - next) ++ ring.drop (next + (m.cur - next)))
    have hnext : next ≤ m.cur := h.written.next_le
    rw [← hmiddle, Nat.add_sub_cancel' hnext]
    exact h.written.kept
  · dsimp only
    rw [hall, hi']
    rcases hret with ⟨rfl, hlast⟩ | ⟨rfl, hnil, -, hlt, rfl, hquiet⟩ | ⟨rfl, hfull, hdue⟩
    · obtain ⟨rfl, hshort, hout, -⟩ := hi.of_done hlast
      refine .inl ⟨rfl, ?_, by omega⟩
      rw [hdata, hout, List.nil_append, List.append_nil]
    · refine .inr (.inl ⟨rfl, by rw [hnil, List.length_nil, Nat.sub_zero], by omega, ?_⟩)
      refine (coded_of_rest hrest hdata (k := m.numBits) ?_ hquiet).symm
      rw [hlen]
      omega
    · refine .inr (.inr ⟨rfl, ?_, ?_⟩)
      · rw [hfull]
        exact Nat.add_sub_cancel_left next avail
      · rw [hdata, List.length_append]
        exact Nat.lt_add_of_pos_right (List.length_pos_iff.2 hdue)

/-! ## The promise -/

/-- The decompressor starts in front of the stream. -/
theorem Body.begin (hB : Body zl pad sum body total) (hd : d.state = .start) (e : Env) (hz : e.parseZlibHeader = zl) (fuel : Nat)
    (input ring : List UInt8) (next window : Nat) :
    ∃ d1 : Decompressor, Between zl pad sum window body total d1 0 0 [] total [] ∧
      run e (fuel + 1) ⟨d, input, ring, next⟩ = run e fuel ⟨d1, input, ring, next⟩ := by
  let d1 : Decompressor := { d with
    bitBuf := 0, numBits := 0, dist := 0, counter := 0, numExtra := 0, zhdr0 := 0, zhdr1 := 0
    zAdler32 := 1, checkAdler32 := 1
    state := if e.parseZlibHeader then .zhdr0 else .blockHead }
  refine ⟨d1, ⟨hB.starts _ _ ?_ rfl rfl, rfl, Nat.one_pos, ⟨[], ?_, ?_⟩, List.suffix_refl _, rfl, fun _ => rfl⟩, ?_⟩
  · show (if e.parseZlibHeader = true then Label.zhdr0 else Label.blockHead) = _
    rw [hz]
  · rw [Nat.zero_sub]
    rfl
  · rw [List.append_nil, hB.bits]
    rfl
  · have hstep : step e ⟨d, input, ring, next⟩ = .go ⟨d1, input, ring, next⟩ := by
      rw [step, hd]
    rw [run, hstep]

theorem Between.cost_le (hb : Between zl pad sum window body total d i o hist r pending) (hlen : total.length = 8 * body.length)
    (c : Call) (input ring : List UInt8) (next : Nat) :
    cost c ⟨d, input, ring, next⟩ r pending < 32 * (16 * body.length + (output total).length + 25) := by
  have hrank := Machine.rank_lt c.env ⟨d, input, ring, next⟩
  have hr := hb.rest.length_le
  have hout := congrArg List.length hb.data
  rw [List.length_append, List.length_append] at hout
  unfold cost
  omega

theorem Between.call (hb : Between zl pad sum window body total d i o hist r pending) (hlen : total.length = 8 * body.length)
    (hf : Follows more whole window body input ring i o next avail) (hholds : Holding window ring (output total) o) {n : Nat}
    (hinput : input = ((body ++ rest).drop i).take n) {steps : Nat}
    (hsteps : 32 * (16 * body.length + (output total).length + 25) ≤ steps) :
    ∃ status m d', run ⟨callFlags more whole zl, window - 1, next + avail⟩ steps ⟨d, input, ring, next⟩ = some (status, m) ∧
      commonExit ⟨callFlags more whole zl, window - 1, next + avail⟩ next status m =
          (ended (endStatus zl sum (output total)) status, d') ∧
        Inflated (τ := tinfl fuel garbage) body (output total) (coded total) (At zl pad sum window body total) i o input ring next
          avail (status, input.length - m.input.length, m.cur - next, d', m.out) := by
  obtain ⟨-, -, hz, -⟩ := callFlags_spec more whole zl (window - 1) (next + avail)
  have hok : (callOf (callFlags more whole zl) window d.checkAdler32 body rest input ring total i o next avail).Ok :=
    callOf_ok hlen hf
  have hsync : Sync (callOf (callFlags more whole zl) window d.checkAdler32 body rest input ring total i o next avail)
      ⟨d, input, ring, next⟩ hist r pending := hb.sync hf hholds hinput
  obtain ⟨status, m, hist', r', pending', hrun, hsync', hexpect, hreturns⟩ :=
    run_good hok hz hsync hb.expect ((hb.cost_le hlen _ input ring next).trans_le hsteps)
  have hcheck : zl = true → d.checkAdler32 = adlerValue ((output total).take o) := by
    intro hzl
    rw [hb.check hzl, ← hb.length, hb.data, List.take_left]
  obtain ⟨d', hexit, hinflated⟩ := hsync'.returned hexpect hreturns hlen hf.room hinput hcheck
  exact ⟨status, m, d', hrun, hexit, hinflated⟩

/-- The mask that `tinfl_decompress` works with, and its test that the buffer has a size it can work with -/
theorem Follows.mask (zl : Bool) (h : Follows more whole window body input ring i o next avail) :
    (if callFlags more whole zl &&& TINFL_FLAG_USING_NON_WRAPPING_OUTPUT_BUF ≠ 0 then 2 ^ 32 - 1
      else (((next : Int) + avail - 1) % 2 ^ 32).toNat) = window - 1 ∧
    (window - 1 + 1) % 2 ^ 32 &&& (window - 1) = 0 := by
  have hflag : decide (callFlags more whole zl &&& TINFL_FLAG_USING_NON_WRAPPING_OUTPUT_BUF ≠ 0) = whole :=
    (callFlags_spec more whole zl 0 0).2.1
  obtain ⟨k, hk, hlow, hwindow⟩ := h.power
  have hpos : 0 < window := hwindow ▸ Nat.two_pow_pos k
  constructor
  · cases whole with
    | true =>
      rw [if_pos (of_decide_eq_true hflag), (h.flat rfl).1]
    | false =>
      obtain ⟨hroom, -, j, hj, -, hj'⟩ := h.wrap rfl
      have hlt : window < 2 ^ 32 := hj' ▸ Nat.pow_lt_pow_right (by decide) hj
      rw [if_neg (of_decide_eq_false hflag)]
      omega
  · rw [Nat.sub_add_cancel hpos, hwindow, Nat.and_two_pow_sub_one_eq_mod]
    have hdvd : 2 ^ k ∣ 2 ^ 32 := Nat.pow_dvd_pow 2 hk
    rw [Nat.mod_mod_of_dvd _ hdvd, Nat.mod_self]

theorem tinfl_call (garbage : Decompressor) (h : Follows more whole window body input ring i o next avail)
    {status status' : Int} {d' : Decompressor}
    (hrun : run ⟨callFlags more whole zl, window - 1, next + avail⟩ fuel ⟨d, input, ring, next⟩ = some (status, m))
    (hexit : commonExit ⟨callFlags more whole zl, window - 1, next + avail⟩ next status m = (status', d')) :
    (tinfl fuel garbage).decompress d input ring next avail (callFlags more whole zl) =
      (status', input.length - m.input.length, m.cur - next, d', m.out) := by
  obtain ⟨hmask, hpower⟩ := h.mask zl
  have hgood : ¬ ((window - 1 + 1) % 2 ^ 32 &&& (window - 1) ≠ 0 ∨ (next : Int) < 0) := by
    rintro (hcon | hneg)
    · exact hcon hpower
    · omega
  unfold tinfl tinflDecompress
  dsimp only
  rw [hmask, if_neg hgood, Int.toNat_natCast, hrun]
  dsimp only
  rw [hexit]
  rfl

/-- Any call that may follow, on a stream with any checksum, whatever follows it -/
theorem tinfl_follows (hB : Body zl pad sum body total) (hfuel : 32 * (16 * body.length + (output total).length + 25) < fuel)
    (hat : At zl pad sum window body total d i o) (h : Follows more whole window body input ring i o next avail)
    (hholds : Holding window ring (output total) o) {n : Nat} (hinput : input = ((body ++ rest).drop i).take n) :
    ∃ status, Inflated (τ := tinfl fuel garbage) body (output total) (coded total) (At zl pad sum window body total) i o input ring
        next avail (status, ((tinfl fuel garbage).decompress d input ring next avail (callFlags more whole zl)).2) ∧
      ((tinfl fuel garbage).decompress d input ring next avail (callFlags more whole zl)).1 =
        ended (endStatus zl sum (output total)) status := by
  obtain ⟨fuel, rfl⟩ := Nat.exists_eq_add_of_lt hfuel
  rcases hat with ⟨hstate, rfl, rfl⟩ | ⟨hist, r, pending, hb⟩
  · obtain ⟨d1, hb, hrun⟩ := hB.begin hstate ⟨callFlags more whole zl, window - 1, next + avail⟩
      (callFlags_spec more whole zl _ _).2.2.1 (32 * (16 * body.length + (output total).length + 25) + fuel) input ring next window
    obtain ⟨status, m, d', hrun1, hexit, hinflated⟩ := hb.call hB.length h hholds hinput (Nat.le_add_right _ fuel)
    have hcall := tinfl_call garbage h (hrun.trans hrun1) hexit
    exact ⟨status, Eq.mp (congrArg (fun r => Inflated body _ _ _ _ _ _ _ _ _ (status, r.2)) hcall.symm) hinflated,
      congrArg Prod.fst hcall⟩
  · obtain ⟨status, m, d', hrun, hexit, hinflated⟩ := hb.call hB.length h hholds hinput (Nat.le_of_lt hfuel)
    have hcall := tinfl_call garbage h hrun hexit
    exact ⟨status, Eq.mp (congrArg (fun r => Inflated body _ _ _ _ _ _ _ _ _ (status, r.2)) hcall.symm) hinflated,
      congrArg Prod.fst hcall⟩

/-! ## On the ring of opgp.c -/

/-- The inflater inflates `body`, as `Inflates` says, but for the status at the end, which is `last`. -/
structure Unpacks (last : Int) (τ : Opgp.Tinfl) (flags : Nat) (body out : List UInt8) (coded : Nat → Nat)
    (At : τ.State → Nat → Nat → Prop) : Prop where
  init : At τ.init 0 0
  call : ∀ (rest input ring : List UInt8) (d : τ.State) (i o m next avail : Nat),
    At d i o → input = ((body ++ rest).drop i).take m → (input = [] → body.length ≤ i) → RingHolds ring out o →
    next + avail = Opgp.Z_OUT_BUF_SIZE → next % Opgp.Z_OUT_BUF_SIZE = o % Opgp.Z_OUT_BUF_SIZE →
    ∃ status, Inflated body out coded At i o input ring next avail
        (status, (τ.decompress d input ring next avail ((if input ≠ [] then TINFL_FLAG_HAS_MORE_INPUT else 0) ||| flags)).2) ∧
      (τ.decompress d input ring next avail ((if input ≠ [] then TINFL_FLAG_HAS_MORE_INPUT else 0) ||| flags)).1 = ended last status

theorem tinfl_unpacks (hB : Body zl pad sum body total) (hfuel : 32 * (16 * body.length + (output total).length + 25) < fuel) :
    Unpacks (endStatus zl sum (output total)) (tinfl fuel garbage) (if zl then TINFL_FLAG_PARSE_ZLIB_HEADER else 0) body
      (output total) (coded total) (At zl pad sum 32768 body total) where
  init := .inl ⟨rfl, rfl, rfl⟩
  call rest input ring d i o n next avail hat hinput hlast hring hroom hnext := by
    have hflags : ((if input ≠ [] then TINFL_FLAG_HAS_MORE_INPUT else 0) ||| if zl then TINFL_FLAG_PARSE_ZLIB_HEADER else 0) =
        callFlags (decide (input ≠ [])) false zl := by
      rw [callFlags, if_neg Bool.false_ne_true, Nat.or_zero]
      by_cases h : input = [] <;> simp [h]
    have hf : Follows (decide (input ≠ [])) false 32768 body input ring i o next avail := by
      refine ⟨fun hno => ?_, hroom.le.trans hring.1.ge, fun hno => absurd hno Bool.false_ne_true, fun _ => ⟨hroom.symm, hnext, 15, by decide, Nat.le_refl _, rfl⟩⟩
      exact (hlast (not_not.1 (of_decide_eq_false hno))).trans (Nat.le_add_right _ _)
    rw [hflags]
    exact tinfl_follows hB hfuel hat hf hring.2 hinput

/-- **The inflater keeps its promise** on every stream with the right checksum. -/
theorem tinfl_inflates (hB : Body zl pad sum body total) (hfuel : 32 * (16 * body.length + (output total).length + 25) < fuel)
    (hright : zl = true → sum = Deflate.adlerBytes (output total)) :
    Inflates (tinfl fuel garbage) (if zl then TINFL_FLAG_PARSE_ZLIB_HEADER else 0) body (output total) (coded total)
      (At zl pad sum 32768 body total) := by
  have hτ : Unpacks _ (tinfl fuel garbage) _ body _ _ _ := tinfl_unpacks hB hfuel
  have hgood : endStatus zl sum (output total) = TINFL_STATUS_DONE := if_neg fun h => h.2 (hright h.1)
  refine ⟨hτ.init, rfl, coded_mono total, fun d input ring next avail flags hneg => ?_,
    fun rest input ring d i o n next avail hat hinput hlast hring hroom hnext => ?_⟩
  · show (tinflDecompress fuel d input ring next avail flags).getD _ = _
    unfold tinflDecompress
    dsimp only
    rw [if_pos (.inr hneg)]
    rfl
  · obtain ⟨status, hinflated, hstatus⟩ := hτ.call rest input ring d i o n next avail hat hinput hlast hring hroom hnext
    have hsame : ended (endStatus zl sum (output total)) status = status := by
      rw [hgood, ended, ite_eq_right_iff]
      exact Eq.symm
    rw [← hstatus.trans hsame] at hinflated
    exact hinflated

end Keynjector.Inflate
