import Keynjector.Inflate.Tinfl
import Keynjector.Inflate.Decode
import Keynjector.Lib.Deflate
/-
# The inflater and its stream

During a call the bits in the bit buffer and the unread input are what is left of the
stream, followed by bits that do not belong to it; the output that was written and the output
that is still to come are the stream's data, and the buffer holds as much of it as copies may
reach back to. The macros keep this and take the bits they read off the front.

| here | there |
| --- | --- |
| `Call`    | one call: its arguments and the stream it is part of |
| `Ahead`   | the bits at hand are the rest of the stream |
| `Written` | the output buffer |
| `Sync`    | both, with the output that is due but not written |
| `Good`    | a step goes on in an invariant at lower cost, or returns as it should |
-/

namespace Keynjector.Inflate

open Deflate (Mark bits output silent emit)

/-- A call of the inflater. `later` is the input behind it, `slack` the number of bits behind the stream, `start` the
number of bytes put out before, `check` their checksum, and `window` the size of the memory that copies read, a power of two. -/
structure Call where
  env : Env
  input : List UInt8
  later : List UInt8
  slack : Nat
  out : List UInt8
  next : Nat
  start : Nat
  check : Nat
  window : Nat
  total : List Mark

structure Call.Ok (c : Call) : Prop where
  mask : c.env.outBufSizeMask = c.window - 1
  power : ∃ k ≤ 32, 15 ≤ k ∧ c.window = 2 ^ k
  end_le : c.env.outBufEnd ≤ c.window
  room : c.env.outBufEnd ≤ c.out.length
  more : c.env.hasMoreInput = false → 8 * c.later.length ≤ c.slack
  whole : c.env.nonWrapping = true → c.next = c.start
  wraps : c.env.nonWrapping = false → c.window < 2 ^ 32
  aligned : 8 ∣ c.total.length ∧ 8 ∣ c.slack

/-- The bit buffer and the unread input begin with the bits of `r`. -/
structure Ahead (c : Call) (input : List UInt8) (numBits bitBuf : Nat) (r : List Mark) : Prop where
  fits : bitBuf < 2 ^ numBits
  ahead : ∃ junk : List Bool, junk.length = c.slack ∧
    Bits.ofNat numBits bitBuf ++ Bits.ofBytes (input ++ c.later) = bits r ++ junk
  suffix : input <:+ c.input

/-- `hist` is put out, and the output buffer holds the last `window` bytes of it. -/
structure Written (c : Call) (out : List UInt8) (cur : Nat) (hist : List UInt8) : Prop where
  start : c.start ≤ hist.length
  pos : cur + c.start = c.next + hist.length
  le : cur ≤ c.env.outBufEnd
  kept : out = c.out.take c.next ++ (hist.drop c.start ++ c.out.drop cur)
  mod : cur % c.window = hist.length % c.window
  ring : ∀ j < hist.length, hist.length ≤ j + c.window → out[j % c.window]? = hist[j]?

/-- `pending` is due but not put out yet. -/
structure Sync (c : Call) (m : Machine) (hist : List UInt8) (r : List Mark) (pending : List UInt8) : Prop where
  ahead : Ahead c m.input m.numBits m.bitBuf r
  written : Written c m.out m.cur hist
  rest : r <:+ c.total
  data : output c.total = hist ++ (pending ++ output r)
  check : m.checkAdler32 = c.check

section

variable {c : Call} {input : List UInt8} {n v : Nat} {r x : List Mark}

/-! ## Bits -/

theorem or_shiftLeft {a n : Nat} (h : a < 2 ^ n) (b : Nat) : a ||| b <<< n = a + 2 ^ n * b := by
  rw [Nat.shiftLeft_eq, Nat.mul_comm, Nat.or_comm, ← Nat.two_pow_add_eq_or_of_lt h, Nat.add_comm]

theorem Ahead.byte {b : UInt8} (h : Ahead c (b :: input) n v r) : Ahead c input (n + 8) (v ||| b.toNat <<< n) r := by
  obtain ⟨junk, hjunk, hbits⟩ := h.ahead
  have hb : b.toNat < 2 ^ 8 := b.toNat_lt
  rw [or_shiftLeft h.fits]
  refine ⟨?_, ⟨junk, hjunk, ?_⟩, (List.suffix_cons b input).trans h.suffix⟩
  · have hv := h.fits
    calc v + 2 ^ n * b.toNat < 2 ^ n + 2 ^ n * b.toNat := by omega
      _ = 2 ^ n * (b.toNat + 1) := by ring
      _ ≤ 2 ^ n * 2 ^ 8 := Nat.mul_le_mul_left _ hb
      _ = 2 ^ (n + 8) := (Nat.pow_add 2 n 8).symm
  · rw [← hbits, Bits.ofNat_append h.fits, List.cons_append, Bits.ofBytes_cons, List.append_assoc]

theorem Ahead.two {b0 b1 : UInt8} (h : Ahead c (b0 :: b1 :: input) n v r) :
    Ahead c input (n + 16) (v ||| (b0.toNat <<< n ||| b1.toNat <<< (n + 8))) r := by
  rw [← Nat.or_assoc]
  exact h.byte.byte

/-- The bits at hand and those behind them are all there are. -/
theorem Ahead.length (h : Ahead c input n v r) : n + 8 * (input.length + c.later.length) = r.length + c.slack := by
  obtain ⟨junk, hjunk, hbits⟩ := h.ahead
  have := congrArg List.length hbits
  rwa [List.length_append, List.length_append, Bits.length_ofNat, Bits.length_ofBytes, List.length_append, hjunk,
    Deflate.length_bits] at this

theorem Ahead.bits (h : Ahead c input n v (x ++ r)) {k : Nat} (hk : k ≤ n) (hx : k ≤ x.length) :
    Bits.ofNat k v = (Deflate.bits x).take k := by
  obtain ⟨junk, -, hbits⟩ := h.ahead
  have := congrArg (List.take k) hbits
  rwa [List.take_append_of_le_length (by rwa [Bits.length_ofNat]), Bits.take_ofNat hk, Deflate.bits_append,
    List.append_assoc, List.take_append_of_le_length (by rwa [Deflate.length_bits])] at this

theorem Ahead.bits_all (h : Ahead c input n v (x ++ r)) (hx : x.length ≤ n) : Bits.ofNat x.length v = Deflate.bits x := by
  rw [h.bits hx (Nat.le_refl _), List.take_of_length_le (Nat.le_of_eq (Deflate.length_bits x))]

theorem Ahead.skip (h : Ahead c input n v (x ++ r)) (hx : x.length ≤ n) :
    Ahead c input (n - x.length) (v >>> x.length) r := by
  obtain ⟨junk, hjunk, hbits⟩ := h.ahead
  rw [Nat.shiftRight_eq_div_pow]
  refine ⟨?_, ⟨junk, hjunk, ?_⟩, h.suffix⟩
  · rw [Nat.div_lt_iff_lt_mul (Nat.two_pow_pos _), ← Nat.pow_add, Nat.sub_add_cancel hx]
    exact h.fits
  · have := congrArg (List.drop x.length) hbits
    rwa [List.drop_append_of_le_length (by rwa [Bits.length_ofNat]), Bits.drop_ofNat hx, Deflate.bits_append,
      List.append_assoc, List.drop_left' (Deflate.length_bits x)] at this

/-- With an empty bit buffer the next byte of the input is the next one of the stream. -/
theorem Ahead.first {b : UInt8} (h : Ahead c (b :: input) 0 v (x ++ r)) (hx : x.length = 8) :
    Bits.ofNat 8 b.toNat = Deflate.bits x ∧ Ahead c input 0 0 r := by
  have hv : v = 0 := Nat.lt_one_iff.1 h.fits
  have h8 := h.byte
  have hb : v ||| b.toNat <<< 0 = b.toNat := by rw [hv, Nat.zero_or, Nat.shiftLeft_zero]
  rw [hb, Nat.zero_add] at h8
  have hall := h8.bits_all (Nat.le_of_eq hx)
  have hskip := h8.skip (Nat.le_of_eq hx)
  rw [hx] at hall hskip
  refine ⟨hall, ?_⟩
  have hzero : b.toNat >>> 8 = 0 := by
    rw [Nat.shiftRight_eq_div_pow]
    exact Nat.div_eq_of_lt b.toNat_lt
  rwa [hzero] at hskip

/-- While the stream goes on beyond the bit buffer, there is input, or more to come. -/
theorem Ahead.more (hok : c.Ok) (h : Ahead c [] n v r) (hlt : n < r.length) : c.env.hasMoreInput = true := by
  by_contra hmore
  have hle := hok.more (Bool.eq_false_iff.2 hmore)
  have := h.length
  rw [List.length_nil] at this
  omega

/-! ## Output -/

variable {out hist : List UInt8} {cur : Nat}

theorem Call.Ok.window_pos (hok : c.Ok) : 32768 ≤ c.window := by
  obtain ⟨k, -, hk, hw⟩ := hok.power
  rw [hw]
  exact Nat.pow_le_pow_right (n := 2) (by decide) hk

theorem Written.next_le (h : Written c out cur hist) : c.next ≤ cur := by
  have := h.start
  have := h.pos
  omega

theorem Written.length (hok : c.Ok) (h : Written c out cur hist) : out.length = c.out.length := by
  have := h.start
  have := h.pos
  have := h.le
  have := hok.room
  rw [h.kept, List.length_append, List.length_append, List.length_take, List.length_drop, List.length_drop]
  omega

theorem Written.set (hok : c.Ok) (h : Written c out cur hist) (hlt : cur < c.env.outBufEnd) (b : UInt8) :
    Written c (out.set cur b) (cur + 1) (hist ++ [b]) := by
  have hstart := h.start
  have hpos := h.pos
  have hroom := hok.room
  have hwindow := hok.end_le
  have hlen := h.length hok
  have hmod := h.mod
  have hcur : cur % c.window = cur := Nat.mod_eq_of_lt (by omega)
  refine ⟨?_, ?_, hlt, ?_, ?_, fun j hj hback => ?_⟩
  · rw [List.length_append]
    omega
  · rw [List.length_append, List.length_singleton]
    omega
  · have hfront : (c.out.take c.next).length = c.next := by
      rw [List.length_take]
      have := h.next_le
      omega
    rw [h.kept, List.set_append_right _ _ (by omega), hfront, List.set_append_right _ _ (by rw [List.length_drop]; omega),
      List.length_drop, List.drop_append_of_le_length hstart, List.append_assoc,
      show cur - c.next - (hist.length - c.start) = 0 by omega, List.drop_eq_getElem_cons (i := cur) (by omega),
      List.set_cons_zero]
    rfl
  · rw [List.length_append, List.length_singleton, Nat.add_mod, hmod, ← Nat.add_mod]
  · rw [List.length_append, List.length_singleton] at hj hback
    rw [List.getElem?_set]
    rcases Nat.lt_succ_iff_lt_or_eq.1 hj with hlt' | rfl
    · rw [List.getElem?_append_left hlt', if_neg, h.ring j hlt' (by omega)]
      intro heq
      -- two places of the window less than its length apart
      rw [← hcur, hmod] at heq
      have hdvd : c.window ∣ hist.length - j := (Nat.modEq_iff_dvd' (Nat.le_of_lt hlt')).1 heq.symm
      have := Nat.le_of_dvd (by omega) hdvd
      omega
    · rw [← hmod, hcur, if_pos rfl, if_pos (by omega), List.getElem?_concat_length]

theorem Written.poke (hok : c.Ok) (h : Written c out cur hist) (hlt : cur < c.env.outBufEnd) (b : UInt8) :
    poke out cur b = some (out.set cur b) := by
  have := h.length hok
  have := hok.room
  exact if_pos (by omega)

/-- Where a copy reads -/
theorem Call.Ok.behind (hok : c.Ok) {pos dist : Nat} (hpos : pos % c.window = hist.length % c.window)
    (hdist : dist ≤ hist.length) (hle : dist ≤ 32768) :
    c.env.behind pos dist = (hist.length - dist) % c.window := by
  obtain ⟨k, hk32, -, hk⟩ := hok.power
  have hdvd : (2 : Nat) ^ k ∣ 2 ^ 32 := Nat.pow_dvd_pow 2 hk32
  rw [Env.behind, hok.mask, hk, Nat.and_two_pow_sub_one_eq_mod, Nat.mod_mod_of_dvd _ hdvd]
  rw [hk] at hpos
  have hsplit : pos + 2 ^ 32 - dist = pos + (2 ^ 32 - dist) := Nat.add_sub_assoc (by omega) _
  calc (pos + 2 ^ 32 - dist) % 2 ^ k = (hist.length + (2 ^ 32 - dist)) % 2 ^ k := by
        rw [hsplit]
        exact Nat.ModEq.add_right _ hpos
    _ = (hist.length - dist + 2 ^ 32) % 2 ^ k := by
        congr 1
        omega
    _ = (hist.length - dist) % 2 ^ k := by
        obtain ⟨q, hq⟩ := hdvd
        rw [hq, Nat.add_mul_mod_self_left]

theorem Written.get (hok : c.Ok) (h : Written c out cur hist) {dist : Nat} (hpos : 0 < dist) (hdist : dist ≤ hist.length)
    (hle : dist ≤ 32768) :
    out[(hist.length - dist) % c.window]? = some (hist.getD (hist.length - dist) 0) := by
  have := hok.window_pos
  rw [h.ring _ (by omega) (by omega), List.getElem?_eq_getElem (by omega), List.getD_eq_getElem _ _ (by omega)]

end

end Keynjector.Inflate
