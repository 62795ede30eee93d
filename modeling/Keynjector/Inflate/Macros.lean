import Keynjector.Inflate.Sync
/-
# The macros keep the stream (tinfl.c:37-108)

Every macro reads some bits of the stream and goes on, or asks for input, and asks only when
the input is used up and the bits at hand do not reach. `I` is the invariant that belongs to
the points of control; a step costs, so that runs end.

| here | there |
| --- | --- |
| `cost`        | the bits to read, the bytes to fetch and to put out, and the place in the code |
| `Good`        | the invariant holds again at lower cost, or the return is as it should be |
| `getBits_good`, `huffHead_good`, `huffByte_good`, `putByte_good` | the macros |
-/

namespace Keynjector.Inflate

open Deflate (Mark bits output silent emit)
open Canonical (word size)

theorem Next.access_some {α : Type} (a : α) (k : α → Next) : Next.access (some a) k = k a := rfl

theorem store_lt {α : Type} {n i : Nat} (h : i < n) (xs : Vector α n) (x : α) : store xs i x = some (xs.setIfInBounds i x) :=
  if_pos h

/-- Steps that read and write nothing go to a label of lower rank. -/
def Machine.rank (e : Env) (m : Machine) : Nat :=
  match m.state with
  | .done => 0
  | .adler => 2
  | .storedIn => if m.cur < e.outBufEnd then 3 else 6
  | .storedOut => 4
  | .storedBytes => 5
  | .storedBits => 7
  | .rawHead => 8
  | .symbol => 2
  | .copyLoop => 3
  | .distance => 2
  | .build => min 12 (3 + 3 * ((m.type + 1) % 2 ^ 32))
  | .lenCode => 10
  | .codeSizes => 14
  | .tableSizes => 15
  | _ => 1

theorem Machine.rank_lt (e : Env) (m : Machine) : m.rank e < 32 := by
  unfold Machine.rank
  split <;> first | omega | split <;> omega

def cost (c : Call) (m : Machine) (r : List Mark) (pending : List UInt8) : Nat :=
  32 * (r.length + (r.length + 24 - m.numBits) + (pending.length + (output r).length)) + m.rank c.env

section

variable {c : Call} {m m' : Machine} {r r' : List Mark} {pending pending' : List UInt8}

/-- Bits are read. -/
theorem cost_read (hr : r'.length < r.length) (hbits : r'.length + m.numBits ≤ r.length + m'.numBits)
    (hout : pending'.length + (output r').length ≤ pending.length + (output r).length) :
    cost c m' r' pending' < cost c m r pending := by
  have := m'.rank_lt c.env
  unfold cost
  omega

/-- The marks `x` are read. -/
theorem cost_marks {x : List Mark} (hx : 0 < x.length) (hbits : m.numBits ≤ m'.numBits + x.length)
    (hout : pending'.length = (output x).length) : cost c m' r pending' < cost c m (x ++ r) [] := by
  refine cost_read ?_ ?_ ?_
  · rw [List.length_append]
    omega
  · rw [List.length_append]
    omega
  · rw [Deflate.output_append, List.length_append, List.length_nil]
    omega

theorem cost_silent {bs : List Bool} (hbs : 0 < bs.length) (hbits : m.numBits ≤ m'.numBits + bs.length) :
    cost c m' r [] < cost c m (silent bs ++ r) [] := by
  refine cost_marks ?_ ?_ ?_
  · rwa [Deflate.length_silent]
  · rwa [Deflate.length_silent]
  · rw [Deflate.output_silent]

/-- Bytes are put out. -/
theorem cost_put (hbits : m'.numBits = m.numBits) (hlt : pending'.length < pending.length) :
    cost c m' r pending' < cost c m r pending := by
  have := m'.rank_lt c.env
  unfold cost
  rw [hbits]
  omega

/-- Only the label changes. -/
theorem cost_rank (hbits : m'.numBits = m.numBits) (hlt : m'.rank c.env < m.rank c.env) : cost c m' r pending < cost c m r pending := by
  unfold cost
  rw [hbits]
  omega

/-- A byte is fetched. -/
theorem cost_byte (hlt : m.numBits < r.length) (hbits : m'.numBits = m.numBits + 8) :
    cost c m' r pending < cost c m r pending := by
  have := m'.rank_lt c.env
  unfold cost
  rw [hbits]
  omega

end

/-- How a call returns. -/
def Returns (c : Call) (status : Int) (m : Machine) (r : List Mark) (pending : List UInt8) : Prop :=
  status = Opgp.TINFL_STATUS_DONE ∧ m.state = .done ∨
    status = TINFL_STATUS_NEEDS_MORE_INPUT ∧ m.input = [] ∧ c.env.hasMoreInput = true ∧ m.numBits < r.length ∧
      pending = [] ∧ output (r.take m.numBits) = [] ∨
    status = TINFL_STATUS_HAS_MORE_OUTPUT ∧ m.cur = c.env.outBufEnd ∧ pending ++ output r ≠ []

section

variable (I : Core → List UInt8 → List Mark → List UInt8 → Prop) (c : Call)

/-- The invariant holds again. -/
def Holds (m : Machine) (w : Nat) : Prop :=
  ∃ hist r pending, Sync c m hist r pending ∧ I m hist r pending ∧ cost c m r pending < w

def Good (w : Nat) : Next → Prop
  | .go m => Holds I c m w
  | .ret status m => ∃ hist r pending, Sync c m hist r pending ∧ I m hist r pending ∧ Returns c status m r pending
  | .fault => False

end

section

variable {I : Core → List UInt8 → List Mark → List UInt8 → Prop} {c : Call} {m : Machine} {hist : List UInt8}
  {r x : List Mark} {w : Nat} {k : Nat → Machine → Next}

/-- Bits that complete nothing before the last of them. -/
def Quiet (x : List Mark) : Prop := ∀ i < x.length, output (x.take i) = []

theorem quiet_silent (bs : List Bool) : Quiet (silent bs) := fun i _ => Deflate.output_take_silent bs i

theorem quiet_emit (bs : List Bool) (out : List UInt8) : Quiet (emit bs out) := fun i hi =>
  Deflate.output_take_emit (by rwa [Deflate.length_emit] at hi) out

theorem Quiet.take (h : Quiet x) {i : Nat} (hi : i < x.length) : output ((x ++ r).take i) = [] := by
  rw [List.take_append_of_le_length (Nat.le_of_lt hi), h i hi]

/-- The bits `x` are read. -/
theorem Sync.skip (h : Sync c m hist (x ++ r) []) {input : List UInt8} {n v : Nat} (ha : Ahead c input n v (x ++ r))
    (hx : x.length ≤ n) :
    Sync c { m with input := input, numBits := n - x.length, bitBuf := v >>> x.length } hist r (output x) := by
  refine ⟨ha.skip hx, h.written, (List.suffix_append x r).trans h.rest, ?_, h.check⟩
  rw [h.data, Deflate.output_append, List.nil_append]

/-- More bits are at hand. -/
theorem Sync.more {pending : List UInt8} (h : Sync c m hist r pending) {input : List UInt8} {n v : Nat}
    (ha : Ahead c input n v r) : Sync c { m with input := input, numBits := n, bitBuf := v } hist r pending :=
  ⟨ha, h.written, h.rest, h.data, h.check⟩

/-- The labels may change, and all fields that the stream does not speak of. -/
theorem Sync.frame {pending : List UInt8} {m' : Machine} (h : Sync c m hist r pending) (hinput : m'.input = m.input)
    (hbits : m'.numBits = m.numBits) (hbuf : m'.bitBuf = m.bitBuf) (hout : m'.out = m.out) (hcur : m'.cur = m.cur)
    (hcheck : m'.checkAdler32 = m.checkAdler32) : Sync c m' hist r pending :=
  ⟨by rw [hinput, hbits, hbuf]; exact h.ahead, by rw [hout, hcur]; exact h.written, h.rest, h.data, hcheck.trans h.check⟩

/-- `TINFL_GET_BYTE` where the stream needs more bits than there are. -/
theorem getByte_good (hok : c.Ok) (h : Sync c m hist (x ++ r) []) (hi : I m hist (x ++ r) []) (hquiet : Quiet x)
    (hlt : m.numBits < x.length)
    (hk : ∀ b input, m.input = b :: input → Good I c w (k b.toNat { m with input := input })) :
    Good I c w (getByte c.env m k) := by
  have hr : m.numBits < (x ++ r).length := by
    rw [List.length_append]
    omega
  unfold getByte
  split
  · next b input heq => exact hk b input heq
  · next heq =>
    have hahead := h.ahead
    rw [heq] at hahead
    have hmore := hahead.more hok hr
    rw [if_pos hmore]
    exact ⟨hist, x ++ r, [], h, hi, .inr (.inl ⟨rfl, heq, hmore, hr, rfl, hquiet.take hlt⟩)⟩

/-- `TINFL_GET_BYTE` with an empty bit buffer: the next eight bits. -/
theorem getByte_first (hok : c.Ok) (h : Sync c m hist (x ++ r) []) (hi : I m hist (x ++ r) []) (hquiet : Quiet x)
    (hbits : m.numBits = 0) (hx : x.length = 8)
    (hk : ∀ (b : UInt8) input, Bits.ofNat 8 b.toNat = bits x → Sync c { m with input := input } hist r (output x) →
      Good I c w (k b.toNat { m with input := input })) :
    Good I c w (getByte c.env m k) := by
  refine getByte_good hok h hi hquiet (by omega) fun b input hinput => ?_
  have hahead := h.ahead
  rw [hinput, hbits] at hahead
  obtain ⟨hb, hrest⟩ := hahead.first hx
  have hzero : m.bitBuf = 0 := Nat.lt_one_iff.1 hahead.fits
  refine hk b input hb ⟨?_, h.written, (List.suffix_append x r).trans h.rest, ?_, h.check⟩
  · show Ahead c input m.numBits m.bitBuf r
    rwa [hbits, hzero]
  · rw [h.data, Deflate.output_append, List.nil_append]

/-- `TINFL_GET_BITS`: the value of the next bits, whatever is in the buffer. -/
theorem getBits_good (hok : c.Ok) (h : Sync c m hist (x ++ r) []) (hi : I m hist (x ++ r) []) (hquiet : Quiet x)
    {n : Nat} (hn : x.length = n)
    (hstay : ∀ b input, m.input = b :: input → I ({ m with input := input }.addByte b.toNat) hist (x ++ r) [])
    (hk : ∀ v, n ≤ m.numBits → Sync c { m with numBits := m.numBits - n, bitBuf := v } hist r (output x) →
      Good I c (cost c m (x ++ r) []) (k (Bits.toNat (bits x)) { m with numBits := m.numBits - n, bitBuf := v })) :
    Good I c (cost c m (x ++ r) []) (getBits c.env n m k) := by
  subst hn
  unfold getBits
  split
  · next hlt =>
    refine getByte_good hok h hi hquiet hlt fun b input hinput => ?_
    have hahead := h.ahead
    rw [hinput] at hahead
    exact ⟨hist, x ++ r, [], h.more hahead.byte, hstay b input hinput, cost_byte (by rw [List.length_append]; omega) rfl⟩
  · next hge =>
    have hx : x.length ≤ m.numBits := Nat.le_of_not_lt hge
    have hval : m.bitBuf &&& (1 <<< x.length - 1) = Bits.toNat (bits x) := by
      rw [Nat.one_shiftLeft, Nat.and_two_pow_sub_one_eq_mod, ← Bits.toNat_ofNat, h.ahead.bits_all hx]
    rw [hval]
    exact hk _ hx (h.skip h.ahead hx)

/-! ## Huffman codes -/

variable {t : HuffTable} {sizes : List Nat} {s : Nat}

theorem huffDecode_good (ht : Built sizes t) (hs : size sizes s ≠ 0) (hbits : ∃ rest, bits x = word sizes s ++ rest)
    {n v : Nat} {input : List UInt8} (ha : Ahead c input n v (x ++ r)) (hn : size sizes s ≤ n)
    (hk : Good I c w (k s { m with input := input, numBits := n - size sizes s, bitBuf := v >>> size sizes s })) :
    Good I c w (huffDecode t { m with input := input, numBits := n, bitBuf := v } k) := by
  obtain ⟨rest, hrest⟩ := hbits
  have hlen : size sizes s ≤ x.length := by
    have := congrArg List.length hrest
    rw [Deflate.length_bits, List.length_append, Canonical.length_word] at this
    omega
  have hv : Bits.ofNat (size sizes s) v = word sizes s := by
    rw [ha.bits hn hlen, hrest, List.take_left' Canonical.length_word]
  unfold huffDecode Next.access
  rw [ht.decode hs hv]
  exact hk

/-- What follows a decoded symbol, with the bits of its word taken off. The marks `y` are the word's. -/
def Decoded (I : Core → List UInt8 → List Mark → List UInt8 → Prop) (c : Call) (w : Nat) (m : Machine)
    (k : Nat → Machine → Next) (s : Nat) (y : List Mark) (hist : List UInt8) (r : List Mark) : Prop :=
  ∀ input n v, m.numBits ≤ n + y.length → Sync c { m with input := input, numBits := n, bitBuf := v } hist r (output y) →
    Good I c w (k s { m with input := input, numBits := n, bitBuf := v })

theorem Decoded.good {y : List Mark} (h : Sync c m hist (y ++ r) []) (ht : Built sizes t) (hs : size sizes s ≠ 0)
    (hy : bits y = word sizes s) {n v : Nat} {input : List UInt8} (hmn : m.numBits ≤ n) (ha : Ahead c input n v (y ++ r))
    (hn : size sizes s ≤ n) (hk : Decoded I c w m k s y hist r) :
    Good I c w (huffDecode t { m with input := input, numBits := n, bitBuf := v } k) := by
  have hlen : y.length = size sizes s := by rw [← Deflate.length_bits, hy, Canonical.length_word]
  refine huffDecode_good (x := y) ht hs ⟨[], by rw [hy, List.append_nil]⟩ ha hn ?_
  rw [← hlen]
  exact hk _ _ _ (by omega) (h.skip ha (by omega))

/-- The test of `TINFL_HUFF_BITBUF_FILL` on the bits at hand -/
theorem ready_eq {y : List Mark} (ht : Built sizes t) (hs : size sizes s ≠ 0) (hy : bits y = word sizes s) {n v : Nat}
    {input : List UInt8} (ha : Ahead c input n v (y ++ r)) : t.ready v n = some (decide (size sizes s ≤ n)) := by
  have hlen : y.length = size sizes s := by rw [← Deflate.length_bits, hy, Canonical.length_word]
  refine ht.ready hs ?_
  rw [ha.bits (Nat.min_le_left _ _) (by omega), hy]

theorem huffFill_good {y : List Mark} {fill : Label} (h : Sync c m hist (y ++ r) []) (ht : Built sizes t)
    (hs : size sizes s ≠ 0) (hy : bits y = word sizes s) {n v : Nat} {input : List UInt8} (hmn : m.numBits ≤ n)
    (ha : Ahead c input n v (y ++ r)) (hk : Decoded I c w m k s y hist r)
    (hfill : n < size sizes s →
      Good I c w (.go { m with input := input, numBits := n, bitBuf := v, state := fill })) :
    Good I c w (huffFill t fill { m with input := input, numBits := n, bitBuf := v } k) := by
  unfold huffFill Next.access
  rw [ready_eq ht hs hy ha]
  dsimp only
  by_cases hn : size sizes s ≤ n
  · rw [decide_eq_true hn, if_pos rfl]
    exact hk.good h ht hs hy hmn ha hn
  · rw [decide_eq_false hn, if_neg Bool.false_ne_true]
    exact hfill (Nat.lt_of_not_le hn)

/-- `TINFL_HUFF_DECODE` -/
theorem huffHead_good {y : List Mark} {fill : Label} (h : Sync c m hist (y ++ r) []) (ht : Built sizes t)
    (hs : size sizes s ≠ 0) (hy : bits y = word sizes s) (hk : Decoded I c w m k s y hist r)
    (hfill : m.numBits < size sizes s → Good I c w (.go { m with state := fill })) :
    Good I c w (huffHead t fill m k) := by
  have h15 := Canonical.size_le ht.1.fits (s := s)
  unfold huffHead
  split
  · split
    · next b0 b1 input heq =>
      have hahead := h.ahead
      rw [heq] at hahead
      exact hk.good h ht hs hy (Nat.le_add_right _ _) hahead.two (by omega)
    · exact huffFill_good h ht hs hy (Nat.le_refl _) h.ahead hk hfill
  · next hge => exact hk.good h ht hs hy (Nat.le_refl _) h.ahead (h15.trans (Nat.le_of_not_lt hge))

/-- `TINFL_HUFF_BITBUF_FILL` from its `TINFL_GET_BYTE` on -/
theorem huffByte_good {y : List Mark} (hok : c.Ok) (h : Sync c m hist (y ++ r) []) (hi : I m hist (y ++ r) [])
    (hquiet : Quiet y) (ht : Built sizes t) (hs : size sizes s ≠ 0) (hy : bits y = word sizes s)
    (hlt : m.numBits < size sizes s) (hk : Decoded I c (cost c m (y ++ r) []) m k s y hist r)
    (hstay : ∀ n v, n < size sizes s → I { m.toCore with numBits := n, bitBuf := v } hist (y ++ r) []) :
    Good I c (cost c m (y ++ r) []) (huffByte c.env t m.state m k) := by
  have h15 := Canonical.size_le ht.1.fits (s := s)
  have hlen : y.length = size sizes s := by rw [← Deflate.length_bits, hy, Canonical.length_word]
  refine getByte_good hok h hi hquiet (by omega) fun b input hinput => ?_
  have hahead := h.ahead
  rw [hinput] at hahead
  have hbyte := hahead.byte
  let m' : Machine := { m with input := input, numBits := m.numBits + 8, bitBuf := m.bitBuf ||| b.toNat <<< m.numBits }
  show Good I c _ (if m.numBits + 8 < 15 then huffFill t m.state m' k else huffDecode t m' k)
  by_cases hfew : m.numBits + 8 < 15
  · rw [if_pos hfew]
    refine huffFill_good h ht hs hy (Nat.le_add_right _ _) hbyte hk fun hn => ?_
    exact ⟨hist, y ++ r, [], h.more hbyte, hstay _ _ hn, cost_byte (by rw [List.length_append]; omega) rfl⟩
  · rw [if_neg hfew]
    exact hk.good h ht hs hy (Nat.le_add_right _ _) hbyte (by omega)

/-! ## Output -/

/-- The next byte that is due is put out. -/
theorem Sync.put (hok : c.Ok) {b : UInt8} {pending : List UInt8} (h : Sync c m hist r (b :: pending))
    (hlt : m.cur < c.env.outBufEnd) :
    Sync c { m with out := m.out.set m.cur b, cur := m.cur + 1 } (hist ++ [b]) r pending :=
  ⟨h.ahead, h.written.set hok hlt b, h.rest, by rw [h.data, List.append_assoc]; rfl, h.check⟩

theorem putByte_good (hok : c.Ok) {b : UInt8} {pending : List UInt8} (h : Sync c m hist r (b :: pending))
    (hi : I m hist r (b :: pending)) {k : Machine → Next}
    (hk : Sync c { m with out := m.out.set m.cur b, cur := m.cur + 1 } (hist ++ [b]) r pending →
      Good I c w (k { m with out := m.out.set m.cur b, cur := m.cur + 1 })) :
    Good I c w (putByte c.env m b k) := by
  unfold putByte
  split
  · next hge =>
    refine ⟨hist, r, b :: pending, h, hi, .inr (.inr ⟨rfl, Nat.le_antisymm h.written.le hge, ?_⟩)⟩
    exact List.append_ne_nil_of_left_ne_nil (List.cons_ne_nil b pending) _
  · next hlt =>
    rw [h.written.poke hok (Nat.lt_of_not_le hlt)]
    exact hk (h.put hok (Nat.lt_of_not_le hlt))

end

end Keynjector.Inflate
