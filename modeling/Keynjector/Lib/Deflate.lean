import Keynjector.Lib.Canonical
/-
# The deflate format

What a compressed stream consists of, the bits it is written with and the data it stands
for. A stream is given by all its choices (blocks, codes, symbols, padding), so that every
encoder's output is one.

A bit is paired with the data that is complete with it, and with no data where something is
still missing.

| here | in the format |
| --- | --- |
| `Mark`    | a bit of the stream, with the data complete with it |
| `Token`   | a literal or a copy |
| `Header`  | the codes of a block |
| `Block`   | a block |
| `raw`, `zlib` | a stream, without and with its frame |
-/

namespace Deflate

open Canonical (word size kraft used)

abbrev Mark := Bool × List UInt8

def bits (r : List Mark) : List Bool := r.map Prod.fst

def output (r : List Mark) : List UInt8 := r.flatMap Prod.snd

/-- Bits that complete no data -/
def silent (bs : List Bool) : List Mark := bs.map fun b => (b, [])

/-- Bits of which the last completes `out` -/
def emit : List Bool → List UInt8 → List Mark
  | [], _ => []
  | [b], out => [(b, out)]
  | b :: bs, out => (b, []) :: emit bs out

@[simp] theorem bits_append (r s : List Mark) : bits (r ++ s) = bits r ++ bits s := List.map_append

@[simp] theorem length_bits (r : List Mark) : (bits r).length = r.length := List.length_map ..

@[simp] theorem output_append (r s : List Mark) : output (r ++ s) = output r ++ output s := List.flatMap_append

@[simp] theorem bits_silent (bs : List Bool) : bits (silent bs) = bs := by
  induction bs with
  | nil => rfl
  | cons b bs ih => exact congrArg (b :: ·) ih

@[simp] theorem output_silent (bs : List Bool) : output (silent bs) = [] := by
  induction bs with
  | nil => rfl
  | cons b bs ih => exact ih

@[simp] theorem length_silent (bs : List Bool) : (silent bs).length = bs.length := List.length_map ..

theorem silent_append (as bs : List Bool) : silent (as ++ bs) = silent as ++ silent bs := List.map_append

@[simp] theorem bits_emit (bs : List Bool) (out : List UInt8) : bits (emit bs out) = bs := by
  induction bs with
  | nil => rfl
  | cons b bs ih =>
    cases bs with
    | nil => rfl
    | cons c bs => exact congrArg (b :: ·) ih

@[simp] theorem length_emit (bs : List Bool) (out : List UInt8) : (emit bs out).length = bs.length := by
  rw [← length_bits, bits_emit]

theorem output_emit {bs : List Bool} (h : bs ≠ []) (out : List UInt8) : output (emit bs out) = out := by
  induction bs with
  | nil => exact absurd rfl h
  | cons b bs ih =>
    cases bs with
    | nil => exact List.append_nil out
    | cons c bs => exact ih (List.cons_ne_nil _ _)

theorem emit_append (as : List Bool) {bs : List Bool} (h : bs ≠ []) (out : List UInt8) :
    emit (as ++ bs) out = silent as ++ emit bs out := by
  induction as with
  | nil => rfl
  | cons a as ih =>
    obtain ⟨c, cs, hc⟩ := List.exists_cons_of_ne_nil (List.append_ne_nil_of_right_ne_nil as h)
    rw [List.cons_append, hc, emit, ← hc, ih]
    · rfl
    · exact List.cons_ne_nil _ _

/-- A part of the bits completes nothing. -/
theorem output_take_emit {bs : List Bool} {k : Nat} (h : k < bs.length) (out : List UInt8) :
    output ((emit bs out).take k) = [] := by
  induction bs generalizing k with
  | nil => rw [emit, List.take_nil]; rfl
  | cons b bs ih =>
    cases k with
    | zero => rfl
    | succ k =>
      cases bs with
      | nil => exact absurd h (by simp)
      | cons c bs => exact ih (Nat.lt_of_succ_lt_succ h)

theorem output_take_silent (bs : List Bool) (k : Nat) : output ((silent bs).take k) = [] := by
  rw [silent, ← List.map_take]
  exact output_silent _

/-! ## Tokens -/

/-- The extra bits and the least value of the `n`th length symbol, 257 being the first -/
def lengthExtra (n : Nat) : Nat := if n < 8 ∨ n = 28 then 0 else n / 4 - 1
def lengthBase (n : Nat) : Nat := if n = 28 then 258 else if n < 8 then 3 + n else 3 + (4 + n % 4) * 2 ^ (n / 4 - 1)

/-- The same for a distance symbol -/
def distExtra (n : Nat) : Nat := n / 2 - 1
def distBase (n : Nat) : Nat := if n < 2 then 1 + n else 1 + (2 + n % 2) * 2 ^ (n / 2 - 1)

/-- A copy is given by its two symbols, each with the value of its extra bits. -/
inductive Token where
  | literal (b : UInt8)
  | copy (n ex d dx : Nat)

/-- The sizes of the words for literals and lengths, and for distances -/
structure Codes where
  lit : List Nat
  dist : List Nat

/-- `len` bytes from `dist` bytes back, of which the copy itself may have written some -/
def copied (hist : List UInt8) (dist : Nat) : Nat → List UInt8
  | 0 => []
  | len + 1 => hist.getD (hist.length - dist) 0 :: copied (hist ++ [hist.getD (hist.length - dist) 0]) dist len

@[simp] theorem length_copied (hist : List UInt8) (dist len : Nat) : (copied hist dist len).length = len := by
  induction len generalizing hist with
  | zero => rfl
  | succ len ih => rw [copied, List.length_cons, ih]

def Token.data (hist : List UInt8) : Token → List UInt8
  | .literal b => [b]
  | .copy n ex d dx => copied hist (distBase d + dx) (lengthBase n + ex)

def Token.encode (c : Codes) (hist : List UInt8) : Token → List Mark
  | .literal b => emit (word c.lit b.toNat) [b]
  | .copy n ex d dx =>
    silent (word c.lit (257 + n) ++ Bits.ofNat (lengthExtra n) ex) ++
      emit (word c.dist d ++ Bits.ofNat (distExtra d) dx) (Token.data hist (.copy n ex d dx))

def Token.Valid (c : Codes) (hist : List UInt8) : Token → Prop
  | .literal b => size c.lit b.toNat ≠ 0
  | .copy n ex d dx =>
    (n < 29 ∧ ex < 2 ^ lengthExtra n ∧ size c.lit (257 + n) ≠ 0) ∧
      d < 30 ∧ dx < 2 ^ distExtra d ∧ size c.dist d ≠ 0 ∧ distBase d + dx ≤ hist.length

/-- Tokens and the end of the block -/
def encodeTokens (c : Codes) (hist : List UInt8) : List Token → List Mark
  | [] => silent (word c.lit 256)
  | t :: ts => t.encode c hist ++ encodeTokens c (hist ++ t.data hist) ts

def tokensData (hist : List UInt8) : List Token → List UInt8
  | [] => []
  | t :: ts => t.data hist ++ tokensData (hist ++ t.data hist) ts

def ValidTokens (c : Codes) (hist : List UInt8) : List Token → Prop
  | [] => size c.lit 256 ≠ 0
  | t :: ts => t.Valid c hist ∧ ValidTokens c (hist ++ t.data hist) ts

instance Token.decidableValid (c : Codes) (hist : List UInt8) : (t : Token) → Decidable (t.Valid c hist)
  | .literal b => inferInstanceAs (Decidable (size c.lit b.toNat ≠ 0))
  | .copy n ex d dx =>
    inferInstanceAs (Decidable ((n < 29 ∧ ex < 2 ^ lengthExtra n ∧ size c.lit (257 + n) ≠ 0) ∧
      d < 30 ∧ dx < 2 ^ distExtra d ∧ size c.dist d ≠ 0 ∧ distBase d + dx ≤ hist.length))

instance decidableValidTokens (c : Codes) (hist : List UInt8) : (ts : List Token) → Decidable (ValidTokens c hist ts)
  | [] => inferInstanceAs (Decidable (size c.lit 256 ≠ 0))
  | t :: ts =>
    have : Decidable (ValidTokens c (hist ++ t.data hist) ts) := decidableValidTokens c (hist ++ t.data hist) ts
    inferInstanceAs (Decidable (t.Valid c hist ∧ ValidTokens c (hist ++ t.data hist) ts))

/-! ## Codes -/

/-- Sizes of a code that leaves no gap, or of one word at most -/
structure Proper (sizes : List Nat) : Prop where
  max : ∀ l ∈ sizes, l ≤ 15
  full : kraft sizes 15 = 2 ^ 15 ∨ used sizes 15 ≤ 1

def fixedSize (s : Nat) : Nat := if s ≤ 143 then 8 else if s ≤ 255 then 9 else if s ≤ 279 then 7 else 8

def fixedLit : List Nat := (List.range 288).map fixedSize
def fixedDist : List Nat := List.replicate 32 5

/-- The sizes of a code, run-length encoded -/
inductive SizeItem where
  | size (l : Nat)
  /-- the size before, `3 + k` times -/
  | again (k : Nat)
  /-- `3 + k` zeros -/
  | zeros (k : Nat)
  /-- `11 + k` zeros -/
  | manyZeros (k : Nat)

def SizeItem.symbol : SizeItem → Nat
  | .size l => l
  | .again _ => 16
  | .zeros _ => 17
  | .manyZeros _ => 18

def SizeItem.extra : SizeItem → List Bool
  | .size _ => []
  | .again k => Bits.ofNat 2 k
  | .zeros k => Bits.ofNat 3 k
  | .manyZeros k => Bits.ofNat 7 k

/-- The sizes an item stands for, behind `sizes` -/
def SizeItem.expand (sizes : List Nat) : SizeItem → List Nat
  | .size l => [l]
  | .again k => List.replicate (3 + k) (sizes.getLastD 0)
  | .zeros k => List.replicate (3 + k) 0
  | .manyZeros k => List.replicate (11 + k) 0

def SizeItem.Valid (sizes : List Nat) : SizeItem → Prop
  | .size l => l < 16
  | .again k => k < 4 ∧ sizes ≠ []
  | .zeros k => k < 8
  | .manyZeros k => k < 128

def expandItems (sizes : List Nat) : List SizeItem → List Nat
  | [] => sizes
  | item :: items => expandItems (sizes ++ item.expand sizes) items

def ValidItems (code : List Nat) (sizes : List Nat) : List SizeItem → Prop
  | [] => True
  | item :: items =>
    (Canonical.size code item.symbol ≠ 0 ∧ item.Valid sizes) ∧ ValidItems code (sizes ++ item.expand sizes) items

def encodeItems (code : List Nat) (items : List SizeItem) : List Bool :=
  items.flatMap fun item => word code item.symbol ++ item.extra

/-- The order in which the sizes of the code for sizes are sent -/
def sizeOrder : List Nat := [16, 17, 18, 0, 8, 7, 9, 6, 10, 5, 11, 4, 12, 3, 13, 2, 14, 1, 15]

structure Header where
  codes : Codes
  /-- the code for sizes, and how many of its sizes are sent -/
  sizeCode : List Nat
  sent : Nat
  items : List SizeItem

def Header.encode (h : Header) : List Bool :=
  Bits.ofNat 5 (h.codes.lit.length - 257) ++ (Bits.ofNat 5 (h.codes.dist.length - 1) ++ (Bits.ofNat 4 (h.sent - 4) ++
    ((sizeOrder.take h.sent).flatMap (fun i => Bits.ofNat 3 (size h.sizeCode i)) ++ encodeItems h.sizeCode h.items)))

structure Header.Valid (h : Header) : Prop where
  lit : 257 ≤ h.codes.lit.length ∧ h.codes.lit.length ≤ 288
  dist : 1 ≤ h.codes.dist.length ∧ h.codes.dist.length ≤ 32
  sent : 4 ≤ h.sent ∧ h.sent ≤ 19
  sizeCode : h.sizeCode.length = 19 ∧ ∀ l ∈ h.sizeCode, l < 8
  unsent : ∀ i ∈ sizeOrder.drop h.sent, size h.sizeCode i = 0
  items : ValidItems h.sizeCode [] h.items
  expand : expandItems [] h.items = h.codes.lit ++ h.codes.dist
  properSizes : Proper h.sizeCode
  properLit : Proper h.codes.lit
  properDist : Proper h.codes.dist

/-! ## Blocks -/

inductive Block where
  /-- with the value of the bits before the data begins -/
  | stored (pad : Nat) (data : List UInt8)
  | fixed (ts : List Token)
  | dynamic (h : Header) (ts : List Token)

/-- The bits up to the next byte -/
def padding (pos : Nat) : Nat := (8 - pos % 8) % 8

def encodeStored (data : List UInt8) : List Mark := data.flatMap fun b => emit (Bits.ofNat 8 b.toNat) [b]

/-- The block from bit `pos` of the stream on -/
def Block.encode (pos : Nat) (final : Bool) (hist : List UInt8) : Block → List Mark
  | .stored pad data =>
    silent (final :: Bits.ofNat 2 0) ++ (silent (Bits.ofNat (padding (pos + 3)) pad) ++
      (silent (Bits.ofNat 16 data.length ++ Bits.ofNat 16 (65535 - data.length)) ++ encodeStored data))
  | .fixed ts => silent (final :: Bits.ofNat 2 1) ++ encodeTokens ⟨fixedLit, fixedDist⟩ hist ts
  | .dynamic h ts => silent (final :: Bits.ofNat 2 2) ++ (silent h.encode ++ encodeTokens h.codes hist ts)

def Block.data (hist : List UInt8) : Block → List UInt8
  | .stored _ data => data
  | .fixed ts => tokensData hist ts
  | .dynamic _ ts => tokensData hist ts

def Block.Valid (hist : List UInt8) : Block → Prop
  | .stored _ data => data.length < 2 ^ 16
  | .fixed ts => ValidTokens ⟨fixedLit, fixedDist⟩ hist ts
  | .dynamic h ts => h.Valid ∧ ValidTokens h.codes hist ts

/-- Blocks, of which the last is marked, and what comes after them -/
def encodeBlocks (trailer : Nat → List Bool) (pos : Nat) (hist : List UInt8) : List Block → List Mark
  | [] => silent (trailer pos)
  | b :: bs =>
    b.encode pos bs.isEmpty hist ++
      encodeBlocks trailer (pos + (b.encode pos bs.isEmpty hist).length) (hist ++ b.data hist) bs

def blocksData (hist : List UInt8) : List Block → List UInt8
  | [] => []
  | b :: bs => b.data hist ++ blocksData (hist ++ b.data hist) bs

def ValidBlocks (hist : List UInt8) : List Block → Prop
  | [] => True
  | b :: bs => b.Valid hist ∧ ValidBlocks (hist ++ b.data hist) bs

/-! ## What the blocks say -/

theorem encodeStored_cons (b : UInt8) (data : List UInt8) :
    encodeStored (b :: data) = emit (Bits.ofNat 8 b.toNat) [b] ++ encodeStored data := rfl

theorem output_byte (b : UInt8) : output (emit (Bits.ofNat 8 b.toNat) [b]) = [b] :=
  output_emit (List.cons_ne_nil _ _) [b]

theorem bits_encodeStored (data : List UInt8) : bits (encodeStored data) = Bits.ofBytes data := by
  induction data with
  | nil => rfl
  | cons b data ih => rw [encodeStored_cons, bits_append, bits_emit, ih, Bits.ofBytes_cons]

theorem output_encodeStored (data : List UInt8) : output (encodeStored data) = data := by
  induction data with
  | nil => rfl
  | cons b data ih => rw [encodeStored_cons, output_append, output_byte, ih, List.singleton_append]

theorem word_ne_nil {sizes : List Nat} {s : Nat} (h : size sizes s ≠ 0) : word sizes s ≠ [] := by
  rw [← List.length_pos_iff, Canonical.length_word]
  exact Nat.pos_of_ne_zero h

theorem Token.output_encode {c : Codes} {hist : List UInt8} {t : Token} (h : t.Valid c hist) :
    output (t.encode c hist) = t.data hist := by
  cases t with
  | literal b => exact output_emit (word_ne_nil h) [b]
  | copy n ex d dx =>
    obtain ⟨-, -, -, hsize, -⟩ := h
    rw [Token.encode, output_append, output_silent, List.nil_append,
      output_emit (List.append_ne_nil_of_left_ne_nil (word_ne_nil hsize) _)]

theorem output_encodeTokens {c : Codes} {hist : List UInt8} {ts : List Token} (h : ValidTokens c hist ts) :
    output (encodeTokens c hist ts) = tokensData hist ts := by
  induction ts generalizing hist with
  | nil => exact output_silent _
  | cons t ts ih => rw [encodeTokens, output_append, Token.output_encode h.1, ih h.2, tokensData]

theorem Block.output_encode {pos : Nat} {final : Bool} {hist : List UInt8} {b : Block} (h : b.Valid hist) :
    output (b.encode pos final hist) = b.data hist := by
  cases b with
  | stored pad data => simp only [Block.encode, output_append, output_silent, List.nil_append, output_encodeStored, Block.data]
  | fixed ts => rw [Block.encode, output_append, output_silent, List.nil_append, output_encodeTokens h, Block.data]
  | dynamic hd ts =>
    rw [Block.encode, output_append, output_silent, List.nil_append, output_append, output_silent, List.nil_append,
      output_encodeTokens h.2, Block.data]

theorem output_encodeBlocks {trailer : Nat → List Bool} {pos : Nat} {hist : List UInt8} {bs : List Block}
    (h : ValidBlocks hist bs) : output (encodeBlocks trailer pos hist bs) = blocksData hist bs := by
  induction bs generalizing pos hist with
  | nil => exact output_silent _
  | cons b bs ih => rw [encodeBlocks, output_append, Block.output_encode h.1, ih h.2, blocksData]

/-- Blocks end where their trailer does. -/
theorem length_encodeBlocks (trailer : Nat → List Bool) (h : ∀ pos, 8 ∣ pos + (trailer pos).length)
    (pos : Nat) (hist : List UInt8) (bs : List Block) : 8 ∣ pos + (encodeBlocks trailer pos hist bs).length := by
  induction bs generalizing pos hist with
  | nil => rw [encodeBlocks, length_silent]; exact h pos
  | cons b bs ih => rw [encodeBlocks, List.length_append, ← Nat.add_assoc]; exact ih _ _

theorem padding_dvd (pos : Nat) : 8 ∣ pos + padding pos := by
  unfold padding
  omega

/-! ## Streams -/

/-- The checksum of a zlib stream -/
def adler (data : List UInt8) : Nat × Nat :=
  data.foldl (fun (a, b) x => ((a + x.toNat) % 65521, (b + (a + x.toNat)) % 65521)) (1, 0)

def adlerBytes (data : List UInt8) : Vector UInt8 4 :=
  #v[UInt8.ofNat ((adler data).2 / 256), UInt8.ofNat (adler data).2, UInt8.ofNat ((adler data).1 / 256), UInt8.ofNat (adler data).1]

/-- A deflate stream, with the value of its last bits -/
def raw (pad : Nat) (blocks : List Block) : List Mark :=
  encodeBlocks (fun pos => Bits.ofNat (padding pos) pad) 0 [] blocks

/-- A zlib stream, with its two header bytes and the checksum it claims -/
def zlib (cmf flg : UInt8) (pad : Nat) (sum : Vector UInt8 4) (blocks : List Block) : List Mark :=
  silent (Bits.ofBytes [cmf, flg]) ++
    encodeBlocks (fun pos => Bits.ofNat (padding pos) pad ++ Bits.ofBytes sum.toList) 16 [] blocks

theorem output_raw {pad : Nat} {blocks : List Block} (h : ValidBlocks [] blocks) :
    output (raw pad blocks) = blocksData [] blocks := output_encodeBlocks h

theorem output_zlib {cmf flg : UInt8} {pad : Nat} {sum : Vector UInt8 4} {blocks : List Block} (h : ValidBlocks [] blocks) :
    output (zlib cmf flg pad sum blocks) = blocksData [] blocks := by
  rw [zlib, output_append, output_silent, List.nil_append, output_encodeBlocks h]

/-- A stream is a whole number of bytes. -/
theorem length_raw (pad : Nat) (blocks : List Block) : 8 ∣ (raw pad blocks).length := by
  have := length_encodeBlocks (fun pos => Bits.ofNat (padding pos) pad)
    (fun pos => by rw [Bits.length_ofNat]; exact padding_dvd pos) 0 [] blocks
  rwa [Nat.zero_add] at this

theorem length_zlib (cmf flg : UInt8) (pad : Nat) (sum : Vector UInt8 4) (blocks : List Block) :
    8 ∣ (zlib cmf flg pad sum blocks).length := by
  have hall := length_encodeBlocks (fun pos => Bits.ofNat (padding pos) pad ++ Bits.ofBytes sum.toList)
    (fun pos => by
      rw [List.length_append, Bits.length_ofNat, Bits.length_ofBytes, ← Nat.add_assoc]
      exact Nat.dvd_add (padding_dvd pos) (Nat.dvd_mul_right 8 _)) 16 [] blocks
  rw [zlib, List.length_append, length_silent, Bits.length_ofBytes]
  exact hall

end Deflate
