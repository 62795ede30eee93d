import Mathlib.Data.BitVec
import Mathlib.Tactic.IntervalCases
/-
# 32-bit words and bytes

Big- and little-endian words of four bytes, the byte reversal that links them,
rotations and the bitwise identities hash functions and their hand-tuned
variants differ by. A byte is a `UInt8`, a word a `BitVec 32`.
-/

namespace Words

abbrev Word := BitVec 32

/-- A byte as a word. -/
def word8 (b : UInt8) : Word := b.toBitVec.setWidth 32

/-- The word whose most significant byte comes first. -/
def beWord (b0 b1 b2 b3 : UInt8) : Word :=
  word8 b0 <<< 24 ||| word8 b1 <<< 16 ||| word8 b2 <<< 8 ||| word8 b3

/-- The word whose least significant byte comes first. -/
def leWord (b0 b1 b2 b3 : UInt8) : Word :=
  word8 b0 ||| word8 b1 <<< 8 ||| word8 b2 <<< 16 ||| word8 b3 <<< 24

/-- Byte reversal of a word. -/
def byteRev (x : Word) : Word :=
  x <<< 24 ||| (x &&& 0xff00#32) <<< 8 ||| (x >>> 8) &&& 0xff00#32 ||| x >>> 24

/-- Byte `i` of a word, counted from the least significant one. -/
def byteOf (x : Word) (i : Nat) : UInt8 := ⟨(x >>> (8 * i)).setWidth 8⟩

/-- The four bytes of a word, most significant first. -/
def beBytes (x : Word) : List UInt8 := [byteOf x 3, byteOf x 2, byteOf x 1, byteOf x 0]

/-- A property of every byte, from the 256 numbers. -/
theorem byte_of_toNat {P : UInt8 → Prop} (h : ∀ n < 256, P (UInt8.ofNat n)) (b : UInt8) : P b := by
  have := h b.toNat b.toNat_lt
  rwa [UInt8.ofNat_toNat] at this

theorem byteRev_leWord (b0 b1 b2 b3 : UInt8) : byteRev (leWord b0 b1 b2 b3) = beWord b0 b1 b2 b3 := by
  apply BitVec.eq_of_getLsbD_eq
  intro i hi
  simp only [byteRev, leWord, beWord, word8, BitVec.getLsbD_or, BitVec.getLsbD_and,
    BitVec.getLsbD_shiftLeft, BitVec.getLsbD_ushiftRight, BitVec.getLsbD_setWidth]
  interval_cases i <;> simp

theorem leWord_byteOf (x : Word) : leWord (byteOf x 0) (byteOf x 1) (byteOf x 2) (byteOf x 3) = x := by
  apply BitVec.eq_of_getLsbD_eq
  intro i hi
  simp only [leWord, byteOf, word8, BitVec.getLsbD_or, BitVec.getLsbD_shiftLeft, BitVec.getLsbD_ushiftRight,
    BitVec.getLsbD_setWidth]
  interval_cases i <;> simp

theorem beWord_byteOf (x : Word) : beWord (byteOf x 3) (byteOf x 2) (byteOf x 1) (byteOf x 0) = x := by
  apply BitVec.eq_of_getLsbD_eq
  intro i hi
  simp only [beWord, byteOf, word8, BitVec.getLsbD_or, BitVec.getLsbD_shiftLeft, BitVec.getLsbD_ushiftRight,
    BitVec.getLsbD_setWidth]
  interval_cases i <;> simp

theorem beBytes_beWord (b0 b1 b2 b3 : UInt8) : beBytes (beWord b0 b1 b2 b3) = [b0, b1, b2, b3] := by
  have key : ∀ k b, (∀ i, i < 8 → (beWord b0 b1 b2 b3).getLsbD (8 * k + i) = b.toBitVec.getLsbD i) →
      byteOf (beWord b0 b1 b2 b3) k = b := fun k b h => by
    refine UInt8.toBitVec_inj.mp (BitVec.eq_of_getLsbD_eq fun i hi => ?_)
    simp only [byteOf, BitVec.getLsbD_setWidth, BitVec.getLsbD_ushiftRight, hi, decide_true, Bool.true_and, h i hi]
  rw [beBytes, key 3 b0, key 2 b1, key 1 b2, key 0 b3] <;> intro i hi <;>
    simp only [beWord, word8, BitVec.getLsbD_or, BitVec.getLsbD_shiftLeft, BitVec.getLsbD_setWidth] <;>
    interval_cases i <;> simp

/-! ## Rotations -/

theorem rotateRight_31 (x : Word) : x.rotateRight 31 = x.rotateLeft 1 := by
  simp [BitVec.rotateRight_def, BitVec.rotateLeft_def, BitVec.or_comm]

theorem rotateRight_27 (x : Word) : x.rotateRight 27 = x.rotateLeft 5 := by
  simp [BitVec.rotateRight_def, BitVec.rotateLeft_def, BitVec.or_comm]

theorem rotateRight_2 (x : Word) : x.rotateRight 2 = x.rotateLeft 30 := by
  simp [BitVec.rotateRight_def, BitVec.rotateLeft_def, BitVec.or_comm]

/-- Rotations distribute over the bitwise connectives. -/
theorem rotateRight_xor (x y : Word) (n : Nat) :
    (x ^^^ y).rotateRight n = x.rotateRight n ^^^ y.rotateRight n := by
  apply BitVec.eq_of_getLsbD_eq
  intro i hi
  simp only [BitVec.getLsbD_rotateRight, BitVec.getLsbD_xor]
  by_cases h : i < 32 - n % 32 <;> simp [h, hi]

theorem rotateRight_30_2 (x : Word) : (x.rotateRight 30).rotateRight 2 = x := by
  apply BitVec.eq_of_getLsbD_eq
  intro i hi
  simp only [BitVec.getLsbD_rotateRight]
  interval_cases i <;> simp

/-! ## The round functions of a hash, in the forms programs use -/

/-- FIPS 180-4 `Ch`. -/
def ch (x y z : Word) : Word := (x &&& y) ^^^ (~~~x &&& z)

/-- FIPS 180-4 `Parity`. -/
def parity (x y z : Word) : Word := x ^^^ y ^^^ z

/-- FIPS 180-4 `Maj`. -/
def maj (x y z : Word) : Word := (x &&& y) ^^^ (x &&& z) ^^^ (y &&& z)

theorem ch_select (x y z : Word) : z ^^^ (x &&& (y ^^^ z)) = ch x y z := by
  apply BitVec.eq_of_getLsbD_eq
  intro i hi
  simp only [ch, BitVec.getLsbD_xor, BitVec.getLsbD_and, BitVec.getLsbD_not, hi, decide_true, Bool.true_and]
  cases x.getLsbD i <;> cases y.getLsbD i <;> cases z.getLsbD i <;> rfl

theorem maj_or (x y z : Word) : (x &&& y) ||| (z &&& (x ||| y)) = maj x y z := by
  apply BitVec.eq_of_getLsbD_eq
  intro i hi
  simp only [maj, BitVec.getLsbD_xor, BitVec.getLsbD_and, BitVec.getLsbD_or]
  cases x.getLsbD i <;> cases y.getLsbD i <;> cases z.getLsbD i <;> rfl

end Words
