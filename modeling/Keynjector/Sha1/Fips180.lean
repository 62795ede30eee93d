import Keynjector.Lib.Words
import Keynjector.Lib.BlockHash
/-
# SHA-1 as FIPS 180 states it

The reference the implementations are compared with: an 80-word message
schedule, 80 steps on five working variables, the padding with `0x80`, zeros
and the 64-bit bit length, and the fold over 64-byte blocks. Nothing here is
taken from the C or the assembly.
-/

namespace Keynjector.Sha1

open Words

/-- The five working variables, also used for the chaining value. -/
structure Work where
  a : Word
  b : Word
  c : Word
  d : Word
  e : Word
deriving DecidableEq, Repr

/-- The variables by number. -/
def Work.get (v : Work) : Fin 5 → Word
  | 0 => v.a
  | 1 => v.b
  | 2 => v.c
  | 3 => v.d
  | 4 => v.e

/-- The constant of step `t`. -/
def K (t : Nat) : Word :=
  if t < 20 then 0x5a827999#32 else if t < 40 then 0x6ed9eba1#32
  else if t < 60 then 0x8f1bbcdc#32 else 0xca62c1d6#32

/-- The logical function of step `t`. -/
def f (t : Nat) (x y z : Word) : Word :=
  if t < 20 then ch x y z else if t < 40 then parity x y z
  else if t < 60 then maj x y z else parity x y z

/-- Step `t` on message word `w`. -/
def step (t : Nat) (w : Word) (v : Work) : Work :=
  { a := v.a.rotateLeft 5 + f t v.b v.c v.d + v.e + K t + w
    b := v.a
    c := v.b.rotateLeft 30
    d := v.c
    e := v.d }

/-- One more word of the schedule. -/
def expand (w : List Word) : List Word :=
  let t := w.length
  w ++ [(w.getD (t - 3) 0 ^^^ w.getD (t - 8) 0 ^^^ w.getD (t - 14) 0 ^^^ w.getD (t - 16) 0).rotateLeft 1]

/-- The message schedule: the 16 words of the block and 64 further ones. -/
def schedule (m : List Word) : List Word := expand^[64] m

/-- The first `n` steps. -/
def steps (W : Nat → Word) : Nat → Work → Work
  | 0, v => v
  | t + 1, v => step t (W t) (steps W t v)

/-- The compression function on a block of 16 words. -/
def compressWords (m : List Word) (h : Work) : Work :=
  let v := steps ((schedule m).getD · 0) 80 h
  { a := h.a + v.a, b := h.b + v.b, c := h.c + v.c, d := h.d + v.d, e := h.e + v.e }

/-- The 16 big-endian words of a block. -/
def blockWords (block : List UInt8) : List Word :=
  (List.range 16).map fun i =>
    beWord (block.getD (4 * i) 0) (block.getD (4 * i + 1) 0) (block.getD (4 * i + 2) 0) (block.getD (4 * i + 3) 0)

def compress (h : Work) (block : List UInt8) : Work := compressWords (blockWords block) h

def initial : Work :=
  { a := 0x67452301#32, b := 0xefcdab89#32, c := 0x98badcfe#32, d := 0x10325476#32, e := 0xc3d2e1f0#32 }

/-- A 64-bit number, most significant byte first. -/
def be64 (x : BitVec 64) : List UInt8 :=
  (List.range 8).map fun i => ⟨(x >>> (8 * (7 - i))).setWidth 8⟩

/-- The padding of a message of `len` bytes. -/
def padding (len : Nat) : List UInt8 :=
  0x80 :: List.replicate ((119 - len % 64) % 64) 0 ++ be64 (BitVec.ofNat 64 (8 * len))

/-- The 20 bytes of a chaining value. -/
def digestBytes (h : Work) : List UInt8 :=
  beBytes h.a ++ beBytes h.b ++ beBytes h.c ++ beBytes h.d ++ beBytes h.e

/-- SHA-1 of a message. -/
def sha1 (msg : List UInt8) : List UInt8 :=
  digestBytes (BlockHash.absorb 64 compress initial (msg ++ padding msg.length))

theorem sha1_abc : sha1 [0x61, 0x62, 0x63] =
    [0xa9, 0x99, 0x3e, 0x36, 0x47, 0x06, 0x81, 0x6a, 0xba, 0x3e, 0x25, 0x71, 0x78, 0x50, 0xc2, 0x6c,
     0x9c, 0xd0, 0xd8, 0x9d] := by decide +kernel

/-! ## Renaming instead of moving

Unrolled code leaves the values where they are and rotates the names of the
five variables: at step `t` the role `i` (0 for `a`, 4 for `e`) is played by
slot `i - t` modulo 5. -/

instance neZeroFive : NeZero 5 := ⟨by decide⟩

def slot (t : Nat) (i : Fin 5) : Fin 5 := i - Fin.ofNat 5 t

theorem slot_inj {t : Nat} {i j : Fin 5} : slot t i = slot t j ↔ i = j := by
  have key : ∀ k i j : Fin 5, i - k = j - k ↔ i = j := by decide
  exact key _ i j

theorem ofNat_succ (t : Nat) : Fin.ofNat 5 (t + 1) = Fin.ofNat 5 t + 1 := by
  ext
  simp [Fin.ofNat, Fin.val_add]

/-- The new `a` goes where `e` was. -/
theorem slot_succ_zero (t : Nat) : slot (t + 1) 0 = slot t 4 := by
  have key : ∀ k : Fin 5, (0 : Fin 5) - (k + 1) = 4 - k := by decide
  rw [slot, ofNat_succ]
  exact key _

/-- The other values stay and are renamed. -/
theorem slot_succ (t : Nat) (i : Fin 5) : slot (t + 1) (i + 1) = slot t i := by
  have key : ∀ k i : Fin 5, i + 1 - (k + 1) = i - k := by decide
  rw [slot, ofNat_succ]
  exact key _ i

/-! ## The schedule -/

@[simp] theorem expand_length (w : List Word) : (expand w).length = w.length + 1 := by simp [expand]

@[simp] theorem expand_iter_length (w : List Word) (k : Nat) : (expand^[k] w).length = w.length + k := by
  induction k with
  | zero => rfl
  | succ k ih => rw [Function.iterate_succ_apply', expand_length, ih]; rfl

theorem expand_getD_of_lt {w : List Word} {t : Nat} (h : t < w.length) : (expand w).getD t 0 = w.getD t 0 := by
  simp [expand, List.getElem?_append_left h]

theorem expand_iter_getD_of_lt {w : List Word} {t : Nat} (h : t < w.length) (k : Nat) :
    (expand^[k] w).getD t 0 = w.getD t 0 := by
  induction k with
  | zero => rfl
  | succ k ih => rw [Function.iterate_succ_apply', expand_getD_of_lt (by simp; omega), ih]

variable {m : List Word} (hm : m.length = 16)
include hm

theorem schedule_of_lt {t : Nat} (ht : t < 16) : (schedule m).getD t 0 = m.getD t 0 :=
  expand_iter_getD_of_lt (by omega) 64

/-- The recurrence of the schedule. -/
theorem schedule_of_ge {t : Nat} (h16 : 16 ≤ t) (h80 : t < 80) :
    (schedule m).getD t 0 = ((schedule m).getD (t - 3) 0 ^^^ (schedule m).getD (t - 8) 0 ^^^
      (schedule m).getD (t - 14) 0 ^^^ (schedule m).getD (t - 16) 0).rotateLeft 1 := by
  -- the schedule extends the `t + 1` words after which word `t` is fixed
  have hcut : ∀ j ≤ t, (schedule m).getD j 0 = (expand (expand^[t - 16] m)).getD j 0 := by
    intro j hj
    rw [schedule, show 64 = (79 - t) + ((t - 16) + 1) by omega, Function.iterate_add_apply,
      Function.iterate_succ_apply', expand_iter_getD_of_lt (by simp [hm]; omega)]
  have hlen : (expand^[t - 16] m).length = t := by simp [hm]; omega
  have hold : ∀ j < t, (schedule m).getD j 0 = (expand^[t - 16] m).getD j 0 := by
    intro j hj
    rw [hcut j (by omega), expand_getD_of_lt (by omega)]
  rw [hcut t le_rfl, hold (t - 3) (by omega), hold (t - 8) (by omega), hold (t - 14) (by omega),
    hold (t - 16) (by omega)]
  simp [expand, hlen]

end Keynjector.Sha1
