import Keynjector.Cast128.Tables
/-
# CAST-128 (cast128.c:36-222)

| here | there |
| --- | --- |
| `Quad`, `Quad.b0` … `Quad.bF` | `x[4]`, `z[4]` and the byte macros `x0` … `zF` (cast128.c:45-90) |
| `mixZ`, `mixX`                | the four lines that fill `z` from `x`, and `x` from `z`, each written four times (:92-150) |
| `keysZ0` … `keysX12`          | the right-hand sides of `Km[0..3]` … `Km[12..15]`, the same as those of `Kr` |
| `cast128Init`                 | `cast128_init` (:36) |
| `F1`, `F2`, `F3`              | the macros of that name (:157-170) |
| `cast128Encrypt`              | `cast128_encrypt` (:173) |
-/

namespace Keynjector.Cast128

open Words

def B0 (x : Word) : Word := x >>> 24
def B1 (x : Word) : Word := (x >>> 16) &&& 0xff#32
def B2 (x : Word) : Word := (x >>> 8) &&& 0xff#32
def B3 (x : Word) : Word := x &&& 0xff#32

/-- A table at a byte. -/
def look (S : List Nat) (i : Word) : Word := BitVec.ofNat 32 (S.getD i.toNat 0)

def s1 : Word → Word := look S1
def s2 : Word → Word := look S2
def s3 : Word → Word := look S3
def s4 : Word → Word := look S4
def s5 : Word → Word := look S5
def s6 : Word → Word := look S6
def s7 : Word → Word := look S7
def s8 : Word → Word := look S8

/-- Four words and their sixteen bytes. -/
structure Quad where
  w0 : Word
  w1 : Word
  w2 : Word
  w3 : Word

namespace Quad

variable (q : Quad)

def b0 := B0 q.w0
def b1 := B1 q.w0
def b2 := B2 q.w0
def b3 := B3 q.w0
def b4 := B0 q.w1
def b5 := B1 q.w1
def b6 := B2 q.w1
def b7 := B3 q.w1
def b8 := B0 q.w2
def b9 := B1 q.w2
def bA := B2 q.w2
def bB := B3 q.w2
def bC := B0 q.w3
def bD := B1 q.w3
def bE := B2 q.w3
def bF := B3 q.w3

end Quad

/-- `z0z1z2z3 = …; z4z5z6z7 = …; z8z9zAzB = …; zCzDzEzF = …;` -/
def mixZ (x z : Quad) : Quad :=
  let z := { z with w0 := x.w0 ^^^ s5 x.bD ^^^ s6 x.bF ^^^ s7 x.bC ^^^ s8 x.bE ^^^ s7 x.b8 }
  let z := { z with w1 := x.w2 ^^^ s5 z.b0 ^^^ s6 z.b2 ^^^ s7 z.b1 ^^^ s8 z.b3 ^^^ s8 x.bA }
  let z := { z with w2 := x.w3 ^^^ s5 z.b7 ^^^ s6 z.b6 ^^^ s7 z.b5 ^^^ s8 z.b4 ^^^ s5 x.b9 }
  { z with w3 := x.w1 ^^^ s5 z.bA ^^^ s6 z.b9 ^^^ s7 z.bB ^^^ s8 z.b8 ^^^ s6 x.bB }

/-- `x0x1x2x3 = …; x4x5x6x7 = …; x8x9xAxB = …; xCxDxExF = …;` -/
def mixX (z x : Quad) : Quad :=
  let x := { x with w0 := z.w2 ^^^ s5 z.b5 ^^^ s6 z.b7 ^^^ s7 z.b4 ^^^ s8 z.b6 ^^^ s7 z.b0 }
  let x := { x with w1 := z.w0 ^^^ s5 x.b0 ^^^ s6 x.b2 ^^^ s7 x.b1 ^^^ s8 x.b3 ^^^ s8 z.b2 }
  let x := { x with w2 := z.w1 ^^^ s5 x.b7 ^^^ s6 x.b6 ^^^ s7 x.b5 ^^^ s8 x.b4 ^^^ s5 z.b1 }
  { x with w3 := z.w3 ^^^ s5 x.bA ^^^ s6 x.b9 ^^^ s7 x.bB ^^^ s8 x.b8 ^^^ s6 z.b3 }

def keysZ0 (z : Quad) : List Word :=
  [s5 z.b8 ^^^ s6 z.b9 ^^^ s7 z.b7 ^^^ s8 z.b6 ^^^ s5 z.b2,
   s5 z.bA ^^^ s6 z.bB ^^^ s7 z.b5 ^^^ s8 z.b4 ^^^ s6 z.b6,
   s5 z.bC ^^^ s6 z.bD ^^^ s7 z.b3 ^^^ s8 z.b2 ^^^ s7 z.b9,
   s5 z.bE ^^^ s6 z.bF ^^^ s7 z.b1 ^^^ s8 z.b0 ^^^ s8 z.bC]

def keysX4 (x : Quad) : List Word :=
  [s5 x.b3 ^^^ s6 x.b2 ^^^ s7 x.bC ^^^ s8 x.bD ^^^ s5 x.b8,
   s5 x.b1 ^^^ s6 x.b0 ^^^ s7 x.bE ^^^ s8 x.bF ^^^ s6 x.bD,
   s5 x.b7 ^^^ s6 x.b6 ^^^ s7 x.b8 ^^^ s8 x.b9 ^^^ s7 x.b3,
   s5 x.b5 ^^^ s6 x.b4 ^^^ s7 x.bA ^^^ s8 x.bB ^^^ s8 x.b7]

def keysZ8 (z : Quad) : List Word :=
  [s5 z.b3 ^^^ s6 z.b2 ^^^ s7 z.bC ^^^ s8 z.bD ^^^ s5 z.b9,
   s5 z.b1 ^^^ s6 z.b0 ^^^ s7 z.bE ^^^ s8 z.bF ^^^ s6 z.bC,
   s5 z.b7 ^^^ s6 z.b6 ^^^ s7 z.b8 ^^^ s8 z.b9 ^^^ s7 z.b2,
   s5 z.b5 ^^^ s6 z.b4 ^^^ s7 z.bA ^^^ s8 z.bB ^^^ s8 z.b6]

def keysX12 (x : Quad) : List Word :=
  [s5 x.b8 ^^^ s6 x.b9 ^^^ s7 x.b7 ^^^ s8 x.b6 ^^^ s5 x.b3,
   s5 x.bA ^^^ s6 x.bB ^^^ s7 x.b5 ^^^ s8 x.b4 ^^^ s6 x.b7,
   s5 x.bC ^^^ s6 x.bD ^^^ s7 x.b3 ^^^ s8 x.b2 ^^^ s7 x.b8,
   s5 x.bE ^^^ s6 x.bF ^^^ s7 x.b1 ^^^ s8 x.b0 ^^^ s8 x.bD]

/-- Half of `cast128_init`: sixteen words, and `x` and `z` as they are left. -/
def keyWords (x z : Quad) : List Word × Quad × Quad :=
  let z := mixZ x z
  let k0 := keysZ0 z
  let x := mixX z x
  let k4 := keysX4 x
  let z := mixZ x z
  let k8 := keysZ8 z
  let x := mixX z x
  let k12 := keysX12 x
  (k0 ++ k4 ++ k8 ++ k12, x, z)

/-- `cast128_ctx` -/
structure Ctx where
  Km : List Word
  Kr : List Word
deriving DecidableEq, Repr

def CAST128_KEY_SIZE : Nat := 16

/-- The word of bytes `i` to `i + 3`, first byte on top. -/
def wordAt (m : List UInt8) (i : Nat) : Word :=
  word8 (m.getD i 0) <<< 24 ||| word8 (m.getD (i + 1) 0) <<< 16 ||| word8 (m.getD (i + 2) 0) <<< 8 |||
    word8 (m.getD (i + 3) 0)

def cast128Init (key : List UInt8) : Ctx :=
  let x : Quad := ⟨wordAt key 0, wordAt key 4, wordAt key 8, wordAt key 12⟩
  -- `z` is not initialised; every word of it is written before it is read
  let (Km, x, z) := keyWords x ⟨0, 0, 0, 0⟩
  let (Kr, _, _) := keyWords x z
  { Km := Km, Kr := Kr.map (· &&& 0x1f#32) }

/-- `ROTL(x, n)` -/
def ROTL (x n : Word) : Word := x <<< n ||| x >>> (32#32 - n)

def F1 (D Km Kr : Word) : Word :=
  let I := ROTL (Km + D) Kr
  ((s1 (B0 I) ^^^ s2 (B1 I)) - s3 (B2 I)) + s4 (B3 I)

def F2 (D Km Kr : Word) : Word :=
  let I := ROTL (Km ^^^ D) Kr
  ((s1 (B0 I) - s2 (B1 I)) + s3 (B2 I)) ^^^ s4 (B3 I)

def F3 (D Km Kr : Word) : Word :=
  let I := ROTL (Km - D) Kr
  ((s1 (B0 I) + s2 (B1 I)) ^^^ s3 (B2 I)) - s4 (B3 I)

def cast128Encrypt (ctx : Ctx) (m : List UInt8) : List UInt8 :=
  let Km := fun i => ctx.Km.getD i 0
  let Kr := fun i => ctx.Kr.getD i 0
  let L := wordAt m 0
  let R := wordAt m 4
  let L := L ^^^ F1 R (Km 0) (Kr 0)
  let R := R ^^^ F2 L (Km 1) (Kr 1)
  let L := L ^^^ F3 R (Km 2) (Kr 2)
  let R := R ^^^ F1 L (Km 3) (Kr 3)
  let L := L ^^^ F2 R (Km 4) (Kr 4)
  let R := R ^^^ F3 L (Km 5) (Kr 5)
  let L := L ^^^ F1 R (Km 6) (Kr 6)
  let R := R ^^^ F2 L (Km 7) (Kr 7)
  let L := L ^^^ F3 R (Km 8) (Kr 8)
  let R := R ^^^ F1 L (Km 9) (Kr 9)
  let L := L ^^^ F2 R (Km 10) (Kr 10)
  let R := R ^^^ F3 L (Km 11) (Kr 11)
  let L := L ^^^ F1 R (Km 12) (Kr 12)
  let R := R ^^^ F2 L (Km 13) (Kr 13)
  let L := L ^^^ F3 R (Km 14) (Kr 14)
  let R := R ^^^ F1 L (Km 15) (Kr 15)
  beBytes R ++ beBytes L

@[simp] theorem cast128Encrypt_length (ctx : Ctx) (m : List UInt8) : (cast128Encrypt ctx m).length = 8 := rfl

/-- `cast128_test`: the vector of RFC 2144. -/
theorem cast128Encrypt_testVector :
    cast128Encrypt (cast128Init [0x01, 0x23, 0x45, 0x67, 0x12, 0x34, 0x56, 0x78, 0x23, 0x45, 0x67, 0x89, 0x34, 0x56,
      0x78, 0x9A]) [0x01, 0x23, 0x45, 0x67, 0x89, 0xAB, 0xCD, 0xEF] =
    [0x23, 0x8B, 0x4F, 0xE5, 0x84, 0x7E, 0x44, 0xB2] := by decide +kernel

end Keynjector.Cast128
