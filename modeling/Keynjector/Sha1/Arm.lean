import Keynjector.Lib.Words
import Keynjector.Lib.Straight
/-
# `sha1_process` in ARM assembly (sha1-asm.s)

The machine the routine needs: the registers it names, the words of the stack
from `sp` upwards, a byte memory read and written in little-endian words, and
the instructions of the listing. Multiple loads and stores fault on an address
that is not word aligned, and reading above the stack that is there faults.

| here | there |
| --- | --- |
| `sha1C`                          | `.sha1_C` (sha1-asm.s:23) |
| `copyM`                          | macro `copy_m` (:30) |
| `updateW`, `updateWs`            | macros `update_w` (:43), `update_ws` (:55) |
| `shaIter1`, `shaIter2`, `shaIter3` | macros `sha_iter_1` (:74), `sha_iter_2` (:85), `sha_iter_3` (:95) |
| `sha1ProcessAsm`                 | the body (:107-233) |
-/

namespace Keynjector.Sha1.Arm

open Words

/-- The registers of the listing, `sp` and `pc` apart. -/
inductive Reg where
  | r0 | r1 | r2 | r3 | r4 | r5 | r6 | r7 | r8 | ip | lr
deriving DecidableEq, Repr

structure State where
  reg : Reg → Word
  /-- The words at `sp`, `sp + 4`, … -/
  stack : List Word
  mem : Word → UInt8
  /-- What was popped into `pc`. -/
  pc : Option Word

namespace State

def set (s : State) (r : Reg) (x : Word) : State := { s with reg := fun q => if q = r then x else s.reg q }

@[simp] theorem reg_set (s : State) (r q : Reg) (x : Word) :
    (s.set r x).reg q = if q = r then x else s.reg q := rfl
@[simp] theorem stack_set (s : State) (r : Reg) (x : Word) : (s.set r x).stack = s.stack := rfl
@[simp] theorem mem_set (s : State) (r : Reg) (x : Word) : (s.set r x).mem = s.mem := rfl
@[simp] theorem pc_set (s : State) (r : Reg) (x : Word) : (s.set r x).pc = s.pc := rfl

end State

/-- The word at an address. -/
def loadWord (mem : Word → UInt8) (a : Word) : Word := leWord (mem a) (mem (a + 1)) (mem (a + 2)) (mem (a + 3))

/-- Memory after a word is stored. -/
def storeWord (mem : Word → UInt8) (a x : Word) : Word → UInt8 := fun b =>
  if b = a then byteOf x 0 else if b = a + 1 then byteOf x 1
  else if b = a + 2 then byteOf x 2 else if b = a + 3 then byteOf x 3 else mem b

/-- Consecutive words from `a`, into registers. -/
def loadRegs (mem : Word → UInt8) : Word → List Reg → State → State
  | _, [], s => s
  | a, r :: rs, s => loadRegs mem (a + 4) rs (s.set r (loadWord mem a))

/-- Registers to consecutive words from `a`. -/
def storeRegs (reg : Reg → Word) : Word → List Reg → (Word → UInt8) → Word → UInt8
  | _, [], mem => mem
  | a, r :: rs, mem => storeRegs reg (a + 4) rs (storeWord mem a (reg r))

/-- Popping registers off the stack. -/
def popRegs : List Reg → State → Option State
  | [], s => some s
  | r :: rs, s =>
    match s.stack with
    | [] => none
    | x :: st => popRegs rs ({ s with stack := st }.set r x)

/-- A second operand: a register, rotated right. -/
structure Op2 where
  reg : Reg
  ror : Nat
deriving DecidableEq, Repr

def Op2.eval (o : Op2) (s : State) : Word := (s.reg o.reg).rotateRight o.ror

instance : Coe Reg Op2 := ⟨fun r => ⟨r, 0⟩⟩

def Reg.ror (r : Reg) (n : Nat) : Op2 := ⟨r, n⟩

/-- `.sha1_C`. -/
def sha1C : List Word := [0x5a827999#32, 0x6ed9eba1#32, 0x8f1bbcdc#32, 0xca62c1d6#32]

inductive Instr where
  /-- `ldmdb n!, {rs}` -/
  | ldmdb (n : Reg) (rs : List Reg)
  /-- `ldmia n, {rs}` -/
  | ldmia (n : Reg) (rs : List Reg)
  /-- `stmia n, {rs}` -/
  | stmia (n : Reg) (rs : List Reg)
  /-- `stmdb sp!, {rs}`, also written `push {rs}` -/
  | push (rs : List Reg)
  /-- `pop {rs, pc}` -/
  | popPc (rs : List Reg)
  | rev (d m : Reg)
  /-- `ldr d, [sp, #off]` -/
  | ldrSp (d : Reg) (off : Nat)
  /-- `str d, [sp, #off]` -/
  | strSp (d : Reg) (off : Nat)
  /-- `ldr d, .sha1_C + off` -/
  | ldrC (d : Reg) (off : Nat)
  | mov (d : Reg) (m : Op2)
  | eor (d n : Reg) (m : Op2)
  | and (d n : Reg) (m : Op2)
  | orr (d n : Reg) (m : Op2)
  | add (d n : Reg) (m : Op2)
  /-- `add d, #imm` -/
  | addImm (d : Reg) (imm : Nat)
  /-- `add sp, #imm` -/
  | addSp (imm : Nat)
deriving DecidableEq, Repr

/-- One instruction; `none` is a fault. -/
def exec : Instr → State → Option State
  | .ldmdb n rs, s =>
    let a := s.reg n - BitVec.ofNat 32 (4 * rs.length)
    if a.toNat % 4 = 0 then some ((loadRegs s.mem a rs s).set n a) else none
  | .ldmia n rs, s =>
    if (s.reg n).toNat % 4 = 0 then some (loadRegs s.mem (s.reg n) rs s) else none
  | .stmia n rs, s =>
    if (s.reg n).toNat % 4 = 0 then some { s with mem := storeRegs s.reg (s.reg n) rs s.mem } else none
  | .push rs, s => some { s with stack := rs.map s.reg ++ s.stack }
  | .popPc rs, s =>
    (popRegs rs s).bind fun s =>
      match s.stack with
      | [] => none
      | x :: st => some { s with stack := st, pc := some x }
  | .rev d m, s => some (s.set d (byteRev (s.reg m)))
  | .ldrSp d off, s => if off % 4 = 0 then s.stack[off / 4]?.map (s.set d) else none
  | .strSp d off, s =>
    if off % 4 = 0 ∧ off / 4 < s.stack.length then some { s with stack := s.stack.set (off / 4) (s.reg d) }
    else none
  | .ldrC d off, s => if off % 4 = 0 then sha1C[off / 4]?.map (s.set d) else none
  | .mov d m, s => some (s.set d (m.eval s))
  | .eor d n m, s => some (s.set d (s.reg n ^^^ m.eval s))
  | .and d n m, s => some (s.set d (s.reg n &&& m.eval s))
  | .orr d n m, s => some (s.set d (s.reg n ||| m.eval s))
  | .add d n m, s => some (s.set d (s.reg n + m.eval s))
  | .addImm d imm, s => some (s.set d (s.reg d + BitVec.ofNat 32 imm))
  | .addSp imm, s =>
    if imm % 4 = 0 ∧ imm / 4 ≤ s.stack.length then some { s with stack := s.stack.drop (imm / 4) } else none

/-- Run a listing. -/
def run (p : List Instr) (s : State) : Option State := Straight.run exec p s

/-! ## The macros -/

open Reg Instr

def copyM : List Instr :=
  [ldmdb r1 [r2, r3, r4, r5, r6, r7, r8, ip],
   rev r2 r2, rev r3 r3, rev r4 r4, rev r5 r5, rev r6 r6, rev r7 r7, rev r8 r8, rev ip ip,
   push [r2, r3, r4, r5, r6, r7, r8, ip]]

def updateW (i1 i2 i3 i4 : Nat) : List Instr :=
  [ldrSp r7 i1, ldrSp r8 i2, ldrSp ip i3, ldrSp lr i4,
   eor r7 r7 r8, eor ip ip lr, eor r7 r7 ip, mov r7 (r7.ror 31), strSp r7 i1]

def updateWs : List Instr := List.flatten
  [updateW 0 52 32 8, updateW 4 56 36 12, updateW 8 60 40 16, updateW 12 0 44 20,
   updateW 16 4 48 24, updateW 20 8 52 28, updateW 24 12 56 32, updateW 28 16 60 36,
   updateW 32 20 0 40, updateW 36 24 4 44, updateW 40 28 8 48, updateW 44 32 12 52,
   updateW 48 36 16 56, updateW 52 40 20 60, updateW 56 44 24 0, updateW 60 48 28 4]

def shaIter1 (a b c d e : Reg) (w : Nat) : List Instr :=
  [eor r7 c d, and r7 b (r7.ror 2), eor r7 r7 (d.ror 2), ldrSp r8 w,
   add e r7 (e.ror 2), add e e (a.ror 27), add e e r6, add e e r8]

def shaIter2 (a b c d e : Reg) (w : Nat) : List Instr :=
  [eor r7 c d, eor r7 b (r7.ror 2), ldrSp r8 w,
   add e r7 (e.ror 2), add e e (a.ror 27), add e e r6, add e e r8]

def shaIter3 (a b c d e : Reg) (w : Nat) : List Instr :=
  [orr r7 b (c.ror 2), and r7 r7 (d.ror 2), and ip b (c.ror 2), orr r7 r7 ip, ldrSp r8 w,
   add e r7 (e.ror 2), add e e (a.ror 27), add e e r6, add e e r8]

/-! ## The routine -/

/-- `sha1_process`, as the assembler expands it. -/
def sha1ProcessAsm : List Instr := List.flatten
  [[push [r4, r5, r6, r7, r8, lr]],
   [addImm r1 64],
   copyM,
   copyM,
   [ldmia r0 [r1, r2, r3, r4, r5]],
   [mov r3 (r3.ror 30), mov r4 (r4.ror 30), mov r5 (r5.ror 30)],
   [ldrC r6 0],
   shaIter1 r1 r2 r3 r4 r5 0, shaIter1 r5 r1 r2 r3 r4 4,
   shaIter1 r4 r5 r1 r2 r3 8, shaIter1 r3 r4 r5 r1 r2 12,
   shaIter1 r2 r3 r4 r5 r1 16, shaIter1 r1 r2 r3 r4 r5 20,
   shaIter1 r5 r1 r2 r3 r4 24, shaIter1 r4 r5 r1 r2 r3 28,
   shaIter1 r3 r4 r5 r1 r2 32, shaIter1 r2 r3 r4 r5 r1 36,
   shaIter1 r1 r2 r3 r4 r5 40, shaIter1 r5 r1 r2 r3 r4 44,
   shaIter1 r4 r5 r1 r2 r3 48, shaIter1 r3 r4 r5 r1 r2 52,
   shaIter1 r2 r3 r4 r5 r1 56, shaIter1 r1 r2 r3 r4 r5 60,
   updateWs,
   shaIter1 r5 r1 r2 r3 r4 0, shaIter1 r4 r5 r1 r2 r3 4,
   shaIter1 r3 r4 r5 r1 r2 8, shaIter1 r2 r3 r4 r5 r1 12,
   [ldrC r6 4],
   shaIter2 r1 r2 r3 r4 r5 16, shaIter2 r5 r1 r2 r3 r4 20,
   shaIter2 r4 r5 r1 r2 r3 24, shaIter2 r3 r4 r5 r1 r2 28,
   shaIter2 r2 r3 r4 r5 r1 32, shaIter2 r1 r2 r3 r4 r5 36,
   shaIter2 r5 r1 r2 r3 r4 40, shaIter2 r4 r5 r1 r2 r3 44,
   shaIter2 r3 r4 r5 r1 r2 48, shaIter2 r2 r3 r4 r5 r1 52,
   shaIter2 r1 r2 r3 r4 r5 56, shaIter2 r5 r1 r2 r3 r4 60,
   updateWs,
   shaIter2 r4 r5 r1 r2 r3 0, shaIter2 r3 r4 r5 r1 r2 4,
   shaIter2 r2 r3 r4 r5 r1 8, shaIter2 r1 r2 r3 r4 r5 12,
   shaIter2 r5 r1 r2 r3 r4 16, shaIter2 r4 r5 r1 r2 r3 20,
   shaIter2 r3 r4 r5 r1 r2 24, shaIter2 r2 r3 r4 r5 r1 28,
   [ldrC r6 8],
   shaIter3 r1 r2 r3 r4 r5 32, shaIter3 r5 r1 r2 r3 r4 36,
   shaIter3 r4 r5 r1 r2 r3 40, shaIter3 r3 r4 r5 r1 r2 44,
   shaIter3 r2 r3 r4 r5 r1 48, shaIter3 r1 r2 r3 r4 r5 52,
   shaIter3 r5 r1 r2 r3 r4 56, shaIter3 r4 r5 r1 r2 r3 60,
   updateWs,
   shaIter3 r3 r4 r5 r1 r2 0, shaIter3 r2 r3 r4 r5 r1 4,
   shaIter3 r1 r2 r3 r4 r5 8, shaIter3 r5 r1 r2 r3 r4 12,
   shaIter3 r4 r5 r1 r2 r3 16, shaIter3 r3 r4 r5 r1 r2 20,
   shaIter3 r2 r3 r4 r5 r1 24, shaIter3 r1 r2 r3 r4 r5 28,
   shaIter3 r5 r1 r2 r3 r4 32, shaIter3 r4 r5 r1 r2 r3 36,
   shaIter3 r3 r4 r5 r1 r2 40, shaIter3 r2 r3 r4 r5 r1 44,
   [ldrC r6 12],
   shaIter2 r1 r2 r3 r4 r5 48, shaIter2 r5 r1 r2 r3 r4 52,
   shaIter2 r4 r5 r1 r2 r3 56, shaIter2 r3 r4 r5 r1 r2 60,
   updateWs,
   shaIter2 r2 r3 r4 r5 r1 0, shaIter2 r1 r2 r3 r4 r5 4,
   shaIter2 r5 r1 r2 r3 r4 8, shaIter2 r4 r5 r1 r2 r3 12,
   shaIter2 r3 r4 r5 r1 r2 16, shaIter2 r2 r3 r4 r5 r1 20,
   shaIter2 r1 r2 r3 r4 r5 24, shaIter2 r5 r1 r2 r3 r4 28,
   shaIter2 r4 r5 r1 r2 r3 32, shaIter2 r3 r4 r5 r1 r2 36,
   shaIter2 r2 r3 r4 r5 r1 40, shaIter2 r1 r2 r3 r4 r5 44,
   shaIter2 r5 r1 r2 r3 r4 48, shaIter2 r4 r5 r1 r2 r3 52,
   shaIter2 r3 r4 r5 r1 r2 56, shaIter2 r2 r3 r4 r5 r1 60,
   [ldmia r0 [r6, r7, r8, ip, lr]],
   [add r1 r6 r1, add r2 r7 r2, add r3 r8 (r3.ror 2), add r4 ip (r4.ror 2), add r5 lr (r5.ror 2)],
   [stmia r0 [r1, r2, r3, r4, r5]],
   [addSp 64],
   [popPc [r4, r5, r6, r7, r8]]]

end Keynjector.Sha1.Arm
