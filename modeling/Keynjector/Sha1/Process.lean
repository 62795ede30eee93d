import Keynjector.Sha1.Fips180
/-
# `sha1_process` in C (sha1.c:35-172)

The eighty macro lines are kept as data, one entry a line of the source, and
executed in order on the five locals and the 16-word circular buffer.

| here | there |
| --- | --- |
| `Locals`                 | `a` … `e` and `w[16]` (sha1.c:57-58) |
| `Arg.w`, `Arg.W`         | the last macro argument: `w[t]`, or the macro `W(t)` (:52) that also refreshes `w[t & 15]` |
| `Iter`, `sha1Iter1` …    | a use of `SHA1_ITER_1` … `SHA1_ITER_4` (:47-50) |
| `sha1Iters`              | lines :83-165 |
| `sha1Process`            | `sha1_process` (:56) |

`sha1Process_eq_compress`: the C equals the FIPS 180 compression function.
-/

namespace Keynjector.Sha1

open Words

/-! ## The macros -/

def ROTL1 (x : Word) : Word := x <<< 1 ||| x >>> 31
def ROTL5 (x : Word) : Word := x <<< 5 ||| x >>> 27
def ROTL30 (x : Word) : Word := x <<< 30 ||| x >>> 2
def CH (x y z : Word) : Word := z ^^^ (x &&& (y ^^^ z))
def PARITY (x y z : Word) : Word := x ^^^ y ^^^ z
def MAJ (x y z : Word) : Word := (x &&& y) ||| (z &&& (x ||| y))

def C1 : Word := 0x5a827999#32
def C2 : Word := 0x6ed9eba1#32
def C3 : Word := 0x8f1bbcdc#32
def C4 : Word := 0xca62c1d6#32

/-- The five working locals. -/
inductive Var where
  | a | b | c | d | e
deriving DecidableEq, Repr

structure Locals where
  a : Word
  b : Word
  c : Word
  d : Word
  e : Word
  /-- `uint32_t w[16]` -/
  w : List Word

namespace Locals

def get (s : Locals) : Var → Word
  | .a => s.a
  | .b => s.b
  | .c => s.c
  | .d => s.d
  | .e => s.e

def set (s : Locals) : Var → Word → Locals
  | .a, x => { s with a := x }
  | .b, x => { s with b := x }
  | .c, x => { s with c := x }
  | .d, x => { s with d := x }
  | .e, x => { s with e := x }

@[simp] theorem get_set (s : Locals) (x y : Var) (v : Word) :
    (s.set x v).get y = if x = y then v else s.get y := by
  cases x <;> cases y <;> rfl

@[simp] theorem w_set (s : Locals) (x : Var) (v : Word) : (s.set x v).w = s.w := by cases x <;> rfl

@[simp] theorem get_w (s : Locals) (w : List Word) (x : Var) : ({ s with w := w } : Locals).get x = s.get x := by
  cases x <;> rfl

end Locals

/-- The message word of a line. -/
inductive Arg where
  | w (t : Nat)
  | W (t : Nat)
deriving DecidableEq, Repr

/-- Reading the message word; the macro `W(t)` stores what it computes. -/
def Arg.eval (s : Locals) : Arg → Word × Locals
  | .w t => (s.w.getD t 0, s)
  | .W t =>
    let x := ROTL1 (s.w.getD ((t - 3) % 16) 0 ^^^ s.w.getD ((t - 8) % 16) 0 ^^^
      s.w.getD ((t - 14) % 16) 0 ^^^ s.w.getD (t % 16) 0)
    (x, { s with w := s.w.set (t % 16) x })

/-- Which of the four `SHA1_ITER` macros. -/
inductive Kind where
  | one | two | three | four
deriving DecidableEq, Repr

def Kind.fn : Kind → Word → Word → Word → Word
  | .one => CH
  | .two => PARITY
  | .three => MAJ
  | .four => PARITY

def Kind.const : Kind → Word
  | .one => C1
  | .two => C2
  | .three => C3
  | .four => C4

structure Iter where
  kind : Kind
  a : Var
  b : Var
  c : Var
  d : Var
  e : Var
  arg : Arg
deriving DecidableEq, Repr

def sha1Iter1 (va vb vc vd ve : Var) (w : Arg) : Iter := ⟨.one, va, vb, vc, vd, ve, w⟩
def sha1Iter2 (va vb vc vd ve : Var) (w : Arg) : Iter := ⟨.two, va, vb, vc, vd, ve, w⟩
def sha1Iter3 (va vb vc vd ve : Var) (w : Arg) : Iter := ⟨.three, va, vb, vc, vd, ve, w⟩
def sha1Iter4 (va vb vc vd ve : Var) (w : Arg) : Iter := ⟨.four, va, vb, vc, vd, ve, w⟩

/-- `e += ROTL5(a) + F(b, c, d) + C + (w); b = ROTL30(b);` -/
def Iter.exec (i : Iter) (s : Locals) : Locals :=
  let (w, s) := i.arg.eval s
  let s := s.set i.e (s.get i.e + (ROTL5 (s.get i.a) + i.kind.fn (s.get i.b) (s.get i.c) (s.get i.d) +
    i.kind.const + w))
  s.set i.b (ROTL30 (s.get i.b))

/-- The lines of the source, in order. -/
def sha1Iters : List Iter :=
  [sha1Iter1 .a .b .c .d .e (.w 0), sha1Iter1 .e .a .b .c .d (.w 1),
   sha1Iter1 .d .e .a .b .c (.w 2), sha1Iter1 .c .d .e .a .b (.w 3),
   sha1Iter1 .b .c .d .e .a (.w 4), sha1Iter1 .a .b .c .d .e (.w 5),
   sha1Iter1 .e .a .b .c .d (.w 6), sha1Iter1 .d .e .a .b .c (.w 7),
   sha1Iter1 .c .d .e .a .b (.w 8), sha1Iter1 .b .c .d .e .a (.w 9),
   sha1Iter1 .a .b .c .d .e (.w 10), sha1Iter1 .e .a .b .c .d (.w 11),
   sha1Iter1 .d .e .a .b .c (.w 12), sha1Iter1 .c .d .e .a .b (.w 13),
   sha1Iter1 .b .c .d .e .a (.w 14), sha1Iter1 .a .b .c .d .e (.w 15),
   sha1Iter1 .e .a .b .c .d (.W 16), sha1Iter1 .d .e .a .b .c (.W 17),
   sha1Iter1 .c .d .e .a .b (.W 18), sha1Iter1 .b .c .d .e .a (.W 19),
   sha1Iter2 .a .b .c .d .e (.W 20), sha1Iter2 .e .a .b .c .d (.W 21),
   sha1Iter2 .d .e .a .b .c (.W 22), sha1Iter2 .c .d .e .a .b (.W 23),
   sha1Iter2 .b .c .d .e .a (.W 24), sha1Iter2 .a .b .c .d .e (.W 25),
   sha1Iter2 .e .a .b .c .d (.W 26), sha1Iter2 .d .e .a .b .c (.W 27),
   sha1Iter2 .c .d .e .a .b (.W 28), sha1Iter2 .b .c .d .e .a (.W 29),
   sha1Iter2 .a .b .c .d .e (.W 30), sha1Iter2 .e .a .b .c .d (.W 31),
   sha1Iter2 .d .e .a .b .c (.W 32), sha1Iter2 .c .d .e .a .b (.W 33),
   sha1Iter2 .b .c .d .e .a (.W 34), sha1Iter2 .a .b .c .d .e (.W 35),
   sha1Iter2 .e .a .b .c .d (.W 36), sha1Iter2 .d .e .a .b .c (.W 37),
   sha1Iter2 .c .d .e .a .b (.W 38), sha1Iter2 .b .c .d .e .a (.W 39),
   sha1Iter3 .a .b .c .d .e (.W 40), sha1Iter3 .e .a .b .c .d (.W 41),
   sha1Iter3 .d .e .a .b .c (.W 42), sha1Iter3 .c .d .e .a .b (.W 43),
   sha1Iter3 .b .c .d .e .a (.W 44), sha1Iter3 .a .b .c .d .e (.W 45),
   sha1Iter3 .e .a .b .c .d (.W 46), sha1Iter3 .d .e .a .b .c (.W 47),
   sha1Iter3 .c .d .e .a .b (.W 48), sha1Iter3 .b .c .d .e .a (.W 49),
   sha1Iter3 .a .b .c .d .e (.W 50), sha1Iter3 .e .a .b .c .d (.W 51),
   sha1Iter3 .d .e .a .b .c (.W 52), sha1Iter3 .c .d .e .a .b (.W 53),
   sha1Iter3 .b .c .d .e .a (.W 54), sha1Iter3 .a .b .c .d .e (.W 55),
   sha1Iter3 .e .a .b .c .d (.W 56), sha1Iter3 .d .e .a .b .c (.W 57),
   sha1Iter3 .c .d .e .a .b (.W 58), sha1Iter3 .b .c .d .e .a (.W 59),
   sha1Iter4 .a .b .c .d .e (.W 60), sha1Iter4 .e .a .b .c .d (.W 61),
   sha1Iter4 .d .e .a .b .c (.W 62), sha1Iter4 .c .d .e .a .b (.W 63),
   sha1Iter4 .b .c .d .e .a (.W 64), sha1Iter4 .a .b .c .d .e (.W 65),
   sha1Iter4 .e .a .b .c .d (.W 66), sha1Iter4 .d .e .a .b .c (.W 67),
   sha1Iter4 .c .d .e .a .b (.W 68), sha1Iter4 .b .c .d .e .a (.W 69),
   sha1Iter4 .a .b .c .d .e (.W 70), sha1Iter4 .e .a .b .c .d (.W 71),
   sha1Iter4 .d .e .a .b .c (.W 72), sha1Iter4 .c .d .e .a .b (.W 73),
   sha1Iter4 .b .c .d .e .a (.W 74), sha1Iter4 .a .b .c .d .e (.W 75),
   sha1Iter4 .e .a .b .c .d (.W 76), sha1Iter4 .d .e .a .b .c (.W 77),
   sha1Iter4 .c .d .e .a .b (.W 78), sha1Iter4 .b .c .d .e .a (.W 79)]

/-- The context of `sha1.h`. -/
structure Ctx where
  h0 : Word
  h1 : Word
  h2 : Word
  h3 : Word
  h4 : Word
  /-- `uint8_t buf[SHA1_CHUNK_SIZE]` -/
  buf : List UInt8
  len : BitVec 64
deriving DecidableEq, Repr

/-- `READ_BE_32(m, i)` (:54). -/
def READ_BE_32 (m : List UInt8) (i : Nat) : Word :=
  word8 (m.getD i 0) <<< 24 ||| word8 (m.getD (i + 1) 0) <<< 16 ||| word8 (m.getD (i + 2) 0) <<< 8 |||
    word8 (m.getD (i + 3) 0)

def sha1Process (ctx : Ctx) (m : List UInt8) : Ctx :=
  let w := [READ_BE_32 m 0, READ_BE_32 m 4, READ_BE_32 m 8, READ_BE_32 m 12, READ_BE_32 m 16, READ_BE_32 m 20,
    READ_BE_32 m 24, READ_BE_32 m 28, READ_BE_32 m 32, READ_BE_32 m 36, READ_BE_32 m 40, READ_BE_32 m 44,
    READ_BE_32 m 48, READ_BE_32 m 52, READ_BE_32 m 56, READ_BE_32 m 60]
  let s := sha1Iters.foldl (fun s i => i.exec s) ⟨ctx.h0, ctx.h1, ctx.h2, ctx.h3, ctx.h4, w⟩
  { ctx with h0 := ctx.h0 + s.a, h1 := ctx.h1 + s.b, h2 := ctx.h2 + s.c, h3 := ctx.h3 + s.d, h4 := ctx.h4 + s.e }

/-! ## The lines are the eighty steps

Line `t` gives the names rotated `t` places, so the value FIPS calls `a` after
`t` steps sits in the local that `slot` says. -/

def Var.nth : Fin 5 → Var
  | 0 => .a
  | 1 => .b
  | 2 => .c
  | 3 => .d
  | 4 => .e

theorem Var.nth_inj {i j : Fin 5} : Var.nth i = Var.nth j ↔ i = j := by
  revert i j
  decide

/-- Line `t` of the source, built from its number. -/
def iterAt (t : Nat) : Iter :=
  let r := fun i => Var.nth (slot t i)
  { kind := if t < 20 then .one else if t < 40 then .two else if t < 60 then .three else .four
    a := r 0, b := r 1, c := r 2, d := r 3, e := r 4
    arg := if t < 16 then .w t else .W t }

theorem sha1Iters_eq : sha1Iters = (List.range 80).map iterAt := by decide +kernel

/-- The circular buffer before line `t` holds the sixteen words around `t`:
those of the block at first, then the last sixteen of the schedule. -/
def Window (W : Nat → Word) (t : Nat) (w : List Word) : Prop :=
  w.length = 16 ∧ ∀ k, k < max t 16 → max t 16 ≤ k + 16 → w.getD (k % 16) 0 = W k

/-- The locals before line `t` against the working variables after `t` steps. -/
structure Sim (W : Nat → Word) (t : Nat) (v : Work) (s : Locals) : Prop where
  vars : ∀ i, s.get (Var.nth (slot t i)) = v.get i
  window : Window W t s.w

theorem ROTL5_eq (x : Word) : ROTL5 x = x.rotateLeft 5 := by simp [ROTL5, BitVec.rotateLeft_def]

theorem ROTL30_eq (x : Word) : ROTL30 x = x.rotateLeft 30 := by simp [ROTL30, BitVec.rotateLeft_def]

theorem kind_fn (t : Nat) (x y z : Word) : (iterAt t).kind.fn x y z = f t x y z := by
  simp only [iterAt, f]
  split_ifs
  · exact ch_select x y z
  · rfl
  · exact maj_or x y z
  · rfl

theorem kind_const (t : Nat) : (iterAt t).kind.const = K t := by
  simp only [iterAt, K]
  split_ifs <;> rfl

/-- The recurrence of the schedule, as the lines use it. -/
def Recurrence (W : Nat → Word) : Prop :=
  ∀ k, 16 ≤ k → k < 80 → W k = (W (k - 3) ^^^ W (k - 8) ^^^ W (k - 14) ^^^ W (k - 16)).rotateLeft 1

theorem Window.get {W : Nat → Word} {t k : Nat} {w : List Word} (h : Window W t w) (h1 : k < max t 16)
    (h2 : max t 16 ≤ k + 16) : w.getD (k % 16) 0 = W k := h.2 k h1 h2

/-- The words of the block are the first window. -/
theorem Window.init {m : List Word} (hm : m.length = 16) {t : Nat} (ht : t ≤ 16) :
    Window ((schedule m).getD · 0) t m := by
  refine ⟨hm, fun k hk _ => ?_⟩
  have hk16 : k < 16 := by omega
  rw [Nat.mod_eq_of_lt hk16]
  exact (schedule_of_lt hm hk16).symm

/-- The next word of the schedule, from the circular buffer. -/
theorem Window.next {W : Nat → Word} {t : Nat} {w : List Word} (h : Window W t w) (hW : Recurrence W)
    (h16 : 16 ≤ t) (h80 : t < 80) :
    (w.getD ((t - 3) % 16) 0 ^^^ w.getD ((t - 8) % 16) 0 ^^^ w.getD ((t - 14) % 16) 0 ^^^
      w.getD (t % 16) 0).rotateLeft 1 = W t := by
  rw [h.get (by omega) (by omega), h.get (by omega) (by omega), h.get (by omega) (by omega),
    show t % 16 = (t - 16) % 16 by omega, h.get (by omega) (by omega), hW t h16 h80]

/-- Storing it in place moves the window on. -/
theorem Window.push {W : Nat → Word} {t : Nat} {w : List Word} (h : Window W t w) (h16 : 16 ≤ t) :
    Window W (t + 1) (w.set (t % 16) (W t)) := by
  obtain ⟨hlen, hwin⟩ := h
  refine ⟨by simpa using hlen, fun k h1 h2 => ?_⟩
  have hm : t % 16 < 16 := Nat.mod_lt _ (by omega)
  by_cases hk : k = t
  · subst hk
    simp [hlen, hm]
  · have hne : t % 16 ≠ k % 16 := by omega
    rw [List.getD_eq_getElem?_getD, List.getElem?_set_ne hne, ← List.getD_eq_getElem?_getD]
    exact hwin k (by omega) (by omega)

/-- Reading the message word of line `t` gives `W t` and moves the window on. -/
theorem eval_arg {W : Nat → Word} {t : Nat} {s : Locals} (ht : t < 80) (h : Window W t s.w)
    (hW : Recurrence W) :
    ∃ w', (iterAt t).arg.eval s = (W t, { s with w := w' }) ∧ Window W (t + 1) w' := by
  by_cases h16 : t < 16
  · refine ⟨s.w, ?_, h.1, fun k h1 h2 => h.get (by omega) (by omega)⟩
    have := h.get (k := t) (by omega) (by omega)
    rw [Nat.mod_eq_of_lt h16] at this
    simp only [iterAt, h16, ↓reduceIte, Arg.eval, this]
  · have hx := h.next hW (by omega) ht
    simp only [BitVec.rotateLeft_def] at hx
    exact ⟨s.w.set (t % 16) (W t), by simp only [iterAt, h16, ↓reduceIte, Arg.eval, ROTL1]; rw [← hx],
      h.push (by omega)⟩

theorem iter_sim {W : Nat → Word} {t : Nat} {v : Work} {s : Locals} (ht : t < 80) (h : Sim W t v s)
    (hW : Recurrence W) :
    Sim W (t + 1) (step t (W t) v) ((iterAt t).exec s) := by
  obtain ⟨hv, hw⟩ := h
  obtain ⟨w', he, hw'⟩ := eval_arg ht hw hW
  have ha : (iterAt t).a = Var.nth (slot t 0) := rfl
  have hb : (iterAt t).b = Var.nth (slot t 1) := rfl
  have hc : (iterAt t).c = Var.nth (slot t 2) := rfl
  have hd : (iterAt t).d = Var.nth (slot t 3) := rfl
  have he' : (iterAt t).e = Var.nth (slot t 4) := rfl
  refine ⟨fun i => ?_, by simpa [Iter.exec, he] using hw'⟩
  -- role 0 is in the old slot of `e`; role `j + 1` in the old slot of role `j`
  obtain rfl | ⟨j, hj, rfl⟩ : i = 0 ∨ ∃ j : Fin 5, j ≠ 4 ∧ i = j + 1 := by
    revert i
    decide
  · rw [slot_succ_zero]
    simp only [Iter.exec, he, ha, hb, hc, hd, he', Locals.get_set, Var.nth_inj, slot_inj, kind_fn, kind_const,
      Locals.get_w, hv]
    simp only [show (1 : Fin 5) ≠ 4 by decide, show (4 : Fin 5) ≠ 1 by decide, if_true, if_false, Work.get, step,
      ROTL5_eq]
    ac_rfl
  · rw [slot_succ]
    simp only [Iter.exec, he, ha, hb, hc, hd, he', Locals.get_set, Var.nth_inj, slot_inj, kind_fn, kind_const,
      Locals.get_w, hv]
    match j, hj with
    | 0, _ => rfl
    | 1, _ => exact ROTL30_eq _
    | 2, _ => rfl
    | 3, _ => rfl
    | 4, h4 => exact absurd rfl h4

/-- The first `t` lines. -/
theorem iters_sim {W : Nat → Word} {v : Work} {s : Locals} (h : Sim W 0 v s)
    (hW : Recurrence W) :
    ∀ t ≤ 80, Sim W t (steps W t v) (((List.range t).map iterAt).foldl (fun s i => i.exec s) s)
  | 0, _ => h
  | t + 1, ht => by
    rw [List.range_succ, List.map_append, List.foldl_append]
    exact iter_sim (by omega) (iters_sim h hW t (by omega)) hW

/-- The chaining value of a context. -/
def Ctx.work (ctx : Ctx) : Work := ⟨ctx.h0, ctx.h1, ctx.h2, ctx.h3, ctx.h4⟩

/-- The context with another chaining value. -/
def Ctx.withWork (ctx : Ctx) (v : Work) : Ctx :=
  { ctx with h0 := v.a, h1 := v.b, h2 := v.c, h3 := v.d, h4 := v.e }

/-- **`sha1_process` (C) is the FIPS 180 compression function**; the buffer and
the length of the context are left alone. -/
theorem sha1Process_eq_compress (ctx : Ctx) (m : List UInt8) :
    sha1Process ctx m = ctx.withWork (compress ctx.work m) := by
  have hlen : (blockWords m).length = 16 := by simp [blockWords]
  have h0 : Sim ((schedule (blockWords m)).getD · 0) 0 ctx.work
      ⟨ctx.h0, ctx.h1, ctx.h2, ctx.h3, ctx.h4, blockWords m⟩ := by
    exact ⟨fun i => by match i with | 0 | 1 | 2 | 3 | 4 => rfl, Window.init hlen (by omega)⟩
  have h80 := (iters_sim h0 (fun k => schedule_of_ge hlen) 80 le_rfl).vars
  rw [← sha1Iters_eq] at h80
  -- the names are back in place after a multiple of five steps
  have hname : ∀ i, slot 80 i = i := by decide
  simp only [hname] at h80
  have hdef : sha1Process ctx m = (fun s : Locals => ctx.withWork
      ⟨ctx.h0 + s.a, ctx.h1 + s.b, ctx.h2 + s.c, ctx.h3 + s.d, ctx.h4 + s.e⟩)
      (sha1Iters.foldl (fun s i => i.exec s) ⟨ctx.h0, ctx.h1, ctx.h2, ctx.h3, ctx.h4, blockWords m⟩) := rfl
  rw [hdef]
  generalize sha1Iters.foldl _ _ = r at h80 ⊢
  have ea : r.a = _ := h80 0
  have eb : r.b = _ := h80 1
  have ec : r.c = _ := h80 2
  have ed : r.d = _ := h80 3
  have ee : r.e = _ := h80 4
  beta_reduce
  rw [ea, eb, ec, ed, ee]
  rfl

end Keynjector.Sha1
