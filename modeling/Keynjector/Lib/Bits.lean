import Mathlib.Data.Nat.Bitwise
import Mathlib.Tactic.Ring
/-
# Bit strings

Lists of bits with the least significant first, the numbers they stand for, and the
bits of a string of bytes.
-/

namespace Bits

/-- The number of a list of bits. -/
def toNat : List Bool → Nat
  | [] => 0
  | b :: bs => b.toNat + 2 * toNat bs

/-- The lowest `n` bits of `v`. -/
def ofNat : Nat → Nat → List Bool
  | 0, _ => []
  | n + 1, v => v.testBit 0 :: ofNat n (v / 2)

def ofBytes (bytes : List UInt8) : List Bool := bytes.flatMap fun b => ofNat 8 b.toNat

@[simp] theorem length_ofNat (n v : Nat) : (ofNat n v).length = n := by
  induction n generalizing v with
  | zero => rfl
  | succ n ih => rw [ofNat, List.length_cons, ih]

@[simp] theorem ofBytes_nil : ofBytes [] = [] := rfl

@[simp] theorem ofBytes_cons (b : UInt8) (bytes : List UInt8) :
    ofBytes (b :: bytes) = ofNat 8 b.toNat ++ ofBytes bytes := rfl

@[simp] theorem ofBytes_append (xs ys : List UInt8) : ofBytes (xs ++ ys) = ofBytes xs ++ ofBytes ys :=
  List.flatMap_append

@[simp] theorem length_ofBytes (bytes : List UInt8) : (ofBytes bytes).length = 8 * bytes.length := by
  induction bytes with
  | nil => rfl
  | cons b bytes ih =>
    rw [ofBytes_cons, List.length_append, length_ofNat, ih, List.length_cons]
    ring

theorem testBit_zero_toNat (v : Nat) : (v.testBit 0).toNat = v % 2 := by
  rw [Nat.testBit_zero]
  rcases Nat.mod_two_eq_zero_or_one v with h | h <;> simp [h]

theorem toNat_ofNat (n v : Nat) : toNat (ofNat n v) = v % 2 ^ n := by
  induction n generalizing v with
  | zero => rw [Nat.pow_zero, Nat.mod_one]; rfl
  | succ n ih =>
    rw [ofNat, toNat, ih, testBit_zero_toNat, Nat.pow_succ, Nat.mul_comm (2 ^ n), Nat.mod_mul]

theorem ofNat_toNat (bs : List Bool) : ofNat bs.length (toNat bs) = bs := by
  induction bs with
  | nil => rfl
  | cons b bs ih =>
    have hbit : (b.toNat + 2 * toNat bs).testBit 0 = b := by
      rw [Nat.testBit_zero]
      cases b <;> simp
    have hrest : (b.toNat + 2 * toNat bs) / 2 = toNat bs := by
      cases b <;> simp only [Bool.toNat_true, Bool.toNat_false] <;> omega
    rw [List.length_cons, ofNat, toNat, hbit, hrest, ih]

theorem toNat_lt (bs : List Bool) : toNat bs < 2 ^ bs.length := by
  rw [← ofNat_toNat bs, toNat_ofNat, ofNat_toNat]
  exact Nat.mod_lt _ (Nat.two_pow_pos _)

theorem toNat_inj {as bs : List Bool} (hlen : as.length = bs.length) (h : toNat as = toNat bs) : as = bs := by
  rw [← ofNat_toNat as, ← ofNat_toNat bs, hlen, h]

theorem toNat_append (as bs : List Bool) : toNat (as ++ bs) = toNat as + 2 ^ as.length * toNat bs := by
  induction as with
  | nil => rw [List.nil_append, List.length_nil, Nat.pow_zero, Nat.one_mul]; exact (Nat.zero_add _).symm
  | cons a as ih =>
    rw [List.cons_append, toNat, toNat, ih, List.length_cons, Nat.pow_succ]
    ring

theorem ofNat_add (m n v : Nat) : ofNat (m + n) v = ofNat m v ++ ofNat n (v / 2 ^ m) := by
  induction m generalizing v with
  | zero => rw [Nat.zero_add, Nat.pow_zero, Nat.div_one]; rfl
  | succ m ih =>
    rw [Nat.succ_add, ofNat, ofNat, ih, List.cons_append, Nat.div_div_eq_div_mul, Nat.pow_succ, Nat.mul_comm 2]

theorem ofNat_mod (n v : Nat) : ofNat n (v % 2 ^ n) = ofNat n v := by
  refine toNat_inj (by rw [length_ofNat, length_ofNat]) ?_
  rw [toNat_ofNat, toNat_ofNat, Nat.mod_mod]

/-- Bits above the lowest `n` do not matter. -/
theorem ofNat_add_mul (n v w : Nat) : ofNat n (v + 2 ^ n * w) = ofNat n v := by
  rw [← ofNat_mod, Nat.add_mul_mod_self_left, ofNat_mod]

theorem ofNat_append {m v : Nat} (hv : v < 2 ^ m) (n w : Nat) :
    ofNat (m + n) (v + 2 ^ m * w) = ofNat m v ++ ofNat n w := by
  rw [ofNat_add, ofNat_add_mul, Nat.add_mul_div_left _ _ (Nat.two_pow_pos m), Nat.div_eq_of_lt hv, Nat.zero_add]

theorem take_ofNat {m n : Nat} (h : m ≤ n) (v : Nat) : (ofNat n v).take m = ofNat m v := by
  obtain ⟨k, rfl⟩ := Nat.exists_eq_add_of_le h
  rw [ofNat_add, List.take_left' (length_ofNat m v)]

theorem drop_ofNat {m n : Nat} (h : m ≤ n) (v : Nat) : (ofNat n v).drop m = ofNat (n - m) (v / 2 ^ m) := by
  obtain ⟨k, rfl⟩ := Nat.exists_eq_add_of_le h
  rw [ofNat_add, List.drop_left' (length_ofNat m v), Nat.add_sub_cancel_left]

theorem getElem_ofNat {n i : Nat} (v : Nat) (h : i < (ofNat n v).length) : (ofNat n v)[i] = v.testBit i := by
  induction n generalizing v i with
  | zero => exact absurd h (Nat.not_lt_zero _)
  | succ n ih =>
    cases i with
    | zero => rfl
    | succ i => exact (ih (v / 2) _).trans (Nat.testBit_add_one v i).symm

/-- The lowest bits of `v` are `bs`. -/
theorem ofNat_eq_iff {n v : Nat} {bs : List Bool} (hn : bs.length = n) : ofNat n v = bs ↔ v % 2 ^ n = toNat bs := by
  rw [← toNat_ofNat]
  exact ⟨congrArg toNat, toNat_inj (by rw [length_ofNat, hn])⟩

theorem byte_inj {a b : UInt8} (h : ofNat 8 a.toNat = ofNat 8 b.toNat) : a = b := by
  have := congrArg toNat h
  rwa [toNat_ofNat, toNat_ofNat, Nat.mod_eq_of_lt a.toNat_lt, Nat.mod_eq_of_lt b.toNat_lt, UInt8.toNat_inj] at this

theorem ofBytes_inj {xs ys : List UInt8} (h : ofBytes xs = ofBytes ys) : xs = ys := by
  induction xs generalizing ys with
  | nil =>
    cases ys with
    | nil => rfl
    | cons y ys => cases h
  | cons x xs ih =>
    cases ys with
    | nil => cases h
    | cons y ys =>
      obtain ⟨hb, hrest⟩ := List.append_inj h (by rw [length_ofNat, length_ofNat])
      rw [byte_inj hb, ih hrest]

/-- The bytes of a whole number of bytes of bits -/
def toBytes : List Bool → List UInt8
  | b0 :: b1 :: b2 :: b3 :: b4 :: b5 :: b6 :: b7 :: bs =>
    UInt8.ofNat (toNat [b0, b1, b2, b3, b4, b5, b6, b7]) :: toBytes bs
  | _ => []

theorem ofBytes_toBytes {n : Nat} {bs : List Bool} (h : bs.length = 8 * n) : ofBytes (toBytes bs) = bs := by
  induction n generalizing bs with
  | zero =>
    obtain rfl := List.length_eq_zero_iff.1 h
    rfl
  | succ n ih =>
    match bs, h with
    | b0 :: b1 :: b2 :: b3 :: b4 :: b5 :: b6 :: b7 :: bs, h =>
      have hbyte : ofNat 8 (UInt8.ofNat (toNat [b0, b1, b2, b3, b4, b5, b6, b7])).toNat = [b0, b1, b2, b3, b4, b5, b6, b7] := by
        rw [UInt8.toNat_ofNat', ofNat_mod]
        exact ofNat_toNat [b0, b1, b2, b3, b4, b5, b6, b7]
      rw [toBytes, ofBytes_cons, hbyte, ih (by simp only [List.length_cons] at h; omega)]
      rfl

end Bits
