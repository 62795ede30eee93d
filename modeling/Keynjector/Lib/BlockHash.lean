import Mathlib.Data.List.Basic
/-
# Block-iterated functions

A function on messages that folds a step over consecutive blocks of `n`
elements (`absorb`) and leaves a tail shorter than a block (`tail`). The laws
say how both behave when a message arrives in pieces, which is what a streaming
implementation with a block buffer relies on.
-/

namespace BlockHash

variable {α σ : Type}

/-- Fold `f` over the first `k` blocks of a message. -/
def blocks (n : Nat) (f : σ → List α → σ) : Nat → σ → List α → σ
  | 0, s, _ => s
  | k + 1, s, m => blocks n f k (f s (m.take n)) (m.drop n)

/-- Fold `f` over all full blocks of a message. -/
def absorb (n : Nat) (f : σ → List α → σ) (s : σ) (m : List α) : σ :=
  blocks n f (m.length / n) s m

/-- What is left of a message after its full blocks. -/
def tail (n : Nat) (m : List α) : List α := m.drop (n * (m.length / n))

variable {n : Nat} {f : σ → List α → σ} {s : σ} {m m' : List α}

@[simp] theorem tail_length : (tail n m).length = m.length % n := by
  simp only [tail, List.length_drop, Nat.mod_def]

theorem tail_eq_self (h : m.length < n) : tail n m = m := by
  simp [tail, Nat.div_eq_of_lt h]

theorem absorb_of_lt (h : m.length < n) : absorb n f s m = s := by
  simp [absorb, Nat.div_eq_of_lt h, blocks]

theorem blocks_add (j k : Nat) :
    blocks n f (j + k) s m = blocks n f k (blocks n f j s m) (m.drop (n * j)) := by
  induction j generalizing s m with
  | zero => simp [blocks]
  | succ j ih =>
    rw [show j + 1 + k = (j + k) + 1 by omega]
    simp only [blocks]
    rw [ih, List.drop_drop, Nat.mul_succ, Nat.add_comm n]

/-- The first `k` blocks do not depend on what follows them. -/
theorem blocks_append_right (k : Nat) (h : n * k ≤ m.length) :
    blocks n f k s (m ++ m') = blocks n f k s m := by
  induction k generalizing s m with
  | zero => rfl
  | succ k ih =>
    rw [Nat.mul_succ] at h
    unfold blocks
    rw [List.take_append_of_le_length (by omega), List.drop_append_of_le_length (by omega),
      ih (by simp; omega)]

theorem length_div_append (hn : 0 < n) :
    (m ++ m').length / n = m.length / n + (tail n m ++ m').length / n := by
  have h1 := Nat.div_add_mod m.length n
  rw [List.length_append, List.length_append, tail_length]
  conv_lhs => rw [← h1, Nat.add_assoc, Nat.mul_add_div hn]

/-- **Absorption in pieces**: the blocks of `m ++ m'` are those of `m`, then
those of what `m` left over followed by `m'`. -/
theorem absorb_append (hn : 0 < n) :
    absorb n f s (m ++ m') = absorb n f (absorb n f s m) (tail n m ++ m') := by
  have hle : n * (m.length / n) ≤ m.length := Nat.mul_div_le m.length n
  unfold absorb
  rw [length_div_append hn, blocks_add, blocks_append_right _ hle, List.drop_append_of_le_length hle]
  rfl

theorem tail_append (hn : 0 < n) : tail n (m ++ m') = tail n (tail n m ++ m') := by
  have hle : n * (m.length / n) ≤ m.length := Nat.mul_div_le m.length n
  unfold tail
  rw [show (m ++ m').length / n = m.length / n + (tail n m ++ m').length / n from length_div_append hn,
    Nat.mul_add, ← List.drop_drop, List.drop_append_of_le_length hle]
  rfl

/-- One block in front. -/
theorem absorb_block (hn : 0 < n) (h : n ≤ m.length) :
    absorb n f s m = absorb n f (f s (m.take n)) (m.drop n) := by
  have hdiv : m.length / n = (m.drop n).length / n + 1 := by
    rw [List.length_drop, ← Nat.add_div_right _ hn, Nat.sub_add_cancel h]
  unfold absorb
  rw [hdiv]
  rfl

theorem tail_block (hn : 0 < n) (h : n ≤ m.length) : tail n m = tail n (m.drop n) := by
  have hdiv : m.length / n = (m.drop n).length / n + 1 := by
    rw [List.length_drop, ← Nat.add_div_right _ hn, Nat.sub_add_cancel h]
  unfold tail
  rw [hdiv, List.drop_drop, Nat.mul_succ, Nat.add_comm n]

end BlockHash
