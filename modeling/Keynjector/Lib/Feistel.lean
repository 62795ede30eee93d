import Mathlib.Data.Prod.Basic
/-
# Feistel networks

A round takes the halves `(L, R)` to `(R, op L (f R))`. Nothing is asked of the round
functions; `op` undoes itself, as exclusive or does. `cipher n f` is `n` rounds with
the halves swapped at the end.
-/

namespace Keynjector.Feistel

universe u

variable {α : Type u} (op : α → α → α) {f : Nat → α → α}

/-- The halves after a number of rounds: `L(i+1) = R(i)`, `R(i+1) = op (L i) (f i (R i))`. -/
def rounds (f : Nat → α → α) (b : α × α) : Nat → α × α
  | 0 => b
  | i + 1 =>
    let s := rounds f b i
    (s.2, op s.1 (f i s.2))

def cipher (n : Nat) (f : Nat → α → α) (b : α × α) : α × α := (rounds op f b n).swap

/-- The round functions of the first `n` rounds, last one first. -/
def reversed (n : Nat) (f : Nat → α → α) : Nat → α → α := fun i => f (n - 1 - i)

variable {op}

/-- From the swapped halves, the reversed rounds go back round by round. -/
theorem rounds_reversed (hop : ∀ a b, op (op a b) b = a) (b : α × α) {n k : Nat} (hk : k ≤ n) :
    rounds op (reversed n f) (rounds op f b n).swap k = (rounds op f b (n - k)).swap := by
  induction k with
  | zero => rfl
  | succ k ih =>
    obtain ⟨m, hm⟩ : ∃ m, n - k = m + 1 := ⟨n - k - 1, by omega⟩
    have hm' : n - (k + 1) = m := by omega
    have hf : n - 1 - k = m := by omega
    rw [rounds, ih (by omega), hm, hm']
    simp only [rounds, Prod.fst_swap, Prod.snd_swap, reversed, hf, hop]
    rfl

/-- **The reversed rounds decrypt.** -/
theorem cipher_reversed (hop : ∀ a b, op (op a b) b = a) (n : Nat) (f : Nat → α → α) (b : α × α) :
    cipher op n (reversed n f) (cipher op n f b) = b := by
  rw [cipher, cipher, rounds_reversed hop b (Nat.le_refl n), Nat.sub_self, Prod.swap_swap]
  rfl

end Keynjector.Feistel
