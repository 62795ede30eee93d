import Mathlib.Data.List.Basic
/-
# Straight-line programs over a faulting machine

A program is a list of instructions, executed in order by a step that may
fault. `Triple` is total: from a state with the precondition the program runs
to its end without a fault and establishes the postcondition. `Triple.range`
is the rule for code a macro assembler unrolled.
-/

namespace Straight

variable {ι σ : Type} (exec : ι → σ → Option σ)

/-- Execute a program. -/
def run : List ι → σ → Option σ
  | [], s => some s
  | i :: p, s => (exec i s).bind (run p)

@[simp] theorem run_nil (s : σ) : run exec [] s = some s := rfl

@[simp] theorem run_cons (i : ι) (p : List ι) (s : σ) : run exec (i :: p) s = (exec i s).bind (run exec p) := rfl

theorem run_append (p q : List ι) (s : σ) : run exec (p ++ q) s = (run exec p s).bind (run exec q) := by
  induction p generalizing s with
  | nil => rfl
  | cons i p ih =>
    simp only [List.cons_append, run_cons, Option.bind_assoc]
    exact congrArg _ (funext ih)

/-- Total correctness of a program. -/
def Triple (P : σ → Prop) (p : List ι) (Q : σ → Prop) : Prop :=
  ∀ s, P s → ∃ s', run exec p s = some s' ∧ Q s'

variable {exec} {P Q R : σ → Prop} {p q : List ι}

theorem Triple.nil : Triple exec P [] P := fun s h => ⟨s, rfl, h⟩

theorem Triple.seq (h1 : Triple exec P p Q) (h2 : Triple exec Q q R) : Triple exec P (p ++ q) R := by
  intro s hs
  obtain ⟨s1, hr1, hq⟩ := h1 s hs
  obtain ⟨s2, hr2, hr⟩ := h2 s1 hq
  exact ⟨s2, by rw [run_append, hr1]; exact hr2, hr⟩

/-- Unrolled code: block `k` takes `I k` to `I (k + 1)`. -/
theorem Triple.range {I : Nat → σ → Prop} {block : Nat → List ι} (n k : Nat)
    (h : ∀ j, n ≤ j → j < n + k → Triple exec (I j) (block j) (I (j + 1))) :
    Triple exec (I n) ((List.range' n k).flatMap block) (I (n + k)) := by
  induction k with
  | zero => exact .nil
  | succ k ih =>
    rw [List.range'_concat, List.flatMap_append, Nat.one_mul]
    refine (ih fun j h1 h2 => h j h1 (by omega)).seq ?_
    rw [List.flatMap_singleton]
    exact h (n + k) (by omega) (by omega)

end Straight
