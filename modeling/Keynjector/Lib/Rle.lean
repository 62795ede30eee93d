import Mathlib.Data.List.Basic
/-
# Runs of equal values

A sequence given as runs, a value and a length each. A function of value and position is
computed for each element of the sequence, or once for each run at the position where it starts:
the results agree exactly if no run holds positions the function tells apart.
-/

namespace Keynjector.Rle

universe u v

variable {α : Type u} {β : Type v}

def expand (rs : List (α × Nat)) : List α := rs.flatMap fun r => List.replicate r.2 r.1

/-- `f` computed once for each run, the first starting at `s`. -/
def perRun (f : α → Nat → β) : List (α × Nat) → Nat → List β
  | [], _ => []
  | (a, n) :: rs, s => List.replicate n (f a s) ++ perRun f rs (s + n)

/-- `f` computed for each element. -/
def perElement (f : α → Nat → β) (vs : List α) (s : Nat) : List β := vs.mapIdx fun i a => f a (s + i)

/-- `f` does not change within a run. -/
def Uniform (f : α → Nat → β) : List (α × Nat) → Nat → Prop
  | [], _ => True
  | (a, n) :: rs, s => (∀ k, k < n → f a (s + k) = f a s) ∧ Uniform f rs (s + n)

section

variable {f : α → Nat → β}

theorem length_perRun (f : α → Nat → β) (rs : List (α × Nat)) (s : Nat) :
    (perRun f rs s).length = (expand rs).length := by
  induction rs generalizing s with
  | nil => rfl
  | cons r rs ih =>
    simp only [perRun, expand, List.flatMap_cons, List.length_append, List.length_replicate, ih]

theorem perElement_append (f : α → Nat → β) (us vs : List α) (s : Nat) :
    perElement f (us ++ vs) s = perElement f us s ++ perElement f vs (s + us.length) := by
  simp only [perElement, List.mapIdx_append, Nat.add_assoc, Nat.add_comm us.length]

theorem replicate_eq_perElement_iff (a : α) (b : β) (n s : Nat) :
    List.replicate n b = perElement f (List.replicate n a) s ↔ ∀ k, k < n → f a (s + k) = b := by
  rw [List.ext_getElem_iff]
  simp [perElement, eq_comm]

/-- **Once for each run is as good as for each element** exactly if no run tells them apart. -/
theorem perRun_eq_perElement_iff (rs : List (α × Nat)) (s : Nat) :
    perRun f rs s = perElement f (expand rs) s ↔ Uniform f rs s := by
  induction rs generalizing s with
  | nil => exact ⟨fun _ => trivial, fun _ => rfl⟩
  | cons r rs ih =>
    obtain ⟨a, n⟩ := r
    have hexpand : expand ((a, n) :: rs) = List.replicate n a ++ expand rs := List.flatMap_cons
    rw [hexpand, perElement_append, perRun, Uniform, List.length_replicate, ← ih, ← replicate_eq_perElement_iff]
    constructor
    · intro h
      exact List.append_inj h (by simp [perElement])
    · rintro ⟨h1, h2⟩
      rw [← h1, ← h2]

end

end Keynjector.Rle
