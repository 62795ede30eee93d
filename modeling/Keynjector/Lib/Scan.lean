/-
# Scanners for runs of a character class

`count p s` is how many leading elements of `s` are in the class `p`. A text cut
into runs is recognised run by run as long as each run ends where the next
element is outside its class (`Stops`).
-/

namespace Keynjector.Scan

universe u

variable {α : Type u} {p q : α → Bool}

/-- Number of leading elements in the class. -/
def count (p : α → Bool) : List α → Nat
  | [] => 0
  | c :: s => if p c then count p s + 1 else 0

/-- The text does not go on in the class. -/
def Stops (p : α → Bool) (s : List α) : Prop := ∀ c ∈ s.head?, p c = false

/-- Every element is in the class. -/
def All (p : α → Bool) (s : List α) : Prop := ∀ c ∈ s, p c = true

instance (p : α → Bool) (s : List α) : Decidable (All p s) := inferInstanceAs (Decidable (∀ c ∈ s, p c = true))

theorem count_le (p : α → Bool) (s : List α) : count p s ≤ s.length := by
  induction s with
  | nil => exact Nat.le_refl 0
  | cons c s ih =>
    simp only [count, List.length_cons]
    split <;> omega

theorem add_count_drop_le (p : α → Bool) {s : List α} {k : Nat} (h : k ≤ s.length) :
    k + count p (s.drop k) ≤ s.length := by
  have := count_le p (s.drop k)
  simp only [List.length_drop] at this
  omega

theorem count_eq_zero {s : List α} (h : Stops p s) : count p s = 0 := by
  cases s with
  | nil => rfl
  | cons c s => simp [count, h c rfl]

/-- A run is counted to its end. -/
theorem count_append {a b : List α} (ha : All p a) (hb : Stops p b) : count p (a ++ b) = a.length := by
  induction a with
  | nil => exact count_eq_zero hb
  | cons c a ih =>
    have hc : p c = true := ha c List.mem_cons_self
    simp only [List.cons_append, count, hc, if_true, List.length_cons,
      ih fun x hx => ha x (List.mem_cons_of_mem c hx)]

theorem all_take (p : α → Bool) (s : List α) : All p (s.take (count p s)) := by
  induction s with
  | nil => simp [All, count]
  | cons c s ih =>
    unfold count
    split
    · rename_i h
      intro x hx
      rw [List.take_succ_cons, List.mem_cons] at hx
      rcases hx with rfl | hx
      · exact h
      · exact ih x hx
    · simp [All]

/-- What a scanner counted is a run of the class. -/
theorem run_of_count {s : List α} {k : Nat} (h : count p s = k) : (s.take k).length = k ∧ All p (s.take k) := by
  subst h
  exact ⟨List.length_take_of_le (count_le p s), all_take p s⟩

theorem drop_count_append {a b : List α} (ha : All p a) (hb : Stops p b) : (a ++ b).drop (count p (a ++ b)) = b := by
  rw [count_append ha hb, List.drop_left]

/-- A text is cut into a run and its continuation in one way only. -/
theorem run_unique {a a' b b' : List α} (ha : All p a) (hb : Stops p b) (ha' : All p a') (hb' : Stops p b')
    (h : a ++ b = a' ++ b') : a = a' ∧ b = b' := by
  refine List.append_inj h ?_
  rw [← count_append ha hb, h, count_append ha' hb']

/-! ## Scanners that look at what is there only -/

/-- `count`, or `none` if the run goes on behind the last element. -/
def scan (p : α → Bool) : List α → Option Nat
  | [] => none
  | c :: s => if p c then (scan p s).map (· + 1) else some 0

/-- An element outside the class is never passed. -/
theorem scan_append {z : α} (hz : p z = false) (s : List α) : scan p (s ++ [z]) = some (count p s) := by
  induction s with
  | nil => simp [scan, count, hz]
  | cons c s ih =>
    simp only [List.cons_append, scan, count, ih, Option.map_some]
    split <;> rfl

/-! ## Disjoint classes -/

/-- A nonempty run of one class stops the scan of a class disjoint from it. -/
theorem Stops.of_all {a b : List α} (ha : All q a) (hne : a ≠ []) (h : ∀ c, q c = true → p c = false) :
    Stops p (a ++ b) := by
  obtain ⟨c, a, rfl⟩ := List.exists_cons_of_ne_nil hne
  intro x hx
  cases hx
  exact h c (ha c List.mem_cons_self)

end Keynjector.Scan
