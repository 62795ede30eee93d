import Mathlib.Data.List.Basic
/-
# A line that may skip all but the latest

Values are offered at one end of a line and taken in order at the other. In front of
the line is one place to wait: a value offered while another waits there takes its
place, and the other is skipped.

What the line has carried is a part of what was offered, in order, with the same last
value; it is shorter by one for each value skipped.
-/

namespace Keynjector.Latest

universe u

variable {α : Type u}

structure Line (α : Type u) where
  offered : List α
  taken : List α
  flying : List α
  waiting : Option α

/-- What was taken, what is on the line and what waits for it. -/
def Line.carried (l : Line α) : List α := l.taken ++ l.flying ++ l.waiting.toList

/-- A step that keeps every value. -/
inductive Step : Line α → Line α → Prop where
  | send {o t f : List α} (v : α) : Step ⟨o, t, f, none⟩ ⟨o ++ [v], t, f ++ [v], none⟩
  | wait {o t f : List α} (v : α) : Step ⟨o, t, f, none⟩ ⟨o ++ [v], t, f, some v⟩
  | load {o t f : List α} {v : α} : Step ⟨o, t, f, some v⟩ ⟨o, t, f ++ [v], none⟩
  | take {o t f : List α} {v : α} {w : Option α} : Step ⟨o, t, v :: f, w⟩ ⟨o, t ++ [v], f, w⟩

/-- The value that waits is replaced. -/
inductive Skip : Line α → Line α → Prop where
  | replace {o t f : List α} {w : α} (v : α) : Skip ⟨o, t, f, some w⟩ ⟨o ++ [v], t, f, some v⟩

/-- Steps of which so many skip a value. -/
inductive Moves : Nat → Line α → Line α → Prop where
  | refl (l : Line α) : Moves 0 l l
  | step {n : Nat} {l m r : Line α} (h : Moves n l m) (hs : Step m r) : Moves n l r
  | skip {n : Nat} {l m r : Line α} (h : Moves n l m) (hs : Skip m r) : Moves (n + 1) l r

variable {l m r : Line α} {n k : Nat}

theorem Step.moves (h : Step l m) : Moves 0 l m := .step (.refl l) h

theorem Skip.moves (h : Skip l m) : Moves 1 l m := .skip (.refl l) h

theorem Moves.trans (h : Moves n l m) (h' : Moves k m r) : Moves (n + k) l r := by
  induction h' with
  | refl => exact h
  | step _ hs ih => exact .step (ih h) hs
  | skip _ hs ih => exact .skip (ih h) hs

/-! ## What the steps keep -/

/-- `c` is a part of `o`, in order and with the same last value, and so many are missing. -/
structure Kept (n : Nat) (c o : List α) : Prop where
  sub : c.Sublist o
  last : c.getLast? = o.getLast?
  count : c.length + n = o.length

variable {c o : List α} {v w : α}

theorem Kept.nil : Kept 0 ([] : List α) [] := ⟨List.Sublist.refl _, rfl, rfl⟩

theorem Kept.snoc (h : Kept n c o) (v : α) : Kept n (c ++ [v]) (o ++ [v]) := by
  refine ⟨h.sub.append_right _, ?_, ?_⟩
  · rw [List.getLast?_concat, List.getLast?_concat]
  · rw [List.length_append, List.length_append, ← h.count]
    exact Nat.add_right_comm ..

theorem Kept.replace (h : Kept n (c ++ [w]) o) (v : α) : Kept (n + 1) (c ++ [v]) (o ++ [v]) := by
  refine ⟨((List.sublist_append_left c [w]).trans h.sub).append_right _, ?_, ?_⟩
  · rw [List.getLast?_concat, List.getLast?_concat]
  · have := h.count
    rw [List.length_append, List.length_singleton] at this ⊢
    rw [List.length_append, List.length_singleton]
    omega

theorem Kept.all_iff (h : Kept n c o) : c = o ↔ n = 0 := by
  constructor
  · rintro rfl
    have := h.count
    omega
  · rintro rfl
    exact h.sub.eq_of_length h.count

theorem Step.kept (hs : Step l m) (h : Kept n l.carried l.offered) : Kept n m.carried m.offered := by
  cases hs with
  | send v =>
    have := h.snoc v
    simpa [Line.carried] using this
  | wait v =>
    have := h.snoc v
    simpa [Line.carried] using this
  | load => simpa [Line.carried] using h
  | take => simpa [Line.carried] using h

theorem Skip.kept (hs : Skip l m) (h : Kept n l.carried l.offered) : Kept (n + 1) m.carried m.offered := by
  cases hs with
  | replace v => exact Kept.replace h v

/-- **The line carries the latest**: whatever its steps, what it carried is part of what was offered, in order, up to
the last value. -/
theorem Moves.kept (h : Moves n l m) (h0 : Kept k l.carried l.offered) : Kept (k + n) m.carried m.offered := by
  induction h with
  | refl => exact h0
  | step _ hs ih => exact hs.kept (ih h0)
  | skip _ hs ih => exact hs.kept (ih h0)

end Keynjector.Latest
