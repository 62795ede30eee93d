import Mathlib.Data.List.Basic
import Mathlib.Algebra.BigOperators.Group.List.Basic
import Mathlib.Algebra.GroupWithZero.Nat
/-
# Readers

A reader hands out entries in pieces of any size and shows the end of its data or an
error. `Yields s d` says that reads from `s` return `d`, however it is cut, and nothing
after it; `Serves` says also that no error shows and that the end does, once a read asked
for more than was left. Both are proved by coinduction: a relation of states to data that
one read keeps (`Yields.coind`, `Serves.coind`). `Hom` carries them from one reader to
another. A `window` passes on a limited number of entries of the reader below, through a
decoder with a state of its own.
-/

namespace Readers

universe u v

structure Reader (σ : Type u) (β : Type v) where
  read : σ → Nat → List β × σ
  eof : σ → Bool
  err : σ → Bool

namespace Reader

variable {σ : Type u} {β : Type v} (R : Reader σ β)

/-- The state after reads of the given sizes. -/
def after (s : σ) (ns : List Nat) : σ := ns.foldl (fun s n => (R.read s n).2) s

/-- Everything the reads return. -/
def got : σ → List Nat → List β
  | _, [] => []
  | s, n :: ns => (R.read s n).1 ++ got (R.read s n).2 ns

def Yields (s : σ) (d : List β) : Prop := ∀ ns, R.got s ns = d.take ns.sum

structure Serves (s : σ) (d : List β) : Prop where
  bytes : R.Yields s d
  sound : ∀ ns, R.err (R.after s ns) = false
  ends : ∀ ns, d.length < ns.sum → R.eof (R.after s ns) = true

/-- At the end or after an error nothing more is read. -/
def Stuck : Prop := ∀ s, R.eof s = true ∨ R.err s = true → ∀ n, R.read s n = ([], s)

variable {R} {s : σ} {d d' : List β}

/-! ## One read -/

theorem Yields.read (h : R.Yields s d) (n : Nat) : (R.read s n).1 = d.take n := by
  have := h [n]
  simpa [got] using this

theorem Yields.next (h : R.Yields s d) (n : Nat) : R.Yields (R.read s n).2 (d.drop n) := by
  intro ns
  have hall := h (n :: ns)
  rw [got, List.sum_cons, List.take_add, h.read n] at hall
  exact List.append_cancel_left hall

theorem Yields.after (h : R.Yields s d) (ns : List Nat) : R.Yields (R.after s ns) (d.drop ns.sum) := by
  induction ns generalizing s d with
  | nil => exact h
  | cons n ns ih =>
    rw [List.sum_cons, ← List.drop_drop]
    exact ih (h.next n)

/-- The data of a state is determined. -/
theorem Yields.unique (h : R.Yields s d) (h' : R.Yields s d') : d = d' := by
  have hd := h.read (max d.length d'.length)
  have hd' := h'.read (max d.length d'.length)
  rw [List.take_of_length_le (Nat.le_max_left ..)] at hd
  rw [List.take_of_length_le (Nat.le_max_right ..)] at hd'
  exact hd.symm.trans hd'

/-- Nothing is left where nothing can be read. -/
theorem Yields.nil_of_stuck (hs : R.Stuck) (h : R.Yields s d) (he : R.eof s = true ∨ R.err s = true) : d = [] := by
  have := h.read d.length
  rw [hs s he, List.take_length] at this
  exact this.symm

/-- Reading entries that are there. -/
theorem Yields.append {a : List β} (h : R.Yields s (a ++ d)) :
    ∃ s', R.read s a.length = (a, s') ∧ R.Yields s' d := by
  refine ⟨(R.read s a.length).2, Prod.ext ?_ rfl, ?_⟩
  · rw [h.read, List.take_left]
  · have := h.next a.length
    rwa [List.drop_left] at this

/-! ## Coinduction -/

theorem Yields.coind {Q : σ → List β → Prop}
    (hstep : ∀ s d, Q s d → ∀ n, (R.read s n).1 = d.take n ∧ Q (R.read s n).2 (d.drop n)) (h : Q s d) :
    R.Yields s d := by
  intro ns
  induction ns generalizing s d with
  | nil => simp [got]
  | cons n ns ih =>
    obtain ⟨hr, hq⟩ := hstep s d h n
    rw [got, hr, ih hq, List.sum_cons, List.take_add]

/-- What one read from a served state does. -/
structure Step (Q : σ → List β → Prop) (s : σ) (d : List β) (n : Nat) : Prop where
  bytes : (R.read s n).1 = d.take n
  next : Q (R.read s n).2 (d.drop n)
  ends : d.length < n → R.eof (R.read s n).2 = true

theorem after_of_eof (hs : R.Stuck) (he : R.eof s = true) (ns : List Nat) : R.after s ns = s := by
  induction ns with
  | nil => rfl
  | cons n ns ih =>
    rw [Reader.after, List.foldl_cons, hs s (.inl he)]
    exact ih

theorem Serves.coind (hs : R.Stuck) {Q : σ → List β → Prop} (hsound : ∀ s d, Q s d → R.err s = false)
    (hstep : ∀ s d, Q s d → ∀ n, Step (R := R) Q s d n) (h : Q s d) : R.Serves s d := by
  refine ⟨Yields.coind (fun s d hq n => ⟨(hstep s d hq n).bytes, (hstep s d hq n).next⟩) h, ?_, ?_⟩
  · intro ns
    induction ns generalizing s d with
    | nil => exact hsound s d h
    | cons n ns ih => exact ih (hstep s d h n).next
  · intro ns
    induction ns generalizing s d with
    | nil => intro hlt; simp at hlt
    | cons n ns ih =>
      intro hlt
      by_cases hn : d.length < n
      · have he := (hstep s d h n).ends hn
        have hstay := after_of_eof hs he ns
        rw [Reader.after] at hstay
        rw [Reader.after, List.foldl_cons, hstay]
        exact he
      · refine ih (hstep s d h n).next ?_
        rw [List.sum_cons] at hlt
        rw [List.length_drop]
        omega

theorem Serves.next (h : R.Serves s d) (n : Nat) : R.Serves (R.read s n).2 (d.drop n) := by
  refine ⟨h.bytes.next n, fun ns => h.sound (n :: ns), fun ns hlt => h.ends (n :: ns) ?_⟩
  rw [List.length_drop] at hlt
  rw [List.sum_cons]
  omega

theorem Serves.after (h : R.Serves s d) (ns : List Nat) : R.Serves (R.after s ns) (d.drop ns.sum) := by
  induction ns generalizing s d with
  | nil => exact h
  | cons n ns ih =>
    rw [List.sum_cons, ← List.drop_drop]
    exact ih (h.next n)

/-- Serving is itself kept by reads. -/
theorem Serves.step (h : R.Serves s d) (n : Nat) : Step (R := R) R.Serves s d n := by
  refine ⟨h.bytes.read n, h.next n, fun hlt => h.ends [n] ?_⟩
  simpa using hlt

theorem Serves.no_error (h : R.Serves s d) : R.err s = false := h.sound []

theorem Serves.append {a : List β} (h : R.Serves s (a ++ d)) :
    ∃ s', R.read s a.length = (a, s') ∧ R.Serves s' d := by
  obtain ⟨s', hr, -⟩ := h.bytes.append
  refine ⟨s', hr, ?_⟩
  have := h.next a.length
  rwa [hr, List.drop_left] at this

/-! ## Readers that behave alike -/

variable {σ' : Type u} {R' : Reader σ' β} {f : σ → σ'}

/-- `f` carries the states of `R` to states of `R'` that show and return the same. -/
structure Hom (R : Reader σ β) (R' : Reader σ' β) (f : σ → σ') : Prop where
  read : ∀ s n, R'.read (f s) n = ((R.read s n).1, f (R.read s n).2)
  eof : ∀ s, R'.eof (f s) = R.eof s
  err : ∀ s, R'.err (f s) = R.err s

theorem Hom.after (h : Hom R R' f) (s : σ) (ns : List Nat) : R'.after (f s) ns = f (R.after s ns) := by
  induction ns generalizing s with
  | nil => rfl
  | cons n ns ih =>
    have hread := congrArg Prod.snd (h.read s n)
    simp only [Reader.after, List.foldl_cons] at ih ⊢
    rw [hread, ih]

theorem Hom.got (h : Hom R R' f) (s : σ) (ns : List Nat) : R'.got (f s) ns = R.got s ns := by
  induction ns generalizing s with
  | nil => rfl
  | cons n ns ih => rw [Reader.got, Reader.got, h.read, ih]

theorem Hom.serves (h : Hom R R' f) (hs : R.Serves s d) : R'.Serves (f s) d := by
  refine ⟨fun ns => ?_, fun ns => ?_, fun ns hlt => ?_⟩
  · rw [h.got, hs.bytes ns]
  · rw [h.after, h.err, hs.sound ns]
  · rw [h.after, h.eof, hs.ends ns hlt]

/-! ## Windows -/

section

variable {μ : Type u} (code : μ → List β → List β × μ)

/-- At most the given number of entries, decoded. -/
def window (R : Reader σ β) : Reader (Nat × μ × σ) β where
  read t n :=
    if t.1 = 0 ∨ R.eof t.2.2 = true ∨ R.err t.2.2 = true then ([], t)
    else
      let k := min n t.1
      let r := R.read t.2.2 k
      ((code t.2.1 r.1).1, (t.1 - k, (code t.2.1 r.1).2, r.2))
  eof t := t.1 == 0 || R.eof t.2.2
  err t := R.err t.2.2

/-- Decoding in pieces is decoding at once, from the states in `Ok`. -/
structure Decoder (Ok : μ → Prop) : Prop where
  nil : ∀ m, Ok m → (code m []).1 = []
  take : ∀ m, Ok m → ∀ l n, (code m (l.take n)).1 = (code m l).1.take n
  drop : ∀ m, Ok m → ∀ l n, (code (code m (l.take n)).2 (l.drop n)).1 = (code m l).1.drop n
  length : ∀ m, Ok m → ∀ l, (code m l).1.length = l.length
  ok : ∀ m, Ok m → ∀ l, Ok (code m l).2

variable {code} {Ok : μ → Prop} {m : μ} {len : Nat}

/-- What is left of a window is the window of what is left. -/
theorem take_drop_window (d : List β) (n len : Nat) :
    (d.drop (min n len)).take (len - min n len) = (d.take len).drop n := by
  rw [List.drop_take]
  by_cases hle : n ≤ len
  · rw [Nat.min_eq_left hle]
  · simp [Nat.min_eq_right (Nat.le_of_not_le hle), Nat.sub_eq_zero_of_le (Nat.le_of_not_le hle)]

theorem window_stuck : (window code R).Stuck := by
  rintro ⟨len, m, s⟩ he n
  refine if_pos ?_
  simpa [window, or_assoc] using he

theorem window_read (hl : len ≠ 0) (he : R.eof s ≠ true) (hr : R.err s = false) (n : Nat) :
    (window code R).read (len, m, s) n = ((code m (R.read s (min n len)).1).1,
      (len - min n len, (code m (R.read s (min n len)).1).2, (R.read s (min n len)).2)) := by
  refine if_neg ?_
  simp [hl, he, hr]

theorem Serves.window (hd : Decoder code Ok) (hs : R.Stuck) (hm : Ok m) (h : R.Serves s d) :
    (window code R).Serves (len, m, s) (code m (d.take len)).1 := by
  refine Serves.coind window_stuck
    (Q := fun t e => Ok t.2.1 ∧ ∃ d, R.Serves t.2.2 d ∧ e = (code t.2.1 (d.take t.1)).1) ?_ ?_ ⟨hm, d, h, rfl⟩
  · rintro ⟨len, m, s⟩ _ ⟨-, d, h, -⟩
    exact h.no_error
  · rintro ⟨len, m, s⟩ _ ⟨hm, d, h, rfl⟩ n
    simp only
    by_cases he : len = 0 ∨ R.eof s = true
    · -- at the end nothing is read, and nothing is left
      have heof : (Reader.window code R).eof (len, m, s) = true := by simpa [Reader.window] using he
      have hnil : d.take len = [] := by
        rcases he with he | he
        · rw [he, List.take_zero]
        · rw [h.bytes.nil_of_stuck hs (.inl he), List.take_nil]
      have hread : (Reader.window code R).read (len, m, s) n = ([], (len, m, s)) := window_stuck _ (.inl heof) n
      rw [hnil, hd.nil m hm]
      refine ⟨?_, ?_, fun _ => ?_⟩ <;> rw [hread]
      · rw [List.take_nil]
      · exact ⟨hm, d, h, by rw [hnil, hd.nil m hm, List.drop_nil]⟩
      · exact heof
    · obtain ⟨hl, hi⟩ := not_or.1 he
      have hread : (Reader.window code R).read (len, m, s) n = _ := window_read hl hi h.no_error n
      obtain ⟨hb, hn, hends⟩ := h.step (min n len)
      have htake : d.take (min n len) = (d.take len).take n := by rw [List.take_take]
      have hdrop : (d.drop (min n len)).take (len - min n len) = (d.take len).drop n := take_drop_window d n len
      refine ⟨?_, ?_, fun hlt => ?_⟩ <;> rw [hread]
      · rw [hb, htake, hd.take m hm]
      · refine ⟨hd.ok m hm _, _, hn, ?_⟩
        rw [hb, hdrop, htake, hd.drop m hm]
      · show (len - min n len == 0 || R.eof (R.read s (min n len)).2) = true
        rw [hd.length m hm, List.length_take] at hlt
        by_cases hle : len ≤ n
        · simp [Nat.min_eq_right hle]
        · rw [Nat.min_eq_left (Nat.le_of_not_le hle)] at hends ⊢
          rw [Bool.or_eq_true]
          exact .inr (hends (by omega))

theorem Yields.window (hd : Decoder code Ok) (hs : R.Stuck) (hm : Ok m) (h : R.Yields s d) :
    (window code R).Yields (len, m, s) (code m (d.take len)).1 := by
  refine Yields.coind
    (Q := fun t e => Ok t.2.1 ∧ ∃ d, R.Yields t.2.2 d ∧ e = (code t.2.1 (d.take t.1)).1) ?_ ⟨hm, d, h, rfl⟩
  rintro ⟨len, m, s⟩ _ ⟨hm, d, h, rfl⟩ n
  simp only
  by_cases he : len = 0 ∨ R.eof s = true ∨ R.err s = true
  · have hnil : d.take len = [] := by
      rcases he with he | he
      · rw [he, List.take_zero]
      · rw [h.nil_of_stuck hs he, List.take_nil]
    have hread : (Reader.window code R).read (len, m, s) n = ([], (len, m, s)) := if_pos he
    rw [hread, hnil, hd.nil m hm, List.take_nil, List.drop_nil]
    exact ⟨rfl, hm, d, h, by rw [hnil, hd.nil m hm]⟩
  · have hread : (Reader.window code R).read (len, m, s) n = _ := if_neg he
    have hb := h.read (min n len)
    have htake : d.take (min n len) = (d.take len).take n := by rw [List.take_take]
    have hdrop : (d.drop (min n len)).take (len - min n len) = (d.take len).drop n := take_drop_window d n len
    rw [hread, hb, htake, hd.take m hm]
    refine ⟨rfl, hd.ok m hm _, _, h.next (min n len), ?_⟩
    rw [hdrop, hd.drop m hm]

/-- A window asks the reader below for no more than its length. -/
theorem window_after_reads (ns : List Nat) :
    ∃ ms, ((window code R).after (len, m, s) ns).2.2 = R.after s ms ∧ ms.sum ≤ len := by
  induction ns generalizing len m s with
  | nil => exact ⟨[], rfl, Nat.zero_le _⟩
  | cons n ns ih =>
    by_cases he : len = 0 ∨ R.eof s = true ∨ R.err s = true
    · have hread : (Reader.window code R).read (len, m, s) n = ([], (len, m, s)) := if_pos he
      obtain ⟨ms, hms, hsum⟩ := @ih s m len
      refine ⟨ms, ?_, hsum⟩
      rw [Reader.after, List.foldl_cons, hread]
      exact hms
    · have hread : (Reader.window code R).read (len, m, s) n = _ := if_neg he
      obtain ⟨ms, hms, hsum⟩ := @ih (R.read s (min n len)).2 (code m (R.read s (min n len)).1).2 (len - min n len)
      refine ⟨min n len :: ms, ?_, ?_⟩
      · rw [Reader.after, List.foldl_cons, hread]
        exact hms
      · rw [List.sum_cons]
        omega

/-- Reads that keep short of its length a window passes on. -/
theorem window_within (hs : R.Stuck) {ns : List Nat} (hlt : ns.sum < len) :
    ∃ len' m', (window code R).after (len, m, s) ns = (len', m', R.after s ns) ∧ len - ns.sum ≤ len' := by
  induction ns generalizing len m s with
  | nil => exact ⟨len, m, rfl, Nat.le_refl len⟩
  | cons n ns ih =>
    rw [List.sum_cons] at hlt
    by_cases he : R.eof s = true ∨ R.err s = true
    · have hread : (Reader.window code R).read (len, m, s) n = ([], (len, m, s)) := if_pos (.inr he)
      obtain ⟨len', m', hafter, hle⟩ := @ih s m len (by omega)
      refine ⟨len', m', ?_, by rw [List.sum_cons]; omega⟩
      rw [Reader.after, List.foldl_cons, hread, Reader.after, List.foldl_cons, hs s he]
      exact hafter
    · have hread : (Reader.window code R).read (len, m, s) n = _ := if_neg fun h => he (h.resolve_left (by omega))
      obtain ⟨len', m', hafter, hle⟩ := @ih (R.read s n).2 (code m (R.read s n).1).2 (len - n) (by omega)
      refine ⟨len', m', ?_, by rw [List.sum_cons]; omega⟩
      rw [Reader.after, List.foldl_cons, hread, Nat.min_eq_left (by omega), Reader.after, List.foldl_cons]
      exact hafter

/-- They show the end of the reader below. -/
theorem window_eof (hs : R.Stuck) {ns : List Nat} (hlt : ns.sum < len) :
    (window code R).eof ((window code R).after (len, m, s) ns) = R.eof (R.after s ns) := by
  obtain ⟨len', m', hafter, hle⟩ : ∃ len' m', (Reader.window code R).after (len, m, s) ns = (len', m', R.after s ns) ∧
      len - ns.sum ≤ len' := window_within hs hlt
  have hpos : (len' == 0) = false := beq_eq_false_iff_ne.2 (by omega)
  rw [hafter]
  simp only [window, hpos, Bool.false_or]

/-- How far the reads through a window have come below. -/
theorem window_after (hs : R.Stuck) (h : R.Serves s d) (ns : List Nat) :
    R.Serves ((window code R).after (len, m, s) ns).2.2 (d.drop (min ns.sum len)) := by
  induction ns generalizing len m s d with
  | nil => simpa [Reader.after] using h
  | cons n ns ih =>
    by_cases he : len = 0 ∨ R.eof s = true
    · have heof : (Reader.window code R).eof (len, m, s) = true := by simpa [Reader.window] using he
      rw [after_of_eof window_stuck heof]
      rcases he with he | he
      · simpa [he] using h
      · have hnil := h.bytes.nil_of_stuck hs (.inl he)
        rw [hnil] at h ⊢
        simpa using h
    · obtain ⟨hl, hi⟩ := not_or.1 he
      have hread : (Reader.window code R).read (len, m, s) n = _ := window_read hl hi h.no_error n
      have hrest := @ih _ _ (code m (R.read s (min n len)).1).2 (len - min n len) (h.next (min n len))
      rw [List.drop_drop, show min n len + min ns.sum (len - min n len) = min (n :: ns).sum len by
        rw [List.sum_cons]; omega] at hrest
      rw [Reader.after, List.foldl_cons, hread]
      exact hrest

end

end Reader

end Readers
