import Mathlib.Data.List.Induction
/-
# Runs of a deterministic machine

A machine is `step : σ → ι → σ`. `Guarded` says that every step of a run meets a
condition on its input and the state before it; an invariant kept by such steps
holds wherever such a run ends, and so does a property of the inputs so far.

A log grows at its end. `AtEach` and `Once` speak of each of its entries, and of one of
them, with the log before it; a monitor of a log is a machine run on it.
-/

namespace Keynjector.Runs

universe u v

variable {σ : Type u} {ι : Type v} {step : σ → ι → σ} {s : σ}

/-- The state after the inputs. -/
def run (step : σ → ι → σ) (s : σ) (is : List ι) : σ := is.foldl step s

theorem run_append (is js : List ι) : run step s (is ++ js) = run step (run step s is) js := List.foldl_append

theorem run_snoc (is : List ι) (i : ι) : run step s (is ++ [i]) = step (run step s is) i := run_append is [i]

/-- Every step of the run meets `G`. -/
def Guarded (step : σ → ι → σ) (G : σ → ι → Prop) : σ → List ι → Prop
  | _, [] => True
  | s, i :: is => G s i ∧ Guarded step G (step s i) is

instance Guarded.decidable {G : σ → ι → Prop} [∀ s i, Decidable (G s i)] :
    (s : σ) → (is : List ι) → Decidable (Guarded step G s is)
  | _, [] => .isTrue trivial
  | s, i :: is =>
    @instDecidableAnd (G s i) (Guarded step G (step s i) is) _ (Guarded.decidable (step s i) is)

variable {G : σ → ι → Prop}

theorem Guarded.append {is js : List ι} :
    Guarded step G s (is ++ js) ↔ Guarded step G s is ∧ Guarded step G (run step s is) js := by
  induction is generalizing s with
  | nil => simp [Guarded, run]
  | cons i is ih => simp only [List.cons_append, Guarded, ih, and_assoc, run, List.foldl_cons]

theorem Guarded.snoc {is : List ι} {i : ι} :
    Guarded step G s (is ++ [i]) ↔ Guarded step G s is ∧ G (run step s is) i := by
  rw [Guarded.append]
  simp [Guarded]

/-- **The invariant rule.** -/
theorem Guarded.invariant {Inv : σ → Prop} (hstep : ∀ s i, G s i → Inv s → Inv (step s i)) {is : List ι}
    (hg : Guarded step G s is) (h0 : Inv s) : Inv (run step s is) := by
  induction is generalizing s with
  | nil => exact h0
  | cons i is ih => exact ih hg.2 (hstep s i hg.1 h0)

/-- An invariant lets the steps of a run meet more. -/
theorem Guarded.imp {G' : σ → ι → Prop} {Inv : σ → Prop} (hstep : ∀ s i, G s i → Inv s → Inv (step s i))
    (himp : ∀ s i, G s i → Inv s → G' s i) {is : List ι} (hg : Guarded step G s is) (h0 : Inv s) :
    Guarded step G' s is := by
  induction is generalizing s with
  | nil => trivial
  | cons i is ih => exact ⟨himp s i hg.1 h0, ih hg.2 (hstep s i hg.1 h0)⟩

theorem Guarded.congr {G' : σ → ι → Prop} (h : ∀ s i, G s i ↔ G' s i) {is : List ι} :
    Guarded step G s is ↔ Guarded step G' s is := by
  obtain rfl : G = G' := by
    funext s i
    exact propext (h s i)
  exact Iff.rfl

theorem Guarded.all (is : List ι) : Guarded step (fun _ _ => True) s is := by
  induction is generalizing s with
  | nil => trivial
  | cons i is ih => exact ⟨trivial, ih⟩

/-- **The exactness rule.** When the steps that keep `Good` from states that meet an invariant are those that meet `G`,
the runs that stay in `Good` are the guarded ones. -/
theorem Guarded.exact (Inv Good : σ → Prop) (hgood : ∀ s, Inv s → Good s)
    (hstep : ∀ s i, Inv s → G s i → Inv (step s i)) (hback : ∀ s i, Inv s → Good (step s i) → G s i) {is : List ι}
    (h0 : Inv s) : (∀ p, p <+: is → Good (run step s p)) ↔ Guarded step G s is := by
  constructor
  · intro h
    induction is generalizing s with
    | nil => trivial
    | cons i is ih =>
      have hi : G s i := hback s i h0 (h [i] (List.cons_prefix_cons.2 ⟨rfl, List.nil_prefix⟩))
      exact ⟨hi, ih (hstep s i h0 hi) fun p hp => h (i :: p) (List.cons_prefix_cons.2 ⟨rfl, hp⟩)⟩
  · rintro hg p ⟨rest, rfl⟩
    exact hgood _ (Guarded.invariant (fun s i hi hs => hstep s i hs hi) (Guarded.append.1 hg).1 h0)

/-- **The history rule**: a property of the inputs so far, kept by every step. -/
theorem Guarded.history {P : List ι → Prop} (h0 : P [])
    (hstep : ∀ is i, Guarded step G s is → G (run step s is) i → P is → P (is ++ [i])) {is : List ι}
    (hg : Guarded step G s is) : P is := by
  induction is using List.reverseRecOn with
  | nil => exact h0
  | append_singleton is i ih =>
    obtain ⟨hg, hi⟩ := Guarded.snoc.1 hg
    exact hstep is i hg hi (ih hg)

/-! ## Logs -/

section

variable {ε : Type u} {P : List ε → ε → Prop} {log : List ε} {e : ε}

/-- Every entry of the log has `P`, given the log before it. -/
def AtEach (P : List ε → ε → Prop) (log : List ε) : Prop := ∀ pre e post, log = pre ++ e :: post → P pre e

/-- Some entry of the log has `P`. -/
def Once (P : List ε → ε → Prop) (log : List ε) : Prop := ∃ pre e post, log = pre ++ e :: post ∧ P pre e

theorem split_snoc {pre post : List ε} {x : ε} (h : log ++ [e] = pre ++ x :: post) :
    (pre = log ∧ x = e) ∨ ∃ post', log = pre ++ x :: post' := by
  rcases List.eq_nil_or_concat post with rfl | ⟨post', y, rfl⟩
  · obtain ⟨hpre, hx⟩ := List.append_inj' h rfl
    exact .inl ⟨hpre.symm, (List.singleton_inj.1 hx).symm⟩
  · have h : log ++ [e] = (pre ++ x :: post') ++ [y] := by simpa using h
    exact .inr ⟨post', (List.append_inj' h rfl).1⟩

theorem AtEach.nil : AtEach P [] := by
  intro pre e post h
  cases pre <;> cases h

theorem AtEach.snoc : AtEach P (log ++ [e]) ↔ AtEach P log ∧ P log e := by
  constructor
  · intro h
    refine ⟨fun pre x post hx => h pre x (post ++ [e]) (by simp [hx]), h log e [] rfl⟩
  · rintro ⟨h, he⟩ pre x post hx
    rcases split_snoc hx with ⟨rfl, rfl⟩ | ⟨post', hlog⟩
    · exact he
    · exact h pre x post' hlog

theorem AtEach.append {es : List ε} (h : AtEach P log) (hes : ∀ pre e post, es = pre ++ e :: post → P (log ++ pre) e) :
    AtEach P (log ++ es) := by
  induction es using List.reverseRecOn with
  | nil => rwa [List.append_nil]
  | append_singleton es e ih =>
    rw [← List.append_assoc, AtEach.snoc]
    refine ⟨ih fun pre x post hx => hes pre x (post ++ [e]) ?_, hes es e [] rfl⟩
    rw [hx, List.append_assoc, List.cons_append]

theorem AtEach.of_append {es : List ε} (h : AtEach P (log ++ es)) : AtEach P log := by
  rintro pre e post rfl
  exact h pre e (post ++ es) (by simp)

theorem atEach_iff_mem {Q : ε → Prop} : AtEach (fun _ e => Q e) log ↔ ∀ e ∈ log, Q e := by
  constructor
  · intro h e he
    obtain ⟨pre, post, hlog⟩ := List.append_of_mem he
    exact h pre e post hlog
  · rintro h pre e post rfl
    exact h e (by simp)

theorem atEach_iff_get : AtEach P log ↔ ∀ k : Fin log.length, P (log.take k) (log.get k) := by
  constructor
  · intro h k
    exact h _ _ (log.drop (k + 1)) (by simp)
  · rintro h pre e post rfl
    simpa using h ⟨pre.length, by simp⟩

instance [∀ pre e, Decidable (P pre e)] : Decidable (AtEach P log) := decidable_of_iff _ atEach_iff_get.symm

theorem Once.mono {log' : List ε} (h : Once P log) (hl : log <+: log') : Once P log' := by
  obtain ⟨pre, x, post, rfl, hx⟩ := h
  obtain ⟨es, rfl⟩ := hl
  exact ⟨pre, x, post ++ es, by simp, hx⟩

theorem Once.snoc (h : Once P log) : Once P (log ++ [e]) := h.mono ⟨[e], rfl⟩

theorem Once.last (h : P log e) : Once P (log ++ [e]) := ⟨log, e, [], rfl, h⟩

end

end Keynjector.Runs
