/-
# A loop whose test and body may fault

`whileLoop` runs `while (cond) body`; it is `none` when the test or the body faults
or the turns run out. An invariant under which neither faults and a measure that
each turn lowers give the state at the end.
-/

namespace Keynjector.Loop

universe u

variable {σ : Type u} {cond : σ → Option Bool} {body : σ → Option σ}

/-- `while (cond) body`, the test made at most `fuel` times. -/
def whileLoop (cond : σ → Option Bool) (body : σ → Option σ) : Nat → σ → Option σ
  | 0, _ => none
  | fuel + 1, s =>
    match cond s with
    | none => none
    | some false => some s
    | some true => (body s).bind (whileLoop cond body fuel)

/-- **The loop rule**: with enough turns the loop ends, in a state of the invariant that
fails the test. -/
theorem whileLoop_spec (I : σ → Prop) (μ : σ → Nat) (hcond : ∀ s, I s → ∃ go, cond s = some go)
    (hbody : ∀ s, I s → cond s = some true → ∃ s', body s = some s' ∧ I s' ∧ μ s' < μ s)
    {fuel : Nat} {s : σ} (hs : I s) (hfuel : μ s < fuel) :
    ∃ s', whileLoop cond body fuel s = some s' ∧ I s' ∧ cond s' = some false := by
  induction fuel generalizing s with
  | zero => exact absurd hfuel (Nat.not_lt_zero _)
  | succ fuel ih =>
    obtain ⟨go, hgo⟩ := hcond s hs
    cases go with
    | false => exact ⟨s, by simp [whileLoop, hgo], hs, hgo⟩
    | true =>
      obtain ⟨s', hs', hI, hμ⟩ := hbody s hs hgo
      obtain ⟨t, ht, hIt, hdone⟩ := ih hI (by omega)
      exact ⟨t, by simp [whileLoop, hgo, hs', ht], hIt, hdone⟩

end Keynjector.Loop
