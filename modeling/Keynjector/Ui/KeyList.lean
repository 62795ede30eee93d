import Keynjector.Ui.ListBox
/-
# The key list as a language (ui.c:912-1087)

`lbx_set_items` accepts the texts of the grammar and no others, and `lbx_advance_entry` walks
an accepted text entry by entry up to its NUL. `Items` of the scanners' module is the grammar
as validation sees it, from a pointer on; here it is the language itself.

| here | there |
| --- | --- |
| `Spells`                         | the entries, one behind the other; only the last may omit its line ends |
| `lbxAdvanceEntryIn`, `lbxSkipIn` | `lbx_advance_entry` and its repetition, on the memory up to the NUL |
-/

namespace Keynjector.Ui

open Scan

variable {es : List Entry} {s : List UInt8}

/-- `s` is the text of the entries `es`. -/
def Spells (es : List Entry) (s : List UInt8) : Prop :=
  s = es.flatMap Entry.text ∧ ∀ e ∈ es.dropLast, e.ends ≠ []

/-- `lbx_advance_entry` with the memory `m` from the pointer on; `none` if it reads behind it. -/
def lbxAdvanceEntryIn (m : List UInt8) : Option (List UInt8) := do
  let m := m.drop (← scan inLbxKeyCharset m)
  let m := m.drop (← scan isTab m)
  let m := m.drop (← scan inLbxValueCharset m)
  let m := m.drop (← scan isLineEnd m)
  some m

/-- The pointer after `i` turns. -/
def lbxSkipIn (m : List UInt8) : Nat → Option (List UInt8)
  | 0 => some m
  | i + 1 => (lbxAdvanceEntryIn m).bind fun m => lbxSkipIn m i

/-! ## No scanner passes the NUL -/

theorem drop_scan {p : UInt8 → Bool} (hp : p 0 = false) (s : List UInt8) :
    scan p (s ++ [0]) = some (count p s) ∧ (s ++ [0]).drop (count p s) = s.drop (count p s) ++ [0] :=
  ⟨scan_append hp s, List.drop_append_of_le_length (count_le p s)⟩

theorem lbxAdvanceEntryIn_nul (s : List UInt8) : lbxAdvanceEntryIn (s ++ [0]) = some (lbxAdvanceEntry s ++ [0]) := by
  obtain ⟨h1, d1⟩ := drop_scan nul_not_key s
  obtain ⟨h2, d2⟩ := drop_scan (p := isTab) rfl (s.drop (count inLbxKeyCharset s))
  obtain ⟨h3, d3⟩ := drop_scan nul_not_value
    ((s.drop (count inLbxKeyCharset s)).drop (count isTab (s.drop (count inLbxKeyCharset s))))
  obtain ⟨h4, d4⟩ := drop_scan (p := isLineEnd) rfl
    (((s.drop (count inLbxKeyCharset s)).drop (count isTab (s.drop (count inLbxKeyCharset s)))).drop
      (count inLbxValueCharset ((s.drop (count inLbxKeyCharset s)).drop
        (count isTab (s.drop (count inLbxKeyCharset s))))))
  simp only [lbxAdvanceEntryIn, Option.bind_eq_bind, h1, Option.bind_some, d1, h2, d2, h3, d3, h4, d4]
  rfl

theorem lbxSkipIn_nul (s : List UInt8) (i : Nat) : lbxSkipIn (s ++ [0]) i = some (lbxSkip s i ++ [0]) := by
  induction i generalizing s with
  | zero => rfl
  | succ i ih =>
    rw [lbxSkipIn, lbxAdvanceEntryIn_nul, Option.bind_some, ih]
    rfl

/-! ## The grammar from a pointer on, and as a language -/

theorem AtEnd.eq_nil (hs : 0 ∉ s) (h : AtEnd s) : s = [] := by
  cases s with
  | nil => rfl
  | cons c s => exact absurd (show 0 ∈ c :: s from (show c = 0 from h) ▸ List.mem_cons_self ..) hs

theorem spells_cons {e : Entry} :
    Spells (e :: es) s ↔ ∃ s', s = e.text ++ s' ∧ Spells es s' ∧ (e.ends = [] → es = []) := by
  cases es with
  | nil => simp [Spells]
  | cons e1 es =>
    unfold Spells
    rw [List.dropLast_cons_of_ne_nil (List.cons_ne_nil _ _), List.flatMap_cons, List.forall_mem_cons]
    constructor
    · rintro ⟨rfl, hne, hends⟩
      exact ⟨_, rfl, ⟨rfl, hends⟩, fun hnil => absurd hnil hne⟩
    · rintro ⟨_, rfl, ⟨rfl, hends⟩, hl⟩
      exact ⟨rfl, fun hnil => absurd (hl hnil) (List.cons_ne_nil _ _), hends⟩

theorem Items.spells (hs : 0 ∉ s) (h : Items es s) : Spells es s := by
  induction h with
  | nil h => exact ⟨h.eq_nil hs, nofun⟩
  | cons e h hl ih => exact spells_cons.2 ⟨_, rfl, ih fun h0 => hs (List.mem_append_right _ h0), hl⟩

theorem Spells.items (h : Spells es s) : Items es s := by
  induction es generalizing s with
  | nil =>
    obtain ⟨rfl, -⟩ := h
    exact .nil rfl
  | cons e es ih =>
    obtain ⟨s', rfl, h, hl⟩ := spells_cons.1 h
    exact .cons e (ih h) hl

/-! ## Acceptance -/

/-- Each turn of `lbx_advance_entry` takes one entry off the text. -/
theorem Spells.skip (h : Spells es s) (i : Nat) : lbxSkip s i = (es.drop i).flatMap Entry.text := by
  induction i generalizing es s with
  | zero => exact h.1
  | succ i ih =>
    rw [lbxSkip_succ]
    cases es with
    | nil =>
      rw [lbxAdvanceEntry_atEnd (h.1 ▸ rfl), ih h, List.drop_nil, List.drop_nil]
    | cons e es =>
      obtain ⟨s', rfl, h, hl⟩ := spells_cons.1 h
      rw [lbxAdvanceEntry_cons h.items hl, ih h, List.drop_succ_cons]

theorem lbxSetItems_of_spells (lc : Lbx) (h : Spells es s) :
    lbxSetItems lc s = ({ lc with items := some s, nItems := es.length }, true) := by
  have hn : validateLbxItems s = es.length := (validateLbxItems_iff s es.length).2 ⟨es, h.items, rfl⟩
  unfold lbxSetItems
  rw [hn, if_pos (Int.natCast_nonneg _)]

theorem lbxSetItems_of_not (lc : Lbx) (hs : 0 ∉ s) (h : ¬ ∃ es, Spells es s) :
    lbxSetItems lc s = ({ lc with items := none, nItems := 0 }, false) := by
  unfold lbxSetItems
  refine if_neg fun hv => h ?_
  obtain ⟨es, hes, -⟩ := (validateLbxItems_iff s (validateLbxItems s).toNat).1 (Int.toNat_of_nonneg hv).symm
  exact ⟨es, hes.spells hs⟩

/-- **The key list grammar.** `lbx_set_items` accepts a text exactly if entries spell it, counts them, and
`lbx_advance_entry` goes through them one by one up to the NUL and reads nothing behind it; otherwise there are no
items. -/
theorem lbxSetItems_grammar (lc : Lbx) (hs : 0 ∉ s) :
    ((lbxSetItems lc s).2 = true ↔ ∃ es, Spells es s) ∧
    (∀ es, Spells es s → (lbxSetItems lc s).1 = { lc with items := some s, nItems := es.length } ∧
      ∀ i, i ≤ es.length → lbxSkipIn (s ++ [0]) i = some ((es.drop i).flatMap Entry.text ++ [0])) ∧
    ((lbxSetItems lc s).2 = false → (lbxSetItems lc s).1 = { lc with items := none, nItems := 0 }) := by
  refine ⟨?_, fun es h => ⟨by rw [lbxSetItems_of_spells lc h], fun i _ => ?_⟩, fun hno => ?_⟩
  · by_cases h : ∃ es, Spells es s
    · obtain ⟨es, hes⟩ := h
      exact iff_of_true (by rw [lbxSetItems_of_spells lc hes]) ⟨es, hes⟩
    · exact iff_of_false (by rw [lbxSetItems_of_not lc hs h]; exact Bool.false_ne_true) h
  · rw [lbxSkipIn_nul, h.skip]
  · rw [lbxSetItems_of_not lc hs fun h => ?_]
    obtain ⟨es, hes⟩ := h
    rw [lbxSetItems_of_spells lc hes] at hno
    cases hno

/-- Two entries, the second without line ends. -/
theorem lbxSetItems_grammar_sample : ∃ es, Spells es sampleItems :=
  (lbxSetItems_grammar keyLbx (s := sampleItems) (by decide +kernel)).1.1 (by decide +kernel)

end Keynjector.Ui
