import Mathlib.Logic.Function.Iterate
import Keynjector.Lib.Scan
import Keynjector.Ui.Font
/-
# The key list: scanners and grammar (ui.c:912-1085)

| here | there |
| --- | --- |
| `inLbxKeyCharset`, `inLbxValueCharset` | `in_lbx_key_charset`, `in_lbx_value_charset` |
| `countLbx…`                            | the four `count_lbx_…` scanners |
| `validateLbxEntry`, `validateLbxItems` | `validate_lbx_entry`, `validate_lbx_items` |
| `lbxAdvanceEntry`                      | `lbx_advance_entry` |
| `lbxGetKeyText`, `lbxGetValueText`     | `lbx_get_key_text`, `lbx_get_value_text` |

A string pointer is the list of the bytes from there on; reading at the end of the
list reads the terminating NUL. `Entry` and `Items` are the grammar, and
`validateLbxItems_iff` says that validation accepts exactly it.
-/

namespace Keynjector.Ui

open Scan

/-- `LBX_VALUE_CHARSET` (`ui.c:48`). -/
def lbxValueCharset : List UInt8 :=
  "ABCDEFGHIJKLMNOPQRSTUVWXYZabcdefghijklmnopqrstuvwxyz0123456789".toUTF8.toList

def inLbxKeyCharset (c : UInt8) : Bool := (charCoord c).xadvance ≠ 0

def inLbxValueCharset (c : UInt8) : Bool := lbxValueCharset.contains c

def isTab (c : UInt8) : Bool := c == 9

def isLineEnd (c : UInt8) : Bool := c == 13 || c == 10

def countLbxKeyChars : List UInt8 → Nat := count inLbxKeyCharset
def countLbxValueChars : List UInt8 → Nat := count inLbxValueCharset
def countLbxKeyValueDelimiterChars : List UInt8 → Nat := count isTab
def countLbxEntryDelimiterChars : List UInt8 → Nat := count isLineEnd

/-- The pointer stands on the terminating NUL. -/
def AtEnd (s : List UInt8) : Prop := s.headD 0 = 0

instance (s : List UInt8) : Decidable (AtEnd s) := inferInstanceAs (Decidable (s.headD 0 = 0))

/-- `validate_lbx_entry`: the length of the entry at `s`, or 0. -/
def validateLbxEntry (s : List UInt8) : Nat :=
  let keyChars := countLbxKeyChars s
  let delimiterChars := countLbxKeyValueDelimiterChars (s.drop keyChars)
  let entryChars := countLbxValueChars (s.drop (keyChars + delimiterChars))
  let endChars := countLbxEntryDelimiterChars (s.drop (keyChars + delimiterChars + entryChars))
  let totalLength := keyChars + delimiterChars + entryChars + endChars
  if keyChars > 0 ∧ delimiterChars > 0 ∧ entryChars > 0 ∧ (endChars > 0 ∨ AtEnd (s.drop totalLength)) then
    totalLength
  else 0

theorem validateLbxEntry_le (s : List UInt8) : validateLbxEntry s ≤ s.length := by
  have h1 := count_le inLbxKeyCharset s
  have h2 := add_count_drop_le isTab h1
  have h3 := add_count_drop_le inLbxValueCharset h2
  have h4 := add_count_drop_le isLineEnd h3
  simp only [validateLbxEntry]
  split_ifs
  · exact h4
  · exact Nat.zero_le _

/-- `validate_lbx_items` from the pointer `s` on, `n` entries being behind it. -/
def validateLbxItemsFrom (s : List UInt8) (n : Int) : Int :=
  if 0 < validateLbxEntry s then validateLbxItemsFrom (s.drop (validateLbxEntry s)) (n + 1)
  else if AtEnd s then n else -1
termination_by s.length
decreasing_by
  have := validateLbxEntry_le s
  simp only [List.length_drop]
  omega

/-- `validate_lbx_items`: the number of entries, or -1. -/
def validateLbxItems (s : List UInt8) : Int := validateLbxItemsFrom s 0

/-- `lbx_advance_entry`. -/
def lbxAdvanceEntry (s : List UInt8) : List UInt8 :=
  let s := s.drop (countLbxKeyChars s)
  let s := s.drop (countLbxKeyValueDelimiterChars s)
  let s := s.drop (countLbxValueChars s)
  s.drop (countLbxEntryDelimiterChars s)

/-- `lbx_get_key_text`: the string left in `buffer`. -/
def lbxGetKeyText (s : List UInt8) (maxLen : Nat) : List UInt8 := s.take (min (countLbxKeyChars s) (maxLen - 1))

/-- `lbx_get_value_text`. -/
def lbxGetValueText (s : List UInt8) (maxLen : Nat) : List UInt8 := s.take (min (countLbxValueChars s) (maxLen - 1))

/-! ## The grammar -/

/-- One entry: key, tabs, value, line ends. Only the last entry of a list may do without
line ends. -/
structure Entry where
  key : List UInt8
  tabs : List UInt8
  value : List UInt8
  ends : List UInt8
  key_ne : key ≠ []
  tabs_ne : tabs ≠ []
  value_ne : value ≠ []
  key_all : All inLbxKeyCharset key
  tabs_all : All isTab tabs
  value_all : All inLbxValueCharset value
  ends_all : All isLineEnd ends

def Entry.text (e : Entry) : List UInt8 := e.key ++ (e.tabs ++ (e.value ++ e.ends))

/-- `s` holds the entries `es` up to its NUL. -/
inductive Items : List Entry → List UInt8 → Prop
  | nil {s : List UInt8} : AtEnd s → Items [] s
  | cons {es : List Entry} {s : List UInt8} (e : Entry) : Items es s → (e.ends = [] → es = []) →
      Items (e :: es) (e.text ++ s)

/-! ## The four classes meet only where the scanners never compare them -/

/-- The NUL, the tab and the line ends are in neither charset. -/
theorem separator_not_char : ∀ c ∈ [(0 : UInt8), 9, 10, 13],
    inLbxKeyCharset c = false ∧ inLbxValueCharset c = false := by
  decide +kernel

theorem nul_not_key : inLbxKeyCharset 0 = false := (separator_not_char 0 (by simp)).1

theorem nul_not_value : inLbxValueCharset 0 = false := (separator_not_char 0 (by simp)).2

theorem mem_of_isLineEnd {c : UInt8} (h : isLineEnd c = true) : c ∈ [(0 : UInt8), 9, 10, 13] := by
  rcases (by simpa [isLineEnd] using h : c = 13 ∨ c = 10) with rfl | rfl <;> simp

theorem key_not_tab {c : UInt8} (h : inLbxKeyCharset c = true) : isTab c = false := by
  cases ht : isTab c with
  | false => rfl
  | true =>
    obtain rfl : c = 9 := by simpa [isTab] using ht
    rw [(separator_not_char 9 (by simp)).1] at h
    cases h

theorem tab_not_key {c : UInt8} (h : isTab c = true) : inLbxKeyCharset c = false := by
  cases hk : inLbxKeyCharset c with
  | false => rfl
  | true => exact absurd h (by simp [key_not_tab hk])

theorem value_not_tab {c : UInt8} (h : inLbxValueCharset c = true) : isTab c = false := by
  cases ht : isTab c with
  | false => rfl
  | true =>
    obtain rfl : c = 9 := by simpa [isTab] using ht
    rw [(separator_not_char 9 (by simp)).2] at h
    cases h

theorem lineEnd_not_value {c : UInt8} (h : isLineEnd c = true) : inLbxValueCharset c = false :=
  (separator_not_char c (mem_of_isLineEnd h)).2

theorem key_not_lineEnd {c : UInt8} (h : inLbxKeyCharset c = true) : isLineEnd c = false := by
  cases hl : isLineEnd c with
  | false => rfl
  | true =>
    rw [(separator_not_char c (mem_of_isLineEnd hl)).1] at h
    cases h

theorem AtEnd.stops {p : UInt8 → Bool} (hp : p 0 = false) {s : List UInt8} (h : AtEnd s) : Stops p s := by
  cases s with
  | nil => simp [Stops]
  | cons c s =>
    obtain rfl : c = 0 := h
    simpa [Stops] using hp

theorem Items.stops_lineEnd {es : List Entry} {s : List UInt8} (h : Items es s) : Stops isLineEnd s := by
  cases h with
  | nil h => exact h.stops rfl
  | cons e _ _ =>
    rw [Entry.text, List.append_assoc]
    exact Stops.of_all e.key_all e.key_ne fun _ => key_not_lineEnd

theorem Items.eq_nil {es : List Entry} {s : List UInt8} (h : Items es s) (hs : AtEnd s) : es = [] := by
  cases h with
  | nil => rfl
  | @cons es s e _ _ =>
    have hk : Stops inLbxKeyCharset (e.text ++ s) := hs.stops nul_not_key
    obtain ⟨c, key, hkey⟩ := List.exists_cons_of_ne_nil e.key_ne
    have hc : inLbxKeyCharset c = true := e.key_all c (by simp [hkey])
    have := hk c (by simp [Entry.text, hkey])
    simp [hc] at this

/-! ## Each scanner on a well-formed list -/

section Scanners

variable {e : Entry} {es : List Entry} {s : List UInt8}

theorem text_append (e : Entry) (s : List UInt8) :
    e.text ++ s = e.key ++ (e.tabs ++ (e.value ++ (e.ends ++ s))) := by
  simp only [Entry.text, List.append_assoc]

theorem stops_key (e : Entry) (s : List UInt8) : Stops inLbxKeyCharset (e.tabs ++ s) :=
  Stops.of_all e.tabs_all e.tabs_ne fun _ => tab_not_key

theorem stops_tab (e : Entry) (s : List UInt8) : Stops isTab (e.value ++ s) :=
  Stops.of_all e.value_all e.value_ne fun _ => value_not_tab

theorem stops_value (h : Items es s) (hl : e.ends = [] → es = []) : Stops inLbxValueCharset (e.ends ++ s) := by
  by_cases he : e.ends = []
  · cases h with
    | nil h => simpa [he] using h.stops nul_not_value
    | cons => simp at hl; exact absurd he hl
  · exact Stops.of_all e.ends_all he fun _ => lineEnd_not_value

theorem drop_key (e : Entry) (s : List UInt8) :
    (e.text ++ s).drop (countLbxKeyChars (e.text ++ s)) = e.tabs ++ (e.value ++ (e.ends ++ s)) := by
  rw [text_append]
  exact drop_count_append e.key_all (stops_key _ _)

theorem drop_tabs (e : Entry) (s : List UInt8) :
    (e.tabs ++ (e.value ++ s)).drop (countLbxKeyValueDelimiterChars (e.tabs ++ (e.value ++ s))) = e.value ++ s :=
  drop_count_append e.tabs_all (stops_tab _ _)

/-- `lbx_advance_entry` moves exactly to the next entry. -/
theorem lbxAdvanceEntry_cons (h : Items es s) (hl : e.ends = [] → es = []) :
    lbxAdvanceEntry (e.text ++ s) = s := by
  have hv : (e.value ++ (e.ends ++ s)).drop (countLbxValueChars (e.value ++ (e.ends ++ s))) = e.ends ++ s :=
    drop_count_append e.value_all (stops_value h hl)
  have he : (e.ends ++ s).drop (countLbxEntryDelimiterChars (e.ends ++ s)) = s :=
    drop_count_append e.ends_all h.stops_lineEnd
  simp only [lbxAdvanceEntry, drop_key, drop_tabs, hv, he]

/-- At the end of the list it stays there. -/
theorem lbxAdvanceEntry_atEnd (h : AtEnd s) : lbxAdvanceEntry s = s := by
  simp only [lbxAdvanceEntry, countLbxKeyChars, countLbxKeyValueDelimiterChars, countLbxValueChars,
    countLbxEntryDelimiterChars, count_eq_zero (h.stops nul_not_key),
    count_eq_zero (h.stops (p := isTab) rfl), count_eq_zero (h.stops nul_not_value),
    count_eq_zero (h.stops (p := isLineEnd) rfl), List.drop_zero]

theorem lbxGetKeyText_cons (maxLen : Nat) : lbxGetKeyText (e.text ++ s) maxLen = e.key.take (maxLen - 1) := by
  have hk : countLbxKeyChars (e.text ++ s) = e.key.length := by
    rw [text_append]
    exact count_append e.key_all (stops_key _ _)
  rw [lbxGetKeyText, hk, text_append, List.take_append_of_le_length (Nat.min_le_left _ _),
    Nat.min_comm, ← List.take_take, List.take_length]

theorem lbxGetValueText_cons (h : Items es s) (hl : e.ends = [] → es = []) (maxLen : Nat) :
    lbxGetValueText (e.value ++ (e.ends ++ s)) maxLen = e.value.take (maxLen - 1) := by
  have hv : countLbxValueChars (e.value ++ (e.ends ++ s)) = e.value.length :=
    count_append e.value_all (stops_value h hl)
  rw [lbxGetValueText, hv, List.take_append_of_le_length (Nat.min_le_left _ _), Nat.min_comm, ← List.take_take,
    List.take_length]

theorem validateLbxEntry_cons (h : Items es s) (hl : e.ends = [] → es = []) :
    validateLbxEntry (e.text ++ s) = e.text.length := by
  have h1 : countLbxKeyChars (e.text ++ s) = e.key.length := by
    rw [text_append]
    exact count_append e.key_all (stops_key _ _)
  have d1 := drop_key e s
  rw [h1] at d1
  have h2 : countLbxKeyValueDelimiterChars (e.tabs ++ (e.value ++ (e.ends ++ s))) = e.tabs.length :=
    count_append e.tabs_all (stops_tab _ _)
  have h3 : countLbxValueChars (e.value ++ (e.ends ++ s)) = e.value.length :=
    count_append e.value_all (stops_value h hl)
  have h4 : countLbxEntryDelimiterChars (e.ends ++ s) = e.ends.length := count_append e.ends_all h.stops_lineEnd
  have k := List.length_pos_iff.2 e.key_ne
  have t := List.length_pos_iff.2 e.tabs_ne
  have v := List.length_pos_iff.2 e.value_ne
  have hend : e.ends.length > 0 ∨ AtEnd s := by
    by_cases he : e.ends = []
    · obtain rfl := hl he
      cases h with
      | nil h => exact Or.inr h
    · exact Or.inl (List.length_pos_iff.2 he)
  simp only [validateLbxEntry, h1, ← List.drop_drop, d1, h2, List.drop_left, h3, h4]
  rw [if_pos ⟨k, t, v, hend⟩]
  simp only [Entry.text, List.length_append]
  omega

end Scanners

/-! ## Validation accepts exactly the grammar -/

theorem validateLbxEntry_atEnd {s : List UInt8} (h : AtEnd s) : validateLbxEntry s = 0 := by
  have hk : countLbxKeyChars s = 0 := count_eq_zero (h.stops nul_not_key)
  simp [validateLbxEntry, hk]

/-- What passes `validate_lbx_entry` is an entry, the last one if it has no line ends. -/
theorem exists_entry {s : List UInt8} (h : 0 < validateLbxEntry s) :
    ∃ e : Entry, s = e.text ++ s.drop (validateLbxEntry s) ∧ (e.ends = [] → AtEnd (s.drop (validateLbxEntry s))) := by
  obtain ⟨k, hk⟩ : ∃ k, countLbxKeyChars s = k := ⟨_, rfl⟩
  obtain ⟨d, hd⟩ : ∃ d, countLbxKeyValueDelimiterChars (s.drop k) = d := ⟨_, rfl⟩
  obtain ⟨v, hv⟩ : ∃ v, countLbxValueChars ((s.drop k).drop d) = v := ⟨_, rfl⟩
  obtain ⟨l, hl⟩ : ∃ l, countLbxEntryDelimiterChars (((s.drop k).drop d).drop v) = l := ⟨_, rfl⟩
  simp only [validateLbxEntry, hk, hd, ← List.drop_drop, hv, hl] at h ⊢
  split at h
  · rename_i hc
    obtain ⟨hk0, hd0, hv0, hend⟩ := hc
    have ne_nil : ∀ {a : List UInt8} {n : Nat}, (a.take n).length = n → 0 < n → a.take n ≠ [] := by
      intro a n ha hn hnil
      rw [hnil] at ha
      simp at ha
      omega
    obtain ⟨lk, ak⟩ := run_of_count hk
    obtain ⟨ld, ad⟩ := run_of_count hd
    obtain ⟨lv, av⟩ := run_of_count hv
    obtain ⟨ll, al⟩ := run_of_count hl
    refine ⟨⟨s.take k, (s.drop k).take d, ((s.drop k).drop d).take v, (((s.drop k).drop d).drop v).take l,
      ne_nil lk hk0, ne_nil ld hd0, ne_nil lv hv0, ak, ad, av, al⟩, ?_, ?_⟩
    · rw [if_pos ⟨hk0, hd0, hv0, hend⟩]
      simp only [Entry.text, List.append_assoc, ← List.drop_drop, List.take_append_drop]
    · intro hnil
      rw [if_pos ⟨hk0, hd0, hv0, hend⟩]
      rcases hend with hpos | hend
      · exact absurd hnil (ne_nil ll hpos)
      · simpa only [← List.drop_drop] using hend
  · exact absurd h (Nat.lt_irrefl 0)

theorem validateLbxItemsFrom_of_items {es : List Entry} {s : List UInt8} (h : Items es s) (n : Int) :
    validateLbxItemsFrom s n = n + es.length := by
  induction h generalizing n with
  | nil h =>
    rw [validateLbxItemsFrom, validateLbxEntry_atEnd h, if_neg (Nat.lt_irrefl 0), if_pos h]
    simp
  | @cons es s e h hl ih =>
    have hpos : 0 < e.text.length := by
      have := List.length_pos_iff.2 e.key_ne
      simp only [Entry.text, List.length_append]
      omega
    rw [validateLbxItemsFrom, validateLbxEntry_cons h hl, if_pos hpos, List.drop_left, ih]
    simp only [List.length_cons]
    omega

theorem items_of_validateLbxItemsFrom (s : List UInt8) (n : Int) (hn : 0 ≤ n) :
    0 ≤ validateLbxItemsFrom s n → ∃ es, Items es s := by
  fun_induction validateLbxItemsFrom s n with
  | case1 s n hpos ih =>
    intro h
    obtain ⟨es, hes⟩ := ih (by omega) h
    obtain ⟨e, hs, hlast⟩ := exists_entry hpos
    rw [hs]
    exact ⟨e :: es, Items.cons e hes fun hnil => hes.eq_nil (hlast hnil)⟩
  | case2 s n _ hend => exact fun _ => ⟨[], Items.nil hend⟩
  | case3 s n _ _ => exact fun h => absurd h (by decide)

/-- **Validation accepts exactly the grammar**, and counts its entries. -/
theorem validateLbxItems_iff (s : List UInt8) (n : Nat) :
    validateLbxItems s = n ↔ ∃ es, Items es s ∧ es.length = n := by
  constructor
  · intro h
    obtain ⟨es, hes⟩ := items_of_validateLbxItemsFrom s 0 (Int.le_refl 0) (by
      rw [validateLbxItems] at h
      omega)
    refine ⟨es, hes, ?_⟩
    have := validateLbxItemsFrom_of_items hes 0
    rw [validateLbxItems] at h
    omega
  · rintro ⟨es, hes, rfl⟩
    rw [validateLbxItems, validateLbxItemsFrom_of_items hes]
    omega

/-- A string is read as a list of entries in one way only. -/
theorem Items.unique {es es' : List Entry} {s : List UInt8} (h : Items es s) (h' : Items es' s) : es = es' := by
  induction h generalizing es' with
  | nil hs => exact (h'.eq_nil hs).symm
  | @cons es s e h hl ih =>
    generalize ht : e.text ++ s = t at h'
    cases h' with
    | nil hs =>
      have := (Items.cons e h hl).eq_nil (ht ▸ hs)
      simp at this
    | @cons es' s' e' h' hl' =>
      rw [text_append, text_append] at ht
      obtain ⟨hk, ht⟩ := run_unique e.key_all (stops_key _ _) e'.key_all (stops_key _ _) ht
      obtain ⟨htabs, ht⟩ := run_unique e.tabs_all (stops_tab _ _) e'.tabs_all (stops_tab _ _) ht
      obtain ⟨hv, ht⟩ := run_unique e.value_all (stops_value h hl) e'.value_all (stops_value h' hl') ht
      obtain ⟨he, hs⟩ := run_unique e.ends_all h.stops_lineEnd e'.ends_all h'.stops_lineEnd ht
      subst hs
      rw [ih h']
      obtain ⟨key, tabs, value, ends, _⟩ := e
      obtain ⟨key', tabs', value', ends', _⟩ := e'
      obtain ⟨rfl, rfl, rfl, rfl⟩ : key = key' ∧ tabs = tabs' ∧ value = value' ∧ ends = ends' := ⟨hk, htabs, hv, he⟩
      rfl

/-! ## Walking the list -/

/-- The pointer after `i` turns of `lbx_advance_entry`. -/
def lbxSkip (s : List UInt8) (i : Nat) : List UInt8 := lbxAdvanceEntry^[i] s

theorem lbxSkip_succ (s : List UInt8) (i : Nat) : lbxSkip s (i + 1) = lbxSkip (lbxAdvanceEntry s) i := rfl

theorem Items.skip {es : List Entry} {s : List UInt8} (h : Items es s) (i : Nat) :
    Items (es.drop i) (lbxSkip s i) := by
  induction i generalizing es s with
  | zero => exact h
  | succ i ih =>
    rw [lbxSkip_succ]
    cases h with
    | nil h =>
      rw [lbxAdvanceEntry_atEnd h, List.drop_nil]
      exact List.drop_nil (i := i) ▸ ih (Items.nil h)
    | cons e h hl =>
      rw [lbxAdvanceEntry_cons h hl]
      exact ih h

/-- At entry `i` the scanners read its key, and its value behind key and tabs. -/
theorem Items.at {es : List Entry} {s : List UInt8} (h : Items es s) {i : Nat} {e : Entry} (he : es[i]? = some e) :
    ∃ s', lbxSkip s i = e.text ++ s' ∧ Items (es.drop (i + 1)) s' ∧ (e.ends = [] → es.drop (i + 1) = []) := by
  have hs := h.skip i
  obtain ⟨hi, rfl⟩ := List.getElem?_eq_some_iff.1 he
  rw [List.drop_eq_getElem_cons hi] at hs
  generalize lbxSkip s i = t at hs
  cases hs with
  | cons e h hl => exact ⟨_, rfl, h, hl⟩

end Keynjector.Ui
