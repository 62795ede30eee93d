import Mathlib.Data.List.TakeWhile
import Keynjector.Hid.Keyboard
import Keynjector.Ui.HitTest
/-
# Typing a stored password (send_keys.c, ui.c:1334-1350)

| here | there |
| --- | --- |
| `KeyHid`, `keyHidMap` | `key_hid_t`, `key_hid_map` (`send_keys.c:25-96`) |
| `sendKeys`            | `send_keys` (`:98-126`) |

`lbxLongPress_types`: what a long press on item `i` types is the value of the entry
whose key is drawn for item `i`.
-/

namespace Keynjector.Hid

open Ui

structure KeyHid where
  c : UInt8
  hidKey : UInt8
  hidModifier : UInt8
deriving DecidableEq, Repr

/-- A row of the table; `HID_A` is 4, `HID_1` 30 and `HID_0` 39. -/
def key (c : Char) (hidKey hidModifier : UInt8) : KeyHid := ⟨c.toUInt8, hidKey, hidModifier⟩

/-- `HID_MODIFIER_LEFT_SHIFT`. -/
def shift : UInt8 := 2

def keyHidMap : List KeyHid :=
  [key 'A' 4 shift, key 'a' 4 0, key 'B' 5 shift, key 'b' 5 0,
   key 'C' 6 shift, key 'c' 6 0, key 'D' 7 shift, key 'd' 7 0,
   key 'E' 8 shift, key 'e' 8 0, key 'F' 9 shift, key 'f' 9 0,
   key 'G' 10 shift, key 'g' 10 0, key 'H' 11 shift, key 'h' 11 0,
   key 'I' 12 shift, key 'i' 12 0, key 'J' 13 shift, key 'j' 13 0,
   key 'K' 14 shift, key 'k' 14 0, key 'L' 15 shift, key 'l' 15 0,
   key 'M' 16 shift, key 'm' 16 0, key 'N' 17 shift, key 'n' 17 0,
   key 'O' 18 shift, key 'o' 18 0, key 'P' 19 shift, key 'p' 19 0,
   key 'Q' 20 shift, key 'q' 20 0, key 'R' 21 shift, key 'r' 21 0,
   key 'S' 22 shift, key 's' 22 0, key 'T' 23 shift, key 't' 23 0,
   key 'U' 24 shift, key 'u' 24 0, key 'V' 25 shift, key 'v' 25 0,
   key 'W' 26 shift, key 'w' 26 0, key 'X' 27 shift, key 'x' 27 0,
   key 'Y' 28 shift, key 'y' 28 0, key 'Z' 29 shift, key 'z' 29 0,
   key '0' 39 0, key '1' 30 0, key '2' 31 0, key '3' 32 0,
   key '4' 33 0, key '5' 34 0, key '6' 35 0, key '7' 36 0,
   key '8' 37 0, key '9' 38 0]

/-- The calls for one character; characters outside the map are skipped. -/
def sendKey (c : UInt8) : List HidCall :=
  match keyHidMap.find? fun k => k.c == c with
  | none => []
  | some k => [.modifierDown k.hidModifier, .down k.hidKey, .up k.hidKey, .modifierUp k.hidModifier]

/-- `send_keys`. -/
def sendKeys (s : List UInt8) : List HidCall := (cstr s).flatMap sendKey

/-- **The HID table covers the value charset**: each character types itself. -/
theorem sendKey_types {c : UInt8} (h : inLbxValueCharset c = true) : Types (sendKey c) [c] := by
  have key : ∀ x ∈ lbxValueCharset, Types (sendKey x) [x] := by decide +kernel
  exact key c (by simpa [inLbxValueCharset] using h)

theorem value_ne_zero {c : UInt8} (h : inLbxValueCharset c = true) : c ≠ 0 := by
  rintro rfl
  rw [nul_not_value] at h
  cases h

theorem sendKeys_types {s : List UInt8} (h : ∀ c ∈ s, inLbxValueCharset c = true) : Types (sendKeys s) s := by
  have hc : cstr s = s := List.takeWhile_eq_self_iff.2 fun c hm => by simpa using value_ne_zero (h c hm)
  rw [sendKeys, hc]
  clear hc
  induction s with
  | nil => exact types_nil
  | cons c s ih =>
    rw [List.flatMap_cons]
    exact (sendKey_types (h c List.mem_cons_self)).append (ih fun x hx => h x (List.mem_cons_of_mem c hx))

/-- `lbx_long_press` extracts the value of the selected entry. -/
theorem lbxLongPress_value {lc : Lbx} {items : List UInt8} {es : List Entry} {e : Entry}
    (hitems : lc.items = some items) (hes : Items es items) (he : es[lc.selectedItem.toNat]? = some e)
    (hlen : e.value.length < lbxBufLen) : lbxLongPress lc = e.value := by
  obtain ⟨s, hskip, hs, hlast⟩ := hes.at he
  simp only [lbxLongPress, hitems, Option.getD_some, hskip, drop_key, drop_tabs, lbxGetValueText_cons hs hlast]
  exact List.take_of_length_le (by omega)

/-- **The password typed is the password stored.** The list is read as entries in one way
only; the rows drawn for the selected item show the key of entry `selected_item`; a long
press on it passes on that entry's value, and typing it spells the value on a US keyboard
with nothing left pressed. -/
theorem lbxLongPress_types {lc₀ lc : Lbx} {items : List UInt8} (hset : lbxSetItems lc₀ items = (lc, true))
    (h0 : 0 ≤ lc.selectedItem) (hn : lc.selectedItem < lc.nItems) :
    ∃ es e, Items es items ∧ (∀ es', Items es' items → es' = es) ∧ lc.nItems = es.length ∧
      es[lc.selectedItem.toNat]? = some e ∧
      (0 < lc.height → 0 ≤ lc.origin → ∃ rows, lbxRender lc = some rows ∧
        ∀ row ∈ rows, row.item = lc.selectedItem → row.Shows lc es lc.selectedItem.toNat) ∧
      (e.value.length < lbxBufLen →
        lbxLongPress lc = e.value ∧
        hostText .idle (sent .idle (sendKeys (lbxLongPress lc))).1 = e.value ∧
        (sent .idle (sendKeys (lbxLongPress lc))).2 = .idle) := by
  obtain ⟨es, hes, hlc⟩ := lbxSetItems_accepts hset
  have hitems : lc.items = some items := by rw [hlc]
  have hlen : lc.nItems = es.length := by rw [hlc]
  have hlt : lc.selectedItem.toNat < es.length := by omega
  refine ⟨es, es[lc.selectedItem.toNat], hes, fun es' h => h.unique hes, hlen, List.getElem?_eq_getElem hlt,
    fun hh ho => ?_, fun hv => ?_⟩
  · obtain ⟨rows, hrows, hr, -⟩ := lbxRender_rows hh ho hitems
    exact ⟨rows, hrows, fun row hm hi => (hr.shows_iff hes hlen hm _).2 ⟨by omega, hlt⟩⟩
  · have hval := lbxLongPress_value hitems hes (List.getElem?_eq_getElem hlt) hv
    have ht := sendKeys_types es[lc.selectedItem.toNat].value_all
    rw [hval]
    exact ⟨rfl, ht.text, ht.released⟩

/-- The entries of the sample list. -/
def bankEntry : Entry :=
  ⟨"bank".toUTF8.toList, [9], "Xy1".toUTF8.toList, [10], by decide +kernel, by decide, by decide +kernel,
    by decide +kernel, by decide, by decide +kernel, by decide⟩

def mailEntry : Entry :=
  ⟨"mail".toUTF8.toList, [9], "pW2".toUTF8.toList, [], by decide +kernel, by decide, by decide +kernel,
    by decide +kernel, by decide, by decide +kernel, by decide⟩

theorem items_sample : Items [bankEntry, mailEntry] sampleItems := by
  have h : Items [] [] := Items.nil rfl
  have h := (h.cons mailEntry fun _ => rfl).cons bankEntry (by decide)
  rwa [show bankEntry.text ++ (mailEntry.text ++ []) = sampleItems by decide +kernel] at h

/-- A long press on item 1 types `pW2`. -/
theorem lbxLongPress_types_sample :
    hostText .idle (sent .idle (sendKeys (lbxLongPress { sampleLbx with selectedItem := 1 }))).1 =
      "pW2".toUTF8.toList := by
  obtain ⟨es, e, hes, huniq, -, he, -, hval⟩ := lbxLongPress_types
    (show lbxSetItems { keyLbx with selectedItem := 1 } sampleItems = ({ sampleLbx with selectedItem := 1 }, true) by
      decide +kernel) (by decide) (by decide)
  obtain rfl := huniq _ items_sample
  obtain rfl : mailEntry = e := Option.some.inj he
  exact (hval (by decide +kernel)).2.1

end Keynjector.Hid
