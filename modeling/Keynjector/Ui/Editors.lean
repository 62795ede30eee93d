import Keynjector.Ui.Screen
/-
# What the editors hold (ui.c:1693-1803)

| here | there |
| --- | --- |
| `PassEdit.takes` | the tests of `pass_fwd_click` and `pass_back_click` |
| `PinEdit.takes`  | the tests of `pin_btn_click` and `pin_back_click` |
| `PinEdit.Typed`  | the array behind the PIN editor: the digits typed so far, then NULs up to its end |

A click that is not taken does nothing; one that is taken changes the string in the array.
-/

namespace Keynjector.Ui

def PassEdit.takes (e : PassEdit) : PassCtl → Bool
  | .up | .down => true
  | .back => e.len > 1
  | .fwd => e.len < e.maxlen - 1
  | .ok => false

theorem PassEdit.click_idle {e : PassEdit} {c : PassCtl} (h : e.takes c = false) : e.click c = e := by
  cases c with
  | up | down => cases h
  | back => exact if_neg (of_decide_eq_false h)
  | fwd => exact if_neg (of_decide_eq_false h)
  | ok => rfl

def PinEdit.takes (e : PinEdit) : PinCtl → Bool
  | .digit _ => e.len < e.maxlen - 1
  | .back => e.len > 0
  | .ok => false

theorem PinEdit.click_idle {e : PinEdit} {c : PinCtl} (h : e.takes c = false) : e.click c = e := by
  cases c with
  | digit d => exact if_neg (of_decide_eq_false h)
  | back => exact if_neg (of_decide_eq_false h)
  | ok => rfl

/-- The digits `ds` are typed, and `room` more can be. -/
structure PinEdit.Typed (e : PinEdit) (ds : List UInt8) (room : Nat) : Prop where
  digits : 0 ∉ ds
  array : e.s = ds ++ List.replicate (room + 1) 0
  len : e.len = ds.length
  maxlen : e.maxlen = ds.length + room + 1

variable {e : PinEdit} {ds : List UInt8} {room : Nat}

theorem PinEdit.typed_fresh (n : Nat) : (PinEdit.fresh (n + 1)).Typed [] n :=
  ⟨List.not_mem_nil, rfl, rfl, by simp [PinEdit.fresh]⟩

theorem PinEdit.Typed.cstr (h : e.Typed ds room) : cstr e.s = ds := by
  rw [h.array, cstr_append h.digits, List.replicate_succ]
  exact List.append_nil ds

theorem digit_ne_zero (d : Fin 10) : UInt8.ofNat (48 + d) ≠ 0 := by decide +revert

theorem PinEdit.Typed.digit (h : e.Typed ds (room + 1)) (d : Fin 10) :
    (e.click (.digit d)).Typed (ds ++ [UInt8.ofNat (48 + d)]) room := by
  obtain ⟨hd, ha, hl, hm⟩ := h
  have hlt : e.len < e.maxlen - 1 := by omega
  have hstore : store e.s e.len (UInt8.ofNat (48 + d)) = ds ++ UInt8.ofNat (48 + d) :: List.replicate (room + 1) 0 := by
    rw [store, if_pos (by omega), ha, hl, Int.toNat_natCast, List.replicate_succ, List.set_append_right _ _ Nat.le.refl,
      Nat.sub_self, List.set_cons_zero]
  simp only [PinEdit.click, pinBtnClick, if_pos hlt, hstore]
  refine ⟨?_, by simp, by simp [hl], by simp [hm]; omega⟩
  rw [List.mem_append, List.mem_singleton]
  exact not_or.2 ⟨hd, (digit_ne_zero d).symm⟩

theorem PinEdit.Typed.back {x : UInt8} (h : e.Typed (ds ++ [x]) room) : (e.click .back).Typed ds (room + 1) := by
  obtain ⟨hd, ha, hl, hm⟩ := h
  rw [List.length_append, List.length_singleton] at hl hm
  have hpos : e.len > 0 := by omega
  have hstore : store e.s (e.len - 1) 0 = ds ++ List.replicate (room + 1 + 1) 0 := by
    rw [store, if_pos (by omega), ha, show (e.len - 1).toNat = ds.length by omega, List.append_assoc,
      List.set_append_right _ _ Nat.le.refl, Nat.sub_self, List.singleton_append, List.set_cons_zero]
    rfl
  simp only [PinEdit.click, pinBackClick, if_pos hpos, hstore]
  exact ⟨fun h0 => hd (List.mem_append_left _ h0), rfl, by simp only; omega, by simp only; omega⟩

/-- A click that is taken changes the PIN. -/
theorem PinEdit.Typed.take (h : e.Typed ds room) {c : PinCtl} (hc : e.takes c = true) :
    ∃ ds' room', (e.click c).Typed ds' room' ∧ ds' ≠ ds := by
  cases c with
  | ok => cases hc
  | digit d =>
    have hlt : e.len < e.maxlen - 1 := of_decide_eq_true hc
    obtain ⟨room, rfl⟩ : ∃ n, room = n + 1 := ⟨room - 1, by have := h.len; have := h.maxlen; omega⟩
    exact ⟨_, _, h.digit d, by simp⟩
  | back =>
    have hpos : e.len > 0 := of_decide_eq_true hc
    rcases List.eq_nil_or_concat ds with rfl | ⟨ds', x, rfl⟩
    · exact absurd hpos (by simp [h.len])
    · exact ⟨_, _, PinEdit.Typed.back (by simpa using h), by simp⟩

theorem PinEdit.Typed.click (h : e.Typed ds room) (c : PinCtl) : ∃ ds' room', (e.click c).Typed ds' room' := by
  cases hc : e.takes c with
  | true =>
    obtain ⟨ds', room', h', -⟩ := h.take hc
    exact ⟨ds', room', h'⟩
  | false => exact ⟨ds, room, (PinEdit.click_idle hc).symm ▸ h⟩

end Keynjector.Ui
