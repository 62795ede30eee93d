import Mathlib.Data.List.Flatten
import Keynjector.Hid.Delivery
import Keynjector.Hid.SendKeys
/-
# What is typed when the host is slow (send_keys.c:98-126)

`sendKeys_types` counts on a host that reads every report. Here the host asks when it
likes: what it types is part of the value, in order, and all of it when it asks at least
once in each `KEY_DELAY_MS`.
-/

namespace Keynjector.Hid

open Ui

/-! ## Reports read one by one -/

theorem text_sub (prev r : Report) : (prev.text r).Sublist (Report.text .idle r) := by
  unfold Report.text
  split
  · refine List.Sublist.filterMap _ (List.monotone_filter_right _ fun k hk => ?_)
    obtain ⟨h0, -⟩ := of_decide_eq_true hk
    refine decide_eq_true ⟨h0, ?_⟩
    simpa [Report.idle] using h0
  · exact List.Sublist.refl _

theorem hostText_sub (prev : Report) (rs : List Report) : (hostText prev rs).Sublist (rs.flatMap (Report.text .idle)) := by
  induction rs generalizing prev with
  | nil => exact List.Sublist.refl _
  | cons r rs ih => exact (text_sub prev r).append (ih r)

/-- Each character has one report with a key down, and that key types it. -/
theorem sendKey_reports (c : UInt8) :
    (sent .idle (sendKey c)).2 = .idle ∧ ((sent .idle (sendKey c)).1.flatMap (Report.text .idle)).Sublist [c] := by
  unfold sendKey
  cases hfind : keyHidMap.find? fun k => k.c == c with
  | none => exact ⟨rfl, List.nil_sublist _⟩
  | some k =>
    obtain rfl : k.c = c := by simpa using List.find?_some hfind
    have hall : ∀ k ∈ keyHidMap,
        let rs := sent .idle [.modifierDown k.hidModifier, .down k.hidKey, .up k.hidKey, .modifierUp k.hidModifier]
        rs.2 = .idle ∧ rs.1.flatMap (Report.text .idle) = [k.c] := by
      decide +kernel
    obtain ⟨hidle, htext⟩ := hall k (List.mem_of_find?_eq_some hfind)
    exact ⟨hidle, htext ▸ List.Sublist.refl _⟩

theorem sendKeys_reports (s : List UInt8) :
    (sent .idle (sendKeys s)).2 = .idle ∧ ((sent .idle (sendKeys s)).1.flatMap (Report.text .idle)).Sublist (cstr s) := by
  unfold sendKeys
  induction cstr s with
  | nil => exact ⟨rfl, List.Sublist.refl _⟩
  | cons c s ih =>
    obtain ⟨hidle, htext⟩ := sendKey_reports c
    rw [List.flatMap_cons, sent_append, hidle, List.flatMap_append]
    exact ⟨ih.1, htext.append ih.2⟩

/-! ## The host asks when it likes -/

variable {b : Bus}

theorem received_sub (d : Device) (es : List Event) :
    (((Bus.start d).run es).received.map Report.ofBytes).Sublist (sent .idle (calls es)).1 := by
  have hsub := (start_kept d es).sub.map Report.ofBytes
  rw [computed, List.map_map, show Report.ofBytes ∘ Report.bytes = id from rfl, List.map_id] at hsub
  refine List.Sublist.trans (List.Sublist.map _ ?_) hsub
  rw [Bus.carried, List.append_assoc]
  exact List.sublist_append_left _ _

/-- **A value is never mistyped**: whenever the host asks, and wherever the typing is interrupted, what it has typed so
far is the value with characters left out. -/
theorem sendKeys_part (d : Device) (s : List UInt8) (es : List Event) (hes : calls es <+: sendKeys s) :
    (hostText .idle (((Bus.start d).run es).received.map Report.ofBytes)).Sublist (cstr s) := by
  obtain ⟨rest, hrest⟩ := hes
  have hsub : (sent .idle (calls es)).1.Sublist (sent .idle (sendKeys s)).1 := by
    rw [← hrest, sent_append]
    exact List.sublist_append_left _ _
  have hread := hostText_sub .idle (((Bus.start d).run es).received.map Report.ofBytes)
  have hreports := ((received_sub d es).trans hsub).flatMap (Report.text .idle)
  exact hread.trans (hreports.trans (sendKeys_reports s).2)

/-- The host asks once while `a` is typed. -/
theorem sendKeys_part_sample :
    (hostText .idle (((Bus.start coldDevice).run [.call (.modifierDown 0), .call (.down 4), .token, .interrupt, .token]).received.map
      Report.ofBytes)).Sublist [0x61] :=
  sendKeys_part coldDevice [0x61] _ (by decide +kernel)

/-! ## The host asks between the calls -/

/-- Calls with what happens on the bus in the `KEY_DELAY_MS` after each. -/
def paced (cs : List (HidCall × List Event)) : List Event := cs.flatMap fun x => .call x.1 :: x.2

theorem call_due (h : b.device.Ok) (hdue : b.device.due = []) (c : HidCall) :
    b.replaces (.call c) = false ∧ (b.step (.call c)).device.due.Sublist round := by
  obtain ⟨hserving, hkeys⟩ := h
  obtain ⟨d, received⟩ := b
  dsimp only at hserving hkeys hdue
  cases hserving with
  | idle =>
    refine ⟨rfl, ?_⟩
    unfold Bus.step udiHidKbdCall
    dsimp only
    cases hc : c.apply _ with
    | none => exact hdue ▸ List.nil_sublist _
    | some r' =>
      dsimp only
      rw [udiHidKbdSendReport_idle ((apply_length hc).trans hkeys)]
      exact List.Sublist.refl _
  | last front => cases front <;> cases hdue
  | @one r v t front => cases front <;> cases v <;> cases hdue
  | @two r v t front x => cases front <;> cases v <;> cases hdue
  | @queued r v t front ht => cases front <;> cases v <;> cases hdue

theorem replaced_append (es fs : List Event) : b.replaced (es ++ fs) = b.replaced es + (b.run es).replaced fs := by
  induction es generalizing b with
  | nil => exact (Nat.zero_add _).symm
  | cons e es ih =>
    show _ + (b.step e).replaced (es ++ fs) = _ + (b.step e).replaced es + _
    rw [ih, Nat.add_assoc]
    rfl

theorem replaced_of_no_calls {es : List Event} (hes : calls es = []) : b.replaced es = 0 := by
  induction es generalizing b with
  | nil => rfl
  | cons e es ih =>
    obtain ⟨he, hes⟩ := calls_cons_nil hes
    rw [Bus.replaced, ih hes]
    cases e with
    | call c => cases he
    | _ => rfl

/-- The host reads each report before the next call. -/
theorem paced_due (h : b.device.Ok) (hdue : b.device.due = []) {cs : List (HidCall × List Event)}
    (hgap : ∀ x ∈ cs, calls x.2 = [] ∧ round.Sublist x.2) : (b.run (paced cs)).device.due = [] ∧ b.replaced (paced cs) = 0 := by
  induction cs generalizing b with
  | nil => exact ⟨hdue, rfl⟩
  | cons x cs ih =>
    obtain ⟨hnone, hround⟩ := hgap x List.mem_cons_self
    obtain ⟨hreplaces, hnext⟩ := call_due h hdue x.1
    have hcall := (step_moves (p := []) h (.call x.1)).1
    have hgone := run_due hcall hnone (hnext.trans hround)
    have hok := (run_moves (p := []) hcall x.2).1
    obtain ⟨hend, hrest⟩ := ih hok hgone fun y hy => hgap y (List.mem_cons_of_mem _ hy)
    have hsplit : paced (x :: cs) = .call x.1 :: (x.2 ++ paced cs) := by rw [paced, List.flatMap_cons, List.cons_append]; rfl
    rw [hsplit]
    constructor
    · show (((b.step (.call x.1)).run (x.2 ++ paced cs)).device).due = []
      rw [Bus.run, Runs.run_append]
      exact hend
    · rw [Bus.replaced, hreplaces, replaced_append, replaced_of_no_calls hnone, hrest]
      rfl

theorem calls_paced {cs : List (HidCall × List Event)} (hgap : ∀ x ∈ cs, calls x.2 = []) : calls (paced cs) = cs.map Prod.fst := by
  induction cs with
  | nil => rfl
  | cons x cs ih =>
    rw [show paced (x :: cs) = [.call x.1] ++ (x.2 ++ paced cs) by rw [paced, List.flatMap_cons]; rfl, calls_append, calls_append,
      hgap x List.mem_cons_self, ih fun y hy => hgap y (List.mem_cons_of_mem _ hy)]
    rfl

/-- **A value is typed** when the host asks in each delay: it types all of the value and no key is left down. -/
theorem sendKeys_all (d : Device) (s : List UInt8) (hs : ∀ c ∈ s, inLbxValueCharset c = true) (cs : List (HidCall × List Event))
    (hcalls : cs.map Prod.fst = sendKeys s) (hgap : ∀ x ∈ cs, calls x.2 = [] ∧ round.Sublist x.2) :
    let rs := ((Bus.start d).run (paced cs)).received.map Report.ofBytes
    hostText .idle rs = s ∧ lastReport .idle rs = .idle ∧ ((Bus.start d).run (paced cs)).device.report = .idle := by
  have htypes := sendKeys_types hs
  have hcs : calls (paced cs) = sendKeys s := (calls_paced fun x hx => (hgap x hx).1).trans hcalls
  obtain ⟨hdue, hreplaced⟩ := paced_due (start_ok d) rfl hgap
  have hall : ((Bus.start d).run (paced cs)).received.map Report.ofBytes = (sent .idle (sendKeys s)).1 := by
    rw [received_of_due_nil hdue, (start_kept d (paced cs)).all_iff.2 hreplaced, computed, hcs, List.map_map]
    exact List.map_id _
  refine ⟨?_, ?_, ?_⟩
  · rw [hall]
    exact htypes.text
  · rw [hall, lastReport_sent]
    exact htypes.released
  · rw [(run_moves (p := []) (start_ok d) (paced cs)).2.1, hcs]
    exact htypes.released

theorem sendKeys_all_sample :
    let rs := ((Bus.start coldDevice).run (paced ((sendKeys [0x61, 0x42]).map fun c => (c, round)))).received.map Report.ofBytes
    hostText .idle rs = [0x61, 0x42] ∧ lastReport .idle rs = .idle ∧
      ((Bus.start coldDevice).run (paced ((sendKeys [0x61, 0x42]).map fun c => (c, round)))).device.report = .idle :=
  sendKeys_all coldDevice [0x61, 0x42] (by decide +kernel) _ (by rw [List.map_map]; exact List.map_id _) fun x hx => by
    obtain ⟨c, -, rfl⟩ := List.mem_map.1 hx
    exact ⟨rfl, List.Sublist.refl _⟩

end Keynjector.Hid
