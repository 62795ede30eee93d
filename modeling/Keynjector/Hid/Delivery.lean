import Keynjector.Hid.Serving
import Keynjector.Lib.Latest
/-
# What the host reads (udi_hid_kbd.c, udp_device.c)

The keyboard and its endpoint are a line that may skip all but the latest: a call puts
the report it computes on the line, and the host takes the reports off. Calls, reads and
interrupts come in any order.

`run_delivers`: the reports read are those computed, in order, but for those that waited
when the next came. `run_drains`: three more reads bring the host up to date.
-/

namespace Keynjector.Hid

open Latest

/-! ## The line the events drive -/

/-- The line from the reports that were computed to those the host has read. -/
def Bus.line (computed : List Packet) (b : Bus) : Line Packet := ⟨computed, b.received, b.device.flying, b.device.waiting⟩

/-- The reports computed by the calls of a run. -/
def computed (r : Report) (es : List Event) : List Packet := (sent r (calls es)).1.map Report.bytes

/-- A call that finds a report waiting. -/
def Bus.replaces (b : Bus) : Event → Bool
  | .call c => b.device.valid && (c.apply b.device.report).isSome
  | _ => false

def Bus.replaced (b : Bus) : List Event → Nat
  | [] => 0
  | e :: es => (if b.replaces e then 1 else 0) + (b.step e).replaced es

variable {b : Bus} {p : List Packet}

theorem token_moves (h : b.device.Ok) :
    b.token.device.Ok ∧ b.token.device.report = b.device.report ∧ Moves 0 (b.line p) (b.token.line p) := by
  rcases token_spec h with ⟨htoken, -⟩ | ⟨x, xs, -, hflying, hreceived, hok, hreport, -, hrest, hwaiting⟩
  · rw [htoken]
    exact ⟨h, rfl, .refl _⟩
  · refine ⟨hok, hreport, ?_⟩
    unfold Bus.line
    rw [hflying, hreceived, hrest, hwaiting]
    exact Step.take.moves

theorem interrupt_moves (h : b.device.Ok) :
    (b.step .interrupt).device.Ok ∧ (b.step .interrupt).device.report = b.device.report ∧
      Moves 0 (b.line p) ((b.step .interrupt).line p) := by
  unfold Bus.step Bus.line
  by_cases hcomp : b.device.txComp = true
  · obtain ⟨hok, hreport, -, hflying, hwaiting⟩ := interrupt_spec h hcomp
    refine ⟨hok, hreport, ?_⟩
    dsimp only
    rw [hflying, hwaiting]
    cases b.device.waiting with
    | none =>
      rw [Option.toList_none, List.append_nil]
      exact .refl _
    | some v => exact Step.load.moves
  · rw [uddEpInterrupt_waits (Bool.eq_false_iff.2 hcomp)]
    exact ⟨h, rfl, .refl _⟩

/-- A report is sent at once, waits, or takes the place of the one that waits. -/
theorem send_moves {r' : Report} (h : b.device.Ok) (hr' : r'.keys.length = 6) :
    let d := (udiHidKbdSendReport { b.device with report := r', valid := true }).1
    d.Ok ∧ d.report = r' ∧
      Moves (if b.device.valid then 1 else 0) (b.line p) (Bus.line (p ++ [r'.bytes]) ⟨d, b.received⟩) := by
  obtain ⟨hserving, hkeys⟩ := h
  obtain ⟨d, received⟩ := b
  dsimp only at hserving hkeys ⊢
  cases hserving with
  | idle =>
    rw [udiHidKbdSendReport_idle hr']
    exact ⟨⟨.one (some r'.bytes), hr'⟩, rfl, (Step.send (f := []) _).moves⟩
  | last front =>
    rw [udiHidKbdSendReport_pending (by cases front <;> rfl)]
    refine ⟨⟨.queued front (length_bytes hr'), hr'⟩, rfl, ?_⟩
    cases front with
    | none => exact (Step.send (f := []) _).moves
    | some a => exact (Step.send (f := [a]) _).moves
  | @one r v t front =>
    refine ⟨⟨.one front, hr'⟩, rfl, ?_⟩
    cases v with
    | false => exact (Step.wait _).moves
    | true => exact (Skip.replace _).moves
  | @two r v t front x =>
    refine ⟨⟨.two front x, hr'⟩, rfl, ?_⟩
    cases v with
    | false => exact (Step.wait _).moves
    | true => exact (Skip.replace _).moves
  | @queued r v t front ht =>
    refine ⟨⟨.queued front ht, hr'⟩, rfl, ?_⟩
    cases v with
    | false => exact (Step.wait _).moves
    | true => exact (Skip.replace _).moves

/-! ## Runs -/

theorem calls_append (es fs : List Event) : calls (es ++ fs) = calls es ++ calls fs := List.filterMap_append

theorem calls_cons_nil {e : Event} {es : List Event} (h : calls (e :: es) = []) : e.call? = none ∧ calls es = [] := by
  rw [show e :: es = [e] ++ es from rfl, calls_append, List.append_eq_nil_iff] at h
  refine ⟨?_, h.2⟩
  cases e with
  | call c => cases h.1
  | _ => rfl

theorem computed_cons (r : Report) (e : Event) (es : List Event) :
    computed r (e :: es) = computed r [e] ++ computed (sent r (calls [e])).2 es := by
  unfold computed
  rw [show calls (e :: es) = calls [e] ++ calls es from calls_append [e] es, sent_append, List.map_append]

theorem step_moves (h : b.device.Ok) (e : Event) :
    (b.step e).device.Ok ∧ (b.step e).device.report = (sent b.device.report (calls [e])).2 ∧
      Moves (if b.replaces e then 1 else 0) (b.line p) ((b.step e).line (p ++ computed b.device.report [e])) := by
  cases e with
  | token =>
    obtain ⟨hok, hreport, hmoves⟩ := token_moves (p := p) h
    rw [show computed b.device.report [.token] = [] from rfl, List.append_nil]
    exact ⟨hok, hreport, hmoves⟩
  | interrupt =>
    obtain ⟨hok, hreport, hmoves⟩ := interrupt_moves (p := p) h
    rw [show computed b.device.report [.interrupt] = [] from rfl, List.append_nil]
    exact ⟨hok, hreport, hmoves⟩
  | call c =>
    unfold Bus.step Bus.replaces udiHidKbdCall computed calls
    cases hc : c.apply b.device.report with
    | none =>
      simp only [List.filterMap_cons, Event.call?, List.filterMap_nil, sent, hc, Option.isSome_none, Bool.and_false,
        Bool.false_eq_true, if_false, List.map_nil, List.append_nil]
      exact ⟨h, trivial, .refl _⟩
    | some r' =>
      simp only [List.filterMap_cons, Event.call?, List.filterMap_nil, sent, hc, Option.isSome_some, Bool.and_true, List.map_cons,
        List.map_nil]
      exact send_moves h ((apply_length hc).trans h.keys)

theorem run_moves (h : b.device.Ok) (es : List Event) :
    (b.run es).device.Ok ∧ (b.run es).device.report = (sent b.device.report (calls es)).2 ∧
      Moves (b.replaced es) (b.line p) ((b.run es).line (p ++ computed b.device.report es)) := by
  induction es generalizing b p with
  | nil =>
    rw [show computed b.device.report [] = [] from rfl, List.append_nil]
    exact ⟨h, rfl, .refl _⟩
  | cons e es ih =>
    obtain ⟨hok, hreport, hmoves⟩ := step_moves (p := p) h e
    obtain ⟨hok', hreport', hmoves'⟩ := ih (p := p ++ computed b.device.report [e]) hok
    refine ⟨hok', ?_, ?_⟩
    · rw [show calls (e :: es) = calls [e] ++ calls es from calls_append [e] es, sent_append, ← hreport]
      exact hreport'
    · rw [computed_cons, ← List.append_assoc, ← hreport]
      exact hmoves.trans hmoves'

/-- What the host has read and will read, when no call follows. -/
def Bus.carried (b : Bus) : List Packet := b.received ++ b.device.flying ++ b.device.waiting.toList

theorem start_kept (d : Device) (es : List Event) :
    Kept ((Bus.start d).replaced es) ((Bus.start d).run es).carried (computed .idle es) := by
  obtain ⟨-, -, hmoves⟩ := run_moves (p := []) (start_ok d) es
  have := hmoves.kept Kept.nil
  rwa [Nat.zero_add] at this

/-! ## The host reads on -/

/-- A packet is read and the interrupt served. -/
def round : List Event := [.token, .interrupt]

/-- What it takes until the host has read everything. -/
def Device.due (d : Device) : List Event :=
  (if d.txComp then [.interrupt] else []) ++ (List.replicate (d.flying.length + d.waiting.toList.length) round).flatten

theorem due_le (h : b.device.Ok) : b.device.due.Sublist (round ++ round ++ round) := by
  obtain ⟨hserving, -⟩ := h
  obtain ⟨d, received⟩ := b
  dsimp only at hserving ⊢
  cases hserving with
  | idle => exact List.nil_sublist _
  | last front => cases front <;> exact of_decide_eq_true rfl
  | @one r v t front => cases front <;> cases v <;> exact of_decide_eq_true rfl
  | @two r v t front x => cases front <;> cases v <;> exact of_decide_eq_true rfl
  | @queued r v t front ht => cases front <;> cases v <;> exact of_decide_eq_true rfl

theorem rounds_succ (n : Nat) : (List.replicate (n + 1) round).flatten = .token :: .interrupt :: (List.replicate n round).flatten := rfl

theorem length_rounds (n : Nat) : (List.replicate n round).flatten.length = 2 * n := by
  induction n with
  | zero => rfl
  | succ n ih =>
    rw [rounds_succ, List.length_cons, List.length_cons, ih]
    rfl

/-- An event of the host's side is the next one due or does nothing. -/
theorem step_due (h : b.device.Ok) {e : Event} (he : e.call? = none) :
    b.device.due = e :: (b.step e).device.due ∨ b.step e = b ∧ b.device.due.head? ≠ some e := by
  unfold Device.due
  cases e with
  | call c => cases he
  | token =>
    rcases token_spec h with ⟨htoken, hcomp | ⟨hflying, hwaiting⟩⟩ | ⟨x, xs, hcomp, hflying, -, -, -, hcomp', hrest, hwaiting⟩
    · exact .inr ⟨htoken, by simp [hcomp]⟩
    · refine .inr ⟨htoken, ?_⟩
      rw [hflying, hwaiting]
      cases b.device.txComp <;> decide
    · left
      show _ = .token :: (_ ++ (List.replicate (b.token.device.flying.length + b.token.device.waiting.toList.length) round).flatten)
      rw [hcomp, hflying, List.length_cons, Nat.add_right_comm, rounds_succ, hrest, hwaiting,
        show (b.step .token).device.txComp = true from hcomp']
      rfl
  | interrupt =>
    by_cases hcomp : b.device.txComp = true
    · obtain ⟨-, -, hcomp', hflying, hwaiting⟩ := interrupt_spec h hcomp
      left
      unfold Bus.step
      dsimp only
      rw [hcomp, hcomp', hflying, hwaiting, List.length_append]
      rfl
    · have hcomp := Bool.eq_false_iff.2 hcomp
      refine .inr ⟨?_, ?_⟩
      · unfold Bus.step
        rw [uddEpInterrupt_waits hcomp]
      · rw [hcomp]
        cases b.device.flying.length + b.device.waiting.toList.length with
        | zero => decide
        | succ n =>
          rw [rounds_succ]
          rintro ⟨⟩

theorem sublist_cons_of_head_ne {x : Event} {xs ys : List Event} (h : xs.Sublist (x :: ys)) (hx : xs.head? ≠ some x) :
    xs.Sublist ys := by
  cases h with
  | cons _ h => exact h
  | cons_cons _ h => exact absurd rfl hx

theorem run_due (h : b.device.Ok) {es : List Event} (hes : calls es = []) (hdue : b.device.due.Sublist es) :
    (b.run es).device.due = [] := by
  induction es generalizing b with
  | nil => exact List.sublist_nil.1 hdue
  | cons e es ih =>
    obtain ⟨he, hes⟩ := calls_cons_nil hes
    refine ih (step_moves (p := []) h e).1 hes ?_
    rcases step_due h he with hnext | ⟨hstep, hhead⟩
    · rw [hnext] at hdue
      exact List.cons_sublist_cons.1 hdue
    · rw [hstep]
      exact sublist_cons_of_head_ne hdue hhead

/-- Nothing is due when the host has read everything. -/
theorem due_nil {d : Device} (h : d.due = []) : d.flying = [] ∧ d.waiting = none := by
  have hrounds := (List.append_eq_nil_iff.1 h).2
  have hn : d.flying.length + d.waiting.toList.length = 0 := by
    cases hn : d.flying.length + d.waiting.toList.length with
    | zero => rfl
    | succ n =>
      rw [hn, rounds_succ] at hrounds
      cases hrounds
  obtain ⟨hflying, hwaiting⟩ := Nat.add_eq_zero_iff.1 hn
  refine ⟨List.eq_nil_of_length_eq_zero hflying, ?_⟩
  cases hw : d.waiting with
  | none => rfl
  | some v =>
    rw [hw] at hwaiting
    cases hwaiting

theorem step_carried (h : b.device.Ok) {e : Event} (he : e.call? = none) : (b.step e).carried = b.carried := by
  unfold Bus.carried
  cases e with
  | call c => cases he
  | token =>
    rcases token_spec h with ⟨htoken, -⟩ | ⟨x, xs, -, hflying, hreceived, -, -, -, hrest, hwaiting⟩
    · rw [Bus.step, htoken]
    · rw [Bus.step, hreceived, hrest, hwaiting, hflying, List.append_assoc b.received, List.singleton_append]
  | interrupt =>
    by_cases hcomp : b.device.txComp = true
    · obtain ⟨-, -, -, hflying, hwaiting⟩ := interrupt_spec h hcomp
      show b.received ++ (uddEpInterrupt b.device).flying ++ (uddEpInterrupt b.device).waiting.toList = _
      rw [hflying, hwaiting, Option.toList_none, List.append_nil, List.append_assoc]
    · rw [Bus.step, uddEpInterrupt_waits (Bool.eq_false_iff.2 hcomp)]

theorem run_carried (h : b.device.Ok) {es : List Event} (hes : calls es = []) : (b.run es).carried = b.carried := by
  induction es generalizing b with
  | nil => rfl
  | cons e es ih =>
    obtain ⟨he, hes⟩ := calls_cons_nil hes
    exact (ih (step_moves (p := []) h e).1 hes).trans (step_carried h he)

/-- When nothing is due, the host has read everything. -/
theorem received_of_due_nil (h : b.device.due = []) : b.received = b.carried := by
  obtain ⟨hflying, hwaiting⟩ := due_nil h
  rw [Bus.carried, hflying, hwaiting, Option.toList_none, List.append_nil, List.append_nil]

theorem lastReport_map (rs : List Report) (ps : List Packet) (h : ps.getLast? = (rs.map Report.bytes).getLast?) :
    lastReport .idle (ps.map Report.ofBytes) = lastReport .idle rs := by
  have hmap : (ps.map Report.ofBytes).getLast? = rs.getLast? := by
    rw [List.getLast?_map, h, ← List.getLast?_map, List.map_map, show Report.ofBytes ∘ Report.bytes = id from rfl, List.map_id]
  rw [lastReport, lastReport, List.getLastD_eq_getLast?, List.getLastD_eq_getLast?, hmap]

/-! ## The two sides of the bus -/

/-- **The reports come in order, and only one that waits is left out for the next.** What the host has read and will
read is part of what the calls computed, up to the last of them, short of it by the calls that found a report waiting;
no more than three reports are on their way. -/
theorem run_delivers (d : Device) (es : List Event) :
    let b := (Bus.start d).run es
    b.carried.Sublist (computed .idle es) ∧ b.carried.getLast? = (computed .idle es).getLast? ∧
      b.carried.length + (Bus.start d).replaced es = (computed .idle es).length ∧
      b.device.flying.length + b.device.waiting.toList.length ≤ 3 := by
  have hkept := start_kept d es
  refine ⟨hkept.sub, hkept.last, hkept.count, ?_⟩
  have hlen := (due_le (run_moves (p := []) (start_ok d) es).1).length_le
  rw [Device.due, List.length_append, length_rounds] at hlen
  have : (round ++ round ++ round).length = 6 := rfl
  omega

/-- **No key stays down**: once the host has asked three more times, it has read everything, and the last report it has
is the one the keyboard holds. -/
theorem run_drains (d : Device) (es es' : List Event) (hes : calls es' = []) (hrounds : (round ++ round ++ round).Sublist es') :
    let b := (Bus.start d).run (es ++ es')
    b.received = ((Bus.start d).run es).carried ∧
      lastReport .idle (b.received.map Report.ofBytes) = b.device.report ∧ b.device.report = (sent .idle (calls es)).2 := by
  have hok := (run_moves (p := []) (start_ok d) es).1
  have hdue := run_due hok hes ((due_le hok).trans hrounds)
  have hreport := (run_moves (p := []) (start_ok d) (es ++ es')).2.1
  have happend : (Bus.start d).run (es ++ es') = ((Bus.start d).run es).run es' := Runs.run_append es es'
  rw [happend, calls_append, hes, List.append_nil] at hreport
  rw [happend]
  have hreceived := (received_of_due_nil hdue).trans (run_carried hok hes)
  refine ⟨hreceived, ?_, hreport⟩
  rw [hreport]
  refine (lastReport_map (sent .idle (calls es)).1 _ ?_).trans (lastReport_sent .idle (calls es))
  rw [hreceived]
  exact (start_kept d es).last

/-- The four calls for `A`, before the host first asks. -/
theorem run_drains_sample :
    let es := [HidCall.modifierDown 2, .down 4, .up 4, .modifierUp 2].map Event.call
    let b := (Bus.start coldDevice).run (es ++ (round ++ round ++ round))
    b.received = ((Bus.start coldDevice).run es).carried ∧
      lastReport .idle (b.received.map Report.ofBytes) = b.device.report ∧ b.device.report = (sent .idle (calls es)).2 :=
  run_drains coldDevice _ _ rfl (List.Sublist.refl _)

end Keynjector.Hid
