import Keynjector.Touch.Debounce
/-
# What a touch is answered with

The pen's interrupt comes as the pen goes down and as it goes up, and each look between
finds it down, or up. `touches_answered`: a touch that is long enough is answered with a
press, moves and a release, a shorter one with a release alone.
-/

namespace Keynjector.Touch

/-- Ticks whose second look finds the pen down, or up. -/
def held (level : Bool) (ticks : List (Bool × Point)) : List Input := ticks.map fun x => .tick x.1 x.2 level

/-- The pen goes down, and up again. -/
def touch (down up : List (Bool × Point)) : List Input :=
  .pen true :: held true down ++ .pen false :: held false up

/-- The answer to a touch of so many looks. -/
def Answer (looks : Nat) (types : List EventType) : Prop :=
  ∃ n, types = (if 7 ≤ looks then .press :: List.replicate n .move else []) ++ [.release]

/-! ## Ticks with the pen down, or up -/

/-- A calibrated screen between two inputs. -/
structure Live (s : Screen) : Prop where
  enabled : s.rtouch.isEnabled = true
  calibrated : s.rtouch.isCalibrated = true
  stamp : s.rtouch.timestamp < 2 ^ 32
  press : s.rtouch.timepress < 2 ^ 32
  release : s.rtouch.timerelease < 2 ^ 32

/-- The types of the events. -/
def Screen.types (s : Screen) : List EventType := s.log.map (·.type)

variable {s : Screen}

theorem Screen.run_cons (s : Screen) (i : Input) (is : List Input) : s.run (i :: is) = (s.step i).run is := rfl

theorem Screen.run_append (s : Screen) (is js : List Input) : s.run (is ++ js) = (s.run is).run js := Runs.run_append is js

/-- A tick with its change of the pen and the number of its moves. -/
theorem tick_spec (h : Live s) (first : Bool) (raw : Point) (second : Bool) :
    let s' := s.step (.tick first raw second)
    Live s' ∧ s'.rtouch.timestamp = next s.rtouch ∧
      s'.rtouch.timepress = (if second then s.rtouch.timepress else next s.rtouch) ∧
      s'.rtouch.timerelease = (if second then next s.rtouch else s.rtouch.timerelease) ∧
      ∃ n, (s.rtouch.penState ≠ .pressed → n = 0) ∧
        (if second then
            if s.rtouch.penState = .debounce ∧ DEBOUNCE_TIME < timeKeep (next s.rtouch) s.rtouch.timepress then
              s'.rtouch.penState = .pressed ∧ s'.types = s.types ++ List.replicate n .move ++ [.press]
            else s'.rtouch.penState = s.rtouch.penState ∧ s'.types = s.types ++ List.replicate n .move
          else
            if s.rtouch.penState = .debounce ∧ DEBOUNCE_TIME < timeKeep (next s.rtouch) s.rtouch.timerelease then
              s'.rtouch.penState = .released ∧ s'.types = s.types ++ List.replicate n .move ++ [.release]
            else s'.rtouch.penState = s.rtouch.penState ∧ s'.types = s.types ++ List.replicate n .move) := by
  have hticked := rtouchProcess_spec h.enabled first raw second
  have hnext := next_lt s.rtouch
  obtain ⟨ms, cs, hes, hms, -, hstate⟩ := hticked.events
  have htypes : (s.step (.tick first raw second)).types = s.types ++ ms.map (·.type) ++ cs.map (·.type) := by
    show (s.log ++ (rtouchProcess s.rtouch first raw second).2).map (·.type) = _
    rw [hes, List.map_append, List.map_append, ← List.append_assoc]
    rfl
  have hmoves : ms.map (·.type) = List.replicate ms.length .move := by
    refine List.eq_replicate_iff.2 ⟨List.length_map _, fun x hx => ?_⟩
    obtain ⟨e, he, rfl⟩ := List.mem_map.1 hx
    exact (hms e he).1
  refine ⟨⟨hticked.same.enabled.trans h.enabled, hticked.same.calibrated.trans h.calibrated, hticked.stamp ▸ hnext, ?_, ?_⟩,
    hticked.stamp, hticked.press, hticked.release, ms.length, fun hpen => ?_, ?_⟩
  · show (rtouchProcess s.rtouch first raw second).1.timepress < _
    rw [hticked.press]
    split
    · exact h.press
    · exact hnext
  · show (rtouchProcess s.rtouch first raw second).1.timerelease < _
    rw [hticked.release]
    split
    · exact hnext
    · exact h.release
  · rw [List.length_eq_zero_iff, List.eq_nil_iff_forall_not_mem]
    exact fun e he => hpen (hms e he).2.1
  · rw [htypes, hmoves]
    rw [if_pos h.calibrated, if_pos h.calibrated] at hstate
    cases second <;> simp only [if_true, Bool.false_eq_true, if_false] at hstate ⊢ <;> split at hstate
    · next hc => rw [if_pos hc, hstate.2]; exact ⟨hstate.1, rfl⟩
    · next hc => rw [if_neg hc, hstate.2, List.map_nil, List.append_nil]; exact ⟨hstate.1, rfl⟩
    · next hc => rw [if_pos hc, hstate.2]; exact ⟨hstate.1, rfl⟩
    · next hc => rw [if_neg hc, hstate.2, List.map_nil, List.append_nil]; exact ⟨hstate.1, rfl⟩

/-- While the pen is pressed and seen down there are moves only. -/
theorem held_pressed (h : Live s) (hpen : s.rtouch.penState = .pressed) (ticks : List (Bool × Point)) :
    Live (s.run (held true ticks)) ∧ (s.run (held true ticks)).rtouch.penState = .pressed ∧
      ∃ n, (s.run (held true ticks)).types = s.types ++ List.replicate n .move := by
  induction ticks generalizing s with
  | nil => exact ⟨h, hpen, 0, (List.append_nil _).symm⟩
  | cons x ticks ih =>
    obtain ⟨hlive, -, -, -, n, -, hstate⟩ := tick_spec h x.1 x.2 true
    rw [if_pos rfl, if_neg (by rw [hpen]; rintro ⟨⟨⟩, -⟩)] at hstate
    obtain ⟨hlive', hpen', m, hm⟩ := ih hlive (hstate.1.trans hpen)
    refine ⟨hlive', hpen', n + m, ?_⟩
    show ((s.step (.tick x.1 x.2 true)).run (held true ticks)).types = _
    rw [hm, hstate.2, List.append_assoc, List.replicate_append_replicate]

/-- While it is released and seen up there is nothing. -/
theorem held_released (h : Live s) (hpen : s.rtouch.penState = .released) (ticks : List (Bool × Point)) :
    Live (s.run (held false ticks)) ∧ (s.run (held false ticks)).rtouch.penState = .released ∧
      (s.run (held false ticks)).types = s.types := by
  induction ticks generalizing s with
  | nil => exact ⟨h, hpen, rfl⟩
  | cons x ticks ih =>
    obtain ⟨hlive, -, -, -, n, hn, hstate⟩ := tick_spec h x.1 x.2 false
    rw [if_neg Bool.false_ne_true, if_neg (by rw [hpen]; rintro ⟨⟨⟩, -⟩)] at hstate
    obtain ⟨hlive', hpen', hm⟩ := ih hlive (hstate.1.trans hpen)
    refine ⟨hlive', hpen', ?_⟩
    show ((s.step (.tick x.1 x.2 false)).run (held false ticks)).types = _
    rw [hm, hstate.2, hn (by rw [hpen]; rintro ⟨⟩)]
    exact List.append_nil _

theorem timeKeep_next_eq {n b : Nat} (hn : n < 2 ^ 32) (hb : b < 2 ^ 32) :
    timeKeep ((n + 1) % 2 ^ 32) b = (timeKeep n b + 1) % 2 ^ 32 := by
  unfold timeKeep
  omega

/-- The pen is down: a press comes at the seventh look. -/
theorem held_down (h : Live s) (hpen : s.rtouch.penState = .debounce) {d : Nat}
    (hd : timeKeep s.rtouch.timestamp s.rtouch.timepress = d) (hlt : d < 7) (ticks : List (Bool × Point)) :
    let s' := s.run (held true ticks)
    Live s' ∧
      if d + ticks.length < 7 then s'.rtouch.penState = .debounce ∧ s'.types = s.types
      else s'.rtouch.penState = .pressed ∧ ∃ n, s'.types = s.types ++ .press :: List.replicate n .move := by
  induction ticks generalizing s d with
  | nil =>
    refine ⟨h, ?_⟩
    rw [List.length_nil, Nat.add_zero, if_pos hlt]
    exact ⟨hpen, rfl⟩
  | cons x ticks ih =>
    obtain ⟨hlive, hstamp, hpress, -, n, hn, hstate⟩ := tick_spec h x.1 x.2 true
    have hkeep : timeKeep (next s.rtouch) s.rtouch.timepress = d + 1 := by
      rw [next, timeKeep_next_eq h.stamp h.press, hd]
      omega
    rw [if_pos rfl, hkeep, hn (by rw [hpen]; rintro ⟨⟩), List.replicate_zero, List.append_nil] at hstate
    rw [if_pos rfl] at hpress
    dsimp only
    rw [show s.run (held true (x :: ticks)) = (s.step (.tick x.1 x.2 true)).run (held true ticks) from rfl, List.length_cons]
    by_cases hlong : DEBOUNCE_TIME < d + 1
    · rw [if_pos ⟨hpen, hlong⟩] at hstate
      obtain ⟨hlive', hpen', m, hm⟩ := held_pressed hlive hstate.1 ticks
      have : 6 < d + 1 := hlong
      rw [if_neg (by omega)]
      refine ⟨hlive', hpen', m, ?_⟩
      rw [hm, hstate.2, List.append_assoc]
      rfl
    · rw [if_neg fun hc => hlong hc.2] at hstate
      have : ¬6 < d + 1 := hlong
      have hnext := ih hlive (hstate.1.trans hpen) (d := d + 1) (by rw [hstamp, hpress, hkeep]) (by omega)
      rw [hstate.2, show d + 1 + ticks.length = d + (ticks.length + 1) by omega] at hnext
      exact hnext

/-- The pen is up: a release comes at the seventh look, or before it. -/
theorem held_up (h : Live s) (hpen : s.rtouch.penState = .debounce) {d : Nat}
    (hd : timeKeep s.rtouch.timestamp s.rtouch.timerelease = d) (ticks : List (Bool × Point))
    (hlen : d < 7 ∧ 7 ≤ d + ticks.length ∨ 8 ≤ ticks.length) :
    let s' := s.run (held false ticks)
    Live s' ∧ s'.rtouch.penState = .released ∧ s'.types = s.types ++ [.release] := by
  induction ticks generalizing s d with
  | nil =>
    rw [List.length_nil] at hlen
    omega
  | cons x ticks ih =>
    obtain ⟨hlive, hstamp, -, hrelease, n, hn, hstate⟩ := tick_spec h x.1 x.2 false
    have hkeep : timeKeep (next s.rtouch) s.rtouch.timerelease = (d + 1) % 2 ^ 32 := by
      rw [next, timeKeep_next_eq h.stamp h.release, hd]
    rw [if_neg Bool.false_ne_true, hkeep, hn (by rw [hpen]; rintro ⟨⟩), List.replicate_zero, List.append_nil] at hstate
    rw [if_neg Bool.false_ne_true] at hrelease
    rw [List.length_cons] at hlen
    dsimp only
    rw [show s.run (held false (x :: ticks)) = (s.step (.tick x.1 x.2 false)).run (held false ticks) from rfl]
    by_cases hlong : DEBOUNCE_TIME < (d + 1) % 2 ^ 32
    · rw [if_pos ⟨hpen, hlong⟩] at hstate
      obtain ⟨hlive', hpen', hm⟩ := held_released hlive hstate.1 ticks
      exact ⟨hlive', hpen', hm.trans hstate.2⟩
    · rw [if_neg fun hc => hlong hc.2] at hstate
      have : ¬6 < (d + 1) % 2 ^ 32 := hlong
      have hlt : d < 2 ^ 32 := hd ▸ Nat.mod_lt _ (Nat.two_pow_pos 32)
      have hnext := ih hlive (hstate.1.trans hpen) (d := (d + 1) % 2 ^ 32) (by rw [hstamp, hrelease, hkeep]) (by omega)
      rw [hstate.2] at hnext
      exact hnext

/-! ## Touches -/

theorem pen_live (h : Live s) (isPressed : Bool) : Live (s.step (.pen isPressed)) := by
  obtain ⟨hsame, -, hstamp, hpress, hrelease, -⟩ := rtouchPenHandler_spec (t := s.rtouch) isPressed
  refine ⟨hsame.enabled.trans h.enabled, hsame.calibrated.trans h.calibrated, hstamp ▸ h.stamp, ?_, ?_⟩
  · show (rtouchPenHandler s.rtouch isPressed).timepress < _
    rw [hpress]
    split
    · exact h.stamp
    · exact h.press
  · show (rtouchPenHandler s.rtouch isPressed).timerelease < _
    rw [hrelease]
    split
    · exact h.stamp
    · exact h.release

/-- One touch. -/
theorem touch_answered (h : Live s) (hpen : s.rtouch.penState = .released) (down up : List (Bool × Point)) (hup : 8 ≤ up.length) :
    let s' := s.run (touch down up)
    Live s' ∧ s'.rtouch.penState = .released ∧ ∃ types, Answer down.length types ∧ s'.types = s.types ++ types := by
  obtain ⟨-, -, hstamp, hpress, -, hstate⟩ := rtouchPenHandler_spec (t := s.rtouch) true
  rw [if_pos ⟨rfl, hpen⟩] at hpress
  rw [if_pos (.inl ⟨rfl, hpen⟩)] at hstate
  have hzero : timeKeep (s.step (.pen true)).rtouch.timestamp (s.step (.pen true)).rtouch.timepress = 0 := by
    show timeKeep (rtouchPenHandler s.rtouch true).timestamp (rtouchPenHandler s.rtouch true).timepress = 0
    rw [hstamp, hpress, timeKeep_self]
  obtain ⟨hdown, hmid⟩ := held_down (pen_live h true) hstate hzero (by decide) down
  -- Whatever the first looks came to, the pen's state is open as it goes up.
  have hopen : (((s.step (.pen true)).run (held true down)).step (.pen false)).rtouch.penState = .debounce := by
    obtain ⟨-, -, -, -, -, hoff⟩ := rtouchPenHandler_spec (t := ((s.step (.pen true)).run (held true down)).rtouch) false
    show (rtouchPenHandler _ false).penState = _
    rw [hoff]
    split at hmid
    · rw [if_neg (by rw [hmid.1]; rintro (⟨⟨⟩, -⟩ | ⟨-, ⟨⟩⟩)), hmid.1]
    · rw [if_pos (.inr ⟨Bool.false_ne_true, hmid.1⟩)]
  obtain ⟨hlive, hend, htypes⟩ := held_up (pen_live hdown false) hopen rfl up (.inr hup)
  have hrun : s.run (touch down up) = (((s.step (.pen true)).run (held true down)).step (.pen false)).run (held false up) := by
    show (s.step (.pen true)).run (held true down ++ .pen false :: held false up) = _
    rw [Screen.run_append, Screen.run_cons]
  dsimp only
  rw [hrun]
  refine ⟨hlive, hend, ?_⟩
  rw [htypes]
  show ∃ types, _ ∧ ((s.step (.pen true)).run (held true down)).types ++ [.release] = _
  rw [Nat.zero_add] at hmid
  split at hmid
  · next hshort =>
    refine ⟨[.release], ⟨0, ?_⟩, ?_⟩
    · rw [if_neg (Nat.not_le_of_lt hshort), List.nil_append]
    · rw [hmid.2]
      rfl
  · next hlong =>
    obtain ⟨-, n, hn⟩ := hmid
    refine ⟨(.press :: List.replicate n .move) ++ [.release], ⟨n, ?_⟩, ?_⟩
    · rw [if_pos (Nat.le_of_not_lt hlong)]
    · rw [hn, List.append_assoc]
      rfl

/-- **Each touch is answered**: in a run of touches, each with at least eight looks before the next, one of at least seven
looks gets a press, moves and a release, and a shorter one a release that no press came before. -/
theorem touches_answered (t : Rtouch) (hcal : t.isCalibrated = true) (touches : List (List (Bool × Point) × List (Bool × Point)))
    (hup : ∀ x ∈ touches, 8 ≤ x.2.length) :
    ∃ answers, List.Forall₂ (fun x types => Answer x.1.length types) touches answers ∧
      ((Screen.start t).run (touches.flatMap fun x => touch x.1 x.2)).types = answers.flatten := by
  suffices h : ∀ s, Live s → s.rtouch.penState = .released → ∃ answers,
      List.Forall₂ (fun x types => Answer x.1.length types) touches answers ∧
        (s.run (touches.flatMap fun x => touch x.1 x.2)).types = s.types ++ answers.flatten from
    h (Screen.start t) ⟨rfl, hcal, Nat.two_pow_pos 32, Nat.two_pow_pos 32, Nat.two_pow_pos 32⟩ rfl
  induction touches with
  | nil => exact fun s _ _ => ⟨[], .nil, (List.append_nil _).symm⟩
  | cons x touches ih =>
    intro s h hpen
    obtain ⟨hlive, hend, types, hanswer, htypes⟩ := touch_answered h hpen x.1 x.2 (hup x List.mem_cons_self)
    obtain ⟨answers, hall, hrest⟩ := ih (fun y hy => hup y (List.mem_cons_of_mem _ hy)) _ hlive hend
    refine ⟨types :: answers, .cons hanswer hall, ?_⟩
    rw [List.flatMap_cons, Screen.run_append, hrest, htypes, List.flatten_cons, List.append_assoc]

/-- A touch of 70 ms and one of 20 ms. -/
theorem touches_answered_sample :
    let touches := [(List.replicate 7 (true, (⟨10, 20⟩ : Point)), List.replicate 8 (false, ⟨0, 0⟩)),
      (List.replicate 2 (true, ⟨10, 20⟩), List.replicate 9 (false, ⟨0, 0⟩))]
    ∃ answers, List.Forall₂ (fun x types => Answer x.1.length types) touches answers ∧
      ((Screen.start sampleRtouch).run (touches.flatMap fun x => touch x.1 x.2)).types = answers.flatten :=
  touches_answered sampleRtouch rfl _ (by decide)

end Keynjector.Touch
