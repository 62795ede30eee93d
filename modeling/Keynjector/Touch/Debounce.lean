import Mathlib.Data.List.TakeWhile
import Keynjector.Touch.Rtouch
/-
# The events of the touch screen

`debounced`: the pen was down, or up, at the last seven looks when the event comes.
`moves_between`: a move comes between a press and the release after it, and each event
lies on the panel, its last column and row being `width` and `height` themselves.
-/

namespace Keynjector.Touch

/-! ## One tick -/

/-- What a tick leaves as it is. -/
structure Same (t t' : Rtouch) : Prop where
  enabled : t'.isEnabled = t.isEnabled
  calibrated : t'.isCalibrated = t.isCalibrated
  width : t'.width = t.width
  height : t'.height = t.height

theorem Same.trans {t t' t'' : Rtouch} (h : Same t t') (h' : Same t' t'') : Same t t'' :=
  ⟨h'.enabled.trans h.enabled, h'.calibrated.trans h.calibrated, h'.width.trans h.width, h'.height.trans h.height⟩

/-- The position last read lies on the panel. -/
def OnPanel (t : Rtouch) : Prop := t.event.panel.x ≤ t.width ∧ t.event.panel.y ≤ t.height

theorem cut_le (limit n : Nat) : (if limit < n then limit else n) ≤ limit := by
  split <;> omega

theorem calibrated_le (panel raw0 raw : Nat) (slope : Int) (limit : Nat) : calibrated panel raw0 raw slope limit ≤ limit :=
  cut_le limit _

variable {t : Rtouch}

theorem readPosition_spec (raw : Point) :
    Same t (readPosition t raw) ∧ (readPosition t raw).penState = t.penState ∧ (readPosition t raw).timestamp = t.timestamp ∧
      (readPosition t raw).timepress = t.timepress ∧ (readPosition t raw).timerelease = t.timerelease ∧
      (OnPanel t → OnPanel (readPosition t raw)) := by
  unfold readPosition
  split
  · exact ⟨⟨rfl, rfl, rfl, rfl⟩, rfl, rfl, rfl, rfl, fun _ => ⟨calibrated_le .., calibrated_le ..⟩⟩
  · exact ⟨⟨rfl, rfl, rfl, rfl⟩, rfl, rfl, rfl, rfl, id⟩

/-- The first look hands on a move, while the pen is down, or nothing. -/
theorem look_spec (first : Bool) (raw : Point) :
    Same t (look t first raw).1 ∧ (look t first raw).1.penState = t.penState ∧ (look t first raw).1.timestamp = t.timestamp ∧
      (look t first raw).1.timepress = t.timepress ∧ (look t first raw).1.timerelease = t.timerelease ∧
      (OnPanel t → OnPanel (look t first raw).1) ∧
      ((look t first raw).2 = [] ∨ (look t first raw).2 = [(look t first raw).1.event] ∧
        (look t first raw).1.event.type = .move ∧ t.penState = .pressed ∧ t.isCalibrated = true) := by
  unfold look
  split
  · obtain ⟨hsame, hpen, hstamp, hpress, hrelease, hpanel⟩ := readPosition_spec (t := t) raw
    unfold moved
    split
    · next h =>
      obtain ⟨hstate, hcal, -⟩ := h
      unfold notify
      dsimp only
      rw [if_pos hcal]
      exact ⟨⟨hsame.enabled, hsame.calibrated, hsame.width, hsame.height⟩, hpen, hstamp, hpress, hrelease, hpanel,
        .inr ⟨rfl, rfl, hpen.symm.trans hstate, hsame.calibrated.symm.trans hcal⟩⟩
    · exact ⟨hsame, hpen, hstamp, hpress, hrelease, hpanel, .inl rfl⟩
  · exact ⟨⟨rfl, rfl, rfl, rfl⟩, rfl, rfl, rfl, rfl, id, .inl rfl⟩

/-- The event for a new state of the pen. -/
def change (t : Rtouch) (type : EventType) : List TouchEvent :=
  if t.isCalibrated then [⟨type, t.event.panel, t.event.raw⟩] else []

/-- The second look: the pen stays as it is, was down long enough, or up long enough. -/
theorem determinePenState_spec (second : Bool) :
    let t' := (determinePenState t second).1
    Same t t' ∧ (OnPanel t → OnPanel t') ∧ t'.timestamp = t.timestamp ∧
      t'.timepress = (if second then t.timepress else t.timestamp) ∧
      t'.timerelease = (if second then t.timestamp else t.timerelease) ∧
      (if second then
          if t.penState = .debounce ∧ DEBOUNCE_TIME < timeKeep t.timestamp t.timepress then
            t'.penState = .pressed ∧ (determinePenState t second).2 = change t .press
          else t'.penState = t.penState ∧ (determinePenState t second).2 = []
        else
          if t.penState = .debounce ∧ DEBOUNCE_TIME < timeKeep t.timestamp t.timerelease then
            t'.penState = .released ∧ (determinePenState t second).2 = change t .release
          else t'.penState = t.penState ∧ (determinePenState t second).2 = []) := by
  cases second with
  | true =>
    simp only [determinePenState, if_true]
    split
    · exact ⟨⟨rfl, rfl, rfl, rfl⟩, id, rfl, rfl, rfl, rfl, rfl⟩
    · exact ⟨⟨rfl, rfl, rfl, rfl⟩, id, rfl, rfl, rfl, rfl, rfl⟩
  | false =>
    simp only [determinePenState, Bool.false_eq_true, if_false]
    split
    · exact ⟨⟨rfl, rfl, rfl, rfl⟩, id, rfl, rfl, rfl, rfl, rfl⟩
    · exact ⟨⟨rfl, rfl, rfl, rfl⟩, id, rfl, rfl, rfl, rfl, rfl⟩

/-- The time of the next tick. -/
def next (t : Rtouch) : Nat := (t.timestamp + 1) % 2 ^ 32

/-- What a tick does to the times and the pen, and what it hands on: `Moves` and a change of the pen. -/
structure Ticked (t t' : Rtouch) (second : Bool) (es : List TouchEvent) : Prop where
  same : Same t t'
  panel : OnPanel t → OnPanel t'
  stamp : t'.timestamp = next t
  press : t'.timepress = if second then t.timepress else next t
  release : t'.timerelease = if second then next t else t.timerelease
  events : ∃ ms cs, es = ms ++ cs ∧
    (∀ e ∈ ms, e.type = .move ∧ t.penState = .pressed ∧ (OnPanel t → e.panel.x ≤ t.width ∧ e.panel.y ≤ t.height)) ∧
    (∀ e ∈ cs, OnPanel t → e.panel.x ≤ t.width ∧ e.panel.y ≤ t.height) ∧
    (if second then
        if t.penState = .debounce ∧ DEBOUNCE_TIME < timeKeep (next t) t.timepress then
          t'.penState = .pressed ∧ cs.map (·.type) = if t.isCalibrated then [.press] else []
        else t'.penState = t.penState ∧ cs = []
      else
        if t.penState = .debounce ∧ DEBOUNCE_TIME < timeKeep (next t) t.timerelease then
          t'.penState = .released ∧ cs.map (·.type) = if t.isCalibrated then [.release] else []
        else t'.penState = t.penState ∧ cs = [])

theorem change_types (t : Rtouch) (type : EventType) :
    (change t type).map (·.type) = if t.isCalibrated then [type] else [] := by
  unfold change
  split <;> rfl

theorem change_panel {type : EventType} {e : TouchEvent} (h : e ∈ change t type) : e.panel = t.event.panel := by
  unfold change at h
  split at h
  · rw [List.mem_singleton.1 h]
  · cases h

theorem rtouchProcess_spec (henabled : t.isEnabled = true) (first : Bool) (raw : Point) (second : Bool) :
    Ticked t (rtouchProcess t first raw second).1 second (rtouchProcess t first raw second).2 := by
  unfold rtouchProcess
  rw [if_pos henabled]
  dsimp only
  obtain ⟨hsame, hpen, hstamp, hpress, hrelease, hpanel, hmove⟩ :=
    look_spec (t := { t with timestamp := (t.timestamp + 1) % 2 ^ 32 }) first raw
  generalize look { t with timestamp := (t.timestamp + 1) % 2 ^ 32 } first raw = o at *
  obtain ⟨u, ms⟩ := o
  dsimp only at *
  obtain ⟨hsame', hpanel', hstamp', hpress', hrelease', hstate⟩ := determinePenState_spec (t := u) second
  have hall : Same t (determinePenState u second).1 := Same.trans ⟨hsame.enabled, hsame.calibrated, hsame.width, hsame.height⟩ hsame'
  refine ⟨hall, fun h => hpanel' (hpanel h), hstamp'.trans hstamp, ?_, ?_, ms, _, rfl, ?_, ?_, ?_⟩
  · rw [hpress', hpress, hstamp]
    rfl
  · rw [hrelease', hrelease, hstamp]
    rfl
  · intro e he
    rcases hmove with rfl | ⟨rfl, htype, hpressed, -⟩
    · cases he
    · rw [List.mem_singleton.1 he]
      refine ⟨htype, hpressed, fun h => ?_⟩
      have := hpanel h
      rwa [OnPanel, hsame.width, hsame.height] at this
  · intro e he h
    have hu := hpanel h
    rw [OnPanel, hsame.width, hsame.height] at hu
    have hpoint : e.panel = u.event.panel := by
      cases second <;> simp only [if_true, Bool.false_eq_true, if_false] at hstate <;> split at hstate <;> rw [hstate.2] at he
      · exact change_panel he
      · cases he
      · exact change_panel he
      · cases he
    rwa [hpoint]
  · have hnext : u.timestamp = next t := hstamp
    rw [hpen, hnext, hpress, hrelease] at hstate
    have hcal : u.isCalibrated = t.isCalibrated := hsame.calibrated
    cases second <;> simp only [if_true, Bool.false_eq_true, if_false] at hstate ⊢ <;> split at hstate
    · next h => rw [if_pos h, hstate.2, change_types, hcal]; exact ⟨hstate.1, rfl⟩
    · next h => rw [if_neg h]; exact hstate
    · next h => rw [if_pos h, hstate.2, change_types, hcal]; exact ⟨hstate.1, rfl⟩
    · next h => rw [if_neg h]; exact hstate

/-- What is handed on is a move, or the change of the pen at the second look. -/
theorem Ticked.mem {t' : Rtouch} {second : Bool} {es : List TouchEvent} (h : Ticked t t' second es) {e : TouchEvent} (he : e ∈ es) :
    (e.type = .move ∧ t.penState = .pressed) ∨
      (second = true ∧ e.type = .press ∧ DEBOUNCE_TIME < timeKeep (next t) t.timepress) ∨
      (second = false ∧ e.type = .release ∧ DEBOUNCE_TIME < timeKeep (next t) t.timerelease) := by
  obtain ⟨ms, cs, rfl, hms, -, hcs⟩ := h.events
  rcases List.mem_append.1 he with hm | hc
  · exact .inl ⟨(hms e hm).1, (hms e hm).2.1⟩
  · have htype : e.type ∈ cs.map (·.type) := List.mem_map_of_mem hc
    right
    cases second with
    | true =>
      rw [if_pos rfl] at hcs
      split at hcs
      · next hcond =>
        rw [hcs.2] at htype
        split at htype
        · exact .inl ⟨rfl, List.mem_singleton.1 htype, hcond.2⟩
        · cases htype
      · rw [hcs.2] at hc
        cases hc
    | false =>
      rw [if_neg Bool.false_ne_true] at hcs
      split at hcs
      · next hcond =>
        rw [hcs.2] at htype
        split at htype
        · exact .inr ⟨rfl, List.mem_singleton.1 htype, hcond.2⟩
        · cases htype
      · rw [hcs.2] at hc
        cases hc

/-! ## Seven looks -/

def Input.level? : Input → Option Bool
  | .tick _ _ second => some second
  | _ => none

/-- What the second look of each tick found, the latest first. -/
def levels (is : List Input) : List Bool := (is.filterMap Input.level?).reverse

/-- The number of the latest looks that all found `level`. -/
def streak (level : Bool) (ls : List Bool) : Nat := (ls.takeWhile (· == level)).length

theorem levels_snoc (is : List Input) (i : Input) : levels (is ++ [i]) = i.level?.toList ++ levels is := by
  unfold levels
  rw [List.filterMap_append, List.reverse_append]
  cases h : i.level? <;> simp [h]

theorem streak_cons_self (level : Bool) (ls : List Bool) : streak level (level :: ls) = streak level ls + 1 := by
  unfold streak
  rw [List.takeWhile_cons, if_pos (beq_self_eq_true level), List.length_cons]

theorem replicate_of_streak {level : Bool} {ls : List Bool} {n : Nat} (h : n ≤ streak level ls) : List.replicate n level <+: ls := by
  have htake : ls.takeWhile (· == level) = List.replicate (streak level ls) level :=
    List.eq_replicate_iff.2 ⟨rfl, fun b hb => beq_iff_eq.1 (List.mem_takeWhile_imp (p := (· == level)) hb)⟩
  have hsub : List.replicate n level <+: List.replicate (streak level ls) level := by
    obtain ⟨k, hk⟩ := Nat.exists_eq_add_of_le h
    rw [hk, ← List.replicate_append_replicate]
    exact List.prefix_append _ _
  exact hsub.trans (htake ▸ List.takeWhile_prefix _)

theorem timeKeep_self {n : Nat} : timeKeep n n = 0 := by
  unfold timeKeep
  omega

theorem timeKeep_next {n b : Nat} (hn : n < 2 ^ 32) (hb : b < 2 ^ 32) : timeKeep ((n + 1) % 2 ^ 32) b ≤ timeKeep n b + 1 := by
  unfold timeKeep
  omega

/-- The times tell at most how long the pen was seen down, or up. -/
structure Steady (t : Rtouch) (ls : List Bool) : Prop where
  stamp : t.timestamp < 2 ^ 32
  press : t.timepress < 2 ^ 32
  release : t.timerelease < 2 ^ 32
  down : timeKeep t.timestamp t.timepress ≤ streak true ls
  up : timeKeep t.timestamp t.timerelease ≤ streak false ls

theorem next_lt (t : Rtouch) : next t < 2 ^ 32 := Nat.mod_lt _ (by decide)

/-- The second look adds to one streak and ends the other. -/
theorem Ticked.steady {t' : Rtouch} {second : Bool} {es : List TouchEvent} {ls : List Bool} (h : Ticked t t' second es)
    (hs : Steady t ls) : Steady t' (second :: ls) := by
  have hdown := timeKeep_next hs.stamp hs.press
  have hup := timeKeep_next hs.stamp hs.release
  have hnext := next_lt t
  obtain ⟨-, -, hstamp, hpress, hrelease, -⟩ := h
  cases second with
  | true =>
    rw [if_pos rfl] at hpress hrelease
    refine ⟨hstamp ▸ hnext, hpress ▸ hs.press, hrelease ▸ hnext, ?_, ?_⟩
    · rw [hstamp, hpress, streak_cons_self]
      exact Nat.le_trans hdown (Nat.succ_le_succ hs.down)
    · rw [hstamp, hrelease, timeKeep_self]
      exact Nat.zero_le _
  | false =>
    rw [if_neg Bool.false_ne_true] at hpress hrelease
    refine ⟨hstamp ▸ hnext, hpress ▸ hnext, hrelease ▸ hs.release, ?_, ?_⟩
    · rw [hstamp, hpress, timeKeep_self]
      exact Nat.zero_le _
    · rw [hstamp, hrelease, streak_cons_self]
      exact Nat.le_trans hup (Nat.succ_le_succ hs.up)

theorem rtouchPenHandler_spec (isPressed : Bool) :
    Same t (rtouchPenHandler t isPressed) ∧ (rtouchPenHandler t isPressed).event = t.event ∧
      (rtouchPenHandler t isPressed).timestamp = t.timestamp ∧
      (rtouchPenHandler t isPressed).timepress = (if isPressed ∧ t.penState = .released then t.timestamp else t.timepress) ∧
      (rtouchPenHandler t isPressed).timerelease = (if ¬isPressed ∧ t.penState = .pressed then t.timestamp else t.timerelease) ∧
      (rtouchPenHandler t isPressed).penState =
        if isPressed ∧ t.penState = .released ∨ ¬isPressed ∧ t.penState = .pressed then .debounce else t.penState := by
  unfold rtouchPenHandler
  cases isPressed <;> cases hpen : t.penState <;> simp [hpen] <;> exact ⟨rfl, rfl, rfl, rfl⟩

theorem Steady.pen {ls : List Bool} (hs : Steady t ls) (isPressed : Bool) : Steady (rtouchPenHandler t isPressed) ls := by
  obtain ⟨-, -, hstamp, hpress, hrelease, -⟩ := rtouchPenHandler_spec (t := t) isPressed
  refine ⟨hstamp ▸ hs.stamp, ?_, ?_, ?_, ?_⟩
  · rw [hpress]
    split
    · exact hs.stamp
    · exact hs.press
  · rw [hrelease]
    split
    · exact hs.stamp
    · exact hs.release
  · rw [hstamp, hpress]
    split
    · exact timeKeep_self ▸ Nat.zero_le _
    · exact hs.down
  · rw [hstamp, hrelease]
    split
    · exact timeKeep_self ▸ Nat.zero_le _
    · exact hs.up

theorem rtouchComputeCalibration_times (p0 p1 p2 p3 p4 : CalibrationPoint) :
    (rtouchComputeCalibration t p0 p1 p2 p3 p4).1.timestamp = t.timestamp ∧
      (rtouchComputeCalibration t p0 p1 p2 p3 p4).1.timepress = t.timepress ∧
      (rtouchComputeCalibration t p0 p1 p2 p3 p4).1.timerelease = t.timerelease ∧
      (rtouchComputeCalibration t p0 p1 p2 p3 p4).1.isEnabled = t.isEnabled := by
  unfold rtouchComputeCalibration
  dsimp only
  split <;> exact ⟨rfl, rfl, rfl, rfl⟩

/-- The times are steady, and the screen enabled, in every run. -/
theorem run_steady (t : Rtouch) (is : List Input) :
    Steady ((Screen.start t).run is).rtouch (levels is) ∧ ((Screen.start t).run is).rtouch.isEnabled = true := by
  induction is using List.reverseRecOn with
  | nil =>
    have hpow := Nat.two_pow_pos 32
    exact ⟨⟨hpow, hpow, hpow, Nat.le_of_eq timeKeep_self, Nat.le_of_eq timeKeep_self⟩, rfl⟩
  | append_singleton is i ih =>
    obtain ⟨hs, henabled⟩ := ih
    rw [Screen.run, Runs.run_snoc, ← Screen.run, levels_snoc]
    cases i with
    | pen isPressed => exact ⟨hs.pen isPressed, (rtouchPenHandler_spec isPressed).1.enabled.trans henabled⟩
    | tick first raw second =>
      have h := rtouchProcess_spec henabled first raw second
      exact ⟨h.steady hs, h.same.enabled.trans henabled⟩
    | calibrate p0 p1 p2 p3 p4 =>
      obtain ⟨hstamp, hpress, hrelease, hen⟩ := rtouchComputeCalibration_times (t := ((Screen.start t).run is).rtouch) p0 p1 p2 p3 p4
      refine ⟨⟨?_, ?_, ?_, ?_, ?_⟩, hen.trans henabled⟩
      · exact hstamp ▸ hs.stamp
      · exact hpress ▸ hs.press
      · exact hrelease ▸ hs.release
      · exact hstamp ▸ hpress ▸ hs.down
      · exact hstamp ▸ hrelease ▸ hs.up

/-- **Debouncing.** In every run the pen was down at each of the last seven looks when a press is handed on, and up when
a release is. -/
theorem debounced (t : Rtouch) (is : List Input) (first : Bool) (raw : Point) (second : Bool) (e : TouchEvent)
    (he : e ∈ (rtouchProcess ((Screen.start t).run is).rtouch first raw second).2) :
    (e.type = .press → List.replicate 7 true <+: levels (is ++ [.tick first raw second])) ∧
      (e.type = .release → List.replicate 7 false <+: levels (is ++ [.tick first raw second])) := by
  obtain ⟨hs, henabled⟩ := run_steady t is
  have h := rtouchProcess_spec henabled first raw second
  have hsteady := h.steady hs
  rw [levels_snoc]
  show (_ → _ <+: second :: levels is) ∧ (_ → _ <+: second :: levels is)
  have hdown := hsteady.down
  have hup := hsteady.up
  rw [h.stamp, h.press] at hdown
  rw [h.stamp, h.release] at hup
  rcases h.mem he with ⟨htype, -⟩ | ⟨rfl, htype, hlong⟩ | ⟨rfl, htype, hlong⟩
  · constructor <;> intro h <;> cases htype.symm.trans h
  · refine ⟨fun _ => replicate_of_streak (Nat.le_trans hlong hdown), fun h => ?_⟩
    cases htype.symm.trans h
  · refine ⟨fun h => ?_, fun _ => replicate_of_streak (Nat.le_trans hlong hup)⟩
    cases htype.symm.trans h

/-- The seventh tick hands on a press. -/
theorem debounced_sample :
    List.replicate 7 true <+: levels (.pen true :: List.replicate 6 (.tick true ⟨10, 20⟩ true) ++ [.tick true ⟨10, 20⟩ true]) :=
  (debounced sampleRtouch (.pen true :: List.replicate 6 (.tick true ⟨10, 20⟩ true)) true ⟨10, 20⟩ true ⟨.press, ⟨10, 20⟩, ⟨10, 20⟩⟩
    (by decide +kernel)).1 rfl

/-! ## Moves -/

/-- The last event that is no move. -/
def lastChange (log : List TouchEvent) : Option EventType := ((log.map (·.type)).filter (· ≠ .move)).getLast?

theorem lastChange_moves {log ms : List TouchEvent} (h : ∀ e ∈ ms, e.type = .move) : lastChange (log ++ ms) = lastChange log := by
  have hnil : (ms.map (·.type)).filter (· ≠ .move) = [] := by
    rw [List.filter_eq_nil_iff]
    intro x hx
    obtain ⟨e, he, rfl⟩ := List.mem_map.1 hx
    simp [h e he]
  rw [lastChange, List.map_append, List.filter_append, hnil, List.append_nil, lastChange]

theorem lastChange_change {log cs : List TouchEvent} {type : EventType} (htype : type ≠ .move) (h : cs.map (·.type) = [type]) :
    lastChange (log ++ cs) = some type := by
  have hkeep : [type].filter (· ≠ .move) = [type] :=
    List.filter_eq_self.2 fun x hx => decide_eq_true (List.mem_singleton.1 hx ▸ htype)
  rw [lastChange, List.map_append, List.filter_append, h, hkeep]
  exact List.getLast?_concat

def Input.calibrates : Input → Bool
  | .calibrate .. => true
  | _ => false

/-- What a listener may count on: moves belong to a press, and places are on the panel. -/
def Sensible (t : Rtouch) (log : List TouchEvent) (e : TouchEvent) : Prop :=
  (e.type = .move → lastChange log = some .press) ∧ e.panel.x ≤ t.width ∧ e.panel.y ≤ t.height

/-- What holds while the calibration stays. -/
structure Listening (t : Rtouch) (s : Screen) : Prop where
  enabled : s.rtouch.isEnabled = true
  calibrated : s.rtouch.isCalibrated = true
  width : s.rtouch.width = t.width
  height : s.rtouch.height = t.height
  panel : OnPanel s.rtouch
  pressed : s.rtouch.penState = .pressed → lastChange s.log = some .press
  log : Runs.AtEach (Sensible t) s.log

theorem Ticked.listening {s : Screen} {t' : Rtouch} {second : Bool} {es : List TouchEvent} (h : Ticked s.rtouch t' second es)
    (hs : Listening t s) : Listening t ⟨t', s.log ++ es⟩ := by
  obtain ⟨ms, cs, rfl, hms, hcs, hstate⟩ := h.events
  have hlast : lastChange (s.log ++ ms) = lastChange s.log := lastChange_moves fun e he => (hms e he).1
  have hmove : ∀ e ∈ cs, e.type ≠ .move := by
    intro e he
    have htype : e.type ∈ cs.map (·.type) := List.mem_map_of_mem he
    cases second <;> simp only [if_true, Bool.false_eq_true, if_false] at hstate <;> split at hstate
    · rw [hstate.2, if_pos hs.calibrated, List.mem_singleton] at htype
      rw [htype]
      decide
    · rw [hstate.2] at he
      cases he
    · rw [hstate.2, if_pos hs.calibrated, List.mem_singleton] at htype
      rw [htype]
      decide
    · rw [hstate.2] at he
      cases he
  refine ⟨h.same.enabled.trans hs.enabled, h.same.calibrated.trans hs.calibrated, h.same.width.trans hs.width,
    h.same.height.trans hs.height, h.panel hs.panel, fun hpressed => ?_, ?_⟩
  · dsimp only at hpressed ⊢
    rw [← List.append_assoc]
    cases second <;> simp only [if_true, Bool.false_eq_true, if_false] at hstate <;> split at hstate
    · rw [hstate.1] at hpressed
      cases hpressed
    · rw [hstate.2, List.append_nil, hlast]
      exact hs.pressed (hstate.1.symm.trans hpressed)
    · rw [if_pos hs.calibrated] at hstate
      exact lastChange_change (by decide) hstate.2
    · rw [hstate.2, List.append_nil, hlast]
      exact hs.pressed (hstate.1.symm.trans hpressed)
  · have hplace : ∀ e ∈ ms ++ cs, e.panel.x ≤ t.width ∧ e.panel.y ≤ t.height := by
      intro e he
      rw [← hs.width, ← hs.height]
      rcases List.mem_append.1 he with hm | hc
      · exact (hms e hm).2.2 hs.panel
      · exact hcs e hc hs.panel
    rw [← List.append_assoc]
    refine (hs.log.append fun pre e post hsplit => ?_).append fun pre e post hsplit => ?_
    · have he : e ∈ ms := hsplit ▸ List.mem_append_right _ List.mem_cons_self
      refine ⟨fun _ => ?_, hplace e (List.mem_append_left _ he)⟩
      rw [lastChange_moves fun x hx => (hms x (hsplit ▸ List.mem_append_left _ hx)).1]
      exact hs.pressed (hms e he).2.1
    · have he : e ∈ cs := hsplit ▸ List.mem_append_right _ List.mem_cons_self
      exact ⟨fun h => absurd h (hmove e he), hplace e (List.mem_append_right _ he)⟩

/-- **A move belongs to a press**: once the screen is calibrated, each move comes after a press with no release between,
and each event lies on the panel. -/
theorem moves_between (t : Rtouch) (hcal : t.isCalibrated = true) (is : List Input) (his : ∀ i ∈ is, i.calibrates = false) :
    Runs.AtEach (Sensible t) ((Screen.start t).run is).log := by
  suffices h : Listening t ((Screen.start t).run is) from h.log
  induction is using List.reverseRecOn with
  | nil =>
    refine ⟨rfl, hcal, rfl, rfl, ⟨Nat.zero_le _, Nat.zero_le _⟩, fun h => ?_, Runs.AtEach.nil⟩
    cases h
  | append_singleton is i ih =>
    have hs := ih fun x hx => his x (List.mem_append_left _ hx)
    rw [Screen.run, Runs.run_snoc, ← Screen.run]
    cases i with
    | calibrate p0 p1 p2 p3 p4 => cases his _ (List.mem_append_right _ List.mem_cons_self)
    | tick first raw second => exact (rtouchProcess_spec hs.enabled first raw second).listening hs
    | pen isPressed =>
      obtain ⟨hsame, hevent, -, -, -, hpen⟩ := rtouchPenHandler_spec (t := ((Screen.start t).run is).rtouch) isPressed
      refine ⟨hsame.enabled.trans hs.enabled, hsame.calibrated.trans hs.calibrated, hsame.width.trans hs.width,
        hsame.height.trans hs.height, ?_, fun hpressed => ?_, hs.log⟩
      · show OnPanel (rtouchPenHandler _ isPressed)
        rw [OnPanel, hevent, hsame.width, hsame.height]
        exact hs.panel
      · have hpressed := hpen.symm.trans hpressed
        split at hpressed
        · cases hpressed
        · exact hs.pressed hpressed

theorem moves_between_sample :
    Runs.AtEach (Sensible sampleRtouch)
      ((Screen.start sampleRtouch).run (.pen true :: List.replicate 7 (.tick true ⟨10, 20⟩ true) ++ [.tick true ⟨90, 20⟩ true])).log :=
  moves_between sampleRtouch rfl _ (by decide)

end Keynjector.Touch
