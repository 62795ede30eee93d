import Keynjector.Hid.Endpoint
/-
# The states of the keyboard's endpoint (udp_device.c:1365-1567)

A report is in a bank, in the buffer of the job, or marked. `Serving` lists the states
the endpoint can be in; each function of the driver has a lemma for each state it is
called in. `token_spec` and `interrupt_spec` say what a read of the host and the
interrupt do to the reports on their way.
-/

namespace Keynjector.Hid

/-- The reports the host will read without a call, the next one first. -/
def Device.flying (d : Device) : List Packet := d.banks ++ if d.job.busy && !d.job.bufEnd then [d.trans] else []

/-- The report that is marked to be sent. -/
def Device.waiting (d : Device) : Option Packet := if d.valid then some d.report.bytes else none

/-! ## The states of the driver -/

/-- The job after its transfer is over. -/
def Job.done (n k : Nat) (bank : Fin 4) : Job := ⟨n, k, 8, bank, false, false, false⟩

/-- The job whose report is in a bank. -/
def Job.loaded (bank : Fin 4) : Job := ⟨8, 8, 8, bank, true, false, true⟩

/-- The job whose report is in the buffer. -/
def Job.queued (bank : Fin 4) : Job := ⟨8, 0, 8, bank, true, false, false⟩

/-- `front` is the bank the host is asked to read; without one, a bank was read. -/
inductive Serving : Device → Prop where
  | idle {r : Report} {t : Packet} {n k : Nat} {ie : Bool} : Serving ⟨r, false, false, t, .done n k 0, [], false, false, ie⟩
  | last {r : Report} {t : Packet} (front : Option Packet) :
    Serving ⟨r, false, false, t, .done 8 8 1, front.toList, front.isSome, front.isNone, true⟩
  | one {r : Report} {v : Bool} {t : Packet} (front : Option Packet) :
    Serving ⟨r, v, true, t, .loaded 1, front.toList, front.isSome, front.isNone, true⟩
  | two {r : Report} {v : Bool} {t : Packet} (front : Option Packet) (b : Packet) :
    Serving ⟨r, v, true, t, .loaded 2, front.toList ++ [b], front.isSome, front.isNone, true⟩
  | queued {r : Report} {v : Bool} {t : Packet} (front : Option Packet) (ht : t.length = 8) :
    Serving ⟨r, v, true, t, .queued 1, front.toList, front.isSome, front.isNone, true⟩

/-! ## The functions of the driver -/

variable {r : Report} {v o tx rdy comp ie busy be : Bool} {t : Packet} {n k : Nat} {bank : Fin 4} {banks : List Packet}

theorem uddEpInSent_fill (ht : t.length = 8) (hbank : bank < 2) :
    uddEpInSent ⟨r, v, o, t, ⟨8, 0, 8, bank, busy, false, be⟩, banks, rdy, comp, ie⟩ tx =
      (⟨r, v, o, t, ⟨8, 8, 8, bank + 1, busy, false, true⟩, banks ++ [t], rdy || tx, comp, ie⟩, false) := by
  have htake : t.take 8 = t := List.take_of_length_le (Nat.le_of_eq ht)
  have hfull : ¬bankMaxNbr kbdEp ≤ bank := Fin.not_le.2 hbank
  cases tx <;> simp [uddEpInSent, uddEpWriteFifo, hfull, htake]

theorem uddEpInSent_over (h : n ≤ k) :
    (uddEpInSent ⟨r, v, o, t, ⟨n, k, 8, bank, busy, false, be⟩, banks, rdy, comp, ie⟩ tx).1 =
      ⟨r, v, o, t, ⟨n, k, 8, bank, busy, false, be⟩, banks, rdy, comp, ie⟩ := by
  unfold uddEpInSent
  split
  · rfl
  · rw [if_pos ⟨h, rfl⟩]

theorem length_bytes (hr : r.keys.length = 6) : r.bytes.length = 8 := by
  rw [Report.bytes, List.length_cons, List.length_cons, hr]

/-- The first transfer fills a bank. -/
theorem udiHidKbdSendReport_idle (hr : r.keys.length = 6) :
    udiHidKbdSendReport ⟨r, v, false, t, .done n k 0, [], false, false, ie⟩ =
      (⟨r, false, true, r.bytes, .loaded 1, [r.bytes], true, false, true⟩, true) := by
  simp [udiHidKbdSendReport, uddEpRun, Job.done, Job.loaded, UDI_HID_KBD_REPORT_SIZE, uddEpInSent_fill (length_bytes hr)]

/-- Behind another the report stays in the buffer. -/
theorem udiHidKbdSendReport_pending (h : (rdy || comp) = true) :
    udiHidKbdSendReport ⟨r, v, false, t, .done n k bank, banks, rdy, comp, ie⟩ =
      (⟨r, false, true, r.bytes, .queued bank, banks, rdy, comp, true⟩, true) := by
  simp [udiHidKbdSendReport, uddEpRun, Job.done, Job.queued, UDI_HID_KBD_REPORT_SIZE, h]

theorem uddEpFinishJob_pending (h : (rdy || comp) = true) :
    uddEpFinishJob ⟨r, v, true, t, ⟨n, k, 8, bank, true, false, false⟩, banks, rdy, comp, ie⟩ =
      if v then ⟨r, false, true, r.bytes, .queued bank, banks, rdy, comp, true⟩
      else ⟨r, false, false, t, .done n k bank, banks, rdy, comp, ie⟩ := by
  have hsend := @udiHidKbdSendReport_pending r v rdy comp ie t n k bank banks h
  cases v <;> simp_all [uddEpFinishJob, udiHidKbdReportSent, Job.done]

/-! ## The interrupt after a bank was read -/

theorem uddEpInterrupt_last :
    uddEpInterrupt ⟨r, v, o, t, .done 8 8 1, banks, rdy, true, true⟩ = ⟨r, v, o, t, .done 8 8 0, banks, rdy, false, false⟩ := by
  simp [uddEpInterrupt, Job.done]

theorem uddEpInterrupt_one :
    uddEpInterrupt ⟨r, false, true, t, .loaded 1, [], false, true, true⟩ =
      ⟨r, false, false, t, .done 8 8 0, [], false, false, false⟩ := by
  simp [uddEpInterrupt, Job.loaded, uddEpFinishJob_pending, Job.done]

theorem uddEpInterrupt_one_valid (hr : r.keys.length = 6) :
    uddEpInterrupt ⟨r, true, true, t, .loaded 1, [], false, true, true⟩ =
      ⟨r, false, false, r.bytes, .done 8 8 1, [r.bytes], true, false, true⟩ := by
  simp [uddEpInterrupt, Job.loaded, Job.queued, Job.done, bankMaxNbr, kbdEp, uddEpInSent_fill (length_bytes hr),
    uddEpFinishJob_pending, uddEpInSent_over]

theorem uddEpInterrupt_two {b : Packet} :
    uddEpInterrupt ⟨r, false, true, t, .loaded 2, [b], false, true, true⟩ =
      ⟨r, false, false, t, .done 8 8 1, [b], true, false, true⟩ := by
  simp [uddEpInterrupt, Job.loaded, uddEpFinishJob_pending, Job.done, bankMaxNbr, kbdEp, uddEpInSent_over]

theorem uddEpInterrupt_two_valid {b : Packet} (hr : r.keys.length = 6) :
    uddEpInterrupt ⟨r, true, true, t, .loaded 2, [b], false, true, true⟩ =
      ⟨r, false, true, r.bytes, .loaded 2, [b, r.bytes], true, false, true⟩ := by
  simp [uddEpInterrupt, Job.loaded, uddEpFinishJob_pending, Job.queued, bankMaxNbr, kbdEp, uddEpInSent_fill (length_bytes hr)]

theorem uddEpInterrupt_queued (ht : t.length = 8) :
    uddEpInterrupt ⟨r, false, true, t, .queued 1, [], false, true, true⟩ =
      ⟨r, false, false, t, .done 8 8 1, [t], true, false, true⟩ := by
  simp [uddEpInterrupt, Job.queued, bankMaxNbr, kbdEp, uddEpInSent_fill ht, uddEpFinishJob_pending, Job.done, uddEpInSent_over]

/-- The report in the buffer goes to one bank and the one that waited to the other. -/
theorem uddEpInterrupt_queued_valid (hr : r.keys.length = 6) (ht : t.length = 8) :
    uddEpInterrupt ⟨r, true, true, t, .queued 1, [], false, true, true⟩ =
      ⟨r, false, true, r.bytes, .loaded 2, [t, r.bytes], true, false, true⟩ := by
  simp [uddEpInterrupt, Job.queued, Job.loaded, bankMaxNbr, kbdEp, uddEpInSent_fill ht, uddEpInSent_fill (length_bytes hr),
    uddEpFinishJob_pending]

/-! ## A call keeps six keys -/

theorem insertKey_length {key : UInt8} {ks ks' : List UInt8} (h : insertKey key ks = some ks') : ks'.length = ks.length := by
  induction ks generalizing ks' with
  | nil => cases h
  | cons x ks ih =>
    rw [insertKey] at h
    split at h
    · cases h
      rfl
    · split at h
      · cases h
      · obtain ⟨l, hl, rfl⟩ := Option.map_eq_some_iff.1 h
        rw [List.length_cons, List.length_cons, ih hl]

theorem removeKey_length {key : UInt8} {ks ks' : List UInt8} (h : removeKey key ks = some ks') : ks'.length = ks.length := by
  induction ks generalizing ks' with
  | nil => cases h
  | cons x ks ih =>
    rw [removeKey] at h
    split at h
    · cases h
    · split at h
      · cases h
        exact List.length_append
      · obtain ⟨l, hl, rfl⟩ := Option.map_eq_some_iff.1 h
        rw [List.length_cons, List.length_cons, ih hl]

theorem apply_length {c : HidCall} {r' : Report} (h : c.apply r = some r') : r'.keys.length = r.keys.length := by
  cases c with
  | modifierDown id => cases h; rfl
  | modifierUp id => cases h; rfl
  | down key =>
    obtain ⟨ks, hks, rfl⟩ := Option.map_eq_some_iff.1 h
    exact insertKey_length hks
  | up key =>
    obtain ⟨ks, hks, rfl⟩ := Option.map_eq_some_iff.1 h
    exact removeKey_length hks

/-! ## A read and the interrupt -/

/-- What holds of the device in every run. -/
structure Device.Ok (d : Device) : Prop where
  serving : Serving d
  keys : d.report.keys.length = 6

theorem start_ok (d : Device) : (Bus.start d).device.Ok := ⟨.idle, rfl⟩

variable {b : Bus}

/-- The host reads the next report, or there is none to read: the interrupt is due or all was read. -/
theorem token_spec (h : b.device.Ok) :
    (b.token = b ∧ (b.device.txComp = true ∨ b.device.flying = [] ∧ b.device.waiting = none)) ∨
      ∃ x xs, b.device.txComp = false ∧ b.device.flying = x :: xs ∧ b.token.received = b.received ++ [x] ∧ b.token.device.Ok ∧
        b.token.device.report = b.device.report ∧ b.token.device.txComp = true ∧ b.token.device.flying = xs ∧
        b.token.device.waiting = b.device.waiting := by
  obtain ⟨hserving, hkeys⟩ := h
  obtain ⟨d, received⟩ := b
  cases hserving with
  | idle => exact .inl ⟨rfl, .inr ⟨rfl, rfl⟩⟩
  | last front =>
    cases front with
    | none => exact .inl ⟨rfl, .inl rfl⟩
    | some a => exact .inr ⟨a, _, rfl, rfl, rfl, ⟨.last none, hkeys⟩, rfl, rfl, rfl, rfl⟩
  | one front =>
    cases front with
    | none => exact .inl ⟨rfl, .inl rfl⟩
    | some a => exact .inr ⟨a, _, rfl, rfl, rfl, ⟨.one none, hkeys⟩, rfl, rfl, rfl, rfl⟩
  | two front x =>
    cases front with
    | none => exact .inl ⟨rfl, .inl rfl⟩
    | some a => exact .inr ⟨a, _, rfl, rfl, rfl, ⟨.two none x, hkeys⟩, rfl, rfl, rfl, rfl⟩
  | queued front ht =>
    cases front with
    | none => exact .inl ⟨rfl, .inl rfl⟩
    | some a => exact .inr ⟨a, _, rfl, rfl, rfl, ⟨.queued none ht, hkeys⟩, rfl, rfl, rfl, rfl⟩

/-- The interrupt has nothing to do until the host has read a bank. -/
theorem uddEpInterrupt_waits {d : Device} (h : d.txComp = false) : uddEpInterrupt d = d := by
  unfold uddEpInterrupt
  rw [h, Bool.and_false, if_neg Bool.false_ne_true]

/-- After a bank was read, the report that waited joins those that will be read. -/
theorem interrupt_spec {d : Device} (h : d.Ok) (hcomp : d.txComp = true) :
    (uddEpInterrupt d).Ok ∧ (uddEpInterrupt d).report = d.report ∧ (uddEpInterrupt d).txComp = false ∧
      (uddEpInterrupt d).flying = d.flying ++ d.waiting.toList ∧ (uddEpInterrupt d).waiting = none := by
  obtain ⟨hserving, hkeys⟩ := h
  cases hserving with
  | idle => cases hcomp
  | last front =>
    cases front with
    | some a => cases hcomp
    | none =>
      dsimp only [Option.toList_none, Option.isSome_none, Option.isNone_none]
      rw [uddEpInterrupt_last]
      exact ⟨⟨.idle, hkeys⟩, rfl, rfl, rfl, rfl⟩
  | @one r v t front =>
    cases front with
    | some a => cases hcomp
    | none =>
      dsimp only [Option.toList_none, Option.isSome_none, Option.isNone_none]
      cases v with
      | false =>
        rw [uddEpInterrupt_one]
        exact ⟨⟨.idle, hkeys⟩, rfl, rfl, rfl, rfl⟩
      | true =>
        rw [uddEpInterrupt_one_valid hkeys]
        exact ⟨⟨.last (some r.bytes), hkeys⟩, rfl, rfl, rfl, rfl⟩
  | @two r v t front x =>
    cases front with
    | some a => cases hcomp
    | none =>
      dsimp only [Option.toList_none, Option.isSome_none, Option.isNone_none, List.nil_append]
      cases v with
      | false =>
        rw [uddEpInterrupt_two]
        exact ⟨⟨.last (some x), hkeys⟩, rfl, rfl, rfl, rfl⟩
      | true =>
        rw [uddEpInterrupt_two_valid hkeys]
        exact ⟨⟨.two (some x) r.bytes, hkeys⟩, rfl, rfl, rfl, rfl⟩
  | @queued r v t front ht =>
    cases front with
    | some a => cases hcomp
    | none =>
      dsimp only [Option.toList_none, Option.isSome_none, Option.isNone_none]
      cases v with
      | false =>
        rw [uddEpInterrupt_queued ht]
        exact ⟨⟨.last (some t), hkeys⟩, rfl, rfl, rfl, rfl⟩
      | true =>
        rw [uddEpInterrupt_queued_valid hkeys ht]
        exact ⟨⟨.two (some t) r.bytes, hkeys⟩, rfl, rfl, rfl, rfl⟩

end Keynjector.Hid
