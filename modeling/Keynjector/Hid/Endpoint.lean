import Keynjector.Hid.Keyboard
import Keynjector.Lib.Runs
/-
# The keyboard's endpoint (udi_hid_kbd.c:196-381, udp_device.c:709-890, 1290-1567)

A report held by the keyboard goes through the buffer of a transfer and one of the two
banks of the endpoint before the host reads it. A call changes the report at once; when
a transfer is going on the report is marked and sent as the transfer ends.

| here | there |
| --- | --- |
| `Job`                                     | `udd_ep_job_t` (`udp_device.c:316-340`) |
| `Device`                                  | the statics of `udi_hid_kbd.c:94-112`, the job of endpoint 1, its banks and `UDP_CSR` |
| `uddEpWriteFifo`, `uddEpInSent`           | `udd_ep_write_fifo`, `udd_ep_in_sent` (`:1365-1437`) |
| `uddEpRun`, `uddEpFinishJob`              | `udd_ep_run`, `udd_ep_finish_job` (`:832-890`, `:1323-1338`) |
| `uddEpInterrupt`                          | `udd_ep_interrupt` (`:1479-1567`), `TXCOMP` of the one endpoint |
| `udiHidKbdSendReport`, `udiHidKbdReportSent` | `udi_hid_kbd_send_report`, `udi_hid_kbd_report_sent` (`udi_hid_kbd.c:355-381`) |
| `udiHidKbdCall`                           | `udi_hid_kbd_modifier_up`, `_modifier_down`, `_up`, `_down` (`:247-349`) |
| `Bus.start`                               | `udd_ep_job_table_reset`, `udd_ep_alloc`, `udi_hid_kbd_enable` |
| `Event.token`                             | the host asks the endpoint for a packet |

The endpoint stays configured and is not halted. An interrupt is served to its end
before the host asks again.
-/

namespace Keynjector.Hid

abbrev Packet := List UInt8

/-- `udi_hid_kbd_report`; the second byte is never written. -/
def Report.bytes (r : Report) : Packet := r.modifier :: 0 :: r.keys

def Report.ofBytes (p : Packet) : Report := ⟨p.headD 0, p.drop 2⟩

structure Job where
  bufSize : Nat
  bufCnt : Nat
  size : Nat
  /-- The number of filled banks, in two bits. -/
  bank : Fin 4
  busy : Bool
  shortPacket : Bool
  bufEnd : Bool

structure Device where
  report : Report
  valid : Bool
  ongoing : Bool
  /-- `udi_hid_kbd_report_trans`, the buffer of every job. -/
  trans : Packet
  job : Job
  /-- The filled banks, the next to be sent first. -/
  banks : List Packet
  txPktRdy : Bool
  txComp : Bool
  interruptEnabled : Bool

/-- `udd_get_endpoint_bank_max_nbr`. -/
def bankMaxNbr (ep : Nat) : Fin 4 := if ep = 0 ∨ ep = 3 then 1 else 2

/-- `UDI_HID_KBD_EP_IN` without its direction. -/
def kbdEp : Nat := 1

def UDI_HID_KBD_REPORT_SIZE : Nat := 8

def UDI_HID_KBD_EP_SIZE : Nat := 8

/-! ## The driver of the endpoint -/

/-- The second part: was the packet a short one? -/
def uddEpWriteFifo (d : Device) : Device × Bool :=
  let nbRemain := d.job.bufSize - d.job.bufCnt
  let pktSize := if nbRemain < d.job.size then nbRemain else d.job.size
  ({ d with
      banks := d.banks ++ [(d.trans.drop d.job.bufCnt).take pktSize]
      job := { d.job with bufCnt := d.job.bufCnt + pktSize, bank := d.job.bank + 1 } }, nbRemain < d.job.size)

/-- The second part: is data pending? -/
def uddEpInSent (d : Device) (tx : Bool) : Device × Bool :=
  if bankMaxNbr kbdEp ≤ d.job.bank then (d, true)
  else if d.job.bufSize ≤ d.job.bufCnt ∧ d.job.shortPacket = false then (d, false)
  else
    let (d, short) := uddEpWriteFifo d
    let d := if tx then { d with txPktRdy := true } else d
    let d := if short then { d with job := { d.job with shortPacket := false } } else d
    if d.job.bufSize ≤ d.job.bufCnt ∧ d.job.shortPacket = false then ({ d with job := { d.job with bufEnd := true } }, false)
    else (d, true)

def uddEpRun (d : Device) (shortPacket : Bool) (bufSize : Nat) : Device × Bool :=
  if d.job.busy then (d, false)
  else
    let d := { d with
      job := { d.job with
        busy := true
        bufSize
        bufCnt := 0
        shortPacket := shortPacket || bufSize == 0
        bufEnd := false }
      interruptEnabled := true }
    if d.txPktRdy || d.txComp then (d, true) -- the interrupt will fill the banks
    else
      let (d, pending) := uddEpInSent d true
      if pending then ((uddEpInSent d false).1, true) else (d, true)

/-! ## The report -/

def udiHidKbdSendReport (d : Device) : Device × Bool :=
  if d.ongoing then (d, false)
  else
    let (d, run) := uddEpRun { d with trans := d.report.bytes, valid := false } false UDI_HID_KBD_REPORT_SIZE
    ({ d with ongoing := run }, run)

/-- The callback of every job. -/
def udiHidKbdReportSent (d : Device) : Device :=
  let d := { d with ongoing := false }
  if d.valid then (udiHidKbdSendReport d).1 else d

def udiHidKbdCall (d : Device) (c : HidCall) : Device :=
  match c.apply d.report with
  | none => d
  | some r => (udiHidKbdSendReport { d with report := r, valid := true }).1

/-! ## The interrupt -/

def uddEpFinishJob (d : Device) : Device :=
  if d.job.busy then udiHidKbdReportSent { d with job := { d.job with busy := false } } else d

def uddEpInterrupt (d : Device) : Device :=
  if d.interruptEnabled && d.txComp then
    let d := { d with job := { d.job with bank := d.job.bank - 1 } }
    let d := if d.job.bufEnd then uddEpFinishJob { d with job := { d.job with bufEnd := false, bufSize := d.job.bufCnt } } else d
    if d.job.bufSize ≤ d.job.bufCnt ∧ d.job.shortPacket = false ∧ d.job.bank = 0 then
      { d with interruptEnabled := false, txComp := false }
    else if 1 < bankMaxNbr kbdEp ∧ 0 < d.job.bank then
      (uddEpInSent { d with txPktRdy := true, txComp := false } false).1
    else if 1 < bankMaxNbr kbdEp then
      let (d, pending) := uddEpInSent d true
      let d :=
        if pending then d else uddEpFinishJob { d with job := { d.job with bufEnd := false, bufSize := d.job.bufCnt } }
      (uddEpInSent { d with txComp := false } false).1
    else { (uddEpInSent d true).1 with txComp := false }
  else d

/-! ## Runs -/

def uddEpJobTableReset (d : Device) : Device :=
  { d with job := { d.job with bank := 0, busy := false, shortPacket := false, bufEnd := false } }

/-- The banks and the status of the endpoint are reset. -/
def uddEpAlloc (d : Device) (size : Nat) : Device :=
  { d with job := { d.job with size, bank := 0, bufEnd := false }, banks := [], txPktRdy := false, txComp := false }

def udiHidKbdEnable (d : Device) : Device := { d with report := .idle, valid := false, ongoing := false }

inductive Event where
  | call (c : HidCall)
  | token
  | interrupt
deriving DecidableEq

/-- The keyboard and what the host has read from it. -/
structure Bus where
  device : Device
  received : List Packet

/-- The host reads the bank that is ready, if there is one. -/
def Bus.token (b : Bus) : Bus :=
  match b.device.txPktRdy, b.device.banks with
  | true, p :: ps => ⟨{ b.device with banks := ps, txPktRdy := false, txComp := true }, b.received ++ [p]⟩
  | _, _ => b

def Bus.step (b : Bus) : Event → Bus
  | .call c => { b with device := udiHidKbdCall b.device c }
  | .token => b.token
  | .interrupt => { b with device := uddEpInterrupt b.device }

def Bus.run (b : Bus) (es : List Event) : Bus := Runs.run Bus.step b es

/-- The keyboard's memory at power-up. -/
def coldDevice : Device := ⟨.idle, false, false, List.replicate 8 0, ⟨0, 0, 0, 0, false, false, false⟩, [], false, false, false⟩

/-- The keyboard set up by the host, whatever was in memory before. -/
def Bus.start (d : Device) : Bus := ⟨udiHidKbdEnable (uddEpAlloc (uddEpJobTableReset d) UDI_HID_KBD_EP_SIZE), []⟩

def Event.call? : Event → Option HidCall
  | .call c => some c
  | _ => none

/-- The calls of a run. -/
def calls (es : List Event) : List HidCall := es.filterMap Event.call?

end Keynjector.Hid
