import Mathlib.Data.List.Basic
/-
# USB keyboard reports and the host that reads them

| here | there |
| --- | --- |
| `Report`                    | `udi_hid_kbd_report`: the modifier byte and the six key bytes |
| `insertKey`, `removeKey`    | the array loops of `udi_hid_kbd_down` and `udi_hid_kbd_up` (`udi_hid_kbd.c:277-350`) |
| `HidCall.apply`             | `udi_hid_kbd_modifier_down`, `_modifier_up`, `_down`, `_up` (`:247-350`) |
| `Report.text`, `hostText`   | a host with a US layout, from the HID usage tables |

Every report sent reaches the host; `apply` is `none` where the source sends none.
-/

namespace Keynjector.Hid

/-- The calls `send_keys` makes. -/
inductive HidCall where
  | modifierDown (id : UInt8)
  | modifierUp (id : UInt8)
  | down (key : UInt8)
  | up (key : UInt8)
deriving DecidableEq, Repr

structure Report where
  modifier : UInt8
  keys : List UInt8
deriving DecidableEq, Repr

/-- Nothing pressed. -/
def Report.idle : Report := ⟨0, [0, 0, 0, 0, 0, 0]⟩

/-- The key goes to the first free place, unless it is there already or all are taken. -/
def insertKey (key : UInt8) : List UInt8 → Option (List UInt8)
  | [] => none
  | k :: ks => if k = 0 then some (key :: ks) else if k = key then none else (insertKey key ks).map (k :: ·)

/-- The key is taken out and the keys behind it move up. -/
def removeKey (key : UInt8) : List UInt8 → Option (List UInt8)
  | [] => none
  | k :: ks => if k = 0 then none else if k = key then some (ks ++ [0]) else (removeKey key ks).map (k :: ·)

/-- The report sent by a call, if it sends one. -/
def HidCall.apply (r : Report) : HidCall → Option Report
  | .modifierDown id => some { r with modifier := r.modifier ||| id }
  | .modifierUp id => some { r with modifier := r.modifier &&& ~~~id }
  | .down key => (insertKey key r.keys).map fun ks => { r with keys := ks }
  | .up key => (removeKey key r.keys).map fun ks => { r with keys := ks }

/-- The reports sent by a run of calls and the report held at its end. -/
def sent (r : Report) : List HidCall → List Report × Report
  | [] => ([], r)
  | c :: cs =>
    match c.apply r with
    | none => sent r cs
    | some r' => (r' :: (sent r' cs).1, (sent r' cs).2)

/-! ## The host -/

/-- Keyboard usages 4 to 39 on a US keyboard: letters, then the digits from 1 to 0. -/
def usKey (shift : Bool) (usage : UInt8) : Option UInt8 :=
  if 4 ≤ usage ∧ usage ≤ 29 then some ((if shift then 65 else 97) + (usage - 4))
  else if 30 ≤ usage ∧ usage ≤ 39 then
    (if shift then "!@#$%^&*()" else "1234567890").toUTF8.toList[(usage - 30).toNat]?
  else none

/-- What a report types after the report `prev`: the keys that are newly down, in order,
as long as no modifier but the shift keys is held. -/
def Report.text (prev r : Report) : List UInt8 :=
  if r.modifier &&& 0xDD = 0 then
    (r.keys.filter fun k => k ≠ 0 ∧ k ∉ prev.keys).filterMap (usKey (r.modifier ≠ 0))
  else []

/-- The text a host reads from a sequence of reports, `prev` being the one before. -/
def hostText (prev : Report) : List Report → List UInt8
  | [] => []
  | r :: rs => prev.text r ++ hostText r rs

/-! ## Runs that start and end with nothing pressed -/

/-- The calls type `s` and leave nothing pressed. -/
structure Types (calls : List HidCall) (s : List UInt8) : Prop where
  text : hostText .idle (sent .idle calls).1 = s
  released : (sent .idle calls).2 = .idle

instance (calls : List HidCall) (s : List UInt8) : Decidable (Types calls s) :=
  decidable_of_iff (hostText .idle (sent .idle calls).1 = s ∧ (sent .idle calls).2 = .idle)
    ⟨fun h => ⟨h.1, h.2⟩, fun h => ⟨h.text, h.released⟩⟩

theorem sent_append (r : Report) (a b : List HidCall) :
    sent r (a ++ b) = ((sent r a).1 ++ (sent (sent r a).2 b).1, (sent (sent r a).2 b).2) := by
  induction a generalizing r with
  | nil => rfl
  | cons c a ih =>
    simp only [List.cons_append, sent]
    cases c.apply r with
    | none => exact ih r
    | some r' => simp only [ih, List.cons_append]

/-- The report the host has last seen. -/
def lastReport (prev : Report) (rs : List Report) : Report := rs.getLastD prev

theorem hostText_append (prev : Report) (a b : List Report) :
    hostText prev (a ++ b) = hostText prev a ++ hostText (lastReport prev a) b := by
  induction a generalizing prev with
  | nil => rfl
  | cons r a ih =>
    simp only [List.cons_append, hostText, ih, List.append_assoc]
    rw [lastReport, lastReport, List.getLastD_cons]

/-- The host has always seen the report held last. -/
theorem lastReport_sent (r : Report) (calls : List HidCall) : lastReport r (sent r calls).1 = (sent r calls).2 := by
  induction calls generalizing r with
  | nil => rfl
  | cons c calls ih =>
    unfold sent
    cases c.apply r with
    | none => exact ih r
    | some r' => rw [lastReport, List.getLastD_cons]; exact ih r'

theorem types_nil : Types [] [] := ⟨rfl, rfl⟩

/-- **Runs that leave nothing pressed do not interfere.** -/
theorem Types.append {a b : List HidCall} {s t : List UInt8} (ha : Types a s) (hb : Types b t) :
    Types (a ++ b) (s ++ t) := by
  constructor
  · simp only [sent_append, hostText_append, lastReport_sent, ha.released, ha.text, hb.text]
  · simp only [sent_append, ha.released, hb.released]

end Keynjector.Hid
