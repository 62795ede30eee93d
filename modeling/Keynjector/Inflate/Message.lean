import Keynjector.Inflate.Packed
import Keynjector.Firmware.KeyFile
import Keynjector.Opgp.Lengths
/-
# Compressed messages (opgp.c:217-396, 640-900, tinfl.c:110-390)

`mpgp_open` on a message whose literal packet is compressed, any number of times over: the
stream it returns is the data of the literal packet.

| here | there |
| --- | --- |
| `Layers`        | compressed packets around a literal packet |
| `PackedMessage` | a passphrase-encrypted message of them |
-/

namespace Keynjector.Inflate

open Opgp

variable {fuel steps k : Nat} {garbage : Decompressor}

/-! ## The packets -/

/-- A compressed packet may leave out its length, which is not read. -/
inductive Layers where
  | lit (form : LenForm) (name date data : List UInt8)
  | packed (form : Option LenForm) (p : Packed) (inside : Layers)

/-- The header of a compressed packet -/
def packedHeader (len : Nat) : Option LenForm → List UInt8
  | none => [UInt8.ofNat (0x80 + 4 * COMPRESSED_TAG + 3)]
  | some f => f.encode COMPRESSED_TAG len

namespace Layers

def bytes : Layers → List UInt8
  | lit form name date data => packet form LITERAL_TAG (literalBody name date data)
  | packed form p _ => packedHeader (p.body.length + 1) form ++ p.algo :: p.body

def data : Layers → List UInt8
  | lit _ _ _ data => data
  | packed _ _ inside => inside.data

def depth : Layers → Nat
  | lit .. => 0
  | packed _ _ inside => inside.depth + 1

/-- Each stream is legal, says the packet inside it, and does not fill the ring before its end. -/
def Legal : Layers → Prop
  | lit form name date data =>
    form.Fits LITERAL_TAG (literalBody name date data).length ∧ name.length ≤ 255 ∧ date.length = 4
  | packed form p inside =>
    (∀ f ∈ form, f.Fits COMPRESSED_TAG (p.body.length + 1)) ∧ p.Legal ∧ p.Checked ∧ p.data = inside.bytes ∧
      FitsRing p.body p.data (coded p.marks) ∧ inside.Legal

/-- The rounds of `z_sread` and the turns of the inflater are enough. -/
def Within (fuel steps : Nat) : Layers → Prop
  | lit .. => True
  | packed _ p inside => p.body.length < fuel ∧ p.cost < steps ∧ inside.Within fuel steps

end Layers

/-! ## Opening -/

section

variable {τ : Tinfl} (passphrase : List UInt8) (keys : List Key) (hd : Header) {h : Heap} {s : Chain τ k}

/-- The header of a compressed packet, whatever form it has -/
theorem readPacketHeader_packed {len : Nat} {form : Option LenForm} {rest : List UInt8}
    (hf : ∀ f ∈ form, f.Fits COMPRESSED_TAG len) (hs : (reader fuel k).Serves s (packedHeader len form ++ rest)) :
    ∃ hd' s', readPacketHeader fuel s hd = (.ok, hd', s') ∧ hd'.tag = COMPRESSED_TAG ∧ (reader fuel k).Serves s' rest := by
  cases form with
  | none =>
    obtain ⟨s', hread, hserves⟩ := hs.append (a := [UInt8.ofNat (0x80 + 4 * COMPRESSED_TAG + 3)])
    have hread : mpgpSread fuel s 1 = ([UInt8.ofNat (0x80 + 4 * COMPRESSED_TAG + 3)], s') := hread
    obtain ⟨h80, h40, h3c, h3⟩ := old_first (show COMPRESSED_TAG < 16 by decide) (show 3 < 4 by decide)
    refine ⟨⟨COMPRESSED_TAG, hd.length, false⟩, s', ?_, rfl, hserves⟩
    simp only [readPacketHeader, hread, h80, h40, h3c, h3, if_true, if_false]
    simp
  | some f =>
    obtain ⟨s', hread, hserves⟩ := readPacketHeader_encode_of fuel (P := (reader fuel k).Serves)
      (fun _ _ _ h => h.append) (hf f rfl) hs hd
    exact ⟨_, s', hread, rfl, hserves⟩

/-- A compressed packet puts its stream on top. -/
theorem openR_packed {body rest out : List UInt8} {coded : Nat → Nat} {At : τ.State → Nat → Nat → Prop} {algo : UInt8}
    (hτ : Inflates τ (zFlags algo) body out coded At) (hfit : FitsRing body out coded) (hfuel : body.length < fuel)
    (halgo : algo = 1 ∨ algo = 2) {len : Nat} {form : Option LenForm} (hf : ∀ f ∈ form, f.Fits COMPRESSED_TAG len)
    (hs : (reader fuel k).Serves s (packedHeader len form ++ algo :: (body ++ rest))) (hm : ∀ i, h.succeeds i = true) :
    ∃ (s' : Chain τ (k + 1)) (h' : Heap), (∀ n, mpgpOpenR fuel (n + 1) s passphrase keys hd h =
        mpgpOpenR fuel n s' passphrase keys ⟨0, 0, false⟩ h') ∧
      (reader fuel (k + 1)).Serves s' out ∧ h'.succeeds = h.succeeds := by
  obtain ⟨hd1, s1, hhead, htag, hs1⟩ := readPacketHeader_packed hd hf hs
  obtain ⟨z, s2, h2, hopen⟩ := mpgpZSopen_some hs1 halgo (hm h.mallocs)
  obtain ⟨hholds, -⟩ := mpgpZSopen_holds hτ hs1 hopen
  have hserves := Pending.serves hτ hfit hfuel (.inr ⟨0, 0, 0, hholds, rfl⟩)
  have hheap : h2.succeeds = h.succeeds := by
    unfold mpgpZSopen malloc at hopen
    split at hopen
    · rw [hm h.mallocs] at hopen
      split at hopen
      · cases hopen
        rfl
      · cases hopen
    · cases hopen
  refine ⟨(.z z, s2), h2, fun n => ?_, hserves, hheap⟩
  have hskesk : COMPRESSED_TAG ≠ SKESK_TAG := by decide
  simp only [mpgpOpenR, hhead, htag, hopen, if_neg hskesk, if_true]

/-- A literal packet is the end, whatever it is read from. -/
theorem openR_lit {form : LenForm} {name date data : List UInt8}
    (hf : form.Fits LITERAL_TAG (literalBody name date data).length) (hname : name.length ≤ 255) (hdate : date.length = 4)
    (hs : (reader fuel k).Serves s (packet form LITERAL_TAG (literalBody name date data))) (hm : ∀ i, h.succeeds i = true) :
    ∃ (s' : Chain τ (k + 1)) (h' : Heap), (∀ n, mpgpOpenR fuel (n + 1) s passphrase keys hd h =
        some (some ⟨k + 1, s'⟩, keys, h')) ∧ (reader fuel (k + 1)).Serves s' data ∧ h'.succeeds = h.succeeds := by
  obtain ⟨s1, hhead, hs1⟩ := readPacketHeader_encode_of fuel (P := (reader fuel k).Serves) (fun _ _ _ h => h.append) hf hs hd
  have hlit : (literalBody name date data).length = 6 + name.length + data.length := by
    simp [literalBody, hdate]
    omega
  have hbytes : (UInt8.ofNat name.length).toNat = name.length := by
    rw [UInt8.toNat_ofNat']
    omega
  have hskip : litHead (literalBody name date data) = 6 + name.length := congrArg (6 + ·) hbytes
  obtain ⟨ms, hopen, hsum⟩ := mpgpLitSopen_opens (L := (literalBody name date data).length) hs1.bytes
    ⟨rfl, by rw [hskip, hlit]; omega, hm h.mallocs⟩
  have hlt := hf.lt
  have hlen : ((literalBody name date data).length + 2 ^ 32 - litHead (literalBody name date data)) % 2 ^ 32 = data.length := by
    rw [hskip]
    omega
  have hafter := Serves.lit (s := ⟨h.mallocs, data.length⟩) (hs1.after ms)
  have hdata : (literalBody name date data).drop (6 + name.length) = data := by
    have hsplit : literalBody name date data = ([0x62, UInt8.ofNat name.length] ++ name ++ date) ++ data := rfl
    rw [hsplit, List.drop_left']
    simp [hdate]
    omega
  rw [hsum, hskip, hdata, List.take_length] at hafter
  rw [hlen] at hopen
  exact ⟨_, _, fun n => openR_lit_layer fuel keys hhead hopen n, hafter, rfl⟩

end

/-- Compressed packets around a literal packet -/
theorem openR_layers (passphrase : List UInt8) (keys : List Key) (L : Layers) (hl : L.Legal) (hw : L.Within fuel steps)
    (hd : Header) {h : Heap} {s : Chain (tinfl steps garbage) k} (hs : (reader fuel k).Serves s L.bytes)
    (hm : ∀ i, h.succeeds i = true) (n : Nat) :
    ∃ (r : Σ k, Chain (tinfl steps garbage) k) (h' : Heap),
      mpgpOpenR fuel (n + L.depth + 1) s passphrase keys hd h = some (some r, keys, h') ∧
        (reader fuel r.1).Serves r.2 L.data ∧ h'.succeeds = h.succeeds := by
  induction L generalizing k hd h with
  | lit form name date data =>
    obtain ⟨hfits, hname, hdate⟩ := hl
    obtain ⟨s', h', hopen, hserves, hheap⟩ := openR_lit passphrase keys hd hfits hname hdate hs hm
    exact ⟨⟨k + 1, s'⟩, h', hopen _, hserves, hheap⟩
  | packed form p inside ih =>
    obtain ⟨hfits, hp, hright, hdata, hring, hinside⟩ := hl
    obtain ⟨hfuel, hcost, hwithin⟩ := hw
    have hs : (reader fuel k).Serves s (packedHeader (p.body.length + 1) form ++ p.algo :: (p.body ++ [])) := by
      rw [List.append_nil]
      exact hs
    have halgo : p.algo = 1 ∨ p.algo = 2 := by
      cases p with
      | deflate => exact .inl rfl
      | zlib => exact .inr rfl
    obtain ⟨s', h', hopen, hserves, hheap⟩ := openR_packed passphrase keys hd
      (hp.inflates hright hcost garbage) hring hfuel halgo hfits hs hm
    rw [hdata] at hserves
    obtain ⟨r, h'', hrun, hr, hheap'⟩ := ih hinside hwithin ⟨0, 0, false⟩ hserves (by rw [hheap]; exact hm)
    exact ⟨r, h'', (hopen (n + inside.depth + 1)).trans hrun, hr, hheap'.trans hheap⟩

/-! ## Messages -/

/-- A passphrase-encrypted message, as in the round trip, of which the literal packet may be compressed -/
structure PackedMessage where
  before : List Skesk
  skesk : Skesk
  after : List Skesk
  encrForm : LenForm
  random : List UInt8
  inside : Layers

namespace PackedMessage

variable (m : PackedMessage) (passphrase : List UInt8)

def encrBody : List UInt8 := cfbMessage (m.skesk.key passphrase) m.random m.inside.bytes

def bytes : List UInt8 :=
  (m.before ++ m.skesk :: m.after).flatMap Skesk.bytes ++ packet m.encrForm SYM_ENCR_TAG (m.encrBody passphrase)

/-- The packets of the message -/
def packets : Nat := m.before.length + m.after.length + m.inside.depth + 3

structure Legal : Prop where
  skesks : ∀ p ∈ m.before ++ m.skesk :: m.after, p.Legal
  others : ∀ p ∈ m.before ++ m.after, ¬ QuickCheck (p.key passphrase) (cfbPrefix (m.skesk.key passphrase) m.random)
  encrFits : m.encrForm.Fits SYM_ENCR_TAG (m.encrBody passphrase).length
  random : m.random.length = 8
  inside : m.inside.Legal

end PackedMessage

theorem freeKeys_succeeds (keys : List Key) (h : Heap) : (freeKeys keys h).succeeds = h.succeeds := by
  unfold freeKeys
  induction keys generalizing h with
  | nil => rfl
  | cons key keys ih => exact ih (free key.id h)

theorem openR_message {m : PackedMessage} {passphrase : List UInt8} (hlen : passphrase.length ≤ 100) (hl : m.Legal passphrase)
    (hw : m.inside.Within fuel steps) {s : Chain (tinfl steps garbage) k} (hp : Plain s) (hs : content s = m.bytes passphrase)
    {h : Heap} (hm : ∀ i, h.succeeds i = true) {packets : Nat} (hpk : m.packets ≤ packets) :
    ∃ (r : Σ k, Chain (tinfl steps garbage) k) (h' : Heap), mpgpOpen fuel packets s passphrase h = some (some r, h') ∧
      (reader fuel r.1).Serves r.2 m.inside.data ∧ h'.succeeds = h.succeeds := by
  have hb : ∀ p ∈ m.before, p.Legal := fun p h => hl.skesks p (List.mem_append_left _ h)
  have hk : m.skesk.Legal := hl.skesks _ (List.mem_append_right _ (List.mem_cons_self ..))
  have ha : ∀ p ∈ m.after, p.Legal := fun p h => hl.skesks p (List.mem_append_right _ (List.mem_cons_of_mem _ h))
  obtain ⟨j, rfl⟩ : ∃ j, packets = j + m.inside.depth + 1 + 1 + m.after.length + 1 + m.before.length := by
    unfold PackedMessage.packets at hpk
    exact ⟨packets - (m.before.length + m.after.length + m.inside.depth + 3), by omega⟩
  rw [PackedMessage.bytes, List.flatMap_append, List.flatMap_cons, List.append_assoc, List.append_assoc] at hs
  -- the key chain
  obtain ⟨s1, k1, hd1, h1, hr1, hs1, hp1, hk1, hh1⟩ := openR_skesks fuel passphrase [] hp m.before hb hs ⟨0, 0, false⟩
    hm (j + m.inside.depth + 1 + 1 + m.after.length + 1)
  obtain ⟨s2, key, hd2, h2, hr2, hs2, hp2, hk2, hh2⟩ := openR_skesk fuel passphrase (k1 ++ []) hp1 hk hs1 hd1
    (by rw [hh1]; exact hm) (j + m.inside.depth + 1 + 1 + m.after.length)
  obtain ⟨s3, k3, hd3, h3, hr3, hs3, hp3, hk3, hh3⟩ := openR_skesks fuel passphrase (key :: (k1 ++ [])) hp2 m.after ha
    hs2 hd2 (by rw [hh2, hh1]; exact hm) (j + m.inside.depth + 1 + 1)
  have hheap3 : h3.succeeds = h.succeeds := hh3.trans (hh2.trans hh1)
  -- the encrypted packet, and the layers in it
  obtain ⟨s4, k4, h4, hr4, hs4, hp4, hh4⟩ := openR_encr fuel (k1 ++ []) hp3
    (fun q hq => (ha q (List.mem_reverse.1 hq)).salted) hk.salted hlen hk3 hk2 hl.random
    (fun q hq => hl.others q (List.mem_append_right _ (List.mem_reverse.1 hq))) hl.encrFits hs3 hd3
    (by rw [hheap3]; exact hm) (j + m.inside.depth + 1)
  have hserves : (reader fuel (k + 1)).Serves s4 m.inside.bytes := hs4 ▸ hp4.serves
  have hheap4 : h4.succeeds = h.succeeds := hh4.trans hheap3
  obtain ⟨r, h5, hr5, hdata, hh5⟩ := openR_layers passphrase k4 m.inside hl.inside hw
    ⟨0, 0, false⟩ hserves (by rw [hheap4]; exact hm) j
  refine ⟨r, freeKeys k4 h5, ?_, hdata, (freeKeys_succeeds k4 h5).trans (hh5.trans hheap4)⟩
  rw [mpgpOpen, hr1, hr2, hr3, hr4, hr5]
  rfl

/-- **Compressed messages.** From the bytes of a message whose literal packet is compressed, any number of times over and by
any encoder, `mpgp_open` returns a stream of its data: reads of any sizes return the data piece by piece, then the end. -/
theorem mpgpOpen_unpacks (m : PackedMessage) (passphrase : List UInt8) (hlen : passphrase.length ≤ 100)
    (hl : m.Legal passphrase) (hw : m.inside.Within fuel steps) (garbage : Decompressor) (h : Heap)
    (hm : ∀ i, h.succeeds i = true) (packets : Nat) (hpk : m.packets ≤ packets) :
    ∃ (k : Nat) (s : Chain (tinfl steps garbage) k) (h' : Heap),
      mpgpOpen fuel packets (k := 0) (⟨m.bytes passphrase, false, false⟩ : Source) passphrase h = some (some ⟨k, s⟩, h') ∧
        ∀ ns, Delivers fuel s m.inside.data ns := by
  have hplain : Plain (τ := tinfl steps garbage) (k := 0) (⟨m.bytes passphrase, false, false⟩ : Source) := ⟨rfl, rfl⟩
  obtain ⟨⟨k, s⟩, h', hopen, hserves, -⟩ := openR_message hlen hl hw hplain rfl hm hpk
  exact ⟨k, s, h', hopen, fun ns => ⟨hserves.bytes ns, hserves.sound ns, hserves.ends ns⟩⟩

/-- A message with the entry `a` and the value `b`, in a zlib stream -/
def samplePackedMessage : PackedMessage where
  before := []
  skesk := sampleMessage.skesk
  after := []
  encrForm := .old2
  random := [9, 8, 7, 6, 5, 4, 3, 2]
  inside := .packed none (.zlib 0x78 0x9C 0 #v[0x10, 0x3F, 0x02, 0x0E] [.fixed [.literal 0xCB, .literal 10, .literal 0x62, .literal 0, .copy 0 0 0 0,
    .literal 0, .literal 0x61, .literal 9, .literal 0x62, .literal 10]]) (.lit .new1 [] [0, 0, 0, 0] [0x61, 0x09, 0x62, 0x0a])

theorem samplePackedMessage_body : ∀ form p inside, samplePackedMessage.inside = .packed form p inside →
    p.body.length = 18 ∧ p.data = inside.bytes ∧ p.data.length = 12 := by
  rintro form p inside heq
  cases heq
  decide +kernel

theorem samplePackedMessage_legal (passphrase : List UInt8) : samplePackedMessage.Legal passphrase := by
  obtain ⟨hbody, hdata, hlength⟩ := samplePackedMessage_body _ _ _ rfl
  refine ⟨fun p hp => ?_, by simp [samplePackedMessage, sampleMessage], ⟨by decide, ?_⟩, rfl, ?_⟩
  · obtain rfl : p = samplePackedMessage.skesk := List.mem_singleton.1 hp
    exact ⟨⟨by decide, by decide⟩, by simp [samplePackedMessage, sampleMessage]⟩
  · rw [PackedMessage.encrBody, cfbMessage_length rfl]
    show 10 + (packedHeader _ none ++ _ :: _).length < 65536
    rw [List.length_append, List.length_cons, hbody]
    decide
  · refine ⟨(by rintro f ⟨⟩), ⟨List.cons_ne_nil _ _, ⟨show Deflate.ValidTokens _ [] _ from by decide +kernel, trivial⟩,
      ⟨by decide, by decide, by decide, by decide⟩⟩, ?_, hdata, .inl ?_, ⟨by decide, by decide⟩, by decide, rfl⟩
    · exact fun _ => by decide
    · rw [hlength]
      decide

theorem samplePackedMessage_within : samplePackedMessage.inside.Within 20 20000 := by
  obtain ⟨hbody, -, hlength⟩ := samplePackedMessage_body _ _ _ rfl
  refine ⟨?_, ?_, trivial⟩
  · rw [hbody]
    decide
  · rw [Packed.cost, hbody, hlength]
    decide

theorem mpgpOpen_unpacks_sample : ∃ (k : Nat) (s : Chain (tinfl 20000 cleared) k) (h' : Heap),
    mpgpOpen 20 4 (k := 0) (⟨samplePackedMessage.bytes [0x61, 0x62, 0x63], false, false⟩ : Source) [0x61, 0x62, 0x63] goodHeap =
        some (some ⟨k, s⟩, h') ∧
      (reader 20 k).got s [1, 2, 3, 4] = [0x61, 0x09, 0x62, 0x0a] := by
  obtain ⟨k, s, h', hopen, hdelivers⟩ := mpgpOpen_unpacks samplePackedMessage [0x61, 0x62, 0x63] (by decide)
    (samplePackedMessage_legal _) samplePackedMessage_within cleared goodHeap (fun _ => rfl) 4 (by decide)
  exact ⟨k, s, h', hopen, (hdelivers [1, 2, 3, 4]).bytes⟩

/-! ## The key file -/

open Firmware.KeyFile (Block KeptWhole bufLen stored)

/-- A list that is shorter than the block is stored whole. -/
theorem stored_kept {plain : List UInt8} (hshort : plain.length < bufLen) (hnul : 0 ∉ plain) (id : Nat) (memory : Nat → UInt8) :
    KeptWhole (stored id memory plain) plain := by
  have htext : Ui.cstr (stored id memory (plain.take bufLen)).bytes = plain.take bufLen := Firmware.KeyFile.stored_text hnul id
  rw [List.take_of_length_le hshort.le] at htext
  obtain ⟨more, hstored⟩ := Firmware.KeyFile.stored_short memory id hshort
  refine ⟨by rw [hstored], ?_, htext, fun es => by rw [htext]⟩
  rw [hstored]
  show (plain ++ 0 :: more)[plain.length]? = some 0
  rw [List.getElem?_append_right (Nat.le_refl _), Nat.sub_self]
  rfl

/-- **Compressed key files.** `decrypt_file` on a compressed message of a list that fits the block puts the list there whole:
its entries are the entries that were compressed and encrypted. -/
theorem decryptFile_unpacks (m : PackedMessage) (passphrase : List UInt8) (hlen : passphrase.length ≤ 100)
    (hl : m.Legal passphrase) (hw : m.inside.Within fuel steps) (hshort : m.inside.data.length < bufLen)
    (hnul : 0 ∉ m.inside.data) (garbage : Decompressor) (h : Heap) (hm : ∀ i, h.succeeds i = true) (packets : Nat)
    (hpk : m.packets ≤ packets) (memory : Nat → UInt8) (items : Option Block) :
    ∃ b h', Firmware.KeyFile.decryptFile (tinfl steps garbage) fuel packets (some ⟨m.bytes passphrase, false, false⟩) passphrase
        memory items h = some (true, some b, h') ∧ KeptWhole b m.inside.data := by
  have hplain : Plain (τ := tinfl steps garbage) (k := 0) (⟨m.bytes passphrase, false, false⟩ : Source) := ⟨rfl, rfl⟩
  obtain ⟨⟨k, s⟩, h1, hopen, hserves, hheap⟩ := openR_message (h := (malloc h).2) hlen hl hw hplain rfl hm hpk
  have hread : (mpgpSread fuel s bufLen).1 = m.inside.data.take bufLen := hserves.bytes.read bufLen
  rw [List.take_of_length_le hshort.le] at hread
  have hbuf : h1.succeeds h1.mallocs = true := by
    rw [hheap]
    exact hm _
  refine ⟨_, _, Firmware.KeyFile.decryptFile_read (hm _) hopen hbuf, ?_⟩
  rw [hread]
  exact stored_kept hshort hnul _ memory

theorem decryptFile_unpacks_sample : ∃ b h',
    Firmware.KeyFile.decryptFile (tinfl 20000 cleared) 20 4
        (some ⟨samplePackedMessage.bytes [0x61, 0x62, 0x63], false, false⟩) [0x61, 0x62, 0x63] (fun _ => 0xff) none goodHeap =
      some (true, some b, h') ∧ Ui.cstr b.bytes = [0x61, 0x09, 0x62, 0x0a] := by
  obtain ⟨b, h', hret, hkept⟩ := decryptFile_unpacks samplePackedMessage [0x61, 0x62, 0x63] (by decide)
    (samplePackedMessage_legal _) samplePackedMessage_within (by decide) (by decide) cleared goodHeap (fun _ => rfl) 4
    (by decide) (fun _ => 0xff) none
  exact ⟨b, h', hret, hkept.text⟩

end Keynjector.Inflate
