import Keynjector.Opgp.Open
/-
# The round trip

A reference encoder for passphrase-encrypted OpenPGP messages, written from the
message format: packet headers in every definite-length form, SKESK packets,
the CFB variant with the repeated prefix bytes and the resynchronised IV, and a
literal packet. `mpgpOpen_roundtrip` is that `mpgp_open` undoes it.
-/

namespace Keynjector.Opgp

open Cast128 Cfb
open Sha1 (sha1)

variable {τ : Tinfl} (fuel : Nat) {k : Nat}

/-! ## Packet headers -/

/-- The ways to write a definite length. -/
inductive LenForm where
  | old1 | old2 | old4 | new1 | new2 | new5
deriving DecidableEq, Repr

/-- Four bytes, most significant first. -/
def be32Bytes (n : Nat) : List UInt8 :=
  [UInt8.ofNat (n / 2 ^ 24), UInt8.ofNat (n / 2 ^ 16), UInt8.ofNat (n / 2 ^ 8), UInt8.ofNat n]

namespace LenForm

/-- Which tags and lengths a form can express. -/
def Fits (tag len : Nat) : LenForm → Prop
  | old1 => tag < 16 ∧ len < 256
  | old2 => tag < 16 ∧ len < 65536
  | old4 => tag < 16 ∧ len < 2 ^ 32
  | new1 => tag < 64 ∧ len < 192
  | new2 => tag < 64 ∧ 192 ≤ len ∧ len < 8384
  | new5 => tag < 64 ∧ len < 2 ^ 32

def encode (tag len : Nat) : LenForm → List UInt8
  | old1 => [UInt8.ofNat (0x80 + 4 * tag), UInt8.ofNat len]
  | old2 => [UInt8.ofNat (0x80 + 4 * tag + 1), UInt8.ofNat (len / 256), UInt8.ofNat len]
  | old4 => UInt8.ofNat (0x80 + 4 * tag + 2) :: be32Bytes len
  | new1 => [UInt8.ofNat (0xC0 + tag), UInt8.ofNat len]
  | new2 => [UInt8.ofNat (0xC0 + tag), UInt8.ofNat ((len - 192) / 256 + 192), UInt8.ofNat (len - 192)]
  | new5 => UInt8.ofNat (0xC0 + tag) :: 255 :: be32Bytes len

end LenForm

theorem LenForm.Fits.lt {f : LenForm} {tag len : Nat} (h : f.Fits tag len) : len < 2 ^ 32 := by
  cases f <;> simp only [LenForm.Fits] at h <;> omega

theorem or_shift {a b i : Nat} (h : b < 2 ^ i) : a <<< i ||| b = a * 2 ^ i + b := by
  rw [← Nat.shiftLeft_add_eq_or_of_lt h, Nat.shiftLeft_eq]

theorem shift_or_shift {a b : Nat} (i : Nat) (h : b < 2 ^ 8) : a <<< (8 + i) ||| b <<< i = (a * 2 ^ 8 + b) <<< i := by
  rw [Nat.shiftLeft_add, ← Nat.shiftLeft_or_distrib, or_shift h]

theorem be32_eq (b0 b1 b2 b3 : UInt8) :
    be32 b0 b1 b2 b3 = ((b0.toNat * 2 ^ 8 + b1.toNat) * 2 ^ 8 + b2.toNat) * 2 ^ 8 + b3.toNat := by
  rw [be32, shift_or_shift 16 b1.toNat_lt, shift_or_shift 8 b2.toNat_lt, or_shift b3.toNat_lt]

theorem be32_bytes {n : Nat} (h : n < 2 ^ 32) :
    be32 (UInt8.ofNat (n / 2 ^ 24)) (UInt8.ofNat (n / 2 ^ 16)) (UInt8.ofNat (n / 2 ^ 8)) (UInt8.ofNat n) = n := by
  simp only [be32_eq, UInt8.toNat_ofNat']
  omega

theorem old_first {tag t : Nat} (h : tag < 16) (ht : t < 4) :
    UInt8.ofNat (0x80 + 4 * tag + t) &&& 0x80 ≠ 0 ∧ UInt8.ofNat (0x80 + 4 * tag + t) &&& 0x40 = 0 ∧
      ((UInt8.ofNat (0x80 + 4 * tag + t) &&& 0x3C) >>> 2).toNat = tag ∧
      UInt8.ofNat (0x80 + 4 * tag + t) &&& 0x3 = UInt8.ofNat t := by
  have key : ∀ tag < 16, ∀ t < 4, UInt8.ofNat (0x80 + 4 * tag + t) &&& 0x80 ≠ 0 ∧
      UInt8.ofNat (0x80 + 4 * tag + t) &&& 0x40 = 0 ∧
      ((UInt8.ofNat (0x80 + 4 * tag + t) &&& 0x3C) >>> 2).toNat = tag ∧
      UInt8.ofNat (0x80 + 4 * tag + t) &&& 0x3 = UInt8.ofNat t := by decide
  exact key tag h t ht

theorem new_first {tag : Nat} (h : tag < 64) :
    UInt8.ofNat (0xC0 + tag) &&& 0x80 ≠ 0 ∧ UInt8.ofNat (0xC0 + tag) &&& 0x40 ≠ 0 ∧
      (UInt8.ofNat (0xC0 + tag) &&& 0x3F).toNat = tag := by
  have key : ∀ tag < 64, UInt8.ofNat (0xC0 + tag) &&& 0x80 ≠ 0 ∧ UInt8.ofNat (0xC0 + tag) &&& 0x40 ≠ 0 ∧
      (UInt8.ofNat (0xC0 + tag) &&& 0x3F).toNat = tag := by decide
  exact key tag h

/-- Where `P s d` says that the data of `s` is `d`, every legal encoding of a header is read back,
and nothing after it. -/
theorem readPacketHeader_encode_of {P : Chain τ k → List UInt8 → Prop}
    (hread : ∀ s a d, P s (a ++ d) → ∃ s', mpgpSread fuel s a.length = (a, s') ∧ P s' d) {s : Chain τ k} {f : LenForm}
    {tag len : Nat} (hf : f.Fits tag len) {rest : List UInt8} (hs : P s (f.encode tag len ++ rest)) (hd : Header) :
    ∃ s', readPacketHeader fuel s hd = (.ok, ⟨tag, len, true⟩, s') ∧ P s' rest := by
  cases f with
  | old1 =>
    obtain ⟨htag, hlen⟩ := hf
    obtain ⟨h80, h40, h3c, h3⟩ := old_first htag (show 0 < 4 by decide)
    obtain ⟨s1, hr1, hs1⟩ := hread s [UInt8.ofNat (0x80 + 4 * tag + 0)]
      ([UInt8.ofNat len] ++ rest) hs
    obtain ⟨s2, hr2, hs2⟩ := hread s1 _ _ hs1
    refine ⟨s2, ?_, hs2⟩
    simp only [List.length_singleton] at hr1 hr2
    simp only [readPacketHeader, hr1, hr2, h80, h40, h3c, h3, if_true, if_false, UInt8.toNat_ofNat']
    simp
    omega
  | old2 =>
    obtain ⟨htag, hlen⟩ := hf
    obtain ⟨h80, h40, h3c, h3⟩ := old_first htag (show 1 < 4 by decide)
    obtain ⟨s1, hr1, hs1⟩ := hread s [UInt8.ofNat (0x80 + 4 * tag + 1)]
      ([UInt8.ofNat (len / 256), UInt8.ofNat len] ++ rest) hs
    obtain ⟨s2, hr2, hs2⟩ := hread s1 _ _ hs1
    refine ⟨s2, ?_, hs2⟩
    have hval : (UInt8.ofNat (len / 256)).toNat <<< 8 ||| (UInt8.ofNat len).toNat = len := by
      rw [or_shift (UInt8.toNat_lt _), UInt8.toNat_ofNat', UInt8.toNat_ofNat']
      omega
    simp only [List.length_cons, List.length_nil] at hr1 hr2
    simp only [readPacketHeader, hr1, hr2, h80, h40, h3c, h3, hval, if_true, if_false]
    rfl
  | old4 =>
    obtain ⟨htag, hlen⟩ := hf
    obtain ⟨h80, h40, h3c, h3⟩ := old_first htag (show 2 < 4 by decide)
    obtain ⟨s1, hr1, hs1⟩ := hread s [UInt8.ofNat (0x80 + 4 * tag + 2)]
      (be32Bytes len ++ rest) hs
    obtain ⟨s2, hr2, hs2⟩ := hread s1 _ _ hs1
    refine ⟨s2, ?_, hs2⟩
    simp only [be32Bytes, List.length_cons, List.length_nil] at hr1 hr2
    simp only [readPacketHeader, hr1, hr2, h80, h40, h3c, h3, be32_bytes hlen, if_true, if_false]
    rfl
  | new1 =>
    obtain ⟨htag, hlen⟩ := hf
    obtain ⟨h80, h40, h3f⟩ := new_first htag
    obtain ⟨s1, hr1, hs1⟩ := hread s [UInt8.ofNat (0xC0 + tag)]
      ([UInt8.ofNat len] ++ rest) hs
    obtain ⟨s2, hr2, hs2⟩ := hread s1 _ _ hs1
    refine ⟨s2, ?_, hs2⟩
    have hlt : UInt8.ofNat len < 192 := by
      rw [UInt8.lt_iff_toNat_lt, UInt8.toNat_ofNat']
      exact Nat.lt_of_le_of_lt (Nat.mod_le _ _) hlen
    simp only [List.length_singleton] at hr1 hr2
    simp only [readPacketHeader, hr1, hr2, h80, h40, h3f, hlt, if_true, if_false, UInt8.toNat_ofNat']
    rw [Nat.mod_eq_of_lt (by omega)]
  | new2 =>
    obtain ⟨htag, hlow, hlen⟩ := hf
    obtain ⟨h80, h40, h3f⟩ := new_first htag
    obtain ⟨s1, hr1, hs1⟩ := hread s [UInt8.ofNat (0xC0 + tag)]
      ([UInt8.ofNat ((len - 192) / 256 + 192)] ++ ([UInt8.ofNat (len - 192)] ++ rest)) hs
    obtain ⟨s2, hr2, hs2⟩ := hread s1 _ _ hs1
    obtain ⟨s3, hr3, hs3⟩ := hread s2 _ _ hs2
    refine ⟨s3, ?_, hs3⟩
    have hb : (UInt8.ofNat ((len - 192) / 256 + 192)).toNat = (len - 192) / 256 + 192 := by
      rw [UInt8.toNat_ofNat']
      omega
    have hge : ¬ UInt8.ofNat ((len - 192) / 256 + 192) < 192 := by
      rw [UInt8.lt_iff_toNat_lt, hb]
      exact Nat.not_lt.2 (Nat.le_add_left _ _)
    have hle : UInt8.ofNat ((len - 192) / 256 + 192) ≤ 223 := by
      rw [UInt8.le_iff_toNat_le, hb]
      show (len - 192) / 256 + 192 ≤ 223
      omega
    have hval : ((UInt8.ofNat ((len - 192) / 256 + 192)).toNat - 192) <<< 8 + (UInt8.ofNat (len - 192)).toNat + 192 =
        len := by
      rw [hb, UInt8.toNat_ofNat', Nat.shiftLeft_eq]
      omega
    simp only [List.length_singleton] at hr1 hr2 hr3
    simp only [readPacketHeader, hr1, hr2, hr3, h80, h40, h3f, hge, hle, hval, if_true, if_false]
  | new5 =>
    obtain ⟨htag, hlen⟩ := hf
    obtain ⟨h80, h40, h3f⟩ := new_first htag
    obtain ⟨s1, hr1, hs1⟩ := hread s [UInt8.ofNat (0xC0 + tag)]
      ([255] ++ (be32Bytes len ++ rest)) hs
    obtain ⟨s2, hr2, hs2⟩ := hread s1 _ _ hs1
    obtain ⟨s3, hr3, hs3⟩ := hread s2 _ _ hs2
    refine ⟨s3, ?_, hs3⟩
    simp only [be32Bytes, List.length_cons, List.length_nil] at hr1 hr2 hr3
    simp only [readPacketHeader, hr1, hr2, hr3, h80, h40, h3f, be32_bytes hlen, if_false]
    rfl

/-- Every legal encoding of a header is read back, and nothing after it. -/
theorem readPacketHeader_encode {s : Chain τ k} (hp : Plain s) {f : LenForm} {tag len : Nat} (hf : f.Fits tag len)
    {rest : List UInt8} (hs : content s = f.encode tag len ++ rest) (hd : Header) :
    ∃ s', readPacketHeader fuel s hd = (.ok, ⟨tag, len, true⟩, s') ∧ content s' = rest ∧ Plain s' :=
  readPacketHeader_encode_of fuel (P := fun s d => content s = d ∧ Plain s)
    (fun _ _ _ h => mpgpSread_append fuel h.2 h.1) hf ⟨hs, hp⟩ hd

/-! ## The reference encoding -/

/-- A packet. -/
def packet (f : LenForm) (tag : Nat) (body : List UInt8) : List UInt8 := f.encode tag body.length ++ body

/-- A version-4 SKESK packet for CAST5 without an encrypted session key. -/
structure Skesk where
  form : LenForm
  spec : Specifier

namespace Skesk

def body (p : Skesk) : List UInt8 := [4, 3] ++ p.spec.bytes

def bytes (p : Skesk) : List UInt8 := packet p.form SKESK_TAG p.body

/-- The header form can express the packet, and the specifier is salted or iterated. -/
structure Legal (p : Skesk) : Prop where
  fits : p.form.Fits SKESK_TAG p.body.length
  salted : p.spec ≠ .simple

/-- The CAST5 key: the first bytes of the digest of the specified octets. -/
def key (p : Skesk) (passphrase : List UInt8) : List UInt8 :=
  (sha1 (p.spec.octets passphrase)).take CAST128_KEY_SIZE

end Skesk

/-- The IV of zeros. -/
def zeroIv : List UInt8 := List.replicate 8 0

/-- CAST5 under a key. -/
def cast5 (key : List UInt8) : List UInt8 → List UInt8 := cast128Encrypt (cast128Init key)

theorem cast5_length (key x : List UInt8) : (cast5 key x).length = 8 := rfl

/-- The ten encrypted bytes in front: eight random ones, the last two repeated. -/
def cfbPrefix (key random : List UInt8) : List UInt8 := Cfb.encrypt (cast5 key) 8 zeroIv (random ++ random.drop 6)

/-- OpenPGP CFB: the data is encrypted from an IV of the last eight bytes of the prefix. -/
def cfbMessage (key random data : List UInt8) : List UInt8 :=
  cfbPrefix key random ++ Cfb.encrypt (cast5 key) 8 ((cfbPrefix key random).drop 2) data

/-- Whether a key decrypts the prefix to one with its last two bytes repeated. -/
def QuickCheck (key pad : List UInt8) : Prop :=
  let p := Cfb.decrypt (cast5 key) 8 zeroIv pad
  p.getD 6 0 = p.getD 8 0 ∧ p.getD 7 0 = p.getD 9 0

/-- The body of a literal packet of type `b`. -/
def literalBody (name date data : List UInt8) : List UInt8 :=
  [0x62, UInt8.ofNat name.length] ++ name ++ date ++ data

/-- A passphrase-encrypted message. -/
structure Message where
  /-- SKESK packets in front of the one for the passphrase, and behind it -/
  before : List Skesk
  skesk : Skesk
  after : List Skesk
  encrForm : LenForm
  random : List UInt8
  litForm : LenForm
  name : List UInt8
  date : List UInt8
  data : List UInt8

namespace Message

variable (m : Message) (passphrase : List UInt8)

def literal : List UInt8 := packet m.litForm LITERAL_TAG (literalBody m.name m.date m.data)

def encrBody : List UInt8 := cfbMessage (m.skesk.key passphrase) m.random m.literal

def bytes : List UInt8 :=
  (m.before ++ m.skesk :: m.after).flatMap Skesk.bytes ++ packet m.encrForm SYM_ENCR_TAG (m.encrBody passphrase)

/-- The sizes a message can have, and that the keys of the other SKESK packets
fail the quick check. -/
structure Legal : Prop where
  skesks : ∀ p ∈ m.before ++ m.skesk :: m.after, p.Legal
  others : ∀ p ∈ m.before ++ m.after, ¬ QuickCheck (p.key passphrase) (cfbPrefix (m.skesk.key passphrase) m.random)
  encrFits : m.encrForm.Fits SYM_ENCR_TAG (m.encrBody passphrase).length
  litFits : m.litForm.Fits LITERAL_TAG (literalBody m.name m.date m.data).length
  random : m.random.length = 8
  name : m.name.length ≤ 255
  date : m.date.length = 4

end Message

/-! ## SKESK packets -/

theorem readSkeskPacket_spec {s : Chain τ k} (hp : Plain s) (p : Skesk) {rest : List UInt8}
    (hs : content s = p.body ++ rest) (keys : List Key) {h : Heap} (hm : h.succeeds h.mallocs = true) :
    ∃ s', readSkeskPacket fuel s keys h =
        (.ok, s', p.spec.key h.mallocs :: keys, { h with mallocs := h.mallocs + 1 }) ∧
      content s' = rest ∧ Plain s' := by
  obtain ⟨s1, hr1, hs1, hp1⟩ := mpgpSread_append fuel hp
    (show content s = [4] ++ ([3] ++ (p.spec.bytes ++ rest)) by rw [hs]; simp [Skesk.body])
  obtain ⟨s2, hr2, hs2, hp2⟩ := mpgpSread_append fuel hp1 hs1
  obtain ⟨s3, hr3, hs3, hp3⟩ := readS2k_spec fuel hp2 p.spec hs2 keys hm
  refine ⟨s3, ?_, hs3, hp3⟩
  simp only [List.length_singleton] at hr1 hr2
  simp only [readSkeskPacket, hr1, hr2, hr3, ne_eq, not_true_eq_false, if_true, if_false]

/-- A record in the key chain made of a packet. -/
def KeyOf (p : Skesk) (key : Key) : Prop := ∃ id, key = p.spec.key id

variable (passphrase : List UInt8) (keys : List Key) {h : Heap}

theorem openR_skesk {s : Chain τ k} (hp : Plain s) {p : Skesk} (hl : p.Legal) {rest : List UInt8}
    (hs : content s = p.bytes ++ rest) (hd : Header) (hm : ∀ i, h.succeeds i = true) (n : Nat) :
    ∃ (s' : Chain τ k) (key : Key) (hd' : Header) (h' : Heap), mpgpOpenR fuel (n + 1) s passphrase keys hd h =
        mpgpOpenR fuel n s' passphrase (key :: keys) hd' h' ∧
      content s' = rest ∧ Plain s' ∧ KeyOf p key ∧ h'.succeeds = h.succeeds := by
  rw [Skesk.bytes, packet, List.append_assoc] at hs
  obtain ⟨s1, hr1, hs1, hp1⟩ := readPacketHeader_encode fuel hp hl.fits hs hd
  obtain ⟨s2, hr2, hs2, hp2⟩ := readSkeskPacket_spec fuel hp1 p hs1 keys (hm h.mallocs)
  refine ⟨s2, p.spec.key h.mallocs, ⟨SKESK_TAG, p.body.length, true⟩, { h with mallocs := h.mallocs + 1 }, ?_,
    hs2, hp2, ⟨_, rfl⟩, rfl⟩
  simp only [mpgpOpenR, hr1, hr2, if_true]

/-- A run of SKESK packets: their keys are in the chain, the last one first. -/
theorem openR_skesks {s : Chain τ k} (hp : Plain s) (ps : List Skesk) (hl : ∀ p ∈ ps, p.Legal) {rest : List UInt8}
    (hs : content s = ps.flatMap Skesk.bytes ++ rest) (hd : Header) (hm : ∀ i, h.succeeds i = true) (n : Nat) :
    ∃ (s' : Chain τ k) (ks : List Key) (hd' : Header) (h' : Heap), mpgpOpenR fuel (n + ps.length) s passphrase keys hd h =
        mpgpOpenR fuel n s' passphrase (ks ++ keys) hd' h' ∧
      content s' = rest ∧ Plain s' ∧ List.Forall₂ KeyOf ps.reverse ks ∧ h'.succeeds = h.succeeds := by
  induction ps generalizing s keys hd h with
  | nil => exact ⟨s, [], hd, h, rfl, hs, hp, .nil, rfl⟩
  | cons p ps ih =>
    rw [List.flatMap_cons, List.append_assoc] at hs
    obtain ⟨s1, key, hd1, h1, hr1, hs1, hp1, hk1, hh1⟩ := openR_skesk fuel passphrase keys hp
      (hl p (List.mem_cons_self ..)) hs hd hm (n + ps.length)
    obtain ⟨s2, ks, hd2, h2, hr2, hs2, hp2, hk2, hh2⟩ := ih (key :: keys) hp1
      (fun q hq => hl q (List.mem_cons_of_mem _ hq)) hs1 hd1 (by rw [hh1]; exact hm)
    refine ⟨s2, ks ++ [key], hd2, h2, ?_, hs2, hp2, ?_, hh2.trans hh1⟩
    · rw [List.length_cons, ← Nat.add_assoc, hr1, hr2, List.append_assoc]
      rfl
    · rw [List.reverse_cons]
      exact List.rel_append hk2 (.cons hk1 .nil)

/-! ## The key -/

variable {passphrase}

theorem wordAt_take (l : List UInt8) {i : Nat} (hi : i + 3 < 16) : wordAt (l.take 16) i = wordAt l i := by
  have hget : ∀ j, j < 16 → (l.take 16).getD j 0 = l.getD j 0 := by
    intro j hj
    simp [List.getD_eq_getElem?_getD, hj]
  simp only [wordAt, hget i (by omega), hget (i + 1) (by omega), hget (i + 2) (by omega), hget (i + 3) (by omega)]

/-- Only the first sixteen bytes of a key matter. -/
theorem cast128Init_take (l : List UInt8) : cast128Init (l.take 16) = cast128Init l := by
  simp only [cast128Init, wordAt_take l (show 0 + 3 < 16 by decide), wordAt_take l (show 4 + 3 < 16 by decide),
    wordAt_take l (show 8 + 3 < 16 by decide), wordAt_take l (show 12 + 3 < 16 by decide)]

/-- Salted and iterated specifiers are met by every passphrase of 100 bytes. -/
theorem met_of_short {p : Skesk} (hs : p.spec ≠ .simple) (hlen : passphrase.length ≤ 100) : p.spec.Met passphrase := by
  cases h : p.spec with
  | simple => exact absurd h hs
  | salted salt =>
    show passphrase.length ≠ 2 ^ 32 - 8
    omega
  | iterated salt c =>
    have := (decodedCount_bounds c).1
    show passphrase.length + 8 ≤ decodedCount c
    omega

theorem computeKey_init {p : Skesk} (hs : p.spec ≠ .simple) (hlen : passphrase.length ≤ 100) {key : Key}
    (hk : KeyOf p key) : cast128Init (computeKey key passphrase).key = cast128Init (p.key passphrase) := by
  obtain ⟨id, rfl⟩ := hk
  have hoct := (hashedOctets_eq_iff p.spec id (by omega)).2 (met_of_short hs hlen)
  rw [computeKey_key (by cases p.spec <;> rfl), hoct]
  exact (cast128Init_take _).symm

/-- The context one turn of the search works with. -/
theorem init_spec (ctx : CfbCtx) (key : List UInt8) : (cast128CfbInit ctx key none).Ok ∧
    (cast128CfbInit ctx key none).ctx = cast128Init key ∧ (cast128CfbInit ctx key none).fr = zeroIv ∧
    (cast128CfbInit ctx key none).n = 8 :=
  ⟨cast128CfbReinit_ok _ (by simp), rfl, rfl, rfl⟩

/-- What the search tests of a key. -/
theorem quickCheck_iff (ctx : CfbCtx) {p : Skesk} (hs : p.spec ≠ .simple) (hlen : passphrase.length ≤ 100) {key : Key}
    (hk : KeyOf p key) (pad : List UInt8) :
    (let padd := (cast128CfbDecrypt (cast128CfbInit ctx (computeKey key passphrase).key none) pad).1
     padd.getD 6 0 = padd.getD 8 0 ∧ padd.getD 7 0 = padd.getD 9 0) ↔ QuickCheck (p.key passphrase) pad := by
  obtain ⟨hok, hctx, hfr, hn⟩ := init_spec ctx (computeKey key passphrase).key
  rw [cast128CfbDecrypt_fresh hok hn, hctx, hfr, computeKey_init hs hlen hk]
  rfl

/-- The search passes over keys that fail and stops at one that passes. -/
theorem checkKeys_find (ctx : CfbCtx) {p : Skesk} {ps : List Skesk} (hps : ∀ q ∈ ps, q.spec ≠ .simple)
    (hp : p.spec ≠ .simple) (hlen : passphrase.length ≤ 100) {ks : List Key} (hks : List.Forall₂ KeyOf ps ks)
    {key : Key} (hk : KeyOf p key) {pad : List UInt8} (hpad : pad.length = 10)
    (hfail : ∀ q ∈ ps, ¬ QuickCheck (q.key passphrase) pad) (hpass : QuickCheck (p.key passphrase) pad) :
    ∃ ctx' keys', checkKeys ctx pad passphrase (ks ++ key :: keys) = (some ctx', keys') ∧ ctx'.Ok ∧
      ctx'.ctx = cast128Init (p.key passphrase) ∧ ctx'.fr = pad.drop 2 ∧ ctx'.n = 8 := by
  induction hks generalizing ctx with
  | nil =>
    obtain ⟨hok, hctx, -, -⟩ := init_spec ctx (computeKey key passphrase).key
    have hdec := cast128CfbDecrypt_spec hok pad
    have hlen8 : (pad.drop 2).length = 8 := by rw [List.length_drop, hpad]
    rw [← quickCheck_iff ctx hp hlen hk] at hpass
    refine ⟨cast128CfbReinit (cast128CfbDecrypt (cast128CfbInit ctx (computeKey key passphrase).key none) pad).2
      (some (pad.drop 2)), computeKey key passphrase :: keys, ?_, ?_, ?_, List.take_of_length_le (Nat.le_of_eq hlen8), rfl⟩
    · simp only [List.nil_append, checkKeys, if_pos hpass]
    · exact cast128CfbReinit_ok _ (by rintro v ⟨⟩; exact hlen8)
    · exact (hdec.key.trans hctx).trans (computeKey_init hp hlen hk)
  | @cons q kq ps ks hq hks ih =>
    have hnot := hfail q (List.mem_cons_self ..)
    rw [← quickCheck_iff ctx (hps q (List.mem_cons_self ..)) hlen hq] at hnot
    obtain ⟨ctx', keys', hrun, hrest⟩ := ih
      (cast128CfbDecrypt (cast128CfbInit ctx (computeKey kq passphrase).key none) pad).2
      (fun r hr => hps r (List.mem_cons_of_mem _ hr)) (fun r hr => hfail r (List.mem_cons_of_mem _ hr))
    refine ⟨ctx', computeKey kq passphrase :: keys', ?_, hrest⟩
    simp only [List.cons_append, checkKeys, if_neg hnot, hrun]

theorem cfbPrefix_length {key random : List UInt8} (hr : random.length = 8) : (cfbPrefix key random).length = 10 := by
  rw [cfbPrefix, Cfb.length_encrypt (cast5_length key) (by decide) _ _ rfl, List.length_append, List.length_drop,
    hr]

theorem cfbMessage_length {key random : List UInt8} (hr : random.length = 8) (data : List UInt8) :
    (cfbMessage key random data).length = 10 + data.length := by
  have hiv : ((cfbPrefix key random).drop 2).length = 8 := by rw [List.length_drop, cfbPrefix_length hr]
  rw [cfbMessage, List.length_append, cfbPrefix_length hr, Cfb.length_encrypt (cast5_length key) (by decide) _ _ hiv]

/-- The key of a message passes its quick check. -/
theorem quickCheck_self (key : List UInt8) {random : List UInt8} (hr : random.length = 8) :
    QuickCheck key (cfbPrefix key random) := by
  have hdec : Cfb.decrypt (cast5 key) 8 zeroIv (cfbPrefix key random) = random ++ random.drop 6 :=
    Cfb.decrypt_encrypt (cast5_length key) (by decide) _ _ rfl
  simp only [QuickCheck, hdec]
  match random, hr with
  | [_, _, _, _, _, _, r6, r7], _ => exact ⟨rfl, rfl⟩

/-! ## The encrypted and the literal packet -/

/-- Opening when a key is found and memory suffices. -/
theorem mpgpEncrSopen_find {s s' : Chain τ k} {pad : List UInt8} {keys keys' : List Key} {ctx : CfbCtx}
    (hread : mpgpSread fuel s 10 = (pad, s')) (hpad : pad.length = 10)
    (hfind : checkKeys heapCtx pad passphrase keys = (some ctx, keys')) (hm : ∀ i, h.succeeds i = true) (length : Nat) :
    mpgpEncrSopen fuel s keys passphrase length h =
      (some ⟨h.mallocs + 1, h.mallocs, ctx, length⟩, s', keys', { h with mallocs := h.mallocs + 1 + 1 }) := by
  simp only [mpgpEncrSopen, hread, hpad, ne_eq, not_true_eq_false, if_false, checkKey, malloc, hm, if_true, hfind]

/-- The layer for an encrypted packet lets through as much as the length from the header says. -/
theorem openR_encr_layer {s s1 : Chain τ k} {hd : Header} {length : Nat} {b : Bool}
    (hhead : readPacketHeader fuel s hd = (.ok, ⟨SYM_ENCR_TAG, length, b⟩, s1)) (hp1 : Plain s1) {p : Skesk}
    {ps : List Skesk} (hps : ∀ q ∈ ps, q.spec ≠ .simple) (hspec : p.spec ≠ .simple) (hlen : passphrase.length ≤ 100)
    {ks : List Key} (hks : List.Forall₂ KeyOf ps ks) {key : Key} (hk : KeyOf p key) {random data : List UInt8}
    (hr : random.length = 8) (hfail : ∀ q ∈ ps, ¬ QuickCheck (q.key passphrase) (cfbPrefix (p.key passphrase) random))
    (hs1 : content s1 = cfbMessage (p.key passphrase) random data) (hm : ∀ i, h.succeeds i = true) :
    ∃ (s' : Chain τ (k + 1)) (keys' : List Key) (h' : Heap), (∀ n, mpgpOpenR fuel (n + 1) s passphrase
        (ks ++ key :: keys) hd h = mpgpOpenR fuel n s' passphrase keys' ⟨0, 0, false⟩ h') ∧
      content s' = data.take length ∧ Plain s' ∧ h'.succeeds = h.succeeds := by
  have hplen : (cfbPrefix (p.key passphrase) random).length = 10 := cfbPrefix_length hr
  obtain ⟨s2, hr2, hs2, hp2⟩ := mpgpSread_append fuel hp1 hs1
  rw [hplen] at hr2
  obtain ⟨ctx, keys', hfind, hok, hctx, hfr, hn⟩ := checkKeys_find keys heapCtx hps hspec hlen hks hk hplen hfail
    (quickCheck_self (p.key passphrase) hr)
  refine ⟨(.encr ⟨h.mallocs + 1, h.mallocs, ctx, length⟩, s2), keys', { h with mallocs := h.mallocs + 1 + 1 }, ?_, ?_,
    ⟨hok, hp2⟩, rfl⟩
  · intro n
    simp only [mpgpOpenR, hhead, mpgpEncrSopen_find fuel hr2 hplen hfind hm, SKESK_TAG, COMPRESSED_TAG, SYM_ENCR_TAG,
      if_true, if_false, Nat.reduceEqDiff]
  · -- the layer decrypts from the last eight bytes of the prefix
    have hiv : ((cfbPrefix (p.key passphrase) random).drop 2).length = 8 := by rw [List.length_drop, hplen]
    have hstate : ctx.state = ⟨(cfbPrefix (p.key passphrase) random).drop 2, ctx.fre, 8⟩ := by
      rw [CfbCtx.state, hfr, hn]
    show (run (decStep ctx.ctx) ctx.state ((content s2).take length)).1 = data.take length
    rw [run_take, hs2, hctx, hstate, decStep, run_dec_eq (cast128Encrypt_length _) (by decide) _ _ _ hiv]
    exact congrArg (List.take length) (Cfb.decrypt_encrypt (cast5_length _) (by decide) _ _ hiv)

theorem openR_encr {s : Chain τ k} (hp : Plain s) {f : LenForm} {p : Skesk} {ps : List Skesk}
    (hps : ∀ q ∈ ps, q.spec ≠ .simple) (hspec : p.spec ≠ .simple) (hlen : passphrase.length ≤ 100) {ks : List Key}
    (hks : List.Forall₂ KeyOf ps ks) {key : Key} (hk : KeyOf p key) {random data : List UInt8} (hr : random.length = 8)
    (hfail : ∀ q ∈ ps, ¬ QuickCheck (q.key passphrase) (cfbPrefix (p.key passphrase) random))
    (hf : f.Fits SYM_ENCR_TAG (cfbMessage (p.key passphrase) random data).length)
    (hs : content s = packet f SYM_ENCR_TAG (cfbMessage (p.key passphrase) random data)) (hd : Header)
    (hm : ∀ i, h.succeeds i = true) (n : Nat) :
    ∃ (s' : Chain τ (k + 1)) (keys' : List Key) (h' : Heap), mpgpOpenR fuel (n + 1) s passphrase
        (ks ++ key :: keys) hd h = mpgpOpenR fuel n s' passphrase keys' ⟨0, 0, false⟩ h' ∧
      content s' = data ∧ Plain s' ∧ h'.succeeds = h.succeeds := by
  obtain ⟨s1, hr1, hs1, hp1⟩ := readPacketHeader_encode fuel hp hf hs hd
  obtain ⟨s', keys', h', hopen, hs', hp', hh'⟩ := openR_encr_layer fuel keys hr1 hp1 hps hspec hlen hks hk hr hfail hs1
    hm
  rw [List.take_of_length_le (by rw [cfbMessage_length hr]; exact Nat.le_add_left _ _)] at hs'
  exact ⟨s', keys', h', hopen n, hs', hp', hh'⟩

theorem skipName_spec {s : Chain τ k} (hp : Plain s) (name : List UInt8) {rest : List UInt8}
    (hs : content s = name ++ rest) :
    ∃ s', skipName fuel name.length s = (true, s') ∧ content s' = rest ∧ Plain s' := by
  induction hn : name.length using Nat.strong_induction_on generalizing s name with
  | _ len ih =>
  subst hn
  by_cases h0 : name.length > 0
  · have hmin : (name.take (min name.length LIT_BUF_SIZE)).length = min name.length LIT_BUF_SIZE := by
      rw [List.length_take]
      omega
    have hsplit : content s = name.take (min name.length LIT_BUF_SIZE) ++
        (name.drop (min name.length LIT_BUF_SIZE) ++ rest) := by
      rw [hs, ← List.append_assoc, List.take_append_drop]
    obtain ⟨s1, hr1, hs1, hp1⟩ := mpgpSread_append fuel hp hsplit
    have hlt : name.length - min name.length LIT_BUF_SIZE < name.length := by
      rw [LIT_BUF_SIZE]
      omega
    obtain ⟨s2, hr2, hs2, hp2⟩ := ih _ hlt hp1 (name.drop (min name.length LIT_BUF_SIZE)) hs1 (List.length_drop ..)
    refine ⟨s2, ?_, hs2, hp2⟩
    rw [hmin] at hr1
    rw [skipName, dif_pos h0]
    simp only [hr1, hmin, hr2, ne_eq, not_true_eq_false, if_false]
  · have hnil : name = [] := List.length_eq_zero_iff.1 (by omega)
    subst hnil
    refine ⟨s, ?_, hs, hp⟩
    rw [skipName, dif_neg h0]

/-- A literal packet ends the loop. -/
theorem openR_lit_layer {s s1 s2 : Chain τ k} {hd : Header} {length : Nat} {b : Bool} {l : LitStream} {h1 : Heap}
    (hr : readPacketHeader fuel s hd = (.ok, ⟨LITERAL_TAG, length, b⟩, s1))
    (hl : mpgpLitSopen fuel s1 length h = (some l, s2, h1)) (n : Nat) :
    mpgpOpenR fuel (n + 1) s passphrase keys hd h = some (some ⟨k + 1, (.lit l, s2)⟩, keys, h1) := by
  simp only [mpgpOpenR, hr, hl, SKESK_TAG, COMPRESSED_TAG, SYM_ENCR_TAG, LITERAL_TAG, if_true, if_false,
    Nat.reduceEqDiff]

theorem openR_literal {s : Chain τ k} (hp : Plain s) {f : LenForm} {name date data : List UInt8}
    (hf : f.Fits LITERAL_TAG (literalBody name date data).length) (hname : name.length ≤ 255) (hdate : date.length = 4)
    (hs : content s = packet f LITERAL_TAG (literalBody name date data)) (hd : Header)
    (hm : ∀ i, h.succeeds i = true) (n : Nat) :
    ∃ (s' : Chain τ (k + 1)) (h' : Heap),
      mpgpOpenR fuel (n + 1) s passphrase keys hd h = some (some ⟨k + 1, s'⟩, keys, h') ∧
      content s' = data ∧ Plain s' ∧ h'.succeeds = h.succeeds := by
  obtain ⟨s1, hr1, hs1, hp1⟩ := readPacketHeader_encode fuel hp hf hs hd
  have hbody : content s1 = [0x62] ++ ([UInt8.ofNat name.length] ++ (name ++ (date ++ data))) := by
    rw [hs1]
    simp [literalBody]
  obtain ⟨s2, hr2, hs2, hp2⟩ := mpgpSread_append fuel hp1 hbody
  obtain ⟨s3, hr3, hs3, hp3⟩ := mpgpSread_append fuel hp2 hs2
  obtain ⟨s4, hr4, hs4, hp4⟩ := skipName_spec fuel hp3 name hs3
  obtain ⟨s5, hr5, hs5, hp5⟩ := mpgpSread_append fuel hp4 hs4
  rw [hdate] at hr5
  simp only [List.length_singleton] at hr2 hr3
  have hname8 : (UInt8.ofNat name.length).toNat = name.length := by
    rw [UInt8.toNat_ofNat']
    omega
  have hbl : (literalBody name date data).length = 6 + name.length + data.length := by
    simp [literalBody, hdate]
    omega
  have hlt := hf.lt
  have hdl : ((literalBody name date data).length + 2 ^ 32 - (6 + name.length)) % 2 ^ 32 = data.length := by
    omega
  refine ⟨(.lit ⟨h.mallocs, data.length⟩, s5), { h with mallocs := h.mallocs + 1 }, ?_, ?_, hp5, rfl⟩
  · refine openR_lit_layer fuel keys hr1 ?_ n
    simp only [mpgpLitSopen, hr2, hr3, hname8, hr4, hr5, hdate, hdl, malloc, hm, ne_eq, not_true_eq_false, if_true,
      if_false]
  · show (content s5).take data.length = data
    rw [hs5, List.take_length]

/-! ## The whole message -/

/-- **The round trip.** On a stream that delivers a reference encoding of `data`
under a passphrase of at most 100 bytes, and when every allocation succeeds,
`mpgp_open` returns a stream (as soon as it may read every packet), and reads of
any sizes from it return `data` piece by piece and then nothing. -/
theorem mpgpOpen_roundtrip (m : Message) (passphrase : List UInt8) (hlen : passphrase.length ≤ 100)
    (hm : m.Legal passphrase) {s : Chain τ k} (hp : Plain s) (hs : content s = m.bytes passphrase) (h : Heap)
    (hmalloc : ∀ i, h.succeeds i = true) (packets : Nat) (hpk : m.before.length + m.after.length + 3 ≤ packets) :
    ∃ (s' : Chain τ (k + 1 + 1)) (h' : Heap),
      mpgpOpen fuel packets s passphrase h = some (some ⟨k + 1 + 1, s'⟩, h') ∧
      ∀ sizes, reads fuel s' sizes = cut m.data sizes ∧ (reads fuel s' sizes).flatten = m.data.take sizes.sum := by
  have hlegal : ∀ p ∈ m.before ++ m.skesk :: m.after, p.Legal := hm.skesks
  have hb : ∀ p ∈ m.before, p.Legal := fun p h => hlegal p (List.mem_append_left _ h)
  have hk : m.skesk.Legal := hlegal _ (List.mem_append_right _ (List.mem_cons_self ..))
  have ha : ∀ p ∈ m.after, p.Legal := fun p h => hlegal p (List.mem_append_right _ (List.mem_cons_of_mem _ h))
  obtain ⟨j, rfl⟩ : ∃ j, packets = j + 1 + 1 + m.after.length + 1 + m.before.length :=
    ⟨packets - (m.before.length + m.after.length + 3), by omega⟩
  rw [Message.bytes, List.flatMap_append, List.flatMap_cons, List.append_assoc, List.append_assoc] at hs
  -- the key chain
  obtain ⟨s1, k1, hd1, h1, hr1, hs1, hp1, hk1, hh1⟩ := openR_skesks fuel passphrase [] hp m.before hb hs ⟨0, 0, false⟩
    hmalloc (j + 1 + 1 + m.after.length + 1)
  obtain ⟨s2, key, hd2, h2, hr2, hs2, hp2, hk2, hh2⟩ := openR_skesk fuel passphrase (k1 ++ []) hp1 hk hs1 hd1
    (by rw [hh1]; exact hmalloc) (j + 1 + 1 + m.after.length)
  obtain ⟨s3, k3, hd3, h3, hr3, hs3, hp3, hk3, hh3⟩ := openR_skesks fuel passphrase (key :: (k1 ++ [])) hp2 m.after ha
    hs2 hd2 (by rw [hh2, hh1]; exact hmalloc) (j + 1 + 1)
  have hm3 : ∀ i, h3.succeeds i = true := by
    rw [hh3, hh2, hh1]
    exact hmalloc
  -- the two layers
  obtain ⟨s4, k4, h4, hr4, hs4, hp4, hh4⟩ := openR_encr fuel (k1 ++ []) hp3
    (fun q hq => (ha q (List.mem_reverse.1 hq)).salted) hk.salted hlen hk3 hk2 hm.random
    (fun q hq => hm.others q (List.mem_append_right _ (List.mem_reverse.1 hq))) hm.encrFits hs3 hd3 hm3 (j + 1)
  obtain ⟨s5, h5, hr5, hs5, hp5, -⟩ := openR_literal fuel k4 hp4 hm.litFits hm.name hm.date hs4 ⟨0, 0, false⟩
    (by rw [hh4]; exact hm3) j
  refine ⟨s5, freeKeys k4 h5, ?_, fun sizes => ?_⟩
  · rw [mpgpOpen, hr1, hr2, hr3, hr4, hr5]
    rfl
  · rw [reads_eq_cut fuel hp5, hs5]
    exact ⟨rfl, flatten_cut ..⟩

/-- A literal packet of two bytes and an empty name. -/
theorem openR_sampleLiteral (keys : List Key) (hd : Header) {h : Heap} (hm : ∀ i, h.succeeds i = true) :
    ∃ (s : Chain noTinfl 1) (h' : Heap), mpgpOpenR 0 1 (fileOf [0xCB, 8, 0x62, 0, 0, 0, 0, 0, 0x68, 0x69]) []
      keys hd h = some (some ⟨1, s⟩, keys, h') ∧ content s = [0x68, 0x69] ∧ Plain s ∧
      h'.succeeds = h.succeeds := by
  have hinner : content (fileOf [0xCB, 8, 0x62, 0, 0, 0, 0, 0, 0x68, 0x69]) =
      packet .new1 LITERAL_TAG (literalBody [] [0, 0, 0, 0] [0x68, 0x69]) := by decide
  have hfits : LenForm.new1.Fits LITERAL_TAG (literalBody [] [0, 0, 0, 0] [0x68, 0x69]).length :=
    ⟨by decide, by decide⟩
  exact openR_literal 0 keys (fileOf_plain _) hfits (by decide) rfl hinner hd hm 0

/-- A salted message with the entry `a` and the value `b`, in old-format packets. -/
def sampleMessage : Message where
  before := []
  skesk := ⟨.old1, .salted ⟨[1, 2, 3, 4, 5, 6, 7, 8], rfl⟩⟩
  after := []
  encrForm := .old2
  random := [9, 8, 7, 6, 5, 4, 3, 2]
  litForm := .new1
  name := [0x6b]
  date := [0, 0, 0, 0]
  data := [0x61, 0x09, 0x62, 0x0a]

theorem mpgpOpen_roundtrip_sample : ∃ (s' : Chain noTinfl 2) (h' : Heap),
    mpgpOpen 0 3 (fileOf (sampleMessage.bytes [0x61, 0x62, 0x63])) [0x61, 0x62, 0x63] goodHeap =
      some (some ⟨2, s'⟩, h') ∧
    reads 0 s' [1, 2, 3, 4] = [[0x61], [0x09, 0x62], [0x0a], []] := by
  have hlegal : sampleMessage.Legal [0x61, 0x62, 0x63] := by
    refine ⟨?_, by simp [sampleMessage], ?_, ⟨by decide, by decide⟩, rfl, by decide, rfl⟩
    · intro p hp
      obtain rfl : p = sampleMessage.skesk := List.mem_singleton.1 hp
      exact ⟨⟨by decide, by decide⟩, by simp [sampleMessage]⟩
    · refine ⟨by decide, ?_⟩
      rw [Message.encrBody, cfbMessage_length rfl]
      decide
  obtain ⟨s', h', hopen, hread⟩ := mpgpOpen_roundtrip 0 sampleMessage [0x61, 0x62, 0x63] (by decide) hlegal
    (fileOf_plain _) rfl goodHeap (fun _ => rfl) 3 (by decide)
  exact ⟨s', h', hopen, (hread [1, 2, 3, 4]).1⟩

end Keynjector.Opgp
