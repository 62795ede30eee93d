import Keynjector.Lib.Words
import Keynjector.Opgp.Framing
/-
# The packet header codec (opgp.c:492-560)

| here | there |
| --- | --- |
| `readPacketHeader_yields`  | a legal encoding is read back, on any stream that yields it |
| `readPacketHeader_reads`   | what `read_packet_header` accepted is a legal encoding, on any stream at all |
| `Malformed`                | a first byte without bit 7, a partial length, the front of an encoding |

`reader.got s ns` is what reads of the sizes `ns` return and `reader.after s ns` the stream
they leave, so the header is also all that was read.
-/

namespace Keynjector.Opgp

open Readers Words

variable {τ : Tinfl} {fuel k : Nat}

/-! ## Reading an encoding back -/

theorem readPacketHeader_yields {s : Chain τ k} {f : LenForm} {tag len : Nat} (hf : f.Fits tag len) {rest : List UInt8}
    (hs : (reader fuel k).Yields s (f.encode tag len ++ rest)) (hd : Header) :
    ∃ s', readPacketHeader fuel s hd = (.ok, ⟨tag, len, true⟩, s') ∧ (reader fuel k).Yields s' rest :=
  readPacketHeader_encode_of fuel (P := (reader fuel k).Yields) (fun _ _ _ h => h.append) hf hs hd

/-! ## What is accepted -/

theorem old_byte (b : UInt8) : b &&& 0x80 ≠ 0 → b &&& 0x40 = 0 →
    ((b &&& 0x3C) >>> 2).toNat < 16 ∧ b = UInt8.ofNat (0x80 + 4 * ((b &&& 0x3C) >>> 2).toNat + (b &&& 0x3).toNat) := by
  refine byte_of_toNat (P := fun b => b &&& 0x80 ≠ 0 → b &&& 0x40 = 0 → ((b &&& 0x3C) >>> 2).toNat < 16 ∧
    b = UInt8.ofNat (0x80 + 4 * ((b &&& 0x3C) >>> 2).toNat + (b &&& 0x3).toNat)) ?_ b
  decide +kernel

theorem new_byte (b : UInt8) : b &&& 0x80 ≠ 0 → b &&& 0x40 ≠ 0 →
    (b &&& 0x3F).toNat < 64 ∧ b = UInt8.ofNat (0xC0 + (b &&& 0x3F).toNat) := by
  refine byte_of_toNat (P := fun b => b &&& 0x80 ≠ 0 → b &&& 0x40 ≠ 0 → (b &&& 0x3F).toNat < 64 ∧
    b = UInt8.ofNat (0xC0 + (b &&& 0x3F).toNat)) ?_ b
  decide +kernel

theorem ofNat_eq {n : Nat} {b : UInt8} (h : n % 256 = b.toNat) : UInt8.ofNat n = b := by
  rw [← UInt8.toNat_inj, UInt8.toNat_ofNat', h]

theorem be32Bytes_be32 (b0 b1 b2 b3 : UInt8) : be32Bytes (be32 b0 b1 b2 b3) = [b0, b1, b2, b3] := by
  have h0 := b0.toNat_lt
  have h1 := b1.toNat_lt
  have h2 := b2.toNat_lt
  have h3 := b3.toNat_lt
  rw [be32Bytes, be32_eq, ofNat_eq (b := b0) (by omega), ofNat_eq (b := b1) (by omega), ofNat_eq (b := b2) (by omega),
    ofNat_eq (b := b3) (by omega)]

theorem be32_lt (b0 b1 b2 b3 : UInt8) : be32 b0 b1 b2 b3 < 2 ^ 32 := by
  have h0 := b0.toNat_lt
  have h1 := b1.toNat_lt
  have h2 := b2.toNat_lt
  have h3 := b3.toNat_lt
  rw [be32_eq]
  omega

/-- The reads that took a header: their sizes, the form, and the stream they left. -/
def ReadAs (fuel : Nat) (s : Chain τ k) (tag len : Nat) (s' : Chain τ k) : Prop :=
  ∃ (f : LenForm) (ns : List Nat), f.Fits tag len ∧ (reader fuel k).got s ns = f.encode tag len ∧
    ns.sum = (f.encode tag len).length ∧ (reader fuel k).after s ns = s'

theorem readAs_two {s s1 s2 : Chain τ k} {a c : List UInt8} {n m tag len : Nat} (h1 : mpgpSread fuel s n = (a, s1))
    (h2 : mpgpSread fuel s1 m = (c, s2)) (f : LenForm) (hf : f.Fits tag len) (he : a ++ c = f.encode tag len)
    (hn : n + m = (a ++ c).length) : ReadAs fuel s tag len s2 := by
  have hgot : (reader fuel k).got s [n, m] = a ++ (c ++ []) := by
    simp only [Reader.got, reader, h1, h2]
  have hafter : (reader fuel k).after s [n, m] = s2 := by
    simp only [Reader.after, List.foldl_cons, List.foldl_nil, reader, h1, h2]
  refine ⟨f, [n, m], hf, by rw [hgot, List.append_nil, he], ?_, hafter⟩
  rw [← he, ← hn]
  rfl

theorem readAs_three {s s1 s2 s3 : Chain τ k} {a c e : List UInt8} {n m l tag len : Nat}
    (h1 : mpgpSread fuel s n = (a, s1)) (h2 : mpgpSread fuel s1 m = (c, s2)) (h3 : mpgpSread fuel s2 l = (e, s3))
    (f : LenForm) (hf : f.Fits tag len) (he : a ++ c ++ e = f.encode tag len) (hn : n + m + l = (a ++ c ++ e).length) :
    ReadAs fuel s tag len s3 := by
  have hgot : (reader fuel k).got s [n, m, l] = a ++ (c ++ (e ++ [])) := by
    simp only [Reader.got, reader, h1, h2, h3]
  have hafter : (reader fuel k).after s [n, m, l] = s3 := by
    simp only [Reader.after, List.foldl_cons, List.foldl_nil, reader, h1, h2, h3]
  refine ⟨f, [n, m, l], hf, by rw [hgot, List.append_nil, ← List.append_assoc, he], ?_, hafter⟩
  rw [← he, ← hn]
  simp only [List.sum_cons, List.sum_nil]
  omega

/-- The first byte of what was read, and that bit 7 is set in it. -/
theorem readPacketHeader_first {s s' : Chain τ k} {hd hd' : Header}
    (hok : readPacketHeader fuel s hd = (.ok, hd', s')) :
    ∃ b s1, mpgpSread fuel s 1 = ([b], s1) ∧ b &&& 0x80 ≠ 0 := by
  simp only [readPacketHeader] at hok
  split at hok
  · rename_i b s1 h1
    by_cases h80 : b &&& 0x80 = 0
    · rw [if_pos h80] at hok
      cases hok
    · exact ⟨b, s1, h1, h80⟩
  · cases hok

/-- An accepted header of the old format: a definite length, or none. -/
theorem readPacketHeader_old {s s' s1 : Chain τ k} {hd hd' : Header} {b : UInt8}
    (hok : readPacketHeader fuel s hd = (.ok, hd', s')) (h1 : mpgpSread fuel s 1 = ([b], s1)) (h80 : b &&& 0x80 ≠ 0)
    (h40 : b &&& 0x40 = 0) : (hd'.haveLength = true ∧ ReadAs fuel s hd'.tag hd'.length s') ∨
      hd'.haveLength = false ∧ b &&& 0x3 ≠ 0 ∧ b &&& 0x3 ≠ 1 ∧ b &&& 0x3 ≠ 2 := by
  obtain ⟨htag, hb⟩ := old_byte b h80 h40
  simp only [readPacketHeader, h1] at hok
  rw [if_neg h80, if_pos h40] at hok
  by_cases h3 : b &&& 0x3 = 0
  · rw [if_pos h3] at hok
    split at hok
    swap
    · cases hok
    rename_i b0 s2 h2
    cases hok
    rw [h3] at hb
    refine Or.inl ⟨rfl, readAs_two h1 h2 .old1 ⟨htag, b0.toNat_lt⟩ ?_ rfl⟩
    rw [LenForm.encode, UInt8.ofNat_toNat]
    exact congrArg (· :: [b0]) hb
  by_cases h3' : b &&& 0x3 = 1
  · rw [if_neg h3, if_pos h3'] at hok
    split at hok
    swap
    · cases hok
    rename_i b0 b1 s2 h2
    cases hok
    have hb0 := b0.toNat_lt
    have hb1 := b1.toNat_lt
    rw [h3'] at hb
    refine Or.inl ⟨rfl, readAs_two h1 h2 .old2 ⟨htag, ?_⟩ ?_ rfl⟩
    · simp only [or_shift b1.toNat_lt]
      omega
    · simp only [LenForm.encode, or_shift b1.toNat_lt]
      rw [ofNat_eq (n := _ / 256) (b := b0) (by omega), ofNat_eq (n := _ * 2 ^ 8 + _) (b := b1) (by omega)]
      exact congrArg (· :: [b0, b1]) hb
  by_cases h3'' : b &&& 0x3 = 2
  · rw [if_neg h3, if_neg h3', if_pos h3''] at hok
    split at hok
    swap
    · cases hok
    rename_i b0 b1 b2 b3 s2 h2
    cases hok
    rw [h3''] at hb
    refine Or.inl ⟨rfl, readAs_two h1 h2 .old4 ⟨htag, be32_lt b0 b1 b2 b3⟩ ?_ rfl⟩
    simp only [LenForm.encode, be32Bytes_be32]
    exact congrArg (· :: [b0, b1, b2, b3]) hb
  · rw [if_neg h3, if_neg h3', if_neg h3''] at hok
    cases hok
    exact Or.inr ⟨rfl, h3, h3', h3''⟩

/-- An accepted header of the new format. -/
theorem readPacketHeader_new {s s' s1 : Chain τ k} {hd hd' : Header} {b : UInt8}
    (hok : readPacketHeader fuel s hd = (.ok, hd', s')) (h1 : mpgpSread fuel s 1 = ([b], s1)) (h80 : b &&& 0x80 ≠ 0)
    (h40 : b &&& 0x40 ≠ 0) : hd'.haveLength = true ∧ ReadAs fuel s hd'.tag hd'.length s' := by
  obtain ⟨htag, hb⟩ := new_byte b h80 h40
  simp only [readPacketHeader, h1] at hok
  rw [if_neg h80, if_neg h40] at hok
  split at hok
  swap
  · cases hok
  rename_i b0 s2 h2
  by_cases h192 : b0 < 192
  · rw [if_pos h192] at hok
    cases hok
    refine ⟨rfl, readAs_two h1 h2 .new1 ⟨htag, UInt8.lt_iff_toNat_lt.mp h192⟩ ?_ rfl⟩
    rw [LenForm.encode, UInt8.ofNat_toNat]
    exact congrArg (· :: [b0]) hb
  have hge : 192 ≤ b0.toNat := Nat.le_of_not_lt fun h => h192 (UInt8.lt_iff_toNat_lt.mpr h)
  by_cases h223 : b0 ≤ 223
  · have hle : b0.toNat ≤ 223 := UInt8.le_iff_toNat_le.mp h223
    rw [if_neg h192, if_pos h223] at hok
    split at hok
    swap
    · cases hok
    rename_i b1 s3 h3
    cases hok
    have hb1 := b1.toNat_lt
    have hlen : ((b0.toNat - 192) <<< 8) + b1.toNat + 192 = (b0.toNat - 192) * 256 + b1.toNat + 192 := by
      rw [Nat.shiftLeft_eq]
    refine ⟨rfl, readAs_three h1 h2 h3 .new2 ⟨htag, ?_⟩ ?_ rfl⟩
    · simp only [hlen]
      omega
    · simp only [LenForm.encode, hlen]
      rw [ofNat_eq (n := _ / 256 + 192) (b := b0) (by omega), ofNat_eq (n := _ - 192) (b := b1) (by omega)]
      exact congrArg (· :: [b0, b1]) hb
  · rw [if_neg h192, if_neg h223] at hok
    by_cases h255 : b0 = 255
    · rw [if_pos h255] at hok
      split at hok
      swap
      · cases hok
      rename_i c0 c1 c2 c3 s3 h3
      cases hok
      refine ⟨rfl, readAs_three h1 h2 h3 .new5 ⟨htag, be32_lt c0 c1 c2 c3⟩ ?_ rfl⟩
      simp only [LenForm.encode, be32Bytes_be32, h255]
      exact congrArg (· :: [255, c0, c1, c2, c3]) hb
    · rw [if_neg h255] at hok
      cases hok

/-- Whatever is accepted with a length is a legal encoding. -/
theorem readPacketHeader_reads {s s' : Chain τ k} {hd hd' : Header} (hok : readPacketHeader fuel s hd = (.ok, hd', s'))
    (hlen : hd'.haveLength = true) : ReadAs fuel s hd'.tag hd'.length s' := by
  obtain ⟨b, s1, h1, h80⟩ := readPacketHeader_first hok
  by_cases h40 : b &&& 0x40 = 0
  · rcases readPacketHeader_old hok h1 h80 h40 with ⟨-, h⟩ | ⟨h, -⟩
    · exact h
    · rw [hlen] at h
      cases h
  · exact (readPacketHeader_new hok h1 h80 h40).2

/-! ## What is not -/

/-- Data that does not start with a header: its first byte has no bit 7, its length octet announces
a partial length, or it ends inside an encoding. -/
def Malformed (d : List UInt8) : Prop :=
  (∃ b rest, d = b :: rest ∧ b &&& 0x80 = 0) ∨
  (∃ b b0 rest, d = b :: b0 :: rest ∧ b &&& 0x80 ≠ 0 ∧ b &&& 0x40 ≠ 0 ∧ 224 ≤ b0.toNat ∧ b0.toNat ≤ 254) ∨
  ∃ (f : LenForm) (tag len : Nat), f.Fits tag len ∧ d <+: f.encode tag len ∧ d ≠ f.encode tag len

/-- No encoding starts with the byte of an indeterminate length. -/
theorem encode_first {f : LenForm} {tag len : Nat} (hf : f.Fits tag len) {b : UInt8} {rest : List UInt8}
    (he : f.encode tag len = b :: rest) (h40 : b &&& 0x40 = 0) : b &&& 0x3 = 0 ∨ b &&& 0x3 = 1 ∨ b &&& 0x3 = 2 := by
  cases f <;> simp only [LenForm.Fits] at hf <;> simp only [LenForm.encode, List.cons.injEq] at he <;>
    obtain ⟨rfl, -⟩ := he
  · exact Or.inl (old_first hf.1 (show 0 < 4 by decide)).2.2.2
  · exact Or.inr (Or.inl (old_first hf.1 (show 1 < 4 by decide)).2.2.2)
  · exact Or.inr (Or.inr (old_first hf.1 (show 2 < 4 by decide)).2.2.2)
  · exact absurd h40 (new_first hf.1).2.1
  · exact absurd h40 (new_first hf.1).2.1
  · exact absurd h40 (new_first hf.1).2.1

/-- Of two encodings none is the front of the other. -/
theorem encode_prefix_free {f f' : LenForm} {tag len tag' len' : Nat} (hf : f.Fits tag len) (hf' : f'.Fits tag' len')
    {t : List UInt8} (h : f.encode tag len = f'.encode tag' len' ++ t) : t = [] := by
  have hy : (reader (τ := noTinfl) 0 0).Yields (fileOf (f.encode tag len)) (f.encode tag len) :=
    (fileOf_plain _).serves.bytes
  obtain ⟨s1, hr1, hs1⟩ := readPacketHeader_yields hf (by rwa [List.append_nil]) ⟨0, 0, false⟩
  obtain ⟨s2, hr2, hs2⟩ := readPacketHeader_yields (s := fileOf (f.encode tag len)) hf' (by rwa [← h]) ⟨0, 0, false⟩
  have heq := hr1.symm.trans hr2
  obtain rfl : s1 = s2 := congrArg (fun r => r.2.2) heq
  exact hs2.unique hs1

theorem not_ok_of_malformed {s : Chain τ k} {d : List UInt8} (hs : (reader fuel k).Yields s d) (hm : Malformed d)
    (hd : Header) : (readPacketHeader fuel s hd).1 ≠ .ok := by
  intro herr
  obtain ⟨hd', s', hok⟩ : ∃ hd' s', readPacketHeader fuel s hd = (.ok, hd', s') :=
    ⟨_, _, Prod.ext herr rfl⟩
  obtain ⟨b, s1, h1, h80⟩ := readPacketHeader_first hok
  obtain ⟨d1, rfl, hs1⟩ := yields_read_one hs h1
  rcases hm with ⟨c, rest, he, h0⟩ | ⟨c, b0, rest, he, -, h40, hlow, hhigh⟩ | ⟨f, tag, len, hf, hpre, hne⟩
  · rw [List.cons.injEq] at he
    exact h80 (he.1 ▸ h0)
  · -- the length octet is read, and no branch takes it
    obtain ⟨rfl, rfl⟩ := List.cons.inj he
    have h2 : mpgpSread fuel s1 1 = ([b0], (mpgpSread fuel s1 1).2) := Prod.ext (hs1.read 1) rfl
    have h192 : ¬ b0 < 192 := fun h => absurd (UInt8.lt_iff_toNat_lt.mp h) (Nat.not_lt.mpr (by
      show 192 ≤ b0.toNat
      omega))
    have h223 : ¬ b0 ≤ 223 := fun h => absurd (UInt8.le_iff_toNat_le.mp h) (Nat.not_le.mpr (by
      show 223 < b0.toNat
      omega))
    have h255 : b0 ≠ 255 := by
      rintro rfl
      exact absurd hhigh (by decide)
    simp only [readPacketHeader, h1] at hok
    rw [if_neg h80, if_neg h40, h2] at hok
    simp only [if_neg h192, if_neg h223, if_neg h255] at hok
    cases hok
  · obtain ⟨t, ht⟩ := hpre
    by_cases hlen : hd'.haveLength = true
    · obtain ⟨f', ns, hf', hgot, hsum, -⟩ := readPacketHeader_reads hok hlen
      have hsplit : f'.encode hd'.tag hd'.length ++ (b :: d1).drop ns.sum = b :: d1 := by
        rw [← hgot, hs ns, List.take_append_drop]
      have hnil := encode_prefix_free hf hf' (t := (b :: d1).drop ns.sum ++ t) (by rw [← List.append_assoc, hsplit, ht])
      rw [List.append_eq_nil_iff] at hnil
      rw [hnil.2, List.append_nil] at ht
      exact hne ht
    · by_cases h40 : b &&& 0x40 = 0
      · rcases readPacketHeader_old hok h1 h80 h40 with ⟨h, -⟩ | ⟨-, h3, h3', h3''⟩
        · exact hlen h
        · rcases encode_first hf ht.symm h40 with h | h | h
          · exact h3 h
          · exact h3' h
          · exact h3'' h
      · exact hlen (readPacketHeader_new hok h1 h80 h40).1

/-- **The header codec**: `read_packet_header` reads every legal encoding back and nothing after it;
what it accepts with a length is a legal encoding of the tag and length it reports, and all
that it read; malformed data it does not accept. -/
theorem readPacketHeader_codec (fuel : Nat) (s : Chain τ k) (hd : Header) :
    (∀ (f : LenForm) (tag len : Nat) (rest : List UInt8), f.Fits tag len →
      (reader fuel k).Yields s (f.encode tag len ++ rest) →
      ∃ s', readPacketHeader fuel s hd = (.ok, ⟨tag, len, true⟩, s') ∧ (reader fuel k).Yields s' rest) ∧
    (∀ hd' s', readPacketHeader fuel s hd = (.ok, hd', s') → hd'.haveLength = true →
      ReadAs fuel s hd'.tag hd'.length s') ∧
    ∀ d, (reader fuel k).Yields s d → Malformed d → (readPacketHeader fuel s hd).1 ≠ .ok :=
  ⟨fun _ _ _ _ hf hs => readPacketHeader_yields hf hs hd, fun _ _ hok hlen => readPacketHeader_reads hok hlen,
    fun _ hs hm => not_ok_of_malformed hs hm hd⟩

end Keynjector.Opgp
