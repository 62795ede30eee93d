import Keynjector.Opgp.Serves
import Keynjector.Opgp.RoundTrip
/-
# Where packets end (opgp.c:57-82, 188-214, 564-690)

`mpgp_open_r` knows the length of a packet from its header, but `read_skesk_packet` never
asks for it, and `mpgp_encr_sopen` gives it to its stream with the ten bytes of the prefix
still counted.

| here | there |
| --- | --- |
| `skeskLength`     | how much `read_skesk_packet` reads (opgp.c:612), by the type of the specifier |
| `skesk_framing`   | the next header is read there; this is the end of the packet only if the lengths agree |
| `StopsAt`         | an encrypted stream that is bounded by its packet |
| `encr_stops_iff`  | it is if the reads stop short of its end, or nothing follows it |
-/

namespace Keynjector.Opgp

open Cast128 Cfb Readers

variable {τ : Tinfl} {fuel k : Nat}

/-! ## SKESK packets -/

/-- Version, cipher, and a simple, a salted or an iterated specifier. -/
def skeskLength (body : List UInt8) : Nat :=
  match body.getD 2 0 with
  | 0 => 4
  | 1 => 12
  | _ => 13

/-- A read takes the front of the data. -/
theorem yields_read {s s' : Chain τ k} {d bs : List UInt8} {n : Nat} (h : (reader fuel k).Yields s d)
    (hr : mpgpSread fuel s n = (bs, s')) : ∃ d', d = bs ++ d' ∧ (reader fuel k).Yields s' d' := by
  have hb : (mpgpSread fuel s n).1 = d.take n := h.read n
  have hnext : (reader fuel k).Yields (mpgpSread fuel s n).2 (d.drop n) := h.next n
  rw [hr] at hb hnext
  refine ⟨d.drop n, ?_, hnext⟩
  conv_lhs => rw [← List.take_append_drop n d, ← hb]

theorem yields_read_one {s s' : Chain τ k} {d : List UInt8} {b : UInt8} (h : (reader fuel k).Yields s d)
    (hr : mpgpSread fuel s 1 = ([b], s')) : ∃ d', d = b :: d' ∧ (reader fuel k).Yields s' d' :=
  yields_read h hr

theorem addKey_stream {key : Key} {s s' : Chain τ k} {keys keys' : List Key} {h h' : Heap}
    (hk : addKey key s keys h = (.ok, s', keys', h')) : s' = s := by
  simp only [addKey] at hk
  split at hk <;> cases hk
  rfl

/-- The types `read_s2k` accepts. -/
theorem s2kType_cases {t : UInt8} (h2 : t ≠ 2) (h3 : t ≤ 3) : t = 0 ∨ t = 1 ∨ t = 3 := by
  simp only [← UInt8.toNat_inj, ne_eq, UInt8.le_iff_toNat_le] at h2 h3 ⊢
  have : t.toNat ≤ 3 := h3
  have : t.toNat ≠ 2 := h2
  show t.toNat = 0 ∨ t.toNat = 1 ∨ t.toNat = 3
  omega

/-- What `read_s2k` reads when it accepts a specifier. -/
theorem readS2k_yields {s s' : Chain τ k} {d : List UInt8} (hd : (reader fuel k).Yields s d) {keys keys' : List Key}
    {h h' : Heap} (hok : readS2k fuel s keys h = (.ok, s', keys', h')) :
    ∃ t bs d', d = t :: bs ++ d' ∧ (reader fuel k).Yields s' d' ∧
      bs.length + 3 = skeskLength (4 :: 3 :: t :: bs ++ d') := by
  simp only [readS2k] at hok
  split at hok
  swap
  · cases hok
  rename_i t s1 hr1
  obtain ⟨d1, rfl, hd1⟩ := yields_read_one hd hr1
  by_cases h2 : t = 2
  · rw [if_pos h2] at hok
    cases hok
  by_cases h3 : t ≤ 3
  swap
  · rw [if_neg h2, if_neg h3] at hok
    cases hok
  rw [if_neg h2, if_pos h3] at hok
  split at hok
  swap
  · cases hok
  rename_i algo s2 hr2
  obtain ⟨d2, rfl, hd2⟩ := yields_read_one hd1 hr2
  by_cases ha : algo = 2
  swap
  · rw [if_pos ha] at hok
    cases hok
  rw [if_neg (not_not.2 ha)] at hok
  rcases s2kType_cases h2 h3 with rfl | rfl | rfl
  · rw [if_neg (by decide)] at hok
    obtain rfl := addKey_stream hok
    exact ⟨0, [algo], d2, rfl, hd2, rfl⟩
  all_goals
    rw [if_pos (by decide)] at hok
    by_cases h8 : (mpgpSread fuel s2 8).1.length = 8
    swap
    · rw [if_pos h8] at hok
      cases hok
    rw [if_neg (not_not.2 h8)] at hok
    obtain ⟨d3, rfl, hd3⟩ := yields_read hd2 (show mpgpSread fuel s2 8 = (_, _) from rfl)
  · rw [if_neg (by decide)] at hok
    obtain rfl := addKey_stream hok
    exact ⟨1, algo :: (mpgpSread fuel s2 8).1, d3, rfl, hd3, by simp [h8, skeskLength]⟩
  · rw [if_pos (by decide)] at hok
    split at hok
    swap
    · cases hok
    rename_i c s4 hr4
    obtain ⟨d4, rfl, hd4⟩ := yields_read_one hd3 hr4
    obtain rfl := addKey_stream hok
    exact ⟨3, algo :: (mpgpSread fuel s2 8).1 ++ [c], d4, by simp, hd4, by simp [h8, skeskLength]⟩

/-- What `read_skesk_packet` reads when it accepts a packet. -/
theorem readSkeskPacket_yields {s s' : Chain τ k} {d : List UInt8} (hd : (reader fuel k).Yields s d)
    {keys keys' : List Key} {h h' : Heap} (hok : readSkeskPacket fuel s keys h = (.ok, s', keys', h')) :
    skeskLength d ≤ d.length ∧ (reader fuel k).Yields s' (d.drop (skeskLength d)) := by
  simp only [readSkeskPacket] at hok
  split at hok
  swap
  · cases hok
  rename_i version s1 hr1
  obtain ⟨d1, rfl, hd1⟩ := yields_read_one hd hr1
  by_cases hv : version = 4
  swap
  · rw [if_pos hv] at hok
    cases hok
  rw [if_neg (not_not.2 hv)] at hok
  split at hok
  swap
  · cases hok
  rename_i algo s2 hr2
  obtain ⟨d2, rfl, hd2⟩ := yields_read_one hd1 hr2
  by_cases ha : algo = 3
  swap
  · rw [if_neg ha] at hok
    cases hok
  rw [if_pos ha] at hok
  subst hv ha
  obtain ⟨t, bs, d3, rfl, hd3, hlen⟩ := readS2k_yields hd2 hok
  have hsplit : (4 : UInt8) :: 3 :: (t :: bs ++ d3) = (4 :: 3 :: t :: bs) ++ d3 := rfl
  have hlen : skeskLength (4 :: 3 :: (t :: bs ++ d3)) = (4 :: 3 :: t :: bs).length := hlen.symm
  rw [hlen, hsplit, List.drop_left]
  exact ⟨by simp, hd3⟩

/-- The next packet header is read where the packet's length says. -/
def NextAt (fuel : Nat) (body : List UInt8) (length : Nat) (s : Chain τ k) : Prop :=
  length ≤ body.length ∧ (reader fuel k).Yields s (body.drop length)

/-- **Where the next header is read.** On any stream and in any state of the loop: when
`mpgp_open_r` has read the header of a SKESK packet and goes on after its body, it reads
the next header `skeskLength` bytes on. This is the end of the packet exactly when the
header declares that length. -/
theorem skesk_framing {s s1 s2 : Chain τ k} {hd hd' : Header} (hhead : readPacketHeader fuel s hd = (.ok, hd', s1))
    (htag : hd'.tag = SKESK_TAG) {body : List UInt8} (hbody : (reader fuel k).Yields s1 body) {keys keys' : List Key}
    {h h' : Heap} (hon : readSkeskPacket fuel s1 keys h = (.ok, s2, keys', h')) (packets : Nat)
    (passphrase : List UInt8) :
    mpgpOpenR fuel (packets + 1) s passphrase keys hd h = mpgpOpenR fuel packets s2 passphrase keys' hd' h' ∧
      NextAt fuel body (skeskLength body) s2 ∧ (NextAt fuel body hd'.length s2 ↔ hd'.length = skeskLength body) := by
  have hnext : NextAt fuel body (skeskLength body) s2 := readSkeskPacket_yields hbody hon
  refine ⟨by simp only [mpgpOpenR, hhead, htag, if_true, hon], hnext, ?_⟩
  constructor
  · rintro ⟨hle, hy⟩
    have hlen := congrArg List.length (hy.unique hnext.2)
    have := hnext.1
    rw [List.length_drop, List.length_drop] at hlen
    omega
  · intro heq
    rw [heq]
    exact hnext

/-- A salted packet that ends with its specifier, and the first byte of the next one. -/
theorem skesk_framing_sample : ∃ (s2 : Chain noTinfl 0) (keys : List Key) (h : Heap),
    mpgpOpenR 0 2 (fileOf [0x8C, 12, 4, 3, 1, 2, 1, 2, 3, 4, 5, 6, 7, 8, 0xCB]) [] [] ⟨0, 0, false⟩ goodHeap =
      mpgpOpenR 0 1 s2 [] keys ⟨3, 12, true⟩ h ∧
    NextAt 0 [4, 3, 1, 2, 1, 2, 3, 4, 5, 6, 7, 8, 0xCB] 12 s2 := by
  have hhead : readPacketHeader 0 (fileOf [0x8C, 12, 4, 3, 1, 2, 1, 2, 3, 4, 5, 6, 7, 8, 0xCB]) ⟨0, 0, false⟩ =
      (.ok, ⟨3, 12, true⟩, fileOf [4, 3, 1, 2, 1, 2, 3, 4, 5, 6, 7, 8, 0xCB]) := rfl
  have hon : readSkeskPacket 0 (fileOf [4, 3, 1, 2, 1, 2, 3, 4, 5, 6, 7, 8, 0xCB]) [] goodHeap =
      (.ok, fileOf [0xCB], [(Specifier.salted ⟨[1, 2, 3, 4, 5, 6, 7, 8], rfl⟩).key 0],
        { goodHeap with mallocs := 1 }) := rfl
  obtain ⟨hgo, -, hiff⟩ := skesk_framing hhead rfl (fileOf_plain _).serves.bytes hon 1 []
  exact ⟨_, _, _, hgo, hiff.2 rfl⟩

/-- A packet with the type and specifier of a simple key and ten bytes more, which look
like a literal packet: they are read as one. -/
theorem skesk_body_read_as_header : ∃ (s1 s2 : Chain noTinfl 0) (keys : List Key) (h : Heap) (s3 : Chain noTinfl 1),
    readPacketHeader 0 (fileOf [0x8C, 14, 4, 3, 0, 2, 0xCB, 8, 0x62, 0, 0, 0, 0, 0, 0x68, 0x69]) ⟨0, 0, false⟩ =
      (.ok, ⟨3, 14, true⟩, s1) ∧
    readSkeskPacket 0 s1 [] goodHeap = (.ok, s2, keys, h) ∧
    ¬ NextAt 0 [4, 3, 0, 2, 0xCB, 8, 0x62, 0, 0, 0, 0, 0, 0x68, 0x69] 14 s2 ∧
    (mpgpOpen 0 2 (fileOf [0x8C, 14, 4, 3, 0, 2, 0xCB, 8, 0x62, 0, 0, 0, 0, 0, 0x68, 0x69]) [] goodHeap).map Prod.fst =
      some (some ⟨1, s3⟩) ∧ (mpgpSread 0 s3 5).1 = [0x68, 0x69] := by
  obtain ⟨s3, h3, hopen, hs3, hp3, -⟩ := openR_sampleLiteral [Specifier.simple.key 0] ⟨3, 14, true⟩
    (h := { goodHeap with mallocs := 1 }) fun _ => rfl
  have hgo : mpgpOpenR 0 2 (fileOf [0x8C, 14, 4, 3, 0, 2, 0xCB, 8, 0x62, 0, 0, 0, 0, 0, 0x68, 0x69]) [] [] ⟨0, 0, false⟩
      goodHeap = mpgpOpenR 0 1 (fileOf [0xCB, 8, 0x62, 0, 0, 0, 0, 0, 0x68, 0x69]) [] [Specifier.simple.key 0]
        ⟨3, 14, true⟩ { goodHeap with mallocs := 1 } := rfl
  refine ⟨fileOf [4, 3, 0, 2, 0xCB, 8, 0x62, 0, 0, 0, 0, 0, 0x68, 0x69],
    fileOf [0xCB, 8, 0x62, 0, 0, 0, 0, 0, 0x68, 0x69], [Specifier.simple.key 0], { goodHeap with mallocs := 1 },
    s3, rfl, rfl, ?_, ?_, ?_⟩
  · rintro ⟨-, hy⟩
    cases hy.read 1
  · rw [mpgpOpen, hgo, hopen]
    rfl
  · rw [(mpgpSread_spec 0 hp3 5).bytes, hs3]
    rfl

/-! ## Encrypted packets -/

/-- Which state `check_key` leaves the context in. -/
theorem checkKeys_some {ctx ctx' : CfbCtx} {pad passphrase : List UInt8} {keys keys' : List Key}
    (hpad : pad.length = 10)
    (h : checkKeys ctx pad passphrase keys = (some ctx', keys')) : ctx'.Ok ∧ ctx'.fr = pad.drop 2 ∧ ctx'.n = 8 := by
  induction keys generalizing ctx keys' with
  | nil => cases h
  | cons key keys ih =>
    have hlen : (pad.drop 2).length = 8 := by rw [List.length_drop, hpad]
    simp only [checkKeys] at h
    split_ifs at h with hc
    · cases h
      refine ⟨cast128CfbReinit_ok _ ?_, List.take_of_length_le (Nat.le_of_eq hlen), rfl⟩
      rintro v ⟨⟩
      exact hlen
    · rcases hrec : checkKeys (cast128CfbDecrypt (cast128CfbInit ctx (computeKey key passphrase).key none) pad).2 pad
        passphrase keys with ⟨r, ks⟩
      rw [hrec] at h
      cases h
      exact ih hrec

/-- A stream that `mpgp_encr_sopen` returns. -/
theorem mpgpEncrSopen_some {inner inner' : Chain τ k} {pad d passphrase : List UInt8} (hpad : pad.length = 10)
    (hin : (reader fuel k).Serves inner (pad ++ d)) {keys keys' : List Key} {length : Nat} {h h' : Heap}
    {s : EncrStream}
    (hopen : mpgpEncrSopen fuel inner keys passphrase length h = (some s, inner', keys', h')) :
    (reader fuel k).Serves inner' d ∧ s.len = length ∧ s.ctx.Ok ∧ s.ctx.fr = pad.drop 2 ∧ s.ctx.n = 8 := by
  obtain ⟨inner1, hread, hserves⟩ := hin.append
  have hread : mpgpSread fuel inner 10 = (pad, inner1) := hpad ▸ hread
  simp only [mpgpEncrSopen, hread, hpad, ne_eq, not_true_eq_false, if_false, checkKey] at hopen
  rcases hm : malloc h with ⟨_ | id, h1⟩ <;> rw [hm] at hopen
  · cases hopen
  · rcases hc : checkKeys heapCtx pad passphrase keys with ⟨_ | ctx, ks⟩ <;> simp only [hc] at hopen
    · cases hopen
    · rcases hm2 : malloc h1 with ⟨_ | id2, h2⟩ <;> simp only [hm2] at hopen
      · cases hopen
      · cases hopen
        exact ⟨hserves, rfl, checkKeys_some hpad hc⟩

/-- What the packet decrypts to, from an IV of the last eight bytes of the prefix. -/
def decrypted (s : EncrStream) (pad data : List UInt8) : List UInt8 :=
  Cfb.decrypt (cast128Encrypt s.ctx.ctx) 8 (pad.drop 2) data

/-- The reads `ns` of an encrypted stream keep to its packet, of which `data` is left and
behind which `trailing` follows: they return the decrypted data, nothing behind it is
consumed, and once it is all read the end is reported. -/
structure StopsAt (fuel : Nat) (s : EncrStream) (inner : Chain τ k) (pad data trailing : List UInt8) (ns : List Nat) :
    Prop where
  delivered : (reader fuel (k + 1)).got (.encr s, inner) ns = (decrypted s pad data).take ns.sum
  consumed : ∃ s' inner', (reader fuel (k + 1)).after (.encr s, inner) ns = (.encr s', inner') ∧
    (reader fuel k).Serves inner' ((data ++ trailing).drop (min ns.sum data.length))
  ended : data.length ≤ ns.sum → seof ((reader fuel (k + 1)).after (.encr s, inner) ns) = true

section

variable {inner inner' : Chain τ k} {pad data trailing passphrase : List UInt8} {keys keys' : List Key} {h h' : Heap}
  {s : EncrStream} {ns : List Nat}

theorem decrypted_length (hpad : pad.length = 10) : (decrypted s pad data).length = data.length :=
  length_decrypt (cast128Encrypt_length _) (by decide) _ _ (by rw [List.length_drop, hpad])

/-- What the stream of a packet serves: the packet, and up to ten bytes behind it. -/
theorem encr_serves (hpad : pad.length = 10) (hin : (reader fuel k).Serves inner (pad ++ (data ++ trailing)))
    (hopen : mpgpEncrSopen fuel inner keys passphrase (10 + data.length) h = (some s, inner', keys', h')) :
    (reader fuel (k + 1)).Serves (.encr s, inner') (cast128CfbDecrypt s.ctx ((data ++ trailing).take s.len)).1 ∧
      (cast128CfbDecrypt s.ctx ((data ++ trailing).take s.len)).1.length = data.length + min 10 trailing.length := by
  obtain ⟨hserves, hlen, hok, -, -⟩ := mpgpEncrSopen_some hpad hin hopen
  refine ⟨Serves.encr hok hserves, ?_⟩
  rw [cfb_decoder.length _ hok, List.length_take, List.length_append, hlen]
  omega

/-- With bytes behind the packet, reads of all its data return more, or leave the end unreported. -/
theorem encr_overruns (hpad : pad.length = 10) (hin : (reader fuel k).Serves inner (pad ++ (data ++ trailing)))
    (hopen : mpgpEncrSopen fuel inner keys passphrase (10 + data.length) h = (some s, inner', keys', h'))
    (htr : trailing ≠ []) (hsum : data.length ≤ ns.sum) : ¬ StopsAt fuel s inner' pad data trailing ns := by
  rintro ⟨hdel, -, hended⟩
  obtain ⟨hencr, hlength⟩ := encr_serves hpad hin hopen
  -- the end shows only when the bytes behind the packet are read, too
  have hall := List.drop_eq_nil_iff.1 ((hencr.after ns).bytes.nil_of_stuck (reader_stuck fuel (k + 1)) (.inl (hended hsum)))
  have hcount := congrArg List.length ((hencr.bytes ns).symm.trans hdel)
  have hpos := List.length_pos_iff.2 htr
  rw [List.length_take, List.length_take, decrypted_length hpad] at hcount
  omega

/-- Reads that stop short of the end, or have nothing behind it, keep to the packet. -/
theorem encr_keeps (hpad : pad.length = 10) (hin : (reader fuel k).Serves inner (pad ++ (data ++ trailing)))
    (hopen : mpgpEncrSopen fuel inner keys passphrase (10 + data.length) h = (some s, inner', keys', h'))
    (hcase : ns.sum < data.length ∨ trailing = []) :
    (reader fuel (k + 1)).got (.encr s, inner') ns = (decrypted s pad data).take ns.sum ∧
      ∃ s' inner1, (reader fuel (k + 1)).after (.encr s, inner') ns = (.encr s', inner1) ∧
        (reader fuel k).Serves inner1 ((data ++ trailing).drop (min ns.sum data.length)) := by
  obtain ⟨hserves, hlen, hok, hfr, hn⟩ := mpgpEncrSopen_some hpad hin hopen
  obtain ⟨hencr, -⟩ := encr_serves hpad hin hopen
  have hplain : (cast128CfbDecrypt s.ctx data).1 = decrypted s pad data := by
    rw [cast128CfbDecrypt_fresh hok hn, hfr, decrypted]
  obtain ⟨s', inner1, hafter, hrest⟩ := encr_after (s := s) hserves ns
  refine ⟨?_, s', inner1, hafter, ?_⟩
  · rw [hencr.bytes ns, ← cfb_decoder.take _ hok, List.take_take, hlen, ← hplain, ← cfb_decoder.take _ hok]
    rcases hcase with hlt | rfl
    · rw [Nat.min_eq_left (by omega), List.take_append_of_le_length (Nat.le_of_lt hlt)]
    · rw [List.append_nil, ← List.take_take, List.take_of_length_le (Nat.le_add_left ..)]
  · rcases hcase with hlt | rfl
    · rwa [Nat.min_eq_left (by omega)] at hrest ⊢
    · rw [List.append_nil, hlen] at hrest
      rw [List.append_nil]
      by_cases hle : ns.sum ≤ data.length
      · rwa [Nat.min_eq_left (by omega)] at hrest ⊢
      · rw [List.drop_eq_nil_of_le (by omega)] at hrest ⊢
        exact hrest

/-- With nothing behind the packet, reads of all its data show the end if the stream below does. -/
theorem encr_ended_iff (hpad : pad.length = 10) (hin : (reader fuel k).Serves inner (pad ++ (data ++ [])))
    (hopen : mpgpEncrSopen fuel inner keys passphrase (10 + data.length) h = (some s, inner', keys', h'))
    (hsum : data.length ≤ ns.sum) : seof ((reader fuel (k + 1)).after (.encr s, inner') ns) = true ↔
      seof ((reader fuel k).after inner' ns) = true := by
  obtain ⟨hserves, hlen, -, -, -⟩ := mpgpEncrSopen_some hpad hin hopen
  obtain ⟨hencr, hlength⟩ := encr_serves hpad hin hopen
  by_cases hlt : data.length < ns.sum
  · exact iff_of_true (hencr.ends ns (by rwa [hlength])) (hserves.ends ns (by rwa [List.append_nil]))
  · rw [encr_eof (s := s) (by omega)]

/-- **The end of an encrypted packet.** The stream that is opened on a packet of ten bytes
and `data` keeps to its packet exactly when the reads ask for less than `data`, or nothing
follows the packet and the stream below shows its end. -/
theorem encr_stops_iff (hpad : pad.length = 10) (hin : (reader fuel k).Serves inner (pad ++ (data ++ trailing)))
    (hopen : mpgpEncrSopen fuel inner keys passphrase (10 + data.length) h = (some s, inner', keys', h'))
    (ns : List Nat) : StopsAt fuel s inner' pad data trailing ns ↔
      ns.sum < data.length ∨ trailing = [] ∧ seof ((reader fuel k).after inner' ns) = true := by
  constructor
  · intro hstops
    by_cases hlt : ns.sum < data.length
    · exact .inl hlt
    have hsum := Nat.le_of_not_lt hlt
    obtain rfl : trailing = [] := by
      by_contra htr
      exact encr_overruns hpad hin hopen htr hsum hstops
    exact .inr ⟨rfl, (encr_ended_iff hpad hin hopen hsum).1 (hstops.ended hsum)⟩
  · intro hcase
    obtain ⟨hdelivered, hconsumed⟩ := encr_keeps hpad hin hopen (hcase.imp_right And.left)
    refine ⟨hdelivered, hconsumed, fun hsum => ?_⟩
    obtain ⟨rfl, hend⟩ := hcase.resolve_left (Nat.not_lt.2 hsum)
    exact (encr_ended_iff hpad hin hopen hsum).2 hend

end

/-! A packet of four bytes under the key of the sample message. -/

def sampleKey : List UInt8 := sampleMessage.skesk.key [0x61, 0x62, 0x63]

def samplePad : List UInt8 := cfbPrefix sampleKey sampleMessage.random

def sampleData : List UInt8 := Cfb.encrypt (cast5 sampleKey) 8 (samplePad.drop 2) sampleMessage.data

/-- The stream that is opened on the packet. -/
def sampleOpened (trailing : List UInt8) : Option EncrStream × Chain noTinfl 0 × List Key × Heap :=
  mpgpEncrSopen 0 (fileOf (samplePad ++ (sampleData ++ trailing))) [sampleMessage.skesk.spec.key 0] [0x61, 0x62, 0x63]
    (10 + sampleData.length) goodHeap

theorem samplePad_length : samplePad.length = 10 := cfbPrefix_length rfl

theorem sampleData_length : sampleData.length = 4 :=
  Cfb.length_encrypt (cast5_length _) (by decide) _ _ (by rw [List.length_drop, samplePad_length])

theorem content_fileOf (data : List UInt8) : content (fileOf data) = data := rfl

/-- The key passes the quick check, so the stream opens behind the prefix. -/
theorem sampleOpened_some (trailing : List UInt8) :
    ∃ s inner keys h, sampleOpened trailing = (some s, inner, keys, h) ∧ Plain inner ∧
      content inner = sampleData ++ trailing := by
  obtain ⟨inner, hread, hcontent, hplain⟩ := mpgpSread_append 0 (fileOf_plain _)
    (content_fileOf (samplePad ++ (sampleData ++ trailing)))
  rw [samplePad_length] at hread
  have hpass : QuickCheck sampleKey samplePad := quickCheck_self sampleKey rfl
  obtain ⟨ctx, keys, hfind, -⟩ := checkKeys_find (p := sampleMessage.skesk) [] heapCtx (by simp)
    (by simp [sampleMessage]) (by decide) .nil ⟨0, rfl⟩ samplePad_length (by simp) hpass
  exact ⟨_, _, _, _, mpgpEncrSopen_find 0 hread samplePad_length hfind (fun _ => rfl) _, hplain, hcontent⟩

/-- Reads of one and three bytes are all of the packet, and of the file. -/
theorem encr_stops_iff_sample : ∃ s inner keys h, sampleOpened [] = (some s, inner, keys, h) ∧
    StopsAt 0 s inner samplePad sampleData [] [1, 3] := by
  obtain ⟨s, inner, keys, h, hopen, hplain, hcontent⟩ := sampleOpened_some []
  have hin : (reader 0 0).Serves (fileOf (samplePad ++ (sampleData ++ []))) (samplePad ++ (sampleData ++ [])) :=
    (fileOf_plain _).serves
  have hend : seof ((reader 0 0).after inner [1, 3]) = true := by
    obtain ⟨-, hrest1, hplain1⟩ := mpgpSread_spec 0 hplain 1
    obtain ⟨-, hrest3, hplain3⟩ := mpgpSread_spec 0 hplain1 3
    refine hplain3.eof_of_content (hrest3.trans ?_)
    rw [hrest1, hcontent, List.drop_drop, List.append_nil]
    exact List.drop_eq_nil_of_le (Nat.le_of_eq sampleData_length)
  exact ⟨s, inner, keys, h, hopen, (encr_stops_iff samplePad_length hin hopen [1, 3]).2 (.inr ⟨rfl, hend⟩)⟩

/-- With one byte behind the packet, a read of its four bytes leaves the end unreported, and a read of six decrypts the
fifth, too. -/
theorem encr_overruns_sample : ∃ s inner keys h, sampleOpened [0xff] = (some s, inner, keys, h) ∧
    ¬ StopsAt 0 s inner samplePad sampleData [0xff] [4] ∧ ¬ StopsAt 0 s inner samplePad sampleData [0xff] [6] := by
  obtain ⟨s, inner, keys, h, hopen, -, -⟩ := sampleOpened_some [0xff]
  have hserves : (reader 0 0).Serves (fileOf (samplePad ++ (sampleData ++ [0xff]))) _ := (fileOf_plain _).serves
  have hover : ∀ n, 4 ≤ n → ¬ StopsAt 0 s inner samplePad sampleData [0xff] [n] := fun n hn =>
    encr_overruns samplePad_length hserves hopen (by decide) (by simpa [sampleData_length] using hn)
  exact ⟨s, inner, keys, h, hopen, hover 4 (by decide), hover 6 (by decide)⟩

end Keynjector.Opgp
