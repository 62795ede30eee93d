import Mathlib.Logic.Relation
import Keynjector.Opgp.Framing
/-
# What a declared length does (opgp.c:410-490, 501-560, 653-690)

`mpgp_lit_sopen` subtracts the size of its header from the length of the packet without a
test, and a packet header without a length leaves `length` as the packet before it set it.

| here | there |
| --- | --- |
| `litHead`         | type, name length, name and date of a literal packet |
| `LitOpens`        | `mpgp_lit_sopen` can read them and get memory (opgp.c:454) |
| `LitKept`         | a literal stream that keeps to its packet |
| `lit_kept_iff`    | it does unless the packet opens and is shorter than its header |
| `Turn`, `Turns`   | the packets `mpgp_open_r` goes through before (opgp.c:660-683) |
| `openLayer`, `room` | the stream for a data packet, and how much of it the variable `length` lets through |
| `indeterminate_iff` | a packet without a length is served whole if there is room for it |
-/

namespace Keynjector.Opgp

open Cast128 Cfb Readers

variable {τ : Tinfl} {fuel k : Nat}

/-! ## Literal packets -/

/-- The bytes in front of the data of a literal packet that starts with `d`. -/
def litHead (d : List UInt8) : Nat := 6 + (d.getD 1 0).toNat

/-- Binary data with a whole header, and memory for the stream. -/
structure LitOpens (d : List UInt8) (h : Heap) : Prop where
  binary : d.head? = some 0x62
  header : litHead d ≤ d.length
  memory : h.succeeds h.mallocs = true

section

variable {inner inner' : Chain τ k} {d : List UInt8} {L : Nat} {h h' : Heap} {l : LitStream}

theorem skipName_yields (hin : (reader fuel k).Yields inner d) {len : Nat} (hle : len ≤ d.length) :
    ∃ ms, skipName fuel len inner = (true, (reader fuel k).after inner ms) ∧ ms.sum = len := by
  induction len using Nat.strong_induction_on generalizing inner d with
  | _ len ih =>
    by_cases h0 : len > 0
    · have hread : (mpgpSread fuel inner (min len LIT_BUF_SIZE)).1 = d.take (min len LIT_BUF_SIZE) := hin.read _
      have hnext : (reader fuel k).Yields (mpgpSread fuel inner (min len LIT_BUF_SIZE)).2
        (d.drop (min len LIT_BUF_SIZE)) := hin.next _
      have hbuf : LIT_BUF_SIZE = 8 := rfl
      obtain ⟨ms, hms, hsum⟩ := ih (len - min len LIT_BUF_SIZE) (by omega) hnext (by rw [List.length_drop]; omega)
      refine ⟨min len LIT_BUF_SIZE :: ms, ?_, by rw [List.sum_cons]; omega⟩
      rw [skipName, dif_pos h0]
      simp only [hread, List.length_take, Nat.min_eq_left (Nat.le_trans (Nat.min_le_left _ _) hle), ne_eq,
        not_true_eq_false, if_false, hms]
      rfl
    · refine ⟨[], ?_, by rw [List.sum_nil]; omega⟩
      rw [skipName, dif_neg h0]
      rfl

/-- A name that is skipped is there. -/
theorem skipName_le (hin : (reader fuel k).Yields inner d) {len : Nat}
    (hskip : skipName fuel len inner = (true, inner')) :
    len ≤ d.length ∧ (reader fuel k).Yields inner' (d.drop len) := by
  induction len using Nat.strong_induction_on generalizing inner d with
  | _ len ih =>
    rw [skipName] at hskip
    by_cases h0 : len > 0
    · have hread : (mpgpSread fuel inner (min len LIT_BUF_SIZE)).1 = d.take (min len LIT_BUF_SIZE) := hin.read _
      have hnext : (reader fuel k).Yields (mpgpSread fuel inner (min len LIT_BUF_SIZE)).2
        (d.drop (min len LIT_BUF_SIZE)) := hin.next _
      have hbuf : LIT_BUF_SIZE = 8 := rfl
      rw [dif_pos h0] at hskip
      simp only [hread, List.length_take] at hskip
      by_cases hn : min (min len LIT_BUF_SIZE) d.length = min len LIT_BUF_SIZE
      · rw [if_neg (not_not.2 hn)] at hskip
        obtain ⟨hle, hy⟩ := ih _ (by omega) hnext hskip
        rw [List.length_drop] at hle
        rw [List.drop_drop, Nat.add_sub_cancel' (Nat.min_le_left _ _)] at hy
        exact ⟨by omega, hy⟩
      · rw [if_pos hn] at hskip
        cases hskip
    · rw [dif_neg h0] at hskip
      cases hskip
      obtain rfl : len = 0 := by omega
      exact ⟨Nat.zero_le _, hin⟩

/-- The stream of a packet that opens, and how far its header has been read. -/
theorem mpgpLitSopen_opens (hin : (reader fuel k).Yields inner d) (ho : LitOpens d h) :
    ∃ ms, mpgpLitSopen fuel inner L h = (some ⟨h.mallocs, (L + 2 ^ 32 - litHead d) % 2 ^ 32⟩,
      (reader fuel k).after inner ms, { h with mallocs := h.mallocs + 1 }) ∧ ms.sum = litHead d := by
  obtain ⟨hb, hlen, hm⟩ := ho
  obtain ⟨n, rest, rfl⟩ : ∃ n rest, d = 0x62 :: n :: rest := by
    rcases d with _ | ⟨b, _ | ⟨n, rest⟩⟩
    · cases hb
    · simp [litHead] at hlen
    · exact ⟨n, rest, by rw [Option.some.inj hb]⟩
  have hhead : litHead (0x62 :: n :: rest) = 6 + n.toNat := rfl
  rw [hhead] at hlen ⊢
  simp only [List.length_cons] at hlen
  obtain ⟨s1, hr1, hy1⟩ := Reader.Yields.append (a := [0x62]) hin
  obtain ⟨s2, hr2, hy2⟩ := Reader.Yields.append (a := [n]) hy1
  obtain ⟨ms, hskip, hsum⟩ := skipName_yields hy2 (show n.toNat ≤ rest.length by omega)
  have hy3 := hy2.after ms
  have hdate : ((mpgpSread fuel ((reader fuel k).after s2 ms) 4).1).length = 4 := by
    have hread : (mpgpSread fuel ((reader fuel k).after s2 ms) 4).1 = _ := hy3.read 4
    rw [hread, List.length_take, List.length_drop, hsum]
    omega
  have hr1 : mpgpSread fuel inner 1 = ([0x62], s1) := hr1
  have hr2 : mpgpSread fuel s1 1 = ([n], s2) := hr2
  refine ⟨1 :: 1 :: (ms ++ [4]), ?_, by simp [hsum]; omega⟩
  have hafter : (reader fuel k).after inner (1 :: 1 :: (ms ++ [4])) =
      (mpgpSread fuel ((reader fuel k).after s2 ms) 4).2 := by
    simp only [Reader.after, List.foldl_cons, List.foldl_append, List.foldl_nil, reader, hr1, hr2]
  rw [hafter]
  simp only [mpgpLitSopen, hr1, hr2, hskip, hdate, malloc, hm, ne_eq, not_true_eq_false, if_false, if_true]

theorem mpgpLitSopen_some (hin : (reader fuel k).Yields inner d)
    (hopen : mpgpLitSopen fuel inner L h = (some l, inner', h')) : LitOpens d h := by
  unfold mpgpLitSopen at hopen
  split at hopen
  swap
  · cases hopen
  rename_i type s1 hr1
  obtain ⟨d1, rfl, hy1⟩ := yields_read_one hin hr1
  by_cases hb : type = 0x62
  swap
  · rw [if_pos hb] at hopen
    cases hopen
  rw [if_neg (not_not.2 hb)] at hopen
  split at hopen
  swap
  · cases hopen
  rename_i len s2 hr2
  obtain ⟨d2, rfl, hy2⟩ := yields_read_one hy1 hr2
  dsimp only at hopen
  split at hopen
  · cases hopen
  rename_i s3 hskip
  obtain ⟨hle, hy3⟩ := skipName_le hy2 hskip
  by_cases h4 : (mpgpSread fuel s3 4).1.length = 4
  swap
  · rw [if_pos h4] at hopen
    cases hopen
  rw [if_neg (not_not.2 h4)] at hopen
  have hread : (mpgpSread fuel s3 4).1 = (d2.drop len.toNat).take 4 := hy3.read 4
  rw [hread, List.length_take, List.length_drop] at h4
  refine ⟨by rw [hb]; rfl, ?_, ?_⟩
  · show 6 + len.toNat ≤ (type :: len :: d2).length
    simp only [List.length_cons]
    omega
  · by_contra hm
    rw [malloc, if_neg hm] at hopen
    cases hopen

/-- The reads of a literal stream come to `ms` reads of its input, of its length at most. -/
theorem lit_after_reads (l : LitStream) (inner : Chain τ k) (ns : List Nat) :
    ∃ l' ms, (reader fuel (k + 1)).after (.lit l, inner) ns = (.lit l', (reader fuel k).after inner ms) ∧
      ms.sum ≤ l.len := by
  have hafter : (reader fuel (k + 1)).after (.lit l, inner) ns = _ := (lit_hom l.id).after (l.len, (), inner) ns
  have hwindow : ∃ ms, ((Reader.window litCode (reader fuel k)).after (l.len, (), inner) ns).2.2 =
      (reader fuel k).after inner ms ∧ ms.sum ≤ l.len := Reader.window_after_reads ns
  obtain ⟨ms, hms, hsum⟩ := hwindow
  exact ⟨_, ms, by rw [hafter, hms], hsum⟩

theorem Yields.lit {l : LitStream} (h : (reader fuel k).Yields inner d) :
    (reader fuel (k + 1)).Yields (.lit l, inner) (d.take l.len) := by
  intro ns
  have hgot : (reader fuel (k + 1)).got (.lit l, inner) ns = _ := (lit_hom l.id).got (l.len, (), inner) ns
  rw [hgot]
  exact Reader.Yields.window litCode_decoder (reader_stuck fuel k) trivial h ns

/-- A literal packet of `L` bytes, on an input that yields `d` from the packet's body on: it is
rejected when its header alone is longer; a stream that is opened takes no more than `L` bytes
from the input, the header included, and delivers the rest of the `L` bytes. -/
structure LitKept (fuel : Nat) (inner : Chain τ k) (d : List UInt8) (L : Nat) (h : Heap) : Prop where
  rejects : L < litHead d → (mpgpLitSopen fuel inner L h).1 = none
  takes : ∀ l inner' h' ns, mpgpLitSopen fuel inner L h = (some l, inner', h') →
    ∃ l' ms, (reader fuel (k + 1)).after (.lit l, inner') ns = (.lit l', (reader fuel k).after inner ms) ∧ ms.sum ≤ L
  delivers : ∀ l inner' h', mpgpLitSopen fuel inner L h = (some l, inner', h') →
    (reader fuel (k + 1)).Yields (.lit l, inner') ((d.drop (litHead d)).take (L - litHead d))

theorem LitKept.of_none (hnone : (mpgpLitSopen fuel inner L h).1 = none) : LitKept fuel inner d L h := by
  refine ⟨fun _ => hnone, fun l inner' h' ns hopen => ?_, fun l inner' h' hopen => ?_⟩ <;>
    rw [hopen] at hnone <;> cases hnone

theorem mpgpLitSopen_none (hin : (reader fuel k).Yields inner d) (hnot : ¬ LitOpens d h) :
    (mpgpLitSopen fuel inner L h).1 = none := by
  rcases hopen : mpgpLitSopen fuel inner L h with ⟨_ | l, inner', h'⟩
  · rfl
  · exact absurd (mpgpLitSopen_some hin hopen) hnot

/-- A length that covers the header is kept to. -/
theorem LitKept.of_le (hin : (reader fuel k).Yields inner d) (hL : L < 2 ^ 32) (hle : litHead d ≤ L) :
    LitKept fuel inner d L h := by
  by_cases ho : LitOpens d h
  swap
  · exact .of_none (mpgpLitSopen_none hin ho)
  obtain ⟨ms, hopen, hsum⟩ := mpgpLitSopen_opens (L := L) hin ho
  have hlen : (L + 2 ^ 32 - litHead d) % 2 ^ 32 = L - litHead d := by omega
  rw [hlen] at hopen
  refine ⟨fun hlt => absurd hle (Nat.not_le.2 hlt), fun l inner' h' ns hl => ?_, fun l inner' h' hl => ?_⟩ <;>
    rw [hopen] at hl <;> cases hl
  · obtain ⟨l', ms', hafter, hsum'⟩ := lit_after_reads ⟨h.mallocs, L - litHead d⟩ ((reader fuel k).after inner ms) ns
    refine ⟨l', ms ++ ms', ?_, ?_⟩
    · rw [hafter, Reader.after, Reader.after, Reader.after, List.foldl_append]
    · rw [List.sum_append]
      dsimp only at hsum'
      omega
  · have hrest := hin.after ms
    rw [hsum] at hrest
    exact Yields.lit hrest

/-- **The end of a literal packet.** The stream that is opened for a packet of `L` bytes keeps to
them exactly when the packet is not shorter than its header, or cannot be opened anyway. -/
theorem lit_kept_iff (hin : (reader fuel k).Yields inner d) (hL : L < 2 ^ 32) :
    LitKept fuel inner d L h ↔ litHead d ≤ L ∨ ¬ LitOpens d h := by
  constructor
  · intro hkept
    by_contra hnot
    obtain ⟨hlt, ho⟩ := not_or.1 hnot
    obtain ⟨ms, hopen, -⟩ := mpgpLitSopen_opens (L := L) hin (not_not.1 ho)
    have hnone := hkept.rejects (Nat.not_le.1 hlt)
    rw [hopen] at hnone
    cases hnone
  · rintro (hle | hnot)
    · exact .of_le hin hL hle
    · exact .of_none (mpgpLitSopen_none hin hnot)

end

/-- A packet of two bytes of data, with what follows it. -/
theorem lit_kept_sample :
    LitKept 0 (fileOf [0x62, 0, 0, 0, 0, 0, 0x68, 0x69, 0xCB]) [0x62, 0, 0, 0, 0, 0, 0x68, 0x69, 0xCB] 8 goodHeap :=
  (lit_kept_iff (fileOf_plain _).serves.bytes (by decide)).2 (.inl (by decide))

/-- A packet that declares no bytes at all delivers the two behind its header. -/
theorem lit_underflow : ∃ l inner',
    mpgpLitSopen 0 (fileOf [0x62, 0, 0, 0, 0, 0, 0x68, 0x69]) 0 goodHeap =
      (some l, inner', { goodHeap with mallocs := 1 }) ∧
    (reader 0 1).got (.lit l, inner') [2] = [0x68, 0x69] ∧
    ¬ LitKept 0 (fileOf [0x62, 0, 0, 0, 0, 0, 0x68, 0x69]) [0x62, 0, 0, 0, 0, 0, 0x68, 0x69] 0 goodHeap := by
  have hin : (reader 0 0).Yields (fileOf [0x62, 0, 0, 0, 0, 0, 0x68, 0x69]) [0x62, 0, 0, 0, 0, 0, 0x68, 0x69] :=
    (fileOf_plain _).serves.bytes
  obtain ⟨ms, hopen, hsum⟩ := mpgpLitSopen_opens (L := 0) (h := goodHeap) hin ⟨rfl, by decide, rfl⟩
  have hrest := hin.after ms
  rw [hsum] at hrest
  refine ⟨_, _, hopen, Yields.lit hrest [2], fun hkept => ?_⟩
  have hnone := hkept.rejects (by decide)
  rw [hopen] at hnone
  cases hnone

/-! ## Packets of indeterminate length -/

/-- A state of the loop of `mpgp_open_r`. -/
structure Loop (τ : Tinfl) where
  k : Nat
  stream : Chain τ k
  keys : List Key
  hd : Header
  heap : Heap

/-- What `mpgp_open_r` comes to from there. -/
def Loop.openR (fuel packets : Nat) (passphrase : List UInt8) (st : Loop τ) : Option (Opened τ) :=
  mpgpOpenR fuel packets st.stream passphrase st.keys st.hd st.heap

/-- A turn of the loop that goes on: a key is added, or a layer. -/
inductive Turn (fuel : Nat) (passphrase : List UInt8) : Loop τ → Loop τ → Prop
  | skesk {k : Nat} {s s1 s2 : Chain τ k} {keys keys' : List Key} {hd hd' : Header} {h h' : Heap} :
      readPacketHeader fuel s hd = (.ok, hd', s1) → hd'.tag = SKESK_TAG →
      readSkeskPacket fuel s1 keys h = (.ok, s2, keys', h') →
      Turn fuel passphrase ⟨k, s, keys, hd, h⟩ ⟨k, s2, keys', hd', h'⟩
  | compressed {k : Nat} {s s1 s2 : Chain τ k} {z : ZStream τ} {keys : List Key} {hd hd' : Header} {h h' : Heap} :
      readPacketHeader fuel s hd = (.ok, hd', s1) → hd'.tag = COMPRESSED_TAG →
      mpgpZSopen fuel s1 h = (some z, s2, h') →
      Turn fuel passphrase ⟨k, s, keys, hd, h⟩ ⟨k + 1, (.z z, s2), keys, ⟨0, 0, false⟩, h'⟩
  | encrypted {k : Nat} {s s1 s2 : Chain τ k} {e : EncrStream} {keys keys' : List Key} {hd hd' : Header} {h h' : Heap} :
      readPacketHeader fuel s hd = (.ok, hd', s1) → hd'.tag = SYM_ENCR_TAG →
      mpgpEncrSopen fuel s1 keys passphrase hd'.length h = (some e, s2, keys', h') →
      Turn fuel passphrase ⟨k, s, keys, hd, h⟩ ⟨k + 1, (.encr e, s2), keys', ⟨0, 0, false⟩, h'⟩

/-- Any sequence of packets in front. -/
abbrev Turns (fuel : Nat) (passphrase : List UInt8) : Loop τ → Loop τ → Prop :=
  Relation.ReflTransGen (Turn fuel passphrase)

/-- The data of the packet, behind what the layer for it reads of `d` when it is opened. -/
def payload (tag : Nat) (d : List UInt8) : List UInt8 := if tag = SYM_ENCR_TAG then d.drop 10 else d.drop (litHead d)

/-- How much of it the layer lets through when `length` is what the variable holds. -/
def room (tag length : Nat) (d : List UInt8) : Nat :=
  if tag = SYM_ENCR_TAG then length else (length + 2 ^ 32 - litHead d) % 2 ^ 32

/-- The layer for a data packet. -/
def openLayer (fuel : Nat) (s : Chain τ k) (hd : Header) (keys : List Key) (passphrase : List UInt8) (h : Heap) :
    Option (Layer τ × Chain τ k) :=
  if hd.tag = SYM_ENCR_TAG then
    match mpgpEncrSopen fuel s keys passphrase hd.length h with
    | (some e, inner, _, _) => some (.encr e, inner)
    | (none, _, _, _) => none
  else if hd.tag = LITERAL_TAG then
    match mpgpLitSopen fuel s hd.length h with
    | (some l, inner, _) => some (.lit l, inner)
    | (none, _, _) => none
  else none

/-- What a layer makes of the bytes below it. -/
def Layer.decode : Layer τ → List UInt8 → List UInt8
  | .encr e, d => (cast128CfbDecrypt e.ctx d).1
  | .z _, d => d
  | .lit _, d => d

/-- From the state `st`, `mpgp_open_r` comes to a data packet: it returns the literal stream `r`, or goes on with the
encrypted stream `r`. -/
def ComesTo (fuel : Nat) (passphrase : List UInt8) (st : Loop τ) (tag : Nat) (r : Chain τ k) : Prop :=
  ∃ n keys h, ∀ packets, st.openR fuel (n + packets + 1) passphrase =
    if tag = LITERAL_TAG then some (some ⟨k, r⟩, keys, h) else mpgpOpenR fuel packets r passphrase keys ⟨0, 0, false⟩ h

section

variable {passphrase : List UInt8} {st st' : Loop τ}

theorem Turn.openR (ht : Turn fuel passphrase st st') (packets : Nat) :
    st.openR fuel (packets + 1) passphrase = st'.openR fuel packets passphrase := by
  cases ht with
  | skesk hhead htag hskesk => simp only [Loop.openR, mpgpOpenR, hhead, htag, hskesk, if_true]
  | compressed hhead htag hz =>
    simp only [Loop.openR, mpgpOpenR, hhead, htag, hz, SKESK_TAG, COMPRESSED_TAG, Nat.reduceEqDiff, if_true, if_false]
  | encrypted hhead htag he =>
    simp only [Loop.openR, mpgpOpenR, hhead, htag, he, SKESK_TAG, COMPRESSED_TAG, SYM_ENCR_TAG, Nat.reduceEqDiff,
      if_true, if_false]

theorem Turns.openR (ht : Turns fuel passphrase st st') :
    ∃ n, ∀ packets, st.openR fuel (n + packets) passphrase = st'.openR fuel packets passphrase := by
  induction ht with
  | refl => exact ⟨0, fun packets => by rw [Nat.zero_add]⟩
  | tail _ hlast ih =>
    obtain ⟨n, hn⟩ := ih
    refine ⟨n + 1, fun packets => ?_⟩
    rw [show n + 1 + packets = n + (packets + 1) by omega, hn, hlast.openR]

end

section

variable {s inner : Chain τ k} {hd hd' : Header} {keys keys' : List Key} {passphrase d : List UInt8} {h h' : Heap}
  {r : Layer τ × Chain τ k}

/-- A header without a length leaves the length as it was. -/
theorem readPacketHeader_indeterminate (hhead : readPacketHeader fuel s hd = (.ok, hd', inner))
    (hind : hd'.haveLength = false) : hd'.length = hd.length := by
  unfold readPacketHeader at hhead
  repeat' split at hhead
  all_goals cases hhead
  all_goals first | rfl | cases hind

/-- The stream for an encrypted packet: its length is all that the declared length decides. -/
theorem mpgpEncrSopen_length {e : EncrStream} {length : Nat}
    (hopen : mpgpEncrSopen fuel s keys passphrase length h = (some e, inner, keys', h')) (length' : Nat) :
    e.len = length ∧
      mpgpEncrSopen fuel s keys passphrase length' h = (some { e with len := length' }, inner, keys', h') := by
  unfold mpgpEncrSopen at hopen ⊢
  dsimp only at hopen ⊢
  split_ifs at hopen ⊢ with hpad
  · cases hopen
  · split at hopen
    · cases hopen
    · split at hopen <;> cases hopen
      exact ⟨rfl, rfl⟩

theorem mpgpEncrSopen_serves {e : EncrStream} {length : Nat} (hin : (reader fuel k).Serves s d)
    (hopen : mpgpEncrSopen fuel s keys passphrase length h = (some e, inner, keys', h')) :
    (reader fuel k).Serves inner (d.drop 10) ∧ e.ctx.Ok := by
  have hread : (mpgpSread fuel s 10).1 = d.take 10 := hin.bytes.read 10
  have hpad : (d.take 10).length = 10 := by
    by_contra hne
    unfold mpgpEncrSopen at hopen
    dsimp only at hopen
    rw [hread, if_pos hne] at hopen
    cases hopen
  have hsplit : (reader fuel k).Serves s (d.take 10 ++ d.drop 10) := by rwa [List.take_append_drop]
  obtain ⟨hserves, -, hok, -, -⟩ := mpgpEncrSopen_some hpad hsplit hopen
  exact ⟨hserves, hok⟩

/-- What a layer that is opened serves. -/
structure LayerServes (fuel : Nat) (tag length : Nat) (d : List UInt8) (r : Layer τ × Chain τ k) : Prop where
  serves : (reader fuel (k + 1)).Serves r (r.1.decode ((payload tag d).take (room tag length d)))
  size : ∀ c, (r.1.decode c).length = c.length

theorem openLayer_serves (hin : (reader fuel k).Serves s d) (hopen : openLayer fuel s hd keys passphrase h = some r) :
    LayerServes fuel hd.tag hd.length d r := by
  unfold openLayer at hopen
  by_cases h9 : hd.tag = SYM_ENCR_TAG
  · rw [if_pos h9] at hopen
    split at hopen
    swap
    · cases hopen
    rename_i e inner keys' h' he
    cases hopen
    obtain ⟨hserves, hok⟩ := mpgpEncrSopen_serves hin he
    obtain ⟨hlen, -⟩ := mpgpEncrSopen_length he 0
    refine ⟨?_, fun c => cfb_decoder.length _ hok c⟩
    rw [payload, room, if_pos h9, if_pos h9, ← hlen]
    exact Serves.encr hok hserves
  · rw [if_neg h9] at hopen
    by_cases h11 : hd.tag = LITERAL_TAG
    swap
    · rw [if_neg h11] at hopen
      cases hopen
    rw [if_pos h11] at hopen
    split at hopen
    swap
    · cases hopen
    rename_i l inner h' hl
    cases hopen
    obtain ⟨ms, hms, hsum⟩ := mpgpLitSopen_opens (L := hd.length) hin.bytes (mpgpLitSopen_some hin.bytes hl)
    rw [hms] at hl
    cases hl
    have hrest := hin.after ms
    rw [hsum] at hrest
    refine ⟨?_, fun c => rfl⟩
    rw [payload, room, if_neg h9, if_neg h9]
    exact Serves.lit hrest

/-- Whether a layer opens does not depend on the length, and neither does what it makes of the bytes below it. -/
theorem openLayer_length (hin : (reader fuel k).Serves s d) (hopen : openLayer fuel s hd keys passphrase h = some r)
    (length : Nat) : ∃ r', openLayer fuel s { hd with length := length } keys passphrase h = some r' ∧
      r'.1.decode = r.1.decode := by
  unfold openLayer at hopen ⊢
  by_cases h9 : hd.tag = SYM_ENCR_TAG
  · rw [if_pos h9] at hopen ⊢
    split at hopen
    swap
    · cases hopen
    rename_i e inner keys' h' he
    cases hopen
    dsimp only
    rw [(mpgpEncrSopen_length he length).2]
    exact ⟨_, rfl, rfl⟩
  · rw [if_neg h9] at hopen ⊢
    by_cases h11 : hd.tag = LITERAL_TAG
    swap
    · rw [if_neg h11] at hopen
      cases hopen
    rw [if_pos h11] at hopen ⊢
    split at hopen
    swap
    · cases hopen
    rename_i l inner h' hl
    cases hopen
    obtain ⟨ms, hms, -⟩ := mpgpLitSopen_opens (L := length) hin.bytes (mpgpLitSopen_some hin.bytes hl)
    dsimp only
    rw [hms]
    exact ⟨_, rfl, rfl⟩

end

section

variable {st0 st : Loop τ} {passphrase d : List UInt8} {hd : Header} {s1 : Chain τ st.k} {r : Layer τ × Chain τ st.k}

theorem Turns.comesTo (hrun : Turns fuel passphrase st0 st)
    (hhead : readPacketHeader fuel st.stream st.hd = (.ok, hd, s1))
    (hopen : openLayer fuel s1 hd st.keys passphrase st.heap = some r) :
    @ComesTo τ (st.k + 1) fuel passphrase st0 hd.tag r := by
  obtain ⟨n, hn⟩ := hrun.openR
  unfold openLayer at hopen
  by_cases h9 : hd.tag = SYM_ENCR_TAG
  · rw [if_pos h9] at hopen
    split at hopen <;> cases hopen
    rename_i e inner keys h he
    refine ⟨n, keys, h, fun packets => ?_⟩
    rw [Nat.add_assoc, hn, Loop.openR, mpgpOpenR]
    simp only [hhead, h9, he, SKESK_TAG, COMPRESSED_TAG, SYM_ENCR_TAG, LITERAL_TAG, Nat.reduceEqDiff, if_true, if_false]
  · rw [if_neg h9] at hopen
    by_cases h11 : hd.tag = LITERAL_TAG
    swap
    · rw [if_neg h11] at hopen
      cases hopen
    rw [if_pos h11] at hopen
    split at hopen <;> cases hopen
    rename_i l inner h hl
    refine ⟨n, st.keys, h, fun packets => ?_⟩
    rw [Nat.add_assoc, hn, Loop.openR, mpgpOpenR]
    simp only [hhead, h11, hl, SKESK_TAG, COMPRESSED_TAG, SYM_ENCR_TAG, LITERAL_TAG, Nat.reduceEqDiff, if_true,
      if_false]

/-- A layer serves all of the packet if there is room for it. -/
theorem LayerServes.all_iff {tag length : Nat} (h : LayerServes fuel tag length d r) :
    (reader fuel (st.k + 1)).Serves r (r.1.decode (payload tag d)) ↔ (payload tag d).length ≤ room tag length d := by
  constructor
  · intro hall
    have hlen := congrArg List.length (hall.bytes.unique h.serves.bytes)
    rw [h.size, h.size, List.length_take] at hlen
    omega
  · intro hle
    have hserves := h.serves
    rwa [List.take_of_length_le hle] at hserves

/-- Two layers for the packet serve the same if they have the same room, or room enough. -/
theorem LayerServes.same_iff {tag length length' : Nat} {r' : Layer τ × Chain τ st.k}
    (h : LayerServes fuel tag length d r) (h' : LayerServes fuel tag length' d r') (heq : r'.1.decode = r.1.decode) :
    (∃ e, (reader fuel (st.k + 1)).Serves r e ∧ (reader fuel (st.k + 1)).Serves r' e) ↔
      min (room tag length d) (payload tag d).length = min (room tag length' d) (payload tag d).length := by
  constructor
  · rintro ⟨e, he, he'⟩
    have hlen := congrArg List.length (h.serves.bytes.unique he.bytes)
    have hlen' := congrArg List.length (h'.serves.bytes.unique he'.bytes)
    rw [h.size, List.length_take] at hlen
    rw [h'.size, List.length_take] at hlen'
    exact hlen.trans hlen'.symm
  · intro hmin
    refine ⟨_, h.serves, ?_⟩
    have hserves := h'.serves
    rw [heq] at hserves
    rwa [List.take_eq_take_min, hmin, ← List.take_eq_take_min]

/-- **Packets of indeterminate length.** After any packets, on an enclosing stream that serves `d` from the body of an
encrypted or literal packet without a length on: the stream that `mpgp_open_r` makes of it serves the packet up to the
end of `d` exactly when the variable `length`, which the packets before have left, makes room for it. Another value of
the variable gives the same data exactly when it leaves as much room, or room enough. -/
theorem indeterminate_iff (hrun : Turns fuel passphrase st0 st)
    (hhead : readPacketHeader fuel st.stream st.hd = (.ok, hd, s1)) (hind : hd.haveLength = false)
    (hin : (reader fuel st.k).Serves s1 d) (hopen : openLayer fuel s1 hd st.keys passphrase st.heap = some r) :
    @ComesTo τ (st.k + 1) fuel passphrase st0 hd.tag r ∧
      ((reader fuel (st.k + 1)).Serves r (r.1.decode (payload hd.tag d)) ↔
        (payload hd.tag d).length ≤ room hd.tag st.hd.length d) ∧
      ∀ length, ∃ r', openLayer fuel s1 { hd with length := length } st.keys passphrase st.heap = some r' ∧
        ((∃ e, (reader fuel (st.k + 1)).Serves r e ∧ (reader fuel (st.k + 1)).Serves r' e) ↔
          min (room hd.tag st.hd.length d) (payload hd.tag d).length =
            min (room hd.tag length d) (payload hd.tag d).length) := by
  have hstale : hd.length = st.hd.length := readPacketHeader_indeterminate hhead hind
  have hlayer : LayerServes fuel hd.tag hd.length d r := openLayer_serves hin hopen
  rw [hstale] at hlayer
  refine ⟨hrun.comesTo hhead hopen, hlayer.all_iff, fun length => ?_⟩
  obtain ⟨r', hopen', heq⟩ := openLayer_length hin hopen length
  exact ⟨r', hopen', hlayer.same_iff (openLayer_serves hin hopen') heq⟩

end

/-- A literal packet without a length at the start of a file. -/
theorem indeterminate_sample : ∃ r : Layer noTinfl × Chain noTinfl 0,
    openLayer 0 (fileOf [0x62, 0, 0, 0, 0, 0, 0x68, 0x69]) ⟨LITERAL_TAG, 0, false⟩ [] [] goodHeap = some r ∧
      (reader 0 1).Serves r [0x68, 0x69] := by
  have hin : (reader 0 0).Serves (fileOf [0x62, 0, 0, 0, 0, 0, 0x68, 0x69]) [0x62, 0, 0, 0, 0, 0, 0x68, 0x69] :=
    (fileOf_plain _).serves
  have hhead : readPacketHeader 0 (fileOf [0xAF, 0x62, 0, 0, 0, 0, 0, 0x68, 0x69]) ⟨0, 0, false⟩ =
      (.ok, ⟨LITERAL_TAG, 0, false⟩, fileOf [0x62, 0, 0, 0, 0, 0, 0x68, 0x69]) := rfl
  obtain ⟨ms, hms, -⟩ := mpgpLitSopen_opens (L := 0) (h := goodHeap) hin.bytes ⟨rfl, by decide, rfl⟩
  have hopen : openLayer 0 (fileOf [0x62, 0, 0, 0, 0, 0, 0x68, 0x69]) ⟨LITERAL_TAG, 0, false⟩ [] [] goodHeap =
      some (.lit ⟨0, 2 ^ 32 - 6⟩, (reader 0 0).after (fileOf [0x62, 0, 0, 0, 0, 0, 0x68, 0x69]) ms) := by
    unfold openLayer
    rw [if_neg (by decide), if_pos rfl, hms]
    rfl
  let st : Loop noTinfl := ⟨0, fileOf [0xAF, 0x62, 0, 0, 0, 0, 0, 0x68, 0x69], [], ⟨0, 0, false⟩, goodHeap⟩
  have hrun : Turns 0 [] st st := .refl
  obtain ⟨-, hiff, -⟩ := indeterminate_iff hrun hhead rfl hin hopen
  exact ⟨_, hopen, hiff.2 (by decide)⟩

/-! ## An encrypted packet behind its key -/

variable (fuel) in
theorem readPacketHeader_noLength {s : Chain τ k} (hp : Plain s) {tag : Nat} (htag : tag < 16) {rest : List UInt8}
    (hs : content s = UInt8.ofNat (0x80 + 4 * tag + 3) :: rest) (hd : Header) :
    ∃ s', readPacketHeader fuel s hd = (.ok, ⟨tag, hd.length, false⟩, s') ∧ content s' = rest ∧ Plain s' := by
  obtain ⟨h80, h40, h3c, h3⟩ := old_first htag (show 3 < 4 by decide)
  obtain ⟨s1, hr1, hs1, hp1⟩ := mpgpSread_append fuel hp
    (show content s = [UInt8.ofNat (0x80 + 4 * tag + 3)] ++ rest from hs)
  refine ⟨s1, ?_, hs1, hp1⟩
  simp only [List.length_singleton] at hr1
  simp only [readPacketHeader, hr1, h80, h40, h3c, h3, if_true, if_false]
  simp

variable (fuel) in
/-- Behind one key, an encrypted packet without a length ends after as many bytes as the key's packet has. -/
theorem openR_encr_noLength {s : Chain τ k} (hp : Plain s) {p : Skesk} (hl : p.Legal) {passphrase : List UInt8}
    (hlen : passphrase.length ≤ 100) {random data : List UInt8} (hr : random.length = 8)
    (hs : content s = p.bytes ++ UInt8.ofNat (0x80 + 4 * SYM_ENCR_TAG + 3) :: cfbMessage (p.key passphrase) random data)
    {h : Heap} (hm : ∀ i, h.succeeds i = true) :
    ∃ (s' : Chain τ (k + 1)) (keys : List Key) (h' : Heap),
      (∀ packets, mpgpOpenR fuel (packets + 2) s passphrase [] ⟨0, 0, false⟩ h =
        mpgpOpenR fuel packets s' passphrase keys ⟨0, 0, false⟩ h') ∧
      content s' = data.take p.body.length ∧ Plain s' ∧ h'.succeeds = h.succeeds := by
  rw [Skesk.bytes, packet, List.append_assoc] at hs
  obtain ⟨s1, hr1, hs1, hp1⟩ := readPacketHeader_encode fuel hp hl.fits hs ⟨0, 0, false⟩
  obtain ⟨s2, hr2, hs2, hp2⟩ := readSkeskPacket_spec fuel hp1 p hs1 [] (hm h.mallocs)
  obtain ⟨s3, hr3, hs3, hp3⟩ := readPacketHeader_noLength fuel hp2 (by decide) hs2
    ⟨SKESK_TAG, p.body.length, true⟩
  have hm2 : ∀ i, { h with mallocs := h.mallocs + 1 }.succeeds i = true := hm
  obtain ⟨s4, keys, h4, hr4, hs4, hp4, hh4⟩ := openR_encr_layer fuel [] hr3 hp3 (List.forall_mem_nil _) hl.salted hlen
    .nil ⟨h.mallocs, rfl⟩ hr (List.forall_mem_nil _) hs3 hm2
  refine ⟨s4, keys, h4, fun packets => ?_, hs4, hp4, hh4⟩
  rw [← hr4, mpgpOpenR]
  simp only [hr1, hr2, if_true]
  rfl

/-- The sample message, its encrypted packet without a length. -/
def sampleNoLength (passphrase : List UInt8) : List UInt8 :=
  sampleMessage.skesk.bytes ++ UInt8.ofNat (0x80 + 4 * SYM_ENCR_TAG + 3) ::
    cfbMessage (sampleMessage.skesk.key passphrase) sampleMessage.random sampleMessage.literal

/-- A salted key has twelve bytes, the literal packet thirteen: its last one is lost. -/
theorem sampleNoLength_cut : ∃ (r : Chain noTinfl 2) (h' : Heap),
    mpgpOpen 0 3 (fileOf (sampleNoLength [0x61, 0x62, 0x63])) [0x61, 0x62, 0x63] goodHeap = some (some ⟨2, r⟩, h') ∧
      (reader 0 2).Yields r [0x61, 0x09, 0x62] ∧ sampleMessage.data = [0x61, 0x09, 0x62, 0x0a] := by
  have hl : sampleMessage.skesk.Legal := ⟨⟨by decide, by decide⟩, by simp [sampleMessage]⟩
  have hplain : Plain (fileOf (sampleNoLength [0x61, 0x62, 0x63])) := fileOf_plain _
  obtain ⟨s1, keys, h1, hopen, hs1, hp1, hh1⟩ := openR_encr_noLength 0 hplain hl (by decide) rfl rfl
    (h := goodHeap) fun _ => rfl
  have hcut : content s1 = LenForm.new1.encode LITERAL_TAG 11 ++ [0x62, 1, 0x6b, 0, 0, 0, 0, 0x61, 0x09, 0x62] :=
    hs1.trans (by decide)
  obtain ⟨s2, hr2, hs2, hp2⟩ := readPacketHeader_encode 0 hp1 (f := .new1) ⟨by decide, by decide⟩ hcut ⟨0, 0, false⟩
  have hin : (reader 0 1).Yields s2 [0x62, 1, 0x6b, 0, 0, 0, 0, 0x61, 0x09, 0x62] := hs2 ▸ hp2.serves.bytes
  obtain ⟨ms, hlit, hsum⟩ := mpgpLitSopen_opens (L := 11) hin ⟨rfl, by decide, by rw [hh1]; rfl⟩
  have hrest := hin.after ms
  rw [hsum] at hrest
  have hdelivers : (reader 0 2).Yields (.lit ⟨h1.mallocs, 4⟩, (reader 0 1).after s2 ms) [0x61, 0x09, 0x62] :=
    Yields.lit hrest
  refine ⟨_, freeKeys keys { h1 with mallocs := h1.mallocs + 1 }, ?_, hdelivers, rfl⟩
  unfold mpgpOpen
  rw [hopen 1, mpgpOpenR]
  simp only [hr2, hlit, SKESK_TAG, COMPRESSED_TAG, SYM_ENCR_TAG, LITERAL_TAG, Nat.reduceEqDiff, if_true, if_false]
  rfl

end Keynjector.Opgp
