import Keynjector.Inflate.Calls
/-
# Packed data (tinfl.c:110-390, tinfl.h:40-60)

A reference compressor, with every choice of the format left to it, and a caller of the
inflater that cuts the input as it likes and takes the output out of a ring it goes around.
`drive_inflates` is that the caller gets the data back, however long it is, and is told
whether the checksum of a zlib stream is right.

| here | there |
| --- | --- |
| `Packed`      | a compressed stream, by its choices |
| `Packed.body` | its bytes |
| `Caller`      | what a caller of `tinfl_decompress` keeps between two calls |
-/

namespace Keynjector.Inflate

open Deflate (Mark bits output Block ValidBlocks blocksData)
open Opgp (Tinfl TINFL_FLAG_HAS_MORE_INPUT TINFL_STATUS_DONE Z_OUT_BUF_SIZE RingHolds Inflated Inflates zFlags)

/-- A stream of algorithm 1 or 2, the latter with any checksum -/
inductive Packed where
  | deflate (pad : Nat) (blocks : List Block)
  | zlib (cmf flg : UInt8) (pad : Nat) (sum : Vector UInt8 4) (blocks : List Block)

namespace Packed

def blocks : Packed → List Block
  | deflate _ blocks => blocks
  | zlib _ _ _ _ blocks => blocks

def pad : Packed → Nat
  | deflate pad _ => pad
  | zlib _ _ pad _ _ => pad

def sum : Packed → Vector UInt8 4
  | deflate .. => Vector.replicate 4 0
  | zlib _ _ _ sum _ => sum

def algo : Packed → UInt8
  | deflate .. => 1
  | zlib .. => 2

def framed : Packed → Bool
  | deflate .. => false
  | zlib .. => true

def marks : Packed → List Mark
  | deflate pad blocks => Deflate.raw pad blocks
  | zlib cmf flg pad sum blocks => Deflate.zlib cmf flg pad sum blocks

def body (p : Packed) : List UInt8 := Bits.toBytes (bits p.marks)

def data (p : Packed) : List UInt8 := blocksData [] p.blocks

structure Legal (p : Packed) : Prop where
  blocks : p.blocks ≠ []
  valid : ValidBlocks [] p.blocks
  header : match p with
    | .deflate .. => True
    | .zlib cmf flg _ _ _ => GoodHeader cmf flg

/-- The checksum is right, where there is one. -/
def Checked (p : Packed) : Prop := p.framed = true → p.sum = Deflate.adlerBytes p.data

variable {p : Packed}

theorem output_marks (h : p.Legal) : output p.marks = p.data := by
  obtain ⟨-, hvalid, -⟩ := h
  cases p with
  | deflate pad blocks => exact Deflate.output_raw hvalid
  | zlib cmf flg pad sum blocks => exact Deflate.output_zlib hvalid

theorem bits_marks (p : Packed) : bits p.marks = Bits.ofBytes p.body := by
  have hdvd : 8 ∣ p.marks.length := by
    cases p with
    | deflate pad blocks => exact Deflate.length_raw pad blocks
    | zlib cmf flg pad sum blocks => exact Deflate.length_zlib cmf flg pad sum blocks
  obtain ⟨n, hn⟩ := hdvd
  rw [body, Bits.ofBytes_toBytes ((Deflate.length_bits _).trans hn)]

theorem Legal.packed (h : p.Legal) : Body p.framed p.pad p.sum p.body p.marks := by
  have hbits := p.bits_marks
  obtain ⟨hne, hvalid, hheader⟩ := h
  cases p with
  | deflate pad blocks => exact raw_body _ hne hvalid hbits
  | zlib cmf flg pad sum blocks => exact zlib_body hheader hne hvalid hbits

/-- The turns of the inflater that are enough for the stream -/
def cost (p : Packed) : Nat := 32 * (16 * p.body.length + p.data.length + 25)

theorem Legal.unpacks (h : p.Legal) {fuel : Nat} (hfuel : p.cost < fuel) (garbage : Decompressor) :
    Unpacks (endStatus p.framed p.sum p.data) (tinfl fuel garbage) (zFlags p.algo) p.body p.data (coded p.marks)
      (At p.framed p.pad p.sum 32768 p.body p.marks) := by
  have hout := output_marks h
  rw [cost, ← hout] at hfuel
  have hτ : Unpacks _ (tinfl fuel garbage) _ _ _ _ _ := tinfl_unpacks h.packed hfuel
  rw [hout] at hτ
  cases p with
  | deflate pad blocks => exact hτ
  | zlib cmf flg pad sum blocks => exact hτ

theorem Legal.inflates (h : p.Legal) (hright : p.Checked) {fuel : Nat} (hfuel : p.cost < fuel) (garbage : Decompressor) :
    Inflates (tinfl fuel garbage) (zFlags p.algo) p.body p.data (coded p.marks) (At p.framed p.pad p.sum 32768 p.body p.marks) := by
  have hout := output_marks h
  rw [cost, ← hout] at hfuel
  unfold Checked at hright
  rw [← hout] at hright
  have hτ : Inflates (tinfl fuel garbage) _ _ _ _ _ := tinfl_inflates h.packed hfuel hright
  rw [hout] at hτ
  cases p with
  | deflate pad blocks => exact hτ
  | zlib cmf flg pad sum blocks => exact hτ

/-- Any call that may follow on the stream -/
theorem Legal.follows (h : p.Legal) {fuel : Nat} (garbage : Decompressor) (hfuel : p.cost < fuel) {d : Decompressor} {window i o next avail n : Nat}
    {more whole : Bool} {rest input ring : List UInt8} (hat : At p.framed p.pad p.sum window p.body p.marks d i o)
    (hf : Follows more whole window p.body input ring i o next avail) (hholds : Holding window ring p.data o)
    (hinput : input = ((p.body ++ rest).drop i).take n) :
    ∃ status, Inflated (τ := tinfl fuel garbage) p.body p.data (coded p.marks) (At p.framed p.pad p.sum window p.body p.marks) i o
        input ring next avail
        (status, ((tinfl fuel garbage).decompress d input ring next avail (callFlags more whole p.framed)).2) ∧
      ((tinfl fuel garbage).decompress d input ring next avail (callFlags more whole p.framed)).1 =
        ended (endStatus p.framed p.sum p.data) status := by
  have hout := output_marks h
  rw [cost, ← hout] at hfuel
  rw [← hout] at hholds ⊢
  exact tinfl_follows h.packed hfuel hat hf hholds hinput

theorem endStatus_eq (p : Packed) : endStatus p.framed p.sum p.data ≤ TINFL_STATUS_DONE ∧
    (endStatus p.framed p.sum p.data = TINFL_STATUS_DONE ↔ p.Checked) ∧
    (¬ p.Checked → endStatus p.framed p.sum p.data = TINFL_STATUS_ADLER32_MISMATCH) := by
  unfold endStatus Checked
  by_cases h : p.framed = true ∧ p.sum ≠ Deflate.adlerBytes p.data
  · rw [if_pos h]
    exact ⟨by decide, iff_of_false (by decide) fun hc => h.2 (hc h.1), fun _ => rfl⟩
  · rw [if_neg h]
    have hc : p.framed = true → p.sum = Deflate.adlerBytes p.data := fun hf => not_not.1 fun hne => h ⟨hf, hne⟩
    exact ⟨Int.le_refl _, iff_of_true rfl hc, fun hn => absurd hc hn⟩

end Packed

/-! ## A caller -/

variable {τ : Tinfl}

/-- What is left of the input, the ring, and all the output that was taken out of it -/
structure Caller (τ : Tinfl) where
  d : τ.State
  left : List UInt8
  ring : List UInt8
  out : List UInt8
  status : Int

namespace Caller

/-- A call with the next `n` bytes, and with the room up to the end of the ring -/
def call (flags n : Nat) (c : Caller τ) : Caller τ :=
  let input := c.left.take n
  let next := c.out.length % Z_OUT_BUF_SIZE
  let (status, inBytes, outBytes, d, ring) := τ.decompress c.d input c.ring next (Z_OUT_BUF_SIZE - next)
    ((if input ≠ [] then TINFL_FLAG_HAS_MORE_INPUT else 0) ||| flags)
  ⟨d, c.left.drop inBytes, ring, c.out ++ (ring.drop next).take outBytes, status⟩

def init (input ring : List UInt8) : Caller τ := ⟨τ.init, input, ring, [], TINFL_STATUS_NEEDS_MORE_INPUT⟩

/-- Calls until one returns that it is done, or fails -/
def drive (flags : Nat) : Caller τ → List Nat → Caller τ
  | c, [] => c
  | c, n :: ns => if c.status ≤ TINFL_STATUS_DONE then c else drive flags (c.call flags n) ns

end Caller

section

variable {flags : Nat} {body rest out : List UInt8} {coded : Nat → Nat} {At : τ.State → Nat → Nat → Prop} {c : Caller τ}
  {i o n : Nat} {ns : List Nat} {last : Int}

/-- The caller when `i` bytes of input and `o` bytes of output are through. -/
structure Caught (last : Int) (body rest out : List UInt8) (At : τ.State → Nat → Nat → Prop) (c : Caller τ) (i o : Nat) : Prop where
  state : At c.d i o
  left : c.left = (body ++ rest).drop i
  ring : RingHolds c.ring out o
  taken : c.out = out.take o
  produced : o ≤ out.length
  status : c.status = last ∧ o = out.length ∨
    (c.status = TINFL_STATUS_NEEDS_MORE_INPUT ∨ c.status = TINFL_STATUS_HAS_MORE_OUTPUT)

theorem RingHolds.wrapped {ring ring' : List UInt8} {k avail : Nat} (h : RingHolds ring out o) (hk : k ≤ avail)
    (hroom : o % Z_OUT_BUF_SIZE + avail = Z_OUT_BUF_SIZE) (ho : o + k ≤ out.length)
    (hring : ring' = ring.take (o % Z_OUT_BUF_SIZE) ++ ((out.drop o).take k ++ ring.drop (o % Z_OUT_BUF_SIZE + k))) :
    RingHolds ring' out (o + k) := by
  obtain ⟨hlen, hholds⟩ := h
  unfold Z_OUT_BUF_SIZE at *
  have hfront : (ring.take (o % 32768)).length = o % 32768 := by
    rw [List.length_take]
    omega
  have hmid : ((out.drop o).take k).length = k := by
    rw [List.length_take, List.length_drop]
    omega
  subst hring
  refine ⟨show _ = 32768 from ?_, fun j hj (hback : o + k ≤ j + 32768) => show (_ : List UInt8)[j % 32768]? = _ from ?_⟩
  · rw [List.length_append, List.length_append, hfront, hmid, List.length_drop]
    omega
  · by_cases hold : j < o
    · have hkept := hholds j hold (by omega)
      rw [← hkept]
      by_cases hbefore : j % 32768 < o % 32768
      · rw [List.getElem?_append_left (by rw [hfront]; exact hbefore), List.getElem?_take_of_lt hbefore]
      · have hbehind : o % 32768 + k ≤ j % 32768 := by omega
        rw [List.getElem?_append_right (by rw [hfront]; omega), List.getElem?_append_right (by rw [hfront, hmid]; omega),
          List.getElem?_drop]
        congr 1
        omega
    · have hplace : j % 32768 = o % 32768 + (j - o) := by omega
      rw [hplace, List.getElem?_append_right (by rw [hfront]; omega), List.getElem?_append_left (by rw [hfront, hmid]; omega), hfront,
        Nat.add_sub_cancel_left, List.getElem?_take_of_lt (by omega), List.getElem?_drop]
      congr 1
      omega

/-- A call brings the caller further, or ends with everything taken. -/
theorem Caught.call (hτ : Unpacks last τ flags body out coded At) (hlast : last ≤ TINFL_STATUS_DONE) (h : Caught last body rest out At c i o)
    (hn : 0 < n) :
    ∃ i' o', Caught last body rest out At (c.call flags n) i' o' ∧
      ((c.call flags n).status ≤ TINFL_STATUS_DONE ∨ body.length - i' + (out.length - o') < body.length - i + (out.length - o)) := by
  have hspace : o % Z_OUT_BUF_SIZE < Z_OUT_BUF_SIZE := Nat.mod_lt o (by decide)
  have htaken : c.out.length = o := by
    rw [h.taken, List.length_take, Nat.min_eq_left h.produced]
  have hroom : o % Z_OUT_BUF_SIZE + (Z_OUT_BUF_SIZE - o % Z_OUT_BUF_SIZE) = Z_OUT_BUF_SIZE :=
    Nat.add_sub_cancel' hspace.le
  have hends : c.left.take n = [] → body.length ≤ i := by
    intro hnil
    have hall := congrArg List.length hnil
    rw [h.left, List.length_take, List.length_drop, List.length_append, List.length_nil] at hall
    omega
  obtain ⟨given, hcall, hgiven⟩ := hτ.call rest (c.left.take n) c.ring c.d i o n (o % Z_OUT_BUF_SIZE) (Z_OUT_BUF_SIZE - o % Z_OUT_BUF_SIZE) h.state
    (by rw [h.left]) hends h.ring hroom (Nat.mod_mod ..)
  rcases hdec : τ.decompress c.d (c.left.take n) c.ring (o % Z_OUT_BUF_SIZE : Nat) (Z_OUT_BUF_SIZE - o % Z_OUT_BUF_SIZE)
    ((if c.left.take n ≠ [] then TINFL_FLAG_HAS_MORE_INPUT else 0) ||| flags) with ⟨status, inBytes, outBytes, d, ring⟩
  have heq : c.call flags n =
      ⟨d, c.left.drop inBytes, ring, c.out ++ (ring.drop (o % Z_OUT_BUF_SIZE)).take outBytes, status⟩ := by
    simp only [Caller.call, htaken, hdec]
  rw [hdec] at hcall hgiven
  rw [heq]
  obtain ⟨hin, hout, hproduced, hstate, hring, hstatus⟩ := hcall
  dsimp only at hin hout hproduced hstate hring hstatus hgiven ⊢
  have hinput : (c.left.take n).length = min n ((body ++ rest).length - i) := by
    rw [h.left, List.length_take, List.length_drop]
  have hnew : (ring.drop (o % Z_OUT_BUF_SIZE)).take outBytes = (out.drop o).take outBytes := by
    have hlength := h.ring.1
    rw [hring, List.drop_left' (by rw [List.length_take]; omega), List.take_left']
    rw [List.length_take, List.length_drop]
    omega
  refine ⟨i + inBytes, o + outBytes, ⟨hstate, ?_, RingHolds.wrapped h.ring hout hroom hproduced hring, ?_, hproduced, ?_⟩, ?_⟩
  · show c.left.drop inBytes = _
    rw [h.left, List.drop_drop]
  · show c.out ++ (ring.drop _).take outBytes = _
    rw [hnew, h.taken, ← List.take_add]
  · rcases hstatus with ⟨rfl, hall, -⟩ | ⟨rfl, -⟩ | ⟨rfl, -⟩
    · exact .inl ⟨hgiven, hall⟩
    · exact .inr (.inl hgiven)
    · exact .inr (.inr hgiven)
  · rcases hstatus with ⟨rfl, -⟩ | ⟨-, hall, hbody, -⟩ | ⟨-, hfull, hmore⟩
    · exact .inl (hgiven.trans_le hlast)
    · have hlong : (body ++ rest).length = body.length + rest.length := List.length_append
      exact .inr (by omega)
    · exact .inr (by omega)

/-- Any calls, and enough of them. -/
theorem Caught.drive (hτ : Unpacks last τ flags body out coded At) (hlast : last ≤ TINFL_STATUS_DONE) (hpos : ∀ n ∈ ns, 0 < n) (h : Caught last body rest out At c i o) :
    ∃ i' o', Caught last body rest out At (c.drive flags ns) i' o' ∧
      (body.length - i + (out.length - o) < ns.length → (c.drive flags ns).status = last) := by
  induction ns generalizing c i o with
  | nil => exact ⟨i, o, h, fun hlt => absurd hlt (Nat.not_lt_zero _)⟩
  | cons n ns ih =>
    have hends : ∀ {c' : Caller τ} {i' o' : Nat}, Caught last body rest out At c' i' o' → c'.status ≤ TINFL_STATUS_DONE →
        c'.status = last := by
      rintro c' i' o' h' hle
      rcases h'.status with ⟨hdone, -⟩ | hneeds | hhas
      · exact hdone
      · rw [hneeds] at hle
        exact absurd hle (by decide)
      · rw [hhas] at hle
        exact absurd hle (by decide)
    rw [Caller.drive]
    by_cases hgo : c.status ≤ TINFL_STATUS_DONE
    · rw [if_pos hgo]
      exact ⟨i, o, h, fun _ => hends h hgo⟩
    · rw [if_neg hgo]
      obtain ⟨i1, o1, h1, hnext⟩ := h.call hτ hlast (hpos n (List.mem_cons_self ..))
      obtain ⟨i2, o2, h2, hdone⟩ := ih (fun m hm => hpos m (List.mem_cons_of_mem _ hm)) h1
      refine ⟨i2, o2, h2, fun hlt => ?_⟩
      rw [List.length_cons] at hlt
      rcases hnext with hle | hless
      · rcases ns with _ | ⟨m, ns⟩
        · exact hends h1 hle
        · rw [Caller.drive, if_pos hle]
          exact hends h1 hle
      · exact hdone (by omega)

end

/-- **Inflating.** A caller that cuts the input as it likes, goes around a ring and has anything behind the stream gets a part
of the data from each call and no failure. By the time it made a call for each byte it has all of it, and the status tells
whether the checksum is right. -/
theorem drive_inflates {p : Packed} (h : p.Legal) {fuel : Nat} (hfuel : p.cost < fuel) (garbage : Decompressor)
    (rest ring : List UInt8) (hring : ring.length = Z_OUT_BUF_SIZE) (ns : List Nat) (hpos : ∀ n ∈ ns, 0 < n) :
    let c := ((Caller.init (p.body ++ rest) ring : Caller (tinfl fuel garbage)).drive (zFlags p.algo) ns)
    c.out <+: p.data ∧ (c.status ≤ TINFL_STATUS_DONE → c.out = p.data ∧ (c.status = TINFL_STATUS_DONE ↔ p.Checked) ∧
        (¬ p.Checked → c.status = TINFL_STATUS_ADLER32_MISMATCH)) ∧
      (p.body.length + p.data.length < ns.length → c.status ≤ TINFL_STATUS_DONE) := by
  have hτ := h.unpacks hfuel garbage
  obtain ⟨hlast, hdone, hwrong⟩ := p.endStatus_eq
  have hbegin : Caught (endStatus p.framed p.sum p.data) p.body rest p.data (At p.framed p.pad p.sum 32768 p.body p.marks)
      (Caller.init (p.body ++ rest) ring : Caller (tinfl fuel garbage)) 0 0 :=
    ⟨hτ.init, rfl, ⟨hring, fun _ hj => absurd hj (Nat.not_lt_zero _)⟩, List.take_zero.symm, Nat.zero_le _, .inr (.inl rfl)⟩
  obtain ⟨i, o, hc, hall⟩ := hbegin.drive hτ hlast hpos
  refine ⟨?_, fun hends => ?_, fun hlt => ?_⟩
  · rw [hc.taken]
    exact List.take_prefix o _
  · rcases hc.status with ⟨hstatus, ho⟩ | hneeds | hhas
    · rw [hstatus]
      refine ⟨?_, hdone, hwrong⟩
      rw [hc.taken, ho, List.take_length]
    · rw [hneeds] at hends
      exact absurd hends (by decide)
    · rw [hhas] at hends
      exact absurd hends (by decide)
  · rw [hall hlt]
    exact hlast

/-- `ababa`: a fixed block of two literals and a copy of three bytes from two bytes back -/
def samplePacked : Packed := .zlib 0x78 0x9C 0 #v[0x05, 0xBA, 0x01, 0xE8] [.fixed [.literal 0x61, .literal 0x62, .copy 0 0 1 0]]

theorem samplePacked_data : samplePacked.data = [0x61, 0x62, 0x61, 0x62, 0x61] := by decide

theorem samplePacked_legal : samplePacked.Legal :=
  ⟨List.cons_ne_nil _ _, ⟨show Deflate.ValidTokens _ [] _ from by decide +kernel, trivial⟩,
    ⟨by decide, by decide, by decide, by decide⟩⟩

theorem samplePacked_body :
    samplePacked.body = [0x78, 0x9C, 0x4B, 0x4C, 0x02, 0x42, 0x00, 0x05, 0xBA, 0x01, 0xE8] := by
  decide +kernel

/-- A decompressor on memory that was cleared -/
def cleared : Decompressor where
  state := .start
  numBits := 0
  bitBuf := 0
  zhdr0 := 0
  zhdr1 := 0
  zAdler32 := 0
  final := 0
  type := 0
  dist := 0
  counter := 0
  numExtra := 0
  distFromOutBufStart := 0
  tableSizes := Vector.replicate 3 0
  tables := Vector.replicate 3 ⟨Vector.replicate 288 0, Vector.replicate 1024 0, Vector.replicate 576 0⟩
  rawHeader := Vector.replicate 4 0
  lenCodes := Vector.replicate 457 0
  checkAdler32 := 0

/-- Fed a byte at a time -/
theorem drive_inflates_sample :
    ((Caller.init (samplePacked.body ++ [0xFF]) (List.replicate 32768 0) : Caller (tinfl 8000 cleared)).drive 1
      (List.replicate 20 1)).out = [0x61, 0x62, 0x61, 0x62, 0x61] := by
  have hcost : samplePacked.cost < 8000 := by
    rw [Packed.cost, samplePacked_body, samplePacked_data]
    decide
  have hring : (List.replicate 32768 (0 : UInt8)).length = Opgp.Z_OUT_BUF_SIZE := List.length_replicate
  obtain ⟨-, hall, hends⟩ := drive_inflates samplePacked_legal hcost cleared [0xFF] _ hring (List.replicate 20 1)
    (fun n hn => by rw [List.eq_of_mem_replicate hn]; exact Nat.one_pos)
  have hmany : samplePacked.body.length + samplePacked.data.length < (List.replicate 20 1).length := by
    rw [samplePacked_body, samplePacked_data]
    decide
  rw [← samplePacked_data]
  exact (hall (hends hmany)).1

end Keynjector.Inflate
