import Keynjector.Opgp.Serves
import Keynjector.Opgp.Open
/-
# Compressed packets (opgp.c:217-396, tinfl.h:40-120)

`z_sread` gives the inflater a ring of 32768 bytes and sets `p_out` and `p_consumed` back to
the start of the ring when it is full, or means to: it sets them to `s->buf`, the input
window in front of the ring, which the inflater refuses. So a packet is delivered whole only
when its ring is never full while there is more to do (`mpgpZSopen_delivers`).

| here | there |
| --- | --- |
| `Inflates`        | what tinfl.h promises of `tinfl_decompress`, for a body and what it inflates to |
| `Holds`           | a compressed stream between two calls of the inflater, with how far it has come |
| `FitsRing`        | the ring is not full before the inflater is done |
| `Delivers`        | what the reads of a stream should return |

The inflater is a parameter, with the bytes `coded i` of output that `i` bytes of input
determine: at the end of its input it has put out no more and no less.
-/

namespace Keynjector.Opgp

open Readers

variable {τ : Tinfl}

/-! ## The inflater -/

def TINFL_STATUS_BAD_PARAM : Int := -3
def TINFL_STATUS_NEEDS_MORE_INPUT : Int := 1
def TINFL_STATUS_HAS_MORE_OUTPUT : Int := 2

/-- The last `Z_OUT_BUF_SIZE` of `o` bytes of output are in the ring. -/
def RingHolds (ring out : List UInt8) (o : Nat) : Prop :=
  ring.length = Z_OUT_BUF_SIZE ∧ ∀ j < o, o ≤ j + Z_OUT_BUF_SIZE → ring[j % Z_OUT_BUF_SIZE]? = out[j]?

/-- The result of a call with `input` and with room for `avail` bytes at `next`, when `i` bytes
of input and `o` bytes of output were through before. -/
structure Inflated (body out : List UInt8) (coded : Nat → Nat) (At : τ.State → Nat → Nat → Prop)
    (i o : Nat) (input ring : List UInt8) (next avail : Nat) (r : Int × Nat × Nat × τ.State × List UInt8) : Prop where
  inBytes : r.2.1 ≤ input.length
  outBytes : r.2.2.1 ≤ avail
  produced : o + r.2.2.1 ≤ out.length
  state : At r.2.2.2.1 (i + r.2.1) (o + r.2.2.1)
  ring : r.2.2.2.2 = ring.take next ++ ((out.drop o).take r.2.2.1 ++ ring.drop (next + r.2.2.1))
  status : r.1 = TINFL_STATUS_DONE ∧ o + r.2.2.1 = out.length ∧ body.length ≤ i + r.2.1 ∨
    r.1 = TINFL_STATUS_NEEDS_MORE_INPUT ∧ r.2.1 = input.length ∧ i + r.2.1 < body.length ∧
      o + r.2.2.1 = coded (i + r.2.1) ∨
    r.1 = TINFL_STATUS_HAS_MORE_OUTPUT ∧ r.2.2.1 = avail ∧ o + r.2.2.1 < out.length

/-- The inflater inflates `body`, whatever follows it, to `out`, however the input is cut and
the output is taken. `At d i o` are its states after `i` bytes of input and `o` of output. -/
structure Inflates (τ : Tinfl) (flags : Nat) (body out : List UInt8) (coded : Nat → Nat)
    (At : τ.State → Nat → Nat → Prop) : Prop where
  init : At τ.init 0 0
  coded_zero : coded 0 = 0
  coded_mono : Monotone coded
  badParam : ∀ d input ring next avail flags, next < 0 →
    τ.decompress d input ring next avail flags = (TINFL_STATUS_BAD_PARAM, 0, 0, d, ring)
  call : ∀ (rest input ring : List UInt8) (d : τ.State) (i o m next avail : Nat),
    At d i o → input = ((body ++ rest).drop i).take m → (input = [] → body.length ≤ i) → RingHolds ring out o →
    next + avail = Z_OUT_BUF_SIZE → next % Z_OUT_BUF_SIZE = o % Z_OUT_BUF_SIZE →
    Inflated body out coded At i o input ring next avail
      (τ.decompress d input ring next avail ((if input ≠ [] then TINFL_FLAG_HAS_MORE_INPUT else 0) ||| flags))

/-! ## The stream -/

section

variable {σ : Type} {R : Reader σ UInt8} {flags : Nat} {body rest out : List UInt8} {coded : Nat → Nat}
  {At : τ.State → Nat → Nat → Prop}

/-- `i` bytes of the input and `o` bytes of the output are through the inflater, and `c` bytes
were returned. The ring was not full before. -/
structure Holds (R : Reader σ UInt8) (flags : Nat) (body rest out : List UInt8) (At : τ.State → Nat → Nat → Prop)
    (s : ZStream τ) (inner : σ) (i o c : Nat) : Prop where
  state : At s.d i o
  flags : s.flags = flags
  window : (s.buf.drop s.pos).take (s.n - s.pos) = ((body ++ rest).drop i).take (s.n - s.pos)
  fetched : i + (s.n - s.pos) ≤ (body ++ rest).length
  inner : R.Serves inner ((body ++ rest).drop (i + (s.n - s.pos)))
  aligned : Z_BUF_SIZE ∣ i + (s.n - s.pos) ∨ body.length ≤ i + (s.n - s.pos)
  ring : s.outBuf.length = Z_OUT_BUF_SIZE
  filled : s.outBuf.take o = out.take o
  room : o + s.availOut = Z_OUT_BUF_SIZE
  produced : o ≤ out.length
  returned : s.pConsumed = c
  behind : c ≤ o
  running : s.eof = false ∧ s.error = false

variable {s : ZStream τ} {inner : σ} {i o c : Nat}

theorem Holds.ringHolds (h : Holds R flags body rest out At s inner i o c) : RingHolds s.outBuf out o := by
  refine ⟨h.ring, fun j hj _ => ?_⟩
  have hroom := h.room
  have hget := congrArg (·[j]?) h.filled
  simp only [List.getElem?_take_of_lt hj] at hget
  rwa [Nat.mod_eq_of_lt (by omega)]

/-- `if (avail_in == 0)`: the window is filled. -/
theorem Holds.fill (h : Holds R flags body rest out At s inner i o c) {availIn : Nat} {s' : ZStream τ} {inner' : σ}
    (hf : zFill R.read (s.n - s.pos) s inner = (availIn, s', inner')) :
    Holds R flags body rest out At s' inner' i o c ∧ availIn = s'.n - s'.pos ∧
      (availIn = 0 → body.length ≤ i) ∧ (s.n - s.pos = 0 → availIn ≤ Z_BUF_SIZE) := by
  unfold zFill at hf
  by_cases h0 : s.n - s.pos = 0
  · rw [if_pos h0] at hf
    obtain ⟨hb, hn, -⟩ := h.inner.step Z_BUF_SIZE
    rcases hr : R.read inner Z_BUF_SIZE with ⟨bs, inner1⟩
    rw [hr] at hf hb hn
    dsimp only at hf hb hn
    have hserved := h.inner
    have haligned := h.aligned
    have hfetched := h.fetched
    rw [h0, Nat.add_zero] at hserved haligned hb hn hfetched
    have hlen : bs.length = min Z_BUF_SIZE ((body ++ rest).length - i) := by
      rw [hb, List.length_take, List.length_drop]
    have happ : (body ++ rest).length = body.length + rest.length := List.length_append
    have h32 : Z_BUF_SIZE = 32 := rfl
    cases hf
    refine ⟨{ h with window := ?_, fetched := ?_, inner := ?_, aligned := ?_ }, rfl, ?_, ?_⟩
    · show ((bs ++ s.buf.drop bs.length).drop 0).take (bs.length - 0) = ((body ++ rest).drop i).take (bs.length - 0)
      rw [List.drop_zero, Nat.sub_zero, List.take_left, hlen, ← List.length_drop, ← List.take_eq_take_min, ← hb]
    · show i + (bs.length - 0) ≤ (body ++ rest).length
      omega
    · show R.Serves inner' ((body ++ rest).drop (i + (bs.length - 0)))
      rw [Nat.sub_zero, ← List.drop_drop]
      rw [hlen, ← List.length_drop, ← List.drop_eq_drop_min]
      exact hn
    · show Z_BUF_SIZE ∣ i + (bs.length - 0) ∨ body.length ≤ i + (bs.length - 0)
      rw [h32] at haligned ⊢
      omega
    · intro hz
      omega
    · intro _
      omega
  · rw [if_neg h0] at hf
    cases hf
    exact ⟨h, rfl, fun hz => absurd hz h0, fun hz => absurd hz h0⟩

/-- What one call of the inflater has done. -/
structure Advanced (body out : List UInt8) (coded : Nat → Nat) (availIn i o : Nat) (status : Int)
    (availIn' i' o' : Nat) : Prop where
  input : i ≤ i' ∧ i' + availIn' = i + availIn
  output : o ≤ o'
  status : status = TINFL_STATUS_DONE ∧ o' = out.length ∧ body.length ≤ i' ∨
    status = TINFL_STATUS_NEEDS_MORE_INPUT ∧ i' = i + availIn ∧ i' < body.length ∧ o' = coded i' ∨
    status = TINFL_STATUS_HAS_MORE_OUTPUT ∧ o' = Z_OUT_BUF_SIZE ∧ o' < out.length

/-- What is done with the result of a call. -/
def zInflated (pOut : Int) (availIn : Nat) (s : ZStream τ) (r : Int × Nat × Nat × τ.State × List UInt8) :
    Int × Nat × Int × ZStream τ :=
  (r.1, availIn - r.2.1, pOut + r.2.2.1,
    { s with d := r.2.2.2.1, outBuf := r.2.2.2.2, pos := s.pos + r.2.1, availOut := s.availOut - r.2.2.1 })

theorem zInflate_eq (pOut : Int) (availIn : Nat) (s : ZStream τ) : zInflate pOut availIn s =
    zInflated pOut availIn s (τ.decompress s.d ((s.buf.drop s.pos).take availIn) s.outBuf pOut s.availOut
      ((if availIn ≠ 0 then TINFL_FLAG_HAS_MORE_INPUT else 0) ||| s.flags)) := rfl

/-- The call of the inflater, while its output position is in the ring. -/
theorem Holds.inflate (hτ : Inflates τ flags body out coded At) (h : Holds R flags body rest out At s inner i o c)
    (hmore : s.n - s.pos = 0 → body.length ≤ i) {availIn : Nat} {status pOut : Int} {s' : ZStream τ}
    (hz : zInflate o (s.n - s.pos) s = (status, availIn, pOut, s')) :
    ∃ i' o', Holds R flags body rest out At s' inner i' o' c ∧ availIn = s'.n - s'.pos ∧ pOut = o' ∧
      Advanced body out coded (s.n - s.pos) i o status availIn i' o' := by
  have hwindow := h.window
  have hfetched := h.fetched
  have hlen : ((s.buf.drop s.pos).take (s.n - s.pos)).length = s.n - s.pos := by
    rw [hwindow, List.length_take, List.length_drop]
    omega
  have hnil : (s.buf.drop s.pos).take (s.n - s.pos) = [] ↔ s.n - s.pos = 0 := by
    rw [← List.length_eq_zero_iff, hlen]
  have hflag : (if s.n - s.pos ≠ 0 then TINFL_FLAG_HAS_MORE_INPUT else 0) =
      if (s.buf.drop s.pos).take (s.n - s.pos) ≠ [] then TINFL_FLAG_HAS_MORE_INPUT else 0 :=
    if_congr (not_congr hnil.symm) rfl rfl
  have hcall := hτ.call rest _ s.outBuf s.d i o _ o s.availOut h.state hwindow (fun h0 => hmore (hnil.1 h0)) h.ringHolds
    h.room rfl
  rw [zInflate_eq, h.flags, hflag] at hz
  generalize τ.decompress s.d ((s.buf.drop s.pos).take (s.n - s.pos)) s.outBuf o s.availOut
    ((if (s.buf.drop s.pos).take (s.n - s.pos) ≠ [] then TINFL_FLAG_HAS_MORE_INPUT else 0) ||| flags) = r at hcall hz
  obtain ⟨st, inBytes, outBytes, d, outBuf⟩ := r
  obtain ⟨hin, hout, hproduced, hstate, hring, hstatus⟩ := hcall
  dsimp only at hin hout hproduced hstate hring hstatus
  rw [hlen] at hin hstatus
  have hroom := h.room
  have hringLen := h.ring
  have hskip : i + inBytes + (s.n - (s.pos + inBytes)) = i + (s.n - s.pos) := by omega
  have hfront : (s.outBuf.take o ++ (out.drop o).take outBytes).length = o + outBytes := by
    rw [List.length_append, List.length_take, List.length_take, List.length_drop]
    omega
  rw [← List.append_assoc] at hring
  cases hz
  refine ⟨i + inBytes, o + outBytes, ⟨hstate, h.flags, ?_, ?_, ?_, ?_, ?_, ?_, ?_, hproduced, h.returned,
    Nat.le_add_right_of_le h.behind, h.running⟩, ?_, Int.natCast_add .., ⟨⟨by omega, ?_⟩, by omega, ?_⟩⟩
  · show (s.buf.drop (s.pos + inBytes)).take (s.n - (s.pos + inBytes)) =
      ((body ++ rest).drop (i + inBytes)).take (s.n - (s.pos + inBytes))
    have := congrArg (List.drop inBytes) hwindow
    rwa [List.drop_take, List.drop_take, List.drop_drop, List.drop_drop, Nat.sub_sub] at this
  · rw [hskip]
    exact hfetched
  · rw [hskip]
    exact h.inner
  · rw [hskip]
    exact h.aligned
  · rw [hring, List.length_append, hfront, List.length_drop]
    omega
  · rw [hring, List.take_left' hfront, h.filled, ← List.take_add]
  · show o + outBytes + (s.availOut - outBytes) = Z_OUT_BUF_SIZE
    omega
  · show s.n - s.pos - inBytes = s.n - (s.pos + inBytes)
    omega
  · show i + inBytes + (s.n - s.pos - inBytes) = i + (s.n - s.pos)
    omega
  · rcases hstatus with ⟨hs, ho, hi⟩ | ⟨hs, hi, hb, ho⟩ | ⟨hs, ho, hb⟩
    · exact .inl ⟨hs, ho, hi⟩
    · exact .inr (.inl ⟨hs, by rw [hi], hb, ho⟩)
    · exact .inr (.inr ⟨hs, by omega, hb⟩)

/-- `while ((size) && (s->p_consumed < p_out))` -/
theorem Holds.consume (h : Holds R flags body rest out At s inner i o c) {size left : Nat} {bs : List UInt8}
    {s' : ZStream τ} (hz : zConsume s o size = (bs, s', left)) :
    bs = (out.drop c).take (min size (o - c)) ∧ left = size - (o - c) ∧
      Holds R flags body rest out At s' inner i o (c + min size (o - c)) := by
  have hbehind := h.behind
  have hk : min size ((o : Int) - s.pConsumed).toNat = min size (o - c) := by
    rw [h.returned]
    omega
  have hbytes : (List.range (min size (o - c))).map (fun j : Nat => s.byteAt (s.pConsumed + j)) =
      (out.drop c).take (min size (o - c)) := by
    refine List.ext_getElem ?_ fun j hj hj' => ?_
    · have := h.produced
      rw [List.length_map, List.length_range, List.length_take, List.length_drop]
      omega
    · rw [List.length_map, List.length_range] at hj
      have hget := congrArg (·[c + j]?) h.filled
      simp only [List.getElem?_take_of_lt (show c + j < o by omega)] at hget
      have hpos : (0 : Int) ≤ (c : Int) + j := by omega
      rw [List.getElem_map, List.getElem_range, List.getElem_take, List.getElem_drop, h.returned, ZStream.byteAt,
        if_pos hpos, ← Int.natCast_add, Int.toNat_natCast, List.getD_eq_getElem?_getD, hget, List.getElem?_eq_getElem,
        Option.getD_some]
  unfold zConsume at hz
  dsimp only at hz
  rw [hk, hbytes] at hz
  cases hz
  refine ⟨rfl, by omega, { h with returned := ?_, behind := by omega }⟩
  show s.pConsumed + (min size (o - c) : Nat) = (c + min size (o - c) : Nat)
  rw [h.returned, Int.natCast_add]

/-- One round of the loop up to `if (!s->avail_out)`, when everything before was returned. -/
theorem Holds.round (hτ : Inflates τ flags body out coded At) (h : Holds R flags body rest out At s inner i o o)
    (fuel : Nat) (acc : List UInt8) (size : Nat) :
    ∃ availIn i' o' status s' inner', Holds R flags body rest out At s' inner' i' o' (o + min size (o' - o)) ∧
      Advanced body out coded availIn i o status (s'.n - s'.pos) i' o' ∧
      (availIn = 0 → body.length ≤ i) ∧ (s.n - s.pos = 0 → availIn ≤ Z_BUF_SIZE) ∧
      zLoop R.read (fuel + 1) o (s.n - s.pos) acc size s inner =
        if size - (o' - o) = 0 then (acc ++ (out.drop o).take (min size (o' - o)), s', inner')
        else if status < TINFL_STATUS_DONE then
          (acc ++ (out.drop o).take (min size (o' - o)), { (zWrap o' s').2 with error := true }, inner')
        else if status ≤ TINFL_STATUS_DONE then
          (acc ++ (out.drop o).take (min size (o' - o)), { (zWrap o' s').2 with eof := true }, inner')
        else zLoop R.read fuel (zWrap o' s').1 (s'.n - s'.pos) (acc ++ (out.drop o).take (min size (o' - o)))
          (size - (o' - o)) (zWrap o' s').2 inner' := by
  rw [zLoop_succ]
  rcases hf : zFill R.read (s.n - s.pos) s inner with ⟨availIn1, s1, inner1⟩
  obtain ⟨h1, rfl, hmore, hwindow⟩ := h.fill hf
  rcases hz : zInflate o (s1.n - s1.pos) s1 with ⟨status, availIn2, pOut, s2⟩
  obtain ⟨i', o', h2, rfl, rfl, hadv⟩ := h1.inflate hτ hmore hz
  rcases hc : zConsume s2 o' size with ⟨bs, s3, left⟩
  obtain ⟨rfl, rfl, h3⟩ := h2.consume hc
  have hs3 : s3 = (zConsume s2 o' size).2.1 := by rw [hc]
  have hpos : s3.n - s3.pos = s2.n - s2.pos := by
    rw [hs3]
    rfl
  refine ⟨_, i', o', status, s3, inner1, h3, by rwa [hpos], hmore, hwindow, ?_⟩
  dsimp only
  rw [hz]
  dsimp only
  rw [hc, hpos]

/-- The ring is not full before the inflater is done: the data is shorter than the ring, or as
long, and the last window of input holds a part of it. -/
def FitsRing (body out : List UInt8) (coded : Nat → Nat) : Prop :=
  out.length < Z_OUT_BUF_SIZE ∨
    out.length = Z_OUT_BUF_SIZE ∧ coded ((body.length - 1) / Z_BUF_SIZE * Z_BUF_SIZE) < out.length

/-- A stream that has `d` left to return. -/
def Pending (R : Reader σ UInt8) (flags : Nat) (body rest out : List UInt8) (At : τ.State → Nat → Nat → Prop)
    (s : ZStream τ) (inner : σ) (d : List UInt8) : Prop :=
  (s.eof = true ∧ s.error = false ∧ d = [] ∧ R.err inner = false) ∨
    ∃ i o c, Holds R flags body rest out At s inner i o c ∧ d = out.drop c

theorem zWrap_open {pOut : Int} (h : s.availOut ≠ 0) : zWrap pOut s = (pOut, s) := by
  rw [zWrap, if_neg h]

theorem Holds.no_wrap (hτ : Inflates τ flags body out coded At) (hfit : FitsRing body out coded)
    (h : Holds R flags body rest out At s inner i o c) (hleft : s.n - s.pos = 0) (hi : i < body.length)
    (ho : o = coded i) : s.availOut ≠ 0 := by
  have hroom := h.room
  have hproduced := h.produced
  rcases hfit with hlt | ⟨hlen, hlast⟩
  · omega
  · have haligned := h.aligned
    rw [hleft, Nat.add_zero] at haligned
    obtain ⟨q, hq⟩ := haligned.resolve_right (by omega)
    have hle : i ≤ (body.length - 1) / Z_BUF_SIZE * Z_BUF_SIZE := by
      rw [hq, Nat.mul_comm] at hi ⊢
      refine Nat.mul_le_mul_right _ ((Nat.le_div_iff_mul_le (by decide)).2 ?_)
      omega
    have := hτ.coded_mono hle
    omega

/-- The loop, when the ring is large enough. -/
theorem zLoop_delivers (hτ : Inflates τ flags body out coded At) (hfit : FitsRing body out coded) {fuel size : Nat}
    (hfuel : body.length - i < fuel) (h : Holds R flags body rest out At s inner i o o) (hsize : size ≠ 0)
    (acc : List UInt8) {bs : List UInt8} {s' : ZStream τ} {inner' : σ}
    (hz : zLoop R.read fuel o (s.n - s.pos) acc size s inner = (bs, s', inner')) :
    bs = acc ++ (out.drop o).take size ∧ Pending R flags body rest out At s' inner' ((out.drop o).drop size) ∧
      (out.length - o < size → s'.eof = true) := by
  induction fuel generalizing s inner i o size acc with
  | zero => contradiction
  | succ fuel ih =>
    obtain ⟨availIn, i1, o1, status, s1, inner1, h1, ⟨⟨hi, hleft⟩, ho, hstatus⟩, hmore, -, heq⟩ := h.round hτ fuel acc size
    have hproduced := h1.produced
    have hdrop : (out.drop o).drop size = out.drop (o + size) := List.drop_drop
    rw [heq] at hz
    by_cases hdone : size - (o1 - o) = 0
    · have hmin : min size (o1 - o) = size := by omega
      rw [hmin] at h1 hz
      rw [if_pos hdone] at hz
      cases hz
      exact ⟨rfl, .inr ⟨i1, o1, o + size, h1, hdrop⟩, fun hlt => by omega⟩
    · have hmin : min size (o1 - o) = o1 - o := by omega
      have hall : o + (o1 - o) = o1 := by omega
      rw [hmin, hall] at h1
      rw [hmin, if_neg hdone] at hz
      rcases hstatus with ⟨rfl, hout, -⟩ | ⟨rfl, hin, hbody, hcoded⟩ | ⟨-, hfull, hlt⟩
      · rw [if_neg (by decide), if_pos (by decide)] at hz
        cases hz
        refine ⟨?_, .inl ⟨rfl, ?_, ?_, h1.inner.no_error⟩, fun _ => rfl⟩
        · rw [List.take_of_length_le, List.take_of_length_le] <;> rw [List.length_drop] <;> omega
        · show (zWrap o1 s1).2.error = false
          unfold zWrap
          split_ifs
          · exact h1.running.2
          · exact h1.running.2
        · rw [hdrop]
          exact List.drop_eq_nil_of_le (by omega)
      · rw [if_neg (by decide), if_neg (by decide), zWrap_open (h1.no_wrap hτ hfit (by omega) hbody hcoded)] at hz
        obtain ⟨rfl, hpending, heof⟩ := ih (by omega) h1 hdone _ hz
        refine ⟨?_, ?_, fun hlt => heof (by omega)⟩
        · have hsplit : size = o1 - o + (size - (o1 - o)) := by omega
          conv_rhs => rw [hsplit, List.take_add, List.drop_drop, hall]
          rw [List.append_assoc]
        · rw [List.drop_drop, show o1 + (size - (o1 - o)) = o + size by omega] at hpending
          rwa [hdrop]
      · rcases hfit with hfit | ⟨hfit, -⟩ <;> omega

/-- **A read of a compressed stream**, when the ring is large enough. -/
theorem zSread_delivers (hτ : Inflates τ flags body out coded At) (hfit : FitsRing body out coded) {fuel size : Nat}
    (hfuel : body.length < fuel) (h : Holds R flags body rest out At s inner i o c) {bs : List UInt8} {s' : ZStream τ}
    {inner' : σ} (hz : zSread R.read fuel s inner size = (bs, s', inner')) :
    bs = (out.drop c).take size ∧ Pending R flags body rest out At s' inner' ((out.drop c).drop size) ∧
      (out.length - c < size → s'.eof = true) := by
  have hbehind := h.behind
  have hproduced := h.produced
  have hroom := h.room
  have hdrop : (out.drop c).drop size = out.drop (c + size) := List.drop_drop
  have hpos : (Z_OUT_BUF_SIZE : Int) - s.availOut = o := by omega
  unfold zSread at hz
  rw [hpos] at hz
  by_cases h0 : size = 0
  · rw [if_pos h0] at hz
    cases hz
    rw [h0, List.take_zero, List.drop_zero]
    exact ⟨rfl, .inr ⟨i, o, c, h, rfl⟩, fun hlt => absurd hlt (Nat.not_lt_zero _)⟩
  rw [if_neg h0] at hz
  rcases hc : zConsume s o size with ⟨bs1, s1, left⟩
  obtain ⟨rfl, rfl, h1⟩ := h.consume hc
  have hs1 : s1.n - s1.pos = s.n - s.pos := by
    have : s1 = (zConsume s o size).2.1 := by rw [hc]
    rw [this]
    rfl
  simp only [hc] at hz
  by_cases hdone : size - (o - c) = 0
  · have hmin : min size (o - c) = size := by omega
    rw [hmin] at h1 hz
    rw [if_pos hdone] at hz
    cases hz
    exact ⟨rfl, .inr ⟨i, o, c + size, h1, hdrop⟩, fun hlt => by omega⟩
  · have hmin : min size (o - c) = o - c := by omega
    have hall : c + (o - c) = o := by omega
    rw [hmin, hall] at h1
    rw [hmin, if_neg hdone, ← hs1] at hz
    obtain ⟨rfl, hpending, heof⟩ := zLoop_delivers hτ hfit (by omega) h1 hdone _ hz
    refine ⟨?_, ?_, fun hlt => heof (by omega)⟩
    · have hsplit : size = o - c + (size - (o - c)) := by omega
      conv_rhs => rw [hsplit, List.take_add, List.drop_drop, hall]
    · rw [List.drop_drop, show o + (size - (o - c)) = c + size by omega] at hpending
      rwa [hdrop]

/-! ## When the ring is full -/

theorem zConsume_none {pOut : Int} {size : Nat} (h : pOut ≤ s.pConsumed) : zConsume s pOut size = ([], s, size) := by
  have hk : min size (pOut - s.pConsumed).toNat = 0 := by omega
  unfold zConsume
  dsimp only
  rw [hk]
  simp

/-- `p_out = s->buf`: the inflater refuses the position, and the stream fails. -/
theorem zLoop_badParam (hτ : Inflates τ flags body out coded At) {fuel size availIn : Nat} (hfuel : 0 < fuel)
    (hsize : size ≠ 0) (hcons : s.pConsumed = Z_BUF_OFFSET) (hopen : s.availOut ≠ 0) (acc : List UInt8) :
    (zLoop R.read fuel Z_BUF_OFFSET availIn acc size s inner).2.1.error = true := by
  obtain ⟨fuel, rfl⟩ := Nat.exists_eq_succ_of_ne_zero (Nat.ne_of_gt hfuel)
  rw [Nat.succ_eq_add_one, zLoop_succ]
  have hfill : (zFill R.read availIn s inner).2.1.pConsumed = Z_BUF_OFFSET ∧
      (zFill R.read availIn s inner).2.1.availOut ≠ 0 := by
    unfold zFill
    split_ifs
    · exact ⟨hcons, hopen⟩
    · exact ⟨hcons, hopen⟩
  rcases hf : zFill R.read availIn s inner with ⟨availIn1, s1, inner1⟩
  rw [hf] at hfill
  obtain ⟨hcons1, hopen1⟩ := hfill
  dsimp only at hcons1 hopen1 ⊢
  rw [zInflate_eq, hτ.badParam _ _ _ _ _ _ (by decide)]
  simp only [zInflated, Nat.sub_zero, Nat.add_zero, Nat.cast_zero, Int.add_zero]
  rw [zConsume_none (Int.le_of_eq hcons1.symm)]
  dsimp only
  rw [if_neg hsize, zWrap_open hopen1]
  rfl

/-- A read that wants more than the ring holds. -/
theorem zLoop_overruns (hτ : Inflates τ flags body out coded At) (hfit : ¬ FitsRing body out coded) {fuel size : Nat}
    (hfuel : body.length - i + 1 < fuel) (h : Holds R flags body rest out At s inner i o o) (hleft : s.n - s.pos = 0)
    (hcoded : o = coded i) (ho : o < Z_OUT_BUF_SIZE) (hsize : Z_OUT_BUF_SIZE < o + size) (acc : List UInt8) :
    (zLoop R.read fuel o (s.n - s.pos) acc size s inner).2.1.error = true := by
  induction fuel generalizing s inner i o size acc with
  | zero => contradiction
  | succ fuel ih =>
    obtain ⟨availIn, i1, o1, status, s1, inner1, h1, ⟨⟨hi, hin⟩, ho1, hstatus⟩, hmore, hwindow, heq⟩ :=
      h.round hτ fuel acc size
    have hroom := h1.room
    have hdone : size - (o1 - o) ≠ 0 := by omega
    have hmin : min size (o1 - o) = o1 - o := by omega
    have hall : o + (o1 - o) = o1 := by omega
    rw [hmin, hall] at h1
    rw [heq, hmin, if_neg hdone]
    -- a full ring is set back to a position in front of it
    have hwrap : o1 = Z_OUT_BUF_SIZE → ∀ bs, (zLoop R.read fuel (zWrap o1 s1).1 (s1.n - s1.pos) bs (size - (o1 - o))
        (zWrap o1 s1).2 inner1).2.1.error = true := by
      intro hfull bs
      have hclosed : s1.availOut = 0 := by omega
      rw [zWrap, if_pos hclosed]
      exact zLoop_badParam hτ (by omega) hdone rfl (show Z_OUT_BUF_SIZE ≠ 0 by decide) bs
    rcases hstatus with ⟨rfl, hout, hbody⟩ | ⟨rfl, hall1, hbody, hcoded1⟩ | ⟨rfl, hfull, -⟩
    · -- the inflater is not done before the last window
      exfalso
      have haligned := h.aligned
      have hin32 := hwindow hleft
      have hbuf : Z_BUF_SIZE = 32 := rfl
      rw [hleft, Nat.add_zero] at haligned
      obtain ⟨hge, hlast⟩ := not_or.1 hfit
      have hlt : coded i < coded ((body.length - 1) / Z_BUF_SIZE * Z_BUF_SIZE) := by
        by_contra hle
        exact hlast ⟨by omega, by omega⟩
      have := hτ.coded_mono.reflect_lt hlt
      rw [hbuf] at this haligned hin32
      omega
    · rw [if_neg (by decide), if_neg (by decide)]
      by_cases hfull : o1 = Z_OUT_BUF_SIZE
      · exact hwrap hfull _
      · rw [zWrap_open (by omega)]
        exact ih (by omega) h1 (by omega) hcoded1 (by omega) (by omega) _
    · rw [if_neg (by decide), if_neg (by decide)]
      exact hwrap hfull _

end

/-! ## The stream over another -/

section

variable {fuel k : Nat} {body rest out : List UInt8} {coded : Nat → Nat} {At : τ.State → Nat → Nat → Prop}

/-- The flag for the zlib header of algorithm 2. -/
def zFlags (algo : UInt8) : Nat := if algo = 1 then 0 else 1

theorem Pending.serves {flags : Nat} (hτ : Inflates τ flags body out coded At) (hfit : FitsRing body out coded)
    (hfuel : body.length < fuel) {s : ZStream τ} {inner : Chain τ k} {d : List UInt8}
    (h : Pending (reader fuel k) flags body rest out At s inner d) :
    (reader fuel (k + 1)).Serves (.z s, inner) d := by
  refine Reader.Serves.coind (reader_stuck fuel (k + 1))
    (Q := fun t d => ∃ s inner, t = (.z s, inner) ∧ Pending (reader fuel k) flags body rest out At s inner d) ?_ ?_
    ⟨s, inner, rfl, h⟩
  · rintro _ _ ⟨s, inner, rfl, ⟨-, herr, -, hinner⟩ | ⟨i, o, c, h, -⟩⟩
    · have hinner : serror inner = false := hinner
      show (s.error || serror inner) = false
      rw [herr, hinner]
      rfl
    · have hinner : serror inner = false := h.inner.no_error
      show (s.error || serror inner) = false
      rw [h.running.2, hinner]
      rfl
  · rintro _ d ⟨s, inner, rfl, ⟨heof, herr, rfl, hinner⟩ | ⟨i, o, c, h, rfl⟩⟩ n
    · have hend : (reader fuel (k + 1)).eof (.z s, inner) = true := heof
      have hstuck := reader_stuck fuel (k + 1) _ (.inl hend) n
      refine ⟨?_, ?_, fun _ => ?_⟩ <;> rw [hstuck]
      · rw [List.take_nil]
      · exact ⟨s, inner, rfl, .inl ⟨heof, herr, List.drop_nil, hinner⟩⟩
      · exact hend
    · rcases hz : zSread (mpgpSread fuel) fuel s inner n with ⟨bs, s', inner'⟩
      have hinner : serror inner = false := h.inner.no_error
      have hread : (reader fuel (k + 1)).read (.z s, inner) n = (bs, (.z s', inner')) := by
        show mpgpSread fuel (k := k + 1) (.z s, inner) n = _
        rw [mpgpSread, if_neg (by simp [seof, serror, h.running, hinner]), hz]
        rfl
      obtain ⟨hbs, hpending, heof⟩ := zSread_delivers hτ hfit hfuel h hz
      refine ⟨?_, ?_, fun hlt => ?_⟩ <;> rw [hread]
      · exact hbs
      · exact ⟨s', inner', rfl, hpending⟩
      · rw [List.length_drop] at hlt
        exact heof hlt

/-- The stream `mpgp_z_sopen` returns. -/
theorem mpgpZSopen_holds {algo : UInt8} (hτ : Inflates τ (zFlags algo) body out coded At) {inner inner' : Chain τ k}
    {h h' : Heap} {s : ZStream τ} (hin : (reader fuel k).Serves inner (algo :: (body ++ rest)))
    (hopen : mpgpZSopen fuel inner h = (some s, inner', h')) :
    Holds (reader fuel k) (zFlags algo) body rest out At s inner' 0 0 0 ∧ s.n - s.pos = 0 := by
  obtain ⟨inner1, hread, hserves⟩ := hin.append (a := [algo])
  have hread : mpgpSread fuel inner 1 = ([algo], inner1) := hread
  unfold mpgpZSopen at hopen
  rw [hread] at hopen
  dsimp only at hopen
  split at hopen
  · split at hopen
    · cases hopen
      refine ⟨⟨hτ.init, rfl, ?_, Nat.zero_le _, hserves, .inl (Nat.dvd_zero _), List.length_replicate, ?_,
        Nat.zero_add _, Nat.zero_le _, rfl, Nat.le_refl _, rfl, rfl⟩, rfl⟩
      · rw [Nat.sub_zero, List.take_zero, List.take_zero]
      · rw [List.take_zero, List.take_zero]
    · cases hopen
  · cases hopen

theorem mpgpZSopen_some {algo : UInt8} {d : List UInt8} {inner : Chain τ k} {h : Heap}
    (hin : (reader fuel k).Serves inner (algo :: d)) (halgo : algo = 1 ∨ algo = 2) (hm : h.succeeds h.mallocs = true) :
    ∃ s inner' h', mpgpZSopen fuel inner h = (some s, inner', h') := by
  obtain ⟨inner1, hread, -⟩ := hin.append (a := [algo])
  have hread : mpgpSread fuel inner 1 = ([algo], inner1) := hread
  unfold mpgpZSopen malloc
  rw [hread]
  dsimp only
  rw [if_pos halgo, if_pos hm]
  exact ⟨_, _, _, rfl⟩

/-- The reads `ns` of a stream return the front of `out`, show no error, and show the end once they asked for more. -/
structure Delivers (fuel : Nat) (s : Chain τ k) (out : List UInt8) (ns : List Nat) : Prop where
  bytes : (reader fuel k).got s ns = out.take ns.sum
  sound : serror ((reader fuel k).after s ns) = false
  ends : out.length < ns.sum → seof ((reader fuel k).after s ns) = true

/-- One read of a byte more than the ring holds fails when the ring gets full. -/
theorem mpgpZSopen_overruns {algo : UInt8} (hτ : Inflates τ (zFlags algo) body out coded At)
    (hfit : ¬ FitsRing body out coded) (hfuel : body.length + 1 < fuel) {inner inner' : Chain τ k} {h h' : Heap}
    {s : ZStream τ} (hin : (reader fuel k).Serves inner (algo :: (body ++ rest)))
    (hopen : mpgpZSopen fuel inner h = (some s, inner', h')) :
    ¬ Delivers fuel (k := k + 1) (.z s, inner') out [Z_OUT_BUF_SIZE + 1] := by
  rintro ⟨-, hsound, -⟩
  obtain ⟨hs, hleft⟩ := mpgpZSopen_holds hτ hin hopen
  have hinner : serror inner' = false := hs.inner.no_error
  have hpos : (Z_OUT_BUF_SIZE : Int) - s.availOut = (0 : Nat) := by
    have := hs.room
    omega
  have herror : (zSread (mpgpSread fuel) fuel s inner' (Z_OUT_BUF_SIZE + 1)).2.1.error = true := by
    unfold zSread
    rw [if_neg (Nat.succ_ne_zero _), hpos]
    dsimp only
    rw [zConsume_none (Int.le_of_eq hs.returned.symm)]
    dsimp only
    rw [if_neg (Nat.succ_ne_zero _)]
    exact zLoop_overruns (R := reader fuel k) hτ hfit hfuel hs hleft hτ.coded_zero.symm (by decide) (by decide) []
  have hread : (reader fuel (k + 1)).after (.z s, inner') [Z_OUT_BUF_SIZE + 1] =
      (.z (zSread (mpgpSread fuel) fuel s inner' (Z_OUT_BUF_SIZE + 1)).2.1,
        (zSread (mpgpSread fuel) fuel s inner' (Z_OUT_BUF_SIZE + 1)).2.2) := by
    show (mpgpSread fuel (k := k + 1) (.z s, inner') (Z_OUT_BUF_SIZE + 1)).2 = _
    rw [mpgpSread, if_neg (by simp [seof, serror, hs.running, hinner])]
  rw [hread, serror, herror] at hsound
  cases hsound

/-- **Compressed packets.** The stream opened on a compressed packet returns what the body inflates to, whatever the
sizes of the reads, exactly when the ring is not full before the inflater is done. -/
theorem mpgpZSopen_delivers {algo : UInt8} (hτ : Inflates τ (zFlags algo) body out coded At)
    (hfuel : body.length + 1 < fuel) {inner inner' : Chain τ k} {h h' : Heap} {s : ZStream τ}
    (hin : (reader fuel k).Serves inner (algo :: (body ++ rest)))
    (hopen : mpgpZSopen fuel inner h = (some s, inner', h')) :
    (∀ ns, (∀ n ∈ ns, 0 < n) → Delivers fuel (k := k + 1) (.z s, inner') out ns) ↔ FitsRing body out coded := by
  constructor
  · intro hall
    by_contra hfit
    refine mpgpZSopen_overruns hτ hfit hfuel hin hopen (hall _ fun n hn => ?_)
    rw [List.mem_singleton.1 hn]
    exact Nat.succ_pos _
  · intro hfit ns _
    obtain ⟨hs, -⟩ := mpgpZSopen_holds hτ hin hopen
    obtain ⟨hbytes, hsound, hends⟩ := Pending.serves hτ hfit (by omega) (.inr ⟨0, 0, 0, hs, rfl⟩)
    exact ⟨hbytes ns, hsound ns, hends ns⟩

end

/-! ## A stored block

An inflater for a block that is stored as it is, to try the results on. -/

structure StoredState where
  header : List UInt8
  produced : Nat

/-- The final-block bit with type 0, and the length with its complement. -/
def storedHeader (out : List UInt8) : List UInt8 :=
  [1, UInt8.ofNat out.length, UInt8.ofNat (out.length / 256), ~~~ UInt8.ofNat out.length,
    ~~~ UInt8.ofNat (out.length / 256)]

def stored : Tinfl where
  State := StoredState
  init := ⟨[], 0⟩
  decompress d input ring next avail _ :=
    if next < 0 then (TINFL_STATUS_BAD_PARAM, 0, 0, d, ring)
    else
      let head := input.take (5 - d.header.length)
      let header := d.header ++ head
      if header.length < 5 then (TINFL_STATUS_NEEDS_MORE_INPUT, input.length, 0, ⟨header, d.produced⟩, ring)
      else
        let len := (header.getD 1 0).toNat + 256 * (header.getD 2 0).toNat
        let data := (input.drop head.length).take (min avail (len - d.produced))
        (if d.produced + data.length = len then TINFL_STATUS_DONE
          else if data.length = avail then TINFL_STATUS_HAS_MORE_OUTPUT else TINFL_STATUS_NEEDS_MORE_INPUT,
          head.length + data.length, data.length, ⟨header, d.produced + data.length⟩,
          ring.take next.toNat ++ (data ++ ring.drop (next.toNat + data.length)))

/-- The header, then the data. -/
def StoredAt (out : List UInt8) (d : StoredState) (i o : Nat) : Prop :=
  d.header = (storedHeader out).take i ∧ d.produced = o ∧ (i < 5 ∧ o = 0 ∨ i = 5 + o) ∧ o ≤ out.length

section

variable {out rest : List UInt8} {i m : Nat}

theorem storedHeader_length : (storedHeader out).length = 5 := rfl

/-- What a call finds of the header. -/
theorem stored_head :
    (storedHeader out).take i ++
      ((((storedHeader out ++ out ++ rest).drop i).take m).take (5 - ((storedHeader out).take i).length)) =
    (storedHeader out).take (i + m) := by
  have hlen : ((storedHeader out).take i).length = min i 5 := List.length_take
  rw [hlen, List.take_add, List.append_assoc, List.append_right_inj, List.take_take]
  by_cases hi : i < 5
  · rw [List.drop_append_of_le_length (by rw [storedHeader_length]; omega), List.take_append_of_le_length
      (by rw [List.length_drop, storedHeader_length]; omega), List.take_eq_take_iff, List.length_drop, storedHeader_length]
    omega
  · have hnil : (storedHeader out).drop i = [] := List.drop_eq_nil_of_le (by rw [storedHeader_length]; omega)
    rw [hnil, List.take_nil, show min (5 - min i 5) m = 0 by omega, List.take_zero]

/-- What a call finds of the data. -/
theorem stored_data {o t k : Nat} (hk : i + k = 5 + o) (ho : o ≤ out.length) (ht : t ≤ out.length - o) :
    ((((storedHeader out ++ out ++ rest).drop i).take m).drop k).take t = (out.drop o).take (min (m - k) t) := by
  have hskip : (storedHeader out ++ out ++ rest).drop (5 + o) = out.drop o ++ rest := by
    have hheader : (storedHeader out ++ (out ++ rest)).drop 5 = out ++ rest := rfl
    rw [List.append_assoc, ← List.drop_drop, hheader, List.drop_append_of_le_length ho]
  rw [List.drop_take, List.drop_drop, hk, hskip, List.take_take, Nat.min_comm, List.take_append_of_le_length]
  rw [List.length_drop]
  omega

theorem storedHeader_len (h : out.length < 2 ^ 16) :
    ((storedHeader out).getD 1 0).toNat + 256 * ((storedHeader out).getD 2 0).toNat = out.length := by
  show (UInt8.ofNat out.length).toNat + 256 * (UInt8.ofNat (out.length / 256)).toNat = out.length
  rw [UInt8.toNat_ofNat', UInt8.toNat_ofNat']
  omega

/-- What a call takes: the missing part of the header, then `t` octets of data. -/
theorem stored_takes {o t n r avail : Nat} (hio : i < 5 ∧ o = 0 ∨ i = 5 + o) (ho : o ≤ n) (hm : 5 ≤ i + m)
    (ht : min (m - (5 - min i 5)) (min avail (n - o)) = t) :
    i + (5 - min i 5 + t) = 5 + (o + t) ∧ t ≤ avail ∧ o + t ≤ n ∧
      5 - min i 5 + t ≤ min m (5 + n + r - i) ∧
      (o + t ≠ n → t ≠ avail → 5 - min i 5 + t = min m (5 + n + r - i)) := by
  omega

theorem stored_inflates (h : out.length < 2 ^ 16) :
    Inflates stored 0 (storedHeader out ++ out) out (fun i => i - 5) (StoredAt out) := by
  refine ⟨⟨rfl, rfl, .inl ⟨by decide, rfl⟩, Nat.zero_le _⟩, rfl, fun a b hab => Nat.sub_le_sub_right hab 5,
    fun d input ring next avail flags hneg => if_pos hneg, ?_⟩
  rintro rest input ring d i o m next avail ⟨hheader, rfl, hio, ho⟩ rfl hnil - hspace -
  have hlen : ((storedHeader out).take i).length = min i 5 := List.length_take
  have hbody : (storedHeader out ++ out).length = 5 + out.length := List.length_append
  have hinput : (((storedHeader out ++ out ++ rest).drop i).take m).length = min m (5 + out.length + rest.length - i) := by
    rw [List.length_take, List.length_drop, List.length_append, hbody]
  have hflow : d.produced ≤ out.length := ho
  simp only [stored]
  rw [if_neg (by omega), hheader, stored_head]
  by_cases hshort : i + m < 5
  · have hshort' : ((storedHeader out).take (i + m)).length < 5 := by
      rw [List.length_take, storedHeader_length]
      omega
    rw [if_pos hshort']
    have hm : (((storedHeader out ++ out ++ rest).drop i).take m).length = m := by omega
    have hne : m ≠ 0 := by
      intro h0
      have := hnil (List.length_eq_zero_iff.1 (hm.trans h0))
      omega
    rw [hm]
    refine ⟨Nat.le_of_eq hm.symm, Nat.zero_le _, ho, ⟨rfl, rfl, .inl ?_, ho⟩, by simp, .inr (.inl ⟨rfl, hm.symm, ?_⟩)⟩
    · show i + m < 5 ∧ d.produced + 0 = 0
      omega
    · show i + m < (storedHeader out ++ out).length ∧ d.produced + 0 = i + m - 5
      omega
  · have hfull : (storedHeader out).take (i + m) = storedHeader out :=
      List.take_of_length_le (by rw [storedHeader_length]; omega)
    rw [hfull, if_neg (by rw [storedHeader_length]; omega), storedHeader_len h, hlen]
    have hk : ((((storedHeader out ++ out ++ rest).drop i).take m).take (5 - min i 5)).length = 5 - min i 5 := by
      rw [List.length_take, hinput]
      omega
    rw [hk, stored_data (by omega) ho (Nat.min_le_right ..)]
    generalize ht : min (m - (5 - min i 5)) (min avail (out.length - d.produced)) = t
    have hdata : ((out.drop d.produced).take t).length = t := by
      rw [List.length_take, List.length_drop]
      omega
    obtain ⟨hi, havail, hout, htaken, hall⟩ := stored_takes (r := rest.length) hio ho (Nat.le_of_not_lt hshort) ht
    rw [← hinput] at htaken hall
    have hkept : (storedHeader out).take (i + (5 - min i 5 + t)) = storedHeader out :=
      List.take_of_length_le (by rw [storedHeader_length, hi]; exact Nat.le_add_right ..)
    rw [hdata, Int.toNat_natCast]
    refine ⟨htaken, havail, hout, ⟨hkept.symm, rfl, .inr hi, hout⟩, rfl, ?_⟩
    dsimp only
    rw [hbody, hi]
    split_ifs with hdone hfill
    · exact .inl ⟨rfl, hdone, by rw [hdone]⟩
    · exact .inr (.inr ⟨rfl, hfill, Nat.lt_of_le_of_ne hout hdone⟩)
    · have hlt := Nat.lt_of_le_of_ne hout hdone
      exact .inr (.inl ⟨rfl, hall hdone hfill, Nat.add_lt_add_left hlt 5, (Nat.add_sub_cancel_left ..).symm⟩)

end

/-- A stored block as a compressed packet of algorithm 1, without its header. -/
def storedPacket (out : List UInt8) : Chain stored 0 := (⟨1 :: (storedHeader out ++ out), false, false⟩ : Source)

theorem storedPacket_serves (fuel : Nat) (out : List UInt8) :
    (reader fuel 0).Serves (storedPacket out) (1 :: (storedHeader out ++ out ++ [])) := by
  have hplain : Plain (storedPacket out) := ⟨rfl, rfl⟩
  rw [List.append_nil]
  exact hplain.serves

theorem mpgpZSopen_delivers_sample : ∃ s inner h, mpgpZSopen 10 (storedPacket [0x61, 0x62, 0x63]) goodHeap =
      (some s, inner, h) ∧
    ∀ ns, (∀ n ∈ ns, 0 < n) → Delivers 10 (k := 1) (.z s, inner) [0x61, 0x62, 0x63] ns := by
  have hin := storedPacket_serves 10 [0x61, 0x62, 0x63]
  obtain ⟨s, inner, h, hopen⟩ := mpgpZSopen_some (h := goodHeap) hin (.inl rfl) rfl
  exact ⟨s, inner, h, hopen, (mpgpZSopen_delivers (stored_inflates (by decide)) (by decide) hin hopen).2
    (.inl (by decide))⟩

/-- A stored block of a byte more than the ring holds, read at once. -/
theorem mpgpZSopen_overruns_sample : ∃ s inner h,
    Inflates stored (zFlags 1) (storedHeader (List.replicate 32769 0x61) ++ List.replicate 32769 0x61)
      (List.replicate 32769 0x61) (fun i => i - 5) (StoredAt (List.replicate 32769 0x61)) ∧
    mpgpZSopen 32776 (storedPacket (List.replicate 32769 0x61)) goodHeap = (some s, inner, h) ∧
    ¬ Delivers 32776 (k := 1) (.z s, inner) (List.replicate 32769 0x61) [32769] := by
  generalize hout : List.replicate 32769 (0x61 : UInt8) = out
  have hlen : out.length = 32769 := by rw [← hout, List.length_replicate]
  have hin := storedPacket_serves 32776 out
  have hbody : (storedHeader out ++ out).length = 32774 := by rw [List.length_append, hlen, storedHeader_length]
  have hfit : ¬ FitsRing (storedHeader out ++ out) out fun i => i - 5 := by
    have hsize : Z_OUT_BUF_SIZE = 32768 := rfl
    rintro (h | ⟨h, -⟩) <;> omega
  have hτ : Inflates stored (zFlags 1) (storedHeader out ++ out) out (fun i => i - 5) (StoredAt out) :=
    stored_inflates (by rw [hlen]; decide)
  obtain ⟨s, inner, h, hopen⟩ := mpgpZSopen_some (h := goodHeap) hin (.inl rfl) rfl
  exact ⟨s, inner, h, hτ, hopen, mpgpZSopen_overruns hτ hfit (by omega) hin hopen⟩

end Keynjector.Opgp
