import Keynjector.Cast128.CfbMode
/-
# Streams (stream.c, mem_stream.c, ff_stream.c and the four stream kinds of opgp.c)

A C stream is a struct of function pointers with a pointer to the stream below.
Here it is a `Chain`: a list of layers, as deep as its index says, over the
source the firmware opened. Each `…_sread` takes the `mpgp_sread` of the stream
below as a parameter.

| here | there |
| --- | --- |
| `Source`                     | the file or memory stream at the bottom (mem_stream.c, ff_stream.c) |
| `EncrStream`, `encrSread`    | `mpgp_encr_stream_t`, `encr_sread` (opgp.c:53) |
| `ZStream`, `zSread`          | `mpgp_z_stream_t`, `z_sread` (opgp.c:245) |
| `LitStream`, `litSread`      | `mpgp_lit_stream_t`, `lit_sread` (opgp.c:410) |
| `seof`, `serror`, `mpgpSread` | `mpgp_seof`, `mpgp_serror`, `mpgp_sread` (stream.c) through the pointers |
| `Heap`, `malloc`, `free`, `sclose` | allocation with failures, and a ledger of what was given back |
| `Tinfl`                      | `tinfl_decompress` (tinfl.c), a parameter |
-/

namespace Keynjector.Opgp

open Cast128

/-! ## Memory -/

/-- Which allocations succeed, how many were made, which objects were freed
and how often the source was closed. An object is named by the number of the
allocation that made it. -/
structure Heap where
  succeeds : Nat → Bool
  mallocs : Nat
  freed : List Nat
  closed : Nat

def malloc (h : Heap) : Option Nat × Heap :=
  (if h.succeeds h.mallocs then some h.mallocs else none, { h with mallocs := h.mallocs + 1 })

def free (id : Nat) (h : Heap) : Heap := { h with freed := id :: h.freed }

/-! ## The source -/

/-- The bytes a file or memory stream still delivers. A `broken` medium fails
when it is read beyond them, which raises `error`. -/
structure Source where
  data : List UInt8
  broken : Bool
  error : Bool
deriving DecidableEq, Repr

def Source.eof (s : Source) : Bool := s.data.isEmpty && !s.broken

def Source.read (s : Source) (n : Nat) : List UInt8 × Source :=
  if n ≤ s.data.length then (s.data.take n, { s with data := s.data.drop n })
  else (s.data, { s with data := [], error := s.error || s.broken })

/-! ## The layers -/

structure EncrStream where
  id : Nat
  /-- the object `ctx` points to -/
  ctxId : Nat
  ctx : CfbCtx
  len : Nat
deriving DecidableEq, Repr

/-- `tinfl_decompress(r, in, &in_bytes, out_start, out_next, &out_bytes, flags)`: status, input consumed, output
produced, decompressor and output buffer. `out_next` is an offset from `out_start`. -/
structure Tinfl where
  State : Type
  init : State
  decompress : State → List UInt8 → List UInt8 → Int → Nat → Nat → Int × Nat × Nat × State × List UInt8

def Z_BUF_SIZE : Nat := 32
def Z_OUT_BUF_SIZE : Nat := 32768
def TINFL_FLAG_HAS_MORE_INPUT : Nat := 2
def TINFL_STATUS_DONE : Int := 0

structure ZStream (τ : Tinfl) where
  id : Nat
  d : τ.State
  flags : Nat
  buf : List UInt8
  n : Nat
  pos : Nat
  outBuf : List UInt8
  availOut : Nat
  /-- offset from the start of `out_buf` -/
  pConsumed : Int
  error : Bool
  eof : Bool

structure LitStream where
  id : Nat
  len : Nat
deriving DecidableEq, Repr

inductive Layer (τ : Tinfl) where
  | encr (s : EncrStream)
  | z (s : ZStream τ)
  | lit (s : LitStream)

/-- A stream with `k` layers over its source, outermost first. -/
def Chain (τ : Tinfl) : Nat → Type
  | 0 => Source
  | k + 1 => Layer τ × Chain τ k

/-! ## Reading -/

section
variable {σ : Type} (read : σ → Nat → List UInt8 × σ)

def encrSread (s : EncrStream) (inner : σ) (n : Nat) : List UInt8 × EncrStream × σ :=
  let n := if n > s.len then s.len else n
  let s := { s with len := s.len - n }
  let (c, inner) := read inner n
  let (m, ctx) := cast128CfbDecrypt s.ctx c
  (m, { s with ctx := ctx }, inner)

def litSread (s : LitStream) (inner : σ) (n : Nat) : List UInt8 × LitStream × σ :=
  let n := if n > s.len then s.len else n
  let s := { s with len := s.len - n }
  let (m, inner) := read inner n
  (m, s, inner)

variable {τ : Tinfl}

/-- Where `buf` lies from `out_buf`: `n` and `pos` are in between. -/
def Z_BUF_OFFSET : Int := -40

/-- The byte at an offset from `out_buf`, which may lie in `buf`, `n` or `pos`. -/
def ZStream.byteAt (s : ZStream τ) (off : Int) : UInt8 :=
  if 0 ≤ off then s.outBuf.getD off.toNat 0
  else if off < -8 then s.buf.getD (off - Z_BUF_OFFSET).toNat 0
  else if off < -4 then UInt8.ofNat (s.n / 256 ^ (off + 8).toNat)
  else UInt8.ofNat (s.pos / 256 ^ (off + 4).toNat)

/-- `while ((size) && (s->p_consumed < p_out))`: bytes, stream, size left. -/
def zConsume (s : ZStream τ) (pOut : Int) (size : Nat) : List UInt8 × ZStream τ × Nat :=
  let k := min size (pOut - s.pConsumed).toNat
  ((List.range k).map fun i : Nat => s.byteAt (s.pConsumed + i), { s with pConsumed := s.pConsumed + k }, size - k)

/-- `for ( ; ; )`, with `fuel` for the rounds. -/
def zLoop : Nat → Int → Nat → List UInt8 → Nat → ZStream τ → σ → List UInt8 × ZStream τ × σ
  | 0, _, _, out, _, s, inner => (out, s, inner)
  | fuel + 1, pOut, availIn, out, size, s, inner =>
    let (availIn, s, inner) :=
      if availIn = 0 then
        let (bs, inner) := read inner Z_BUF_SIZE
        (bs.length, { s with buf := bs ++ s.buf.drop bs.length, n := bs.length, pos := 0 }, inner)
      else (availIn, s, inner)
    let flags := (if availIn ≠ 0 then TINFL_FLAG_HAS_MORE_INPUT else 0) ||| s.flags
    let (status, inBytes, outBytes, d, outBuf) :=
      τ.decompress s.d ((s.buf.drop s.pos).take availIn) s.outBuf pOut s.availOut flags
    let availIn := availIn - inBytes
    let s := { s with d := d, outBuf := outBuf, pos := s.pos + inBytes, availOut := s.availOut - outBytes }
    let pOut := pOut + outBytes
    let (bs, s, size) := zConsume s pOut size
    let out := out ++ bs
    if size = 0 then (out, s, inner)
    else
      let (pOut, s) :=
        if s.availOut = 0 then (Z_BUF_OFFSET, { s with pConsumed := Z_BUF_OFFSET, availOut := Z_OUT_BUF_SIZE })
        else (pOut, s)
      if status < TINFL_STATUS_DONE then (out, { s with error := true }, inner)
      else if status ≤ TINFL_STATUS_DONE then (out, { s with eof := true }, inner)
      else zLoop fuel pOut availIn out size s inner

/-! The parts of one round. -/

/-- `if (avail_in == 0)` -/
def zFill (availIn : Nat) (s : ZStream τ) (inner : σ) : Nat × ZStream τ × σ :=
  if availIn = 0 then
    let (bs, inner) := read inner Z_BUF_SIZE
    (bs.length, { s with buf := bs ++ s.buf.drop bs.length, n := bs.length, pos := 0 }, inner)
  else (availIn, s, inner)

/-- The call of the inflater: status, input left, next output position, stream. -/
def zInflate (pOut : Int) (availIn : Nat) (s : ZStream τ) : Int × Nat × Int × ZStream τ :=
  let flags := (if availIn ≠ 0 then TINFL_FLAG_HAS_MORE_INPUT else 0) ||| s.flags
  let (status, inBytes, outBytes, d, outBuf) :=
    τ.decompress s.d ((s.buf.drop s.pos).take availIn) s.outBuf pOut s.availOut flags
  (status, availIn - inBytes, pOut + outBytes,
    { s with d := d, outBuf := outBuf, pos := s.pos + inBytes, availOut := s.availOut - outBytes })

/-- `if (!s->avail_out)` -/
def zWrap (pOut : Int) (s : ZStream τ) : Int × ZStream τ :=
  if s.availOut = 0 then (Z_BUF_OFFSET, { s with pConsumed := Z_BUF_OFFSET, availOut := Z_OUT_BUF_SIZE }) else (pOut, s)

theorem zLoop_succ (fuel : Nat) (pOut : Int) (availIn : Nat) (out : List UInt8) (size : Nat) (s : ZStream τ) (inner : σ) :
    zLoop read (fuel + 1) pOut availIn out size s inner =
      let (availIn, s, inner) := zFill read availIn s inner
      let (status, availIn, pOut, s) := zInflate pOut availIn s
      let (bs, s, size) := zConsume s pOut size
      let out := out ++ bs
      if size = 0 then (out, s, inner)
      else
        let (pOut, s) := zWrap pOut s
        if status < TINFL_STATUS_DONE then (out, { s with error := true }, inner)
        else if status ≤ TINFL_STATUS_DONE then (out, { s with eof := true }, inner)
        else zLoop read fuel pOut availIn out size s inner := rfl

def zSread (fuel : Nat) (s : ZStream τ) (inner : σ) (size : Nat) : List UInt8 × ZStream τ × σ :=
  if size = 0 then ([], s, inner)
  else
    let pOut : Int := Z_OUT_BUF_SIZE - s.availOut
    let availIn := s.n - s.pos
    let (out, s, size) := zConsume s pOut size
    if size = 0 then (out, s, inner) else zLoop read fuel pOut availIn out size s inner

end

variable {τ : Tinfl}

def seof : {k : Nat} → Chain τ k → Bool
  | 0, s => Source.eof s
  | _ + 1, (.encr s, inner) => s.len == 0 || seof inner
  | _ + 1, (.z s, _) => s.eof
  | _ + 1, (.lit s, inner) => s.len == 0 || seof inner

def serror : {k : Nat} → Chain τ k → Bool
  | 0, s => Source.error s
  | _ + 1, (.encr _, inner) => serror inner
  | _ + 1, (.z s, inner) => s.error || serror inner
  | _ + 1, (.lit _, inner) => serror inner

variable (fuel : Nat)

def mpgpSread : {k : Nat} → Chain τ k → Nat → List UInt8 × Chain τ k
  | 0, s, n => if seof s || serror s then ([], s) else Source.read s n
  | k + 1, (.encr s, inner), n =>
    if seof (k := k + 1) (.encr s, inner) || serror (k := k + 1) (.encr s, inner) then ([], (.encr s, inner))
    else
      let (m, s, inner) := encrSread mpgpSread s inner n
      (m, (.encr s, inner))
  | k + 1, (.z s, inner), n =>
    if seof (k := k + 1) (.z s, inner) || serror (k := k + 1) (.z s, inner) then ([], (.z s, inner))
    else
      let (m, s, inner) := zSread mpgpSread fuel s inner n
      (m, (.z s, inner))
  | k + 1, (.lit s, inner), n =>
    if seof (k := k + 1) (.lit s, inner) || serror (k := k + 1) (.lit s, inner) then ([], (.lit s, inner))
    else
      let (m, s, inner) := litSread mpgpSread s inner n
      (m, (.lit s, inner))

/-- `mpgp_sclose`: each layer frees itself and closes the stream below. -/
def sclose : {k : Nat} → Chain τ k → Heap → Heap
  | 0, _, h => { h with closed := h.closed + 1 }
  | _ + 1, (.encr s, inner), h => sclose inner (free s.id (free s.ctxId h))
  | _ + 1, (.z s, inner), h => sclose inner (free s.id h)
  | _ + 1, (.lit s, inner), h => sclose inner (free s.id h)

/-! ## What a stream holds

`content` is what is left to read. It is known without the inflater when no
layer is compressed, and reads see all of it when the medium is sound. -/

open Cfb

def content : {k : Nat} → Chain τ k → List UInt8
  | 0, s => Source.data s
  | _ + 1, (.encr s, inner) => (run (decStep s.ctx.ctx) s.ctx.state ((content inner).take s.len)).1
  | _ + 1, (.z _, _) => []
  | _ + 1, (.lit s, inner) => (content inner).take s.len

/-- A sound medium and no compressed layer. -/
def Plain : {k : Nat} → Chain τ k → Prop
  | 0, s => Source.broken s = false ∧ Source.error s = false
  | _ + 1, (.encr s, inner) => s.ctx.Ok ∧ Plain inner
  | _ + 1, (.z _, _) => False
  | _ + 1, (.lit _, inner) => Plain inner

theorem Plain.no_error {k : Nat} {s : Chain τ k} (h : Plain s) : serror s = false := by
  induction k with
  | zero => exact h.2
  | succ k ih =>
    obtain ⟨layer, inner⟩ := s
    cases layer with
    | encr s => exact ih h.2
    | z s => exact h.elim
    | lit s => exact ih h

theorem Plain.content_of_eof {k : Nat} {s : Chain τ k} (h : Plain s) (he : seof s = true) : content s = [] := by
  induction k with
  | zero =>
    simp only [seof, Source.eof, Bool.and_eq_true, List.isEmpty_iff] at he
    exact he.1
  | succ k ih =>
    obtain ⟨layer, inner⟩ := s
    cases layer with
    | encr s =>
      simp only [seof, Bool.or_eq_true, beq_iff_eq] at he
      rcases he with he | he
      · simp [content, he]
      · simp [content, ih h.2 he]
    | z s => exact h.elim
    | lit s =>
      simp only [seof, Bool.or_eq_true, beq_iff_eq] at he
      rcases he with he | he
      · simp [content, he]
      · simp [content, ih h he]

/-- What a read of `n` bytes does: it returns the first `n` bytes that are left. -/
structure Reads {k : Nat} (s : Chain τ k) (n : Nat) (r : List UInt8 × Chain τ k) : Prop where
  bytes : r.1 = (content s).take n
  rest : content r.2 = (content s).drop n
  plain : Plain r.2

/-- A limit on the length of a read does not change what is read. -/
theorem take_min {l : List UInt8} {n m : Nat} (h : l.length ≤ m) : l.take (if n > m then m else n) = l.take n := by
  split
  · rw [List.take_of_length_le h, List.take_of_length_le (by omega)]
  · rfl

theorem drop_min {l : List UInt8} {n m : Nat} (h : l.length ≤ m) : l.drop (if n > m then m else n) = l.drop n := by
  split
  · rw [List.drop_eq_nil_of_le h, List.drop_eq_nil_of_le (by omega)]
  · rfl

theorem drop_take_limit (l : List UInt8) (m n : Nat) : (l.drop n).take (m - n) = (l.take m).drop n :=
  (List.drop_take ..).symm

/-- The test for end of file and error in front of every read. -/
theorem Reads.guard {k : Nat} {s : Chain τ k} {n : Nat} {r : List UInt8 × Chain τ k} (h : Plain s) (hr : Reads s n r) :
    Reads s n (if seof s || serror s then ([], s) else r) := by
  by_cases he : seof s = true
  · have hc := h.content_of_eof he
    rw [if_pos (by rw [he]; rfl)]
    exact ⟨by rw [hc, List.take_nil], by rw [hc, List.drop_nil], h⟩
  · rw [if_neg (by rw [h.no_error, Bool.or_false]; exact he)]
    exact hr

theorem Reads.source {s : Source} (h : @Plain τ 0 s) (n : Nat) :
    @Reads τ 0 s n (s.read n) := by
  unfold Source.read
  split
  · exact ⟨rfl, rfl, h⟩
  · rename_i hn
    have hle : s.data.length ≤ n := Nat.le_of_lt (Nat.lt_of_not_le hn)
    refine ⟨(List.take_of_length_le hle).symm, (List.drop_eq_nil_of_le hle).symm, h.1, ?_⟩
    show (s.error || s.broken) = false
    rw [h.1, h.2]
    rfl

theorem Reads.lit {k : Nat} {read : Chain τ k → Nat → List UInt8 × Chain τ k} {inner : Chain τ k} {n : Nat}
    (hread : ∀ n, Reads inner n (read inner n)) (s : LitStream) :
    Reads (k := k + 1) (.lit s, inner) n ((litSread read s inner n).1, (.lit (litSread read s inner n).2.1,
      (litSread read s inner n).2.2)) := by
  have hlen : ((content inner).take s.len).length ≤ s.len := List.length_take_le ..
  have hle : (if n > s.len then s.len else n) ≤ s.len := by
    split <;> omega
  obtain ⟨hb, hr, hp⟩ := hread (if n > s.len then s.len else n)
  refine ⟨?_, ?_, hp⟩
  · show (read inner (if n > s.len then s.len else n)).1 = ((content inner).take s.len).take n
    rw [hb, ← take_min hlen, List.take_take, Nat.min_eq_left hle]
  · show (content (read inner (if n > s.len then s.len else n)).2).take (s.len - if n > s.len then s.len else n) =
      ((content inner).take s.len).drop n
    rw [hr, drop_take_limit, drop_min hlen]

theorem Reads.encr {k : Nat} {read : Chain τ k → Nat → List UInt8 × Chain τ k} {inner : Chain τ k} {n : Nat}
    (hread : ∀ n, Reads inner n (read inner n)) {s : EncrStream} (hok : s.ctx.Ok) :
    Reads (k := k + 1) (.encr s, inner) n ((encrSread read s inner n).1, (.encr (encrSread read s inner n).2.1,
      (encrSread read s inner n).2.2)) := by
  have hlen : (run (decStep s.ctx.ctx) s.ctx.state ((content inner).take s.len)).1.length ≤ s.len := by
    rw [run_length]
    exact List.length_take_le ..
  have hle : (if n > s.len then s.len else n) ≤ s.len := by
    split <;> omega
  obtain ⟨hb, hr, hp⟩ := hread (if n > s.len then s.len else n)
  have hdec := cast128CfbDecrypt_spec hok (read inner (if n > s.len then s.len else n)).1
  have htake : (read inner (if n > s.len then s.len else n)).1 =
      ((content inner).take s.len).take (if n > s.len then s.len else n) := by
    rw [hb, List.take_take, Nat.min_eq_left hle]
  refine ⟨?_, ?_, hdec.ok, hp⟩
  · show (cast128CfbDecrypt s.ctx (read inner (if n > s.len then s.len else n)).1).1 =
      (run (decStep s.ctx.ctx) s.ctx.state ((content inner).take s.len)).1.take n
    rw [← take_min hlen, ← run_take, ← htake, hdec.run]
  · show (run (decStep (cast128CfbDecrypt s.ctx (read inner (if n > s.len then s.len else n)).1).2.ctx)
        (cast128CfbDecrypt s.ctx (read inner (if n > s.len then s.len else n)).1).2.state
        ((content (read inner (if n > s.len then s.len else n)).2).take (s.len - if n > s.len then s.len else n))).1 =
      (run (decStep s.ctx.ctx) s.ctx.state ((content inner).take s.len)).1.drop n
    rw [hdec.key, hr, drop_take_limit, ← drop_min hlen, ← run_drop, ← htake, hdec.run]

/-- **A read takes the front of the content**, whatever the layers. -/
theorem mpgpSread_spec {k : Nat} {s : Chain τ k} (h : Plain s) (n : Nat) : Reads s n (mpgpSread fuel s n) := by
  induction k generalizing n with
  | zero => exact .guard h (.source h n)
  | succ k ih =>
    obtain ⟨layer, inner⟩ := s
    cases layer with
    | encr s => exact .guard h (.encr (fun n => ih h.2 n) h.1)
    | z s => exact h.elim
    | lit s => exact .guard h (.lit (fun n => ih h n) s)

/-- Reading bytes that are there. -/
theorem mpgpSread_append {k : Nat} {s : Chain τ k} (h : Plain s) {a rest : List UInt8} (hs : content s = a ++ rest) :
    ∃ s', mpgpSread fuel s a.length = (a, s') ∧ content s' = rest ∧ Plain s' := by
  obtain ⟨hb, hr, hp⟩ := mpgpSread_spec fuel h a.length
  rw [hs, List.take_left] at hb
  rw [hs, List.drop_left] at hr
  exact ⟨_, Prod.ext hb rfl, hr, hp⟩

/-! ## Reading it all -/

/-- Consecutive reads of the given sizes. -/
def reads {k : Nat} : Chain τ k → List Nat → List (List UInt8)
  | _, [] => []
  | s, n :: ns => (mpgpSread fuel s n).1 :: reads (mpgpSread fuel s n).2 ns

/-- A byte string cut at the given sizes. -/
def cut : List UInt8 → List Nat → List (List UInt8)
  | _, [] => []
  | d, n :: ns => d.take n :: cut (d.drop n) ns

theorem reads_eq_cut {k : Nat} {s : Chain τ k} (h : Plain s) (ns : List Nat) : reads fuel s ns = cut (content s) ns := by
  induction ns generalizing s with
  | nil => rfl
  | cons n ns ih =>
    obtain ⟨hb, hr, hp⟩ := mpgpSread_spec fuel h n
    rw [reads, cut, hb, ih hp, hr]

/-- The reads put together are the front of the content. -/
theorem flatten_cut (d : List UInt8) (ns : List Nat) : (cut d ns).flatten = d.take ns.sum := by
  induction ns generalizing d with
  | nil => simp [cut]
  | cons n ns ih =>
    rw [cut, List.flatten_cons, ih, List.sum_cons, List.take_add]

end Keynjector.Opgp
