import Keynjector.Sha1.Process
/-
# Streaming: `sha1_init`, `sha1_update`, `sha1_finish`, `sha1_digest` (sha1.c:22-254)

| here | there |
| --- | --- |
| `sha1Init`                  | `sha1_init` (sha1.c:22) |
| `sha1Update`, `updateLoop`  | `sha1_update` (:175) and its `while` |
| `pad`, `sha1Finish`         | `pad` (:206), `sha1_finish` (:222) |
| `sha1Hash`                  | `sha1_hash` (:241) |
| `sha1Digest`                | `sha1_digest` (:250) |

A byte pointer and a length are the list of the bytes they span. How far the
buffer is filled is not stored: it is `len` modulo 64. `Absorbed` ties the
context to the message seen so far, and each call extends the message.
-/

namespace Keynjector.Sha1

open Words BlockHash

def SHA1_CHUNK_SIZE : Nat := 64

/-- `memcpy(buf + at, data, …)`. -/
def memcpy (buf : List UInt8) (pos : Nat) (data : List UInt8) : List UInt8 :=
  buf.take pos ++ data ++ buf.drop (pos + data.length)

def sha1Init (ctx : Ctx) : Ctx :=
  { ctx with h0 := 0x67452301#32, h1 := 0xefcdab89#32, h2 := 0x98badcfe#32, h3 := 0x10325476#32,
             h4 := 0xc3d2e1f0#32, len := 0 }

/-- `(uint32_t)ctx->len & (SHA1_CHUNK_SIZE - 1)` -/
def fillOf (ctx : Ctx) : Nat := (ctx.len.setWidth 32 &&& BitVec.ofNat 32 (SHA1_CHUNK_SIZE - 1)).toNat

/-- `while (len >= SHA1_CHUNK_SIZE)`: the context and what is left of the input. -/
def updateLoop (ctx : Ctx) (m : List UInt8) : Ctx × List UInt8 :=
  if _h : SHA1_CHUNK_SIZE ≤ m.length then
    updateLoop (sha1Process ctx (m.take SHA1_CHUNK_SIZE)) (m.drop SHA1_CHUNK_SIZE)
  else (ctx, m)
termination_by m.length
decreasing_by simp [SHA1_CHUNK_SIZE] at *; omega

def sha1Update (ctx : Ctx) (m : List UInt8) : Ctx :=
  let fill := fillOf ctx
  let left := SHA1_CHUNK_SIZE - fill
  let ctx := { ctx with len := ctx.len + BitVec.ofNat 64 m.length }
  let (ctx, m, fill) :=
    if fill > 0 ∧ m.length ≥ left then
      let ctx := { ctx with buf := memcpy ctx.buf fill (m.take left) }
      (sha1Process ctx ctx.buf, m.drop left, 0)
    else (ctx, m, fill)
  let (ctx, m) := updateLoop ctx m
  if m.length > 0 then { ctx with buf := memcpy ctx.buf fill m } else ctx

def pad : List UInt8 := 0x80 :: List.replicate 63 0

/-- `WRITE_BE_64` -/
def WRITE_BE_64 (x : BitVec 64) : List UInt8 :=
  [⟨(x >>> 56).setWidth 8⟩, ⟨(x >>> 48).setWidth 8⟩, ⟨(x >>> 40).setWidth 8⟩, ⟨(x >>> 32).setWidth 8⟩,
   ⟨(x >>> 24).setWidth 8⟩, ⟨(x >>> 16).setWidth 8⟩, ⟨(x >>> 8).setWidth 8⟩, ⟨x.setWidth 8⟩]

def sha1Finish (ctx : Ctx) : Ctx :=
  let beLen := WRITE_BE_64 (ctx.len <<< 3)
  let fill := fillOf ctx
  let nPad := if fill < 56 then 56 - fill else 120 - fill
  sha1Update (sha1Update ctx (pad.take nPad)) beLen

def sha1Hash (ctx : Ctx) (m : List UInt8) : Ctx := sha1Finish (sha1Update (sha1Init ctx) m)

/-- `WRITE_BE_32` -/
def WRITE_BE_32 (x : Word) : List UInt8 :=
  [⟨(x >>> 24).setWidth 8⟩, ⟨(x >>> 16).setWidth 8⟩, ⟨(x >>> 8).setWidth 8⟩, ⟨x.setWidth 8⟩]

def sha1Digest (ctx : Ctx) : List UInt8 :=
  WRITE_BE_32 ctx.h0 ++ WRITE_BE_32 ctx.h1 ++ WRITE_BE_32 ctx.h2 ++ WRITE_BE_32 ctx.h3 ++ WRITE_BE_32 ctx.h4

/-! ## The loop absorbs the full blocks -/

@[simp] theorem Ctx.work_withWork (ctx : Ctx) (v : Work) : (ctx.withWork v).work = v := rfl
@[simp] theorem Ctx.withWork_work (ctx : Ctx) : ctx.withWork ctx.work = ctx := rfl
@[simp] theorem Ctx.withWork_withWork (ctx : Ctx) (v u : Work) : (ctx.withWork v).withWork u = ctx.withWork u := rfl

theorem updateLoop_eq (ctx : Ctx) (m : List UInt8) :
    updateLoop ctx m = (ctx.withWork (absorb 64 compress ctx.work m), tail 64 m) := by
  fun_induction updateLoop ctx m with
  | case1 ctx m h ih =>
    have h64 : 64 ≤ m.length := h
    rw [ih, sha1Process_eq_compress, Ctx.work_withWork, Ctx.withWork_withWork, absorb_block (by decide) h64,
      tail_block (by decide) h64]
    rfl
  | case2 ctx m h =>
    have h64 : m.length < 64 := Nat.lt_of_not_le h
    rw [absorb_of_lt h64, tail_eq_self h64, Ctx.withWork_work]

/-! ## The invariant -/

/-- The context after a message: the full blocks are in the chaining value, the
rest in the buffer. -/
structure Absorbed (ctx : Ctx) (msg : List UInt8) : Prop where
  work : ctx.work = absorb 64 compress initial msg
  buf : ctx.buf.take (msg.length % 64) = tail 64 msg
  bufSize : ctx.buf.length = 64
  len : ctx.len = BitVec.ofNat 64 msg.length

variable {ctx : Ctx} {msg m : List UInt8}

theorem Absorbed.fill (h : Absorbed ctx msg) : fillOf ctx = msg.length % 64 := by
  have h63 : BitVec.ofNat 32 (SHA1_CHUNK_SIZE - 1) = 63#32 := rfl
  have hand : ∀ x : Nat, x &&& 63 = x % 64 := fun x => Nat.and_two_pow_sub_one_eq_mod x 6
  simp only [fillOf, h.len, h63, BitVec.toNat_and, BitVec.toNat_setWidth, BitVec.toNat_ofNat, hand]
  omega

/-- `sha1_init`, whatever the buffer holds. -/
theorem Absorbed.init (h : ctx.buf.length = 64) : Absorbed (sha1Init ctx) [] := by
  refine ⟨?_, ?_, h, rfl⟩
  · rw [absorb_of_lt (by decide)]
    rfl
  · simp [tail]

theorem length_memcpy {buf data : List UInt8} {pos : Nat} (h : pos + data.length ≤ buf.length) :
    (memcpy buf pos data).length = buf.length := by
  simp [memcpy]
  omega

/-- Bytes that do not complete a block only go to the buffer. -/
theorem Absorbed.fill_buf (h : Absorbed ctx msg) (hlt : msg.length % 64 + m.length < 64) :
    Absorbed { ctx with len := ctx.len + BitVec.ofNat 64 m.length, buf := memcpy ctx.buf (msg.length % 64) m }
      (msg ++ m) := by
  have htail : (tail 64 msg ++ m).length < 64 := by simpa using hlt
  refine ⟨?_, ?_, ?_, ?_⟩
  · rw [absorb_append (by decide), absorb_of_lt htail]
    exact h.work
  · have hmod : (msg ++ m).length % 64 = msg.length % 64 + m.length := by
      rw [List.length_append]
      omega
    have htake : (ctx.buf.take (msg.length % 64) ++ m).length = msg.length % 64 + m.length := by
      simp [h.bufSize]
      omega
    rw [hmod, tail_append (by decide), tail_eq_self htail, ← h.buf, memcpy, ← htake, List.take_left]
  · rw [length_memcpy (by rw [h.bufSize]; omega), h.bufSize]
  · simp [h.len, BitVec.ofNat_add]

/-- The bytes that complete the block in the buffer. -/
theorem Absorbed.complete (h : Absorbed ctx msg) {d : List UInt8} (hd : msg.length % 64 + d.length = 64) :
    absorb 64 compress initial (msg ++ d) = compress ctx.work (memcpy ctx.buf (msg.length % 64) d) := by
  have hblock : memcpy ctx.buf (msg.length % 64) d = tail 64 msg ++ d := by
    rw [memcpy, hd, h.buf, List.drop_eq_nil_of_le h.bufSize.le, List.append_nil]
  have hlen : (tail 64 msg ++ d).length = 64 := by simpa using hd
  rw [absorb_append (by decide), absorb_block (by decide) hlen.ge, List.take_of_length_le hlen.le,
    List.drop_eq_nil_of_le hlen.le, absorb_of_lt (by decide), hblock, h.work]

@[simp] theorem memcpy_nil (buf : List UInt8) (pos : Nat) : memcpy buf pos [] = buf := by simp [memcpy]

/-- The end of `sha1_update`: with nothing in the buffer the full blocks are
absorbed and the rest is stored from the start. -/
theorem Absorbed.aligned (ctx : Ctx) (m : List UInt8) (hwork : ctx.work = absorb 64 compress initial msg) (hmod : msg.length % 64 = 0)
    (hbuf : ctx.buf.length = 64) (hlen : ctx.len = BitVec.ofNat 64 (msg ++ m).length) :
    Absorbed { ctx.withWork (absorb 64 compress ctx.work m) with buf := memcpy ctx.buf 0 (tail 64 m) } (msg ++ m) := by
  have htail : tail 64 msg = [] := List.length_eq_zero_iff.1 (by simpa using hmod)
  have hlt : m.length % 64 < 64 := Nat.mod_lt _ (by decide)
  refine ⟨?_, ?_, ?_, hlen⟩
  · rw [absorb_append (by decide), htail, List.nil_append, ← hwork]
    rfl
  · have hmod' : (msg ++ m).length % 64 = (tail 64 m).length := by
      rw [List.length_append, tail_length]
      omega
    rw [tail_append (by decide), htail, List.nil_append, hmod', memcpy, List.take_zero, List.nil_append,
      List.take_left]
  · rw [length_memcpy (by rw [tail_length]; omega), hbuf]

/-- `sha1_update` extends the message. -/
theorem Absorbed.update (h : Absorbed ctx msg) (m : List UInt8) : Absorbed (sha1Update ctx m) (msg ++ m) := by
  have hstore : ∀ (c : Ctx) (fill : Nat) (r : List UInt8),
      (if r.length > 0 then { c with buf := memcpy c.buf fill r } else c) = { c with buf := memcpy c.buf fill r } := by
    intro c fill r
    split
    · rfl
    · have hr : r = [] := List.length_eq_zero_iff.1 (by omega)
      rw [hr, memcpy_nil]
  have hfill := h.fill
  have hlt : msg.length % 64 < 64 := Nat.mod_lt _ (by decide)
  simp only [sha1Update, hfill, SHA1_CHUNK_SIZE, updateLoop_eq, hstore]
  by_cases hc : msg.length % 64 > 0 ∧ m.length ≥ 64 - msg.length % 64
  · -- the input completes the block in the buffer
    simp only [hc, and_self, if_true]
    have hd : msg.length % 64 + (m.take (64 - msg.length % 64)).length = 64 := by
      rw [List.length_take]
      omega
    have hcomplete := h.complete hd
    have hsplit : msg ++ m = (msg ++ m.take (64 - msg.length % 64)) ++ m.drop (64 - msg.length % 64) := by
      rw [List.append_assoc, List.take_append_drop]
    have hlen : ctx.len + BitVec.ofNat 64 m.length = BitVec.ofNat 64 (msg ++ m).length := by
      rw [List.length_append, BitVec.ofNat_add, ← h.len]
    generalize hb : memcpy ctx.buf (msg.length % 64) (m.take (64 - msg.length % 64)) = block at hcomplete ⊢
    have hbl : block.length = 64 := by
      rw [← hb, length_memcpy (by rw [h.bufSize]; omega), h.bufSize]
    obtain ⟨c, hc⟩ : ∃ c, sha1Process { ctx with len := ctx.len + BitVec.ofNat 64 m.length, buf := block } block = c :=
      ⟨_, rfl⟩
    have hc' := sha1Process_eq_compress { ctx with len := ctx.len + BitVec.ofNat 64 m.length, buf := block } block
    rw [hc] at hc'
    rw [hc, hsplit]
    refine Absorbed.aligned c _ ?_ ?_ ?_ ?_
    · rw [hc', hcomplete]
      rfl
    · rw [List.length_append]
      omega
    · rw [hc']
      exact hbl
    · rw [hc', ← hsplit]
      exact hlen
  · simp only [hc, if_false]
    by_cases h0 : msg.length % 64 = 0
    · have := Absorbed.aligned { ctx with len := ctx.len + BitVec.ofNat 64 m.length } m h.work h0 h.bufSize
        (by simp [h.len, BitVec.ofNat_add])
      rw [h0]
      exact this
    · -- the input stays in the buffer
      have hm : msg.length % 64 + m.length < 64 := by omega
      rw [absorb_of_lt (by omega), tail_eq_self (by omega)]
      exact h.fill_buf hm

theorem Absorbed.updates (h : Absorbed ctx msg) (ms : List (List UInt8)) :
    Absorbed (ms.foldl sha1Update ctx) (msg ++ ms.flatten) := by
  induction ms generalizing ctx msg with
  | nil => simpa using h
  | cons m ms ih =>
    rw [List.flatten_cons, ← List.append_assoc]
    exact ih (h.update m)

/-! ## The end of the message -/

theorem WRITE_BE_64_eq (x : BitVec 64) : WRITE_BE_64 x = be64 x := by
  simp [WRITE_BE_64, be64, List.range, List.range.loop]

theorem pad_take (n : Nat) : pad.take ((if n % 64 < 56 then 56 - n % 64 else 120 - n % 64)) ++ be64 (BitVec.ofNat 64 n <<< 3) =
    padding n := by
  have hlt : n % 64 < 64 := Nat.mod_lt _ (by decide)
  obtain ⟨k, hk, hk'⟩ : ∃ k, (if n % 64 < 56 then 56 - n % 64 else 120 - n % 64) = k + 1 ∧ k = (119 - n % 64) % 64 := by
    refine ⟨_, ?_, rfl⟩
    split <;> omega
  have hshift : BitVec.ofNat 64 n <<< 3 = BitVec.ofNat 64 (8 * n) := by
    apply BitVec.eq_of_toNat_eq
    simp only [BitVec.toNat_shiftLeft, BitVec.toNat_ofNat, Nat.shiftLeft_eq]
    omega
  rw [hk, hshift, padding, ← hk', pad, List.take_succ_cons, List.take_replicate]
  rw [show min k 63 = k by omega]

theorem WRITE_BE_32_eq (x : Word) : WRITE_BE_32 x = beBytes x := by simp [WRITE_BE_32, beBytes, byteOf]

/-- `sha1_finish` then `sha1_digest`. -/
theorem Absorbed.digest (h : Absorbed ctx msg) : sha1Digest (sha1Finish ctx) = sha1 msg := by
  have hend : Absorbed (sha1Finish ctx) (msg ++ padding msg.length) := by
    rw [← pad_take, ← List.append_assoc, ← h.len, ← WRITE_BE_64_eq, sha1Finish, h.fill]
    exact (h.update _).update _
  have hw := hend.work
  simp only [sha1Digest, WRITE_BE_32_eq, sha1, digestBytes, ← hw]
  rfl

/-- **Streaming SHA-1**: whatever the context held, `sha1_init`, any number of
`sha1_update` calls, `sha1_finish` and `sha1_digest` give the SHA-1 of the
concatenation, so the way the message is split does not matter. -/
theorem sha1_streaming (ctx : Ctx) (ms : List (List UInt8)) (hbuf : ctx.buf.length = SHA1_CHUNK_SIZE) :
    sha1Digest (sha1Finish (ms.foldl sha1Update (sha1Init ctx))) = sha1 ms.flatten :=
  ((Absorbed.init hbuf).updates ms).digest

theorem sha1_streaming_abc :
    sha1Digest (sha1Finish ([[0x61], [], [0x62, 0x63]].foldl sha1Update
      (sha1Init ⟨0, 0, 0, 0, 0, List.replicate 64 0xff, 7⟩))) =
    [0xa9, 0x99, 0x3e, 0x36, 0x47, 0x06, 0x81, 0x6a, 0xba, 0x3e, 0x25, 0x71, 0x78, 0x50, 0xc2, 0x6c,
     0x9c, 0xd0, 0xd8, 0x9d] := by
  rw [sha1_streaming _ _ (by decide)]
  exact sha1_abc

end Keynjector.Sha1
