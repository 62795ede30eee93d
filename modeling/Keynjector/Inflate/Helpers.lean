import Keynjector.Inflate.Packed
/-
# Higher level helpers (tinfl.c:374-440, tinfl.h:52-76)

Inflating in one go: into memory, into a heap block that is made larger as needed, and through
a dictionary of 32768 bytes into a callback. Each gives back the data of every stream, and
fails on a wrong checksum. A stream of no data ends before there is a heap block, so that
`tinfl_decompress_mem_to_heap` returns for it what it returns on a failure.

| here | there |
| --- | --- |
| `tinflDecompressMemToMem`      | `tinfl_decompress_mem_to_mem` |
| `tinflDecompressMemToHeap`     | `tinfl_decompress_mem_to_heap` |
| `tinflDecompressMemToCallback` | `tinfl_decompress_mem_to_callback` |

The decompressor on the stack holds `garbage` before `tinfl_init`.
-/

namespace Keynjector.Inflate

open Opgp (Tinfl TINFL_FLAG_HAS_MORE_INPUT TINFL_STATUS_DONE Inflated)

def TINFL_DECOMPRESS_MEM_TO_MEM_FAILED : Nat := 2 ^ 32 - 1
/-- `flags & ~mask` -/
def clearFlags (flags mask : Nat) : Nat := flags &&& (2 ^ 32 - 1 - mask)

section

variable (τ : Tinfl)

/-- The number of bytes, and the buffer -/
def tinflDecompressMemToMem (out src : List UInt8) (flags : Nat) : Nat × List UInt8 :=
  let (status, _, outBufLen, _, out) := τ.decompress τ.init src out 0 out.length
    (clearFlags flags TINFL_FLAG_HAS_MORE_INPUT ||| TINFL_FLAG_USING_NON_WRAPPING_OUTPUT_BUF)
  (if status ≠ TINFL_STATUS_DONE then TINFL_DECOMPRESS_MEM_TO_MEM_FAILED else outBufLen, out)

/-- `pBuf`, which is `NULL` while the block has no bytes -/
def blockAt (buf : List UInt8) : Option (List UInt8) := if buf = [] then none else some buf

/-- The loop of `tinfl_decompress_mem_to_heap`: the block, with the number of bytes in it. `none` is out of fuel. -/
def memToHeap (realloc : List UInt8 → Nat → Option (List UInt8)) (src : List UInt8) (flags : Nat) :
    Nat → τ.State → List UInt8 → Nat → Nat → Option (Option (List UInt8) × Nat)
  | 0, _, _, _, _ => none
  | fuel + 1, d, buf, srcBufOfs, outLen =>
    let (status, srcBufSize, dstBufSize, d, buf) := τ.decompress d (src.drop srcBufOfs) buf outLen (buf.length - outLen)
      (clearFlags flags TINFL_FLAG_HAS_MORE_INPUT ||| TINFL_FLAG_USING_NON_WRAPPING_OUTPUT_BUF)
    if status < 0 ∨ status = TINFL_STATUS_NEEDS_MORE_INPUT then some (none, 0)
    else if status = TINFL_STATUS_DONE then some (blockAt buf, outLen + dstBufSize)
    else
      match realloc buf (max 128 (buf.length * 2)) with
      | none => some (none, 0)
      | some buf => memToHeap realloc src flags fuel d buf (srcBufOfs + srcBufSize) (outLen + dstBufSize)

def tinflDecompressMemToHeap (realloc : List UInt8 → Nat → Option (List UInt8)) (fuel : Nat) (src : List UInt8) (flags : Nat) :
    Option (Option (List UInt8) × Nat) :=
  memToHeap τ realloc src flags fuel τ.init [] 0 0

variable {υ : Type}

end

/-! ## The flags -/

/-- Whatever the caller says of more input and of the buffer is overruled. -/
theorem clearFlags_whole (more whole zl : Bool) :
    clearFlags (callFlags more whole zl) TINFL_FLAG_HAS_MORE_INPUT ||| TINFL_FLAG_USING_NON_WRAPPING_OUTPUT_BUF =
      callFlags false true zl := by
  cases more <;> cases whole <;> cases zl <;> decide

section

variable {p : Packed} {fuel steps : Nat} {garbage d : Decompressor} {rest ring buf : List UInt8} {i o next avail window : Nat}
  {more whole : Bool}

theorem Packed.at_init (p : Packed) (window steps : Nat) (garbage : Decompressor) :
    At p.framed p.pad p.sum window p.body p.marks (tinfl steps garbage).init 0 0 := .inl ⟨rfl, rfl, rfl⟩

/-- A call with all of the input that is left -/
structure Served (p : Packed) (window i o next avail : Nat) (ring : List UInt8) (r : Int × Nat × Nat × Decompressor × List UInt8) :
    Prop where
  at_ : At p.framed p.pad p.sum window p.body p.marks r.2.2.2.1 (i + r.2.1) (o + r.2.2.1)
  produced : o + r.2.2.1 ≤ p.data.length
  room : r.2.2.1 ≤ avail
  ring : r.2.2.2.2 = ring.take next ++ ((p.data.drop o).take r.2.2.1 ++ ring.drop (next + r.2.2.1))
  status : r.1 = endStatus p.framed p.sum p.data ∧ o + r.2.2.1 = p.data.length ∨
    r.1 = TINFL_STATUS_HAS_MORE_OUTPUT ∧ r.2.2.1 = avail ∧ o + r.2.2.1 < p.data.length

theorem served (garbage : Decompressor) (h : p.Legal) (hfuel : p.cost < steps) (hat : At p.framed p.pad p.sum window p.body p.marks d i o)
    (hf : Follows false whole window p.body ((p.body ++ rest).drop i) ring i o next avail) (hholds : Holding window ring p.data o) :
    Served p window i o next avail ring
      ((tinfl steps garbage).decompress d ((p.body ++ rest).drop i) ring next avail (callFlags false whole p.framed)) := by
  obtain ⟨status, hin, hgiven⟩ := h.follows garbage (n := ((p.body ++ rest).drop i).length) hfuel hat hf hholds
    (List.take_length).symm
  have hends := hf.ends rfl
  have hstatus := hin.status
  refine ⟨hin.state, hin.produced, hin.outBytes, hin.ring, ?_⟩
  rw [hgiven]
  rcases hstatus with ⟨hdone, hall, -⟩ | ⟨-, hall, hshort, -⟩ | ⟨hmore, hfull⟩
  · dsimp only at hdone
    rw [hdone]
    exact .inl ⟨rfl, hall⟩
  · dsimp only at hall hshort
    omega
  · dsimp only at hmore
    rw [hmore]
    exact .inr ⟨rfl, hfull⟩

/-! ## Into memory -/

theorem holding_flat {out : List UInt8} (ho : o ≤ 2 ^ 32) (h : buf.take o = out.take o) : Holding (2 ^ 32) buf out o := by
  intro j hj _
  have hget := congrArg (·[j]?) h
  simp only [List.getElem?_take_of_lt hj] at hget
  rwa [Nat.mod_eq_of_lt (hj.trans_le ho)]

/-- **Into memory.** `tinfl_decompress_mem_to_mem` puts as much of the data into the buffer as there is room for, and nothing
behind it. It returns the number of bytes if that is all of the data and the checksum is right, and fails otherwise. -/
theorem tinflDecompressMemToMem_inflates (h : p.Legal) (hfuel : p.cost < steps) (garbage : Decompressor) (out rest : List UInt8)
    (hout : out.length ≤ 2 ^ 32) (more whole : Bool) :
    let r := tinflDecompressMemToMem (tinfl steps garbage) out (p.body ++ rest) (callFlags more whole p.framed)
    r.2 = p.data.take out.length ++ out.drop p.data.length ∧
      (p.data.length ≤ out.length ∧ p.Checked → r.1 = p.data.length) ∧
      (¬ (p.data.length ≤ out.length ∧ p.Checked) → r.1 = TINFL_DECOMPRESS_MEM_TO_MEM_FAILED) := by
  have hf : Follows false true (2 ^ 32) p.body ((p.body ++ rest).drop 0) out 0 0 0 out.length := by
    refine ⟨fun _ => ?_, (Nat.zero_add _).le, fun _ => ⟨rfl, rfl, (Nat.zero_add _).trans_le hout⟩, fun hno => absurd hno.symm Bool.false_ne_true⟩
    rw [List.drop_zero, List.length_append]
    omega
  have hholds : Holding (2 ^ 32) out p.data 0 := fun j hj => absurd hj (Nat.not_lt_zero j)
  have hcall := served garbage h hfuel (p.at_init (2 ^ 32) steps garbage) hf hholds
  unfold tinflDecompressMemToMem
  rw [clearFlags_whole]
  rw [List.drop_zero] at hcall
  have hzero : ((0 : Nat) : Int) = 0 := rfl
  rw [hzero] at hcall
  rcases hdec : (tinfl steps garbage).decompress (tinfl steps garbage).init (p.body ++ rest) out 0 out.length
    (callFlags false true p.framed) with ⟨status, inBytes, outBytes, d, out'⟩
  rw [hdec] at hcall
  obtain ⟨-, hproduced, hroom, hring, hstatus⟩ := hcall
  obtain ⟨hlast, hdone, -⟩ := p.endStatus_eq
  dsimp only at hproduced hroom hring hstatus ⊢
  rw [Nat.zero_add] at hproduced hring hstatus
  rw [List.take_zero, List.nil_append, List.drop_zero] at hring
  rcases hstatus with ⟨hend, hall⟩ | ⟨hmore, hfull, hless⟩
  · refine ⟨?_, fun hgood => ?_, fun hbad => ?_⟩
    · rw [hring, hall, List.take_length, List.take_of_length_le (hall.symm.trans_le hroom)]
    · rw [if_neg (not_not.2 (hend.trans (hdone.2 hgood.2))), hall]
    · refine if_pos fun heq => hbad ⟨hall.symm.trans_le hroom, hdone.1 (hend.symm.trans heq)⟩
  · refine ⟨?_, fun hgood => by omega, fun _ => if_pos ?_⟩
    · rw [hring, hfull, List.drop_eq_nil_of_le (Nat.le_refl _), List.drop_eq_nil_of_le (by omega)]
    · rw [hmore]
      decide

/-! ## Into a heap block -/

theorem memToHeap_succ {τ : Tinfl} {realloc : List UInt8 → Nat → Option (List UInt8)} {src : List UInt8} {flags : Nat}
    {d d' : τ.State} {status : Int} {inBytes outBytes : Nat} {buf' : List UInt8}
    (h : τ.decompress d (src.drop i) buf o (buf.length - o)
      (clearFlags flags TINFL_FLAG_HAS_MORE_INPUT ||| TINFL_FLAG_USING_NON_WRAPPING_OUTPUT_BUF) =
        (status, inBytes, outBytes, d', buf')) :
    memToHeap τ realloc src flags (fuel + 1) d buf i o =
      if status < 0 ∨ status = TINFL_STATUS_NEEDS_MORE_INPUT then some (none, 0)
      else if status = TINFL_STATUS_DONE then some (blockAt buf', o + outBytes)
      else
        match realloc buf' (max 128 (buf'.length * 2)) with
        | none => some (none, 0)
        | some buf => memToHeap τ realloc src flags fuel d' buf (i + inBytes) (o + outBytes) := by
  simp only [memToHeap, h]

/-- The loop, once there is room in the block -/
theorem memToHeap_inflates {realloc : List UInt8 → Nat → Option (List UInt8)} (h : p.Legal) (hcost : p.cost < steps)
    (hrealloc : ∀ buf n, buf.length ≤ n → ∃ behind, realloc buf n = some (buf ++ behind) ∧ (buf ++ behind).length = n)
    (hsmall : p.data.length < 2 ^ 31) (hdata : p.data ≠ []) (hat : At p.framed p.pad p.sum (2 ^ 32) p.body p.marks d i o)
    (hhave : buf.take o = p.data.take o) (ho : o ≤ p.data.length) (hopen : o < buf.length) (hbuf : buf.length ≤ 2 ^ 32)
    (hfuel : p.data.length - o < fuel) :
    ∃ r, memToHeap (tinfl steps garbage) realloc (p.body ++ rest) (callFlags more whole p.framed) fuel d buf i o = some r ∧
      (p.Checked ∧ p.data ≠ [] → r.2 = p.data.length ∧ ∃ buf, r.1 = some buf ∧ buf.take p.data.length = p.data) ∧
      (¬ (p.Checked ∧ p.data ≠ []) → r = (none, 0)) := by
  induction fuel generalizing d buf i o with
  | zero => exact absurd hfuel (Nat.not_lt_zero _)
  | succ fuel ih =>
    have hf : Follows false true (2 ^ 32) p.body ((p.body ++ rest).drop i) buf i o o (buf.length - o) := by
      refine ⟨fun _ => ?_, by omega, fun _ => ⟨rfl, rfl, by omega⟩, fun hno => absurd hno.symm Bool.false_ne_true⟩
      rw [List.length_drop, List.length_append]
      omega
    have hcall := served garbage h hcost hat hf (holding_flat (by omega) hhave)
    rcases hdec : (tinfl steps garbage).decompress d ((p.body ++ rest).drop i) buf o (buf.length - o)
      (callFlags false true p.framed) with ⟨status, inBytes, outBytes, d', buf'⟩
    rw [hdec] at hcall
    rw [← clearFlags_whole more whole] at hdec
    rw [memToHeap_succ hdec]
    obtain ⟨hat', hproduced, hroom, hring, hstatus⟩ := hcall
    obtain ⟨hlast, hdone, hwrong⟩ := p.endStatus_eq
    dsimp only at hat' hproduced hroom hring hstatus ⊢
    have htake : (buf.take o ++ (p.data.drop o).take outBytes).length = o + outBytes := by
      rw [List.length_append, List.length_take, List.length_take, List.length_drop]
      omega
    have hhave' : buf'.take (o + outBytes) = p.data.take (o + outBytes) := by
      rw [hring, ← List.append_assoc, List.take_left' htake, hhave, ← List.take_add]
    have hlen' : buf'.length = buf.length := by
      rw [hring, ← List.append_assoc, List.length_append, htake, List.length_drop]
      omega
    rcases hstatus with ⟨hend, hall⟩ | ⟨hmore, hfull, hless⟩
    · by_cases hright : p.Checked
      · rw [hend, hdone.2 hright, if_neg (by decide), if_pos rfl]
        rw [hall, List.take_length] at hhave'
        have hsome : blockAt buf' = some buf' := if_neg (List.ne_nil_of_length_pos (by omega))
        exact ⟨_, rfl, fun _ => ⟨hall, buf', hsome, hhave'⟩, fun hnot => absurd ⟨hright, hdata⟩ hnot⟩
      · rw [hend, hwrong hright, if_pos (.inl (by decide))]
        exact ⟨_, rfl, fun hyes => absurd hyes.1 hright, fun _ => rfl⟩
    · rw [hmore, if_neg (by decide), if_neg (by decide)]
      obtain ⟨behind, hmem, hnew⟩ := hrealloc buf' (max 128 (buf'.length * 2)) (by omega)
      rw [hmem]
      have hle : o + outBytes ≤ buf'.length := by omega
      refine ih hat' ?_ hproduced (by omega) (by omega) (by omega)
      rw [List.take_append_of_le_length hle, hhave']

/-- **Into a heap block.** When memory suffices, `tinfl_decompress_mem_to_heap` returns a block that begins with the data, and
its length; on a wrong checksum, and if there is no data, it returns none. -/
theorem tinflDecompressMemToHeap_inflates (realloc : List UInt8 → Nat → Option (List UInt8)) (h : p.Legal) (hcost : p.cost < steps)
    (garbage : Decompressor)
    (hrealloc : ∀ buf n, buf.length ≤ n → ∃ behind, realloc buf n = some (buf ++ behind) ∧ (buf ++ behind).length = n)
    (hsmall : p.data.length < 2 ^ 31) (rest : List UInt8) (more whole : Bool) (fuel : Nat)
    (hfuel : p.data.length + 1 < fuel) :
    ∃ r, tinflDecompressMemToHeap (tinfl steps garbage) realloc fuel (p.body ++ rest) (callFlags more whole p.framed) = some r ∧
      (p.Checked ∧ p.data ≠ [] → r.2 = p.data.length ∧ ∃ buf, r.1 = some buf ∧ buf.take p.data.length = p.data) ∧
      (¬ (p.Checked ∧ p.data ≠ []) → r = (none, 0)) := by
  obtain ⟨fuel, rfl⟩ := Nat.exists_eq_add_of_lt hfuel
  have hf : Follows false true (2 ^ 32) p.body ((p.body ++ rest).drop 0) [] 0 0 0 0 := by
    refine ⟨fun _ => ?_, Nat.le_refl _, fun _ => ⟨rfl, rfl, Nat.zero_le _⟩, fun hno => absurd hno.symm Bool.false_ne_true⟩
    rw [List.drop_zero, List.length_append]
    omega
  -- the first call has no room
  have hcall := served garbage h hcost (p.at_init (2 ^ 32) steps garbage) hf (holding_flat (Nat.zero_le _) rfl)
  rcases hdec : (tinfl steps garbage).decompress (tinfl steps garbage).init ((p.body ++ rest).drop 0) [] (0 : Nat) 0
    (callFlags false true p.framed) with ⟨status, inBytes, outBytes, d', buf'⟩
  rw [hdec] at hcall
  rw [← clearFlags_whole more whole] at hdec
  rw [tinflDecompressMemToHeap, memToHeap_succ hdec]
  obtain ⟨hat', hproduced, hroom, hring, hstatus⟩ := hcall
  obtain ⟨hlast, hdone, hwrong⟩ := p.endStatus_eq
  dsimp only at hat' hproduced hroom hring hstatus ⊢
  obtain rfl := Nat.le_zero.1 hroom
  have hnil : buf' = [] := by simpa using hring
  subst hnil
  rcases hstatus with ⟨hend, hall⟩ | ⟨hmore, -, hless⟩
  · have hempty : p.data = [] := List.length_eq_zero_iff.1 (by omega)
    refine ⟨(none, 0), ?_, fun hyes => absurd hempty hyes.2, fun _ => rfl⟩
    by_cases hright : p.Checked
    · rw [hend, hdone.2 hright, if_neg (by decide), if_pos rfl]
      rfl
    · rw [hend, hwrong hright, if_pos (.inl (by decide))]
  · rw [hmore, if_neg (by decide), if_neg (by decide)]
    obtain ⟨behind, hmem, hnew⟩ := hrealloc [] (max 128 (List.length ([] : List UInt8) * 2)) (Nat.zero_le _)
    rw [hmem]
    have hdata : p.data ≠ [] := List.ne_nil_of_length_pos (by omega)
    exact memToHeap_inflates h hcost hrealloc hsmall hdata hat' rfl hproduced (by rw [hnew]; decide) (by rw [hnew]; decide)
      (by omega)

/-! ## Into a callback -/

variable {υ : Type}

/-- The callback is given `pieces` one after the other, none of them empty, and takes each. -/
inductive Takes (putBuf : List UInt8 → υ → Bool × υ) : υ → List (List UInt8) → υ → Prop
  | nil (user : υ) : Takes putBuf user [] user
  | cons {user user' user2 : υ} {piece : List UInt8} {pieces : List (List UInt8)} (hne : piece ≠ [])
      (hput : putBuf piece user = (true, user')) (h : Takes putBuf user' pieces user2) : Takes putBuf user (piece :: pieces) user2

theorem Takes.append {putBuf : List UInt8 → υ → Bool × υ} {user user' user2 : υ} {pieces later : List (List UInt8)}
    (h : Takes putBuf user pieces user') (h' : Takes putBuf user' later user2) : Takes putBuf user (pieces ++ later) user2 := by
  induction h with
  | nil => exact h'
  | cons hne hput _ ih => exact .cons hne hput (ih h')

/-- How the call ends: the callback took all of `data`, or it refused a piece and got no other. -/
inductive Given (putBuf : List UInt8 → υ → Bool × υ) (data : List UInt8) (checked : Prop) (user : υ) : Int × Nat × υ → Prop
  | all {pieces : List (List UInt8)} {result : Int} {consumed : Nat} {user' : υ} (takes : Takes putBuf user pieces user')
      (whole : pieces.flatten = data) (right : checked → result = 1) (wrong : ¬ checked → result = 0) :
      Given putBuf data checked user (result, consumed, user')
  | refused {pieces : List (List UInt8)} {piece : List UInt8} {consumed : Nat} {user1 user' : υ}
      (takes : Takes putBuf user pieces user1) (hne : piece ≠ []) (refuses : putBuf piece user1 = (false, user'))
      (part : pieces.flatten ++ piece <+: data) : Given putBuf data checked user (0, consumed, user')

/-- After pieces that were taken -/
theorem Given.after {putBuf : List UInt8 → υ → Bool × υ} {data rest : List UInt8} {checked : Prop} {user user' : υ}
    {r : Int × Nat × υ} {pieces : List (List UInt8)} (h : Takes putBuf user pieces user') (hdata : data = pieces.flatten ++ rest)
    (hr : Given putBuf rest checked user' r) : Given putBuf data checked user r := by
  cases hr with
  | all takes hall right wrong =>
    refine .all (h.append takes) ?_ right wrong
    rw [List.flatten_append, hall, hdata]
  | refused takes hne refuses hpref =>
    refine .refused (h.append takes) hne refuses ?_
    rw [List.flatten_append, List.append_assoc, hdata]
    exact (List.prefix_append_right_inj _).2 hpref

end

/-! ## The sample -/

theorem samplePacked_checked : samplePacked.Checked := fun _ => by decide

theorem samplePacked_cost : samplePacked.cost < 8000 := by
  rw [Packed.cost, samplePacked_body, samplePacked_data]
  decide

theorem tinflDecompressMemToMem_sample :
    (tinflDecompressMemToMem (tinfl 8000 cleared) (List.replicate 8 0) (samplePacked.body ++ []) (callFlags false false true)).1 =
      5 := by
  obtain ⟨-, hall, -⟩ := tinflDecompressMemToMem_inflates samplePacked_legal samplePacked_cost cleared (List.replicate 8 0) []
    (by decide) false false
  rw [samplePacked_data] at hall
  exact hall ⟨by decide, samplePacked_checked⟩

theorem tinflDecompressMemToHeap_sample : ∃ r,
    tinflDecompressMemToHeap (tinfl 8000 cleared) (fun buf n => some (buf ++ List.replicate (n - buf.length) 0)) 7
        (samplePacked.body ++ []) (callFlags false false true) = some r ∧ r.2 = 5 := by
  obtain ⟨r, hrun, hright, -⟩ := tinflDecompressMemToHeap_inflates
    (fun buf n => some (buf ++ List.replicate (n - buf.length) 0)) samplePacked_legal samplePacked_cost cleared
    (fun buf n hle => ⟨_, rfl, by rw [List.length_append, List.length_replicate]; omega⟩)
    (by rw [samplePacked_data]; decide) [] false false 7 (by rw [samplePacked_data]; decide)
  refine ⟨r, hrun, ?_⟩
  have := (hright ⟨samplePacked_checked, by rw [samplePacked_data]; decide⟩).1
  rwa [samplePacked_data] at this

theorem Takes.kept {user user' : List UInt8} {pieces : List (List UInt8)}
    (h : Takes (fun piece user => (true, user ++ piece)) user pieces user') : user' = user ++ pieces.flatten := by
  induction h with
  | nil user => exact (List.append_nil user).symm
  | cons _ hput _ ih =>
    obtain ⟨-, rfl⟩ := Prod.mk.inj hput
    rw [ih, List.flatten_cons, List.append_assoc]

end Keynjector.Inflate
