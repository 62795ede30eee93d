import Keynjector.Inflate.HuffTable
import Keynjector.Opgp.Stream
/-
# The inflater (tinfl.c)

`tinfl_decompress` is a coroutine: the macros `TINFL_CR_*` make it return in the middle of a
loop and go on there in the next call. Here `state` is the point of control, `step` runs from
one point to the next, and `run` goes on until the coroutine returns. A `Label` with a number
is one of the source's states; the others are heads of loops, which no call returns at.

| here | there |
| --- | --- |
| `Core`, `Decompressor` | `tinfl_decompressor` |
| `Env`                | `decomp_flags`, `out_buf_size_mask` and the end of the output buffer |
| `Machine`            | the decompressor, `pIn_buf_cur` and `pOut_buf_cur` |
| `getByte`, `getBits` | `TINFL_GET_BYTE`, `TINFL_GET_BITS` with `TINFL_NEED_BITS` |
| `huffHead`, `huffFill`, `huffByte` | `TINFL_HUFF_DECODE` with `TINFL_HUFF_BITBUF_FILL` |
| `step`               | the code between two points |
| `adlerBlocks`        | the checksum at `common_exit` |
| `tinflDecompress`    | `tinfl_decompress` |

`fault` is an access outside an array. The bit buffer has 32 bits, as on the controller.
-/

namespace Keynjector.Inflate

open Keynjector.Opgp (TINFL_FLAG_HAS_MORE_INPUT TINFL_STATUS_DONE)

def TINFL_FLAG_PARSE_ZLIB_HEADER : Nat := 1
def TINFL_FLAG_USING_NON_WRAPPING_OUTPUT_BUF : Nat := 4
def TINFL_FLAG_COMPUTE_ADLER32 : Nat := 8

def TINFL_STATUS_BAD_PARAM : Int := -3
def TINFL_STATUS_ADLER32_MISMATCH : Int := -2
def TINFL_STATUS_FAILED : Int := -1
def TINFL_STATUS_NEEDS_MORE_INPUT : Int := 1
def TINFL_STATUS_HAS_MORE_OUTPUT : Int := 2

def s_length_base : List Nat :=
  [3, 4, 5, 6, 7, 8, 9, 10, 11, 13, 15, 17, 19, 23, 27, 31, 35, 43, 51, 59, 67, 83, 99, 115, 131, 163, 195, 227, 258, 0, 0]
def s_length_extra : List Nat :=
  [0, 0, 0, 0, 0, 0, 0, 0, 1, 1, 1, 1, 2, 2, 2, 2, 3, 3, 3, 3, 4, 4, 4, 4, 5, 5, 5, 5, 0, 0, 0]
def s_dist_base : List Nat :=
  [1, 2, 3, 4, 5, 7, 9, 13, 17, 25, 33, 49, 65, 97, 129, 193, 257, 385, 513, 769, 1025, 1537, 2049, 3073, 4097, 6145,
    8193, 12289, 16385, 24577, 0, 0]
def s_dist_extra : List Nat :=
  [0, 0, 0, 0, 1, 1, 2, 2, 3, 3, 4, 4, 5, 5, 6, 6, 7, 7, 8, 8, 9, 9, 10, 10, 11, 11, 12, 12, 13, 13, 0, 0]
def s_length_dezigzag : List Nat := [16, 17, 18, 0, 8, 7, 9, 6, 10, 5, 11, 4, 12, 3, 13, 2, 14, 1, 15]
def s_min_table_sizes : List Nat := [257, 1, 4]

/-! ## The state -/

inductive Label where
  | start       -- 0
  | zhdr0       -- 1
  | zhdr1       -- 2
  | zlibFailed  -- 36
  | blockHead   -- 3
  | rawHead
  | rawBits     -- 6
  | rawByte     -- 7
  | rawFailed   -- 39
  | storedBits
  | storedGet   -- 51
  | storedPut   -- 52
  | storedBytes
  | storedOut   -- 9
  | storedIn    -- 38
  | storedFailed -- 40
  | badType     -- 10
  | tableSizes  -- 11
  | codeSizes   -- 14
  | build
  | buildFailed -- 35
  | lenCode
  | lenFill     -- 16
  | lenFailed   -- 17
  | lenRepeat   -- 18
  | lenMismatch -- 21
  | symbol
  | symbolFill  -- 23
  | symbolPut   -- 24
  | lengthExtra -- 25
  | distance
  | distFill    -- 26
  | distExtra   -- 27
  | copyFailed  -- 37
  | copyLoop
  | copyPut     -- 53
  | adler
  | adlerBits   -- 41
  | adlerByte   -- 42
  | done        -- 34
deriving DecidableEq

/-- All of a decompressor but the checksum of its output, which only `common_exit` uses. -/
structure Core where
  state : Label
  numBits : Nat
  bitBuf : Nat
  zhdr0 : Nat
  zhdr1 : Nat
  zAdler32 : Nat
  final : Nat
  type : Nat
  dist : Nat
  counter : Nat
  numExtra : Nat
  distFromOutBufStart : Nat
  tableSizes : Vector Nat 3
  tables : Vector HuffTable 3
  rawHeader : Vector Nat 4
  lenCodes : Vector Nat 457

/-! `m_tables` and `m_table_sizes` by what they are for: literals and lengths, distances, and the code sizes themselves. -/

abbrev Core.litTable (m : Core) : HuffTable := m.tables[0]
abbrev Core.distTable (m : Core) : HuffTable := m.tables[1]
abbrev Core.sizeTable (m : Core) : HuffTable := m.tables[2]
abbrev Core.litSize (m : Core) : Nat := m.tableSizes[0]
abbrev Core.distSize (m : Core) : Nat := m.tableSizes[1]
abbrev Core.sentSize (m : Core) : Nat := m.tableSizes[2]

structure Decompressor extends Core where
  checkAdler32 : Nat

structure Env where
  flags : Nat
  outBufSizeMask : Nat
  outBufEnd : Nat

def Env.hasMoreInput (e : Env) : Bool := e.flags &&& TINFL_FLAG_HAS_MORE_INPUT ≠ 0
def Env.parseZlibHeader (e : Env) : Bool := e.flags &&& TINFL_FLAG_PARSE_ZLIB_HEADER ≠ 0
def Env.nonWrapping (e : Env) : Bool := e.flags &&& TINFL_FLAG_USING_NON_WRAPPING_OUTPUT_BUF ≠ 0

/-- The decompressor with the input from `pIn_buf_cur` on, the output buffer and `pOut_buf_cur` as an offset in it. -/
structure Machine extends Decompressor where
  input : List UInt8
  out : List UInt8
  cur : Nat

instance machineCore : Coe Machine Core := ⟨fun m => m.toCore⟩

inductive Next where
  | go (m : Machine)
  | ret (status : Int) (m : Machine)
  | fault

/-- An access that may lie outside its array. -/
def Next.access {α : Type} (x : Option α) (k : α → Next) : Next :=
  match x with
  | none => .fault
  | some a => k a

def store {α : Type} {n : Nat} (xs : Vector α n) (i : Nat) (x : α) : Option (Vector α n) :=
  if i < n then some (xs.setIfInBounds i x) else none

def poke (out : List UInt8) (i : Nat) (b : UInt8) : Option (List UInt8) :=
  if i < out.length then some (out.set i b) else none

/-! ## The macros -/

/-- `TINFL_GET_BYTE`, at its state -/
def getByte (e : Env) (m : Machine) (k : Nat → Machine → Next) : Next :=
  match m.input with
  | b :: input => k b.toNat { m with input := input }
  | [] => if e.hasMoreInput then .ret TINFL_STATUS_NEEDS_MORE_INPUT m else k 0 m

/-- `bit_buf |= (c << num_bits); num_bits += 8` -/
def Machine.addByte (m : Machine) (c : Nat) : Machine :=
  { m with bitBuf := m.bitBuf ||| c <<< m.numBits, numBits := m.numBits + 8 }

/-- `bit_buf >>= n; num_bits -= n` -/
def Machine.skipBits (m : Machine) (n : Nat) : Machine :=
  { m with bitBuf := m.bitBuf >>> n, numBits := m.numBits - n }

/-- `TINFL_GET_BITS`: a turn of `TINFL_NEED_BITS` comes back to the same state. -/
def getBits (e : Env) (n : Nat) (m : Machine) (k : Nat → Machine → Next) : Next :=
  if m.numBits < n then getByte e m fun c m => .go (m.addByte c)
  else k (m.bitBuf &&& (1 <<< n - 1)) (m.skipBits n)

/-- The end of `TINFL_HUFF_DECODE` -/
def huffDecode (t : HuffTable) (m : Machine) (k : Nat → Machine → Next) : Next :=
  .access (t.decode m.bitBuf) fun (sym, codeLen) => k sym (m.skipBits codeLen)

/-- A turn of `TINFL_HUFF_BITBUF_FILL` up to its `TINFL_GET_BYTE`, which is at `fill`. -/
def huffFill (t : HuffTable) (fill : Label) (m : Machine) (k : Nat → Machine → Next) : Next :=
  .access (t.ready m.bitBuf m.numBits) fun ready =>
    if ready then huffDecode t m k else .go { m with state := fill }

/-- `bit_buf |= pIn_buf_cur[0] << num_bits | pIn_buf_cur[1] << (num_bits + 8); pIn_buf_cur += 2; num_bits += 16` -/
def Machine.addTwo (m : Machine) (b0 b1 : UInt8) (input : List UInt8) : Machine :=
  { m with bitBuf := m.bitBuf ||| (b0.toNat <<< m.numBits ||| b1.toNat <<< (m.numBits + 8)), input := input,
           numBits := m.numBits + 16 }

/-- `TINFL_HUFF_DECODE` -/
def huffHead (t : HuffTable) (fill : Label) (m : Machine) (k : Nat → Machine → Next) : Next :=
  if m.numBits < 15 then
    match m.input with
    | b0 :: b1 :: input => huffDecode t (m.addTwo b0 b1 input) k
    | _ => huffFill t fill m k
  else huffDecode t m k

/-- `TINFL_HUFF_BITBUF_FILL` from its `TINFL_GET_BYTE` on -/
def huffByte (e : Env) (t : HuffTable) (fill : Label) (m : Machine) (k : Nat → Machine → Next) : Next :=
  getByte e m fun c m =>
    if (m.addByte c).numBits < 15 then huffFill t fill (m.addByte c) k else huffDecode t (m.addByte c) k

/-- `while (pOut_buf_cur >= pOut_buf_end) TINFL_CR_RETURN(.., TINFL_STATUS_HAS_MORE_OUTPUT); *pOut_buf_cur++ = b` -/
def putByte (e : Env) (m : Machine) (b : UInt8) (k : Machine → Next) : Next :=
  if m.cur ≥ e.outBufEnd then .ret TINFL_STATUS_HAS_MORE_OUTPUT m
  else .access (poke m.out m.cur b) fun out => k { m with out := out, cur := m.cur + 1 }

/-! ## Headers -/

def stepZhdr1 (e : Env) (m : Machine) : Next :=
  getByte e m fun c m =>
    let window := 1 <<< (8 + m.zhdr0 >>> 4)
    let bad := (m.zhdr0 * 256 + c) % 31 ≠ 0 ∨ c &&& 32 ≠ 0 ∨ m.zhdr0 &&& 15 ≠ 8 ∨
      ¬ e.nonWrapping ∧ (window > 32768 ∨ (e.outBufSizeMask + 1) % 2 ^ 32 < window)
    .go { m with zhdr1 := c, counter := if bad then 1 else 0, state := if bad then .zlibFailed else .blockHead }

/-- The code sizes of a block of type 1 -/
def fixedSizes (m : Machine) : Machine :=
  let sizes0 := Vector.ofFn fun i : Fin 288 => if i.val ≤ 143 then 8 else if i.val ≤ 255 then 9 else if i.val ≤ 279 then 7 else 8
  let sizes1 := Vector.ofFn fun i : Fin 288 => if i.val < 32 then 5 else m.distTable.codeSize[i]
  { m with
    tableSizes := (m.tableSizes.set 0 288).set 1 32
    tables := (m.tables.set 1 { m.distTable with codeSize := sizes1 }).set 0 { m.litTable with codeSize := sizes0 } }

def stepBlockHead (e : Env) (m : Machine) : Next :=
  getBits e 3 m fun b m =>
    let m := { m with final := b, type := b >>> 1 }
    if m.type = 0 then .go { m.skipBits (m.numBits &&& 7) with counter := 0, state := .rawHead }
    else if m.type = 3 then .go { m with state := .badType }
    else if m.type = 1 then .go { fixedSizes m with state := .build }
    else .go { m with counter := 0, state := .tableSizes }

/-- `while (!(r->m_final & 1))` and what comes after the last block -/
def endBlock (e : Env) (m : Machine) : Machine :=
  if m.final &&& 1 = 0 then { m with state := .blockHead }
  else if e.parseZlibHeader then { m.skipBits (m.numBits &&& 7) with counter := 0, state := .adler }
  else { m with state := .done }

def stepAdlerBits (e : Env) (m : Machine) : Next :=
  getBits e 8 m fun s m =>
    .go { m with zAdler32 := (m.zAdler32 <<< 8 ||| s) % 2 ^ 32, counter := m.counter + 1, state := .adler }

def stepAdlerByte (e : Env) (m : Machine) : Next :=
  getByte e m fun s m =>
    .go { m with zAdler32 := (m.zAdler32 <<< 8 ||| s) % 2 ^ 32, counter := m.counter + 1, state := .adler }

/-! ## Stored blocks -/

def stepRawHead (m : Machine) : Next :=
  if m.counter < 4 then .go { m with state := if m.numBits ≠ 0 then .rawBits else .rawByte }
  else
    let len := m.rawHeader[0] ||| m.rawHeader[1] <<< 8
    .go { m with
      counter := len
      state := if len ≠ 0xFFFF ^^^ (m.rawHeader[2] ||| m.rawHeader[3] <<< 8) then .rawFailed else .storedBits }

def rawHeaderByte (c : Nat) (m : Machine) : Next :=
  .access (store m.rawHeader m.counter c) fun h =>
    .go { m with rawHeader := h, counter := m.counter + 1, state := .rawHead }

/-- `while ((counter) && (num_bits))` -/
def stepStoredBits (m : Machine) : Next :=
  .go { m with state := if m.counter ≠ 0 ∧ m.numBits ≠ 0 then .storedGet else .storedBytes }

/-- `while (counter)` -/
def stepStoredBytes (e : Env) (m : Machine) : Next :=
  .go (if m.counter = 0 then endBlock e m else { m with state := .storedOut })

def stepStoredOut (e : Env) (m : Machine) : Next :=
  if m.cur ≥ e.outBufEnd then .ret TINFL_STATUS_HAS_MORE_OUTPUT m else .go { m with state := .storedIn }

def stepStoredIn (e : Env) (m : Machine) : Next :=
  if m.input = [] then
    if e.hasMoreInput then .ret TINFL_STATUS_NEEDS_MORE_INPUT m else .go { m with state := .storedFailed }
  else
    let n := min (min (e.outBufEnd - m.cur) m.input.length) m.counter
    if m.cur + n ≤ m.out.length then
      .go { m with
        out := m.out.take m.cur ++ (m.input.take n ++ m.out.drop (m.cur + n))
        input := m.input.drop n
        cur := m.cur + n
        counter := m.counter - n
        state := .storedBytes }
    else .fault

/-! ## Codes -/

def stepTableSizes (e : Env) (m : Machine) : Next :=
  if m.counter < 3 then
    getBits e ([5, 5, 4].getD m.counter 0) m fun b m =>
      .access (store m.tableSizes m.counter (b + s_min_table_sizes.getD m.counter 0)) fun sizes =>
        .go { m with tableSizes := sizes, counter := m.counter + 1 }
  else
    .go { m with
      tables := m.tables.set 2 { m.sizeTable with codeSize := Vector.replicate 288 0 }
      counter := 0
      state := .codeSizes }

def stepCodeSizes (e : Env) (m : Machine) : Next :=
  if m.counter < m.sentSize then
    getBits e 3 m fun s m =>
      .access s_length_dezigzag[m.counter]? fun i =>
        .access (store m.sizeTable.codeSize i s) fun sizes =>
          .go { m with tables := m.tables.set 2 { m.sizeTable with codeSize := sizes }, counter := m.counter + 1 }
  else .go { m with tableSizes := m.tableSizes.set 2 19, state := .build }

/-- `for ( ; (int)r->m_type >= 0; r->m_type--)` -/
def stepBuild (m : Machine) : Next :=
  if m.type < 2 ^ 31 then
    .access m.tables[m.type]? fun t =>
      .access m.tableSizes[m.type]? fun size =>
        let sizes := t.codeSize.toList.take size
        if refused sizes then
          .go { m with
            tables := m.tables.setIfInBounds m.type { t with lookUp := Vector.replicate 1024 0, tree := Vector.replicate 576 0 }
            state := .buildFailed }
        else
          .access (buildTable sizes) fun b =>
            let m := { m with tables := m.tables.setIfInBounds m.type { t with lookUp := b.lookUp, tree := b.tree } }
            if m.type = 2 then .go { m with counter := 0, state := .lenCode }
            else .go { m with type := (m.type + (2 ^ 32 - 1)) % 2 ^ 32 }
  else .go { m with state := .symbol }

/-- After a symbol of the code for code sizes -/
def lenSymbol (sym : Nat) (m : Machine) : Next :=
  let m := { m with dist := sym }
  if m.dist < 16 then
    .access (store m.lenCodes m.counter m.dist) fun codes =>
      .go { m with lenCodes := codes, counter := m.counter + 1, state := .lenCode }
  else if m.dist = 16 ∧ m.counter = 0 then .go { m with state := .lenFailed }
  else
    .access ([2, 3, 7][m.dist - 16]?) fun n => .go { m with numExtra := n, state := .lenRepeat }

/-- The code sizes that were read, for the two codes of the block -/
def splitLenCodes (m : Machine) : Machine :=
  let sizes0 := Vector.ofFn fun i : Fin 288 =>
    if i.val < m.litSize then m.lenCodes.toList.getD i.val 0 else m.litTable.codeSize[i]
  let sizes1 := Vector.ofFn fun i : Fin 288 =>
    if i.val < m.distSize then m.lenCodes.toList.getD (m.litSize + i.val) 0 else m.distTable.codeSize[i]
  { m with tables := (m.tables.set 0 { m.litTable with codeSize := sizes0 }).set 1 { m.distTable with codeSize := sizes1 } }

def stepLenCode (m : Machine) : Next :=
  if m.counter < m.litSize + m.distSize then huffHead m.sizeTable .lenFill m lenSymbol
  else if m.litSize + m.distSize ≠ m.counter then .go { m with state := .lenMismatch }
  else .go { splitLenCodes m with type := (m.type + (2 ^ 32 - 1)) % 2 ^ 32, state := .build }

/-- `TINFL_MEMSET(p, c, s)` -/
def memset {n : Nat} (xs : Vector Nat n) (p c s : Nat) : Option (Vector Nat n) :=
  if p + s ≤ n then some (Vector.ofFn fun i : Fin n => if p ≤ i.val ∧ i.val < p + s then c else xs[i]) else none

def stepLenRepeat (e : Env) (m : Machine) : Next :=
  getBits e m.numExtra m fun s m =>
    .access ([3, 3, 11][m.dist - 16]?) fun base =>
      .access (if m.dist = 16 then m.lenCodes[m.counter - 1]? else some 0) fun c =>
        .access (memset m.lenCodes m.counter c (s + base)) fun codes =>
          .go { m with lenCodes := codes, counter := m.counter + (s + base), state := .lenCode }

/-! ## Symbols -/

/-- After the loop over literals -/
def afterLiterals (e : Env) (m : Machine) : Next :=
  let m := { m with counter := m.counter &&& 511 }
  if m.counter = 256 then .go (endBlock e m)
  else
    .access s_length_extra[m.counter - 257]? fun extra =>
      .access s_length_base[m.counter - 257]? fun base =>
        .go { m with numExtra := extra, counter := base, state := if extra ≠ 0 then .lengthExtra else .distance }

def literal (e : Env) (sym : Nat) (m : Machine) : Next :=
  let m := { m with counter := sym }
  if m.counter ≥ 256 then afterLiterals e m else .go { m with state := .symbolPut }

/-- `if (num_bits < 15)`: two bytes at once -/
def refill (m : Machine) (k : Machine → Next) : Next :=
  if m.numBits < 15 then
    match m.input with
    | b0 :: b1 :: input => k (m.addTwo b0 b1 input)
    | _ => .fault
  else k m

/-- The second symbol, behind the literal `counter` -/
def secondSymbol (e : Env) (m : Machine) : Next :=
  refill m fun m =>
    .access (m.litTable.find m.bitBuf) fun (sym2, codeLen) =>
      let m := m.skipBits codeLen
      .access (poke m.out m.cur (UInt8.ofNat m.counter)) fun out =>
        if sym2 &&& 256 ≠ 0 then afterLiterals e { m with out := out, cur := m.cur + 1, counter := sym2 }
        else
          .access (poke out (m.cur + 1) (UInt8.ofNat sym2)) fun out =>
            .go { m with out := out, cur := m.cur + 2, state := .symbol }

/-- Two symbols at once -/
def twoSymbols (e : Env) (m : Machine) : Next :=
  refill m fun m =>
    .access (m.litTable.find m.bitBuf) fun (sym, codeLen) =>
      let m := { m.skipBits codeLen with counter := sym }
      if m.counter &&& 256 ≠ 0 then afterLiterals e m else secondSymbol e m

def stepSymbol (e : Env) (m : Machine) : Next :=
  if m.input.length < 4 ∨ e.outBufEnd - m.cur < 2 then huffHead m.litTable .symbolFill m (literal e)
  else twoSymbols e m

def stepSymbolPut (e : Env) (m : Machine) : Next :=
  putByte e m (UInt8.ofNat m.counter) fun m => .go { m with state := .symbol }

def stepLengthExtra (e : Env) (m : Machine) : Next :=
  getBits e m.numExtra m fun b m => .go { m with counter := m.counter + b, state := .distance }

/-! ## Copies -/

/-- `(pos - dist) & out_buf_size_mask` -/
def Env.behind (e : Env) (pos dist : Nat) : Nat := (pos + 2 ^ 32 - dist) % 2 ^ 32 &&& e.outBufSizeMask

/-- `*pOut_buf_cur++ = *pSrc++`, `n` times -/
def moveBytes : Nat → List UInt8 → Nat → Nat → Option (List UInt8)
  | 0, out, _, _ => some out
  | n + 1, out, src, cur =>
    match out[src]? with
    | none => none
    | some b =>
      match poke out cur b with
      | none => none
      | some out => moveBytes n out (src + 1) (cur + 1)

/-- `do { .. 3 bytes .. } while ((int)(counter -= 3) > 2)` and the rest: the output, `pOut_buf_cur` and `counter`. -/
def copyThrees (counter : Int) (out : List UInt8) (src cur : Nat) : Option (List UInt8 × Nat × Int) :=
  match moveBytes 3 out src cur with
  | none => none
  | some out =>
    if 2 < counter - 3 then copyThrees (counter - 3) out (src + 3) (cur + 3)
    else if 0 < counter - 3 then
      (moveBytes (counter - 3).toNat out (src + 3) (cur + 3)).map fun out => (out, cur + 3 + (counter - 3).toNat, counter - 3)
    else some (out, cur + 3, counter - 3)
termination_by counter.toNat
decreasing_by omega

def copy (e : Env) (m : Machine) : Next :=
  let m := { m with distFromOutBufStart := m.cur }
  if m.dist > m.distFromOutBufStart ∧ e.nonWrapping then .go { m with state := .copyFailed }
  else
    let src := e.behind m.distFromOutBufStart m.dist
    if max m.cur src + m.counter > e.outBufEnd then .go { m with state := .copyLoop }
    else
      .access (copyThrees m.counter m.out src m.cur) fun (out, cur, counter) =>
        .go { m with out := out, cur := cur, counter := (counter % 2 ^ 32).toNat, state := .symbol }

/-- After a symbol of the distance code -/
def distSymbol (e : Env) (sym : Nat) (m : Machine) : Next :=
  .access s_dist_extra[sym]? fun extra =>
    .access s_dist_base[sym]? fun base =>
      let m := { m with numExtra := extra, dist := base }
      if m.numExtra ≠ 0 then .go { m with state := .distExtra } else copy e m

def stepDistExtra (e : Env) (m : Machine) : Next :=
  getBits e m.numExtra m fun b m => copy e { m with dist := m.dist + b }

/-- `while (counter--)` -/
def stepCopyLoop (m : Machine) : Next :=
  if m.counter = 0 then .go { m with counter := 2 ^ 32 - 1, state := .symbol }
  else .go { m with counter := m.counter - 1, state := .copyPut }

def stepCopyPut (e : Env) (m : Machine) : Next :=
  if m.cur ≥ e.outBufEnd then .ret TINFL_STATUS_HAS_MORE_OUTPUT m
  else
    .access m.out[e.behind m.distFromOutBufStart m.dist]? fun b =>
      putByte e m b fun m => .go { m with distFromOutBufStart := m.distFromOutBufStart + 1, state := .copyLoop }

/-! ## Runs -/

def step (e : Env) (m : Machine) : Next :=
  match m.state with
  | .start =>
    .go { m with
      bitBuf := 0, numBits := 0, dist := 0, counter := 0, numExtra := 0, zhdr0 := 0, zhdr1 := 0
      zAdler32 := 1, checkAdler32 := 1
      state := if e.parseZlibHeader then .zhdr0 else .blockHead }
  | .zhdr0 => getByte e m fun c m => .go { m with zhdr0 := c, state := .zhdr1 }
  | .zhdr1 => stepZhdr1 e m
  | .blockHead => stepBlockHead e m
  | .rawHead => stepRawHead m
  | .rawBits => getBits e 8 m rawHeaderByte
  | .rawByte => getByte e m rawHeaderByte
  | .storedBits => stepStoredBits m
  | .storedGet => getBits e 8 m fun b m => .go { m with dist := b, state := .storedPut }
  | .storedPut =>
    putByte e m (UInt8.ofNat m.dist) fun m => .go { m with counter := m.counter - 1, state := .storedBits }
  | .storedBytes => stepStoredBytes e m
  | .storedOut => stepStoredOut e m
  | .storedIn => stepStoredIn e m
  | .tableSizes => stepTableSizes e m
  | .codeSizes => stepCodeSizes e m
  | .build => stepBuild m
  | .lenCode => stepLenCode m
  | .lenFill => huffByte e m.sizeTable .lenFill m lenSymbol
  | .lenRepeat => stepLenRepeat e m
  | .symbol => stepSymbol e m
  | .symbolFill => huffByte e m.litTable .symbolFill m (literal e)
  | .symbolPut => stepSymbolPut e m
  | .lengthExtra => stepLengthExtra e m
  | .distance => huffHead m.distTable .distFill m (distSymbol e)
  | .distFill => huffByte e m.distTable .distFill m (distSymbol e)
  | .distExtra => stepDistExtra e m
  | .copyLoop => stepCopyLoop m
  | .copyPut => stepCopyPut e m
  | .adler =>
    if m.counter < 4 then .go { m with state := if m.numBits ≠ 0 then .adlerBits else .adlerByte }
    else .go { m with state := .done }
  | .adlerBits => stepAdlerBits e m
  | .adlerByte => stepAdlerByte e m
  | .done => .ret TINFL_STATUS_DONE m
  | .zlibFailed | .rawFailed | .storedFailed | .badType | .buildFailed | .lenFailed | .lenMismatch | .copyFailed =>
    .ret TINFL_STATUS_FAILED m

/-- The coroutine up to its next return, in at most `fuel` steps. -/
def run (e : Env) : Nat → Machine → Option (Int × Machine)
  | 0, _ => none
  | fuel + 1, m =>
    match step e m with
    | .go m => run e fuel m
    | .ret status m => some (status, m)
    | .fault => none

/-! ## The checksum -/

/-- `for (i = 0; i + 7 < block_len; i += 8, ptr += 8)` and the rest of the block -/
def adlerBlock : List UInt8 → UInt32 × UInt32 → UInt32 × UInt32
  | b0 :: b1 :: b2 :: b3 :: b4 :: b5 :: b6 :: b7 :: bs, (s1, s2) =>
    let s1 := s1 + b0.toUInt32
    let s2 := s2 + s1
    let s1 := s1 + b1.toUInt32
    let s2 := s2 + s1
    let s1 := s1 + b2.toUInt32
    let s2 := s2 + s1
    let s1 := s1 + b3.toUInt32
    let s2 := s2 + s1
    let s1 := s1 + b4.toUInt32
    let s2 := s2 + s1
    let s1 := s1 + b5.toUInt32
    let s2 := s2 + s1
    let s1 := s1 + b6.toUInt32
    let s2 := s2 + s1
    let s1 := s1 + b7.toUInt32
    let s2 := s2 + s1
    adlerBlock bs (s1, s2)
  | b :: bs, (s1, s2) => adlerBlock bs (s1 + b.toUInt32, s2 + (s1 + b.toUInt32))
  | [], s => s

/-- `while (buf_len)`, the first block of `block_len` bytes and the others of 5552 -/
def adlerBlocks (buf : List UInt8) (blockLen : Nat) (s1 s2 : UInt32) (fuel : Nat) : UInt32 × UInt32 :=
  match fuel with
  | 0 => (s1, s2)
  | fuel + 1 =>
    if buf = [] then (s1, s2)
    else
      let (s1, s2) := adlerBlock (buf.take blockLen) (s1, s2)
      adlerBlocks (buf.drop blockLen) 5552 (s1 % 65521) (s2 % 65521) fuel

/-- `r->m_check_adler32` after the output of a call -/
def updateAdler (check : Nat) (buf : List UInt8) : Nat :=
  let (s1, s2) := adlerBlocks buf (buf.length % 5552) (UInt32.ofNat (check &&& 0xffff)) (UInt32.ofNat (check >>> 16))
    (buf.length / 5552 + 2)
  ((s2 <<< 16) + s1).toNat

/-! ## The call -/

/-- `common_exit` -/
def commonExit (e : Env) (next : Nat) (status : Int) (m : Machine) : Int × Decompressor :=
  if (e.flags &&& (TINFL_FLAG_PARSE_ZLIB_HEADER ||| TINFL_FLAG_COMPUTE_ADLER32) ≠ 0) ∧ status ≥ 0 then
    let check := updateAdler m.checkAdler32 ((m.out.drop next).take (m.cur - next))
    (if status = TINFL_STATUS_DONE ∧ e.parseZlibHeader ∧ check ≠ m.zAdler32 then TINFL_STATUS_ADLER32_MISMATCH else status,
      { m.toDecompressor with checkAdler32 := check })
  else (status, m.toDecompressor)

/-- Status, input consumed, output produced, decompressor and output buffer. `out_next` is the offset `next` in `out`. -/
def tinflDecompress (fuel : Nat) (r : Decompressor) (input out : List UInt8) (next : Int) (avail flags : Nat) :
    Option (Int × Nat × Nat × Decompressor × List UInt8) :=
  let mask := if flags &&& TINFL_FLAG_USING_NON_WRAPPING_OUTPUT_BUF ≠ 0 then 2 ^ 32 - 1
    else ((next + avail - 1) % 2 ^ 32).toNat
  if (mask + 1) % 2 ^ 32 &&& mask ≠ 0 ∨ next < 0 then some (TINFL_STATUS_BAD_PARAM, 0, 0, r, out)
  else
    let e : Env := ⟨flags, mask, next.toNat + avail⟩
    match run e fuel ⟨r, input, out, next.toNat⟩ with
    | none => none
    | some (status, m) =>
      let (status, r) := commonExit e next.toNat status m
      some (status, input.length - m.input.length, m.cur - next.toNat, r, m.out)

end Keynjector.Inflate
