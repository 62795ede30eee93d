import Mathlib.Data.Nat.Bitwise
/-
# Huffman tables (tinfl.h:85-95, tinfl.c:62-108, 226-262)

A table is a look-up array over the next ten bits and, for longer codes, a tree of pairs in
one array: a negative entry `-(2k+1)` names the pair at `2k`. `none` is an access outside an
array.

| here | there |
| --- | --- |
| `HuffTable`                  | `tinfl_huff_table` |
| `find`, `decode`             | the end of `TINFL_HUFF_DECODE`, and its copy in the loop over symbols |
| `ready`                      | the test of `TINFL_HUFF_BITBUF_FILL` |
| `totalSyms`, `nextCodes`     | the counts and first codes of each size |
| `insertSym`, `buildTable`    | the loop over `sym_index` |
-/

namespace Keynjector.Inflate

def TINFL_FAST_LOOKUP_BITS : Nat := 10
def TINFL_FAST_LOOKUP_SIZE : Nat := 1024

structure HuffTable where
  codeSize : Vector Nat 288
  lookUp : Vector Int 1024
  tree : Vector Int 576

/-! ## Reading -/

/-- `m_tree[~temp + bit]`, also written `m_tree[-tree_cur - 1]` -/
def treeAt (tree : Vector Int 576) (temp : Int) (bit : Nat) : Option Int :=
  if temp < 0 then tree[(-temp - 1).toNat + bit]? else none

/-- `do temp = m_tree[~temp + ((bit_buf >> code_len++) & 1)]; while (temp < 0)` -/
def walk (tree : Vector Int 576) (bitBuf : Nat) : Nat → Int → Nat → Option (Int × Nat)
  | 0, _, _ => none
  | fuel + 1, temp, codeLen =>
    match treeAt tree temp (bitBuf >>> codeLen &&& 1) with
    | none => none
    | some temp => if temp < 0 then walk tree bitBuf fuel temp (codeLen + 1) else some (temp, codeLen + 1)

/-- The walk of `TINFL_HUFF_BITBUF_FILL`, which stops before it needs more than `numBits` bits. -/
def walkReady (tree : Vector Int 576) (bitBuf numBits : Nat) : Nat → Int → Nat → Option Bool
  | 0, _, _ => none
  | fuel + 1, temp, codeLen =>
    match treeAt tree temp (bitBuf >>> codeLen &&& 1) with
    | none => none
    | some temp =>
      if temp < 0 ∧ numBits ≥ codeLen + 1 + 1 then walkReady tree bitBuf numBits fuel temp (codeLen + 1)
      else some (decide (0 ≤ temp))

namespace HuffTable

variable (t : HuffTable)

/-- The entry and the code length for the bits in front of `bitBuf`. A symbol of the look-up array goes through
`entry`; there are no more pairs than `fuel`. -/
def findWith (entry : Nat → Nat) (bitBuf : Nat) : Option (Nat × Nat) :=
  match t.lookUp[bitBuf &&& (TINFL_FAST_LOOKUP_SIZE - 1)]? with
  | none => none
  | some temp =>
    if 0 ≤ temp then some (entry temp.toNat, temp.toNat >>> 9)
    else (walk t.tree bitBuf 288 temp TINFL_FAST_LOOKUP_BITS).map fun (temp, codeLen) => (temp.toNat, codeLen)

/-- `code_len = temp >> 9, temp &= 511` -/
def decode (bitBuf : Nat) : Option (Nat × Nat) := t.findWith (· &&& 511) bitBuf

/-- `code_len = sym2 >> 9`: the code length stays in the symbol. -/
def find (bitBuf : Nat) : Option (Nat × Nat) := t.findWith id bitBuf

/-- Whether the bits at hand make up a code. -/
def ready (bitBuf numBits : Nat) : Option Bool :=
  match t.lookUp[bitBuf &&& (TINFL_FAST_LOOKUP_SIZE - 1)]? with
  | none => none
  | some temp =>
    if 0 ≤ temp then some (decide (temp.toNat >>> 9 ≠ 0 ∧ numBits ≥ temp.toNat >>> 9))
    else if numBits > TINFL_FAST_LOOKUP_BITS then walkReady t.tree bitBuf numBits 288 temp TINFL_FAST_LOOKUP_BITS
    else some false

end HuffTable

/-! ## Building -/

/-- `for (i = 0; i < m_table_sizes[m_type]; ++i) total_syms[m_code_size[i]]++` -/
def totalSyms (sizes : List Nat) : List Nat := sizes.foldl (fun ts l => ts.modify l (· + 1)) (List.replicate 16 0)

/-- `used_syms`, `total` and `next_code` -/
def nextCodes (ts : List Nat) : Nat × Nat × List Nat :=
  (List.range' 1 15).foldl (fun (used, total, next) i =>
    (used + ts.getD i 0, (total + ts.getD i 0) <<< 1, next.set (i + 1) ((total + ts.getD i 0) <<< 1)))
    (0, 0, List.replicate 17 0)

/-- `if ((65536 != total) && (used_syms > 1))` -/
def refused (sizes : List Nat) : Bool :=
  let (used, total, _) := nextCodes (totalSyms sizes)
  decide (65536 ≠ total ∧ used > 1)

/-- `for (l = code_size; l > 0; l--, cur_code >>= 1) rev_code = (rev_code << 1) | (cur_code & 1)` -/
def revCode : Nat → Nat → Nat → Nat
  | 0, _, rev => rev
  | l + 1, cur, rev => revCode l (cur >>> 1) (rev <<< 1 ||| (cur &&& 1))

/-- `while (rev_code < TINFL_FAST_LOOKUP_SIZE) { m_look_up[rev_code] = k; rev_code += (1 << code_size); }` -/
def fillLookUp (k : Int) (codeSize : Nat) (lookUp : Vector Int 1024) (rev : Nat) : Vector Int 1024 :=
  if h : rev < 1024 then fillLookUp k codeSize (lookUp.set rev k) (rev + 1 <<< codeSize) else lookUp
termination_by 1024 - rev
decreasing_by
  have : 0 < 1 <<< codeSize := by rw [Nat.one_shiftLeft]; exact Nat.two_pow_pos _
  omega

/-- The arrays between two turns of the loop over `sym_index`. -/
structure Building where
  lookUp : Vector Int 1024
  tree : Vector Int 576
  treeNext : Int
  nextCode : List Nat

/-- `for (j = code_size; j > (TINFL_FAST_LOOKUP_BITS + 1); j--)`: the tree, `tree_next`, `tree_cur` and `rev_code`. -/
def grow : Nat → Vector Int 576 → Int → Int → Nat → Option (Vector Int 576 × Int × Int × Nat)
  | 0, tree, next, cur, rev => some (tree, next, cur, rev)
  | j + 1, tree, next, cur, rev =>
    let rev := rev >>> 1
    let cur := cur - (rev &&& 1 : Nat)
    match treeAt tree cur 0 with
    | none => none
    | some entry =>
      if entry = 0 then grow j (tree.setIfInBounds (-cur - 1).toNat next) (next - 2) next rev
      else grow j tree next entry rev

/-- `if (0 == (tree_cur = m_look_up[rev_code & 1023]))` and what follows it for a code of more than ten bits. -/
def insertLong (b : Building) (symIndex codeSize rev : Nat) : Option Building :=
  match b.lookUp[rev &&& (TINFL_FAST_LOOKUP_SIZE - 1)]? with
  | none => none
  | some cur =>
    let (lookUp, cur, next) :=
      if cur = 0 then
        (b.lookUp.setIfInBounds (rev &&& (TINFL_FAST_LOOKUP_SIZE - 1)) b.treeNext, b.treeNext, b.treeNext - 2)
      else (b.lookUp, cur, b.treeNext)
    let rev := rev >>> (TINFL_FAST_LOOKUP_BITS - 1)
    match grow (codeSize - (TINFL_FAST_LOOKUP_BITS + 1)) b.tree next cur rev with
    | none => none
    | some (tree, next, cur, rev) =>
      let cur := cur - (rev >>> 1 &&& 1 : Nat)
      match treeAt tree cur 0 with
      | none => none
      | some _ =>
        some { b with lookUp := lookUp, tree := tree.setIfInBounds (-cur - 1).toNat symIndex, treeNext := next }

/-- One turn of the loop over `sym_index`. -/
def insertSym (b : Building) (symIndex codeSize : Nat) : Option Building :=
  if codeSize = 0 then some b
  else
    match b.nextCode[codeSize]? with
    | none => none
    | some curCode =>
      let b := { b with nextCode := b.nextCode.set codeSize (curCode + 1) }
      let rev := revCode codeSize curCode 0
      if codeSize ≤ TINFL_FAST_LOOKUP_BITS then
        some { b with lookUp := fillLookUp ((codeSize <<< 9 ||| symIndex : Nat) : Int) codeSize b.lookUp rev }
      else insertLong b symIndex codeSize rev

def insertSyms : List Nat → Nat → Building → Option Building
  | [], _, b => some b
  | codeSize :: sizes, symIndex, b => (insertSym b symIndex codeSize).bind (insertSyms sizes (symIndex + 1))

/-- `MZ_CLEAR_OBJ(m_look_up)`, `MZ_CLEAR_OBJ(m_tree)` and `tree_next = -1` -/
def emptyTables (sizes : List Nat) : Building :=
  ⟨Vector.replicate 1024 0, Vector.replicate 576 0, -1, (nextCodes (totalSyms sizes)).2.2⟩

/-- The arrays for the code sizes in use, which are at most 15. -/
def buildTable (sizes : List Nat) : Option Building :=
  if sizes.all (· ≤ 15) then insertSyms sizes 0 (emptyTables sizes) else none

end Keynjector.Inflate
