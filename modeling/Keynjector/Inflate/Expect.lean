import Keynjector.Inflate.Macros
/-
# What the stream looks like at each point of control

The invariant of the inflater on a stream that is well formed: for every label, the marks
that are still to come, given what was decoded so far and is kept in the decompressor.

| here | there |
| --- | --- |
| `AtBlock`, `AfterBlock` | before the header of a block, and after the data of one |
| `Tokens`, `InTokens`    | among the symbols of a block, whose tables are built |
| `InSizes`               | among the code sizes of a dynamic block |
| `Expect`                | the invariant, a case for every label that a well-formed stream comes to |
-/

namespace Keynjector.Inflate

open Deflate (Mark bits output silent emit Block Token Codes Header SizeItem encodeBlocks encodeTokens encodeStored
  encodeItems expandItems ValidBlocks ValidTokens ValidItems copied tokensData sizeOrder distBase distExtra
  lengthBase)
open Canonical (word size)

/-- What follows the last block. -/
def trailer (zl : Bool) (pad : Nat) (sum : Vector UInt8 4) (pos : Nat) : List Bool :=
  Bits.ofNat (Deflate.padding pos) pad ++ if zl then Bits.ofBytes sum.toList else []

section

variable (zl : Bool) (pad : Nat) (sum : Vector UInt8 4)

/-- Blocks, whose position fits that of the end -/
def Blocks (hist : List UInt8) (bs : List Block) (r : List Mark) : Prop :=
  ∃ pos, r = encodeBlocks (trailer zl pad sum) pos hist bs ∧ ValidBlocks hist bs ∧ 8 ∣ pos + r.length

/-- Nothing of the checksum was read. -/
def AtBlock (m : Core) (hist : List UInt8) (r : List Mark) : Prop :=
  m.zAdler32 = 1 ∧ ∃ bs ≠ [], Blocks zl pad sum hist bs r

/-- After a block, of which `final` tells whether it was the last -/
def AfterBlock (m : Core) (hist : List UInt8) (r : List Mark) : Prop :=
  m.zAdler32 = 1 ∧ ∃ bs, (bs = [] ↔ m.final % 2 = 1) ∧ Blocks zl pad sum hist bs r

/-- Among the symbols of a block with the codes `cs` -/
def Tokens (m : Core) (cs : Codes) (hist : List UInt8) (r : List Mark) : Prop :=
  ∃ ts tail, r = encodeTokens cs hist ts ++ tail ∧ ValidTokens cs hist ts ∧
    AfterBlock zl pad sum m (hist ++ tokensData hist ts) tail

/-- The tables of the codes are built. -/
structure BuiltCodes (m : Core) (cs : Codes) : Prop where
  lit : Built cs.lit m.litTable
  dist : Built cs.dist m.distTable

def InTokens (m : Core) (hist : List UInt8) (r : List Mark) : Prop :=
  ∃ cs, BuiltCodes m cs ∧ Tokens zl pad sum m cs hist r

/-- The length of a stored block, and its complement -/
def lenBytes (data : List UInt8) : List UInt8 :=
  [UInt8.ofNat data.length, UInt8.ofNat (data.length / 256), UInt8.ofNat (65535 - data.length),
    UInt8.ofNat ((65535 - data.length) / 256)]

/-- Among the data of a stored block -/
def InStored (m : Core) (hist data : List UInt8) (r : List Mark) : Prop :=
  ∃ tail, r = encodeStored data ++ tail ∧ AfterBlock zl pad sum m (hist ++ data) tail

/-- In front of a stored block's length, of which `counter` bytes were read -/
structure InLength (m : Core) (hist : List UInt8) (r : List Mark) : Prop where
  counter : m.counter ≤ 4
  aligned : 8 ∣ m.numBits
  rest : ∃ data r', data.length < 2 ^ 16 ∧ r = silent (Bits.ofBytes ((lenBytes data).drop m.counter)) ++ r' ∧
    m.rawHeader.toList.take m.counter = ((lenBytes data).take m.counter).map UInt8.toNat ∧ InStored zl pad sum m hist data r'

/-- In a dynamic block, in front of its symbols -/
structure InHeader (m : Core) (hist : List UInt8) (h : Header) (r : List Mark) : Prop where
  type : m.type = 2
  valid : h.Valid
  tokens : Tokens zl pad sum m h.codes hist r

/-- The table sizes that are known -/
def knownSizes (h : Header) : List Nat := [h.codes.lit.length, h.codes.dist.length, h.sent]

/-- The first fields of a dynamic block's header -/
def headerFields (h : Header) : List (List Bool) :=
  [Bits.ofNat 5 (h.codes.lit.length - 257), Bits.ofNat 5 (h.codes.dist.length - 1), Bits.ofNat 4 (h.sent - 4)]

/-- The sizes of the code for sizes, after the first `k` -/
def sizeBits (h : Header) (k : Nat) : List Bool := ((sizeOrder.take h.sent).drop k).flatMap fun i => Bits.ofNat 3 (size h.sizeCode i)

/-- Among the sizes of a dynamic block's codes: `sizes` were read, `items` are to come. -/
structure InSizes (m : Core) (hist : List UInt8) (h : Header) (sizes : List Nat) (items : List SizeItem) (r : List Mark) :
    Prop where
  header : InHeader zl pad sum m hist h r
  size0 : m.litSize = h.codes.lit.length
  size1 : m.distSize = h.codes.dist.length
  built : Built h.sizeCode m.sizeTable
  valid : ValidItems h.sizeCode sizes items
  expand : expandItems sizes items = h.codes.lit ++ h.codes.dist
  counter : m.counter = sizes.length
  codes : m.lenCodes.toList.take sizes.length = sizes

/-- A copy of which the distance is to come: the marks of its symbol and extra bits complete `len` bytes. -/
structure CopyAhead (cs : Codes) (hist : List UInt8) (len d dx : Nat) : Prop where
  len : 3 ≤ len
  symbol : d < 30
  extra : dx < 2 ^ distExtra d
  size : size cs.dist d ≠ 0
  back : distBase d + dx ≤ hist.length

/-- Behind a symbol that is no literal -/
inductive AfterSymbol (m : Core) (cs : Codes) (hist : List UInt8) : Nat → List Mark → Prop
  | ends {r} (h : AfterBlock zl pad sum m hist r) : AfterSymbol m cs hist 256 r
  | copy {n ex d dx r} (hn : n < 29) (hex : ex < 2 ^ Deflate.lengthExtra n) (hcopy : CopyAhead cs hist (lengthBase n + ex) d dx)
      (h : Tokens zl pad sum m cs (hist ++ copied hist (distBase d + dx) (lengthBase n + ex)) r) :
      AfterSymbol m cs hist (257 + n) (silent (Bits.ofNat (Deflate.lengthExtra n) ex) ++
        (emit (word cs.dist d ++ Bits.ofNat (distExtra d) dx) (copied hist (distBase d + dx) (lengthBase n + ex)) ++ r))

/-- In front of the symbol `s`: the marks `y` of its word, and the rest -/
inductive AtSymbol (m : Core) (cs : Codes) (hist : List UInt8) : Nat → List Mark → List Mark → Prop
  | literal {b : UInt8} {r} (h : Tokens zl pad sum m cs (hist ++ [b]) r) :
      AtSymbol m cs hist b.toNat (emit (word cs.lit b.toNat) [b]) r
  | other {s r} (h : AfterSymbol zl pad sum m cs hist s r) : AtSymbol m cs hist s (silent (word cs.lit s)) r

/-- A copy that is under way -/
structure Copying (window : Nat) (m : Core) (hist : List UInt8) : Prop where
  pos : 0 < m.dist
  le : m.dist ≤ 32768
  back : m.dist ≤ hist.length
  from_mod : m.distFromOutBufStart % window = hist.length % window

/-- The big-endian number of the bytes behind the initial 1 -/
def beNat (bytes : List UInt8) : Nat := bytes.foldl (fun a b => (a <<< 8 ||| b.toNat) % 2 ^ 32) 1

/-- In front of the checksum, of which `counter` bytes were read -/
structure InAdler (m : Core) (hist : List UInt8) (r : List Mark) : Prop where
  zlib : zl = true
  counter : m.counter ≤ 4
  aligned : 8 ∣ m.numBits
  rest : r = silent (Bits.ofBytes (sum.toList.drop m.counter))
  value : m.zAdler32 = beNat (sum.toList.take m.counter)

/-- What `tinfl_decompress` checks of a zlib header -/
structure GoodHeader (cmf flg : UInt8) : Prop where
  check : (cmf.toNat * 256 + flg.toNat) % 31 = 0
  dict : flg.toNat &&& 32 = 0
  method : cmf.toNat &&& 15 = 8
  window : 1 <<< (8 + cmf.toNat >>> 4) ≤ 32768

inductive Expect (window : Nat) : Core → List UInt8 → List Mark → List UInt8 → Prop
  | zhdr0 {m r cmf flg} (hstate : m.state = .zhdr0) (hbits : m.numBits = 0) (hz : zl = true)
      (hgood : GoodHeader cmf flg) (h : AtBlock zl pad sum m [] r) :
      Expect window m [] (silent (Bits.ofBytes [cmf, flg]) ++ r) []
  | zhdr1 {m r flg} {cmf : UInt8} (hstate : m.state = .zhdr1) (hbits : m.numBits = 0)
      (hz : zl = true) (hcmf : m.zhdr0 = cmf.toNat) (hgood : GoodHeader cmf flg) (h : AtBlock zl pad sum m [] r) :
      Expect window m [] (silent (Bits.ofBytes [flg]) ++ r) []
  | blockHead {m hist r} (hstate : m.state = .blockHead) (h : AtBlock zl pad sum m hist r) :
      Expect window m hist r []
  | rawHead {m hist r} (hstate : m.state = .rawHead) (h : InLength zl pad sum m hist r) :
      Expect window m hist r []
  | rawBits {m hist r} (hstate : m.state = .rawBits) (h : InLength zl pad sum m hist r)
      (hlt : m.counter < 4) (hbits : m.numBits ≠ 0) : Expect window m hist r []
  | rawByte {m hist r} (hstate : m.state = .rawByte) (h : InLength zl pad sum m hist r)
      (hlt : m.counter < 4) (hbits : m.numBits = 0) : Expect window m hist r []
  | storedBits {m hist r data} (hstate : m.state = .storedBits) (hbits : 8 ∣ m.numBits)
      (hcount : m.counter = data.length) (h : InStored zl pad sum m hist data r) : Expect window m hist r []
  | storedGet {m hist r b data} (hstate : m.state = .storedGet) (hbits : 8 ∣ m.numBits)
      (hcount : m.counter = (b :: data).length) (h : InStored zl pad sum m hist (b :: data) r) :
      Expect window m hist r []
  | storedPut {m hist r b data} (hstate : m.state = .storedPut) (hbits : 8 ∣ m.numBits)
      (hcount : m.counter = (b :: data).length) (hb : m.dist = b.toNat) (h : InStored zl pad sum m (hist ++ [b]) data r) :
      Expect window m hist r [b]
  | storedBytes {m hist r data} (hstate : m.state = .storedBytes) (hbits : m.numBits = 0 ∨ data = [])
      (hcount : m.counter = data.length) (h : InStored zl pad sum m hist data r) : Expect window m hist r []
  | storedOut {m hist r data} (hstate : m.state = .storedOut) (hbits : m.numBits = 0)
      (hcount : m.counter = data.length) (hne : data ≠ []) (h : InStored zl pad sum m hist data r) : Expect window m hist r []
  | storedIn {m hist r data} (hstate : m.state = .storedIn) (hbits : m.numBits = 0)
      (hcount : m.counter = data.length) (hne : data ≠ []) (h : InStored zl pad sum m hist data r) : Expect window m hist r []
  | tableSizes {m hist r h} (hstate : m.state = .tableSizes) (hcount : m.counter ≤ 3)
      (hsizes : m.tableSizes.toList.take m.counter = (knownSizes h).take m.counter) (hin : InHeader zl pad sum m hist h r) :
      Expect window m hist (silent (((headerFields h).drop m.counter).flatten ++ (sizeBits h 0 ++ encodeItems h.sizeCode h.items)) ++ r) []
  | codeSizes {m hist r h} (hstate : m.state = .codeSizes) (hcount : m.counter ≤ h.sent)
      (hsizes : m.tableSizes.toList = knownSizes h)
      (hcodes : ∀ i, ∀ hi : i < 288, m.sizeTable.codeSize[i] = if i ∈ sizeOrder.take m.counter then size h.sizeCode i else 0)
      (hin : InHeader zl pad sum m hist h r) :
      Expect window m hist (silent (sizeBits h m.counter ++ encodeItems h.sizeCode h.items) ++ r) []
  | buildSizes {m hist r h} (hstate : m.state = .build) (hin : InHeader zl pad sum m hist h r)
      (hsizes : m.tableSizes.toList = [h.codes.lit.length, h.codes.dist.length, 19])
      (hcodes : m.sizeTable.codeSize.toList.take 19 = h.sizeCode) :
      Expect window m hist (silent (encodeItems h.sizeCode h.items) ++ r) []
  | buildDist {m hist r cs} (hstate : m.state = .build) (htype : m.type = 1)
      (hlit : m.litTable.codeSize.toList.take m.litSize = cs.lit)
      (hdist : m.distTable.codeSize.toList.take m.distSize = cs.dist)
      (hl : Accepted cs.lit) (hd : Accepted cs.dist) (h : Tokens zl pad sum m cs hist r) : Expect window m hist r []
  | buildLit {m hist r cs} (hstate : m.state = .build) (htype : m.type = 0)
      (hlit : m.litTable.codeSize.toList.take m.litSize = cs.lit) (hdist : Built cs.dist m.distTable)
      (hl : Accepted cs.lit) (h : Tokens zl pad sum m cs hist r) : Expect window m hist r []
  | buildDone {m hist r} (hstate : m.state = .build) (htype : m.type = 2 ^ 32 - 1)
      (h : InTokens zl pad sum m hist r) : Expect window m hist r []
  | lenCode {m hist r h sizes items} (hstate : m.state = .lenCode)
      (hin : InSizes zl pad sum m hist h sizes items r) : Expect window m hist (silent (encodeItems h.sizeCode items) ++ r) []
  | lenFill {m hist r h sizes item items} (hstate : m.state = .lenFill)
      (hin : InSizes zl pad sum m hist h sizes (item :: items) r) (hlt : m.numBits < size h.sizeCode item.symbol) :
      Expect window m hist (silent (encodeItems h.sizeCode (item :: items)) ++ r) []
  | lenRepeat {m hist r h sizes} {item : SizeItem} {items} (hstate : m.state = .lenRepeat)
      (hin : InSizes zl pad sum m hist h sizes (item :: items) r) (hdist : m.dist = item.symbol) (hge : 16 ≤ item.symbol)
      (hextra : m.numExtra = item.extra.length) :
      Expect window m hist (silent (item.extra ++ encodeItems h.sizeCode items) ++ r) []
  | symbol {m hist r} (hstate : m.state = .symbol) (h : InTokens zl pad sum m hist r) :
      Expect window m hist r []
  | symbolFill {m hist cs s y r} (hstate : m.state = .symbolFill) (hb : BuiltCodes m cs) (hs : size cs.lit s ≠ 0)
      (h : AtSymbol zl pad sum m cs hist s y r) (hlt : m.numBits < size cs.lit s) : Expect window m hist (y ++ r) []
  | symbolPut {m hist r} (hstate : m.state = .symbolPut)
      (h : InTokens zl pad sum m (hist ++ [UInt8.ofNat m.counter]) r) : Expect window m hist r [UInt8.ofNat m.counter]
  | lengthExtra {m hist r cs n ex d dx} (hstate : m.state = .lengthExtra)
      (hb : BuiltCodes m cs) (hextra : m.numExtra = Deflate.lengthExtra n) (hne : m.numExtra ≠ 0) (hcount : m.counter = lengthBase n)
      (hex : ex < 2 ^ Deflate.lengthExtra n) (hcopy : CopyAhead cs hist (lengthBase n + ex) d dx)
      (h : Tokens zl pad sum m cs (hist ++ copied hist (distBase d + dx) (lengthBase n + ex)) r) :
      Expect window m hist (silent (Bits.ofNat (Deflate.lengthExtra n) ex) ++
        (emit (word cs.dist d ++ Bits.ofNat (distExtra d) dx) (copied hist (distBase d + dx) (lengthBase n + ex)) ++ r)) []
  | distance {m hist r cs d dx} (hstate : m.state = .distance)
      (hb : BuiltCodes m cs) (hcopy : CopyAhead cs hist m.counter d dx)
      (h : Tokens zl pad sum m cs (hist ++ copied hist (distBase d + dx) m.counter) r) :
      Expect window m hist (emit (word cs.dist d ++ Bits.ofNat (distExtra d) dx) (copied hist (distBase d + dx) m.counter) ++ r) []
  | distFill {m hist r cs d dx} (hstate : m.state = .distFill)
      (hb : BuiltCodes m cs) (hcopy : CopyAhead cs hist m.counter d dx)
      (h : Tokens zl pad sum m cs (hist ++ copied hist (distBase d + dx) m.counter) r) (hlt : m.numBits < size cs.dist d) :
      Expect window m hist (emit (word cs.dist d ++ Bits.ofNat (distExtra d) dx) (copied hist (distBase d + dx) m.counter) ++ r) []
  | distExtra {m hist r cs d dx} (hstate : m.state = .distExtra)
      (hb : BuiltCodes m cs) (hcopy : CopyAhead cs hist m.counter d dx) (hdist : m.dist = distBase d)
      (hextra : m.numExtra = distExtra d) (hne : distExtra d ≠ 0)
      (h : Tokens zl pad sum m cs (hist ++ copied hist (distBase d + dx) m.counter) r) :
      Expect window m hist (emit (Bits.ofNat (distExtra d) dx) (copied hist (distBase d + dx) m.counter) ++ r) []
  | copyLoop {m hist r} (hstate : m.state = .copyLoop) (hcopy : Copying window m hist)
      (h : InTokens zl pad sum m (hist ++ copied hist m.dist m.counter) r) : Expect window m hist r (copied hist m.dist m.counter)
  | copyPut {m hist r} (hstate : m.state = .copyPut) (hcopy : Copying window m hist)
      (h : InTokens zl pad sum m (hist ++ copied hist m.dist (m.counter + 1)) r) :
      Expect window m hist r (copied hist m.dist (m.counter + 1))
  | adler {m hist r} (hstate : m.state = .adler) (h : InAdler zl sum m hist r) : Expect window m hist r []
  | adlerBits {m hist r} (hstate : m.state = .adlerBits) (h : InAdler zl sum m hist r) (hlt : m.counter < 4) :
      Expect window m hist r []
  | adlerByte {m hist r} (hstate : m.state = .adlerByte) (h : InAdler zl sum m hist r) (hlt : m.counter < 4)
      (hbits : m.numBits = 0) : Expect window m hist r []
  | done {m hist r} (hstate : m.state = .done) (hlt : r.length < 8) (hout : output r = [])
      (hadler : zl = true → m.zAdler32 = beNat sum.toList) : Expect window m hist r []

end

end Keynjector.Inflate
