import Keynjector.Opgp.S2k
/-
# Opening a message (opgp.c:144-214, 367-396, 460-701)

| here | there |
| --- | --- |
| `checkKeys`, `checkKey`     | `check_key` (opgp.c:148) and its `while` |
| `mpgpEncrSopen`             | `mpgp_encr_sopen` (:186) |
| `mpgpZSopen`                | `mpgp_z_sopen` (:362) |
| `skipName`, `mpgpLitSopen`  | `mpgp_lit_sopen` (:461) and its `while` |
| `readPacketHeader`          | `read_packet_header` (:501) |
| `readSkeskPacket`           | `read_skesk_packet` (:612) |
| `mpgpOpenR`, `mpgpOpen`     | `mpgp_open_r`, `mpgp_open` (:653, :691) |

`mpgp_open_r` loops over packets and calls itself on a new layer; both are one
recursion on the number of packets still allowed, and `none` is running out.
-/

namespace Keynjector.Opgp

open Cast128

variable {τ : Tinfl} (fuel : Nat) {k : Nat}

/-- A `cast128_cfb_ctx` as `malloc` gives it. -/
def heapCtx : CfbCtx := ⟨⟨[], []⟩, List.replicate 8 0, List.replicate 8 0, 0⟩

/-- `while (keys != NULL)`: the context for the first key that fits, and the
chain with the keys that were computed. -/
def checkKeys (ctx : CfbCtx) (pad passphrase : List UInt8) : List Key → Option CfbCtx × List Key
  | [] => (none, [])
  | key :: keys =>
    let key := computeKey key passphrase
    let ctx := cast128CfbInit ctx key.key none
    let (padd, ctx) := cast128CfbDecrypt ctx pad
    if padd.getD 6 0 = padd.getD 8 0 ∧ padd.getD 7 0 = padd.getD 9 0 then
      (some (cast128CfbReinit ctx (some (pad.drop 2))), key :: keys)
    else
      let (r, keys) := checkKeys ctx pad passphrase keys
      (r, key :: keys)

/-- The context object and what it holds. -/
def checkKey (pad : List UInt8) (keys : List Key) (passphrase : List UInt8) (h : Heap) :
    Option (Nat × CfbCtx) × List Key × Heap :=
  match malloc h with
  | (none, h) => (none, keys, h)
  | (some id, h) =>
    match checkKeys heapCtx pad passphrase keys with
    | (some ctx, keys) => (some (id, ctx), keys, h)
    | (none, keys) => (none, keys, free id h)

def mpgpEncrSopen (inner : Chain τ k) (keys : List Key) (passphrase : List UInt8) (packetLen : Nat) (h : Heap) :
    Option EncrStream × Chain τ k × List Key × Heap :=
  let (pad, inner) := mpgpSread fuel inner 10
  if pad.length ≠ 10 then (none, inner, keys, h)
  else
    match checkKey pad keys passphrase h with
    | (none, keys, h) => (none, inner, keys, h)
    | (some (ctxId, ctx), keys, h) =>
      match malloc h with
      | (some id, h) => (some ⟨id, ctxId, ctx, packetLen⟩, inner, keys, h)
      | (none, h) => (none, inner, keys, free ctxId h)

def mpgpZSopen (inner : Chain τ k) (h : Heap) : Option (ZStream τ) × Chain τ k × Heap :=
  match mpgpSread fuel inner 1 with
  | ([algo], inner) =>
    if algo = 1 ∨ algo = 2 then
      let flags := if algo = 1 then 0 else 1
      match malloc h with
      | (some id, h) =>
        (some { id := id, d := τ.init, flags := flags, buf := List.replicate Z_BUF_SIZE 0, n := 0, pos := 0,
                outBuf := List.replicate Z_OUT_BUF_SIZE 0, availOut := Z_OUT_BUF_SIZE, pConsumed := 0,
                error := false, eof := false }, inner, h)
      | (none, h) => (none, inner, h)
    else (none, inner, h)
  | (_, inner) => (none, inner, h)

def LIT_BUF_SIZE : Nat := 8

/-- `while (len > 0)`: whether the whole name could be read. -/
def skipName (len : Nat) (inner : Chain τ k) : Bool × Chain τ k :=
  if _h : len > 0 then
    let n := min len LIT_BUF_SIZE
    let (bs, inner) := mpgpSread fuel inner n
    if bs.length ≠ n then (false, inner) else skipName (len - n) inner
  else (true, inner)
termination_by len
decreasing_by
  have : n = min len 8 := rfl
  omega

def mpgpLitSopen (inner : Chain τ k) (packetLen : Nat) (h : Heap) : Option LitStream × Chain τ k × Heap :=
  match mpgpSread fuel inner 1 with
  | ([type], inner) =>
    if type ≠ 0x62 then (none, inner, h)
    else
      match mpgpSread fuel inner 1 with
      | ([len], inner) =>
        -- `size_t` arithmetic
        let packetLen := (packetLen + 2 ^ 32 - (6 + len.toNat)) % 2 ^ 32
        match skipName fuel len.toNat inner with
        | (false, inner) => (none, inner, h)
        | (true, inner) =>
          let (date, inner) := mpgpSread fuel inner 4
          if date.length ≠ 4 then (none, inner, h)
          else
            match malloc h with
            | (some id, h) => (some ⟨id, packetLen⟩, inner, h)
            | (none, h) => (none, inner, h)
      | (_, inner) => (none, inner, h)
  | (_, inner) => (none, inner, h)

/-- `tag`, `length` and `have_length`. -/
structure Header where
  tag : Nat
  length : Nat
  haveLength : Bool
deriving DecidableEq, Repr

/-- `(b[0] << 24) | (b[1] << 16) | (b[2] << 8) | b[3]` -/
def be32 (b0 b1 b2 b3 : UInt8) : Nat :=
  b0.toNat <<< 24 ||| b1.toNat <<< 16 ||| b2.toNat <<< 8 ||| b3.toNat

def readPacketHeader (s : Chain τ k) (hd : Header) : Err × Header × Chain τ k :=
  match mpgpSread fuel s 1 with
  | ([b], s) =>
    if b &&& 0x80 = 0 then (.invalidPacketHeader, hd, s)
    else if b &&& 0x40 = 0 then
      -- old packet format
      let hd := { hd with tag := ((b &&& 0x3C) >>> 2).toNat }
      if b &&& 0x3 = 0 then
        match mpgpSread fuel s 1 with
        | ([b0], s) => (.ok, { hd with length := b0.toNat, haveLength := true }, s)
        | (_, s) => (.streamError, hd, s)
      else if b &&& 0x3 = 1 then
        match mpgpSread fuel s 2 with
        | ([b0, b1], s) => (.ok, { hd with length := b0.toNat <<< 8 ||| b1.toNat, haveLength := true }, s)
        | (_, s) => (.streamError, hd, s)
      else if b &&& 0x3 = 2 then
        match mpgpSread fuel s 4 with
        | ([b0, b1, b2, b3], s) => (.ok, { hd with length := be32 b0 b1 b2 b3, haveLength := true }, s)
        | (_, s) => (.streamError, hd, s)
      else (.ok, { hd with haveLength := false }, s)
    else
      -- new packet format
      let hd := { hd with tag := (b &&& 0x3F).toNat }
      match mpgpSread fuel s 1 with
      | ([b0], s) =>
        if b0 < 192 then (.ok, { hd with length := b0.toNat, haveLength := true }, s)
        else if b0 ≤ 223 then
          match mpgpSread fuel s 1 with
          | ([b1], s) =>
            (.ok, { hd with length := ((b0.toNat - 192) <<< 8) + b1.toNat + 192, haveLength := true }, s)
          | (_, s) => (.streamError, hd, s)
        else if b0 = 255 then
          match mpgpSread fuel s 4 with
          | ([b0, b1, b2, b3], s) => (.ok, { hd with length := be32 b0 b1 b2 b3, haveLength := true }, s)
          | (_, s) => (.streamError, hd, s)
        else (.unhandled, hd, s)
      | (_, s) => (.streamError, hd, s)
  | (_, s) => (.streamError, hd, s)

def readSkeskPacket (stream : Chain τ k) (keys : List Key) (h : Heap) : Err × Chain τ k × List Key × Heap :=
  match mpgpSread fuel stream 1 with
  | ([version], stream) =>
    if version ≠ 4 then (.unhandled, stream, keys, h)
    else
      match mpgpSread fuel stream 1 with
      | ([algo], stream) => if algo = 3 then readS2k fuel stream keys h else (.unhandled, stream, keys, h)
      | (_, stream) => (.streamError, stream, keys, h)
  | (_, stream) => (.streamError, stream, keys, h)

def SKESK_TAG : Nat := 3
def COMPRESSED_TAG : Nat := 8
def SYM_ENCR_TAG : Nat := 9
def LITERAL_TAG : Nat := 11

/-- The stream that is returned, the key chain and the heap. -/
abbrev Opened (τ : Tinfl) := Option (Σ k, Chain τ k) × List Key × Heap

def mpgpOpenR : Nat → {k : Nat} → Chain τ k → List UInt8 → List Key → Header → Heap → Option (Opened τ)
  | 0, _, _, _, _, _, _ => none
  | packets + 1, k, stream, passphrase, keys, hd, h =>
    match readPacketHeader fuel stream hd with
    | (.ok, hd, stream) =>
      if hd.tag = SKESK_TAG then
        match readSkeskPacket fuel stream keys h with
        | (.ok, stream, keys, h) => mpgpOpenR packets stream passphrase keys hd h
        | (_, stream, keys, h) => some (none, keys, sclose stream h)
      else if hd.tag = COMPRESSED_TAG then
        match mpgpZSopen fuel stream h with
        | (some s, stream, h) => mpgpOpenR packets (k := k + 1) (.z s, stream) passphrase keys ⟨0, 0, false⟩ h
        | (none, stream, h) => some (none, keys, sclose stream h)
      else if hd.tag = SYM_ENCR_TAG then
        match mpgpEncrSopen fuel stream keys passphrase hd.length h with
        | (some s, stream, keys, h) =>
          mpgpOpenR packets (k := k + 1) (.encr s, stream) passphrase keys ⟨0, 0, false⟩ h
        | (none, stream, keys, h) => some (none, keys, sclose stream h)
      else if hd.tag = LITERAL_TAG then
        match mpgpLitSopen fuel stream hd.length h with
        | (some s, stream, h) => some (some ⟨k + 1, (.lit s, stream)⟩, keys, h)
        | (none, stream, h) => some (none, keys, sclose stream h)
      else some (none, keys, sclose stream h)
    | (_, _, stream) => some (none, keys, sclose stream h)

/-- `free_keys` -/
def freeKeys (keys : List Key) (h : Heap) : Heap := keys.foldl (fun h key => free key.id h) h

def mpgpOpen (packets : Nat) (stream : Chain τ k) (passphrase : List UInt8) (h : Heap) :
    Option (Option (Σ k, Chain τ k) × Heap) :=
  (mpgpOpenR fuel packets stream passphrase [] ⟨0, 0, false⟩ h).map fun (s, keys, h) => (s, freeKeys keys h)

end Keynjector.Opgp
