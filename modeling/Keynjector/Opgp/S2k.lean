import Keynjector.Opgp.Stream
import Keynjector.Sha1.Update
/-
# String-to-key (opgp.c:26-142, 564-609)

| here | there |
| --- | --- |
| `Err`                       | `err_t` (opgp.c:26) |
| `Key`                       | `key_t` (:35); the chain is a `List Key`, newest first |
| `hashPasses`, `computeKey`  | `compute_key` (:106) |
| `readS2k`, `addKey`         | `read_s2k` (:564) |
| `Specifier`                 | the three specifiers of RFC 4880, 3.7.1, with the octets each one hashes |

`computeKey_spec` says which octets `compute_key` hashes for each specifier and
when these are the octets of the RFC: never for a simple specifier with a
passphrase, and for an iterated one only when its count covers one repetition.
-/

namespace Keynjector.Opgp

open Sha1 (sha1Init sha1Update sha1Finish sha1Digest sha1 Absorbed)

inductive Err where
  | ok
  | streamError
  | invalidPacketHeader
  | unhandled
  | memAllocError
deriving DecidableEq, Repr

structure Key where
  /-- the allocation of this record -/
  id : Nat
  algo : UInt8
  salt : List UInt8
  count : Nat
  computed : Bool
  key : List UInt8
deriving DecidableEq, Repr

def SALTED_S2K : Nat := 1

/-- A `sha1_ctx` on the stack, before `sha1_init`. -/
def stackCtx : Sha1.Ctx := ⟨0, 0, 0, 0, 0, List.replicate Sha1.SHA1_CHUNK_SIZE 0, 0⟩

/-- `while (n--)` -/
def hashPasses (salt passphrase : List UInt8) : Nat → Sha1.Ctx → Sha1.Ctx
  | 0, ctx => ctx
  | n + 1, ctx => hashPasses salt passphrase n (sha1Update (sha1Update ctx salt) passphrase)

def computeKey (key : Key) (passphrase : List UInt8) : Key :=
  if key.computed then key
  else
    let len := (passphrase.length + 8) % 2 ^ 32
    let key := if key.count = SALTED_S2K then { key with count := len } else key
    let n := key.count / len
    let m := key.count % len
    let ctx := hashPasses key.salt passphrase n (sha1Init stackCtx)
    let p := if m > 8 then 8 else m
    let ctx := sha1Update ctx (key.salt.take p)
    let m := m - p
    let ctx := sha1Update ctx (passphrase.take m)
    { key with key := sha1Digest (sha1Finish ctx), computed := true }

variable {τ : Tinfl} (fuel : Nat) {k : Nat}

/-- `malloc`, `memcpy` and the new head of the chain. -/
def addKey (key : Key) (stream : Chain τ k) (keys : List Key) (h : Heap) : Err × Chain τ k × List Key × Heap :=
  match malloc h with
  | (none, h) => (.memAllocError, stream, keys, h)
  | (some id, h) => (.ok, stream, { key with id := id, computed := false } :: keys, h)

def readS2k (stream : Chain τ k) (keys : List Key) (h : Heap) : Err × Chain τ k × List Key × Heap :=
  -- the fields of the local `key` that no branch sets
  let key : Key := ⟨0, 0, List.replicate 8 0, 0, false, List.replicate 20 0⟩
  match mpgpSread fuel stream 1 with
  | ([s2kType], stream) =>
    if s2kType = 2 then (.unhandled, stream, keys, h)
    else if s2kType ≤ 3 then
      match mpgpSread fuel stream 1 with
      | ([algo], stream) =>
        if algo ≠ 2 then (.unhandled, stream, keys, h)
        else if s2kType > 0 then
          let (salt, stream) := mpgpSread fuel stream 8
          if salt.length ≠ 8 then (.streamError, stream, keys, h)
          else if s2kType > 1 then
            match mpgpSread fuel stream 1 with
            | ([c], stream) =>
              let count := (16 + (c &&& 15).toNat) <<< ((c >>> 4).toNat + 6)
              addKey { key with algo := algo, salt := salt, count := count } stream keys h
            | (_, stream) => (.streamError, stream, keys, h)
          else addKey { key with algo := algo, salt := salt, count := SALTED_S2K } stream keys h
        else addKey { key with algo := algo, count := 0 } stream keys h
      | (_, stream) => (.streamError, stream, keys, h)
    else (.unhandled, stream, keys, h)
  | (_, stream) => (.streamError, stream, keys, h)

/-! ## The octets that are hashed -/

/-- Everything `compute_key` passes to `sha1_update`, in order. -/
def hashedOctets (key : Key) (passphrase : List UInt8) : List UInt8 :=
  let len := (passphrase.length + 8) % 2 ^ 32
  let count := if key.count = SALTED_S2K then len else key.count
  let m := count % len
  let p := if m > 8 then 8 else m
  (List.replicate (count / len) (key.salt ++ passphrase)).flatten ++ key.salt.take p ++ passphrase.take (m - p)

theorem hashPasses_absorbed {ctx : Sha1.Ctx} {msg : List UInt8} (h : Absorbed ctx msg) (salt passphrase : List UInt8)
    (n : Nat) :
    Absorbed (hashPasses salt passphrase n ctx) (msg ++ (List.replicate n (salt ++ passphrase)).flatten) := by
  induction n generalizing ctx msg with
  | zero => simpa [hashPasses] using h
  | succ n ih =>
    have := ih ((h.update salt).update passphrase)
    rw [List.replicate_succ, List.flatten_cons]
    simpa only [hashPasses, List.append_assoc] using this

/-- The key is the SHA-1 digest of the hashed octets. -/
theorem computeKey_key {key : Key} (h : key.computed = false) (passphrase : List UInt8) :
    (computeKey key passphrase).key = sha1 (hashedOctets key passphrase) := by
  have hinit : Absorbed (sha1Init stackCtx) [] := Absorbed.init rfl
  by_cases hs : key.count = SALTED_S2K
  · simp only [computeKey, h, hashedOctets, hs, if_true, Bool.false_eq_true, if_false]
    exact (((hashPasses_absorbed hinit _ _ _).update _).update _).digest
  · simp only [computeKey, h, hashedOctets, hs, if_false, Bool.false_eq_true]
    exact (((hashPasses_absorbed hinit _ _ _).update _).update _).digest

/-! ## The specifiers of RFC 4880 -/

abbrev Salt := { s : List UInt8 // s.length = 8 }

inductive Specifier where
  | simple
  | salted (salt : Salt)
  | iterated (salt : Salt) (c : UInt8)

/-- The coded count, decoded. -/
def decodedCount (c : UInt8) : Nat := (16 + c.toNat % 16) * 2 ^ (c.toNat / 16 + 6)

namespace Specifier

/-- On the wire, with SHA-1 as the hash. -/
def bytes : Specifier → List UInt8
  | simple => [0, 2]
  | salted salt => [1, 2] ++ salt.1
  | iterated salt c => [3, 2] ++ salt.1 ++ [c]

/-- The octets to hash: the passphrase; salt and passphrase; salt and passphrase
repeated up to the count, which is raised to one repetition. -/
def octets (passphrase : List UInt8) : Specifier → List UInt8
  | simple => passphrase
  | salted salt => salt.1 ++ passphrase
  | iterated salt c =>
    let n := max (decodedCount c) (salt.1 ++ passphrase).length
    (List.replicate n (salt.1 ++ passphrase)).flatten.take n

/-- The key record `read_s2k` makes of it. -/
def key (id : Nat) : Specifier → Key
  | simple => ⟨id, 2, List.replicate 8 0, 0, false, List.replicate 20 0⟩
  | salted salt => ⟨id, 2, salt.1, SALTED_S2K, false, List.replicate 20 0⟩
  | iterated salt c => ⟨id, 2, salt.1, decodedCount c, false, List.replicate 20 0⟩

/-- When `compute_key` hashes the octets of the specifier. -/
def Met (passphrase : List UInt8) : Specifier → Prop
  | simple => passphrase = []
  | salted _ => passphrase.length ≠ 2 ^ 32 - 8
  | iterated _ c => passphrase.length + 8 ≤ decodedCount c

end Specifier

/-! ## Reading a specifier -/

theorem count_shift (c : UInt8) : (16 + (c &&& 15).toNat) <<< ((c >>> 4).toNat + 6) = decodedCount c := by
  have h15 : ∀ x : Nat, x &&& 15 = x % 16 := fun x => Nat.and_two_pow_sub_one_eq_mod x 4
  simp [decodedCount, Nat.shiftLeft_eq, Nat.shiftRight_eq_div_pow, h15]

theorem readS2k_spec {stream : Chain τ k} (hp : Plain stream) (spec : Specifier) {rest : List UInt8}
    (hs : content stream = spec.bytes ++ rest) (keys : List Key) {h : Heap} (hm : h.succeeds h.mallocs = true) :
    ∃ stream', readS2k fuel stream keys h =
        (.ok, stream', spec.key h.mallocs :: keys, { h with mallocs := h.mallocs + 1 }) ∧
      content stream' = rest ∧ Plain stream' := by
  cases spec with
  | simple =>
    obtain ⟨s1, hr1, hs1, hp1⟩ := mpgpSread_append fuel hp (show content stream = [0] ++ 2 :: rest from hs)
    obtain ⟨s2, hr2, hs2, hp2⟩ := mpgpSread_append fuel hp1 (show content s1 = [2] ++ rest from hs1)
    refine ⟨s2, ?_, hs2, hp2⟩
    simp only [List.length_singleton] at hr1 hr2
    simp [readS2k, hr1, hr2, addKey, malloc, hm, Specifier.key]
  | salted salt =>
    obtain ⟨s1, hr1, hs1, hp1⟩ := mpgpSread_append fuel hp
      (show content stream = [1] ++ 2 :: (salt.1 ++ rest) from hs)
    obtain ⟨s2, hr2, hs2, hp2⟩ := mpgpSread_append fuel hp1 (show content s1 = [2] ++ (salt.1 ++ rest) from hs1)
    obtain ⟨s3, hr3, hs3, hp3⟩ := mpgpSread_append fuel hp2 hs2
    refine ⟨s3, ?_, hs3, hp3⟩
    simp only [List.length_singleton] at hr1 hr2
    rw [salt.2] at hr3
    simp [readS2k, hr1, hr2, hr3, addKey, malloc, hm, Specifier.key, salt.2]
  | iterated salt c =>
    have hs0 : content stream = [3] ++ (2 :: (salt.1 ++ ([c] ++ rest))) := by
      rw [hs]
      simp [Specifier.bytes]
    obtain ⟨s1, hr1, hs1, hp1⟩ := mpgpSread_append fuel hp hs0
    obtain ⟨s2, hr2, hs2, hp2⟩ := mpgpSread_append fuel hp1
      (show content s1 = [2] ++ (salt.1 ++ ([c] ++ rest)) from hs1)
    obtain ⟨s3, hr3, hs3, hp3⟩ := mpgpSread_append fuel hp2 hs2
    obtain ⟨s4, hr4, hs4, hp4⟩ := mpgpSread_append fuel hp3 hs3
    refine ⟨s4, ?_, hs4, hp4⟩
    simp only [List.length_singleton] at hr1 hr2 hr4
    rw [salt.2] at hr3
    have hc := count_shift c
    simp only [readS2k, hr1, hr2, hr3, hr4, hc, salt.2, addKey, malloc, hm, Specifier.key, ne_eq, not_true_eq_false,
      if_true, if_false]
    rfl

/-! ## When the octets are those of the RFC -/

theorem decodedCount_bounds (c : UInt8) : 1024 ≤ decodedCount c ∧ decodedCount c < 2 ^ 32 := by
  have hc : c.toNat / 16 ≤ 15 := by
    have := c.toNat_lt
    omega
  have hlow : 2 ^ 6 ≤ 2 ^ (c.toNat / 16 + 6) := Nat.pow_le_pow_right (by omega) (by omega)
  have hhigh : 2 ^ (c.toNat / 16 + 6) ≤ 2 ^ 21 := Nat.pow_le_pow_right (by omega) (by omega)
  have h16 : c.toNat % 16 < 16 := Nat.mod_lt _ (by omega)
  unfold decodedCount
  constructor
  · calc 1024 = 16 * 2 ^ 6 := by norm_num
      _ ≤ (16 + c.toNat % 16) * 2 ^ (c.toNat / 16 + 6) := Nat.mul_le_mul (by omega) hlow
  · calc (16 + c.toNat % 16) * 2 ^ (c.toNat / 16 + 6) ≤ 31 * 2 ^ 21 := Nat.mul_le_mul (by omega) hhigh
      _ < 2 ^ 32 := by norm_num

/-- A repeated string cut anywhere is whole repetitions and a front part. -/
theorem take_cycle (u : List UInt8) (hu : 0 < u.length) (n c : Nat) (h : c ≤ n * u.length) :
    (List.replicate n u).flatten.take c = (List.replicate (c / u.length) u).flatten ++ u.take (c % u.length) := by
  induction n generalizing c with
  | zero =>
    have hc : c = 0 := by omega
    simp [hc]
  | succ n ih =>
    rw [List.replicate_succ, List.flatten_cons]
    by_cases hlt : c < u.length
    · rw [Nat.div_eq_of_lt hlt, Nat.mod_eq_of_lt hlt, List.take_append_of_le_length (by omega)]
      simp
    · have hc : c = u.length + (c - u.length) := by omega
      rw [Nat.succ_mul] at h
      have hdiv : c / u.length = (c - u.length) / u.length + 1 := by
        conv_lhs => rw [hc, Nat.add_comm, Nat.add_div_right _ hu]
      have hmod : c % u.length = (c - u.length) % u.length := by
        conv_lhs => rw [hc, Nat.add_mod_left]
      rw [hdiv, hmod, List.replicate_succ, List.flatten_cons, List.append_assoc, ← ih _ (by omega)]
      conv_lhs => rw [hc, List.take_length_add_append]

/-- The last, incomplete pass. -/
theorem take_salt_append {salt : Salt} {passphrase : List UInt8} (m : Nat) :
    salt.1.take (if m > 8 then 8 else m) ++ passphrase.take (m - if m > 8 then 8 else m) =
      (salt.1 ++ passphrase).take m := by
  rw [List.take_append, salt.2]
  split
  · rw [List.take_of_length_le (by rw [salt.2]), List.take_of_length_le (l := salt.1) (by rw [salt.2]; omega)]
  · rw [Nat.sub_self, show m - 8 = 0 by omega]

theorem length_flatten_replicate (n : Nat) (u : List UInt8) : (List.replicate n u).flatten.length = n * u.length := by
  simp

theorem hashedOctets_iterated {salt : Salt} {c : UInt8} {passphrase : List UInt8} (id : Nat)
    (hlen : passphrase.length < 2 ^ 32) :
    hashedOctets ((Specifier.iterated salt c).key id) passphrase = (Specifier.iterated salt c).octets passphrase ↔
      passphrase.length + 8 ≤ decodedCount c := by
  obtain ⟨hlow, hhigh⟩ := decodedCount_bounds c
  have hu : (salt.1 ++ passphrase).length = passphrase.length + 8 := by
    rw [List.length_append, salt.2]
    omega
  have hne : decodedCount c ≠ SALTED_S2K := by
    rw [SALTED_S2K]
    omega
  have hhashed : hashedOctets ((Specifier.iterated salt c).key id) passphrase =
      (List.replicate (decodedCount c / ((passphrase.length + 8) % 2 ^ 32)) (salt.1 ++ passphrase)).flatten ++
        (salt.1 ++ passphrase).take (decodedCount c % ((passphrase.length + 8) % 2 ^ 32)) := by
    simp only [hashedOctets, Specifier.key, hne, if_false, List.append_assoc]
    rw [take_salt_append]
  rw [hhashed]
  constructor
  · -- with a smaller count the code hashes fewer octets, or several repetitions after a wrap
    intro heq
    by_contra hlt
    have hlen' := congrArg List.length heq
    have hmax : max (decodedCount c) (salt.1 ++ passphrase).length = passphrase.length + 8 := by
      rw [hu]
      omega
    rw [Specifier.octets, hmax, List.length_append, length_flatten_replicate, List.length_take, List.length_take,
      length_flatten_replicate, hu, Nat.min_eq_left (Nat.le_mul_of_pos_right _ (by omega))] at hlen'
    by_cases hwrap : passphrase.length + 8 < 2 ^ 32
    · rw [Nat.mod_eq_of_lt hwrap, Nat.div_eq_of_lt (by omega), Nat.mod_eq_of_lt (by omega)] at hlen'
      omega
    · obtain ⟨r, hr, hr8⟩ : ∃ r, (passphrase.length + 8) % 2 ^ 32 = r ∧ r < 8 := ⟨_, rfl, by omega⟩
      rw [hr] at hlen'
      by_cases hr0 : r = 0
      · simp only [hr0, Nat.div_zero, Nat.mod_zero] at hlen'
        omega
      · have hpasses : 2 ≤ decodedCount c / r := (Nat.le_div_iff_mul_le (by omega)).2 (by omega)
        have := Nat.mul_le_mul_right (passphrase.length + 8) hpasses
        omega
  · intro hle
    have hmax : max (decodedCount c) (salt.1 ++ passphrase).length = decodedCount c := by
      rw [hu]
      omega
    rw [Nat.mod_eq_of_lt (by omega), Specifier.octets, hmax, take_cycle _ (by omega) _ _
      (Nat.le_mul_of_pos_right _ (by omega)), hu]

theorem hashedOctets_salted {salt : Salt} {passphrase : List UInt8} (id : Nat) (hlen : passphrase.length < 2 ^ 32) :
    hashedOctets ((Specifier.salted salt).key id) passphrase = salt.1 ++ passphrase ↔
      passphrase.length ≠ 2 ^ 32 - 8 := by
  have hhashed : hashedOctets ((Specifier.salted salt).key id) passphrase =
      (List.replicate ((passphrase.length + 8) % 2 ^ 32 / ((passphrase.length + 8) % 2 ^ 32))
        (salt.1 ++ passphrase)).flatten := by
    simp [hashedOctets, Specifier.key]
  rw [hhashed]
  by_cases h : passphrase.length = 2 ^ 32 - 8
  · -- the length wraps to zero and nothing is hashed
    have hsalt : salt.1 ≠ [] := List.ne_nil_of_length_pos (by rw [salt.2]; decide)
    simp [h, hsalt, eq_comm]
  · rw [Nat.div_self (by omega)]
    simpa using h

/-- The hashed octets are the specified ones exactly when `Met` holds. -/
theorem hashedOctets_eq_iff (spec : Specifier) (id : Nat) {passphrase : List UInt8} (hlen : passphrase.length < 2 ^ 32) :
    hashedOctets (spec.key id) passphrase = spec.octets passphrase ↔ spec.Met passphrase := by
  cases spec with
  | simple =>
    simp only [hashedOctets, Specifier.key, Specifier.octets, Specifier.Met, SALTED_S2K]
    simp [eq_comm]
  | salted salt => exact hashedOctets_salted id hlen
  | iterated salt c => exact hashedOctets_iterated id hlen

/-- **Which octets are hashed.** `read_s2k` accepts every specifier, and the key
`compute_key` then makes is the SHA-1 digest of `hashedOctets`. These are the
octets of the RFC exactly when `Met` holds: for a simple specifier only with the
empty passphrase, for a salted one unless the length wraps to zero, for an
iterated one when the count covers one repetition. Then the CAST5 key, the first
16 bytes, is the specified one. -/
theorem computeKey_spec {stream : Chain τ k} (hp : Plain stream) (spec : Specifier) (rest : List UInt8)
    (hs : content stream = spec.bytes ++ rest) (keys : List Key) (h : Heap) (hm : h.succeeds h.mallocs = true)
    (passphrase : List UInt8) (hlen : passphrase.length < 2 ^ 32) :
    ∃ key stream' h', readS2k fuel stream keys h = (.ok, stream', key :: keys, h') ∧ content stream' = rest ∧
      (computeKey key passphrase).key = sha1 (hashedOctets key passphrase) ∧
      (hashedOctets key passphrase = spec.octets passphrase ↔ spec.Met passphrase) ∧
      (spec.Met passphrase → (computeKey key passphrase).key.take Cast128.CAST128_KEY_SIZE =
        (sha1 (spec.octets passphrase)).take Cast128.CAST128_KEY_SIZE) := by
  obtain ⟨stream', hread, hrest, -⟩ := readS2k_spec fuel hp spec hs keys hm
  have hkey : (computeKey (spec.key h.mallocs) passphrase).key = sha1 (hashedOctets (spec.key h.mallocs) passphrase) :=
    computeKey_key (by cases spec <;> rfl) passphrase
  refine ⟨_, stream', _, hread, hrest, hkey, hashedOctets_eq_iff spec _ hlen, fun hmet => ?_⟩
  rw [hkey, (hashedOctets_eq_iff spec _ hlen).2 hmet]

/-- A decompressor for runs that meet no compressed packet. -/
def noTinfl : Tinfl := ⟨Unit, (), fun _ _ out _ _ _ => (-1, 0, 0, (), out)⟩

/-- A heap on which every allocation succeeds. -/
def goodHeap : Heap := ⟨fun _ => true, 0, [], 0⟩

/-- A file of the given bytes. -/
def fileOf (data : List UInt8) : Chain noTinfl 0 := (⟨data, false, false⟩ : Source)

theorem fileOf_plain (data : List UInt8) : Plain (fileOf data) := ⟨rfl, rfl⟩

/-- An iterated specifier of 1024 octets and the passphrase `abc`. -/
theorem computeKey_spec_iterated : ∃ key stream' h',
    readS2k 0 (fileOf [3, 2, 1, 2, 3, 4, 5, 6, 7, 8, 0, 0xff]) [] goodHeap = (.ok, stream', [key], h') ∧
    (computeKey key [0x61, 0x62, 0x63]).key.take 16 =
      (sha1 ((List.replicate 1024 [1, 2, 3, 4, 5, 6, 7, 8, 0x61, 0x62, 0x63]).flatten.take 1024)).take 16 := by
  obtain ⟨key, stream', h', hread, -, -, -, hkey⟩ := computeKey_spec 0 (fileOf_plain _)
    (.iterated ⟨[1, 2, 3, 4, 5, 6, 7, 8], rfl⟩ 0) [0xff] rfl [] goodHeap rfl [0x61, 0x62, 0x63] (by decide)
  exact ⟨key, stream', h', hread, hkey (by decide : 3 + 8 ≤ decodedCount 0)⟩

/-- With a simple specifier the passphrase does not enter the key: `abc` gives
the key of the empty string. -/
theorem computeKey_simple_wrong : ∃ key stream' h',
    readS2k 0 (fileOf Specifier.simple.bytes) [] goodHeap = (.ok, stream', [key], h') ∧
    (computeKey key [0x61, 0x62, 0x63]).key.take 16 ≠ (sha1 (Specifier.simple.octets [0x61, 0x62, 0x63])).take 16 := by
  refine ⟨Specifier.simple.key 0, fileOf [], { goodHeap with mallocs := 1 }, rfl, ?_⟩
  rw [computeKey_key rfl]
  show (sha1 (hashedOctets (Specifier.simple.key 0) _)).take 16 ≠ (sha1 [0x61, 0x62, 0x63]).take 16
  rw [Sha1.sha1_abc]
  decide +kernel

end Keynjector.Opgp
