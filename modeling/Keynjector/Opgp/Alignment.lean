import Keynjector.Opgp.S2k
/-
# Where the blocks of a key derivation lie (opgp.c:106-142, sha1.c:175-238)

| here | there |
| --- | --- |
| `Layout`                        | the addresses `compute_key` hands on: the passphrase, the salt, `ctx.buf`, and `pad` and `be_len` of `sha1_finish` |
| `updateLoopAt`, `sha1UpdateAt`, `sha1FinishAt` | `sha1_update` and `sha1_finish` with the address of every block they pass to `sha1_process` |
| `hashPassesAt`, `computeKeyAt`  | `compute_key` with these addresses |
| `BlocksAligned`                 | the lengths and counts for which they are all multiples of 4 |

The assembly loads a block with `LDMDB`, which faults on an address that is not a
multiple of 4. A block is hashed from the buffer or, when a whole one is left of
the input, from where the input lies; only the passphrase is long enough for the
latter, and where in it such a block starts depends on how the buffer is filled.
-/

namespace Keynjector.Opgp

open Sha1

/-! ## The calls with their addresses -/

/-- `while (len >= SHA1_CHUNK_SIZE)` with the input at `a`. -/
def updateLoopAt (ctx : Ctx) (a : Nat) (m : List UInt8) : Ctx × List UInt8 × List Nat :=
  if _h : SHA1_CHUNK_SIZE ≤ m.length then
    let (ctx, rest, as) :=
      updateLoopAt (sha1Process ctx (m.take SHA1_CHUNK_SIZE)) (a + SHA1_CHUNK_SIZE) (m.drop SHA1_CHUNK_SIZE)
    (ctx, rest, a :: as)
  else (ctx, m, [])
termination_by m.length
decreasing_by simp [SHA1_CHUNK_SIZE] at *; omega

/-- `sha1_update` with `ctx.buf` at `buf` and the input at `a`. -/
def sha1UpdateAt (buf a : Nat) (ctx : Ctx) (m : List UInt8) : Ctx × List Nat :=
  let fill := fillOf ctx
  let left := SHA1_CHUNK_SIZE - fill
  let ctx := { ctx with len := ctx.len + BitVec.ofNat 64 m.length }
  let (ctx, m, a, fill, as) :=
    if fill > 0 ∧ m.length ≥ left then
      let ctx := { ctx with buf := memcpy ctx.buf fill (m.take left) }
      (sha1Process ctx ctx.buf, m.drop left, a + left, 0, [buf])
    else (ctx, m, a, fill, [])
  let (ctx, m, bs) := updateLoopAt ctx a m
  (if m.length > 0 then { ctx with buf := memcpy ctx.buf fill m } else ctx, as ++ bs)

structure Layout where
  passphrase : Nat
  salt : Nat
  buf : Nat
  pad : Nat
  beLen : Nat
deriving DecidableEq, Repr

def sha1FinishAt (l : Layout) (ctx : Ctx) : Ctx × List Nat :=
  let beLen := WRITE_BE_64 (ctx.len <<< 3)
  let fill := fillOf ctx
  let nPad := if fill < 56 then 56 - fill else 120 - fill
  let (ctx, as) := sha1UpdateAt l.buf l.pad ctx (Sha1.pad.take nPad)
  let (ctx, bs) := sha1UpdateAt l.buf l.beLen ctx beLen
  (ctx, as ++ bs)

def hashPassesAt (l : Layout) (salt passphrase : List UInt8) : Nat → Ctx → Ctx × List Nat
  | 0, ctx => (ctx, [])
  | n + 1, ctx =>
    let (ctx, as) := sha1UpdateAt l.buf l.salt ctx salt
    let (ctx, bs) := sha1UpdateAt l.buf l.passphrase ctx passphrase
    let (ctx, cs) := hashPassesAt l salt passphrase n ctx
    (ctx, as ++ bs ++ cs)

def computeKeyAt (l : Layout) (key : Key) (passphrase : List UInt8) : Key × List Nat :=
  if key.computed then (key, [])
  else
    let len := (passphrase.length + 8) % 2 ^ 32
    let key := if key.count = SALTED_S2K then { key with count := len } else key
    let n := key.count / len
    let m := key.count % len
    let (ctx, as) := hashPassesAt l key.salt passphrase n (sha1Init stackCtx)
    let p := if m > 8 then 8 else m
    let (ctx, bs) := sha1UpdateAt l.buf l.salt ctx (key.salt.take p)
    let m := m - p
    let (ctx, cs) := sha1UpdateAt l.buf l.passphrase ctx (passphrase.take m)
    let (ctx, ds) := sha1FinishAt l ctx
    ({ key with key := sha1Digest ctx, computed := true }, as ++ bs ++ cs ++ ds)

/-! ## The addresses change nothing -/

/-- The whole blocks of `n` bytes at `a`. -/
def blocksAt (a n : Nat) : List Nat := (List.range (n / 64)).map fun i => a + 64 * i

theorem blocksAt_of_lt (a : Nat) {n : Nat} (h : n < 64) : blocksAt a n = [] := by
  rw [blocksAt, Nat.div_eq_of_lt h]
  rfl

theorem blocksAt_of_le (a : Nat) {n : Nat} (h : 64 ≤ n) : blocksAt a n = a :: blocksAt (a + 64) (n - 64) := by
  have hn : n / 64 = (n - 64) / 64 + 1 := by omega
  rw [blocksAt, hn, List.range_succ_eq_map, List.map_cons, List.map_map, blocksAt]
  refine congrArg _ (List.map_congr_left fun i _ => ?_)
  simp only [Function.comp_apply]
  omega

theorem updateLoopAt_eq (ctx : Ctx) (a : Nat) (m : List UInt8) :
    updateLoopAt ctx a m = ((updateLoop ctx m).1, (updateLoop ctx m).2, blocksAt a m.length) := by
  fun_induction updateLoopAt ctx a m with
  | case1 ctx a m h ctx' rest as heq ih =>
    rw [heq] at ih
    rw [updateLoop, dif_pos h, blocksAt_of_le a h]
    simp only [Prod.mk.injEq] at ih
    obtain ⟨rfl, rfl, rfl⟩ := ih
    rw [List.length_drop]
    rfl
  | case2 ctx a m h => rw [updateLoop, dif_neg h, blocksAt_of_lt a (Nat.lt_of_not_le h)]

theorem sha1UpdateAt_eq (buf a : Nat) (ctx : Ctx) (m : List UInt8) : sha1UpdateAt buf a ctx m =
    (sha1Update ctx m,
      if fillOf ctx > 0 ∧ m.length ≥ 64 - fillOf ctx then
        buf :: blocksAt (a + (64 - fillOf ctx)) (m.length - (64 - fillOf ctx))
      else blocksAt a m.length) := by
  unfold sha1UpdateAt sha1Update
  by_cases h : fillOf ctx > 0 ∧ m.length ≥ SHA1_CHUNK_SIZE - fillOf ctx
  · have h' : fillOf ctx > 0 ∧ m.length ≥ 64 - fillOf ctx := h
    simp only [h, h', and_self, if_true, updateLoopAt_eq, List.length_drop]
    rfl
  · have h' : ¬ (fillOf ctx > 0 ∧ m.length ≥ 64 - fillOf ctx) := h
    simp only [h, h', if_false, updateLoopAt_eq]
    rfl

theorem sha1UpdateAt_fst (buf a : Nat) (ctx : Ctx) (m : List UInt8) :
    (sha1UpdateAt buf a ctx m).1 = sha1Update ctx m := by
  rw [sha1UpdateAt_eq]

theorem hashPassesAt_fst (l : Layout) (salt passphrase : List UInt8) (n : Nat) (ctx : Ctx) :
    (hashPassesAt l salt passphrase n ctx).1 = hashPasses salt passphrase n ctx := by
  induction n generalizing ctx with
  | zero => rfl
  | succ n ih => simp only [hashPassesAt, hashPasses, ih, sha1UpdateAt_fst]

/-- The key is that of `compute_key`. -/
theorem computeKeyAt_fst (l : Layout) (key : Key) (passphrase : List UInt8) :
    (computeKeyAt l key passphrase).1 = computeKey key passphrase := by
  unfold computeKeyAt computeKey
  split
  · rfl
  · simp only [hashPassesAt_fst, sha1UpdateAt_fst, sha1FinishAt, sha1Finish]

/-! ## Which blocks lie in the input -/

def Aligned (as : List Nat) : Prop := ∀ x ∈ as, x % 4 = 0

instance (as : List Nat) : Decidable (Aligned as) := inferInstanceAs (Decidable (∀ x ∈ as, x % 4 = 0))

theorem aligned_append {as bs : List Nat} : Aligned (as ++ bs) ↔ Aligned as ∧ Aligned bs := List.forall_mem_append

theorem aligned_blocksAt {a n : Nat} : Aligned (blocksAt a n) ↔ ∀ i, 64 * i + 64 ≤ n → (a + 64 * i) % 4 = 0 := by
  constructor
  · intro h i hi
    exact h _ (List.mem_map.mpr ⟨i, List.mem_range.mpr (by omega), rfl⟩)
  · rintro h x hx
    obtain ⟨i, hi, rfl⟩ := List.mem_map.mp hx
    exact h i (by have := List.mem_range.mp hi; omega)

variable {ctx : Ctx} {msg : List UInt8} {l : Layout}

/-- Besides the buffer, an update passes on the whole blocks of the message that lie in its input:
the one from position `64 * j`, where the input starts at `msg.length`. -/
theorem sha1UpdateAt_aligned (h : Absorbed ctx msg) {buf : Nat} (hbuf : buf % 4 = 0) (a : Nat) (m : List UInt8) :
    Aligned (sha1UpdateAt buf a ctx m).2 ↔
      ∀ j, msg.length ≤ 64 * j → 64 * j + 64 ≤ msg.length + m.length → (a + (64 * j - msg.length)) % 4 = 0 := by
  rw [sha1UpdateAt_eq, h.fill]
  obtain ⟨q, hq⟩ : ∃ q, msg.length = 64 * q + msg.length % 64 := ⟨msg.length / 64, by omega⟩
  by_cases hc : msg.length % 64 > 0 ∧ m.length ≥ 64 - msg.length % 64
  · have hcons : Aligned (buf :: blocksAt (a + (64 - msg.length % 64)) (m.length - (64 - msg.length % 64))) ↔
        Aligned (blocksAt (a + (64 - msg.length % 64)) (m.length - (64 - msg.length % 64))) :=
      ⟨fun h x hx => h x (List.mem_cons_of_mem _ hx), fun h => List.forall_mem_cons.mpr ⟨hbuf, h⟩⟩
    rw [if_pos hc, hcons, aligned_blocksAt]
    constructor
    · intro h j hj hj'
      have := h (j - (q + 1)) (by omega)
      omega
    · intro h i hi
      have := h (q + 1 + i) (by omega) (by omega)
      omega
  · rw [if_neg hc, aligned_blocksAt]
    constructor
    · intro h j hj hj'
      have := h (j - q) (by omega)
      omega
    · intro h i hi
      have := h (q + i) (by omega) (by omega)
      omega

/-- An input shorter than a block has none. -/
theorem sha1UpdateAt_aligned_of_lt (h : Absorbed ctx msg) {buf : Nat} (hbuf : buf % 4 = 0) (a : Nat) {m : List UInt8}
    (hm : m.length < 64) : Aligned (sha1UpdateAt buf a ctx m).2 :=
  (sha1UpdateAt_aligned h hbuf a m).mpr fun j hj hj' => absurd hj' (by omega)

theorem sha1FinishAt_aligned (h : Absorbed ctx msg) (hbuf : l.buf % 4 = 0) : Aligned (sha1FinishAt l ctx).2 := by
  simp only [sha1FinishAt, h.fill]
  refine aligned_append.mpr ⟨?_, ?_⟩
  · refine (sha1UpdateAt_aligned h hbuf _ _).mpr fun j hj hj' => absurd hj' ?_
    rw [List.length_take]
    split <;> omega
  · rw [sha1UpdateAt_fst]
    exact sha1UpdateAt_aligned_of_lt (h.update _) hbuf _ (by simp [WRITE_BE_64])

theorem hashPassesAt_aligned (h : Absorbed ctx msg) (hbuf : l.buf % 4 = 0) {salt : List UInt8} (hsalt : salt.length = 8)
    (passphrase : List UInt8) (n : Nat) :
    Aligned (hashPassesAt l salt passphrase n ctx).2 ↔
      ∀ i < n, ∀ j, msg.length + i * (passphrase.length + 8) + 8 ≤ 64 * j →
        64 * j + 64 ≤ msg.length + i * (passphrase.length + 8) + (passphrase.length + 8) →
        (l.passphrase + (64 * j - (msg.length + i * (passphrase.length + 8) + 8))) % 4 = 0 := by
  induction n generalizing ctx msg with
  | zero => exact ⟨fun _ i hi => absurd hi (Nat.not_lt_zero i), fun _ => List.forall_mem_nil _⟩
  | succ n ih =>
    have h1 := h.update salt
    have h2 := h1.update passphrase
    have hsaltOk : Aligned (sha1UpdateAt l.buf l.salt ctx salt).2 :=
      sha1UpdateAt_aligned_of_lt h hbuf _ (by omega)
    have hlen1 : (msg ++ salt).length = msg.length + 8 := by rw [List.length_append, hsalt]
    have hlen2 : (msg ++ salt ++ passphrase).length = msg.length + (passphrase.length + 8) := by
      rw [List.length_append, hlen1]
      omega
    simp only [hashPassesAt, aligned_append, sha1UpdateAt_fst, hsaltOk, true_and,
      sha1UpdateAt_aligned h1 hbuf, ih h2, hlen1, hlen2]
    constructor
    · rintro ⟨hfirst, hrest⟩ i hi j hj hj'
      cases i with
      | zero =>
        have := hfirst j (by omega) (by omega)
        rwa [Nat.zero_mul, Nat.add_zero]
      | succ i =>
        rw [Nat.succ_mul i] at hj hj' ⊢
        have := hrest i (by omega) j (by omega) (by omega)
        omega
    · intro hall
      refine ⟨fun j hj hj' => ?_, fun i hi j hj hj' => ?_⟩
      · have := hall 0 (Nat.succ_pos n) j (by omega) (by omega)
        rwa [Nat.zero_mul, Nat.add_zero] at this
      · have := hall (i + 1) (by omega) j (by rw [Nat.succ_mul i]; omega) (by rw [Nat.succ_mul i]; omega)
        rw [Nat.succ_mul i] at this
        omega

/-! ## The lengths and counts -/

/-- Each block of the first `count` octets that lies within one passphrase of the repeated salt
and passphrase, `len` octets together, starts at a multiple of 4 in them. -/
def BlocksAligned (len count : Nat) : Prop :=
  ∀ j < count / 64, 8 ≤ 64 * j % len → 64 * j % len + 64 ≤ len → 64 * j % len % 4 = 0

instance (len count : Nat) : Decidable (BlocksAligned len count) :=
  inferInstanceAs (Decidable (∀ j < count / 64, 8 ≤ 64 * j % len → 64 * j % len + 64 ≤ len → 64 * j % len % 4 = 0))

theorem mul_add_mod_len {i len r : Nat} (hr : r < len) : (i * len + r) % len = r ∧ (i * len + r) / len = i := by
  rw [Nat.add_comm, Nat.add_mul_mod_self_right, Nat.mod_eq_of_lt hr, Nat.add_mul_div_right _ _ (by omega),
    Nat.div_eq_of_lt hr, Nat.zero_add]
  exact ⟨rfl, rfl⟩

/-- `BlocksAligned` by whole passes and the octets of the last one. -/
theorem blocksAligned_iff {a ℓ count : Nat} (ha : a % 4 = 0) : BlocksAligned (ℓ + 8) count ↔
    (∀ i < count / (ℓ + 8), ∀ j, i * (ℓ + 8) + 8 ≤ 64 * j → 64 * j + 64 ≤ i * (ℓ + 8) + (ℓ + 8) →
      (a + (64 * j - (i * (ℓ + 8) + 8))) % 4 = 0) ∧
    ∀ j, count / (ℓ + 8) * (ℓ + 8) + 8 ≤ 64 * j → 64 * j + 64 ≤ count →
      (a + (64 * j - (count / (ℓ + 8) * (ℓ + 8) + 8))) % 4 = 0 := by
  obtain ⟨len, hlen⟩ : ∃ len, ℓ + 8 = len := ⟨_, rfl⟩
  rw [hlen]
  have hdiv : count / len * len + count % len = count := Nat.div_add_mod' count len
  have hmod : count % len < len := Nat.mod_lt _ (by omega)
  -- block `j` starts `r` octets into copy `i`
  have hblock : ∀ i j, i * len + 8 ≤ 64 * j → 64 * j + 64 ≤ i * len + len → 64 * j + 64 ≤ count →
      BlocksAligned len count → (a + (64 * j - (i * len + 8))) % 4 = 0 := fun i j hj hj' hc h => by
    obtain ⟨r, hr⟩ : ∃ r, 64 * j = i * len + r := ⟨64 * j - i * len, by omega⟩
    obtain ⟨hjmod, -⟩ := mul_add_mod_len (i := i) (show r < len by omega)
    rw [← hr] at hjmod
    have := h j (by omega) (by omega) (by omega)
    omega
  constructor
  · intro h
    refine ⟨fun i hi j hj hj' => hblock i j hj hj' ?_ h, fun j hj hj' => hblock _ j hj (by omega) hj' h⟩
    have := Nat.mul_le_mul_right len (Nat.succ_le_of_lt hi)
    rw [Nat.succ_mul i] at this
    omega
  · rintro ⟨hpasses, hlast⟩ j hj h8 h64
    have hj' := Nat.div_add_mod' (64 * j) len
    by_cases hi : 64 * j / len < count / len
    · have := hpasses _ hi j (by omega) (by omega)
      omega
    · have heq : 64 * j / len = count / len := Nat.le_antisymm (Nat.div_le_div_right (by omega)) (by omega)
      rw [heq] at hj'
      have := hlast j (by omega) (by omega)
      omega

/-- The count that `compute_key` works with. -/
def workingCount (key : Key) (passphrase : List UInt8) : Nat :=
  if key.count = SALTED_S2K then (passphrase.length + 8) % 2 ^ 32 else key.count

/-- The addresses for a count, whatever record it comes from. -/
def blocksFor (l : Layout) (salt passphrase : List UInt8) (count : Nat) : List Nat :=
  let passes := hashPassesAt l salt passphrase (count / (passphrase.length + 8)) (sha1Init stackCtx)
  let m := count % (passphrase.length + 8)
  let p := if m > 8 then 8 else m
  let last := sha1UpdateAt l.buf l.salt passes.1 (salt.take p)
  let cut := sha1UpdateAt l.buf l.passphrase last.1 (passphrase.take (m - p))
  passes.2 ++ last.2 ++ cut.2 ++ (sha1FinishAt l cut.1).2

theorem computeKeyAt_snd {key : Key} (hnew : key.computed = false) {passphrase : List UInt8}
    (hlen : passphrase.length + 8 < 2 ^ 32) (l : Layout) :
    (computeKeyAt l key passphrase).2 = blocksFor l key.salt passphrase (workingCount key passphrase) := by
  have hmod : (passphrase.length + 8) % 2 ^ 32 = passphrase.length + 8 := Nat.mod_eq_of_lt hlen
  by_cases hs : key.count = SALTED_S2K <;>
    simp only [computeKeyAt, blocksFor, workingCount, hnew, hs, hmod, if_true, if_false, Bool.false_eq_true]

theorem blocksFor_aligned (hpass : l.passphrase % 4 = 0) (hbuf : l.buf % 4 = 0) {salt : List UInt8}
    (hsalt : salt.length = 8) (passphrase : List UInt8) (count : Nat) :
    Aligned (blocksFor l salt passphrase count) ↔ BlocksAligned (passphrase.length + 8) count := by
  have hinit : Absorbed (sha1Init stackCtx) [] := Absorbed.init rfl
  obtain ⟨m, hm⟩ : ∃ m, count % (passphrase.length + 8) = m := ⟨_, rfl⟩
  have hmlt : m < passphrase.length + 8 := hm ▸ Nat.mod_lt _ (by omega)
  obtain ⟨p, hp⟩ : ∃ p, (if m > 8 then 8 else m) = p := ⟨_, rfl⟩
  have hp8 : p ≤ 8 ∧ (m ≤ 8 → p = m) ∧ (8 < m → p = 8) := by
    rw [← hp]
    split <;> omega
  have h1 := hashPasses_absorbed hinit salt passphrase (count / (passphrase.length + 8))
  have h2 := h1.update (salt.take p)
  have h3 := h2.update (passphrase.take (m - p))
  have hpasses := hashPassesAt_aligned hinit hbuf hsalt passphrase (count / (passphrase.length + 8))
  have hlast := sha1UpdateAt_aligned_of_lt h1 hbuf l.salt (m := salt.take p) (by
    rw [List.length_take]
    omega)
  have hpos : ([] ++ (List.replicate (count / (passphrase.length + 8)) (salt ++ passphrase)).flatten ++
      salt.take p).length = count / (passphrase.length + 8) * (passphrase.length + 8) + p := by
    rw [List.nil_append, List.length_append, length_flatten_replicate, List.length_append, hsalt, List.length_take,
      Nat.add_comm 8]
    omega
  have hcut := sha1UpdateAt_aligned h2 hbuf l.passphrase (passphrase.take (m - p))
  rw [hpos, List.length_take, Nat.min_eq_left (by omega)] at hcut
  have hdiv := Nat.div_add_mod' count (passphrase.length + 8)
  rw [hm] at hdiv
  rw [blocksAligned_iff hpass]
  simp only [blocksFor, hm, hp, aligned_append, hashPassesAt_fst, sha1UpdateAt_fst, hpasses, hlast,
    sha1FinishAt_aligned h3 hbuf, hcut, and_true, List.length_nil, Nat.zero_add]
  refine and_congr_right fun _ => forall_congr' fun j => ?_
  constructor
  · intro h hj hj'
    have h8 : p = 8 := hp8.2.2 (by omega)
    have := h (by omega) (by omega)
    rwa [h8] at this
  · intro h hj hj'
    have h8 : p = 8 := hp8.2.2 (by omega)
    rw [h8]
    exact h (by omega) (by omega)

/-- A passphrase of at most 64 octets has no whole block to itself but from its start; one whose
length is a multiple of 4 keeps every block in step. -/
theorem blocksAligned_of_short {ℓ : Nat} (h : ℓ ≤ 64 ∨ ℓ % 4 = 0) (count : Nat) : BlocksAligned (ℓ + 8) count := by
  intro j _ h8 h64
  rcases h with h | h
  · omega
  · have hstep : 4 ∣ 64 * j % (ℓ + 8) := (Nat.dvd_mod_iff (by omega)).mpr (Dvd.intro (16 * j) (by omega))
    omega

/-- Any other passphrase that fits the buffer of the firmware has an unaligned block within 64
passes. -/
theorem not_blocksAligned {ℓ : Nat} (h64 : 64 < ℓ) (h100 : ℓ ≤ 100) (h4 : ℓ % 4 ≠ 0) {count : Nat}
    (hcount : 64 * (ℓ + 8) ≤ count) : ¬ BlocksAligned (ℓ + 8) count := by
  have key : ∀ ℓ ≤ 100, 64 < ℓ → ℓ % 4 ≠ 0 →
      ∃ j < ℓ + 8, 8 ≤ 64 * j % (ℓ + 8) ∧ 64 * j % (ℓ + 8) + 64 ≤ ℓ + 8 ∧ 64 * j % (ℓ + 8) % 4 ≠ 0 := by
    decide +kernel
  obtain ⟨j, hj, h8, hr, hne⟩ := key ℓ h100 h64 h4
  exact fun h => hne (h j (by omega) h8 hr)

/-- **When every block is aligned**: with the passphrase and the buffer at multiples of 4, all blocks
that `compute_key` hashes are at multiples of 4 exactly if there are none, the key being
computed already, or those that lie within one passphrase of the repeated salt and
passphrase start at multiples of 4 in it. -/
theorem computeKey_blocks_aligned {l : Layout} {key : Key} {passphrase : List UInt8} (hpass : l.passphrase % 4 = 0)
    (hbuf : l.buf % 4 = 0) (hsalt : key.salt.length = 8) (hlen : passphrase.length ≤ 100) :
    Aligned (computeKeyAt l key passphrase).2 ↔
      key.computed = true ∨ BlocksAligned (passphrase.length + 8) (workingCount key passphrase) := by
  cases hnew : key.computed with
  | true =>
    have hnone : (computeKeyAt l key passphrase).2 = [] := by rw [computeKeyAt, if_pos hnew]
    rw [hnone]
    exact iff_of_true (List.forall_mem_nil _) (Or.inl rfl)
  | false =>
    rw [computeKeyAt_snd hnew (by omega), blocksFor_aligned hpass hbuf hsalt]
    exact (or_iff_right Bool.false_ne_true).symm

/-- The passphrase `abc` and a count of 65536. -/
theorem computeKey_blocks_aligned_abc :
    Aligned (computeKeyAt ⟨0x20000000, 0x20000101, 0x20001014, 0x400001, 0x20002003⟩
      ((Specifier.iterated ⟨[1, 2, 3, 4, 5, 6, 7, 8], rfl⟩ 96).key 0) [0x61, 0x62, 0x63]).2 :=
  (computeKey_blocks_aligned rfl rfl rfl (by decide)).mpr (Or.inr (blocksAligned_of_short (Or.inl (by decide)) _))

def sampleLayout : Layout := ⟨0x20000000, 0x20000100, 0x20001014, 0x400000, 0x20002000⟩

/-- A passphrase of 65 octets and a count of 65536: one block starts at its second octet. -/
theorem block_unaligned : sampleLayout.passphrase % 4 = 0 ∧ sampleLayout.buf % 4 = 0 ∧
    (List.replicate 65 (0x61 : UInt8)).length ≤ 100 ∧
    ¬ Aligned (computeKeyAt sampleLayout ((Specifier.iterated ⟨[1, 2, 3, 4, 5, 6, 7, 8], rfl⟩ 96).key 0)
      (List.replicate 65 0x61)).2 := by
  refine ⟨rfl, rfl, by decide, fun h => ?_⟩
  rw [computeKeyAt_snd rfl (by decide), blocksFor_aligned rfl rfl rfl] at h
  exact not_blocksAligned (by decide) (by decide) (by decide) (by decide) h

end Keynjector.Opgp
