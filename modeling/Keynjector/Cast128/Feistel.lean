import Keynjector.Cast128.Cipher
import Keynjector.Lib.Feistel
/-
# CAST-128 as a Feistel cipher, and the shifts of `ROTL` (cast128.c:155-205)

| here | there |
| --- | --- |
| `type1`, `type2`, `type3`, `roundFunction` | the three round types and their order, with rotation and bytes of a word as such |
| `cast128Decrypt`  | the sixteen rounds in reversed order; the source only encrypts |
| `shiftL`, `shiftR` | `x << n` and `x >> n`, without a value (`none`) for a count from 32 on |
| `checkedROTL`, `checkedF1` … `checkedF3`, `checkedEncrypt` | the macros and `cast128_encrypt` with these shifts |

`F1` to `F3` and `cast128Encrypt` give a shift by 32 the value that the target gives it, 0.
In C it has none: a rotation count of 0 makes `ROTL` shift right by 32.
-/

namespace Keynjector.Cast128

open Words Keynjector.Feistel

/-! ## The loop definition -/

/-- Byte `k` of a word, most significant first. -/
def octet (I : Word) (k : Nat) : Nat := (I.extractLsb' (24 - 8 * k) 8).toNat

def sbox (S : List Nat) (I : Word) (k : Nat) : Word := BitVec.ofNat 32 (S.getD (octet I k) 0)

def type1 (D km kr : Word) : Word :=
  let I := (km + D).rotateLeft kr.toNat
  ((sbox S1 I 0 ^^^ sbox S2 I 1) - sbox S3 I 2) + sbox S4 I 3

def type2 (D km kr : Word) : Word :=
  let I := (km ^^^ D).rotateLeft kr.toNat
  ((sbox S1 I 0 - sbox S2 I 1) + sbox S3 I 2) ^^^ sbox S4 I 3

def type3 (D km kr : Word) : Word :=
  let I := (km - D).rotateLeft kr.toNat
  ((sbox S1 I 0 + sbox S2 I 1) ^^^ sbox S3 I 2) - sbox S4 I 3

/-- `f` of round `i + 1`: types 1, 2, 3 in turn with the subkeys of the round. -/
def roundFunction (ctx : Ctx) (i : Nat) (D : Word) : Word :=
  let km := ctx.Km.getD i 0
  let kr := ctx.Kr.getD i 0
  match i % 3 with
  | 0 => type1 D km kr
  | 1 => type2 D km kr
  | _ => type3 D km kr

def halves (m : List UInt8) : Word × Word := (wordAt m 0, wordAt m 4)

def blockOf (b : Word × Word) : List UInt8 := beBytes b.1 ++ beBytes b.2

/-- Sixteen rounds by the loop definition: `R(16)`, then `L(16)`. -/
def cast128Rounds (ctx : Ctx) (m : List UInt8) : List UInt8 :=
  blockOf (cipher (· ^^^ ·) 16 (roundFunction ctx) (halves m))

def cast128Decrypt (ctx : Ctx) (c : List UInt8) : List UInt8 :=
  blockOf (cipher (· ^^^ ·) 16 (reversed 16 (roundFunction ctx)) (halves c))

/-! ## The macros and the round types -/

theorem ROTL_eq_rotateLeft (x : Word) {n : Word} (hn : n.toNat < 32) : ROTL x n = x.rotateLeft n.toNat := by
  have hsub : (32#32 - n).toNat = 32 - n.toNat := by
    rw [BitVec.toNat_sub_of_le (by rw [BitVec.le_def]; simp only [BitVec.toNat_ofNat]; omega)]
    rfl
  rw [BitVec.rotateLeft_def, Nat.mod_eq_of_lt hn, ROTL, BitVec.shiftLeft_eq', BitVec.ushiftRight_eq', hsub]

theorem look_B0 (S : List Nat) (I : Word) : look S (B0 I) = sbox S I 0 := by
  have : (I >>> 24).toNat = (I.extractLsb' 24 8).toNat := by
    simp only [BitVec.toNat_ushiftRight, BitVec.extractLsb'_toNat]
    omega
  rw [look, B0, this, sbox, octet]

theorem look_masked (S : List Nat) (I : Word) (k : Nat) :
    look S ((I >>> (24 - 8 * k)) &&& 0xff#32) = sbox S I k := by
  have : ((I >>> (24 - 8 * k)) &&& 0xff#32).toNat = octet I k := by
    simp only [octet, BitVec.toNat_and, BitVec.toNat_ushiftRight, BitVec.extractLsb'_toNat]
    exact Nat.and_two_pow_sub_one_eq_mod _ 8
  rw [look, this, sbox]

theorem look_B1 (S : List Nat) (I : Word) : look S (B1 I) = sbox S I 1 := look_masked S I 1

theorem look_B2 (S : List Nat) (I : Word) : look S (B2 I) = sbox S I 2 := look_masked S I 2

theorem look_B3 (S : List Nat) (I : Word) : look S (B3 I) = sbox S I 3 := by
  simpa [B3] using look_masked S I 3

variable {kr : Word}

theorem F1_eq_type1 (D km : Word) (hr : kr.toNat < 32) : F1 D km kr = type1 D km kr := by
  simp only [F1, type1, s1, s2, s3, s4, look_B0, look_B1, look_B2, look_B3, ROTL_eq_rotateLeft _ hr]

theorem F2_eq_type2 (D km : Word) (hr : kr.toNat < 32) : F2 D km kr = type2 D km kr := by
  simp only [F2, type2, s1, s2, s3, s4, look_B0, look_B1, look_B2, look_B3, ROTL_eq_rotateLeft _ hr]

theorem F3_eq_type3 (D km : Word) (hr : kr.toNat < 32) : F3 D km kr = type3 D km kr := by
  simp only [F3, type3, s1, s2, s3, s4, look_B0, look_B1, look_B2, look_B3, ROTL_eq_rotateLeft _ hr]

theorem Ctx.Kr_getD_lt {ctx : Ctx} (h : ∀ r ∈ ctx.Kr, r.toNat < 32) (i : Nat) : (ctx.Kr.getD i 0).toNat < 32 := by
  rw [List.getD_eq_getElem?_getD]
  cases hr : ctx.Kr[i]? with
  | none => exact Nat.zero_lt_succ _
  | some r => exact h r (List.mem_of_getElem? hr)

/-! ## Blocks -/

theorem halves_blockOf (b : Word × Word) : halves (blockOf b) = b :=
  Prod.ext (beWord_byteOf b.1) (beWord_byteOf b.2)

theorem blockOf_halves {m : List UInt8} (h : m.length = 8) : blockOf (halves m) = m := by
  rcases m with _ | ⟨b0, _ | ⟨b1, _ | ⟨b2, _ | ⟨b3, _ | ⟨b4, _ | ⟨b5, _ | ⟨b6, _ | ⟨b7, _ | ⟨b8, m⟩⟩⟩⟩⟩⟩⟩⟩⟩ <;>
    simp only [List.length_cons, List.length_nil] at h <;> try omega
  exact congrArg₂ (· ++ ·) (beBytes_beWord b0 b1 b2 b3) (beBytes_beWord b4 b5 b6 b7)

theorem xor_xor_self (a b : Word) : a ^^^ b ^^^ b = a := by rw [BitVec.xor_assoc, BitVec.xor_self, BitVec.xor_zero]

theorem cast128Decrypt_cast128Rounds (ctx : Ctx) {m : List UInt8} (h : m.length = 8) :
    cast128Decrypt ctx (cast128Rounds ctx m) = m := by
  rw [cast128Decrypt, cast128Rounds, halves_blockOf, cipher_reversed xor_xor_self, blockOf_halves h]

/-- The code's macros as the round functions of the loop. -/
def macroRound (ctx : Ctx) (i : Nat) (D : Word) : Word :=
  let km := ctx.Km.getD i 0
  let kr := ctx.Kr.getD i 0
  match i % 3 with
  | 0 => F1 D km kr
  | 1 => F2 D km kr
  | _ => F3 D km kr

/-- The unrolled rounds are the loop. -/
theorem cast128Encrypt_eq_cipher (ctx : Ctx) (m : List UInt8) :
    cast128Encrypt ctx m = blockOf (cipher (· ^^^ ·) 16 (macroRound ctx) (halves m)) := rfl

theorem cast128Encrypt_eq_rounds {ctx : Ctx} (hr : ∀ r ∈ ctx.Kr, r.toNat < 32) (m : List UInt8) :
    cast128Encrypt ctx m = cast128Rounds ctx m := by
  have hf : macroRound ctx = roundFunction ctx := by
    funext i D
    have hi := Ctx.Kr_getD_lt hr i
    simp only [macroRound, roundFunction, F1_eq_type1 D _ hi, F2_eq_type2 D _ hi, F3_eq_type3 D _ hi]
  rw [cast128Encrypt_eq_cipher, hf, cast128Rounds]

/-- **CAST-128 is the Feistel cipher**: for subkeys with rotations below 32, `cast128_encrypt` is
the loop definition; no two blocks have one ciphertext, and the reversed rounds give the
block back. -/
theorem cast128Encrypt_feistel {ctx : Ctx} (hr : ∀ r ∈ ctx.Kr, r.toNat < 32) :
    (∀ m, cast128Encrypt ctx m = cast128Rounds ctx m) ∧
      (∀ m, m.length = 8 → cast128Decrypt ctx (cast128Encrypt ctx m) = m) ∧
      ∀ m m', m.length = 8 → m'.length = 8 → cast128Encrypt ctx m = cast128Encrypt ctx m' → m = m' := by
  have hdec : ∀ m, m.length = 8 → cast128Decrypt ctx (cast128Encrypt ctx m) = m := fun m h => by
    rw [cast128Encrypt_eq_rounds hr, cast128Decrypt_cast128Rounds ctx h]
  refine ⟨cast128Encrypt_eq_rounds hr, hdec, fun m m' h h' heq => ?_⟩
  rw [← hdec m h, heq, hdec m' h']

theorem cast128Init_Kr_length (key : List UInt8) : (cast128Init key).Kr.length = 16 := rfl

theorem cast128Init_Kr_lt (key : List UInt8) : ∀ r ∈ (cast128Init key).Kr, r.toNat < 32 := by
  intro r hr
  obtain ⟨k, -, rfl⟩ := List.mem_map.mp hr
  have : (k &&& 0x1f#32).toNat = k.toNat % 32 := by
    rw [BitVec.toNat_and]
    exact Nat.and_two_pow_sub_one_eq_mod _ 5
  omega

/-- The ciphertext of the vector of `cast128_test` decrypts. -/
theorem cast128Encrypt_feistel_vector :
    cast128Decrypt (cast128Init [0x01, 0x23, 0x45, 0x67, 0x12, 0x34, 0x56, 0x78, 0x23, 0x45, 0x67, 0x89, 0x34, 0x56,
      0x78, 0x9A]) [0x23, 0x8B, 0x4F, 0xE5, 0x84, 0x7E, 0x44, 0xB2] =
      [0x01, 0x23, 0x45, 0x67, 0x89, 0xAB, 0xCD, 0xEF] := by
  rw [← cast128Encrypt_testVector]
  exact (cast128Encrypt_feistel (cast128Init_Kr_lt _)).2.1 _ rfl

/-! ## The shifts of `ROTL` -/

def shiftL (x n : Word) : Option Word := if n.toNat < 32 then some (x <<< n) else none

def shiftR (x n : Word) : Option Word := if n.toNat < 32 then some (x >>> n) else none

def checkedROTL (x n : Word) : Option Word := do
  let l ← shiftL x n
  let r ← shiftR x (32#32 - n)
  some (l ||| r)

def checkedF1 (D Km Kr : Word) : Option Word := do
  let I ← checkedROTL (Km + D) Kr
  some (((s1 (B0 I) ^^^ s2 (B1 I)) - s3 (B2 I)) + s4 (B3 I))

def checkedF2 (D Km Kr : Word) : Option Word := do
  let I ← checkedROTL (Km ^^^ D) Kr
  some (((s1 (B0 I) - s2 (B1 I)) + s3 (B2 I)) ^^^ s4 (B3 I))

def checkedF3 (D Km Kr : Word) : Option Word := do
  let I ← checkedROTL (Km - D) Kr
  some (((s1 (B0 I) + s2 (B1 I)) ^^^ s3 (B2 I)) - s4 (B3 I))

def checkedEncrypt (ctx : Ctx) (m : List UInt8) : Option (List UInt8) := do
  let Km := fun i => ctx.Km.getD i 0
  let Kr := fun i => ctx.Kr.getD i 0
  let L := wordAt m 0
  let R := wordAt m 4
  let L := L ^^^ (← checkedF1 R (Km 0) (Kr 0))
  let R := R ^^^ (← checkedF2 L (Km 1) (Kr 1))
  let L := L ^^^ (← checkedF3 R (Km 2) (Kr 2))
  let R := R ^^^ (← checkedF1 L (Km 3) (Kr 3))
  let L := L ^^^ (← checkedF2 R (Km 4) (Kr 4))
  let R := R ^^^ (← checkedF3 L (Km 5) (Kr 5))
  let L := L ^^^ (← checkedF1 R (Km 6) (Kr 6))
  let R := R ^^^ (← checkedF2 L (Km 7) (Kr 7))
  let L := L ^^^ (← checkedF3 R (Km 8) (Kr 8))
  let R := R ^^^ (← checkedF1 L (Km 9) (Kr 9))
  let L := L ^^^ (← checkedF2 R (Km 10) (Kr 10))
  let R := R ^^^ (← checkedF3 L (Km 11) (Kr 11))
  let L := L ^^^ (← checkedF1 R (Km 12) (Kr 12))
  let R := R ^^^ (← checkedF2 L (Km 13) (Kr 13))
  let L := L ^^^ (← checkedF3 R (Km 14) (Kr 14))
  let R := R ^^^ (← checkedF1 L (Km 15) (Kr 15))
  some (beBytes R ++ beBytes L)

/-- Both counts of `ROTL(x, n)` are below 32 for every `n` from 1 to 31 and no other. -/
theorem checkedROTL_eq (x n : Word) :
    checkedROTL x n = if 0 < n.toNat ∧ n.toNat < 32 then some (ROTL x n) else none := by
  unfold checkedROTL shiftL shiftR
  by_cases hn : n.toNat < 32
  · have hsub : (32#32 - n).toNat = 32 - n.toNat := by
      rw [BitVec.toNat_sub_of_le (by rw [BitVec.le_def]; simp only [BitVec.toNat_ofNat]; omega)]
      rfl
    by_cases h0 : 0 < n.toNat
    · have h1 : 32 - n.toNat < 32 := by omega
      simp [hn, h0, hsub, h1, ROTL]
    · have h1 : ¬ 32 - n.toNat < 32 := by omega
      simp [hn, h0, hsub, h1]
  · simp [hn]

variable (D Km : Word)

theorem checkedF1_eq : checkedF1 D Km kr = if 0 < kr.toNat ∧ kr.toNat < 32 then some (F1 D Km kr) else none := by
  rw [checkedF1, checkedROTL_eq]
  split <;> rfl

theorem checkedF2_eq : checkedF2 D Km kr = if 0 < kr.toNat ∧ kr.toNat < 32 then some (F2 D Km kr) else none := by
  rw [checkedF2, checkedROTL_eq]
  split <;> rfl

theorem checkedF3_eq : checkedF3 D Km kr = if 0 < kr.toNat ∧ kr.toNat < 32 then some (F3 D Km kr) else none := by
  rw [checkedF3, checkedROTL_eq]
  split <;> rfl

def checkedRound (ctx : Ctx) (i : Nat) (D : Word) : Option Word :=
  let Km := ctx.Km.getD i 0
  let Kr := ctx.Kr.getD i 0
  match i % 3 with
  | 0 => checkedF1 D Km Kr
  | 1 => checkedF2 D Km Kr
  | _ => checkedF3 D Km Kr

/-- The block after `n` more rounds from round `i` on. -/
def checkedRounds (ctx : Ctx) : Nat → Nat → Word × Word → Option (List UInt8)
  | 0, _, b => some (blockOf b.swap)
  | n + 1, i, b => do
    let t ← checkedRound ctx i b.2
    checkedRounds ctx n (i + 1) (b.2, b.1 ^^^ t)

theorem checkedEncrypt_eq_rounds (ctx : Ctx) (m : List UInt8) :
    checkedEncrypt ctx m = checkedRounds ctx 16 0 (halves m) := rfl

theorem checkedRound_eq (ctx : Ctx) (i : Nat) (D : Word) : checkedRound ctx i D =
    if 0 < (ctx.Kr.getD i 0).toNat ∧ (ctx.Kr.getD i 0).toNat < 32 then some (macroRound ctx i D) else none := by
  simp only [checkedRound, macroRound, checkedF1_eq, checkedF2_eq, checkedF3_eq]
  split <;> rfl

/-- Rounds `i` to `i + n` all go through if none of their rotation counts is 0, and only then. -/
theorem checkedRounds_isSome {ctx : Ctx} (hr : ∀ r ∈ ctx.Kr, r.toNat < 32) (n i : Nat) (b : Word × Word) :
    (checkedRounds ctx n i b).isSome = true ↔ ∀ j, i ≤ j → j < i + n → 0 < (ctx.Kr.getD j 0).toNat := by
  induction n generalizing i b with
  | zero => exact ⟨fun _ j h h' => absurd h' (by omega), fun _ => rfl⟩
  | succ n ih =>
    have hi := Ctx.Kr_getD_lt hr i
    rw [checkedRounds, checkedRound_eq]
    by_cases h0 : 0 < (ctx.Kr.getD i 0).toNat
    · rw [if_pos ⟨h0, hi⟩]
      refine (ih (i + 1) _).trans ⟨fun h j hj hj' => ?_, fun h j hj hj' => h j (by omega) (by omega)⟩
      by_cases hji : j = i
      · exact hji ▸ h0
      · exact h j (by omega) (by omega)
    · rw [if_neg fun h => h0 h.1]
      exact ⟨fun h => absurd h (by simp), fun h => absurd (h i (by omega) (by omega)) h0⟩

/-- Where the rounds go through, they are those of `cast128_encrypt`. -/
theorem eq_of_checkedRounds {ctx : Ctx} {b : Word × Word} {n i : Nat} {c : List UInt8}
    (h : checkedRounds ctx n i (rounds (· ^^^ ·) (macroRound ctx) b i) = some c) :
    c = blockOf (rounds (· ^^^ ·) (macroRound ctx) b (i + n)).swap := by
  induction n generalizing i with
  | zero => exact (Option.some.inj h).symm
  | succ n ih =>
    rw [checkedRounds, checkedRound_eq] at h
    split at h
    · rw [show i + (n + 1) = i + 1 + n by omega]
      exact ih h
    · exact absurd h (by simp)

theorem checkedEncrypt_eq {ctx : Ctx} {m c : List UInt8} (h : checkedEncrypt ctx m = some c) :
    c = cast128Encrypt ctx m := by
  rw [cast128Encrypt_eq_cipher]
  exact eq_of_checkedRounds (b := halves m) (n := 16) (i := 0) h

/-- **When no shift is undefined**: `cast128_init` leaves every rotation count below 32, and encryption
shifts by less than 32 throughout exactly if none of the sixteen counts is 0. -/
theorem checkedEncrypt_isSome_iff (key m : List UInt8) :
    (checkedEncrypt (cast128Init key) m).isSome = true ↔ ∀ r ∈ (cast128Init key).Kr, r ≠ 0#32 := by
  rw [checkedEncrypt_eq_rounds, checkedRounds_isSome (cast128Init_Kr_lt key)]
  have hlen := cast128Init_Kr_length key
  have hpos : ∀ r : Word, 0 < r.toNat ↔ r ≠ 0#32 := fun r => by
    rw [Nat.pos_iff_ne_zero, Ne, Ne, ← BitVec.toNat_inj]
    rfl
  constructor
  · intro h r hr
    obtain ⟨j, hj, rfl⟩ := List.getElem_of_mem hr
    have := h j (Nat.zero_le j) (by omega)
    rwa [List.getD_eq_getElem?_getD, List.getElem?_eq_getElem hj, Option.getD_some, hpos] at this
  · intro h j _ hj
    have hj' : j < (cast128Init key).Kr.length := by omega
    rw [List.getD_eq_getElem?_getD, List.getElem?_eq_getElem hj', Option.getD_some, hpos]
    exact h _ (List.getElem_mem hj')

/-- Sixteen bytes 2 make the third rotation count 0. -/
theorem rotation_undefined : ¬ ∀ key m : List UInt8, key.length = 16 → m.length = 8 →
    (checkedEncrypt (cast128Init key) m).isSome = true := by
  intro h
  have := h (List.replicate 16 2) (List.replicate 8 0) rfl rfl
  revert this
  decide +kernel

end Keynjector.Cast128
