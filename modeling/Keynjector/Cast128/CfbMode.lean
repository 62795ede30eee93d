import Keynjector.Cast128.Cipher
import Keynjector.Lib.Cfb
/-
# CFB decryption in C (cast128.c:247-321)

| here | there |
| --- | --- |
| `CfbCtx`             | `cast128_cfb_ctx` (cast128.h:38) |
| `cast128CfbReinit`   | `cast128_cfb_reinit` (cast128.c:247) |
| `cast128CfbInit`     | `cast128_cfb_init` (:257) |
| `cfbHead`, `cfbBlocks`, `cfbTail` | the three parts of `cast128_cfb_decrypt` (:262): the `for`, the `while` and the `switch` |

`cast128CfbDecrypt_spec`: the three loops are the byte machine of the library, so that
calls compose (`decryptChunks_flatten`).
-/

namespace Keynjector.Cast128

open Cfb

structure CfbCtx where
  ctx : Ctx
  /-- `uint8_t fr[8]` -/
  fr : List UInt8
  /-- `uint8_t fre[8]` -/
  fre : List UInt8
  n : Nat
deriving DecidableEq, Repr

/-- `iv` may be `NULL`. -/
def cast128CfbReinit (ctx : CfbCtx) (iv : Option (List UInt8)) : CfbCtx :=
  match iv with
  | some iv => { ctx with fr := iv.take 8, n := 8 }
  | none => { ctx with fr := List.replicate 8 0, n := 8 }

def cast128CfbInit (ctx : CfbCtx) (key : List UInt8) (iv : Option (List UInt8)) : CfbCtx :=
  cast128CfbReinit { ctx with ctx := cast128Init key } iv

/-- `for ( ; ((ctx->n < 8) && len); ctx->n++, len--)`: output, context, input left. -/
def cfbHead (ctx : CfbCtx) : List UInt8 → List UInt8 × CfbCtx × List UInt8
  | [] => ([], ctx, [])
  | c :: cs =>
    if ctx.n < 8 then
      let m := c ^^^ ctx.fre.getD ctx.n 0
      let (ms, ctx, rest) := cfbHead { ctx with fr := ctx.fr.set ctx.n c, n := ctx.n + 1 } cs
      (m :: ms, ctx, rest)
    else ([], ctx, c :: cs)

/-- `while (len >= 8)` -/
def cfbBlocks (ctx : CfbCtx) (c : List UInt8) : List UInt8 × CfbCtx × List UInt8 :=
  if _h : 8 ≤ c.length then
    let ctx := { ctx with fre := cast128Encrypt ctx.ctx ctx.fr }
    let ctx := { ctx with fr := c.take 8 }
    let m := xorBlock (c.take 8) ctx.fre
    let (ms, ctx, rest) := cfbBlocks ctx (c.drop 8)
    (m ++ ms, ctx, rest)
  else ([], ctx, c)
termination_by c.length
decreasing_by
  simp only [List.length_drop]
  omega

/-- `if (len > 0)` with the `switch` that falls through. -/
def cfbTail (ctx : CfbCtx) (c : List UInt8) : List UInt8 × CfbCtx :=
  if c.length > 0 then
    let ctx := { ctx with fre := cast128Encrypt ctx.ctx ctx.fr }
    (xorBlock c ctx.fre, { ctx with fr := c ++ ctx.fr.drop c.length, n := c.length })
  else ([], ctx)

def cast128CfbDecrypt (ctx : CfbCtx) (c : List UInt8) : List UInt8 × CfbCtx :=
  let (m1, ctx, c) := cfbHead ctx c
  let (m2, ctx, c) := cfbBlocks ctx c
  let (m3, ctx) := cfbTail ctx c
  (m1 ++ m2 ++ m3, ctx)

/-! ## How much is decrypted -/

theorem xorBlock_length_le (p k : List UInt8) : (xorBlock p k).length ≤ p.length := by
  rw [xorBlock, List.length_zipWith]
  exact Nat.min_le_left _ _

theorem cfbHead_length (ctx : CfbCtx) (c : List UInt8) :
    (cfbHead ctx c).1.length + (cfbHead ctx c).2.2.length = c.length := by
  fun_induction cfbHead ctx c with
  | case1 => rfl
  | case2 ctx x c hn y ms ctx1 rest1 hrec ih =>
    rw [hrec] at ih
    simp only [List.length_cons] at ih ⊢
    omega
  | case3 => exact Nat.zero_add _

theorem cfbBlocks_length (ctx : CfbCtx) (c : List UInt8) :
    (cfbBlocks ctx c).1.length + (cfbBlocks ctx c).2.2.length ≤ c.length := by
  fun_induction cfbBlocks ctx c with
  | case1 ctx c h8 ctx1 ctx2 m ms ctx3 rest hrec ih =>
    have hm : m.length ≤ (c.take 8).length := xorBlock_length_le _ _
    rw [hrec] at ih
    simp only [List.length_append, List.length_drop, List.length_take] at ih hm ⊢
    omega
  | case2 => exact Nat.le_of_eq (Nat.zero_add _)

theorem cast128CfbDecrypt_length_le (ctx : CfbCtx) (c : List UInt8) : (cast128CfbDecrypt ctx c).1.length ≤ c.length := by
  have hhead := cfbHead_length ctx c
  have hblocks := cfbBlocks_length (cfbHead ctx c).2.1 (cfbHead ctx c).2.2
  have htail : ∀ ctx c, (cfbTail ctx c).1.length ≤ c.length := by
    intro ctx c
    unfold cfbTail
    split_ifs
    · exact xorBlock_length_le _ _
    · exact Nat.zero_le _
  have hrest := htail (cfbBlocks (cfbHead ctx c).2.1 (cfbHead ctx c).2.2).2.1
    (cfbBlocks (cfbHead ctx c).2.1 (cfbHead ctx c).2.2).2.2
  show ((cfbHead ctx c).1 ++ (cfbBlocks (cfbHead ctx c).2.1 (cfbHead ctx c).2.2).1 ++
    (cfbTail (cfbBlocks (cfbHead ctx c).2.1 (cfbHead ctx c).2.2).2.1
      (cfbBlocks (cfbHead ctx c).2.1 (cfbHead ctx c).2.2).2.2).1).length ≤ c.length
  rw [List.length_append, List.length_append]
  omega

/-! ## The byte machine -/

/-- What the machine keeps of a context. -/
def CfbCtx.state (ctx : CfbCtx) : State := ⟨ctx.fr, ctx.fre, ctx.n⟩

/-- The decryption machine of a key. -/
def decStep (ctx : Ctx) : State → UInt8 → UInt8 × State := decByte (cast128Encrypt ctx) 8

/-- A context between calls: a full register, and a key stream unless it is used up. -/
structure CfbCtx.Ok (ctx : CfbCtx) : Prop where
  fr : ctx.fr.length = 8
  fre : ctx.n < 8 → ctx.fre.length = 8
  n : ctx.n ≤ 8

theorem cast128CfbReinit_ok (ctx : CfbCtx) {iv : Option (List UInt8)} (h : ∀ v, iv = some v → v.length = 8) :
    (cast128CfbReinit ctx iv).Ok := by
  cases iv with
  | none => exact ⟨by simp [cast128CfbReinit], by simp [cast128CfbReinit], by simp [cast128CfbReinit]⟩
  | some v =>
    have hv := h v rfl
    exact ⟨by simp [cast128CfbReinit, hv], by simp [cast128CfbReinit], by simp [cast128CfbReinit]⟩

/-- `ctx` decrypts `c` to `m` and is left as `ctx'`. -/
structure Decrypts (ctx : CfbCtx) (c m : List UInt8) (ctx' : CfbCtx) : Prop where
  run : run (decStep ctx.ctx) ctx.state c = (m, ctx'.state)
  key : ctx'.ctx = ctx.ctx
  ok : ctx'.Ok

theorem Decrypts.nil {ctx : CfbCtx} (hok : ctx.Ok) : Decrypts ctx [] [] ctx := ⟨rfl, rfl, hok⟩

theorem Decrypts.append {ctx ctx1 ctx2 : CfbCtx} {c1 c2 m1 m2 : List UInt8} (h1 : Decrypts ctx c1 m1 ctx1)
    (h2 : Decrypts ctx1 c2 m2 ctx2) : Decrypts ctx (c1 ++ c2) (m1 ++ m2) ctx2 := by
  refine ⟨?_, h2.key.trans h1.key, h2.ok⟩
  have hrun := h2.run
  rw [h1.key] at hrun
  rw [run_append, h1.run]
  simp only [hrun]

/-- One byte while the key stream lasts. -/
theorem Decrypts.byte {ctx : CfbCtx} (hok : ctx.Ok) (hn : ctx.n < 8) (x : UInt8) :
    Decrypts ctx [x] [x ^^^ ctx.fre.getD ctx.n 0] { ctx with fr := ctx.fr.set ctx.n x, n := ctx.n + 1 } := by
  refine ⟨?_, rfl, by simpa using hok.fr, fun _ => hok.fre hn, hn⟩
  simp [Cfb.run, decStep, decByte, refill, CfbCtx.state, hn]

/-- At most a block, from a used-up key stream. -/
theorem Decrypts.block {ctx : CfbCtx} (hok : ctx.Ok) (h8 : ctx.n = 8) {c : List UInt8} (h0 : 0 < c.length)
    (hc : c.length ≤ 8) :
    Decrypts ctx c (xorBlock c (cast128Encrypt ctx.ctx ctx.fr)) { ctx with
      fr := c ++ ctx.fr.drop c.length, fre := cast128Encrypt ctx.ctx ctx.fr, n := c.length } := by
  refine ⟨?_, rfl, ?_, fun _ => by simp, hc⟩
  · have hstate : ctx.state = ⟨ctx.fr, ctx.fre, 8⟩ := by rw [CfbCtx.state, h8]
    rw [hstate, decStep, run_dec_fresh (by decide) _ _ _ h0,
      run_dec_partial ctx.fr _ c 0 hok.fr (by simp) (by omega)]
    simp [CfbCtx.state]
  · simp [hok.fr]
    omega

theorem cfbHead_spec {ctx ctx' : CfbCtx} {c m rest : List UInt8} (hok : ctx.Ok) (h : cfbHead ctx c = (m, ctx', rest)) :
    ∃ c1, c = c1 ++ rest ∧ Decrypts ctx c1 m ctx' ∧ (rest ≠ [] → ctx'.n = 8) := by
  fun_induction cfbHead ctx c generalizing m with
  | case1 ctx =>
    obtain ⟨rfl, rfl, rfl⟩ : [] = m ∧ ctx = ctx' ∧ [] = rest := by simpa using h
    exact ⟨[], rfl, .nil hok, by simp⟩
  | case2 ctx x c hn y ms ctx1 rest1 hrec =>
    rename_i ih
    obtain ⟨rfl, rfl, rfl⟩ : y :: ms = m ∧ ctx1 = ctx' ∧ rest1 = rest := by simpa using h
    have hbyte := Decrypts.byte hok hn x
    obtain ⟨c1, hc, hdec, hfull⟩ := ih hbyte.ok hrec
    exact ⟨x :: c1, by rw [hc]; rfl, hbyte.append hdec, hfull⟩
  | case3 ctx x c hn =>
    obtain ⟨rfl, rfl, rfl⟩ : [] = m ∧ ctx = ctx' ∧ x :: c = rest := by simpa using h
    refine ⟨[], rfl, .nil hok, fun _ => ?_⟩
    have := hok.n
    omega

theorem cfbBlocks_spec {ctx ctx' : CfbCtx} {c m rest : List UInt8} (hok : ctx.Ok) (h8 : c ≠ [] → ctx.n = 8)
    (h : cfbBlocks ctx c = (m, ctx', rest)) :
    ∃ c1, c = c1 ++ rest ∧ Decrypts ctx c1 m ctx' ∧ (rest ≠ [] → ctx'.n = 8) ∧ rest.length < 8 := by
  fun_induction cfbBlocks ctx c generalizing m with
  | case1 ctx c hlen ctx1 ctx2 y ms ctx3 rest1 hrec =>
    rename_i ih
    obtain ⟨rfl, rfl, rfl⟩ : y ++ ms = m ∧ ctx3 = ctx' ∧ rest1 = rest := by simpa using h
    have hne : c ≠ [] := by
      rintro rfl
      simp at hlen
    have htake : (c.take 8).length = 8 := by simp [hlen]
    have hblock : Decrypts ctx (c.take 8) y ctx2 := by
      have := Decrypts.block hok (h8 hne) (c := c.take 8) (by omega) (by omega)
      rw [htake, List.drop_eq_nil_of_le (by rw [hok.fr]), List.append_nil] at this
      have heq : ctx2 = { ctx with fr := c.take 8, fre := cast128Encrypt ctx.ctx ctx.fr, n := 8 } := by
        rw [CfbCtx.mk.injEq]
        exact ⟨rfl, rfl, rfl, h8 hne⟩
      rw [heq]
      exact this
    obtain ⟨c1, hc, hdec, hfull, hlt⟩ := ih hblock.ok (fun _ => h8 hne) hrec
    refine ⟨c.take 8 ++ c1, ?_, hblock.append hdec, hfull, hlt⟩
    rw [List.append_assoc, ← hc, List.take_append_drop]
  | case2 ctx c hlen =>
    obtain ⟨rfl, rfl, rfl⟩ : [] = m ∧ ctx = ctx' ∧ c = rest := by simpa using h
    exact ⟨[], rfl, .nil hok, h8, by omega⟩

theorem cfbTail_spec {ctx : CfbCtx} {c : List UInt8} (hok : ctx.Ok) (h8 : c ≠ [] → ctx.n = 8) (hlt : c.length < 8) :
    Decrypts ctx c (cfbTail ctx c).1 (cfbTail ctx c).2 := by
  unfold cfbTail
  split
  · rename_i h0
    exact .block hok (h8 (List.ne_nil_of_length_pos h0)) h0 (by omega)
  · have : c = [] := List.length_eq_zero_iff.1 (by omega)
    subst this
    exact .nil hok

/-- **The C is the byte machine**: whatever the fill, the three loops of
`cast128_cfb_decrypt` decrypt byte after byte. -/
theorem cast128CfbDecrypt_spec {ctx : CfbCtx} (hok : ctx.Ok) (c : List UInt8) :
    Decrypts ctx c (cast128CfbDecrypt ctx c).1 (cast128CfbDecrypt ctx c).2 := by
  rcases hhead : cfbHead ctx c with ⟨m1, ctx1, r1⟩
  rcases hblocks : cfbBlocks ctx1 r1 with ⟨m2, ctx2, r2⟩
  obtain ⟨c1, rfl, hd1, hn1⟩ := cfbHead_spec hok hhead
  obtain ⟨c2, rfl, hd2, hn2, hlt⟩ := cfbBlocks_spec hd1.ok hn1 hblocks
  have hd3 := cfbTail_spec hd2.ok hn2 hlt
  simp only [cast128CfbDecrypt, hhead, hblocks]
  rw [← List.append_assoc]
  exact (hd1.append hd2).append hd3

/-- From an IV, the C decrypts as the textbook does. -/
theorem cast128CfbDecrypt_fresh {ctx : CfbCtx} (hok : ctx.Ok) (h8 : ctx.n = 8) (c : List UInt8) :
    (cast128CfbDecrypt ctx c).1 = decrypt (cast128Encrypt ctx.ctx) 8 ctx.fr c := by
  have hrun := congrArg Prod.fst (cast128CfbDecrypt_spec hok c).run
  have hstate : ctx.state = ⟨ctx.fr, ctx.fre, 8⟩ := by rw [CfbCtx.state, h8]
  rw [hstate, decStep, run_dec_eq (cast128Encrypt_length ctx.ctx) (by decide) _ _ _ hok.fr] at hrun
  exact hrun.symm

/-! ## Chunks -/

/-- One call for each chunk: the outputs put together, and the context that is left. -/
def decryptChunks (ctx : CfbCtx) : List (List UInt8) → List UInt8 × CfbCtx
  | [] => ([], ctx)
  | c :: cs =>
    let (m, ctx) := cast128CfbDecrypt ctx c
    let (ms, ctx) := decryptChunks ctx cs
    (m ++ ms, ctx)

theorem decryptChunks_spec {ctx : CfbCtx} (hok : ctx.Ok) (chunks : List (List UInt8)) :
    Decrypts ctx chunks.flatten (decryptChunks ctx chunks).1 (decryptChunks ctx chunks).2 := by
  induction chunks generalizing ctx with
  | nil => exact .nil hok
  | cons c cs ih =>
    have hc := cast128CfbDecrypt_spec hok c
    exact hc.append (ih hc.ok)

/-- The split does not matter. -/
theorem decryptChunks_flatten {ctx : CfbCtx} (hok : ctx.Ok) (chunks : List (List UInt8)) :
    (decryptChunks ctx chunks).1 = (cast128CfbDecrypt ctx chunks.flatten).1 := by
  have hchunks := (decryptChunks_spec hok chunks).run
  rw [(cast128CfbDecrypt_spec hok chunks.flatten).run] at hchunks
  exact (congrArg Prod.fst hchunks).symm

/-- The IV that is used for an argument of `cast128_cfb_reinit`. -/
def ivBytes (iv : Option (List UInt8)) : List UInt8 := iv.getD (List.replicate 8 0)

/-- From an IV, the ciphertext of `p` in any pieces gives `p`. -/
theorem decryptChunks_reinit (ctx : CfbCtx) {iv : Option (List UInt8)} (hiv : ∀ v, iv = some v → v.length = 8)
    {p : List UInt8} {chunks : List (List UInt8)}
    (hc : chunks.flatten = encrypt (cast128Encrypt ctx.ctx) 8 (ivBytes iv) p) :
    (decryptChunks (cast128CfbReinit ctx iv) chunks).1 = p := by
  have hok := cast128CfbReinit_ok ctx hiv
  have hlen : (ivBytes iv).length = 8 := by
    cases iv with
    | none => rfl
    | some v => exact hiv v rfl
  have hfr : (cast128CfbReinit ctx iv).fr = ivBytes iv := by
    cases iv with
    | none => rfl
    | some v => exact List.take_of_length_le (Nat.le_of_eq (hiv v rfl))
  have hkey : (cast128CfbReinit ctx iv).ctx = ctx.ctx ∧ (cast128CfbReinit ctx iv).n = 8 := by
    cases iv <;> exact ⟨rfl, rfl⟩
  rw [decryptChunks_flatten hok, cast128CfbDecrypt_fresh hok hkey.2, hkey.1, hfr, hc]
  exact decrypt_encrypt (cast128Encrypt_length ctx.ctx) (by decide) _ _ hlen

/-- **CFB decryption in pieces.** After `cast128_cfb_init` with key and IV, whatever the
context held before, and after `cast128_cfb_reinit` with the IV of a context of that key:
the pieces of the ciphertext, of any lengths, decrypt to the plaintext. -/
theorem cast128CfbDecrypt_chunks (ctx : CfbCtx) (key p : List UInt8) (iv : Option (List UInt8))
    (hiv : ∀ v, iv = some v → v.length = 8) (chunks : List (List UInt8))
    (hc : chunks.flatten = encrypt (cast128Encrypt (cast128Init key)) 8 (ivBytes iv) p) :
    (decryptChunks (cast128CfbInit ctx key iv) chunks).1 = p ∧
      (ctx.ctx = cast128Init key → (decryptChunks (cast128CfbReinit ctx iv) chunks).1 = p) := by
  constructor
  · exact decryptChunks_reinit { ctx with ctx := cast128Init key } hiv hc
  · intro hkey
    exact decryptChunks_reinit ctx hiv (by rw [hkey]; exact hc)

/-- Nine bytes under a zero key, in pieces of three, none and six bytes. -/
theorem cast128CfbDecrypt_chunks_sample :
    let c := encrypt (cast128Encrypt (cast128Init (List.replicate 16 0))) 8 (List.replicate 8 7) [1, 2, 3, 4, 5, 6, 7, 8, 9]
    (decryptChunks (cast128CfbInit ⟨cast128Init [], [], [], 3⟩ (List.replicate 16 0) (some (List.replicate 8 7)))
      [c.take 3, [], c.drop 3]).1 = [1, 2, 3, 4, 5, 6, 7, 8, 9] :=
  (cast128CfbDecrypt_chunks ⟨cast128Init [], [], [], 3⟩ (List.replicate 16 0) [1, 2, 3, 4, 5, 6, 7, 8, 9]
    (some (List.replicate 8 7)) (by rintro v ⟨⟩; rfl) _ (by simp [ivBytes])).1

end Keynjector.Cast128
