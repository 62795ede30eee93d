import Mathlib.Data.List.Basic
/-
# Cipher feedback mode, block by block and byte by byte

`encrypt` is the textbook definition over a block function `E` of `b` bytes;
only the forward direction of `E` is used, and nothing is assumed of it but the
length of its output. `encByte` and `decByte` are the byte machines a streaming
implementation runs: the feedback register, its encryption and how many bytes
of that are used up. Decryption of an encryption is the identity from every
state, and the byte machine started on an IV is the textbook mode.
-/

namespace Cfb

/-- Xor of a block with a key stream. -/
def xorBlock (p k : List UInt8) : List UInt8 := List.zipWith (· ^^^ ·) p k

theorem xorBlock_length {p k : List UInt8} (h : p.length ≤ k.length) : (xorBlock p k).length = p.length := by
  simp [xorBlock, h]

theorem xorBlock_cancel {p k : List UInt8} (h : p.length ≤ k.length) : xorBlock (xorBlock p k) k = p := by
  apply List.ext_getElem (by simp [xorBlock, h])
  intro i h1 h2
  simp only [xorBlock, List.getElem_zipWith, UInt8.xor_assoc, UInt8.xor_self, UInt8.xor_zero]

variable (E : List UInt8 → List UInt8) (b : Nat)

/-- CFB encryption of a message. -/
def encrypt (iv : List UInt8) (p : List UInt8) : List UInt8 :=
  if _h : p = [] ∨ b = 0 then []
  else
    let c := xorBlock (p.take b) (E iv)
    c ++ encrypt c (p.drop b)
termination_by p.length
decreasing_by
  have hp : 0 < p.length := List.length_pos_iff.2 (not_or.1 _h).1
  simp only [List.length_drop]
  omega

/-- CFB decryption of a message. -/
def decrypt (iv : List UInt8) (c : List UInt8) : List UInt8 :=
  if _h : c = [] ∨ b = 0 then []
  else xorBlock (c.take b) (E iv) ++ decrypt (c.take b) (c.drop b)
termination_by c.length
decreasing_by
  have hc : 0 < c.length := List.length_pos_iff.2 (not_or.1 _h).1
  simp only [List.length_drop]
  omega

/-- Feedback register, its encryption, and the bytes of it used up. -/
structure State where
  fr : List UInt8
  fre : List UInt8
  n : Nat
deriving DecidableEq, Repr

/-- A used-up key stream is renewed. -/
def refill (s : State) : State := if s.n < b then s else { s with fre := E s.fr, n := 0 }

def encByte (s : State) (p : UInt8) : UInt8 × State :=
  let s := refill E b s
  let c := p ^^^ s.fre.getD s.n 0
  (c, { s with fr := s.fr.set s.n c, n := s.n + 1 })

def decByte (s : State) (c : UInt8) : UInt8 × State :=
  let s := refill E b s
  (c ^^^ s.fre.getD s.n 0, { s with fr := s.fr.set s.n c, n := s.n + 1 })

/-- Run a byte machine over a message. -/
def run (f : State → UInt8 → UInt8 × State) : State → List UInt8 → List UInt8 × State
  | s, [] => ([], s)
  | s, x :: xs => ((f s x).1 :: (run f (f s x).2 xs).1, (run f (f s x).2 xs).2)

variable {E b} {f : State → UInt8 → UInt8 × State}

@[simp] theorem run_nil (s : State) : run f s [] = ([], s) := rfl

@[simp] theorem run_length (s : State) (xs : List UInt8) : (run f s xs).1.length = xs.length := by
  induction xs generalizing s with
  | nil => rfl
  | cons x xs ih => simp [run, ih]

/-- A message in two pieces. -/
theorem run_append (s : State) (xs ys : List UInt8) :
    run f s (xs ++ ys) = ((run f s xs).1 ++ (run f (run f s xs).2 ys).1, (run f (run f s xs).2 ys).2) := by
  induction xs generalizing s with
  | nil => rfl
  | cons x xs ih => simp [run, ih]

/-- The output for a prefix is the prefix of the output. -/
theorem run_take (s : State) (xs : List UInt8) (k : Nat) : (run f s (xs.take k)).1 = (run f s xs).1.take k := by
  induction xs generalizing s k with
  | nil => simp
  | cons x xs ih =>
    cases k with
    | zero => rfl
    | succ k => simp [run, ih]

/-- The output for the rest is the rest of the output. -/
theorem run_drop (s : State) (xs : List UInt8) (k : Nat) :
    (run f (run f s (xs.take k)).2 (xs.drop k)).1 = (run f s xs).1.drop k := by
  induction xs generalizing s k with
  | nil => simp
  | cons x xs ih =>
    cases k with
    | zero => rfl
    | succ k => simp [run, ih]

/-- **Decryption inverts encryption**, from every state, and both end in the
same one. -/
theorem dec_enc (s : State) (p : List UInt8) :
    run (decByte E b) s (run (encByte E b) s p).1 = (p, (run (encByte E b) s p).2) := by
  induction p generalizing s with
  | nil => rfl
  | cons x p ih =>
    have hout : (decByte E b s (encByte E b s x).1).1 = x := by
      simp only [decByte, encByte, UInt8.xor_assoc, UInt8.xor_self, UInt8.xor_zero]
    have hst : (decByte E b s (encByte E b s x).1).2 = (encByte E b s x).2 := rfl
    simp only [run, hout, hst, ih]

/-! ## Inside a block -/

/-- While the key stream lasts, encryption is an xor with it. -/
theorem run_enc_partial (fr fre p : List UInt8) (k : Nat) (hfr : fr.length = b) (hfre : fre.length = b)
    (hk : k + p.length ≤ b) :
    run (encByte E b) ⟨fr, fre, k⟩ p =
      (xorBlock p (fre.drop k), ⟨fr.take k ++ xorBlock p (fre.drop k) ++ fr.drop (k + p.length), fre, k + p.length⟩) := by
  induction p generalizing fr k with
  | nil => simp [xorBlock]
  | cons x p ih =>
    have hkb : k < b := by
      simp only [List.length_cons] at hk
      omega
    have hget : fre.drop k = fre.getD k 0 :: fre.drop (k + 1) := by
      rw [List.drop_eq_getElem_cons (by omega)]
      simp [hfre, hkb]
    have hstep : encByte E b ⟨fr, fre, k⟩ x =
        (x ^^^ fre.getD k 0, ⟨fr.set k (x ^^^ fre.getD k 0), fre, k + 1⟩) := by simp [encByte, refill, hkb]
    rw [run, hstep]
    simp only
    rw [ih (fr.set k (x ^^^ fre.getD k 0)) (k + 1) (by simpa using hfr) (by simp at hk; omega), hget]
    have htake : (fr.set k (x ^^^ fre.getD k 0)).take (k + 1) = fr.take k ++ [x ^^^ fre.getD k 0] := by
      rw [List.take_add_one, List.getElem?_set_self (by omega), List.take_set_of_le (Nat.le_refl k)]
      rfl
    have hdrop : (fr.set k (x ^^^ fre.getD k 0)).drop (k + 1 + p.length) = fr.drop (k + (x :: p).length) := by
      rw [List.drop_set_of_lt (by omega), List.length_cons, Nat.add_assoc, Nat.add_comm 1]
    rw [htake, hdrop]
    simp only [xorBlock, List.zipWith_cons_cons, List.length_cons, List.append_assoc, List.cons_append, List.nil_append,
      Prod.mk.injEq, State.mk.injEq, true_and]
    omega

/-- So is decryption: it undoes the encryption of the xor. -/
theorem run_dec_partial (fr fre c : List UInt8) (k : Nat) (hfr : fr.length = b) (hfre : fre.length = b)
    (hk : k + c.length ≤ b) :
    run (decByte E b) ⟨fr, fre, k⟩ c =
      (xorBlock c (fre.drop k), ⟨fr.take k ++ c ++ fr.drop (k + c.length), fre, k + c.length⟩) := by
  have hle : c.length ≤ (fre.drop k).length := by
    rw [List.length_drop]
    omega
  have hlen : (xorBlock c (fre.drop k)).length = c.length := xorBlock_length hle
  have henc := run_enc_partial (E := E) fr fre (xorBlock c (fre.drop k)) k hfr hfre (by omega)
  have hdec := dec_enc (E := E) (b := b) ⟨fr, fre, k⟩ (xorBlock c (fre.drop k))
  rw [henc, xorBlock_cancel hle, hlen] at hdec
  exact hdec

/-- From a used-up key stream the machine starts with a new one. -/
theorem run_enc_fresh (hb : 0 < b) (fr fre p : List UInt8) (hp : 0 < p.length) :
    run (encByte E b) ⟨fr, fre, b⟩ p = run (encByte E b) ⟨fr, E fr, 0⟩ p := by
  cases p with
  | nil => simp at hp
  | cons x p => simp [run, encByte, refill, hb]

theorem run_dec_fresh (hb : 0 < b) (fr fre c : List UInt8) (hc : 0 < c.length) :
    run (decByte E b) ⟨fr, fre, b⟩ c = run (decByte E b) ⟨fr, E fr, 0⟩ c := by
  cases c with
  | nil => simp at hc
  | cons x c => simp [run, decByte, refill, hb]

/-- **The byte machine is the textbook mode.** -/
theorem run_enc_eq (hE : ∀ x, (E x).length = b) (hb : 0 < b) (iv fre p : List UInt8) (hiv : iv.length = b) :
    (run (encByte E b) ⟨iv, fre, b⟩ p).1 = encrypt E b iv p := by
  fun_induction encrypt E b iv p generalizing fre with
  | case1 iv p h =>
    rw [h.resolve_right (by omega)]
    rfl
  | case2 iv p h c ih =>
    have hlen : (p.take b).length ≤ b := List.length_take_le b p
    rw [run_enc_fresh hb iv fre p (List.length_pos_iff.2 (not_or.1 h).1)]
    conv_lhs => rw [← List.take_append_drop b p]
    rw [run_append, run_enc_partial iv (E iv) (p.take b) 0 hiv (hE iv) (by omega)]
    simp only [List.drop_zero, List.take_zero, List.nil_append, Nat.zero_add]
    congr 1
    by_cases hshort : p.length ≤ b
    · simp [List.drop_eq_nil_of_le hshort, encrypt]
    · have hfull : (p.take b).length = b := by simp; omega
      have hc : c.length = b := by rw [xorBlock_length (Nat.le_of_eq (hfull.trans (hE iv).symm)), hfull]
      rw [hfull, List.drop_eq_nil_of_le (Nat.le_of_eq hiv), List.append_nil]
      exact ih (E iv) hc

theorem run_dec_eq (hE : ∀ x, (E x).length = b) (hb : 0 < b) (iv fre c : List UInt8) (hiv : iv.length = b) :
    (run (decByte E b) ⟨iv, fre, b⟩ c).1 = decrypt E b iv c := by
  fun_induction decrypt E b iv c generalizing fre with
  | case1 iv c h =>
    rw [h.resolve_right (by omega)]
    rfl
  | case2 iv c h ih =>
    have hlen : (c.take b).length ≤ b := List.length_take_le b c
    rw [run_dec_fresh hb iv fre c (List.length_pos_iff.2 (not_or.1 h).1)]
    conv_lhs => rw [← List.take_append_drop b c]
    rw [run_append, run_dec_partial iv (E iv) (c.take b) 0 hiv (hE iv) (by omega)]
    simp only [List.drop_zero, List.take_zero, List.nil_append, Nat.zero_add]
    congr 1
    by_cases hshort : c.length ≤ b
    · simp [List.drop_eq_nil_of_le hshort, decrypt]
    · have hfull : (c.take b).length = b := by simp; omega
      rw [hfull, List.drop_eq_nil_of_le (Nat.le_of_eq hiv), List.append_nil]
      exact ih (E iv) hfull

/-- **The round trip of the mode.** -/
theorem decrypt_encrypt (hE : ∀ x, (E x).length = b) (hb : 0 < b) (iv p : List UInt8) (hiv : iv.length = b) :
    decrypt E b iv (encrypt E b iv p) = p := by
  rw [← run_dec_eq hE hb iv [] _ hiv, ← run_enc_eq hE hb iv [] p hiv, dec_enc]

theorem length_encrypt (hE : ∀ x, (E x).length = b) (hb : 0 < b) (iv p : List UInt8) (hiv : iv.length = b) :
    (encrypt E b iv p).length = p.length := by
  rw [← run_enc_eq hE hb iv [] p hiv, run_length]

theorem length_decrypt (hE : ∀ x, (E x).length = b) (hb : 0 < b) (iv c : List UInt8) (hiv : iv.length = b) :
    (decrypt E b iv c).length = c.length := by
  rw [← run_dec_eq hE hb iv [] c hiv, run_length]

end Cfb
