import Keynjector.Lib.Reader
import Keynjector.Opgp.Stream
/-
# What a stream serves

Any stream as a reader of the library: sources that can fail, and layers over streams that
may be compressed further below. A literal or encrypted layer is a window of the library.

| here | there |
| --- | --- |
| `reader`                        | `mpgp_sread`, `mpgp_seof`, `mpgp_serror` of a stream (stream.c) |
| `Plain.serves`                  | layers that are not compressed, over a sound medium |
| `Serves.lit`, `Serves.encr`     | `lit_sread` and `encr_sread` over a stream that serves its data |
| `encr_after`                    | how far an encrypted layer has read the stream below |
-/

namespace Keynjector.Opgp

open Cast128 Cfb Readers

variable {τ : Tinfl} (fuel : Nat) (k : Nat)

def reader : Reader (Chain τ k) UInt8 := ⟨mpgpSread fuel, seof, serror⟩

/-- The test in front of every read. -/
theorem reader_stuck : (reader (τ := τ) fuel k).Stuck := by
  intro s he n
  have hguard : seof s = true ∨ serror s = true := he
  show mpgpSread fuel s n = ([], s)
  cases k with
  | zero => simp [mpgpSread, hguard]
  | succ k =>
    obtain ⟨s | s | s, inner⟩ := s <;> simp [mpgpSread, hguard]

variable {fuel k}

/-! ## How much a read returns -/

theorem zConsume_length (s : ZStream τ) (pOut : Int) (size : Nat) :
    (zConsume s pOut size).1.length + (zConsume s pOut size).2.2 = size := by
  simp only [zConsume, List.length_map, List.length_range]
  omega

theorem zLoop_length {σ : Type} (read : σ → Nat → List UInt8 × σ) (fuel : Nat) (pOut : Int) (availIn : Nat)
    (out : List UInt8) (size : Nat) (s : ZStream τ) (inner : σ) :
    (zLoop read fuel pOut availIn out size s inner).1.length ≤ out.length + size := by
  induction fuel generalizing pOut availIn out size s inner with
  | zero => exact Nat.le_add_right _ _
  | succ fuel ih =>
    rw [zLoop_succ]
    rcases zFill read availIn s inner with ⟨availIn1, s1, inner1⟩
    dsimp only
    rcases zInflate pOut availIn1 s1 with ⟨status, availIn2, pOut2, s2⟩
    dsimp only
    have hlen := zConsume_length s2 pOut2 size
    rcases hc : zConsume s2 pOut2 size with ⟨bs, s3, left⟩
    rw [hc] at hlen
    dsimp only at hlen ⊢
    have hout : (out ++ bs).length ≤ out.length + size := by
      rw [List.length_append]
      omega
    split_ifs
    · exact hout
    · exact hout
    · exact hout
    · refine Nat.le_trans (ih _ _ _ _ _ _) ?_
      rw [List.length_append]
      omega

theorem Source.read_length (s : Source) (n : Nat) : (s.read n).1.length ≤ n := by
  unfold Source.read
  by_cases hn : n ≤ s.data.length
  · rw [if_pos hn]
    exact List.length_take_le ..
  · rw [if_neg hn]
    exact Nat.le_of_lt (Nat.lt_of_not_le hn)

theorem guard_length {σ : Type} {c : Bool} {s : σ} {r : List UInt8 × σ} {n : Nat} (h : r.1.length ≤ n) :
    (if c then ([], s) else r).1.length ≤ n := by
  cases c
  · exact h
  · exact Nat.zero_le n

theorem zSread_length {σ : Type} (read : σ → Nat → List UInt8 × σ) (fuel : Nat) (s : ZStream τ) (inner : σ) (n : Nat) :
    (zSread read fuel s inner n).1.length ≤ n := by
  unfold zSread
  by_cases h0 : n = 0
  · rw [if_pos h0]
    exact Nat.zero_le n
  rw [if_neg h0]
  dsimp only
  have hlen := zConsume_length s ((Z_OUT_BUF_SIZE : Int) - s.availOut) n
  rcases hc : zConsume s ((Z_OUT_BUF_SIZE : Int) - s.availOut) n with ⟨bs, s1, left⟩
  rw [hc] at hlen
  dsimp only at hlen ⊢
  by_cases hl : left = 0
  · rw [if_pos hl]
    dsimp only
    omega
  · rw [if_neg hl]
    have hloop := zLoop_length read fuel ((Z_OUT_BUF_SIZE : Int) - s.availOut) (s.n - s.pos) bs left s1 inner
    omega

/-- A read returns no more than it is asked for. -/
theorem mpgpSread_length (s : Chain τ k) (n : Nat) : (mpgpSread fuel s n).1.length ≤ n := by
  have hmin : ∀ len : Nat, (if n > len then len else n) ≤ n := by
    intro len
    split <;> omega
  induction k generalizing n with
  | zero => exact guard_length (Source.read_length s n)
  | succ k ih =>
    have hread : ∀ (inner : Chain τ k) n, (mpgpSread fuel inner n).1.length ≤ n := fun inner n =>
      ih inner n fun _ => by split <;> omega
    obtain ⟨s | s | s, inner⟩ := s
    · refine guard_length (Nat.le_trans ?_ (hmin s.len))
      exact Nat.le_trans (cast128CfbDecrypt_length_le s.ctx _) (hread inner _)
    · exact guard_length (zSread_length (mpgpSread fuel) fuel s inner n)
    · exact guard_length (Nat.le_trans (hread inner _) (hmin s.len))

/-! ## Without compression -/

theorem Plain.eof_of_content {s : Chain τ k} (h : Plain s) (hc : content s = []) : seof s = true := by
  induction k with
  | zero =>
    have hdata : Source.data s = [] := hc
    simp [seof, Source.eof, hdata, h.1]
  | succ k ih =>
    obtain ⟨s | s | s, inner⟩ := s
    · have hlen := congrArg List.length hc
      rw [content, run_length, List.length_nil, List.length_take] at hlen
      rw [seof, Bool.or_eq_true, beq_iff_eq]
      rcases Nat.min_eq_zero_iff.1 hlen with h0 | h0
      · exact .inl h0
      · exact .inr (ih h.2 (List.length_eq_zero_iff.1 h0))
    · exact h.elim
    · rw [seof, Bool.or_eq_true, beq_iff_eq]
      rcases List.take_eq_nil_iff.1 hc with h0 | h0
      · exact .inl h0
      · exact .inr (ih h h0)

/-- A stream without a compressed layer, over a sound medium. -/
theorem Plain.serves {s : Chain τ k} (h : Plain s) : (reader fuel k).Serves s (content s) := by
  refine Reader.Serves.coind (reader_stuck fuel k) (Q := fun s d => Plain s ∧ content s = d)
    (fun s _ hq => hq.1.no_error) ?_ ⟨h, rfl⟩
  rintro s _ ⟨hp, rfl⟩ n
  obtain ⟨hb, hr, hp'⟩ := mpgpSread_spec fuel hp n
  refine ⟨hb, ⟨hp', hr⟩, fun hlt => ?_⟩
  exact hp'.eof_of_content (hr.trans (List.drop_eq_nil_of_le (Nat.le_of_lt hlt)))

/-! ## Literal packets -/

/-- A literal packet passes the bytes on as they are. -/
def litCode (_ : Unit) (c : List UInt8) : List UInt8 × Unit := (c, ())

theorem litCode_decoder : Reader.Decoder litCode fun _ => True :=
  ⟨fun _ _ => rfl, fun _ _ _ _ => rfl, fun _ _ _ _ => rfl, fun _ _ _ => rfl, fun _ _ _ => trivial⟩

theorem lit_hom (id : Nat) : Reader.Hom (Reader.window litCode (reader fuel k)) (reader (τ := τ) fuel (k + 1))
    fun t => (.lit ⟨id, t.1⟩, t.2.2) := by
  refine ⟨?_, fun _ => rfl, fun _ => rfl⟩
  rintro ⟨len, m, inner⟩ n
  have hmin : (if n > len then len else n) = min n len := by
    split <;> omega
  by_cases h : len = 0 ∨ seof inner = true ∨ serror inner = true
  · have hguard : (seof (k := k + 1) (.lit ⟨id, len⟩, inner) ||
        serror (k := k + 1) (.lit ⟨id, len⟩, inner)) = true := by
      simpa [seof, serror, or_assoc] using h
    simp only [reader, Reader.window, mpgpSread, hguard, h, if_true]
  · have hguard : (seof (k := k + 1) (.lit ⟨id, len⟩, inner) ||
        serror (k := k + 1) (.lit ⟨id, len⟩, inner)) = false := by
      simpa [seof, serror, not_or, and_assoc] using h
    simp only [reader, Reader.window, mpgpSread, hguard, h, if_false, litSread, hmin, Bool.false_eq_true]
    rfl

/-- A literal packet returns its bytes and ends with them, whatever follows it. -/
theorem Serves.lit {s : LitStream} {inner : Chain τ k} {d : List UInt8} (h : (reader fuel k).Serves inner d) :
    (reader fuel (k + 1)).Serves (.lit s, inner) (d.take s.len) :=
  (lit_hom s.id).serves (Reader.Serves.window litCode_decoder (reader_stuck fuel k) (m := ()) trivial h)

/-! ## Encrypted packets -/

theorem cfb_decoder : Reader.Decoder cast128CfbDecrypt CfbCtx.Ok := by
  have hrun : ∀ ctx, CfbCtx.Ok ctx → ∀ c, (cast128CfbDecrypt ctx c).1 = (run (decStep ctx.ctx) ctx.state c).1 :=
    fun ctx hok c => (congrArg Prod.fst (cast128CfbDecrypt_spec hok c).run).symm
  refine ⟨?_, ?_, ?_, ?_, fun ctx hok c => (cast128CfbDecrypt_spec hok c).ok⟩
  · intro ctx hok
    rw [hrun ctx hok, run_nil]
  · intro ctx hok c n
    rw [hrun ctx hok, hrun ctx hok, run_take]
  · intro ctx hok c n
    have htake := cast128CfbDecrypt_spec hok (c.take n)
    have hstate := congrArg Prod.snd htake.run
    rw [hrun _ htake.ok, htake.key, hrun ctx hok, ← run_drop, hstate]
  · intro ctx hok c
    rw [hrun ctx hok, run_length]

theorem encr_hom (id ctxId : Nat) :
    Reader.Hom (Reader.window cast128CfbDecrypt (reader fuel k)) (reader (τ := τ) fuel (k + 1))
      fun t => (.encr ⟨id, ctxId, t.2.1, t.1⟩, t.2.2) := by
  refine ⟨?_, fun _ => rfl, fun _ => rfl⟩
  rintro ⟨len, ctx, inner⟩ n
  have hmin : (if n > len then len else n) = min n len := by
    split <;> omega
  by_cases h : len = 0 ∨ seof inner = true ∨ serror inner = true
  · have hguard : (seof (k := k + 1) (.encr ⟨id, ctxId, ctx, len⟩, inner) ||
        serror (k := k + 1) (.encr ⟨id, ctxId, ctx, len⟩, inner)) = true := by
      simpa [seof, serror, or_assoc] using h
    simp only [reader, Reader.window, mpgpSread, hguard, h, if_true]
  · have hguard : (seof (k := k + 1) (.encr ⟨id, ctxId, ctx, len⟩, inner) ||
        serror (k := k + 1) (.encr ⟨id, ctxId, ctx, len⟩, inner)) = false := by
      simpa [seof, serror, not_or, and_assoc] using h
    simp only [reader, Reader.window, mpgpSread, hguard, h, if_false, encrSread, hmin, Bool.false_eq_true]

/-- Decryption with the context of the stream. -/
theorem Serves.encr {s : EncrStream} {inner : Chain τ k} {d : List UInt8} (hok : s.ctx.Ok)
    (h : (reader fuel k).Serves inner d) :
    (reader fuel (k + 1)).Serves (.encr s, inner) (cast128CfbDecrypt s.ctx (d.take s.len)).1 :=
  (encr_hom s.id s.ctxId).serves (Reader.Serves.window cfb_decoder (reader_stuck fuel k) hok h)

/-- Reads of an encrypted layer go no further below than its length. -/
theorem encr_after {s : EncrStream} {inner : Chain τ k} {d : List UInt8} (h : (reader fuel k).Serves inner d)
    (ns : List Nat) : ∃ s' inner', (reader fuel (k + 1)).after (.encr s, inner) ns = (.encr s', inner') ∧
      (reader fuel k).Serves inner' (d.drop (min ns.sum s.len)) := by
  have hafter : (reader fuel (k + 1)).after (.encr s, inner) ns = _ :=
    (encr_hom s.id s.ctxId).after (s.len, s.ctx, inner) ns
  exact ⟨_, _, hafter, Reader.window_after (reader_stuck fuel k) h ns⟩

/-- Short of its length, an encrypted layer shows the end of the stream below. -/
theorem encr_eof {s : EncrStream} {inner : Chain τ k} {ns : List Nat} (hlt : ns.sum < s.len) :
    seof ((reader fuel (k + 1)).after (.encr s, inner) ns) = seof ((reader fuel k).after inner ns) := by
  have hafter : (reader fuel (k + 1)).after (.encr s, inner) ns = _ :=
    (encr_hom s.id s.ctxId).after (s.len, s.ctx, inner) ns
  rw [hafter]
  have heof : (Reader.window cast128CfbDecrypt (reader fuel k)).eof
      ((Reader.window cast128CfbDecrypt (reader fuel k)).after (s.len, s.ctx, inner) ns) =
        seof ((reader fuel k).after inner ns) := Reader.window_eof (reader_stuck fuel k) hlt
  exact heof

end Keynjector.Opgp
