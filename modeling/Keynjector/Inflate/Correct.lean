import Keynjector.Inflate.Copies
import Keynjector.Inflate.Stored
/-
# Runs of the inflater (tinfl.c:110-390)

Every step keeps the invariant at lower cost, so that a call ends, and what it returns says
how far the stream is through.
-/

namespace Keynjector.Inflate

open Deflate (Mark bits output silent emit)

variable {zl : Bool} {pad : Nat} {sum : Vector UInt8 4} {c : Call} {m : Machine} {hist : List UInt8} {r : List Mark} {pending : List UInt8}

/-- **A step goes on in the invariant, or returns as it should.** -/
theorem step_good (hok : c.Ok) (hz : c.env.parseZlibHeader = zl) (h : Sync c m hist r pending)
    (hi : Expect zl pad sum c.window m hist r pending) :
    Good (Expect zl pad sum c.window) c (cost c m r pending) (step c.env m) := by
  have hi' := hi
  cases hi with
  | zhdr0 hstate hbits hzl hgood hat =>
    rw [step, hstate]
    exact zhdr0_good hok h hi' hbits hzl hgood hat
  | zhdr1 hstate hbits hzl hcmf hgood hat =>
    rw [step, hstate]
    exact stepZhdr1_good hok h hi' hbits hcmf hgood hat
  | blockHead hstate hat =>
    rw [step, hstate]
    exact stepBlockHead_good hok h hstate hat
  | rawHead hstate hin =>
    rw [step, hstate]
    exact stepRawHead_good h hstate hin
  | rawBits hstate hin hlt hbits =>
    rw [step, hstate]
    exact rawBits_good hok h hstate hin hlt hbits
  | rawByte hstate hin hlt hbits =>
    rw [step, hstate]
    exact rawByte_good hok h hstate hin hlt hbits
  | storedBits hstate halign hcount hin =>
    rw [step, hstate]
    exact stepStoredBits_good h hstate halign hcount hin
  | storedGet hstate halign hcount hin =>
    rw [step, hstate]
    exact storedGet_good hok h hstate halign hcount hin
  | storedPut hstate halign hcount hb hin =>
    rw [step, hstate]
    exact storedPut_good hok h hstate halign hcount hb hin
  | storedBytes hstate hbits hcount hin =>
    rw [step, hstate]
    exact stepStoredBytes_good hok hz h hstate hbits hcount hin
  | storedOut hstate hbits hcount hne hin =>
    rw [step, hstate]
    exact stepStoredOut_good h hstate hbits hcount hne hin
  | storedIn hstate hbits hcount hne hin =>
    rw [step, hstate]
    exact stepStoredIn_good hok h hstate hbits hcount hne hin
  | tableSizes hstate hcount hsizes hin =>
    rw [step, hstate]
    exact stepTableSizes_good hok rfl h hstate hcount hsizes hin
  | codeSizes hstate hcount hsizes hcodes hin =>
    rw [step, hstate]
    exact stepCodeSizes_good hok h hstate hcount hsizes hcodes hin
  | buildSizes hstate hin hsizes hcodes =>
    rw [step, hstate]
    exact buildSizes_good h hstate hin hsizes hcodes
  | buildDist hstate htype hlit hdist hl hd ht =>
    rw [step, hstate]
    exact buildDist_good h hstate htype hlit hdist hl hd ht
  | buildLit hstate htype hlit hdist hl ht =>
    rw [step, hstate]
    exact buildLit_good h hstate htype hlit hdist hl ht
  | buildDone hstate htype hin =>
    rw [step, hstate]
    exact stepBuild_good h hstate htype hin
  | lenCode hstate hin =>
    rw [step, hstate]
    exact stepLenCode_good h hstate hin
  | lenFill hstate hin hlt =>
    rw [step, hstate]
    exact lenFill_good hok h hstate hin hlt
  | lenRepeat hstate hin hdist hge hextra =>
    rw [step, hstate]
    exact stepLenRepeat_good hok h hstate hin hdist hge hextra
  | symbol hstate hin =>
    rw [step, hstate]
    exact stepSymbol_good hok hz h hstate hin
  | symbolFill hstate hb hs hat hlt =>
    rw [step, hstate]
    exact symbolFill_good hok hz h hstate hb hs hat hlt
  | symbolPut hstate hin =>
    rw [step, hstate]
    exact symbolPut_good hok h hstate hin
  | lengthExtra hstate hb hextra hne hcount hex hcopy ht =>
    rw [step, hstate]
    exact stepLengthExtra_good hok h hstate hb hextra hne hcount hex hcopy ht
  | distance hstate hb hcopy ht =>
    rw [step, hstate]
    exact distance_good hok h hstate hb hcopy ht
  | distFill hstate hb hcopy ht hlt =>
    rw [step, hstate]
    exact distFill_good hok h hstate hb hcopy ht hlt
  | distExtra hstate hb hcopy hdist hextra hne ht =>
    rw [step, hstate]
    exact stepDistExtra_good hok h hstate hb hcopy hdist hextra hne ht
  | copyLoop hstate hcopy hin =>
    rw [step, hstate]
    exact stepCopyLoop_good h hstate hcopy hin
  | copyPut hstate hcopy hin =>
    rw [step, hstate]
    exact stepCopyPut_good hok h hstate hcopy hin
  | adler hstate hin =>
    rw [step, hstate]
    exact adler_good h hstate hin
  | adlerBits hstate hin hlt =>
    rw [step, hstate]
    exact stepAdlerBits_good hok h hstate hin hlt
  | adlerByte hstate hin hlt hbits =>
    rw [step, hstate]
    exact stepAdlerByte_good hok h hstate hin hlt hbits
  | done hstate hlt hout hadler =>
    rw [step, hstate]
    exact ⟨hist, r, [], h, hi', .inl ⟨rfl, hstate⟩⟩

/-- **A call returns as it should**, when the fuel covers the cost. -/
theorem run_good (hok : c.Ok) (hz : c.env.parseZlibHeader = zl) {fuel : Nat} (h : Sync c m hist r pending)
    (hi : Expect zl pad sum c.window m hist r pending) (hfuel : cost c m r pending < fuel) :
    ∃ status m' hist' r' pending', run c.env fuel m = some (status, m') ∧ Sync c m' hist' r' pending' ∧
      Expect zl pad sum c.window m' hist' r' pending' ∧ Returns c status m' r' pending' := by
  induction fuel generalizing m hist r pending with
  | zero => exact absurd hfuel (Nat.not_lt_zero _)
  | succ fuel ih =>
    have hgood := step_good hok hz h hi
    rw [run]
    cases hstep : step c.env m with
    | go m' =>
      rw [hstep] at hgood
      obtain ⟨hist', r', pending', hsync, hexpect, hcost⟩ := hgood
      exact ih hsync hexpect (by omega)
    | ret status m' =>
      rw [hstep] at hgood
      obtain ⟨hist', r', pending', hsync, hexpect, hreturns⟩ := hgood
      exact ⟨status, m', hist', r', pending', rfl, hsync, hexpect, hreturns⟩
    | fault =>
      rw [hstep] at hgood
      exact hgood.elim

end Keynjector.Inflate
