import Keynjector.Sha1.Process
import Keynjector.Sha1.Arm
/-
# The assembly against the C and FIPS 180

The routine keeps `c`, `d` and `e` without their last rotation: the value of
role `i` is the register rotated right by `pending i`. The stack holds sixteen
schedule words and is refreshed in place, sixteen at a time, so the window of
the C code runs ahead of the round: it is at `p`, a multiple of 16 with
`p - 16 ≤ t ≤ p`.
-/

namespace Keynjector.Sha1.Arm

open Words Straight

/-- The registers of the working variables. -/
def Reg.nth : Fin 5 → Reg
  | 0 => .r1
  | 1 => .r2
  | 2 => .r3
  | 3 => .r4
  | 4 => .r5

theorem Reg.nth_inj {i j : Fin 5} : Reg.nth i = Reg.nth j ↔ i = j := by
  revert i j
  decide

theorem Reg.nth_ne (i : Fin 5) : Reg.nth i ≠ .r0 ∧ Reg.nth i ≠ .r6 ∧ Reg.nth i ≠ .r7 ∧ Reg.nth i ≠ .r8 ∧
    Reg.nth i ≠ .ip ∧ Reg.nth i ≠ .lr := by
  revert i
  decide

/-- The rotation a working variable still lacks. -/
def pending (i : Fin 5) : Nat := if i < 2 then 0 else 2

/-! ## What a round leaves alone -/

structure Keeps (s s' : State) : Prop where
  r0 : s'.reg .r0 = s.reg .r0
  r6 : s'.reg .r6 = s.reg .r6
  stack : s'.stack = s.stack
  mem : s'.mem = s.mem
  pc : s'.pc = s.pc

theorem Keeps.refl (s : State) : Keeps s s := ⟨rfl, rfl, rfl, rfl, rfl⟩

theorem Keeps.set {s s' : State} (h : Keeps s s') {r : Reg} (h0 : r ≠ .r0) (h6 : r ≠ .r6) (x : Word) :
    Keeps s (s'.set r x) :=
  ⟨by simp [h.r0, h0.symm], by simp [h.r6, h6.symm], h.stack, h.mem, h.pc⟩

/-! ## One round -/

/-- The end all three round macros share. -/
def iterTail (a e : Reg) (w : Nat) : List Instr :=
  [.ldrSp .r8 w, .add e .r7 (e.ror 2), .add e e (a.ror 27), .add e e Reg.r6, .add e e Reg.r8]

/-- The start of the macro of round `t`, which computes the logical function into `r7`. -/
def iterHead (t : Nat) (b c d : Reg) : List Instr :=
  if t < 20 then [.eor .r7 c d, .and .r7 b (Reg.r7.ror 2), .eor .r7 .r7 (d.ror 2)]
  else if t < 40 then [.eor .r7 c d, .eor .r7 b (Reg.r7.ror 2)]
  else if t < 60 then
    [.orr .r7 b (c.ror 2), .and .r7 .r7 (d.ror 2), .and .ip b (c.ror 2), .orr .r7 .r7 Reg.ip]
  else [.eor .r7 c d, .eor .r7 b (Reg.r7.ror 2)]

theorem rotateRight_zero (x : Word) : x.rotateRight 0 = x := by simp [BitVec.rotateRight_def]

/-- What the start of a round leaves: the logical function in `r7`. -/
structure Head (s s' : State) (x : Word) : Prop where
  r7 : s'.reg .r7 = x
  nth : ∀ i, s'.reg (.nth i) = s.reg (.nth i)
  keeps : Keeps s s'

theorem iterHead_spec (t : Nat) (s : State) (b c d : Fin 5) :
    ∃ s', run (iterHead t (.nth b) (.nth c) (.nth d)) s = some s' ∧
      Head s s' (f t (s.reg (.nth b)) ((s.reg (.nth c)).rotateRight 2) ((s.reg (.nth d)).rotateRight 2)) := by
  have hk : ∀ x, Keeps s (s.set .r7 x) := (Keeps.refl s).set (by decide) (by decide)
  have hparity : ∃ s', run [.eor .r7 (.nth c) (Reg.nth d), .eor .r7 (.nth b) (Reg.r7.ror 2)] s = some s' ∧
      Head s s' (parity (s.reg (.nth b)) ((s.reg (.nth c)).rotateRight 2) ((s.reg (.nth d)).rotateRight 2)) := by
    refine ⟨_, rfl, ?_, fun i => ?_, (hk _).set (by decide) (by decide) _⟩
    · simp [Op2.eval, Reg.ror, Reg.nth_ne, rotateRight_zero, rotateRight_xor, parity, BitVec.xor_assoc]
    · simp [Reg.nth_ne]
  unfold iterHead f
  split_ifs
  · refine ⟨_, rfl, ?_, fun i => ?_, ((hk _).set (by decide) (by decide) _).set (by decide) (by decide) _⟩
    · simp [Op2.eval, Reg.ror, Reg.nth_ne, rotateRight_zero, rotateRight_xor, ← ch_select, BitVec.xor_comm]
    · simp [Reg.nth_ne]
  · exact hparity
  · refine ⟨_, rfl, ?_, fun i => ?_, (((hk _).set (by decide) (by decide) _).set (by decide) (by decide) _).set
      (by decide) (by decide) _⟩
    · simp only [Op2.eval, Reg.ror, State.reg_set, Reg.nth_ne, rotateRight_zero, ← maj_or, if_true, if_false,
        reduceCtorEq]
      simp [BitVec.and_comm, BitVec.or_comm]
    · simp [Reg.nth_ne]
  · exact hparity

/-- The end of a round adds up the new `a` in the register of `e`. -/
theorem iterTail_spec (s : State) {a e : Fin 5} (hae : a ≠ e) {w : Nat} {x : Word} (hw : w % 4 = 0)
    (hx : s.stack[w / 4]? = some x) :
    ∃ s', run (iterTail (.nth a) (.nth e) w) s = some s' ∧
      s'.reg (.nth e) =
        s.reg .r7 + (s.reg (.nth e)).rotateRight 2 + (s.reg (.nth a)).rotateRight 27 + s.reg .r6 + x ∧
      (∀ i, i ≠ e → s'.reg (.nth i) = s.reg (.nth i)) ∧ Keeps s s' := by
  obtain ⟨ne0, ne6, -⟩ := Reg.nth_ne e
  have hr8 : run (iterTail (.nth a) (.nth e) w) s = run (iterTail (.nth a) (.nth e) w).tail (s.set .r8 x) := by
    simp [iterTail, run, exec, hw, hx]
  have hk8 : Keeps s (s.set .r8 x) := (Keeps.refl s).set (by decide) (by decide) x
  refine ⟨_, hr8.trans rfl, ?_, fun i hi => ?_, (((hk8.set ne0 ne6 _).set ne0 ne6 _).set ne0 ne6 _).set ne0 ne6 _⟩
  · have h6 : Reg.r6 ≠ Reg.nth e := ne6.symm
    have h8 : Reg.r8 ≠ Reg.nth e := (Reg.nth_ne e).2.2.2.1.symm
    simp [Op2.eval, Reg.ror, Reg.nth_ne, Reg.nth_inj, rotateRight_zero, hae, h6, h8]
  · simp [Reg.nth_ne, Reg.nth_inj, hi]

theorem run_append_some {p q : List Instr} {s s' : State} (h : run p s = some s') : run (p ++ q) s = run q s' := by
  unfold run at *
  rw [Straight.run_append, h]
  rfl

/-! ## The invariant of the eighty rounds -/

/-- The macro line of round `t`. -/
def roundAt (t : Nat) : List Instr :=
  let r := fun i => Reg.nth (slot t i)
  iterHead t (r 1) (r 2) (r 3) ++ iterTail (r 0) (r 4) (4 * (t % 16))

/-- A value that keeps its register changes its role; `b` gets its rotation late. -/
theorem pending_succ {j : Fin 5} (hj : j ≠ 4) {x w : Word} {v : Work} {t : Nat}
    (hx : x.rotateRight (pending j) = v.get j) : x.rotateRight (pending (j + 1)) = (step t w v).get (j + 1) := by
  match j, hj with
  | 0, _ => exact hx
  | 1, _ =>
    refine Eq.trans ?_ (rotateRight_2 _)
    exact congrArg (BitVec.rotateRight · 2) ((rotateRight_zero _).symm.trans hx)
  | 2, _ => exact hx
  | 3, _ => exact hx
  | 4, h4 => exact absurd rfl h4

/-- Before round `t`, with the constant `κ` in `r6` and the window at `p`. `s0`
is the state on entry. -/
structure Inv (W : Nat → Word) (s0 : State) (saved : List Word) (p : Nat) (κ : Word) (t : Nat) (v : Work)
    (s : State) : Prop where
  vars : ∀ i, (s.reg (.nth (slot t i))).rotateRight (pending i) = v.get i
  const : s.reg .r6 = κ
  stack : ∃ w, s.stack = w ++ saved ∧ Window W p w
  r0 : s.reg .r0 = s0.reg .r0
  mem : s.mem = s0.mem

variable {W : Nat → Word} {s0 : State} {saved : List Word} {p t : Nat} {κ : Word} {v : Work}

/-- The word at `[sp, #4 * i]` while the window is on the stack. -/
theorem stack_word {w : List Word} {i : Nat} (h : Window W p w) (hi : i < 16) :
    (w ++ saved)[i]? = some (w.getD i 0) := by
  have hlen : i < w.length := by rw [h.1]; exact hi
  simp [List.getElem?_append_left hlen, List.getElem?_eq_getElem hlen]

theorem round_triple (h1 : t < p) (h2 : p ≤ t + 16) (h16 : 16 ≤ p) (hκ : κ = K t) :
    Triple exec (Inv W s0 saved p κ t v) (roundAt t) (Inv W s0 saved p κ (t + 1) (step t (W t) v)) := by
  intro s hs
  obtain ⟨w, hst, hwin⟩ := hs.stack
  obtain ⟨s1, hrun1, hhead⟩ := iterHead_spec t s (slot t 1) (slot t 2) (slot t 3)
  have hword : s1.stack[4 * (t % 16) / 4]? = some (W t) := by
    rw [hhead.keeps.stack, hst, Nat.mul_div_cancel_left _ (by omega), stack_word hwin (Nat.mod_lt _ (by omega)),
      hwin.get (by omega) (by omega)]
  have hne : slot t 0 ≠ slot t 4 := by
    rw [Ne, slot_inj]
    decide
  obtain ⟨s2, hrun2, hnew, hold, hkeep⟩ := iterTail_spec s1 hne (by omega) hword
  refine ⟨s2, (run_append_some hrun1).trans hrun2, fun i => ?_, ?_, ⟨w, ?_, hwin⟩, ?_, ?_⟩
  · -- role 0 is in the old register of `e`; role `j + 1` in the old register of role `j`
    obtain rfl | ⟨j, hj, rfl⟩ : i = 0 ∨ ∃ j : Fin 5, j ≠ 4 ∧ i = j + 1 := by
      revert i
      decide
    · have hb : s.reg (.nth (slot t 1)) = v.b := (rotateRight_zero _).symm.trans (hs.vars 1)
      have hc : (s.reg (.nth (slot t 2))).rotateRight 2 = v.c := hs.vars 2
      have hd : (s.reg (.nth (slot t 3))).rotateRight 2 = v.d := hs.vars 3
      have he : (s.reg (.nth (slot t 4))).rotateRight 2 = v.e := hs.vars 4
      have ha : s.reg (.nth (slot t 0)) = v.a := (rotateRight_zero _).symm.trans (hs.vars 0)
      rw [slot_succ_zero, hnew, hhead.r7, hhead.nth, hhead.nth, hhead.keeps.r6, hs.const, hκ, ha, hb, hc, hd, he,
        rotateRight_27]
      simp only [pending, show (0 : Fin 5) < 2 by decide, if_true, rotateRight_zero, Work.get, step]
      ac_rfl
    · rw [slot_succ, hold _ (by rwa [Ne, slot_inj]), hhead.nth]
      exact pending_succ hj (hs.vars j)
  · rw [hkeep.r6, hhead.keeps.r6, hs.const]
  · rw [hkeep.stack, hhead.keeps.stack, hst]
  · rw [hkeep.r0, hhead.keeps.r0, hs.r0]
  · rw [hkeep.mem, hhead.keeps.mem, hs.mem]

/-- Rounds `a` to `a + n - 1`. -/
def rounds (a n : Nat) : List Instr := (List.range' a n).flatMap roundAt

theorem rounds_triple {a n : Nat} (h1 : a + n ≤ p) (h2 : p ≤ a + 16) (h16 : 16 ≤ p)
    (hκ : ∀ t, a ≤ t → t < a + n → κ = K t) :
    Triple exec (Inv W s0 saved p κ a (steps W a v)) (rounds a n)
      (Inv W s0 saved p κ (a + n) (steps W (a + n) v)) :=
  Triple.range (I := fun t => Inv W s0 saved p κ t (steps W t v)) a n fun j hj hj' =>
    round_triple (by omega) (by omega) h16 (hκ j hj hj')

theorem loadConst_triple (i : Nat) {κ' : Word} (h : sha1C[i]? = some κ') :
    Triple exec (Inv W s0 saved p κ t v) [.ldrC .r6 (4 * i)] (Inv W s0 saved p κ' t v) := by
  intro s hs
  refine ⟨s.set .r6 κ', ?_, fun i => ?_, by simp, hs.stack, by simp [hs.r0], hs.mem⟩
  · simp [exec, h]
  · simpa [Reg.nth_ne] using hs.vars i

/-! ## Refreshing the schedule -/

/-- The `j`-th line of `update_ws`. -/
def updateAt (j : Nat) : List Instr :=
  updateW (4 * (j % 16)) (4 * ((j + 13) % 16)) (4 * ((j + 8) % 16)) (4 * ((j + 2) % 16))

theorem updateWs_eq (p : Nat) (hp : p % 16 = 0) : updateWs = (List.range' p 16).flatMap updateAt := by
  obtain ⟨q, rfl⟩ : ∃ q, p = 16 * q := ⟨p / 16, by omega⟩
  have hat : ∀ j, updateAt (16 * q + j) = updateAt j := by
    intro j
    simp only [updateAt, Nat.add_assoc, Nat.mul_add_mod]
  have hflat : updateWs = (List.range' 0 16).flatMap updateAt := by decide +kernel
  rw [hflat, ← Nat.add_zero (16 * q), ← List.map_add_range', List.flatMap_map]
  exact congrArg (List.flatMap · _) (funext fun j => (hat j).symm)

/-- The middle of `update_w`, between the loads and the store. -/
theorem updateW_mix (s : State) :
    ∃ s', run [.eor .r7 .r7 Reg.r8, .eor .ip .ip Reg.lr, .eor .r7 .r7 Reg.ip, .mov .r7 (Reg.r7.ror 31)] s = some s' ∧
      s'.reg .r7 = (s.reg .r7 ^^^ s.reg .r8 ^^^ (s.reg .ip ^^^ s.reg .lr)).rotateRight 31 ∧
      (∀ i, s'.reg (.nth i) = s.reg (.nth i)) ∧ Keeps s s' := by
  refine ⟨_, rfl, ?_, fun i => ?_, rfl, rfl, rfl, rfl, rfl⟩
  · simp [Op2.eval, Reg.ror, rotateRight_zero]
  · simp [Reg.nth_ne]

theorem updateW_spec (s : State) {i1 i2 i3 i4 : Nat} {w : List Word} (hst : s.stack = w ++ saved)
    (hlen : w.length = 16) (h1 : i1 < 16) (h2 : i2 < 16) (h3 : i3 < 16) (h4 : i4 < 16) :
    ∃ s', run (updateW (4 * i1) (4 * i2) (4 * i3) (4 * i4)) s = some s' ∧
      s'.stack = w.set i1 ((w.getD i1 0 ^^^ w.getD i2 0 ^^^ (w.getD i3 0 ^^^ w.getD i4 0)).rotateRight 31) ++ saved ∧
      (∀ i, s'.reg (.nth i) = s.reg (.nth i)) ∧ s'.reg .r0 = s.reg .r0 ∧ s'.reg .r6 = s.reg .r6 ∧ s'.mem = s.mem := by
  have hload : ∀ (s : State) (d : Reg) (i : Nat), s.stack = w ++ saved → i < 16 →
      exec (.ldrSp d (4 * i)) s = some (s.set d (w.getD i 0)) := by
    intro s d i hs hi
    have hi' : i < w.length := by omega
    simp [exec, hs, List.getElem?_append_left hi', List.getElem?_eq_getElem hi']
  have hloads : run [.ldrSp .r7 (4 * i1), .ldrSp .r8 (4 * i2), .ldrSp .ip (4 * i3), .ldrSp .lr (4 * i4)] s =
      some ((((s.set .r7 (w.getD i1 0)).set .r8 (w.getD i2 0)).set .ip (w.getD i3 0)).set .lr (w.getD i4 0)) := by
    simp only [run, run_cons, run_nil, hload s _ _ hst h1, hload (s.set _ _) _ _ hst h2,
      hload ((s.set _ _).set _ _) _ _ hst h3, hload (((s.set _ _).set _ _).set _ _) _ _ hst h4, Option.bind_some]
  obtain ⟨s5, hmix, h7, hnth, hk⟩ := updateW_mix
    ((((s.set .r7 (w.getD i1 0)).set .r8 (w.getD i2 0)).set .ip (w.getD i3 0)).set .lr (w.getD i4 0))
  have hi1 : i1 < w.length := by omega
  have hstore : run [.strSp .r7 (4 * i1)] s5 = some { s5 with stack := w.set i1 (s5.reg .r7) ++ saved } := by
    have hst5 : s5.stack = w ++ saved := hk.stack.trans hst
    simp [run, exec, hst5, List.set_append_left i1 _ hi1, Nat.lt_add_right saved.length hi1]
  refine ⟨_, (run_append_some hloads).trans ((run_append_some hmix).trans hstore), ?_, fun i => ?_, hk.r0, hk.r6, hk.mem⟩
  · simp [h7]
  · simpa [Reg.nth_ne] using hnth i

/-- A line of `update_ws` replaces the word 16 rounds back by the next one. -/
theorem update_triple (hW : Recurrence W) (h16 : 16 ≤ p) (h80 : p < 80) :
    Triple exec (Inv W s0 saved p κ t v) (updateAt p) (Inv W s0 saved (p + 1) κ t v) := by
  intro s hs
  obtain ⟨w, hst, hwin⟩ := hs.stack
  have hm : ∀ k, k % 16 < 16 := fun k => Nat.mod_lt _ (by omega)
  obtain ⟨s', hrun, hst', hnth, hr0, hr6, hmem⟩ := updateW_spec s hst hwin.1 (hm p) (hm (p + 13)) (hm (p + 8)) (hm (p + 2))
  refine ⟨s', hrun, fun i => by rw [hnth]; exact hs.vars i, hr6.trans hs.const, ?_, hr0.trans hs.r0, hmem.trans hs.mem⟩
  refine ⟨_, hst', ?_⟩
  have hnext := hwin.next hW h16 h80
  rw [show (p - 3) % 16 = (p + 13) % 16 by omega, show (p - 8) % 16 = (p + 8) % 16 by omega,
    show (p - 14) % 16 = (p + 2) % 16 by omega] at hnext
  have hx : (w.getD (p % 16) 0 ^^^ w.getD ((p + 13) % 16) 0 ^^^
      (w.getD ((p + 8) % 16) 0 ^^^ w.getD ((p + 2) % 16) 0)).rotateRight 31 = W p := by
    rw [← hnext, rotateRight_31]
    ac_rfl
  rw [hx]
  exact hwin.push h16

theorem updateWs_triple (hW : Recurrence W) (hp : p % 16 = 0) (h16 : 16 ≤ p) (h80 : p + 16 ≤ 80) :
    Triple exec (Inv W s0 saved p κ t v) updateWs (Inv W s0 saved (p + 16) κ t v) := by
  rw [updateWs_eq p hp]
  exact Triple.range (I := fun p => Inv W s0 saved p κ t v) p 16 fun j hj hj' =>
    update_triple hW (by omega) (by omega)

/-! ## The body -/

/-- Everything between the loading and the adding of the chaining value. -/
def body : List Instr :=
  rounds 0 16 ++ (updateWs ++ (rounds 16 4 ++ ([.ldrC .r6 (4 * 1)] ++ (rounds 20 12 ++ (updateWs ++ (rounds 32 8 ++
    ([.ldrC .r6 (4 * 2)] ++ (rounds 40 8 ++ (updateWs ++ (rounds 48 12 ++ ([.ldrC .r6 (4 * 3)] ++ (rounds 60 4 ++
      (updateWs ++ rounds 64 16)))))))))))))

theorem K_of_mem {a b : Nat} {κ : Word} (h : ∀ t ∈ List.range' a b, κ = K t) : ∀ t, a ≤ t → t < a + b → κ = K t :=
  fun t h1 h2 => h t (List.mem_range'_1.2 ⟨h1, h2⟩)

theorem body_triple (hW : Recurrence W) :
    Triple exec (Inv W s0 saved 16 C1 0 v) body (Inv W s0 saved 80 C4 80 (steps W 80 v)) := by
  have r {p κ} (a n : Nat) (h1 : a + n ≤ p) (h2 : p ≤ a + 16) (h16 : 16 ≤ p) (hκ : ∀ t ∈ List.range' a n, κ = K t) :
      Triple exec (Inv W s0 saved p κ a (steps W a v)) (rounds a n)
        (Inv W s0 saved p κ (a + n) (steps W (a + n) v)) := rounds_triple h1 h2 h16 (K_of_mem hκ)
  have u {t κ v} (p : Nat) (hp : p % 16 = 0) (h16 : 16 ≤ p) (h80 : p + 16 ≤ 80) :
      Triple exec (Inv W s0 saved p κ t v) updateWs (Inv W s0 saved (p + 16) κ t v) := updateWs_triple hW hp h16 h80
  refine (r 0 16 (by decide) (by decide) (by decide) (by decide)).seq ((u 16 (by decide) (by decide) (by decide)).seq ?_)
  refine (r 16 4 (by decide) (by decide) (by decide) (by decide)).seq ((loadConst_triple 1 rfl).seq ?_)
  refine (r 20 12 (by decide) (by decide) (by decide) (by decide)).seq ((u 32 (by decide) (by decide) (by decide)).seq ?_)
  refine (r 32 8 (by decide) (by decide) (by decide) (by decide)).seq ((loadConst_triple 2 rfl).seq ?_)
  refine (r 40 8 (by decide) (by decide) (by decide) (by decide)).seq ((u 48 (by decide) (by decide) (by decide)).seq ?_)
  refine (r 48 12 (by decide) (by decide) (by decide) (by decide)).seq ((loadConst_triple 3 rfl).seq ?_)
  exact (r 60 4 (by decide) (by decide) (by decide) (by decide)).seq ((u 64 (by decide) (by decide) (by decide)).seq
    (r 64 16 (by decide) (by decide) (by decide) (by decide)))

def prologue : List Instr :=
  [.push [.r4, .r5, .r6, .r7, .r8, .lr], .addImm .r1 64] ++ (copyM ++ (copyM ++
    [.ldmia .r0 [.r1, .r2, .r3, .r4, .r5], .mov .r3 (Reg.r3.ror 30), .mov .r4 (Reg.r4.ror 30),
      .mov .r5 (Reg.r5.ror 30), .ldrC .r6 0]))

def epilogue : List Instr :=
  [.ldmia .r0 [.r6, .r7, .r8, .ip, .lr], .add .r1 .r6 Reg.r1, .add .r2 .r7 Reg.r2, .add .r3 .r8 (Reg.r3.ror 2),
    .add .r4 .ip (Reg.r4.ror 2), .add .r5 .lr (Reg.r5.ror 2), .stmia .r0 [.r1, .r2, .r3, .r4, .r5], .addSp 64,
    .popPc [.r4, .r5, .r6, .r7, .r8]]

/-- The listing is the prologue, the numbered rounds and the epilogue. -/
theorem sha1ProcessAsm_eq : sha1ProcessAsm = prologue ++ (body ++ epilogue) := by decide +kernel

/-! ## Memory -/

theorem storeWord_of_ne (mem : Word → UInt8) {a b : Word} (x : Word) (h : 4 ≤ (b - a).toNat) :
    storeWord mem a x b = mem b := by
  have h0 : b ≠ a := by
    rintro rfl
    simp at h
  have hk : ∀ k : Word, k.toNat < 4 → b ≠ a + k := by
    rintro k hk rfl
    bv_omega
  simp [storeWord, h0, hk 1#32 (by decide), hk 2#32 (by decide), hk 3#32 (by decide)]

theorem loadWord_storeWord (mem : Word → UInt8) (a x : Word) : loadWord (storeWord mem a x) a = x := by
  have hk : ∀ k : Word, k ≠ 0 → a + k ≠ a := by
    intro k hk h
    exact hk (by simpa using h)
  have hkl : ∀ k l : Word, k ≠ l → a + k ≠ a + l := by
    intro k l hkl h
    exact hkl (by simpa using h)
  simp [loadWord, storeWord, hk 1#32 (by decide), hk 2#32 (by decide), hk 3#32 (by decide), hkl 2#32 1#32 (by decide),
    hkl 3#32 1#32 (by decide), hkl 3#32 2#32 (by decide), leWord_byteOf]

theorem storeRegs_frame (reg : Reg → Word) (a b : Word) (rs : List Reg) (mem : Word → UInt8)
    (h : 4 * rs.length ≤ (b - a).toNat) : storeRegs reg a rs mem b = mem b := by
  induction rs generalizing a mem with
  | nil => rfl
  | cons r rs ih =>
    simp only [List.length_cons] at h
    rw [storeRegs, ih, storeWord_of_ne _ _ (by omega)]
    bv_omega

theorem loadWord_congr {mem mem' : Word → UInt8} {a : Word} (h : ∀ k : Word, k.toNat < 4 → mem (a + k) = mem' (a + k)) :
    loadWord mem a = loadWord mem' a := by
  have h0 := h 0#32 (by decide)
  rw [BitVec.add_zero] at h0
  simp [loadWord, h0, h 1#32 (by decide), h 2#32 (by decide), h 3#32 (by decide)]

theorem loadWord_storeRegs (reg : Reg → Word) (a : Word) (rs : List Reg) (mem : Word → UInt8)
    (hlen : rs.length ≤ 16) (i : Nat) (hi : i < rs.length) :
    loadWord (storeRegs reg a rs mem) (a + BitVec.ofNat 32 (4 * i)) = reg rs[i] := by
  induction rs generalizing a mem i with
  | nil => simp at hi
  | cons r rs ih =>
    simp only [List.length_cons] at hlen hi
    cases i with
    | zero =>
      -- the later words are stored above this one
      have hframe : loadWord (storeRegs reg (a + 4) rs (storeWord mem a (reg r))) a = loadWord (storeWord mem a (reg r)) a := by
        apply loadWord_congr
        intro k hk
        apply storeRegs_frame
        bv_omega
      simpa [storeRegs, loadWord_storeWord] using hframe
    | succ i =>
      have := ih (a + 4) (storeWord mem a (reg r)) (by omega) i (by omega)
      rw [show a + BitVec.ofNat 32 (4 * (i + 1)) = a + 4 + BitVec.ofNat 32 (4 * i) by
        rw [BitVec.add_assoc, Nat.mul_succ, Nat.add_comm, BitVec.ofNat_add]; rfl]
      exact this

/-! ## Entry and exit -/

/-- The chaining value in the context at `a`. -/
def hWords (mem : Word → UInt8) (a : Word) : Work :=
  ⟨loadWord mem a, loadWord mem (a + 4), loadWord mem (a + 8), loadWord mem (a + 12), loadWord mem (a + 16)⟩

/-- The 64 bytes at `a`. -/
def blockAt (mem : Word → UInt8) (a : Word) : List UInt8 := (List.range 64).map fun i => mem (a + BitVec.ofNat 32 i)

/-- Eight words from `a`, byte-reversed. -/
def revWords (mem : Word → UInt8) (a : Word) : List Word :=
  (List.range 8).map fun i => byteRev (loadWord mem (a + BitVec.ofNat 32 (4 * i)))

theorem revWords_blockAt (mem : Word → UInt8) (a : Word) :
    revWords mem a ++ revWords mem (a + 32) = blockWords (blockAt mem a) := by
  simp [revWords, blockWords, blockAt, loadWord, byteRev_leWord, BitVec.add_assoc, List.range, List.range.loop]

theorem copyM_spec (s : State) (h : (s.reg .r1 - 32).toNat % 4 = 0) :
    ∃ s', run copyM s = some s' ∧ s'.reg .r1 = s.reg .r1 - 32 ∧ s'.reg .r0 = s.reg .r0 ∧
      s'.stack = revWords s.mem (s.reg .r1 - 32) ++ s.stack ∧ s'.mem = s.mem := by
  have hld : exec (.ldmdb .r1 [.r2, .r3, .r4, .r5, .r6, .r7, .r8, .ip]) s = some ((loadRegs s.mem (s.reg .r1 - 32)
      [.r2, .r3, .r4, .r5, .r6, .r7, .r8, .ip] s).set .r1 (s.reg .r1 - 32)) := if_pos h
  have hrun : run copyM s = run copyM.tail ((loadRegs s.mem (s.reg .r1 - 32)
      [.r2, .r3, .r4, .r5, .r6, .r7, .r8, .ip] s).set .r1 (s.reg .r1 - 32)) := by
    rw [copyM, run, run_cons, hld]
    rfl
  refine ⟨_, hrun.trans rfl, ?_, ?_, ?_, ?_⟩
  · simp
  · simp [loadRegs]
  · simp [loadRegs, revWords, BitVec.add_assoc, List.range, List.range.loop]
  · simp [loadRegs]

/-- The registers the routine must give back, as it pushes them. -/
def callerRegs (s : State) : List Word := [s.reg .r4, s.reg .r5, s.reg .r6, s.reg .r7, s.reg .r8, s.reg .lr]

theorem prologue_triple {s0 : State} (h0 : (s0.reg .r0).toNat % 4 = 0) (h1 : (s0.reg .r1).toNat % 4 = 0) :
    Triple exec (· = s0) prologue (Inv ((schedule (blockWords (blockAt s0.mem (s0.reg .r1)))).getD · 0) s0
      (callerRegs s0 ++ s0.stack) 16 C1 0 (hWords s0.mem (s0.reg .r0))) := by
  rintro s rfl
  have hpush : run [.push [.r4, .r5, .r6, .r7, .r8, .lr], .addImm .r1 64] s =
      some ({ s with stack := callerRegs s ++ s.stack }.set .r1 (s.reg .r1 + 64)) := rfl
  obtain ⟨s2, hrun2, h2r1, h2r0, h2st, h2mem⟩ := copyM_spec ({ s with stack := callerRegs s ++ s.stack }.set .r1
    (s.reg .r1 + 64)) (by simp only [State.reg_set, if_true]; bv_omega)
  simp only [State.reg_set, if_true, State.mem_set, State.stack_set, reduceCtorEq, if_false] at h2r1 h2r0 h2st h2mem
  obtain ⟨s3, hrun3, h3r1, h3r0, h3st, h3mem⟩ := copyM_spec s2 (by rw [h2r1]; bv_omega)
  have hr0 : s3.reg .r0 = s.reg .r0 := h3r0.trans h2r0
  have hmem : s3.mem = s.mem := h3mem.trans h2mem
  have hst : s3.stack = blockWords (blockAt s.mem (s.reg .r1)) ++ (callerRegs s ++ s.stack) := by
    rw [h3st, h2st, h2r1, h2mem, ← revWords_blockAt, List.append_assoc]
    rw [show s.reg .r1 + 64 - 32 - 32 = s.reg .r1 by bv_omega, show s.reg .r1 + 64 - 32 = s.reg .r1 + 32 by bv_omega]
  have hldm : exec (.ldmia .r0 [.r1, .r2, .r3, .r4, .r5]) s3 =
      some (loadRegs s3.mem (s3.reg .r0) [.r1, .r2, .r3, .r4, .r5] s3) := if_pos (by rw [hr0]; exact h0)
  have hrun4 : run [.ldmia .r0 [.r1, .r2, .r3, .r4, .r5], .mov .r3 (Reg.r3.ror 30), .mov .r4 (Reg.r4.ror 30),
      .mov .r5 (Reg.r5.ror 30), .ldrC .r6 0] s3 = run [.mov .r3 (Reg.r3.ror 30), .mov .r4 (Reg.r4.ror 30),
      .mov .r5 (Reg.r5.ror 30), .ldrC .r6 0] (loadRegs s3.mem (s3.reg .r0) [.r1, .r2, .r3, .r4, .r5] s3) := by
    rw [run, run_cons, hldm]
    rfl
  refine ⟨_, (run_append_some hpush).trans ((run_append_some hrun2).trans ((run_append_some hrun3).trans
    (hrun4.trans rfl))), fun i => ?_, ?_, ⟨_, ?_, Window.init (by simp [blockWords]) le_rfl⟩, ?_, ?_⟩
  · rw [show slot 0 i = i by revert i; decide]
    obtain rfl | rfl | rfl | rfl | rfl : i = 0 ∨ i = 1 ∨ i = 2 ∨ i = 3 ∨ i = 4 := by
      revert i
      decide
    · simp [Reg.nth, pending, loadRegs, rotateRight_zero, Work.get, hWords, hr0, hmem]
    · simp [Reg.nth, pending, loadRegs, rotateRight_zero, Work.get, hWords, hr0, hmem]
    all_goals
      simp [Reg.nth, pending, loadRegs, Op2.eval, Reg.ror, rotateRight_30_2, Work.get, hWords, hr0, hmem,
        BitVec.add_assoc]
  · simp
    rfl
  · simpa [loadRegs] using hst
  · simpa [loadRegs] using hr0
  · simpa [loadRegs] using hmem

/-- What the routine leaves: the new chaining value at `r0`, everything else in
memory untouched, the stack and `r4` to `r8` given back, and a return to `lr`. -/
structure Returns (s : State) (h : Work) (s' : State) : Prop where
  value : hWords s'.mem (s.reg .r0) = h
  frame : ∀ b, 20 ≤ (b - s.reg .r0).toNat → s'.mem b = s.mem b
  stack : s'.stack = s.stack
  saved : ∀ r ∈ [Reg.r0, .r4, .r5, .r6, .r7, .r8], s'.reg r = s.reg r
  ret : s'.pc = some (s.reg .lr)

/-- The new chaining value, component by component. -/
def addWork (h v : Work) : Work := ⟨h.a + v.a, h.b + v.b, h.c + v.c, h.d + v.d, h.e + v.e⟩

theorem slot_80 : ∀ i, slot 80 i = i := by decide

theorem sums_spec {s : State} (h0 : (s0.reg .r0).toNat % 4 = 0) (hs : Inv W s0 saved 80 C4 80 v s) :
    ∃ s', run [.ldmia .r0 [.r6, .r7, .r8, .ip, .lr], .add .r1 .r6 Reg.r1, .add .r2 .r7 Reg.r2,
        .add .r3 .r8 (Reg.r3.ror 2), .add .r4 .ip (Reg.r4.ror 2), .add .r5 .lr (Reg.r5.ror 2)] s = some s' ∧
      (∀ i, s'.reg (.nth i) = (addWork (hWords s0.mem (s0.reg .r0)) v).get i) ∧
      s'.reg .r0 = s0.reg .r0 ∧ s'.stack = s.stack ∧ s'.mem = s0.mem := by
  have hldm : exec (.ldmia .r0 [.r6, .r7, .r8, .ip, .lr]) s =
      some (loadRegs s.mem (s.reg .r0) [.r6, .r7, .r8, .ip, .lr] s) := if_pos (by rw [hs.r0]; exact h0)
  have hv : ∀ i, (s.reg (.nth i)).rotateRight (pending i) = v.get i := by
    intro i
    have := hs.vars i
    rwa [slot_80] at this
  have ha : s.reg .r1 = v.a := (rotateRight_zero _).symm.trans (hv 0)
  have hb : s.reg .r2 = v.b := (rotateRight_zero _).symm.trans (hv 1)
  have hc : (s.reg .r3).rotateRight 2 = v.c := hv 2
  have hd : (s.reg .r4).rotateRight 2 = v.d := hv 3
  have he : (s.reg .r5).rotateRight 2 = v.e := hv 4
  rw [run, run_cons, hldm]
  refine ⟨_, rfl, fun i => ?_, ?_, ?_, ?_⟩
  · match i with
    | 0 | 1 | 2 | 3 | 4 =>
      simp [loadRegs, Op2.eval, Reg.ror, Reg.nth, Work.get, addWork, rotateRight_zero, hWords, hs.r0, hs.mem, ha, hb,
        hc, hd, he, BitVec.add_assoc]
  · simp [loadRegs, hs.r0]
  · simp [loadRegs]
  · simp [loadRegs, hs.mem]

theorem return_spec (s : State) {w : List Word} (hw : w.length = 16) (hst : s.stack = w ++ (callerRegs s0 ++ s0.stack)) :
    ∃ s', run [.addSp 64, .popPc [.r4, .r5, .r6, .r7, .r8]] s = some s' ∧ s'.mem = s.mem ∧ s'.stack = s0.stack ∧
      s'.reg .r0 = s.reg .r0 ∧ (∀ r ∈ [Reg.r4, .r5, .r6, .r7, .r8], s'.reg r = s0.reg r) ∧
      s'.pc = some (s0.reg .lr) := by
  have hadd : exec (.addSp 64) s = some { s with stack := callerRegs s0 ++ s0.stack } := by
    simp [exec, hst, hw]
  rw [run, run_cons, hadd]
  refine ⟨_, rfl, rfl, rfl, rfl, ?_, rfl⟩
  simp

theorem epilogue_triple {s0 : State} (h0 : (s0.reg .r0).toNat % 4 = 0) :
    Triple exec (Inv W s0 (callerRegs s0 ++ s0.stack) 80 C4 80 v) epilogue
      (Returns s0 (addWork (hWords s0.mem (s0.reg .r0)) v)) := by
  intro s hs
  obtain ⟨w, hst, hwin⟩ := hs.stack
  obtain ⟨s1, hsum, h1, h1r0, h1st, h1mem⟩ := sums_spec h0 hs
  obtain ⟨s3, hrun3, h3mem, h3st, h3r0, h3saved, h3pc⟩ := return_spec
    { s1 with mem := storeRegs s1.reg (s1.reg .r0) [.r1, .r2, .r3, .r4, .r5] s1.mem } hwin.1 (h1st.trans hst)
  have hstm : run [.stmia .r0 [.r1, .r2, .r3, .r4, .r5], .addSp 64, .popPc [.r4, .r5, .r6, .r7, .r8]] s1 =
      run [.addSp 64, .popPc [.r4, .r5, .r6, .r7, .r8]]
        { s1 with mem := storeRegs s1.reg (s1.reg .r0) [.r1, .r2, .r3, .r4, .r5] s1.mem } := by
    have : exec (.stmia .r0 [.r1, .r2, .r3, .r4, .r5]) s1 =
      some { s1 with mem := storeRegs s1.reg (s1.reg .r0) [.r1, .r2, .r3, .r4, .r5] s1.mem } :=
      if_pos (by rw [h1r0]; exact h0)
    rw [run, run_cons, this]
    rfl
  refine ⟨s3, (run_append_some hsum).trans (hstm.trans hrun3), ?_, fun b hb => ?_, h3st, ?_, h3pc⟩
  · have hload := loadWord_storeRegs s1.reg (s1.reg .r0) [.r1, .r2, .r3, .r4, .r5] s1.mem (by decide)
    simp only at h3mem
    rw [← h3mem, h1r0] at hload
    have l0 := hload 0 (by decide)
    rw [Nat.mul_zero, BitVec.add_zero] at l0
    have hval : hWords s3.mem (s0.reg .r0) = ⟨s1.reg .r1, s1.reg .r2, s1.reg .r3, s1.reg .r4, s1.reg .r5⟩ := by
      simp only [hWords, Work.mk.injEq]
      exact ⟨l0, hload 1 (by decide), hload 2 (by decide), hload 3 (by decide), hload 4 (by decide)⟩
    rw [hval, Work.mk.injEq]
    exact ⟨h1 0, h1 1, h1 2, h1 3, h1 4⟩
  · rw [h3mem, ← h1mem]
    exact storeRegs_frame _ _ _ _ _ (by rw [h1r0]; exact hb)
  · intro r hr
    rcases List.mem_cons.1 hr with rfl | hr
    · exact h3r0.trans h1r0
    · exact h3saved r hr

/-- The assembly computes the FIPS 180 compression function. -/
theorem sha1ProcessAsm_eq_compress {s : State} (h0 : (s.reg .r0).toNat % 4 = 0) (h1 : (s.reg .r1).toNat % 4 = 0) :
    ∃ s', run sha1ProcessAsm s = some s' ∧
      Returns s (compress (hWords s.mem (s.reg .r0)) (blockAt s.mem (s.reg .r1))) s' := by
  have hW : Recurrence ((schedule (blockWords (blockAt s.mem (s.reg .r1)))).getD · 0) :=
    fun k => schedule_of_ge (by simp [blockWords])
  rw [sha1ProcessAsm_eq]
  exact (prologue_triple h0 h1).seq ((body_triple hW).seq (epilogue_triple h0)) s rfl

/-- **The assembly agrees with the C.** From a call with the context at `r0` and
a block at `r1`, both word aligned, the routine returns without a fault and
leaves in the context the `h0` … `h4` of the C `sha1_process`; both are the FIPS
180 compression function. The rest of memory, the caller's stack and `r4` to
`r8` are as before. The block may lie inside the context. -/
theorem sha1ProcessAsm_agrees (s : State) (ctx : Ctx) (m : List UInt8) (h0 : (s.reg .r0).toNat % 4 = 0)
    (h1 : (s.reg .r1).toNat % 4 = 0) (hctx : hWords s.mem (s.reg .r0) = ctx.work)
    (hm : blockAt s.mem (s.reg .r1) = m) :
    ∃ s', run sha1ProcessAsm s = some s' ∧ Returns s (sha1Process ctx m).work s' ∧
      hWords s'.mem (s.reg .r0) = compress ctx.work m ∧ sha1Process ctx m = ctx.withWork (compress ctx.work m) := by
  obtain ⟨s', hrun, hret⟩ := sha1ProcessAsm_eq_compress h0 h1
  rw [hctx, hm] at hret
  refine ⟨s', hrun, ?_, hret.value, sha1Process_eq_compress ctx m⟩
  rw [sha1Process_eq_compress]
  exact hret

/-- A block that is not word aligned faults, at the first load of it. -/
theorem sha1ProcessAsm_faults {s : State} (h1 : (s.reg .r1).toNat % 4 ≠ 0) : run sha1ProcessAsm s = none := by
  obtain ⟨rest, hlist⟩ : ∃ rest, sha1ProcessAsm = .push [.r4, .r5, .r6, .r7, .r8, .lr] :: .addImm .r1 64 ::
      .ldmdb .r1 [.r2, .r3, .r4, .r5, .r6, .r7, .r8, .ip] :: rest := ⟨_, rfl⟩
  have hload : ∀ s' : State, s'.reg .r1 = s.reg .r1 + 64#32 →
      exec (.ldmdb .r1 [.r2, .r3, .r4, .r5, .r6, .r7, .r8, .ip]) s' = none := fun s' hs' => by
    have hbase : (s.reg .r1 + 64#32 - 32#32).toNat % 4 ≠ 0 := by bv_omega
    rw [exec, hs']
    exact if_neg hbase
  rw [hlist, run, Straight.run_cons, exec, Option.bind_some, Straight.run_cons, exec, Option.bind_some,
    Straight.run_cons, hload _ (by simp), Option.bind_none]

/-- A call as `sha1_finish` makes it for the message `abc`: the block is the
buffer of the context itself. -/
def abcCall : State where
  reg r := if r = .r0 then 0x20000000#32 else if r = .r1 then 0x20000014#32 else 0
  stack := []
  mem a := ([0x01, 0x23, 0x45, 0x67, 0x89, 0xab, 0xcd, 0xef, 0xfe, 0xdc, 0xba, 0x98, 0x76, 0x54, 0x32, 0x10,
    0xf0, 0xe1, 0xd2, 0xc3, 0x61, 0x62, 0x63, 0x80] ++ List.replicate 59 0 ++ [0x18] : List UInt8).getD (a - 0x20000000#32).toNat 0
  pc := none

theorem sha1ProcessAsm_agrees_abc : ∃ s', run sha1ProcessAsm abcCall = some s' ∧
    hWords s'.mem 0x20000000#32 = ⟨0xa9993e36#32, 0x4706816a#32, 0xba3e2571#32, 0x7850c26c#32, 0x9cd0d89d#32⟩ := by
  obtain ⟨s', hrun, -, hval, -⟩ := sha1ProcessAsm_agrees abcCall ⟨0x67452301#32, 0xefcdab89#32, 0x98badcfe#32,
    0x10325476#32, 0xc3d2e1f0#32, [], 0⟩ ([0x61, 0x62, 0x63, 0x80] ++ List.replicate 59 0 ++ [0x18])
    (by decide) (by decide) (by decide +kernel) (by decide +kernel)
  refine ⟨s', hrun, hval.trans ?_⟩
  decide +kernel

end Keynjector.Sha1.Arm
