import Keynjector.Opgp.Ledger
/-
# What was there before (opgp.c:84-94, 148-214, 344-396, 442-490, 636-701)

The ledger starts from an empty heap. Here `mpgp_open` runs over a heap with objects, freed
ones and closed files of its own: it does the same as over the part of the heap that is not
yet given out (`fresh`), and leaves the rest as it was.

| here | there |
| --- | --- |
| `fresh`          | the allocations still to come |
| `Over`           | a heap that is another one on top of what was there |
| `…_over`         | each function does the same over both, as far up as `mpgp_open` and `mpgp_sclose` |
| `mpgpOpen_frame` | the ledger of `mpgp_open` over any heap |
-/

namespace Keynjector.Opgp

open Cast128 Readers

variable {τ : Tinfl} {fuel k : Nat}

/-- Nothing given out, nothing closed; allocations up to now count as failed. -/
def fresh (h : Heap) : Heap := ⟨fun i => decide (h.mallocs ≤ i) && h.succeeds i, h.mallocs, [], 0⟩

/-- `h` is `x` over `base`. -/
structure Over (base x h : Heap) : Prop where
  succeeds : h.succeeds = base.succeeds
  later : x.succeeds = (fresh base).succeeds
  mallocs : h.mallocs = x.mallocs
  above : base.mallocs ≤ x.mallocs
  freed : h.freed = x.freed ++ base.freed
  closed : h.closed = x.closed + base.closed

variable {base x x' h h' : Heap}

theorem over_fresh (h : Heap) : Over h (fresh h) h :=
  ⟨rfl, rfl, rfl, Nat.le_refl _, rfl, (Nat.zero_add _).symm⟩

theorem Over.free (ho : Over base x h) (id : Nat) : Over base (free id x) (free id h) :=
  ⟨ho.succeeds, ho.later, ho.mallocs, ho.above, congrArg (List.cons id) ho.freed, ho.closed⟩

/-- The next allocation succeeds over both or over neither. -/
theorem Over.next (ho : Over base x h) : x.succeeds x.mallocs = h.succeeds h.mallocs := by
  rw [ho.later, ho.succeeds, ho.mallocs, fresh]
  simp [ho.above]

theorem Over.malloc (ho : Over base x h) {r : Option Nat} (hm : malloc h = (r, h')) :
    ∃ x', malloc x = (r, x') ∧ Over base x' h' := by
  rw [Opgp.malloc] at hm ⊢
  obtain ⟨rfl, rfl⟩ := Prod.mk.inj hm
  refine ⟨{ x with mallocs := x.mallocs + 1 }, by rw [ho.next, ho.mallocs], ho.succeeds, ho.later, ?_,
    Nat.le_succ_of_le ho.above, ho.freed, ho.closed⟩
  show h.mallocs + 1 = x.mallocs + 1
  rw [ho.mallocs]

/-! ## Each function -/

section

variable {s s' inner : Chain τ k} {keys keys' : List Key} {passphrase : List UInt8} {e : Err}

/-- `read_s2k` fails before it needs memory, or adds a key. -/
theorem readS2k_cases (s : Chain τ k) :
    (∃ e s', ∀ keys h, readS2k fuel s keys h = (e, s', keys, h)) ∨
      ∃ key s', ∀ keys h, readS2k fuel s keys h = addKey key s' keys h := by
  unfold readS2k
  rcases mpgpSread fuel s 1 with ⟨_ | ⟨t, _ | _⟩, s1⟩
  · exact .inl ⟨_, _, fun _ _ => rfl⟩
  swap
  · exact .inl ⟨_, _, fun _ _ => rfl⟩
  dsimp only
  by_cases h2 : t = 2
  · exact .inl ⟨_, _, fun _ _ => if_pos h2⟩
  by_cases h3 : t ≤ 3
  swap
  · exact .inl ⟨_, _, fun _ _ => by rw [if_neg h2, if_neg h3]⟩
  simp only [if_neg h2, if_pos h3]
  rcases mpgpSread fuel s1 1 with ⟨_ | ⟨algo, _ | _⟩, s2⟩
  · exact .inl ⟨_, _, fun _ _ => rfl⟩
  swap
  · exact .inl ⟨_, _, fun _ _ => rfl⟩
  dsimp only
  by_cases ha : algo = 2
  swap
  · exact .inl ⟨_, _, fun _ _ => if_pos ha⟩
  simp only [if_neg (not_not.2 ha)]
  by_cases h0 : t > 0
  swap
  · exact .inr ⟨_, _, fun _ _ => if_neg h0⟩
  simp only [if_pos h0]
  by_cases h8 : (mpgpSread fuel s2 8).1.length = 8
  swap
  · exact .inl ⟨_, _, fun _ _ => if_pos h8⟩
  simp only [if_neg (not_not.2 h8)]
  by_cases h1 : t > 1
  swap
  · exact .inr ⟨_, _, fun _ _ => if_neg h1⟩
  simp only [if_pos h1]
  rcases mpgpSread fuel (mpgpSread fuel s2 8).2 1 with ⟨_ | ⟨c, _ | _⟩, s4⟩
  · exact .inl ⟨_, _, fun _ _ => rfl⟩
  · exact .inr ⟨_, _, fun _ _ => rfl⟩
  · exact .inl ⟨_, _, fun _ _ => rfl⟩

theorem readSkeskPacket_cases (s : Chain τ k) :
    (∃ e s', ∀ keys h, readSkeskPacket fuel s keys h = (e, s', keys, h)) ∨
      ∃ key s', ∀ keys h, readSkeskPacket fuel s keys h = addKey key s' keys h := by
  unfold readSkeskPacket
  rcases mpgpSread fuel s 1 with ⟨_ | ⟨version, _ | _⟩, s1⟩
  · exact .inl ⟨_, _, fun _ _ => rfl⟩
  swap
  · exact .inl ⟨_, _, fun _ _ => rfl⟩
  dsimp only
  by_cases hv : version = 4
  swap
  · exact .inl ⟨_, _, fun _ _ => if_pos hv⟩
  simp only [if_neg (not_not.2 hv)]
  rcases mpgpSread fuel s1 1 with ⟨_ | ⟨algo, _ | _⟩, s2⟩
  · exact .inl ⟨_, _, fun _ _ => rfl⟩
  swap
  · exact .inl ⟨_, _, fun _ _ => rfl⟩
  dsimp only
  by_cases ha : algo = 3
  · simp only [if_pos ha]
    exact readS2k_cases s2
  · exact .inl ⟨_, _, fun _ _ => if_neg ha⟩

theorem readSkeskPacket_over (ho : Over base x h) (hh : readSkeskPacket fuel s keys h = (e, s', keys', h')) :
    ∃ x', readSkeskPacket fuel s keys x = (e, s', keys', x') ∧ Over base x' h' := by
  obtain ⟨e1, s1, heq⟩ | ⟨key, s1, heq⟩ := @readSkeskPacket_cases τ fuel k s <;> rw [heq] at hh ⊢
  · cases hh
    exact ⟨x, rfl, ho⟩
  · unfold addKey at hh ⊢
    rcases hm : malloc h with ⟨r, h1⟩
    obtain ⟨x1, hm', ho1⟩ := ho.malloc hm
    rw [hm] at hh
    rw [hm']
    cases r <;> cases hh <;> exact ⟨x1, rfl, ho1⟩

theorem mpgpEncrSopen_over (ho : Over base x h) {packetLen : Nat} {r : Option EncrStream}
    (hh : mpgpEncrSopen fuel inner keys passphrase packetLen h = (r, s', keys', h')) :
    ∃ x', mpgpEncrSopen fuel inner keys passphrase packetLen x = (r, s', keys', x') ∧ Over base x' h' := by
  unfold mpgpEncrSopen checkKey at hh ⊢
  dsimp only at hh ⊢
  by_cases hpad : (mpgpSread fuel inner 10).1.length = 10
  swap
  · rw [if_pos hpad] at hh ⊢
    cases hh
    exact ⟨x, rfl, ho⟩
  rw [if_neg (not_not.2 hpad)] at hh ⊢
  rcases hm : malloc h with ⟨_ | ctxId, h1⟩ <;> obtain ⟨x1, hm', ho1⟩ := ho.malloc hm <;> rw [hm] at hh <;> rw [hm']
  · cases hh
    exact ⟨x1, rfl, ho1⟩
  rcases hfound : checkKeys heapCtx (mpgpSread fuel inner 10).1 passphrase keys with ⟨_ | ctx, ks⟩ <;>
    simp only [hfound] at hh ⊢
  · cases hh
    exact ⟨_, rfl, ho1.free ctxId⟩
  rcases hm2 : malloc h1 with ⟨_ | id, h2⟩ <;> obtain ⟨x2, hm2', ho2⟩ := ho1.malloc hm2 <;> rw [hm2] at hh <;>
    rw [hm2'] <;> cases hh
  · exact ⟨_, rfl, ho2.free ctxId⟩
  · exact ⟨x2, rfl, ho2⟩

/-- A layer that fails before it needs memory, or takes one object for its stream. -/
def TakesOne {α : Type} (sopen : Heap → Option α × Chain τ k × Heap) : Prop :=
  (∃ s', ∀ h, sopen h = (none, s', h)) ∨
    ∃ (make : Nat → α) (s' : Chain τ k), ∀ h, sopen h = match malloc h with
      | (some id, h) => (some (make id), s', h)
      | (none, h) => (none, s', h)

theorem TakesOne.over {α : Type} {sopen : Heap → Option α × Chain τ k × Heap} (ht : TakesOne sopen) (ho : Over base x h)
    {r : Option α} (hh : sopen h = (r, s', h')) : ∃ x', sopen x = (r, s', x') ∧ Over base x' h' := by
  obtain ⟨s1, heq⟩ | ⟨make, s1, heq⟩ := ht <;> rw [heq] at hh ⊢
  · cases hh
    exact ⟨x, rfl, ho⟩
  · rcases hm : malloc h with ⟨_ | id, h1⟩ <;> obtain ⟨x1, hm', ho1⟩ := ho.malloc hm <;> rw [hm] at hh <;> rw [hm'] <;>
      cases hh <;> exact ⟨x1, rfl, ho1⟩

theorem mpgpZSopen_takesOne (inner : Chain τ k) : TakesOne (mpgpZSopen fuel inner) := by
  unfold TakesOne mpgpZSopen
  rcases mpgpSread fuel inner 1 with ⟨_ | ⟨algo, _ | _⟩, s1⟩
  · exact .inl ⟨_, fun _ => rfl⟩
  swap
  · exact .inl ⟨_, fun _ => rfl⟩
  dsimp only
  by_cases ha : algo = 1 ∨ algo = 2
  · simp only [if_pos ha]
    exact .inr ⟨_, s1, fun _ => rfl⟩
  · exact .inl ⟨_, fun _ => if_neg ha⟩

theorem mpgpLitSopen_takesOne (inner : Chain τ k) (packetLen : Nat) : TakesOne (mpgpLitSopen fuel inner packetLen) := by
  unfold TakesOne mpgpLitSopen
  rcases mpgpSread fuel inner 1 with ⟨_ | ⟨type, _ | _⟩, s1⟩
  · exact .inl ⟨_, fun _ => rfl⟩
  swap
  · exact .inl ⟨_, fun _ => rfl⟩
  dsimp only
  by_cases hb : type = 0x62
  swap
  · exact .inl ⟨_, fun _ => if_pos hb⟩
  simp only [if_neg (not_not.2 hb)]
  rcases mpgpSread fuel s1 1 with ⟨_ | ⟨len, _ | _⟩, s2⟩
  · exact .inl ⟨_, fun _ => rfl⟩
  swap
  · exact .inl ⟨_, fun _ => rfl⟩
  dsimp only
  rcases skipName fuel len.toNat s2 with ⟨_ | _, s3⟩
  · exact .inl ⟨_, fun _ => rfl⟩
  dsimp only
  by_cases h4 : (mpgpSread fuel s3 4).1.length = 4
  · simp only [if_neg (not_not.2 h4)]
    exact .inr ⟨fun id => ⟨id, _⟩, _, fun _ => rfl⟩
  · exact .inl ⟨_, fun _ => if_pos h4⟩

theorem sclose_over (ho : Over base x h) (s : Chain τ k) : Over base (sclose s x) (sclose s h) := by
  induction k generalizing x h with
  | zero =>
    refine ⟨ho.succeeds, ho.later, ho.mallocs, ho.above, ho.freed, ?_⟩
    show h.closed + 1 = x.closed + 1 + base.closed
    rw [ho.closed]
    omega
  | succ k ih =>
    obtain ⟨s | s | s, inner⟩ := s
    · exact ih ((ho.free s.ctxId).free s.id) inner
    · exact ih (ho.free s.id) inner
    · exact ih (ho.free s.id) inner

theorem freeKeys_over (ho : Over base x h) (keys : List Key) : Over base (freeKeys keys x) (freeKeys keys h) := by
  induction keys generalizing x h with
  | nil => exact ho
  | cons key keys ih => exact ih (ho.free key.id)

theorem mpgpOpenR_over (ho : Over base x h) {packets : Nat} {hd : Header} {r : Option (Σ k, Chain τ k)}
    (hh : mpgpOpenR fuel packets s passphrase keys hd h = some (r, keys', h')) :
    ∃ x', mpgpOpenR fuel packets s passphrase keys hd x = some (r, keys', x') ∧ Over base x' h' := by
  induction packets generalizing k keys hd h x with
  | zero => cases hh
  | succ packets ih =>
    rcases hr : readPacketHeader fuel s hd with ⟨e, hd1, s1⟩
    unfold mpgpOpenR at hh ⊢
    cases e
    case ok =>
      by_cases h3 : hd1.tag = SKESK_TAG
      · rcases hs : readSkeskPacket fuel s1 keys h with ⟨e, s2, keys2, h2⟩
        obtain ⟨x2, hs', ho2⟩ := readSkeskPacket_over ho hs
        cases e <;> simp only [hr, if_pos h3, hs, hs'] at hh ⊢
        case ok => exact ih ho2 hh
        all_goals
          cases hh
          exact ⟨_, rfl, sclose_over ho2 s2⟩
      by_cases h8 : hd1.tag = COMPRESSED_TAG
      · rcases hs : mpgpZSopen fuel s1 h with ⟨_ | z, s2, h2⟩ <;>
          obtain ⟨x2, hs', ho2⟩ := (mpgpZSopen_takesOne s1).over ho hs <;>
          simp only [hr, if_neg h3, if_pos h8, hs, hs'] at hh ⊢
        · cases hh
          exact ⟨_, rfl, sclose_over ho2 s2⟩
        · exact ih ho2 hh
      by_cases h9 : hd1.tag = SYM_ENCR_TAG
      · rcases hs : mpgpEncrSopen fuel s1 keys passphrase hd1.length h with ⟨_ | z, s2, keys2, h2⟩ <;>
          obtain ⟨x2, hs', ho2⟩ := mpgpEncrSopen_over ho hs <;>
          simp only [hr, if_neg h3, if_neg h8, if_pos h9, hs, hs'] at hh ⊢
        · cases hh
          exact ⟨_, rfl, sclose_over ho2 s2⟩
        · exact ih ho2 hh
      by_cases h11 : hd1.tag = LITERAL_TAG
      · rcases hs : mpgpLitSopen fuel s1 hd1.length h with ⟨_ | l, s2, h2⟩ <;>
          obtain ⟨x2, hs', ho2⟩ := (mpgpLitSopen_takesOne s1 hd1.length).over ho hs <;>
          simp only [hr, if_neg h3, if_neg h8, if_neg h9, if_pos h11, hs, hs'] at hh ⊢ <;> cases hh
        · exact ⟨_, rfl, sclose_over ho2 s2⟩
        · exact ⟨_, rfl, ho2⟩
      · simp only [hr, if_neg h3, if_neg h8, if_neg h9, if_neg h11] at hh ⊢
        cases hh
        exact ⟨_, rfl, sclose_over ho s1⟩
    all_goals
      simp only [hr] at hh ⊢
      cases hh
      exact ⟨_, rfl, sclose_over ho s1⟩

theorem mpgpOpen_over (ho : Over base x h) {packets : Nat} {r : Option (Σ k, Chain τ k)}
    (hh : mpgpOpen fuel packets s passphrase h = some (r, h')) :
    ∃ x', mpgpOpen fuel packets s passphrase x = some (r, x') ∧ Over base x' h' := by
  unfold mpgpOpen at hh ⊢
  obtain ⟨⟨r1, keys, h1⟩, hopen, heq⟩ := Option.map_eq_some_iff.1 hh
  cases heq
  obtain ⟨x1, hopen', ho1⟩ := mpgpOpenR_over ho hopen
  exact ⟨_, by rw [hopen', Option.map_some], freeKeys_over ho1 keys⟩

end

/-- **The ledger over any heap.** What `mpgp_open` gives out, frees and closes is settled in the part of the heap above
what was given out before; the rest is as it was. -/
theorem mpgpOpen_frame {src : Source} {passphrase : List UInt8} {packets : Nat} {r : Option (Σ k, Chain τ k)}
    (hopen : mpgpOpen fuel packets (k := 0) src passphrase h = some (r, h')) : ∃ x', Over h x' h' ∧ Left [] x' r := by
  obtain ⟨x', hopen', ho⟩ := mpgpOpen_over (over_fresh h) hopen
  refine ⟨x', ho, mpgpOpen_left ⟨fun id => ?_, rfl⟩ hopen'⟩
  by_cases hid : h.mallocs ≤ id
  · simp [objects, fresh, Nat.not_lt.2 hid]
  · simp [objects, fresh, hid]

end Keynjector.Opgp
