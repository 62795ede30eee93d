import Keynjector.Opgp.Framing
/-
# Who frees what (opgp.c:84-94, 148-214, 344-396, 442-490, 636-701)

A ledger of the allocations of `mpgp_open` and of the closes of its source. The stream that
is being read owns its own objects and those of every stream below it; the key chain owns
its records. Each function hands its objects on or frees them, on every path and whatever
allocation fails, so that in the end each was freed once (`mpgpOpen_ledger`). A turn of the
loop that does not end it leaves one object more alive, and takes a byte from the source
unless there is a compressed packet.

| here | there |
| --- | --- |
| `objects`          | the structs a stack of streams is made of, with the cipher contexts |
| `Balanced`         | each object that was allocated is still owned, or was freed once |
| `Owns`             | the state of the loop of `mpgp_open_r`: stream and keys own the rest, the source is open |
| `Settled`          | everything freed, the source closed once |
| `GoesOn`           | the loop after some turns, with an object for each of them |

So `mpgp_open` returns, or holds more and more memory: a message that decompresses to
itself ends with the first allocation that fails.
-/

namespace Keynjector.Opgp

open Cast128 Readers

variable {τ : Tinfl} {fuel k : Nat}

/-! ## The books -/

/-- The objects of a stream and of the streams below it. -/
def objects : {k : Nat} → Chain τ k → List Nat
  | 0, _ => []
  | _ + 1, (.encr s, inner) => s.id :: s.ctxId :: objects inner
  | _ + 1, (.z s, inner) => s.id :: objects inner
  | _ + 1, (.lit s, inner) => s.id :: objects inner

/-- Objects are freed or live, once, if their allocation succeeded. -/
def Balanced (h : Heap) (live : List Nat) : Prop :=
  ∀ id, h.freed.count id + live.count id = if id < h.mallocs ∧ h.succeeds id = true then 1 else 0

structure Owns (s : Chain τ k) (keys : List Key) (h : Heap) : Prop where
  balanced : Balanced h (keys.map Key.id ++ objects s)
  opened : h.closed = 0

/-- Nothing is live, and the source was closed once. -/
structure Settled (h : Heap) : Prop where
  freed : Balanced h []
  closed : h.closed = 1

/-- An allocation has succeeded, and nothing was freed. -/
structure Grew (h h' : Heap) : Prop where
  succeeds : h'.succeeds = h.succeeds
  freed : h'.freed = h.freed
  grew : ∃ id, h.mallocs ≤ id ∧ id < h'.mallocs ∧ h.succeeds id = true

variable {h h' h1 : Heap} {live live' : List Nat}

theorem Balanced.of_count (hb : Balanced h live) (hc : ∀ id, live'.count id = live.count id) : Balanced h live' := by
  intro id
  rw [hc]
  exact hb id

theorem Balanced.free {id : Nat} (hb : Balanced h (id :: live)) : Balanced (free id h) live := by
  intro i
  have := hb i
  rw [List.count_cons] at this
  show List.count i (id :: h.freed) + List.count i live = if i < h.mallocs ∧ h.succeeds i = true then 1 else 0
  rw [List.count_cons]
  omega

theorem Balanced.malloc_some {id : Nat} (hb : Balanced h live) (hm : malloc h = (some id, h')) :
    Balanced h' (id :: live) ∧ Grew h h' ∧ h'.closed = h.closed := by
  by_cases hs : h.succeeds h.mallocs = true
  swap
  · rw [malloc, if_neg hs] at hm
    cases hm
  rw [malloc, if_pos hs] at hm
  cases hm
  refine ⟨fun i => ?_, ⟨rfl, rfl, _, Nat.le_refl _, Nat.lt_succ_self _, hs⟩, rfl⟩
  have := hb i
  show List.count i h.freed + List.count i (h.mallocs :: live) =
    if i < h.mallocs + 1 ∧ h.succeeds i = true then 1 else 0
  rw [List.count_cons]
  by_cases hi : h.mallocs = i
  · subst hi
    simp only [hs, Nat.lt_irrefl, Nat.lt_succ_self, and_true, if_true, if_false, beq_self_eq_true] at this ⊢
    omega
  · have hlt : i < h.mallocs + 1 ↔ i < h.mallocs := by omega
    simpa [hi, hlt] using this

theorem Balanced.malloc_none (hb : Balanced h live) (hm : malloc h = (none, h')) :
    Balanced h' live ∧ h'.closed = h.closed := by
  by_cases hs : h.succeeds h.mallocs = true
  · rw [malloc, if_pos hs] at hm
    cases hm
  rw [malloc, if_neg hs] at hm
  cases hm
  refine ⟨fun i => ?_, rfl⟩
  have := hb i
  show List.count i h.freed + List.count i live = if i < h.mallocs + 1 ∧ h.succeeds i = true then 1 else 0
  by_cases hi : h.mallocs = i
  · subst hi
    simpa [hs] using this
  · have hlt : i < h.mallocs + 1 ↔ i < h.mallocs := by omega
    simpa [hlt] using this

/-- One more object is live. -/
theorem Grew.lives (hg : Grew h h') (hb : Balanced h live) (hb' : Balanced h' live') : live.length < live'.length := by
  obtain ⟨hs, hf, id, hle, hlt, hid⟩ := hg
  have hsub : (id :: live).Subperm live' := by
    rw [List.subperm_iff_count]
    intro i
    have hi := hb i
    have hi' := hb' i
    rw [hs, hf] at hi'
    rw [List.count_cons]
    by_cases heq : id = i
    · subst heq
      simp only [hid, and_true, if_neg (Nat.not_lt.2 hle), if_pos hlt, beq_self_eq_true, if_true] at hi hi' ⊢
      omega
    · have hmono : (i < h.mallocs ∧ h.succeeds i = true) → i < h'.mallocs ∧ h.succeeds i = true :=
        fun ⟨hlt', hsi⟩ => ⟨by omega, hsi⟩
      rw [if_neg (by simpa using heq)]
      split_ifs at hi hi' <;> first | omega | exact absurd (hmono ‹_›) ‹_›
  exact hsub.length_le

/-- Live objects are as many at most as there are allocations that can succeed. -/
theorem Balanced.live_le {N : Nat} (hb : Balanced h live) (hN : ∀ n, N ≤ n → h.succeeds n = false) :
    live.length ≤ N := by
  have hsub : live.Subperm (List.range N) := by
    rw [List.subperm_iff_count]
    intro i
    have hi := hb i
    by_cases hlt : i < N
    · rw [List.count_eq_one_of_mem List.nodup_range (List.mem_range.2 hlt)]
      split_ifs at hi <;> omega
    · rw [hN i (Nat.le_of_not_lt hlt)] at hi
      simp only [Bool.false_eq_true, and_false, if_false] at hi
      omega
  exact hsub.length_le.trans_eq List.length_range

/-! ## Reads -/

section

variable {σ : Type} {read : σ → Nat → List UInt8 × σ} {P : σ → Prop}

theorem zFill_keeps (hread : ∀ s n, P s → P (read s n).2) (availIn : Nat) (s : ZStream τ) {inner : σ} (h : P inner) :
    (zFill read availIn s inner).2.1.id = s.id ∧ P (zFill read availIn s inner).2.2 := by
  unfold zFill
  split_ifs
  · exact ⟨rfl, hread _ _ h⟩
  · exact ⟨rfl, h⟩

theorem zWrap_id (pOut : Int) (s : ZStream τ) : (zWrap pOut s).2.id = s.id := by
  unfold zWrap
  split_ifs <;> rfl

/-- Reading from a compressed stream changes the stream below by reads only. -/
theorem zLoop_keeps (hread : ∀ s n, P s → P (read s n).2) (fuel : Nat) (pOut : Int) (availIn : Nat) (out : List UInt8)
    (size : Nat) (s : ZStream τ) {inner : σ} (h : P inner) :
    (zLoop read fuel pOut availIn out size s inner).2.1.id = s.id ∧
      P (zLoop read fuel pOut availIn out size s inner).2.2 := by
  induction fuel generalizing pOut availIn out size s inner with
  | zero => exact ⟨rfl, h⟩
  | succ fuel ih =>
    obtain ⟨hid, hp⟩ := zFill_keeps hread availIn s h
    rw [zLoop_succ]
    generalize zFill read availIn s inner = r1 at hid hp ⊢
    obtain ⟨availIn1, s1, inner1⟩ := r1
    dsimp only at hid hp ⊢
    have hid2 : (zInflate pOut availIn1 s1).2.2.2.id = s.id := hid
    generalize zInflate pOut availIn1 s1 = r2 at hid2 ⊢
    obtain ⟨status, availIn2, pOut2, s2⟩ := r2
    dsimp only at hid2 ⊢
    have hwrap := zWrap_id pOut2 (zConsume s2 pOut2 size).2.1
    split_ifs
    · exact ⟨hid2, hp⟩
    · exact ⟨hwrap.trans hid2, hp⟩
    · exact ⟨hwrap.trans hid2, hp⟩
    · obtain ⟨hrid, hrp⟩ := ih _ _ _ _ _ hp
      exact ⟨hrid.trans (hwrap.trans hid2), hrp⟩

end

/-- Whether a layer is compressed. -/
def compressed : {k : Nat} → Chain τ k → Bool
  | 0, _ => false
  | _ + 1, (.encr _, inner) => compressed inner
  | _ + 1, (.z _, _) => true
  | _ + 1, (.lit _, inner) => compressed inner

/-- What the source still holds. -/
def unread : {k : Nat} → Chain τ k → Nat
  | 0, s => s.data.length
  | _ + 1, (_, inner) => unread inner

/-- What reads of at least `n` bytes leave of a stream: its objects and, if no layer is compressed, a source with as
many bytes less. -/
structure Drawn (s : Chain τ k) (n : Nat) (s' : Chain τ k) : Prop where
  same : objects s' = objects s
  layers : compressed s' = compressed s
  taken : compressed s = false → n + unread s' ≤ unread s

theorem Drawn.refl (s : Chain τ k) : Drawn s 0 s := ⟨rfl, rfl, fun _ => Nat.le_of_eq (Nat.zero_add _)⟩

theorem Drawn.trans {s s' s2 : Chain τ k} {n m : Nat} (h : Drawn s n s') (h' : Drawn s' m s2) : Drawn s n s2 := by
  refine ⟨h'.same.trans h.same, h'.layers.trans h.layers, fun hc => ?_⟩
  have := h.taken hc
  have := h'.taken (h.layers.trans hc)
  omega

theorem Drawn.le {s s' : Chain τ k} {n m : Nat} (h : Drawn s n s') (hle : m ≤ n) : Drawn s m s' :=
  ⟨h.same, h.layers, fun hc => Nat.le_trans (Nat.add_le_add_right hle _) (h.taken hc)⟩

theorem Source.read_drawn (s : Source) (n : Nat) :
    (s.read n).1.length + (s.read n).2.data.length ≤ s.data.length := by
  unfold Source.read
  split_ifs
  · simp only [List.length_take, List.length_drop]
    omega
  · exact Nat.le_refl _

theorem zSread_keeps {σ : Type} {read : σ → Nat → List UInt8 × σ} {P : σ → Prop} (hread : ∀ s n, P s → P (read s n).2)
    (fuel : Nat) (s : ZStream τ) {inner : σ} (h : P inner) (size : Nat) :
    (zSread read fuel s inner size).2.1.id = s.id ∧ P (zSread read fuel s inner size).2.2 := by
  simp only [zSread]
  split_ifs
  · exact ⟨rfl, h⟩
  · exact ⟨rfl, h⟩
  · exact zLoop_keeps hread fuel _ _ _ _ _ h

/-- The test in front of every read. -/
theorem Drawn.guard {c : Bool} {s : Chain τ k} {r : List UInt8 × Chain τ k} (h : Drawn s r.1.length r.2) :
    Drawn s (if c then ([], s) else r).1.length (if c then ([], s) else r).2 := by
  cases c
  · exact h
  · exact .refl s

theorem mpgpSread_drawn (s : Chain τ k) (n : Nat) : Drawn s (mpgpSread fuel s n).1.length (mpgpSread fuel s n).2 := by
  induction k generalizing n with
  | zero => exact .guard ⟨rfl, rfl, fun _ => Source.read_drawn s n⟩
  | succ k ih =>
    obtain ⟨s | s | s, inner⟩ := s
    · obtain ⟨hsame, hlayers, htaken⟩ := ih inner (if n > s.len then s.len else n)
      refine .guard ⟨by simp only [objects, encrSread, hsame], hlayers, fun hc => ?_⟩
      exact Nat.le_trans (Nat.add_le_add_right (cast128CfbDecrypt_length_le s.ctx _) _) (htaken hc)
    · obtain ⟨hid, hobj⟩ := zSread_keeps (P := fun c => objects c = objects inner)
        (fun c n hc => (ih c n).same.trans hc) fuel s rfl n
      exact .guard ⟨by simp only [objects, hid, hobj], rfl, fun hc => Bool.noConfusion hc⟩
    · obtain ⟨hsame, hlayers, htaken⟩ := ih inner (if n > s.len then s.len else n)
      exact .guard ⟨by simp only [objects, litSread, hsame], hlayers, htaken⟩

/-- A read changes no object. -/
theorem objects_read (s : Chain τ k) (n : Nat) : objects (mpgpSread fuel s n).2 = objects s := (mpgpSread_drawn s n).same

theorem drawn_of_read {s s' : Chain τ k} {n : Nat} {bs : List UInt8} (hr : mpgpSread fuel s n = (bs, s')) :
    Drawn s bs.length s' := by
  have hread : Drawn s (mpgpSread fuel s n).1.length (mpgpSread fuel s n).2 := mpgpSread_drawn s n
  rwa [hr] at hread

theorem Drawn.read {s s' s2 : Chain τ k} {m n : Nat} {bs : List UInt8} (h : Drawn s m s')
    (hr : mpgpSread fuel s' n = (bs, s2)) : Drawn s m s2 :=
  h.trans (drawn_of_read hr)

/-- A header is a byte at least. -/
theorem readPacketHeader_drawn (s : Chain τ k) (hd : Header) :
    Drawn s (if (readPacketHeader fuel s hd).1 = .ok then 1 else 0) (readPacketHeader fuel s hd).2.2 := by
  have hfirst : ∀ (s' : Chain τ k) b, mpgpSread fuel s 1 = ([b], s') → Drawn s 1 s' := fun _ _ hr => drawn_of_read hr
  have hnone : ∀ (s' : Chain τ k) bs, mpgpSread fuel s 1 = (bs, s') → Drawn s 0 s' := fun _ _ hr => (Drawn.refl s).read hr
  have hmore : ∀ (s' s2 : Chain τ k) n bs, Drawn s 1 s' → mpgpSread fuel s' n = (bs, s2) → Drawn s 1 s2 :=
    fun _ _ _ _ h hr => h.read hr
  have hle : ∀ s' : Chain τ k, Drawn s 1 s' → Drawn s 0 s' := fun _ h => h.le (Nat.zero_le 1)
  unfold readPacketHeader
  grind

theorem objects_after (s : Chain τ k) (ns : List Nat) : objects ((reader fuel k).after s ns) = objects s := by
  induction ns generalizing s with
  | nil => rfl
  | cons n ns ih => exact (ih _).trans (objects_read s n)

theorem Owns.drawn {s s' : Chain τ k} {keys : List Key} {n : Nat} (ho : Owns s keys h) (hd : Drawn s n s') :
    Owns s' keys h := by
  obtain ⟨hb, hc⟩ := ho
  rw [← hd.same] at hb
  exact ⟨hb, hc⟩

theorem Owns.read {s s' : Chain τ k} {keys : List Key} {n : Nat} {bs : List UInt8} (ho : Owns s keys h)
    (hr : mpgpSread fuel s n = (bs, s')) : Owns s' keys h :=
  ho.drawn (drawn_of_read hr)

/-! ## Key records -/

/-- The key chain after a packet that may have added a record to it. -/
structure Took (h : Heap) (r : Err × Chain τ k × List Key × Heap) : Prop where
  owns : Owns r.2.1 r.2.2.1 r.2.2.2
  grew : r.1 = .ok → Grew h r.2.2.2

variable {s inner : Chain τ k} {keys keys' : List Key} {passphrase : List UInt8}

theorem Took.fail (ho : Owns s keys h) {e : Err} (he : e ≠ .ok) : Took h (e, s, keys, h) :=
  ⟨ho, fun hok => absurd hok he⟩

theorem addKey_took (ho : Owns s keys h) (key : Key) : Took h (addKey key s keys h) := by
  obtain ⟨hb, hc⟩ := ho
  unfold addKey
  rcases hm : malloc h with ⟨_ | id, h1⟩
  · obtain ⟨hb1, hc1⟩ := hb.malloc_none hm
    exact ⟨⟨hb1, hc1.trans hc⟩, nofun⟩
  · obtain ⟨hb1, hg, hc1⟩ := hb.malloc_some hm
    exact ⟨⟨hb1, hc1.trans hc⟩, fun _ => hg⟩

theorem readS2k_took (ho : Owns s keys h) : Took h (readS2k fuel s keys h) := by
  have hread : ∀ (s s' : Chain τ k) n bs, Owns s keys h → mpgpSread fuel s n = (bs, s') → Owns s' keys h :=
    fun _ _ _ _ ho hr => ho.read hr
  have hfail : ∀ (e : Err) (s : Chain τ k), Owns s keys h → e ≠ .ok → Took h (e, s, keys, h) :=
    fun _ _ ho he => .fail ho he
  have hadd : ∀ (key : Key) (s : Chain τ k), Owns s keys h → Took h (addKey key s keys h) :=
    fun key _ ho => addKey_took ho key
  unfold readS2k
  grind

theorem readSkeskPacket_took (ho : Owns s keys h) : Took h (readSkeskPacket fuel s keys h) := by
  have hread : ∀ (s s' : Chain τ k) n bs, Owns s keys h → mpgpSread fuel s n = (bs, s') → Owns s' keys h :=
    fun _ _ _ _ ho hr => ho.read hr
  have hfail : ∀ (e : Err) (s : Chain τ k), Owns s keys h → e ≠ .ok → Took h (e, s, keys, h) :=
    fun _ _ ho he => .fail ho he
  have hs2k : ∀ s : Chain τ k, Owns s keys h → Took h (readS2k fuel s keys h) := fun _ ho => readS2k_took ho
  unfold readSkeskPacket
  grind

/-- Reading a packet takes nothing back. -/
theorem readS2k_drawn (s : Chain τ k) (keys : List Key) (h : Heap) : Drawn s 0 (readS2k fuel s keys h).2.1 := by
  have hrefl : Drawn s 0 s := .refl s
  have hread : ∀ (s' s2 : Chain τ k) n bs, Drawn s 0 s' → mpgpSread fuel s' n = (bs, s2) → Drawn s 0 s2 :=
    fun _ _ _ _ hs hr => hs.read hr
  have hadd : ∀ (key : Key) (s' : Chain τ k), (addKey key s' keys h).2.1 = s' := by
    intro key s'
    unfold addKey
    split <;> rfl
  unfold readS2k
  grind

theorem readSkeskPacket_drawn (s : Chain τ k) (keys : List Key) (h : Heap) :
    Drawn s 0 (readSkeskPacket fuel s keys h).2.1 := by
  have hrefl : Drawn s 0 s := .refl s
  have hread : ∀ (s' s2 : Chain τ k) n bs, Drawn s 0 s' → mpgpSread fuel s' n = (bs, s2) → Drawn s 0 s2 :=
    fun _ _ _ _ hs hr => hs.read hr
  have hs2k : ∀ s' : Chain τ k, Drawn s 0 s' → Drawn s 0 (readS2k fuel s' keys h).2.1 :=
    fun s' hs => hs.trans (readS2k_drawn s' keys h)
  unfold readSkeskPacket
  grind

/-! ## New layers -/

/-- A new layer owns what the stream below it owned, or that stream still does. -/
def Handed {α : Type} (layer : α → Layer τ) (h : Heap) : Option α × Chain τ k × List Key × Heap → Prop
  | (some a, inner, keys, h') => Owns (k := k + 1) (layer a, inner) keys h' ∧ Grew h h'
  | (none, inner, keys, h') => Owns inner keys h'

theorem Grew.trans {h2 : Heap} (h1 : Grew h h') (hm : Grew h' h2) : Grew h h2 := by
  obtain ⟨hs1, hf1, id1, hle1, hlt1, -⟩ := h1
  obtain ⟨hs2, hf2, id2, hle2, hlt2, hid2⟩ := hm
  refine ⟨hs2.trans hs1, hf2.trans hf1, id2, by omega, hlt2, ?_⟩
  rwa [hs1] at hid2

/-- `check_key` computes keys in place. -/
theorem checkKeys_ids {ctx : CfbCtx} {pad passphrase : List UInt8} (keys : List Key) :
    (checkKeys ctx pad passphrase keys).2.map Key.id = keys.map Key.id := by
  induction keys generalizing ctx with
  | nil => rfl
  | cons key keys ih =>
    have hid : (computeKey key passphrase).id = key.id := by
      unfold computeKey
      split_ifs <;> rfl
    simp only [checkKeys]
    split_ifs
    · rw [List.map_cons, List.map_cons, hid]
    · rw [List.map_cons, List.map_cons, hid, ih]

theorem mpgpEncrSopen_handed (ho : Owns inner keys h) (packetLen : Nat) :
    Handed .encr h (mpgpEncrSopen fuel inner keys passphrase packetLen h) := by
  rcases hr : mpgpSread fuel inner 10 with ⟨pad, inner'⟩
  have ho' := ho.read hr
  unfold mpgpEncrSopen
  simp only [hr]
  split_ifs
  · exact ho'
  obtain ⟨hb, hc⟩ := ho'
  unfold checkKey
  rcases hm : malloc h with ⟨_ | ctxId, h1⟩
  · obtain ⟨hb1, hc1⟩ := hb.malloc_none hm
    exact ⟨hb1, hc1.trans hc⟩
  obtain ⟨hb1, hg1, hc1⟩ := hb.malloc_some hm
  have hids : (checkKeys heapCtx pad passphrase keys).2.map Key.id = keys.map Key.id := checkKeys_ids keys
  rcases hk : checkKeys heapCtx pad passphrase keys with ⟨_ | ctx, keys'⟩ <;> rw [hk] at hids <;> dsimp only
  · refine ⟨?_, hc1.trans hc⟩
    rw [hids]
    exact hb1.free
  rcases hm2 : malloc h1 with ⟨_ | id, h2⟩
  · obtain ⟨hb2, hc2⟩ := hb1.malloc_none hm2
    refine ⟨?_, hc2.trans (hc1.trans hc)⟩
    rw [hids]
    exact hb2.free
  · obtain ⟨hb2, hg2, hc2⟩ := hb1.malloc_some hm2
    refine ⟨⟨?_, hc2.trans (hc1.trans hc)⟩, hg1.trans hg2⟩
    rw [hids]
    refine hb2.of_count fun i => ?_
    simp only [objects, List.count_append, List.count_cons]
    omega

theorem mpgpEncrSopen_drawn (inner : Chain τ k) (keys : List Key) (passphrase : List UInt8) (packetLen : Nat)
    (h : Heap) : Drawn inner 0 (mpgpEncrSopen fuel inner keys passphrase packetLen h).2.1 := by
  have hread : ∀ (inner' : Chain τ k) pad, mpgpSread fuel inner 10 = (pad, inner') → Drawn inner 0 inner' :=
    fun _ _ hr => (Drawn.refl inner).read hr
  unfold mpgpEncrSopen
  grind

section

variable {α : Type} {layer : α → Layer τ}

theorem Handed.fail (ho : Owns inner keys h) : Handed layer h (none, inner, keys, h) := ho

theorem Handed.malloc_none (ho : Owns inner keys h) (hm : malloc h = (none, h')) :
    Handed layer h (none, inner, keys, h') := by
  obtain ⟨hb, hc⟩ := ho.balanced.malloc_none hm
  exact ⟨hb, hc.trans ho.opened⟩

theorem Handed.malloc_some {a : α} {id : Nat} (ho : Owns inner keys h) (hm : malloc h = (some id, h'))
    (ha : objects (k := k + 1) (layer a, inner) = id :: objects inner) :
    Handed layer h (some a, inner, keys, h') := by
  obtain ⟨hb, hg, hc⟩ := ho.balanced.malloc_some hm
  refine ⟨⟨hb.of_count fun i => ?_, hc.trans ho.opened⟩, hg⟩
  simp only [ha, List.count_append, List.count_cons]
  omega

end

theorem mpgpZSopen_handed {inner' : Chain τ k} {r : Option (ZStream τ)} (ho : Owns inner keys h)
    (hopen : mpgpZSopen fuel inner h = (r, inner', h')) : Handed .z h (r, inner', keys, h') := by
  unfold mpgpZSopen at hopen
  split at hopen
  · rename_i algo inner1 hr
    have ho1 := ho.read hr
    dsimp only at hopen
    split at hopen
    · split at hopen <;> rename_i hm <;> cases hopen
      · exact .malloc_some ho1 hm rfl
      · exact .malloc_none ho1 hm
    · cases hopen
      exact .fail ho1
  · rename_i hr
    cases hopen
    exact .fail (ho.read hr)

theorem skipName_owns {inner' : Chain τ k} {len : Nat} {ok : Bool} (ho : Owns inner keys h)
    (hs : skipName fuel len inner = (ok, inner')) : Owns inner' keys h := by
  induction len using Nat.strong_induction_on generalizing inner with
  | _ len ih =>
    rw [skipName] at hs
    split at hs
    · rcases hr : mpgpSread fuel inner (min len LIT_BUF_SIZE) with ⟨bs, inner1⟩
      simp only [hr] at hs
      have ho1 := ho.read hr
      split at hs
      · cases hs
        exact ho1
      · refine ih _ ?_ ho1 hs
        have : LIT_BUF_SIZE = 8 := rfl
        omega
    · cases hs
      exact ho

theorem mpgpLitSopen_handed {inner' : Chain τ k} {r : Option LitStream} {packetLen : Nat} (ho : Owns inner keys h)
    (hopen : mpgpLitSopen fuel inner packetLen h = (r, inner', h')) : Handed .lit h (r, inner', keys, h') := by
  unfold mpgpLitSopen at hopen
  split at hopen <;> rename_i hr
  · have ho1 := ho.read hr
    split at hopen
    · cases hopen
      exact .fail ho1
    · split at hopen <;> rename_i hr2
      · have ho2 := ho1.read hr2
        split at hopen <;> rename_i hskip
        · cases hopen
          exact .fail (skipName_owns ho2 hskip)
        · have ho3 : Owns (mpgpSread fuel _ 4).2 keys h := (skipName_owns ho2 hskip).read rfl
          dsimp only at hopen
          split at hopen
          · cases hopen
            exact .fail ho3
          · split at hopen <;> rename_i hm <;> cases hopen
            · exact .malloc_some ho3 hm rfl
            · exact .malloc_none ho3 hm
      · cases hopen
        exact .fail (ho1.read hr2)
  · cases hopen
    exact .fail (ho.read hr)

/-! ## Giving back -/

/-- Closing a stream frees its objects, and the source is closed once more. -/
theorem sclose_frees (s : Chain τ k) (hb : Balanced h (live ++ objects s)) :
    Balanced (sclose s h) live ∧ (sclose s h).closed = h.closed + 1 := by
  induction k generalizing h with
  | zero => exact ⟨hb.of_count fun i => by simp [objects], rfl⟩
  | succ k ih =>
    obtain ⟨s | s | s, inner⟩ := s
    · refine ih inner (h := free s.id (free s.ctxId h)) (.free (.free (hb.of_count fun i => ?_)))
      simp only [objects, List.count_append, List.count_cons]
      omega
    · refine ih inner (h := free s.id h) (.free (hb.of_count fun i => ?_))
      simp only [objects, List.count_append, List.count_cons]
      omega
    · refine ih inner (h := free s.id h) (.free (hb.of_count fun i => ?_))
      simp only [objects, List.count_append, List.count_cons]
      omega

theorem freeKeys_frees (keys : List Key) (hb : Balanced h (keys.map Key.id ++ live)) :
    Balanced (freeKeys keys h) live ∧ (freeKeys keys h).closed = h.closed := by
  induction keys generalizing h with
  | nil => exact ⟨hb, rfl⟩
  | cons key keys ih => exact ih (h := free key.id h) (.free hb)

/-! ## Opening -/

/-- The end of `mpgp_open_r`: the key chain is left to the caller, and with a stream what it is made of. -/
def Left (keys : List Key) (h : Heap) : Option (Σ k, Chain τ k) → Prop
  | some ⟨_, s⟩ => Owns s keys h
  | none => Balanced h (keys.map Key.id) ∧ h.closed = 1

theorem Owns.bail (ho : Owns s keys h) : Left (τ := τ) keys (sclose s h) none := by
  obtain ⟨hb, hc⟩ := sclose_frees s ho.balanced
  rw [ho.opened] at hc
  exact ⟨hb, hc⟩

/-- A stream that leads to a compressed layer, or on which less is unread. -/
def Shorter {k k' : Nat} (s : Chain τ k) (s' : Chain τ k') : Prop :=
  compressed s' = true ∨ compressed s = false ∧ unread s' < unread s

theorem Drawn.shorter {s' : Chain τ k} (h : Drawn s 1 s') : Shorter s s' := by
  by_cases hc : compressed s = false
  · have := h.taken hc
    exact .inr ⟨hc, by omega⟩
  · exact .inl (h.layers.trans (Bool.eq_true_of_not_eq_false hc))

/-- One turn of the loop ends it, or allocates something and leaves the loop with a stream to read. -/
theorem mpgpOpenR_turn (fuel : Nat) (ho : Owns s keys h) (passphrase : List UInt8) (hd : Header) :
    (∃ r keys' h', Left keys' h' r ∧
      ∀ packets, mpgpOpenR fuel (packets + 1) s passphrase keys hd h = some (r, keys', h')) ∨
    ∃ (k' : Nat) (s' : Chain τ k') (keys' : List Key) (hd' : Header) (h' : Heap), Owns s' keys' h' ∧ Grew h h' ∧ Shorter s s' ∧
      ∀ packets, mpgpOpenR fuel (packets + 1) s passphrase keys hd h =
        mpgpOpenR fuel packets s' passphrase keys' hd' h' := by
  have hd0 : Drawn s _ (readPacketHeader fuel s hd).2.2 := readPacketHeader_drawn s hd
  rcases hr : readPacketHeader fuel s hd with ⟨e, hd1, s1⟩
  rw [hr] at hd0
  have ho1 : Owns s1 keys h := ho.drawn hd0
  by_cases he : e = .ok
  swap
  · refine .inl ⟨none, keys, _, ho1.bail, fun packets => ?_⟩
    unfold mpgpOpenR
    cases e
    · contradiction
    all_goals simp only [hr]
  subst he
  have hd1s : Drawn s 1 s1 := hd0
  by_cases h3 : hd1.tag = SKESK_TAG
  · have htook : Took h (readSkeskPacket fuel s1 keys h) := readSkeskPacket_took ho1
    have hdrawn : Drawn s 1 (readSkeskPacket fuel s1 keys h).2.1 := hd1s.trans (readSkeskPacket_drawn s1 keys h)
    rcases hs : readSkeskPacket fuel s1 keys h with ⟨e, s2, keys2, h2⟩
    rw [hs] at htook hdrawn
    by_cases he : e = .ok
    · subst he
      refine .inr ⟨_, s2, keys2, hd1, h2, htook.owns, htook.grew rfl, hdrawn.shorter, fun packets => ?_⟩
      rw [mpgpOpenR]
      simp only [hr, if_pos h3, hs]
    · refine .inl ⟨none, keys2, _, htook.owns.bail, fun packets => ?_⟩
      unfold mpgpOpenR
      cases e
      · contradiction
      all_goals simp only [hr, if_pos h3, hs]
  by_cases h8 : hd1.tag = COMPRESSED_TAG
  · rcases hz : mpgpZSopen fuel s1 h with ⟨_ | z, s2, h2⟩
    · have ho2 : Owns s2 keys h2 := mpgpZSopen_handed ho1 hz
      refine .inl ⟨none, keys, _, ho2.bail, fun packets => ?_⟩
      rw [mpgpOpenR]
      simp only [hr, if_neg h3, if_pos h8, hz]
    · obtain ⟨ho2, hg⟩ := mpgpZSopen_handed ho1 hz
      refine .inr ⟨_, _, keys, ⟨0, 0, false⟩, h2, ho2, hg, .inl rfl, fun packets => ?_⟩
      rw [mpgpOpenR]
      simp only [hr, if_neg h3, if_pos h8, hz]
  by_cases h9 : hd1.tag = SYM_ENCR_TAG
  · have hencr : Handed .encr h (mpgpEncrSopen fuel s1 keys passphrase hd1.length h) :=
      mpgpEncrSopen_handed ho1 hd1.length
    have hdrawn : Drawn s 1 (mpgpEncrSopen fuel s1 keys passphrase hd1.length h).2.1 :=
      hd1s.trans (mpgpEncrSopen_drawn s1 keys passphrase hd1.length h)
    rcases hs : mpgpEncrSopen fuel s1 keys passphrase hd1.length h with ⟨_ | e, s2, keys2, h2⟩ <;>
      rw [hs] at hencr hdrawn
    · have ho2 : Owns s2 keys2 h2 := hencr
      refine .inl ⟨none, keys2, _, ho2.bail, fun packets => ?_⟩
      rw [mpgpOpenR]
      simp only [hr, if_neg h3, if_neg h8, if_pos h9, hs]
    · obtain ⟨ho2, hg⟩ := hencr
      refine .inr ⟨_, _, keys2, ⟨0, 0, false⟩, h2, ho2, hg, hdrawn.shorter, fun packets => ?_⟩
      rw [mpgpOpenR]
      simp only [hr, if_neg h3, if_neg h8, if_pos h9, hs]
  by_cases h11 : hd1.tag = LITERAL_TAG
  · rcases hl : mpgpLitSopen fuel s1 hd1.length h with ⟨_ | l, s2, h2⟩
    · have ho2 : Owns s2 keys h2 := mpgpLitSopen_handed ho1 hl
      refine .inl ⟨none, keys, _, ho2.bail, fun packets => ?_⟩
      rw [mpgpOpenR]
      simp only [hr, if_neg h3, if_neg h8, if_neg h9, if_pos h11, hl]
    · obtain ⟨ho2, hg⟩ := mpgpLitSopen_handed ho1 hl
      refine .inl ⟨some ⟨_, _⟩, keys, h2, ho2, fun packets => ?_⟩
      rw [mpgpOpenR]
      simp only [hr, if_neg h3, if_neg h8, if_neg h9, if_pos h11, hl]
  · refine .inl ⟨none, keys, _, ho1.bail, fun packets => ?_⟩
    rw [mpgpOpenR]
    simp only [hr, if_neg h3, if_neg h8, if_neg h9, if_neg h11]

theorem mpgpOpenR_left {packets : Nat} {hd : Header} {r : Option (Σ k, Chain τ k)} (ho : Owns s keys h)
    (hopen : mpgpOpenR fuel packets s passphrase keys hd h = some (r, keys', h')) : Left keys' h' r := by
  induction packets generalizing k keys hd h with
  | zero => cases hopen
  | succ packets ih =>
    obtain ⟨r1, keys1, h1, hleft, heq⟩ | ⟨k1, s1, keys1, hd1, h1, ho1, -, -, heq⟩ :=
      mpgpOpenR_turn fuel ho passphrase hd
    · rw [heq] at hopen
      cases hopen
      exact hleft
    · rw [heq] at hopen
      exact ih ho1 hopen

theorem mpgpOpen_left {packets : Nat} {r : Option (Σ k, Chain τ k)} (ho : Owns s [] h)
    (hopen : mpgpOpen fuel packets s passphrase h = some (r, h')) : Left [] h' r := by
  unfold mpgpOpen at hopen
  obtain ⟨⟨r1, keys, h1⟩, hopenR, heq⟩ := Option.map_eq_some_iff.1 hopen
  cases heq
  have hleft := mpgpOpenR_left ho hopenR
  obtain _ | ⟨k, s⟩ := r
  · obtain ⟨hb, hc⟩ := hleft
    obtain ⟨hfreed, hclosed⟩ := freeKeys_frees keys (show Balanced h1 (keys.map Key.id ++ []) by rwa [List.append_nil])
    exact ⟨hfreed, hclosed.trans hc⟩
  · obtain ⟨hb, hc⟩ := hleft
    obtain ⟨hfreed, hclosed⟩ := freeKeys_frees keys hb
    exact ⟨hfreed, hclosed.trans hc⟩

/-- The loop of `mpgp_open_r` after some turns that did not end it. It holds as many objects, and has taken as many bytes
from the source if no layer of the stream it reads is compressed. -/
structure GoesOn (fuel turns : Nat) (src : Source) (passphrase : List UInt8) (h0 : Heap) (s : Chain τ k) (keys : List Key)
    (hd : Header) (h : Heap) : Prop where
  turned : ∀ packets, mpgpOpenR fuel (turns + packets) (τ := τ) (k := 0) src passphrase [] ⟨0, 0, false⟩ h0 =
    mpgpOpenR fuel packets s passphrase keys hd h
  memory : h.succeeds = h0.succeeds
  owns : Owns s keys h
  live : turns ≤ (keys.map Key.id ++ objects s).length
  taken : compressed s = true ∨ turns + unread s ≤ src.data.length

section

variable {turns : Nat} {src : Source} {hd : Header} {h0 : Heap}

theorem GoesOn.start (ho : Owns (τ := τ) (k := 0) src [] h) :
    GoesOn (τ := τ) (k := 0) fuel 0 src passphrase h src [] ⟨0, 0, false⟩ h :=
  ⟨fun packets => by rw [Nat.zero_add], rfl, ho, Nat.zero_le _, .inr (Nat.le_of_eq (Nat.zero_add _))⟩

theorem GoesOn.turn (hgo : GoesOn fuel turns src passphrase h0 s keys hd h) :
    (∃ r, ∀ packets, mpgpOpenR fuel (turns + 1 + packets) (τ := τ) (k := 0) src passphrase [] ⟨0, 0, false⟩ h0 = some r) ∨
      ∃ (k' : Nat) (s' : Chain τ k') (keys' : List Key) (hd' : Header) (h' : Heap),
        GoesOn fuel (turns + 1) src passphrase h0 s' keys' hd' h' := by
  obtain ⟨hturned, hmemory, ho, hlive, htaken⟩ := hgo
  have hnext : ∀ packets, turns + 1 + packets = turns + (packets + 1) := fun packets => by omega
  obtain ⟨r, keys1, h1, -, heq⟩ | ⟨k1, s1, keys1, hd1, h1, ho1, hgrew, hshort, heq⟩ :=
    mpgpOpenR_turn fuel ho passphrase hd
  · exact .inl ⟨_, fun packets => by rw [hnext, hturned, heq]⟩
  · refine .inr ⟨k1, s1, keys1, hd1, h1, fun packets => by rw [hnext, hturned, heq], hgrew.succeeds.trans hmemory, ho1,
      ?_, ?_⟩
    · exact Nat.lt_of_le_of_lt hlive (hgrew.lives ho.balanced ho1.balanced)
    · obtain hc | ⟨hc, hlt⟩ := hshort
      · exact .inl hc
      · have := htaken.resolve_left (by rw [hc]; decide)
        exact .inr (by omega)

theorem mpgpOpenR_goesOn (ho : Owns (τ := τ) (k := 0) src [] h) (turns : Nat) :
    (∃ r, ∀ packets, mpgpOpenR fuel (turns + packets) (τ := τ) (k := 0) src passphrase [] ⟨0, 0, false⟩ h = some r) ∨
      ∃ (k : Nat) (s : Chain τ k) (keys : List Key) (hd : Header) (h' : Heap),
        GoesOn fuel turns src passphrase h s keys hd h' := by
  induction turns with
  | zero => exact .inr ⟨_, _, _, _, _, .start ho⟩
  | succ turns ih =>
    obtain ⟨r, hr⟩ | ⟨k, s, keys, hd, h', hgo⟩ := ih
    · exact .inl ⟨r, fun packets => by rw [Nat.add_assoc]; exact hr _⟩
    · exact hgo.turn

end

/-- What is settled when `mpgp_open` returns: everything, or everything but what closing the stream gives back,
whatever is read from it before. -/
def Accounted (fuel : Nat) : Option (Σ k, Chain τ k) × Heap → Prop
  | (none, h) => Settled h
  | (some ⟨k, s⟩, h) => h.closed = 0 ∧ ∀ ns, Settled (sclose ((reader fuel k).after s ns) h)

/-- **Every object is released exactly once, and the source is closed exactly once**: by `mpgp_open` when it returns
`NULL`, and otherwise by the one `mpgp_sclose` of the stream it returns. It returns within any number of turns, or holds
an object for each of them; and then a byte of the source was read in each, or there is a compressed packet. -/
theorem mpgpOpen_ledger (fuel : Nat) (src : Source) (passphrase : List UInt8) (succeeds : Nat → Bool) :
    (∀ packets, ∀ r ∈ mpgpOpen fuel packets (τ := τ) (k := 0) src passphrase ⟨succeeds, 0, [], 0⟩, Accounted fuel r) ∧
      (∀ turns, (mpgpOpen fuel turns (τ := τ) (k := 0) src passphrase ⟨succeeds, 0, [], 0⟩).isSome ∨
        ∃ (k : Nat) (s : Chain τ k) (keys : List Key) (hd : Header) (h : Heap),
          GoesOn fuel turns src passphrase ⟨succeeds, 0, [], 0⟩ s keys hd h) ∧
      ∀ N, (∀ n, N ≤ n → succeeds n = false) → ∀ turns, N < turns →
        (mpgpOpen fuel turns (τ := τ) (k := 0) src passphrase ⟨succeeds, 0, [], 0⟩).isSome := by
  have ho : Owns (τ := τ) (k := 0) src [] ⟨succeeds, 0, [], 0⟩ := ⟨fun id => by simp [objects], rfl⟩
  have hgoes : ∀ turns, (mpgpOpen fuel turns (τ := τ) (k := 0) src passphrase ⟨succeeds, 0, [], 0⟩).isSome ∨
      ∃ (k : Nat) (s : Chain τ k) (keys : List Key) (hd : Header) (h : Heap),
        GoesOn fuel turns src passphrase ⟨succeeds, 0, [], 0⟩ s keys hd h := by
    intro turns
    refine (mpgpOpenR_goesOn ho turns).imp_left ?_
    rintro ⟨r, hr⟩
    unfold mpgpOpen
    rw [Option.isSome_map]
    exact Option.isSome_iff_exists.2 ⟨r, hr 0⟩
  refine ⟨fun packets r hr => ?_, hgoes, fun N hN turns hlt => ?_⟩
  · obtain ⟨s, h⟩ := r
    have hleft := mpgpOpen_left ho hr
    obtain _ | ⟨k, s⟩ := s
    · exact ⟨hleft.1, hleft.2⟩
    · obtain ⟨hb, hc⟩ := hleft
      refine ⟨hc, fun ns => ?_⟩
      have hlive : Balanced h ([] ++ objects ((reader fuel k).after s ns)) := by rwa [objects_after]
      obtain ⟨hall, hone⟩ := sclose_frees ((reader fuel k).after s ns) hlive
      exact ⟨hall, by rw [hone, hc]⟩
  · refine (hgoes turns).resolve_right ?_
    rintro ⟨k, s, keys, hd, h, hgo⟩
    have := hgo.owns.balanced.live_le (N := N) fun n hn => by rw [hgo.memory]; exact hN n hn
    have := hgo.live
    omega

/-- Two keys, when the second allocation fails, and a literal packet, when none does. -/
theorem mpgpOpen_ledger_sample :
    (∃ h, mpgpOpen 0 2 (fileOf [0x8C, 4, 4, 3, 0, 2, 0x8C, 4, 4, 3, 0, 2]) [] ⟨fun n => n != 1, 0, [], 0⟩ =
      some (none, h) ∧ Settled h) ∧
    ∃ (s : Chain noTinfl 1) (h : Heap),
      mpgpOpen 0 1 (fileOf [0xCB, 8, 0x62, 0, 0, 0, 0, 0, 0x68, 0x69]) [] ⟨fun _ => true, 0, [], 0⟩ =
        some (some ⟨1, s⟩, h) ∧ h.closed = 0 ∧ Settled (sclose ((reader 0 1).after s [1]) h) := by
  have hnull : ∃ h, mpgpOpen 0 2 (fileOf [0x8C, 4, 4, 3, 0, 2, 0x8C, 4, 4, 3, 0, 2]) [] ⟨fun n => n != 1, 0, [], 0⟩ =
      some (none, h) := ⟨_, rfl⟩
  obtain ⟨h, hnull⟩ := hnull
  obtain ⟨s, h', hopen, -⟩ := openR_sampleLiteral [] ⟨0, 0, false⟩ (h := ⟨fun _ => true, 0, [], 0⟩) fun _ => rfl
  have hstream : mpgpOpen 0 1 (fileOf [0xCB, 8, 0x62, 0, 0, 0, 0, 0, 0x68, 0x69]) [] ⟨fun _ => true, 0, [], 0⟩ =
      some (some ⟨1, s⟩, freeKeys [] h') := by
    rw [mpgpOpen, hopen]
    rfl
  obtain ⟨hclosed, hall⟩ := (mpgpOpen_ledger 0 _ [] fun _ => true).1 1 _ hstream
  exact ⟨⟨h, hnull, (mpgpOpen_ledger 0 _ [] fun n => n != 1).1 2 _ hnull⟩, s, _, hstream, hclosed, hall [1]⟩

end Keynjector.Opgp
