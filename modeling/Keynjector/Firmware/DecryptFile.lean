import Keynjector.Lib.Runs
import Keynjector.Opgp.Frame
import Keynjector.Opgp.Lengths
import Keynjector.Firmware.KeyFile
/-
# What `decrypt_file` leaves behind (main.c:204-236)

`decrypt_file` takes whatever its one read returns: it asks neither whether the stream has
failed nor whether it has ended too early. It frees the old list before it has memory for
the new one, and two of its five exits leave the file open.

| here | there |
| --- | --- |
| `CutShort`            | the data ends, or an error shows, before the declared length |
| `Call`, `Static`      | one call with all it meets; `items`, the heap and the count of opened files |
| `Clean`               | every opened file closed once, no object freed twice, `items` `NULL` or a live string |
| `GoesWell`            | the exits that leave something behind are not taken |
-/

namespace Keynjector.Firmware.KeyFile

open Ui Opgp Readers Runs

variable {τ : Tinfl} {fuel packets k : Nat}

/-! ## Damaged files -/

section

variable {file : Source} {passphrase d : List UInt8} {memory : Nat → UInt8} {items : Option Block} {h h1 : Heap}
  {l : LitStream} {inner : Chain τ k}

/-- The data ends or an error shows before the literal stream has delivered what its packet declares. -/
def CutShort (fuel : Nat) (l : LitStream) (inner : Chain τ k) : Prop :=
  ∃ ns, ((reader fuel (k + 1)).got (.lit l, inner) ns).length < l.len ∧
    ((reader fuel (k + 1)).eof ((reader fuel (k + 1)).after (.lit l, inner) ns) = true ∨
      (reader fuel (k + 1)).err ((reader fuel (k + 1)).after (.lit l, inner) ns) = true)

/-- After a read of the whole length a literal stream is at its end, or it has failed. -/
theorem lit_read_ends (l : LitStream) (inner : Chain τ k) :
    (reader fuel (k + 1)).eof ((reader fuel (k + 1)).after (.lit l, inner) [l.len]) = true ∨
      (reader fuel (k + 1)).err ((reader fuel (k + 1)).after (.lit l, inner) [l.len]) = true := by
  by_cases hg : (reader fuel (k + 1)).eof (.lit l, inner) = true ∨ (reader fuel (k + 1)).err (.lit l, inner) = true
  · have hstay : (reader fuel (k + 1)).after (.lit l, inner) [l.len] = (.lit l, inner) :=
      congrArg Prod.snd (reader_stuck fuel (k + 1) (.lit l, inner) hg l.len)
    rwa [hstay]
  · have hguard : (seof (k := k + 1) (.lit l, inner) || serror (k := k + 1) (.lit l, inner)) = false := by
      simpa [reader, not_or] using hg
    left
    show seof (mpgpSread fuel (k := k + 1) (.lit l, inner) l.len).2 = true
    simp only [mpgpSread, hguard, litSread, Nat.lt_irrefl, gt_iff_lt, if_false, Nat.sub_self, Bool.false_eq_true]
    rfl

/-- For a stream that yields its data, however it is read: there is less than the packet declares. -/
theorem cutShort_iff (hin : (reader fuel (k + 1)).Yields (.lit l, inner) d) :
    CutShort fuel l inner ↔ d.length < l.len := by
  constructor
  · rintro ⟨ns, hlt, hend⟩
    have hnil := (hin.after ns).nil_of_stuck (reader_stuck fuel (k + 1)) hend
    rw [hin ns, List.take_of_length_le (List.drop_eq_nil_iff.1 hnil)] at hlt
    exact hlt
  · intro hlt
    refine ⟨[l.len], ?_, lit_read_ends l inner⟩
    rw [hin [l.len], List.length_take]
    omega

/-- `decrypt_file` returns 0, and the key list is as it was. -/
def Refused (τ : Tinfl) (fuel packets : Nat) (file : Source) (passphrase : List UInt8) (memory : Nat → UInt8)
    (items : Option Block) (h : Heap) : Prop :=
  ∃ h', decryptFile τ fuel packets (some file) passphrase memory items h = some (false, items, h')

/-- A file that `mpgp_open` opens is refused for lack of memory only. -/
theorem refused_iff {s : Chain τ k} (hsrc : h.succeeds h.mallocs = true)
    (hopen : mpgpOpen fuel packets (k := 0) file passphrase (malloc h).2 = some (some ⟨k, s⟩, h1)) :
    Refused τ fuel packets file passphrase memory items h ↔ h1.succeeds h1.mallocs = false := by
  constructor
  · rintro ⟨h', hret⟩
    by_contra hmem
    obtain ⟨items', h2, hok⟩ : ∃ items' h2,
        decryptFile τ fuel packets (some file) passphrase memory items h = some (true, items', h2) :=
      decryptFile_succeeds hsrc hopen (by simpa using hmem)
    rw [hok] at hret
    cases hret
  · intro hmem
    exact ⟨_, decryptFile_noBuffer hsrc hopen hmem⟩

/-- **Damaged key files are not refused.** When `mpgp_open` succeeds, `decrypt_file` refuses a file that is cut short
exactly if it finds no memory for the list. -/
theorem damaged_refused_iff (hsrc : h.succeeds h.mallocs = true)
    (hopen : mpgpOpen fuel packets (k := 0) file passphrase (malloc h).2 = some (some ⟨k + 1, (.lit l, inner)⟩, h1)) :
    (CutShort fuel l inner → Refused τ fuel packets file passphrase memory items h) ↔
      (CutShort fuel l inner → h1.succeeds h1.mallocs = false) :=
  imp_congr_right fun _ => refused_iff hsrc hopen

end

/-! A file that is one literal packet, which may declare more than there is. -/

def literalFile (L : Nat) (body : List UInt8) : Source := ⟨LenForm.new1.encode LITERAL_TAG L ++ body, false, false⟩

theorem literalFile_opens {L : Nat} (hL : L < 192) {body : List UInt8} {h : Heap} (ho : LitOpens body h) :
    ∃ inner : Chain noTinfl 0,
      mpgpOpen 0 1 (k := 0) (literalFile L body) [] h =
        some (some ⟨1, (.lit ⟨h.mallocs, (L + 2 ^ 32 - litHead body) % 2 ^ 32⟩, inner)⟩,
          { h with mallocs := h.mallocs + 1 }) ∧
      (reader 0 1).Yields (.lit ⟨h.mallocs, (L + 2 ^ 32 - litHead body) % 2 ^ 32⟩, inner)
        ((body.drop (litHead body)).take ((L + 2 ^ 32 - litHead body) % 2 ^ 32)) := by
  have hplain : Plain (τ := noTinfl) (k := 0) (literalFile L body) := ⟨rfl, rfl⟩
  obtain ⟨s1, hr1, hs1, hp1⟩ := readPacketHeader_encode 0 hplain (f := .new1) ⟨by decide, hL⟩ rfl ⟨0, 0, false⟩
  have hin : (reader 0 0).Yields s1 body := hs1 ▸ hp1.serves.bytes
  obtain ⟨ms, hlit, hsum⟩ := mpgpLitSopen_opens (L := L) hin ho
  have hrest := hin.after ms
  rw [hsum] at hrest
  refine ⟨(reader 0 0).after s1 ms, ?_, Yields.lit hrest⟩
  unfold mpgpOpen
  rw [openR_lit_layer 0 [] hr1 hlit 0]
  rfl

/-- A packet that declares the list `a`, tab, `AA`; the file ends before the last letter. -/
def cutFile : Source := literalFile 10 [0x62, 0, 0, 0, 0, 0, 0x61, 9, 0x41]

theorem cutFile_opens {h : Heap} (hm : h.succeeds h.mallocs = true) : ∃ inner : Chain noTinfl 0,
    mpgpOpen 0 1 (k := 0) cutFile [] h =
      some (some ⟨1, (.lit ⟨h.mallocs, 4⟩, inner)⟩, { h with mallocs := h.mallocs + 1 }) ∧
    (reader 0 1).Yields (.lit ⟨h.mallocs, 4⟩, inner) [0x61, 9, 0x41] :=
  literalFile_opens (by decide) ⟨rfl, by decide, hm⟩

/-- Without memory for the list the file is refused. -/
theorem damaged_refused_sample : Refused noTinfl 0 1 cutFile [] (fun _ => 0xff) none ⟨fun n => n < 2, 0, [], 0⟩ := by
  obtain ⟨inner, hopen, hin⟩ := cutFile_opens (h := (malloc ⟨fun n => n < 2, 0, [], 0⟩).2) rfl
  exact (damaged_refused_iff rfl hopen).2 (fun _ => rfl) ((cutShort_iff hin).2 (by decide))

/-- With memory, the cut list is the key list: the value of its entry is `A`. -/
theorem damaged_accepted_sample : ∃ (l : LitStream) (inner : Chain noTinfl 0) (b : Block) (h1 h' : Heap),
    mpgpOpen 0 1 (k := 0) cutFile [] (malloc goodHeap).2 = some (some ⟨1, (.lit l, inner)⟩, h1) ∧ CutShort 0 l inner ∧
      decryptFile noTinfl 0 1 (some cutFile) [] (fun _ => 0xff) none goodHeap = some (true, some b, h') ∧
      cstr b.bytes = [0x61, 9, 0x41] := by
  obtain ⟨inner, hopen, hin⟩ := cutFile_opens (h := (malloc goodHeap).2) rfl
  have hsucceeds : ∃ items' h', decryptFile noTinfl 0 1 (some cutFile) [] (fun _ => 0xff) none goodHeap =
      some (true, items', h') := decryptFile_succeeds rfl hopen rfl
  obtain ⟨items', h', hret⟩ := hsucceeds
  obtain ⟨id, rfl⟩ := decryptFile_stored hopen hin hret
  exact ⟨_, _, _, _, h', hopen, (cutShort_iff hin).2 (by decide), hret,
    @stored_text [0x61, 9, 0x41] (fun _ => 0xff) (by decide) id⟩


/-! ## Call after call -/

/-- A call of `decrypt_file` with all it meets. -/
structure Call (τ : Tinfl) where
  fuel : Nat
  packets : Nat
  /-- the key file, if `f_open` finds it -/
  file : Option Source
  passphrase : List UInt8
  memory : Nat → UInt8

/-- What outlives a call. -/
structure Static where
  items : Option Block
  heap : Heap
  /-- files opened so far -/
  opened : Nat

def boot (succeeds : Nat → Bool) : Static := ⟨none, ⟨succeeds, 0, [], 0⟩, 0⟩

/-- The state after a call; `none` if it does not return. -/
def Static.call (st : Static) (c : Call τ) : Option Static :=
  (decryptFile τ c.fuel c.packets c.file c.passphrase c.memory st.items st.heap).map fun r =>
    ⟨r.2.1, r.2.2, st.opened + if c.file.isSome then 1 else 0⟩

def step (st : Option Static) (c : Call τ) : Option Static := st.bind fun st => st.call c

/-- Every file opened was closed once, no object was freed twice, and `items` is `NULL` or a live string. -/
structure Clean (st : Static) : Prop where
  closed : st.heap.closed = st.opened
  once : ∀ id, st.heap.freed.count id ≤ 1
  items : ∀ b, st.items = some b →
    b.id < st.heap.mallocs ∧ st.heap.succeeds b.id = true ∧ b.id ∉ st.heap.freed ∧ 0 ∈ b.bytes

/-- There is memory for the wrapped file, and when the file opens, for the list; and the list ends inside its memory. -/
def GoesWell (st : Static) (c : Call τ) : Prop :=
  ∀ file, c.file = some file → st.heap.succeeds st.heap.mallocs = true ∧
    ∀ k (s : Chain τ k) h1,
      mpgpOpen c.fuel c.packets (k := 0) file c.passphrase (malloc st.heap).2 = some (some ⟨k, s⟩, h1) →
        h1.succeeds h1.mallocs = true ∧
          ((mpgpSread c.fuel s bufLen).1.length < bufLen ∨ 0 ∈ (mpgpSread c.fuel s bufLen).1)

section

variable {st st' : Static} {c : Call τ} {s : Chain τ k} {h h' x base : Heap}

/-- The five exits of `decrypt_file`, and the one from a file that is not there. -/
inductive Exit (st : Static) (c : Call τ) : Static → Prop
  | notFound : c.file = none → Exit st c ⟨st.items, st.heap, st.opened + 0⟩
  | notWrapped {file : Source} : c.file = some file → st.heap.succeeds st.heap.mallocs = false →
      Exit st c ⟨st.items, (malloc st.heap).2, st.opened + 1⟩
  | notOpened {file : Source} {h1 : Heap} : c.file = some file → st.heap.succeeds st.heap.mallocs = true →
      mpgpOpen (τ := τ) c.fuel c.packets (k := 0) file c.passphrase (malloc st.heap).2 = some (none, h1) →
      Exit st c ⟨st.items, h1, st.opened + 1⟩
  | noBuffer {file : Source} {h1 : Heap} {k : Nat} {s : Chain τ k} : c.file = some file →
      st.heap.succeeds st.heap.mallocs = true →
      mpgpOpen c.fuel c.packets (k := 0) file c.passphrase (malloc st.heap).2 = some (some ⟨k, s⟩, h1) →
      h1.succeeds h1.mallocs = false → Exit st c ⟨st.items, (malloc (freeItems st.items h1)).2, st.opened + 1⟩
  | read {file : Source} {h1 : Heap} {k : Nat} {s : Chain τ k} : c.file = some file →
      st.heap.succeeds st.heap.mallocs = true →
      mpgpOpen c.fuel c.packets (k := 0) file c.passphrase (malloc st.heap).2 = some (some ⟨k, s⟩, h1) →
      h1.succeeds h1.mallocs = true →
      Exit st c ⟨some (stored h1.mallocs c.memory (mpgpSread c.fuel s bufLen).1),
        sclose (mpgpSread c.fuel s bufLen).2 (malloc (freeItems st.items h1)).2, st.opened + 1⟩

theorem call_exit (st : Static) (c : Call τ) (st' : Static) : st.call c = some st' ↔ Exit st c st' := by
  unfold Static.call
  constructor
  · intro hcall
    rcases hf : c.file with _ | file <;> rw [hf] at hcall
    · cases hcall
      exact .notFound hf
    by_cases hsrc : st.heap.succeeds st.heap.mallocs = true
    swap
    · rw [decryptFile_notWrapped (by simpa using hsrc)] at hcall
      cases hcall
      exact .notWrapped hf (by simpa using hsrc)
    rcases hopen : mpgpOpen (τ := τ) c.fuel c.packets (k := 0) file c.passphrase (malloc st.heap).2 with
      _ | ⟨_ | ⟨k, s⟩, h1⟩
    · rw [decryptFile_busy hsrc hopen] at hcall
      cases hcall
    · rw [decryptFile_notOpened hsrc hopen] at hcall
      cases hcall
      exact .notOpened hf hsrc hopen
    by_cases hbuf : h1.succeeds h1.mallocs = true
    · rw [decryptFile_read hsrc hopen hbuf] at hcall
      cases hcall
      exact .read hf hsrc hopen hbuf
    · rw [decryptFile_noBuffer hsrc hopen (by simpa using hbuf)] at hcall
      cases hcall
      exact .noBuffer hf hsrc hopen (by simpa using hbuf)
  · intro hexit
    cases hexit with
    | notFound hf =>
      rw [hf]
      rfl
    | notWrapped hf hsrc =>
      rw [hf, decryptFile_notWrapped hsrc]
      rfl
    | notOpened hf hsrc hopen =>
      rw [hf, decryptFile_notOpened hsrc hopen]
      rfl
    | noBuffer hf hsrc hopen hbuf =>
      rw [hf, decryptFile_noBuffer hsrc hopen hbuf]
      rfl
    | read hf hsrc hopen hbuf =>
      rw [hf, decryptFile_read hsrc hopen hbuf]
      rfl

/-! What the heap looks like after each exit. -/

theorem sclose_books (s : Chain τ k) (h : Heap) : (sclose s h).succeeds = h.succeeds ∧
    (sclose s h).mallocs = h.mallocs ∧ (sclose s h).closed = h.closed + 1 ∧
    ∀ id, (sclose s h).freed.count id = (objects s).count id + h.freed.count id := by
  induction k generalizing h with
  | zero => exact ⟨rfl, rfl, rfl, fun id => (Nat.zero_add _).symm⟩
  | succ k ih =>
    obtain ⟨s | s | s, inner⟩ := s
    all_goals
      obtain ⟨hsucc, hmallocs, hclosed, hfreed⟩ := ih inner _
      refine ⟨hsucc, hmallocs, hclosed, fun id => (hfreed id).trans ?_⟩
      simp only [objects, free, List.count_cons]
      omega

/-- The objects `mpgp_open` frees or leaves to its stream are new ones, and it closes the file or leaves it open. -/
theorem mpgpOpen_books {src : Source} {passphrase : List UInt8} {fuel packets : Nat} {r : Option (Σ k, Chain τ k)}
    (hopen : mpgpOpen fuel packets (k := 0) src passphrase h = some (r, h')) :
    h'.succeeds = h.succeeds ∧ h.mallocs ≤ h'.mallocs ∧ h'.closed + r.toList.length = h.closed + 1 ∧
      (∀ id, h'.freed.count id + (r.elim [] fun s => objects s.2).count id ≤ h.freed.count id + 1) ∧
      ∀ id, id < h.mallocs ∨ h'.mallocs ≤ id →
        h'.freed.count id + (r.elim [] fun s => objects s.2).count id = h.freed.count id := by
  obtain ⟨x, ho, hleft⟩ := mpgpOpen_frame hopen
  have hbalanced : Balanced x (r.elim [] fun s => objects s.2) ∧ x.closed + r.toList.length = 1 := by
    obtain _ | ⟨k, s⟩ := r
    · exact hleft
    · exact ⟨hleft.balanced, by rw [hleft.opened]; rfl⟩
  obtain ⟨hb, hc⟩ := hbalanced
  have hcount : ∀ id, h'.freed.count id = x.freed.count id + h.freed.count id := by
    intro id
    rw [ho.freed, List.count_append]
  refine ⟨ho.succeeds, ho.mallocs ▸ ho.above, ?_, fun id => ?_, fun id hid => ?_⟩
  · rw [ho.closed]
    omega
  · have := hb id
    rw [hcount]
    split_ifs at this <;> omega
  · have hnone : ¬ (id < x.mallocs ∧ x.succeeds id = true) := by
      rw [ho.later, ← ho.mallocs]
      rintro ⟨hlt, hgiven⟩
      have hge : h.mallocs ≤ id := by simpa using (Bool.and_eq_true_iff.1 hgiven).1
      omega
    have := hb id
    rw [if_neg hnone] at this
    rw [hcount]
    omega

theorem stored_id (id : Nat) (memory : Nat → UInt8) {bs : List UInt8} (hlen : bs.length ≤ bufLen) :
    (stored id memory bs).id = id := by
  rcases Nat.lt_or_eq_of_le hlen with hlt | heq
  · obtain ⟨rest, hstored⟩ := stored_short memory id hlt
    rw [hstored]
  · rw [stored_long id heq]

/-- A list that fills its memory has no NUL but its own. -/
theorem stored_terminated (id : Nat) (memory : Nat → UInt8) {bs : List UInt8} (hlen : bs.length ≤ bufLen) :
    0 ∈ (stored id memory bs).bytes ↔ bs.length < bufLen ∨ 0 ∈ bs := by
  rcases Nat.lt_or_eq_of_le hlen with hlt | heq
  · obtain ⟨rest, hstored⟩ := stored_short memory id hlt
    rw [hstored]
    exact iff_of_true (List.mem_append_right _ (List.mem_cons_self ..)) (.inl hlt)
  · rw [stored_long id heq]
    exact (or_iff_right (heq ▸ Nat.lt_irrefl _)).symm

/-- `Clean`, and what was freed had been given out. -/
structure Sound (st : Static) : Prop extends Clean st where
  below : ∀ id ∈ st.heap.freed, id < st.heap.mallocs

theorem boot_sound (succeeds : Nat → Bool) : Sound (boot succeeds) :=
  ⟨⟨rfl, fun _ => Nat.zero_le _, nofun⟩, nofun⟩

theorem Sound.unfreed (hst : Sound st) (id : Nat) (hid : st.heap.mallocs ≤ id) : st.heap.freed.count id = 0 :=
  List.count_eq_zero.2 fun hmem => absurd (hst.below id hmem) (Nat.not_lt.2 hid)

/-- The same, as counts. -/
theorem Sound.of_counts (hclosed : st.heap.closed = st.opened) (honce : ∀ id, st.heap.freed.count id ≤ 1)
    (hnew : ∀ id, st.heap.mallocs ≤ id → st.heap.freed.count id = 0)
    (hitems : ∀ b, st.items = some b →
      b.id < st.heap.mallocs ∧ st.heap.succeeds b.id = true ∧ st.heap.freed.count b.id = 0 ∧ 0 ∈ b.bytes) :
    Sound st := by
  refine ⟨⟨hclosed, honce, fun b hb => ?_⟩, fun id hid => ?_⟩
  · obtain ⟨hlt, hmem, hfree, hnul⟩ := hitems b hb
    exact ⟨hlt, hmem, List.count_eq_zero.1 hfree, hnul⟩
  · by_contra hge
    exact absurd hid (List.count_eq_zero.1 (hnew id (Nat.le_of_not_lt hge)))

/-- The list is freed once, and was live. -/
theorem Sound.freeItems (hst : Sound st) (id : Nat) :
    (st.items.elim 0 fun b => if b.id = id then 1 else 0) = 0 ∨
      ((st.items.elim 0 fun b => if b.id = id then 1 else 0) = 1 ∧ id < st.heap.mallocs ∧
        st.heap.freed.count id = 0) := by
  rcases hit : st.items with _ | b
  · exact .inl rfl
  · obtain ⟨hlt, -, hfree, -⟩ := hst.items b hit
    by_cases hid : b.id = id
    · subst hid
      exact .inr ⟨if_pos rfl, hlt, List.count_eq_zero.2 hfree⟩
    · exact .inl (if_neg hid)

theorem Sound.notOpened (hst : Sound st) {file : Source} {h1 : Heap}
    (hopen : mpgpOpen (τ := τ) c.fuel c.packets (k := 0) file c.passphrase (malloc st.heap).2 = some (none, h1)) :
    Sound ⟨st.items, h1, st.opened + 1⟩ := by
  obtain ⟨hsucc, habove, hc, honce, hsame⟩ := mpgpOpen_books hopen
  simp only [malloc_succeeds, malloc_mallocs, malloc_closed, malloc_freed, Option.elim_none, List.count_nil,
    Nat.add_zero] at hsucc habove hc honce hsame
  refine .of_counts (hc.trans (congrArg (· + 1) hst.closed)) (fun id => ?_) (fun id hid => ?_) (fun b hb => ?_) <;>
    dsimp only at *
  · have hold := hst.once id
    have hnone := hst.unfreed id
    have := honce id
    have := hsame id
    omega
  · rw [hsame id (.inr hid), hst.unfreed id (by omega)]
  · obtain ⟨hlt, hmem, hfree, hnul⟩ := hst.items b hb
    refine ⟨by omega, hsucc ▸ hmem, ?_, hnul⟩
    rw [hsame _ (.inl (by omega)), List.count_eq_zero.2 hfree]

theorem Sound.read (hst : Sound st) {file : Source} {h1 : Heap}
    (hopen : mpgpOpen c.fuel c.packets (k := 0) file c.passphrase (malloc st.heap).2 = some (some ⟨k, s⟩, h1))
    (hbuf : h1.succeeds h1.mallocs = true)
    (hlist : (mpgpSread c.fuel s bufLen).1.length < bufLen ∨ 0 ∈ (mpgpSread c.fuel s bufLen).1) :
    Sound ⟨some (stored h1.mallocs c.memory (mpgpSread c.fuel s bufLen).1),
      sclose (mpgpSread c.fuel s bufLen).2 (malloc (KeyFile.freeItems st.items h1)).2, st.opened + 1⟩ := by
  obtain ⟨hsucc, habove, hc, honce, hsame⟩ := mpgpOpen_books hopen
  obtain ⟨hsucc', hmallocs', hclosed', hfreed'⟩ :=
    sclose_books (mpgpSread c.fuel s bufLen).2 (malloc (KeyFile.freeItems st.items h1)).2
  simp only [malloc_succeeds, malloc_mallocs, malloc_closed, malloc_freed, freeItems_succeeds, freeItems_mallocs,
    freeItems_closed, freeItems_count, objects_read, Option.elim_some, Option.toList_some, List.length_singleton]
    at hsucc habove hc honce hsame hsucc' hmallocs' hclosed' hfreed'
  refine .of_counts (hclosed'.trans (hc.trans (congrArg (· + 1) hst.closed))) (fun id => ?_) (fun id hid => ?_)
    (fun b hb => ?_) <;> dsimp only at *
  · have hold := hst.once id
    have hnone := hst.unfreed id
    have hlive := hst.freeItems id
    have := honce id
    have := hsame id
    rw [hfreed' id]
    omega
  · have hnone := hst.unfreed id
    have hlive := hst.freeItems id
    have := hsame id
    rw [hfreed' id]
    omega
  · cases hb
    rw [stored_id _ _ (mpgpSread_length s _)]
    refine ⟨by omega, by rw [hsucc', ← hbuf], ?_, (stored_terminated _ _ (mpgpSread_length s _)).2 hlist⟩
    have hnone := hst.unfreed h1.mallocs
    have hlive := hst.freeItems h1.mallocs
    have := hsame h1.mallocs
    rw [hfreed' h1.mallocs]
    omega

theorem Sound.exit (hst : Sound st) (hwell : GoesWell st c) (hexit : Exit st c st') : Sound st' := by
  cases hexit with
  | notFound hf => exact ⟨⟨hst.closed, hst.once, hst.items⟩, hst.below⟩
  | notWrapped hf hsrc =>
    have := (hwell _ hf).1
    rw [hsrc] at this
    cases this
  | notOpened hf hsrc hopen => exact hst.notOpened hopen
  | noBuffer hf hsrc hopen hbuf =>
    have := ((hwell _ hf).2 _ _ _ hopen).1
    rw [hbuf] at this
    cases this
  | read hf hsrc hopen hbuf => exact hst.read hopen hbuf ((hwell _ hf).2 _ _ _ hopen).2

theorem Sound.goesWell_iff (hst : Sound st) : GoesWell st c ↔ ∀ st', st.call c = some st' → Clean st' := by
  constructor
  · intro hwell st' hcall
    exact (hst.exit hwell ((call_exit st c st').1 hcall)).toClean
  · intro hclean file hf
    have hsrc : st.heap.succeeds st.heap.mallocs = true := by
      by_contra hsrc
      have := (hclean _ ((call_exit st c _).2 (.notWrapped hf (by simpa using hsrc)))).closed
      exact absurd (hst.closed.symm.trans this) (Nat.ne_of_lt (Nat.lt_succ_self _))
    refine ⟨hsrc, fun k s h1 hopen => ?_⟩
    obtain ⟨-, -, hc, -⟩ := mpgpOpen_books hopen
    have hbuf : h1.succeeds h1.mallocs = true := by
      by_contra hbuf
      have := (hclean _ ((call_exit st c _).2 (.noBuffer hf hsrc hopen (by simpa using hbuf)))).closed
      simp only [malloc_closed, freeItems_closed, Option.toList_some, List.length_singleton] at hc this
      have := hst.closed
      omega
    have hread := hclean _ ((call_exit st c _).2 (.read hf hsrc hopen hbuf))
    exact ⟨hbuf, (stored_terminated _ _ (mpgpSread_length s _)).1 (hread.items _ rfl).2.2.2⟩

/-- **`decrypt_file` fails cleanly** after every call of a sequence exactly if each finds memory for the wrapped file,
and, when the file opens, memory for the list, with the end of the list inside it. -/
theorem calls_clean_iff (succeeds : Nat → Bool) (cs : List (Call τ)) :
    (∀ p, p <+: cs → ∀ st, run step (some (boot succeeds)) p = some st → Clean st) ↔
      Guarded step (fun o c => ∀ st, o = some st → GoesWell st c) (some (boot succeeds)) cs := by
  refine Guarded.exact (fun o => ∀ st, o = some st → Sound st) (fun o => ∀ st, o = some st → Clean st)
    (fun o ho st hst => (ho st hst).toClean) (fun o c ho hwell st' hst' => ?_) (fun o c ho hclean st hst => ?_) ?_
  · obtain ⟨st, rfl, hcall⟩ := Option.bind_eq_some_iff.1 hst'
    exact (ho st rfl).exit (hwell st rfl) ((call_exit st c st').1 hcall)
  · subst hst
    exact (ho st rfl).goesWell_iff.2 hclean
  · rintro st ⟨⟩
    exact boot_sound succeeds

end

/-- Three calls on a file with the list `a`, tab, `A`; only the sixth allocation fails, for the list of the second. -/
def thriceCall : Call noTinfl := ⟨0, 1, some (literalFile 9 [0x62, 0, 0, 0, 0, 0, 0x61, 9, 0x41]), [], fun _ => 0xff⟩

def sixthFails : Nat → Bool := fun n => n != 5

theorem thriceCall_opens {h : Heap} (hm : h.succeeds h.mallocs = true) : ∃ inner : Chain noTinfl 0,
    mpgpOpen 0 1 (k := 0) (literalFile 9 [0x62, 0, 0, 0, 0, 0, 0x61, 9, 0x41]) [] h =
      some (some ⟨1, (.lit ⟨h.mallocs, 3⟩, inner)⟩, { h with mallocs := h.mallocs + 1 }) := by
  obtain ⟨inner, hopen, -⟩ := literalFile_opens (L := 9) (by decide)
    (show LitOpens [0x62, 0, 0, 0, 0, 0, 0x61, 9, 0x41] h from ⟨rfl, by decide, hm⟩)
  exact ⟨inner, hopen⟩

/-- A call for which all three allocations succeed. -/
theorem thriceCall_reads (st : Static) (hsrc : st.heap.succeeds st.heap.mallocs = true)
    (hlit : st.heap.succeeds (st.heap.mallocs + 1) = true) (hbuf : st.heap.succeeds (st.heap.mallocs + 2) = true) :
    ∃ st' b, st.call thriceCall = some st' ∧ st'.items = some b ∧ b.id = st.heap.mallocs + 2 ∧
      st'.opened = st.opened + 1 ∧ st'.heap.succeeds = st.heap.succeeds ∧ st'.heap.mallocs = st.heap.mallocs + 3 ∧
      st'.heap.closed = st.heap.closed + 1 ∧
      ∀ id, st'.heap.freed.count id = [st.heap.mallocs + 1].count id + (freeItems st.items st.heap).freed.count id := by
  obtain ⟨inner, hopen⟩ := thriceCall_opens (h := (malloc st.heap).2) hlit
  have hread := (call_exit st thriceCall _).2 (.read rfl hsrc hopen hbuf)
  obtain ⟨hsucc, hmallocs, hclosed, hfreed⟩ := sclose_books (mpgpSread 0 (k := 1)
    (.lit ⟨(malloc st.heap).2.mallocs, 3⟩, inner) bufLen).2
    (malloc (freeItems st.items { (malloc st.heap).2 with mallocs := (malloc st.heap).2.mallocs + 1 })).2
  refine ⟨_, _, hread, rfl, stored_id _ _ (mpgpSread_length _ _), rfl, ?_, ?_, ?_, fun id => ?_⟩
  · exact hsucc.trans (by rw [malloc_succeeds, freeItems_succeeds]; rfl)
  · exact hmallocs.trans (by rw [malloc_mallocs, freeItems_mallocs]; rfl)
  · exact hclosed.trans (by rw [malloc_closed, freeItems_closed]; rfl)
  · refine (hfreed id).trans (congrArg₂ (· + ·) (congrArg (List.count id) (objects_read _ _)) ?_)
    rw [malloc_freed, freeItems_count, freeItems_count]
    rfl

/-- The second call leaves the file open and `items` on freed memory; the third frees that again. -/
theorem calls_unclean : ∃ (st2 st3 : Static) (b : Block),
    run step (some (boot sixthFails)) [thriceCall, thriceCall] = some st2 ∧ ¬ Clean st2 ∧
      st2.heap.closed = 1 ∧ st2.opened = 2 ∧ st2.items = some b ∧ b.id ∈ st2.heap.freed ∧
    run step (some (boot sixthFails)) [thriceCall, thriceCall, thriceCall] = some st3 ∧
      st3.heap.freed.count b.id = 2 := by
  obtain ⟨st1, b, hcall1, hit1, hid, hopened1, hsucc1, hmallocs1, hclosed1, hfreed1⟩ :=
    thriceCall_reads (boot sixthFails) rfl rfl rfl
  have hsucc : st1.heap.succeeds = sixthFails := hsucc1
  have hmallocs : st1.heap.mallocs = 3 := hmallocs1
  have hid : b.id = 2 := hid
  obtain ⟨inner, hopen⟩ := thriceCall_opens (h := (malloc st1.heap).2)
    (by rw [malloc_succeeds, malloc_mallocs, hsucc, hmallocs]; rfl)
  have hcall2 := (call_exit st1 thriceCall _).2 (.noBuffer rfl (by rw [hsucc, hmallocs]; rfl) hopen
    (show st1.heap.succeeds (st1.heap.mallocs + 1 + 1) = false by rw [hsucc, hmallocs]; rfl))
  rw [hit1] at hcall2
  have hst2 : ∃ st2 : Static, st1.call thriceCall = some st2 ∧ st2.items = some b ∧
      st2.heap = ⟨sixthFails, 6, b.id :: st1.heap.freed, 1⟩ ∧ st2.opened = 2 := by
    refine ⟨_, hcall2, rfl, ?_, congrArg (· + 1) hopened1⟩
    show Heap.mk st1.heap.succeeds (st1.heap.mallocs + 1 + 1 + 1) (b.id :: st1.heap.freed) st1.heap.closed = _
    rw [hsucc, hmallocs, hclosed1]
    rfl
  obtain ⟨st2, hcall2, hit2, hheap2, hopened2⟩ := hst2
  obtain ⟨st3, -, hcall3, -, -, -, -, -, -, hfreed3⟩ := thriceCall_reads st2 (by rw [hheap2]; rfl) (by rw [hheap2]; rfl)
    (by rw [hheap2]; rfl)
  have hfree1 : st1.heap.freed.count b.id = 0 := by
    rw [hfreed1, hid]
    rfl
  have hdangling : b.id ∈ st2.heap.freed := by
    rw [hheap2]
    exact List.mem_cons_self ..
  have hcall1 : step (some (boot sixthFails)) thriceCall = some st1 := hcall1
  refine ⟨st2, st3, b, ?_, fun hclean => (hclean.items b hit2).2.2.1 hdangling, by rw [hheap2], hopened2, hit2,
    hdangling, ?_, ?_⟩
  · simp only [run, List.foldl_cons, List.foldl_nil, hcall1]
    exact hcall2
  · simp only [run, List.foldl_cons, List.foldl_nil, hcall1]
    show step (st1.call thriceCall) thriceCall = some st3
    rw [hcall2]
    exact hcall3
  · rw [hfreed3, hit2, hheap2, freeItems_count]
    show [7].count b.id + ((b.id :: st1.heap.freed).count b.id + if b.id = b.id then 1 else 0) = 2
    rw [List.count_cons_self, hfree1, hid]
    rfl

end Keynjector.Firmware.KeyFile
