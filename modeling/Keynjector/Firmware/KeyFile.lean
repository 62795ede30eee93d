import Keynjector.Firmware.Main
import Keynjector.Opgp.Serves
import Keynjector.Opgp.RoundTrip
/-
# The key file (main.c:204-236)

`decrypt_file` reads the decrypted list into 1024 bytes of the heap and puts the NUL behind
what was read. A list of 1024 bytes or more is cut there, and its NUL is stored behind the
block (`decryptFile_kept`).

| here | there |
| --- | --- |
| `Block`        | memory from `malloc`, with the stores that missed it |
| `decryptFile`  | `decrypt_file`, from `f_open` on; `Firmware.decryptFile` is what the firmware sees of it |
| `KeptWhole`    | the block holds the whole list as a string |
| `keyCard`      | the card whose answers are those of `decrypt_file` |
-/

namespace Keynjector.Firmware.KeyFile

open Ui Opgp Readers

/-! ## Memory -/

structure Block where
  id : Nat
  bytes : List UInt8
  /-- offsets and bytes of stores outside the block -/
  outside : List (Nat × UInt8)
deriving DecidableEq, Repr

/-- `buf[i] = c` -/
def Block.store (b : Block) (i : Nat) (c : UInt8) : Block :=
  if i < b.bytes.length then { b with bytes := b.bytes.set i c } else { b with outside := b.outside ++ [(i, c)] }

/-- What a read stores from the offset `i` on. -/
def Block.fill (b : Block) (i : Nat) : List UInt8 → Block
  | [] => b
  | c :: cs => (b.store i c).fill (i + 1) cs

theorem Block.fill_inside (b : Block) {i : Nat} {cs : List UInt8} (h : i + cs.length ≤ b.bytes.length) :
    b.fill i cs = { b with bytes := b.bytes.take i ++ (cs ++ b.bytes.drop (i + cs.length)) } := by
  induction cs generalizing b i with
  | nil => simp [Block.fill]
  | cons c cs ih =>
    rw [List.length_cons] at h
    have hi : i < b.bytes.length := by omega
    have hstore : b.store i c = { b with bytes := b.bytes.set i c } := if_pos hi
    rw [Block.fill, hstore, ih _ (by rw [List.length_set]; omega)]
    have htake : (b.bytes.set i c).take (i + 1) = b.bytes.take i ++ [c] := by
      rw [List.take_add_one, List.take_set_of_le (Nat.le_refl i), List.getElem?_set_self hi]
      rfl
    have hdrop : (b.bytes.set i c).drop (i + 1 + cs.length) = b.bytes.drop (i + (cs.length + 1)) := by
      rw [List.drop_set_of_lt (by omega)]
      congr 1
      omega
    simp only [htake, hdrop, List.append_assoc, List.length_cons]
    rfl

/-! ## Decryption -/

def bufLen : Nat := 1024

/-- `decrypt_file`. The file is there if `f_open` finds it, and `memory` is what the new
block holds. The result is the returned flag with `items`; `none` is running out of packets. -/
def decryptFile (τ : Tinfl) (fuel packets : Nat) (file : Option Source) (passphrase : List UInt8)
    (memory : Nat → UInt8) (items : Option Block) (h : Heap) : Option (Bool × Option Block × Heap) :=
  match file with
  | none => some (false, items, h)
  | some file =>
    -- `mpgp_ff_sopen`
    match malloc h with
    | (none, h) => some (false, items, h)
    | (some _, h) =>
      (mpgpOpen fuel packets (τ := τ) (k := 0) file passphrase h).map fun
        | (none, h) => (false, items, h)
        | (some ⟨_, s⟩, h) =>
          let h := match items with
            | some b => free b.id h
            | none => h
          match malloc h with
          | (none, h) => (false, items, h)
          | (some id, h) =>
            let (bytesRead, s) := mpgpSread fuel s bufLen
            let buf := Block.fill ⟨id, (List.range bufLen).map memory, []⟩ 0 bytesRead
            let buf := buf.store bytesRead.length 0
            (true, some buf, sclose s h)

/-- The list `plain` is the string in the block, with its NUL inside. -/
structure KeptWhole (b : Block) (plain : List UInt8) : Prop where
  inside : b.outside = []
  terminated : b.bytes[plain.length]? = some 0
  text : cstr b.bytes = plain
  entries : ∀ es, Items es (cstr b.bytes) ↔ Items es plain

/-! ## What is stored -/

section

variable {τ : Tinfl} {fuel packets k : Nat} {file : Source} {passphrase plain : List UInt8} {memory : Nat → UInt8}
  {items items' : Option Block} {h h1 h' : Heap} {s : Chain τ k}

/-- The block after the read and the store of the NUL. -/
def stored (id : Nat) (memory : Nat → UInt8) (bytesRead : List UInt8) : Block :=
  (Block.fill ⟨id, (List.range bufLen).map memory, []⟩ 0 bytesRead).store bytesRead.length 0

theorem malloc_good (hm : h.succeeds h.mallocs = true) :
    malloc h = (some h.mallocs, { h with mallocs := h.mallocs + 1 }) := by
  rw [malloc, if_pos hm]

@[simp] theorem malloc_mallocs (h : Heap) : (malloc h).2.mallocs = h.mallocs + 1 := rfl

@[simp] theorem malloc_succeeds (h : Heap) : (malloc h).2.succeeds = h.succeeds := rfl

@[simp] theorem malloc_freed (h : Heap) : (malloc h).2.freed = h.freed := rfl

@[simp] theorem malloc_closed (h : Heap) : (malloc h).2.closed = h.closed := rfl

theorem malloc_bad (hm : h.succeeds h.mallocs = false) : malloc h = (none, { h with mallocs := h.mallocs + 1 }) := by
  rw [malloc, if_neg (by rw [hm]; decide)]

/-- `free(items)` -/
def freeItems (items : Option Block) (h : Heap) : Heap :=
  match items with
  | some b => free b.id h
  | none => h

@[simp] theorem freeItems_succeeds (items : Option Block) (h : Heap) : (freeItems items h).succeeds = h.succeeds := by
  cases items <;> rfl

@[simp] theorem freeItems_mallocs (items : Option Block) (h : Heap) : (freeItems items h).mallocs = h.mallocs := by
  cases items <;> rfl

@[simp] theorem freeItems_closed (items : Option Block) (h : Heap) : (freeItems items h).closed = h.closed := by
  cases items <;> rfl

theorem freeItems_count (items : Option Block) (h : Heap) (id : Nat) :
    (freeItems items h).freed.count id = h.freed.count id + items.elim 0 fun b => if b.id = id then 1 else 0 := by
  cases items with
  | none => rfl
  | some b =>
    show List.count id (b.id :: h.freed) = _
    rw [List.count_cons]
    simp only [beq_iff_eq, Option.elim_some]

/-- When the file cannot be wrapped. -/
theorem decryptFile_notWrapped (hsrc : h.succeeds h.mallocs = false) :
    decryptFile τ fuel packets (some file) passphrase memory items h = some (false, items, (malloc h).2) := by
  unfold decryptFile
  rw [malloc_bad hsrc]

/-- What is done with the stream that `mpgp_open` returned. -/
def loadItems (fuel : Nat) (memory : Nat → UInt8) (items : Option Block) :
    Option ((k : Nat) × Chain τ k) × Heap → Bool × Option Block × Heap
  | (none, h) => (false, items, h)
  | (some ⟨_, s⟩, h) =>
    match malloc (freeItems items h) with
    | (none, h) => (false, items, h)
    | (some id, h) => (true, some (stored id memory (mpgpSread fuel s bufLen).1), sclose (mpgpSread fuel s bufLen).2 h)

/-- When the file is wrapped, the list comes from the stream that `mpgp_open` returns. -/
theorem decryptFile_wrapped (hsrc : h.succeeds h.mallocs = true) :
    decryptFile τ fuel packets (some file) passphrase memory items h =
      (mpgpOpen (τ := τ) fuel packets (k := 0) file passphrase (malloc h).2).map (loadItems fuel memory items) := by
  unfold decryptFile
  rw [malloc_good hsrc]
  refine congrArg (Option.map · _) (funext fun r => ?_)
  rcases r with ⟨_ | s, h1⟩ <;> rfl

/-- When `mpgp_open` does not return. -/
theorem decryptFile_busy (hsrc : h.succeeds h.mallocs = true)
    (hopen : mpgpOpen (τ := τ) fuel packets (k := 0) file passphrase (malloc h).2 = none) :
    decryptFile τ fuel packets (some file) passphrase memory items h = none := by
  rw [decryptFile_wrapped hsrc, hopen, Option.map_none]

/-- When `mpgp_open` returns `NULL`. -/
theorem decryptFile_notOpened (hsrc : h.succeeds h.mallocs = true)
    (hopen : mpgpOpen (τ := τ) fuel packets (k := 0) file passphrase (malloc h).2 = some (none, h1)) :
    decryptFile τ fuel packets (some file) passphrase memory items h = some (false, items, h1) := by
  rw [decryptFile_wrapped hsrc, hopen, Option.map_some, loadItems]

section

variable (hsrc : h.succeeds h.mallocs = true)
  (hopen : mpgpOpen fuel packets (k := 0) file passphrase (malloc h).2 = some (some ⟨k, s⟩, h1))

include hsrc hopen

/-- When there is no memory for the list. -/
theorem decryptFile_noBuffer (hbuf : h1.succeeds h1.mallocs = false) :
    decryptFile τ fuel packets (some file) passphrase memory items h =
      some (false, items, (malloc (freeItems items h1)).2) := by
  have hfree := malloc_bad (h := freeItems items h1) (by simpa using hbuf)
  simp only [decryptFile_wrapped hsrc, hopen, Option.map_some, loadItems, hfree]

/-- When there is. -/
theorem decryptFile_read (hbuf : h1.succeeds h1.mallocs = true) :
    decryptFile τ fuel packets (some file) passphrase memory items h =
      some (true, some (stored h1.mallocs memory (mpgpSread fuel s bufLen).1),
        sclose (mpgpSread fuel s bufLen).2 (malloc (freeItems items h1)).2) := by
  have hfree := malloc_good (h := freeItems items h1) (by simpa using hbuf)
  simp only [decryptFile_wrapped hsrc, hopen, Option.map_some, loadItems, hfree, freeItems_mallocs]

/-- When the message opens and there is memory for the list, the call succeeds. -/
theorem decryptFile_succeeds (hbuf : h1.succeeds h1.mallocs = true) :
    ∃ items' h', decryptFile τ fuel packets (some file) passphrase memory items h = some (true, items', h') :=
  ⟨_, _, decryptFile_read hsrc hopen hbuf⟩

end

theorem decryptFile_stored
    (hopen : mpgpOpen fuel packets (k := 0) file passphrase (malloc h).2 = some (some ⟨k, s⟩, h1))
    (hplain : (reader fuel k).Yields s plain)
    (hret : decryptFile τ fuel packets (some file) passphrase memory items h = some (true, items', h')) :
    ∃ id, items' = some (stored id memory (plain.take bufLen)) := by
  by_cases hsrc : h.succeeds h.mallocs = true
  swap
  · rw [decryptFile_notWrapped (by simpa using hsrc)] at hret
    cases hret
  by_cases hbuf : h1.succeeds h1.mallocs = true
  · rw [decryptFile_read hsrc hopen hbuf] at hret
    cases hret
    exact ⟨_, by rw [show (mpgpSread fuel s bufLen).1 = plain.take bufLen from hplain.read bufLen]⟩
  · rw [decryptFile_noBuffer hsrc hopen (by simpa using hbuf)] at hret
    cases hret

theorem stored_short (memory : Nat → UInt8) {bs : List UInt8} (id : Nat) (hlen : bs.length < bufLen) :
    ∃ rest, stored id memory bs = ⟨id, bs ++ 0 :: rest, []⟩ := by
  have hsize : ((List.range bufLen).map memory).length = bufLen := by rw [List.length_map, List.length_range]
  have hdrop : bs.length < ((List.range bufLen).map memory).length := by rwa [hsize]
  unfold stored
  rw [Block.fill_inside _ (by rw [hsize]; omega)]
  refine ⟨((List.range bufLen).map memory).drop (bs.length + 1), ?_⟩
  simp only [List.take_zero, List.nil_append, Nat.zero_add]
  rw [Block.store, if_pos (by rw [List.length_append, List.length_drop]; omega), List.drop_eq_getElem_cons hdrop]
  simp

theorem stored_long {bs : List UInt8} (id : Nat) (hlen : bs.length = bufLen) :
    stored id memory bs = ⟨id, bs, [(bufLen, 0)]⟩ := by
  have hsize : ((List.range bufLen).map memory).length = bufLen := by rw [List.length_map, List.length_range]
  unfold stored
  rw [Block.fill_inside _ (by rw [hsize, hlen, Nat.zero_add]),
    List.drop_eq_nil_of_le (by rw [hsize, hlen, Nat.zero_add])]
  simp only [List.take_zero, List.nil_append, List.append_nil]
  rw [Block.store, if_neg (by rw [hlen]; exact Nat.lt_irrefl _), hlen]
  rfl

/-- The string in the block is the list, cut at the length of the block. -/
theorem stored_text (hnul : 0 ∉ plain) (id : Nat) :
    cstr (stored id memory (plain.take bufLen)).bytes = plain.take bufLen := by
  have hcut : 0 ∉ plain.take bufLen := fun h0 => hnul (List.mem_of_mem_take h0)
  by_cases hlen : (plain.take bufLen).length < bufLen
  · obtain ⟨rest, hstored⟩ := stored_short memory id hlen
    rw [hstored]
    exact (cstr_append hcut (0 :: rest)).trans (List.append_nil _)
  · rw [stored_long id (Nat.le_antisymm (List.length_take_le ..) (Nat.le_of_not_lt hlen))]
    have hall := cstr_append hcut []
    rw [List.append_nil] at hall
    exact hall.trans (List.append_nil _)

/-- **The key list is stored whole**, when `decrypt_file` returns 1, exactly if it is shorter than the block. -/
theorem decryptFile_kept (hopen : mpgpOpen fuel packets (k := 0) file passphrase (malloc h).2 = some (some ⟨k, s⟩, h1))
    (hplain : (reader fuel k).Yields s plain) (hnul : 0 ∉ plain)
    (hret : decryptFile τ fuel packets (some file) passphrase memory items h = some (true, items', h')) :
    ∃ b, items' = some b ∧ (KeptWhole b plain ↔ plain.length < bufLen) := by
  obtain ⟨id, rfl⟩ := decryptFile_stored hopen hplain hret
  refine ⟨_, rfl, ?_⟩
  by_cases hlen : plain.length < bufLen
  · refine iff_of_true ?_ hlen
    have htext : cstr (stored id memory (plain.take bufLen)).bytes = plain.take bufLen := stored_text hnul id
    rw [List.take_of_length_le (Nat.le_of_lt hlen)] at htext ⊢
    obtain ⟨rest, hstored⟩ := stored_short memory id hlen
    refine ⟨by rw [hstored], ?_, htext, fun es => by rw [htext]⟩
    rw [hstored]
    show (plain ++ 0 :: rest)[plain.length]? = some 0
    rw [List.getElem?_append_right (Nat.le_refl _), Nat.sub_self]
    rfl
  · refine iff_of_false (fun hkept => ?_) hlen
    have hcut : (plain.take bufLen).length = bufLen := by
      rw [List.length_take]
      omega
    have := hkept.inside
    rw [stored_long id hcut] at this
    cases this

/-- The card as the rest of the firmware sees it. -/
def keyCard (τ : Tinfl) (fuel packets : Nat) (file : Option Source) (memory : Nat → UInt8) (items : Option Block)
    (h : Heap) : Card where
  valid := true
  fileExists := file.isSome
  decrypt passphrase :=
    match decryptFile τ fuel packets file passphrase memory items h with
    | some (true, some b, _) => some (cstr b.bytes)
    | _ => none

/-- What the firmware takes for its key list. -/
theorem keyCard_items {fw : Fw}
    (hopen : mpgpOpen fuel packets (k := 0) file (cstr fw.ui.mem.passphrase) (malloc h).2 = some (some ⟨k, s⟩, h1))
    (hplain : (reader fuel k).Yields s plain) (hnul : 0 ∉ plain)
    (hret : decryptFile τ fuel packets (some file) (cstr fw.ui.mem.passphrase) memory items h =
      some (true, items', h')) :
    Firmware.decryptFile (keyCard τ fuel packets (some file) memory items h) fw =
      ({ fw with items := some (plain.take bufLen) }.emit (.decrypt (cstr fw.ui.mem.passphrase) true), true) := by
  obtain ⟨id, rfl⟩ := decryptFile_stored hopen hplain hret
  have hcard : (keyCard τ fuel packets (some file) memory items h).decrypt (cstr fw.ui.mem.passphrase) =
      some (plain.take bufLen) := by
    unfold keyCard
    dsimp only
    rw [hret]
    dsimp only
    rw [stored_text hnul]
  unfold Firmware.decryptFile
  dsimp only
  rw [hcard]

end

/-! ## Key files of one entry, not encrypted -/

theorem sampleEntry_key : Scan.All inLbxKeyCharset [0x61] := by
  intro c hc
  rw [List.mem_singleton.1 hc]
  decide +kernel

theorem sampleEntry_tabs : Scan.All isTab [9] := by
  intro c hc
  rw [List.mem_singleton.1 hc]
  rfl

theorem sampleEntry_value (n : Nat) : Scan.All inLbxValueCharset (List.replicate n 0x41) := by
  intro c hc
  rw [List.eq_of_mem_replicate hc]
  decide +kernel

theorem sampleEntry_key_ne : [(0x61 : UInt8)] ≠ [] := List.cons_ne_nil _ _

theorem sampleEntry_tabs_ne : [(9 : UInt8)] ≠ [] := List.cons_ne_nil _ _

theorem sampleEntry_value_ne {n : Nat} (h : 0 < n) : List.replicate n (0x41 : UInt8) ≠ [] :=
  fun hnil => Nat.ne_of_gt h ((List.replicate_eq_nil_iff _).1 hnil)

theorem sampleEntry_ends : Scan.All isLineEnd [] := fun _ hc => absurd hc List.not_mem_nil

/-- An entry with a value of `n` letters. -/
def sampleEntry (n : Nat) (h : 0 < n) : Entry where
  key := [0x61]
  tabs := [9]
  value := List.replicate n 0x41
  ends := []
  key_ne := sampleEntry_key_ne
  tabs_ne := sampleEntry_tabs_ne
  value_ne := sampleEntry_value_ne h
  key_all := sampleEntry_key
  tabs_all := sampleEntry_tabs
  value_all := sampleEntry_value n
  ends_all := sampleEntry_ends

def sampleList (n : Nat) : List UInt8 := 0x61 :: 9 :: List.replicate n 0x41

/-- The list in a literal packet. -/
def sampleFile (n : Nat) : Source :=
  ⟨packet .old2 LITERAL_TAG (literalBody [] [0, 0, 0, 0] (sampleList n)), false, false⟩

theorem sampleList_nul (n : Nat) : 0 ∉ sampleList n := by
  unfold sampleList
  simp

theorem sampleList_items {n : Nat} (h : 0 < n) : Items [sampleEntry n h] (sampleList n) := by
  have hitems : Items [sampleEntry n h] ((sampleEntry n h).text ++ []) := .cons _ (.nil rfl) fun _ => rfl
  simpa [Entry.text, sampleEntry, sampleList] using hitems

theorem sampleFile_opens {n : Nat} (hn : n < 2 ^ 15) :
    ∃ (s : Chain noTinfl 1) (h1 h' : Heap) (items' : Option Block),
      mpgpOpen 0 1 (k := 0) (sampleFile n) [] (malloc goodHeap).2 = some (some ⟨1, s⟩, h1) ∧
      (reader 0 1).Yields s (sampleList n) ∧
      decryptFile noTinfl 0 1 (some (sampleFile n)) [] (fun _ => 0xff) none goodHeap = some (true, items', h') := by
  have hlen : (literalBody [] [0, 0, 0, 0] (sampleList n)).length = n + 8 := by
    simp [literalBody, sampleList]
  have hfits : LenForm.old2.Fits LITERAL_TAG (literalBody [] [0, 0, 0, 0] (sampleList n)).length := by
    rw [hlen]
    exact ⟨by decide, by omega⟩
  have hplain : Plain (τ := noTinfl) (k := 0) (sampleFile n) := ⟨rfl, rfl⟩
  have hlit : ∃ (s : Chain noTinfl 1) (h1 : Heap), mpgpOpenR 0 1 (k := 0) (sampleFile n) [] [] ⟨0, 0, false⟩
      (malloc goodHeap).2 = some (some ⟨1, s⟩, [], h1) ∧ content s = sampleList n ∧ Plain s ∧
        h1.succeeds = (malloc goodHeap).2.succeeds :=
    openR_literal 0 _ hplain hfits (by decide) rfl rfl _ (fun _ => rfl) 0
  obtain ⟨s, h1, hopenR, hs, hp, hgood⟩ := hlit
  have hopen : mpgpOpen 0 1 (k := 0) (sampleFile n) [] (malloc goodHeap).2 = some (some ⟨1, s⟩, h1) := by
    unfold mpgpOpen
    rw [hopenR]
    rfl
  have hbuf : h1.succeeds h1.mallocs = true := by
    rw [hgood]
    rfl
  have hsucceeds : ∃ items' h', decryptFile noTinfl 0 1 (some (sampleFile n)) [] (fun _ => 0xff) none goodHeap =
      some (true, items', h') := decryptFile_succeeds rfl hopen hbuf
  obtain ⟨items', h', hret⟩ := hsucceeds
  exact ⟨s, h1, h', items', hopen, hs ▸ hp.serves.bytes, hret⟩

theorem decryptFile_kept_sample : ∃ b h',
    decryptFile noTinfl 0 1 (some (sampleFile 2)) [] (fun _ => 0xff) none goodHeap = some (true, some b, h') ∧
    KeptWhole b (sampleList 2) := by
  obtain ⟨s, h1, h', items', hopen, hyields, hret⟩ := sampleFile_opens (n := 2) (by decide)
  obtain ⟨b, rfl, hiff⟩ := decryptFile_kept hopen hyields (sampleList_nul 2) hret
  exact ⟨b, h', hret, hiff.2 (by decide)⟩

/-- A value of 1023 letters is shown and typed without its last one, and the NUL is stored behind the block. -/
theorem decryptFile_cuts_sample : ∃ b h',
    decryptFile noTinfl 0 1 (some (sampleFile 1023)) [] (fun _ => 0xff) none goodHeap = some (true, some b, h') ∧
    Items [sampleEntry 1023 (by decide)] (sampleList 1023) ∧ Items [sampleEntry 1022 (by decide)] (cstr b.bytes) ∧
    b.outside = [(1024, 0)] ∧ ¬ KeptWhole b (sampleList 1023) := by
  obtain ⟨s, h1, h', items', hopen, hyields, hret⟩ := sampleFile_opens (n := 1023) (by decide)
  obtain ⟨id, rfl⟩ := decryptFile_stored hopen hyields hret
  have hcut : (sampleList 1023).take bufLen = sampleList 1022 := by
    rw [sampleList, show bufLen = 1022 + 1 + 1 from rfl, List.take_succ_cons, List.take_succ_cons, List.take_replicate,
      Nat.min_eq_left (by decide), sampleList]
  have hlen : ((sampleList 1023).take bufLen).length = bufLen := by
    rw [hcut, sampleList, List.length_cons, List.length_cons, List.length_replicate]
    rfl
  have hout : (stored id (fun _ => 0xff) ((sampleList 1023).take bufLen)).outside = [(1024, 0)] := by
    rw [stored_long id hlen]
    rfl
  refine ⟨_, h', hret, sampleList_items _, ?_, hout, fun hkept => ?_⟩
  · rw [stored_text (sampleList_nul _), hcut]
    exact sampleList_items _
  · rw [hkept.inside] at hout
    cases hout

end Keynjector.Firmware.KeyFile
