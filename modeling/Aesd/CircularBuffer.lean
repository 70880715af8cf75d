import Aesd.Kernel
import Aesd.Library.SlotRing
import Aesd.Library.Word

/-! The ring of the ten most recent commands, from aesd-circular-buffer.c. The
constant `AESDCHAR_MAX_WRITE_OPERATIONS_SUPPORTED` is written 10. A `size_t` is a natural
number, reduced modulo `2 ^ 64` wherever the source adds or subtracts sizes of several
entries; `in_offs` and `out_offs` are eight-bit counters. -/
namespace Aesd
open Memory

structure AesdBufferEntry where
  buffptr : Ptr
  size : ℕ
  deriving DecidableEq, Repr

def AesdBufferEntry.zero : AesdBufferEntry := ⟨.null, 0⟩

structure AesdCircularBuffer where
  entry : Vector AesdBufferEntry 10
  inOffs : ℕ
  outOffs : ℕ
  full : Bool
  deriving DecidableEq, Repr

def aesdCircularBufferInit : AesdCircularBuffer :=
  ⟨Vector.replicate 10 .zero, 0, 0, false⟩

namespace AesdCircularBuffer

def entryAt (b : AesdCircularBuffer) (i : ℕ) : AesdBufferEntry := b.entry[i]?.getD .zero

end AesdCircularBuffer

/-- The second component is the pointer the caller must free, `NULL` when there is none. -/
def aesdCircularBufferAddEntry (b : AesdCircularBuffer) (e : AesdBufferEntry) :
    AesdCircularBuffer × Ptr :=
  let oldbufferptr := (b.entryAt b.inOffs).buffptr
  let needFreed := oldbufferptr ≠ .null
  let entry := b.entry.setIfInBounds b.inOffs e
  let outOffs :=
    if b.inOffs = b.outOffs ∧ b.full then
      let next := (b.outOffs + 1) % 256
      if next = 10 then 0 else next
    else b.outOffs
  let next := (b.inOffs + 1) % 256
  let inOffs := if next = 10 then 0 else next
  let full := if next = 10 then true else b.full
  (⟨entry, inOffs, outOffs, full⟩, if needFreed then oldbufferptr else .null)

def getLengthOfAllEntriesInBuffer (b : AesdCircularBuffer) : ℕ :=
  b.entry.toList.foldl (fun total e => (total + e.size) % 2 ^ 64) 0

/-- The `while` loop of the offset search. The answer is the slot and the offset within it. -/
def findLoop (b : AesdCircularBuffer) (charOffset : ℕ) :
    ℕ → ℕ → ℕ → Bool → Except Stop (Option (ℕ × ℕ))
  | 0, _, _, _ => .error .spins
  | fuel + 1, bufferoutpos, searched, firstRun =>
    if b.inOffs ≠ bufferoutpos ∨ firstRun then
      let size := (b.entryAt bufferoutpos).size
      let reached := (searched + size) % 2 ^ 64
      if reached > charOffset then
        let before := Word.unsigned 64 ((reached : ℤ) - size)
        .ok (some (bufferoutpos, Word.unsigned 64 ((charOffset : ℤ) - before)))
      else
        findLoop b charOffset fuel
          (if bufferoutpos + 1 ≠ 10 then bufferoutpos + 1 else 0) reached false
    else .ok none

def aesdCircularBufferFindEntryOffsetForFpos (b : AesdCircularBuffer) (charOffset : ℕ) :
    Except Stop (Option (ℕ × ℕ)) :=
  findLoop b charOffset 11 b.outOffs 0 true

namespace AesdCircularBuffer

/-- Number of retained entries. -/
def count (b : AesdCircularBuffer) : ℕ := if b.full then 10 else b.inOffs

/-- The retained entries, oldest first. -/
def entries (b : AesdCircularBuffer) : List AesdBufferEntry :=
  SlotRing.walk 10 b.entryAt b.outOffs b.count

/-- What holds of every buffer built by additions: both offsets are slots, a full buffer
writes where it reads, and a buffer still filling starts at slot 0 and is blank beyond. -/
structure Valid (b : AesdCircularBuffer) : Prop where
  in_lt : b.inOffs < 10
  out_lt : b.outOffs < 10
  wrapped : b.full = true → b.inOffs = b.outOffs
  filling : b.full = false → b.outOffs = 0
  blank : b.full = false → ∀ i, b.inOffs ≤ i → b.entryAt i = .zero

lemma entryAt_set (b : AesdCircularBuffer) {j : ℕ} (e : AesdBufferEntry) (i o : ℕ) (f : Bool)
    (hj : j < 10) :
    entryAt ⟨b.entry.setIfInBounds j e, i, o, f⟩ = Function.update b.entryAt j e := by
  funext k
  unfold entryAt
  rw [Vector.getElem?_setIfInBounds, Function.update_apply]
  split_ifs with h1 h2 <;> first | rfl | omega

lemma init_valid : aesdCircularBufferInit.Valid := by
  refine ⟨by decide, by decide, by decide, fun _ => rfl, fun _ i _ => ?_⟩
  simp only [aesdCircularBufferInit, entryAt, Vector.getElem?_replicate]
  split_ifs <;> rfl

lemma count_le {b : AesdCircularBuffer} (hb : b.Valid) : b.count ≤ 10 := by
  have h := hb.in_lt
  unfold count
  split_ifs <;> omega

/-- The buffer seen as a ring of bounded length. -/
def toRing (b : AesdCircularBuffer) (hb : b.Valid) :
    SlotRing AesdBufferEntry 10 :=
  ⟨b.entryAt, b.outOffs, b.count, hb.out_lt, count_le hb⟩

lemma toRing_contents {b : AesdCircularBuffer} (hb : b.Valid) :
    (b.toRing hb).contents = b.entries := rfl

lemma toList_eq_walk (b : AesdCircularBuffer) :
    b.entry.toList = SlotRing.walk 10 b.entryAt 0 10 := by
  apply List.ext_getElem
  · simp
  · intro i hi _
    have hlt : i < 10 := by simpa using hi
    simp [SlotRing.walk_getElem, entryAt, Nat.mod_eq_of_lt hlt, hlt]

lemma walk_blank (b : AesdCircularBuffer) {start n : ℕ}
    (h : ∀ k < n, b.entryAt ((start + k) % 10) = .zero) :
    SlotRing.walk 10 b.entryAt start n = List.replicate n .zero := by
  have hz : SlotRing.walk 10 b.entryAt start n = SlotRing.walk 10 (fun _ => .zero) start n :=
    SlotRing.walk_congr h
  rw [hz]
  simp [SlotRing.walk]

/-- The slots hold the retained entries, and blanks. -/
lemma slots_perm {b : AesdCircularBuffer} (hb : b.Valid) :
    ∃ n, b.entry.toList.Perm (b.entries ++ List.replicate n .zero) := by
  have hin := hb.in_lt
  rw [toList_eq_walk, entries, count]
  cases hf : b.full with
  | true =>
    refine ⟨0, ?_⟩
    rw [List.replicate_zero, List.append_nil]
    exact (SlotRing.walk_turn b.entryAt hb.out_lt).symm
  | false =>
    refine ⟨10 - b.inOffs, ?_⟩
    have hblank : SlotRing.walk 10 b.entryAt b.inOffs (10 - b.inOffs) = _ :=
      walk_blank b fun k hk => hb.blank hf _ (by omega)
    have hsplit := SlotRing.walk_add 10 b.entryAt 0 b.inOffs (10 - b.inOffs)
    rw [Nat.add_sub_cancel' hin.le, Nat.zero_add, Nat.mod_eq_of_lt hin, hblank] at hsplit
    rw [hsplit, hb.filling hf]
    exact .refl _

/-- What one addition stores and where both offsets go, for a buffer built by additions. -/
lemma add_eq {b : AesdCircularBuffer} (hb : b.Valid) (e : AesdBufferEntry) :
    aesdCircularBufferAddEntry b e =
      (⟨b.entry.setIfInBounds b.inOffs e, (b.inOffs + 1) % 10,
        if b.full then (b.outOffs + 1) % 10 else b.outOffs,
        b.full || decide (b.inOffs + 1 = 10)⟩,
      (b.entryAt b.inOffs).buffptr) := by
  have hin := hb.in_lt
  have hout := hb.out_lt
  have hwrap : (b.inOffs = b.outOffs ∧ b.full = true) ↔ b.full = true :=
    ⟨And.right, fun hf => ⟨hb.wrapped hf, hf⟩⟩
  have hi : (b.inOffs + 1) % 256 = b.inOffs + 1 := by omega
  have ho : (b.outOffs + 1) % 256 = b.outOffs + 1 := by omega
  unfold aesdCircularBufferAddEntry
  simp only [hwrap, hi, ho]
  congr 1
  · congr 1
    · split_ifs <;> omega
    · split_ifs <;> omega
    · split_ifs with hlast <;> simp [hlast]
  · split_ifs with hnull
    · rfl
    · rw [not_not.mp hnull]

lemma add_valid {b : AesdCircularBuffer} (hb : b.Valid) (e : AesdBufferEntry) :
    (aesdCircularBufferAddEntry b e).1.Valid := by
  have hin := hb.in_lt
  have hout := hb.out_lt
  rw [add_eq hb]
  cases hf : b.full with
  | true =>
    have hw := hb.wrapped hf
    exact ⟨Nat.mod_lt _ (by omega), Nat.mod_lt _ (by omega), fun _ => by simp [hw], by simp,
      by simp⟩
  | false =>
    have hz := hb.filling hf
    refine ⟨Nat.mod_lt _ (by omega), by simpa using hout, ?_, fun _ => by simpa using hz, ?_⟩
    · intro hfull
      have hlast : b.inOffs + 1 = 10 := by simpa using hfull
      simp [hlast, hz]
    · intro hroom i hi
      have hlast : b.inOffs + 1 ≠ 10 := by simpa using hroom
      have hmod : (b.inOffs + 1) % 10 = b.inOffs + 1 := by omega
      have hle : b.inOffs + 1 ≤ i := by simpa only [hmod] using hi
      rw [entryAt_set b e _ _ _ hin, Function.update_of_ne (by omega)]
      exact hb.blank hf i (by omega)

/-- The source's two offsets and flag do what the ring of bounded length does. -/
theorem add_toRing {b : AesdCircularBuffer} (hb : b.Valid) (e : AesdBufferEntry) :
    (aesdCircularBufferAddEntry b e).1.toRing (add_valid hb e) = (b.toRing hb).push e := by
  have hin := hb.in_lt
  have hout := hb.out_lt
  have hslot := fun o f => entryAt_set b e ((b.inOffs + 1) % 10) o f hin
  cases hf : b.full with
  | true =>
    have hw := hb.wrapped hf
    simp only [toRing, SlotRing.push, count, hf, if_true, lt_irrefl, dif_neg, not_false_eq_true]
    simp only [add_eq hb, hf, hslot, Bool.true_or, if_true, hw.symm]
  | false =>
    have hz := hb.filling hf
    simp only [toRing, SlotRing.push, count, hf, Bool.false_eq_true, if_false, hin, dif_pos]
    simp only [add_eq hb, hf, hslot, Bool.false_or, Bool.false_eq_true, if_false, hz,
      Nat.zero_add, Nat.mod_eq_of_lt hin, SlotRing.mk.injEq, true_and]
    split_ifs with hlast
    · simpa using hlast.symm
    · have hne : b.inOffs + 1 ≠ 10 := by simpa using hlast
      omega

lemma add_entries {b : AesdCircularBuffer} (hb : b.Valid) (e : AesdBufferEntry) :
    (aesdCircularBufferAddEntry b e).1.entries = (b.entries ++ [e]).rtake 10 := by
  rw [← toRing_contents (add_valid hb e), add_toRing hb, SlotRing.contents_push, toRing_contents]

lemma entries_length (b : AesdCircularBuffer) : b.entries.length = b.count := by
  simp [entries]

lemma entries_getElem {b : AesdCircularBuffer} {k : ℕ} (hk : k < b.entries.length) :
    b.entries[k] = b.entryAt ((b.outOffs + k) % 10) := by
  simp [entries, SlotRing.walk_getElem]

/-- The pointer handed back is that of the entry dropped. -/
lemma add_evicts {b : AesdCircularBuffer} (hb : b.Valid) (e : AesdBufferEntry) :
    (aesdCircularBufferAddEntry b e).2 =
      if b.entries.length < 10 then .null
      else (b.entries.head?.getD .zero).buffptr := by
  rw [add_eq hb, entries_length]
  have hin := hb.in_lt
  cases hf : b.full with
  | true =>
    have hhead : b.entries.head? = some (b.entryAt b.outOffs) := by
      rw [entries, count, hf, if_pos rfl, SlotRing.walk_cons, Nat.mod_eq_of_lt hb.out_lt]
      rfl
    simp [count, hf, hhead, hb.wrapped hf]
  | false => simp [count, hf, hin, hb.blank hf b.inOffs le_rfl, AesdBufferEntry.zero]

/-- A history of additions, oldest first. -/
def addAll (b : AesdCircularBuffer) (es : List AesdBufferEntry) : AesdCircularBuffer :=
  es.foldl (fun b e => (aesdCircularBufferAddEntry b e).1) b

lemma addAll_snoc (b : AesdCircularBuffer) (es : List AesdBufferEntry) (e : AesdBufferEntry) :
    b.addAll (es ++ [e]) = (aesdCircularBufferAddEntry (b.addAll es) e).1 := by
  simp [addAll]

lemma addAll_valid {b : AesdCircularBuffer} (hb : b.Valid) (es : List AesdBufferEntry) :
    (b.addAll es).Valid := by
  induction es using List.reverseRecOn with
  | nil => exact hb
  | append_singleton es e ih => exact addAll_snoc b es e ▸ add_valid ih e

lemma addAll_entries (es : List AesdBufferEntry) :
    (aesdCircularBufferInit.addAll es).entries = es.rtake 10 := by
  induction es using List.reverseRecOn with
  | nil => rfl
  | append_singleton es e ih =>
    rw [addAll_snoc, add_entries (addAll_valid init_valid es), ih, SlotRing.rtake_append_rtake]

lemma addAll_full (es : List AesdBufferEntry) :
    (aesdCircularBufferInit.addAll es).full = decide (10 ≤ es.length) := by
  induction es using List.reverseRecOn with
  | nil => rfl
  | append_singleton es e ih =>
    have hv := addAll_valid init_valid es
    have hlen : (aesdCircularBufferInit.addAll es).entries.length =
        (es.rtake 10).length := by rw [addAll_entries]
    rw [addAll_snoc, add_eq hv]
    simp only [ih, List.length_append, List.length_singleton]
    rw [entries_length, count, ih] at hlen
    simp only [List.rtake, List.length_drop, decide_eq_true_eq] at hlen
    split_ifs at hlen with hfull <;> simp [hfull] <;> omega

/-- The circular buffer is a queue of the ten newest entries. -/
theorem addAll_refines_bounded_queue (es : List AesdBufferEntry) :
    let b := aesdCircularBufferInit.addAll es
    b.inOffs < 10 ∧ b.outOffs < 10 ∧ (b.full = true ↔ 10 ≤ es.length) ∧
      SlotRing.walk 10 b.entryAt b.outOffs (min es.length 10) =
        es.drop (es.length - min es.length 10) ∧
      (∀ k, min es.length 10 ≤ k → k < 10 → b.entryAt ((b.outOffs + k) % 10) = .zero) ∧
      ∀ e, (aesdCircularBufferAddEntry b e).2 =
        if es.length + 1 ≤ 10 then .null else (es[es.length - 10]?.getD .zero).buffptr := by
  intro b
  have hv : b.Valid := addAll_valid init_valid es
  have hfull : b.full = decide (10 ≤ es.length) := addAll_full es
  have hent : b.entries = es.rtake 10 := addAll_entries es
  have hcount : b.count = min es.length 10 := by
    rw [← entries_length, hent, List.rtake, List.length_drop]
    omega
  refine ⟨hv.in_lt, hv.out_lt, by simp [hfull], ?_, ?_, ?_⟩
  · rw [← hcount, hcount, show es.length - min es.length 10 = es.length - 10 by omega]
    rw [← hcount]
    exact hent
  · intro k hk hk10
    have hroom : b.full = false := by simp [hfull]; omega
    have hin : b.inOffs ≤ k := by
      rw [← hcount] at hk
      simpa [count, hroom] using hk
    rw [hv.filling hroom, Nat.zero_add, Nat.mod_eq_of_lt hk10]
    exact hv.blank hroom k hin
  · intro e
    rw [add_evicts hv, entries_length, hcount, hent]
    by_cases hn : es.length < 10
    · rw [if_pos (by omega), if_pos (by omega)]
    · rw [if_neg (by omega), if_neg (by omega), List.rtake, List.head?_drop]

end AesdCircularBuffer

end Aesd
