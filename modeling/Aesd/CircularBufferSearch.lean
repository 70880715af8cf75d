import Aesd.CircularBuffer

/-! The offset search and the total length, for every buffer built by additions. The
search is a walk from `out_offs` that treats equal offsets as a full turn on its first
iteration; it finds what a lookup in the concatenated entries finds. -/
namespace Aesd.AesdCircularBuffer
open Memory

/-- Sizes of the retained entries, oldest first. -/
def sizes (b : AesdCircularBuffer) : List ℕ := b.entries.map AesdBufferEntry.size

/-- The loop from a slot that lies `n` steps before `in_offs`. A full turn happens only on
the first iteration and an empty walk only on a later one. -/
lemma findLoop_walk (b : AesdCircularBuffer) {charOffset : ℕ} (n : ℕ) :
    ∀ (fuel pos searched : ℕ) (firstRun : Bool), n < fuel → pos < 10 →
      b.inOffs = (pos + n) % 10 → n ≤ 10 → (n = 10 → firstRun = true) →
      (n = 0 → firstRun = false) → searched ≤ charOffset → charOffset < 2 ^ 64 →
      searched + ((SlotRing.walk 10 b.entryAt pos n).map AesdBufferEntry.size).sum < 2 ^ 64 →
      findLoop b charOffset fuel pos searched firstRun =
        .ok ((locate ((SlotRing.walk 10 b.entryAt pos n).map AesdBufferEntry.size)
          (charOffset - searched)).map fun p => ((pos + p.1) % 10, p.2)) := by
  induction n with
  | zero =>
    intro fuel pos searched firstRun hfuel hpos hin _ _ hz _ _ _
    obtain ⟨fuel, rfl⟩ : ∃ f, fuel = f + 1 := ⟨fuel - 1, by omega⟩
    have hstop : b.inOffs = pos := by rw [hin]; omega
    simp [findLoop, hstop, hz rfl, locate]
  | succ n ih =>
    intro fuel pos searched firstRun hfuel hpos hin hn hten _ hle hoff hsum
    obtain ⟨fuel, rfl⟩ : ∃ f, fuel = f + 1 := ⟨fuel - 1, by omega⟩
    have hgo : b.inOffs ≠ pos ∨ firstRun = true := by
      by_cases h10 : n + 1 = 10
      · exact Or.inr (hten h10)
      · exact Or.inl (by omega)
    rw [SlotRing.walk_cons, List.map_cons, Nat.mod_eq_of_lt hpos] at hsum ⊢
    rw [List.sum_cons] at hsum
    have hreach : (searched + (b.entryAt pos).size) % 2 ^ 64 =
        searched + (b.entryAt pos).size := Nat.mod_eq_of_lt (by omega)
    simp only [findLoop, hgo, if_true, hreach, locate]
    by_cases hfound : searched + (b.entryAt pos).size > charOffset
    · have hbefore : Word.unsigned 64
          (((searched + (b.entryAt pos).size : ℕ) : ℤ) - (b.entryAt pos).size) = searched := by
        rw [show (((searched + (b.entryAt pos).size : ℕ) : ℤ) - (b.entryAt pos).size) =
          (searched : ℤ) by push_cast; ring]
        exact Word.unsigned_natCast (by omega)
      have hoffset : Word.unsigned 64 ((charOffset : ℤ) - searched) = charOffset - searched := by
        rw [show (charOffset : ℤ) - searched = ((charOffset - searched : ℕ) : ℤ) by omega]
        exact Word.unsigned_natCast (by omega)
      rw [if_pos hfound, if_pos (by omega), hbefore, hoffset]
      simp [Nat.mod_eq_of_lt hpos]
    · have hnext : (if pos + 1 ≠ 10 then pos + 1 else 0) = (pos + 1) % 10 := by
        split_ifs <;> omega
      rw [hnext, if_neg hfound, if_neg (by omega)]
      rw [ih fuel ((pos + 1) % 10) _ false (by omega) (Nat.mod_lt _ (by omega))
        (by rw [hin]; omega) (by omega) (by omega) (fun _ => rfl) (by omega) hoff (by omega)]
      rw [Nat.sub_add_eq, Option.map_map]
      congr 1
      apply Option.map_congr
      intro p _
      simp only [Function.comp_apply, Prod.mk.injEq, and_true]
      omega

theorem find_eq {b : AesdCircularBuffer} (hb : b.Valid) {charOffset : ℕ}
    (hoff : charOffset < 2 ^ 64) (hsum : b.sizes.sum < 2 ^ 64) :
    aesdCircularBufferFindEntryOffsetForFpos b charOffset =
      .ok ((locate b.sizes charOffset).map fun p => ((b.outOffs + p.1) % 10, p.2)) := by
  have hin := hb.in_lt
  have hout := hb.out_lt
  unfold aesdCircularBufferFindEntryOffsetForFpos
  by_cases hempty : b.count = 0
  · have hroom : b.full = false := by
      cases hf : b.full with
      | false => rfl
      | true => simp [count, hf] at hempty
    have hzero : b.inOffs = 0 := by simpa [count, hroom] using hempty
    have hblank : ((SlotRing.walk 10 b.entryAt b.outOffs 10).map AesdBufferEntry.size).sum = 0 := by
      rw [walk_blank b fun k _ => hb.blank hroom _ (by omega)]
      simp [AesdBufferEntry.zero]
    have hnone : locate ((SlotRing.walk 10 b.entryAt b.outOffs 10).map AesdBufferEntry.size)
        charOffset = none := locate_eq_none.mpr (by omega)
    rw [findLoop_walk b 10 11 b.outOffs 0 true (by omega) hout
      (by rw [hzero, hb.filling hroom]) le_rfl (fun _ => rfl) (by omega) (by omega) hoff (by omega)]
    simp [hnone, sizes, entries, hempty, locate]
  · have hlast : b.inOffs = (b.outOffs + b.count) % 10 := by
      cases hf : b.full with
      | true =>
        simp only [count, hf, if_true]
        rw [hb.wrapped hf]
        omega
      | false =>
        simp only [count, hf, Bool.false_eq_true, if_false]
        rw [hb.filling hf]
        omega
    have hle := count_le hb
    rw [findLoop_walk b b.count 11 b.outOffs 0 true (by omega) hout hlast hle (fun _ => rfl)
      (fun h => absurd h hempty) (by omega) hoff (by rwa [Nat.zero_add])]
    rfl

lemma foldl_size (es : List AesdBufferEntry) (t : ℕ) (ht : t < 2 ^ 64) :
    es.foldl (fun total e => (total + e.size) % 2 ^ 64) t =
      (t + (es.map AesdBufferEntry.size).sum) % 2 ^ 64 := by
  induction es generalizing t with
  | nil => exact (Nat.mod_eq_of_lt ht).symm
  | cons e es ih =>
    rw [List.foldl_cons, ih _ (Nat.mod_lt _ (by positivity)), List.map_cons, List.sum_cons,
      Nat.mod_add_mod, Nat.add_assoc]

theorem getLength_eq {b : AesdCircularBuffer} (hb : b.Valid) :
    getLengthOfAllEntriesInBuffer b = b.sizes.sum % 2 ^ 64 := by
  obtain ⟨n, hperm⟩ := slots_perm hb
  have hsum := (hperm.map AesdBufferEntry.size).sum_eq
  rw [List.map_append, List.sum_append, List.map_replicate, List.sum_replicate,
    show AesdBufferEntry.zero.size = 0 from rfl, smul_zero, Nat.add_zero] at hsum
  rw [getLengthOfAllEntriesInBuffer, foldl_size _ _ (by positivity), Nat.zero_add, hsum]
  rfl

lemma findLoop_nonempty {b : AesdCircularBuffer} {charOffset fuel pos searched i o : ℕ}
    {firstRun : Bool} (hpos : pos < 10) (hle : searched ≤ charOffset)
    (h : findLoop b charOffset fuel pos searched firstRun = .ok (some (i, o))) :
    i < 10 ∧ (b.entryAt i).size ≠ 0 := by
  induction fuel generalizing pos searched firstRun with
  | zero => simp [findLoop] at h
  | succ fuel ih =>
    simp only [findLoop] at h
    split_ifs at h with hgo hfound hnext
    · simp only [Except.ok.injEq, Option.some.injEq, Prod.mk.injEq] at h
      obtain ⟨rfl, -⟩ := h
      refine ⟨hpos, fun hz => ?_⟩
      rw [hz, Nat.add_zero] at hfound
      have hmod := Nat.mod_le searched (2 ^ 64)
      omega
    · exact ih (by omega) (not_lt.mp hfound) h
    · exact ih (by omega) (not_lt.mp hfound) h
    · simp at h

/-- A slot that is not empty holds a retained entry. -/
lemma retained_of_nonempty {b : AesdCircularBuffer} (hb : b.Valid) {i : ℕ} (hi : i < 10)
    (hsize : (b.entryAt i).size ≠ 0) :
    b.entries[(i + 10 - b.outOffs) % 10]? = some (b.entryAt i) := by
  have hout := hb.out_lt
  have hlt : (i + 10 - b.outOffs) % 10 < b.entries.length := by
    rw [entries_length, count]
    cases hf : b.full with
    | true => exact Nat.mod_lt _ (by omega)
    | false =>
      have hz := hb.filling hf
      have hin : i < b.inOffs := by
        by_contra hge
        rw [hb.blank hf i (not_lt.mp hge)] at hsize
        exact hsize rfl
      simp only [Bool.false_eq_true, if_false]
      omega
  rw [List.getElem?_eq_getElem hlt, entries_getElem hlt,
    show (b.outOffs + (i + 10 - b.outOffs) % 10) % 10 = i by omega]

/-- A call of the search: the slot that it points to, and what `*entry_offset_byte_rtn` holds
behind it. -/
def findInto (b : AesdCircularBuffer) (charOffset entryOffsetByteRtn : ℕ) :
    Except Stop (Option ℕ × ℕ) := do
  match ← aesdCircularBufferFindEntryOffsetForFpos b charOffset with
  | none => .ok (none, entryOffsetByteRtn)
  | some (i, offset) => .ok (some i, offset)

/-- The search over the entries that any history of additions retains. It gives `NULL`, and
writes no offset, just from the total length on; before that the one entry, and the one
offset in it, that the position falls on. -/
theorem offset_search (es : List AesdBufferEntry)
    (hsum : ((es.rtake 10).map AesdBufferEntry.size).sum < 2 ^ 64) {charOffset : ℕ}
    (hoff : charOffset < 2 ^ 64) (rtn : ℕ) :
    let b := aesdCircularBufferInit.addAll es
    let kept := es.rtake 10
    (b.findInto charOffset rtn = .ok (none, rtn) ↔ getLengthOfAllEntriesInBuffer b ≤ charOffset) ∧
      (charOffset < getLengthOfAllEntriesInBuffer b → ∃ j k, ∃ hj : j < kept.length,
        b.findInto charOffset rtn = .ok (some ((b.outOffs + j) % 10), k) ∧
        b.entryAt ((b.outOffs + j) % 10) = kept[j] ∧ k < kept[j].size ∧
        ((kept.take j).map AesdBufferEntry.size).sum + k = charOffset ∧
        ∀ j' k', ∀ hj' : j' < kept.length, k' < kept[j'].size →
          ((kept.take j').map AesdBufferEntry.size).sum + k' = charOffset → j' = j ∧ k' = k) := by
  intro b kept
  have hv : b.Valid := addAll_valid init_valid es
  have hkept : b.entries = kept := addAll_entries es
  have hsizes : b.sizes = kept.map AesdBufferEntry.size := by rw [sizes, hkept]
  have hlen : getLengthOfAllEntriesInBuffer b = b.sizes.sum := by
    rw [getLength_eq hv, Nat.mod_eq_of_lt (hsizes ▸ hsum)]
  have hfind := find_eq hv hoff (hsizes ▸ hsum)
  rw [hlen]
  cases hl : locate b.sizes charOffset with
  | none =>
    have hpast := locate_eq_none.mp hl
    have hnone : b.findInto charOffset rtn = .ok (none, rtn) := by
      rw [findInto, hfind, hl]
      rfl
    exact ⟨iff_of_true hnone hpast, fun hin => absurd hpast (not_le.mpr hin)⟩
  | some p =>
    obtain ⟨j, k⟩ := p
    obtain ⟨hj, hk, hpos⟩ := locate_spec hl
    have hin : ¬b.sizes.sum ≤ charOffset := by
      rw [← locate_eq_none, hl]
      simp
    have hsome : b.findInto charOffset rtn = .ok (some ((b.outOffs + j) % 10), k) := by
      rw [findInto, hfind, hl]
      rfl
    have hj' : j < kept.length := by simpa [hsizes] using hj
    refine ⟨iff_of_false (by rw [hsome]; simp) hin, fun _ => ⟨j, k, hj', hsome, ?_, ?_, ?_, ?_⟩⟩
    · have hslot := entries_getElem (b := b) (k := j) (by rwa [hkept])
      simp only [hkept] at hslot
      exact hslot.symm
    · simpa [hsizes] using hk
    · simpa [hsizes, List.map_take] using hpos
    · intro i o hi ho hio
      have hother : locate b.sizes ((b.sizes.take i).sum + o) = some (i, o) :=
        locate_of_sum (by simpa [hsizes] using hi) (by simpa [hsizes] using ho)
      rw [hsizes, ← List.map_take, hio, ← hsizes, hl] at hother
      simpa using hother.symm

/-- An empty entry between two others is passed over. -/
theorem offset_search_past_empty :
    let b := aesdCircularBufferInit.addAll [⟨.block 1, 2⟩, ⟨.block 2, 0⟩, ⟨.block 3, 4⟩]
    b.findInto 2 7 = .ok (some 2, 0) ∧ (b.findInto 6 7 = .ok (none, 7)) := by
  intro b
  have hin := (offset_search [⟨.block 1, 2⟩, ⟨.block 2, 0⟩, ⟨.block 3, 4⟩] (by decide)
    (show 2 < 2 ^ 64 by decide) 7).2 (by decide)
  have hpast := (offset_search [⟨.block 1, 2⟩, ⟨.block 2, 0⟩, ⟨.block 3, 4⟩] (by decide)
    (show 6 < 2 ^ 64 by decide) 7).1.mpr (by decide)
  obtain ⟨j, k, hj, hfind, -, -, -, huniq⟩ := hin
  obtain ⟨rfl, rfl⟩ := huniq 2 0 (by decide) (by decide) (by decide)
  exact ⟨hfind, hpast⟩

end Aesd.AesdCircularBuffer
