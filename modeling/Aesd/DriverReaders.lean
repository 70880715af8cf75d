import Aesd.CircularBufferSearch
import Aesd.DriverLeaks

/-! Readers beside the writers. `aesd_read` takes no lock: between its choice of an entry and
its copy writes may come, and free the buffer it has chosen. -/
namespace Aesd
open AesdDev Machine Memory Separation

/-- A reader between the two halves of `aesd_read`: what it has chosen, how many entries the
ring held then and how many of these were older than the chosen one, and how many commits
and which frees writes have made since. -/
structure Reading where
  src : Ptr
  offset : ℕ
  bytes : ℕ
  held : ℕ
  older : ℕ
  commits : ℕ
  freed : List Ptr

def Reading.later (commits : ℕ) (freed : List Ptr) (r : Reading) : Reading :=
  { r with commits := r.commits + commits, freed := r.freed ++ freed }

structure Readers where
  dev : AesdDev
  reading : ℕ → Option Reading

inductive ReadersEvent
  | write (buf : Bytes) (answers : WriteAnswers)
  | find (id count : ℕ) (fpos : ℤ)
  | copy (id uncopied : ℕ)

/-- Number of retained entries older than the one found. -/
def foundBehind (d : AesdDev) (fpos : ℤ) : ℕ :=
  match aesdCircularBufferFindEntryOffsetForFpos d.circBuf (Word.unsigned 64 fpos) with
  | .ok (some (i, _)) => (i + 10 - d.circBuf.outOffs) % 10
  | _ => 0

namespace Readers

/-- The output is what a copy gives. A reader finds when it has nothing left to copy. -/
def step (s : Readers) : ReadersEvent → Except Stop (Readers × Option (Except Stop (ℕ × Bytes)))
  | .write buf a => do
    let freed ← aesdWriteFrees s.dev buf a
    let written ← aesdWrite s.dev buf a
    let commits := if s.dev.lock = false ∧ Commits buf a then 1 else 0
    .ok (⟨written.1, fun id => (s.reading id).map (Reading.later commits freed)⟩, none)
  | .find id count fpos =>
    match s.reading id with
    | some _ => .error .blocked
    | none => do
      match ← readChoose s.dev count fpos with
      | none => .ok (s, none)
      | some (p, offset, n) =>
        .ok (⟨s.dev, Function.update s.reading id
          (some ⟨p, offset, n, s.dev.circBuf.count, foundBehind s.dev fpos, 0, []⟩)⟩, none)
  | .copy id uncopied =>
    match s.reading id with
    | none => .error .blocked
    | some r =>
      .ok (⟨s.dev, Function.update s.reading id none⟩,
        some (copyToUser s.dev.heap r.src r.offset r.bytes uncopied))

/-- An identity that a write is granted is not live at that time. -/
def Fresh (s : Readers) : ReadersEvent → Prop
  | .write buf a => (Call.write 0 buf a).Fresh s.dev
  | _ => True

/-- What is copied has not been freed since it was chosen. -/
def CopiesKept (s : Readers) : ReadersEvent → Prop
  | .copy id _ => ∀ r ∈ s.reading id, r.src ∉ r.freed
  | _ => True

/-- The commits since the choice have not yet reached the chosen entry. -/
def CopiesInTime (s : Readers) : ReadersEvent → Prop
  | .copy id _ => ∀ r ∈ s.reading id, r.held + r.commits ≤ 10 + r.older
  | _ => True

instance (s : Readers) (e : ReadersEvent) : Decidable (s.Fresh e) :=
  match e with
  | .write buf a => inferInstanceAs (Decidable ((Call.write 0 buf a).Fresh s.dev))
  | .find .. => .isTrue trivial
  | .copy .. => .isTrue trivial

instance (s : Readers) (e : ReadersEvent) : Decidable (s.CopiesKept e) :=
  match e with
  | .write .. => .isTrue trivial
  | .find .. => .isTrue trivial
  | .copy id _ => inferInstanceAs (Decidable (∀ r ∈ s.reading id, r.src ∉ r.freed))

end Readers

lemma readChoose_found {d : AesdDev} {count offset n : ℕ} {fpos : ℤ} {p : Ptr}
    (h : readChoose d count fpos = .ok (some (p, offset, n))) :
    ∃ i o, aesdCircularBufferFindEntryOffsetForFpos d.circBuf (Word.unsigned 64 fpos) =
      .ok (some (i, o)) ∧ p = (d.circBuf.entryAt i).buffptr := by
  unfold readChoose at h
  dsimp only at h
  split_ifs at h with hz
  · simp at h
  · obtain ⟨found, hfound, h⟩ := bind_eq_ok.mp h
    cases found with
    | none => simp at h
    | some slot =>
      obtain ⟨i, o⟩ := slot
      simp only [Except.ok.injEq, Option.some.injEq, Prod.mk.injEq] at h
      exact ⟨i, o, hfound, h.1.symm⟩

/-- A read chooses the buffer of a retained entry. -/
lemma readChoose_retained {d : AesdDev} (hr : d.circBuf.Valid) {count offset n : ℕ} {fpos : ℤ}
    {p : Ptr} (h : readChoose d count fpos = .ok (some (p, offset, n))) :
    (d.circBuf.entries.map AesdBufferEntry.buffptr)[foundBehind d fpos]? = some p := by
  obtain ⟨i, o, hfound, rfl⟩ := readChoose_found h
  obtain ⟨hi, hsize⟩ :=
    AesdCircularBuffer.findLoop_nonempty hr.out_lt (Nat.zero_le _) hfound
  rw [foundBehind, hfound, List.getElem?_map, AesdCircularBuffer.retained_of_nonempty hr hi hsize]
  rfl

/-- Entries that own distinct blocks have distinct pointers. -/
lemma nodup_buffptrs {es : List AesdBufferEntry} (hblocks : ∀ e ∈ es, ∃ b, e.buffptr = .block b)
    (hn : (es.flatMap fun e => e.buffptr.ids).Nodup) : (es.map AesdBufferEntry.buffptr).Nodup := by
  have hmap : (es.flatMap fun e => e.buffptr.ids).map Ptr.block =
      es.map AesdBufferEntry.buffptr := by
    rw [List.map_flatMap, ← List.flatMap_singleton' (es.map _), List.flatMap_map]
    apply List.flatMap_congr
    intro e he
    obtain ⟨b, hb⟩ := hblocks e he
    rw [hb]
    rfl
  rw [← hmap]
  exact hn.map fun _ _ => Ptr.block.inj

/-- The pointers of the entries held at the choice and of those added since: the newest ten
are in the ring, and the others have been freed. -/
structure Reading.Follows (r : Reading) (b : AesdCircularBuffer) (log : List Ptr) : Prop where
  length : log.length = r.held + r.commits
  distinct : (log.take r.held).Nodup
  chosen : r.older < r.held ∧ log[r.older]? = some r.src
  kept : b.entries.map AesdBufferEntry.buffptr = log.rtake 10
  freed : r.freed = log.rdrop 10

/-- The chosen buffer is freed just when the commits reach its entry. -/
lemma Reading.Follows.kept_iff {r : Reading} {b : AesdCircularBuffer} {log : List Ptr}
    (hf : r.Follows b log) : r.src ∉ r.freed ↔ r.held + r.commits ≤ 10 + r.older := by
  obtain ⟨hold, hsrc⟩ := hf.chosen
  obtain ⟨hlt, hsrc⟩ := List.getElem?_eq_some_iff.mp hsrc
  rw [hf.freed, List.rdrop, hf.length]
  constructor
  · intro hkept
    by_contra hlate
    apply hkept
    rw [← hsrc]
    exact List.mem_take_iff_getElem.mpr ⟨r.older, by rw [hf.length] at hlt ⊢; omega, rfl⟩
  · intro hearly hmem
    obtain ⟨j, hj, hsame⟩ := List.mem_take_iff_getElem.mp hmem
    have hjlt : j < r.older := by omega
    have htake : ∀ k < r.held, (log.take r.held)[k]? = log[k]? := fun k hk => by
      rw [List.getElem?_take, if_pos hk]
    have heq : (log.take r.held)[j]? = (log.take r.held)[r.older]? := by
      rw [htake j (by omega), htake r.older hold, List.getElem?_eq_getElem (by omega), hsame,
        List.getElem?_eq_getElem hlt, hsrc]
    have hindex := (List.nodup_iff_getElem?_ne_getElem?.mp hf.distinct) j r.older hjlt
      (by rw [List.length_take]; omega)
    exact hindex heq

lemma Reading.Follows.later {r : Reading} {b b' : AesdCircularBuffer} {log : List Ptr}
    {added : List AesdBufferEntry} (hf : r.Follows b log)
    (hentries : b'.entries = (b.entries ++ added).rtake 10) :
    (r.later added.length (((b.entries ++ added).rdrop 10).map AesdBufferEntry.buffptr)).Follows b'
      (log ++ added.map AesdBufferEntry.buffptr) := by
  obtain ⟨hold, hsrc⟩ := hf.chosen
  have hlen := hf.length
  refine ⟨?_, ?_, ⟨hold, ?_⟩, ?_, ?_⟩
  · simp [Reading.later, hlen, Nat.add_assoc]
  · simp only [Reading.later]
    rw [List.take_append_of_le_length (by omega)]
    exact hf.distinct
  · simp only [Reading.later]
    rw [List.getElem?_append_left (by omega)]
    exact hsrc
  · rw [← SlotRing.rtake_append_rtake, ← hf.kept, ← List.map_append, hentries]
    simp only [List.rtake, List.map_drop, List.length_map]
  · have hsplit := @SlotRing.rdrop_append_rtake Ptr 10 log (added.map AesdBufferEntry.buffptr)
    rw [← hsplit, ← hf.kept, ← hf.freed, ← List.map_append]
    simp only [Reading.later, List.rdrop, List.map_take, List.length_map]

namespace Readers

/-- The ring is sound and its blocks are accounted for, and so are those of the readers. -/
structure Tracked (s : Readers) : Prop where
  ring : s.dev.circBuf.Valid
  blocks : ∀ e ∈ s.dev.circBuf.entries, ∃ b, e.buffptr = .block b
  exact : ∃ lost, Exact s.dev.heap (s.dev.owned ++ lost)
  readings : ∀ id, ∀ r ∈ s.reading id, ∃ log, r.Follows s.dev.circBuf log

lemma step_write {s t : Readers} {buf : Bytes} {a : WriteAnswers}
    {o : Option (Except Stop (ℕ × Bytes))} (hs : s.Tracked) (hf : s.Fresh (.write buf a))
    (h : s.step (.write buf a) = .ok (t, o)) : t.Tracked := by
  obtain ⟨freed, hfrees, h⟩ := bind_eq_ok.mp h
  obtain ⟨⟨d', ret⟩, hw, h⟩ := bind_eq_ok.mp h
  rw [Except.ok.injEq, Prod.mk.injEq] at h
  obtain ⟨rfl, -⟩ := h
  obtain ⟨lost, hexact⟩ := hs.exact
  obtain ⟨hr', -, more, hexact', -⟩ := @aesdWrite_exact a s.dev d' 0 buf ret lost hs.ring hexact hf hw
  obtain ⟨freed', added, hfrees', -, hlen, hadded, hentries, rfl, -⟩ :=
    aesdWrite_ring hs.ring hs.blocks hw
  rw [hfrees, Except.ok.injEq] at hfrees'
  subst hfrees'
  refine ⟨hr', fun e he => ?_, ⟨_, hexact'⟩, fun id r hr => ?_⟩
  · change e ∈ d'.circBuf.entries at he
    rw [hentries] at he
    rcases List.mem_append.mp (List.mem_of_mem_drop he) with hold | hnew
    · exact hs.blocks e hold
    · exact hadded e hnew
  · obtain ⟨r, hold, rfl⟩ := Option.map_eq_some_iff.mp hr
    obtain ⟨log, hlog⟩ := hs.readings id r hold
    rw [← hlen]
    exact ⟨_, hlog.later hentries⟩

lemma step_find {s t : Readers} {id count : ℕ} {fpos : ℤ}
    {o : Option (Except Stop (ℕ × Bytes))} (hs : s.Tracked)
    (h : s.step (.find id count fpos) = .ok (t, o)) : t.Tracked := by
  cases hid : s.reading id with
  | some r => simp [step, hid] at h
  | none =>
    simp only [step, hid] at h
    obtain ⟨chosen, hchoose, h⟩ := bind_eq_ok.mp h
    cases chosen with
    | none =>
      simp only [Except.ok.injEq, Prod.mk.injEq] at h
      exact h.1 ▸ hs
    | some p =>
      obtain ⟨p, offset, n⟩ := p
      simp only [Except.ok.injEq, Prod.mk.injEq] at h
      obtain ⟨rfl, -⟩ := h
      refine ⟨hs.ring, hs.blocks, hs.exact, fun j r hr => ?_⟩
      dsimp only at hr
      rcases eq_or_ne j id with rfl | hne
      · rw [Function.update_self, Option.mem_some_iff] at hr
        subst hr
        have hle := entries_le hs.ring
        have hcount := AesdCircularBuffer.entries_length s.dev.circBuf
        have hchosen := readChoose_retained hs.ring hchoose
        obtain ⟨hlt, -⟩ := List.getElem?_eq_some_iff.mp hchosen
        rw [List.length_map] at hlt
        obtain ⟨lost, hexact⟩ := hs.exact
        have hdistinct : (s.dev.circBuf.entries.flatMap fun e => e.buffptr.ids).Nodup :=
          ((List.sublist_append_right _ _).trans s.dev.dataIds_sublist).nodup
            (List.Sublist.nodup (List.sublist_append_left _ _) hexact.1)
        refine ⟨s.dev.circBuf.entries.map AesdBufferEntry.buffptr, ?_, ?_, ⟨?_, hchosen⟩, ?_, ?_⟩
        · rw [List.length_map, hcount]
          rfl
        · exact (nodup_buffptrs hs.blocks hdistinct).sublist (List.take_sublist _ _)
        · exact hcount ▸ hlt
        · rw [List.rtake, List.length_map, Nat.sub_eq_zero_of_le hle, List.drop_zero]
        · rw [List.rdrop, List.length_map, Nat.sub_eq_zero_of_le hle, List.take_zero]
      · rw [Function.update_of_ne hne] at hr
        exact hs.readings j r hr

lemma step_copy {s t : Readers} {id uncopied : ℕ} {o : Option (Except Stop (ℕ × Bytes))}
    (hs : s.Tracked) (h : s.step (.copy id uncopied) = .ok (t, o)) : t.Tracked := by
  cases hid : s.reading id with
  | none => simp [step, hid] at h
  | some r =>
    simp only [step, hid, Except.ok.injEq, Prod.mk.injEq] at h
    obtain ⟨rfl, -⟩ := h
    refine ⟨hs.ring, hs.blocks, hs.exact, fun j r' hr => ?_⟩
    dsimp only at hr
    rcases eq_or_ne j id with rfl | hne
    · simp at hr
    · rw [Function.update_of_ne hne] at hr
      exact hs.readings j r' hr

lemma step_tracked {s t : Readers} {e : ReadersEvent} {o : Option (Except Stop (ℕ × Bytes))}
    (hs : s.Tracked) (hf : s.Fresh e) (h : s.step e = .ok (t, o)) : t.Tracked := by
  cases e with
  | write buf a => exact step_write hs hf h
  | find id count fpos => exact step_find hs h
  | copy id uncopied => exact step_copy hs h

lemma setup_tracked {circ entry : Alloc} {d : AesdDev} (hne : circ.addr ≠ entry.addr)
    (hd : aesdSetupCdev (some circ) (some entry) = .ok d) : Tracked ⟨d, fun _ => none⟩ := by
  obtain ⟨hr, hs, -⟩ := setup_exact hne hd
  have hv : d.Valid := (setup_standsFor hne hd fun _ => 0).valid
  exact ⟨hr, hv.blocks, ⟨[], by simpa using hs⟩, by simp⟩

lemma kept_iff {s : Readers} {e : ReadersEvent} (hs : s.Tracked) :
    s.CopiesKept e ↔ s.CopiesInTime e := by
  cases e with
  | copy id uncopied =>
    refine forall₂_congr fun r hr => ?_
    obtain ⟨log, hlog⟩ := hs.readings id r hr
    exact hlog.kept_iff
  | _ => exact Iff.rfl

/-- When no read copies from a buffer that a write has freed since it was chosen: exactly
when every copy comes before the commits have reached the entry chosen, over any readers
and writers and whatever the allocations and copies give. -/
theorem reads_before_free (circ entry : Alloc) {d : AesdDev} (hne : circ.addr ≠ entry.addr)
    (hd : aesdSetupCdev (some circ) (some entry) = .ok d) (events : List ReadersEvent)
    (hfresh : Guarded step Fresh ⟨d, fun _ => none⟩ events) (t : Readers)
    (os : List (Option (Except Stop (ℕ × Bytes))))
    (hrun : run step ⟨d, fun _ => none⟩ events = .ok (t, os)) :
    Guarded step CopiesKept ⟨d, fun _ => none⟩ events ↔
      Guarded step CopiesInTime ⟨d, fun _ => none⟩ events :=
  guarded_iff Tracked (fun _ _ _ _ hs _ _ => kept_iff hs)
    (fun _ _ _ _ hs hf _ hstep => step_tracked hs hf hstep) (setup_tracked hne hd) hfresh hrun

/-- The state set-up builds, and no reader. -/
def fresh : Readers := ⟨DriverState.fresh.dev, fun _ => none⟩

/-- A line is written, found and copied. -/
def oneLine : List ReadersEvent := [.write [10] (granting 3 4), .find 0 1 0, .copy 0 0]

theorem reads_before_free_one_line :
    ∃ t os, run step fresh oneLine = .ok (t, os) ∧
      (Guarded step CopiesKept fresh oneLine ↔ Guarded step CopiesInTime fresh oneLine) := by
  obtain ⟨⟨t, os⟩, hrun⟩ := ok_of_toBool (show (run step fresh oneLine).toBool = true by
    decide +kernel)
  exact ⟨t, os, hrun, reads_before_free ⟨1, 0⟩ ⟨2, 0⟩ (by decide) DriverState.fresh_setup oneLine
    (by decide +kernel) t os hrun⟩

/-- The ring is full, a reader finds the oldest entry, and a write drops it. -/
def overtaken : List ReadersEvent :=
  (List.range 10).map (fun i => .write [10] (granting (2 * i + 3) (2 * i + 4))) ++
    [.find 0 1 0, .write [10] (granting 23 24), .copy 0 0]

theorem reads_before_free_overtaken :
    ¬ ∀ events t os, Guarded step Fresh fresh events → run step fresh events = .ok (t, os) →
      Guarded step CopiesKept fresh events := by
  intro h
  have hfresh : Guarded step Fresh fresh overtaken := by decide +kernel
  have hfreed : ¬Guarded step CopiesKept fresh overtaken := by decide +kernel
  obtain ⟨⟨t, os⟩, hrun⟩ := ok_of_toBool (show (run step fresh overtaken).toBool = true by
    decide +kernel)
  exact hfreed (h overtaken t os hfresh hrun)

end Readers

end Aesd
