import Aesd.DeviceWorker

/-! Where a seek request reads and stores. The copy loops are followed without the heap: the
slots the outer loop visits and, for each, the bytes its inner loop moves. The walk ends
within a turn of the ring and reads inside retained entries only; what it stores is a
run from the start of the scratch buffer, as long as what the request selects. -/
namespace Aesd
open Machine Memory

/-- One turn of the inner loop: the byte `readAt` of an entry goes to `mybuffer[storeAt]`. -/
structure SeekAccess where
  slot : ℕ
  readAt : ℕ
  storeAt : ℕ
  deriving DecidableEq, Repr

structure SeekVisit where
  slot : ℕ
  accesses : List SeekAccess
  deriving DecidableEq, Repr

/-- What `seekCopy` moves for the entry of a slot. -/
def copyAccesses (slot off : ℕ) : ℕ → ℕ → ℕ → List SeekAccess
  | 0, _, _ => []
  | n + 1, i, pos => ⟨slot, (i + off) % 2 ^ 32, pos⟩ :: copyAccesses slot off n (i + 1) (pos + 1)

def bytesToReadFrom (b : AesdCircularBuffer) (slot off : ℕ) : ℕ :=
  (Word.signed 64 (((b.entryAt slot).size : ℤ) - off)).toNat

/-- What `seekLoop` visits, with its tests and its counters but without the heap. -/
def seekVisits (b : AesdCircularBuffer) (totalBytesToRead : ℤ) :
    ℕ → ℤ → ℕ → ℕ → ℕ → Except Stop (List SeekVisit)
  | 0, _, _, _, _ => .error .spins
  | fuel + 1, bytesSent, pos, off, slot =>
    if bytesSent < totalBytesToRead then
      let n := bytesToReadFrom b slot off
      let v : SeekVisit := ⟨slot, copyAccesses slot off n 0 pos⟩
      if nextSlot slot = b.outOffs then .ok [v]
      else do
        let vs ← seekVisits b totalBytesToRead fuel (bytesSent + n) (pos + n) 0 (nextSlot slot)
        .ok (v :: vs)
    else .ok []

/-- The load and the store of one turn of the inner loop. -/
def SeekAccess.perform (b : AesdCircularBuffer) (mybuffer : Ptr) (h : Heap) (x : SeekAccess) :
    Except Stop Heap := do
  let c ← loadRun h (b.entryAt x.slot).buffptr x.readAt 1
  storeRun h mybuffer x.storeAt c

section Copy

lemma copyAccesses_length (slot off n i pos : ℕ) : (copyAccesses slot off n i pos).length = n := by
  induction n generalizing i pos with
  | zero => rfl
  | succ n ih => rw [copyAccesses, List.length_cons, ih]

lemma copyAccesses_storeAt (slot off n i pos : ℕ) :
    (copyAccesses slot off n i pos).map SeekAccess.storeAt = List.range' pos n := by
  induction n generalizing i pos with
  | zero => rfl
  | succ n ih => rw [copyAccesses, List.map_cons, ih, List.range'_succ]

lemma copyAccesses_readAt {slot off n i pos size : ℕ} (hn : n ≤ size - (i + off)) :
    ∀ x ∈ copyAccesses slot off n i pos, x.slot = slot ∧ x.readAt < size := by
  induction n generalizing i pos with
  | zero => simp [copyAccesses]
  | succ n ih =>
    rw [copyAccesses, List.forall_mem_cons]
    have hcut := Nat.mod_le (i + off) (2 ^ 32)
    exact ⟨⟨rfl, by dsimp only; omega⟩, ih (by omega)⟩

lemma seekCopy_performs (b : AesdCircularBuffer) (mybuffer : Ptr) (slot off n i pos : ℕ) (h : Heap) :
    seekCopy (b.entryAt slot).buffptr mybuffer off n i pos h =
      (copyAccesses slot off n i pos).foldlM (SeekAccess.perform b mybuffer) h >>= fun h =>
        .ok (h, pos + n) := by
  induction n generalizing i pos h with
  | zero => rfl
  | succ n ih =>
    have hnext : pos + (n + 1) = pos + 1 + n := by omega
    rw [seekCopy, copyAccesses, List.foldlM_cons, bind_assoc, SeekAccess.perform, bind_assoc, hnext]
    simp only [ih]

end Copy

lemma bytesToReadFrom_eq {b : AesdCircularBuffer} {slot off : ℕ}
    (hsize : (b.entryAt slot).size < 2 ^ 63) (hoff : off < 2 ^ 32) :
    bytesToReadFrom b slot off = (b.entryAt slot).size - off := by
  rw [bytesToReadFrom, Word.signed_of_mem (by omega) (by omega)]
  omega

section Walk

variable {b : AesdCircularBuffer} {total : ℤ}

lemma seekVisits_cases {fuel pos off slot : ℕ} {sent : ℤ} {vs : List SeekVisit}
    (h : seekVisits b total (fuel + 1) sent pos off slot = .ok vs) :
    (¬sent < total ∧ vs = []) ∨ ∃ rest, sent < total ∧
      vs = ⟨slot, copyAccesses slot off (bytesToReadFrom b slot off) 0 pos⟩ :: rest ∧
      (nextSlot slot = b.outOffs ∧ rest = [] ∨ nextSlot slot ≠ b.outOffs ∧
        seekVisits b total fuel (sent + bytesToReadFrom b slot off)
          (pos + bytesToReadFrom b slot off) 0 (nextSlot slot) = .ok rest) := by
  rw [seekVisits] at h
  split_ifs at h with hgo hback
  · rw [Except.ok.injEq] at h
    exact Or.inr ⟨[], hgo, h.symm, Or.inl ⟨hback, rfl⟩⟩
  · obtain ⟨rest, hrest, h⟩ := bind_eq_ok.mp h
    rw [Except.ok.injEq] at h
    exact Or.inr ⟨rest, hgo, h.symm, Or.inr ⟨hback, hrest⟩⟩
  · rw [Except.ok.injEq] at h
    exact Or.inl ⟨hgo, h.symm⟩

lemma nextSlot_back (hout : b.outOffs < 10) {j : ℕ} (hj : j < 10) :
    nextSlot ((b.outOffs + j) % 10) = b.outOffs ↔ j + 1 = 10 := by
  rw [nextSlot_eq]
  omega

lemma seekVisits_ends (total : ℤ) (hout : b.outOffs < 10) {j : ℕ} (hj : j < 10) (sent : ℤ)
    (pos off : ℕ) :
    ∃ vs, ∀ fuel, 10 ≤ fuel + j →
      seekVisits b total fuel sent pos off ((b.outOffs + j) % 10) = .ok vs := by
  -- what is left of the turn of the ring shrinks with every visit
  induction hleft : 10 - j generalizing j sent pos off with
  | zero => omega
  | succ left ih =>
    have hback := nextSlot_back hout hj
    have hstep := nextSlot_eq b.outOffs j
    generalize (b.outOffs + j) % 10 = slot at hback hstep ⊢
    generalize hn : bytesToReadFrom b slot off = n
    by_cases hgo : sent < total
    · by_cases hlast : j + 1 = 10
      · refine ⟨[⟨slot, copyAccesses slot off n 0 pos⟩], fun fuel hfuel => ?_⟩
        obtain ⟨fuel, rfl⟩ : ∃ f, fuel = f + 1 := ⟨fuel - 1, by omega⟩
        rw [seekVisits, if_pos hgo, hn]
        exact if_pos (hback.mpr hlast)
      · obtain ⟨rest, hrest⟩ := @ih (j + 1) (by omega) (sent + n) (pos + n) 0 (by omega)
        refine ⟨⟨slot, copyAccesses slot off n 0 pos⟩ :: rest, fun fuel hfuel => ?_⟩
        obtain ⟨fuel, rfl⟩ : ∃ f, fuel = f + 1 := ⟨fuel - 1, by omega⟩
        rw [seekVisits, if_pos hgo, hn]
        refine (if_neg (mt hback.mp hlast)).trans ?_
        rw [hstep, hrest fuel (by omega)]
        rfl
    · refine ⟨[], fun fuel hfuel => ?_⟩
      obtain ⟨fuel, rfl⟩ : ∃ f, fuel = f + 1 := ⟨fuel - 1, by omega⟩
      rw [seekVisits, if_neg hgo]

lemma seekVisits_slots (hout : b.outOffs < 10) {fuel j pos off : ℕ} {sent : ℤ}
    {vs : List SeekVisit} (hj : j < 10)
    (h : seekVisits b total fuel sent pos off ((b.outOffs + j) % 10) = .ok vs) :
    vs.map SeekVisit.slot = SlotRing.walk 10 id ((b.outOffs + j) % 10) vs.length ∧
      j + vs.length ≤ 10 := by
  induction fuel generalizing j sent pos off vs with
  | zero => simp [seekVisits] at h
  | succ fuel ih =>
    rcases seekVisits_cases h with ⟨-, rfl⟩ | ⟨rest, -, rfl, ⟨-, rfl⟩ | ⟨hback, hrest⟩⟩
    · exact ⟨rfl, hj.le⟩
    · refine ⟨?_, hj⟩
      rw [List.length_singleton, SlotRing.walk_cons, Nat.mod_mod]
      rfl
    · rw [ne_eq, nextSlot_back hout hj] at hback
      rw [nextSlot_eq] at hrest
      obtain ⟨hslots, hlen⟩ := ih (by omega) hrest
      rw [List.length_cons, SlotRing.walk_cons, List.map_cons, hslots, Nat.mod_mod, Nat.mod_add_mod,
        Nat.add_assoc]
      exact ⟨rfl, by omega⟩

lemma seekVisits_reads (hsize : ∀ i, (b.entryAt i).size < 2 ^ 63) {fuel pos off slot : ℕ} {sent : ℤ}
    {vs : List SeekVisit} (hoff : off < 2 ^ 32)
    (h : seekVisits b total fuel sent pos off slot = .ok vs) :
    ∀ v ∈ vs, ∀ x ∈ v.accesses, x.slot = v.slot ∧ x.readAt < (b.entryAt v.slot).size := by
  induction fuel generalizing sent pos off slot vs with
  | zero => simp [seekVisits] at h
  | succ fuel ih =>
    have hn := bytesToReadFrom_eq (hsize slot) hoff
    have hfirst := @copyAccesses_readAt slot off _ 0 pos _
      (show bytesToReadFrom b slot off ≤ (b.entryAt slot).size - (0 + off) by omega)
    rcases seekVisits_cases h with ⟨-, rfl⟩ | ⟨rest, -, rfl, ⟨-, rfl⟩ | ⟨-, hrest⟩⟩
    · simp
    · simpa using hfirst
    · exact List.forall_mem_cons.mpr ⟨hfirst, ih (by omega) hrest⟩

def seekAccesses (vs : List SeekVisit) : List SeekAccess := vs.flatMap SeekVisit.accesses

lemma seekAccesses_cons (v : SeekVisit) (vs : List SeekVisit) :
    seekAccesses (v :: vs) = v.accesses ++ seekAccesses vs := rfl

lemma seekVisits_stores {fuel pos off slot : ℕ} {sent : ℤ} {vs : List SeekVisit}
    (h : seekVisits b total fuel sent pos off slot = .ok vs) :
    (seekAccesses vs).map SeekAccess.storeAt = List.range' pos (seekAccesses vs).length := by
  induction fuel generalizing sent pos off slot vs with
  | zero => simp [seekVisits] at h
  | succ fuel ih =>
    rcases seekVisits_cases h with ⟨-, rfl⟩ | ⟨rest, -, rfl, ⟨-, rfl⟩ | ⟨-, hrest⟩⟩
    · rfl
    · simp [seekAccesses, copyAccesses_storeAt, copyAccesses_length]
    · have hlater := ih hrest
      rw [seekAccesses_cons, List.map_append, List.length_append, hlater, copyAccesses_storeAt,
        copyAccesses_length, ← List.range'_append_1]

lemma seekLoop_go {mybuffer : Ptr} {fuel : ℕ} {s : SeekState} (hgo : s.bytesSent < total) :
    seekLoop b mybuffer total (fuel + 1) s =
      seekCopy (b.entryAt s.buffToRead).buffptr mybuffer s.writeCmdOffset
          (bytesToReadFrom b s.buffToRead s.writeCmdOffset) 0 s.mybufferposition s.heap >>= fun r =>
        let t : SeekState := ⟨r.1, s.bytesSent + bytesToReadFrom b s.buffToRead s.writeCmdOffset,
          r.2, 0, nextSlot s.buffToRead⟩
        if nextSlot s.buffToRead = b.outOffs then .ok t else seekLoop b mybuffer total fuel t := by
  rw [seekLoop, if_pos hgo]
  rfl

/-- The outer loop performs the accesses of the walk and no others. -/
lemma seekLoop_performs (mybuffer : Ptr) {fuel : ℕ} {s : SeekState} {vs : List SeekVisit}
    (h : seekVisits b total fuel s.bytesSent s.mybufferposition s.writeCmdOffset s.buffToRead =
      .ok vs) :
    (fun t : SeekState => (t.heap, t.mybufferposition)) <$> seekLoop b mybuffer total fuel s =
      (fun h => (h, s.mybufferposition + (seekAccesses vs).length)) <$>
        (seekAccesses vs).foldlM (SeekAccess.perform b mybuffer) s.heap := by
  induction fuel generalizing s vs with
  | zero => simp [seekVisits] at h
  | succ fuel ih =>
    rcases seekVisits_cases h with ⟨hstop, rfl⟩ | ⟨rest, hgo, rfl, hnext⟩
    · rw [seekLoop, if_neg hstop]
      rfl
    · have hcopy := seekCopy_performs b mybuffer s.buffToRead s.writeCmdOffset
        (bytesToReadFrom b s.buffToRead s.writeCmdOffset) 0 s.mybufferposition s.heap
      rw [seekAccesses_cons, List.foldlM_append, List.length_append, copyAccesses_length,
        seekLoop_go hgo, hcopy]
      generalize bytesToReadFrom b s.buffToRead s.writeCmdOffset = n at hnext ⊢
      cases (copyAccesses s.buffToRead s.writeCmdOffset n 0 s.mybufferposition).foldlM
          (SeekAccess.perform b mybuffer) s.heap with
      | error e => rfl
      | ok g =>
        change _ <$> (if nextSlot s.buffToRead = b.outOffs then _ else _) = _
        rcases hnext with ⟨hback, rfl⟩ | ⟨hback, hrest⟩
        · rw [if_pos hback]
          rfl
        · have hlater := @ih ⟨g, s.bytesSent + n, s.mybufferposition + n, 0, nextSlot s.buffToRead⟩
            rest hrest
          rw [if_neg hback, hlater]
          simp only [Nat.add_assoc]
          rfl

end Walk

namespace AesdDev

variable {d : AesdDev} (hv : d.Valid)

include hv

lemma slot_size {j : ℕ} (hj : j < 10) :
    (d.circBuf.entryAt ((d.circBuf.outOffs + j) % 10)).size =
      (d.store.commands[j]?.getD []).length := by
  rcases Nat.lt_or_ge j d.store.commands.length with hlt | hpast
  · rw [(slot_command hv hlt).2, List.getElem?_eq_getElem hlt, Option.getD_some]
  · rw [slot_blank hv hj hpast, List.getElem?_eq_none hpast]
    rfl

lemma size_lt (hD : d.store.contents.length < 2 ^ 63) (i : ℕ) :
    (d.circBuf.entryAt i).size < 2 ^ 63 := by
  have hout := hv.ring.out_lt
  rcases Nat.lt_or_ge i 10 with hi | hi
  · have hslot := slot_size hv (show (i + 10 - d.circBuf.outOffs) % 10 < 10 by omega)
    rw [show (d.circBuf.outOffs + (i + 10 - d.circBuf.outOffs) % 10) % 10 = i by omega] at hslot
    rw [hslot]
    cases hc : d.store.commands[(i + 10 - d.circBuf.outOffs) % 10]? with
    | none => simp
    | some c =>
      have hle := (List.sublist_flatten_of_mem (List.mem_of_getElem? hc)).length_le
      exact hle.trans_lt hD
  · have hnone : d.circBuf.entryAt i = .zero := by
      rw [AesdCircularBuffer.entryAt, Vector.getElem?_eq_none hi]
      rfl
    simp [hnone, AesdBufferEntry.zero]

lemma seekVisits_count (hD : d.store.contents.length < 2 ^ 63) {total : ℤ}
    {fuel j sent pos off : ℕ} {vs : List SeekVisit} (hj : j < 10) (hoff : off < 2 ^ 32)
    (h : seekVisits d.circBuf total fuel sent pos off ((d.circBuf.outOffs + j) % 10) = .ok vs) :
    (seekAccesses vs).length = (selected (total - sent) (d.store.commands.drop j) off).length := by
  induction fuel generalizing j sent pos off vs with
  | zero => simp [seekVisits] at h
  | succ fuel ih =>
    have hn := bytesToReadFrom_eq (size_lt hv hD ((d.circBuf.outOffs + j) % 10)) hoff
    rw [slot_size hv hj, ← List.length_drop] at hn
    rw [selected_drop]
    rcases seekVisits_cases h with ⟨hstop, rfl⟩ | ⟨rest, hgo, rfl, hnext⟩
    · rw [if_neg hstop]
      rfl
    · rw [seekAccesses_cons, List.length_append, copyAccesses_length, if_pos hgo, List.length_append,
        hn]
      simp only [hn, ne_eq, nextSlot_back hv.ring.out_lt hj] at hnext
      congr 1
      rcases hnext with ⟨hlast, rfl⟩ | ⟨hmore, hrest⟩
      · have hle := commands_length_le hv
        have hend : d.store.commands.drop (j + 1) = [] := List.drop_of_length_le (by omega)
        rw [hend]
        rfl
      · rw [nextSlot_eq, ← Nat.cast_add] at hrest
        exact ih (by omega) (by omega) hrest

lemma seekVisits_retained (hD : d.store.contents.length < 2 ^ 63) {total : ℤ}
    {fuel j pos off : ℕ} {sent : ℤ} {vs : List SeekVisit} (hj : j < 10) (hoff : off < 2 ^ 32)
    (h : seekVisits d.circBuf total fuel sent pos off ((d.circBuf.outOffs + j) % 10) = .ok vs) :
    ∀ v ∈ vs, v.slot < 10 ∧ ∀ x ∈ v.accesses, x.slot = v.slot ∧
      x.readAt < (d.circBuf.entryAt v.slot).size ∧
      d.circBuf.entryAt v.slot ∈ d.circBuf.entries := by
  intro v hvisit
  obtain ⟨hslots, -⟩ := seekVisits_slots hv.ring.out_lt hj h
  have hslot : v.slot < 10 := by
    have hmem := List.mem_map_of_mem (f := SeekVisit.slot) hvisit
    rw [hslots] at hmem
    obtain ⟨k, -, hk⟩ := List.mem_map.mp hmem
    rw [← hk]
    exact Nat.mod_lt _ (by omega)
  refine ⟨hslot, fun x hx => ?_⟩
  obtain ⟨hsame, hread⟩ := seekVisits_reads (size_lt hv hD) hoff h v hvisit x hx
  have hkept := AesdCircularBuffer.retained_of_nonempty hv.ring hslot (by omega)
  exact ⟨hsame, hread, List.mem_of_getElem? hkept⟩

end AesdDev

section Perform

variable {d : AesdDev} {m : ℕ} {buf : Bytes}

/-- The access reads inside its entry, and not from the scratch buffer. -/
def SeekAccess.Reads (d : AesdDev) (m : ℕ) (x : SeekAccess) : Prop :=
  (d.circBuf.entryAt x.slot).buffptr ≠ .block m ∧
    x.readAt < (bytesAt d.heap (d.circBuf.entryAt x.slot).buffptr).length

lemma perform_eq {x : SeekAccess} (hx : x.Reads d m) (buf : Bytes) :
    ∃ c, x.perform d.circBuf (.block m) (Function.update d.heap m (some buf)) =
      if x.storeAt < buf.length then
        .ok (Function.update d.heap m (some (splice buf x.storeAt [c])))
      else .error .fault := by
  obtain ⟨hne, hread⟩ := hx
  have hframe := bytesAt_update_of_ne (h := d.heap) (v := some buf) hne
  have hload := @loadRun_ok (Function.update d.heap m (some buf)) _ x.readAt 1 (by rw [hframe]; omega)
  rw [hframe, List.drop_eq_getElem_cons hread, List.take_succ_cons, List.take_zero] at hload
  refine ⟨(bytesAt d.heap (d.circBuf.entryAt x.slot).buffptr)[x.readAt], ?_⟩
  rw [SeekAccess.perform, hload]
  simp only [bind, Except.bind]
  split_ifs with hroom
  · rw [storeRun_ok (Function.update_self ..) hroom, Function.update_idem]
  · simp [storeRun, hroom]

lemma performs_fit {xs : List SeekAccess} (hreads : ∀ x ∈ xs, x.Reads d m)
    (hroom : ∀ x ∈ xs, x.storeAt < buf.length) :
    ∃ buf' : Bytes, buf'.length = buf.length ∧
      xs.foldlM (SeekAccess.perform d.circBuf (.block m)) (Function.update d.heap m (some buf)) =
        .ok (Function.update d.heap m (some buf')) := by
  induction xs generalizing buf with
  | nil => exact ⟨buf, rfl, rfl⟩
  | cons x xs ih =>
    rw [List.forall_mem_cons] at hreads hroom
    obtain ⟨c, hc⟩ := perform_eq hreads.1 buf
    have hlen : (splice buf x.storeAt [c]).length = buf.length := splice_length hroom.1
    obtain ⟨buf', hbuf', hrest⟩ := @ih (splice buf x.storeAt [c]) hreads.2 (by rw [hlen]; exact hroom.2)
    refine ⟨buf', hbuf'.trans hlen, ?_⟩
    rw [List.foldlM_cons, hc, if_pos hroom.1]
    exact hrest

lemma performs_overrun {xs : List SeekAccess} (hreads : ∀ x ∈ xs, x.Reads d m)
    (hout : ∃ x ∈ xs, buf.length ≤ x.storeAt) :
    xs.foldlM (SeekAccess.perform d.circBuf (.block m)) (Function.update d.heap m (some buf)) =
      .error .fault := by
  induction xs generalizing buf with
  | nil => simp at hout
  | cons x xs ih =>
    rw [List.forall_mem_cons] at hreads
    simp only [List.mem_cons, exists_eq_or_imp] at hout
    obtain ⟨c, hc⟩ := perform_eq hreads.1 buf
    rw [List.foldlM_cons, hc]
    split_ifs with hroom
    · have hlen : (splice buf x.storeAt [c]).length = buf.length := splice_length hroom
      refine ih hreads.2 ?_
      rw [hlen]
      exact hout.resolve_left (by omega)
    · rfl

end Perform

/-- What a request makes the copy loops move; a refused request moves nothing. -/
def seekTrace (b : AesdCircularBuffer) (writeCmd writeCmdOffset : ℕ) :
    Except Stop (List SeekVisit) :=
  if writeCmd > 10 then .ok []
  else
    seekVisits b (totalBytesToRead b writeCmdOffset) 10 0 0 writeCmdOffset
      (buffToReadFrom b writeCmd)

/-- The copy loops end, every store is inside the 500 bytes of the scratch buffer, and so is
the length copied out. -/
def StaysInScratch (b : AesdCircularBuffer) (writeCmd writeCmdOffset : ℕ) : Prop :=
  ∃ vs, seekTrace b writeCmd writeCmdOffset = .ok vs ∧
    (∀ x ∈ seekAccesses vs, x.storeAt < 500) ∧ (seekAccesses vs).length ≤ 500

section Request

variable {d : AesdDev} (hv : d.Valid) (hD : d.store.contents.length < 2 ^ 63) {w off : ℕ}
  (hoff : off < 2 ^ 32)

include hv hD hoff

/-- The trace of a request that is not refused: as many accesses as the request selects bytes,
which store from the start of the scratch buffer on. -/
lemma seekTrace_spec (hw : w ≤ 10) :
    ∃ vs, seekTrace d.circBuf w off = .ok vs ∧
      seekVisits d.circBuf (totalBytesToRead d.circBuf off) 10 0 0 off
        ((d.circBuf.outOffs + w % 10) % 10) = .ok vs ∧
      (seekAccesses vs).length = (d.requested w off).length ∧
      (seekAccesses vs).map SeekAccess.storeAt = List.range' 0 (seekAccesses vs).length := by
  have hstart := Nat.mod_lt w (show 0 < 10 by omega)
  obtain ⟨vs, hends⟩ := seekVisits_ends (totalBytesToRead d.circBuf off) hv.ring.out_lt
    hstart 0 0 off
  have hvs := hends 10 (by omega)
  have hcount := AesdDev.seekVisits_count hv hD hstart hoff
    (show seekVisits d.circBuf _ 10 ((0 : ℕ) : ℤ) 0 off _ = .ok vs from hvs)
  rw [Nat.cast_zero, sub_zero, totalBytesToRead_eq hv hD hoff] at hcount
  refine ⟨vs, ?_, hvs, hcount, seekVisits_stores hvs⟩
  rw [seekTrace, if_neg (by omega), buffToReadFrom_eq hv.ring hw, hvs]

lemma staysInScratch_iff (hw : w ≤ 10) :
    StaysInScratch d.circBuf w off ↔ (d.requested w off).length ≤ 500 := by
  obtain ⟨vs, htrace, -, hcount, hstores⟩ := seekTrace_spec hv hD hoff hw
  rw [← hcount]
  constructor
  · rintro ⟨vs', htrace', -, hlen⟩
    rw [htrace, Except.ok.injEq] at htrace'
    rwa [htrace']
  · intro hlen
    refine ⟨vs, htrace, fun x hx => ?_, hlen⟩
    have hmem := List.mem_map_of_mem (f := SeekAccess.storeAt) hx
    rw [hstores, List.mem_range'_1] at hmem
    omega

variable {m : ℕ} (hfresh : d.heap m = none)

include hfresh

lemma seekTrace_reads (hw : w ≤ 10) {vs : List SeekVisit} (h : seekTrace d.circBuf w off = .ok vs) :
    ∀ x ∈ seekAccesses vs, x.Reads d m := by
  obtain ⟨vs', htrace, hvs, -⟩ := seekTrace_spec hv hD hoff hw
  rw [htrace, Except.ok.injEq] at h
  subst h
  intro x hx
  obtain ⟨v, hvisit, hx⟩ := List.mem_flatMap.mp hx
  obtain ⟨hsame, hread, hkept⟩ :=
    (AesdDev.seekVisits_retained hv hD (Nat.mod_lt _ (by omega)) hoff hvs v hvisit).2 x hx
  obtain ⟨c, bs, hptr, hlive, hsize⟩ := hv.filled _ hkept
  rw [SeekAccess.Reads, hsame, hptr]
  refine ⟨fun he => ?_, by simpa [bytesAt, hlive, ← hsize] using hread⟩
  rw [Ptr.block.injEq] at he
  simp [← he, hlive] at hfresh

variable {buf : Bytes} (hbuf : buf.length = 500)

include hbuf

/-- The copy loops over a device whose scratch buffer is block `m`. -/
lemma seekLoop_scratch (hw : w ≤ 10) :
    let run := seekLoop d.circBuf (.block m) (totalBytesToRead d.circBuf off) 10
      ⟨Function.update d.heap m (some buf), 0, 0, off, (d.circBuf.outOffs + w % 10) % 10⟩
    ((d.requested w off).length ≤ 500 → ∃ s buf', run = .ok s ∧ buf'.length = 500 ∧
      s.heap = Function.update d.heap m (some buf') ∧
      s.mybufferposition = (d.requested w off).length) ∧
    (500 < (d.requested w off).length → run = .error .fault) := by
  intro run
  obtain ⟨vs, htrace, hvs, hcount, hstores⟩ := seekTrace_spec hv hD hoff hw
  have hreads := seekTrace_reads hv hD hoff hfresh hw htrace
  have hperforms := @seekLoop_performs d.circBuf (totalBytesToRead d.circBuf off) (.block m) 10
    ⟨Function.update d.heap m (some buf), 0, 0, off, (d.circBuf.outOffs + w % 10) % 10⟩ vs hvs
  rw [← hcount]
  constructor
  · intro hfits
    have hroom : ∀ x ∈ seekAccesses vs, x.storeAt < buf.length := by
      intro x hx
      have hmem := List.mem_map_of_mem (f := SeekAccess.storeAt) hx
      rw [hstores, List.mem_range'_1] at hmem
      omega
    obtain ⟨buf', hbuf', hdone⟩ := performs_fit hreads hroom
    rw [hdone] at hperforms
    cases hrun : run with
    | error e =>
      rw [show seekLoop _ _ _ _ _ = _ from hrun] at hperforms
      simp [Functor.map, Except.map] at hperforms
    | ok s =>
      rw [show seekLoop _ _ _ _ _ = _ from hrun] at hperforms
      simp only [Functor.map, Except.map, Except.ok.injEq, Prod.mk.injEq, Nat.zero_add] at hperforms
      exact ⟨s, buf', rfl, hbuf'.trans hbuf, hperforms⟩
  · intro hlong
    obtain ⟨x, hx, hat⟩ : ∃ x ∈ seekAccesses vs, x.storeAt = 500 := by
      rw [← List.mem_map, hstores, List.mem_range'_1]
      omega
    rw [performs_overrun hreads ⟨x, hx, by omega⟩] at hperforms
    cases hrun : run with
    | error e =>
      rw [show seekLoop _ _ _ _ _ = _ from hrun] at hperforms
      simpa [Functor.map, Except.map] using hperforms
    | ok s =>
      rw [show seekLoop _ _ _ _ _ = _ from hrun] at hperforms
      simp [Functor.map, Except.map] at hperforms

end Request

/-- A request over entries of any size is answered when what it selects fits the scratch
buffer, and does not come back otherwise. -/
lemma aesdIoctl_scratch {d : AesdDev} (hv : d.Valid) (hfree : d.lock = false)
    (hD : d.store.contents.length < 2 ^ 63) {m : Alloc} (hfresh : d.heap m.addr = none)
    {arg : AesdSeekto} (hcmd : arg.writeCmd.toNat ≤ 10) (interrupted : Bool) {n : ℕ}
    (hn : (d.requested arg.writeCmd.toNat arg.writeCmdOffset.toNat).length = n) :
    (n ≤ 500 → ∃ special : Bytes, special.length = n ∧
      aesdIoctl d AESDCHAR_IOCSEEKTO arg (granted interrupted m) =
        .ok (d, 0, some ⟨arg.specialBuffer, special, { arg with lengthCopied := .ofNat n }⟩)) ∧
    (500 < n → aesdIoctl d AESDCHAR_IOCSEEKTO arg (granted interrupted m) = .error .fault) := by
  have hoff := arg.writeCmdOffset.toNat_lt
  have hscratch : (resize m.junk 500 ([] : Bytes)).length = 500 := resize_length ..
  obtain ⟨hfits, hlong⟩ := seekLoop_scratch hv hD hoff hfresh hscratch hcmd
  rw [hn] at hfits hlong
  constructor
  · intro hle
    obtain ⟨s, buf, hrun, hbuf, hheap, hpos⟩ := hfits hle
    have hcopy := copyToUser_ok 0 (show 0 + n ≤ (bytesAt s.heap (.block m.addr)).length by
      rw [hheap, bytesAt_update_self, Option.getD_some]
      omega)
    rw [hheap, bytesAt_update_self, Option.getD_some, List.drop_zero, ← hheap] at hcopy
    have hkfree : kfree s.heap (.block m.addr) = .ok d.heap := by
      simp [hheap, kfree, ← hfresh]
    have hback : { d with lock := false } = d := by rw [← hfree]
    refine ⟨(buf.take n).take (n - min 0 n), ?_, ?_⟩
    · simp only [List.length_take]
      omega
    · rw [aesdIoctl_accepted hv hfree hcmd, Nat.cast_zero, hrun]
      change (copyToUser s.heap _ 0 s.mybufferposition 0 >>= _) = _
      rw [hpos, hcopy]
      change (kfree s.heap _ >>= _) = _
      rw [hkfree]
      change Except.ok ({ d with lock := false }, _, _) = _
      rw [hback]
  · intro hgt
    rw [aesdIoctl_accepted hv hfree hcmd, Nat.cast_zero, hlong hgt]
    rfl

/-- The bound on the copy's stores, over every state that completed writes reach and entries
of any size: it holds exactly when the request is refused or selects no more than the
scratch buffer holds. Within it the call answers with at most that many bytes; beyond it
the call does not come back. -/
theorem seek_stays_in_scratch_iff (s : DriverState) (hs : Reached s)
    (hD : (retained s.dev).flatten.length < 2 ^ 63) (arg : AesdSeekto) :
    let w := arg.writeCmd.toNat
    let off := arg.writeCmdOffset.toNat
    (StaysInScratch s.dev.circBuf w off ↔
      (w ≤ 10 → ¬Overruns ((retained s.dev).map List.length) w off)) ∧
    ∀ m : Alloc, s.dev.heap m.addr = none → ∀ interrupted,
      (StaysInScratch s.dev.circBuf w off → ∃ d ret answer,
        aesdIoctl s.dev AESDCHAR_IOCSEEKTO arg (granted interrupted m) = .ok (d, ret, answer) ∧
        ∀ r, answer = some r → r.special.length ≤ 500) ∧
      (¬StaysInScratch s.dev.circBuf w off →
        aesdIoctl s.dev AESDCHAR_IOCSEEKTO arg (granted interrupted m) = .error .fault) := by
  intro w off
  have hv := hs.valid
  obtain ⟨bufs, hstands⟩ := hs.standsFor
  have hstore : retained s.dev = s.dev.store.commands := (store_commands hv).symm
  rw [hstore] at hD ⊢
  have hoff : off < 2 ^ 32 := arg.writeCmdOffset.toNat_lt
  by_cases hcmd : w ≤ 10
  · have hstays := staysInScratch_iff hv hD hoff hcmd
    have hover := @lt_takenWithin 500 (((s.dev.store.commands.map List.length).sum : ℤ) - off)
      (askedFor (s.dev.store.commands.map List.length) w off)
    rw [← requested_length] at hover
    refine ⟨?_, fun m hfresh interrupted => ?_⟩
    · rw [hstays, forall_prop_of_true hcmd, Overruns, ← hover, not_lt]
    · obtain ⟨hfits, hlong⟩ := aesdIoctl_scratch hv hstands.free hD hfresh hcmd interrupted rfl
      constructor
      · intro hin
        obtain ⟨special, hlen, hanswer⟩ := hfits (hstays.mp hin)
        refine ⟨_, _, _, hanswer, ?_⟩
        intro r hr
        rw [← Option.some.inj hr]
        exact hlen.trans_le (hstays.mp hin)
      · intro hout
        exact hlong (not_le.mp (mt hstays.mpr hout))
  · have hnone : StaysInScratch s.dev.circBuf w off :=
      ⟨[], by rw [seekTrace, if_pos (by omega)], by simp [seekAccesses], by simp [seekAccesses]⟩
    refine ⟨iff_of_true hnone fun h => absurd h hcmd, fun m hfresh interrupted => ⟨fun _ => ?_, ?_⟩⟩
    · have hbig : 10 < (fetchSeekto arg 0).writeCmd.toNat := by
        rw [fetchSeekto_zero]
        exact not_le.mp hcmd
      exact ⟨_, _, _, aesdIoctl_refused hstands.free hbig, by simp⟩
    · exact fun hout => absurd hnone hout

lemma reached_one {command : Bytes} (hlen : command.length < 2 ^ 31) (hn : newline ∈ command) :
    ∃ s, Reached s ∧ s.dev.store = ⟨[command], []⟩ := by
  have hg : CompleteWrites DriverState.fresh [⟨0, command, granting 3 4⟩] :=
    ⟨⟨hlen, by simp [granting], ⟨nofun, _, rfl, rfl, nofun⟩⟩, fun _ _ _ => trivial⟩
  obtain ⟨t, os, hrun, ht, -⟩ :=
    writes_standsFor (setup_standsFor (by decide) DriverState.fresh_setup _) hg
  refine ⟨t, ⟨⟨1, 0⟩, ⟨2, 0⟩, _, _, _, os, by decide, DriverState.fresh_setup, hg, hrun⟩, ?_⟩
  rw [ht.store]
  simp [CommandStore.write_closed _ hn, CommandStore.empty, List.rtake]

/-- An entry of 501 bytes, copied from its start, overruns the scratch buffer. -/
theorem seek_stays_in_scratch_long_entry :
    ¬ ∀ s, Reached s → ∀ w off : UInt32, StaysInScratch s.dev.circBuf w.toNat off.toNat := by
  intro h
  obtain ⟨command, hlen, hn⟩ : ∃ c : Bytes, c.length = 501 ∧ newline ∈ c :=
    ⟨List.replicate 501 newline, List.length_replicate, List.mem_replicate.mpr ⟨by decide, rfl⟩⟩
  obtain ⟨s, hs, hstore⟩ := reached_one (by omega) hn
  have hcount : (s.dev.requested 0 0).length = 501 := by
    rw [requested_length, hstore]
    simp [askedFor, takenWithin, hlen]
  have hD : s.dev.store.contents.length < 2 ^ 63 := by
    rw [hstore]
    simp [CommandStore.contents, hlen]
  have hstays := (staysInScratch_iff hs.valid hD (by decide) (by decide)).mp (h s hs 0 0)
  rw [show (0 : UInt32).toNat = 0 from rfl, hcount] at hstays
  omega

theorem seek_stays_in_scratch_one_entry :
    (StaysInScratch oneEntry.dev.circBuf 0 1 ↔ (0 ≤ 10 → ¬Overruns [2] 0 1)) ∧
    ∀ m : Alloc, oneEntry.dev.heap m.addr = none → ∀ interrupted,
      (StaysInScratch oneEntry.dev.circBuf 0 1 → ∃ d ret answer,
        aesdIoctl oneEntry.dev AESDCHAR_IOCSEEKTO ⟨0, 1, 0, 7⟩ (granted interrupted m) =
          .ok (d, ret, answer) ∧ ∀ r, answer = some r → r.special.length ≤ 500) ∧
      (¬StaysInScratch oneEntry.dev.circBuf 0 1 →
        aesdIoctl oneEntry.dev AESDCHAR_IOCSEEKTO ⟨0, 1, 0, 7⟩ (granted interrupted m) =
          .error .fault) :=
  seek_stays_in_scratch_iff oneEntry oneEntry_reached (by decide) ⟨0, 1, 0, 7⟩

/-- The copy loops of a request that is not refused. They end after at most ten slots, none
of them met twice, and what they read is always a byte of a retained entry; these are the
accesses the outer loop performs, on every heap and whatever its scratch buffer is. -/
theorem seek_copy_bounds (s : DriverState) (hs : Reached s)
    (hsmall : ∀ e ∈ retained s.dev, e.length < 2 ^ 31) (w off : UInt32) (hcmd : w.toNat ≤ 10) :
    let b := s.dev.circBuf
    let total := totalBytesToRead b off.toNat
    let start := buffToReadFrom b w.toNat
    ∃ vs, (∀ fuel ≥ 10, seekVisits b total fuel 0 0 off.toNat start = .ok vs ∧ ∀ mybuffer h,
        (fun t : SeekState => (t.heap, t.mybufferposition)) <$>
            seekLoop b mybuffer total fuel ⟨h, 0, 0, off.toNat, start⟩ =
          (fun h => (h, (seekAccesses vs).length)) <$>
            (seekAccesses vs).foldlM (SeekAccess.perform b mybuffer) h) ∧
      start < 10 ∧ vs.length ≤ 10 ∧ (vs.map SeekVisit.slot).Nodup ∧
      ∀ v ∈ vs, v.slot < 10 ∧ ∀ x ∈ v.accesses, x.slot = v.slot ∧
        x.readAt < (b.entryAt v.slot).size ∧ b.entryAt v.slot ∈ b.entries := by
  intro b total start
  have hv := hs.valid
  have hstore : retained s.dev = s.dev.store.commands := (store_commands hv).symm
  rw [hstore] at hsmall
  have hD := AesdDev.contents_small hv hsmall
  have hw := Nat.mod_lt w.toNat (show 0 < 10 by omega)
  have hstart : start = (b.outOffs + w.toNat % 10) % 10 := buffToReadFrom_eq hv.ring hcmd
  obtain ⟨vs, hends⟩ := seekVisits_ends total hv.ring.out_lt hw 0 0 off.toNat
  rw [hstart]
  obtain ⟨hslots, hlen⟩ := seekVisits_slots hv.ring.out_lt hw (hends 10 (by omega))
  refine ⟨vs, fun fuel hfuel => ⟨hends fuel (by omega), fun mybuffer h => ?_⟩,
    Nat.mod_lt _ (by omega), by omega, ?_, ?_⟩
  · have hperforms := @seekLoop_performs b total mybuffer fuel ⟨h, 0, 0, off.toNat, _⟩ vs
      (hends fuel (by omega))
    rwa [Nat.zero_add] at hperforms
  · rw [hslots, SlotRing.walk]
    refine List.Nodup.map_on ?_ List.nodup_range
    intro i hi k hk he
    rw [List.mem_range] at hi hk
    by_contra hne
    exact SlotRing.index_ne _ (by omega) (by omega) hne he
  · exact AesdDev.seekVisits_retained hv (by omega) hw off.toNat_lt (hends 10 (by omega))

theorem seek_copy_bounds_past_newest :
    let b := oneEntry.dev.circBuf
    let total := totalBytesToRead b 0
    let start := buffToReadFrom b 3
    ∃ vs, (∀ fuel ≥ 10, seekVisits b total fuel 0 0 0 start = .ok vs ∧ ∀ mybuffer h,
        (fun t : SeekState => (t.heap, t.mybufferposition)) <$>
            seekLoop b mybuffer total fuel ⟨h, 0, 0, 0, start⟩ =
          (fun h => (h, (seekAccesses vs).length)) <$>
            (seekAccesses vs).foldlM (SeekAccess.perform b mybuffer) h) ∧
      start < 10 ∧ vs.length ≤ 10 ∧ (vs.map SeekVisit.slot).Nodup ∧
      ∀ v ∈ vs, v.slot < 10 ∧ ∀ x ∈ v.accesses, x.slot = v.slot ∧
        x.readAt < (b.entryAt v.slot).size ∧ b.entryAt v.slot ∈ b.entries :=
  seek_copy_bounds oneEntry oneEntry_reached (by decide) 3 0 (by decide)

/-- The request names no retained entry, or no byte of the entry it names. -/
def OutOfRange (sizes : List ℕ) (w off : ℕ) : Prop :=
  sizes.length ≤ w ∨ ∃ z, sizes[w]? = some z ∧ z ≤ off

/-- The request is refused, nothing reaches the caller, and entries, pending bytes and mutex
are as before. -/
def RejectsCleanly (d : AesdDev) (arg : AesdSeekto) (a : IoctlAnswers) : Prop :=
  ∃ d', aesdIoctl d AESDCHAR_IOCSEEKTO arg a = .ok (d', -EINVAL, none) ∧
    d'.circBuf = d.circBuf ∧ d'.store = d.store ∧ d'.lock = d.lock

/-- The one refusal of the code, for a command past ten. -/
lemma aesdIoctl_refuses {d : AesdDev} (hv : d.Valid) (hfree : d.lock = false) {arg : AesdSeekto}
    {a : IoctlAnswers} (hfresh : ∀ m, a.scratch = some m → d.heap m.addr = none)
    (hcmd : 10 < (fetchSeekto arg a.argUnread).writeCmd.toNat) :
    ∃ d', aesdIoctl d AESDCHAR_IOCSEEKTO arg a = .ok (d', -EINVAL, none) ∧
      d'.circBuf = d.circBuf ∧ d'.store = d.store ∧ d'.lock = true := by
  refine ⟨_, aesdIoctl_refused hfree hcmd, rfl, ?_, rfl⟩
  cases ha : a.scratch with
  | none => rfl
  | some m => exact AesdDev.store_frame hv (hfresh m ha) _ true

lemma aesdIoctl_answers {d d' : AesdDev} (hfree : d.lock = false) {arg : AesdSeekto}
    {a : IoctlAnswers} (hcmd : (fetchSeekto arg a.argUnread).writeCmd.toNat ≤ 10) {ret : ℤ}
    {answer : Option SeekResult}
    (h : aesdIoctl d AESDCHAR_IOCSEEKTO arg a = .ok (d', ret, answer)) :
    ret = 0 ∧ ∃ r, answer = some r := by
  cases aesdIoctl_outcome h with
  | other hcmd' => exact absurd rfl hcmd'
  | interrupted _ hlock => simp [hfree] at hlock
  | refused _ _ hbig => exact absurd hbig (not_lt.mpr hcmd)
  | answered => exact ⟨rfl, _, rfl⟩

/-- No request that is out of range is rejected cleanly, in any state that completed writes
reach and whatever the kernel answers: past ten the refusal keeps the mutex, and up to
ten the call has no refusal. -/
theorem out_of_range_not_rejected (s : DriverState) (hs : Reached s) (arg : AesdSeekto)
    (a : IoctlAnswers) (hfresh : ∀ m, a.scratch = some m → s.dev.heap m.addr = none) :
    (OutOfRange ((retained s.dev).map List.length) arg.writeCmd.toNat arg.writeCmdOffset.toNat →
      ¬RejectsCleanly s.dev arg a) ∧
    (10 < (fetchSeekto arg a.argUnread).writeCmd.toNat → ∃ d',
      aesdIoctl s.dev AESDCHAR_IOCSEEKTO arg a = .ok (d', -EINVAL, none) ∧
        d'.circBuf = s.dev.circBuf ∧ d'.store = s.dev.store ∧ d'.lock = true) ∧
    ((fetchSeekto arg a.argUnread).writeCmd.toNat ≤ 10 → ∀ d' ret answer,
      aesdIoctl s.dev AESDCHAR_IOCSEEKTO arg a = .ok (d', ret, answer) →
        ret = 0 ∧ ∃ r, answer = some r) := by
  obtain ⟨bufs, hstands⟩ := hs.standsFor
  have hfree := hstands.free
  refine ⟨fun _ => ?_, aesdIoctl_refuses hs.valid hfree hfresh,
    fun hcmd d' ret answer h => aesdIoctl_answers hfree hcmd h⟩
  rintro ⟨d', hioctl, -, -, hlock⟩
  rcases Nat.lt_or_ge 10 (fetchSeekto arg a.argUnread).writeCmd.toNat with hcmd | hcmd
  · obtain ⟨d'', hioctl', -, -, hheld⟩ := aesdIoctl_refuses hs.valid hfree hfresh hcmd
    rw [hioctl, Except.ok.injEq, Prod.mk.injEq] at hioctl'
    rw [← hioctl'.1, hlock, hfree] at hheld
    simp at hheld
  · have hzero := (aesdIoctl_answers hfree hcmd hioctl).1
    simp [EINVAL] at hzero

/-- Command 1 of a device with one entry is answered with no byte, not refused. -/
theorem out_of_range_not_rejected_blank_slot :
    ¬ ∀ s, Reached s → ∀ arg : AesdSeekto,
      OutOfRange ((retained s.dev).map List.length) arg.writeCmd.toNat arg.writeCmdOffset.toNat →
      ∀ a : IoctlAnswers, (∀ m, a.scratch = some m → s.dev.heap m.addr = none) →
        RejectsCleanly s.dev arg a := by
  intro h
  obtain ⟨d', hioctl, -⟩ := h oneEntry oneEntry_reached ⟨1, 0, 0, 7⟩ (Or.inl (by decide))
    (granted false ⟨9, 0⟩) (by rintro m hm; rw [← Option.some.inj hm]; rfl)
  have hzero := (aesdIoctl_answers rfl (by decide) hioctl).1
  simp [EINVAL] at hzero

theorem out_of_range_not_rejected_eleven :
    (OutOfRange [2] 11 0 → ¬RejectsCleanly oneEntry.dev ⟨11, 0, 0, 7⟩ (granted false ⟨9, 0⟩)) ∧
    (10 < 11 → ∃ d', aesdIoctl oneEntry.dev AESDCHAR_IOCSEEKTO ⟨11, 0, 0, 7⟩ (granted false ⟨9, 0⟩) =
        .ok (d', -EINVAL, none) ∧
      d'.circBuf = oneEntry.dev.circBuf ∧ d'.store = oneEntry.dev.store ∧ d'.lock = true) ∧
    (11 ≤ 10 → ∀ d' ret answer,
      aesdIoctl oneEntry.dev AESDCHAR_IOCSEEKTO ⟨11, 0, 0, 7⟩ (granted false ⟨9, 0⟩) =
        .ok (d', ret, answer) → ret = 0 ∧ ∃ r, answer = some r) :=
  out_of_range_not_rejected oneEntry oneEntry_reached ⟨11, 0, 0, 7⟩ (granted false ⟨9, 0⟩)
    (by rintro m hm; rw [← Option.some.inj hm]; rfl)

end Aesd
