import Aesd.DriverWrite

/-! Histories of completed writes. From the state built at set-up the device stands for
the store that the same writes build, and so holds the newest closed pieces of the
written stream and the piece still open. -/
namespace Aesd
open Cut Machine Memory Separation

structure WriteCall where
  file : ℕ
  buf : Bytes
  answers : WriteAnswers

def WriteCall.call (w : WriteCall) : Call := .write w.file w.buf w.answers

/-- A write of less than `2 ^ 31` bytes that gets its memory and is copied whole. -/
def CompletesWrite (s : DriverState) : Call → Prop
  | .write _ buf a => buf.length < 2 ^ 31 ∧ min a.uncopied buf.length = 0 ∧ a.Granted s.dev
  | _ => False

/-- The memory the writes ask for is granted and every copy is complete. -/
abbrev CompleteWrites (s : DriverState) (ws : List WriteCall) : Prop :=
  Guarded DriverState.step CompletesWrite s (ws.map WriteCall.call)

/-- A device whose mutex is free and that stands for a given store. -/
structure StandsFor (s : DriverState) (st : CommandStore) : Prop where
  valid : s.dev.Valid
  free : s.dev.lock = false
  store : s.dev.store = st

lemma write_standsFor {s : DriverState} {st : CommandStore} {w : WriteCall}
    (hs : StandsFor s st) (hg : CompletesWrite s w.call) :
    ∃ t, s.step w.call = .ok (t, ⟨w.buf.length, [], none⟩) ∧ StandsFor t (st.write w.buf) := by
  obtain ⟨-, hcopy, hgrant⟩ := hg
  obtain ⟨d, hv, hdone, -⟩ := aesdWrite_spec hs.valid hs.free hgrant w.buf
  obtain ⟨hw, hl, hstore⟩ := hdone hcopy
  refine ⟨⟨d, s.fpos⟩, ?_, hv, hl, by rw [hstore, hs.store]⟩
  simp [DriverState.step, WriteCall.call, hw, bind, Except.bind]

/-- A history of completed writes returns every count and does what the store does. -/
theorem writes_standsFor {s : DriverState} {st : CommandStore} {ws : List WriteCall}
    (hs : StandsFor s st) (hg : CompleteWrites s ws) :
    ∃ t os, s.run (ws.map WriteCall.call) = .ok (t, os) ∧
      StandsFor t ((ws.map WriteCall.buf).foldl CommandStore.write st) ∧
      os = ws.map fun w => ⟨w.buf.length, [], none⟩ := by
  induction ws generalizing s st with
  | nil => exact ⟨s, [], rfl, hs, rfl⟩
  | cons w ws ih =>
    obtain ⟨u, hstep, hu⟩ := write_standsFor hs hg.1
    obtain ⟨t, os, hrun, ht, hos⟩ := ih hu (hg.2 u _ hstep)
    exact ⟨t, _, run_cons_ok.mpr ⟨u, _, os, hstep, hrun, rfl⟩, ht, by rw [hos]; rfl⟩

lemma aesdSetupCdev_eq (circ entry : Alloc) :
    aesdSetupCdev (some circ) (some entry) =
      .ok { lock := false, readBuf := some ⟨entry.addr, .zero⟩, circBufAddr := circ.addr
            circBuf := aesdCircularBufferInit
            heap := Function.update
              (Function.update (fun _ => none) circ.addr (some (resize circ.junk 168 [])))
              entry.addr (some (resize entry.junk 16 [])) } := by
  simp [aesdSetupCdev, kmalloc, sizeofCircularBuffer, sizeofBufferEntry]

/-- The state set-up builds stands for the empty store. -/
lemma setup_standsFor {circ entry : Alloc} {d : AesdDev} (hne : circ.addr ≠ entry.addr)
    (hd : aesdSetupCdev (some circ) (some entry) = .ok d) (fpos : ℕ → ℤ) :
    StandsFor ⟨d, fpos⟩ .empty := by
  rw [aesdSetupCdev_eq, Except.ok.injEq] at hd
  have hempty : aesdCircularBufferInit.entries = [] := rfl
  subst hd
  refine ⟨⟨AesdCircularBuffer.init_valid, ?_, by simp [hempty], ?_⟩, rfl, ?_⟩
  · have hnil : Separated (fun _ : ℕ => (none : Option Bytes)) [] := ⟨List.nodup_nil, by simp⟩
    have hcirc := hnil.alloc (m := circ.addr) rfl (resize circ.junk 168 [])
    have hboth := hcirc.alloc (m := entry.addr) (by simp [hne.symm]) (resize entry.junk 16 [])
    simpa [AesdDev.owned, AesdDev.ringIds, ReadBuf.ids, AesdBufferEntry.zero, Ptr.ids, hempty]
      using hboth
  · intro r hr
    simp only [Option.some.injEq] at hr
    simp [← hr, AesdBufferEntry.zero]
  · simp [AesdDev.store, AesdDev.pendingBytes, hempty, entryBytes, AesdBufferEntry.zero,
      CommandStore.empty]

lemma entry_fills {d : AesdDev} (hv : d.Valid) {e : AesdBufferEntry}
    (he : e ∈ d.circBuf.entries) : e.size = (bytesAt d.heap e.buffptr).length := by
  obtain ⟨b, bs, hp, hb, hs⟩ := hv.filled e he
  simp [hp, bytesAt, hb, hs]

lemma store_commands {d : AesdDev} (hv : d.Valid) :
    d.store.commands = d.circBuf.entries.map fun e => bytesAt d.heap e.buffptr := by
  apply List.map_congr_left
  intro e he
  rw [entryBytes, List.take_of_length_le (entry_fills hv he).ge]

/-- The store law of the driver. With every allocation and copy succeeding, the entries
read from `out_offs` are the newest ten closed pieces of the written stream, the pending
bytes are the piece still open, and every write returns its count. -/
theorem store_law (circ entry : Alloc) {d : AesdDev} (hne : circ.addr ≠ entry.addr)
    (hd : aesdSetupCdev (some circ) (some entry) = .ok d) (fpos : ℕ → ℤ) (ws : List WriteCall)
    (hg : CompleteWrites ⟨d, fpos⟩ ws) :
    let bufs := ws.map WriteCall.buf
    let pieces := (cut (has newline) [] bufs).1
    let rest := (cut (has newline) [] bufs).2
    ∃ t os, DriverState.run ⟨d, fpos⟩ (ws.map WriteCall.call) = .ok (t, os) ∧
      (t.dev.circBuf.entries.map fun e => bytesAt t.dev.heap e.buffptr) =
        pieces.drop (pieces.length - min pieces.length 10) ∧
      (∀ e ∈ t.dev.circBuf.entries, e.size = (bytesAt t.dev.heap e.buffptr).length) ∧
      t.dev.pendingBytes = rest ∧ newline ∉ rest ∧
      pieces.flatten ++ rest = bufs.flatten ∧
      os.map Reply.ret = ws.map fun w => (w.buf.length : ℤ) := by
  intro bufs pieces rest
  obtain ⟨t, os, hrun, ht, hos⟩ := writes_standsFor (setup_standsFor hne hd fpos) hg
  rw [CommandStore.foldl_write .empty (by simp [CommandStore.empty])] at ht
  have hcmds : t.dev.store.commands = pieces.rtake 10 := by
    rw [ht.store]
    rfl
  have hpend : t.dev.store.pending = rest := by
    rw [ht.store]
    rfl
  refine ⟨t, os, hrun, ?_, fun e he => entry_fills ht.valid he, hpend, rest_free newline _ (by simp),
    ?_, by simp [hos]⟩
  · rw [← store_commands ht.valid, hcmds, List.rtake,
      show pieces.length - min pieces.length 10 = pieces.length - 10 by omega]
  · exact cut_flatten [] bufs

/-- Answers that grant the two given identities and copy everything. -/
def granting (entry data : ℕ) : WriteAnswers := ⟨false, some ⟨entry, 0⟩, some ⟨data, 0⟩, false, 0⟩

theorem store_law_two_writes :
    ∃ t os, DriverState.run DriverState.fresh
        [.write 0 [97] (granting 3 4), .write 1 [98, 10] (granting 5 6)] = .ok (t, os) ∧
      (t.dev.circBuf.entries.map fun e => bytesAt t.dev.heap e.buffptr) = [[97, 98, 10]] ∧
      (∀ e ∈ t.dev.circBuf.entries, e.size = (bytesAt t.dev.heap e.buffptr).length) ∧
      t.dev.pendingBytes = [] ∧ newline ∉ ([] : Bytes) ∧
      [[(97 : UInt8), 98, 10]].flatten ++ [] = [[97], [98, 10]].flatten ∧
      os.map Reply.ret = [1, 2] := by
  refine store_law ⟨1, 0⟩ ⟨2, 0⟩ (by decide) DriverState.fresh_setup _
    [⟨0, [97], granting 3 4⟩, ⟨1, [98, 10], granting 5 6⟩] ?_
  refine Guarded.cons ⟨by decide, by decide, ⟨nofun, _, rfl, rfl, nofun⟩⟩ rfl ?_
  exact Guarded.cons ⟨by decide, by decide, ⟨nofun, _, rfl, rfl, nofun⟩⟩ rfl trivial

/-- A state that completed writes reach from set-up, with any file positions. -/
def Reached (s : DriverState) : Prop :=
  ∃ circ entry d fpos ws os, circ.addr ≠ entry.addr ∧
    aesdSetupCdev (some circ) (some entry) = .ok d ∧ CompleteWrites ⟨d, fpos⟩ ws ∧
    DriverState.run ⟨d, fpos⟩ (ws.map WriteCall.call) = .ok (s, os)

lemma Reached.standsFor {s : DriverState} (hs : Reached s) :
    ∃ bufs : List Bytes, StandsFor s (bufs.foldl CommandStore.write .empty) := by
  obtain ⟨circ, entry, d, fpos, ws, os, hne, hd, hg, hrun⟩ := hs
  obtain ⟨t, os', hrun', ht, -⟩ := writes_standsFor (setup_standsFor hne hd fpos) hg
  rw [hrun, Except.ok.injEq, Prod.mk.injEq] at hrun'
  exact ⟨ws.map WriteCall.buf, hrun'.1 ▸ ht⟩

lemma Reached.valid {s : DriverState} (hs : Reached s) : s.dev.Valid := by
  obtain ⟨bufs, h⟩ := hs.standsFor
  exact h.valid

lemma Reached.pending_open {s : DriverState} (hs : Reached s) : newline ∉ s.dev.pendingBytes := by
  obtain ⟨bufs, h⟩ := hs.standsFor
  have hstore := h.store
  rw [CommandStore.foldl_write .empty (by simp [CommandStore.empty])] at hstore
  have hpend : s.dev.pendingBytes = (cut (has newline) [] bufs).2 :=
    congrArg CommandStore.pending hstore
  rw [hpend]
  exact rest_free newline bufs (by simp)

/-- The retained bytes, oldest entry first. -/
def retained (d : AesdDev) : List Bytes := d.circBuf.entries.map fun e => bytesAt d.heap e.buffptr

/-- Two ways of splitting one byte string into writes, from one reachable state. A run adds
the pieces of the string cut behind every write that holds a line feed. When these writes
end at the same positions, both runs end with the same entries and pending bytes; so they
do when every line feed ends its write, and then each piece ends in its only line feed. -/
theorem split_law (s : DriverState) (hs : Reached s) (ws₁ ws₂ : List WriteCall)
    (hg₁ : CompleteWrites s ws₁) (hg₂ : CompleteWrites s ws₂)
    (hsame : (ws₁.map WriteCall.buf).flatten = (ws₂.map WriteCall.buf).flatten)
    (hends : closingEnds (has newline) 0 (ws₁.map WriteCall.buf) =
        closingEnds (has newline) 0 (ws₂.map WriteCall.buf) ∨
      (∀ w ∈ ws₁, Final newline w.buf) ∧ ∀ w ∈ ws₂, Final newline w.buf) :
    let pieces := (cut (has newline) s.dev.pendingBytes (ws₁.map WriteCall.buf)).1
    let rest := (cut (has newline) s.dev.pendingBytes (ws₁.map WriteCall.buf)).2
    ∃ t₁ t₂ os₁ os₂, s.run (ws₁.map WriteCall.call) = .ok (t₁, os₁) ∧
      s.run (ws₂.map WriteCall.call) = .ok (t₂, os₂) ∧
      retained t₁.dev = retained t₂.dev ∧ t₁.dev.pendingBytes = t₂.dev.pendingBytes ∧
      retained t₁.dev = (retained s.dev ++ pieces).rtake 10 ∧ t₁.dev.pendingBytes = rest ∧
      newline ∉ rest ∧
      pieces.flatten ++ rest = s.dev.pendingBytes ++ (ws₁.map WriteCall.buf).flatten ∧
      ((∀ w ∈ ws₁, Final newline w.buf) →
        ∀ command ∈ pieces, ∃ body, newline ∉ body ∧ command = body ++ [newline]) := by
  intro pieces rest
  obtain ⟨bufs, hstands⟩ := hs.standsFor
  have hopen := hs.pending_open
  have hstart : StandsFor s s.dev.store := ⟨hstands.valid, hstands.free, rfl⟩
  obtain ⟨t₁, os₁, hrun₁, ht₁, -⟩ := writes_standsFor hstart hg₁
  obtain ⟨t₂, os₂, hrun₂, ht₂, -⟩ := writes_standsFor hstart hg₂
  have hcut : cut (has newline) s.dev.pendingBytes (ws₁.map WriteCall.buf) =
      cut (has newline) s.dev.pendingBytes (ws₂.map WriteCall.buf) := by
    rcases hends with he | ⟨hf₁, hf₂⟩
    · exact cut_congr _ hsame he
    · rw [cut_eq_lines newline _ (by simpa using hf₁), cut_eq_lines newline _ (by simpa using hf₂),
        hsame]
  have hstore₁ : t₁.dev.store = ⟨(s.dev.store.commands ++ pieces).rtake 10, rest⟩ := by
    rw [ht₁.store, CommandStore.foldl_write _ (AesdDev.commands_length_le hstands.valid)]
    rfl
  have hstore₂ : t₂.dev.store = ⟨(s.dev.store.commands ++ pieces).rtake 10, rest⟩ := by
    rw [ht₂.store, CommandStore.foldl_write _ (AesdDev.commands_length_le hstands.valid)]
    simp only [pieces, rest, hcut]
    rfl
  have hboth : t₁.dev.store = t₂.dev.store := hstore₁.trans hstore₂.symm
  refine ⟨t₁, t₂, os₁, os₂, hrun₁, hrun₂, ?_, congrArg CommandStore.pending hboth, ?_,
    congrArg CommandStore.pending hstore₁, rest_free newline _ hopen, cut_flatten _ _, ?_⟩
  · rw [retained, retained, ← store_commands ht₁.valid, ← store_commands ht₂.valid, hboth]
  · rw [retained, retained, ← store_commands ht₁.valid, ← store_commands hstands.valid, hstore₁]
  · intro hf command hc
    simp only [pieces, cut_eq_lines newline _ (show ∀ c ∈ ws₁.map WriteCall.buf, Final newline c by
      simpa using hf)] at hc
    exact lines_shape newline hopen hc

lemma fresh_reached : Reached DriverState.fresh :=
  ⟨⟨1, 0⟩, ⟨2, 0⟩, _, _, [], [], by decide, DriverState.fresh_setup, trivial, rfl⟩

/-- A write that holds two lines closes both as one command. -/
theorem split_law_two_lines :
    ¬ ∀ s, Reached s → ∀ ws₁ ws₂ t₁ t₂ os₁ os₂, CompleteWrites s ws₁ → CompleteWrites s ws₂ →
      (ws₁.map WriteCall.buf).flatten = (ws₂.map WriteCall.buf).flatten →
      s.run (ws₁.map WriteCall.call) = .ok (t₁, os₁) →
      s.run (ws₂.map WriteCall.call) = .ok (t₂, os₂) →
      retained t₁.dev = retained t₂.dev ∧ t₁.dev.pendingBytes = t₂.dev.pendingBytes := by
  intro h
  have hsame := h _ fresh_reached [⟨0, [97, 10], granting 3 4⟩, ⟨0, [98, 10], granting 5 6⟩]
    [⟨0, [97, 10, 98, 10], granting 3 4⟩] _ _ _ _
    (Guarded.cons ⟨by decide, by decide, ⟨nofun, _, rfl, rfl, nofun⟩⟩ rfl
      (Guarded.cons ⟨by decide, by decide,
        ⟨fun _ => ⟨_, rfl, rfl⟩, _, rfl, rfl, fun _ e he => by cases he; decide⟩⟩ rfl trivial))
    (Guarded.cons ⟨by decide, by decide, ⟨nofun, _, rfl, rfl, nofun⟩⟩ rfl trivial) rfl rfl rfl
  have hentries := hsame.1
  revert hentries
  decide

theorem split_law_fresh :
    ∃ t₁ t₂ os₁ os₂,
      DriverState.fresh.run [.write 0 [97, 10] (granting 3 4)] = .ok (t₁, os₁) ∧
      DriverState.fresh.run [.write 0 [97] (granting 3 4), .write 1 [10] (granting 5 6)] =
        .ok (t₂, os₂) ∧
      retained t₁.dev = retained t₂.dev ∧ t₁.dev.pendingBytes = t₂.dev.pendingBytes ∧
      retained t₁.dev = [[97, 10]] ∧ t₁.dev.pendingBytes = [] := by
  obtain ⟨t₁, t₂, os₁, os₂, hrun₁, hrun₂, hentries, hpending, hadded, hrest, -⟩ :=
    split_law DriverState.fresh fresh_reached [⟨0, [97, 10], granting 3 4⟩]
      [⟨0, [97], granting 3 4⟩, ⟨1, [10], granting 5 6⟩]
      (Guarded.cons ⟨by decide, by decide, ⟨nofun, _, rfl, rfl, nofun⟩⟩ rfl trivial)
      (Guarded.cons ⟨by decide, by decide, ⟨nofun, _, rfl, rfl, nofun⟩⟩ rfl
        (Guarded.cons ⟨by decide, by decide, ⟨nofun, _, rfl, rfl, nofun⟩⟩ rfl trivial))
      rfl (Or.inl rfl)
  exact ⟨t₁, t₂, os₁, os₂, hrun₁, hrun₂, hentries, hpending, hadded, hrest⟩

end Aesd
