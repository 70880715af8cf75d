import Aesd.DriverHistory

/-! Who owns the data blocks. A write hands its pending block to the ring and frees the one
the ring drops; clearing up frees those the ring still has. Every block is freed while it
is live and never by two. -/
namespace Aesd
open Machine Memory Separation

/-- The pointers that a call of `aesd_write` passes to `kfree`. -/
def aesdWriteFrees (d : AesdDev) (buf : Bytes) (a : WriteAnswers) : Except Stop (List Ptr) :=
  aesdWriteTo d buf a [] (fun _ _ => []) (fun _ _ => []) fun _ r =>
    let toFree := (aesdCircularBufferAddEntry d.circBuf r.entry).2
    .ok (if toFree ≠ .null then [toFree] else [])

/-- The buffer of every slot is freed. The structures and the pending buffer are not. -/
def aesdCleanupModule (d : AesdDev) : Except Stop Heap :=
  d.circBuf.entry.toList.foldlM (fun h e => kfree h e.buffptr) d.heap

/-- A write that is copied whole and closes a command. -/
def Commits (buf : Bytes) (a : WriteAnswers) : Prop :=
  min a.uncopied buf.length = 0 ∧ newline ∈ buf

instance (buf : Bytes) (a : WriteAnswers) : Decidable (Commits buf a) :=
  inferInstanceAs (Decidable (_ ∧ _))

/-- The blocks that hold the pending bytes and those of the retained entries. -/
def AesdDev.dataIds (d : AesdDev) : List ℕ :=
  (d.readBuf.map fun r => r.entry.buffptr.ids).getD [] ++
    d.circBuf.entries.flatMap fun e => e.buffptr.ids

lemma AesdDev.dataIds_sublist (d : AesdDev) : d.dataIds.Sublist d.owned := by
  have hring : (d.circBuf.entries.flatMap fun e => e.buffptr.ids).Sublist d.ringIds :=
    List.sublist_cons_self _ _
  unfold AesdDev.dataIds AesdDev.owned
  cases d.readBuf with
  | none => exact hring
  | some r => exact List.Sublist.append (List.sublist_cons_self _ _) hring

/-- A complete copy can be read back. -/
lemma copyFromUser_read {h h' : Heap} {p : Ptr} {off uncopied : ℕ} {buf : Bytes}
    (hk : copyFromUser h p off buf uncopied = .ok (0, h')) :
    loadRun h' p off buf.length = .ok buf := by
  have hleft := copyFromUser_left hk
  obtain ⟨g, hg, hk⟩ := bind_eq_ok.mp hk
  simp only [Except.ok.injEq, Prod.mk.injEq] at hk
  obtain ⟨-, rfl⟩ := hk
  rw [← hleft, Nat.sub_zero, List.take_length, List.replicate_zero, List.append_nil] at hg
  unfold storeRun at hg
  unfold loadRun
  split_ifs at hg with hz
  · rw [if_pos hz, List.length_eq_zero_iff.mp hz]
  · rw [if_neg hz]
    cases p with
    | null => simp at hg
    | zeroSize => simp at hg
    | block b =>
      cases hb : h b with
      | none => simp [hb] at hg
      | some bs =>
        simp only [hb] at hg
        split_ifs at hg with hroom
        rw [Except.ok.injEq] at hg
        have hlen : off + buf.length ≤ (splice bs off buf).length := by rwa [splice_length hroom]
        simp only [← hg, Function.update_self, if_pos hlen]
        rw [splice_read (by omega)]

/-- What copies some bytes copies them to a block. -/
lemma copyFromUser_block {h h' : Heap} {p : Ptr} {off uncopied left : ℕ} {buf : Bytes}
    (hbuf : buf ≠ []) (hk : copyFromUser h p off buf uncopied = .ok (left, h')) :
    ∃ b, p = .block b := by
  have hleft := copyFromUser_left hk
  have hpos := List.length_pos_of_ne_nil hbuf
  obtain ⟨g, hg, -⟩ := bind_eq_ok.mp hk
  unfold storeRun at hg
  rw [if_neg (by simp; omega)] at hg
  cases p with
  | null => simp at hg
  | zeroSize => simp at hg
  | block b => exact ⟨b, rfl⟩

/-- What a write that returns has done. With the lock taken nothing; else it has copied to
the pending entry, all of it or not, and has closed the command or left it open. -/
inductive WriteOutcome (d : AesdDev) (buf : Bytes) (a : WriteAnswers) : AesdDev → Prop
  | interrupted (hlock : d.lock = true) (hi : a.interrupted = true) : WriteOutcome d buf a d
  | short {h₁ h₂ h : Heap} {r₁ r : ReadBuf} (hfree : d.lock = false)
      (he : ensureReadBuf d.heap d.readBuf a = .ok (h₁, r₁))
      (hw : growReadBuf h₁ r₁ buf.length a = .ok (h₂, r))
      (hc : copyFromUser h₂ r.entry.buffptr r.entry.size buf a.uncopied =
        .ok (min a.uncopied buf.length, h)) (hz : min a.uncopied buf.length ≠ 0) :
      WriteOutcome d buf a { d.withPending r h with lock := true }
  | stillOpen {h₁ h₂ h : Heap} {r₁ r : ReadBuf} (hfree : d.lock = false)
      (he : ensureReadBuf d.heap d.readBuf a = .ok (h₁, r₁))
      (hw : growReadBuf h₁ r₁ buf.length a = .ok (h₂, r))
      (hc : copyFromUser h₂ r.entry.buffptr r.entry.size buf a.uncopied =
        .ok (min a.uncopied buf.length, h)) (hz : min a.uncopied buf.length = 0)
      (hn : newline ∉ buf) :
      WriteOutcome d buf a { d.withPending (r.grown buf.length) h with lock := false }
  | closed {h₁ h₂ h : Heap} {r₁ r : ReadBuf} {d₁ : AesdDev} (hfree : d.lock = false)
      (he : ensureReadBuf d.heap d.readBuf a = .ok (h₁, r₁))
      (hw : growReadBuf h₁ r₁ buf.length a = .ok (h₂, r))
      (hc : copyFromUser h₂ r.entry.buffptr r.entry.size buf a.uncopied =
        .ok (min a.uncopied buf.length, h)) (hz : min a.uncopied buf.length = 0)
      (hn : newline ∈ buf) (hcommit : commitReadBuf d h (r.grown buf.length) = .ok d₁) :
      WriteOutcome d buf a { d₁ with lock := false }

lemma aesdWrite_outcome {d d' : AesdDev} {buf : Bytes} {a : WriteAnswers} {ret : ℤ}
    (hd : aesdWrite d buf a = .ok (d', ret)) : WriteOutcome d buf a d' := by
  cases hfree : d.lock with
  | true =>
    rw [aesdWrite, aesdWriteTo, if_pos hfree] at hd
    split_ifs at hd with hi
    rw [Except.ok.injEq, Prod.mk.injEq] at hd
    exact hd.1 ▸ .interrupted hfree hi
  | false =>
    have hstart := hd
    rw [aesdWrite, aesdWriteTo, hfree, if_neg (by simp)] at hstart
    obtain ⟨⟨h₁, r₁⟩, he, hstart⟩ := bind_eq_ok.mp hstart
    obtain ⟨⟨h₂, r₂⟩, hw, hstart⟩ := bind_eq_ok.mp hstart
    obtain ⟨⟨left, h₃⟩, hc, -⟩ := bind_eq_ok.mp hstart
    have hleft := copyFromUser_left hc
    subst hleft
    by_cases hz : min a.uncopied buf.length = 0
    · rw [aesdWrite_whole hfree he hw hc hz (copyFromUser_read (hz ▸ hc))] at hd
      split_ifs at hd with hn
      · obtain ⟨d₁, hcommit, hd⟩ := bind_eq_ok.mp hd
        rw [Except.ok.injEq, Prod.mk.injEq] at hd
        exact hd.1 ▸ .closed hfree he hw hc hz hn hcommit
      · rw [Except.ok.injEq, Prod.mk.injEq] at hd
        exact hd.1 ▸ .stillOpen hfree he hw hc hz hn
    · rw [aesdWrite_short hfree he hw hc hz, Except.ok.injEq, Prod.mk.injEq] at hd
      exact hd.1 ▸ .short hfree he hw hc hz

lemma commitReadBuf_ok {d d' : AesdDev} {h : Heap} {r : ReadBuf}
    (hd : commitReadBuf d h r = .ok d') :
    let added := aesdCircularBufferAddEntry d.circBuf r.entry
    kfree h added.2 = .ok d'.heap ∧
      d' = { d with circBuf := added.1, readBuf := none, heap := d'.heap } := by
  intro added
  unfold commitReadBuf at hd
  dsimp only at hd
  split_ifs at hd with hnull
  · obtain ⟨g, hg, hd⟩ := bind_eq_ok.mp hd
    rw [Except.ok.injEq] at hd
    subst hd
    exact ⟨hg, rfl⟩
  · change Except.ok _ = _ at hd
    rw [Except.ok.injEq] at hd
    subst hd
    rw [show added.2 = .null from not_not.mp hnull]
    exact ⟨rfl, rfl⟩

lemma AesdDev.Valid.blocks {d : AesdDev} (hv : d.Valid) :
    ∀ e ∈ d.circBuf.entries, ∃ b, e.buffptr = .block b := by
  intro e he
  obtain ⟨b, -, hp, -⟩ := hv.filled e he
  exact ⟨b, hp⟩

section Ring

variable {d : AesdDev} (hr : d.circBuf.Valid)
  (hblocks : ∀ e ∈ d.circBuf.entries, ∃ b, e.buffptr = .block b)

include hr

lemma entries_le : d.circBuf.entries.length ≤ 10 := by
  rw [AesdCircularBuffer.entries_length]
  exact AesdCircularBuffer.count_le hr

/-- A full ring at most. -/
lemma entries_kept :
    (d.circBuf.entries ++ []).rtake 10 = d.circBuf.entries ∧
      (d.circBuf.entries ++ []).rdrop 10 = [] := by
  have hle := entries_le hr
  rw [List.append_nil, List.rtake, List.rdrop, Nat.sub_eq_zero_of_le hle]
  exact ⟨List.drop_zero, List.take_zero⟩

include hblocks

/-- What a commit frees: the buffers of the entries that the ring drops. -/
lemma add_frees (e : AesdBufferEntry) :
    let toFree := (aesdCircularBufferAddEntry d.circBuf e).2
    (if toFree ≠ .null then [toFree] else []) =
      ((d.circBuf.entries ++ [e]).rdrop 10).map AesdBufferEntry.buffptr := by
  have hle := entries_le hr
  dsimp only
  rw [AesdCircularBuffer.add_evicts hr, List.rdrop, List.length_append, List.length_singleton]
  rcases Nat.lt_or_ge d.circBuf.entries.length 10 with hroom | hfull
  · rw [if_pos hroom, show d.circBuf.entries.length + 1 - 10 = 0 by omega]
    simp
  · obtain ⟨old, es, hes⟩ : ∃ old es, d.circBuf.entries = old :: es :=
      List.exists_cons_of_length_pos (by omega)
    obtain ⟨b, hp⟩ := hblocks old (by simp [hes])
    rw [if_neg (Nat.not_lt.mpr hfull), show d.circBuf.entries.length + 1 - 10 = 1 by omega, hes]
    simp [hp]

/-- What a write does to the ring: a commit adds an entry, and the buffers of the entries
dropped are freed. -/
theorem aesdWrite_ring {d' : AesdDev} {buf : Bytes} {a : WriteAnswers} {ret : ℤ}
    (hd : aesdWrite d buf a = .ok (d', ret)) :
    ∃ freed added, aesdWriteFrees d buf a = .ok freed ∧ d'.circBuf.Valid ∧
      added.length = (if d.lock = false ∧ Commits buf a then 1 else 0) ∧
      (∀ e ∈ added, ∃ b, e.buffptr = .block b) ∧
      d'.circBuf.entries = (d.circBuf.entries ++ added).rtake 10 ∧
      freed = ((d.circBuf.entries ++ added).rdrop 10).map AesdBufferEntry.buffptr ∧
      ∀ b, .block b ∈ freed → d'.heap b = none := by
  obtain ⟨hkept, hnone⟩ := entries_kept hr
  cases aesdWrite_outcome hd with
  | interrupted hlock hi =>
    refine ⟨[], [], ?_, hr, by simp [hlock], by simp, hkept.symm, by rw [hnone]; rfl, by simp⟩
    rw [aesdWriteFrees, aesdWriteTo, if_pos hlock, if_pos hi]
  | short hfree he hw hc hz =>
    refine ⟨[], [], ?_, hr, by simp [Commits, hz], by simp, hkept.symm, by rw [hnone]; rfl, by simp⟩
    unfold aesdWriteFrees aesdWriteTo
    simp only [hfree, Bool.false_eq_true, if_false, he, hw, hc, hz, ne_eq, not_false_eq_true,
      if_true, bind, Except.bind]
  | stillOpen hfree he hw hc hz hn =>
    have hload := copyFromUser_read (hz ▸ hc)
    refine ⟨[], [], ?_, hr, by simp [Commits, hn], by simp, hkept.symm, by rw [hnone]; rfl, by simp⟩
    unfold aesdWriteFrees aesdWriteTo
    simp only [hfree, Bool.false_eq_true, if_false, he, hw, hc, hz, ne_eq, not_true_eq_false,
      hload, scanWritten_eq, bind, Except.bind, decide_eq_true_eq, hn]
  | @closed h₁ h₂ h r₁ r d₁ hfree he hw hc hz hn hcommit =>
    have hload := copyFromUser_read (hz ▸ hc)
    obtain ⟨b, hb⟩ := copyFromUser_block (List.ne_nil_of_mem hn) hc
    obtain ⟨hkfree, hd₁⟩ := commitReadBuf_ok hcommit
    have hfrees := add_frees hr hblocks (r.grown buf.length).entry
    refine ⟨_, [(r.grown buf.length).entry], ?_, ?_, ?_, ?_, ?_, hfrees, ?_⟩
    · unfold aesdWriteFrees aesdWriteTo
      simp only [hfree, Bool.false_eq_true, if_false, he, hw, hc, hz, ne_eq, not_true_eq_false,
        hload, scanWritten_eq, bind, Except.bind, decide_eq_true_eq, hn, if_true]
      rfl
    · rw [hd₁]
      exact AesdCircularBuffer.add_valid hr _
    · simp [hfree, Commits, hz, hn]
    · intro e he'
      rw [List.mem_singleton.mp he']
      exact ⟨b, hb⟩
    · rw [hd₁]
      exact AesdCircularBuffer.add_entries hr _
    · intro c hmem
      split_ifs at hmem with hnull
      · rw [← List.mem_singleton.mp hmem] at hkfree
        simp only [kfree] at hkfree
        split_ifs at hkfree
        rw [Except.ok.injEq] at hkfree
        exact (congrFun hkfree c).symm.trans (Function.update_self ..)
      · simp at hmem

end Ring

/-- The blanks among the slots own nothing. -/
lemma AesdCircularBuffer.slots_ids {b : AesdCircularBuffer} (hb : b.Valid) :
    (b.entry.toList.flatMap fun e => e.buffptr.ids).Perm
      (b.entries.flatMap fun e => e.buffptr.ids) := by
  obtain ⟨n, hperm⟩ := slots_perm hb
  have hblank : (List.replicate n AesdBufferEntry.zero).flatMap (fun e => e.buffptr.ids) = [] := by
    rw [List.flatMap_eq_nil_iff]
    intro e he
    rw [List.eq_of_mem_replicate he]
    rfl
  have hids := hperm.flatMap_right fun e => e.buffptr.ids
  rwa [List.flatMap_append, hblank, List.append_nil] at hids

/-- Entries that own distinct live blocks can all be freed, and nothing else is. -/
lemma kfree_entries {h : Heap} {es : List AesdBufferEntry}
    (hs : Separated h (es.flatMap fun e => e.buffptr.ids)) :
    ∃ h', es.foldlM (fun h e => kfree h e.buffptr) h = .ok h' ∧
      ∀ b, h' b = if b ∈ es.flatMap fun e => e.buffptr.ids then none else h b := by
  induction es generalizing h with
  | nil => exact ⟨h, rfl, by simp⟩
  | cons e es ih =>
    rw [List.flatMap_cons] at hs
    cases hp : e.buffptr with
    | null =>
      obtain ⟨h', hfold, hfreed⟩ := ih (by simpa [hp, Ptr.ids] using hs)
      refine ⟨h', ?_, by simpa [hp, Ptr.ids] using hfreed⟩
      rw [List.foldlM_cons, hp]
      exact hfold
    | zeroSize =>
      obtain ⟨h', hfold, hfreed⟩ := ih (by simpa [hp, Ptr.ids] using hs)
      refine ⟨h', ?_, by simpa [hp, Ptr.ids] using hfreed⟩
      rw [List.foldlM_cons, hp]
      exact hfold
    | block b =>
      have hb : Separated h (b :: es.flatMap fun e => e.buffptr.ids) := by
        simpa [hp, Ptr.ids] using hs
      obtain ⟨h', hfold, hfreed⟩ := ih hb.free
      refine ⟨h', ?_, fun c => ?_⟩
      · have hlive := hb.2 b (by simp)
        rw [List.foldlM_cons, hp, kfree, if_pos hlive]
        exact hfold
      · rw [hfreed, List.flatMap_cons, hp]
        rcases eq_or_ne c b with rfl | hne
        · simp [Ptr.ids]
        · simp [Ptr.ids, hne]

/-- Clearing up frees the blocks of the retained entries, each while it is live. -/
lemma aesdCleanupModule_spec {d : AesdDev} (hr : d.circBuf.Valid)
    (hs : Separated d.heap (d.circBuf.entries.flatMap fun e => e.buffptr.ids)) :
    ∃ h, aesdCleanupModule d = .ok h ∧
      ∀ b, h b = if b ∈ d.circBuf.entries.flatMap fun e => e.buffptr.ids then none
        else d.heap b := by
  have hperm := AesdCircularBuffer.slots_ids hr
  obtain ⟨h, hfold, hfreed⟩ := kfree_entries (hs.perm hperm.symm)
  refine ⟨h, hfold, fun b => ?_⟩
  simp only [hfreed, hperm.mem_iff]

/-- A write after which the lock counts as free again, with the pointers it frees. -/
def ownershipStep (d : AesdDev) (w : WriteCall) : Except Stop (AesdDev × List Ptr) := do
  let freed ← aesdWriteFrees { d with lock := false } w.buf w.answers
  let r ← aesdWrite { d with lock := false } w.buf w.answers
  .ok (r.1, freed)

/-- The write gets its memory, under identities that are not live. -/
def GetsMemory (d : AesdDev) (w : WriteCall) : Prop := w.answers.Granted d

/-- The entries' buffers are blocks, and with the pending one they are distinct and live. -/
def OwnsData (d : AesdDev) : Prop :=
  (∀ e ∈ d.circBuf.entries, ∃ b, e.buffptr = .block b) ∧ Separated d.heap d.dataIds

/-- A write frees the buffers of the entries it evicts. They were live, they are no longer,
and nothing the device keeps refers to them. -/
def FreesEvicted (d : AesdDev) (w : WriteCall) : Prop :=
  ∀ t freed, ownershipStep d w = .ok (t, freed) →
    (∃ added, added.length ≤ 1 ∧ t.circBuf.entries = (d.circBuf.entries ++ added).rtake 10 ∧
      freed = ((d.circBuf.entries ++ added).rdrop 10).map AesdBufferEntry.buffptr) ∧
    ∀ p ∈ freed, ∃ b, p = .block b ∧ (d.heap b).isSome ∧ t.heap b = none ∧ b ∉ t.dataIds

lemma AesdDev.Valid.ownsData {d : AesdDev} (hv : d.Valid) : OwnsData d :=
  ⟨hv.blocks, hv.separated.sublist d.dataIds_sublist⟩

lemma ownershipStep_ok {d : AesdDev} {w : WriteCall} (hv : d.Valid) (hg : GetsMemory d w) :
    ∃ t freed added, ownershipStep d w = .ok (t, freed) ∧ t.Valid ∧ added.length ≤ 1 ∧
      t.circBuf.entries = (d.circBuf.entries ++ added).rtake 10 ∧
      freed = ((d.circBuf.entries ++ added).rdrop 10).map AesdBufferEntry.buffptr ∧
      ∀ b, .block b ∈ freed → t.heap b = none := by
  have hunlocked : AesdDev.Valid { d with lock := false } := AesdDev.valid_lock hv false
  have hgrant : w.answers.Granted { d with lock := false } := ⟨hg.entry, hg.data⟩
  obtain ⟨t, ht, hdone, hshort⟩ := aesdWrite_spec hunlocked rfl hgrant w.buf
  obtain ⟨ret, hw⟩ : ∃ ret, aesdWrite { d with lock := false } w.buf w.answers = .ok (t, ret) := by
    by_cases hz : min w.answers.uncopied w.buf.length = 0
    · exact ⟨_, (hdone hz).1⟩
    · exact ⟨_, (hshort hz).1⟩
  obtain ⟨freed, added, hf, -, hlen, -, hentries, hfreed, hdead⟩ :=
    aesdWrite_ring hunlocked.ring hunlocked.blocks hw
  refine ⟨t, freed, added, ?_, ht, ?_, hentries, hfreed, hdead⟩
  · rw [ownershipStep, hf, hw]
    rfl
  · rw [hlen]
    split_ifs <;> omega

lemma ownershipStep_frees {d : AesdDev} {w : WriteCall} (hv : d.Valid) (hg : GetsMemory d w) :
    FreesEvicted d w := by
  intro t' freed' hstep
  obtain ⟨t, freed, added, hok, ht, hlen, hentries, hfreed, hdead⟩ := ownershipStep_ok hv hg
  rw [hok, Except.ok.injEq, Prod.mk.injEq] at hstep
  obtain ⟨rfl, rfl⟩ := hstep
  refine ⟨⟨added, hlen, hentries, hfreed⟩, fun p hp => ?_⟩
  have hle := entries_le hv.ring
  have hold : p ∈ d.circBuf.entries.map AesdBufferEntry.buffptr := by
    rw [hfreed, List.rdrop, List.length_append, List.take_append_of_le_length (by omega)] at hp
    exact List.map_subset _ (List.take_subset _ _) hp
  obtain ⟨e, he, rfl⟩ := List.mem_map.mp hold
  obtain ⟨b, bs, hb, hlive, -⟩ := hv.filled e he
  rw [hb] at hp ⊢
  refine ⟨b, rfl, by simp [hlive], hdead b hp, ?_⟩
  exact ht.ownsData.2.ne_of_dead (hdead b hp)

/-- Buffer ownership over every history of writes, with failed copies and the clean-up. No
call frees a dead block, or it would stop. -/
theorem buffer_ownership (circ entry : Alloc) {d : AesdDev} (hne : circ.addr ≠ entry.addr)
    (hd : aesdSetupCdev (some circ) (some entry) = .ok d) (ws : List WriteCall)
    (hg : Guarded ownershipStep GetsMemory d ws) :
    ∃ t frees, run ownershipStep d ws = .ok (t, frees) ∧
      Throughout ownershipStep OwnsData d ws ∧ Guarded ownershipStep FreesEvicted d ws ∧
      ∃ h, aesdCleanupModule t = .ok h ∧
        ∀ e ∈ t.circBuf.entries, ∀ b, e.buffptr = .block b → (t.heap b).isSome ∧ h b = none := by
  have hv : d.Valid := (setup_standsFor hne hd fun _ => 0).valid
  have hkeep : ∀ (s : AesdDev) (w : WriteCall) (u : AesdDev) (freed : List Ptr), s.Valid →
      GetsMemory s w → ownershipStep s w = .ok (u, freed) → u.Valid := by
    intro s w u freed hs hw hstep
    obtain ⟨t, freed', added, hok, ht, -⟩ := ownershipStep_ok hs hw
    rw [hok, Except.ok.injEq, Prod.mk.injEq] at hstep
    exact hstep.1 ▸ ht
  obtain ⟨t, frees, hrun, ht⟩ := run_total AesdDev.Valid (fun s w hs hw => by
    obtain ⟨t, freed, added, hok, ht, -⟩ := ownershipStep_ok hs hw
    exact ⟨t, freed, hok, ht⟩) hv hg
  have hsep : Separated t.heap (t.circBuf.entries.flatMap fun e => e.buffptr.ids) :=
    ht.ownsData.2.sublist (List.sublist_append_right _ _)
  obtain ⟨h, hclean, hfreed⟩ := aesdCleanupModule_spec ht.ring hsep
  refine ⟨t, frees, hrun, hg.throughout AesdDev.Valid (fun s hs => hs.ownsData) hkeep hv,
    hg.imp AesdDev.Valid (fun s w hs hw => ownershipStep_frees hs hw) hkeep hv, h, hclean, ?_⟩
  intro e he b hb
  have hmem : b ∈ t.circBuf.entries.flatMap fun e => e.buffptr.ids :=
    List.mem_flatMap.mpr ⟨e, he, by simp [hb, Ptr.ids]⟩
  exact ⟨hsep.2 b hmem, by rw [hfreed, if_pos hmem]⟩

instance (d : AesdDev) (w : WriteCall) : Decidable (GetsMemory d w) :=
  inferInstanceAs (Decidable (w.answers.Granted d))

/-- Ten lines fill the ring. The copy of the next fails, and then it is written again. -/
def evictingWrites : List WriteCall :=
  (List.range 10).map (fun k => ⟨0, [97, 10], granting (2 * k + 3) (2 * k + 4)⟩) ++
    [⟨0, [98, 10], { granting 23 24 with uncopied := 1 }⟩, ⟨0, [98, 10], granting 25 26⟩]

theorem buffer_ownership_evicting :
    ∃ t frees, run ownershipStep DriverState.fresh.dev evictingWrites = .ok (t, frees) ∧
      frees.flatten = [.block 4] ∧
      Throughout ownershipStep OwnsData DriverState.fresh.dev evictingWrites ∧
      Guarded ownershipStep FreesEvicted DriverState.fresh.dev evictingWrites ∧
      ∃ h, aesdCleanupModule t = .ok h ∧
        ∀ e ∈ t.circBuf.entries, ∀ b, e.buffptr = .block b → (t.heap b).isSome ∧ h b = none := by
  have hfrees : (run ownershipStep DriverState.fresh.dev evictingWrites).toOption.map
      (fun r => r.2.flatten) = some [.block 4] := by decide +kernel
  obtain ⟨t, frees, hrun, hrest⟩ := buffer_ownership ⟨1, 0⟩ ⟨2, 0⟩ (by decide)
    DriverState.fresh_setup evictingWrites (by decide +kernel)
  rw [hrun] at hfrees
  exact ⟨t, frees, hrun, Option.some.inj hfrees, hrest⟩

end Aesd
