import Aesd.DriverOwnership

/-! The account of live blocks over any run of calls: those the device owns, and those that
calls have lost. A commit loses the structure of the pending entry, a refused seek request
its scratch buffer, and a `krealloc` that fails the block it should have resized. -/
namespace Aesd
open AesdDev Machine Memory Separation

section Kernel

variable {h h' : Heap} {rest : List ℕ}

lemma kmalloc_exact {p : Ptr} {n : ℕ} {a : Option Alloc} (hs : Exact h rest)
    (hfresh : ∀ m, a = some m → h m.addr = none) (hk : kmalloc h a n = (p, h')) :
    Exact h' (p.ids ++ rest) := by
  unfold kmalloc at hk
  split_ifs at hk
  · simp only [Prod.mk.injEq] at hk
    obtain ⟨rfl, rfl⟩ := hk
    exact hs
  · cases a with
    | none =>
      simp only [Prod.mk.injEq] at hk
      obtain ⟨rfl, rfl⟩ := hk
      exact hs
    | some m =>
      simp only [Prod.mk.injEq] at hk
      obtain ⟨rfl, rfl⟩ := hk
      exact hs.alloc (hfresh m rfl) _

lemma kfree_exact {p : Ptr} (hs : Exact h (p.ids ++ rest)) (hk : kfree h p = .ok h') :
    Exact h' rest := by
  cases p with
  | null =>
    simp only [kfree, Except.ok.injEq] at hk
    exact hk ▸ hs
  | zeroSize =>
    simp only [kfree, Except.ok.injEq] at hk
    exact hk ▸ hs
  | block b =>
    simp only [kfree] at hk
    split_ifs at hk
    rw [Except.ok.injEq] at hk
    exact hk ▸ hs.free

/-- The block that a `krealloc` to `n` bytes loses by failing. -/
def kreallocLoses (p : Ptr) (n : ℕ) (a : Option Alloc) : List ℕ :=
  if a.isNone ∧ n ≠ 0 then p.ids else []

lemma krealloc_exact {p p' : Ptr} {n : ℕ} {a : Option Alloc} {inPlace : Bool}
    (hs : Exact h (p.ids ++ rest)) (hfresh : ∀ m, a = some m → h m.addr = none)
    (hk : krealloc h p n a inPlace = .ok (p', h')) :
    Exact h' (p'.ids ++ (kreallocLoses p n a ++ rest)) := by
  cases p with
  | null =>
    simp only [krealloc, Except.ok.injEq] at hk
    have hexact := kmalloc_exact hs hfresh hk
    simpa [kreallocLoses, Ptr.ids] using hexact
  | zeroSize =>
    simp only [krealloc, Except.ok.injEq] at hk
    have hexact := kmalloc_exact hs hfresh hk
    simpa [kreallocLoses, Ptr.ids] using hexact
  | block b =>
    obtain ⟨bs, hbs⟩ := Option.isSome_iff_exists.mp ((hs.2 b).mpr (by simp [Ptr.ids]))
    simp only [krealloc, hbs] at hk
    by_cases hz : n = 0
    · simp only [if_pos hz, Except.ok.injEq, Prod.mk.injEq] at hk
      obtain ⟨rfl, rfl⟩ := hk
      simpa [kreallocLoses, hz, Ptr.ids] using hs.free
    · rw [if_neg hz] at hk
      cases a with
      | none =>
        simp only [Except.ok.injEq, Prod.mk.injEq] at hk
        obtain ⟨rfl, rfl⟩ := hk
        simpa [kreallocLoses, hz, Ptr.ids] using hs
      | some m =>
        simp only at hk
        split_ifs at hk
        · simp only [Except.ok.injEq, Prod.mk.injEq] at hk
          obtain ⟨rfl, rfl⟩ := hk
          refine Exact.congr (by simpa [kreallocLoses, Ptr.ids] using hs) fun c => ?_
          rcases eq_or_ne c b with rfl | hne
          · simp [hbs]
          · rw [Function.update_of_ne hne]
        · simp only [Except.ok.injEq, Prod.mk.injEq] at hk
          obtain ⟨rfl, rfl⟩ := hk
          have hne : m.addr ≠ b := fun he => by simp [← he, hfresh m rfl] at hbs
          have hdead : Function.update h b none m.addr = none := by
            rw [Function.update_of_ne hne]
            exact hfresh m rfl
          simpa [kreallocLoses, Ptr.ids] using hs.free.alloc hdead (resize m.junk n bs)

/-- A store leaves the heap alone, or changes the bytes of the live block it goes to. -/
lemma storeRun_cases {p : Ptr} {off : ℕ} {ys : Bytes} (hk : storeRun h p off ys = .ok h') :
    h' = h ∨ ∃ b bs bs', p = .block b ∧ h b = some bs ∧ h' = Function.update h b (some bs') := by
  unfold storeRun at hk
  split_ifs at hk
  · rw [Except.ok.injEq] at hk
    exact Or.inl hk.symm
  · cases p with
    | null => simp at hk
    | zeroSize => simp at hk
    | block c =>
      cases hc : h c with
      | none => simp [hc] at hk
      | some bs =>
        simp only [hc] at hk
        split_ifs at hk
        rw [Except.ok.injEq] at hk
        exact Or.inr ⟨c, bs, _, rfl, hc, hk.symm⟩

/-- Storing bytes changes no block's being live. -/
lemma storeRun_live {p : Ptr} {off : ℕ} {ys : Bytes} (hk : storeRun h p off ys = .ok h') (b : ℕ) :
    (h' b).isSome = (h b).isSome := by
  rcases storeRun_cases hk with rfl | ⟨c, bs, bs', -, hc, rfl⟩
  · rfl
  · rcases eq_or_ne b c with rfl | hne
    · simp [hc]
    · rw [Function.update_of_ne hne]

lemma copyFromUser_live {p : Ptr} {off uncopied left : ℕ} {buf : Bytes}
    (hk : copyFromUser h p off buf uncopied = .ok (left, h')) (b : ℕ) :
    (h' b).isSome = (h b).isSome := by
  obtain ⟨g, hg, hk⟩ := bind_eq_ok.mp hk
  simp only [Except.ok.injEq, Prod.mk.injEq] at hk
  exact hk.2 ▸ storeRun_live hg b

section Stores

variable {mybuffer : Ptr} {P : Heap → Prop}
  (hstore : ∀ g g' off ys, P g → storeRun g mybuffer off ys = .ok g' → P g')

include hstore

/-- What every store to the scratch buffer keeps, the inner loop keeps. -/
lemma seekCopy_keeps {src : Ptr} {off n i pos pos' : ℕ} (hP : P h)
    (hk : seekCopy src mybuffer off n i pos h = .ok (h', pos')) : P h' := by
  induction n generalizing i pos h with
  | zero =>
    simp only [seekCopy, Except.ok.injEq, Prod.mk.injEq] at hk
    exact hk.1 ▸ hP
  | succ n ih =>
    obtain ⟨c, -, hk⟩ := bind_eq_ok.mp hk
    obtain ⟨g, hg, hk⟩ := bind_eq_ok.mp hk
    exact ih (hstore _ _ _ _ hP hg) hk

lemma seekLoop_keeps {b : AesdCircularBuffer} {total : ℤ} {fuel : ℕ} {s s' : SeekState}
    (hP : P s.heap) (hk : seekLoop b mybuffer total fuel s = .ok s') : P s'.heap := by
  induction fuel generalizing s with
  | zero => simp [seekLoop] at hk
  | succ fuel ih =>
    unfold seekLoop at hk
    split_ifs at hk
    · obtain ⟨⟨g, pos⟩, hg, hk⟩ := bind_eq_ok.mp hk
      have hkept := seekCopy_keeps hstore hP hg
      dsimp only at hk
      split_ifs at hk
      · rw [Except.ok.injEq] at hk
        exact hk ▸ hkept
      · exact ih hkept hk
    · rw [Except.ok.injEq] at hk
      exact hk ▸ hP

end Stores

lemma seekLoop_live {b : AesdCircularBuffer} {mybuffer : Ptr} {total : ℤ} {fuel : ℕ}
    {s s' : SeekState} (hk : seekLoop b mybuffer total fuel s = .ok s') (c : ℕ) :
    (s'.heap c).isSome = (s.heap c).isSome :=
  seekLoop_keeps (P := fun g => (g c).isSome = (s.heap c).isSome)
    (fun _ _ _ _ hP hg => (storeRun_live hg c).trans hP) rfl hk

end Kernel

/-- An identity that a call is granted is not live at that time. -/
def Call.Fresh (d : AesdDev) : Call → Prop
  | .write _ _ a =>
    (d.readBuf = none → ∀ e, a.entryAlloc = some e → d.heap e.addr = none) ∧
      ∀ m, a.dataAlloc = some m → d.heap m.addr = none ∧
        (d.readBuf = none → ∀ e, a.entryAlloc = some e → m.addr ≠ e.addr)
  | .ioctl _ _ _ a => ∀ m, a.scratch = some m → d.heap m.addr = none
  | _ => True

instance (d : AesdDev) (c : Call) : Decidable (c.Fresh d) :=
  match c with
  | .write _ _ a =>
    inferInstanceAs (Decidable ((d.readBuf = none → ∀ e ∈ a.entryAlloc, d.heap e.addr = none) ∧
      ∀ m ∈ a.dataAlloc, d.heap m.addr = none ∧
        (d.readBuf = none → ∀ e ∈ a.entryAlloc, m.addr ≠ e.addr)))
  | .ioctl _ _ _ a => inferInstanceAs (Decidable (∀ m ∈ a.scratch, d.heap m.addr = none))
  | .read .. => .isTrue trivial
  | .llseek .. => .isTrue trivial

/-- The call loses a block: it commits, it is a seek request refused behind the allocation
of its scratch buffer, or it cannot resize a pending block to more than no bytes. -/
def Call.Leaks (d : AesdDev) : Call → Prop
  | .write _ buf a => d.lock = false ∧
      (Commits buf a ∨ ∃ r b, d.readBuf = some r ∧ r.entry.buffptr = .block b ∧
        a.dataAlloc = none ∧ r.entry.size + buf.length ≠ 0)
  | .ioctl _ cmd arg a => d.lock = false ∧ cmd = AESDCHAR_IOCSEEKTO ∧ a.scratch ≠ none ∧
      10 < (fetchSeekto arg a.argUnread).writeCmd.toNat
  | _ => False

section Write

variable {rest : List ℕ} {a : WriteAnswers} {r r' : ReadBuf} {h h' : Heap}

lemma ensureReadBuf_exact {rb : Option ReadBuf} (hs : Exact h ((rb.map ReadBuf.ids).getD [] ++ rest))
    (hfresh : rb = none → ∀ e, a.entryAlloc = some e → h e.addr = none)
    (hk : ensureReadBuf h rb a = .ok (h', r)) :
    Exact h' (r.ids ++ rest) ∧ (rb = some r ∧ h' = h ∨
      rb = none ∧ r.entry = .zero ∧ ∃ e v, a.entryAlloc = some e ∧
        h' = Function.update h e.addr v) := by
  cases rb with
  | some r₀ =>
    simp only [ensureReadBuf, Except.ok.injEq, Prod.mk.injEq] at hk
    obtain ⟨rfl, rfl⟩ := hk
    exact ⟨hs, Or.inl ⟨rfl, rfl⟩⟩
  | none =>
    cases ha : a.entryAlloc with
    | none => simp [ensureReadBuf, kmalloc, ha, sizeofBufferEntry] at hk
    | some e =>
      simp only [ensureReadBuf, kmalloc, ha, sizeofBufferEntry, OfNat.ofNat_ne_zero, if_false,
        Except.ok.injEq, Prod.mk.injEq] at hk
      obtain ⟨rfl, rfl⟩ := hk
      refine ⟨?_, Or.inr ⟨rfl, rfl, e, _, rfl, rfl⟩⟩
      exact hs.alloc (hfresh rfl e ha) _

/-- The pending block a growing write loses. -/
def growLoses (r : ReadBuf) (count : ℕ) (a : WriteAnswers) : List ℕ :=
  kreallocLoses r.entry.buffptr (r.entry.size + count) a.dataAlloc

lemma growReadBuf_exact {count : ℕ} (hs : Exact h (r.ids ++ rest))
    (hfresh : ∀ m, a.dataAlloc = some m → h m.addr = none)
    (hk : growReadBuf h r count a = .ok (h', r')) :
    Exact h' (r'.ids ++ (growLoses r count a ++ rest)) := by
  have hptr : Exact h (r.entry.buffptr.ids ++ (r.addr :: rest)) :=
    hs.perm List.perm_middle.symm
  unfold growReadBuf at hk
  split_ifs at hk with hnull
  · simp only [Except.ok.injEq, Prod.mk.injEq] at hk
    obtain ⟨rfl, rfl⟩ := hk
    have hstruct : Exact h (r.addr :: rest) := by simpa [hnull, Ptr.ids] using hptr
    have hexact := kmalloc_exact (n := count) hstruct hfresh rfl
    have hnone : growLoses r count a = [] := by simp [growLoses, kreallocLoses, hnull, Ptr.ids]
    rw [hnone]
    exact hexact.perm List.perm_middle
  · obtain ⟨⟨p, g⟩, hp, hk⟩ := bind_eq_ok.mp hk
    simp only [Except.ok.injEq, Prod.mk.injEq] at hk
    obtain ⟨rfl, rfl⟩ := hk
    have hexact := krealloc_exact hptr hfresh hp
    refine hexact.perm ?_
    simp only [growLoses, ReadBuf.ids]
    rw [List.perm_iff_count]
    intro c
    simp only [List.count_append, List.count_cons]
    omega

/-- An addition keeps the blocks of the ring and the new entry, but for the one it gives back. -/
lemma add_ids {b : AesdCircularBuffer} (hb : b.Valid) (e : AesdBufferEntry) :
    let added := aesdCircularBufferAddEntry b e
    (e.buffptr.ids ++ b.entries.flatMap fun e => e.buffptr.ids).Perm
      (added.2.ids ++ added.1.entries.flatMap fun e => e.buffptr.ids) := by
  dsimp only
  have hle := AesdCircularBuffer.count_le hb
  rw [← AesdCircularBuffer.entries_length] at hle
  rw [AesdCircularBuffer.add_entries hb, AesdCircularBuffer.add_evicts hb, List.rtake,
    List.length_append, List.length_singleton]
  rcases Nat.lt_or_ge b.entries.length 10 with hroom | hfull
  · rw [if_pos hroom, show b.entries.length + 1 - 10 = 0 by omega, List.drop_zero]
    simpa [Ptr.ids] using List.perm_append_comm
  · obtain ⟨old, es, hes⟩ : ∃ old es, b.entries = old :: es :=
      List.exists_cons_of_length_pos (by omega)
    rw [if_neg (Nat.not_lt.mpr hfull), show b.entries.length + 1 - 10 = 1 by omega, hes]
    simp only [List.cons_append, List.drop_succ_cons, List.drop_zero, List.flatMap_append,
      List.flatMap_cons, List.flatMap_nil, List.append_nil, List.head?_cons, Option.getD_some]
    rw [List.perm_iff_count]
    intro c
    simp only [List.count_append]
    omega

/-- The account of a commit: the pending block goes to the ring, the structure is lost, and
what the ring gives back is freed. -/
lemma commitReadBuf_exact {d d' : AesdDev} (hr : d.circBuf.Valid)
    (hs : Exact h (r.ids ++ (d.ringIds ++ rest))) (hk : commitReadBuf d h r = .ok d') :
    d'.circBuf.Valid ∧ d'.circBufAddr = d.circBufAddr ∧
      Exact d'.heap (d'.owned ++ (r.addr :: rest)) := by
  obtain ⟨hkfree, hd⟩ := commitReadBuf_ok hk
  have hids := add_ids hr r.entry
  refine ⟨by rw [hd]; exact AesdCircularBuffer.add_valid hr _, by rw [hd], ?_⟩
  refine kfree_exact (hs.perm ?_) hkfree
  have howned : d'.owned = d.circBufAddr ::
      (aesdCircularBufferAddEntry d.circBuf r.entry).1.entries.flatMap fun e => e.buffptr.ids := by
    rw [hd]
    rfl
  rw [howned, List.perm_iff_count]
  intro c
  have hcount := (List.perm_iff_count.mp hids) c
  simp only [ReadBuf.ids, ringIds, List.count_append, List.count_cons] at hcount ⊢
  omega

/-- The account of a write up to its copy. -/
lemma copied_exact {d : AesdDev} {file left : ℕ} {buf : Bytes} {lost : List ℕ} {h₁ h₂ : Heap}
    {r₁ : ReadBuf} (hs : Exact d.heap (d.owned ++ lost))
    (hfresh : (Call.write file buf a).Fresh d)
    (he : ensureReadBuf d.heap d.readBuf a = .ok (h₁, r₁))
    (hw : growReadBuf h₁ r₁ buf.length a = .ok (h₂, r))
    (hc : copyFromUser h₂ r.entry.buffptr r.entry.size buf a.uncopied = .ok (left, h)) :
    Exact h (r.ids ++ (d.ringIds ++ (growLoses r₁ buf.length a ++ lost))) ∧
      (growLoses r₁ buf.length a = [] ↔ ¬∃ r b, d.readBuf = some r ∧ r.entry.buffptr = .block b ∧
        a.dataAlloc = none ∧ r.entry.size + buf.length ≠ 0) := by
  have hsplit : Exact d.heap ((d.readBuf.map ReadBuf.ids).getD [] ++ (d.ringIds ++ lost)) := by
    simpa [owned] using hs
  obtain ⟨hs₁, hfirst⟩ := ensureReadBuf_exact hsplit hfresh.1 he
  have hdata : ∀ m, a.dataAlloc = some m → h₁ m.addr = none := by
    intro m hm
    obtain ⟨hdead, hne⟩ := hfresh.2 m hm
    rcases hfirst with ⟨-, rfl⟩ | ⟨hnone, -, e, v, hentry, rfl⟩
    · exact hdead
    · rw [Function.update_of_ne (hne hnone e hentry)]
      exact hdead
  have hs₂ := growReadBuf_exact hs₁ hdata hw
  refine ⟨(hs₂.congr (copyFromUser_live hc)).perm ?_, ?_⟩
  · rw [List.perm_iff_count]
    intro c
    simp only [List.count_append]
    omega
  · rcases hfirst with ⟨hrb, -⟩ | ⟨hrb, hzero, -⟩
    · simp only [growLoses, kreallocLoses, hrb, Option.some.injEq, Option.isNone_iff_eq_none]
      cases hp : r₁.entry.buffptr <;> simp [hp, Ptr.ids]
    · simp [growLoses, kreallocLoses, hrb, hzero, AesdBufferEntry.zero, Ptr.ids]

/-- A write that returns has got its entry. -/
lemma entryGranted_of_ok {d : AesdDev} {h : Heap} {r : ReadBuf} {file : ℕ} {buf : Bytes}
    (hfresh : (Call.write file buf a).Fresh d) (he : ensureReadBuf d.heap d.readBuf a = .ok (h, r))
    (hnone : d.readBuf = none) : ∃ e, a.entryAlloc = some e ∧ d.heap e.addr = none := by
  cases ha : a.entryAlloc with
  | none => simp [ensureReadBuf, hnone, kmalloc, ha, sizeofBufferEntry] at he
  | some e => exact ⟨e, rfl, hfresh.1 hnone e ha⟩

/-- A write of some bytes that returns has got its memory. -/
lemma granted_of_ok {d d' : AesdDev} {file : ℕ} {buf : Bytes} {ret : ℤ} (hfree : d.lock = false)
    (hbuf : buf ≠ []) (hfresh : (Call.write file buf a).Fresh d)
    (hd : aesdWrite d buf a = .ok (d', ret)) : a.Granted d := by
  rw [aesdWrite, aesdWriteTo, hfree, if_neg (by simp)] at hd
  obtain ⟨⟨h₁, r₁⟩, he, hd⟩ := bind_eq_ok.mp hd
  obtain ⟨⟨h₂, r₂⟩, hw, hd⟩ := bind_eq_ok.mp hd
  obtain ⟨⟨left, h₃⟩, hc, -⟩ := bind_eq_ok.mp hd
  obtain ⟨b, hb⟩ := copyFromUser_block hbuf hc
  constructor
  · exact entryGranted_of_ok hfresh he
  · cases ha : a.dataAlloc with
    | some m => exact ⟨m, rfl, hfresh.2 m ha⟩
    | none =>
      unfold growReadBuf at hw
      split_ifs at hw with hnull
      · simp only [Except.ok.injEq, Prod.mk.injEq] at hw
        rw [← hw.2] at hb
        simp only [kmalloc, ha] at hb
        split_ifs at hb
      · obtain ⟨⟨p, g⟩, hp, hw⟩ := bind_eq_ok.mp hw
        simp only [Except.ok.injEq, Prod.mk.injEq] at hw
        rw [← hw.2] at hb
        dsimp only at hb
        rw [hb, ha] at hp
        cases hq : r₁.entry.buffptr with
        | null => exact absurd hq hnull
        | zeroSize =>
          simp only [hq, krealloc, kmalloc] at hp
          split_ifs at hp <;> simp at hp
        | block c =>
          simp only [hq, krealloc] at hp
          cases hc : h₁ c with
          | none => simp [hc] at hp
          | some bs =>
            simp only [hc] at hp
            split_ifs at hp <;> simp at hp

/-- The account of a write. -/
lemma aesdWrite_exact {d d' : AesdDev} {file : ℕ} {buf : Bytes} {ret : ℤ} {lost : List ℕ}
    (hr : d.circBuf.Valid) (hs : Exact d.heap (d.owned ++ lost))
    (hfresh : (Call.write file buf a).Fresh d) (hw : aesdWrite d buf a = .ok (d', ret)) :
    d'.circBuf.Valid ∧ d'.circBufAddr = d.circBufAddr ∧ ∃ more,
      Exact d'.heap (d'.owned ++ (more ++ lost)) ∧
        (more = [] ↔ ¬(Call.write file buf a).Leaks d) := by
  cases aesdWrite_outcome hw with
  | interrupted hlock => exact ⟨hr, rfl, [], hs, by simp [Call.Leaks, hlock]⟩
  | @short h₁ h₂ h r₁ r hfree he hg hc hz =>
    obtain ⟨hexact, hloses⟩ := copied_exact hs hfresh he hg hc
    refine ⟨hr, rfl, growLoses r₁ buf.length a, by simpa [owned, ringIds, withPending] using hexact, ?_⟩
    simp only [hloses, Call.Leaks, hfree, Commits, hz, false_and, false_or, true_and]
  | @stillOpen h₁ h₂ h r₁ r hfree he hg hc hz hn =>
    obtain ⟨hexact, hloses⟩ := copied_exact hs hfresh he hg hc
    refine ⟨hr, rfl, growLoses r₁ buf.length a, ?_, ?_⟩
    · simpa [owned, ringIds, withPending, ReadBuf.ids, ReadBuf.grown] using hexact
    · simp only [hloses, Call.Leaks, hfree, Commits, hn, and_false, false_or, true_and]
  | @closed h₁ h₂ h r₁ r d₁ hfree he hg hc hz hn hcommit =>
    obtain ⟨hexact, -⟩ := copied_exact hs hfresh he hg hc
    have hgrown : Exact h ((r.grown buf.length).ids ++
      (d.ringIds ++ (growLoses r₁ buf.length a ++ lost))) := hexact
    obtain ⟨hring, haddr, hkept⟩ := commitReadBuf_exact hr hgrown hcommit
    refine ⟨hring, haddr, r.addr :: growLoses r₁ buf.length a, hkept, ?_⟩
    simp [Call.Leaks, hfree, Commits, hz, hn]

end Write

/-- The account of a seek request. -/
lemma aesdIoctl_exact {d d' : AesdDev} {file cmd : ℕ} {arg : AesdSeekto} {a : IoctlAnswers}
    {answer : ℤ × Option SeekResult} {lost : List ℕ} (hr : d.circBuf.Valid)
    (hs : Exact d.heap (d.owned ++ lost)) (hfresh : (Call.ioctl file cmd arg a).Fresh d)
    (hi : aesdIoctl d cmd arg a = .ok (d', answer)) :
    d'.circBuf.Valid ∧ d'.circBufAddr = d.circBufAddr ∧ ∃ more,
      Exact d'.heap (d'.owned ++ (more ++ lost)) ∧
        (more = [] ↔ ¬(Call.ioctl file cmd arg a).Leaks d) := by
  have hexact : Exact (kmalloc d.heap a.scratch 500).2
      ((kmalloc d.heap a.scratch 500).1.ids ++ (d.owned ++ lost)) :=
    kmalloc_exact hs hfresh (Prod.mk.eta ..).symm
  cases aesdIoctl_outcome hi with
  | other hcmd => exact ⟨hr, rfl, [], hs, by simp [Call.Leaks, hcmd]⟩
  | interrupted _ hlock => exact ⟨hr, rfl, [], hs, by simp [Call.Leaks, hlock]⟩
  | refused hcmd hfree hbig =>
    refine ⟨hr, rfl, (kmalloc d.heap a.scratch 500).1.ids, hexact.perm ?_, ?_⟩
    · simp only [owned, ringIds]
      rw [List.perm_iff_count]
      intro c
      simp only [List.count_append, List.count_cons]
      omega
    · simp only [Call.Leaks, hfree, hcmd, hbig]
      cases a.scratch <;> simp [kmalloc, Ptr.ids]
  | answered hcmd hfree hsmall hheap hloop hkfree =>
    refine ⟨hr, rfl, [], ?_, iff_of_true rfl fun hleaks => absurd hleaks.2.2.2 (not_lt.mpr hsmall)⟩
    rw [← hheap] at hexact
    exact kfree_exact (hexact.congr (seekLoop_live hloop)) hkfree

/-- The account of any call. -/
lemma step_exact {s t : DriverState} {c : Call} {o : Reply} {lost : List ℕ}
    (hr : s.dev.circBuf.Valid) (hs : Exact s.dev.heap (s.dev.owned ++ lost)) (hfresh : c.Fresh s.dev)
    (h : s.step c = .ok (t, o)) :
    t.dev.circBuf.Valid ∧ t.dev.circBufAddr = s.dev.circBufAddr ∧ ∃ more,
      Exact t.dev.heap (t.dev.owned ++ (more ++ lost)) ∧ (more = [] ↔ ¬c.Leaks s.dev) := by
  cases step_outcome h with
  | write hw => exact aesdWrite_exact hr hs hfresh hw
  | read => exact ⟨hr, rfl, [], hs, by simp [Call.Leaks]⟩
  | llseek => exact ⟨hr, rfl, [], hs, by simp [Call.Leaks]⟩
  | ioctl hi => exact aesdIoctl_exact hr hs hfresh hi

/-- The live blocks are the ones the device reaches, and they are few. -/
structure NothingLost (d : AesdDev) : Prop where
  exact : Exact d.heap d.owned
  few : Set.ncard {b | (d.heap b).isSome} ≤ 13

lemma ids_length_le (p : Ptr) : p.ids.length ≤ 1 := by cases p <;> simp [Ptr.ids]

/-- A structure and a block of pending bytes, the ring, and a block for each entry. -/
lemma owned_length {d : AesdDev} (hr : d.circBuf.Valid) : d.owned.length ≤ 13 := by
  have hpending : ((d.readBuf.map ReadBuf.ids).getD []).length ≤ 2 := by
    cases d.readBuf with
    | none => simp
    | some r =>
      have hle := ids_length_le r.entry.buffptr
      simp only [Option.map_some, Option.getD_some, ReadBuf.ids, List.length_cons]
      omega
  have hentries : (d.circBuf.entries.flatMap fun e => e.buffptr.ids).length ≤ 10 := by
    have hle := AesdCircularBuffer.count_le hr
    rw [← AesdCircularBuffer.entries_length] at hle
    rw [List.length_flatMap]
    refine (List.sum_le_card_nsmul _ 1 ?_).trans ?_
    · intro n hn
      obtain ⟨e, -, rfl⟩ := List.mem_map.mp hn
      exact ids_length_le e.buffptr
    · simpa using hle
  simp only [owned, ringIds, List.length_append, List.length_cons]
  omega

lemma nothingLost_of_exact {d : AesdDev} (hr : d.circBuf.Valid) (hs : Exact d.heap d.owned) :
    NothingLost d :=
  ⟨hs, hs.ncard.trans_le (owned_length hr)⟩

lemma setup_exact {circ entry : Alloc} {d : AesdDev} (hne : circ.addr ≠ entry.addr)
    (hd : aesdSetupCdev (some circ) (some entry) = .ok d) :
    d.circBuf.Valid ∧ Exact d.heap d.owned ∧ d.circBufAddr = circ.addr := by
  rw [aesdSetupCdev_eq, Except.ok.injEq] at hd
  have hempty : aesdCircularBufferInit.entries = [] := rfl
  subst hd
  refine ⟨AesdCircularBuffer.init_valid, ?_, rfl⟩
  have hnil : Exact (fun _ : ℕ => (none : Option Bytes)) [] := ⟨List.nodup_nil, by simp⟩
  have hcirc := hnil.alloc (m := circ.addr) rfl (resize circ.junk 168 [])
  have hboth := hcirc.alloc (m := entry.addr) (by simp [hne.symm]) (resize entry.junk 16 [])
  simpa [owned, ringIds, ReadBuf.ids, AesdBufferEntry.zero, Ptr.ids, hempty] using hboth

/-- Clearing up succeeds and nothing is live behind it. -/
def AllReleased (d : AesdDev) : Prop := ∃ h, aesdCleanupModule d = .ok h ∧ ∀ b, h b = none

/-- Clearing up leaves the ring's own structure behind. -/
lemma cleanup_keeps {d : AesdDev} {lost : List ℕ} (hr : d.circBuf.Valid)
    (hs : Exact d.heap (d.owned ++ lost)) :
    ∃ h, aesdCleanupModule d = .ok h ∧ (h d.circBufAddr).isSome := by
  have hring : Separated d.heap d.ringIds :=
    (hs.separated.sublist (List.sublist_append_left _ _)).sublist (List.sublist_append_right _ _)
  obtain ⟨hnew, -⟩ := List.nodup_cons.mp hring.1
  obtain ⟨h, hclean, hfreed⟩ := aesdCleanupModule_spec hr (hring.sublist (List.sublist_cons_self _ _))
  refine ⟨h, hclean, ?_⟩
  rw [hfreed, if_neg hnew]
  exact hring.2 _ (by simp [ringIds])

/-- The account over runs. The live blocks are the ones the device reaches, in every state
of a run, exactly when no call of it loses one. Clearing up never leaves nothing: the
ring's own structure stays. -/
theorem live_blocks (circ entry : Alloc) {d : AesdDev} (hne : circ.addr ≠ entry.addr)
    (hd : aesdSetupCdev (some circ) (some entry) = .ok d) (fpos : ℕ → ℤ) (calls : List Call)
    (hfresh : Guarded DriverState.step (fun s c => c.Fresh s.dev) ⟨d, fpos⟩ calls)
    (t : DriverState) (os : List Reply) (hrun : DriverState.run ⟨d, fpos⟩ calls = .ok (t, os)) :
    (Throughout DriverState.step (fun s => NothingLost s.dev) ⟨d, fpos⟩ calls ↔
        Guarded DriverState.step (fun s c => ¬c.Leaks s.dev) ⟨d, fpos⟩ calls) ∧
      (∃ h, aesdCleanupModule t.dev = .ok h ∧ (h circ.addr).isSome) ∧ ¬AllReleased t.dev := by
  obtain ⟨hring, hexact, haddr⟩ := setup_exact hne hd
  have hclean : ∃ h, aesdCleanupModule t.dev = .ok h ∧ (h circ.addr).isSome := by
    obtain ⟨ht, hta, lost, hts⟩ := run_invariant (fun s c => c.Fresh s.dev)
      (fun s => s.dev.circBuf.Valid ∧ s.dev.circBufAddr = circ.addr ∧
        ∃ lost, Exact s.dev.heap (s.dev.owned ++ lost))
      (fun s c u o hs hc hstep => by
        obtain ⟨hr, ha, lost, hs⟩ := hs
        obtain ⟨hr', ha', more, hs', -⟩ := step_exact hr hs hc hstep
        exact ⟨hr', ha'.trans ha, _, hs'⟩)
      ⟨hring, haddr, [], by simpa using hexact⟩ hfresh hrun
    exact hta ▸ cleanup_keeps ht hts
  refine ⟨?_, hclean, ?_⟩
  · refine throughout_iff (fun s => s.dev.circBuf.Valid ∧ Exact s.dev.heap s.dev.owned)
      (fun s hs => nothingLost_of_exact hs.1 hs.2) ?_ ?_ ⟨hring, hexact⟩ hfresh hrun
    · intro s c u o hs hc hkeeps hstep
      have hnil : Exact s.dev.heap (s.dev.owned ++ []) := by simpa using hs.2
      obtain ⟨hr', -, more, hs', hmore⟩ := step_exact hs.1 hnil hc hstep
      refine ⟨hr', ?_⟩
      simpa [hmore.mpr hkeeps] using hs'
    · intro s c u o hs hc hloses hstep hnothing
      have hnil : Exact s.dev.heap (s.dev.owned ++ []) := by simpa using hs.2
      obtain ⟨hr', -, more, hs', hmore⟩ := step_exact hs.1 hnil hc hstep
      obtain ⟨m, hm⟩ := List.exists_mem_of_ne_nil more fun hnil => hloses (hmore.mp hnil)
      have howned : m ∈ u.dev.owned :=
        (hnothing.exact.2 m).mp ((hs'.2 m).mpr (by simp [hm]))
      exact (List.nodup_append.mp hs'.1).2.2 m howned m (by simp [hm]) rfl
  · rintro ⟨h, hh, hnone⟩
    obtain ⟨h', hh', hlive⟩ := hclean
    rw [hh, Except.ok.injEq] at hh'
    simp [← hh', hnone] at hlive

theorem live_blocks_open_write :
    ∃ t os, DriverState.fresh.run [.write 0 [97] (granting 3 4)] = .ok (t, os) ∧
      (Throughout DriverState.step (fun s => NothingLost s.dev) DriverState.fresh
          [.write 0 [97] (granting 3 4)] ↔
        Guarded DriverState.step (fun s c => ¬c.Leaks s.dev) DriverState.fresh
          [.write 0 [97] (granting 3 4)]) ∧
      (∃ h, aesdCleanupModule t.dev = .ok h ∧ (h 1).isSome) ∧ ¬AllReleased t.dev := by
  refine ⟨_, _, rfl, live_blocks ⟨1, 0⟩ ⟨2, 0⟩ (by decide) DriverState.fresh_setup _
    [.write 0 [97] (granting 3 4)] ⟨⟨nofun, fun m hm => ⟨?_, nofun⟩⟩, fun _ _ _ => trivial⟩ _ _ rfl⟩
  rw [← Option.some.inj hm]
  rfl

/-- The structure of a committed command is never freed. -/
theorem live_blocks_commit :
    ¬ ∀ calls t os,
      Guarded DriverState.step (fun s c => c.Fresh s.dev) DriverState.fresh calls →
      DriverState.fresh.run calls = .ok (t, os) →
      Throughout DriverState.step (fun s => NothingLost s.dev) DriverState.fresh calls ∧
        AllReleased t.dev := by
  intro h
  have hfresh : Guarded DriverState.step (fun s c => c.Fresh s.dev) DriverState.fresh
      [.write 0 [97, 10] (granting 3 4)] := by
    refine ⟨⟨nofun, fun m hm => ⟨?_, nofun⟩⟩, fun _ _ _ => trivial⟩
    rw [← Option.some.inj hm]
    rfl
  obtain ⟨hall, -⟩ := h _ _ _ hfresh rfl
  have hlost := (hall _ _ _ (List.prefix_refl _) rfl).exact.2 2
  revert hlost
  decide

end Aesd
