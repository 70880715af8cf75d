import Aesd.DriverLeaks
import Aesd.DriverRead

/-! Every state that calls reach, whatever allocations and copies fail. A `krealloc` that
fails in a write of no bytes leaves a null buffer under a size that counts for nothing; up
to that size the device is as valid as completed writes leave it. -/
namespace Aesd
open AesdDev Machine Memory Separation

namespace AesdDev

/-- The device with the size of a null pending buffer set to what it stands for. -/
def settled (d : AesdDev) : AesdDev :=
  { d with
    readBuf := d.readBuf.map fun r => if r.entry.buffptr = .null then ⟨r.addr, .zero⟩ else r }

lemma settled_some {d : AesdDev} {r : ReadBuf} (hr : d.readBuf = some r) :
    d.settled.readBuf = some (if r.entry.buffptr = .null then ⟨r.addr, .zero⟩ else r) := by
  simp [settled, hr]

lemma settled_none {d : AesdDev} : d.settled.readBuf = none ↔ d.readBuf = none :=
  Option.map_eq_none_iff

/-- Set to zero or not, the size of a null buffer counts for nothing. -/
lemma settled_store (d : AesdDev) : d.settled.store = d.store := by
  have hpending : d.settled.pendingBytes = d.pendingBytes := by
    cases hr : d.readBuf with
    | none => simp [pendingBytes, settled, hr]
    | some r =>
      rw [pendingBytes, pendingBytes, settled_some hr, hr]
      split_ifs with hnull
      · simp [entryBytes, hnull, AesdBufferEntry.zero]
      · rfl
  rw [store, store, hpending]
  rfl

lemma settled_eq {d : AesdDev}
    (h : ∀ r, d.readBuf = some r → r.entry.buffptr = .null → r.entry = .zero) : d.settled = d := by
  have hsame : d.settled.readBuf = d.readBuf := by
    cases hr : d.readBuf with
    | none => exact settled_none.mpr hr
    | some r =>
      rw [settled_some hr]
      split_ifs with hnull
      · rw [← h r hr hnull]
      · rfl
  change { d with readBuf := d.settled.readBuf } = d
  rw [hsame]

lemma settled_of_valid {d : AesdDev} (hv : d.Valid) : d.settled = d := by
  apply settled_eq
  intro r hr hnull
  have hsize := ids_eq_nil_of_size_pos hv hr hnull rfl
  rw [AesdBufferEntry.zero, ← hnull, ← hsize]

/-- What holds of the device whatever went wrong before. -/
structure Sound (d : AesdDev) : Prop where
  valid : d.settled.Valid
  account : ∃ lost, Exact d.heap (d.owned ++ lost)

lemma Sound.ring {d : AesdDev} (hs : d.Sound) : d.circBuf.Valid := hs.valid.ring

end AesdDev

lemma granted_settled {d : AesdDev} {a : WriteAnswers} :
    a.Granted d.settled ↔ a.Granted d := by
  constructor
  · rintro ⟨hentry, hdata⟩
    simp only [settled_none] at hentry hdata
    exact ⟨hentry, hdata⟩
  · rintro ⟨hentry, hdata⟩
    simp only [← settled_none (d := d)] at hentry hdata
    exact ⟨hentry, hdata⟩

/-- A write does not look at the size of a null buffer. -/
lemma aesdWrite_settled {d : AesdDev} (hfree : d.lock = false) (buf : Bytes) (a : WriteAnswers) :
    aesdWrite d.settled buf a = aesdWrite d buf a := by
  by_cases hnull : ∃ r, d.readBuf = some r ∧ r.entry.buffptr = .null
  · obtain ⟨r, hr, hnull⟩ := hnull
    have hset := settled_some hr
    rw [if_pos hnull] at hset
    have hgrow : growReadBuf d.heap ⟨r.addr, .zero⟩ buf.length a =
        growReadBuf d.heap r buf.length a := by
      rw [growReadBuf, growReadBuf, if_pos hnull]
      rfl
    have hfree' : d.settled.lock = false := hfree
    unfold aesdWrite aesdWriteTo
    simp only [hfree, hfree', Bool.false_eq_true, if_false, hset, hr, ensureReadBuf, bind, Except.bind]
    rw [show d.settled.heap = d.heap from rfl, hgrow]
    rfl
  · rw [settled_eq fun r hr hp => absurd ⟨r, hr, hp⟩ hnull]

section Nothing

variable {d : AesdDev} {a : WriteAnswers}

/-- Resizing nothing to nothing asks the allocator for nothing. -/
lemma growReadBuf_nothing {h : Heap} {r : ReadBuf} (hsize : r.entry.size = 0) (a : WriteAnswers)
    (m : Option Alloc) :
    growReadBuf h r 0 { a with dataAlloc := m } = growReadBuf h r 0 a := by
  unfold growReadBuf
  cases hp : r.entry.buffptr with
  | null => simp [kmalloc]
  | zeroSize => simp [krealloc, kmalloc, hsize]
  | block b => simp [krealloc, hsize]

/-- The pending entry a write goes on with is the one it finds, or an empty one. -/
lemma ensureReadBuf_size {h h' : Heap} {rb : Option ReadBuf} {r : ReadBuf}
    (hsize : ∀ r, rb = some r → r.entry.size = 0) (he : ensureReadBuf h rb a = .ok (h', r)) :
    r.entry.size = 0 := by
  cases rb with
  | some r₀ =>
    simp only [ensureReadBuf, Except.ok.injEq, Prod.mk.injEq] at he
    exact hsize r (congrArg some he.2)
  | none =>
    cases ha : a.entryAlloc with
    | none => simp [ensureReadBuf, kmalloc, ha, sizeofBufferEntry] at he
    | some e =>
      simp only [ensureReadBuf, kmalloc, ha, sizeofBufferEntry, OfNat.ofNat_ne_zero, if_false,
        Except.ok.injEq, Prod.mk.injEq] at he
      rw [← he.2]
      rfl

lemma aesdWrite_nothing (hsize : ∀ r, d.readBuf = some r → r.entry.size = 0) (a : WriteAnswers)
    (m : Option Alloc) : aesdWrite d [] { a with dataAlloc := m } = aesdWrite d [] a := by
  have hsame : ensureReadBuf d.heap d.readBuf { a with dataAlloc := m } =
      ensureReadBuf d.heap d.readBuf a := rfl
  unfold aesdWrite aesdWriteTo
  rw [hsame]
  cases he : ensureReadBuf d.heap d.readBuf a with
  | error e => rfl
  | ok p =>
    obtain ⟨h, r⟩ := p
    have hgrow := growReadBuf_nothing (h := h) (ensureReadBuf_size hsize he) a m
    simp only [bind, Except.bind, List.length_nil, hgrow]

/-- A write of no bytes whose `krealloc` of pending bytes fails. -/
def LosesPending (d : AesdDev) (buf : Bytes) (a : WriteAnswers) : Prop :=
  buf = [] ∧ a.dataAlloc = none ∧
    ∃ r, d.readBuf = some r ∧ r.entry.buffptr ≠ .null ∧ r.entry.size ≠ 0

/-- Such a write returns 0 and leaves a null buffer behind. -/
lemma aesdWrite_loses (hv : d.Valid) (hfree : d.lock = false) {r : ReadBuf}
    (hr : d.readBuf = some r) (hsize : r.entry.size ≠ 0) (ha : a.dataAlloc = none) :
    aesdWrite d [] a =
      .ok ({ d with lock := false, readBuf := some ⟨r.addr, ⟨.null, r.entry.size⟩⟩ }, 0) := by
  have hfits := hv.fits r hr
  cases hp : r.entry.buffptr with
  | null =>
    rw [hp, bytesAt_null, List.length_nil] at hfits
    omega
  | zeroSize =>
    rw [hp, bytesAt_zeroSize, List.length_nil] at hfits
    omega
  | block b =>
    have hlive := hv.separated.2 b (by rw [owned_some hr, hp]; simp [Ptr.ids])
    obtain ⟨bs, hbs⟩ := Option.isSome_iff_exists.mp hlive
    unfold aesdWrite aesdWriteTo
    simp [hfree, hr, ensureReadBuf, growReadBuf, hp, krealloc, hbs, hsize, ha, copyFromUser, loadRun,
      scanWritten, bind, Except.bind]

end Nothing

section Sound

variable {d d' : AesdDev}

lemma fresh_settled {c : Call} : c.Fresh d.settled ↔ c.Fresh d := by
  cases c with
  | write file buf a =>
    change ((d.settled.readBuf = none → _) ∧ ∀ m, _ → _ ∧ (d.settled.readBuf = none → _)) ↔ _
    simp only [settled_none]
    rfl
  | read file count uncopied => exact Iff.rfl
  | llseek file off whence => exact Iff.rfl
  | ioctl file cmd arg a => exact Iff.rfl

lemma valid_forgotten (hv : d.Valid) {r : ReadBuf} (hr : d.readBuf = some r) :
    AesdDev.Valid { d with lock := false, readBuf := some ⟨r.addr, .zero⟩ } := by
  refine ⟨hv.ring, ?_, hv.filled, ?_⟩
  · rw [owned_some (r := ⟨r.addr, .zero⟩) rfl]
    refine (owned_some hr ▸ hv.separated).sublist (List.Sublist.cons_cons _ ?_)
    exact List.sublist_append_right _ _
  · intro r' hr'
    rw [← Option.some.inj hr']
    exact Nat.zero_le _

lemma aesdWrite_valid {buf : Bytes} {a : WriteAnswers} {ret : ℤ} (hv : d.Valid)
    (hfree : d.lock = false) (hg : a.Granted d) (hw : aesdWrite d buf a = .ok (d', ret)) :
    d'.Valid := by
  obtain ⟨d₁, hv₁, hwhole, hshort⟩ := aesdWrite_spec hv hfree hg buf
  by_cases hz : min a.uncopied buf.length = 0
  · rw [(hwhole hz).1, Except.ok.injEq, Prod.mk.injEq] at hw
    exact hw.1 ▸ hv₁
  · rw [(hshort hz).1, Except.ok.injEq, Prod.mk.injEq] at hw
    exact hw.1 ▸ hv₁

/-- A write that returns has its memory, or might as well have it, or loses the pending
bytes. -/
lemma aesdWrite_ok_cases {file : ℕ} {buf : Bytes} {a : WriteAnswers} {ret : ℤ} {ids : List ℕ}
    (hv : d.Valid) (hs : Exact d.heap ids) (hfree : d.lock = false)
    (hfresh : (Call.write file buf a).Fresh d) (hw : aesdWrite d buf a = .ok (d', ret)) :
    LosesPending d buf a ∨ ∃ a' : WriteAnswers, a'.Granted d ∧ a'.uncopied = a.uncopied ∧
      aesdWrite d buf a' = aesdWrite d buf a := by
  by_cases hbuf : buf = []
  · subst hbuf
    have hstart := hw
    rw [aesdWrite, aesdWriteTo, hfree, if_neg (by simp)] at hstart
    obtain ⟨⟨h, r⟩, he, -⟩ := bind_eq_ok.mp hstart
    have hentry := entryGranted_of_ok hfresh he
    cases ha : a.dataAlloc with
    | some m =>
      exact Or.inr ⟨a, ⟨hentry, m, ha, hfresh.2 m ha⟩, rfl, rfl⟩
    | none =>
      by_cases hsize : ∀ r, d.readBuf = some r → r.entry.size = 0
      · obtain ⟨m, hdead, hne⟩ := hs.exists_dead (a.entryAlloc.map Alloc.addr).toList
        refine Or.inr ⟨{ a with dataAlloc := some ⟨m, 0⟩ }, ⟨hentry, _, rfl, hdead, ?_⟩, rfl,
          aesdWrite_nothing hsize a _⟩
        intro _ e he hm
        apply hne
        rw [show m = e.addr from hm]
        simp [show a.entryAlloc = some e from he]
      · obtain ⟨r, hr, hr0⟩ : ∃ r, d.readBuf = some r ∧ r.entry.size ≠ 0 := by simpa using hsize
        refine Or.inl ⟨rfl, ha, r, hr, fun hnull => hr0 ?_, hr0⟩
        exact ids_eq_nil_of_size_pos hv hr hnull rfl
  · exact Or.inr ⟨a, granted_of_ok hfree hbuf hfresh hw, rfl, rfl⟩

lemma write_settled {file : ℕ} {buf : Bytes} {a : WriteAnswers} {ret : ℤ} (hs : d.Sound)
    (hfresh : (Call.write file buf a).Fresh d) (hw : aesdWrite d buf a = .ok (d', ret)) :
    d'.settled.Valid := by
  cases hlock : d.lock with
  | true =>
    rw [aesdWrite, aesdWriteTo, if_pos hlock] at hw
    split_ifs at hw
    rw [Except.ok.injEq, Prod.mk.injEq] at hw
    exact hw.1 ▸ hs.valid
  | false =>
    have hfree : d.settled.lock = false := hlock
    obtain ⟨lost, hexact⟩ := hs.account
    rw [← aesdWrite_settled hlock] at hw
    rcases aesdWrite_ok_cases hs.valid hexact hfree (fresh_settled.mpr hfresh) hw with
      ⟨rfl, ha, r, hr, -, hsize⟩ | ⟨a', hg, -, hsame⟩
    · rw [aesdWrite_loses hs.valid hfree hr hsize ha, Except.ok.injEq, Prod.mk.injEq] at hw
      have hforgot := valid_forgotten hs.valid hr
      rw [← hw.1]
      exact hforgot
    · have hv' := aesdWrite_valid hs.valid hfree hg (hsame.trans hw)
      rwa [settled_of_valid hv']

lemma storeRun_frame {h h' : Heap} {p : Ptr} {off : ℕ} {ys : Bytes}
    (hk : storeRun h p off ys = .ok h') {b : ℕ} (hb : b ∉ p.ids) : h' b = h b := by
  rcases storeRun_cases hk with rfl | ⟨c, bs, bs', rfl, -, rfl⟩
  · rfl
  · exact Function.update_of_ne (by simpa [Ptr.ids] using hb) _ _

lemma kfree_frame {h h' : Heap} {p : Ptr} (hk : kfree h p = .ok h') {b : ℕ} (hb : b ∉ p.ids) :
    h' b = h b := by
  cases p with
  | null => exact congrFun (Except.ok.inj hk).symm b
  | zeroSize => exact congrFun (Except.ok.inj hk).symm b
  | block c =>
    simp only [kfree] at hk
    split_ifs at hk
    rw [← Except.ok.inj hk]
    exact Function.update_of_ne (by simpa [Ptr.ids] using hb) _ _

lemma kmalloc_frame {h : Heap} {a : Option Alloc} {n b : ℕ}
    (hfresh : ∀ m, a = some m → h m.addr = none) (hb : (h b).isSome) :
    (kmalloc h a n).2 b = h b ∧ b ∉ (kmalloc h a n).1.ids := by
  unfold kmalloc
  split_ifs
  · exact ⟨rfl, by simp [Ptr.ids]⟩
  · cases a with
    | none => exact ⟨rfl, by simp [Ptr.ids]⟩
    | some m =>
      have hne : b ≠ m.addr := by
        rintro rfl
        simp [hfresh m rfl] at hb
      exact ⟨Function.update_of_ne hne _ _, by simpa [Ptr.ids] using hne⟩

/-- A seek request changes no block that is live before it. -/
lemma aesdIoctl_frame {file cmd : ℕ} {arg : AesdSeekto} {a : IoctlAnswers}
    {answer : ℤ × Option SeekResult} (hfresh : (Call.ioctl file cmd arg a).Fresh d)
    (hi : aesdIoctl d cmd arg a = .ok (d', answer)) :
    ∃ l h, d' = { d with lock := l, heap := h } ∧ ∀ b, (d.heap b).isSome → h b = d.heap b := by
  cases aesdIoctl_outcome hi with
  | other => exact ⟨d.lock, d.heap, rfl, fun _ _ => rfl⟩
  | interrupted => exact ⟨d.lock, d.heap, rfl, fun _ _ => rfl⟩
  | refused => exact ⟨_, _, rfl, fun b hb => (kmalloc_frame hfresh hb).1⟩
  | @answered s₀ s total h r _ _ _ hheap hloop hkfree =>
    refine ⟨_, _, rfl, fun b hb => ?_⟩
    obtain ⟨hkept, hnot⟩ := kmalloc_frame (n := 500) hfresh hb
    rw [← hheap] at hkept
    have hloops : s.heap b = d.heap b :=
      seekLoop_keeps (P := fun g => g b = d.heap b)
        (fun _ _ _ _ hP hg => (storeRun_frame hg hnot).trans hP) hkept hloop
    exact (kfree_frame hkfree hnot).trans hloops

lemma valid_agree (hv : d.Valid) {l : Bool} {h : Heap} (hsame : ∀ b ∈ d.owned, h b = d.heap b) :
    AesdDev.Valid { d with lock := l, heap := h } := by
  have hentry : ∀ e ∈ d.circBuf.entries, ∀ b ∈ e.buffptr.ids, b ∈ d.owned := by
    intro e he b hb
    refine List.mem_append_right _ (List.mem_cons_of_mem _ ?_)
    exact List.mem_flatMap.mpr ⟨e, he, hb⟩
  refine ⟨hv.ring, ⟨hv.separated.1, fun b hb => ?_⟩, fun e he => ?_, fun r hr => ?_⟩
  · change (h b).isSome
    rw [hsame b hb]
    exact hv.separated.2 b hb
  · obtain ⟨b, bs, hp, hb, hsize⟩ := hv.filled e he
    exact ⟨b, bs, hp, (hsame b (hentry e he b (by simp [hp, Ptr.ids]))).trans hb, hsize⟩
  · have hbytes : bytesAt h r.entry.buffptr = bytesAt d.heap r.entry.buffptr := by
      cases hp : r.entry.buffptr with
      | null => rfl
      | zeroSize => rfl
      | block b =>
        have hb : b ∈ d.owned := by
          rw [owned_some (d := d) hr, hp]
          simp [Ptr.ids]
        rw [bytesAt, bytesAt, hsame b hb]
    exact (hv.fits r hr).trans_eq (congrArg List.length hbytes.symm)

end Sound

namespace AesdDev

variable {d : AesdDev} (hs : d.Sound)

include hs

/-- The entries of a sound device are those of its store. -/
lemma Sound.retained_eq : retained d = d.store.commands := by
  rw [← settled_store, store_commands hs.valid]
  rfl

lemma Sound.length_contents (hD : (retained d).flatten.length < 2 ^ 63) :
    getLengthOfAllEntriesInBuffer d.circBuf = (retained d).flatten.length := by
  rw [hs.retained_eq, ← settled_store] at hD ⊢
  exact AesdDev.length_contents (d := d.settled) hs.valid hD

/-- One read of a sound device: the position moves on by what was to be copied. -/
lemma Sound.read (hD : (retained d).flatten.length < 2 ^ 63) {pos : ℕ} (hpos : pos < 2 ^ 63)
    (count uncopied : ℕ) :
    ∃ n : ℕ, aesdRead d count pos uncopied =
        .ok ⟨n, (pos + n : ℕ), (((retained d).flatten.drop pos).take n).take (n - min uncopied n)⟩ ∧
      (n = 0 ↔ count = 0 ∨ (retained d).flatten.length ≤ pos) ∧
      pos + n ≤ max pos (retained d).flatten.length := by
  rw [hs.retained_eq, ← settled_store] at hD ⊢
  change d.settled.store.contents.length < 2 ^ 63 at hD
  refine ⟨_, read_uncopied hs.valid hD hpos rfl uncopied, ?_, ?_⟩
  · change _ ↔ count = 0 ∨ d.settled.store.contents.length ≤ pos
    rcases Nat.lt_or_ge pos d.settled.store.contents.length with hin | hpast
    · rcases Nat.eq_zero_or_pos count with rfl | hc
      · obtain ⟨_, _, _, -, -, -, hn⟩ := CommandStore.readLength_within hin 0
        simpa using hn
      · have hsome := CommandStore.readLength_pos hin hc
        omega
    · simp [CommandStore.readLength_past hpast, hpast]
  · change _ ≤ max pos d.settled.store.contents.length
    rcases Nat.lt_or_ge pos d.settled.store.contents.length with hin | hpast
    · exact le_max_of_le_right (CommandStore.readLength_le _ hin.le count)
    · rw [CommandStore.readLength_past hpast]
      exact le_max_left _ _

end AesdDev

/-- One call of any kind, whatever the kernel answers. -/
lemma step_sound {s t : DriverState} {c : Call} {o : Reply} (hs : s.dev.Sound)
    (hfresh : c.Fresh s.dev) (h : s.step c = .ok (t, o)) : t.dev.Sound := by
  obtain ⟨lost, hexact⟩ := hs.account
  obtain ⟨-, -, more, haccount, -⟩ := step_exact hs.ring hexact hfresh h
  refine ⟨?_, _, haccount⟩
  cases step_outcome h with
  | write hw => exact write_settled hs hfresh hw
  | read => exact hs.valid
  | llseek => exact hs.valid
  | ioctl hi =>
    obtain ⟨l, g, rfl, hsame⟩ := aesdIoctl_frame hfresh hi
    exact valid_agree (l := l) hs.valid fun b hb => hsame b (hs.valid.separated.2 b hb)

/-- A state that calls reach from set-up, whatever they are and whatever fails in them. -/
def Reachable (s : DriverState) : Prop :=
  ∃ circ entry d fpos calls os, circ.addr ≠ entry.addr ∧
    aesdSetupCdev (some circ) (some entry) = .ok d ∧
    Guarded DriverState.step (fun s c => c.Fresh s.dev) ⟨d, fpos⟩ calls ∧
    DriverState.run ⟨d, fpos⟩ calls = .ok (s, os)

/-- What set-up gives and every call keeps holds in all of them. -/
lemma Reachable.induct (P : DriverState → Prop)
    (hstart : ∀ circ entry d fpos, circ.addr ≠ entry.addr →
      aesdSetupCdev (some circ) (some entry) = .ok d → P ⟨d, fpos⟩)
    (hstep : ∀ s c t o, P s → c.Fresh s.dev → s.step c = .ok (t, o) → P t) {s : DriverState}
    (hs : Reachable s) : P s := by
  obtain ⟨circ, entry, d, fpos, calls, os, hne, hd, hfresh, hrun⟩ := hs
  exact run_invariant (fun s c => c.Fresh s.dev) P hstep (hstart circ entry d fpos hne hd) hfresh hrun

lemma setup_sound {circ entry : Alloc} {d : AesdDev} (hne : circ.addr ≠ entry.addr)
    (hd : aesdSetupCdev (some circ) (some entry) = .ok d) : d.Sound := by
  have hv := (setup_standsFor hne hd fun _ => 0).valid
  obtain ⟨-, hexact, -⟩ := setup_exact hne hd
  exact ⟨(settled_of_valid hv).symm ▸ hv, [], by simpa using hexact⟩

lemma Reachable.sound {s : DriverState} (hs : Reachable s) : s.dev.Sound :=
  hs.induct (fun s => s.dev.Sound) (fun _ _ _ _ hne hd => setup_sound hne hd)
    fun _ _ _ _ hs hc h => step_sound hs hc h

/-- The entry that a commit adds ends in a line feed, so it has a size. -/
lemma step_sizes {s t : DriverState} {c : Call} {o : Reply} (hr : s.dev.circBuf.Valid)
    (hsizes : ∀ e ∈ s.dev.circBuf.entries, 0 < e.size) (h : s.step c = .ok (t, o)) :
    ∀ e ∈ t.dev.circBuf.entries, 0 < e.size := by
  cases step_outcome h with
  | @write file buf a d ret hw =>
    cases aesdWrite_outcome hw with
    | interrupted => exact hsizes
    | short => exact hsizes
    | stillOpen => exact hsizes
    | @closed h₁ h₂ g r₁ r d₁ _ _ _ _ _ hn hcommit =>
      obtain ⟨-, hd₁⟩ := commitReadBuf_ok hcommit
      have hadd := AesdCircularBuffer.add_entries hr (r.grown buf.length).entry
      have hbuf := List.length_pos_of_mem hn
      intro e he
      change e ∈ d₁.circBuf.entries at he
      rw [hd₁] at he
      change e ∈ (aesdCircularBufferAddEntry _ _).1.entries at he
      rw [hadd] at he
      rcases List.mem_append.mp (List.mem_of_mem_drop he) with he | he
      · exact hsizes e he
      · rw [List.mem_singleton.mp he]
        exact Nat.add_pos_right _ hbuf
  | read => exact hsizes
  | llseek => exact hsizes
  | ioctl hi =>
    cases aesdIoctl_outcome hi with
    | other => exact hsizes
    | interrupted => exact hsizes
    | refused => exact hsizes
    | answered => exact hsizes

/-- No retained entry is empty, whatever calls there were. -/
lemma Reachable.entry_pos {s : DriverState} (hs : Reachable s) :
    ∀ z ∈ (retained s.dev).map List.length, 0 < z := by
  obtain ⟨hsound, hsizes⟩ : s.dev.Sound ∧ ∀ e ∈ s.dev.circBuf.entries, 0 < e.size := by
    refine hs.induct (fun s => s.dev.Sound ∧ ∀ e ∈ s.dev.circBuf.entries, 0 < e.size)
      (fun circ entry d fpos hne hd => ⟨setup_sound hne hd, ?_⟩)
      fun s c t o hs hc h => ⟨step_sound hs.1 hc h, step_sizes hs.1.ring hs.2 h⟩
    have hnone : d.circBuf.entries = [] :=
      List.map_eq_nil_iff.mp (congrArg CommandStore.commands (setup_standsFor hne hd fpos).store)
    simp [hnone]
  intro z hz
  simp only [retained, List.map_map, List.mem_map] at hz
  obtain ⟨e, he, rfl⟩ := hz
  obtain ⟨b, bs, hp, hb, hsize⟩ := hsound.valid.filled e he
  have hlen := hsizes e he
  rw [hsize] at hlen
  have hbs : s.dev.heap b = some bs := hb
  simpa [hp, bytesAt, hbs] using hlen

lemma completesWrite_fresh {s : DriverState} {c : Call} (h : CompletesWrite s c) :
    c.Fresh s.dev := by
  cases c with
  | write file buf a =>
    obtain ⟨-, -, hg⟩ := h
    obtain ⟨m, hm, hdead⟩ := hg.data
    refine ⟨fun hnone e he => ?_, fun m' hm' => ?_⟩
    · obtain ⟨e', he', hdead'⟩ := hg.entry hnone
      rwa [← Option.some.inj (he'.symm.trans he)]
    · rwa [← Option.some.inj (hm.symm.trans hm')]
  | read file count uncopied => exact h.elim
  | llseek file off whence => exact h.elim
  | ioctl file cmd arg a => exact h.elim

/-- Completed writes are calls. -/
lemma Reached.reachable {s : DriverState} (hs : Reached s) : Reachable s := by
  obtain ⟨circ, entry, d, fpos, ws, os, hne, hd, hg, hrun⟩ := hs
  exact ⟨circ, entry, d, fpos, _, os, hne, hd, hg.mono fun _ _ => completesWrite_fresh, hrun⟩

end Aesd
