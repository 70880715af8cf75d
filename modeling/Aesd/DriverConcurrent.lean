import Aesd.DriverSession
import Aesd.Library.Section

/-! The calls that take the device mutex, phase by phase, from main.c. `aesd_write` and the
seek request of `aesd_ioctl` touch the device only between lock and unlock, so threads
that run them side by side leave what some serial run of the calls leaves. -/
namespace Aesd
open AesdDev Machine Section

/-- A call that has to take the mutex. -/
inductive LockedCall
  | write (file : ℕ) (buf : Bytes) (answers : WriteAnswers)
  | seek (file : ℕ) (arg : AesdSeekto) (answers : IoctlAnswers)

def LockedCall.call : LockedCall → Call
  | .write file buf a => .write file buf a
  | .seek file arg a => .ioctl file AESDCHAR_IOCSEEKTO arg a

/-- The local variables of a seek request that do not change any more. -/
structure SeekFrame where
  mybuffer : Ptr
  arg : AesdSeekto
  myseek : AesdSeekto
  answers : IoctlAnswers
  total : ℤ

/-- What a call inside the mutex does next. -/
inductive LockedPhase
  | ensure (buf : Bytes) (answers : WriteAnswers)
  | grow (buf : Bytes) (answers : WriteAnswers)
  | copy (buf : Bytes) (answers : WriteAnswers)
  | scan (count : ℕ)
  | commit (count : ℕ)
  | release (toFree : Ptr) (count : ℕ)
  | request (arg : AesdSeekto) (answers : IoctlAnswers)
  | turn (frame : SeekFrame) (bytesSent : ℤ) (mybufferposition writeCmdOffset buffToRead : ℕ)
  | answer (frame : SeekFrame) (mybufferposition : ℕ)
  | drop (mybuffer : Ptr) (result : SeekResult)
  | unlock (ret : ℤ) (answer : Option SeekResult)

/-- `dev->read_buf`, dereferenced. -/
def AesdDev.pendingEntry (d : AesdDev) : Except Stop ReadBuf :=
  match d.readBuf with
  | some r => .ok r
  | none => .error .fault

/-- One phase. The mutex is in the hands of the thread, not in the device. -/
def lockedWork (p : LockedPhase) (d : AesdDev) :
    Except Stop (AesdDev × (LockedPhase ⊕ Reply × Bool)) :=
  match p with
  | .ensure buf a => do
    let r ← ensureReadBuf d.heap d.readBuf a
    .ok (d.withPending r.2 r.1, .inl (.grow buf a))
  | .grow buf a => do
    let r ← d.pendingEntry
    let r ← growReadBuf d.heap r buf.length a
    .ok (d.withPending r.2 r.1, .inl (.copy buf a))
  | .copy buf a => do
    let r ← d.pendingEntry
    let c ← copyFromUser d.heap r.entry.buffptr r.entry.size buf a.uncopied
    if c.1 ≠ 0 then .ok (d.withPending r c.2, .inr (⟨-EFAULT, [], none⟩, false))
    else .ok (d.withPending r c.2, .inl (.scan buf.length))
  | .scan count => do
    let r ← d.pendingEntry
    let currdata ← loadRun d.heap r.entry.buffptr r.entry.size count
    let scanned := scanWritten currdata r.entry.size
    .ok (d.withPending ⟨r.addr, ⟨r.entry.buffptr, scanned.2⟩⟩ d.heap,
      .inl (if scanned.1 then .commit count else .unlock count none))
  | .commit count => do
    let r ← d.pendingEntry
    let added := aesdCircularBufferAddEntry d.circBuf r.entry
    .ok ({ d with circBuf := added.1 }, .inl (.release added.2 count))
  | .release toFree count => do
    let h ← (if toFree ≠ .null then kfree d.heap toFree else .ok d.heap)
    .ok ({ d with readBuf := none, heap := h }, .inl (.unlock count none))
  | .request arg a =>
    let mybuffer := kmalloc d.heap a.scratch 500
    let myseek := fetchSeekto arg a.argUnread
    if myseek.writeCmd.toNat > 10 then
      .ok ({ d with heap := mybuffer.2 }, .inr (⟨-EINVAL, [], none⟩, false))
    else
      .ok ({ d with heap := mybuffer.2 },
        .inl (.turn ⟨mybuffer.1, arg, myseek, a, totalBytesToRead d.circBuf myseek.writeCmdOffset.toNat⟩
          0 0 myseek.writeCmdOffset.toNat (buffToReadFrom d.circBuf myseek.writeCmd.toNat)))
  | .turn f bytesSent pos off slot =>
    if bytesSent < f.total then do
      let e := d.circBuf.entryAt slot
      let n := (Word.signed 64 ((e.size : ℤ) - off)).toNat
      let c ← seekCopy e.buffptr f.mybuffer off n 0 pos d.heap
      .ok ({ d with heap := c.1 },
        .inl (if nextSlot slot = d.circBuf.outOffs then .answer f c.2
          else .turn f (bytesSent + n) c.2 0 (nextSlot slot)))
    else .ok (d, .inl (.answer f pos))
  | .answer f pos => do
    let c ← copyToUser d.heap f.mybuffer 0 pos f.answers.resultUncopied
    let answered := { f.myseek with lengthCopied := .ofNat pos }
    .ok (d, .inl (.drop f.mybuffer
      ⟨f.myseek.specialBuffer, c.2, f.arg.overlay answered (24 - f.answers.argUnwritten)⟩))
  | .drop mybuffer result => do
    let h ← kfree d.heap mybuffer
    .ok ({ d with heap := h }, .inl (.unlock 0 (some result)))
  | .unlock ret answer => .ok (d, .inr (⟨ret, [], answer⟩, true))

def lockedCalls : Routine AesdDev LockedCall LockedPhase Reply Stop where
  enter
    | .write _ buf a => .ensure buf a
    | .seek _ arg a => .request arg a
  work := lockedWork

section Write

variable {d d' : AesdDev} {r : Reply} {b : Bool} {buf : Bytes} {a : WriteAnswers} {count : ℕ}

lemma pendingEntry_eq {p : ReadBuf} (h : d.pendingEntry = .ok p) : d.readBuf = some p := by
  unfold AesdDev.pendingEntry at h
  split at h
  · rename_i q hq
    rw [hq, Except.ok.inj h]
  · simp at h

/-- A phase that cannot be the last hands over to the next one. -/
lemma completes_more {p : LockedPhase}
    (hlast : ∀ s o, lockedWork p d ≠ .ok (s, .inr o)) (h : Completes lockedCalls p d d' r b) :
    ∃ p' s, lockedWork p d = .ok (s, .inl p') ∧ Completes lockedCalls p' s d' r b := by
  rcases completes_iff.mp h with hwork | hmore
  · exact absurd hwork (hlast _ _)
  · exact hmore

lemma unlock_completes {ret : ℤ} {answer : Option SeekResult}
    (h : Completes lockedCalls (.unlock ret answer) d d' r b) :
    d' = d ∧ r = ⟨ret, [], answer⟩ ∧ b = true := by
  rcases completes_iff.mp h with hwork | ⟨p', s, hwork, -⟩
  · simp only [lockedCalls, lockedWork, Except.ok.injEq, Prod.mk.injEq, Sum.inr.injEq] at hwork
    exact ⟨hwork.1.symm, hwork.2.1.symm, hwork.2.2.symm⟩
  · simp [lockedCalls, lockedWork] at hwork

lemma release_completes {toFree : Ptr} (h : Completes lockedCalls (.release toFree count) d d' r b) :
    ∃ g, (if toFree ≠ .null then kfree d.heap toFree else .ok d.heap) = .ok g ∧
      d' = { d with readBuf := none, heap := g } ∧ r = ⟨count, [], none⟩ ∧ b = true := by
  rcases completes_iff.mp h with hwork | ⟨p', s, hwork, hrest⟩
  · obtain ⟨g, -, hg⟩ := bind_eq_ok.mp hwork
    simp at hg
  · obtain ⟨g, hfree, hg⟩ := bind_eq_ok.mp hwork
    simp only [Except.ok.injEq, Prod.mk.injEq, Sum.inl.injEq] at hg
    obtain ⟨rfl, rfl⟩ := hg
    exact ⟨g, hfree, unlock_completes hrest⟩

/-- From the commit on, the phases are `commitReadBuf`. -/
lemma commit_completes (h : Completes lockedCalls (.commit count) d d' r b) :
    ∃ p, d.readBuf = some p ∧ commitReadBuf d d.heap p = .ok d' ∧ r = ⟨count, [], none⟩ ∧ b = true := by
  rcases completes_iff.mp h with hwork | ⟨p', s, hwork, hrest⟩
  · obtain ⟨p, -, hp⟩ := bind_eq_ok.mp hwork
    simp at hp
  · obtain ⟨p, hentry, hp⟩ := bind_eq_ok.mp hwork
    simp only [Except.ok.injEq, Prod.mk.injEq, Sum.inl.injEq] at hp
    obtain ⟨rfl, rfl⟩ := hp
    obtain ⟨g, hfree, hdev, hreply⟩ := release_completes hrest
    refine ⟨p, pendingEntry_eq hentry, ?_, hreply⟩
    unfold commitReadBuf
    dsimp only at hfree ⊢
    split_ifs at hfree ⊢
    · rw [hfree, hdev]
      rfl
    · rw [← Except.ok.inj hfree] at hdev
      rw [hdev]
      rfl

lemma scan_completes (h : Completes lockedCalls (.scan count) d d' r b) :
    ∃ p currdata, d.readBuf = some p ∧ loadRun d.heap p.entry.buffptr p.entry.size count = .ok currdata ∧
      (let q : ReadBuf := ⟨p.addr, ⟨p.entry.buffptr, (scanWritten currdata p.entry.size).2⟩⟩
      if (scanWritten currdata p.entry.size).1 then
        commitReadBuf (d.withPending q d.heap) d.heap q = .ok d'
      else d' = d.withPending q d.heap) ∧ r = ⟨count, [], none⟩ ∧ b = true := by
  rcases completes_iff.mp h with hwork | ⟨p', s, hwork, hrest⟩
  · obtain ⟨p, -, hp⟩ := bind_eq_ok.mp hwork
    obtain ⟨currdata, -, hc⟩ := bind_eq_ok.mp hp
    simp at hc
  · obtain ⟨p, hentry, hp⟩ := bind_eq_ok.mp hwork
    obtain ⟨currdata, hload, hc⟩ := bind_eq_ok.mp hp
    simp only [Except.ok.injEq, Prod.mk.injEq, Sum.inl.injEq] at hc
    obtain ⟨rfl, rfl⟩ := hc
    refine ⟨p, currdata, pendingEntry_eq hentry, hload, ?_⟩
    dsimp only
    split_ifs at hrest ⊢ with hterm
    · obtain ⟨q, hq, hcommit, hreply⟩ := commit_completes hrest
      rw [← Option.some.inj hq] at hcommit
      exact ⟨hcommit, hreply⟩
    · obtain ⟨hdev, hr, hb⟩ := unlock_completes hrest
      exact ⟨hdev, by simpa using hr, hb⟩

lemma copy_completes (h : Completes lockedCalls (.copy buf a) d d' r b) :
    ∃ p left g, d.readBuf = some p ∧
      copyFromUser d.heap p.entry.buffptr p.entry.size buf a.uncopied = .ok (left, g) ∧
      ((left ≠ 0 ∧ d' = d.withPending p g ∧ r = ⟨-EFAULT, [], none⟩ ∧ b = false) ∨
        (left = 0 ∧ Completes lockedCalls (.scan buf.length) (d.withPending p g) d' r b)) := by
  rcases completes_iff.mp h with hwork | ⟨p', s, hwork, hrest⟩
  · obtain ⟨p, hentry, hp⟩ := bind_eq_ok.mp hwork
    obtain ⟨⟨left, g⟩, hcopy, hc⟩ := bind_eq_ok.mp hp
    refine ⟨p, left, g, pendingEntry_eq hentry, hcopy, Or.inl ?_⟩
    dsimp only at hc
    split_ifs at hc with hleft
    · simp only [Except.ok.injEq, Prod.mk.injEq, Sum.inr.injEq] at hc
      exact ⟨hleft, hc.1.symm, hc.2.1.symm, hc.2.2.symm⟩
    · simp at hc
  · obtain ⟨p, hentry, hp⟩ := bind_eq_ok.mp hwork
    obtain ⟨⟨left, g⟩, hcopy, hc⟩ := bind_eq_ok.mp hp
    refine ⟨p, left, g, pendingEntry_eq hentry, hcopy, Or.inr ?_⟩
    dsimp only at hc
    split_ifs at hc with hleft
    · simp at hc
    · simp only [Except.ok.injEq, Prod.mk.injEq, Sum.inl.injEq] at hc
      obtain ⟨rfl, rfl⟩ := hc
      exact ⟨not_not.mp hleft, hrest⟩

/-- The first two phases find and grow the pending entry. -/
lemma ensure_completes (h : Completes lockedCalls (.ensure buf a) d d' r b) :
    ∃ h₁ r₁ h₂ r₂, ensureReadBuf d.heap d.readBuf a = .ok (h₁, r₁) ∧
      growReadBuf h₁ r₁ buf.length a = .ok (h₂, r₂) ∧
      Completes lockedCalls (.copy buf a) (d.withPending r₂ h₂) d' r b := by
  rcases completes_iff.mp h with hwork | ⟨p', s, hwork, hgrow⟩
  · obtain ⟨p, -, hp⟩ := bind_eq_ok.mp hwork
    simp at hp
  · obtain ⟨⟨h₁, r₁⟩, hensure, hp⟩ := bind_eq_ok.mp hwork
    simp only [Except.ok.injEq, Prod.mk.injEq, Sum.inl.injEq] at hp
    obtain ⟨rfl, rfl⟩ := hp
    rcases completes_iff.mp hgrow with hwork' | ⟨p', s, hwork', hcopy⟩
    · obtain ⟨p, -, hp⟩ := bind_eq_ok.mp hwork'
      obtain ⟨q, -, hq⟩ := bind_eq_ok.mp hp
      simp at hq
    · obtain ⟨p, hentry, hp⟩ := bind_eq_ok.mp hwork'
      obtain ⟨⟨h₂, r₂⟩, hg, hq⟩ := bind_eq_ok.mp hp
      simp only [Except.ok.injEq, Prod.mk.injEq, Sum.inl.injEq] at hq
      obtain ⟨rfl, rfl⟩ := hq
      rw [← Option.some.inj (pendingEntry_eq hentry)] at hg
      exact ⟨h₁, r₁, h₂, r₂, hensure, hg, hcopy⟩

/-- The phases of a write that finds the mutex free are `aesd_write`. -/
theorem write_completes (hfree : d.lock = false)
    (h : Completes lockedCalls (.ensure buf a) d d' r b) :
    aesdWrite d buf a = .ok ({ d' with lock := !b }, r.ret) ∧ r = ⟨r.ret, [], none⟩ := by
  obtain ⟨h₁, r₁, h₂, r₂, hensure, hgrow, hcopy⟩ := ensure_completes h
  obtain ⟨p, left, g, hp, hc, hleft⟩ := copy_completes hcopy
  rw [← Option.some.inj hp] at hc hleft
  unfold aesdWrite aesdWriteTo
  rw [hfree, if_neg Bool.false_ne_true, hensure]
  change (growReadBuf h₁ r₁ buf.length a >>= _) = _ ∧ _
  rw [hgrow]
  change (copyFromUser h₂ r₂.entry.buffptr r₂.entry.size buf a.uncopied >>= _) = _ ∧ _
  rw [show copyFromUser h₂ r₂.entry.buffptr r₂.entry.size buf a.uncopied = _ from hc]
  rcases hleft with ⟨hne, rfl, rfl, rfl⟩ | ⟨rfl, hscan⟩
  · refine ⟨?_, rfl⟩
    change (if left ≠ 0 then _ else _) = _
    rw [if_pos hne]
    rfl
  · obtain ⟨q, currdata, hq, hload, hend, rfl, rfl⟩ := scan_completes hscan
    rw [← Option.some.inj hq] at hload hend
    refine ⟨?_, rfl⟩
    change (loadRun g r₂.entry.buffptr r₂.entry.size buf.length >>= _) = _
    rw [show loadRun g r₂.entry.buffptr r₂.entry.size buf.length = _ from hload]
    rcases hscanned : scanWritten currdata r₂.entry.size with ⟨terminated, size⟩
    rw [hscanned] at hend
    simp only [bind, Except.bind, hscanned]
    cases terminated with
    | true =>
      have hcommit : commitReadBuf d g ⟨r₂.addr, ⟨r₂.entry.buffptr, size⟩⟩ = .ok d' := hend
      rw [if_pos rfl, hcommit]
      rfl
    | false =>
      rw [if_neg Bool.false_ne_true] at hend ⊢
      rw [hend]
      rfl

end Write

section Seek

variable {d d' : AesdDev} {r : Reply} {b : Bool} {f : SeekFrame}

lemma turn_goes_on {sent : ℤ} {pos off slot : ℕ} (s : AesdDev) (o : Reply × Bool) :
    lockedWork (.turn f sent pos off slot) d ≠ .ok (s, .inr o) := by
  intro hwork
  change (if sent < f.total then _ else _) = _ at hwork
  by_cases hgo : sent < f.total
  · rw [if_pos hgo] at hwork
    obtain ⟨c, -, hc⟩ := bind_eq_ok.mp hwork
    simp at hc
  · rw [if_neg hgo] at hwork
    simp at hwork

/-- The turns are those of `seekLoop`, which ends when the walk is back at the oldest slot. -/
lemma turn_completes {sent : ℤ} {pos off slot j fuel : ℕ} (hout : d.circBuf.outOffs < 10)
    (hj : j < 10) (hfuel : 10 ≤ fuel + j) (hslot : slot = (d.circBuf.outOffs + j) % 10)
    (h : Completes lockedCalls (.turn f sent pos off slot) d d' r b) :
    ∃ t, seekLoop d.circBuf f.mybuffer f.total fuel ⟨d.heap, sent, pos, off, slot⟩ = .ok t ∧
      Completes lockedCalls (.answer f t.mybufferposition) { d with heap := t.heap } d' r b := by
  induction fuel generalizing d sent pos off slot j with
  | zero => omega
  | succ fuel ih =>
    have hnext : nextSlot slot = (d.circBuf.outOffs + (j + 1)) % 10 := by rw [hslot, nextSlot_eq]
    obtain ⟨p', s, hwork, hrest⟩ := completes_more turn_goes_on h
    change (if sent < f.total then _ else _) = _ at hwork
    rw [seekLoop]
    by_cases hgo : sent < f.total
    · rw [if_pos hgo] at hwork ⊢
      obtain ⟨⟨g, pos'⟩, hcopy, hc⟩ := bind_eq_ok.mp hwork
      rw [Except.ok.injEq, Prod.mk.injEq, Sum.inl.injEq] at hc
      obtain ⟨rfl, rfl⟩ := hc
      dsimp only at hcopy ⊢
      rw [hcopy]
      change ∃ t, (if nextSlot slot = d.circBuf.outOffs then _ else _) = _ ∧ _
      by_cases hback : nextSlot slot = d.circBuf.outOffs
      · rw [if_pos hback] at hrest ⊢
        exact ⟨_, rfl, hrest⟩
      · rw [if_neg hback] at hrest ⊢
        exact ih (d := { d with heap := g }) hout (by omega) (by omega) hnext hrest
    · rw [if_neg hgo] at hwork ⊢
      rw [Except.ok.injEq, Prod.mk.injEq, Sum.inl.injEq] at hwork
      obtain ⟨rfl, rfl⟩ := hwork
      exact ⟨_, rfl, hrest⟩

lemma answer_completes {pos : ℕ} (h : Completes lockedCalls (.answer f pos) d d' r b) :
    ∃ left special g, copyToUser d.heap f.mybuffer 0 pos f.answers.resultUncopied = .ok (left, special) ∧
      kfree d.heap f.mybuffer = .ok g ∧ d' = { d with heap := g } ∧
      r = ⟨0, [], some ⟨f.myseek.specialBuffer, special,
        f.arg.overlay { f.myseek with lengthCopied := .ofNat pos } (24 - f.answers.argUnwritten)⟩⟩ ∧
      b = true := by
  rcases completes_iff.mp h with hwork | ⟨p', s, hwork, hdrop⟩
  · obtain ⟨c, -, hc⟩ := bind_eq_ok.mp hwork
    simp at hc
  · obtain ⟨⟨left, special⟩, hcopy, hc⟩ := bind_eq_ok.mp hwork
    simp only [Except.ok.injEq, Prod.mk.injEq, Sum.inl.injEq] at hc
    obtain ⟨rfl, rfl⟩ := hc
    rcases completes_iff.mp hdrop with hwork' | ⟨p', s, hwork', hunlock⟩
    · obtain ⟨g, -, hg⟩ := bind_eq_ok.mp hwork'
      simp at hg
    · obtain ⟨g, hfree, hg⟩ := bind_eq_ok.mp hwork'
      simp only [Except.ok.injEq, Prod.mk.injEq, Sum.inl.injEq] at hg
      obtain ⟨rfl, rfl⟩ := hg
      exact ⟨left, special, g, hcopy, hfree, unlock_completes hunlock⟩

/-- The phases of a seek request that finds the mutex free are those of `aesd_ioctl`. -/
theorem seek_completes {arg : AesdSeekto} {a : IoctlAnswers} (hring : d.circBuf.Valid)
    (hfree : d.lock = false) (h : Completes lockedCalls (.request arg a) d d' r b) :
    aesdIoctl d AESDCHAR_IOCSEEKTO arg a = .ok ({ d' with lock := !b }, r.ret, r.seek) ∧
      r.delivered = [] := by
  unfold aesdIoctl
  rw [if_neg (not_not.mpr rfl), hfree, if_neg Bool.false_ne_true]
  dsimp only
  rcases completes_iff.mp h with hwork | ⟨p', s, hwork, hturn⟩
  · simp only [lockedCalls, lockedWork] at hwork
    split_ifs at hwork ⊢ with hbig
    · simp only [Except.ok.injEq, Prod.mk.injEq, Sum.inr.injEq] at hwork
      obtain ⟨rfl, rfl, rfl⟩ := hwork
      exact ⟨rfl, rfl⟩
    · simp at hwork
  · simp only [lockedCalls, lockedWork] at hwork
    split_ifs at hwork ⊢ with hbig
    · simp at hwork
    · simp only [Except.ok.injEq, Prod.mk.injEq, Sum.inl.injEq] at hwork
      obtain ⟨rfl, rfl⟩ := hwork
      have hstart := buffToReadFrom_eq hring (not_lt.mp hbig)
      obtain ⟨t, hloop, hanswer⟩ :=
        turn_completes (d := { d with heap := (kmalloc d.heap a.scratch 500).2 }) hring.out_lt
          (Nat.mod_lt _ (by omega)) (Nat.le_add_right 10 _) hstart hturn
      obtain ⟨left, special, g, hcopy, hkfree, rfl, rfl, rfl⟩ := answer_completes hanswer
      dsimp only at hloop hcopy hkfree
      rw [hloop]
      change (copyToUser t.heap _ 0 t.mybufferposition a.resultUncopied >>= _) = _ ∧ _
      rw [hcopy]
      change (kfree t.heap _ >>= _) = _ ∧ _
      rw [hkfree]
      exact ⟨rfl, rfl⟩

end Seek

section OneByOne

variable {d d' : AesdDev} {r : Reply} {b : Bool}

/-- Only the commit changes the ring, and no phase the mutex. -/
lemma work_keeps {p : LockedPhase} {o : LockedPhase ⊕ Reply × Bool} (hring : d.circBuf.Valid)
    (h : lockedWork p d = .ok (d', o)) : d'.lock = d.lock ∧ d'.circBuf.Valid := by
  cases p with
  | ensure buf a =>
    obtain ⟨q, -, hq⟩ := bind_eq_ok.mp h
    rw [Except.ok.injEq, Prod.mk.injEq] at hq
    exact hq.1 ▸ ⟨rfl, hring⟩
  | grow buf a =>
    obtain ⟨q, -, hq⟩ := bind_eq_ok.mp h
    obtain ⟨g, -, hg⟩ := bind_eq_ok.mp hq
    rw [Except.ok.injEq, Prod.mk.injEq] at hg
    exact hg.1 ▸ ⟨rfl, hring⟩
  | copy buf a =>
    obtain ⟨q, -, hq⟩ := bind_eq_ok.mp h
    obtain ⟨c, -, hc⟩ := bind_eq_ok.mp hq
    split_ifs at hc
    all_goals
      rw [Except.ok.injEq, Prod.mk.injEq] at hc
      exact hc.1 ▸ ⟨rfl, hring⟩
  | scan count =>
    obtain ⟨q, -, hq⟩ := bind_eq_ok.mp h
    obtain ⟨currdata, -, hc⟩ := bind_eq_ok.mp hq
    rw [Except.ok.injEq, Prod.mk.injEq] at hc
    exact hc.1 ▸ ⟨rfl, hring⟩
  | commit count =>
    obtain ⟨q, -, hq⟩ := bind_eq_ok.mp h
    rw [Except.ok.injEq, Prod.mk.injEq] at hq
    exact hq.1 ▸ ⟨rfl, AesdCircularBuffer.add_valid hring q.entry⟩
  | release toFree count =>
    obtain ⟨g, -, hg⟩ := bind_eq_ok.mp h
    rw [Except.ok.injEq, Prod.mk.injEq] at hg
    exact hg.1 ▸ ⟨rfl, hring⟩
  | request arg a =>
    simp only [lockedWork] at h
    split_ifs at h
    all_goals
      rw [Except.ok.injEq, Prod.mk.injEq] at h
      exact h.1 ▸ ⟨rfl, hring⟩
  | turn f sent pos off slot =>
    change (if sent < f.total then _ else _) = _ at h
    by_cases hgo : sent < f.total
    · rw [if_pos hgo] at h
      obtain ⟨c, -, hc⟩ := bind_eq_ok.mp h
      rw [Except.ok.injEq, Prod.mk.injEq] at hc
      exact hc.1 ▸ ⟨rfl, hring⟩
    · rw [if_neg hgo, Except.ok.injEq, Prod.mk.injEq] at h
      exact h.1 ▸ ⟨rfl, hring⟩
  | answer f pos =>
    obtain ⟨c, -, hc⟩ := bind_eq_ok.mp h
    rw [Except.ok.injEq, Prod.mk.injEq] at hc
    exact hc.1 ▸ ⟨rfl, hring⟩
  | drop mybuffer result =>
    obtain ⟨g, -, hg⟩ := bind_eq_ok.mp h
    rw [Except.ok.injEq, Prod.mk.injEq] at hg
    exact hg.1 ▸ ⟨rfl, hring⟩
  | unlock ret answer =>
    rw [lockedWork, Except.ok.injEq, Prod.mk.injEq] at h
    exact h.1 ▸ ⟨rfl, hring⟩

lemma completes_keeps {p : LockedPhase} (hring : d.circBuf.Valid)
    (h : Completes lockedCalls p d d' r b) : d'.lock = d.lock ∧ d'.circBuf.Valid := by
  induction h with
  | last hwork => exact work_keeps hring hwork
  | more hwork _ ih =>
    obtain ⟨hlock, hvalid⟩ := work_keeps hring hwork
    obtain ⟨hlock', hvalid'⟩ := ih hvalid
    exact ⟨hlock'.trans hlock, hvalid'⟩

/-- A call alone between its lock and its unlock is a step of the driver. -/
lemma locked_step {op : LockedCall} (hring : d.circBuf.Valid) (hfree : d.lock = false)
    (h : Completes lockedCalls (lockedCalls.enter op) d d' r b) (fpos : ℕ → ℤ) :
    DriverState.step ⟨d, fpos⟩ op.call = .ok (⟨{ d' with lock := !b }, fpos⟩, r) := by
  cases op with
  | write file buf a =>
    obtain ⟨hw, hr⟩ := write_completes hfree h
    rw [LockedCall.call, DriverState.step, hw, hr]
    rfl
  | seek file arg a =>
    obtain ⟨hi, hr⟩ := seek_completes hring hfree h
    rw [LockedCall.call, DriverState.step, hi]
    change Except.ok (_, (⟨r.ret, [], r.seek⟩ : Reply)) = _
    rw [← hr]

/-- A serial execution of whole calls is a run of the driver. -/
lemma serial_run {ended : List (LockedCall × Reply)} (hring : d.circBuf.Valid)
    (hfree : d.lock = false) (h : OneByOne lockedCalls d ended d' b) (fpos : ℕ → ℤ) :
    DriverState.run ⟨d, fpos⟩ (ended.map fun p => p.1.call) =
        .ok (⟨{ d' with lock := !b }, fpos⟩, ended.map Prod.snd) ∧
      d'.lock = false ∧ d'.circBuf.Valid := by
  induction h with
  | nil => exact ⟨by rw [Bool.not_true, ← hfree]; rfl, hfree, hring⟩
  | snoc _ hlast ih =>
    obtain ⟨hrun, hfree', hring'⟩ := ih
    obtain ⟨hlock, hvalid⟩ := completes_keeps hring' hlast
    have hstep := locked_step hring' hfree' hlast fpos
    refine ⟨?_, hlock.trans hfree', hvalid⟩
    rw [List.map_append, List.map_append]
    refine run_append_ok hrun (run_cons_ok.mpr ⟨_, _, [], ?_, rfl, rfl⟩)
    rw [Bool.not_true, ← hfree']
    exact hstep

end OneByOne

/-- Writers and seek requests in any number of threads, their phases interleaved in any way,
from any state that calls reach. The calls that have come back are those of a run of the
driver, one call after the other in the order in which they came back, with the same
replies; and the device is where that run leaves it, or where the one call inside the mutex
has come from there, or the last call of the run has kept the mutex. -/
theorem locked_calls_serial (s : DriverState) (hs : Reachable s) (hfree : s.dev.lock = false)
    (events : List (Section.Event LockedCall)) (t : Section.State AesdDev LockedCall LockedPhase)
    (os : List (Option (LockedCall × Reply)))
    (hrun : Machine.run (Section.step lockedCalls) (Section.start s.dev) events = .ok (t, os)) :
    ∃ u, s.run (os.reduceOption.map fun p => p.1.call) = .ok (u, os.reduceOption.map Prod.snd) ∧
      u.fpos = s.fpos ∧
      ((t.owner = none ∧ u.dev = t.shared ∧ u.dev.lock = false) ∨
        (∃ id op p, t.owner = some id ∧ t.thread id = .inside op p ∧ u.dev.lock = false ∧
          Reaches lockedCalls (lockedCalls.enter op) u.dev p t.shared) ∨
        ∃ id, t.owner = some id ∧ (∀ i, ¬(t.thread i).Inside) ∧
          u.dev = { t.shared with lock := true }) := by
  have hring := hs.sound.ring
  cases run_linear hrun with
  | free hserial howner =>
    obtain ⟨hcalls, hlock, -⟩ := serial_run hring hfree hserial s.fpos
    rw [Bool.not_true, ← hlock] at hcalls
    exact ⟨_, hcalls, rfl, Or.inl ⟨howner, rfl, hlock⟩⟩
  | held hserial howner hin hreach =>
    obtain ⟨hcalls, hlock, -⟩ := serial_run hring hfree hserial s.fpos
    rw [Bool.not_true, ← hlock] at hcalls
    exact ⟨_, hcalls, rfl, Or.inr (Or.inl ⟨_, _, _, howner, hin, hlock, hreach⟩)⟩
  | kept hserial howner hout =>
    obtain ⟨hcalls, -⟩ := serial_run hring hfree hserial s.fpos
    exact ⟨_, hcalls, rfl, Or.inr (Or.inr ⟨_, howner, hout, rfl⟩)⟩

/-- A second writer calls while the first is inside, gets in behind it, and is under way. -/
def twoWriters : List (Section.Event LockedCall) :=
  [.call 0 (.write 0 [97, 10] (granting 3 4)), .lock 0, .work 0,
    .call 1 (.write 1 [98] (granting 5 6)), .work 0, .work 0, .work 0, .work 0, .work 0, .work 0,
    .lock 1, .work 1, .work 1]

theorem locked_calls_serial_two_writers :
    ∃ t os, Machine.run (Section.step lockedCalls) (Section.start DriverState.fresh.dev) twoWriters =
        .ok (t, os) ∧
      ∃ u, DriverState.fresh.run (os.reduceOption.map fun p => p.1.call) =
          .ok (u, os.reduceOption.map Prod.snd) ∧
        u.fpos = DriverState.fresh.fpos ∧
        ((t.owner = none ∧ u.dev = t.shared ∧ u.dev.lock = false) ∨
          (∃ id op p, t.owner = some id ∧ t.thread id = .inside op p ∧ u.dev.lock = false ∧
            Reaches lockedCalls (lockedCalls.enter op) u.dev p t.shared) ∨
          ∃ id, t.owner = some id ∧ (∀ i, ¬(t.thread i).Inside) ∧
            u.dev = { t.shared with lock := true }) :=
  ⟨_, _, rfl, locked_calls_serial .fresh fresh_reached.reachable rfl twoWriters _ _ rfl⟩

end Aesd
