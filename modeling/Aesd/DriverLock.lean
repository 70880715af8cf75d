import Aesd.Driver

/-! Runs of driver calls, each to completion before the next, and the balance of the
device mutex over them. -/
namespace Aesd

/-- The device with the position of every open file. -/
structure DriverState where
  dev : AesdDev
  fpos : ℕ → ℤ

inductive Call
  | write (file : ℕ) (buf : Bytes) (answers : WriteAnswers)
  | read (file count uncopied : ℕ)
  | llseek (file : ℕ) (off whence : ℤ)
  | ioctl (file cmd : ℕ) (arg : AesdSeekto) (answers : IoctlAnswers)

/-- What a call returns: its value, the bytes read, and a seek request's result. -/
structure Reply where
  ret : ℤ
  delivered : Bytes
  seek : Option SeekResult
  deriving DecidableEq, Repr

namespace DriverState

def step (s : DriverState) : Call → Except Stop (DriverState × Reply)
  | .write _ buf a => do
    let r ← aesdWrite s.dev buf a
    .ok (⟨r.1, s.fpos⟩, ⟨r.2, [], none⟩)
  | .read file count uncopied => do
    let r ← aesdRead s.dev count (s.fpos file) uncopied
    .ok (⟨s.dev, Function.update s.fpos file r.fpos⟩, ⟨r.retval, r.delivered, none⟩)
  | .llseek file off whence =>
    let r := aesdLlseek s.dev (s.fpos file) off whence
    .ok (⟨s.dev, Function.update s.fpos file r.1⟩, ⟨r.2, [], none⟩)
  | .ioctl _ cmd arg a => do
    let r ← aesdIoctl s.dev cmd arg a
    .ok (⟨r.1, s.fpos⟩, ⟨r.2.1, [], r.2.2⟩)

abbrev run (s : DriverState) (calls : List Call) : Except Stop (DriverState × List Reply) :=
  Machine.run step s calls

end DriverState

open Machine

/-- What a call that returns has done. -/
inductive StepOutcome (s : DriverState) : Call → DriverState → Reply → Prop
  | write {file : ℕ} {buf : Bytes} {a : WriteAnswers} {d : AesdDev} {ret : ℤ}
      (hw : aesdWrite s.dev buf a = .ok (d, ret)) :
      StepOutcome s (.write file buf a) ⟨d, s.fpos⟩ ⟨ret, [], none⟩
  | read {file count uncopied : ℕ} {r : ReadResult}
      (hr : aesdRead s.dev count (s.fpos file) uncopied = .ok r) :
      StepOutcome s (.read file count uncopied) ⟨s.dev, Function.update s.fpos file r.fpos⟩
        ⟨r.retval, r.delivered, none⟩
  | llseek {file : ℕ} {off whence : ℤ} :
      StepOutcome s (.llseek file off whence)
        ⟨s.dev, Function.update s.fpos file (aesdLlseek s.dev (s.fpos file) off whence).1⟩
        ⟨(aesdLlseek s.dev (s.fpos file) off whence).2, [], none⟩
  | ioctl {file cmd : ℕ} {arg : AesdSeekto} {a : IoctlAnswers} {d : AesdDev} {ret : ℤ}
      {answer : Option SeekResult} (hi : aesdIoctl s.dev cmd arg a = .ok (d, ret, answer)) :
      StepOutcome s (.ioctl file cmd arg a) ⟨d, s.fpos⟩ ⟨ret, [], answer⟩

lemma step_outcome {s t : DriverState} {c : Call} {o : Reply} (h : s.step c = .ok (t, o)) :
    StepOutcome s c t o := by
  cases c with
  | write file buf a =>
    obtain ⟨r, hw, h⟩ := bind_eq_ok.mp h
    rw [Except.ok.injEq, Prod.mk.injEq] at h
    exact h.1 ▸ h.2 ▸ .write hw
  | read file count uncopied =>
    obtain ⟨r, hr, h⟩ := bind_eq_ok.mp h
    rw [Except.ok.injEq, Prod.mk.injEq] at h
    exact h.1 ▸ h.2 ▸ .read hr
  | llseek file off whence =>
    rw [DriverState.step, Except.ok.injEq, Prod.mk.injEq] at h
    exact h.1 ▸ h.2 ▸ .llseek
  | ioctl file cmd arg a =>
    obtain ⟨r, hi, h⟩ := bind_eq_ok.mp h
    rw [Except.ok.injEq, Prod.mk.injEq] at h
    exact h.1 ▸ h.2 ▸ .ioctl hi

/-- What a seek request that returns has done. It is for something else, a signal has ended its
sleep on the mutex, or it has its scratch buffer: then it is refused, or copies and
releases the buffer. -/
inductive IoctlOutcome (d : AesdDev) (cmd : ℕ) (arg : AesdSeekto) (a : IoctlAnswers) :
    AesdDev → ℤ × Option SeekResult → Prop
  | other (hcmd : cmd ≠ AESDCHAR_IOCSEEKTO) : IoctlOutcome d cmd arg a d (0, none)
  | interrupted (hcmd : cmd = AESDCHAR_IOCSEEKTO) (hlock : d.lock = true) :
      IoctlOutcome d cmd arg a d (-ERESTARTSYS, none)
  | refused (hcmd : cmd = AESDCHAR_IOCSEEKTO) (hfree : d.lock = false)
      (hbig : 10 < (fetchSeekto arg a.argUnread).writeCmd.toNat) :
      IoctlOutcome d cmd arg a { d with lock := true, heap := (kmalloc d.heap a.scratch 500).2 }
        (-EINVAL, none)
  | answered {s₀ s : SeekState} {total : ℤ} {h : Heap} {r : SeekResult}
      (hcmd : cmd = AESDCHAR_IOCSEEKTO) (hfree : d.lock = false)
      (hsmall : (fetchSeekto arg a.argUnread).writeCmd.toNat ≤ 10)
      (hheap : s₀.heap = (kmalloc d.heap a.scratch 500).2)
      (hloop : seekLoop d.circBuf (kmalloc d.heap a.scratch 500).1 total 10 s₀ = .ok s)
      (hkfree : kfree s.heap (kmalloc d.heap a.scratch 500).1 = .ok h) :
      IoctlOutcome d cmd arg a { d with lock := false, heap := h } (0, some r)

lemma aesdIoctl_outcome {d d' : AesdDev} {cmd : ℕ} {arg : AesdSeekto} {a : IoctlAnswers}
    {r : ℤ × Option SeekResult} (hi : aesdIoctl d cmd arg a = .ok (d', r)) :
    IoctlOutcome d cmd arg a d' r := by
  unfold aesdIoctl at hi
  dsimp only at hi
  split_ifs at hi with hcmd hlock _ hbig
  · rw [Except.ok.injEq, Prod.mk.injEq] at hi
    exact hi.1 ▸ hi.2 ▸ .other hcmd
  · rw [Except.ok.injEq, Prod.mk.injEq] at hi
    exact hi.1 ▸ hi.2 ▸ .interrupted (not_not.mp hcmd) hlock
  · rw [Except.ok.injEq, Prod.mk.injEq] at hi
    exact hi.1 ▸ hi.2 ▸ .refused (not_not.mp hcmd) (Bool.eq_false_iff.mpr hlock) hbig
  · obtain ⟨s, hloop, hi⟩ := bind_eq_ok.mp hi
    obtain ⟨⟨left, special⟩, -, hi⟩ := bind_eq_ok.mp hi
    obtain ⟨h, hkfree, hi⟩ := bind_eq_ok.mp hi
    rw [Except.ok.injEq, Prod.mk.injEq] at hi
    exact hi.1 ▸ hi.2 ▸ .answered (not_not.mp hcmd) (Bool.eq_false_iff.mpr hlock)
      (not_lt.mp hbig) rfl hloop hkfree

/-- A call that does not take one of the early returns that keep the mutex. -/
def Call.ReleasesLock : Call → Prop
  | .write _ buf a => min a.uncopied buf.length = 0
  | .ioctl _ cmd arg a => cmd = AESDCHAR_IOCSEEKTO →
      (fetchSeekto arg a.argUnread).writeCmd.toNat ≤ 10
  | _ => True

lemma copyFromUser_left {h h' : Heap} {p : Ptr} {off uncopied left : ℕ} {buf : Bytes}
    (hc : copyFromUser h p off buf uncopied = .ok (left, h')) : left = min uncopied buf.length := by
  unfold copyFromUser at hc
  obtain ⟨g, -, hg⟩ := bind_eq_ok.mp hc
  simp only [Except.ok.injEq, Prod.mk.injEq] at hg
  exact hg.1.symm

lemma aesdWrite_lock {d d' : AesdDev} {buf : Bytes} {a : WriteAnswers} {r : ℤ} {file : ℕ}
    (hfree : d.lock = false) (h : aesdWrite d buf a = .ok (d', r)) :
    d'.lock = false ↔ (Call.write file buf a).ReleasesLock := by
  unfold aesdWrite aesdWriteTo at h
  simp only [hfree, Bool.false_eq_true, if_false] at h
  obtain ⟨⟨h₁, r₁⟩, -, h⟩ := bind_eq_ok.mp h
  obtain ⟨⟨h₂, r₂⟩, -, h⟩ := bind_eq_ok.mp h
  obtain ⟨⟨left, h₃⟩, hcopy, h⟩ := bind_eq_ok.mp h
  have hleft := copyFromUser_left hcopy
  simp only [Call.ReleasesLock, ← hleft]
  simp only [ne_eq, ite_not] at h
  split_ifs at h with hz
  · obtain ⟨currdata, -, h⟩ := bind_eq_ok.mp h
    split_ifs at h with ht
    · obtain ⟨e, -, h⟩ := bind_eq_ok.mp h
      simp only [Except.ok.injEq, Prod.mk.injEq] at h
      simp [← h.1, hz]
    · simp only [Except.ok.injEq, Prod.mk.injEq] at h
      simp [← h.1, hz]
  · simp only [Except.ok.injEq, Prod.mk.injEq] at h
    simp [← h.1, hz]

lemma aesdIoctl_lock {d d' : AesdDev} {cmd file : ℕ} {arg : AesdSeekto} {a : IoctlAnswers}
    {r : ℤ × Option SeekResult} (hfree : d.lock = false)
    (h : aesdIoctl d cmd arg a = .ok (d', r)) :
    d'.lock = false ↔ (Call.ioctl file cmd arg a).ReleasesLock := by
  cases aesdIoctl_outcome h with
  | other hcmd => exact iff_of_true hfree fun he => absurd he hcmd
  | interrupted _ hlock => simp [hfree] at hlock
  | refused hcmd _ hbig => exact iff_of_false (by simp) fun hle => absurd (hle hcmd) (not_le.mpr hbig)
  | answered _ _ hsmall => exact iff_of_true rfl fun _ => hsmall

section NeverBlocks

lemma kfree_ne_blocked (h : Heap) (p : Ptr) : kfree h p ≠ .error .blocked := by
  unfold kfree
  split
  · split_ifs <;> simp
  · simp

lemma krealloc_ne_blocked (h : Heap) (p : Ptr) (n : ℕ) (a : Option Alloc) (inPlace : Bool) :
    krealloc h p n a inPlace ≠ .error .blocked := by
  unfold krealloc
  split
  · split
    · simp
    · split
      · simp
      · split
        · simp
        · split <;> simp
  · simp

lemma loadRun_ne_blocked (h : Heap) (p : Ptr) (off n : ℕ) : loadRun h p off n ≠ .error .blocked := by
  unfold loadRun
  split_ifs
  · simp
  · split
    · split
      · split_ifs <;> simp
      · simp
    · simp

lemma storeRun_ne_blocked (h : Heap) (p : Ptr) (off : ℕ) (ys : Bytes) :
    storeRun h p off ys ≠ .error .blocked := by
  unfold storeRun
  split_ifs
  · simp
  · split
    · split
      · split_ifs <;> simp
      · simp
    · simp

lemma copyToUser_ne_blocked (h : Heap) (p : Ptr) (off n uncopied : ℕ) :
    copyToUser h p off n uncopied ≠ .error .blocked :=
  bind_ne_error (loadRun_ne_blocked h p off n) fun _ => by simp

lemma findLoop_ne_blocked (b : AesdCircularBuffer) (charOffset fuel pos searched : ℕ)
    (firstRun : Bool) : findLoop b charOffset fuel pos searched firstRun ≠ .error .blocked := by
  induction fuel generalizing pos searched firstRun with
  | zero => simp [findLoop]
  | succ fuel ih =>
    unfold findLoop
    dsimp only
    split_ifs
    · simp
    · exact ih _ _ _
    · exact ih _ _ _
    · simp

lemma seekCopy_ne_blocked (src mybuffer : Ptr) (off n i pos : ℕ) (h : Heap) :
    seekCopy src mybuffer off n i pos h ≠ .error .blocked := by
  induction n generalizing i pos h with
  | zero => simp [seekCopy]
  | succ n ih =>
    exact bind_ne_error (loadRun_ne_blocked _ _ _ _) fun c =>
      bind_ne_error (storeRun_ne_blocked _ _ _ _) fun g => ih (i + 1) (pos + 1) g

lemma seekLoop_ne_blocked (b : AesdCircularBuffer) (mybuffer : Ptr) (total : ℤ) (fuel : ℕ)
    (s : SeekState) : seekLoop b mybuffer total fuel s ≠ .error .blocked := by
  induction fuel generalizing s with
  | zero => simp [seekLoop]
  | succ fuel ih =>
    unfold seekLoop
    split_ifs with hgo
    · refine bind_ne_error (seekCopy_ne_blocked _ _ _ _ _ _ _) fun g => ?_
      dsimp only
      split_ifs
      · simp
      · exact ih _
    · simp

lemma commitReadBuf_ne_blocked (d : AesdDev) (h : Heap) (r : ReadBuf) :
    commitReadBuf d h r ≠ .error .blocked := by
  unfold commitReadBuf
  dsimp only
  split_ifs
  · exact bind_ne_error (kfree_ne_blocked _ _) fun _ => by simp
  · simp [bind, Except.bind]

lemma aesdWrite_ne_blocked {d : AesdDev} (hfree : d.lock = false) (buf : Bytes)
    (a : WriteAnswers) : aesdWrite d buf a ≠ .error .blocked := by
  unfold aesdWrite aesdWriteTo
  simp only [hfree, Bool.false_eq_true, if_false]
  refine bind_ne_error ?_ fun p => bind_ne_error ?_ fun q => bind_ne_error ?_ fun c => ?_
  · unfold ensureReadBuf
    split
    · simp
    · split <;> simp
  · unfold growReadBuf
    split_ifs
    · simp
    · exact bind_ne_error (krealloc_ne_blocked _ _ _ _ _) fun _ => by simp
  · exact bind_ne_error (storeRun_ne_blocked _ _ _ _) fun _ => by simp
  · split_ifs
    · simp
    · refine bind_ne_error (loadRun_ne_blocked _ _ _ _) fun bs => ?_
      split_ifs
      · exact bind_ne_error (commitReadBuf_ne_blocked _ _ _) fun _ => by simp
      · simp

lemma aesdRead_ne_blocked (d : AesdDev) (count : ℕ) (fpos : ℤ) (uncopied : ℕ) :
    aesdRead d count fpos uncopied ≠ .error .blocked := by
  refine bind_ne_error ?_ fun chosen => ?_
  · unfold readChoose
    dsimp only
    split
    · simp
    · refine bind_ne_error (findLoop_ne_blocked _ _ _ _ _ _) fun found => ?_
      split <;> simp
  · split
    · simp
    · exact bind_ne_error (copyToUser_ne_blocked _ _ _ _ _) fun _ => by simp

lemma aesdIoctl_ne_blocked {d : AesdDev} (hfree : d.lock = false) (cmd : ℕ) (arg : AesdSeekto)
    (a : IoctlAnswers) : aesdIoctl d cmd arg a ≠ .error .blocked := by
  unfold aesdIoctl
  simp only [hfree, Bool.false_eq_true, if_false]
  split
  · simp
  · split
    · simp
    · exact bind_ne_error (seekLoop_ne_blocked _ _ _ _ _) fun s =>
          bind_ne_error (copyToUser_ne_blocked _ _ _ _ _) fun _ =>
            bind_ne_error (kfree_ne_blocked _ _) fun _ => by simp

end NeverBlocks

namespace DriverState

lemma step_ne_blocked {s : DriverState} (hfree : s.dev.lock = false) (c : Call) :
    s.step c ≠ .error .blocked := by
  cases c with
  | write file buf a => exact bind_ne_error (aesdWrite_ne_blocked hfree buf a) fun _ => by simp
  | read file count uncopied => exact bind_ne_error (aesdRead_ne_blocked _ _ _ _) fun _ => by simp
  | llseek file off whence => simp [step]
  | ioctl file cmd arg a => exact bind_ne_error (aesdIoctl_ne_blocked hfree cmd arg a) fun _ => by simp

/-- One call returns the mutex exactly when it takes none of the two early returns. -/
lemma step_lock {s t : DriverState} {c : Call} {o : Reply} (hfree : s.dev.lock = false)
    (h : s.step c = .ok (t, o)) : t.dev.lock = false ↔ c.ReleasesLock := by
  cases step_outcome h with
  | write hw => exact aesdWrite_lock hfree hw
  | read => exact iff_of_true hfree trivial
  | llseek => exact iff_of_true hfree trivial
  | ioctl hi => exact aesdIoctl_lock hfree hi

/-- The mutex is free after every call of a run: after each of its beginnings. -/
def LockFreeThroughout (s : DriverState) (calls : List Call) : Prop :=
  ∀ pre t os, pre <+: calls → s.run pre = .ok (t, os) → t.dev.lock = false

lemma lockFree_of_releases {s : DriverState} {calls : List Call} (hfree : s.dev.lock = false)
    (h : ∀ c ∈ calls, c.ReleasesLock) : s.LockFreeThroughout calls := by
  have hkept : Throughout step (fun s => s.dev.lock = false) s calls :=
    Guarded.throughout (fun s => s.dev.lock = false) (fun _ hs => hs)
      (fun _ _ _ _ hs hc hstep => (step_lock hs hstep).mpr hc) hfree
      (guarded_of_forall (fun _ => h) s)
  exact hkept

lemma lockFree_iff_releases {s t : DriverState} {calls : List Call} {os : List Reply}
    (hfree : s.dev.lock = false) (hrun : s.run calls = .ok (t, os)) :
    s.LockFreeThroughout calls ↔ ∀ c ∈ calls, c.ReleasesLock := by
  have hkept : Throughout step (fun s => s.dev.lock = false) s calls ↔
      Guarded step (fun _ c => c.ReleasesLock) s calls :=
    throughout_iff (fun s => s.dev.lock = false) (fun _ hs => hs)
      (fun _ _ _ _ hs _ hc hstep => (step_lock hs hstep).mpr hc)
      (fun _ _ _ _ hs _ hc hstep => mt (step_lock hs hstep).mp hc) hfree (guarded_always s) hrun
  exact hkept.trans (guarded_inputs hrun)

/-- The mutex balance: a run of calls that take neither early return keeps the mutex free
after every call and never waits for it for ever, and in a run of which every call
returned, the mutex was free throughout only if no call took an early return. -/
theorem lock_balance (s : DriverState) (calls : List Call) (hfree : s.dev.lock = false) :
    ((∀ c ∈ calls, c.ReleasesLock) →
        s.LockFreeThroughout calls ∧ s.run calls ≠ .error .blocked) ∧
      ∀ t os, s.run calls = .ok (t, os) →
        (s.LockFreeThroughout calls ↔ ∀ c ∈ calls, c.ReleasesLock) := by
  constructor
  · intro h
    refine ⟨lockFree_of_releases hfree h, ?_⟩
    exact run_ne_error (fun s => s.dev.lock = false) (fun s c _ hs => step_ne_blocked hs c)
      (fun s t o c hc hs hstep => (step_lock hs hstep).mpr (h c hc)) hfree
  · intro t os hrun
    exact lockFree_iff_releases hfree hrun

/-- A device just set up, with block 1 for the ring and block 2 for the first `read_buf`. -/
def fresh : DriverState :=
  { dev :=
      { lock := false, readBuf := some ⟨2, .zero⟩, circBufAddr := 1
        circBuf := aesdCircularBufferInit
        heap := Function.update (Function.update (fun _ => none) 1 (some (Memory.resize 0 168 [])))
          2 (some (Memory.resize 0 16 [])) }
    fpos := fun _ => 0 }

lemma fresh_setup :
    aesdSetupCdev (some ⟨1, 0⟩) (some ⟨2, 0⟩) = .ok fresh.dev := rfl

/-- A write of one byte whose copy from user memory faults. -/
def faultedWrite : Call := .write 0 [97] ⟨false, some ⟨3, 0⟩, some ⟨4, 0⟩, false, 1⟩

theorem lock_balance_faulted_write :
    ¬ ∀ calls t os, fresh.run calls = .ok (t, os) → t.dev.lock = false := by
  intro h
  have hheld := h [faultedWrite] _ _ rfl
  simp at hheld

/-- A line, a request for its second byte, the start of another line, and a read. -/
def balancedCalls : List Call :=
  [.write 0 [97, 10] ⟨false, some ⟨3, 0⟩, some ⟨4, 0⟩, false, 0⟩,
    .ioctl 0 AESDCHAR_IOCSEEKTO ⟨0, 1, 0, 7⟩ ⟨false, some ⟨5, 0⟩, 0, 0, 0⟩,
    .write 0 [98] ⟨false, some ⟨6, 0⟩, some ⟨8, 0⟩, false, 0⟩, .read 0 2 0]

theorem lock_balance_fresh :
    fresh.LockFreeThroughout balancedCalls ∧ fresh.run balancedCalls ≠ .error .blocked ∧
      ∃ t os, fresh.run balancedCalls = .ok (t, os) ∧ os.map Reply.ret = [2, 0, 1, 2] ∧
        ∀ c ∈ balancedCalls, c.ReleasesLock := by
  have hreleases : ∀ c ∈ balancedCalls, c.ReleasesLock := by
    simp only [balancedCalls, List.forall_mem_cons, Call.ReleasesLock]
    exact ⟨by decide, fun _ => by decide, by decide, trivial, by simp⟩
  obtain ⟨hfree, hgoes⟩ := (lock_balance fresh balancedCalls rfl).1 hreleases
  have hrets : (fresh.run balancedCalls).toOption.map (fun r => r.2.map Reply.ret) =
      some [2, 0, 1, 2] := by decide +kernel
  refine ⟨hfree, hgoes, ?_⟩
  cases hrun : fresh.run balancedCalls with
  | error e => simp [hrun, Except.toOption] at hrets
  | ok r =>
    rw [hrun] at hrets
    exact ⟨r.1, r.2, rfl, Option.some.inj hrets,
      ((lock_balance fresh balancedCalls rfl).2 r.1 r.2 hrun).mp hfree⟩

end DriverState

end Aesd
