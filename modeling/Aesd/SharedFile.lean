import Aesd.FileServer
import Aesd.Library.GrowingLog

/-! The output file of file mode, one system call at a time and with no mutex: what holds here
holds however often a failed `open` has unlocked `file_mutex`. Files are deleted and opened
by name, and written and read through what was opened, so a second start of the server, which
deletes the file before it finds the port taken, may come at any instant. -/
namespace Aesd
open GrowingLog Machine Memory

/-- The inode the name refers to, and what inodes hold; those from `next` on are free. -/
structure Vfs where
  name : Option ℕ
  content : ℕ → Bytes
  next : ℕ

namespace Vfs

/-- `open` with `O_CREAT`. -/
def create (v : Vfs) : Vfs × ℕ :=
  match v.name with
  | some i => (v, i)
  | none => (⟨some v.next, Function.update v.content v.next [], v.next + 1⟩, v.next)

/-- `write` with `O_APPEND`. -/
def append (v : Vfs) (i : ℕ) (bs : Bytes) : Vfs :=
  { v with content := Function.update v.content i (v.content i ++ bs) }

def unlink (v : Vfs) : Vfs := { v with name := none }

/-- The bytes under the name, if there are any to be found there. -/
def file (v : Vfs) : Option Bytes := v.name.map v.content

end Vfs

/-- The two routines that append, with what they are given. -/
inductive Appender
  | dumpBufferToFile (lengthToDump : ℕ) (buffer : Bytes)
  | printTimeToFile (currTime : Bytes)

/-- Their calls of `write`. -/
def Appender.writes : Appender → List Bytes
  | .dumpBufferToFile lengthToDump buffer => [buffer.take lengthToDump]
  | .printTimeToFile currTime =>
    [(ascii ['t', 'i', 'm', 'e', 's', 't', 'a', 'm', 'p', ':'] ++ currTime).takeWhile
      (fun c => c ≠ 0), [newline]]

/-- What a thread is at: writes still to be made, or bytes sent so far, and the inode it has
open for that, unless its `open` has failed. -/
inductive Task
  | idle
  | appending (fd : Option ℕ) (writes : List Bytes)
  | sending (fd : Option ℕ) (sent : Bytes)

structure SharedFile where
  vfs : Vfs
  task : ℕ → Task

/-- The calls that matter to the file. A failed `open` does not stop a routine; a `write`
stores what it is told to, or less; a `read` finds something while there is something. -/
inductive FileCall
  | openAppend (id : ℕ) (routine : Appender) (opens : Bool)
  | write (id written : ℕ)
  | openRead (id : ℕ) (opens : Bool)
  | read (id count : ℕ)
  | deleteFile

namespace SharedFile

/-- The first start of the server has deleted the file. -/
def start : SharedFile := ⟨⟨none, fun _ => [], 0⟩, fun _ => .idle⟩

def setTask (s : SharedFile) (vfs : Vfs) (id : ℕ) (t : Task) : SharedFile :=
  ⟨vfs, Function.update s.task id t⟩

/-- The output is the reply of a read-out that has come to its end. Calls that a thread is
not about to make do not occur. -/
def step (s : SharedFile) : FileCall → Except Stop (SharedFile × Option (ℕ × Bytes))
  | .openAppend id routine opens =>
    match s.task id with
    | .idle =>
      if opens then
        let (vfs, i) := s.vfs.create
        .ok (s.setTask vfs id (.appending (some i) routine.writes), none)
      else .ok (s.setTask s.vfs id (.appending none routine.writes), none)
    | _ => .error .blocked
  | .write id written =>
    match s.task id with
    | .appending fd (bs :: writes) =>
      let vfs := match fd with
        | some i => s.vfs.append i (bs.take written)
        | none => s.vfs
      .ok (s.setTask vfs id (if writes = [] then .idle else .appending fd writes), none)
    | _ => .error .blocked
  | .openRead id opens =>
    match s.task id with
    | .idle => .ok (s.setTask s.vfs id (.sending (if opens then s.vfs.name else none) []), none)
    | _ => .error .blocked
  | .read id count =>
    match s.task id with
    | .sending fd sent =>
      if count = 0 ∨ 100 < count then .error .blocked
      else
        let out := match fd with
          | some i => piece (s.vfs.content i) sent count
          | none => []
        if out = [] then .ok (s.setTask s.vfs id .idle, some (id, sent))
        else .ok (s.setTask s.vfs id (.sending fd (sent ++ out)), none)
    | _ => .error .blocked
  | .deleteFile => .ok ({ s with vfs := s.vfs.unlink }, none)

end SharedFile

namespace SharedFile

section Undisturbed

/-! A routine that nothing comes between does what it does as a whole. -/

variable {s : SharedFile} {id : ℕ}

/-- What is under the name once a routine has opened the file to append to it. -/
lemma openAppend_eq (hid : s.task id = .idle) (routine : Appender) :
    ∃ v i, s.step (.openAppend id routine true) =
        .ok (s.setTask v id (.appending (some i) routine.writes), none) ∧
      v.name = some i ∧ v.content i = s.vfs.file.getD [] := by
  refine ⟨s.vfs.create.1, s.vfs.create.2, ?_, ?_⟩
  · simp [step, hid]
  · cases hname : s.vfs.name <;> simp [Vfs.create, Vfs.file, hname]

lemma write_eq {i n : ℕ} {bs : Bytes} {writes : List Bytes}
    (hid : s.task id = .appending (some i) (bs :: writes)) (hn : bs.length ≤ n) :
    s.step (.write id n) = .ok (s.setTask (s.vfs.append i bs) id
      (if writes = [] then .idle else .appending (some i) writes), none) := by
  rw [step, hid]
  dsimp only
  rw [List.take_of_length_le hn]

lemma dumpBufferToFile_steps (hid : s.task id = .idle) {file : Bytes} {lengthToDump : ℕ}
    {buffer : Bytes} (h : dumpBufferToFile (s.vfs.file.getD []) lengthToDump buffer = .ok file) :
    ∃ t, run step s [.openAppend id (.dumpBufferToFile lengthToDump buffer) true,
        .write id lengthToDump] = .ok (t, [none, none]) ∧ t.vfs.file = some file := by
  rw [dumpBufferToFile] at h
  split_ifs at h
  rw [Except.ok.injEq, Int.toNat_natCast] at h
  obtain ⟨v, i, hopen, hname, hold⟩ := openAppend_eq hid (.dumpBufferToFile lengthToDump buffer)
  have hwrite := write_eq (s := s.setTask v id (.appending (some i) [buffer.take lengthToDump]))
    (n := lengthToDump) (Function.update_self ..) (List.length_take_le _ _)
  refine ⟨_, run_cons_ok.mpr ⟨_, _, _, hopen, run_cons_ok.mpr ⟨_, _, _, hwrite, rfl, rfl⟩, rfl⟩, ?_⟩
  rw [← h, ← hold]
  simp [setTask, Vfs.file, Vfs.append, hname]

lemma printTimeToFile_steps (hid : s.task id = .idle) (currTime : Bytes) {n : ℕ}
    (hn : 10 + currTime.length ≤ n) :
    ∃ t, run step s [.openAppend id (.printTimeToFile currTime) true, .write id n, .write id 1] =
        .ok (t, [none, none, none]) ∧
      t.vfs.file = some (printTimeToFile (s.vfs.file.getD []) currTime) := by
  obtain ⟨v, i, hopen, hname, hold⟩ := openAppend_eq hid (.printTimeToFile currTime)
  rw [Appender.writes] at hopen
  rw [printTimeToFile]
  generalize hline : (ascii ['t', 'i', 'm', 'e', 's', 't', 'a', 'm', 'p', ':'] ++ currTime).takeWhile
    (fun c => c ≠ 0) = line at *
  have hlen : line.length ≤ n := by
    rw [← hline]
    refine (List.takeWhile_prefix _).length_le.trans ?_
    rw [List.length_append]
    exact hn
  have hfirst := write_eq (s := s.setTask v id (.appending (some i) [line, [newline]]))
    (Function.update_self ..) hlen
  rw [if_neg (by simp)] at hfirst
  have hsecond := write_eq (n := 1) (s := (s.setTask v id (.appending (some i) [line, [newline]])).setTask
    (v.append i line) id (.appending (some i) [[newline]])) (Function.update_self ..) le_rfl
  refine ⟨_, run_cons_ok.mpr ⟨_, _, _, hopen, run_cons_ok.mpr ⟨_, _, _, hfirst,
    run_cons_ok.mpr ⟨_, _, _, hsecond, rfl, rfl⟩, rfl⟩, rfl⟩, ?_⟩
  rw [← hold]
  simp [setTask, Vfs.file, Vfs.append, hname]

/-- The loop of `dump_file_to_socket`, from what it has sent on. -/
lemma dumpFileFrom_steps {i fuel : ℕ} {sent rest : Bytes} (hid : s.task id = .sending (some i) sent)
    (h : dumpFileFrom (s.vfs.content i) fuel sent.length = .ok rest) :
    ∃ n t, run step s (List.replicate (n + 1) (.read id 100)) =
      .ok (t, List.replicate n none ++ [some (id, sent ++ rest)]) := by
  induction fuel generalizing s sent rest with
  | zero => simp [dumpFileFrom] at h
  | succ fuel ih =>
    rw [dumpFileFrom] at h
    have hstep : s.step (.read id 100) = if piece (s.vfs.content i) sent 100 = [] then
        .ok (s.setTask s.vfs id .idle, some (id, sent))
      else .ok (s.setTask s.vfs id (.sending (some i) (sent ++ piece (s.vfs.content i) sent 100)), none) := by
      rw [step, hid]
      rfl
    change (if (piece (s.vfs.content i) sent 100).length > 0 then _ else _) = _ at h
    split_ifs at h with hmore
    · rw [if_neg (List.ne_nil_of_length_pos hmore)] at hstep
      obtain ⟨later, hlater, h⟩ := bind_eq_ok.mp h
      rw [Except.ok.injEq] at h
      subst h
      obtain ⟨n, t, hrun⟩ := ih (s := s.setTask s.vfs id
        (.sending (some i) (sent ++ piece (s.vfs.content i) sent 100))) (Function.update_self ..)
        (by rw [List.length_append]; exact hlater)
      refine ⟨n + 1, t, ?_⟩
      rw [List.replicate_succ, run_cons_ok]
      refine ⟨_, _, _, hstep, hrun, ?_⟩
      rw [List.append_assoc, List.replicate_succ, List.cons_append]
      rfl
    · rw [if_pos (List.eq_nil_of_length_eq_zero (by omega))] at hstep
      rw [Except.ok.injEq] at h
      subst h
      refine ⟨0, _, run_cons_ok.mpr ⟨_, _, _, hstep, rfl, ?_⟩⟩
      simp

lemma dumpFileToSocket_steps (hid : s.task id = .idle) {file reply : Bytes}
    (hfile : s.vfs.file = some file) (h : dumpFileToSocket file = .ok reply) :
    ∃ n t, run step s (.openRead id true :: List.replicate (n + 1) (.read id 100)) =
      .ok (t, none :: (List.replicate n none ++ [some (id, reply)])) := by
  obtain ⟨i, hname, rfl⟩ := Option.map_eq_some_iff.mp hfile
  have hopen : s.step (.openRead id true) =
      .ok (s.setTask s.vfs id (.sending (some i) []), none) := by
    rw [step, hid, ← hname]
    rfl
  obtain ⟨n, t, hrun⟩ := @dumpFileFrom_steps (s.setTask s.vfs id (.sending (some i) [])) id i _ []
    reply (Function.update_self ..) h
  exact ⟨n, t, run_cons_ok.mpr ⟨_, _, _, hopen, hrun, rfl⟩⟩

end Undisturbed

end SharedFile

/-- The file as its users know it: between two deletions there is one log, of everything
written through what was opened between them. -/
structure Journal where
  epoch : ℕ
  log : ℕ → Option Bytes
  opened : ℕ → Option ℕ
  writes : ℕ → List Bytes

namespace Journal

def start : Journal := ⟨0, fun _ => none, fun _ => none, fun _ => []⟩

def next (j : Journal) : FileCall → Journal
  | .openAppend id routine opens =>
    { j with
      log := if opens then Function.update j.log j.epoch (some ((j.log j.epoch).getD [])) else j.log
      opened := Function.update j.opened id (if opens then some j.epoch else none)
      writes := Function.update j.writes id routine.writes }
  | .write id written =>
    { j with
      log := match j.opened id with
        | some e => Function.update j.log e
            ((j.log e).map fun log => log ++ ((j.writes id).headD []).take written)
        | none => j.log
      writes := Function.update j.writes id (j.writes id).tail }
  | .openRead id opens =>
    { j with
      opened := Function.update j.opened id
        (if opens ∧ (j.log j.epoch).isSome then some j.epoch else none) }
  | .read _ _ => j
  | .deleteFile => { j with epoch := j.epoch + 1 }

/-- What has been written to the file that a thread has opened. -/
def seenBy (j : Journal) (id : ℕ) : Bytes := ((j.opened id).bind j.log).getD []

end Journal

def journal (calls : List FileCall) : Journal := calls.foldl Journal.next .start

/-- Every inode is the file of one epoch, `born` says which, and holds its log. -/
structure Files (v : Vfs) (epoch : ℕ) (log : ℕ → Option Bytes) (born : ℕ → ℕ) : Prop where
  named : ∀ i, v.name = some i → i < v.next ∧ born i = epoch
  deleted : v.name = none → log epoch = none
  later : ∀ e, epoch < e → log e = none
  logs : ∀ i < v.next, log (born i) = some (v.content i)
  apart : ∀ i < v.next, ∀ k < v.next, born i = born k → i = k

/-- A file grows at its end, and stays the file it was. -/
structure Grows (v v' : Vfs) (born born' : ℕ → ℕ) : Prop where
  next : v.next ≤ v'.next
  content : ∀ i < v.next, v.content i <+: v'.content i
  born : ∀ i < v.next, born' i = born i

section Files

variable {v : Vfs} {epoch : ℕ} {log : ℕ → Option Bytes} {born : ℕ → ℕ}

lemma Grows.refl (v : Vfs) (born : ℕ → ℕ) : Grows v v born born :=
  ⟨le_rfl, fun _ _ => List.prefix_rfl, fun _ _ => rfl⟩

lemma Files.born_le (hf : Files v epoch log born) {i : ℕ} (hi : i < v.next) : born i ≤ epoch := by
  by_contra hlt
  have hlog := hf.logs i hi
  rw [hf.later _ (not_le.mp hlt)] at hlog
  simp at hlog

lemma Files.file (hf : Files v epoch log born) : v.file = log epoch := by
  rw [Vfs.file]
  cases hname : v.name with
  | none => rw [hf.deleted hname, Option.map_none]
  | some i =>
    obtain ⟨hi, hborn⟩ := hf.named i hname
    rw [← hborn, hf.logs i hi, Option.map_some]

lemma Files.unlink (hf : Files v epoch log born) : Files v.unlink (epoch + 1) log born :=
  ⟨by simp [Vfs.unlink], fun _ => hf.later _ (Nat.lt_succ_self _),
    fun e he => hf.later e (by omega), hf.logs, hf.apart⟩

lemma Files.append (hf : Files v epoch log born) {i : ℕ} (hi : i < v.next) (bs : Bytes) :
    Files (v.append i bs) epoch
        (Function.update log (born i) ((log (born i)).map fun l => l ++ bs)) born ∧
      Grows v (v.append i bs) born born := by
  have hle := hf.born_le hi
  refine ⟨⟨hf.named, fun hname => ?_, fun e he => ?_, fun k hk => ?_, hf.apart⟩, le_rfl,
    fun k _ => ?_, fun _ _ => rfl⟩
  · have hnone := hf.deleted hname
    have hne : epoch ≠ born i := fun he => by simp [he, hf.logs i hi] at hnone
    rw [Function.update_of_ne hne, hnone]
  · rw [Function.update_of_ne (by omega), hf.later e he]
  · rcases eq_or_ne k i with rfl | hne
    · simp [Vfs.append, hf.logs k hk]
    · rw [Function.update_of_ne fun he => hne (hf.apart k hk i hi he), hf.logs k hk]
      simp [Vfs.append, hne]
  · rcases eq_or_ne k i with rfl | hne
    · simp [Vfs.append]
    · simp [Vfs.append, hne]

lemma Files.create (hf : Files v epoch log born) :
    ∃ born', Files v.create.1 epoch (Function.update log epoch (some ((log epoch).getD []))) born' ∧
      Grows v v.create.1 born born' ∧ v.create.2 < v.create.1.next ∧ born' v.create.2 = epoch := by
  cases hname : v.name with
  | some i =>
    obtain ⟨hi, hborn⟩ := hf.named i hname
    have hlog : Function.update log epoch (some ((log epoch).getD [])) = log := by
      rw [← hborn, hf.logs i hi, Option.getD_some, ← hf.logs i hi, Function.update_eq_self]
    have hcreate : v.create = (v, i) := by rw [Vfs.create, hname]
    rw [hcreate, hlog]
    exact ⟨born, hf, .refl v born, hi, hborn⟩
  | none =>
    have hcreate : v.create =
        (⟨some v.next, Function.update v.content v.next [], v.next + 1⟩, v.next) := by
      rw [Vfs.create, hname]
    have hold : ∀ i < v.next, Function.update born v.next epoch i = born i := fun i hi =>
      Function.update_of_ne hi.ne _ _
    have hnone := hf.deleted hname
    have hother : ∀ i < v.next, born i ≠ epoch := fun i hi he => by
      have hlog := hf.logs i hi
      simp [he, hnone] at hlog
    rw [hcreate, hnone, Option.getD_none]
    refine ⟨Function.update born v.next epoch, ⟨fun i hi => ?_, by simp, fun e he => ?_, fun i hi => ?_,
      fun i hi k hk he => ?_⟩, ⟨Nat.le_succ _, fun i hi => ?_, hold⟩, Nat.lt_succ_self _, by simp⟩
    · rw [← Option.some.inj hi]
      exact ⟨Nat.lt_succ_self _, by simp⟩
    · rw [Function.update_of_ne he.ne', hf.later e he]
    · rcases Nat.lt_succ_iff_lt_or_eq.mp hi with hlt | rfl
      · rw [hold i hlt, Function.update_of_ne (hother i hlt), hf.logs i hlt]
        dsimp only
        rw [Function.update_of_ne hlt.ne]
      · simp
    · rcases Nat.lt_succ_iff_lt_or_eq.mp hi with hlt | rfl <;>
        rcases Nat.lt_succ_iff_lt_or_eq.mp hk with hlt' | rfl
      · rw [hold i hlt, hold k hlt'] at he
        exact hf.apart i hlt k hlt' he
      · rw [hold i hlt, Function.update_self] at he
        exact absurd he (hother i hlt)
      · rw [hold k hlt', Function.update_self] at he
        exact absurd he.symm (hother k hlt')
      · rfl
    · dsimp only
      rw [Function.update_of_ne hi.ne]

end Files

/-- What a thread is at, when it has opened the file of an epoch and has writes to make. -/
def Follows (v : Vfs) (born : ℕ → ℕ) (opened : Option ℕ) (writes : List Bytes) : Task → Prop
  | .idle => True
  | .appending fd ws => opened = fd.map born ∧ writes = ws ∧ ∀ i ∈ fd, i < v.next
  | .sending fd sent =>
    opened = fd.map born ∧ (∀ i ∈ fd, i < v.next ∧ sent <+: v.content i) ∧ (fd = none → sent = [])

/-- The files are those of the journal, and every thread is where the journal has it. -/
structure Mirrors (s : SharedFile) (j : Journal) (born : ℕ → ℕ) : Prop where
  files : Files s.vfs j.epoch j.log born
  tasks : ∀ id, Follows s.vfs born (j.opened id) (j.writes id) (s.task id)

lemma map_born {v v' : Vfs} {born born' : ℕ → ℕ} (hg : Grows v v' born born') {fd : Option ℕ}
    (hfd : ∀ i ∈ fd, i < v.next) : fd.map born' = fd.map born := by
  cases fd with
  | none => rfl
  | some i => rw [Option.map_some, Option.map_some, hg.born i (hfd i rfl)]

/-- Other threads do not notice that a file grows. -/
lemma Follows.grows {v v' : Vfs} {born born' : ℕ → ℕ} (hg : Grows v v' born born')
    {opened : Option ℕ} {writes : List Bytes} {t : Task} (h : Follows v born opened writes t) :
    Follows v' born' opened writes t := by
  cases t with
  | idle => trivial
  | appending fd ws =>
    obtain ⟨hopened, hwrites, hfd⟩ := h
    exact ⟨hopened.trans (map_born hg hfd).symm, hwrites, fun i hi => (hfd i hi).trans_le hg.next⟩
  | sending fd sent =>
    obtain ⟨hopened, hfd, hnone⟩ := h
    refine ⟨hopened.trans (map_born hg fun i hi => (hfd i hi).1).symm, fun i hi => ?_, hnone⟩
    obtain ⟨hlt, hsent⟩ := hfd i hi
    exact ⟨hlt.trans_le hg.next, hsent.trans (hg.content i hlt)⟩

lemma Mirrors.setTask {s : SharedFile} {j j' : Journal} {v : Vfs} {born born' : ℕ → ℕ} {id : ℕ}
    {t : Task} (hm : Mirrors s j born) (hf : Files v j'.epoch j'.log born')
    (hg : Grows s.vfs v born born') (hopened : ∀ k ≠ id, j'.opened k = j.opened k)
    (hwrites : ∀ k ≠ id, j'.writes k = j.writes k)
    (ht : Follows v born' (j'.opened id) (j'.writes id) t) :
    Mirrors (s.setTask v id t) j' born' := by
  refine ⟨hf, fun k => ?_⟩
  rcases eq_or_ne k id with rfl | hne
  · simpa [SharedFile.setTask] using ht
  · have hold := (hm.tasks k).grows hg
    rw [← hopened k hne, ← hwrites k hne] at hold
    simpa [SharedFile.setTask, hne] using hold

section Step

variable {s t : SharedFile} {j : Journal} {born : ℕ → ℕ} {id : ℕ} {o : Option (ℕ × Bytes)}
  (hm : Mirrors s j born)

include hm

lemma openAppend_mirrors {routine : Appender} {opens : Bool}
    (h : s.step (.openAppend id routine opens) = .ok (t, o)) :
    (∃ born', Mirrors t (j.next (.openAppend id routine opens)) born') ∧ o = none := by
  simp only [SharedFile.step] at h
  split at h
  · cases opens with
    | true =>
      simp only [if_true, Except.ok.injEq, Prod.mk.injEq] at h
      obtain ⟨rfl, rfl⟩ := h
      obtain ⟨born', hf, hg, hlt, hborn⟩ := hm.files.create
      refine ⟨⟨born', hm.setTask hf hg (fun k hk => Function.update_of_ne hk _ _)
        (fun k hk => Function.update_of_ne hk _ _) ⟨?_, by simp [Journal.next], fun i hi => ?_⟩⟩, rfl⟩
      · simp [Journal.next, hborn]
      · rw [← Option.some.inj hi]
        exact hlt
    | false =>
      simp only [Bool.false_eq_true, if_false, Except.ok.injEq, Prod.mk.injEq] at h
      obtain ⟨rfl, rfl⟩ := h
      exact ⟨⟨born, hm.setTask hm.files (.refl _ _) (fun k hk => Function.update_of_ne hk _ _)
        (fun k hk => Function.update_of_ne hk _ _)
        ⟨by simp [Journal.next], by simp [Journal.next], by simp⟩⟩, rfl⟩
  · simp at h

lemma write_mirrors {written : ℕ} (h : s.step (.write id written) = .ok (t, o)) :
    (∃ born', Mirrors t (j.next (.write id written)) born') ∧ o = none := by
  have htask := hm.tasks id
  simp only [SharedFile.step] at h
  split at h
  · rename_i fd bs writes hid
    rw [hid] at htask
    obtain ⟨hopened, hwrites, hfd⟩ := htask
    simp only [Except.ok.injEq, Prod.mk.injEq] at h
    obtain ⟨rfl, rfl⟩ := h
    have hrest : ∀ v, (∀ i ∈ fd, i < v.next) → Follows v born (j.opened id) (j.writes id).tail
        (if writes = [] then .idle else .appending fd writes) := by
      intro v hv
      split_ifs
      · trivial
      · exact ⟨hopened, by rw [hwrites, List.tail_cons], hv⟩
    cases fd with
    | none =>
      refine ⟨⟨born, hm.setTask ?_ (.refl _ _) (fun k _ => rfl)
        (fun k hk => Function.update_of_ne hk _ _) ?_⟩, rfl⟩
      · simp only [Journal.next, hopened, Option.map_none]
        exact hm.files
      · simp only [Journal.next, Function.update_self]
        exact hrest _ hfd
    | some i =>
      obtain ⟨hf, hg⟩ := hm.files.append (hfd i rfl) (bs.take written)
      refine ⟨⟨born, hm.setTask ?_ hg (fun k _ => rfl)
        (fun k hk => Function.update_of_ne hk _ _) ?_⟩, rfl⟩
      · simp only [Journal.next, hopened, Option.map_some, hwrites, List.headD_cons]
        exact hf
      · simp only [Journal.next, Function.update_self]
        exact hrest _ hfd
  · simp at h

lemma openRead_mirrors {opens : Bool} (h : s.step (.openRead id opens) = .ok (t, o)) :
    (∃ born', Mirrors t (j.next (.openRead id opens)) born') ∧ o = none := by
  simp only [SharedFile.step] at h
  split at h
  · simp only [Except.ok.injEq, Prod.mk.injEq] at h
    obtain ⟨rfl, rfl⟩ := h
    have hfd : ∀ i ∈ (if opens then s.vfs.name else none), s.vfs.name = some i := by
      cases opens <;> simp
    refine ⟨⟨born, hm.setTask hm.files (.refl _ _) (fun k hk => Function.update_of_ne hk _ _)
      (fun k _ => rfl) ⟨?_, fun i hi => ⟨(hm.files.named i (hfd i hi)).1, List.nil_prefix⟩, fun _ => rfl⟩⟩,
      rfl⟩
    have hfile := hm.files.file
    simp only [Journal.next, Function.update_self, ← hfile, Vfs.file]
    cases opens with
    | false => simp
    | true =>
      cases hname : s.vfs.name with
      | none => simp
      | some i => simp [(hm.files.named i hname).2]
  · simp at h

/-- A read-out ends with all that has been written to what it has opened. -/
lemma read_mirrors {count : ℕ} (h : s.step (.read id count) = .ok (t, o)) :
    (∃ born', Mirrors t (j.next (.read id count)) born') ∧
      ∀ k reply, o = some (k, reply) → reply = j.seenBy k := by
  have htask := hm.tasks id
  simp only [SharedFile.step] at h
  split at h
  · rename_i fd sent hid
    rw [hid] at htask
    obtain ⟨hopened, hfd, hnone⟩ := htask
    split_ifs at h with hcount hend
    · simp only [Except.ok.injEq, Prod.mk.injEq] at h
      obtain ⟨rfl, rfl⟩ := h
      refine ⟨⟨born, hm.setTask hm.files (.refl _ _) (fun _ _ => rfl) (fun _ _ => rfl) trivial⟩, ?_⟩
      intro k reply hreply
      simp only [Option.some.injEq, Prod.mk.injEq] at hreply
      obtain ⟨rfl, rfl⟩ := hreply
      rw [Journal.seenBy, hopened]
      cases fd with
      | none => simp [hnone rfl]
      | some i =>
        obtain ⟨hlt, hsent⟩ := hfd i rfl
        rw [Option.map_some, Option.bind_some, hm.files.logs i hlt, Option.getD_some]
        exact eq_of_piece_nil hsent (by omega) hend
    · simp only [Except.ok.injEq, Prod.mk.injEq] at h
      obtain ⟨rfl, rfl⟩ := h
      refine ⟨⟨born, hm.setTask hm.files (.refl _ _) (fun _ _ => rfl) (fun _ _ => rfl) ?_⟩, by simp⟩
      cases fd with
      | none => exact absurd rfl hend
      | some i =>
        obtain ⟨hlt, hsent⟩ := hfd i rfl
        refine ⟨hopened, fun k hk => ?_, by simp⟩
        rw [← Option.some.inj hk]
        exact ⟨hlt, piece_prefix hsent count⟩
  · simp at h

/-- What any call does, the journal records. -/
lemma step_mirrors {c : FileCall} (h : s.step c = .ok (t, o)) :
    (∃ born', Mirrors t (j.next c) born') ∧ ∀ k reply, o = some (k, reply) → reply = j.seenBy k := by
  cases c with
  | openAppend id routine opens =>
    obtain ⟨hnext, rfl⟩ := openAppend_mirrors hm h
    exact ⟨hnext, by simp⟩
  | write id written =>
    obtain ⟨hnext, rfl⟩ := write_mirrors hm h
    exact ⟨hnext, by simp⟩
  | openRead id opens =>
    obtain ⟨hnext, rfl⟩ := openRead_mirrors hm h
    exact ⟨hnext, by simp⟩
  | read id count => exact read_mirrors hm h
  | deleteFile =>
    simp only [SharedFile.step, Except.ok.injEq, Prod.mk.injEq] at h
    obtain ⟨rfl, rfl⟩ := h
    refine ⟨⟨born, hm.files.unlink, fun id => ?_⟩, by simp⟩
    exact (hm.tasks id).grows ⟨le_rfl, fun _ _ => List.prefix_rfl, fun _ _ => rfl⟩

end Step

lemma start_mirrors : Mirrors .start .start fun _ => 0 :=
  ⟨⟨by simp [SharedFile.start], fun _ => rfl, fun _ _ => rfl, by simp [SharedFile.start],
    by simp [SharedFile.start]⟩, fun _ => trivial⟩

lemma run_mirrors {calls : List FileCall} {s : SharedFile} {outs : List (Option (ℕ × Bytes))}
    (h : run SharedFile.step .start calls = .ok (s, outs)) :
    ∃ born, Mirrors s (journal calls) born := by
  have hstep : ∀ (s : SharedFile) j c t o, (∃ born, Mirrors s j born) → True →
      s.step c = .ok (t, o) → ∃ born, Mirrors t (Journal.next j c) born :=
    fun _ _ _ _ _ ⟨_, hm⟩ _ h => (step_mirrors hm h).1
  exact run_refines Journal.next (fun s j => ∃ born, Mirrors s j born) hstep ⟨_, start_mirrors⟩
    (guarded_always _) h

/-- Replies of file mode are snapshots, whoever holds `file_mutex`. Over any interleaving of
the system calls of any number of threads, with failed opens, short reads and writes and the
file deleted at any time, the file under the name holds what has been written to it since the
last deletion; and a reply that ends is all that has been written, up to its last `read`, to
the file it has opened, or nothing if there was none. -/
theorem reply_snapshot (calls : List FileCall) (s : SharedFile) (outs : List (Option (ℕ × Bytes)))
    (h : run SharedFile.step .start calls = .ok (s, outs)) :
    s.vfs.file = (journal calls).log (journal calls).epoch ∧
      ∀ c t id reply, s.step c = .ok (t, some (id, reply)) → reply = (journal calls).seenBy id := by
  obtain ⟨born, hm⟩ := run_mirrors h
  exact ⟨hm.files.file, fun c t id reply hc => (step_mirrors hm hc).2 id reply rfl⟩

/-- Thread 1 has appended and opened the file to reply. Thread 2 opens it as well, it is
deleted under both, and thread 2 appends before thread 1 has read all. -/
def deletedWhileRead : List FileCall :=
  [.openAppend 1 (.dumpBufferToFile 2 [97, 10]) true, .write 1 2, .openRead 1 true, .read 1 1,
    .openAppend 2 (.dumpBufferToFile 2 [98, 10]) true, .deleteFile, .write 2 2, .read 1 100]

theorem reply_snapshot_deleted :
    ∃ s outs, run SharedFile.step .start deletedWhileRead = .ok (s, outs) ∧
      s.vfs.file = (journal deletedWhileRead).log (journal deletedWhileRead).epoch ∧
      ∀ c t id reply, s.step c = .ok (t, some (id, reply)) →
        reply = (journal deletedWhileRead).seenBy id :=
  ⟨_, _, rfl, reply_snapshot deletedWhileRead _ _ rfl⟩

end Aesd
