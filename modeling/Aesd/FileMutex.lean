import Aesd.Library.Critical

/-! `file_mutex` in file mode, from aesdsocket.c: what the two routines of a worker and the
handler of `SIGALRM` do with it, for every pattern of `open` succeeding or failing. A
system call that does not touch the mutex is a step of work. What the handler does before
its lock is local to it and belongs to its delivery. -/
namespace Aesd.FileMutex
open Critical Machine

/-- Both dumps: a failed `open`, to both a result below 1, unlocks at once, and then goes on
to the calls on the file and to the last unlock like one that succeeded. -/
def dump (calls : ℕ) : Routine :=
  .lock (.attempt (Routine.work^[calls] (.unlock .done))
    (.unlock (Routine.work^[calls] (.unlock .done))))

/-- `write` and `close`. -/
def dumpBufferToFile : Routine := dump 2

/-- `lseek`, `read` and `send` while the file lasts, then `lseek`, `read` and `close`. -/
def dumpFileToSocket (sends : ℕ) : Routine := dump (3 * sends + 3)

/-- The time of day, then `open`, whose failure changes nothing, two writes and `close`. -/
def printTimeToFile : Routine :=
  .lock (.work (.attempt (Routine.work^[3] (.unlock .done)) (Routine.work^[3] (.unlock .done))))

inductive Dump
  | dumpBufferToFile
  | dumpFileToSocket (sends : ℕ)

def Dump.routine : Dump → Routine
  | .dumpBufferToFile => FileMutex.dumpBufferToFile
  | .dumpFileToSocket sends => FileMutex.dumpFileToSocket sends

abbrev step : State → Event Dump → Except Unit (State × Unit) :=
  Critical.step Dump.routine printTimeToFile

abbrev run (events : List (Event Dump)) : Except Unit (State × List Unit) :=
  Machine.run step start events

lemma formed_works {surplus fails inside : Bool} {r : Routine} (n : ℕ) :
    Formed surplus fails inside (Routine.work^[n] r) ↔ Formed surplus fails inside r := by
  induction n with
  | zero => rfl
  | succ n ih => rw [Function.iterate_succ_apply', Formed, ih]

/-- A dump ends outside, and unlocks too often only when its `open` has failed. -/
lemma dump_formed (calls : ℕ) {surplus fails : Bool} (h : fails = true → surplus = true) :
    Formed surplus fails false (dump calls) := by
  simp only [dump, Formed, formed_works, true_and, true_or, and_true]
  exact fun hf => Or.inr (h hf)

lemma routine_formed (name : Dump) {surplus fails : Bool} (h : fails = true → surplus = true) :
    Formed surplus fails false name.routine := by
  cases name with
  | dumpBufferToFile => exact dump_formed 2 h
  | dumpFileToSocket sends => exact dump_formed (3 * sends + 3) h

lemma printTimeToFile_formed : Formed false true false printTimeToFile := by
  simp [printTimeToFile, Formed]

/-- When `file_mutex` is unlocked only by the thread that holds it and keeps all others
out: exactly when no dump unlocks a second time. That takes an `open` that failed. -/
theorem file_mutex_exclusion (events : List (Event Dump)) (t : State) (os : List Unit)
    (h : run events = .ok (t, os)) :
    (Guarded step UnlocksOwn start events ∧ Throughout step Exclusive start events ↔
        Guarded step UnlocksOnce start events) ∧
      (Guarded step AttemptsSucceed start events → Guarded step UnlocksOnce start events) :=
  ⟨exclusion_iff (fun name => routine_formed name fun _ => rfl) printTimeToFile_formed h,
    once_of_attempts (fun name => routine_formed name (by simp)) printTimeToFile_formed h⟩

/-- A worker reads the file out while another waits to append its buffer. -/
def twoDumps : List (Event Dump) :=
  [.call 1 (.dumpFileToSocket 1), .call 2 .dumpBufferToFile] ++
    (List.replicate 9 (.step 1 true) ++ List.replicate 5 (.step 2 true))

theorem file_mutex_exclusion_two_dumps :
    ∃ t os, run twoDumps = .ok (t, os) ∧ t.owner = none ∧
      Guarded step UnlocksOwn start twoDumps ∧ Throughout step Exclusive start twoDumps := by
  refine ⟨_, _, rfl, rfl, ?_⟩
  obtain ⟨hiff, honce⟩ := file_mutex_exclusion twoDumps _ _ rfl
  refine hiff.mpr (honce (guarded_of_forall (fun s e he => ?_) start))
  simp only [twoDumps, List.mem_append, List.mem_cons, List.mem_replicate, List.not_mem_nil,
    or_false] at he
  rcases he with (rfl | rfl) | ⟨-, rfl⟩ | ⟨-, rfl⟩
  · exact trivial
  · exact trivial
  · exact fun _ _ => rfl
  · exact fun _ _ => rfl

/-- Worker 1 cannot open the file. Its second unlock takes the mutex from worker 2, and
worker 3 comes in. -/
def failedOpen : List (Event Dump) :=
  [.call 1 .dumpBufferToFile, .step 1 true, .step 1 false, .step 1 true,
    .call 2 .dumpBufferToFile, .step 2 true, .step 1 true, .step 1 true, .step 1 true,
    .call 3 .dumpBufferToFile, .step 3 true]

theorem file_mutex_exclusion_failed_open :
    ¬ ∀ events t os, run events = .ok (t, os) →
      Guarded step UnlocksOwn start events ∧ Throughout step Exclusive start events := by
  intro h
  obtain ⟨-, hall⟩ := h failedOpen _ _ rfl
  have hsame := hall failedOpen _ _ (List.prefix_refl _) rfl 2 3 (Or.inl rfl) (Or.inl rfl)
  exact absurd hsame (by decide)

/-- When no thread waits for `file_mutex` while it holds it: exactly when no `SIGALRM` is
delivered to the thread that holds it. -/
theorem file_mutex_self_wait (events : List (Event Dump)) (t : State) (os : List Unit)
    (h : run events = .ok (t, os)) :
    Throughout step (fun s => ∀ id, ¬WaitsForItself s id) start events ↔
      Guarded step SparesOwner start events :=
  waits_iff (fun name => routine_formed name fun _ => rfl) printTimeToFile_formed
    ⟨_, rfl⟩ h

/-- The timer fires while a worker appends its buffer, and the signal comes to another thread. -/
def alarmElsewhere : List (Event Dump) :=
  [.call 1 .dumpBufferToFile, .step 1 true, .signal 2] ++
    (List.replicate 4 (.step 1 true) ++ List.replicate 7 (.step 2 true))

theorem file_mutex_self_wait_elsewhere :
    ∃ t os, run alarmElsewhere = .ok (t, os) ∧ t.owner = none ∧
      Throughout step (fun s => ∀ id, ¬WaitsForItself s id) start alarmElsewhere := by
  refine ⟨_, _, rfl, rfl, (file_mutex_self_wait alarmElsewhere _ _ rfl).mpr ?_⟩
  refine Guarded.cons trivial rfl (Guarded.cons trivial rfl (Guarded.cons ?_ rfl ?_))
  · exact fun h => absurd (Option.some.inj h) (by decide)
  · refine guarded_of_forall (fun s e he => ?_) _
    change e ∈ List.replicate 4 (.step 1 true) ++ List.replicate 7 (.step 2 true) at he
    rcases List.mem_append.mp he with he | he
    · exact (List.eq_of_mem_replicate he) ▸ trivial
    · exact (List.eq_of_mem_replicate he) ▸ trivial

/-- The timer fires while a worker appends its buffer. -/
theorem file_mutex_self_wait_in_dump :
    ¬ ∀ events t os, run events = .ok (t, os) →
      Throughout step (fun s => ∀ id, ¬WaitsForItself s id) start events := by
  intro h
  have hall := h [.call 1 .dumpBufferToFile, .step 1 true, .signal 1] _ _ rfl
  exact hall _ _ _ (List.prefix_refl _) rfl 1 ⟨rfl, _, rfl⟩

end Aesd.FileMutex
