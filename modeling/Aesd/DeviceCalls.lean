import Aesd.DeviceService
import Aesd.Library.Client

/-! The workers of device mode call by call, from aesdsocket.c. No mutex is taken around what
a worker does for a chunk, so the calls of the others come between any two of its own. -/
namespace Aesd
open AesdDev Client Machine Memory

/-- What a worker is about to do: receive, send the request that it found in a chunk of some
length, write the chunk, or seek and read at an offset. -/
inductive DevicePhase
  | receiving
  | asking (length : ℕ) (test : AesdSeekto)
  | writing (length : ℕ)
  | seeking (currFileOffset : ℤ)
  | reading (currFileOffset : ℤ)
  deriving DecidableEq

structure DeviceTask where
  buffer : Bytes
  phase : DevicePhase

abbrev Workers := ℕ → DeviceTask

inductive DeviceEvent
  | recv (id : ℕ) (bytes : Bytes) (bufferAddr : UInt64) (frame : Frame)
  | ioctl (id : ℕ) (answers : IoctlAnswers)
  | write (id : ℕ) (answers : WriteAnswers)
  | lseek (id : ℕ)
  | read (id : ℕ)

/-- The workers as a program over the driver. Every file of a worker has the worker's number;
a read-out seeks before each read, so it matters to none where another left off. The output
is what is sent. -/
def connectionWorkers (w : Workers) :
    DeviceEvent → Except Stop (Move Call Reply Workers (Option (ℕ × Bytes)) Stop)
  | .recv id bytes bufferAddr frame =>
    match (w id).phase with
    | .receiving =>
      if bytes = [] ∨ BUFFER_SIZE < bytes.length then .error .blocked
      else
        let buffer := splice (w id).buffer 0 bytes
        if recognised buffer bytes.length then do
          let (x, y) ← seekNumbers (buffer.take bytes.length) frame
          .ok (.own (Function.update w id
            ⟨buffer.set bytes.length 0, .asking bytes.length ⟨x, y, 0, bufferAddr⟩⟩) none)
        else .ok (.own (Function.update w id ⟨buffer, .writing bytes.length⟩) none)
    | _ => .error .blocked
  | .ioctl id a =>
    match (w id).phase with
    | .asking length test =>
      .ok (.call (.ioctl id AESDCHAR_IOCSEEKTO test a) fun r =>
        match r.seek with
        | none => .ok (Function.update w id ⟨(w id).buffer, .receiving⟩, none)
        | some answer =>
          if (w id).buffer.length < answer.special.length then .error .fault
          else
            let buffer := splice (w id).buffer 0 answer.special
            let result := Word.signed 64 answer.arg.lengthCopied.toNat
            if result > 1 then
              .ok (Function.update w id ⟨buffer, .receiving⟩, some (id, buffer.take result.toNat))
            else if result = 0 then .ok (Function.update w id ⟨buffer, .receiving⟩, none)
            else .ok (Function.update w id ⟨buffer, .writing length⟩, none))
    | _ => .error .blocked
  | .write id a =>
    match (w id).phase with
    | .writing length =>
      .ok (.call (.write id ((w id).buffer.take length) a) fun _ => do
        let delimiterPosition ← findDelimterPosition (w id).buffer 0 length
        .ok (Function.update w id
          ⟨(w id).buffer, if delimiterPosition ≠ -1 then .seeking 0 else .receiving⟩, none))
    | _ => .error .blocked
  | .lseek id =>
    match (w id).phase with
    | .seeking currFileOffset =>
      .ok (.call (.llseek id currFileOffset 0) fun _ =>
        .ok (Function.update w id ⟨(w id).buffer, .reading currFileOffset⟩, none))
    | _ => .error .blocked
  | .read id =>
    match (w id).phase with
    | .reading currFileOffset =>
      .ok (.call (.read id 100 0) fun r =>
        if r.ret > 0 then
          .ok (Function.update w id ⟨(w id).buffer, .seeking (currFileOffset + r.ret)⟩,
            some (id, r.delivered))
        else .ok (Function.update w id ⟨(w id).buffer, .receiving⟩, none))
    | _ => .error .blocked

/-- The workers over the driver, and over the device that its users see. -/
abbrev driverCalls := Client.step DriverState.step connectionWorkers
abbrev sessionCalls := Client.step Session.step connectionWorkers

/-- The memory a call asks for is granted. -/
abbrev CallProvided := Client.OnCall connectionWorkers fun s c => Call.Provided s c

abbrev CallOutput := Option (Call × Reply) × Option (ℕ × Bytes)

/-- What has been sent to a connection. -/
def sentTo (id : ℕ) (outs : List CallOutput) : Bytes :=
  (outs.filterMap fun o => o.2.bind fun r => if r.1 = id then some r.2 else none).flatten

lemma sentTo_append (id : ℕ) (os ps : List CallOutput) :
    sentTo id (os ++ ps) = sentTo id os ++ sentTo id ps := by
  rw [sentTo, sentTo, sentTo, List.filterMap_append, List.flatten_append]

def DeviceEvent.chunk (id : ℕ) : DeviceEvent → Option Bytes
  | .recv i bytes _ _ => if i = id then some bytes else none
  | _ => none

def DeviceEvent.worker : DeviceEvent → ℕ
  | .recv id _ _ _ => id
  | .ioctl id _ => id
  | .write id _ => id
  | .lseek id => id
  | .read id => id

def Call.file : Call → ℕ
  | .write file _ _ => file
  | .read file _ _ => file
  | .llseek file _ _ => file
  | .ioctl file _ _ _ => file

/-- What a connection has received. -/
def chunksTo (id : ℕ) (events : List DeviceEvent) : List Bytes :=
  events.filterMap (DeviceEvent.chunk id)

/-- What a call has stored. -/
def storedBy : Call × Reply → Option Bytes
  | (.write _ buf _, r) => if 0 ≤ r.ret then some buf else none
  | _ => none

/-- What a connection has written, whether it was stored or not. -/
def writtenBy (id : ℕ) (calls : List (Call × Reply)) : List Bytes :=
  calls.filterMap fun c =>
    match c.1 with
    | .write file buf _ => if file = id then some buf else none
    | _ => none

/-- The chunk that a worker is about to write. -/
def DeviceTask.unwritten (task : DeviceTask) : List Bytes :=
  match task.phase with
  | .writing length => [task.buffer.take length]
  | _ => []

/-- What an event does to the workers, with the call that it makes and what is sent. -/
inductive WorkerMove (w : Workers) :
    DeviceEvent → Workers → Option (Call × Reply) → Option (ℕ × Bytes) → Prop
  | data {id : ℕ} {bytes : Bytes} {addr : UInt64} {f : Frame} (hphase : (w id).phase = .receiving)
      (hdata : ¬recognised (splice (w id).buffer 0 bytes) bytes.length) :
      WorkerMove w (.recv id bytes addr f)
        (Function.update w id ⟨splice (w id).buffer 0 bytes, .writing bytes.length⟩) none none
  | command {id : ℕ} {bytes : Bytes} {addr : UInt64} {f : Frame} {test : AesdSeekto}
      (hphase : (w id).phase = .receiving)
      (hrec : recognised (splice (w id).buffer 0 bytes) bytes.length) :
      WorkerMove w (.recv id bytes addr f)
        (Function.update w id
          ⟨(splice (w id).buffer 0 bytes).set bytes.length 0, .asking bytes.length test⟩) none none
  | asked {id : ℕ} {a : IoctlAnswers} {length : ℕ} {test : AesdSeekto} {r : Reply}
      {task : DeviceTask} {sent : Option (ℕ × Bytes)} (hphase : (w id).phase = .asking length test)
      (hsent : ∀ p, sent = some p → p.1 = id) :
      WorkerMove w (.ioctl id a) (Function.update w id task)
        (some (.ioctl id AESDCHAR_IOCSEEKTO test a, r)) sent
  | wrote {id : ℕ} {a : WriteAnswers} {length : ℕ} {r : Reply} {phase : DevicePhase}
      (hphase : (w id).phase = .writing length) (hnext : phase = .seeking 0 ∨ phase = .receiving) :
      WorkerMove w (.write id a) (Function.update w id ⟨(w id).buffer, phase⟩)
        (some (.write id ((w id).buffer.take length) a, r)) none
  | sought {id : ℕ} {off : ℤ} {r : Reply} (hphase : (w id).phase = .seeking off) :
      WorkerMove w (.lseek id) (Function.update w id ⟨(w id).buffer, .reading off⟩)
        (some (.llseek id off 0, r)) none
  | more {id : ℕ} {off : ℤ} {r : Reply} (hphase : (w id).phase = .reading off) (hr : r.ret > 0) :
      WorkerMove w (.read id) (Function.update w id ⟨(w id).buffer, .seeking (off + r.ret)⟩)
        (some (.read id 100 0, r)) (some (id, r.delivered))
  | done {id : ℕ} {off : ℤ} {r : Reply} (hphase : (w id).phase = .reading off) (hr : ¬r.ret > 0) :
      WorkerMove w (.read id) (Function.update w id ⟨(w id).buffer, .receiving⟩)
        (some (.read id 100 0, r)) none

section Moves

variable {σ : Type} {service : σ → Call → Except Stop (σ × Reply)} {s t : σ} {w v : Workers}
  {id : ℕ} {o : CallOutput}

lemma recv_move {bytes : Bytes} {addr : UInt64} {f : Frame}
    (h : Client.step service connectionWorkers (s, w) (.recv id bytes addr f) = .ok ((t, v), o)) :
    WorkerMove w (.recv id bytes addr f) v o.1 o.2 ∧ o.1 = none ∧ t = s := by
  obtain ⟨call, sent⟩ := o
  rcases step_ok h with ⟨hmove, rfl, rfl⟩ | ⟨c, next, r, hmove, -⟩
  · refine ⟨?_, rfl, rfl⟩
    simp only [connectionWorkers] at hmove
    split at hmove
    · rename_i hphase
      split_ifs at hmove with hroom hrec
      · obtain ⟨⟨x, y⟩, -, hown⟩ := bind_eq_ok.mp hmove
        simp only [Except.ok.injEq, Move.own.injEq] at hown
        obtain ⟨rfl, rfl⟩ := hown
        exact .command hphase hrec
      · simp only [Except.ok.injEq, Move.own.injEq] at hmove
        obtain ⟨rfl, rfl⟩ := hmove
        exact .data hphase hrec
    · simp at hmove
  · simp only [connectionWorkers] at hmove
    split at hmove
    · split_ifs at hmove
      · obtain ⟨⟨x, y⟩, -, hown⟩ := bind_eq_ok.mp hmove
        simp at hown
      · simp at hmove
    · simp at hmove

lemma ioctl_move {a : IoctlAnswers}
    (h : Client.step service connectionWorkers (s, w) (.ioctl id a) = .ok ((t, v), o)) :
    ∃ c, o.1 = some c ∧ service s c.1 = .ok (t, c.2) ∧ WorkerMove w (.ioctl id a) v (some c) o.2 := by
  obtain ⟨call, sent⟩ := o
  rcases step_ok h with ⟨hmove, -⟩ | ⟨c, next, r, hmove, hcall, hnext, rfl⟩
  · simp only [connectionWorkers] at hmove
    split at hmove <;> simp at hmove
  · refine ⟨(c, r), rfl, hcall, ?_⟩
    simp only [connectionWorkers] at hmove
    split at hmove
    · rename_i length test hphase
      simp only [Except.ok.injEq, Move.call.injEq] at hmove
      obtain ⟨rfl, rfl⟩ := hmove
      dsimp only at hnext
      split at hnext
      · simp only [Except.ok.injEq, Prod.mk.injEq] at hnext
        obtain ⟨rfl, rfl⟩ := hnext
        exact .asked hphase (by simp)
      · split_ifs at hnext
        all_goals
          simp only [Except.ok.injEq, Prod.mk.injEq] at hnext
          obtain ⟨rfl, rfl⟩ := hnext
          exact .asked hphase (by simp)
    · simp at hmove

lemma write_move {a : WriteAnswers}
    (h : Client.step service connectionWorkers (s, w) (.write id a) = .ok ((t, v), o)) :
    ∃ c, o.1 = some c ∧ service s c.1 = .ok (t, c.2) ∧ WorkerMove w (.write id a) v (some c) o.2 := by
  obtain ⟨call, sent⟩ := o
  rcases step_ok h with ⟨hmove, -⟩ | ⟨c, next, r, hmove, hcall, hnext, rfl⟩
  · simp only [connectionWorkers] at hmove
    split at hmove <;> simp at hmove
  · refine ⟨(c, r), rfl, hcall, ?_⟩
    simp only [connectionWorkers] at hmove
    split at hmove
    · rename_i length hphase
      simp only [Except.ok.injEq, Move.call.injEq] at hmove
      obtain ⟨rfl, rfl⟩ := hmove
      obtain ⟨p, -, hp⟩ := bind_eq_ok.mp hnext
      simp only [Except.ok.injEq, Prod.mk.injEq] at hp
      obtain ⟨rfl, rfl⟩ := hp
      exact .wrote hphase (by split_ifs <;> simp)
    · simp at hmove

lemma lseek_move
    (h : Client.step service connectionWorkers (s, w) (.lseek id) = .ok ((t, v), o)) :
    ∃ c, o.1 = some c ∧ service s c.1 = .ok (t, c.2) ∧ WorkerMove w (.lseek id) v (some c) o.2 := by
  obtain ⟨call, sent⟩ := o
  rcases step_ok h with ⟨hmove, -⟩ | ⟨c, next, r, hmove, hcall, hnext, rfl⟩
  · simp only [connectionWorkers] at hmove
    split at hmove <;> simp at hmove
  · refine ⟨(c, r), rfl, hcall, ?_⟩
    simp only [connectionWorkers] at hmove
    split at hmove
    · rename_i off hphase
      simp only [Except.ok.injEq, Move.call.injEq] at hmove
      obtain ⟨rfl, rfl⟩ := hmove
      simp only [Except.ok.injEq, Prod.mk.injEq] at hnext
      obtain ⟨rfl, rfl⟩ := hnext
      exact .sought hphase
    · simp at hmove

lemma read_move
    (h : Client.step service connectionWorkers (s, w) (.read id) = .ok ((t, v), o)) :
    ∃ c, o.1 = some c ∧ service s c.1 = .ok (t, c.2) ∧ WorkerMove w (.read id) v (some c) o.2 := by
  obtain ⟨call, sent⟩ := o
  rcases step_ok h with ⟨hmove, -⟩ | ⟨c, next, r, hmove, hcall, hnext, rfl⟩
  · simp only [connectionWorkers] at hmove
    split at hmove <;> simp at hmove
  · refine ⟨(c, r), rfl, hcall, ?_⟩
    simp only [connectionWorkers] at hmove
    split at hmove
    · rename_i off hphase
      simp only [Except.ok.injEq, Move.call.injEq] at hmove
      obtain ⟨rfl, rfl⟩ := hmove
      dsimp only at hnext
      split_ifs at hnext with hr
      all_goals
        simp only [Except.ok.injEq, Prod.mk.injEq] at hnext
        obtain ⟨rfl, rfl⟩ := hnext
      · exact .more hphase hr
      · exact .done hphase hr
    · simp at hmove

/-- Every event that goes through, over any service. -/
lemma workers_move {e : DeviceEvent}
    (h : Client.step service connectionWorkers (s, w) e = .ok ((t, v), o)) :
    WorkerMove w e v o.1 o.2 ∧
      match o.1 with
      | none => t = s
      | some c => service s c.1 = .ok (t, c.2) := by
  have hcall : (∃ c, o.1 = some c ∧ service s c.1 = .ok (t, c.2) ∧ WorkerMove w e v (some c) o.2) →
      WorkerMove w e v o.1 o.2 ∧
        match o.1 with
        | none => t = s
        | some c => service s c.1 = .ok (t, c.2) := by
    rintro ⟨c, ho, hservice, hmove⟩
    rw [ho]
    exact ⟨hmove, hservice⟩
  cases e with
  | recv id bytes addr f =>
    obtain ⟨hmove, ho, rfl⟩ := recv_move h
    refine ⟨hmove, ?_⟩
    rw [ho]
  | ioctl id a => exact hcall (ioctl_move h)
  | write id a => exact hcall (write_move h)
  | lseek id => exact hcall (lseek_move h)
  | read id => exact hcall (read_move h)

end Moves

section Alone

variable {d : AesdDev} {id : ℕ}

/-- The two calls of one round of a read-out. -/
lemma round_alone {fp off : ℤ} {r : ReadResult}
    (hread : aesdRead d 100 (aesdLlseek d fp off 0).1 0 = .ok r) {w : Workers}
    (hphase : (w id).phase = .seeking off) (fpos : ℕ → ℤ) :
    ∃ fpos' outs, run driverCalls (⟨d, fpos⟩, w) [.lseek id, .read id] =
        .ok ((⟨d, fpos'⟩, Function.update w id
          ⟨(w id).buffer, if r.retval > 0 then .seeking (off + r.retval) else .receiving⟩), outs) ∧
      sentTo id outs = if r.retval > 0 then r.delivered else [] := by
  have hset : (aesdLlseek d fp off 0).1 = (aesdLlseek d (fpos id) off 0).1 := by simp [aesdLlseek]
  rw [hset] at hread
  have hseek : driverCalls (⟨d, fpos⟩, w) (.lseek id) =
      .ok ((⟨d, Function.update fpos id (aesdLlseek d (fpos id) off 0).1⟩,
        Function.update w id ⟨(w id).buffer, .reading off⟩),
        some (.llseek id off 0, ⟨(aesdLlseek d (fpos id) off 0).2, [], none⟩), none) := by
    simp [driverCalls, Client.step, connectionWorkers, hphase, DriverState.step]
  generalize hf : Function.update fpos id (aesdLlseek d (fpos id) off 0).1 = f at hseek
  generalize hx : Function.update w id ⟨(w id).buffer, DevicePhase.reading off⟩ = x at hseek
  have hfile : f id = (aesdLlseek d (fpos id) off 0).1 := by rw [← hf, Function.update_self]
  have htask : x id = ⟨(w id).buffer, .reading off⟩ := by rw [← hx, Function.update_self]
  have hcall : DriverState.step ⟨d, f⟩ (.read id 100 0) =
      .ok (⟨d, Function.update f id r.fpos⟩, ⟨r.retval, r.delivered, none⟩) := by
    have hat : aesdRead d 100 (f id) 0 = .ok r := by rw [hfile, hread]
    rw [DriverState.step]
    dsimp only
    rw [hat]
    rfl
  have hupdate : ∀ task, Function.update x id task = Function.update w id task := by
    intro task
    rw [← hx, Function.update_idem]
  have hprogram : ∃ next, connectionWorkers x (.read id) = .ok (.call (.read id 100 0) next) ∧
      next ⟨r.retval, r.delivered, none⟩ = if r.retval > 0 then
          .ok (Function.update x id ⟨(w id).buffer, .seeking (off + r.retval)⟩, some (id, r.delivered))
        else .ok (Function.update x id ⟨(w id).buffer, .receiving⟩, none) :=
    ⟨fun r => if r.ret > 0 then
        .ok (Function.update x id ⟨(w id).buffer, .seeking (off + r.ret)⟩, some (id, r.delivered))
      else .ok (Function.update x id ⟨(w id).buffer, .receiving⟩, none),
      by simp only [connectionWorkers, htask], rfl⟩
  obtain ⟨next, hprogram, hnext⟩ := hprogram
  rw [hupdate, hupdate] at hnext
  by_cases hsome : r.retval > 0
  · rw [if_pos hsome] at hnext ⊢
    refine ⟨_, _, run_cons_ok.mpr ⟨_, _, _, hseek, run_cons_ok.mpr
      ⟨_, _, _, step_call hprogram hcall hnext, rfl, rfl⟩, rfl⟩, ?_⟩
    simp [sentTo, hsome]
  · rw [if_neg hsome] at hnext ⊢
    refine ⟨_, _, run_cons_ok.mpr ⟨_, _, _, hseek, run_cons_ok.mpr
      ⟨_, _, _, step_call hprogram hcall hnext, rfl, rfl⟩, rfl⟩, ?_⟩
    simp [sentTo, hsome]

/-- A read-out that no other call comes between is `dump_file_to_socket`. -/
lemma readOut_alone {fuel : ℕ} {fp off : ℤ} {sent : Bytes} (h : dumpDeviceFrom d fuel fp off = .ok sent)
    {w : Workers} (hphase : (w id).phase = .seeking off) (fpos : ℕ → ℤ) :
    ∃ events fpos' outs, (∀ e ∈ events, e.worker = id) ∧
      run driverCalls (⟨d, fpos⟩, w) events =
        .ok ((⟨d, fpos'⟩, Function.update w id ⟨(w id).buffer, .receiving⟩), outs) ∧
      sentTo id outs = sent := by
  induction fuel generalizing fp off sent w fpos with
  | zero => simp [dumpDeviceFrom] at h
  | succ fuel ih =>
    obtain ⟨r, hread, hrest⟩ := bind_eq_ok.mp h
    obtain ⟨f, outs, hround, hsends⟩ := round_alone hread hphase fpos
    by_cases hsome : r.retval > 0
    · rw [if_pos hsome] at hrest hround hsends
      obtain ⟨later, hlater, hsent⟩ := bind_eq_ok.mp hrest
      rw [Except.ok.injEq] at hsent
      subst hsent
      obtain ⟨events, fpos', outs', hown, hrun, hsends'⟩ := ih hlater
        (congrArg DeviceTask.phase
          (Function.update_self id ⟨(w id).buffer, .seeking (off + r.retval)⟩ w)) f
      rw [Function.update_self, Function.update_idem] at hrun
      refine ⟨[.lseek id, .read id] ++ events, fpos', _, ?_, run_append_ok hround hrun, ?_⟩
      · simpa [DeviceEvent.worker] using hown
      · rw [sentTo_append, hsends, hsends']
    · rw [if_neg hsome] at hrest hround hsends
      rw [Except.ok.injEq] at hrest
      subst hrest
      exact ⟨_, f, outs, by simp [DeviceEvent.worker], hround, hsends⟩

/-- The same of a write with the read-out that may follow it. -/
lemma write_alone {d' : AesdDev} {buffer sent : Bytes} {n : ℕ} {wr : WriteAnswers} {ret p : ℤ}
    (hwrite : aesdWrite d (buffer.take n) wr = .ok (d', ret))
    (hp : findDelimterPosition buffer 0 n = .ok p)
    (hsent : if p ≠ -1 then dumpDeviceToSocket d' = .ok sent else sent = []) {w : Workers}
    (hw : w id = ⟨buffer, .writing n⟩) (fpos : ℕ → ℤ) :
    ∃ events fpos' outs, (∀ e ∈ events, e.worker = id) ∧
      run driverCalls (⟨d, fpos⟩, w) events =
        .ok ((⟨d', fpos'⟩, Function.update w id ⟨buffer, .receiving⟩), outs) ∧
      sentTo id outs = sent := by
  have hstep : driverCalls (⟨d, fpos⟩, w) (.write id wr) =
      .ok ((⟨d', fpos⟩, Function.update w id ⟨buffer, if p ≠ -1 then .seeking 0 else .receiving⟩),
        some (.write id (buffer.take n) wr, ⟨ret, [], none⟩), none) := by
    simp [driverCalls, Client.step, connectionWorkers, hw, DriverState.step, hwrite, hp, bind,
      Except.bind]
  by_cases hfound : p ≠ -1
  · rw [if_pos hfound] at hsent hstep
    obtain ⟨events, fpos', outs, hown, hrun, hsends⟩ := readOut_alone hsent
      (congrArg DeviceTask.phase (Function.update_self id ⟨buffer, .seeking 0⟩ w)) fpos
    rw [Function.update_self, Function.update_idem] at hrun
    refine ⟨.write id wr :: events, fpos', _, ?_, run_cons_ok.mpr ⟨_, _, _, hstep, hrun, rfl⟩, ?_⟩
    · simpa [DeviceEvent.worker] using hown
    · rw [← hsends]
      simp [sentTo]
  · rw [if_neg hfound] at hsent hstep
    refine ⟨[.write id wr], fpos, _, ?_, run_cons_ok.mpr ⟨_, _, _, hstep, rfl, rfl⟩, ?_⟩
    · simp [DeviceEvent.worker]
    · simp [sentTo, hsent]

/-- What follows when a chunk of `n` bytes is taken for no command, alone. -/
lemma record_alone {buffer : Bytes} {n : ℕ} {wr : WriteAnswers} {t : DeviceTurn}
    (h : (aesdWrite d (buffer.take n) wr >>= fun r => findDelimterPosition buffer 0 n >>= fun p =>
      if p ≠ -1 then dumpDeviceToSocket r.1 >>= fun sent => .ok ⟨r.1, buffer, sent⟩
      else .ok ⟨r.1, buffer, []⟩) = .ok t)
    {w : Workers} (hw : w id = ⟨buffer, .writing n⟩) (fpos : ℕ → ℤ) :
    ∃ events fpos' outs, (∀ e ∈ events, e.worker = id) ∧
      run driverCalls (⟨d, fpos⟩, w) events =
        .ok ((⟨t.dev, fpos'⟩, Function.update w id ⟨t.buffer, .receiving⟩), outs) ∧
      sentTo id outs = t.sent := by
  obtain ⟨⟨d', ret⟩, hwrite, h⟩ := bind_eq_ok.mp h
  obtain ⟨p, hp, h⟩ := bind_eq_ok.mp h
  by_cases hfound : p ≠ -1
  · rw [if_pos hfound] at h
    obtain ⟨sent, hdump, h⟩ := bind_eq_ok.mp h
    rw [Except.ok.injEq] at h
    subst h
    exact write_alone hwrite hp (by rw [if_pos hfound]; exact hdump) hw fpos
  · rw [if_neg hfound, Except.ok.injEq] at h
    subst h
    exact write_alone hwrite hp (by rw [if_neg hfound]) hw fpos

/-- The request of a worker, over the driver. -/
lemma ioctl_alone {buffer buffer' : Bytes} {n : ℕ} {test : AesdSeekto} {a : IoctlAnswers}
    {d' d'' : AesdDev} {ret result : ℤ} {answer : Option SeekResult}
    (hanswer : (match answer with
      | none => .ok (d', buffer, 0)
      | some r =>
        if buffer.length < r.special.length then .error .fault
        else .ok (d', splice buffer 0 r.special, Word.signed 64 r.arg.lengthCopied.toNat)) =
      (Except.ok (d'', buffer', result) : Except Stop (AesdDev × Bytes × ℤ)))
    (hioctl : aesdIoctl d AESDCHAR_IOCSEEKTO test a = .ok (d', ret, answer))
    {w : Workers} (hw : w id = ⟨buffer, .asking n test⟩) (fpos : ℕ → ℤ) :
    d'' = d' ∧ driverCalls (⟨d, fpos⟩, w) (.ioctl id a) =
      .ok ((⟨d', fpos⟩, Function.update w id ⟨buffer',
        if result > 1 ∨ result = 0 then .receiving else .writing n⟩),
        some (.ioctl id AESDCHAR_IOCSEEKTO test a, ⟨ret, [], answer⟩),
        if result > 1 then some (id, buffer'.take result.toNat) else none) := by
  have hcall : DriverState.step ⟨d, fpos⟩ (.ioctl id AESDCHAR_IOCSEEKTO test a) =
      .ok (⟨d', fpos⟩, ⟨ret, [], answer⟩) := by
    rw [DriverState.step]
    dsimp only
    rw [hioctl]
    rfl
  cases answer with
  | none =>
    simp only [Except.ok.injEq, Prod.mk.injEq] at hanswer
    obtain ⟨rfl, rfl, rfl⟩ := hanswer
    refine ⟨rfl, ?_⟩
    simp [driverCalls, Client.step, connectionWorkers, hw, hcall]
  | some r =>
    dsimp only at hanswer
    split_ifs at hanswer with hlong
    rw [Except.ok.injEq, Prod.mk.injEq, Prod.mk.injEq] at hanswer
    obtain ⟨rfl, hbuffer, hresult⟩ := hanswer
    refine ⟨rfl, ?_⟩
    simp only [driverCalls, Client.step, connectionWorkers, hw, hcall, if_neg hlong, hbuffer, hresult]
    by_cases hmany : result > 1
    · simp [hmany]
    · by_cases hnone : result = 0 <;> simp [hmany, hnone]

/-- What follows when it is taken for one, alone: the request, and the write if its answer is
taken for none. -/
lemma request_alone {buffer buffer' : Bytes} {n : ℕ} {test : AesdSeekto} {a : IoctlAnswers}
    {wr : WriteAnswers} {d' d'' : AesdDev} {ret result : ℤ} {answer : Option SeekResult}
    {t : DeviceTurn} (hanswer : (match answer with
      | none => .ok (d', buffer, 0)
      | some r =>
        if buffer.length < r.special.length then .error .fault
        else .ok (d', splice buffer 0 r.special, Word.signed 64 r.arg.lengthCopied.toNat)) =
      (Except.ok (d'', buffer', result) : Except Stop (AesdDev × Bytes × ℤ)))
    (hioctl : aesdIoctl d AESDCHAR_IOCSEEKTO test a = .ok (d', ret, answer))
    (h : (if result > 1 then .ok ⟨d'', buffer', buffer'.take result.toNat⟩
      else if result = 0 then .ok ⟨d'', buffer', []⟩
      else aesdWrite d'' (buffer'.take n) wr >>= fun r => findDelimterPosition buffer' 0 n >>= fun p =>
        if p ≠ -1 then dumpDeviceToSocket r.1 >>= fun sent => .ok ⟨r.1, buffer', sent⟩
        else .ok ⟨r.1, buffer', []⟩) = (Except.ok t : Except Stop DeviceTurn))
    {w : Workers} (hw : w id = ⟨buffer, .asking n test⟩) (fpos : ℕ → ℤ) :
    ∃ events fpos' outs, (∀ e ∈ events, e.worker = id) ∧
      run driverCalls (⟨d, fpos⟩, w) events =
        .ok ((⟨t.dev, fpos'⟩, Function.update w id ⟨t.buffer, .receiving⟩), outs) ∧
      sentTo id outs = t.sent := by
  obtain ⟨rfl, hstep⟩ := ioctl_alone hanswer hioctl hw fpos
  by_cases hends : result > 1 ∨ result = 0
  · have ht : t = ⟨d'', buffer', if result > 1 then buffer'.take result.toNat else []⟩ := by
      by_cases hmany : result > 1
      · rw [if_pos hmany, Except.ok.injEq] at h
        rw [if_pos hmany, ← h]
      · rw [if_neg hmany, if_pos (hends.resolve_left hmany), Except.ok.injEq] at h
        rw [if_neg hmany, ← h]
    rw [if_pos hends] at hstep
    subst ht
    refine ⟨[.ioctl id a], fpos, _, ?_, run_cons_ok.mpr ⟨_, _, _, hstep, rfl, rfl⟩, ?_⟩
    · simp [DeviceEvent.worker]
    · by_cases hmany : result > 1 <;> simp [sentTo, hmany]
  · obtain ⟨hmany, hnone⟩ := not_or.mp hends
    rw [if_neg hends, if_neg hmany] at hstep
    rw [if_neg hmany, if_neg hnone] at h
    obtain ⟨events, fpos', outs, hown, hrun, hsends⟩ :=
      record_alone h (Function.update_self id _ w) fpos
    rw [Function.update_idem] at hrun
    refine ⟨.ioctl id a :: events, fpos', _, ?_, run_cons_ok.mpr ⟨_, _, _, hstep, hrun, rfl⟩, ?_⟩
    · simpa [DeviceEvent.worker] using hown
    · rw [← hsends]
      simp [sentTo]

/-- A worker that no other comes between does with a chunk what `deviceTurn` does. -/
theorem turn_alone {buffer bytes : Bytes} {addr : UInt64} {f : Frame} {a : IoctlAnswers}
    {wr : WriteAnswers} {t : DeviceTurn}
    (h : deviceTurn d (splice buffer 0 bytes) addr bytes.length f a wr = .ok t)
    (hroom : bytes ≠ [] ∧ bytes.length ≤ BUFFER_SIZE) {w : Workers}
    (hw : w id = ⟨buffer, .receiving⟩) (fpos : ℕ → ℤ) :
    ∃ events fpos' outs, (∀ e ∈ events, e.worker = id) ∧
      run driverCalls (⟨d, fpos⟩, w) (.recv id bytes addr f :: events) =
        .ok ((⟨t.dev, fpos'⟩, Function.update w id ⟨t.buffer, .receiving⟩), outs) ∧
      sentTo id outs = t.sent := by
  have hinside : ¬(bytes = [] ∨ BUFFER_SIZE < bytes.length) := by
    rintro (hnil | hlong)
    · exact hroom.1 hnil
    · omega
  obtain ⟨⟨d', buffer', result⟩, hhandle, hrest⟩ := bind_eq_ok.mp h
  dsimp only at hrest
  rw [handleIoctlCommainds] at hhandle
  by_cases hrec : recognised (splice buffer 0 bytes) bytes.length
  · rw [if_pos hrec] at hhandle
    obtain ⟨⟨x, y⟩, hnumbers, hhandle⟩ := bind_eq_ok.mp hhandle
    obtain ⟨⟨d₂, ret, answer⟩, hioctl, hhandle⟩ := bind_eq_ok.mp hhandle
    have hrecv : driverCalls (⟨d, fpos⟩, w) (.recv id bytes addr f) =
        .ok ((⟨d, fpos⟩, Function.update w id ⟨(splice buffer 0 bytes).set bytes.length 0,
          .asking bytes.length ⟨x, y, 0, addr⟩⟩), none, none) := by
      simp only [driverCalls, Client.step, connectionWorkers, hw, if_neg hinside, if_pos hrec, hnumbers,
        bind, Except.bind]
    have hlen : ((splice buffer 0 bytes).set bytes.length 0).length =
        (splice buffer 0 bytes).length := List.length_set
    rw [← hlen] at hhandle
    obtain ⟨events, fpos', outs, hown, hrun, hsends⟩ :=
      request_alone hhandle hioctl hrest (Function.update_self id _ w) fpos
    rw [Function.update_idem] at hrun
    exact ⟨events, fpos', _, hown, run_cons_ok.mpr ⟨_, _, _, hrecv, hrun, rfl⟩, hsends⟩
  · rw [if_neg hrec, Except.ok.injEq, Prod.mk.injEq, Prod.mk.injEq] at hhandle
    obtain ⟨rfl, rfl, rfl⟩ := hhandle
    have hrecv : driverCalls (⟨d, fpos⟩, w) (.recv id bytes addr f) =
        .ok ((⟨d, fpos⟩, Function.update w id ⟨splice buffer 0 bytes, .writing bytes.length⟩),
          none, none) := by
      simp only [driverCalls, Client.step, connectionWorkers, hw, if_neg hinside, if_neg hrec]
    rw [if_neg (by norm_num), if_neg (by norm_num)] at hrest
    obtain ⟨events, fpos', outs, hown, hrun, hsends⟩ :=
      record_alone hrest (Function.update_self id _ w) fpos
    rw [Function.update_idem] at hrun
    exact ⟨events, fpos', _, hown, run_cons_ok.mpr ⟨_, _, _, hrecv, hrun, rfl⟩, hsends⟩

end Alone

section Stores

def DeviceTask.Asks (task : DeviceTask) : Prop := ∃ length test, task.phase = .asking length test

/-- A worker leaves the others alone, calls with files of its own and sends to its peer. -/
lemma WorkerMove.own {w v : Workers} {e : DeviceEvent} {call : Option (Call × Reply)}
    {sent : Option (ℕ × Bytes)} (h : WorkerMove w e v call sent) :
    (∀ id ≠ e.worker, v id = w id) ∧ (∀ c ∈ call, c.1.file = e.worker) ∧
      ∀ p ∈ sent, p.1 = e.worker := by
  cases h with
  | asked hphase hsent =>
    refine ⟨fun id hid => Function.update_of_ne hid _ _, ?_, hsent⟩
    simp [Call.file, DeviceEvent.worker]
  | _ =>
    refine ⟨fun id hid => Function.update_of_ne hid _ _, ?_, ?_⟩
    · simp [Call.file, DeviceEvent.worker]
    · simp [DeviceEvent.worker]

lemma writtenBy_other {id : ℕ} {call : Option (Call × Reply)} (h : ∀ c ∈ call, c.1.file ≠ id) :
    writtenBy id call.toList = [] := by
  cases call with
  | none => rfl
  | some c =>
    obtain ⟨c, r⟩ := c
    have hne := h _ rfl
    cases c with
    | write file buf a => simpa [writtenBy, Call.file] using hne
    | _ => rfl

lemma chunk_other {e : DeviceEvent} {id : ℕ} (h : e.worker ≠ id) : e.chunk id = none := by
  cases e with
  | recv i bytes addr f => exact if_neg h
  | _ => rfl

/-- A connection that sends no command loses nothing and writes nothing twice. -/
lemma WorkerMove.conserves {w v : Workers} {e : DeviceEvent} {call : Option (Call × Reply)}
    {sent : Option (ℕ × Bytes)} (h : WorkerMove w e v call sent) {id : ℕ}
    (hdata : ∀ c ∈ e.chunk id, ¬recognised c c.length) (hask : ¬(w id).Asks) :
    ¬(v id).Asks ∧
      (w id).unwritten ++ (e.chunk id).toList = writtenBy id call.toList ++ (v id).unwritten := by
  by_cases hid : e.worker = id
  · subst hid
    cases h with
    | data hphase hrec =>
      refine ⟨by simp [DeviceTask.Asks, DeviceEvent.worker], ?_⟩
      simp [DeviceTask.unwritten, hphase, DeviceEvent.worker, DeviceEvent.chunk, writtenBy, splice]
    | @command i bytes addr f test hphase hrec =>
      exact absurd ((recognised_chunk _ bytes).mp hrec) (hdata bytes (if_pos rfl))
    | asked hphase hsent => exact absurd ⟨_, _, hphase⟩ hask
    | wrote hphase hnext =>
      rcases hnext with rfl | rfl
      all_goals
        refine ⟨by simp [DeviceTask.Asks, DeviceEvent.worker], ?_⟩
        simp [DeviceTask.unwritten, hphase, DeviceEvent.worker, DeviceEvent.chunk, writtenBy]
    | sought hphase | more hphase hr | done hphase hr =>
      refine ⟨by simp [DeviceTask.Asks, DeviceEvent.worker], ?_⟩
      simp [DeviceTask.unwritten, hphase, DeviceEvent.worker, DeviceEvent.chunk, writtenBy]
  · obtain ⟨hother, hfile, -⟩ := h.own
    rw [hother id (Ne.symm hid), chunk_other hid, writtenBy_other fun c hc => hfile c hc ▸ hid]
    exact ⟨hask, by simp⟩

lemma run_conserves {σ : Type} {service : σ → Call → Except Stop (σ × Reply)} {s t : σ}
    {w v : Workers} {events : List DeviceEvent} {outs : List CallOutput}
    (h : run (Client.step service connectionWorkers) (s, w) events = .ok ((t, v), outs)) {id : ℕ}
    (hdata : ∀ c ∈ chunksTo id events, ¬recognised c c.length) (hask : ¬(w id).Asks) :
    (w id).unwritten ++ chunksTo id events = writtenBy id (calls outs) ++ (v id).unwritten := by
  induction events generalizing s w outs with
  | nil =>
    rw [run_nil, Except.ok.injEq, Prod.mk.injEq, Prod.mk.injEq] at h
    obtain ⟨⟨-, rfl⟩, rfl⟩ := h
    simp [chunksTo, calls, writtenBy]
  | cons e events ih =>
    obtain ⟨⟨u, x⟩, o, os, hstep, hrest, rfl⟩ := run_cons_ok.mp h
    have hsplit : chunksTo id (e :: events) = (e.chunk id).toList ++ chunksTo id events := by
      rw [chunksTo, List.filterMap_cons]
      cases e.chunk id <;> rfl
    rw [hsplit] at hdata ⊢
    obtain ⟨hask', hone⟩ := (workers_move hstep).1.conserves
      (fun c hc => hdata c (List.mem_append_left _ (by simpa using hc))) hask
    have hlater := ih hrest (fun c hc => hdata c (List.mem_append_right _ hc)) hask'
    have hwritten : writtenBy id (calls (o :: os)) =
        writtenBy id o.1.toList ++ writtenBy id (calls os) := by
      rw [calls_cons]
      exact List.filterMap_append
    rw [← List.append_assoc, hone, List.append_assoc, hlater, hwritten, List.append_assoc]

lemma session_step_stored {s t : Session} {c : Call × Reply} (h : s.step c.1 = .ok (t, c.2)) :
    t.store = (storedBy c).elim s.store s.store.write := by
  obtain ⟨c, r⟩ := c
  cases c with
  | write file buf a =>
    simp only [Session.step] at h
    split_ifs at h
    all_goals
      rw [Except.ok.injEq, Prod.mk.injEq] at h
      obtain ⟨rfl, rfl⟩ := h
    · rfl
    · rw [storedBy, if_pos (Int.natCast_nonneg _)]
      rfl
    · rfl
  | read file count uncopied =>
    rw [Session.step, Except.ok.injEq, Prod.mk.injEq] at h
    exact h.1 ▸ rfl
  | llseek file off whence =>
    simp only [Session.step] at h
    split at h
    all_goals
      rw [Except.ok.injEq, Prod.mk.injEq] at h
      exact h.1 ▸ rfl
  | ioctl file cmd arg a =>
    simp only [Session.step] at h
    split_ifs at h
    all_goals
      rw [Except.ok.injEq, Prod.mk.injEq] at h
      exact h.1 ▸ rfl

/-- The store is what the writes that went through make of it, in their order. -/
lemma session_stored {s t : Session} {cs : List (Call × Reply)}
    (h : s.run (cs.map Prod.fst) = .ok (t, cs.map Prod.snd)) :
    t.store = (cs.filterMap storedBy).foldl CommandStore.write s.store := by
  induction cs generalizing s with
  | nil =>
    rw [List.map_nil, List.map_nil, Session.run, run_nil, Except.ok.injEq, Prod.mk.injEq] at h
    rw [← h.1]
    rfl
  | cons c cs ih =>
    obtain ⟨u, o, os, hstep, hrest, hos⟩ := run_cons_ok.mp h
    rw [List.map_cons, List.cons.injEq] at hos
    obtain ⟨hreply, rfl⟩ := hos
    rw [ih hrest, List.filterMap_cons, session_step_stored (c := c) (hreply ▸ hstep)]
    cases storedBy c <;> rfl

end Stores

section ReadOut

/-- What a read-out has still to send. -/
def DeviceTask.rest (task : DeviceTask) (contents : Bytes) : Bytes :=
  match task.phase with
  | .seeking currFileOffset => contents.drop currFileOffset.toNat
  | .reading currFileOffset => contents.drop currFileOffset.toNat
  | _ => []

/-- The worker is at a read-out, inside what is retained, or behind it. -/
def DeviceTask.ReadsOut (task : DeviceTask) (s : Session) (id : ℕ) : Prop :=
  match task.phase with
  | .receiving => True
  | .seeking currFileOffset => 0 ≤ currFileOffset ∧ currFileOffset ≤ s.store.contents.length
  | .reading currFileOffset =>
    (0 ≤ currFileOffset ∧ currFileOffset ≤ s.store.contents.length) ∧ s.position id = currFileOffset
  | _ => False

lemma write_open_contents (s : CommandStore) {buf : Bytes} (h : newline ∉ buf) :
    (s.write buf).contents = s.contents := by
  rw [CommandStore.contents, CommandStore.contents, s.write_open h]

/-- Unless a line is stored, a call leaves what is retained, and the positions of other files. -/
lemma session_step_keeps {s t : Session} {c : Call} {r : Reply} (h : s.step c = .ok (t, r))
    (hopen : ∀ b ∈ storedBy (c, r), newline ∉ b) : t.store.contents = s.store.contents := by
  rw [session_step_stored (c := (c, r)) h]
  cases hb : storedBy (c, r) with
  | none => rfl
  | some b => exact write_open_contents _ (hopen b hb)

/-- A call moves the file it is made on, at most. -/
lemma session_step_position {s t : Session} {c : Call} {r : Reply} (h : s.step c = .ok (t, r))
    {file : ℕ} (hfile : file ≠ c.file) : t.position file = s.position file := by
  have hmoved : ∀ pos, (s.moved c.file pos).position file = s.position file :=
    fun pos => Function.update_of_ne hfile _ _
  cases c with
  | write i buf a =>
    simp only [Session.step] at h
    split_ifs at h
    all_goals
      rw [Except.ok.injEq, Prod.mk.injEq] at h
      exact h.1 ▸ rfl
  | read i count uncopied =>
    rw [Session.step, Except.ok.injEq, Prod.mk.injEq] at h
    exact h.1 ▸ hmoved _
  | llseek i off whence =>
    simp only [Session.step] at h
    split at h
    all_goals
      rw [Except.ok.injEq, Prod.mk.injEq] at h
    · exact h.1 ▸ hmoved _
    · exact h.1 ▸ rfl
  | ioctl i cmd arg a =>
    simp only [Session.step] at h
    split_ifs at h
    all_goals
      rw [Except.ok.injEq, Prod.mk.injEq] at h
      exact h.1 ▸ rfl

lemma session_read {s t : Session} {file : ℕ} {r : Reply} {pos : ℕ} (hpos : s.position file = pos)
    (hin : pos ≤ s.store.contents.length) (h : s.step (.read file 100 0) = .ok (t, r)) :
    ∃ n : ℕ, r.ret = n ∧ r.delivered = (s.store.contents.drop pos).take n ∧
      pos + n ≤ s.store.contents.length ∧ (n = 0 → pos = s.store.contents.length) := by
  have hlen := s.store.readAt_length pos 100
  rw [Session.step, hpos, Except.ok.injEq, Prod.mk.injEq] at h
  refine ⟨s.store.readLength pos 100, ?_, ?_, s.store.readLength_le hin 100, fun hnone => ?_⟩
  · rw [← h.2, hlen]
  · rw [← h.2, ← s.store.readAt_natCast, Nat.sub_zero, List.take_length]
  · rcases hin.lt_or_eq with hlt | heq
    · have hsome := CommandStore.readLength_pos hlt (show 0 < 100 by omega)
      omega
    · exact heq

section Rest

variable {s t : Session} {id : ℕ} {off : ℤ} {r : Reply} {task : DeviceTask}

lemma sought_rest (h : s.step (.llseek id off 0) = .ok (t, r))
    (hsmall : s.store.contents.length < 2 ^ 63) (hcontents : t.store.contents = s.store.contents)
    (hphase : task.phase = .seeking off) (hread : task.ReadsOut s id) :
    DeviceTask.ReadsOut ⟨task.buffer, .reading off⟩ t id ∧
      DeviceTask.rest ⟨task.buffer, .reading off⟩ s.store.contents = task.rest s.store.contents := by
  simp only [DeviceTask.ReadsOut, hphase] at hread
  have hword : Word.signed 64 (0 + off) = off :=
    (congrArg _ (zero_add off)).trans (Word.signed_of_mem (by omega) (by omega))
  have hseek : Except.ok (s.moved id (Word.signed 64 (0 + off)), _) = Except.ok (t, r) := h
  rw [Except.ok.injEq, Prod.mk.injEq, hword] at hseek
  have hpos : t.position id = off := by
    rw [← hseek.1]
    exact Function.update_self ..
  simp [DeviceTask.ReadsOut, DeviceTask.rest, hphase, hpos, hcontents, hread]

lemma more_rest (h : s.step (.read id 100 0) = .ok (t, r))
    (hcontents : t.store.contents = s.store.contents) (hphase : task.phase = .reading off)
    (hread : task.ReadsOut s id) :
    DeviceTask.ReadsOut ⟨task.buffer, .seeking (off + r.ret)⟩ t id ∧
      r.delivered ++ DeviceTask.rest ⟨task.buffer, .seeking (off + r.ret)⟩ s.store.contents =
        task.rest s.store.contents := by
  simp only [DeviceTask.ReadsOut, hphase] at hread
  obtain ⟨⟨hlow, hhigh⟩, hpos⟩ := hread
  obtain ⟨pos, rfl⟩ := Int.eq_ofNat_of_zero_le hlow
  obtain ⟨n, hret, hbytes, hle, -⟩ := session_read hpos (by omega) h
  have hnext : ((pos : ℤ) + n).toNat = pos + n := by omega
  refine ⟨?_, ?_⟩
  · simp only [DeviceTask.ReadsOut, hcontents, hret]
    omega
  · simp only [DeviceTask.rest, hphase, hret, hnext, Int.toNat_natCast, ← List.drop_drop]
    simp [hbytes]

lemma done_rest (h : s.step (.read id 100 0) = .ok (t, r)) (hr : ¬r.ret > 0)
    (hphase : task.phase = .reading off) (hread : task.ReadsOut s id) :
    task.rest s.store.contents = [] := by
  simp only [DeviceTask.ReadsOut, hphase] at hread
  obtain ⟨⟨hlow, hhigh⟩, hpos⟩ := hread
  obtain ⟨pos, rfl⟩ := Int.eq_ofNat_of_zero_le hlow
  obtain ⟨n, hret, -, -, hend⟩ := session_read hpos (by omega) h
  have hdone := hend (by omega)
  simp [DeviceTask.rest, hphase, hdone]

/-- A step of another worker. -/
lemma other_rest {w v : Workers} {e : DeviceEvent} {o : CallOutput}
    (h : sessionCalls (s, w) e = .ok ((t, v), o)) (hid : e.worker ≠ id)
    (hcontents : t.store.contents = s.store.contents) (hread : (w id).ReadsOut s id) :
    (v id).ReadsOut t id ∧
      sentTo id [o] ++ (v id).rest s.store.contents = (w id).rest s.store.contents := by
  obtain ⟨call, sent⟩ := o
  obtain ⟨hmove, hcall⟩ := workers_move h
  obtain ⟨hother, hfile, hsent⟩ := hmove.own
  have hposition : t.position id = s.position id := by
    cases call with
    | none => rw [show t = s from hcall]
    | some c =>
      refine session_step_position hcall ?_
      rw [hfile c rfl]
      exact Ne.symm hid
  have hnothing : sentTo id [(call, sent)] = [] := by
    cases sent with
    | none => rfl
    | some p =>
      have hne : p.1 ≠ id := hsent p rfl ▸ hid
      simp [sentTo, hne]
  rw [hother id (Ne.symm hid), hnothing]
  refine ⟨?_, rfl⟩
  unfold DeviceTask.ReadsOut at hread ⊢
  rwa [hcontents, hposition]

/-- A step of a read-out sends the next piece of what is retained, and a step of another
worker leaves it alone. -/
lemma step_rest {w v : Workers} {e : DeviceEvent} {o : CallOutput}
    (h : sessionCalls (s, w) e = .ok ((t, v), o)) (hsmall : s.store.contents.length < 2 ^ 63)
    (hchunk : e.chunk id = none) (hopen : ∀ b ∈ o.1.bind storedBy, newline ∉ b)
    (hread : (w id).ReadsOut s id) :
    t.store.contents = s.store.contents ∧ (v id).ReadsOut t id ∧
      sentTo id [o] ++ (v id).rest s.store.contents = (w id).rest s.store.contents := by
  obtain ⟨call, sent⟩ := o
  obtain ⟨hmove, hcall⟩ := workers_move h
  have hcontents : t.store.contents = s.store.contents := by
    cases call with
    | none => rw [show t = s from hcall]
    | some c => exact session_step_keeps hcall hopen
  refine ⟨hcontents, ?_⟩
  by_cases hid : e.worker = id
  · subst hid
    cases hmove with
    | data hphase hrec => simp [DeviceEvent.chunk, DeviceEvent.worker] at hchunk
    | command hphase hrec => simp [DeviceEvent.chunk, DeviceEvent.worker] at hchunk
    | asked hphase hsent => simp [DeviceTask.ReadsOut, DeviceEvent.worker, hphase] at hread
    | wrote hphase hnext => simp [DeviceTask.ReadsOut, DeviceEvent.worker, hphase] at hread
    | @sought id off r hphase =>
      obtain ⟨hreads, hrest⟩ := sought_rest hcall hsmall hcontents hphase hread
      simp only [DeviceEvent.worker, Function.update_self]
      exact ⟨hreads, hrest⟩
    | @more id off r hphase hr =>
      obtain ⟨hreads, hrest⟩ := more_rest hcall hcontents hphase hread
      simp only [DeviceEvent.worker, Function.update_self]
      exact ⟨hreads, by simpa [sentTo] using hrest⟩
    | @done id off r hphase hr =>
      have hrest := done_rest hcall hr hphase hread
      simp only [DeviceEvent.worker, Function.update_self]
      exact ⟨trivial, hrest.symm⟩
  · exact other_rest h hid hcontents hread

end Rest

/-- As long as nobody stores a line, a read-out sends what is retained from its offset on. -/
lemma run_rest {s t : Session} {w v : Workers} {events : List DeviceEvent} {outs : List CallOutput}
    (h : run sessionCalls (s, w) events = .ok ((t, v), outs)) {id : ℕ}
    (hsmall : s.store.contents.length < 2 ^ 63) (hchunks : ∀ e ∈ events, e.chunk id = none)
    (hopen : ∀ b ∈ (calls outs).filterMap storedBy, newline ∉ b) (hread : (w id).ReadsOut s id) :
    sentTo id outs ++ (v id).rest s.store.contents = (w id).rest s.store.contents := by
  induction events generalizing s w outs with
  | nil =>
    rw [run_nil, Except.ok.injEq, Prod.mk.injEq, Prod.mk.injEq] at h
    obtain ⟨⟨-, rfl⟩, rfl⟩ := h
    rfl
  | cons e events ih =>
    obtain ⟨⟨u, x⟩, o, os, hstep, hrest, rfl⟩ := run_cons_ok.mp h
    rw [calls_cons, List.filterMap_append] at hopen
    have hfirst : ∀ b ∈ o.1.bind storedBy, newline ∉ b := by
      intro b hb
      refine hopen b (List.mem_append_left _ ?_)
      obtain ⟨c, hc, hb⟩ := Option.bind_eq_some_iff.mp hb
      simp [hc, hb]
    obtain ⟨hcontents, hread', hone⟩ :=
      step_rest hstep hsmall (hchunks e List.mem_cons_self) hfirst hread
    have hlater := ih hrest (hcontents ▸ hsmall)
      (fun e' he => hchunks e' (List.mem_cons_of_mem e he))
      (fun b hb => hopen b (List.mem_append_right _ hb)) hread'
    have hsplit : sentTo id (o :: os) = sentTo id [o] ++ sentTo id os := sentTo_append id [o] os
    rw [hcontents] at hlater
    rw [hsplit, List.append_assoc, hlater, hone]

end ReadOut

/-- What users see of a driver in session. -/
def DriverState.Shows (s : DriverState) (v : Session) : Prop := s.session = v ∧ InSession s

/-- The driver answers a call as the device its users see does, and stays in session. -/
lemma step_shows {s : DriverState} {v : Session} {c : Call} (hs : s.Shows v) (hc : c.Provided s) :
    Agree DriverState.Shows (s.step c) (v.step c) := by
  obtain ⟨rfl, hs⟩ := hs
  rw [← seen_eq hs hc, DriverState.seen]
  cases h : s.step c with
  | error e => exact .stops e
  | ok r => exact .goes r.2 ⟨rfl, provided_inSession hs hc h⟩

lemma run_shows {s : DriverState} (hs : InSession s) {w : Workers} {events : List DeviceEvent}
    (hcalls : Guarded driverCalls CallProvided (s, w) events) :
    Agree (fun p q => p.1.Shows q.1 ∧ p.2 = q.2) (run driverCalls (s, w) events)
      (run sessionCalls (s.session, w) events) := by
  have hservice : ∀ (s : DriverState) (v : Session) (c : Call), s.Shows v → c.Provided s →
      Agree DriverState.Shows (s.step c) (v.step c) := fun _ _ _ => step_shows
  exact Client.run_refines hservice ⟨rfl, hs⟩ hcalls

/-- A run over the driver is one over the device, with the same outputs. -/
lemma run_shows_ok {s t : DriverState} (hs : InSession s) {w v : Workers}
    {events : List DeviceEvent} {outs : List CallOutput}
    (hcalls : Guarded driverCalls CallProvided (s, w) events)
    (h : run driverCalls (s, w) events = .ok ((t, v), outs)) :
    run sessionCalls (s.session, w) events = .ok ((t.session, v), outs) ∧ InSession t := by
  have hagree := run_shows hs hcalls
  rw [h] at hagree
  generalize run sessionCalls (s.session, w) events = y at hagree
  cases hagree with
  | @goes _ q _ hq =>
    obtain ⟨q, m⟩ := q
    obtain ⟨⟨rfl, ht⟩, rfl⟩ := hq
    exact ⟨rfl, ht⟩

/-- The workers of device mode at the grain of system calls. Whatever calls of others come
between those of one worker, each call does what it does to the device that users see;
what is stored are the chunks written, in the order of their writes; a connection that
sends no command has each of its chunks written once, in order, but for the last that may
not be written yet; and a read-out during which nobody stores a line sends all that is
retained. -/
theorem device_calls (s : DriverState) (hs : Reachable s) (hfits : s.session.Fits) (w : Workers)
    (hw : ∀ id, (w id).phase = .receiving) (events : List DeviceEvent)
    (hcalls : Guarded driverCalls CallProvided (s, w) events) :
    (run driverCalls (s, w) events).map (fun r => ((r.1.1.session, r.1.2), r.2)) =
        run sessionCalls (s.session, w) events ∧
      ∀ t v outs, run driverCalls (s, w) events = .ok ((t, v), outs) →
        t.dev.store = ((calls outs).filterMap storedBy).foldl CommandStore.write s.dev.store ∧
        (∀ id, (∀ c ∈ chunksTo id events, ¬recognised c c.length) →
          chunksTo id events = writtenBy id (calls outs) ++ (v id).unwritten) ∧
        ∀ pre post u x ps qs id, events = pre ++ post →
          run driverCalls (s, w) pre = .ok ((u, x), ps) → outs = ps ++ qs →
          (x id).phase = .seeking 0 → (v id).phase = .receiving →
          (∀ e ∈ post, e.chunk id = none) →
          (∀ b ∈ (calls qs).filterMap storedBy, newline ∉ b) →
          sentTo id qs = u.dev.store.contents := by
  have hsession : InSession s := ⟨hs.sound, hfits⟩
  refine ⟨?_, fun t v outs hrun => ?_⟩
  · have hshown : ∀ (p : DriverState × Workers) (q : Session × Workers),
        p.1.Shows q.1 ∧ p.2 = q.2 → (p.1.session, p.2) = q := fun p q h => Prod.ext h.1.1 h.2
    exact Agree.map_eq hshown (run_shows hsession hcalls)
  obtain ⟨hseen, -⟩ := run_shows_ok hsession hcalls hrun
  refine ⟨session_stored (Client.run_calls hseen), fun id hdata => ?_, ?_⟩
  · have hconserved := run_conserves hrun hdata (by simp [DeviceTask.Asks, hw])
    simpa [DeviceTask.unwritten, hw] using hconserved
  · intro pre post u x ps qs id hsplit hpre houts hstart hend hchunks hopen
    rw [hsplit] at hcalls hseen
    obtain ⟨hpreSeen, hu⟩ := run_shows_ok hsession (hcalls.beginning (List.prefix_append pre post)) hpre
    obtain ⟨m, ps', qs', hfirst, hpost, hall⟩ := run_append hseen
    rw [hpreSeen, Except.ok.injEq, Prod.mk.injEq] at hfirst
    obtain ⟨rfl, rfl⟩ := hfirst
    rw [houts] at hall
    rw [← List.append_cancel_left hall] at hpost
    have hread : (x id).ReadsOut u.session id := by
      simp [DeviceTask.ReadsOut, hstart]
    have hrest := run_rest hpost hu.held hchunks hopen hread
    simp only [DeviceTask.rest, hstart, hend, List.append_nil, Int.toNat_zero, List.drop_zero] at hrest
    exact hrest

/-- One worker writes the beginning of a line between the receive and the write of another,
which ends it and reads it out. -/
def sharedLine : List DeviceEvent :=
  [.recv 2 [98, 10] 0 ⟨[], 0, 0⟩, .recv 1 [97] 0 ⟨[], 0, 0⟩, .write 1 (granting 3 4),
    .write 2 (granting 5 6)]

theorem device_calls_shared_line :
    ∃ t v outs u x ps qs, run driverCalls (DriverState.fresh, fun _ => ⟨[], .receiving⟩)
        (sharedLine ++ [.lseek 2, .read 2, .lseek 2, .read 2]) = .ok ((t, v), outs) ∧
      t.dev.store = ((calls outs).filterMap storedBy).foldl CommandStore.write
        DriverState.fresh.dev.store ∧
      [[98, 10]] = writtenBy 2 (calls outs) ++ (v 2).unwritten ∧
      run driverCalls (DriverState.fresh, fun _ => ⟨[], .receiving⟩) sharedLine = .ok ((u, x), ps) ∧
      outs = ps ++ qs ∧ sentTo 2 qs = u.dev.store.contents := by
  have hguard : Guarded driverCalls CallProvided (DriverState.fresh, fun _ => ⟨[], .receiving⟩)
      (sharedLine ++ [.lseek 2, .read 2, .lseek 2, .read 2]) := by decide +kernel
  obtain ⟨-, hall⟩ := device_calls .fresh fresh_reached.reachable fresh_fits _ (fun _ => rfl) _ hguard
  obtain ⟨hstore, hconserved, hread⟩ := hall _ _ _ rfl
  refine ⟨_, _, _, _, _, _, _, rfl, hstore, hconserved 2 (by decide +kernel), rfl, rfl, ?_⟩
  exact hread sharedLine _ _ _ _ _ 2 rfl rfl rfl rfl rfl (by simp [DeviceEvent.chunk]) (by decide +kernel)

end Aesd
