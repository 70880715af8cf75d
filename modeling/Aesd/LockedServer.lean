import Aesd.SharedFile

/-! The server in file mode, one system call at a time and under `file_mutex`, from
aesdsocket.c: workers in their dumps, and the handler of `SIGALRM` over whatever thread it
comes to. Where every `open` succeeds and every `write` is complete, the dumps are the single
events of `FileServer`. -/
namespace Aesd
open GrowingLog Machine

/-- Where a thread is in a routine on the file: about to lock, to `open`, to `write`, to `read`
and `send`, or to unlock. -/
inductive Stage
  | waiting
  | opening
  | writing (opened : Bool) (left : List Bytes)
  | reading (opened : Bool) (sent : Bytes)
  | leaving (sent : Bytes)
  deriving DecidableEq

inductive FileRoutine
  | dumpBufferToFile (lengthToDump : ℤ) (buffer : Bytes)
  | dumpFileToSocket
  | printTimeToFile (currTime : Bytes)

namespace FileRoutine

/-- Where a routine is behind its `open`. -/
def opened (succeeds : Bool) : FileRoutine → Except Stop Stage
  | .dumpBufferToFile lengthToDump buffer => do
    let appended ← Aesd.dumpBufferToFile [] lengthToDump buffer
    .ok (.writing succeeds [appended])
  | .dumpFileToSocket => .ok (.reading succeeds [])
  | .printTimeToFile currTime => .ok (.writing succeeds (Appender.printTimeToFile currTime).writes)

/-- A dump whose `open` fails unlocks at once, goes on, and unlocks again. -/
def unlocksEarly : FileRoutine → Bool
  | .printTimeToFile _ => false
  | _ => true

def reply (id : ℕ) (sent : Bytes) : FileRoutine → Option (ℕ × Bytes)
  | .dumpFileToSocket => some (id, sent)
  | _ => none

/-- The routine as one event: the file behind it and what has been sent. -/
def whole (file : Bytes) : FileRoutine → Except Stop (Bytes × Bytes)
  | .dumpBufferToFile lengthToDump buffer => do
    let file ← Aesd.dumpBufferToFile file lengthToDump buffer
    .ok (file, [])
  | .dumpFileToSocket => do
    let sent ← Aesd.dumpFileToSocket file
    .ok (file, sent)
  | .printTimeToFile currTime => .ok (Aesd.printTimeToFile file currTime, [])

end FileRoutine

/-- A thread, a worker if it has a connection: how far that is in the routine of its phase, and
the handler that lies over it, with what the time of day is printed to. The main thread goes by
any number without a connection. -/
structure FileThread where
  conn : Option Connection
  stage : Stage
  handler : Option (Bytes × Stage)

namespace FileThread

def routine (t : FileThread) : Option FileRoutine :=
  match t.conn with
  | some ⟨w, .dumping⟩ => some (.dumpBufferToFile w.totalBytesReceived w.buffer)
  | some ⟨_, .replying⟩ => some .dumpFileToSocket
  | _ => none

/-- What runs: the handler while there is one. -/
def top (t : FileThread) : Option (FileRoutine × Stage) :=
  match t.handler with
  | some (currTime, stage) => some (.printTimeToFile currTime, stage)
  | none => t.routine.map fun routine => (routine, t.stage)

def setStage (t : FileThread) (stage : Stage) : FileThread :=
  match t.handler with
  | some (currTime, _) => { t with handler := some (currTime, stage) }
  | none => { t with stage := stage }

/-- Behind the routine that runs. -/
def ends (t : FileThread) (junk : ℕ → UInt8) : FileThread :=
  match t.handler, t.conn with
  | some _, _ => { t with handler := none }
  | none, some ⟨w, .dumping⟩ => ⟨some ⟨w, .replying⟩, .waiting, none⟩
  | none, some ⟨w, .replying⟩ => ⟨some ⟨w.reset junk, .receiving⟩, .waiting, none⟩
  | none, _ => t

/-- The event that the routine which runs is to the file server. -/
def event (t : FileThread) (id : ℕ) (junk : ℕ → UInt8) : Option FileEvent :=
  match t.handler, t.conn with
  | some (currTime, _), _ => some (.timestamp currTime)
  | none, some ⟨_, .dumping⟩ => some (.dump id)
  | none, some ⟨_, .replying⟩ => some (.reply id junk)
  | none, _ => none

end FileThread

structure LockedServer where
  file : Bytes
  owner : Option ℕ
  thread : ℕ → FileThread

/-- A `write` stores what it is told to, or less; a `read` finds something while there is
something, and what it finds is sent. -/
inductive ThreadEvent
  | accept (id : ℕ) (junk : ℕ → UInt8)
  | recv (id : ℕ) (received : Received)
  | hangup (id : ℕ)
  | alarm (id : ℕ) (currTime : Bytes)
  | lock (id : ℕ)
  | opens (id : ℕ) (succeeds : Bool)
  | write (id written : ℕ)
  | read (id count : ℕ)
  | unlock (id : ℕ) (junk : ℕ → UInt8)

namespace LockedServer

def start : LockedServer := ⟨[], none, fun _ => ⟨none, .waiting, none⟩⟩

def setThread (s : LockedServer) (id : ℕ) (t : FileThread) : LockedServer :=
  { s with thread := Function.update s.thread id t }

/-- The output is the reply of a read-out that has come to its end. What a thread is not
about to do does not occur. -/
def step (s : LockedServer) : ThreadEvent → Except Stop (LockedServer × Option (ℕ × Bytes))
  | .accept id junk =>
    match s.thread id with
    | ⟨none, _, none⟩ =>
      .ok (s.setThread id ⟨some ⟨.start junk, .receiving⟩, .waiting, none⟩, none)
    | _ => .error .blocked
  | .recv id r =>
    match s.thread id with
    | ⟨some ⟨w, .receiving⟩, _, none⟩ => do
      let p ← w.receive r
      .ok (s.setThread id ⟨some ⟨p.1, if p.2 then .dumping else .receiving⟩, .waiting, none⟩, none)
    | _ => .error .blocked
  | .hangup id =>
    match s.thread id with
    | ⟨some ⟨w, .receiving⟩, _, none⟩ =>
      .ok (s.setThread id ⟨some ⟨w, .closed⟩, .waiting, none⟩, none)
    | _ => .error .blocked
  | .alarm id currTime =>
    match s.thread id with
    | ⟨c, stage, none⟩ => .ok (s.setThread id ⟨c, stage, some (currTime, .waiting)⟩, none)
    | _ => .error .blocked
  | .lock id =>
    match (s.thread id).top, s.owner with
    | some (_, .waiting), none =>
      .ok ({ s with owner := some id }.setThread id ((s.thread id).setStage .opening), none)
    | _, _ => .error .blocked
  | .opens id succeeds =>
    match (s.thread id).top with
    | some (routine, .opening) => do
      let stage ← routine.opened succeeds
      let owner := if !succeeds && routine.unlocksEarly then none else s.owner
      .ok ({ s with owner := owner }.setThread id ((s.thread id).setStage stage), none)
    | _ => .error .blocked
  | .write id written =>
    match (s.thread id).top with
    | some (_, .writing opened (bs :: left)) =>
      let file := if opened then s.file ++ bs.take written else s.file
      let stage := if left = [] then .leaving [] else .writing opened left
      .ok ({ s with file := file }.setThread id ((s.thread id).setStage stage), none)
    | _ => .error .blocked
  | .read id count =>
    match (s.thread id).top with
    | some (_, .reading opened sent) =>
      if count = 0 ∨ 100 < count then .error .blocked
      else
        let out := if opened then piece s.file sent count else []
        let stage := if out = [] then .leaving sent else .reading opened (sent ++ out)
        .ok (s.setThread id ((s.thread id).setStage stage), none)
    | _ => .error .blocked
  | .unlock id junk =>
    match (s.thread id).top with
    | some (routine, .leaving sent) =>
      .ok ({ s with owner := none }.setThread id ((s.thread id).ends junk), routine.reply id sent)
    | _ => .error .blocked

abbrev run (events : List ThreadEvent) :
    Except Stop (LockedServer × List (Option (ℕ × Bytes))) :=
  Machine.run step start events

/-- Every `open` succeeds and every `write` is complete. -/
def Ordinary (s : LockedServer) : ThreadEvent → Prop
  | .opens _ succeeds => succeeds = true
  | .write id written =>
    match (s.thread id).top with
    | some (_, .writing _ (bs :: _)) => bs.length ≤ written
    | _ => True
  | _ => True

instance (s : LockedServer) (e : ThreadEvent) : Decidable (s.Ordinary e) := by
  cases e <;> unfold Ordinary <;> dsimp only
  case write =>
    split <;> infer_instance
  all_goals infer_instance

/-- What an event is to the file server: a routine is there where it unlocks. -/
def fileEvent (s : LockedServer) : ThreadEvent → Option FileEvent
  | .accept id junk => some (.accept id junk)
  | .recv id r => some (.recv id r)
  | .hangup id => some (.hangup id)
  | .unlock id junk => (s.thread id).event id junk
  | _ => none

end LockedServer

section Underway

/-- A routine that has come so far since it took the mutex, with the file `before` then and
`now` as it stands. -/
def Underway (r : FileRoutine) (before now : Bytes) : Stage → Prop
  | .waiting => False
  | .opening => now = before
  | .writing opened left => opened = true ∧ left ≠ [] ∧ r.whole before = .ok (now ++ left.flatten, [])
  | .reading opened sent => opened = true ∧ r = .dumpFileToSocket ∧ now = before ∧ sent <+: now
  | .leaving sent => r.whole before = .ok (now, sent)

variable {r : FileRoutine} {before now : Bytes}

lemma opened_underway {stage : Stage} (h : r.opened true = .ok stage) :
    Underway r before before stage := by
  cases r with
  | dumpBufferToFile lengthToDump buffer =>
    obtain ⟨appended, happended, hstage⟩ := bind_eq_ok.mp h
    rw [Except.ok.injEq] at hstage
    rw [dumpBufferToFile] at happended
    split_ifs at happended with hrange
    rw [Except.ok.injEq, List.nil_append] at happended
    rw [← hstage, ← happended]
    refine ⟨rfl, by simp, ?_⟩
    rw [FileRoutine.whole, dumpBufferToFile, if_neg hrange, List.flatten_singleton]
    rfl
  | dumpFileToSocket =>
    rw [FileRoutine.opened, Except.ok.injEq] at h
    rw [← h]
    exact ⟨rfl, rfl, rfl, List.nil_prefix⟩
  | printTimeToFile currTime =>
    rw [FileRoutine.opened, Except.ok.injEq] at h
    rw [← h]
    refine ⟨rfl, by simp [Appender.writes], ?_⟩
    simp [FileRoutine.whole, Aesd.printTimeToFile, Appender.writes]

lemma write_underway {bs : Bytes} {left : List Bytes}
    (h : Underway r before now (.writing true (bs :: left))) :
    Underway r before (now ++ bs) (if left = [] then .leaving [] else .writing true left) := by
  obtain ⟨-, -, hwhole⟩ := h
  rw [List.flatten_cons, ← List.append_assoc] at hwhole
  split_ifs with hleft
  · rw [hleft, List.flatten_nil, List.append_nil] at hwhole
    exact hwhole
  · exact ⟨rfl, hleft, hwhole⟩

/-- Nobody writes to the file meanwhile, so a read that finds nothing has come to its end. -/
lemma read_underway {sent : Bytes} {count : ℕ} (hcount : count ≠ 0)
    (h : Underway r before now (.reading true sent)) :
    Underway r before now
      (if piece now sent count = [] then .leaving sent else .reading true (sent ++ piece now sent count)) := by
  obtain ⟨-, rfl, rfl, hsent⟩ := h
  split_ifs with hend
  · rw [eq_of_piece_nil hsent (Nat.pos_of_ne_zero hcount) hend, Underway, FileRoutine.whole,
      dumpFileToSocket_eq]
    rfl
  · exact ⟨rfl, rfl, rfl, piece_prefix hsent count⟩

end Underway

namespace FileThread

/-- The thread is in no routine, or still waits for the mutex. -/
def Outside (t : FileThread) : Prop :=
  t.stage = .waiting ∧ ∀ p, t.handler = some p → p.2 = .waiting

/-- The thread has taken the mutex, for its own routine or for the handler over it. A handler
that came later waits. -/
inductive Inside (t : FileThread) (before now : Bytes) : Prop
  | worker {r : FileRoutine} (hr : t.routine = some r) (hway : Underway r before now t.stage)
      (hh : ∀ p, t.handler = some p → p.2 = .waiting)
  | handler {currTime : Bytes} {stage : Stage} (hh : t.handler = some (currTime, stage))
      (hway : Underway (.printTimeToFile currTime) before now stage) (hst : t.stage = .waiting)

variable {t : FileThread} {r : FileRoutine} {stage : Stage} {before now : Bytes}

/-- What runs in a thread is its handler, or its own routine with no handler over it. -/
lemma top_cases (h : t.top = some (r, stage)) :
    (∃ currTime, t.handler = some (currTime, stage) ∧ r = .printTimeToFile currTime) ∨
      (t.handler = none ∧ t.routine = some r ∧ t.stage = stage) := by
  unfold top at h
  split at h
  · rename_i currTime st hh
    simp only [Option.some.injEq, Prod.mk.injEq] at h
    exact Or.inl ⟨currTime, by rw [hh, h.2], h.1.symm⟩
  · rename_i hh
    obtain ⟨r', hr', heq⟩ := Option.map_eq_some_iff.mp h
    simp only [Prod.mk.injEq] at heq
    exact Or.inr ⟨hh, by rw [hr', heq.1], heq.2⟩

lemma setStage_handler {currTime : Bytes} (h : t.handler = some (currTime, stage)) (stage' : Stage) :
    t.setStage stage' = { t with handler := some (currTime, stage') } := by
  rw [setStage, h]

lemma setStage_own (h : t.handler = none) (stage' : Stage) :
    t.setStage stage' = { t with stage := stage' } := by
  rw [setStage, h]

@[simp] lemma setStage_conn (t : FileThread) (stage : Stage) : (t.setStage stage).conn = t.conn := by
  unfold setStage
  split <;> rfl

lemma routine_cases (h : t.routine = some r) :
    (∃ w, t.conn = some ⟨w, .dumping⟩ ∧ r = .dumpBufferToFile w.totalBytesReceived w.buffer) ∨
      ∃ w, t.conn = some ⟨w, .replying⟩ ∧ r = .dumpFileToSocket := by
  unfold routine at h
  split at h
  · rename_i w hc
    exact Or.inl ⟨w, hc, (Option.some.inj h).symm⟩
  · rename_i w hc
    exact Or.inr ⟨w, hc, (Option.some.inj h).symm⟩
  · simp at h

lemma Outside.top_waiting (h : t.Outside) (htop : t.top = some (r, stage)) : stage = .waiting := by
  rcases top_cases htop with ⟨currTime, hh, -⟩ | ⟨-, -, hst⟩
  · exact h.2 _ hh
  · exact hst.symm.trans h.1

lemma Outside.alarm (h : t.Outside) (currTime : Bytes) :
    FileThread.Outside { t with handler := some (currTime, .waiting) } := by
  refine ⟨h.1, ?_⟩
  rintro p ⟨⟩
  rfl

/-- A thread outside that takes the mutex is inside, at its `open`. -/
lemma Outside.enter (h : t.Outside) (htop : t.top = some (r, stage)) :
    (t.setStage .opening).Inside before before := by
  rcases top_cases htop with ⟨currTime, hh, rfl⟩ | ⟨hh, hr, -⟩
  · rw [setStage_handler hh]
    exact .handler rfl rfl h.1
  · rw [setStage_own hh]
    exact .worker hr rfl (by simp [hh])

lemma Inside.alarm (h : t.Inside before now) (hh : t.handler = none) (currTime : Bytes) :
    FileThread.Inside { t with handler := some (currTime, .waiting) } before now := by
  cases h with
  | worker hr hway =>
    refine .worker hr hway ?_
    rintro p ⟨⟩
    rfl
  | handler hh' => simp [hh] at hh'

/-- The routine that runs inside is the one that has the mutex. -/
lemma Inside.underway (h : t.Inside before now) (htop : t.top = some (r, stage))
    (hne : stage ≠ .waiting) : Underway r before now stage := by
  cases h with
  | worker hr hway hh =>
    rcases top_cases htop with ⟨currTime, hh', -⟩ | ⟨-, hr', hst⟩
    · exact absurd (hh _ hh') hne
    · rw [hr, Option.some.injEq] at hr'
      rw [← hr', ← hst]
      exact hway
  | handler hh hway hst =>
    rcases top_cases htop with ⟨currTime, hh', rfl⟩ | ⟨hh', -, -⟩
    · rw [hh, Option.some.injEq, Prod.mk.injEq] at hh'
      rw [← hh'.1, ← hh'.2]
      exact hway
    · simp [hh] at hh'

lemma Inside.goes_on (h : t.Inside before now) (htop : t.top = some (r, stage))
    (hne : stage ≠ .waiting) {stage' : Stage} {now' : Bytes} (hway : Underway r before now' stage') :
    (t.setStage stage').Inside before now' := by
  rcases top_cases htop with ⟨currTime, hh, rfl⟩ | ⟨hh, hr, hst⟩
  · have hwait : t.stage = .waiting := by
      cases h with
      | worker _ _ hlate => exact absurd (hlate _ hh) hne
      | handler _ _ hwait => exact hwait
    rw [setStage_handler hh]
    exact .handler rfl hway hwait
  · rw [setStage_own hh]
    exact .worker hr hway (by simp [hh])

lemma Inside.ends_outside (h : t.Inside before now) (htop : t.top = some (r, stage))
    (hne : stage ≠ .waiting) (junk : ℕ → UInt8) : (t.ends junk).Outside := by
  rcases top_cases htop with ⟨currTime, hh, -⟩ | ⟨hh, hr, -⟩
  · cases h with
    | worker _ _ hlate => exact absurd (hlate _ hh) hne
    | handler _ _ hwait =>
      simp only [ends, hh]
      exact ⟨hwait, by simp⟩
  · rcases routine_cases hr with ⟨w, hc, -⟩ | ⟨w, hc, -⟩
    · simp only [ends, hh, hc]
      exact ⟨rfl, by simp⟩
    · simp only [ends, hh, hc]
      exact ⟨rfl, by simp⟩

/-- Where a routine unlocks, the file server takes it as one event. -/
lemma ends_step {u : FileServer} {id : ℕ} {sent : Bytes} (htop : t.top = some (r, stage))
    (hconn : u.conn id = t.conn) (hwhole : r.whole u.file = .ok (now, sent)) (junk : ℕ → UInt8) :
    ∃ e u', t.event id junk = some e ∧ u.step e = .ok (u', r.reply id sent) ∧ u'.file = now ∧
      u'.conn = Function.update u.conn id (t.ends junk).conn := by
  rcases top_cases htop with ⟨currTime, hh, rfl⟩ | ⟨hh, hr, -⟩
  · simp only [FileRoutine.whole, Except.ok.injEq, Prod.mk.injEq] at hwhole
    refine ⟨.timestamp currTime, { u with file := now }, by simp only [event, hh], ?_, rfl, ?_⟩
    · rw [← hwhole.1]
      rfl
    · simp only [ends, hh]
      rw [← hconn, Function.update_eq_self]
  · rcases routine_cases hr with ⟨w, hc, rfl⟩ | ⟨w, hc, rfl⟩
    · obtain ⟨file, hfile, heq⟩ := bind_eq_ok.mp hwhole
      simp only [Except.ok.injEq, Prod.mk.injEq] at heq
      refine ⟨.dump id, { u with file := now }.setConn id ⟨w, .replying⟩, by simp only [event, hh, hc],
        ?_, rfl, ?_⟩
      · rw [FileServer.step, hconn, hc]
        dsimp only
        rw [hfile, ← heq.1]
        rfl
      · simp only [ends, hh, hc]
        rfl
    · obtain ⟨out, hout, heq⟩ := bind_eq_ok.mp hwhole
      simp only [Except.ok.injEq, Prod.mk.injEq] at heq
      refine ⟨.reply id junk, u.setConn id ⟨w.reset junk, .receiving⟩, by simp only [event, hh, hc],
        ?_, heq.1, ?_⟩
      · rw [FileServer.step, hconn, hc]
        dsimp only
        rw [hout, heq.2]
        rfl
      · simp only [ends, hh, hc]
        rfl

end FileThread

/-- The server and the file server that takes the dumps whole: the connections are the same,
and so is the file, but for what the thread inside has done to it. -/
structure Tracks (s : LockedServer) (u : FileServer) : Prop where
  conn : ∀ id, (s.thread id).conn = u.conn id
  free : s.owner = none → s.file = u.file ∧ ∀ id, (s.thread id).Outside
  held : ∀ id, s.owner = some id →
    (s.thread id).Inside u.file s.file ∧ ∀ other, other ≠ id → (s.thread other).Outside

namespace LockedServer

section Inversion

variable {s t : LockedServer} {id : ℕ} {o : Option (ℕ × Bytes)}

lemma step_accept {junk : ℕ → UInt8} (h : s.step (.accept id junk) = .ok (t, o)) :
    (∃ stage, s.thread id = ⟨none, stage, none⟩) ∧
      t = s.setThread id ⟨some ⟨.start junk, .receiving⟩, .waiting, none⟩ ∧ o = none := by
  simp only [step] at h
  split at h
  · rename_i stage hid
    simp only [Except.ok.injEq, Prod.mk.injEq] at h
    exact ⟨⟨stage, hid⟩, h.1.symm, h.2.symm⟩
  · simp at h

lemma step_recv {r : Received} (h : s.step (.recv id r) = .ok (t, o)) :
    ∃ w stage v found, s.thread id = ⟨some ⟨w, .receiving⟩, stage, none⟩ ∧
      w.receive r = .ok (v, found) ∧
      t = s.setThread id ⟨some ⟨v, if found then .dumping else .receiving⟩, .waiting, none⟩ ∧
      o = none := by
  simp only [step] at h
  split at h
  · rename_i w stage hid
    obtain ⟨⟨v, found⟩, hr, h⟩ := bind_eq_ok.mp h
    simp only [Except.ok.injEq, Prod.mk.injEq] at h
    exact ⟨w, stage, v, found, hid, hr, h.1.symm, h.2.symm⟩
  · simp at h

lemma step_hangup (h : s.step (.hangup id) = .ok (t, o)) :
    ∃ w stage, s.thread id = ⟨some ⟨w, .receiving⟩, stage, none⟩ ∧
      t = s.setThread id ⟨some ⟨w, .closed⟩, .waiting, none⟩ ∧ o = none := by
  simp only [step] at h
  split at h
  · rename_i w stage hid
    simp only [Except.ok.injEq, Prod.mk.injEq] at h
    exact ⟨w, stage, hid, h.1.symm, h.2.symm⟩
  · simp at h

lemma step_alarm {currTime : Bytes} (h : s.step (.alarm id currTime) = .ok (t, o)) :
    (s.thread id).handler = none ∧
      t = s.setThread id { s.thread id with handler := some (currTime, .waiting) } ∧ o = none := by
  simp only [step] at h
  split at h
  · rename_i c stage hid
    simp only [Except.ok.injEq, Prod.mk.injEq] at h
    rw [hid]
    exact ⟨rfl, h.1.symm, h.2.symm⟩
  · simp at h

lemma step_lock (h : s.step (.lock id) = .ok (t, o)) :
    ∃ r, (s.thread id).top = some (r, .waiting) ∧ s.owner = none ∧
      t = { s with owner := some id }.setThread id ((s.thread id).setStage .opening) ∧ o = none := by
  simp only [step] at h
  split at h
  · rename_i r htop howner
    simp only [Except.ok.injEq, Prod.mk.injEq] at h
    exact ⟨r, htop, howner, h.1.symm, h.2.symm⟩
  · simp at h

lemma step_opens {succeeds : Bool} (h : s.step (.opens id succeeds) = .ok (t, o)) :
    ∃ r stage, (s.thread id).top = some (r, .opening) ∧ r.opened succeeds = .ok stage ∧
      t = { s with owner := if !succeeds && r.unlocksEarly then none else s.owner }.setThread id
        ((s.thread id).setStage stage) ∧ o = none := by
  simp only [step] at h
  split at h
  · rename_i r htop
    obtain ⟨stage, hstage, h⟩ := bind_eq_ok.mp h
    simp only [Except.ok.injEq, Prod.mk.injEq] at h
    exact ⟨r, stage, htop, hstage, h.1.symm, h.2.symm⟩
  · simp at h

lemma step_write {written : ℕ} (h : s.step (.write id written) = .ok (t, o)) :
    ∃ r opened bs left, (s.thread id).top = some (r, .writing opened (bs :: left)) ∧
      t = { s with file := if opened then s.file ++ bs.take written else s.file }.setThread id
        ((s.thread id).setStage (if left = [] then .leaving [] else .writing opened left)) ∧
      o = none := by
  simp only [step] at h
  split at h
  · rename_i r opened bs left htop
    simp only [Except.ok.injEq, Prod.mk.injEq] at h
    exact ⟨r, opened, bs, left, htop, h.1.symm, h.2.symm⟩
  · simp at h

lemma step_read {count : ℕ} (h : s.step (.read id count) = .ok (t, o)) :
    ∃ r opened sent, (s.thread id).top = some (r, .reading opened sent) ∧ count ≠ 0 ∧
      t = s.setThread id ((s.thread id).setStage
        (if (if opened then piece s.file sent count else []) = [] then .leaving sent
          else .reading opened (sent ++ if opened then piece s.file sent count else []))) ∧
      o = none := by
  simp only [step] at h
  split at h
  · rename_i r opened sent htop
    split at h
    · simp at h
    · rename_i hcount
      simp only [Except.ok.injEq, Prod.mk.injEq] at h
      exact ⟨r, opened, sent, htop, fun hzero => hcount (Or.inl hzero), h.1.symm, h.2.symm⟩
  · simp at h

lemma step_unlock {junk : ℕ → UInt8} (h : s.step (.unlock id junk) = .ok (t, o)) :
    ∃ r sent, (s.thread id).top = some (r, .leaving sent) ∧
      t = { s with owner := none }.setThread id ((s.thread id).ends junk) ∧ o = r.reply id sent := by
  simp only [step] at h
  split at h
  · rename_i r sent htop
    simp only [Except.ok.injEq, Prod.mk.injEq] at h
    exact ⟨r, sent, htop, h.1.symm, h.2.symm⟩
  · simp at h

end Inversion

end LockedServer

namespace Tracks

variable {s : LockedServer} {u : FileServer} {id : ℕ} {r : FileRoutine} {stage : Stage}

/-- A routine past its lock has the mutex. -/
lemma owns (h : Tracks s u) (htop : (s.thread id).top = some (r, stage)) (hne : stage ≠ .waiting) :
    s.owner = some id := by
  cases howner : s.owner with
  | none => exact absurd (((h.free howner).2 id).top_waiting htop) hne
  | some holder =>
    by_contra hother
    have hout := (h.held holder howner).2 id fun heq => hother (by rw [heq])
    exact hne (hout.top_waiting htop)

lemma outside_update {thread : ℕ → FileThread} {t : FileThread} {other : ℕ}
    (h : (thread other).Outside) (ht : t.Outside) : (Function.update thread id t other).Outside := by
  rw [Function.update_apply]
  split_ifs
  · exact ht
  · exact h

lemma conn_update (h : Tracks s u) (t : FileThread) (i : ℕ) :
    (Function.update s.thread id t i).conn = Function.update u.conn id t.conn i := by
  rw [Function.update_apply, Function.update_apply]
  split_ifs
  · rfl
  · exact h.conn i

lemma conn_same (h : Tracks s u) {t : FileThread} (ht : t.conn = (s.thread id).conn) (i : ℕ) :
    (Function.update s.thread id t i).conn = u.conn i := by
  rw [h.conn_update, ht, h.conn id, Function.update_eq_self]

/-- A thread that has nothing to do with the file goes on by itself. -/
lemma quiet (h : Tracks s u) (hr : (s.thread id).routine = none) (hh : (s.thread id).handler = none)
    (c : Connection) : Tracks (s.setThread id ⟨some c, .waiting, none⟩) (u.setConn id c) := by
  have ht : FileThread.Outside ⟨some c, .waiting, none⟩ := ⟨rfl, by simp⟩
  refine ⟨h.conn_update _, fun howner => ?_, fun holder howner => ?_⟩
  · obtain ⟨hsame, hout⟩ := h.free howner
    exact ⟨hsame, fun i => outside_update (hout i) ht⟩
  · obtain ⟨hin, hout⟩ := h.held holder howner
    have hne : holder ≠ id := by
      rintro rfl
      cases hin with
      | worker hr' => simp [hr] at hr'
      | handler hh' => simp [hh] at hh'
    refine ⟨?_, fun other hother => outside_update (hout other hother) ht⟩
    change (Function.update s.thread id _ holder).Inside u.file s.file
    rw [Function.update_of_ne hne]
    exact hin

/-- The handler begins outside, over whatever its thread is doing. -/
lemma alarm (h : Tracks s u) (hh : (s.thread id).handler = none) (currTime : Bytes) :
    Tracks (s.setThread id { s.thread id with handler := some (currTime, .waiting) }) u := by
  refine ⟨h.conn_same rfl, fun howner => ?_, fun holder howner => ?_⟩
  · obtain ⟨hsame, hout⟩ := h.free howner
    exact ⟨hsame, fun i => outside_update (hout i) ((hout id).alarm currTime)⟩
  · obtain ⟨hin, hout⟩ := h.held holder howner
    change (Function.update s.thread id _ holder).Inside u.file s.file ∧
      ∀ other, other ≠ holder → (Function.update s.thread id _ other).Outside
    by_cases hid : holder = id
    · rw [← hid] at hh ⊢
      rw [Function.update_self]
      refine ⟨hin.alarm hh currTime, fun other hother => ?_⟩
      rw [Function.update_of_ne hother]
      exact hout other hother
    · rw [Function.update_of_ne hid]
      exact ⟨hin, fun other hother => outside_update (hout other hother)
        ((hout id (Ne.symm hid)).alarm currTime)⟩

/-- The thread inside goes on, or has just come in. -/
lemma work (h : Tracks s u) {file : Bytes} {t : FileThread} (hin : t.Inside u.file file)
    (hconn : t.conn = (s.thread id).conn) (hout : ∀ other, other ≠ id → (s.thread other).Outside) :
    Tracks ({ s with file := file, owner := some id }.setThread id t) u := by
  refine ⟨h.conn_same hconn, fun howner => by simp [LockedServer.setThread] at howner,
    fun holder howner => ?_⟩
  obtain rfl : id = holder := Option.some.inj howner
  change (Function.update s.thread id t id).Inside u.file file ∧
    ∀ other, other ≠ id → (Function.update s.thread id t other).Outside
  refine ⟨?_, fun other hother => ?_⟩
  · rw [Function.update_self]
    exact hin
  · rw [Function.update_of_ne hother]
    exact hout other hother

/-- A routine that runs inside goes on to another stage. -/
lemma goes_on (h : Tracks s u) (htop : (s.thread id).top = some (r, stage)) (hne : stage ≠ .waiting)
    {file : Bytes} {stage' : Stage}
    (hway : Underway r u.file s.file stage → Underway r u.file file stage') :
    Tracks ({ s with file := file }.setThread id ((s.thread id).setStage stage')) u := by
  have howner := h.owns htop hne
  obtain ⟨hin, hout⟩ := h.held id howner
  have hwork := h.work (hin.goes_on htop hne (hway (hin.underway htop hne)))
    (FileThread.setStage_conn ..) hout
  rw [← howner] at hwork
  exact hwork

/-- A routine that unlocks is one event of the file server. -/
lemma unlock (h : Tracks s u) {sent : Bytes} (htop : (s.thread id).top = some (r, .leaving sent))
    (junk : ℕ → UInt8) :
    ∃ e v, (s.thread id).event id junk = some e ∧ u.step e = .ok (v, r.reply id sent) ∧
      Tracks ({ s with owner := none }.setThread id ((s.thread id).ends junk)) v := by
  have hne : Stage.leaving sent ≠ .waiting := by simp
  obtain ⟨hin, hout⟩ := h.held id (h.owns htop hne)
  obtain ⟨e, v, he, hstep, hfile, hconn⟩ :=
    FileThread.ends_step htop (h.conn id).symm (hin.underway htop hne) junk
  refine ⟨e, v, he, hstep, fun i => ?_, fun _ => ⟨hfile.symm, fun i => ?_⟩,
    fun _ howner => by simp [LockedServer.setThread] at howner⟩
  · rw [hconn]
    exact h.conn_update _ i
  · change (Function.update s.thread id _ i).Outside
    by_cases hi : i = id
    · rw [hi, Function.update_self]
      exact hin.ends_outside htop hne junk
    · rw [Function.update_of_ne hi]
      exact hout i hi

end Tracks

/-- Every event is an event of the file server, or one that it does not see. -/
lemma step_tracks {s t : LockedServer} {u : FileServer} {e : ThreadEvent} {o : Option (ℕ × Bytes)}
    (h : Tracks s u) (hord : s.Ordinary e) (hstep : s.step e = .ok (t, o)) :
    (s.fileEvent e = none ∧ Tracks t u ∧ o = none) ∨
      ∃ k v, s.fileEvent e = some k ∧ u.step k = .ok (v, o) ∧ Tracks t v := by
  cases e with
  | accept id junk =>
    obtain ⟨⟨stage, hid⟩, rfl, rfl⟩ := LockedServer.step_accept hstep
    have hconn := h.conn id
    rw [hid] at hconn
    refine Or.inr ⟨.accept id junk, _, rfl, ?_,
      h.quiet (by simp [hid, FileThread.routine]) (by rw [hid]) _⟩
    rw [FileServer.step, ← hconn]
  | recv id r =>
    obtain ⟨w, stage, v, found, hid, hr, rfl, rfl⟩ := LockedServer.step_recv hstep
    have hconn := h.conn id
    rw [hid] at hconn
    refine Or.inr ⟨.recv id r, _, rfl, ?_,
      h.quiet (by simp [hid, FileThread.routine]) (by rw [hid]) _⟩
    rw [FileServer.step, ← hconn]
    dsimp only
    rw [hr]
    rfl
  | hangup id =>
    obtain ⟨w, stage, hid, rfl, rfl⟩ := LockedServer.step_hangup hstep
    have hconn := h.conn id
    rw [hid] at hconn
    refine Or.inr ⟨.hangup id, _, rfl, ?_,
      h.quiet (by simp [hid, FileThread.routine]) (by rw [hid]) _⟩
    rw [FileServer.step, ← hconn]
  | alarm id currTime =>
    obtain ⟨hh, rfl, rfl⟩ := LockedServer.step_alarm hstep
    exact Or.inl ⟨rfl, h.alarm hh currTime, rfl⟩
  | lock id =>
    obtain ⟨r, htop, howner, rfl, rfl⟩ := LockedServer.step_lock hstep
    obtain ⟨hsame, hout⟩ := h.free howner
    refine Or.inl ⟨rfl, h.work ?_ (FileThread.setStage_conn ..) fun i _ => hout i, rfl⟩
    rw [hsame]
    exact (hout id).enter htop
  | opens id succeeds =>
    obtain ⟨r, stage, htop, hopened, rfl, rfl⟩ := LockedServer.step_opens hstep
    obtain rfl : succeeds = true := hord
    refine Or.inl ⟨rfl, h.goes_on htop (by simp) fun hway => ?_, rfl⟩
    rw [show s.file = u.file from hway]
    exact opened_underway hopened
  | write id written =>
    obtain ⟨r, opened, bs, left, htop, rfl, rfl⟩ := LockedServer.step_write hstep
    have hfull : bs.length ≤ written := by simpa [LockedServer.Ordinary, htop] using hord
    refine Or.inl ⟨rfl, h.goes_on htop (by simp) fun hway => ?_, rfl⟩
    obtain rfl : opened = true := hway.1
    rw [if_pos rfl, List.take_of_length_le hfull]
    exact write_underway hway
  | read id count =>
    obtain ⟨r, opened, sent, htop, hcount, rfl, rfl⟩ := LockedServer.step_read hstep
    refine Or.inl ⟨rfl, h.goes_on htop (by simp) fun hway => ?_, rfl⟩
    obtain rfl : opened = true := hway.1
    rw [if_pos rfl]
    exact read_underway hcount hway
  | unlock id junk =>
    obtain ⟨r, sent, htop, rfl, rfl⟩ := LockedServer.step_unlock hstep
    obtain ⟨k, v, hk, hv, htracks⟩ := h.unlock htop junk
    exact Or.inr ⟨k, v, hk, hv, htracks⟩

lemma start_tracks : Tracks .start .start :=
  ⟨fun _ => rfl, fun _ => ⟨rfl, fun _ => ⟨rfl, by simp [LockedServer.start]⟩⟩,
    by simp [LockedServer.start]⟩

def ThreadEvent.chunk (id : ℕ) : ThreadEvent → Option Bytes
  | .recv i r => if i = id then some r.bytes else none
  | _ => none

/-- What is received is received by the file server. -/
lemma chunk_tracked (id : ℕ) (s : LockedServer) (e : ThreadEvent) :
    ((s.fileEvent e).bind fun f =>
      match f with
      | .recv i r => if i = id then some r.bytes else none
      | _ => none) = e.chunk id := by
  cases e with
  | unlock i junk =>
    simp only [LockedServer.fileEvent, FileThread.event, ThreadEvent.chunk]
    split <;> rfl
  | _ => rfl

/-- A run is one of the file server, with the same chunks and replies. -/
lemma run_tracks {events : List ThreadEvent} {t : LockedServer} {outs : List (Option (ℕ × Bytes))}
    (hord : Guarded LockedServer.step LockedServer.Ordinary .start events)
    (h : LockedServer.run events = .ok (t, outs)) :
    ∃ fileEvents u fileOuts, FileServer.start.run fileEvents = .ok (u, fileOuts) ∧ Tracks t u ∧
      fileOuts.reduceOption = outs.reduceOption ∧
      ∀ id, chunksOf id fileEvents = events.filterMap (ThreadEvent.chunk id) := by
  obtain ⟨u, fileOuts, hrun, htracks, houts⟩ := run_simulates Tracks LockedServer.Ordinary
    LockedServer.fileEvent
    (fun s u e t o hR hg hnone hstep => by
      rcases step_tracks hR hg hstep with ⟨-, htracks, ho⟩ | ⟨k, v, hk, -⟩
      · exact ⟨htracks, ho⟩
      · simp [hnone] at hk)
    (fun s u e t o k hR hg hsome hstep => by
      rcases step_tracks hR hg hstep with ⟨hnone, -⟩ | ⟨k', v, hk, hv, htracks⟩
      · simp [hsome] at hnone
      · obtain rfl : k = k' := Option.some.inj (hsome.symm.trans hk)
        exact ⟨v, hv, htracks⟩)
    start_tracks hord h
  exact ⟨_, u, fileOuts, hrun, htracks, houts, fun id => handed_filterMap (chunk_tracked id) h⟩

/-- Under `file_mutex` a dump is one event. In every interleaving of the system calls of any
number of workers and of timer handlers over them, with every `open` successful and every
`write` complete, the connections, their chunks and their replies are those of a run of the
file server, and so is the file, but for what the one thread that has the mutex has done. -/
theorem dumps_atomic (events : List ThreadEvent) (t : LockedServer)
    (outs : List (Option (ℕ × Bytes))) (hord : Guarded LockedServer.step LockedServer.Ordinary .start events)
    (h : LockedServer.run events = .ok (t, outs)) :
    ∃ fileEvents u fileOuts, FileServer.start.run fileEvents = .ok (u, fileOuts) ∧
      fileOuts.reduceOption = outs.reduceOption ∧
      (∀ id, chunksOf id fileEvents = events.filterMap (ThreadEvent.chunk id)) ∧
      (∀ id, (t.thread id).conn = u.conn id) ∧ (t.owner = none → t.file = u.file) ∧
      ∀ id, t.owner = some id → (t.thread id).Inside u.file t.file ∧
        ∀ other, other ≠ id → (t.thread other).Outside := by
  obtain ⟨fileEvents, u, fileOuts, hrun, htracks, houts, hchunks⟩ := run_tracks hord h
  exact ⟨fileEvents, u, fileOuts, hrun, houts, hchunks, htracks.conn,
    fun howner => (htracks.free howner).1, htracks.held⟩

/-- Two workers append while the timer comes to the second. -/
def timerBetween : List ThreadEvent :=
  [.accept 1 0, .accept 2 0, .recv 1 ⟨[97, 10], 0⟩, .recv 2 ⟨[98, 10], 0⟩, .lock 1, .opens 1 true,
    .alarm 2 [48], .write 1 2, .unlock 1 0, .lock 2, .opens 2 true, .write 2 11, .write 2 1, .unlock 2 0,
    .lock 2, .opens 2 true, .write 2 2, .unlock 2 0, .lock 1, .opens 1 true, .read 1 3, .read 1 100,
    .read 1 100, .unlock 1 0, .lock 2]

theorem dumps_atomic_timer_between :
    ∃ t outs, LockedServer.run timerBetween = .ok (t, outs) ∧
      outs.reduceOption = [(1, [97, 10] ++ timestampLine [48] ++ [98, 10])] ∧
      ∃ fileEvents u fileOuts, FileServer.start.run fileEvents = .ok (u, fileOuts) ∧
        fileOuts.reduceOption = outs.reduceOption ∧
        (∀ id, chunksOf id fileEvents = timerBetween.filterMap (ThreadEvent.chunk id)) ∧
        (∀ id, (t.thread id).conn = u.conn id) ∧ (t.owner = none → t.file = u.file) ∧
        ∀ id, t.owner = some id → (t.thread id).Inside u.file t.file ∧
          ∀ other, other ≠ id → (t.thread other).Outside := by
  have hrun : (LockedServer.run timerBetween).toOption.map (fun p => p.2.reduceOption) =
      some [(1, [97, 10] ++ timestampLine [48] ++ [98, 10])] := by decide +kernel
  cases h : LockedServer.run timerBetween with
  | error e => simp [h, Except.toOption] at hrun
  | ok p =>
    have houts : p.2.reduceOption = [(1, [97, 10] ++ timestampLine [48] ++ [98, 10])] := by
      simpa [h, Except.toOption] using hrun
    exact ⟨p.1, p.2, rfl, houts, dumps_atomic timerBetween p.1 p.2 (by decide +kernel) h⟩

end Aesd
