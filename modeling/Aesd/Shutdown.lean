import Aesd.FileStream

/-! How the threads of the server in file mode come to an end, from aesdsocket.c. The main
thread takes SIGINT or SIGTERM where it waits in `accept`, and joins the workers in the
handler; a worker looks at `should_quit` each time it is about to receive. Behind the handler
`accept` fails and the process exits. The descriptors that all of them open and close are left
to the process around them. -/
namespace Aesd
open Cut FileServer Machine

/-- The main thread waits in `accept`, or is in `cleanup` with some workers still to be
joined, or has ended the process. -/
inductive MainThread
  | accepting
  | joining (waiting : List ℕ)
  | exited
  deriving DecidableEq

/-- `nodes` is the list of the connections, and `inRecv` tells of a worker in its loop whether
it has found `should_quit` unset and waits for its peer. -/
structure ServerThreads where
  server : FileServer
  nodes : List ℕ
  inRecv : ℕ → Bool
  shouldQuit : Bool
  main : MainThread

inductive ServerEvent
  | accept (id : ℕ) (junk : ℕ → UInt8)
  | sigint
  | join
  | exit
  | test (id : ℕ)
  | recv (id : ℕ) (received : Received)
  | hangup (id : ℕ)
  | dump (id : ℕ)
  | reply (id : ℕ) (junk : ℕ → UInt8)
  | timestamp (currTime : Bytes)

namespace ServerThreads

def start : ServerThreads := ⟨.start, [], fun _ => false, false, .accepting⟩

/-- What the event does to the file and to the connections. -/
def serve (s : ServerThreads) (e : FileEvent) :
    Except Stop (ServerThreads × Option (ℕ × Bytes)) := do
  let p ← s.server.step e
  .ok ({ s with server := p.1 }, p.2)

def setInRecv (s : ServerThreads) (id : ℕ) (b : Bool) : ServerThreads :=
  { s with inRecv := Function.update s.inRecv id b }

/-- An event of threads that have not exited. -/
def act (s : ServerThreads) : ServerEvent → Except Stop (ServerThreads × Option (ℕ × Bytes))
  | .accept id junk =>
    -- with `should_quit` set the process would exit instead
    if s.main = .accepting ∧ s.shouldQuit = false then
      { s with nodes := s.nodes ++ [id] }.serve (.accept id junk)
    else .error .blocked
  | .sigint =>
    if s.main = .accepting then
      .ok ({ s with shouldQuit := true, main := .joining s.nodes }, none)
    else .error .blocked
  | .join =>
    match s.main with
    | .joining (id :: waiting) =>
      if s.server.phase id = some .closed then .ok ({ s with main := .joining waiting }, none)
      else .error .blocked
    | _ => .error .blocked
  | .exit => if s.main = .joining [] then .ok ({ s with main := .exited }, none) else .error .blocked
  | .test id =>
    if s.server.phase id = some .receiving ∧ s.inRecv id = false then
      if s.shouldQuit then s.serve (.hangup id) else .ok (s.setInRecv id true, none)
    else .error .blocked
  | .recv id r => if s.inRecv id then (s.setInRecv id false).serve (.recv id r) else .error .blocked
  | .hangup id => if s.inRecv id then (s.setInRecv id false).serve (.hangup id) else .error .blocked
  | .dump id => s.serve (.dump id)
  | .reply id junk => s.serve (.reply id junk)
  | .timestamp currTime => s.serve (.timestamp currTime)

def step (s : ServerThreads) (e : ServerEvent) :
    Except Stop (ServerThreads × Option (ℕ × Bytes)) :=
  if s.main = .exited then .error .blocked else s.act e

abbrev run (events : List ServerEvent) :
    Except Stop (ServerThreads × List (Option (ℕ × Bytes))) :=
  Machine.run step start events

/-- What an event is to the file server. -/
def fileEvent (s : ServerThreads) : ServerEvent → Option FileEvent
  | .accept id junk => some (.accept id junk)
  | .test id => if s.shouldQuit then some (.hangup id) else none
  | .recv id r => some (.recv id r)
  | .hangup id => some (.hangup id)
  | .dump id => some (.dump id)
  | .reply id junk => some (.reply id junk)
  | .timestamp currTime => some (.timestamp currTime)
  | _ => none

end ServerThreads

namespace ServerEvent

def chunk (id : ℕ) : ServerEvent → Option Bytes
  | .recv i r => if i = id then some r.bytes else none
  | _ => none

/-- What an event takes off the load of its worker: an append and a read-out count twice, for
the file is opened before either. -/
def cost : ServerEvent → ℕ
  | .timestamp _ => 0
  | .dump _ => 2
  | .reply _ _ => 2
  | _ => 1

end ServerEvent

open ServerThreads

section Phases

variable {s t : FileServer} {id : ℕ} {o : Option (ℕ × Bytes)}

lemma phase_of_conn {c : Connection} (h : s.conn id = some c) : s.phase id = some c.phase := by
  simp [FileServer.phase, h]

end Phases

/-- What a worker has left to do behind a set `should_quit` at most: a receive, the append and
the reply that may follow it, and the test that ends the loop. -/
def load : Option Phase → Bool → ℕ
  | some .receiving, true => 6
  | some .dumping, _ => 5
  | some .replying, _ => 3
  | some .receiving, false => 1
  | _, _ => 0

def MainThread.waiting : MainThread → List ℕ
  | .joining waiting => waiting
  | _ => []

def MainThread.left : MainThread → ℕ
  | .joining waiting => waiting.length + 1
  | _ => 0

namespace ServerThreads

def loadOf (s : ServerThreads) (id : ℕ) : ℕ := load (s.server.phase id) (s.inRecv id)

def work (s : ServerThreads) : ℕ := (s.nodes.map s.loadOf).sum + s.main.left

/-- What holds between any two events: the connections are those in the list, a worker waits
for its peer only where it may receive, `should_quit` is set from the signal on, and whoever
need not be joined any more has left its loop. -/
structure Accounted (s : ServerThreads) : Prop where
  listed : ∀ id, id ∈ s.nodes ↔ s.server.phase id ≠ none
  waits : ∀ id, s.inRecv id = true → s.server.phase id = some .receiving
  quits : s.shouldQuit = true ↔ s.main ≠ .accepting
  pending : ∀ id ∈ s.main.waiting, id ∈ s.nodes
  joined : s.main ≠ .accepting → ∀ id ∈ s.nodes,
    id ∈ s.main.waiting ∨ s.server.phase id = some .closed

/-- An event `e` of the worker `id`, which it finds in its loop. -/
structure Turn (s : ServerThreads) (e : ServerEvent) (t : ServerThreads) (id : ℕ) : Prop where
  nodes : t.nodes = s.nodes
  shouldQuit : t.shouldQuit = s.shouldQuit
  main : t.main = s.main
  phase : ∃ p, t.server.phase = Function.update s.server.phase id (some p)
  others : ∀ i ≠ id, t.inRecv i = s.inRecv i
  inLoop : s.server.phase id ≠ none ∧ s.server.phase id ≠ some .closed
  waits : t.inRecv id = true → t.server.phase id = some .receiving
  less : s.shouldQuit = true → t.loadOf id + e.cost ≤ s.loadOf id
  chunks : s.shouldQuit = true → ∀ i,
    (t.inRecv i).toNat + (if (e.chunk i).isSome then 1 else 0) ≤ (s.inRecv i).toNat

lemma serve_ok {s t : ServerThreads} {e : FileEvent} {o : Option (ℕ × Bytes)}
    (h : s.serve e = .ok (t, o)) :
    ∃ server, s.server.step e = .ok (server, o) ∧ t = { s with server := server } := by
  obtain ⟨⟨server, o'⟩, hstep, hp⟩ := bind_eq_ok.mp h
  rw [Except.ok.injEq, Prod.mk.injEq] at hp
  exact ⟨server, hp.2 ▸ hstep, hp.1.symm⟩

variable {s t : ServerThreads} {e : ServerEvent} {o : Option (ℕ × Bytes)}

lemma step_ok (h : s.step e = .ok (t, o)) : s.main ≠ .exited ∧ s.act e = .ok (t, o) := by
  rw [step] at h
  split_ifs at h with hmain
  exact ⟨hmain, h⟩

lemma step_sigint (h : s.step .sigint = .ok (t, o)) :
    s.main = .accepting ∧ t = { s with shouldQuit := true, main := .joining s.nodes } := by
  obtain ⟨-, h⟩ := step_ok h
  simp only [act] at h
  split_ifs at h with hmain
  rw [Except.ok.injEq, Prod.mk.injEq] at h
  exact ⟨hmain, h.1.symm⟩

/-- A worker that waited for its peer stops waiting. -/
lemma Turn.answered {id : ℕ} {server : FileServer} {q : Phase} (hin : s.inRecv id = true)
    (hbefore : s.server.phase id = some .receiving)
    (hafter : server.phase = Function.update s.server.phase id (some q))
    (hless : load (some q) false + e.cost ≤ 6) (hchunk : ∀ i ≠ id, e.chunk i = none) :
    Turn s e { s.setInRecv id false with server := server } id := by
  refine ⟨rfl, rfl, rfl, ⟨q, hafter⟩, fun i hi => Function.update_of_ne hi _ _, ?_, ?_,
    fun _ => ?_, fun _ i => ?_⟩
  · rw [hbefore]
    exact ⟨by simp, by simp⟩
  · simp [setInRecv]
  · simpa [loadOf, hafter, hbefore, hin, setInRecv, load] using hless
  · rcases eq_or_ne i id with rfl | hne
    · simp only [setInRecv, Function.update_self, hin]
      split_ifs <;> decide
    · simp [setInRecv, hne, hchunk i hne]

lemma step_join (h : s.step .join = .ok (t, o)) :
    ∃ id waiting, s.main = .joining (id :: waiting) ∧ s.server.phase id = some .closed ∧
      t = { s with main := .joining waiting } := by
  obtain ⟨-, h⟩ := step_ok h
  simp only [act] at h
  split at h
  · rename_i id waiting hmain
    split_ifs at h with hclosed
    rw [Except.ok.injEq, Prod.mk.injEq] at h
    exact ⟨id, waiting, hmain, hclosed, h.1.symm⟩
  · simp at h

lemma sum_add_le {l : List ℕ} {f g : ℕ → ℕ} {id c : ℕ} (hmem : id ∈ l) (hle : ∀ i, f i ≤ g i)
    (hid : f id + c ≤ g id) : (l.map f).sum + c ≤ (l.map g).sum := by
  obtain ⟨l₁, l₂, rfl⟩ := List.append_of_mem hmem
  have hbefore : (l₁.map f).sum ≤ (l₁.map g).sum := List.sum_le_sum fun i _ => hle i
  have hbehind : (l₂.map f).sum ≤ (l₂.map g).sum := List.sum_le_sum fun i _ => hle i
  simp only [List.map_append, List.map_cons, List.sum_append, List.sum_cons]
  omega

/-- A worker's turn takes its cost off the work. -/
lemma Turn.work {id : ℕ} (hs : Accounted s) (h : Turn s e t id) (hset : s.shouldQuit = true) :
    t.work + e.cost ≤ s.work := by
  obtain ⟨q, hphase⟩ := h.phase
  have hmem : id ∈ s.nodes := (hs.listed id).mpr h.inLoop.1
  have hother : ∀ i, t.loadOf i ≤ s.loadOf i := by
    intro i
    rcases eq_or_ne i id with rfl | hne
    · exact (Nat.le_add_right _ _).trans (h.less hset)
    · rw [loadOf, hphase, Function.update_of_ne hne, h.others i hne, loadOf]
  have hsum := sum_add_le hmem hother (h.less hset)
  rw [ServerThreads.work, ServerThreads.work, h.nodes, h.main]
  omega

lemma serve_server {f : FileEvent} (h : s.serve f = .ok (t, o)) :
    s.server.step f = .ok (t.server, o) := by
  obtain ⟨server, hstep, rfl⟩ := serve_ok h
  exact hstep

lemma serve_of_step {f : FileEvent} {server : FileServer} (h : s.server.step f = .ok (server, o)) :
    s.serve f = .ok ({ s with server := server }, o) := by
  rw [serve, h]
  rfl

/-- The threads leave the file and the connections to the file server. -/
lemma step_server (h : s.step e = .ok (t, o)) :
    match s.fileEvent e with
    | none => t.server = s.server ∧ o = none
    | some f => s.server.step f = .ok (t.server, o) := by
  obtain ⟨-, h⟩ := step_ok h
  cases e with
  | accept id junk =>
    simp only [act] at h
    split_ifs at h
    have hstep := serve_server h
    exact hstep
  | sigint =>
    simp only [act] at h
    split_ifs at h
    rw [Except.ok.injEq, Prod.mk.injEq] at h
    exact ⟨h.1 ▸ rfl, h.2.symm⟩
  | join =>
    simp only [act] at h
    split at h
    · split_ifs at h
      rw [Except.ok.injEq, Prod.mk.injEq] at h
      exact ⟨h.1 ▸ rfl, h.2.symm⟩
    · simp at h
  | exit =>
    simp only [act] at h
    split_ifs at h
    rw [Except.ok.injEq, Prod.mk.injEq] at h
    exact ⟨h.1 ▸ rfl, h.2.symm⟩
  | test id =>
    simp only [act] at h
    split_ifs at h with htop hquit
    · rw [fileEvent, if_pos hquit]
      exact serve_server h
    · rw [fileEvent, if_neg hquit]
      rw [Except.ok.injEq, Prod.mk.injEq] at h
      exact ⟨h.1 ▸ rfl, h.2.symm⟩
  | recv id r =>
    simp only [act] at h
    split_ifs at h
    have hstep := serve_server h
    exact hstep
  | hangup id =>
    simp only [act] at h
    split_ifs at h
    have hstep := serve_server h
    exact hstep
  | dump id => exact serve_server h
  | reply id junk => exact serve_server h
  | timestamp currTime => exact serve_server h

section Going

/-! What lets each event go through that no peer has to do anything for. -/

variable {id : ℕ}

lemma conn_of_phase {server : FileServer} {p : Phase} (h : server.phase id = some p) :
    ∃ w, server.conn id = some ⟨w, p⟩ := by
  obtain ⟨⟨w, q⟩, hc, rfl⟩ := Option.map_eq_some_iff.mp h
  exact ⟨w, hc⟩

lemma exit_goes (hmain : s.main = .joining []) : ∃ t, s.step .exit = .ok (t, none) := by
  refine ⟨{ s with main := .exited }, ?_⟩
  rw [step, if_neg (by simp [hmain]), act, if_pos hmain]

lemma join_goes {waiting : List ℕ} (hmain : s.main = .joining (id :: waiting))
    (hclosed : s.server.phase id = some .closed) : ∃ t, s.step .join = .ok (t, none) := by
  refine ⟨{ s with main := .joining waiting }, ?_⟩
  rw [step, if_neg (by simp [hmain]), act, hmain]
  exact if_pos hclosed

lemma quit_goes (hmain : s.main ≠ .exited) (hset : s.shouldQuit = true)
    (hphase : s.server.phase id = some .receiving) (hout : s.inRecv id = false) :
    ∃ t, s.step (.test id) = .ok (t, none) := by
  obtain ⟨w, hc⟩ := conn_of_phase hphase
  have hstep : s.server.step (.hangup id) = .ok (s.server.setConn id ⟨w, .closed⟩, none) := by
    simp [FileServer.step, hc]
  have hact : s.act (.test id) = s.serve (.hangup id) :=
    (if_pos ⟨hphase, hout⟩).trans (if_pos hset)
  exact ⟨_, (if_neg hmain).trans (hact.trans (serve_of_step hstep))⟩

lemma dump_goes {l : Ledger} (hrec : Records s.server l) (hmain : s.main ≠ .exited)
    (hphase : s.server.phase id = some .dumping) : ∃ t, s.step (.dump id) = .ok (t, none) := by
  obtain ⟨w, hc⟩ := conn_of_phase hphase
  have hid := hc ▸ hrec.conn id
  have hstep : s.server.step (.dump id) = .ok
      ({ s.server with file := s.server.file ++ l.pending id }.setConn id ⟨w, .replying⟩,
        none) := by
    simp only [FileServer.step, hc, hid.2.dump]
    rfl
  exact ⟨_, (if_neg hmain).trans (serve_of_step hstep)⟩

lemma reply_goes (junk : ℕ → UInt8) (hmain : s.main ≠ .exited)
    (hphase : s.server.phase id = some .replying) :
    ∃ t, s.step (.reply id junk) = .ok (t, some (id, s.server.file)) := by
  obtain ⟨w, hc⟩ := conn_of_phase hphase
  have hstep : s.server.step (.reply id junk) = .ok
      (s.server.setConn id ⟨w.reset junk, .receiving⟩, some (id, s.server.file)) := by
    simp only [FileServer.step, hc, dumpFileToSocket_eq]
    rfl
  exact ⟨_, (if_neg hmain).trans (serve_of_step hstep)⟩

lemma timestamp_goes (currTime : Bytes) (hmain : s.main ≠ .exited) :
    ∃ t, s.step (.timestamp currTime) = .ok (t, none) :=
  ⟨_, (if_neg hmain).trans (serve_of_step rfl)⟩

end Going

end ServerThreads

end Aesd
