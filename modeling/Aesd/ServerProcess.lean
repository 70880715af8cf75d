import Aesd.Shutdown

/-! The process around the threads, from aesdsocket.c: the descriptor numbers that connections
and the output file take, and every close of one. A worker closes its number when it finds
`should_quit` set and once more behind its loop, and the clean-up closes that of every node it
has joined, whoever has the number by then. -/
namespace Aesd
open Cut FileServer Machine

inductive Holder
  | standard
  | socket (id : ℕ)
  | file
  deriving DecidableEq

/-- The output file, open inside `file_mutex`, with the worker that has opened it unless the
timer's handler has. -/
structure OpenFile where
  fd : ℕ
  user : Option ℕ

/-- `fd` is the number that the node of a connection names, and `openFor` says what a number
is open for. -/
structure ServerProcess where
  threads : ServerThreads
  fd : ℕ → ℕ
  openFor : ℕ → Option Holder
  returned : ℕ → Bool
  outfile : Option OpenFile

inductive ProcessEvent
  | accept (id fd : ℕ) (junk : ℕ → UInt8)
  | sigint
  | join
  | exit
  | test (id : ℕ)
  | recv (id : ℕ) (received : Received)
  | hangup (id : ℕ)
  | leave (id : ℕ)
  | opens (user : Option ℕ) (fd : ℕ)
  | dump (id : ℕ)
  | reply (id : ℕ) (junk : ℕ → UInt8)
  | timestamp (currTime : Bytes)

namespace ServerProcess

/-- The process is started with its standard input and outputs open. -/
def start : ServerProcess :=
  ⟨.start, fun _ => 0, fun fd => if fd < 3 then some .standard else none, fun _ => false, none⟩

abbrev phase (s : ServerProcess) : ℕ → Option Phase := s.threads.server.phase

/-- Closing a number that is not open does nothing. -/
def close (s : ServerProcess) (fd : ℕ) : ServerProcess :=
  { s with openFor := Function.update s.openFor fd none }

/-- The file is opened by a worker to append to it or to read it out, by the timer at any
time. -/
def MayOpen (s : ServerProcess) : Option ℕ → Prop
  | none => True
  | some id => s.phase id = some .dumping ∨ s.phase id = some .replying

instance (s : ServerProcess) (user : Option ℕ) : Decidable (s.MayOpen user) :=
  match user with
  | none => .isTrue trivial
  | some _ => inferInstanceAs (Decidable (_ ∨ _))

/-- What the event does to the threads. -/
def advance (s : ServerProcess) (e : ServerEvent) :
    Except Stop (ServerProcess × Option (ℕ × Bytes)) := do
  let p ← s.threads.step e
  .ok ({ s with threads := p.1 }, p.2)

/-- What is done with the open file, up to the unlock of `file_mutex`. -/
def useFile (s : ServerProcess) (user : Option ℕ) (e : ServerEvent) :
    Except Stop (ServerProcess × Option (ℕ × Bytes)) :=
  match s.outfile with
  | none => .error .blocked
  | some f =>
    if f.user = user then do
      let p ← s.threads.step e
      let t := { s.close f.fd with threads := p.1, outfile := none }
      if s.openFor f.fd = some .file then
        .ok (t, p.2.filter fun r => s.openFor (s.fd r.1) = some (.socket r.1))
      else
        -- the number was closed from elsewhere: no byte is written or read
        .ok ({ t with
          threads := { p.1 with server := { p.1.server with file := s.threads.server.file } } }, none)
    else .error .blocked

/-- An event of a process that has not exited. -/
def act (s : ServerProcess) : ProcessEvent → Except Stop (ServerProcess × Option (ℕ × Bytes))
  | .accept id fd junk =>
    if s.openFor fd = none then
      { s with
        fd := Function.update s.fd id fd
        openFor := Function.update s.openFor fd (some (.socket id)) }.advance (.accept id junk)
    else .error .blocked
  | .sigint => s.advance .sigint
  | .join =>
    match s.threads.main with
    | .joining (id :: _) =>
      if s.returned id then (s.close (s.fd id)).advance .join else .error .blocked
    | _ => .error .blocked
  | .exit => s.advance .exit
  | .test id => (if s.threads.shouldQuit then s.close (s.fd id) else s).advance (.test id)
  -- a `recv` that waits keeps its connection when the number is closed
  | .recv id r => s.advance (.recv id r)
  | .hangup id => s.advance (.hangup id)
  | .leave id =>
    if s.phase id = some .closed ∧ s.returned id = false then
      .ok ({ s.close (s.fd id) with returned := Function.update s.returned id true }, none)
    else .error .blocked
  | .opens user fd =>
    -- `file_mutex` is held as long as the file is open, and no alarm comes to its holder
    if s.outfile.isNone ∧ s.openFor fd = none ∧ s.MayOpen user then
      .ok ({ s with
        openFor := Function.update s.openFor fd (some .file)
        outfile := some ⟨fd, user⟩ }, none)
    else .error .blocked
  | .dump id => s.useFile (some id) (.dump id)
  | .reply id junk => s.useFile (some id) (.reply id junk)
  | .timestamp currTime => s.useFile none (.timestamp currTime)

def step (s : ServerProcess) (e : ProcessEvent) :
    Except Stop (ServerProcess × Option (ℕ × Bytes)) :=
  if s.threads.main = .exited then .error .blocked else s.act e

abbrev run (events : List ProcessEvent) :
    Except Stop (ServerProcess × List (Option (ℕ × Bytes))) :=
  Machine.run step start events

/-- The connection whose number the event closes. -/
def closes (s : ServerProcess) : ProcessEvent → Option ℕ
  | .join => s.threads.main.waiting.head?
  | .test id => if s.threads.shouldQuit then some id else none
  | .leave id => some id
  | _ => none

/-- No number is closed under anybody else. -/
def ClosesOwn (s : ServerProcess) (e : ProcessEvent) : Prop :=
  ∀ id ∈ s.closes e, s.openFor (s.fd id) = none ∨ s.openFor (s.fd id) = some (.socket id)

instance (s : ServerProcess) (e : ProcessEvent) : Decidable (s.ClosesOwn e) :=
  inferInstanceAs (Decidable (∀ id ∈ s.closes e, _))

end ServerProcess

namespace ProcessEvent

def chunk (id : ℕ) : ProcessEvent → Option Bytes
  | .recv i r => if i = id then some r.bytes else none
  | _ => none

/-- The events for which no peer has to do anything, and no timer has to run out. -/
def Own : ProcessEvent → Prop
  | .accept _ _ _ => False
  | .sigint => False
  | .recv _ _ => False
  | .hangup _ => False
  | .opens none _ => False
  | _ => True

end ProcessEvent

open ServerProcess

namespace ServerProcess

/-- What holds between any two events of a run in which no number is closed under anybody
else: whoever uses a number still has it. -/
structure Owned (s : ServerProcess) : Prop where
  live : ∀ id p, s.phase id = some p → p ≠ .closed → s.openFor (s.fd id) = some (.socket id)
  returned : ∀ id, s.returned id = true → s.phase id = some .closed
  file : ∀ f, s.outfile = some f → s.openFor f.fd = some .file
  user : ∀ f, s.outfile = some f → s.MayOpen f.user
  finite : {fd | s.openFor fd ≠ none}.Finite

variable {s t : ServerProcess} {o : Option (ℕ × Bytes)} {id : ℕ}

section Inversion

lemma step_ok {e : ProcessEvent} (h : s.step e = .ok (t, o)) :
    s.threads.main ≠ .exited ∧ s.act e = .ok (t, o) := by
  rw [step] at h
  split_ifs at h with hmain
  exact ⟨hmain, h⟩

lemma advance_ok {e : ServerEvent} (h : s.advance e = .ok (t, o)) :
    ∃ threads, s.threads.step e = .ok (threads, o) ∧ t = { s with threads := threads } := by
  obtain ⟨⟨threads, o'⟩, hstep, hp⟩ := bind_eq_ok.mp h
  rw [Except.ok.injEq, Prod.mk.injEq] at hp
  exact ⟨threads, hp.2 ▸ hstep, hp.1.symm⟩

lemma step_accept {fd : ℕ} {junk : ℕ → UInt8} (h : s.step (.accept id fd junk) = .ok (t, o)) :
    ∃ threads, s.threads.step (.accept id junk) = .ok (threads, o) ∧ s.openFor fd = none ∧
      t = { s with
        threads := threads
        fd := Function.update s.fd id fd
        openFor := Function.update s.openFor fd (some (.socket id)) } := by
  obtain ⟨-, h⟩ := step_ok h
  simp only [act] at h
  split_ifs at h with hfree
  obtain ⟨threads, hstep, rfl⟩ := advance_ok h
  exact ⟨threads, hstep, hfree, rfl⟩

lemma step_join (h : s.step .join = .ok (t, o)) :
    ∃ id waiting threads, s.threads.main = .joining (id :: waiting) ∧ s.returned id = true ∧
      s.threads.step .join = .ok (threads, o) ∧
      t = { s.close (s.fd id) with threads := threads } := by
  obtain ⟨-, h⟩ := step_ok h
  simp only [act] at h
  split at h
  · rename_i id waiting hmain
    split_ifs at h with hreturned
    obtain ⟨threads, hstep, rfl⟩ := advance_ok h
    exact ⟨id, waiting, threads, hmain, hreturned, hstep, rfl⟩
  · simp at h

lemma step_leave (h : s.step (.leave id) = .ok (t, o)) :
    s.phase id = some .closed ∧ s.returned id = false ∧ o = none ∧
      t = { s.close (s.fd id) with returned := Function.update s.returned id true } := by
  obtain ⟨-, h⟩ := step_ok h
  simp only [act] at h
  split_ifs at h with hclosed
  rw [Except.ok.injEq, Prod.mk.injEq] at h
  exact ⟨hclosed.1, hclosed.2, h.2.symm, h.1.symm⟩

lemma step_opens {user : Option ℕ} {fd : ℕ} (h : s.step (.opens user fd) = .ok (t, o)) :
    s.outfile = none ∧ s.openFor fd = none ∧ s.MayOpen user ∧ o = none ∧
      t = { s with
        openFor := Function.update s.openFor fd (some .file)
        outfile := some ⟨fd, user⟩ } := by
  obtain ⟨-, h⟩ := step_ok h
  simp only [act] at h
  split_ifs at h with hfree
  rw [Except.ok.injEq, Prod.mk.injEq] at h
  exact ⟨Option.isNone_iff_eq_none.mp hfree.1, hfree.2.1, hfree.2.2, h.2.symm, h.1.symm⟩

/-- As long as the file has its number, it is appended to and read out. -/
lemma useFile_ok {user : Option ℕ} {e : ServerEvent} (hs : Owned s)
    (h : s.useFile user e = .ok (t, o)) :
    ∃ f threads sent, s.outfile = some f ∧ f.user = user ∧ s.threads.step e = .ok (threads, sent) ∧
      o = sent.filter (fun r => s.openFor (s.fd r.1) = some (.socket r.1)) ∧
      t = { s.close f.fd with threads := threads, outfile := none } := by
  rw [useFile] at h
  split at h
  · simp at h
  · rename_i f hf
    simp only [hs.file f hf, if_true] at h
    split_ifs at h with huser
    obtain ⟨⟨threads, sent⟩, hstep, hp⟩ := bind_eq_ok.mp h
    rw [Except.ok.injEq, Prod.mk.injEq] at hp
    exact ⟨f, threads, sent, hf, huser, hstep, hp.2.symm, hp.1.symm⟩

end Inversion

/-- A connection that has its number is sent what is read out for it. -/
lemma step_reply {junk : ℕ → UInt8} (hs : Owned s) (h : s.step (.reply id junk) = .ok (t, o)) :
    ∃ f threads, s.outfile = some f ∧ s.threads.step (.reply id junk) = .ok (threads, o) ∧
      t = { s.close f.fd with threads := threads, outfile := none } := by
  obtain ⟨f, threads, sent, hf, -, hstep, ho, ht⟩ := useFile_ok hs (step_ok h).2
  obtain ⟨w, hc, -, rfl⟩ := FileServer.step_reply (ServerThreads.step_server hstep)
  have hown := hs.live id .replying (phase_of_conn hc) (by simp)
  rw [Option.filter_some, if_pos (by simpa using hown)] at ho
  exact ⟨f, threads, hf, ho ▸ hstep, ht⟩

lemma step_dump (hs : Owned s) (h : s.step (.dump id) = .ok (t, o)) :
    ∃ f threads, s.outfile = some f ∧ s.threads.step (.dump id) = .ok (threads, o) ∧
      t = { s.close f.fd with threads := threads, outfile := none } := by
  obtain ⟨f, threads, sent, hf, -, hstep, ho, ht⟩ := useFile_ok hs (step_ok h).2
  obtain ⟨w, file, hc, -, -, rfl⟩ := FileServer.step_dump (ServerThreads.step_server hstep)
  exact ⟨f, threads, hf, ho ▸ hstep, ht⟩

lemma step_timestamp {currTime : Bytes} (hs : Owned s)
    (h : s.step (.timestamp currTime) = .ok (t, o)) :
    ∃ f threads, s.outfile = some f ∧ f.user = none ∧
      s.threads.step (.timestamp currTime) = .ok (threads, o) ∧
      t = { s.close f.fd with threads := threads, outfile := none } := by
  obtain ⟨f, threads, sent, hf, huser, hstep, ho, ht⟩ := useFile_ok hs (step_ok h).2
  obtain ⟨-, rfl⟩ := FileServer.step_timestamp (ServerThreads.step_server hstep)
  exact ⟨f, threads, hf, huser, ho ▸ hstep, ht⟩

/-- The numbers stay as they are, and no worker that uses the file or has returned moves. -/
lemma Owned.of_phase {threads : ServerThreads} (hs : Owned s)
    (hlive : ∀ i, threads.server.phase i ≠ s.phase i → s.phase i = some .receiving) :
    Owned { s with threads := threads } := by
  have hsame : ∀ {i p}, s.phase i = some p → p ≠ .receiving → threads.server.phase i = some p := by
    intro i p hp hne
    by_contra hmoved
    have hreceiving := hlive i (hp ▸ hmoved)
    rw [hp, Option.some.injEq] at hreceiving
    exact hne hreceiving
  refine ⟨fun i p hp hopen => ?_, fun i hi => hsame (hs.returned i hi) (by simp), hs.file,
    fun f hf => ?_, hs.finite⟩
  · by_cases hmoved : threads.server.phase i = s.phase i
    · exact hs.live i p (hmoved ▸ hp) hopen
    · exact hs.live i .receiving (hlive i hmoved) (by simp)
  · have huser := hs.user f hf
    cases hu : f.user with
    | none => trivial
    | some i =>
      rw [hu] at huser
      exact huser.imp (fun h => hsame h (by simp)) (fun h => hsame h (by simp))

lemma moved_of_update {threads : ServerThreads} {p q : Phase} (hbefore : s.phase id = some p)
    (hafter : threads.server.phase = Function.update s.phase id (some q)) {i : ℕ}
    (hi : threads.server.phase i ≠ s.phase i) : s.phase i = some p := by
  rcases eq_or_ne i id with rfl | hne
  · exact hbefore
  · exact absurd (by rw [hafter, Function.update_of_ne hne]) hi

/-- A worker that is about to receive, or waits for its peer, moves. -/
lemma Owned.turn {threads : ServerThreads} {q : Phase} (hs : Owned s)
    (hbefore : s.phase id = some .receiving)
    (hafter : threads.server.phase = Function.update s.phase id (some q)) :
    Owned { s with threads := threads } :=
  hs.of_phase fun _ hi => moved_of_update hbefore hafter hi

lemma Owned.finite_close (hs : Owned s) (fd : ℕ) :
    {n | (s.close fd).openFor n ≠ none}.Finite := by
  refine hs.finite.subset fun n hn => ?_
  rcases eq_or_ne n fd with rfl | hne
  · simp [ServerProcess.close] at hn
  · simpa [ServerProcess.close, Function.update_of_ne hne] using hn

lemma Owned.finite_open (hs : Owned s) (fd : ℕ) (holder : Holder) :
    {n | Function.update s.openFor fd (some holder) n ≠ none}.Finite := by
  refine (hs.finite.insert fd).subset fun n hn => ?_
  rcases eq_or_ne n fd with rfl | hne
  · exact Set.mem_insert n _
  · exact Set.mem_insert_of_mem fd (by simpa [Function.update_of_ne hne] using hn)

/-- A number is closed for a connection whose worker has left its loop. -/
lemma Owned.close (hs : Owned s) (hclosed : s.phase id = some .closed)
    (hown : s.openFor (s.fd id) = none ∨ s.openFor (s.fd id) = some (.socket id)) :
    Owned (s.close (s.fd id)) := by
  refine ⟨fun i p (hp : s.phase i = some p) hopen => ?_, hs.returned, fun f hf => ?_, hs.user,
    hs.finite_close _⟩
  · have hi := hs.live i p hp hopen
    have hne : s.fd i ≠ s.fd id := by
      intro heq
      rw [← heq, hi] at hown
      rcases hown with hnone | hsame
      · simp at hnone
      · rw [Option.some.injEq, Holder.socket.injEq] at hsame
        rw [hsame, hclosed, Option.some.injEq] at hp
        exact hopen hp.symm
    simpa [ServerProcess.close, Function.update_of_ne hne] using hi
  · have hfile := hs.file f hf
    have hne : f.fd ≠ s.fd id := by
      intro heq
      rw [← heq, hfile] at hown
      simp at hown
    simpa [ServerProcess.close, Function.update_of_ne hne] using hfile

lemma Owned.accept {fd : ℕ} {threads : ServerThreads} (hs : Owned s) (hnew : s.phase id = none)
    (hfree : s.openFor fd = none)
    (hphase : threads.server.phase = Function.update s.phase id (some .receiving)) :
    Owned { s with
      threads := threads
      fd := Function.update s.fd id fd
      openFor := Function.update s.openFor fd (some (.socket id)) } := by
  have hother : ∀ i p, s.phase i = some p → i ≠ id ∧ threads.server.phase i = some p := by
    intro i p hp
    have hne : i ≠ id := fun heq => by simp [heq, hnew] at hp
    exact ⟨hne, by rw [hphase, Function.update_of_ne hne, hp]⟩
  refine ⟨fun i p hp hopen => ?_, fun i hi => (hother i _ (hs.returned i hi)).2, fun f hf => ?_,
    fun f hf => ?_, hs.finite_open fd _⟩
  · rcases eq_or_ne i id with rfl | hne
    · simp
    · change threads.server.phase i = some p at hp
      rw [hphase, Function.update_of_ne hne] at hp
      have hi := hs.live i p hp hopen
      have hnefd : s.fd i ≠ fd := fun heq => by simp [heq, hfree] at hi
      simp [hne, hnefd, hi]
  · have hfile := hs.file f hf
    have hnefd : f.fd ≠ fd := fun heq => by simp [heq, hfree] at hfile
    simpa [hnefd] using hfile
  · have huser := hs.user f hf
    cases hu : f.user with
    | none => trivial
    | some i =>
      rw [hu] at huser
      exact huser.imp (fun h => (hother i _ h).2) fun h => (hother i _ h).2

lemma Owned.opens {fd : ℕ} {user : Option ℕ} (hs : Owned s) (hfree : s.openFor fd = none)
    (huser : s.MayOpen user) :
    Owned { s with
      openFor := Function.update s.openFor fd (some .file)
      outfile := some ⟨fd, user⟩ } := by
  refine ⟨fun i p hp hopen => ?_, hs.returned, fun f hf => ?_, fun f hf => ?_, hs.finite_open fd _⟩
  · have hi := hs.live i p hp hopen
    have hnefd : s.fd i ≠ fd := fun heq => by simp [heq, hfree] at hi
    simpa [hnefd] using hi
  · rw [Option.some.injEq] at hf
    simp [← hf]
  · rw [Option.some.injEq] at hf
    subst hf
    cases user with
    | none => trivial
    | some i => exact huser

lemma Owned.leave (hs : Owned s) (hclosed : s.phase id = some .closed) :
    Owned { s with returned := Function.update s.returned id true } := by
  refine ⟨hs.live, fun i hi => ?_, hs.file, hs.user, hs.finite⟩
  rcases eq_or_ne i id with rfl | hne
  · exact hclosed
  · exact hs.returned i (by simpa [hne] using hi)

/-- The connections whose workers have not returned. -/
def unreturned (s : ServerProcess) : ℕ :=
  (s.threads.nodes.map fun id => (!s.returned id).toNat).sum

/-- Whether a worker has the file open. -/
def opened (s : ServerProcess) : ℕ := ((s.outfile.bind OpenFile.user).isSome).toNat

/-- What is left to do behind the signal: the work of the threads, and a return for each
worker. To open the file takes one off the work beforehand. -/
def left (s : ServerProcess) : ℕ := s.threads.work + s.unreturned - s.opened

section Going

lemma step_of_act {e : ProcessEvent} (hmain : s.threads.main ≠ .exited)
    (h : ∃ t o, s.act e = .ok (t, o)) : ∃ t o, s.step e = .ok (t, o) := by
  obtain ⟨t, o, h⟩ := h
  exact ⟨t, o, (if_neg hmain).trans h⟩

lemma advance_goes {e : ServerEvent} (h : ∃ threads, s.threads.step e = .ok (threads, none)) :
    ∃ t o, s.advance e = .ok (t, o) := by
  obtain ⟨threads, h⟩ := h
  refine ⟨{ s with threads := threads }, none, ?_⟩
  rw [advance, h]
  rfl

lemma useFile_goes {f : OpenFile} {user : Option ℕ} {e : ServerEvent} {threads : ServerThreads}
    {sent : Option (ℕ × Bytes)} (hs : Owned s) (hf : s.outfile = some f) (huser : f.user = user)
    (h : s.threads.step e = .ok (threads, sent)) : ∃ t o, s.useFile user e = .ok (t, o) := by
  refine ⟨{ s.close f.fd with threads := threads, outfile := none },
    sent.filter (fun r => s.openFor (s.fd r.1) = some (.socket r.1)), ?_⟩
  simp only [useFile, hf, huser, if_true, h, hs.file f hf]
  rfl

/-- Whoever has opened the file uses it and closes it. -/
lemma file_goes {f : OpenFile} {l : Ledger} (hs : Owned s) (hrec : Records s.threads.server l)
    (hmain : s.threads.main ≠ .exited) (hf : s.outfile = some f) :
    ∃ e, e.Own ∧ ∃ t o, s.step e = .ok (t, o) := by
  have huser := hs.user f hf
  cases hu : f.user with
  | none =>
    obtain ⟨threads, hstep⟩ := ServerThreads.timestamp_goes [] hmain
    exact ⟨.timestamp [], trivial, step_of_act hmain (useFile_goes hs hf hu hstep)⟩
  | some id =>
    rw [hu] at huser
    rcases huser with hphase | hphase
    · obtain ⟨threads, hstep⟩ := ServerThreads.dump_goes hrec hmain hphase
      exact ⟨.dump id, trivial, step_of_act hmain (useFile_goes hs hf hu hstep)⟩
    · obtain ⟨threads, hstep⟩ := ServerThreads.reply_goes 0 hmain hphase
      exact ⟨.reply id 0, trivial, step_of_act hmain (useFile_goes hs hf hu hstep)⟩

/-- There is a number for the file, when nobody has it open. -/
lemma opens_goes (hs : Owned s) (hmain : s.threads.main ≠ .exited) (hf : s.outfile = none)
    (hopen : s.MayOpen (some id)) : ∃ e, e.Own ∧ ∃ t o, s.step e = .ok (t, o) := by
  obtain ⟨fd, hused⟩ := hs.finite.exists_notMem
  have hfree : s.openFor fd = none := not_not.mp hused
  refine ⟨.opens (some id) fd, trivial, step_of_act hmain ⟨_, _, if_pos ?_⟩⟩
  exact ⟨by simp [hf], hfree, hopen⟩

/-- The worker to be joined next, with the file closed. -/
lemma worker_goes {waiting : List ℕ} {p : Phase} (hs : Owned s)
    (hset : s.threads.shouldQuit = true) (hmain : s.threads.main = .joining (id :: waiting))
    (hf : s.outfile = none) (hphase : s.phase id = some p) (hout : s.threads.inRecv id = false) :
    ∃ e, e.Own ∧ ∃ t o, s.step e = .ok (t, o) := by
  have hne : s.threads.main ≠ .exited := by simp [hmain]
  cases p with
  | receiving =>
    have hquit := ServerThreads.quit_goes hne hset hphase hout
    refine ⟨.test id, trivial, step_of_act hne ?_⟩
    simp only [act, hset, if_true]
    exact advance_goes hquit
  | dumping => exact opens_goes hs hne hf (Or.inl hphase)
  | replying => exact opens_goes hs hne hf (Or.inr hphase)
  | closed =>
    cases hreturned : s.returned id with
    | false => exact ⟨.leave id, trivial, step_of_act hne ⟨_, _, if_pos ⟨hphase, hreturned⟩⟩⟩
    | true =>
      have hjoin := ServerThreads.join_goes hmain hphase
      refine ⟨.join, trivial, step_of_act hne ?_⟩
      simp only [act, hmain, hreturned, if_true]
      exact advance_goes hjoin

/-- Behind a set `should_quit`, a process that has not exited goes on by itself, or the worker
to be joined next waits for its peer. -/
lemma goes_on {l : Ledger} (ha : s.threads.Accounted) (hs : Owned s)
    (hrec : Records s.threads.server l) (hset : s.threads.shouldQuit = true)
    (hmain : s.threads.main ≠ .exited) :
    (∃ e, e.Own ∧ ∃ t o, s.step e = .ok (t, o)) ∨
      ∃ id waiting, s.threads.main = .joining (id :: waiting) ∧ s.threads.inRecv id = true := by
  cases hf : s.outfile with
  | some f => exact Or.inl (file_goes hs hrec hmain hf)
  | none =>
    cases hm : s.threads.main with
    | accepting => exact absurd hm (ha.quits.mp hset)
    | exited => exact absurd hm hmain
    | joining waiting =>
      cases waiting with
      | nil =>
        exact Or.inl ⟨.exit, trivial, step_of_act hmain (advance_goes (ServerThreads.exit_goes hm))⟩
      | cons id waiting =>
        cases hin : s.threads.inRecv id with
        | true => exact Or.inr ⟨id, waiting, rfl, hin⟩
        | false =>
          have hmem : id ∈ s.threads.nodes :=
            ha.pending id (by rw [hm]; exact List.mem_cons_self)
          obtain ⟨p, hphase⟩ := Option.ne_none_iff_exists'.mp ((ha.listed id).mp hmem)
          exact Or.inl (worker_goes hs hset hm hf hphase hin)

end Going

end ServerProcess

open ServerProcess

/-- A second connection takes the number of an ended one. -/
def numberReused : List ProcessEvent :=
  [.accept 1 5 0, .test 1, .hangup 1, .leave 1, .accept 2 5 0, .test 2]

/-- Where the clean-up joins the first worker at once, it closes the number under the second
connection, and the reply to its line is not sent. -/
theorem reply_lost_to_stale_close :
    (ServerProcess.run (numberReused ++ [.recv 2 ⟨[97, 10], 0⟩, .sigint, .join, .opens (some 2) 5,
        .dump 2, .opens (some 2) 5, .reply 2 0, .test 2, .leave 2, .join, .exit])).toOption.map
      (fun p => (p.1.threads.main, p.1.threads.server.file, repliesTo 2 p.2)) =
    some (.exited, [97, 10], []) := by decide +kernel

end Aesd
