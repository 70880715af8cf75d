import Aesd.FileWorker
import Aesd.Library.Cut
import Aesd.Library.Machine

/-! The server in file mode: any number of connection workers and the timestamp handler
around one output file. `file_mutex` makes each append and each full read-out one event;
between the append of a worker and its read-out, other events may come. -/
namespace Aesd
open Cut Machine Memory

/-- Where a worker is in its loop: about to receive, with a delimiter found and its buffer
to be appended, with its buffer appended and the file to be read out, or behind the loop. -/
inductive Phase
  | receiving
  | dumping
  | replying
  | closed
  deriving DecidableEq, Repr

structure Connection where
  worker : FileWorker
  phase : Phase

structure FileServer where
  file : Bytes
  conn : ℕ → Option Connection

inductive FileEvent
  | accept (id : ℕ) (junk : ℕ → UInt8)
  | recv (id : ℕ) (received : Received)
  | dump (id : ℕ)
  | reply (id : ℕ) (junk : ℕ → UInt8)
  | timestamp (currTime : Bytes)
  | hangup (id : ℕ)

namespace FileServer

/-- The output file is deleted at the start. -/
def start : FileServer := ⟨[], fun _ => none⟩

def setConn (s : FileServer) (id : ℕ) (c : Connection) : FileServer :=
  { s with conn := Function.update s.conn id (some c) }

/-- Events a worker is not waiting for do not occur. The output is a reply and its
connection. -/
def step (s : FileServer) : FileEvent → Except Stop (FileServer × Option (ℕ × Bytes))
  | .accept id junk =>
    match s.conn id with
    | none => .ok (s.setConn id ⟨.start junk, .receiving⟩, none)
    | some _ => .error .blocked
  | .recv id r =>
    match s.conn id with
    | some ⟨w, .receiving⟩ => do
      let p ← w.receive r
      .ok (s.setConn id ⟨p.1, if p.2 then .dumping else .receiving⟩, none)
    | _ => .error .blocked
  | .dump id =>
    match s.conn id with
    | some ⟨w, .dumping⟩ => do
      let file ← dumpBufferToFile s.file w.totalBytesReceived w.buffer
      .ok ({ s with file := file }.setConn id ⟨w, .replying⟩, none)
    | _ => .error .blocked
  | .reply id junk =>
    match s.conn id with
    | some ⟨w, .replying⟩ => do
      let sent ← dumpFileToSocket s.file
      .ok (s.setConn id ⟨w.reset junk, .receiving⟩, some (id, sent))
    | _ => .error .blocked
  | .timestamp currTime => .ok ({ s with file := printTimeToFile s.file currTime }, none)
  | .hangup id =>
    match s.conn id with
    | some ⟨w, .receiving⟩ => .ok (s.setConn id ⟨w, .closed⟩, none)
    | _ => .error .blocked

abbrev run (s : FileServer) (events : List FileEvent) :
    Except Stop (FileServer × List (Option (ℕ × Bytes))) :=
  Machine.run step s events

def phase (s : FileServer) (id : ℕ) : Option Phase := (s.conn id).map Connection.phase

/-- The bytes a connection has received and not yet appended to the file. -/
def unflushed (s : FileServer) (id : ℕ) : Bytes :=
  match s.conn id with
  | none => []
  | some ⟨_, .replying⟩ => []
  | some ⟨w, _⟩ => w.buffer.take w.totalBytesReceived.toNat

section Inversion

/-! What each event, once it goes through, says of the state before and does to it. -/

variable {s t : FileServer} {id : ℕ} {o : Option (ℕ × Bytes)}

lemma step_accept {junk : ℕ → UInt8} (h : s.step (.accept id junk) = .ok (t, o)) :
    s.conn id = none ∧ t = s.setConn id ⟨.start junk, .receiving⟩ ∧ o = none := by
  simp only [step] at h
  split at h
  · rename_i hc
    simp only [Except.ok.injEq, Prod.mk.injEq] at h
    exact ⟨hc, h.1.symm, h.2.symm⟩
  · simp at h

lemma step_recv {r : Received} (h : s.step (.recv id r) = .ok (t, o)) :
    ∃ w v found, s.conn id = some ⟨w, .receiving⟩ ∧ w.receive r = .ok (v, found) ∧
      t = s.setConn id ⟨v, if found then .dumping else .receiving⟩ ∧ o = none := by
  simp only [step] at h
  split at h
  · rename_i w hc
    obtain ⟨⟨v, found⟩, hr, h⟩ := bind_eq_ok.mp h
    simp only [Except.ok.injEq, Prod.mk.injEq] at h
    exact ⟨w, v, found, hc, hr, h.1.symm, h.2.symm⟩
  · simp at h

lemma step_dump (h : s.step (.dump id) = .ok (t, o)) :
    ∃ w file, s.conn id = some ⟨w, .dumping⟩ ∧
      dumpBufferToFile s.file w.totalBytesReceived w.buffer = .ok file ∧
      t = { s with file := file }.setConn id ⟨w, .replying⟩ ∧ o = none := by
  simp only [step] at h
  split at h
  · rename_i w hc
    obtain ⟨file, hfile, h⟩ := bind_eq_ok.mp h
    simp only [Except.ok.injEq, Prod.mk.injEq] at h
    exact ⟨w, file, hc, hfile, h.1.symm, h.2.symm⟩
  · simp at h

lemma step_reply {junk : ℕ → UInt8} (h : s.step (.reply id junk) = .ok (t, o)) :
    ∃ w, s.conn id = some ⟨w, .replying⟩ ∧ t = s.setConn id ⟨w.reset junk, .receiving⟩ ∧
      o = some (id, s.file) := by
  simp only [step, dumpFileToSocket_eq] at h
  split at h
  · rename_i w hc
    change Except.ok _ = _ at h
    simp only [Except.ok.injEq, Prod.mk.injEq] at h
    exact ⟨w, hc, h.1.symm, h.2.symm⟩
  · simp at h

lemma step_timestamp {currTime : Bytes} (h : s.step (.timestamp currTime) = .ok (t, o)) :
    t = { s with file := printTimeToFile s.file currTime } ∧ o = none := by
  simp only [step, Except.ok.injEq, Prod.mk.injEq] at h
  exact ⟨h.1.symm, h.2.symm⟩

lemma step_hangup (h : s.step (.hangup id) = .ok (t, o)) :
    ∃ w, s.conn id = some ⟨w, .receiving⟩ ∧ t = s.setConn id ⟨w, .closed⟩ ∧ o = none := by
  simp only [step] at h
  split at h
  · rename_i w hc
    simp only [Except.ok.injEq, Prod.mk.injEq] at h
    exact ⟨w, hc, h.1.symm, h.2.symm⟩
  · simp at h

end Inversion

end FileServer

/-- A unit of the file: a timestamp line, which has no author, or what a connection appended. -/
structure FileUnit where
  author : Option ℕ
  bytes : Bytes

def timestampLine (currTime : Bytes) : Bytes := printTimeToFile [] currTime

def unitsBy (id : ℕ) (units : List FileUnit) : List Bytes :=
  (units.filter fun u => u.author = some id).map FileUnit.bytes

/-- The chunks a connection has received. -/
def chunksOf (id : ℕ) (events : List FileEvent) : List Bytes :=
  events.filterMap fun e =>
    match e with
    | .recv i r => if i = id then some r.bytes else none
    | _ => none

/-- What the events amount to: the units in file order, and for each connection the chunks
it has sent and those of its bytes that are in no unit. -/
structure Ledger where
  units : List FileUnit
  chunks : ℕ → List Bytes
  pending : ℕ → Bytes

namespace Ledger

def empty : Ledger := ⟨[], fun _ => [], fun _ => []⟩

def next (l : Ledger) : FileEvent → Ledger
  | .recv id r =>
    { l with
      chunks := Function.update l.chunks id (l.chunks id ++ [r.bytes])
      pending := Function.update l.pending id (l.pending id ++ r.bytes) }
  | .dump id =>
    { l with
      units := l.units ++ [⟨some id, l.pending id⟩]
      pending := Function.update l.pending id [] }
  | .timestamp currTime => { l with units := l.units ++ [⟨none, timestampLine currTime⟩] }
  | .accept _ _ => l
  | .reply _ _ => l
  | .hangup _ => l

def file (l : Ledger) : Bytes := (l.units.map FileUnit.bytes).flatten

/-- The units of a connection are the pieces of its chunks cut behind every chunk with a
line feed, and its pending bytes are the rest. -/
def Settled (l : Ledger) (id : ℕ) : Prop :=
  cut (has newline) [] (l.chunks id) = (unitsBy id l.units, l.pending id)

/-- The same, with the last piece complete but still to be appended. -/
def Due (l : Ledger) (id : ℕ) : Prop :=
  cut (has newline) [] (l.chunks id) = (unitsBy id l.units ++ [l.pending id], [])

end Ledger

open Ledger FileServer

lemma printTimeToFile_eq (file currTime : Bytes) :
    printTimeToFile file currTime = file ++ timestampLine currTime := by
  simp [timestampLine, printTimeToFile]

@[simp] lemma unitsBy_append (id : ℕ) (us vs : List FileUnit) :
    unitsBy id (us ++ vs) = unitsBy id us ++ unitsBy id vs := by
  simp [unitsBy]

lemma unitsBy_self (id : ℕ) (bytes : Bytes) : unitsBy id [⟨some id, bytes⟩] = [bytes] := by
  simp [unitsBy]

lemma unitsBy_other {id : ℕ} {author : Option ℕ} (h : author ≠ some id) (bytes : Bytes) :
    unitsBy id [⟨author, bytes⟩] = [] := by
  simp [unitsBy, h]

/-- How a connection's worker stands to its part of the ledger, in each phase. -/
def Matches (c : Option Connection) (l : Ledger) (id : ℕ) : Prop :=
  match c with
  | none => l.Settled id ∧ l.pending id = []
  | some ⟨w, .receiving⟩ =>
    l.Settled id ∧ w.Holds (l.pending id) ∧ w.bufferPosition = (l.pending id).length
  | some ⟨w, .dumping⟩ => l.Due id ∧ w.Holds (l.pending id)
  | some ⟨_, .replying⟩ => l.Settled id ∧ l.pending id = []
  | some ⟨w, .closed⟩ => l.Settled id ∧ w.Holds (l.pending id)

structure Records (s : FileServer) (l : Ledger) : Prop where
  file : s.file = l.file
  conn : ∀ id, Matches (s.conn id) l id

lemma start_records : Records .start .empty := by
  refine ⟨rfl, fun id => ⟨rfl, rfl⟩⟩

/-- A ledger that changed nothing of a connection still matches it. -/
lemma Matches.congr {c : Option Connection} {l l' : Ledger} {id : ℕ} (h : Matches c l id)
    (hunits : unitsBy id l'.units = unitsBy id l.units) (hchunks : l'.chunks id = l.chunks id)
    (hpending : l'.pending id = l.pending id) : Matches c l' id := by
  unfold Matches Settled Due at *
  rw [hunits, hchunks, hpending]
  exact h

/-- After a change to one connection it is enough to look at that one. -/
lemma Records.setConn {s : FileServer} {l l' : Ledger} {id : ℕ} {c : Connection} {file : Bytes}
    (h : Records s l) (hfile : file = l'.file) (hc : Matches (some c) l' id)
    (hunits : ∀ i ≠ id, unitsBy i l'.units = unitsBy i l.units)
    (hchunks : ∀ i ≠ id, l'.chunks i = l.chunks i)
    (hpending : ∀ i ≠ id, l'.pending i = l.pending i) :
    Records ({ s with file := file }.setConn id c) l' := by
  refine ⟨hfile, fun i => ?_⟩
  rcases eq_or_ne i id with rfl | hne
  · simpa [FileServer.setConn] using hc
  · simpa [FileServer.setConn, hne] using
      (h.conn i).congr (hunits i hne) (hchunks i hne) (hpending i hne)

lemma FileWorker.Holds.dump {w : FileWorker} {acc : Bytes} (hw : w.Holds acc) (file : Bytes) :
    dumpBufferToFile file w.totalBytesReceived w.buffer = .ok (file ++ acc) := by
  have hle := hw.length_le
  rw [dumpBufferToFile, hw.total, if_neg (by omega), Int.toNat_natCast, hw.bytes]

/-- A chunk goes behind what the connection has pending, and closes it if it holds a line feed. -/
lemma recv_matches {l : Ledger} {id : ℕ} {w v : FileWorker} {r : Received} {found : Bool}
    (h : Matches (some ⟨w, .receiving⟩) l id) (hr : w.receive r = .ok (v, found)) :
    Matches (some ⟨v, if found then .dumping else .receiving⟩) (l.next (.recv id r)) id := by
  obtain ⟨hsettled, hholds, hpos⟩ := h
  obtain ⟨hfound, hv, hvpos⟩ := FileWorker.receive_spec hholds hpos hr
  have hcut : cut (has newline) [] (l.chunks id ++ [r.bytes]) = _ := cut_append [] (l.chunks id) _
  rw [hsettled] at hcut
  by_cases hn : newline ∈ r.bytes
  · have hhas : has newline r.bytes = true := by simpa [has] using hn
    rw [cut_cons_closed hhas] at hcut
    rw [hfound]
    simpa [hn, Matches, Due, Ledger.next] using ⟨hcut, hv⟩
  · have hhas : has newline r.bytes = false := by simpa [has] using hn
    have hvpos := hvpos hn
    rw [cut_cons_open hhas, cut_nil, List.append_nil] at hcut
    rw [List.length_append] at hvpos
    rw [hfound]
    simpa [hn, Matches, Settled, Ledger.next] using ⟨hcut, hv, hvpos⟩

/-- Every event keeps the server and the ledger in step. -/
lemma step_records {s t : FileServer} {l : Ledger} {e : FileEvent} {o : Option (ℕ × Bytes)}
    (h : Records s l) (hstep : s.step e = .ok (t, o)) : Records t (l.next e) := by
  cases e with
  | accept id junk =>
    obtain ⟨hc, rfl, -⟩ := step_accept hstep
    have hid := hc ▸ h.conn id
    refine h.setConn h.file ⟨hid.1, ?_, ?_⟩ (fun _ _ => rfl) (fun _ _ => rfl) (fun _ _ => rfl)
    · rw [Ledger.next, hid.2]
      exact FileWorker.start_holds junk
    · rw [Ledger.next, hid.2]
      rfl
  | recv id r =>
    obtain ⟨w, v, found, hc, hr, rfl, -⟩ := step_recv hstep
    have hid := hc ▸ h.conn id
    exact h.setConn h.file (recv_matches hid hr) (fun _ _ => rfl)
      (fun i hi => Function.update_of_ne hi _ _) (fun i hi => Function.update_of_ne hi _ _)
  | dump id =>
    obtain ⟨w, file, hc, hfile, rfl, -⟩ := step_dump hstep
    have hid := hc ▸ h.conn id
    obtain ⟨hdue, hholds⟩ := hid
    rw [hholds.dump, Except.ok.injEq] at hfile
    subst hfile
    refine h.setConn ?_ ⟨?_, ?_⟩ (fun i hi => ?_) (fun _ _ => rfl)
      (fun i hi => Function.update_of_ne hi _ _)
    · simp [h.file, Ledger.file, Ledger.next]
    · simp only [Settled, Ledger.next, unitsBy_append, unitsBy_self, Function.update_self]
      exact hdue
    · exact Function.update_self ..
    · have hne : some id ≠ some i := fun he => hi (Option.some.inj he).symm
      simp only [Ledger.next, unitsBy_append, unitsBy_other hne, List.append_nil]
  | reply id junk =>
    obtain ⟨w, hc, rfl, -⟩ := step_reply hstep
    have hid := hc ▸ h.conn id
    refine h.setConn h.file ⟨hid.1, ?_, ?_⟩ (fun _ _ => rfl) (fun _ _ => rfl) (fun _ _ => rfl)
    · rw [Ledger.next, hid.2]
      exact FileWorker.reset_holds w junk
    · rw [Ledger.next, hid.2]
      rfl
  | timestamp currTime =>
    obtain ⟨rfl, -⟩ := step_timestamp hstep
    refine ⟨?_, fun i => (h.conn i).congr ?_ rfl rfl⟩
    · rw [printTimeToFile_eq, h.file]
      simp [Ledger.file, Ledger.next]
    · simp [Ledger.next, unitsBy_other]
  | hangup id =>
    obtain ⟨w, hc, rfl, -⟩ := step_hangup hstep
    have hid := hc ▸ h.conn id
    exact h.setConn h.file ⟨hid.1, hid.2.1⟩ (fun _ _ => rfl) (fun _ _ => rfl) (fun _ _ => rfl)

/-- A run keeps the server and its ledger in step. -/
theorem run_records {events : List FileEvent} {s : FileServer} {outs : List (Option (ℕ × Bytes))}
    (h : FileServer.start.run events = .ok (s, outs)) :
    Records s (events.foldl Ledger.next .empty) :=
  run_refines Ledger.next Records (fun _ _ _ _ _ hR _ hstep => step_records hR hstep)
    start_records (guarded_always _) h

lemma ledger_chunks (l : Ledger) (id : ℕ) (events : List FileEvent) :
    (events.foldl Ledger.next l).chunks id = l.chunks id ++ chunksOf id events := by
  induction events generalizing l with
  | nil => simp [chunksOf]
  | cons e events ih =>
    rw [List.foldl_cons, ih]
    cases e with
    | recv i r =>
      rcases eq_or_ne i id with rfl | hne
      · simp [Ledger.next, chunksOf]
      · simp [Ledger.next, chunksOf, hne, hne.symm]
    | _ => simp [Ledger.next, chunksOf]

/-- A unit without an author is a timestamp line. -/
lemma ledger_timestamps (events : List FileEvent) :
    ∀ u ∈ (events.foldl Ledger.next .empty).units, u.author = none →
      ∃ currTime, u.bytes = timestampLine currTime := by
  induction events using List.reverseRecOn with
  | nil => simp [Ledger.empty]
  | append_singleton events e ih =>
    rw [List.foldl_append]
    intro u hu hauthor
    cases e with
    | dump id =>
      simp only [List.foldl_cons, List.foldl_nil, Ledger.next, List.mem_append,
        List.mem_singleton] at hu
      rcases hu with hu | rfl
      · exact ih u hu hauthor
      · simp at hauthor
    | timestamp currTime =>
      simp only [List.foldl_cons, List.foldl_nil, Ledger.next, List.mem_append,
        List.mem_singleton] at hu
      rcases hu with hu | rfl
      · exact ih u hu hauthor
      · exact ⟨currTime, rfl⟩
    | _ => exact ih u hu hauthor

lemma Records.unflushed {s : FileServer} {l : Ledger} (h : Records s l) (id : ℕ) :
    s.unflushed id = l.pending id := by
  have hid := h.conn id
  unfold FileServer.unflushed
  cases hc : s.conn id with
  | none =>
    rw [hc] at hid
    exact hid.2.symm
  | some c =>
    rw [hc] at hid
    obtain ⟨w, phase⟩ := c
    have hread : ∀ acc : Bytes, w.Holds acc → w.buffer.take w.totalBytesReceived.toNat = acc := by
      intro acc hw
      rw [hw.total, Int.toNat_natCast, hw.bytes]
    cases phase with
    | receiving => exact hread _ hid.2.1
    | dumping => exact hread _ hid.2
    | replying => exact hid.2.symm
    | closed => exact hread _ hid.2

/-- The units of a connection are its complete pieces, but for one that is still to be
appended. -/
lemma Records.pieces {s : FileServer} {l : Ledger} (h : Records s l) (id : ℕ) :
    (s.phase id ≠ some .dumping ∧ l.Settled id) ∨ (s.phase id = some .dumping ∧ l.Due id) := by
  have hid := h.conn id
  unfold FileServer.phase
  cases hc : s.conn id with
  | none =>
    rw [hc] at hid
    exact Or.inl ⟨by simp, hid.1⟩
  | some c =>
    rw [hc] at hid
    obtain ⟨w, phase⟩ := c
    cases phase with
    | receiving => exact Or.inl ⟨by simp, hid.1⟩
    | dumping => exact Or.inr ⟨by simp, hid.1⟩
    | replying => exact Or.inl ⟨by simp, hid.1⟩
    | closed => exact Or.inl ⟨by simp, hid.1⟩

/-- The file, as units of which each is a timestamp line or one of the pieces of a
connection; what a connection has not flushed holds no line feed, except while the piece
it has just completed waits to be appended. -/
structure Serial (s : FileServer) (events : List FileEvent) (units : List FileUnit) : Prop where
  file : s.file = (units.map FileUnit.bytes).flatten
  timestamps : ∀ u ∈ units, u.author = none → ∃ currTime, u.bytes = timestampLine currTime
  pieces : ∀ id, unitsBy id units <+: (cut (has newline) [] (chunksOf id events)).1
  stream : ∀ id, (unitsBy id units).flatten ++ s.unflushed id = (chunksOf id events).flatten
  unflushed : ∀ id, s.phase id ≠ some .dumping →
    newline ∉ s.unflushed id ∧ unitsBy id units = (cut (has newline) [] (chunksOf id events)).1

lemma run_serial {events : List FileEvent} {s : FileServer} {outs : List (Option (ℕ × Bytes))}
    (h : FileServer.start.run events = .ok (s, outs)) :
    Serial s events (events.foldl Ledger.next .empty).units := by
  have hrec := run_records h
  have hchunks : ∀ id, (events.foldl Ledger.next .empty).chunks id = chunksOf id events :=
    fun id => ledger_chunks .empty id events
  have htimes := ledger_timestamps events
  generalize events.foldl Ledger.next .empty = l at hrec hchunks htimes ⊢
  refine ⟨hrec.file, htimes, fun id => ?_, fun id => ?_, fun id hphase => ?_⟩
  · rw [← hchunks]
    rcases hrec.pieces id with ⟨-, hs⟩ | ⟨-, hd⟩
    · rw [hs]
    · rw [hd]
      exact List.prefix_append _ _
  · have hflat : (cut (has newline) [] (l.chunks id)).1.flatten ++ _ = _ := cut_flatten [] _
    rw [hrec.unflushed, ← hchunks]
    rcases hrec.pieces id with ⟨-, hs⟩ | ⟨-, hd⟩
    · rw [hs] at hflat
      exact hflat
    · rw [hd] at hflat
      simpa using hflat
  · rw [hrec.unflushed, ← hchunks]
    rcases hrec.pieces id with ⟨-, hs⟩ | ⟨hd, -⟩
    · have hfree : newline ∉ (cut (has newline) [] (l.chunks id)).2 := rest_free newline _ (by simp)
      rw [hs] at hfree ⊢
      exact ⟨hfree, rfl⟩
    · exact absurd hd hphase

/-- No event takes anything from the file, and a reply is the file as it stands. -/
lemma step_file {s t : FileServer} {e : FileEvent} {o : Option (ℕ × Bytes)}
    (h : s.step e = .ok (t, o)) :
    s.file <+: t.file ∧ ∀ r, o = some r → r.2 = s.file ∧ s.phase r.1 = some .replying := by
  cases e with
  | accept id junk =>
    obtain ⟨-, rfl, rfl⟩ := step_accept h
    exact ⟨List.prefix_refl _, by simp⟩
  | recv id r =>
    obtain ⟨w, v, found, -, -, rfl, rfl⟩ := step_recv h
    exact ⟨List.prefix_refl _, by simp⟩
  | dump id =>
    obtain ⟨w, file, -, hfile, rfl, rfl⟩ := step_dump h
    refine ⟨?_, by simp⟩
    unfold dumpBufferToFile at hfile
    split_ifs at hfile
    rw [Except.ok.injEq] at hfile
    exact hfile ▸ List.prefix_append _ _
  | reply id junk =>
    obtain ⟨w, hc, rfl, rfl⟩ := step_reply h
    refine ⟨List.prefix_refl _, fun r hr => ?_⟩
    rw [← Option.some.inj hr]
    exact ⟨rfl, by simp [FileServer.phase, hc]⟩
  | timestamp currTime =>
    obtain ⟨rfl, rfl⟩ := step_timestamp h
    refine ⟨?_, by simp⟩
    rw [printTimeToFile_eq]
    exact List.prefix_append _ _
  | hangup id =>
    obtain ⟨w, -, rfl, rfl⟩ := step_hangup h
    exact ⟨List.prefix_refl _, by simp⟩

lemma replies_grow {s t : FileServer} {events : List FileEvent}
    {outs : List (Option (ℕ × Bytes))} (h : s.run events = .ok (t, outs)) :
    (∀ r ∈ outs.reduceOption, s.file <+: r.2) ∧
      outs.reduceOption.Pairwise fun r r' => r.2 <+: r'.2 := by
  induction events generalizing s outs with
  | nil =>
    rw [FileServer.run, run_nil, Except.ok.injEq, Prod.mk.injEq] at h
    simp [← h.2]
  | cons e events ih =>
    obtain ⟨u, o, os, hstep, hrest, rfl⟩ := run_cons_ok.mp h
    obtain ⟨hgrow, hreply⟩ := step_file hstep
    obtain ⟨hlater, hpairs⟩ := ih hrest
    cases o with
    | none =>
      rw [List.reduceOption_cons_of_none]
      exact ⟨fun r hr => hgrow.trans (hlater r hr), hpairs⟩
    | some r =>
      rw [List.reduceOption_cons_of_some]
      obtain ⟨hr, -⟩ := hreply r rfl
      refine ⟨fun r' hr' => ?_, List.pairwise_cons.mpr ⟨fun r' hr' => ?_, hpairs⟩⟩
      · rcases List.mem_cons.mp hr' with rfl | hr'
        · rw [hr]
        · exact hgrow.trans (hlater r' hr')
      · rw [hr]
        exact hgrow.trans (hlater r' hr')

/-- File-mode serializability, for every interleaving that stays inside the buffers. The
file is made of whole units; the units of a connection are its complete pieces in order;
each reply is the whole file at one instant, holds everything the connection had sent by
then, and is a prefix of every later reply. -/
theorem serializable (events : List FileEvent) (s : FileServer) (outs : List (Option (ℕ × Bytes)))
    (h : FileServer.start.run events = .ok (s, outs)) :
    (∃ units, Serial s events units) ∧
      (∀ before r after, outs = before ++ some r :: after →
        ∃ events₁ e events₂ t units, events = events₁ ++ e :: events₂ ∧
          FileServer.start.run events₁ = .ok (t, before) ∧ r.2 = t.file ∧
          Serial t events₁ units ∧
          (unitsBy r.1 units).flatten = (chunksOf r.1 events₁).flatten) ∧
      outs.reduceOption.Pairwise fun r r' => r.2 <+: r'.2 := by
  refine ⟨⟨_, run_serial h⟩, fun before r after houts => ?_, (replies_grow h).2⟩
  rw [houts] at h
  obtain ⟨events₁, e, events₂, t, u, hsplit, hrun, hstep, -⟩ := run_output h
  obtain ⟨-, hreply⟩ := step_file hstep
  obtain ⟨hr, hphase⟩ := hreply r rfl
  have hserial := run_serial hrun
  refine ⟨events₁, e, events₂, t, _, hsplit, hrun, hr, hserial, ?_⟩
  have hstream := hserial.stream r.1
  have hflushed : t.unflushed r.1 = [] := by
    obtain ⟨c, hc, hcphase⟩ := Option.map_eq_some_iff.mp hphase
    obtain ⟨w, phase⟩ := c
    simp only at hcphase
    simp [FileServer.unflushed, hc, hcphase]
  rwa [hflushed, List.append_nil] at hstream

/-- One line, with a timestamp before it is appended. -/
def oneLine : List FileEvent :=
  [.accept 1 0, .recv 1 ⟨[97, 10], 0⟩, .timestamp [48], .dump 1, .reply 1 0]

theorem serializable_one_line :
    ∃ s outs, FileServer.start.run oneLine = .ok (s, outs) ∧
      outs.reduceOption = [(1, timestampLine [48] ++ [97, 10])] ∧
      (∃ units, Serial s oneLine units) ∧
      outs.reduceOption.Pairwise fun r r' => r.2 <+: r'.2 := by
  have hrun : (FileServer.start.run oneLine).toOption.map (fun p => p.2.reduceOption) =
      some [(1, timestampLine [48] ++ [97, 10])] := by decide +kernel
  cases h : FileServer.start.run oneLine with
  | error e => simp [h, Except.toOption] at hrun
  | ok p =>
    have houts : p.2.reduceOption = [(1, timestampLine [48] ++ [97, 10])] := by
      simpa [h, Except.toOption] using hrun
    have hserial := serializable oneLine p.1 p.2 h
    exact ⟨p.1, p.2, rfl, houts, hserial.1, hserial.2.2⟩

end Aesd
