import Aesd.FileServer

/-! What one connection adds to the file and how often it is answered, among any other
events. Both follow the chunks in which the stream arrives: a chunk that holds a line
feed is flushed whole and answered once. -/
namespace Aesd
open Cut FileServer Machine

/-- The bytes the appends of a connection add to the file during a run. -/
def appendedBy (id : ℕ) : FileServer → List FileEvent → Bytes
  | _, [] => []
  | s, e :: events =>
    match s.step e with
    | .error _ => []
    | .ok (t, _) =>
      match e with
      | .dump i =>
        (if i = id then t.file.drop s.file.length else []) ++ appendedBy id t events
      | _ => appendedBy id t events

def repliesTo (id : ℕ) (outs : List (Option (ℕ × Bytes))) : List (ℕ × Bytes) :=
  outs.reduceOption.filter fun r => r.1 = id

/-- One reply is owed between an append and its read-out. -/
def FileServer.owed (s : FileServer) (id : ℕ) : ℕ :=
  if s.phase id = some .replying then 1 else 0

lemma owed_setConn (s : FileServer) (i id : ℕ) (c : Connection) :
    (s.setConn i c).owed id =
      if id = i then if c.phase = .replying then 1 else 0 else s.owed id := by
  simp only [FileServer.owed, FileServer.phase, FileServer.setConn, Function.update_apply]
  split_ifs <;> simp_all

lemma owed_of_conn {s : FileServer} {i : ℕ} {c : Option Connection} (h : s.conn i = c) :
    s.owed i = if c.map Connection.phase = some .replying then 1 else 0 := by
  rw [← h]
  rfl

/-- What an event adds to the units of a connection. -/
lemma unitsBy_next (l : Ledger) (e : FileEvent) (id : ℕ) :
    unitsBy id (l.next e).units =
      unitsBy id l.units ++
        match e with
        | .dump i => if i = id then [l.pending id] else []
        | _ => [] := by
  cases e with
  | dump i =>
    by_cases hi : i = id
    · subst hi
      simp [Ledger.next, unitsBy_self]
    · have hne : some i ≠ some id := fun he => hi (Option.some.inj he)
      simp [Ledger.next, unitsBy_other hne, hi]
  | timestamp currTime => simp [Ledger.next, unitsBy_other]
  | _ => simp [Ledger.next]

lemma dump_file {s t : FileServer} {l : Ledger} {id : ℕ} {o : Option (ℕ × Bytes)}
    (h : Records s l) (hstep : s.step (.dump id) = .ok (t, o)) :
    t.file = s.file ++ l.pending id := by
  obtain ⟨w, file, hc, hfile, rfl, -⟩ := step_dump hstep
  have hid := hc ▸ h.conn id
  rw [hid.2.dump, Except.ok.injEq] at hfile
  exact hfile.symm

/-- The appends of a connection are its units. -/
lemma appendedBy_eq {s t : FileServer} {l : Ledger} {events : List FileEvent}
    {outs : List (Option (ℕ × Bytes))} (h : Records s l) (hrun : s.run events = .ok (t, outs))
    (id : ℕ) :
    (unitsBy id (events.foldl Ledger.next l).units).flatten =
      (unitsBy id l.units).flatten ++ appendedBy id s events := by
  induction events generalizing s l outs with
  | nil => simp [appendedBy]
  | cons e events ih =>
    obtain ⟨u, o, os, hstep, hrest, -⟩ := run_cons_ok.mp hrun
    rw [List.foldl_cons, ih (step_records h hstep) hrest, unitsBy_next, appendedBy, hstep]
    cases e with
    | dump i =>
      by_cases hi : i = id
      · subst hi
        simp [dump_file h hstep]
      · simp [hi]
    | _ => simp

/-- Each append is answered by one reply before the next. -/
lemma step_owed {s t : FileServer} {e : FileEvent} {o : Option (ℕ × Bytes)} (l : Ledger)
    (id : ℕ) (hstep : s.step e = .ok (t, o)) :
    (repliesTo id [o]).length + (unitsBy id l.units).length + t.owed id =
      (unitsBy id (l.next e).units).length + s.owed id := by
  rw [unitsBy_next, List.length_append]
  cases e with
  | accept i junk =>
    obtain ⟨hc, rfl, rfl⟩ := step_accept hstep
    rw [owed_setConn]
    by_cases hi : id = i
    · simp [repliesTo, hi, owed_of_conn hc]
    · simp [repliesTo, hi]
  | recv i r =>
    obtain ⟨w, v, found, hc, -, rfl, rfl⟩ := step_recv hstep
    rw [owed_setConn]
    by_cases hi : id = i
    · cases found <;> simp [repliesTo, hi, owed_of_conn hc]
    · simp [repliesTo, hi]
  | dump i =>
    obtain ⟨w, file, hc, -, rfl, rfl⟩ := step_dump hstep
    rw [owed_setConn]
    by_cases hi : id = i
    · simp [repliesTo, hi, owed_of_conn hc]
    · have howed : ({ s with file := file } : FileServer).owed id = s.owed id := rfl
      simp [repliesTo, hi, Ne.symm hi, howed]
  | reply i junk =>
    obtain ⟨w, hc, rfl, rfl⟩ := step_reply hstep
    rw [owed_setConn]
    by_cases hi : id = i
    · simp [repliesTo, hi, owed_of_conn hc, List.reduceOption, Nat.add_comm]
    · simp [repliesTo, hi, Ne.symm hi, List.reduceOption]
  | timestamp currTime =>
    obtain ⟨rfl, rfl⟩ := step_timestamp hstep
    have howed : ({ s with file := printTimeToFile s.file currTime } : FileServer).owed id =
      s.owed id := rfl
    simp [repliesTo, howed]
  | hangup i =>
    obtain ⟨w, hc, rfl, rfl⟩ := step_hangup hstep
    rw [owed_setConn]
    by_cases hi : id = i
    · simp [repliesTo, hi, owed_of_conn hc]
    · simp [repliesTo, hi]

/-- A connection gets one reply for each unit, but for one that may still be owed. -/
lemma replies_units {s t : FileServer} (l : Ledger) {events : List FileEvent}
    {outs : List (Option (ℕ × Bytes))} (id : ℕ) (hrun : s.run events = .ok (t, outs)) :
    (repliesTo id outs).length + (unitsBy id l.units).length + t.owed id =
      (unitsBy id (events.foldl Ledger.next l).units).length + s.owed id := by
  induction events generalizing s l outs with
  | nil =>
    rw [FileServer.run, run_nil, Except.ok.injEq, Prod.mk.injEq] at hrun
    simp [← hrun.1, ← hrun.2, repliesTo]
  | cons e events ih =>
    obtain ⟨u, o, os, hstep, hrest, rfl⟩ := run_cons_ok.mp hrun
    have hfirst := step_owed l id hstep
    have hlater := ih (l.next e) hrest
    have hsplit : (repliesTo id (o :: os)).length =
        (repliesTo id [o]).length + (repliesTo id os).length := by
      rw [← List.length_append, repliesTo, repliesTo, repliesTo, ← List.filter_append,
        ← List.reduceOption_append]
      rfl
    rw [List.foldl_cons]
    omega

/-- What a run that has closed a connection has done for it: the connection has added its
stream up to the end of its last chunk with a line feed, and has been answered once for
each such chunk. -/
lemma closed_run {events : List FileEvent} {s : FileServer} {outs : List (Option (ℕ × Bytes))}
    (h : FileServer.start.run events = .ok (s, outs)) {id : ℕ}
    (hclosed : s.phase id = some .closed) :
    let stream := (chunksOf id events).flatten
    let ends := closingEnds (has newline) 0 (chunksOf id events)
    appendedBy id .start events = stream.take (ends.getLastD 0) ∧
      newline ∉ stream.drop (ends.getLastD 0) ∧ (repliesTo id outs).length = ends.length := by
  intro stream ends
  obtain ⟨hclosedPart, hopen⟩ := cut_take_drop (has newline) (chunksOf id events)
  have hunits := ((run_serial h).unflushed id (by simp [hclosed])).2
  have happended := appendedBy_eq start_records h id
  have hreplies := replies_units .empty id h
  have howed : s.owed id = 0 := by simp [FileServer.owed, hclosed]
  have hstart : FileServer.start.owed id = 0 := rfl
  have hnone : unitsBy id Ledger.empty.units = [] := rfl
  rw [hunits, hnone] at happended hreplies
  refine ⟨?_, ?_, ?_⟩
  · rw [← hclosedPart, happended]
    rfl
  · rw [← hopen]
    exact rest_free newline _ (by simp)
  · rw [howed, hstart, cut_count] at hreplies
    rw [closingEnds_length]
    simpa using hreplies

/-- When every line feed ends its chunk, the closed part of a stream ends in its last line
feed, and as many chunks close as there are line feeds. -/
lemma ends_of_final {chunks : List Bytes} (hf : ∀ c ∈ chunks, Final newline c) :
    let ends := closingEnds (has newline) 0 chunks
    (chunks.flatten.take (ends.getLastD 0) = [] ∨
        ∃ body, chunks.flatten.take (ends.getLastD 0) = body ++ [newline]) ∧
      ends.length = chunks.flatten.count newline := by
  intro ends
  obtain ⟨hclosedPart, -⟩ := cut_take_drop (has newline) chunks
  have hlines := cut_eq_lines newline [] hf
  rw [← hclosedPart, closingEnds_length, ← cut_count [], hlines, lines_count]
  refine ⟨?_, rfl⟩
  rcases List.eq_nil_or_concat (lines newline [] chunks.flatten).1 with hnil | ⟨init, last, hlast⟩
  · exact Or.inl (by rw [hnil, List.flatten_nil])
  · obtain ⟨body, -, hbody⟩ := lines_shape newline (by simp)
      (show last ∈ (lines newline [] chunks.flatten).1 by simp [hlast])
    refine Or.inr ⟨init.flatten ++ body, ?_⟩
    rw [hlast, List.concat_eq_append, List.flatten_append, hbody]
    simp

/-- Segmentation. After it has closed, a connection has appended its stream up to the end of
its last chunk with a line feed and got one reply for each such chunk. So two ways of
cutting a stream append the same bytes just when their last such chunks end at the same
position, and get as many replies just when they have as many such chunks. When every
line feed ends its chunk, the stream is appended up to its last line feed, and answered
once for each. -/
theorem segmentation_law (id : ℕ) (events₁ events₂ : List FileEvent) (s₁ s₂ : FileServer)
    (outs₁ outs₂ : List (Option (ℕ × Bytes)))
    (h₁ : FileServer.start.run events₁ = .ok (s₁, outs₁))
    (h₂ : FileServer.start.run events₂ = .ok (s₂, outs₂))
    (hclosed₁ : s₁.phase id = some .closed) (hclosed₂ : s₂.phase id = some .closed)
    (hstream : (chunksOf id events₁).flatten = (chunksOf id events₂).flatten) :
    let stream := (chunksOf id events₁).flatten
    let ends₁ := closingEnds (has newline) 0 (chunksOf id events₁)
    let ends₂ := closingEnds (has newline) 0 (chunksOf id events₂)
    appendedBy id .start events₁ = stream.take (ends₁.getLastD 0) ∧
      newline ∉ stream.drop (ends₁.getLastD 0) ∧
      (repliesTo id outs₁).length = ends₁.length ∧
      (appendedBy id .start events₁ = appendedBy id .start events₂ ↔
        ends₁.getLastD 0 = ends₂.getLastD 0) ∧
      ((repliesTo id outs₁).length = (repliesTo id outs₂).length ↔
        ends₁.length = ends₂.length) ∧
      ((∀ c ∈ chunksOf id events₁, Final newline c) →
        (appendedBy id .start events₁ = [] ∨
          ∃ body, appendedBy id .start events₁ = body ++ [newline]) ∧
        (repliesTo id outs₁).length = stream.count newline) := by
  intro stream ends₁ ends₂
  obtain ⟨happended₁, hrest₁, hreplies₁⟩ := closed_run h₁ hclosed₁
  obtain ⟨happended₂, -, hreplies₂⟩ := closed_run h₂ hclosed₂
  rw [← hstream] at happended₂
  refine ⟨happended₁, hrest₁, hreplies₁, ?_, by rw [hreplies₁, hreplies₂], fun hf => ?_⟩
  · have hle₁ : ends₁.getLastD 0 ≤ stream.length :=
      closingEnds_getLastD_le _ (chunksOf id events₁)
    have hle₂ : ends₂.getLastD 0 ≤ stream.length := by
      simp only [stream, hstream]
      exact closingEnds_getLastD_le _ (chunksOf id events₂)
    rw [happended₁, happended₂]
    constructor
    · intro h
      have hlen := congrArg List.length h
      rwa [List.length_take, List.length_take, min_eq_left hle₁, min_eq_left hle₂] at hlen
    · intro h
      exact congrArg stream.take h
  · rw [happended₁, hreplies₁]
    exact ends_of_final hf

lemma closes (id : ℕ) (events : List FileEvent)
    (h : (FileServer.start.run events).toOption.map (fun p => p.1.phase id) =
      some (some .closed)) :
    ∃ s outs, FileServer.start.run events = .ok (s, outs) ∧ s.phase id = some .closed := by
  cases hrun : FileServer.start.run events with
  | error e => simp [hrun, Except.toOption] at h
  | ok p => exact ⟨p.1, p.2, rfl, by simpa [hrun, Except.toOption] using h⟩

/-- A connection that sends one chunk, and is answered. -/
def oneChunk (bytes : Bytes) : List FileEvent :=
  [.accept 1 0, .recv 1 ⟨bytes, 0⟩, .dump 1, .reply 1 0, .hangup 1]

theorem segmentation_law_one_line :
    ∃ s₁ s₂ outs₁ outs₂, FileServer.start.run (oneChunk [97, 10]) = .ok (s₁, outs₁) ∧
      FileServer.start.run [.accept 1 0, .recv 1 ⟨[97], 0⟩, .recv 1 ⟨[10], 0⟩, .dump 1,
        .reply 1 0, .hangup 1] = .ok (s₂, outs₂) ∧
      appendedBy 1 .start (oneChunk [97, 10]) = appendedBy 1 .start
        [.accept 1 0, .recv 1 ⟨[97], 0⟩, .recv 1 ⟨[10], 0⟩, .dump 1, .reply 1 0, .hangup 1] ∧
      (repliesTo 1 outs₁).length = (repliesTo 1 outs₂).length := by
  obtain ⟨s₁, outs₁, h₁, hclosed₁⟩ := closes 1 (oneChunk [97, 10]) (by decide +kernel)
  obtain ⟨s₂, outs₂, h₂, hclosed₂⟩ := closes 1
    [.accept 1 0, .recv 1 ⟨[97], 0⟩, .recv 1 ⟨[10], 0⟩, .dump 1, .reply 1 0, .hangup 1]
    (by decide +kernel)
  have hlaw := segmentation_law 1 _ _ s₁ s₂ outs₁ outs₂ h₁ h₂ hclosed₁ hclosed₂ rfl
  exact ⟨s₁, s₂, outs₁, outs₂, h₁, h₂, hlaw.2.2.2.1.mpr rfl, hlaw.2.2.2.2.1.mpr rfl⟩

/-- A chunk that goes on behind its line feed is flushed whole. -/
theorem segmentation_law_open_tail :
    ¬ ∀ id events₁ events₂ s₁ s₂ outs₁ outs₂, FileServer.start.run events₁ = .ok (s₁, outs₁) →
      FileServer.start.run events₂ = .ok (s₂, outs₂) → s₁.phase id = some .closed →
      s₂.phase id = some .closed →
      (chunksOf id events₁).flatten = (chunksOf id events₂).flatten →
      appendedBy id .start events₁ = appendedBy id .start events₂ := by
  intro h
  obtain ⟨s₁, outs₁, h₁, hclosed₁⟩ := closes 1 (oneChunk [97, 10, 98]) (by decide +kernel)
  obtain ⟨s₂, outs₂, h₂, hclosed₂⟩ := closes 1
    [.accept 1 0, .recv 1 ⟨[97, 10], 0⟩, .dump 1, .reply 1 0, .recv 1 ⟨[98], 0⟩, .hangup 1]
    (by decide +kernel)
  have hsame := h 1 _ _ s₁ s₂ outs₁ outs₂ h₁ h₂ hclosed₁ hclosed₂ rfl
  revert hsame
  decide +kernel

end Aesd
