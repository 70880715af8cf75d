import Aesd.DriverLeaks
import Aesd.DriverSeek
import Aesd.SeekCommand

/-! The read-out of `dump_file_to_socket` on the device, one `lseek` and `read` after the
other, among the writes of other connections. No lock covers it, and each step goes on at
the offset where the last one ended. -/
namespace Aesd
open AesdDev Machine Memory

/-- All that the device retains, oldest entry first. -/
def held (d : AesdDev) : Bytes := (retained d).flatten

lemma held_eq {d : AesdDev} (hv : d.Valid) : held d = d.store.contents := by
  rw [held, CommandStore.contents, store_commands hv, retained]

/-- The locals of a read-out, the bytes it has sent, and what the device has held at the
instants since it began. -/
structure Dump where
  fpos : ℤ
  currFileOffset : ℤ
  sent : Bytes
  seen : List Bytes

structure DeviceDump where
  dev : AesdDev
  dump : Option Dump

inductive DumpEvent
  | write (buf : Bytes) (answers : WriteAnswers)
  | openFile
  | lseekRead

namespace DeviceDump

/-- The output is the reply of a read-out that has come to its end. -/
def step (s : DeviceDump) : DumpEvent → Except Stop (DeviceDump × Option Bytes)
  | .write buf a => do
    let written ← aesdWrite s.dev buf a
    .ok (⟨written.1, s.dump.map fun r => { r with seen := r.seen ++ [held written.1] }⟩, none)
  | .openFile =>
    match s.dump with
    | some _ => .error .blocked
    | none => .ok (⟨s.dev, some ⟨0, 0, [], [held s.dev]⟩⟩, none)
  | .lseekRead =>
    match s.dump with
    | none => .error .blocked
    | some r => do
      let got ← aesdRead s.dev 100 (aesdLlseek s.dev r.fpos r.currFileOffset 0).1 0
      if got.retval > 0 then
        .ok (⟨s.dev, some { r with
          fpos := got.fpos
          currFileOffset := r.currFileOffset + got.retval
          sent := r.sent ++ got.delivered }⟩, none)
      else .ok (⟨s.dev, none⟩, some r.sent)

lemma lseekRead_eq {s : DeviceDump} {r : Dump} {got : ReadResult} (hdump : s.dump = some r)
    (hgot : aesdRead s.dev 100 (aesdLlseek s.dev r.fpos r.currFileOffset 0).1 0 = .ok got) :
    s.step .lseekRead = if got.retval > 0 then
        .ok (⟨s.dev, some ⟨got.fpos, r.currFileOffset + got.retval, r.sent ++ got.delivered, r.seen⟩⟩,
          none)
      else .ok (⟨s.dev, none⟩, some r.sent) := by
  simp only [step, hdump]
  rw [hgot]
  rfl

lemma dumpDeviceFrom_steps {d : AesdDev} {fuel : ℕ} {rest : Bytes} (r : Dump)
    (h : dumpDeviceFrom d fuel r.fpos r.currFileOffset = .ok rest) :
    ∃ n, run step ⟨d, some r⟩ (List.replicate (n + 1) .lseekRead) =
      .ok (⟨d, none⟩, List.replicate n none ++ [some (r.sent ++ rest)]) := by
  induction fuel generalizing r rest with
  | zero => simp [dumpDeviceFrom] at h
  | succ fuel ih =>
    obtain ⟨got, hgot, h⟩ := bind_eq_ok.mp h
    split_ifs at h with hmore
    · obtain ⟨later, hlater, h⟩ := bind_eq_ok.mp h
      rw [Except.ok.injEq] at h
      subst h
      obtain ⟨n, hrun⟩ := ih ⟨got.fpos, r.currFileOffset + got.retval, r.sent ++ got.delivered, r.seen⟩
        hlater
      have hstep := (@lseekRead_eq ⟨d, some r⟩ r got rfl hgot).trans (if_pos hmore)
      refine ⟨n + 1, ?_⟩
      rw [List.replicate_succ, run_cons_ok]
      refine ⟨_, _, _, hstep, hrun, ?_⟩
      rw [List.append_assoc, List.replicate_succ, List.cons_append]
    · rw [Except.ok.injEq] at h
      subst h
      have hstep := (@lseekRead_eq ⟨d, some r⟩ r got rfl hgot).trans (if_neg hmore)
      refine ⟨0, run_cons_ok.mpr ⟨_, _, _, hstep, rfl, ?_⟩⟩
      simp

/-- With no write in between these steps are `dump_file_to_socket`. -/
theorem dumpDeviceToSocket_steps {d : AesdDev} {reply : Bytes}
    (h : dumpDeviceToSocket d = .ok reply) :
    ∃ n, run step ⟨d, none⟩ (.openFile :: List.replicate (n + 1) .lseekRead) =
      .ok (⟨d, none⟩, none :: (List.replicate n none ++ [some reply])) := by
  obtain ⟨n, hrun⟩ := dumpDeviceFrom_steps ⟨0, 0, [], [held d]⟩ h
  exact ⟨n, run_cons_ok.mpr ⟨_, _, _, rfl, hrun, rfl⟩⟩

/-- What the device holds after a write. -/
def heldAfter (d : AesdDev) (buf : Bytes) (a : WriteAnswers) : Bytes :=
  if d.lock = false ∧ Commits buf a then (d.store.write buf).contents else held d

/-- A write has some bytes and gets identities that are not live, and what the device holds
can be counted in a signed word. -/
def Ordinary (s : DeviceDump) : DumpEvent → Prop
  | .write buf a => buf ≠ [] ∧ (Call.write 0 buf a).Fresh s.dev
  | .openFile => True
  | .lseekRead => (held s.dev).length < 2 ^ 63

/-- What has been sent is still the beginning of what the device holds after the write; or
nothing is left to read, neither before the write nor after it. -/
def KeepsSent (s : DeviceDump) : DumpEvent → Prop
  | .write buf a => ∀ r ∈ s.dump, r.sent <+: heldAfter s.dev buf a ∨
      (held s.dev).length ≤ r.sent.length ∧ (heldAfter s.dev buf a).length ≤ r.sent.length
  | _ => True

/-- No write drops an entry once a read-out has sent something. -/
def DropsNothing (s : DeviceDump) : DumpEvent → Prop
  | .write buf a => ∀ r ∈ s.dump, r.sent ≠ [] → s.dev.lock = false → Commits buf a →
      s.dev.circBuf.entries.length < 10
  | _ => True

/-- A reply is what the device has held at some instant of the read-out. -/
def RepliesWithInstant (s : DeviceDump) (e : DumpEvent) : Prop :=
  ∀ r ∈ s.dump, ∀ t reply, s.step e = .ok (t, some reply) → reply ∈ r.seen

instance (s : DeviceDump) (e : DumpEvent) : Decidable (s.Ordinary e) :=
  match e with
  | .write buf a => inferInstanceAs (Decidable (buf ≠ [] ∧ (Call.write 0 buf a).Fresh s.dev))
  | .openFile => .isTrue trivial
  | .lseekRead => inferInstanceAs (Decidable ((held s.dev).length < 2 ^ 63))

instance (s : DeviceDump) (e : DumpEvent) : Decidable (s.DropsNothing e) :=
  match e with
  | .write buf a => inferInstanceAs (Decidable (∀ r ∈ s.dump, r.sent ≠ [] → s.dev.lock = false →
      Commits buf a → s.dev.circBuf.entries.length < 10))
  | .openFile => .isTrue trivial
  | .lseekRead => .isTrue trivial

instance (s : DeviceDump) (e : DumpEvent) : Decidable (s.RepliesWithInstant e) :=
  decidable_of_iff (∀ r ∈ s.dump, ∀ p ∈ (s.step e).toOption, ∀ reply ∈ p.2, reply ∈ r.seen) <| by
    cases h : s.step e with
    | error e => simp [RepliesWithInstant, h, Except.toOption]
    | ok p =>
      simp only [RepliesWithInstant, h, Except.toOption, Except.ok.injEq, Option.mem_some_iff,
        forall_eq']
      refine forall₂_congr fun r _ => ⟨?_, fun hall reply ho => hall p.1 reply (Prod.ext rfl ho)⟩
      rintro hall t reply rfl
      exact hall reply rfl

/-- The read-out is at the end of what it has sent, and this is the beginning of what the
device holds now; or nothing is left to read, and it is what the device has held before. -/
structure InStep (s : DeviceDump) : Prop where
  valid : s.dev.Valid
  offset : ∀ r ∈ s.dump, r.currFileOffset = r.sent.length ∧ r.sent.length < 2 ^ 63
  now : ∀ r ∈ s.dump, held s.dev ∈ r.seen
  sent : ∀ r ∈ s.dump, r.sent <+: held s.dev ∨
    (held s.dev).length ≤ r.sent.length ∧ r.sent ∈ r.seen

lemma write_held {d d' : AesdDev} {buf : Bytes} {a : WriteAnswers} {ret : ℤ} (hv : d.Valid)
    (hbuf : buf ≠ []) (hfresh : (Call.write 0 buf a).Fresh d)
    (hd : aesdWrite d buf a = .ok (d', ret)) : d'.Valid ∧ held d' = heldAfter d buf a := by
  cases hfree : d.lock with
  | true =>
    have hsame : d' = d := by
      cases aesdWrite_outcome hd with
      | interrupted => rfl
      | _ hunlocked => simp [hfree] at hunlocked
    subst hsame
    exact ⟨hv, by simp [heldAfter, hfree]⟩
  | false =>
    obtain ⟨u, hu, hdone, hshort⟩ := aesdWrite_spec hv hfree (granted_of_ok hfree hbuf hfresh hd) buf
    by_cases hz : min a.uncopied buf.length = 0
    · obtain ⟨hw, -, hstore⟩ := hdone hz
      rw [hd, Except.ok.injEq, Prod.mk.injEq] at hw
      rw [← hw.1] at hu hstore
      refine ⟨hu, ?_⟩
      rw [held_eq hu, hstore, heldAfter, held_eq hv]
      by_cases hn : newline ∈ buf
      · rw [if_pos ⟨hfree, hz, hn⟩]
      · rw [if_neg fun h => hn h.2.2, CommandStore.write_open _ hn]
        rfl
    · obtain ⟨hw, -, hstore⟩ := hshort hz
      rw [hd, Except.ok.injEq, Prod.mk.injEq] at hw
      rw [← hw.1] at hu hstore
      refine ⟨hu, ?_⟩
      rw [held_eq hu, hstore, heldAfter, if_neg fun h => hz h.2.1, held_eq hv]

/-- One `lseek` and `read`: the next bytes, or none when there are no more. -/
lemma lseekRead_spec {d : AesdDev} (hv : d.Valid) (hD : (held d).length < 2 ^ 63) (fpos : ℤ)
    {pos : ℕ} (hpos : pos < 2 ^ 63) :
    ∃ n : ℕ, aesdRead d 100 (aesdLlseek d fpos pos 0).1 0 =
        .ok ⟨n, (pos + n : ℕ), ((held d).drop pos).take n⟩ ∧
      (n = 0 ↔ (held d).length ≤ pos) ∧ (pos ≤ (held d).length → pos + n ≤ (held d).length) := by
  rw [held_eq hv] at hD ⊢
  refine ⟨d.store.readLength pos 100, ?_, ?_, fun hle => CommandStore.readLength_le _ hle 100⟩
  · rw [aesdLlseek_set d fpos hpos]
    exact read_spec hv hD hpos rfl
  · constructor
    · intro hnone
      by_contra hlt
      have hsome := CommandStore.readLength_pos (not_le.mp hlt) (show 0 < 100 by omega)
      omega
    · exact fun hpast => CommandStore.readLength_past hpast 100

lemma step_write {s t : DeviceDump} {buf : Bytes} {a : WriteAnswers} {o : Option Bytes}
    (hs : s.InStep) (ha : s.Ordinary (.write buf a)) (hg : s.KeepsSent (.write buf a))
    (h : s.step (.write buf a) = .ok (t, o)) : t.InStep := by
  obtain ⟨⟨d', ret⟩, hw, h⟩ := bind_eq_ok.mp h
  rw [Except.ok.injEq, Prod.mk.injEq] at h
  obtain ⟨rfl, -⟩ := h
  obtain ⟨hv, hheld⟩ := write_held hs.valid ha.1 ha.2 hw
  refine ⟨hv, fun r' hr => ?_, fun r' hr => ?_, fun r' hr => ?_⟩
  all_goals obtain ⟨r, hold, rfl⟩ := Option.map_eq_some_iff.mp hr
  · exact hs.offset r hold
  · simp
  · dsimp only
    rw [hheld]
    rcases hg r hold with hkept | ⟨hbefore, hafter⟩
    · exact Or.inl hkept
    · refine Or.inr ⟨hafter, List.mem_append_left _ ?_⟩
      rcases hs.sent r hold with hsent | ⟨-, hsent⟩
      · rw [hsent.eq_of_length_le hbefore]
        exact hs.now r hold
      · exact hsent

/-- A round that reads nothing ends the read-out; what it has sent is what the device held at
one instant. -/
lemma lseekRead_ends {s : DeviceDump} {r : Dump} (hs : s.InStep) (hdump : s.dump = some r)
    (hend : (held s.dev).length ≤ r.sent.length) : r.sent ∈ r.seen := by
  have hnow := hs.now r hdump
  rcases hs.sent r hdump with hsent | ⟨-, hsent⟩
  · rw [hsent.eq_of_length_le hend]
    exact hnow
  · exact hsent

/-- A round that reads something goes on with what the device holds. -/
lemma lseekRead_more {s : DeviceDump} {r : Dump} (hs : s.InStep) (hdump : s.dump = some r)
    (hsmall : (held s.dev).length < 2 ^ 63) {n : ℕ} (hlt : r.sent.length < (held s.dev).length)
    (hle : r.sent.length + n ≤ (held s.dev).length) :
    let sent := r.sent ++ ((held s.dev).drop r.sent.length).take n
    sent <+: held s.dev ∧
      DeviceDump.InStep ⟨s.dev, some ⟨(r.sent.length + n : ℕ), r.currFileOffset + n, sent, r.seen⟩⟩ := by
  obtain ⟨hoff, hpos⟩ := hs.offset r hdump
  have hsent : r.sent <+: held s.dev := by
    rcases hs.sent r hdump with hsent | ⟨hpast, -⟩
    · exact hsent
    · omega
  have hmore : r.sent ++ ((held s.dev).drop r.sent.length).take n =
      (held s.dev).take (r.sent.length + n) := by
    rw [List.take_add, ← List.prefix_iff_eq_take.mp hsent]
  have hlen : (r.sent ++ ((held s.dev).drop r.sent.length).take n).length = r.sent.length + n := by
    rw [hmore, List.length_take, min_eq_left hle]
  have hahead : r.sent ++ ((held s.dev).drop r.sent.length).take n <+: held s.dev :=
    hmore ▸ List.take_prefix _ _
  refine ⟨hahead, hs.valid, fun r' hr => ?_, fun r' hr => ?_, fun r' hr => ?_⟩
  all_goals
    rw [Option.mem_some_iff] at hr
    subst hr
  · refine ⟨?_, ?_⟩
    · dsimp only
      rw [hlen, hoff, Nat.cast_add]
    · dsimp only
      rw [hlen]
      exact hle.trans_lt hsmall
  · exact hs.now r hdump
  · exact Or.inl hahead

lemma step_lseekRead {s t : DeviceDump} {o : Option Bytes} (hs : s.InStep)
    (ha : s.Ordinary .lseekRead) (h : s.step .lseekRead = .ok (t, o)) :
    t.InStep ∧ s.RepliesWithInstant .lseekRead ∧ ∀ r ∈ t.dump, r.sent <+: held t.dev := by
  cases hdump : s.dump with
  | none => simp [step, hdump] at h
  | some r =>
    obtain ⟨hoff, hpos⟩ := hs.offset r hdump
    obtain ⟨n, hread, hnone, hle⟩ := lseekRead_spec hs.valid ha r.fpos hpos
    rw [← hoff] at hread
    have hstep := lseekRead_eq hdump hread
    dsimp only at hstep
    rw [hstep] at h
    by_cases hz : n = 0
    · rw [if_neg (by omega), Except.ok.injEq, Prod.mk.injEq] at h
      obtain ⟨rfl, -⟩ := h
      refine ⟨⟨hs.valid, by simp, by simp, by simp⟩, fun r' hr u reply hreply => ?_, by simp⟩
      rw [hdump, Option.mem_some_iff] at hr
      subst hr
      rw [hstep, if_neg (by omega), Except.ok.injEq, Prod.mk.injEq, Option.some.injEq] at hreply
      rw [← hreply.2]
      exact lseekRead_ends hs hdump (hnone.mp hz)
    · rw [if_pos (by omega), Except.ok.injEq, Prod.mk.injEq] at h
      obtain ⟨rfl, -⟩ := h
      have hlt := not_le.mp (hnone.not.mp hz)
      obtain ⟨hahead, ht⟩ := lseekRead_more hs hdump ha hlt (hle hlt.le)
      refine ⟨ht, fun r' hr u reply hreply => ?_, fun r' hr => ?_⟩
      · rw [hstep, if_pos (by omega), Except.ok.injEq, Prod.mk.injEq] at hreply
        simp at hreply
      · rw [Option.mem_some_iff] at hr
        exact hr ▸ hahead

lemma step_openFile {s t : DeviceDump} {o : Option Bytes} (hs : s.InStep)
    (h : s.step .openFile = .ok (t, o)) : t.InStep ∧ ∀ r ∈ t.dump, r.sent <+: held t.dev := by
  cases hdump : s.dump with
  | some r => simp [step, hdump] at h
  | none =>
    simp only [step, hdump, Except.ok.injEq, Prod.mk.injEq] at h
    obtain ⟨rfl, -⟩ := h
    refine ⟨⟨hs.valid, ?_, ?_, ?_⟩, ?_⟩
    all_goals
      intro r hr
      rw [Option.mem_some_iff] at hr
      subst hr
    · exact ⟨rfl, by norm_num⟩
    · exact List.mem_singleton_self _
    · exact Or.inl List.nil_prefix
    · exact List.nil_prefix

lemma step_inStep {s t : DeviceDump} {e : DumpEvent} {o : Option Bytes} (hs : s.InStep)
    (ha : s.Ordinary e) (hg : s.KeepsSent e) (h : s.step e = .ok (t, o)) : t.InStep := by
  cases e with
  | write buf a => exact step_write hs ha hg h
  | openFile => exact (step_openFile hs h).1
  | lseekRead => exact (step_lseekRead hs ha h).1

lemma InStep.replies {s : DeviceDump} {e : DumpEvent} (hs : s.InStep) (ha : s.Ordinary e) :
    s.RepliesWithInstant e := by
  intro r hr t reply h
  cases e with
  | write buf a =>
    obtain ⟨_, -, hnone⟩ := bind_eq_ok.mp h
    simp at hnone
  | openFile => simp [step, Option.mem_def.mp hr] at h
  | lseekRead => exact (step_lseekRead hs ha h).2.1 r hr t reply h

/-- A write that drops no entry only adds at the end. -/
lemma heldAfter_append {d : AesdDev} (hv : d.Valid) {buf : Bytes} {a : WriteAnswers}
    (h : d.lock = false → Commits buf a → d.circBuf.entries.length < 10) :
    held d <+: heldAfter d buf a := by
  rw [heldAfter]
  split_ifs with hc
  · have hlen : d.store.commands.length < 10 := by
      have hroom := h hc.1 hc.2
      simpa [store] using hroom
    rw [held_eq hv, CommandStore.write_closed _ hc.2.2, List.rtake, List.length_append,
      List.length_singleton, Nat.sub_eq_zero_of_le (by omega), List.drop_zero]
    simp [CommandStore.contents]
  · exact List.prefix_refl _

/-- As long as no entry is dropped, what has been sent stays the beginning. -/
lemma step_ahead {s t : DeviceDump} {e : DumpEvent} {o : Option Bytes}
    (hs : s.InStep ∧ ∀ r ∈ s.dump, r.sent <+: held s.dev) (ha : s.Ordinary e)
    (hg : s.DropsNothing e) :
    s.KeepsSent e ∧ (s.step e = .ok (t, o) → t.InStep ∧ ∀ r ∈ t.dump, r.sent <+: held t.dev) := by
  cases e with
  | write buf a =>
    have hkeeps : ∀ r ∈ s.dump, r.sent <+: heldAfter s.dev buf a := by
      intro r hr
      rcases eq_or_ne r.sent [] with hnil | hsome
      · exact hnil ▸ List.nil_prefix
      · exact (hs.2 r hr).trans (heldAfter_append hs.1.valid (hg r hr hsome))
    have hall : s.KeepsSent (.write buf a) := fun r hr => Or.inl (hkeeps r hr)
    refine ⟨hall, fun h => ⟨step_write hs.1 ha hall h, fun r' hr => ?_⟩⟩
    obtain ⟨⟨d', ret⟩, hw, h⟩ := bind_eq_ok.mp h
    rw [Except.ok.injEq, Prod.mk.injEq] at h
    obtain ⟨rfl, -⟩ := h
    obtain ⟨r, hold, rfl⟩ := Option.map_eq_some_iff.mp hr
    dsimp only
    rw [(write_held hs.1.valid ha.1 ha.2 hw).2]
    exact hkeeps r hold
  | openFile => exact ⟨trivial, step_openFile hs.1⟩
  | lseekRead =>
    refine ⟨trivial, fun h => ?_⟩
    obtain ⟨ht, -, hahead⟩ := step_lseekRead hs.1 ha h
    exact ⟨ht, hahead⟩

/-- When a reply is what the device has held at one instant of the read-out: in every run
whose writes leave what has been sent the beginning of what the device holds, or find and
leave nothing to read. Writes that drop no entry do. -/
theorem reply_instant (circ entry : Alloc) {d : AesdDev} (hne : circ.addr ≠ entry.addr)
    (hd : aesdSetupCdev (some circ) (some entry) = .ok d) (events : List DumpEvent)
    (ha : Guarded step Ordinary ⟨d, none⟩ events) :
    (Guarded step KeepsSent ⟨d, none⟩ events → Guarded step RepliesWithInstant ⟨d, none⟩ events) ∧
      (Guarded step DropsNothing ⟨d, none⟩ events → Guarded step KeepsSent ⟨d, none⟩ events) := by
  have hv : d.Valid := (setup_standsFor hne hd fun _ => 0).valid
  have hstart : InStep ⟨d, none⟩ := ⟨hv, by simp, by simp, by simp⟩
  constructor
  · intro hg
    exact (guarded_and.mpr ⟨ha, hg⟩).imp InStep (fun s e hs h => hs.replies h.1)
      (fun s e t o hs h hstep => step_inStep hs h.1 h.2 hstep) hstart
  · intro hg
    exact (guarded_and.mpr ⟨ha, hg⟩).imp
      (fun s => s.InStep ∧ ∀ r ∈ s.dump, r.sent <+: held s.dev)
      (fun s e hs h => (@step_ahead s s e none hs h.1 h.2).1)
      (fun s e t o hs h hstep => (step_ahead hs h.1 h.2).2 hstep) ⟨hstart, by simp⟩

/-- The state set-up builds, and no read-out. -/
def fresh : DeviceDump := ⟨DriverState.fresh.dev, none⟩

/-- A line is added while a reply is read out. -/
def addedLine : List DumpEvent :=
  [.write [97, 10] (granting 3 4), .openFile, .lseekRead, .write [98, 10] (granting 5 6), .lseekRead,
    .lseekRead]

theorem reply_instant_added_line : Guarded step RepliesWithInstant fresh addedLine := by
  obtain ⟨hreplies, hkeeps⟩ := reply_instant ⟨1, 0⟩ ⟨2, 0⟩ (by decide) DriverState.fresh_setup addedLine
    (by decide +kernel)
  exact hreplies (hkeeps (by decide +kernel))

/-- Ten lines are retained, and an eleventh drops the first while a reply is read out. -/
def droppedLine : List DumpEvent :=
  (List.range 10).map (fun i => .write [.ofNat (97 + i), 10] (granting (2 * i + 3) (2 * i + 4))) ++
    [.openFile, .lseekRead, .write [107, 10] (granting 23 24)] ++ List.replicate 10 .lseekRead

theorem reply_instant_dropped_line :
    ¬ ∀ events, Guarded step Ordinary fresh events → Guarded step RepliesWithInstant fresh events := by
  intro h
  have hall := h droppedLine (by decide +kernel)
  exact absurd hall (by decide +kernel)

end DeviceDump

end Aesd
