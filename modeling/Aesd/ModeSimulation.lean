import Aesd.DeviceServer
import Aesd.FileServer

/-! One client in either mode. The bytes of a message not yet finished lie in the worker's
buffer in file mode and in the driver in device mode; a line feed makes them a flush unit.
File mode answers with all units, device mode with the newest ten. -/
namespace Aesd
open Cut Machine Memory

/-- What one `recv` returned, and what either mode meets on the turn for it. -/
structure Arrival where
  bytes : Bytes
  junk : ℕ → UInt8
  bufferAddr : UInt64
  frame : Frame
  seekAnswers : IoctlAnswers
  writeAnswers : WriteAnswers

/-- The arrival as the device-mode worker of the one connection gets it. -/
def Arrival.chunk (a : Arrival) : Chunk :=
  ⟨0, a.bytes, a.bufferAddr, a.frame, a.seekAnswers, a.writeAnswers⟩

structure FileClient where
  worker : FileWorker
  file : Bytes

namespace FileClient

/-- The output file is deleted at the start. -/
def start (junk : ℕ → UInt8) : FileClient := ⟨.start junk, []⟩

/-- One turn of the worker's loop in file mode. The output is what it sends. -/
def step (s : FileClient) (a : Arrival) : Except Stop (FileClient × Bytes) := do
  let (w, found) ← s.worker.receive ⟨a.bytes, a.junk⟩
  if found then
    let file ← dumpBufferToFile s.file w.totalBytesReceived w.buffer
    let sent ← dumpFileToSocket file
    .ok (⟨w.reset a.junk, file⟩, sent)
  else .ok (⟨w, s.file⟩, [])

/-- The chunk stays inside the receive buffer, whose size stays an `int` if it has to grow. -/
structure Inside (s : FileClient) (a : Arrival) : Prop where
  room : s.worker.totalBytesReceived + a.bytes.length ≤ s.worker.buffer.length
  grows : newline ∉ a.bytes →
    ((s.worker.bufferPosition + a.bytes.length : ℕ) : ℤ) = s.worker.bufferSize →
    s.worker.bufferSize + BUFFER_SIZE ≤ INT_MAX

instance (s : FileClient) (a : Arrival) : Decidable (s.Inside a) :=
  decidable_of_iff (_ ∧ _) ⟨fun ⟨h₁, h₂⟩ => ⟨h₁, h₂⟩, fun ⟨h₁, h₂⟩ => ⟨h₁, h₂⟩⟩

/-- The file server with one connection, whose worker is about to receive. -/
def server (s : FileClient) : FileServer :=
  ⟨s.file, Function.update (fun _ => none) 0 (some ⟨s.worker, .receiving⟩)⟩

/-- A turn is what the file server does for its one connection. -/
lemma step_server {s t : FileClient} {a : Arrival} {sent : Bytes} (h : s.step a = .ok (t, sent)) :
    ∃ events outs, s.server.run events = .ok (t.server, outs) ∧ chunksOf 0 events = [a.bytes] ∧
      (outs.reduceOption.map Prod.snd).flatten = sent := by
  obtain ⟨⟨w, found⟩, hreceive, h⟩ := bind_eq_ok.mp h
  cases found with
  | false =>
    simp only [Bool.false_eq_true, if_false, Except.ok.injEq, Prod.mk.injEq] at h
    obtain ⟨rfl, rfl⟩ := h
    have hrecv : s.server.step (.recv 0 ⟨a.bytes, a.junk⟩) = .ok (server ⟨w, s.file⟩, none) := by
      simp [FileServer.step, server, hreceive, FileServer.setConn, bind, Except.bind]
    exact ⟨[.recv 0 ⟨a.bytes, a.junk⟩], _, run_cons_ok.mpr ⟨_, _, [], hrecv, rfl, rfl⟩, rfl, rfl⟩
  | true =>
    simp only [if_true] at h
    obtain ⟨file, hdump, h⟩ := bind_eq_ok.mp h
    obtain ⟨reply, hreply, h⟩ := bind_eq_ok.mp h
    simp only [Except.ok.injEq, Prod.mk.injEq] at h
    obtain ⟨rfl, rfl⟩ := h
    have hrecv : s.server.step (.recv 0 ⟨a.bytes, a.junk⟩) =
        .ok (s.server.setConn 0 ⟨w, .dumping⟩, none) := by
      simp [FileServer.step, server, hreceive, bind, Except.bind]
    have hdumped : (s.server.setConn 0 ⟨w, .dumping⟩).step (.dump 0) =
        .ok ({ s.server with file := file }.setConn 0 ⟨w, .replying⟩, none) := by
      simp [FileServer.step, server, FileServer.setConn, hdump, bind, Except.bind]
    have hreplied : ({ s.server with file := file }.setConn 0 ⟨w, .replying⟩).step (.reply 0 a.junk) =
        .ok (server ⟨w.reset a.junk, file⟩, some (0, reply)) := by
      simp [FileServer.step, server, FileServer.setConn, hreply, bind, Except.bind]
    refine ⟨[.recv 0 ⟨a.bytes, a.junk⟩, .dump 0, .reply 0 a.junk], _, run_cons_ok.mpr ⟨_, _, _, hrecv,
      run_cons_ok.mpr ⟨_, _, _, hdumped, run_cons_ok.mpr ⟨_, _, [], hreplied, rfl, rfl⟩, rfl⟩, rfl⟩,
      rfl, ?_⟩
    simp [List.reduceOption]

end FileClient

/-- One turn of the worker's loop in device mode. -/
def deviceStep (s : DeviceServer) (a : Arrival) : Except Stop (DeviceServer × Bytes) :=
  s.step a.chunk

/-- The flush units so far, and the bytes that are in none. -/
structure Progress where
  units : List Bytes
  rest : Bytes

namespace Progress

def next (p : Progress) (a : Arrival) : Progress :=
  if newline ∈ a.bytes then ⟨p.units ++ [p.rest ++ a.bytes], []⟩ else ⟨p.units, p.rest ++ a.bytes⟩

/-- A chunk with a line feed is answered with what the mode shows of the units. -/
def reply (view : List Bytes → Bytes) (p : Progress) (a : Arrival) : Bytes :=
  if newline ∈ a.bytes then view (p.next a).units else []

def fileView (units : List Bytes) : Bytes := units.flatten

def deviceView (units : List Bytes) : Bytes := (units.rtake 10).flatten

/-- The store that the device stands for. -/
def store (p : Progress) : CommandStore := ⟨p.units.rtake 10, p.rest⟩

lemma next_closed (p : Progress) {a : Arrival} (h : newline ∈ a.bytes) :
    p.next a = ⟨p.units ++ [p.rest ++ a.bytes], []⟩ := if_pos h

lemma next_open (p : Progress) {a : Arrival} (h : newline ∉ a.bytes) :
    p.next a = ⟨p.units, p.rest ++ a.bytes⟩ := if_neg h

lemma next_store (p : Progress) (a : Arrival) : (p.next a).store = p.store.write a.bytes := by
  by_cases h : newline ∈ a.bytes
  · rw [next_closed p h, CommandStore.write_closed _ h]
    simp only [store, SlotRing.rtake_append_rtake]
  · rw [next_open p h, CommandStore.write_open _ h]
    rfl

/-- Each unit is as short as file mode's buffer keeps it. -/
def Short (p : Progress) : Prop := ∀ u ∈ p.units, (u.length : ℤ) ≤ INT_MAX

/-- Ten short units can be counted in a signed word. -/
lemma Short.contents {p : Progress} (hp : p.Short) : p.store.contents.length < 2 ^ 63 := by
  have hlen : (p.units.rtake 10).length ≤ 10 := by
    rw [List.rtake, List.length_drop]
    omega
  have hsum : ((p.units.rtake 10).map List.length).sum ≤
      ((p.units.rtake 10).map List.length).length • (2 ^ 31) := by
    refine List.sum_le_card_nsmul _ _ fun n hn => ?_
    obtain ⟨u, hu, rfl⟩ := List.mem_map.mp hn
    have hshort := hp u (List.mem_of_mem_drop hu)
    simp only [INT_MAX] at hshort
    omega
  rw [CommandStore.contents_length]
  rw [List.length_map, smul_eq_mul] at hsum
  simp only [store]
  omega

/-- The units are the pieces of the chunks cut behind every chunk with a line feed. -/
lemma foldl_next (p : Progress) (as : List Arrival) :
    as.foldl next p = ⟨p.units ++ (cut (has newline) p.rest (as.map Arrival.bytes)).1,
      (cut (has newline) p.rest (as.map Arrival.bytes)).2⟩ := by
  induction as generalizing p with
  | nil => simp
  | cons a as ih =>
    rw [List.foldl_cons, ih, List.map_cons]
    by_cases h : newline ∈ a.bytes
    · rw [next_closed p h, cut_cons_closed (by simpa [has] using h)]
      simp
    · rw [next_open p h, cut_cons_open (by simpa [has] using h)]

variable {view view' : List Bytes → Bytes}

/-- What shows the newest unit shows something when that unit is not empty. -/
def ShowsNewest (view : List Bytes → Bytes) : Prop :=
  ∀ units : List Bytes, ∀ u ≠ [], view (units ++ [u]) ≠ []

lemma fileView_newest : ShowsNewest fileView := by
  intro units u hu
  simp [fileView, hu]

lemma deviceView_newest : ShowsNewest deviceView := by
  intro units u hu
  rw [deviceView, List.rtake, List.length_append, List.length_singleton,
    List.drop_append_of_le_length (by omega)]
  simp [hu]

/-- A mode answers just the chunks with a line feed. -/
lemma reply_isEmpty (hview : ShowsNewest view) (p : Progress) (a : Arrival) :
    (reply view p a).isEmpty = !decide (newline ∈ a.bytes) := by
  by_cases h : newline ∈ a.bytes
  · have hunit : p.rest ++ a.bytes ≠ [] := by simp [List.ne_nil_of_mem h]
    rw [reply, if_pos h, next_closed p h]
    simpa [h] using hview p.units _ hunit
  · simp [reply, h]

lemma outputs_isEmpty (hview : ShowsNewest view) (p : Progress) (as : List Arrival) :
    (outputs next (reply view) p as).map List.isEmpty =
      as.map fun a => !decide (newline ∈ a.bytes) := by
  induction as generalizing p with
  | nil => rfl
  | cons a as ih => rw [outputs, List.map_cons, List.map_cons, reply_isEmpty hview, ih]

/-- The answers, in order: what the mode shows after each further unit. -/
lemma outputs_replies (hview : ShowsNewest view) (p : Progress) (as : List Arrival) :
    let units := (cut (has newline) p.rest (as.map Arrival.bytes)).1
    (outputs next (reply view) p as).filter (fun o => !o.isEmpty) =
      (List.range units.length).map fun k => view (p.units ++ units.take (k + 1)) := by
  induction as generalizing p with
  | nil => simp [outputs]
  | cons a as ih =>
    have hlater := ih (p.next a)
    have hfirst := reply_isEmpty hview p a
    dsimp only at hlater ⊢
    rw [outputs, List.filter_cons, hfirst, hlater, List.map_cons]
    by_cases h : newline ∈ a.bytes
    · rw [cut_cons_closed (by simpa [has] using h), next_closed p h]
      simp [reply, h, next_closed p h, List.range_succ_eq_map, Function.comp_def]
    · rw [cut_cons_open (by simpa [has] using h), next_open p h]
      simp [h]

/-- Two modes answer alike as long as they show the units alike. -/
lemma outputs_congr {n : ℕ} (hsame : ∀ units : List Bytes, units.length ≤ n → view units = view' units)
    (p : Progress) (as : List Arrival) (hn : (as.foldl next p).units.length ≤ n) :
    outputs next (reply view) p as = outputs next (reply view') p as := by
  induction as generalizing p with
  | nil => rfl
  | cons a as ih =>
    have hfirst : (p.next a).units.length ≤ n := by
      rw [List.foldl_cons, foldl_next, List.length_append] at hn
      omega
    rw [outputs, outputs, ih (p.next a) hn, reply, reply, hsame _ hfirst]

end Progress

open Progress

/-- The file holds the units and the worker's buffer the rest. -/
structure FileShows (s : FileClient) (p : Progress) : Prop where
  holds : s.worker.Holds p.rest
  position : s.worker.bufferPosition = p.rest.length
  file : s.file = p.units.flatten
  short : p.Short

lemma fileStep_shows {s : FileClient} {p : Progress} {a : Arrival} (hs : FileShows s p)
    (ha : s.Inside a) :
    ∃ t, s.step a = .ok (t, reply fileView p a) ∧ FileShows t (p.next a) := by
  have hroom : p.rest.length + a.bytes.length ≤ s.worker.buffer.length := by
    have hinside := ha.room
    rw [hs.holds.total] at hinside
    omega
  have hreceive : s.worker.receive ⟨a.bytes, a.junk⟩ = _ :=
    FileWorker.receive_eq hs.holds hs.position hroom
  have hstored : (s.worker.stored p.rest a.bytes).Holds (p.rest ++ a.bytes) :=
    FileWorker.stored_holds hs.holds hroom
  by_cases h : newline ∈ a.bytes
  · rw [if_pos h] at hreceive
    refine ⟨⟨(s.worker.stored p.rest a.bytes).reset a.junk, s.file ++ (p.rest ++ a.bytes)⟩, ?_, ?_⟩
    · rw [FileClient.step, hreceive]
      simp only [bind, Except.bind, if_true, hstored.dump, dumpFileToSocket_eq]
      rw [reply, if_pos h, next_closed p h, fileView, hs.file]
      simp
    · rw [next_closed p h]
      refine ⟨FileWorker.reset_holds _ _, rfl, by simp [hs.file], fun u hu => ?_⟩
      rcases List.mem_append.mp hu with hold | hnew
      · exact hs.short u hold
      · rw [List.mem_singleton.mp hnew, List.length_append]
        have hsize := hs.holds.small
        omega
  · rw [if_neg h] at hreceive
    have hgrows := ha.grows h
    obtain ⟨v, hv⟩ : ∃ v, (s.worker.stored p.rest a.bytes).more a.bytes.length a.junk = .ok v := by
      unfold FileWorker.more
      dsimp only
      split_ifs with hfull hover
      · exact absurd (hgrows hfull) (not_le.mpr hover)
      · exact ⟨_, rfl⟩
      · exact ⟨_, rfl⟩
    rw [hv] at hreceive
    obtain ⟨hholds, hposition⟩ := FileWorker.more_holds hstored
      (by rw [FileWorker.stored_bufferPosition, hs.position, List.length_append]) hv
    refine ⟨⟨v, s.file⟩, ?_, ?_⟩
    · rw [FileClient.step, hreceive, reply, if_neg h]
      rfl
    · rw [next_open p h]
      exact ⟨hholds, hposition, hs.file, hs.short⟩

lemma file_run (junk : ℕ → UInt8) {as : List Arrival}
    (h : Guarded FileClient.step FileClient.Inside (.start junk) as) :
    ∃ s, run FileClient.step (.start junk) as = .ok (s, outputs next (reply fileView) ⟨[], []⟩ as) ∧
      FileShows s (as.foldl next ⟨[], []⟩) := by
  have hstart : FileShows (.start junk) ⟨[], []⟩ := by
    refine ⟨FileWorker.start_holds junk, ?_, ?_, by simp [Short]⟩
    · simp [FileClient.start, FileWorker.start]
    · simp [FileClient.start]
  obtain ⟨t, hrun, ht⟩ := @run_matches _ _ _ _ _ _ next (reply fileView) FileShows FileClient.Inside
    (fun s p a hs ha => fileStep_shows hs ha) _ _ _ hstart h
  exact ⟨t, hrun, ht⟩

/-- The device stands for the newest ten units and the rest. -/
lemma deviceStep_shows {s : DeviceServer} {p : Progress} {a : Arrival} (hs : s.Serves p.store)
    (ha : s.Plain a.chunk) :
    ∃ t, deviceStep s a = .ok (t, reply deviceView p a) ∧ t.Serves (p.next a).store := by
  obtain ⟨t, hstep, ht⟩ := DeviceServer.step_plain hs ha
  have hwrite : p.store.write a.chunk.bytes = (p.next a).store := (next_store p a).symm
  rw [hwrite] at hstep ht
  exact ⟨t, hstep, ht⟩

/-- Units that file mode's buffer has room for leave the device countable. -/
lemma plain_of_short {s : DeviceServer} {p : Progress} {as : List Arrival} (hs : s.Serves p.store)
    (hg : Guarded deviceStep (fun s a => s.Taken a.chunk) s as)
    (hshort : ∀ pre, pre <+: as → (pre.foldl next p).Short) :
    Guarded deviceStep (fun s a => s.Plain a.chunk) s as := by
  induction as generalizing s p with
  | nil => trivial
  | cons a as ih =>
    have hcounted : (s.dev.store.write a.bytes).contents.length < 2 ^ 63 := by
      rw [hs.store, ← next_store]
      exact (hshort [a] (List.prefix_append [a] as)).contents
    have hplain : s.Plain a.chunk := ⟨hg.1, hcounted⟩
    obtain ⟨t, hstep, ht⟩ := deviceStep_shows hs hplain
    refine Guarded.cons hplain hstep (ih ht (hg.2 t _ hstep) fun pre hpre => ?_)
    exact hshort (a :: pre) (List.cons_prefix_cons.mpr ⟨rfl, hpre⟩)

lemma device_run {circ entry : Alloc} {d : AesdDev} (hne : circ.addr ≠ entry.addr)
    (hd : aesdSetupCdev (some circ) (some entry) = .ok d) (junk : ℕ → ℕ → UInt8)
    {as : List Arrival} (h : Guarded deviceStep (fun s a => s.Taken a.chunk) (.start d junk) as)
    (hshort : ∀ pre, pre <+: as → (pre.foldl next ⟨[], []⟩).Short) :
    ∃ t, run deviceStep (.start d junk) as = .ok (t, outputs next (reply deviceView) ⟨[], []⟩ as) ∧
      t.Serves (as.foldl next ⟨[], []⟩).store := by
  have hstart : DeviceServer.Serves (.start d junk) (Progress.store ⟨[], []⟩) :=
    DeviceServer.start_serves hne hd junk
  exact run_matches (fun s p => s.Serves (Progress.store p)) (fun s p a hs ha => deviceStep_shows hs ha)
    hstart (plain_of_short hstart h hshort)

/-- The two modes simulate each other for one client. After any of the chunks both have
answered the same ones, the `k`-th time file mode with the first `k` flush units and device
mode with the newest ten of these, and file mode's buffer holds what the driver has pending. -/
theorem modes_simulate (circ entry : Alloc) {d : AesdDev} (hne : circ.addr ≠ entry.addr)
    (hd : aesdSetupCdev (some circ) (some entry) = .ok d) (fileJunk : ℕ → UInt8)
    (deviceJunk : ℕ → ℕ → UInt8) (arrivals : List Arrival)
    (hfile : Guarded FileClient.step FileClient.Inside (.start fileJunk) arrivals)
    (hdevice : Guarded deviceStep (fun s a => s.Taken a.chunk) (.start d deviceJunk) arrivals)
    (pre : List Arrival) (hpre : pre <+: arrivals) :
    let units := (cut (has newline) [] (pre.map Arrival.bytes)).1
    ∃ s sent t sent', run FileClient.step (.start fileJunk) pre = .ok (s, sent) ∧
      run deviceStep (.start d deviceJunk) pre = .ok (t, sent') ∧
      sent.map List.isEmpty = sent'.map List.isEmpty ∧
      sent.filter (fun o => !o.isEmpty) =
        (List.range units.length).map (fun k => (units.take (k + 1)).flatten) ∧
      sent'.filter (fun o => !o.isEmpty) = (List.range units.length).map (fun k =>
        ((units.take (k + 1)).drop (k + 1 - min (k + 1) 10)).flatten) ∧
      (units.length ≤ 10 → sent = sent') ∧
      s.worker.buffer.take s.worker.totalBytesReceived.toNat = t.dev.pendingBytes := by
  intro units
  have hshort : ∀ earlier, earlier <+: pre → (earlier.foldl next ⟨[], []⟩).Short := by
    intro earlier hearlier
    obtain ⟨s, -, hs⟩ := file_run fileJunk (hfile.beginning (hearlier.trans hpre))
    exact hs.short
  obtain ⟨s, hrun, hs⟩ := file_run fileJunk (hfile.beginning hpre)
  obtain ⟨t, hrun', ht⟩ := device_run hne hd deviceJunk (hdevice.beginning hpre) hshort
  refine ⟨s, _, t, _, hrun, hrun', ?_, ?_, ?_, fun hn => ?_, ?_⟩
  · rw [outputs_isEmpty fileView_newest, outputs_isEmpty deviceView_newest]
  · exact outputs_replies fileView_newest ⟨[], []⟩ pre
  · refine (outputs_replies deviceView_newest ⟨[], []⟩ pre).trans ?_
    apply List.map_congr_left
    intro k hk
    have hlen : (units.take (k + 1)).length = k + 1 := by
      rw [List.length_take, min_eq_left (List.mem_range.mp hk)]
    change deviceView (units.take (k + 1)) = _
    rw [deviceView, List.rtake, hlen]
    congr 2
    omega
  · refine outputs_congr (n := 10) (fun us hus => ?_) _ pre ?_
    · rw [fileView, deviceView, List.rtake, Nat.sub_eq_zero_of_le hus, List.drop_zero]
    · rw [foldl_next]
      exact hn
  · have hpending : t.dev.pendingBytes = (pre.foldl next ⟨[], []⟩).rest :=
      congrArg CommandStore.pending ht.store
    rw [hpending, hs.holds.total, Int.toNat_natCast, hs.holds.bytes]

/-- Two units, the first of them in two chunks. -/
def twoUnits : List Arrival :=
  [⟨[97], fun _ => 0, 7, seekFrame, granted false ⟨3, 0⟩, granting 3 4⟩,
    ⟨[10], fun _ => 0, 7, seekFrame, granted false ⟨5, 0⟩, granting 5 6⟩,
    ⟨[98, 10], fun _ => 0, 7, seekFrame, granted false ⟨7, 0⟩, granting 7 8⟩]

theorem modes_simulate_two_units :
    ∃ s sent t sent', run FileClient.step (.start fun _ => 0) twoUnits = .ok (s, sent) ∧
      run deviceStep (.start DriverState.fresh.dev fun _ _ => 0) twoUnits = .ok (t, sent') ∧
      sent = sent' := by
  obtain ⟨s, sent, t, sent', hrun, hrun', -, -, -, hsame, -⟩ :=
    modes_simulate ⟨1, 0⟩ ⟨2, 0⟩ (by decide) DriverState.fresh_setup (fun _ => 0) (fun _ _ => 0)
      twoUnits (by decide +kernel) (by decide +kernel) twoUnits (List.prefix_refl _)
  exact ⟨s, sent, t, sent', hrun, hrun', hsame (by decide)⟩

end Aesd
