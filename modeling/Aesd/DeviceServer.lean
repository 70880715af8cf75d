import Aesd.DeviceWorker

/-! The server in device mode: any number of connection workers, each with its own receive
buffer, around one device. Every chunk goes to the device at once, so what a connection has
not yet finished lies in the driver, with what the others have not finished. -/
namespace Aesd
open AesdDev Cut Machine Memory

/-- What one `recv` returned to the worker of a connection, and what the turn for it meets:
the address of the buffer, the stack, and the driver's answers. -/
structure Chunk where
  id : ℕ
  bytes : Bytes
  bufferAddr : UInt64
  frame : Frame
  seekAnswers : IoctlAnswers
  writeAnswers : WriteAnswers

structure DeviceServer where
  dev : AesdDev
  buffers : ℕ → Bytes

namespace DeviceServer

/-- The workers' buffers hold whatever their memory held. -/
def start (d : AesdDev) (junk : ℕ → ℕ → UInt8) : DeviceServer :=
  ⟨d, fun id => resize (junk id) BUFFER_SIZE []⟩

/-- One turn of a worker's loop. The output is what it sends. -/
def step (s : DeviceServer) (c : Chunk) : Except Stop (DeviceServer × Bytes) := do
  let t ← deviceTurn s.dev (splice (s.buffers c.id) 0 c.bytes) c.bufferAddr c.bytes.length c.frame
    c.seekAnswers c.writeAnswers
  .ok (⟨t.dev, Function.update s.buffers c.id t.buffer⟩, t.sent)

/-- A chunk inside the buffer that is no seek command. The driver gets its memory and copies
it whole. -/
structure Taken (s : DeviceServer) (c : Chunk) : Prop where
  some : c.bytes ≠ []
  inside : c.bytes.length ≤ BUFFER_SIZE
  data : ¬recognised (splice (s.buffers c.id) 0 c.bytes) c.bytes.length
  granted : c.writeAnswers.Granted s.dev
  whole : min c.writeAnswers.uncopied c.bytes.length = 0

/-- What is then retained can be counted in a signed word. -/
structure Plain (s : DeviceServer) (c : Chunk) : Prop extends Taken s c where
  counted : (s.dev.store.write c.bytes).contents.length < 2 ^ 63

instance (s : DeviceServer) (c : Chunk) : Decidable (s.Taken c) :=
  decidable_of_iff (c.bytes ≠ [] ∧ c.bytes.length ≤ BUFFER_SIZE ∧
    ¬recognised (splice (s.buffers c.id) 0 c.bytes) c.bytes.length ∧
    c.writeAnswers.Granted s.dev ∧ min c.writeAnswers.uncopied c.bytes.length = 0)
    ⟨fun ⟨h₁, h₂, h₃, h₄, h₅⟩ => ⟨h₁, h₂, h₃, h₄, h₅⟩,
      fun ⟨h₁, h₂, h₃, h₄, h₅⟩ => ⟨h₁, h₂, h₃, h₄, h₅⟩⟩

instance (s : DeviceServer) (c : Chunk) : Decidable (s.Plain c) :=
  decidable_of_iff (s.Taken c ∧ (s.dev.store.write c.bytes).contents.length < 2 ^ 63)
    ⟨fun ⟨h₁, h₂⟩ => ⟨h₁, h₂⟩, fun ⟨h₁, h₂⟩ => ⟨h₁, h₂⟩⟩

/-- The device stands for a store, with its lock free, and every buffer has its size. -/
structure Serves (s : DeviceServer) (st : CommandStore) : Prop where
  valid : s.dev.Valid
  free : s.dev.lock = false
  store : s.dev.store = st
  buffers : ∀ id, (s.buffers id).length = BUFFER_SIZE

lemma start_serves {circ entry : Alloc} {d : AesdDev} (hne : circ.addr ≠ entry.addr)
    (hd : aesdSetupCdev (some circ) (some entry) = .ok d) (junk : ℕ → ℕ → UInt8) :
    (start d junk).Serves .empty := by
  have hs := setup_standsFor hne hd fun _ => 0
  exact ⟨hs.valid, hs.free, hs.store, fun id => by simp [start]⟩

/-- A chunk that is taken is written to the device, which is then read out if the chunk has
a line feed. -/
lemma step_write {s : DeviceServer} {st : CommandStore} {c : Chunk} (hs : s.Serves st)
    (hc : s.Taken c) :
    ∃ t : DeviceServer, t.Serves (st.write c.bytes) ∧
      s.step c = (if newline ∈ c.bytes then dumpDeviceToSocket t.dev else .ok []) >>=
        fun sent => .ok (t, sent) := by
  have hlen : (splice (s.buffers c.id) 0 c.bytes).length = BUFFER_SIZE := by
    rw [splice_length (by rw [hs.buffers, Nat.zero_add]; exact hc.inside), hs.buffers]
  have hchunk : (splice (s.buffers c.id) 0 c.bytes).take c.bytes.length = c.bytes := by
    simp [splice]
  have hhandle : handleIoctlCommainds s.dev (splice (s.buffers c.id) 0 c.bytes) c.bufferAddr
      c.bytes.length c.frame c.seekAnswers =
        .ok (s.dev, splice (s.buffers c.id) 0 c.bytes, -1) := if_neg hc.data
  obtain ⟨d, hv, hfree, hstore, hturn⟩ := deviceTurn_write hhandle (by norm_num) (by norm_num)
    ((settled_of_valid hs.valid).symm ▸ hs.valid) hs.free (hlen ▸ hc.inside) hc.granted hc.whole
  rw [hchunk] at hstore hturn
  rw [hs.store] at hstore
  refine ⟨⟨d, Function.update s.buffers c.id (splice (s.buffers c.id) 0 c.bytes)⟩, ?_, ?_⟩
  · refine ⟨hv, hfree, hstore, fun id => ?_⟩
    rcases eq_or_ne id c.id with rfl | hne
    · simpa using hlen
    · simpa [hne] using hs.buffers id
  · rw [step, hturn]
    cases (if newline ∈ c.bytes then dumpDeviceToSocket d else .ok []) <;> rfl

/-- A plain chunk is answered with all that the device then holds if it has a line feed. -/
lemma step_plain {s : DeviceServer} {st : CommandStore} {c : Chunk} (hs : s.Serves st)
    (hp : s.Plain c) :
    ∃ t, s.step c = .ok (t, if newline ∈ c.bytes then (st.write c.bytes).contents else []) ∧
      t.Serves (st.write c.bytes) := by
  obtain ⟨t, ht, hstep⟩ := step_write hs hp.toTaken
  have hcounted : t.dev.store.contents.length < 2 ^ 63 := by
    rw [ht.store, ← hs.store]
    exact hp.counted
  refine ⟨t, hstep.trans ?_, ht⟩
  by_cases hn : newline ∈ c.bytes
  · rw [if_pos hn, if_pos hn, dumpDeviceToSocket_eq ht.valid hcounted, ht.store]
    rfl
  · rw [if_neg hn, if_neg hn]
    rfl

/-- Chunks that are taken do to the device what writes do to the store. -/
lemma run_taken {s t : DeviceServer} {st : CommandStore} {chunks : List Chunk} {outs : List Bytes}
    (hs : s.Serves st) (hc : Guarded step Taken s chunks)
    (h : run step s chunks = .ok (t, outs)) :
    t.Serves ((chunks.map Chunk.bytes).foldl CommandStore.write st) := by
  rw [List.foldl_map]
  refine run_refines (fun st c => st.write c.bytes) Serves (fun s st c t sent hs hc hstep => ?_)
    hs hc h
  obtain ⟨v, hv, hwrite⟩ := step_write hs hc
  obtain ⟨sent', -, hdone⟩ := bind_eq_ok.mp (hwrite.symm.trans hstep)
  rw [Except.ok.injEq, Prod.mk.injEq] at hdone
  exact hdone.1 ▸ hv

/-- The server gets through plain chunks. -/
lemma run_plain {s : DeviceServer} {st : CommandStore} {chunks : List Chunk} (hs : s.Serves st)
    (hp : Guarded step Plain s chunks) : ∃ t outs, run step s chunks = .ok (t, outs) := by
  have hmatch : ∀ (s : DeviceServer) st c, s.Serves st → s.Plain c → ∃ t,
      s.step c = .ok (t, if newline ∈ c.bytes then (st.write c.bytes).contents else []) ∧
        t.Serves (st.write c.bytes) := fun _ _ _ => step_plain
  obtain ⟨t, hrun, -⟩ := run_matches Serves hmatch hs hp
  exact ⟨t, _, hrun⟩

end DeviceServer

def Chunk.closes (c : Chunk) : Bool := decide (newline ∈ c.bytes)

def bytesOf (chunks : List Chunk) : Bytes := chunks.flatMap Chunk.bytes

lemma bytesOf_append (xs ys : List Chunk) : bytesOf (xs ++ ys) = bytesOf xs ++ bytesOf ys :=
  List.flatMap_append

/-- The bytes of a connection, in the order it sent them. -/
def streamOf (id : ℕ) (chunks : List Chunk) : Bytes := bytesOf (chunks.filter fun c => c.id = id)

/-- The chunks that make up the commands committed, one group for each command. -/
def commands (chunks : List Chunk) : List (List Chunk) := (groups Chunk.closes [] chunks).1

/-- The group is a run of chunks, all of one connection, and its bytes are consecutive in the
stream of that connection. -/
def FromOneStream (chunks g : List Chunk) : Prop :=
  ∃ id before after, chunks = before ++ g ++ after ∧ (∀ c ∈ g, c.id = id) ∧
    streamOf id chunks = streamOf id before ++ bytesOf g ++ streamOf id after

/-- The commands committed are the pieces of the chunks cut behind every line feed. -/
lemma commands_bytes (chunks : List Chunk) :
    (commands chunks).map bytesOf = (cut (has newline) [] (chunks.map Chunk.bytes)).1 := by
  have hhas : ∀ c ∈ chunks.map fun x => [x], has newline (bytesOf c) = c.any Chunk.closes := by
    intro c hc
    obtain ⟨x, -, rfl⟩ := List.mem_map.mp hc
    simp [has, bytesOf, Chunk.closes]
  have hmap := cut_map (fun c d => bytesOf_append c d) rfl hhas []
  have hchunks : (chunks.map fun x => [x]).map bytesOf = chunks.map Chunk.bytes := by
    simp [bytesOf]
  rw [hchunks] at hmap
  exact (congrArg Prod.fst hmap).symm

lemma fromOneStream_iff {chunks g : List Chunk} (hg : g ∈ commands chunks) :
    FromOneStream chunks g ↔ Uniform Chunk.id g := by
  constructor
  · rintro ⟨id, -, -, -, hid, -⟩
    exact ⟨id, hid⟩
  · rintro ⟨id, hid⟩
    obtain ⟨older, newer, hsplit⟩ := List.append_of_mem hg
    have hall : chunks = older.flatten ++ g ++ (newer.flatten ++ (groups Chunk.closes [] chunks).2) := by
      have hflat := @groups_flatten _ Chunk.closes chunks
      rw [show (groups Chunk.closes [] chunks).1 = older ++ g :: newer from hsplit] at hflat
      simpa using hflat.symm
    refine ⟨id, _, _, hall, hid, ?_⟩
    have hown : g.filter (fun c => c.id = id) = g :=
      List.filter_eq_self.mpr fun c hc => by simpa using hid c hc
    nth_rewrite 1 [hall]
    simp only [streamOf, List.filter_append, bytesOf_append, hown]

namespace DeviceServer

/-- When every command committed is made of consecutive bytes of one connection: exactly when
a chunk without a line feed is always followed by one of its own connection, as long as a
line feed is still to come. After any of the chunks the device retains the newest ten of
the commands committed so far, and the server gets through while these can be counted. -/
theorem client_isolation (circ entry : Alloc) {d : AesdDev} (hne : circ.addr ≠ entry.addr)
    (hd : aesdSetupCdev (some circ) (some entry) = .ok d) (junk : ℕ → ℕ → UInt8)
    (chunks : List Chunk) (hc : Guarded step Taken (start d junk) chunks) :
    (∀ pre t outs, pre <+: chunks → run step (start d junk) pre = .ok (t, outs) →
        retained t.dev = ((commands pre).map bytesOf).rtake 10) ∧
      (Guarded step Plain (start d junk) chunks →
        ∃ t outs, run step (start d junk) chunks = .ok (t, outs)) ∧
      ((∀ g ∈ commands chunks, FromOneStream chunks g) ↔
        Uninterrupted Chunk.closes Chunk.id chunks) := by
  have hstart := start_serves hne hd junk
  refine ⟨fun pre t outs hpre hrun => ?_, run_plain hstart, ?_⟩
  · have ht := run_taken hstart (hc.beginning hpre) hrun
    have hstore := ht.store
    rw [CommandStore.foldl_write .empty (by simp [CommandStore.empty])] at hstore
    rw [retained, ← store_commands ht.valid, hstore, commands_bytes]
    rfl
  · have hiff := @groups_uniform_iff _ _ Chunk.closes Chunk.id [] (by simp) chunks
    rw [List.nil_append] at hiff
    rw [← hiff]
    exact forall₂_congr fun g hg => fromOneStream_iff hg

/-- A chunk of a connection, with its answers. -/
def chunk (id : ℕ) (bytes : Bytes) (entry data : ℕ) : Chunk :=
  ⟨id, bytes, 7, seekFrame, granted false ⟨entry, 0⟩, granting entry data⟩

/-- Two connections, one after the other. -/
def inTurn : List Chunk := [chunk 0 [97] 3 4, chunk 0 [10] 5 6, chunk 1 [98, 10] 7 8]

theorem client_isolation_in_turn :
    (∀ pre t outs, pre <+: inTurn →
        run step (start DriverState.fresh.dev fun _ _ => 0) pre = .ok (t, outs) →
        retained t.dev = ((commands pre).map bytesOf).rtake 10) ∧
      (Guarded step Plain (start DriverState.fresh.dev fun _ _ => 0) inTurn →
        ∃ t outs, run step (start DriverState.fresh.dev fun _ _ => 0) inTurn = .ok (t, outs)) ∧
      ((∀ g ∈ commands inTurn, FromOneStream inTurn g) ↔
        Uninterrupted Chunk.closes Chunk.id inTurn) :=
  client_isolation ⟨1, 0⟩ ⟨2, 0⟩ (by decide) DriverState.fresh_setup _ inTurn (by decide +kernel)

/-- A second connection finishes what the first has begun. -/
def mixed : List Chunk := [chunk 0 [97] 3 4, chunk 1 [98, 10] 5 6]

theorem client_isolation_mixed :
    ¬ ∀ chunks t outs, Guarded step Taken (start DriverState.fresh.dev fun _ _ => 0) chunks →
      run step (start DriverState.fresh.dev fun _ _ => 0) chunks = .ok (t, outs) →
      ∀ command ∈ retained t.dev, ∃ id, command <:+: streamOf id chunks := by
  intro h
  have htaken : Guarded step Taken (start DriverState.fresh.dev fun _ _ => 0) mixed := by
    decide +kernel
  have hstored : (run step (start DriverState.fresh.dev fun _ _ => 0) mixed).toOption.map
      (fun r => retained r.1.dev) = some [[97, 98, 10]] := by decide +kernel
  cases hrun : run step (start DriverState.fresh.dev fun _ _ => 0) mixed with
  | error e => simp [hrun, Except.toOption] at hstored
  | ok r =>
    rw [hrun] at hstored
    obtain ⟨id, hid⟩ := h mixed r.1 r.2 htaken hrun [97, 98, 10] (by
      rw [show retained r.1.dev = [[97, 98, 10]] from Option.some.inj hstored]
      simp)
    have hlong := hid.length_le
    have hshort : (streamOf id mixed).length ≤ 2 := by
      by_cases h0 : id = 0
      · subst h0
        decide
      · by_cases h1 : id = 1
        · subst h1
          decide
        · have hnone : streamOf id mixed = [] := by
            simp [streamOf, mixed, chunk, Ne.symm h0, Ne.symm h1, bytesOf]
          simp [hnone]
    simp at hlong
    omega

end DeviceServer

end Aesd
