import Aesd.DeviceServer
import Aesd.DriverSession

/-! The server in device mode as its clients know it. A chunk of any connection asks for
stored commands or is stored itself. What it meets is the ten newest commands, the bytes of
the command not yet finished, and whether a refused request has kept the mutex. -/
namespace Aesd
open AesdDev Cut Machine Memory Separation

structure Service where
  store : CommandStore
  stuck : Bool

namespace Service

/-- A chunk is stored, and answered with all that is then retained if it has a line feed. -/
def record (s : Service) (bytes : Bytes) (interrupted : Bool) : Except Stop (Service × Bytes) :=
  if s.stuck then
    -- the worker does not look at what its write returned
    if interrupted then .ok (s, if newline ∈ bytes then s.store.contents else [])
    else .error .blocked
  else
    .ok (⟨s.store.write bytes, false⟩,
      if newline ∈ bytes then (s.store.write bytes).contents else [])

/-- A request for byte `y` of command `x`. -/
def ask (s : Service) (c : Chunk) (x y : UInt32) : Except Stop (Service × Bytes) :=
  if s.stuck then if c.seekAnswers.interrupted then .ok (s, []) else .error .blocked
  else if 10 < x.toNat then .ok (⟨s.store, true⟩, [])
  else
    match s.store.requested ⟨x, y, 0, 0⟩ with
    -- an answer of one byte is taken for none; it has replaced the first byte of the chunk
    | [b] => s.record (c.bytes.set 0 b) c.writeAnswers.interrupted
    | bs => if 500 < bs.length then .error .fault else .ok (s, bs)

def step (s : Service) (c : Chunk) : Except Stop (Service × Bytes) :=
  if recognised c.bytes c.bytes.length then do
    let (x, y) ← seekNumbers c.bytes c.frame
    s.ask c x y
  else s.record c.bytes c.writeAnswers.interrupted

abbrev run (s : Service) (chunks : List Chunk) : Except Stop (Service × List Bytes) :=
  Machine.run step s chunks

end Service

/-- What clients can tell of the device. -/
def AesdDev.service (d : AesdDev) : Service := ⟨d.store, d.lock⟩

/-- Only the chunk decides whether it is a command: the worker ends it with a NUL. -/
lemma recognised_chunk (buffer chunk : Bytes) :
    recognised (splice buffer 0 chunk) chunk.length ↔ recognised chunk chunk.length := by
  have htext : ((splice buffer 0 chunk).set chunk.length 0).takeWhile (fun c => c ≠ 0) =
      (chunk.set chunk.length 0).takeWhile fun c => c ≠ 0 := by
    have hset : chunk.set chunk.length 0 = chunk := List.set_eq_of_length_le le_rfl
    have hsplice : splice buffer 0 chunk = chunk ++ buffer.drop chunk.length := by simp [splice]
    rw [hset, hsplice, List.set_append_right _ _ le_rfl, Nat.sub_self]
    cases buffer.drop chunk.length with
    | nil => simp
    | cons c cs =>
      have hend : (0 :: cs).takeWhile (fun c : UInt8 => c ≠ 0) = [] := rfl
      rw [List.set_cons_zero, List.takeWhile_append, hend]
      split_ifs with hall
      · rw [List.append_nil]
        exact ((List.takeWhile_prefix _).eq_of_length hall).symm
      · rfl
  rw [recognised, recognised, htext]

/-- A read-out never looks at the pending entry. -/
lemma dumpDeviceToSocket_settled (d : AesdDev) :
    dumpDeviceToSocket d.settled = dumpDeviceToSocket d := by
  have hfrom : ∀ (fuel : ℕ) (fpos pos : ℤ),
      dumpDeviceFrom d.settled fuel fpos pos = dumpDeviceFrom d fuel fpos pos := by
    intro fuel
    induction fuel with
    | zero => exact fun _ _ => rfl
    | succ fuel ih =>
      intro fpos pos
      rw [dumpDeviceFrom, dumpDeviceFrom]
      simp only [ih]
      rfl
  exact hfrom _ _ _

/-- A turn that ends as one of the service does, and leaves the device in session and the
buffer with its size. -/
def TurnAgrees (turn : Except Stop DeviceTurn) (served : Except Stop (Service × Bytes)) : Prop :=
  Agree (fun p v => p.1.service = v ∧ InSession ⟨p.1, fun _ => 0⟩ ∧ p.2.length = BUFFER_SIZE)
    (turn.map fun t => ((t.dev, t.buffer), t.sent)) served

section Turn

variable {d : AesdDev} (hs : InSession ⟨d, fun _ => 0⟩)

include hs

lemma InSession.dump : dumpDeviceToSocket d = .ok d.store.contents := by
  have hheld := hs.held
  rw [← settled_store] at hheld ⊢
  rw [← dumpDeviceToSocket_settled]
  exact dumpDeviceToSocket_eq hs.sound.valid hheld

/-- A write of a worker whose memory is granted. -/
lemma InSession.write {buf : Bytes} {a : WriteAnswers} (hfree : d.lock = false)
    (hgrant : a.Granted d) (hsize : d.store.pending.length + buf.length < 2 ^ 31)
    (hz : min a.uncopied buf.length = 0) :
    ∃ d', aesdWrite d buf a = .ok (d', buf.length) ∧ d'.service = ⟨d.store.write buf, false⟩ ∧
      InSession ⟨d', fun _ => 0⟩ := by
  obtain ⟨d', -, hwhole, -⟩ :=
    aesdWrite_spec (d := d.settled) hs.sound.valid hfree (granted_settled.mpr hgrant) buf
  rw [aesdWrite_settled hfree, settled_store] at hwhole
  obtain ⟨hw, hfree', hstore⟩ := hwhole hz
  refine ⟨d', hw, by rw [AesdDev.service, hfree', hstore], ?_⟩
  have hstep : DriverState.step ⟨d, fun _ => 0⟩ (.write 0 buf a) =
      .ok (⟨d', fun _ => 0⟩, ⟨buf.length, [], none⟩) := by
    rw [DriverState.step, hw]
    rfl
  exact provided_inSession hs (fun _ => ⟨hgrant, hsize⟩) hstep

variable {buffer buffer' : Bytes} {bufferAddr : UInt64} {length : ℕ} {f : Frame}
  {a : IoctlAnswers} {wr : WriteAnswers} {result : ℤ}
  (hhandle : handleIoctlCommainds d buffer bufferAddr length f a = .ok (d, buffer', result))
  (hmany : ¬result > 1) (hnone : result ≠ 0)

include hhandle hmany hnone

omit hs in
/-- The write comes back, and what the device then holds may be read out. -/
lemma turn_written (hbuf : buffer'.length = BUFFER_SIZE) (hlen : length ≤ BUFFER_SIZE)
    {d' : AesdDev} {ret : ℤ} (hw : aesdWrite d (buffer'.take length) wr = .ok (d', ret))
    (hd' : InSession ⟨d', fun _ => 0⟩) :
    TurnAgrees (deviceTurn d buffer bufferAddr length f a wr)
      (.ok (d'.service, if newline ∈ buffer'.take length then d'.store.contents else [])) := by
  have hchunk : (buffer'.take length).length = length := by
    rw [List.length_take, hbuf, min_eq_left hlen]
  have hread : ((buffer'.drop 0).take (buffer'.take length).length) = buffer'.take length := by
    rw [hchunk, List.drop_zero]
  obtain ⟨p, hp, hiff⟩ := findDelimterFrom_spec hread
  rw [hchunk] at hp
  have hturn : deviceTurn d buffer bufferAddr length f a wr =
      .ok ⟨d', buffer', if newline ∈ buffer'.take length then d'.store.contents else []⟩ := by
    rw [deviceTurn, hhandle]
    change (if result > 1 then _ else _) = _
    rw [if_neg hmany, if_neg hnone, hw]
    change (findDelimterFrom buffer' 0 length >>= _) = _
    rw [hp]
    change (if p ≠ -1 then _ else _) = _
    by_cases hn : newline ∈ buffer'.take length
    · rw [if_pos (by rw [ne_eq, hiff]; exact not_not.mpr hn), if_pos hn, hd'.dump]
      rfl
    · rw [if_neg (by rw [not_not, hiff]; exact hn), if_neg hn]
  rw [hturn]
  exact .goes _ ⟨rfl, hd', hbuf⟩

omit hs in
lemma turn_blocked (hw : aesdWrite d (buffer'.take length) wr = .error .blocked) :
    deviceTurn d buffer bufferAddr length f a wr = .error .blocked := by
  rw [deviceTurn, hhandle]
  change (if result > 1 then _ else _) = _
  rw [if_neg hmany, if_neg hnone, hw]
  rfl

/-- What follows when the chunk is taken for no command. -/
lemma turn_record (hbuf : buffer'.length = BUFFER_SIZE) (hlen : length ≤ BUFFER_SIZE)
    (hgrant : d.lock = false → wr.Granted d ∧ d.store.pending.length + length < 2 ^ 31)
    (hz : min wr.uncopied length = 0) :
    TurnAgrees (deviceTurn d buffer bufferAddr length f a wr)
      (d.service.record (buffer'.take length) wr.interrupted) := by
  have hchunk : (buffer'.take length).length = length := by
    rw [List.length_take, hbuf, min_eq_left hlen]
  rw [Service.record]
  cases hlock : d.lock with
  | true =>
    have hstuck : d.service.stuck = true := hlock
    rw [if_pos hstuck]
    cases hi : wr.interrupted with
    | true =>
      have hsignal : aesdWrite d (buffer'.take length) wr = .ok (d, -ERESTARTSYS) := by
        rw [aesdWrite, aesdWriteTo, if_pos hlock, if_pos hi]
      rw [if_pos rfl]
      exact turn_written hhandle hmany hnone hbuf hlen hsignal hs
    | false =>
      have hblocked : aesdWrite d (buffer'.take length) wr = .error .blocked := by
        rw [aesdWrite, aesdWriteTo, if_pos hlock, hi]
        rfl
      rw [turn_blocked hhandle hmany hnone hblocked]
      exact .stops _
  | false =>
    have hstuck : d.service.stuck = false := hlock
    obtain ⟨hg, hsize⟩ := hgrant hlock
    obtain ⟨d', hw, hservice, hd'⟩ := hs.write hlock hg (by rw [hchunk]; exact hsize) (by rw [hchunk]; exact hz)
    have hdone := turn_written hhandle hmany hnone hbuf hlen hw hd'
    have hstore : d'.store = d.store.write (buffer'.take length) := congrArg Service.store hservice
    rw [hservice, hstore] at hdone
    rw [hstuck, if_neg Bool.false_ne_true]
    exact hdone

end Turn

/-- The memory of the request and of the write it may turn into is granted; what the driver
copies across lies in the worker's own buffer and stack. -/
structure Chunk.Supplied (c : Chunk) (d : AesdDev) : Prop where
  mapped : c.seekAnswers.argUnread = 0 ∧ c.seekAnswers.resultUncopied = 0 ∧
    c.seekAnswers.argUnwritten = 0
  whole : min c.writeAnswers.uncopied c.bytes.length = 0
  scratch : d.lock = false → ∃ m, c.seekAnswers.scratch = some m ∧ d.heap m.addr = none
  granted : d.lock = false →
    c.writeAnswers.Granted d ∧ d.store.pending.length + c.bytes.length < 2 ^ 31

instance (c : Chunk) (d : AesdDev) : Decidable (c.Supplied d) :=
  decidable_of_iff ((c.seekAnswers.argUnread = 0 ∧ c.seekAnswers.resultUncopied = 0 ∧
      c.seekAnswers.argUnwritten = 0) ∧ min c.writeAnswers.uncopied c.bytes.length = 0 ∧
      (d.lock = false → ∃ m ∈ c.seekAnswers.scratch, d.heap m.addr = none) ∧
      (d.lock = false →
        c.writeAnswers.Granted d ∧ d.store.pending.length + c.bytes.length < 2 ^ 31))
    ⟨fun ⟨h₁, h₂, h₃, h₄⟩ => ⟨h₁, h₂, h₃, h₄⟩, fun ⟨h₁, h₂, h₃, h₄⟩ => ⟨h₁, h₂, h₃, h₄⟩⟩

section Request

variable {d : AesdDev} (hs : InSession ⟨d, fun _ => 0⟩) {c : Chunk} (hc : c.Supplied d)
  {x y : UInt32}

include hs hc

/-- The driver's answer to the request of a worker, in terms of the service. -/
lemma seek_service (bufferAddr : UInt64) :
    aesdIoctl d AESDCHAR_IOCSEEKTO ⟨x, y, 0, bufferAddr⟩ c.seekAnswers =
      if d.lock then
        if c.seekAnswers.interrupted then .ok (d, -ERESTARTSYS, none) else .error .blocked
      else if 10 < x.toNat then
        .ok ({ d with lock := true, heap := (kmalloc d.heap c.seekAnswers.scratch 500).2 },
          -EINVAL, none)
      else if 500 < (d.store.requested ⟨x, y, 0, 0⟩).length then .error .fault
      else .ok (d, 0, some ⟨bufferAddr, d.store.requested ⟨x, y, 0, 0⟩,
        ⟨x, y, .ofNat (d.store.requested ⟨x, y, 0, 0⟩).length, bufferAddr⟩⟩) := by
  obtain ⟨hread, hcopied, hwritten⟩ := hc.mapped
  have hreq : fetchSeekto ⟨x, y, 0, bufferAddr⟩ c.seekAnswers.argUnread = ⟨x, y, 0, bufferAddr⟩ := by
    rw [hread, fetchSeekto_zero]
  cases hlock : d.lock with
  | true =>
    rw [if_pos rfl, aesdIoctl, if_neg (not_not.mpr rfl), if_pos hlock]
  | false =>
    obtain ⟨m, hm, hdead⟩ := hc.scratch hlock
    rw [if_neg Bool.false_ne_true]
    by_cases hbig : 10 < x.toNat
    · rw [if_pos hbig]
      exact aesdIoctl_refused hlock (by rw [hreq]; exact hbig)
    · rw [if_neg hbig]
      split_ifs with hlong
      · exact aesdIoctl_overruns hs.sound.valid hlock hs.fits.commands hm hdead hreq (not_lt.mp hbig)
          rfl hlong
      · have hfits := aesdIoctl_fits hs.sound.valid hlock hs.fits.commands hm hdead hreq
          (not_lt.mp hbig) rfl (not_lt.mp hlong)
        rw [hcopied, hwritten, overlay_all _ _ le_rfl, Nat.sub_zero, List.take_length] at hfits
        exact hfits

/-- A request out of range keeps the mutex, and the scratch buffer with it. -/
lemma refused_service (hfree : d.lock = false) (hbig : 10 < x.toNat) {t : AesdDev}
    (ht : t = { d with lock := true, heap := (kmalloc d.heap c.seekAnswers.scratch 500).2 }) :
    t.service = ⟨d.store, true⟩ ∧ InSession ⟨t, fun _ => 0⟩ := by
  have hseek := @seek_service _ hs _ hc x 0 0
  rw [hfree, if_neg Bool.false_ne_true, if_pos hbig, ← ht] at hseek
  have hstep : DriverState.step ⟨d, fun _ => 0⟩ (.ioctl 0 AESDCHAR_IOCSEEKTO ⟨x, 0, 0, 0⟩
      c.seekAnswers) = .ok (⟨t, fun _ => 0⟩, ⟨-EINVAL, [], none⟩) := by
    rw [DriverState.step, hseek]
    rfl
  have hprovided : (Call.ioctl 0 AESDCHAR_IOCSEEKTO ⟨x, 0, 0, 0⟩ c.seekAnswers).Provided
      ⟨d, fun _ => 0⟩ := fun _ => hc.scratch
  refine ⟨?_, provided_inSession hs hprovided hstep⟩
  have hseen := (seen_ok hstep).symm.trans (ioctl_seen hs hprovided)
  have hstuck : DriverState.session ⟨d, fun _ => 0⟩ = ⟨d.store, false, fun _ => 0⟩ := by
    rw [DriverState.session, hfree]
  rw [hstuck, Session.step, if_neg (not_not.mpr rfl), if_neg Bool.false_ne_true] at hseen
  dsimp only at hseen
  rw [hc.mapped.1, fetchSeekto_zero, if_pos hbig, Except.ok.injEq, Prod.mk.injEq] at hseen
  exact congrArg (fun v : Session => (⟨v.store, v.stuck⟩ : Service)) hseen.1

section Answered

variable {buffer : Bytes} (hbuf : buffer.length = BUFFER_SIZE) (hrec : recognised buffer c.bytes.length)
  (hreq : seekNumbers (buffer.take c.bytes.length) c.frame = .ok (x, y))

include hbuf hrec hreq

/-- An answer of one byte is not taken for one: the chunk, its first byte overwritten, is
recorded. -/
lemma turn_one (hlen : c.bytes.length ≤ BUFFER_SIZE) (hbytes : buffer.take c.bytes.length = c.bytes)
    {b : UInt8} (hseek : aesdIoctl d AESDCHAR_IOCSEEKTO ⟨x, y, 0, c.bufferAddr⟩ c.seekAnswers =
      .ok (d, 0, some ⟨c.bufferAddr, [b], ⟨x, y, .ofNat [b].length, c.bufferAddr⟩⟩)) :
    TurnAgrees (deviceTurn d buffer c.bufferAddr c.bytes.length c.frame c.seekAnswers
      c.writeAnswers) (d.service.record (c.bytes.set 0 b) c.writeAnswers.interrupted) := by
  have hended : (buffer.set c.bytes.length 0).length = BUFFER_SIZE := by rw [List.length_set, hbuf]
  have hfits : [b].length ≤ buffer.length := by
    rw [hbuf, BUFFER_SIZE]
    simp
  have hhandle := handle_answered hrec hreq hfits hbuf hseek
  have hsplice : splice (buffer.set c.bytes.length 0) 0 [b] =
      (buffer.set c.bytes.length 0).set 0 b :=
    splice_singleton b (by rw [hended, BUFFER_SIZE]; norm_num)
  have hchunk : ((buffer.set c.bytes.length 0).set 0 b).take c.bytes.length = c.bytes.set 0 b := by
    rw [List.take_set, List.take_set_of_le le_rfl, hbytes]
  rw [hsplice] at hhandle
  have hdone := turn_record hs hhandle (by norm_num) (by norm_num)
    (by rw [List.length_set, hended]) hlen hc.granted hc.whole
  rwa [hchunk] at hdone

omit hc in
lemma turn_several {bytes : Bytes} (hone : bytes.length ≠ 1)
    (hseek : aesdIoctl d AESDCHAR_IOCSEEKTO ⟨x, y, 0, c.bufferAddr⟩ c.seekAnswers =
      if 500 < bytes.length then .error .fault
      else .ok (d, 0, some ⟨c.bufferAddr, bytes,
        ⟨x, y, .ofNat bytes.length, c.bufferAddr⟩⟩)) :
    TurnAgrees (deviceTurn d buffer c.bufferAddr c.bytes.length c.frame c.seekAnswers
      c.writeAnswers) (if 500 < bytes.length then .error .fault else .ok (d.service, bytes)) := by
  split_ifs at hseek ⊢ with hlong
  · rw [deviceTurn_stops hrec hreq hseek]
    exact .stops _
  · have hfits : bytes.length ≤ buffer.length := by
      rw [hbuf, BUFFER_SIZE]
      omega
    rw [deviceTurn_sends hrec hreq hfits hbuf hseek hone]
    exact .goes _ ⟨rfl, hs, by rw [splice_length (by simpa using hfits), List.length_set, hbuf]⟩

end Answered

lemma turn_request {buffer : Bytes} (hbuf : buffer.length = BUFFER_SIZE)
    (hlen : c.bytes.length ≤ BUFFER_SIZE) (hbytes : buffer.take c.bytes.length = c.bytes)
    (hrec : recognised buffer c.bytes.length)
    (hreq : seekNumbers c.bytes c.frame = .ok (x, y)) :
    TurnAgrees (deviceTurn d buffer c.bufferAddr c.bytes.length c.frame c.seekAnswers
      c.writeAnswers) (d.service.ask c x y) := by
  have hseek := @seek_service _ hs _ hc x y c.bufferAddr
  have hended : (buffer.set c.bytes.length 0).length = BUFFER_SIZE := by rw [List.length_set, hbuf]
  rw [← hbytes] at hreq
  rw [Service.ask]
  cases hlock : d.lock with
  | true =>
    have hstuck : d.service.stuck = true := hlock
    rw [hlock, if_pos rfl] at hseek
    rw [if_pos hstuck]
    split_ifs at hseek ⊢
    · rw [deviceTurn_refused hrec hreq hseek]
      exact .goes _ ⟨rfl, hs, hended⟩
    · rw [deviceTurn_stops hrec hreq hseek]
      exact .stops _
  | false =>
    have hstuck : d.service.stuck = false := hlock
    rw [hlock, if_neg Bool.false_ne_true] at hseek
    rw [hstuck, if_neg Bool.false_ne_true]
    by_cases hbig : 10 < x.toNat
    · rw [if_pos hbig] at hseek ⊢
      obtain ⟨hservice, ht⟩ := refused_service hs hc hlock hbig rfl
      rw [deviceTurn_refused hrec hreq hseek]
      exact .goes _ ⟨hservice, ht, hended⟩
    · rw [if_neg hbig] at hseek ⊢
      change TurnAgrees _ (match d.store.requested ⟨x, y, 0, 0⟩ with | [b] => _ | bs => _)
      generalize d.store.requested ⟨x, y, 0, 0⟩ = bytes at hseek
      rcases bytes with _ | ⟨b, _ | ⟨b', bs⟩⟩
      · exact turn_several hs hbuf hrec hreq (by simp) hseek
      · rw [if_neg (by simp)] at hseek
        exact turn_one hs hc hbuf hrec hreq hlen hbytes hseek
      · exact turn_several hs hbuf hrec hreq (by simp) hseek

/-- A turn of a worker is a step of the service. -/
lemma turn_service {buffer : Bytes} (hbuf : buffer.length = BUFFER_SIZE)
    (hlen : c.bytes.length ≤ BUFFER_SIZE) :
    TurnAgrees (deviceTurn d (splice buffer 0 c.bytes) c.bufferAddr c.bytes.length c.frame
      c.seekAnswers c.writeAnswers) (d.service.step c) := by
  have hkeep : (splice buffer 0 c.bytes).length = BUFFER_SIZE := by
    rw [splice_length (by rw [hbuf, Nat.zero_add]; exact hlen), hbuf]
  have hbytes : (splice buffer 0 c.bytes).take c.bytes.length = c.bytes := by simp [splice]
  have hsame := recognised_chunk buffer c.bytes
  rw [Service.step]
  by_cases hrec : recognised c.bytes c.bytes.length
  · rw [if_pos hrec]
    cases hreq : seekNumbers c.bytes c.frame with
    | error e =>
      have hturn : deviceTurn d (splice buffer 0 c.bytes) c.bufferAddr c.bytes.length c.frame
          c.seekAnswers c.writeAnswers = .error e := by
        rw [deviceTurn, handleIoctlCommainds, if_pos (hsame.mpr hrec), hbytes, hreq]
        rfl
      rw [hturn]
      exact .stops e
    | ok xy => exact turn_request hs hc hkeep hlen hbytes (hsame.mpr hrec) hreq
  · rw [if_neg hrec]
    have hhandle : handleIoctlCommainds d (splice buffer 0 c.bytes) c.bufferAddr c.bytes.length
        c.frame c.seekAnswers = .ok (d, splice buffer 0 c.bytes, -1) :=
      if_neg fun h => hrec (hsame.mp h)
    have hdone := turn_record hs hhandle (by norm_num) (by norm_num) hkeep hlen hc.granted hc.whole
    rwa [hbytes] at hdone

end Request

namespace DeviceServer

/-- The service that the clients of a server meet, and what the server keeps for it. -/
structure Provides (s : DeviceServer) (v : Service) : Prop where
  service : s.dev.service = v
  session : InSession ⟨s.dev, fun _ => 0⟩
  buffers : ∀ id, (s.buffers id).length = BUFFER_SIZE

/-- A chunk inside the buffer whose handling gets the memory it asks for. -/
def Supplied (s : DeviceServer) (c : Chunk) : Prop :=
  c.bytes.length ≤ BUFFER_SIZE ∧ c.Supplied s.dev

instance (s : DeviceServer) (c : Chunk) : Decidable (s.Supplied c) :=
  inferInstanceAs (Decidable (_ ∧ _))

lemma step_service {s : DeviceServer} {v : Service} {c : Chunk} (hs : s.Provides v)
    (hc : s.Supplied c) : Agree Provides (s.step c) (v.step c) := by
  obtain ⟨rfl, hsession, hbuffers⟩ := hs
  have hturn := turn_service hsession hc.2 (hbuffers c.id) hc.1
  rw [step]
  rw [TurnAgrees] at hturn
  generalize s.dev.service.step c = served at hturn
  cases hx : deviceTurn s.dev (splice (s.buffers c.id) 0 c.bytes) c.bufferAddr c.bytes.length
      c.frame c.seekAnswers c.writeAnswers with
  | error e =>
    rw [hx] at hturn
    cases hturn
    exact .stops e
  | ok t =>
    rw [hx] at hturn
    cases hturn with
    | goes _ h =>
      refine .goes t.sent ⟨h.1, h.2.1, fun id => ?_⟩
      dsimp only
      rw [Function.update_apply]
      split_ifs
      · exact h.2.2
      · exact hbuffers id

/-- Any number of connections against one device. From any state that calls reach, for any
interleaving of the chunks of all connections, seek commands among them, the server sends
what the service sends, ends in its state, and stops at the same chunk for the same reason
where a request faults or a kept mutex blocks. -/
theorem device_service (d : AesdDev) (fpos : ℕ → ℤ) (hd : Reachable ⟨d, fpos⟩)
    (hcommands : ∀ bs ∈ d.store.commands, bs.length < 2 ^ 31)
    (hpending : d.store.pending.length < 2 ^ 31) (junk : ℕ → ℕ → UInt8) (chunks : List Chunk)
    (hc : Guarded step Supplied (start d junk) chunks) :
    (run step (start d junk) chunks).map (fun r => (r.1.dev.service, r.2)) =
      d.service.run chunks := by
  have hstart : (start d junk).Provides d.service := by
    refine ⟨rfl, ⟨hd.sound, hcommands, hpending, fun _ => ?_, fun _ => ?_⟩, fun id => by simp [start]⟩
    · change -2 ^ 63 ≤ (0 : ℤ)
      norm_num
    · change (0 : ℤ) < 2 ^ 63
      norm_num
  exact (run_agree (fun _ _ _ => step_service) hstart hc).map_eq fun _ _ h => h.service

/-- A line, a request for it by a second connection, and a request out of range, which keeps
the mutex: the next line waits for ever. -/
def keptMutex : List Chunk :=
  [chunk 0 [97, 98, 10] 3 4, chunk 1 (testString ++ ascii ['0', ',', '0', 'x']) 5 6,
    chunk 1 (testString ++ ascii ['1', '1', ',', '0']) 7 8, chunk 0 [99, 10] 9 10]

theorem device_service_kept_mutex :
    (run step (start DriverState.fresh.dev fun _ _ => 0) keptMutex).map
        (fun r => (r.1.dev.service, r.2)) = DriverState.fresh.dev.service.run keptMutex :=
  device_service _ _ fresh_reached.reachable fresh_fits.commands fresh_fits.pending _ _
    (by decide +kernel)

end DeviceServer

end Aesd
