import Aesd.Kernel
import Aesd.Library.Word

/-! The file-mode loop of `connection_worker` and what it calls, from aesdsocket.c. The
buffer is the list of the bytes allocated for it. Opening, writing, reading and sending
succeed in full, and `realloc` does not fail. -/
namespace Aesd
open Memory

def BUFFER_SIZE : ℕ := 2000

def INT_MAX : ℤ := 2 ^ 31 - 1

/-- The bytes of a source string. -/
def ascii (cs : List Char) : Bytes := cs.map fun c => UInt8.ofNat c.toNat

/-- The loop from index `i` on, for `n` bytes. -/
def findDelimterFrom (buffer : Bytes) : ℕ → ℕ → Except Stop ℤ
  | _, 0 => .ok (-1)
  | i, n + 1 =>
    match buffer[i]? with
    | none => .error .fault
    | some c => if c = newline then .ok i else findDelimterFrom buffer (i + 1) n

def findDelimterPosition (buffer : Bytes) (bufferPos bytesReceivedThisIteration : ℕ) :
    Except Stop ℤ :=
  findDelimterFrom buffer bufferPos bytesReceivedThisIteration

/-- Returns the file after the append. -/
def dumpBufferToFile (file : Bytes) (lengthToDump : ℤ) (buffer : Bytes) : Except Stop Bytes :=
  if lengthToDump < 0 ∨ buffer.length < lengthToDump then .error .fault
  else .ok (file ++ buffer.take lengthToDump.toNat)

/-- The read-out loop, 100 bytes at a time from an offset on; returns what was sent. -/
def dumpFileFrom (file : Bytes) : ℕ → ℕ → Except Stop Bytes
  | 0, _ => .error .spins
  | fuel + 1, currFileOffset =>
    let outBuffer := (file.drop currFileOffset).take 100
    if outBuffer.length > 0 then do
      let sent ← dumpFileFrom file fuel (currFileOffset + outBuffer.length)
      .ok (outBuffer ++ sent)
    else .ok []

def dumpFileToSocket (file : Bytes) : Except Stop Bytes := dumpFileFrom file (file.length + 1) 0

/-- Append one timestamp line; `currTime` is the string that the time of day is printed to. -/
def printTimeToFile (file currTime : Bytes) : Bytes :=
  let writestr := ascii ['t', 'i', 'm', 'e', 's', 't', 'a', 'm', 'p', ':'] ++ currTime
  file ++ writestr.takeWhile (fun c => c ≠ 0) ++ [newline]

/-- The locals of the loop; `buffer.length` is what was allocated for `buffer`. -/
structure FileWorker where
  buffer : Bytes
  bufferSize : ℤ
  availableBuffer : ℤ
  totalBytesReceived : ℤ
  bufferPosition : ℕ

/-- What one `recv` returned, and what the bytes of the next allocation hold. -/
structure Received where
  bytes : Bytes
  junk : ℕ → UInt8

namespace FileWorker

def start (junk : ℕ → UInt8) : FileWorker :=
  { buffer := resize junk BUFFER_SIZE []
    bufferSize := BUFFER_SIZE
    availableBuffer := BUFFER_SIZE
    totalBytesReceived := 0
    bufferPosition := 0 }

/-- `recv` stores behind the bytes already there. -/
def recv (w : FileWorker) (bytes : Bytes) : Except Stop FileWorker :=
  if w.totalBytesReceived < 0 ∨ w.buffer.length < w.totalBytesReceived + bytes.length then
    .error .fault
  else
    .ok { w with
      buffer := splice w.buffer w.totalBytesReceived.toNat bytes
      totalBytesReceived := Word.signed 32 (w.totalBytesReceived + bytes.length) }

/-- The branch without a delimiter: there is more to come. An `int` that overflows has no
meaning, so growing past `INT_MAX` stops the model. -/
def more (w : FileWorker) (bytesReceived : ℕ) (junk : ℕ → UInt8) : Except Stop FileWorker :=
  let bufferPosition := w.bufferPosition + bytesReceived
  if (bufferPosition : ℤ) = w.bufferSize then
    let bufferSize := w.bufferSize + BUFFER_SIZE
    if bufferSize > INT_MAX then .error .fault
    else
      .ok { w with
        buffer := resize junk bufferSize.toNat w.buffer
        bufferSize := bufferSize
        availableBuffer := Word.signed 32 (bufferSize - w.totalBytesReceived)
        bufferPosition := bufferPosition }
  else
    .ok { w with
      availableBuffer := Word.signed 32 (w.bufferSize - bytesReceived)
      bufferPosition := bufferPosition }

/-- The reset after a reply; `buffer_size` keeps its value. -/
def reset (w : FileWorker) (junk : ℕ → UInt8) : FileWorker :=
  { w with
    buffer := resize junk BUFFER_SIZE w.buffer
    availableBuffer := BUFFER_SIZE
    totalBytesReceived := 0
    bufferPosition := 0 }

/-- One turn of the loop up to the test of `delimiter_position`, with the branch that
waits for more. The flag says whether a delimiter was found. -/
def receive (w : FileWorker) (r : Received) : Except Stop (FileWorker × Bool) := do
  let w ← w.recv r.bytes
  let delimiterPosition ← findDelimterPosition w.buffer w.bufferPosition r.bytes.length
  if delimiterPosition = -1 then
    let w ← w.more r.bytes.length r.junk
    .ok (w, false)
  else .ok (w, true)

/-- A whole turn; what it appends to the file, if anything, is returned. -/
def turn (w : FileWorker) (r : Received) : Except Stop (FileWorker × Option Bytes) := do
  let p ← w.receive r
  if p.2 then
    let appended ← dumpBufferToFile [] p.1.totalBytesReceived p.1.buffer
    .ok (p.1.reset r.junk, some appended)
  else .ok (p.1, none)

end FileWorker

lemma findDelimterFrom_spec {buffer bs : Bytes} {i : ℕ} (h : (buffer.drop i).take bs.length = bs) :
    ∃ d, findDelimterFrom buffer i bs.length = .ok d ∧ (d = -1 ↔ newline ∉ bs) := by
  induction bs generalizing i with
  | nil => exact ⟨-1, rfl, by simp⟩
  | cons b bs ih =>
    have hlen := congrArg List.length h
    simp only [List.length_take, List.length_drop, List.length_cons] at hlen
    have hi : i < buffer.length := by omega
    rw [List.drop_eq_getElem_cons hi, List.length_cons, List.take_succ_cons, List.cons.injEq] at h
    obtain ⟨hb, hrest⟩ := h
    simp only [List.length_cons, findDelimterFrom, List.getElem?_eq_getElem hi, hb]
    by_cases hn : b = newline
    · refine ⟨i, by rw [if_pos hn], ?_⟩
      simp [hn]
    · obtain ⟨d, hd, hiff⟩ := ih hrest
      refine ⟨d, by rw [if_neg hn, hd], ?_⟩
      simp [hiff, Ne.symm hn]

/-- The read-out sends everything from its offset on. -/
lemma dumpFileFrom_spec (file : Bytes) {fuel offset : ℕ} (hoff : offset ≤ file.length)
    (h : file.length < fuel + offset) : dumpFileFrom file fuel offset = .ok (file.drop offset) := by
  induction fuel generalizing offset with
  | zero => omega
  | succ fuel ih =>
    have hsplit := List.prefix_iff_eq_append.mp (List.take_prefix 100 (file.drop offset))
    have hlen : ((file.drop offset).take 100).length = min 100 (file.length - offset) := by
      rw [List.length_take, List.length_drop]
    unfold dumpFileFrom
    generalize (file.drop offset).take 100 = outBuffer at hsplit hlen ⊢
    dsimp only
    by_cases hmore : outBuffer.length > 0
    · rw [if_pos hmore, ih (by omega) (by omega), ← hsplit, List.drop_drop]
      rfl
    · rw [if_neg hmore, List.drop_of_length_le (by omega)]

theorem dumpFileToSocket_eq (file : Bytes) : dumpFileToSocket file = .ok file := by
  rw [dumpFileToSocket, dumpFileFrom_spec file (Nat.zero_le _) (by omega), List.drop_zero]

namespace FileWorker

/-- The buffer holds the bytes accumulated since the last reset. -/
structure Holds (w : FileWorker) (acc : Bytes) : Prop where
  total : w.totalBytesReceived = acc.length
  bytes : w.buffer.take acc.length = acc
  small : (w.buffer.length : ℤ) ≤ INT_MAX

lemma Holds.length_le {w : FileWorker} {acc : Bytes} (hw : w.Holds acc) :
    acc.length ≤ w.buffer.length := by
  have h := congrArg List.length hw.bytes
  rw [List.length_take] at h
  omega

/-- The state behind a `recv` that stays inside the buffer. -/
def stored (w : FileWorker) (acc bytes : Bytes) : FileWorker :=
  { w with buffer := splice w.buffer acc.length bytes, totalBytesReceived := (acc ++ bytes).length }

@[simp] lemma stored_bufferSize (w : FileWorker) (acc bytes : Bytes) :
    (w.stored acc bytes).bufferSize = w.bufferSize := rfl

@[simp] lemma stored_bufferPosition (w : FileWorker) (acc bytes : Bytes) :
    (w.stored acc bytes).bufferPosition = w.bufferPosition := rfl

@[simp] lemma stored_total (w : FileWorker) (acc bytes : Bytes) :
    (w.stored acc bytes).totalBytesReceived = (acc ++ bytes).length := rfl

@[simp] lemma reset_bufferSize (w : FileWorker) (junk : ℕ → UInt8) :
    (w.reset junk).bufferSize = w.bufferSize := by
  unfold reset
  rfl

variable {w : FileWorker} {acc : Bytes} (hw : w.Holds acc)

include hw

lemma recv_eq (bytes : Bytes) :
    w.recv bytes =
      if w.buffer.length < acc.length + bytes.length then .error .fault
      else .ok (w.stored acc bytes) := by
  have hsmall := hw.small
  unfold recv stored
  simp only [hw.total, INT_MAX, Int.toNat_natCast, List.length_append, Nat.cast_add] at *
  by_cases h : w.buffer.length < acc.length + bytes.length
  · rw [if_pos h, if_pos (Or.inr (by omega))]
  · rw [if_neg h, if_neg (by omega), Word.signed_of_mem (by omega) (by omega)]

lemma stored_holds {bytes : Bytes} (hroom : acc.length + bytes.length ≤ w.buffer.length) :
    (w.stored acc bytes).Holds (acc ++ bytes) := by
  refine ⟨rfl, ?_, ?_⟩
  · rw [stored, List.length_append, splice_take_end hw.length_le, hw.bytes]
  · rw [stored, splice_length hroom]
    exact hw.small

/-- A turn of the loop, once its `recv` stays inside the buffer. -/
lemma receive_eq {r : Received} (hpos : w.bufferPosition = acc.length)
    (hroom : acc.length + r.bytes.length ≤ w.buffer.length) :
    w.receive r =
      if newline ∈ r.bytes then .ok (w.stored acc r.bytes, true)
      else ((w.stored acc r.bytes).more r.bytes.length r.junk).map fun v => (v, false) := by
  have hread : ((w.stored acc r.bytes).buffer.drop acc.length).take r.bytes.length = r.bytes :=
    splice_read hw.length_le
  obtain ⟨d, hd, hiff⟩ := findDelimterFrom_spec hread
  unfold receive
  rw [recv_eq hw, if_neg (by omega)]
  change (findDelimterPosition (w.stored acc r.bytes).buffer w.bufferPosition _ >>= _) = _
  rw [findDelimterPosition, hpos, hd]
  change (if d = -1 then _ else _) = _
  by_cases hn : newline ∈ r.bytes
  · rw [if_pos hn, if_neg (by rw [hiff]; exact not_not.mpr hn)]
  · rw [if_neg hn, if_pos (hiff.mpr hn)]
    cases (w.stored acc r.bytes).more r.bytes.length r.junk <;> rfl

/-- Waiting for more keeps what the buffer holds, whether it grows or not. -/
lemma more_holds {v : FileWorker} {n : ℕ} {junk : ℕ → UInt8}
    (hpos : w.bufferPosition + n = acc.length) (h : w.more n junk = .ok v) :
    v.Holds acc ∧ v.bufferPosition = acc.length := by
  have hle := hw.length_le
  unfold more at h
  dsimp only at h
  split_ifs at h with hfull hover
  · rw [Except.ok.injEq] at h
    subst h
    refine ⟨⟨hw.total, ?_, ?_⟩, hpos⟩
    · rw [resize_take junk (by simp only [BUFFER_SIZE]; omega) hle, hw.bytes]
    · rw [resize_length]
      simp only [BUFFER_SIZE] at *
      omega
  · rw [Except.ok.injEq] at h
    subst h
    exact ⟨⟨hw.total, hw.bytes, hw.small⟩, hpos⟩

omit hw in
lemma reset_holds (w : FileWorker) (junk : ℕ → UInt8) : (w.reset junk).Holds [] :=
  ⟨rfl, rfl, by simp [reset, BUFFER_SIZE, INT_MAX]⟩

omit hw in
lemma start_holds (junk : ℕ → UInt8) : (start junk).Holds [] :=
  ⟨rfl, rfl, by simp [start, BUFFER_SIZE, INT_MAX]⟩

/-- What a turn does to the bytes held, whenever it goes through. -/
theorem receive_spec {r : Received} {v : FileWorker} {found : Bool}
    (hpos : w.bufferPosition = acc.length) (h : w.receive r = .ok (v, found)) :
    found = decide (newline ∈ r.bytes) ∧ v.Holds (acc ++ r.bytes) ∧
      (newline ∉ r.bytes → v.bufferPosition = (acc ++ r.bytes).length) := by
  by_cases hroom : acc.length + r.bytes.length ≤ w.buffer.length
  · have hstored := stored_holds hw hroom
    rw [receive_eq hw hpos hroom] at h
    by_cases hn : newline ∈ r.bytes
    · rw [if_pos hn, Except.ok.injEq, Prod.mk.injEq] at h
      obtain ⟨rfl, rfl⟩ := h
      exact ⟨by simp [hn], hstored, fun hnot => absurd hn hnot⟩
    · rw [if_neg hn] at h
      cases hm : (w.stored acc r.bytes).more r.bytes.length r.junk with
      | error e => simp [hm, Except.map] at h
      | ok u =>
        rw [hm] at h
        simp only [Except.map, Except.ok.injEq, Prod.mk.injEq] at h
        obtain ⟨rfl, rfl⟩ := h
        have hlen : (w.stored acc r.bytes).bufferPosition + r.bytes.length =
            (acc ++ r.bytes).length := by
          rw [List.length_append, stored_bufferPosition, hpos]
        obtain ⟨hholds, hp⟩ := more_holds hstored hlen hm
        exact ⟨by simp [hn], hholds, fun _ => hp⟩
  · have hover : w.recv r.bytes = .error .fault := by
      rw [recv_eq hw, if_pos (by omega)]
    rw [receive, hover] at h
    simp [bind, Except.bind] at h

end FileWorker

end Aesd
