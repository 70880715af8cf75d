import Aesd.Driver
import Aesd.FileWorker

/-! Device mode: the seek command a chunk may hold, and the handling of one chunk by
`connection_worker`, from aesdsocket.c. The device opens, and what is sent goes out in full. -/
namespace Aesd
open Memory

/-- `"AESDCHAR_IOCSEEKTO:"`. -/
def testString : Bytes :=
  ascii ['A', 'E', 'S', 'D', 'C', 'H', 'A', 'R', '_', 'I', 'O', 'C', 'S', 'E', 'E', 'K', 'T', 'O', ':']

/-- The part of the stack the two arrays of four bytes lie in. A store past an array goes to
the bytes behind it; none of them but the arrays is read again. -/
structure Frame where
  bytes : Bytes
  startBufferString : ℕ
  startOffsetString : ℕ

namespace Frame

def put (f : Frame) (i : ℕ) (c : UInt8) : Except Stop Frame :=
  if i < f.bytes.length then .ok { f with bytes := f.bytes.set i c } else .error .fault

/-- The second loop, up to a comma, and the terminator behind what it copied. Returns the
bytes behind the comma. -/
def putBuffer (f : Frame) : Bytes → ℕ → Except Stop (Frame × Bytes)
  | [], j => do
    let f ← f.put (f.startBufferString + j) 0
    .ok (f, [])
  | c :: cs, j =>
    if c = UInt8.ofNat ','.toNat then do
      let f ← f.put (f.startBufferString + j) 0
      .ok (f, cs)
    else do
      let f ← f.put (f.startBufferString + j) c
      f.putBuffer cs (j + 1)

/-- The third loop. The terminator goes to the index `i` of the line feed in the chunk. -/
def putOffset (f : Frame) : Bytes → ℕ → ℕ → Except Stop Frame
  | [], _, _ => .ok f
  | c :: cs, i, k => do
    let f ← f.put (f.startOffsetString + k) c
    let f ← if c = newline then f.put (f.startOffsetString + i) 0 else .ok f
    f.putOffset cs (i + 1) (k + 1)

end Frame

def isSpace (c : UInt8) : Bool := c = 32 || (9 ≤ c && c ≤ 13)

def isDigit (c : UInt8) : Bool := 48 ≤ c && c ≤ 57

/-- `atoi`: `strtol`, which stops at its bounds, converted to `int`. Digits that go on to
the end of the memory at hand have no meaning. -/
def atoi (str : Bytes) : Except Stop ℤ :=
  let str := str.dropWhile isSpace
  let negative := str.head? = some (UInt8.ofNat '-'.toNat)
  let str := if negative ∨ str.head? = some (UInt8.ofNat '+'.toNat) then str.tail else str
  let digits := str.takeWhile isDigit
  if digits.length = str.length then .error .fault
  else
    let n : ℤ := digits.foldl (fun v c => 10 * v + (c.toNat - 48 : ℕ)) 0
    .ok (Word.signed 32 (if negative then max (-n) (-2 ^ 63) else min n (2 ^ 63 - 1)))

/-- Does the chunk of `length` bytes at the start of `buffer` hold a seek command? -/
def recognised (buffer : Bytes) (length : ℕ) : Prop :=
  23 ≤ length ∧ length ≤ 27 ∧
    testString <:+: ((buffer.set length 0).takeWhile fun c => c ≠ 0)

instance (buffer : Bytes) (length : ℕ) : Decidable (recognised buffer length) :=
  inferInstanceAs (Decidable (_ ∧ _ ∧ _))

/-- The two numbers of a seek command, as the fields of the request take them. -/
def seekNumbers (chunk : Bytes) (f : Frame) : Except Stop (UInt32 × UInt32) := do
  let (f, offsetPart) ← f.putBuffer ((chunk.dropWhile fun c => c ≠ UInt8.ofNat ':'.toNat).drop 1) 0
  let f ← f.putOffset offsetPart (chunk.length - offsetPart.length) 0
  let startBufferPosition ← atoi (f.bytes.drop f.startBufferString)
  let startBufferOffset ← atoi (f.bytes.drop f.startOffsetString)
  .ok (.ofNat (Word.unsigned 32 startBufferPosition), .ofNat (Word.unsigned 32 startBufferOffset))

/-- The device, the receive buffer and the result of `handle_ioctl_commainds`. `bufferAddr`
is the address of the buffer, to which the driver copies. -/
def handleIoctlCommainds (d : AesdDev) (buffer : Bytes) (bufferAddr : UInt64) (length : ℕ)
    (f : Frame) (a : IoctlAnswers) : Except Stop (AesdDev × Bytes × ℤ) :=
  if recognised buffer length then do
    let (startBufferPosition, startBufferOffset) ← seekNumbers (buffer.take length) f
    let test : AesdSeekto := ⟨startBufferPosition, startBufferOffset, 0, bufferAddr⟩
    let (d, _, answer) ← aesdIoctl d AESDCHAR_IOCSEEKTO test a
    match answer with
    | none => .ok (d, buffer.set length 0, 0)
    | some r =>
      if buffer.length < r.special.length then .error .fault
      else
        .ok (d, splice (buffer.set length 0) 0 r.special, Word.signed 64 r.arg.lengthCopied.toNat)
  else .ok (d, buffer, -1)

/-- The read-out loop of `dump_file_to_socket` on the device: seek, then read 100 bytes. -/
def dumpDeviceFrom (d : AesdDev) : ℕ → ℤ → ℤ → Except Stop Bytes
  | 0, _, _ => .error .spins
  | fuel + 1, fpos, currFileOffset => do
    let r ← aesdRead d 100 (aesdLlseek d fpos currFileOffset 0).1 0
    if r.retval > 0 then
      let sent ← dumpDeviceFrom d fuel r.fpos (currFileOffset + r.retval)
      .ok (r.delivered ++ sent)
    else .ok []

def dumpDeviceToSocket (d : AesdDev) : Except Stop Bytes :=
  dumpDeviceFrom d (getLengthOfAllEntriesInBuffer d.circBuf + 1) 0 0

structure DeviceTurn where
  dev : AesdDev
  buffer : Bytes
  sent : Bytes

/-- What `connection_worker` does with a chunk of `bytesReceived` bytes at the start of its
buffer. -/
def deviceTurn (d : AesdDev) (buffer : Bytes) (bufferAddr : UInt64) (bytesReceived : ℕ) (f : Frame)
    (seekAnswers : IoctlAnswers) (writeAnswers : WriteAnswers) : Except Stop DeviceTurn := do
  let (d, buffer, bytesReceivedFromIoctl) ←
    handleIoctlCommainds d buffer bufferAddr bytesReceived f seekAnswers
  if bytesReceivedFromIoctl > 1 then
    .ok ⟨d, buffer, buffer.take bytesReceivedFromIoctl.toNat⟩
  else if bytesReceivedFromIoctl = 0 then .ok ⟨d, buffer, []⟩
  else
    let (d, _) ← aesdWrite d (buffer.take bytesReceived) writeAnswers
    let delimiterPosition ← findDelimterPosition buffer 0 bytesReceived
    if delimiterPosition ≠ -1 then
      let sent ← dumpDeviceToSocket d
      .ok ⟨d, buffer, sent⟩
    else .ok ⟨d, buffer, []⟩

end Aesd
