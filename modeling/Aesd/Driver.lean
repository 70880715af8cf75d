import Aesd.CircularBuffer

/-! The character driver, from main.c. A call takes the device, its arguments and what
the kernel answers while it runs; it returns the device and its results, or the reason
it never returns. `circ_buf` and `read_buf` point to structures whose fields are kept
here and whose blocks are in the heap. The entry sizes a write counts up are lengths of
live blocks, so they do not wrap. -/
namespace Aesd
open Memory

structure ReadBuf where
  addr : ℕ
  entry : AesdBufferEntry
  deriving DecidableEq, Repr

structure AesdDev where
  lock : Bool
  readBuf : Option ReadBuf
  circBufAddr : ℕ
  circBuf : AesdCircularBuffer
  heap : Heap

/-- `sizeof(struct aesd_buffer_entry)` and `sizeof(struct aesd_circular_buffer)`. -/
def sizeofBufferEntry : ℕ := 16
def sizeofCircularBuffer : ℕ := 168

def aesdSetupCdev (circ entry : Option Alloc) : Except Stop AesdDev :=
  match kmalloc (fun _ => none) circ sizeofCircularBuffer with
  | (.block c, h) =>
    match kmalloc h entry sizeofBufferEntry with
    | (.block r, h) =>
      .ok { lock := false, readBuf := some ⟨r, .zero⟩, circBufAddr := c,
            circBuf := aesdCircularBufferInit, heap := h }
    | _ => .error .fault
  | _ => .error .fault

/-- The kernel's answers to one `aesd_write`: whether a signal ends the sleep on a lock
that is taken, what the two allocations give, whether `krealloc` resizes in place, and how
many bytes `copy_from_user` leaves. -/
structure WriteAnswers where
  interrupted : Bool
  entryAlloc : Option Alloc
  dataAlloc : Option Alloc
  inPlace : Bool
  uncopied : ℕ

/-- A failed allocation is dereferenced at once. -/
def ensureReadBuf (h : Heap) (rb : Option ReadBuf) (a : WriteAnswers) :
    Except Stop (Heap × ReadBuf) :=
  match rb with
  | some r => .ok (h, r)
  | none =>
    match kmalloc h a.entryAlloc sizeofBufferEntry with
    | (.block r, h) => .ok (h, ⟨r, .zero⟩)
    | _ => .error .fault

def growReadBuf (h : Heap) (r : ReadBuf) (count : ℕ) (a : WriteAnswers) :
    Except Stop (Heap × ReadBuf) :=
  if r.entry.buffptr = .null then
    let p := kmalloc h a.dataAlloc count
    .ok (p.2, ⟨r.addr, ⟨p.1, 0⟩⟩)
  else do
    let p ← krealloc h r.entry.buffptr (r.entry.size + count) a.dataAlloc a.inPlace
    .ok (p.2, ⟨r.addr, ⟨p.1, r.entry.size⟩⟩)

/-- The loop over the bytes just copied: is one a line feed, and the size counted up. -/
def scanWritten (currdata : Bytes) (size : ℕ) : Bool × ℕ :=
  currdata.foldl (fun s mychar => (if mychar = newline then true else s.1, s.2 + 1)) (false, size)

/-- Hand the pending command to the ring and free what the ring gives back. -/
def commitReadBuf (d : AesdDev) (h : Heap) (r : ReadBuf) : Except Stop AesdDev := do
  let added := aesdCircularBufferAddEntry d.circBuf r.entry
  let h ← if added.2 ≠ .null then kfree h added.2 else .ok h
  .ok { d with circBuf := added.1, readBuf := none, heap := h }

/-- The way of a write to one of its four ends: a signal while it waits, a copy that falls
short, and a pending command left open or closed. -/
def aesdWriteTo {β : Type} (d : AesdDev) (buf : Bytes) (a : WriteAnswers) (interrupted : β)
    (short stillOpen : Heap → ReadBuf → β) (closed : Heap → ReadBuf → Except Stop β) :
    Except Stop β :=
  if d.lock then
    if a.interrupted then .ok interrupted else .error .blocked
  else do
    let (h, r) ← ensureReadBuf d.heap d.readBuf a
    let (h, r) ← growReadBuf h r buf.length a
    let (retval, h) ← copyFromUser h r.entry.buffptr r.entry.size buf a.uncopied
    if retval ≠ 0 then .ok (short h r)
    else
      let currdata ← loadRun h r.entry.buffptr r.entry.size buf.length
      let (terminated, size) := scanWritten currdata r.entry.size
      let r : ReadBuf := ⟨r.addr, ⟨r.entry.buffptr, size⟩⟩
      if terminated then closed h r else .ok (stillOpen h r)

def aesdWrite (d : AesdDev) (buf : Bytes) (a : WriteAnswers) : Except Stop (AesdDev × ℤ) :=
  aesdWriteTo d buf a (d, -ERESTARTSYS)
    -- the early return keeps the lock
    (fun h r => ({ d with lock := true, readBuf := some r, heap := h }, -EFAULT))
    (fun h r => ({ d with lock := false, readBuf := some r, heap := h }, buf.length))
    fun h r => do
      let d ← commitReadBuf d h r
      .ok ({ d with lock := false }, buf.length)

/-- Returns the file position after the call and the call's result. -/
def aesdLlseek (d : AesdDev) (fpos off whence : ℤ) : ℤ × ℤ :=
  let newpos : Option ℕ :=
    if whence = 0 then some (Word.unsigned 64 off)
    else if whence = 1 then some (Word.unsigned 64 (fpos + off))
    else if whence = 2 then some (Word.unsigned 64 (getLengthOfAllEntriesInBuffer d.circBuf + off))
    else none
  match newpos with
  | none => (fpos, -EINVAL)
  | some newpos =>
    if newpos < 0 then (fpos, -EINVAL) else (Word.signed 64 newpos, Word.signed 64 newpos)

/-- The count a read goes on with; the comparison is of unsigned words. -/
def readCount (d : AesdDev) (count : ℕ) (fpos : ℤ) : ℕ :=
  let total := Word.signed 64 (getLengthOfAllEntriesInBuffer d.circBuf)
  if count > Word.unsigned 64 total then Word.unsigned 64 (total - fpos) else count

/-- First half of `aesd_read`: the pointer, offset and byte count to copy, if any. -/
def readChoose (d : AesdDev) (count : ℕ) (fpos : ℤ) : Except Stop (Option (Ptr × ℕ × ℕ)) :=
  let count := readCount d count fpos
  if count = 0 then .ok none
  else do
    match ← aesdCircularBufferFindEntryOffsetForFpos d.circBuf (Word.unsigned 64 fpos) with
    | none => .ok none
    | some (i, offset) =>
      let e := d.circBuf.entryAt i
      let left := Word.unsigned 64 ((e.size : ℤ) - offset)
      let bytesToCopy := if left < count then left else count
      let bytesToCopy := if left > count then count else bytesToCopy
      .ok (some (e.buffptr, offset, bytesToCopy))

structure ReadResult where
  retval : ℤ
  fpos : ℤ
  delivered : Bytes
  deriving DecidableEq, Repr

/-- What `copy_to_user` leaves uncopied is not looked at. -/
def aesdRead (d : AesdDev) (count : ℕ) (fpos : ℤ) (uncopied : ℕ) : Except Stop ReadResult := do
  match ← readChoose d count fpos with
  | none => .ok ⟨0, fpos, []⟩
  | some (p, offset, n) =>
    let (_, bs) ← copyToUser d.heap p offset n uncopied
    .ok ⟨Word.signed 64 n, Word.signed 64 (fpos + n), bs⟩

/-- `struct aesd_seekto`, 24 bytes; `special_buffer` is a user address. -/
structure AesdSeekto where
  writeCmd : UInt32
  writeCmdOffset : UInt32
  lengthCopied : UInt64
  specialBuffer : UInt64
  deriving DecidableEq, Repr

/-- A little-endian field of `width` bytes at `at_` after the first `copied` bytes of its
structure have been replaced. -/
def overlayField (old new width at_ copied : ℕ) : ℕ :=
  let m := min width (copied - at_)
  new % 256 ^ m + old / 256 ^ m * 256 ^ m

/-- `new` copied over `old`, of which only the first `copied` bytes arrive. -/
def AesdSeekto.overlay (old new : AesdSeekto) (copied : ℕ) : AesdSeekto :=
  if 24 ≤ copied then new
  else
    { writeCmd := .ofNat (overlayField old.writeCmd.toNat new.writeCmd.toNat 4 0 copied)
      writeCmdOffset :=
        .ofNat (overlayField old.writeCmdOffset.toNat new.writeCmdOffset.toNat 4 4 copied)
      lengthCopied :=
        .ofNat (overlayField old.lengthCopied.toNat new.lengthCopied.toNat 8 8 copied)
      specialBuffer :=
        .ofNat (overlayField old.specialBuffer.toNat new.specialBuffer.toNat 8 16 copied) }

/-- The kernel's answers to one `aesd_ioctl`: interruption, the scratch buffer, and the
bytes left by the copies of the request, of the result and of the request back. -/
structure IoctlAnswers where
  interrupted : Bool
  scratch : Option Alloc
  argUnread : ℕ
  resultUncopied : ℕ
  argUnwritten : ℕ

/-- The request as the driver sees it; what could not be copied reads as zeros. -/
def fetchSeekto (arg : AesdSeekto) (unread : ℕ) : AesdSeekto :=
  AesdSeekto.overlay ⟨0, 0, 0, 0⟩ arg (24 - unread)

structure SeekState where
  heap : Heap
  bytesSent : ℤ
  mybufferposition : ℕ
  writeCmdOffset : ℕ
  buffToRead : ℕ

/-- The inner loop: `n` bytes from `src`, at the 32-bit index `i + off`, to `mybuffer`. -/
def seekCopy (src mybuffer : Ptr) (off : ℕ) : ℕ → ℕ → ℕ → Heap → Except Stop (Heap × ℕ)
  | 0, _, pos, h => .ok (h, pos)
  | n + 1, i, pos, h => do
    let c ← loadRun h src ((i + off) % 2 ^ 32) 1
    let h ← storeRun h mybuffer pos c
    seekCopy src mybuffer off n (i + 1) (pos + 1) h

def nextSlot (i : ℕ) : ℕ := if i + 1 = 10 then 0 else i + 1

/-- The outer loop over the slots. -/
def seekLoop (b : AesdCircularBuffer) (mybuffer : Ptr) (totalBytesToRead : ℤ) :
    ℕ → SeekState → Except Stop SeekState
  | 0, _ => .error .spins
  | fuel + 1, s =>
    if s.bytesSent < totalBytesToRead then do
      let e := b.entryAt s.buffToRead
      let n := (Word.signed 64 ((e.size : ℤ) - s.writeCmdOffset)).toNat
      let (h, pos) ← seekCopy e.buffptr mybuffer s.writeCmdOffset n 0 s.mybufferposition s.heap
      let next := nextSlot s.buffToRead
      let s : SeekState := ⟨h, s.bytesSent + n, pos, 0, next⟩
      if next = b.outOffs then .ok s else seekLoop b mybuffer totalBytesToRead fuel s
    else .ok s

/-- The byte budget of the outer loop. -/
def totalBytesToRead (b : AesdCircularBuffer) (writeCmdOffset : ℕ) : ℤ :=
  let total := Word.signed 64 ((getLengthOfAllEntriesInBuffer b : ℤ) - writeCmdOffset)
  if total < 1 then 0 else total

/-- The slot the outer loop starts at. -/
def buffToReadFrom (b : AesdCircularBuffer) (writeCmd : ℕ) : ℕ :=
  let buffToRead := b.outOffs + writeCmd
  if buffToRead > 9 then buffToRead - 10 else buffToRead

/-- What a seek request leaves in user memory: the bytes stored from the address
`target` on, and the request structure written back. -/
structure SeekResult where
  target : UInt64
  special : Bytes
  arg : AesdSeekto
  deriving DecidableEq, Repr

/-- `AESDCHAR_IOCSEEKTO`, that is `_IOWR(0x16, 1, struct aesd_seekto)`. -/
def AESDCHAR_IOCSEEKTO : ℕ := 0xC0181601

def aesdIoctl (d : AesdDev) (cmd : ℕ) (arg : AesdSeekto) (a : IoctlAnswers) :
    Except Stop (AesdDev × ℤ × Option SeekResult) :=
  if cmd ≠ AESDCHAR_IOCSEEKTO then .ok (d, 0, none)
  else if d.lock then
    if a.interrupted then .ok (d, -ERESTARTSYS, none) else .error .blocked
  else
    let (mybuffer, h) := kmalloc d.heap a.scratch 500
    let myseek := fetchSeekto arg a.argUnread
    let writeCmd := myseek.writeCmd.toNat
    let writeCmdOffset := myseek.writeCmdOffset.toNat
    -- the early return keeps the lock and the scratch buffer
    if writeCmd > 10 then .ok ({ d with lock := true, heap := h }, -EINVAL, none)
    else do
      let s ← seekLoop d.circBuf mybuffer (totalBytesToRead d.circBuf writeCmdOffset) 10
        ⟨h, 0, 0, writeCmdOffset, buffToReadFrom d.circBuf writeCmd⟩
      let (_, special) ← copyToUser s.heap mybuffer 0 s.mybufferposition a.resultUncopied
      let answered := { myseek with lengthCopied := .ofNat s.mybufferposition }
      let h ← kfree s.heap mybuffer
      .ok ({ d with lock := false, heap := h }, 0,
        some ⟨myseek.specialBuffer, special, arg.overlay answered (24 - a.argUnwritten)⟩)

end Aesd
