import Aesd.DriverPositions
import Aesd.DeviceWorker

/-! The driver as its users know it: a store of commands, a mutex that a failed call has
kept or not, and a position for every open file. Over any mix of calls the driver answers
as this device does, and fails to come back where it does. -/
namespace Aesd
open AesdDev Machine Memory Separation

structure Session where
  store : CommandStore
  stuck : Bool
  position : ℕ → ℤ

namespace CommandStore

/-- The bytes that a read chooses at a file position; a negative one is past the end. -/
def readAt (s : CommandStore) (pos : ℤ) (count : ℕ) : Bytes :=
  if pos < 0 then []
  else (s.contents.drop pos.toNat).take (s.readLength pos.toNat count)

/-- The position that a seek counts from. -/
def seekFrom (s : CommandStore) (pos whence : ℤ) : Option ℤ :=
  if whence = 0 then some 0
  else if whence = 1 then some pos
  else if whence = 2 then some s.contents.length
  else none

/-- The bytes that a seek request selects. -/
def requested (s : CommandStore) (req : AesdSeekto) : Bytes :=
  selected ((s.contents.length : ℤ) - req.writeCmdOffset.toNat)
    (s.commands.drop (req.writeCmd.toNat % 10)) req.writeCmdOffset.toNat

lemma readAt_natCast (s : CommandStore) (pos count : ℕ) :
    s.readAt pos count = (s.contents.drop pos).take (s.readLength pos count) := by
  rw [readAt, if_neg (by omega), Int.toNat_natCast]

lemma readAt_length (s : CommandStore) (pos count : ℕ) :
    (s.readAt pos count).length = s.readLength pos count := by
  rw [readAt_natCast, List.length_take, List.length_drop]
  rcases Nat.lt_or_ge pos s.contents.length with hin | hpast
  · have hle := s.readLength_le hin.le count
    omega
  · rw [readLength_past hpast]
    exact Nat.zero_min _

/-- A read ends at the end of what is retained, or where it began. -/
lemma readAt_le (s : CommandStore) (pos : ℤ) (count : ℕ) :
    pos + (s.readAt pos count).length ≤ max pos s.contents.length := by
  rcases lt_or_ge pos 0 with hneg | hpos
  · rw [readAt, if_pos hneg]
    simp
  · obtain ⟨pos, rfl⟩ := Int.eq_ofNat_of_zero_le hpos
    rw [readAt_length]
    rcases Nat.lt_or_ge pos s.contents.length with hin | hpast
    · have hle := s.readLength_le hin.le count
      omega
    · rw [readLength_past hpast]
      omega

end CommandStore

namespace Session

def moved (s : Session) (file : ℕ) (pos : ℤ) : Session :=
  { s with position := Function.update s.position file pos }

/-- A call that finds the mutex kept waits until a signal comes. -/
def step (s : Session) : Call → Except Stop (Session × Reply)
  | .write _ buf a =>
    if s.stuck then
      if a.interrupted then .ok (s, ⟨-ERESTARTSYS, [], none⟩) else .error .blocked
    else if min a.uncopied buf.length = 0 then
      .ok ({ s with store := s.store.write buf }, ⟨buf.length, [], none⟩)
    else .ok ({ s with stuck := true }, ⟨-EFAULT, [], none⟩)
  | .read file count uncopied =>
    let bs := s.store.readAt (s.position file) count
    .ok (s.moved file (s.position file + bs.length),
      ⟨bs.length, bs.take (bs.length - uncopied), none⟩)
  | .llseek file off whence =>
    match s.store.seekFrom (s.position file) whence with
    | some base =>
      .ok (s.moved file (Word.signed 64 (base + off)), ⟨Word.signed 64 (base + off), [], none⟩)
    | none => .ok (s, ⟨-EINVAL, [], none⟩)
  | .ioctl _ cmd arg a =>
    if cmd ≠ AESDCHAR_IOCSEEKTO then .ok (s, ⟨0, [], none⟩)
    else if s.stuck then
      if a.interrupted then .ok (s, ⟨-ERESTARTSYS, [], none⟩) else .error .blocked
    else
      let req := fetchSeekto arg a.argUnread
      let bs := s.store.requested req
      if 10 < req.writeCmd.toNat then .ok ({ s with stuck := true }, ⟨-EINVAL, [], none⟩)
      -- more than the scratch buffer holds
      else if 500 < bs.length then .error .fault
      else
        .ok (s, ⟨0, [], some ⟨req.specialBuffer, bs.take (bs.length - a.resultUncopied),
          arg.overlay { req with lengthCopied := .ofNat bs.length } (24 - a.argUnwritten)⟩⟩)

abbrev run (s : Session) (calls : List Call) : Except Stop (Session × List Reply) :=
  Machine.run step s calls

end Session

/-- What of the driver's state its users can tell. -/
def DriverState.session (s : DriverState) : Session := ⟨s.dev.store, s.dev.lock, s.fpos⟩

/-- The memory a call asks for is granted; the allocator hands out less than 2 GiB at once. -/
def Call.Provided (s : DriverState) : Call → Prop
  | .write _ buf a => s.dev.lock = false →
    a.Granted s.dev ∧ s.dev.store.pending.length + buf.length < 2 ^ 31
  | .ioctl _ cmd _ a => cmd = AESDCHAR_IOCSEEKTO → s.dev.lock = false →
    ∃ m, a.scratch = some m ∧ s.dev.heap m.addr = none
  | _ => True

instance (s : DriverState) (c : Call) : Decidable (c.Provided s) :=
  match c with
  | .write _ buf a => inferInstanceAs (Decidable (_ = false →
      a.Granted s.dev ∧ s.dev.store.pending.length + buf.length < 2 ^ 31))
  | .ioctl _ cmd _ a => decidable_of_iff (cmd = AESDCHAR_IOCSEEKTO → s.dev.lock = false →
      ∃ m ∈ a.scratch, s.dev.heap m.addr = none) Iff.rfl
  | .read .. | .llseek .. => isTrue trivial

/-- What the machine can hold. Positions are of type `loff_t`, of any sign. -/
structure Session.Fits (s : Session) : Prop where
  commands : ∀ c ∈ s.store.commands, c.length < 2 ^ 31
  pending : s.store.pending.length < 2 ^ 31
  low : ∀ file, -2 ^ 63 ≤ s.position file
  high : ∀ file, s.position file < 2 ^ 63

namespace Session

section Fits

variable {s t : Session} {o : Reply}

lemma Fits.write (hs : s.Fits) {buf : Bytes} (hlen : s.store.pending.length + buf.length < 2 ^ 31) :
    Fits { s with store := s.store.write buf } := by
  by_cases hb : newline ∈ buf
  · have hwrite := s.store.write_closed hb
    refine ⟨fun c hc => ?_, ?_, hs.low, hs.high⟩
    · rw [show (s.store.write buf).commands = _ from congrArg CommandStore.commands hwrite] at hc
      rcases List.mem_append.mp (List.mem_of_mem_drop hc) with hc | hc
      · exact hs.commands c hc
      · rw [List.mem_singleton.mp hc, List.length_append]
        exact hlen
    · rw [show (s.store.write buf).pending = [] from congrArg CommandStore.pending hwrite]
      norm_num
  · have hwrite := s.store.write_open hb
    refine ⟨fun c hc => hs.commands c ?_, ?_, hs.low, hs.high⟩
    · rwa [show (s.store.write buf).commands = _ from congrArg CommandStore.commands hwrite] at hc
    · rw [show (s.store.write buf).pending = _ from congrArg CommandStore.pending hwrite,
        List.length_append]
      exact hlen

lemma Fits.moved (hs : s.Fits) (file : ℕ) {pos : ℤ} (hlow : -2 ^ 63 ≤ pos) (hhigh : pos < 2 ^ 63) :
    (s.moved file pos).Fits := by
  refine ⟨hs.commands, hs.pending, fun other => ?_, fun other => ?_⟩
  · change -2 ^ 63 ≤ Function.update s.position file pos other
    rw [Function.update_apply]
    split_ifs
    · exact hlow
    · exact hs.low other
  · change Function.update s.position file pos other < 2 ^ 63
    rw [Function.update_apply]
    split_ifs
    · exact hhigh
    · exact hs.high other

lemma Fits.stuck (hs : s.Fits) (stuck : Bool) : Fits { s with stuck := stuck } :=
  ⟨hs.commands, hs.pending, hs.low, hs.high⟩

/-- A step keeps what fits when the bytes of a command do. -/
lemma step_fits {c : Call} (hs : s.Fits) (hheld : s.store.contents.length < 2 ^ 63)
    (hc : ∀ file buf a, c = .write file buf a → s.stuck = false →
      s.store.pending.length + buf.length < 2 ^ 31)
    (h : s.step c = .ok (t, o)) : t.Fits := by
  cases c with
  | write file buf a =>
    simp only [step] at h
    split_ifs at h with hstuck hi hz
    all_goals
      rw [Except.ok.injEq, Prod.mk.injEq] at h
      rw [← h.1]
    · exact hs
    · exact hs.write (hc file buf a rfl (Bool.eq_false_iff.mpr hstuck))
    · exact hs.stuck true
  | read file count uncopied =>
    rw [step, Except.ok.injEq, Prod.mk.injEq] at h
    rw [← h.1]
    have hend := s.store.readAt_le (s.position file) count
    have hlow := hs.low file
    exact hs.moved file (by omega) (hend.trans_lt (max_lt (hs.high file) (by exact_mod_cast hheld)))
  | llseek file off whence =>
    simp only [step] at h
    split at h
    · rename_i base hbase
      rw [Except.ok.injEq, Prod.mk.injEq] at h
      obtain ⟨hlow, hhigh⟩ : -2 ^ 64 ≤ 2 * Word.signed 64 (base + off) ∧
        2 * Word.signed 64 (base + off) < 2 ^ 64 := Word.signed_mem 63 (base + off)
      rw [← h.1]
      exact hs.moved file (by omega) (by omega)
    · rw [Except.ok.injEq, Prod.mk.injEq] at h
      exact h.1 ▸ hs
  | ioctl file cmd arg a =>
    simp only [step] at h
    split_ifs at h
    all_goals
      rw [Except.ok.injEq, Prod.mk.injEq] at h
      rw [← h.1]
    · exact hs
    · exact hs
    · exact hs.stuck true
    · exact hs

end Fits

end Session

/-- What the driver keeps over provided calls. -/
structure InSession (s : DriverState) : Prop where
  sound : s.dev.Sound
  fits : s.session.Fits

/-- The step of the driver, as far as its users can tell. -/
def DriverState.seen (s : DriverState) (c : Call) : Except Stop (Session × Reply) :=
  (s.step c).map fun r => (r.1.session, r.2)

lemma seen_ok {s t : DriverState} {c : Call} {o : Reply} (h : s.step c = .ok (t, o)) :
    s.seen c = .ok (t.session, o) := by
  rw [DriverState.seen, h]
  rfl

section Steps

variable {s : DriverState} (hs : InSession s)

include hs

lemma InSession.held : s.dev.store.contents.length < 2 ^ 63 := by
  have hsmall := AesdDev.contents_small hs.sound.valid (by rw [settled_store]; exact hs.fits.commands)
  rw [settled_store] at hsmall
  omega

lemma InSession.retained_held : (retained s.dev).flatten.length < 2 ^ 63 := by
  rw [hs.sound.retained_eq]
  exact hs.held

lemma write_seen {file : ℕ} {buf : Bytes} {a : WriteAnswers}
    (hc : (Call.write file buf a).Provided s) :
    s.seen (.write file buf a) = s.session.step (.write file buf a) := by
  cases hlock : s.dev.lock with
  | true =>
    have hstuck : s.session.stuck = true := hlock
    simp only [DriverState.seen, DriverState.step, Session.step, aesdWrite, aesdWriteTo, hlock, hstuck, if_true]
    cases a.interrupted <;> rfl
  | false =>
    have hstuck : s.session.stuck = false := hlock
    obtain ⟨hg, -⟩ := hc hlock
    obtain ⟨d, -, hwhole, hshort⟩ :=
      aesdWrite_spec (d := s.dev.settled) hs.sound.valid hlock (granted_settled.mpr hg) buf
    rw [aesdWrite_settled hlock, settled_store] at hwhole hshort
    rw [Session.step, hstuck, if_neg Bool.false_ne_true]
    by_cases hz : min a.uncopied buf.length = 0
    · obtain ⟨hw, hfree, hstore⟩ := hwhole hz
      have hstep : s.step (.write file buf a) = .ok (⟨d, s.fpos⟩, ⟨buf.length, [], none⟩) := by
        rw [DriverState.step, hw]
        rfl
      rw [seen_ok hstep, if_pos hz, DriverState.session, hfree, hstore, ← hlock]
      rfl
    · obtain ⟨hw, hheld, hstore⟩ := hshort hz
      have hstep : s.step (.write file buf a) = .ok (⟨d, s.fpos⟩, ⟨-EFAULT, [], none⟩) := by
        rw [DriverState.step, hw]
        rfl
      rw [seen_ok hstep, if_neg hz, DriverState.session, hheld, hstore]
      rfl

/-- A negative position is a huge one to the search. -/
lemma aesdRead_negative {pos : ℤ} (hlow : -2 ^ 63 ≤ pos) (hneg : pos < 0) (count uncopied : ℕ) :
    aesdRead s.dev count pos uncopied = .ok ⟨0, pos, []⟩ := by
  apply aesdRead_none
  have hheld := hs.held
  have hword : Word.unsigned 64 pos = (pos + 2 ^ 64).toNat := by
    rw [Word.unsigned, ← Int.add_emod_right, Int.emod_eq_of_lt (by omega) (by omega)]
  have hfind := AesdDev.find_command (d := s.dev.settled) hs.sound.valid
    (by rw [settled_store]; exact hheld) (show (pos + 2 ^ 64).toNat < 2 ^ 64 by omega)
  rw [settled_store, locate_eq_none.mpr] at hfind
  · unfold readChoose
    dsimp only
    rw [hword, show aesdCircularBufferFindEntryOffsetForFpos s.dev.circBuf _ = _ from hfind]
    split_ifs <;> rfl
  · rw [← CommandStore.contents_length]
    omega

lemma read_seen (file count uncopied : ℕ) :
    s.seen (.read file count uncopied) = s.session.step (.read file count uncopied) := by
  rcases lt_or_ge (s.fpos file) 0 with hneg | hpos
  · have hnone : s.session.store.readAt (s.session.position file) count = [] := if_pos hneg
    rw [DriverState.seen, DriverState.step,
      aesdRead_negative hs (show -2 ^ 63 ≤ s.fpos file from hs.fits.low file) hneg, Session.step,
      hnone]
    simp [Except.map, bind, Except.bind, DriverState.session, Session.moved]
  · obtain ⟨pos, hfile⟩ := Int.eq_ofNat_of_zero_le hpos
    have hhigh : s.fpos file < 2 ^ 63 := hs.fits.high file
    rw [hfile] at hhigh
    have hlt : pos < 2 ^ 63 := by exact_mod_cast hhigh
    have hread := AesdDev.read_uncopied (d := s.dev.settled) hs.sound.valid
      (by rw [settled_store]; exact hs.held) hlt
      (show s.dev.settled.store.readLength pos count = _ from rfl) uncopied
    rw [settled_store] at hread
    have hbytes := s.dev.store.readAt_natCast pos count
    have hlen := s.dev.store.readAt_length pos count
    have hleft : s.dev.store.readLength pos count - min uncopied (s.dev.store.readLength pos count) =
        s.dev.store.readLength pos count - uncopied := by omega
    have hstep : s.step (.read file count uncopied) =
        .ok (⟨s.dev, Function.update s.fpos file (pos + (s.dev.store.readAt pos count).length : ℕ)⟩,
          ⟨(s.dev.store.readAt pos count).length, (s.dev.store.readAt pos count).take
            ((s.dev.store.readAt pos count).length - uncopied), none⟩) := by
      rw [DriverState.step, hfile, show aesdRead s.dev count pos uncopied = _ from hread, hlen,
        hbytes, ← hleft]
      rfl
    rw [seen_ok hstep, Session.step, show s.session.position file = pos from hfile, Session.moved,
      ← Nat.cast_add]
    rfl

lemma llseek_seen (file : ℕ) (off whence : ℤ) :
    s.seen (.llseek file off whence) = s.session.step (.llseek file off whence) := by
  have hbase : seekBase s file whence = s.dev.store.seekFrom (s.fpos file) whence := by
    rw [seekBase, hs.sound.retained_eq]
    rfl
  have hseek := llseek_eq hs.sound hs.retained_held file off whence
  rw [hbase] at hseek
  rw [DriverState.seen, DriverState.step, hseek, Session.step]
  change _ = match s.dev.store.seekFrom (s.fpos file) whence with | some _ => _ | none => _
  cases s.dev.store.seekFrom (s.fpos file) whence with
  | some base => rfl
  | none =>
    change Except.ok (DriverState.session ⟨s.dev, Function.update s.fpos file (s.fpos file)⟩, _) = _
    rw [Function.update_eq_self]

end Steps

section Requests

variable {d : AesdDev} {arg : AesdSeekto} {a : IoctlAnswers} {m : Alloc} (hv : d.settled.Valid)
  (hfree : d.lock = false) (hsmall : ∀ c ∈ d.store.commands, c.length < 2 ^ 31)
  (hscratch : a.scratch = some m) (hfresh : d.heap m.addr = none)

/-- A request that is not refused, whatever is left of its copies. -/
lemma aesdIoctl_goes {req : AesdSeekto} (hring : d.circBuf.Valid) (hfree : d.lock = false)
    (hscratch : a.scratch = some m) (hreq : fetchSeekto arg a.argUnread = req)
    (hcmd : req.writeCmd.toNat ≤ 10) :
    aesdIoctl d AESDCHAR_IOCSEEKTO arg a = (do
      let s ← seekLoop d.circBuf (.block m.addr)
        (totalBytesToRead d.circBuf req.writeCmdOffset.toNat) 10
        ⟨Function.update d.heap m.addr (some (resize m.junk 500 [])), (0 : ℕ), 0,
          req.writeCmdOffset.toNat, (d.circBuf.outOffs + req.writeCmd.toNat % 10) % 10⟩
      let (_, special) ← copyToUser s.heap (.block m.addr) 0 s.mybufferposition a.resultUncopied
      let h ← kfree s.heap (.block m.addr)
      .ok ({ d with lock := false, heap := h }, 0, some ⟨req.specialBuffer, special,
        arg.overlay { req with lengthCopied := .ofNat s.mybufferposition } (24 - a.argUnwritten)⟩)) := by
  unfold aesdIoctl
  simp only [ne_eq, not_true_eq_false, if_false, hfree, Bool.false_eq_true, hscratch,
    kmalloc_scratch, hreq]
  rw [if_neg (by omega), buffToReadFrom_eq hring hcmd]
  rfl

include hv hfree hsmall hscratch hfresh

/-- A request that fits the scratch buffer is answered with what of it arrives. -/
lemma aesdIoctl_fits {req : AesdSeekto} (hreq : fetchSeekto arg a.argUnread = req)
    (hcmd : req.writeCmd.toNat ≤ 10) {bytes : Bytes} (hbytes : d.store.requested req = bytes)
    (hfits : bytes.length ≤ 500) :
    aesdIoctl d AESDCHAR_IOCSEEKTO arg a =
      .ok (d, 0, some ⟨req.specialBuffer, bytes.take (bytes.length - a.resultUncopied),
        arg.overlay { req with lengthCopied := .ofNat bytes.length } (24 - a.argUnwritten)⟩) := by
  have hoff := req.writeCmdOffset.toNat_lt
  rw [← settled_store] at hsmall hbytes
  have hD := AesdDev.contents_small hv hsmall
  rw [CommandStore.requested, ← totalBytesToRead_eq hv (by omega) hoff,
    ← sub_zero (totalBytesToRead _ _), ← Nat.cast_zero] at hbytes
  have hroom : 0 + bytes.length ≤ (resize m.junk 500 ([] : Bytes)).length := by
    rw [resize_length]
    omega
  obtain ⟨s, hloop, hheap, hpos⟩ : ∃ s, seekLoop d.circBuf (.block m.addr)
        (totalBytesToRead d.circBuf req.writeCmdOffset.toNat) 10
        ⟨Function.update d.heap m.addr (some (resize m.junk 500 [])), (0 : ℕ), 0,
          req.writeCmdOffset.toNat, (d.circBuf.outOffs + req.writeCmd.toNat % 10) % 10⟩ = .ok s ∧
      s.heap = Function.update d.heap m.addr (some (splice (resize m.junk 500 []) 0 bytes)) ∧
      s.mybufferposition = 0 + bytes.length :=
    seekLoop_spec (d := d.settled) hv hsmall hfresh (Nat.mod_lt _ (by omega))
      (Nat.le_add_right 10 _) hoff hbytes hroom
  have hread := @splice_read _ (resize m.junk 500 []) bytes 0 (Nat.zero_le _)
  have hlen := splice_length hroom
  rw [Nat.zero_add] at hpos hroom
  have hcopy : copyToUser s.heap (.block m.addr) 0 bytes.length a.resultUncopied =
      .ok (min a.resultUncopied bytes.length, bytes.take (bytes.length - a.resultUncopied)) := by
    rw [hheap, copyToUser_ok _ (by simp only [bytesAt_update_self, Option.getD_some]; omega),
      bytesAt_update_self, Option.getD_some, hread]
    congr 3
    omega
  have hkfree : kfree s.heap (.block m.addr) = .ok d.heap := by
    simp [hheap, kfree, ← hfresh]
  have hback : { d with lock := false } = d := by rw [← hfree]
  rw [aesdIoctl_goes (d := d) hv.ring hfree hscratch hreq hcmd, hloop]
  change (copyToUser s.heap _ 0 s.mybufferposition _ >>= _) = _
  rw [hpos, hcopy]
  change (kfree s.heap _ >>= _) = _
  rw [hkfree]
  change Except.ok ({ d with lock := false }, _, _) = _
  rw [hback]

/-- A request that does not fit never comes back. -/
lemma aesdIoctl_overruns {req : AesdSeekto} (hreq : fetchSeekto arg a.argUnread = req)
    (hcmd : req.writeCmd.toNat ≤ 10) {bytes : Bytes} (hbytes : d.store.requested req = bytes)
    (hlong : 500 < bytes.length) : aesdIoctl d AESDCHAR_IOCSEEKTO arg a = .error .fault := by
  have hoff := req.writeCmdOffset.toNat_lt
  rw [← settled_store] at hsmall hbytes
  have hD := AesdDev.contents_small hv hsmall
  rw [CommandStore.requested, ← totalBytesToRead_eq hv (by omega) hoff,
    ← sub_zero (totalBytesToRead _ _), ← Nat.cast_zero] at hbytes
  have hroom : (resize m.junk 500 ([] : Bytes)).length < 0 + bytes.length := by
    rw [resize_length]
    omega
  have hloop : seekLoop d.circBuf (.block m.addr)
      (totalBytesToRead d.circBuf req.writeCmdOffset.toNat) 10
      ⟨Function.update d.heap m.addr (some (resize m.junk 500 [])), (0 : ℕ), 0,
        req.writeCmdOffset.toNat, (d.circBuf.outOffs + req.writeCmd.toNat % 10) % 10⟩ =
        .error .fault :=
    seekLoop_overrun (d := d.settled) hv hsmall hfresh (Nat.mod_lt _ (by omega))
      (Nat.le_add_right 10 _) hoff hbytes (Nat.zero_le _) hroom
  rw [aesdIoctl_goes (d := d) hv.ring hfree hscratch hreq hcmd, hloop]
  rfl

end Requests

section Runs

variable {s t : DriverState} {c : Call} {o : Reply}

lemma ioctl_seen (hs : InSession s) {file cmd : ℕ} {arg : AesdSeekto} {a : IoctlAnswers}
    (hc : (Call.ioctl file cmd arg a).Provided s) :
    s.seen (.ioctl file cmd arg a) = s.session.step (.ioctl file cmd arg a) := by
  by_cases hcmd : cmd = AESDCHAR_IOCSEEKTO
  · subst hcmd
    cases hlock : s.dev.lock with
    | true =>
      have hstuck : s.session.stuck = true := hlock
      simp only [DriverState.seen, DriverState.step, Session.step, aesdIoctl, hlock, hstuck, if_true,
        ne_eq, not_true_eq_false, if_false]
      cases a.interrupted <;> rfl
    | false =>
      have hstuck : s.session.stuck = false := hlock
      obtain ⟨m, hm, hdead⟩ := hc rfl hlock
      rw [Session.step, if_neg (not_not.mpr rfl), hstuck, if_neg Bool.false_ne_true]
      dsimp only
      by_cases hbig : 10 < (fetchSeekto arg a.argUnread).writeCmd.toNat
      · have hstep : s.step (.ioctl file AESDCHAR_IOCSEEKTO arg a) =
            .ok (⟨{ s.dev with lock := true, heap := (kmalloc s.dev.heap a.scratch 500).2 }, s.fpos⟩,
              ⟨-EINVAL, [], none⟩) := by
          rw [DriverState.step, aesdIoctl_refused hlock hbig]
          rfl
        have hstore : AesdDev.store { s.dev with
            lock := true, heap := Function.update s.dev.heap m.addr (some (resize m.junk 500 [])) } =
              s.dev.store := by
          rw [← settled_store, ← settled_store s.dev]
          exact AesdDev.store_frame (d := s.dev.settled) hs.sound.valid hdead _ true
        rw [seen_ok hstep, if_pos hbig, DriverState.session, hm, kmalloc_scratch, hstore]
        rfl
      · rw [if_neg hbig]
        split_ifs with hlong
        · rw [DriverState.seen, DriverState.step, aesdIoctl_overruns hs.sound.valid hlock hs.fits.commands hm
            hdead rfl (not_lt.mp hbig) rfl hlong]
          rfl
        · rw [DriverState.seen, DriverState.step, aesdIoctl_fits hs.sound.valid hlock hs.fits.commands hm
            hdead rfl (not_lt.mp hbig) rfl (not_lt.mp hlong)]
          rfl
  · rw [DriverState.seen, DriverState.step, aesdIoctl, if_pos hcmd, Session.step, if_pos hcmd]
    rfl

/-- Every call of a driver in session is the step of the device its users see. -/
theorem seen_eq (hs : InSession s) (hc : c.Provided s) : s.seen c = s.session.step c := by
  cases c with
  | write => exact write_seen hs hc
  | read => exact read_seen hs _ _ _
  | llseek => exact llseek_seen hs _ _ _
  | ioctl => exact ioctl_seen hs hc

lemma provided_fresh {file : ℕ} {buf : Bytes} {a : WriteAnswers} (hg : a.Granted s.dev) :
    (Call.write file buf a).Fresh s.dev := by
  obtain ⟨hentry, m, hm, hdead, hne⟩ := hg
  refine ⟨fun hnone e he => ?_, fun m' hm' => ?_⟩
  · obtain ⟨e', he', hdead'⟩ := hentry hnone
    rwa [← Option.some.inj (he'.symm.trans he)]
  · rw [← Option.some.inj (hm.symm.trans hm')]
    exact ⟨hdead, hne⟩

/-- A call leaves the device as it is, or what it is given is not live. -/
lemma provided_fresh_or (hc : c.Provided s) (h : s.step c = .ok (t, o)) :
    t.dev = s.dev ∨ c.Fresh s.dev := by
  cases step_outcome h with
  | write hw =>
    cases hlock : s.dev.lock with
    | true =>
      rw [aesdWrite, aesdWriteTo, if_pos hlock] at hw
      split_ifs at hw
      rw [Except.ok.injEq, Prod.mk.injEq] at hw
      exact Or.inl hw.1.symm
    | false => exact Or.inr (provided_fresh (hc hlock).1)
  | read => exact Or.inl rfl
  | llseek => exact Or.inl rfl
  | @ioctl file cmd arg a d ret answer hi =>
    have hfresh : cmd = AESDCHAR_IOCSEEKTO → s.dev.lock = false →
        (Call.ioctl file cmd arg a).Fresh s.dev := by
      intro hcmd hfree m' hm'
      obtain ⟨m, hm, hdead⟩ := hc hcmd hfree
      rwa [← Option.some.inj (hm.symm.trans hm')]
    cases aesdIoctl_outcome hi with
    | other => exact Or.inl rfl
    | interrupted => exact Or.inl rfl
    | refused hcmd hfree => exact Or.inr (hfresh hcmd hfree)
    | answered hcmd hfree => exact Or.inr (hfresh hcmd hfree)

lemma provided_sound (hs : s.dev.Sound) (hc : c.Provided s) (h : s.step c = .ok (t, o)) :
    t.dev.Sound := by
  rcases provided_fresh_or hc h with hsame | hfresh
  · rwa [hsame]
  · exact step_sound hs hfresh h

lemma provided_inSession (hs : InSession s) (hc : c.Provided s) (h : s.step c = .ok (t, o)) :
    InSession t := by
  refine ⟨provided_sound hs.sound hc h, ?_⟩
  have hseen := (seen_eq hs hc).symm.trans (seen_ok h)
  refine Session.step_fits hs.fits hs.held ?_ hseen
  rintro file buf a rfl hfree
  exact (hc hfree).2

/-- The driver over a run of provided calls, as far as its users can tell. -/
theorem run_session (hs : InSession s) {calls : List Call}
    (hcalls : Guarded DriverState.step (fun s c => c.Provided s) s calls) :
    (s.run calls).map (fun r => (r.1.session, r.2)) = s.session.run calls :=
  run_map DriverState.session InSession (fun _ _ hs hc => seen_eq hs hc)
    (fun _ _ _ _ hs hc h => provided_inSession hs hc h) hs hcalls

end Runs

/-- What the driver does over whole runs. From any state that calls reach and for any mix of
calls on any files, as long as the memory they ask for is granted, the driver gives the
replies of the device its users see, ends in the state that device ends in, and where a
call does not come back it is the same call, for the same reason. -/
theorem driver_session (s : DriverState) (hs : Reachable s) (hfits : s.session.Fits)
    (calls : List Call) (hcalls : Guarded DriverState.step (fun s c => c.Provided s) s calls) :
    (s.run calls).map (fun r => (r.1.session, r.2)) = s.session.run calls :=
  run_session ⟨hs.sound, hfits⟩ hcalls

lemma fresh_fits : DriverState.fresh.session.Fits :=
  ⟨by simp [DriverState.session, AesdDev.store, DriverState.fresh, aesdCircularBufferInit,
    AesdCircularBuffer.entries, AesdCircularBuffer.count], by decide, fun _ => by
    norm_num [DriverState.session, DriverState.fresh], fun _ => by
    norm_num [DriverState.session, DriverState.fresh]⟩

/-- A line, a seek request, and a file that reads part of the line and seeks back. -/
def mixedCalls : List Call :=
  [.write 0 [97, 98, 10] (granting 3 4),
    .ioctl 0 AESDCHAR_IOCSEEKTO ⟨0, 1, 0, 7⟩ (granted false ⟨5, 0⟩),
    .read 1 2 1, .llseek 1 (-1) 1, .read 1 9 0]

theorem driver_session_mixed :
    (DriverState.fresh.run mixedCalls).map (fun r => (r.1.session, r.2)) =
      DriverState.fresh.session.run mixedCalls := by
  refine driver_session .fresh fresh_reached.reachable fresh_fits mixedCalls ?_
  refine Guarded.cons ?_ rfl ⟨?_, fun _ _ _ => guarded_of_forall (fun _ => ?_) _⟩
  · exact fun _ => ⟨⟨nofun, _, rfl, rfl, nofun⟩, by decide⟩
  · exact fun _ _ => ⟨_, rfl, rfl⟩
  · simp [Call.Provided]

/-- A call that waits for the mutex. -/
def Call.Locks : Call → Prop
  | .write .. => True
  | .ioctl _ cmd _ _ => cmd = AESDCHAR_IOCSEEKTO
  | _ => False

section Kept

variable {s t : DriverState} {c : Call} {o : Reply}

/-- Behind a mutex that is kept a call changes nothing, and comes back only for a signal. -/
lemma stuck_step (hheld : s.dev.lock = true) (h : s.step c = .ok (t, o)) :
    t.dev = s.dev ∧ (c.Locks → o = ⟨-ERESTARTSYS, [], none⟩) := by
  cases step_outcome h with
  | write hw =>
    rw [aesdWrite, aesdWriteTo, if_pos hheld] at hw
    split_ifs at hw
    rw [Except.ok.injEq, Prod.mk.injEq] at hw
    exact ⟨hw.1.symm, fun _ => by rw [← hw.2]⟩
  | read => exact ⟨rfl, False.elim⟩
  | llseek => exact ⟨rfl, False.elim⟩
  | ioctl hi =>
    cases aesdIoctl_outcome hi with
    | other hcmd => exact ⟨rfl, fun he => absurd he hcmd⟩
    | interrupted => exact ⟨rfl, fun _ => rfl⟩
    | refused _ hfree => simp [hheld] at hfree
    | answered _ hfree => simp [hheld] at hfree

lemma stuck_run {calls : List Call} {os : List Reply} (hheld : s.dev.lock = true)
    (h : s.run calls = .ok (t, os)) :
    t.dev = s.dev ∧
      List.Forall₂ (fun c o => c.Locks → o = (⟨-ERESTARTSYS, [], none⟩ : Reply)) calls os := by
  induction calls generalizing s os with
  | nil =>
    rw [DriverState.run, run_nil, Except.ok.injEq, Prod.mk.injEq] at h
    exact ⟨congrArg DriverState.dev h.1.symm, h.2 ▸ .nil⟩
  | cons c calls ih =>
    obtain ⟨u, o, os', hc, hrest, rfl⟩ := run_cons_ok.mp h
    obtain ⟨hdev, hreply⟩ := stuck_step hheld hc
    obtain ⟨hlater, hreplies⟩ := ih (by rw [hdev, hheld]) hrest
    exact ⟨hlater.trans hdev, .cons hreply hreplies⟩

/-- A write whose copy fails leaves the store as it was. -/
lemma faulted_store {file : ℕ} {buf : Bytes} {a : WriteAnswers} {d : AesdDev} {ret : ℤ}
    (hs : s.dev.Sound) (hfree : s.dev.lock = false) (hfresh : (Call.write file buf a).Fresh s.dev)
    (hkeeps : ¬(Call.write file buf a).ReleasesLock) (hw : aesdWrite s.dev buf a = .ok (d, ret)) :
    ret = -EFAULT ∧ d.store = s.dev.store := by
  obtain ⟨lost, hexact⟩ := hs.account
  rw [← aesdWrite_settled hfree] at hw
  rcases aesdWrite_ok_cases hs.valid hexact hfree (fresh_settled.mpr hfresh) hw with
    ⟨rfl, -⟩ | ⟨a', hg, huncopied, hsame⟩
  · exact absurd (Nat.min_zero _) hkeeps
  · obtain ⟨d', -, -, hshort⟩ := aesdWrite_spec (d := s.dev.settled) hs.valid hfree hg buf
    rw [huncopied, hsame, hw, Except.ok.injEq, Prod.mk.injEq, settled_store] at hshort
    obtain ⟨⟨rfl, hret⟩, -, hstore⟩ := hshort hkeeps
    exact ⟨hret, hstore⟩

/-- A call that keeps the mutex reports an error and leaves the store as it was. -/
lemma keeping_step (hs : s.dev.Sound) (hfree : s.dev.lock = false) (hfresh : c.Fresh s.dev)
    (hkeeps : ¬c.ReleasesLock) (h : s.step c = .ok (t, o)) :
    (o.ret = -EFAULT ∨ o.ret = -EINVAL) ∧ t.dev.lock = true ∧ t.dev.store = s.dev.store := by
  have hlock := (not_iff_not.mpr (DriverState.step_lock hfree h)).mpr hkeeps
  rw [Bool.not_eq_false] at hlock
  cases step_outcome h with
  | @write file buf a d ret hw =>
    obtain ⟨hret, hstore⟩ := faulted_store hs hfree hfresh hkeeps hw
    exact ⟨Or.inl hret, hlock, hstore⟩
  | read => exact absurd trivial hkeeps
  | llseek => exact absurd trivial hkeeps
  | @ioctl file cmd arg a d ret answer hi =>
    cases aesdIoctl_outcome hi with
    | other hcmd => exact absurd (fun he => absurd he hcmd) hkeeps
    | interrupted _ hheld => simp [hfree] at hheld
    | refused _ _ hbig =>
      refine ⟨Or.inr rfl, hlock, ?_⟩
      cases hm : a.scratch with
      | none => rfl
      | some m =>
        rw [← settled_store, ← settled_store s.dev]
        exact AesdDev.store_frame (d := s.dev.settled) hs.valid (hfresh m hm) _ true
    | answered _ _ hsmall => exact absurd (fun _ => hsmall) hkeeps

end Kept

/-- One failure is final. Of a run from any state that calls reach, either every call gives
the mutex back, or there is a first that keeps it: it reports an error, what the device
holds is what the calls before it left, and of the later calls every write and every seek
request that comes back at all was interrupted while it waited. -/
theorem kept_mutex_freezes (s : DriverState) (hs : Reachable s) (hfree : s.dev.lock = false)
    (calls : List Call) (hfresh : Guarded DriverState.step (fun s c => c.Fresh s.dev) s calls)
    (t : DriverState) (os : List Reply) (hrun : s.run calls = .ok (t, os)) :
    ((∀ c ∈ calls, c.ReleasesLock) ∧ t.dev.lock = false) ∨
    ∃ pre c post u ps o qs, calls = pre ++ c :: post ∧ os = ps ++ o :: qs ∧
      (∀ c ∈ pre, c.ReleasesLock) ∧ s.run pre = .ok (u, ps) ∧
      (o.ret = -EFAULT ∨ o.ret = -EINVAL) ∧ t.dev.lock = true ∧ t.dev.store = u.dev.store ∧
      List.Forall₂ (fun c o => c.Locks → o = (⟨-ERESTARTSYS, [], none⟩ : Reply)) post qs := by
  have hsound := hs.sound
  clear hs
  induction calls generalizing s os with
  | nil =>
    rw [DriverState.run, run_nil, Except.ok.injEq, Prod.mk.injEq] at hrun
    exact Or.inl ⟨by simp, hrun.1 ▸ hfree⟩
  | cons c calls ih =>
    obtain ⟨u, o, os', hc, hrest, rfl⟩ := run_cons_ok.mp hrun
    by_cases hreleases : c.ReleasesLock
    · rcases ih u ((DriverState.step_lock hfree hc).mpr hreleases) (hfresh.2 u o hc) os' hrest
        (step_sound hsound hfresh.1 hc) with
        ⟨hall, hend⟩ | ⟨pre, c', post, v, ps, o', qs, rfl, rfl, hpre, hrun', hfinal⟩
      · exact Or.inl ⟨List.forall_mem_cons.mpr ⟨hreleases, hall⟩, hend⟩
      · exact Or.inr ⟨c :: pre, c', post, v, o :: ps, o', qs, rfl, rfl,
          List.forall_mem_cons.mpr ⟨hreleases, hpre⟩, run_cons_ok.mpr ⟨u, o, ps, hc, hrun', rfl⟩,
          hfinal⟩
    · obtain ⟨herror, hheld, hstore⟩ := keeping_step hsound hfree hfresh.1 hreleases hc
      obtain ⟨hdev, hlater⟩ := stuck_run hheld hrest
      exact Or.inr ⟨[], c, calls, s, [], o, os', rfl, rfl, by simp, rfl, herror, by rw [hdev, hheld],
        by rw [hdev, hstore], hlater⟩

/-- A faulted write, and a line that waits behind it. -/
def faultedCalls : List Call :=
  [DriverState.faultedWrite, .write 0 [10] ⟨true, none, none, false, 0⟩]

theorem kept_mutex_freezes_fault :
    ∃ t os, DriverState.fresh.run faultedCalls = .ok (t, os) ∧
      (((∀ c ∈ faultedCalls, c.ReleasesLock) ∧ t.dev.lock = false) ∨
      ∃ pre c post u ps o qs, faultedCalls = pre ++ c :: post ∧ os = ps ++ o :: qs ∧
        (∀ c ∈ pre, c.ReleasesLock) ∧ DriverState.fresh.run pre = .ok (u, ps) ∧
        (o.ret = -EFAULT ∨ o.ret = -EINVAL) ∧ t.dev.lock = true ∧ t.dev.store = u.dev.store ∧
        List.Forall₂ (fun c o => c.Locks → o = (⟨-ERESTARTSYS, [], none⟩ : Reply)) post qs) := by
  refine ⟨_, _, rfl, kept_mutex_freezes .fresh fresh_reached.reachable rfl faultedCalls ?_ _ _ rfl⟩
  exact ⟨by decide, fun t o _ => ⟨⟨fun _ _ => nofun, fun _ => nofun⟩, fun _ _ _ => trivial⟩⟩

end Aesd
