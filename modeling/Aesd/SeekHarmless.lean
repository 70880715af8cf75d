import Aesd.DriverSession

/-! Whether a seek command of a client is harmless, over every state that calls of any kind
reach. A request that selects just one byte is taken for data, one that selects more than
the scratch buffer holds never comes back, and neither does one that waits for a mutex that
an earlier call has kept, unless a signal comes. -/
namespace Aesd
open AesdDev Machine Memory

/-- The handling of a chunk ends, changes neither entries nor pending bytes, and sends just
the bytes that the driver answered the request `test` with. -/
def SeekHarmless (d : AesdDev) (buffer : Bytes) (bufferAddr : UInt64) (length : ℕ) (f : Frame)
    (test : AesdSeekto) (seekAnswers : IoctlAnswers) (writeAnswers : WriteAnswers) : Prop :=
  ∃ t d' ret answer,
    deviceTurn d buffer bufferAddr length f seekAnswers writeAnswers = .ok t ∧
    aesdIoctl d AESDCHAR_IOCSEEKTO test seekAnswers = .ok (d', ret, answer) ∧
    t.dev.circBuf = d.circBuf ∧ t.dev.store = d.store ∧
    t.sent = (answer.map SeekResult.special).getD []

section Handling

variable {d : AesdDev} {buffer : Bytes} {bufferAddr : UInt64} {length : ℕ} {f : Frame} {x y : UInt32}
  (hrec : recognised buffer length) (hreq : seekNumbers (buffer.take length) f = .ok (x, y))
  {a : IoctlAnswers} {wr : WriteAnswers}

include hrec hreq

lemma harmless_unanswered {d' : AesdDev} {ret : ℤ}
    (h : aesdIoctl d AESDCHAR_IOCSEEKTO ⟨x, y, 0, bufferAddr⟩ a = .ok (d', ret, none))
    (hring : d'.circBuf = d.circBuf) (hstore : d'.store = d.store) :
    SeekHarmless d buffer bufferAddr length f ⟨x, y, 0, bufferAddr⟩ a wr :=
  ⟨_, _, _, _, deviceTurn_refused hrec hreq h, h, hring, hstore, rfl⟩

lemma not_harmless_of_stops {e : Stop}
    (h : aesdIoctl d AESDCHAR_IOCSEEKTO ⟨x, y, 0, bufferAddr⟩ a = .error e) :
    ¬SeekHarmless d buffer bufferAddr length f ⟨x, y, 0, bufferAddr⟩ a wr := by
  rintro ⟨t, d', ret, answer, hturn, -⟩
  rw [deviceTurn_stops hrec hreq h] at hturn
  simp at hturn

/-- Behind a mutex that is kept the request waits, and only a signal ends that. -/
lemma harmless_kept (hheld : d.lock = true) :
    SeekHarmless d buffer bufferAddr length f ⟨x, y, 0, bufferAddr⟩ a wr ↔ a.interrupted = true := by
  have hioctl : aesdIoctl d AESDCHAR_IOCSEEKTO ⟨x, y, 0, bufferAddr⟩ a =
      if a.interrupted then .ok (d, -ERESTARTSYS, none) else .error .blocked := by
    rw [aesdIoctl, if_neg (not_not.mpr rfl), if_pos hheld]
  cases hi : a.interrupted with
  | true =>
    rw [hi, if_pos rfl] at hioctl
    exact iff_of_true (harmless_unanswered hrec hreq hioctl rfl rfl) rfl
  | false =>
    rw [hi, if_neg Bool.false_ne_true] at hioctl
    exact iff_of_false (not_harmless_of_stops hrec hreq hioctl) Bool.false_ne_true

variable {bytes : Bytes} (hfits : bytes.length ≤ buffer.length) (hbuf : buffer.length = BUFFER_SIZE)
  (hioctl : aesdIoctl d AESDCHAR_IOCSEEKTO ⟨x, y, 0, bufferAddr⟩ a =
    .ok (d, 0, some ⟨bufferAddr, bytes, ⟨x, y, .ofNat bytes.length, bufferAddr⟩⟩))

include hfits hbuf hioctl

lemma harmless_answered (hs : d.Sound) (hfree : d.lock = false)
    (hsmall : ∀ c ∈ d.store.commands, c.length < 2 ^ 31)
    (hpending : d.store.pending.length < 2 ^ 31) (hgrant : wr.Granted d)
    (hcopy : min wr.uncopied length = 0) :
    SeekHarmless d buffer bufferAddr length f ⟨x, y, 0, bufferAddr⟩ a wr ↔ bytes.length ≠ 1 := by
  constructor
  · rintro ⟨t, d', ret, answer, hturn, hanswer, -, -, hsent⟩ hone
    rw [hioctl, Except.ok.injEq, Prod.mk.injEq, Prod.mk.injEq] at hanswer
    rw [← hanswer.2.2] at hsent
    apply deviceTurn_one hrec hreq hfits hbuf hioctl hs.valid hfree hsmall hpending hgrant hcopy hone
      hturn
    rw [hsent]
    exact hone
  · intro hnot
    exact ⟨_, _, _, _, deviceTurn_sends hrec hreq hfits hbuf hioctl hnot, hioctl, rfl, rfl, rfl⟩

end Handling

lemma requested_cases {d : AesdDev} (hpos : ∀ z ∈ d.store.commands.map List.length, 0 < z)
    (req : AesdSeekto) :
    ((d.store.requested req).length = 1 ↔ SelectsOneByte (d.store.commands.map List.length)
        req.writeCmd.toNat req.writeCmdOffset.toNat) ∧
      (500 < (d.store.requested req).length ↔ Overruns (d.store.commands.map List.length)
        req.writeCmd.toNat req.writeCmdOffset.toNat) := by
  have hlen : (d.store.requested req).length = _ :=
    requested_length d req.writeCmd.toNat req.writeCmdOffset.toNat
  rw [hlen]
  exact ⟨takenWithin_eq_one hpos _ _, lt_takenWithin⟩

/-- When the handling of a seek command is harmless, over every state that calls of any kind
reach: behind a kept mutex exactly when a signal ends the wait, else exactly when the
request is refused, or selects neither just one byte nor more than the scratch buffer holds. -/
theorem seek_harmless_iff (s : DriverState) (hs : Reachable s)
    (hsmall : ∀ e ∈ retained s.dev, e.length < 2 ^ 31)
    (hpending : s.dev.pendingBytes.length < 2 ^ 31) (buffer : Bytes)
    (hbuf : buffer.length = BUFFER_SIZE) (bufferAddr : UInt64) (length : ℕ) (f : Frame)
    (x y : UInt32) (hrec : recognised buffer length)
    (hreq : seekNumbers (buffer.take length) f = .ok (x, y)) (m : Alloc)
    (hfresh : s.dev.heap m.addr = none) (interrupted : Bool) (wr : WriteAnswers)
    (hgrant : wr.Granted s.dev) (hcopy : min wr.uncopied length = 0) :
    SeekHarmless s.dev buffer bufferAddr length f ⟨x, y, 0, bufferAddr⟩ (granted interrupted m) wr ↔
      if s.dev.lock then interrupted = true
      else x.toNat ≤ 10 →
        ¬SelectsOneByte ((retained s.dev).map List.length) x.toNat y.toNat ∧
        ¬Overruns ((retained s.dev).map List.length) x.toNat y.toNat := by
  have hsound := hs.sound
  have hpos := hs.entry_pos
  rw [hsound.retained_eq] at hsmall hpos ⊢
  cases hlock : s.dev.lock with
  | true =>
    rw [if_pos rfl]
    exact harmless_kept hrec hreq hlock
  | false =>
    rw [if_neg Bool.false_ne_true]
    have hwhole : fetchSeekto ⟨x, y, 0, bufferAddr⟩ (granted interrupted m).argUnread =
        ⟨x, y, 0, bufferAddr⟩ := fetchSeekto_zero _
    by_cases hcmd : x.toNat ≤ 10
    · obtain ⟨hone, hover⟩ := requested_cases hpos (⟨x, y, 0, bufferAddr⟩ : AesdSeekto)
      rw [forall_prop_of_true hcmd, ← hone, ← hover]
      generalize hbytes : s.dev.store.requested ⟨x, y, 0, bufferAddr⟩ = bytes
      rcases Nat.lt_or_ge 500 bytes.length with hlong | hshort
      · have hioctl := aesdIoctl_overruns hsound.valid hlock hsmall rfl hfresh hwhole hcmd hbytes hlong
        exact iff_of_false (not_harmless_of_stops hrec hreq hioctl) fun h => h.2 hlong
      · have hioctl := aesdIoctl_fits hsound.valid hlock hsmall rfl hfresh hwhole hcmd hbytes hshort
        rw [show (granted interrupted m).resultUncopied = 0 from rfl, Nat.sub_zero, List.take_length,
          show (granted interrupted m).argUnwritten = 0 from rfl, overlay_all _ _ le_rfl] at hioctl
        have hfits : bytes.length ≤ buffer.length := by
          rw [hbuf, BUFFER_SIZE]
          omega
        rw [harmless_answered hrec hreq hfits hbuf hioctl hsound hlock hsmall hpending hgrant hcopy]
        exact (and_iff_left (not_lt.mpr hshort)).symm
    · have hioctl : aesdIoctl s.dev AESDCHAR_IOCSEEKTO ⟨x, y, 0, bufferAddr⟩
          (granted interrupted m) = _ :=
        aesdIoctl_refused hlock (by rw [hwhole]; exact not_le.mp hcmd)
      refine iff_of_true (harmless_unanswered hrec hreq hioctl rfl ?_) fun h => absurd h hcmd
      rw [← settled_store, ← settled_store s.dev]
      exact AesdDev.store_frame (d := s.dev.settled) hsound.valid hfresh _ true

/-- The device of one entry behind a request for command 11, which is refused. -/
def keptEntry : DriverState :=
  match oneEntry.step (.ioctl 0 AESDCHAR_IOCSEEKTO ⟨11, 0, 0, 7⟩ (granted false ⟨9, 0⟩)) with
  | .ok p => p.1
  | .error _ => oneEntry

lemma keptEntry_reachable : Reachable keptEntry := by
  refine ⟨⟨1, 0⟩, ⟨2, 0⟩, _, _, [.write 0 [97, 10] (granting 3 4),
    .ioctl 0 AESDCHAR_IOCSEEKTO ⟨11, 0, 0, 7⟩ (granted false ⟨9, 0⟩)], _, by decide,
    DriverState.fresh_setup, ?_, rfl⟩
  refine Guarded.cons ?_ rfl (Guarded.cons ?_ rfl trivial)
  · exact completesWrite_fresh ⟨by decide, by decide, ⟨nofun, _, rfl, rfl, nofun⟩⟩
  · intro m hm
    cases hm
    rfl

/-- The whole entry is asked for: at once, and again from behind a kept mutex, where a signal
ends the wait. -/
theorem seek_harmless_iff_whole_entry :
    SeekHarmless oneEntry.dev (seekBuffer '0') 7 23 seekFrame ⟨0, 0, 0, 7⟩ (granted false ⟨9, 0⟩)
        (granting 5 6) ∧
      SeekHarmless keptEntry.dev (seekBuffer '0') 7 23 seekFrame ⟨0, 0, 0, 7⟩
        (granted true ⟨10, 0⟩) (granting 5 6) := by
  have hgrant : ∀ d : AesdDev, d.heap 5 = none → d.heap 6 = none → (granting 5 6).Granted d :=
    fun d h₅ h₆ => ⟨fun _ => ⟨_, rfl, h₅⟩, _, rfl, h₆, fun _ e he => by cases he; decide⟩
  constructor
  · refine (seek_harmless_iff oneEntry oneEntry_reached.reachable (by decide) (by decide)
      (seekBuffer '0') (by decide +kernel) 7 23 seekFrame 0 0 (by decide +kernel) (by decide +kernel)
      ⟨9, 0⟩ (by decide) false (granting 5 6) (hgrant _ rfl rfl) (by decide)).mpr fun _ => ?_
    change ¬SelectsOneByte [2] 0 0 ∧ ¬Overruns [2] 0 0
    refine ⟨by simp [SelectsOneByte], ?_⟩
    unfold Overruns
    decide
  · exact (seek_harmless_iff keptEntry keptEntry_reachable (by decide) (by decide)
      (seekBuffer '0') (by decide +kernel) 7 23 seekFrame 0 0 (by decide +kernel) (by decide +kernel)
      ⟨10, 0⟩ (by decide) true (granting 5 6) (hgrant _ rfl rfl) (by decide)).mpr rfl

/-- The request selects the last byte of the only entry. The worker writes the command, its
first byte now a line feed, to the device and sends both entries. -/
theorem seek_harmless_last_byte :
    ¬ ∀ s, Reachable s → ∀ buffer : Bytes, buffer.length = BUFFER_SIZE →
      ∀ bufferAddr length f x y, recognised buffer length →
      seekNumbers (buffer.take length) f = .ok (x, y) →
      ∀ m : Alloc, s.dev.heap m.addr = none → ∀ wr : WriteAnswers, wr.Granted s.dev →
      min wr.uncopied length = 0 →
      SeekHarmless s.dev buffer bufferAddr length f ⟨x, y, 0, bufferAddr⟩ (granted false m) wr := by
  intro h
  have hrec : recognised (seekBuffer '1') 23 := by decide +kernel
  have hreq : seekNumbers ((seekBuffer '1').take 23) seekFrame = .ok (0, 1) := by decide +kernel
  obtain ⟨t, d', ret, answer, hturn, hanswer, -, -, hsent⟩ := h oneEntry oneEntry_reached.reachable
    (seekBuffer '1') (by decide +kernel) 7 23 seekFrame 0 1 hrec hreq ⟨9, 0⟩ (by decide) (granting 5 6)
    ⟨fun _ => ⟨_, rfl, rfl⟩, _, rfl, rfl, fun _ e he => by cases he; decide⟩ (by decide)
  have hall : (deviceTurn oneEntry.dev (seekBuffer '1') 7 23 seekFrame (granted false ⟨9, 0⟩)
      (granting 5 6)).toOption.map DeviceTurn.sent =
        some ([97, 10, 10] ++ ((seekBuffer '1').take 23).tail) := by decide +kernel
  have hone : (aesdIoctl oneEntry.dev AESDCHAR_IOCSEEKTO ⟨0, 1, 0, 7⟩
      (granted false ⟨9, 0⟩)).toOption.map (fun r => r.2.2.map SeekResult.special) =
        some (some [10]) := by decide +kernel
  rw [hturn] at hall
  rw [hanswer] at hone
  simp only [Except.toOption, Option.map_some, Option.some.injEq] at hall hone
  rw [hall, hone] at hsent
  revert hsent
  decide +kernel

end Aesd
