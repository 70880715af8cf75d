import Aesd.DriverRead

/-! The seek request. The scratch buffer collects the commands from the requested byte on,
slot by slot, until its budget is used up or the walk is back at the oldest slot. For a
byte that is retained the budget never ends the copy. -/
namespace Aesd
open Machine Memory

section Copy

variable {src : Ptr} {m off n i pos : ℕ} {h : Heap} {buf : Bytes} (hm : h m = some buf)
  (hword : (bytesAt h src).length < 2 ^ 32)

include hm hword

/-- One byte goes to the scratch buffer, while there is room for it. -/
lemma seekCopy_succ (hlt : i + off < (bytesAt h src).length) :
    seekCopy src (.block m) off (n + 1) i pos h =
      if pos < buf.length then
        seekCopy src (.block m) off n (i + 1) (pos + 1)
          (Function.update h m (some (splice buf pos [(bytesAt h src)[i + off]])))
      else .error .fault := by
  have hload : loadRun h src ((i + off) % 2 ^ 32) 1 = .ok [(bytesAt h src)[i + off]] := by
    rw [Nat.mod_eq_of_lt (by omega), loadRun_ok (by omega), List.drop_eq_getElem_cons hlt]
    rfl
  rw [seekCopy, hload]
  change (storeRun h (.block m) pos _ >>= _) = _
  by_cases hcell : pos < buf.length
  · have hroom : pos + [(bytesAt h src)[i + off]].length ≤ buf.length := hcell
    rw [storeRun_ok hm hroom, if_pos hcell]
    rfl
  · have hstore : storeRun h (.block m) pos [(bytesAt h src)[i + off]] = .error .fault := by
      simp [storeRun, hm, hcell]
    rw [hstore, if_neg hcell]
    rfl

/-- The inner loop appends a run of the entry to what the scratch buffer holds. -/
lemma seekCopy_spec (hne : src ≠ .block m) (hrun : n ≤ (bytesAt h src).length - (i + off))
    (hroom : pos + n ≤ buf.length) :
    seekCopy src (.block m) off n i pos h =
      .ok (Function.update h m
        (some (splice buf pos (((bytesAt h src).drop (i + off)).take n))), pos + n) := by
  induction n generalizing i pos h buf with
  | zero => simp [seekCopy, ← hm]
  | succ n ih =>
    have hlt : i + off < (bytesAt h src).length := by omega
    have hcell : pos + [(bytesAt h src)[i + off]].length ≤ buf.length := by
      simp only [List.length_singleton]
      omega
    have hlen : (splice buf pos [(bytesAt h src)[i + off]]).length = buf.length :=
      splice_length hcell
    have hframe : bytesAt (Function.update h m (some (splice buf pos [(bytesAt h src)[i + off]])))
        src = bytesAt h src := bytesAt_update_of_ne hne
    have hboth := splice_append (((bytesAt h src).drop (i + 1 + off)).take n) hcell
    rw [seekCopy_succ hm hword hlt, if_pos (by omega), ih (Function.update_self ..)
      (by rw [hframe]; exact hword) (by rw [hframe]; omega) (by omega), hframe,
      Function.update_idem, List.drop_eq_getElem_cons hlt, List.take_succ_cons,
      show i + off + 1 = i + 1 + off by omega, show pos + (n + 1) = pos + 1 + n by omega]
    simp only [List.length_singleton, List.singleton_append] at hboth
    rw [hboth]

/-- A run that does not fit the scratch buffer is stored past its end. -/
lemma seekCopy_overrun (hne : src ≠ .block m) (hrun : n ≤ (bytesAt h src).length - (i + off))
    (hpos : pos ≤ buf.length) (hroom : buf.length < pos + n) :
    seekCopy src (.block m) off n i pos h = .error .fault := by
  induction n generalizing i pos h buf with
  | zero => omega
  | succ n ih =>
    have hlt : i + off < (bytesAt h src).length := by omega
    rw [seekCopy_succ hm hword hlt]
    split_ifs with hcell
    · have hlen : (splice buf pos [(bytesAt h src)[i + off]]).length = buf.length :=
        splice_length hcell
      have hframe : bytesAt (Function.update h m (some (splice buf pos [(bytesAt h src)[i + off]])))
          src = bytesAt h src := bytesAt_update_of_ne hne
      exact ih (Function.update_self ..) (by rw [hframe]; exact hword) (by rw [hframe]; omega)
        (by omega) (by omega)
    · rfl

end Copy

/-- What a seek request copies of the commands from the requested one on. -/
def selected : ℤ → List Bytes → ℕ → Bytes
  | _, [], _ => []
  | budget, c :: cs, off =>
    if 0 < budget then c.drop off ++ selected (budget - (c.drop off).length) cs 0 else []

lemma selected_drop (total : ℤ) (sent : ℕ) (cs : List Bytes) (j off : ℕ) :
    let piece := (cs[j]?.getD []).drop off
    selected (total - sent) (cs.drop j) off =
      if (sent : ℤ) < total then
        piece ++ selected (total - (sent + piece.length : ℕ)) (cs.drop (j + 1)) 0
      else [] := by
  intro piece
  have hbudget : total - (sent + piece.length : ℕ) = total - sent - piece.length := by
    push_cast
    omega
  have hgo : 0 < total - sent ↔ (sent : ℤ) < total := sub_pos
  rw [hbudget]
  rcases Nat.lt_or_ge j cs.length with hj | hj
  · rw [List.drop_eq_getElem_cons hj, selected]
    simp only [piece, hgo, List.getElem?_eq_getElem hj, Option.getD_some]
  · have hnext : cs.drop (j + 1) = [] := List.drop_of_length_le (by omega)
    simp only [piece, List.getElem?_eq_none hj]
    rw [List.drop_of_length_le hj, hnext]
    simp [selected]

/-- A budget that covers everything is never used up. -/
lemma selected_all {budget : ℤ} {cs : List Bytes} {c : Bytes} {off : ℕ}
    (h : ((c.drop off ++ cs.flatten).length : ℤ) ≤ budget) :
    selected budget (c :: cs) off = c.drop off ++ cs.flatten := by
  induction cs generalizing c off budget with
  | nil =>
    rw [selected]
    split_ifs with hb
    · simp [selected]
    · have hz : (c.drop off ++ ([] : List Bytes).flatten).length = 0 := by omega
      rw [List.length_eq_zero_iff.mp hz]
  | cons e cs ih =>
    rw [List.length_append, Nat.cast_add] at h
    rw [selected]
    split_ifs with hb
    · rw [ih (by rw [List.drop_zero, ← List.flatten_cons]; omega), List.drop_zero, List.flatten_cons]
    · have hz : (c.drop off ++ (e :: cs).flatten).length = 0 := by
        rw [List.length_append]
        omega
      rw [List.length_eq_zero_iff.mp hz]

namespace AesdDev

/-- A slot past the newest entry of a ring that is filling is blank. -/
lemma slot_blank {d : AesdDev} (hv : d.Valid) {j : ℕ} (hj : j < 10)
    (hpast : d.store.commands.length ≤ j) :
    d.circBuf.entryAt ((d.circBuf.outOffs + j) % 10) = .zero := by
  have hcount : d.circBuf.count ≤ j := by
    rw [← AesdCircularBuffer.entries_length]
    simpa [store] using hpast
  have hroom : d.circBuf.full = false := by
    cases hf : d.circBuf.full with
    | false => rfl
    | true => simp [AesdCircularBuffer.count, hf] at hcount; omega
  have hstart := hv.ring.filling hroom
  apply hv.ring.blank hroom
  simp only [AesdCircularBuffer.count, hroom, Bool.false_eq_true, if_false] at hcount
  omega

/-- Every slot holds its command, or nothing, away from a block that is not in use. -/
lemma slot_bytes {d : AesdDev} (hv : d.Valid) {j m : ℕ} (hj : j < 10) (hm : d.heap m = none) :
    let e := d.circBuf.entryAt ((d.circBuf.outOffs + j) % 10)
    bytesAt d.heap e.buffptr = d.store.commands[j]?.getD [] ∧
      e.size = (d.store.commands[j]?.getD []).length ∧ e.buffptr ≠ .block m := by
  intro e
  rcases Nat.lt_or_ge j d.store.commands.length with hlt | hpast
  · obtain ⟨hbytes, hsize⟩ := slot_command hv hlt
    rw [List.getElem?_eq_getElem hlt, Option.getD_some]
    refine ⟨hbytes, hsize, fun hp => ?_⟩
    have hj' : j < d.circBuf.entries.length := by simpa [store] using hlt
    have hmem := List.getElem_mem hj'
    rw [AesdCircularBuffer.entries_getElem hj'] at hmem
    obtain ⟨b, bs, hb, hlive, -⟩ := hv.filled _ hmem
    rw [show d.circBuf.entryAt ((d.circBuf.outOffs + j) % 10) = e from rfl, hp, Ptr.block.injEq] at hb
    simp [← hb, hm] at hlive
  · have hzero : e = .zero := slot_blank hv hj hpast
    rw [List.getElem?_eq_none hpast, hzero]
    simp [AesdBufferEntry.zero]

end AesdDev

lemma nextSlot_eq (start j : ℕ) : nextSlot ((start + j) % 10) = (start + (j + 1)) % 10 := by
  unfold nextSlot
  split_ifs <;> omega

section Loop

variable {d : AesdDev} (hv : d.Valid) (hsmall : ∀ c ∈ d.store.commands, c.length < 2 ^ 31)
  {m : ℕ} (hfresh : d.heap m = none) {total : ℤ}

include hv hsmall hfresh

/-- One turn: the inner loop appends what is asked of one command, while there is room. -/
lemma seekLoop_succ {fuel j off sent pos : ℕ} {buf : Bytes} (hj : j < 10) (hoff : off < 2 ^ 32)
    (hpos : pos ≤ buf.length) :
    let piece := (d.store.commands[j]?.getD []).drop off
    seekLoop d.circBuf (.block m) total (fuel + 1)
        ⟨Function.update d.heap m (some buf), sent, pos, off, (d.circBuf.outOffs + j) % 10⟩ =
      if (sent : ℤ) < total then
        if pos + piece.length ≤ buf.length then
          let s : SeekState := ⟨Function.update d.heap m (some (splice buf pos piece)),
            (sent + piece.length : ℕ), pos + piece.length, 0, (d.circBuf.outOffs + (j + 1)) % 10⟩
          if j + 1 = 10 then .ok s else seekLoop d.circBuf (.block m) total fuel s
        else .error .fault
      else
        .ok ⟨Function.update d.heap m (some buf), sent, pos, off, (d.circBuf.outOffs + j) % 10⟩ := by
  intro piece
  obtain ⟨hbytes, hsize, hne⟩ := AesdDev.slot_bytes hv hj hfresh
  have hshort : (d.store.commands[j]?.getD []).length < 2 ^ 31 := by
    cases hc : d.store.commands[j]? with
    | none => simp
    | some c => exact hsmall c (List.mem_of_getElem? hc)
  have hlen : piece.length = (d.store.commands[j]?.getD []).length - off := List.length_drop
  have hframe : bytesAt (Function.update d.heap m (some buf))
      (d.circBuf.entryAt ((d.circBuf.outOffs + j) % 10)).buffptr =
        d.store.commands[j]?.getD [] := by
    rw [bytesAt_update_of_ne hne, hbytes]
  have hself := Function.update_self m (some buf) d.heap
  have hword : (bytesAt (Function.update d.heap m (some buf))
      (d.circBuf.entryAt ((d.circBuf.outOffs + j) % 10)).buffptr).length < 2 ^ 32 := by
    rw [hframe]
    omega
  have hrun : piece.length ≤ (bytesAt (Function.update d.heap m (some buf))
      (d.circBuf.entryAt ((d.circBuf.outOffs + j) % 10)).buffptr).length - (0 + off) := by
    rw [hframe]
    omega
  have hn : (Word.signed 64
      (((d.circBuf.entryAt ((d.circBuf.outOffs + j) % 10)).size : ℤ) - off)).toNat =
        piece.length := by
    rw [hsize, hlen, Word.signed_of_mem (by omega) (by omega)]
    omega
  have hlast : (d.circBuf.outOffs + (j + 1)) % 10 = d.circBuf.outOffs ↔ j + 1 = 10 := by
    have hout := hv.ring.out_lt
    omega
  rw [seekLoop]
  by_cases hgo : (sent : ℤ) < total
  · rw [if_pos hgo, if_pos hgo]
    dsimp only
    rw [hn, nextSlot_eq]
    by_cases hroom : pos + piece.length ≤ buf.length
    · have hcopy := seekCopy_spec hself hword hne hrun hroom
      rw [hframe, Nat.zero_add, Function.update_idem, List.take_of_length_le le_rfl] at hcopy
      rw [hcopy, if_pos hroom, Nat.cast_add]
      change (if _ = _ then _ else _) = _
      simp only [hlast]
    · have hcopy := seekCopy_overrun hself hword hne hrun hpos (by omega)
      rw [hcopy, if_neg hroom]
      rfl
  · rw [if_neg hgo, if_neg hgo]

/-- The outer loop appends what the request selects. -/
lemma seekLoop_spec {fuel j off sent pos : ℕ} {buf bytes : Bytes} (hj : j < 10)
    (hfuel : 10 ≤ fuel + j) (hoff : off < 2 ^ 32)
    (hbytes : selected (total - sent) (d.store.commands.drop j) off = bytes)
    (hroom : pos + bytes.length ≤ buf.length) :
    ∃ s, seekLoop d.circBuf (.block m) total fuel
        ⟨Function.update d.heap m (some buf), sent, pos, off, (d.circBuf.outOffs + j) % 10⟩ = .ok s ∧
      s.heap = Function.update d.heap m (some (splice buf pos bytes)) ∧
      s.mybufferposition = pos + bytes.length := by
  induction fuel generalizing j off sent pos buf bytes with
  | zero => omega
  | succ fuel ih =>
    rw [selected_drop] at hbytes
    rw [seekLoop_succ hv hsmall hfresh hj hoff (by omega)]
    generalize (d.store.commands[j]?.getD []).drop off = piece at hbytes ⊢
    by_cases hgo : (sent : ℤ) < total
    · rw [if_pos hgo] at hbytes
      subst hbytes
      rw [List.length_append] at hroom ⊢
      have hfits : pos + piece.length ≤ buf.length := by omega
      rw [if_pos hgo, if_pos hfits]
      by_cases hlast : j + 1 = 10
      · have hend : d.store.commands.drop (j + 1) = [] := by
          have hle := AesdDev.commands_length_le hv
          exact List.drop_of_length_le (by omega)
        rw [if_pos hlast, hend, selected, List.append_nil]
        exact ⟨_, rfl, rfl, rfl⟩
      · have hlength : (splice buf pos piece).length = buf.length := splice_length hfits
        obtain ⟨s, hloop, hheap, hpos⟩ := @ih (j + 1) 0 (sent + piece.length) (pos + piece.length)
          (splice buf pos piece) _ (by omega) (by omega) (by omega) rfl (by omega)
        rw [if_neg hlast]
        exact ⟨s, hloop, by rw [hheap, splice_append _ hfits], by omega⟩
    · rw [if_neg hgo] at hbytes
      subst hbytes
      rw [if_neg hgo, splice_nil]
      exact ⟨_, rfl, rfl, rfl⟩

/-- A request that selects more than the scratch buffer holds overruns it. -/
lemma seekLoop_overrun {fuel j off sent pos : ℕ} {buf bytes : Bytes} (hj : j < 10)
    (hfuel : 10 ≤ fuel + j) (hoff : off < 2 ^ 32)
    (hbytes : selected (total - sent) (d.store.commands.drop j) off = bytes)
    (hpos : pos ≤ buf.length) (hroom : buf.length < pos + bytes.length) :
    seekLoop d.circBuf (.block m) total fuel
        ⟨Function.update d.heap m (some buf), sent, pos, off, (d.circBuf.outOffs + j) % 10⟩ =
      .error .fault := by
  induction fuel generalizing j off sent pos buf bytes with
  | zero => omega
  | succ fuel ih =>
    rw [selected_drop] at hbytes
    rw [seekLoop_succ hv hsmall hfresh hj hoff hpos]
    generalize (d.store.commands[j]?.getD []).drop off = piece at hbytes ⊢
    by_cases hgo : (sent : ℤ) < total
    · rw [if_pos hgo] at hbytes
      subst hbytes
      rw [List.length_append] at hroom
      rw [if_pos hgo]
      by_cases hfits : pos + piece.length ≤ buf.length
      · have hmore : j + 1 ≠ 10 := by
          intro hlast
          have hle := AesdDev.commands_length_le hv
          have hend : d.store.commands.drop (j + 1) = [] := List.drop_of_length_le (by omega)
          rw [hend, selected, List.length_nil] at hroom
          omega
        have hlength : (splice buf pos piece).length = buf.length := splice_length hfits
        rw [if_pos hfits, if_neg hmore]
        exact ih (by omega) (by omega) (by omega) rfl (by omega) (by omega)
      · rw [if_neg hfits]
    · rw [if_neg hgo] at hbytes
      rw [← hbytes, List.length_nil] at hroom
      omega

end Loop

lemma selected_nonpos {budget : ℤ} (h : budget ≤ 0) (cs : List Bytes) (off : ℕ) :
    selected budget cs off = [] := by
  cases cs with
  | nil => rfl
  | cons c cs => rw [selected, if_neg (by omega)]

lemma AesdDev.contents_small {d : AesdDev} (hv : d.Valid)
    (hsmall : ∀ c ∈ d.store.commands, c.length < 2 ^ 31) : d.store.contents.length < 2 ^ 35 := by
  have hle := AesdDev.commands_length_le hv
  have hsum : (d.store.commands.map List.length).sum ≤
      (d.store.commands.map List.length).length • (2 ^ 31) := by
    apply List.sum_le_card_nsmul
    intro n hn
    obtain ⟨c, hc, rfl⟩ := List.mem_map.mp hn
    exact (hsmall c hc).le
  rw [List.length_map, smul_eq_mul] at hsum
  rw [CommandStore.contents_length]
  omega

/-- What a request for byte `off` of command `w` copies; a request for the command ten
places on wraps to the oldest. -/
def AesdDev.requested (d : AesdDev) (w off : ℕ) : Bytes :=
  selected ((d.store.contents.length : ℤ) - off) (d.store.commands.drop (w % 10)) off

/-- A request for a byte that is retained copies everything from that byte on. -/
lemma AesdDev.requested_within {d : AesdDev} (hv : d.Valid) {older newer : List Bytes}
    {entry : Bytes} {off : ℕ} (hsplit : d.store.commands = older ++ entry :: newer)
    (hoff : off < entry.length) :
    d.requested older.length off = entry.drop off ++ newer.flatten := by
  have hle := AesdDev.commands_length_le hv
  have hw : older.length % 10 = older.length := by
    rw [hsplit, List.length_append, List.length_cons] at hle
    exact Nat.mod_eq_of_lt (by omega)
  rw [requested, hw, CommandStore.contents, hsplit, List.drop_left]
  apply selected_all
  simp only [List.length_append, List.length_drop, List.flatten_append, List.flatten_cons]
  omega

lemma totalBytesToRead_eq {d : AesdDev} (hv : d.Valid) (hD : d.store.contents.length < 2 ^ 63)
    {off : ℕ} (hoff : off < 2 ^ 32) (cs : List Bytes) :
    selected (totalBytesToRead d.circBuf off) cs off =
      selected ((d.store.contents.length : ℤ) - off) cs off := by
  simp only [totalBytesToRead, AesdDev.length_contents hv hD]
  rw [Word.signed_of_mem (by omega) (by omega)]
  split_ifs with hz
  · rw [selected_nonpos le_rfl, selected_nonpos (by omega)]
  · rfl

lemma buffToReadFrom_eq {b : AesdCircularBuffer} (hb : b.Valid) {w : ℕ} (hw : w ≤ 10) :
    buffToReadFrom b w = (b.outOffs + w % 10) % 10 := by
  have hout := hb.out_lt
  unfold buffToReadFrom
  dsimp only
  split_ifs <;> omega

lemma overlay_all (old new : AesdSeekto) {copied : ℕ} (h : 24 ≤ copied) :
    old.overlay new copied = new := if_pos h

/-- Answers that grant the scratch buffer `m` and copy everything. -/
def granted (interrupted : Bool) (m : Alloc) : IoctlAnswers := ⟨interrupted, some m, 0, 0, 0⟩

lemma kmalloc_scratch (h : Heap) (m : Alloc) :
    kmalloc h (some m) 500 =
      (.block m.addr, Function.update h m.addr (some (resize m.junk 500 []))) := by
  simp [kmalloc]

/-- A request that the driver does not refuse, over a device whose mutex is free. -/
lemma aesdIoctl_accepted {d : AesdDev} (hv : d.Valid) (hfree : d.lock = false) {arg : AesdSeekto}
    (hcmd : arg.writeCmd.toNat ≤ 10) (interrupted : Bool) (m : Alloc) :
    aesdIoctl d AESDCHAR_IOCSEEKTO arg (granted interrupted m) = (do
      let s ← seekLoop d.circBuf (.block m.addr)
        (totalBytesToRead d.circBuf arg.writeCmdOffset.toNat) 10
        ⟨Function.update d.heap m.addr (some (resize m.junk 500 [])), (0 : ℕ), 0,
          arg.writeCmdOffset.toNat, (d.circBuf.outOffs + arg.writeCmd.toNat % 10) % 10⟩
      let (_, special) ← copyToUser s.heap (.block m.addr) 0 s.mybufferposition 0
      let h ← kfree s.heap (.block m.addr)
      .ok ({ d with lock := false, heap := h }, 0,
        some ⟨arg.specialBuffer, special, { arg with lengthCopied := .ofNat s.mybufferposition }⟩)) := by
  unfold aesdIoctl
  simp only [ne_eq, not_true_eq_false, if_false, hfree, Bool.false_eq_true, granted,
    kmalloc_scratch, fetchSeekto, overlay_all _ _ (le_refl 24), Nat.sub_zero]
  rw [if_neg (by omega), buffToReadFrom_eq hv.ring hcmd]
  rfl

/-- A request whose copy is complete is seen as it is. -/
lemma fetchSeekto_zero (arg : AesdSeekto) : fetchSeekto arg 0 = arg := overlay_all _ _ le_rfl

/-- A request for a command past ten is refused, with the mutex and the scratch buffer kept. -/
lemma aesdIoctl_refused {d : AesdDev} (hfree : d.lock = false) {arg : AesdSeekto}
    {a : IoctlAnswers} (hcmd : 10 < (fetchSeekto arg a.argUnread).writeCmd.toNat) :
    aesdIoctl d AESDCHAR_IOCSEEKTO arg a =
      .ok ({ d with lock := true, heap := (kmalloc d.heap a.scratch 500).2 }, -EINVAL, none) := by
  unfold aesdIoctl
  simp only [ne_eq, not_true_eq_false, if_false, hfree, Bool.false_eq_true]
  exact if_pos hcmd

section Request

variable {d : AesdDev} (hv : d.Valid) (hfree : d.lock = false)
  (hsmall : ∀ c ∈ d.store.commands, c.length < 2 ^ 31) {m : Alloc} (hfresh : d.heap m.addr = none)
  {arg : AesdSeekto} (hcmd : arg.writeCmd.toNat ≤ 10) {bytes : Bytes}
  (hbytes : d.requested arg.writeCmd.toNat arg.writeCmdOffset.toNat = bytes)

include hv hfree hsmall hfresh hcmd hbytes

/-- A request that fits the scratch buffer is answered and leaves the device as it was. -/
theorem aesdIoctl_spec (hfits : bytes.length ≤ 500) (interrupted : Bool) :
    aesdIoctl d AESDCHAR_IOCSEEKTO arg (granted interrupted m) =
      .ok (d, 0, some ⟨arg.specialBuffer, bytes, { arg with lengthCopied := .ofNat bytes.length }⟩) := by
  have hoff := arg.writeCmdOffset.toNat_lt
  have hD := AesdDev.contents_small hv hsmall
  rw [AesdDev.requested, ← totalBytesToRead_eq hv (by omega) hoff] at hbytes
  rw [← sub_zero (totalBytesToRead _ _), ← Nat.cast_zero] at hbytes
  have hroom : 0 + bytes.length ≤ (resize m.junk 500 ([] : Bytes)).length := by
    rw [resize_length]
    omega
  obtain ⟨s, hloop, hheap, hpos⟩ := seekLoop_spec hv hsmall hfresh
    (Nat.mod_lt _ (by omega)) (Nat.le_add_right 10 _) hoff hbytes hroom
  have hread := @splice_read _ (resize m.junk 500 []) bytes 0 (Nat.zero_le _)
  have hlen := splice_length hroom
  rw [Nat.zero_add] at hpos hroom
  have hcopy : copyToUser s.heap (.block m.addr) 0 bytes.length 0 = .ok (0, bytes) := by
    rw [hheap, copyToUser_ok 0 (by simp only [bytesAt_update_self, Option.getD_some]; omega),
      bytesAt_update_self, Option.getD_some, hread]
    simp
  have hkfree : kfree s.heap (.block m.addr) = .ok d.heap := by
    simp [hheap, kfree, ← hfresh]
  have hback : { d with lock := false } = d := by rw [← hfree]
  rw [aesdIoctl_accepted hv hfree hcmd, hloop]
  change (copyToUser s.heap _ 0 s.mybufferposition 0 >>= _) = _
  rw [hpos, hcopy]
  change (kfree s.heap _ >>= _) = _
  rw [hkfree]
  change Except.ok ({ d with lock := false }, _, _) = _
  rw [hback]

end Request

lemma aesdLlseek_set (d : AesdDev) (fpos : ℤ) {pos : ℕ} (h : pos < 2 ^ 63) :
    aesdLlseek d fpos pos 0 = ((pos : ℤ), (pos : ℤ)) := by
  have hword : Word.unsigned 64 (pos : ℤ) = pos := Word.unsigned_natCast (by omega)
  have hback : Word.signed 64 (pos : ℤ) = pos := Word.signed_natCast (by omega)
  simp [aesdLlseek, hword, hback]

/-- The two seek paths agree. A request for a retained byte answers with the bytes, and
the count of bytes, that a reader gets who seeks there and reads on until nothing comes
back; it leaves the whole device as it was. -/
theorem seek_paths_agree (s : DriverState) (hs : Reached s)
    (hsmall : ∀ e ∈ retained s.dev, e.length < 2 ^ 31) (older newer : List Bytes) (entry : Bytes)
    (hsplit : retained s.dev = older ++ entry :: newer) (arg : AesdSeekto)
    (hcmd : arg.writeCmd.toNat = older.length) (hoff : arg.writeCmdOffset.toNat < entry.length)
    (hfits : (entry.drop arg.writeCmdOffset.toNat ++ newer.flatten).length ≤ 500)
    (m : Alloc) (hfresh : s.dev.heap m.addr = none) (interrupted : Bool) (file : ℕ) :
    ∃ bytes, s.step (.ioctl file AESDCHAR_IOCSEEKTO arg (granted interrupted m)) =
        .ok (s, ⟨0, [], some ⟨arg.specialBuffer, bytes,
          { arg with lengthCopied := .ofNat bytes.length }⟩⟩) ∧
      bytes.length < 2 ^ 64 ∧
      ∀ reader, ∀ counts : ℕ → ℕ, (∀ i, 0 < counts i) →
        let pos := older.flatten.length + arg.writeCmdOffset.toNat
        ∃ n t rs r, s.run (.llseek reader pos 0 :: readCalls reader counts (n + 1)) =
            .ok (t, ⟨pos, [], none⟩ :: (rs ++ [r])) ∧
          (∀ o ∈ rs, 0 < o.ret) ∧ r.ret = 0 ∧
          ((rs ++ [r]).map Reply.delivered).flatten = bytes := by
  have hv := hs.valid
  obtain ⟨bufs, hstands⟩ := hs.standsFor
  have hstore : retained s.dev = s.dev.store.commands := (store_commands hv).symm
  rw [hstore] at hsmall hsplit
  have hle := AesdDev.commands_length_le hv
  have hD := AesdDev.contents_small hv hsmall
  have hcontents : s.dev.store.contents.length =
      older.flatten.length + (entry.length + newer.flatten.length) := by
    simp [CommandStore.contents, hsplit]
  have hbytes := AesdDev.requested_within hv hsplit hoff
  rw [← hcmd] at hbytes
  rw [hsplit, List.length_append, List.length_cons] at hle
  refine ⟨entry.drop arg.writeCmdOffset.toNat ++ newer.flatten, ?_, by omega,
    fun reader counts hc => ?_⟩
  · simp only [DriverState.step,
      aesdIoctl_spec hv hstands.free hsmall hfresh (by omega) hbytes hfits interrupted]
    rfl
  · intro pos
    have hpos : pos < 2 ^ 63 := by omega
    obtain ⟨n, t, rs, r, hrun, hpositive, hlast, -, hdelivered⟩ :=
      @reads_drain s.dev hv (by omega) (Function.update s.fpos reader (pos : ℤ)) reader pos hpos
        (by simp) counts hc
    refine ⟨n, t, rs, r, run_cons_ok.mpr ⟨_, _, _, ?_, hrun, rfl⟩, hpositive, hlast, ?_⟩
    · simp only [DriverState.step, aesdLlseek_set _ _ hpos]
    · rw [hdelivered, CommandStore.contents, hsplit, List.flatten_append, List.flatten_cons]
      simp only [pos]
      rw [← List.drop_drop, List.drop_left, List.drop_append_of_le_length hoff.le]

theorem seek_paths_agree_one_entry :
    ∃ bytes, oneEntry.step (.ioctl 0 AESDCHAR_IOCSEEKTO ⟨0, 1, 0, 7⟩ (granted false ⟨9, 0⟩)) =
        .ok (oneEntry, ⟨0, [], some ⟨7, bytes, ⟨0, 1, .ofNat bytes.length, 7⟩⟩⟩) ∧
      bytes.length < 2 ^ 64 ∧
      ∀ reader, ∀ counts : ℕ → ℕ, (∀ i, 0 < counts i) →
        ∃ n t rs r, oneEntry.run
            (.llseek reader ((0 + 1 : ℕ) : ℤ) 0 :: readCalls reader counts (n + 1)) =
            .ok (t, ⟨((0 + 1 : ℕ) : ℤ), [], none⟩ :: (rs ++ [r])) ∧
          (∀ o ∈ rs, 0 < o.ret) ∧ r.ret = 0 ∧
          ((rs ++ [r]).map Reply.delivered).flatten = bytes :=
  seek_paths_agree oneEntry oneEntry_reached (by decide) [] [] [97, 10] (by decide) ⟨0, 1, 0, 7⟩
    rfl (by decide) (by decide) ⟨9, 0⟩ (by decide) false 0

end Aesd
