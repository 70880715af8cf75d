import Aesd.DriverReach
import Aesd.DriverSeek
import Aesd.SeekCommand

/-! What the worker in device mode makes of a chunk. A seek command is answered from the
worker's own buffer; an answer of exactly one byte is taken for no command, and the chunk is
then written to the device. -/
namespace Aesd
open AesdDev Cut Machine Memory

/-- The read-out loop sends everything from its offset on. -/
lemma dumpDeviceFrom_spec {d : AesdDev} (hv : d.Valid) (hD : d.store.contents.length < 2 ^ 63)
    {fuel pos : ℕ} (hpos : pos ≤ d.store.contents.length)
    (hfuel : d.store.contents.length < fuel + pos) (fpos : ℤ) :
    dumpDeviceFrom d fuel fpos pos = .ok (d.store.contents.drop pos) := by
  induction fuel generalizing pos fpos with
  | zero => omega
  | succ fuel ih =>
    have hend := CommandStore.readLength_le d.store hpos 100
    have hread : aesdRead d 100 pos 0 = _ :=
      AesdDev.read_spec hv hD (show pos < 2 ^ 63 by omega) rfl
    rw [dumpDeviceFrom, aesdLlseek_set d fpos (by omega), hread]
    change (if ((d.store.readLength pos 100 : ℕ) : ℤ) > 0 then _ else _) = _
    rcases hpos.lt_or_eq with hlt | heq
    · have hsome := CommandStore.readLength_pos hlt (show 0 < 100 by omega)
      generalize d.store.readLength pos 100 = n at hend hsome
      have hrest := @ih (pos + n) hend (by omega) (pos + n : ℕ)
      rw [if_pos (by omega)]
      change (dumpDeviceFrom d fuel (pos + n : ℕ) ((pos : ℤ) + n) >>= _) = _
      rw [← Nat.cast_add, hrest]
      change Except.ok _ = _
      rw [← List.drop_drop, List.take_append_drop]
    · have hnone := CommandStore.readLength_past heq.ge 100
      rw [hnone, if_neg (by simp), List.drop_of_length_le heq.ge]

lemma dumpDeviceToSocket_eq {d : AesdDev} (hv : d.Valid) (hD : d.store.contents.length < 2 ^ 63) :
    dumpDeviceToSocket d = .ok d.store.contents := by
  have hlen := AesdDev.length_contents hv hD
  have hall := @dumpDeviceFrom_spec d hv hD (d.store.contents.length + 1) 0 (by omega) (by omega) 0
  rw [dumpDeviceToSocket, hlen]
  exact hall

/-- Runs of the given lengths, taken in order while the budget lasts. -/
def takenWithin : ℤ → List ℕ → ℕ
  | _, [] => 0
  | budget, n :: ns => if 0 < budget then n + takenWithin (budget - n) ns else 0

/-- The lengths of the runs a request for byte `off` of command `w` asks for. -/
def askedFor (sizes : List ℕ) (w off : ℕ) : List ℕ :=
  match sizes.drop (w % 10) with
  | [] => []
  | z :: zs => (z - off) :: zs

/-- The request names the last byte of the newest entry; or it names no byte of its entry
but one of the whole, the next entry is one byte long, and it is the newest or the byte
named is the last of the whole. -/
def SelectsOneByte (sizes : List ℕ) (w off : ℕ) : Prop :=
  match sizes.drop (w % 10) with
  | [] => False
  | [z] => off + 1 = z
  | z :: z' :: zs => z ≤ off ∧ off < sizes.sum ∧ z' = 1 ∧ (zs = [] ∨ off + 1 = sizes.sum)

/-- Some run the request gets to ends beyond the 500 bytes of the scratch buffer. -/
def Overruns (sizes : List ℕ) (w off : ℕ) : Prop :=
  ∃ j < (askedFor sizes w off).length,
    (((askedFor sizes w off).take j).sum : ℤ) < (sizes.sum : ℤ) - off ∧
      500 < ((askedFor sizes w off).take (j + 1)).sum

lemma selected_length (budget : ℤ) (cs : List Bytes) (off : ℕ) :
    (selected budget cs off).length =
      takenWithin budget (match cs.map List.length with
        | [] => []
        | z :: zs => (z - off) :: zs) := by
  induction cs generalizing budget off with
  | nil => rfl
  | cons c cs ih =>
    have hlater := ih (budget - (c.drop off).length) 0
    have hwhole : (match cs.map List.length with
        | [] => []
        | z :: zs => (z - 0) :: zs) = cs.map List.length := by
      cases cs <;> rfl
    rw [hwhole] at hlater
    rw [selected, List.map_cons, takenWithin]
    split_ifs with hb
    · rw [List.length_append, hlater, List.length_drop]
    · rfl

lemma requested_length (d : AesdDev) (w off : ℕ) :
    (d.requested w off).length =
      takenWithin (((d.store.commands.map List.length).sum : ℤ) - off)
        (askedFor (d.store.commands.map List.length) w off) := by
  rw [AesdDev.requested, selected_length, CommandStore.contents_length, List.map_drop]
  rfl

lemma lt_takenWithin {limit : ℕ} {budget : ℤ} {ns : List ℕ} :
    limit < takenWithin budget ns ↔
      ∃ j < ns.length, ((ns.take j).sum : ℤ) < budget ∧ limit < (ns.take (j + 1)).sum := by
  induction ns generalizing limit budget with
  | nil => simp [takenWithin]
  | cons n ns ih =>
    rw [takenWithin]
    split_ifs with hb
    · rcases Nat.lt_or_ge limit n with hfirst | hfirst
      · refine ⟨fun _ => ⟨0, by simp, by simpa using hb, by simpa using hfirst⟩, fun _ => by omega⟩
      · have hlater := @ih (limit - n) (budget - n)
        constructor
        · intro h
          obtain ⟨j, hj, hbefore, hafter⟩ := hlater.mp (by omega)
          refine ⟨j + 1, by simpa using hj, ?_, ?_⟩
          · rw [List.take_succ_cons, List.sum_cons, Nat.cast_add]
            omega
          · rw [List.take_succ_cons, List.sum_cons]
            omega
        · rintro ⟨j, hj, hbefore, hafter⟩
          cases j with
          | zero =>
            simp at hafter
            omega
          | succ j =>
            rw [List.take_succ_cons, List.sum_cons] at hbefore hafter
            rw [Nat.cast_add] at hbefore
            have hmore := hlater.mpr ⟨j, by simpa using hj, by omega, by omega⟩
            omega
    · refine ⟨fun h => by omega, ?_⟩
      rintro ⟨j, -, hbefore, -⟩
      omega

lemma takenWithin_eq_zero {budget : ℤ} {n : ℕ} {ns : List ℕ} (hn : 0 < n) :
    takenWithin budget (n :: ns) = 0 ↔ budget ≤ 0 := by
  rw [takenWithin]
  split_ifs <;> omega

lemma takenWithin_eq_one {sizes : List ℕ} (hpos : ∀ z ∈ sizes, 0 < z) (w off : ℕ) :
    takenWithin ((sizes.sum : ℤ) - off) (askedFor sizes w off) = 1 ↔
      SelectsOneByte sizes w off := by
  have hsum := List.sum_take_add_sum_drop sizes (w % 10)
  have hpos' : ∀ z ∈ sizes.drop (w % 10), 0 < z := fun z hz => hpos z (List.mem_of_mem_drop hz)
  unfold askedFor SelectsOneByte
  generalize sizes.sum = total at *
  generalize (sizes.take (w % 10)).sum = older at *
  rcases hd : sizes.drop (w % 10) with _ | ⟨z, _ | ⟨z', zs⟩⟩
  · simp [takenWithin]
  · rw [hd] at hsum
    simp only [List.sum_cons, List.sum_nil] at hsum
    change takenWithin _ [z - off] = 1 ↔ off + 1 = z
    simp only [takenWithin]
    by_cases hbudget : (0 : ℤ) < total - off
    · rw [if_pos hbudget]
      omega
    · rw [if_neg hbudget]
      omega
  · rw [hd] at hsum hpos'
    have hz := hpos' z (by simp)
    have hz' := hpos' z' (by simp)
    simp only [List.sum_cons] at hsum
    -- the entry named, the one behind it, and whatever is left of the budget for the others
    have hlast : takenWithin (((total : ℤ) - off) - (z - off : ℕ) - z') zs = 0 ↔
        zs = [] ∨ ((total : ℤ) - off) - (z - off : ℕ) ≤ z' := by
      cases zs with
      | nil => simp [takenWithin]
      | cons z'' zs =>
        have hz'' := hpos' z'' (by simp)
        rw [takenWithin_eq_zero hz'']
        simp
    simp only [takenWithin]
    generalize takenWithin (((total : ℤ) - off) - (z - off : ℕ) - z') zs = later at hlast ⊢
    by_cases hin : off < z
    · rw [if_pos (by omega), if_pos (by omega)]
      omega
    · have hnone : z - off = 0 := by omega
      rw [hnone, Nat.cast_zero, sub_zero] at hlast ⊢
      by_cases hbudget : off < total
      · rw [if_pos (by omega), if_pos (by omega)]
        constructor
        · intro h
          have hone : z' = 1 := by omega
          have hzero : later = 0 := by omega
          rcases hlast.mp hzero with hnil | hend
          · exact ⟨by omega, hbudget, hone, Or.inl hnil⟩
          · exact ⟨by omega, hbudget, hone, Or.inr (by omega)⟩
        · rintro ⟨-, -, hone, hend⟩
          have hzero : later = 0 := by
            apply hlast.mpr
            rcases hend with hnil | hend
            · exact Or.inl hnil
            · exact Or.inr (by omega)
          omega
      · rw [if_neg (by omega)]
        omega

lemma AesdDev.store_frame {d : AesdDev} (hv : d.Valid) {m : ℕ} (hm : d.heap m = none)
    (v : Option Bytes) (lock : Bool) :
    AesdDev.store { d with lock := lock, heap := Function.update d.heap m v } = d.store := by
  have hnew := hv.separated.ne_of_dead hm
  have hring : m ∉ d.ringIds := fun h => hnew (List.mem_append_right _ h)
  have hpending : ∀ r, d.readBuf = some r →
      entryBytes (Function.update d.heap m v) r.entry = entryBytes d.heap r.entry := by
    intro r hr
    rw [owned_some hr] at hnew
    have hptr : m ∉ r.entry.buffptr.ids := fun h =>
      hnew (List.mem_cons_of_mem _ (List.mem_append_left _ h))
    rw [entryBytes, entryBytes, bytesAt_update_of_not_mem hptr]
  have hcommands := entries_frame hring v
  cases hr : d.readBuf with
  | none => simpa [store, pendingBytes, hr] using hcommands
  | some r => simpa [store, pendingBytes, hr, hpending r hr] using hcommands

/-- A chunk that is not taken for a command is written to the device, which is then read out
if the chunk has a line feed. -/
lemma deviceTurn_write {d : AesdDev} {buffer buffer' : Bytes} {bufferAddr : UInt64} {length : ℕ}
    {f : Frame} {a : IoctlAnswers} {wr : WriteAnswers} {result : ℤ}
    (hhandle : handleIoctlCommainds d buffer bufferAddr length f a = .ok (d, buffer', result))
    (hmany : ¬result > 1) (hnone : result ≠ 0) (hv : d.settled.Valid) (hfree : d.lock = false)
    (hlen : length ≤ buffer'.length) (hgrant : wr.Granted d)
    (hcopy : min wr.uncopied length = 0) :
    ∃ d', d'.Valid ∧ d'.lock = false ∧ d'.store = d.store.write (buffer'.take length) ∧
      deviceTurn d buffer bufferAddr length f a wr =
        (if newline ∈ buffer'.take length then dumpDeviceToSocket d' else .ok []) >>=
          fun sent => .ok ⟨d', buffer', sent⟩ := by
  have hchunk : (buffer'.take length).length = length := by rw [List.length_take, min_eq_left hlen]
  obtain ⟨d', hv', hdone, -⟩ :=
    aesdWrite_spec (d := d.settled) hv hfree (granted_settled.mpr hgrant) (buffer'.take length)
  rw [hchunk, aesdWrite_settled hfree, settled_store] at hdone
  obtain ⟨hwrite, hfree', hstore⟩ := hdone hcopy
  have hread : ((buffer'.drop 0).take (buffer'.take length).length) = buffer'.take length := by
    rw [hchunk, List.drop_zero]
  obtain ⟨p, hp, hiff⟩ := findDelimterFrom_spec hread
  rw [hchunk] at hp
  refine ⟨d', hv', hfree', hstore, ?_⟩
  rw [deviceTurn, hhandle]
  change (if result > 1 then _ else _) = _
  rw [if_neg hmany, if_neg hnone]
  rw [hwrite]
  change (findDelimterFrom buffer' 0 length >>= _) = _
  rw [hp]
  change (if p ≠ -1 then _ else _) = _
  by_cases hn : newline ∈ buffer'.take length
  · rw [if_pos (by rw [ne_eq, hiff]; exact not_not.mpr hn), if_pos hn]
  · rw [if_neg (by rw [not_not, hiff]; exact hn), if_neg hn]
    rfl

/-- Such a chunk is answered with all that the device then holds if it has a line feed. -/
lemma deviceTurn_data {d : AesdDev} {buffer buffer' : Bytes} {bufferAddr : UInt64} {length : ℕ}
    {f : Frame} {a : IoctlAnswers} {wr : WriteAnswers} {result : ℤ}
    (hhandle : handleIoctlCommainds d buffer bufferAddr length f a = .ok (d, buffer', result))
    (hmany : ¬result > 1) (hnone : result ≠ 0) (hv : d.settled.Valid) (hfree : d.lock = false)
    (hlen : length ≤ buffer'.length) (hgrant : wr.Granted d) (hcopy : min wr.uncopied length = 0)
    (hD : (d.store.write (buffer'.take length)).contents.length < 2 ^ 63) :
    ∃ d', d'.Valid ∧ d'.lock = false ∧ d'.store = d.store.write (buffer'.take length) ∧
      deviceTurn d buffer bufferAddr length f a wr =
        .ok ⟨d', buffer', if newline ∈ buffer'.take length then d'.store.contents else []⟩ := by
  obtain ⟨d', hv', hfree', hstore, hturn⟩ :=
    deviceTurn_write hhandle hmany hnone hv hfree hlen hgrant hcopy
  refine ⟨d', hv', hfree', hstore, hturn.trans ?_⟩
  by_cases hn : newline ∈ buffer'.take length
  · rw [if_pos hn, if_pos hn, dumpDeviceToSocket_eq hv' (by rw [hstore]; exact hD)]
    rfl
  · rw [if_neg hn, if_neg hn]
    rfl

section Handling

variable {d : AesdDev} {buffer : Bytes} {bufferAddr : UInt64} {length : ℕ} {f : Frame} {x y : UInt32}
  (hrec : recognised buffer length) (hreq : seekNumbers (buffer.take length) f = .ok (x, y))
  {a : IoctlAnswers} {wr : WriteAnswers}

include hrec hreq

/-- A recognised command becomes one seek request; what the driver answers overwrites the
start of the buffer, and its length is the result. -/
lemma handle_recognised :
    handleIoctlCommainds d buffer bufferAddr length f a =
      aesdIoctl d AESDCHAR_IOCSEEKTO ⟨x, y, 0, bufferAddr⟩ a >>= fun answered =>
        match answered.2.2 with
        | none => .ok (answered.1, buffer.set length 0, 0)
        | some r =>
          if buffer.length < r.special.length then .error .fault
          else
            .ok (answered.1, splice (buffer.set length 0) 0 r.special,
              Word.signed 64 r.arg.lengthCopied.toNat) := by
  rw [handleIoctlCommainds, if_pos hrec, hreq]
  rfl

lemma deviceTurn_refused {d' : AesdDev} {ret : ℤ}
    (h : aesdIoctl d AESDCHAR_IOCSEEKTO ⟨x, y, 0, bufferAddr⟩ a = .ok (d', ret, none)) :
    deviceTurn d buffer bufferAddr length f a wr = .ok ⟨d', buffer.set length 0, []⟩ := by
  rw [deviceTurn, handle_recognised hrec hreq, h]
  rfl

lemma deviceTurn_stops {e : Stop}
    (h : aesdIoctl d AESDCHAR_IOCSEEKTO ⟨x, y, 0, bufferAddr⟩ a = .error e) :
    deviceTurn d buffer bufferAddr length f a wr = .error e := by
  rw [deviceTurn, handle_recognised hrec hreq, h]
  rfl

variable {bytes : Bytes} (hfits : bytes.length ≤ buffer.length) (hbuf : buffer.length = BUFFER_SIZE)
  (h : aesdIoctl d AESDCHAR_IOCSEEKTO ⟨x, y, 0, bufferAddr⟩ a =
    .ok (d, 0, some ⟨bufferAddr, bytes, ⟨x, y, .ofNat bytes.length, bufferAddr⟩⟩))

include hfits hbuf h

lemma handle_answered :
    handleIoctlCommainds d buffer bufferAddr length f a =
      .ok (d, splice (buffer.set length 0) 0 bytes, (bytes.length : ℤ)) := by
  have hlen : bytes.length < 2 ^ 64 := by
    simp only [hbuf, BUFFER_SIZE] at hfits
    omega
  have hret : Word.signed 64 ((UInt64.ofNat bytes.length).toNat : ℤ) = (bytes.length : ℤ) := by
    simp only [hbuf, BUFFER_SIZE] at hfits
    rw [UInt64.toNat_ofNat_of_lt' hlen, Word.signed_natCast (by omega)]
  rw [handle_recognised hrec hreq, h]
  change (if buffer.length < bytes.length then _ else _) = _
  rw [if_neg (by omega), hret]

/-- An answer of no byte or of several is sent from the start of the buffer, where it lies. -/
lemma deviceTurn_sends (hone : bytes.length ≠ 1) :
    deviceTurn d buffer bufferAddr length f a wr =
      .ok ⟨d, splice (buffer.set length 0) 0 bytes, bytes⟩ := by
  have htake : (splice (buffer.set length 0) 0 bytes).take bytes.length = bytes := by
    simp [splice]
  rw [deviceTurn, handle_answered hrec hreq hfits hbuf h]
  change (if (bytes.length : ℤ) > 1 then _ else _) = _
  by_cases hmany : bytes.length > 1
  · rw [if_pos (by omega), Int.toNat_natCast, htake]
  · have hnone : bytes = [] := List.length_eq_zero_iff.mp (by omega)
    rw [if_neg (by omega), if_pos (by omega), hnone]

/-- An answer of one byte is not taken for one. The chunk, its first byte overwritten, is
written to the device, and what is sent is nothing, or all that the device now holds. -/
lemma deviceTurn_one (hv : d.settled.Valid) (hfree : d.lock = false)
    (hsmall : ∀ c ∈ d.store.commands, c.length < 2 ^ 31)
    (hpending : d.store.pending.length < 2 ^ 31) (hgrant : wr.Granted d)
    (hcopy : min wr.uncopied length = 0) (hone : bytes.length = 1) {t : DeviceTurn}
    (ht : deviceTurn d buffer bufferAddr length f a wr = .ok t) : t.sent.length ≠ 1 := by
  have hlow := hrec.1
  have hhigh := hrec.2.1
  have hhandle := handle_answered hrec hreq hfits hbuf h
  have hkeep : (splice (buffer.set length 0) 0 bytes).length = 2000 := by
    rw [splice_length (by simpa using hfits), List.length_set, hbuf, BUFFER_SIZE]
  generalize splice (buffer.set length 0) 0 bytes = buffer' at hhandle hkeep
  have hchunk : (buffer'.take length).length = length := by
    rw [List.length_take]
    omega
  have hbefore := AesdDev.contents_small hv (by rw [settled_store]; exact hsmall)
  rw [settled_store] at hbefore
  have hD : (d.store.write (buffer'.take length)).contents.length < 2 ^ 63 := by
    by_cases hn : newline ∈ buffer'.take length
    · obtain ⟨-, hle⟩ := CommandStore.write_closed_length d.store hn
      omega
    · rw [CommandStore.write_open _ hn, CommandStore.contents]
      exact hbefore.trans (by norm_num)
  obtain ⟨d', -, -, hstore, hturn⟩ := deviceTurn_data hhandle (by omega) (by omega) hv hfree
    (by omega) hgrant hcopy hD
  rw [hturn, Except.ok.injEq] at ht
  rw [← ht]
  dsimp only
  split_ifs with hn
  · obtain ⟨hmost, -⟩ := CommandStore.write_closed_length d.store hn
    rw [← hstore] at hmost
    omega
  · simp

end Handling

/-- A receive buffer with a seek command for command 0 at its start. -/
def seekBuffer (offset : Char) : Bytes :=
  testString ++ ascii ['0', ',', offset, 'x'] ++ List.replicate 1977 0

/-- A stack with the two arrays side by side, all zeros. -/
def seekFrame : Frame := ⟨List.replicate 8 0, 0, 4⟩

end Aesd
