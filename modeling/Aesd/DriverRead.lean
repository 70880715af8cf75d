import Aesd.DriverHistory
import Aesd.CircularBufferSearch

/-! Reading back. Over a device no write disturbs, `aesd_read` gives the reader the store's
contents from any position on, stopping at the end of each command. -/
namespace Aesd
open Cut Machine Memory

lemma signed_position {pos n : ℕ} (h : pos + n < 2 ^ 63) :
    Word.signed 64 n = n ∧ Word.signed 64 ((pos : ℤ) + n) = (pos + n : ℕ) := by
  rw [← Nat.cast_add]
  exact ⟨Word.signed_natCast (by omega), Word.signed_natCast (by omega)⟩

lemma aesdRead_none {d : AesdDev} {count uncopied : ℕ} {fpos : ℤ}
    (h : readChoose d count fpos = .ok none) :
    aesdRead d count fpos uncopied = .ok ⟨0, fpos, []⟩ := by
  rw [aesdRead, h]
  rfl

lemma aesdRead_some {d : AesdDev} {count uncopied offset n left : ℕ} {fpos : ℤ} {p : Ptr}
    {bs : Bytes} (h : readChoose d count fpos = .ok (some (p, offset, n)))
    (hc : copyToUser d.heap p offset n uncopied = .ok (left, bs)) :
    aesdRead d count fpos uncopied =
      .ok ⟨Word.signed 64 n, Word.signed 64 (fpos + n), bs⟩ := by
  rw [aesdRead, h]
  simp only [bind, Except.bind, hc]

lemma readChoose_zero (d : AesdDev) (fpos : ℤ) : readChoose d 0 fpos = .ok none := by
  have hz : readCount d 0 fpos = 0 := by simp [readCount]
  rw [readChoose, hz]
  rfl

namespace AesdDev

variable {d : AesdDev} (hv : d.Valid)

include hv

lemma sizes_eq : d.circBuf.sizes = d.store.commands.map List.length := by
  rw [store_commands hv, List.map_map]
  apply List.map_congr_left
  intro e he
  exact entry_fills hv he

lemma sizes_sum : d.circBuf.sizes.sum = d.store.contents.length := by
  rw [sizes_eq hv, CommandStore.contents_length]

/-- The slot of a retained command points to the command's bytes. -/
lemma slot_command {j : ℕ} (hj : j < d.store.commands.length) :
    let e := d.circBuf.entryAt ((d.circBuf.outOffs + j) % 10)
    bytesAt d.heap e.buffptr = d.store.commands[j] ∧ e.size = d.store.commands[j].length := by
  intro e
  have hj' : j < d.circBuf.entries.length := by simpa [store] using hj
  have he : d.circBuf.entries[j] = e := AesdCircularBuffer.entries_getElem hj'
  have hcmd : d.store.commands[j] = bytesAt d.heap e.buffptr := by
    simp only [store_commands hv, List.getElem_map, he]
  have hfill := entry_fills hv (List.getElem_mem hj')
  rw [he] at hfill
  exact ⟨hcmd.symm, by rw [hcmd, hfill]⟩

lemma length_contents (hD : d.store.contents.length < 2 ^ 63) :
    getLengthOfAllEntriesInBuffer d.circBuf = d.store.contents.length := by
  rw [AesdCircularBuffer.getLength_eq hv.ring, sizes_sum hv]
  exact Nat.mod_eq_of_lt (by omega)

lemma find_command (hD : d.store.contents.length < 2 ^ 63) {pos : ℕ} (hpos : pos < 2 ^ 64) :
    aesdCircularBufferFindEntryOffsetForFpos d.circBuf pos =
      .ok ((locate (d.store.commands.map List.length) pos).map fun p =>
        ((d.circBuf.outOffs + p.1) % 10, p.2)) := by
  have hsum := sizes_sum hv
  rw [← sizes_eq hv]
  exact AesdCircularBuffer.find_eq hv.ring hpos (by omega)

/-- The clamp leaves a count below the total alone, and otherwise asks for what is left;
past the end that difference wraps. -/
lemma readCount_eq (hD : d.store.contents.length < 2 ^ 63) (count : ℕ) (fpos : ℤ) :
    readCount d count fpos =
      if count > d.store.contents.length then
        Word.unsigned 64 (d.store.contents.length - fpos)
      else count := by
  have hsigned : Word.signed 64 d.store.contents.length = d.store.contents.length :=
    Word.signed_natCast (by omega)
  simp only [readCount, length_contents hv hD, hsigned]
  rw [Word.unsigned_natCast (by omega)]

lemma readChoose_past (hD : d.store.contents.length < 2 ^ 63) {pos : ℕ} (hpos : pos < 2 ^ 63)
    (hpast : d.store.contents.length ≤ pos) (count : ℕ) : readChoose d count pos = .ok none := by
  have hnone : locate (d.store.commands.map List.length) pos = none := by
    rw [locate_eq_none, ← CommandStore.contents_length]
    exact hpast
  unfold readChoose
  dsimp only
  rw [Word.unsigned_natCast (by omega), find_command hv hD (by omega), hnone]
  split_ifs <;> rfl

/-- Before the end the read chooses the run the store gives. -/
lemma readChoose_within (hD : d.store.contents.length < 2 ^ 63) {pos : ℕ}
    (hin : pos < d.store.contents.length) {count : ℕ} (hc : 0 < count) :
    ∃ i k e, locate (d.store.commands.map List.length) pos = some (i, k) ∧
      e = d.circBuf.entryAt ((d.circBuf.outOffs + i) % 10) ∧
      readChoose d count pos =
        .ok (some (e.buffptr, k, d.store.readLength pos count)) := by
  cases hl : locate (d.store.commands.map List.length) pos with
  | none =>
    rw [locate_eq_none, ← CommandStore.contents_length] at hl
    omega
  | some p =>
    obtain ⟨i, k⟩ := p
    refine ⟨i, k, _, rfl, rfl, ?_⟩
    obtain ⟨hi, hk, -⟩ := locate_spec hl
    rw [List.length_map] at hi
    rw [List.getElem_map] at hk
    have hleft := locate_left hl
    rw [← CommandStore.contents_length, List.getElem?_map, List.getElem?_eq_getElem hi,
      Option.map_some, Option.getD_some] at hleft
    obtain ⟨-, hsize⟩ := slot_command hv hi
    have hlen : d.store.readLength pos count = min count (d.store.commands[i].length - k) := by
      rw [CommandStore.readLength, hl]
      simp only [List.getElem?_eq_getElem hi, Option.getD_some]
    have hrest : Word.unsigned 64 ((d.store.commands[i].length : ℤ) - k) =
        d.store.commands[i].length - k := by
      rw [← Nat.cast_sub hk.le]
      exact Word.unsigned_natCast (by omega)
    have hclamp : readCount d count pos =
        if count > d.store.contents.length then d.store.contents.length - pos else count := by
      rw [readCount_eq hv hD, ← Nat.cast_sub hin.le, Word.unsigned_natCast (by omega)]
    have hsome : readCount d count pos ≠ 0 := by
      rw [hclamp]
      split_ifs <;> omega
    have hbytes : (if d.store.commands[i].length - k > readCount d count pos then
        readCount d count pos
      else if d.store.commands[i].length - k < readCount d count pos then
        d.store.commands[i].length - k
      else readCount d count pos) = d.store.readLength pos count := by
      rw [hlen, hclamp]
      split_ifs <;> omega
    unfold readChoose
    dsimp only
    rw [if_neg hsome, Word.unsigned_natCast (by omega), find_command hv hD (by omega), hl]
    simp only [Option.map_some, bind, Except.bind, hsize, hrest, hbytes]

/-- One read over a device no write disturbs, of which `uncopied` bytes do not arrive. -/
theorem read_uncopied (hD : d.store.contents.length < 2 ^ 63) {pos : ℕ} (hpos : pos < 2 ^ 63)
    {count n : ℕ} (hlen : d.store.readLength pos count = n) (uncopied : ℕ) :
    aesdRead d count pos uncopied =
      .ok ⟨n, (pos + n : ℕ), ((d.store.contents.drop pos).take n).take (n - min uncopied n)⟩ := by
  rcases Nat.lt_or_ge pos d.store.contents.length with hin | hpast
  · rcases Nat.eq_zero_or_pos count with rfl | hc
    · obtain ⟨_, _, _, -, -, -, hmin⟩ := CommandStore.readLength_within hin 0
      rw [hlen, Nat.zero_min] at hmin
      rw [aesdRead_none (readChoose_zero d pos), hmin]
      simp
    · obtain ⟨i, k, e, hl, he, hchoose⟩ := readChoose_within hv hD hin hc
      obtain ⟨hi, hk, -⟩ := locate_spec hl
      rw [List.length_map] at hi
      rw [List.getElem_map] at hk
      obtain ⟨hbytes, -⟩ := slot_command hv hi
      rw [← he] at hbytes
      have hend := CommandStore.readLength_le d.store hin.le count
      have hn : n = min count (d.store.commands[i].length - k) := by
        rw [← hlen, CommandStore.readLength, hl]
        simp only [List.getElem?_eq_getElem hi, Option.getD_some]
      have hslice : (d.store.contents.drop pos).take n = (d.store.commands[i].drop k).take n := by
        rw [CommandStore.contents, drop_flatten_locate hl, List.getElem?_eq_getElem hi,
          Option.getD_some, List.take_append_of_le_length (by rw [List.length_drop]; omega)]
      have hcopy := copyToUser_ok (h := d.heap) (p := e.buffptr) (n := n) uncopied
        (by rw [hbytes]; exact show k + n ≤ _ by omega)
      rw [hbytes, ← hslice] at hcopy
      rw [hlen] at hchoose hend
      obtain ⟨hret, hnext⟩ := signed_position (hend.trans_lt hD)
      rw [aesdRead_some hchoose hcopy, hret, hnext]
  · have hn : n = 0 := by rw [← hlen, CommandStore.readLength_past hpast]
    rw [aesdRead_none (readChoose_past hv hD hpos hpast count), hn]
    simp

/-- One read over a device no write disturbs. -/
theorem read_spec (hD : d.store.contents.length < 2 ^ 63) {pos : ℕ} (hpos : pos < 2 ^ 63)
    {count n : ℕ} (hlen : d.store.readLength pos count = n) :
    aesdRead d count pos 0 = .ok ⟨n, (pos + n : ℕ), (d.store.contents.drop pos).take n⟩ := by
  rw [read_uncopied hv hD hpos hlen, Nat.zero_min, Nat.sub_zero, List.take_take, min_self]

end AesdDev

/-- The first `n` reads of a reader that asks for `counts 0`, `counts 1` and so on. -/
def readCalls (file : ℕ) (counts : ℕ → ℕ) (n : ℕ) : List Call :=
  (List.range n).map fun i => .read file (counts i) 0

lemma readCalls_succ (file : ℕ) (counts : ℕ → ℕ) (n : ℕ) :
    readCalls file counts (n + 1) =
      .read file (counts 0) 0 :: readCalls file (fun i => counts (i + 1)) n := by
  simp [readCalls, List.range_succ_eq_map, Function.comp_def]

lemma read_step {d : AesdDev} (hv : d.Valid) (hD : d.store.contents.length < 2 ^ 63)
    {fpos : ℕ → ℤ} {file pos : ℕ} (hpos : pos < 2 ^ 63) (hf : fpos file = pos) (count : ℕ) {n : ℕ}
    (hlen : d.store.readLength pos count = n) :
    DriverState.step ⟨d, fpos⟩ (.read file count 0) =
      .ok (⟨d, Function.update fpos file (pos + n : ℕ)⟩,
        ⟨n, (d.store.contents.drop pos).take n, none⟩) := by
  simp only [DriverState.step, hf]
  rw [AesdDev.read_spec hv hD hpos hlen]
  rfl

/-- Reading on until nothing comes back gives everything from the first position on. -/
theorem reads_drain {d : AesdDev} (hv : d.Valid) (hD : d.store.contents.length < 2 ^ 63)
    {fpos : ℕ → ℤ} {file pos : ℕ} (hpos : pos < 2 ^ 63) (hf : fpos file = pos) {counts : ℕ → ℕ}
    (hc : ∀ i, 0 < counts i) :
    ∃ n t rs r, DriverState.run ⟨d, fpos⟩ (readCalls file counts (n + 1)) = .ok (t, rs ++ [r]) ∧
      (∀ o ∈ rs, 0 < o.ret) ∧ r.ret = 0 ∧ t.dev = d ∧
      ((rs ++ [r]).map Reply.delivered).flatten = d.store.contents.drop pos := by
  -- what is left to read shrinks with every read that returns something
  induction hleft : d.store.contents.length - pos using Nat.strong_induction_on
    generalizing fpos pos counts with
  | _ left ih =>
    have hstep := read_step hv hD hpos hf (counts 0) rfl
    rcases Nat.lt_or_ge pos d.store.contents.length with hin | hpast
    · have hsome := CommandStore.readLength_pos hin (hc 0)
      have hend := CommandStore.readLength_le d.store hin.le (counts 0)
      generalize d.store.readLength pos (counts 0) = m at hstep hsome hend
      obtain ⟨n, t, rs, r, hrun, hpositive, hlast, hdev, hbytes⟩ :=
        @ih (d.store.contents.length - (pos + m)) (by omega)
          (Function.update fpos file (pos + m : ℕ)) (pos + m) (by omega) (by simp)
          (fun i => counts (i + 1)) (fun i => hc (i + 1)) rfl
      refine ⟨n + 1, t, ⟨m, (d.store.contents.drop pos).take m, none⟩ :: rs, r, ?_, ?_, hlast, hdev,
        ?_⟩
      · rw [readCalls_succ]
        exact run_cons_ok.mpr ⟨_, _, _, hstep, hrun, rfl⟩
      · intro o ho
        rcases List.mem_cons.mp ho with rfl | ho
        · simpa using hsome
        · exact hpositive o ho
      · rw [List.cons_append, List.map_cons, List.flatten_cons, hbytes, ← List.drop_drop,
          List.take_append_drop]
    · rw [CommandStore.readLength_past hpast] at hstep
      refine ⟨0, _, [], _, run_cons_ok.mpr ⟨_, _, [], hstep, rfl, rfl⟩, by simp, rfl, rfl, ?_⟩
      simp [List.drop_of_length_le hpast]

/-- The sequential read law, for every state that completed writes reach. One read returns
what is left of the entry the position falls on, or the count if that is less, and
nothing past the end. Reads from any position on end, and together give the rest. -/
theorem read_law (s : DriverState) (hs : Reached s)
    (hD : (retained s.dev).flatten.length < 2 ^ 63) :
    (∀ pos < 2 ^ 63, ∀ count,
      (pos < (retained s.dev).flatten.length → ∃ older entry newer,
        retained s.dev = older ++ entry :: newer ∧ older.flatten.length ≤ pos ∧
        pos < older.flatten.length + entry.length ∧
        let n := min count (older.flatten.length + entry.length - pos)
        aesdRead s.dev count pos 0 =
          .ok ⟨n, (pos + n : ℕ), ((retained s.dev).flatten.drop pos).take n⟩) ∧
      ((retained s.dev).flatten.length ≤ pos → aesdRead s.dev count pos 0 = .ok ⟨0, pos, []⟩)) ∧
    ∀ file pos, pos < 2 ^ 63 → ∀ counts : ℕ → ℕ, (∀ i, 0 < counts i) →
      ∃ n t rs r, DriverState.run ⟨s.dev, Function.update s.fpos file (pos : ℕ)⟩
          (readCalls file counts (n + 1)) = .ok (t, rs ++ [r]) ∧
        (∀ o ∈ rs, 0 < o.ret) ∧ r.ret = 0 ∧ t.dev = s.dev ∧
        ((rs ++ [r]).map Reply.delivered).flatten = (retained s.dev).flatten.drop pos := by
  have hv := hs.valid
  have hstore : (retained s.dev).flatten = s.dev.store.contents := by
    rw [CommandStore.contents, store_commands hv, retained]
  rw [hstore] at hD ⊢
  refine ⟨fun pos hpos count => ⟨fun hin => ?_, fun hpast => ?_⟩,
    fun file pos hpos counts hc => reads_drain hv hD hpos (by simp) hc⟩
  · obtain ⟨older, entry, newer, hsplit, hlow, hhigh, hn⟩ :=
      CommandStore.readLength_within hin count
    rw [store_commands hv] at hsplit
    exact ⟨older, entry, newer, hsplit, hlow, hhigh, AesdDev.read_spec hv hD hpos hn⟩
  · have h := AesdDev.read_spec hv hD hpos (CommandStore.readLength_past hpast count)
    simpa using h

/-- The device after one write of a line of two bytes. -/
def oneEntry : DriverState :=
  match DriverState.fresh.run [.write 0 [97, 10] (granting 3 4)] with
  | .ok p => p.1
  | .error _ => .fresh

lemma oneEntry_reached : Reached oneEntry := by
  refine ⟨⟨1, 0⟩, ⟨2, 0⟩, _, _, [⟨0, [97, 10], granting 3 4⟩], _, by decide,
    DriverState.fresh_setup, ?_, rfl⟩
  exact Guarded.cons ⟨by decide, by decide, ⟨nofun, _, rfl, rfl, nofun⟩⟩ rfl trivial

theorem read_law_one_entry :
    ∃ n t rs r, DriverState.run ⟨oneEntry.dev, Function.update oneEntry.fpos 0 ((1 : ℕ) : ℤ)⟩
        (readCalls 0 (fun _ => 5) (n + 1)) = .ok (t, rs ++ [r]) ∧
      (∀ o ∈ rs, 0 < o.ret) ∧ r.ret = 0 ∧ t.dev = oneEntry.dev ∧
      ((rs ++ [r]).map Reply.delivered).flatten = [10] :=
  (read_law oneEntry oneEntry_reached (by decide)).2 0 1 (by decide) (fun _ => 5) fun _ => by decide

end Aesd
