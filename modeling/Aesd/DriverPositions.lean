import Aesd.DriverReach

/-! File positions. A read moves the position by what it set out to copy, whatever of it
arrives. A seek computes the new position as an unsigned word and tests that word for
being negative, so no position is ever refused. -/
namespace Aesd
open AesdDev Machine Memory

/-- A read counts only the bytes that arrive, in its value and in the position, and reports
the fault when none arrive of those there are. -/
def AccountsFor (d : AesdDev) (pos count uncopied : ℕ) : Prop :=
  ∃ r, aesdRead d count pos uncopied = .ok r ∧
    (0 ≤ r.retval → r.retval = r.delivered.length ∧ r.fpos = pos + r.retval) ∧
    (0 < count → pos < (retained d).flatten.length → r.delivered = [] →
      r.retval = -EFAULT ∧ r.fpos = pos)

/-- Nothing to deliver, or no fault in delivering it. -/
def Delivers (s : DriverState) : Call → Prop
  | .read file count uncopied =>
    uncopied = 0 ∨ count = 0 ∨ (retained s.dev).flatten.length ≤ s.fpos file
  | _ => True

/-- A reader that asks for so many bytes and gets all but so many of them, again and again. -/
def faultedReads (file : ℕ) (reads : List (ℕ × ℕ)) : List Call :=
  reads.map fun r => .read file r.1 r.2

/-- What arrives of a copy that stays before the end. -/
lemma taken_length {bs : Bytes} {pos n : ℕ} (h : pos + n ≤ max pos bs.length) (lost : ℕ) :
    (((bs.drop pos).take n).take (n - lost)).length = n - lost := by
  rw [List.length_take, List.length_take, List.length_drop]
  omega

section Reads

variable {d : AesdDev} (hs : d.Sound) (hD : (retained d).flatten.length < 2 ^ 63)

include hs hD

lemma accountsFor_iff {pos : ℕ} (hpos : pos < 2 ^ 63) (count uncopied : ℕ) :
    AccountsFor d pos count uncopied ↔
      uncopied = 0 ∨ count = 0 ∨ (retained d).flatten.length ≤ pos := by
  obtain ⟨n, hread, hzero, hend⟩ := hs.read hD hpos count uncopied
  have hlen := taken_length hend (min uncopied n)
  constructor
  · rintro ⟨r, hr, hcounts, -⟩
    rw [hread, Except.ok.injEq] at hr
    subst hr
    have hsame := (hcounts (Nat.cast_nonneg n)).1
    rw [Nat.cast_inj, hlen] at hsame
    rcases Nat.eq_zero_or_pos n with hn | hn
    · exact Or.inr (hzero.mp hn)
    · exact Or.inl (by omega)
  · intro hdelivers
    have hall : n - min uncopied n = n := by
      rcases hdelivers with rfl | hnone
      · rw [Nat.zero_min, Nat.sub_zero]
      · rw [hzero.mpr hnone, Nat.zero_sub]
    refine ⟨_, hread, fun _ => ⟨by rw [hlen, hall], Nat.cast_add pos n⟩, ?_⟩
    intro hc hin hnothing
    have hsome : n ≠ 0 := fun hn => by
      rcases hzero.mp hn with hcount | hpast
      · exact hc.ne' hcount
      · exact absurd hin (Nat.not_lt.mpr hpast)
    rw [← List.length_eq_zero_iff, hlen, hall] at hnothing
    exact absurd hnothing hsome

/-- Of the bytes ahead of a reader some are delivered, some stay ahead, and the others are
lost; none are exactly when every read delivers. -/
lemma reads_lose (file : ℕ) (reads : List (ℕ × ℕ)) {fpos : ℕ → ℤ} {pos : ℕ} (hpos : pos < 2 ^ 63)
    (hf : fpos file = pos) :
    ∃ t os rest lost, DriverState.run ⟨d, fpos⟩ (faultedReads file reads) = .ok (t, os) ∧
      t.fpos file = (rest : ℕ) ∧
      (os.map Reply.delivered).flatten.length + ((retained d).flatten.drop rest).length + lost =
        ((retained d).flatten.drop pos).length ∧
      (lost = 0 ↔ Guarded DriverState.step Delivers ⟨d, fpos⟩ (faultedReads file reads)) ∧
      (lost = 0 → (os.map Reply.delivered).flatten ++ (retained d).flatten.drop rest =
        (retained d).flatten.drop pos) := by
  induction reads generalizing fpos pos with
  | nil => exact ⟨_, [], pos, 0, rfl, hf, by simp, iff_of_true rfl trivial, by simp⟩
  | cons read reads ih =>
    obtain ⟨count, uncopied⟩ := read
    obtain ⟨n, hread, hzero, hend⟩ := hs.read hD hpos count uncopied
    have hstep : DriverState.step ⟨d, fpos⟩ (.read file count uncopied) =
        .ok (⟨d, Function.update fpos file (pos + n : ℕ)⟩,
          ⟨n, (((retained d).flatten.drop pos).take n).take (n - min uncopied n), none⟩) := by
      simp only [DriverState.step, hf]
      rw [hread]
      rfl
    have hlen := taken_length hend (min uncopied n)
    obtain ⟨t, os, rest, lost, hrun, hrest, hcount, hiff, hall⟩ :=
      @ih (Function.update fpos file (pos + n : ℕ)) (pos + n) (hend.trans_lt (max_lt hpos hD))
        (Function.update_self ..)
    have hdelivers : min uncopied n = 0 ↔ Delivers ⟨d, fpos⟩ (.read file count uncopied) := by
      simp only [Delivers, hf, Nat.cast_le, ← hzero]
      omega
    refine ⟨t, _, rest, min uncopied n + lost, run_cons_ok.mpr ⟨_, _, os, hstep, hrun, rfl⟩, hrest,
      ?_, ?_, ?_⟩
    · simp only [List.map_cons, List.flatten_cons, List.length_append, hlen]
      rw [List.length_drop] at hcount ⊢
      rw [List.length_drop] at hcount ⊢
      omega
    · rw [Nat.add_eq_zero_iff, hdelivers, hiff]
      constructor
      · rintro ⟨hfirst, hlater⟩
        exact Guarded.cons hfirst hstep hlater
      · rintro ⟨hfirst, hlater⟩
        exact ⟨hfirst, hlater _ _ hstep⟩
    · intro hnone
      obtain ⟨hfirst, hlater⟩ := Nat.add_eq_zero_iff.mp hnone
      rw [List.map_cons, List.flatten_cons, List.append_assoc, hall hlater, hfirst, Nat.sub_zero,
        List.take_take, min_self, ← List.drop_drop, List.take_append_drop]

end Reads

/-- What reads account for, in every state that calls reach. A read counts only delivered
bytes exactly when none are left uncopied of those there are to copy, and a reader is
given every byte in turn, however often it retries, exactly when all its reads do. -/
theorem reads_account (s : DriverState) (hs : Reachable s)
    (hD : (retained s.dev).flatten.length < 2 ^ 63) :
    (∀ pos < 2 ^ 63, ∀ count uncopied, AccountsFor s.dev pos count uncopied ↔
      uncopied = 0 ∨ count = 0 ∨ (retained s.dev).flatten.length ≤ pos) ∧
    ∀ file pos, pos < 2 ^ 63 → ∀ reads,
      let start : DriverState := ⟨s.dev, Function.update s.fpos file (pos : ℕ)⟩
      ∃ t os rest, start.run (faultedReads file reads) = .ok (t, os) ∧ t.fpos file = (rest : ℕ) ∧
        ((os.map Reply.delivered).flatten ++ (retained s.dev).flatten.drop rest =
            (retained s.dev).flatten.drop pos ↔
          Guarded DriverState.step Delivers start (faultedReads file reads)) := by
  refine ⟨fun pos hpos => accountsFor_iff hs.sound hD hpos, fun file pos hpos reads => ?_⟩
  intro start
  obtain ⟨t, os, rest, lost, hrun, hrest, hcount, hiff, hall⟩ :=
    reads_lose hs.sound hD file reads hpos (show start.fpos file = pos by simp [start])
  refine ⟨t, os, rest, hrun, hrest, fun hsame => hiff.mp ?_, fun hg => hall (hiff.mpr hg)⟩
  have hlen := congrArg List.length hsame
  rw [List.length_append] at hlen
  omega

theorem reads_account_retry :
    ∃ t os rest, DriverState.run ⟨oneEntry.dev, Function.update oneEntry.fpos 0 ((0 : ℕ) : ℤ)⟩
        (faultedReads 0 [(2, 1), (2, 0)]) = .ok (t, os) ∧ t.fpos 0 = (rest : ℕ) ∧
      ((os.map Reply.delivered).flatten ++ (retained oneEntry.dev).flatten.drop rest =
          (retained oneEntry.dev).flatten.drop 0 ↔
        Guarded DriverState.step Delivers
          ⟨oneEntry.dev, Function.update oneEntry.fpos 0 ((0 : ℕ) : ℤ)⟩
          (faultedReads 0 [(2, 1), (2, 0)])) :=
  (reads_account oneEntry oneEntry_reached.reachable (by decide)).2 0 0 (by decide)
    [(2, 1), (2, 0)]

/-- A read of which nothing arrives returns the count it was to copy. -/
theorem reads_account_fault :
    ¬ ∀ s, Reachable s → (retained s.dev).flatten.length < 2 ^ 63 → ∀ pos < 2 ^ 63,
      ∀ count uncopied, AccountsFor s.dev pos count uncopied := by
  intro h
  obtain ⟨r, hread, hcounts, -⟩ :=
    h oneEntry oneEntry_reached.reachable (by decide) 0 (by decide) 2 2
  have htwo : aesdRead oneEntry.dev 2 0 2 = .ok ⟨2, 2, []⟩ := by decide
  rw [Nat.cast_zero, htwo, Except.ok.injEq] at hread
  subst hread
  simp at hcounts

/-- Where a seek counts its offset from. -/
def seekBase (s : DriverState) (file : ℕ) (whence : ℤ) : Option ℤ :=
  if whence = 0 then some 0
  else if whence = 1 then some (s.fpos file)
  else if whence = 2 then some (retained s.dev).flatten.length
  else none

/-- A seek ends exactly where it was asked to, or is refused and moves nothing. -/
def SeeksExactly (s : DriverState) (c : Call) (t : DriverState) (o : Reply) : Prop :=
  match c with
  | .llseek file off whence =>
    (∃ base, seekBase s file whence = some base ∧ 0 ≤ o.ret ∧ o.ret = base + off ∧
      t.fpos file = o.ret) ∨ (o.ret = -EINVAL ∧ t.fpos file = s.fpos file)
  | _ => True

/-- The position that a seek asks for is a file position. -/
def Call.InRange (s : DriverState) : Call → Prop
  | .llseek file off whence =>
    ∀ base, seekBase s file whence = some base → 0 ≤ base + off ∧ base + off < 2 ^ 63
  | _ => True

instance (s : DriverState) (c : Call) : Decidable (c.InRange s) :=
  match c with
  | .llseek file off whence => decidable_of_iff
      (∀ base ∈ seekBase s file whence, 0 ≤ base + off ∧ base + off < 2 ^ 63) Iff.rfl
  | .write .. | .read .. | .ioctl .. => isTrue trivial

/-- The offset of a seek is a `loff_t`. -/
def Call.Signed : Call → Prop
  | .llseek _ off _ => -2 ^ 63 ≤ off ∧ off < 2 ^ 63
  | _ => True

instance (c : Call) : Decidable c.Signed :=
  match c with
  | .llseek _ off _ => inferInstanceAs (Decidable (-2 ^ 63 ≤ off ∧ off < 2 ^ 63))
  | .write .. | .read .. | .ioctl .. => isTrue trivial

section Seeks

variable {s t : DriverState} {c : Call} {o : Reply}

/-- Every position is one that a `loff_t` holds, and not negative. -/
structure Positioned (s : DriverState) : Prop where
  sound : s.dev.Sound
  low : ∀ file, 0 ≤ s.fpos file
  high : ∀ file, s.fpos file < 2 ^ 63

/-- What the kernel and the machine grant a call: fresh blocks, a 64-bit offset, and less to
hold than a `loff_t` counts. -/
structure Call.Ordinary (s : DriverState) (c : Call) : Prop where
  fresh : c.Fresh s.dev
  signed : c.Signed
  held : (retained s.dev).flatten.length < 2 ^ 63

instance (s : DriverState) (c : Call) : Decidable (c.Ordinary s) :=
  decidable_of_iff (c.Fresh s.dev ∧ c.Signed ∧ (retained s.dev).flatten.length < 2 ^ 63)
    ⟨fun ⟨h₁, h₂, h₃⟩ => ⟨h₁, h₂, h₃⟩, fun ⟨h₁, h₂, h₃⟩ => ⟨h₁, h₂, h₃⟩⟩

lemma llseek_eq (hs : s.dev.Sound) (hD : (retained s.dev).flatten.length < 2 ^ 63) (file : ℕ)
    (off whence : ℤ) :
    aesdLlseek s.dev (s.fpos file) off whence =
      match seekBase s file whence with
      | some base => (Word.signed 64 (base + off), Word.signed 64 (base + off))
      | none => (s.fpos file, -EINVAL) := by
  unfold aesdLlseek seekBase
  rw [hs.length_contents hD]
  dsimp only
  split_ifs <;> simp [Word.signed_unsigned]

lemma seekBase_mem (hs : Positioned s) (hD : (retained s.dev).flatten.length < 2 ^ 63) {file : ℕ}
    {whence base : ℤ} (hb : seekBase s file whence = some base) : 0 ≤ base ∧ base < 2 ^ 63 := by
  unfold seekBase at hb
  split_ifs at hb
  · rw [← Option.some.inj hb]
    norm_num
  · rw [← Option.some.inj hb]
    exact ⟨hs.low file, hs.high file⟩
  · rw [← Option.some.inj hb]
    exact ⟨Nat.cast_nonneg _, by exact_mod_cast hD⟩

/-- A read leaves a position that the end or the old position bounds. -/
lemma read_positions (hs : Positioned s) (hD : (retained s.dev).flatten.length < 2 ^ 63)
    {file count uncopied : ℕ} {r : ReadResult}
    (hr : aesdRead s.dev count (s.fpos file) uncopied = .ok r) :
    (∀ other, 0 ≤ Function.update s.fpos file r.fpos other) ∧
      ∀ other, Function.update s.fpos file r.fpos other < 2 ^ 63 := by
  obtain ⟨pos, hpos⟩ := Int.eq_ofNat_of_zero_le (hs.low file)
  have hhigh := hs.high file
  rw [hpos] at hhigh hr
  have hlt : pos < 2 ^ 63 := by exact_mod_cast hhigh
  obtain ⟨n, hread, -, hend⟩ := hs.sound.read hD hlt count uncopied
  have hbound : pos + n < 2 ^ 63 := hend.trans_lt (max_lt hlt hD)
  rw [hread, Except.ok.injEq] at hr
  rw [← hr]
  refine ⟨fun other => ?_, fun other => ?_⟩
  · rw [Function.update_apply]
    split_ifs
    · exact Nat.cast_nonneg _
    · exact hs.low other
  · rw [Function.update_apply]
    split_ifs
    · dsimp only
      exact_mod_cast hbound
    · exact hs.high other

lemma llseek_step {file : ℕ} {off whence : ℤ} (hs : s.dev.Sound)
    (hD : (retained s.dev).flatten.length < 2 ^ 63)
    (h : s.step (.llseek file off whence) = .ok (t, o)) :
    (∃ base, seekBase s file whence = some base ∧ o.ret = Word.signed 64 (base + off) ∧
        t.fpos = Function.update s.fpos file (Word.signed 64 (base + off))) ∨
      (seekBase s file whence = none ∧ o.ret = -EINVAL ∧ t.fpos = s.fpos) := by
  simp only [DriverState.step, llseek_eq hs hD, Except.ok.injEq, Prod.mk.injEq] at h
  rw [← h.1, ← h.2]
  cases hb : seekBase s file whence with
  | some base => exact Or.inl ⟨base, rfl, rfl, rfl⟩
  | none => exact Or.inr ⟨rfl, rfl, Function.update_eq_self file s.fpos⟩

/-- A seek in range goes where it was asked to. -/
lemma llseek_inRange {file : ℕ} {off whence : ℤ} (hs : Positioned s)
    (hc : (Call.llseek file off whence).Ordinary s) (hrange : (Call.llseek file off whence).InRange s)
    (h : s.step (.llseek file off whence) = .ok (t, o)) :
    (∀ other, 0 ≤ t.fpos other) ∧ (∀ other, t.fpos other < 2 ^ 63) ∧
      SeeksExactly s (.llseek file off whence) t o := by
  rcases llseek_step hs.sound hc.held h with ⟨base, hb, hret, hfpos⟩ | ⟨-, hret, hfpos⟩
  · obtain ⟨hlow, hhigh⟩ := hrange base hb
    have hfits : Word.signed 64 (base + off) = base + off :=
      Word.signed_of_mem (by omega) (by omega)
    rw [hfits] at hret hfpos
    refine ⟨fun other => ?_, fun other => ?_, Or.inl ⟨base, hb, by omega, hret, ?_⟩⟩
    · rw [hfpos, Function.update_apply]
      split_ifs
      · exact hlow
      · exact hs.low other
    · rw [hfpos, Function.update_apply]
      split_ifs
      · exact hhigh
      · exact hs.high other
    · rw [hfpos, hret, Function.update_self]
  · rw [hfpos]
    exact ⟨hs.low, hs.high, Or.inr ⟨hret, congrFun hfpos file⟩⟩

/-- A seek out of range is not refused: it leaves a negative position. -/
lemma llseek_outOfRange {file : ℕ} {off whence : ℤ} (hs : Positioned s)
    (hc : (Call.llseek file off whence).Ordinary s)
    (h : s.step (.llseek file off whence) = .ok (t, o)) (hlow : 0 ≤ t.fpos file) :
    (Call.llseek file off whence).InRange s := by
  intro base hb
  obtain ⟨hb0, hb63⟩ := seekBase_mem hs hc.held hb
  obtain ⟨ho0, ho63⟩ := hc.signed
  rcases llseek_step hs.sound hc.held h with ⟨base', hb', -, hfpos⟩ | ⟨hnone, -, -⟩
  · have hsame : base' = base := Option.some.inj (hb'.symm.trans hb)
    rw [hfpos, Function.update_self, hsame] at hlow
    obtain ⟨hpositive, hfits⟩ := Word.signed_nonneg (by omega) (by omega) hlow
    exact ⟨hpositive, by omega⟩
  · rw [hnone] at hb
    simp at hb

/-- One call of any kind. -/
lemma step_exactly (hs : Positioned s) (hc : c.Ordinary s) (h : s.step c = .ok (t, o)) :
    (∀ file, 0 ≤ t.fpos file) ∧ SeeksExactly s c t o ↔ c.InRange s := by
  cases step_outcome h with
  | write => exact iff_of_true ⟨hs.low, trivial⟩ trivial
  | read hr => exact iff_of_true ⟨(read_positions hs hc.held hr).1, trivial⟩ trivial
  | @llseek file off whence =>
    constructor
    · rintro ⟨hlow, -⟩
      exact llseek_outOfRange hs hc h (hlow file)
    · intro hrange
      obtain ⟨hlow, -, hexact⟩ := llseek_inRange hs hc hrange h
      exact ⟨hlow, hexact⟩
  | ioctl => exact iff_of_true ⟨hs.low, trivial⟩ trivial

lemma step_positioned (hs : Positioned s) (hc : c.Ordinary s) (hrange : c.InRange s)
    (h : s.step c = .ok (t, o)) : Positioned t := by
  refine ⟨step_sound hs.sound hc.fresh h, ((step_exactly hs hc h).mpr hrange).1, ?_⟩
  cases step_outcome h with
  | write => exact hs.high
  | read hr => exact (read_positions hs hc.held hr).2
  | llseek => exact (llseek_inRange hs hc hrange h).2.1
  | ioctl => exact hs.high

end Seeks

/-- Seek positions over runs. Over any run of calls from position 0, on a device in any
state that calls reach, no position is ever negative and every seek is exact or refused,
exactly when every seek asks for a position that a `loff_t` holds. -/
theorem seek_positions (s : DriverState) (hs : Reachable s) (calls : List Call)
    (hcalls : Guarded DriverState.step (fun s c => c.Ordinary s) ⟨s.dev, fun _ => 0⟩ calls)
    (t : DriverState) (os : List Reply)
    (hrun : DriverState.run ⟨s.dev, fun _ => 0⟩ calls = .ok (t, os)) :
    Throughout DriverState.step (fun u => ∀ file, 0 ≤ u.fpos file) ⟨s.dev, fun _ => 0⟩ calls ∧
        Guarded DriverState.step
          (fun u c => ∀ v o, u.step c = .ok (v, o) → SeeksExactly u c v o)
          ⟨s.dev, fun _ => 0⟩ calls ↔
      Guarded DriverState.step (fun u c => c.InRange u) ⟨s.dev, fun _ => 0⟩ calls := by
  have hstart : Positioned ⟨s.dev, fun _ => 0⟩ :=
    ⟨hs.sound, fun _ => le_rfl, fun _ => by norm_num⟩
  rw [throughout_iff_guarded, and_iff_right hstart.low, ← guarded_and]
  refine guarded_iff Positioned ?_ (fun u c v o hu hc hrange hstep =>
    step_positioned hu hc hrange hstep) hstart hcalls hrun
  intro u c v o hu hc hstep
  rw [← step_exactly hu hc hstep]
  constructor
  · rintro ⟨hlow, hexact⟩
    exact ⟨hlow v o hstep, hexact v o hstep⟩
  · rintro hboth
    have hsame : ∀ {v' o'}, u.step c = .ok (v', o') → v' = v ∧ o' = o := by
      intro v' o' hstep'
      rw [hstep, Except.ok.injEq, Prod.mk.injEq] at hstep'
      exact ⟨hstep'.1.symm, hstep'.2.symm⟩
    refine ⟨fun v' o' hstep' => ?_, fun v' o' hstep' => ?_⟩
    · rw [(hsame hstep').1]
      exact hboth.1
    · rw [(hsame hstep').1, (hsame hstep').2]
      exact hboth.2

/-- A line, read in two parts with a seek back from the position between them and one from
the end behind them. -/
def backAndForth : List Call :=
  [.write 0 [97, 98, 10] (granting 3 4), .read 0 2 0, .llseek 0 (-1) 1, .read 0 5 0, .llseek 0 (-2) 2]

theorem seek_positions_back_and_forth :
    ∃ t os, DriverState.run ⟨DriverState.fresh.dev, fun _ => 0⟩ backAndForth = .ok (t, os) ∧
      os.map Reply.ret = [3, 2, 1, 2, 1] ∧
      Throughout DriverState.step (fun u => ∀ file, 0 ≤ u.fpos file)
        ⟨DriverState.fresh.dev, fun _ => 0⟩ backAndForth ∧
      Guarded DriverState.step
        (fun u c => ∀ v o, u.step c = .ok (v, o) → SeeksExactly u c v o)
        ⟨DriverState.fresh.dev, fun _ => 0⟩ backAndForth := by
  have hrets : (DriverState.run ⟨DriverState.fresh.dev, fun _ => 0⟩ backAndForth).toOption.map
      (fun r => r.2.map Reply.ret) = some [3, 2, 1, 2, 1] := by decide +kernel
  cases hrun : DriverState.run ⟨DriverState.fresh.dev, fun _ => 0⟩ backAndForth with
  | error e => simp [hrun, Except.toOption] at hrets
  | ok r =>
    rw [hrun] at hrets
    exact ⟨r.1, r.2, rfl, Option.some.inj hrets, (seek_positions .fresh fresh_reached.reachable
      backAndForth (by decide +kernel) r.1 r.2 hrun).mpr (by decide +kernel)⟩

/-- A seek to before the beginning succeeds. -/
theorem seek_positions_backward :
    ¬ ∀ s, Reachable s → ∀ calls t os,
      Guarded DriverState.step (fun s c => c.Ordinary s) ⟨s.dev, fun _ => 0⟩ calls →
      DriverState.run ⟨s.dev, fun _ => 0⟩ calls = .ok (t, os) →
      Throughout DriverState.step (fun u => ∀ file, 0 ≤ u.fpos file) ⟨s.dev, fun _ => 0⟩ calls ∧
        Guarded DriverState.step
          (fun u c => ∀ v o, u.step c = .ok (v, o) → SeeksExactly u c v o)
          ⟨s.dev, fun _ => 0⟩ calls := by
  intro h
  have hordinary : Guarded DriverState.step (fun s c => c.Ordinary s)
      ⟨DriverState.fresh.dev, fun _ => 0⟩ [.llseek 0 (-1) 0] :=
    ⟨⟨trivial, by norm_num [Call.Signed], by decide⟩, fun _ _ _ => trivial⟩
  obtain ⟨hnever, -⟩ := h .fresh fresh_reached.reachable [.llseek 0 (-1) 0] _ _ hordinary rfl
  have hlow := hnever [.llseek 0 (-1) 0] _ _ (List.prefix_refl _) rfl 0
  revert hlow
  decide

end Aesd
