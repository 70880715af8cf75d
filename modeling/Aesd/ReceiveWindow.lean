import Aesd.FileWorker
import Aesd.Library.Machine

/-! The window handed to `recv`. It stays inside the allocation while every chunk that
leaves its message open is the first of the message or fills the buffer, and no earlier
message has made the buffer grow. -/
namespace Aesd.FileWorker
open Machine Memory

/-- `recv` returns at least one byte and at most as many as it was offered room for. -/
def OffersRoom (w : FileWorker) (r : Received) : Prop :=
  0 < r.bytes.length ∧ (r.bytes.length : ℤ) ≤ w.availableBuffer

/-- The next `recv` is offered room, and only room that is allocated. -/
def WindowSafe (w : FileWorker) : Prop :=
  w.totalBytesReceived + w.availableBuffer ≤ w.buffer.length ∧ 0 < w.availableBuffer

/-- The window is safe before every `recv` of a connection, the one after the last included. -/
def SafeThroughout (w : FileWorker) (rs : List Received) : Prop :=
  ∀ pre, pre <+: rs → ∃ v os, run turn w pre = .ok (v, os) ∧ v.WindowSafe

/-- The condition on the chunks of a connection, `len` bytes into a message: `grown` says
whether an earlier message made the buffer grow. -/
def WindowOk : Bool → ℕ → List Bytes → Prop
  | _, _, [] => True
  | grown, len, c :: cs =>
    if newline ∈ c then WindowOk (grown || decide (BUFFER_SIZE ≤ len)) 0 cs
    else
      grown = false ∧ (len = 0 ∨ (len + c.length) % BUFFER_SIZE = 0) ∧
        len + c.length ≤ 2147480000 ∧ WindowOk grown (len + c.length) cs

/-- A worker `len` bytes into a message whose window has been safe so far. -/
structure WindowAt (w : FileWorker) (grown : Bool) (acc : Bytes) : Prop where
  holds : w.Holds acc
  position : w.bufferPosition = acc.length
  alloc : w.buffer.length = 2000 * (acc.length / 2000 + 1)
  window : w.availableBuffer = w.buffer.length - acc.length
  steady : grown = false → w.bufferSize = w.buffer.length
  shrunk : grown = true → acc = [] ∧ 2000 < w.bufferSize ∧ w.bufferSize ≤ INT_MAX

lemma start_windowAt (junk : ℕ → UInt8) : (start junk).WindowAt false [] :=
  ⟨start_holds junk, rfl, by simp [start, BUFFER_SIZE], by simp [start, BUFFER_SIZE],
    by simp [start, BUFFER_SIZE], by simp⟩

section Turn

variable {w : FileWorker} {grown : Bool} {acc : Bytes} {r : Received} (hw : w.WindowAt grown acc)

include hw

lemma WindowAt.safe : w.WindowSafe := by
  have htotal := hw.holds.total
  have halloc := hw.alloc
  have hwindow := hw.window
  constructor <;> omega

lemma WindowAt.offers (hlow : 0 < r.bytes.length)
    (hhigh : acc.length + r.bytes.length ≤ 2000 * (acc.length / 2000 + 1)) : w.OffersRoom r := by
  have halloc := hw.alloc
  have hwindow := hw.window
  exact ⟨hlow, by omega⟩

variable (hr : w.OffersRoom r)

include hr

lemma WindowAt.room : acc.length + r.bytes.length ≤ w.buffer.length := by
  have hwindow := hw.window
  have hle := hr.2
  omega

/-- A chunk with a line feed empties the buffer, which shrinks while its size does not. -/
lemma turn_found (hn : newline ∈ r.bytes) :
    ∃ v o, w.turn r = .ok (v, o) ∧
      v.WindowAt (grown || decide (BUFFER_SIZE ≤ acc.length)) [] := by
  have hroom := hw.room hr
  have hstored := stored_holds hw.holds hroom
  have halloc := hw.alloc
  have hsmall := hw.holds.small
  have hdump : dumpBufferToFile [] (w.stored acc r.bytes).totalBytesReceived
      (w.stored acc r.bytes).buffer = .ok (acc ++ r.bytes) := by
    have hle := hstored.length_le
    rw [dumpBufferToFile, hstored.total, if_neg (by omega), Int.toNat_natCast, hstored.bytes]
    rfl
  refine ⟨(w.stored acc r.bytes).reset r.junk, some (acc ++ r.bytes), ?_, ?_⟩
  · rw [turn, receive_eq hw.holds hw.position hroom, if_pos hn]
    change (dumpBufferToFile [] _ _ >>= _) = _
    rw [hdump]
    rfl
  · refine ⟨reset_holds _ _, rfl, by simp [reset, BUFFER_SIZE], by simp [reset, BUFFER_SIZE],
      fun hg => ?_, fun hg => ⟨rfl, ?_⟩⟩
    · rw [Bool.or_eq_false_iff, decide_eq_false_iff_not] at hg
      have hsize := hw.steady hg.1
      simp only [reset, stored, resize_length, BUFFER_SIZE] at hg ⊢
      omega
    · rw [Bool.or_eq_true, decide_eq_true_eq] at hg
      rw [reset_bufferSize, stored_bufferSize]
      rcases hg with hg | hg
      · exact (hw.shrunk hg).2
      · cases hgrown : grown with
        | true => exact (hw.shrunk hgrown).2
        | false =>
          have hsize := hw.steady hgrown
          simp only [BUFFER_SIZE] at hg
          omega

lemma turn_open (hn : newline ∉ r.bytes) :
    w.turn r = ((w.stored acc r.bytes).more r.bytes.length r.junk).map fun v => (v, none) := by
  rw [turn, receive_eq hw.holds hw.position (hw.room hr), if_neg hn]
  cases (w.stored acc r.bytes).more r.bytes.length r.junk <;> rfl

/-- A chunk that leaves its message open keeps the window safe when it is the first of the
message or fills the buffer. -/
lemma turn_open_safe (hn : newline ∉ r.bytes) (hgrown : grown = false)
    (hfill : acc = [] ∨ (acc.length + r.bytes.length) % 2000 = 0)
    (hlimit : acc.length + r.bytes.length ≤ 2147480000) :
    ∃ v o, w.turn r = .ok (v, o) ∧ v.WindowAt grown (acc ++ r.bytes) := by
  have hroom := hw.room hr
  have hstored := stored_holds hw.holds hroom
  have halloc := hw.alloc
  have hsmall := hw.holds.small
  have hsize := hw.steady hgrown
  have hpos : (w.stored acc r.bytes).bufferPosition + r.bytes.length = (acc ++ r.bytes).length := by
    rw [List.length_append, stored_bufferPosition, hw.position]
  have hkeep : (w.stored acc r.bytes).buffer.length = w.buffer.length := splice_length hroom
  have hlen : (acc ++ r.bytes).length = acc.length + r.bytes.length := List.length_append
  rw [turn_open hw hr hn]
  by_cases hfull : acc.length + r.bytes.length = w.buffer.length
  · have hmore : (w.stored acc r.bytes).more r.bytes.length r.junk =
        .ok { w.stored acc r.bytes with
          buffer := resize r.junk (w.bufferSize + 2000).toNat (w.stored acc r.bytes).buffer
          bufferSize := w.bufferSize + 2000
          availableBuffer := Word.signed 32 (w.bufferSize + 2000 - (acc ++ r.bytes).length)
          bufferPosition := (acc ++ r.bytes).length } := by
      simp only [more, hpos, stored_bufferSize, stored_total, BUFFER_SIZE, Nat.cast_ofNat]
      rw [if_pos (by omega), if_neg (by simp only [INT_MAX]; omega)]
    obtain ⟨hholds, hposition⟩ := more_holds hstored hpos hmore
    rw [hmore]
    refine ⟨_, none, rfl, hholds, hposition, ?_, ?_, fun _ => ?_, by simp [hgrown]⟩
    · simp only [resize_length]
      omega
    · simp only [resize_length]
      rw [Word.signed_of_mem (by omega) (by omega)]
      omega
    · simp only [resize_length]
      omega
  · have hfirst : acc = [] := by
      rcases hfill with h | h
      · exact h
      · have hsome := hr.1
        omega
    have hmore : (w.stored acc r.bytes).more r.bytes.length r.junk =
        .ok { w.stored acc r.bytes with
          availableBuffer := Word.signed 32 (w.bufferSize - r.bytes.length)
          bufferPosition := (acc ++ r.bytes).length } := by
      simp only [more, hpos, stored_bufferSize]
      rw [if_neg (by omega)]
    obtain ⟨hholds, hposition⟩ := more_holds hstored hpos hmore
    have hzero : acc.length = 0 := by rw [hfirst, List.length_nil]
    rw [hmore]
    refine ⟨_, none, rfl, hholds, hposition, ?_, ?_, fun _ => ?_, by simp [hgrown]⟩
    · simp only [hkeep]
      omega
    · simp only [hkeep]
      rw [Word.signed_of_mem (by omega) (by omega)]
      omega
    · simp only [hkeep]
      exact hsize

/-- Otherwise the turn fails or leaves a window past the end of the allocation. -/
lemma turn_open_overreaches (hn : newline ∉ r.bytes)
    (hbad : ¬(grown = false ∧ (acc = [] ∨ (acc.length + r.bytes.length) % 2000 = 0) ∧
      acc.length + r.bytes.length ≤ 2147480000)) {v : FileWorker} {o : Option Bytes}
    (h : w.turn r = .ok (v, o)) : ¬v.WindowSafe := by
  have hroom := hw.room hr
  have halloc := hw.alloc
  have hsmall := hw.holds.small
  have hlow := hr.1
  have hkeep : (w.stored acc r.bytes).buffer.length = w.buffer.length := splice_length hroom
  have hoffered := hr.2
  have hwindow := hw.window
  have hfill : acc = [] ↔ acc.length = 0 := List.length_eq_zero_iff.symm
  have hlen : (acc ++ r.bytes).length = acc.length + r.bytes.length := List.length_append
  rw [turn_open hw hr hn] at h
  cases hm : (w.stored acc r.bytes).more r.bytes.length r.junk with
  | error e => simp [hm, Except.map] at h
  | ok u =>
    have hv : u = v := by
      simp only [hm, Except.map, Except.ok.injEq, Prod.mk.injEq] at h
      exact h.1
    subst hv
    unfold more at hm
    simp only [stored_bufferPosition, hw.position, stored_bufferSize, stored_total, BUFFER_SIZE,
      Nat.cast_ofNat] at hm
    rintro ⟨hinside, -⟩
    split_ifs at hm with hfull hover
    · -- a buffer just filled grows, and nothing that grows is at fault
      cases hg : grown with
      | true =>
        obtain ⟨hempty, hbig, -⟩ := hw.shrunk hg
        rw [hfill] at hempty
        omega
      | false =>
        have hsize := hw.steady hg
        simp only [INT_MAX] at hover
        exact hbad ⟨hg, Or.inr (by omega), by omega⟩
    · rw [Except.ok.injEq] at hm
      subst hm
      simp only [hkeep, hlen] at hinside
      cases hg : grown with
      | true =>
        obtain ⟨hempty, hbig, hmax⟩ := hw.shrunk hg
        rw [hfill] at hempty
        simp only [INT_MAX] at hmax
        rw [Word.signed_of_mem (by omega) (by omega)] at hinside
        omega
      | false =>
        have hsize := hw.steady hg
        simp only [INT_MAX] at hsmall
        rw [Word.signed_of_mem (by omega) (by omega)] at hinside
        refine hbad ⟨hg, Or.inl (hfill.mpr (by omega)), by omega⟩

end Turn

lemma safeThroughout_nil {w : FileWorker} : w.SafeThroughout [] ↔ w.WindowSafe := by
  constructor
  · intro h
    obtain ⟨v, os, hrun, hsafe⟩ := h [] (by simp)
    rw [run_nil, Except.ok.injEq, Prod.mk.injEq] at hrun
    exact hrun.1 ▸ hsafe
  · intro h pre hpre
    rw [List.prefix_nil.mp hpre]
    exact ⟨w, [], rfl, h⟩

lemma SafeThroughout.safe {w : FileWorker} {rs : List Received} (h : w.SafeThroughout rs) :
    w.WindowSafe :=
  safeThroughout_nil.mp fun pre hpre => h pre (hpre.trans (List.nil_prefix))

lemma safeThroughout_cons {w : FileWorker} {r : Received} {rs : List Received} :
    w.SafeThroughout (r :: rs) ↔
      w.WindowSafe ∧ ∃ v o, w.turn r = .ok (v, o) ∧ v.SafeThroughout rs := by
  constructor
  · intro h
    refine ⟨h.safe, ?_⟩
    obtain ⟨v, os, hrun, -⟩ := h [r] (by simp)
    obtain ⟨u, o, os', hturn, -, -⟩ := run_cons_ok.mp hrun
    refine ⟨u, o, hturn, fun pre hpre => ?_⟩
    obtain ⟨v', os₁, hrun', hsafe⟩ := h (r :: pre) (List.cons_prefix_cons.mpr ⟨rfl, hpre⟩)
    obtain ⟨u', o', os₂, hturn', hrest, -⟩ := run_cons_ok.mp hrun'
    rw [hturn, Except.ok.injEq, Prod.mk.injEq] at hturn'
    exact ⟨v', os₂, hturn'.1 ▸ hrest, hsafe⟩
  · rintro ⟨hw, v, o, hturn, h⟩ pre hpre
    cases pre with
    | nil => exact ⟨w, [], rfl, hw⟩
    | cons p pre =>
      obtain ⟨rfl, htail⟩ := List.cons_prefix_cons.mp hpre
      obtain ⟨v', os, hrun, hsafe⟩ := h pre htail
      exact ⟨v', o :: os, run_cons_ok.mpr ⟨v, o, os, hturn, hrun, rfl⟩, hsafe⟩

/-- From any state whose window has been safe so far. -/
lemma WindowAt.safeThroughout_iff {w : FileWorker} {grown : Bool} {acc : Bytes}
    (hw : w.WindowAt grown acc) {rs : List Received} (hrs : Guarded turn OffersRoom w rs) :
    w.SafeThroughout rs ↔ WindowOk grown acc.length (rs.map Received.bytes) := by
  induction rs generalizing w grown acc with
  | nil => simp [safeThroughout_nil, hw.safe, WindowOk]
  | cons r rs ih =>
    have hr := hrs.1
    rw [safeThroughout_cons, List.map_cons, WindowOk, and_iff_right hw.safe]
    by_cases hn : newline ∈ r.bytes
    · obtain ⟨v, o, hturn, hv⟩ := turn_found hw hr hn
      rw [if_pos hn, ← List.length_nil, ← ih hv (hrs.2 v o hturn), hturn]
      simp
    · rw [if_neg hn]
      simp only [BUFFER_SIZE]
      by_cases hgood : grown = false ∧ (acc = [] ∨ (acc.length + r.bytes.length) % 2000 = 0) ∧
          acc.length + r.bytes.length ≤ 2147480000
      · obtain ⟨hgrown, hfill, hlimit⟩ := hgood
        obtain ⟨v, o, hturn, hv⟩ := turn_open_safe hw hr hn hgrown hfill hlimit
        have hrest := ih hv (hrs.2 v o hturn)
        rw [List.length_append] at hrest
        rw [← hrest, hturn]
        simp [hgrown, hfill, hlimit, List.length_eq_zero_iff]
      · constructor
        · rintro ⟨v, o, hturn, hv⟩
          exact absurd hv.safe (turn_open_overreaches hw hr hn hgood hturn)
        · rintro ⟨hgrown, hfill, hlimit, -⟩
          exact absurd ⟨hgrown, by rwa [← List.length_eq_zero_iff], hlimit⟩ hgood

/-- When the receive window of a connection is safe: exactly when every chunk without a
line feed is the first of its message or fills the buffer, no earlier message has made the
buffer grow, and the size stays an `int`. -/
theorem window_safe (junk : ℕ → UInt8) (rs : List Received)
    (hrs : Guarded turn OffersRoom (start junk) rs) :
    (start junk).SafeThroughout rs ↔ WindowOk false 0 (rs.map Received.bytes) :=
  (start_windowAt junk).safeThroughout_iff hrs

/-- A message in two chunks, and one whose first chunk fills the buffer. -/
def safeChunks : List Received :=
  [⟨[97], 0⟩, ⟨[98, 10], 0⟩, ⟨List.replicate 2000 97, 0⟩, ⟨[10], 0⟩]

theorem window_safe_filled : (start 0).SafeThroughout safeChunks := by
  have hfull : newline ∉ List.replicate 2000 (97 : UInt8) := fun h =>
    absurd (List.eq_of_mem_replicate h) (by decide)
  have hlen : (List.replicate 2000 (97 : UInt8)).length = 2000 := List.length_replicate
  have hw₀ := start_windowAt 0
  have h₁ : (start 0).OffersRoom ⟨[97], 0⟩ := hw₀.offers (by decide) (by decide)
  obtain ⟨v₁, o₁, hturn₁, hw₁⟩ := turn_open_safe hw₀ h₁ (by decide) rfl (Or.inl rfl) (by decide)
  have h₂ : v₁.OffersRoom ⟨[98, 10], 0⟩ := hw₁.offers (by decide) (by decide)
  obtain ⟨v₂, o₂, hturn₂, hw₂⟩ := turn_found hw₁ h₂ (by decide)
  have h₃ : v₂.OffersRoom ⟨List.replicate 2000 97, 0⟩ :=
    hw₂.offers (by rw [hlen]; norm_num) (by rw [hlen]; norm_num)
  obtain ⟨v₃, o₃, hturn₃, hw₃⟩ := turn_open_safe hw₂ h₃ hfull rfl (Or.inl rfl)
    (by rw [hlen]; norm_num)
  have h₄ : v₃.OffersRoom ⟨[10], 0⟩ :=
    hw₃.offers (by decide) (by rw [List.nil_append, hlen]; norm_num)
  refine (window_safe 0 safeChunks (Guarded.cons h₁ hturn₁ (Guarded.cons h₂ hturn₂
    (Guarded.cons h₃ hturn₃ ⟨h₄, fun _ _ _ => trivial⟩)))).mpr ?_
  simp only [safeChunks, List.map_cons, List.map_nil, WindowOk, hlen, if_neg hfull]
  decide

/-- Two chunks of one byte, neither a line feed, are enough to open the window too far. -/
theorem window_safe_two_chunks :
    ¬ ∀ junk rs, Guarded turn OffersRoom (start junk) rs → (start junk).SafeThroughout rs := by
  intro h
  have hw := start_windowAt 0
  have hfirst : (start 0).OffersRoom ⟨[97], 0⟩ := hw.offers (by decide) (by decide)
  obtain ⟨v, o, hturn, hv⟩ := turn_open_safe hw hfirst (by decide) rfl (Or.inl rfl) (by decide)
  have hsecond : v.OffersRoom ⟨[98], 0⟩ := hv.offers (by decide) (by decide)
  have hall := h 0 [⟨[97], 0⟩, ⟨[98], 0⟩]
    (Guarded.cons hfirst hturn ⟨hsecond, fun _ _ _ => trivial⟩)
  obtain ⟨-, u, o', hturn', hu⟩ := safeThroughout_cons.mp hall
  rw [hturn, Except.ok.injEq, Prod.mk.injEq] at hturn'
  rw [← hturn'.1] at hu
  obtain ⟨-, u', o'', hturn'', hu'⟩ := safeThroughout_cons.mp hu
  exact turn_open_overreaches hv hsecond (by decide) (by decide) hturn'' hu'.safe

end Aesd.FileWorker
