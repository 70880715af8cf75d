import Aesd.SeekCommand

/-! The command parser, from aesdsocket.c: which bytes of a chunk its loops store where, and
what the two numbers are for a chunk of the form that the two arrays have room for. -/
namespace Aesd
open Machine Memory

def colon : UInt8 := UInt8.ofNat ':'.toNat
def comma : UInt8 := UInt8.ofNat ','.toNat

/-- The bytes that the second loop copies: behind the first colon, up to a comma. -/
def bufferPart (chunk : Bytes) : Bytes :=
  ((chunk.dropWhile fun c => c ≠ colon).drop 1).takeWhile fun c => c ≠ comma

/-- The bytes that the third loop copies: all behind that comma. -/
def offsetPart (chunk : Bytes) : Bytes :=
  (((chunk.dropWhile fun c => c ≠ colon).drop 1).dropWhile fun c => c ≠ comma).drop 1

/-- The indices and bytes stored into `start_buffer_string`, with its terminator. -/
def bufferStores : Bytes → ℕ → List (ℕ × UInt8)
  | [], j => [(j, 0)]
  | c :: cs, j => (j, c) :: bufferStores cs (j + 1)

/-- The indices and bytes stored into `start_offset_string`; a line feed is followed by a
terminator at its own index `i` in the chunk. -/
def offsetStores : Bytes → ℕ → ℕ → List (ℕ × UInt8)
  | [], _, _ => []
  | c :: cs, i, k =>
    (k, c) :: (if c = newline then [(i, 0)] else []) ++ offsetStores cs (i + 1) (k + 1)

namespace Frame

def storeBuffer (f : Frame) (x : ℕ × UInt8) : Except Stop Frame :=
  f.put (f.startBufferString + x.1) x.2

def storeOffset (f : Frame) (x : ℕ × UInt8) : Except Stop Frame :=
  f.put (f.startOffsetString + x.1) x.2

/-- The second loop performs these stores and no others. -/
lemma putBuffer_stores (f : Frame) (cs : Bytes) (j : ℕ) :
    f.putBuffer cs j =
      (bufferStores (cs.takeWhile fun c => c ≠ comma) j).foldlM storeBuffer f >>= fun f =>
        .ok (f, (cs.dropWhile fun c => c ≠ comma).drop 1) := by
  induction cs generalizing f j with
  | nil =>
    simp only [putBuffer, List.takeWhile_nil, bufferStores, List.foldlM_cons, List.foldlM_nil,
      storeBuffer]
    cases f.put (f.startBufferString + j) 0 <;> rfl
  | cons c cs ih =>
    rw [putBuffer]
    by_cases hc : c = comma
    · simp only [List.takeWhile_cons, List.dropWhile_cons, hc, ne_eq, not_true_eq_false,
        decide_false, Bool.false_eq_true, if_false, bufferStores, List.foldlM_cons,
        List.foldlM_nil, storeBuffer, List.drop_succ_cons, List.drop_zero]
      cases f.put (f.startBufferString + j) 0 <;> rfl
    · have hc' : ¬c = UInt8.ofNat ','.toNat := hc
      simp only [if_neg hc', List.takeWhile_cons, List.dropWhile_cons, hc, ne_eq, not_false_eq_true,
        decide_true, if_true, bufferStores, List.foldlM_cons, storeBuffer]
      cases f.put (f.startBufferString + j) c with
      | error e => rfl
      | ok g => exact ih g (j + 1)

/-- The third loop performs these stores and no others. -/
lemma putOffset_stores (f : Frame) (cs : Bytes) (i k : ℕ) :
    f.putOffset cs i k = (offsetStores cs i k).foldlM storeOffset f := by
  induction cs generalizing f i k with
  | nil => rfl
  | cons c cs ih =>
    rw [putOffset, offsetStores, List.cons_append, List.foldlM_cons, storeOffset]
    cases f.put (f.startOffsetString + k) c with
    | error e => rfl
    | ok g =>
      simp only [bind, Except.bind]
      by_cases hc : c = newline
      · rw [if_pos hc, if_pos hc, List.singleton_append, List.foldlM_cons, storeOffset]
        cases g.put (g.startOffsetString + i) 0 with
        | error e => rfl
        | ok g' => exact ih g' (i + 1) (k + 1)
      · rw [if_neg hc, if_neg hc]
        exact ih g (i + 1) (k + 1)

end Frame

/-- The parser performs the two lists of stores, then reads both numbers. -/
lemma seekNumbers_stores (chunk : Bytes) (f : Frame) :
    seekNumbers chunk f = (do
      let f ← (bufferStores (bufferPart chunk) 0).foldlM Frame.storeBuffer f
      let f ← (offsetStores (offsetPart chunk) (chunk.length - (offsetPart chunk).length) 0).foldlM
        Frame.storeOffset f
      let startBufferPosition ← atoi (f.bytes.drop f.startBufferString)
      let startBufferOffset ← atoi (f.bytes.drop f.startOffsetString)
      .ok (.ofNat (Word.unsigned 32 startBufferPosition),
        .ofNat (Word.unsigned 32 startBufferOffset))) := by
  have hbuffer := f.putBuffer_stores ((chunk.dropWhile fun c => c ≠ colon).drop 1) 0
  rw [seekNumbers]
  change (f.putBuffer ((chunk.dropWhile fun c => c ≠ colon).drop 1) 0 >>= _) = _
  rw [hbuffer, bufferPart]
  cases (bufferStores _ 0).foldlM Frame.storeBuffer f with
  | error e => rfl
  | ok g =>
    change (g.putOffset (offsetPart chunk) _ _ >>= _) = _
    rw [g.putOffset_stores]
    rfl

/-- What `atoi` goes over behind white space and a sign. -/
def behindSign (str : Bytes) : Bytes :=
  let str := str.dropWhile isSpace
  if str.head? = some (UInt8.ofNat '-'.toNat) ∨ str.head? = some (UInt8.ofNat '+'.toNat) then str.tail
  else str

/-- The value of a run of digits. -/
def numeralValue (digits : Bytes) : ℕ := digits.foldl (fun v c => 10 * v + (c.toNat - 48)) 0

lemma numeralValue_append (digits : Bytes) (c : UInt8) :
    numeralValue (digits ++ [c]) = 10 * numeralValue digits + (c.toNat - 48) := by
  rw [numeralValue, List.foldl_append]
  rfl

lemma foldl_numeralValue (digits : Bytes) :
    digits.foldl (fun (v : ℤ) c => 10 * v + (c.toNat - 48 : ℕ)) 0 = numeralValue digits := by
  induction digits using List.reverseRecOn with
  | nil => rfl
  | append_singleton digits c ih =>
    rw [List.foldl_append, ih, numeralValue_append]
    push_cast
    rfl

lemma atoi_eq (str : Bytes) :
    atoi str =
      let digits := (behindSign str).takeWhile isDigit
      if digits.length = (behindSign str).length then .error .fault
      else
        .ok (Word.signed 32
          (if (str.dropWhile isSpace).head? = some (UInt8.ofNat '-'.toNat) then
            max (-numeralValue digits) (-2 ^ 63)
          else min (numeralValue digits) (2 ^ 63 - 1))) := by
  simp only [← foldl_numeralValue]
  rfl

/-- `atoi` finds the end of its number within these bytes. -/
def NumberEnds (str : Bytes) : Prop := ∃ n, atoi str = .ok n

lemma numberEnds_iff (str : Bytes) :
    NumberEnds str ↔ ∃ c ∈ behindSign str, isDigit c = false := by
  have hdigits : ((behindSign str).takeWhile isDigit).length = (behindSign str).length ↔
      ∀ c ∈ behindSign str, isDigit c = true := by
    rw [← List.takeWhile_eq_self_iff]
    exact ⟨(List.takeWhile_prefix _).eq_of_length, congrArg List.length⟩
  have hatoi : NumberEnds str ↔
      ¬((behindSign str).takeWhile isDigit).length = (behindSign str).length := by
    rw [NumberEnds, atoi_eq]
    dsimp only
    by_cases h : ((behindSign str).takeWhile isDigit).length = (behindSign str).length
    · simp [h]
    · rw [if_neg h]
      exact iff_of_true ⟨_, rfl⟩ h
  rw [hatoi, hdigits]
  simp

/-- A terminator ends the number at the latest. -/
lemma behindSign_terminated (str : Bytes) : 0 ∈ behindSign (str ++ [0]) := by
  have hspace : (str ++ [0]).dropWhile isSpace = str.dropWhile isSpace ++ [0] := by
    rw [List.dropWhile_append]
    cases str.dropWhile isSpace <;> rfl
  unfold behindSign
  dsimp only
  rw [hspace]
  cases str.dropWhile isSpace with
  | nil => decide
  | cons c cs => split_ifs <;> simp

section Stores

lemma bufferStores_below {n : ℕ} (part : Bytes) (j : ℕ) :
    (∀ x ∈ bufferStores part j, x.1 < n) ↔ j + part.length < n := by
  induction part generalizing j with
  | nil => simp [bufferStores]
  | cons c cs ih =>
    rw [bufferStores, List.forall_mem_cons, ih, List.length_cons]
    dsimp only
    omega

lemma offsetStores_length {n k : ℕ} (part : Bytes) (i : ℕ) (hk : k ≤ n)
    (h : ∀ x ∈ offsetStores part i k, x.1 < n) : k + part.length ≤ n := by
  induction part generalizing i k with
  | nil => exact hk
  | cons c cs ih =>
    rw [offsetStores, List.cons_append, List.forall_mem_cons, List.forall_mem_append] at h
    have hrest := ih (i + 1) h.1 h.2.2
    rw [List.length_cons]
    omega

/-- With the line feeds far behind in the chunk, every terminator is out of bounds. -/
lemma offsetStores_below {n i k : ℕ} (part : Bytes) (hk : k ≤ n) (hi : n ≤ i) :
    (∀ x ∈ offsetStores part i k, x.1 < n) ↔ k + part.length ≤ n ∧ newline ∉ part := by
  refine ⟨fun h => ⟨offsetStores_length part i hk h, ?_⟩, ?_⟩
  · induction part generalizing i k with
    | nil => simp
    | cons c cs ih =>
      rw [offsetStores, List.cons_append, List.forall_mem_cons, List.forall_mem_append] at h
      obtain ⟨hfirst, hstray, hrest⟩ := h
      rw [List.mem_cons, not_or]
      refine ⟨fun hc => ?_, ih hfirst (by omega) hrest⟩
      rw [if_pos hc.symm, List.forall_mem_singleton] at hstray
      omega
  · rintro ⟨hlen, hn⟩
    induction part generalizing i k with
    | nil => simp [offsetStores]
    | cons c cs ih =>
      rw [List.length_cons] at hlen
      rw [List.mem_cons, not_or] at hn
      rw [offsetStores, if_neg (Ne.symm hn.1), List.singleton_append, List.forall_mem_cons]
      exact ⟨by dsimp only; omega, ih (by omega) (by omega) (by omega) hn.2⟩

/-- One store onto what an array holds so far. -/
def storeByte (bs : Bytes) (x : ℕ × UInt8) : Bytes :=
  if x.1 < bs.length then bs.set x.1 x.2 else if x.1 = bs.length then bs ++ [x.2] else bs

lemma foldl_bufferStores (part bs : Bytes) :
    (bufferStores part bs.length).foldl storeByte bs = bs ++ part ++ [0] := by
  induction part generalizing bs with
  | nil => simp [bufferStores, storeByte]
  | cons c cs ih =>
    have hnext := ih (bs ++ [c])
    rw [List.length_append, List.length_singleton] at hnext
    rw [bufferStores, List.foldl_cons, storeByte, if_neg (by simp), if_pos rfl, hnext]
    simp

/-- A terminator that lands behind all that is stored is none. -/
lemma foldl_offsetStores (part bs : Bytes) {i : ℕ} (hi : bs.length + 2 ≤ i) :
    (offsetStores part i bs.length).foldl storeByte bs = bs ++ part := by
  induction part generalizing bs i with
  | nil => simp [offsetStores]
  | cons c cs ih =>
    have hnext := @ih (bs ++ [c]) (i + 1) (by simp; omega)
    rw [List.length_append, List.length_singleton] at hnext
    have hfirst : storeByte bs (bs.length, c) = bs ++ [c] := by
      rw [storeByte, if_neg (by simp), if_pos rfl]
    have hstray : (if c = newline then [(i, (0 : UInt8))] else []).foldl storeByte (bs ++ [c]) =
        bs ++ [c] := by
      split_ifs
      · simp only [List.foldl_cons, List.foldl_nil, storeByte, List.length_append,
          List.length_singleton]
        rw [if_neg (by omega), if_neg (by omega)]
      · rfl
    rw [offsetStores, List.cons_append, List.foldl_cons, hfirst, List.foldl_append, hstray, hnext]
    simp

end Stores

/-- What a list of stores leaves at the start of an array, one byte behind the other. -/
def storedBytes (stores : List (ℕ × UInt8)) : Bytes := stores.foldl storeByte []

lemma storedBytes_buffer (part : Bytes) : storedBytes (bufferStores part 0) = part ++ [0] :=
  foldl_bufferStores part []

lemma storedBytes_offset (part : Bytes) {i : ℕ} (hi : 2 ≤ i) :
    storedBytes (offsetStores part i 0) = part :=
  foldl_offsetStores part [] hi

/-- `strstr` sees the chunk, up to a NUL in it. -/
lemma cString_eq (buffer : Bytes) (length : ℕ) :
    (buffer.set length 0).takeWhile (fun c => c ≠ 0) =
      (buffer.take length).takeWhile fun c => c ≠ 0 := by
  rw [List.set_eq_take_append_cons_drop]
  split_ifs with h
  · rw [List.takeWhile_append]
    split_ifs with hall
    · have hself := (List.takeWhile_prefix fun c : UInt8 => decide (c ≠ 0)).eq_of_length hall
      rw [hself]
      simp
    · rfl
  · rw [List.take_of_length_le (by omega)]

lemma recognised.contains {buffer : Bytes} {length : ℕ} (h : recognised buffer length) :
    testString <:+: buffer.take length := by
  have hin := h.2.2
  rw [cString_eq] at hin
  exact hin.trans (List.takeWhile_prefix _).isInfix

/-- Behind the comma at least two bytes of the chunk are over. -/
lemma offsetPart_length (chunk : Bytes) :
    offsetPart chunk = [] ∨ (offsetPart chunk).length + 2 ≤ chunk.length := by
  have hcolon := List.length_dropWhile_le (fun c => decide (c ≠ colon)) chunk
  have hcomma := List.length_dropWhile_le (fun c => decide (c ≠ comma))
    ((chunk.dropWhile fun c => c ≠ colon).drop 1)
  rw [List.length_drop] at hcomma
  rcases List.eq_nil_or_concat (offsetPart chunk) with hnil | ⟨cs, c, hcs⟩
  · exact Or.inl hnil
  · right
    have hpos : 0 < (offsetPart chunk).length := by simp [hcs]
    rw [offsetPart, List.length_drop] at hpos ⊢
    omega

/-- The two loops stay inside their arrays of four bytes, and `atoi` inside what they stored. -/
def StaysInArrays (buffer : Bytes) (length : ℕ) : Prop :=
  recognised buffer length →
    let chunk := buffer.take length
    let toBuffer := bufferStores (bufferPart chunk) 0
    let toOffset := offsetStores (offsetPart chunk) (chunk.length - (offsetPart chunk).length) 0
    (∀ x ∈ toBuffer, x.1 < 4) ∧ (∀ x ∈ toOffset, x.1 < 4) ∧
      NumberEnds (storedBytes toBuffer) ∧ NumberEnds (storedBytes toOffset)

/-- The first number has room for its terminator; the second has room without one, no line
feed behind it, and another byte that ends it. -/
def PartsFit (chunk : Bytes) : Prop :=
  (bufferPart chunk).length ≤ 3 ∧ (offsetPart chunk).length ≤ 4 ∧ newline ∉ offsetPart chunk ∧
    ∃ c ∈ behindSign (offsetPart chunk), isDigit c = false

/-- The stores of the parser, for every chunk of any bytes and length: they stay inside the
arrays, and the numbers end in them, exactly when the chunk is not taken for a command or
its two parts fit. These are the stores it performs, on every stack. -/
theorem parser_stays_in_arrays_iff (buffer : Bytes) (length : ℕ) :
    (StaysInArrays buffer length ↔ (recognised buffer length → PartsFit (buffer.take length))) ∧
    ∀ f : Frame,
      let chunk := buffer.take length
      seekNumbers chunk f = (do
        let f ← (bufferStores (bufferPart chunk) 0).foldlM Frame.storeBuffer f
        let f ← (offsetStores (offsetPart chunk) (chunk.length - (offsetPart chunk).length) 0).foldlM
          Frame.storeOffset f
        let startBufferPosition ← atoi (f.bytes.drop f.startBufferString)
        let startBufferOffset ← atoi (f.bytes.drop f.startOffsetString)
        .ok (.ofNat (Word.unsigned 32 startBufferPosition),
          .ofNat (Word.unsigned 32 startBufferOffset))) := by
  refine ⟨?_, fun f => seekNumbers_stores (buffer.take length) f⟩
  by_cases hrec : recognised buffer length
  · rw [StaysInArrays, forall_prop_of_true hrec, forall_prop_of_true hrec, PartsFit]
    have hlong : 19 ≤ (buffer.take length).length := hrec.contains.length_le
    generalize buffer.take length = chunk at hlong ⊢
    dsimp only
    have hends : NumberEnds (storedBytes (bufferStores (bufferPart chunk) 0)) := by
      rw [numberEnds_iff, storedBytes_buffer]
      exact ⟨0, behindSign_terminated _, rfl⟩
    have hoffset : storedBytes (offsetStores (offsetPart chunk)
        (chunk.length - (offsetPart chunk).length) 0) = offsetPart chunk := by
      rcases offsetPart_length chunk with hnil | hlen
      · rw [hnil]
        rfl
      · exact storedBytes_offset _ (by omega)
    rw [bufferStores_below, hoffset, numberEnds_iff (offsetPart chunk)]
    constructor
    · rintro ⟨hbuffer, hstores, -, hnumber⟩
      have hlen := offsetStores_length _ _ (Nat.zero_le 4) hstores
      rw [offsetStores_below _ (Nat.zero_le 4) (by omega)] at hstores
      exact ⟨by omega, by omega, hstores.2, hnumber⟩
    · rintro ⟨hbuffer, hlen, hnewline, hnumber⟩
      refine ⟨by omega, ?_, hends, hnumber⟩
      rw [offsetStores_below _ (Nat.zero_le 4) (by omega)]
      exact ⟨by omega, hnewline⟩
  · exact iff_of_true (fun h => absurd h hrec) fun h => absurd h hrec

/-- A blank in place of the line feed. -/
example : PartsFit (testString ++ ascii ['0', ',', '0', ' ']) := by
  unfold PartsFit
  decide

/-- The command for byte 0 of command 0. Its line feed is at index 22, and so is the
terminator stored for it. -/
theorem parser_stays_in_arrays_newline :
    ¬ ∀ buffer length, StaysInArrays buffer length := by
  intro h
  obtain ⟨-, hstores, -⟩ := h (testString ++ ascii ['0', ',', '0'] ++ [newline, 0]) 23 (by decide)
  exact absurd (hstores (22, 0) (by decide)) (by decide)

section Numeral

/-- A numeral: one or more decimal digits. -/
structure Numeral (digits : Bytes) : Prop where
  nonempty : digits ≠ []
  digit : ∀ c ∈ digits, isDigit c = true

lemma isDigit_iff (c : UInt8) : isDigit c = true ↔ 48 ≤ c.toNat ∧ c.toNat ≤ 57 := by
  simp [isDigit, UInt8.le_iff_toNat_le]

lemma Numeral.not_mem {digits : Bytes} (h : Numeral digits) {c : UInt8} (hc : isDigit c = false) :
    c ∉ digits := by
  intro hmem
  simp [h.digit c hmem] at hc

lemma Numeral.value_lt {digits : Bytes} (h : ∀ c ∈ digits, isDigit c = true) :
    numeralValue digits < 10 ^ digits.length := by
  induction digits using List.reverseRecOn with
  | nil => simp [numeralValue]
  | append_singleton digits c ih =>
    rw [List.forall_mem_append, List.forall_mem_singleton, isDigit_iff] at h
    have hlast := ih h.1
    rw [numeralValue_append, List.length_append, List.length_singleton, pow_succ]
    omega

/-- White space and signs are skipped, and a numeral starts with neither. -/
lemma Numeral.behindSign_eq {digits : Bytes} (h : Numeral digits) (rest : Bytes) :
    (digits ++ rest).dropWhile isSpace = digits ++ rest ∧ behindSign (digits ++ rest) = digits ++ rest ∧
      (digits ++ rest).head? ≠ some (UInt8.ofNat '-'.toNat) := by
  cases digits with
  | nil => exact absurd rfl h.nonempty
  | cons c cs =>
    have hc := (isDigit_iff c).mp (h.digit c (by simp))
    have hspace : isSpace c = false := by
      simp only [isSpace, Bool.or_eq_false_iff, Bool.and_eq_false_iff, decide_eq_false_iff_not,
        UInt8.le_iff_toNat_le, ← UInt8.toNat_inj]
      exact ⟨by rw [show (32 : UInt8).toNat = 32 from rfl]; omega,
        Or.inr (by rw [show (13 : UInt8).toNat = 13 from rfl]; omega)⟩
    have hminus : c ≠ UInt8.ofNat '-'.toNat := by
      rintro rfl
      exact absurd hc.1 (by decide)
    have hplus : c ≠ UInt8.ofNat '+'.toNat := by
      rintro rfl
      exact absurd hc.1 (by decide)
    have hdrop : (c :: cs ++ rest).dropWhile isSpace = c :: cs ++ rest := by
      rw [List.cons_append, List.dropWhile_cons, hspace, if_neg (by simp)]
    refine ⟨hdrop, ?_, by simpa using hminus⟩
    have hsign : ¬((c :: cs ++ rest).head? = some (UInt8.ofNat '-'.toNat) ∨
        (c :: cs ++ rest).head? = some (UInt8.ofNat '+'.toNat)) := by
      rw [List.cons_append, List.head?_cons, Option.some.injEq, Option.some.injEq, not_or]
      exact ⟨hminus, hplus⟩
    rw [behindSign, hdrop]
    exact if_neg hsign

/-- `atoi` reads a short numeral as its value, whatever follows the byte that ends it. -/
lemma Numeral.atoi_eq {digits : Bytes} (h : Numeral digits) (hlen : digits.length ≤ 3) {c : UInt8}
    (hc : isDigit c = false) (rest : Bytes) :
    atoi (digits ++ c :: rest) = .ok (numeralValue digits : ℤ) := by
  obtain ⟨hdrop, hbehind, hminus⟩ := h.behindSign_eq (c :: rest)
  have hdigits : (digits ++ c :: rest).takeWhile isDigit = digits := by
    rw [List.takeWhile_append_of_pos h.digit, List.takeWhile_cons, hc, if_neg (by simp),
      List.append_nil]
  have hvalue : numeralValue digits < 1000 :=
    (Numeral.value_lt h.digit).trans_le (Nat.pow_le_pow_right (by omega) hlen)
  rw [Aesd.atoi_eq, hbehind, hdrop, hdigits]
  dsimp only
  rw [if_neg (by simp), if_neg hminus, min_eq_left (by omega), Word.signed_natCast (by omega)]

/-- It is enough that the bytes start with the numeral and one byte that ends it. -/
lemma Numeral.atoi_of_take {digits bs : Bytes} (h : Numeral digits) (hlen : digits.length ≤ 3)
    {c : UInt8} (hc : isDigit c = false) (hbs : bs.take (digits ++ [c]).length = digits ++ [c]) :
    atoi bs = .ok (numeralValue digits : ℤ) := by
  rw [← List.take_append_drop (digits ++ [c]).length bs, hbs, List.append_assoc,
    List.singleton_append]
  exact h.atoi_eq hlen hc _

/-- The decimal notation of a number. -/
def decimal (n : ℕ) : Bytes := ascii (Nat.toDigits 10 n)

lemma toNat_ofNat_digit {c : Char} (hc : c.isDigit) :
    (UInt8.ofNat c.toNat).toNat = c.toNat ∧ 48 ≤ c.toNat ∧ c.toNat ≤ 57 := by
  have hrange : 48 ≤ c.toNat ∧ c.toNat ≤ 57 := by
    simp only [Char.isDigit, Bool.and_eq_true, decide_eq_true_eq, ge_iff_le,
      UInt32.le_iff_toNat_le] at hc
    exact hc
  exact ⟨UInt8.toNat_ofNat_of_lt' (show c.toNat < 256 by omega), hrange⟩

lemma decimal_numeral (n : ℕ) : Numeral (decimal n) := by
  refine ⟨by simp [decimal, ascii, Nat.toDigits_ne_nil], fun c hc => ?_⟩
  obtain ⟨d, hd, rfl⟩ := List.mem_map.mp hc
  have hdigit := toNat_ofNat_digit (Nat.isDigit_of_mem_toDigits (by omega) (by omega) hd)
  rw [isDigit_iff, hdigit.1]
  exact hdigit.2

lemma decimal_length {n k : ℕ} (hk : 0 < k) (h : n < 10 ^ k) : (decimal n).length ≤ k := by
  rw [decimal, ascii, List.length_map]
  exact (Nat.length_toDigits_le_iff (by omega) hk).mpr h

/-- Reading undoes writing. -/
lemma numeralValue_decimal (n : ℕ) : numeralValue (decimal n) = n := by
  have hfold : ∀ cs : List Char, (∀ c ∈ cs, c.isDigit) →
      numeralValue (ascii cs) = Nat.ofDigitChars 10 cs 0 := by
    intro cs hcs
    induction cs using List.reverseRecOn with
    | nil => rfl
    | append_singleton cs c ih =>
      rw [List.forall_mem_append, List.forall_mem_singleton] at hcs
      have hlast := toNat_ofNat_digit hcs.2
      rw [ascii, List.map_append, List.map_singleton, numeralValue_append, hlast.1,
        Nat.ofDigitChars_append, ← ih hcs.1]
      rfl
  rw [decimal, hfold _ fun c hc => Nat.isDigit_of_mem_toDigits (by omega) (by omega) hc]
  exact Nat.ofDigitChars_toDigits (by omega) (by omega)

end Numeral

/-- A command as a client writes it. -/
def seekCommand (x y : Bytes) : Bytes := testString ++ x ++ [comma] ++ y ++ [newline]

section Command

variable {x y : Bytes} (hx : Numeral x) (hy : Numeral y)

lemma seekCommand_length (x y : Bytes) :
    (seekCommand x y).length = 21 + x.length + y.length := by
  simp only [seekCommand, List.length_append, List.length_singleton]
  rw [show testString.length = 19 from rfl]
  omega

lemma behindColon_seekCommand (x y : Bytes) :
    ((seekCommand x y).dropWhile fun c => c ≠ colon).drop 1 = x ++ comma :: (y ++ [newline]) := by
  have hname : seekCommand x y =
      testString.take 18 ++ colon :: (x ++ comma :: (y ++ [newline])) := by
    simp only [seekCommand, List.append_assoc, List.cons_append, List.nil_append]
    rfl
  rw [hname, List.dropWhile_append_of_pos (by decide +kernel)]
  simp

include hx in
lemma seekCommand_parts :
    bufferPart (seekCommand x y) = x ∧ offsetPart (seekCommand x y) = y ++ [newline] := by
  have hcomma : ∀ c ∈ x, decide (c ≠ comma) = true := by
    intro c hc
    rw [decide_eq_true_eq]
    rintro rfl
    exact hx.not_mem (by decide) hc
  rw [bufferPart, offsetPart, behindColon_seekCommand, List.takeWhile_append_of_pos hcomma,
    List.dropWhile_append_of_pos hcomma]
  simp

include hx hy in
lemma seekCommand_recognised (hxlen : x.length ≤ 3) (hylen : y.length ≤ 3) (rest : Bytes) :
    recognised (seekCommand x y ++ rest) (seekCommand x y).length := by
  have hxpos := List.length_pos_iff.mpr hx.nonempty
  have hypos := List.length_pos_iff.mpr hy.nonempty
  have hlen := seekCommand_length x y
  refine ⟨by omega, by omega, ?_⟩
  have hnul : ∀ c ∈ seekCommand x y, decide (c ≠ 0) = true := by
    intro c hc
    rw [decide_eq_true_eq]
    rintro rfl
    simp only [seekCommand, List.mem_append, hx.not_mem (show isDigit 0 = false from rfl),
      hy.not_mem (show isDigit 0 = false from rfl), List.mem_singleton, or_false] at hc
    revert hc
    decide
  rw [cString_eq, List.take_left, List.takeWhile_eq_self_iff.mpr hnul]
  exact ⟨[], x ++ [comma] ++ y ++ [newline], by simp [seekCommand]⟩

end Command

namespace Frame

/-- The two arrays lie in the frame apart from each other, and the terminator stored for a
line feed of the chunk lands in the frame, on neither. -/
structure Apart (f : Frame) : Prop where
  buffer : f.startBufferString + 4 ≤ f.bytes.length
  offset : f.startOffsetString + 4 ≤ f.bytes.length
  apart : f.startBufferString + 4 ≤ f.startOffsetString ∨
    f.startOffsetString + 4 ≤ f.startBufferString
  stray : ∀ i, 22 ≤ i → i ≤ 26 → f.startOffsetString + i < f.bytes.length ∧
    (f.startOffsetString + i < f.startBufferString ∨
      f.startBufferString + 4 ≤ f.startOffsetString + i)

/-- The frame with a run of bytes stored. -/
def store (f : Frame) (off : ℕ) (ys : Bytes) : Frame := { f with bytes := splice f.bytes off ys }

lemma put_eq {f : Frame} {i : ℕ} (hi : i < f.bytes.length) (c : UInt8) :
    f.put i c = .ok (f.store i [c]) := by
  rw [put, if_pos hi, store, splice_singleton c hi]

lemma store_length {f : Frame} {off : ℕ} {ys : Bytes} (h : off + ys.length ≤ f.bytes.length) :
    (f.store off ys).bytes.length = f.bytes.length := splice_length h

/-- A run of bytes stored one by one. -/
lemma store_cons {f : Frame} {off : ℕ} {c : UInt8} {cs : Bytes}
    (h : off + (c :: cs).length ≤ f.bytes.length) :
    (f.store off [c]).store (off + 1) cs = f.store off (c :: cs) := by
  rw [List.length_cons] at h
  have hone : off + [c].length ≤ f.bytes.length := by
    rw [List.length_singleton]
    omega
  have hboth := splice_append cs hone
  rw [List.length_singleton, List.singleton_append] at hboth
  rw [store, store, store, hboth]

lemma foldlM_storeBuffer {f : Frame} (part : Bytes) {j : ℕ}
    (h : f.startBufferString + j + part.length < f.bytes.length) :
    (bufferStores part j).foldlM storeBuffer f =
      .ok (f.store (f.startBufferString + j) (part ++ [0])) := by
  induction part generalizing f j with
  | nil =>
    rw [bufferStores, List.foldlM_cons, storeBuffer, put_eq (by simpa using h)]
    rfl
  | cons c cs ih =>
    rw [List.length_cons] at h
    have hfirst : f.startBufferString + j + [c].length ≤ f.bytes.length := by
      rw [List.length_singleton]
      omega
    have hrest := @ih (f.store (f.startBufferString + j) [c]) (j + 1) (by
      rw [store_length hfirst]
      change f.startBufferString + (j + 1) + cs.length < _
      omega)
    rw [bufferStores, List.foldlM_cons, storeBuffer, put_eq (show f.startBufferString + j < _ by omega)]
    have hall : f.startBufferString + j + (c :: (cs ++ [0])).length ≤ f.bytes.length := by
      simp only [List.length_cons, List.length_append, List.length_nil]
      omega
    exact hrest.trans (congrArg Except.ok (store_cons hall))

lemma foldlM_storeOffset {f : Frame} {part : Bytes} (hpart : newline ∉ part) {i k : ℕ}
    (h : f.startOffsetString + k + part.length < f.bytes.length)
    (hi : f.startOffsetString + (i + part.length) < f.bytes.length) :
    (offsetStores (part ++ [newline]) i k).foldlM storeOffset f =
      .ok ((f.store (f.startOffsetString + k) (part ++ [newline])).store
        (f.startOffsetString + (i + part.length)) [0]) := by
  induction part generalizing f i k with
  | nil =>
    rw [List.length_nil, Nat.add_zero] at h hi
    have hone : f.startOffsetString + k + [newline].length ≤ f.bytes.length := h
    have hstray : (f.store (f.startOffsetString + k) [newline]).storeOffset (i, 0) = _ :=
      put_eq (by rw [store_length hone]; exact hi) 0
    rw [List.nil_append, offsetStores, if_pos rfl, offsetStores, List.append_nil,
      List.foldlM_cons, storeOffset, put_eq h]
    change List.foldlM storeOffset (f.store (f.startOffsetString + k) [newline]) [(i, 0)] = _
    rw [List.foldlM_cons, hstray]
    rfl
  | cons c cs ih =>
    rw [List.mem_cons, not_or] at hpart
    rw [List.length_cons] at h hi
    have hfirst : f.startOffsetString + k + [c].length ≤ f.bytes.length := by
      rw [List.length_singleton]
      omega
    have hrest := @ih (f.store (f.startOffsetString + k) [c]) hpart.2 (i + 1) (k + 1)
      (by
        rw [store_length hfirst]
        change f.startOffsetString + (k + 1) + cs.length < _
        omega)
      (by
        rw [store_length hfirst]
        change f.startOffsetString + (i + 1 + cs.length) < _
        omega)
    rw [List.cons_append, offsetStores, if_neg (Ne.symm hpart.1), List.singleton_append,
      List.foldlM_cons, storeOffset, put_eq (show f.startOffsetString + k < _ by omega)]
    have hall : f.startOffsetString + k + (c :: (cs ++ [newline])).length ≤ f.bytes.length := by
      simp only [List.length_cons, List.length_append, List.length_nil]
      omega
    have hboth := store_cons hall
    rw [show i + 1 + cs.length = i + (cs.length + 1) by omega] at hrest
    exact hrest.trans (congrArg (fun g : Frame => Except.ok (g.store _ [0])) hboth)

/-- Both arrays hold what was stored, and the terminator of the line feed is elsewhere. -/
lemma store_windows {f : Frame} (hf : f.Apart) {x y : Bytes} (hx : x.length ≤ 4)
    (hy : y.length ≤ 4) {i : ℕ} (hlow : 22 ≤ i) (hhigh : i ≤ 26) :
    let g := ((f.store f.startBufferString x).store f.startOffsetString y).store
      (f.startOffsetString + i) [0]
    (g.bytes.drop f.startBufferString).take x.length = x ∧
      (g.bytes.drop f.startOffsetString).take y.length = y := by
  intro g
  have hbuffer := hf.buffer
  have hoffset := hf.offset
  obtain ⟨hin, hstray⟩ := hf.stray i hlow hhigh
  have hfirst : (f.store f.startBufferString x).bytes.length = f.bytes.length :=
    store_length (by omega)
  have hsecond : ((f.store f.startBufferString x).store f.startOffsetString y).bytes.length =
      f.bytes.length := (store_length (by omega)).trans hfirst
  have hlast : f.startOffsetString + i + [(0 : UInt8)].length ≤
      ((f.store f.startBufferString x).store f.startOffsetString y).bytes.length := by
    rw [hsecond, List.length_singleton]
    omega
  have hone : [(0 : UInt8)].length = 1 := rfl
  have hapart := hf.apart
  constructor
  · calc (g.bytes.drop f.startBufferString).take x.length
        = (((f.store f.startBufferString x).store f.startOffsetString y).bytes.drop
            f.startBufferString).take x.length := splice_window hlast (by omega)
      _ = ((f.store f.startBufferString x).bytes.drop f.startBufferString).take x.length :=
          splice_window (by omega) (by omega)
      _ = x := splice_read (by omega)
  · calc (g.bytes.drop f.startOffsetString).take y.length
        = (((f.store f.startBufferString x).store f.startOffsetString y).bytes.drop
            f.startOffsetString).take y.length := splice_window hlast (by omega)
      _ = y := splice_read (by omega)

end Frame

lemma seekNumbers_of_stores {chunk part part' : Bytes} {i : ℕ} {f g h : Frame} {p o : ℤ}
    (hpart : bufferPart chunk = part) (hpart' : offsetPart chunk = part')
    (hi : chunk.length - part'.length = i)
    (hbuffer : (bufferStores part 0).foldlM Frame.storeBuffer f = .ok g)
    (hoffset : (offsetStores part' i 0).foldlM Frame.storeOffset g = .ok h)
    (hp : atoi (h.bytes.drop h.startBufferString) = .ok p)
    (ho : atoi (h.bytes.drop h.startOffsetString) = .ok o) :
    seekNumbers chunk f = .ok (.ofNat (Word.unsigned 32 p), .ofNat (Word.unsigned 32 o)) := by
  rw [seekNumbers_stores, hpart, hpart', hi]
  simp only [hbuffer, hoffset, hp, ho, bind, Except.bind]

/-- The numbers of a command whose numerals have up to three digits. -/
lemma seekNumbers_seekCommand {x y : Bytes} (hx : Numeral x) (hy : Numeral y)
    (hxlen : x.length ≤ 3) (hylen : y.length ≤ 3) {f : Frame} (hf : f.Apart) :
    seekNumbers (seekCommand x y) f =
      .ok (.ofNat (numeralValue x), .ofNat (numeralValue y)) := by
  have hxpos := List.length_pos_iff.mpr hx.nonempty
  have hypos := List.length_pos_iff.mpr hy.nonempty
  have hbuffer := hf.buffer
  have hoffset := hf.offset
  have hstray := hf.stray (20 + x.length + y.length) (by omega) (by omega)
  have hxall : (x ++ [(0 : UInt8)]).length = x.length + 1 := by simp
  have hyall : (y ++ [newline]).length = y.length + 1 := by simp
  have hi : (seekCommand x y).length - (y ++ [newline]).length = 20 + x.length := by
    rw [seekCommand_length]
    omega
  have hstored := Frame.foldlM_storeBuffer (f := f) x (j := 0) (by omega)
  have hlength : (f.store f.startBufferString (x ++ [0])).bytes.length = f.bytes.length :=
    Frame.store_length (by omega)
  have hboth := Frame.foldlM_storeOffset (f := f.store f.startBufferString (x ++ [0]))
    (hy.not_mem (show isDigit newline = false from rfl)) (i := 20 + x.length) (k := 0)
    (by rw [hlength]; change f.startOffsetString + 0 + _ < _; omega)
    (by rw [hlength]; change f.startOffsetString + _ < _; omega)
  obtain ⟨hfirst, hsecond⟩ := Frame.store_windows hf (x := x ++ [0]) (y := y ++ [newline])
    (by omega) (by omega) (show 22 ≤ 20 + x.length + y.length by omega) (by omega)
  have hposition := hx.atoi_of_take hxlen (by decide) hfirst
  have hnumber := hy.atoi_of_take hylen (by decide) hsecond
  have hxvalue : numeralValue x < 1000 :=
    (Numeral.value_lt hx.digit).trans_le (Nat.pow_le_pow_right (by omega) hxlen)
  have hyvalue : numeralValue y < 1000 :=
    (Numeral.value_lt hy.digit).trans_le (Nat.pow_le_pow_right (by omega) hylen)
  obtain ⟨hbufferPart, hoffsetPart⟩ := seekCommand_parts hx (y := y)
  have hnumbers := seekNumbers_of_stores hbufferPart hoffsetPart hi hstored hboth hposition hnumber
  rwa [Word.unsigned_natCast (by omega), Word.unsigned_natCast (by omega)] at hnumbers

/-- The request that a chunk becomes, if it becomes one. -/
def seekRequest (buffer : Bytes) (length : ℕ) (f : Frame) :
    Except Stop (Option (UInt32 × UInt32)) :=
  if recognised buffer length then some <$> seekNumbers (buffer.take length) f else .ok none

/-- What the handler does with the request. -/
def handleRequest (d : AesdDev) (buffer : Bytes) (bufferAddr : UInt64) (length : ℕ)
    (a : IoctlAnswers) : Option (UInt32 × UInt32) → Except Stop (AesdDev × Bytes × ℤ)
  | none => .ok (d, buffer, -1)
  | some (x, y) => do
    let (d, _, answer) ← aesdIoctl d AESDCHAR_IOCSEEKTO ⟨x, y, 0, bufferAddr⟩ a
    match answer with
    | none => .ok (d, buffer.set length 0, 0)
    | some r =>
      if buffer.length < r.special.length then .error .fault
      else
        .ok (d, splice (buffer.set length 0) 0 r.special, Word.signed 64 r.arg.lengthCopied.toNat)

lemma handle_request (d : AesdDev) (buffer : Bytes) (bufferAddr : UInt64) (length : ℕ) (f : Frame)
    (a : IoctlAnswers) :
    handleIoctlCommainds d buffer bufferAddr length f a =
      seekRequest buffer length f >>= handleRequest d buffer bufferAddr length a := by
  rw [handleIoctlCommainds, seekRequest]
  split_ifs with hrec
  · cases seekNumbers (buffer.take length) f <;> rfl
  · rfl

lemma seekRequest_none_iff (buffer : Bytes) (length : ℕ) (f : Frame) :
    seekRequest buffer length f = .ok none ↔ ¬recognised buffer length := by
  rw [seekRequest]
  split_ifs with hrec
  · refine iff_of_false (fun h => ?_) (not_not.mpr hrec)
    cases hn : seekNumbers (buffer.take length) f <;>
      simp [hn, Functor.map, Except.map] at h
  · exact iff_of_true rfl hrec

/-- The command parser. A chunk becomes no request just when it has less than 23 or more than
27 bytes or does not hold the test string before its first NUL; the handler then returns
-1 and the buffer is as before. A command whose two numerals have up to three digits
becomes the request with exactly these numbers, so for all numbers up to 999 parsing undoes
writing. -/
theorem seek_parse (f : Frame) (hf : f.Apart) :
    (∀ d buffer bufferAddr length a,
      (seekRequest buffer length f = .ok none ↔ ¬recognised buffer length) ∧
      handleIoctlCommainds d buffer bufferAddr length f a =
        seekRequest buffer length f >>= handleRequest d buffer bufferAddr length a ∧
      (¬recognised buffer length →
        handleIoctlCommainds d buffer bufferAddr length f a = .ok (d, buffer, -1))) ∧
    (∀ x y rest, Numeral x → Numeral y → x.length ≤ 3 → y.length ≤ 3 →
      seekRequest (seekCommand x y ++ rest) (seekCommand x y).length f =
        .ok (some (.ofNat (numeralValue x), .ofNat (numeralValue y)))) ∧
    ∀ x y : UInt32, ∀ rest, x.toNat ≤ 999 → y.toNat ≤ 999 →
      let command := seekCommand (decimal x.toNat) (decimal y.toNat)
      seekRequest (command ++ rest) command.length f = .ok (some (x, y)) := by
  have hcommand : ∀ x y rest, Numeral x → Numeral y → x.length ≤ 3 → y.length ≤ 3 →
      seekRequest (seekCommand x y ++ rest) (seekCommand x y).length f =
        .ok (some (.ofNat (numeralValue x), .ofNat (numeralValue y))) := by
    intro x y rest hx hy hxlen hylen
    rw [seekRequest, if_pos (seekCommand_recognised hx hy hxlen hylen rest), List.take_left,
      seekNumbers_seekCommand hx hy hxlen hylen hf]
    rfl
  refine ⟨fun d buffer bufferAddr length a => ⟨seekRequest_none_iff buffer length f,
    handle_request d buffer bufferAddr length f a, fun hnot => ?_⟩, hcommand, ?_⟩
  · rw [handle_request, (seekRequest_none_iff buffer length f).mpr hnot]
    rfl
  · intro x y rest hx hy
    have hdone := hcommand _ _ rest (decimal_numeral x.toNat) (decimal_numeral y.toNat)
      (decimal_length (by omega) (by omega)) (decimal_length (by omega) (by omega))
    rw [numeralValue_decimal, numeralValue_decimal, UInt32.ofNat_toNat, UInt32.ofNat_toNat] at hdone
    exact hdone

/-- A stack with room behind the two arrays. -/
def roomyFrame : Frame := ⟨List.replicate 40 0, 0, 4⟩

lemma roomyFrame_apart : roomyFrame.Apart := by
  refine ⟨by decide, by decide, Or.inl le_rfl, fun i hlow hhigh => ?_⟩
  have hlen : roomyFrame.bytes.length = 40 := rfl
  change 4 + i < roomyFrame.bytes.length ∧ (4 + i < 0 ∨ 0 + 4 ≤ 4 + i)
  omega

theorem seek_parse_three_digits :
    seekRequest (seekCommand (decimal 12) (decimal 345) ++ [0])
      (seekCommand (decimal 12) (decimal 345)).length roomyFrame = .ok (some (12, 345)) :=
  (seek_parse roomyFrame roomyFrame_apart).2.2 12 345 [0] (by decide) (by decide)

/-- A command with a numeral of seven digits is longer than the parser looks at. -/
theorem seek_parse_long_numeral :
    ¬ ∀ (f : Frame) (x y : UInt32) (rest : Bytes), f.Apart →
      let command := seekCommand (decimal x.toNat) (decimal y.toNat)
      seekRequest (command ++ rest) command.length f = .ok (some (x, y)) := by
  intro h
  have hlong := h roomyFrame 1000000 0 [0] roomyFrame_apart
  have hnone : seekRequest (seekCommand (decimal 1000000) (decimal 0) ++ [0])
      (seekCommand (decimal 1000000) (decimal 0)).length roomyFrame = .ok none := by
    rw [seekRequest_none_iff]
    decide +kernel
  exact absurd (hnone.symm.trans hlong) (by simp)

end Aesd
