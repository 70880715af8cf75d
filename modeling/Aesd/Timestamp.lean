import Aesd.Library.Codec
import Aesd.SeekParser

/-! The timestamp lines of file mode, from aesdsocket.c: the time of day in `struct tm` as
`strftime` prints it in the C locale, in the memory that `print_time_to_file` allocates. The
lines are read back in full. -/
namespace Aesd
open Codec Memory

def TIME_SIZE : ℕ := 70

/-- `struct tm`, with what `localtime` keeps to. `tmYear` counts from 1900; years before
1000, which need not be padded in one way, and 32 bits are its bounds. -/
structure Tm where
  tmSec : Fin 61
  tmMin : Fin 60
  tmHour : Fin 24
  tmMday : Fin 32
  tmMon : Fin 12
  tmYear : ℤ
  tmWday : Fin 7
  tmGmtoff : ℤ
  year_ge : -900 ≤ tmYear
  year_lt : tmYear < 2 ^ 31
  zone_lt : tmGmtoff.natAbs < 360000

def weekday : Fin 7 → Bytes :=
  ![ascii ['S', 'u', 'n'], ascii ['M', 'o', 'n'], ascii ['T', 'u', 'e'], ascii ['W', 'e', 'd'],
    ascii ['T', 'h', 'u'], ascii ['F', 'r', 'i'], ascii ['S', 'a', 't']]

def month : Fin 12 → Bytes :=
  ![ascii ['J', 'a', 'n'], ascii ['F', 'e', 'b'], ascii ['M', 'a', 'r'], ascii ['A', 'p', 'r'],
    ascii ['M', 'a', 'y'], ascii ['J', 'u', 'n'], ascii ['J', 'u', 'l'], ascii ['A', 'u', 'g'],
    ascii ['S', 'e', 'p'], ascii ['O', 'c', 't'], ascii ['N', 'o', 'v'], ascii ['D', 'e', 'c']]

def twoDigits (n : ℕ) : Bytes := [.ofNat (48 + n / 10), .ofNat (48 + n % 10)]

namespace Tm

def year (tm : Tm) : ℕ := (tm.tmYear + 1900).toNat

/-- `%T`, that is `%H:%M:%S`. -/
def clock (tm : Tm) : Bytes :=
  twoDigits tm.tmHour ++ ascii [':'] ++ twoDigits tm.tmMin ++ ascii [':'] ++ twoDigits tm.tmSec

/-- The sign and the whole minutes of the zone. -/
def zone (tm : Tm) : Bytes :=
  ascii [if tm.tmGmtoff < 0 then '-' else '+'] ++ twoDigits (tm.tmGmtoff.natAbs / 3600) ++
    twoDigits (tm.tmGmtoff.natAbs / 60 % 60)

/-- The conversions that the format has. -/
def conversion (tm : Tm) (c : Char) : Option Bytes :=
  if c = 'a' then some (weekday tm.tmWday)
  else if c = 'd' then some (twoDigits tm.tmMday)
  else if c = 'b' then some (month tm.tmMon)
  else if c = 'Y' then some (decimal tm.year)
  else if c = 'T' then some tm.clock
  else if c = 'z' then some tm.zone
  else none

def expand (tm : Tm) : List Char → Option Bytes
  | [] => some []
  | '%' :: c :: format => do
    let field ← tm.conversion c
    let rest ← tm.expand format
    some (field ++ rest)
  | c :: format => (tm.expand format).map fun rest => ascii [c] ++ rest

/-- What does not fit with its terminator is not printed. -/
def strftime (tm : Tm) (max : ℕ) (format : List Char) : Option Bytes :=
  (tm.expand format).filter fun str => str.length < max

/-- `"%a, %d %b %Y %T %z"`. -/
def getCurrentTime (tm : Tm) : Option Bytes :=
  tm.strftime TIME_SIZE ['%', 'a', ',', ' ', '%', 'd', ' ', '%', 'b', ' ', '%', 'Y', ' ', '%', 'T',
    ' ', '%', 'z']

end Tm

/-- `"timestamp:"`. -/
def timestampPrefix : Bytes := ascii ['t', 'i', 'm', 'e', 's', 't', 'a', 'm', 'p', ':']

/-- `print_time_to_file` in the memory it allocates. What a `strftime` without room leaves
there has no meaning. -/
def printTimeToFileAt (file : Bytes) (junk : ℕ → UInt8) (tm : Tm) : Except Stop Bytes :=
  let writestr := splice (resize junk (TIME_SIZE + 10) []) 0 timestampPrefix
  match tm.getCurrentTime with
  | none => .error .fault
  | some currTime =>
    let writestr := splice writestr 10 (currTime ++ [0])
    .ok (file ++ writestr.takeWhile (fun c => c ≠ 0) ++ [newline])

/-- What a line tells of the time: all of it but the seconds of the zone. -/
structure Stamp where
  wday : Fin 7
  mday : Fin 32
  mon : Fin 12
  year : ℕ
  hour : Fin 24
  min : Fin 60
  sec : Fin 61
  west : Bool
  zoneHour : Fin 100
  zoneMin : Fin 60

namespace Tm

def stamp (tm : Tm) : Stamp :=
  { wday := tm.tmWday, mday := tm.tmMday, mon := tm.tmMon, year := tm.year, hour := tm.tmHour
    min := tm.tmMin, sec := tm.tmSec, west := tm.tmGmtoff < 0
    zoneHour := ⟨tm.tmGmtoff.natAbs / 3600, by have hlt := tm.zone_lt; omega⟩
    zoneMin := ⟨tm.tmGmtoff.natAbs / 60 % 60, Nat.mod_lt _ (by omega)⟩ }

/-- What `getCurrentTime` prints. -/
def text (tm : Tm) : Bytes :=
  weekday tm.tmWday ++ ascii [',', ' '] ++ twoDigits tm.tmMday ++ ascii [' '] ++ month tm.tmMon ++
    ascii [' '] ++ decimal tm.year ++ ascii [' '] ++ tm.clock ++ ascii [' '] ++ tm.zone

end Tm

section Fields

lemma twoDigits_inj {i k : ℕ} (hi : i < 100) (hk : k < 100) (h : twoDigits i = twoDigits k) : i = k := by
  have hbyte : ∀ {a b : ℕ}, a < 10 → b < 10 → UInt8.ofNat (48 + a) = UInt8.ofNat (48 + b) → a = b := by
    intro a b ha hb hab
    have hnat := congrArg UInt8.toNat hab
    rw [UInt8.toNat_ofNat_of_lt' (show 48 + a < 256 by omega),
      UInt8.toNat_ofNat_of_lt' (show 48 + b < 256 by omega)] at hnat
    omega
  simp only [twoDigits, List.cons.injEq, and_true] at h
  have htens := hbyte (by omega) (by omega) h.1
  have hones := hbyte (by omega) (by omega) h.2
  omega

/-- A number in two digits. -/
def two (n : ℕ) (hn : n ≤ 100) : Codec UInt8 (Fin n) :=
  table 2 (fun i => twoDigits i) (fun _ => rfl) fun i k h =>
    Fin.ext (twoDigits_inj (i.2.trans_le hn) (k.2.trans_le hn) h)

/-- A number in as many digits as it has, with a space behind. -/
def number : Codec UInt8 ℕ where
  print n := decimal n ++ ascii [' ']
  parse s :=
    match s.dropWhile isDigit with
    | [] => none
    | c :: rest => if c = 32 then some (numeralValue (s.takeWhile isDigit), rest) else none
  round n rest := by
    have hdigit : ∀ c ∈ decimal n, isDigit c = true := (decimal_numeral n).digit
    rw [List.append_assoc, List.dropWhile_append_of_pos hdigit, List.takeWhile_append_of_pos hdigit]
    change some (numeralValue (decimal n ++ []), rest) = _
    rw [List.append_nil, numeralValue_decimal]

def sign : Codec UInt8 Bool :=
  imap (table 1 ![ascii ['+'], ascii ['-']] (by decide) (by decide)) (fun i => decide (i = 1))
    (fun west => if west then 1 else 0) (by decide)

/-- A timestamp line. -/
def stampLine : Codec UInt8 Stamp :=
  imap
    (((table 3 weekday (by decide) (by decide)).behind timestampPrefix).seq
      (((two 32 (by omega)).behind (ascii [',', ' '])).seq
        (((table 3 month (by decide) (by decide)).behind (ascii [' '])).seq
          ((number.behind (ascii [' '])).seq
            ((two 24 (by omega)).seq
              (((two 60 (by omega)).behind (ascii [':'])).seq
                (((two 61 (by omega)).behind (ascii [':'])).seq
                  ((sign.behind (ascii [' '])).seq
                    ((two 100 le_rfl).seq
                      ((two 60 (by omega)).seq (Codec.text [newline])))))))))))
    (fun p => ⟨p.1, p.2.1, p.2.2.1, p.2.2.2.1, p.2.2.2.2.1, p.2.2.2.2.2.1, p.2.2.2.2.2.2.1,
      p.2.2.2.2.2.2.2.1, p.2.2.2.2.2.2.2.2.1, p.2.2.2.2.2.2.2.2.2.1⟩)
    (fun s => (s.wday, s.mday, s.mon, s.year, s.hour, s.min, s.sec, s.west, s.zoneHour, s.zoneMin, ()))
    fun _ => rfl

lemma stampLine_print (tm : Tm) :
    stampLine.print tm.stamp = timestampPrefix ++ tm.text ++ [newline] := by
  have hsign : sign.print (decide (tm.tmGmtoff < 0)) = ascii [if tm.tmGmtoff < 0 then '-' else '+'] := by
    by_cases hneg : tm.tmGmtoff < 0 <;> simp [hneg, sign, imap, table]
  simp only [stampLine, imap, Codec.seq, behind, Codec.text, Tm.stamp, hsign, Tm.text, Tm.clock,
    Tm.zone, two, table, number, List.append_assoc]

end Fields

namespace Tm

lemma clock_length (tm : Tm) : tm.clock.length = 8 := by simp [clock, twoDigits, ascii]

lemma zone_length (tm : Tm) : tm.zone.length = 5 := by simp [zone, twoDigits, ascii]

lemma weekday_length (i : Fin 7) : (weekday i).length = 3 := by revert i; decide

lemma month_length (i : Fin 12) : (month i).length = 3 := by revert i; decide

/-- Any year fits in ten digits, and the text in the memory set aside for it. -/
lemma text_length (tm : Tm) : tm.text.length < TIME_SIZE := by
  have hlow := tm.year_ge
  have hhigh := tm.year_lt
  have hyear : (decimal tm.year).length ≤ 10 := decimal_length (by omega) (by rw [year]; omega)
  have hother : tm.text.length = 27 + (decimal tm.year).length := by
    simp only [text, List.length_append, weekday_length, month_length, clock_length, zone_length]
    simp [twoDigits, ascii]
    omega
  rw [hother, TIME_SIZE]
  omega

lemma getCurrentTime_eq (tm : Tm) : tm.getCurrentTime = some tm.text := by
  have hexpand : tm.expand ['%', 'a', ',', ' ', '%', 'd', ' ', '%', 'b', ' ', '%', 'Y', ' ', '%', 'T',
      ' ', '%', 'z'] = some tm.text := by
    have hcomma : ascii [',', ' '] = ascii [','] ++ ascii [' '] := rfl
    simp [expand, conversion, text, hcomma]
  rw [getCurrentTime, strftime, hexpand, Option.filter_some, if_pos (by simpa using tm.text_length)]

end Tm

/-- A byte that ends neither the string nor the line. -/
def Plain (c : UInt8) : Prop := c ≠ 0 ∧ c ≠ newline

instance (c : UInt8) : Decidable (Plain c) := inferInstanceAs (Decidable (_ ∧ _))

lemma plain_of_digit {c : UInt8} (hc : isDigit c = true) : Plain c := by
  rw [isDigit_iff] at hc
  constructor
  · rintro rfl
    revert hc
    decide
  · rintro rfl
    revert hc
    decide

lemma twoDigits_plain {n : ℕ} (hn : n < 100) : ∀ c ∈ twoDigits n, Plain c := by
  have hdigit : ∀ k : Fin 10, Plain (.ofNat (48 + k)) := by decide
  intro c hc
  simp only [twoDigits, List.mem_cons, List.not_mem_nil, or_false] at hc
  rcases hc with rfl | rfl
  · exact hdigit ⟨n / 10, by omega⟩
  · exact hdigit ⟨n % 10, by omega⟩

namespace Tm

lemma clock_plain (tm : Tm) : ∀ c ∈ tm.clock, Plain c := by
  have hhour := twoDigits_plain (show (tm.tmHour : ℕ) < 100 by omega)
  have hmin := twoDigits_plain (show (tm.tmMin : ℕ) < 100 by omega)
  have hsec := twoDigits_plain (show (tm.tmSec : ℕ) < 100 by omega)
  have hcolon : ∀ c ∈ ascii [':'], Plain c := by decide +kernel
  simp only [clock, List.forall_mem_append]
  exact ⟨⟨⟨⟨hhour, hcolon⟩, hmin⟩, hcolon⟩, hsec⟩

lemma zone_plain (tm : Tm) : ∀ c ∈ tm.zone, Plain c := by
  have hlt := tm.zone_lt
  have hsign : ∀ c ∈ ascii [if tm.tmGmtoff < 0 then '-' else '+'], Plain c := by
    split_ifs <;> decide +kernel
  have hhour := twoDigits_plain (show tm.tmGmtoff.natAbs / 3600 < 100 by omega)
  have hmin := twoDigits_plain (show tm.tmGmtoff.natAbs / 60 % 60 < 100 by omega)
  simp only [zone, List.forall_mem_append]
  exact ⟨⟨hsign, hhour⟩, hmin⟩

/-- Nothing in a text ends it early. -/
lemma text_plain (tm : Tm) : ∀ c ∈ tm.text, Plain c := by
  have hweekday : ∀ i : Fin 7, ∀ c ∈ weekday i, Plain c := by decide +kernel
  have hmonth : ∀ i : Fin 12, ∀ c ∈ month i, Plain c := by decide +kernel
  have hday := twoDigits_plain (show (tm.tmMday : ℕ) < 100 by omega)
  have hyear : ∀ c ∈ decimal tm.year, Plain c := fun c hc =>
    plain_of_digit ((decimal_numeral tm.year).digit c hc)
  have hspace : ∀ c ∈ ascii [' '], Plain c := by decide +kernel
  have hcomma : ∀ c ∈ ascii [',', ' '], Plain c := by decide +kernel
  simp only [text, List.forall_mem_append]
  exact ⟨⟨⟨⟨⟨⟨⟨⟨⟨⟨hweekday _, hcomma⟩, hday⟩, hspace⟩, hmonth _⟩, hspace⟩, hyear⟩, hspace⟩,
    tm.clock_plain⟩, hspace⟩, tm.zone_plain⟩

end Tm

lemma line_plain (tm : Tm) : ∀ c ∈ timestampPrefix ++ tm.text, Plain c := by
  have hhead : ∀ c ∈ timestampPrefix, Plain c := by decide +kernel
  rw [List.forall_mem_append]
  exact ⟨hhead, tm.text_plain⟩

lemma line_string (tm : Tm) : ∀ c ∈ timestampPrefix ++ tm.text, decide (c ≠ 0) = true :=
  fun c hc => decide_eq_true (line_plain tm c hc).1

/-- What the timer appends: in memory of any contents, the line that the codec prints. -/
lemma printTimeToFileAt_eq (file : Bytes) (junk : ℕ → UInt8) (tm : Tm) :
    printTimeToFileAt file junk tm = .ok (file ++ stampLine.print tm.stamp) := by
  have hroom := tm.text_length
  have hten : timestampPrefix.length = 10 := rfl
  have hstore : splice (splice (resize junk (TIME_SIZE + 10) []) 0 timestampPrefix)
      (0 + timestampPrefix.length) (tm.text ++ [0]) =
        splice (resize junk (TIME_SIZE + 10) []) 0 (timestampPrefix ++ (tm.text ++ [0])) :=
    splice_append _ (by simp [hten, TIME_SIZE])
  have hstring : (splice (splice (resize junk (TIME_SIZE + 10) []) 0 timestampPrefix) 10
      (tm.text ++ [0])).takeWhile (fun c => c ≠ 0) = timestampPrefix ++ tm.text := by
    rw [hten] at hstore
    rw [hstore, splice, List.take_zero, List.nil_append, ← List.append_assoc, List.append_assoc,
      List.takeWhile_append_of_pos (line_string tm)]
    simp
  rw [printTimeToFileAt, tm.getCurrentTime_eq, stampLine_print]
  dsimp only
  rw [hstring, List.append_assoc, List.append_assoc]

/-- It is the line of the file server. -/
lemma printTimeToFile_text (file : Bytes) (tm : Tm) :
    printTimeToFile file tm.text = file ++ stampLine.print tm.stamp := by
  have hstring := List.takeWhile_eq_self_iff.mpr (line_string tm)
  rw [stampLine_print, ← List.append_assoc]
  exact congrArg (fun line => file ++ line ++ [newline]) hstring

lemma stampLine_count (tm : Tm) : (stampLine.print tm.stamp).count newline = 1 := by
  have hnone : newline ∉ timestampPrefix ++ tm.text := fun h => (line_plain tm newline h).2 rfl
  rw [stampLine_print, List.count_append, List.count_eq_zero_of_not_mem hnone,
    List.count_singleton_self]

/-- The lines of the timer read back. However often it fires, with whatever its memory held,
it appends one line each time, as `printTimeToFile` has it, and from these lines alone come
the times at which it fired, in order, up to the seconds of the zone. -/
theorem timestamps_read_back (file : Bytes) (firings : List (Tm × (ℕ → UInt8))) :
    ∃ log, firings.foldlM (fun file f => printTimeToFileAt file f.2 f.1) file = .ok (file ++ log) ∧
      (firings.map fun f => f.1.text).foldl printTimeToFile file = file ++ log ∧
      stampLine.parseAll firings.length log = some (firings.map fun f => f.1.stamp) ∧
      log.count newline = firings.length := by
  refine ⟨(firings.map fun f => f.1.stamp).flatMap stampLine.print, ?_, ?_, ?_, ?_⟩
  · induction firings generalizing file with
    | nil =>
      rw [List.map_nil, List.flatMap_nil, List.append_nil]
      rfl
    | cons f firings ih =>
      rw [List.foldlM_cons, printTimeToFileAt_eq, List.map_cons, List.flatMap_cons, ← List.append_assoc]
      exact ih _
  · induction firings generalizing file with
    | nil => simp
    | cons f firings ih =>
      rw [List.map_cons, List.map_cons, List.foldl_cons, List.flatMap_cons, ← List.append_assoc,
        ← printTimeToFile_text]
      exact ih _
  · exact stampLine.parseAll_print (print_ne_nil _ rfl) _ (by simp)
  · induction firings with
    | nil => rfl
    | cons f firings ih =>
      rw [List.map_cons, List.flatMap_cons, List.count_append, stampLine_count, ih, List.length_cons,
        Nat.add_comm]

/-- 01 Jun 2016 14:31:46 -0700, a Wednesday. -/
def firstOfJune : Tm :=
  { tmSec := 46, tmMin := 31, tmHour := 14, tmMday := 1, tmMon := 5, tmYear := 116, tmWday := 3
    tmGmtoff := -25200, year_ge := by norm_num, year_lt := by norm_num, zone_lt := by decide }

/-- The next firing of the timer. -/
def tenSecondsOn : Tm := { firstOfJune with tmSec := 56 }

theorem timestamps_read_back_june :
    firstOfJune.getCurrentTime = some (ascii ['W', 'e', 'd', ',', ' ', '0', '1', ' ', 'J', 'u', 'n',
      ' ', '2', '0', '1', '6', ' ', '1', '4', ':', '3', '1', ':', '4', '6', ' ', '-', '0', '7', '0',
      '0']) ∧
    ∃ log, [(firstOfJune, fun _ => 255), (tenSecondsOn, fun _ => 0)].foldlM
        (fun file f => printTimeToFileAt file f.2 f.1) [97, 10] = .ok ([97, 10] ++ log) ∧
      stampLine.parseAll 2 log = some [firstOfJune.stamp, tenSecondsOn.stamp] ∧
      log.count newline = 2 := by
  obtain ⟨log, happend, -, hparse, hcount⟩ :=
    timestamps_read_back [97, 10] [(firstOfJune, fun _ => 255), (tenSecondsOn, fun _ => 0)]
  exact ⟨by decide +kernel, log, happend, hparse, hcount⟩

end Aesd
