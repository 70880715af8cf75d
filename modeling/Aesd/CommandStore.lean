import Aesd.Kernel
import Aesd.Library.Cut
import Aesd.Library.Memory
import Aesd.Library.SlotRing

/-! What the device is for: it remembers the ten newest commands and the bytes of the one
still being written. A write that contains a line feed closes the command. -/
namespace Aesd
open Cut Memory

@[ext] structure CommandStore where
  commands : List Bytes
  pending : Bytes
  deriving DecidableEq, Repr

namespace CommandStore

def empty : CommandStore := ⟨[], []⟩

def write (s : CommandStore) (buf : Bytes) : CommandStore :=
  if newline ∈ buf then ⟨(s.commands ++ [s.pending ++ buf]).rtake 10, []⟩
  else ⟨s.commands, s.pending ++ buf⟩

/-- All retained bytes, oldest command first. -/
def contents (s : CommandStore) : Bytes := s.commands.flatten

lemma write_closed (s : CommandStore) {buf : Bytes} (h : newline ∈ buf) :
    s.write buf = ⟨(s.commands ++ [s.pending ++ buf]).rtake 10, []⟩ := if_pos h

lemma write_open (s : CommandStore) {buf : Bytes} (h : newline ∉ buf) :
    s.write buf = ⟨s.commands, s.pending ++ buf⟩ := if_neg h

/-- A write that closes a command adds it, and drops old commands at most. -/
lemma write_closed_length (s : CommandStore) {buf : Bytes} (h : newline ∈ buf) :
    buf.length ≤ (s.write buf).contents.length ∧
      (s.write buf).contents.length ≤ s.contents.length + s.pending.length + buf.length := by
  have hdrop : (s.commands ++ [s.pending ++ buf]).rtake 10 =
      s.commands.drop (s.commands.length + 1 - 10) ++ [s.pending ++ buf] := by
    rw [List.rtake, List.length_append, List.length_singleton,
      List.drop_append_of_le_length (by omega)]
  have hle : (s.commands.drop (s.commands.length + 1 - 10)).flatten.length ≤
      s.commands.flatten.length :=
    ((List.drop_sublist _ s.commands).flatten).length_le
  rw [write_closed s h, contents, contents, hdrop, List.flatten_append, List.length_append]
  simp only [List.flatten_cons, List.flatten_nil, List.append_nil, List.length_append]
  omega

/-- A history of writes keeps the ten newest pieces of the stream cut behind every write
that holds a line feed, and the piece still open. -/
theorem foldl_write (s : CommandStore) (h : s.commands.length ≤ 10) (bufs : List Bytes) :
    bufs.foldl write s =
      ⟨(s.commands ++ (cut (has newline) s.pending bufs).1).rtake 10,
        (cut (has newline) s.pending bufs).2⟩ := by
  induction bufs generalizing s with
  | nil => simp [List.rtake, Nat.sub_eq_zero_of_le h]
  | cons buf bufs ih =>
    rw [List.foldl_cons]
    by_cases hb : newline ∈ buf
    · have hlen : ((s.commands ++ [s.pending ++ buf]).rtake 10).length ≤ 10 := by
        simp only [List.rtake, List.length_drop]
        omega
      have hc : has newline buf = true := by simpa [has] using hb
      rw [write_closed s hb, ih _ hlen, cut_cons_closed hc]
      simp only [SlotRing.rtake_append_rtake, List.append_assoc, List.singleton_append]
    · have hc : has newline buf = false := by simpa [has] using hb
      rw [write_open s hb, ih ⟨s.commands, s.pending ++ buf⟩ h, cut_cons_open hc]

/-- How many bytes a read of at most `count` gets at `pos`: reads stop at the end of a command. -/
def readLength (s : CommandStore) (pos count : ℕ) : ℕ :=
  match locate (s.commands.map List.length) pos with
  | none => 0
  | some (i, k) => min count ((s.commands[i]?.getD []).length - k)

lemma contents_length (s : CommandStore) :
    s.contents.length = (s.commands.map List.length).sum := by
  rw [contents, List.length_flatten]

lemma readLength_past {s : CommandStore} {pos : ℕ} (h : s.contents.length ≤ pos) (count : ℕ) :
    s.readLength pos count = 0 := by
  rw [contents_length] at h
  rw [readLength, locate_eq_none.mpr h]

/-- A position before the end lies in a command, and a read gets what is left of it. -/
lemma readLength_within {s : CommandStore} {pos : ℕ} (h : pos < s.contents.length) (count : ℕ) :
    ∃ older command newer, s.commands = older ++ command :: newer ∧
      older.flatten.length ≤ pos ∧ pos < older.flatten.length + command.length ∧
      s.readLength pos count = min count (older.flatten.length + command.length - pos) := by
  rw [contents_length] at h
  cases hl : locate (s.commands.map List.length) pos with
  | none => exact absurd (locate_eq_none.mp hl) (by omega)
  | some p =>
    obtain ⟨i, k⟩ := p
    obtain ⟨hi, hk, hsum⟩ := locate_spec hl
    rw [List.length_map] at hi
    rw [List.getElem_map] at hk
    rw [← List.map_take, ← List.length_flatten] at hsum
    refine ⟨s.commands.take i, s.commands[i], s.commands.drop (i + 1), ?_, by omega, by omega, ?_⟩
    · rw [← List.drop_eq_getElem_cons hi, List.take_append_drop]
    · rw [readLength, hl]
      simp only [List.getElem?_eq_getElem hi, Option.getD_some]
      omega

lemma readLength_le (s : CommandStore) {pos : ℕ} (h : pos ≤ s.contents.length) (count : ℕ) :
    pos + s.readLength pos count ≤ s.contents.length := by
  rcases h.lt_or_eq with hlt | rfl
  · obtain ⟨older, command, newer, hs, -, -, hn⟩ := readLength_within hlt count
    have hlen : s.contents.length =
        older.flatten.length + (command.length + newer.flatten.length) := by
      simp [contents, hs]
    omega
  · rw [readLength_past le_rfl, Nat.add_zero]

lemma readLength_pos {s : CommandStore} {pos count : ℕ} (h : pos < s.contents.length)
    (hc : 0 < count) : 0 < s.readLength pos count := by
  obtain ⟨older, command, newer, -, -, hin, hn⟩ := readLength_within h count
  omega

end CommandStore

end Aesd
