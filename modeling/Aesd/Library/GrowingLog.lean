import Mathlib

/-! Reading a log while others append to it, piece by piece, each piece from where the last
one ended. What has been read is always a beginning of the log, and it is all of it at the
instant of a read that finds nothing more. -/
namespace GrowingLog

variable {α : Type*} {log got : List α}

/-- What a read of at most `n` cells behind the ones already read finds. -/
def piece (log got : List α) (n : ℕ) : List α := (log.drop got.length).take n

lemma piece_prefix (h : got <+: log) (n : ℕ) : got ++ piece log got n <+: log := by
  obtain ⟨rest, rfl⟩ := h
  rw [piece, List.drop_left, List.prefix_append_right_inj]
  exact List.take_prefix n rest

/-- Appending does not take back what has been read. -/
lemma prefix_append (h : got <+: log) (more : List α) : got <+: log ++ more :=
  h.trans (List.prefix_append log more)

lemma eq_of_piece_nil {n : ℕ} (h : got <+: log) (hn : 0 < n) (hnil : piece log got n = []) :
    got = log := by
  obtain ⟨rest, rfl⟩ := h
  rw [piece, List.drop_left, List.take_eq_nil_iff] at hnil
  rw [hnil.resolve_left (by omega), List.append_nil]

end GrowingLog
