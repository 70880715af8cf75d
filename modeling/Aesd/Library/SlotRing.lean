import Mathlib

/-! A ring of `cap` slots holding the newest elements of an unbounded history. The ring
carries its own bounds; its contents are a queue that drops its oldest element when full. -/

variable {α : Type*}

structure SlotRing (α : Type*) (cap : ℕ) where
  slot : ℕ → α
  start : ℕ
  len : ℕ
  start_lt : start < cap
  len_le : len ≤ cap

namespace SlotRing

/-- The slots met by walking `n` steps from `start`. -/
def walk (cap : ℕ) (slot : ℕ → α) (start n : ℕ) : List α :=
  (List.range n).map fun k => slot ((start + k) % cap)

@[simp] lemma walk_length (cap : ℕ) (slot : ℕ → α) (start n : ℕ) :
    (walk cap slot start n).length = n := by
  simp [walk]

@[simp] lemma walk_zero (cap : ℕ) (slot : ℕ → α) (start : ℕ) : walk cap slot start 0 = [] := rfl

lemma walk_getElem (cap : ℕ) (slot : ℕ → α) (start n k : ℕ)
    (h : k < (walk cap slot start n).length) :
    (walk cap slot start n)[k] = slot ((start + k) % cap) := by
  simp [walk]

lemma walk_succ (cap : ℕ) (slot : ℕ → α) (start n : ℕ) :
    walk cap slot start (n + 1) = walk cap slot start n ++ [slot ((start + n) % cap)] := by
  simp [walk, List.range_succ]

lemma walk_cons (cap : ℕ) (slot : ℕ → α) (start n : ℕ) :
    walk cap slot start (n + 1) = slot (start % cap) :: walk cap slot ((start + 1) % cap) n := by
  simp only [walk, List.range_succ_eq_map, List.map_cons, List.map_map, Nat.add_zero]
  congr 1
  apply List.map_congr_left
  intro k _
  simp only [Function.comp_apply, Nat.mod_add_mod]
  congr 2
  omega

lemma walk_congr {cap : ℕ} {slot slot' : ℕ → α} {start n : ℕ}
    (h : ∀ k < n, slot ((start + k) % cap) = slot' ((start + k) % cap)) :
    walk cap slot start n = walk cap slot' start n := by
  apply List.map_congr_left
  intro k hk
  exact h k (List.mem_range.mp hk)

lemma walk_add (cap : ℕ) (slot : ℕ → α) (start m n : ℕ) :
    walk cap slot start (m + n) = walk cap slot start m ++ walk cap slot ((start + m) % cap) n := by
  induction n with
  | zero => simp
  | succ n ih =>
    rw [← Nat.add_assoc, walk_succ, ih, walk_succ, List.append_assoc, Nat.mod_add_mod,
      Nat.add_assoc]

/-- A full turn meets the same slots wherever it starts. -/
lemma walk_turn (slot : ℕ → α) {cap start : ℕ} (h : start < cap) :
    (walk cap slot start cap).Perm (walk cap slot 0 cap) := by
  have hturn : walk cap slot start cap =
      walk cap slot start (cap - start) ++ walk cap slot 0 start := by
    have hsplit := walk_add cap slot start (cap - start) start
    rwa [Nat.sub_add_cancel h.le, Nat.add_sub_cancel' h.le, Nat.mod_self] at hsplit
  have horder : walk cap slot 0 cap = walk cap slot 0 start ++ walk cap slot start (cap - start) := by
    have hsplit := walk_add cap slot 0 start (cap - start)
    rwa [Nat.add_sub_cancel' h.le, Nat.zero_add, Nat.mod_eq_of_lt h] at hsplit
  rw [hturn, horder]
  exact List.perm_append_comm

/-- Fewer than `cap` steps around the ring never come back. -/
lemma index_ne (start : ℕ) {cap j k : ℕ} (hj : j < cap) (hk : k < cap) (h : j ≠ k) :
    (start + j) % cap ≠ (start + k) % cap := by
  intro he
  have hmod : j ≡ k [MOD cap] := Nat.ModEq.add_left_cancel' start he
  exact h (hmod.eq_of_lt_of_lt hj hk)

variable {cap : ℕ}

def contents (r : SlotRing α cap) : List α := walk cap r.slot r.start r.len

/-- Store at the first free slot, or over the oldest element when no slot is free. -/
def push (r : SlotRing α cap) (x : α) : SlotRing α cap :=
  if h : r.len < cap then
    { slot := Function.update r.slot ((r.start + r.len) % cap) x
      start := r.start
      len := r.len + 1
      start_lt := r.start_lt
      len_le := h }
  else
    { slot := Function.update r.slot r.start x
      start := (r.start + 1) % cap
      len := r.len
      start_lt := Nat.mod_lt _ (by have := r.start_lt; omega)
      len_le := r.len_le }

lemma contents_length (r : SlotRing α cap) : r.contents.length = r.len := by
  simp [contents]

lemma contents_push_room (r : SlotRing α cap) (x : α) (h : r.len < cap) :
    (r.push x).contents = r.contents ++ [x] := by
  simp only [push, h, dif_pos, contents, walk_succ]
  congr 1
  · apply walk_congr
    intro k hk
    exact Function.update_of_ne (index_ne _ (by omega) h (by omega)) _ _
  · simp

lemma contents_push_full (r : SlotRing α cap) (x : α) (h : r.len = cap) :
    (r.push x).contents = r.contents.tail ++ [x] := by
  obtain ⟨slot, start, len, hstart, hlen⟩ := r
  simp only at h
  subst len
  obtain ⟨n, rfl⟩ : ∃ n, cap = n + 1 := ⟨cap - 1, by omega⟩
  simp only [push, lt_irrefl, dif_neg, not_false_eq_true, contents]
  rw [walk_succ, walk_cons, List.tail_cons]
  congr 1
  · apply walk_congr
    intro k hk
    have hne : (start + (k + 1)) % (n + 1) ≠ (start + 0) % (n + 1) :=
      index_ne start (by omega) (by omega) (by omega)
    rw [show (start + 0) % (n + 1) = start from Nat.mod_eq_of_lt hstart] at hne
    apply Function.update_of_ne
    rwa [Nat.mod_add_mod, Nat.add_assoc, Nat.add_comm 1 k]
  · have hback : ((start + 1) % (n + 1) + n) % (n + 1) = start := by
      rw [Nat.mod_add_mod, Nat.add_assoc, Nat.add_comm 1 n, Nat.add_mod_right,
        Nat.mod_eq_of_lt hstart]
    simp [hback]

/-- The ring is a queue of the newest `cap` elements. -/
theorem contents_push (r : SlotRing α cap) (x : α) :
    (r.push x).contents = (r.contents ++ [x]).rtake cap := by
  have hl := r.contents_length
  rcases Nat.lt_or_ge r.len cap with h | h
  · rw [contents_push_room r x h, List.rtake]
    simp only [List.length_append, List.length_singleton, hl]
    rw [show r.len + 1 - cap = 0 by omega, List.drop_zero]
  · have hfull : r.len = cap := le_antisymm r.len_le h
    have hpos : 0 < cap := lt_of_le_of_lt (Nat.zero_le _) r.start_lt
    rw [contents_push_full r x hfull, List.rtake]
    simp only [List.length_append, List.length_singleton, hl, hfull]
    rw [show cap + 1 - cap = 1 by omega, List.drop_append_of_le_length (by omega),
      List.drop_one]

/-- Trimming before appending changes nothing that the final trim keeps. -/
lemma rtake_append_rtake (xs ys : List α) : (xs.rtake cap ++ ys).rtake cap = (xs ++ ys).rtake cap := by
  simp only [List.rtake, List.length_append, List.length_drop]
  rw [List.drop_append, List.drop_append, List.drop_drop, List.length_drop]
  congr 2 <;> omega

/-- What trimming before and after appending drops, trimming once drops. -/
lemma rdrop_append_rtake (xs ys : List α) :
    xs.rdrop cap ++ (xs.rtake cap ++ ys).rdrop cap = (xs ++ ys).rdrop cap := by
  have hsplit : xs ++ ys = xs.take (xs.length - cap) ++ (xs.drop (xs.length - cap) ++ ys) := by
    rw [← List.append_assoc, List.take_append_drop]
  have htake : (xs.take (xs.length - cap)).length = xs.length - cap := by
    rw [List.length_take]
    omega
  have hcount : (xs ++ ys).length - cap =
      (xs.take (xs.length - cap)).length + ((xs.drop (xs.length - cap) ++ ys).length - cap) := by
    rw [htake, List.length_append, List.length_append, List.length_drop]
    omega
  rw [List.rdrop, List.rdrop, List.rdrop, List.rtake, hcount, hsplit, List.take_length_add_append]

end SlotRing
