import Mathlib

/-! Contiguous memory as lists: resizing an allocation, storing a run of cells into it,
and finding the cell that a position in the concatenation of several runs falls on. -/
namespace Memory

variable {α : Type*}

/-- Reallocate to `n` cells. Cells that did not exist before hold whatever `junk` says. -/
def resize (junk : ℕ → α) (n : ℕ) (xs : List α) : List α :=
  (List.range n).map fun i => xs[i]?.getD (junk i)

@[simp] lemma resize_length (junk : ℕ → α) (n : ℕ) (xs : List α) :
    (resize junk n xs).length = n := by
  simp [resize]

lemma resize_take (junk : ℕ → α) {n k : ℕ} {xs : List α} (hn : k ≤ n) (hx : k ≤ xs.length) :
    (resize junk n xs).take k = xs.take k := by
  apply List.ext_getElem
  · simp [hn, hx]
  · intro i hi _
    simp only [List.length_take, resize_length] at hi
    have hlt : i < xs.length := by omega
    simp [resize, List.getElem_take, hlt]

/-- Store `ys` over the cells from `off` on. -/
def splice (xs : List α) (off : ℕ) (ys : List α) : List α :=
  xs.take off ++ ys ++ xs.drop (off + ys.length)

lemma splice_length {xs ys : List α} {off : ℕ} (h : off + ys.length ≤ xs.length) :
    (splice xs off ys).length = xs.length := by
  simp only [splice, List.length_append, List.length_take, List.length_drop]
  omega

@[simp] lemma splice_nil (xs : List α) (off : ℕ) : splice xs off [] = xs := by
  simp [splice]

lemma splice_take {xs : List α} {off k : ℕ} (ys : List α) (hk : k ≤ off) (hx : off ≤ xs.length) :
    (splice xs off ys).take k = xs.take k := by
  rw [splice, List.append_assoc, List.take_append_of_le_length (by simp; omega), List.take_take,
    min_eq_left hk]

/-- The cells up to the end of a store are the old cells before it and the stored run. -/
lemma splice_take_end {xs ys : List α} {off : ℕ} (h : off ≤ xs.length) :
    (splice xs off ys).take (off + ys.length) = xs.take off ++ ys := by
  have hl : (xs.take off ++ ys).length = off + ys.length := by simp [h]
  rw [splice, List.take_append_of_le_length hl.ge, List.take_of_length_le hl.le]

/-- The run just stored is what a read of the same cells returns. -/
lemma splice_read {xs ys : List α} {off : ℕ} (h : off ≤ xs.length) :
    ((splice xs off ys).drop off).take ys.length = ys := by
  have hd : (xs.take off).length = off := by simp [h]
  rw [splice, List.append_assoc, List.drop_append_of_le_length hd.ge,
    List.drop_of_length_le hd.le]
  simp

/-- Storing a run and then another one behind it is storing both at once. -/
lemma splice_append {xs ys : List α} (zs : List α) {off : ℕ} (h : off + ys.length ≤ xs.length) :
    splice (splice xs off ys) (off + ys.length) zs = splice xs off (ys ++ zs) := by
  have hl : (xs.take off ++ ys).length = off + ys.length := by
    simp only [List.length_append, List.length_take]
    omega
  have hrest : (xs.take off ++ ys ++ xs.drop (off + ys.length)).drop
      (off + ys.length + zs.length) = xs.drop (off + (ys ++ zs).length) := by
    have hnone : (xs.take off ++ ys).drop (off + ys.length + zs.length) = [] :=
      List.drop_of_length_le (by omega)
    rw [List.drop_append, hnone, List.nil_append, hl, List.drop_drop, List.length_append]
    congr 1
    omega
  simp only [splice]
  rw [List.take_append_of_le_length hl.ge, List.take_of_length_le hl.le, hrest]
  simp

lemma splice_singleton {xs : List α} {off : ℕ} (y : α) (h : off < xs.length) :
    splice xs off [y] = xs.set off y := by
  rw [List.set_eq_take_append_cons_drop, if_pos h, splice]
  simp

/-- A store leaves a run of cells that it does not reach as it was. -/
lemma splice_window {xs ys : List α} {off start n : ℕ} (h : off + ys.length ≤ xs.length)
    (hapart : start + n ≤ off ∨ off + ys.length ≤ start) :
    ((splice xs off ys).drop start).take n = (xs.drop start).take n := by
  rcases hapart with hbefore | hbehind
  · have hkeep := splice_take ys hbefore (show off ≤ xs.length by omega)
    rw [List.take_drop, List.take_drop, hkeep]
  · have hfront : (xs.take off ++ ys).length = off + ys.length := by
      rw [List.length_append, List.length_take, min_eq_left (by omega)]
    rw [splice, List.drop_append, List.drop_of_length_le (by omega), hfront, List.nil_append,
      List.drop_drop, show off + ys.length + (start - (off + ys.length)) = start by omega]

/-- Which of several runs a position in their concatenation falls on, and where in it. -/
def locate : List ℕ → ℕ → Option (ℕ × ℕ)
  | [], _ => none
  | n :: ns, pos =>
    if pos < n then some (0, pos) else (locate ns (pos - n)).map fun p => (p.1 + 1, p.2)

lemma locate_eq_none {ns : List ℕ} {pos : ℕ} : locate ns pos = none ↔ ns.sum ≤ pos := by
  induction ns generalizing pos with
  | nil => simp [locate]
  | cons n ns ih =>
    simp only [locate, List.sum_cons]
    split_ifs with h
    · simp
      omega
    · rw [Option.map_eq_none_iff, ih]
      omega

/-- The run found, and the offset in it, add up to the position sought. -/
theorem locate_spec {ns : List ℕ} {pos i k : ℕ} (h : locate ns pos = some (i, k)) :
    ∃ hi : i < ns.length, k < ns[i] ∧ (ns.take i).sum + k = pos := by
  induction ns generalizing pos i with
  | nil => simp [locate] at h
  | cons n ns ih =>
    simp only [locate] at h
    split_ifs at h with hp
    · simp only [Option.some.injEq, Prod.mk.injEq] at h
      obtain ⟨rfl, rfl⟩ := h
      exact ⟨by simp, hp, by simp⟩
    · rw [Option.map_eq_some_iff] at h
      obtain ⟨⟨j, k'⟩, hj, he⟩ := h
      simp only [Prod.mk.injEq] at he
      obtain ⟨rfl, rfl⟩ := he
      obtain ⟨hi, hk, hs⟩ := ih hj
      refine ⟨by simpa using hi, by simpa using hk, ?_⟩
      simp only [List.take_succ_cons, List.sum_cons]
      omega

/-- No other run, and no other offset, adds up to the position. -/
lemma locate_of_sum {ns : List ℕ} {i k : ℕ} (hi : i < ns.length) (hk : k < ns[i]) :
    locate ns ((ns.take i).sum + k) = some (i, k) := by
  induction ns generalizing i with
  | nil => simp at hi
  | cons n ns ih =>
    cases i with
    | zero => simpa [locate] using hk
    | succ i =>
      have hlater := ih (Nat.lt_of_succ_lt_succ hi) (by simpa using hk)
      rw [List.take_succ_cons, List.sum_cons, locate, if_neg (by omega),
        show n + (ns.take i).sum + k - n = (ns.take i).sum + k by omega, hlater]
      rfl

/-- What is left of the run found is no more than what is left of all runs. -/
lemma locate_left {ns : List ℕ} {pos i k : ℕ} (h : locate ns pos = some (i, k)) :
    pos + (ns[i]?.getD 0 - k) ≤ ns.sum := by
  obtain ⟨hi, hk, hsum⟩ := locate_spec h
  have hsplit := List.sum_take_add_sum_drop ns i
  rw [List.drop_eq_getElem_cons hi, List.sum_cons] at hsplit
  rw [List.getElem?_eq_getElem hi, Option.getD_some]
  omega

/-- What follows a located position is the rest of its run and then the later runs. -/
theorem drop_flatten_locate {xss : List (List α)} {pos i k : ℕ}
    (h : locate (xss.map List.length) pos = some (i, k)) :
    xss.flatten.drop pos = (xss[i]?.getD []).drop k ++ (xss.drop (i + 1)).flatten := by
  induction xss generalizing pos i with
  | nil => simp [locate] at h
  | cons xs xss ih =>
    simp only [List.map_cons, locate] at h
    split_ifs at h with hp
    · simp only [Option.some.injEq, Prod.mk.injEq] at h
      obtain ⟨rfl, rfl⟩ := h
      simp [List.drop_append, Nat.sub_eq_zero_of_le hp.le]
    · rw [Option.map_eq_some_iff] at h
      obtain ⟨⟨j, k'⟩, hj, he⟩ := h
      simp only [Prod.mk.injEq] at he
      obtain ⟨rfl, rfl⟩ := he
      have hle : xs.length ≤ pos := by omega
      simp [List.drop_append, List.drop_of_length_le hle, ih hj]

end Memory
