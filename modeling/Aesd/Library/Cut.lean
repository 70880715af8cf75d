import Mathlib

/-! Cutting a stream that arrives in chunks. The open piece is closed after every chunk
that `closes`; `cut` returns the closed pieces and the piece still open at the end. -/
namespace Cut

variable {α : Type*}

/-- Accumulate chunks behind the open piece `acc`, closing it after each chunk that closes. -/
def cut (closes : List α → Bool) : List α → List (List α) → List (List α) × List α
  | acc, [] => ([], acc)
  | acc, c :: cs =>
    if closes c then
      let r := cut closes [] cs
      ((acc ++ c) :: r.1, r.2)
    else cut closes (acc ++ c) cs

variable {closes : List α → Bool}

@[simp] lemma cut_nil (acc : List α) : cut closes acc [] = ([], acc) := rfl

lemma cut_cons_closed {acc c : List α} {cs : List (List α)} (h : closes c = true) :
    cut closes acc (c :: cs) = ((acc ++ c) :: (cut closes [] cs).1, (cut closes [] cs).2) := by
  simp [cut, h]

lemma cut_cons_open {acc c : List α} {cs : List (List α)} (h : closes c = false) :
    cut closes acc (c :: cs) = cut closes (acc ++ c) cs := by
  simp [cut, h]

/-- Nothing is lost, repeated or moved: the pieces and the open rest are the stream. -/
theorem cut_flatten (acc : List α) (cs : List (List α)) :
    (cut closes acc cs).1.flatten ++ (cut closes acc cs).2 = acc ++ cs.flatten := by
  induction cs generalizing acc with
  | nil => simp
  | cons c cs ih =>
    cases h : closes c with
    | true => simp [cut_cons_closed h, ih]
    | false => simp [cut_cons_open h, ih]

lemma cut_append (acc : List α) (cs ds : List (List α)) :
    cut closes acc (cs ++ ds) =
      ((cut closes acc cs).1 ++ (cut closes (cut closes acc cs).2 ds).1,
        (cut closes (cut closes acc cs).2 ds).2) := by
  induction cs generalizing acc with
  | nil => simp
  | cons c cs ih =>
    cases h : closes c with
    | true => simp [cut_cons_closed h, ih]
    | false => simp [cut_cons_open h, ih]

lemma cut_count (acc : List α) (cs : List (List α)) :
    (cut closes acc cs).1.length = cs.countP closes := by
  induction cs generalizing acc with
  | nil => simp
  | cons c cs ih =>
    cases h : closes c with
    | true => simp [cut_cons_closed h, ih, h]
    | false => simp [cut_cons_open h, ih, h]

/-- A map that keeps concatenation and closing keeps the cut. -/
lemma cut_map {β : Type*} {closes' : List β → Bool} {f : List α → List β}
    (hf : ∀ c d, f (c ++ d) = f c ++ f d) (hnil : f [] = []) {cs : List (List α)}
    (hc : ∀ c ∈ cs, closes' (f c) = closes c) (acc : List α) :
    cut closes' (f acc) (cs.map f) = ((cut closes acc cs).1.map f, f (cut closes acc cs).2) := by
  induction cs generalizing acc with
  | nil => rfl
  | cons c cs ih =>
    have hrest : ∀ c ∈ cs, closes' (f c) = closes c := fun d hd => hc d (by simp [hd])
    have hfirst := hc c (by simp)
    cases h : closes c with
    | true =>
      have hlater := ih hrest []
      rw [hnil] at hlater
      rw [List.map_cons, cut_cons_closed (hfirst.trans h), cut_cons_closed h, hlater, List.map_cons,
        hf]
    | false => rw [List.map_cons, cut_cons_open (hfirst.trans h), cut_cons_open h, ← hf, ih hrest]

/-- Positions in the stream, counted from `n`, at which closing chunks end. -/
def closingEnds (closes : List α → Bool) : ℕ → List (List α) → List ℕ
  | _, [] => []
  | n, c :: cs =>
    if closes c then (n + c.length) :: closingEnds closes (n + c.length) cs
    else closingEnds closes (n + c.length) cs

/-- Slice a stream at absolute positions, the open piece starting at `b`. -/
def slices (s : List α) : ℕ → List ℕ → List (List α) × List α
  | b, [] => ([], s.drop b)
  | b, e :: es => (((s.drop b).take (e - b)) :: (slices s e es).1, (slices s e es).2)

lemma cut_eq_slices (done acc : List α) (cs : List (List α)) :
    cut closes acc cs = slices (done ++ acc ++ cs.flatten) done.length
      (closingEnds closes (done.length + acc.length) cs) := by
  induction cs generalizing done acc with
  | nil => simp [closingEnds, slices]
  | cons c cs ih =>
    cases h : closes c with
    | true =>
      have hrest := ih (done ++ acc ++ c) []
      simp only [List.append_nil, List.length_append, List.length_nil, Nat.add_zero] at hrest
      simp only [cut_cons_closed h, closingEnds, h, if_true, slices, List.flatten_cons]
      rw [hrest]
      simp [List.take_append, Nat.add_assoc]
    | false =>
      rw [cut_cons_open h, ih done (acc ++ c)]
      simp [closingEnds, h, Nat.add_assoc]

lemma closingEnds_length (n : ℕ) (cs : List (List α)) :
    (closingEnds closes n cs).length = cs.countP closes := by
  induction cs generalizing n with
  | nil => rfl
  | cons c cs ih => cases h : closes c <;> simp [closingEnds, h, ih]

lemma closingEnds_shift (n : ℕ) (cs : List (List α)) :
    closingEnds closes n cs = (closingEnds closes 0 cs).map (n + ·) := by
  induction cs generalizing n with
  | nil => rfl
  | cons c cs ih =>
    cases h : closes c <;>
      simp [closingEnds, h, ih (n + c.length), ih c.length, Nat.add_assoc]

/-- A cut depends only on the stream and on where its closing chunks end. -/
theorem cut_congr {cs ds : List (List α)} (acc : List α) (hs : cs.flatten = ds.flatten)
    (he : closingEnds closes 0 cs = closingEnds closes 0 ds) :
    cut closes acc cs = cut closes acc ds := by
  rw [cut_eq_slices [] acc cs, cut_eq_slices [] acc ds, hs, closingEnds_shift, he,
    ← closingEnds_shift]

/-- The closed pieces reach to the end of the last chunk that closes. -/
lemma cut_reach (acc : List α) (cs : List (List α)) :
    (cut closes acc cs).1.flatten.length = (closingEnds closes acc.length cs).getLastD 0 := by
  induction cs generalizing acc with
  | nil => rfl
  | cons c cs ih =>
    cases h : closes c with
    | true =>
      have hrest := ih []
      simp only [List.length_nil] at hrest
      rw [cut_cons_closed h, List.flatten_cons, List.length_append, hrest, closingEnds, h,
        if_pos rfl, closingEnds_shift (acc.length + c.length), List.getLastD_cons,
        List.getLastD_eq_getLast?, List.getLastD_eq_getLast?, List.getLast?_map]
      cases (closingEnds closes 0 cs).getLast? <;> simp
    | false =>
      rw [cut_cons_open h, ih]
      simp [closingEnds, h]

variable (closes)

/-- What has been closed, and what is still open, of a stream cut from its start. -/
theorem cut_take_drop (cs : List (List α)) :
    (cut closes [] cs).1.flatten = cs.flatten.take ((closingEnds closes 0 cs).getLastD 0) ∧
      (cut closes [] cs).2 = cs.flatten.drop ((closingEnds closes 0 cs).getLastD 0) := by
  have hsplit : (cut closes [] cs).1.flatten ++ (cut closes [] cs).2 = cs.flatten :=
    cut_flatten [] cs
  have hreach : (cut closes [] cs).1.flatten.length = (closingEnds closes 0 cs).getLastD 0 :=
    cut_reach [] cs
  rw [← hsplit, ← hreach, List.take_left, List.drop_left]
  exact ⟨rfl, rfl⟩

lemma closingEnds_getLastD_le (cs : List (List α)) :
    (closingEnds closes 0 cs).getLastD 0 ≤ cs.flatten.length := by
  have hsplit := congrArg List.length (@cut_flatten _ closes [] cs)
  have hreach := @cut_reach _ closes [] cs
  simp only [List.length_append, List.length_nil, Nat.zero_add] at hsplit hreach
  omega

section Groups

variable {β : Type*} (closing : α → Bool) (author : α → β)

/-- Cut a list behind every element that closes. -/
def groups (acc xs : List α) : List (List α) × List α :=
  cut (fun c => c.any closing) acc (xs.map fun x => [x])

variable {closing}

lemma groups_closed {x : α} (hx : closing x = true) (acc xs : List α) :
    groups closing acc (x :: xs) =
      ((acc ++ [x]) :: (groups closing [] xs).1, (groups closing [] xs).2) := by
  rw [groups, List.map_cons, cut_cons_closed (by simpa using hx)]
  rfl

lemma groups_open {x : α} (hx : closing x = false) (acc xs : List α) :
    groups closing acc (x :: xs) = groups closing (acc ++ [x]) xs := by
  rw [groups, List.map_cons, cut_cons_open (by simpa using hx)]
  rfl

lemma groups_flatten (xs : List α) :
    (groups closing [] xs).1.flatten ++ (groups closing [] xs).2 = xs := by
  have h := @cut_flatten _ (fun c => c.any closing) [] (xs.map fun x => [x])
  rwa [List.nil_append, ← List.flatMap_def, List.flatMap_singleton'] at h

variable (closing)

/-- An element that does not close is followed by one of its own author, unless no element
closes any more. -/
def Uninterrupted : List α → Prop
  | [] => True
  | x :: xs => (closing x = false → xs.any closing = true → ∀ y ∈ xs.head?, author y = author x) ∧
      Uninterrupted xs

/-- All elements have one author. -/
def Uniform (xs : List α) : Prop := ∃ b, ∀ x ∈ xs, author x = b

variable {closing author}

lemma uniform_cons {x : α} {xs : List α} :
    Uniform author (x :: xs) ↔ Uniform author xs ∧ ∀ y ∈ xs.head?, author y = author x := by
  constructor
  · rintro ⟨b, hb⟩
    refine ⟨⟨b, fun y hy => hb y (by simp [hy])⟩, fun y hy => ?_⟩
    rw [hb y (List.mem_cons_of_mem x (List.mem_of_mem_head? hy)), hb x (by simp)]
  · rintro ⟨⟨b, hb⟩, hhead⟩
    cases xs with
    | nil => exact ⟨author x, by simp⟩
    | cons y ys =>
      have hxy : author y = author x := hhead y rfl
      refine ⟨b, fun z hz => ?_⟩
      rcases List.mem_cons.mp hz with rfl | hz
      · exact hxy ▸ hb y (by simp)
      · exact hb z hz

/-- Up to the first element that closes all must be by its author. -/
lemma uninterrupted_append {acc : List α} (hacc : ∀ y ∈ acc, closing y = false) {x : α}
    (hx : closing x = true) (xs : List α) :
    Uninterrupted closing author (acc ++ x :: xs) ↔
      Uniform author (acc ++ [x]) ∧ Uninterrupted closing author xs := by
  induction acc with
  | nil =>
    have hone : Uniform author [x] := ⟨author x, by simp⟩
    simp [Uninterrupted, hx, hone]
  | cons y acc ih =>
    have hlater : (acc ++ x :: xs).any closing = true := by simp [hx]
    have hhead : (acc ++ x :: xs).head? = (acc ++ [x]).head? := by cases acc <;> rfl
    have hy : closing y = false := hacc y (by simp)
    rw [List.cons_append, List.cons_append, Uninterrupted, hhead, uniform_cons,
      ih fun z hz => hacc z (by simp [hz]), forall_prop_of_true hy, forall_prop_of_true hlater]
    tauto

/-- The groups have one author each just when no author is interrupted. -/
theorem groups_uniform_iff {acc : List α} (hacc : ∀ y ∈ acc, closing y = false) (xs : List α) :
    (∀ g ∈ (groups closing acc xs).1, Uniform author g) ↔
      Uninterrupted closing author (acc ++ xs) := by
  induction xs generalizing acc with
  | nil =>
    have hopen : Uninterrupted closing author acc := by
      induction acc with
      | nil => trivial
      | cons y acc ih =>
        have hrest : ∀ z ∈ acc, closing z = false := fun z hz => hacc z (by simp [hz])
        refine ⟨fun _ hlater => ?_, ih hrest⟩
        obtain ⟨z, hz, hclosing⟩ := List.any_eq_true.mp hlater
        rw [hrest z hz] at hclosing
        exact absurd hclosing (by simp)
    simpa [groups] using hopen
  | cons x xs ih =>
    cases hx : closing x with
    | true =>
      have hlater := @ih [] (by simp)
      rw [groups_closed hx, uninterrupted_append hacc hx, List.forall_mem_cons, hlater,
        List.nil_append]
    | false =>
      have hmore : ∀ y ∈ acc ++ [x], closing y = false := by
        intro y hy
        rcases List.mem_append.mp hy with hy | hy
        · exact hacc y hy
        · rw [List.mem_singleton.mp hy, hx]
      rw [groups_open hx, ih hmore, List.append_assoc, List.singleton_append]

end Groups

section Delimiter

variable [DecidableEq α] (d : α)

/-- A chunk closes when it contains the delimiter. -/
def has (c : List α) : Bool := decide (d ∈ c)

lemma rest_free {acc : List α} (cs : List (List α)) (h : d ∉ acc) :
    d ∉ (cut (has d) acc cs).2 := by
  induction cs generalizing acc with
  | nil => exact h
  | cons c cs ih =>
    cases hc : has d c with
    | true =>
      rw [cut_cons_closed hc]
      exact ih (by simp)
    | false =>
      rw [cut_cons_open hc]
      have hd : d ∉ c := by simpa [has] using hc
      exact ih (by simp [h, hd])

/-- Cut a stream behind every delimiter. -/
def lines (acc s : List α) : List (List α) × List α := cut (has d) acc (s.map fun x => [x])

/-- The delimiter occurs in the chunk at most as its last element. -/
def Final (c : List α) : Prop := d ∈ c → ∃ body, d ∉ body ∧ c = body ++ [d]

lemma lines_free {c : List α} (acc : List α) (h : d ∉ c) : lines d acc c = ([], acc ++ c) := by
  induction c generalizing acc with
  | nil => simp [lines]
  | cons x c ih =>
    simp only [List.mem_cons, not_or] at h
    have hx : has d [x] = false := by simp [has, h.1]
    have hrest := ih (acc ++ [x]) h.2
    simp only [lines] at hrest
    simp [lines, cut_cons_open hx, hrest]

lemma lines_append (acc s t : List α) :
    lines d acc (s ++ t) =
      ((lines d acc s).1 ++ (lines d (lines d acc s).2 t).1,
        (lines d (lines d acc s).2 t).2) := by
  simp [lines, cut_append]

lemma lines_line {body : List α} (acc : List α) (h : d ∉ body) :
    lines d acc (body ++ [d]) = ([acc ++ body ++ [d]], []) := by
  have hd : has d [d] = true := by simp [has]
  rw [lines_append, lines_free d acc h]
  simp [lines, cut_cons_closed hd]

/-- When every delimiter ends its chunk, the chunk boundaries do not matter. -/
theorem cut_eq_lines {cs : List (List α)} (acc : List α) (h : ∀ c ∈ cs, Final d c) :
    cut (has d) acc cs = lines d acc cs.flatten := by
  induction cs generalizing acc with
  | nil => simp [lines]
  | cons c cs ih =>
    have ht : ∀ e ∈ cs, Final d e := fun e he => h e (by simp [he])
    rw [List.flatten_cons, lines_append]
    by_cases hc : d ∈ c
    · obtain ⟨body, hb, rfl⟩ := h c (by simp) hc
      rw [cut_cons_closed (by simp [has]), lines_line d acc hb, ih [] ht]
      simp
    · rw [cut_cons_open (by simpa [has] using hc), lines_free d acc hc, ih (acc ++ c) ht]
      simp

/-- Each line ends in its only delimiter. -/
theorem lines_shape {acc s l : List α} (ha : d ∉ acc) (hl : l ∈ (lines d acc s).1) :
    ∃ body, d ∉ body ∧ l = body ++ [d] := by
  induction s generalizing acc with
  | nil => simp [lines] at hl
  | cons x s ih =>
    by_cases hx : d = x
    · subst hx
      rw [show d :: s = [] ++ [d] ++ s by simp, lines_append, lines_line d acc (by simp)] at hl
      simp only [List.append_nil, List.cons_append, List.nil_append, List.mem_cons] at hl
      rcases hl with rfl | hl
      · exact ⟨acc, ha, rfl⟩
      · exact ih (by simp) hl
    · have hf : d ∉ [x] := by simp [hx]
      rw [show x :: s = [x] ++ s by simp, lines_append, lines_free d acc hf] at hl
      exact ih (by simp [ha, hx]) hl

lemma lines_count (acc s : List α) : (lines d acc s).1.length = s.count d := by
  simp only [lines, cut_count, List.countP_map, List.count]
  congr 1
  funext x
  simp [has, eq_comm, beq_eq_decide]

end Delimiter

end Cut
