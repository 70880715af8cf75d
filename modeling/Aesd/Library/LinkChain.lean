import Mathlib

/-! Chains of linked cells with a head. A cell points to the next cell and back to the link
that points to it, which is the head's or the one inside the cell before. A segment of a
chain can be split, joined, and given another end or another beginning. -/

/-- A place that holds a pointer to a cell. -/
inductive Link
  | head
  | next (n : ℕ)
  deriving DecidableEq, Repr

structure Cell where
  next : Option ℕ
  prev : Link
  deriving DecidableEq, Repr

/-- The head's two fields, and the cells that are allocated. -/
structure LinkChain where
  first : Option ℕ
  last : Link
  cell : ℕ → Option Cell

namespace LinkChain

/-- Write to a field of a cell, if there is such a cell. -/
def modify (q : LinkChain) (n : ℕ) (f : Cell → Cell) : Option LinkChain :=
  (q.cell n).map fun c => { q with cell := Function.update q.cell n (some (f c)) }

def setNext (q : LinkChain) (n : ℕ) (v : Option ℕ) : Option LinkChain :=
  q.modify n fun c => { c with next := v }

def setPrev (q : LinkChain) (n : ℕ) (l : Link) : Option LinkChain :=
  q.modify n fun c => { c with prev := l }

/-- Write through a pointer to a link. -/
def store (q : LinkChain) (l : Link) (v : Option ℕ) : Option LinkChain :=
  match l with
  | .head => some { q with first := v }
  | .next n => q.setNext n v

/-- The link behind the cells `ns` when `l` is the one before them. -/
def endFrom (l : Link) : List ℕ → Link
  | [] => l
  | n :: ns => endFrom (.next n) ns

/-- From the link `l` through the cells `ns` the links lead to `e`. -/
def Seg (cell : ℕ → Option Cell) (l : Link) : List ℕ → Option ℕ → Prop
  | [], _ => True
  | n :: ns, e => cell n = some ⟨ns.head?.or e, l⟩ ∧ Seg cell (.next n) ns e

/-- From the head through the cells `ns` the links lead to `e`. -/
structure Leads (q : LinkChain) (ns : List ℕ) (e : Option ℕ) : Prop where
  first : q.first = ns.head?.or e
  seg : Seg q.cell .head ns e

/-- The chain links exactly the cells `ns`, in this order. -/
structure Linked (q : LinkChain) (ns : List ℕ) : Prop where
  nodup : ns.Nodup
  leads : q.Leads ns none

section Segments

variable {cell cell' : ℕ → Option Cell} {l l' : Link} {ns ms : List ℕ} {e : Option ℕ} {n : ℕ}

@[simp] lemma endFrom_append : endFrom l (ns ++ ms) = endFrom (endFrom l ns) ms := by
  induction ns generalizing l with
  | nil => rfl
  | cons n ns ih => exact ih

lemma endFrom_concat : endFrom l (ns ++ [n]) = .next n := by
  rw [endFrom_append]
  rfl

lemma head?_or_append (ns ms : List ℕ) (e : Option ℕ) :
    (ns ++ ms).head?.or e = ns.head?.or (ms.head?.or e) := by
  cases ns <;> simp

/-- Split a segment, or join two. -/
lemma seg_append :
    Seg cell l (ns ++ ms) e ↔ Seg cell l ns (ms.head?.or e) ∧ Seg cell (endFrom l ns) ms e := by
  induction ns generalizing l with
  | nil => exact ⟨fun h => ⟨trivial, h⟩, And.right⟩
  | cons n ns ih =>
    rw [List.cons_append, Seg, Seg, ih, head?_or_append, and_assoc]
    rfl

/-- Only the cells on the way matter. -/
lemma Seg.frame (h : Seg cell l ns e) (hsame : ∀ n ∈ ns, cell' n = cell n) :
    Seg cell' l ns e := by
  induction ns generalizing l with
  | nil => trivial
  | cons n ns ih =>
    exact ⟨(hsame n (by simp)).trans h.1, ih h.2 fun m hm => hsame m (by simp [hm])⟩

lemma Seg.isSome (h : Seg cell l ns e) (hn : n ∈ ns) : (cell n).isSome := by
  induction ns generalizing l with
  | nil => simp at hn
  | cons m ns ih =>
    rcases List.mem_cons.mp hn with rfl | hn
    · rw [h.1]
      rfl
    · exact ih h.2 hn

/-- Another link before the first cell. -/
lemma Seg.setPrev (h : Seg cell l (n :: ns) e) (hn : n ∉ ns) (l' : Link) :
    Seg (Function.update cell n (some ⟨ns.head?.or e, l'⟩)) l' (n :: ns) e := by
  refine ⟨Function.update_self .., h.2.frame fun m hm => Function.update_of_ne ?_ _ _⟩
  rintro rfl
  exact hn hm

/-- Another end behind the last cell. -/
lemma Seg.setNext (h : Seg cell l (ns ++ [n]) e) (hn : n ∉ ns) (v : Option ℕ) :
    Seg (Function.update cell n (some ⟨v, endFrom l ns⟩)) l (ns ++ [n]) v := by
  obtain ⟨hbefore, -, -⟩ := seg_append.mp h
  refine seg_append.mpr ⟨hbefore.frame fun m hm => Function.update_of_ne ?_ _ _,
    Function.update_self .., trivial⟩
  rintro rfl
  exact hn hm

end Segments

section Stores

variable {q : LinkChain} {ns : List ℕ} {e : Option ℕ} {n : ℕ}

lemma modify_of_cell {c : Cell} (hc : q.cell n = some c) (f : Cell → Cell) :
    q.modify n f = some { q with cell := Function.update q.cell n (some (f c)) } := by
  rw [modify, hc]
  rfl

/-- A write of what is there already. -/
lemma modify_same {c : Cell} (hc : q.cell n = some c) {f : Cell → Cell} (hf : f c = c) :
    q.modify n f = some q := by
  rw [modify_of_cell hc, hf, ← hc, Function.update_eq_self]

lemma Leads.frame {q' : LinkChain} (h : q.Leads ns e) (hfirst : q'.first = q.first)
    (hsame : ∀ n ∈ ns, q'.cell n = q.cell n) : q'.Leads ns e :=
  ⟨hfirst.trans h.first, h.seg.frame hsame⟩

/-- A store through the link behind the cells leads the chain elsewhere. -/
lemma Leads.store (h : q.Leads ns e) (hnodup : ns.Nodup) (v : Option ℕ) :
    ∃ q', q.store (endFrom .head ns) v = some q' ∧ q'.Leads ns v ∧ q'.last = q.last ∧
      ∀ n ∉ ns, q'.cell n = q.cell n := by
  rcases List.eq_nil_or_concat ns with rfl | ⟨pre, k, rfl⟩
  · exact ⟨_, rfl, ⟨rfl, trivial⟩, rfl, fun _ _ => rfl⟩
  · rw [List.concat_eq_append] at h hnodup ⊢
    have hk : k ∉ pre := fun hk => (List.nodup_append.mp hnodup).2.2 k hk k (by simp) rfl
    have hcell := (seg_append.mp h.seg).2.1
    refine ⟨{ q with cell := Function.update q.cell k (some ⟨v, endFrom .head pre⟩) }, ?_,
      ⟨?_, h.seg.setNext hk v⟩, rfl, fun n hn => Function.update_of_ne ?_ _ _⟩
    · rw [endFrom_concat]
      exact modify_of_cell hcell _
    · have hfirst := h.first
      rw [head?_or_append] at hfirst ⊢
      exact hfirst
    · rintro rfl
      simp at hn

end Stores

/-- The cells met from `at_` on; nothing when a cell on the way is not there. -/
def walk (q : LinkChain) : ℕ → Option ℕ → Option (List ℕ)
  | _, none => some []
  | 0, some _ => none
  | fuel + 1, some n => do
    let c ← q.cell n
    let ns ← walk q fuel c.next
    some (n :: ns)

lemma Seg.walk {q : LinkChain} {l : Link} {ns : List ℕ} (h : Seg q.cell l ns none) {fuel : ℕ}
    (hfuel : ns.length ≤ fuel) : q.walk fuel ns.head? = some ns := by
  induction ns generalizing l fuel with
  | nil => cases fuel <;> rfl
  | cons n ns ih =>
    obtain _ | fuel := fuel
    · simp at hfuel
    · have hrest := ih h.2 (Nat.le_of_succ_le_succ hfuel)
      rw [List.head?_cons, LinkChain.walk, h.1]
      simp only [Option.bind_eq_bind, Option.bind_some, Option.or_none, hrest]

/-- A walk from the head meets every cell once, in order. -/
theorem Linked.walk {q : LinkChain} {ns : List ℕ} (h : q.Linked ns) {fuel : ℕ}
    (hfuel : ns.length ≤ fuel) : q.walk fuel q.first = some ns := by
  rw [h.leads.first, Option.or_none]
  exact h.leads.seg.walk hfuel

end LinkChain
