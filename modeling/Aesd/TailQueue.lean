import Aesd.Kernel
import Aesd.Library.LinkChain

/-! The tail queue of queue.h, store by store, as far as the server uses it. Over any
sequence of insertions and removals it is the list of its elements. -/
namespace Aesd
open LinkChain Machine

def tailqInit (q : LinkChain) : LinkChain := { q with first := none, last := .head }

def tailqEmpty (q : LinkChain) : Bool := q.first.isNone

/-- The four stores of `TAILQ_INSERT_TAIL`. -/
def tailqInsertTailStores (elm : ℕ) : List (LinkChain → Option LinkChain) :=
  [fun q => q.setNext elm none,
    fun q => q.setPrev elm q.last,
    fun q => q.store q.last (some elm),
    fun q => some { q with last := .next elm }]

def perform (stores : List (LinkChain → Option LinkChain)) (q : LinkChain) : Option LinkChain :=
  stores.foldlM (fun q store => store q) q

def tailqInsertTail (q : LinkChain) (elm : ℕ) : Option LinkChain :=
  perform (tailqInsertTailStores elm) q

def tailqRemove (q : LinkChain) (elm : ℕ) : Option LinkChain := do
  let c ← q.cell elm
  let q ← (match c.next with
    | some next => q.setPrev next c.prev
    | none => some { q with last := c.prev })
  -- the fields are read again behind the store
  let c ← q.cell elm
  q.store c.prev c.next

/-- `malloc` gives a node the list does not know of, with anything in its fields. -/
def allocNode (q : LinkChain) (elm : ℕ) (junk : Cell) : LinkChain :=
  { q with cell := Function.update q.cell elm (some junk) }

def freeNode (q : LinkChain) (elm : ℕ) : LinkChain :=
  { q with cell := Function.update q.cell elm none }

/-- The queue links the nodes `ns`, and its tail pointer is that of the last. -/
structure Holds (q : LinkChain) (ns : List ℕ) : Prop where
  linked : q.Linked ns
  last : q.last = endFrom .head ns

lemma holds_init (q : LinkChain) : Holds (tailqInit q) [] := ⟨⟨List.nodup_nil, rfl, trivial⟩, rfl⟩

lemma Holds.empty_iff {q : LinkChain} {ns : List ℕ} (h : Holds q ns) :
    tailqEmpty q = true ↔ ns = [] := by
  rw [tailqEmpty, h.linked.leads.first, Option.or_none, Option.isNone_iff_eq_none,
    List.head?_eq_none_iff]

section Insert

variable {q : LinkChain} {ns : List ℕ} {elm : ℕ} {c : Cell}

lemma Holds.frame {q' : LinkChain} (h : Holds q ns) (hfirst : q'.first = q.first)
    (hlast : q'.last = q.last) (hsame : ∀ n ∈ ns, q'.cell n = q.cell n) : Holds q' ns :=
  ⟨⟨h.linked.nodup, h.linked.leads.frame hfirst hsame⟩, hlast.trans h.last⟩

lemma update_outside {n m : ℕ} (hn : n ∉ ns) (hm : m ∈ ns) (cell : ℕ → Option Cell) (v : Option Cell) :
    Function.update cell n v m = cell m := by
  rw [Function.update_of_ne]
  rintro rfl
  exact hn hm

/-- The first two stores write to the new node alone. -/
lemma insert_prepares (h : Holds q ns) (hn : elm ∉ ns) (hc : q.cell elm = some c) :
    ∃ q₁ q₂, q.setNext elm none = some q₁ ∧ q₁.setPrev elm q₁.last = some q₂ ∧
      Holds q₁ ns ∧ q₁.cell = Function.update q.cell elm (some ⟨none, c.prev⟩) ∧
      Holds q₂ ns ∧ q₂.cell = Function.update q.cell elm (some ⟨none, endFrom .head ns⟩) := by
  have h₁ : Holds { q with cell := Function.update q.cell elm (some ⟨none, c.prev⟩) } ns :=
    h.frame rfl rfl fun n hm => update_outside hn hm _ _
  refine ⟨_, _, modify_of_cell hc _, modify_of_cell (Function.update_self ..) _, h₁, rfl,
    h₁.frame rfl rfl fun n hm => update_outside hn hm _ _, ?_⟩
  change Function.update (Function.update q.cell elm _) elm (some ⟨none, q.last⟩) = _
  rw [Function.update_idem, h.last]

/-- The third store makes the node an element of the queue; the tail pointer lags behind. -/
lemma insert_links (h : Holds q ns) (hn : elm ∉ ns) (hc : q.cell elm = some ⟨none, endFrom .head ns⟩) :
    ∃ q', q.store q.last (some elm) = some q' ∧ q'.Linked (ns ++ [elm]) ∧ q'.last = q.last ∧
      ∀ n ∉ ns, q'.cell n = q.cell n := by
  obtain ⟨q', hstore, hleads, hlast, hframe⟩ := h.linked.leads.store h.linked.nodup (some elm)
  rw [← h.last] at hstore
  refine ⟨q', hstore, ⟨?_, ?_, ?_⟩, hlast, hframe⟩
  · exact List.nodup_append.mpr ⟨h.linked.nodup, List.nodup_singleton elm, fun n hm m hm' => by
      rw [List.mem_singleton.mp hm']
      rintro rfl
      exact hn hm⟩
  · rw [head?_or_append]
    exact hleads.first
  · exact seg_append.mpr ⟨hleads.seg, (hframe elm hn).trans hc, trivial⟩

/-- `TAILQ_INSERT_TAIL` appends. -/
theorem tailqInsertTail_spec (h : Holds q ns) (hn : elm ∉ ns) (hc : q.cell elm = some c) :
    ∃ q', tailqInsertTail q elm = some q' ∧ Holds q' (ns ++ [elm]) ∧
      ∀ n ∉ ns ++ [elm], q'.cell n = q.cell n := by
  obtain ⟨q₁, q₂, hnext, hprev, -, -, h₂, hcell₂⟩ := insert_prepares h hn hc
  obtain ⟨q₃, hstore, hlinked, -, hframe⟩ :=
    insert_links h₂ hn (by rw [hcell₂, Function.update_self])
  refine ⟨{ q₃ with last := .next elm }, ?_, ⟨⟨hlinked.nodup, hlinked.leads.first, hlinked.leads.seg⟩,
    endFrom_concat.symm⟩, fun n hm => ?_⟩
  · simp only [tailqInsertTail, perform, tailqInsertTailStores, List.foldlM_cons, List.foldlM_nil,
      hnext, hprev, hstore, Option.bind_eq_bind, Option.bind_some, Option.pure_def]
  · rw [List.mem_append, List.mem_singleton, not_or] at hm
    change q₃.cell n = _
    rw [hframe n hm.1, hcell₂, Function.update_of_ne hm.2]

end Insert

section Remove

variable {q : LinkChain} {pre post : List ℕ} {elm : ℕ}

/-- The first half of a removal gives the rest of the chain its new beginning. -/
lemma remove_behind (h : q.Linked (pre ++ elm :: post)) :
    ∃ q', (match post.head? with
        | some next => q.setPrev next (endFrom .head pre)
        | none => some { q with last := endFrom .head pre }) = some q' ∧
      q'.first = q.first ∧ Seg q'.cell (endFrom .head pre) post none ∧
      (∀ n ∉ post, q'.cell n = q.cell n) ∧
      q'.last = if post = [] then endFrom .head pre else q.last := by
  obtain ⟨-, hcell, hrest⟩ := seg_append.mp h.leads.seg
  cases post with
  | nil => exact ⟨_, rfl, rfl, trivial, fun _ _ => rfl, rfl⟩
  | cons next post =>
    have hnodup := (List.nodup_cons.mp (List.nodup_append.mp h.nodup).2.1).2
    have hnext := (List.nodup_cons.mp hnodup).1
    refine ⟨_, modify_of_cell hrest.1 _, rfl, hrest.setPrev hnext _, fun n hn => ?_, ?_⟩
    · exact Function.update_of_ne (fun he => hn (by simp [he])) _ _
    · rw [if_neg (List.cons_ne_nil next post)]

/-- `TAILQ_REMOVE` takes an element out, wherever it is. -/
theorem tailqRemove_spec (h : q.Linked (pre ++ elm :: post)) :
    ∃ q', tailqRemove q elm = some q' ∧ q'.Linked (pre ++ post) ∧
      (∀ n ∉ pre ++ post, q'.cell n = q.cell n) ∧
      q'.last = if post = [] then endFrom .head pre else q.last := by
  obtain ⟨hbefore, hcell, -⟩ := seg_append.mp h.leads.seg
  obtain ⟨q₁, hbehind, hfirst, hseg, hframe, hlast⟩ := remove_behind h
  obtain ⟨hpre, hrest, hdisjoint⟩ := List.nodup_append.mp h.nodup
  obtain ⟨helm, hpost⟩ := List.nodup_cons.mp hrest
  have hout : ∀ n ∈ pre, n ∉ post := fun n hn hm => hdisjoint n hn n (by simp [hm]) rfl
  have hfirst₁ := h.leads.first
  rw [head?_or_append] at hfirst₁
  have hleads : q₁.Leads pre (some elm) :=
    ⟨hfirst.trans hfirst₁, hbefore.frame fun n hn => hframe n (hout n hn)⟩
  obtain ⟨q₂, hstore, hleads₂, hlast₂, hframe₂⟩ := hleads.store hpre post.head?
  rw [Option.or_none] at hcell
  refine ⟨q₂, ?_, ⟨?_, ?_, ?_⟩, fun n hn => ?_, hlast₂.trans hlast⟩
  · simp only [tailqRemove, hcell, Option.bind_eq_bind, Option.bind_some]
    rw [hbehind, Option.bind_some, hframe elm helm, hcell, Option.bind_some]
    exact hstore
  · exact List.nodup_append.mpr ⟨hpre, hpost, fun n hn m hm => hdisjoint n hn m (by simp [hm])⟩
  · rw [head?_or_append, Option.or_none]
    exact hleads₂.first
  · refine seg_append.mpr ⟨?_, hseg.frame fun n hn => hframe₂ n fun hm => hout n hm hn⟩
    rw [Option.or_none]
    exact hleads₂.seg
  · rw [List.mem_append, not_or] at hn
    rw [hframe₂ n hn.1, hframe n hn.2]

lemma tailqRemove_holds (h : Holds q (pre ++ elm :: post)) :
    ∃ q', tailqRemove q elm = some q' ∧ Holds q' (pre ++ post) ∧
      ∀ n ∉ pre ++ post, q'.cell n = q.cell n := by
  obtain ⟨q', hremove, hlinked, hframe, hlast⟩ := tailqRemove_spec h.linked
  refine ⟨q', hremove, ⟨hlinked, hlast.trans ?_⟩, hframe⟩
  cases post with
  | nil => rw [if_pos rfl, List.append_nil]
  | cons next post =>
    rw [if_neg (List.cons_ne_nil next post), h.last, endFrom_append, endFrom_append]
    rfl

end Remove

/-- What the users of a queue do: they put a node just allocated at its end, or take any of
its nodes out and free it. -/
inductive QueueOp
  | insert (elm : ℕ) (junk : Cell)
  | remove (elm : ℕ)

/-- The output says whether the queue is empty afterwards. -/
def queueStep (q : LinkChain) (op : QueueOp) : Except Stop (LinkChain × Bool) :=
  match (match op with
    | .insert elm junk => tailqInsertTail (allocNode q elm junk) elm
    | .remove elm => (tailqRemove q elm).map fun q => freeNode q elm) with
  | some q => .ok (q, tailqEmpty q)
  | none => .error .fault

/-- A list of nodes under the same operations. -/
def QueueOp.on (ns : List ℕ) : QueueOp → List ℕ
  | .insert elm _ => ns ++ [elm]
  | .remove elm => ns.erase elm

/-- The allocator gives out no node that is allocated, and only nodes that are get removed. -/
def QueueOp.Proper (q : LinkChain) : QueueOp → Prop
  | .insert elm _ => q.cell elm = none
  | .remove elm => (q.cell elm).isSome

/-- The queue holds exactly the nodes that are allocated. -/
structure Keeps (q : LinkChain) (ns : List ℕ) : Prop where
  holds : Holds q ns
  live : ∀ n, (q.cell n).isSome ↔ n ∈ ns

section Runs

variable {q : LinkChain} {ns : List ℕ}

lemma Keeps.insert (h : Keeps q ns) {elm : ℕ} (hfresh : q.cell elm = none) (junk : Cell) :
    ∃ q', tailqInsertTail (allocNode q elm junk) elm = some q' ∧ Keeps q' (ns ++ [elm]) := by
  have hn : elm ∉ ns := by
    rw [← h.live, hfresh]
    simp
  have halloc : Holds (allocNode q elm junk) ns :=
    h.holds.frame rfl rfl fun n hm => update_outside hn hm _ _
  obtain ⟨q', hinsert, hholds, hframe⟩ :=
    tailqInsertTail_spec halloc hn (show (allocNode q elm junk).cell elm = some junk from
      Function.update_self ..)
  refine ⟨q', hinsert, hholds, fun n => ?_⟩
  by_cases hin : n ∈ ns ++ [elm]
  · exact iff_of_true (hholds.linked.leads.seg.isSome hin) hin
  · have hne : n ≠ elm := by
      rintro rfl
      exact hin (by simp)
    have hout : n ∉ ns := fun hm => hin (List.mem_append_left _ hm)
    rw [hframe n hin, show (allocNode q elm junk).cell n = q.cell n from Function.update_of_ne hne ..,
      h.live]
    exact iff_of_false hout hin

lemma Keeps.remove (h : Keeps q ns) {elm : ℕ} (hlive : (q.cell elm).isSome) :
    ∃ q', tailqRemove q elm = some q' ∧ Keeps (freeNode q' elm) (ns.erase elm) := by
  obtain ⟨pre, post, rfl⟩ := List.append_of_mem ((h.live elm).mp hlive)
  have hnodup := h.holds.linked.nodup
  have hpre : elm ∉ pre := fun hm => (List.nodup_append.mp hnodup).2.2 elm hm elm (by simp) rfl
  have hpost := (List.nodup_cons.mp (List.nodup_append.mp hnodup).2.1).1
  have herase : (pre ++ elm :: post).erase elm = pre ++ post := by
    rw [List.erase_append_right _ hpre, List.erase_cons_head]
  have hn : elm ∉ pre ++ post := by
    rw [List.mem_append]
    exact not_or.mpr ⟨hpre, hpost⟩
  obtain ⟨q', hremove, hholds, hframe⟩ := tailqRemove_holds h.holds
  rw [herase]
  refine ⟨q', hremove, hholds.frame rfl rfl fun n hm => update_outside hn hm _ _, fun n => ?_⟩
  change (Function.update q'.cell elm none n).isSome ↔ _
  by_cases hne : n = elm
  · rw [hne, Function.update_self]
    exact iff_of_false (by simp) hn
  · rw [Function.update_of_ne hne]
    by_cases hin : n ∈ pre ++ post
    · exact iff_of_true (hholds.linked.leads.seg.isSome hin) hin
    · rw [hframe n hin, h.live, List.mem_append, List.mem_cons, List.mem_append]
      simp [hne]

lemma queueStep_spec (h : Keeps q ns) {op : QueueOp} (hop : op.Proper q) :
    ∃ q', queueStep q op = .ok (q', (op.on ns).isEmpty) ∧ Keeps q' (op.on ns) := by
  have hempty : ∀ {q' ns'}, Keeps q' ns' → tailqEmpty q' = ns'.isEmpty := by
    intro q' ns' hk
    rw [Bool.eq_iff_iff, hk.holds.empty_iff, List.isEmpty_iff]
  cases op with
  | insert elm junk =>
    obtain ⟨q', hinsert, hkeeps⟩ := h.insert hop junk
    refine ⟨q', ?_, hkeeps⟩
    simp only [queueStep, hinsert, QueueOp.on, hempty hkeeps]
  | remove elm =>
    obtain ⟨q', hremove, hkeeps⟩ := h.remove hop
    refine ⟨_, ?_, hkeeps⟩
    simp only [queueStep, hremove, Option.map_some, QueueOp.on, hempty hkeeps]

end Runs

/-- The tail queue is a list. Over any sequence of insertions of fresh nodes and removals of
any nodes, from `TAILQ_INIT` on, no store goes astray; afterwards `TAILQ_EMPTY` and a walk
from the first node on tell of the list what they should, and the nodes that are allocated
are those of the list. -/
theorem tail_queue_is_list (q : LinkChain) (hnone : ∀ n, q.cell n = none) (ops : List QueueOp)
    (hops : Guarded queueStep (fun q op => op.Proper q) (tailqInit q) ops) :
    ∃ q', run queueStep (tailqInit q) ops =
        .ok (q', outputs QueueOp.on (fun ns op => (op.on ns).isEmpty) [] ops) ∧
      let ns := ops.foldl QueueOp.on []
      (∀ fuel ≥ ns.length, q'.walk fuel q'.first = some ns) ∧
      (tailqEmpty q' = true ↔ ns = []) ∧ ∀ n, (q'.cell n).isSome ↔ n ∈ ns := by
  have hstart : Keeps (tailqInit q) [] := by
    refine ⟨holds_init q, fun n => ?_⟩
    change (q.cell n).isSome ↔ _
    simp [hnone n]
  have hstep : ∀ (q : LinkChain) (ns : List ℕ) (op : QueueOp), Keeps q ns → op.Proper q →
      ∃ q', queueStep q op = .ok (q', (op.on ns).isEmpty) ∧ Keeps q' (op.on ns) :=
    fun _ _ _ hk hop => queueStep_spec hk hop
  obtain ⟨q', hrun, hkeeps⟩ := run_matches Keeps hstep hstart hops
  exact ⟨q', hrun, fun fuel hfuel => hkeeps.holds.linked.walk hfuel, hkeeps.holds.empty_iff,
    hkeeps.live⟩

/-- Three nodes, of which the middle one goes. -/
theorem tail_queue_is_list_middle :
    let ops : List QueueOp := [.insert 4 ⟨none, .head⟩, .insert 2 ⟨some 4, .next 9⟩,
      .insert 7 ⟨none, .head⟩, .remove 2]
    ∃ q', run queueStep (tailqInit ⟨none, .head, fun _ => none⟩) ops =
        .ok (q', outputs QueueOp.on (fun ns op => (op.on ns).isEmpty) [] ops) ∧
      (∀ fuel ≥ 2, q'.walk fuel q'.first = some [4, 7]) ∧
      (tailqEmpty q' = true ↔ [4, 7] = []) ∧ ∀ n, (q'.cell n).isSome ↔ n ∈ [4, 7] :=
  tail_queue_is_list ⟨none, .head, fun _ => none⟩ (fun _ => rfl) _
    (Guarded.cons rfl rfl (Guarded.cons rfl rfl (Guarded.cons rfl rfl (Guarded.cons rfl rfl trivial))))

end Aesd
