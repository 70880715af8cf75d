import Aesd.TailQueue

/-! The list of connections, from aesdsocket.c. `create_node` puts each at the end of a tail
queue; the handler of SIGINT and SIGTERM joins and closes them all and empties the queue,
and may come between two of the stores that put a connection in. -/
namespace Aesd
open LinkChain

/-- What a node holds besides its links. -/
structure NodeInfo where
  fd : ℕ
  mythread : ℕ
  deriving DecidableEq, Repr

inductive CleanupAction
  | join (mythread : ℕ)
  | close (fd : ℕ)
  | free (node : ℕ)
  deriving DecidableEq, Repr

/-- The first loop of `cleanup`, from a node on. -/
def joinLoop (info : ℕ → NodeInfo) (q : LinkChain) : ℕ → Option ℕ → Option (List CleanupAction)
  | _, none => some []
  | 0, some _ => none
  | fuel + 1, some e => do
    let c ← q.cell e
    let actions ← joinLoop info q fuel c.next
    some (.join (info e).mythread :: .close (info e).fd :: actions)

/-- The second loop of `cleanup`. -/
def removeLoop : ℕ → LinkChain → Option (LinkChain × List CleanupAction)
  | 0, q => if tailqEmpty q then some (q, []) else none
  | fuel + 1, q =>
    match q.first with
    | none => some (q, [])
    | some e => do
      let q ← tailqRemove q e
      let r ← removeLoop fuel (freeNode q e)
      some (r.1, .free e :: r.2)

/-- Nothing when a loop meets a node that is not allocated, or does not end. -/
def cleanup (info : ℕ → NodeInfo) (parentFd fuel : ℕ) (q : LinkChain) :
    Option (LinkChain × List CleanupAction) := do
  let joined ← joinLoop info q fuel q.first
  let r ← removeLoop fuel q
  some (r.1, joined ++ .close parentFd :: r.2)

def cleanupOf (info : ℕ → NodeInfo) (parentFd : ℕ) (ns : List ℕ) : List CleanupAction :=
  ns.flatMap (fun n => [.join (info n).mythread, .close (info n).fd]) ++
    .close parentFd :: ns.map .free

/-- The list at one `create_node` after the other, and the fields of the nodes as `malloc`
has given them. -/
def createNodes (q : LinkChain) (nodes : List (ℕ × Cell)) : Option LinkChain :=
  nodes.foldlM (fun q n => tailqInsertTail (allocNode q n.1 n.2) n.1) q

section Cleanup

variable (info : ℕ → NodeInfo) {q : LinkChain} {ns : List ℕ} {fuel : ℕ}

lemma joinLoop_seg {l : Link} (h : Seg q.cell l ns none) (hfuel : ns.length ≤ fuel) :
    joinLoop info q fuel ns.head? =
      some (ns.flatMap fun n => [.join (info n).mythread, .close (info n).fd]) := by
  induction ns generalizing l fuel with
  | nil => cases fuel <;> rfl
  | cons n ns ih =>
    obtain _ | fuel := fuel
    · simp at hfuel
    · have hrest := ih h.2 (Nat.le_of_succ_le_succ hfuel)
      rw [List.head?_cons, joinLoop, h.1]
      simp only [Option.bind_eq_bind, Option.bind_some, Option.or_none, hrest]
      rfl

lemma removeLoop_linked (h : q.Linked ns) (hfuel : ns.length ≤ fuel) :
    ∃ q', removeLoop fuel q = some (q', ns.map .free) ∧ q'.first = none ∧
      q'.last = (if ns = [] then q.last else .head) ∧ (∀ n ∈ ns, q'.cell n = none) ∧
      ∀ n ∉ ns, q'.cell n = q.cell n := by
  induction ns generalizing q fuel with
  | nil =>
    have hfirst := h.leads.first
    refine ⟨q, ?_, hfirst, rfl, by simp, fun _ _ => rfl⟩
    cases fuel <;> simp [removeLoop, tailqEmpty, hfirst]
  | cons n ns ih =>
    obtain _ | fuel := fuel
    · simp at hfuel
    · have hfirst : q.first = some n := h.leads.first
      obtain ⟨hn, hnodup⟩ := List.nodup_cons.mp h.nodup
      obtain ⟨q₁, hremove, hlinked, hframe, hlast⟩ := tailqRemove_spec (show q.Linked ([] ++ n :: ns) from h)
      have hfreed : (freeNode q₁ n).Linked ns :=
        ⟨hnodup, hlinked.leads.frame rfl fun m hm => update_outside hn hm _ _⟩
      obtain ⟨q', hloop, hnone, hlast', hgone, hkept⟩ := ih hfreed (Nat.le_of_succ_le_succ hfuel)
      refine ⟨q', ?_, hnone, ?_, ?_, ?_⟩
      · rw [removeLoop, hfirst]
        simp only [hremove, hloop, Option.bind_eq_bind, Option.bind_some, List.map_cons]
      · rw [if_neg (List.cons_ne_nil n ns), hlast']
        split_ifs with hns
        · change q₁.last = _
          rw [hlast, if_pos hns]
          rfl
        · rfl
      · intro m hm
        by_cases hin : m ∈ ns
        · exact hgone m hin
        · rw [hkept m hin, (List.mem_cons.mp hm).resolve_right hin]
          exact Function.update_self ..
      · intro m hm
        rw [List.mem_cons, not_or] at hm
        rw [hkept m hm.2]
        change Function.update q₁.cell n none m = _
        rw [Function.update_of_ne hm.1]
        exact hframe m hm.2

lemma cleanup_linked (h : q.Linked ns) (hfuel : ns.length ≤ fuel) (parentFd : ℕ) :
    ∃ q', cleanup info parentFd fuel q = some (q', cleanupOf info parentFd ns) ∧ q'.first = none ∧
      q'.last = (if ns = [] then q.last else .head) ∧ (∀ n ∈ ns, q'.cell n = none) ∧
      ∀ n ∉ ns, q'.cell n = q.cell n := by
  obtain ⟨q', hloop, hafter⟩ := removeLoop_linked h hfuel
  refine ⟨q', ?_, hafter⟩
  have hjoin := joinLoop_seg info h.leads.seg hfuel
  have hfirst := h.leads.first
  rw [Option.or_none] at hfirst
  rw [cleanup, hfirst, hjoin]
  simp only [Option.bind_eq_bind, Option.bind_some, hloop]
  rfl

lemma cleanup_holds (h : Holds q ns) (hfuel : ns.length ≤ fuel) (parentFd : ℕ) :
    ∃ q', cleanup info parentFd fuel q = some (q', cleanupOf info parentFd ns) ∧ Holds q' [] ∧
      (∀ n ∈ ns, q'.cell n = none) ∧ ∀ n ∉ ns, q'.cell n = q.cell n := by
  obtain ⟨q', hclean, hfirst, hlast, hcells⟩ := cleanup_linked info h.linked hfuel parentFd
  refine ⟨q', hclean, ⟨⟨List.nodup_nil, hfirst, trivial⟩, hlast.trans ?_⟩, hcells⟩
  split_ifs with hns
  · rw [h.last, hns]
  · rfl

lemma cleanup_empty (hfirst : q.first = none) (parentFd : ℕ) :
    (cleanup info parentFd fuel q).map Prod.snd = some [.close parentFd] := by
  cases fuel <;> simp [cleanup, joinLoop, removeLoop, tailqEmpty, hfirst]

lemma cleanup_late {elm : ℕ} {c : Cell} (h : Holds q []) (hc : q.cell elm = some c)
    (hfuel : 1 ≤ fuel) (parentFd : ℕ) :
    ∃ q', tailqInsertTail q elm = some q' ∧
      (cleanup info parentFd fuel q').map Prod.snd = some (cleanupOf info parentFd [elm]) := by
  obtain ⟨q', hinsert, hholds, -⟩ := tailqInsertTail_spec h (List.not_mem_nil) hc
  obtain ⟨q'', hclean, -⟩ := cleanup_holds info hholds hfuel parentFd
  refine ⟨q', hinsert, ?_⟩
  rw [hclean]
  rfl

/-- A node whose back pointer is into a node that has been freed is not taken out. -/
lemma cleanup_stale {elm m : ℕ} (hfirst : q.first = some elm)
    (hc : q.cell elm = some ⟨none, .next m⟩) (hm : q.cell m = none) (parentFd : ℕ) :
    cleanup info parentFd fuel q = none := by
  cases fuel with
  | zero => simp [cleanup, hfirst, joinLoop]
  | succ fuel =>
    have hremove : tailqRemove q elm = none := by
      simp only [tailqRemove, hc, Option.bind_eq_bind, Option.bind_some, store, setNext,
        LinkChain.modify, hm, Option.map_none]
    rw [cleanup, hfirst, removeLoop, hfirst]
    simp [hremove]

end Cleanup

section Interrupted

variable {q : LinkChain} {nodes : List (ℕ × Cell)}

lemma createNodes_keeps {ns : List ℕ} (h : Keeps q ns) (hnodup : (nodes.map Prod.fst).Nodup)
    (hfresh : ∀ n ∈ nodes, n.1 ∉ ns) :
    ∃ q', createNodes q nodes = some q' ∧ Keeps q' (ns ++ nodes.map Prod.fst) := by
  induction nodes generalizing q ns with
  | nil => exact ⟨q, rfl, by simpa using h⟩
  | cons n nodes ih =>
    rw [List.map_cons, List.nodup_cons] at hnodup
    have hdead : q.cell n.1 = none := by
      rw [← Option.not_isSome_iff_eq_none, h.live]
      exact hfresh n (by simp)
    obtain ⟨q₁, hinsert, hkeeps⟩ := h.insert hdead n.2
    obtain ⟨q', hrest, hkeeps'⟩ := ih hkeeps hnodup.2 fun m hm => by
      rw [List.mem_append, List.mem_singleton, not_or]
      refine ⟨hfresh m (by simp [hm]), ?_⟩
      rintro heq
      exact hnodup.1 (heq ▸ List.mem_map_of_mem hm)
    refine ⟨q', ?_, ?_⟩
    · rw [createNodes, List.foldlM_cons, hinsert]
      exact hrest
    · rwa [List.append_assoc] at hkeeps'

/-- The stores of an insertion that a clean-up has come between, over a queue that is empty
again: those that were done before are as good as new, unless the back pointer is stale. -/
lemma insertion_resumes {q : LinkChain} {elm : ℕ} {c : Cell} (h : Holds q [])
    (hc : q.cell elm = some c) :
    (c.next = none → perform ((tailqInsertTailStores elm).drop 1) q = tailqInsertTail q elm) ∧
      (c = ⟨none, .head⟩ → perform ((tailqInsertTailStores elm).drop 2) q = tailqInsertTail q elm) := by
  refine ⟨fun hnext => ?_, fun hboth => ?_⟩
  · have hstore : q.setNext elm none = some q := modify_same hc (by rw [← hnext])
    change _ = (q.setNext elm none >>= fun q => perform ((tailqInsertTailStores elm).drop 1) q)
    rw [hstore]
    rfl
  · subst hboth
    have hstore : q.setNext elm none = some q := modify_same hc rfl
    have hstore' : q.setPrev elm q.last = some q := modify_same hc (by rw [h.last]; rfl)
    change _ = (q.setNext elm none >>= fun q => q.setPrev elm q.last >>= fun q =>
      perform ((tailqInsertTailStores elm).drop 2) q)
    rw [hstore]
    change _ = (q.setPrev elm q.last >>= fun q => perform ((tailqInsertTailStores elm).drop 2) q)
    rw [hstore']
    rfl

variable (info : ℕ → NodeInfo) (parentFd : ℕ) {p : LinkChain} {ns : List ℕ} {elm fuel : ℕ}
  {junk : Cell}

lemma interrupted_before (h : Holds p ns) (helm : elm ∉ ns) (hc : p.cell elm = some junk)
    (hfuel : ns.length < fuel) :
    ∃ q₂ q₃, cleanup info parentFd fuel p = some (q₂, cleanupOf info parentFd ns) ∧
      perform (tailqInsertTailStores elm) q₂ = some q₃ ∧
      (cleanup info parentFd fuel q₃).map Prod.snd = some (cleanupOf info parentFd [elm]) := by
  obtain ⟨q₂, hclean, hempty, -, hkept⟩ := cleanup_holds info h hfuel.le parentFd
  obtain ⟨q₃, hinsert, hagain⟩ :=
    cleanup_late info hempty ((hkept elm helm).trans hc) (Nat.one_le_of_lt hfuel) parentFd
  exact ⟨q₂, q₃, hclean, hinsert, hagain⟩

lemma interrupted_first (h : Holds p ns) (helm : elm ∉ ns) (hc : p.cell elm = some junk)
    (hfuel : ns.length < fuel) :
    ∃ q₁ q₂ q₃, perform ((tailqInsertTailStores elm).take 1) p = some q₁ ∧
      cleanup info parentFd fuel q₁ = some (q₂, cleanupOf info parentFd ns) ∧
      perform ((tailqInsertTailStores elm).drop 1) q₂ = some q₃ ∧
      (cleanup info parentFd fuel q₃).map Prod.snd = some (cleanupOf info parentFd [elm]) := by
  obtain ⟨p₁, p₂, hnext, hprev, h₁, hcell₁, -, -⟩ := insert_prepares h helm hc
  obtain ⟨q₂, hclean, hempty, -, hkept⟩ := cleanup_holds info h₁ hfuel.le parentFd
  have helm₁ : q₂.cell elm = some ⟨none, junk.prev⟩ := by
    rw [hkept elm helm, hcell₁, Function.update_self]
  obtain ⟨q₃, hinsert, hagain⟩ := cleanup_late info hempty helm₁ (Nat.one_le_of_lt hfuel) parentFd
  rw [← (insertion_resumes hempty helm₁).1 rfl] at hinsert
  refine ⟨p₁, q₂, q₃, ?_, hclean, hinsert, hagain⟩
  simp [perform, tailqInsertTailStores, hnext]

/-- The back pointer that the second store has left is stale when a node it points into has
been freed. -/
lemma interrupted_second (h : Holds p ns) (helm : elm ∉ ns) (hc : p.cell elm = some junk)
    (hfuel : ns.length < fuel) :
    ∃ q₁ q₂ q₃, perform ((tailqInsertTailStores elm).take 2) p = some q₁ ∧
      cleanup info parentFd fuel q₁ = some (q₂, cleanupOf info parentFd ns) ∧
      perform ((tailqInsertTailStores elm).drop 2) q₂ = some q₃ ∧
      (cleanup info parentFd fuel q₃).map Prod.snd =
        if ns ≠ [] then none else some (cleanupOf info parentFd [elm]) := by
  obtain ⟨p₁, p₂, hnext, hprev, -, -, h₂, hcell₂⟩ := insert_prepares h helm hc
  obtain ⟨q₂, hclean, hempty, hgone, hkept⟩ := cleanup_holds info h₂ hfuel.le parentFd
  have helm₂ : q₂.cell elm = some ⟨none, endFrom .head ns⟩ := by
    rw [hkept elm helm, hcell₂, Function.update_self]
  have hstores : perform ((tailqInsertTailStores elm).take 2) p = some p₂ := by
    simp [perform, tailqInsertTailStores, hnext, hprev]
  rcases List.eq_nil_or_concat ns with hns | ⟨pre, m, hns⟩
  · obtain ⟨q₃, hinsert, hagain⟩ := cleanup_late info hempty helm₂ (Nat.one_le_of_lt hfuel) parentFd
    rw [← (insertion_resumes hempty helm₂).2 (by rw [hns]; rfl)] at hinsert
    exact ⟨p₂, q₂, q₃, hstores, hclean, hinsert, by rw [hagain, if_neg (not_not.mpr hns)]⟩
  · rw [List.concat_eq_append] at hns
    rw [hns, endFrom_concat] at helm₂
    refine ⟨p₂, q₂, ⟨some elm, .next elm, q₂.cell⟩, hstores, hclean, ?_, ?_⟩
    · change (q₂.store q₂.last (some elm) >>= fun q => some { q with last := .next elm }) = _
      rw [hempty.last]
      rfl
    · have hstale : cleanup info parentFd fuel ⟨some elm, .next elm, q₂.cell⟩ = none :=
        cleanup_stale info (q := ⟨some elm, .next elm, q₂.cell⟩) rfl helm₂
          (hgone m (by rw [hns]; simp)) parentFd
      rw [hstale, if_pos (by simp [hns])]
      rfl

/-- With its third store done the new node is found from the front of the queue. -/
lemma interrupted_behind (h : Holds p ns) (helm : elm ∉ ns) (hc : p.cell elm = some junk)
    (hfuel : ns.length < fuel) (k : ℕ) :
    ∃ q₁ q₂ q₃, perform ((tailqInsertTailStores elm).take (k + 3)) p = some q₁ ∧
      cleanup info parentFd fuel q₁ = some (q₂, cleanupOf info parentFd (ns ++ [elm])) ∧
      perform ((tailqInsertTailStores elm).drop (k + 3)) q₂ = some q₃ ∧
      (cleanup info parentFd fuel q₃).map Prod.snd = some [.close parentFd] := by
  obtain ⟨p₁, p₂, hnext, hprev, -, -, h₂, hcell₂⟩ := insert_prepares h helm hc
  obtain ⟨p₃, hstore, hlinked, -, -⟩ :=
    insert_links h₂ helm (by rw [hcell₂, Function.update_self])
  have hall : (ns ++ [elm]).length ≤ fuel := by
    rw [List.length_append]
    exact hfuel
  cases k with
  | zero =>
    obtain ⟨q₂, hclean, hfirst, -⟩ := cleanup_linked info hlinked hall parentFd
    refine ⟨p₃, q₂, { q₂ with last := .next elm }, ?_, hclean, rfl, ?_⟩
    · simp [perform, tailqInsertTailStores, hnext, hprev, hstore]
    · exact cleanup_empty info (q := { q₂ with last := .next elm }) hfirst parentFd
  | succ k =>
    have hlinked' : LinkChain.Linked { p₃ with last := .next elm } (ns ++ [elm]) :=
      ⟨hlinked.nodup, hlinked.leads.first, hlinked.leads.seg⟩
    obtain ⟨q₂, hclean, hfirst, -⟩ := cleanup_linked info hlinked' hall parentFd
    refine ⟨{ p₃ with last := .next elm }, q₂, q₂, ?_, hclean, ?_, ?_⟩
    · simp [perform, tailqInsertTailStores, hnext, hprev, hstore]
    · simp [perform, tailqInsertTailStores]
    · exact cleanup_empty info hfirst parentFd

end Interrupted

/-- A signal while a connection is put into the list. `k` of the four stores have been done
when the handler cleans up; the stores left are done when it has returned. The clean-up
joins, closes and frees the connections accepted before, each once and in order, and the new
one with them when its third store has been done; no store of the insertion goes astray.
Otherwise the new one is left in the list, where a second signal finds it, unless the
insertion was cut behind its second store with other connections in the list: then the
second clean-up writes into a node that the first has freed. -/
theorem insertion_interrupted (info : ℕ → NodeInfo) (parentFd : ℕ) (q : LinkChain)
    (hnone : ∀ n, q.cell n = none) (nodes : List (ℕ × Cell))
    (hnodup : (nodes.map Prod.fst).Nodup) (elm : ℕ) (junk : Cell)
    (helm : elm ∉ nodes.map Prod.fst) (k fuel : ℕ) (hfuel : nodes.length < fuel) :
    let ns := nodes.map Prod.fst
    ∃ q₀ q₁ q₂ q₃, createNodes (tailqInit q) nodes = some q₀ ∧
      perform ((tailqInsertTailStores elm).take k) (allocNode q₀ elm junk) = some q₁ ∧
      cleanup info parentFd fuel q₁ =
        some (q₂, cleanupOf info parentFd (if 3 ≤ k then ns ++ [elm] else ns)) ∧
      perform ((tailqInsertTailStores elm).drop k) q₂ = some q₃ ∧
      (cleanup info parentFd fuel q₃).map Prod.snd =
        if 3 ≤ k then some [.close parentFd]
        else if k = 2 ∧ ns ≠ [] then none
        else some (cleanupOf info parentFd [elm]) := by
  intro ns
  have hstart : Keeps (tailqInit q) [] := by
    refine ⟨holds_init q, fun n => ?_⟩
    change (q.cell n).isSome ↔ _
    simp [hnone n]
  obtain ⟨q₀, hcreate, hkeeps⟩ := createNodes_keeps hstart hnodup fun _ _ => List.not_mem_nil
  rw [List.nil_append] at hkeeps
  have hlen : ns.length < fuel := by rwa [List.length_map]
  have halloc : Holds (allocNode q₀ elm junk) ns :=
    hkeeps.holds.frame rfl rfl fun n hm => update_outside helm hm _ _
  have hcell : (allocNode q₀ elm junk).cell elm = some junk := Function.update_self ..
  match k with
  | 0 =>
    obtain ⟨q₂, q₃, hbefore⟩ := interrupted_before info parentFd halloc helm hcell hlen
    exact ⟨q₀, _, q₂, q₃, hcreate, rfl, hbefore⟩
  | 1 =>
    obtain ⟨q₁, q₂, q₃, hfirst⟩ := interrupted_first info parentFd halloc helm hcell hlen
    exact ⟨q₀, q₁, q₂, q₃, hcreate, hfirst⟩
  | 2 =>
    obtain ⟨q₁, q₂, q₃, hstores, hclean, hrest, hagain⟩ :=
      interrupted_second info parentFd halloc helm hcell hlen
    refine ⟨q₀, q₁, q₂, q₃, hcreate, hstores, hclean, hrest, ?_⟩
    rw [hagain, if_neg (show ¬3 ≤ 2 by omega)]
    simp only [true_and]
  | k + 3 =>
    obtain ⟨q₁, q₂, q₃, hstores, hclean, hrest, hagain⟩ :=
      interrupted_behind info parentFd halloc helm hcell hlen k
    have hk : 3 ≤ k + 3 := by omega
    exact ⟨q₀, q₁, q₂, q₃, hcreate, hstores, by rw [if_pos hk, hclean], hrest,
      by rw [if_pos hk, hagain]⟩

/-- One connection in the list, and the signal behind the second store for another. -/
theorem insertion_interrupted_second_store :
    ∃ q₀ q₁ q₂ q₃, createNodes (tailqInit ⟨none, .head, fun _ => none⟩) [(3, ⟨none, .head⟩)] = some q₀ ∧
      perform ((tailqInsertTailStores 5).take 2) (allocNode q₀ 5 ⟨none, .head⟩) = some q₁ ∧
      cleanup (fun n => ⟨n, n⟩) 8 9 q₁ = some (q₂, [.join 3, .close 3, .close 8, .free 3]) ∧
      perform ((tailqInsertTailStores 5).drop 2) q₂ = some q₃ ∧
      (cleanup (fun n => ⟨n, n⟩) 8 9 q₃).map Prod.snd = none :=
  insertion_interrupted (fun n => ⟨n, n⟩) 8 ⟨none, .head, fun _ => none⟩ (fun _ => rfl)
    [(3, ⟨none, .head⟩)] (by simp) 5 ⟨none, .head⟩ (by simp) 2 9 (by simp)

end Aesd
