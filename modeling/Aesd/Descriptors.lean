import Aesd.Kernel

/-! The descriptors of accepted connections, from aesdsocket.c: a worker closes its own on
the way out of the loop and behind it, and the clean-up closes that of every node once
more. A node keeps the number of its descriptor when the system gives it to another. -/
namespace Aesd
open Machine

/-- A worker is in its loop, behind it, having closed its descriptor in the loop or not, or
it has returned. -/
inductive WorkerPhase
  | looping
  | leaving (closed : Bool)
  | returned
  deriving DecidableEq, Repr

structure Node where
  fd : ℕ
  phase : WorkerPhase
  deriving DecidableEq, Repr

/-- `openFor` says for which connection a descriptor is open, and `cleanup` how many nodes
the clean-up has closed. A connection goes by its place in the list. -/
structure Descriptors where
  openFor : ℕ → Option ℕ
  nodes : List Node
  shouldQuit : Bool
  cleanup : Option ℕ

inductive DescriptorEvent
  | accept (fd : ℕ)
  | hangup (id : ℕ)
  | quit (id : ℕ)
  | leave (id : ℕ)
  | sigint
  | join

namespace Descriptors

def start : Descriptors := ⟨fun _ => none, [], false, none⟩

/-- Closing a descriptor that is not open does nothing. -/
def close (s : Descriptors) (fd : ℕ) : Descriptors :=
  { s with openFor := Function.update s.openFor fd none }

def setPhase (s : Descriptors) (id : ℕ) (node : Node) (phase : WorkerPhase) : Descriptors :=
  { s with nodes := s.nodes.set id ⟨node.fd, phase⟩ }

/-- The output is the connection whose node named the descriptor that was closed. -/
def step (s : Descriptors) : DescriptorEvent → Except Stop (Descriptors × Option ℕ)
  | .accept fd =>
    -- with `should_quit` set the process exits instead
    if s.shouldQuit = false ∧ s.openFor fd = none then
      .ok ({ s with
        openFor := Function.update s.openFor fd (some s.nodes.length)
        nodes := s.nodes ++ [⟨fd, .looping⟩] }, none)
    else .error .blocked
  | .hangup id =>
    match s.nodes[id]? with
    | some ⟨fd, .looping⟩ => .ok (s.setPhase id ⟨fd, .looping⟩ (.leaving false), none)
    | _ => .error .blocked
  | .quit id =>
    match s.nodes[id]? with
    | some ⟨fd, .looping⟩ =>
      if s.shouldQuit then
        .ok ((s.close fd).setPhase id ⟨fd, .looping⟩ (.leaving true), some id)
      else .error .blocked
    | _ => .error .blocked
  | .leave id =>
    match s.nodes[id]? with
    | some ⟨fd, .leaving closed⟩ =>
      .ok ((s.close fd).setPhase id ⟨fd, .leaving closed⟩ .returned, some id)
    | _ => .error .blocked
  | .sigint =>
    match s.cleanup with
    | none => .ok ({ s with shouldQuit := true, cleanup := some 0 }, none)
    | some _ => .error .blocked
  | .join =>
    match s.cleanup with
    | none => .error .blocked
    | some id =>
      match s.nodes[id]? with
      | some ⟨fd, .returned⟩ => .ok ({ s.close fd with cleanup := some (id + 1) }, some id)
      | _ => .error .blocked

abbrev run (events : List DescriptorEvent) : Except Stop (Descriptors × List (Option ℕ)) :=
  Machine.run step start events

/-- The descriptor that the event closes, if it closes one, is open for the connection on
whose behalf it is closed. -/
def ClosesOwn (s : Descriptors) : DescriptorEvent → Prop
  | .quit id => ∀ node, s.nodes[id]? = some node → s.openFor node.fd = some id
  | .leave id => ∀ node, s.nodes[id]? = some node → s.openFor node.fd = some id
  | .join => ∀ id node, s.cleanup = some id → s.nodes[id]? = some node →
      s.openFor node.fd = some id
  | _ => True

/-- A worker that has closed its descriptor in the loop does not close it again, and the
clean-up closes none. -/
def ClosesOnce (s : Descriptors) : DescriptorEvent → Prop
  | .leave id => ∀ fd, s.nodes[id]? ≠ some ⟨fd, .leaving true⟩
  | .join => False
  | _ => True

end Descriptors

/-- The worker has not closed its descriptor yet. -/
def Node.Live (n : Node) : Prop := n.phase = .looping ∨ n.phase = .leaving false

instance (n : Node) : Decidable n.Live := inferInstanceAs (Decidable (_ ∨ _))

namespace Descriptors

section Inversion

variable {s t : Descriptors} {id : ℕ} {o : Option ℕ}

lemma step_accept {fd : ℕ} (h : s.step (.accept fd) = .ok (t, o)) :
    s.openFor fd = none ∧ o = none ∧
      t = { s with
        openFor := Function.update s.openFor fd (some s.nodes.length)
        nodes := s.nodes ++ [⟨fd, .looping⟩] } := by
  simp only [step] at h
  split_ifs at h with hfree
  simp only [Except.ok.injEq, Prod.mk.injEq] at h
  exact ⟨hfree.2, h.2.symm, h.1.symm⟩

lemma step_hangup (h : s.step (.hangup id) = .ok (t, o)) :
    ∃ node, s.nodes[id]? = some node ∧ node.phase = .looping ∧ o = none ∧
      t = s.setPhase id node (.leaving false) := by
  simp only [step] at h
  split at h
  · rename_i fd hnode
    simp only [Except.ok.injEq, Prod.mk.injEq] at h
    exact ⟨_, hnode, rfl, h.2.symm, h.1.symm⟩
  · simp at h

lemma step_quit (h : s.step (.quit id) = .ok (t, o)) :
    ∃ node, s.nodes[id]? = some node ∧ node.phase = .looping ∧ o = some id ∧
      t = (s.close node.fd).setPhase id node (.leaving true) := by
  simp only [step] at h
  split at h
  · rename_i fd hnode
    split_ifs at h
    simp only [Except.ok.injEq, Prod.mk.injEq] at h
    exact ⟨_, hnode, rfl, h.2.symm, h.1.symm⟩
  · simp at h

lemma step_leave (h : s.step (.leave id) = .ok (t, o)) :
    ∃ node closed, s.nodes[id]? = some node ∧ node.phase = .leaving closed ∧ o = some id ∧
      t = (s.close node.fd).setPhase id node .returned := by
  simp only [step] at h
  split at h
  · rename_i fd closed hnode
    simp only [Except.ok.injEq, Prod.mk.injEq] at h
    exact ⟨_, closed, hnode, rfl, h.2.symm, h.1.symm⟩
  · simp at h

lemma step_sigint (h : s.step .sigint = .ok (t, o)) :
    o = none ∧ t = { s with shouldQuit := true, cleanup := some 0 } := by
  simp only [step] at h
  split at h
  · simp only [Except.ok.injEq, Prod.mk.injEq] at h
    exact ⟨h.2.symm, h.1.symm⟩
  · simp at h

lemma step_join (h : s.step .join = .ok (t, o)) :
    ∃ id node, s.cleanup = some id ∧ s.nodes[id]? = some node ∧ node.phase = .returned ∧
      o = some id ∧ t = { s.close node.fd with cleanup := some (id + 1) } := by
  simp only [step] at h
  split at h
  · simp at h
  · rename_i id hcleanup
    split at h
    · rename_i fd hnode
      simp only [Except.ok.injEq, Prod.mk.injEq] at h
      exact ⟨id, _, hcleanup, hnode, rfl, h.2.symm, h.1.symm⟩
    · simp at h

end Inversion

/-- The open descriptors are those of the connections not closed yet. -/
def Faithful (s : Descriptors) : Prop :=
  ∀ fd id, s.openFor fd = some id ↔ ∃ node, s.nodes[id]? = some node ∧ node.fd = fd ∧ node.Live

lemma start_faithful : start.Faithful := by simp [Faithful, start]

/-- A worker that closes its live descriptor, or keeps it open, stays in the account. -/
lemma Faithful.setPhase {s : Descriptors} (hs : s.Faithful) {id : ℕ} {node : Node}
    {phase : WorkerPhase} (hnode : s.nodes[id]? = some node) (hlive : node.Live)
    (hphase : Node.Live ⟨node.fd, phase⟩) : (s.setPhase id node phase).Faithful := by
  intro fd j
  have hid : id < s.nodes.length := (List.getElem?_eq_some_iff.mp hnode).1
  have hj := hs fd j
  simp only [Descriptors.setPhase]
  rcases eq_or_ne id j with rfl | hne
  · rw [hj, hnode, List.getElem?_set_self hid]
    simp [hlive, hphase]
  · rw [hj, List.getElem?_set_ne hne]

lemma Faithful.close {s : Descriptors} (hs : s.Faithful) {id : ℕ} {node : Node}
    {phase : WorkerPhase} (hnode : s.nodes[id]? = some node) (hlive : node.Live)
    (hphase : ¬Node.Live ⟨node.fd, phase⟩) :
    ((s.close node.fd).setPhase id node phase).Faithful := by
  intro fd j
  have hid : id < s.nodes.length := (List.getElem?_eq_some_iff.mp hnode).1
  have howner : s.openFor node.fd = some id := (hs node.fd id).mpr ⟨node, hnode, rfl, hlive⟩
  have hj := hs fd j
  simp only [Descriptors.setPhase, Descriptors.close]
  rcases eq_or_ne fd node.fd with rfl | hfd
  · rw [Function.update_self]
    refine ⟨nofun, ?_⟩
    rintro ⟨node', hnode', hfd', hlive'⟩
    rcases eq_or_ne id j with rfl | hne
    · rw [List.getElem?_set_self hid, Option.some.injEq] at hnode'
      exact absurd (hnode' ▸ hlive') hphase
    · rw [List.getElem?_set_ne hne] at hnode'
      have hmine := hj.mpr ⟨node', hnode', hfd', hlive'⟩
      rw [howner, Option.some.injEq] at hmine
      exact absurd hmine hne
  · rw [Function.update_of_ne hfd, hj]
    rcases eq_or_ne id j with rfl | hne
    · rw [hnode, List.getElem?_set_self hid]
      simp [Ne.symm hfd]
    · rw [List.getElem?_set_ne hne]

lemma closesOwn_iff {s t : Descriptors} {e : DescriptorEvent} {o : Option ℕ} (hs : s.Faithful)
    (h : s.step e = .ok (t, o)) : s.ClosesOwn e ↔ s.ClosesOnce e := by
  cases e with
  | quit id =>
    obtain ⟨node, hnode, hphase, -, -⟩ := step_quit h
    refine iff_of_true (fun node' hnode' => ?_) trivial
    rw [hnode, Option.some.injEq] at hnode'
    exact hnode' ▸ (hs node.fd id).mpr ⟨node, hnode, rfl, Or.inl hphase⟩
  | leave id =>
    obtain ⟨node, closed, hnode, hphase, -, -⟩ := step_leave h
    obtain ⟨fd, phase⟩ := node
    simp only at hphase
    subst hphase
    simp only [ClosesOwn, ClosesOnce, hnode, Option.some.injEq, forall_eq', hs fd id, ne_eq,
      Node.mk.injEq, WorkerPhase.leaving.injEq]
    cases closed <;> simp [Node.Live]
  | join =>
    obtain ⟨id, node, hcleanup, hnode, hphase, -, -⟩ := step_join h
    refine iff_of_false (fun hown => ?_) fun hnot => hnot
    obtain ⟨node', hnode', -, hlive⟩ := (hs node.fd id).mp (hown id node hcleanup hnode)
    rw [hnode, Option.some.injEq] at hnode'
    rw [← hnode', Node.Live, hphase] at hlive
    simp at hlive
  | accept fd => exact Iff.rfl
  | hangup id => exact Iff.rfl
  | sigint => exact Iff.rfl

lemma step_faithful {s t : Descriptors} {e : DescriptorEvent} {o : Option ℕ} (hs : s.Faithful)
    (hg : s.ClosesOnce e) (h : s.step e = .ok (t, o)) : t.Faithful := by
  cases e with
  | accept fd =>
    obtain ⟨hfree, -, rfl⟩ := step_accept h
    intro g j
    have hj := hs g j
    simp only
    rcases eq_or_ne g fd with rfl | hne
    · rw [Function.update_self]
      constructor
      · intro he
        rw [← Option.some.inj he]
        exact ⟨_, List.getElem?_concat_length, rfl, Or.inl rfl⟩
      · rintro ⟨node, hnode, hfd, hlive⟩
        rcases lt_or_ge j s.nodes.length with hlt | hge
        · rw [List.getElem?_append_left hlt] at hnode
          have howner := hj.mpr ⟨node, hnode, hfd, hlive⟩
          simp [hfree] at howner
        · have hlast : j = s.nodes.length := by
            have hlen := (List.getElem?_eq_some_iff.mp hnode).1
            simp at hlen
            omega
          rw [hlast]
    · rw [Function.update_of_ne hne, hj]
      rcases lt_or_ge j s.nodes.length with hlt | hge
      · rw [List.getElem?_append_left hlt]
      · rw [List.getElem?_eq_none hge, List.getElem?_append_right hge]
        refine iff_of_false (by simp) ?_
        rintro ⟨node, hnode, hfd, -⟩
        have hlast := List.mem_of_getElem? hnode
        rw [List.mem_singleton.mp hlast] at hfd
        exact hne hfd.symm
  | hangup id =>
    obtain ⟨node, hnode, hphase, -, rfl⟩ := step_hangup h
    exact hs.setPhase hnode (Or.inl hphase) (Or.inr rfl)
  | quit id =>
    obtain ⟨node, hnode, hphase, -, rfl⟩ := step_quit h
    exact hs.close hnode (Or.inl hphase) (by simp [Node.Live])
  | leave id =>
    obtain ⟨node, closed, hnode, hphase, -, rfl⟩ := step_leave h
    refine hs.close hnode (Or.inr ?_) (by simp [Node.Live])
    obtain ⟨fd, phase⟩ := node
    simp only at hphase
    subst hphase
    cases closed with
    | true => exact absurd hnode (hg fd)
    | false => rfl
  | sigint =>
    obtain ⟨-, rfl⟩ := step_sigint h
    exact hs
  | join => exact hg.elim

/-- How often the descriptor of a connection has been closed, as its worker sees it. -/
def closedBy (s : Descriptors) (id : ℕ) : ℕ :=
  match s.nodes[id]? with
  | some node => if node.Live then 0 else 1
  | none => 0

lemma closedBy_of_node {s : Descriptors} {id : ℕ} {node : Node} (h : s.nodes[id]? = some node) :
    s.closedBy id = if node.Live then 0 else 1 := by
  rw [closedBy, h]

lemma closedBy_setPhase (s : Descriptors) {id : ℕ} {node : Node} (phase : WorkerPhase)
    (hnode : s.nodes[id]? = some node) (j : ℕ) :
    (s.setPhase id node phase).closedBy j =
      if j = id then if Node.Live ⟨node.fd, phase⟩ then 0 else 1 else s.closedBy j := by
  have hid : id < s.nodes.length := (List.getElem?_eq_some_iff.mp hnode).1
  rcases eq_or_ne j id with rfl | hne
  · rw [if_pos rfl, closedBy_of_node (List.getElem?_set_self hid)]
  · rw [if_neg hne, closedBy, Descriptors.setPhase, List.getElem?_set_ne hne.symm, closedBy]

lemma step_closedBy {s t : Descriptors} {e : DescriptorEvent} {o : Option ℕ}
    (hg : s.ClosesOnce e) (h : s.step e = .ok (t, o)) (j : ℕ) :
    [o].count (some j) + s.closedBy j = t.closedBy j := by
  cases e with
  | accept fd =>
    obtain ⟨-, rfl, rfl⟩ := step_accept h
    simp only [closedBy]
    rcases lt_or_ge j s.nodes.length with hlt | hge
    · simp [List.getElem?_append_left hlt]
    · rw [List.getElem?_eq_none hge, List.getElem?_append_right hge]
      rcases eq_or_ne j s.nodes.length with rfl | hne
      · simp [Node.Live]
      · rw [List.getElem?_eq_none (by simp; omega)]
        simp
  | hangup id =>
    obtain ⟨node, hnode, hphase, rfl, rfl⟩ := step_hangup h
    rw [closedBy_setPhase s _ hnode]
    rcases eq_or_ne j id with rfl | hne
    · simp [closedBy_of_node hnode, Node.Live, hphase]
    · simp [hne]
  | quit id =>
    obtain ⟨node, hnode, hphase, rfl, rfl⟩ := step_quit h
    have hsame : (s.close node.fd).closedBy j = s.closedBy j := rfl
    rw [closedBy_setPhase (s.close node.fd) _ hnode, hsame]
    rcases eq_or_ne j id with rfl | hne
    · simp [closedBy_of_node hnode, Node.Live, hphase]
    · simp [hne, hne.symm]
  | leave id =>
    obtain ⟨⟨fd, phase⟩, closed, hnode, hphase, rfl, rfl⟩ := step_leave h
    simp only at hphase
    subst hphase
    have hsame : (s.close fd).closedBy j = s.closedBy j := rfl
    rw [closedBy_setPhase (s.close fd) _ hnode, hsame]
    rcases eq_or_ne j id with rfl | hne
    · cases closed with
      | true => exact absurd hnode (hg fd)
      | false => simp [closedBy_of_node hnode, Node.Live]
    · simp [hne, hne.symm]
  | sigint =>
    obtain ⟨rfl, rfl⟩ := step_sigint h
    simp [closedBy]
  | join => exact hg.elim

lemma run_closedBy {s t : Descriptors} {events : List DescriptorEvent} {outs : List (Option ℕ)}
    (hg : Guarded step ClosesOnce s events) (h : Machine.run step s events = .ok (t, outs))
    (j : ℕ) : outs.count (some j) + s.closedBy j = t.closedBy j := by
  induction events generalizing s outs with
  | nil =>
    rw [run_nil, Except.ok.injEq, Prod.mk.injEq] at h
    simp [← h.1, ← h.2]
  | cons e events ih =>
    obtain ⟨u, o, os, hstep, hrest, rfl⟩ := run_cons_ok.mp h
    have hfirst := step_closedBy hg.1 hstep j
    have hlater := ih (hg.2 u o hstep) hrest
    have hsplit : (o :: os).count (some j) = [o].count (some j) + os.count (some j) := by
      rw [← List.count_append, List.singleton_append]
    omega

/-- The clean-up closes nothing as long as every descriptor is closed once. -/
lemma step_cleanup {s t : Descriptors} {e : DescriptorEvent} {o : Option ℕ}
    (hs : ∀ n, s.cleanup = some n → n = 0) (hg : s.ClosesOnce e) (h : s.step e = .ok (t, o)) :
    ∀ n, t.cleanup = some n → n = 0 := by
  cases e with
  | accept fd =>
    obtain ⟨-, -, rfl⟩ := step_accept h
    exact hs
  | hangup id =>
    obtain ⟨node, -, -, -, rfl⟩ := step_hangup h
    exact hs
  | quit id =>
    obtain ⟨node, -, -, -, rfl⟩ := step_quit h
    exact hs
  | leave id =>
    obtain ⟨node, closed, -, -, -, rfl⟩ := step_leave h
    exact hs
  | sigint =>
    obtain ⟨-, rfl⟩ := step_sigint h
    simp
  | join => exact hg.elim

lemma step_nodes {s t : Descriptors} {e : DescriptorEvent} {o : Option ℕ}
    (h : s.step e = .ok (t, o)) : s.nodes.length ≤ t.nodes.length := by
  cases e with
  | accept fd =>
    obtain ⟨-, -, rfl⟩ := step_accept h
    simp
  | hangup id =>
    obtain ⟨node, -, -, -, rfl⟩ := step_hangup h
    simp [Descriptors.setPhase]
  | quit id =>
    obtain ⟨node, -, -, -, rfl⟩ := step_quit h
    simp [Descriptors.setPhase, Descriptors.close]
  | leave id =>
    obtain ⟨node, closed, -, -, -, rfl⟩ := step_leave h
    simp [Descriptors.setPhase, Descriptors.close]
  | sigint =>
    obtain ⟨-, rfl⟩ := step_sigint h
    simp
  | join =>
    obtain ⟨id, node, -, -, -, -, rfl⟩ := step_join h
    simp [Descriptors.close]

/-- Without a connection there is nothing to close. -/
lemma closesOnce_of_none {s t : Descriptors} {events : List DescriptorEvent}
    {outs : List (Option ℕ)} (h : Machine.run step s events = .ok (t, outs)) (ht : t.nodes = []) :
    s.nodes = [] ∧ Guarded step ClosesOnce s events := by
  induction events generalizing s outs with
  | nil =>
    rw [run_nil, Except.ok.injEq, Prod.mk.injEq] at h
    exact ⟨h.1 ▸ ht, trivial⟩
  | cons e events ih =>
    obtain ⟨u, o, os, hstep, hrest, -⟩ := run_cons_ok.mp h
    obtain ⟨hu, hlater⟩ := ih hrest
    have hs : s.nodes = [] := by
      have hle := step_nodes hstep
      rw [hu] at hle
      exact List.length_eq_zero_iff.mp (by simpa using hle)
    refine ⟨hs, Guarded.cons ?_ hstep hlater⟩
    cases e with
    | leave id => simp [ClosesOnce, hs]
    | join =>
      obtain ⟨id, node, -, hnode, -⟩ := step_join hstep
      simp [hs] at hnode
    | _ => trivial

/-- When every close of an accepted descriptor finds it open and with its own connection:
exactly when no worker that closed it in the loop closes it again and the clean-up closes
none, and then each is closed once. So once the clean-up is through, it has been so only
if no connection was ever accepted. -/
theorem descriptor_ownership (events : List DescriptorEvent) (t : Descriptors)
    (outs : List (Option ℕ)) (h : run events = .ok (t, outs)) :
    (Guarded step ClosesOwn start events ↔ Guarded step ClosesOnce start events) ∧
      (Guarded step ClosesOwn start events → ∀ id node, t.nodes[id]? = some node →
        outs.count (some id) = if node.Live then 0 else 1) ∧
      (t.cleanup = some t.nodes.length →
        (Guarded step ClosesOwn start events ↔ t.nodes = [])) := by
  have hiff : Guarded step ClosesOwn start events ↔ Guarded step ClosesOnce start events :=
    guarded_iff Faithful (fun _ _ _ _ hs _ hstep => closesOwn_iff hs hstep)
      (fun _ _ _ _ hs _ hg hstep => step_faithful hs hg hstep) start_faithful
      (guarded_always start) h
  refine ⟨hiff, fun hown id node hnode => ?_, fun hdone => ?_⟩
  · have hcount := run_closedBy (hiff.mp hown) h id
    rw [closedBy_of_node hnode] at hcount
    simpa [closedBy, start] using hcount
  · rw [hiff]
    refine ⟨fun hg => ?_, fun hnone => (closesOnce_of_none h hnone).2⟩
    have hzero := run_invariant ClosesOnce (fun s => ∀ n, s.cleanup = some n → n = 0)
      (fun _ _ _ _ hs hg hstep => step_cleanup hs hg hstep) (by simp [start]) hg h
    exact List.length_eq_zero_iff.mp (hzero _ hdone)

theorem descriptor_ownership_one_connection :
    ∃ t outs, run [.accept 5, .hangup 0, .leave 0] = .ok (t, outs) ∧
      (Guarded step ClosesOwn start [.accept 5, .hangup 0, .leave 0] ↔
        Guarded step ClosesOnce start [.accept 5, .hangup 0, .leave 0]) :=
  ⟨_, _, rfl, (descriptor_ownership [.accept 5, .hangup 0, .leave 0] _ _ rfl).1⟩

/-- Connection 1 gets the number that connection 0 has given back, and the clean-up closes
it for connection 0. -/
theorem descriptor_ownership_reused :
    ¬ ∀ events t outs, run events = .ok (t, outs) → Guarded step ClosesOwn start events := by
  intro h
  have hall := h [.accept 5, .hangup 0, .leave 0, .accept 5, .sigint, .join] _ _ rfl
  obtain ⟨-, hall⟩ := hall
  obtain ⟨-, hall⟩ := hall _ _ rfl
  obtain ⟨-, hall⟩ := hall _ _ rfl
  obtain ⟨-, hall⟩ := hall _ _ rfl
  obtain ⟨-, hall⟩ := hall _ _ rfl
  obtain ⟨hjoin, -⟩ := hall _ _ rfl
  have howner := hjoin 0 ⟨5, .returned⟩ rfl rfl
  exact absurd howner (by decide)

end Descriptors

end Aesd
