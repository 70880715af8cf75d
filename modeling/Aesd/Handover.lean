import Aesd.Kernel

/-! Handing a connection over to its worker, from aesdsocket.c. `create_node` locks
`linked_list_mutex` and leaves the unlocking to the worker it starts; the worker unlocks
when it has copied the address that `create_node` stores in the node. -/
namespace Aesd
open Machine

/-- The next statement of the accept loop and of `create_node`. `failed` says whether
`pthread_create` has failed, which nobody looks at. -/
inductive Creator
  | accept
  | lock (remoteIp : Bytes)
  | fill (remoteIp : Bytes)
  | create (remoteIp : Bytes)
  | store (remoteIp : Bytes) (failed : Bool)
  | insert (failed : Bool)
  deriving DecidableEq, Repr

/-- Not in `create_node`, or waiting for its lock. -/
def Creator.Outside : Creator → Prop
  | .accept => True
  | .lock _ => True
  | _ => False

/-- How far the worker of a node is with the hand-over. -/
inductive Starting
  | absent
  | started
  | copied
  | released
  deriving DecidableEq, Repr

/-- `remoteIp` is the address of the connection, `ipAddr` what the node says it is. -/
structure ConnNode where
  remoteIp : Bytes
  ipAddr : Option Bytes
  worker : Starting
  deriving DecidableEq, Repr

structure Handover where
  locked : Bool
  creator : Creator
  threadIdCounter : ℕ
  node : ℕ → Option ConnNode

inductive HandoverEvent
  | accept (remoteIp : Bytes)
  | lock
  | fill
  | pthreadCreate (succeeds : Bool)
  | strcpy
  | insert
  | copy (id : ℕ)
  | unlock (id : ℕ)

namespace Handover

def start : Handover := ⟨false, .accept, 0, fun _ => none⟩

def setNode (s : Handover) (id : ℕ) (n : ConnNode) : Handover :=
  { s with node := Function.update s.node id (some n) }

/-- Statements that are not next do not occur; a worker of a node that was not started has
none. -/
def step (s : Handover) : HandoverEvent → Except Stop (Handover × Unit)
  | .accept remoteIp =>
    match s.creator with
    | .accept => .ok ({ s with creator := .lock remoteIp }, ())
    | _ => .error .blocked
  | .lock =>
    match s.creator with
    | .lock remoteIp =>
      if s.locked then .error .blocked
      else .ok ({ s with locked := true, creator := .fill remoteIp }, ())
    | _ => .error .blocked
  | .fill =>
    match s.creator with
    | .fill remoteIp =>
      .ok ({ s.setNode (s.threadIdCounter + 1) ⟨remoteIp, none, .absent⟩ with
        threadIdCounter := s.threadIdCounter + 1
        creator := .create remoteIp }, ())
    | _ => .error .blocked
  | .pthreadCreate succeeds =>
    match s.creator, s.node s.threadIdCounter with
    | .create remoteIp, some n =>
      .ok ({ s.setNode s.threadIdCounter { n with worker := if succeeds then .started else .absent }
        with creator := .store remoteIp (!succeeds) }, ())
    | _, _ => .error .blocked
  | .strcpy =>
    match s.creator, s.node s.threadIdCounter with
    | .store remoteIp failed, some n =>
      .ok ({ s.setNode s.threadIdCounter { n with ipAddr := some remoteIp } with
        creator := .insert failed }, ())
    | _, _ => .error .blocked
  | .insert =>
    match s.creator with
    | .insert _ => .ok ({ s with creator := .accept }, ())
    | _ => .error .blocked
  | .copy id =>
    match s.node id with
    | some ⟨remoteIp, ipAddr, .started⟩ => .ok (s.setNode id ⟨remoteIp, ipAddr, .copied⟩, ())
    | _ => .error .blocked
  | .unlock id =>
    match s.node id with
    | some ⟨remoteIp, ipAddr, .copied⟩ =>
      .ok ({ s.setNode id ⟨remoteIp, ipAddr, .released⟩ with locked := false }, ())
    | _ => .error .blocked

abbrev run (events : List HandoverEvent) : Except Stop (Handover × List Unit) :=
  Machine.run step start events

/-- The worker is started and has still to unlock the mutex. -/
def Pending (s : Handover) (id : ℕ) : Prop :=
  ∃ n, s.node id = some n ∧ (n.worker = .started ∨ n.worker = .copied)

/-- What a worker copies is the address of its connection. -/
def CopiesStored (s : Handover) : HandoverEvent → Prop
  | .copy id => ∀ n, s.node id = some n → n.ipAddr = some n.remoteIp
  | _ => True

/-- A mutex that is held outside `create_node` will be released by a worker. -/
def Released (s : Handover) : Prop :=
  s.creator.Outside → s.locked = true → ∃ id, s.Pending id

/-- No worker copies between `pthread_create` and the `strcpy` behind it, and `create_node`
does not go on to its end when `pthread_create` has failed. -/
def InOrder (s : Handover) : HandoverEvent → Prop
  | .copy _ => ∀ remoteIp failed, s.creator ≠ .store remoteIp failed
  | .insert => s.creator ≠ .insert true
  | _ => True

section Inversion

variable {s t : Handover} {id : ℕ} {o : Unit}

lemma step_accept {remoteIp : Bytes} (h : s.step (.accept remoteIp) = .ok (t, o)) :
    s.creator = .accept ∧ t = { s with creator := .lock remoteIp } := by
  simp only [step] at h
  split at h
  · rename_i hc
    simp only [Except.ok.injEq, Prod.mk.injEq] at h
    exact ⟨hc, h.1.symm⟩
  · simp at h

lemma step_lock (h : s.step .lock = .ok (t, o)) :
    ∃ remoteIp, s.creator = .lock remoteIp ∧ s.locked = false ∧
      t = { s with locked := true, creator := .fill remoteIp } := by
  simp only [step] at h
  split at h
  · rename_i remoteIp hc
    split_ifs at h with hfree
    simp only [Except.ok.injEq, Prod.mk.injEq] at h
    exact ⟨remoteIp, hc, by simpa using hfree, h.1.symm⟩
  · simp at h

lemma step_fill (h : s.step .fill = .ok (t, o)) :
    ∃ remoteIp, s.creator = .fill remoteIp ∧
      t = { s.setNode (s.threadIdCounter + 1) ⟨remoteIp, none, .absent⟩ with
        threadIdCounter := s.threadIdCounter + 1
        creator := .create remoteIp } := by
  simp only [step] at h
  split at h
  · rename_i remoteIp hc
    simp only [Except.ok.injEq, Prod.mk.injEq] at h
    exact ⟨remoteIp, hc, h.1.symm⟩
  · simp at h

lemma step_pthreadCreate {succeeds : Bool} (h : s.step (.pthreadCreate succeeds) = .ok (t, o)) :
    ∃ remoteIp n, s.creator = .create remoteIp ∧ s.node s.threadIdCounter = some n ∧
      t = { s.setNode s.threadIdCounter
          { n with worker := if succeeds then .started else .absent } with
        creator := .store remoteIp (!succeeds) } := by
  simp only [step] at h
  split at h
  · rename_i remoteIp n hc hn
    simp only [Except.ok.injEq, Prod.mk.injEq] at h
    exact ⟨remoteIp, n, hc, hn, h.1.symm⟩
  · simp at h

lemma step_strcpy (h : s.step .strcpy = .ok (t, o)) :
    ∃ remoteIp failed n, s.creator = .store remoteIp failed ∧
      s.node s.threadIdCounter = some n ∧
      t = { s.setNode s.threadIdCounter { n with ipAddr := some remoteIp } with
        creator := .insert failed } := by
  simp only [step] at h
  split at h
  · rename_i remoteIp failed n hc hn
    simp only [Except.ok.injEq, Prod.mk.injEq] at h
    exact ⟨remoteIp, failed, n, hc, hn, h.1.symm⟩
  · simp at h

lemma step_insert (h : s.step .insert = .ok (t, o)) :
    ∃ failed, s.creator = .insert failed ∧ t = { s with creator := .accept } := by
  simp only [step] at h
  split at h
  · rename_i failed hc
    simp only [Except.ok.injEq, Prod.mk.injEq] at h
    exact ⟨failed, hc, h.1.symm⟩
  · simp at h

lemma step_copy (h : s.step (.copy id) = .ok (t, o)) :
    ∃ n, s.node id = some n ∧ n.worker = .started ∧
      t = s.setNode id { n with worker := .copied } := by
  simp only [step] at h
  split at h
  · rename_i remoteIp ipAddr hn
    simp only [Except.ok.injEq, Prod.mk.injEq] at h
    exact ⟨_, hn, rfl, h.1.symm⟩
  · simp at h

lemma step_unlock (h : s.step (.unlock id) = .ok (t, o)) :
    ∃ n, s.node id = some n ∧ n.worker = .copied ∧
      t = { s.setNode id { n with worker := .released } with locked := false } := by
  simp only [step] at h
  split at h
  · rename_i remoteIp ipAddr hn
    simp only [Except.ok.injEq, Prod.mk.injEq] at h
    exact ⟨_, hn, rfl, h.1.symm⟩
  · simp at h

end Inversion

/-- The node of a connection, if there is one, has the connection's address. -/
def Stored (s : Handover) (id : ℕ) : Prop :=
  ∀ n, s.node id = some n → n.ipAddr = some n.remoteIp

/-- What holds of the mutex and the newest node at each statement of `create_node`. -/
def AtStatement (s : Handover) : Prop :=
  let newest := s.threadIdCounter
  match s.creator with
  | .accept => s.Stored newest ∧ (s.locked = true → s.Pending newest)
  | .lock _ => s.Stored newest ∧ (s.locked = true → s.Pending newest)
  | .fill _ => s.Stored newest ∧ s.locked = true ∧ ¬s.Pending newest
  | .create remoteIp => s.locked = true ∧ s.node newest = some ⟨remoteIp, none, .absent⟩
  | .store remoteIp failed => s.locked = true ∧
      s.node newest = some ⟨remoteIp, none, if failed then .absent else .started⟩
  | .insert true => s.Stored newest ∧ s.locked = true ∧ ¬s.Pending newest
  | .insert false => s.Stored newest ∧ (s.locked = true → s.Pending newest)

/-- Only the newest worker may be pending, and while it is the mutex is locked. -/
structure Orderly (s : Handover) : Prop where
  pending : ∀ id, s.Pending id → id = s.threadIdCounter ∧ s.locked = true
  stored : ∀ id, id ≠ s.threadIdCounter → s.Stored id
  statement : s.AtStatement

lemma start_orderly : start.Orderly := by
  refine ⟨?_, ?_, ?_⟩ <;> simp [start, Pending, Stored, AtStatement]

/-- `create_node` is not under way, or has stored the address for a worker it has started. -/
def Creator.Through : Creator → Prop
  | .accept => True
  | .lock _ => True
  | .insert false => True
  | _ => False

lemma atStatement_through {s : Handover} (h : Creator.Through s.creator) :
    s.AtStatement ↔
      s.Stored s.threadIdCounter ∧ (s.locked = true → s.Pending s.threadIdCounter) := by
  unfold AtStatement
  split <;> simp_all [Creator.Through]

lemma Orderly.released {s : Handover} (hs : s.Orderly) : s.Released := by
  intro hout hlocked
  have hthrough : Creator.Through s.creator := by
    cases hc : s.creator <;> simp_all [Creator.Outside, Creator.Through]
  exact ⟨_, ((atStatement_through hthrough).mp hs.statement).2 hlocked⟩

/-- A worker is pending only behind `pthread_create`. -/
lemma Orderly.through {s : Handover} (hs : s.Orderly) {id : ℕ} (hpending : s.Pending id)
    (hnot : ∀ remoteIp failed, s.creator ≠ .store remoteIp failed) :
    Creator.Through s.creator := by
  obtain ⟨rfl, -⟩ := hs.pending id hpending
  have hstatement := hs.statement
  unfold AtStatement at hstatement
  split at hstatement
  · rename_i hc
    simp [hc, Creator.Through]
  · rename_i hc
    simp [hc, Creator.Through]
  · exact absurd hpending hstatement.2.2
  · obtain ⟨n, hn, hworker⟩ := hpending
    rw [hstatement.2, Option.some.injEq] at hn
    simp [← hn] at hworker
  · rename_i remoteIp failed hc
    exact absurd hc (hnot remoteIp failed)
  · exact absurd hpending hstatement.2.2
  · rename_i hc
    simp [hc, Creator.Through]

/-- A worker that is about to copy finds the address unless `create_node` is still to store
it. -/
lemma Orderly.copies_iff {s : Handover} (hs : s.Orderly) {id : ℕ} {n : ConnNode}
    (hn : s.node id = some n) (hstarted : n.worker = .started) :
    s.CopiesStored (.copy id) ↔ s.InOrder (.copy id) := by
  have hpending : s.Pending id := ⟨n, hn, Or.inl hstarted⟩
  obtain ⟨rfl, hlocked⟩ := hs.pending id hpending
  constructor
  · intro hcopies remoteIp failed hc
    have hstatement := hs.statement
    simp only [AtStatement, hc] at hstatement
    simpa using hcopies _ hstatement.2
  · intro hnot
    exact ((atStatement_through (hs.through hpending hnot)).mp hs.statement).1

lemma pending_setNode_self (s : Handover) (id : ℕ) (n : ConnNode) :
    (s.setNode id n).Pending id ↔ n.worker = .started ∨ n.worker = .copied := by
  simp [Pending, setNode]

lemma pending_setNode_ne (s : Handover) {id j : ℕ} (n : ConnNode) (hne : j ≠ id) :
    (s.setNode id n).Pending j ↔ s.Pending j := by
  simp [Pending, setNode, hne]

lemma stored_setNode_self (s : Handover) (id : ℕ) (n : ConnNode) :
    (s.setNode id n).Stored id ↔ n.ipAddr = some n.remoteIp := by
  simp [Stored, setNode]

lemma stored_setNode_ne (s : Handover) {id j : ℕ} (n : ConnNode) (hne : j ≠ id) :
    (s.setNode id n).Stored j ↔ s.Stored j := by
  simp [Stored, setNode, hne]

/-- Work on the newest node, while the mutex is locked, leaves the others as they were. -/
lemma Orderly.newest {s : Handover} (hs : s.Orderly) (hlocked : s.locked = true) (n : ConnNode) :
    let t := s.setNode s.threadIdCounter n
    (∀ id, t.Pending id → id = s.threadIdCounter ∧ s.locked = true) ∧
      ∀ id, id ≠ s.threadIdCounter → t.Stored id := by
  refine ⟨fun id hid => ?_, fun id hne => (stored_setNode_ne s n hne).mpr (hs.stored id hne)⟩
  rcases eq_or_ne id s.threadIdCounter with rfl | hne
  · exact ⟨rfl, hlocked⟩
  · exact hs.pending id ((pending_setNode_ne s n hne).mp hid)

section Statements

variable {s t : Handover} {o : Unit}

lemma lock_orderly (hs : s.Orderly) (h : s.step .lock = .ok (t, o)) : t.Orderly := by
  obtain ⟨remoteIp, hc, hfree, rfl⟩ := step_lock h
  have hnone : ∀ id, ¬s.Pending id := by
    intro id hid
    have hlocked := (hs.pending id hid).2
    simp [hfree] at hlocked
  have hstatement := hs.statement
  simp only [AtStatement, hc] at hstatement
  exact ⟨fun id hid => absurd hid (hnone id), hs.stored, hstatement.1, rfl, hnone _⟩

/-- The node that was the newest has its address and no pending worker. -/
lemma fill_orderly (hs : s.Orderly) (h : s.step .fill = .ok (t, o)) : t.Orderly := by
  obtain ⟨remoteIp, hc, rfl⟩ := step_fill h
  have hstatement := hs.statement
  simp only [AtStatement, hc] at hstatement
  obtain ⟨hnewest, hlocked, hnone⟩ := hstatement
  refine ⟨fun id hid => ?_, fun id hne => ?_, hlocked, Function.update_self ..⟩
  · rcases eq_or_ne id (s.threadIdCounter + 1) with rfl | hne
    · simpa using (pending_setNode_self s _ _).mp hid
    · have hold := (pending_setNode_ne s _ hne).mp hid
      obtain ⟨rfl, -⟩ := hs.pending id hold
      exact absurd hold hnone
  · refine (stored_setNode_ne s _ hne).mpr ?_
    rcases eq_or_ne id s.threadIdCounter with rfl | hold
    · exact hnewest
    · exact hs.stored id hold

lemma pthreadCreate_orderly {succeeds : Bool} (hs : s.Orderly)
    (h : s.step (.pthreadCreate succeeds) = .ok (t, o)) : t.Orderly := by
  obtain ⟨remoteIp, n, hc, hn, rfl⟩ := step_pthreadCreate h
  have hstatement := hs.statement
  simp only [AtStatement, hc] at hstatement
  obtain ⟨hlocked, hnode⟩ := hstatement
  rw [hn, Option.some.injEq] at hnode
  subst hnode
  obtain ⟨hothers, hkept⟩ := hs.newest hlocked _
  refine ⟨hothers, hkept, hlocked, ?_⟩
  cases succeeds <;> exact Function.update_self ..

lemma strcpy_orderly (hs : s.Orderly) (h : s.step .strcpy = .ok (t, o)) : t.Orderly := by
  obtain ⟨remoteIp, failed, n, hc, hn, rfl⟩ := step_strcpy h
  have hstatement := hs.statement
  simp only [AtStatement, hc] at hstatement
  obtain ⟨hlocked, hnode⟩ := hstatement
  rw [hn, Option.some.injEq] at hnode
  subst hnode
  obtain ⟨hothers, hkept⟩ := hs.newest hlocked _
  refine ⟨hothers, hkept, ?_⟩
  cases failed with
  | true =>
    refine ⟨(stored_setNode_self s _ _).mpr rfl, hlocked, fun hnew => ?_⟩
    simpa using (pending_setNode_self s _ _).mp hnew
  | false =>
    exact ⟨(stored_setNode_self s _ _).mpr rfl,
      fun _ => (pending_setNode_self s _ _).mpr (Or.inl rfl)⟩

lemma copy_orderly {id : ℕ} (hs : s.Orderly) (hg : s.InOrder (.copy id))
    (h : s.step (.copy id) = .ok (t, o)) : t.Orderly := by
  obtain ⟨n, hn, hworker, rfl⟩ := step_copy h
  have hid : s.Pending id := ⟨n, hn, Or.inl hworker⟩
  have hthrough := hs.through hid hg
  obtain ⟨rfl, hlocked⟩ := hs.pending id hid
  obtain ⟨hnewest, -⟩ := (atStatement_through hthrough).mp hs.statement
  obtain ⟨hothers, hkept⟩ := hs.newest hlocked { n with worker := .copied }
  refine ⟨hothers, hkept, (atStatement_through ?_).mpr ⟨?_, fun _ => ?_⟩⟩
  · exact hthrough
  · exact (stored_setNode_self s _ _).mpr (hnewest n hn)
  · exact (pending_setNode_self s _ _).mpr (Or.inr rfl)

/-- A worker that has copied the address is not that of a `create_node` before its `strcpy`. -/
lemma unlock_orderly {id : ℕ} (hs : s.Orderly) (h : s.step (.unlock id) = .ok (t, o)) :
    t.Orderly := by
  obtain ⟨n, hn, hworker, rfl⟩ := step_unlock h
  have hid : s.Pending id := ⟨n, hn, Or.inr hworker⟩
  obtain ⟨rfl, hlocked⟩ := hs.pending id hid
  have hthrough : Creator.Through s.creator := by
    refine hs.through hid fun remoteIp failed hc => ?_
    have hstatement := hs.statement
    simp only [AtStatement, hc] at hstatement
    rw [hn, Option.some.injEq] at hstatement
    rw [hstatement.2] at hworker
    cases failed <;> simp at hworker
  obtain ⟨hnewest, -⟩ := (atStatement_through hthrough).mp hs.statement
  obtain ⟨hothers, hkept⟩ := hs.newest hlocked { n with worker := .released }
  refine ⟨fun j hj => ?_, hkept, (atStatement_through ?_).mpr ⟨?_, by simp⟩⟩
  · obtain ⟨rfl, -⟩ := hothers j hj
    simpa using (pending_setNode_self s _ _).mp hj
  · exact hthrough
  · exact (stored_setNode_self s _ _).mpr (hnewest n hn)

/-- Every statement keeps the order, if it is in order itself. -/
lemma step_orderly {e : HandoverEvent} (hs : s.Orderly) (hg : s.InOrder e)
    (h : s.step e = .ok (t, o)) : t.Orderly := by
  have hstatement := hs.statement
  cases e with
  | accept remoteIp =>
    obtain ⟨hc, rfl⟩ := step_accept h
    simp only [AtStatement, hc] at hstatement
    exact ⟨hs.pending, hs.stored, hstatement⟩
  | lock => exact lock_orderly hs h
  | fill => exact fill_orderly hs h
  | pthreadCreate succeeds => exact pthreadCreate_orderly hs h
  | strcpy => exact strcpy_orderly hs h
  | insert =>
    obtain ⟨failed, hc, rfl⟩ := step_insert h
    cases failed with
    | true => exact absurd hc hg
    | false =>
      simp only [AtStatement, hc] at hstatement
      exact ⟨hs.pending, hs.stored, hstatement⟩
  | copy id => exact copy_orderly hs hg h
  | unlock id => exact unlock_orderly hs h

end Statements

/-- A `create_node` that goes on after a failed `pthread_create` leaves the mutex locked
behind it, with no worker to release it. -/
lemma Orderly.stuck {s t : Handover} {o : Unit} (hs : s.Orderly) (hc : s.creator = .insert true)
    (h : s.step .insert = .ok (t, o)) : ¬t.Released := by
  obtain ⟨failed, -, rfl⟩ := step_insert h
  have hstatement := hs.statement
  simp only [AtStatement, hc] at hstatement
  obtain ⟨-, hlocked, hnone⟩ := hstatement
  intro hreleased
  obtain ⟨id, hid⟩ := hreleased trivial hlocked
  obtain ⟨rfl, -⟩ := hs.pending id hid
  exact hnone hid

/-- When every worker copies the address of its connection, and a mutex held outside
`create_node` has a worker still to release it: exactly when no worker copies between
`pthread_create` and `strcpy`, and `create_node` does not go on to its end after a
`pthread_create` that failed. -/
theorem connection_handover (events : List HandoverEvent) (t : Handover) (os : List Unit)
    (h : run events = .ok (t, os)) :
    Guarded step CopiesStored start events ∧ Throughout step Released start events ↔
      Guarded step InOrder start events := by
  rw [throughout_iff_guarded, and_iff_right start_orderly.released, ← guarded_and]
  refine guarded_iff Orderly (fun s e t o hs _ hstep => ?_)
    (fun s e t o hs _ hg hstep => step_orderly hs hg hstep) start_orderly (guarded_always start) h
  have hreleased : s.InOrder e → ∀ u p, s.step e = .ok (u, p) → u.Released :=
    fun hg u p hu => (step_orderly hs hg hu).released
  cases e with
  | copy id =>
    obtain ⟨n, hn, hworker, -⟩ := step_copy hstep
    rw [hs.copies_iff hn hworker]
    exact ⟨And.left, fun hg => ⟨hg, hreleased hg⟩⟩
  | insert =>
    refine ⟨fun hp hc => ?_, fun hg => ⟨trivial, hreleased hg⟩⟩
    exact hs.stuck hc hstep (hp.2 t o hstep)
  | _ => exact ⟨fun _ => trivial, fun hg => ⟨trivial, hreleased hg⟩⟩

/-- One connection, handed over in the order the code means. -/
def oneConnection : List HandoverEvent :=
  [.accept [49], .lock, .fill, .pthreadCreate true, .strcpy, .copy 1, .insert, .unlock 1]

theorem connection_handover_one :
    ∃ t os, run oneConnection = .ok (t, os) ∧
      (Guarded step CopiesStored start oneConnection ∧
          Throughout step Released start oneConnection ↔
        Guarded step InOrder start oneConnection) :=
  ⟨_, _, rfl, connection_handover oneConnection _ _ rfl⟩

/-- The worker runs before `create_node` stores the address. -/
theorem connection_handover_early_copy :
    ¬ ∀ events t os, run events = .ok (t, os) →
      Guarded step CopiesStored start events ∧ Throughout step Released start events := by
  intro h
  obtain ⟨hall, -⟩ := h [.accept [49], .lock, .fill, .pthreadCreate true, .copy 1] _ _ rfl
  obtain ⟨-, hall⟩ := hall
  obtain ⟨-, hall⟩ := hall _ _ rfl
  obtain ⟨-, hall⟩ := hall _ _ rfl
  obtain ⟨-, hall⟩ := hall _ _ rfl
  obtain ⟨hcopy, -⟩ := hall _ _ rfl
  have haddress := hcopy ⟨[49], none, .started⟩ rfl
  exact absurd haddress (by decide)

end Handover

end Aesd
