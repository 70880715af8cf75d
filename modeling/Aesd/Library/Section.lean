import Aesd.Library.Machine

/-! Routines that touch shared state only between a lock and its unlock, phase by phase, in
any number of threads. However the phases of the threads interleave, the routines that have
come to an end make up a serial execution, in the order in which they ended. -/
namespace Section
open Machine

/-- A routine begins with the phase `enter` gives. A phase leads to another or ends the
routine, with its result and with the lock given back or not. -/
structure Routine (σ ω φ ρ ε : Type*) where
  enter : ω → φ
  work : φ → σ → Except ε (σ × (φ ⊕ ρ × Bool))

inductive Thread (ω φ : Type*)
  | idle
  | waiting (op : ω)
  | inside (op : ω) (phase : φ)

structure State (σ ω φ : Type*) where
  shared : σ
  owner : Option ℕ
  thread : ℕ → Thread ω φ

inductive Event (ω : Type*)
  | call (id : ℕ) (op : ω)
  | giveUp (id : ℕ)
  | lock (id : ℕ)
  | work (id : ℕ)

variable {σ ω φ ρ ε : Type*}

def State.setThread (s : State σ ω φ) (id : ℕ) (t : Thread ω φ) : State σ ω φ :=
  { s with thread := Function.update s.thread id t }

variable (R : Routine σ ω φ ρ ε)

/-- The output is what a routine that ends returns. An event that cannot happen is an error
without a reason. -/
def step (s : State σ ω φ) : Event ω → Except (Option ε) (State σ ω φ × Option (ω × ρ))
  | .call id op =>
    match s.thread id with
    | .idle => .ok (s.setThread id (.waiting op), none)
    | _ => .error none
  | .giveUp id =>
    match s.thread id with
    | .waiting _ => .ok (s.setThread id .idle, none)
    | _ => .error none
  | .lock id =>
    match s.thread id, s.owner with
    | .waiting op, none =>
      .ok ({ s.setThread id (.inside op (R.enter op)) with owner := some id }, none)
    | _, _ => .error none
  | .work id =>
    match s.thread id with
    | .inside op p =>
      match R.work p s.shared with
      | .error e => .error (some e)
      | .ok (shared, .inl p) => .ok ({ s.setThread id (.inside op p) with shared := shared }, none)
      | .ok (shared, .inr (r, released)) =>
        .ok (⟨shared, if released then none else some id, Function.update s.thread id .idle⟩,
          some (op, r))
    | _ => .error none

/-- The routine alone, from a phase on, to its end. -/
inductive Completes : φ → σ → σ → ρ → Bool → Prop
  | last {p s s' r b} : R.work p s = .ok (s', .inr (r, b)) → Completes p s s' r b
  | more {p s p' s' s'' r b} : R.work p s = .ok (s', .inl p') → Completes p' s' s'' r b →
      Completes p s s'' r b

/-- The routine alone, from a phase to a later one. -/
inductive Reaches (p : φ) (s : σ) : φ → σ → Prop
  | refl : Reaches p s p s
  | tail {p' s' p'' s''} : Reaches p s p' s' → R.work p' s' = .ok (s'', .inl p'') →
      Reaches p s p'' s''

/-- Whole routines one after the other; the flag says whether the last gave the lock back. -/
inductive OneByOne (s : σ) : List (ω × ρ) → σ → Bool → Prop
  | nil : OneByOne s [] s true
  | snoc {ops s' op r s'' b} : OneByOne s ops s' true → Completes R (R.enter op) s' s'' r b →
      OneByOne s (ops ++ [(op, r)]) s'' b

variable {R}

lemma completes_iff {p : φ} {s s' : σ} {r : ρ} {b : Bool} :
    Completes R p s s' r b ↔ R.work p s = .ok (s', .inr (r, b)) ∨
      ∃ p' s₁, R.work p s = .ok (s₁, .inl p') ∧ Completes R p' s₁ s' r b := by
  constructor
  · intro h
    cases h with
    | last hwork => exact Or.inl hwork
    | more hwork hrest => exact Or.inr ⟨_, _, hwork, hrest⟩
  · rintro (hwork | ⟨p', s₁, hwork, hrest⟩)
    · exact .last hwork
    · exact .more hwork hrest

lemma Reaches.completes {p p' : φ} {s s' s'' : σ} {r : ρ} {b : Bool} (h : Reaches R p s p' s')
    (hend : Completes R p' s' s'' r b) : Completes R p s s'' r b := by
  induction h with
  | refl => exact hend
  | tail _ hwork ih => exact ih (.more hwork hend)

def Thread.Inside (t : Thread ω φ) : Prop := ∃ op p, t = .inside op p

/-- What has ended is a serial execution from `s₀`. The shared state is where that leaves it,
or where the one routine inside the lock has come from there. -/
inductive Linear (R : Routine σ ω φ ρ ε) (s₀ : σ) (t : State σ ω φ) (ended : List (ω × ρ)) : Prop
  | free (hserial : OneByOne R s₀ ended t.shared true) (howner : t.owner = none)
      (hout : ∀ id, ¬(t.thread id).Inside)
  | held {id op p s} (hserial : OneByOne R s₀ ended s true) (howner : t.owner = some id)
      (hin : t.thread id = .inside op p) (hreach : Reaches R (R.enter op) s p t.shared)
      (hout : ∀ other, other ≠ id → ¬(t.thread other).Inside)
  | kept {id} (hserial : OneByOne R s₀ ended t.shared false) (howner : t.owner = some id)
      (hout : ∀ id, ¬(t.thread id).Inside)

lemma not_inside_update {thread : ℕ → Thread ω φ} {id : ℕ} {u : Thread ω φ} {other : ℕ}
    (h : ¬(thread other).Inside) (hu : ¬u.Inside) :
    ¬(Function.update thread id u other).Inside := by
  rw [Function.update_apply]
  split_ifs
  · exact hu
  · exact h

section Step

variable {s₀ : σ} {s t : State σ ω φ} {ended : List (ω × ρ)} {o : Option (ω × ρ)}

/-- A thread that stays outside goes from one thing it does outside to another. -/
lemma Linear.outside (h : Linear R s₀ s ended) {id : ℕ} {u : Thread ω φ}
    (hbefore : ¬(s.thread id).Inside) (hu : ¬u.Inside) : Linear R s₀ (s.setThread id u) ended := by
  cases h with
  | free hserial howner hout =>
    exact .free hserial howner fun other => not_inside_update (hout other) hu
  | @held holder op p s₁ hserial howner hin hreach hout =>
    have hne : holder ≠ id := by
      rintro rfl
      exact hbefore ⟨op, p, hin⟩
    refine .held hserial howner ?_ hreach fun other hother => not_inside_update (hout other hother) hu
    change Function.update s.thread id u holder = _
    rw [Function.update_of_ne hne, hin]
  | kept hserial howner hout =>
    exact .kept hserial howner fun other => not_inside_update (hout other) hu

/-- A thread that takes the lock finds what the serial execution has left. -/
lemma Linear.lock (h : Linear R s₀ s ended) {id : ℕ} {op : ω} (howner : s.owner = none) :
    Linear R s₀ { s.setThread id (.inside op (R.enter op)) with owner := some id } ended := by
  cases h with
  | free hserial _ hout =>
    refine .held hserial rfl (Function.update_self ..) .refl fun other hother => ?_
    change ¬(Function.update s.thread id _ other).Inside
    rw [Function.update_of_ne hother]
    exact hout other
  | held _ howner' => simp [howner] at howner'
  | kept _ howner' => simp [howner] at howner'

/-- A thread inside is the one that the invariant knows of. -/
lemma Linear.inside (h : Linear R s₀ s ended) {id : ℕ} {op : ω} {p : φ}
    (hin : s.thread id = .inside op p) :
    ∃ s₁, OneByOne R s₀ ended s₁ true ∧ s.owner = some id ∧ Reaches R (R.enter op) s₁ p s.shared ∧
      ∀ other, other ≠ id → ¬(s.thread other).Inside := by
  cases h with
  | free _ _ hout => exact absurd ⟨op, p, hin⟩ (hout id)
  | @held holder op' p' s₁ hserial howner hin' hreach hout =>
    by_cases hid : id = holder
    · subst hid
      rw [hin, Thread.inside.injEq] at hin'
      obtain ⟨rfl, rfl⟩ := hin'
      exact ⟨s₁, hserial, howner, hreach, hout⟩
    · exact absurd ⟨op, p, hin⟩ (hout id hid)
  | kept _ _ hout => exact absurd ⟨op, p, hin⟩ (hout id)

lemma Linear.work (h : Linear R s₀ s ended) {id : ℕ} {op : ω} {p p' : φ} {shared : σ}
    (hin : s.thread id = .inside op p) (hwork : R.work p s.shared = .ok (shared, .inl p')) :
    Linear R s₀ { s.setThread id (.inside op p') with shared := shared } ended := by
  obtain ⟨s₁, hserial, howner, hreach, hout⟩ := h.inside hin
  refine .held hserial howner (Function.update_self ..) (hreach.tail hwork) fun other hother => ?_
  change ¬(Function.update s.thread id _ other).Inside
  rw [Function.update_of_ne hother]
  exact hout other hother

/-- A routine that ends is the next of the serial execution. -/
lemma Linear.returns (h : Linear R s₀ s ended) {id : ℕ} {op : ω} {p : φ} {shared : σ} {r : ρ}
    {released : Bool} (hin : s.thread id = .inside op p)
    (hwork : R.work p s.shared = .ok (shared, .inr (r, released))) :
    Linear R s₀ ⟨shared, if released then none else some id, Function.update s.thread id .idle⟩
      (ended ++ [(op, r)]) := by
  obtain ⟨s₁, hserial, howner, hreach, hout⟩ := h.inside hin
  have hended := hserial.snoc (hreach.completes (.last hwork))
  have hnone : ∀ other, ¬(Function.update s.thread id (Thread.idle : Thread ω φ) other).Inside := by
    intro other
    by_cases hother : other = id
    · rw [hother, Function.update_self]
      rintro ⟨op, p, hin⟩
      simp at hin
    · rw [Function.update_of_ne hother]
      exact hout other hother
  cases released with
  | true => exact .free hended rfl hnone
  | false => exact .kept hended rfl hnone

theorem step_linear {e : Event ω} (h : Linear R s₀ s ended) (hstep : step R s e = .ok (t, o)) :
    Linear R s₀ t (ended ++ o.toList) := by
  cases e with
  | call id op =>
    simp only [step] at hstep
    split at hstep
    · rename_i hidle
      simp only [Except.ok.injEq, Prod.mk.injEq] at hstep
      obtain ⟨rfl, rfl⟩ := hstep
      rw [Option.toList_none, List.append_nil]
      exact h.outside (by rintro ⟨op, p, hin⟩; simp [hidle] at hin) (by rintro ⟨op, p, hin⟩; simp at hin)
    · simp at hstep
  | giveUp id =>
    simp only [step] at hstep
    split at hstep
    · rename_i hwait
      simp only [Except.ok.injEq, Prod.mk.injEq] at hstep
      obtain ⟨rfl, rfl⟩ := hstep
      rw [Option.toList_none, List.append_nil]
      exact h.outside (by rintro ⟨op, p, hin⟩; simp [hwait] at hin) (by rintro ⟨op, p, hin⟩; simp at hin)
    · simp at hstep
  | lock id =>
    simp only [step] at hstep
    split at hstep
    · rename_i op hwait howner
      simp only [Except.ok.injEq, Prod.mk.injEq] at hstep
      obtain ⟨rfl, rfl⟩ := hstep
      rw [Option.toList_none, List.append_nil]
      exact h.lock howner
    · simp at hstep
  | work id =>
    simp only [step] at hstep
    split at hstep
    · rename_i op p hin
      split at hstep
      · simp at hstep
      · rename_i shared p' hwork
        simp only [Except.ok.injEq, Prod.mk.injEq] at hstep
        obtain ⟨rfl, rfl⟩ := hstep
        rw [Option.toList_none, List.append_nil]
        exact h.work hin hwork
      · rename_i shared r released hwork
        simp only [Except.ok.injEq, Prod.mk.injEq] at hstep
        obtain ⟨rfl, rfl⟩ := hstep
        exact h.returns hin hwork
    · simp at hstep

end Step

def start (s₀ : σ) : State σ ω φ := ⟨s₀, none, fun _ => .idle⟩

/-- Every interleaving of the phases is serial in the routines that have ended. -/
theorem run_linear {s₀ : σ} {t : State σ ω φ} {events : List (Event ω)}
    {os : List (Option (ω × ρ))} (h : run (step R) (start s₀) events = .ok (t, os)) :
    Linear R s₀ t os.reduceOption := by
  suffices hgo : ∀ (s : State σ ω φ) (ended : List (ω × ρ)), Linear R s₀ s ended →
      run (step R) s events = .ok (t, os) → Linear R s₀ t (ended ++ os.reduceOption) by
    exact hgo _ [] (.free .nil rfl (by rintro id ⟨op, p, hin⟩; simp [start] at hin)) h
  clear h
  intro s ended hs hrun
  induction events generalizing s ended os with
  | nil =>
    rw [run_nil, Except.ok.injEq, Prod.mk.injEq] at hrun
    obtain ⟨rfl, rfl⟩ := hrun
    simpa using hs
  | cons e events ih =>
    obtain ⟨u, o, os', he, hrest, rfl⟩ := run_cons_ok.mp hrun
    have hlater := ih u (ended ++ o.toList) (step_linear hs he) hrest
    cases o with
    | none => simpa using hlater
    | some r => simpa using hlater

end Section
