import Mathlib

/-! Deterministic machines whose steps may stop. A run feeds a list of inputs and
collects one output for each; the rules carry an invariant, or a simulation by a
total machine, from one step to a whole run. -/
namespace Machine

universe u

variable {σ ι ο ε : Type*}

lemma bind_eq_ok {α β : Type u} {x : Except ε α} {f : α → Except ε β} {b : β} :
    (x >>= f) = .ok b ↔ ∃ a, x = .ok a ∧ f a = .ok b := by
  cases x <;> simp [bind, Except.bind]

lemma bind_ne_error {α β : Type u} {x : Except ε α} {f : α → Except ε β} {e : ε}
    (hx : x ≠ .error e) (hf : ∀ a, f a ≠ .error e) : (x >>= f) ≠ .error e := by
  cases x with
  | error e' => simpa [bind, Except.bind] using hx
  | ok a => exact hf a

lemma ok_of_toBool {α : Type*} {x : Except ε α} (h : x.toBool = true) : ∃ a, x = .ok a := by
  cases x with
  | error e => simp [Except.toBool] at h
  | ok a => exact ⟨a, rfl⟩

/-- Feed the inputs in order. The first step that stops ends the run with its reason. -/
def run (step : σ → ι → Except ε (σ × ο)) : σ → List ι → Except ε (σ × List ο)
  | s, [] => .ok (s, [])
  | s, i :: is => do
    let r ← step s i
    let rs ← run step r.1 is
    .ok (rs.1, r.2 :: rs.2)

variable {step : σ → ι → Except ε (σ × ο)}

@[simp] lemma run_nil (s : σ) : run step s [] = .ok (s, []) := rfl

lemma run_cons_ok {s s' : σ} {i : ι} {is : List ι} {os : List ο} :
    run step s (i :: is) = .ok (s', os) ↔
      ∃ t o os', step s i = .ok (t, o) ∧ run step t is = .ok (s', os') ∧ os = o :: os' := by
  simp only [run, bind_eq_ok, Except.ok.injEq, Prod.mk.injEq, Prod.exists]
  constructor
  · rintro ⟨t, o, hs, u, os', hr, rfl, rfl⟩
    exact ⟨t, o, os', hs, hr, rfl⟩
  · rintro ⟨t, o, os', hs, hr, rfl⟩
    exact ⟨t, o, hs, s', os', hr, rfl, rfl⟩

lemma run_append_ok {s t u : σ} {is js : List ι} {os ps : List ο}
    (h : run step s is = .ok (t, os)) (h' : run step t js = .ok (u, ps)) :
    run step s (is ++ js) = .ok (u, os ++ ps) := by
  induction is generalizing s os with
  | nil =>
    rw [run_nil, Except.ok.injEq, Prod.mk.injEq] at h
    obtain ⟨rfl, rfl⟩ := h
    exact h'
  | cons i is ih =>
    obtain ⟨v, o, os', hi, hr, rfl⟩ := run_cons_ok.mp h
    exact run_cons_ok.mpr ⟨v, o, os' ++ ps, hi, ih hr, rfl⟩

lemma run_append {s u : σ} {is js : List ι} {qs : List ο} (h : run step s (is ++ js) = .ok (u, qs)) :
    ∃ t os ps, run step s is = .ok (t, os) ∧ run step t js = .ok (u, ps) ∧ qs = os ++ ps := by
  induction is generalizing s qs with
  | nil => exact ⟨s, [], qs, rfl, h, rfl⟩
  | cons i is ih =>
    obtain ⟨v, o, qs', hi, hr, rfl⟩ := run_cons_ok.mp h
    obtain ⟨t, os, ps, his, hjs, rfl⟩ := ih hr
    exact ⟨t, o :: os, ps, run_cons_ok.mpr ⟨v, o, os, hi, his, rfl⟩, hjs, rfl⟩

/-- Where in a run an output was given. -/
lemma run_output {s s' : σ} {is : List ι} {os₁ os₂ : List ο} {o : ο}
    (h : run step s is = .ok (s', os₁ ++ o :: os₂)) :
    ∃ is₁ i is₂ t u, is = is₁ ++ i :: is₂ ∧ run step s is₁ = .ok (t, os₁) ∧
      step t i = .ok (u, o) ∧ run step u is₂ = .ok (s', os₂) := by
  induction os₁ generalizing s is with
  | nil =>
    cases is with
    | nil => simp at h
    | cons i is =>
      obtain ⟨u, o', os', hi, hr, he⟩ := run_cons_ok.mp h
      rw [List.nil_append, List.cons.injEq] at he
      obtain ⟨rfl, rfl⟩ := he
      exact ⟨[], i, is, s, u, rfl, rfl, hi, hr⟩
  | cons p os₁ ih =>
    cases is with
    | nil => simp at h
    | cons i is =>
      obtain ⟨v, o', os', hi, hr, he⟩ := run_cons_ok.mp h
      rw [List.cons_append, List.cons.injEq] at he
      obtain ⟨rfl, rfl⟩ := he
      obtain ⟨is₁, j, is₂, t, u, rfl, h₁, hj, h₂⟩ := ih hr
      exact ⟨i :: is₁, j, is₂, t, u, rfl, run_cons_ok.mpr ⟨v, p, os₁, hi, h₁, rfl⟩, hj, h₂⟩

/-- A run stops only where one of its steps does. -/
lemma run_ne_error {e : ε} (I : σ → Prop) {is : List ι}
    (hne : ∀ s, ∀ i ∈ is, I s → step s i ≠ .error e)
    (hI : ∀ s t o, ∀ i ∈ is, I s → step s i = .ok (t, o) → I t) {s : σ} (hs : I s) :
    run step s is ≠ .error e := by
  induction is generalizing s with
  | nil => simp
  | cons i is ih =>
    intro h
    cases hi : step s i with
    | error e' =>
      rw [run, hi] at h
      have he : e' = e := by simpa [bind, Except.bind] using h
      exact hne s i (by simp) hs (he ▸ hi)
    | ok r =>
      rw [run, hi] at h
      refine bind_ne_error (ih (fun s j hj => hne s j (by simp [hj]))
        (fun s t o j hj => hI s t o j (by simp [hj])) (hI s r.1 r.2 i (by simp) hs hi)) ?_ h
      simp

/-- Every input of the run meets a condition on the state it is fed in. -/
def Guarded (step : σ → ι → Except ε (σ × ο)) (guard : σ → ι → Prop) : σ → List ι → Prop
  | _, [] => True
  | s, i :: is => guard s i ∧ ∀ t o, step s i = .ok (t, o) → Guarded step guard t is

lemma guarded_of_forall {guard : σ → ι → Prop} {is : List ι} (h : ∀ s, ∀ i ∈ is, guard s i)
    (s : σ) : Guarded step guard s is := by
  induction is generalizing s with
  | nil => trivial
  | cons i is ih =>
    exact ⟨h s i (by simp), fun t o _ => ih (fun s j hj => h s j (by simp [hj])) t⟩

lemma guarded_always {is : List ι} (s : σ) : Guarded step (fun _ _ => True) s is :=
  guarded_of_forall (fun _ _ _ => trivial) s

lemma Guarded.mono {guard guard' : σ → ι → Prop} (h : ∀ s i, guard s i → guard' s i) {s : σ}
    {is : List ι} (hg : Guarded step guard s is) : Guarded step guard' s is := by
  induction is generalizing s with
  | nil => trivial
  | cons i is ih => exact ⟨h s i hg.1, fun t o hi => ih (hg.2 t o hi)⟩

instance guardedDecidable {guard : σ → ι → Prop} [∀ s i, Decidable (guard s i)] :
    ∀ s is, Decidable (Guarded step guard s is)
  | _, [] => .isTrue trivial
  | s, i :: is =>
    have : Decidable (∀ t o, step s i = .ok (t, o) → Guarded step guard t is) :=
      match hi : step s i with
      | .error _ => .isTrue (by simp)
      | .ok (t, _) =>
        have : Decidable (Guarded step guard t is) := guardedDecidable t is
        decidable_of_iff (Guarded step guard t is) (by simp)
    inferInstanceAs (Decidable (_ ∧ _))

lemma Guarded.cons {guard : σ → ι → Prop} {s t : σ} {i : ι} {o : ο} {is : List ι}
    (hi : guard s i) (hs : step s i = .ok (t, o)) (h : Guarded step guard t is) :
    Guarded step guard s (i :: is) := by
  refine ⟨hi, fun u p hu => ?_⟩
  rw [hs, Except.ok.injEq, Prod.mk.injEq] at hu
  exact hu.1 ▸ h

/-- What every guarded step preserves, every guarded run preserves. -/
theorem run_invariant (guard : σ → ι → Prop) (I : σ → Prop)
    (hstep : ∀ s i t o, I s → guard s i → step s i = .ok (t, o) → I t)
    {s s' : σ} {is : List ι} {os : List ο} (hs : I s) (hg : Guarded step guard s is)
    (h : run step s is = .ok (s', os)) : I s' := by
  induction is generalizing s os with
  | nil =>
    simp only [run_nil, Except.ok.injEq, Prod.mk.injEq] at h
    exact h.1 ▸ hs
  | cons i is ih =>
    obtain ⟨t, o, os', hi, hr, -⟩ := run_cons_ok.mp h
    exact ih (hstep s i t o hs hg.1 hi) (hg.2 t o hi) hr

/-- Over a run that goes through, a condition on the inputs alone is met at every input. -/
lemma guarded_inputs {p : ι → Prop} {s s' : σ} {is : List ι} {os : List ο}
    (h : run step s is = .ok (s', os)) : Guarded step (fun _ i => p i) s is ↔ ∀ i ∈ is, p i := by
  refine ⟨fun hg => ?_, fun hp => guarded_of_forall (fun _ => hp) s⟩
  induction is generalizing s os with
  | nil => simp
  | cons i is ih =>
    obtain ⟨t, o, os', hi, hr, -⟩ := run_cons_ok.mp h
    exact List.forall_mem_cons.mpr ⟨hg.1, ih hr (hg.2 t o hi)⟩

lemma guarded_and {p q : σ → ι → Prop} {s : σ} {is : List ι} :
    Guarded step (fun s i => p s i ∧ q s i) s is ↔ Guarded step p s is ∧ Guarded step q s is := by
  constructor
  · intro h
    exact ⟨h.mono fun _ _ => And.left, h.mono fun _ _ => And.right⟩
  · induction is generalizing s with
    | nil => exact fun _ => trivial
    | cons i is ih =>
      exact fun h => ⟨⟨h.1.1, h.2.1⟩, fun t o hi => ih ⟨h.1.2 t o hi, h.2.2 t o hi⟩⟩

lemma Guarded.beginning {guard : σ → ι → Prop} {s : σ} {pre is : List ι}
    (hg : Guarded step guard s is) (hpre : pre <+: is) : Guarded step guard s pre := by
  induction pre generalizing s is with
  | nil => trivial
  | cons i pre ih =>
    obtain ⟨rest, rfl⟩ := hpre
    exact ⟨hg.1, fun t o hi => ih (hg.2 t o hi) (List.prefix_append pre rest)⟩

lemma Guarded.rest {guard : σ → ι → Prop} {s t : σ} {is js : List ι} {os : List ο}
    (hg : Guarded step guard s (is ++ js)) (h : run step s is = .ok (t, os)) :
    Guarded step guard t js := by
  induction is generalizing s os with
  | nil =>
    rw [run_nil, Except.ok.injEq, Prod.mk.injEq] at h
    exact h.1 ▸ hg
  | cons i is ih =>
    obtain ⟨u, o, os', hi, hr, -⟩ := run_cons_ok.mp h
    exact ih (hg.2 u o hi) hr

lemma Guarded.append {guard : σ → ι → Prop} {s t : σ} {is js : List ι} {os : List ο}
    (hg : Guarded step guard s is) (h : run step s is = .ok (t, os)) (hg' : Guarded step guard t js) :
    Guarded step guard s (is ++ js) := by
  induction is generalizing s os with
  | nil =>
    rw [run_nil, Except.ok.injEq, Prod.mk.injEq] at h
    exact h.1 ▸ hg'
  | cons i is ih =>
    obtain ⟨u, o, os', hi, hr, -⟩ := run_cons_ok.mp h
    exact Guarded.cons hg.1 hi (ih (hg.2 u o hi) hr)

/-- A run all of whose steps go through goes through. -/
lemma run_total (I : σ → Prop) {guard : σ → ι → Prop}
    (hstep : ∀ s i, I s → guard s i → ∃ t o, step s i = .ok (t, o) ∧ I t) {s : σ} {is : List ι}
    (hs : I s) (hg : Guarded step guard s is) : ∃ t os, run step s is = .ok (t, os) ∧ I t := by
  induction is generalizing s with
  | nil => exact ⟨s, [], rfl, hs⟩
  | cons i is ih =>
    obtain ⟨t, o, hi, ht⟩ := hstep s i hs hg.1
    obtain ⟨u, os, hrun, hu⟩ := ih ht (hg.2 t o hi)
    exact ⟨u, o :: os, run_cons_ok.mpr ⟨t, o, os, hi, hrun, rfl⟩, hu⟩

/-- What an invariant gives for a guarded step, it gives for every step of a guarded run. -/
lemma Guarded.imp (I : σ → Prop) {guard p : σ → ι → Prop} (hp : ∀ s i, I s → guard s i → p s i)
    (hstep : ∀ s i t o, I s → guard s i → step s i = .ok (t, o) → I t) {s : σ} {is : List ι}
    (hs : I s) (hg : Guarded step guard s is) : Guarded step p s is := by
  induction is generalizing s with
  | nil => trivial
  | cons i is ih =>
    exact ⟨hp s i hs hg.1, fun t o hi => ih (hstep s i t o hs hg.1 hi) (hg.2 t o hi)⟩

/-- Over a run that goes through and meets an assumption, two conditions on its steps that
agree as long as an invariant holds, and of which the second preserves it, are met together. -/
theorem guarded_iff (I : σ → Prop) {a p guard : σ → ι → Prop}
    (hiff : ∀ s i t o, I s → a s i → step s i = .ok (t, o) → (p s i ↔ guard s i))
    (hstep : ∀ s i t o, I s → a s i → guard s i → step s i = .ok (t, o) → I t)
    {s s' : σ} {is : List ι} {os : List ο} (hs : I s) (ha : Guarded step a s is)
    (h : run step s is = .ok (s', os)) : Guarded step p s is ↔ Guarded step guard s is := by
  induction is generalizing s os with
  | nil => exact Iff.rfl
  | cons i is ih =>
    obtain ⟨t, o, os', hi, hr, -⟩ := run_cons_ok.mp h
    obtain ⟨hai, hrest⟩ := ha
    have hsame : ∀ u p, step s i = .ok (u, p) → u = t := by
      intro u p hu
      rw [hi, Except.ok.injEq, Prod.mk.injEq] at hu
      exact hu.1.symm
    constructor
    · rintro ⟨hp, hlater⟩
      have hg := (hiff s i t o hs hai hi).mp hp
      refine ⟨hg, fun u q hu => ?_⟩
      rw [hsame u q hu]
      exact (ih (hstep s i t o hs hai hg hi) (hrest t o hi) hr).mp (hlater t o hi)
    · rintro ⟨hg, hlater⟩
      refine ⟨(hiff s i t o hs hai hi).mpr hg, fun u q hu => ?_⟩
      rw [hsame u q hu]
      exact (ih (hstep s i t o hs hai hg hi) (hrest t o hi) hr).mpr (hlater t o hi)

/-- A property of every state that a run passes through. -/
def Throughout (step : σ → ι → Except ε (σ × ο)) (P : σ → Prop) (s : σ) (is : List ι) : Prop :=
  ∀ pre t os, pre <+: is → run step s pre = .ok (t, os) → P t

lemma Throughout.first {P : σ → Prop} {s : σ} {is : List ι} (h : Throughout step P s is) : P s :=
  h [] s [] (List.nil_prefix) rfl

/-- It is enough to look at the first state and at what each step leaves. -/
lemma throughout_iff_guarded {P : σ → Prop} {s : σ} {is : List ι} :
    Throughout step P s is ↔
      P s ∧ Guarded step (fun s i => ∀ t o, step s i = .ok (t, o) → P t) s is := by
  induction is generalizing s with
  | nil =>
    refine ⟨fun h => ⟨h.first, trivial⟩, fun h pre t os hpre hrun => ?_⟩
    rw [List.prefix_nil.mp hpre, run_nil, Except.ok.injEq, Prod.mk.injEq] at hrun
    exact hrun.1 ▸ h.1
  | cons i is ih =>
    have hlater : ∀ {u o}, step s i = .ok (u, o) → Throughout step P s (i :: is) →
        Throughout step P u is := by
      intro u o hi h pre t os hpre hrun
      exact h (i :: pre) t (o :: os) (List.cons_prefix_cons.mpr ⟨rfl, hpre⟩)
        (run_cons_ok.mpr ⟨u, o, os, hi, hrun, rfl⟩)
    constructor
    · intro h
      exact ⟨h.first, fun u o hi => (hlater hi h).first, fun u o hi => (ih.mp (hlater hi h)).2⟩
    · rintro ⟨hs, hfirst, hrest⟩ pre t os hpre hrun
      cases pre with
      | nil =>
        rw [run_nil, Except.ok.injEq, Prod.mk.injEq] at hrun
        exact hrun.1 ▸ hs
      | cons j pre =>
        obtain ⟨rfl, htail⟩ := List.cons_prefix_cons.mp hpre
        obtain ⟨u, o, os', hi, hr, -⟩ := run_cons_ok.mp hrun
        exact ih.mpr ⟨hfirst u o hi, hrest u o hi⟩ pre t os' htail hr

/-- What an invariant gives holds throughout every run whose steps preserve it. -/
lemma Guarded.throughout (I : σ → Prop) {P : σ → Prop} {guard : σ → ι → Prop}
    (hP : ∀ s, I s → P s) (hstep : ∀ s i t o, I s → guard s i → step s i = .ok (t, o) → I t)
    {s : σ} {is : List ι} (hs : I s) (hg : Guarded step guard s is) : Throughout step P s is :=
  fun _ _ _ hpre hrun => hP _ (run_invariant guard I hstep hs (hg.beginning hpre) hrun)

/-- A property that an invariant gives, and that every step off its guard destroys, holds
throughout a run exactly when the run is guarded. -/
theorem throughout_iff (I : σ → Prop) {P : σ → Prop} {a guard : σ → ι → Prop}
    (hP : ∀ s, I s → P s)
    (hgood : ∀ s i t o, I s → a s i → guard s i → step s i = .ok (t, o) → I t)
    (hbad : ∀ s i t o, I s → a s i → ¬guard s i → step s i = .ok (t, o) → ¬P t)
    {s s' : σ} {is : List ι} {os : List ο} (hs : I s) (ha : Guarded step a s is)
    (h : run step s is = .ok (s', os)) : Throughout step P s is ↔ Guarded step guard s is := by
  rw [throughout_iff_guarded, and_iff_right (hP s hs)]
  refine guarded_iff I (fun s i t o hs ha hi => ⟨fun hp => ?_, fun hg u q hu => ?_⟩) hgood hs ha h
  · by_contra hg
    exact hbad s i t o hs ha hg hi (hp t o hi)
  · exact hP u (hgood s i u q hs ha hg hu)

/-- Forward simulation by a total machine: what every guarded step matches, a whole guarded
run matches. -/
theorem run_refines {α : Type*} (next : α → ι → α) (R : σ → α → Prop) {guard : σ → ι → Prop}
    (hstep : ∀ s a i t o, R s a → guard s i → step s i = .ok (t, o) → R t (next a i))
    {s s' : σ} {a : α} {is : List ι} {os : List ο} (hR : R s a) (hg : Guarded step guard s is)
    (h : run step s is = .ok (s', os)) : R s' (is.foldl next a) := by
  induction is generalizing s a os with
  | nil =>
    simp only [run_nil, Except.ok.injEq, Prod.mk.injEq] at h
    exact h.1 ▸ hR
  | cons i is ih =>
    obtain ⟨t, o, os', hi, hr, -⟩ := run_cons_ok.mp h
    exact ih (hstep s a i t o hR hg.1 hi) (hg.2 t o hi) hr

/-- The outputs of a total machine. -/
def outputs {α : Type*} (next : α → ι → α) (out : α → ι → ο) : α → List ι → List ο
  | _, [] => []
  | a, i :: is => out a i :: outputs next out (next a i) is

/-- Two results agree: both stop, for one reason, or both give one output and go on from
related states. -/
inductive Agree {τ : Type*} (R : σ → τ → Prop) : Except ε (σ × ο) → Except ε (τ × ο) → Prop
  | stops (e : ε) : Agree R (.error e) (.error e)
  | goes {s : σ} {t : τ} (o : ο) : R s t → Agree R (.ok (s, o)) (.ok (t, o))

lemma Agree.imp {τ : Type*} {R R' : σ → τ → Prop} (hR : ∀ s t, R s t → R' s t)
    {x : Except ε (σ × ο)} {y : Except ε (τ × ο)} (h : Agree R x y) : Agree R' x y := by
  cases h with
  | stops e => exact .stops e
  | goes o hst => exact .goes o (hR _ _ hst)

/-- Steps that agree from related states make runs that do. -/
theorem run_agree {τ : Type*} {step' : τ → ι → Except ε (τ × ο)} {R : σ → τ → Prop}
    {guard : σ → ι → Prop} (hstep : ∀ s t i, R s t → guard s i → Agree R (step s i) (step' t i))
    {s : σ} {t : τ} {is : List ι} (hR : R s t) (hg : Guarded step guard s is) :
    Agree R (run step s is) (run step' t is) := by
  induction is generalizing s t with
  | nil => exact .goes [] hR
  | cons i is ih =>
    have hi := hstep s t i hR hg.1
    have hlater := fun s' o => hg.2 s' o
    rw [run, run]
    generalize step s i = x at hi hlater
    generalize step' t i = y at hi
    cases hi with
    | stops e => exact .stops e
    | @goes s' t' o hR' =>
      have hrest := ih hR' (hlater s' o rfl)
      change Agree R ((run step s' is).bind fun r => .ok (r.1, o :: r.2))
        ((run step' t' is).bind fun r => .ok (r.1, o :: r.2))
      generalize run step s' is = x at hrest
      generalize run step' t' is = y at hrest
      cases hrest with
      | stops e => exact .stops e
      | goes os hR'' => exact .goes (o :: os) hR''

/-- Results that agree up to a map of states are equal once the map is taken. -/
lemma Agree.map_eq {τ : Type*} {R : σ → τ → Prop} {f : σ → τ} (hf : ∀ s t, R s t → f s = t)
    {x : Except ε (σ × ο)} {y : Except ε (τ × ο)} (h : Agree R x y) :
    x.map (fun r => (f r.1, r.2)) = y := by
  cases h with
  | stops e => rfl
  | @goes s t o hR =>
    change Except.ok (f s, o) = _
    rw [hf s t hR]

/-- A map of states that commutes with every guarded step commutes with every guarded run:
the same inputs stop both, for the same reason, or give the same outputs. -/
theorem run_map {τ : Type*} {step' : τ → ι → Except ε (τ × ο)} (f : σ → τ) (I : σ → Prop)
    {guard : σ → ι → Prop}
    (hmap : ∀ s i, I s → guard s i → (step s i).map (fun r => (f r.1, r.2)) = step' (f s) i)
    (hstep : ∀ s i t o, I s → guard s i → step s i = .ok (t, o) → I t)
    {s : σ} {is : List ι} (hs : I s) (hg : Guarded step guard s is) :
    (run step s is).map (fun r => (f r.1, r.2)) = run step' (f s) is := by
  refine Agree.map_eq (R := fun s t => f s = t ∧ I s) (fun _ _ h => h.1)
    (run_agree (fun s t i => ?_) ⟨rfl, hs⟩ hg)
  rintro ⟨rfl, hI⟩ hi
  rw [← hmap s i hI hi]
  cases h : step s i with
  | error e => exact .stops e
  | ok r => exact .goes r.2 ⟨rfl, hstep s i r.1 r.2 hI hi h⟩

/-- When every guarded step goes through and matches the step of a total machine, output
included, every guarded run does. -/
theorem run_matches {α : Type*} {next : α → ι → α} {out : α → ι → ο} (R : σ → α → Prop)
    {guard : σ → ι → Prop}
    (hstep : ∀ s a i, R s a → guard s i → ∃ t, step s i = .ok (t, out a i) ∧ R t (next a i))
    {s : σ} {a : α} {is : List ι} (hR : R s a) (hg : Guarded step guard s is) :
    ∃ t, run step s is = .ok (t, outputs next out a is) ∧ R t (is.foldl next a) := by
  induction is generalizing s a with
  | nil => exact ⟨s, rfl, hR⟩
  | cons i is ih =>
    obtain ⟨t, hi, ht⟩ := hstep s a i hR hg.1
    obtain ⟨u, hrun, hu⟩ := ih ht (hg.2 t _ hi)
    exact ⟨u, run_cons_ok.mpr ⟨t, _, _, hi, hrun, rfl⟩, hu⟩

/-- The inputs that a machine hands to a part of itself. -/
def handed {κ : Type*} (step : σ → ι → Except ε (σ × ο)) (part : σ → ι → Option κ) :
    σ → List ι → List κ
  | _, [] => []
  | s, i :: is =>
    match step s i with
    | .error _ => []
    | .ok (t, _) => (part s i).toList ++ handed step part t is

/-- A machine simulated by another one that takes fewer steps: a step either hands an input
over, which the other takes with the same output, or has no output and keeps the relation. -/
theorem run_simulates {τ κ : Type*} {step : σ → ι → Except ε (σ × Option ο)}
    {step' : τ → κ → Except ε (τ × Option ο)} (R : σ → τ → Prop) (guard : σ → ι → Prop)
    (part : σ → ι → Option κ)
    (hnone : ∀ s u i t o, R s u → guard s i → part s i = none → step s i = .ok (t, o) →
      R t u ∧ o = none)
    (hsome : ∀ s u i t o k, R s u → guard s i → part s i = some k → step s i = .ok (t, o) →
      ∃ u', step' u k = .ok (u', o) ∧ R t u')
    {s s' : σ} {u : τ} {is : List ι} {os : List (Option ο)} (hR : R s u)
    (hg : Guarded step guard s is) (h : run step s is = .ok (s', os)) :
    ∃ u' os', run step' u (handed step part s is) = .ok (u', os') ∧ R s' u' ∧
      os'.reduceOption = os.reduceOption := by
  induction is generalizing s u os with
  | nil =>
    rw [run_nil, Except.ok.injEq, Prod.mk.injEq] at h
    exact ⟨u, [], rfl, h.1 ▸ hR, by rw [← h.2]⟩
  | cons i is ih =>
    obtain ⟨t, o, os, hi, hr, rfl⟩ := run_cons_ok.mp h
    rw [handed, hi]
    cases hk : part s i with
    | none =>
      obtain ⟨hR', rfl⟩ := hnone s u i t o hR hg.1 hk hi
      obtain ⟨u', os', hrest, hlast, hos⟩ := ih hR' (hg.2 _ _ hi) hr
      exact ⟨u', os', hrest, hlast, by rw [List.reduceOption_cons_of_none, hos]⟩
    | some k =>
      obtain ⟨v, hv, hR'⟩ := hsome s u i t o k hR hg.1 hk hi
      obtain ⟨u', os', hrest, hlast, hos⟩ := ih hR' (hg.2 _ _ hi) hr
      refine ⟨u', o :: os', run_cons_ok.mpr ⟨v, o, os', hv, hrest, rfl⟩, hlast, ?_⟩
      cases o with
      | none => rw [List.reduceOption_cons_of_none, List.reduceOption_cons_of_none, hos]
      | some r => rw [List.reduceOption_cons_of_some, List.reduceOption_cons_of_some, hos]

/-- What the inputs carry, the handed inputs carry. -/
lemma handed_filterMap {κ γ : Type*} {part : σ → ι → Option κ} {c : ι → Option γ} {c' : κ → Option γ}
    (hc : ∀ s i, (part s i).bind c' = c i) {s s' : σ} {is : List ι} {os : List ο}
    (h : run step s is = .ok (s', os)) :
    (handed step part s is).filterMap c' = is.filterMap c := by
  induction is generalizing s os with
  | nil => rfl
  | cons i is ih =>
    obtain ⟨t, o, os', hi, hr, -⟩ := run_cons_ok.mp h
    have hone : (part s i).toList.filterMap c' = (c i).toList := by
      rw [← hc s i]
      cases part s i with
      | none => rfl
      | some k => cases hk : c' k <;> simp [hk]
    rw [handed, hi]
    dsimp only
    rw [List.filterMap_append, hone, ih hr, List.filterMap_cons]
    cases c i <;> rfl

end Machine
