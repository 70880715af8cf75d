import Aesd.Library.Machine

/-! Programs that run over a service, one call after the other. What a program does over one
service it does over every other that answers alike, and its calls are a run of the
service. -/
namespace Client
open Machine

/-- What a program does at an input: it goes on by itself, or makes a call and goes on with
the reply. -/
inductive Move (κ ρ τ ο ε : Type*)
  | own (next : τ) (out : ο)
  | call (c : κ) (next : ρ → Except ε (τ × ο))

variable {σ σ' τ ι κ ρ ο ε : Type*}

/-- The output is the call that was made, with its reply, and what the program puts out. -/
def step (service : σ → κ → Except ε (σ × ρ)) (program : τ → ι → Except ε (Move κ ρ τ ο ε))
    (s : σ × τ) (i : ι) : Except ε ((σ × τ) × Option (κ × ρ) × ο) :=
  match program s.2 i with
  | .error e => .error e
  | .ok (.own next out) => .ok ((s.1, next), none, out)
  | .ok (.call c next) =>
    match service s.1 c with
    | .error e => .error e
    | .ok (t, r) =>
      match next r with
      | .error e => .error e
      | .ok (next, out) => .ok ((t, next), some (c, r), out)

/-- A condition on whatever call the program makes. -/
def OnCall (program : τ → ι → Except ε (Move κ ρ τ ο ε)) (P : σ → κ → Prop) (s : σ × τ) (i : ι) :
    Prop :=
  match program s.2 i with
  | .ok (.call c _) => P s.1 c
  | _ => True

instance {program : τ → ι → Except ε (Move κ ρ τ ο ε)} {P : σ → κ → Prop}
    [∀ s c, Decidable (P s c)] (s : σ × τ) (i : ι) : Decidable (OnCall program P s i) := by
  unfold OnCall
  split <;> infer_instance

variable {service : σ → κ → Except ε (σ × ρ)} {service' : σ' → κ → Except ε (σ' × ρ)}
  {program : τ → ι → Except ε (Move κ ρ τ ο ε)}

/-- How a step goes through. -/
lemma step_ok {s t : σ} {l m : τ} {i : ι} {o : Option (κ × ρ) × ο}
    (h : step service program (s, l) i = .ok ((t, m), o)) :
    (program l i = .ok (.own m o.2) ∧ t = s ∧ o.1 = none) ∨
      ∃ c next r, program l i = .ok (.call c next) ∧ service s c = .ok (t, r) ∧
        next r = .ok (m, o.2) ∧ o.1 = some (c, r) := by
  simp only [step] at h
  split at h
  · simp at h
  · rename_i next out hprogram
    simp only [Except.ok.injEq, Prod.mk.injEq] at h
    obtain ⟨⟨rfl, rfl⟩, rfl⟩ := h
    exact Or.inl ⟨hprogram, rfl, rfl⟩
  · rename_i c next hprogram
    split at h
    · simp at h
    · rename_i u r hservice
      split at h
      · simp at h
      · rename_i p out hnext
        simp only [Except.ok.injEq, Prod.mk.injEq] at h
        obtain ⟨⟨rfl, rfl⟩, rfl⟩ := h
        exact Or.inr ⟨c, next, r, hprogram, hservice, hnext, rfl⟩

lemma step_call {s t : σ} {l m : τ} {i : ι} {c : κ} {r : ρ} {next : ρ → Except ε (τ × ο)} {out : ο}
    (hprogram : program l i = .ok (.call c next)) (hservice : service s c = .ok (t, r))
    (hnext : next r = .ok (m, out)) :
    step service program (s, l) i = .ok ((t, m), some (c, r), out) := by
  simp only [step, hprogram, hservice, hnext]

/-- Over two services that answer a program's call alike, the program does the same. -/
lemma step_agree {R : σ → σ' → Prop} {P : σ → κ → Prop}
    (hservice : ∀ s t c, R s t → P s c → Agree R (service s c) (service' t c)) {s : σ} {t : σ'}
    {l : τ} {i : ι} (hR : R s t) (hcall : OnCall program P (s, l) i) :
    Agree (fun p q => R p.1 q.1 ∧ p.2 = q.2) (step service program (s, l) i)
      (step service' program (t, l) i) := by
  simp only [OnCall] at hcall
  simp only [step]
  cases hp : program l i with
  | error e => exact .stops e
  | ok move =>
    rw [hp] at hcall
    cases move with
    | own next out => exact .goes _ ⟨hR, rfl⟩
    | call c next =>
      have hsame := hservice s t c hR hcall
      dsimp only
      generalize service s c = x at hsame
      generalize service' t c = y at hsame
      cases hsame with
      | stops e => exact .stops e
      | goes r hR' =>
        dsimp only
        generalize next r = z
        cases z with
        | error e => exact .stops e
        | ok p => exact .goes _ ⟨hR', rfl⟩

/-- Programs cannot tell two services apart that answer alike. -/
theorem run_refines {R : σ → σ' → Prop} {P : σ → κ → Prop}
    (hservice : ∀ s t c, R s t → P s c → Agree R (service s c) (service' t c)) {s : σ} {t : σ'}
    {l : τ} {is : List ι} (hR : R s t)
    (hcalls : Guarded (step service program) (OnCall program P) (s, l) is) :
    Agree (fun p q => R p.1 q.1 ∧ p.2 = q.2) (run (step service program) (s, l) is)
      (run (step service' program) (t, l) is) := by
  refine run_agree (fun p q i hpq hi => ?_) ⟨hR, rfl⟩ hcalls
  obtain ⟨s, l⟩ := p
  obtain ⟨t, m⟩ := q
  obtain ⟨hR, rfl⟩ := hpq
  exact step_agree hservice hR hi

def calls (os : List (Option (κ × ρ) × ο)) : List (κ × ρ) := os.filterMap Prod.fst

lemma calls_cons (o : Option (κ × ρ) × ο) (os : List (Option (κ × ρ) × ο)) :
    calls (o :: os) = o.1.toList ++ calls os := by
  rw [calls, List.filterMap_cons]
  cases o.1 <;> rfl

/-- The calls of a program are a run of the service. -/
theorem run_calls {s t : σ} {l m : τ} {is : List ι} {os : List (Option (κ × ρ) × ο)}
    (h : run (step service program) (s, l) is = .ok ((t, m), os)) :
    run service s ((calls os).map Prod.fst) = .ok (t, (calls os).map Prod.snd) := by
  induction is generalizing s l os with
  | nil =>
    rw [run_nil, Except.ok.injEq, Prod.mk.injEq, Prod.mk.injEq] at h
    obtain ⟨⟨rfl, rfl⟩, rfl⟩ := h
    rfl
  | cons i is ih =>
    obtain ⟨⟨u, n⟩, o, os', hi, hr, rfl⟩ := run_cons_ok.mp h
    have hrest := ih hr
    rw [calls_cons]
    rcases step_ok hi with ⟨-, rfl, hnone⟩ | ⟨c, next, r, -, hservice, -, hsome⟩
    · rw [hnone]
      exact hrest
    · rw [hsome]
      exact run_cons_ok.mpr ⟨u, r, _, hservice, hrest, rfl⟩

end Client
