import Aesd.Library.Machine

/-! Threads around one mutex. A thread runs one routine after another, and a signal lays
the handler over whatever the thread is doing until the handler returns. The mutex does
not look at who unlocks it. -/
namespace Critical
open Machine

/-- What a routine still does, as far as the mutex goes. An attempt goes on in one of two ways. -/
inductive Routine
  | done
  | lock (next : Routine)
  | unlock (next : Routine)
  | work (next : Routine)
  | attempt (succeeded failed : Routine)
  deriving DecidableEq, Repr

/-- A routine being run, `inside` from its lock on to its next unlock. -/
structure Frame where
  inside : Bool
  rest : Routine
  deriving DecidableEq, Repr

structure Thread where
  routine : Frame
  handler : Option Frame
  deriving DecidableEq, Repr

structure State where
  owner : Option ℕ
  thread : ℕ → Thread

inductive Event (κ : Type*)
  | call (id : ℕ) (name : κ)
  | signal (id : ℕ)
  | ret (id : ℕ)
  | step (id : ℕ) (succeeds : Bool)

/-- The frame that runs: the handler while there is one. -/
def Thread.top (t : Thread) : Frame := t.handler.getD t.routine

def Thread.setTop (t : Thread) (f : Frame) : Thread :=
  match t.handler with
  | some _ => { t with handler := some f }
  | none => { t with routine := f }

def State.set (s : State) (id : ℕ) (owner : Option ℕ) (t : Thread) : State :=
  ⟨owner, Function.update s.thread id t⟩

/-- The next operation of a frame. A lock that is taken lets nobody pass. -/
def perform (owner : Option ℕ) (id : ℕ) (f : Frame) (succeeds : Bool) :
    Option (Option ℕ × Frame) :=
  match f.rest with
  | .done => none
  | .lock next => if owner = none then some (some id, ⟨true, next⟩) else none
  | .unlock next => some (none, ⟨false, next⟩)
  | .work next => some (owner, ⟨f.inside, next⟩)
  | .attempt succeeded failed => some (owner, ⟨f.inside, if succeeds then succeeded else failed⟩)

variable {κ : Type*} (prog : κ → Routine) (handler : Routine)

/-- What a thread cannot do at the time does not happen. A handler is not interrupted by
another signal. -/
def step (s : State) : Event κ → Except Unit (State × Unit)
  | .call id name =>
    match s.thread id with
    | ⟨⟨_, .done⟩, none⟩ => .ok (s.set id s.owner ⟨⟨false, prog name⟩, none⟩, ())
    | _ => .error ()
  | .signal id =>
    match s.thread id with
    | ⟨f, none⟩ => .ok (s.set id s.owner ⟨f, some ⟨false, handler⟩⟩, ())
    | _ => .error ()
  | .ret id =>
    match s.thread id with
    | ⟨f, some ⟨_, .done⟩⟩ => .ok (s.set id s.owner ⟨f, none⟩, ())
    | _ => .error ()
  | .step id succeeds =>
    match perform s.owner id (s.thread id).top succeeds with
    | some (owner, f) => .ok (s.set id owner ((s.thread id).setTop f), ())
    | none => .error ()

/-- Nobody has the mutex, and no thread runs a routine. -/
def start : State := ⟨none, fun _ => ⟨⟨false, .done⟩, none⟩⟩

def Thread.Inside (t : Thread) : Prop :=
  t.routine.inside = true ∨ ∃ f, t.handler = some f ∧ f.inside = true

/-- At most one thread is between its lock and its own next unlock. -/
def Exclusive (s : State) : Prop :=
  ∀ i j, (s.thread i).Inside → (s.thread j).Inside → i = j

/-- An unlock is performed by the thread that has the mutex. -/
def UnlocksOwn (s : State) : Event κ → Prop
  | .step id _ => ∀ next, (s.thread id).top.rest = .unlock next → s.owner = some id
  | _ => True

/-- No routine unlocks once more after it has unlocked. -/
def UnlocksOnce (s : State) : Event κ → Prop
  | .step id _ => ∀ next, (s.thread id).top.rest = .unlock next → (s.thread id).top.inside = true
  | _ => True

/-- No attempt of a routine fails; those of the handler may. -/
def AttemptsSucceed (s : State) : Event κ → Prop
  | .step id succeeds => (s.thread id).handler = none →
      (∃ y n, (s.thread id).routine.rest = .attempt y n) → succeeds = true
  | _ => True

/-- The thread waits for the mutex and has it. -/
def WaitsForItself (s : State) (id : ℕ) : Prop :=
  s.owner = some id ∧ ∃ next, (s.thread id).top.rest = .lock next

/-- The signal does not come to the thread that has the mutex. -/
def SparesOwner (s : State) : Event κ → Prop
  | .signal id => s.owner ≠ some id
  | _ => True

/-- A routine locks only outside and ends outside. Whether it may unlock outside, and
whether its attempts may fail, is a parameter. -/
def Formed (surplus fails : Bool) : Bool → Routine → Prop
  | inside, .done => inside = false
  | inside, .lock next => inside = false ∧ Formed surplus fails true next
  | inside, .unlock next => (inside = true ∨ surplus = true) ∧ Formed surplus fails false next
  | inside, .work next => Formed surplus fails inside next
  | inside, .attempt succeeded failed =>
    Formed surplus fails inside succeeded ∧ (fails = true → Formed surplus fails inside failed)

abbrev Frame.Formed (surplus fails : Bool) (f : Frame) : Prop :=
  Critical.Formed surplus fails f.inside f.rest

section Inversion

variable {prog handler} {s t : State} {id : ℕ} {o : Unit}

lemma step_call {name : κ} (h : step prog handler s (.call id name) = .ok (t, o)) :
    ∃ inside, s.thread id = ⟨⟨inside, .done⟩, none⟩ ∧
      t = s.set id s.owner ⟨⟨false, prog name⟩, none⟩ := by
  simp only [step] at h
  split at h
  · rename_i inside hc
    simp only [Except.ok.injEq, Prod.mk.injEq] at h
    exact ⟨inside, hc, h.1.symm⟩
  · simp at h

lemma step_signal (h : step prog handler s (.signal id) = .ok (t, o)) :
    (s.thread id).handler = none ∧
      t = s.set id s.owner ⟨(s.thread id).routine, some ⟨false, handler⟩⟩ := by
  simp only [step] at h
  split at h
  · rename_i f hc
    simp only [Except.ok.injEq, Prod.mk.injEq] at h
    exact ⟨by rw [hc], by rw [hc]; exact h.1.symm⟩
  · simp at h

lemma step_ret (h : step prog handler s (.ret id) = .ok (t, o)) :
    ∃ inside, (s.thread id).handler = some ⟨inside, .done⟩ ∧
      t = s.set id s.owner ⟨(s.thread id).routine, none⟩ := by
  simp only [step] at h
  split at h
  · rename_i f inside hc
    simp only [Except.ok.injEq, Prod.mk.injEq] at h
    exact ⟨inside, by rw [hc], by rw [hc]; exact h.1.symm⟩
  · simp at h

lemma step_step {succeeds : Bool} (h : step prog handler s (.step id succeeds) = .ok (t, o)) :
    ∃ owner f, perform s.owner id (s.thread id).top succeeds = some (owner, f) ∧
      t = s.set id owner ((s.thread id).setTop f) := by
  simp only [step] at h
  split at h
  · rename_i owner f hp
    simp only [Except.ok.injEq, Prod.mk.injEq] at h
    exact ⟨owner, f, hp, h.1.symm⟩
  · simp at h

lemma perform_formed {owner owner' : Option ℕ} {f g : Frame} {succeeds surplus fails : Bool}
    (h : perform owner id f succeeds = some (owner', g)) (hf : f.Formed surplus fails)
    (hs : (∃ y n, f.rest = .attempt y n) → succeeds = true ∨ fails = true) :
    g.Formed surplus fails := by
  obtain ⟨inside, rest⟩ := f
  cases rest with
  | done => simp [perform] at h
  | lock next =>
    simp only [perform, Option.ite_none_right_eq_some, Option.some.injEq, Prod.mk.injEq] at h
    obtain ⟨-, -, rfl⟩ := h
    exact hf.2
  | unlock next =>
    simp only [perform, Option.some.injEq, Prod.mk.injEq] at h
    obtain ⟨-, rfl⟩ := h
    exact hf.2
  | work next =>
    simp only [perform, Option.some.injEq, Prod.mk.injEq] at h
    obtain ⟨-, rfl⟩ := h
    exact hf
  | attempt succeeded failed =>
    simp only [perform, Option.some.injEq, Prod.mk.injEq] at h
    obtain ⟨-, rfl⟩ := h
    cases succeeds with
    | true => exact hf.1
    | false => exact hf.2 (by simpa using hs)

/-- An operation takes the mutex when it is free, gives it up, or leaves it alone. -/
lemma perform_cases {owner owner' : Option ℕ} {f g : Frame} {succeeds : Bool}
    (h : perform owner id f succeeds = some (owner', g)) :
    (f.rest = .lock g.rest ∧ owner = none ∧ owner' = some id ∧ g.inside = true) ∨
      (f.rest = .unlock g.rest ∧ owner' = none ∧ g.inside = false) ∨
      ((∀ next, f.rest ≠ .lock next) ∧ (∀ next, f.rest ≠ .unlock next) ∧ owner' = owner ∧
        g.inside = f.inside) := by
  obtain ⟨inside, rest⟩ := f
  cases rest with
  | done => simp [perform] at h
  | lock next =>
    simp only [perform, Option.ite_none_right_eq_some, Option.some.injEq, Prod.mk.injEq] at h
    obtain ⟨hfree, rfl, rfl⟩ := h
    exact Or.inl ⟨rfl, hfree, rfl, rfl⟩
  | unlock next =>
    simp only [perform, Option.some.injEq, Prod.mk.injEq] at h
    obtain ⟨rfl, rfl⟩ := h
    exact Or.inr (Or.inl ⟨rfl, rfl, rfl⟩)
  | work next =>
    simp only [perform, Option.some.injEq, Prod.mk.injEq] at h
    obtain ⟨rfl, rfl⟩ := h
    exact Or.inr (Or.inr ⟨nofun, nofun, rfl, rfl⟩)
  | attempt succeeded failed =>
    simp only [perform, Option.some.injEq, Prod.mk.injEq] at h
    obtain ⟨rfl, rfl⟩ := h
    exact Or.inr (Or.inr ⟨nofun, nofun, rfl, rfl⟩)

end Inversion

/-- What holds of a thread in every run: its routine may unlock too often, its handler may
not, and it has the mutex only between a lock and an unlock of its own. -/
structure Thread.Sound (t : Thread) (owns : Prop) : Prop where
  routine : t.routine.Formed true true
  handler : ∀ f, t.handler = some f → f.Formed false true
  inside : owns → t.Inside

def Sound (s : State) : Prop := ∀ id, (s.thread id).Sound (s.owner = some id)

lemma start_sound : Sound start := fun _ => ⟨rfl, by simp [start], by simp [start]⟩

lemma Sound.set {s : State} (hs : Sound s) {id : ℕ} {owner : Option ℕ} {t : Thread}
    (ht : t.Sound (owner = some id)) (ho : ∀ j ≠ id, owner = some j → s.owner = some j) :
    Sound (s.set id owner t) := by
  intro j
  rcases eq_or_ne j id with rfl | hne
  · simpa [State.set] using ht
  · simp only [State.set, Function.update_of_ne hne]
    exact ⟨(hs j).routine, (hs j).handler, fun h => (hs j).inside (ho j hne h)⟩

@[simp] lemma Thread.top_none (f : Frame) : Thread.top ⟨f, none⟩ = f := rfl
@[simp] lemma Thread.top_some (f g : Frame) : Thread.top ⟨f, some g⟩ = g := rfl
@[simp] lemma Thread.setTop_none (f g : Frame) : Thread.setTop ⟨f, none⟩ g = ⟨g, none⟩ := rfl
@[simp] lemma Thread.setTop_some (f g k : Frame) :
    Thread.setTop ⟨f, some g⟩ k = ⟨f, some k⟩ := rfl

@[simp] lemma Thread.inside_none (f : Frame) : Thread.Inside ⟨f, none⟩ ↔ f.inside = true := by
  simp [Thread.Inside]

@[simp] lemma Thread.inside_some (f g : Frame) :
    Thread.Inside ⟨f, some g⟩ ↔ f.inside = true ∨ g.inside = true := by
  simp [Thread.Inside]

section Runs

variable {prog handler} (hprog : ∀ name, Formed true true false (prog name))
  (hhandler : Formed false true false handler)

include hprog hhandler

/-- The mutex is only ever with a thread that locked it and has not unlocked since. -/
lemma step_sound {s t : State} {e : Event κ} {o : Unit} (hs : Sound s)
    (h : step prog handler s e = .ok (t, o)) : Sound t := by
  cases e with
  | call id name =>
    obtain ⟨inside, hc, rfl⟩ := step_call h
    have hid := hs id
    rw [hc] at hid
    have hout : inside = false := hid.routine
    refine hs.set ⟨hprog name, by simp, fun ho => ?_⟩ fun j _ hj => hj
    simpa [hout] using hid.inside ho
  | signal id =>
    obtain ⟨hnone, rfl⟩ := step_signal h
    have hid := hs id
    refine hs.set ⟨hid.routine, ?_, fun ho => ?_⟩ fun j _ hj => hj
    · rintro f hf
      rw [← Option.some.inj hf]
      exact hhandler
    · have hin := hid.inside ho
      simp only [Thread.Inside, hnone, reduceCtorEq, false_and, exists_false, or_false] at hin
      exact Or.inl hin
  | ret id =>
    obtain ⟨inside, hsome, rfl⟩ := step_ret h
    have hid := hs id
    have hout : inside = false := hid.handler _ hsome
    refine hs.set ⟨hid.routine, by simp, fun ho => ?_⟩ fun j _ hj => hj
    simpa [Thread.Inside, hsome, hout] using hid.inside ho
  | step id succeeds =>
    obtain ⟨owner, g, hp, rfl⟩ := step_step h
    have hid := hs id
    have howner : ∀ j ≠ id, owner = some j → s.owner = some j := by
      intro j hne hj
      rcases perform_cases hp with ⟨-, -, ho, -⟩ | ⟨-, ho, -⟩ | ⟨-, -, ho, -⟩
      · rw [ho, Option.some.injEq] at hj
        exact absurd hj.symm hne
      · simp [ho] at hj
      · rw [← ho, hj]
    refine hs.set ?_ howner
    generalize s.thread id = t at *
    rcases t with ⟨f, _ | k⟩
    · refine ⟨perform_formed hp hid.routine (fun _ => Or.inr rfl), by simp, fun ho => ?_⟩
      rcases perform_cases hp with ⟨-, -, -, hin⟩ | ⟨-, hnone, -⟩ | ⟨-, -, hkeep, hin⟩
      · simpa using hin
      · simp [hnone] at ho
      · simpa [hin] using hid.inside (hkeep ▸ ho)
    · have hform := perform_formed hp (hid.handler k rfl) fun _ => Or.inr rfl
      refine ⟨hid.routine, by simpa using hform, fun ho => ?_⟩
      rcases perform_cases hp with ⟨-, -, -, hin⟩ | ⟨-, hnone, -⟩ | ⟨-, -, hkeep, hin⟩
      · simp [hin]
      · simp [hnone] at ho
      · simpa [hin] using hid.inside (hkeep ▸ ho)

omit hprog hhandler

/-- As long as no routine unlocks twice, a thread between its lock and its unlock has the
mutex, and it is so in one of its frames only. -/
structure Thread.Exact (t : Thread) (owns : Prop) : Prop where
  owner : t.Inside → owns
  one : ∀ f, t.handler = some f → f.inside = true → t.routine.inside = false

def Exact (s : State) : Prop := ∀ id, (s.thread id).Exact (s.owner = some id)

lemma start_exact : Exact start := fun _ => ⟨by simp [start], by simp [start]⟩

lemma Exact.exclusive {s : State} (hs : Exact s) : Exclusive s := by
  intro i j hi hj
  have howner := (hs i).owner hi
  rw [(hs j).owner hj, Option.some.injEq] at howner
  exact howner.symm

lemma Exact.set {s : State} (hs : Exact s) {id : ℕ} {owner : Option ℕ} {t : Thread}
    (ht : t.Exact (owner = some id)) (ho : ∀ j ≠ id, s.owner = some j → owner = some j) :
    Exact (s.set id owner t) := by
  intro j
  rcases eq_or_ne j id with rfl | hne
  · simpa [State.set] using ht
  · simp only [State.set, Function.update_of_ne hne]
    exact ⟨fun h => ho j hne ((hs j).owner h), (hs j).one⟩

lemma unlocksOwn_iff {s : State} (hs : Sound s) (he : Exact s) (e : Event κ) :
    UnlocksOwn s e ↔ UnlocksOnce s e := by
  cases e with
  | step id succeeds =>
    have hsound := hs id
    have hexact := he id
    refine forall_congr' fun next => imp_congr_right fun hrest => ?_
    generalize s.thread id = t at *
    rcases t with ⟨f, _ | k⟩
    · simp only [Thread.top_none]
      refine ⟨fun ho => by simpa using hsound.inside ho, fun hin => ?_⟩
      exact hexact.owner (by simpa using hin)
    · simp only [Thread.top_some] at hrest ⊢
      have hform := hsound.handler k rfl
      rw [Frame.Formed, hrest, Formed] at hform
      have hin : k.inside = true := by simpa using hform.1
      exact ⟨fun _ => hin, fun _ => hexact.owner (by simp [hin])⟩
  | call id name => exact Iff.rfl
  | signal id => exact Iff.rfl
  | ret id => exact Iff.rfl

lemma step_exact {s t : State} {e : Event κ} {o : Unit} (he : Exact s) (hg : UnlocksOnce s e)
    (h : step prog handler s e = .ok (t, o)) : Exact t := by
  cases e with
  | call id name =>
    obtain ⟨inside, hc, rfl⟩ := step_call h
    exact he.set ⟨by simp, by simp⟩ fun j _ hj => hj
  | signal id =>
    obtain ⟨hnone, rfl⟩ := step_signal h
    refine he.set ⟨fun hin => (he id).owner (Or.inl (by simpa using hin)), ?_⟩ fun j _ hj => hj
    rintro f hf hin
    rw [← Option.some.inj hf] at hin
    simp at hin
  | ret id =>
    obtain ⟨inside, -, rfl⟩ := step_ret h
    exact he.set ⟨fun hin => (he id).owner (Or.inl (by simpa using hin)), by simp⟩
      fun j _ hj => hj
  | step id succeeds =>
    obtain ⟨owner, g, hp, rfl⟩ := step_step h
    have hid := he id
    have hin : ∀ next, (s.thread id).top.rest = .unlock next → (s.thread id).top.inside = true := hg
    have howner : ∀ j ≠ id, s.owner = some j → owner = some j := by
      intro j hne hj
      rcases perform_cases hp with ⟨-, hfree, -, -⟩ | ⟨hrest, -, -⟩ | ⟨-, -, hkeep, -⟩
      · simp [hfree] at hj
      · have hmine : s.owner = some id := by
          refine hid.owner ?_
          have htop := hin _ hrest
          generalize s.thread id = t at htop
          rcases t with ⟨f, _ | k⟩
          · exact Or.inl htop
          · exact Or.inr ⟨k, rfl, htop⟩
        rw [hmine, Option.some.injEq] at hj
        exact absurd hj.symm hne
      · rw [hkeep, hj]
    refine he.set ?_ howner
    generalize s.thread id = t at *
    rcases t with ⟨f, _ | k⟩
    · refine ⟨fun hgin => ?_, by simp⟩
      rcases perform_cases hp with ⟨-, -, hmine, -⟩ | ⟨-, -, hout⟩ | ⟨-, -, hkeep, hsame⟩
      · exact hmine
      · simp [hout] at hgin
      · exact hkeep ▸ hid.owner (by simpa [hsame] using hgin)
    · rcases perform_cases hp with ⟨-, hfree, hmine, -⟩ | ⟨hrest, -, hout⟩ | ⟨-, -, hkeep, hsame⟩
      · refine ⟨fun _ => hmine, fun _ _ _ => ?_⟩
        rw [← Bool.not_eq_true]
        intro hrout
        have howns := hid.owner (Or.inl hrout)
        simp [hfree] at howns
      · have hrout : f.inside = false := hid.one k rfl (hin _ hrest)
        exact ⟨fun hgin => by simp [hout, hrout] at hgin, fun _ _ _ => hrout⟩
      · refine ⟨fun hgin => hkeep ▸ hid.owner (by simpa [hsame] using hgin), ?_⟩
        rintro k' hk' hin'
        have heq : g = k' := Option.some.inj hk'
        exact hid.one k rfl (by rw [← heq, hsame] at hin'; exact hin')

section Exclusion

include hprog hhandler

/-- Every unlock is by the thread that has the mutex, and at most one thread is between its
lock and its unlock, exactly when no routine unlocks twice. -/
theorem exclusion_iff {events : List (Event κ)} {t : State} {os : List Unit}
    (h : run (step prog handler) start events = .ok (t, os)) :
    Guarded (step prog handler) UnlocksOwn start events ∧
        Throughout (step prog handler) Exclusive start events ↔
      Guarded (step prog handler) UnlocksOnce start events := by
  have hinit : Sound start ∧ Exact start := ⟨start_sound, start_exact⟩
  have hkeep : ∀ (s : State) (e : Event κ) (t : State) (o : Unit), Sound s ∧ Exact s →
      UnlocksOnce s e → step prog handler s e = .ok (t, o) → Sound t ∧ Exact t :=
    fun s e t o hs hg hstep => ⟨step_sound hprog hhandler hs.1 hstep, step_exact hs.2 hg hstep⟩
  have hiff : Guarded (step prog handler) UnlocksOwn start events ↔
      Guarded (step prog handler) UnlocksOnce start events :=
    guarded_iff (fun s => Sound s ∧ Exact s) (fun s e _ _ hs _ _ => unlocksOwn_iff hs.1 hs.2 e)
      (fun s e t o hs _ hg hstep => hkeep s e t o hs hg hstep) hinit
      (guarded_always start) h
  rw [hiff]
  refine ⟨And.left, fun hg => ⟨hg, ?_⟩⟩
  exact hg.throughout (fun s => Sound s ∧ Exact s) (fun s hs => hs.2.exclusive) hkeep hinit

end Exclusion

/-- Where no attempt has failed, routines are still to unlock just as often as they lock. -/
def Even (t : Thread) : Prop :=
  t.routine.Formed false false ∧ ∀ f, t.handler = some f → f.Formed false true

lemma even_set {s : State} (hs : ∀ id, Even (s.thread id)) {id : ℕ} {owner : Option ℕ}
    {t : Thread} (ht : Even t) : ∀ j, Even ((s.set id owner t).thread j) := by
  intro j
  rcases eq_or_ne j id with rfl | hne
  · simpa [State.set] using ht
  · simpa only [State.set, Function.update_of_ne hne] using hs j

lemma step_even (heven : ∀ name, Formed false false false (prog name))
    (hhandler : Formed false true false handler) {s t : State} {e : Event κ} {o : Unit}
    (hs : ∀ id, Even (s.thread id)) (ha : AttemptsSucceed s e)
    (h : step prog handler s e = .ok (t, o)) : ∀ id, Even (t.thread id) := by
  cases e with
  | call id name =>
    obtain ⟨inside, -, rfl⟩ := step_call h
    exact even_set hs ⟨heven name, by simp⟩
  | signal id =>
    obtain ⟨-, rfl⟩ := step_signal h
    refine even_set hs ⟨(hs id).1, fun f hf => ?_⟩
    rw [← Option.some.inj hf]
    exact hhandler
  | ret id =>
    obtain ⟨inside, -, rfl⟩ := step_ret h
    exact even_set hs ⟨(hs id).1, by simp⟩
  | step id succeeds =>
    obtain ⟨owner, g, hp, rfl⟩ := step_step h
    refine even_set hs ?_
    have hid := hs id
    simp only [AttemptsSucceed] at ha
    generalize s.thread id = t at *
    rcases t with ⟨f, _ | k⟩
    · exact ⟨perform_formed hp hid.1 fun hr => Or.inl (ha rfl hr), by simp⟩
    · have hform := perform_formed hp (hid.2 k rfl) fun _ => Or.inr rfl
      exact ⟨hid.1, by simpa using hform⟩

/-- An unlock too many comes behind a failed attempt. -/
theorem once_of_attempts (heven : ∀ name, Formed false false false (prog name))
    (hhandler : Formed false true false handler) {events : List (Event κ)} {t : State}
    {os : List Unit} (h : run (step prog handler) start events = .ok (t, os))
    (ha : Guarded (step prog handler) AttemptsSucceed start events) :
    Guarded (step prog handler) UnlocksOnce start events := by
  refine (guarded_iff (fun s => ∀ id, Even (s.thread id)) ?_ ?_ ?_ ha h).mpr
    (guarded_always start)
  · intro s e _ _ hs _ _
    refine iff_true_intro ?_
    cases e with
    | step id succeeds =>
      intro next hrest
      have hid := hs id
      generalize s.thread id = t at *
      rcases t with ⟨f, _ | k⟩
      · have hform := hid.1
        rw [Frame.Formed, show f.rest = .unlock next from hrest, Formed] at hform
        simpa using hform.1
      · have hform := hid.2 k rfl
        rw [Frame.Formed, show k.rest = .unlock next from hrest, Formed] at hform
        simpa using hform.1
    | call id name => trivial
    | signal id => trivial
    | ret id => trivial
  · exact fun s e t o hs ha _ hstep => step_even heven hhandler hs ha hstep
  · exact fun _ => ⟨rfl, by simp [start]⟩

/-- A handler that is still to lock runs on a thread that does not have the mutex. -/
def Calm (s : State) : Prop :=
  ∀ id f, (s.thread id).handler = some f → f.inside = false → s.owner ≠ some id

lemma Calm.set {s : State} (hs : Calm s) {id : ℕ} {owner : Option ℕ} {t : Thread}
    (ht : ∀ f, t.handler = some f → f.inside = false → owner ≠ some id)
    (ho : ∀ j ≠ id, owner = some j → s.owner = some j) : Calm (s.set id owner t) := by
  intro j f
  rcases eq_or_ne j id with rfl | hne
  · simpa [State.set] using ht f
  · simp only [State.set, Function.update_of_ne hne]
    exact fun hf hin hj => hs j f hf hin (ho j hne hj)

lemma Calm.passes {s : State} (hs : Sound s) (hc : Calm s) (id : ℕ) : ¬WaitsForItself s id := by
  rintro ⟨howner, next, hrest⟩
  have hsound := hs id
  have hcalm := hc id
  generalize s.thread id = t at *
  rcases t with ⟨f, _ | k⟩
  · have hform := hsound.routine
    rw [Frame.Formed, show f.rest = .lock next from hrest, Formed] at hform
    have hin : f.inside = true := by simpa using hsound.inside howner
    exact absurd (hin.symm.trans hform.1) (by simp)
  · have hform := hsound.handler k rfl
    rw [Frame.Formed, show k.rest = .lock next from hrest, Formed] at hform
    exact hcalm k rfl hform.1 howner

lemma step_calm {s t : State} {e : Event κ} {o : Unit} (hc : Calm s) (hg : SparesOwner s e)
    (h : step prog handler s e = .ok (t, o)) : Calm t := by
  cases e with
  | call id name =>
    obtain ⟨inside, -, rfl⟩ := step_call h
    exact hc.set (by simp) fun j _ hj => hj
  | signal id =>
    obtain ⟨-, rfl⟩ := step_signal h
    exact hc.set (fun _ _ _ => hg) fun j _ hj => hj
  | ret id =>
    obtain ⟨inside, -, rfl⟩ := step_ret h
    exact hc.set (by simp) fun j _ hj => hj
  | step id succeeds =>
    obtain ⟨owner, g, hp, rfl⟩ := step_step h
    have hcalm := hc id
    have howner : ∀ j ≠ id, owner = some j → s.owner = some j := by
      intro j hne hj
      rcases perform_cases hp with ⟨-, -, hmine, -⟩ | ⟨-, hnone, -⟩ | ⟨-, -, hkeep, -⟩
      · rw [hmine, Option.some.injEq] at hj
        exact absurd hj.symm hne
      · simp [hnone] at hj
      · rw [← hkeep, hj]
    refine hc.set ?_ howner
    generalize s.thread id = t at *
    rcases t with ⟨f, _ | k⟩
    · simp
    · rintro k' hk' hout
      have heq : g = k' := Option.some.inj hk'
      rw [← heq] at hout
      rcases perform_cases hp with ⟨-, -, -, hin⟩ | ⟨-, hnone, -⟩ | ⟨-, -, hkeep, hsame⟩
      · simp [hin] at hout
      · simp [hnone]
      · rw [hkeep]
        exact hcalm k rfl (hsame ▸ hout)

include hprog hhandler

/-- No thread waits for itself exactly when no signal comes to the thread that has the
mutex, if the handler begins with its lock. -/
theorem waits_iff (hlock : ∃ next, handler = .lock next) {events : List (Event κ)} {t : State}
    {os : List Unit} (h : run (step prog handler) start events = .ok (t, os)) :
    Throughout (step prog handler) (fun s => ∀ id, ¬WaitsForItself s id) start events ↔
      Guarded (step prog handler) SparesOwner start events := by
  refine throughout_iff (fun s => Sound s ∧ Calm s)
    (fun s hs id => hs.2.passes hs.1 id) ?_ ?_ ⟨start_sound, ?_⟩
    (guarded_always start) h
  · exact fun s e t o hs _ hg hstep =>
      ⟨step_sound hprog hhandler hs.1 hstep, step_calm hs.2 hg hstep⟩
  · rintro s e t o - - hg hstep hall
    cases e with
    | signal id =>
      obtain ⟨-, rfl⟩ := step_signal hstep
      have howner : s.owner = some id := not_not.mp hg
      obtain ⟨next, rfl⟩ := hlock
      exact hall id ⟨howner, next, by simp [State.set]⟩
    | call id name => exact hg trivial
    | ret id => exact hg trivial
    | step id succeeds => exact hg trivial
  · simp [Calm, start]

end Runs

end Critical
