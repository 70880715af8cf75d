import Aesd.DriverSession

/-! The module over its whole life, from main.c: loading, files that come and go, calls, and
unloading. The kernel loads a module that is not loaded, and unloads it only while none of
its device's files is open, since the operations name their owner; nothing here depends on
that. What `aesd_cleanup_module` leaves allocated is there for good. -/
namespace Aesd
open AesdDev Machine Memory Separation

/-- `aesd_setup_cdev` up to `cdev_add`, in a heap that is in use. -/
def aesdSetupCdevIn (h : Heap) (circ entry : Option Alloc) : Except Stop AesdDev :=
  match kmalloc h circ sizeofCircularBuffer with
  | (.block c, h) =>
    match kmalloc h entry sizeofBufferEntry with
    | (.block r, h) =>
      .ok { lock := false, readBuf := some ⟨r, .zero⟩, circBufAddr := c,
            circBuf := aesdCircularBufferInit, heap := h }
    | _ => .error .fault
  | _ => .error .fault

/-- The kernel's answers to a load: the major number `alloc_chrdev_region` finds, or its
error, what the two allocations give, and the result of `cdev_add`. -/
structure InitAnswers where
  region : Except ℤ ℕ
  circ : Option Alloc
  entry : Option Alloc
  added : ℤ

/-- The major number the module keeps, those registered for it, the blocks left while it is
not loaded, and the device while it is. -/
structure AesdModule where
  aesdMajor : ℕ
  regions : List ℕ
  cdevs : List ℕ
  heap : Heap
  device : Option DriverState

inductive ModuleEvent
  | init (a : InitAnswers)
  | opens (file : ℕ)
  | call (c : Call)
  | release (file : ℕ)
  | cleanup

namespace AesdModule

def aesdInitModule (m : AesdModule) (a : InitAnswers) : Except Stop (AesdModule × ℤ) :=
  match a.region with
  | .error result => .ok ({ m with aesdMajor := 0 }, result)
  | .ok major => do
    let m := { m with aesdMajor := major, regions := major :: m.regions }
    let d ← aesdSetupCdevIn m.heap a.circ a.entry
    if a.added ≠ 0 then
      .ok ({ m with regions := m.regions.erase major, heap := d.heap }, a.added)
    else .ok ({ m with cdevs := major :: m.cdevs, device := some ⟨d, fun _ => 0⟩ }, 0)

/-- A step on a module that is not there never comes back. -/
def step (m : AesdModule) : ModuleEvent → Except Stop (AesdModule × Reply)
  | .init a => do
    let (m, result) ← m.aesdInitModule a
    .ok (m, ⟨result, [], none⟩)
  | e =>
    match m.device with
    | none => .error .fault
    | some s =>
      match e with
      | .init _ => .error .fault
      | .opens file =>
        .ok ({ m with device := some ⟨s.dev, Function.update s.fpos file 0⟩ }, ⟨0, [], none⟩)
      | .call c => do
        let (s, reply) ← s.step c
        .ok ({ m with device := some s }, reply)
      | .release _ => .ok (m, ⟨0, [], none⟩)
      | .cleanup => do
        let h ← aesdCleanupModule s.dev
        .ok ({ m with regions := m.regions.erase m.aesdMajor, cdevs := m.cdevs.erase m.aesdMajor,
                      heap := h, device := none }, ⟨0, [], none⟩)

def start : AesdModule := ⟨0, [], [], fun _ => none, none⟩

/-- What the users of the device can tell. -/
def session (m : AesdModule) : Option Session := m.device.map DriverState.session

/-- The heap at hand, whoever has it. -/
def heapNow (m : AesdModule) : Heap := (m.device.map fun s => s.dev.heap).getD m.heap

/-- The kernel loads a module that is not loaded, under a number that is free, and hands out
blocks that are not live. A call gets the memory it asks for. -/
def Possible (m : AesdModule) : ModuleEvent → Prop
  | .init a =>
    m.device.isNone ∧ (∀ major ∈ a.region.toOption, major ∉ m.regions) ∧
      (∀ c ∈ a.circ, m.heap c.addr = none) ∧
      ∀ e ∈ a.entry, m.heap e.addr = none ∧ ∀ c ∈ a.circ, c.addr ≠ e.addr
  | .call c => ∀ s ∈ m.device, c.Provided s
  | _ => True

instance (m : AesdModule) (e : ModuleEvent) : Decidable (m.Possible e) :=
  match e with
  | .init _ => inferInstanceAs (Decidable (_ ∧ _))
  | .call c => inferInstanceAs (Decidable (∀ s ∈ m.device, c.Provided s))
  | .opens _ | .release _ | .cleanup => isTrue trivial

end AesdModule

/-- The life of the device its users know: a load makes it, empty, or fails and leaves none,
and unloading drops whatever was stored. -/
def Session.lifetime (v : Option Session) : ModuleEvent → Except Stop (Option Session × Reply)
  | .init a =>
    match a.region with
    | .error result => .ok (v, ⟨result, [], none⟩)
    | .ok _ =>
      if a.circ.isNone ∨ a.entry.isNone then .error .fault
      else if a.added ≠ 0 then .ok (v, ⟨a.added, [], none⟩)
      else .ok (some ⟨.empty, false, fun _ => 0⟩, ⟨0, [], none⟩)
  | e =>
    match v with
    | none => .error .fault
    | some s =>
      match e with
      | .init _ => .error .fault
      | .opens file => .ok (some (s.moved file 0), ⟨0, [], none⟩)
      | .call c => do
        let (s, reply) ← s.step c
        .ok (some s, reply)
      | .release _ => .ok (some s, ⟨0, [], none⟩)
      | .cleanup => .ok (none, ⟨0, [], none⟩)

/-- The device that a set-up builds from two granted blocks. -/
def setUp (h : Heap) (circ entry : Alloc) : AesdDev :=
  { lock := false, readBuf := some ⟨entry.addr, .zero⟩, circBufAddr := circ.addr
    circBuf := aesdCircularBufferInit
    heap := Function.update (Function.update h circ.addr (some (resize circ.junk 168 [])))
      entry.addr (some (resize entry.junk 16 [])) }

lemma aesdSetupCdevIn_eq (h : Heap) (circ entry : Alloc) :
    aesdSetupCdevIn h (some circ) (some entry) = .ok (setUp h circ entry) := by
  simp [aesdSetupCdevIn, kmalloc, sizeofCircularBuffer, sizeofBufferEntry, setUp]

lemma aesdSetupCdevIn_denied (h : Heap) {circ entry : Option Alloc}
    (hdenied : circ.isNone ∨ entry.isNone) : aesdSetupCdevIn h circ entry = .error .fault := by
  cases circ with
  | none => rfl
  | some c =>
    cases entry with
    | none => simp [aesdSetupCdevIn, kmalloc, sizeofCircularBuffer, sizeofBufferEntry]
    | some e => simp at hdenied

lemma setUp_session (h : Heap) (circ entry : Alloc) :
    DriverState.session ⟨setUp h circ entry, fun _ => 0⟩ = ⟨.empty, false, fun _ => 0⟩ := by
  have hempty : aesdCircularBufferInit.entries = [] := rfl
  simp [DriverState.session, setUp, AesdDev.store, AesdDev.pendingBytes, hempty, entryBytes,
    AesdBufferEntry.zero, CommandStore.empty]

section SetUp

variable {h : Heap} {circ entry : Alloc} {lost : List ℕ} (hx : Exact h lost)
  (hcirc : h circ.addr = none) (hentry : h entry.addr = none) (hne : circ.addr ≠ entry.addr)

include hx hcirc hentry hne

lemma setUp_exact : Exact (setUp h circ entry).heap ((setUp h circ entry).owned ++ lost) := by
  have hempty : aesdCircularBufferInit.entries = [] := rfl
  have hboth := (hx.alloc hcirc (resize circ.junk 168 [])).alloc (m := entry.addr)
    (by rw [Function.update_of_ne hne.symm]; exact hentry) (resize entry.junk 16 [])
  simpa [setUp, owned, ringIds, ReadBuf.ids, AesdBufferEntry.zero, Ptr.ids, hempty] using hboth

lemma setUp_inSession : InSession ⟨setUp h circ entry, fun _ => 0⟩ := by
  have hempty : aesdCircularBufferInit.entries = [] := rfl
  have hexact := setUp_exact hx hcirc hentry hne
  have hv : (setUp h circ entry).Valid := by
    refine ⟨AesdCircularBuffer.init_valid, hexact.separated.sublist (List.sublist_append_left _ _),
      by simp [setUp, hempty], fun r hr => ?_⟩
    rw [← Option.some.inj hr]
    exact Nat.zero_le _
  refine ⟨⟨(settled_of_valid hv).symm ▸ hv, lost, hexact⟩, ?_⟩
  rw [setUp_session]
  exact ⟨by simp [CommandStore.empty], by simp [CommandStore.empty], fun _ => by norm_num,
    fun _ => by norm_num⟩

end SetUp

/-- Clearing up frees the blocks of the retained entries. The ring's structure stays, and
with it whatever was pending or lost. -/
lemma cleanup_exact {d : AesdDev} {lost : List ℕ} (hr : d.circBuf.Valid)
    (hx : Exact d.heap (d.owned ++ lost)) :
    ∃ h left, aesdCleanupModule d = .ok h ∧ Exact h left ∧ lost.length + 1 ≤ left.length := by
  have hentries : Separated d.heap (d.circBuf.entries.flatMap fun e => e.buffptr.ids) := by
    refine (hx.separated.sublist (List.sublist_append_left _ _)).sublist ?_
    exact (List.sublist_cons_self _ _).trans (List.sublist_append_right _ _)
  obtain ⟨h, hclean, hfreed⟩ := aesdCleanupModule_spec hr hentries
  refine ⟨h, (d.readBuf.map ReadBuf.ids).getD [] ++ d.circBufAddr :: lost, hclean,
    Exact.release (hx.perm ?_) hfreed, ?_⟩
  · simp only [owned, ringIds]
    rw [List.perm_iff_count]
    intro c
    simp only [List.count_append, List.count_cons]
    omega
  · simp only [List.length_append, List.length_cons]
    omega

lemma provided_exact {s t : DriverState} {c : Call} {o : Reply} {lost : List ℕ} (hs : InSession s)
    (hx : Exact s.dev.heap (s.dev.owned ++ lost)) (hc : c.Provided s) (h : s.step c = .ok (t, o)) :
    ∃ more, Exact t.dev.heap (t.dev.owned ++ (more ++ lost)) := by
  rcases provided_fresh_or hc h with hsame | hfresh
  · exact ⟨[], by rw [hsame]; exact hx⟩
  · obtain ⟨-, -, more, hmore, -⟩ := step_exact hs.sound.ring hx hfresh h
    exact ⟨more, hmore⟩

/-- A load that gets as far as to allocate. -/
def ModuleEvent.setUps : ModuleEvent → ℕ
  | .init ⟨.ok _, _, _, _⟩ => 1
  | _ => 0

namespace AesdModule

/-- The module has one number and one device registered, under the number it keeps, while it
is loaded, and none while it is not. -/
def Registered (m : AesdModule) : Prop :=
  m.regions = (if m.device.isSome then [m.aesdMajor] else []) ∧ m.cdevs = m.regions

/-- What holds after `n` set-ups: each has lost a block for good, or is about to. -/
structure Stands (m : AesdModule) (n : ℕ) : Prop where
  registered : m.Registered
  out : m.device = none → ∃ lost, Exact m.heap lost ∧ n ≤ lost.length
  loaded : ∀ s, m.device = some s → InSession s ∧
    ∃ lost, Exact s.dev.heap (s.dev.owned ++ lost) ∧ n ≤ lost.length + 1

lemma start_stands : start.Stands 0 :=
  ⟨⟨rfl, rfl⟩, fun _ => ⟨[], ⟨List.nodup_nil, by simp [start]⟩, le_rfl⟩, nofun⟩

section Step

variable {m m' : AesdModule} {n : ℕ} {o : Reply}

/-- A load that gets its blocks: the device is there, empty, or `cdev_add` fails, and then
the blocks are lost. -/
lemma init_granted {major : ℕ} {c e : Alloc} {added : ℤ} (hm : m.Stands n)
    (hp : m.Possible (.init ⟨.ok major, some c, some e, added⟩)) :
    Agree (fun m' v => m'.session = v ∧ m'.Stands (n + 1))
      (m.step (.init ⟨.ok major, some c, some e, added⟩))
      (Session.lifetime m.session (.init ⟨.ok major, some c, some e, added⟩)) := by
  obtain ⟨hnone, -, hcirc, hentry⟩ := hp
  have hout := Option.isNone_iff_eq_none.mp hnone
  obtain ⟨lost, hx, hle⟩ := hm.out hout
  obtain ⟨hregions, hcdevs⟩ := hm.registered
  rw [hout, Option.isSome_none, if_neg Bool.false_ne_true] at hregions
  rw [hregions] at hcdevs
  obtain ⟨hdead, hne⟩ := hentry e rfl
  have hexact := setUp_exact hx (hcirc c rfl) hdead (hne c rfl)
  have hd := setUp_inSession hx (hcirc c rfl) hdead (hne c rfl)
  rw [step, aesdInitModule, Session.lifetime]
  dsimp only
  rw [aesdSetupCdevIn_eq, if_neg (show ¬((some c).isNone ∨ (some e).isNone) by simp)]
  by_cases hadded : added ≠ 0
  · rw [if_pos hadded]
    simp only [bind, Except.bind, if_pos hadded, List.erase_cons_head]
    refine .goes _ ⟨rfl, ⟨?_, hcdevs.trans hregions.symm⟩, fun _ => ?_, fun s hs => ?_⟩
    · simpa [hout] using hregions
    · refine ⟨_, hexact, ?_⟩
      simp only [owned, ringIds, List.length_append, List.length_cons]
      omega
    · simp [hout] at hs
  · rw [if_neg hadded]
    simp only [bind, Except.bind, if_neg hadded]
    refine .goes _ ⟨?_, ⟨?_, ?_⟩, by simp, fun s hs => ?_⟩
    · rw [session, Option.map_some, setUp_session]
    · simp [hregions]
    · rw [hregions, hcdevs]
    · rw [← Option.some.inj hs]
      exact ⟨hd, lost, hexact, by omega⟩

lemma init_stands {a : InitAnswers} (hm : m.Stands n) (hp : m.Possible (.init a)) :
    Agree (fun m' v => m'.session = v ∧ m'.Stands (n + (ModuleEvent.init a).setUps))
      (m.step (.init a)) (Session.lifetime m.session (.init a)) := by
  obtain ⟨region, circ, entry, added⟩ := a
  cases region with
  | error result =>
    refine .goes _ ⟨rfl, ⟨?_, hm.registered.2⟩, hm.out, hm.loaded⟩
    simpa [Option.isNone_iff_eq_none.mp hp.1] using hm.registered.1
  | ok major =>
    by_cases hdenied : circ.isNone ∨ entry.isNone
    · rw [step, aesdInitModule, Session.lifetime]
      dsimp only
      rw [if_pos hdenied, aesdSetupCdevIn_denied m.heap hdenied]
      exact .stops _
    · cases circ with
      | none => simp at hdenied
      | some c =>
        cases entry with
        | none => simp at hdenied
        | some e => exact init_granted hm hp

/-- An event other than a load, on a module that is loaded. -/
lemma loaded_stands {s : DriverState} {e : ModuleEvent} (hm : m.Stands n) (hp : m.Possible e)
    (hs : m.device = some s) (hinit : ∀ a, e ≠ .init a) :
    Agree (fun m' v => m'.session = v ∧ m'.Stands n) (m.step e) (Session.lifetime m.session e) := by
  obtain ⟨hd, lost, hx, hle⟩ := hm.loaded s hs
  have hv : m.session = some s.session := by rw [session, hs]; rfl
  obtain ⟨hregions, hcdevs⟩ := hm.registered
  rw [hs, Option.isSome_some, if_pos rfl] at hregions
  rw [hregions] at hcdevs
  rw [hv]
  cases e with
  | init a => exact absurd rfl (hinit a)
  | opens file =>
    rw [step.eq_def, Session.lifetime.eq_def]
    dsimp only
    rw [hs]
    refine .goes _ ⟨rfl, ⟨hregions, hcdevs.trans hregions.symm⟩, by simp, fun t ht => ?_⟩
    rw [← Option.some.inj ht]
    refine ⟨⟨hd.sound, hd.fits.moved file (by norm_num) (by norm_num)⟩, lost, hx, hle⟩
  | call c =>
    have hc := hp s hs
    have hseen := seen_eq hd hc
    rw [step.eq_def, Session.lifetime.eq_def]
    dsimp only
    rw [hs, ← hseen, DriverState.seen]
    dsimp only
    cases hstep : s.step c with
    | error e => exact .stops e
    | ok r =>
      obtain ⟨t, o⟩ := r
      obtain ⟨more, hmore⟩ := provided_exact hd hx hc hstep
      refine .goes _ ⟨rfl, ⟨hregions, hcdevs.trans hregions.symm⟩, by simp, fun u hu => ?_⟩
      rw [← Option.some.inj hu]
      refine ⟨provided_inSession hd hc hstep, more ++ lost, hmore, ?_⟩
      rw [List.length_append]
      omega
  | release file =>
    rw [step.eq_def, Session.lifetime.eq_def]
    dsimp only
    rw [hs]
    exact .goes _ ⟨hv, hm⟩
  | cleanup =>
    obtain ⟨h, left, hclean, hleft, hlong⟩ := cleanup_exact hd.sound.ring hx
    rw [step.eq_def, Session.lifetime.eq_def]
    dsimp only
    rw [hs]
    dsimp only
    rw [hclean]
    refine .goes _ ⟨rfl, ⟨?_, ?_⟩, fun _ => ⟨left, hleft, by omega⟩, by simp⟩
    · simp [hregions]
    · simp [hregions, hcdevs]

/-- Every event does to the module what it does to the device its users know. -/
lemma step_stands {e : ModuleEvent} (hm : m.Stands n) (hp : m.Possible e) :
    Agree (fun m' v => m'.session = v ∧ m'.Stands (n + e.setUps)) (m.step e)
      (Session.lifetime m.session e) := by
  by_cases hinit : ∃ a, e = .init a
  · obtain ⟨a, rfl⟩ := hinit
    exact init_stands hm hp
  · have hnone : e.setUps = 0 := by
      unfold ModuleEvent.setUps
      split
      · exact absurd ⟨_, rfl⟩ hinit
      · rfl
    rw [hnone, Nat.add_zero]
    cases hs : m.device with
    | some s => exact loaded_stands hm hp hs fun a he => hinit ⟨a, he⟩
    | none =>
      have hv : m.session = none := by rw [session, hs]; rfl
      rw [hv]
      cases e with
      | init a => exact absurd ⟨a, rfl⟩ hinit
      | _ =>
        rw [step.eq_def]
        dsimp only
        rw [hs]
        exact .stops _

end Step

/-- The life of the module. Over any history of loads, opened and released files, calls and
unloads, with any failure of a load, users meet a device that starts empty with every load
and answers calls as theirs does; one number and one device are registered exactly while
the module is loaded; and every set-up leaves a block behind for good. -/
theorem module_lifetime (events : List ModuleEvent) (hp : Guarded step Possible start events) :
    (Machine.run step start events).map (fun r => (r.1.session, r.2)) =
        Machine.run Session.lifetime none events ∧
      ∀ m os, Machine.run step start events = .ok (m, os) → m.Registered ∧
        (events.map ModuleEvent.setUps).sum ≤ Set.ncard {b | (m.heapNow b).isSome} := by
  constructor
  · have hstep : ∀ (m : AesdModule) v e, (m.session = v ∧ ∃ n, m.Stands n) → m.Possible e →
        Agree (fun m v => m.session = v ∧ ∃ n, m.Stands n) (m.step e) (Session.lifetime v e) := by
      rintro m v e ⟨rfl, n, hm⟩ hp
      exact (step_stands hm hp).imp fun _ _ h => ⟨h.1, _, h.2⟩
    exact (run_agree hstep ⟨rfl, 0, start_stands⟩ hp).map_eq fun _ _ h => h.1
  · intro m os hrun
    have hstep : ∀ (m : AesdModule) n e m' o, m.Stands n → m.Possible e → m.step e = .ok (m', o) →
        m'.Stands (n + e.setUps) := by
      intro m n e m' o hm hp hstep
      have hagree := step_stands hm hp
      rw [hstep] at hagree
      generalize Session.lifetime m.session e = y at hagree
      cases hagree with
      | goes _ h => exact h.2
    have hm := run_refines (fun n (e : ModuleEvent) => n + e.setUps) Stands hstep start_stands hp hrun
    rw [← List.foldl_map, ← List.sum_eq_foldl] at hm
    refine ⟨hm.registered, ?_⟩
    cases hs : m.device with
    | none =>
      obtain ⟨lost, hx, hle⟩ := hm.out hs
      rw [heapNow, hs]
      exact hle.trans hx.ncard.ge
    | some s =>
      obtain ⟨-, lost, hx, hle⟩ := hm.loaded s hs
      have hlive := hx.ncard
      rw [heapNow, hs]
      refine hle.trans (le_of_le_of_eq ?_ hlive.symm)
      simp only [owned, ringIds, List.length_append, List.length_cons]
      omega

/-- A load that finds no number, one that stores a line, and a third one behind it. -/
def threeLoads : List ModuleEvent :=
  [.init ⟨.error (-16), none, none, 0⟩, .init ⟨.ok 240, some ⟨1, 0⟩, some ⟨2, 0⟩, 0⟩, .opens 0,
    .call (.write 0 [97, 10] (granting 3 4)), .release 0, .cleanup,
    .init ⟨.ok 240, some ⟨5, 0⟩, some ⟨6, 0⟩, 0⟩, .opens 1, .call (.read 1 100 0)]

theorem module_lifetime_three_loads :
    (Machine.run step start threeLoads).map (fun r => (r.1.session, r.2)) =
        Machine.run Session.lifetime none threeLoads ∧
      ∀ m os, Machine.run step start threeLoads = .ok (m, os) → m.Registered ∧
        (threeLoads.map ModuleEvent.setUps).sum ≤ Set.ncard {b | (m.heapNow b).isSome} :=
  module_lifetime threeLoads (by decide +kernel)

end AesdModule

end Aesd
