import Aesd.DriverReach

/-! What a write does when an allocation or its copy from user memory fails, in any state
that calls reach. A failed allocation is dereferenced, or loses the pending bytes; a
failed copy keeps both entries and pending bytes, and the mutex. -/
namespace Aesd
open AesdDev Machine Memory Separation

def ENOMEM : ℤ := 12

section Failures

variable (d : AesdDev) (buf : Bytes) (a : WriteAnswers)

def EntryFails : Prop := d.readBuf = none ∧ a.entryAlloc = none

/-- The bytes a write asks `kmalloc` or `krealloc` for. -/
def dataRequest : ℕ :=
  match d.readBuf with
  | none => buf.length
  | some r => if r.entry.buffptr = .null then buf.length else r.entry.size + buf.length

/-- The `kmalloc` or `krealloc` of the data fails; no bytes are always granted. -/
def DataFails : Prop := dataRequest d buf ≠ 0 ∧ a.dataAlloc = none

/-- `copy_from_user` leaves bytes uncopied. -/
def CopyFails : Prop := min a.uncopied buf.length ≠ 0

end Failures

/-- The call returns an error and leaves the entries and the pending bytes alone. -/
structure Refused (s : DriverState) (w : WriteCall) (t : DriverState) : Prop where
  returns : ∃ o, s.step w.call = .ok (t, o) ∧ (o.ret = -ENOMEM ∨ o.ret = -EFAULT)
  entries : retained t.dev = retained s.dev
  pending : t.dev.pendingBytes = s.dev.pendingBytes

/-- Later writes end with the same entries from either state. -/
def SameLater (s t : DriverState) : Prop :=
  ∀ ws, CompleteWrites s ws → CompleteWrites t ws →
    ∃ u v os ps, s.run (ws.map WriteCall.call) = .ok (u, os) ∧
      t.run (ws.map WriteCall.call) = .ok (v, ps) ∧ retained v.dev = retained u.dev

/-- The call fails as if it had not been made. -/
def ChangesNothing (s : DriverState) (w : WriteCall) : Prop := ∃ t, Refused s w t ∧ SameLater s t

section Refused

variable {s t : DriverState} {w : WriteCall}

lemma step_write {o : Reply} (h : s.step w.call = .ok (t, o)) :
    aesdWrite s.dev w.buf w.answers = .ok (t.dev, o.ret) := by
  cases step_outcome h with
  | write hw => exact hw

lemma short_write (hs : s.dev.Sound) (hfree : s.dev.lock = false)
    (hg : w.answers.Granted s.dev) (hc : CopyFails w.buf w.answers) :
    ∃ t, Refused s w t ∧ t.dev.lock = true := by
  obtain ⟨d, hv, -, hshort⟩ := aesdWrite_spec hs.valid hfree (granted_settled.mpr hg) w.buf
  obtain ⟨hw, hlock, hstore⟩ := hshort hc
  rw [aesdWrite_settled hfree] at hw
  rw [settled_store] at hstore
  refine ⟨⟨d, s.fpos⟩, ⟨⟨⟨-EFAULT, [], none⟩, ?_, Or.inr rfl⟩, ?_, ?_⟩, hlock⟩
  · simp only [DriverState.step, WriteCall.call, hw, bind, Except.bind]
  · rw [hs.retained_eq, ← hstore, store_commands hv]
    rfl
  · exact congrArg CommandStore.pending hstore

lemma Refused.short (h : Refused s w t) (hs : s.dev.Sound) (hfree : s.dev.lock = false)
    (hfresh : w.call.Fresh s.dev) :
    w.answers.Granted s.dev ∧ CopyFails w.buf w.answers ∧ t.dev.lock = true := by
  obtain ⟨o, hstep, hret⟩ := h.returns
  have hneg : o.ret < 0 := by
    rcases hret with hret | hret <;> simp [hret, ENOMEM, EFAULT]
  obtain ⟨lost, hexact⟩ := hs.account
  have hw := step_write hstep
  have hset := hw
  rw [← aesdWrite_settled hfree] at hset
  rcases aesdWrite_ok_cases hs.valid hexact hfree (fresh_settled.mpr hfresh) hset with
    ⟨hbuf, ha, r, hr, -, hsize⟩ | ⟨a', hg, huncopied, hsame⟩
  · rw [hbuf, aesdWrite_loses hs.valid hfree hr hsize ha, Except.ok.injEq, Prod.mk.injEq] at hset
    omega
  · obtain ⟨d, -, hwhole, hshort⟩ := aesdWrite_spec hs.valid hfree hg w.buf
    rw [hsame, huncopied, hset] at hwhole hshort
    by_cases hz : min w.answers.uncopied w.buf.length = 0
    · have hcount := (hwhole hz).1
      rw [Except.ok.injEq, Prod.mk.injEq] at hcount
      omega
    · obtain ⟨hd, hlock, -⟩ := hshort hz
      rw [Except.ok.injEq, Prod.mk.injEq] at hd
      have hbuf : w.buf ≠ [] := fun hnil => hz (by rw [hnil, List.length_nil, Nat.min_zero])
      exact ⟨granted_of_ok hfree hbuf hfresh hw, hz, by rw [hd.1, hlock]⟩

lemma granting_granted {d : AesdDev} {x y : ℕ} (hx : d.heap x = none) (hy : d.heap y = none)
    (hne : y ≠ x) : (granting x y).Granted d := by
  refine ⟨fun _ => ⟨_, rfl, hx⟩, _, rfl, hy, fun _ e he => ?_⟩
  rw [← Option.some.inj he]
  exact hne

/-- Nobody writes any more to a device whose mutex is kept. -/
lemma not_sameLater (hs : s.dev.Sound) (ht : t.dev.Sound) (hlock : t.dev.lock = true) :
    ¬SameLater s t := by
  intro hsame
  obtain ⟨lost, hexact⟩ := hs.account
  obtain ⟨lost', hexact'⟩ := ht.account
  have hdead : ∀ m, m ∉ t.dev.owned ++ lost' → t.dev.heap m = none := fun m hm =>
    Option.not_isSome_iff_eq_none.mp fun hlive => hm ((hexact'.2 m).mp hlive)
  obtain ⟨x, hx, hx'⟩ := hexact.exists_dead (t.dev.owned ++ lost')
  obtain ⟨y, hy, hy'⟩ := hexact.exists_dead (x :: (t.dev.owned ++ lost'))
  rw [List.mem_cons, not_or] at hy'
  have hcomplete : ∀ u : DriverState, u.dev.heap x = none → u.dev.heap y = none →
      CompleteWrites u [⟨0, [newline], granting x y⟩] := fun u hux huy =>
    ⟨⟨by norm_num, Nat.zero_min _, granting_granted hux huy hy'.1⟩, fun _ _ _ => trivial⟩
  obtain ⟨u, v, os, ps, -, hrun, -⟩ := hsame [⟨0, [newline], granting x y⟩]
    (hcomplete s hx hy) (hcomplete t (hdead x hx') (hdead y hy'.2))
  obtain ⟨v', o, os', hstep, -, -⟩ := run_cons_ok.mp hrun
  have hw := step_write hstep
  rw [aesdWrite, aesdWriteTo, if_pos hlock, if_neg (by simp [granting])] at hw
  simp at hw

end Refused

/-- What a failed write leaves. In no state that calls reach is it as if the call had not
been made. The call returns an error and keeps entries and pending bytes exactly when its
allocations succeed and only the copy fails, and then it keeps the mutex too. -/
theorem failed_write (s : DriverState) (hs : Reachable s) (hfree : s.dev.lock = false)
    (w : WriteCall) (hfresh : w.call.Fresh s.dev)
    (hfails : EntryFails s.dev w.answers ∨ DataFails s.dev w.buf w.answers ∨
      CopyFails w.buf w.answers) :
    ¬ChangesNothing s w ∧
      ((∃ t, Refused s w t) ↔
        ¬EntryFails s.dev w.answers ∧ ¬DataFails s.dev w.buf w.answers) := by
  have hsound := hs.sound
  refine ⟨?_, ?_, ?_⟩
  · rintro ⟨t, hrefused, hsame⟩
    obtain ⟨-, -, hlock⟩ := hrefused.short hsound hfree hfresh
    obtain ⟨o, hstep, -⟩ := hrefused.returns
    exact not_sameLater hsound (step_sound hsound hfresh hstep) hlock hsame
  · rintro ⟨t, hrefused⟩
    obtain ⟨hg, -, -⟩ := hrefused.short hsound hfree hfresh
    obtain ⟨m, hm, -⟩ := hg.data
    refine ⟨fun ⟨hnone, he⟩ => ?_, fun ⟨_, hd⟩ => ?_⟩
    · obtain ⟨e, hgrant, -⟩ := hg.entry hnone
      rw [he] at hgrant
      simp at hgrant
    · rw [hd] at hm
      simp at hm
  · rintro ⟨hentry, hdata⟩
    have hc : CopyFails w.buf w.answers := by tauto
    have hpos : w.buf.length ≠ 0 := by
      unfold CopyFails at hc
      omega
    have hrequest : dataRequest s.dev w.buf ≠ 0 := by
      unfold dataRequest
      split
      · exact hpos
      · split_ifs <;> omega
    have hg : w.answers.Granted s.dev := by
      constructor
      · intro hnone
        obtain ⟨e, he⟩ := Option.ne_none_iff_exists'.mp fun h => hentry ⟨hnone, h⟩
        exact ⟨e, he, hfresh.1 hnone e he⟩
      · obtain ⟨m, hm⟩ := Option.ne_none_iff_exists'.mp fun h => hdata ⟨hrequest, h⟩
        exact ⟨m, hm, hfresh.2 m hm⟩
    obtain ⟨t, hrefused, -⟩ := short_write hsound hfree hg hc
    exact ⟨t, hrefused⟩

/-- A first write of one byte that gets no memory for it. -/
def starvedWrite : WriteCall := ⟨0, [97], ⟨false, none, none, false, 0⟩⟩

lemma starvedWrite_fails :
    DataFails DriverState.fresh.dev starvedWrite.buf starvedWrite.answers := by
  refine ⟨?_, rfl⟩
  decide

theorem failed_write_starved :
    ¬ChangesNothing .fresh starvedWrite ∧
      ((∃ t, Refused .fresh starvedWrite t) ↔
        ¬EntryFails DriverState.fresh.dev starvedWrite.answers ∧
          ¬DataFails DriverState.fresh.dev starvedWrite.buf starvedWrite.answers) :=
  failed_write .fresh fresh_reached.reachable rfl starvedWrite ⟨nofun, nofun⟩
    (Or.inr (Or.inl starvedWrite_fails))

/-- The null pointer is copied to. -/
theorem failed_write_faults :
    ¬ ∀ s, Reachable s → s.dev.lock = false → ∀ w : WriteCall, w.call.Fresh s.dev →
      EntryFails s.dev w.answers ∨ DataFails s.dev w.buf w.answers ∨ CopyFails w.buf w.answers →
      ChangesNothing s w := by
  intro h
  obtain ⟨t, hrefused, -⟩ := h .fresh fresh_reached.reachable rfl starvedWrite ⟨nofun, nofun⟩
    (Or.inr (Or.inl starvedWrite_fails))
  obtain ⟨o, hstep, -⟩ := hrefused.returns
  have hfault : DriverState.fresh.step starvedWrite.call = .error .fault := rfl
  rw [hfault] at hstep
  simp at hstep

end Aesd
