import Aesd.CommandStore
import Aesd.DriverLock
import Aesd.Library.Separation

/-! `aesd_write` refines the command store. The driver's pointers own pairwise distinct
live blocks; each phase of a write keeps that, and together they do to the blocks' bytes
what one write does to the store. -/
namespace Aesd
open Memory Machine Separation

/-- The block a pointer names, if it names one. -/
def Ptr.ids : Ptr → List ℕ
  | .block b => [b]
  | _ => []

def entryBytes (h : Heap) (e : AesdBufferEntry) : Bytes := (bytesAt h e.buffptr).take e.size

def ReadBuf.ids (r : ReadBuf) : List ℕ := r.addr :: r.entry.buffptr.ids

namespace AesdDev

/-- Blocks the ring keeps: its own, and the buffers of the retained entries. -/
def ringIds (d : AesdDev) : List ℕ :=
  d.circBufAddr :: d.circBuf.entries.flatMap fun e => e.buffptr.ids

def owned (d : AesdDev) : List ℕ := (d.readBuf.map ReadBuf.ids).getD [] ++ d.ringIds

def pendingBytes (d : AesdDev) : Bytes :=
  (d.readBuf.map fun r => entryBytes d.heap r.entry).getD []

/-- The command store the device stands for. -/
def store (d : AesdDev) : CommandStore :=
  ⟨d.circBuf.entries.map (entryBytes d.heap), d.pendingBytes⟩

/-- The device owns distinct live blocks, a retained entry fills its block, and the
pending entry fits its own. -/
structure Valid (d : AesdDev) : Prop where
  ring : d.circBuf.Valid
  separated : Separated d.heap d.owned
  filled : ∀ e ∈ d.circBuf.entries, ∃ b bs, e.buffptr = .block b ∧ d.heap b = some bs ∧
    e.size = bs.length
  fits : ∀ r, d.readBuf = some r → r.entry.size ≤ (bytesAt d.heap r.entry.buffptr).length

end AesdDev

lemma bytesAt_update_of_not_mem {h : Heap} {b : ℕ} {v : Option Bytes} {p : Ptr} (hp : b ∉ p.ids) :
    bytesAt (Function.update h b v) p = bytesAt h p := by
  apply bytesAt_update_of_ne
  intro he
  simp [he, Ptr.ids] at hp

namespace AesdDev

/-- Changing a block the ring does not keep leaves the retained entries as they were. -/
lemma entries_frame {d : AesdDev} {b : ℕ} (hb : b ∉ d.ringIds) (v : Option Bytes) :
    d.circBuf.entries.map (entryBytes (Function.update d.heap b v)) =
      d.circBuf.entries.map (entryBytes d.heap) := by
  apply List.map_congr_left
  intro e he
  have hne : b ∉ e.buffptr.ids := by
    intro hmem
    exact hb (List.mem_cons_of_mem _ (List.mem_flatMap.mpr ⟨e, he, hmem⟩))
  rw [entryBytes, entryBytes, bytesAt_update_of_not_mem hne]

lemma filled_frame {d : AesdDev} {b : ℕ} (hb : b ∉ d.ringIds) (v : Option Bytes)
    (hf : ∀ e ∈ d.circBuf.entries, ∃ b bs, e.buffptr = .block b ∧ d.heap b = some bs ∧
      e.size = bs.length) :
    ∀ e ∈ d.circBuf.entries, ∃ c bs, e.buffptr = .block c ∧
      Function.update d.heap b v c = some bs ∧ e.size = bs.length := by
  intro e he
  obtain ⟨c, bs, hp, hc, hs⟩ := hf e he
  have hne : c ≠ b := by
    intro h
    apply hb
    rw [← h]
    exact List.mem_cons_of_mem _ (List.mem_flatMap.mpr ⟨e, he, by simp [hp, Ptr.ids]⟩)
  exact ⟨c, bs, hp, by rwa [Function.update_of_ne hne], hs⟩

lemma valid_lock {d : AesdDev} (hv : d.Valid) (l : Bool) : Valid { d with lock := l } :=
  ⟨hv.ring, hv.separated, hv.filled, hv.fits⟩

/-- The device with another pending entry and heap. -/
def withPending (d : AesdDev) (r : ReadBuf) (h : Heap) : AesdDev :=
  { d with readBuf := some r, heap := h }

lemma withPending_self {d : AesdDev} {r : ReadBuf} (hr : d.readBuf = some r) :
    d.withPending r d.heap = d := by
  cases d
  simp only [withPending]
  rw [← hr]

lemma owned_some {d : AesdDev} {r : ReadBuf} (hr : d.readBuf = some r) :
    d.owned = r.addr :: (r.entry.buffptr.ids ++ d.ringIds) := by
  simp [owned, hr, ReadBuf.ids]

lemma store_withPending (d : AesdDev) (r : ReadBuf) (h : Heap) :
    (d.withPending r h).store = ⟨d.circBuf.entries.map (entryBytes h), entryBytes h r.entry⟩ := rfl

lemma store_some {d : AesdDev} {r : ReadBuf} (hr : d.readBuf = some r) :
    d.store = ⟨d.circBuf.entries.map (entryBytes d.heap), entryBytes d.heap r.entry⟩ := by
  simp [store, pendingBytes, hr]

/-- Updating a block the ring does not keep, and pointing the pending entry elsewhere. -/
lemma valid_withPending {d : AesdDev} {r : ReadBuf} {b : ℕ} {v : Option Bytes} (hv : d.Valid)
    (hb : b ∉ d.ringIds)
    (hs : Separated (Function.update d.heap b v) (r.addr :: (r.entry.buffptr.ids ++ d.ringIds)))
    (hf : r.entry.size ≤ (bytesAt (Function.update d.heap b v) r.entry.buffptr).length) :
    (d.withPending r (Function.update d.heap b v)).Valid := by
  refine ⟨hv.ring, ?_, filled_frame hb v hv.filled, ?_⟩
  · rw [owned_some (r := r) rfl]
    exact hs
  · intro r' hr'
    have he : r = r' := Option.some.inj hr'
    exact he ▸ hf

lemma commands_length_le {d : AesdDev} (hv : d.Valid) : d.store.commands.length ≤ 10 := by
  have hle := AesdCircularBuffer.count_le hv.ring
  rwa [← AesdCircularBuffer.entries_length, ← List.length_map (f := entryBytes d.heap)] at hle

end AesdDev

/-- The allocator grants what a write asks for, with identities not in use. -/
structure WriteAnswers.Granted (a : WriteAnswers) (d : AesdDev) : Prop where
  entry : d.readBuf = none → ∃ e, a.entryAlloc = some e ∧ d.heap e.addr = none
  data : ∃ m, a.dataAlloc = some m ∧ d.heap m.addr = none ∧
    (d.readBuf = none → ∀ e, a.entryAlloc = some e → m.addr ≠ e.addr)

instance (a : WriteAnswers) (d : AesdDev) : Decidable (a.Granted d) :=
  decidable_of_iff ((d.readBuf = none → ∃ e ∈ a.entryAlloc, d.heap e.addr = none) ∧
      ∃ m ∈ a.dataAlloc, d.heap m.addr = none ∧
        (d.readBuf = none → ∀ e ∈ a.entryAlloc, m.addr ≠ e.addr))
    ⟨fun ⟨h, h'⟩ => ⟨h, h'⟩, fun ⟨h, h'⟩ => ⟨h, h'⟩⟩

open AesdDev

lemma ensureReadBuf_spec {d : AesdDev} {a : WriteAnswers} (hv : d.Valid) (hg : a.Granted d) :
    ∃ h r m, ensureReadBuf d.heap d.readBuf a = .ok (h, r) ∧ (d.withPending r h).Valid ∧
      (d.withPending r h).store = d.store ∧ a.dataAlloc = some m ∧ h m.addr = none := by
  obtain ⟨m, hm, hdead, hne⟩ := hg.data
  cases hr : d.readBuf with
  | some r => exact ⟨d.heap, r, m, rfl, by rwa [withPending_self hr], by rw [withPending_self hr],
      hm, hdead⟩
  | none =>
    obtain ⟨e, he, hfresh⟩ := hg.entry hr
    have hown : d.owned = d.ringIds := by simp [owned, hr]
    have hsep := hown ▸ hv.separated
    have hnew := hsep.ne_of_dead hfresh
    refine ⟨Function.update d.heap e.addr (some (resize e.junk 16 [])), ⟨e.addr, .zero⟩, m, ?_, ?_,
      ?_, hm, ?_⟩
    · simp [ensureReadBuf, kmalloc, he, sizeofBufferEntry]
    · exact valid_withPending hv hnew (hsep.alloc hfresh _) (by simp [AesdBufferEntry.zero])
    · rw [store_withPending, entries_frame hnew]
      simp [store, pendingBytes, hr, entryBytes, AesdBufferEntry.zero]
    · rw [Function.update_of_ne (hne hr e he)]
      exact hdead

/-- An empty pending entry gets a block of its own, or the placeholder for no bytes. -/
lemma kmalloc_pending {d : AesdDev} {r : ReadBuf} {m : Alloc} (hv : d.Valid)
    (hr : d.readBuf = some r) (hids : r.entry.buffptr.ids = []) (hsize : r.entry.size = 0)
    (hfresh : d.heap m.addr = none) (n : ℕ) :
    let p := kmalloc d.heap (some m) n
    (d.withPending ⟨r.addr, ⟨p.1, 0⟩⟩ p.2).Valid ∧
      (d.withPending ⟨r.addr, ⟨p.1, 0⟩⟩ p.2).store = d.store ∧ (bytesAt p.2 p.1).length = n := by
  intro p
  have hown : d.owned = r.addr :: d.ringIds := by rw [owned_some hr, hids, List.nil_append]
  have hsep := hown ▸ hv.separated
  have hpend : d.store = ⟨d.circBuf.entries.map (entryBytes d.heap), []⟩ := by
    rw [store_some hr, entryBytes, hsize, List.take_zero]
  rcases Nat.eq_zero_or_pos n with hn | hn
  · have hp : p = (.zeroSize, d.heap) := by simp [p, kmalloc, hn]
    rw [hp, hpend, store_withPending]
    refine ⟨?_, by simp [entryBytes], by simp [hn]⟩
    have hself := Function.update_eq_self r.addr d.heap
    have hnot : r.addr ∉ d.ringIds := (List.nodup_cons.mp hsep.1).1
    rw [← hself]
    exact valid_withPending hv hnot (by rw [hself]; exact hsep) (by simp)
  · have hp : p = (.block m.addr, Function.update d.heap m.addr (some (resize m.junk n []))) := by
      simp [p, kmalloc, hn.ne']
    have hnew := hsep.ne_of_dead hfresh
    have hring : m.addr ∉ d.ringIds := fun h => hnew (List.mem_cons_of_mem _ h)
    rw [hp, hpend, store_withPending, entries_frame hring]
    refine ⟨?_, by simp [entryBytes], by simp⟩
    exact valid_withPending hv hring ((hsep.alloc hfresh _).perm (List.Perm.swap _ _ _)) (by simp)

lemma ids_eq_nil_of_size_pos {d : AesdDev} {r : ReadBuf} {p : Ptr} (hv : d.Valid)
    (hr : d.readBuf = some r) (hp : r.entry.buffptr = p) (hb : bytesAt d.heap p = []) :
    r.entry.size = 0 := by
  have hfit := hv.fits r hr
  rw [hp, hb] at hfit
  simpa using hfit

/-- The pending block resized in place, or moved to a fresh identity. -/
lemma krealloc_pending {d : AesdDev} {r : ReadBuf} {m : Alloc} {b : ℕ} (hv : d.Valid)
    (hr : d.readBuf = some r) (hp : r.entry.buffptr = .block b) (hfresh : d.heap m.addr = none)
    (n : ℕ) (hn : r.entry.size ≤ n) (inPlace : Bool) :
    ∃ p h, krealloc d.heap r.entry.buffptr n (some m) inPlace = .ok (p, h) ∧
      (d.withPending ⟨r.addr, ⟨p, r.entry.size⟩⟩ h).Valid ∧
      (d.withPending ⟨r.addr, ⟨p, r.entry.size⟩⟩ h).store = d.store ∧
      (bytesAt h p).length = n := by
  have hown : d.owned = r.addr :: b :: d.ringIds := by rw [owned_some hr, hp]; rfl
  have hsep := hown ▸ hv.separated
  have hring : b ∉ d.ringIds := by
    have hnodup := hsep.1
    simp only [List.nodup_cons] at hnodup
    exact hnodup.2.1
  obtain ⟨bs, hbs⟩ := Option.isSome_iff_exists.mp (hsep.2 b (by simp))
  have hfit : r.entry.size ≤ bs.length := by simpa [hp, bytesAt, hbs] using hv.fits r hr
  have hkeep : entryBytes d.heap r.entry = bs.take r.entry.size := by
    simp [entryBytes, hp, bytesAt, hbs]
  rw [store_some hr, hkeep]
  simp only [hp, krealloc, hbs]
  by_cases hz : n = 0
  · have hsize : r.entry.size = 0 := by omega
    have hfree := (hsep.perm (List.Perm.swap _ _ _)).free
    refine ⟨.zeroSize, _, by rw [if_pos hz], ?_, ?_, by simp [hz]⟩
    · exact valid_withPending hv hring hfree (by simp [hsize])
    · rw [store_withPending, entries_frame hring]
      simp [entryBytes, hsize]
  · rw [if_neg hz]
    cases inPlace with
    | true =>
      refine ⟨.block b, _, rfl, ?_, ?_, by simp⟩
      · exact valid_withPending hv hring (hsep.update b _) (by simpa using hn)
      · rw [store_withPending, entries_frame hring]
        simp [entryBytes, resize_take m.junk hn hfit]
    | false =>
      have hne : m.addr ≠ b := fun h => by simp [h, hbs] at hfresh
      have hnew : m.addr ∉ d.ringIds := fun h =>
        hsep.ne_of_dead hfresh (List.mem_cons_of_mem _ (List.mem_cons_of_mem _ h))
      have hfree := (hsep.perm (List.Perm.swap _ _ _)).free
      have hdead : Function.update d.heap b none m.addr = none := by
        rw [Function.update_of_ne hne]
        exact hfresh
      have hbase : (d.withPending ⟨r.addr, .zero⟩ (Function.update d.heap b none)).Valid :=
        valid_withPending hv hring hfree (by simp [AesdBufferEntry.zero])
      refine ⟨.block m.addr, _, rfl, ?_, ?_, by simp⟩
      · exact valid_withPending hbase hnew
          ((hfree.alloc hdead _).perm (List.Perm.swap _ _ _)) (by simpa using hn)
      · rw [store_withPending]
        have hfirst := entries_frame (d := d) hring none
        have hsecond := entries_frame
          (d := d.withPending ⟨r.addr, .zero⟩ (Function.update d.heap b none)) hnew
          (some (resize m.junk n bs))
        have hboth := hsecond.trans hfirst
        simp only [withPending] at hboth
        rw [hboth]
        simp [entryBytes, resize_take m.junk hn hfit]

lemma growReadBuf_spec {d : AesdDev} {r : ReadBuf} {a : WriteAnswers} {m : Alloc} (hv : d.Valid)
    (hr : d.readBuf = some r) (hm : a.dataAlloc = some m) (hfresh : d.heap m.addr = none)
    (count : ℕ) :
    ∃ h r', growReadBuf d.heap r count a = .ok (h, r') ∧ (d.withPending r' h).Valid ∧
      (d.withPending r' h).store = d.store ∧ r'.entry.size = r.entry.size ∧
      (bytesAt h r'.entry.buffptr).length = r.entry.size + count := by
  unfold growReadBuf
  rw [hm]
  cases hp : r.entry.buffptr with
  | null =>
    have hsize := ids_eq_nil_of_size_pos hv hr hp rfl
    obtain ⟨hvalid, hstore, hlen⟩ := kmalloc_pending hv hr (by simp [hp, Ptr.ids]) hsize hfresh count
    exact ⟨_, _, if_pos rfl, hvalid, hstore, hsize.symm, by rw [hsize, Nat.zero_add]; exact hlen⟩
  | zeroSize =>
    have hsize := ids_eq_nil_of_size_pos hv hr hp rfl
    obtain ⟨hvalid, hstore, hlen⟩ := kmalloc_pending hv hr (by simp [hp, Ptr.ids]) hsize hfresh
      (r.entry.size + count)
    refine ⟨_, ⟨r.addr, ⟨_, r.entry.size⟩⟩, rfl, ?_, ?_, rfl, hlen⟩
    · rw [hsize]
      rw [hsize] at hvalid
      exact hvalid
    · rw [hsize]
      rw [hsize] at hstore
      exact hstore
  | block b =>
    obtain ⟨p, h, hk, hvalid, hstore, hlen⟩ := krealloc_pending hv hr hp hfresh
      (r.entry.size + count) (by omega) a.inPlace
    rw [hp] at hk
    exact ⟨h, ⟨r.addr, ⟨p, r.entry.size⟩⟩, by rw [if_neg (by simp), hk]; rfl, hvalid, hstore, rfl,
      hlen⟩

/-- The copy fills the room behind the pending bytes and touches nothing else. -/
lemma copyFromUser_spec {d : AesdDev} {r : ReadBuf} {buf : Bytes} (hv : d.Valid)
    (hr : d.readBuf = some r) (uncopied : ℕ)
    (hlen : (bytesAt d.heap r.entry.buffptr).length = r.entry.size + buf.length) :
    ∃ h, copyFromUser d.heap r.entry.buffptr r.entry.size buf uncopied =
        .ok (min uncopied buf.length, h) ∧ (d.withPending r h).Valid ∧
      (d.withPending r h).store = d.store ∧
      (min uncopied buf.length = 0 → bytesAt h r.entry.buffptr = d.store.pending ++ buf) := by
  have hpending : d.store.pending = entryBytes d.heap r.entry := by rw [store_some hr]
  rw [hpending]
  have hbytes : (buf.take (buf.length - min uncopied buf.length) ++
      List.replicate (min uncopied buf.length) 0).length = buf.length := by simp
  rcases List.eq_nil_or_concat buf with hnil | ⟨_, _, hne⟩
  · refine ⟨d.heap, ?_, by rwa [withPending_self hr], by rw [withPending_self hr], ?_⟩
    · simp [copyFromUser, hnil, bind, Except.bind]
    · intro _
      have hfull : (bytesAt d.heap r.entry.buffptr).length ≤ r.entry.size := by simp [hlen, hnil]
      rw [entryBytes, List.take_of_length_le hfull, hnil, List.append_nil]
  · have hpos : 0 < buf.length := by simp [hne]
    cases hp : r.entry.buffptr with
    | null => simp [hp] at hlen; omega
    | zeroSize => simp [hp] at hlen; omega
    | block b =>
      have hown : d.owned = r.addr :: b :: d.ringIds := by rw [owned_some hr, hp]; rfl
      have hsep := hown ▸ hv.separated
      have hring : b ∉ d.ringIds := by
        have hnodup := hsep.1
        simp only [List.nodup_cons] at hnodup
        exact hnodup.2.1
      obtain ⟨bs, hbs⟩ := Option.isSome_iff_exists.mp (hsep.2 b (by simp))
      have hroom : bs.length = r.entry.size + buf.length := by simpa [hp, bytesAt, hbs] using hlen
      have hstore := storeRun_ok hbs (hbytes.symm ▸ hroom.ge)
      have hkeep : entryBytes d.heap r.entry = bs.take r.entry.size := by
        simp [entryBytes, hp, bytesAt, hbs]
      refine ⟨_, by simp only [copyFromUser, hstore]; rfl, ?_, ?_, ?_⟩
      · refine valid_withPending hv hring ?_ ?_
        · rw [hp]
          exact hsep.update b _
        · rw [hp, bytesAt_update_self, Option.getD_some, splice_length (by omega)]
          omega
      · rw [store_withPending, entries_frame hring, store_some hr, hkeep, entryBytes, hp,
          bytesAt_update_self, Option.getD_some, splice_take _ le_rfl (by omega)]
      · intro hall
        rw [bytesAt_update_self, Option.getD_some, hkeep]
        have hsplice : (splice bs r.entry.size buf).take (r.entry.size + buf.length) =
            bs.take r.entry.size ++ buf := splice_take_end (by omega)
        rw [hall, Nat.sub_zero, List.take_length, List.replicate_zero, List.append_nil, ← hsplice,
          List.take_of_length_le]
        rw [splice_length (by omega)]
        omega

lemma scanWritten_eq (bs : Bytes) (size : ℕ) :
    scanWritten bs size = (decide (newline ∈ bs), size + bs.length) := by
  suffices h : ∀ (t : Bool) (n : ℕ), bs.foldl
      (fun (s : Bool × ℕ) mychar => (if mychar = newline then true else s.1, s.2 + 1)) (t, n) =
        (t || decide (newline ∈ bs), n + bs.length) by
    simpa [scanWritten] using h false size
  induction bs with
  | nil => simp
  | cons c bs ih =>
    intro t n
    rw [List.foldl_cons, ih]
    by_cases hc : c = newline
    · simp [hc, Nat.add_assoc, Nat.add_comm 1]
    · have hc' : newline ≠ c := fun h => hc h.symm
      simp [hc, hc', Nat.add_assoc, Nat.add_comm 1]

section Commit

variable {d : AesdDev} {r : ReadBuf} {b : ℕ} {bs : Bytes} (hv : d.Valid)
  (hp : r.entry.buffptr = .block b) (hbs : d.heap b = some bs) (hsize : r.entry.size = bs.length)
  (hsep : Separated d.heap (b :: d.ringIds))

include hv hp hbs hsize hsep

/-- While the ring has room nothing is freed. -/
lemma commitReadBuf_room (hroom : d.circBuf.entries.length < 10) :
    ∃ d', commitReadBuf d d.heap r = .ok d' ∧ d'.Valid ∧
      d'.store = ⟨(d.store.commands ++ [entryBytes d.heap r.entry]).rtake 10, []⟩ := by
  have hevict := AesdCircularBuffer.add_evicts hv.ring r.entry
  rw [if_pos hroom] at hevict
  have hall : (aesdCircularBufferAddEntry d.circBuf r.entry).1.entries =
      d.circBuf.entries ++ [r.entry] := by
    rw [AesdCircularBuffer.add_entries hv.ring, List.rtake, List.length_append,
      List.length_singleton, show d.circBuf.entries.length + 1 - 10 = 0 by omega, List.drop_zero]
  unfold commitReadBuf
  refine ⟨_, by simp only [hevict]; rfl, ⟨AesdCircularBuffer.add_valid hv.ring _, ?_, ?_, by simp⟩,
    ?_⟩
  · simp only [owned, ringIds, hall, Option.map_none, Option.getD_none, List.nil_append,
      List.flatMap_append, List.flatMap_cons, List.flatMap_nil, hp, Ptr.ids, List.append_nil]
    exact hsep.perm (List.perm_append_singleton b _).symm
  · intro e he
    rw [hall, List.mem_append, List.mem_singleton] at he
    rcases he with he | rfl
    · exact hv.filled e he
    · exact ⟨b, bs, hp, hbs, hsize⟩
  · simp only [store, pendingBytes, hall, Option.map_none, Option.getD_none, List.map_append,
      List.map_cons, List.map_nil]
    rw [List.rtake, List.length_append, List.length_map, List.length_singleton,
      show d.circBuf.entries.length + 1 - 10 = 0 by omega, List.drop_zero]

/-- A full ring gives back the oldest entry's block, which is freed; nothing kept refers
to it. -/
lemma commitReadBuf_full (hten : d.circBuf.entries.length = 10) :
    ∃ d', commitReadBuf d d.heap r = .ok d' ∧ d'.Valid ∧
      d'.store = ⟨(d.store.commands ++ [entryBytes d.heap r.entry]).rtake 10, []⟩ := by
  obtain ⟨old, es, hes⟩ : ∃ old es, d.circBuf.entries = old :: es :=
    List.exists_cons_of_length_pos (by omega)
  have hall : (aesdCircularBufferAddEntry d.circBuf r.entry).1.entries = es ++ [r.entry] := by
    rw [AesdCircularBuffer.add_entries hv.ring, List.rtake, List.length_append,
      List.length_singleton, hten, hes]
    rfl
  obtain ⟨o, os, hop, hos, -⟩ := hv.filled old (by simp [hes])
  have hold : (aesdCircularBufferAddEntry d.circBuf r.entry).2 = .block o := by
    rw [AesdCircularBuffer.add_evicts hv.ring, if_neg (by omega), hes]
    exact hop
  have hfront : (b :: d.ringIds).Perm
      (o :: d.circBufAddr :: ((es.flatMap fun e => e.buffptr.ids) ++ [b])) := by
    have hring : d.ringIds = d.circBufAddr :: o :: es.flatMap fun e => e.buffptr.ids := by
      simp [ringIds, hes, hop, Ptr.ids]
    rw [hring]
    exact (List.perm_append_singleton b _).symm.trans (List.Perm.swap _ _ _)
  have hdead : o ∉ d.circBufAddr :: ((es.flatMap fun e => e.buffptr.ids) ++ [b]) :=
    (List.nodup_cons.mp (hsep.perm hfront).1).1
  have hframe : ∀ e ∈ es ++ [r.entry], o ∉ e.buffptr.ids := by
    intro e he hmem
    apply hdead
    rw [List.mem_append, List.mem_singleton] at he
    refine List.mem_cons_of_mem _ (List.mem_append.mpr ?_)
    rcases he with he | rfl
    · exact Or.inl (List.mem_flatMap.mpr ⟨e, he, hmem⟩)
    · exact Or.inr (by simpa [hp, Ptr.ids] using hmem)
  have hkfree : kfree d.heap (.block o) = .ok (Function.update d.heap o none) := by
    simp [kfree, hos]
  unfold commitReadBuf
  refine ⟨_, by simp only [hold, ne_eq, reduceCtorEq, not_false_eq_true, if_true, hkfree]; rfl,
    ⟨AesdCircularBuffer.add_valid hv.ring _, ?_, ?_, by simp⟩, ?_⟩
  · simp only [owned, ringIds, hall, Option.map_none, Option.getD_none, List.nil_append,
      List.flatMap_append, List.flatMap_cons, List.flatMap_nil, hp, Ptr.ids, List.append_nil]
    exact (hsep.perm hfront).free
  · intro e he
    rw [hall] at he
    have hback : ∃ c cs, e.buffptr = .block c ∧ d.heap c = some cs ∧ e.size = cs.length := by
      rcases List.mem_append.mp he with h | h
      · exact hv.filled e (by simp [hes, h])
      · rw [List.mem_singleton.mp h]
        exact ⟨b, bs, hp, hbs, hsize⟩
    obtain ⟨c, cs, hc, hcs, hlen⟩ := hback
    have hne : c ≠ o := by
      intro h
      exact hframe e he (by simp [hc, h, Ptr.ids])
    exact ⟨c, cs, hc, (Function.update_of_ne hne _ _).trans hcs, hlen⟩
  · simp only [store, pendingBytes, hall, Option.map_none, Option.getD_none]
    have hsame : (es ++ [r.entry]).map (entryBytes (Function.update d.heap o none)) =
        (es ++ [r.entry]).map (entryBytes d.heap) := by
      apply List.map_congr_left
      intro e he
      rw [entryBytes, entryBytes, bytesAt_update_of_not_mem (hframe e he)]
    rw [hsame, List.rtake, List.length_append, List.length_map, hten, List.length_singleton, hes]
    simp

end Commit

/-- The committed command joins the ring. -/
lemma commitReadBuf_spec {d : AesdDev} {r : ReadBuf} (hv : d.Valid) (hr : d.readBuf = some r)
    (hpos : 0 < r.entry.size) (hfull : (bytesAt d.heap r.entry.buffptr).length = r.entry.size) :
    ∃ d', commitReadBuf d d.heap r = .ok d' ∧ d'.Valid ∧
      d'.store = ⟨(d.store.commands ++ [entryBytes d.heap r.entry]).rtake 10, []⟩ := by
  obtain ⟨b, hp⟩ : ∃ b, r.entry.buffptr = .block b := by
    cases hp : r.entry.buffptr with
    | null => simp [hp] at hfull; omega
    | zeroSize => simp [hp] at hfull; omega
    | block b => exact ⟨b, rfl⟩
  have hown : d.owned = r.addr :: b :: d.ringIds := by rw [owned_some hr, hp]; rfl
  have hsep : Separated d.heap (b :: d.ringIds) :=
    (hown ▸ hv.separated).sublist (List.sublist_cons_self _ _)
  obtain ⟨bs, hbs⟩ := Option.isSome_iff_exists.mp (hsep.2 b (by simp))
  have hsize : r.entry.size = bs.length := by simpa [hp, bytesAt, hbs] using hfull.symm
  have hle := AesdCircularBuffer.count_le hv.ring
  rw [← AesdCircularBuffer.entries_length] at hle
  rcases Nat.lt_or_ge d.circBuf.entries.length 10 with hroom | hroom
  · exact commitReadBuf_room hv hp hbs hsize hsep hroom
  · exact commitReadBuf_full hv hp hbs hsize hsep (by omega)

/-- Counting the copied bytes into the size appends them to the pending bytes. -/
lemma extend_pending {d : AesdDev} {r : ReadBuf} {buf : Bytes} (hv : d.Valid)
    (hr : d.readBuf = some r) (hb : bytesAt d.heap r.entry.buffptr = d.store.pending ++ buf) :
    let r' : ReadBuf := ⟨r.addr, ⟨r.entry.buffptr, r.entry.size + buf.length⟩⟩
    loadRun d.heap r.entry.buffptr r.entry.size buf.length = .ok buf ∧
      (bytesAt d.heap r'.entry.buffptr).length = r'.entry.size ∧
      (d.withPending r' d.heap).Valid ∧
      (d.withPending r' d.heap).store = ⟨d.store.commands, d.store.pending ++ buf⟩ := by
  intro r'
  have hsize : d.store.pending.length = r.entry.size := by
    rw [store_some hr, entryBytes, List.length_take]
    exact min_eq_left (hv.fits r hr)
  have hfull : (bytesAt d.heap r'.entry.buffptr).length = r'.entry.size := by
    rw [hb, List.length_append, hsize]
  have hbytes : entryBytes d.heap r'.entry = d.store.pending ++ buf := by
    rw [entryBytes, List.take_of_length_le hfull.le]
    exact hb
  refine ⟨?_, hfull, ⟨hv.ring, ?_, hv.filled, ?_⟩, ?_⟩
  · rw [loadRun_ok (by rw [hb, List.length_append, hsize]), hb, ← hsize]
    simp
  · rw [owned_some (r := r') rfl]
    exact owned_some hr ▸ hv.separated
  · intro r₀ hr₀
    have he : r' = r₀ := Option.some.inj hr₀
    exact he ▸ hfull.ge
  · rw [store_withPending, hbytes, store_some hr]

/-- A write up to its copy: the pending entry has room for all of it, and the store is as
before. -/
lemma aesdWrite_copies {d : AesdDev} {a : WriteAnswers} (hv : d.Valid) (hg : a.Granted d)
    (buf : Bytes) :
    ∃ h₁ r₁ h₂ r h, ensureReadBuf d.heap d.readBuf a = .ok (h₁, r₁) ∧
      growReadBuf h₁ r₁ buf.length a = .ok (h₂, r) ∧
      copyFromUser h₂ r.entry.buffptr r.entry.size buf a.uncopied =
        .ok (min a.uncopied buf.length, h) ∧
      (d.withPending r h).Valid ∧ (d.withPending r h).store = d.store ∧
      (min a.uncopied buf.length = 0 → bytesAt h r.entry.buffptr = d.store.pending ++ buf) := by
  obtain ⟨h₁, r₁, m, he, hv₁, hs₁, hm, hdead⟩ := ensureReadBuf_spec hv hg
  obtain ⟨h₂, r₂, hw, hv₂, hs₂, hsz, hlen⟩ := growReadBuf_spec hv₁ rfl hm hdead buf.length
  have hlen₂ : (bytesAt h₂ r₂.entry.buffptr).length = r₂.entry.size + buf.length := by
    rw [hlen, hsz]
  obtain ⟨h₃, hc, hv₃, hs₃, hb₃⟩ := copyFromUser_spec hv₂ rfl a.uncopied hlen₂
  have hstore : (d.withPending r₂ h₃).store = d.store := hs₃.trans (hs₂.trans hs₁)
  refine ⟨h₁, r₁, h₂, r₂, h₃, he, hw, hc, hv₃, hstore, fun hz => ?_⟩
  have hbytes := hb₃ hz
  rwa [hs₂.trans hs₁] at hbytes

/-- The pending entry with the bytes just copied counted in. -/
def ReadBuf.grown (r : ReadBuf) (n : ℕ) : ReadBuf := ⟨r.addr, ⟨r.entry.buffptr, r.entry.size + n⟩⟩

lemma aesdWrite_short {d : AesdDev} {a : WriteAnswers} {buf : Bytes} {h₁ h₂ h : Heap}
    {r₁ r : ReadBuf} (hfree : d.lock = false)
    (he : ensureReadBuf d.heap d.readBuf a = .ok (h₁, r₁))
    (hw : growReadBuf h₁ r₁ buf.length a = .ok (h₂, r))
    (hc : copyFromUser h₂ r.entry.buffptr r.entry.size buf a.uncopied =
      .ok (min a.uncopied buf.length, h)) (hz : min a.uncopied buf.length ≠ 0) :
    aesdWrite d buf a = .ok ({ d.withPending r h with lock := true }, -EFAULT) := by
  unfold aesdWrite aesdWriteTo
  simp only [hfree, Bool.false_eq_true, if_false, he, hw, hc, hz, ne_eq, not_false_eq_true,
    if_true, bind, Except.bind]
  rfl

lemma aesdWrite_whole {d : AesdDev} {a : WriteAnswers} {buf : Bytes} {h₁ h₂ h : Heap}
    {r₁ r : ReadBuf} (hfree : d.lock = false)
    (he : ensureReadBuf d.heap d.readBuf a = .ok (h₁, r₁))
    (hw : growReadBuf h₁ r₁ buf.length a = .ok (h₂, r))
    (hc : copyFromUser h₂ r.entry.buffptr r.entry.size buf a.uncopied =
      .ok (min a.uncopied buf.length, h)) (hz : min a.uncopied buf.length = 0)
    (hload : loadRun h r.entry.buffptr r.entry.size buf.length = .ok buf) :
    aesdWrite d buf a =
      if newline ∈ buf then
        commitReadBuf d h (r.grown buf.length) >>= fun d =>
          .ok ({ d with lock := false }, (buf.length : ℤ))
      else .ok ({ d.withPending (r.grown buf.length) h with lock := false }, (buf.length : ℤ)) := by
  unfold aesdWrite aesdWriteTo
  simp only [hfree, Bool.false_eq_true, if_false, he, hw, hc, hz, ne_eq, not_true_eq_false,
    hload, scanWritten_eq, bind, Except.bind, decide_eq_true_eq]
  rfl

/-- One write that finds the lock free and gets its memory. When the copy is complete the device
stands for the written store and the call returns its count; when it is not, the store is
as before, the call returns `-EFAULT` and the lock stays taken. -/
theorem aesdWrite_spec {d : AesdDev} {a : WriteAnswers} (hv : d.Valid) (hfree : d.lock = false)
    (hg : a.Granted d) (buf : Bytes) :
    ∃ d', d'.Valid ∧
      (min a.uncopied buf.length = 0 → aesdWrite d buf a = .ok (d', buf.length) ∧
        d'.lock = false ∧ d'.store = d.store.write buf) ∧
      (min a.uncopied buf.length ≠ 0 → aesdWrite d buf a = .ok (d', -EFAULT) ∧
        d'.lock = true ∧ d'.store = d.store) := by
  obtain ⟨h₁, r₁, h₂, r, h, he, hw, hc, hv₃, hstore, hb⟩ := aesdWrite_copies hv hg buf
  by_cases hz : min a.uncopied buf.length = 0
  · obtain ⟨hload, hfull, hv₄, hs₄⟩ := extend_pending hv₃ rfl ((hb hz).trans (by rw [hstore]))
    have hwhole := aesdWrite_whole hfree he hw hc hz hload
    rw [hstore] at hs₄
    by_cases hn : newline ∈ buf
    · have hbuf := List.length_pos_of_mem hn
      have hpos : 0 < r.entry.size + buf.length := by omega
      obtain ⟨d', hd', hv', hs'⟩ := commitReadBuf_spec hv₄ rfl hpos hfull
      have hcommit : commitReadBuf d h (r.grown buf.length) = .ok d' := hd'
      have hpending : entryBytes h ⟨r.entry.buffptr, r.entry.size + buf.length⟩ =
          d.store.pending ++ buf := congrArg CommandStore.pending hs₄
      refine ⟨{ d' with lock := false }, valid_lock hv' false, fun _ => ?_, by simp [hz]⟩
      rw [hwhole, if_pos hn, hcommit]
      refine ⟨rfl, rfl, ?_⟩
      change d'.store = _
      rw [hs', hs₄, CommandStore.write_closed _ hn]
      simp only [withPending, hpending]
    · refine ⟨_, valid_lock hv₄ false, fun _ => ?_, by simp [hz]⟩
      rw [hwhole, if_neg hn]
      refine ⟨rfl, rfl, ?_⟩
      rw [CommandStore.write_open _ hn]
      exact hs₄
  · exact ⟨{ d.withPending r h with lock := true }, valid_lock hv₃ true, fun hnot => absurd hnot hz,
      fun _ => ⟨aesdWrite_short hfree he hw hc hz, rfl, hstore⟩⟩

end Aesd
