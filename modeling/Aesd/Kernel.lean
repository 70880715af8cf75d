import Aesd.Library.Machine
import Aesd.Library.Memory

/-! The kernel services the driver calls, as documented: a heap of allocated blocks,
`kmalloc`, `krealloc`, `kfree` and the copies across the user boundary. What the
services answer is an input, so every outcome is covered. -/
namespace Aesd
open Memory

/-- Why a call does not come back: it sleeps on a lock nobody will release, it touches
memory it does not own, or its loop outlasts the fuel it was given. -/
inductive Stop
  | blocked
  | fault
  | spins
  deriving DecidableEq, Repr

abbrev Bytes := List UInt8

/-- The line feed that ends a command. -/
def newline : UInt8 := 10

/-- A pointer: `NULL`, the placeholder for zero bytes, or an allocated block's identity. -/
inductive Ptr
  | null
  | zeroSize
  | block (addr : ℕ)
  deriving DecidableEq, Repr

/-- The live blocks and their bytes. -/
abbrev Heap := ℕ → Option Bytes

/-- A granted allocation: the identity chosen, and what uninitialised bytes hold. -/
structure Alloc where
  addr : ℕ
  junk : ℕ → UInt8

def ERESTARTSYS : ℤ := 512
def EFAULT : ℤ := 14
def EINVAL : ℤ := 22

def kmalloc (h : Heap) (a : Option Alloc) (n : ℕ) : Ptr × Heap :=
  if n = 0 then (.zeroSize, h)
  else
    match a with
    | none => (.null, h)
    | some a => (.block a.addr, Function.update h a.addr (some (resize a.junk n [])))

/-- Freeing `NULL` or the placeholder does nothing; freeing a dead block is a fault. -/
def kfree (h : Heap) : Ptr → Except Stop Heap
  | .block b => if (h b).isSome then .ok (Function.update h b none) else .error .fault
  | _ => .ok h

/-- A block is resized in place or moved to the identity granted. Growing `NULL` or the
placeholder allocates, and resizing to zero bytes frees. -/
def krealloc (h : Heap) (p : Ptr) (n : ℕ) (a : Option Alloc) (inPlace : Bool) :
    Except Stop (Ptr × Heap) :=
  match p with
  | .block b =>
    match h b with
    | none => .error .fault
    | some bs =>
      if n = 0 then .ok (.zeroSize, Function.update h b none)
      else
        match a with
        | none => .ok (.null, h)
        | some a =>
          if inPlace then .ok (.block b, Function.update h b (some (resize a.junk n bs)))
          else
            .ok (.block a.addr,
              Function.update (Function.update h b none) a.addr (some (resize a.junk n bs)))
  | _ => .ok (kmalloc h a n)

/-- Read `n` bytes from `off` on. Reading no bytes touches no memory. -/
def loadRun (h : Heap) (p : Ptr) (off n : ℕ) : Except Stop Bytes :=
  if n = 0 then .ok []
  else
    match p with
    | .block b =>
      match h b with
      | some bs => if off + n ≤ bs.length then .ok ((bs.drop off).take n) else .error .fault
      | none => .error .fault
    | _ => .error .fault

/-- Write a run of bytes from `off` on. Writing no bytes touches no memory. -/
def storeRun (h : Heap) (p : Ptr) (off : ℕ) (ys : Bytes) : Except Stop Heap :=
  if ys.length = 0 then .ok h
  else
    match p with
    | .block b =>
      match h b with
      | some bs =>
        if off + ys.length ≤ bs.length then .ok (Function.update h b (some (splice bs off ys)))
        else .error .fault
      | none => .error .fault
    | _ => .error .fault

/-- Returns the number of bytes left uncopied, whose place is filled with zeros. -/
def copyFromUser (h : Heap) (dst : Ptr) (off : ℕ) (buf : Bytes) (uncopied : ℕ) :
    Except Stop (ℕ × Heap) := do
  let left := min uncopied buf.length
  let h ← storeRun h dst off (buf.take (buf.length - left) ++ List.replicate left 0)
  .ok (left, h)

/-- Returns the number of bytes left uncopied and the bytes that reached the user. -/
def copyToUser (h : Heap) (src : Ptr) (off n uncopied : ℕ) : Except Stop (ℕ × Bytes) := do
  let bs ← loadRun h src off n
  let left := min uncopied n
  .ok (left, bs.take (n - left))

/-- The bytes a pointer gives access to. -/
def bytesAt (h : Heap) : Ptr → Bytes
  | .block b => (h b).getD []
  | _ => []

@[simp] lemma bytesAt_null (h : Heap) : bytesAt h .null = [] := rfl
@[simp] lemma bytesAt_zeroSize (h : Heap) : bytesAt h .zeroSize = [] := rfl

/-- Blocks other than the one updated keep their bytes. -/
lemma bytesAt_update_of_ne {h : Heap} {b : ℕ} {v : Option Bytes} {p : Ptr} (hp : p ≠ .block b) :
    bytesAt (Function.update h b v) p = bytesAt h p := by
  cases p with
  | null => rfl
  | zeroSize => rfl
  | block c =>
    have hc : c ≠ b := fun he => hp (by rw [he])
    simp [bytesAt, Function.update_of_ne hc]

@[simp] lemma bytesAt_update_self (h : Heap) (b : ℕ) (v : Option Bytes) :
    bytesAt (Function.update h b v) (.block b) = v.getD [] := by
  simp [bytesAt]

lemma loadRun_ok {h : Heap} {p : Ptr} {off n : ℕ} (hb : off + n ≤ (bytesAt h p).length) :
    loadRun h p off n = .ok (((bytesAt h p).drop off).take n) := by
  rcases Nat.eq_zero_or_pos n with rfl | hn
  · simp [loadRun]
  · cases p with
    | null => simp at hb; omega
    | zeroSize => simp at hb; omega
    | block b =>
      cases hm : h b with
      | none => simp [bytesAt, hm] at hb; omega
      | some bs =>
        simp only [bytesAt, hm, Option.getD_some] at hb
        simp [loadRun, hn.ne', hm, hb, bytesAt]

lemma storeRun_ok {h : Heap} {b : ℕ} {bs ys : Bytes} {off : ℕ} (hm : h b = some bs)
    (hb : off + ys.length ≤ bs.length) :
    storeRun h (.block b) off ys = .ok (Function.update h b (some (splice bs off ys))) := by
  unfold storeRun
  split_ifs with hy
  · have hnil : ys = [] := List.length_eq_zero_iff.mp hy
    rw [hnil, splice_nil, ← hm, Function.update_eq_self]
  · simp [hm, hb]

@[simp] lemma storeRun_nil (h : Heap) (p : Ptr) (off : ℕ) : storeRun h p off [] = .ok h := by
  simp [storeRun]

lemma copyToUser_ok {h : Heap} {p : Ptr} {off n : ℕ} (uncopied : ℕ)
    (hb : off + n ≤ (bytesAt h p).length) :
    copyToUser h p off n uncopied =
      .ok (min uncopied n, (((bytesAt h p).drop off).take n).take (n - min uncopied n)) := by
  simp [copyToUser, loadRun_ok hb, bind, Except.bind]

end Aesd
