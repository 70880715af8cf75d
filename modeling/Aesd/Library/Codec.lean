import Mathlib

/-! Texts that are read back: a codec prints a value and parses it off the front of any
input that begins with what was printed. Codecs are put together from fixed texts, tables of
names and sequences, and a codec whose texts are not empty reads back whole logs. -/

structure Codec (β α : Type*) where
  print : α → List β
  parse : List β → Option (α × List β)
  round : ∀ a rest, parse (print a ++ rest) = some (a, rest)

namespace Codec

variable {β α γ : Type*}

/-- A fixed text, which carries nothing. -/
def text [DecidableEq β] (t : List β) : Codec β Unit where
  print _ := t
  parse s := if t <+: s then some ((), s.drop t.length) else none
  round _ rest := by simp

def seq (c : Codec β α) (d : Codec β γ) : Codec β (α × γ) where
  print p := c.print p.1 ++ d.print p.2
  parse s := (c.parse s).bind fun p => (d.parse p.2).map fun q => ((p.1, q.1), q.2)
  round p rest := by
    rw [List.append_assoc, c.round]
    simp [d.round]

def behind [DecidableEq β] (t : List β) (c : Codec β α) : Codec β α where
  print a := t ++ c.print a
  parse s := ((text t).parse s).bind fun p => c.parse p.2
  round a rest := by
    have ht := (text t).round () (c.print a ++ rest)
    rw [List.append_assoc]
    exact (congrArg (fun o : Option (Unit × List β) => o.bind fun p => c.parse p.2) ht).trans
      (c.round a rest)

/-- The same texts, for values that `f` makes of others and `g` takes apart. -/
def imap (c : Codec β α) (f : α → γ) (g : γ → α) (hfg : ∀ x, f (g x) = x) : Codec β γ where
  print x := c.print (g x)
  parse s := (c.parse s).map fun p => (f p.1, p.2)
  round x rest := by rw [c.round, Option.map_some, hfg]

/-- Names of one length, no two of them the same. -/
def table [DecidableEq β] {n : ℕ} (w : ℕ) (name : Fin n → List β) (hw : ∀ i, (name i).length = w)
    (hinj : Function.Injective name) : Codec β (Fin n) where
  print := name
  parse s := ((List.finRange n).find? fun i => name i = s.take w).map fun i => (i, s.drop w)
  round i rest := by
    have htake : (name i ++ rest).take w = name i := by rw [← hw i, List.take_left]
    have hdrop : (name i ++ rest).drop w = rest := by rw [← hw i, List.drop_left]
    have hfind : ((List.finRange n).find? fun k => name k = name i) = some i := by
      cases hk : (List.finRange n).find? fun k => name k = name i with
      | none => simpa using List.find?_eq_none.mp hk i (List.mem_finRange i)
      | some k =>
        have hname := List.find?_some hk
        rw [decide_eq_true_eq] at hname
        rw [hinj hname]
    rw [htake, hdrop, hfind, Option.map_some]

lemma print_ne_nil (c : Codec β α) (h : c.parse [] = none) (a : α) : c.print a ≠ [] := by
  intro hnil
  have hround := c.round a []
  rw [hnil, List.nil_append, h] at hround
  simp at hround

/-- Values read off until nothing is left. -/
def parseAll (c : Codec β α) : ℕ → List β → Option (List α)
  | _, [] => some []
  | 0, _ :: _ => none
  | fuel + 1, b :: s =>
    (c.parse (b :: s)).bind fun p => (c.parseAll fuel p.2).map fun as => p.1 :: as

/-- A log of any length is read back, given as much fuel as it has values. -/
theorem parseAll_print (c : Codec β α) (hne : ∀ a, c.print a ≠ []) (as : List α) {fuel : ℕ}
    (hfuel : as.length ≤ fuel) : c.parseAll fuel (as.flatMap c.print) = some as := by
  induction as generalizing fuel with
  | nil => cases fuel <;> rfl
  | cons a as ih =>
    cases fuel with
    | zero => simp at hfuel
    | succ fuel =>
      have hround := c.round a (as.flatMap c.print)
      rw [List.flatMap_cons]
      cases hs : c.print a ++ as.flatMap c.print with
      | nil => exact absurd (List.append_eq_nil_iff.mp hs).1 (hne a)
      | cons b s =>
        rw [hs] at hround
        rw [parseAll, hround, Option.bind_some, ih (by simpa using hfuel), Option.map_some]

end Codec
