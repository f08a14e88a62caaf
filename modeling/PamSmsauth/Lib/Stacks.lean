import Mathlib.Data.List.Basic
import Mathlib.Data.List.ModifyLast
import Mathlib.Logic.Function.Basic

/-!
# Stacks under keys

A stack for every key, with its top at the end of the list. The rows of a table, each with a key and
an entry, are such stacks: a row that is appended is pushed, the last row with a key is the top,
changing it alone changes the top, and deleting it pops the stack (`ofRows_append` to
`ofRows_delete`).
-/

namespace Stacks

variable {κ ε ρ : Type} [DecidableEq κ]

def empty : κ → List ε := fun _ => []

def push (s : κ → List ε) (k : κ) (e : ε) : κ → List ε := Function.update s k (s k ++ [e])

def top (s : κ → List ε) (k : κ) : Option ε := (s k).getLast?

def modifyTop (s : κ → List ε) (k : κ) (f : ε → ε) : κ → List ε :=
  Function.update s k ((s k).modifyLast f)

def pop (s : κ → List ε) (k : κ) : κ → List ε := Function.update s k (s k).dropLast

/-- Keeps the entries that satisfy `p`. -/
def retain (s : κ → List ε) (p : ε → Bool) : κ → List ε := fun k => (s k).filter p

theorem pop_of_top_eq_none {s : κ → List ε} {k : κ} (h : top s k = none) : pop s k = s := by
  rw [pop, List.getLast?_eq_none_iff.mp h]
  exact Function.update_eq_self_iff.mpr (List.getLast?_eq_none_iff.mp h).symm

section Rows

variable (key : ρ → κ) (entry : ρ → ε)

def ofRows (rows : List ρ) : κ → List ε := fun k => (rows.filter (key · = k)).map entry

variable {key entry}

theorem top_ofRows (rows : List ρ) (k : κ) :
    top (ofRows key entry rows) k = (rows.filter (key · = k)).getLast?.map entry :=
  List.getLast?_map

theorem ofRows_append (rows : List ρ) (r : ρ) : ofRows key entry (rows ++ [r]) =
    push (ofRows key entry rows) (key r) (entry r) := by
  funext k
  by_cases hk : key r = k
  · rw [← hk, push, Function.update_self]
    simp [ofRows]
  · rw [push, Function.update_of_ne (Ne.symm hk)]
    simp [ofRows, hk]

variable (key) in
/-- The last row with a key, and the rows after it, which have other keys. -/
theorem exists_split {rows : List ρ} {k : κ} {r : ρ}
    (h : (rows.filter (key · = k)).getLast? = some r) :
    ∃ front back, rows = front ++ r :: back ∧ key r = k ∧ ∀ s ∈ back, key s ≠ k := by
  obtain ⟨init, hinit⟩ := List.getLast?_eq_some_iff.mp h
  obtain ⟨front, rest, rfl, -, hrest⟩ := List.filter_eq_append_iff.mp hinit
  obtain ⟨skipped, back, rfl, -, hr, hback⟩ := List.filter_eq_cons_iff.mp hrest
  refine ⟨front ++ skipped, back, by rw [List.append_assoc], by simpa using hr, ?_⟩
  intro s hs
  simpa using List.filter_eq_nil_iff.mp hback s hs

theorem filter_back {back : List ρ} {k : κ} (h : ∀ s ∈ back, key s ≠ k) :
    back.filter (key · = k) = [] := by
  rw [List.filter_eq_nil_iff]
  intro s hs
  simpa using h s hs

variable {front back : List ρ} {r : ρ} (hback : ∀ s ∈ back, key s ≠ key r)

include hback

/-- Changing the last row with a key. -/
theorem ofRows_modify {r' : ρ} {f : ε → ε} (hkey : key r' = key r)
    (hentry : entry r' = f (entry r)) : ofRows key entry (front ++ r' :: back) =
      modifyTop (ofRows key entry (front ++ r :: back)) (key r) f := by
  funext k
  by_cases hk : key r = k
  · subst hk
    rw [modifyTop, Function.update_self]
    simp only [ofRows, List.filter_append, List.filter_cons, hkey, decide_true, if_true,
      filter_back hback, List.map_append, List.map_cons, List.map_nil, hentry]
    rw [List.modifyLast_concat]
  · rw [modifyTop, Function.update_of_ne (Ne.symm hk)]
    simp [ofRows, hkey, hk]

/-- Deleting the last row with a key. -/
theorem ofRows_delete : ofRows key entry (front ++ back) =
    pop (ofRows key entry (front ++ r :: back)) (key r) := by
  funext k
  by_cases hk : key r = k
  · subst hk
    rw [pop, Function.update_self]
    simp only [ofRows, List.filter_append, List.filter_cons, decide_true, if_true,
      filter_back hback, List.map_append, List.map_cons, List.map_nil, List.append_nil]
    rw [List.dropLast_concat]
  · rw [pop, Function.update_of_ne (Ne.symm hk)]
    simp [ofRows, hk]

omit hback in
theorem ofRows_filter {p : ρ → Bool} {q : ε → Bool} (h : ∀ r, p r = q (entry r)) (rows : List ρ) :
    ofRows key entry (rows.filter p) = retain (ofRows key entry rows) q := by
  funext k
  have hp : p = q ∘ entry := funext h
  rw [retain, ofRows, ofRows, List.filter_map, List.filter_filter, List.filter_filter, hp]
  simp only [Bool.and_comm]

end Rows

end Stacks
