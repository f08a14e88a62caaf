import Mathlib.Data.Nat.ModEq
import Mathlib.Tactic.Linarith

/-!
# Linear probing

A search in a ring of `size` cells looks at one cell after the other, from `start` on and around the
end, until a cell stops it (`search`). One round is enough: a search that is not over after `size`
cells never is (`search_of_le`), and it is over in time when some cell stops it
(`search_isSome_iff`).

`Reached` says that a search from `start` gets to a cell over taken ones only, which is what a table
keeps for the cells of its keys.
-/

namespace Probing

variable {size : Nat}

/-- The cell behind `n`. -/
def succ (size n : Nat) : Nat := if n + 1 = size then 0 else n + 1

/-- The first cell that stops the search, among `fuel` cells from `n` on. -/
def search (size : Nat) (stop : Nat → Bool) : Nat → Nat → Option Nat
  | 0, _ => none
  | fuel + 1, n => if stop n then some n else search size stop fuel (succ size n)

/-- The cell that a search from `start` looks at after `i` others. -/
def cell (size start i : Nat) : Nat := (start + i) % size

theorem cell_lt (hsize : 0 < size) (start i : Nat) : cell size start i < size :=
  Nat.mod_lt _ hsize

theorem cell_zero {start : Nat} (h : start < size) : cell size start 0 = start :=
  Nat.mod_eq_of_lt h

theorem succ_lt {n : Nat} (h : n < size) : succ size n < size := by
  unfold succ
  split_ifs <;> omega

theorem cell_succ (start i : Nat) :
    cell size (succ size start) i = cell size start (i + 1) := by
  unfold cell succ
  split_ifs with hend
  · rw [Nat.zero_add, show start + (i + 1) = i + size by omega, Nat.add_mod_right]
  · rw [show start + 1 + i = start + (i + 1) by omega]

/-- The cells of one round are different. -/
theorem cell_inj {start i j : Nat} (hi : i < size) (hj : j < size)
    (h : cell size start i = cell size start j) : i = j := by
  have hmod : i ≡ j [MOD size] := Nat.ModEq.add_left_cancel' start h
  exact hmod.eq_of_lt_of_lt hi hj

/-- A round gets to every cell. -/
theorem exists_cell {start n : Nat} (hstart : start < size) (hn : n < size) :
    ∃ i < size, cell size start i = n := by
  by_cases hle : start ≤ n
  · refine ⟨n - start, by omega, ?_⟩
    rw [cell, show start + (n - start) = n by omega, Nat.mod_eq_of_lt hn]
  · refine ⟨n + size - start, by omega, ?_⟩
    rw [cell, show start + (n + size - start) = n + size by omega, Nat.add_mod_right,
      Nat.mod_eq_of_lt hn]

variable {stop : Nat → Bool} {start : Nat}

theorem search_eq_some_iff (hstart : start < size) (fuel n : Nat) :
    search size stop fuel start = some n ↔
      ∃ i < fuel, cell size start i = n ∧ stop n = true ∧
        ∀ j < i, stop (cell size start j) = false := by
  induction fuel generalizing start with
  | zero => simp [search]
  | succ fuel ih =>
    rw [search]
    by_cases hstop : stop start = true
    · rw [if_pos hstop, Option.some.injEq]
      constructor
      · rintro rfl
        exact ⟨0, by omega, cell_zero hstart, hstop, fun j hj => absurd hj (Nat.not_lt_zero j)⟩
      · rintro ⟨i, -, hcell, -, hbefore⟩
        rcases Nat.eq_zero_or_pos i with rfl | hpos
        · rw [← hcell, cell_zero hstart]
        · have hfirst := hbefore 0 hpos
          rw [cell_zero hstart, hstop] at hfirst
          cases hfirst
    · rw [if_neg hstop, ih (succ_lt hstart)]
      constructor
      · rintro ⟨i, hi, hcell, hn, hbefore⟩
        refine ⟨i + 1, by omega, by rw [← cell_succ, hcell], hn, ?_⟩
        intro j hj
        cases j with
        | zero => rw [cell_zero hstart]; simpa using hstop
        | succ j => rw [← cell_succ]; exact hbefore j (by omega)
      · rintro ⟨i, hi, hcell, hn, hbefore⟩
        cases i with
        | zero =>
          rw [cell_zero hstart] at hcell
          rw [hcell, hn] at hstop
          exact absurd rfl hstop
        | succ i =>
          refine ⟨i, by omega, by rw [cell_succ, hcell], hn, ?_⟩
          intro j hj
          rw [cell_succ]
          exact hbefore (j + 1) (by omega)

theorem search_isSome_iff (stop : Nat → Bool) (hstart : start < size) :
    (search size stop size start).isSome = true ↔ ∃ n < size, stop n = true := by
  rw [Option.isSome_iff_exists]
  constructor
  · rintro ⟨n, h⟩
    obtain ⟨i, -, hcell, hn, -⟩ := (search_eq_some_iff hstart size n).mp h
    exact ⟨n, hcell ▸ cell_lt (by omega) start i, hn⟩
  · rintro ⟨n, hlt, hn⟩
    obtain ⟨i, hi, hcell⟩ := exists_cell hstart hlt
    have hex : ∃ i, i < size ∧ stop (cell size start i) = true := ⟨i, hi, by rw [hcell, hn]⟩
    -- the first of the cells that stop the search
    classical
    have hfirst := Nat.find_spec hex
    refine ⟨cell size start (Nat.find hex), (search_eq_some_iff hstart size _).mpr ?_⟩
    refine ⟨Nat.find hex, hfirst.1, rfl, hfirst.2, fun j hj => ?_⟩
    have hno := Nat.find_min hex hj
    rw [not_and, Bool.not_eq_true] at hno
    exact hno (by omega)

/-- More cells than there are make no difference. -/
theorem search_of_le (hstart : start < size) {fuel : Nat} (h : size ≤ fuel) :
    search size stop fuel start = search size stop size start := by
  apply Option.ext
  intro n
  rw [search_eq_some_iff hstart, search_eq_some_iff hstart]
  constructor
  · rintro ⟨i, -, hcell, hn, hbefore⟩
    -- what is looked at in a later round was looked at in the first
    refine ⟨i, ?_, hcell, hn, hbefore⟩
    by_contra hi
    have hsame : cell size start (i - size) = cell size start i := by
      rw [cell, cell, ← Nat.add_mod_right, show start + (i - size) + size = start + i by omega]
    have hno := hbefore (i - size) (by omega)
    rw [hsame, hcell, hn] at hno
    cases hno
  · rintro ⟨i, hi, hrest⟩
    exact ⟨i, by omega, hrest⟩

/-! ## Cells that are reached -/

/-- A search from `start` gets to the cell `n` over taken cells. -/
def Reached (size : Nat) (taken : Nat → Prop) (start n : Nat) : Prop :=
  ∃ i < size, cell size start i = n ∧ ∀ j < i, taken (cell size start j)

variable {taken taken' : Nat → Prop} {n : Nat}

theorem Reached.mono (h : Reached size taken start n) (hle : ∀ m, taken m → taken' m) :
    Reached size taken' start n := by
  obtain ⟨i, hi, hcell, htaken⟩ := h
  exact ⟨i, hi, hcell, fun j hj => hle _ (htaken j hj)⟩

/-- The cell itself is not on the way. -/
theorem Reached.mono_of_ne (h : Reached size taken start n) (hle : ∀ m ≠ n, taken m → taken' m) :
    Reached size taken' start n := by
  obtain ⟨i, hi, hcell, htaken⟩ := h
  refine ⟨i, hi, hcell, fun j hj => hle _ (fun heq => ?_) (htaken j hj)⟩
  have := cell_inj (by omega) hi (heq.trans hcell.symm)
  omega

theorem reached_of_search (hstart : start < size) (h : search size stop size start = some n) :
    Reached size (fun m => stop m = false) start n := by
  obtain ⟨i, hi, hcell, -, hbefore⟩ := (search_eq_some_iff hstart size n).mp h
  exact ⟨i, hi, hcell, hbefore⟩

/-- A search stops at a cell that it reaches over cells that do not stop it. -/
theorem Reached.search (h : Reached size taken start n) (hstart : start < size)
    (hn : stop n = true) (htaken : ∀ m ≠ n, taken m → stop m = false) :
    Probing.search size stop size start = some n := by
  have hreached : Reached size (fun m => stop m = false) start n := h.mono_of_ne htaken
  obtain ⟨i, hi, hcell, hbefore⟩ := hreached
  exact (search_eq_some_iff hstart size n).mpr ⟨i, hi, hcell, hn, hbefore⟩

end Probing
