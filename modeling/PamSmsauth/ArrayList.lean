import PamSmsauth.JsonObject

/-!
# The arrays of the bundled JSON objects (`json/arraylist.c`)

An array has `size` cells, of which the first `length` are in use. An access outside the cells is
`none`; the elements that are put over are handed to `free_fn`, and are the last result.

A write behind the cells makes them `max(size << 1, idx)` many, which is not enough for `idx` when
it is the larger one: `array_list_put_idx` stays inside for the indices below twice the size and for
no others (`putIdx_ofList`). Within these, an array is a list that gets NULL elements where it is
written behind its end (`arrayList_run`). `array_list_add` never asks for more than one more cell
(`arrayAdd_run`).
-/

namespace PamSmsauth

open CText

/-- `struct array_list`, where `none` is the NULL pointer. -/
structure ArrayList (ν : Type) where
  array : List (Option ν)
  length : Nat
  size : Nat

def arrayListDefaultSize : Nat := 32

variable {ν : Type}

namespace ArrayList

def new : ArrayList ν :=
  ⟨List.replicate arrayListDefaultSize none, 0, arrayListDefaultSize⟩

def getIdx (this : ArrayList ν) (i : Int) : Option (Option ν) :=
  if i ≥ this.length then some none
  else if i < 0 then none
  else this.array[i.toNat]?

/-- `array_list_expand_internal`; `granted` says that a `realloc` succeeds. -/
def expandInternal (granted : Bool) (this : ArrayList ν) (max : Int) : ArrayList ν × Int :=
  if max < this.size then (this, 0)
  else
    let newSize := if ((this.size * 2 : Nat) : Int) > max then this.size * 2 else max.toNat
    if granted then
      ({ this with
          array := this.array ++ List.replicate (newSize - this.size) none, size := newSize }, 0)
    else (this, -1)

/-- The cell is written, and `length` follows. -/
def setIdx (this : ArrayList ν) (idx : Int) (data : Option ν) :
    Option (ArrayList ν × Int × Option ν) :=
  if idx < 0 then none
  else
    this.array[idx.toNat]?.map fun old =>
      ({ this with
          array := this.array.set idx.toNat data
          length := if (this.length : Int) ≤ idx then idx.toNat + 1 else this.length }, 0, old)

def putIdx (granted : Bool) (this : ArrayList ν) (idx : Int) (data : Option ν) :
    Option (ArrayList ν × Int × Option ν) :=
  match this.expandInternal granted idx with
  | (this, 0) => this.setIdx idx data
  | (this, _) => some (this, -1, none)

def add (granted : Bool) (this : ArrayList ν) (data : Option ν) :
    Option (ArrayList ν × Int × Option ν) :=
  this.putIdx granted this.length data

end ArrayList

/-- The calls for an array, each with what a `realloc` in it would do. -/
inductive ArrayOp (ν : Type) where
  | add (granted : Bool) (data : Option ν)
  | putIdx (granted : Bool) (idx : Int) (data : Option ν)
  | getIdx (i : Int)

/-- What a call returns: a number and the element that was put over, or an element. -/
inductive ArrayOut (ν : Type) where
  | ret (n : Int) (freed : Option ν)
  | elem (data : Option ν)

namespace ArrayOp

def run (this : ArrayList ν) : ArrayOp ν → Option (ArrayList ν × ArrayOut ν)
  | .add granted data => (this.add granted data).map fun (this, n, old) => (this, .ret n old)
  | .putIdx granted idx data =>
    (this.putIdx granted idx data).map fun (this, n, old) => (this, .ret n old)
  | .getIdx i => (this.getIdx i).map fun data => (this, .elem data)

def runAll : List (ArrayOp ν) → ArrayList ν → Option (ArrayList ν × List (ArrayOut ν))
  | [], this => some (this, [])
  | op :: ops, this => do
    let (this, out) ← op.run this
    let (this, outs) ← runAll ops this
    return (this, out :: outs)

/-- An element is put into a list, behind NULL elements if the list does not reach so far. -/
def put (elems : List (Option ν)) (idx : Nat) (data : Option ν) : List (Option ν) :=
  if idx < elems.length then elems.set idx data
  else elems ++ List.replicate (idx - elems.length) none ++ [data]

/-- What the calls are for, on a list of elements and the number of cells; `none` is an access
outside the cells. -/
def spec : ArrayOp ν → List (Option ν) × Nat → Option ((List (Option ν) × Nat) × ArrayOut ν)
  | .add granted data, (elems, size) =>
    if elems.length < size then some ((elems ++ [data], size), .ret 0 none)
    else if granted then some ((elems ++ [data], size * 2), .ret 0 none)
    else some ((elems, size), .ret (-1) none)
  | .putIdx granted idx data, (elems, size) =>
    if idx < 0 then none
    else if idx < size then some ((put elems idx.toNat data, size), .ret 0 elems[idx.toNat]?.join)
    else if ¬ granted then some ((elems, size), .ret (-1) none)
    else if idx < size * 2 then some ((put elems idx.toNat data, size * 2), .ret 0 none)
    else none
  | .getIdx i, (elems, size) =>
    if i < 0 then none else some ((elems, size), .elem elems[i.toNat]?.join)

def specAll : List (ArrayOp ν) → List (Option ν) × Nat →
    Option ((List (Option ν) × Nat) × List (ArrayOut ν))
  | [], st => some (st, [])
  | op :: ops, st => do
    let (st, out) ← op.spec st
    let (st, outs) ← specAll ops st
    return (st, out :: outs)

end ArrayOp

/-! ## An array as a list -/

namespace ArrayList

open ArrayOp

/-- An array with these elements: the cells behind them are NULL. -/
def ofList (elems : List (Option ν)) (size : Nat) : ArrayList ν :=
  ⟨elems ++ List.replicate (size - elems.length) none, elems.length, size⟩

variable {elems : List (Option ν)} {size idx : Nat} {data : Option ν}

theorem length_put : (put elems idx data).length = max elems.length (idx + 1) := by
  unfold put
  split_ifs with h
  · rw [List.length_set]
    omega
  · rw [List.length_append, List.length_append, List.length_replicate, List.length_singleton]
    omega

theorem set_cells (h : idx < size) (hle : elems.length ≤ size) :
    (elems ++ List.replicate (size - elems.length) none).set idx data =
      put elems idx data ++ List.replicate (size - (put elems idx data).length) none := by
  rw [length_put]
  unfold put
  split_ifs with hlt
  · rw [List.set_append_left _ _ hlt, show max elems.length (idx + 1) = elems.length by omega]
  · -- the NULL elements up to the index become part of the list
    have hsplit : size - elems.length = (idx - elems.length) + (1 + (size - (idx + 1))) := by omega
    rw [List.set_append_right _ _ (by omega), hsplit, List.replicate_add, List.replicate_add,
      List.set_append_right _ _ (by simp), List.length_replicate, Nat.sub_self,
      show max elems.length (idx + 1) = idx + 1 by omega, List.append_assoc, List.append_assoc]
    rfl

theorem getElem?_cells (h : idx < size) (hle : elems.length ≤ size) :
    (elems ++ List.replicate (size - elems.length) none)[idx]? = some elems[idx]?.join := by
  by_cases hlt : idx < elems.length
  · rw [List.getElem?_append_left hlt, List.getElem?_eq_getElem hlt]
    rfl
  · rw [List.getElem?_append_right (by omega), List.getElem?_replicate_of_lt (by omega),
      List.getElem?_eq_none (by omega)]
    rfl

theorem put_length (elems : List (Option ν)) (data : Option ν) :
    put elems elems.length data = elems ++ [data] := by
  rw [put, if_neg (lt_irrefl _), Nat.sub_self]
  simp

theorem setIdx_ofList {size : Nat} (hle : elems.length ≤ size) (idx : Nat) (data : Option ν) :
    (ofList elems size).setIdx idx data =
      if idx < size then some (ofList (put elems idx data) size, 0, elems[idx]?.join)
        else none := by
  rw [setIdx, if_neg (by omega), Int.toNat_natCast]
  by_cases h : idx < size
  · rw [if_pos h]
    have hlength : (if ((ofList elems size).length : Int) ≤ idx then idx + 1
        else (ofList elems size).length) = (put elems idx data).length := by
      rw [length_put, show (ofList elems size).length = elems.length from rfl]
      split_ifs <;> omega
    simp only [hlength]
    simp only [ofList, getElem?_cells h hle, set_cells h hle, Option.map_some]
  · rw [if_neg h]
    have hout : (ofList elems size).array[idx]? = none := by
      refine List.getElem?_eq_none ?_
      rw [ofList, List.length_append, List.length_replicate]
      omega
    rw [hout, Option.map_none]

theorem expand_ofList (hle : elems.length ≤ size) {newSize : Nat} (h : size ≤ newSize) :
    ({ ofList elems size with
        array := (ofList elems size).array ++ List.replicate (newSize - size) none
        size := newSize } : ArrayList ν) = ofList elems newSize := by
  have hcells : newSize - elems.length = (size - elems.length) + (newSize - size) := by omega
  simp only [ofList, List.append_assoc, ← List.replicate_add, hcells]

/-- What `array_list_expand_internal` leaves, for an index that is not negative. -/
theorem expandInternal_ofList (granted : Bool) (hle : elems.length ≤ size) (idx : Nat) :
    (ofList elems size).expandInternal granted idx =
      if idx < size then (ofList elems size, 0)
      else if granted then (ofList elems (if idx < size * 2 then size * 2 else idx), 0)
      else (ofList elems size, -1) := by
  unfold expandInternal
  simp only [show (ofList elems size).size = size from rfl]
  split_ifs <;> first | omega | rfl | skip
  · rw [expand_ofList hle (by omega)]
  · rw [Int.toNat_natCast, expand_ofList hle (by omega)]

/-- A write is inside the cells, behind them but not behind as many again, or outside. -/
theorem putIdx_ofList (granted : Bool) (hle : elems.length ≤ size) (idx : Int) (data : Option ν) :
    ((ofList elems size).putIdx granted idx data).map (fun (this, n, old) => (this, .ret n old)) =
      (spec (.putIdx granted idx data) (elems, size)).map
        fun (st, out) => (ofList st.1 st.2, out) := by
  rcases lt_or_ge idx 0 with hneg | hpos
  · have hexpand : (ofList elems size).expandInternal granted idx = (ofList elems size, 0) :=
      if_pos (show idx < (size : Int) by omega)
    simp only [putIdx, hexpand, setIdx, spec, if_pos hneg, Option.map_none]
  lift idx to Nat using hpos
  have hnot : ¬ (idx : Int) < 0 := by omega
  have hdouble : (idx : Int) < size * 2 ↔ idx < size * 2 := by omega
  simp only [putIdx, expandInternal_ofList granted hle, spec, if_neg hnot, Int.toNat_natCast,
    Nat.cast_lt, hdouble]
  by_cases hin : idx < size
  · simp only [if_pos hin, setIdx_ofList hle, Option.map_some]
  cases granted with
  | false => simp [hin]
  | true =>
    have hnull : elems[idx]?.join = none := by
      rw [List.getElem?_eq_none (by omega)]
      rfl
    by_cases hin' : idx < size * 2
    · have hset := setIdx_ofList (show elems.length ≤ size * 2 by omega) idx data
      simp [hin, hin', hset, hnull]
    · have hset := setIdx_ofList (show elems.length ≤ idx by omega) idx data
      simp [hin, hin', hset]

/-- A call does to an array what it is for. -/
theorem run_ofList (op : ArrayOp ν) (hsize : 0 < size) (hle : elems.length ≤ size) :
    op.run (ofList elems size) =
      (op.spec (elems, size)).map fun (st, out) => (ofList st.1 st.2, out) := by
  cases op with
  | putIdx granted idx data => exact putIdx_ofList granted hle idx data
  | add granted data =>
    have hadd := putIdx_ofList granted hle elems.length data
    rw [show ArrayOp.run (ofList elems size) (.add granted data) = _ from hadd]
    have hneg : ¬ (elems.length : Int) < 0 := by omega
    have hdouble : (elems.length : Int) < size * 2 := by omega
    have hnull : elems[elems.length]?.join = none := by
      rw [List.getElem?_eq_none le_rfl]
      rfl
    simp only [spec, if_neg hneg, Nat.cast_lt, Int.toNat_natCast, if_pos hdouble, put_length, hnull]
    by_cases hlt : elems.length < size <;> cases granted <;> simp [hlt]
  | getIdx i =>
    unfold ArrayOp.run ArrayList.getIdx
    rcases lt_or_ge i 0 with hneg | hpos
    · have hlt : ¬ i ≥ elems.length := by omega
      simp only [ofList, if_neg hlt, spec, if_pos hneg, Option.map_none]
    lift i to Nat using hpos
    have hnot : ¬ (i : Int) < 0 := by omega
    have hcell : (if (i : Int) ≥ elems.length then some none
        else (ofList elems size).array[i]?) = some elems[i]?.join := by
      split_ifs with hge
      · rw [List.getElem?_eq_none (by omega)]
        rfl
      · exact getElem?_cells (by omega) hle
    simp only [spec, if_neg hnot, Int.toNat_natCast]
    rw [show (ofList elems size).length = elems.length from rfl, hcell]
    rfl

/-- The cells stay enough for the elements. -/
theorem spec_le {op : ArrayOp ν} {st : List (Option ν) × Nat} {out : ArrayOut ν}
    (h : op.spec (elems, size) = some (st, out)) (hsize : 0 < size) (hle : elems.length ≤ size) :
    0 < st.2 ∧ st.1.length ≤ st.2 := by
  cases op with
  | add granted data =>
    simp only [spec] at h
    split_ifs at h with hlt hgranted <;> cases h
    · exact ⟨hsize, by simpa using hlt⟩
    · exact ⟨by omega, by simp; omega⟩
    · exact ⟨hsize, hle⟩
  | putIdx granted idx data =>
    simp only [spec] at h
    split_ifs at h with hneg hin hgranted hin' <;> cases h
    · exact ⟨hsize, by rw [length_put]; omega⟩
    · exact ⟨show 0 < size * 2 by omega, by rw [length_put]; dsimp only; omega⟩
    · exact ⟨hsize, hle⟩
  | getIdx i =>
    simp only [spec] at h
    split_ifs at h
    cases h
    exact ⟨hsize, hle⟩

theorem runAll_ofList (ops : List (ArrayOp ν)) (hsize : 0 < size) (hle : elems.length ≤ size) :
    ArrayOp.runAll ops (ofList elems size) =
      (specAll ops (elems, size)).map fun (st, outs) => (ofList st.1 st.2, outs) := by
  induction ops generalizing elems size with
  | nil => rfl
  | cons op ops ih =>
    simp only [ArrayOp.runAll, specAll, run_ofList op hsize hle, Option.bind_eq_bind,
      Option.pure_def]
    cases hspec : op.spec (elems, size) with
    | none => rfl
    | some r =>
      obtain ⟨⟨elems', size'⟩, out⟩ := r
      obtain ⟨hsize', hle'⟩ := spec_le hspec hsize hle
      simp only [Option.map_some, Option.bind_some, ih hsize' hle']
      cases specAll ops (elems', size') <;> rfl

end ArrayList

open ArrayList

/-- The calls on a new array are the ones on a list, and stay inside its cells exactly when those
do. -/
theorem arrayList_run (ops : List (ArrayOp ν)) :
    ArrayOp.runAll ops ArrayList.new =
      (ArrayOp.specAll ops ([], arrayListDefaultSize)).map
        fun (st, outs) => (ofList st.1 st.2, outs) := by
  have hnew : (ArrayList.new : ArrayList ν) = ofList [] arrayListDefaultSize := rfl
  rw [hnew]
  exact runAll_ofList ops (by decide) (Nat.zero_le _)

theorem specAll_add (vals elems : List (Option ν)) (size : Nat) :
    ∃ size', ArrayOp.specAll (vals.map (.add true)) (elems, size) =
      some ((elems ++ vals, size'), vals.map fun _ => .ret 0 none) := by
  induction vals generalizing elems size with
  | nil => exact ⟨size, by rw [List.append_nil]; rfl⟩
  | cons v vals ih =>
    have happend : elems ++ v :: vals = elems ++ [v] ++ vals := by simp
    rw [happend]
    by_cases hlt : elems.length < size
    · obtain ⟨size', h⟩ := ih (elems ++ [v]) size
      refine ⟨size', ?_⟩
      simp [ArrayOp.specAll, ArrayOp.spec, hlt, h]
    · obtain ⟨size', h⟩ := ih (elems ++ [v]) (size * 2)
      refine ⟨size', ?_⟩
      simp [ArrayOp.specAll, ArrayOp.spec, hlt, h]

/-- Adding values one after the other makes the array of these values. -/
theorem arrayAdd_run (vals : List (Option ν)) :
    ∃ size, ArrayOp.runAll (vals.map (.add true)) ArrayList.new =
      some (ofList vals size, vals.map fun _ => .ret 0 none) := by
  obtain ⟨size, h⟩ := specAll_add vals [] arrayListDefaultSize
  have hnew : (ArrayList.new : ArrayList ν) = ofList [] arrayListDefaultSize := rfl
  refine ⟨size, ?_⟩
  rw [hnew, runAll_ofList _ (by decide) (Nat.zero_le _), h]
  rfl

/-- The first index that a new array has no cell for, however it grows. -/
example :
    (ArrayOp.runAll [.putIdx true 63 (some 1)] (ArrayList.new : ArrayList Nat)).isSome = true ∧
    (ArrayOp.runAll [.putIdx true 64 (some 1)] (ArrayList.new : ArrayList Nat)).isSome = false := by
  decide

end PamSmsauth
