import PamSmsauth.JsonObject
import PamSmsauth.Lib.Links
import PamSmsauth.Lib.Probing

/-!
# The hash table of the bundled JSON objects (`json/linkhash.c`)

A table is an array of entries with open addressing: a key goes to the first cell from its hash on
that is `LH_EMPTY` or `LH_FREED`, and the cells of the keys are linked in the order of insertion. A
cell that is freed stays `LH_FREED`, so that searches go on behind it; only a resize makes empty
cells again. An entry is known by its index, and the fields of the entries are functions of it. A
loop that would not end is `none`.

Whatever the hash function, a table stores a list of entries with different keys, in their order
(`Stores`).
-/

namespace PamSmsauth

open CText Links Probing

/-- What is in the key of a cell. -/
inductive LhKey (κ : Type) where
  | empty
  | freed
  | key (k : κ)
  deriving DecidableEq

/-- `struct lh_table`; the default value is the NULL pointer. -/
structure LhTable (κ ν : Type) where
  size : Nat
  count : Nat
  head : Option Nat
  tail : Option Nat
  k : Nat → LhKey κ
  v : Nat → ν
  next : Nat → Option Nat
  prev : Nat → Option Nat

variable {κ ν : Type}

section Model

variable [DecidableEq κ] [Inhabited ν] (hashFn : κ → Nat)

def lhTableNew (size : Nat) : LhTable κ ν :=
  ⟨size, 0, none, none, fun _ => .empty, fun _ => default, fun _ => none, fun _ => none⟩

namespace LhTable

/-- The loop over the cells from the hash of a key on. -/
def probe (t : LhTable κ ν) (k : κ) (stop : LhKey κ → Bool) : Option Nat :=
  search t.size (fun n => stop (t.k n)) t.size (hashFn k % t.size)

/-- The cell takes the key, and is linked behind the others. -/
def fill (t : LhTable κ ν) (n : Nat) (k : κ) (v : ν) : LhTable κ ν :=
  let t := { t with
    k := Function.update t.k n (.key k), v := Function.update t.v n v, count := t.count + 1 }
  match t.head with
  | none =>
    { t with
      head := some n, tail := some n
      next := Function.update t.next n none, prev := Function.update t.prev n none }
  | some _ =>
    { t with
      next := Function.update (assign t.next t.tail (some n)) n none
      prev := Function.update t.prev n t.tail, tail := some n }

/-- `lh_table_insert` behind the resize. -/
def place (t : LhTable κ ν) (k : κ) (v : ν) : Option (LhTable κ ν) :=
  (t.probe hashFn k fun s => s = .empty ∨ s = .freed).map fun n => t.fill n k v

def entryAt (t : LhTable κ ν) (n : Nat) : Option (κ × ν) :=
  match t.k n with
  | .key k => some (k, t.v n)
  | _ => none

/-- The entries that `lh_foreach` meets. -/
def foreach (t : LhTable κ ν) : Option (List (κ × ν)) :=
  (walk t.next t.size t.head).bind fun order => order.mapM t.entryAt

/-- `t->count > t->size * 0.66`. -/
def Crowded (t : LhTable κ ν) : Prop := 66 * t.size < 100 * t.count

instance (t : LhTable κ ν) : Decidable t.Crowded := inferInstanceAs (Decidable (_ < _))

/-- `lh_table_resize`, with the insertion that it uses on the new table. -/
def resizeWith (insert : LhTable κ ν → κ → ν → Option (LhTable κ ν)) (t : LhTable κ ν)
    (newSize : Nat) : Option (LhTable κ ν) := do
  let entries ← t.foreach
  let newT ← entries.foldlM (fun t e => insert t e.1 e.2) (lhTableNew newSize)
  return { newT with size := newSize, count := t.count }

/-- `lh_table_insert`, with resizes nested up to a depth. -/
def insertAt : Nat → LhTable κ ν → κ → ν → Option (LhTable κ ν)
  | depth, t, k, v =>
    if t.Crowded then
      match depth with
      | 0 => none
      | depth + 1 =>
        (t.resizeWith (insertAt depth) (t.size * 2)).bind fun t => t.place hashFn k v
    else t.place hashFn k v

/-- `lh_table_insert`; a resize meets no other one (`insertAt_eq`). -/
def insert (t : LhTable κ ν) (k : κ) (v : ν) : Option (LhTable κ ν) := t.insertAt hashFn 1 k v

/-- `lh_table_lookup_entry`; `some none` is NULL. -/
def lookupEntry (t : LhTable κ ν) (k : κ) : Option (Option Nat) :=
  (t.probe hashFn k fun s => s = .empty ∨ s = .key k).map fun n =>
    if t.k n = .empty then none else some n

def lookup (t : LhTable κ ν) (k : κ) : Option ν :=
  (t.lookupEntry hashFn k).map fun e => e.elim default t.v

/-- `lh_table_delete_entry`; what `free_fn` does is outside the table. -/
def deleteEntry (t : LhTable κ ν) (n : Nat) : LhTable κ ν × Int :=
  match t.k n with
  | .key _ =>
    let t := { t with
      count := t.count - 1, v := Function.update t.v n default, k := Function.update t.k n .freed }
    let t :=
      if t.tail = some n ∧ t.head = some n then { t with head := none, tail := none }
      else if t.head = some n then
        { t with prev := assign t.prev (t.next n) none, head := t.next n }
      else if t.tail = some n then
        { t with next := assign t.next (t.prev n) none, tail := t.prev n }
      else
        { t with
          next := assign t.next (t.prev n) (t.next n), prev := assign t.prev (t.next n) (t.prev n) }
    ({ t with next := Function.update t.next n none, prev := Function.update t.prev n none }, 0)
  | _ => (t, -1)

def delete (t : LhTable κ ν) (k : κ) : Option (LhTable κ ν × Int) :=
  (t.lookupEntry hashFn k).map fun e => e.elim (t, -1) t.deleteEntry

/-- `json_object_object_add`, for a key that was copied. -/
def objectAdd (t : LhTable κ ν) (k : κ) (v : ν) : Option (LhTable κ ν) := do
  let (t, _) ← t.delete hashFn k
  t.insert hashFn k v

def objectDel (t : LhTable κ ν) (k : κ) : Option (LhTable κ ν) := (t.delete hashFn k).map Prod.fst

def objectGet (t : LhTable κ ν) (k : κ) : Option ν := t.lookup hashFn k

end LhTable

/-- The calls for the entries of an object. -/
inductive LhOp (κ ν : Type) where
  | add (k : κ) (v : ν)
  | del (k : κ)
  | get (k : κ)

namespace LhOp

def key : LhOp κ ν → κ
  | .add k _ => k
  | .del k => k
  | .get k => k

def run (t : LhTable κ ν) : LhOp κ ν → Option (LhTable κ ν × Option ν)
  | .add k v => (t.objectAdd hashFn k v).map fun t => (t, none)
  | .del k => (t.objectDel hashFn k).map fun t => (t, none)
  | .get k => (t.objectGet hashFn k).map fun v => (t, some v)

def runAll : List (LhOp κ ν) → LhTable κ ν → Option (LhTable κ ν × List (Option ν))
  | [], t => some (t, [])
  | op :: ops, t => do
    let (t, out) ← op.run hashFn t
    let (t, outs) ← runAll ops t
    return (t, out :: outs)

/-- The value of a key in a list of entries; NULL without one. -/
def valueOf (entries : List (κ × ν)) (k : κ) : ν :=
  ((entries.find? (·.1 = k)).map Prod.snd).getD default

/-- What the calls are for: they work on a list of entries. -/
def spec (entries : List (κ × ν)) : LhOp κ ν → List (κ × ν) × Option ν
  | .add k v => (entries.filter (·.1 ≠ k) ++ [(k, v)], none)
  | .del k => (entries.filter (·.1 ≠ k), none)
  | .get k => (entries, some (valueOf entries k))

def specAll : List (LhOp κ ν) → List (κ × ν) → List (κ × ν) × List (Option ν)
  | [], entries => (entries, [])
  | op :: ops, entries =>
    let (entries, out) := op.spec entries
    let (entries, outs) := specAll ops entries
    (entries, out :: outs)

end LhOp

end Model

/-- The unsigned `LH_PRIME` is added to each product, for `char`s that are signed. -/
def lhCharHash (k : List Byte) : Nat :=
  (k.foldl (fun (h : UInt32) c => h * 129 + c.toInt8.toInt32.toUInt32 + 0x9e370001) 0).toNat

def jsonObjectDefHashEntries : Nat := 16

/-! ## What a table stores -/

namespace LhTable

variable {hashFn : κ → Nat} {t : LhTable κ ν} {order : List Nat} {k : κ} {v : ν} {n : Nat}

/-- The cells in `order` are the ones with keys, linked in this order, and a search for a key gets
to its cell. -/
structure Wf (hashFn : κ → Nat) (t : LhTable κ ν) (order : List Nat) : Prop where
  linked : Linked t.next t.prev t.head t.tail order
  mem_iff : ∀ n, n ∈ order ↔ ∃ k, t.k n = .key k
  lt : ∀ n ∈ order, n < t.size
  count : t.count = order.length
  inj : ∀ n m k, t.k n = .key k → t.k m = .key k → n = m
  reached : ∀ n k, t.k n = .key k →
    Reached t.size (fun m => t.k m ≠ .empty) (hashFn k % t.size) n

theorem Wf.new [Inhabited ν] (size : Nat) : Wf hashFn (lhTableNew size : LhTable κ ν) [] := by
  refine ⟨.nil, ?_, by simp, rfl, ?_, ?_⟩
  · intro n
    simp [lhTableNew]
  · intro n m k h
    cases h
  · intro n k h
    cases h

theorem entryAt_of_key (h : t.k n = .key k) : t.entryAt n = some (k, t.v n) := by
  rw [entryAt, h]

theorem entryAt_congr {t' : LhTable κ ν} (hk : t'.k n = t.k n) (hv : t'.v n = t.v n) :
    t'.entryAt n = t.entryAt n := by
  rw [entryAt, entryAt, hk, hv]

theorem filterMap_entryAt_congr {t' : LhTable κ ν}
    (h : ∀ n ∈ order, t'.k n = t.k n ∧ t'.v n = t.v n) :
    order.filterMap t'.entryAt = order.filterMap t.entryAt :=
  List.filterMap_congr fun n hn => entryAt_congr (h n hn).1 (h n hn).2

theorem Wf.mapM_entryAt (h : Wf hashFn t order) :
    order.mapM t.entryAt = some (order.filterMap t.entryAt) := by
  have hkeys : ∀ n ∈ order, ∃ k, t.k n = .key k := fun n hn => (h.mem_iff n).mp hn
  clear h
  induction order with
  | nil => rfl
  | cons n order ih =>
    obtain ⟨k, hk⟩ := hkeys n List.mem_cons_self
    rw [List.mapM_cons, entryAt_of_key hk, List.filterMap_cons_some (entryAt_of_key hk),
      ih fun m hm => hkeys m (List.mem_cons_of_mem _ hm)]
    rfl

theorem Wf.length_le (h : Wf hashFn t order) : order.length ≤ t.size := by
  have hsub : order.Subperm (List.range t.size) :=
    h.linked.nodup.subperm fun n hn => List.mem_range.mpr (h.lt n hn)
  simpa using hsub.length_le

/-- Not all cells have keys. -/
theorem Wf.exists_not_key (h : Wf hashFn t order) (hroom : t.count < t.size) :
    ∃ n < t.size, ∀ k, t.k n ≠ .key k := by
  by_contra! hall
  have hsub : (List.range t.size).Subperm order :=
    List.nodup_range.subperm fun n hn => (h.mem_iff n).mpr (hall n (List.mem_range.mp hn))
  have hle := hsub.length_le
  rw [List.length_range, ← h.count] at hle
  omega

theorem Wf.foreach (h : Wf hashFn t order) :
    t.foreach = some (order.filterMap t.entryAt) := by
  rw [LhTable.foreach, h.linked.walk h.length_le, Option.bind_some, h.mapM_entryAt]

/-- The entries of a table that is neither too small nor too full. -/
structure Stores (hashFn : κ → Nat) (t : LhTable κ ν) (entries : List (κ × ν)) : Prop where
  wf : ∃ order, Wf hashFn t order ∧ order.filterMap t.entryAt = entries
  size : 3 ≤ t.size
  room : 100 * t.count ≤ 66 * t.size + 100

variable {entries : List (κ × ν)}

theorem Stores.new [Inhabited ν] (size : Nat) (h : 3 ≤ size) :
    Stores hashFn (lhTableNew size : LhTable κ ν) [] :=
  ⟨⟨[], .new size, rfl⟩, h, by simp [lhTableNew]⟩

theorem Stores.foreach (h : Stores hashFn t entries) : t.foreach = some entries := by
  obtain ⟨order, hwf, rfl⟩ := h.wf
  exact hwf.foreach

theorem Wf.mem_entries_iff (h : Wf hashFn t order) :
    (k, v) ∈ order.filterMap t.entryAt ↔ ∃ n, t.k n = .key k ∧ t.v n = v := by
  rw [List.mem_filterMap]
  constructor
  · rintro ⟨n, hn, hentry⟩
    obtain ⟨k', hk'⟩ := (h.mem_iff n).mp hn
    rw [entryAt_of_key hk'] at hentry
    cases hentry
    exact ⟨n, hk', rfl⟩
  · rintro ⟨n, hk, rfl⟩
    exact ⟨n, (h.mem_iff n).mpr ⟨k, hk⟩, entryAt_of_key hk⟩

theorem Wf.mem_keys_iff (h : Wf hashFn t order) :
    k ∈ (order.filterMap t.entryAt).map Prod.fst ↔ ∃ n, t.k n = .key k := by
  rw [List.mem_map]
  constructor
  · rintro ⟨⟨k', v⟩, hmem, rfl⟩
    obtain ⟨n, hk, -⟩ := h.mem_entries_iff.mp hmem
    exact ⟨n, hk⟩
  · rintro ⟨n, hk⟩
    exact ⟨(k, t.v n), h.mem_entries_iff.mpr ⟨n, hk, rfl⟩, rfl⟩

theorem Wf.count_eq (h : Wf hashFn t order) :
    t.count = (order.filterMap t.entryAt).length := by
  have hall : ∀ n ∈ order, (t.entryAt n).isSome = true := by
    intro n hn
    obtain ⟨k, hk⟩ := (h.mem_iff n).mp hn
    rw [entryAt_of_key hk]
    rfl
  rw [h.count]
  clear h
  induction order with
  | nil => rfl
  | cons n order ih =>
    obtain ⟨e, he⟩ := Option.isSome_iff_exists.mp (hall n List.mem_cons_self)
    rw [List.filterMap_cons_some he, List.length_cons, List.length_cons,
      ih fun m hm => hall m (List.mem_cons_of_mem _ hm)]

/-! ## Searches -/

section Searches

variable [DecidableEq κ]

/-- A key that is there is found. -/
theorem Wf.lookupEntry_of_key (h : Wf hashFn t order) (hk : t.k n = .key k) :
    t.lookupEntry hashFn k = some (some n) := by
  have hlt := h.lt n ((h.mem_iff n).mpr ⟨k, hk⟩)
  have hprobe : t.probe hashFn k (fun s => s = .empty ∨ s = .key k) = some n := by
    refine (h.reached n k hk).search (Nat.mod_lt _ (by omega)) (by simp [hk]) fun m hne hm => ?_
    rw [decide_eq_false_iff_not, not_or]
    exact ⟨hm, fun heq => hne (h.inj m n k heq hk)⟩
  rw [lookupEntry, hprobe, Option.map_some, if_neg (by rw [hk]; rintro ⟨⟩)]

/-- A key that is not there is looked for up to an empty cell. -/
theorem lookupEntry_of_not_key (hashFn : κ → Nat) (hsize : 0 < t.size) (hk : ∀ n, t.k n ≠ .key k) :
    t.lookupEntry hashFn k = if ∃ n < t.size, t.k n = .empty then some none else none := by
  have hstop : ∀ n, (decide (t.k n = .empty ∨ t.k n = .key k)) = true ↔ t.k n = .empty := by
    intro n
    rw [decide_eq_true_iff, or_iff_left (hk n)]
  have hstart : hashFn k % t.size < t.size := Nat.mod_lt _ hsize
  have hsome := search_isSome_iff (fun n => t.k n = .empty ∨ t.k n = .key k) hstart
  simp only [hstop] at hsome
  split_ifs with hempty
  · obtain ⟨n, hn⟩ := Option.isSome_iff_exists.mp (hsome.mpr hempty)
    obtain ⟨i, -, -, hstopped, -⟩ := (search_eq_some_iff hstart _ _).mp hn
    rw [lookupEntry, probe, hn, Option.map_some, if_pos ((hstop n).mp hstopped)]
  · rw [lookupEntry, probe, Option.not_isSome_iff_eq_none.mp (mt hsome.mp hempty)]
    rfl

end Searches

end LhTable

end PamSmsauth
