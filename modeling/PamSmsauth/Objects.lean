import PamSmsauth.Filling

/-!
# Runs on a hash table

The calls on a table do to it what they do to a list of entries (`lhTable_run`), if they return: a
search for a key that is not there needs an empty cell, and deleted keys leave none behind until the
next resize. In an object of this program nothing is deleted but to be added again, so there all
calls return (`objectAdd_run`).
-/

namespace PamSmsauth

open CText

namespace LhTable

variable {κ ν : Type} {hashFn : κ → Nat} {t : LhTable κ ν} {order : List Nat} {k : κ} {v : ν}
  {n : Nat} {entries : List (κ × ν)}

theorem Stores.nodup_keys (h : Stores hashFn t entries) : (entries.map Prod.fst).Nodup := by
  obtain ⟨⟨order, hwf, rfl⟩, -, -⟩ := h
  exact hwf.nodup_keys

/-- Without freed cells, some cell is empty. -/
theorem Stores.exists_empty (h : Stores hashFn t entries) (hfree : t.NoFreed) :
    ∃ n < t.size, t.k n = .empty := by
  obtain ⟨⟨order, hwf, -⟩, hsize, hroom⟩ := h
  obtain ⟨n, hlt, hn⟩ := hwf.exists_not_key (by omega)
  refine ⟨n, hlt, ?_⟩
  cases hkn : t.k n with
  | empty => rfl
  | freed => exact absurd hkn (hfree n)
  | key k => exact absurd hkn (hn k)

section Keys

variable [DecidableEq κ]

theorem not_mem_keys_filter (entries : List (κ × ν)) (k : κ) :
    k ∉ (entries.filter (·.1 ≠ k)).map Prod.fst := by
  simp

/-- A search returns unless it is for a key that is not there, and no cell is empty. -/
theorem Stores.lookupEntry_isSome_iff (h : Stores hashFn t entries) :
    (t.lookupEntry hashFn k).isSome = true ↔
      k ∈ entries.map Prod.fst ∨ ∃ n < t.size, t.k n = .empty := by
  obtain ⟨⟨order, hwf, rfl⟩, hsize, -⟩ := h
  by_cases hk : ∃ n, t.k n = .key k
  · obtain ⟨n, hn⟩ := hk
    rw [hwf.lookupEntry_of_key hn]
    simp only [Option.isSome_some, true_iff]
    exact .inl (hwf.mem_keys_iff.mpr ⟨n, hn⟩)
  · rw [hwf.mem_keys_iff, or_iff_right hk,
      lookupEntry_of_not_key hashFn (by omega) (not_exists.mp hk)]
    split_ifs with hempty
    · simp [hempty]
    · simp [hempty]

theorem Stores.returns (h : Stores hashFn t entries) (hfree : t.NoFreed) (k : κ) :
    (t.lookupEntry hashFn k).isSome = true :=
  h.lookupEntry_isSome_iff.mpr (.inr (h.exists_empty hfree))

/-- What a search that returns has found. -/
theorem Stores.lookupEntry_cases (h : Stores hashFn t entries)
    (hreturns : (t.lookupEntry hashFn k).isSome = true) :
    (∃ n, t.lookupEntry hashFn k = some (some n) ∧ t.k n = .key k ∧ (k, t.v n) ∈ entries) ∨
      t.lookupEntry hashFn k = some none ∧ k ∉ entries.map Prod.fst := by
  obtain ⟨⟨order, hwf, rfl⟩, hsize, -⟩ := h
  by_cases hk : ∃ n, t.k n = .key k
  · obtain ⟨n, hn⟩ := hk
    exact .inl ⟨n, hwf.lookupEntry_of_key hn, hn, hwf.mem_entries_iff.mpr ⟨n, hn, rfl⟩⟩
  · right
    have hlookup := lookupEntry_of_not_key hashFn (by omega) (not_exists.mp hk)
    rw [hlookup] at hreturns
    split_ifs at hlookup hreturns with hempty
    · exact ⟨hlookup, mt hwf.mem_keys_iff.mp hk⟩
    · cases hreturns

variable [Inhabited ν]

theorem Stores.lookup (h : Stores hashFn t entries)
    (hreturns : (t.lookupEntry hashFn k).isSome = true) :
    t.lookup hashFn k = some (LhOp.valueOf entries k) := by
  rcases h.lookupEntry_cases hreturns with ⟨n, hlookup, -, hmem⟩ | ⟨hlookup, hk⟩
  · have hval : entries.find? (·.1 = k) = some (k, t.v n) := by
      obtain ⟨s, u, rfl⟩ := List.append_of_mem hmem
      refine List.find?_eq_some_iff_append.mpr ⟨by simp, s, u, rfl, fun e he => ?_⟩
      have hnodup := h.nodup_keys
      rw [List.map_append, List.map_cons, List.nodup_append] at hnodup
      simpa using hnodup.2.2 e.1 (List.mem_map_of_mem he) k List.mem_cons_self
    rw [LhTable.lookup, hlookup, LhOp.valueOf, hval]
    rfl
  · have hval : entries.find? (·.1 = k) = none := by
      refine List.find?_eq_none.mpr fun e he => ?_
      have hne : e.1 ≠ k := fun heq => hk (heq ▸ List.mem_map_of_mem he)
      simpa using hne
    rw [LhTable.lookup, hlookup, LhOp.valueOf, hval]
    rfl

/-- The cell of a deleted key is freed, and the others stay. -/
theorem Stores.delete (h : Stores hashFn t entries)
    (hreturns : (t.lookupEntry hashFn k).isSome = true) :
    ∃ t', t.delete hashFn k = some (t', if k ∈ entries.map Prod.fst then 0 else -1) ∧
      Stores hashFn t' (entries.filter (·.1 ≠ k)) ∧ t'.size = t.size ∧
      (t'.k = t.k ∨ ∃ n, t.k n = .key k ∧ t'.k = Function.update t.k n .freed) := by
  rcases h.lookupEntry_cases hreturns with ⟨n, hlookup, hk, hmem⟩ | ⟨hlookup, hk⟩
  · obtain ⟨hzero, hcells, hsize, hstores⟩ := h.deleteEntry hk
    refine ⟨(t.deleteEntry n).1, ?_, hstores, hsize, .inr ⟨n, hk, hcells⟩⟩
    have hkey : k ∈ entries.map Prod.fst := List.mem_map.mpr ⟨_, hmem, rfl⟩
    rw [LhTable.delete, hlookup, if_pos hkey, ← hzero]
    rfl
  · have hsame : entries.filter (·.1 ≠ k) = entries := by
      refine List.filter_eq_self.mpr fun e he => ?_
      have hne : e.1 ≠ k := fun heq => hk (heq ▸ List.mem_map_of_mem he)
      simpa using hne
    refine ⟨t, ?_, by rwa [hsame], rfl, .inl rfl⟩
    rw [LhTable.delete, hlookup, if_neg hk]
    rfl

/-- `json_object_object_add` returns if its search does, and puts the entry behind the others. -/
theorem Stores.objectAdd (h : Stores hashFn t entries)
    (hreturns : (t.lookupEntry hashFn k).isSome = true) (v : ν) :
    ∃ t', t.objectAdd hashFn k v = some t' ∧
      Stores hashFn t' (entries.filter (·.1 ≠ k) ++ [(k, v)]) ∧ (t.NoFreed → t'.NoFreed) := by
  obtain ⟨t₁, hdelete, hstores₁, hsize, hcells⟩ := h.delete hreturns
  obtain ⟨t', hinsert, hstores', hfree⟩ :=
    hstores₁.insertAt (not_mem_keys_filter entries k) v
  refine ⟨t', ?_, hstores', fun hnone => hfree fun m hm => ?_⟩
  · rw [LhTable.objectAdd, hdelete]
    exact hinsert 0
  · -- the only freed cell is the one that the key was in, and the key goes there again
    rcases hcells with hcells | ⟨n, hk, hcells⟩
    · rw [hcells] at hm
      exact absurd hm (hnone m)
    · have hmn : m = n := by
        by_contra hne
        rw [hcells, Function.update_of_ne hne] at hm
        exact hnone m hm
      subst hmn
      obtain ⟨⟨order, hwf, -⟩, hmin, -⟩ := h
      rw [probe, hsize]
      refine (hwf.reached m k hk).search (Nat.mod_lt _ (by omega)) (by simp [hm])
        fun c hc htaken => ?_
      rw [hcells, Function.update_of_ne hc, decide_eq_false_iff_not, not_or]
      exact ⟨htaken, hnone c⟩

/-! ## Runs -/

/-- A call does what it is for, and returns unless its search does not. -/
theorem Stores.run (h : Stores hashFn t entries) (op : LhOp κ ν) :
    ((op.run hashFn t).isSome = true ↔
      op.key ∈ entries.map Prod.fst ∨ ∃ n < t.size, t.k n = .empty) ∧
    ∀ t' out, op.run hashFn t = some (t', out) →
      Stores hashFn t' (op.spec entries).1 ∧ out = (op.spec entries).2 := by
  rw [← h.lookupEntry_isSome_iff]
  by_cases hreturns : (t.lookupEntry hashFn op.key).isSome = true
  · rw [iff_true_right hreturns]
    cases op with
    | add k v =>
      dsimp only [LhOp.key] at hreturns
      obtain ⟨t₁, hadd, hstores, -⟩ := h.objectAdd hreturns v
      rw [LhOp.run, hadd]
      refine ⟨rfl, ?_⟩
      rintro t' out ⟨⟩
      exact ⟨hstores, rfl⟩
    | del k =>
      dsimp only [LhOp.key] at hreturns
      obtain ⟨t₁, hdelete, hstores, -⟩ := h.delete hreturns
      rw [LhOp.run, objectDel, hdelete]
      refine ⟨rfl, ?_⟩
      rintro t' out ⟨⟩
      exact ⟨hstores, rfl⟩
    | get k =>
      dsimp only [LhOp.key] at hreturns
      rw [LhOp.run, objectGet, h.lookup hreturns]
      refine ⟨rfl, ?_⟩
      rintro t' out ⟨⟩
      exact ⟨h, rfl⟩
  · have hnone : op.run hashFn t = none := by
      have hlookup := Option.not_isSome_iff_eq_none.mp hreturns
      cases op <;> dsimp only [LhOp.key] at hlookup <;>
        simp [LhOp.run, LhTable.objectAdd, objectDel, objectGet, LhTable.delete, LhTable.lookup,
          hlookup]
    simp [hnone, hreturns]

theorem Stores.runAll (h : Stores hashFn t entries) {ops : List (LhOp κ ν)} {t' : LhTable κ ν}
    {outs : List (Option ν)} (hrun : LhOp.runAll hashFn ops t = some (t', outs)) :
    Stores hashFn t' (LhOp.specAll ops entries).1 ∧ outs = (LhOp.specAll ops entries).2 := by
  induction ops generalizing t entries outs with
  | nil =>
    cases hrun
    exact ⟨h, rfl⟩
  | cons op ops ih =>
    obtain ⟨⟨t₁, out⟩, hop, hrest⟩ := Option.bind_eq_some_iff.mp hrun
    obtain ⟨⟨t₂, outs'⟩, hops, hout⟩ := Option.bind_eq_some_iff.mp hrest
    cases hout
    obtain ⟨hstores, rfl⟩ := (h.run op).2 t₁ out hop
    obtain ⟨hstores', rfl⟩ := ih hstores hops
    exact ⟨hstores', rfl⟩

/-- The calls on a new table do to it what they do to a list of entries, whatever the hash function.
The next one returns unless it is for a key that is not there while no cell is empty. -/
theorem lhTable_run {size : Nat} (hsize : 3 ≤ size) {ops : List (LhOp κ ν)} {t : LhTable κ ν}
    {outs : List (Option ν)} (hrun : LhOp.runAll hashFn ops (lhTableNew size) = some (t, outs)) :
    t.foreach = some (LhOp.specAll ops []).1 ∧ outs = (LhOp.specAll ops []).2 ∧
      ∀ op : LhOp κ ν, (op.run hashFn t).isSome = true ↔
        op.key ∈ (LhOp.specAll ops []).1.map Prod.fst ∨ ∃ n < t.size, t.k n = .empty := by
  obtain ⟨hstores, houts⟩ := (Stores.new size hsize).runAll hrun
  exact ⟨hstores.foreach, houts, fun op => (hstores.run op).1⟩

/-- The calls after which a table of 16 cells has no key, and no empty cell. -/
def addDelAll : List (LhOp Nat Nat) := (List.range 16).flatMap fun k => [.add k 0, .del k]

/-- The next search does not return. -/
theorem lhTable_run_freed : ∃ t outs,
    LhOp.runAll (fun k => k) addDelAll (lhTableNew 16) = some (t, outs) ∧ t.foreach = some [] ∧
      (LhOp.run (fun k => k) t (.get 0)).isSome = false := by
  have hend : (LhOp.runAll (fun k => k) addDelAll (lhTableNew 16)).any
      (fun r => r.1.size = 16 ∧ ∀ n < 16, r.1.k n ≠ .empty) = true := by decide +kernel
  obtain ⟨⟨t, outs⟩, hrun, hcells⟩ := (Option.any_eq_true _ _).mp hend
  obtain ⟨hsize, hcells⟩ := of_decide_eq_true hcells
  obtain ⟨hforeach, -, hnext⟩ := lhTable_run (by decide) hrun
  refine ⟨t, outs, hrun, hforeach, ?_⟩
  rw [← Bool.not_eq_true, hnext (.get 0), hsize]
  rintro (hkey | ⟨n, hn, hempty⟩)
  · revert hkey
    decide
  · exact hcells n hn hempty

end Keys

end LhTable

/-! ## Objects -/

open LhTable JsonObject

instance : Inhabited JsonObject := ⟨.null⟩

/-- On a table that only `json_object_object_add` works on, its calls return, and add the entries.
-/
theorem LhTable.Stores.addAll {t : LhTable (List Byte) JsonObject}
    {entries : List (List Byte × JsonObject)} (h : Stores lhCharHash t entries) (hfree : t.NoFreed)
    (pairs : List (List Byte × JsonObject)) :
    ∃ t' entries', pairs.foldlM (fun t e => t.objectAdd lhCharHash (cstr e.1) e.2) t = some t' ∧
      pairs.foldl (fun (this : JsonObject) e => this.objectAdd e.1 e.2) (.object entries) =
        .object entries' ∧
      Stores lhCharHash t' entries' ∧ t'.NoFreed := by
  induction pairs generalizing t entries with
  | nil => exact ⟨t, entries, rfl, rfl, h, hfree⟩
  | cons e pairs ih =>
    obtain ⟨t₁, hadd, hstores, hfree₁⟩ := h.objectAdd (h.returns hfree (cstr e.1)) e.2
    obtain ⟨t', entries', hfold, hobject, hstores', hfree'⟩ := ih hstores (hfree₁ hfree)
    refine ⟨t', entries', ?_, hobject, hstores', hfree'⟩
    rw [List.foldlM_cons, hadd]
    exact hfold

/-- An object is what its table stores, for any sequence of `json_object_object_add`, and
`json_object_object_get` finds in it what is there. -/
theorem objectAdd_run (pairs : List (List Byte × JsonObject)) :
    ∃ t entries, pairs.foldlM (fun t e => t.objectAdd lhCharHash (cstr e.1) e.2)
        (lhTableNew jsonObjectDefHashEntries) = some t ∧
      pairs.foldl (fun this e => this.objectAdd e.1 e.2) newObject = .object entries ∧
      t.foreach = some entries ∧
      ∀ key, t.objectGet lhCharHash key = some (LhOp.valueOf entries key) := by
  obtain ⟨t, entries, hfold, hobject, hstores, hfree⟩ :=
    Stores.addAll (Stores.new jsonObjectDefHashEntries (by decide))
      (fun n => by simp [lhTableNew]) pairs
  exact ⟨t, entries, hfold, hobject, hstores.foreach,
    fun key => hstores.lookup (hstores.returns hfree key)⟩

end PamSmsauth
