import PamSmsauth.LinkHash

/-!
# Inserting and deleting in a hash table

A new key goes into a cell that no key is in, and its cell is linked behind the others. A resize
inserts the entries into a new table, which never makes that one resize (`insertAt_eq`). Deleting an
entry unlinks its cell, wherever it stands in the list, and leaves it freed.
-/

namespace PamSmsauth

open CText Links Probing

namespace LhTable

variable {κ ν : Type} {hashFn : κ → Nat} {t : LhTable κ ν} {order : List Nat} {k : κ} {v : ν}
  {n : Nat} {entries : List (κ × ν)}

/-! ## Filling a cell -/

theorem Wf.fill_eq (h : Wf hashFn t order) (n : Nat) (k : κ) (v : ν) :
    t.fill n k v =
      { t with
        count := t.count + 1, head := t.head.or (some n), tail := some n
        k := Function.update t.k n (.key k), v := Function.update t.v n v
        next := Function.update (assign t.next t.tail (some n)) n none
        prev := Function.update t.prev n t.tail } := by
  unfold fill
  cases hhead : t.head with
  | none =>
    have htail : t.tail = none :=
      h.linked.tail_eq_none_iff.mpr (h.linked.head_eq_none_iff.mp hhead)
    simp only [htail]
    rfl
  | some m => rfl

/-- A key that is not there goes into a cell without a key. -/
theorem Wf.fill (h : Wf hashFn t order) (hk : ∀ m, t.k m ≠ .key k)
    (hcell : t.k n = .empty ∨ t.k n = .freed) (hlt : n < t.size)
    (hreached : Reached t.size (fun m => t.k m ≠ .empty) (hashFn k % t.size) n) (v : ν) :
    Wf hashFn (t.fill n k v) (order ++ [n]) ∧
      (order ++ [n]).filterMap (t.fill n k v).entryAt =
        order.filterMap t.entryAt ++ [(k, v)] := by
  have hn : n ∉ order := by
    intro hmem
    obtain ⟨k', hk'⟩ := (h.mem_iff n).mp hmem
    rw [hk'] at hcell
    rcases hcell with hcell | hcell <;> cases hcell
  have hkey : ∀ m k', Function.update t.k n (.key k) m = .key k' ↔
      m = n ∧ k' = k ∨ m ≠ n ∧ t.k m = .key k' := by
    intro m k'
    by_cases hm : m = n
    · subst hm
      simp [eq_comm]
    · simp [hm]
  have htaken : ∀ m, t.k m ≠ .empty → Function.update t.k n (.key k) m ≠ .empty := by
    intro m hm
    by_cases heq : m = n
    · subst heq
      simp
    · rwa [Function.update_of_ne heq]
  rw [h.fill_eq]
  refine ⟨⟨h.linked.append hn, fun m => ?_, fun m hm => ?_, ?_, ?_, ?_⟩, ?_⟩
  · simp only [List.mem_append, List.mem_singleton, h.mem_iff m, hkey]
    constructor
    · rintro (⟨k', hk'⟩ | rfl)
      · refine ⟨k', .inr ⟨?_, hk'⟩⟩
        rintro rfl
        exact hn ((h.mem_iff m).mpr ⟨k', hk'⟩)
      · exact ⟨k, .inl ⟨rfl, rfl⟩⟩
    · rintro ⟨k', ⟨rfl, -⟩ | ⟨-, hk'⟩⟩
      · exact .inr rfl
      · exact .inl ⟨k', hk'⟩
  · rcases List.mem_append.mp hm with hm | hm
    · exact h.lt m hm
    · rw [List.mem_singleton.mp hm]
      exact hlt
  · simp [h.count]
  · intro m m' k' hm hm'
    rcases (hkey m k').mp hm with ⟨hmn, hk'⟩ | ⟨-, hold⟩ <;>
      rcases (hkey m' k').mp hm' with ⟨hmn', hk''⟩ | ⟨-, hold'⟩
    · rw [hmn, hmn']
    · exact absurd (hk' ▸ hold') (hk m')
    · exact absurd (hk'' ▸ hold) (hk m)
    · exact h.inj m m' k' hold hold'
  · intro m k' hm
    rcases (hkey m k').mp hm with ⟨rfl, rfl⟩ | ⟨-, hm⟩
    · exact hreached.mono htaken
    · exact (h.reached m k' hm).mono htaken
  · have hself : ({ t with
        count := t.count + 1, head := t.head.or (some n), tail := some n
        k := Function.update t.k n (.key k), v := Function.update t.v n v
        next := Function.update (assign t.next t.tail (some n)) n none
        prev := Function.update t.prev n t.tail } : LhTable κ ν).entryAt n = some (k, v) := by
      rw [entryAt_of_key (k := k) (Function.update_self ..)]
      simp
    rw [List.filterMap_append, List.filterMap_cons_some hself]
    congr 1
    refine filterMap_entryAt_congr fun m hm => ?_
    have hne : m ≠ n := fun heq => hn (heq ▸ hm)
    exact ⟨Function.update_of_ne hne _ _, Function.update_of_ne hne _ _⟩

/-! ## Inserting -/

section Inserting

variable [DecidableEq κ]

/-- A table with a cell to spare takes a new key. -/
theorem Wf.place (h : Wf hashFn t order) (hk : ∀ m, t.k m ≠ .key k) (hroom : t.count < t.size)
    (v : ν) : ∃ n, t.probe hashFn k (fun s => s = .empty ∨ s = .freed) = some n ∧
      Wf hashFn (t.fill n k v) (order ++ [n]) ∧
      (order ++ [n]).filterMap (t.fill n k v).entryAt = order.filterMap t.entryAt ++ [(k, v)] := by
  have hstart : hashFn k % t.size < t.size := Nat.mod_lt _ (by omega)
  have hfree : ∃ n < t.size, (decide (t.k n = .empty ∨ t.k n = .freed)) = true := by
    obtain ⟨n, hlt, hn⟩ := h.exists_not_key hroom
    refine ⟨n, hlt, ?_⟩
    cases hkn : t.k n with
    | empty => simp
    | freed => simp
    | key k => exact absurd hkn (hn k)
  obtain ⟨n, hn⟩ := Option.isSome_iff_exists.mp
    ((search_isSome_iff (fun n => t.k n = .empty ∨ t.k n = .freed) hstart).mpr hfree)
  have hstop : t.k n = .empty ∨ t.k n = .freed := by
    obtain ⟨i, -, -, hstop, -⟩ := (search_eq_some_iff hstart _ _).mp hn
    simpa using hstop
  have hlt : n < t.size := by
    obtain ⟨i, -, hcell, -, -⟩ := (search_eq_some_iff hstart _ _).mp hn
    exact hcell ▸ cell_lt (by omega) _ _
  have hreached : Reached t.size (fun m => t.k m ≠ .empty) (hashFn k % t.size) n := by
    refine (reached_of_search hstart hn).mono fun m hm => ?_
    rw [decide_eq_false_iff_not, not_or] at hm
    exact hm.1
  exact ⟨n, hn, h.fill hk hstop hlt hreached v⟩

theorem Wf.place_stores (h : Wf hashFn t order) (hsize : 3 ≤ t.size)
    (hk : k ∉ (order.filterMap t.entryAt).map Prod.fst) (hroom : t.count < t.size)
    (hfull : 100 * t.count ≤ 66 * t.size) (v : ν) :
    ∃ n, t.probe hashFn k (fun s => s = .empty ∨ s = .freed) = some n ∧
      t.place hashFn k v = some (t.fill n k v) ∧
      Stores hashFn (t.fill n k v) (order.filterMap t.entryAt ++ [(k, v)]) := by
  have habsent : ∀ m, t.k m ≠ .key k := fun m hm => hk (h.mem_keys_iff.mpr ⟨m, hm⟩)
  obtain ⟨n, hprobe, hwf, hentries⟩ := h.place habsent hroom v
  refine ⟨n, hprobe, by rw [LhTable.place, hprobe, Option.map_some], ⟨_, hwf, hentries⟩, ?_, ?_⟩
  · rw [h.fill_eq]
    exact hsize
  · rw [h.fill_eq]
    show 100 * (t.count + 1) ≤ 66 * t.size + 100
    omega

end Inserting

/-- Nothing was deleted since the table was built. -/
def NoFreed (t : LhTable κ ν) : Prop := ∀ n, t.k n ≠ .freed

theorem Wf.fill_k (h : Wf hashFn t order) (n : Nat) (k : κ) (v : ν) :
    (t.fill n k v).k = Function.update t.k n (.key k) := by
  rw [h.fill_eq]

theorem Wf.fill_size (h : Wf hashFn t order) (n : Nat) (k : κ) (v : ν) :
    (t.fill n k v).size = t.size := by
  rw [h.fill_eq]

theorem Wf.fill_noFreed (h : Wf hashFn t order) (hfree : ∀ m, t.k m = .freed → m = n) (k : κ)
    (v : ν) : (t.fill n k v).NoFreed := by
  intro m
  rw [h.fill_k]
  by_cases hm : m = n
  · subst hm
    simp
  · rw [Function.update_of_ne hm]
    exact fun hfreed => hm (hfree m hfreed)

theorem Wf.nodup_keys (h : Wf hashFn t order) :
    ((order.filterMap t.entryAt).map Prod.fst).Nodup := by
  rw [List.map_filterMap]
  refine h.linked.nodup.filterMap fun n m k hn hm => ?_
  have hkey : ∀ n, k ∈ (t.entryAt n).map Prod.fst → t.k n = .key k := by
    intro n hn
    unfold entryAt at hn
    split at hn
    · next hk =>
      rw [hk]
      simpa using hn
    · cases hn
  exact h.inj n m k (hkey n hn) (hkey m hm)

section Resizing

variable [DecidableEq κ] [Inhabited ν]

theorem insertAt_of_not_crowded (depth : Nat) (h : ¬ t.Crowded) (k : κ) (v : ν) :
    t.insertAt hashFn depth k v = t.place hashFn k v := by
  cases depth <;> rw [insertAt, if_neg h]

/-- Entries that fit are inserted into a table without another resize. -/
theorem Stores.insertAll (h : Stores hashFn t entries) (rest : List (κ × ν)) (hfree : t.NoFreed)
    (hnodup : ((entries ++ rest).map Prod.fst).Nodup)
    (hfit : 100 * (entries ++ rest).length ≤ 66 * t.size + 100) :
    ∃ t', (∀ depth, rest.foldlM (fun t e => t.insertAt hashFn depth e.1 e.2) t = some t') ∧
      Stores hashFn t' (entries ++ rest) ∧ t'.size = t.size ∧ t'.NoFreed := by
  induction rest generalizing t entries with
  | nil => exact ⟨t, fun _ => rfl, by rwa [List.append_nil], rfl, hfree⟩
  | cons e rest ih =>
    obtain ⟨⟨order, hwf, rfl⟩, hsize, -⟩ := h
    have hcount := hwf.count_eq
    rw [List.length_append, List.length_cons] at hfit
    have hcrowded : ¬ t.Crowded := by
      unfold Crowded
      omega
    have hk : e.1 ∉ (order.filterMap t.entryAt).map Prod.fst := by
      rw [List.map_append, List.map_cons, List.nodup_append] at hnodup
      exact fun hmem => hnodup.2.2 _ hmem _ List.mem_cons_self rfl
    obtain ⟨n, -, hplace, hstores⟩ := hwf.place_stores hsize hk (by omega) (by omega) e.2
    have happend : order.filterMap t.entryAt ++ e :: rest =
        order.filterMap t.entryAt ++ [(e.1, e.2)] ++ rest := by simp
    rw [happend] at hnodup ⊢
    obtain ⟨t', hfold, hstores', hsize', hfree'⟩ := ih hstores
      (hwf.fill_noFreed (fun m hm => absurd hm (hfree m)) e.1 e.2) hnodup (by
        rw [hwf.fill_size]
        simp only [List.length_append, List.length_singleton]
        omega)
    refine ⟨t', fun depth => ?_, hstores', hsize'.trans (hwf.fill_size ..), hfree'⟩
    rw [List.foldlM_cons, insertAt_of_not_crowded depth hcrowded, hplace]
    exact hfold depth

/-- A resize keeps the entries and their order, and drops the freed cells. -/
theorem Stores.resizeWith (h : Stores hashFn t entries) (newSize : Nat) (hsize : t.size ≤ newSize) :
    ∃ t', (∀ depth, t.resizeWith (insertAt hashFn depth) newSize = some t') ∧
      Stores hashFn t' entries ∧ t'.size = newSize ∧ t'.NoFreed := by
  obtain ⟨hwf, hmin, hroom⟩ := id h
  obtain ⟨order, hwf, heq⟩ := hwf
  have hcount := hwf.count_eq
  rw [heq] at hcount
  have hnew : Stores hashFn (lhTableNew newSize : LhTable κ ν) [] :=
    Stores.new newSize (hmin.trans hsize)
  obtain ⟨t', hfold, hstores, hsize', hfree⟩ := hnew.insertAll entries
    (fun n => by simp [lhTableNew])
    (by rw [List.nil_append, ← heq]; exact hwf.nodup_keys)
    (by rw [List.nil_append]; show _ ≤ 66 * newSize + 100; omega)
  rw [List.nil_append] at hstores
  have hsame : ({ t' with size := newSize, count := t.count } : LhTable κ ν) = t' := by
    obtain ⟨⟨order', hwf', heq'⟩, -, -⟩ := hstores
    have hcount' := hwf'.count_eq
    rw [heq', ← hcount] at hcount'
    rw [← hcount', ← show t'.size = newSize from hsize']
  refine ⟨t', fun depth => ?_, hstores, hsize', hfree⟩
  simp only [LhTable.resizeWith, h.foreach, Option.bind_eq_bind, Option.bind_some, hfold depth]
  exact congrArg some hsame

/-- A new key is inserted behind the others, at any depth that allows for a resize. A freed cell is
left only where the key did not go. -/
theorem Stores.insertAt (h : Stores hashFn t entries) (hk : k ∉ entries.map Prod.fst) (v : ν) :
    ∃ t', (∀ depth, t.insertAt hashFn (depth + 1) k v = some t') ∧
      Stores hashFn t' (entries ++ [(k, v)]) ∧
      ((∀ m, t.k m = .freed →
        t.probe hashFn k (fun s => s = .empty ∨ s = .freed) = some m) → t'.NoFreed) := by
  by_cases hcrowded : t.Crowded
  · obtain ⟨t₁, hresize, ⟨⟨order, hwf, heq⟩, hmin, hroom⟩, hsize, hfree⟩ :=
      h.resizeWith (t.size * 2) (by omega)
    have hcount : t.count = t₁.count := by
      obtain ⟨⟨order', hwf', heq'⟩, -, -⟩ := h
      rw [hwf'.count_eq, hwf.count_eq, heq, heq']
    have hmin' := h.size
    have hroom' := h.room
    subst heq
    obtain ⟨n, -, hplace, hstores⟩ := hwf.place_stores hmin hk (by omega) (by omega) v
    refine ⟨_, fun depth => ?_, hstores, fun _ => ?_⟩
    · rw [LhTable.insertAt, if_pos hcrowded]
      show (t.resizeWith _ _).bind _ = _
      rw [hresize depth, Option.bind_some, hplace]
    · exact hwf.fill_noFreed (fun m hm => absurd hm (hfree m)) k v
  · have hnot := hcrowded
    unfold Crowded at hnot
    obtain ⟨⟨order, hwf, rfl⟩, hmin, hroom⟩ := h
    obtain ⟨n, hprobe, hplace, hstores⟩ := hwf.place_stores hmin hk (by omega) (by omega) v
    refine ⟨_, fun depth => ?_, hstores, fun hfree => ?_⟩
    · rw [insertAt_of_not_crowded _ hcrowded, hplace]
    · refine hwf.fill_noFreed (fun m hm => ?_) k v
      exact Option.some.inj ((hfree m hm).symm.trans hprobe)

theorem insertAt_eq (h : Stores hashFn t entries) (hk : k ∉ entries.map Prod.fst) (v : ν)
    (depth : Nat) : t.insertAt hashFn (depth + 1) k v = t.insert hashFn k v := by
  obtain ⟨t', hinsert, -, -⟩ := h.insertAt hk v
  rw [hinsert, insert, hinsert]

end Resizing

/-! ## Deleting -/

theorem Wf.deleteEntry_eq [Inhabited ν] (h : Wf hashFn t order) (hk : t.k n = .key k) :
    t.deleteEntry n =
      ({ t with
        count := t.count - 1
        head := if t.head = some n then t.next n else t.head
        tail := if t.tail = some n then t.prev n else t.tail
        k := Function.update t.k n .freed, v := Function.update t.v n default
        next := Function.update (assign t.next (t.prev n) (t.next n)) n none
        prev := Function.update (assign t.prev (t.next n) (t.prev n)) n none }, 0) := by
  have hn : n ∈ order := (h.mem_iff n).mpr ⟨k, hk⟩
  have hhead := h.linked.head_eq_some_iff hn
  have htail := h.linked.tail_eq_some_iff hn
  unfold deleteEntry
  rw [hk]
  dsimp only
  by_cases hh : t.head = some n <;> by_cases ht : t.tail = some n
  · simp [hh, ht, hhead.mp hh, htail.mp ht, assign]
  · simp [hh, ht, hhead.mp hh, assign]
  · simp [hh, ht, htail.mp ht, assign]
  · simp [hh, ht]


/-- The entry of a deleted cell is gone, and its cell is freed. -/
theorem Stores.deleteEntry [DecidableEq κ] [Inhabited ν] (h : Stores hashFn t entries)
    (hk : t.k n = .key k) :
    (t.deleteEntry n).2 = 0 ∧ (t.deleteEntry n).1.k = Function.update t.k n .freed ∧
      (t.deleteEntry n).1.size = t.size ∧
      Stores hashFn (t.deleteEntry n).1 (entries.filter (·.1 ≠ k)) := by
  obtain ⟨⟨order, hwf, rfl⟩, hsize, hroom⟩ := h
  have hn : n ∈ order := (hwf.mem_iff n).mpr ⟨k, hk⟩
  obtain ⟨s, u, rfl⟩ := List.append_of_mem hn
  have hnot : n ∉ s ++ u := by
    have hnodup := hwf.linked.nodup
    rw [List.nodup_middle, List.nodup_cons] at hnodup
    exact hnodup.1
  have hother : ∀ m ∈ s ++ u, m ≠ n ∧ m ∈ s ++ n :: u := by
    intro m hm
    refine ⟨fun heq => hnot (heq ▸ hm), ?_⟩
    rw [List.mem_append] at hm ⊢
    exact hm.imp_right (List.mem_cons_of_mem _)
  have hkey : ∀ m k', Function.update t.k n .freed m = .key k' ↔ m ≠ n ∧ t.k m = .key k' := by
    intro m k'
    by_cases hm : m = n
    · subst hm
      simp
    · simp [hm]
  rw [hwf.deleteEntry_eq hk]
  refine ⟨rfl, rfl, rfl, ⟨s ++ u, ⟨hwf.linked.unlink, fun m => ?_, fun m hm => ?_, ?_, ?_, ?_⟩, ?_⟩,
    hsize, ?_⟩
  · simp only [hkey]
    constructor
    · intro hm
      obtain ⟨k', hk'⟩ := (hwf.mem_iff m).mp (hother m hm).2
      exact ⟨k', (hother m hm).1, hk'⟩
    · rintro ⟨k', hne, hk'⟩
      have hm := (hwf.mem_iff m).mpr ⟨k', hk'⟩
      rw [List.mem_append, List.mem_cons] at hm
      rw [List.mem_append]
      exact hm.imp_right fun hm => hm.resolve_left hne
  · exact hwf.lt m (hother m hm).2
  · show t.count - 1 = _
    rw [hwf.count, List.length_append, List.length_append, List.length_cons]
    omega
  · intro m m' k' hm hm'
    exact hwf.inj m m' k' ((hkey m k').mp hm).2 ((hkey m' k').mp hm').2
  · intro m k' hm
    refine (hwf.reached m k' ((hkey m k').mp hm).2).mono fun c hc => ?_
    show Function.update t.k n .freed c ≠ .empty
    by_cases hcn : c = n
    · subst hcn
      simp
    · rwa [Function.update_of_ne hcn]
  · have hkeep : ∀ m ∈ s ++ u, ∀ e ∈ t.entryAt m, e.1 ≠ k := by
      rintro m hm ⟨k', v'⟩ he rfl
      obtain ⟨k'', hk''⟩ := (hwf.mem_iff m).mp (hother m hm).2
      rw [entryAt_of_key hk'', Option.mem_some_iff, Prod.mk.injEq] at he
      exact (hother m hm).1 (hwf.inj m n k' (he.1 ▸ hk'') hk)
    have hfilter : ∀ l : List Nat, (∀ m ∈ l, m ∈ s ++ u) →
        (l.filterMap t.entryAt).filter (·.1 ≠ k) = l.filterMap t.entryAt := by
      intro l hl
      refine List.filter_eq_self.mpr fun e he => ?_
      obtain ⟨m, hm, hentry⟩ := List.mem_filterMap.mp he
      simpa using hkeep m (hl m hm) e hentry
    rw [List.filterMap_append (l := s) (f := t.entryAt),
      List.filterMap_cons_some (entryAt_of_key hk), List.filter_append,
      List.filter_cons_of_neg (by simp), hfilter s fun m hm => List.mem_append_left _ hm,
      hfilter u fun m hm => List.mem_append_right _ hm, ← List.filterMap_append]
    exact filterMap_entryAt_congr fun m hm =>
      ⟨Function.update_of_ne (hother m hm).1 _ _, Function.update_of_ne (hother m hm).1 _ _⟩
  · show 100 * (t.count - 1) ≤ 66 * t.size + 100
    omega

end LhTable

end PamSmsauth
