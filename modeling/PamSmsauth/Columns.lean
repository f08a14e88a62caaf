import PamSmsauth.Run

/-!
# The integer column

`timestamp` is printed as a 64-bit number and kept as one, but `callback_data_int` stores it through
an `int *` into a `long long` that holds 0: what comes back is its low 32 bits, read as an unsigned
number (`storeInt_zero`). So a value returns just when it is between 0 and 2^32 - 1
(`column_round_trips_iff`).

The two tests for an expired row read the same column with different comparisons: for
`sqlite_is_row_expir` a row ends with the second of its timestamp, for `sqlite_purge_table` after it
(`expiry_rules_agree_iff`).
-/

namespace PamSmsauth

open CText Eff

/-- What a callback leaves of a 64-bit value. -/
theorem storeInt_zero (v : TimeT) : storeInt 0 (clampLong v.1) = v.1 % 2 ^ 32 := by
  rw [clampLong_of_range v.2.1 v.2.2]
  simp only [storeInt]
  omega

theorem storeInt_eq_self_iff (v : TimeT) :
    storeInt 0 (clampLong v.1) = v.1 ↔ 0 ≤ v.1 ∧ v.1 < 2 ^ 32 := by
  rw [storeInt_zero]
  omega

theorem Stmt.intact_updateIntData (v : TimeT) {id : Int} (hid : InInt id) :
    (Stmt.updateIntData v.1 id).Intact := by
  refine ⟨by simp [Stmt.literal], ?_⟩
  have hv := length_decimal_timeT v
  have hid' := length_decimal_le hid
  have e1 : (lit "UPDATE pam_status SET timestamp=").length = 32 := by decide
  have e2 : (lit " WHERE id=").length = 10 := by decide
  have e3 : (lit ";").length = 1 := by decide
  simp only [Stmt.text, List.length_append, Stmt.sqlStatementMaxsize]
  omega

namespace Table

theorem colInt_of_lookup {T : Table} {user : CString} {r : Row} (h : T.lookup user = some r)
    (hpos : 0 < r.id) : T.colInt user = storeInt 0 (clampLong r.timestamp) := by
  have hle : ¬ r.id ≤ 0 := by omega
  simp only [colInt, h, if_neg hle]

theorem colInt_of_not_pos {T : Table} {user : CString} {r : Row} (h : T.lookup user = some r)
    (hle : r.id ≤ 0) : T.colInt user = -2 := by
  simp only [colInt, h, if_pos hle]

/-- The table with one row. -/
def single (r : Row) (hfit : InInt r.id) : Table where
  rows := [r]
  sorted := List.pairwise_singleton _ r
  idsFit := by
    intro s hs
    rwa [List.mem_singleton.mp hs]

theorem mem_single_and_user {r : Row} (hfit : InInt r.id) (s : Row) :
    s ∈ (single r hfit).rows ∧ s.user = r.user ↔ s = r := by
  rw [single, List.mem_singleton]
  exact and_iff_left_of_imp fun h => by rw [h]

end Table

namespace Call

variable {c c' : Call} {T : Table} {user : CString} {site site' : Site}

theorem sqliteSetColInt_run (site : Site) (hc : c.Complete) (hu : (Stmt.selectRowid user).Intact)
    {r : Row} (h : T.lookup user = some r) (v : TimeT) :
    (sqliteSetColInt site user v.1).run c.handler T =
      if r.id ≤ 0 then (-2, T) else (0, T.setTimestamp v.1 r.id) := by
  have hid := sqliteGetRowid_run (T := T) site hc hu
  have hint := Stmt.intact_updateIntData v (T.idsFit r (Table.lookup_mem h).1)
  rw [T.rowid_of_lookup h] at hid
  by_cases hle : r.id ≤ 0
  · simp [sqliteSetColInt, hc.openDb, Prog.run_bind_of c.handler hid, hle]
  · simp [sqliteSetColInt, hc.openDb, Prog.run_bind_of c.handler hid, hle, hc.exec site hint,
      Stmt.eval]

/-- If `store` returns 0 in the call `c`, then `sqlite_get_col_int` returns `v` in the call `c'`
after it. -/
def GetsBack (c c' : Call) (site' : Site) (T : Table) (user : CString) (v : Int)
    (store : PamProg Int) : Prop :=
  (store.run c.handler T).1 = 0 →
    ((sqliteGetColInt site' user .timestamp).run c'.handler (store.run c.handler T).2).1 = v

theorem getsBack_set_iff (hc : c.Complete) (hc' : c'.Complete)
    (hu : (Stmt.selectRowid user).Intact) {r : Row} (h : T.lookup user = some r) (v : TimeT) :
    c.GetsBack c' site' T user v.1 (sqliteSetColInt site user v.1) ↔
      r.id ≤ 0 ∨ 0 ≤ v.1 ∧ v.1 < 2 ^ 32 := by
  unfold GetsBack
  rw [sqliteSetColInt_run site hc hu h v]
  by_cases hle : r.id ≤ 0
  · simp [hle]
  · have hset : (T.setTimestamp v.1 r.id).lookup user = some { r with timestamp := v.1 } := by
      rw [Table.lookup_setTimestamp, h]
      simp
    have hpos : 0 < r.id := by omega
    rw [if_neg hle, sqliteGetColInt_run_any site' hc' hu, Table.colInt_of_lookup hset hpos]
    simp only [forall_const, storeInt_eq_self_iff, hle, false_or]

theorem getsBack_insert_iff (hc : c.Complete) (hc' : c'.Complete) (h : T.lookup user = none)
    (v : TimeT) (hu : (Stmt.insertData T.nextRowid user v.1).Intact) :
    c.GetsBack c' site' T user v.1 (sqliteInsertRow site user v.1) ↔
      T.lastId < -1 ∨ T.lastId = 2 ^ 31 - 1 ∨ T.lastId = -1 ∧ v.1 = -2 ∨
        (0 ≤ T.lastId ∧ T.lastId < 2 ^ 31 - 1) ∧ 0 ≤ v.1 ∧ v.1 < 2 ^ 32 := by
  have hlast := T.lastId_inInt
  have hneg := T.nextRowid_neg_iff
  have hsel := Stmt.intact_selectRowid_of_insertData hu
  unfold InInt at hlast
  unfold GetsBack
  by_cases hnext : T.nextRowid < 0
  · rw [sqliteInsertRow_run_neg site hc hnext]
    simp only [Int.reduceNeg, Int.reduceEq, false_implies, true_iff]
    omega
  · have hnn : 0 ≤ T.nextRowid := Int.not_lt.mp hnext
    have hid := Table.nextRowid_eq hnn
    have hget : (T.add user v.1).lookup user = some ⟨T.nextRowid, user, none, v.1⟩ :=
      Table.lookup_add hnn h
    rw [sqliteInsertRow_run_add site hc hnn hu, sqliteGetColInt_run_any site' hc' hsel]
    simp only [forall_const]
    rcases Int.lt_or_le 0 T.nextRowid with hpos | hle
    · rw [Table.colInt_of_lookup hget hpos, storeInt_eq_self_iff]
      omega
    · rw [Table.colInt_of_not_pos hget hle]
      omega

theorem column_round_trips_iff (hc : c.Complete) (hc' : c'.Complete) (site site' : Site)
    (T : Table) (user : CString) (v : TimeT) :
    (∀ r, T.lookup user = some r → (Stmt.selectRowid user).Intact →
      (c.GetsBack c' site' T user v.1 (sqliteSetColInt site user v.1) ↔
        r.id ≤ 0 ∨ 0 ≤ v.1 ∧ v.1 < 2 ^ 32)) ∧
    (T.lookup user = none → (Stmt.insertData T.nextRowid user v.1).Intact →
      (c.GetsBack c' site' T user v.1 (sqliteInsertRow site user v.1) ↔
        T.lastId < -1 ∨ T.lastId = 2 ^ 31 - 1 ∨ T.lastId = -1 ∧ v.1 = -2 ∨
          (0 ≤ T.lastId ∧ T.lastId < 2 ^ 31 - 1) ∧ 0 ≤ v.1 ∧ v.1 < 2 ^ 32)) :=
  ⟨fun _ h hu => getsBack_set_iff hc hc' hu h v, fun h hu => getsBack_insert_iff hc hc' h v hu⟩

theorem column_round_trips_iff_ann :
    (annEarly.GetsBack annLate .getOtp (.single ⟨1, .ofLit "ann", none, 100⟩ (by decide))
        (.ofLit "ann") 400 (sqliteSetColInt .registerOtp (.ofLit "ann") 400) ↔
      (1 : Int) ≤ 0 ∨ (0 : Int) ≤ 400 ∧ (400 : Int) < 2 ^ 32) ∧
    (annEarly.GetsBack annLate .getOtp .empty (.ofLit "ann") 400
        (sqliteInsertRow .registerInit (.ofLit "ann") 400) ↔
      Table.empty.lastId < -1 ∨ Table.empty.lastId = 2 ^ 31 - 1 ∨
        Table.empty.lastId = -1 ∧ (400 : Int) = -2 ∨
        (0 ≤ Table.empty.lastId ∧ Table.empty.lastId < 2 ^ 31 - 1) ∧
          (0 : Int) ≤ 400 ∧ (400 : Int) < 2 ^ 32) :=
  ⟨(column_round_trips_iff annEarly_normal.complete annLate_normal.complete _ _
      (.single ⟨1, .ofLit "ann", none, 100⟩ (by decide)) (.ofLit "ann") ⟨400, by decide⟩).1
      ⟨1, .ofLit "ann", none, 100⟩ (by decide) (by decide),
    (column_round_trips_iff annEarly_normal.complete annLate_normal.complete _ _ .empty
      (.ofLit "ann") ⟨400, by decide⟩).2 (by decide) (by decide)⟩

/-- The value -1 is stored, and 4294967295 comes back. -/
theorem column_not_round_trips : ¬ ∀ (c c' : Call) (site site' : Site) (T : Table)
    (user : CString) (r : Row) (v : TimeT), c.Complete → c'.Complete →
    T.lookup user = some r → (Stmt.selectRowid user).Intact →
    c.GetsBack c' site' T user v.1 (sqliteSetColInt site user v.1) := by
  intro h
  have hback := h annEarly annLate .registerOtp .getOtp
    (.single ⟨1, .ofLit "ann", none, 100⟩ (by decide)) (.ofLit "ann")
    ⟨1, .ofLit "ann", none, 100⟩ ⟨-1, by decide⟩ annEarly_normal.complete annLate_normal.complete
    (by decide) (by decide)
  rw [getsBack_set_iff annEarly_normal.complete annLate_normal.complete (by decide)
    (r := ⟨1, .ofLit "ann", none, 100⟩) (by decide)] at hback
  exact absurd hback (by decide)

/-! ## The two expiry rules -/

theorem sqliteIsRowExpir_eq_one_iff (hc : c.Complete) (hu : (Stmt.selectRowid user).Intact)
    (time : Int) :
    ((sqliteIsRowExpir site user time).run c.handler T).1 = 1 ↔
      0 < T.colInt user ∧ T.colInt user ≤ time := by
  have hcol := sqliteGetColInt_run_any (T := T) site hc hu
  simp only [sqliteIsRowExpir, Prog.run_bind_of c.handler hcol, Prog.pure_def, Prog.run_ret]
  split_ifs with hle hlate
  · exact iff_of_false id (by omega)
  · exact iff_of_true rfl (by omega)
  · exact iff_of_false (by decide) (by omega)

theorem expiry_rules_agree_iff (hc : c.Complete) (hc' : c'.Complete) (site site' : Site)
    (hu : (Stmt.selectRowid user).Intact) {r : Row}
    (hr : ∀ s, s ∈ T.rows ∧ s.user = user ↔ s = r)
    (hts : 1 ≤ r.timestamp ∧ r.timestamp < 2 ^ 31) {time : Int}
    (htime : 1 ≤ time ∧ time < 2 ^ 31) :
    (((sqliteIsRowExpir site user time).run c.handler T).1 = 1 ↔
        r ∉ ((sqlitePurgeTable site' time).run c'.handler T).2.rows) ↔
      0 < r.id ∧ time ≠ r.timestamp ∨ r.id ≤ 0 ∧ time ≤ r.timestamp := by
  obtain ⟨hmem, hname⟩ := (hr r).mpr rfl
  have hlookup : T.lookup user = some r := by
    cases h : T.lookup user with
    | none => exact absurd hname (Table.lookup_eq_none_iff.mp h r hmem)
    | some s => rw [(hr s).mp (Table.lookup_mem h)]
  have hpurge := sqlitePurgeTable_run hc' site' ⟨time, by omega, by omega⟩ T
  have hgone : r ∉ ((sqlitePurgeTable site' time).run c'.handler T).2.rows ↔
      r.timestamp < time := by
    rw [hpurge, Table.mem_purge, not_and, Int.not_le]
    exact ⟨fun h => h hmem, fun h _ => h⟩
  rw [sqliteIsRowExpir_eq_one_iff hc hu, hgone]
  rcases Int.lt_or_le 0 r.id with hpos | hle
  · have hcol : T.colInt user = r.timestamp := by
      have hrange : 0 ≤ r.timestamp ∧ r.timestamp < 2 ^ 32 := by omega
      rw [Table.colInt_of_lookup hlookup hpos]
      exact (storeInt_eq_self_iff ⟨r.timestamp, by omega, by omega⟩).mpr hrange
    rw [hcol]
    omega
  · rw [Table.colInt_of_not_pos hlookup hle]
    omega

theorem expiry_rules_agree_iff_ann :
    (((sqliteIsRowExpir .getOtp (.ofLit "ann") 99).run annEarly.handler
          (.single ⟨1, .ofLit "ann", none, 100⟩ (by decide))).1 = 1 ↔
        ⟨1, .ofLit "ann", none, 100⟩ ∉
          ((sqlitePurgeTable .unregisterExpirVars 99).run annLate.handler
            (.single ⟨1, .ofLit "ann", none, 100⟩ (by decide))).2.rows) ↔
      (0 : Int) < 1 ∧ (99 : Int) ≠ 100 ∨ (1 : Int) ≤ 0 ∧ (99 : Int) ≤ 100 :=
  expiry_rules_agree_iff annEarly_normal.complete annLate_normal.complete _ _ (by decide)
    (Table.mem_single_and_user _) (by decide) (by decide)

/-- In the second 100 the row is expired for one rule and stays in the table under the other. -/
theorem expiry_rules_disagree : ¬ ∀ (c c' : Call) (site site' : Site) (T : Table) (user : CString)
    (r : Row) (time : Int), c.Complete → c'.Complete → (Stmt.selectRowid user).Intact →
    (∀ s, s ∈ T.rows ∧ s.user = user ↔ s = r) → 1 ≤ r.timestamp ∧ r.timestamp < 2 ^ 31 →
    1 ≤ time ∧ time < 2 ^ 31 →
    (((sqliteIsRowExpir site user time).run c.handler T).1 = 1 ↔
      r ∉ ((sqlitePurgeTable site' time).run c'.handler T).2.rows) := by
  intro h
  have hagree := h annEarly annLate .getOtp .unregisterExpirVars
    (.single ⟨1, .ofLit "ann", none, 100⟩ (by decide)) (.ofLit "ann")
    ⟨1, .ofLit "ann", none, 100⟩ 100 annEarly_normal.complete annLate_normal.complete (by decide)
    (Table.mem_single_and_user _) (by decide) (by decide)
  have hpurge := sqlitePurgeTable_run annLate_normal.complete .unregisterExpirVars ⟨100, by decide⟩
    (.single ⟨1, .ofLit "ann", none, 100⟩ (by decide))
  rw [sqliteIsRowExpir_eq_one_iff annEarly_normal.complete (by decide), hpurge,
    Table.mem_purge] at hagree
  exact hagree.mp (by decide) ⟨List.mem_singleton.mpr rfl, by decide⟩

end Call

end PamSmsauth
