import PamSmsauth.Lib.CText

/-!
# The table `pam_status` and the SQL statements on it

The database holds one table, `pam_status (id integer primary key, user, otp, timestamp)`. A
`Table` is its rows in rowid order, the order in which SQLite scans them, with the two facts that
the primary key and the `%d` of every statement that writes an id give: ids are distinct and are C
`int`s.

A `Stmt` is one of the statement templates of `sqlite_client.c` with its arguments; `Stmt.text` is
the text `snprintf` makes of it and `Stmt.eval` its meaning when SQLite reads that text as intended,
which it does when the text fits the 256-byte buffer and no quoted argument contains a quote
(`Stmt.Intact`).
-/

namespace PamSmsauth

open CText

structure Row where
  id : Int
  user : CString
  otp : Option CString
  timestamp : Int
  deriving DecidableEq

@[ext] structure Table where
  rows : List Row
  sorted : rows.Pairwise fun r s => r.id < s.id
  idsFit : ∀ r ∈ rows, InInt r.id

namespace Table

def empty : Table := ⟨[], .nil, by simp⟩

@[simp] theorem empty_rows : empty.rows = [] := rfl

theorem eq_of_id_eq {T : Table} {r s : Row} (hr : r ∈ T.rows) (hs : s ∈ T.rows)
    (h : r.id = s.id) : r = s := by
  have hfwd : T.rows.Pairwise fun r s => r.id = s.id → r = s :=
    T.sorted.imp fun hlt heq => absurd heq (by omega)
  have hbwd : T.rows.Pairwise (flip fun r s => r.id = s.id → r = s) :=
    T.sorted.imp fun hlt heq => absurd heq (by omega)
  exact List.Pairwise.forall_of_forall_of_flip (fun _ _ _ => rfl) hfwd hbwd hr hs h

/-! ## Reading -/

/-- `max(id)`. -/
def maxId (T : Table) : Option Int := T.rows.getLast?.map Row.id

theorem le_maxId {T : Table} {m : Int} (h : T.maxId = some m) : ∀ r ∈ T.rows, r.id ≤ m := by
  intro r hr
  simp only [maxId, Option.map_eq_some_iff] at h
  obtain ⟨l, hl, rfl⟩ := h
  obtain ⟨init, hinit⟩ := List.getLast?_eq_some_iff.mp hl
  have hs := T.sorted
  rw [hinit] at hs hr
  rcases List.mem_append.mp hr with hr | hr
  · exact Int.le_of_lt ((List.pairwise_append.mp hs).2.2 r hr l (by simp))
  · rw [List.mem_singleton.mp hr]

theorem maxId_mem {T : Table} {m : Int} (h : T.maxId = some m) : ∃ r ∈ T.rows, r.id = m := by
  simp only [maxId, Option.map_eq_some_iff] at h
  obtain ⟨l, hl, rfl⟩ := h
  exact ⟨l, List.mem_of_getLast? hl, rfl⟩

theorem rows_eq_nil_of_maxId {T : Table} (h : T.maxId = none) : T.rows = [] := by
  simpa [maxId] using h

/-- The row that a lookup by name ends up with: the last one the scan delivers. -/
def lookup (T : Table) (user : CString) : Option Row :=
  (T.rows.filter (·.user = user)).getLast?

theorem lookup_mem {T : Table} {user : CString} {r : Row} (h : T.lookup user = some r) :
    r ∈ T.rows ∧ r.user = user := by
  simpa using List.mem_of_getLast? h

theorem lookup_eq_none_iff {T : Table} {user : CString} :
    T.lookup user = none ↔ ∀ r ∈ T.rows, r.user ≠ user := by
  simp [lookup]

/-- The row with a given id. -/
def find (T : Table) (id : Int) : Option Row := T.rows.find? (·.id = id)

theorem find_eq_some_iff {T : Table} {id : Int} {r : Row} :
    T.find id = some r ↔ r ∈ T.rows ∧ r.id = id := by
  constructor
  · intro h
    exact ⟨List.mem_of_find?_eq_some h, by simpa using List.find?_some h⟩
  · rintro ⟨hr, rfl⟩
    cases h : T.find r.id with
    | none =>
      simp only [find, List.find?_eq_none] at h
      exact absurd (h r hr) (by simp)
    | some s =>
      have hs : s.id = r.id := by simpa using List.find?_some h
      rw [eq_of_id_eq (List.mem_of_find?_eq_some h) hr hs]

theorem filter_id (T : Table) (id : Int) :
    T.rows.filter (·.id = id) = (T.find id).toList := by
  have key : ∀ rows : List Row, rows.Pairwise (fun r s => r.id < s.id) →
      rows.filter (·.id = id) = (rows.find? (·.id = id)).toList := by
    intro rows hs
    induction rows with
    | nil => rfl
    | cons r rows ih =>
      rw [List.pairwise_cons] at hs
      by_cases h : r.id = id
      · have : rows.filter (·.id = id) = [] := by
          rw [List.filter_eq_nil_iff]
          intro s hs'
          have := hs.1 s hs'
          simp only [decide_eq_true_eq]; omega
        simp [h, this]
      · simp [h, ih hs.2]
  exact key T.rows T.sorted

/-! ## Writing -/

/-- Keep the rows that satisfy `p`. -/
def keep (T : Table) (p : Row → Bool) : Table where
  rows := T.rows.filter p
  sorted := T.sorted.filter p
  idsFit := fun r hr => T.idsFit r (List.mem_of_mem_filter hr)

/-- Change rows without touching their ids. -/
def modify (T : Table) (f : Row → Row) (hf : ∀ r, (f r).id = r.id) : Table where
  rows := T.rows.map f
  sorted := by
    rw [List.pairwise_map]
    exact T.sorted.imp fun h => by rw [hf, hf]; exact h
  idsFit := by
    intro r hr
    obtain ⟨s, hs, rfl⟩ := List.mem_map.mp hr
    rw [hf]; exact T.idsFit s hs

/-- A row at its place in rowid order. -/
def insertSorted (r : Row) : List Row → List Row
  | [] => [r]
  | s :: rows => if r.id < s.id then r :: s :: rows else s :: insertSorted r rows

@[simp] theorem mem_insertSorted {r s : Row} {rows : List Row} :
    s ∈ insertSorted r rows ↔ s = r ∨ s ∈ rows := by
  induction rows with
  | nil => simp [insertSorted]
  | cons t rows ih =>
    simp only [insertSorted]
    split
    · simp
    · simp only [List.mem_cons, ih]; tauto

theorem insertSorted_sorted {r : Row} {rows : List Row}
    (hs : rows.Pairwise fun r s => r.id < s.id) (hr : ∀ s ∈ rows, s.id ≠ r.id) :
    (insertSorted r rows).Pairwise fun r s => r.id < s.id := by
  induction rows with
  | nil => simp [insertSorted]
  | cons t rows ih =>
    rw [List.pairwise_cons] at hs
    simp only [insertSorted]
    split
    · rename_i hlt
      rw [List.pairwise_cons]
      refine ⟨fun s hs' => ?_, List.pairwise_cons.mpr hs⟩
      rcases List.mem_cons.mp hs' with rfl | hs'
      · exact hlt
      · exact Int.lt_trans hlt (hs.1 s hs')
    · rename_i hlt
      rw [List.pairwise_cons]
      refine ⟨fun s hs' => ?_, ih hs.2 fun s hs' => hr s (List.mem_cons_of_mem _ hs')⟩
      have hne := hr t (by simp)
      rcases mem_insertSorted.mp hs' with rfl | hs'
      · omega
      · exact hs.1 s hs'

def insert (T : Table) (r : Row) (hfit : InInt r.id) (hnew : ∀ s ∈ T.rows, s.id ≠ r.id) :
    Table where
  rows := insertSorted r T.rows
  sorted := insertSorted_sorted T.sorted hnew
  idsFit := by
    intro s hs
    rcases mem_insertSorted.mp hs with rfl | hs
    · exact hfit
    · exact T.idsFit s hs

/-- `DELETE ... WHERE timestamp<time`. -/
def purge (T : Table) (time : Int) : Table := T.keep fun r => time ≤ r.timestamp

/-- `UPDATE ... SET otp=value WHERE id=id`. -/
def setOtp (T : Table) (value : CString) (id : Int) : Table :=
  T.modify (fun r => if r.id = id then { r with otp := some value } else r)
    fun r => by split <;> rfl

/-- `UPDATE ... SET timestamp=value WHERE id=id`. -/
def setTimestamp (T : Table) (value : Int) (id : Int) : Table :=
  T.modify (fun r => if r.id = id then { r with timestamp := value } else r)
    fun r => by split <;> rfl

theorem mem_purge {T : Table} {time : Int} {r : Row} :
    r ∈ (T.purge time).rows ↔ r ∈ T.rows ∧ time ≤ r.timestamp := by
  simp [purge, keep]

theorem mem_setOtp {T : Table} {value : CString} {id : Int} {r : Row} :
    r ∈ (T.setOtp value id).rows ↔
      ∃ s ∈ T.rows, r = if s.id = id then { s with otp := some value } else s := by
  simp only [setOtp, modify, List.mem_map]
  exact exists_congr fun s => and_congr_right fun _ => eq_comm

@[simp] theorem mem_insert {T : Table} {r s : Row} {hfit hnew} :
    s ∈ (T.insert r hfit hnew).rows ↔ s = r ∨ s ∈ T.rows := mem_insertSorted

theorem self_mem_insert {T : Table} {r : Row} (hfit hnew) : r ∈ (T.insert r hfit hnew).rows :=
  mem_insert.mpr (.inl rfl)

/-- A change that keeps the names too is seen through a lookup. -/
theorem lookup_modify (T : Table) {f : Row → Row} (hf : ∀ r, (f r).id = r.id)
    (hname : ∀ r, (f r).user = r.user) (user : CString) :
    (T.modify f hf).lookup user = (T.lookup user).map f := by
  have hfun : ((fun r : Row => decide (r.user = user)) ∘ f) =
      fun r : Row => decide (r.user = user) := by
    funext r
    simp only [Function.comp_apply, hname]
  simp only [lookup, modify, List.filter_map, hfun, List.getLast?_map]

theorem lookup_setOtp (T : Table) (value : CString) (id : Int) (user : CString) :
    (T.setOtp value id).lookup user =
      (T.lookup user).map fun r => if r.id = id then { r with otp := some value } else r :=
  T.lookup_modify _ (fun r => by split <;> rfl) user

theorem lookup_setTimestamp (T : Table) (value id : Int) (user : CString) :
    (T.setTimestamp value id).lookup user =
      (T.lookup user).map fun r => if r.id = id then { r with timestamp := value } else r :=
  T.lookup_modify _ (fun r => by split <;> rfl) user

theorem lookup_insert_self {T : Table} {r : Row} {hfit hnew} (h : T.lookup r.user = none) :
    (T.insert r hfit hnew).lookup r.user = some r := by
  rw [lookup_eq_none_iff] at h
  have hf : ∀ rows : List Row, (∀ s ∈ rows, s.user ≠ r.user) →
      (insertSorted r rows).filter (·.user = r.user) = [r] := by
    intro rows hrows
    induction rows with
    | nil => simp [insertSorted]
    | cons s rows ih =>
      have hs := hrows s (by simp)
      have hrest : rows.filter (·.user = r.user) = [] := by
        rw [List.filter_eq_nil_iff]
        intro t ht
        simpa using hrows t (by simp [ht])
      simp only [insertSorted]
      split
      · simp [hs, hrest]
      · simp [hs, ih fun t ht => hrows t (by simp [ht])]
  simp only [lookup, insert, hf T.rows h, List.getLast?_singleton]

end Table

/-! ## Statements -/

inductive Column where
  | user | otp | timestamp
  deriving DecidableEq

def Column.name : Column → List Byte
  | .user => lit "user"
  | .otp => lit "otp"
  | .timestamp => lit "timestamp"

/-- A value as `sqlite3_exec` hands it to a callback: its text, or `NULL`. -/
abbrev Cell := Option (List Byte)

def Column.cell : Column → Row → Cell
  | .user, r => some r.user.bytes
  | .otp, r => r.otp.map CString.bytes
  | .timestamp, r => some (decimal r.timestamp)

/-- The result codes the module tells apart; `error` stands for every other one. -/
inductive Code where
  | ok | busy | abort | empty | error
  deriving DecidableEq, Repr

/-- The statements of `sqlite_client.c`; the only columns it ever sets are `otp` and
`timestamp`. -/
inductive Stmt where
  | selectNextRowid
  | selectRowid (user : CString)
  | selectData (col : Column) (id : Int)
  | insertData (id : Int) (user : CString) (timestamp : Int)
  | updateStrData (value : CString) (id : Int)
  | updateIntData (value : Int) (id : Int)
  | deleteRow (id : Int)
  | purgeTable (time : Int)
  deriving DecidableEq

/-- What `sqlite3_exec` reports: the rows it delivers and its result code. -/
structure Reply where
  rows : List (List Cell)
  code : Code

namespace Stmt

def sqlStatementMaxsize : Nat := 256

/-- The text of the statement, before it is cut to the buffer. -/
def text : Stmt → List Byte
  | .selectNextRowid => lit "SELECT max(id) FROM pam_status;"
  | .selectRowid user => lit "SELECT id FROM pam_status WHERE user='" ++ user.bytes ++ lit "';"
  | .selectData col id =>
    lit "SELECT " ++ col.name ++ lit " FROM pam_status WHERE id=" ++ decimal id ++ lit ";"
  | .insertData id user timestamp =>
    lit "INSERT INTO pam_status VALUES (" ++ decimal id ++ lit ",'" ++ user.bytes ++
      lit "',null," ++ decimal timestamp ++ lit ");"
  | .updateStrData value id =>
    lit "UPDATE pam_status SET otp='" ++ value.bytes ++ lit "' WHERE id=" ++ decimal id ++ lit ";"
  | .updateIntData value id =>
    lit "UPDATE pam_status SET timestamp=" ++ decimal value ++ lit " WHERE id=" ++ decimal id ++
      lit ";"
  | .deleteRow id => lit "DELETE FROM pam_status WHERE id=" ++ decimal id ++ lit ";"
  | .purgeTable time => lit "DELETE FROM pam_status WHERE timestamp<" ++ decimal time ++ lit ";"

/-- The text inside the quotes. -/
def literal : Stmt → List Byte
  | .selectRowid user => user.bytes
  | .insertData _ user _ => user.bytes
  | .updateStrData value _ => value.bytes
  | _ => []

/-- The text fits the buffer and its literal ends where it should. -/
def Intact (s : Stmt) : Prop := (39 : Byte) ∉ s.literal ∧ s.text.length < sqlStatementMaxsize

instance (s : Stmt) : Decidable s.Intact := inferInstanceAs (Decidable (_ ∧ _))

/-- The statement on a table. -/
def eval (T : Table) : Stmt → Reply × Table
  | .selectNextRowid => (⟨[[T.maxId.map decimal]], .ok⟩, T)
  | .selectRowid user =>
    (⟨(T.rows.filter (·.user = user)).map fun r => [some (decimal r.id)], .ok⟩, T)
  | .selectData col id => (⟨(T.rows.filter (·.id = id)).map fun r => [col.cell r], .ok⟩, T)
  | .insertData id user timestamp =>
    if h : InInt id ∧ ∀ s ∈ T.rows, s.id ≠ id then
      (⟨[], .ok⟩, T.insert ⟨id, user, none, timestamp⟩ h.1 h.2)
    else (⟨[], .error⟩, T)
  | .updateStrData value id => (⟨[], .ok⟩, T.setOtp value id)
  | .updateIntData value id => (⟨[], .ok⟩, T.setTimestamp value id)
  | .deleteRow id => (⟨[], .ok⟩, T.keep fun r => r.id ≠ id)
  | .purgeTable time => (⟨[], .ok⟩, T.purge time)

end Stmt

end PamSmsauth
