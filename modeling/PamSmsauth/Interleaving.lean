import PamSmsauth.History
import PamSmsauth.Session

/-!
# Interleaved sessions

`start c` is the pool of the sessions `c i` on the empty table. What a step can do is said once, in
`Move`: the session that moves is on one of the edges of `Session`, before and after; its answer is
its handler's; the table changes in one of the four ways of `Change`; every other session stays
where it is. An invariant that every `Move` keeps holds in every reachable pool
(`reach_invariant`).

A sequential run is the interleaving that schedules one session after the other to its end
(`sequential_reach`).
-/

namespace PamSmsauth

open CText Eff

abbrev Sessions (ι : Type) := Pool pamIface Exit ι Table

variable {ι : Type}

def start (c : ι → Call) : Sessions ι := ⟨⟨.empty, []⟩, fun i => (c i).prog⟩

abbrev handlers (c : ι → Call) : ι → Handler pamIface Table := fun i => (c i).handler

/-! ## The statements that reach SQLite -/

theorem callbackRowid_inInt {id : Int} (h : InInt id) (cells : List Cell) :
    InInt (callbackRowid id cells).1 := by
  induction cells generalizing id with
  | nil => exact h
  | cons cell cells ih =>
    cases cell with
    | none => exact h
    | some data => exact ih (atoi_inInt data)

theorem feed_rowid_inInt {id : Int} (h : InInt id) (rows : List (List Cell)) :
    InInt (feed callbackRowid id rows).1 := by
  induction rows generalizing id with
  | nil => exact h
  | cons row rows ih =>
    simp only [feed]
    split
    · exact callbackRowid_inInt h row
    · exact ih (callbackRowid_inInt h row)

theorem rowidOf_inInt (reply : Reply) : InInt (rowidOf reply) := by
  have h2 : InInt (-2) := by decide
  have h0 : InInt 0 := by decide
  unfold rowidOf
  generalize (if (feed callbackRowid 0 reply.rows).2 then Code.abort else reply.code) = code
  split
  · exact h2
  · exact feed_rowid_inInt h0 _

theorem rowidOf_eval (T : Table) (user : CString) :
    rowidOf ((Stmt.selectRowid user).eval T).1 = T.rowid user := by
  have hfeed := feed_rowid (T.rows.filter (·.user = user))
    (fun r hr => T.idsFit r (List.mem_of_mem_filter hr)) 0
  simp only [rowidOf, Stmt.eval, hfeed]
  rfl

theorem nextRowidOf_eval (T : Table) : nextRowidOf (Stmt.selectNextRowid.eval T).1 =
    T.nextRowid := by
  cases h : T.maxId with
  | none => simp [nextRowidOf, Stmt.eval, h, feed, callbackRowid, Table.nextRowid]
  | some m =>
    obtain ⟨r, hr, rfl⟩ := Table.maxId_mem h
    simp [nextRowidOf, Stmt.eval, h, feed, callbackRowid, Table.nextRowid,
      atoi_decimal (T.idsFit r hr)]

theorem dataOf_eval {T : Table} {r : Row} (hr : r ∈ T.rows) (col : Column) (buf : List Byte) :
    dataOf buf ((Stmt.selectData col r.id).eval T).1 =
      (col.cell r).map fun data => fillBuffer (cstr data) buf := by
  have hfind := Table.find_eq_some_iff.mpr ⟨hr, rfl⟩
  cases hcell : col.cell r with
  | none => simp [dataOf, Stmt.eval, T.filter_id, hfind, hcell, feed, callbackDataStr]
  | some data =>
    simp [dataOf, Stmt.eval, T.filter_id, hfind, hcell, feed, callbackDataStr, fillBuffer]

namespace Call

variable {c : Call} {es : List PamEvent} {site : Site} {T : Table}

/-- A password is shorter than the buffer it is read into. -/
theorem cstr_fillBuffer_newOtp (c : Call) (words : Nat → UInt64) (buf : List Byte) :
    cstr (fillBuffer (c.newOtp words).bytes buf) = (c.newOtp words).bytes := by
  have hlen : c.arg.otpLen ≤ varMaxlen := (parse_inv c.argv).otpLen_le.trans (by decide)
  rw [cstr_fillBuffer, List.take_of_length_le (by simpa [newOtp] using hlen)]

/-- A session whose user name fits only asks statements that SQLite reads as intended. -/
theorem Waiting.intact (hf : c.Fits) {stmt : Stmt} (h : c.Waiting es (.exec site stmt)) :
    stmt.Intact := by
  obtain ⟨user, hu, h⟩ := h.before (fun h => nomatch h)
  have hfit := hf user hu
  cases stmt with
  | selectNextRowid => exact Stmt.intact_selectNextRowid
  | selectRowid name =>
    obtain ⟨rfl, -⟩ := h
    exact Stmt.intact_selectRowid hfit
  | selectData col id =>
    obtain ⟨-, e, -, reply, rfl, rfl, -⟩ := h
    exact Stmt.intact_selectData col (rowidOf_inInt reply)
  | insertData id name timestamp =>
    obtain ⟨-, rfl, rfl, h0, e, -, reply, rfl, rfl⟩ := h
    exact Stmt.intact_insertData hfit h0 (wrap32_inInt _)
  | updateStrData value id =>
    obtain ⟨-, ⟨e, -, reply, rfl, rfl, -⟩, -, words, -, rfl⟩ := h
    exact Stmt.intact_updateStrData _ words ((parse_inv c.argv).otpLen_le.trans (by decide))
      (rowidOf_inInt reply)
  | updateIntData value id => exact h.elim
  | deleteRow id => exact h.elim
  | purgeTable time =>
    obtain ⟨-, rfl, -⟩ := h
    exact Stmt.intact_purgeTable c.time

end Call

/-- What one operation of a session does to the table. -/
inductive Change (c : Call) (T : Table) : Op → Table → Prop
  | same (op : Op) : Change c T op T
  | insert {id : Int} {user : CString} (hfit : InInt id) (hnew : ∀ s ∈ T.rows, s.id ≠ id) :
      c.user = some user → c.outcome (.exec .registerInit (.insertData id user c.timeExpir)) = .ok →
      Change c T (.exec .registerInit (.insertData id user c.timeExpir))
        (T.insert ⟨id, user, none, c.timeExpir⟩ hfit hnew)
  | setOtp {words : Nat → UInt64} {id : Int} :
      Change c T (.exec .registerOtp (.updateStrData (c.newOtp words) id))
        (T.setOtp (c.newOtp words) id)
  | purge : Change c T (.exec .unregisterExpirVars (.purgeTable c.time.1)) (T.purge c.time.1)

theorem Call.Waiting.change {c : Call} {es : List PamEvent} {op : Op} (hf : c.Fits)
    (h : c.Waiting es op) (T : Table) : Change c T op (c.handler op T).2 := by
  cases op with
  | exec site stmt =>
    have hs := h.intact hf
    by_cases hok : c.outcome (.exec site stmt) = .ok
    · rw [Call.exec_ok hok hs]
      obtain ⟨user, hu, h⟩ := h.before (fun h => nomatch h)
      cases stmt with
      | selectNextRowid => exact .same _
      | selectRowid name => exact .same _
      | selectData col id => exact .same _
      | insertData id name timestamp =>
        obtain ⟨rfl, rfl, rfl, -, -⟩ := h
        simp only [Stmt.eval]
        split
        · rename_i hfresh
          exact .insert hfresh.1 hfresh.2 hu hok
        · exact .same _
      | updateStrData value id =>
        obtain ⟨rfl, -, -, words, -, rfl⟩ := h
        exact .setOtp
      | updateIntData value id => exact h.elim
      | deleteRow id => exact h.elim
      | purgeTable time =>
        obtain ⟨rfl, rfl, -⟩ := h
        exact .purge
    · rw [Call.exec_fail hok]
      exact .same _
  | time => exact .same _
  | getpwnam user => exact .same _
  | openDb site => exact .same _
  | malloc site => exact .same _
  | urandom len => exact .same _
  | smsRequest sockPath req => exact .same _
  | smsResponse => exact .same _
  | prompt => exact .same _

/-- The operation can change the table. -/
def Op.writes : Op → Bool
  | .exec _ (.insertData _ _ _) | .exec _ (.updateStrData _ _) | .exec _ (.purgeTable _) => true
  | _ => false

namespace Change

variable {c : Call} {T T' : Table} {op : Op}

theorem eq_of_reads (h : Change c T op T') (hop : op.writes = false) : T' = T := by
  cases h with
  | same => rfl
  | insert => cases hop
  | setOtp => cases hop
  | purge => cases hop

/-- A row after the operation was there with the same id, owner and timestamp, or it is new. -/
theorem row (h : Change c T op T') {r : Row} (hr : r ∈ T'.rows) :
    (∃ s ∈ T.rows, s.id = r.id ∧ s.user = r.user ∧ s.timestamp = r.timestamp ∧
      (r.otp = s.otp ∨ ∃ words, op = .exec .registerOtp (.updateStrData (c.newOtp words) r.id) ∧
        r.otp = some (c.newOtp words))) ∨
    op = .exec .registerInit (.insertData r.id r.user c.timeExpir) ∧ c.user = some r.user ∧
      r.otp = none ∧ (∀ s ∈ T.rows, s.id ≠ r.id) ∧ c.outcome op = .ok := by
  cases h with
  | same => exact .inl ⟨r, hr, rfl, rfl, rfl, .inl rfl⟩
  | insert hfit hnew hu hok =>
    rcases Table.mem_insert.mp hr with rfl | hr
    · exact .inr ⟨rfl, hu, rfl, hnew, hok⟩
    · exact .inl ⟨r, hr, rfl, rfl, rfl, .inl rfl⟩
  | setOtp =>
    obtain ⟨s, hs, rfl⟩ := Table.mem_setOtp.mp hr
    split
    · rename_i hid
      exact .inl ⟨s, hs, rfl, rfl, rfl, .inr ⟨_, by rw [hid], rfl⟩⟩
    · exact .inl ⟨s, hs, rfl, rfl, rfl, .inl rfl⟩
  | purge => exact .inl ⟨r, (Table.mem_purge.mp hr).1, rfl, rfl, rfl, .inl rfl⟩

/-- A row stays, with its id, owner and timestamp, unless it is purged. -/
theorem kept (h : Change c T op T') {s : Row} (hs : s ∈ T.rows) :
    (∃ r ∈ T'.rows, r.id = s.id ∧ r.user = s.user ∧ r.timestamp = s.timestamp ∧
      (r.otp = s.otp ∨ ∃ words, op = .exec .registerOtp (.updateStrData (c.newOtp words) s.id) ∧
        r.otp = some (c.newOtp words))) ∨
    op = .exec .unregisterExpirVars (.purgeTable c.time.1) ∧ s.timestamp < c.time.1 := by
  cases h with
  | same => exact .inl ⟨s, hs, rfl, rfl, rfl, .inl rfl⟩
  | insert => exact .inl ⟨s, Table.mem_insert.mpr (.inr hs), rfl, rfl, rfl, .inl rfl⟩
  | @setOtp words id =>
    refine .inl ⟨_, Table.mem_setOtp.mpr ⟨s, hs, rfl⟩, ?_⟩
    split
    · rename_i hid
      exact ⟨rfl, rfl, rfl, .inr ⟨words, by rw [hid], rfl⟩⟩
    · exact ⟨rfl, rfl, rfl, .inl rfl⟩
  | purge =>
    by_cases hexp : c.time.1 ≤ s.timestamp
    · exact .inl ⟨s, Table.mem_purge.mpr ⟨hs, hexp⟩, rfl, rfl, rfl, .inl rfl⟩
    · exact .inr ⟨rfl, by omega⟩

end Change

/-! ## Moves -/

/-- The id a statement names in its `WHERE id=`. -/
def Stmt.target : Stmt → Option Int
  | .selectData _ id | .updateStrData _ id | .updateIntData _ id | .deleteRow id => some id
  | _ => none

def Op.target : Op → Option Int
  | .exec _ stmt => stmt.target
  | _ => none

/-- Session `i` is about to touch the row `id`. -/
def Aims (p : Sessions ι) (i : ι) (id : Int) : Prop := (p.next i).bind Op.target = some id

instance (p : Sessions ι) (i : ι) (id : Int) : Decidable (Aims p i id) :=
  inferInstanceAs (Decidable (_ = _))

theorem aims_iff {p : Sessions ι} {i : ι} {id : Int} :
    Aims p i id ↔ ∃ op : Op, p.Waits i op ∧ op.target = some id :=
  Option.bind_eq_some_iff

/-- Whoever aims at a row has just looked it up. -/
theorem Call.Before.found {c : Call} {user : CString} {es : List PamEvent} {op : Op} {id : Int}
    (h : c.Before user es op) (htarget : op.target = some id) :
    ∃ site, After es (Found user site id) := by
  cases op with
  | exec site stmt =>
    cases stmt with
    | selectData col id' =>
      cases htarget
      exact ⟨site, h.2⟩
    | updateStrData value id' =>
      cases htarget
      exact ⟨_, h.2.1⟩
    | updateIntData value id' => exact h.elim
    | deleteRow id' => exact h.elim
    | selectNextRowid => cases htarget
    | selectRowid name => cases htarget
    | insertData id' name timestamp => cases htarget
    | purgeTable time => cases htarget
  | time => cases htarget
  | getpwnam user => cases htarget
  | openDb site => cases htarget
  | malloc site => cases htarget
  | urandom len => cases htarget
  | smsRequest sockPath req => cases htarget
  | smsResponse => cases htarget
  | prompt => cases htarget

variable [DecidableEq ι]

/-- Session `i` is scheduled: it asks `op`, is answered `a`, and the pool is then `p'`. -/
structure Move (c : ι → Call) (p : Sessions ι) (i : ι) (op : Op) (a : op.Ans) (p' : Sessions ι) :
    Prop where
  asks : p.Waits i op
  edge : (c i).Waiting (p.world.own i) op
  answers : ∀ j e, (j, e) ∈ p.world.log → (c j).Answers e.1 e.2
  ans : a = ((c i).handler op p.world.state).1
  table : p'.world.state = ((c i).handler op p.world.state).2
  log : p'.world.log = p.world.log ++ [(i, ⟨op, a⟩)]
  others : ∀ j, j ≠ i → p'.sess j = p.sess j
  next : ∀ op', p'.Waits i op' → (c i).Waiting (p.world.own i ++ [⟨op, a⟩]) op'
  ended : ∀ exit, p'.sess i = .ret exit → (c i).Done (p.world.own i ++ [⟨op, a⟩]) exit

namespace Move

variable {c : ι → Call} {p p' : Sessions ι} {i j : ι} {op op' : Op} {a : op.Ans}

theorem change (h : Move c p i op a p') (hf : (c i).Fits) :
    Change (c i) p.world.state op p'.world.state := by
  rw [h.table]
  exact h.edge.change hf _

theorem waits_cases (h : Move c p i op a p') (hw : p'.Waits j op') :
    j ≠ i ∧ p.Waits j op' ∨
      j = i ∧ ∃ user, (c i).user = some user ∧
        (c i).Before user (p.world.own i ++ [⟨op, a⟩]) op' := by
  by_cases hj : j = i
  · subst hj
    rcases h.next op' hw with ⟨-, hnil⟩ | hnext
    · simp at hnil
    · exact .inr ⟨rfl, hnext⟩
  · refine .inl ⟨hj, ?_⟩
    obtain ⟨k, hk⟩ := Pool.waits_iff.mp hw
    exact Pool.waits_iff.mpr ⟨k, by rw [← h.others j hj]; exact hk⟩

theorem ended_cases (h : Move c p i op a p') {exit : Exit} (he : p'.sess j = .ret exit) :
    p.sess j = .ret exit ∨ j = i ∧ (c i).Done (p.world.own i ++ [⟨op, a⟩]) exit := by
  by_cases hj : j = i
  · subst hj
    exact .inr ⟨rfl, h.ended exit he⟩
  · exact .inl (by rw [← h.others j hj]; exact he)

theorem mem_log (h : Move c p i op a p') {e : ι × PamEvent} :
    e ∈ p'.world.log ↔ e ∈ p.world.log ∨ e = (i, ⟨op, a⟩) := by
  simp [h.log]

/-- A statement that completes does what SQLite makes of it. -/
theorem evals {site : Site} {stmt : Stmt} {reply : Reply}
    (h : Move c p i (.exec site stmt) reply p') (hc : (c i).Complete) (hf : (c i).Fits) :
    reply = (stmt.eval p.world.state).1 ∧ p'.world.state = (stmt.eval p.world.state).2 := by
  have hexec := hc.exec site (h.edge.intact hf) p.world.state
  exact ⟨h.ans.trans (congrArg Prod.fst hexec), h.table.trans (congrArg Prod.snd hexec)⟩

/-- A password that was read is that of the row. -/
theorem read_otp {site : Site} {r : Row} {reply : Reply} {buf value : List Byte}
    (h : Move c p i (.exec site (.selectData .otp r.id)) reply p') (hc : (c i).Complete)
    (hf : (c i).Fits) (hr : r ∈ p.world.state.rows) (hdata : dataOf buf reply = some value) :
    ∃ otp, r.otp = some otp ∧ value = fillBuffer otp.bytes buf := by
  rw [(h.evals hc hf).1, dataOf_eval hr] at hdata
  cases ho : r.otp with
  | none => simp [Column.cell, ho] at hdata
  | some otp =>
    simp only [Column.cell, ho, Option.map_some, CString.cstr_bytes, Option.some.injEq] at hdata
    exact ⟨otp, rfl, hdata.symm⟩

/-- A lookup that found `id` found a row of the user. -/
theorem found (hc : (c i).Complete) (hf : (c i).Fits) (h : Move c p i op a p') {user : CString}
    {site : Site} {id : Int} (hfound : Found user site id ⟨op, a⟩) :
    p'.world.state = p.world.state ∧
      ∃ r, p.world.state.lookup user = some r ∧ r.id = id := by
  obtain ⟨reply, he, hid, hpos⟩ := hfound
  cases he
  obtain ⟨rfl, hT⟩ := h.evals hc hf
  refine ⟨hT, ?_⟩
  rw [rowidOf_eval] at hid
  cases hl : p.world.state.lookup user with
  | none => rw [Table.rowid, hl] at hid; simp at hid; omega
  | some r => exact ⟨r, rfl, by rw [← hid, Table.rowid_of_lookup hl]⟩

/-- Who is about to touch a row was so before, or has just looked it up. -/
theorem aims_cases (h : Move c p i op a p') {id : Int} (haims : Aims p' j id) :
    Aims p j id ∨ j = i ∧ ∃ user site, (c i).user = some user ∧ Found user site id ⟨op, a⟩ := by
  obtain ⟨op', hw, htarget⟩ := aims_iff.mp haims
  rcases h.waits_cases hw with ⟨-, hw⟩ | ⟨rfl, user, hu, hbefore⟩
  · exact .inl (aims_iff.mpr ⟨op', hw, htarget⟩)
  · obtain ⟨site, hfound⟩ := hbefore.found htarget
    exact .inr ⟨rfl, user, site, hu, after_append_singleton.mp hfound⟩

end Move

variable {c : ι → Call} {C : Sessions ι → ι → Prop} {p : Sessions ι}

/-- Scheduling a waiting session of a reachable pool is a move. -/
theorem move_of_reach (hp : Pool.Reach (handlers c) C (start c) p) {i : ι} {op : Op}
    (hw : p.Waits i op) :
    Move c p i op ((c i).handler op p.world.state).1 (p.step (handlers c) i) := by
  have hV : ∀ i op T, (c i).Answers op ((c i).handler op T).1 := fun i op T => ⟨T, rfl⟩
  have hi := hp.traced (V := fun i => (c i).Answers) (P := fun i => (c i).Waiting)
    (Q := fun i => (c i).Done) hV (fun i => (c i).prog_traced) i
  obtain ⟨k, hk⟩ := Pool.waits_iff.mp hw
  rw [hk] at hi
  have hnext := hi.2 _ (hV i op p.world.state)
  have hstep := Pool.step_ask (handlers c) hk
  refine ⟨hw, hi.1, hp.answers hV fun _ _ he => absurd he List.not_mem_nil, rfl, ?_, ?_,
    fun j hj => ?_, fun op' hw => ?_, fun exit he => ?_⟩
  · rw [hstep]; rfl
  · rw [hstep]; rfl
  · rw [hstep]; exact Function.update_of_ne hj ..
  · obtain ⟨k', hk'⟩ := Pool.waits_iff.mp hw
    simp only [hstep, Function.update_self, World.act_ans] at hk'
    rw [hk'] at hnext
    exact hnext.1
  · simp only [hstep, Function.update_self, World.act_ans] at he
    rw [he] at hnext
    exact hnext

/-- An invariant that every move keeps holds in every reachable pool. -/
theorem reach_invariant {Inv : Sessions ι → Prop} (h₀ : Inv (start c))
    (hstep : ∀ p i op a p', Inv p → C p i → Move c p i op a p' → Inv p')
    (hp : Pool.Reach (handlers c) C (start c) p) : Inv p := by
  induction hp with
  | init => exact h₀
  | @step p i hp hC ih =>
    cases hk : p.sess i with
    | ret exit => rw [Pool.step_ret _ hk]; exact ih
    | ask op k => exact hstep p i op _ _ ih hC (move_of_reach hp (Pool.waits_iff.mpr ⟨k, hk⟩))

/-! ## Sequential runs -/

/-- The pool in which the first `n` sessions have run, one after the other, and no other has
started. -/
structure RanFirst (c : ℕ → Call) (n : ℕ) (p : Sessions ℕ) : Prop where
  table : p.world.state = tableAfter ((List.range n).map c)
  ran : ∀ i < n, p.sess i = .ret ((c i).run (tableAfter ((List.range i).map c))).1
  waiting : ∀ i, n ≤ i → p.sess i = (c i).prog

/-- A sequential run is one of the interleavings. -/
theorem sequential_reach (c : ℕ → Call) (n : ℕ) : ∃ schedule, RanFirst c n
    ((start c).exec (handlers c) schedule) := by
  induction n with
  | zero => exact ⟨[], rfl, fun i hi => absurd hi (by omega), fun i _ => rfl⟩
  | succ n ih =>
    obtain ⟨schedule, hran⟩ := ih
    refine ⟨schedule ++ List.replicate ((c n).prog.trace (c n).handler
      (tableAfter ((List.range n).map c))).length n, ?_⟩
    have halone := ((start c).exec (handlers c) schedule).exec_alone (handlers c) n
    rw [hran.waiting n (le_refl n), hran.table] at halone
    rw [Pool.exec_append, halone]
    refine ⟨?_, fun i hi => ?_, fun i hi => ?_⟩
    · rw [List.range_succ, List.map_append, List.map_singleton, tableAfter_append_singleton]
      rfl
    · rcases Nat.lt_succ_iff_lt_or_eq.mp hi with hlt | rfl
      · simpa [Function.update_of_ne (by omega : i ≠ n)] using hran.ran i hlt
      · simp [Call.run]
    · simpa [Function.update_of_ne (by omega : i ≠ n)] using hran.waiting i (by omega)

/-- The sessions of a run with two of them. -/
inductive Login
  | first
  | second
  deriving DecidableEq

instance : Fintype Login where
  elems := {.first, .second}
  complete i := by cases i <;> decide

end PamSmsauth
