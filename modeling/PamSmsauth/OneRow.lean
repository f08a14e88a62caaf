import PamSmsauth.Interleaving

/-!
# How many rows a user has

Nothing in `pam_status` makes `user` unique: a session checks whether its user has a row and inserts
one in a later statement. The user gets two rows when the check is not answered although there is a
row, or has the id 0 that no lookup accepts (`CheckAnswered`), and when two sessions of the user are
past the check and the slower one then takes another id (`AloneAtInsert`). Without these two
(`Orderly`) the user has at most one row, whatever statements fail (`one_row_per_user`).

The invariant (`RowInv`): while a session is between the check and its `INSERT`, its user has no
row, or one with the very id that the `INSERT` names, which the `INSERT` then cannot take.
-/

namespace PamSmsauth

open CText Eff

/-- The id that an `INSERT` names. -/
def Op.inserts : Op → Option Int
  | .exec _ (.insertData id _ _) => some id
  | _ => none

/-- An operation of the check for a row of the user is answered, when there is one. -/
def CheckAnswered (c : Call) (T : Table) (user : CString) (op : Op) : Prop :=
  match op with
  | .openDb .isRegisteredUser => T.lookup user ≠ none → c.outcome op = .ok
  | .exec .isRegisteredUser (.selectRowid _) =>
    T.lookup user ≠ none → c.outcome op = .ok ∧ 0 < T.rowid user
  | .exec .isRegisteredUser (.selectData _ _) =>
    T.lookup user ≠ none → c.outcome op ≠ .abort ∧ c.outcome op ≠ .error
  | _ => True

instance (c : Call) (T : Table) (user : CString) (op : Op) :
    Decidable (CheckAnswered c T user op) := by
  unfold CheckAnswered
  split <;> infer_instance

variable {ι : Type}

/-- When session `i` is about to insert a row, no other session of the same user is between the
check and its own `INSERT`, unless this will name the same id. -/
def AloneAtInsert (c : ι → Call) (p : Sessions ι) (i : ι) (op : Op) : Prop :=
  match op with
  | .exec _ (.insertData id user _) =>
    (c i).outcome op = .ok → (∀ r ∈ p.world.state.rows, r.id ≠ id) →
      ∀ j, j ≠ i → (c j).user = some user → ∀ op' ∈ p.next j, op'.At .registerInit →
        op'.inserts = some id
  | _ => True

instance [Fintype ι] [DecidableEq ι] (c : ι → Call) (p : Sessions ι) (i : ι) (op : Op) :
    Decidable (AloneAtInsert c p i op) := by
  unfold AloneAtInsert
  split <;> infer_instance

/-- The step of `i` can break neither the check nor the `INSERT`. -/
def Orderly (c : ι → Call) (p : Sessions ι) (i : ι) : Prop :=
  ∀ op ∈ p.next i, AloneAtInsert c p i op ∧
    ∀ user ∈ (c i).user, CheckAnswered (c i) p.world.state user op

instance [Fintype ι] [DecidableEq ι] (c : ι → Call) (p : Sessions ι) (i : ι) :
    Decidable (Orderly c p i) :=
  inferInstanceAs (Decidable (∀ op ∈ p.next i, _))

structure RowInv (c : ι → Call) (p : Sessions ι) : Prop where
  onePerUser : p.world.state.OnePerUser
  pending : ∀ j user op, (c j).user = some user → p.Waits j op → op.At .registerInit →
    ∀ r ∈ p.world.state.rows, r.user = user → op.inserts = some r.id

theorem rowInv_start (c : ι → Call) : RowInv c (start c) where
  onePerUser := Table.empty_onePerUser
  pending _ _ _ _ _ _ _ hr := nomatch hr

/-- A session gets to `registerInit` by a check that finds nothing, and inside it the `INSERT` comes
last. -/
theorem Call.Before.at_registerInit {c : Call} {user : CString} {es : List PamEvent} {e : PamEvent}
    {op : Op} (h : c.Before user (es ++ [e]) op) (hat : op.At .registerInit) :
    Registered user .isRegisteredUser .user false e ∨
      Op.At e.1 .registerInit ∧ Op.inserts e.1 = none := by
  cases op with
  | openDb site =>
    cases hat
    exact .inl (after_append_singleton.mp h)
  | malloc site =>
    cases hat
    have he := after_append_singleton.mp h.2
    exact .inr (by rw [he]; exact ⟨rfl, rfl⟩)
  | exec site stmt =>
    cases hat
    right
    cases stmt with
    | selectNextRowid =>
      have he := after_append_singleton.mp h.2
      rw [he]; exact ⟨rfl, rfl⟩
    | selectRowid name =>
      rcases after_append_singleton.mp h.2 with he | he <;> rw [he] <;> exact ⟨rfl, rfl⟩
    | selectData col id =>
      obtain ⟨reply, rfl, -⟩ := after_append_singleton.mp h.2
      exact ⟨rfl, rfl⟩
    | insertData id name timestamp =>
      obtain ⟨reply, rfl, -⟩ := after_append_singleton.mp h.2.2.2.2
      exact ⟨rfl, rfl⟩
    | updateStrData value id => cases h.1
    | updateIntData value id => exact h.elim
    | deleteRow id => exact h.elim
    | purgeTable time => cases h.1
  | time => cases hat
  | getpwnam user => cases hat
  | urandom len => cases hat
  | smsRequest sockPath req => cases hat
  | smsResponse => cases hat
  | prompt => cases hat

/-- The `user` column is never `NULL`. -/
theorem dataOf_user_ne_none (T : Table) (id : Int) (buf : List Byte) :
    dataOf buf ((Stmt.selectData .user id).eval T).1 ≠ none := by
  cases hfind : T.find id with
  | none => simp [dataOf, Stmt.eval, T.filter_id, hfind, feed]
  | some r =>
    obtain ⟨hr, rfl⟩ := Table.find_eq_some_iff.mp hfind
    simp [dataOf_eval hr, Column.cell]

variable [DecidableEq ι] {c : ι → Call} {p p' : Sessions ι} {i j : ι} {op : Op} {a : op.Ans}

/-- A check that is answered finds the row there is. -/
theorem Move.check_missed (hm : Move c p i op a p') (hf : (c i).Fits) {user : CString}
    (hans : CheckAnswered (c i) p.world.state user op)
    (hmiss : Registered user .isRegisteredUser .user false ⟨op, a⟩) :
    p'.world.state = p.world.state ∧ p.world.state.lookup user = none := by
  have hT := (hm.change hf).eq_of_reads
  have ha := hm.ans
  rcases hmiss.colStr_none with
      ⟨code, he, hcode⟩ | ⟨reply, he, hid⟩ | ⟨id, buf, reply, he, hdata⟩ <;>
    cases he
  · refine ⟨hT rfl, by_contra fun hrow => hcode ?_⟩
    rw [ha]
    exact hans hrow
  · refine ⟨hT rfl, by_contra fun hrow => ?_⟩
    obtain ⟨hok, hpos⟩ := hans hrow
    rw [ha, Call.exec_ok hok (hm.edge.intact hf), rowidOf_eval] at hid
    omega
  · refine ⟨hT rfl, by_contra fun hrow => ?_⟩
    obtain ⟨hna, hne⟩ := hans hrow
    by_cases hok : (c i).outcome (.exec .isRegisteredUser (.selectData .user id)) = .ok
    · rw [ha, Call.exec_ok hok (hm.edge.intact hf)] at hdata
      exact dataOf_user_ne_none _ _ _ hdata
    · rw [ha, Call.exec_fail hok] at hdata
      cases hcode : (c i).outcome (.exec .isRegisteredUser (.selectData .user id)) <;>
        simp_all [dataOf, feed]

/-! ## What an orderly step preserves -/

namespace RowInv

theorem onePerUser_step (h : RowInv c p) (hf : (c i).Fits) (hm : Move c p i op a p') :
    p'.world.state.OnePerUser := by
  have hpend := h.pending i
  have hasks := hm.asks
  have hch := hm.change hf
  generalize p'.world.state = T' at hch
  cases hch with
  | same => exact h.onePerUser
  | purge =>
    intro r hr s hs
    exact h.onePerUser r (Table.mem_purge.mp hr).1 s (Table.mem_purge.mp hs).1
  | setOtp => exact h.onePerUser.setOtp _ _
  | insert hfit hnew hu hok =>
    -- a row of the user could only have the id that is free
    have hnone : ∀ s ∈ p.world.state.rows, s.user ≠ _ := fun s hs hsu =>
      hnew s hs (Option.some.inj (hpend _ _ hu hasks rfl s hs hsu)).symm
    intro r hr s hs hrs
    rcases Table.mem_insert.mp hr with rfl | hr <;> rcases Table.mem_insert.mp hs with rfl | hs
    · rfl
    · exact absurd hrs.symm (hnone s hs)
    · exact absurd hrs (hnone r hr)
    · exact h.onePerUser r hr s hs hrs

theorem pending_step (h : RowInv c p) (hf : (c i).Fits) (hcond : Orderly c p i)
    (hm : Move c p i op a p') {user : CString} {op' : Op} (hu : (c j).user = some user)
    (hw : p'.Waits j op') (hat : op'.At .registerInit) {r : Row}
    (hr : r ∈ p'.world.state.rows) (hru : r.user = user) : op'.inserts = some r.id := by
  obtain ⟨halone, hcheck⟩ := hcond op hm.asks
  rcases hm.waits_cases hw with ⟨hj, hw⟩ | ⟨rfl, user', hu', hbefore⟩
  · rcases (hm.change hf).row hr with ⟨s, hs, hsid, hsu, -⟩ | ⟨rfl, hui, -, hnew, hok⟩
    · rw [← hsid]
      exact h.pending j user op' hu hw hat s hs (hsu.trans hru)
    · exact halone hok hnew j hj (by rw [hu, hru]) op' hw hat
  · cases hu'.symm.trans hu
    rcases hbefore.at_registerInit hat with hmiss | ⟨hopat, hins⟩
    · obtain ⟨hT, hnone⟩ := hm.check_missed hf (hcheck user hu) hmiss
      rw [hT] at hr
      exact absurd hru (Table.lookup_eq_none_iff.mp hnone r hr)
    · rcases (hm.change hf).row hr with ⟨s, hs, hsid, hsu, -⟩ | ⟨rfl, -⟩
      · cases hins.symm.trans (h.pending j user op hu hm.asks hopat s hs (hsu.trans hru))
      · cases hins

theorem step (h : RowInv c p) (hf : (c i).Fits) (hcond : Orderly c p i)
    (hm : Move c p i op a p') : RowInv c p' where
  onePerUser := h.onePerUser_step hf hm
  pending _ _ _ hu hw hat _ hr hru := h.pending_step hf hcond hm hu hw hat hr hru

end RowInv

theorem rowInv_of_reach (hf : ∀ i, (c i).Fits)
    (hp : Pool.Reach (handlers c) (Orderly c) (start c) p) : RowInv c p :=
  reach_invariant (rowInv_start c) (fun _ i _ _ _ h hcond hm => h.step (hf i) hcond hm) hp

theorem one_row_per_user (hf : ∀ i, (c i).Fits)
    (hp : Pool.Reach (handlers c) (Orderly c) (start c) p) : p.world.state.OnePerUser :=
  (rowInv_of_reach hf hp).onePerUser

/-- Two sessions of `ann`; `code` is what SQLite answers the second when it looks the row up. -/
def annTwice (code : Code) : Login → Call
  | .first => .annEarly
  | .second => { Call.annLate with
      outcome := fun op => match op with
        | .exec .isRegisteredUser (.selectRowid _) => code
        | _ => .ok }

theorem annTwice_fits (code : Code) : ∀ i, (annTwice code i).Fits
  | .first => Call.annEarly_normal.fits
  | .second => Call.annLate_normal.fits

/-- The second session's lookup fails, but there is no row yet; both then name the id 1, and only
the first gets it. -/
theorem one_row_per_user_same_id :
    ((start (annTwice .busy)).exec (handlers (annTwice .busy)) (List.replicate 9 .first ++
      List.replicate 9 .second ++ List.replicate 16 .first ++
      List.replicate 3 .second)).world.state.OnePerUser :=
  one_row_per_user (annTwice_fits .busy) (.exec _ _ .init (by decide +kernel))

/-- Both sessions find no row; the second reads `max(id)` after the first has inserted its row. -/
def bothInsert : List Login :=
  List.replicate 7 .first ++ List.replicate 7 .second ++ List.replicate 3 .first ++
    List.replicate 3 .second

theorem one_row_per_user_fails :
    ¬ ∀ c : Login → Call, (∀ i, (c i).Fits) → ∀ p,
      Pool.Reach (handlers c) (fun _ _ => True) (start c) p → p.world.state.OnePerUser := by
  intro h
  have hone := h (annTwice .ok) (annTwice_fits .ok) _ (.exec _ bothInsert .init
    (by decide +kernel))
  have hrow := hone ⟨1, .ofLit "ann", none, 400⟩ (by decide +kernel)
    ⟨2, .ofLit "ann", none, 500⟩ (by decide +kernel) rfl
  exact absurd hrow (by decide)

/-- One failed lookup is enough, without any overlap. -/
example : ((start (annTwice .busy)).exec (handlers (annTwice .busy))
    (List.replicate 25 .first ++ List.replicate 13 .second)).world.state.rows =
      [⟨1, .ofLit "ann", some (.ofLit "77777"), 400⟩, ⟨2, .ofLit "ann", none, 500⟩] := by
  decide +kernel

end PamSmsauth
