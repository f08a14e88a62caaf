import PamSmsauth.OneRow

/-!
# The row of one user

Sessions of one user whose statements all complete and whose clocks are not past the timestamp of
the row. Then nothing is ever purged, and if two sessions do not insert at once there is one row
once a session got past `pam_register_init`: it stays, with its id, and every lookup finds it
(`SoleRow`).
-/

namespace PamSmsauth

open CText Eff

/-- What a session asks after it has seen or made the row of its user. -/
def Op.afterRow : Op → Bool
  | .openDb site | .malloc site | .exec site _ =>
    site = .isRegisteredOtp ∨ site = .registerOtp ∨ site = .getOtp
  | .urandom _ | .smsRequest _ _ | .smsResponse | .prompt => true
  | .time | .getpwnam _ => false

theorem Op.afterRow_of_at {op : Op} {site : Site} (hat : op.At site)
    (hsite : site = .isRegisteredOtp ∨ site = .registerOtp ∨ site = .getOtp) : op.afterRow := by
  cases op <;> cases hat <;> exact decide_eq_true hsite

/-- Once past the row, a session stays there; it gets there by a check that finds the row or by an
`INSERT` that succeeds. -/
theorem Call.Before.afterRow {c : Call} {user : CString} {es : List PamEvent} {e : PamEvent}
    {op : Op} (h : c.Before user (es ++ [e]) op) (hop : op.afterRow) :
    Op.afterRow e.1 ∨ Registered user .isRegisteredUser .user true e ∨
      ∃ id reply, e = ⟨.exec .registerInit (.insertData id user c.timeExpir), reply⟩ ∧
        reply.code = .ok := by
  cases op with
  | openDb site =>
    simp only [Op.afterRow, decide_eq_true_eq] at hop
    rcases hop with rfl | rfl | rfl
    · exact .inr (after_append_singleton.mp h)
    · rw [after_append_singleton.mp h]; exact .inl rfl
    · obtain ⟨input, rfl⟩ := after_append_singleton.mp h
      exact .inl rfl
  | malloc site =>
    rw [after_append_singleton.mp h.2]
    exact .inl hop
  | exec site stmt =>
    left
    cases stmt with
    | selectNextRowid => cases h.1; cases hop
    | selectRowid name =>
      rcases after_append_singleton.mp h.2 with he | he <;> rw [he] <;> exact hop
    | selectData col id =>
      obtain ⟨reply, rfl, -⟩ := after_append_singleton.mp h.2
      exact hop
    | insertData id name timestamp => cases h.1; cases hop
    | updateStrData value id =>
      obtain ⟨reply, rfl, -⟩ := after_append_singleton.mp h.2.1
      rfl
    | updateIntData value id => exact h.elim
    | deleteRow id => exact h.elim
    | purgeTable time => cases h.1; cases hop
  | urandom len => exact .inl (Op.afterRow_of_at (after_append_singleton.mp h).at (.inl rfl))
  | smsRequest sockPath req =>
    obtain ⟨words, rfl⟩ := after_append_singleton.mp h
    exact .inl rfl
  | smsResponse =>
    obtain ⟨sockPath, req, rfl⟩ := after_append_singleton.mp h
    exact .inl rfl
  | prompt =>
    rcases after_append_singleton.mp h with hreg | ⟨_, _, _, rfl, -⟩
    · exact .inl (Op.afterRow_of_at hreg.at (.inl rfl))
    · exact .inl rfl
  | time => cases hop
  | getpwnam user => cases hop

variable {ι : Type}

/-- The clock of session `i` is not past the timestamp of a row. -/
def InTime (c : ι → Call) (p : Sessions ι) (i : ι) : Prop :=
  ∀ r ∈ p.world.state.rows, (c i).time.1 ≤ r.timestamp

instance (c : ι → Call) (p : Sessions ι) (i : ι) : Decidable (InTime c p i) :=
  inferInstanceAs (Decidable (∀ r ∈ _, _))

structure SoleRow (c : ι → Call) (user : CString) (p : Sessions ι) : Prop extends RowInv c p where
  positive : p.world.state.Positive
  inserts_pos : ∀ j op id, p.Waits j op → op.inserts = some id → 0 < id
  owner : ∀ r ∈ p.world.state.rows, r.user = user
  aims_row : ∀ j id, Aims p j id → ∃ r ∈ p.world.state.rows, r.id = id
  registered : ∀ j op, p.Waits j op → op.afterRow → ∃ r, r ∈ p.world.state.rows

theorem soleRow_start (c : ι → Call) (user : CString) : SoleRow c user (start c) where
  toRowInv := rowInv_start c
  positive := Table.empty_positive
  inserts_pos _ _ _ hw hins := by cases hw; cases hins
  owner _ hr := nomatch hr
  aims_row _ _ h := nomatch h
  registered _ _ hw hop := by cases hw; cases hop

theorem checkAnswered_of_complete {c : Call} (hc : c.Complete) {T : Table} (hT : T.Positive)
    (user : CString) (op : Op) : CheckAnswered c T user op := by
  unfold CheckAnswered
  split
  · exact fun _ => hc _
  · refine fun hrow => ⟨hc _, ?_⟩
    have := (hT.rowid_le_zero_iff user).not.mpr hrow
    omega
  · exact fun _ => by simp [hc _]
  · trivial

namespace SoleRow

variable {c : ι → Call} {user : CString} {p : Sessions ι}

/-- There is no second row. -/
theorem unique (h : SoleRow c user p) {r s : Row} (hr : r ∈ p.world.state.rows)
    (hs : s ∈ p.world.state.rows) : r = s :=
  h.onePerUser r hr s hs ((h.owner r hr).trans (h.owner s hs).symm)

theorem lookup (h : SoleRow c user p) {r : Row} (hr : r ∈ p.world.state.rows) :
    p.world.state.lookup user = some r := by
  rw [← h.owner r hr]
  exact h.onePerUser.lookup hr

end SoleRow

variable [DecidableEq ι] {c : ι → Call} {user : CString} {p p' : Sessions ι} {i j : ι} {op : Op}
  {a : op.Ans}

/-- Nothing is purged in time. -/
theorem Move.kept (hm : Move c p i op a p') (hf : (c i).Fits) (ht : InTime c p i) {s : Row}
    (hs : s ∈ p.world.state.rows) :
    ∃ r ∈ p'.world.state.rows, r.id = s.id ∧ (r.otp = s.otp ∨ ∃ words,
      op = .exec .registerOtp (.updateStrData ((c i).newOtp words) s.id) ∧
        r.otp = some ((c i).newOtp words)) := by
  rcases (hm.change hf).kept hs with ⟨r, hr, hid, -, -, hotp⟩ | ⟨-, hexp⟩
  · exact ⟨r, hr, hid, hotp⟩
  · have := ht s hs
    omega

namespace SoleRow

/-- Past the row, a lookup finds it. -/
theorem rowid_pos (h : SoleRow c user p) (hc : (c i).Complete) (hf : (c i).Fits) {site : Site}
    {reply : Reply} (hm : Move c p i (.exec site (.selectRowid user)) reply p')
    (hafter : Op.afterRow (.exec site (.selectRowid user))) : 0 < rowidOf reply := by
  obtain ⟨r, hr⟩ := h.registered i _ hm.asks hafter
  rw [(hm.evals hc hf).1, rowidOf_eval, Table.rowid_of_lookup (h.lookup hr)]
  exact h.positive r hr

/-! ## What a step preserves -/

theorem inserts_pos_step (h : SoleRow c user p) (hc : (c i).Complete) (hf : (c i).Fits)
    (hm : Move c p i op a p') {op' : Op} {id : Int} (hw : p'.Waits j op')
    (hins : op'.inserts = some id) : 0 < id := by
  rcases hm.waits_cases hw with ⟨-, hw⟩ | ⟨rfl, user', hu, hbefore⟩
  · exact h.inserts_pos j op' id hw hins
  · unfold Op.inserts at hins
    split at hins
    · rename_i site id' name timestamp
      cases hins
      obtain ⟨-, -, -, h0, hlast⟩ := hbefore
      obtain ⟨reply, he, hid⟩ := after_append_singleton.mp hlast
      cases he
      rw [(hm.evals hc hf).1, nextRowidOf_eval] at hid
      have := h.positive.nextRowid_pos (by omega)
      omega
    · cases hins

theorem positive_step (h : SoleRow c user p) (hf : (c i).Fits) (hm : Move c p i op a p') :
    p'.world.state.Positive := by
  intro r hr
  rcases (hm.change hf).row hr with ⟨s, hs, hid, -⟩ | ⟨rfl, -⟩
  · rw [← hid]
    exact h.positive s hs
  · exact h.inserts_pos i _ r.id hm.asks rfl

theorem owner_step (h : SoleRow c user p) (hu : (c i).user = some user) (hf : (c i).Fits)
    (hm : Move c p i op a p') {r : Row} (hr : r ∈ p'.world.state.rows) : r.user = user := by
  rcases (hm.change hf).row hr with ⟨s, hs, -, hsu, -⟩ | ⟨-, hui, -⟩
  · rw [← hsu]
    exact h.owner s hs
  · exact Option.some.inj (hui.symm.trans hu)

theorem aims_row_step (h : SoleRow c user p) (hc : (c i).Complete) (hf : (c i).Fits)
    (ht : InTime c p i) (hm : Move c p i op a p') {id : Int} (haims : Aims p' j id) :
    ∃ r ∈ p'.world.state.rows, r.id = id := by
  rcases hm.aims_cases haims with haims | ⟨rfl, user', site, hu, hfound⟩
  · obtain ⟨s, hs, rfl⟩ := h.aims_row j id haims
    obtain ⟨r, hr, hid, -⟩ := hm.kept hf ht hs
    exact ⟨r, hr, hid⟩
  · obtain ⟨hT, s, hl, hsid⟩ := hm.found hc hf hfound
    rw [hT]
    exact ⟨s, (Table.lookup_mem hl).1, hsid⟩

theorem registered_step (h : SoleRow c user p) (hc : (c i).Complete) (hf : (c i).Fits)
    (ht : InTime c p i) (hm : Move c p i op a p') {op' : Op} (hw : p'.Waits j op')
    (hop : op'.afterRow) : ∃ r, r ∈ p'.world.state.rows := by
  have hkept : ∀ s ∈ p.world.state.rows, ∃ r, r ∈ p'.world.state.rows := fun s hs => by
    obtain ⟨r, hr, -⟩ := hm.kept hf ht hs
    exact ⟨r, hr⟩
  rcases hm.waits_cases hw with ⟨-, hw⟩ | ⟨rfl, user', hu, hbefore⟩
  · obtain ⟨s, hs⟩ := h.registered j op' hw hop
    exact hkept s hs
  rcases hbefore.afterRow hop with hop | hreg | ⟨id, reply, he, hok⟩
  · obtain ⟨s, hs⟩ := h.registered j op hm.asks hop
    exact hkept s hs
  · obtain ⟨value, id, buf, reply, he, -⟩ := hreg.colStr_some
    cases he
    obtain ⟨s, hs, -⟩ := h.aims_row j id (aims_iff.mpr ⟨_, hm.asks, rfl⟩)
    exact hkept s hs
  · cases he
    obtain ⟨rfl, hT⟩ := hm.evals hc hf
    rw [hT]
    simp only [Stmt.eval] at hok ⊢
    split at hok
    · rename_i hfresh
      rw [dif_pos hfresh]
      exact ⟨_, Table.self_mem_insert hfresh.1 hfresh.2⟩
    · cases hok

theorem step (h : SoleRow c user p) (hu : (c i).user = some user) (hc : (c i).Complete)
    (hf : (c i).Fits) (ht : InTime c p i) (halone : AloneAtInsert c p i op)
    (hm : Move c p i op a p') : SoleRow c user p' where
  toRowInv := by
    refine h.toRowInv.step hf (fun op' hop' => ?_) hm
    cases Option.some.inj (hm.asks.symm.trans hop')
    exact ⟨halone, fun user _ => checkAnswered_of_complete hc h.positive user op⟩
  positive := h.positive_step hf hm
  inserts_pos _ _ _ hw hins := h.inserts_pos_step hc hf hm hw hins
  owner _ hr := h.owner_step hu hf hm hr
  aims_row _ _ haims := h.aims_row_step hc hf ht hm haims
  registered _ _ hw hop := h.registered_step hc hf ht hm hw hop

end SoleRow

end PamSmsauth
