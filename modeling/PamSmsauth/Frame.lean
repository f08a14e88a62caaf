import PamSmsauth.History

/-!
# What a call leaves alone

A row that holds a password and has not expired when a call starts is in the table, unchanged, when
the call ends: the purge spares it, an `INSERT` takes a new id, and the `UPDATE` of
`pam_register_otp` is only made in a row without a password. What a call removes has expired, and
it adds one row at most, to its own user (`Frame`).
-/

namespace PamSmsauth

open CText

/-- The same row up to its password. -/
def Row.Same (r s : Row) : Prop := r.id = s.id ∧ r.user = s.user ∧ r.timestamp = s.timestamp

theorem Row.Same.refl (r : Row) : r.Same r := ⟨rfl, rfl, rfl⟩

/-- No row of `T` is the row `s`. -/
def Table.Lacks (T : Table) (s : Row) : Prop := ∀ r ∈ T.rows, ¬ r.Same s

/-- The call gets to the purge and the purge is made. -/
def Call.Purges (c : Call) (T : Table) : Prop :=
  ∃ user, c.user = some user ∧ exceptMatch c.arg c.ctrl user = false ∧ c.info ≠ none ∧
    T.timestampRegistered user = true

/-- What a call that turns `T` into `T'` does not touch. -/
structure Frame (c : Call) (T T' : Table) : Prop where
  live : ∀ r ∈ T.rows, r.otp ≠ none → c.time.1 ≤ r.timestamp → r ∈ T'.rows
  removed : ∀ r ∈ T.rows, T'.Lacks r → r.timestamp < c.time.1
  added : ∀ s ∈ T'.rows, T.Lacks s → c.user = some s.user ∧ ∀ s' ∈ T'.rows, s'.id = s.id → s' = s
  added_once : ∀ s ∈ T'.rows, ∀ s' ∈ T'.rows, T.Lacks s → T.Lacks s' → s = s'

namespace Table

variable {T T₂ : Table} {user : CString} {time : Int} {r s : Row}

theorem afterPurge_kept (h : s ∈ T.rows)
    (hlive : T.timestampRegistered user = true → time ≤ s.timestamp) :
    s ∈ (T.afterPurge user time).rows := by
  unfold afterPurge
  split
  · rename_i hreg
    exact mem_purge.mpr ⟨h, hlive hreg⟩
  · exact h

theorem afterRegister_kept (h : T.afterRegister user time = some (T₂, r))
    (hs : s ∈ T.rows) : s ∈ T₂.rows := by
  unfold afterRegister at h
  split at h
  · cases h
    exact hs
  · split_ifs at h with hneg
    cases h
    exact (mem_add (by omega)).mpr (.inr hs)

/-- A row that was not there is the one that `afterRegister` names. -/
theorem eq_of_afterRegister (h : T.afterRegister user time = some (T₂, r))
    (hs : s ∈ T₂.rows) : s ∈ T.rows ∨ s = r ∧ s.user = user := by
  rcases mem_afterRegister h hs with hs | ⟨-, rfl, hu, -⟩
  · exact .inl hs
  · exact .inr ⟨rfl, hu⟩

end Table

namespace Call

variable {c : Call} {T T₂ T' : Table} {user otp : CString} {r s : Row}

theorem Enters.purges_iff (h : c.Enters T user T₂ r) :
    c.Purges T ↔ T.timestampRegistered user = true := by
  constructor
  · rintro ⟨user', hu, -, -, hreg⟩
    cases hu.symm.trans h.user_eq
    exact hreg
  · exact fun hreg => ⟨user, h.user_eq, h.notExcept, h.info, hreg⟩

theorem Enters.kept (h : c.Enters T user T₂ r) (hs : s ∈ T.rows)
    (hlive : c.Purges T → c.time.1 ≤ s.timestamp) : s ∈ T₂.rows :=
  Table.afterRegister_kept h.register
    (Table.afterPurge_kept hs fun hreg => hlive (h.purges_iff.mpr hreg))

/-- `provide` writes no row that has a password. -/
theorem Enters.provide_kept (hT : T.Positive) (h : c.Enters T user T₂ r)
    (hp : c.provide T₂ r = .ok (otp, T')) (hs : s ∈ T₂.rows) (ho : s.otp ≠ none) :
    s ∈ T'.rows := by
  rcases h.provide_cases hp with ⟨-, rfl⟩ | ⟨words, hreg, -, rfl⟩
  · exact hs
  · refine Table.mem_setOtp.mpr ⟨s, hs, ?_⟩
    rw [if_neg]
    intro hid
    obtain rfl := Table.eq_of_id_eq hs (Table.lookup_mem (h.positive hT).2).1 hid
    exact ho hreg.otp_eq

/-- `provide` keeps the rows, up to their passwords. -/
theorem Enters.provide_same (h : c.Enters T user T₂ r) (hp : c.provide T₂ r = .ok (otp, T')) :
    (∀ s ∈ T₂.rows, ∃ s' ∈ T'.rows, s'.Same s) ∧ ∀ s' ∈ T'.rows, ∃ s ∈ T₂.rows, s.Same s' := by
  rcases h.provide_cases hp with ⟨-, rfl⟩ | ⟨words, -, -, rfl⟩
  · exact ⟨fun s hs => ⟨s, hs, .refl s⟩, fun s hs => ⟨s, hs, .refl s⟩⟩
  · refine ⟨fun s hs => ⟨_, Table.mem_setOtp.mpr ⟨s, hs, rfl⟩, ?_⟩, fun s' hs' => ?_⟩
    · split <;> exact ⟨rfl, rfl, rfl⟩
    · obtain ⟨s, hs, rfl⟩ := Table.mem_setOtp.mp hs'
      refine ⟨s, hs, ?_⟩
      split <;> exact ⟨rfl, rfl, rfl⟩

theorem purges_of_registerInitErr (h : (c.flow T).1 = .registerInitErr) (hu : c.user = some user)
    (hreg : T.timestampRegistered user = true) : c.Purges T := by
  unfold flow login at h
  simp only [hu] at h
  split_ifs at h with hex hinfo
  exact ⟨user, hu, Bool.not_eq_true _ ▸ hex, hinfo, hreg⟩

/-- A row with a password stays, unless the purge of the call takes it. -/
theorem flow_kept (hT : T.Positive) (hs : s ∈ T.rows) (ho : s.otp ≠ none)
    (hlive : c.Purges T → c.time.1 ≤ s.timestamp) : s ∈ (c.flow T).2.rows := by
  have hp := c.path T
  have hinit : ∀ {user}, (c.flow T).1 = .registerInitErr → c.user = some user →
      T.timestampRegistered user = true → c.Purges T :=
    fun h hu hreg => purges_of_registerInitErr h hu hreg
  generalize c.flow T = e at hp hinit ⊢
  cases hp with
  | userUnknown => exact hs
  | exceptUser => exact hs
  | gecosNotFound => exact hs
  | registerInitErr hu => exact Table.afterPurge_kept hs fun hreg => hlive (hinit rfl hu hreg)
  | otpGenErr he => exact he.kept hs hlive
  | smsErr he => exact he.kept hs hlive
  | otpNotInput he hp => exact he.provide_kept hT hp (he.kept hs hlive) ho
  | compared hr =>
    exact hr.toEnters.provide_kept hT hr.provide (hr.toEnters.kept hs hlive) ho

end Call

/-! ## The frame of a call -/

namespace Frame

variable {c : Call} {T T₂ T' : Table} {user otp : CString} {r : Row}

theorem refl (c : Call) (T : Table) : Frame c T T where
  live _ hr _ _ := hr
  removed r hr h := absurd (.refl r) (h r hr)
  added s hs h := absurd (.refl s) (h s hs)
  added_once s hs _ _ h _ := absurd (.refl s) (h s hs)

theorem of_afterPurge (c : Call) (T : Table) (user : CString) :
    Frame c T (T.afterPurge user c.time.1) where
  live _ hr _ hts := Table.afterPurge_kept hr fun _ => hts
  removed r hr h := by
    by_contra hts
    exact h r (Table.afterPurge_kept hr fun _ => by omega) (.refl r)
  added s hs h := absurd (.refl s) (h s (Table.mem_afterPurge hs))
  added_once s hs _ _ h _ := absurd (.refl s) (h s (Table.mem_afterPurge hs))

/-- The row that a call goes on with is the only one it can have added. -/
theorem of_same (h : c.Enters T user T₂ r)
    (hkept : ∀ s ∈ T₂.rows, s.otp ≠ none → s ∈ T'.rows)
    (hsame : ∀ s ∈ T₂.rows, ∃ s' ∈ T'.rows, s'.Same s)
    (hback : ∀ s' ∈ T'.rows, ∃ s ∈ T₂.rows, s.Same s') : Frame c T T' := by
  have hadded : ∀ s' ∈ T'.rows, T.Lacks s' → s'.id = r.id ∧ s'.user = user := by
    intro s' hs' hlacks
    obtain ⟨s, hs, hid, hu, hts⟩ := hback s' hs'
    rcases Table.eq_of_afterRegister h.register hs with hs | ⟨rfl, hsu⟩
    · exact absurd ⟨hid, hu, hts⟩ (hlacks s (Table.mem_afterPurge hs))
    · exact ⟨hid.symm, hu.symm.trans hsu⟩
  refine ⟨fun s hs ho hts => hkept s (h.kept hs fun _ => hts) ho, fun s hs hlacks => ?_,
    fun s' hs' hlacks => ?_, fun s' hs' s'' hs'' hlacks hlacks' => ?_⟩
  · by_contra hts
    obtain ⟨s', hs', hsame⟩ := hsame s (h.kept hs fun _ => by omega)
    exact hlacks s' hs' hsame
  · rw [(hadded s' hs' hlacks).2]
    exact ⟨h.user_eq, fun s'' hs'' hid => Table.eq_of_id_eq hs'' hs' hid⟩
  · exact Table.eq_of_id_eq hs' hs''
      ((hadded s' hs' hlacks).1.trans (hadded s'' hs'' hlacks').1.symm)

theorem of_enters (h : c.Enters T user T₂ r) : Frame c T T₂ :=
  of_same h (fun _ hs _ => hs) (fun s hs => ⟨s, hs, .refl s⟩) fun s hs => ⟨s, hs, .refl s⟩

theorem of_provide (hT : T.Positive) (h : c.Enters T user T₂ r)
    (hp : c.provide T₂ r = .ok (otp, T')) : Frame c T T' :=
  of_same h (fun _ hs ho => h.provide_kept hT hp hs ho) (h.provide_same hp).1
    (h.provide_same hp).2

end Frame

theorem Call.flow_frame {c : Call} {T : Table} (hT : T.Positive) : Frame c T (c.flow T).2 := by
  have hp := c.path T
  generalize c.flow T = e at hp ⊢
  cases hp with
  | userUnknown => exact .refl c T
  | exceptUser => exact .refl c T
  | gecosNotFound => exact .refl c T
  | registerInitErr => exact .of_afterPurge c T _
  | otpGenErr he => exact .of_enters he
  | smsErr he => exact .of_enters he
  | otpNotInput he hp => exact .of_provide hT he hp
  | compared hr => exact .of_provide hT hr.toEnters hr.provide

/-- On every exit path, in every reachable table. -/
theorem live_row_undisturbed {cs : List Call} {c : Call} (h : ∀ d ∈ cs ++ [c], d.Normal) :
    Frame c (tableAfter cs) (c.run (tableAfter cs)).2 := by
  have hcs : ∀ d ∈ cs, d.Normal := fun d hd => h d (by simp [hd])
  rw [run_after hcs (h c (by simp))]
  exact Call.flow_frame (tableAfter_positive hcs)

/-- `ann` has a password when `bob` logs in. -/
theorem live_row_undisturbed_ann :
    let bob := { Call.annLate with user := some (.ofLit "bob") }
    Frame bob (tableAfter [.annEarly]) (bob.run (tableAfter [.annEarly])).2 := by
  intro bob
  refine live_row_undisturbed fun d hd => ?_
  rcases List.mem_pair.mp hd with rfl | rfl
  · exact Call.annEarly_normal
  · exact Call.smooth_normal (by decide : NameFits (.ofLit "bob") 500)

end PamSmsauth
