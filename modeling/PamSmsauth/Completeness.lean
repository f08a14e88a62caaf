import PamSmsauth.Frame

/-!
# A matching token is accepted

In a sequential run every row of a user is found by its name and is the only one
(`tableAfter_onePerUser`), a live row survives the purge (`Table.afterPurge_kept`), and the password
that `provide` gives is the one a lookup finds when the call ends. So whoever types the registered
password is let in, whether it was there before the call or has just been sent, and whatever
`otp_len` this call and the registering one were given (`login_complete`).
-/

namespace PamSmsauth

open CText Eff

/-- The password of the row that a lookup by name finds. -/
def Table.registered (T : Table) (user : CString) : Option CString :=
  (T.lookup user).bind Row.otp

/-- The user has a password and its row has not expired at `time`. -/
def Table.HasLive (T : Table) (user : CString) (time : Int) : Prop :=
  ∃ r ∈ T.rows, r.user = user ∧ r.otp ≠ none ∧ time ≤ r.timestamp

namespace Call

variable {c : Call} {T T₂ T' : Table} {user otp : CString} {r : Row}

/-- A row that the purge leaves to the user is the row of the call. -/
theorem enters_of_lookup (hu : c.user = some user) (hex : exceptMatch c.arg c.ctrl user = false)
    (hinfo : c.info ≠ none) (h : (T.afterPurge user c.time.1).lookup user = some r) :
    c.Enters T user (T.afterPurge user c.time.1) r :=
  ⟨hu, hex, hinfo, by rw [Table.afterRegister, h]⟩

/-- What `provide` gives is registered when the call ends, and accepted when typed. -/
theorem Enters.registered (hT : T.Positive) (h : c.Enters T user T₂ r)
    (hp : c.provide T₂ r = .ok (otp, T')) :
    (c.flow T).2.registered user = some otp ∧
      (c.typed = some otp → (c.flow T).1.ret = .success) := by
  obtain ⟨hT₂, hl⟩ := h.positive hT
  constructor
  · rw [h.flow_snd hp, Table.registered, (provide_ok hT₂ hl hp).2]
    rfl
  · intro htyped
    have hr : c.Reaches T user T₂ r otp otp T' := ⟨h, hp, htyped⟩
    exact hr.success_iff.mpr rfl

theorem provide_of_live (h : r.otp = some otp) : c.provide T r = .ok (otp, T) := by
  simp only [provide, h]

/-- A live row of the user is the row of the call. -/
theorem enters_of_live (hone : T.OnePerUser) (hu : c.user = some r.user)
    (hex : exceptMatch c.arg c.ctrl r.user = false) (hinfo : c.info ≠ none) (hr : r ∈ T.rows)
    (hts : c.time.1 ≤ r.timestamp) :
    c.Enters T r.user (T.afterPurge r.user c.time.1) r := by
  apply enters_of_lookup hu hex hinfo
  apply (hone.afterPurge r.user c.time.1).lookup
  exact Table.afterPurge_kept hr fun _ => hts

end Call

/-- Completeness of the login over whole runs. -/
theorem login_complete {cs : List Call} {c : Call} {user : CString}
    (hrun : ∀ c' ∈ cs ++ [c], c'.Normal) (hu : c.user = some user)
    (hex : exceptMatch c.arg c.ctrl user = false) (hinfo : c.info ≠ none)
    (h : (tableAfter cs).HasLive user c.time.1 ∨
      (⟨.smsResponse, .ok⟩ : Event pamIface) ∈ c.trace (tableAfter cs)) :
    ∃ otp, (c.run (tableAfter cs)).2.registered user = some otp ∧
      (c.typed = some otp → (c.run (tableAfter cs)).1.ret = .success) := by
  have hcs : ∀ c' ∈ cs, c'.Normal := fun c' hc' => hrun c' (by simp [hc'])
  have hc := hrun c (by simp)
  have hT := tableAfter_positive hcs
  rw [run_after hcs hc]
  rcases h with ⟨r, hr, rfl, ho, hts⟩ | hsent
  · obtain ⟨otp, ho⟩ := Option.ne_none_iff_exists'.mp ho
    have henter := Call.enters_of_live (tableAfter_onePerUser hcs) hu hex hinfo hr hts
    exact ⟨otp, henter.registered hT (Call.provide_of_live ho)⟩
  · obtain ⟨T₂, r, words, hreg⟩ := Call.registersFor_of_mem_trace hc hT hu hsent (.inl rfl)
    exact ⟨_, hreg.toEnters.registered hT hreg.provide⟩

/-- The second call finds the password of the first. -/
theorem login_complete_second :
    (tableAfter [.annEarly]).HasLive (.ofLit "ann") 200 ∧
      ∃ otp, (Call.annLate.run (tableAfter [.annEarly])).2.registered (.ofLit "ann") = some otp ∧
        (Call.annLate.typed = some otp →
          (Call.annLate.run (tableAfter [.annEarly])).1.ret = .success) := by
  have hlive : (tableAfter [.annEarly]).HasLive (.ofLit "ann") 200 :=
    ⟨⟨1, .ofLit "ann", some (.ofLit "77777"), 400⟩, by decide, rfl, by decide, by decide⟩
  refine ⟨hlive, @login_complete [.annEarly] _ _ ?_ rfl (by decide) (by decide) (.inl hlive)⟩
  intro c hc
  rcases List.mem_pair.mp hc with rfl | rfl
  · exact Call.annEarly_normal
  · exact Call.annLate_normal

end PamSmsauth
