import PamSmsauth.History

/-!
# What an accepted token is

A call of a sequential run accepts (`Call.Accepts`: `PAM_SUCCESS` through `otp_cmp`) exactly when it
gets to the comparison and the typed token agrees with the user's password in the first `otp_len`
characters (`Call.Matches`, `accepts_iff`). Nothing more is checked, so three things one would
expect of an accepted token hold under a condition only:

* it is used once (`one_time_use_iff`): no call deletes or replaces a password that was accepted,
  it goes with the row when the row is purged;
* it is not expired (`in_time_iff`): the clock is read once, at the start of the call, and
  `pam_is_data_expir` is never called;
* it is the whole password (`takes_whole_iff`): what is typed or stored beyond `otp_len` characters
  is not looked at.
-/

namespace PamSmsauth

open CText Eff

/-- `PAM_SUCCESS` through `otp_cmp`. -/
def Exit.accepted : Exit → Bool
  | .compared otpInput otp len => otpCmp otpInput otp len = .success
  | _ => false

/-- The call returns `PAM_SUCCESS` through `otp_cmp`. -/
def Call.Accepts (c : Call) (T : Table) : Prop := (c.run T).1.accepted = true

instance (c : Call) (T : Table) : Decidable (c.Accepts T) := inferInstanceAs (Decidable (_ = _))

/-- On table `T` the call gets to the comparison, and the token `input` agrees with the password
`otp` of the user's row `r`, stored or new, in the first `otp_len` characters. -/
def Call.Matches (c : Call) (T : Table) (user : CString) (r : Row) (otp input : CString) : Prop :=
  ∃ T₂ T', c.Reaches T user T₂ r otp input T' ∧
    input.bytes.take c.arg.otpLen = otp.bytes.take c.arg.otpLen

/-- The property holds of every call of the run and the table it starts from. -/
def EachCall (P : Call → Table → Prop) (cs : List Call) : Prop :=
  ∀ pre c post, cs = pre ++ c :: post → P c (tableAfter pre)

section

variable {cs : List Call} {c : Call} {user otp input : CString} {r : Row}

theorem accepts_iff (h : ∀ c ∈ cs, c.Normal) (hc : c.Normal) :
    c.Accepts (tableAfter cs) ↔
      ∃ user r otp input, c.Matches (tableAfter cs) user r otp input := by
  unfold Call.Accepts
  rw [run_after h hc]
  constructor
  · intro hacc
    cases hexit : (c.flow (tableAfter cs)).1 with
    | compared i buf n =>
      obtain ⟨user, T₂, r, otp, input, hr, -⟩ := Call.reaches_of_compared hexit
      rw [hexit] at hacc
      refine ⟨user, r, otp, input, T₂, _, hr, hr.success_iff.mp ?_⟩
      rw [hexit]
      exact of_decide_eq_true hacc
    | _ => rw [hexit] at hacc; cases hacc
  · rintro ⟨user, r, otp, input, T₂, T', hr, htake⟩
    rw [hr.flow_eq]
    exact decide_eq_true ((Call.otpCmp_fillBuffer c input otp _).mpr htake)

theorem Call.Matches.lookup (h : ∀ c ∈ cs, c.Normal) (hc : c.Normal)
    (hm : c.Matches (tableAfter cs) user r otp input) :
    (c.run (tableAfter cs)).2.lookup user = some { r with otp := some otp } := by
  obtain ⟨T₂, T', hr, -⟩ := hm
  rw [run_after h hc, hr.flow_eq]
  exact (hr.positive (tableAfter_positive h)).2

theorem Call.Matches.user_eq {T : Table} (hm : c.Matches T user r otp input) :
    c.user = some user := by
  obtain ⟨T₂, T', hr, -⟩ := hm
  exact hr.user_eq

theorem Call.Matches.typed {T : Table} (hm : c.Matches T user r otp input) :
    c.typed = some input := by
  obtain ⟨T₂, T', hr, -⟩ := hm
  exact hr.typed

theorem Call.Matches.take_eq {T : Table} (hm : c.Matches T user r otp input) :
    input.bytes.take c.arg.otpLen = otp.bytes.take c.arg.otpLen := by
  obtain ⟨T₂, T', -, htake⟩ := hm
  exact htake

theorem eachCall_congr {P Q : Call → Table → Prop} (h : ∀ c ∈ cs, c.Normal)
    (hPQ : ∀ pre c, (∀ d ∈ pre, d.Normal) → c.Normal →
      (P c (tableAfter pre) ↔ Q c (tableAfter pre))) : EachCall P cs ↔ EachCall Q cs := by
  refine forall_congr' fun pre => forall_congr' fun c => forall_congr' fun post =>
    forall_congr' fun hsplit => hPQ pre c (fun d hd => ?_) ?_
  · exact h d (by simp [hsplit, hd])
  · exact h c (by simp [hsplit])

end

/-! ## The whole token -/

/-- A token that the call accepts is the password in the row of its user. -/
def Call.TakesWhole (c : Call) (T : Table) : Prop :=
  c.Accepts T → ∃ user r input, c.user = some user ∧ c.typed = some input ∧
    (c.run T).2.lookup user = some r ∧ r.otp = some input

/-- A token that agrees with the user's password in the first `otp_len` characters agrees with it in
the rest. -/
def Call.SameTail (c : Call) (T : Table) : Prop :=
  ∀ user r otp input, c.Matches T user r otp input →
    input.bytes.drop c.arg.otpLen = otp.bytes.drop c.arg.otpLen

theorem takes_whole_iff {cs : List Call} (h : ∀ c ∈ cs, c.Normal) :
    EachCall Call.TakesWhole cs ↔ EachCall Call.SameTail cs := by
  refine eachCall_congr h fun pre c hpre hc => ?_
  unfold Call.TakesWhole
  rw [accepts_iff hpre hc]
  constructor
  · intro hw user r otp input hm
    obtain ⟨user', r', input', hu, ht, hl, ho⟩ := hw ⟨user, r, otp, input, hm⟩
    cases hu.symm.trans hm.user_eq
    cases ht.symm.trans hm.typed
    rw [hm.lookup hpre hc] at hl
    cases hl
    cases ho
    rfl
  · rintro hs ⟨user, r, otp, input, hm⟩
    have htail := hs user r otp input hm
    have hhead := hm.take_eq
    have heq : otp = input := by
      ext1
      rw [← List.take_append_drop c.arg.otpLen otp.bytes, ← hhead, ← htail, List.take_append_drop]
    exact ⟨user, _, input, hm.user_eq, hm.typed, hm.lookup hpre hc, by rw [heq]⟩

theorem takes_whole_iff_exact :
    let c := Call.ann ⟨100, by decide⟩ (.ofLit "77777")
    EachCall Call.TakesWhole [c] ↔ EachCall Call.SameTail [c] := by
  intro c
  refine takes_whole_iff fun d hd => ?_
  cases List.mem_singleton.mp hd
  exact Call.ann_normal (by decide)

/-- The password is `77777` and `otp_len` is 5; `777770` is accepted. -/
theorem takes_whole_fails :
    let c := Call.ann ⟨100, by decide⟩ (.ofLit "777770")
    c.Normal ∧ ¬ EachCall Call.TakesWhole [c] := by
  intro c
  refine ⟨Call.ann_normal (by decide), fun h => ?_⟩
  have hacc : c.Accepts .empty := by decide +kernel
  have hl : (c.run .empty).2.lookup (.ofLit "ann") =
      some ⟨1, .ofLit "ann", some (.ofLit "77777"), 400⟩ := by decide +kernel
  obtain ⟨user, r, input, hu, ht, hr, ho⟩ := h [] c [] rfl hacc
  cases hu
  rw [tableAfter_nil, hl] at hr
  cases hr
  cases ht
  revert ho
  decide

/-! ## Expiry -/

/-- A token that the call accepts arrived no later than the timestamp of the user's row. -/
def Call.InTime (c : Call) (T : Table) : Prop :=
  c.Accepts T → ∃ user r, c.user = some user ∧ (c.run T).2.lookup user = some r ∧
    c.answered ≤ r.timestamp

/-- A token that matches is typed before the row of the user expires. -/
def Call.TypedInTime (c : Call) (T : Table) : Prop :=
  ∀ user r otp input, c.Matches T user r otp input → c.answered ≤ r.timestamp

theorem in_time_iff {cs : List Call} (h : ∀ c ∈ cs, c.Normal) :
    EachCall Call.InTime cs ↔ EachCall Call.TypedInTime cs := by
  refine eachCall_congr h fun pre c hpre hc => ?_
  unfold Call.InTime
  rw [accepts_iff hpre hc]
  constructor
  · intro hin user r otp input hm
    obtain ⟨user', r', hu, hl, hts⟩ := hin ⟨user, r, otp, input, hm⟩
    cases hu.symm.trans hm.user_eq
    rw [hm.lookup hpre hc] at hl
    cases hl
    exact hts
  · rintro htyped ⟨user, r, otp, input, hm⟩
    exact ⟨user, _, hm.user_eq, hm.lookup hpre hc, htyped user r otp input hm⟩

theorem in_time_iff_at_once :
    let c := Call.ann ⟨100, by decide⟩ (.ofLit "77777")
    EachCall Call.InTime [c] ↔ EachCall Call.TypedInTime [c] := by
  intro c
  refine in_time_iff fun d hd => ?_
  cases List.mem_singleton.mp hd
  exact Call.ann_normal (by decide)

/-- The row expires at 400; the token is typed at 401. -/
theorem in_time_fails :
    let c := { Call.ann ⟨100, by decide⟩ (.ofLit "77777") with answered := 401 }
    c.Normal ∧ c.time.1 ≤ c.answered ∧ ¬ EachCall Call.InTime [c] := by
  intro c
  have hann : (Call.ann ⟨100, by decide⟩ (.ofLit "77777")).Normal := Call.ann_normal (by decide)
  refine ⟨⟨hann.complete, hann.fits⟩, by decide, fun h => ?_⟩
  have hacc : c.Accepts .empty := by decide +kernel
  have hl : (c.run .empty).2.lookup (.ofLit "ann") =
      some ⟨1, .ofLit "ann", some (.ofLit "77777"), 400⟩ := by decide +kernel
  obtain ⟨user, r, hu, hr, hts⟩ := h [] c [] rfl hacc
  cases hu
  rw [tableAfter_nil, hl] at hr
  cases hr
  revert hts
  decide

/-! ## One-time use -/

/-- Of two calls for one user that accept a token, the second accepts a password that was generated,
sent and registered after the first one. -/
def OneTimeUse (cs : List Call) : Prop :=
  ∀ pre c₁ mid c₂ post user, cs = pre ++ c₁ :: (mid ++ c₂ :: post) →
    c₁.user = some user → c₂.user = some user →
    c₁.Accepts (tableAfter pre) → c₂.Accepts (tableAfter (pre ++ c₁ :: mid)) →
    ∃ mid₁ k mid₂ r otp, mid ++ [c₂] = mid₁ ++ k :: mid₂ ∧ k.user = some user ∧
      k.Delivers (tableAfter (pre ++ c₁ :: mid₁)) otp ∧
      (c₂.run (tableAfter (pre ++ c₁ :: mid))).2.lookup user = some r ∧ r.otp = some otp

/-- After a call whose token matched, and as long as no other password is registered for its user,
no token of a later call matches the password that is still stored for him. -/
def NoReuse (cs : List Call) : Prop :=
  ∀ pre c₁ mid c₂ post user r₁ otp₁ input₁ r₂ otp₂ input₂, cs = pre ++ c₁ :: (mid ++ c₂ :: post) →
    c₁.Matches (tableAfter pre) user r₁ otp₁ input₁ →
    (∀ mid₁ k mid₂, mid = mid₁ ++ k :: mid₂ →
      ¬ k.RegistersFor (tableAfter (pre ++ c₁ :: mid₁)) user) →
    r₂.otp = some otp₂ → ¬ c₂.Matches (tableAfter (pre ++ c₁ :: mid)) user r₂ otp₂ input₂

namespace Call.Matches

variable {cs : List Call} {c : Call} {user otp input : CString} {r : Row}

/-- Without a new one, the password that is compared was in the row. -/
theorem otp_stored {T : Table} (hm : c.Matches T user r otp input) (hno : ¬ c.RegistersFor T user) :
    r.otp = some otp := by
  obtain ⟨T₂, T', hr, -⟩ := hm
  rcases hr.toEnters.provide_cases hr.provide with ⟨ho, -⟩ | ⟨words, hreg, -, -⟩
  · exact ho
  · exact absurd ⟨T₂, r, words, hreg⟩ hno

/-- A call that registers a new password finds none in the row. -/
theorem otp_none {T : Table} (hm : c.Matches T user r otp input) (hreg : c.RegistersFor T user) :
    r.otp = none := by
  obtain ⟨T₂, T', hr, -⟩ := hm
  obtain ⟨T₃, r', words, hreg⟩ := hreg
  obtain ⟨-, -, rfl⟩ := hr.toEnters.unique hreg.toEnters
  exact hreg.otp_eq

/-- The password that is compared was delivered by a call of the run, this one included, and no
later one registered another for the user. -/
theorem origin (h : ∀ d ∈ cs ++ [c], d.Normal) (hm : c.Matches (tableAfter cs) user r otp input) :
    ∃ pre k post, cs ++ [c] = pre ++ k :: post ∧ k.user = some user ∧
      k.Delivers (tableAfter pre) otp ∧
      ∀ post₁ c' post₂, post = post₁ ++ c' :: post₂ →
        ¬ c'.RegistersFor (tableAfter (pre ++ k :: post₁)) user := by
  have hcs : ∀ d ∈ cs, d.Normal := fun d hd => h d (by simp [hd])
  obtain ⟨hmem, huser⟩ := Table.lookup_mem (hm.lookup hcs (h c (by simp)))
  simp only at huser
  rw [← tableAfter_append_singleton] at hmem
  obtain ⟨pre, k, post, T₂, r', words, hsplit, hreg, rfl, hlast⟩ := row_origin h hmem rfl
  simp only [huser] at hreg hlast
  have hpre : ∀ d ∈ pre, d.Normal := fun d hd => h d (by simp [hsplit, hd])
  exact ⟨pre, k, post, hsplit, hreg.user_eq,
    hreg.delivers (h k (by simp [hsplit])) (tableAfter_positive hpre), hlast⟩

end Call.Matches

theorem noReuse_of_oneTimeUse {cs : List Call} (h : ∀ c ∈ cs, c.Normal) (honce : OneTimeUse cs) :
    NoReuse cs := by
  rintro pre c₁ mid c₂ post user r₁ otp₁ input₁ r₂ otp₂ input₂ rfl hm₁ hmid ho hm₂
  have hpre : ∀ d ∈ pre, d.Normal := fun d hd => h d (by simp [hd])
  have hpre₂ : ∀ d ∈ pre ++ c₁ :: mid, d.Normal := normal_of_isPrefix h ⟨c₂ :: post, by simp⟩
  have hc₂ : c₂.Normal := h c₂ (by simp)
  obtain ⟨mid₁, k, mid₂, r, otp, hsplit, hku, hk, -, -⟩ := honce pre c₁ mid c₂ post user rfl
    hm₁.user_eq hm₂.user_eq ((accepts_iff hpre (h c₁ (by simp))).mpr ⟨_, _, _, _, hm₁⟩)
    ((accepts_iff hpre₂ hc₂).mpr ⟨_, _, _, _, hm₂⟩)
  rcases split_of_snoc hsplit with ⟨rfl, rfl, -⟩ | ⟨mid₂', -, rfl⟩
  · -- the second call itself registers: then the row had no password
    have hnone := hm₂.otp_none (hk.registersFor hc₂ (tableAfter_positive hpre₂) hku)
    rw [hnone] at ho
    cases ho
  · have hpre₁ : ∀ e ∈ pre ++ c₁ :: mid₁, e.Normal :=
      normal_of_isPrefix h ⟨k :: (mid₂' ++ c₂ :: post), by simp⟩
    exact hmid mid₁ k mid₂' rfl
      (hk.registersFor (h k (by simp)) (tableAfter_positive hpre₁) hku)

theorem oneTimeUse_of_noReuse {cs : List Call} (h : ∀ c ∈ cs, c.Normal) (hno : NoReuse cs) :
    OneTimeUse cs := by
  rintro pre c₁ mid c₂ post user rfl hu₁ hu₂ hacc₁ hacc₂
  have hpre : ∀ d ∈ pre, d.Normal := fun d hd => h d (by simp [hd])
  have hpre₂ : ∀ d ∈ pre ++ c₁ :: mid, d.Normal := normal_of_isPrefix h ⟨c₂ :: post, by simp⟩
  have hc₂ : c₂.Normal := h c₂ (by simp)
  obtain ⟨_, r₁, otp₁, input₁, hm₁⟩ := (accepts_iff hpre (h c₁ (by simp))).mp hacc₁
  cases hu₁.symm.trans hm₁.user_eq
  obtain ⟨_, r₂, otp₂, input₂, hm₂⟩ := (accepts_iff hpre₂ hc₂).mp hacc₂
  cases hu₂.symm.trans hm₂.user_eq
  have hrun : ∀ d ∈ (pre ++ c₁ :: mid) ++ [c₂], d.Normal := normal_of_isPrefix h ⟨post, by simp⟩
  have hl := hm₂.lookup hpre₂ hc₂
  obtain ⟨pre', k, post', hsplit, hku, hdel, hlast⟩ := hm₂.origin hrun
  -- the call that registered the compared password comes after the first call, or not
  have hsplit' : (pre ++ [c₁]) ++ (mid ++ [c₂]) = pre' ++ (k :: post') := by simpa using hsplit
  rcases List.append_eq_append_iff.mp hsplit' with ⟨mid₁, rfl, hmid⟩ | ⟨pre₁, hpre₁, hmid⟩
  · exact ⟨mid₁, k, post', _, otp₂, hmid, hku, by simpa using hdel, hl, rfl⟩
  · cases pre₁ with
    | nil =>
      have heq : pre ++ [c₁] = pre' := by simpa using hpre₁
      subst heq
      exact ⟨[], k, post', _, otp₂, by simpa using hmid.symm, hku, by simpa using hdel, hl, rfl⟩
    | cons d pre₁ =>
      obtain ⟨rfl, rfl⟩ := List.cons.inj hmid
      have htable : ∀ mid₁, tableAfter (pre' ++ k :: (pre₁ ++ mid₁)) =
          tableAfter (pre ++ c₁ :: mid₁) := by
        intro mid₁
        have : pre' ++ k :: (pre₁ ++ mid₁) = pre ++ c₁ :: mid₁ := by
          simpa using congrArg (· ++ mid₁) hpre₁.symm
        rw [this]
      refine absurd hm₂ (hno pre c₁ mid c₂ post user r₁ otp₁ input₁ r₂ otp₂ input₂ rfl hm₁ ?_ ?_)
      · rintro mid₁ k' mid₂ rfl
        rw [← htable]
        exact hlast (pre₁ ++ mid₁) k' (mid₂ ++ [c₂]) (by simp)
      · refine hm₂.otp_stored ?_
        rw [← htable]
        exact hlast (pre₁ ++ mid) c₂ [] (by simp)

theorem one_time_use_iff {cs : List Call} (h : ∀ c ∈ cs, c.Normal) :
    OneTimeUse cs ↔ NoReuse cs :=
  ⟨noReuse_of_oneTimeUse h, oneTimeUse_of_noReuse h⟩

theorem one_time_use_iff_wrong_then_right :
    let c₁ := Call.ann ⟨100, by decide⟩ (.ofLit "00000")
    let c₂ := Call.ann ⟨200, by decide⟩ (.ofLit "77777")
    OneTimeUse [c₁, c₂] ↔ NoReuse [c₁, c₂] := by
  intro c₁ c₂
  refine one_time_use_iff fun d hd => ?_
  rcases List.mem_pair.mp hd with rfl | rfl <;> exact Call.ann_normal (by decide)

/-- Two logins with the same token, the second one before the row expires. -/
theorem one_time_use_fails :
    let c₁ := Call.ann ⟨100, by decide⟩ (.ofLit "77777")
    let c₂ := Call.ann ⟨200, by decide⟩ (.ofLit "77777")
    (∀ c ∈ [c₁, c₂], c.Normal) ∧ ¬ OneTimeUse [c₁, c₂] := by
  intro c₁ c₂
  have hnormal : ∀ c ∈ [c₁, c₂], c.Normal := by
    intro d hd
    rcases List.mem_pair.mp hd with rfl | rfl <;> exact Call.ann_normal (by decide)
  have hpos : (tableAfter [c₁]).Positive :=
    tableAfter_positive (normal_of_isPrefix hnormal ⟨[c₂], rfl⟩)
  refine ⟨hnormal, fun h => ?_⟩
  obtain ⟨mid₁, k, mid₂, r, otp, hsplit, hku, hk, -, -⟩ :=
    h [] c₁ [] c₂ [] (.ofLit "ann") rfl rfl rfl (by decide) (by decide)
  rcases split_of_snoc hsplit with ⟨rfl, rfl, -⟩ | ⟨mid₂', -, hnil⟩
  · -- the row that the second call goes on with has its password already
    obtain ⟨T₂, r', words, hreg⟩ := hk.registersFor (hnormal _ (by simp)) hpos hku
    have hrow : (((tableAfter [c₁]).afterPurge (.ofLit "ann") 200).afterRegister (.ofLit "ann")
        c₂.timeExpir).map (·.2.otp) = some (some (.ofLit "77777")) := by decide +kernel
    rw [show ((tableAfter [c₁]).afterPurge (.ofLit "ann") 200).afterRegister (.ofLit "ann")
      c₂.timeExpir = _ from hreg.register, Option.map_some, hreg.otp_eq] at hrow
    revert hrow
    decide
  · simp at hnil

end PamSmsauth
