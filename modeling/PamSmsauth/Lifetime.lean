import PamSmsauth.Completeness

/-!
# How long a sent password lives

The timestamp of a row is set when the row is inserted, not when a password is registered in it, and
a call whose SMS fails leaves its row behind for a later call to fill. A password then dies when a
purge after the row's timestamp comes, which can be before the `expir` minutes of the call that sent
it are over (`full_lifetime_fails`). A run in which that does not happen gives every password its
full lifetime, and where the clock does not go back no other run does (`full_lifetime_iff`).

The purge is the first part of `pam_sm_authenticate` (`untilPurge`, `pamSmAuthenticate_eq`).
-/

namespace PamSmsauth

open CText Eff

/-! ## The purge step -/

/-- `pam_sm_authenticate` until the expired rows are dropped: the exit path taken before, or what
the rest goes on with. -/
def untilPurge (argv : List CString) (pamUser : Option CString) :
    PamProg (Except Exit (CString × UserInfo × TimeT)) := do
  let timeNow ← ask .time
  match pamUser with
  | none => return .error .userUnknown
  | some user =>
    if exceptMatch (parse argv).arg (parse argv).flags user then return .error .exceptUser
    else
      match ← userGetInfo user with
      | none => return .error .gecosNotFound
      | some info =>
        purgeExpired user timeNow.1
        return .ok (user, info, timeNow)

/-- The rest of `pam_sm_authenticate`. -/
def afterPurge (argv : List CString) :
    Except Exit (CString × UserInfo × TimeT) → PamProg Exit
  | .error exit => return exit
  | .ok (user, info, timeNow) => do
    if ← registerUser user ((parse argv).arg.timeExpir * 60 + timeNow.1) then
      match ← provideOtp (parse argv).arg (parse argv).flags user info with
      | some exit => return exit
      | none => checkToken user (parse argv).arg.otpLen
    else return .registerInitErr

theorem pamSmAuthenticate_eq (argv : List CString) (pamUser : Option CString) :
    pamSmAuthenticate argv pamUser = untilPurge argv pamUser >>= afterPurge argv := by
  unfold pamSmAuthenticate untilPurge
  simp only [Prog.perform_bind, Prog.ask_bind]
  congr 1
  funext timeNow
  cases pamUser with
  | none => rfl
  | some user =>
    simp only
    split
    · rfl
    · rw [Prog.bind_assoc]
      apply congrArg (userGetInfo user >>= ·)
      funext info
      cases info with
      | none => rfl
      | some info =>
        simp only
        rw [Prog.bind_assoc]
        rfl

/-- The table after the purge step of the call. -/
def Call.purged (c : Call) (T : Table) : Table := ((untilPurge c.argv c.user).run c.handler T).2

namespace Call

variable {c : Call} {T : Table} {user : CString} {s : Row}

theorem purged_eq (hc : c.Normal) (hT : T.Positive) :
    c.purged T = match c.user with
      | none => T
      | some user =>
        if exceptMatch c.arg c.ctrl user then T
        else if c.info = none then T else T.afterPurge user c.time.1 := by
  have htime : c.handler .time T = (c.time, T) := rfl
  simp only [purged, untilPurge, Prog.perform_bind, Prog.run_ask, htime]
  cases hu : c.user with
  | none => rfl
  | some user =>
    have hget : (userGetInfo user).run c.handler T = (c.info, T) := rfl
    have hpurge := purgeExpired_run hc.complete (Stmt.intact_selectRowid (hc.fits user hu)) hT
    simp only
    rw [show (exceptMatch (parse c.argv).arg (parse c.argv).flags user) =
      exceptMatch c.arg c.ctrl user from rfl]
    split
    · rfl
    · simp only [Prog.run_bind_of c.handler hget]
      cases hi : c.info with
      | none => rfl
      | some info =>
        simp only [Prog.run_bind_of c.handler hpurge, Prog.pure_def, Prog.run_ret, reduceCtorEq,
          if_false]

theorem purged_of_purges (hc : c.Normal) (hT : T.Positive) (h : c.Purges T) :
    c.purged T = T.purge c.time.1 := by
  obtain ⟨user, hu, hex, hinfo, hreg⟩ := h
  simp only [purged_eq hc hT, hu, hex, Bool.false_eq_true, if_false, hinfo, Table.afterPurge, hreg,
    if_true]

theorem purged_of_not_purges (hc : c.Normal) (hT : T.Positive) (h : ¬ c.Purges T) :
    c.purged T = T := by
  rw [purged_eq hc hT]
  cases hu : c.user with
  | none => rfl
  | some user =>
    simp only
    split_ifs with hex hinfo
    · rfl
    · rfl
    · rw [Table.afterPurge, if_neg]
      intro hreg
      exact h ⟨user, hu, Bool.not_eq_true _ |>.mp hex, hinfo, hreg⟩

/-- What is left after the purge step. -/
theorem mem_purged (hc : c.Normal) (hT : T.Positive) :
    s ∈ (c.purged T).rows ↔ s ∈ T.rows ∧ (c.Purges T → c.time.1 ≤ s.timestamp) := by
  by_cases hp : c.Purges T
  · rw [purged_of_purges hc hT hp, Table.mem_purge]
    exact and_congr_right fun _ => ⟨fun h _ => h, fun h => h hp⟩
  · rw [purged_of_not_purges hc hT hp]
    exact ⟨fun h => ⟨h, fun h' => absurd h' hp⟩, And.left⟩

theorem purged_onePerUser (hc : c.Normal) (hT : T.Positive) (hone : T.OnePerUser) :
    (c.purged T).OnePerUser :=
  fun r hr s hs => hone r ((mem_purged hc hT).mp hr).1 s ((mem_purged hc hT).mp hs).1

/-- The random words in the events of a call are those it meets. -/
theorem Delivers.words {otp : CString} (h : c.Delivers T otp) :
    ∃ words, c.words = some words ∧ otp = c.newOtp words := by
  obtain ⟨words, info, id, rfl, -, hsub⟩ := h
  have hmem : (⟨.urandom c.arg.otpLen, some words⟩ : Event pamIface) ∈ c.trace T :=
    hsub.subset (by simp)
  obtain ⟨T', hans⟩ := Prog.ans_of_mem_trace c.handler hmem
  exact ⟨words, hans, rfl⟩

theorem Delivers.registers {otp : CString} (hc : c.Normal) (hT : T.Positive)
    (hu : c.user = some user) (h : c.Delivers T otp) :
    ∃ T₂ r words, c.Registers T user T₂ r words ∧ otp = c.newOtp words := by
  obtain ⟨T₂, r, words, hreg⟩ := h.registersFor hc hT hu
  obtain ⟨words', hw, rfl⟩ := h.words
  cases hreg.words_eq.symm.trans hw
  exact ⟨T₂, r, words, hreg, rfl⟩

/-- The row that a password was registered in. -/
theorem Registers.mem {T₂ : Table} {r : Row} {words : Nat → UInt64} (hc : c.Normal)
    (hT : T.Positive) (h : c.Registers T user T₂ r words) :
    ({ r with otp := some (c.newOtp words) } : Row) ∈ (c.run T).2.rows ∧ r.user = user := by
  rw [c.run_eq_flow hc.complete hc.fits hT]
  exact Table.lookup_mem (h.lookup hT)

end Call

/-! ## Over a run -/

/-- In every later call of the run within `expir` minutes, a password that a call delivered is still
its user's after the purge step. -/
def FullLifetime (cs : List Call) : Prop :=
  ∀ pre k mid c post user otp, cs = pre ++ k :: (mid ++ c :: post) → k.user = some user →
    k.Delivers (tableAfter pre) otp → k.time.1 ≤ c.time.1 → c.time.1 ≤ k.timeExpir →
    (c.purged (tableAfter (pre ++ k :: mid))).registered user = some otp

/-- No purge within those minutes comes after the timestamp of the row that the password was
registered in. -/
def Outlives (cs : List Call) : Prop :=
  ∀ pre k mid c post user T₂ r words, cs = pre ++ k :: (mid ++ c :: post) →
    k.Registers (tableAfter pre) user T₂ r words →
    k.time.1 ≤ c.time.1 → c.time.1 ≤ k.timeExpir →
    ∀ mid₁ d mid₂, mid ++ [c] = mid₁ ++ d :: mid₂ → d.Purges (tableAfter (pre ++ k :: mid₁)) →
      d.time.1 ≤ r.timestamp

/-- The calls start in the order of the run. -/
def Ordered (cs : List Call) : Prop := cs.Pairwise fun c d => c.time.1 ≤ d.time.1

/-- A row with a password is there as long as no purge takes it. -/
theorem mem_through {cs mid : List Call} {s : Row} (h : ∀ c ∈ cs ++ mid, c.Normal)
    (hs : s ∈ (tableAfter cs).rows) (ho : s.otp ≠ none)
    (hlive : ∀ mid₁ d mid₂, mid = mid₁ ++ d :: mid₂ → d.Purges (tableAfter (cs ++ mid₁)) →
      d.time.1 ≤ s.timestamp) : s ∈ (tableAfter (cs ++ mid)).rows := by
  induction mid using List.reverseRecOn with
  | nil => rw [List.append_nil]; exact hs
  | append_singleton mid d ih =>
    have hcs : ∀ c ∈ cs ++ mid, c.Normal := normal_of_isPrefix h ⟨[d], by simp⟩
    have hd : d.Normal := h d (by simp)
    rw [← List.append_assoc, tableAfter_append_singleton, run_after hcs hd]
    apply Call.flow_kept (tableAfter_positive hcs) _ ho
    · intro hp
      exact hlive mid d [] rfl hp
    · apply ih hcs
      intro mid₁ e mid₂ hmid
      exact hlive mid₁ e (mid₂ ++ [d]) (by simp [hmid])

theorem Table.OnePerUser.registered {T : Table} (hT : T.OnePerUser) {s : Row} (hs : s ∈ T.rows) :
    T.registered s.user = s.otp := by
  rw [Table.registered, hT.lookup hs, Option.bind_some]

theorem Table.mem_of_registered {T : Table} {user otp : CString}
    (h : T.registered user = some otp) : ∃ s ∈ T.rows, s.user = user := by
  obtain ⟨s, hs, -⟩ := Option.bind_eq_some_iff.mp h
  exact ⟨s, lookup_mem hs⟩

theorem fullLifetime_of_outlives {cs : List Call} (h : ∀ c ∈ cs, c.Normal) (hout : Outlives cs) :
    FullLifetime cs := by
  rintro pre k mid c post user otp rfl hku hdel hge hle
  have hpre : ∀ d ∈ pre, d.Normal := fun d hd => h d (by simp [hd])
  have hk : k.Normal := h k (by simp)
  have hc : c.Normal := h c (by simp)
  have hmid : ∀ d ∈ (pre ++ [k]) ++ mid, d.Normal := normal_of_isPrefix h ⟨c :: post, by simp⟩
  obtain ⟨T₂, r, words, hreg, rfl⟩ := hdel.registers hk (tableAfter_positive hpre) hku
  have hlive := hout pre k mid c post user T₂ r words rfl hreg hge hle
  obtain ⟨hrow, huser⟩ := hreg.mem hk (tableAfter_positive hpre)
  rw [← tableAfter_append_singleton] at hrow
  have hthrough := mem_through hmid hrow (by simp) fun mid₁ d mid₂ hsplit hp =>
    hlive mid₁ d (mid₂ ++ [c]) (by simp [hsplit]) (by simpa using hp)
  have hT := tableAfter_positive hmid
  have hpurged : ({ r with otp := some (k.newOtp words) } : Row) ∈
      (c.purged (tableAfter ((pre ++ [k]) ++ mid))).rows :=
    (Call.mem_purged hc hT).mpr ⟨hthrough, fun hp => hlive mid c [] rfl (by simpa using hp)⟩
  have hreg' := (Call.purged_onePerUser hc hT (tableAfter_onePerUser hmid)).registered hpurged
  simpa [huser] using hreg'

theorem outlives_of_fullLifetime {cs : List Call} (h : ∀ c ∈ cs, c.Normal) (hord : Ordered cs)
    (hfull : FullLifetime cs) : Outlives cs := by
  rintro pre k mid c post user T₂ r words rfl hreg hge hle mid₁
  -- the purges before the one at `d` spare the row, so the row that `d` finds is still this one
  induction hn : mid₁.length using Nat.strong_induction_on generalizing mid₁ with
  | _ n ih =>
    intro d mid₂ hsplit hp
    have hpre : ∀ e ∈ pre, e.Normal := fun e he => h e (by simp [he])
    have hk : k.Normal := h k (by simp)
    have hcs : pre ++ k :: (mid ++ c :: post) = pre ++ k :: (mid₁ ++ d :: (mid₂ ++ post)) := by
      have := congrArg (· ++ post) hsplit
      simpa using this
    rw [hcs] at h hord hfull
    have hd : d.Normal := h d (by simp)
    have hmid : ∀ e ∈ (pre ++ [k]) ++ mid₁, e.Normal :=
      normal_of_isPrefix h ⟨d :: (mid₂ ++ post), by simp⟩
    obtain ⟨hrow, huser⟩ := hreg.mem hk (tableAfter_positive hpre)
    rw [← tableAfter_append_singleton] at hrow
    have hthrough := mem_through hmid hrow (by simp) fun mid₃ e mid₄ hsplit' hp' =>
      ih mid₃.length (by rw [← hn, hsplit']; simp) mid₃ rfl e (mid₄ ++ d :: mid₂)
        (by simp [hsplit, hsplit']) (by simpa using hp')
    have hkd : k.time.1 ≤ d.time.1 := by
      have := (List.pairwise_append.mp hord).2.1
      exact (List.pairwise_cons.mp this).1 d (by simp)
    have hdc : d.time.1 ≤ c.time.1 := by
      rcases split_of_snoc hsplit with ⟨-, rfl, -⟩ | ⟨mid₂', rfl, -⟩
      · exact le_refl _
      · have := (List.pairwise_cons.mp (List.pairwise_append.mp hord).2.1).2
        have := (List.pairwise_cons.mp (List.pairwise_append.mp this).2.1).1
        exact this c (by simp)
    have hreg' := hfull pre k mid₁ d (mid₂ ++ post) user _ rfl hreg.user_eq
      (hreg.delivers hk (tableAfter_positive hpre)) hkd (hdc.trans hle)
    obtain ⟨s, hs, hsu⟩ := Table.mem_of_registered hreg'
    rw [show pre ++ k :: mid₁ = pre ++ [k] ++ mid₁ by simp] at hs hp
    obtain ⟨hs, hspare⟩ := (Call.mem_purged hd (tableAfter_positive hmid)).mp hs
    have hone := tableAfter_onePerUser hmid s hs _ hthrough (hsu.trans huser.symm)
    rw [hone] at hspare
    exact hspare hp

theorem full_lifetime_iff {cs : List Call} (h : ∀ c ∈ cs, c.Normal) :
    (Outlives cs → FullLifetime cs) ∧ (Ordered cs → (FullLifetime cs ↔ Outlives cs)) :=
  ⟨fullLifetime_of_outlives h, fun hord =>
    ⟨outlives_of_fullLifetime h hord, fullLifetime_of_outlives h⟩⟩

theorem full_lifetime_iff_ann :
    (Outlives [.annEarly, .annLate] → FullLifetime [.annEarly, .annLate]) ∧
      (Ordered [.annEarly, .annLate] →
        (FullLifetime [.annEarly, .annLate] ↔ Outlives [.annEarly, .annLate])) := by
  apply full_lifetime_iff
  intro c hc
  rcases List.mem_pair.mp hc with rfl | rfl
  · exact Call.annEarly_normal
  · exact Call.annLate_normal

/-- The SMS of the call at 100 fails and leaves a row until 400, the call at 200 sends a password
until 500, and the call at 450 finds none. -/
theorem full_lifetime_fails :
    let failed := { Call.annEarly with response := .gateway }
    let third := { Call.annLate with time := ⟨450, by decide⟩ }
    (∀ c ∈ [failed, .annLate, third], c.Normal) ∧ ¬ FullLifetime [failed, .annLate, third] := by
  intro failed third
  have hfailed : failed.Normal := ⟨Call.annEarly_normal.complete, Call.annEarly_normal.fits⟩
  have hthird : third.Normal := by
    refine ⟨Call.annLate_normal.complete, fun user hu => ?_⟩
    cases hu
    exact (by decide : NameFits (.ofLit "ann") 750)
  have hnormal : ∀ c ∈ [failed, .annLate, third], c.Normal := by
    intro c hc
    simp only [List.mem_cons, List.not_mem_nil, or_false] at hc
    rcases hc with rfl | rfl | rfl
    · exact hfailed
    · exact Call.annLate_normal
    · exact hthird
  refine ⟨hnormal, fun h => ?_⟩
  have hpos : (tableAfter [failed]).Positive := tableAfter_positive (by simpa using hfailed)
  have hpos₂ : (tableAfter [failed, .annLate]).Positive :=
    tableAfter_positive (by simpa using ⟨hfailed, Call.annLate_normal⟩)
  have hleft : ((tableAfter [failed]).afterPurge (.ofLit "ann") 200).lookup (.ofLit "ann") =
      some ⟨1, .ofLit "ann", none, 400⟩ := by decide +kernel
  have henter := Call.annLate.enters_of_lookup rfl (by decide) (by decide) hleft
  have hreg : Call.annLate.Registers _ _ _ _ fun _ => 7 := ⟨henter, rfl, rfl, rfl⟩
  have hfound := h [failed] .annLate [] third [] _ _ rfl rfl
    (hreg.delivers Call.annLate_normal hpos) (by decide) (by decide)
  rw [List.singleton_append, Call.purged_of_purges hthird hpos₂
    ⟨.ofLit "ann", rfl, by decide, by decide, by decide⟩] at hfound
  revert hfound
  decide

end PamSmsauth
