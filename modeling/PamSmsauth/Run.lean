import PamSmsauth.Flow

/-!
# Sequential runs

A sequential run is a list of calls, executed one after the other from the empty table;
`tableAfter cs` is the table it leaves. In a run of `Normal` calls (all statements complete, the
user name fits) every table has positive ids, so every call of the run is its closed form
(`run_after`).

`Call.Path` lists the ways through a call once and for all, each with what decides it: the call and
the table it starts from. A call that has the row of its user `Enters`, one that gets to `otp_cmp`
`Reaches` it, one that sends and registers a new password `Registers` it. What follows about the
rows a call leaves is `flow_mem`.
-/

namespace PamSmsauth

open CText Eff

/-- The statements complete and the name fits. -/
structure Call.Normal (c : Call) : Prop where
  complete : c.Complete
  fits : c.Fits

/-- A call of `user` that meets no failure: `word` is every random word. -/
def Call.smooth (argv : List CString) (user : CString) (time : TimeT) (word : UInt64)
    (typed : CString) : Call where
  argv := argv
  user := some user
  time := time
  gecos := some (.ofLit "[Ann;11;5550000;claro;")
  words := some fun _ => word
  request := none
  response := .ok
  typed := some typed
  answered := time.1
  buffer := fun _ => ⟨List.replicate (varMaxlen + 1) 0, by decide⟩
  outcome := fun _ => .ok
  foreign := fun _ T => (⟨[], .error⟩, T)

theorem Call.smooth_normal {argv : List CString} {user : CString} {time : TimeT} {word : UInt64}
    {typed : CString} (h : NameFits user ((parse argv).arg.timeExpir * 60 + time.1)) :
    (Call.smooth argv user time word typed).Normal where
  complete _ := rfl
  fits user hu := by cases hu; exact h

/-- A smooth call of `ann` without arguments; the password it makes is `77777`. -/
def Call.ann (time : TimeT) (typed : CString) : Call := .smooth [] (.ofLit "ann") time 7 typed

theorem Call.ann_normal {time : TimeT} {typed : CString}
    (h : NameFits (.ofLit "ann") (300 + time.1)) : (Call.ann time typed).Normal :=
  Call.smooth_normal h

/-- `ann` logs in at 100; a row made by this call expires at 400. -/
def Call.annEarly : Call := .ann ⟨100, by decide⟩ (.ofLit "77777")

def Call.annLate : Call := .ann ⟨200, by decide⟩ (.ofLit "77777")

theorem Call.annEarly_normal : Call.annEarly.Normal := Call.ann_normal (by decide)

theorem Call.annLate_normal : Call.annLate.Normal := Call.ann_normal (by decide)

/-! ## The ways through a call -/

/-- On table `T` the call gets past its checks and goes on with the row `r` of its user in `T₂`. -/
structure Call.Enters (c : Call) (T : Table) (user : CString) (T₂ : Table) (r : Row) : Prop where
  user_eq : c.user = some user
  notExcept : exceptMatch c.arg c.ctrl user = false
  info : c.info ≠ none
  register : (T.afterPurge user c.time.1).afterRegister user c.timeExpir = some (T₂, r)

/-- The call prompts its user, takes `input`, and compares it with the password `otp` of the row;
`T'` is the table it leaves. -/
structure Call.Reaches (c : Call) (T : Table) (user : CString) (T₂ : Table) (r : Row)
    (otp input : CString) (T' : Table) : Prop extends Call.Enters c T user T₂ r where
  provide : c.provide T₂ r = .ok (otp, T')
  typed : c.typed = some input

/-- The row has no password yet, and the call generates `otp`, sends it and registers it. -/
structure Call.Registers (c : Call) (T : Table) (user : CString) (T₂ : Table) (r : Row)
    (words : Nat → UInt64) : Prop extends Call.Enters c T user T₂ r where
  otp_eq : r.otp = none
  words_eq : c.words = some words
  sent : c.smsResult = .ok

/-- The password that the call makes of the random words. -/
def Call.newOtp (c : Call) (words : Nat → UInt64) : CString :=
  otpText c.arg.otpLen c.arg.otpType words

inductive Call.Path (c : Call) (T : Table) : Exit × Table → Prop
  | userUnknown : c.user = none → Path c T (.userUnknown, T)
  | exceptUser {user : CString} : c.user = some user → exceptMatch c.arg c.ctrl user = true →
      Path c T (.exceptUser, T)
  | gecosNotFound {user : CString} : c.user = some user → c.info = none →
      Path c T (.gecosNotFound, T)
  | registerInitErr {user : CString} : c.user = some user →
      Path c T (.registerInitErr, T.afterPurge user c.time.1)
  | otpGenErr {user : CString} {T₂ : Table} {r : Row} : c.Enters T user T₂ r →
      Path c T (.otpGenErr, T₂)
  | smsErr {user : CString} {T₂ : Table} {r : Row} : c.Enters T user T₂ r →
      Path c T (.smsErr c.smsResult (smsOnErr c.smsResult c.ctrl).2, T₂)
  | otpNotInput {user otp : CString} {T₂ T' : Table} {r : Row} : c.Enters T user T₂ r →
      c.provide T₂ r = .ok (otp, T') → Path c T (.otpNotInput, T')
  | compared {user otp input : CString} {T₂ T' : Table} {r : Row} :
      c.Reaches T user T₂ r otp input T' →
      Path c T (.compared input.bytes (fillBuffer otp.bytes (c.buffer .getOtp).1) c.arg.otpLen, T')

namespace Call

variable {c : Call} {T T₂ T' : Table} {user otp input : CString} {r : Row}

theorem path (c : Call) (T : Table) : c.Path T (c.flow T) := by
  unfold flow
  cases hu : c.user with
  | none => exact .userUnknown hu
  | some user =>
    by_cases hex : exceptMatch c.arg c.ctrl user = true
    · simp only [if_pos hex]
      exact .exceptUser hu hex
    · simp only [if_neg hex, login]
      by_cases hi : c.info = none
      · simp only [if_pos hi]
        exact .gecosNotFound hu hi
      · simp only [if_neg hi]
        cases hr : (T.afterPurge user c.time.1).afterRegister user c.timeExpir with
        | none => exact .registerInitErr hu
        | some p =>
          obtain ⟨T₂, r⟩ := p
          have he : c.Enters T user T₂ r := ⟨hu, by simpa using hex, hi, hr⟩
          simp only
          cases hp : c.provide T₂ r with
          | error exit =>
            simp only
            unfold provide at hp
            split at hp
            · cases hp
            · cases hp; exact .otpGenErr he
            · split_ifs at hp
              cases hp; exact .smsErr he
          | ok q =>
            obtain ⟨otp, T'⟩ := q
            simp only [check]
            cases ht : c.typed with
            | none => exact .otpNotInput he hp
            | some input => exact .compared ⟨he, hp, ht⟩

/-- What `provide` gives was in the row, or is new. -/
theorem Enters.provide_cases (h : c.Enters T user T₂ r) (hp : c.provide T₂ r = .ok (otp, T')) :
    (r.otp = some otp ∧ T' = T₂) ∨
    ∃ words, c.Registers T user T₂ r words ∧ otp = c.newOtp words ∧ T' = T₂.setOtp otp r.id := by
  unfold provide at hp
  split at hp
  · rename_i ho
    cases hp
    exact .inl ⟨ho, rfl⟩
  · cases hp
  · rename_i words ho hw
    split_ifs at hp with hok
    cases hp
    exact .inr ⟨words, ⟨h, ho, hw, hok⟩, rfl, rfl⟩

theorem Reaches.flow_eq (h : c.Reaches T user T₂ r otp input T') :
    c.flow T = (.compared input.bytes (fillBuffer otp.bytes (c.buffer .getOtp).1) c.arg.otpLen,
      T') := by
  simp [flow, login, h.user_eq, h.notExcept, h.info, h.register, h.provide, check, h.typed]

theorem reaches_of_compared {i buf : List Byte} {n : Nat} (h : (c.flow T).1 = .compared i buf n) :
    ∃ user T₂ r otp input, c.Reaches T user T₂ r otp input (c.flow T).2 ∧ i = input.bytes := by
  have hp := c.path T
  generalize c.flow T = e at h hp ⊢
  cases hp <;> cases h
  rename_i user otp input T₂ T' r hr
  exact ⟨user, T₂, r, otp, input, hr, rfl⟩

/-- At a length the parser admits, `otp_cmp` with a filled buffer compares the texts. -/
theorem otpCmp_fillBuffer (c : Call) (input otp : CString) (buf : List Byte) :
    otpCmp input.bytes (fillBuffer otp.bytes buf) c.arg.otpLen = .success ↔
      input.bytes.take c.arg.otpLen = otp.bytes.take c.arg.otpLen := by
  have hlen : c.arg.otpLen ≤ varMaxlen := (parse_inv c.argv).otpLen_le.trans (by decide)
  rw [otpCmp_eq_success_iff, cstr_fillBuffer, input.cstr_bytes, List.take_take,
    Nat.min_eq_left hlen]

theorem Reaches.success_iff (h : c.Reaches T user T₂ r otp input T') :
    (c.flow T).1.ret = .success ↔
      input.bytes.take c.arg.otpLen = otp.bytes.take c.arg.otpLen := by
  rw [h.flow_eq]
  exact otpCmp_fillBuffer c input otp _

/-- The row is determined by the call and the table. -/
theorem Enters.unique {user₁ : CString} {T₃ : Table} {r₁ : Row} (h : c.Enters T user T₂ r)
    (h' : c.Enters T user₁ T₃ r₁) : user₁ = user ∧ T₃ = T₂ ∧ r₁ = r := by
  have hu := h'.user_eq.symm.trans h.user_eq
  cases hu
  have hr := h'.register.symm.trans h.register
  cases hr
  exact ⟨rfl, rfl, rfl⟩

/-- The ways to return `PAM_SUCCESS`: the exemption, the `relaxed` option after an SMS failure, and
a matching token. -/
theorem flow_success (h : (c.flow T).1.ret = .success) :
    (∃ user, c.user = some user ∧ exceptMatch c.arg c.ctrl user = true) ∨
    (c.ctrl &&& pamSmsauthRelaxed ≠ 0 ∧
      (c.smsResult = .conn2serverErr ∨ c.smsResult = .gatewayErr) ∧
      (c.flow T).1 = .smsErr c.smsResult .success) ∨
    ∃ user T₂ r otp input, c.Reaches T user T₂ r otp input (c.flow T).2 := by
  have hp := c.path T
  generalize c.flow T = e at h hp ⊢
  cases hp with
  | exceptUser hu hex => exact .inl ⟨_, hu, hex⟩
  | smsErr he =>
    have hs := smsOnErr_success h
    exact .inr (.inl ⟨hs.1, hs.2, by rw [show (smsOnErr c.smsResult c.ctrl).2 = .success from h]⟩)
  | compared hr => exact .inr (.inr ⟨_, _, _, _, _, hr⟩)
  | userUnknown => cases h
  | gecosNotFound => cases h
  | registerInitErr => cases h
  | otpGenErr => cases h
  | otpNotInput => cases h

end Call

/-! ## The rows a call leaves -/

theorem Table.mem_afterPurge {T : Table} {user : CString} {time : Int} {s : Row}
    (h : s ∈ (T.afterPurge user time).rows) : s ∈ T.rows := by
  unfold afterPurge at h
  split at h
  · exact (mem_purge.mp h).1
  · exact h

theorem Table.mem_afterRegister {T T₂ : Table} {user : CString} {timestamp : Int} {r s : Row}
    (h : T.afterRegister user timestamp = some (T₂, r))
    (hs : s ∈ T₂.rows) :
    s ∈ T.rows ∨ T.lookup user = none ∧ s = r ∧ s.user = user ∧ s.otp = none ∧
      s.timestamp = timestamp := by
  unfold afterRegister at h
  split at h
  · cases h
    exact .inl hs
  · rename_i hl
    split_ifs at h with hneg
    cases h
    rcases (mem_add (by omega)).mp hs with rfl | hs
    · exact .inr ⟨hl, rfl, rfl, rfl, rfl⟩
    · exact .inl hs

namespace Call

variable {c : Call} {T T₂ T' : Table} {user otp input : CString} {r : Row}

theorem Enters.positive (hT : T.Positive) (h : c.Enters T user T₂ r) :
    T₂.Positive ∧ T₂.lookup user = some r :=
  (hT.afterPurge user c.time.1).afterRegister h.register

theorem Enters.mem (h : c.Enters T user T₂ r) {s : Row} (hs : s ∈ T₂.rows) :
    s ∈ T.rows ∨ s.user = user ∧ s.otp = none ∧ s.timestamp = c.timeExpir := by
  rcases Table.mem_afterRegister h.register hs with hs | hs
  · exact .inl (Table.mem_afterPurge hs)
  · exact .inr hs.2.2

/-- The table of a call: its rows were there, or are new, or hold the new password. -/
theorem flow_mem (hT : T.Positive) {s : Row} (hs : s ∈ (c.flow T).2.rows) :
    s ∈ T.rows ∨
    (c.user = some s.user ∧ s.otp = none ∧ s.timestamp = c.timeExpir) ∨
    ∃ T₂ r words, c.Registers T s.user T₂ r words ∧
      s = { r with otp := some (c.newOtp words) } := by
  have henter : ∀ {user T₂ r}, c.Enters T user T₂ r → s ∈ T₂.rows → s ∈ T.rows ∨
      (c.user = some s.user ∧ s.otp = none ∧ s.timestamp = c.timeExpir) := by
    intro user T₂ r he hs
    rcases he.mem hs with hs | ⟨rfl, h1, h2⟩
    · exact .inl hs
    · exact .inr ⟨he.user_eq, h1, h2⟩
  have hprovide : ∀ {user T₂ r otp T'}, c.Enters T user T₂ r → c.provide T₂ r = .ok (otp, T') →
      s ∈ T'.rows → s ∈ T.rows ∨
        (c.user = some s.user ∧ s.otp = none ∧ s.timestamp = c.timeExpir) ∨
        ∃ T₂ r words, c.Registers T s.user T₂ r words ∧
          s = { r with otp := some (c.newOtp words) } := by
    intro user T₂ r otp T' he hp hs
    obtain ⟨hT₂, hl⟩ := he.positive hT
    rcases he.provide_cases hp with ⟨-, rfl⟩ | ⟨words, hreg, rfl, rfl⟩
    · exact (henter he hs).imp_right .inl
    · obtain ⟨s', hs', rfl⟩ := Table.mem_setOtp.mp hs
      by_cases hid : s'.id = r.id
      · obtain rfl := Table.eq_of_id_eq hs' (Table.lookup_mem hl).1 hid
        refine .inr (.inr ⟨T₂, s', words, ?_, by simp⟩)
        simpa [(Table.lookup_mem hl).2] using hreg
      · rw [if_neg hid]
        simp only [if_neg hid] at henter
        exact (henter he hs').imp_right .inl
  have hp := c.path T
  generalize c.flow T = e at hs hp
  cases hp with
  | userUnknown => exact .inl hs
  | exceptUser => exact .inl hs
  | gecosNotFound => exact .inl hs
  | registerInitErr => exact .inl (Table.mem_afterPurge hs)
  | otpGenErr he => exact (henter he hs).imp_right .inl
  | smsErr he => exact (henter he hs).imp_right .inl
  | otpNotInput he hp => exact hprovide he hp hs
  | compared hr => exact hprovide hr.toEnters hr.provide hs

theorem Reaches.positive (hT : T.Positive) (h : c.Reaches T user T₂ r otp input T') :
    T'.Positive ∧ T'.lookup user = some { r with otp := some otp } := by
  obtain ⟨hT₂, hl⟩ := h.toEnters.positive hT
  exact provide_ok hT₂ hl h.provide

theorem flow_positive (hT : T.Positive) : (c.flow T).2.Positive := by
  intro s hs
  have hp := c.path T
  generalize c.flow T = e at hs hp
  cases hp with
  | userUnknown => exact hT s hs
  | exceptUser => exact hT s hs
  | gecosNotFound => exact hT s hs
  | registerInitErr => exact hT s (Table.mem_afterPurge hs)
  | otpGenErr he => exact (he.positive hT).1 s hs
  | smsErr he => exact (he.positive hT).1 s hs
  | otpNotInput he hp =>
    obtain ⟨hT₂, hl⟩ := he.positive hT
    exact (provide_ok hT₂ hl hp).1 s hs
  | compared hr => exact (hr.positive hT).1 s hs

end Call

/-! ## Runs -/

/-- The table that a run from the empty table leaves. -/
def tableAfter (cs : List Call) : Table := cs.foldl (fun T c => (c.run T).2) .empty

@[simp] theorem tableAfter_nil : tableAfter [] = .empty := rfl

@[simp] theorem tableAfter_append_singleton (cs : List Call) (c : Call) :
    tableAfter (cs ++ [c]) = (c.run (tableAfter cs)).2 := by
  simp [tableAfter]

theorem normal_of_isPrefix {cs ds : List Call} (h : ∀ c ∈ cs, c.Normal) (hpre : ds <+: cs) :
    ∀ c ∈ ds, c.Normal :=
  fun c hc => h c (hpre.subset hc)

/-- A run that ends with `d`, cut at one of its calls. -/
theorem split_of_snoc {cs pre post : List Call} {c d : Call} (h : cs ++ [d] = pre ++ c :: post) :
    (pre = cs ∧ c = d ∧ post = []) ∨ ∃ post', post = post' ++ [d] ∧ cs = pre ++ c :: post' := by
  rcases List.eq_nil_or_concat post with rfl | ⟨post', e, rfl⟩
  · obtain ⟨rfl, hd⟩ := List.append_inj' h rfl
    cases hd
    exact .inl ⟨rfl, rfl, rfl⟩
  · have h' : cs ++ [d] = (pre ++ c :: post') ++ [e] := by simpa using h
    obtain ⟨rfl, he⟩ := List.append_inj' h' rfl
    cases he
    exact .inr ⟨post', by simp, rfl⟩

theorem Table.empty_positive : Table.empty.Positive := by simp [Positive]

theorem tableAfter_positive {cs : List Call} (h : ∀ c ∈ cs, c.Normal) :
    (tableAfter cs).Positive := by
  induction cs using List.reverseRecOn with
  | nil => exact Table.empty_positive
  | append_singleton cs c ih =>
    have hcs := ih fun c' hc' => h c' (by simp [hc'])
    have hc := h c (by simp)
    rw [tableAfter_append_singleton, c.run_eq_flow hc.complete hc.fits hcs]
    exact Call.flow_positive hcs

/-- Every call of a run of normal calls is its closed form. -/
theorem run_after {cs : List Call} {c : Call} (h : ∀ c' ∈ cs, c'.Normal) (hc : c.Normal) :
    c.run (tableAfter cs) = c.flow (tableAfter cs) :=
  c.run_eq_flow hc.complete hc.fits (tableAfter_positive h)

end PamSmsauth
