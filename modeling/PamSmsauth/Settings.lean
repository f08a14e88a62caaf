import PamSmsauth.Options

/-!
# The last argument of an option wins

Each accepted argument sets the member of its option and no other (`MemberOf`), so after a fold over
accepted arguments a member is what the last argument of its option makes it, and the flags are the
bits of the options that occurred (`LastWins`). A rejected argument ends the walk and writes
nothing, whence the whole meaning of an argument list (`args_last_wins`).

The name of `except` is cut to the 24 bytes of its array, where a longer one leaves no room for the
NUL (`args_terminated_iff`); the other values are kept as scanned.
-/

namespace PamSmsauth

open CText

/-- A part of the state that the steps with `p` set, each to a value of its own, and the others
keep, is in the end what the last step with `p` set it to. -/
theorem get_foldl_last {σ α β : Type} {step : σ → α → σ} (get : σ → β) (p : α → Bool)
    (val : α → β) {l : List α}
    (hstep : ∀ a ∈ l, ∀ s, get (step s a) = if p a = true then val a else get s) (s : σ) :
    get (l.foldl step s) = (l.filter p).getLast?.elim (get s) val := by
  induction l generalizing s with
  | nil => rfl
  | cons a l ih =>
    have hl := ih (fun b hb => hstep b (List.mem_cons_of_mem _ hb)) (step s a)
    rw [List.foldl_cons, hl, hstep a List.mem_cons_self]
    by_cases ha : p a = true
    · rw [if_pos ha, List.filter_cons_of_pos ha, List.getLast?_cons]
      cases (l.filter p).getLast? <;> rfl
    · rw [if_neg ha, List.filter_cons_of_neg ha]

/-- The last argument of an option. -/
def lastOf (o : Opt) (l : List CString) : Option CString :=
  (l.filter fun a => optOf a = some o).getLast?

/-- The value scanned from the last argument of an option. -/
def scanned (o : Opt) (l : List CString) : Option (List Byte) := (lastOf o l).bind parseArgs

/-- Struct and flags are what the arguments of the list say, the last one of each option counting,
and the defaults where there is none. -/
structure LastWins (l : List CString) (arg : PamSmsauthArg) (flags : Flags) : Prop where
  otpType : some arg.otpType = (scanned .otptype l).elim (some .num) setOtpType
  otpLen : arg.otpLen = (scanned .otplen l).elim otplenDefault fun val => (atoi val).toNat
  timeExpir : arg.timeExpir = (scanned .expir l).elim timeDefault fun val => (atoi val).toNat
  sockPath : arg.sockPath =
    strncpy ((scanned .sockpath l).getD (lit "/var/run/smsauth/smsauth_sock")) sockPathMaxsize
  exceptUser : arg.exceptUser = strncpy ((scanned .except l).getD []) exceptUsernameMaxsize
  scanned_none : ∀ o ∈ [Opt.sockpath, .otptype, .otplen, .except, .expir],
    scanned o l = none ↔ ∀ a ∈ l, optOf a ≠ some o
  flags : ∀ i, flags.getLsbD i = true ↔ ∃ a ∈ l, ∃ o, optOf a = some o ∧ o.bit.getLsbD i = true
  argFlags : ∀ i, arg.flags.getLsbD i = true ↔
    ∃ a ∈ l, ∃ o ∈ [Opt.debug, .relaxed], optOf a = some o ∧ o.bit.getLsbD i = true

/-! ## One turn -/

theorem accepts_cases {a : CString} (h : accepts a = true) :
    ∃ o, optOf a = some o ∧ o.checks a = true := by
  unfold accepts at h
  cases ho : optOf a with
  | none => rw [ho] at h; cases h
  | some o => exact ⟨o, rfl, by rw [ho] at h; exact h⟩

theorem turn_eq {a : CString} {o : Opt} (ho : optOf a = some o) (s : PamSmsauthArg × Flags)
    {arg' : PamSmsauthArg} (hw : o.write a s.1 = some arg') : turn s a = (arg', s.2 ||| o.bit) := by
  rw [turn, parseArg_toOption, ho, Option.bind_some, hw]
  rfl

/-- What an accepted argument of an option does to the struct. -/
inductive Writes (a : CString) : Opt → (PamSmsauthArg → PamSmsauthArg) → Prop
  | debug : Writes a .debug fun arg => { arg with flags := arg.flags ||| pamSmsauthDebug }
  | relaxed : Writes a .relaxed fun arg => { arg with flags := arg.flags ||| pamSmsauthRelaxed }
  | sockpath (val : List Byte) (hval : parseArgs a = some val) :
      Writes a .sockpath fun arg => { arg with sockPath := strncpy val sockPathMaxsize }
  | otptype (val : List Byte) (type : OtpType) (hval : parseArgs a = some val)
      (htype : setOtpType val = some type) :
      Writes a .otptype fun arg => { arg with otpType := type }
  | otplen (val : List Byte) (hval : parseArgs a = some val) :
      Writes a .otplen fun arg => { arg with otpLen := (atoi val).toNat }
  | except (val : List Byte) (hval : parseArgs a = some val) :
      Writes a .except fun arg => { arg with exceptUser := strncpy val exceptUsernameMaxsize }
  | expir (val : List Byte) (hval : parseArgs a = some val) :
      Writes a .expir fun arg => { arg with timeExpir := (atoi val).toNat }

theorem numberIn_of_isSome {a : CString} {lo hi : Int}
    (h : ((parseArgs a).bind (numberIn lo hi)).isSome = true) :
    ∃ val, parseArgs a = some val ∧
      (parseArgs a).bind (numberIn lo hi) = some (atoi val).toNat := by
  obtain ⟨n, hn⟩ := Option.isSome_iff_exists.mp h
  obtain ⟨val, hval, hnum⟩ := Option.bind_eq_some_iff.mp hn
  refine ⟨val, hval, ?_⟩
  rw [hn]
  unfold numberIn at hnum
  split_ifs at hnum
  exact hnum.symm

theorem turn_accepts {a : CString} (h : accepts a = true) : ∃ o f, optOf a = some o ∧
    Writes a o f ∧ ∀ s, turn s a = (f s.1, s.2 ||| o.bit) := by
  obtain ⟨o, ho, hchecks⟩ := accepts_cases h
  cases o with
  | debug => exact ⟨_, _, ho, .debug, fun s => turn_eq ho s rfl⟩
  | relaxed => exact ⟨_, _, ho, .relaxed, fun s => turn_eq ho s rfl⟩
  | sockpath =>
    obtain ⟨val, hval⟩ := Option.isSome_iff_exists.mp hchecks
    exact ⟨_, _, ho, .sockpath val hval, fun s => turn_eq ho s (by rw [Opt.write, hval]; rfl)⟩
  | otptype =>
    obtain ⟨type, htype⟩ := Option.isSome_iff_exists.mp hchecks
    obtain ⟨val, hval, hin⟩ := Option.bind_eq_some_iff.mp htype
    have hset : setOtpType val = some type := by
      unfold typeIn at hin
      split_ifs at hin
      exact hin
    exact ⟨_, _, ho, .otptype val type hval hset, fun s =>
      turn_eq ho s (by rw [Opt.write, htype]; rfl)⟩
  | otplen =>
    obtain ⟨val, hval, hn⟩ := numberIn_of_isSome hchecks
    exact ⟨_, _, ho, .otplen val hval, fun s => turn_eq ho s (by rw [Opt.write, hn]; rfl)⟩
  | except =>
    obtain ⟨val, hval⟩ := Option.isSome_iff_exists.mp hchecks
    exact ⟨_, _, ho, .except val hval, fun s => turn_eq ho s (by rw [Opt.write, hval]; rfl)⟩
  | expir =>
    obtain ⟨val, hval, hn⟩ := numberIn_of_isSome hchecks
    exact ⟨_, _, ho, .expir val hval, fun s => turn_eq ho s (by rw [Opt.write, hn]; rfl)⟩

/-- An accepted argument of an option with a value has one. -/
theorem parseArgs_isSome {a : CString} {o : Opt} (h : accepts a = true) (ho : optOf a = some o)
    (hval : o ∈ [Opt.sockpath, .otptype, .otplen, .except, .expir]) :
    (parseArgs a).isSome = true := by
  obtain ⟨o', f, ho', hw, -⟩ := turn_accepts h
  obtain rfl : o = o' := Option.some.inj (ho.symm.trans ho')
  cases hw with
  | debug => simp at hval
  | relaxed => simp at hval
  | sockpath val h | otptype val type h _ | otplen val h | except val h | expir val h => simp [h]

/-- A scanned value is a text of at least one byte. -/
theorem parseArgs_text {a : CString} {val : List Byte} (h : parseArgs a = some val) :
    val ≠ [] ∧ (0 : Byte) ∉ val := by
  unfold parseArgs at h
  split at h
  · rename_i var val' hscan
    obtain rfl := Option.some.inj h
    have hmem : val' ∈ sscanf argFormat a.bytes := by simp [hscan]
    exact ⟨ne_nil_of_mem_sscanf hmem, fun h0 => a.nulFree (mem_of_mem_sscanf hmem 0 h0)⟩
  · cases h

/-- A member of the struct that one option makes of the value it scans and the others keep. -/
structure MemberOf {β : Type} (o : Opt) (get : PamSmsauthArg → β) (make : List Byte → β) :
    Prop where
  sets : ∀ {a f}, Writes a o f → ∀ arg, get (f arg) = make ((parseArgs a).getD [])
  keeps : ∀ {a o' f}, Writes a o' f → o' ≠ o → ∀ arg, get (f arg) = get arg

theorem otpType_member : MemberOf .otptype (fun arg => some arg.otpType) setOtpType where
  sets
    | .otptype val type hval htype, _ => by rw [hval]; exact htype.symm
  keeps h hne _ := by
    cases h with
    | otptype => exact absurd rfl hne
    | _ => rfl

theorem otpLen_member : MemberOf .otplen (·.otpLen) fun val => (atoi val).toNat where
  sets
    | .otplen val hval, _ => by rw [hval]; rfl
  keeps h hne _ := by
    cases h with
    | otplen => exact absurd rfl hne
    | _ => rfl

theorem timeExpir_member : MemberOf .expir (·.timeExpir) fun val => (atoi val).toNat where
  sets
    | .expir val hval, _ => by rw [hval]; rfl
  keeps h hne _ := by
    cases h with
    | expir => exact absurd rfl hne
    | _ => rfl

theorem sockPath_member :
    MemberOf .sockpath (·.sockPath) fun val => strncpy val sockPathMaxsize where
  sets
    | .sockpath val hval, _ => by rw [hval]; rfl
  keeps h hne _ := by
    cases h with
    | sockpath => exact absurd rfl hne
    | _ => rfl

theorem exceptUser_member :
    MemberOf .except (·.exceptUser) fun val => strncpy val exceptUsernameMaxsize where
  sets
    | .except val hval, _ => by rw [hval]; rfl
  keeps h hne _ := by
    cases h with
    | except => exact absurd rfl hne
    | _ => rfl

section Turn

variable {a : CString} (h : accepts a = true) (s : PamSmsauthArg × Flags)

include h

theorem MemberOf.get_turn {β : Type} {o : Opt} {get : PamSmsauthArg → β} {make : List Byte → β}
    (hmem : MemberOf o get make) : get (turn s a).1 =
      if decide (optOf a = some o) = true then make ((parseArgs a).getD []) else get s.1 := by
  obtain ⟨o', f, ho', hw, hturn⟩ := turn_accepts h
  rw [hturn, ho']
  by_cases ho : o' = o
  · subst ho
    rw [if_pos (by simp)]
    exact hmem.sets hw s.1
  · rw [if_neg (by simpa using ho)]
    exact hmem.keeps hw ho s.1

theorem turn_flags (i : Nat) : (turn s a).2.getLsbD i = true ↔
    s.2.getLsbD i = true ∨ ∃ o, optOf a = some o ∧ o.bit.getLsbD i = true := by
  obtain ⟨o, f, ho, hw, hturn⟩ := turn_accepts h
  rw [hturn, BitVec.getLsbD_or, Bool.or_eq_true]
  simp [ho]

theorem turn_argFlags (i : Nat) : (turn s a).1.flags.getLsbD i = true ↔
    s.1.flags.getLsbD i = true ∨
      ∃ o ∈ [Opt.debug, .relaxed], optOf a = some o ∧ o.bit.getLsbD i = true := by
  obtain ⟨o, f, ho, hw, hturn⟩ := turn_accepts h
  rw [hturn, ho]
  cases hw with
  | debug => simp [Opt.bit]
  | relaxed => simp [Opt.bit]
  | _ => simp

end Turn

/-! ## The walk over accepted arguments -/

theorem mem_of_lastOf {o : Opt} {l : List CString} {a : CString} (h : lastOf o l = some a) :
    a ∈ l ∧ optOf a = some o := by
  have hmem := List.mem_of_getLast? h
  rw [List.mem_filter, decide_eq_true_eq] at hmem
  exact hmem

theorem lastOf_eq_none_iff {o : Opt} {l : List CString} :
    lastOf o l = none ↔ ∀ a ∈ l, optOf a ≠ some o := by
  rw [lastOf, List.getLast?_eq_none_iff, List.filter_eq_nil_iff]
  simp

section Walk

variable {l : List CString} (hl : ∀ a ∈ l, accepts a = true) {o : Opt}
  (ho : o ∈ [Opt.sockpath, .otptype, .otplen, .except, .expir])

include hl ho

theorem elim_lastOf {β : Type} (d : β) (f : List Byte → β) :
    (lastOf o l).elim d (fun a => f ((parseArgs a).getD [])) = (scanned o l).elim d f := by
  rw [scanned]
  cases hlast : lastOf o l with
  | none => rfl
  | some a =>
    obtain ⟨hmem, hopt⟩ := mem_of_lastOf hlast
    obtain ⟨val, hval⟩ := Option.isSome_iff_exists.mp (parseArgs_isSome (hl a hmem) hopt ho)
    rw [Option.bind_some, hval]
    simp [hval]

theorem MemberOf.get_foldl_turn {β : Type} {get : PamSmsauthArg → β} {make : List Byte → β}
    (hmem : MemberOf o get make) (s : PamSmsauthArg × Flags) :
    get (l.foldl turn s).1 = (scanned o l).elim (get s.1) make := by
  rw [← elim_lastOf hl ho]
  exact get_foldl_last (fun s => get s.1) (fun a => decide (optOf a = some o)) _
    (fun a ha s => hmem.get_turn (hl a ha) s) s

theorem scanned_eq_none_iff : scanned o l = none ↔ ∀ a ∈ l, optOf a ≠ some o := by
  rw [← lastOf_eq_none_iff, scanned]
  cases hlast : lastOf o l with
  | none => simp
  | some a =>
    obtain ⟨hmem, hopt⟩ := mem_of_lastOf hlast
    obtain ⟨val, hval⟩ := Option.isSome_iff_exists.mp (parseArgs_isSome (hl a hmem) hopt ho)
    simp [hval]

end Walk

theorem flags_foldl_turn {l : List CString} (hl : ∀ a ∈ l, accepts a = true)
    (s : PamSmsauthArg × Flags) (i : Nat) : (l.foldl turn s).2.getLsbD i = true ↔
      s.2.getLsbD i = true ∨ ∃ a ∈ l, ∃ o, optOf a = some o ∧ o.bit.getLsbD i = true := by
  induction l generalizing s with
  | nil => simp
  | cons a l ih =>
    rw [List.foldl_cons, ih fun b hb => hl b (List.mem_cons_of_mem _ hb),
      turn_flags (hl a List.mem_cons_self), or_assoc, List.exists_mem_cons_iff]

theorem argFlags_foldl_turn {l : List CString} (hl : ∀ a ∈ l, accepts a = true)
    (s : PamSmsauthArg × Flags) (i : Nat) : (l.foldl turn s).1.flags.getLsbD i = true ↔
      s.1.flags.getLsbD i = true ∨
        ∃ a ∈ l, ∃ o ∈ [Opt.debug, .relaxed], optOf a = some o ∧ o.bit.getLsbD i = true := by
  induction l generalizing s with
  | nil => simp
  | cons a l ih =>
    rw [List.foldl_cons, ih fun b hb => hl b (List.mem_cons_of_mem _ hb),
      turn_argFlags (hl a List.mem_cons_self), or_assoc]
    exact or_congr_right (List.exists_mem_cons_iff (fun a => ∃ o ∈ [Opt.debug, .relaxed],
      optOf a = some o ∧ o.bit.getLsbD i = true) a l).symm

theorem lastWins_foldl {l : List CString} (hl : ∀ a ∈ l, accepts a = true) :
    LastWins l (l.foldl turn (pamArgInit, 0)).1 (l.foldl turn (pamArgInit, 0)).2 where
  otpType := otpType_member.get_foldl_turn hl (by simp) _
  otpLen := otpLen_member.get_foldl_turn hl (by simp) _
  timeExpir := timeExpir_member.get_foldl_turn hl (by simp) _
  sockPath := by
    rw [sockPath_member.get_foldl_turn hl (by simp)]
    cases scanned .sockpath l <;> rfl
  exceptUser := by
    rw [exceptUser_member.get_foldl_turn hl (by simp)]
    cases scanned .except l <;> rfl
  scanned_none := fun o ho => scanned_eq_none_iff hl ho
  flags := fun i => (flags_foldl_turn hl _ i).trans (by simp)
  argFlags := fun i => (argFlags_foldl_turn hl _ i).trans (by simp [pamArgInit])

/-! ## What determines the result -/

theorem exists_opt_iff (l : List CString) (P : Opt → Prop) :
    (∃ a ∈ l, ∃ o, optOf a = some o ∧ P o) ↔
      ∃ o, (∃ a, a ∈ l.filter fun a => optOf a = some o) ∧ P o := by
  constructor
  · rintro ⟨a, ha, o, ho, hP⟩
    exact ⟨o, ⟨a, List.mem_filter.mpr ⟨ha, by simpa using ho⟩⟩, hP⟩
  · rintro ⟨o, ⟨a, ha⟩, hP⟩
    obtain ⟨ha, ho⟩ := List.mem_filter.mp ha
    exact ⟨a, ha, o, by simpa using ho, hP⟩

/-- Two lists with the same arguments of each option, in the same order, mean the same. -/
theorem LastWins.unique {l l' : List CString} {arg arg' : PamSmsauthArg} {flags flags' : Flags}
    (h : LastWins l arg flags) (h' : LastWins l' arg' flags')
    (hsame : ∀ o, (l.filter fun a => optOf a = some o) = l'.filter fun a => optOf a = some o) :
    arg = arg' ∧ flags = flags' := by
  have hscanned (o : Opt) : scanned o l = scanned o l' := by
    rw [scanned, lastOf, hsame o, ← lastOf, ← scanned]
  have hbits (P : Opt → Prop) :
      (∃ a ∈ l, ∃ o, optOf a = some o ∧ P o) ↔ ∃ a ∈ l', ∃ o, optOf a = some o ∧ P o := by
    rw [exists_opt_iff, exists_opt_iff]
    simp only [hsame]
  have hflags : flags = flags' := by
    apply BitVec.eq_of_getLsbD_eq
    intro i hi
    rw [Bool.eq_iff_iff, h.flags, h'.flags]
    exact hbits fun o => o.bit.getLsbD i = true
  have hargFlags : arg.flags = arg'.flags := by
    apply BitVec.eq_of_getLsbD_eq
    intro i hi
    have hcomm (o : Opt) (a : CString) : (o ∈ [Opt.debug, .relaxed] ∧ optOf a = some o ∧
        o.bit.getLsbD i = true) ↔
        optOf a = some o ∧ o ∈ [Opt.debug, .relaxed] ∧ o.bit.getLsbD i = true := and_left_comm
    rw [Bool.eq_iff_iff, h.argFlags, h'.argFlags]
    simp only [hcomm]
    exact hbits fun o => o ∈ [Opt.debug, .relaxed] ∧ o.bit.getLsbD i = true
  refine ⟨?_, hflags⟩
  have htype : arg.otpType = arg'.otpType :=
    Option.some.inj (by rw [h.otpType, h'.otpType, hscanned])
  have hlen : arg.otpLen = arg'.otpLen := by rw [h.otpLen, h'.otpLen, hscanned]
  have htime : arg.timeExpir = arg'.timeExpir := by rw [h.timeExpir, h'.timeExpir, hscanned]
  have hpath : arg.sockPath = arg'.sockPath := by rw [h.sockPath, h'.sockPath, hscanned]
  have hname : arg.exceptUser = arg'.exceptUser := by rw [h.exceptUser, h'.exceptUser, hscanned]
  cases arg
  cases arg'
  simp only [PamSmsauthArg.mk.injEq]
  exact ⟨hlen, htype, hpath, hname, htime, hargFlags⟩

/-! ## The whole list -/

theorem parse_eq_foldl (argv : List CString) :
    ((parse argv).arg, (parse argv).flags) =
        (argv.takeWhile accepts).foldl turn (pamArgInit, 0) ∧
      ((parse argv).result = .ok ↔ ∀ a ∈ argv, accepts a = true) :=
  pamArgParse_eq_foldl pamArgInit 0 argv

theorem lastWins_parse (argv : List CString) :
    LastWins (argv.takeWhile accepts) (parse argv).arg (parse argv).flags := by
  have hfold := (parse_eq_foldl argv).1
  have h := lastWins_foldl (l := argv.takeWhile accepts) fun a ha => List.mem_takeWhile_imp ha
  rw [← hfold] at h
  exact h

/-- The rejected argument and those after it have no effect. -/
theorem parse_takeWhile (argv : List CString) :
    (parse (argv.takeWhile accepts)).result = .ok ∧
      (parse argv).arg = (parse (argv.takeWhile accepts)).arg ∧
      (parse argv).flags = (parse (argv.takeWhile accepts)).flags := by
  have hfold := (parse_eq_foldl argv).1
  obtain ⟨hfold', hok⟩ := parse_eq_foldl (argv.takeWhile accepts)
  rw [List.takeWhile_idem, ← hfold] at hfold'
  obtain ⟨harg, hflags⟩ := Prod.mk.inj hfold'
  exact ⟨hok.mpr fun a ha => List.mem_takeWhile_imp ha, harg.symm, hflags.symm⟩

theorem parse_perm {argv argv' : List CString} (hok : (parse argv).result = .ok)
    (hperm : argv.Perm argv') (hsame : ∀ o,
      (argv.filter fun a => optOf a = some o) = argv'.filter fun a => optOf a = some o) :
    parse argv' = parse argv := by
  have hall := (parse_eq_foldl argv).2.mp hok
  have hall' : ∀ a ∈ argv', accepts a = true := fun a ha => hall a (hperm.mem_iff.mpr ha)
  have hok' := (parse_eq_foldl argv').2.mpr hall'
  have h := lastWins_parse argv
  have h' := lastWins_parse argv'
  rw [List.takeWhile_eq_self_iff.mpr hall] at h
  rw [List.takeWhile_eq_self_iff.mpr hall'] at h'
  obtain ⟨harg, hflags⟩ := h'.unique h fun o => (hsame o).symm
  calc parse argv' = ⟨(parse argv').result, (parse argv').arg, (parse argv').flags⟩ := rfl
    _ = ⟨(parse argv).result, (parse argv).arg, (parse argv).flags⟩ := by
      rw [hok', hok, harg, hflags]
    _ = parse argv := rfl

/-- The bit of an option is set just when it occurred. -/
theorem LastWins.and_bit_ne_zero_iff {l : List CString} {arg : PamSmsauthArg} {flags : Flags}
    (h : LastWins l arg flags) (o : Opt) :
    flags &&& o.bit ≠ 0 ↔ ∃ a ∈ l, optOf a = some o := by
  rw [Opt.and_bit_ne_zero_iff, h.flags]
  simp only [Opt.getLsbD_bit_index_iff, exists_eq_right]

/-- The scanned value is never empty, so neither is the name that goes with the flag. -/
theorem LastWins.exceptUser_ne_nil {l : List CString} {arg : PamSmsauthArg} {flags : Flags}
    (h : LastWins l arg flags) (hflag : flags &&& pamSmsauthExcept ≠ 0) :
    cstr arg.exceptUser ≠ [] := by
  obtain ⟨a, ha, ho⟩ := (h.and_bit_ne_zero_iff .except).mp hflag
  obtain ⟨val, hval⟩ : ∃ val, scanned .except l = some val := by
    apply Option.ne_none_iff_exists'.mp
    intro hnone
    exact (h.scanned_none .except (by simp)).mp hnone a ha ho
  have hparse : ∃ b, parseArgs b = some val := by
    obtain ⟨b, -, hb⟩ := Option.bind_eq_some_iff.mp hval
    exact ⟨b, hb⟩
  obtain ⟨b, hb⟩ := hparse
  obtain ⟨hne, hnul⟩ := parseArgs_text hb
  rw [h.exceptUser, hval, Option.getD_some, strncpy, cstr_of_nulFree hnul]
  obtain ⟨x, xs, rfl⟩ := List.exists_cons_of_ne_nil hne
  have hx : x ≠ 0 := fun hx0 => hnul (by rw [hx0]; exact List.mem_cons_self)
  show ((x :: xs.take (exceptUsernameMaxsize - 1)) ++ _).takeWhile _ ≠ []
  rw [List.cons_append, List.takeWhile_cons_of_pos (by simpa using hx)]
  exact List.cons_ne_nil _ _

theorem args_last_wins (argv : List CString) :
    (∃ l, l <+: argv ∧ (parse l).result = .ok ∧
      (l = argv ∨ ∃ a rest, argv = l ++ a :: rest ∧ (parse (l ++ [a])).result ≠ .ok) ∧
      (parse argv).arg = (parse l).arg ∧ (parse argv).flags = (parse l).flags ∧
      LastWins l (parse argv).arg (parse argv).flags) ∧
    (∀ argv', (parse argv).result = .ok → argv.Perm argv' →
      (∀ o, (argv.filter fun a => optOf a = some o) = argv'.filter fun a => optOf a = some o) →
      parse argv' = parse argv) ∧
    (4 ≤ (parse argv).arg.otpLen ∧ (parse argv).arg.otpLen ≤ 24) ∧
    (1 ≤ (parse argv).arg.timeExpir ∧ (parse argv).arg.timeExpir ≤ 60) ∧
    ((parse argv).flags &&& pamSmsauthExcept ≠ 0 → cstr (parse argv).arg.exceptUser ≠ []) := by
  have hinv := parse_inv argv
  obtain ⟨hok, harg, hflags⟩ := parse_takeWhile argv
  refine ⟨⟨argv.takeWhile accepts, List.takeWhile_prefix _, hok, ?_, harg, hflags,
    lastWins_parse argv⟩, fun argv' => parse_perm, ⟨hinv.otpLen_ge, hinv.otpLen_le⟩,
    ⟨hinv.timeExpir_ge, hinv.timeExpir_le⟩, (lastWins_parse argv).exceptUser_ne_nil⟩
  cases hdrop : argv.dropWhile accepts with
  | nil =>
    left
    have happ := List.takeWhile_append_dropWhile (p := accepts) (l := argv)
    rwa [hdrop, List.append_nil] at happ
  | cons a rest =>
    right
    have happ := List.takeWhile_append_dropWhile (p := accepts) (l := argv)
    rw [hdrop] at happ
    refine ⟨a, rest, happ.symm, fun hcut => ?_⟩
    have ha := (parse_eq_foldl (argv.takeWhile accepts ++ [a])).2.mp hcut a (by simp)
    have hnot := List.head_dropWhile_not accepts (l := argv) (by rw [hdrop]; simp)
    simp [hdrop, ha] at hnot

/-- A name of 25 letters loses the last one, so it is not the value that was scanned. -/
theorem args_last_not_whole : ¬ ∀ (argv : List CString) (val : List Byte),
    (parse argv).result = .ok → scanned .except argv = some val →
    exceptUserStr (parse argv).arg = val := by
  intro h
  have hval := h [.ofLit "except=abcdefghijklmnopqrstuvwxy"] (lit "abcdefghijklmnopqrstuvwxy")
    (by decide) (by decide)
  exact absurd hval (by decide)

/-! ## The arrays -/

/-- An array holds a NUL, so that what is read from it does not go on behind it. -/
structure Terminated (array : List Byte) : Prop where
  nul : (0 : Byte) ∈ array
  alone : ∀ rest, cstr (array ++ rest) = cstr array

theorem terminated_strncpy_iff (src : List Byte) (n : Nat) :
    Terminated (strncpy src n) ↔ (cstr src).length < n := by
  rw [← nul_mem_strncpy_iff]
  constructor
  · intro h
    exact h.nul
  · intro h
    exact ⟨h, (nul_mem_iff _).mp h⟩

theorem length_scanned_le {o : Opt} {l : List CString} {val : List Byte}
    (h : scanned o l = some val) : (cstr val).length = val.length ∧ val.length ≤ 31 := by
  obtain ⟨a, -, hval⟩ := Option.bind_eq_some_iff.mp h
  refine ⟨by rw [cstr_of_nulFree (parseArgs_text hval).2], ?_⟩
  unfold parseArgs at hval
  split at hval
  · rename_i var val' hscan
    cases hval
    have hwithin : ∀ d ∈ argFormat, d.Within 31 := by simp [argFormat, Directive.Within]
    exact length_of_mem_sscanf hwithin (by rw [hscan]; simp)
  · cases hval

/-- Where a list leaves both arrays terminated. -/
theorem args_terminated_iff (argv : List CString) :
    (Terminated (parse argv).arg.sockPath ∧ Terminated (parse argv).arg.exceptUser) ↔
      ∀ val, scanned .except (argv.takeWhile accepts) = some val →
        val.length < exceptUsernameMaxsize := by
  have hwins := lastWins_parse argv
  have hpath : Terminated (parse argv).arg.sockPath := by
    rw [hwins.sockPath, terminated_strncpy_iff]
    cases hval : scanned .sockpath (argv.takeWhile accepts) with
    | none => decide
    | some val =>
      obtain ⟨hlen, hle⟩ := length_scanned_le hval
      rw [Option.getD_some, hlen, sockPathMaxsize]
      omega
  rw [and_iff_right hpath, hwins.exceptUser, terminated_strncpy_iff]
  cases hval : scanned .except (argv.takeWhile accepts) with
  | none => simp [cstr, exceptUsernameMaxsize]
  | some val => simp [(length_scanned_le hval).1]

/-- A name of 24 letters fills its array. -/
theorem args_not_terminated : ¬ ∀ argv : List CString,
    Terminated (parse argv).arg.sockPath ∧ Terminated (parse argv).arg.exceptUser := by
  intro h
  have hnul := (h [.ofLit "except=abcdefghijklmnopqrstuvwx"]).2.nul
  exact absurd hnul (by decide)

end PamSmsauth
