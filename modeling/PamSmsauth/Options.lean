import PamSmsauth.Args

/-!
# Arguments as options with values

An argument belongs to the first option of the source's list whose name it begins with (`optOf`).
The option says which checks its value must pass (`Opt.checks`), which member it sets (`Opt.write`)
and which bit it stands for; `parseArg_toOption` is one turn of the loop in these terms. No check
looks at what was set before, so whether an argument is accepted depends on the argument alone
(`accepts`), and the walk is a fold over the arguments before the first one that is not
(`parse_eq_foldl`).
-/

namespace PamSmsauth

open CText

inductive Opt where
  | debug | sockpath | relaxed | otptype | otplen | except | expir
  deriving DecidableEq

namespace Opt

def name : Opt → String
  | debug => "debug"
  | sockpath => "sockpath"
  | relaxed => "relaxed"
  | otptype => "otptype"
  | otplen => "otplen"
  | except => "except"
  | expir => "expir"

def bit : Opt → Flags
  | debug => pamSmsauthDebug
  | sockpath => pamSmsauthSockpath
  | relaxed => pamSmsauthRelaxed
  | otptype => pamSmsauthOtptype
  | otplen => pamSmsauthOtplen
  | except => pamSmsauthExcept
  | expir => pamSmsauthTimeexpir

/-- The number of the bit. -/
def index : Opt → Nat
  | debug => 0
  | relaxed => 1
  | sockpath => 2
  | otplen => 3
  | otptype => 4
  | except => 5
  | expir => 6

theorem bit_eq_twoPow (o : Opt) : o.bit = BitVec.twoPow 32 o.index := by
  cases o <;> decide

theorem and_bit_ne_zero_iff {flags : Flags} {o : Opt} :
    flags &&& o.bit ≠ 0 ↔ flags.getLsbD o.index = true := by
  have hpow : BitVec.twoPow 32 o.index ≠ 0 := by cases o <;> decide
  rw [bit_eq_twoPow, BitVec.and_twoPow]
  by_cases h : flags.getLsbD o.index = true
  · rw [if_pos h]
    exact iff_of_true hpow h
  · rw [if_neg h]
    exact iff_of_false (fun hne => hne rfl) h

/-- The bits of two options differ. -/
theorem getLsbD_bit_index_iff {o o' : Opt} : o'.bit.getLsbD o.index = true ↔ o' = o := by
  cases o <;> cases o' <;> decide

theorem or_bit_and_bit_ne_zero (flags : Flags) (o : Opt) : (flags ||| o.bit) &&& o.bit ≠ 0 := by
  rw [and_bit_ne_zero_iff, BitVec.getLsbD_or, getLsbD_bit_index_iff.mpr rfl, Bool.or_true]

/-- The options in the order in which the source tests for them. -/
def all : List Opt := [debug, sockpath, relaxed, otptype, otplen, except, expir]

end Opt

/-- The option an argument is taken for. -/
def optOf (a : CString) : Option Opt := Opt.all.find? fun o => isOpt o.name a

theorem isOpt_of_optOf {a : CString} {o : Opt} (h : optOf a = some o) : isOpt o.name a = true := by
  have htest := List.find?_some (p := fun o : Opt => isOpt o.name a) h
  exact htest

/-- The number that a value is taken for, if it begins with a digit and is in range. -/
def numberIn (lo hi : Int) (val : List Byte) : Option Nat :=
  if isdigit (val.headD 0) = true ∧ lo ≤ atoi val ∧ atoi val ≤ hi then some (atoi val).toNat
  else none

/-- The type that a value is taken for. -/
def typeIn (val : List Byte) : Option OtpType :=
  if isalpha (val.headD 0) = true then setOtpType val else none

namespace Opt

/-- The struct after an accepted argument of the option. -/
def write (a : CString) (arg : PamSmsauthArg) : Opt → Option PamSmsauthArg
  | debug => some { arg with flags := arg.flags ||| pamSmsauthDebug }
  | relaxed => some { arg with flags := arg.flags ||| pamSmsauthRelaxed }
  | sockpath => (parseArgs a).map fun val => { arg with sockPath := strncpy val sockPathMaxsize }
  | otptype => ((parseArgs a).bind typeIn).map fun type => { arg with otpType := type }
  | otplen =>
    ((parseArgs a).bind (numberIn otplenMin otplenMax)).map fun n => { arg with otpLen := n }
  | except =>
    (parseArgs a).map fun val => { arg with exceptUser := strncpy val exceptUsernameMaxsize }
  | expir => ((parseArgs a).bind (numberIn timeMin timeMax)).map
      fun n => { arg with timeExpir := n }

/-- The checks that the argument must pass as one of the option. -/
def checks (a : CString) : Opt → Bool
  | debug | relaxed => true
  | sockpath | except => (parseArgs a).isSome
  | otptype => ((parseArgs a).bind typeIn).isSome
  | otplen => ((parseArgs a).bind (numberIn otplenMin otplenMax)).isSome
  | expir => ((parseArgs a).bind (numberIn timeMin timeMax)).isSome

theorem isSome_write (a : CString) (arg : PamSmsauthArg) (o : Opt) :
    (o.write a arg).isSome = o.checks a := by
  cases o <;> simp only [write, checks, Option.isSome_map, Option.isSome_some]

end Opt

/-- The argument passes the checks of its option. -/
def accepts (a : CString) : Bool := (optOf a).any fun o => o.checks a

/-! ## One turn of the loop -/

theorem toOption_number (arg' : Nat → PamSmsauthArg) {flags : Flags} (lo hi : Int)
    (val : List Byte) (e : ParserResult) :
    (if !isdigit (val.headD 0) then .error e
      else if lo > atoi val ∨ atoi val > hi then .error e
      else .ok (arg' (atoi val).toNat, flags)
      : Except ParserResult (PamSmsauthArg × Flags)).toOption =
    ((numberIn lo hi val).map arg').map (·, flags) := by
  unfold numberIn
  by_cases hd : isdigit (val.headD 0) = true
  · simp only [hd, Bool.not_true, Bool.false_eq_true, if_false, true_and]
    by_cases hr : lo > atoi val ∨ atoi val > hi
    · rw [if_pos hr, if_neg (by omega)]
      rfl
    · rw [if_neg hr, if_pos (by omega)]
      rfl
  · rw [Bool.not_eq_true] at hd
    simp only [hd, Bool.not_false, if_true, Bool.false_eq_true, false_and, if_false]
    rfl

theorem find?_cons_eq_ite {α : Type} (p : α → Bool) (x : α) (xs : List α) :
    (x :: xs).find? p = if p x = true then some x else xs.find? p := by
  rw [List.find?_cons]
  cases p x <;> rfl

/-- The tests for the names, one after the other. -/
theorem optOf_eq (a : CString) : optOf a =
    if isOpt "debug" a = true then some .debug
    else if isOpt "sockpath" a = true then some .sockpath
    else if isOpt "relaxed" a = true then some .relaxed
    else if isOpt "otptype" a = true then some .otptype
    else if isOpt "otplen" a = true then some .otplen
    else if isOpt "except" a = true then some .except
    else if isOpt "expir" a = true then some .expir
    else none := by
  simp only [optOf, Opt.all, find?_cons_eq_ite, List.find?_nil, Opt.name]

theorem parseArg_toOption (arg : PamSmsauthArg) (flags : Flags) (a : CString) :
    (parseArg arg flags a).toOption =
      (optOf a).bind fun o => (o.write a arg).map fun arg' => (arg', flags ||| o.bit) := by
  rw [parseArg, optOf_eq]
  by_cases hdebug : isOpt "debug" a = true
  · rw [if_pos hdebug, if_pos hdebug]
    rfl
  rw [if_neg hdebug, if_neg hdebug]
  by_cases hsockpath : isOpt "sockpath" a = true
  · rw [if_pos hsockpath, if_pos hsockpath, Option.bind_some, Opt.write]
    cases parseArgs a <;> rfl
  rw [if_neg hsockpath, if_neg hsockpath]
  by_cases hrelaxed : isOpt "relaxed" a = true
  · rw [if_pos hrelaxed, if_pos hrelaxed]
    rfl
  rw [if_neg hrelaxed, if_neg hrelaxed]
  by_cases hotptype : isOpt "otptype" a = true
  · rw [if_pos hotptype, if_pos hotptype, Option.bind_some, Opt.write]
    cases parseArgs a with
    | none => rfl
    | some val =>
      simp only [Option.bind_some, typeIn]
      by_cases halpha : isalpha (val.headD 0) = true
      · simp only [halpha, Bool.not_true, Bool.false_eq_true, if_false, if_true]
        cases setOtpType val <;> rfl
      · rw [Bool.not_eq_true] at halpha
        simp only [halpha, Bool.not_false, if_true, Bool.false_eq_true, if_false]
        rfl
  rw [if_neg hotptype, if_neg hotptype]
  by_cases hotplen : isOpt "otplen" a = true
  · rw [if_pos hotplen, if_pos hotplen, Option.bind_some, Opt.write]
    cases parseArgs a with
    | none => rfl
    | some val => exact toOption_number (fun n => { arg with otpLen := n }) _ _ val .otplenvalErr
  rw [if_neg hotplen, if_neg hotplen]
  by_cases hexcept : isOpt "except" a = true
  · rw [if_pos hexcept, if_pos hexcept, Option.bind_some, Opt.write]
    cases parseArgs a <;> rfl
  rw [if_neg hexcept, if_neg hexcept]
  by_cases hexpir : isOpt "expir" a = true
  · rw [if_pos hexpir, if_pos hexpir, Option.bind_some, Opt.write]
    cases parseArgs a with
    | none => rfl
    | some val =>
      exact toOption_number (fun n => { arg with timeExpir := n }) _ _ val .timeexpirvalErr
  rw [if_neg hexpir, if_neg hexpir]
  rfl

/-- Whether an argument is accepted does not depend on what came before. -/
theorem parseArg_isSome (arg : PamSmsauthArg) (flags : Flags) (a : CString) :
    (parseArg arg flags a).toOption.isSome = accepts a := by
  rw [parseArg_toOption, accepts]
  cases optOf a with
  | none => rfl
  | some o => rw [Option.bind_some, Option.isSome_map, Opt.isSome_write]; rfl

/-! ## The walk -/

/-- What an accepted argument makes of struct and flags; any other leaves them. -/
def turn (s : PamSmsauthArg × Flags) (a : CString) : PamSmsauthArg × Flags :=
  (parseArg s.1 s.2 a).toOption.getD s

theorem parseArg_of_accepts {a : CString} (h : accepts a = true) (arg : PamSmsauthArg)
    (flags : Flags) : parseArg arg flags a = .ok (turn (arg, flags) a) := by
  have hsome := parseArg_isSome arg flags a
  rw [h] at hsome
  unfold turn
  cases hp : parseArg arg flags a with
  | error e => rw [hp] at hsome; cases hsome
  | ok s => rfl

theorem parseArg_of_not_accepts {a : CString} (h : accepts a = false) (arg : PamSmsauthArg)
    (flags : Flags) : ∃ e, e ≠ .ok ∧ parseArg arg flags a = .error e := by
  have hsome := parseArg_isSome arg flags a
  rw [h] at hsome
  cases hp : parseArg arg flags a with
  | error e => exact ⟨e, parseArg_error_ne_ok hp, rfl⟩
  | ok s => rw [hp] at hsome; cases hsome

/-- The walk goes over the arguments before the first rejected one, and over no other. -/
theorem pamArgParse_eq_foldl (arg : PamSmsauthArg) (flags : Flags) (argv : List CString) :
    ((pamArgParse arg flags argv).arg, (pamArgParse arg flags argv).flags) =
        (argv.takeWhile accepts).foldl turn (arg, flags) ∧
      ((pamArgParse arg flags argv).result = .ok ↔ ∀ a ∈ argv, accepts a = true) := by
  induction argv generalizing arg flags with
  | nil => exact ⟨rfl, by simp [pamArgParse]⟩
  | cons a argv ih =>
    cases ha : accepts a with
    | true =>
      obtain ⟨hfold, hok⟩ := ih (turn (arg, flags) a).1 (turn (arg, flags) a).2
      rw [pamArgParse_cons_ok (parseArg_of_accepts ha arg flags),
        List.takeWhile_cons_of_pos ha, List.foldl_cons]
      exact ⟨hfold, hok.trans (by simp [ha])⟩
    | false =>
      obtain ⟨e, hne, he⟩ := parseArg_of_not_accepts ha arg flags
      rw [pamArgParse_cons_error he, List.takeWhile_cons_of_neg (by simp [ha])]
      exact ⟨rfl, by simp [hne, ha]⟩

/-! ## Arguments with a value -/

/-- What `%31[^ \n]` reads of the text after the `=` of an argument. -/
def scannedName (name : List Byte) : List Byte :=
  scanSet 31 (fun b => b ≠ 32 && b ≠ 10)
    (name.drop (scanSet 30 (fun b => b = 32 || b = 61) name).length)

section Named

variable {a : CString} {o : Opt} {val : List Byte} (ha : a.bytes = lit o.name ++ 61 :: val)

include ha

theorem optOf_of_name : optOf a = some o := by
  unfold optOf isOpt
  rw [ha]
  cases o <;> rfl

theorem parseArgs_of_name :
    parseArgs a = if scannedName val = [] then none else some (scannedName val) := by
  have hspace : a.bytes.dropWhile isspace = a.bytes := by
    rw [ha]
    cases o <;> rfl
  have hkey : scanSet 31 (fun b => b ≠ 35 && b ≠ 32 && b ≠ 61) a.bytes = lit o.name := by
    rw [scanSet_eq_take, ha, List.takeWhile_append_of_pos (by cases o <;> decide +kernel),
      List.takeWhile_cons_of_neg (by decide), List.append_nil]
    exact List.take_of_length_le (by cases o <;> decide)
  have hrest : a.bytes.drop (lit o.name).length = 61 :: val := by
    rw [ha, List.drop_left]
  have hne : lit o.name ≠ [] := by cases o <;> decide
  have hsep : scanSet 31 (fun b => b = 32 || b = 61) (61 :: val) =
      61 :: scanSet 30 (fun b => b = 32 || b = 61) val := by
    simp [scanSet]
  simp only [parseArgs, argFormat, sscanf, hspace, hkey, hrest, hsep, List.length_cons,
    List.drop_succ_cons, if_true, hne, if_false, reduceCtorEq, Bool.false_eq_true]
  by_cases h : scannedName val = []
  · rw [if_pos h]
    unfold scannedName at h
    simp only [h, if_true]
  · rw [if_neg h]
    unfold scannedName at h ⊢
    simp only [h, if_false]

end Named

end PamSmsauth
