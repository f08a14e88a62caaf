import PamSmsauth.Lib.Scanf

/-!
# Module arguments (`pam_parse_args.c`, `pam_parse_args.h`, `otp.h`)

`pamArgParse` walks the argument list of the PAM configuration line. An argument is dispatched on
a prefix test of its whole text, in the order of the source; the value is scanned by `parseArgs`
(at most 31 bytes). The first rejected argument ends the walk: what was set before it stays, and
the caller only logs a warning. Every branch checks its value before it writes anything, so a
rejected argument leaves `arg` and `flags` as they were.

`arg.otpLen` is always between 4 and 24 and `arg.timeExpir` between 1 and 60 (`ArgInv`, kept by
every accepted argument and hence by the walk).
-/

namespace PamSmsauth

open CText

inductive OtpType where
  | alphanum | alpha | num
  deriving DecidableEq, Repr

/-! ## Flag bits -/

abbrev Flags := BitVec 32

def pamSmsauthDebug : Flags := 0x01
def pamSmsauthRelaxed : Flags := 0x02
def pamSmsauthSockpath : Flags := 0x04
def pamSmsauthOtplen : Flags := 0x08
def pamSmsauthOtptype : Flags := 0x10
def pamSmsauthExcept : Flags := 0x20
def pamSmsauthTimeexpir : Flags := 0x40

def sockPathMaxsize : Nat := 256
def exceptUsernameMaxsize : Nat := 24

/-- `struct pam_smsauth_arg`; the two arrays as all their bytes. -/
structure PamSmsauthArg where
  otpLen : Nat
  otpType : OtpType
  sockPath : List Byte
  exceptUser : List Byte
  timeExpir : Nat
  flags : Flags
  deriving DecidableEq

inductive ParserResult where
  | nullargs | ok | sockpathErr | otptypeErr | otptypevalErr | otplenErr | otplenvalErr
  | exceptErr | timeexpirErr | timeexpirvalErr | argnotdefinedErr
  deriving DecidableEq, Repr

def otplenMin : Int := 4
def otplenMax : Int := 24
def otplenDefault : Nat := 5
def timeMin : Int := 1
def timeMax : Int := 60
def timeDefault : Nat := 5

def pamArgInit : PamSmsauthArg where
  otpLen := otplenDefault
  otpType := .num
  sockPath := strncpy (lit "/var/run/smsauth/smsauth_sock") sockPathMaxsize
  exceptUser := List.replicate exceptUsernameMaxsize 0
  timeExpir := timeDefault
  flags := 0

/-! ## One argument -/

/-- The format `" %31[^# =]%*31[ =]%31[^ \n]"`. -/
def argFormat : List Directive :=
  [.space, .set 31 (fun b => b ≠ 35 && b ≠ 32 && b ≠ 61) false,
    .set 31 (fun b => b = 32 || b = 61) true, .set 31 (fun b => b ≠ 32 && b ≠ 10) false]

/-- The scanned value; `none` when fewer than two texts were assigned. -/
def parseArgs (argv : CString) : Option (List Byte) :=
  match sscanf argFormat argv.bytes with
  | [_, val] => some val
  | _ => none

/-- `!strncmp(NAME, *argv, strlen(NAME))`. -/
def isOpt (name : String) (argv : CString) : Bool :=
  strncmp (lit name) argv.bytes (lit name).length = 0

/-- The type a value names, by prefix; `none` when it names none. -/
def setOtpType (val : List Byte) : Option OtpType :=
  if strncmp (lit "alphanum") val 8 = 0 then some .alphanum
  else if strncmp (lit "alpha") val 5 = 0 then some .alpha
  else if strncmp (lit "num") val 3 = 0 then some .num
  else none

/-- One turn of the loop of `pam_arg_parse`. -/
def parseArg (arg : PamSmsauthArg) (flags : Flags) (argv : CString) :
    Except ParserResult (PamSmsauthArg × Flags) :=
  if isOpt "debug" argv then
    .ok ({ arg with flags := arg.flags ||| pamSmsauthDebug }, flags ||| pamSmsauthDebug)
  else if isOpt "sockpath" argv then
    match parseArgs argv with
    | none => .error .sockpathErr
    | some val =>
      .ok ({ arg with sockPath := strncpy val sockPathMaxsize }, flags ||| pamSmsauthSockpath)
  else if isOpt "relaxed" argv then
    .ok ({ arg with flags := arg.flags ||| pamSmsauthRelaxed }, flags ||| pamSmsauthRelaxed)
  else if isOpt "otptype" argv then
    match parseArgs argv with
    | none => .error .otptypeErr
    | some val =>
      if !isalpha (val.headD 0) then .error .otptypevalErr
      else match setOtpType val with
        | none => .error .otptypevalErr
        | some type => .ok ({ arg with otpType := type }, flags ||| pamSmsauthOtptype)
  else if isOpt "otplen" argv then
    match parseArgs argv with
    | none => .error .otplenErr
    | some val =>
      if !isdigit (val.headD 0) then .error .otplenvalErr
      else if otplenMin > atoi val ∨ atoi val > otplenMax then .error .otplenvalErr
      else .ok ({ arg with otpLen := (atoi val).toNat }, flags ||| pamSmsauthOtplen)
  else if isOpt "except" argv then
    match parseArgs argv with
    | none => .error .exceptErr
    | some val =>
      .ok ({ arg with exceptUser := strncpy val exceptUsernameMaxsize }, flags ||| pamSmsauthExcept)
  else if isOpt "expir" argv then
    match parseArgs argv with
    | none => .error .timeexpirErr
    | some val =>
      if !isdigit (val.headD 0) then .error .timeexpirvalErr
      else if timeMin > atoi val ∨ atoi val > timeMax then .error .timeexpirvalErr
      else .ok ({ arg with timeExpir := (atoi val).toNat }, flags ||| pamSmsauthTimeexpir)
  else .error .argnotdefinedErr

/-! ## The walk -/

/-- What `pam_arg_parse` returns and leaves behind. -/
structure Parsed where
  result : ParserResult
  arg : PamSmsauthArg
  flags : Flags
  deriving DecidableEq

def pamArgParse (arg : PamSmsauthArg) (flags : Flags) : List CString → Parsed
  | [] => ⟨.ok, arg, flags⟩
  | a :: argv =>
    match parseArg arg flags a with
    | .error e => ⟨e, arg, flags⟩
    | .ok (arg', flags') => pamArgParse arg' flags' argv

/-- `pam_arg_init` and `pam_arg_parse` as `pam_sm_authenticate` calls them. -/
def parse (argv : List CString) : Parsed := pamArgParse pamArgInit 0 argv

theorem pamArgParse_cons_ok {arg arg' : PamSmsauthArg} {flags flags' : Flags} {a : CString}
    (h : parseArg arg flags a = .ok (arg', flags')) (argv : List CString) :
    pamArgParse arg flags (a :: argv) = pamArgParse arg' flags' argv := by
  rw [pamArgParse, h]

theorem pamArgParse_cons_error {arg : PamSmsauthArg} {flags : Flags} {a : CString}
    {e : ParserResult} (h : parseArg arg flags a = .error e) (argv : List CString) :
    pamArgParse arg flags (a :: argv) = ⟨e, arg, flags⟩ := by
  rw [pamArgParse, h]

theorem ite_ne {α : Type} {c : Prop} [Decidable c] {x y z : α} (hx : x ≠ z) (hy : y ≠ z) :
    (if c then x else y) ≠ z := by
  split
  · exact hx
  · exact hy

theorem parseArg_error_ne_ok {arg : PamSmsauthArg} {flags : Flags} {a : CString} {e : ParserResult}
    (h : parseArg arg flags a = .error e) : e ≠ .ok := by
  have hne : parseArg arg flags a ≠ .error .ok := by
    unfold parseArg
    cases parseArgs a with
    | none =>
      repeat' apply ite_ne
      all_goals simp
    | some val =>
      dsimp only
      cases setOtpType val <;> repeat' apply ite_ne
      all_goals simp
  rintro rfl
  exact hne h

/-! ## The ranges -/

/-- What every accepted argument keeps. -/
structure ArgInv (arg : PamSmsauthArg) : Prop where
  otpLen_ge : 4 ≤ arg.otpLen
  otpLen_le : arg.otpLen ≤ 24
  timeExpir_ge : 1 ≤ arg.timeExpir
  timeExpir_le : arg.timeExpir ≤ 60
  exceptUser_length : arg.exceptUser.length = exceptUsernameMaxsize

theorem pamArgInit_inv : ArgInv pamArgInit := by
  constructor <;> simp [pamArgInit, otplenDefault, timeDefault]

/-- What an accepted argument writes: one member, with a checked value. -/
inductive ArgWrite (a : CString) (arg : PamSmsauthArg) : PamSmsauthArg → Prop
  | flags (f : Flags) : ArgWrite a arg { arg with flags := f }
  | sockPath (path : List Byte) : ArgWrite a arg { arg with sockPath := path }
  | otpType (type : OtpType) : ArgWrite a arg { arg with otpType := type }
  | otpLen (n : Nat) (hmin : 4 ≤ n) (hmax : n ≤ 24) : ArgWrite a arg { arg with otpLen := n }
  | exceptUser (val : List Byte) (hopt : isOpt "except" a = true) :
      ArgWrite a arg { arg with exceptUser := strncpy val exceptUsernameMaxsize }
  | timeExpir (n : Nat) (hmin : 1 ≤ n) (hmax : n ≤ 60) : ArgWrite a arg { arg with timeExpir := n }

/-- An accepted argument writes one member. -/
theorem parseArg_ok {arg arg' : PamSmsauthArg} {flags flags' : Flags} {a : CString}
    (h : parseArg arg flags a = .ok (arg', flags')) : ArgWrite a arg arg' := by
  rw [parseArg] at h
  by_cases hdebug : isOpt "debug" a
  · rw [if_pos hdebug] at h
    cases h
    exact .flags _
  rw [if_neg hdebug] at h
  by_cases hsockpath : isOpt "sockpath" a
  · rw [if_pos hsockpath] at h
    cases hval : parseArgs a <;> rw [hval] at h <;> cases h
    exact .sockPath _
  rw [if_neg hsockpath] at h
  by_cases hrelaxed : isOpt "relaxed" a
  · rw [if_pos hrelaxed] at h
    cases h
    exact .flags _
  rw [if_neg hrelaxed] at h
  by_cases hotptype : isOpt "otptype" a
  · rw [if_pos hotptype] at h
    split at h
    · cases h
    · split_ifs at h
      split at h <;> cases h
      exact .otpType _
  rw [if_neg hotptype] at h
  by_cases hotplen : isOpt "otplen" a
  · rw [if_pos hotplen] at h
    split at h
    · cases h
    · split_ifs at h with hd hr
      cases h
      simp only [otplenMin, otplenMax] at hr
      exact .otpLen _ (by omega) (by omega)
  rw [if_neg hotplen] at h
  by_cases hexcept : isOpt "except" a
  · rw [if_pos hexcept] at h
    cases hval : parseArgs a <;> rw [hval] at h <;> cases h
    exact .exceptUser _ hexcept
  rw [if_neg hexcept] at h
  by_cases hexpir : isOpt "expir" a
  · rw [if_pos hexpir] at h
    split at h
    · cases h
    · split_ifs at h with hd hr
      cases h
      simp only [timeMin, timeMax] at hr
      exact .timeExpir _ (by omega) (by omega)
  rw [if_neg hexpir] at h
  cases h

theorem parseArg_inv {arg arg' : PamSmsauthArg} {flags flags' : Flags} {a : CString}
    (hinv : ArgInv arg) (h : parseArg arg flags a = .ok (arg', flags')) : ArgInv arg' := by
  obtain ⟨h1, h2, h3, h4, h5⟩ := hinv
  cases parseArg_ok h with
  | flags f => exact ⟨h1, h2, h3, h4, h5⟩
  | sockPath path => exact ⟨h1, h2, h3, h4, h5⟩
  | otpType type => exact ⟨h1, h2, h3, h4, h5⟩
  | otpLen n hmin hmax => exact ⟨hmin, hmax, h3, h4, h5⟩
  | exceptUser val hopt => exact ⟨h1, h2, h3, h4, length_strncpy _ _⟩
  | timeExpir n hmin hmax => exact ⟨h1, h2, hmin, hmax, h5⟩

theorem pamArgParse_inv {arg : PamSmsauthArg} {flags : Flags} (argv : List CString)
    (hinv : ArgInv arg) : ArgInv (pamArgParse arg flags argv).arg := by
  induction argv generalizing arg flags with
  | nil => exact hinv
  | cons a argv ih =>
    cases h : parseArg arg flags a with
    | error e => rw [pamArgParse_cons_error h]; exact hinv
    | ok r => rw [pamArgParse_cons_ok h]; exact ih (parseArg_inv hinv h)

theorem parse_inv (argv : List CString) : ArgInv (parse argv).arg :=
  pamArgParse_inv argv pamArgInit_inv

/-! ## The exemption check -/

/-- A `time_t` in memory (64-bit, little-endian). -/
def le64 (n : Nat) : List Byte := (List.range 8).map fun i => (n / 256 ^ i % 256).toUInt8

/-- The string that `pam_arg.except_user` denotes: when its 24 bytes hold no NUL the reader goes
on into the next member of the struct, `time_expir`. -/
def exceptUserStr (arg : PamSmsauthArg) : List Byte :=
  cstr (arg.exceptUser ++ le64 arg.timeExpir)

/-- `ctrl & PAM_SMSAUTH_EXCEPT` and the comparison of the name with `except_user`. -/
def exceptMatch (arg : PamSmsauthArg) (ctrl : Flags) (user : CString) : Bool :=
  ctrl &&& pamSmsauthExcept ≠ 0 &&
    strncmp user.bytes (exceptUserStr arg) (exceptUserStr arg).length = 0

end PamSmsauth
