import PamSmsauth.Client

/-!
# The login (`pam_smsauth.c`)

`pamSmAuthenticate` is the flow of `pam_sm_authenticate`, cut at its four blocks: the purge of
expired rows, the row of the user, the password that is sent and registered, and the comparison
with the typed token. Its result is the exit path taken; `Exit.ret` is the PAM code returned there.
A rejected module argument is only logged.
-/

namespace PamSmsauth

open CText Eff

/-- The exit paths, in the order of the source. -/
inductive Exit where
  | userUnknown
  | exceptUser
  | gecosNotFound
  | registerInitErr
  | otpGenErr
  | smsErr (result : SmsResult) (ret : PamRet)
  | registerOtpErr
  | otpNotInput
  | otpNotFound
  | compared (otpInput otp : List Byte) (len : Nat)
  deriving DecidableEq

def Exit.ret : Exit → PamRet
  | .userUnknown => .userUnknown
  | .exceptUser => .success
  | .gecosNotFound => .ignore
  | .registerInitErr => .systemErr
  | .otpGenErr => .systemErr
  | .smsErr _ ret => ret
  | .registerOtpErr => .systemErr
  | .otpNotInput => .authinfoUnavail
  | .otpNotFound => .systemErr
  | .compared otpInput otp len => otpCmp otpInput otp len

/-- `otp_gen`; a failed allocation, open or read gives `none`. -/
def otpGen (len : Nat) (type : OtpType) : PamProg (Option CString) := do
  return (← ask (.urandom len)).map (otpText len type)

def smsSend (sockPath : List Byte) (user : UserInfo) (otp : CString) : PamProg SmsResult := do
  match ← ask (.smsRequest sockPath (jsonReqSet user (smsText otp.bytes))) with
  | some failure => return failure.result
  | none => return (← ask .smsResponse).result

/-- `user_get_info`; `none` when it returns nonzero. -/
def userGetInfo (user : CString) : PamProg (Option UserInfo) := do
  return (← ask (.getpwnam user)).bind fun gecos => (userSetInfo gecos).toOption

/-- Rows that expired before `timeNow` are dropped, if the user has a row with a timestamp. -/
def purgeExpired (user : CString) (timeNow : Int) : PamProg Unit := do
  if ← pamIsRegisteredVar .isRegisteredTimestamp user .timestamp .varint then
    let _ ← pamUnregisterExpirVars timeNow

/-- A row for the user; `false` when it had to be created and was not. -/
def registerUser (user : CString) (timeExpir : Int) : PamProg Bool := do
  if ← pamIsRegisteredVar .isRegisteredUser user .user .varchar then return true
  else pamRegisterInit user timeExpir

/-- A password for the user; the exit path when none could be sent and registered. -/
def provideOtp (arg : PamSmsauthArg) (ctrl : Flags) (user : CString) (info : UserInfo) :
    PamProg (Option Exit) := do
  if ← pamIsRegisteredVar .isRegisteredOtp user .otp .varchar then return none
  else
    match ← otpGen arg.otpLen arg.otpType with
    | none => return some .otpGenErr
    | some otp =>
      let result ← smsSend arg.sockPath info otp
      if (smsOnErr result ctrl).1 ≠ 0 then return some (.smsErr result (smsOnErr result ctrl).2)
      else if ← pamRegisterOtp user otp then return none
      else return some .registerOtpErr

/-- The typed token against the `otp` column. -/
def checkToken (user : CString) (otpLen : Nat) : PamProg Exit := do
  match ← ask .prompt with
  | none => return .otpNotInput
  | some otpInput =>
    match ← pamGetOtp user with
    | none => return .otpNotFound
    | some otp => return .compared otpInput.bytes otp otpLen

/-- The flow after the exemption check. -/
def loginUser (arg : PamSmsauthArg) (ctrl : Flags) (user : CString) (timeNow : Int) :
    PamProg Exit := do
  match ← userGetInfo user with
  | none => return .gecosNotFound
  | some info =>
    purgeExpired user timeNow
    if ← registerUser user (arg.timeExpir * 60 + timeNow) then
      match ← provideOtp arg ctrl user info with
      | some exit => return exit
      | none => checkToken user arg.otpLen
    else return .registerInitErr

def pamSmAuthenticate (argv : List CString) (pamUser : Option CString) : PamProg Exit := do
  let timeNow ← ask .time
  match pamUser with
  | none => return .userUnknown
  | some user =>
    if exceptMatch (parse argv).arg (parse argv).flags user then return .exceptUser
    else loginUser (parse argv).arg (parse argv).flags user timeNow.1

end PamSmsauth
