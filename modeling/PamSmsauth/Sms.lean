import PamSmsauth.Otp
import PamSmsauth.User

/-!
# The SMS request (`sms.c`, `json_proto.h`)

`sms_send` formats the message, connects to the server's socket, writes one request and waits for
one response. The ways it can fail before a response is awaited are `SendFailure`, the outcomes of
`wait4resp` are `Response`; `smsOnErr` is the switch that turns the result into a PAM code.
-/

namespace PamSmsauth

open CText

inductive SmsResult where
  | none | ok | sockcreateErr | json2strErr | writeonsockErr | readfromsockErr | snprintfErr
  | conn2serverErr | gatewayErr
  deriving DecidableEq, Repr

def smsMaxsize : Nat := 24

/-- The `sms` buffer: `snprintf(sms, sizeof sms, "** %s **", user->otp)`. -/
def smsText (otp : List Byte) : List Byte :=
  snprintf smsMaxsize (lit "** " ++ otp ++ lit " **")

/-- The fields of the request that depend on the call (`json_req_set`). -/
structure JsonPacketReq where
  ver : Nat
  cmd : Nat
  provider : List Byte
  celNumber : List Byte
  sms : List Byte
  deriving DecidableEq

def jsonPacketVer : Nat := 1
def jsonCmdReq : Nat := 1

def jsonReqSet (user : UserInfo) (sms : List Byte) : JsonPacketReq where
  ver := jsonPacketVer
  cmd := jsonCmdReq
  provider := user.provider
  celNumber := user.celNumber
  sms := sms

/-- How `sms_send` can end before it waits for a response. -/
inductive SendFailure where
  | sockcreate | conn2server | snprintf | json2str | writeonsock
  deriving DecidableEq, Repr

def SendFailure.result : SendFailure → SmsResult
  | .sockcreate => .sockcreateErr
  | .conn2server => .conn2serverErr
  | .snprintf => .snprintfErr
  | .json2str => .json2strErr
  | .writeonsock => .writeonsockErr

/-- How `wait4resp` can end. -/
inductive Response where
  | readfromsock | gateway | ok
  deriving DecidableEq, Repr

def Response.result : Response → SmsResult
  | .readfromsock => .readfromsockErr
  | .gateway => .gatewayErr
  | .ok => .ok

/-- `sms_on_err`: its return value and what it leaves in `*pam_ret`. -/
def smsOnErr (result : SmsResult) (ctrl : Flags) : Nat × PamRet :=
  match result with
  | .readfromsockErr | .sockcreateErr | .json2strErr | .writeonsockErr | .snprintfErr =>
    (1, .systemErr)
  | .gatewayErr | .conn2serverErr =>
    (2, if ctrl &&& pamSmsauthRelaxed ≠ 0 then .success else .authErr)
  | .ok => (0, .authErr)
  | .none => (3, .authErr)

theorem smsOnErr_eq_zero_iff (result : SmsResult) (ctrl : Flags) :
    (smsOnErr result ctrl).1 = 0 ↔ result = .ok := by
  cases result <;> simp [smsOnErr]

theorem smsOnErr_success {result : SmsResult} {ctrl : Flags}
    (h : (smsOnErr result ctrl).2 = .success) :
    ctrl &&& pamSmsauthRelaxed ≠ 0 ∧ (result = .conn2serverErr ∨ result = .gatewayErr) := by
  cases result <;> simp_all [smsOnErr]

end PamSmsauth
