import PamSmsauth.Proto

/-!
# The gateways (`client_factory.py`, `http_client.py`, `smtp_client.py`, `mobile_client.py`)

One attempt of a gateway creates its client, gives it the parameters of the request and has it send
the message. What the libraries below it do in an attempt is its environment: each call completes or
raises. Of the HTTP client the whole of `send_sms` is here, since the status of the response
decides there; the SMTP and the phone client are a constructor and a `send_sms` that complete or
raise. Giving the parameters only stores them.
-/

namespace PamSmsauth

open CText

/-- A call that completes or raises. -/
abbrev Outcome := Except Exc Unit

/-- What an attempt of the HTTP gateway meets: opening the configuration, `get_http_method`, the
getters of the variable names, everything from encoding the parameters to `conn.request`, the
status of the response, and reading it. -/
structure HttpEnv where
  conf : Outcome
  method : Outcome
  urlParams : Outcome
  request : Outcome
  getresponse : Except Exc Nat
  read : Outcome

structure SmtpEnv where
  conf : Outcome
  send : Outcome

structure MobileEnv where
  init : Outcome
  send : Outcome

structure GatewayEnv where
  http : HttpEnv
  smtp : SmtpEnv
  mobile : MobileEnv

/-- `except Exception, e: raise GwConfError(..)`. -/
def gwConf : Outcome → Outcome
  | .error e => .error (if e.isException then .gwConfError else e)
  | .ok () => .ok ()

namespace HttpClient

def init (env : HttpEnv) : Outcome := gwConf env.conf

def sendSms (env : HttpEnv) : Outcome := do
  env.method
  gwConf env.urlParams
  env.request
  let status ← env.getresponse
  if status = 404 then throw (.httpClientError status)
  else if status = 403 then throw (.httpClientError status)
  else if status = 500 then throw (.httpClientError status)
  else env.read

/-- The attempt gets as far as a response with this status. -/
def Answered (env : HttpEnv) (status : Nat) : Prop :=
  init env = .ok () ∧ env.method = .ok () ∧ gwConf env.urlParams = .ok () ∧ env.request = .ok () ∧
    env.getresponse = .ok status

/-- The statuses that `send_sms` checks for. -/
def refusals : List Nat := [404, 403, 500]

theorem sendSms_of_answered {env : HttpEnv} {status : Nat} (h : Answered env status) :
    sendSms env =
      if status ∈ refusals then .error (.httpClientError status) else env.read := by
  obtain ⟨-, hmethod, hparams, hrequest, hstatus⟩ := h
  unfold sendSms
  rw [hmethod, hparams, hrequest, hstatus]
  show (if status = 404 then _ else if status = 403 then _ else if status = 500 then _ else _) = _
  by_cases h404 : status = 404
  · simp [h404, refusals]; rfl
  · by_cases h403 : status = 403
    · simp [h403, refusals]; rfl
    · by_cases h500 : status = 500
      · simp [h500, refusals]; rfl
      · simp [h404, h403, h500, refusals]

end HttpClient

/-- The classes that the factory knows. -/
inductive ClientType where
  | http | smtp | mobile
  deriving DecidableEq

/-- `self.__client[type]`. -/
def clientType (gwId : List Byte) : Except Exc ClientType :=
  if gwId = lit "http" then .ok .http
  else if gwId = lit "smtp" then .ok .smtp
  else if gwId = lit "mobile" then .ok .mobile
  else .error .keyError

def ClientType.init (env : GatewayEnv) : ClientType → Outcome
  | .http => HttpClient.init env.http
  | .smtp => gwConf env.smtp.conf
  | .mobile => env.mobile.init

def ClientType.sendSms (env : GatewayEnv) : ClientType → Outcome
  | .http => HttpClient.sendSms env.http
  | .smtp => env.smtp.send
  | .mobile => env.mobile.send

/-- `create`, `set_params` and `send_sms` of the gateway with this name. -/
def attempt (gwId : List Byte) (env : GatewayEnv) : Outcome := do
  let gw ← clientType gwId
  gw.init env
  gw.sendSms env

theorem attempt_http (env : GatewayEnv) :
    attempt (lit "http") env =
      (HttpClient.init env.http >>= fun _ => HttpClient.sendSms env.http) := rfl

theorem attempt_of_answered {env : GatewayEnv} {status : Nat}
    (h : HttpClient.Answered env.http status) :
    attempt (lit "http") env = HttpClient.sendSms env.http := by
  rw [attempt_http, h.1]
  rfl

end PamSmsauth
