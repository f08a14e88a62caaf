import PamSmsauth.Lib.Form
import PamSmsauth.Lib.Mail
import PamSmsauth.Lib.Raising
import PamSmsauth.Server

/-!
# The gateway clients and their configuration (`config.py`, `*_client.py`)

`Gateway` has of an attempt what its library calls come to. Here are the calls themselves: what is
read from `server.conf`, and what is handed to `httplib`, `smtplib` and `gammu`. A client is a
program over these calls (`GwOp`), and an attempt of `Gateway` is a run of it, whatever the
libraries do (`exec_attempt`).

Of Python, `str`, the sum of texts, and the order in which a dictionary is printed are parameters
(`PyText`): what is not ASCII depends on which of its texts Python holds as bytes.
-/

namespace PamSmsauth

open CText Eff

/-! ## Texts and dictionaries -/

def Ascii (s : List Byte) : Prop := ∀ b ∈ s, b < 128

instance (s : List Byte) : Decidable (Ascii s) := List.decidableBAll (fun b => b < 128) s

abbrev PyDict := List (List Byte × PyVal)

structure PyText where
  str : PyVal → Except Exc (List Byte)
  /-- `v + .. + w` -/
  add : List PyVal → Except Exc (List Byte)
  items : PyDict → PyDict
  items_perm : ∀ d, (items d).Perm d

/-- A text is what it is, and the sum of texts is the text of all. -/
structure PyText.Standard (py : PyText) : Prop where
  str_ascii : ∀ s, Ascii s → py.str (.str s) = .ok s
  add_ascii : ∀ texts : List (List Byte), (∀ s ∈ texts, Ascii s) →
    py.add (texts.map .str) = .ok texts.flatten

/-- `d[key] = v` -/
def PyDict.set (key : List Byte) (v : PyVal) : PyDict → PyDict
  | [] => [(key, v)]
  | (k, w) :: rest => if k = key then (key, v) :: rest else (k, w) :: set key v rest

/-! ## `urllib` -/

/-- `urllib.always_safe`. -/
def alwaysSafe (b : Byte) : Bool := isalpha b || isdigit b || b = 95 || b = 46 || b = 45

def urlencode (py : PyText) (d : PyDict) : Except Exc (List Byte) := do
  let pairs ← (py.items d).mapM fun e => (py.str e.2).map fun v => (e.1, v)
  return Form.encode alwaysSafe pairs

/-! ## `config.py` -/

/-- A configuration that was parsed: `get(section, option)`. That `has_section` and `has_option` say
no is ignored. -/
structure ConfFile where
  get : List Byte → List Byte → Except Exc (List Byte)

namespace ConfFile

variable (c : ConfFile)

def httpSection : List Byte := lit "HTTPgateway"
def smtpSection : List Byte := lit "SMTPgateway"

def getHttpMethod := c.get httpSection (lit "http-method")
def getHttpGwAddr := c.get httpSection (lit "http-gateway")
def getHttpScript := c.get httpSection (lit "http-script")
def getHttpVarCel := c.get httpSection (lit "http-var-cel")
def getHttpVarMsg := c.get httpSection (lit "http-var-msg")
def getHttpVarFrom := c.get httpSection (lit "http-var-from")
def getHttpVarProvider := c.get httpSection (lit "http-var-provider")
def getSmtpLoginUsr := c.get smtpSection (lit "smtp-login-user")
def getSmtpLoginPasswd := c.get smtpSection (lit "smtp-login-pass")
def getSmtpGwAddr := c.get smtpSection (lit "smtp-gateway")
def getSmtpGwPort (lib : PyLib) : Except Exc Int :=
  c.get smtpSection (lit "smtp-port") >>= lib.intOfStr
def getSmtpFrom := c.get smtpSection (lit "smtp-from")
def getSmtpProvider := c.get smtpSection (lit "smtp-provider")
def getSmtpDomain := c.get smtpSection (lit "smtp-provider-domain")

/-- `dict(zip(providers, domains))`; of equal providers the last one counts. -/
def setSmtpProviderDomain : Except Exc (List (List Byte × List Byte)) := do
  let providers := (← c.getSmtpProvider).splitOn 44
  let domains := (← c.getSmtpDomain).splitOn 44
  return providers.zip domains

end ConfFile

/-- `domain[provider]`; a text that is not ASCII is none of the keys. -/
def getSmtpProviderDomain (domain : List (List Byte × List Byte)) :
    PyVal → Except Exc (List Byte)
  | .str s =>
    match domain.reverse.find? (fun e => e.1 = s ∧ Ascii s) with
    | some entry => .ok entry.2
    | .none => .error .keyError
  | .list _ | .dict _ => .error .typeError
  | _ => .error .keyError

/-! ## The calls -/

/-- The calls of the clients to the libraries. A connection stands for the calls on it. -/
inductive GwOp where
  /-- `open(confFile)` and `readfp` -/
  | openConf
  | httpConnection (addr : List Byte)
  | request (method script params : List Byte) (headers : List (List Byte × List Byte))
  | getresponse
  | read
  | smtp (addr : List Byte) (port : Int)
  | login (usr passwd : List Byte)
  | sendmail (fromAddr toAddr msg : List Byte)
  | quit
  /-- `StateMachine()`, `ReadConfig()` and `Init()` -/
  | stateMachine
  | sendSMS (text number : PyVal)

/-- What a call gives. -/
abbrev GwOp.Val : GwOp → Type
  | .openConf => ConfFile
  | .getresponse => Nat
  | _ => Unit

abbrev gwCalls : Calls Exc := ⟨GwOp, GwOp.Val⟩

abbrev GwProg (α : Type) := Raising gwCalls α

abbrev GwEvent := Event gwCalls.iface

open Raising

def gw (op : GwOp) : GwProg op.Val := call (C := gwCalls) op

/-- `except Exception, e: raise GwConfError(..)`. -/
def Exc.toGwConf (e : Exc) : Exc := if e.isException then .gwConfError else e

/-! ## The clients -/

namespace HttpClient

def initProg : GwProg ConfFile := mapError Exc.toGwConf (gw .openConf)

/-- The dictionary of `__set_url_params`. -/
def setUrlParams (c : ConfFile) (cel provider sender msg : PyVal) :
    Except Exc PyDict := do
  let d := PyDict.set (← c.getHttpVarCel) cel []
  let d := PyDict.set (← c.getHttpVarFrom) sender d
  let d := PyDict.set (← c.getHttpVarProvider) provider d
  return PyDict.set (← c.getHttpVarMsg) msg d

/-- What is done to have the request at the gateway. -/
def post (py : PyText) (c : ConfFile) (headers : List (List Byte × List Byte))
    (params : PyDict) : GwProg Unit := do
  let urlparams ← pureExcept (urlencode py params)
  gw (.httpConnection (← pureExcept c.getHttpGwAddr))
  let method ← pureExcept c.getHttpMethod
  let script ← pureExcept c.getHttpScript
  gw (.request method script urlparams headers)

def headersOf (method : List Byte) : List (List Byte × List Byte) :=
  if method = lit "POST" then
    [(lit "Content-type", lit "application/x-www-form-urlencoded"), (lit "Accept", lit "text/html")]
  else []

def sendSmsProg (py : PyText) (c : ConfFile) (cel provider sender msg : PyVal) : GwProg Unit := do
  let method ← pureExcept c.getHttpMethod
  let params ← pureExcept ((setUrlParams c cel provider sender msg).mapError Exc.toGwConf)
  post py c (headersOf method) params
  let status : Nat ← gw .getresponse
  if status = 404 then throw (.httpClientError status)
  else if status = 403 then throw (.httpClientError status)
  else if status = 500 then throw (.httpClientError status)
  else gw .read

end HttpClient

namespace SmtpClient

/-- The configuration, and the domains of the providers. -/
def initProg : GwProg (ConfFile × List (List Byte × List Byte)) :=
  mapError Exc.toGwConf do
    let c : ConfFile ← gw .openConf
    return (c, ← pureExcept c.setSmtpProviderDomain)

def toAddr (py : PyText) (domain : List (List Byte × List Byte)) (cel provider : PyVal) :
    Except Exc (List Byte) := do
  let addr ← py.add [cel, .str (lit "@")]
  py.add [.str addr, .str (← getSmtpProviderDomain domain provider)]

def sendSmsProg (lib : PyLib) (py : PyText) (c : ConfFile) (domain : List (List Byte × List Byte))
    (cel provider msg : PyVal) : GwProg Unit := do
  let fromAddr ← pureExcept c.getSmtpFrom
  let toAddr ← pureExcept (toAddr py domain cel provider)
  let msg ← pureExcept (py.add [.str (lit "From: "), .str fromAddr, .str (lit "\r\nTo: "),
    .str toAddr, .str (lit "\r\n\r\n"), msg])
  let addr ← pureExcept c.getSmtpGwAddr
  gw (.smtp addr (← pureExcept (c.getSmtpGwPort lib)))
  let usr ← pureExcept c.getSmtpLoginUsr
  gw (.login usr (← pureExcept c.getSmtpLoginPasswd))
  gw (.sendmail fromAddr toAddr msg)
  gw .quit

end SmtpClient

/-- `create`, `set_params` and `send_sms` of the gateway with this name, for a request. -/
def attemptProg (lib : PyLib) (py : PyText) (req : JsonRequest) (gwId : List Byte) :
    GwProg Unit := do
  match ← pureExcept (clientType gwId) with
  | .http =>
    let c ← HttpClient.initProg
    HttpClient.sendSmsProg py c req.cel req.provider (.str jsonPacketName) req.sms
  | .smtp =>
    let (c, domain) ← SmtpClient.initProg
    SmtpClient.sendSmsProg lib py c domain req.cel req.provider req.sms
  | .mobile =>
    gw .stateMachine
    gw (.sendSMS req.sms req.cel)

/-- `__exec_client`. -/
def execClientProg (lib : PyLib) (py : PyText) (req : JsonRequest) (gwId : List Byte) :
    GwProg Unit := do
  attemptProg lib py req gwId
  match req.sms with
  | .str _ => return
  | _ => throw .typeError

/-- The loop of `__service`, for a list of `len` gateways of which `i` have been attempted. -/
def serviceProg (lib : PyLib) (py : PyText) (req : JsonRequest) (len : Nat) :
    Nat → List (List Byte) → GwProg Unit
  | _, [] => return
  | i, gwId :: rest =>
    tryCatch (execClientProg lib py req gwId) fun e =>
      if e.isException then
        if i + 1 = len then throw .clientError else serviceProg lib py req len (i + 1) rest
      else throw e

/-! ## What an attempt comes to -/

section

variable {σ : Type} (lib : PyLib) (py : PyText) (req : JsonRequest)
  (h : Handler gwCalls.iface σ) (s : σ)

def done {α : Type} (x : Except Exc α) : Outcome := x.map fun _ => ()

/-- What a run of the HTTP client meets; what it does not come to is taken to complete. -/
def HttpEnv.ofRun : HttpEnv :=
  match h GwOp.openConf s with
  | (.error e, _) => ⟨.error e, .ok (), .ok (), .ok (), .ok 0, .ok ()⟩
  | (.ok (c : ConfFile), s) =>
    let params :=
      HttpClient.setUrlParams c req.cel req.provider (.str jsonPacketName) req.sms
    let headers := HttpClient.headersOf (c.getHttpMethod.toOption.getD [])
    let sent := exec (pureExcept params >>= HttpClient.post py c headers) h s
    let response := h GwOp.getresponse sent.2
    ⟨.ok (), done c.getHttpMethod, done params, sent.1, response.1, (h GwOp.read response.2).1⟩

def SmtpEnv.ofRun : SmtpEnv :=
  match h GwOp.openConf s with
  | (.error e, _) => ⟨.error e, .ok ()⟩
  | (.ok (c : ConfFile), s) =>
    ⟨done c.setSmtpProviderDomain, (exec (pureExcept c.setSmtpProviderDomain >>= fun domain =>
      SmtpClient.sendSmsProg lib py c domain req.cel req.provider req.sms) h s).1⟩

def MobileEnv.ofRun : MobileEnv :=
  let started := h GwOp.stateMachine s
  ⟨started.1, (h (GwOp.sendSMS req.sms req.cel) started.2).1⟩

def GatewayEnv.ofRun : GatewayEnv :=
  ⟨.ofRun py req h s, .ofRun lib py req h s, .ofRun req h s⟩

theorem exec_gw (op : GwOp) : @exec Exc gwCalls (no_index _) σ (gw op) h s = h op s := rfl

theorem exec_http :
    (exec (HttpClient.initProg >>= fun c => HttpClient.sendSmsProg py c req.cel req.provider
      (.str jsonPacketName) req.sms) h s).1 =
    (HttpClient.init (.ofRun py req h s) >>= fun _ => HttpClient.sendSms (.ofRun py req h s)) := by
  rw [exec_bind, HttpClient.initProg, exec_mapError, exec_gw]
  rcases hopen : h GwOp.openConf s with ⟨e | c, s₁⟩
  · simp only [hopen, HttpEnv.ofRun]
    rfl
  · simp only [hopen, HttpEnv.ofRun, HttpClient.init, HttpClient.sendSmsProg, exec_pureExcept_bind,
      HttpClient.sendSms]
    dsimp only [Except.mapError]
    cases hmethod : ConfFile.getHttpMethod c with
    | error e => simp; rfl
    | ok method =>
    cases hparams : HttpClient.setUrlParams c req.cel req.provider
        (PyVal.str jsonPacketName) req.sms with
    | error e => simp; rfl
    | ok params =>
    dsimp only [Except.toOption, Option.getD]
    rw [exec_bind]
    rcases hsent : exec (HttpClient.post py c (HttpClient.headersOf method) params) h s₁ with
      ⟨e | u, s₂⟩
    · rfl
    · dsimp only
      rw [exec_bind, exec_gw]
      rcases hresponse : h GwOp.getresponse s₂ with ⟨e | status, s₃⟩
      · rfl
      · by_cases h404 : status = 404
        · simp [h404]; rfl
        · by_cases h403 : status = 403
          · simp [h403]; rfl
          · by_cases h500 : status = 500
            · simp [h500]; rfl
            · simp only [h404, h403, h500, if_false]
              show _ = ite (status = 404) _ (ite (status = 403) _ (ite (status = 500) _ _))
              rw [if_neg h404, if_neg h403, if_neg h500]
              rfl

theorem exec_smtp :
    (exec (SmtpClient.initProg >>= fun r => SmtpClient.sendSmsProg lib py r.1 r.2 req.cel
      req.provider req.sms) h s).1 =
    (gwConf (SmtpEnv.ofRun lib py req h s).conf >>= fun _ =>
      (SmtpEnv.ofRun lib py req h s).send) := by
  rw [exec_bind, SmtpClient.initProg, exec_mapError, exec_bind, exec_gw]
  rcases hopen : h GwOp.openConf s with ⟨e | c, s₁⟩
  · simp only [hopen, SmtpEnv.ofRun]
    rfl
  · simp only [hopen, SmtpEnv.ofRun, exec_pureExcept_bind]
    cases hdomain : ConfFile.setSmtpProviderDomain c with
    | error e => rfl
    | ok domain => rfl

theorem exec_mobile :
    (exec (gw .stateMachine >>= fun _ => gw (.sendSMS req.sms req.cel)) h s).1 =
    ((MobileEnv.ofRun req h s).init >>= fun _ => (MobileEnv.ofRun req h s).send) := by
  rw [exec_bind, exec_gw]
  simp only [MobileEnv.ofRun]
  rcases h GwOp.stateMachine s with ⟨e | u, s₁⟩ <;> rfl

theorem exec_attempt (gwId : List Byte) :
    (exec (attemptProg lib py req gwId) h s).1 = attempt gwId (.ofRun lib py req h s) := by
  unfold attemptProg attempt
  rw [exec_pureExcept_bind]
  cases hgw : clientType gwId with
  | error e => rfl
  | ok gw =>
    cases gw with
    | http => exact exec_http py req h s
    | smtp => exact exec_smtp lib py req h s
    | mobile => exact exec_mobile req h s

theorem exec_execClient (gwId : List Byte) :
    (exec (execClientProg lib py req gwId) h s).1 =
      execClient req gwId (.ofRun lib py req h s) := by
  have hattempt := exec_attempt lib py req h s gwId
  unfold execClientProg execClient
  rw [exec_bind, ← hattempt]
  rcases exec (attemptProg lib py req gwId) h s with ⟨e | u, s₁⟩
  · rfl
  · cases req.sms <;> rfl
end

end PamSmsauth
