import PamSmsauth.Authenticate
import PamSmsauth.Tokener

/-!
# Requests and responses at the module (`json_proto.c`, `sms.c`)

`jsonReq2str` prints a request, `jsonCheckSrvResp` looks at the text of a response, and `sendSms` is
the whole of `sms_send` with its counter of requests. `none` stands for a call that takes the
members of what has none (an error marker, NULL or a value that is no object), or that puts an
object with an error marker in it. What becomes of the objects in memory is in `Release`.
-/

namespace PamSmsauth

open CText Eff

def jsonPacketMaxsize : Nat := 4096

/-- `JSON_PACKET_NAME` of `json_proto.h`. -/
def jsonPacketReqName : List Byte := lit "pam_smsauth"

/-! ## Requests -/

/-- `json_packet_req_t`; the fields that depend on the call are in `req`. -/
structure JsonPacket where
  name : List Byte
  id : UInt32
  req : JsonPacketReq
  deriving DecidableEq

/-- The request of `sms_send`. -/
def smsRequest (user : UserInfo) (otp : List Byte) (id : UInt32) : JsonPacket :=
  ⟨jsonPacketReqName, id, jsonReqSet user (smsText otp)⟩

/-- The object that `json_req_2str` builds. -/
def JsonPacket.object (r : JsonPacket) : JsonObject :=
  let payload := ((((((JsonObject.newObject.objectAdd (lit "ver") (.int r.req.ver)).objectAdd
    (lit "cmd") (.int r.req.cmd)).objectAdd
    (lit "id") (.int (wrap32 r.id.toNat))).objectAdd
    (lit "provider") (.newString r.req.provider)).objectAdd
    (lit "cel_number") (.newString r.req.celNumber)).objectAdd
    (lit "sms") (.newString r.req.sms))
  JsonObject.newObject.objectAdd r.name payload

/-- `json_req_2str`: its return value and the text in the buffer. -/
def jsonReq2str (r : JsonPacket) : Nat × List Byte :=
  (r.object.toJsonString.length, snprintf jsonPacketMaxsize r.object.toJsonString)

/-! ## Responses -/

inductive JsonResult where
  | none | recvOk | recvErr | keyNotfound | fieldNotfound | parseErr
  deriving DecidableEq

/-- The variables of the second loop of `json_check_srv_resp`. -/
structure RespFields where
  ret : Int
  result : JsonResult
  id : UInt32

/-- One member of the payload. -/
def RespFields.member (f : RespFields) (e : List Byte × JsonObject) : RespFields :=
  let f :=
    if strncmp (lit "result") e.1 6 = 0 then
      { f with
        ret := atoi e.2.toJsonString
        result := if atoi e.2.toJsonString = 1 then .recvOk else .recvErr }
    else f
  if strncmp (lit "id") e.1 2 = 0 then { f with id := .ofInt (atoi e.2.toJsonString) } else f

/-- The second loop and the return. -/
def checkPayload (members : List (List Byte × JsonObject)) (id : UInt32) : JsonResult × UInt32 :=
  let f := members.foldl RespFields.member ⟨-1, .none, id⟩
  if f.ret = -1 then (.fieldNotfound, f.id) else (f.result, f.id)

/-- `json_check_srv_resp` on what `json_tokener_parse` returned. Only the first member of the object
is looked at: the loop over them stops there or returns. -/
def checkParsed (parsed : JsonParsed) (id : UInt32) : Option (JsonResult × UInt32) :=
  match parsed with
  | .value .null => some (.parseErr, id)
  | .value obj =>
    match obj.getObject with
    | some ((key, val) :: _) =>
      if strncmp jsonPacketReqName key jsonPacketReqName.length = 0 then
        val.getObject.map fun members => checkPayload members id
      else some (.keyNotfound, id)
    -- no member, so that `payload` is still NULL, or no object
    | _ => none
  | .marred (.marredObject ((key, _) :: _)) =>
    -- whatever the payload is, `obj` would be put after it
    if strncmp jsonPacketReqName key jsonPacketReqName.length = 0 then none
    else some (.keyNotfound, id)
  | _ => none

def jsonCheckSrvResp (lf : List Byte → Option (List Byte)) (jsonStr : List Byte) (id : UInt32) :
    Option (JsonResult × UInt32) :=
  checkParsed (jsonTokenerParse lf jsonStr) id

/-! ## `sms_send` -/

/-- The buffer of `wait4resp` after `read` has delivered these bytes. -/
def readBuffer (bytes : List Byte) : List Byte :=
  bytes ++ List.replicate (jsonPacketMaxsize - bytes.length) 0

/-- A text that fits is followed by its terminator. -/
theorem readBuffer_eq {bytes : List Byte} (h : bytes.length < jsonPacketMaxsize) :
    ∃ rest, readBuffer bytes = bytes ++ 0 :: rest := by
  obtain ⟨n, hn⟩ := Nat.exists_eq_add_of_lt h
  refine ⟨List.replicate n 0, ?_⟩
  have hlen : jsonPacketMaxsize - bytes.length = n + 1 := by omega
  rw [readBuffer, hlen, List.replicate_succ]

/-- `wait4resp`; `none` when `read` fails. -/
def wait4resp (lf : List Byte → Option (List Byte)) (read : Option (List Byte)) (id : UInt32) :
    Option (SmsResult × UInt32) :=
  match read with
  | none => some (.readfromsockErr, id)
  | some bytes =>
    (jsonCheckSrvResp lf (readBuffer bytes) id).map fun r =>
      (if r.1 ≠ .recvOk then .gatewayErr else .ok, r.2)

/-- What the system calls of `sms_send` do: one fails before a response is awaited, or `read` is
reached. -/
inductive SendEnv where
  | fails (f : SendFailure)
  | reads (bytes : Option (List Byte))

/-- A call of `sms_send` that returned: its result, the counter it leaves and the request that it
sent. -/
structure SmsSent where
  result : SmsResult
  id : UInt32
  request : Option JsonPacket

def sendSms (lf : List Byte → Option (List Byte)) (env : SendEnv) (user : UserInfo)
    (otp : List Byte) (id : UInt32) : Option SmsSent :=
  match env with
  | .fails .sockcreate => some ⟨.sockcreateErr, id, none⟩
  | .fails .conn2server => some ⟨.conn2serverErr, id, none⟩
  | .fails .snprintf => some ⟨.snprintfErr, id, none⟩
  -- `++id` comes before the request is printed
  | .fails .json2str => some ⟨.json2strErr, id + 1, none⟩
  | .fails .writeonsock => some ⟨.writeonsockErr, id + 1, none⟩
  | .reads bytes =>
    (wait4resp lf bytes (id + 1)).map fun r =>
      ⟨r.1, r.2, some (smsRequest user otp (id + 1))⟩

/-! ## The answers that the login is given -/

/-- What became of the request, for the operation `smsRequest`. -/
def SendEnv.request : SendEnv → Option SendFailure
  | .fails f => some f
  | .reads _ => none

/-- What `wait4resp` made of the response, for the operation `smsResponse`. -/
def SendEnv.response (lf : List Byte → Option (List Byte)) (id : UInt32) : SendEnv → Response
  | .fails _ => .readfromsock
  | .reads none => .readfromsock
  | .reads (some bytes) =>
    match jsonCheckSrvResp lf (readBuffer bytes) id with
    | some (.recvOk, _) => .ok
    | _ => .gateway

/-- The login's `sms_send` is this one, with its request and its response as two operations. -/
theorem smsSend_of_sendSms {lf : List Byte → Option (List Byte)} {env : SendEnv} {user : UserInfo}
    {otp : CString} {id : UInt32} {s : SmsSent} (h : sendSms lf env user otp.bytes id = some s)
    {σ : Type} {handler : Handler pamIface σ}
    (hreq : ∀ path req t, handler (Op.smsRequest path req) t = (env.request, t))
    (hresp : ∀ t, handler Op.smsResponse t = (env.response lf (id + 1), t))
    (path : List Byte) (t : σ) : ((smsSend path user otp).run handler t).1 = s.result := by
  cases env with
  | fails f =>
    have hresult : f.result = s.result := by cases f <;> cases h <;> rfl
    simp [smsSend, hreq, SendEnv.request, hresult]
  | reads bytes =>
    have hrun : ((smsSend path user otp).run handler t).1 =
        (SendEnv.response lf (id + 1) (.reads bytes)).result := by
      simp [smsSend, hreq, hresp, SendEnv.request]
    rw [hrun]
    simp only [sendSms, Option.map_eq_some_iff] at h
    obtain ⟨r, hwait, rfl⟩ := h
    cases bytes with
    | none => cases hwait; rfl
    | some bytes =>
      simp only [wait4resp, Option.map_eq_some_iff] at hwait
      obtain ⟨⟨result, id'⟩, hcheck, rfl⟩ := hwait
      simp only [SendEnv.response, hcheck]
      cases result <;> rfl

end PamSmsauth
