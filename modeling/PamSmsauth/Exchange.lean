import PamSmsauth.Numbering
import PamSmsauth.Request
import PamSmsauth.Server

/-!
# A request and its response

A request of a clean record goes to the server as `json_req_2str` printed it, in one `recv`, and
what the server sends is read by `wait4resp`. Then `sms_send` returns `SMS_OK` if and only if a
gateway took the message, and its counter stands at the number of the request (`exchange`).
-/

namespace PamSmsauth

open CText JsonResponse

variable {lib : PyLib} {gws : List (List Byte)} {srv : Server} {conn : Conn}

/-- A round that answers answers the request, and reports what the loop over the gateways did. -/
theorem answer_eq {req : JsonRequest} {resp : JsonResponse} (hgws : gws ≠ []) (hsrv : srv.Clean)
    (hreq : JsonRequest.str2json lib conn.data = .ok req)
    (h : (serve lib gws srv conn).answer = some resp) :
    ∃ result, resp = about req.id result ∧
      (result = .ok ↔ ∃ a ∈ (serve lib gws srv conn).attempts, a.result = .ok ()) := by
  obtain ⟨hattempts, houtcome, -⟩ := serve_ok hgws hsrv hreq
  have hanswer := congrArg Prod.fst houtcome
  rw [h] at hanswer
  rw [hattempts, ← loopResult_ok_iff]
  unfold outcome at hanswer
  split at hanswer
  · rename_i hloop
    dsimp only at hanswer
    split_ifs at hanswer
    refine ⟨.ok, Option.some.inj hanswer, ?_⟩
    simp [hloop]
  · rename_i hloop
    split_ifs at hanswer
    refine ⟨.err, Option.some.inj hanswer, ?_⟩
    simp [hloop]
  · cases hanswer
  · cases hanswer

variable {user : UserInfo} {len : Nat} {type : OtpType} {words : Nat → UInt64} {id : UInt32}

/-- What `conn.recv(1024)` returns when the module has written this text. -/
def received (text : List Byte) : List Byte := text.take 1024

theorem received_request (huser : user.Sendable) (otp : CString) (id : UInt32) :
    received (smsRequest user otp.bytes id).object.toJsonString =
      (smsRequest user otp.bytes id).object.toJsonString :=
  List.take_of_length_le ((length_request_le huser otp id).trans (escapedLength_le huser otp.bytes))

/-- What `json_req_2str` returns is the length of the request; the text is whole in the buffer of
the module, and the server has it whole from its first `recv`. So it would be with every character
of the fields escaped. -/
theorem request_fits {gecos : CString} (hgecos : userSetInfo gecos = .ok user) (otp : CString)
    (id : UInt32) :
    let r := smsRequest user otp.bytes id
    (jsonReq2str r).2 = r.object.toJsonString ∧ (jsonReq2str r).1 = (jsonReq2str r).2.length ∧
      (jsonReq2str r).1 < jsonPacketMaxsize ∧ (jsonReq2str r).1 ≤ 1024 ∧
      received (jsonReq2str r).2 = r.object.toJsonString ∧
      (jsonReq2str r).1 ≤ escapedLength user otp.bytes ∧ escapedLength user otp.bytes ≤ 1024 := by
  intro r
  have huser := userSetInfo_sendable hgecos
  have htext : (jsonReq2str r).2 = r.object.toJsonString := jsonReq2str_eq huser otp id
  have hlen : (jsonReq2str r).1 ≤ escapedLength user otp.bytes := length_request_le huser otp id
  have hescaped := escapedLength_le huser otp.bytes
  have hmax : jsonPacketMaxsize = 4096 := rfl
  refine ⟨htext, ?_, by omega, by omega, ?_, hlen, hescaped⟩
  · rw [htext]
    rfl
  · rw [htext]
    exact received_request huser otp id

theorem request_fits_pipo :
    let r := smsRequest ⟨lit "pipo", lit "2615010203", lit "cti"⟩ (lit "k3x9q") 1
    (jsonReq2str r).2 = r.object.toJsonString ∧ (jsonReq2str r).1 = (jsonReq2str r).2.length ∧
      (jsonReq2str r).1 < jsonPacketMaxsize ∧ (jsonReq2str r).1 ≤ 1024 ∧
      received (jsonReq2str r).2 = r.object.toJsonString ∧
      (jsonReq2str r).1 ≤ escapedLength ⟨lit "pipo", lit "2615010203", lit "cti"⟩ (lit "k3x9q") ∧
      escapedLength ⟨lit "pipo", lit "2615010203", lit "cti"⟩ (lit "k3x9q") ≤ 1024 := by
  have hscan : userSetInfo ⟨lit "[pipo;261;5010203;cti;", by decide⟩ =
      .ok ⟨lit "pipo", lit "2615010203", lit "cti"⟩ := by decide
  exact request_fits hscan (.ofLit "k3x9q") 1

/-- The server takes the request of a clean record for what it is. -/
theorem serve_decodes (hlib : lib.Standard) (huser : user.Sendable) (hclean : user.Clean)
    (hdata : conn.data =
      received (jsonReq2str (smsRequest user (otpText len type words).bytes id)).2) :
    JsonRequest.str2json lib conn.data =
      .ok (smsRequest user (otpText len type words).bytes id).received := by
  have htext := jsonReq2str_eq huser (otpText len type words) id
  rw [hdata, htext, received_request huser, ← htext]
  exact (roundTrips_of_clean huser len type words id hclean).recovered lib hlib

theorem exchange (lf : List Byte → Option (List Byte)) {gecos : CString}
    (hgecos : userSetInfo gecos = .ok user) (hclean : user.Clean) (hlib : lib.Standard)
    (hgws : gws ≠ []) (hsrv : srv.Clean)
    (hdata : conn.data =
      received (jsonReq2str (smsRequest user (otpText len type words).bytes (id + 1))).2)
    {resp : JsonResponse} (hanswer : (serve lib gws srv conn).answer = some resp)
    {text : List Byte} (htext : resp.Json2str text) :
    ∃ s, sendSms lf (.reads (some text)) user (otpText len type words).bytes id = some s ∧
      (s.result = .ok ↔ ∃ a ∈ (serve lib gws srv conn).attempts, a.result = .ok ()) ∧
      s.id = id + 1 := by
  have huser := userSetInfo_sendable hgecos
  have hreq := serve_decodes hlib huser hclean hdata
  obtain ⟨result, rfl, hresult⟩ := answer_eq hgws hsrv hreq hanswer
  have hcheck := check_json2str lf (id + 1) result htext (id + 1)
  have hsend : sendSms lf (.reads (some text)) user (otpText len type words).bytes id =
      some ⟨if result = .ok then .ok else .gatewayErr, id + 1,
        some (smsRequest user (otpText len type words).bytes (id + 1))⟩ := by
    simp only [sendSms, wait4resp, hcheck, Option.map_some]
    cases result <;> rfl
  refine ⟨_, hsend, ?_, rfl⟩
  rw [← hresult]
  cases result <;> simp

end PamSmsauth
