import PamSmsauth.Server

/-!
# Failover

For requests that decode and carry a text, a gateway that is attempted either completes, which ends
the attempts, or raises, which passes the request on to the next one of the list; the answer says
`OK` when one completed and `ERR` when all raised (`failover`). Every answer is made of its own
request only.

Whether the HTTP gateway completes is decided by the status of its response: only 403, 404 and 500
raise. Every other status outside 200 to 299 counts as a delivery, unless reading the response fails
(`refusal_not_delivery_iff`).
-/

namespace PamSmsauth

open CText

theorem execClient_eq {req : JsonRequest} {text : List Byte} (h : req.sms = .str text)
    (gwId : List Byte) (env : GatewayEnv) : execClient req gwId env = attempt gwId env := by
  simp only [execClient, h]
  cases attempt gwId env <;> rfl

theorem attempt_of_execClient {req : JsonRequest} {gwId : List Byte} {env : GatewayEnv}
    (h : execClient req gwId env = .ok ()) : attempt gwId env = .ok () := by
  unfold execClient at h
  cases ha : attempt gwId env with
  | ok u => rfl
  | error e => rw [ha] at h; cases h

/-! ## The gateways in turn -/

namespace Conn

/-- The request decodes and its message is a text. -/
def WellFormed (lib : PyLib) (conn : Conn) : Prop :=
  ∃ req text, JsonRequest.str2json lib conn.data = .ok req ∧ req.sms = .str text

/-- What the gateways raise is derived from `Exception`. -/
def OnlyExceptions (conn : Conn) : Prop :=
  ∀ gwId pos e, attempt gwId (conn.gateway pos) = .error e → e.isException = true

/-- Some gateway of the list would complete. -/
def Delivered (gws : List (List Byte)) (conn : Conn) : Prop :=
  ∃ p ∈ gws.zipIdx 1, attempt p.1 (conn.gateway p.2) = .ok ()

end Conn

/-- The round of a connection, with the gateways `gws`. -/
structure FailsOver (lib : PyLib) (gws : List (List Byte)) (conn : Conn) (s : Served) : Prop where
  inOrder : s.attempts.map (fun a => (a.gwId, a.pos)) <+: gws.zipIdx 1
  results : ∀ a ∈ s.attempts, a.result = attempt a.gwId (conn.gateway a.pos)
  noneAfter : ∀ as a as', s.attempts = as ++ a :: as' → a.result = .ok () → as' = []
  exhausts : (∀ a ∈ s.attempts, a.result ≠ .ok ()) → s.attempts.length = gws.length
  delivered : conn.Delivered gws ↔ ∃ a ∈ s.attempts, a.result = .ok ()
  answersOk : ∀ req, JsonRequest.str2json lib conn.data = .ok req → conn.Delivered gws →
    s.answer = some (.of req.id .ok (lit "Send ok."))
  answersErr : ∀ req, JsonRequest.str2json lib conn.data = .ok req → ¬ conn.Delivered gws →
    s.answer = some (.of req.id .err (lit "Send error."))
  continues : s.escaped = none

/-- What a well-formed request whose gateways raise exceptions only comes to. -/
structure Conn.Fair (lib : PyLib) (conn : Conn) (req : JsonRequest) : Prop where
  decodes : JsonRequest.str2json lib conn.data = .ok req
  sms : ∃ text, req.sms = .str text
  exceptions : conn.OnlyExceptions

theorem Conn.tries_map (conn : Conn) (gws : List (List Byte)) (req : JsonRequest) :
    (conn.tries gws req).map (fun a => (a.gwId, a.pos)) = gws.zipIdx 1 := by
  rw [tries, PamSmsauth.tries, List.map_map]
  exact List.map_id _

namespace Conn.Fair

variable {lib : PyLib} {gws : List (List Byte)} {srv : Server} {conn : Conn} {req : JsonRequest}

theorem result (h : conn.Fair lib req) {a : Attempt} (ha : a ∈ conn.tries gws req) :
    a.result = attempt a.gwId (conn.gateway a.pos) := by
  obtain ⟨text, hsms⟩ := h.sms
  rw [(mem_tries.mp ha).2, execClient_eq hsms]

theorem stops_iff (h : conn.Fair lib req) {a : Attempt} (ha : a ∈ conn.tries gws req) :
    a.stops = true ↔ a.result = .ok () := by
  unfold Attempt.stops
  cases hr : a.result with
  | ok u => simp
  | error e => simp [h.exceptions a.gwId a.pos e (by rw [← h.result ha, hr])]

/-- When none of those attempted completes, all have been attempted. -/
theorem attempted_eq (h : conn.Fair lib req)
    (hno : ∀ a ∈ attempted (conn.tries gws req), a.result ≠ .ok ()) :
    attempted (conn.tries gws req) = conn.tries gws req := by
  apply attempted_eq_self
  intro a ha
  by_contra hs
  exact hno a ha ((h.stops_iff ((attempted_isPrefix _).subset ha)).mp (Bool.not_eq_false _ ▸ hs))

theorem delivered_iff (h : conn.Fair lib req) :
    conn.Delivered gws ↔ ∃ a ∈ attempted (conn.tries gws req), a.result = .ok () := by
  constructor
  · rintro ⟨p, hp, hok⟩
    by_contra hno
    have hno' : ∀ a ∈ attempted (conn.tries gws req), a.result ≠ .ok () :=
      fun a ha hr => hno ⟨a, ha, hr⟩
    have ha : (⟨p.2, p.1, execClient req p.1 (conn.gateway p.2)⟩ : Attempt) ∈ conn.tries gws req :=
      mem_tries.mpr ⟨hp, rfl⟩
    exact hno' _ ((h.attempted_eq hno').symm ▸ ha) ((h.result ha).trans hok)
  · rintro ⟨a, ha, hok⟩
    have ha' := (attempted_isPrefix _).subset ha
    exact ⟨_, (mem_tries.mp ha').1, (h.result ha') ▸ hok⟩

theorem loopResult_of_delivered (h : conn.Fair lib req) (hdel : conn.Delivered gws) :
    loopResult (conn.tries gws req) = .ok () :=
  loopResult_ok_iff.mpr (h.delivered_iff.mp hdel)

theorem loopResult_of_not_delivered (h : conn.Fair lib req) (hno : ¬ conn.Delivered gws) :
    loopResult (conn.tries gws req) = .error .clientError := by
  unfold loopResult
  rw [List.find?_eq_none.mpr]
  intro a ha hs
  exact hno ⟨_, (mem_tries.mp ha).1, (h.result ha) ▸ (h.stops_iff ha).mp hs⟩

theorem failsOver (h : conn.Fair lib req) (hgws : gws ≠ []) (hsrv : srv.Clean)
    (hsend : conn.sendOk = true) : FailsOver lib gws conn (serve lib gws srv conn) := by
  obtain ⟨hatt, hout, -⟩ := serve_ok hgws hsrv h.decodes
  have hans : ∀ {x y}, outcome gws conn req = (x, y) →
      (serve lib gws srv conn).answer = x ∧ (serve lib gws srv conn).escaped = y :=
    fun h => Prod.mk.inj (hout.trans h)
  have hok : conn.Delivered gws →
      outcome gws conn req = (some (.of req.id .ok (lit "Send ok.")), none) := by
    intro hdel
    simp only [outcome, h.loopResult_of_delivered hdel, hsend, if_true]
  have herr : ¬ conn.Delivered gws →
      outcome gws conn req = (some (.of req.id .err (lit "Send error.")), none) := by
    intro hno
    simp only [outcome, h.loopResult_of_not_delivered hno, hsend, if_true]
  constructor
  case inOrder =>
    rw [hatt, ← conn.tries_map gws req]
    exact (attempted_isPrefix _).map _
  case results =>
    rw [hatt]
    exact fun a ha => h.result ((attempted_isPrefix _).subset ha)
  case noneAfter =>
    rw [hatt]
    intro as a as' has hr
    have ha : a ∈ attempted (conn.tries gws req) := by rw [has]; simp
    exact eq_nil_of_stops has ((h.stops_iff ((attempted_isPrefix _).subset ha)).mpr hr)
  case exhausts =>
    rw [hatt]
    intro hno
    rw [h.attempted_eq hno, ← List.length_zipIdx (l := gws) (i := 1), ← conn.tries_map gws req,
      List.length_map]
  case delivered =>
    rw [hatt]
    exact h.delivered_iff
  case answersOk =>
    intro req' hreq' hdel
    cases h.decodes.symm.trans hreq'
    exact (hans (hok hdel)).1
  case answersErr =>
    intro req' hreq' hno
    cases h.decodes.symm.trans hreq'
    exact (hans (herr hno)).1
  case continues =>
    by_cases hdel : conn.Delivered gws
    · exact (hans (hok hdel)).2
    · exact (hans (herr hdel)).2

end Conn.Fair

theorem deliverSms_failsOver {lib : PyLib} {gws : List (List Byte)} {srv : Server}
    {conns : List Conn} (hgws : gws ≠ []) (hsrv : srv.Clean)
    (hwf : ∀ conn ∈ conns, conn.WellFormed lib) (hexc : ∀ conn ∈ conns, conn.OnlyExceptions)
    (hsend : ∀ conn ∈ conns, conn.sendOk = true) :
    List.Forall₂ (FailsOver lib gws) conns (deliverSms lib gws srv conns) := by
  induction conns generalizing srv with
  | nil => exact .nil
  | cons conn conns ih =>
    obtain ⟨req, text, hreq, hsms⟩ := hwf conn (by simp)
    have hfair : conn.Fair lib req := ⟨hreq, ⟨text, hsms⟩, hexc conn (by simp)⟩
    have hone := hfair.failsOver hgws hsrv (hsend conn (by simp))
    simp only [deliverSms, hone.continues, if_true]
    refine .cons hone (ih (serve_clean conn hgws hsrv).1 ?_ ?_ ?_)
    · exact fun c hc => hwf c (by simp [hc])
    · exact fun c hc => hexc c (by simp [hc])
    · exact fun c hc => hsend c (by simp [hc])

/-- Every connection of a run of the server gets its round, and no round shows an earlier one. -/
theorem failover {lib : PyLib} (priority : List Byte) {conns : List Conn}
    (hwf : ∀ conn ∈ conns, conn.WellFormed lib) (hexc : ∀ conn ∈ conns, conn.OnlyExceptions)
    (hsend : ∀ conn ∈ conns, conn.sendOk = true) :
    List.Forall₂ (FailsOver lib (getGwPriority priority)) conns
      (deliverSms lib (getGwPriority priority) .init conns) :=
  deliverSms_failsOver (getGwPriority_ne_nil priority) Server.init_clean hwf hexc hsend

/-- A request as the module writes it. -/
def annRequest : List Byte :=
  lit "\x7b \"pam_smsauth\": \x7b \"ver\": 1, \"cmd\": 1, \"id\": 7, \"provider\": \"claro\", " ++
    lit "\"cel_number\": \"115550000\", \"sms\": \"** 77777 **\" \x7d \x7d"

/-- Every library call completes, and the HTTP gateway answers with this status. -/
def GatewayEnv.answering (status : Nat) : GatewayEnv where
  http := ⟨.ok (), .ok (), .ok (), .ok (), .ok status, .ok ()⟩
  smtp := ⟨.ok (), .ok ()⟩
  mobile := ⟨.ok (), .ok ()⟩

def Conn.ann (status : Nat) : Conn where
  data := annRequest
  gateway _ := .answering status
  sendOk := true

theorem Conn.ann_wellFormed (status : Nat) : (Conn.ann status).WellFormed .strict := by
  have h : (JsonRequest.str2json .strict annRequest).toOption.map (·.sms.isStr) = some true := by
    decide +kernel
  cases hreq : JsonRequest.str2json .strict annRequest with
  | error e =>
    rw [hreq] at h
    cases h
  | ok req =>
    rw [hreq] at h
    cases hsms : req.sms with
    | str text => exact ⟨req, text, hreq, hsms⟩
    | _ =>
      have hstr : req.sms.isStr = true := Option.some.inj h
      rw [hsms] at hstr
      cases hstr

theorem Conn.ann_onlyExceptions (status : Nat) : (Conn.ann status).OnlyExceptions := by
  intro gwId pos e h
  unfold attempt clientType at h
  split_ifs at h with h1 h2 h3
  · have hans : HttpClient.Answered (GatewayEnv.answering status).http status :=
      ⟨rfl, rfl, rfl, rfl, rfl⟩
    have hsend : HttpClient.sendSms (GatewayEnv.answering status).http = .error e := h
    rw [HttpClient.sendSms_of_answered hans] at hsend
    split_ifs at hsend
    · cases hsend
      rfl
    · cases hsend
  · cases h
  · cases h
  · cases h
    rfl

/-- The HTTP gateway refuses the first request with 500 and takes the second. -/
theorem failover_refused_then_taken :
    List.Forall₂ (FailsOver .strict (getGwPriority (lit "http,smtp"))) [.ann 500, .ann 200]
      (deliverSms .strict (getGwPriority (lit "http,smtp")) .init [.ann 500, .ann 200]) := by
  have heach : ∀ {P : Conn → Prop}, (∀ status, P (.ann status)) →
      ∀ conn ∈ [Conn.ann 500, .ann 200], P conn := by
    intro P h conn hconn
    rcases List.mem_pair.mp hconn with rfl | rfl
    · exact h 500
    · exact h 200
  exact failover _ (heach Conn.ann_wellFormed) (heach Conn.ann_onlyExceptions) (heach fun _ => rfl)

/-! ## A refused message -/

/-- A status that says the request was taken. -/
def Success (status : Nat) : Prop := 200 ≤ status ∧ status ≤ 299

def JsonResponse.IsOk (r : JsonResponse) : Prop :=
  r.packet.lookup (lit "result") = some (.int JsonResp.ok.code)

/-- Whenever an HTTP attempt of the round is answered with a status that is no success, `send_sms`
raises, the next gateway of the list is attempted, and the answer is `OK` only if another gateway
completed. -/
def RefusalNotDelivery (gws : List (List Byte)) (conn : Conn) (s : Served) : Prop :=
  ∀ a ∈ s.attempts, a.gwId = lit "http" → ∀ status,
    HttpClient.Answered (conn.gateway a.pos).http status → ¬ Success status →
    (∃ e, HttpClient.sendSms (conn.gateway a.pos).http = .error e) ∧
      (a.pos < gws.length → ∃ a' ∈ s.attempts, a'.pos = a.pos + 1) ∧
      (∀ r, s.answer = some r → r.IsOk →
        ∃ a' ∈ s.attempts, a'.pos ≠ a.pos ∧ attempt a'.gwId (conn.gateway a'.pos) = .ok ())

/-- Every status that is no success, of an HTTP gateway that all gateways before it pass the request
on to, is one of those that `send_sms` checks for, or reading the response raises, where it has to
be an `Exception` for a next gateway. -/
def RefusalsCaught (lib : PyLib) (gws : List (List Byte)) (conn : Conn) : Prop :=
  ∀ req, JsonRequest.str2json lib conn.data = .ok req →
    ∀ p ∈ gws.zipIdx 1, p.1 = lit "http" → conn.Reaches gws req p.2 → ∀ status,
      HttpClient.Answered (conn.gateway p.2).http status → ¬ Success status →
      status ∈ HttpClient.refusals ∨
        ∃ e, (conn.gateway p.2).http.read = .error e ∧ (e.isException = true ∨ p.2 = gws.length)

theorem mem_zipIdx_one {gws : List (List Byte)} {gwId : List Byte} {pos : Nat} :
    (gwId, pos) ∈ gws.zipIdx 1 ↔ 1 ≤ pos ∧ gws[pos - 1]? = some gwId :=
  List.mk_mem_zipIdx_iff_le_and_getElem?_sub

theorem JsonResponse.isOk_of (id : Int) (result : JsonResp) (msg : List Byte) :
    (JsonResponse.of id result msg).IsOk ↔ result = .ok := by
  cases result with
  | ok => exact iff_of_true rfl rfl
  | err =>
    refine iff_of_false (fun h => ?_) (by simp)
    exact absurd (show some (Field.int 2) = some (.int 1) from h) (by decide)

/-- An answer says `OK` when the gateways ended that way. -/
theorem outcome_isOk {gws : List (List Byte)} {conn : Conn} {req : JsonRequest} {r : JsonResponse}
    (h : (outcome gws conn req).1 = some r) (hok : r.IsOk) :
    loopResult (conn.tries gws req) = .ok () := by
  unfold outcome at h
  split at h
  · assumption
  · split_ifs at h
    cases h
    exact absurd ((JsonResponse.isOk_of _ _ _).mp hok) (by simp)
  · cases h
  · cases h

theorem execClient_of_answered {req : JsonRequest} {env : GatewayEnv} {status : Nat} {e : Exc}
    (h : HttpClient.Answered env.http status) (he : HttpClient.sendSms env.http = .error e) :
    execClient req (lit "http") env = .error e := by
  rw [execClient, attempt_of_answered h, he]
  rfl

section

variable {lib : PyLib} {gws : List (List Byte)} {conn : Conn} {req : JsonRequest} {s : Served}

theorem refusalsCaught_of_notDelivery (hreq : JsonRequest.str2json lib conn.data = .ok req)
    (hatt : s.attempts = attempted (conn.tries gws req)) (h : RefusalNotDelivery gws conn s) :
    RefusalsCaught lib gws conn := by
  rintro req' hreq' ⟨gwId, pos⟩ hp rfl hreach status hans hstatus
  cases hreq.symm.trans hreq'
  have ha : (⟨pos, lit "http", execClient req (lit "http") (conn.gateway pos)⟩ : Attempt) ∈
      s.attempts := by
    rw [hatt]
    exact Conn.mem_attempted.mpr ⟨⟨hp, rfl⟩, hreach⟩
  obtain ⟨⟨e, he⟩, hnext, -⟩ := h _ ha rfl status hans hstatus
  by_cases hin : status ∈ HttpClient.refusals
  · exact .inl hin
  · have hread : (conn.gateway pos).http.read = .error e := by
      rw [HttpClient.sendSms_of_answered hans, if_neg hin] at he
      exact he
    refine .inr ⟨e, hread, ?_⟩
    obtain ⟨hpos, hget⟩ := mem_zipIdx_one.mp hp
    obtain ⟨hlt, -⟩ := List.getElem?_eq_some_iff.mp hget
    by_cases hlast : pos = gws.length
    · exact .inr hlast
    · obtain ⟨a', ha', hpos'⟩ := hnext (show pos < gws.length by omega)
      rw [hatt] at ha'
      -- the next gateway is only attempted after an `Exception`
      obtain ⟨e', he', hexc⟩ := (Conn.mem_attempted.mp ha').2 (lit "http", pos) hp
        (by rw [hpos']; exact Nat.lt_succ_self pos)
      cases (execClient_of_answered hans he).symm.trans he'
      exact .inl hexc

theorem notDelivery_of_refusalsCaught (hreq : JsonRequest.str2json lib conn.data = .ok req)
    (hatt : s.attempts = attempted (conn.tries gws req))
    (hans : s.answer = (outcome gws conn req).1) (h : RefusalsCaught lib gws conn) :
    RefusalNotDelivery gws conn s := by
  intro a ha hhttp status hanswered hstatus
  rw [hatt] at ha
  obtain ⟨⟨hmem, hres⟩, hreach⟩ := Conn.mem_attempted.mp ha
  rw [hhttp] at hmem hres
  obtain ⟨e, he, hexc⟩ : ∃ e, HttpClient.sendSms (conn.gateway a.pos).http = .error e ∧
      (e.isException = true ∨ a.pos = gws.length) := by
    rw [HttpClient.sendSms_of_answered hanswered]
    rcases h req hreq _ hmem rfl hreach status hanswered hstatus with hin | ⟨e, hread, hexc⟩
    · exact ⟨_, if_pos hin, .inl rfl⟩
    · by_cases hin : status ∈ HttpClient.refusals
      · exact ⟨_, if_pos hin, .inl rfl⟩
      · exact ⟨e, by rw [if_neg hin, hread], hexc⟩
  have hexec : execClient req (lit "http") (conn.gateway a.pos) = .error e :=
    execClient_of_answered hanswered he
  refine ⟨⟨e, he⟩, fun hlt => ?_, fun r hr hok => ?_⟩
  · have hnext : (gws[a.pos], a.pos + 1) ∈ gws.zipIdx 1 :=
      mem_zipIdx_one.mpr ⟨by omega, List.getElem?_eq_getElem hlt⟩
    refine ⟨⟨a.pos + 1, gws[a.pos], execClient req gws[a.pos] (conn.gateway (a.pos + 1))⟩, ?_, rfl⟩
    rw [hatt]
    refine Conn.mem_attempted.mpr ⟨⟨hnext, rfl⟩, ?_⟩
    rintro ⟨gwId, pos⟩ hp hpos
    by_cases heq : pos = a.pos
    · subst heq
      have := (mem_zipIdx_one.mp hp).2.symm.trans (mem_zipIdx_one.mp hmem).2
      cases this
      exact ⟨e, hexec, hexc.resolve_right (by omega)⟩
    · exact hreach _ hp (show pos < a.pos by simp only at hpos; omega)
  · obtain ⟨a', ha', hok'⟩ := loopResult_ok_iff.mp (outcome_isOk (hans ▸ hr) hok)
    obtain ⟨⟨hmem', hres'⟩, -⟩ := Conn.mem_attempted.mp ha'
    refine ⟨a', hatt ▸ ha', fun heq => ?_, attempt_of_execClient (hres' ▸ hok')⟩
    rw [heq] at hmem' hres'
    have hid := (mem_zipIdx_one.mp hmem').2.symm.trans (mem_zipIdx_one.mp hmem).2
    rw [hok', Option.some.inj hid, hexec] at hres'
    cases hres'

end

/-- In every state of the server, a refused message is no delivery exactly when the refusals are
caught. -/
theorem refusal_not_delivery_iff (lib : PyLib) (priority : List Byte) (before : List Conn)
    (conn : Conn) :
    RefusalNotDelivery (getGwPriority priority) conn
        (serve lib (getGwPriority priority) (serverAfter lib (getGwPriority priority) before)
          conn) ↔
      RefusalsCaught lib (getGwPriority priority) conn := by
  have hgws := getGwPriority_ne_nil priority
  cases hreq : JsonRequest.str2json lib conn.data with
  | error e =>
    rw [serve_error hreq]
    constructor
    · intro _ req hreq'
      cases hreq.symm.trans hreq'
    · intro _ a ha
      cases ha
  | ok req =>
    obtain ⟨hatt, hout, -⟩ := serve_ok hgws (serverAfter_clean hgws before) hreq
    exact ⟨refusalsCaught_of_notDelivery hreq hatt,
      notDelivery_of_refusalsCaught hreq hatt (congrArg Prod.fst hout)⟩

/-- The gateway answers 503, and the module is told that the message was sent. -/
theorem refusal_not_delivery_fails :
    ¬ RefusalNotDelivery (getGwPriority (lit "http")) (.ann 503)
      (serve .strict (getGwPriority (lit "http")) .init (.ann 503)) := by
  intro h
  obtain ⟨req, text, hreq, -⟩ := Conn.ann_wellFormed 503
  obtain ⟨hatt, -, -⟩ :=
    serve_ok (getGwPriority_ne_nil (lit "http")) Server.init_clean hreq
  have hgws : getGwPriority (lit "http") = [lit "http"] := by decide
  have ha : (⟨1, lit "http", execClient req (lit "http") (.answering 503)⟩ : Attempt) ∈
      attempted ((Conn.ann 503).tries (getGwPriority (lit "http")) req) := by
    refine Conn.mem_attempted.mpr ⟨⟨by rw [hgws]; simp, rfl⟩, ?_⟩
    intro p hp hlt
    have := List.mem_zipIdx hp
    simp only at hlt
    omega
  obtain ⟨⟨e, he⟩, -⟩ := h _ (hatt ▸ ha) rfl 503 ⟨rfl, rfl, rfl, rfl, rfl⟩
    (by unfold Success; omega)
  cases he

end PamSmsauth
