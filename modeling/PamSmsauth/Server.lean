import PamSmsauth.Gateway

/-!
# The SMS server (`server.py`)

`deliverSms` serves one connection after the other. A connection comes with the bytes that
`conn.recv` returns, with what the gateways meet that are attempted for it, by their position in the
priority list, and with what becomes of `conn.send`. Serving it decodes the request, tries the
gateways (`serviceLoop`, which counts the position by hand) and answers; what escapes its handlers
ends the loop.
-/

namespace PamSmsauth

open CText

/-- `priority.split(",")`. -/
def getGwPriority (priority : List Byte) : List (List Byte) := priority.splitOn 44

theorem getGwPriority_ne_nil (priority : List Byte) : getGwPriority priority ≠ [] :=
  List.splitOnP_ne_nil _ _

structure Conn where
  data : List Byte
  gateway : Nat → GatewayEnv
  sendOk : Bool

/-- One gateway that was attempted. -/
structure Attempt where
  pos : Nat
  gwId : List Byte
  result : Outcome

/-- `__exec_client`; the log line after the sending needs a text. -/
def execClient (req : JsonRequest) (gwId : List Byte) (env : GatewayEnv) : Outcome := do
  attempt gwId env
  match req.sms with
  | .str _ => return
  | _ => throw .typeError

/-- The loop of `__service`, for a list of `len` gateways of which `i` have been attempted. -/
def serviceLoop (len : Nat) (run : Nat → List Byte → Outcome) :
    Nat → List (List Byte) → List Attempt × Outcome
  | _, [] => ([], .ok ())
  | i, gwId :: rest =>
    match run (i + 1) gwId with
    | .ok () => ([⟨i + 1, gwId, .ok ()⟩], .ok ())
    | .error e =>
      if e.isException then
        if i + 1 = len then ([⟨i + 1, gwId, .error e⟩], .error .clientError)
        else
          (⟨i + 1, gwId, .error e⟩ :: (serviceLoop len run (i + 1) rest).1,
            (serviceLoop len run (i + 1) rest).2)
      else ([⟨i + 1, gwId, .error e⟩], .error e)

/-- What the server keeps: `self.__packetId`, once it is set, and the response object. -/
structure Server where
  packetId : Option Int
  resp : JsonResponse

def Server.init : Server := ⟨none, .init⟩

/-- One round of the loop of `deliver_sms`: the server after it, the gateways attempted, the
response that was sent, and the exception that left the loop. -/
structure Served where
  srv : Server
  attempts : List Attempt
  answer : Option JsonResponse
  escaped : Option Exc

/-- The `except` clauses of `deliver_sms`. -/
def handle (srv : Server) (conn : Conn) (attempts : List Attempt) : Exc → Served
  | .clientError =>
    match srv.packetId with
    | none => ⟨srv, attempts, none, some .attributeError⟩
    | some id =>
      let resp := ((srv.resp.setId id).setResult .err).setMsg (lit "Send error.")
      if conn.sendOk then ⟨{ srv with resp }, attempts, some resp, none⟩
      else ⟨{ srv with resp }, attempts, none, some .socketError⟩
  | .socketError => ⟨srv, attempts, none, none⟩
  | e => ⟨srv, attempts, none, some e⟩

def serve (lib : PyLib) (gwPriority : List (List Byte)) (srv : Server) (conn : Conn) : Served :=
  match JsonRequest.str2json lib conn.data with
  | .error e => handle srv conn [] e
  | .ok req =>
    match serviceLoop gwPriority.length (fun i gwId => execClient req gwId (conn.gateway i)) 0
      gwPriority with
    | (attempts, .error e) => handle { srv with packetId := some req.id } conn attempts e
    | (attempts, .ok ()) =>
      let resp := ((srv.resp.setId req.id).setResult .ok).setMsg (lit "Send ok.")
      if conn.sendOk then ⟨⟨some req.id, resp⟩, attempts, some resp, none⟩
      else handle ⟨some req.id, resp⟩ conn attempts .socketError

/-- The rounds that are made for these connections. -/
def deliverSms (lib : PyLib) (gwPriority : List (List Byte)) : Server → List Conn → List Served
  | _, [] => []
  | srv, conn :: conns =>
    let served := serve lib gwPriority srv conn
    if served.escaped = none then served :: deliverSms lib gwPriority served.srv conns
    else [served]

/-! ## The loop over the gateways -/

/-- The attempt ends the loop. -/
def Attempt.stops (a : Attempt) : Bool :=
  match a.result with
  | .ok () => true
  | .error e => !e.isException

/-- What the gateways of the list would do for the request, each at its position. -/
def tries (run : Nat → List Byte → Outcome) (i : Nat) (gws : List (List Byte)) : List Attempt :=
  (gws.zipIdx (i + 1)).map fun p => ⟨p.2, p.1, run p.2 p.1⟩

@[simp] theorem tries_nil (run : Nat → List Byte → Outcome) (i : Nat) : tries run i [] = [] := rfl

theorem tries_cons (run : Nat → List Byte → Outcome) (i : Nat) (gwId : List Byte)
    (gws : List (List Byte)) :
    tries run i (gwId :: gws) = ⟨i + 1, gwId, run (i + 1) gwId⟩ :: tries run (i + 1) gws := by
  simp [tries]

/-- The gateways that are attempted: up to the first that stops the loop. -/
def attempted (as : List Attempt) : List Attempt :=
  as.takeWhile (!·.stops) ++ (as.find? Attempt.stops).toList

theorem attempted_cons (a : Attempt) (as : List Attempt) :
    attempted (a :: as) = if a.stops then [a] else a :: attempted as := by
  unfold attempted
  by_cases h : a.stops <;> simp [h]

/-- How the loop ends: as the gateway that stopped it, or with the error for the module. -/
def loopResult (as : List Attempt) : Outcome :=
  match as.find? Attempt.stops with
  | some a => a.result
  | none => .error .clientError

theorem loopResult_cons (a : Attempt) (as : List Attempt) :
    loopResult (a :: as) = if a.stops then a.result else loopResult as := by
  unfold loopResult
  by_cases h : a.stops <;> simp [h]

theorem serviceLoop_eq {len i : Nat} {run : Nat → List Byte → Outcome} {gws : List (List Byte)}
    (hne : gws ≠ []) (h : i + gws.length = len) :
    serviceLoop len run i gws = (attempted (tries run i gws), loopResult (tries run i gws)) := by
  induction gws generalizing i with
  | nil => exact absurd rfl hne
  | cons gwId rest ih =>
    rw [tries_cons, attempted_cons, loopResult_cons, serviceLoop]
    cases hrun : run (i + 1) gwId with
    | ok u => simp [Attempt.stops]
    | error e =>
      by_cases he : e.isException
      · -- the last gateway is the one whose position is the length of the list
        have hlen : i + 1 = len ↔ rest = [] := by
          rw [List.length_cons] at h
          rw [← List.length_eq_zero_iff]
          omega
        by_cases hrest : rest = []
        · subst hrest
          simp [Attempt.stops, he, hlen.mpr rfl, attempted, loopResult]
        · have hrec := ih hrest (i := i + 1) (by rw [List.length_cons] at h; omega)
          simp only [if_pos he, if_neg (mt hlen.mp hrest), hrec]
          simp [Attempt.stops, he]
      · simp [Attempt.stops, he]

theorem Attempt.stops_eq_false_iff {a : Attempt} :
    a.stops = false ↔ ∃ e, a.result = .error e ∧ e.isException = true := by
  unfold stops
  cases a.result with
  | ok u => simp
  | error e => simp

theorem attempted_isPrefix (as : List Attempt) : attempted as <+: as := by
  induction as with
  | nil => exact List.prefix_refl _
  | cons a as ih =>
    rw [attempted_cons]
    split
    · exact ⟨as, rfl⟩
    · exact List.cons_prefix_cons.mpr ⟨rfl, ih⟩

/-- Only the last gateway that is attempted stops the loop. -/
theorem eq_nil_of_stops {as as₁ as₂ : List Attempt} {a : Attempt}
    (h : attempted as = as₁ ++ a :: as₂) (ha : a.stops = true) : as₂ = [] := by
  induction as generalizing as₁ with
  | nil => simp [attempted] at h
  | cons b as ih =>
    rw [attempted_cons] at h
    split_ifs at h with hb
    · cases as₁ with
      | nil => cases h; rfl
      | cons c as₁ => simp at h
    · cases as₁ with
      | nil => cases h; exact absurd ha hb
      | cons c as₁ => exact ih (List.cons.inj h).2

theorem attempted_eq_self {as : List Attempt} (h : ∀ a ∈ attempted as, a.stops = false) :
    attempted as = as := by
  induction as with
  | nil => rfl
  | cons a as ih =>
    rw [attempted_cons] at h ⊢
    split_ifs at h ⊢ with ha
    · simp [ha] at h
    · rw [ih fun b hb => h b (by simp [hb])]

theorem loopResult_ok_iff {as : List Attempt} :
    loopResult as = .ok () ↔ ∃ a ∈ attempted as, a.result = .ok () := by
  induction as with
  | nil => simp [loopResult, attempted]
  | cons a as ih =>
    rw [loopResult_cons, attempted_cons]
    split_ifs with ha
    · simp
    · obtain ⟨e, he, -⟩ := Attempt.stops_eq_false_iff.mp (Bool.not_eq_true _ ▸ ha)
      simp [ih, he]

theorem lt_pos_of_mem_tries {run : Nat → List Byte → Outcome} {i : Nat} {gws : List (List Byte)}
    {a : Attempt} (h : a ∈ tries run i gws) : i < a.pos ∧ a.pos ≤ i + gws.length := by
  simp only [tries, List.mem_map] at h
  obtain ⟨p, hp, rfl⟩ := h
  have := List.mem_zipIdx hp
  simp only at this ⊢
  omega

/-- A gateway is attempted when those before it do not stop the loop. -/
theorem mem_attempted_tries {run : Nat → List Byte → Outcome} {i : Nat} {gws : List (List Byte)}
    {a : Attempt} : a ∈ attempted (tries run i gws) ↔
      a ∈ tries run i gws ∧ ∀ b ∈ tries run i gws, b.pos < a.pos → b.stops = false := by
  induction gws generalizing i with
  | nil => simp [attempted]
  | cons gwId gws ih =>
    rw [tries_cons, attempted_cons]
    have hlater : ∀ b ∈ tries run (i + 1) gws, i + 1 < b.pos :=
      fun b hb => (lt_pos_of_mem_tries hb).1
    split_ifs with hstop
    · simp only [List.mem_cons, List.not_mem_nil, or_false, forall_eq_or_imp]
      constructor
      · rintro rfl
        exact ⟨.inl rfl, fun h => absurd h (lt_irrefl _), fun b hb h => by
          have := hlater b hb; simp only at h; omega⟩
      · rintro ⟨rfl | ha, hfirst, -⟩
        · rfl
        · have := hfirst (hlater a ha)
          rw [hstop] at this
          cases this
    · simp only [List.mem_cons, forall_eq_or_imp, ih]
      constructor
      · rintro (rfl | ⟨ha, hbefore⟩)
        · exact ⟨.inl rfl, fun h => absurd h (lt_irrefl _), fun b hb h => by
            have := hlater b hb; simp only at h; omega⟩
        · exact ⟨.inr ha, fun _ => Bool.not_eq_true _ ▸ hstop, hbefore⟩
      · rintro ⟨rfl | ha, -, hbefore⟩
        · exact .inl rfl
        · exact .inr ⟨ha, hbefore⟩

/-- The gateways of the list with what they would do for a request of the connection. -/
def Conn.tries (conn : Conn) (gws : List (List Byte)) (req : JsonRequest) : List Attempt :=
  PamSmsauth.tries (fun i gwId => execClient req gwId (conn.gateway i)) 0 gws

theorem Conn.mem_tries {conn : Conn} {gws : List (List Byte)} {req : JsonRequest} {a : Attempt} :
    a ∈ conn.tries gws req ↔
      (a.gwId, a.pos) ∈ gws.zipIdx 1 ∧ a.result = execClient req a.gwId (conn.gateway a.pos) := by
  simp only [tries, PamSmsauth.tries, List.mem_map, Prod.exists]
  constructor
  · rintro ⟨gwId, i, hmem, rfl⟩
    exact ⟨hmem, rfl⟩
  · rintro ⟨hmem, hres⟩
    exact ⟨a.gwId, a.pos, hmem, by rw [← hres]⟩

/-- Every gateway of the list before the position raises an `Exception`. -/
def Conn.Reaches (conn : Conn) (gws : List (List Byte)) (req : JsonRequest) (pos : Nat) : Prop :=
  ∀ p ∈ gws.zipIdx 1, p.2 < pos →
    ∃ e, execClient req p.1 (conn.gateway p.2) = .error e ∧ e.isException = true

theorem Conn.reaches_iff {conn : Conn} {gws : List (List Byte)} {req : JsonRequest} {pos : Nat} :
    conn.Reaches gws req pos ↔ ∀ b ∈ conn.tries gws req, b.pos < pos → b.stops = false := by
  constructor
  · intro h b hb hlt
    obtain ⟨hmem, hres⟩ := mem_tries.mp hb
    rw [Attempt.stops_eq_false_iff, hres]
    exact h _ hmem hlt
  · intro h p hp hlt
    have hb : (⟨p.2, p.1, execClient req p.1 (conn.gateway p.2)⟩ : Attempt) ∈ conn.tries gws req :=
      mem_tries.mpr ⟨hp, rfl⟩
    exact Attempt.stops_eq_false_iff.mp (h _ hb hlt)

theorem Conn.mem_attempted {conn : Conn} {gws : List (List Byte)} {req : JsonRequest}
    {a : Attempt} : a ∈ attempted (conn.tries gws req) ↔
      ((a.gwId, a.pos) ∈ gws.zipIdx 1 ∧ a.result = execClient req a.gwId (conn.gateway a.pos)) ∧
        conn.Reaches gws req a.pos := by
  rw [reaches_iff, ← mem_tries]
  exact mem_attempted_tries

/-! ## One round -/

/-- The response object between requests: the command, or a whole answer. -/
def Server.Clean (srv : Server) : Prop :=
  srv.resp = .init ∨ ∃ id result msg, srv.resp = .of id result msg

theorem Server.init_clean : Server.init.Clean := .inl rfl

theorem Server.Clean.resp {srv : Server} (h : srv.Clean) (id : Int) (result : JsonResp)
    (msg : List Byte) : ((srv.resp.setId id).setResult result).setMsg msg = .of id result msg := by
  rcases h with h | ⟨id', result', msg', h⟩
  · rw [h]; exact JsonResponse.set_init id result msg
  · rw [h]; exact JsonResponse.set_of id result msg id' result' msg'

/-- What a round does for a request that decodes. -/
def outcome (gws : List (List Byte)) (conn : Conn) (req : JsonRequest) :
    Option JsonResponse × Option Exc :=
  match loopResult (conn.tries gws req) with
  | .ok () => (if conn.sendOk then some (.of req.id .ok (lit "Send ok.")) else none, none)
  | .error .clientError =>
    if conn.sendOk then (some (.of req.id .err (lit "Send error.")), none)
    else (none, some .socketError)
  | .error .socketError => (none, none)
  | .error e => (none, some e)

theorem serve_ok {lib : PyLib} {gws : List (List Byte)} {srv : Server} {conn : Conn}
    {req : JsonRequest} (hgws : gws ≠ []) (hsrv : srv.Clean)
    (hreq : JsonRequest.str2json lib conn.data = .ok req) :
    (serve lib gws srv conn).attempts = attempted (conn.tries gws req) ∧
      ((serve lib gws srv conn).answer, (serve lib gws srv conn).escaped) = outcome gws conn req ∧
      (serve lib gws srv conn).srv.Clean := by
  have hloop : serviceLoop gws.length (fun i gwId => execClient req gwId (conn.gateway i)) 0 gws =
      (attempted (conn.tries gws req), loopResult (conn.tries gws req)) :=
    serviceLoop_eq hgws (Nat.zero_add gws.length)
  simp only [serve, hreq, hloop, outcome, Conn.tries]
  generalize loopResult _ = r
  cases r with
  | ok u =>
    simp only [hsrv.resp]
    cases conn.sendOk with
    | true => exact ⟨rfl, rfl, .inr ⟨_, _, _, rfl⟩⟩
    | false => exact ⟨rfl, rfl, .inr ⟨_, _, _, rfl⟩⟩
  | error e =>
    cases e with
    | clientError =>
      simp only [handle, hsrv.resp]
      cases conn.sendOk with
      | true => exact ⟨rfl, rfl, .inr ⟨_, _, _, rfl⟩⟩
      | false => exact ⟨rfl, rfl, .inr ⟨_, _, _, rfl⟩⟩
    | _ => exact ⟨rfl, rfl, hsrv⟩

/-- A request that does not decode ends the loop. -/
theorem serve_error {lib : PyLib} {gws : List (List Byte)} {srv : Server} {conn : Conn} {e : Exc}
    (h : JsonRequest.str2json lib conn.data = .error e) :
    serve lib gws srv conn = ⟨srv, [], none, some e⟩ := by
  have hforeign := JsonRequest.str2json_foreign lib conn.data e h
  simp only [serve, h]
  cases e with
  | clientError => exact absurd rfl hforeign.1
  | socketError => exact absurd rfl hforeign.2
  | _ => rfl

/-! ## Runs -/

/-- What a round shows. -/
def Served.seen (s : Served) : List Attempt × Option JsonResponse × Option Exc :=
  (s.attempts, s.answer, s.escaped)

/-- A round keeps the response object clean, and what it shows does not depend on earlier ones. -/
theorem serve_clean {lib : PyLib} {gws : List (List Byte)} {srv : Server} (conn : Conn)
    (hgws : gws ≠ []) (hsrv : srv.Clean) :
    (serve lib gws srv conn).srv.Clean ∧
      (serve lib gws srv conn).seen = (serve lib gws .init conn).seen := by
  cases hreq : JsonRequest.str2json lib conn.data with
  | error e => rw [serve_error hreq, serve_error hreq]; exact ⟨hsrv, rfl⟩
  | ok req =>
    obtain ⟨hatt, hout, hclean⟩ := serve_ok hgws hsrv hreq
    obtain ⟨hatt', hout', -⟩ := serve_ok hgws Server.init_clean hreq
    exact ⟨hclean, Prod.ext (hatt.trans hatt'.symm) (hout.trans hout'.symm)⟩

/-- The server after the rounds for these connections. -/
def serverAfter (lib : PyLib) (gws : List (List Byte)) (conns : List Conn) : Server :=
  conns.foldl (fun srv conn => (serve lib gws srv conn).srv) .init

theorem serverAfter_clean {lib : PyLib} {gws : List (List Byte)} (hgws : gws ≠ [])
    (conns : List Conn) : (serverAfter lib gws conns).Clean := by
  induction conns using List.reverseRecOn with
  | nil => exact Server.init_clean
  | append_singleton conns conn ih =>
    rw [serverAfter, List.foldl_append]
    exact (serve_clean conn hgws ih).1

/-- As long as nothing escapes, every connection is served, as it would be alone. -/
theorem deliverSms_seen {lib : PyLib} {gws : List (List Byte)} {srv : Server} {conns : List Conn}
    (hgws : gws ≠ []) (hsrv : srv.Clean)
    (h : ∀ conn ∈ conns, (serve lib gws .init conn).escaped = none) :
    (deliverSms lib gws srv conns).map Served.seen =
      conns.map fun conn => (serve lib gws .init conn).seen := by
  induction conns generalizing srv with
  | nil => rfl
  | cons conn conns ih =>
    obtain ⟨hclean, hseen⟩ := serve_clean conn hgws hsrv
    have hesc : (serve lib gws srv conn).escaped = none := by
      rw [← h conn (by simp)]
      exact congrArg (·.2.2) hseen
    simp only [deliverSms, hesc, if_true, List.map_cons, hseen]
    rw [ih hclean fun conn' hconn' => h conn' (by simp [hconn'])]

end PamSmsauth
