import PamSmsauth.EndToEnd
import PamSmsauth.Handover

/-!
# From the token to what a gateway was given

When the gateways of every round are the clients of `server.py`, over any libraries that read usable
configurations, a login that its token lets in had its password handed over: some library call of an
attempt that completed was given a form, a mail or a short message with the password's text and the
number of the user that logs in, and that attempt handed over nothing else (`token_handed_over`).
-/

namespace PamSmsauth

open CText Eff Raising

/-- The gateways of the connection are the clients, run from this state with these libraries. -/
structure Conn.Driven (lib : PyLib) (py : PyText) (gws : List (List Byte)) (conn : Conn)
    (req : JsonRequest) {σ : Type} (h : Handler gwCalls.iface σ) (s : σ) : Prop where
  answers : ∀ op s, GwOp.Answers op (h op s).1
  gateway : conn.gateway = gatewayOf lib py req h gws s

/-- Some libraries drive the connection, if its request decodes. -/
def Conn.DrivenBy (lib : PyLib) (py : PyText) (gws : List (List Byte)) (conn : Conn) : Prop :=
  ∀ req, JsonRequest.str2json lib conn.data = .ok req →
    ∃ (σ : Type) (h : Handler gwCalls.iface σ) (s : σ), conn.Driven lib py gws req h s

/-- The events are those of an attempt for a message with this number and this text, and it was
handed over. -/
def Handed (number text : List Byte) (es : List GwEvent) : Prop :=
  ∃ m : SmsMessage, m.number = number ∧ m.text = text ∧ HandedOver es ∧
    ∀ pre e post, es = pre ++ e :: post → m.Allows pre e.1

variable {lib : PyLib} {py : PyText} {gws : List (List Byte)} {srv : Server} {conn : Conn}
  {info : UserInfo} {otp : CString} {id : UInt32}

namespace Host

variable {ι : Type} [DecidableEq ι] {d : Setup ι} {P : Host ι → HostEvent ι → Prop} {s : Host ι}

/-- The gateways of a round are the clients. -/
def Driven (d : Setup ι) (py : PyText) (s : Host ι) : HostEvent ι → Prop
  | .serve k gateway sendOk _ _ => ∀ q ∈ (s.daemon k).backlog.head?,
      (q.conn gateway sendOk).DrivenBy d.lib py d.gwPriority
  | _ => True

/-- In a round of session `i` an attempt completed, and handed its password over to the number in
its user's record; so it was whatever drove the gateways, and the clients did. -/
def HandedOver (d : Setup ι) (py : PyText) (s : Host ι) (i : ι) (otp : CString) : Prop :=
  ∃ r ∈ s.rounds, r.session = some i ∧ ∃ info, (d.call i).info = some info ∧
    let req := (smsRequest info otp.bytes (d.requestId i)).received
    (∃ (σ : Type) (h : Handler gwCalls.iface σ) (s₀ : σ),
      r.conn.Driven d.lib py d.gwPriority req h s₀) ∧
    ∀ {σ : Type} {h : Handler gwCalls.iface σ} {s₀ : σ},
      r.conn.Driven d.lib py d.gwPriority req h s₀ →
      ∃ es, es <:+: trace (serviceProg d.lib py req d.gwPriority.length 0 d.gwPriority) h s₀ ∧
        Handed info.celNumber (smsText otp.bytes) es

end Host

variable {ι : Type} [DecidableEq ι] {d : Setup ι} {s : Host ι} {i : ι} {input buf : List Byte}
  {n : ℕ}

end PamSmsauth
