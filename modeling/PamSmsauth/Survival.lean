import PamSmsauth.Failover

/-!
# What stops the server

`deliver_sms` handles `ClientError` and `socket.error`, and the second handler does not cover what
the first one does. So its loop is left by every request that does not decode, by a gateway that
raises something other than an `Exception`, and by a `conn.send` that fails after all gateways have
failed. A server that meets none of these serves every connection as if it were the first
(`survives_iff`).
-/

namespace PamSmsauth

open CText

/-- Nothing leaves the loop, every connection is served, and each is answered as if no other had
come before it. -/
structure Survives (lib : PyLib) (gws : List (List Byte)) (conns : List Conn) : Prop where
  continues : ∀ s ∈ deliverSms lib gws .init conns, s.escaped = none
  answers : (deliverSms lib gws .init conns).map Served.answer =
    conns.map fun conn => (serve lib gws .init conn).answer

/-- The request decodes; and either some gateway completes after those before it have raised
exceptions, or all of them raise exceptions and the response can be sent. -/
def Conn.Tame (lib : PyLib) (gws : List (List Byte)) (conn : Conn) : Prop :=
  ∃ req, JsonRequest.str2json lib conn.data = .ok req ∧
    ((∃ p ∈ gws.zipIdx 1, conn.Reaches gws req p.2 ∧
        execClient req p.1 (conn.gateway p.2) = .ok ()) ∨
      conn.Reaches gws req (gws.length + 1) ∧ conn.sendOk = true)

section

variable {lib : PyLib} {gws : List (List Byte)} {conn : Conn} {req : JsonRequest}

theorem loopResult_ok_iff_reaches : loopResult (conn.tries gws req) = .ok () ↔
    ∃ p ∈ gws.zipIdx 1, conn.Reaches gws req p.2 ∧
      execClient req p.1 (conn.gateway p.2) = .ok () := by
  rw [loopResult_ok_iff]
  constructor
  · rintro ⟨a, ha, hok⟩
    obtain ⟨⟨hmem, hres⟩, hreach⟩ := Conn.mem_attempted.mp ha
    exact ⟨_, hmem, hreach, hres ▸ hok⟩
  · rintro ⟨p, hp, hreach, hok⟩
    exact ⟨⟨p.2, p.1, _⟩, Conn.mem_attempted.mpr ⟨⟨hp, rfl⟩, hreach⟩, hok⟩

/-- The loop runs through when every gateway raises an exception. -/
theorem find_stops_eq_none_iff :
    (conn.tries gws req).find? Attempt.stops = none ↔ conn.Reaches gws req (gws.length + 1) := by
  rw [List.find?_eq_none, Conn.reaches_iff]
  constructor
  · intro h b hb _
    exact Bool.not_eq_true _ ▸ h b hb
  · intro h b hb hs
    have hpos := (lt_pos_of_mem_tries hb).2
    rw [h b hb (by omega)] at hs
    cases hs

theorem outcome_escaped_iff : (outcome gws conn req).2 = none ↔
    loopResult (conn.tries gws req) = .ok () ∨
      conn.Reaches gws req (gws.length + 1) ∧ conn.sendOk = true := by
  rw [← find_stops_eq_none_iff]
  unfold outcome loopResult
  cases hfind : (conn.tries gws req).find? Attempt.stops with
  | none => cases conn.sendOk <;> simp
  | some a =>
    have hstop : a.stops = true := List.find?_some hfind
    cases hr : a.result with
    | ok u => simp [hr]
    | error e =>
      -- what stops the loop by raising is none of the handled classes
      rw [Attempt.stops, hr] at hstop
      cases e <;> simp [Exc.isException, hr] at hstop ⊢

theorem escaped_iff (hgws : gws ≠ []) :
    (serve lib gws .init conn).escaped = none ↔ conn.Tame lib gws := by
  cases hreq : JsonRequest.str2json lib conn.data with
  | error e =>
    rw [serve_error hreq]
    constructor
    · intro h
      cases h
    · rintro ⟨req, hreq', -⟩
      cases hreq.symm.trans hreq'
  | ok req =>
    obtain ⟨-, hout, -⟩ := serve_ok hgws Server.init_clean hreq
    have hesc : (serve lib gws .init conn).escaped = (outcome gws conn req).2 :=
      congrArg Prod.snd hout
    rw [hesc, outcome_escaped_iff, loopResult_ok_iff_reaches]
    constructor
    · exact fun h => ⟨req, hreq, h⟩
    · rintro ⟨req', hreq', h⟩
      cases hreq.symm.trans hreq'
      exact h

end

theorem escaped_of_deliverSms {lib : PyLib} {gws : List (List Byte)} {srv : Server}
    {conns : List Conn} (hgws : gws ≠ []) (hsrv : srv.Clean)
    (h : ∀ s ∈ deliverSms lib gws srv conns, s.escaped = none) :
    ∀ conn ∈ conns, (serve lib gws .init conn).escaped = none := by
  induction conns generalizing srv with
  | nil => simp
  | cons conn conns ih =>
    obtain ⟨hclean, hseen⟩ := serve_clean conn hgws hsrv
    have hesc : (serve lib gws srv conn).escaped = (serve lib gws .init conn).escaped :=
      congrArg (·.2.2) hseen
    simp only [deliverSms] at h
    split_ifs at h with hnone
    · intro c hc
      rcases List.mem_cons.mp hc with rfl | hc
      · exact hesc ▸ hnone
      · exact ih hclean (fun s hs => h s (by simp [hs])) c hc
    · exact absurd (h _ (by simp)) hnone

/-- The server survives a run exactly when every connection of it is tame. -/
theorem survives_iff (lib : PyLib) (priority : List Byte) (conns : List Conn) :
    Survives lib (getGwPriority priority) conns ↔
      ∀ conn ∈ conns, conn.Tame lib (getGwPriority priority) := by
  have hgws := getGwPriority_ne_nil priority
  constructor
  · intro h conn hconn
    rw [← escaped_iff hgws]
    exact escaped_of_deliverSms hgws Server.init_clean h.continues conn hconn
  · intro h
    have hesc : ∀ conn ∈ conns, (serve lib (getGwPriority priority) .init conn).escaped = none :=
      fun conn hconn => (escaped_iff hgws).mpr (h conn hconn)
    have hseen := deliverSms_seen hgws Server.init_clean hesc
    constructor
    case continues =>
      intro s hs
      have hmem := List.mem_map_of_mem (f := Served.seen) hs
      rw [hseen] at hmem
      obtain ⟨conn, hconn, heq⟩ := List.mem_map.mp hmem
      rw [← hesc conn hconn]
      exact congrArg (·.2.2) heq.symm
    case answers =>
      have hanswer := congrArg (List.map fun seen => seen.2.1) hseen
      rw [List.map_map, List.map_map] at hanswer
      exact hanswer

/-- A client that connects and sends nothing. -/
theorem survives_fails :
    ¬ Survives .strict (getGwPriority (lit "http")) [{ Conn.ann 200 with data := [] }] := by
  intro h
  have hempty : JsonRequest.str2json .strict [] = .error .valueError := rfl
  have hserve : serve .strict (getGwPriority (lit "http")) .init { Conn.ann 200 with data := [] } =
      ⟨.init, [], none, some .valueError⟩ := serve_error hempty
  have hesc := h.continues _ (by rw [deliverSms, hserve]; exact List.mem_singleton_self _)
  cases hesc

end PamSmsauth
