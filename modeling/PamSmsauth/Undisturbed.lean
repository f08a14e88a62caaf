import PamSmsauth.Rounds
import PamSmsauth.Survival

/-!
# Undisturbed runs

In a run without killed servers, in which every connection that is served is tame, no server ends,
and a request that was sent either waits at a running server or has had its one round; then the
session reads `SMS_OK` if a gateway completed in that round, and a gateway error if none did
(`undisturbed_answer`). Outside such runs a session can read an error although the message was
delivered: when the server dies of the answer, or when its answer is lost.
-/

namespace PamSmsauth

open CText Eff

section

variable {lib : PyLib} {gws : List (List Byte)} {srv : Server} {conn : Conn}

/-- A tame connection is answered if the response can be sent. -/
theorem answer_of_tame (hgws : gws ≠ []) (hsrv : srv.Clean) (h : conn.Tame lib gws)
    (hsend : conn.sendOk = true) : ∃ resp, (serve lib gws srv conn).answer = some resp := by
  obtain ⟨req, hreq, htame⟩ := h
  have hanswer := congrArg Prod.fst (serve_ok hgws hsrv hreq).2.1
  rw [← loopResult_ok_iff_reaches, ← find_stops_eq_none_iff] at htame
  rcases htame with hok | ⟨hnone, -⟩
  · refine ⟨.of req.id .ok (lit "Send ok."), hanswer.trans ?_⟩
    simp [outcome, hok, hsend]
  · refine ⟨.of req.id .err (lit "Send error."), hanswer.trans ?_⟩
    simp [outcome, loopResult, hnone, hsend]

theorem escaped_of_tame (hgws : gws ≠ []) (hsrv : srv.Clean) (h : conn.Tame lib gws) :
    (serve lib gws srv conn).escaped = none :=
  (congrArg (·.2.2) (serve_clean conn hgws hsrv).2).trans ((escaped_iff hgws).mpr h)

end

variable {ι : Type} [DecidableEq ι]

namespace Host

/-- No server is killed, what is served is tame, and a session can be sent its answer. -/
def Undisturbed (d : Setup ι) (s : Host ι) : HostEvent ι → Prop
  | .serve k gateway sendOk _ _ => ∀ q ∈ (s.daemon k).backlog.head?,
      (q.conn gateway sendOk).Tame d.lib d.gwPriority ∧ (q.session ≠ none → sendOk = true)
  | .kill _ _ => False
  | _ => True

/-- The servers that were started run, no connection of a session is left open, and what a session
was delivered is an answer. -/
structure Steady (s : Host ι) : Prop where
  up : ∀ k, k ≠ 0 → k ≤ s.newest → (s.daemon k).srv ≠ none
  foreign : ∀ k q, (s.daemon k).conn = some q → q.session = none
  told : ∀ i got, s.inbox i = some got → s.Heard i got

variable {d : Setup ι} {P : Host ι → HostEvent ι → Prop} {s s' : Host ι} {i : ι} {k : ℕ}

namespace Steady

omit [DecidableEq ι] in
theorem push (h : Steady s) (q : Pending ι) : Steady (s.push q) where
  up k hk hle := by
    have hsrv := h.up k hk hle
    by_cases hkk : k = s.newest
    · rw [hkk] at hsrv ⊢
      rwa [push_daemon]
    · rwa [push_daemon_of_ne s q hkk]
  foreign k q' hq' := by
    by_cases hkk : k = s.newest
    · rw [hkk, push_daemon] at hq'
      exact h.foreign _ q' hq'
    · rw [push_daemon_of_ne s q hkk] at hq'
      exact h.foreign k q' hq'
  told := h.told

theorem ask (h : Steady s) (i : ι) : Steady (s.ask d i) := by
  have hs : Steady (s.schedule d i) := ⟨h.up, h.foreign, h.told⟩
  unfold Host.ask
  split
  · exact hs.push _
  · exact hs

theorem start (h : Steady s) : Steady (s.next d .start) where
  up k hk hle := by
    by_cases hkk : k = s.newest + 1
    · rw [hkk, start_daemon]
      exact Option.some_ne_none _
    · rw [start_daemon_of_ne s hkk]
      have hle : k ≤ s.newest + 1 := hle
      exact h.up k hk (by omega)
  foreign k q hq := by
    by_cases hkk : k = s.newest + 1
    · rw [hkk, start_daemon] at hq
      cases hq
    · rw [start_daemon_of_ne s hkk] at hq
      exact h.foreign k q hq
  told := h.told

omit [DecidableEq ι] in
/-- A server changes and stays up, and what the sessions are delivered is known. -/
theorem server (h : Steady s) {k : ℕ} {srv : Server} {conn : Option (Pending ι)}
    {rest : List (Pending ι)} {s₁ : Host ι} (hnewest : s₁.newest = s.newest)
    (hconn : ∀ q, conn = some q → q.session = none)
    (htold : ∀ i got, s₁.inbox i = some got → s₁.Heard i got) :
    Steady { s₁ with daemon := Function.update s.daemon k ⟨some srv, conn, rest⟩ } where
  up k' hk' hle := by
    by_cases hkk : k' = k
    · subst hkk
      simp
    · simpa [Function.update_of_ne hkk] using h.up k' hk' (hnewest ▸ hle)
  foreign k' q hq := by
    by_cases hkk : k' = k
    · subst hkk
      simp only [Function.update_self] at hq
      exact hconn q hq
    · simp only [Function.update_of_ne hkk] at hq
      exact h.foreign k' q hq
  told := htold

omit [DecidableEq ι] in
theorem heard_record (h : Steady s) (r : Round ι) {i : ι} {got : Option (List Byte)}
    (hgot : s.inbox i = some got) : (s.record r).Heard i got := by
  obtain ⟨r', hr', hrest⟩ := h.told i got hgot
  exact ⟨r', List.mem_append_left _ hr', hrest⟩

theorem round (h : Steady s) (hw : Wired d s) {gateway : ℕ → GatewayEnv} {sendOk : Bool}
    {text : List Byte} {got : ι → Option (List Byte)}
    (hquiet : Undisturbed d s (.serve k gateway sendOk text got))
    (hends : s.Ends d k gateway sendOk text got) :
    Steady (s.round d k gateway sendOk text got) := by
  obtain ⟨-, srv, conn, q, rest, r, hk, hr, hround⟩ := hends.cases
  obtain ⟨htame, hsend⟩ := hquiet q (by simp [hk])
  have hsrv : srv.Clean := hw.clean k srv (by rw [hk])
  have hgws : d.gwPriority ≠ [] := getGwPriority_ne_nil d.priority
  have hesc : r.served.escaped = none := by
    rw [hr]
    exact escaped_of_tame hgws hsrv htame
  have hclosed : ∀ i, ((s.record r).tell conn.toList got).inbox i = s.inbox i := by
    refine fun i => tell_inbox_of_not (s := s.record r) ?_
    cases hconn : conn with
    | none => rfl
    | some q' =>
      have hnone := h.foreign k q' (by rw [hk, hconn])
      rw [Option.toList_some, connectionsOf_singleton, hnone, if_neg (by simp)]
  rcases hround with ⟨-, ⟨resp, hanswer, htext⟩, hs⟩ | ⟨-, hanswer, hs⟩ | ⟨hne, -⟩
  · rw [hs]
    refine h.server rfl (fun q' hq' => nomatch hq') fun i got' hgot => ?_
    change (((s.record r).tell conn.toList got).tell [q] fun _ => some text).inbox i = _ at hgot
    by_cases hq : connectionsOf [q] i = 0
    · rw [tell_inbox_of_not hq, hclosed] at hgot
      exact h.heard_record r hgot
    · rw [tell_inbox, if_pos hq] at hgot
      have hqi : r.session = some i := by
        rw [connectionsOf_singleton] at hq
        rw [hr]
        exact of_not_not fun hne => hq (if_neg hne)
      exact ⟨r, List.mem_append_right _ (List.mem_singleton_self _), hqi, resp,
        text, hanswer, htext, (Option.some.inj hgot).symm⟩
  · rw [hs]
    refine h.server rfl (fun q' hq' => ?_) fun i got' hgot => ?_
    · cases hq'
      by_contra hq
      obtain ⟨resp, hresp⟩ := answer_of_tame hgws hsrv htame (hsend hq)
      rw [hr] at hanswer
      cases hresp.symm.trans hanswer
    · rw [hclosed] at hgot
      exact h.heard_record r hgot
  · exact absurd hesc hne

end Steady

theorem Reach.steady (hr : Reach d (Undisturbed d) s) : Steady s := by
  induction hr with
  | init =>
    exact ⟨fun k hk hle => absurd (Nat.le_zero.mp hle) hk, (fun k q hq => nomatch hq),
      fun i got h => nomatch h⟩
  | @step s e hr he henabled ih =>
    cases e with
    | session i => exact ih.ask i
    | connect data => exact ih.push _
    | start => exact ih.start
    | serve k gateway sendOk text got => exact ih.round hr.wired he henabled
    | kill k got => exact he.elim

theorem Once.round_unique (h : Once s i) {r r' : Round ι} (hr : r ∈ s.rounds) (hr' : r' ∈ s.rounds)
    (hi : r.session = some i) (hi' : r'.session = some i) : r' = r := by
  obtain ⟨before, after, hsplit⟩ := List.append_of_mem hr
  have honce := h.once
  rw [roundsOf, hsplit, List.map_append, List.map_cons, List.count_append, hi,
    List.count_cons_self] at honce
  have hnone : ∀ rs : List (Round ι), (rs.map Round.session).count (some i) = 0 → r' ∉ rs :=
    fun rs hzero hmem => List.count_eq_zero.mp hzero (List.mem_map.mpr ⟨r', hmem, hi'⟩)
  rw [hsplit, List.mem_append, List.mem_cons] at hr'
  rcases hr' with hr' | rfl | hr'
  · exact absurd hr' (hnone before (by omega))
  · rfl
  · exact absurd hr' (hnone after (by omega))

theorem undisturbed_answer (hlib : d.lib.Standard)
    (hclean : ∀ info, (d.call i).info = some info → info.Clean)
    (hr : Reach d (Undisturbed d) s) (hsends : s.Sends i) :
    (∀ k, k ≠ 0 → k ≤ s.newest → (s.daemon k).srv ≠ none) ∧
    ((s.inbox i = none ∧ s.roundsOf i = 0 ∧ ∃ k n, s.Ahead k i n ∧ (s.daemon k).srv ≠ none) ∨
      ∃ r ∈ s.rounds, r.session = some i ∧ (∀ r' ∈ s.rounds, r'.session = some i → r' = r) ∧
        ∃ text result, s.inbox i = some (some text) ∧
          wait4resp d.lf (some text) (d.requestId i) = some (result, d.requestId i) ∧
          (result = .ok ∧ (∃ a ∈ r.served.attempts, a.result = .ok ()) ∨
            result = .gatewayErr ∧ ∀ a ∈ r.served.attempts, a.result ≠ .ok ())) := by
  refine ⟨hr.steady.up, ?_⟩
  cases hinbox : s.inbox i with
  | none =>
    obtain ⟨k, n, hahead, -, -, hrounds⟩ := hr.ahead hsends hinbox
    refine .inl ⟨rfl, ?_, k, n, hahead, hr.running hahead.held_ne_zero⟩
    rcases hahead.2 with ⟨-, q, hconn, hq⟩ | ⟨front, q, back, -, -, hlen⟩
    · cases (hr.steady.foreign k q hconn).symm.trans hq
    · rw [hrounds, if_neg (by omega)]
  | some got =>
    obtain ⟨r, hround, hi, resp, text, hanswer, htext, rfl⟩ := hr.steady.told i got hinbox
    obtain ⟨info, words, -, -, hdec⟩ := hr.round_decodes hlib hclean hround hi
    obtain ⟨result, hread⟩ := hr.answer_read hround hdec rfl hanswer htext
    exact .inr ⟨r, hround, hi, fun r' hr' hi' => (hr.once i).round_unique hround hr' hi hi',
      text, result, rfl, hread⟩

theorem undisturbed_answer_ann : ∃ s : Host Unit, s.inbox () ≠ none ∧
    (∀ k, k ≠ 0 → k ≤ s.newest → (s.daemon k).srv ≠ none) ∧
    ((s.inbox () = none ∧ s.roundsOf () = 0 ∧ ∃ k n, s.Ahead k () n ∧ (s.daemon k).srv ≠ none) ∨
      ∃ r ∈ s.rounds, r.session = some () ∧ (∀ r' ∈ s.rounds, r'.session = some () → r' = r) ∧
        ∃ text result, s.inbox () = some (some text) ∧
          wait4resp annSetup.lf (some text) (annSetup.requestId ()) =
            some (result, annSetup.requestId ()) ∧
          (result = .ok ∧ (∃ a ∈ r.served.attempts, a.result = .ok ()) ∨
            result = .gatewayErr ∧ ∀ a ∈ r.served.attempts, a.result ≠ .ok ())) := by
  obtain ⟨s₁, hwaiting, -, hdaemon, -⟩ :=
    ann_waiting (P := Undisturbed annSetup) (fun _ _ _ _ => trivial) fun _ => trivial
  obtain ⟨sockPath, req, hmem, -⟩ :=
    hwaiting.wired.pending 1 ⟨some (), annText⟩ (by simp [hdaemon, Daemon.connections]) () rfl
  have htame : (Conn.mk (received annText) (fun _ => .answering 200) true).Tame annSetup.lib
      annSetup.gwPriority := by
    refine (escaped_iff (getGwPriority_ne_nil _)).mp ?_
    by_contra hesc
    cases (answer_eq_none hesc).symm.trans (serve_ann rfl)
  have hquiet : ∀ text got,
      Undisturbed annSetup s₁ (.serve 1 (fun _ => .answering 200) true text got) := by
    intro text got q hq
    rw [hdaemon] at hq
    cases hq
    exact ⟨htame, fun _ => rfl⟩
  obtain ⟨s, hs, hpool, hinbox⟩ := hwaiting.answered 1 (fun _ => .answering 200) hquiet hdaemon
    (serve_ann rfl) annAnswer_json2str
  refine ⟨s, by simp [hinbox () rfl], undisturbed_answer PyLib.strict_standard (fun info h => ?_) hs
    ⟨sockPath, req, hpool ▸ hmem⟩⟩
  cases annSetup_info.symm.trans h
  exact annInfo_clean

end Host

end PamSmsauth
