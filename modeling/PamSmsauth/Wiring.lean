import PamSmsauth.Host

/-!
# What is said on the socket

Over any run of the host, a server has of a session nothing but its request, and a session has of
the servers nothing but the answer of a round that was about its own request, or a closed connection
(`Wired`). An answer of `SMS_OK` comes from a round in which a gateway completed, so a session that
was told `SMS_OK` has had its password delivered to the number in its user's record
(`Reach.delivered`).
-/

namespace PamSmsauth

open CText Eff

/-! ## The request of a session -/

def Op.isRequest : Op → Bool
  | .smsRequest _ _ => true
  | _ => false

def NoRequest (es : List PamEvent) : Prop := ∀ e ∈ es, ¬ Op.isRequest e.1

theorem NoRequest.append {es : List PamEvent} {e : PamEvent} (h : NoRequest es)
    (he : ¬ Op.isRequest e.1) : NoRequest (es ++ [e]) := by
  intro e' he'
  rcases List.mem_append.mp he' with he' | he'
  · exact h e' he'
  · rw [List.mem_singleton.mp he']
    exact he

theorem not_isRequest_of_at {op : Op} {site : Site} (h : op.At site) : ¬ op.isRequest := by
  cases op <;> simp [Op.isRequest]
  cases h

/-- The session has made no request yet, and asks for its password to be sent to its user. -/
def Call.Requests (c : Call) (es : List PamEvent) (op : Op) : Prop :=
  op.isRequest → NoRequest es ∧ ∃ info words, c.info = some info ∧ c.words = some words ∧
    op = .smsRequest c.arg.sockPath (jsonReqSet info (smsText (c.newOtp words).bytes))

namespace Call

variable {c : Call} {α : Type} {es : List PamEvent}

/-- A block without a request, before it. -/
theorem traced_before {p : PamProg α} (hp : p.Asks fun op : Op => ¬ op.isRequest)
    (h : NoRequest es) : p.Traced c.Answers c.Requests (fun es _ => NoRequest es) es :=
  hp.traced (fun _ _ _ hop hreq => absurd hreq hop) (fun _ _ h he => h.append he) h

/-- A block without a request, anywhere. -/
theorem traced_quiet {p : PamProg α} (hp : p.Asks fun op : Op => ¬ op.isRequest) :
    p.Traced c.Answers c.Requests (fun _ _ => True) es :=
  hp.traced (fun _ _ _ hop hreq => absurd hreq hop) (fun _ _ _ _ => trivial) trivial

theorem userGetInfo_requests {user : CString} {Q : List PamEvent → Option UserInfo → Prop}
    (hQ : Q (es ++ [⟨.getpwnam user, c.gecos⟩]) c.info) :
    (userGetInfo user).Traced c.Answers c.Requests Q es := by
  refine ⟨(nomatch ·), fun gecos hgecos => ?_⟩
  obtain ⟨T, rfl⟩ := hgecos
  exact hQ

theorem otpGen_requests {Q : List PamEvent → Option CString → Prop}
    (hQ : Q (es ++ [⟨.urandom c.arg.otpLen, c.words⟩]) (c.words.map c.newOtp)) :
    (otpGen c.arg.otpLen c.arg.otpType).Traced c.Answers c.Requests Q es := by
  refine ⟨(nomatch ·), fun words hwords => ?_⟩
  obtain ⟨T, rfl⟩ := hwords
  exact hQ

theorem smsSend_requests {info : UserInfo} {words : Nat → UInt64} (hinfo : c.info = some info)
    (hwords : c.words = some words) (h : NoRequest es) :
    (smsSend c.arg.sockPath info (c.newOtp words)).Traced c.Answers c.Requests
      (fun _ _ => True) es := by
  refine ⟨fun _ => ⟨h, info, words, hinfo, hwords, rfl⟩, fun failure _ => ?_⟩
  cases failure with
  | some failure => trivial
  | none => exact ⟨(nomatch ·), fun _ _ => trivial⟩

theorem provideOtp_requests {user : CString} {info : UserInfo} (hinfo : c.info = some info)
    (h : NoRequest es) :
    (provideOtp c.arg c.ctrl user info).Traced c.Answers c.Requests (fun _ _ => True) es := by
  refine Prog.traced_bind.mpr ((traced_before ((pamIsRegisteredVar_asks _ user _ _).mono
    fun _ => not_isRequest_of_at) h).mono (fun _ _ h => h) fun es registered hes => ?_)
  cases registered with
  | true => trivial
  | false =>
    refine Prog.traced_bind.mpr (otpGen_requests ?_)
    cases hw : c.words with
    | none => trivial
    | some words =>
      have hno := hes.append (e := ⟨.urandom c.arg.otpLen, some words⟩) (by simp [Op.isRequest])
      refine Prog.traced_bind.mpr ((smsSend_requests hinfo hw hno).mono (fun _ _ h => h)
        fun es result _ => ?_)
      refine traced_quiet (.ite trivial (Prog.Asks.bind ?_ fun done => .ite trivial trivial))
      exact (pamRegisterOtp_asks user _).mono fun _ => not_isRequest_of_at

theorem loginUser_requests (user : CString) (h : NoRequest es) :
    (loginUser c.arg c.ctrl user c.time.1).Traced c.Answers c.Requests (fun _ _ => True) es := by
  have hno := h.append (e := ⟨.getpwnam user, c.gecos⟩) (by simp [Op.isRequest])
  refine Prog.traced_bind.mpr (userGetInfo_requests ?_)
  cases hi : c.info with
  | none => trivial
  | some info =>
    refine Prog.traced_bind.mpr ((traced_before ((purgeExpired_asks user _).mono
      fun _ h => h.elim not_isRequest_of_at not_isRequest_of_at) hno).mono (fun _ _ h => h)
      fun es _ hes => ?_)
    refine Prog.traced_bind.mpr ((traced_before ((registerUser_asks user _).mono
      fun _ h => h.elim not_isRequest_of_at not_isRequest_of_at) hes).mono (fun _ _ h => h)
      fun es registered hes => ?_)
    cases registered with
    | false => trivial
    | true =>
      refine Prog.traced_bind.mpr ((provideOtp_requests hi hes).mono (fun _ _ h => h)
        fun es exit _ => ?_)
      cases exit with
      | some exit => trivial
      | none =>
        refine traced_quiet ((checkToken_asks user _).mono fun op hop => ?_)
        rcases hop with rfl | hat
        · simp [Op.isRequest]
        · exact not_isRequest_of_at hat

theorem prog_requests (c : Call) : c.prog.Traced c.Answers c.Requests (fun _ _ => True) [] := by
  refine ⟨(nomatch ·), fun time htime => ?_⟩
  obtain ⟨T, rfl⟩ := htime
  have hno : NoRequest [⟨.time, (c.handler .time T).1⟩] := by simp [NoRequest, Op.isRequest]
  cases c.user with
  | none => trivial
  | some user =>
    change (if exceptMatch c.arg c.ctrl user then Prog.ret Exit.exceptUser
      else loginUser c.arg c.ctrl user c.time.1).Traced _ _ _ _
    split
    · trivial
    · exact loginUser_requests user hno

end Call

/-! ## The connections -/

namespace Host

variable {ι : Type} {d : Setup ι} {s s' : Host ι}

/-- The session has sent its request, and this is its text. -/
def Requested (d : Setup ι) (s : Host ι) (i : ι) (data : List Byte) : Prop :=
  ∃ sockPath req, (i, ⟨.smsRequest sockPath req, none⟩) ∈ s.pool.world.log ∧
    data = requestText (d.requestId i) req

/-- A round of the session was answered with this. -/
def Heard (s : Host ι) (i : ι) (got : Option (List Byte)) : Prop :=
  ∃ r ∈ s.rounds, r.session = some i ∧ ∃ resp text, r.served.answer = some resp ∧
    resp.Json2str text ∧ got = some text

/-- A round of the session ended with this delivery, or its connection was closed. -/
def Answered (s : Host ι) (i : ι) (got : Option (List Byte)) : Prop := HungUp got ∨ s.Heard i got

structure Wired (d : Setup ι) (s : Host ι) : Prop where
  clean : ∀ k srv, (s.daemon k).srv = some srv → srv.Clean
  pending : ∀ k, ∀ q ∈ (s.daemon k).connections, ∀ i, q.session = some i → s.Requested d i q.data
  served : ∀ r ∈ s.rounds, ∃ srv, srv.Clean ∧ r.served = serve d.lib d.gwPriority srv r.conn
  round : ∀ r ∈ s.rounds, ∀ i, r.session = some i →
    ∃ data, s.Requested d i data ∧ r.conn.data = received data
  inbox : ∀ i got, s.inbox i = some got → s.Answered i got
  acked : ∀ i, (i, ⟨.smsResponse, .ok⟩) ∈ s.pool.world.log → ∃ got id, s.Answered i got ∧
    wait4resp d.lf got (d.requestId i) = some (.ok, id)

theorem Answered.mono {i : ι} {got : Option (List Byte)} (h : s.Answered i got)
    (hrounds : ∀ r ∈ s.rounds, r ∈ s'.rounds) : s'.Answered i got := by
  rcases h with h | ⟨r, hr, h⟩
  · exact .inl h
  · exact .inr ⟨r, hrounds r hr, h⟩

theorem Requested.mono {i : ι} {data : List Byte} (h : s.Requested d i data)
    (hlog : ∀ e ∈ s.pool.world.log, e ∈ s'.pool.world.log) : s'.Requested d i data := by
  obtain ⟨sockPath, req, hmem, hdata⟩ := h
  exact ⟨sockPath, req, hlog _ hmem, hdata⟩

/-! ## What the parts of an event preserve -/

theorem wired_init [DecidableEq ι] (d : Setup ι) : Wired d (init d) where
  clean _ _ h := nomatch h
  pending _ _ h := nomatch h
  served _ h := nomatch h
  round _ h := nomatch h
  inbox _ _ h := nomatch h
  acked _ h := nomatch h

namespace Wired

/-- A server process changes, and has only connections that are accounted for. -/
theorem setDaemon (h : Wired d s) (k : ℕ) {dm : Daemon ι}
    (hclean : ∀ srv, dm.srv = some srv → srv.Clean)
    (hpending : ∀ q ∈ dm.connections, ∀ i, q.session = some i → s.Requested d i q.data) (n : ℕ) :
    Wired d { s with daemon := Function.update s.daemon k dm, newest := n } where
  clean k' srv hk := by
    by_cases hkk : k' = k
    · subst hkk
      simp only [Function.update_self] at hk
      exact hclean srv hk
    · simp only [Function.update_of_ne hkk] at hk
      exact h.clean k' srv hk
  pending k' q hq := by
    by_cases hkk : k' = k
    · subst hkk
      simp only [Function.update_self] at hq
      exact hpending q hq
    · simp only [Function.update_of_ne hkk] at hq
      exact h.pending k' q hq
  served := h.served
  round := h.round
  inbox := h.inbox
  acked := h.acked

theorem push (h : Wired d s) {q : Pending ι}
    (hq : ∀ i, q.session = some i → s.Requested d i q.data) : Wired d (s.push q) := by
  refine h.setDaemon s.newest ?_ ?_ s.newest
  · exact h.clean s.newest
  intro q' hq'
  rw [Daemon.connections, ← List.append_assoc] at hq'
  rcases List.mem_append.mp hq' with hq' | hq'
  · exact h.pending s.newest q' hq'
  · rw [List.mem_singleton.mp hq']
    exact hq

theorem record (h : Wired d s) {r : Round ι}
    (hserved : ∃ srv, srv.Clean ∧ r.served = serve d.lib d.gwPriority srv r.conn)
    (hround : ∀ i, r.session = some i → ∃ data, s.Requested d i data ∧
      r.conn.data = received data) :
    Wired d (s.record r) where
  clean := h.clean
  pending := h.pending
  served r' hr' := by
    rcases List.mem_append.mp hr' with hr' | hr'
    · exact h.served r' hr'
    · rw [List.mem_singleton.mp hr']
      exact hserved
  round r' hr' := by
    rcases List.mem_append.mp hr' with hr' | hr'
    · exact h.round r' hr'
    · rw [List.mem_singleton.mp hr']
      exact hround
  inbox i got hi := (h.inbox i got hi).mono fun r hr => List.mem_append_left _ hr
  acked i hi := by
    obtain ⟨got, id, hans, hwait⟩ := h.acked i hi
    exact ⟨got, id, hans.mono fun r hr => List.mem_append_left _ hr, hwait⟩

variable [DecidableEq ι]

theorem tell (h : Wired d s) (qs : List (Pending ι)) (got : ι → Option (List Byte))
    (hgot : ∀ q ∈ qs, ∀ i, q.session = some i → s.Answered i (got i)) :
    Wired d (s.tell qs got) where
  clean := h.clean
  pending := h.pending
  served := h.served
  round := h.round
  inbox i got' hi := by
    simp only [Host.tell] at hi
    split_ifs at hi with hmem
    · obtain ⟨q, hq, hqi⟩ := List.mem_map.mp hmem
      rw [← Option.some.inj hi]
      exact hgot q hq i hqi
    · exact h.inbox i got' hi
  acked := h.acked

theorem close (h : Wired d s) {k : ℕ} {got : ι → Option (List Byte)}
    (hgot : ∀ q ∈ (s.daemon k).connections, ∀ i, q.session = some i → s.Answered i (got i)) :
    Wired d (s.close k got) :=
  (h.tell _ got hgot).setDaemon k (by simp) (by simp [Daemon.connections]) s.newest

end Wired

/-! ## Runs -/

/-- When an exception leaves the loop, nothing was answered in that round. -/
theorem answer_eq_none {lib : PyLib} {gws : List (List Byte)} {srv : Server} {conn : Conn}
    (h : (serve lib gws srv conn).escaped ≠ none) : (serve lib gws srv conn).answer = none := by
  have hhandle : ∀ (srv : Server) (as : List Attempt) (e : Exc),
      (handle srv conn as e).escaped ≠ none → (handle srv conn as e).answer = none := by
    intro srv as e he
    unfold handle at he ⊢
    split
    · split
      · rfl
      · rename_i id hid
        simp only [hid] at he
        split_ifs at he ⊢
        · exact absurd rfl he
        · rfl
    · rfl
    · rfl
  unfold serve at h ⊢
  split
  · rename_i e he
    rw [he] at h
    exact hhandle _ _ _ h
  · rename_i req hreq
    rw [hreq] at h
    simp only at h ⊢
    split
    · rename_i hloop
      rw [hloop] at h
      exact hhandle _ _ _ h
    · rename_i hloop
      rw [hloop] at h
      simp only at h
      split_ifs at h ⊢
      · exact absurd rfl h
      · exact hhandle _ _ _ h

/-- A closed connection is no acknowledgement. -/
theorem wait4resp_of_hungUp {lf : List Byte → Option (List Byte)} {got : Option (List Byte)}
    (h : HungUp got) (id id' : UInt32) : wait4resp lf got id ≠ some (.ok, id') := by
  rcases h with rfl | rfl
  · intro hwait
    cases hwait
  · have hparse : jsonTokenerParse lf (readBuffer []) =
        .error (errorPtr JsonTokenerError.parseEof.num) := jsonTokenerParse_of_steps .refl rfl
    simp [wait4resp, jsonCheckSrvResp, hparse, checkParsed]

variable [DecidableEq ι] {P : Host ι → HostEvent ι → Prop}

theorem Wired.round_step (h : Wired d s) {k : ℕ} {gateway : ℕ → GatewayEnv} {sendOk : Bool}
    {text : List Byte} {got : ι → Option (List Byte)} (hends : s.Ends d k gateway sendOk text got) :
    Wired d (s.round d k gateway sendOk text got) := by
  obtain ⟨hgot, srv, conn, q, rest, r, hk, hr, hround⟩ := hends.cases
  have hsrv : srv.Clean := h.clean k srv (by rw [hk])
  have hpend := h.pending k
  rw [hk] at hpend
  have hq : q ∈ Daemon.connections ⟨some srv, conn, q :: rest⟩ :=
    List.mem_append_right _ (List.mem_cons_self ..)
  have hrest : ∀ q' ∈ rest, q' ∈ Daemon.connections ⟨some srv, conn, q :: rest⟩ :=
    fun q' hq' => List.mem_append_right _ (List.mem_cons_of_mem _ hq')
  have hclean : r.served.srv.Clean := by
    rw [hr]
    exact (serve_clean _ (getGwPriority_ne_nil _) hsrv).1
  have hrec : Wired d (s.record r) := by
    refine h.record ⟨srv, hsrv, by rw [hr]⟩ fun i hi => ⟨q.data, hpend q hq i ?_, by rw [hr]; rfl⟩
    rwa [hr] at hi
  have hclosed := hrec.tell conn.toList got fun _ _ i _ => .inl (hgot i)
  rcases hround with ⟨-, ⟨resp, hanswer, htext⟩, hs⟩ | ⟨-, -, hs⟩ | ⟨-, hs⟩
  · rw [hs]
    have htold := hclosed.tell [q] (fun _ => some text) fun q' hq' i hi => by
      rw [List.mem_singleton.mp hq'] at hi
      exact .inr ⟨r, List.mem_append_right _ (List.mem_singleton_self _), by rw [hr]; exact hi,
        resp, text, hanswer, htext, rfl⟩
    refine htold.setDaemon k (fun srv' hsrv' => ?_) (fun q' hq' => ?_) s.newest
    · cases hsrv'
      exact hclean
    · exact hpend q' (hrest q' hq')
  · rw [hs]
    refine hclosed.setDaemon k (fun srv' hsrv' => ?_) (fun q' hq' => ?_) s.newest
    · cases hsrv'
      exact hclean
    · rcases List.mem_cons.mp hq' with rfl | hq'
      · exact hpend q' hq
      · exact hpend q' (hrest q' hq')
  · rw [hs]
    exact hrec.close fun _ _ i _ => .inl (hgot i)

/-- What a session does next is done to the log; a request is new there, and so is what it was
answered. -/
theorem Wired.schedule (h : Wired d s) (hr : Reach d P s) {i : ι} (hready : s.Ready d i) :
    Wired d (s.schedule d i) := by
  cases hk : s.pool.sess i with
  | ret exit =>
    have hsame : s.schedule d i = s := by rw [Host.schedule, Pool.step_ret _ hk]
    rw [hsame]
    exact h
  | ask op k =>
    have hw : s.pool.Waits i op := Pool.waits_iff.mpr ⟨k, hk⟩
    have hm : Move d.call s.pool i op _ (s.schedule d i).pool := move_of_reach hr.pool hw
    have hlog : ∀ e ∈ s.pool.world.log, e ∈ (s.schedule d i).pool.world.log :=
      fun e he => hm.mem_log.mpr (.inl he)
    constructor
    case clean => exact h.clean
    case pending => exact fun k q hq j hj => (h.pending k q hq j hj).mono hlog
    case served => exact h.served
    case round =>
      intro r hr' j hj
      obtain ⟨data, hdata, heq⟩ := h.round r hr' j hj
      exact ⟨data, hdata.mono hlog, heq⟩
    case inbox => exact h.inbox
    case acked =>
      intro j hj
      rcases hm.mem_log.mp hj with hj | hj
      · exact h.acked j hj
      · obtain ⟨rfl, he⟩ := Prod.mk.inj hj
        obtain ⟨rfl, hok⟩ := Sigma.mk.inj he
        unfold Ready at hready
        rw [show s.pool.next j = some .smsResponse from hw] at hready
        obtain ⟨got, id, hinbox, hwait⟩ := hready
        have hok : (d.call j).response = .ok := (eq_of_heq hok).symm
        rw [hok] at hwait
        exact ⟨got, id, h.inbox j got hinbox, hwait⟩

theorem Wired.ask (h : Wired d s) (hr : Reach d P s) {i : ι} (hready : s.Ready d i) :
    Wired d (s.ask d i) := by
  have hs := h.schedule hr hready
  unfold Host.ask
  split
  case h_2 => exact hs
  rename_i q hq
  refine hs.push fun j hj => ?_
  unfold connection at hq
  split at hq
  case h_2 => cases hq
  rename_i sockPath req hnext
  have hm : Move d.call s.pool i _ _ (s.schedule d i).pool := move_of_reach hr.pool hnext
  split at hq
  · rename_i hcall
    cases hq
    cases hj
    exact ⟨sockPath, req, hm.mem_log.mpr (.inr (by rw [← hcall]; rfl)), rfl⟩
  · split_ifs at hq
    cases hq
    cases hj

theorem Reach.wired (h : Reach d P s) : Wired d s := by
  induction h with
  | init => exact wired_init d
  | @step s e h hC henabled ih =>
    cases e with
    | session i => exact ih.ask h henabled
    | connect data => exact ih.push fun i hi => nomatch hi
    | start =>
      refine ih.setDaemon (s.newest + 1) (fun srv hsrv => ?_) (by simp [Daemon.connections]) _
      cases hsrv
      exact Server.init_clean
    | serve k gateway sendOk text got => exact ih.round_step henabled
    | kill k got => exact ih.close fun q hq i hi => .inl (henabled i)

/-! ## What was delivered -/

/-- A request that was sent carries the password of its session, and its session sends no other. -/
theorem Reach.requests (h : Reach d P s) {i : ι} {es es' : List PamEvent} {e : PamEvent}
    (hown : s.pool.world.own i = es ++ e :: es') : (d.call i).Requests es e.1 :=
  h.pool.asked (V := fun i => (d.call i).Answers) (P := fun i => (d.call i).Requests)
    (Q := fun _ _ _ => True) (fun _ _ T => ⟨T, rfl⟩) (fun i => (d.call i).prog_requests) rfl i es e
    es' hown

theorem Reach.requests_next (h : Reach d P s) {i : ι} {op : Op} (hw : s.pool.Waits i op) :
    (d.call i).Requests (s.pool.world.own i) op := by
  have hi := h.pool.traced (V := fun i => (d.call i).Answers) (P := fun i => (d.call i).Requests)
    (Q := fun _ _ _ => True) (fun _ _ T => ⟨T, rfl⟩) (fun i => (d.call i).prog_requests) i
  obtain ⟨k, hk⟩ := Pool.waits_iff.mp hw
  rw [hk] at hi
  exact hi.1

theorem Reach.requested (h : Reach d P s) {i : ι} {data : List Byte} (hreq : s.Requested d i data) :
    ∃ info words, (d.call i).info = some info ∧ (d.call i).words = some words ∧
      data = (jsonReq2str (smsRequest info ((d.call i).newOtp words).bytes (d.requestId i))).2 := by
  obtain ⟨sockPath, req, hmem, rfl⟩ := hreq
  obtain ⟨es, es', hown⟩ := List.append_of_mem (World.mem_own.mpr hmem)
  obtain ⟨-, info, words, hinfo, hwords, hop⟩ := h.requests hown rfl
  cases hop
  exact ⟨info, words, hinfo, hwords, rfl⟩

/-- A gateway completed for the request in which session `i` asked for `otp` to be sent to the
number in its user's record. -/
def Delivered (d : Setup ι) (s : Host ι) (i : ι) (otp : CString) : Prop :=
  ∃ r ∈ s.rounds, r.session = some i ∧ ∃ info, (d.call i).info = some info ∧
    JsonRequest.str2json d.lib r.conn.data =
      .ok (smsRequest info otp.bytes (d.requestId i)).received ∧
    ∃ a ∈ r.served.attempts, a.result = .ok ()

/-- The server that had the connection of a session took its request for what it is. -/
theorem Reach.round_decodes (h : Reach d P s) (hlib : d.lib.Standard) {i : ι}
    (hclean : ∀ info, (d.call i).info = some info → info.Clean) {r : Round ι} (hr : r ∈ s.rounds)
    (hi : r.session = some i) :
    ∃ info words, (d.call i).info = some info ∧ (d.call i).words = some words ∧
      JsonRequest.str2json d.lib r.conn.data =
        .ok (smsRequest info ((d.call i).newOtp words).bytes (d.requestId i)).received := by
  obtain ⟨data, hreq, hdata⟩ := h.wired.round r hr i hi
  obtain ⟨info, words, hinfo, hwords, rfl⟩ := h.requested hreq
  obtain ⟨gecos, -, hgecos⟩ := Option.bind_eq_some_iff.mp hinfo
  have hset : userSetInfo gecos = .ok info := by
    cases hu : userSetInfo gecos with
    | error e => rw [hu] at hgecos; cases hgecos
    | ok user => rw [hu] at hgecos; cases hgecos; rfl
  exact ⟨info, words, hinfo, hwords,
    serve_decodes hlib (userSetInfo_sendable hset) (hclean info hinfo) hdata⟩

/-- What a session makes of an answer to its request says what the gateways did in that round. -/
theorem Reach.answer_read (h : Reach d P s) {r : Round ι} (hr : r ∈ s.rounds) {i : ι}
    {req : JsonRequest} (hdec : JsonRequest.str2json d.lib r.conn.data = .ok req)
    (hid : req.id = wrap32 (d.requestId i).toNat) {resp : JsonResponse}
    (hanswer : r.served.answer = some resp) {text : List Byte} (htext : resp.Json2str text) :
    ∃ result, wait4resp d.lf (some text) (d.requestId i) = some (result, d.requestId i) ∧
      (result = .ok ∧ (∃ a ∈ r.served.attempts, a.result = .ok ()) ∨
        result = .gatewayErr ∧ ∀ a ∈ r.served.attempts, a.result ≠ .ok ()) := by
  obtain ⟨srv, hsrv, hserved⟩ := h.wired.served r hr
  rw [hserved] at hanswer ⊢
  obtain ⟨result, rfl, hresult⟩ := answer_eq (getGwPriority_ne_nil _) hsrv hdec hanswer
  rw [hid] at htext
  have hcheck := check_json2str d.lf (d.requestId i) result htext (d.requestId i)
  cases result with
  | ok => exact ⟨.ok, by simp only [wait4resp, hcheck]; rfl, .inl ⟨rfl, hresult.mp rfl⟩⟩
  | err =>
    refine ⟨.gatewayErr, by simp only [wait4resp, hcheck]; rfl, .inr ⟨rfl, fun a ha hok => ?_⟩⟩
    cases hresult.mpr ⟨a, ha, hok⟩

theorem Reach.delivered (h : Reach d P s) (hlib : d.lib.Standard) {i : ι} {otp : CString}
    (hclean : ∀ info, (d.call i).info = some info → info.Clean)
    (hsent : Sent d.call s.pool i otp) : s.Delivered d i otp := by
  obtain ⟨hack, hotp⟩ := hsent
  obtain ⟨got, id, hans, hwait⟩ := h.wired.acked i hack
  rcases hans with hhung | ⟨r, hr, hi, resp, text, hanswer, htext, rfl⟩
  · exact absurd hwait (wait4resp_of_hungUp hhung _ _)
  obtain ⟨info, words, hinfo, hwords, hdec⟩ := h.round_decodes hlib hclean hr hi
  rw [hwords] at hotp
  cases hotp
  obtain ⟨result, hread, ⟨-, hdone⟩ | ⟨rfl, -⟩⟩ := h.answer_read hr hdec rfl hanswer htext
  · exact ⟨r, hr, hi, info, hinfo, hdec, hdone⟩
  · cases hread.symm.trans hwait

/-! ## How a run goes on -/

/-- The session does not talk to the server in its next step. -/
def Quiet (p : Sessions ι) (i : ι) : Prop :=
  ∀ op ∈ p.next i, ¬ Op.isRequest op ∧ op ≠ .smsResponse

instance (p : Sessions ι) (i : ι) : Decidable (Quiet p i) :=
  inferInstanceAs (Decidable (∀ op ∈ p.next i, ¬ Op.isRequest op ∧ op ≠ .smsResponse))

theorem Reach.sessions (h : Reach d P s) {C : Sessions ι → ι → Prop}
    (hP : ∀ p i, C p i → P { s with pool := p } (.session i)) (is : List ι)
    (hC : s.pool.Along (handlers d.call) (fun p i => C p i ∧ Quiet p i) is) :
    Reach d P { s with pool := s.pool.exec (handlers d.call) is } := by
  induction is generalizing s with
  | nil => exact h
  | cons i is ih =>
    obtain ⟨⟨hi, hquiet⟩, his⟩ := hC
    have hask : s.ask d i = s.schedule d i := by
      have hconn : s.connection d i = none := by
        unfold connection
        split
        · rename_i hnext
          exact absurd rfl (hquiet _ hnext).1
        · rfl
      rw [Host.ask, hconn]
    have hready : s.Ready d i := by
      unfold Ready
      split
      · rename_i hnext
        exact absurd rfl (hquiet _ hnext).1
      · rename_i hnext
        exact absurd rfl (hquiet _ hnext).2
      · trivial
    have hstep := h.step (.session i) (hP s.pool i hi) hready
    rw [next, hask] at hstep
    exact ih hstep hP his

theorem Reach.request (h : Reach d P s) (i : ι) (req : JsonPacketReq) (hP : P s (.session i))
    (hw : s.pool.Waits i (.smsRequest d.sockPath req)) (hcall : (d.call i).request = none)
    (hup : s.Up) :
    Reach d P ((s.schedule d i).push ⟨some i, requestText (d.requestId i) req⟩) := by
  have hw' : s.pool.next i = some (.smsRequest d.sockPath req) := hw
  have hready : s.Ready d i := by
    unfold Ready
    rw [hw']
    exact fun _ => ⟨rfl, hup⟩
  have hstep := h.step (.session i) hP hready
  have hconn : s.connection d i = some ⟨some i, requestText (d.requestId i) req⟩ := by
    unfold connection
    rw [hw']
    simp only [hcall]
  rwa [next, Host.ask, hconn] at hstep

theorem Reach.answered (h : Reach d P s) (k : ℕ) (gateway : ℕ → GatewayEnv)
    (hP : ∀ text got, P s (.serve k gateway true text got)) {srv : Server}
    {conn : Option (Pending ι)} {q : Pending ι} {rest : List (Pending ι)} {resp : JsonResponse}
    {text : List Byte} (hk : s.daemon k = ⟨some srv, conn, q :: rest⟩)
    (hanswer : (serve d.lib d.gwPriority srv (q.conn gateway true)).answer = some resp)
    (htext : resp.Json2str text) :
    ∃ s', Reach d P s' ∧ s'.pool = s.pool ∧
      ∀ i, q.session = some i → s'.inbox i = some (some text) := by
  have hends : s.Ends d k gateway true text fun _ => none := by
    unfold Ends
    rw [hk]
    refine ⟨fun resp' hresp' => ?_, fun _ => .inl rfl⟩
    cases hanswer.symm.trans hresp'
    exact htext
  refine ⟨_, h.step (.serve k gateway true text fun _ => none) (hP _ _) hends, round_pool ..,
    fun i hi => ?_⟩
  obtain ⟨-, srv', conn', q', rest', r, hk', rfl, hround⟩ := hends.cases
  cases hk.symm.trans hk'
  rw [next]
  rcases hround with ⟨-, -, hs⟩ | ⟨-, hnone, -⟩ | ⟨hesc, -⟩
  · rw [hs]
    simp [Host.tell, hi]
  · cases hanswer.symm.trans hnone
  · cases hanswer.symm.trans (answer_eq_none hesc)

theorem Reach.response (h : Reach d P s) {i : ι} {got : Option (List Byte)} {id : UInt32}
    (hP : P s (.session i)) (hw : s.pool.Waits i .smsResponse) (hinbox : s.inbox i = some got)
    (hwait : wait4resp d.lf got (d.requestId i) = some ((d.call i).response.result, id)) :
    Reach d P (s.schedule d i) := by
  have hw' : s.pool.next i = some .smsResponse := hw
  have hready : s.Ready d i := by
    unfold Ready
    rw [hw']
    exact ⟨got, id, hinbox, hwait⟩
  have hstep := h.step (.session i) hP hready
  have hconn : s.connection d i = none := by
    unfold connection
    rw [hw']
  rwa [next, Host.ask, hconn] at hstep

end Host

end PamSmsauth
