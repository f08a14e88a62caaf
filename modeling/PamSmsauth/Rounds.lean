import PamSmsauth.EndToEnd

/-!
# One round for each request

A request that was sent is with one server, once, or it has been answered or hung up on, and there
is never more than one round about it (`Once`). While it waits, the connections before it can only
get fewer, by one for each round of its server, and a connection that its round left open is closed
by the next one. So it is over after as many rounds as there are connections up to it and one more,
or when its server ends (`request_served_once`).
-/

namespace PamSmsauth

open CText Eff

variable {ι : Type} [DecidableEq ι]

/-- The event is a round of server `k`. -/
def HostEvent.serves (k : ℕ) : HostEvent ι → Bool
  | .serve k' _ _ _ _ => k' = k
  | _ => false

namespace Host

/-- How many of these connections are of session `i`. -/
def connectionsOf (qs : List (Pending ι)) (i : ι) : ℕ := (qs.map Pending.session).count (some i)

/-- The connections of the session at server `k`, and those of them that had their round. -/
def held (s : Host ι) (k : ℕ) (i : ι) : ℕ := connectionsOf (s.daemon k).connections i

def leftOpen (s : Host ι) (k : ℕ) (i : ι) : ℕ := connectionsOf (s.daemon k).conn.toList i

def roundsOf (s : Host ι) (i : ι) : ℕ := (s.rounds.map Round.session).count (some i)

/-- The session has sent its request. -/
def Sends (s : Host ι) (i : ι) : Prop :=
  ∃ sockPath req, (i, ⟨.smsRequest sockPath req, none⟩) ∈ s.pool.world.log

structure Once (s : Host ι) (i : ι) : Prop where
  before : NoRequest (s.pool.world.own i) →
    (∀ k, s.held k i = 0) ∧ s.roundsOf i = 0 ∧ s.inbox i = none
  waiting : ∀ k, s.held k i ≠ 0 → s.held k i = 1 ∧ (∀ k', k' ≠ k → s.held k' i = 0) ∧
    s.roundsOf i = s.leftOpen k i ∧ s.inbox i = none
  once : s.roundsOf i ≤ 1
  kept : s.Sends i → s.inbox i = none → ∃ k, s.held k i ≠ 0

variable {d : Setup ι} {P : Host ι → HostEvent ι → Prop} {s s' : Host ι} {i j : ι} {k : ℕ}

@[simp] theorem connectionsOf_nil (i : ι) : connectionsOf [] i = 0 := rfl

@[simp] theorem connectionsOf_append (qs qs' : List (Pending ι)) (i : ι) :
    connectionsOf (qs ++ qs') i = connectionsOf qs i + connectionsOf qs' i := by
  rw [connectionsOf, List.map_append, List.count_append]
  rfl

theorem connectionsOf_cons (q : Pending ι) (qs : List (Pending ι)) (i : ι) :
    connectionsOf (q :: qs) i = connectionsOf [q] i + connectionsOf qs i :=
  connectionsOf_append [q] qs i

theorem connectionsOf_singleton (q : Pending ι) (i : ι) :
    connectionsOf [q] i = if q.session = some i then 1 else 0 := by
  simp [connectionsOf, List.count_singleton]

theorem leftOpen_le_held (s : Host ι) (k : ℕ) (i : ι) : s.leftOpen k i ≤ s.held k i := by
  rw [leftOpen, held, Daemon.connections, connectionsOf_append]
  exact Nat.le_add_right _ _

namespace Once

theorem of_eq (h : Once s i) (hheld : ∀ k, s'.held k i = s.held k i)
    (hleft : ∀ k, s'.leftOpen k i = s.leftOpen k i)
    (hrounds : s'.roundsOf i = s.roundsOf i) (hinbox : s'.inbox i = s.inbox i)
    (hown : ∀ e ∈ s.pool.world.own i, e ∈ s'.pool.world.own i)
    (hsends : s'.Sends i → s.Sends i) : Once s' i where
  before hno := by
    simp only [hheld, hrounds, hinbox]
    exact h.before fun e he => hno e (hown e he)
  waiting k hk := by
    simp only [hheld, hleft, hrounds, hinbox] at hk ⊢
    exact h.waiting k hk
  once := by
    rw [hrounds]
    exact h.once
  kept hs hi := by
    simp only [hheld]
    exact h.kept (hsends hs) (by rw [← hinbox]; exact hi)

/-- One server goes on: the connection of the session, if it is there, is closed, or stays. -/
theorem server (h : Once s i) (k : ℕ) (hpool : s'.pool = s.pool)
    (hothers : ∀ k', k' ≠ k → s'.daemon k' = s.daemon k')
    (hfree : s.held k i = 0 →
      s'.held k i = 0 ∧ s'.roundsOf i = s.roundsOf i ∧ s'.inbox i = s.inbox i)
    (hhas : s.held k i = 1 → s.roundsOf i = s.leftOpen k i →
      s'.held k i = 0 ∧ s'.roundsOf i ≤ 1 ∧ s'.inbox i ≠ none ∨
        s'.held k i = 1 ∧ s'.roundsOf i = s'.leftOpen k i ∧ s'.inbox i = s.inbox i) :
    Once s' i := by
  have hheld : ∀ k', k' ≠ k → s'.held k' i = s.held k' i := by
    intro k' hk'
    rw [held, held, hothers k' hk']
  have hleft : ∀ k', k' ≠ k → s'.leftOpen k' i = s.leftOpen k' i := by
    intro k' hk'
    rw [leftOpen, leftOpen, hothers k' hk']
  by_cases hk : s.held k i = 0
  · obtain ⟨hk', hrounds, hinbox⟩ := hfree hk
    refine h.of_eq (fun k' => ?_) (fun k' => ?_) hrounds hinbox (fun _ he => hpool ▸ he)
      fun hs => ?_
    · by_cases hkk : k' = k
      · rw [hkk, hk', hk]
      · exact hheld k' hkk
    · by_cases hkk : k' = k
      · have hle := s.leftOpen_le_held k i
        have hle' := s'.leftOpen_le_held k i
        rw [hkk]
        omega
      · exact hleft k' hkk
    · rwa [Sends, hpool] at hs
  obtain ⟨hone, hzero, hopen, hinbox⟩ := h.waiting k hk
  have hbefore : ¬ NoRequest (s'.pool.world.own i) := by
    intro hno
    rw [hpool] at hno
    exact hk ((h.before hno).1 k)
  have hzero' : ∀ k', k' ≠ k → s'.held k' i = 0 := fun k' hkk => (hheld k' hkk).trans (hzero k' hkk)
  rcases hhas hone hopen with ⟨hk', hrounds, hinbox'⟩ | ⟨hk', hrounds, hinbox'⟩
  · have hnone : ∀ k', s'.held k' i = 0 := by
      intro k'
      by_cases hkk : k' = k
      · rw [hkk, hk']
      · exact hzero' k' hkk
    exact ⟨fun hno => absurd hno hbefore, fun k' hne => absurd (hnone k') hne, hrounds,
      fun _ hi => absurd hi hinbox'⟩
  · have hle := s'.leftOpen_le_held k i
    refine ⟨fun hno => absurd hno hbefore, fun k' hne => ?_, by omega, fun _ _ => ⟨k, by omega⟩⟩
    by_cases hkk : k' = k
    · rw [hkk]
      exact ⟨hk', hzero', hrounds, hinbox'.trans hinbox⟩
    · exact absurd (hzero' k' hkk) hne

end Once

theorem tell_inbox (s : Host ι) (qs : List (Pending ι)) (got : ι → Option (List Byte)) (i : ι) :
    (s.tell qs got).inbox i =
      if connectionsOf qs i ≠ 0 then some (got i) else s.inbox i := by
  simp only [tell, connectionsOf, ne_eq, List.count_eq_zero, not_not]

theorem record_roundsOf (s : Host ι) {r : Round ι} {q : Pending ι} (hr : r.session = q.session)
    (i : ι) : (s.record r).roundsOf i = s.roundsOf i + connectionsOf [q] i := by
  simp [roundsOf, record, connectionsOf, List.count_append, hr]

theorem tell_inbox_ne_none {qs : List (Pending ι)} {got : ι → Option (List Byte)}
    (h : s.inbox i ≠ none) : (s.tell qs got).inbox i ≠ none := by
  rw [tell_inbox]
  split_ifs
  · exact Option.some_ne_none _
  · exact h

theorem tell_inbox_told {qs : List (Pending ι)} {got : ι → Option (List Byte)}
    (h : connectionsOf qs i ≠ 0) : (s.tell qs got).inbox i ≠ none := by
  rw [tell_inbox, if_pos h]
  exact Option.some_ne_none _

theorem tell_inbox_of_not {qs : List (Pending ι)} {got : ι → Option (List Byte)}
    (h : connectionsOf qs i = 0) : (s.tell qs got).inbox i = s.inbox i := by
  rw [tell_inbox, if_neg (not_not.mpr h)]

/-- Server `k` is done with the connections `gone`, its first ones or all. Its round was about the
first that was not left open before, which is one of them or is left open now. -/
structure Moves (s s' : Host ι) (k : ℕ) (q : Pending ι) (rest gone : List (Pending ι)) : Prop where
  backlog : (s.daemon k).backlog = q :: rest
  connections : (s.daemon k).connections = gone ++ (s'.daemon k).connections
  keeps : (s'.daemon k).backlog = rest ∨ gone = (s.daemon k).connections
  others : ∀ k', k' ≠ k → s'.daemon k' = s.daemon k'
  rounds : ∀ i, s'.roundsOf i = s.roundsOf i + connectionsOf [q] i
  told : ∀ i, connectionsOf gone i ≠ 0 → s'.inbox i ≠ none
  same : ∀ i, connectionsOf gone i = 0 → s'.inbox i = s.inbox i
  closed : ∀ i, connectionsOf gone i = 0 → s.leftOpen k i = 0
  opened : ∀ i, connectionsOf gone i = 0 → s'.leftOpen k i = connectionsOf [q] i

theorem Moves.of_update {s₁ : Host ι} {r : Round ι} {dm : Daemon ι} {q : Pending ι}
    {rest gone : List (Pending ι)} (hback : (s.daemon k).backlog = q :: rest)
    (hsession : r.session = q.session) (hrounds : s₁.rounds = (s.record r).rounds)
    (hconns : (s.daemon k).connections = gone ++ dm.connections)
    (hkeeps : dm.backlog = rest ∨ gone = (s.daemon k).connections)
    (htold : ∀ i, connectionsOf gone i ≠ 0 → s₁.inbox i ≠ none)
    (hsame : ∀ i, connectionsOf gone i = 0 → s₁.inbox i = s.inbox i)
    (hclosed : ∀ i, connectionsOf gone i = 0 → s.leftOpen k i = 0)
    (hopened : ∀ i, connectionsOf gone i = 0 →
      connectionsOf dm.conn.toList i = connectionsOf [q] i) :
    Moves s { s₁ with daemon := Function.update s.daemon k dm } k q rest gone where
  backlog := hback
  connections := by simpa using hconns
  keeps := by simpa using hkeeps
  others k' hk' := Function.update_of_ne hk' _ _
  rounds i := by
    rw [← s.record_roundsOf hsession i, roundsOf, roundsOf, ← hrounds]
  told := htold
  same := hsame
  closed := hclosed
  opened i hi := by
    simp only [leftOpen, Function.update_self]
    exact hopened i hi

theorem Ends.moves {gateway : ℕ → GatewayEnv} {sendOk : Bool} {text : List Byte}
    {got : ι → Option (List Byte)} (h : s.Ends d k gateway sendOk text got) :
    ∃ q rest gone, Moves s (s.round d k gateway sendOk text got) k q rest gone := by
  obtain ⟨-, srv, conn, q, rest, r, hk, hr, hround⟩ := h.cases
  have hback : (s.daemon k).backlog = q :: rest := by rw [hk]
  have hsession : r.session = q.session := by rw [hr]
  have hconns : (s.daemon k).connections = conn.toList ++ q :: rest := by rw [hk]; rfl
  have hleft : ∀ i, s.leftOpen k i = connectionsOf conn.toList i := fun i => by rw [leftOpen, hk]
  rcases hround with ⟨-, -, hs⟩ | ⟨-, -, hs⟩ | ⟨-, hs⟩
  · have hsplit : ∀ i, connectionsOf (conn.toList ++ [q]) i =
        connectionsOf conn.toList i + connectionsOf [q] i := connectionsOf_append _ _
    refine ⟨q, rest, conn.toList ++ [q], ?_⟩
    rw [hs]
    refine .of_update hback hsession rfl ?_ (.inl rfl) (fun i hi => ?_) (fun i hi => ?_)
      (fun i hi => ?_) (fun i hi => ?_)
    · rw [hconns]
      simp [Daemon.connections]
    · by_cases hq : connectionsOf [q] i = 0
      · have hconn : connectionsOf conn.toList i ≠ 0 := by rw [hsplit] at hi; omega
        exact tell_inbox_ne_none (tell_inbox_told hconn)
      · exact tell_inbox_told hq
    · have hconn : connectionsOf conn.toList i = 0 := by rw [hsplit] at hi; omega
      have hq : connectionsOf [q] i = 0 := by rw [hsplit] at hi; omega
      rw [tell_inbox_of_not hq, tell_inbox_of_not hconn]
      rfl
    · rw [hsplit] at hi
      rw [hleft]
      omega
    · rw [hsplit] at hi
      rw [Option.toList_none, connectionsOf_nil]
      omega
  · refine ⟨q, rest, conn.toList, ?_⟩
    rw [hs]
    refine .of_update hback hsession rfl hconns (.inl rfl) (fun i hi => tell_inbox_told hi)
      (fun i hi => tell_inbox_of_not hi) (fun i hi => (hleft i).trans hi) fun i _ => rfl
  · refine ⟨q, rest, (s.daemon k).connections, ?_⟩
    rw [hs]
    refine .of_update hback hsession rfl (List.append_nil _).symm (.inr rfl)
      (fun i hi => tell_inbox_told hi) (fun i hi => tell_inbox_of_not hi)
      (fun i hi => Nat.le_zero.mp ((s.leftOpen_le_held k i).trans (Nat.le_of_eq hi)))
      fun i hi => ?_
    rw [hconns, connectionsOf_append, connectionsOf_cons] at hi
    rw [Option.toList_none, connectionsOf_nil]
    omega

theorem push_held (s : Host ι) (q : Pending ι) (k : ℕ) (i : ι) :
    (s.push q).held k i = s.held k i + if k = s.newest then connectionsOf [q] i else 0 := by
  split_ifs with hk
  · rw [hk, held, push_daemon, Daemon.connections, ← List.append_assoc, connectionsOf_append]
    rfl
  · rw [held, push_daemon_of_ne s q hk]
    rfl

theorem push_leftOpen (s : Host ι) (q : Pending ι) (k : ℕ) (i : ι) :
    (s.push q).leftOpen k i = s.leftOpen k i := by
  by_cases hk : k = s.newest
  · rw [hk, leftOpen, push_daemon]
    rfl
  · rw [leftOpen, push_daemon_of_ne s q hk]
    rfl

namespace Once

/-- A server ends. -/
theorem close (h : Once s i) (k : ℕ) (got : ι → Option (List Byte)) : Once (s.close k got) i := by
  have hzero : (s.close k got).held k i = 0 := by simp [held, Host.close, Daemon.connections]
  refine h.server k rfl (fun k' hk' => Function.update_of_ne hk' _ _) (fun hk => ?_)
    fun hk _ => .inl ⟨hzero, h.once, ?_⟩
  · exact ⟨hzero, rfl, tell_inbox_of_not hk⟩
  · exact tell_inbox_told (ne_of_eq_of_ne hk Nat.one_ne_zero)

theorem round (h : Once s i) {gateway : ℕ → GatewayEnv} {sendOk : Bool} {text : List Byte}
    {got : ι → Option (List Byte)} (hends : s.Ends d k gateway sendOk text got) :
    Once (s.round d k gateway sendOk text got) i := by
  obtain ⟨q, rest, gone, hm⟩ := hends.moves
  have hheld : s.held k i =
      s.leftOpen k i + (connectionsOf [q] i + connectionsOf rest i) := by
    rw [held, leftOpen, Daemon.connections, hm.backlog, connectionsOf_append, connectionsOf_cons]
  have hheld' : s.held k i =
      connectionsOf gone i + (s.round d k gateway sendOk text got).held k i := by
    rw [held, hm.connections, connectionsOf_append, held]
  have hrounds := hm.rounds i
  refine h.server k (round_pool ..) hm.others (fun hzero => ⟨by omega, by omega, ?_⟩)
    fun hone hopen => ?_
  · exact hm.same i (by omega)
  · by_cases hi : connectionsOf gone i = 0
    · have hclosed := hm.closed i hi
      have hopened := hm.opened i hi
      exact .inr ⟨by omega, by omega, hm.same i hi⟩
    · exact .inl ⟨by omega, by omega, hm.told i hi⟩

theorem push (h : Once s i) {q : Pending ι} (hq : q.session ≠ some i) : Once (s.push q) i := by
  refine h.of_eq (fun k => ?_) (fun k => push_leftOpen ..) rfl rfl (fun _ he => he) id
  rw [push_held, connectionsOf_singleton, if_neg hq]
  split_ifs <;> rfl

/-- The session sends its first request. -/
theorem first (h : Once s i) (hno : NoRequest (s.pool.world.own i))
    (hsent : ¬ NoRequest ((s.schedule d i).pool.world.own i)) (data : List Byte) :
    Once ((s.schedule d i).push ⟨some i, data⟩) i := by
  obtain ⟨hzero, hrounds, hinbox⟩ := h.before hno
  have hheld : ∀ k, ((s.schedule d i).push ⟨some i, data⟩).held k i =
      if k = s.newest then 1 else 0 := by
    intro k
    have hnone : (s.schedule d i).held k i = 0 := hzero k
    rw [push_held, connectionsOf_singleton, if_pos rfl, hnone, Nat.zero_add]
    rfl
  constructor
  case before => exact fun hno' => absurd hno' hsent
  case waiting =>
    intro k hk
    rw [hheld] at hk ⊢
    have hnewest : k = s.newest := by
      by_contra hne
      exact hk (if_neg hne)
    refine ⟨if_pos hnewest, fun k' hk' => ?_, ?_, hinbox⟩
    · rw [hheld, if_neg (hnewest ▸ hk')]
    · have hle : s.leftOpen k i ≤ 0 := (s.leftOpen_le_held k i).trans (Nat.le_of_eq (hzero k))
      rw [push_leftOpen]
      exact hrounds.trans (Nat.le_zero.mp hle).symm
  case once => exact (Nat.le_of_eq hrounds).trans (Nat.zero_le 1)
  case kept =>
    intro _ _
    refine ⟨s.newest, ?_⟩
    rw [hheld, if_pos rfl]
    exact Nat.one_ne_zero

end Once

theorem ask_once (hr : Reach d P s) (h : ∀ j, Once s j) (i j : ι) : Once (s.ask d i) j := by
  cases hk : s.pool.sess i with
  | ret exit =>
    have hsame : s.schedule d i = s := by rw [schedule, Pool.step_ret _ hk]
    have hnext : s.pool.next i = none := by rw [Pool.next, hk]
    have hconn : s.connection d i = none := by rw [connection, hnext]
    rw [ask, hconn, hsame]
    exact h j
  | ask op f =>
    have hw : s.pool.Waits i op := Pool.waits_iff.mpr ⟨f, hk⟩
    have hm : Move d.call s.pool i op _ (s.schedule d i).pool := move_of_reach hr.pool hw
    have hown : ∀ j, ∀ e ∈ s.pool.world.own j, e ∈ (s.schedule d i).pool.world.own j :=
      fun j e he => World.mem_own.mpr (hm.mem_log.mpr (.inl (World.mem_own.mp he)))
    have hquiet : ∀ j, (∀ sockPath req, j = i → op = .smsRequest sockPath req →
        (d.call i).request ≠ none) → Once (s.schedule d i) j := by
      intro j hno
      refine (h j).of_eq (fun _ => rfl) (fun _ => rfl) rfl rfl (hown j) fun hsends => ?_
      obtain ⟨sockPath, req, hmem⟩ := hsends
      rcases hm.mem_log.mp hmem with hmem | he
      · exact ⟨sockPath, req, hmem⟩
      · obtain ⟨rfl, he⟩ := Prod.mk.inj he
        obtain ⟨rfl, hans⟩ := Sigma.mk.inj he
        exact absurd (eq_of_heq hans).symm (hno sockPath req rfl rfl)
    have hnext : s.pool.next i = some op := hw
    unfold ask connection
    rw [hnext]
    cases op with
    | smsRequest sockPath req =>
      cases hcall : (d.call i).request with
      | some failure =>
        have hj := hquiet j fun _ _ _ _ => by simp [hcall]
        by_cases hconn : failure.connected
        · simp only [hconn, if_true]
          exact hj.push (by simp)
        · simp only [hconn, Bool.false_eq_true, if_false]
          exact hj
      | none =>
        dsimp only
        by_cases hji : j = i
        · subst hji
          obtain ⟨hno, -⟩ := hr.requests_next hw rfl
          refine (h j).first hno (fun hno' => ?_) _
          refine hno' _ (World.mem_own.mpr (hm.mem_log.mpr (.inr rfl))) rfl
        · exact (hquiet j fun _ _ hj => absurd hj hji).push (by simp [Ne.symm hji])
    | _ => exact hquiet j fun _ _ _ hop => by cases hop

/-- Servers that were not started yet have no connections. -/
theorem Reach.fresh (hr : Reach d P s) : ∀ k, s.newest < k → s.daemon k = ⟨none, none, []⟩ := by
  induction hr with
  | init => exact fun _ _ => rfl
  | @step s e hr hC henabled ih =>
    have hpush : ∀ (s : Host ι) (q : Pending ι),
        (∀ k, s.newest < k → s.daemon k = ⟨none, none, []⟩) →
        ∀ k, s.newest < k → (s.push q).daemon k = ⟨none, none, []⟩ := by
      intro s q h k hk
      rw [push_daemon_of_ne s q (Nat.ne_of_gt hk), h k hk]
    cases e with
    | session i =>
      simp only [next, ask]
      split
      · exact hpush _ _ ih
      · exact ih
    | connect data => exact hpush s _ ih
    | start =>
      intro k hk
      rw [start_daemon_of_ne s (Nat.ne_of_gt hk)]
      exact ih k (Nat.lt_of_succ_lt hk)
    | serve k gateway sendOk text got =>
      obtain ⟨q, rest, gone, hm⟩ := Ends.moves henabled
      intro k' hk'
      rw [next, round_newest] at hk'
      have hkk : k' ≠ k := by
        rintro rfl
        have hback := hm.backlog
        rw [ih k' hk'] at hback
        cases hback
      rw [next, hm.others k' hkk, ih k' hk']
    | kill k got =>
      intro k' hk'
      by_cases hkk : k' = k
      · rw [hkk, next, close_daemon]
      · rw [next, close_daemon_of_ne s got hkk]
        exact ih k' hk'

omit [DecidableEq ι] in
/-- A session connects to a running server. -/
theorem Ready.up (h : s.Ready d i) {q : Pending ι} (hq : s.connection d i = some q) : s.Up := by
  unfold connection at hq
  unfold Ready at h
  split at hq
  case h_2 => cases hq
  rename_i hnext
  rw [hnext] at h
  refine (h ?_).2
  split at hq
  · rename_i hcall
    simp [hcall]
  · rename_i failure hcall
    split_ifs at hq with hconn
    simpa [hcall] using hconn

/-- Only running servers have connections. -/
theorem Reach.down (hr : Reach d P s) :
    ∀ k, (s.daemon k).srv = none → (s.daemon k).connections = [] := by
  induction hr with
  | init => exact fun _ _ => rfl
  | @step s e hr hC henabled ih =>
    have hpush : ∀ (s : Host ι) (q : Pending ι), s.Up →
        (∀ k, (s.daemon k).srv = none → (s.daemon k).connections = []) →
        ∀ k, ((s.push q).daemon k).srv = none → ((s.push q).daemon k).connections = [] := by
      intro s q hup h k hk
      by_cases hkk : k = s.newest
      · rw [hkk, push_daemon] at hk
        exact absurd hk hup
      · rw [push_daemon_of_ne s q hkk] at hk ⊢
        exact h k hk
    cases e with
    | session i =>
      simp only [next, ask]
      split
      · rename_i q hq
        have hup : s.Up := Ready.up henabled hq
        exact hpush _ q hup ih
      · exact ih
    | connect data => exact hpush s _ henabled ih
    | start =>
      intro k hk
      by_cases hkk : k = s.newest + 1
      · rw [hkk, start_daemon]
        rfl
      · rw [start_daemon_of_ne s hkk] at hk ⊢
        exact ih k hk
    | serve k gateway sendOk text got =>
      obtain ⟨-, srv, conn, q, rest, r, -, -, hround⟩ := Ends.cases henabled
      obtain ⟨_, _, _, hm⟩ := Ends.moves henabled
      intro k' hk'
      rw [next] at hk' ⊢
      by_cases hkk : k' = k
      · subst hkk
        rcases hround with ⟨-, -, hs⟩ | ⟨-, -, hs⟩ | ⟨-, hs⟩
        · simp [hs] at hk'
        · simp [hs] at hk'
        · rw [hs, close_daemon]
          rfl
      · rw [hm.others k' hkk] at hk' ⊢
        exact ih k' hk'
    | kill k got =>
      intro k' hk'
      rw [next] at hk' ⊢
      by_cases hkk : k' = k
      · rw [hkk, close_daemon]
        rfl
      · rw [close_daemon_of_ne s got hkk] at hk' ⊢
        exact ih k' hk'

theorem Reach.running (hr : Reach d P s) (hk : s.held k i ≠ 0) : (s.daemon k).srv ≠ none := by
  intro hdown
  refine hk ?_
  rw [held, hr.down k hdown]
  rfl

theorem Reach.once (hr : Reach d P s) (i : ι) : Once s i := by
  induction hr generalizing i with
  | init => exact ⟨fun _ => ⟨fun _ => rfl, rfl, rfl⟩, fun k hk => absurd rfl hk, Nat.zero_le 1,
      fun hs => nomatch hs⟩
  | @step s e hr hC henabled ih =>
    cases e with
    | session j => exact ask_once hr ih j i
    | connect data => exact (ih i).push (by simp)
    | start =>
      have hfresh := hr.fresh _ (Nat.lt_succ_self _)
      refine (ih i).of_eq (fun k => ?_) (fun k => ?_) rfl rfl (fun _ he => he) id
      · by_cases hk : k = s.newest + 1
        · rw [hk, held, held, hfresh, start_daemon]
          rfl
        · rw [held, held, start_daemon_of_ne s hk]
      · by_cases hk : k = s.newest + 1
        · rw [hk, leftOpen, leftOpen, hfresh, start_daemon]
        · rw [leftOpen, leftOpen, start_daemon_of_ne s hk]
    | serve k gateway sendOk text got => exact (ih i).round henabled
    | kill k got => exact (ih i).close k got

/-! ## Waiting for a round -/

/-- The session is not answered yet, and server `k` takes at most `n` rounds before the one that
answers it or closes its connection. -/
def Ahead (s : Host ι) (k : ℕ) (i : ι) (n : ℕ) : Prop :=
  s.inbox i = none ∧
    ((n = 0 ∧ ∃ q, (s.daemon k).conn = some q ∧ q.session = some i) ∨
      ∃ front q back, (s.daemon k).backlog = front ++ q :: back ∧ q.session = some i ∧
        front.length + 1 = n)

theorem leftOpen_ne_zero :
    s.leftOpen k i ≠ 0 ↔ ∃ q, (s.daemon k).conn = some q ∧ q.session = some i := by
  cases hconn : (s.daemon k).conn with
  | none => simp [leftOpen, hconn]
  | some q => simp [leftOpen, hconn, connectionsOf_singleton]

theorem ask_inbox (s : Host ι) (i : ι) : (s.ask d i).inbox = s.inbox := by
  unfold ask
  split <;> rfl

/-- What a session was delivered stays. -/
theorem inbox_next {e : HostEvent ι} (henabled : s.Enabled d e) (h : s.inbox i ≠ none) :
    (s.next d e).inbox i ≠ none := by
  cases e with
  | session j =>
    rw [next, ask_inbox]
    exact h
  | connect data => exact h
  | start => exact h
  | serve k gateway sendOk text got =>
    obtain ⟨q, rest, gone, hm⟩ := Ends.moves henabled
    by_cases hi : connectionsOf gone i = 0
    · rw [next, hm.same i hi]
      exact h
    · exact hm.told i hi
  | kill k got => exact tell_inbox_ne_none h

omit [DecidableEq ι] in
theorem push_backlog (s : Host ι) (q : Pending ι) (k : ℕ) :
    ((s.push q).daemon k).conn = (s.daemon k).conn ∧
      ∃ more, ((s.push q).daemon k).backlog = (s.daemon k).backlog ++ more := by
  by_cases hk : k = s.newest
  · rw [hk, push_daemon]
    exact ⟨rfl, [q], rfl⟩
  · rw [push_daemon_of_ne s q hk]
    exact ⟨rfl, [], (List.append_nil _).symm⟩

theorem ask_backlog (s : Host ι) (i : ι) (k : ℕ) :
    ((s.ask d i).daemon k).conn = (s.daemon k).conn ∧
      ∃ more, ((s.ask d i).daemon k).backlog = (s.daemon k).backlog ++ more := by
  unfold ask
  split
  · exact push_backlog _ _ k
  · exact ⟨rfl, [], (List.append_nil _).symm⟩

namespace Ahead

variable {n : ℕ}

omit [DecidableEq ι] in
theorem append (h : Ahead s k i n) (hnone : s'.inbox i = none)
    (hmore : (s'.daemon k).conn = (s.daemon k).conn ∧
      ∃ more, (s'.daemon k).backlog = (s.daemon k).backlog ++ more) : Ahead s' k i n := by
  obtain ⟨hconn, more, hmore⟩ := hmore
  refine ⟨hnone, ?_⟩
  rcases h.2 with ⟨hn, hopen⟩ | ⟨front, q, back, hback, hq, hlen⟩
  · exact .inl ⟨hn, by rwa [hconn]⟩
  · refine .inr ⟨front, q, back ++ more, ?_, hq, hlen⟩
    rw [hmore, hback, List.append_assoc, List.cons_append]

theorem held_ne_zero (h : Ahead s k i n) : s.held k i ≠ 0 := by
  have hle := s.leftOpen_le_held k i
  rcases h.2 with ⟨-, hopen⟩ | ⟨front, q, back, hback, hq, -⟩
  · have hne := leftOpen_ne_zero.mpr hopen
    omega
  · rw [held, Daemon.connections, hback, connectionsOf_append, connectionsOf_append,
      connectionsOf_cons, connectionsOf_singleton, if_pos hq]
    omega

theorem daemon_ne (h : Ahead s k i n) : s.daemon k ≠ ⟨none, none, []⟩ := by
  intro hk
  refine h.held_ne_zero ?_
  rw [held, hk]
  rfl

theorem round_step (h : Ahead s k i n) {gateway : ℕ → GatewayEnv} {sendOk : Bool}
    {text : List Byte} {got : ι → Option (List Byte)} (hends : s.Ends d k gateway sendOk text got)
    (hnone : (s.round d k gateway sendOk text got).inbox i = none) :
    n ≠ 0 ∧ Ahead (s.round d k gateway sendOk text got) k i (n - 1) := by
  obtain ⟨q₀, rest, gone, hm⟩ := hends.moves
  have hgone : connectionsOf gone i = 0 := by
    by_contra hne
    exact hm.told i hne hnone
  rcases h.2 with ⟨-, hopen⟩ | ⟨front, q, back, hback, hq, hlen⟩
  · exact absurd (hm.closed i hgone) (leftOpen_ne_zero.mpr hopen)
  cases front with
  | nil =>
    obtain ⟨rfl, rfl⟩ := List.cons.inj (hm.backlog.symm.trans hback)
    have hopened := hm.opened i hgone
    rw [connectionsOf_singleton, if_pos hq] at hopened
    have hn : n = 1 := hlen.symm
    refine ⟨by omega, hnone, .inl ⟨by omega, leftOpen_ne_zero.mp ?_⟩⟩
    rw [hopened]
    exact Nat.one_ne_zero
  | cons q₁ front =>
    obtain ⟨rfl, rfl⟩ := List.cons.inj (hm.backlog.symm.trans hback)
    rw [List.length_cons] at hlen
    have hrest := hm.keeps.resolve_right fun hall => h.held_ne_zero (by rw [held, ← hall, hgone])
    exact ⟨by omega, hnone, .inr ⟨front, q, back, hrest, hq, by omega⟩⟩

theorem step (hr : Reach d P s) (h : Ahead s k i n) {e : HostEvent ι} (henabled : s.Enabled d e)
    (hnone : (s.next d e).inbox i = none) :
    (e.serves k → n ≠ 0) ∧ Ahead (s.next d e) k i (n - if e.serves k then 1 else 0) := by
  cases e with
  | session j => exact ⟨(absurd · Bool.false_ne_true), h.append hnone (ask_backlog s j k)⟩
  | connect data => exact ⟨(absurd · Bool.false_ne_true), h.append hnone (push_backlog s _ k)⟩
  | start =>
    have hk : k ≠ s.newest + 1 := by
      rintro rfl
      exact h.daemon_ne (hr.fresh _ (Nat.lt_succ_self _))
    have hsame := start_daemon_of_ne (d := d) s hk
    exact ⟨(absurd · Bool.false_ne_true), h.append hnone (by rw [hsame]; simp)⟩
  | serve k' gateway sendOk text got =>
    by_cases hk : k' = k
    · subst hk
      obtain ⟨hne, hahead⟩ := h.round_step henabled hnone
      exact ⟨fun _ => hne, by simpa [HostEvent.serves, next] using hahead⟩
    · have hserves : (HostEvent.serve k' gateway sendOk text got).serves k = false := by
        simp [HostEvent.serves, hk]
      rw [hserves]
      obtain ⟨_, _, _, hm⟩ := Ends.moves henabled
      have hsame := hm.others k (Ne.symm hk)
      exact ⟨(absurd · Bool.false_ne_true), h.append hnone (by rw [next, hsame]; simp)⟩
  | kill k' got =>
    have hk : k ≠ k' := by
      rintro rfl
      exact tell_inbox_told h.held_ne_zero hnone
    have hsame := close_daemon_of_ne s got hk
    exact ⟨(absurd · Bool.false_ne_true), h.append hnone (by rw [next, hsame]; simp)⟩

end Ahead

/-! ## Runs -/

/-- The host after these events. -/
def after (d : Setup ι) (s : Host ι) (es : List (HostEvent ι)) : Host ι := es.foldl (next d) s

/-- Each event can happen, and meets the condition, when its turn comes. -/
def Along (d : Setup ι) (P : Host ι → HostEvent ι → Prop) : Host ι → List (HostEvent ι) → Prop
  | _, [] => True
  | s, e :: es => (P s e ∧ s.Enabled d e) ∧ Along d P (s.next d e) es

theorem Reach.after (hr : Reach d P s) {es : List (HostEvent ι)} (hes : Along d P s es) :
    Reach d P (s.after d es) := by
  induction es generalizing s with
  | nil => exact hr
  | cons e es ih => exact ih (.step e hr hes.1.1 hes.1.2) hes.2

theorem inbox_after {es : List (HostEvent ι)} (hes : Along d P s es) (h : s.inbox i ≠ none) :
    (s.after d es).inbox i ≠ none := by
  induction es generalizing s with
  | nil => exact h
  | cons e es ih => exact ih hes.2 (inbox_next hes.1.2 h)

theorem Ahead.after (hr : Reach d P s) {n : ℕ} (h : Ahead s k i n) {es : List (HostEvent ι)}
    (hes : Along d P s es) (hnone : (s.after d es).inbox i = none) :
    es.countP (HostEvent.serves k) ≤ n ∧
      Ahead (s.after d es) k i (n - es.countP (HostEvent.serves k)) := by
  induction es generalizing s n with
  | nil => exact ⟨Nat.zero_le n, h⟩
  | cons e es ih =>
    obtain ⟨⟨he, henabled⟩, hes⟩ := hes
    have hnext : (s.next d e).inbox i = none := by
      by_contra hne
      exact inbox_after hes hne hnone
    obtain ⟨hserves, hahead⟩ := h.step hr henabled hnext
    obtain ⟨hle, hafter⟩ := ih (.step e hr he henabled) hahead hes hnone
    rw [List.countP_cons]
    by_cases hk : e.serves k
    · have hn := hserves hk
      simp only [hk, if_true] at hle hafter ⊢
      refine ⟨by omega, ?_⟩
      rw [Nat.add_comm, ← Nat.sub_sub]
      exact hafter
    · simp only [hk, Bool.false_eq_true, if_false, Nat.sub_zero, Nat.add_zero] at hle hafter ⊢
      exact ⟨hle, hafter⟩

/-- What waits is with one server, and had its round there if it is left open. -/
theorem Reach.ahead (hr : Reach d P s) (hsends : s.Sends i) (hinbox : s.inbox i = none) :
    ∃ k n, s.Ahead k i n ∧ s.held k i = 1 ∧ (∀ k', k' ≠ k → s.held k' i = 0) ∧
      s.roundsOf i = if n = 0 then 1 else 0 := by
  have honce := hr.once i
  obtain ⟨k, hk⟩ := honce.kept hsends hinbox
  obtain ⟨hone, hothers, hrounds, -⟩ := honce.waiting k hk
  have hheld : s.held k i = s.leftOpen k i + connectionsOf (s.daemon k).backlog i := by
    rw [held, leftOpen, Daemon.connections, connectionsOf_append]
  by_cases hopen : s.leftOpen k i = 0
  · have hback : connectionsOf (s.daemon k).backlog i ≠ 0 := by omega
    obtain ⟨q, hq, hqi⟩ := List.mem_map.mp (List.count_pos_iff.mp (Nat.pos_of_ne_zero hback))
    obtain ⟨front, back, hsplit⟩ := List.append_of_mem hq
    exact ⟨k, front.length + 1, ⟨hinbox, .inr ⟨front, q, back, hsplit, hqi, rfl⟩⟩, hone, hothers,
      hrounds.trans hopen⟩
  · refine ⟨k, 0, ⟨hinbox, .inl ⟨rfl, leftOpen_ne_zero.mp hopen⟩⟩, hone, hothers, ?_⟩
    rw [if_pos rfl]
    omega

/-- A request that was sent has had at most one round; and while its session has no answer and was
not hung up on, its connection is with one server: it had no round yet, or its round left it open.
It is over when that server ends, or has taken its round and, if that left it open, the next one. -/
theorem request_served_once (hr : Reach d P s) (hsends : s.Sends i) :
    s.roundsOf i ≤ 1 ∧ (s.inbox i = none → ∃ k n, s.Ahead k i n ∧ s.held k i = 1 ∧
      (∀ k', k' ≠ k → s.held k' i = 0) ∧ (s.roundsOf i = if n = 0 then 1 else 0) ∧
      ∀ es, Along d P s es →
        n < es.countP (HostEvent.serves k) ∨ ((s.after d es).daemon k).srv = none →
        (s.after d es).inbox i ≠ none) := by
  refine ⟨(hr.once i).once, fun hinbox => ?_⟩
  obtain ⟨k, n, hahead, hone, hothers, hrounds⟩ := hr.ahead hsends hinbox
  refine ⟨k, n, hahead, hone, hothers, hrounds, fun es hes hend hnone => ?_⟩
  obtain ⟨hle, hafter⟩ := hahead.after hr hes hnone
  rcases hend with hlt | hdown
  · omega
  · exact (hr.after hes).running hafter.held_ne_zero hdown

theorem request_served_once_ann : ∃ s : Host Unit, s.inbox () = none ∧
    s.roundsOf () ≤ 1 ∧ (s.inbox () = none → ∃ k n, s.Ahead k () n ∧ s.held k () = 1 ∧
      (∀ k', k' ≠ k → s.held k' () = 0) ∧ (s.roundsOf () = if n = 0 then 1 else 0) ∧
      ∀ es, Along annSetup (fun _ _ => True) s es →
        n < es.countP (HostEvent.serves k) ∨ ((s.after annSetup es).daemon k).srv = none →
        (s.after annSetup es).inbox () ≠ none) := by
  obtain ⟨s, hs, -, hdaemon, hinbox⟩ :=
    ann_waiting (P := fun _ _ => True) (fun _ _ _ _ => trivial) fun _ => trivial
  obtain ⟨sockPath, req, hmem, -⟩ :=
    hs.wired.pending 1 ⟨some (), annText⟩ (by simp [hdaemon, Daemon.connections]) () rfl
  exact ⟨s, hinbox, request_served_once hs ⟨sockPath, req, hmem⟩⟩

end Host

end PamSmsauth
