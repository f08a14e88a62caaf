import PamSmsauth.Exchange
import PamSmsauth.OneCode

/-!
# Logins and servers on one host

Any number of logins are under way, each a session of `Interleaving`, and `sms_send` of each one
talks over a socket to a server process, which serves its connections in the order they came. Other
processes can write to the socket as well; a server ends when an exception leaves its loop or when
it is killed; and the init script can start another one, which takes the socket over and leaves the
connections of the old one where they are.

A round ends with `conn.close`, which is no call, so a connection that was not answered in its round
stays open until `accept` gives `conn` another value, or until its server ends.

A `Call` says of its session's `sms_send` what became of it. Here that is no longer free: a session
can send its request only to a running server, and it goes on only with what `wait4resp` makes of
what `read` delivered (`Enabled`). Its table, its log and its programs are then those of a pool of
sessions (`Host.Reach.pool`), so that what holds of all interleavings holds here.
-/

namespace PamSmsauth

open CText Eff

variable {ι : Type}

/-- A connection without an answer: the session that waits for it, if it is one of the module's, and
what was written on it. -/
structure Pending (ι : Type) where
  session : Option ι
  data : List Byte

/-- A server process: what it keeps while it runs, the connection that its last round left without
an answer, and the connections that it did not accept yet, in order. -/
structure Daemon (ι : Type) where
  srv : Option Server
  conn : Option (Pending ι)
  backlog : List (Pending ι)

def Daemon.connections (dm : Daemon ι) : List (Pending ι) := dm.conn.toList ++ dm.backlog

/-- A connection that was served. -/
structure Round (ι : Type) where
  session : Option ι
  conn : Conn
  served : Served

/-- The processes of the host. The socket is that of the newest server; `inbox` is what `read`
delivers to a session, once it is known. -/
structure Host (ι : Type) where
  pool : Sessions ι
  daemon : ℕ → Daemon ι
  newest : ℕ
  inbox : ι → Option (Option (List Byte))
  rounds : List (Round ι)

/-- The logins, the counters of their processes before `sms_send`, and the configuration of the
servers. -/
structure Setup (ι : Type) where
  call : ι → Call
  counter : ι → UInt32
  sockPath : List Byte
  priority : List Byte
  lib : PyLib
  lf : List Byte → Option (List Byte)

namespace Setup

variable (d : Setup ι)

def gwPriority : List (List Byte) := getGwPriority d.priority

/-- The id of the request of the session. -/
def requestId (i : ι) : UInt32 := d.counter i + 1

end Setup

/-- What `sms_send` writes. -/
def requestText (id : UInt32) (req : JsonPacketReq) : List Byte :=
  (jsonReq2str ⟨jsonPacketReqName, id, req⟩).2

/-- The failure comes after `connect`. -/
def SendFailure.connected : SendFailure → Bool
  | .sockcreate | .conn2server => false
  | .snprintf | .json2str | .writeonsock => true

/-- What can happen next. What the gateways and `conn.send` do, the text of an answer, and what
`read` delivers to the sessions whose connection is closed, comes with the event. -/
inductive HostEvent (ι : Type) where
  | session (i : ι)
  | connect (data : List Byte)
  | start
  | serve (k : ℕ) (gateway : ℕ → GatewayEnv) (sendOk : Bool) (text : List Byte)
      (got : ι → Option (List Byte))
  | kill (k : ℕ) (got : ι → Option (List Byte))

/-- `read` at the end of a connection that was closed. -/
def HungUp (got : Option (List Byte)) : Prop := got = none ∨ got = some []

/-- The connection as the server meets it. -/
def Pending.conn (q : Pending ι) (gateway : ℕ → GatewayEnv) (sendOk : Bool) : Conn :=
  ⟨received q.data, gateway, sendOk⟩

namespace Host

variable [DecidableEq ι] (d : Setup ι)

def init : Host ι := ⟨start d.call, fun _ => ⟨none, none, []⟩, 0, fun _ => none, []⟩

/-- There is a server at the socket. -/
def Up (s : Host ι) : Prop := (s.daemon s.newest).srv ≠ none

def schedule (s : Host ι) (i : ι) : Host ι :=
  { s with pool := s.pool.step (handlers d.call) i }

def push (s : Host ι) (q : Pending ι) : Host ι :=
  { s with
    daemon := Function.update s.daemon s.newest
      ⟨(s.daemon s.newest).srv, (s.daemon s.newest).conn, (s.daemon s.newest).backlog ++ [q]⟩ }

/-- The connection that session `i` makes when it goes on: with its request, or without a word. -/
def connection (s : Host ι) (i : ι) : Option (Pending ι) :=
  match s.pool.next i with
  | some (.smsRequest _ req) =>
    match (d.call i).request with
    | none => some ⟨some i, requestText (d.requestId i) req⟩
    | some failure => if failure.connected then some ⟨none, []⟩ else none
  | _ => none

def ask (s : Host ι) (i : ι) : Host ι :=
  match s.connection d i with
  | some q => (s.schedule d i).push q
  | none => s.schedule d i

def record (s : Host ι) (r : Round ι) : Host ι := { s with rounds := s.rounds ++ [r] }

/-- The sessions of these connections are delivered `got`. -/
def tell (s : Host ι) (qs : List (Pending ι)) (got : ι → Option (List Byte)) : Host ι :=
  { s with inbox := fun i => if some i ∈ qs.map Pending.session then some (got i) else s.inbox i }

/-- Server `k` ends, and its connections are closed. -/
def close (s : Host ι) (k : ℕ) (got : ι → Option (List Byte)) : Host ι :=
  { s.tell (s.daemon k).connections got with daemon := Function.update s.daemon k ⟨none, none, []⟩ }

/-- Server `k` accepts its next connection and serves it. -/
def round (s : Host ι) (k : ℕ) (gateway : ℕ → GatewayEnv) (sendOk : Bool) (text : List Byte)
    (got : ι → Option (List Byte)) : Host ι :=
  match s.daemon k with
  | ⟨some srv, conn, q :: rest⟩ =>
    let served := serve d.lib d.gwPriority srv (q.conn gateway sendOk)
    let s' := s.record ⟨q.session, q.conn gateway sendOk, served⟩
    if served.escaped = none then
      let s'' := s'.tell conn.toList got
      match served.answer with
      | some _ =>
        { s''.tell [q] (fun _ => some text) with
          daemon := Function.update s.daemon k ⟨some served.srv, none, rest⟩ }
      | none => { s'' with daemon := Function.update s.daemon k ⟨some served.srv, some q, rest⟩ }
    else s'.close k got
  | _ => s

def next (s : Host ι) : HostEvent ι → Host ι
  | .session i => s.ask d i
  | .connect data => s.push ⟨none, data⟩
  | .start =>
    { s with
      daemon := Function.update s.daemon (s.newest + 1) ⟨some .init, none, []⟩
      newest := s.newest + 1 }
  | .serve k gateway sendOk text got => s.round d k gateway sendOk text got
  | .kill k got => s.close k got

/-- A session can go on. -/
def Ready (s : Host ι) (i : ι) : Prop :=
  match s.pool.next i with
  | some (.smsRequest sockPath _) =>
    ((d.call i).request.all SendFailure.connected) → sockPath = d.sockPath ∧ s.Up
  | some .smsResponse =>
    ∃ got id, s.inbox i = some got ∧
      wait4resp d.lf got (d.requestId i) = some ((d.call i).response.result, id)
  | _ => True

/-- The next round of this server can end so. -/
def Ends (s : Host ι) (k : ℕ) (gateway : ℕ → GatewayEnv) (sendOk : Bool) (text : List Byte)
    (got : ι → Option (List Byte)) : Prop :=
  match s.daemon k with
  | ⟨some srv, _, q :: _⟩ =>
    (∀ resp, (serve d.lib d.gwPriority srv (q.conn gateway sendOk)).answer = some resp →
      resp.Json2str text) ∧ ∀ i, HungUp (got i)
  | _ => False

def Enabled (s : Host ι) : HostEvent ι → Prop
  | .session i => s.Ready d i
  | .connect _ => s.Up
  | .start => True
  | .serve k gateway sendOk text got => s.Ends d k gateway sendOk text got
  | .kill _ got => ∀ i, HungUp (got i)

/-- The hosts that are reached by events that each meet the condition `P`. -/
inductive Reach (P : Host ι → HostEvent ι → Prop) : Host ι → Prop
  | init : Reach P (init d)
  | step {s : Host ι} (e : HostEvent ι) : Reach P s → P s e → s.Enabled d e → Reach P (s.next d e)

variable {d} {P : Host ι → HostEvent ι → Prop} {s : Host ι}

theorem Reach.mono {P' : Host ι → HostEvent ι → Prop} (hP : ∀ s e, P s e → P' s e)
    (h : Reach d P s) : Reach d P' s := by
  induction h with
  | init => exact .init
  | step e _ he henabled ih => exact .step e ih (hP _ _ he) henabled

/-! ## The servers after an event -/

section

variable {k k' : ℕ}

omit [DecidableEq ι] in
theorem push_daemon (s : Host ι) (q : Pending ι) :
    (s.push q).daemon s.newest = ⟨(s.daemon s.newest).srv, (s.daemon s.newest).conn,
      (s.daemon s.newest).backlog ++ [q]⟩ := Function.update_self _ _ _

omit [DecidableEq ι] in
theorem push_daemon_of_ne (s : Host ι) (q : Pending ι) (hk : k ≠ s.newest) :
    (s.push q).daemon k = s.daemon k := Function.update_of_ne hk _ _

theorem close_daemon (s : Host ι) (k : ℕ) (got : ι → Option (List Byte)) :
    (s.close k got).daemon k = ⟨none, none, []⟩ := Function.update_self _ _ _

theorem close_daemon_of_ne (s : Host ι) (got : ι → Option (List Byte)) (hk : k' ≠ k) :
    (s.close k got).daemon k' = s.daemon k' := Function.update_of_ne hk _ _

theorem start_daemon (s : Host ι) :
    (s.next d .start).daemon (s.newest + 1) = ⟨some .init, none, []⟩ := Function.update_self _ _ _

theorem start_daemon_of_ne (s : Host ι) (hk : k ≠ s.newest + 1) :
    (s.next d .start).daemon k = s.daemon k := Function.update_of_ne hk _ _

theorem round_newest (s : Host ι) (k : ℕ) (gateway : ℕ → GatewayEnv) (sendOk : Bool)
    (text : List Byte) (got : ι → Option (List Byte)) :
    (s.round d k gateway sendOk text got).newest = s.newest := by
  unfold round
  split
  · dsimp only
    split_ifs
    · split <;> rfl
    · rfl
  · rfl

end

/-- A round closes the connection that the one before it left open; its server answers, leaves its
connection open, or ends. -/
theorem Ends.cases {k : ℕ} {gateway : ℕ → GatewayEnv} {sendOk : Bool} {text : List Byte}
    {got : ι → Option (List Byte)} (h : s.Ends d k gateway sendOk text got) :
    (∀ i, HungUp (got i)) ∧ ∃ srv conn q rest r, s.daemon k = ⟨some srv, conn, q :: rest⟩ ∧
      r = ⟨q.session, q.conn gateway sendOk,
        serve d.lib d.gwPriority srv (q.conn gateway sendOk)⟩ ∧
      (r.served.escaped = none ∧ (∃ resp, r.served.answer = some resp ∧ resp.Json2str text) ∧
          s.round d k gateway sendOk text got =
            { ((s.record r).tell conn.toList got).tell [q] fun _ => some text with
              daemon := Function.update s.daemon k ⟨some r.served.srv, none, rest⟩ } ∨
        r.served.escaped = none ∧ r.served.answer = none ∧
          s.round d k gateway sendOk text got =
            { (s.record r).tell conn.toList got with
              daemon := Function.update s.daemon k ⟨some r.served.srv, some q, rest⟩ } ∨
        r.served.escaped ≠ none ∧
          s.round d k gateway sendOk text got = (s.record r).close k got) := by
  unfold Ends at h
  split at h
  case h_2 => exact h.elim
  rename_i srv conn q rest hk
  obtain ⟨htext, hgot⟩ := h
  refine ⟨hgot, srv, conn, q, rest, _, hk, rfl, ?_⟩
  unfold round
  rw [hk]
  dsimp only
  by_cases hesc : (serve d.lib d.gwPriority srv (q.conn gateway sendOk)).escaped = none
  · rw [if_pos hesc]
    cases hanswer : (serve d.lib d.gwPriority srv (q.conn gateway sendOk)).answer with
    | some resp => exact .inl ⟨hesc, ⟨resp, rfl, htext resp hanswer⟩, rfl⟩
    | none => exact .inr (.inl ⟨hesc, rfl, rfl⟩)
  · rw [if_neg hesc]
    exact .inr (.inr ⟨hesc, rfl⟩)

/-! ## The sessions are a pool -/

omit [DecidableEq ι] in
@[simp] theorem push_pool (s : Host ι) (q : Pending ι) : (s.push q).pool = s.pool := rfl

@[simp] theorem tell_pool (s : Host ι) (qs : List (Pending ι)) (got : ι → Option (List Byte)) :
    (s.tell qs got).pool = s.pool := rfl

@[simp] theorem close_pool (s : Host ι) (k : ℕ) (got : ι → Option (List Byte)) :
    (s.close k got).pool = s.pool := rfl

@[simp] theorem ask_pool (s : Host ι) (i : ι) :
    (s.ask d i).pool = s.pool.step (handlers d.call) i := by
  unfold ask
  split <;> rfl

@[simp] theorem round_pool (s : Host ι) (k : ℕ) (gateway : ℕ → GatewayEnv) (sendOk : Bool)
    (text : List Byte) (got : ι → Option (List Byte)) :
    (s.round d k gateway sendOk text got).pool = s.pool := by
  unfold round
  split
  · dsimp only
    split_ifs
    · split <;> rfl
    · rfl
  · rfl

theorem Reach.pool_of {C : Sessions ι → ι → Prop} (hP : ∀ s i, P s (.session i) → C s.pool i)
    (h : Reach d P s) : Pool.Reach (handlers d.call) C (start d.call) s.pool := by
  induction h with
  | init => exact .init
  | @step s e h he henabled ih =>
    cases e with
    | session i =>
      rw [next, ask_pool]
      exact .step i ih (hP s i he)
    | connect data => exact ih
    | start => exact ih
    | serve k gateway sendOk text got =>
      rw [next, round_pool]
      exact ih
    | kill k got => exact ih

theorem Reach.pool (h : Reach d P s) :
    Pool.Reach (handlers d.call) (fun _ _ => True) (start d.call) s.pool :=
  h.pool_of fun _ _ _ => trivial

end Host

end PamSmsauth
