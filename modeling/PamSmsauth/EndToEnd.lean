import PamSmsauth.Survival
import PamSmsauth.Isolation
import PamSmsauth.Wiring

/-!
# From the token back to the phone

In every run of logins, servers and other processes on the host whose sessions are `Careful`, a
login that returns `PAM_SUCCESS` was exempt, or `relaxed` let it in after its own SMS failed, or its
token agrees with a password that some gateway completed for, in a request to the number of the very
user that logs in (`second_factor_delivered`). Other processes' connections, servers that die in a
round, servers that are killed and servers that are started over change nothing of this.
-/

namespace PamSmsauth

open CText Eff

variable {ι : Type}

/-! ## Whose password it is -/

/-- A session of `user` was told `SMS_OK` for `otp`. -/
def SentFor (c : ι → Call) (p : Sessions ι) (user otp : CString) : Prop :=
  ∃ j, (c j).user = some user ∧ Sent c p j otp

/-- The users are kept apart, and what they are compared with was acknowledged. -/
structure Vouched (c : ι → Call) (p : Sessions ι) : Prop extends Owned c p where
  otp_sent : ∀ r ∈ p.world.state.rows, ∀ otp, r.otp = some otp → SentFor c p r.user otp
  compared_sent : ∀ i input otp n, p.sess i = .ret (.compared input otp n) →
    ∃ user o, (c i).user = some user ∧ SentFor c p user o ∧ cstr otp = o.bytes

theorem vouched_start (c : ι → Call) : Vouched c (start c) where
  toOwned := owned_start c
  otp_sent _ hr := nomatch hr
  compared_sent _ _ _ _ h := nomatch h

variable [DecidableEq ι] {c : ι → Call} {p p' : Sessions ι} {i j : ι} {op : Op} {a : op.Ans}

theorem Move.sentFor (hm : Move c p i op a p') {user otp : CString} (h : SentFor c p user otp) :
    SentFor c p' user otp := by
  obtain ⟨j, hj, hsent⟩ := h
  exact ⟨j, hj, hm.sent hsent⟩

namespace Vouched

theorem otp_sent_step (h : Vouched c p) (hf : (c i).Fits) (hm : Move c p i op a p') {r : Row}
    (hr : r ∈ p'.world.state.rows) {otp : CString} (ho : r.otp = some otp) :
    SentFor c p' r.user otp := by
  rcases (hm.change hf).row hr with ⟨s, hs, hsid, hsu, -, hotp | ⟨words, rfl, hotp⟩⟩ |
    ⟨-, -, hnone, -⟩
  · rw [← hsu]
    exact hm.sentFor (h.otp_sent s hs otp (hotp.symm.trans ho))
  · -- the `UPDATE` comes after `SMS_OK` and hits a row of the session's own user
    have hown := h.aims_own i r.id (aims_iff.mpr ⟨_, hm.asks, rfl⟩) s hs hsid
    rw [hsu] at hown
    cases hotp.symm.trans ho
    exact ⟨i, hown, hm.sent hm.update_sent.2⟩
  · rw [hnone] at ho
    cases ho

theorem compared_sent_step (h : Vouched c p) (hc : (c i).Complete) (hf : (c i).Fits)
    (hm : Move c p i op a p') {input otp : List Byte} {n : Nat}
    (he : p'.sess j = .ret (.compared input otp n)) :
    ∃ user o, (c j).user = some user ∧ SentFor c p' user o ∧ cstr otp = o.bytes := by
  rcases hm.ended_cases he with he | ⟨rfl, hdone⟩
  · obtain ⟨user, o, hu, hsent, hcstr⟩ := h.compared_sent j input otp n he
    exact ⟨user, o, hu, hm.sentFor hsent, hcstr⟩
  obtain ⟨-, hexit⟩ | ⟨user, hu, hended⟩ := hdone
  · cases hexit
  obtain ⟨id, buf, reply, hevent, hdata⟩ := after_append_singleton.mp hended
  cases hevent
  have hneeds : Needs p j id := needs_iff.mpr ⟨_, hm.asks, rfl⟩
  obtain ⟨r, hr, rfl⟩ := h.needs_row j _ hneeds
  have hown := h.aims_own j _ hneeds.aims r hr rfl
  obtain ⟨o, ho, rfl⟩ := hm.read_otp hc hf hr hdata
  obtain ⟨k, hk, hack, hotp⟩ := h.otp_sent r hr o ho
  obtain ⟨words, -, rfl⟩ := Option.map_eq_some_iff.mp hotp
  exact ⟨r.user, _, hown, hm.sentFor ⟨k, hk, hack, hotp⟩, (c k).cstr_fillBuffer_newOtp words buf⟩

theorem step (h : Vouched c p) (hc : (c i).Complete) (hf : (c i).Fits) (hcare : Careful c p i)
    (hm : Move c p i op a p') : Vouched c p' where
  toOwned := h.toOwned.step hc hf hcare hm
  otp_sent _ hr _ ho := h.otp_sent_step hf hm hr ho
  compared_sent _ _ _ _ he := h.compared_sent_step hc hf hm he

end Vouched

theorem vouched_of_reach (hc : ∀ i, (c i).Complete) (hf : ∀ i, (c i).Fits)
    (hp : Pool.Reach (handlers c) (Careful c) (start c) p) : Vouched c p :=
  reach_invariant (vouched_start c) (fun _ i _ _ _ h hcare hm => h.step (hc i) (hf i) hcare hm) hp

/-! ## The exit paths -/

namespace Call

/-- What the call says of itself in its exit path. -/
def Exits (c : Call) : Exit → Prop
  | .exceptUser => ∃ user, c.user = some user ∧ exceptMatch c.arg c.ctrl user = true
  | .smsErr result ret => ret = (smsOnErr result c.ctrl).2
  | .compared otpInput _ len =>
    ∃ typed, c.typed = some typed ∧ otpInput = typed.bytes ∧ len = c.arg.otpLen
  | _ => True

variable {c : Call}

theorem provideOtp_exits (user : CString) (info : UserInfo) :
    (provideOtp c.arg c.ctrl user info).Gives fun exit => ∀ e, exit = some e → c.Exits e := by
  refine Prog.Gives.bind fun registered => ?_
  cases registered with
  | true => exact fun e h => nomatch h
  | false =>
    refine Prog.Gives.bind (p := otpGen c.arg.otpLen c.arg.otpType) fun otp => ?_
    cases otp with
    | none => exact fun e h => by cases h; trivial
    | some otp =>
      refine Prog.Gives.bind (p := smsSend c.arg.sockPath info otp) fun result => ?_
      by_cases hsms : (smsOnErr result c.ctrl).1 ≠ 0
      · simp only [if_pos hsms]
        exact fun e h => by cases h; rfl
      · simp only [if_neg hsms]
        refine Prog.Gives.bind (p := pamRegisterOtp user otp) fun done => ?_
        cases done with
        | true => exact fun e h => nomatch h
        | false => exact fun e h => by cases h; trivial

theorem beforeToken_exits (user : CString) :
    (beforeToken c.arg c.ctrl user c.time.1).Gives fun exit => ∀ e, exit = some e → c.Exits e := by
  refine Prog.Gives.bind fun info => ?_
  cases info with
  | none => exact fun e h => by cases h; trivial
  | some info =>
    refine Prog.Gives.bind (p := purgeExpired user c.time.1) fun _ => ?_
    refine Prog.Gives.bind (p := registerUser user (c.arg.timeExpir * 60 + c.time.1)) fun done => ?_
    cases done with
    | false => exact fun e h => by cases h; trivial
    | true => exact provideOtp_exits user info

theorem checkToken_exits (user : CString) (es : List PamEvent) :
    (checkToken user c.arg.otpLen).Traced c.Answers (fun _ _ => True) (fun _ => c.Exits) es := by
  refine ⟨trivial, fun typed htyped => ?_⟩
  obtain ⟨T, htyped⟩ := htyped
  cases typed with
  | none => trivial
  | some input =>
    refine Prog.Gives.traced (Prog.Gives.bind (p := pamGetOtp user) fun otp => ?_) _
    cases otp with
    | none => trivial
    | some otp => exact ⟨input, htyped.symm, rfl, rfl⟩

theorem prog_exits (c : Call) :
    c.prog.Traced c.Answers (fun _ _ => True) (fun _ => c.Exits) [] := by
  refine ⟨trivial, fun time htime => ?_⟩
  obtain ⟨T, rfl⟩ := htime
  cases hu : c.user with
  | none => trivial
  | some user =>
    change (if exceptMatch c.arg c.ctrl user then Prog.ret Exit.exceptUser
      else loginUser c.arg c.ctrl user c.time.1).Traced _ _ _ _
    split
    · rename_i hex
      exact ⟨user, hu, hex⟩
    · rw [loginUser_eq]
      refine Prog.traced_bind.mpr (((beforeToken_exits user).traced _).mono (fun _ _ h => h)
        fun es exit hexit => ?_)
      cases exit with
      | none => exact checkToken_exits user es
      | some exit => exact hexit exit rfl

end Call

/-! ## The whole host -/

/-- A session that goes on is careful; anything may happen outside the sessions. -/
def Host.Careful (d : Setup ι) (s : Host ι) (e : HostEvent ι) : Prop :=
  ∀ i, e = .session i → PamSmsauth.Careful d.call s.pool i

/-- How a login of the host came to `PAM_SUCCESS`. -/
inductive LetIn (d : Setup ι) (s : Host ι) (i : ι) : Exit → Prop
  | exempt {user : CString} : (d.call i).user = some user →
      exceptMatch (d.call i).arg (d.call i).ctrl user = true → LetIn d s i .exceptUser
  | relaxed {result : SmsResult} : (d.call i).ctrl &&& pamSmsauthRelaxed ≠ 0 →
      result = .conn2serverErr ∨ result = .gatewayErr → LetIn d s i (.smsErr result .success)
  | token {user typed otp : CString} {j : ι} {buf : List Byte} : (d.call i).user = some user →
      (d.call i).typed = some typed → (d.call j).user = some user → s.Delivered d j otp →
      typed.bytes.take (d.call i).arg.otpLen = otp.bytes.take (d.call i).arg.otpLen →
      LetIn d s i (.compared typed.bytes buf (d.call i).arg.otpLen)

theorem Host.Reach.exits {d : Setup ι} {P : Host ι → HostEvent ι → Prop} {s : Host ι} {exit : Exit}
    (h : Host.Reach d P s) (hexit : s.pool.sess i = .ret exit) : (d.call i).Exits exit := by
  have hexits := h.pool.traced (V := fun i => (d.call i).Answers) (P := fun _ _ _ => True)
    (Q := fun i _ => (d.call i).Exits) (fun _ _ T => ⟨T, rfl⟩) (fun i => (d.call i).prog_exits) i
  rw [hexit] at hexits
  exact hexits

/-- What was compared with success is a password that was delivered for the user. -/
theorem compared_delivered {d : Setup ι} {s : Host ι} {typed : CString} {buf : List Byte} {n : ℕ}
    (hlib : d.lib.Standard) (hc : ∀ i, (d.call i).Complete) (hf : ∀ i, (d.call i).Fits)
    (hclean : ∀ i info, (d.call i).info = some info → info.Clean)
    (h : Host.Reach d (Host.Careful d) s)
    (hexit : s.pool.sess i = .ret (.compared typed.bytes buf n))
    (hret : (Exit.compared typed.bytes buf n).ret = .success) :
    ∃ user otp j, (d.call i).user = some user ∧ (d.call j).user = some user ∧
      s.Delivered d j otp ∧ typed.bytes.take n = otp.bytes.take n := by
  obtain ⟨user, o, hu, ⟨j, hj, hsent⟩, hcstr⟩ :=
    (vouched_of_reach hc hf (h.pool_of fun _ i hi => hi i rfl)).compared_sent i _ _ _ hexit
  refine ⟨user, o, j, hu, hj, h.delivered hlib (hclean j) hsent, ?_⟩
  have hcmp := (otpCmp_eq_success_iff _ _ _).mp hret
  rwa [hcstr, CString.cstr_bytes] at hcmp

theorem second_factor_delivered {d : Setup ι} {s : Host ι} {exit : Exit}
    (hlib : d.lib.Standard) (hc : ∀ i, (d.call i).Complete) (hf : ∀ i, (d.call i).Fits)
    (hclean : ∀ i info, (d.call i).info = some info → info.Clean)
    (h : Host.Reach d (Host.Careful d) s) (hexit : s.pool.sess i = .ret exit)
    (hret : exit.ret = .success) : LetIn d s i exit := by
  have hexits := h.exits hexit
  cases exit with
  | exceptUser =>
    obtain ⟨user, hu, hex⟩ := hexits
    exact .exempt hu hex
  | smsErr result ret =>
    cases (hret : ret = .success)
    obtain ⟨hrel, hresult⟩ := smsOnErr_success (Eq.symm hexits)
    exact .relaxed hrel hresult
  | compared input buf n =>
    obtain ⟨typed, htyped, rfl, rfl⟩ := hexits
    obtain ⟨user, otp, j, hu, hj, hdelivered, htake⟩ :=
      compared_delivered hlib hc hf hclean h hexit hret
    exact .token hu htyped hj hdelivered htake
  | userUnknown => cases hret
  | gecosNotFound => cases hret
  | registerInitErr => cases hret
  | otpGenErr => cases hret
  | registerOtpErr => cases hret
  | otpNotInput => cases hret
  | otpNotFound => cases hret

/-! ## A login that gets its message -/

/-- `ann` logs in alone, and there is an HTTP gateway. -/
def annSetup : Setup Unit where
  call _ := .annEarly
  counter _ := 0
  sockPath := Call.annEarly.arg.sockPath
  priority := lit "http"
  lib := .strict
  lf _ := none

def annPool (n : ℕ) : Sessions Unit :=
  (start annSetup.call).exec (handlers annSetup.call) (List.replicate n ())

theorem annPool_exec (n m : ℕ) :
    (annPool n).exec (handlers annSetup.call) (List.replicate m ()) = annPool (n + m) := by
  rw [annPool, annPool, List.replicate_add, Pool.exec_append]

def annInfo : UserInfo := ⟨lit "Ann", lit "115550000", lit "claro"⟩

theorem annInfo_clean : annInfo.Clean := ⟨by decide, by decide, by decide, by decide⟩

theorem annSetup_info : (annSetup.call ()).info = some annInfo := by decide

theorem annInfo_sendable : annInfo.Sendable :=
  userSetInfo_sendable (by decide : userSetInfo (.ofLit "[Ann;11;5550000;claro;") = .ok annInfo)

/-- What `annEarly` writes: its password is `77777`. -/
def annText : List Byte :=
  (jsonReq2str (smsRequest annInfo (otpText 5 .num fun _ => 7).bytes 1)).2

/-- The answer that it is given. -/
abbrev annAnswer : JsonResponse := .about (wrap32 (1 : UInt32).toNat) .ok

/-- The request as the server has it. -/
def annReq : JsonRequest := (smsRequest annInfo (otpText 5 .num fun _ => 7).bytes 1).received

theorem ann_decodes : JsonRequest.str2json .strict (received annText) = .ok annReq := by
  have hdec : JsonRequest.str2json .strict (received annText) = _ :=
    @serve_decodes _ ⟨received annText, fun _ => .answering 200, true⟩ _ _ _ _ _
      PyLib.strict_standard annInfo_sendable annInfo_clean rfl
  exact hdec

/-- A server that was just started takes the message, and says so. -/
theorem serve_ann {gateway : ℕ → GatewayEnv} (h : attempt (lit "http") (gateway 1) = .ok ()) :
    (serve .strict (getGwPriority (lit "http")) .init
      ⟨received annText, gateway, true⟩).answer = some annAnswer := by
  have hloop : loopResult (Conn.tries ⟨received annText, gateway, true⟩ (getGwPriority (lit "http"))
      annReq) = .ok () := by
    refine loopResult_ok_iff_reaches.mpr ⟨(lit "http", 1), by decide +kernel,
      fun p hp hlt => ?_, ?_⟩
    · exact absurd (List.le_snd_of_mem_zipIdx hp) (Nat.not_le.mpr hlt)
    · have hsms : annReq.sms = .str (smsText (otpText 5 .num fun _ => 7).bytes) := rfl
      exact (execClient_eq hsms _ _).trans h
  have hserved := @serve_ok .strict _ .init ⟨received annText, gateway, true⟩ _
    (getGwPriority_ne_nil (lit "http")) Server.init_clean ann_decodes
  have hanswer := congrArg Prod.fst hserved.2.1
  dsimp only at hanswer
  rw [hanswer, outcome, hloop]
  rfl

/-- A server is up, and `ann` waits for its answer. -/
theorem ann_waiting {P : Host Unit → HostEvent Unit → Prop}
    (hP : ∀ (s : Host Unit) p i, PamSmsauth.Careful annSetup.call p i →
      P { s with pool := p } (.session i))
    (hstart : ∀ s, P s .start) :
    ∃ s, Host.Reach annSetup P s ∧ s.pool = annPool 16 ∧
      s.daemon 1 = ⟨some .init, none, [⟨some (), annText⟩]⟩ ∧ s.inbox () = none := by
  have hinit : Host.Reach annSetup P (.init annSetup) := .init
  have hup := hinit.step .start (hstart _) trivial
  have hasked := hup.sessions (C := PamSmsauth.Careful annSetup.call) (hP _)
    (List.replicate 15 ()) (by decide +kernel)
  exact ⟨_, hasked.request () (jsonReqSet annInfo (smsText (otpText 5 .num fun _ => 7).bytes))
    (hP _ _ _ (by decide +kernel)) (by decide +kernel) rfl (by simp [Host.Up, Host.next]),
    annPool_exec 15 1, rfl, rfl⟩

theorem annAnswer_json2str : annAnswer.Json2str (JsonResponse.printPacket annAnswer.packet) :=
  ⟨_, .refl _, rfl⟩

/-- The login of `ann` goes through when the HTTP gateway completes. -/
theorem ann_let_in {P : Host Unit → HostEvent Unit → Prop} {gateway : ℕ → GatewayEnv}
    (hgw : attempt (lit "http") (gateway 1) = .ok ())
    (hP : ∀ (s : Host Unit) p i, PamSmsauth.Careful annSetup.call p i →
      P { s with pool := p } (.session i))
    (hstart : ∀ s, P s .start)
    (hserve : ∀ s text got, s.daemon 1 = ⟨some .init, none, [⟨some (), annText⟩]⟩ →
      P s (.serve 1 gateway true text got)) :
    ∃ s, Host.Reach annSetup P s ∧ s.pool.sess () = .ret (Call.annEarly.run .empty).1 := by
  obtain ⟨s₁, hwaiting, hpool₁, hbacklog, -⟩ := ann_waiting hP hstart
  obtain ⟨s, hs, hpool, hinbox⟩ := hwaiting.answered 1 gateway
    (fun text got => hserve _ text got hbacklog) hbacklog (serve_ann hgw) annAnswer_json2str
  rw [hpool₁] at hpool
  have hwait : wait4resp annSetup.lf (some (JsonResponse.printPacket annAnswer.packet))
      (annSetup.requestId ()) = some (.ok, 1) := by
    rw [wait4resp, check_json2str annSetup.lf 1 .ok annAnswer_json2str]
    rfl
  have hgone := hs.response (hP s _ _ (by rw [hpool]; decide +kernel))
    (by rw [hpool]; decide +kernel) (hinbox () rfl) hwait
  have hdone : (s.schedule annSetup ()).pool = annPool 17 := by
    rw [Host.schedule, hpool, ← annPool_exec 16 1]
    rfl
  have hend := hgone.sessions (C := PamSmsauth.Careful annSetup.call) (hP _)
    (List.replicate 8 ()) (by rw [hdone]; decide +kernel)
  rw [hdone, annPool_exec] at hend
  have halone := (start annSetup.call).exec_alone (handlers annSetup.call) ()
  have hlength : (((start annSetup.call).sess ()).trace (handlers annSetup.call ())
    (start annSetup.call).world.state).length = 25 := by decide +kernel
  rw [hlength] at halone
  refine ⟨_, hend, ?_⟩
  show (annPool 25).sess () = _
  rw [annPool, halone]
  dsimp only
  rw [Function.update_self]
  rfl

theorem second_factor_delivered_ann : ∃ (s : Host Unit) (exit : Exit),
    s.pool.sess () = .ret exit ∧ exit.ret = .success ∧ LetIn annSetup s () exit := by
  have hcareful : ∀ (s : Host Unit) p i, PamSmsauth.Careful annSetup.call p i →
      Host.Careful annSetup { s with pool := p } (.session i) :=
    fun s p i hi j hj => by cases hj; exact hi
  obtain ⟨s, hs, hexit⟩ := @ann_let_in (Host.Careful annSetup) (fun _ => .answering 200) rfl
    hcareful (fun s i hi => nomatch hi) fun s text got _ i hi => nomatch hi
  have hret : (Call.annEarly.run .empty).1.ret = .success := by decide +kernel
  have hclean : ∀ i info, (annSetup.call i).info = some info → info.Clean := by
    intro i info h
    cases annSetup_info.symm.trans h
    exact annInfo_clean
  exact ⟨s, _, hexit, hret, second_factor_delivered PyLib.strict_standard
    (fun _ => Call.annEarly_normal.complete) (fun _ => Call.annEarly_normal.fits)
    hclean hs hexit hret⟩

end PamSmsauth
