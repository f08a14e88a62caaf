import PamSmsauth.Clients

/-!
# What is handed to the gateways

Whatever the libraries below the clients do, an attempt hands a message over at most once, and what
it hands over is the message of the request: a form whose fields are the number, the provider and
the text, a mail to the number at the domain of its provider, or a short message to the number. An
attempt that completes has handed the message over (`execClientProg_hands`). A run of the loop over
the gateways is the loop of `Server`, one attempt behind the other (`exec_serviceProg`).
-/

namespace PamSmsauth

open CText Eff Raising

/-! ## Messages -/

/-- A request whose texts are ASCII, with a number that stays in its line. -/
structure SmsMessage where
  number : List Byte
  provider : List Byte
  text : List Byte
  number_ascii : Ascii number
  number_cr : (13 : Byte) ∉ number
  provider_ascii : Ascii provider
  text_ascii : Ascii text

/-- What the code relies on: the variables of the form are told apart, and what stands in the header
of a mail stays in its line. -/
structure ConfFile.Usable (c : ConfFile) : Prop where
  vars : ∀ cel sender provider msg, c.getHttpVarCel = .ok cel → c.getHttpVarFrom = .ok sender →
    c.getHttpVarProvider = .ok provider → c.getHttpVarMsg = .ok msg →
    [cel, sender, provider, msg].Nodup
  sender : ∀ addr, c.getSmtpFrom = .ok addr → Ascii addr ∧ (13 : Byte) ∉ addr
  domains : ∀ domains, c.setSmtpProviderDomain = .ok domains →
    ∀ e ∈ domains, Ascii e.2 ∧ (13 : Byte) ∉ e.2

namespace SmsMessage

variable (m : SmsMessage)

/-- The request asks for the message. -/
structure Of (req : JsonRequest) : Prop where
  cel : req.cel = .str m.number
  provider : req.provider = .str m.provider
  sms : req.sms = .str m.text

/-- The fields of the form that a gateway with this configuration is given. -/
def InForm (c : ConfFile) (params : List Byte) : Prop :=
  ∃ cel sender provider msg, c.getHttpVarCel = .ok cel ∧ c.getHttpVarFrom = .ok sender ∧
    c.getHttpVarProvider = .ok provider ∧ c.getHttpVarMsg = .ok msg ∧
    (Form.decode params).Perm [(cel, m.number), (sender, jsonPacketName),
      (provider, m.provider), (msg, m.text)]

/-- The mail that reaches the phone: its header says nothing but from where and to where. -/
def InMail (c : ConfFile) (fromAddr toAddr mail : List Byte) : Prop :=
  c.getSmtpFrom = .ok fromAddr ∧ ∃ domains domain, c.setSmtpProviderDomain = .ok domains ∧
    getSmtpProviderDomain domains (.str m.provider) = .ok domain ∧
    toAddr = m.number ++ 64 :: domain ∧
    Mail.read mail = some ([(lit "From", fromAddr), (lit "To", toAddr)], m.text)

/-- What the call hands over is the message, as the configuration that was read says. -/
def In (es : List GwEvent) : GwOp → Prop
  | .request _ _ params _ =>
    ∃ c : ConfFile, (⟨GwOp.openConf, .ok c⟩ : GwEvent) ∈ es ∧ m.InForm c params
  | .sendmail fromAddr toAddr mail =>
    ∃ c : ConfFile, (⟨GwOp.openConf, .ok c⟩ : GwEvent) ∈ es ∧ m.InMail c fromAddr toAddr mail
  | .sendSMS text number => text = .str m.text ∧ number = .str m.number
  | _ => True

end SmsMessage

/-- The call hands a message to a gateway. -/
def GwOp.hands : GwOp → Bool
  | .request .. | .sendmail .. | .sendSMS .. => true
  | _ => false

/-- What the libraries can answer. -/
def GwOp.Answers : (op : GwOp) → Except Exc op.Val → Prop
  | .openConf, .ok c => ConfFile.Usable c
  | _, _ => True

/-! ## The texts -/

theorem separates_alwaysSafe : Form.Separates alwaysSafe := ⟨rfl, rfl, rfl, rfl⟩

theorem mapM_ok {α β : Type} {f : α → Except Exc β} {g : α → β} {l : List α}
    (h : ∀ a ∈ l, f a = .ok (g a)) : l.mapM f = .ok (l.map g) := by
  induction l with
  | nil => rfl
  | cons a l ih =>
    rw [List.mapM_cons, h a (List.mem_cons_self ..),
      ih fun b hb => h b (List.mem_cons_of_mem _ hb)]
    rfl

def PyVal.text : PyVal → List Byte
  | .str s => s
  | _ => []

/-- A form decodes to the entries of the dictionary it was made of. -/
theorem decode_urlencode {py : PyText} (hpy : py.Standard) {pairs : List (List Byte × List Byte)}
    (hascii : ∀ p ∈ pairs, Ascii p.2) (hne : pairs ≠ []) {params : List Byte}
    (h : urlencode py (pairs.map fun p => (p.1, .str p.2)) = .ok params) :
    (Form.decode params).Perm pairs := by
  have hperm := py.items_perm (pairs.map fun p => (p.1, .str p.2))
  have hstr : ∀ e ∈ py.items (pairs.map fun p => (p.1, .str p.2)),
      (py.str e.2).map (fun v => (e.1, v)) = .ok (e.1, e.2.text) := by
    intro e he
    obtain ⟨p, hp, rfl⟩ := List.mem_map.mp (hperm.mem_iff.mp he)
    simp only [hpy.str_ascii p.2 (hascii p hp)]
    rfl
  have hpairs := hperm.map fun e => (e.1, e.2.text)
  rw [List.map_map] at hpairs
  have hid : pairs.map ((fun e : List Byte × PyVal => (e.1, e.2.text)) ∘ fun p => (p.1, .str p.2)) =
      pairs :=
    (List.map_congr_left fun _ _ => rfl).trans (List.map_id pairs)
  rw [hid] at hpairs
  rw [urlencode, mapM_ok hstr] at h
  cases h
  rwa [Form.decode_encode separates_alwaysSafe]
  intro hnil
  rw [hnil] at hpairs
  exact hne (List.nil_perm.mp hpairs)

variable {m : SmsMessage} {c : ConfFile} {py : PyText}

theorem inForm_of_urlencode (hpy : py.Standard) (hc : c.Usable) {d : PyDict}
    (hd : HttpClient.setUrlParams c (.str m.number) (.str m.provider) (.str jsonPacketName)
      (.str m.text) = .ok d)
    {params : List Byte} (h : urlencode py d = .ok params) : m.InForm c params := by
  unfold HttpClient.setUrlParams at hd
  cases hcel : c.getHttpVarCel with
  | error e => rw [hcel] at hd; cases hd
  | ok cel =>
  cases hsender : c.getHttpVarFrom with
  | error e => rw [hcel, hsender] at hd; cases hd
  | ok sender =>
  cases hprovider : c.getHttpVarProvider with
  | error e => rw [hcel, hsender, hprovider] at hd; cases hd
  | ok provider =>
  cases hmsg : c.getHttpVarMsg with
  | error e => rw [hcel, hsender, hprovider, hmsg] at hd; cases hd
  | ok msg =>
    have hnodup := hc.vars cel sender provider msg hcel hsender hprovider hmsg
    let pairs := [(cel, m.number), (sender, jsonPacketName), (provider, m.provider), (msg, m.text)]
    have hset : d = pairs.map fun p => (p.1, .str p.2) := by
      rw [hcel, hsender, hprovider, hmsg] at hd
      simp only [List.nodup_cons, List.mem_cons, List.not_mem_nil, or_false, not_or] at hnodup
      obtain ⟨⟨h1, h2, h3⟩, ⟨h4, h5⟩, h6, -⟩ := hnodup
      refine (Except.ok.inj hd).symm.trans ?_
      simp [pairs, PyDict.set, h1, h2, h3, h4, h5, h6]
    have hascii : ∀ p ∈ pairs, Ascii p.2 := by
      have hname : Ascii jsonPacketName := by decide
      simp only [pairs, List.forall_mem_cons, List.not_mem_nil, false_implies, implies_true,
        and_true]
      exact ⟨m.number_ascii, hname, m.provider_ascii, m.text_ascii⟩
    rw [hset] at h
    exact ⟨cel, sender, provider, msg, hcel, hsender, hprovider, hmsg,
      decode_urlencode hpy hascii (List.cons_ne_nil _ _) h⟩

theorem ascii_append {s t : List Byte} (hs : Ascii s) (ht : Ascii t) : Ascii (s ++ t) := by
  intro b hb
  exact (List.mem_append.mp hb).elim (hs b) (ht b)

theorem getSmtpProviderDomain_mem {domains : List (List Byte × List Byte)} {v : PyVal}
    {domain : List Byte} (h : getSmtpProviderDomain domains v = .ok domain) :
    ∃ provider, (provider, domain) ∈ domains := by
  unfold getSmtpProviderDomain at h
  split at h
  case h_1 =>
    split at h
    · rename_i entry hfind
      cases h
      exact ⟨entry.1, List.mem_reverse.mp (List.mem_of_find?_eq_some hfind)⟩
    · cases h
  all_goals cases h

/-- The texts of the mail that the client puts together. -/
theorem inMail_of_add (hpy : py.Standard) (hc : c.Usable) {fromAddr toAddr mail : List Byte}
    {domains : List (List Byte × List Byte)} (hfrom : c.getSmtpFrom = .ok fromAddr)
    (hdomains : c.setSmtpProviderDomain = .ok domains)
    (hto : SmtpClient.toAddr py domains (.str m.number) (.str m.provider) = .ok toAddr)
    (hmail : py.add [.str (lit "From: "), .str fromAddr, .str (lit "\r\nTo: "), .str toAddr,
      .str (lit "\r\n\r\n"), .str m.text] = .ok mail) :
    m.InMail c fromAddr toAddr mail := by
  obtain ⟨hfromAscii, hfromCr⟩ := hc.sender fromAddr hfrom
  have hat : Ascii (lit "@") := by decide
  have hadd : py.add [.str m.number, .str (lit "@")] = .ok (m.number ++ lit "@") := by
    have h := hpy.add_ascii [m.number, lit "@"] (by simp [m.number_ascii, hat])
    simpa using h
  unfold SmtpClient.toAddr at hto
  rw [hadd] at hto
  cases hdomain : getSmtpProviderDomain domains (.str m.provider) with
  | error e => rw [hdomain] at hto; cases hto
  | ok domain =>
    obtain ⟨provider, hmem⟩ := getSmtpProviderDomain_mem hdomain
    obtain ⟨hdomainAscii, hdomainCr⟩ := hc.domains domains hdomains _ hmem
    have hnumber := ascii_append m.number_ascii hat
    have hto' : toAddr = m.number ++ 64 :: domain := by
      rw [hdomain] at hto
      have h := hpy.add_ascii [m.number ++ lit "@", domain] (by simp [hnumber, hdomainAscii])
      have heq : py.add [.str (m.number ++ lit "@"), .str domain] = .ok toAddr := hto
      cases h.symm.trans heq
      simp [lit]
    have htoAscii : Ascii toAddr := by
      have h := ascii_append hnumber hdomainAscii
      rw [List.append_assoc] at h
      exact hto' ▸ h
    have hwrite : mail = Mail.write [(lit "From", fromAddr), (lit "To", toAddr)] m.text := by
      have h := hpy.add_ascii [lit "From: ", fromAddr, lit "\r\nTo: ", toAddr,
        lit "\r\n\r\n", m.text]
        (by
          simp only [List.forall_mem_cons, List.not_mem_nil, false_implies, implies_true, and_true]
          exact ⟨by decide, hfromAscii, by decide, htoAscii, by decide, m.text_ascii⟩)
      cases h.symm.trans hmail
      simp [Mail.write, Mail.fieldLine, Mail.crlf, lit]
    refine ⟨hfrom, domains, domain, hdomains, hdomain, hto', ?_⟩
    rw [hwrite]
    refine Mail.read_write ?_ m.text
    have hcr : (13 : Byte) ∉ toAddr := by
      simp [hto', m.number_cr, hdomainCr]
    simp only [List.forall_mem_cons, List.not_mem_nil, false_implies, implies_true, and_true]
    have hnames : (58 : Byte) ∉ lit "From" ∧ (13 : Byte) ∉ lit "From" ∧ (58 : Byte) ∉ lit "To" ∧
        (13 : Byte) ∉ lit "To" := by decide
    obtain ⟨h1, h2, h3, h4⟩ := hnames
    exact ⟨⟨h1, h2, hfromCr⟩, ⟨h3, h4, hcr⟩⟩

/-! ## One attempt -/

/-- Nothing has been handed over. -/
def NoHandover (es : List GwEvent) : Prop := ∀ e ∈ es, ¬ GwOp.hands e.1

/-- The call hands over the message and nothing else, and nothing was handed over before it. -/
def SmsMessage.Allows (m : SmsMessage) (es : List GwEvent) (op : GwOp) : Prop :=
  m.In es op ∧ (op.hands → NoHandover es)

/-- Something was handed over, and the library took it. -/
def HandedOver (es : List GwEvent) : Prop := ∃ e ∈ es, GwOp.hands e.1 ∧ e.2.isOk

/-- What a program of one attempt has done when it ends. -/
def Completes {α : Type} (es : List GwEvent) (r : Except Exc α) : Prop :=
  ∀ a, r = .ok a → HandedOver es

variable {α β : Type} {es : List GwEvent} {lib : PyLib} {req : JsonRequest}

theorem NoHandover.append {e : GwEvent} (h : NoHandover es) (he : ¬ GwOp.hands e.1) :
    NoHandover (es ++ [e]) := by
  intro e' he'
  rcases List.mem_append.mp he' with he' | he'
  · exact h e' he'
  · rw [List.mem_singleton.mp he']
    exact he

theorem SmsMessage.allows_quiet {op : GwOp} (h : ¬ op.hands) : m.Allows es op := by
  refine ⟨?_, fun hop => absurd hop h⟩
  cases op <;> trivial

theorem traced_gw {op : GwOp} {Q : List GwEvent → Except Exc op.Val → Prop} (hP : m.Allows es op)
    (hQ : ∀ r, op.Answers r → Q (es ++ [⟨op, r⟩]) r) :
    (gw op).Traced GwOp.Answers m.Allows Q es :=
  Traced.call hP hQ

/-- A call that hands nothing over, and what follows. -/
theorem traced_quiet {op : GwOp} {f : op.Val → GwProg β} {R : List GwEvent → Except Exc β → Prop}
    (hop : ¬ op.hands) (herr : ∀ es e, R es (.error e))
    (hf : ∀ v, op.Answers (.ok v) → (f v).Traced GwOp.Answers m.Allows R (es ++ [⟨op, .ok v⟩])) :
    (gw op >>= f).Traced GwOp.Answers m.Allows R es := by
  refine Traced.bind (traced_gw (m.allows_quiet hop) fun r hr => ?_)
  cases r with
  | error e => exact herr _ e
  | ok v => exact hf v hr

theorem traced_pure {x : Except Exc α} {f : α → GwProg β} {R : List GwEvent → Except Exc β → Prop}
    (herr : ∀ es e, R es (.error e))
    (hf : ∀ a, x = .ok a → (f a).Traced GwOp.Answers m.Allows R es) :
    (pureExcept x >>= f).Traced GwOp.Answers m.Allows R es := by
  refine Traced.bind (Traced.pureExcept ?_)
  cases x with
  | error e => exact herr _ e
  | ok a => exact hf a rfl

/-- The call that hands the message over is the first to do so. -/
theorem traced_hands {op : GwOp} {f : op.Val → GwProg β} {R : List GwEvent → Except Exc β → Prop}
    (hop : op.hands) (hin : m.In es op) (hno : NoHandover es) (herr : ∀ es e, R es (.error e))
    (hf : ∀ v, HandedOver (es ++ [⟨op, .ok v⟩]) →
      (f v).Traced GwOp.Answers m.Allows R (es ++ [⟨op, .ok v⟩])) :
    (gw op >>= f).Traced GwOp.Answers m.Allows R es := by
  refine Traced.bind (traced_gw ⟨hin, fun _ => hno⟩ fun r _ => ?_)
  cases r with
  | error e => exact herr _ e
  | ok v => exact hf v ⟨_, List.mem_append_right _ (List.mem_singleton_self _), hop, rfl⟩

theorem completes_error (es : List GwEvent) (e : Exc) : Completes (α := Unit) es (.error e) :=
  nofun

theorem HandedOver.append {e : GwEvent} (h : HandedOver es) : HandedOver (es ++ [e]) := by
  obtain ⟨e', he', h⟩ := h
  exact ⟨e', List.mem_append_left _ he', h⟩

/-- What follows when the message was handed over. -/
theorem traced_after {op : GwOp} (hop : ¬ op.hands) (h : HandedOver es) :
    (gw op).Traced GwOp.Answers m.Allows Completes es :=
  traced_gw (m.allows_quiet hop) fun _ _ _ _ => h.append

theorem HttpClient.post_hands (hpy : py.Standard) (hc : c.Usable) {d : PyDict}
    (hd : HttpClient.setUrlParams c (.str m.number) (.str m.provider) (.str jsonPacketName)
      (.str m.text) = .ok d) (headers : List (List Byte × List Byte))
    (hopen : (⟨GwOp.openConf, .ok c⟩ : GwEvent) ∈ es) (hno : NoHandover es) :
    (HttpClient.post py c headers d).Traced GwOp.Answers m.Allows Completes es := by
  refine traced_pure completes_error fun params hparams => ?_
  refine traced_pure completes_error fun addr _ => ?_
  refine traced_quiet nofun completes_error fun _ _ => ?_
  refine traced_pure completes_error fun method _ => ?_
  refine traced_pure completes_error fun script _ => ?_
  have hform := inForm_of_urlencode hpy hc hd hparams
  refine traced_gw ⟨⟨c, List.mem_append_left _ hopen, hform⟩, fun _ => hno.append nofun⟩ ?_
  rintro r - u rfl
  exact ⟨_, List.mem_append_right _ (List.mem_singleton_self _), rfl, rfl⟩

theorem attemptProg_http (hpy : py.Standard) (hreq : m.Of req) (hes : NoHandover es) :
    (HttpClient.initProg >>= fun c => HttpClient.sendSmsProg py c req.cel req.provider
      (.str jsonPacketName) req.sms).Traced GwOp.Answers m.Allows Completes es := by
  rw [hreq.cel, hreq.provider, hreq.sms]
  refine Traced.bind (Traced.mapError (traced_gw (m.allows_quiet nofun) fun r hr => ?_))
  cases r with
  | error e => exact completes_error _ _
  | ok c =>
    have hopen : (⟨GwOp.openConf, .ok c⟩ : GwEvent) ∈ es ++ [⟨GwOp.openConf, .ok c⟩] :=
      List.mem_append_right _ (List.mem_singleton_self _)
    refine traced_pure completes_error fun method _ => ?_
    refine traced_pure completes_error fun params hparams => ?_
    have hd : HttpClient.setUrlParams c (.str m.number) (.str m.provider) (.str jsonPacketName)
        (.str m.text) = .ok params := by
      revert hparams
      cases HttpClient.setUrlParams c (.str m.number) (.str m.provider) (.str jsonPacketName)
        (.str m.text) with
      | error e => exact nofun
      | ok d => exact id
    refine Traced.bind ((HttpClient.post_hands hpy hr hd _ hopen (hes.append nofun)).mono
      fun es r hposted => ?_)
    cases r with
    | error e => exact completes_error _ _
    | ok u =>
      have hover := hposted u rfl
      refine traced_quiet nofun completes_error fun status _ => ?_
      dsimp only
      split_ifs
      · exact completes_error _ _
      · exact completes_error _ _
      · exact completes_error _ _
      · exact traced_after nofun hover.append

theorem attemptProg_smtp (hpy : py.Standard) (hreq : m.Of req) (hes : NoHandover es) :
    (SmtpClient.initProg >>= fun r => SmtpClient.sendSmsProg lib py r.1 r.2 req.cel req.provider
      req.sms).Traced GwOp.Answers m.Allows Completes es := by
  rw [hreq.cel, hreq.provider, hreq.sms]
  refine Traced.bind (Traced.mapError (traced_quiet nofun (fun es e => completes_error es _)
    fun c hc => traced_pure (fun es e => completes_error es _) fun domains hdomains => ?_))
  have hopen : (⟨GwOp.openConf, .ok c⟩ : GwEvent) ∈ es ++ [⟨GwOp.openConf, .ok c⟩] :=
    List.mem_append_right _ (List.mem_singleton_self _)
  refine traced_pure completes_error fun fromAddr hfrom => ?_
  refine traced_pure completes_error fun toAddr hto => ?_
  refine traced_pure completes_error fun mail hmail => ?_
  have hin := inMail_of_add hpy hc hfrom hdomains hto hmail
  refine traced_pure completes_error fun addr _ => ?_
  refine traced_pure completes_error fun port _ => ?_
  refine traced_quiet nofun completes_error fun _ _ => ?_
  refine traced_pure completes_error fun usr _ => ?_
  refine traced_pure completes_error fun passwd _ => ?_
  refine traced_quiet nofun completes_error fun _ _ => ?_
  refine traced_hands rfl ⟨c, ?_, hin⟩ ?_ completes_error fun _ hover => traced_after nofun hover
  · exact List.mem_append_left _ (List.mem_append_left _ hopen)
  · refine NoHandover.append (NoHandover.append (hes.append ?_) ?_) ?_
    · exact nofun
    · exact nofun
    · exact nofun

theorem attemptProg_mobile (hreq : m.Of req) (hes : NoHandover es) :
    (gw .stateMachine >>= fun _ => gw (.sendSMS req.sms req.cel)).Traced GwOp.Answers m.Allows
      Completes es := by
  refine traced_quiet nofun completes_error fun _ _ => ?_
  refine traced_gw ⟨⟨hreq.sms, hreq.cel⟩, fun _ => hes.append nofun⟩ ?_
  rintro r - u rfl
  exact ⟨_, List.mem_append_right _ (List.mem_singleton_self _), rfl, rfl⟩

theorem execClientProg_hands (hpy : py.Standard) (hreq : m.Of req) (gwId : List Byte)
    (hes : NoHandover es) :
    (execClientProg lib py req gwId).Traced GwOp.Answers m.Allows Completes es := by
  have hattempt : (attemptProg lib py req gwId).Traced GwOp.Answers m.Allows Completes es := by
    refine traced_pure completes_error fun type _ => ?_
    cases type with
    | http => exact attemptProg_http hpy hreq hes
    | smtp => exact attemptProg_smtp hpy hreq hes
    | mobile => exact attemptProg_mobile hreq hes
  unfold execClientProg
  refine Traced.bind (hattempt.mono fun es r hr => ?_)
  cases r with
  | error e => exact completes_error _ _
  | ok u =>
    rw [hreq.sms]
    exact fun _ _ => hr u rfl

/-! ## The gateways of the sample configuration -/

/-- Texts as bytes, dictionaries in the order of their making. -/
def PyText.plain : PyText where
  str
    | .str s => .ok s
    | _ => .error .typeError
  add vs := if vs.all PyVal.isStr then .ok (vs.map PyVal.text).flatten else .error .typeError
  items := id
  items_perm d := .refl d

theorem PyText.plain_standard : PyText.plain.Standard where
  str_ascii _ _ := rfl
  add_ascii texts _ := by
    have hstr : (texts.map PyVal.str).all PyVal.isStr = true := by
      simp [PyVal.isStr]
    have htext : (texts.map PyVal.str).map PyVal.text = texts := by
      rw [List.map_map]
      exact (List.map_congr_left fun _ _ => rfl).trans (List.map_id texts)
    exact (if_pos hstr).trans (congrArg _ (congrArg _ htext))

/-- What the clients read of `server.conf`, with the login of its comments. -/
def serverConf : ConfFile where
  get _ option :=
    match [(lit "http-method", lit "POST"), (lit "http-gateway", lit "www.smsincargo.com.ar"),
      (lit "http-script", lit "/sms/proceso.php"), (lit "http-var-cel", lit "a"),
      (lit "http-var-msg", lit "mensaje"), (lit "http-var-provider", lit "empresa"),
      (lit "http-var-from", lit "de"), (lit "smtp-login-user", lit "user"),
      (lit "smtp-login-pass", lit "passwd"), (lit "smtp-gateway", lit "mail.agoramendoza.com.ar"),
      (lit "smtp-port", lit "25"), (lit "smtp-from", lit "sms@agoramendoza.com.ar"),
      (lit "smtp-provider", lit "cti,movistar"),
      (lit "smtp-provider-domain", lit "sms.ctimovil.com.ar,sms.movistar.net.ar")].lookup
        option with
    | some value => .ok value
    | none => .error (.other true)

theorem serverConf_usable : serverConf.Usable where
  vars cel sender provider msg hcel hsender hprovider hmsg := by
    cases hcel
    cases hsender
    cases hprovider
    cases hmsg
    decide
  sender addr h := by
    cases h
    decide
  domains domains h := by
    cases h
    decide

/-- Every library call completes. -/
def answering : Handler gwCalls.iface Unit := fun op s =>
  match op with
  | .openConf => (.ok serverConf, s)
  | .getresponse => (.ok (200 : Nat), s)
  | .httpConnection _ | .request .. | .read | .smtp .. | .login .. | .sendmail .. | .quit |
    .stateMachine | .sendSMS .. => (.ok (), s)

theorem answering_answers (op : GwOp) (s : Unit) : op.Answers (answering op s).1 := by
  cases op with
  | openConf => exact serverConf_usable
  | _ => trivial

/-! ## The loop over the gateways -/

section

variable {σ : Type} (lib : PyLib) (py : PyText) (req : JsonRequest) (h : Handler gwCalls.iface σ)

/-- The state after attempts of these gateways. -/
def afterAttempts (gws : List (List Byte)) (s : σ) : σ :=
  gws.foldl (fun s gwId => (exec (execClientProg lib py req gwId) h s).2) s

/-- What the gateways of the list meet when the loop runs from this state. -/
def gatewayOf (gws : List (List Byte)) (s : σ) (pos : ℕ) : GatewayEnv :=
  .ofRun lib py req h (afterAttempts lib py req h (gws.take (pos - 1)) s)

/-- These are the events of the attempt. -/
def EventsOf (a : Attempt) (es : List GwEvent) : Prop :=
  ∃ s, (exec (execClientProg lib py req a.gwId) h s).1 = a.result ∧
    trace (execClientProg lib py req a.gwId) h s = es

theorem EventsOf.hands {a : Attempt} {es : List GwEvent} (hpy : py.Standard)
    (hanswers : ∀ op s, GwOp.Answers op (h op s).1) (hreq : m.Of req)
    (hes : EventsOf lib py req h a es) :
    (∀ pre e post, es = pre ++ e :: post → m.Allows pre e.1) ∧
      (a.result = .ok () → HandedOver es) := by
  obtain ⟨s', hres, rfl⟩ := hes
  have hhands : (execClientProg lib py req a.gwId).Traced GwOp.Answers m.Allows Completes [] :=
    execClientProg_hands hpy hreq a.gwId nofun
  obtain ⟨hasked, hcompletes⟩ := hhands.exec hanswers s'
  exact ⟨hasked, fun hok => hcompletes () (hres.trans hok)⟩

theorem exec_serviceProg_from {gws : List (List Byte)} (before rest : List (List Byte))
    (hgws : gws = before ++ rest) (s : σ) :
    let loop := serviceLoop gws.length
      (fun pos gwId => execClient req gwId (gatewayOf lib py req h gws s pos)) before.length rest
    let prog := serviceProg lib py req gws.length before.length rest
    (exec prog h (afterAttempts lib py req h before s)).1 = loop.2 ∧
      ∃ segs, trace prog h (afterAttempts lib py req h before s) = segs.flatten ∧
        List.Forall₂ (EventsOf lib py req h) loop.1 segs := by
  induction rest generalizing before with
  | nil => exact ⟨rfl, [], rfl, .nil⟩
  | cons gwId rest ih =>
    have hgateway : gatewayOf lib py req h gws s (before.length + 1) =
        .ofRun lib py req h (afterAttempts lib py req h before s) := by
      rw [gatewayOf, Nat.add_sub_cancel, hgws, List.take_left]
    have hnext := ih (before ++ [gwId]) (by rw [hgws, List.append_assoc]; rfl)
    have hafter : afterAttempts lib py req h (before ++ [gwId]) s =
        (exec (execClientProg lib py req gwId) h (afterAttempts lib py req h before s)).2 := by
      rw [afterAttempts, List.foldl_append]
      rfl
    rw [hafter, List.length_append, List.length_singleton] at hnext
    have hresult := exec_execClient lib py req h (afterAttempts lib py req h before s) gwId
    rw [← hgateway] at hresult
    dsimp only at hnext ⊢
    unfold serviceProg serviceLoop
    rw [exec_tryCatch, trace_tryCatch, ← hresult]
    generalize hstate : afterAttempts lib py req h before s = s₀ at *
    have hevents : EventsOf lib py req h
        ⟨before.length + 1, gwId, (exec (execClientProg lib py req gwId) h s₀).1⟩
        (trace (execClientProg lib py req gwId) h s₀) := ⟨s₀, rfl, rfl⟩
    generalize trace (execClientProg lib py req gwId) h s₀ = es at hevents
    generalize exec (execClientProg lib py req gwId) h s₀ = run at *
    rcases run with ⟨e | u, s₁⟩
    · dsimp only at hevents hnext ⊢
      by_cases hexc : e.isException
      · by_cases hlast : before.length + 1 = gws.length
        · simp only [hexc, hlast, if_true]
          exact ⟨rfl, [es], by simp, .cons (hlast ▸ hevents) .nil⟩
        · simp only [hexc, hlast, if_true, if_false]
          obtain ⟨hres, segs, htrace, hall⟩ := hnext
          exact ⟨hres, es :: segs, by rw [htrace, List.flatten_cons], .cons hevents hall⟩
      · simp only [hexc, Bool.false_eq_true, if_false]
        exact ⟨rfl, [es], by simp, .cons hevents .nil⟩
    · exact ⟨rfl, [es], by simp, .cons hevents .nil⟩

/-- The loop comes to what the loop over the gateways comes to, and its events are those of the
attempts, one behind the other: each hands over at most this message, at most once, and has done so
if it completed. -/
theorem serviceProg_hands (hpy : py.Standard) (hanswers : ∀ op s, GwOp.Answers op (h op s).1)
    (hreq : m.Of req) (gws : List (List Byte)) (s : σ) :
    let loop := serviceLoop gws.length
      (fun pos gwId => execClient req gwId (gatewayOf lib py req h gws s pos)) 0 gws
    let prog := serviceProg lib py req gws.length 0 gws
    (exec prog h s).1 = loop.2 ∧ ∃ segs, trace prog h s = segs.flatten ∧
      List.Forall₂ (fun a es => (∀ pre e post, es = pre ++ e :: post → m.Allows pre e.1) ∧
        (a.result = .ok () → HandedOver es)) loop.1 segs := by
  obtain ⟨hresult, segs, htrace, hall⟩ := exec_serviceProg_from lib py req h [] gws rfl s
  exact ⟨hresult, segs, htrace, hall.imp fun a es hes => hes.hands lib py req h hpy hanswers hreq⟩

end

def sampleMessage : SmsMessage :=
  ⟨lit "2615175113", lit "cti", lit "** 77777 **", by decide, by decide, by decide, by decide⟩

def sampleRequest : JsonRequest :=
  ⟨1, .int 1, .int 1, .str (lit "cti"), .str (lit "2615175113"), .str (lit "** 77777 **")⟩

theorem serviceProg_hands_http :
    let gws := getGwPriority (lit "http,smtp,mobile")
    let loop := serviceLoop gws.length (fun pos gwId => execClient sampleRequest gwId
      (gatewayOf .strict .plain sampleRequest answering gws () pos)) 0 gws
    let prog := serviceProg .strict .plain sampleRequest gws.length 0 gws
    (exec prog answering ()).1 = loop.2 ∧ ∃ segs, trace prog answering () = segs.flatten ∧
      List.Forall₂ (fun a es => (∀ pre e post, es = pre ++ e :: post →
        sampleMessage.Allows pre e.1) ∧ (a.result = .ok () → HandedOver es)) loop.1 segs :=
  serviceProg_hands .strict .plain sampleRequest answering PyText.plain_standard answering_answers
    ⟨rfl, rfl, rfl⟩ _ ()

end PamSmsauth
