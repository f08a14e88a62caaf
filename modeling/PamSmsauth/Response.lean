import PamSmsauth.JsonProto
import PamSmsauth.Parse

/-!
# What a response can do to the module

`checkParsed` decides on what the parser returned. It gets to the end of the response when there is
nothing to look at, when the first member is not for the module, or when it has members itself and
there is no error marker to follow (`JsonParsed.Walkable`), and it takes a response for an
acknowledgement by the beginnings of two keys and the number that a text begins with (`TakenForOk`).
-/

namespace PamSmsauth

open CText

variable {lf : List Byte → Option (List Byte)}

theorem strncmp_eq_zero_iff_isPrefix {s : List Byte} (h : (0 : Byte) ∉ s) (key : List Byte) :
    strncmp s key s.length = 0 ↔ s <+: key := by
  rw [strncmp_eq_zero_iff, cstr_of_nulFree h, List.take_length]
  constructor
  · intro heq
    rw [heq]
    exact (List.take_prefix _ _).trans (List.takeWhile_prefix _)
  · rintro ⟨rest, rfl⟩
    have hall : ∀ b ∈ s, (decide (b ≠ 0)) = true := by
      intro b hb
      simp only [ne_eq, decide_not, Bool.not_eq_true', decide_eq_false_iff_not]
      rintro rfl
      exact h hb
    rw [cstr, List.takeWhile_append_of_pos hall]
    simp

/-! ## Every text has an answer -/

/-- The loops of `json_check_srv_resp` find members where they look for them, and what is put has no
marker in it. -/
def JsonParsed.Walkable : JsonParsed → Prop
  | .value .null => True
  | .value (.object ((key, val) :: _)) =>
    jsonPacketReqName <+: key → ∃ members, val = .object members
  | .marred (.marredObject ((key, _) :: _)) => ¬ jsonPacketReqName <+: key
  | _ => False

theorem getObject_eq_some_iff {v : JsonObject} {members : List (List Byte × JsonObject)} :
    v.getObject = some members ↔ v = .object members := by
  cases v <;> simp [JsonObject.getObject]

theorem checkParsed_isSome_iff (parsed : JsonParsed) (id : UInt32) :
    (checkParsed parsed id).isSome ↔ parsed.Walkable := by
  have hprefix := strncmp_eq_zero_iff_isPrefix (s := jsonPacketReqName) (by decide)
  cases parsed with
  | overrun | followed | error ptr => simp [checkParsed, JsonParsed.Walkable]
  | value v =>
    cases v with
    | object entries =>
      cases entries with
      | nil => simp [checkParsed, JsonParsed.Walkable, JsonObject.getObject]
      | cons e entries =>
        obtain ⟨key, val⟩ := e
        simp only [checkParsed, JsonParsed.Walkable, JsonObject.getObject, hprefix]
        by_cases hkey : jsonPacketReqName <+: key
        · simp only [hkey, if_true, Option.isSome_map, true_implies, Option.isSome_iff_exists]
          exact exists_congr fun members => getObject_eq_some_iff
        · simp [hkey]
    | _ => simp [checkParsed, JsonParsed.Walkable, JsonObject.getObject]
  | marred ptr =>
    cases ptr with
    | marredObject entries =>
      cases entries with
      | nil => simp [checkParsed, JsonParsed.Walkable]
      | cons e entries =>
        obtain ⟨key, val⟩ := e
        simp only [checkParsed, JsonParsed.Walkable, hprefix]
        by_cases hkey : jsonPacketReqName <+: key <;> simp [hkey]
    | _ => simp [checkParsed, JsonParsed.Walkable]

/-- The check of a response ends with a code, with the one for texts that do not parse where the
text does not, and every code but one makes `wait4resp` report the gateway. -/
structure Answered (lf : List Byte → Option (List Byte)) (bytes : List Byte) (id : UInt32)
    (r : JsonResult × UInt32) : Prop where
  ends : jsonCheckSrvResp lf (readBuffer bytes) id = some r
  parseErr : ∀ e, jsonTokenerParse lf (readBuffer bytes) = .error e → r.1 = .parseErr
  gateway : r.1 ≠ .recvOk → wait4resp lf (some bytes) id = some (.gatewayErr, r.2)

theorem response_answered_iff (lf : List Byte → Option (List Byte)) (bytes : List Byte)
    (id : UInt32) : (∃ r, Answered lf bytes id r) ↔
      (jsonTokenerParse lf (readBuffer bytes)).Walkable := by
  rw [← checkParsed_isSome_iff _ id]
  constructor
  · rintro ⟨r, hr⟩
    exact Option.isSome_iff_exists.mpr ⟨r, hr.ends⟩
  · intro h
    obtain ⟨r, hr⟩ := Option.isSome_iff_exists.mp h
    refine ⟨r, hr, ?_, ?_⟩
    · intro e he
      rw [he] at hr
      cases hr
    · intro hne
      simp only [wait4resp, jsonCheckSrvResp, hr, Option.map_some, if_pos hne]

/-- A member without a value is accepted, and nobody looks at it. -/
example : jsonCheckSrvResp some (lit "\x7b'x': \x7d" ++ [0]) 5 = some (.keyNotfound, 5) := by rfl

/-- The server closed the connection. -/
theorem response_answered_fails : ¬ ∀ (lf : List Byte → Option (List Byte)) (bytes : List Byte)
    (id : UInt32), bytes.length ≤ 4095 → ∃ r, Answered lf bytes id r := by
  intro h
  obtain ⟨r, hr⟩ := h (fun _ => none) [] 1 (by simp)
  have hparse : jsonTokenerParse (fun _ => none) (readBuffer []) =
      .error (errorPtr JsonTokenerError.parseEof.num) := jsonTokenerParse_of_steps .refl rfl
  have hends := hr.ends
  rw [jsonCheckSrvResp, hparse] at hends
  cases hends

/-! ## What the module takes for an acknowledgement -/

/-- The last member whose key begins with `s`. -/
def lastMember (s : List Byte) (members : List (List Byte × JsonObject)) :
    Option (List Byte × JsonObject) :=
  members.reverse.find? fun e => s <+: e.1

theorem lastMember_append_singleton (s : List Byte) (members : List (List Byte × JsonObject))
    (e : List Byte × JsonObject) :
    lastMember s (members ++ [e]) = if s <+: e.1 then some e else lastMember s members := by
  by_cases h : s <+: e.1 <;> simp [lastMember, h]

/-- The only one is the last. -/
theorem lastMember_eq {s : List Byte} {members : List (List Byte × JsonObject)}
    {e : List Byte × JsonObject} (he : e ∈ members) (hs : s <+: e.1)
    (honly : ∀ e' ∈ members, s <+: e'.1 → e' = e) : lastMember s members = some e := by
  cases hlast : lastMember s members with
  | none =>
    have hno := List.find?_eq_none.mp hlast e (by simpa using he)
    simp [hs] at hno
  | some e' =>
    have hmem : e' ∈ members := by simpa using List.mem_of_find?_eq_some hlast
    rw [honly e' hmem (by simpa using List.find?_some hlast)]

/-- The first member has a key that begins with `pam_smsauth`, and what it has for `result` reads as
1. -/
def TakenForOk (v : JsonObject) : Prop :=
  ∃ key members rest e, v = .object ((key, .object members) :: rest) ∧
    jsonPacketReqName <+: key ∧ lastMember (lit "result") members = some e ∧
    atoi e.2.toJsonString = 1

/-- The response says that the request with this id was served. -/
def Acknowledges (v : JsonObject) (id : UInt32) : Prop :=
  ∃ members payload i, v = .object members ∧ (lit "pam_smsauth", .object payload) ∈ members ∧
    (lit "result", .int 1) ∈ payload ∧ (lit "id", .int i) ∈ payload ∧ UInt32.ofInt i = id

theorem RespFields.member_eq (f : RespFields) (e : List Byte × JsonObject) :
    ((f.member e).ret, (f.member e).result) =
      if lit "result" <+: e.1 then
        (atoi e.2.toJsonString, if atoi e.2.toJsonString = 1 then .recvOk else .recvErr)
      else (f.ret, f.result) := by
  have hkey := strncmp_eq_zero_iff_isPrefix (s := lit "result") (by decide) e.1
  have hlen : (lit "result").length = 6 := by decide
  rw [hlen] at hkey
  by_cases h : lit "result" <+: e.1
  · simp only [member, hkey.mpr h, if_pos h, if_true]
    split_ifs <;> rfl
  · have hne : strncmp (lit "result") e.1 6 ≠ 0 := fun h' => h (hkey.mp h')
    simp only [member, if_neg hne, if_neg h]
    split_ifs <;> rfl

/-- After the loop `ret` and `result` are those of the last member for `result`. -/
theorem foldl_member_eq (members : List (List Byte × JsonObject)) (f : RespFields) :
    ((members.foldl RespFields.member f).ret, (members.foldl RespFields.member f).result) =
      match lastMember (lit "result") members with
      | some e => (atoi e.2.toJsonString, if atoi e.2.toJsonString = 1 then .recvOk else .recvErr)
      | none => (f.ret, f.result) := by
  induction members using List.reverseRecOn with
  | nil => rfl
  | append_singleton members e ih =>
    rw [List.foldl_append, List.foldl_cons, List.foldl_nil, RespFields.member_eq, ih,
      lastMember_append_singleton]
    by_cases h : lit "result" <+: e.1
    · rw [if_pos h, if_pos h]
    · rw [if_neg h, if_neg h]

theorem checkPayload_eq_ok_iff (members : List (List Byte × JsonObject)) (id : UInt32) :
    (checkPayload members id).1 = .recvOk ↔
      ∃ e, lastMember (lit "result") members = some e ∧ atoi e.2.toJsonString = 1 := by
  have hfold := foldl_member_eq members ⟨-1, .none, id⟩
  cases hlast : lastMember (lit "result") members with
  | none =>
    rw [hlast] at hfold
    obtain ⟨hret, -⟩ := Prod.mk.inj hfold
    simp [checkPayload, hret]
  | some e =>
    rw [hlast] at hfold
    obtain ⟨hret, hresult⟩ := Prod.mk.inj hfold
    simp only [checkPayload, hret, hresult, Option.some.injEq, exists_eq_left']
    by_cases h : atoi e.2.toJsonString = 1
    · simp [h]
    · split_ifs <;> simp [h]

theorem checkParsed_ok_iff (v : JsonObject) (id : UInt32) :
    (∃ id', checkParsed (.value v) id = some (.recvOk, id')) ↔ TakenForOk v := by
  constructor
  · rintro ⟨id', h⟩
    cases v with
    | object entries =>
      cases entries with
      | nil => cases h
      | cons e entries =>
        obtain ⟨key, val⟩ := e
        simp only [checkParsed, JsonObject.getObject,
          strncmp_eq_zero_iff_isPrefix (s := jsonPacketReqName) (by decide)] at h
        split_ifs at h with hkey
        · obtain ⟨members, hval, hpayload⟩ := Option.map_eq_some_iff.mp h
          rw [getObject_eq_some_iff.mp hval]
          have hok : (checkPayload members id).1 = .recvOk := by rw [hpayload]
          obtain ⟨e, hlast, hone⟩ := (checkPayload_eq_ok_iff members id).mp hok
          exact ⟨key, members, entries, e, rfl, hkey, hlast, hone⟩
        · cases h
    | _ => cases h
  · rintro ⟨key, members, rest, e, rfl, hkey, hlast, hone⟩
    have hok := (checkPayload_eq_ok_iff members id).mpr ⟨e, hlast, hone⟩
    refine ⟨(checkPayload members id).2, ?_⟩
    simp only [checkParsed, JsonObject.getObject,
      strncmp_eq_zero_iff_isPrefix (s := jsonPacketReqName) (by decide), hkey, if_true,
      Option.map_some, ← hok]

theorem sendSms_ok_iff {bytes : List Byte} {v : JsonObject}
    (h : jsonTokenerParse lf (readBuffer bytes) = .value v) (user : UserInfo) (otp : List Byte)
    (id : UInt32) : (∃ s, sendSms lf (.reads (some bytes)) user otp id = some s ∧ s.result = .ok) ↔
      TakenForOk v := by
  rw [← checkParsed_ok_iff v (id + 1)]
  simp only [sendSms, wait4resp, jsonCheckSrvResp, h, Option.map_map, Option.map_eq_some_iff]
  constructor
  · rintro ⟨s, ⟨⟨result, id'⟩, hcheck, rfl⟩, hok⟩
    refine ⟨id', ?_⟩
    rw [hcheck]
    cases result <;> first | rfl | cases hok
  · rintro ⟨id', hcheck⟩
    exact ⟨_, ⟨_, hcheck, rfl⟩, rfl⟩

/-! ## Responses of the server -/

/-- What the server sends about the request with this id. -/
abbrev JsonResponse.about (id : Int) (result : JsonResp) : JsonResponse := .of id result result.msg

theorem length_response_lt {id : Int} (hid : InInt id) {result : JsonResp}
    {entries : List (List Byte × Field)}
    (hperm : entries.Perm (JsonResponse.about id result).packet) :
    (JsonResponse.printPacket entries).length < jsonPacketMaxsize := by
  have hle := JsonResponse.length_printPacket_le entries
  rw [(hperm.map _).sum_eq] at hle
  have hkeys : (dumpsStr (lit "cmd")).length = 5 ∧ (dumpsStr (lit "id")).length = 4 ∧
      (dumpsStr (lit "result")).length = 8 ∧ (dumpsStr (lit "msg")).length = 5 := by decide
  have hmsg : (dumpsStr result.msg).length ≤ 13 := by cases result <;> decide
  have hcmd := length_decimal_le (z := jsonCmdResp) (by decide)
  have hresult := length_decimal_le (z := result.code) (by cases result <;> decide)
  have hid := length_decimal_le hid
  simp only [JsonResponse.of, List.map_cons, List.map_nil, List.sum_cons, List.sum_nil, Field.dumps,
    hkeys] at hle
  unfold jsonPacketMaxsize
  omega

/-- The module reads a response of the server as what was set in it, in the order of the text. -/
theorem parse_json2str (lf : List Byte → Option (List Byte)) {id : Int} (hid : InInt id)
    {result : JsonResp} {entries : List (List Byte × Field)}
    (hperm : entries.Perm (JsonResponse.about id result).packet) :
    jsonTokenerParse lf (readBuffer (JsonResponse.printPacket entries)) =
      .value (packetObject entries) := by
  obtain ⟨rest, hbuffer⟩ := readBuffer_eq (length_response_lt hid hperm)
  have hplain : ∀ e ∈ (JsonResponse.about id result).packet, Plain e.1 := by
    simp only [JsonResponse.of, List.forall_mem_cons]
    decide
  have hread : ∀ e ∈ (JsonResponse.about id result).packet, e.2.Readable := by
    simp only [JsonResponse.of, List.forall_mem_cons, Field.Readable]
    refine ⟨by decide, hid, ?_, ?_, by simp⟩ <;> cases result <;> decide
  rw [hbuffer]
  apply parse_response
  · rintro rfl
    simpa [JsonResponse.of] using hperm.length_eq
  · exact fun e he => hplain e (hperm.mem_iff.mp he)
  · exact fun e he => hread e (hperm.mem_iff.mp he)
  · rw [(hperm.map _).nodup_iff]
    simp only [JsonResponse.of, List.map_cons, List.map_nil]
    decide

theorem ok_acknowledges_iff {lf : List Byte → Option (List Byte)} {bytes : List Byte}
    {v : JsonObject} (h : jsonTokenerParse lf (readBuffer bytes) = .value v) (user : UserInfo)
    (otp : List Byte) (id : UInt32) :
    ((∃ s, sendSms lf (.reads (some bytes)) user otp id = some s ∧ s.result = .ok) →
      Acknowledges v (id + 1)) ↔ (TakenForOk v → Acknowledges v (id + 1)) := by
  rw [sendSms_ok_iff h]

theorem ok_acknowledges_iff_served :
    ((∃ s, sendSms (fun _ => none)
        (.reads (some (JsonResponse.printPacket (JsonResponse.about 5 .ok).packet)))
        ⟨[], [], []⟩ [] 4 = some s ∧ s.result = .ok) →
      Acknowledges (packetObject (JsonResponse.about 5 .ok).packet) 5) ↔
    (TakenForOk (packetObject (JsonResponse.about 5 .ok).packet) →
      Acknowledges (packetObject (JsonResponse.about 5 .ok).packet) 5) := by
  have hid : InInt 5 := by decide
  have hperm : (JsonResponse.about 5 .ok).packet.Perm (JsonResponse.about 5 .ok).packet := .refl _
  exact ok_acknowledges_iff (parse_json2str (fun _ => none) hid hperm) ⟨[], [], []⟩ [] 4

/-- The response to request 4 is taken for one to request 5. -/
theorem ok_acknowledges_fails : ¬ ∀ (lf : List Byte → Option (List Byte)) (bytes : List Byte)
    (v : JsonObject) (user : UserInfo) (otp : List Byte) (id : UInt32),
    jsonTokenerParse lf (readBuffer bytes) = .value v →
    (∃ s, sendSms lf (.reads (some bytes)) user otp id = some s ∧ s.result = .ok) →
    Acknowledges v (id + 1) := by
  intro h
  have hid : InInt 4 := by decide
  have hperm : (JsonResponse.about 4 .ok).packet.Perm (JsonResponse.about 4 .ok).packet := .refl _
  have hparse := parse_json2str (fun _ => none) hid hperm
  have hok := (sendSms_ok_iff hparse ⟨[], [], []⟩ [] 4).mpr
    ⟨_, _, _, _, rfl, by decide, rfl, by decide⟩
  obtain ⟨members, payload, i, hv, hmem, -, hmemid, hi⟩ := h _ _ _ _ _ _ hparse hok
  cases hv
  obtain ⟨-, hpayload⟩ : lit "pam_smsauth" = jsonPacketName ∧ payload =
      (JsonResponse.about 4 .ok).packet.map fun e => (e.1, e.2.object) := by simpa using hmem
  rw [hpayload] at hmemid
  obtain ⟨e, he, hpair⟩ := List.mem_map.mp hmemid
  obtain ⟨hkey, hval⟩ := Prod.mk.inj hpair
  have hfour : ∀ e ∈ (JsonResponse.about 4 .ok).packet, e.1 = lit "id" → e.2 = .int 4 := by decide
  rw [hfour e he hkey] at hval
  cases hval
  revert hi
  decide

end PamSmsauth
