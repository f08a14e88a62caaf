import PamSmsauth.Budget
import PamSmsauth.JsonProto
import PamSmsauth.Proto

/-!
# From the module to the server

The server decodes what `json_req_2str` wrote. The text is JSON when the fields of the user record
are UTF-8, and the server finds in it what the module put in when no field has a backslash
(`request_round_trip_iff`): `json_escape_str` leaves backslashes alone, and the decoder takes one
for the beginning of an escape.
-/

namespace PamSmsauth

open CText Json

/-! ## The text of a request -/

theorem JsonPacket.object_eq (r : JsonPacket) (h : r.name = jsonPacketReqName) : r.object = .object
    [(jsonPacketReqName, .object [(lit "ver", .int r.req.ver), (lit "cmd", .int r.req.cmd),
      (lit "id", .int (wrap32 r.id.toNat)), (lit "provider", .newString r.req.provider),
      (lit "cel_number", .newString r.req.celNumber), (lit "sms", .newString r.req.sms)])] := by
  rw [JsonPacket.object, h]
  rfl

/-- A member up to its value. -/
def memberHead (key : List Byte) : List Byte := [32, 34] ++ jsonEscapeStr key ++ [34, 58, 32]

/-- The request up to the provider. -/
def requestHead (id : UInt32) : List Byte :=
  [123] ++ memberHead jsonPacketReqName ++ [123] ++
    memberHead (lit "ver") ++ decimal jsonPacketVer ++ [44] ++
    memberHead (lit "cmd") ++ decimal jsonCmdReq ++ [44] ++
    memberHead (lit "id") ++ decimal (wrap32 id.toNat) ++ [44] ++
    memberHead (lit "provider") ++ [34]

def requestCel : List Byte := [34, 44] ++ memberHead (lit "cel_number") ++ [34]

def requestSms : List Byte := [34, 44] ++ memberHead (lit "sms") ++ [34]

def requestTail : List Byte := [34, 32, 125, 32, 125]

/-- An object with six members under one key, the last three of them texts; the keys are arbitrary,
so that `simp` does not go into their characters. -/
theorem nested_text (k kv kc ki kp kn ks : List Byte) (v c i : Int) {p n s : JsonObject}
    {p' n' s' : List Byte} (hp : p.toJsonString = 34 :: (p' ++ [34]))
    (hn : n.toJsonString = 34 :: (n' ++ [34])) (hs : s.toJsonString = 34 :: (s' ++ [34])) :
    (JsonObject.object [(k, .object [(kv, .int v), (kc, .int c), (ki, .int i), (kp, p), (kn, n),
      (ks, s)])]).toJsonString =
      ([123] ++ memberHead k ++ [123] ++ memberHead kv ++ decimal v ++ [44] ++ memberHead kc ++
        decimal c ++ [44] ++ memberHead ki ++ decimal i ++ [44] ++ memberHead kp ++ [34]) ++
      (p' ++ (([34, 44] ++ memberHead kn ++ [34]) ++ (n' ++ (([34, 44] ++ memberHead ks ++ [34]) ++
        (s' ++ [34, 32, 125, 32, 125]))))) := by
  simp [JsonObject.toJsonString, JsonObject.entriesToJsonString, memberHead, hp, hn, hs]

/-- The fields with what stands between them. -/
theorem smsRequest_text {user : UserInfo} (huser : user.Sendable) {otp : List Byte}
    (hotp : (0 : Byte) ∉ smsText otp) (id : UInt32) :
    (smsRequest user otp id).object.toJsonString =
      requestHead id ++ (user.provider.flatMap jsonEscapeChar ++ (requestCel ++
        (user.celNumber.flatMap jsonEscapeChar ++ (requestSms ++
          ((smsText otp).flatMap jsonEscapeChar ++ requestTail))))) := by
  have hobj := JsonPacket.object_eq (smsRequest user otp id) rfl
  rw [hobj]
  apply nested_text
  · exact toJsonString_newString huser.provider_nul
  · exact toJsonString_newString huser.cel_nul
  · exact toJsonString_newString hotp

/-! ## Its characters -/

theorem isAlnum_plain {b : Byte} (h : (isalpha b || isdigit b) = true) :
    32 ≤ b ∧ b ≤ 126 ∧ b ≠ 34 ∧ b ≠ 92 := by
  have key : ∀ n < 256, (isalpha n.toUInt8 || isdigit n.toUInt8) = true →
      32 ≤ n.toUInt8 ∧ n.toUInt8 ≤ 126 ∧ n.toUInt8 ≠ 34 ∧ n.toUInt8 ≠ 92 := by decide +kernel
  exact byte_cases (P := fun b => (isalpha b || isdigit b) = true →
    32 ≤ b ∧ b ≤ 126 ∧ b ≠ 34 ∧ b ≠ 92) key b h

/-- The message with a generated password. -/
theorem smsText_plain (len : Nat) (type : OtpType) (words : Nat → UInt64) :
    Plain (smsText (otpText len type words).bytes) := by
  intro b hb
  have hstars : Plain (lit "** ") ∧ Plain (lit " **") := by decide
  rcases List.mem_append.mp (List.mem_of_mem_take hb) with hb | hb
  · rcases List.mem_append.mp hb with hb | hb
    · exact hstars.1 b hb
    · exact isAlnum_plain (otpBytes_isAlnum len type words b hb)
  · exact hstars.2 b hb

theorem Plain.flatMap_jsonEscapeChar {s : List Byte} (h : Plain s) :
    s.flatMap jsonEscapeChar = s := by
  have hchar : ∀ b ∈ s, jsonEscapeChar b = [b] := by
    intro b hb
    obtain ⟨hlo, -, h34, -⟩ := h b hb
    exact jsonEscapeChar_of_printable h34 (UInt8.not_lt.mpr hlo)
  rw [List.flatMap_congr hchar, List.flatMap_singleton']

/-- What stands between the fields is ASCII, costs no more than the keys are worth, and is short. -/
theorem request_pieces :
    (∀ b ∈ requestCel, b < 0x80) ∧ (∀ b ∈ requestSms, b < 0x80) ∧ (∀ b ∈ requestTail, b < 0x80) ∧
    requestCel.length = 18 ∧ requestSms.length = 11 ∧ requestTail.length = 5 ∧
    costs requestCel = worths (lit "cel_number") ∧ costs requestSms = 0 ∧
    costs requestTail = 0 := by
  decide +kernel

/-- The head is the same for every request but for the number. -/
theorem requestHead_pieces :
    ∃ pre post : List Byte, (∀ id, requestHead id = pre ++ (decimal (wrap32 id.toNat) ++ post)) ∧
      (∀ b ∈ pre, b < 0x80) ∧ (∀ b ∈ post, b < 0x80) ∧ pre.length + post.length = 60 ∧
      costs pre + costs post = worths jsonPacketReqName := by
  refine ⟨[123] ++ memberHead jsonPacketReqName ++ [123] ++
      memberHead (lit "ver") ++ decimal jsonPacketVer ++ [44] ++
      memberHead (lit "cmd") ++ decimal jsonCmdReq ++ [44] ++ memberHead (lit "id"),
    [44] ++ memberHead (lit "provider") ++ [34], ?_, ?_⟩
  · intro id
    simp only [requestHead, List.append_assoc]
  · decide +kernel

theorem requestHead_ascii (id : UInt32) : ∀ b ∈ requestHead id, b < 0x80 := by
  obtain ⟨pre, post, hhead, hpre, hpost, -⟩ := requestHead_pieces
  intro b hb
  rw [hhead] at hb
  rcases List.mem_append.mp hb with hb | hb
  · exact hpre b hb
  · rcases List.mem_append.mp hb with hb | hb
    · exact decimal_ascii _ b hb
    · exact hpost b hb

theorem smsText_nulFree (otp : CString) : (0 : Byte) ∉ smsText otp.bytes := by
  have hstars : (0 : Byte) ∉ lit "** " ∧ (0 : Byte) ∉ lit " **" := by decide
  intro h
  rcases List.mem_append.mp (List.mem_of_mem_take h) with h | h
  · rcases List.mem_append.mp h with h | h
    · exact hstars.1 h
    · exact otp.nulFree h
  · exact hstars.2 h

/-- The length of a request whose fields are all escapes of six characters, the number having
eleven. -/
def escapedLength (user : UserInfo) (otp : List Byte) : Nat :=
  105 + 6 * (user.provider.length + user.celNumber.length + (smsText otp).length)

/-- The fields of a record are short. -/
theorem escapedLength_le {user : UserInfo} (huser : user.Sendable) (otp : List Byte) :
    escapedLength user otp ≤ 1024 := by
  have hprovider := huser.provider_length
  have hnumber := huser.cel_length
  have htext : (smsText otp).length ≤ 23 := List.length_take_le _ _
  unfold escapedLength
  omega

section Length

variable {user : UserInfo} (huser : user.Sendable) (otp : CString) (id : UInt32)

include huser

theorem length_request_le :
    (smsRequest user otp.bytes id).object.toJsonString.length ≤ escapedLength user otp.bytes := by
  obtain ⟨-, -, -, hcel, hsms, htail, -⟩ := request_pieces
  obtain ⟨pre, post, hhead, -, -, hlen, -⟩ := requestHead_pieces
  have hid : (decimal (wrap32 id.toNat)).length ≤ 11 := length_decimal_le (wrap32_inInt _)
  have hprovider := length_flatMap_jsonEscapeChar_le user.provider
  have hnumber := length_flatMap_jsonEscapeChar_le user.celNumber
  have htext := length_flatMap_jsonEscapeChar_le (smsText otp.bytes)
  rw [smsRequest_text huser (smsText_nulFree otp)]
  simp only [hhead, List.length_append, hcel, hsms, htail, escapedLength]
  omega

/-- The buffer holds the whole text. -/
theorem jsonReq2str_eq : (jsonReq2str (smsRequest user otp.bytes id)).2 =
    (smsRequest user otp.bytes id).object.toJsonString := by
  have hle := (length_request_le huser otp id).trans (escapedLength_le huser otp.bytes)
  apply List.take_of_length_le
  unfold jsonPacketMaxsize
  omega

end Length

variable {user : UserInfo} (huser : user.Sendable) (len : Nat) (type : OtpType)
  (words : Nat → UInt64) (id : UInt32)

include huser

theorem jsonReq2str_text :
    (jsonReq2str (smsRequest user (otpText len type words).bytes id)).2 =
      requestHead id ++ (user.provider.flatMap jsonEscapeChar ++ (requestCel ++
        (user.celNumber.flatMap jsonEscapeChar ++ (requestSms ++
          (smsText (otpText len type words).bytes ++ requestTail))))) := by
  have hplain := smsText_plain len type words
  rw [jsonReq2str_eq huser, smsRequest_text huser hplain.nulFree, hplain.flatMap_jsonEscapeChar]

/-- The text is UTF-8 if and only if the fields of the record are. -/
theorem valid_jsonReq2str :
    Utf8.valid (jsonReq2str (smsRequest user (otpText len type words).bytes id)).2 =
      (Utf8.valid user.provider && Utf8.valid user.celNumber) := by
  obtain ⟨hcel, hsms, htail, -⟩ := request_pieces
  have hrest : ∀ b ∈ requestSms ++ (smsText (otpText len type words).bytes ++ requestTail),
      b < 0x80 := by
    intro b hb
    rcases List.mem_append.mp hb with hb | hb
    · exact hsms b hb
    · rcases List.mem_append.mp hb with hb | hb
      · exact (smsText_plain len type words).ascii b hb
      · exact htail b hb
  have hhead : ∀ text, Utf8.valid (requestHead id ++ text) = Utf8.valid text := by
    intro text
    have hne : requestHead id ≠ [] := by simp [requestHead]
    rw [← List.nil_append (requestHead id ++ text),
      Utf8.valid_append_ascii hne (requestHead_ascii id)]
    rfl
  have hend : ∀ text, Utf8.valid (text ++ (requestSms ++
      (smsText (otpText len type words).bytes ++ requestTail))) = Utf8.valid text := by
    intro text
    have hne : requestSms ++ (smsText (otpText len type words).bytes ++ requestTail) ≠ [] := by
      simp [requestSms]
    rw [← List.append_nil (requestSms ++ _), Utf8.valid_append_ascii hne hrest]
    exact Bool.and_true _
  rw [jsonReq2str_text huser, hhead, Utf8.valid_append_ascii (by simp [requestCel]) hcel, hend,
    valid_flatMap_jsonEscapeChar, valid_flatMap_jsonEscapeChar]

theorem costs_jsonReq2str :
    costs (jsonReq2str (smsRequest user (otpText len type words).bytes id)).2 =
      worths jsonPacketReqName + costs (user.provider.flatMap jsonEscapeChar) +
        worths (lit "cel_number") + costs (user.celNumber.flatMap jsonEscapeChar) +
        worths (smsText (otpText len type words).bytes) := by
  have hplain := smsText_plain len type words
  have h92 := List.count_eq_zero.mpr hplain.not_mem_backslash
  obtain ⟨-, -, -, -, -, -, hcel, hsms, htail⟩ := request_pieces
  obtain ⟨pre, post, hhead, -, -, -, hcosts⟩ := requestHead_pieces
  have hworth := worths_eq (smsText (otpText len type words).bytes)
  rw [hplain.flatMap_jsonEscapeChar, h92] at hworth
  rw [jsonReq2str_text huser, hhead]
  simp only [costs_append, costs_decimal, hcel, hsms, htail]
  omega

omit huser

/-! ## What is sent and what is received -/

/-- The packet as the server has to find it. -/
def JsonPacket.received (r : JsonPacket) : JsonRequest where
  id := wrap32 r.id.toNat
  ver := .int r.req.ver
  cmd := .int r.req.cmd
  provider := .str r.req.provider
  cel := .str r.req.celNumber
  sms := .str r.req.sms

/-- The text of a packet is JSON, and any decoder of JSON makes the packet of it. -/
structure RoundTrips (r : JsonPacket) : Prop where
  valid : ∃ v, decode (jsonReq2str r).2 = some v
  recovered : ∀ lib : PyLib, lib.Standard →
    JsonRequest.str2json lib (jsonReq2str r).2 = .ok r.received

/-- The value that the text denotes. -/
def JsonPacket.value (r : JsonPacket) : Value :=
  .obj [(jsonPacketReqName, .obj [(lit "ver", .int r.req.ver), (lit "cmd", .int r.req.cmd),
    (lit "id", .int (wrap32 r.id.toNat)), (lit "provider", .str r.req.provider),
    (lit "cel_number", .str r.req.celNumber), (lit "sms", .str r.req.sms)])]

/-- The server finds in the value what the packet holds. -/
theorem saveData_value (lib : PyLib) (floatInt : List Byte → Option Int) (r : JsonPacket) :
    JsonRequest.saveData lib (.ofJson floatInt r.value) = .ok r.received := by
  let members := [(lit "ver", PyVal.int r.req.ver), (lit "cmd", .int r.req.cmd),
    (lit "id", .int (wrap32 r.id.toNat)), (lit "provider", .str r.req.provider),
    (lit "cel_number", .str r.req.celNumber), (lit "sms", .str r.req.sms)]
  have houter : (PyVal.ofJson floatInt r.value).getitem jsonPacketName = .ok (.dict members) := by
    apply PyVal.getitem_of_mem
    · exact List.mem_singleton.mpr rfl
    · exact List.nodup_singleton _
  have hinner : ∀ {key v}, (key, v) ∈ members → (PyVal.dict members).getitem key = .ok v := by
    intro key v h
    have hkeys : [lit "ver", lit "cmd", lit "id", lit "provider", lit "cel_number",
        lit "sms"].Nodup := by decide
    exact PyVal.getitem_of_mem h hkeys
  have hid : (PyVal.dict members).getitem (lit "id") = .ok (.int (wrap32 r.id.toNat)) :=
    hinner (by simp [members])
  have hver : (PyVal.dict members).getitem (lit "ver") = .ok (.int r.req.ver) :=
    hinner (by simp [members])
  have hcmd : (PyVal.dict members).getitem (lit "cmd") = .ok (.int r.req.cmd) :=
    hinner (by simp [members])
  have hprovider : (PyVal.dict members).getitem (lit "provider") = .ok (.str r.req.provider) :=
    hinner (by simp [members])
  have hcel : (PyVal.dict members).getitem (lit "cel_number") = .ok (.str r.req.celNumber) :=
    hinner (by simp [members])
  have hsms : (PyVal.dict members).getitem (lit "sms") = .ok (.str r.req.sms) :=
    hinner (by simp [members])
  have hok : ∀ {α β : Type} (a : α) (f : α → Except Exc β), (Except.ok a >>= f) = f a :=
    fun _ _ => rfl
  simp only [JsonRequest.saveData, houter, hok, hid, hver, hcmd, hprovider, hcel, hsms]
  rfl

/-- Without backslashes the text of a packet denotes the value of the packet. -/
theorem decodes_packet {r : JsonPacket} (hname : r.name = jsonPacketReqName)
    (hprovider : (0 : Byte) ∉ r.req.provider ∧ (92 : Byte) ∉ r.req.provider)
    (hcel : (0 : Byte) ∉ r.req.celNumber ∧ (92 : Byte) ∉ r.req.celNumber)
    (hsms : (0 : Byte) ∉ r.req.sms ∧ (92 : Byte) ∉ r.req.sms) :
    Decodes r.object.toJsonString r.value := by
  have hkey : ∀ key ∈ [jsonPacketReqName, lit "ver", lit "cmd", lit "id", lit "provider",
      lit "cel_number", lit "sms"], Spells (jsonEscapeStr key) key := by
    have hplain : ∀ key ∈ [jsonPacketReqName, lit "ver", lit "cmd", lit "id", lit "provider",
        lit "cel_number", lit "sms"], (0 : Byte) ∉ key ∧ (92 : Byte) ∉ key := by decide
    intro key h
    exact spells_jsonEscapeStr (hplain key h).1 (hplain key h).2
  rw [JsonPacket.object_eq r hname]
  have hpayload := decodes_object (readsAs_int (hkey (lit "ver") (by simp)) r.req.ver)
    (.cons (readsAs_int (hkey (lit "cmd") (by simp)) r.req.cmd)
      (.cons (readsAs_int (hkey (lit "id") (by simp)) (wrap32 r.id.toNat))
        (.cons (readsAs_newString (hkey (lit "provider") (by simp)) hprovider.1 hprovider.2)
          (.cons (readsAs_newString (hkey (lit "cel_number") (by simp)) hcel.1 hcel.2)
            (.cons (readsAs_newString (hkey (lit "sms") (by simp)) hsms.1 hsms.2) .nil)))))
  exact decodes_object ⟨hkey jsonPacketReqName (by simp), hpayload⟩ .nil

/-- The fields that are sent are UTF-8 without backslashes. -/
structure UserInfo.Clean (user : UserInfo) : Prop where
  provider : (92 : Byte) ∉ user.provider
  cel : (92 : Byte) ∉ user.celNumber
  provider_utf8 : Utf8.valid user.provider = true
  cel_utf8 : Utf8.valid user.celNumber = true

include huser

theorem roundTrips_of_clean (h : user.Clean) :
    RoundTrips (smsRequest user (otpText len type words).bytes id) := by
  have hplain := smsText_plain len type words
  have htext := jsonReq2str_eq huser (otpText len type words) id
  have hutf8 := valid_jsonReq2str huser len type words id
  rw [h.provider_utf8, h.cel_utf8, htext, Bool.and_self] at hutf8
  have hdecode := (decodes_packet (r := smsRequest user (otpText len type words).bytes id) rfl
    ⟨huser.provider_nul, h.provider⟩ ⟨huser.cel_nul, h.cel⟩
    ⟨hplain.nulFree, hplain.not_mem_backslash⟩).decode hutf8
  rw [← htext] at hdecode
  refine ⟨⟨_, hdecode⟩, ?_⟩
  intro lib hlib
  rw [JsonRequest.str2json_of_loads (hlib _ _ hdecode)]
  exact saveData_value lib lib.floatInt _

/-- A text that denotes what the record holds denotes no backslash. -/
theorem clean_of_members {members payload : List (List Byte × Value)}
    (hdecode : decode (jsonReq2str (smsRequest user (otpText len type words).bytes id)).2 =
      some (.obj members))
    (hmem : (jsonPacketName, .obj payload) ∈ members)
    (hprovider : (lit "provider", .str user.provider) ∈ payload)
    (hcel : (lit "cel_number", .str user.celNumber) ∈ payload)
    (hsms : (lit "sms", .str (smsText (otpText len type words).bytes)) ∈ payload) :
    (92 : Byte) ∉ user.provider ∧ (92 : Byte) ∉ user.celNumber := by
  have hle : membersWorth members ≤ _ := decode_worth hdecode
  rw [costs_jsonReq2str huser] at hle
  have houter : worths jsonPacketName + membersWorth payload + 0 ≤ membersWorth members := by
    refine memberWorth_sum_le (List.nodup_singleton (jsonPacketName, .obj payload)) ?_
    intro m hm
    rw [List.mem_singleton.mp hm]
    exact hmem
  have hinner : worths (lit "provider") + worths user.provider +
      (worths (lit "cel_number") + worths user.celNumber +
        (worths (lit "sms") + worths (smsText (otpText len type words).bytes) + 0)) ≤
      membersWorth payload := by
    have hkeys : ([(lit "provider", .str user.provider), (lit "cel_number", .str user.celNumber),
        (lit "sms", .str (smsText (otpText len type words).bytes))] :
          List (List Byte × Value)).Nodup := by
      apply List.Nodup.of_map Prod.fst
      show [lit "provider", lit "cel_number", lit "sms"].Nodup
      decide
    refine memberWorth_sum_le hkeys ?_
    intro m hm
    simp only [List.mem_cons, List.not_mem_nil, or_false] at hm
    rcases hm with rfl | rfl | rfl
    · exact hprovider
    · exact hcel
    · exact hsms
  have hname : jsonPacketName = jsonPacketReqName := rfl
  rw [hname] at houter
  -- the text pays for every character of the two fields but for their backslashes
  have hp := worths_eq user.provider
  have hc := worths_eq user.celNumber
  constructor
  · apply List.count_eq_zero.mp
    omega
  · apply List.count_eq_zero.mp
    omega

theorem clean_of_roundTrips (h : RoundTrips (smsRequest user (otpText len type words).bytes id)) :
    user.Clean := by
  obtain ⟨v, hdecode⟩ := h.valid
  have hrecovered := h.recovered .strict PyLib.strict_standard
  rw [JsonRequest.str2json_of_loads (PyLib.strict_standard _ _ hdecode)] at hrecovered
  obtain ⟨members, payload, rfl, hmem, hprovider, hcel, hsms⟩ :=
    members_of_saveData hrecovered rfl rfl rfl
  have hvalid := valid_of_decode hdecode
  rw [valid_jsonReq2str huser, Bool.and_eq_true] at hvalid
  have hclean := clean_of_members huser len type words id hdecode hmem hprovider hcel hsms
  exact ⟨hclean.1, hclean.2, hvalid.1, hvalid.2⟩

omit huser

/-- The server recovers the request of a record if and only if its fields are UTF-8 without
backslashes. -/
theorem request_round_trip_iff {gecos : CString} (h : userSetInfo gecos = .ok user) :
    RoundTrips (smsRequest user (otpText len type words).bytes id) ↔ user.Clean := by
  have huser := userSetInfo_sendable h
  constructor
  · intro hround
    exact clean_of_roundTrips huser len type words id hround
  · intro hclean
    exact roundTrips_of_clean huser len type words id hclean

theorem request_round_trip_iff_quoted :
    RoundTrips (smsRequest ⟨lit "Ann", lit "542611234567", lit "cla\"ro"⟩
      (otpText 5 .num fun _ => 7).bytes 1) := by
  have hscan : userSetInfo ⟨lit "[Ann;54;2611234567;cla\"ro;", by decide⟩ =
      .ok ⟨lit "Ann", lit "542611234567", lit "cla\"ro"⟩ := by decide
  exact (request_round_trip_iff 5 .num (fun _ => 7) 1 hscan).mpr
    ⟨by decide, by decide, by decide, by decide⟩

/-- The provider `cla\ro` is sent as it is, and the server reads a carriage return in it. -/
theorem request_round_trip_fails : ¬ ∀ (gecos : CString) (user : UserInfo),
    userSetInfo gecos = .ok user → ∀ (len : Nat) (type : OtpType) (words : Nat → UInt64)
      (id : UInt32), RoundTrips (smsRequest user (otpText len type words).bytes id) := by
  intro h
  have hscan : userSetInfo ⟨lit "[Ann;54;2611234567;cla\\ro;", by decide⟩ =
      .ok ⟨lit "Ann", lit "542611234567", lit "cla\\ro"⟩ := by decide
  have hround := h _ _ hscan 5 .num (fun _ => 7) 1
  have hclean := clean_of_roundTrips (userSetInfo_sendable hscan) 5 .num (fun _ => 7) 1 hround
  exact absurd hclean.provider (by decide)

end PamSmsauth
