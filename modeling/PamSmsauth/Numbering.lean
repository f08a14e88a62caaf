import PamSmsauth.Response

/-!
# The numbers of the requests

`sms_send` counts its requests, and a response that is checked overwrites the counter with the id
that it carries. The server answers a request with the id it was sent, which the module had printed
as a signed number: the check gives the unsigned id back (`check_json2str`), so that the counter
stands where the request left it and a run of calls numbers its requests one after the other.
-/

namespace PamSmsauth

open CText JsonResponse

/-! ## The check of a response -/

theorem ofInt_wrap32 (id : UInt32) : UInt32.ofInt (wrap32 id.toNat) = id := by
  have hlt := id.toNat_lt
  have hmod : wrap32 id.toNat % 2 ^ 32 = id.toNat := by
    unfold wrap32
    omega
  rw [UInt32.ofInt, hmod, Int.toNat_natCast, UInt32.ofNat_toNat]

theorem RespFields.member_id (f : RespFields) (e : List Byte × JsonObject) :
    (f.member e).id = if lit "id" <+: e.1 then .ofInt (atoi e.2.toJsonString) else f.id := by
  have hkey := strncmp_eq_zero_iff_isPrefix (s := lit "id") (by decide) e.1
  have hlen : (lit "id").length = 2 := by decide
  rw [hlen] at hkey
  by_cases h : lit "id" <+: e.1
  · simp only [member, hkey.mpr h, if_pos h, if_true]
  · have hne : strncmp (lit "id") e.1 2 ≠ 0 := fun h' => h (hkey.mp h')
    simp only [member, if_neg hne, if_neg h]
    split_ifs <;> rfl

/-- After the loop the id is that of the last member for `id`. -/
theorem foldl_member_id (members : List (List Byte × JsonObject)) (f : RespFields) :
    (members.foldl RespFields.member f).id =
      match lastMember (lit "id") members with
      | some e => .ofInt (atoi e.2.toJsonString)
      | none => f.id := by
  induction members using List.reverseRecOn with
  | nil => rfl
  | append_singleton members e ih =>
    rw [List.foldl_append, List.foldl_cons, List.foldl_nil, RespFields.member_id, ih,
      lastMember_append_singleton]
    by_cases h : lit "id" <+: e.1
    · rw [if_pos h, if_pos h]
    · rw [if_neg h, if_neg h]

theorem checkPayload_eq {members : List (List Byte × JsonObject)} {e e' : List Byte × JsonObject}
    (hresult : lastMember (lit "result") members = some e)
    (hid : lastMember (lit "id") members = some e') (hne : atoi e.2.toJsonString ≠ -1)
    (id : UInt32) : checkPayload members id =
      (if atoi e.2.toJsonString = 1 then .recvOk else .recvErr,
        .ofInt (atoi e'.2.toJsonString)) := by
  have hfold := foldl_member_eq members ⟨-1, .none, id⟩
  have hfid := foldl_member_id members ⟨-1, .none, id⟩
  rw [hresult] at hfold
  rw [hid] at hfid
  obtain ⟨hret, hres⟩ := Prod.mk.inj hfold
  simp only [checkPayload, hret, hres, hfid, if_neg hne]

/-- The only member whose key begins with `s`, in any order of the members. -/
theorem lastMember_packet {packet entries : List (List Byte × Field)} (hperm : entries.Perm packet)
    {s : List Byte} {f : Field} (hmem : (s, f) ∈ packet)
    (honly : ∀ e ∈ packet, s <+: e.1 → e = (s, f)) :
    lastMember s (entries.map fun e => (e.1, e.2.object)) = some (s, f.object) := by
  apply lastMember_eq
  · exact List.mem_map.mpr ⟨(s, f), hperm.mem_iff.mpr hmem, rfl⟩
  · exact List.prefix_refl s
  · intro e' he' hs
    obtain ⟨e, he, rfl⟩ := List.mem_map.mp he'
    rw [honly e (hperm.mem_iff.mp he) hs]

theorem check_json2str (lf : List Byte → Option (List Byte)) (id : UInt32) (result : JsonResp)
    {text : List Byte} (h : (about (wrap32 id.toNat) result).Json2str text) (id₀ : UInt32) :
    jsonCheckSrvResp lf (readBuffer text) id₀ =
      some (if result = .ok then .recvOk else .recvErr, id) := by
  obtain ⟨entries, hperm, rfl⟩ := h
  have hint : InInt (wrap32 id.toNat) := wrap32_inInt _
  have hresult : lastMember (lit "result") (entries.map fun e => (e.1, e.2.object)) =
      some (lit "result", .int result.code) := by
    refine lastMember_packet hperm (f := .int result.code) (by simp [JsonResponse.of]) ?_
    simp only [JsonResponse.of, List.forall_mem_cons]
    exact ⟨fun h => absurd h (by decide), fun h => absurd h (by decide), fun _ => trivial,
      fun h => absurd h (by decide), by simp⟩
  have hid : lastMember (lit "id") (entries.map fun e => (e.1, e.2.object)) =
      some (lit "id", .int (wrap32 id.toNat)) := by
    refine lastMember_packet hperm (f := .int (wrap32 id.toNat)) (by simp [JsonResponse.of]) ?_
    simp only [JsonResponse.of, List.forall_mem_cons]
    exact ⟨fun h => absurd h (by decide), fun _ => trivial, fun h => absurd h (by decide),
      fun h => absurd h (by decide), by simp⟩
  have hcode : atoi (JsonObject.int result.code).toJsonString = result.code :=
    atoi_decimal (by cases result <;> decide)
  have hnumber : atoi (JsonObject.int (wrap32 id.toNat)).toJsonString = wrap32 id.toNat :=
    atoi_decimal hint
  rw [jsonCheckSrvResp, parse_json2str lf hint hperm]
  show some (checkPayload (entries.map fun e => (e.1, e.2.object)) id₀) = _
  rw [checkPayload_eq hresult hid (by rw [hcode]; cases result <;> decide), hcode, hnumber,
    ofInt_wrap32]
  cases result <;> rfl

/-! ## Runs of `sms_send` -/

/-- A way to print responses. -/
structure Printer where
  print : JsonResponse → List Byte
  prints : ∀ r : JsonResponse, r.Json2str (print r)

/-- The members in the order in which they were set. -/
def Printer.inOrder : Printer :=
  ⟨fun r => JsonResponse.printPacket r.packet, fun _ => ⟨_, .refl _, rfl⟩⟩

instance : Inhabited Printer := ⟨.inOrder⟩

/-- A call fails before there is a request, or the server answers its request. -/
inductive SmsEvent where
  | refused (f : SendFailure) (early : f = .sockcreate ∨ f = .conn2server ∨ f = .snprintf)
  | answered (result : JsonResp) (printer : Printer)

structure SmsCall where
  user : UserInfo
  otp : CString
  event : SmsEvent

/-- What the system calls do when the counter stands at `id`. -/
def SmsEvent.env (e : SmsEvent) (id : UInt32) : SendEnv :=
  match e with
  | .refused f _ => .fails f
  | .answered result printer =>
    .reads (some (printer.print (about (wrap32 (id + 1).toNat) result)))

/-- The calls of a process, one after the other. -/
def sendAll (lf : List Byte → Option (List Byte)) : UInt32 → List SmsCall → Option (List SmsSent)
  | _, [] => some []
  | id, c :: calls => do
    let s ← sendSms lf (c.event.env id) c.user c.otp.bytes id
    return s :: (← sendAll lf s.id calls)

def requests (sent : List SmsSent) : List JsonPacket := sent.filterMap SmsSent.request

/-- A call leaves the counter alone, or sends the next request and leaves it there. -/
theorem sendSms_counts (lf : List Byte → Option (List Byte)) (c : SmsCall) (id : UInt32) :
    ∃ s, sendSms lf (c.event.env id) c.user c.otp.bytes id = some s ∧
      (s.request = none ∧ s.id = id ∨
        ∃ p, s.request = some p ∧ p.id = id + 1 ∧ s.id = id + 1) := by
  obtain ⟨user, otp, event⟩ := c
  cases event with
  | refused f early =>
    rcases early with rfl | rfl | rfl
    · exact ⟨_, rfl, .inl ⟨rfl, rfl⟩⟩
    · exact ⟨_, rfl, .inl ⟨rfl, rfl⟩⟩
    · exact ⟨_, rfl, .inl ⟨rfl, rfl⟩⟩
  | answered result printer =>
    have hcheck := check_json2str lf (id + 1) result (printer.prints _) (id + 1)
    have hsend : sendSms lf ((SmsEvent.answered result printer).env id) user otp.bytes id =
        some ⟨if result = .ok then .ok else .gatewayErr, id + 1,
          some (smsRequest user otp.bytes (id + 1))⟩ := by
      simp only [sendSms, SmsEvent.env, wait4resp, hcheck, Option.map_some]
      cases result <;> rfl
    exact ⟨_, hsend, .inr ⟨_, rfl, rfl, rfl⟩⟩

/-- The ids of the requests are the numbers after the counter. -/
theorem sendAll_numbers (lf : List Byte → Option (List Byte)) (calls : List SmsCall) (id : UInt32) :
    ∃ sent, sendAll lf id calls = some sent ∧
      (requests sent).map JsonPacket.id =
        (List.range (requests sent).length).map fun k => id + 1 + UInt32.ofNat k := by
  induction calls generalizing id with
  | nil => exact ⟨[], rfl, rfl⟩
  | cons c calls ih =>
    obtain ⟨s, hs, hcount⟩ := sendSms_counts lf c id
    obtain ⟨sent, hall, hids⟩ := ih s.id
    refine ⟨s :: sent, by simp [sendAll, hs, hall], ?_⟩
    rcases hcount with ⟨hreq, hid⟩ | ⟨p, hreq, hp, hid⟩
    · have hsame : requests (s :: sent) = requests sent := by simp [requests, hreq]
      rw [hsame, hids, hid]
    · have hnext : requests (s :: sent) = p :: requests sent := by simp [requests, hreq]
      rw [hnext, List.map_cons, hids, hp, hid, List.length_cons, List.range_succ_eq_map,
        List.map_cons, List.map_map]
      congr 1
      · simp
      · apply List.map_congr_left
        intro k _
        show id + 1 + 1 + UInt32.ofNat k = id + 1 + UInt32.ofNat (k + 1)
        rw [UInt32.ofNat_add]
        ac_rfl

theorem response_round_trip_numbering (lf : List Byte → Option (List Byte)) :
    (∀ (id : UInt32) (result : JsonResp) (text : List Byte) (id₀ : UInt32),
      (about (wrap32 id.toNat) result).Json2str text →
      jsonCheckSrvResp lf (readBuffer text) id₀ =
        some (if result = .ok then .recvOk else .recvErr, id)) ∧
    ∀ (id : UInt32) (calls : List SmsCall), ∃ sent, sendAll lf id calls = some sent ∧
      (requests sent).map JsonPacket.id =
        (List.range (requests sent).length).map fun k => id + 1 + UInt32.ofNat k :=
  ⟨fun id result _ id₀ h => check_json2str lf id result h id₀,
    fun id calls => sendAll_numbers lf calls id⟩

/-- A call that cannot connect, and two that are answered. -/
def mixedCalls (user : UserInfo) (otp : CString) : List SmsCall :=
  [⟨user, otp, .refused .conn2server (.inr (.inl rfl))⟩, ⟨user, otp, .answered .ok .inOrder⟩,
    ⟨user, otp, .answered .err .inOrder⟩]

theorem response_round_trip_numbering_mixed : ∃ sent,
    sendAll (fun _ => none) 4294967295 (mixedCalls ⟨lit "Ann", lit "115550000", lit "claro"⟩
      (.ofLit "77777")) = some sent ∧
    (requests sent).map JsonPacket.id =
      (List.range (requests sent).length).map fun k => 4294967295 + 1 + UInt32.ofNat k :=
  (response_round_trip_numbering fun _ => none).2 4294967295 _

end PamSmsauth
