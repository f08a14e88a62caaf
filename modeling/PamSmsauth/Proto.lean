import PamSmsauth.Lib.Json

/-!
# The packets at the server (`proto.py`, `client.py`)

`JsonRequest.str2json` decodes a request and reads its members one after the other; whatever is
missing or of the wrong kind raises the exception that Python raises there. `JsonResponse` is one
dictionary that is kept for the life of the server: its setters overwrite single members.

Texts are UTF-8 bytes. The decoder `loads` of `simplejson` and what `int` makes of a text or of a
float are parameters (`PyLib`), which raise neither an exception of the server's own nor one of
`socket`; a float is known by what `int` makes of it.
-/

namespace PamSmsauth

open CText

/-- The exceptions that the server tells apart; `other` is any other class, derived from `Exception`
or not. -/
inductive Exc where
  | clientError | httpClientError (status : Nat) | gwConfError | socketError
  | keyError | typeError | valueError | attributeError
  | other (derived : Bool)
  deriving DecidableEq

/-- `except Exception` takes it. -/
def Exc.isException : Exc → Bool
  | .other derived => derived
  | _ => true

inductive PyVal where
  | none
  | bool (b : Bool)
  | int (i : Int)
  | float (int : Option Int)
  | str (s : List Byte)
  | list (elems : List PyVal)
  | dict (entries : List (List Byte × PyVal))

def PyVal.isStr : PyVal → Bool
  | .str _ => true
  | _ => false

/-- Neither of the two classes that `deliver_sms` handles. -/
def Exc.Foreign (e : Exc) : Prop := e ≠ .clientError ∧ e ≠ .socketError

instance (e : Exc) : Decidable e.Foreign := inferInstanceAs (Decidable (_ ∧ _))

structure PyLib where
  loads : List Byte → Except Exc PyVal
  intOfStr : List Byte → Except Exc Int
  /-- `int` of the float that a JSON number denotes. -/
  floatInt : List Byte → Option Int
  loads_foreign : ∀ text e, loads text = .error e → e.Foreign
  intOfStr_foreign : ∀ text e, intOfStr text = .error e → e.Foreign

/-- `int(v)`. -/
def PyLib.int (lib : PyLib) : PyVal → Except Exc Int
  | .none | .list _ | .dict _ => .error .typeError
  | .bool b => .ok (if b then 1 else 0)
  | .int i => .ok i
  | .float (some i) => .ok i
  | .float .none => .error (.other true)
  | .str s => lib.intOfStr s

/-- `v[key]` for a text; of equal keys a dictionary keeps the last. -/
def PyVal.getitem (v : PyVal) (key : List Byte) : Except Exc PyVal :=
  match v with
  | .dict entries =>
    match entries.reverse.find? (·.1 = key) with
    | some entry => .ok entry.2
    | .none => .error .keyError
  | _ => .error .typeError

mutual

/-- The object that `loads` builds for a JSON value. -/
def PyVal.ofJson (floatInt : List Byte → Option Int) : Json.Value → PyVal
  | .null => .none
  | .bool b => .bool b
  | .int i => .int i
  | .real text => .float (floatInt text)
  | .str s => .str s
  | .arr elems => .list (ofElems floatInt elems)
  | .obj members => .dict (ofMembers floatInt members)

def PyVal.ofElems (floatInt : List Byte → Option Int) : List Json.Value → List PyVal
  | [] => []
  | v :: elems => ofJson floatInt v :: ofElems floatInt elems

def PyVal.ofMembers (floatInt : List Byte → Option Int) :
    List (List Byte × Json.Value) → List (List Byte × PyVal)
  | [] => []
  | (key, v) :: members => (key, ofJson floatInt v) :: ofMembers floatInt members

end

/-- `loads` decodes JSON. -/
def PyLib.Standard (lib : PyLib) : Prop :=
  ∀ text v, Json.decode text = some v → lib.loads text = .ok (.ofJson lib.floatInt v)

/-- A library that takes JSON and nothing else, and runs of digits for numbers. -/
def PyLib.strict : PyLib where
  loads text :=
    match Json.decode text with
    | some v => .ok (.ofJson (fun _ => .none) v)
    | .none => .error .valueError
  intOfStr s := if s ≠ [] ∧ s.all isdigit then .ok (digitsVal s) else .error .valueError
  floatInt _ := .none
  loads_foreign text e h := by
    split at h
    · cases h
    · cases h
      decide
  intOfStr_foreign s e h := by
    split_ifs at h
    cases h
    decide

theorem PyLib.strict_standard : PyLib.strict.Standard := by
  intro text v h
  simp only [strict, h]

def jsonPacketName : List Byte := lit "pam_smsauth"

/-! ## Requests -/

structure JsonRequest where
  id : Int
  ver : PyVal
  cmd : PyVal
  provider : PyVal
  cel : PyVal
  sms : PyVal

def JsonRequest.saveData (lib : PyLib) (packet : PyVal) : Except Exc JsonRequest := do
  let id ← lib.int (← (← packet.getitem jsonPacketName).getitem (lit "id"))
  let ver ← (← packet.getitem jsonPacketName).getitem (lit "ver")
  let cmd ← (← packet.getitem jsonPacketName).getitem (lit "cmd")
  let provider ← (← packet.getitem jsonPacketName).getitem (lit "provider")
  let cel ← (← packet.getitem jsonPacketName).getitem (lit "cel_number")
  let sms ← (← packet.getitem jsonPacketName).getitem (lit "sms")
  return { id, ver, cmd, provider, cel, sms }

def JsonRequest.str2json (lib : PyLib) (data : List Byte) : Except Exc JsonRequest := do
  JsonRequest.saveData lib (← lib.loads data)

/-- What the computation raises, `deliver_sms` does not handle. -/
def OnlyForeign {α : Type} (x : Except Exc α) : Prop := ∀ e, x = .error e → e.Foreign

theorem OnlyForeign.bind {α β : Type} {x : Except Exc α} {f : α → Except Exc β}
    (hx : OnlyForeign x) (hf : ∀ a, OnlyForeign (f a)) : OnlyForeign (x >>= f) := by
  intro e h
  cases x with
  | error e' => cases h; exact hx e rfl
  | ok a => exact hf a e h

theorem PyLib.int_foreign (lib : PyLib) (v : PyVal) : OnlyForeign (lib.int v) := by
  intro e h
  cases v with
  | str s => exact lib.intOfStr_foreign s e h
  | float i => cases i <;> cases h; decide
  | none => cases h; decide
  | list elems => cases h; decide
  | dict entries => cases h; decide
  | bool b => cases h
  | int i => cases h

theorem PyVal.getitem_foreign (v : PyVal) (key : List Byte) : OnlyForeign (v.getitem key) := by
  intro e h
  unfold getitem at h
  split at h
  · split at h <;> cases h
    decide
  · cases h
    decide

theorem JsonRequest.saveData_foreign (lib : PyLib) (packet : PyVal) :
    OnlyForeign (JsonRequest.saveData lib packet) := by
  have hmember : ∀ {α : Type} {key : List Byte} {f : PyVal → Except Exc α},
      (∀ v, OnlyForeign (f v)) →
      OnlyForeign (packet.getitem jsonPacketName >>= fun v => v.getitem key >>= f) :=
    fun hf => (packet.getitem_foreign _).bind fun v => (v.getitem_foreign _).bind hf
  refine hmember fun v => (lib.int_foreign v).bind fun id => ?_
  refine hmember fun ver => hmember fun cmd => hmember fun provider => hmember fun cel =>
    hmember fun sms => ?_
  intro e h
  cases h

/-- A request that does not decode raises something that `deliver_sms` does not handle. -/
theorem JsonRequest.str2json_foreign (lib : PyLib) (data : List Byte) :
    OnlyForeign (JsonRequest.str2json lib data) :=
  OnlyForeign.bind (lib.loads_foreign data) (saveData_foreign lib)

/-! ## What the members of a request are -/

theorem JsonRequest.str2json_of_loads {lib : PyLib} {data : List Byte} {packet : PyVal}
    (h : lib.loads data = .ok packet) :
    JsonRequest.str2json lib data = JsonRequest.saveData lib packet := by
  rw [JsonRequest.str2json, h]
  rfl

theorem PyVal.getitem_of_mem {entries : List (List Byte × PyVal)} {key : List Byte} {v : PyVal}
    (h : (key, v) ∈ entries) (hnodup : (entries.map Prod.fst).Nodup) :
    (PyVal.dict entries).getitem key = .ok v := by
  have hfind : entries.reverse.find? (·.1 = key) = some (key, v) := by
    cases hfind : entries.reverse.find? (·.1 = key) with
    | none =>
      have hne := List.find?_eq_none.mp hfind (key, v) (List.mem_reverse.mpr h)
      simp at hne
    | some entry =>
      have hkey : entry.1 = key := by simpa using List.find?_some hfind
      have hmem := List.mem_reverse.mp (List.mem_of_find?_eq_some hfind)
      rw [List.inj_on_of_nodup_map hnodup hmem h hkey]
  simp only [getitem, hfind]

theorem eq_str_of_ofJson {floatInt : List Byte → Option Int} {j : Json.Value} {s : List Byte}
    (h : PyVal.ofJson floatInt j = .str s) : j = .str s := by
  cases j <;> simp_all [PyVal.ofJson]

theorem mem_of_mem_ofMembers {floatInt : List Byte → Option Int}
    {members : List (List Byte × Json.Value)} {key : List Byte} {v : PyVal}
    (h : (key, v) ∈ PyVal.ofMembers floatInt members) :
    ∃ j, (key, j) ∈ members ∧ PyVal.ofJson floatInt j = v := by
  induction members with
  | nil => cases h
  | cons m members ih =>
    obtain ⟨key', j⟩ := m
    rw [PyVal.ofMembers] at h
    rcases List.mem_cons.mp h with h | h
    · obtain ⟨rfl, rfl⟩ := Prod.mk.inj h
      exact ⟨j, by simp, rfl⟩
    · obtain ⟨j', hmem, hv⟩ := ih h
      exact ⟨j', List.mem_cons_of_mem _ hmem, hv⟩

/-- What is found in an object is one of its members. -/
theorem mem_of_getitem {floatInt : List Byte → Option Int} {j : Json.Value} {key : List Byte}
    {v : PyVal}
    (h : (PyVal.ofJson floatInt j).getitem key = .ok v) :
    ∃ members j', j = .obj members ∧ (key, j') ∈ members ∧ PyVal.ofJson floatInt j' = v := by
  cases j with
  | obj members =>
    rw [PyVal.ofJson, PyVal.getitem] at h
    cases hfind : (PyVal.ofMembers floatInt members).reverse.find? (·.1 = key) with
    | none => simp [hfind] at h
    | some entry =>
      simp only [hfind, Except.ok.injEq] at h
      have hkey : entry.1 = key := by simpa using List.find?_some hfind
      have hmem := List.mem_reverse.mp (List.mem_of_find?_eq_some hfind)
      have hentry : (key, v) = entry := by rw [← hkey, ← h]
      rw [← hentry] at hmem
      obtain ⟨j', hmem', hj'⟩ := mem_of_mem_ofMembers hmem
      exact ⟨members, j', rfl, hmem', hj'⟩
  | _ => simp [PyVal.ofJson, PyVal.getitem] at h

theorem bind_eq_ok {α β : Type} {x : Except Exc α} {f : α → Except Exc β} {b : β} :
    (x >>= f) = .ok b ↔ ∃ a, x = .ok a ∧ f a = .ok b := by
  cases x with
  | error e => simp [bind, Except.bind]
  | ok a => simp [bind, Except.bind]

theorem mem_of_getitem_str {floatInt : List Byte → Option Int}
    {members : List (List Byte × Json.Value)} {key s : List Byte}
    (h : (PyVal.ofJson floatInt (.obj members)).getitem key = .ok (.str s)) :
    (key, .str s) ∈ members := by
  obtain ⟨members', j, hobj, hmem, hj⟩ := mem_of_getitem h
  obtain rfl : members = members' := by injection hobj
  rw [eq_str_of_ofJson hj] at hmem
  exact hmem

/-- The texts of a request are members of the object that was decoded. -/
theorem members_of_saveData {lib : PyLib} {floatInt : List Byte → Option Int} {j : Json.Value}
    {req : JsonRequest} (h : JsonRequest.saveData lib (.ofJson floatInt j) = .ok req)
    {p c m : List Byte} (hp : req.provider = .str p) (hc : req.cel = .str c)
    (hm : req.sms = .str m) :
    ∃ members payload, j = .obj members ∧ (jsonPacketName, .obj payload) ∈ members ∧
      (lit "provider", .str p) ∈ payload ∧ (lit "cel_number", .str c) ∈ payload ∧
      (lit "sms", .str m) ∈ payload := by
  simp only [JsonRequest.saveData, bind_eq_ok] at h
  obtain ⟨packet, hpacket, _, -, _, -, packet₁, h₁, _, -, packet₂, h₂, _, -, packet₃, h₃, provider,
    hprovider, packet₄, h₄, cel, hcel, packet₅, h₅, sms, hsms, heq⟩ := h
  obtain rfl : packet₃ = packet := Except.ok.inj (h₃.symm.trans hpacket)
  obtain rfl : packet₄ = packet₃ := Except.ok.inj (h₄.symm.trans hpacket)
  obtain rfl : packet₅ = packet₄ := Except.ok.inj (h₅.symm.trans hpacket)
  obtain ⟨rfl, rfl, rfl⟩ : provider = .str p ∧ cel = .str c ∧ sms = .str m := by
    cases heq
    exact ⟨hp, hc, hm⟩
  obtain ⟨members, j', rfl, hmem, hpayload⟩ := mem_of_getitem hpacket
  rw [← hpayload] at hprovider hcel hsms
  obtain ⟨payload, -, rfl, -⟩ := mem_of_getitem hprovider
  exact ⟨members, payload, rfl, hmem, mem_of_getitem_str hprovider, mem_of_getitem_str hcel,
    mem_of_getitem_str hsms⟩

/-! ## Responses -/

/-- The values a response holds. -/
inductive Field where
  | int (i : Int)
  | text (s : List Byte)
  deriving DecidableEq

/-- `JSON_RESP`. -/
inductive JsonResp where
  | ok | err
  deriving DecidableEq

def JsonResp.code : JsonResp → Int
  | .ok => 1
  | .err => 2

/-- The message that `deliver_sms` sends with it. -/
def JsonResp.msg : JsonResp → List Byte
  | .ok => lit "Send ok."
  | .err => lit "Send error."

def jsonCmdResp : Int := 2

/-- `d[key] = value`. -/
def dictSet (key : List Byte) (value : Field) :
    List (List Byte × Field) → List (List Byte × Field)
  | [] => [(key, value)]
  | (k, v) :: rest => if k = key then (key, value) :: rest else (k, v) :: dictSet key value rest

/-- The dictionary under `pam_smsauth`. -/
structure JsonResponse where
  packet : List (List Byte × Field)
  deriving DecidableEq

/-- What `simplejson.dumps` prints for a character of an ASCII text. -/
def dumpsChar (c : Byte) : List Byte :=
  if c = 34 ∨ c = 92 then [92, c]
  else if c = 8 then [92, 98]
  else if c = 9 then [92, 116]
  else if c = 10 then [92, 110]
  else if c = 12 then [92, 102]
  else if c = 13 then [92, 114]
  else if 32 ≤ c ∧ c ≤ 126 then [c]
  else lit "\\u00" ++ [(lit "0123456789abcdef").getD (c.toNat / 16) 0,
    (lit "0123456789abcdef").getD (c.toNat % 16) 0]

def dumpsStr (s : List Byte) : List Byte := 34 :: s.flatMap dumpsChar ++ [34]

/-- Printable text that needs no escape. -/
def Plain (s : List Byte) : Prop := ∀ b ∈ s, 32 ≤ b ∧ b ≤ 126 ∧ b ≠ 34 ∧ b ≠ 92

instance (s : List Byte) : Decidable (Plain s) :=
  List.decidableBAll (fun b => 32 ≤ b ∧ b ≤ 126 ∧ b ≠ 34 ∧ b ≠ 92) s

theorem Plain.nulFree {s : List Byte} (h : Plain s) : (0 : Byte) ∉ s := by
  intro h0
  exact absurd (h 0 h0).1 (by decide)

theorem Plain.cstr {s : List Byte} (h : Plain s) : cstr s = s := by
  exact cstr_of_nulFree h.nulFree

theorem Plain.not_mem_backslash {s : List Byte} (h : Plain s) : (92 : Byte) ∉ s := by
  intro h92
  exact (h 92 h92).2.2.2 rfl

theorem Plain.ascii {s : List Byte} (h : Plain s) : ∀ b ∈ s, b < 0x80 := by
  intro b hb
  exact UInt8.lt_of_le_of_lt (h b hb).2.1 (by decide)

theorem dumpsStr_plain {s : List Byte} (h : Plain s) : dumpsStr s = 34 :: s ++ [34] := by
  have hchar : ∀ b ∈ s, dumpsChar b = [b] := by
    intro b hb
    obtain ⟨hlo, hhi, h34, h92⟩ := h b hb
    have hctl : b ≠ 8 ∧ b ≠ 9 ∧ b ≠ 10 ∧ b ≠ 12 ∧ b ≠ 13 := by
      refine ⟨?_, ?_, ?_, ?_, ?_⟩ <;> rintro rfl <;> revert hlo <;> decide
    simp [dumpsChar, hlo, hhi, h34, h92, hctl]
  rw [dumpsStr, List.flatMap_congr hchar, List.flatMap_singleton']

def Field.dumps : Field → List Byte
  | .int i => decimal i
  | .text s => dumpsStr s

/-- Members, each with the text of its value. -/
def dumpsEntries : List (List Byte × List Byte) → List Byte
  | [] => []
  | [(key, value)] => dumpsStr key ++ lit ": " ++ value
  | (key, value) :: entries =>
    dumpsStr key ++ lit ": " ++ value ++ lit ", " ++ dumpsEntries entries

def dumpsDict (entries : List (List Byte × List Byte)) : List Byte :=
  123 :: dumpsEntries entries ++ [125]

namespace JsonResponse

def setCmd (r : JsonResponse) (cmd : Int) : JsonResponse :=
  ⟨dictSet (lit "cmd") (.int cmd) r.packet⟩

def setId (r : JsonResponse) (id : Int) : JsonResponse := ⟨dictSet (lit "id") (.int id) r.packet⟩

def setResult (r : JsonResponse) (result : JsonResp) : JsonResponse :=
  ⟨dictSet (lit "result") (.int result.code) r.packet⟩

def setMsg (r : JsonResponse) (msg : List Byte) : JsonResponse :=
  ⟨dictSet (lit "msg") (.text msg) r.packet⟩

/-- `JsonResponse()`; the assignment to `set_ver` that follows it in the server stores no member. -/
def init : JsonResponse := setCmd ⟨[]⟩ jsonCmdResp

/-- A response with its members in this order. -/
def printPacket (entries : List (List Byte × Field)) : List Byte :=
  dumpsDict [(jsonPacketName, dumpsDict (entries.map fun e => (e.1, e.2.dumps)))]

theorem length_dumpsEntries_le (entries : List (List Byte × List Byte)) :
    (dumpsEntries entries).length ≤
      (entries.map fun e => (dumpsStr e.1).length + e.2.length + 4).sum := by
  induction entries using dumpsEntries.induct with
  | case1 => rfl
  | case2 key value =>
    have hsep : (lit ": ").length = 2 := by decide
    simp [dumpsEntries, hsep]
    omega
  | case3 key value entries hne ih =>
    have hsep : (lit ": ").length = 2 ∧ (lit ", ").length = 2 := by decide
    simp only [dumpsEntries, List.length_append, hsep, List.map_cons, List.sum_cons]
    omega

/-- The order of the members does not change the length by more than the separators. -/
theorem length_printPacket_le (entries : List (List Byte × Field)) :
    (printPacket entries).length ≤
      (entries.map fun e => (dumpsStr e.1).length + e.2.dumps.length + 4).sum + 21 := by
  have hname : (dumpsStr jsonPacketName).length = 13 := by decide
  have hinner := length_dumpsEntries_le (entries.map fun e => (e.1, e.2.dumps))
  have houter := length_dumpsEntries_le
    [(jsonPacketName, dumpsDict (entries.map fun e => (e.1, e.2.dumps)))]
  rw [List.map_map] at hinner
  simp only [List.map_cons, List.map_nil, List.sum_cons, List.sum_nil, hname, dumpsDict,
    List.length_append, List.length_cons, List.length_nil, Function.comp_def] at hinner houter
  simp only [printPacket, dumpsDict, List.length_append, List.length_cons, List.length_nil]
  omega

/-- A text that `json2str` can return: a dictionary is printed in any order. -/
def Json2str (r : JsonResponse) (text : List Byte) : Prop :=
  ∃ entries : List (List Byte × Field), entries.Perm r.packet ∧ text = printPacket entries

/-- What a response says: these four members and no others. -/
def of (id : Int) (result : JsonResp) (msg : List Byte) : JsonResponse :=
  ⟨[(lit "cmd", .int jsonCmdResp), (lit "id", .int id), (lit "result", .int result.code),
    (lit "msg", .text msg)]⟩

/-- Nothing of what was set before is left. -/
theorem set_init (id : Int) (result : JsonResp) (msg : List Byte) :
    ((init.setId id).setResult result).setMsg msg = of id result msg := rfl

theorem set_of (id : Int) (result : JsonResp) (msg : List Byte) (id' : Int) (result' : JsonResp)
    (msg' : List Byte) :
    (((of id' result' msg').setId id).setResult result).setMsg msg = of id result msg := rfl

end JsonResponse

end PamSmsauth
