import PamSmsauth.JsonHeap
import PamSmsauth.Response

/-!
# Who releases the objects of a packet (`json_proto.c`)

Both `json_req_2str` and `json_check_srv_resp` end with a put of the payload and a put of the object
around it. The payload's only reference belongs to that object by then, so that the code holds one
reference and puts two: the payload is put once more when its count is 0, whatever the packet
(`faults_jsonReq2str`). Putting the outer object alone would release everything
(`released_put_obj`).

The objects are released exactly once only where there is none (`released_once_iff`).
-/

namespace PamSmsauth

open CText RefCount

/-! ## `json_req_2str` -/

/-- The fields of the payload with what their objects store. -/
def JsonPacket.fields (r : JsonPacket) : List (List Byte × JsonNode) :=
  [(lit "ver", .int r.req.ver), (lit "cmd", .int r.req.cmd), (lit "id", .int (wrap32 r.id.toNat)),
    (lit "provider", .string (cstr r.req.provider)),
    (lit "cel_number", .string (cstr r.req.celNumber)), (lit "sms", .string (cstr r.req.sms))]

/-- `json_object_object_add(this, key, json_object_new_...(...))` for one field after the other;
`ok i` says whether there is memory for the `i`-th object of the call. -/
def JsonHeap.addFields (ok : Nat → Bool) (this : Nat) :
    Nat → List (List Byte × JsonNode) → JsonHeap → JsonHeap
  | _, [], h => h
  | i, (key, node) :: fields, h =>
    addFields ok this (i + 1) fields ((h.new (ok i) node).2.objectAdd this key
      (h.new (ok i) node).1)

/-- The variables of `json_req_2str`. -/
structure JsonReqVars where
  obj : Nat
  payload : Nat
  heap : JsonHeap

/-- `json_req_2str` before it frees anything; the heap alone when it returns early. -/
def jsonReqBuild (ok : Nat → Bool) (r : JsonPacket) : Except JsonHeap JsonReqVars :=
  match JsonHeap.empty.new (ok 0) (.object []) with
  -- return -1
  | (none, h) => .error h
  | (some obj, h) =>
    match h.new (ok 1) (.object []) with
    -- return -2
    | (none, h) => .error h
    | (some payload, h) =>
      .ok ⟨obj, payload, (h.addFields ok payload 2 r.fields).objectAdd obj r.name (some payload)⟩

/-- The heap that `json_req_2str` leaves. -/
def jsonReq2strHeap (ok : Nat → Bool) (r : JsonPacket) : JsonHeap :=
  match jsonReqBuild ok r with
  | .error h => h
  | .ok v => (v.heap.put (some v.payload)).put (some v.obj)

/-! ### What is built -/

/-- The member of a field. -/
def fieldMember (f : List Byte × JsonNode) : List Byte × JsonObject :=
  (cstr f.1, f.2.leaf.getD .null)

/-- Each field has its entry, with a pointer to an object behind `this` that stores it. -/
def Filled (nodes : List JsonNode) (this : Nat) (entries : List (List Byte × Option Nat))
    (fields : List (List Byte × JsonNode)) : Prop :=
  List.Forall₂ (fun e f => e.1 = cstr f.1 ∧ ∃ a, this < a ∧ e.2 = some a ∧ nodes[a]? = some f.2)
    entries fields

theorem Filled.mono {nodes nodes' : List JsonNode} {this : Nat}
    {entries : List (List Byte × Option Nat)} {fields : List (List Byte × JsonNode)}
    (hf : Filled nodes this entries fields) (h : ∀ a, this < a → nodes'[a]? = nodes[a]?) :
    Filled nodes' this entries fields := by
  refine List.Forall₂.imp ?_ hf
  rintro e f ⟨hkey, a, hlt, hptr, hget⟩
  exact ⟨hkey, a, hlt, hptr, by rw [h a hlt, hget]⟩

theorem Filled.holdsEntries {nodes : List JsonNode} {this : Nat}
    {entries : List (List Byte × Option Nat)} {fields : List (List Byte × JsonNode)}
    (hf : Filled nodes this entries fields) (hleaf : ∀ f ∈ fields, f.2.leaf.isSome = true) :
    HoldsEntries nodes entries (fields.map fieldMember) := by
  induction hf with
  | nil => exact .nil
  | @cons e f entries fields hef hrest ih =>
    obtain ⟨key, p⟩ := e
    obtain ⟨hkey, a, -, hptr, hget⟩ := hef
    obtain ⟨v, hv⟩ := Option.isSome_iff_exists.mp (hleaf f List.mem_cons_self)
    have hmember : fieldMember f = (key, v) := by
      rw [fieldMember, hv, ← hkey]
      rfl
    have hp : p = some a := hptr
    rw [List.map_cons, hmember, hp]
    exact .cons (.leaf hget hv) (ih fun f hf => hleaf f (List.mem_cons_of_mem _ hf))

theorem JsonPacket.fields_nodup (r : JsonPacket) : (r.fields.map fun f => cstr f.1).Nodup := by
  have hkeys : r.fields.map (fun f => cstr f.1) = [lit "ver", lit "cmd", lit "id", lit "provider",
      lit "cel_number", lit "sms"] := rfl
  rw [hkeys]
  decide

theorem JsonPacket.fields_leaf (r : JsonPacket) : ∀ f ∈ r.fields, f.2.leaf.isSome = true := by
  simp [JsonPacket.fields, JsonNode.leaf]

theorem JsonPacket.object_eq_fields (r : JsonPacket) :
    r.object = .object [(cstr r.name, .object (r.fields.map fieldMember))] := rfl

/-! ### What the code holds -/

/-- Objects are made before their members. -/
def JsonHeap.Ordered (h : JsonHeap) : Prop := ∀ a, ∀ b ∈ h.members a, a < b

theorem JsonHeap.Ordered.acyclic {h : JsonHeap} (hord : h.Ordered) : h.Acyclic :=
  Subrelation.wf (fun {b a} hab => hord b a hab) Nat.lt_wfRel.wf

namespace JsonHeap

variable {h : JsonHeap} {held : List Nat} {this : Nat} {entries : List (List Byte × Option Nat)}

theorem Ordered.new (hord : h.Ordered) (ok : Bool) {node : JsonNode} (hnode : node.values = []) :
    (h.new ok node).2.Ordered := by
  intro a b hb
  by_cases ha : a = h.nodes.length
  · cases ok with
    | false => exact hord a b hb
    | true =>
      rw [ha, members_new, hnode] at hb
      cases hb
  · rw [members_of_getElem? (getElem?_new ok node ha)] at hb
    exact hord a b hb

theorem Ordered.objectAdd (hord : h.Ordered) {key : List Byte} {val : Option Nat}
    (hthis : h.nodes[this]? = some (.object entries)) (hkey : cstr key ∉ entries.map Prod.fst)
    (hval : ∀ b ∈ val, this < b) : (h.objectAdd this key val).Ordered := by
  intro a b hb
  by_cases ha : a = this
  · rw [ha, members_objectAdd_self hthis hkey, List.mem_append, Option.mem_toList] at hb
    rw [ha]
    rcases hb with hb | hb
    · exact hord this b hb
    · exact hval b hb
  · rw [members_of_getElem? (getElem?_objectAdd ha key val)] at hb
    exact hord a b hb

/-- The code is filling an object that it holds. -/
structure Filling (h : JsonHeap) (held : List Nat) (this : Nat)
    (entries : List (List Byte × Option Nat)) : Prop where
  owned : h.Owned held
  ordered : h.Ordered
  mem : this ∈ held
  node : h.nodes[this]? = some (.object entries)

theorem Filling.lt (hf : h.Filling held this entries) : this < h.nodes.length :=
  hf.owned.lt_of_mem hf.mem

theorem Filling.addField (hf : h.Filling held this entries) (ok : Bool) {key : List Byte}
    {node : JsonNode} (hkey : cstr key ∉ entries.map Prod.fst) (hnode : node.values = []) :
    ((h.new ok node).2.objectAdd this key (h.new ok node).1).Filling held this
      (entries ++ [(cstr key, (h.new ok node).1)]) := by
  have hthis : (h.new ok node).2.nodes[this]? = some (.object entries) := by
    rw [getElem?_new ok node (by have := hf.lt; omega), hf.node]
  have hval : ∀ b ∈ (h.new ok node).1, this < b := by
    intro b hb
    cases ok with
    | false => cases hb
    | true =>
      cases hb
      exact hf.lt
  exact ⟨Owned.objectAdd hthis hkey (hf.owned.new_leaf ok hnode) hf.mem,
    (hf.ordered.new ok hnode).objectAdd hthis hkey hval, hf.mem,
    getElem?_objectAdd_self hthis hkey _⟩

theorem Filling.addFields (hf : h.Filling held this entries) (ok : Nat → Bool) (i : Nat)
    {fields : List (List Byte × JsonNode)}
    (hkeys : (entries.map Prod.fst ++ fields.map fun f => cstr f.1).Nodup)
    (hleaf : ∀ f ∈ fields, f.2.values = []) :
    ∃ added, (h.addFields ok this i fields).Filling held this (entries ++ added) ∧
      (∀ a < h.nodes.length, a ≠ this →
        (h.addFields ok this i fields).nodes[a]? = h.nodes[a]?) ∧
      ((∀ i, ok i = true) → Filled (h.addFields ok this i fields).nodes this added fields) := by
  induction fields generalizing h entries i with
  | nil =>
    refine ⟨[], ?_, fun _ _ _ => rfl, fun _ => .nil⟩
    rw [List.append_nil]
    exact hf
  | cons f fields ih =>
    obtain ⟨key, node⟩ := f
    have hkey : cstr key ∉ entries.map Prod.fst := fun hmem =>
      List.disjoint_of_nodup_append hkeys hmem List.mem_cons_self
    have hstep := hf.addField (ok i) hkey (hleaf (key, node) List.mem_cons_self)
    obtain ⟨added, hend, hsame, hfilled⟩ := ih hstep (i + 1)
      (by simpa [List.map_append] using hkeys) fun f hf => hleaf f (List.mem_cons_of_mem _ hf)
    -- an object that was there before the rest of the fields is there after them
    have hold {a : Nat} {n : JsonNode} (hne : a ≠ this)
        (hget : (h.new (ok i) node).2.nodes[a]? = some n) :
        (h.addFields ok this i ((key, node) :: fields)).nodes[a]? = some n := by
      rw [← getElem?_objectAdd hne key (h.new (ok i) node).1] at hget
      rw [JsonHeap.addFields, hsame a (List.getElem?_eq_some_iff.mp hget).1 hne, hget]
    refine ⟨(cstr key, (h.new (ok i) node).1) :: added, ?_, ?_, ?_⟩
    · rw [List.append_assoc, List.singleton_append] at hend
      exact hend
    · intro a ha hne
      rw [List.getElem?_eq_getElem ha]
      apply hold hne
      rw [getElem?_new (ok i) node (by omega), List.getElem?_eq_getElem ha]
    · intro hok
      refine .cons ⟨rfl, h.nodes.length, hf.lt, ?_, ?_⟩ (hfilled hok)
      · rw [hok i]
        rfl
      · apply hold (by have := hf.lt; omega)
        rw [hok i]
        exact List.getElem?_concat_length

end JsonHeap

theorem JsonPacket.fields_values (r : JsonPacket) : ∀ f ∈ r.fields, f.2.values = [] := by
  simp [JsonPacket.fields, JsonNode.values]

/-- When both objects are made, the code holds the outer one; with memory for all of it, that is the
object that is printed. -/
theorem jsonReqBuild_ok {ok : Nat → Bool} (h0 : ok 0 = true) (h1 : ok 1 = true) (r : JsonPacket) :
    ∃ h, jsonReqBuild ok r = .ok ⟨0, 1, h⟩ ∧ h.Owned [0] ∧ h.Ordered ∧
      ((∀ i, ok i = true) → Holds h.nodes (some 0) r.object) := by
  let h₁ : JsonHeap := (JsonHeap.empty.new true (.object [])).2
  let h₂ : JsonHeap := (h₁.new true (.object [])).2
  have hempty : JsonHeap.empty.Ordered := fun a b hb => by cases hb
  have hfill : h₂.Filling [1, 0] 1 [] :=
    ⟨(JsonHeap.Owned.empty.new_leaf true rfl).new_leaf true rfl,
      (hempty.new true rfl).new true rfl, List.mem_cons_self, rfl⟩
  have hkeys : ((([] : List (List Byte × Option Nat)).map Prod.fst) ++
      r.fields.map fun f => cstr f.1).Nodup := r.fields_nodup
  obtain ⟨added, hend, hsame, hfilled⟩ := hfill.addFields ok 2 hkeys r.fields_values
  have hobj : (h₂.addFields ok 1 2 r.fields).nodes[0]? = some (.object []) :=
    hsame 0 (by decide) (by decide)
  refine ⟨(h₂.addFields ok 1 2 r.fields).objectAdd 0 r.name (some 1), ?_, ?_, ?_, ?_⟩
  · rw [jsonReqBuild, h0, h1]
    rfl
  · exact JsonHeap.Owned.objectAdd hobj List.not_mem_nil hend.owned List.mem_cons_self
  · exact hend.ordered.objectAdd hobj List.not_mem_nil (by simp)
  · intro hok
    have hrest {a : Nat} (ha : a ≠ 0) := JsonHeap.getElem?_objectAdd
      (h := h₂.addFields ok 1 2 r.fields) ha r.name (some 1)
    rw [r.object_eq_fields]
    refine .object (JsonHeap.getElem?_objectAdd_self hobj List.not_mem_nil _) (.cons ?_ .nil)
    refine .object ((hrest (by decide)).trans hend.node) ?_
    exact ((hfilled hok).mono fun a ha => hrest (by omega)).holdsEntries r.fields_leaf

theorem put_put (h : JsonHeap) (a b : Nat) :
    ((h.put (some a)).put (some b)).counts = release h.members h.counts [a, b] := by
  have hfold := JsonHeap.foldl_put h [some a, some b]
  rw [List.foldl_cons, List.foldl_cons, List.foldl_nil] at hfold
  rw [hfold]
  rfl

/-- What is held keeps its object. -/
theorem JsonHeap.Owned.not_released {h : JsonHeap} {held : List Nat} {a : Nat}
    (ho : h.Owned held) (ha : a ∈ held) : ¬ Released h.counts := by
  intro hrel
  have hpos := ho.pos_of_mem ha
  rw [hrel.count a] at hpos
  exact absurd hpos (lt_irrefl 0)

theorem not_released_put_put {h : JsonHeap} {obj : Nat} (ho : h.Owned [obj]) (payload : Nat) :
    ¬ Released ((h.put (some payload)).put (some obj)).counts := by
  rw [put_put]
  intro hrel
  exact absurd (perm_of_released ho.balanced hrel).length_eq (by simp)

/-- A put before the one reference that is held is a fault, if not at once then in the end. -/
theorem faults_put_put {h : JsonHeap} {obj : Nat} (ho : h.Owned [obj]) (hacyclic : h.Acyclic)
    (payload : Nat) : ((h.put (some payload)).put (some obj)).counts.faults ≠ [] := by
  rw [put_put]
  apply ho.balanced.faults_ne_nil hacyclic
  · intro a
    exact List.count_le_count_cons
  · intro hperm
    exact absurd hperm.length_eq (by simp)

theorem JsonHeap.Owned.released_put {h : JsonHeap} {obj : Nat} (ho : h.Owned [obj])
    (hacyclic : h.Acyclic) : Released (h.put (some obj)).counts :=
  (ho.balanced.released_iff_perm hacyclic ho.faults).mpr (List.Perm.refl _)

theorem released_jsonReq2strHeap_iff (ok : Nat → Bool) (r : JsonPacket) :
    Released (jsonReq2strHeap ok r).counts ↔ ok 0 = false := by
  cases h0 : ok 0 with
  | false =>
    have hbuild : jsonReqBuild ok r = .error .empty := by
      rw [jsonReqBuild, h0]
      rfl
    rw [jsonReq2strHeap, hbuild]
    exact iff_of_true ⟨rfl, fun _ => rfl⟩ rfl
  | true =>
    refine iff_of_false ?_ (by simp)
    cases h1 : ok 1 with
    | false =>
      have hbuild : jsonReqBuild ok r =
          .error (JsonHeap.empty.new true (.object [])).2 := by
        rw [jsonReqBuild, h0, h1]
        rfl
      have ho : (JsonHeap.empty.new true (.object [])).2.Owned [0] :=
        JsonHeap.Owned.empty.new_leaf true rfl
      rw [jsonReq2strHeap, hbuild]
      exact ho.not_released List.mem_cons_self
    | true =>
      obtain ⟨h, hbuild, ho, -, -⟩ := jsonReqBuild_ok h0 h1 r
      rw [jsonReq2strHeap, hbuild]
      exact not_released_put_put ho 1

/-- Whenever the cleanup is reached, an object is put whose count is 0. -/
theorem faults_jsonReq2str {ok : Nat → Bool} (h0 : ok 0 = true) (h1 : ok 1 = true)
    (r : JsonPacket) : (jsonReq2strHeap ok r).counts.faults ≠ [] := by
  obtain ⟨h, hbuild, ho, hord, -⟩ := jsonReqBuild_ok h0 h1 r
  rw [jsonReq2strHeap, hbuild]
  exact faults_put_put ho hord.acyclic 1

/-- The put of the outer object is all that it takes. -/
theorem released_put_obj {ok : Nat → Bool} {r : JsonPacket} {v : JsonReqVars}
    (h : jsonReqBuild ok r = .ok v) : Released (v.heap.put (some v.obj)).counts := by
  have hok : ok 0 = true ∧ ok 1 = true := by
    cases h0 : ok 0 <;> cases h1 : ok 1 <;> rw [jsonReqBuild, h0, h1] at h <;> cases h
    exact ⟨rfl, rfl⟩
  obtain ⟨h', hbuild, ho, hord, -⟩ := jsonReqBuild_ok hok.1 hok.2 r
  rw [hbuild] at h
  cases h
  exact ho.released_put hord.acyclic

/-! ## `json_check_srv_resp` -/

/-- Whether `json_check_srv_resp` returns and the heap it leaves, from where `json_tokener_parse`
has returned `obj`. -/
def jsonCheckSrvRespHeap (h : JsonHeap) (obj : Nat) : Bool × JsonHeap :=
  match h.nodes[obj]? with
  | some (.object ((key, val) :: _)) =>
    if strncmp jsonPacketReqName key jsonPacketReqName.length = 0 then
      match val.bind fun payload => h.nodes[payload]? with
      | some (.object _) => (true, (h.put val).put (some obj))
      -- the members of NULL or of what is no object
      | _ => (false, h)
    -- return JSON_PACKET_KEY_NOTFOUND
    else (true, h)
  | _ => (false, h)

/-- What a parser returns, by the rules of `json_object.h`: `obj` stands for the value, and the
caller holds the one reference that no object has. -/
structure JsonHeap.Parsed (h : JsonHeap) (obj : Nat) (v : JsonObject) : Prop where
  holds : Holds h.nodes (some obj) v
  owned : h.Owned [obj]
  acyclic : h.Acyclic

theorem exists_parsed {v : JsonObject} (hv : v ≠ .null) : ∃ h obj, JsonHeap.Parsed h obj v := by
  have hempty : JsonHeap.empty.Descending := fun a b hb => by cases hb
  obtain ⟨p, h, -, hholds, ho, hd⟩ := exists_holds JsonHeap.Owned.empty hempty v
  cases p with
  | none =>
    cases hholds
    exact absurd rfl hv
  | some obj => exact ⟨h, obj, hholds, ho, hd.acyclic⟩

theorem Holds.object_iff {nodes : List JsonNode} {p : Option Nat} {v : JsonObject}
    (h : Holds nodes p v) : (∃ entries, (p.bind fun a => nodes[a]?) = some (.object entries)) ↔
      ∃ members, v = .object members := by
  cases h with
  | null => exact iff_of_false (fun ⟨_, h⟩ => by cases h) fun ⟨_, h⟩ => by cases h
  | @leaf a node v hnode hv =>
    rw [Option.bind_some, hnode]
    cases node <;> cases hv <;> simp
  | object hnode hentries =>
    rw [Option.bind_some, hnode]
    exact iff_of_true ⟨_, rfl⟩ ⟨_, rfl⟩
  | array hnode helems =>
    rw [Option.bind_some, hnode]
    simp

theorem not_released_jsonCheckSrvResp {h : JsonHeap} {obj : Nat} (ho : h.Owned [obj]) :
    ¬ Released (jsonCheckSrvRespHeap h obj).2.counts := by
  have hkept : ¬ Released h.counts := ho.not_released List.mem_cons_self
  unfold jsonCheckSrvRespHeap
  split
  · rename_i key val entries hobj
    split_ifs
    · cases val with
      | none => exact hkept
      | some payload =>
        split
        · exact not_released_put_put ho payload
        · exact hkept
    · exact hkept
  · exact hkept

/-- Whenever the cleanup is reached, an object is put whose count is 0. -/
theorem faults_jsonCheckSrvResp {h : JsonHeap} {obj : Nat} {key : List Byte}
    {payload members : List (List Byte × JsonObject)}
    (hp : h.Parsed obj (.object ((key, .object payload) :: members)))
    (hkey : jsonPacketReqName <+: key) : (jsonCheckSrvRespHeap h obj).2.counts.faults ≠ [] := by
  have hname := (strncmp_eq_zero_iff_isPrefix (s := jsonPacketReqName) (by decide) key).mpr hkey
  cases hp.holds with
  | leaf hnode hleaf =>
    rename_i node
    cases node <;> cases hleaf
  | object hnode hentries =>
    cases hentries with
    | @cons _ p _ entries _ hpayload _ =>
      obtain ⟨_, hget⟩ := hpayload.object_iff.mpr ⟨payload, rfl⟩
      cases p with
      | none => cases hget
      | some a =>
        rw [jsonCheckSrvRespHeap, hnode]
        simp only [hname, if_true, hget]
        exact faults_put_put hp.owned hp.acyclic a

/-! ## Both -/

/-- The objects of a packet are released exactly once only where there is none to release. -/
theorem released_once_iff (ok : Nat → Bool) (r : JsonPacket)
    (lf : List Byte → Option (List Byte)) (jsonStr : List Byte) :
    (Released (jsonReq2strHeap ok r).counts ↔ ok 0 = false) ∧
      ∀ (members : List (List Byte × JsonObject)) (h : JsonHeap) (obj : Nat),
        jsonTokenerParse lf jsonStr = .value (.object members) → h.Parsed obj (.object members) →
        ¬ Released (jsonCheckSrvRespHeap h obj).2.counts := by
  refine ⟨released_jsonReq2strHeap_iff ok r, ?_⟩
  intro members h obj _ hparsed
  exact not_released_jsonCheckSrvResp hparsed.owned

theorem released_once_iff_served : ∃ h obj,
    JsonHeap.Parsed h obj (packetObject (JsonResponse.about 5 .ok).packet) ∧
      ¬ Released (jsonCheckSrvRespHeap h obj).2.counts := by
  have hid : InInt 5 := by decide
  have hperm : (JsonResponse.about 5 .ok).packet.Perm (JsonResponse.about 5 .ok).packet := .refl _
  have hnull : packetObject (JsonResponse.about 5 .ok).packet ≠ .null := fun h => by cases h
  have hparse := parse_json2str (fun _ => none) hid hperm
  obtain ⟨h, obj, hparsed⟩ := exists_parsed hnull
  have hboth := released_once_iff (fun _ => true) (smsRequest ⟨[], [], []⟩ [] 5) (fun _ => none)
    (readBuffer (JsonResponse.printPacket (JsonResponse.about 5 .ok).packet))
  exact ⟨h, obj, hparsed, hboth.2 _ h obj hparse hparsed⟩

/-- The first request for Ann's password. -/
theorem released_once_fails :
    let r := smsRequest ⟨lit "Ann", lit "542611234567", lit "claro"⟩
      (otpText 5 .num fun _ => 7).bytes 1
    ¬ Released (jsonReq2strHeap (fun _ => true) r).counts ∧
      (jsonReq2strHeap (fun _ => true) r).counts.faults ≠ [] := by
  intro r
  have hfaults := @faults_jsonReq2str (fun _ => true) rfl rfl r
  exact ⟨fun h => hfaults h.faults, hfaults⟩

end PamSmsauth
