import PamSmsauth.TokenerHeap

/-!
# What the parser leaves in memory

The calls of `json_tokener_do_parse` that wait for each other have made trees that lie one behind
the other (`Stack`), so that what the running call does to its own leaves those of its callers as
they are. Every object has one reference, which a call or an object above it has, but for those that
were lost at a key without a colon; so has every copy of a key (`TokenerHeap.Apart`). A cycle keeps
this (`cycleHeap_together`).

A call that has lost something returns an error. Its callers end with errors too, or one of them
takes the marker for an object; then it has the marker as long as it runs.
-/

namespace PamSmsauth

open CText RefCount Tokener

variable {lf : List Byte → Option (List Byte)}

/-! ## What a pointer stands for -/

/-- The pointer is to the value; to something that is marred in its shape. -/
def Stands (nodes : List JsonNode) (p : Option Nat) : JsonPtr → Prop
  | .obj v => Holds nodes p v
  | .marker _ => p = none
  | .marredObject members => ∃ a entries, p = some a ∧ nodes[a]? = some (.object entries) ∧
      entries.map Prod.fst = members.map Prod.fst
  | .marredArray _ => ∃ a ptrs, p = some a ∧ nodes[a]? = some (.array ptrs)

theorem Stands.mono {nodes nodes' : List JsonNode} (hpre : nodes <+: nodes') {p : Option Nat}
    {ptr : JsonPtr} (h : Stands nodes p ptr) : Stands nodes' p ptr := by
  cases ptr with
  | obj v => exact Holds.mono hpre h
  | marker _ => exact h
  | marredObject members =>
    obtain ⟨a, entries, hp, hnode, hkeys⟩ := h
    exact ⟨a, entries, hp, getElem?_of_isPrefix hpre hnode, hkeys⟩
  | marredArray _ =>
    obtain ⟨a, ptrs, hp, hnode⟩ := h
    exact ⟨a, ptrs, hp, getElem?_of_isPrefix hpre hnode⟩

theorem Holds.null_iff {nodes : List JsonNode} {p : Option Nat} :
    Holds nodes p .null ↔ p = none := by
  constructor
  · intro h
    cases h with
    | null => rfl
    | leaf hnode hv =>
      rename_i node
      cases node <;> cases hv
  · rintro rfl
    exact .null

theorem Stands.array {nodes : List JsonNode} {p : Option Nat} {ptr : JsonPtr}
    (h : Stands nodes p ptr) (harray : ptr.isArray = true) :
    ∃ this ptrs, p = some this ∧ nodes[this]? = some (.array ptrs) := by
  cases ptr with
  | obj v =>
    cases v with
    | array elems =>
      cases h with
      | leaf hnode hleaf =>
        rename_i node
        cases node <;> cases hleaf
      | array hnode _ => exact ⟨_, _, rfl, hnode⟩
    | _ => cases harray
  | marredArray _ => exact h
  | _ => cases harray

theorem Stands.object {nodes : List JsonNode} {p : Option Nat} {ptr : JsonPtr}
    (h : Stands nodes p ptr) (hobject : ptr.isObject = true) (hwf : ptr.WellFormed lf) :
    ∃ this entries, p = some this ∧ nodes[this]? = some (.object entries) ∧
      (entries.map Prod.fst).Nodup := by
  cases ptr with
  | obj v =>
    cases v with
    | object members =>
      cases h with
      | leaf hnode hleaf =>
        rename_i node
        cases node <;> cases hleaf
      | object hnode hentries => exact ⟨_, _, rfl, hnode, by rw [hentries.map_fst]; exact hwf.1⟩
    | _ => cases hobject
  | marredObject members =>
    obtain ⟨a, entries, hp, hnode, hkeys⟩ := h
    exact ⟨a, entries, hp, hnode, hkeys ▸ hwf.1⟩
  | _ => cases hobject

theorem Holds.of_array {nodes : List JsonNode} {a : Nat} {v : JsonObject}
    {ptrs : List (Option Nat)} (h : Holds nodes (some a) v)
    (hnode : nodes[a]? = some (.array ptrs)) : ∃ elems, v = .array elems := by
  cases h with
  | leaf hleaf hv =>
    rw [Option.some.inj (hleaf.symm.trans hnode)] at hv
    cases hv
  | object hobject _ => cases hnode.symm.trans hobject
  | array => exact ⟨_, rfl⟩

theorem Holds.of_object {nodes : List JsonNode} {a : Nat} {v : JsonObject}
    {entries : List (List Byte × Option Nat)} (h : Holds nodes (some a) v)
    (hnode : nodes[a]? = some (.object entries)) :
    ∃ members, v = .object members ∧ entries.map Prod.fst = members.map Prod.fst := by
  cases h with
  | leaf hleaf hv =>
    rw [Option.some.inj (hleaf.symm.trans hnode)] at hv
    cases hv
  | object hobject hentries =>
    cases hnode.symm.trans hobject
    exact ⟨_, rfl, hentries.map_fst⟩
  | array harray _ => cases hnode.symm.trans harray

section Add

variable {h : JsonHeap} {this : Nat} {p : Option Nat} {cur val : JsonPtr} (hord : h.Ordered)
  (hp : ∀ b ∈ p, this < b) (hval : Stands h.nodes p val) (hthis : Stands h.nodes (some this) cur)

include hord hp hval hthis

theorem stands_arrayAdd {ptrs : List (Option Nat)} (hnode : h.nodes[this]? = some (.array ptrs)) :
    Stands (h.arrayAdd this p).nodes (some this) (cur.arrayAdd val) := by
  have hset : (h.arrayAdd this p).nodes[this]? = some (.array (ptrs ++ [p])) := by
    rw [JsonHeap.nodes_arrayAdd hnode]
    exact List.getElem?_set_self (List.getElem?_eq_some_iff.mp hnode).1
  cases cur with
  | obj v =>
    obtain ⟨elems, rfl⟩ := Holds.of_array hthis hnode
    cases val with
    | obj w => exact JsonHeap.holds_arrayAdd hord hp hval hthis
    | _ => exact ⟨this, _, rfl, hset⟩
  | marker _ => cases hthis
  | marredArray _ => exact ⟨this, _, rfl, hset⟩
  | marredObject _ =>
    obtain ⟨a, entries, ⟨⟩, hobject, -⟩ := hthis
    cases hnode.symm.trans hobject

theorem stands_objectAdd {entries : List (List Byte × Option Nat)}
    (hnode : h.nodes[this]? = some (.object entries)) {key : List Byte} {cur' : JsonPtr}
    (hadd : cur.objectAdd key val = some cur') :
    Stands (h.objectAdd this key p).nodes (some this) cur' := by
  have hset : (h.objectAdd this key p).nodes[this]? =
      some (.object (entries.filter (·.1 ≠ cstr key) ++ [(cstr key, p)])) := by
    rw [JsonHeap.nodes_objectAdd hnode]
    exact List.getElem?_set_self (List.getElem?_eq_some_iff.mp hnode).1
  -- the keys are those of the value
  have hmarred {members : List (List Byte × JsonPtr)}
      (hkeys : entries.map Prod.fst = members.map Prod.fst) : Stands (h.objectAdd this key p).nodes
        (some this) (.marredObject (JsonObject.addEntry (cstr key) val members)) := by
    have hfilter {α : Type} (l : List (List Byte × α)) :
        (l.filter (·.1 ≠ cstr key)).map Prod.fst = (l.map Prod.fst).filter (· ≠ cstr key) := by
      rw [List.filter_map]
      rfl
    refine ⟨this, _, rfl, hset, ?_⟩
    rw [JsonObject.addEntry, List.map_append, List.map_append, hfilter, hfilter, hkeys]
    rfl
  cases cur with
  | obj v =>
    obtain ⟨members, rfl, hkeys⟩ := Holds.of_object hthis hnode
    cases val with
    | obj w =>
      cases hadd
      exact JsonHeap.holds_objectAdd hord hp hval hthis key
    | _ =>
      cases hadd
      exact hmarred (hkeys.trans (by rw [List.map_map]; rfl))
  | marker _ => cases hthis
  | marredObject members =>
    obtain ⟨a, entries', ⟨⟩, hobject, hkeys⟩ := hthis
    cases hnode.symm.trans hobject
    unfold JsonPtr.objectAdd at hadd
    dsimp only at hadd
    split_ifs at hadd
    cases hadd
    exact hmarred hkeys
  | marredArray _ =>
    obtain ⟨a, ptrs, ⟨⟩, harray⟩ := hthis
    cases hnode.symm.trans harray

end Add

/-! ## The ledger -/

/-- The references of the calls. -/
def Pointers.held (ps : List Pointers) : List Nat := ps.flatMap fun p => p.current.toList

theorem Pointers.mem_held {p : Pointers} {a : Nat} (h : p.current = some a) (ps : List Pointers) :
    a ∈ Pointers.held (p :: ps) := by
  have hmem : a ∈ p.current.toList := by
    rw [h]
    exact List.mem_singleton_self a
  exact List.mem_append_left _ hmem

/-- The copies of keys that the calls have. -/
def Pointers.copies (ps : List Pointers) : Nat := (ps.map fun p => p.objFieldName.toNat).sum

theorem Pointers.copies_cons (p : Pointers) (ps : List Pointers) :
    Pointers.copies (p :: ps) = p.objFieldName.toNat + Pointers.copies ps := rfl

/-- The calls, from the running one outwards: `n` objects were there when a call began. -/
inductive Stack : List JsonNode → List Activation → List Pointers → Prop
  | nil {nodes : List JsonNode} : Stack nodes [] []
  | cons {nodes : List JsonNode} {f : Activation} {fs : List Activation} {p : Pointers}
      {ps : List Pointers} (n : Nat) (stands : Stands nodes p.current f.current)
      (named : p.objFieldName = f.phase.named) (fits : f.Fits) (le : n ≤ nodes.length)
      (mark : ∀ a ∈ p.current, n ≤ a) (rest : Stack (nodes.take n) fs ps) :
      Stack nodes (f :: fs) (p :: ps)

/-- What was made after the calls began to wait is none of theirs. -/
theorem Stack.of_take {nodes : List JsonNode} {n : Nat} {fs : List Activation} {ps : List Pointers}
    (h : Stack (nodes.take n) fs ps) : Stack nodes fs ps := by
  cases h with
  | nil => exact .nil
  | cons n' stands named fits le mark rest =>
    rw [List.length_take] at le
    rw [List.take_take, min_eq_left (by omega)] at rest
    exact .cons n' (stands.mono (List.take_prefix n nodes)) named fits (by omega) mark rest

/-- Nothing is there that is not a call's or `lost`: objects, and as many copies of keys. -/
structure Memory.Apart (mem : Memory) (fs : List Activation) (ps : List Pointers)
    (lost : List Nat) : Prop where
  owned : mem.heap.Owned (Pointers.held ps ++ lost)
  ordered : mem.heap.Ordered
  stack : Stack mem.heap.nodes fs ps
  copies : mem.copies = Pointers.copies ps + lost.length

structure TokenerHeap.Apart (lf : List Byte → Option (List Byte)) (m : TokenerHeap)
    (lost : List Nat) : Prop where
  sound : m.tok.Sound lf
  waits : ∀ f ∈ m.tok.callers, f.state = .array ∨ f.state = .objectValue
  memory : m.mem.Apart (m.tok.frame :: m.tok.callers) (m.frame :: m.callers) lost
  marred : lost ≠ [] → ∃ f ∈ m.tok.frame :: m.tok.callers, f.current.clean = false

theorem le_of_mem_none (n : Nat) : ∀ a ∈ (none : Option Nat), n ≤ a := fun _ ha => by cases ha

theorem TokenerHeap.apart_init (source : List Byte) : (TokenerHeap.init source).Apart lf [] where
  sound := ⟨trivial, by simp [TokenerHeap.init, Tokener.init]⟩
  waits := by simp [TokenerHeap.init, Tokener.init]
  memory :=
    { owned := JsonHeap.Owned.empty
      ordered := fun _ _ hb => by cases hb
      stack := .cons 0 .null rfl rfl le_rfl (le_of_mem_none _) .nil
      copies := rfl }
  marred := fun h => absurd rfl h

/-! ## Passes and calls -/

/-- A key is copied where the call has none. -/
theorem strdups_le {t : Tokener} {c : Byte} {p : Pointers}
    (hnamed : p.objFieldName = t.frame.phase.named) :
    (p.objFieldName || strdups t c).toNat = p.objFieldName.toNat + (strdups t c).toNat := by
  cases hdup : strdups t c with
  | false => simp
  | true =>
    have hst : t.frame.state = .objectField := by
      simp only [strdups, decide_eq_true_eq] at hdup
      exact hdup.1
    have hphase : t.frame.phase = .objectField := by rw [Activation.phase, hst]
    rw [hnamed, hphase]
    rfl

section Assign

variable {h : JsonHeap} {current : Option Nat} {ptr ptr' : JsonPtr} {held : List Nat} {n : Nat}

/-- What `current` is assigned lies behind what was there. -/
theorem assign_apart {new : Option (Option JsonNode)} (hassigns : Assigns ptr ptr' new)
    (howned : h.Owned (current.toList ++ held)) (hord : h.Ordered)
    (hptr : Stands h.nodes current ptr) (hle : n ≤ h.nodes.length) (hmark : ∀ a ∈ current, n ≤ a) :
    (h.assign current new).2.Owned ((h.assign current new).1.toList ++ held) ∧
      (h.assign current new).2.Ordered ∧
      Stands (h.assign current new).2.nodes (h.assign current new).1 ptr' ∧
      (∀ a ∈ (h.assign current new).1, n ≤ a) ∧ n ≤ (h.assign current new).2.nodes.length ∧
      (h.assign current new).2.nodes.take n = h.nodes.take n := by
  cases new with
  | none =>
    have hsame : ptr' = ptr := hassigns
    rw [hsame]
    exact ⟨howned, hord, hptr, hmark, hle, rfl⟩
  | some node =>
    have hnull : ptr = .obj .null := by cases node <;> exact hassigns.1
    have hnone : current = none := by
      rw [hnull] at hptr
      exact Holds.null_iff.mp hptr
    rw [hnone] at howned
    cases node with
    | none =>
      rw [hassigns.2]
      exact ⟨howned, hord, .null, le_of_mem_none _, hle, rfl⟩
    | some node =>
      obtain ⟨-, v, rfl, hvalues, hmakes⟩ := hassigns
      refine ⟨JsonHeap.Owned.new_leaf howned true hvalues, hord.new true hvalues,
        hmakes _ _ List.getElem?_concat_length, ?_, ?_, ?_⟩
      · rintro a ⟨⟩
        exact hle
      · exact hle.trans (by simp [JsonHeap.assign, JsonHeap.new])
      · exact List.take_append_of_le_length hle

/-- What is marred is not assigned. -/
theorem Assigns.clean {new : Option (Option JsonNode)} (h : Assigns ptr ptr' new)
    (hptr : ptr.clean = false) : ptr'.clean = false := by
  cases new with
  | none =>
    have hsame : ptr' = ptr := h
    rwa [hsame]
  | some node =>
    have hnull : ptr = .obj .null := by cases node <;> exact h.1
    rw [hnull] at hptr
    cases hptr

end Assign

theorem TokenerHeap.Apart.pass {m : TokenerHeap} {lost : List Nat} (hm : m.Apart lf lost) {c : Byte}
    {t' : Tokener} (hp : Passes lf m.tok c t') (hsound : t'.Sound lf) :
    (m.pass lf c t').Apart lf lost := by
  obtain ⟨-, hwaits, ⟨howned, hord, hstack, hcopies⟩, hmarred⟩ := hm
  cases hstack with
  | cons n stands named fits le mark rest =>
    have howned' : m.mem.heap.Owned (m.frame.current.toList ++
        (Pointers.held m.callers ++ lost)) := by
      rwa [← List.append_assoc]
    obtain ⟨howned', hord', hstands, hmark, hle, htake⟩ :=
      assign_apart hp.assigns howned' hord stands le mark
    refine ⟨hsound, ?_, ⟨?_, hord', ?_, ?_⟩, fun hlost => ?_⟩
    · show ∀ f ∈ t'.callers, _
      rw [hp.callers]
      exact hwaits
    · rw [← List.append_assoc] at howned'
      exact howned'
    · show Stack _ (t'.frame :: t'.callers) _
      rw [hp.callers]
      refine .cons n hstands ?_ hp.fits hle hmark (htake ▸ rest)
      show (m.frame.objFieldName || strdups m.tok c) = _
      rw [named, hp.named]
    · show m.mem.copies + (strdups m.tok c).toNat =
        (m.frame.objFieldName || strdups m.tok c).toNat + Pointers.copies m.callers + lost.length
      rw [strdups_le named, hcopies, Pointers.copies_cons]
      omega
    · show ∃ f ∈ t'.frame :: t'.callers, _
      rw [hp.callers]
      obtain ⟨f, hf, hclean⟩ := hmarred hlost
      rcases List.mem_cons.mp hf with rfl | hf
      · exact ⟨t'.frame, List.mem_cons_self, hp.assigns.clean hclean⟩
      · exact ⟨f, List.mem_cons_of_mem _ hf, hclean⟩

/-- A call begins, with nothing in front of what it will make. -/
theorem TokenerHeap.Apart.call {m : TokenerHeap} {lost : List Nat} (hm : m.Apart lf lost)
    (hst : m.tok.frame.state = .array ∨ m.tok.frame.state = .objectValue) :
    TokenerHeap.Apart lf ⟨{ m.tok with frame := .init, callers := m.tok.frame :: m.tok.callers },
      m.mem, .init, m.frame :: m.callers⟩ lost where
  sound := ⟨trivial, List.forall_mem_cons.mpr hm.sound⟩
  waits := List.forall_mem_cons.mpr ⟨hst, hm.waits⟩
  memory :=
    { owned := hm.memory.owned
      ordered := hm.memory.ordered
      stack := by
        refine .cons m.mem.heap.nodes.length .null rfl rfl le_rfl (le_of_mem_none _) ?_
        rw [List.take_length]
        exact hm.memory.stack
      copies := by
        rw [hm.memory.copies]
        exact congrArg (· + lost.length) (Nat.zero_add _).symm }
  marred := fun hlost => by
    obtain ⟨f, hf, hclean⟩ := hm.marred hlost
    exact ⟨f, List.mem_cons_of_mem _ hf, hclean⟩

/-! ## Returns -/

/-- A call is over: it has freed the copy of its key, and `obj` is its caller's now. -/
structure Memory.Returning (mem : Memory) (obj : Option Nat) (ptr : JsonPtr) (fs : List Activation)
    (ps : List Pointers) (lost : List Nat) : Prop where
  owned : mem.heap.Owned (obj.toList ++ (Pointers.held ps ++ lost))
  ordered : mem.heap.Ordered
  stands : Stands mem.heap.nodes obj ptr
  stack : ∃ n ≤ mem.heap.nodes.length, (∀ a ∈ obj, n ≤ a) ∧ Stack (mem.heap.nodes.take n) fs ps
  copies : mem.copies = Pointers.copies ps + lost.length
  marred : lost ≠ [] → ptr.clean = false ∨ ∃ f ∈ fs, f.current.clean = false

section Over

variable {mem : Memory} {f : Activation} {fs : List Activation} {p : Pointers} {ps : List Pointers}
  {lost : List Nat} (hm : mem.Apart (f :: fs) (p :: ps) lost)

include hm

/-- A call returns its `current`. -/
theorem Memory.Apart.returning
    (hmarred : lost ≠ [] → ∃ g ∈ f :: fs, g.current.clean = false) :
    (mem.freeName p).Returning p.current f.current fs ps lost := by
  obtain ⟨howned, hord, hstack, hcopies⟩ := hm
  cases hstack with
  | cons n stands named fits le mark rest =>
    refine ⟨?_, hord, stands, ⟨n, le, mark, rest⟩, ?_, fun hlost => ?_⟩
    · rw [← List.append_assoc]
      exact howned
    · show mem.copies - p.objFieldName.toNat = _
      rw [hcopies, Pointers.copies_cons]
      omega
    · obtain ⟨g, hg, hclean⟩ := hmarred hlost
      rcases List.mem_cons.mp hg with rfl | hg
      · exact .inl hclean
      · exact .inr ⟨g, hg, hclean⟩

/-- A call puts its `current`, and returns a marker. -/
theorem Memory.Apart.out (err : UInt64) : (mem.out p).Returning none (.marker err) fs ps lost := by
  obtain ⟨howned, hord, hstack, hcopies⟩ := hm
  cases hstack with
  | cons n stands named fits le mark rest =>
    have howned' : mem.heap.Owned (p.current.toList ++ (Pointers.held ps ++ lost)) := by
      rw [← List.append_assoc]
      exact howned
    have hnodes : (mem.heap.put p.current).nodes = mem.heap.nodes := JsonHeap.nodes_put _ _
    refine ⟨howned'.put, hord.put _, rfl, ⟨n, ?_, le_of_mem_none _, ?_⟩, ?_,
      fun _ => .inl rfl⟩
    · exact hnodes ▸ le
    · show Stack ((mem.heap.put p.current).nodes.take n) fs ps
      rw [hnodes]
      exact rest
    · show mem.copies - p.objFieldName.toNat = _
      rw [hcopies, Pointers.copies_cons]
      omega

/-- A call that has no copy of a key puts its `current`, and returns a marker. -/
theorem Memory.Apart.put (hname : p.objFieldName = false) (err : UInt64) :
    Memory.Returning { mem with heap := mem.heap.put p.current } none (.marker err) fs ps lost := by
  have hout := hm.out err
  have hsame : mem.out p = { mem with heap := mem.heap.put p.current } := by
    rw [Memory.out, Memory.freeName, hname]
    rfl
  rwa [hsame] at hout

/-- A call with neither returns a marker. -/
theorem Memory.Apart.skip (hname : p.objFieldName = false) (hcurrent : p.current = none)
    (err : UInt64) : mem.Returning none (.marker err) fs ps lost := by
  have hput := hm.put hname err
  rwa [hcurrent] at hput

/-- A call with both returns a marker, and they are lost. -/
theorem Memory.Apart.lose (hname : p.objFieldName = true) {obj : Nat}
    (hcurrent : p.current = some obj) (err : UInt64) :
    mem.Returning none (.marker err) fs ps (obj :: lost) := by
  obtain ⟨howned, hord, hstack, hcopies⟩ := hm
  cases hstack with
  | cons n stands named fits le mark rest =>
    refine ⟨?_, hord, rfl, ⟨n, le, le_of_mem_none _, rest⟩, ?_, fun _ => .inl rfl⟩
    · refine howned.perm ?_
      have hheld : Pointers.held (p :: ps) = obj :: Pointers.held ps := by
        show p.current.toList ++ _ = _
        rw [hcurrent]
        rfl
      rw [hheld]
      exact List.perm_middle
    · rw [hcopies, Pointers.copies_cons, hname, List.length_cons]
      show 1 + _ + _ = _
      omega

end Over

theorem lt_of_take {nodes : List JsonNode} {n a : Nat} {node : JsonNode}
    (h : (nodes.take n)[a]? = some node) : a < n ∧ nodes[a]? = some node := by
  refine ⟨?_, getElem?_of_isPrefix (List.take_prefix n nodes) h⟩
  obtain ⟨hlt, -⟩ := List.getElem?_eq_some_iff.mp h
  rw [List.length_take] at hlt
  omega

/-- What a call does to its own object leaves those of its callers as they are. -/
theorem take_set_take {nodes : List JsonNode} {this n n' : Nat} (node : JsonNode)
    (hle : n' ≤ this) (hn : n' ≤ (nodes.take n).length) :
    (nodes.set this node).take n' = (nodes.take n).take n' := by
  rw [List.length_take] at hn
  rw [List.take_set_of_le hle, List.take_take, min_eq_left (by omega)]

/-- An array stays one, and is marred by a marker. -/
theorem JsonPtr.arrayAdd_of_isArray {this : JsonPtr} (h : this.isArray = true) (val : JsonPtr) :
    (this.arrayAdd val).isArray = true ∧ (this.arrayAdd val).clean = (this.clean && val.clean) := by
  cases this with
  | obj v =>
    cases v with
    | array elems => cases val <;> exact ⟨rfl, rfl⟩
    | _ => cases h
  | marredArray elems => exact ⟨rfl, rfl⟩
  | _ => cases h

theorem JsonPtr.objectAdd_of_isObject {this this' val : JsonPtr} {key : List Byte}
    (h : this.isObject = true) (hadd : this.objectAdd key val = some this') :
    this'.isObject = true ∧ this'.clean = (this.clean && val.clean) := by
  cases this with
  | obj v =>
    cases v with
    | object entries => cases val <;> cases hadd <;> exact ⟨rfl, rfl⟩
    | _ => cases h
  | marredObject entries =>
    unfold JsonPtr.objectAdd at hadd
    dsimp only at hadd
    split_ifs at hadd
    cases hadd
    exact ⟨rfl, rfl⟩
  | _ => cases h

section Add

variable {mem : Memory} {obj : Option Nat} {ptr : JsonPtr} {f f' : Activation}
  {fs : List Activation} {p : Pointers} {ps : List Pointers} {lost : List Nat}
  (hm : mem.Returning obj ptr (f :: fs) (p :: ps) lost) (hresume : f.resume ptr = some f')

include hm hresume

/-- What a caller has stays marred when it takes over what was returned. -/
theorem Memory.Returning.marred_resume (hst : f.state = .array ∨ f.state = .objectValue)
    (hfits : f.Fits) (hlost : lost ≠ []) : ∃ g ∈ f' :: fs, g.current.clean = false := by
  have hboth : f'.current.clean = (f.current.clean && ptr.clean) := by
    unfold Activation.resume at hresume
    unfold Activation.Fits Activation.phase at hfits
    rcases hst with hst | hst <;> rw [hst] at hresume hfits
    · cases hresume
      exact (JsonPtr.arrayAdd_of_isArray hfits ptr).2
    · obtain ⟨current, hadd, rfl⟩ := Option.map_eq_some_iff.mp hresume
      exact (JsonPtr.objectAdd_of_isObject hfits hadd).2
  rcases hm.marred hlost with hclean | ⟨g, hg, hclean⟩
  · exact ⟨f', List.mem_cons_self, by rw [hboth, hclean, Bool.and_false]⟩
  · rcases List.mem_cons.mp hg with rfl | hg
    · exact ⟨f', List.mem_cons_self, by rw [hboth, hclean, Bool.false_and]⟩
    · exact ⟨g, List.mem_cons_of_mem _ hg, hclean⟩

/-- The array has taken over what was returned. -/
theorem Memory.Returning.add_array (hst : f.state = .array) :
    (mem.add f p obj).2.Apart (f' :: fs) ((mem.add f p obj).1 :: ps) lost := by
  obtain ⟨howned, hord, hobj, ⟨n, hn, hmark, hstack⟩, hcopies, -⟩ := hm
  cases hstack with
  | cons n' stands named fits hle hmark' hrest =>
    have hphase : f.phase = .array := by rw [Activation.phase, hst]
    have hhas : f.phase.Has f.current := fits
    rw [hphase] at hhas
    obtain ⟨this, ptrs, hcurrent, htaken⟩ := stands.array hhas
    obtain ⟨hlt, hnode⟩ := lt_of_take htaken
    have hthis := stands.mono (List.take_prefix n mem.heap.nodes)
    have hbehind : ∀ a ∈ obj, this < a := fun a ha => hlt.trans_le (hmark a ha)
    have hadd : mem.add f p obj = (p, ⟨mem.heap.arrayAdd this obj, mem.copies⟩) := by
      simp only [Memory.add, hst, hcurrent]
    have hf' : f' = { f with
        state := .eatws, savedState := .arraySep, current := f.current.arrayAdd ptr } := by
      simp only [Activation.resume, hst, Option.some.injEq] at hresume
      exact hresume.symm
    have hnodes := JsonHeap.nodes_arrayAdd hnode obj
    rw [hcurrent] at hthis
    rw [hadd, hf']
    refine ⟨?_, hord.arrayAdd hnode hbehind, ?_, hcopies⟩
    · exact JsonHeap.Owned.arrayAdd howned
        (List.mem_append_left _ (Pointers.mem_held hcurrent ps)) hnode
    · refine .cons n' ?_ ?_ ?_ ?_ hmark' ?_
      · show Stands _ p.current _
        rw [hcurrent]
        exact stands_arrayAdd hord hbehind hobj hthis hnode
      · rw [named, hphase]
        rfl
      · exact (JsonPtr.arrayAdd_of_isArray hhas ptr).1
      · rw [hnodes, List.length_set]
        exact hle.trans (List.length_take_le' _ _)
      · rw [hnodes, take_set_take _ (hmark' this hcurrent) hle]
        exact hrest

/-- The object has taken over what was returned, under the key, and the copy of the key is freed. -/
theorem Memory.Returning.add_object (hst : f.state = .objectValue) (hwf : f.current.WellFormed lf) :
    (mem.add f p obj).2.Apart (f' :: fs) ((mem.add f p obj).1 :: ps) lost := by
  obtain ⟨howned, hord, hobj, ⟨n, hn, hmark, hstack⟩, hcopies, -⟩ := hm
  cases hstack with
  | cons n' stands named fits hle hmark' hrest =>
    have hphase : f.phase = .objectValue := by rw [Activation.phase, hst]
    have hhas : f.phase.Has f.current := fits
    rw [hphase] at hhas
    obtain ⟨this, entries, hcurrent, htaken, hnodup⟩ := stands.object hhas hwf
    obtain ⟨hlt, hnode⟩ := lt_of_take htaken
    have hthis := stands.mono (List.take_prefix n mem.heap.nodes)
    have hbehind : ∀ a ∈ obj, this < a := fun a ha => hlt.trans_le (hmark a ha)
    have hadd : mem.add f p obj = ({ p with objFieldName := false },
        ⟨mem.heap.objectAdd this f.objFieldName obj, mem.copies - p.objFieldName.toNat⟩) := by
      simp only [Memory.add, hst, hcurrent, Memory.freeName]
    simp only [Activation.resume, hst, Option.map_eq_some_iff] at hresume
    obtain ⟨current, hcur, rfl⟩ := hresume
    have hnodes := JsonHeap.nodes_objectAdd hnode f.objFieldName obj
    rw [hcurrent] at hthis
    rw [hadd]
    refine ⟨?_, JsonHeap.Ordered.objectAdd_any hord hnode hbehind _, ?_, ?_⟩
    · exact JsonHeap.Owned.objectAdd_any hord hnode hnodup howned
        (List.mem_append_left _ (Pointers.mem_held hcurrent ps)) _
    · refine .cons n' ?_ rfl ?_ ?_ hmark' ?_
      · show Stands _ p.current _
        rw [hcurrent]
        exact stands_objectAdd hord hbehind hobj hthis hnode hcur
      · exact (JsonPtr.objectAdd_of_isObject hhas hcur).1
      · rw [hnodes, List.length_set]
        exact hle.trans (List.length_take_le' _ _)
      · rw [hnodes, take_set_take _ (hmark' this hcurrent) hle]
        exact hrest
    · show mem.copies - p.objFieldName.toNat = 0 + Pointers.copies ps + lost.length
      rw [hcopies, Pointers.copies_cons]
      omega

end Add

/-! ## Ends -/

/-- What is left: the value with its reference and nothing else, or what was lost besides what is
returned. -/
def Ends (lost : List Nat) (mem : Memory) : JsonParsed → HeapParsed → Prop
  | .overrun, parsed => parsed = .overrun
  | .followed, parsed => parsed = .followed
  | .value v, parsed => ∃ p, parsed = .pointer p ∧ Holds mem.heap.nodes p v ∧
      mem.heap.Owned p.toList ∧ mem.heap.Acyclic ∧ mem.copies = 0
  | .error e, parsed => parsed = .error e ∧ mem.heap.Owned lost ∧ mem.heap.Acyclic ∧
      mem.copies = lost.length
  | .marred ptr, parsed => ∃ p, parsed = .marred p ∧ ptr.clean = false ∧
      Stands mem.heap.nodes p ptr ∧ mem.heap.Owned (p.toList ++ lost) ∧ mem.heap.Acyclic ∧
      mem.copies = lost.length

theorem JsonHeap.Owned.released {h : JsonHeap} (ho : h.Owned []) (hacyclic : h.Acyclic) :
    Released h.counts := by
  rw [← release_nil h.members h.counts, ho.balanced.released_iff_perm hacyclic ho.faults]

/-- The last call has returned. -/
theorem Memory.Returning.ends {mem : Memory} {obj : Option Nat} {ptr : JsonPtr} {ps : List Pointers}
    {lost : List Nat} (hm : mem.Returning obj ptr [] ps lost) :
    Ends lost mem ptr.parsed (ptr.heapParsed obj) := by
  obtain ⟨howned, hord, hstands, ⟨n, -, -, hstack⟩, hcopies, hmarred⟩ := hm
  cases hstack
  rw [show Pointers.held [] = [] from rfl, List.nil_append] at howned
  rw [show Pointers.copies [] = 0 from rfl, Nat.zero_add] at hcopies
  cases ptr with
  | obj v =>
    have hlost : lost = [] := by
      by_contra hlost
      rcases hmarred hlost with hclean | ⟨f, hf, -⟩
      · cases hclean
      · cases hf
    rw [hlost, List.append_nil] at howned
    rw [hlost] at hcopies
    exact ⟨obj, rfl, hstands, howned, hord.acyclic, hcopies⟩
  | marker err =>
    have hobj : obj = none := hstands
    rw [hobj] at howned
    exact ⟨rfl, howned, hord.acyclic, hcopies⟩
  | marredObject members => exact ⟨obj, rfl, rfl, hstands, howned, hord.acyclic, hcopies⟩
  | marredArray elems => exact ⟨obj, rfl, rfl, hstands, howned, hord.acyclic, hcopies⟩

/-- The tokener and its memory go on together, or end together. -/
def Together (lf : List Byte → Option (List Byte)) (lost : List Nat) :
    (HeapParsed × Memory) ⊕ TokenerHeap → JsonParsed ⊕ Tokener → Prop
  | .inr m, .inr t => m.tok = t ∧ m.Apart lf lost
  | .inl r, .inl parsed => Ends lost r.2 parsed r.1
  | _, _ => False

theorem retTo_together (tok : Tokener) {mem : Memory} {obj : Option Nat} {ptr : JsonPtr}
    {fs : List Activation} {ps : List Pointers} {lost : List Nat}
    (hm : mem.Returning obj ptr fs ps lost) (hptr : ptr.Returnable lf)
    (hsound : ∀ f ∈ fs, f.current.WellFormed lf)
    (hwaits : ∀ f ∈ fs, f.state = .array ∨ f.state = .objectValue) :
    Together lf lost (TokenerHeap.retTo tok mem ptr obj fs ps) (tok.retTo ptr fs) := by
  induction fs generalizing mem obj ptr ps with
  | nil => exact hm.ends
  | cons f fs ih =>
    obtain ⟨hf, hsound⟩ := List.forall_mem_cons.mp hsound
    obtain ⟨hst, hwaits⟩ := List.forall_mem_cons.mp hwaits
    obtain ⟨p, ps, rfl, hfits⟩ : ∃ p ps', ps = p :: ps' ∧ f.Fits := by
      obtain ⟨n, -, -, hstack⟩ := hm.stack
      cases hstack with
      | cons _ _ _ fits => exact ⟨_, _, rfl, fits⟩
    rw [TokenerHeap.retTo, Tokener.retTo]
    rcases hptr with hptr | ⟨e, rfl⟩
    · rw [err_of_wellFormed hptr]
      dsimp only
      cases hresume : f.resume ptr with
      | none => exact rfl
      | some f' =>
        have hwf : f'.current.WellFormed lf := Activation.resume_wellFormed hf hptr hresume
        refine ⟨rfl, ⟨hwf, hsound⟩, hwaits, ?_, hm.marred_resume hresume hst hfits⟩
        rcases hst with hst | hst
        · exact hm.add_array hresume hst
        · exact hm.add_object hresume hst hf
    · rw [err_constPtr]
      dsimp only
      unfold Activation.out
      split_ifs
      · -- the caller is left at `out` as well
        have hobj : obj = none := hm.stands
        obtain ⟨n, -, -, hstack⟩ := hm.stack
        have hnone : mem.heap.Owned (Pointers.held (p :: ps) ++ lost) := by
          have howned := hm.owned
          rwa [hobj] at howned
        have hout := (Memory.Apart.mk hnone hm.ordered hstack.of_take hm.copies).out
          (errorPtr e.num)
        exact ih hout (.inl ⟨e, rfl⟩) hsound hwaits
      · exact rfl

/-- The marker of an error is one of two, and no object. -/
theorem Activation.fail_marker {f : Activation} {e : JsonTokenerError} {ptr : JsonPtr}
    (h : f.fail e = some ptr) : (∃ err, ptr = .marker err) ∧ ptr.Returnable lf := by
  refine ⟨?_, Activation.fail_returnable h⟩
  unfold Activation.fail Activation.out at h
  split at h
  · cases h
    exact ⟨_, rfl⟩
  · cases h
    exact ⟨_, rfl⟩
  · split_ifs at h
    cases h
    exact ⟨_, rfl⟩
  · split_ifs at h
    cases h
    exact ⟨_, rfl⟩

theorem Tokener.keyless_iff {t : Tokener} {c : Byte} {rest : List Byte} (hr : t.rest = c :: rest) :
    t.keyless = true ↔ t.frame.state = .objectFieldEnd ∧ c ≠ 58 := by
  simp [Tokener.keyless, hr]

section

variable {m : TokenerHeap} {lost : List Nat} (hm : m.Apart lf lost)

include hm

theorem TokenerHeap.Apart.leave {mem : Memory} {lost' : List Nat} {ptr : Option JsonPtr}
    (hmem : ∀ err, mem.Returning none (.marker err) m.tok.callers m.callers lost')
    (hmarker : ∀ p, ptr = some p → (∃ err, p = .marker err) ∧ p.Returnable lf) :
    Together lf lost' (m.leave mem ptr) (m.tok.leave ptr) := by
  cases ptr with
  | none => exact rfl
  | some ptr =>
    obtain ⟨⟨err, rfl⟩, hptr⟩ := hmarker ptr rfl
    exact retTo_together m.tok (hmem err) hptr hm.sound.2 hm.waits

theorem TokenerHeap.Apart.exit : Together lf lost m.exit m.tok.exit := by
  rw [TokenerHeap.exit, Tokener.exit]
  split_ifs with hend
  · refine hm.leave hm.memory.out fun ptr hout => ⟨?_, .inl (Activation.out_returnable hout)⟩
    unfold Activation.out at hout
    split_ifs at hout
    cases hout
    exact ⟨_, rfl⟩
  · exact retTo_together m.tok (hm.memory.returning hm.marred) (.inl hm.sound.1) hm.sound.2 hm.waits

/-- An error with which nothing is lost. -/
theorem TokenerHeap.Apart.fail (hst : m.tok.frame.state ≠ .objectFieldEnd) (e : JsonTokenerError) :
    Together lf lost (m.leave m.failed (m.tok.frame.fail e))
      (m.tok.leave (m.tok.frame.fail e)) := by
  refine hm.leave (fun err => ?_) fun ptr hfail => Activation.fail_marker hfail
  have hmem := hm.memory
  have hstack := hmem.stack
  cases hstack with
  | cons n stands named fits le mark rest =>
    have hhas : m.tok.frame.phase.Has m.tok.frame.current := fits
    unfold TokenerHeap.failed
    split
    next hnull =>
      have hphase : m.tok.frame.phase = .null := by rw [Activation.phase, hnull]
      rw [hphase] at hhas named
      have hcurrent : m.tok.frame.current = .obj .null := hhas
      rw [hcurrent] at stands
      exact hmem.skip named (Holds.null_iff.mp stands) err
    next hfield => exact absurd hfield hst
    next harray =>
      have hphase : m.tok.frame.phase = .arraySep := by rw [Activation.phase, harray]
      rw [hphase] at named
      exact hmem.put named err
    next => exact hmem.out err

/-- An error with which the object and the copy of its key are lost. -/
theorem TokenerHeap.Apart.lose (hst : m.tok.frame.state = .objectFieldEnd) (e : JsonTokenerError) :
    ∃ obj, Together lf (obj :: lost) (m.leave m.failed (m.tok.frame.fail e))
      (m.tok.leave (m.tok.frame.fail e)) := by
  have hmem := hm.memory
  have hstack := hmem.stack
  have hwf := hm.sound.1
  cases hstack with
  | cons n stands named fits le mark rest =>
    have hphase : m.tok.frame.phase = .objectFieldEnd := by rw [Activation.phase, hst]
    have hhas : m.tok.frame.phase.Has m.tok.frame.current := fits
    rw [hphase] at hhas named
    obtain ⟨obj, entries, hcurrent, -⟩ := stands.object hhas hwf
    have hfailed : m.failed = m.mem := by rw [TokenerHeap.failed, hst]
    rw [hfailed]
    exact ⟨obj, hm.leave (hmem.lose named hcurrent) fun ptr hfail => Activation.fail_marker hfail⟩

/-- A cycle keeps the calls apart, and loses something at a key without a colon. -/
theorem cycleHeap_together : ∃ lost' : List Nat,
    lost'.length = lost.length + m.tok.keyless.toNat ∧
      Together lf lost' (cycleHeap lf m) (cycle lf m.tok) := by
  have hfits : m.tok.frame.Fits := by
    cases hm.memory.stack with
    | cons n stands named fits le mark rest => exact fits
  unfold cycleHeap cycle
  cases hrest : m.tok.rest with
  | nil => exact ⟨lost, by simp [Tokener.keyless, hrest], rfl⟩
  | cons c rest =>
    have hdoes := iter_does lf hfits c
    have hsound := iter_sound hm.sound c
    dsimp only
    by_cases hkey : m.tok.frame.state = .objectFieldEnd ∧ c ≠ 58
    · have hiter : iter lf m.tok c = .error .parseObject := by
        simp only [iter, hkey.1, if_neg hkey.2]
      rw [hiter, (Tokener.keyless_iff hrest).mpr hkey]
      obtain ⟨obj, htogether⟩ := hm.lose hkey.1 .parseObject
      exact ⟨obj :: lost, rfl, htogether⟩
    · have hnone : m.tok.keyless = false := by
        rw [← Bool.not_eq_true, Tokener.keyless_iff hrest]
        exact hkey
      refine ⟨lost, by rw [hnone]; rfl, ?_⟩
      cases haction : iter lf m.tok c with
      | next t =>
        rw [haction] at hdoes hsound
        have hpass := hm.pass hdoes hsound
        dsimp only
        split_ifs
        · exact hpass.exit
        · exact ⟨rfl, hpass⟩
      | call t =>
        rw [haction] at hdoes
        obtain ⟨rfl, hst⟩ := hdoes
        exact ⟨rfl, hm.call hst⟩
      | out ptr =>
        rw [haction] at hdoes
        obtain ⟨rfl, -⟩ := hdoes
        exact retTo_together m.tok (hm.memory.returning hm.marred) (.inl hm.sound.1) hm.sound.2
          hm.waits
      | error e =>
        refine hm.fail (fun hst => ?_) e
        have hc : c = 58 := by
          by_contra hc
          exact hkey ⟨hst, hc⟩
        simp only [iter, hst, hc, if_true] at haction
        cases haction

end

theorem runTokenerHeap_ends {n : Nat} {m : TokenerHeap} {lost : List Nat} {parsed : JsonParsed}
    (hm : m.Apart lf lost) (hrun : runTokener lf n m.tok = some parsed) :
    ∃ r lost', runTokenerHeap lf n m = some r ∧
      lost'.length = lost.length + countKeyless lf n m.tok ∧ Ends lost' r.2 parsed r.1 := by
  induction n generalizing m lost with
  | zero => cases hrun
  | succ n ih =>
    obtain ⟨lost₁, hlen, hcycle⟩ := cycleHeap_together hm
    rw [runTokener] at hrun
    rw [runTokenerHeap, countKeyless]
    cases htok : cycle lf m.tok with
    | inl parsed' =>
      rw [htok] at hrun hcycle
      cases hrun
      cases hheap : cycleHeap lf m with
      | inl r =>
        rw [hheap] at hcycle
        exact ⟨r, lost₁, rfl, hlen, hcycle⟩
      | inr m' =>
        rw [hheap] at hcycle
        exact hcycle.elim
    | inr t' =>
      rw [htok] at hrun hcycle
      cases hheap : cycleHeap lf m with
      | inl r =>
        rw [hheap] at hcycle
        exact hcycle.elim
      | inr m' =>
        rw [hheap] at hcycle
        obtain ⟨rfl, hm'⟩ := hcycle
        obtain ⟨r, lost', hr, hlen', hends⟩ := ih hm' hrun
        exact ⟨r, lost', hr, by rw [hlen', hlen, Nat.add_assoc], hends⟩

theorem jsonTokenerParseHeap_ends (lf : List Byte → Option (List Byte)) (source : List Byte) :
    ∃ lost : List Nat, lost.length = keylessIn lf source ∧
      Ends lost (jsonTokenerParseHeap lf source).2 (jsonTokenerParse lf source)
        (jsonTokenerParseHeap lf source).1 := by
  have hweight : (Tokener.init source).weight < 6 * source.length + 6 := by
    show 6 * source.length + 1 < _
    omega
  have hsome : (runTokener lf (6 * source.length + 6) (.init source)).isSome :=
    runTokener_isSome (Tokener.ok_init source) hweight
  obtain ⟨parsed, hrun⟩ := Option.isSome_iff_exists.mp hsome
  obtain ⟨r, lost, hheap, hlen, hends⟩ := runTokenerHeap_ends (TokenerHeap.apart_init source) hrun
  refine ⟨lost, hlen.trans (Nat.zero_add _), ?_⟩
  rw [jsonTokenerParseHeap, jsonTokenerParse, hheap, hrun]
  exact hends

/-- What `json_tokener_parse` leaves for any text that it comes to the end of: a value with its one
reference and nothing else; and after an error, or under a marker that it has taken for an object,
one object that nobody has and one copy of a key for each key without a colon. -/
theorem jsonTokenerParse_memory (lf : List Byte → Option (List Byte)) (source : List Byte) :
    (∀ v, jsonTokenerParse lf source = .value v →
      ∃ p mem, jsonTokenerParseHeap lf source = (.pointer p, mem) ∧ Holds mem.heap.nodes p v ∧
        mem.heap.Owned p.toList ∧ mem.heap.Acyclic ∧ mem.copies = 0) ∧
    (∀ e, jsonTokenerParse lf source = .error e →
      ∃ mem lost, jsonTokenerParseHeap lf source = (.error e, mem) ∧ mem.heap.Owned lost ∧
        mem.heap.Acyclic ∧ lost.length = keylessIn lf source ∧ mem.copies = keylessIn lf source ∧
        (Released mem.heap.counts ↔ keylessIn lf source = 0)) ∧
    (∀ ptr, jsonTokenerParse lf source = .marred ptr →
      ∃ p mem lost, jsonTokenerParseHeap lf source = (.marred p, mem) ∧
        Stands mem.heap.nodes p ptr ∧ mem.heap.Owned (p.toList ++ lost) ∧ mem.heap.Acyclic ∧
        lost.length = keylessIn lf source ∧ mem.copies = keylessIn lf source) := by
  obtain ⟨lost, hlen, hends⟩ := jsonTokenerParseHeap_ends lf source
  refine ⟨fun v hv => ?_, fun e he => ?_, fun ptr hptr => ?_⟩
  · rw [hv] at hends
    obtain ⟨p, hpointer, hp⟩ := hends
    exact ⟨p, _, Prod.ext hpointer rfl, hp⟩
  · rw [he] at hends
    obtain ⟨herror, howned, hacyclic, hcopies⟩ := hends
    refine ⟨_, lost, Prod.ext herror rfl, howned, hacyclic, hlen, hcopies.trans hlen, ?_⟩
    cases lost with
    | nil => exact iff_of_true (howned.released hacyclic) hlen.symm
    | cons obj lost =>
      refine iff_of_false (howned.not_released List.mem_cons_self) fun hzero => ?_
      rw [hzero] at hlen
      cases hlen
  · rw [hptr] at hends
    obtain ⟨p, hmarred, -, hstands, howned, hacyclic, hcopies⟩ := hends
    exact ⟨p, _, lost, Prod.ext hmarred rfl, hstands, howned, hacyclic, hlen, hcopies.trans hlen⟩

/-- A key and a bracket. -/
theorem jsonTokenerParse_memory_bracket : ∃ e mem,
    jsonTokenerParseHeap some (lit "\x7b'a'\x7d" ++ [0]) = (.error e, mem) ∧ mem.copies = 1 ∧
      ¬ Released mem.heap.counts := by
  have hparse : jsonTokenerParse some (lit "\x7b'a'\x7d" ++ [0]) =
      .error JsonTokenerError.parseObject.constPtr := by rfl
  have hcount : keylessIn some (lit "\x7b'a'\x7d" ++ [0]) = 1 := by decide
  obtain ⟨mem, lost, hheap, -, -, -, hcopies, hreleased⟩ :=
    (jsonTokenerParse_memory some _).2.1 _ hparse
  refine ⟨_, mem, hheap, hcopies.trans hcount, fun h => ?_⟩
  rw [hreleased, hcount] at h
  cases h

/-! ## `json_check_srv_resp` -/

end PamSmsauth
