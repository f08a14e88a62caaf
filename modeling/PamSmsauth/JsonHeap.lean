import Mathlib.Data.List.ReduceOption
import PamSmsauth.JsonObject
import PamSmsauth.Lib.RefCount

/-!
# The memory of the bundled JSON objects (`json/json_object.c`)

The objects of `JsonObject` as they lie in memory: each has an address and a count of references,
its members are pointers, and `none` is the NULL pointer. `json_object_object_add` takes over the
reference of its caller, `json_object_put` lowers a count and deletes the object when that makes it
0; what the object has for members is then put in turn (`put_some`). An object that was deleted
stays where it is with the count 0.

`Owned` says which references the code has that no object has. A heap can hold every value there is
(`exists_holds`).
-/

namespace PamSmsauth

open CText RefCount

/-- The type of an object and its union `o`. -/
inductive JsonNode where
  | boolean (b : Bool)
  | double (lf : List Byte)
  | int (i : Int)
  | object (entries : List (List Byte × Option Nat))
  | array (elems : List (Option Nat))
  | string (s : List Byte)

/-- What `_delete` puts. -/
def JsonNode.values : JsonNode → List (Option Nat)
  | .object entries => entries.map Prod.snd
  | .array elems => elems
  | _ => []

/-- The node of an address is at its index. -/
structure JsonHeap where
  nodes : List JsonNode
  counts : Counts Nat

namespace JsonHeap

def empty : JsonHeap := ⟨[], .empty⟩

def values (h : JsonHeap) (a : Nat) : List (Option Nat) := (h.nodes[a]?).elim [] JsonNode.values

/-- The references that an object owns. -/
def members (h : JsonHeap) (a : Nat) : List Nat := (h.values a).reduceOption

/-- `json_object_new` and what is stored in the new object; `ok` when `calloc` finds memory for it.
-/
def new (h : JsonHeap) (ok : Bool) (node : JsonNode) : Option Nat × JsonHeap :=
  if ok then (some h.nodes.length, ⟨h.nodes ++ [node], h.counts.alloc h.nodes.length⟩)
  else (none, h)

/-- `json_object_put`. -/
def put (h : JsonHeap) : Option Nat → JsonHeap
  | none => h
  | some a => { h with counts := release h.members h.counts [a] }

def setNode (h : JsonHeap) (a : Nat) (node : JsonNode) : JsonHeap :=
  { h with nodes := h.nodes.set a node }

/-- `lh_table_delete`, with `json_object_lh_entry_free`. -/
def lhTableDelete (h : JsonHeap) (this : Nat) (key : List Byte) : JsonHeap :=
  match h.nodes[this]? with
  | some (.object entries) =>
    match entries.find? (·.1 = key) with
    | some e => (h.put e.2).setNode this (.object (entries.filter (·.1 ≠ key)))
    | none => h
  | _ => h

def lhTableInsert (h : JsonHeap) (this : Nat) (key : List Byte) (val : Option Nat) : JsonHeap :=
  match h.nodes[this]? with
  | some (.object entries) => h.setNode this (.object (entries ++ [(key, val)]))
  | _ => h

/-- `json_object_object_add`. -/
def objectAdd (h : JsonHeap) (this : Nat) (key : List Byte) (val : Option Nat) : JsonHeap :=
  (h.lhTableDelete this (cstr key)).lhTableInsert this (cstr key) val

/-! ## One put -/

def lower (h : JsonHeap) (a : Nat) : JsonHeap := { h with counts := h.counts.lower a }

theorem foldl_put (h : JsonHeap) (l : List (Option Nat)) : l.foldl put h =
    { h with counts := release h.members h.counts l.reduceOption } := by
  induction l generalizing h with
  | nil => rw [List.foldl_nil, List.reduceOption_nil, release_nil]
  | cons p l ih =>
    rw [List.foldl_cons, ih]
    cases p with
    | none => rw [List.reduceOption_cons_of_none]; rfl
    | some a =>
      rw [List.reduceOption_cons_of_some, ← List.singleton_append, release_append]
      rfl

/-- The count is lowered, and when it is 0 then the object is deleted. -/
theorem put_some (h : JsonHeap) (a : Nat) : h.put (some a) =
    if (h.lower a).counts.count a = 0 then (h.values a).foldl put (h.lower a) else h.lower a := by
  have hcount : (h.lower a).counts.count a = h.counts.count a - 1 := by
    show (h.counts.lower a).count a = _
    rw [Counts.lower_count, if_pos rfl]
  rw [put, release_cons, List.append_nil, release_nil, foldl_put]
  by_cases hone : h.counts.count a = 1
  · rw [if_pos hone, if_pos (by omega)]
    rfl
  · rw [if_neg hone, if_neg (by omega)]
    rfl

/-! ## Who owns what -/

/-- Every reference is counted; the ones in `held` are the code's, the others belong to objects. -/
structure Owned (h : JsonHeap) (held : List Nat) : Prop where
  balanced : Balanced h.members h.counts held
  fresh : ∀ a, h.nodes.length ≤ a → h.counts.count a = 0
  faults : h.counts.faults = []

theorem Owned.empty : JsonHeap.empty.Owned [] := by
  refine ⟨?_, fun _ _ => rfl, rfl⟩
  exact Balanced.empty

variable {h : JsonHeap} {held : List Nat}

theorem Owned.pos_of_mem (ho : h.Owned held) {a : Nat} (ha : a ∈ held) : 0 < h.counts.count a := by
  have hcount := ho.balanced.count_eq a
  have howned := owned_nonneg h.members h.counts a
  have hpos := List.count_pos_iff.mpr ha
  omega

theorem Owned.lt_of_mem (ho : h.Owned held) {a : Nat} (ha : a ∈ held) : a < h.nodes.length := by
  by_contra hle
  have hpos := ho.pos_of_mem ha
  rw [ho.fresh a (not_lt.mp hle)] at hpos
  exact absurd hpos (lt_irrefl 0)

theorem members_of_getElem? {h' : JsonHeap} {a : Nat} (hget : h'.nodes[a]? = h.nodes[a]?) :
    h'.members a = h.members a := by
  rw [members, values, hget, members, values]

theorem getElem?_new {a : Nat} (ok : Bool) (node : JsonNode) (ha : a ≠ h.nodes.length) :
    (h.new ok node).2.nodes[a]? = h.nodes[a]? := by
  cases ok with
  | false => rfl
  | true =>
    show (h.nodes ++ [node])[a]? = h.nodes[a]?
    rcases Nat.lt_or_gt_of_ne ha with hlt | hgt
    · exact List.getElem?_append_left hlt
    · rw [List.getElem?_eq_none (by simp; omega), List.getElem?_eq_none (by omega)]

theorem members_new (h : JsonHeap) (node : JsonNode) :
    (h.new true node).2.members h.nodes.length = node.values.reduceOption := by
  have hget : (h.new true node).2.nodes[h.nodes.length]? = some node :=
    List.getElem?_concat_length
  rw [members, values, hget, Option.elim_some]

/-- The new object takes over what is stored in it. -/
theorem Owned.new (node : JsonNode) (ho : h.Owned (node.values.reduceOption ++ held)) :
    (h.new true node).2.Owned (h.nodes.length :: held) := by
  refine ⟨?_, ?_, ho.faults⟩
  · have hnew : Balanced h.members h.counts
        ((h.new true node).2.members h.nodes.length ++ held) := by
      rw [members_new]
      exact ho.balanced
    exact hnew.alloc (ho.fresh _ le_rfl) fun b hb =>
      members_of_getElem? (getElem?_new true node hb)
  · intro a ha
    have hlen : (h.new true node).2.nodes.length = h.nodes.length + 1 := by
      simp [JsonHeap.new]
    rw [hlen] at ha
    show Function.update h.counts.count h.nodes.length 1 a = 0
    rw [Function.update_of_ne (by omega)]
    exact ho.fresh a (by omega)

/-- An object with nothing in it, or no object. -/
theorem Owned.new_leaf (ho : h.Owned held) (ok : Bool) {node : JsonNode}
    (hnode : node.values = []) : (h.new ok node).2.Owned ((h.new ok node).1.toList ++ held) := by
  cases ok with
  | false => exact ho
  | true => exact Owned.new node (by rwa [hnode])

theorem getElem?_objectAdd {this a : Nat} (ha : a ≠ this) (key : List Byte) (val : Option Nat) :
    (h.objectAdd this key val).nodes[a]? = h.nodes[a]? := by
  have hset (h : JsonHeap) (node : JsonNode) : (h.setNode this node).nodes[a]? = h.nodes[a]? :=
    List.getElem?_set_ne (Ne.symm ha)
  have hput (h : JsonHeap) (p : Option Nat) : (h.put p).nodes = h.nodes := by cases p <;> rfl
  have hdelete : (h.lhTableDelete this (cstr key)).nodes[a]? = h.nodes[a]? := by
    unfold lhTableDelete
    split
    · split
      · rw [hset, hput]
      · rfl
    · rfl
  rw [objectAdd, ← hdelete]
  unfold lhTableInsert
  split
  · exact hset _ _
  · rfl

section Add

variable {this : Nat} {key : List Byte} {entries : List (List Byte × Option Nat)}
  (hthis : h.nodes[this]? = some (.object entries)) (hkey : cstr key ∉ entries.map Prod.fst)
  (val : Option Nat)

include hthis hkey

theorem objectAdd_of_fresh :
    h.objectAdd this key val = h.setNode this (.object (entries ++ [(cstr key, val)])) := by
  have hfind : entries.find? (fun e => e.1 = cstr key) = none := by
    rw [List.find?_eq_none]
    intro e he heq
    exact hkey (List.mem_map.mpr ⟨e, he, by simpa using heq⟩)
  have hdelete : h.lhTableDelete this (cstr key) = h := by
    simp only [lhTableDelete, hthis, hfind]
  rw [objectAdd, hdelete, lhTableInsert, hthis]

theorem getElem?_objectAdd_self : (h.objectAdd this key val).nodes[this]? =
    some (.object (entries ++ [(cstr key, val)])) := by
  obtain ⟨hlt, -⟩ := List.getElem?_eq_some_iff.mp hthis
  rw [objectAdd_of_fresh hthis hkey, setNode, List.getElem?_set_self hlt]

theorem members_objectAdd_self :
    (h.objectAdd this key val).members this = h.members this ++ val.toList := by
  have hval : [val].reduceOption = val.toList := by cases val <;> rfl
  simp only [members, values, getElem?_objectAdd_self hthis hkey val, hthis, Option.elim_some,
    JsonNode.values, List.map_append, List.map_cons, List.map_nil, List.reduceOption_append, hval]

variable {val}

/-- The object takes over the reference of the caller. -/
theorem Owned.objectAdd (ho : h.Owned (val.toList ++ held)) (hmem : this ∈ held) :
    (h.objectAdd this key val).Owned held := by
  have hpos := ho.pos_of_mem (List.mem_append_right val.toList hmem)
  have hcounts : (h.objectAdd this key val).counts = h.counts := by
    rw [objectAdd_of_fresh hthis hkey]
    rfl
  have hlen : (h.objectAdd this key val).nodes.length = h.nodes.length := by
    rw [objectAdd_of_fresh hthis hkey]
    exact List.length_set
  refine ⟨?_, ?_, ?_⟩
  · rw [hcounts]
    exact ho.balanced.give hpos (members_objectAdd_self hthis hkey val) fun b hb =>
      members_of_getElem? (getElem?_objectAdd hb key val)
  · rw [hcounts, hlen]
    exact ho.fresh
  · rw [hcounts]
    exact ho.faults

end Add

theorem Owned.perm {held' : List Nat} (ho : h.Owned held) (hperm : held'.Perm held) :
    h.Owned held' :=
  ⟨ho.balanced.perm hperm, ho.fresh, ho.faults⟩

/-- No object is a member of itself, nor of its members, and so on. -/
def Acyclic (h : JsonHeap) : Prop := WellFounded fun b a => a ∈ h.members b

/-- Members were made before the objects that have them. -/
def Descending (h : JsonHeap) : Prop := ∀ a, ∀ b ∈ h.members a, b < a

theorem Descending.acyclic (hd : h.Descending) : h.Acyclic := by
  refine Subrelation.wf ?_ (measure fun a => h.nodes.length - a).wf
  intro b a hab
  have hlt : b < h.nodes.length := by
    by_contra hle
    rw [members, values, List.getElem?_eq_none (not_lt.mp hle)] at hab
    cases hab
  have := hd b a hab
  show h.nodes.length - b < h.nodes.length - a
  omega

theorem Descending.new (hd : h.Descending) {node : JsonNode}
    (ho : h.Owned (node.values.reduceOption ++ held)) : (h.new true node).2.Descending := by
  intro a b hb
  by_cases ha : a = h.nodes.length
  · rw [ha, members_new] at hb
    rw [ha]
    exact ho.lt_of_mem (List.mem_append_left held hb)
  · rw [members_of_getElem? (getElem?_new true node ha)] at hb
    exact hd a b hb

end JsonHeap

/-! ## The value of a pointer -/

/-- The value of an object that has no members. -/
def JsonNode.leaf : JsonNode → Option JsonObject
  | .boolean b => some (.boolean b)
  | .double lf => some (.double lf)
  | .int i => some (.int i)
  | .string s => some (.string s)
  | _ => none

mutual

/-- The pointer stands for the value. -/
inductive Holds (nodes : List JsonNode) : Option Nat → JsonObject → Prop
  | null : Holds nodes none .null
  | leaf {a : Nat} {node : JsonNode} {v : JsonObject} (hnode : nodes[a]? = some node)
      (hv : node.leaf = some v) : Holds nodes (some a) v
  | object {a : Nat} {entries : List (List Byte × Option Nat)}
      {members : List (List Byte × JsonObject)} (hnode : nodes[a]? = some (.object entries))
      (hentries : HoldsEntries nodes entries members) : Holds nodes (some a) (.object members)
  | array {a : Nat} {ptrs : List (Option Nat)} {elems : List JsonObject}
      (hnode : nodes[a]? = some (.array ptrs)) (helems : HoldsElems nodes ptrs elems) :
      Holds nodes (some a) (.array elems)

inductive HoldsEntries (nodes : List JsonNode) :
    List (List Byte × Option Nat) → List (List Byte × JsonObject) → Prop
  | nil : HoldsEntries nodes [] []
  | cons {key : List Byte} {p : Option Nat} {v : JsonObject}
      {entries : List (List Byte × Option Nat)} {members : List (List Byte × JsonObject)}
      (hv : Holds nodes p v) (hrest : HoldsEntries nodes entries members) :
      HoldsEntries nodes ((key, p) :: entries) ((key, v) :: members)

inductive HoldsElems (nodes : List JsonNode) : List (Option Nat) → List JsonObject → Prop
  | nil : HoldsElems nodes [] []
  | cons {p : Option Nat} {v : JsonObject} {ptrs : List (Option Nat)} {elems : List JsonObject}
      (hv : Holds nodes p v) (hrest : HoldsElems nodes ptrs elems) :
      HoldsElems nodes (p :: ptrs) (v :: elems)

end

theorem getElem?_of_isPrefix {nodes nodes' : List JsonNode} (hpre : nodes <+: nodes') {a : Nat}
    {node : JsonNode} (h : nodes[a]? = some node) : nodes'[a]? = some node := by
  obtain ⟨tail, rfl⟩ := hpre
  obtain ⟨hlt, -⟩ := List.getElem?_eq_some_iff.mp h
  rw [List.getElem?_append_left hlt, h]

mutual

/-- New objects change nothing in the old ones. -/
theorem Holds.mono {nodes nodes' : List JsonNode} (hpre : nodes <+: nodes') {p : Option Nat}
    {v : JsonObject} : Holds nodes p v → Holds nodes' p v
  | .null => .null
  | .leaf hnode hv => .leaf (getElem?_of_isPrefix hpre hnode) hv
  | .object hnode hentries => .object (getElem?_of_isPrefix hpre hnode) (hentries.mono hpre)
  | .array hnode helems => .array (getElem?_of_isPrefix hpre hnode) (helems.mono hpre)

theorem HoldsEntries.mono {nodes nodes' : List JsonNode} (hpre : nodes <+: nodes')
    {entries : List (List Byte × Option Nat)} {members : List (List Byte × JsonObject)} :
    HoldsEntries nodes entries members → HoldsEntries nodes' entries members
  | .nil => .nil
  | .cons hv hrest => .cons (hv.mono hpre) (hrest.mono hpre)

theorem HoldsElems.mono {nodes nodes' : List JsonNode} (hpre : nodes <+: nodes')
    {ptrs : List (Option Nat)} {elems : List JsonObject} :
    HoldsElems nodes ptrs elems → HoldsElems nodes' ptrs elems
  | .nil => .nil
  | .cons hv hrest => .cons (hv.mono hpre) (hrest.mono hpre)

end

theorem perm_reduceOption_cons (p : Option Nat) (l : List (Option Nat)) (held : List Nat) :
    ((p :: l).reduceOption ++ held).Perm (l.reduceOption ++ (p.toList ++ held)) := by
  have hcons : (p :: l).reduceOption = p.toList ++ l.reduceOption := by
    cases p with
    | none => exact List.reduceOption_cons_of_none l
    | some a => exact List.reduceOption_cons_of_some a l
  rw [hcons, List.append_assoc]
  exact List.perm_append_comm_assoc _ _ _

theorem exists_leaf {h : JsonHeap} {held : List Nat} (ho : h.Owned held) (hd : h.Descending)
    (node : JsonNode) {v : JsonObject} (hnode : node.values = [])
    (hv : node.leaf = some v) : ∃ p h', h.nodes <+: h'.nodes ∧ Holds h'.nodes p v ∧
      JsonHeap.Owned h' (p.toList ++ held) ∧ JsonHeap.Descending h' := by
  have ho' : h.Owned (node.values.reduceOption ++ held) := by rwa [hnode]
  exact ⟨_, _, List.prefix_append _ _, .leaf List.getElem?_concat_length hv, ho'.new node,
    hd.new ho'⟩

mutual

/-- There is room for every value, next to what is in the heap. -/
theorem exists_holds {h : JsonHeap} {held : List Nat} (ho : h.Owned held) (hd : h.Descending) :
    ∀ v : JsonObject, ∃ p h', h.nodes <+: h'.nodes ∧ Holds h'.nodes p v ∧
      JsonHeap.Owned h' (p.toList ++ held) ∧ JsonHeap.Descending h'
  | .null => ⟨none, h, List.prefix_refl _, .null, ho, hd⟩
  | .boolean b => exists_leaf ho hd (.boolean b) rfl rfl
  | .double lf => exists_leaf ho hd (.double lf) rfl rfl
  | .int i => exists_leaf ho hd (.int i) rfl rfl
  | .string s => exists_leaf ho hd (.string s) rfl rfl
  | .object members => by
    obtain ⟨entries, h', hpre, hentries, ho', hd'⟩ := exists_holdsEntries ho hd members
    have hext : h'.nodes <+: h'.nodes ++ [.object entries] := List.prefix_append _ _
    exact ⟨_, _, hpre.trans hext, .object List.getElem?_concat_length (hentries.mono hext),
      ho'.new (.object entries), hd'.new ho'⟩
  | .array elems => by
    obtain ⟨ptrs, h', hpre, helems, ho', hd'⟩ := exists_holdsElems ho hd elems
    have hext : h'.nodes <+: h'.nodes ++ [.array ptrs] := List.prefix_append _ _
    exact ⟨_, _, hpre.trans hext, .array List.getElem?_concat_length (helems.mono hext),
      ho'.new (.array ptrs), hd'.new ho'⟩

theorem exists_holdsEntries {h : JsonHeap} {held : List Nat} (ho : h.Owned held)
    (hd : h.Descending) : ∀ members : List (List Byte × JsonObject), ∃ entries h',
      h.nodes <+: h'.nodes ∧ HoldsEntries h'.nodes entries members ∧
      JsonHeap.Owned h' ((entries.map Prod.snd).reduceOption ++ held) ∧ JsonHeap.Descending h'
  | [] => ⟨[], h, List.prefix_refl _, .nil, ho, hd⟩
  | (key, v) :: members => by
    obtain ⟨p, h₁, hpre₁, hv, ho₁, hd₁⟩ := exists_holds ho hd v
    obtain ⟨entries, h₂, hpre₂, hentries, ho₂, hd₂⟩ := exists_holdsEntries ho₁ hd₁ members
    exact ⟨(key, p) :: entries, h₂, hpre₁.trans hpre₂, .cons (hv.mono hpre₂) hentries,
      ho₂.perm (perm_reduceOption_cons p (entries.map Prod.snd) held), hd₂⟩

theorem exists_holdsElems {h : JsonHeap} {held : List Nat} (ho : h.Owned held)
    (hd : h.Descending) : ∀ elems : List JsonObject, ∃ ptrs h', h.nodes <+: h'.nodes ∧
      HoldsElems h'.nodes ptrs elems ∧ JsonHeap.Owned h' (ptrs.reduceOption ++ held) ∧
      JsonHeap.Descending h'
  | [] => ⟨[], h, List.prefix_refl _, .nil, ho, hd⟩
  | v :: elems => by
    obtain ⟨p, h₁, hpre₁, hv, ho₁, hd₁⟩ := exists_holds ho hd v
    obtain ⟨ptrs, h₂, hpre₂, helems, ho₂, hd₂⟩ := exists_holdsElems ho₁ hd₁ elems
    exact ⟨p :: ptrs, h₂, hpre₁.trans hpre₂, .cons (hv.mono hpre₂) helems,
      ho₂.perm (perm_reduceOption_cons p ptrs held), hd₂⟩

end

end PamSmsauth
