import PamSmsauth.Release

/-!
# Objects that grow in memory (`json/json_object.c`)

What `json_object_object_add` and `json_object_array_add` do to an object that the code holds,
whatever it has already: a value that was there under the key is put, and the reference of the
caller is taken over (`Owned.objectAdd_any`, `Owned.arrayAdd`). The pointer stands for the value
that the functions on values give (`holds_objectAdd`, `holds_arrayAdd`).
-/

namespace PamSmsauth

open CText RefCount

namespace JsonHeap

/-- `json_object_array_add`. -/
def arrayAdd (h : JsonHeap) (this : Nat) (val : Option Nat) : JsonHeap :=
  match h.nodes[this]? with
  | some (.array elems) => h.setNode this (.array (elems ++ [val]))
  | _ => h

variable {h : JsonHeap} {held : List Nat} {this : Nat}

/-! ## What is put -/

theorem nodes_put (h : JsonHeap) (p : Option Nat) : (h.put p).nodes = h.nodes := by
  cases p <;> rfl

theorem members_put (h : JsonHeap) (p : Option Nat) : (h.put p).members = h.members := by
  cases p <;> rfl

theorem Owned.put {p : Option Nat} (ho : h.Owned (p.toList ++ held)) : (h.put p).Owned held := by
  cases p with
  | none => exact ho
  | some a =>
    have hbal : Balanced h.members h.counts ([a] ++ held) := ho.balanced
    have hend : Balanced h.members (h.put (some a)).counts held := hbal.release
    refine ⟨hend, fun b hb => ?_, hbal.faults_release_left.trans ho.faults⟩
    have hle := @count_release_le _ _ h.members h.counts [a] b
    rw [ho.fresh b hb] at hle
    exact le_antisymm hle (hend.count_nonneg b)

theorem Ordered.put (hord : h.Ordered) (p : Option Nat) : (h.put p).Ordered := by
  intro a b hb
  rw [members_put] at hb
  exact hord a b hb

/-! ## What an object is set to -/

section SetNode

variable {node node' : JsonNode} (hthis : h.nodes[this]? = some node)

include hthis

theorem getElem?_setNode_self : (h.setNode this node').nodes[this]? = some node' :=
  List.getElem?_set_self (List.getElem?_eq_some_iff.mp hthis).1

theorem members_setNode_self :
    (h.setNode this node').members this = node'.values.reduceOption := by
  rw [members, values, getElem?_setNode_self hthis]
  rfl

theorem members_self : h.members this = node.values.reduceOption := by
  rw [members, values, hthis]
  rfl

omit hthis in
theorem members_setNode {a : Nat} (ha : a ≠ this) :
    (h.setNode this node').members a = h.members a :=
  members_of_getElem? (List.getElem?_set_ne (Ne.symm ha))

theorem Ordered.setNode (hord : h.Ordered) (hvalues : ∀ b ∈ node'.values.reduceOption, this < b) :
    (h.setNode this node').Ordered := by
  intro a b hb
  by_cases ha : a = this
  · rw [ha, members_setNode_self hthis] at hb
    rw [ha]
    exact hvalues b hb
  · rw [members_setNode ha] at hb
    exact hord a b hb

variable {val : Option Nat} (hmem : this ∈ held)

include hmem

/-- The object takes over a reference of the code. -/
theorem Owned.setNode_give (ho : h.Owned (val.toList ++ held))
    (hvalues : node'.values.reduceOption = node.values.reduceOption ++ val.toList) :
    (h.setNode this node').Owned held := by
  refine ⟨?_, fun a ha => ho.fresh a ?_, ho.faults⟩
  · refine ho.balanced.give (ho.pos_of_mem (List.mem_append_right _ hmem)) ?_ fun b hb =>
      members_setNode hb
    rw [members_setNode_self hthis, members_self hthis, hvalues]
  · rwa [setNode, List.length_set] at ha

/-- The code takes over a reference of the object. -/
theorem Owned.setNode_take (ho : h.Owned held)
    (hvalues : node.values.reduceOption.Perm (val.toList ++ node'.values.reduceOption)) :
    (h.setNode this node').Owned (val.toList ++ held) := by
  refine ⟨?_, fun a ha => ho.fresh a ?_, ho.faults⟩
  · refine ho.balanced.take (ho.pos_of_mem hmem) ?_ fun b hb => members_setNode hb
    rw [members_setNode_self hthis, members_self hthis]
    exact hvalues
  · rwa [setNode, List.length_set] at ha

end SetNode

/-- What is put does not reach the object that it was a member of. -/
theorem put_setNode (hord : h.Ordered) {val : Option Nat} (hval : ∀ b ∈ val, this < b)
    (node : JsonNode) : (h.put val).setNode this node = (h.setNode this node).put val := by
  cases val with
  | none => rfl
  | some a =>
    have hrelease : release (h.setNode this node).members h.counts [a] =
        release h.members h.counts [a] := by
      apply release_congr fun b => this < b
      · intro b hb c hc
        exact hb.trans (hord b c hc)
      · intro b hb
        exact members_setNode (ne_of_gt hb)
      · intro b hb
        rw [List.mem_singleton.mp hb]
        exact hval a rfl
    show JsonHeap.mk _ (release h.members h.counts [a]) = _
    rw [← hrelease]
    rfl

/-! ## Growing -/

theorem Owned.arrayAdd {elems : List (Option Nat)} {val : Option Nat}
    (ho : h.Owned (val.toList ++ held)) (hmem : this ∈ held)
    (hthis : h.nodes[this]? = some (.array elems)) : (h.arrayAdd this val).Owned held := by
  rw [JsonHeap.arrayAdd, hthis]
  refine ho.setNode_give hthis hmem ?_
  have hval : [val].reduceOption = val.toList := by cases val <;> rfl
  rw [JsonNode.values, List.reduceOption_append, hval]
  rfl

/-- The value that an object has under a key. -/
def valueAt (entries : List (List Byte × Option Nat)) (key : List Byte) : Option Nat :=
  (entries.find? (·.1 = key)).bind Prod.snd

/-- Whether the key is there or not, the object is left with the other entries. -/
theorem lhTableDelete_of_object {entries : List (List Byte × Option Nat)}
    (hthis : h.nodes[this]? = some (.object entries)) (key : List Byte) :
    h.lhTableDelete this key =
      (h.put (valueAt entries key)).setNode this (.object (entries.filter (·.1 ≠ key))) := by
  simp only [lhTableDelete, hthis, valueAt]
  cases hfind : entries.find? fun e => e.1 = key with
  | some e => rfl
  | none =>
    have hfilter : entries.filter (fun e => e.1 ≠ key) = entries := by
      rw [List.filter_eq_self]
      intro e he
      simpa using List.find?_eq_none.mp hfind e he
    obtain ⟨hlt, hget⟩ := List.getElem?_eq_some_iff.mp hthis
    show h = h.setNode this (.object _)
    rw [hfilter, setNode, ← hget, List.set_getElem_self]

/-- The values of an object whose keys are different are the one under the key and the rest. -/
theorem reduceOption_perm {entries : List (List Byte × Option Nat)}
    (hkeys : (entries.map Prod.fst).Nodup) (key : List Byte) :
    (entries.map Prod.snd).reduceOption.Perm ((valueAt entries key).toList ++
      ((entries.filter (·.1 ≠ key)).map Prod.snd).reduceOption) := by
  induction entries with
  | nil => exact .refl _
  | cons e entries ih =>
    obtain ⟨k, p⟩ := e
    obtain ⟨hk, hrest⟩ := List.nodup_cons.mp hkeys
    by_cases hkey : k = key
    · have hfilter : entries.filter (fun e => e.1 ≠ key) = entries := by
        rw [List.filter_eq_self]
        rintro ⟨k', p'⟩ he
        have : k' ≠ key := fun heq => hk (List.mem_map.mpr ⟨(k', p'), he, heq.trans hkey.symm⟩)
        simpa using this
      rw [valueAt, List.find?_cons_of_pos (by simpa using hkey), List.filter_cons_of_neg (by simpa),
        hfilter]
      have := perm_reduceOption_cons p (entries.map Prod.snd) []
      rw [List.append_nil, List.append_nil] at this
      exact this.trans List.perm_append_comm
    · rw [valueAt, List.find?_cons_of_neg (by simpa using hkey), List.filter_cons_of_pos (by simpa)]
      have hcons (l : List (Option Nat)) : ((p :: l).reduceOption).Perm
          (p.toList ++ l.reduceOption) := by
        cases p with
        | none => rw [List.reduceOption_cons_of_none]; exact .refl _
        | some a => rw [List.reduceOption_cons_of_some]; exact .refl _
      refine (hcons _).trans (((ih hrest).append_left _).trans ?_)
      refine (List.perm_append_comm_assoc _ _ _).trans (.append_left _ ?_)
      exact (hcons _).symm

section ObjectAdd

variable {entries : List (List Byte × Option Nat)} {val : Option Nat}
  (hord : h.Ordered) (hthis : h.nodes[this]? = some (.object entries))

include hord hthis

theorem lt_of_mem_entries {e : List Byte × Option Nat} (he : e ∈ entries) :
    ∀ b ∈ e.2, this < b := by
  intro b hb
  apply hord this b
  rw [members_self hthis, JsonNode.values, List.reduceOption_mem_iff]
  exact List.mem_map.mpr ⟨e, he, hb⟩

theorem lt_of_mem_valueAt (key : List Byte) : ∀ b ∈ valueAt entries key, this < b := by
  intro b hb
  obtain ⟨e, hfind, he⟩ := Option.bind_eq_some_iff.mp hb
  exact lt_of_mem_entries hord hthis (List.mem_of_find?_eq_some hfind) b he

theorem Ordered.lhTableDelete (key : List Byte) : (h.lhTableDelete this key).Ordered := by
  rw [lhTableDelete_of_object hthis]
  refine (hord.put _).setNode (by rw [nodes_put, hthis]) ?_
  intro b hb
  rw [JsonNode.values, List.reduceOption_mem_iff] at hb
  obtain ⟨e, he, hb⟩ := List.mem_map.mp hb
  exact lt_of_mem_entries hord hthis (List.mem_filter.mp he).1 b hb

theorem Owned.lhTableDelete (hkeys : (entries.map Prod.fst).Nodup) (ho : h.Owned held)
    (hmem : this ∈ held) (key : List Byte) : (h.lhTableDelete this key).Owned held := by
  rw [lhTableDelete_of_object hthis, put_setNode hord (lt_of_mem_valueAt hord hthis key)]
  refine Owned.put (ho.setNode_take hthis hmem ?_)
  exact reduceOption_perm hkeys key

omit hord in
theorem getElem?_lhTableDelete_self (key : List Byte) :
    (h.lhTableDelete this key).nodes[this]? = some (.object (entries.filter (·.1 ≠ key))) := by
  rw [lhTableDelete_of_object hthis]
  apply getElem?_setNode_self
  rw [nodes_put, hthis]

omit hord in
theorem nodes_objectAdd (key : List Byte) (val : Option Nat) : (h.objectAdd this key val).nodes =
    h.nodes.set this (.object (entries.filter (·.1 ≠ cstr key) ++ [(cstr key, val)])) := by
  rw [objectAdd, lhTableInsert, getElem?_lhTableDelete_self hthis, lhTableDelete_of_object hthis]
  show ((h.put _).nodes.set this _).set this _ = _
  rw [List.set_set, nodes_put]

/-- The object takes over the reference of the caller, and what was there under the key is put. -/
theorem Owned.objectAdd_any (hkeys : (entries.map Prod.fst).Nodup)
    (ho : h.Owned (val.toList ++ held)) (hmem : this ∈ held) (key : List Byte) :
    (h.objectAdd this key val).Owned held := by
  have hdel := getElem?_lhTableDelete_self hthis (cstr key)
  rw [JsonHeap.objectAdd, lhTableInsert, hdel]
  refine (Owned.lhTableDelete hord hthis hkeys ho (List.mem_append_right _ hmem) _).setNode_give
    hdel hmem ?_
  have hval : [val].reduceOption = val.toList := by cases val <;> rfl
  rw [JsonNode.values, List.map_append, List.reduceOption_append, List.map_singleton, hval]
  rfl

theorem Ordered.objectAdd_any (hval : ∀ b ∈ val, this < b) (key : List Byte) :
    (h.objectAdd this key val).Ordered := by
  have hdel := getElem?_lhTableDelete_self hthis (cstr key)
  rw [JsonHeap.objectAdd, lhTableInsert, hdel]
  refine (Ordered.lhTableDelete hord hthis _).setNode hdel ?_
  intro b hb
  rw [JsonNode.values, List.reduceOption_mem_iff] at hb
  obtain ⟨e, he, hb⟩ := List.mem_map.mp hb
  rcases List.mem_append.mp he with he | he
  · exact lt_of_mem_entries hord hthis (List.mem_filter.mp he).1 b hb
  · rw [List.mem_singleton.mp he] at hb
    exact hval b hb

end ObjectAdd

theorem nodes_arrayAdd {elems : List (Option Nat)} (hthis : h.nodes[this]? = some (.array elems))
    (val : Option Nat) : (h.arrayAdd this val).nodes =
      h.nodes.set this (.array (elems ++ [val])) := by
  rw [JsonHeap.arrayAdd, hthis]
  rfl

theorem lt_of_mem_elems {elems : List (Option Nat)} (hord : h.Ordered)
    (hthis : h.nodes[this]? = some (.array elems)) {q : Option Nat} (hq : q ∈ elems) :
    ∀ b ∈ q, this < b := by
  intro b hb
  apply hord this b
  rw [members_self hthis, JsonNode.values, List.reduceOption_mem_iff]
  exact hb ▸ hq

theorem Ordered.arrayAdd {elems : List (Option Nat)} {val : Option Nat} (hord : h.Ordered)
    (hthis : h.nodes[this]? = some (.array elems)) (hval : ∀ b ∈ val, this < b) :
    (h.arrayAdd this val).Ordered := by
  rw [JsonHeap.arrayAdd, hthis]
  refine hord.setNode hthis ?_
  intro b hb
  rw [JsonNode.values, List.reduceOption_mem_iff] at hb
  rcases List.mem_append.mp hb with hb | hb
  · exact lt_of_mem_elems hord hthis hb b rfl
  · exact hval b (List.mem_singleton.mp hb).symm

end JsonHeap

/-! ## What the pointers stand for -/

theorem HoldsEntries.map_fst {nodes : List JsonNode} {entries : List (List Byte × Option Nat)}
    {members : List (List Byte × JsonObject)} (hh : HoldsEntries nodes entries members) :
    entries.map Prod.fst = members.map Prod.fst := by
  induction entries generalizing members with
  | nil =>
    cases hh
    rfl
  | cons e entries ih =>
    cases hh with
    | cons hv hrest => rw [List.map_cons, List.map_cons, ih hrest]

theorem HoldsEntries.filter {nodes : List JsonNode} {entries : List (List Byte × Option Nat)}
    {members : List (List Byte × JsonObject)} (hh : HoldsEntries nodes entries members)
    (key : List Byte) :
    HoldsEntries nodes (entries.filter (·.1 ≠ key)) (members.filter (·.1 ≠ key)) := by
  induction entries generalizing members with
  | nil =>
    cases hh
    exact .nil
  | cons e entries ih =>
    cases hh with
    | @cons k p v _ members hv hrest =>
      by_cases hk : k = key
      · rw [List.filter_cons_of_neg (by simpa using hk),
          List.filter_cons_of_neg (by simpa using hk)]
        exact ih hrest
      · rw [List.filter_cons_of_pos (by simpa using hk),
          List.filter_cons_of_pos (by simpa using hk)]
        exact .cons hv (ih hrest)

theorem HoldsEntries.concat {nodes : List JsonNode} {entries : List (List Byte × Option Nat)}
    {members : List (List Byte × JsonObject)} {key : List Byte} {p : Option Nat} {v : JsonObject}
    (hh : HoldsEntries nodes entries members) (hv : Holds nodes p v) :
    HoldsEntries nodes (entries ++ [(key, p)]) (members ++ [(key, v)]) := by
  induction entries generalizing members with
  | nil =>
    cases hh
    exact .cons hv .nil
  | cons e entries ih =>
    cases hh with
    | cons hw hrest => exact .cons hw (ih hrest)

theorem HoldsElems.concat {nodes : List JsonNode} {ptrs : List (Option Nat)}
    {elems : List JsonObject} {p : Option Nat} {v : JsonObject} (hh : HoldsElems nodes ptrs elems)
    (hv : Holds nodes p v) : HoldsElems nodes (ptrs ++ [p]) (elems ++ [v]) := by
  induction ptrs generalizing elems with
  | nil =>
    cases hh
    exact .cons hv .nil
  | cons e ptrs ih =>
    cases hh with
    | cons hw hrest => exact .cons hw (ih hrest)

mutual

/-- What was made after an object is not reached from what it is set to. -/
theorem Holds.congr {h : JsonHeap} {nodes' : List JsonNode} {this : Nat} (hord : h.Ordered)
    (hsame : ∀ a, this < a → nodes'[a]? = h.nodes[a]?) {p : Option Nat} {v : JsonObject}
    (hp : ∀ a ∈ p, this < a) : Holds h.nodes p v → Holds nodes' p v
  | .null => .null
  | .leaf hnode hv => .leaf ((hsame _ (hp _ rfl)).trans hnode) hv
  | .object hnode hentries =>
    .object ((hsame _ (hp _ rfl)).trans hnode) (hentries.congr hord hsame fun _ he b hb =>
      (hp _ rfl).trans (JsonHeap.lt_of_mem_entries hord hnode he b hb))
  | .array hnode helems =>
    .array ((hsame _ (hp _ rfl)).trans hnode) (helems.congr hord hsame fun _ hq b hb =>
      (hp _ rfl).trans (JsonHeap.lt_of_mem_elems hord hnode hq b hb))

theorem HoldsEntries.congr {h : JsonHeap} {nodes' : List JsonNode} {this : Nat}
    (hord : h.Ordered) (hsame : ∀ a, this < a → nodes'[a]? = h.nodes[a]?)
    {entries : List (List Byte × Option Nat)} {members : List (List Byte × JsonObject)}
    (hlt : ∀ e ∈ entries, ∀ b ∈ e.2, this < b) :
    HoldsEntries h.nodes entries members → HoldsEntries nodes' entries members
  | .nil => .nil
  | .cons hv hrest =>
    .cons (hv.congr hord hsame (hlt _ List.mem_cons_self))
      (hrest.congr hord hsame fun e he => hlt e (List.mem_cons_of_mem _ he))

theorem HoldsElems.congr {h : JsonHeap} {nodes' : List JsonNode} {this : Nat} (hord : h.Ordered)
    (hsame : ∀ a, this < a → nodes'[a]? = h.nodes[a]?) {ptrs : List (Option Nat)}
    {elems : List JsonObject} (hlt : ∀ q ∈ ptrs, ∀ b ∈ q, this < b) :
    HoldsElems h.nodes ptrs elems → HoldsElems nodes' ptrs elems
  | .nil => .nil
  | .cons hv hrest =>
    .cons (hv.congr hord hsame (hlt _ List.mem_cons_self))
      (hrest.congr hord hsame fun q hq => hlt q (List.mem_cons_of_mem _ hq))

end

namespace JsonHeap

variable {h : JsonHeap} {this : Nat} {p : Option Nat} {v : JsonObject} (hord : h.Ordered)
  (hp : ∀ b ∈ p, this < b) (hv : Holds h.nodes p v)

include hord hp hv

/-- The object gets what the function on values gives. -/
theorem holds_objectAdd {members : List (List Byte × JsonObject)}
    (hthis : Holds h.nodes (some this) (.object members)) (key : List Byte) :
    Holds (h.objectAdd this key p).nodes (some this)
      (.object (JsonObject.addEntry (cstr key) v members)) := by
  cases hthis with
  | leaf hnode hleaf =>
    rename_i node
    cases node <;> cases hleaf
  | @object _ entries _ hnode hentries =>
    have hset := nodes_objectAdd hnode key p
    have hsame : ∀ a, this < a → (h.objectAdd this key p).nodes[a]? = h.nodes[a]? := by
      intro a ha
      rw [hset, List.getElem?_set_ne (Nat.ne_of_lt ha)]
    have hold : HoldsEntries (h.objectAdd this key p).nodes entries members :=
      hentries.congr hord hsame fun _ he => lt_of_mem_entries hord hnode he
    refine .object ?_ ((hold.filter (cstr key)).concat (hv.congr hord hsame hp))
    rw [hset]
    exact List.getElem?_set_self (List.getElem?_eq_some_iff.mp hnode).1

theorem holds_arrayAdd {elems : List JsonObject}
    (hthis : Holds h.nodes (some this) (.array elems)) :
    Holds (h.arrayAdd this p).nodes (some this) (.array (elems ++ [v])) := by
  cases hthis with
  | leaf hnode hleaf =>
    rename_i node
    cases node <;> cases hleaf
  | @array _ ptrs _ hnode helems =>
    have hset := nodes_arrayAdd hnode p
    have hsame : ∀ a, this < a → (h.arrayAdd this p).nodes[a]? = h.nodes[a]? := by
      intro a ha
      rw [hset, List.getElem?_set_ne (Nat.ne_of_lt ha)]
    have hold : HoldsElems (h.arrayAdd this p).nodes ptrs elems :=
      helems.congr hord hsame fun _ hq => lt_of_mem_elems hord hnode hq
    refine .array ?_ (hold.concat (hv.congr hord hsame hp))
    rw [hset]
    exact List.getElem?_set_self (List.getElem?_eq_some_iff.mp hnode).1

end JsonHeap

end PamSmsauth
