import PamSmsauth.Grafts
import PamSmsauth.WellFormed

/-!
# The memory of the parser (`json/json_tokener.c`)

The parser of `Tokener` with the objects where they lie. Each call has a pointer `current`, and the
copy of a key that `strdup` made for it; none of them has a say in where the parser goes, so that
its states are those of the `Tokener`. There is memory for every object. A marker points to none: it
is the pointer `none` here, as NULL is, and the `Tokener` ends where one is followed.

`iter_does` says what a pass through the `switch` does to memory: `current` is NULL until it is
assigned, and it is an array or an object where something is added to it. Three errors return past
`out`; one of them, `case json_tokener_state_object_field_end`, has an object and the copy of a key
to leave behind.
-/

namespace PamSmsauth

open CText RefCount Tokener

/-! ## The machine -/

/-- The pointers of one call; `objFieldName` when `obj_field_name` is not NULL. -/
structure Pointers where
  current : Option Nat
  objFieldName : Bool

def Pointers.init : Pointers := ⟨none, false⟩

/-- `copies` counts the keys that were copied and not freed. -/
structure Memory where
  heap : JsonHeap
  copies : Nat

structure TokenerHeap where
  tok : Tokener
  mem : Memory
  frame : Pointers
  callers : List Pointers

def TokenerHeap.init (source : List Byte) : TokenerHeap :=
  ⟨.init source, ⟨.empty, 0⟩, .init, []⟩

/-- What `json_tokener_parse` comes to, as `JsonParsed`. -/
inductive HeapParsed where
  | overrun
  | followed
  | error (ptr : UInt64)
  | pointer (p : Option Nat)
  | marred (p : Option Nat)

/-- Where `p` is the object that `ptr` points to. -/
def JsonPtr.heapParsed (ptr : JsonPtr) (p : Option Nat) : HeapParsed :=
  match ptr with
  | .obj _ => .pointer p
  | .marker ptr => .error ptr
  | _ => .marred p

/-- What a pass through the `switch` assigns to `current`, where it does: NULL or a new object. -/
def assigned (lf : List Byte → Option (List Byte)) (t : Tokener) (c : Byte) :
    Option (Option JsonNode) :=
  let seen := t.frame.seen
  match t.frame.state with
  | .start =>
    if c = 123 then some (some (.object [])) else if c = 91 then some (some (.array [])) else none
  | .null =>
    if strncasecmp (lit "null") seen seen.length = 0 ∧ seen.length = 4 then some none else none
  | .string =>
    if c = t.frame.quoteChar then some (some (.string (cstr (t.pb ++ seen)))) else none
  | .boolean =>
    if strncasecmp (lit "true") seen seen.length = 0 then
      if seen.length = 4 then some (some (.boolean true)) else none
    else if strncasecmp (lit "false") seen seen.length = 0 ∧ seen.length = 5 then
      some (some (.boolean false))
    else none
  | .number =>
    if c = 0 ∨ c ∉ jsonNumberChars then
      if t.frame.deemedDouble then (lf seen).map fun text => some (.double text)
      else (sscanfInt seen).map fun i => some (.int i)
    else none
  | _ => none

/-- Whether a pass copies a key. -/
def strdups (t : Tokener) (c : Byte) : Bool :=
  t.frame.state = .objectField ∧ c = t.frame.quoteChar

/-- The new `current`. -/
def JsonHeap.assign (h : JsonHeap) (current : Option Nat) :
    Option (Option JsonNode) → Option Nat × JsonHeap
  | none => (current, h)
  | some none => (none, h)
  | some (some node) => h.new true node

namespace Memory

/-- `free(obj_field_name)`. -/
def freeName (m : Memory) (p : Pointers) : Memory :=
  { m with copies := m.copies - p.objFieldName.toNat }

/-- What an error does at `out`. -/
def out (m : Memory) (p : Pointers) : Memory :=
  { m.freeName p with heap := m.heap.put p.current }

/-- Where a call has returned `obj`; an array or an object is there to take it. -/
def add (m : Memory) (f : Activation) (p : Pointers) (obj : Option Nat) : Pointers × Memory :=
  match f.state, p.current with
  | .array, some this => (p, { m with heap := m.heap.arrayAdd this obj })
  | .objectValue, some this =>
    ({ p with objFieldName := false },
      { m.freeName p with heap := m.heap.objectAdd this f.objFieldName obj })
  | _, _ => (p, m)

end Memory

namespace TokenerHeap

/-- A pass through the `switch` that goes on with `t`. -/
def pass (lf : List Byte → Option (List Byte)) (m : TokenerHeap) (c : Byte) (t : Tokener) :
    TokenerHeap :=
  let new := m.mem.heap.assign m.frame.current (assigned lf m.tok c)
  let copied := strdups m.tok c
  { m with
    tok := t, mem := ⟨new.2, m.mem.copies + copied.toNat⟩,
    frame := ⟨new.1, m.frame.objFieldName || copied⟩ }

/-- Return `ptr`, which points to `obj`, to the first of these callers: `Tokener.retTo`. -/
def retTo (tok : Tokener) : Memory → JsonPtr → Option Nat → List Activation → List Pointers →
    (HeapParsed × Memory) ⊕ TokenerHeap
  | mem, ptr, obj, f :: fs, p :: ps =>
    match ptr.err with
    | some err =>
      match f.out err with
      | some ptr => retTo tok (mem.out p) ptr none fs ps
      | none => .inl (.followed, mem)
    | none =>
      match f.resume ptr with
      | some frame =>
        let added := mem.add f p obj
        .inr ⟨{ tok with frame, callers := fs }, added.2, added.1, ps⟩
      | none => .inl (.followed, mem)
  | mem, ptr, obj, _, _ => .inl (ptr.heapParsed obj, mem)

/-- Return a marker, after what was done to memory. -/
def leave (m : TokenerHeap) (mem : Memory) : Option JsonPtr → (HeapParsed × Memory) ⊕ TokenerHeap
  | some ptr => retTo m.tok mem ptr none m.tok.callers m.callers
  | none => .inl (.followed, mem)

/-- What an error in a state does. Three states return by themselves. -/
def failed (m : TokenerHeap) : Memory :=
  match m.tok.frame.state with
  | .null | .objectFieldEnd => m.mem
  | .arraySep => { m.mem with heap := m.mem.heap.put m.frame.current }
  | _ => m.mem.out m.frame

def ret (m : TokenerHeap) : (HeapParsed × Memory) ⊕ TokenerHeap :=
  retTo m.tok (m.mem.freeName m.frame) m.tok.frame.current m.frame.current m.tok.callers m.callers

/-- The end of the loop. -/
def exit (m : TokenerHeap) : (HeapParsed × Memory) ⊕ TokenerHeap :=
  if m.tok.frame.state ≠ .finish ∧ m.tok.frame.savedState ≠ .finish then
    m.leave (m.mem.out m.frame) (m.tok.frame.out JsonTokenerError.parseEof.num)
  else m.ret

end TokenerHeap

/-- One pass through the loop. -/
def cycleHeap (lf : List Byte → Option (List Byte)) (m : TokenerHeap) :
    (HeapParsed × Memory) ⊕ TokenerHeap :=
  match m.tok.rest with
  | [] => .inl (.overrun, m.mem)
  | c :: _ =>
    match iter lf m.tok c with
    | .next t => if c = 0 then (m.pass lf c t).exit else .inr (m.pass lf c t)
    | .call t =>
      .inr ⟨{ t with frame := .init, callers := t.frame :: t.callers }, m.mem, .init,
        m.frame :: m.callers⟩
    | .out _ => m.ret
    | .error e => m.leave m.failed (m.tok.frame.fail e)

def runTokenerHeap (lf : List Byte → Option (List Byte)) :
    Nat → TokenerHeap → Option (HeapParsed × Memory)
  | 0, _ => none
  | n + 1, m =>
    match cycleHeap lf m with
    | .inl r => some r
    | .inr m' => runTokenerHeap lf n m'

/-- `json_tokener_parse`, with what it leaves in memory. -/
def jsonTokenerParseHeap (lf : List Byte → Option (List Byte)) (source : List Byte) :
    HeapParsed × Memory :=
  (runTokenerHeap lf (6 * source.length + 6) (.init source)).getD (.overrun, ⟨.empty, 0⟩)

/-- A key that is followed by no colon. -/
def Tokener.keyless (t : Tokener) : Bool :=
  t.frame.state = .objectFieldEnd ∧ ∃ c ∈ t.rest.head?, c ≠ 58

/-- How often a run comes to such a key. -/
def countKeyless (lf : List Byte → Option (List Byte)) : Nat → Tokener → Nat
  | 0, _ => 0
  | n + 1, t =>
    t.keyless.toNat +
      match cycle lf t with
      | .inl _ => 0
      | .inr t' => countKeyless lf n t'

/-- How often `json_tokener_parse` does. -/
def keylessIn (lf : List Byte → Option (List Byte)) (source : List Byte) : Nat :=
  countKeyless lf (6 * source.length + 6) (.init source)

/-! ## What a state expects -/

/-- The state that white space, a comment or an escape leads back to. -/
def Activation.phase (f : Activation) : TokenerState :=
  match f.state with
  | .eatws | .commentStart | .comment | .commentEol | .commentEnd | .stringEscape
  | .escapeUnicode => f.savedState
  | s => s

/-- An array, with markers in it or without. -/
def JsonPtr.isArray : JsonPtr → Bool
  | .obj (.array _) | .marredArray _ => true
  | _ => false

def JsonPtr.isObject : JsonPtr → Bool
  | .obj (.object _) | .marredObject _ => true
  | _ => false

/-- What `current` is in a phase. -/
def TokenerState.Has : TokenerState → JsonPtr → Prop
  | .start, ptr | .null, ptr | .string, ptr | .boolean, ptr | .number, ptr => ptr = .obj .null
  | .array, ptr | .arraySep, ptr => ptr.isArray = true
  | .object, ptr | .objectFieldStart, ptr | .objectField, ptr | .objectFieldEnd, ptr
  | .objectValue, ptr | .objectSep, ptr => ptr.isObject = true
  | .finish, _ => True
  | _, _ => False

/-- Whether a phase has the copy of a key. -/
def TokenerState.named (s : TokenerState) : Bool := s = .objectFieldEnd ∨ s = .objectValue

def Activation.Fits (f : Activation) : Prop := f.phase.Has f.current

/-- What a new node stands for. -/
def JsonNode.Makes (node : JsonNode) (v : JsonObject) : Prop :=
  node.values = [] ∧
    ∀ (nodes : List JsonNode) (a : Nat), nodes[a]? = some node → Holds nodes (some a) v

/-- What an assignment makes of the value of `current`. -/
def Assigns (ptr ptr' : JsonPtr) : Option (Option JsonNode) → Prop
  | none => ptr' = ptr
  | some none => ptr = .obj .null ∧ ptr' = .obj .null
  | some (some node) => ptr = .obj .null ∧ ∃ v, ptr' = .obj v ∧ node.Makes v

structure Passes (lf : List Byte → Option (List Byte)) (t : Tokener) (c : Byte) (t' : Tokener) :
    Prop where
  callers : t'.callers = t.callers
  fits : t'.frame.Fits
  assigns : Assigns t.frame.current t'.frame.current (assigned lf t c)
  named : t'.frame.phase.named = (t.frame.phase.named || strdups t c)

def Action.Does (lf : List Byte → Option (List Byte)) (t : Tokener) (c : Byte) : Action → Prop
  | .next t' => Passes lf t c t'
  | .call t' => t' = t ∧ (t.frame.state = .array ∨ t.frame.state = .objectValue)
  | .out ptr => ptr = t.frame.current ∧ t.frame.state = .finish
  | .error _ => True

variable {lf : List Byte → Option (List Byte)}

theorem TokenerState.Has.phase_eq {s : TokenerState} {ptr : JsonPtr} (h : s.Has ptr)
    {f : Activation} (hf : f.state = s) : f.phase = s := by
  unfold Activation.phase
  rw [hf]
  cases s <;> first | rfl | exact h.elim

/-- Nothing is done to memory, and the phase stays. -/
theorem Passes.keep {t t' : Tokener} {c : Byte} (hfits : t.frame.Fits)
    (hcallers : t'.callers = t.callers) (hcurrent : t'.frame.current = t.frame.current)
    (hphase : t'.frame.phase = t.frame.phase) (hassigned : assigned lf t c = none)
    (hstrdups : strdups t c = false) : Passes lf t c t' := by
  refine ⟨hcallers, ?_, ?_, ?_⟩
  · rw [Activation.Fits, hphase, hcurrent]
    exact hfits
  · rw [hassigned]
    exact hcurrent
  · rw [hphase, hstrdups, Bool.or_false]

/-- Nothing is done to memory, and white space leads to another phase. -/
theorem Passes.move {t t' : Tokener} {c : Byte} {s : TokenerState}
    (hcallers : t'.callers = t.callers) (hcurrent : t'.frame.current = t.frame.current)
    (hphase : t'.frame.phase = s) (hhas : s.Has t.frame.current)
    (hassigned : assigned lf t c = none)
    (hnamed : s.named = (t.frame.phase.named || strdups t c)) : Passes lf t c t' := by
  refine ⟨hcallers, ?_, ?_, ?_⟩
  · rw [Activation.Fits, hphase, hcurrent]
    exact hhas
  · rw [hassigned]
    exact hcurrent
  · rw [hphase, hnamed]

/-- `current` was NULL and is assigned. -/
theorem Passes.make {t t' : Tokener} {c : Byte} {s : TokenerState} {new : Option JsonNode}
    (hcallers : t'.callers = t.callers) (hphase : t'.frame.phase = s)
    (hhas : s.Has t'.frame.current)
    (hnull : t.frame.current = .obj .null) (hassigned : assigned lf t c = some new)
    (hnew : Assigns (.obj .null) t'.frame.current (some new))
    (hnamed : s.named = (t.frame.phase.named || strdups t c)) : Passes lf t c t' := by
  refine ⟨hcallers, ?_, ?_, ?_⟩
  · rw [Activation.Fits, hphase]
    exact hhas
  · rw [hassigned, hnull]
    exact hnew
  · rw [hphase, hnamed]

theorem JsonNode.makes_leaf {node : JsonNode} {v : JsonObject} (hnode : node.values = [])
    (hv : node.leaf = some v) : node.Makes v :=
  ⟨hnode, fun _ _ hget => .leaf hget hv⟩

theorem JsonNode.makes_object : (JsonNode.object []).Makes .newObject :=
  ⟨rfl, fun _ _ hget => .object hget .nil⟩

theorem JsonNode.makes_array : (JsonNode.array []).Makes .newArray :=
  ⟨rfl, fun _ _ hget => .array hget .nil⟩

theorem strdups_of_ne {t : Tokener} (h : t.frame.state ≠ .objectField) (c : Byte) :
    strdups t c = false := by
  simp [strdups, h]

section

variable {t : Tokener} (hfits : t.frame.Fits) (c : Byte)

include hfits

omit hfits in
theorem iterStart_does (hst : t.frame.state = .start) (hphase : t.frame.phase = .start)
    (hnull : t.frame.current = .obj .null) : (iterStart t c).Does lf t c := by
  have hdup := strdups_of_ne (t := t) (by rw [hst]; decide) c
  have hnamed : false = (t.frame.phase.named || strdups t c) := by
    rw [hphase, hdup]
    rfl
  have hbrace (h : c = 123) : assigned lf t c = some (some (.object [])) := by
    simp [assigned, hst, h]
  have hbracket (h : c = 91) : assigned lf t c = some (some (.array [])) := by
    simp [assigned, hst, h]
  have hother (h : c ≠ 123) (h' : c ≠ 91) : assigned lf t c = none := by
    simp [assigned, hst, h, h']
  have hliteral (s : TokenerState) (t' : Tokener) (hc : c ≠ 123) (hc' : c ≠ 91)
      (hcallers : t'.callers = t.callers) (hcurrent : t'.frame.current = t.frame.current)
      (hs : t'.frame.phase = s) (hhas : s.Has (.obj .null)) (hs' : s.named = false) :
      Passes lf t c t' :=
    .move hcallers hcurrent hs (hnull ▸ hhas) (hother hc hc') (hs'.trans hnamed)
  unfold iterStart
  split_ifs with h1 h2 h3 h4 h5 h6
  · exact .make rfl rfl rfl hnull (hbrace h1) ⟨rfl, _, rfl, JsonNode.makes_object⟩ hnamed
  · exact .make rfl rfl rfl hnull (hbracket h2) ⟨rfl, _, rfl, JsonNode.makes_array⟩ hnamed
  · exact hliteral .null _ h1 h2 rfl rfl rfl rfl rfl
  · exact hliteral .string _ h1 h2 rfl rfl rfl rfl rfl
  · exact hliteral .boolean _ h1 h2 rfl rfl rfl rfl rfl
  · exact hliteral .number _ h1 h2 rfl rfl rfl rfl rfl
  · trivial

/-- An escape ends in the phase that it began in. -/
theorem Passes.escape {t' : Tokener} (hst : t.frame.state = .stringEscape ∨
      t.frame.state = .escapeUnicode) (hcallers : t'.callers = t.callers)
    (hcurrent : t'.frame.current = t.frame.current)
    (hsaved : t'.frame.savedState = t.frame.savedState)
    (hnext : t'.frame.state = .stringEscape ∨ t'.frame.state = .escapeUnicode ∨
      t'.frame.state = t.frame.savedState) : Passes lf t c t' := by
  have hphase : t.frame.phase = t.frame.savedState := by
    unfold Activation.phase
    rcases hst with h | h <;> rw [h]
  have hhas : t.frame.phase.Has t.frame.current := hfits
  rw [hphase] at hhas
  refine .keep hfits hcallers hcurrent ?_ ?_ (strdups_of_ne ?_ c)
  · rw [hphase]
    rcases hnext with h | h | h
    · rw [Activation.phase, h, hsaved]
    · rw [Activation.phase, h, hsaved]
    · exact hhas.phase_eq h
  · rcases hst with h | h <;> simp [assigned, h]
  · rcases hst with h | h <;> rw [h] <;> decide

theorem iterStringEscape_does (hst : t.frame.state = .stringEscape) :
    (iterStringEscape t c).Does lf t c := by
  have hback {t' : Tokener} (hcallers : t'.callers = t.callers)
      (hcurrent : t'.frame.current = t.frame.current)
      (hsaved : t'.frame.savedState = t.frame.savedState)
      (hnext : t'.frame.state = t.frame.savedState) : Passes lf t c t' :=
    .escape hfits c (.inl hst) hcallers hcurrent hsaved (.inr (.inr hnext))
  simp only [iterStringEscape]
  split_ifs
  · exact hback rfl rfl rfl rfl
  · exact hback rfl rfl rfl rfl
  · exact hback rfl rfl rfl rfl
  · exact hback rfl rfl rfl rfl
  · exact hback rfl rfl rfl rfl
  · exact .escape hfits c (.inl hst) rfl rfl rfl (.inr (.inl rfl))
  · trivial

theorem iterEscapeUnicode_does (hst : t.frame.state = .escapeUnicode) :
    (iterEscapeUnicode t c).Does lf t c := by
  simp only [iterEscapeUnicode]
  split_ifs
  · exact .escape hfits c (.inr hst) rfl rfl rfl (.inr (.inr rfl))
  · exact .escape hfits c (.inr hst) rfl rfl rfl (.inr (.inl hst))
  · trivial

variable (hnull : t.frame.current = .obj .null)

include hnull

theorem iterNull_does (hst : t.frame.state = .null) : (iterNull t c).Does lf t c := by
  have hphase : t.frame.phase = .null := by rw [Activation.phase, hst]
  have hdup := strdups_of_ne (t := t) (by rw [hst]; decide) c
  unfold iterNull
  split_ifs with h1 h2
  · trivial
  · have hassigned : assigned lf t c = some none := by
      simp only [assigned, hst]
      exact if_pos ⟨not_not.mp h1, h2⟩
    refine .make rfl rfl trivial hnull hassigned ⟨rfl, rfl⟩ ?_
    rw [hphase, hdup]
    rfl
  · have hassigned : assigned lf t c = none := by
      simp only [assigned, hst]
      exact if_neg fun h => h2 h.2
    exact .keep hfits rfl rfl rfl hassigned hdup

theorem iterBoolean_does (hst : t.frame.state = .boolean) : (iterBoolean t c).Does lf t c := by
  have hphase : t.frame.phase = .boolean := by rw [Activation.phase, hst]
  have hdup := strdups_of_ne (t := t) (by rw [hst]; decide) c
  have hmake {b : Bool} (hassigned : assigned lf t c = some (some (.boolean b))) :
      Passes lf t c (t.complete (.boolean b)) := by
    refine .make rfl rfl trivial hnull hassigned
      ⟨rfl, _, rfl, JsonNode.makes_leaf rfl rfl⟩ ?_
    rw [hphase, hdup]
    rfl
  unfold iterBoolean
  split_ifs with h1 h2 h3 h4
  · apply hmake
    simp only [assigned, hst]
    rw [if_pos h1, if_pos h2]
  · refine .keep hfits rfl rfl rfl ?_ hdup
    simp only [assigned, hst]
    rw [if_pos h1, if_neg h2]
  · apply hmake
    simp only [assigned, hst]
    rw [if_neg h1, if_pos ⟨h3, h4⟩]
  · refine .keep hfits rfl rfl rfl ?_ hdup
    simp only [assigned, hst]
    rw [if_neg h1, if_neg fun h => h4 h.2]
  · trivial

theorem iterNumber_does (hst : t.frame.state = .number) : (iterNumber lf t c).Does lf t c := by
  have hphase : t.frame.phase = .number := by rw [Activation.phase, hst]
  have hdup := strdups_of_ne (t := t) (by rw [hst]; decide) c
  have hmake {v : JsonObject} (node : JsonNode) (hassigned : assigned lf t c = some (some node))
      (hnode : node.Makes v) : Passes lf t c (t.complete v) := by
    refine .make rfl rfl trivial hnull hassigned ⟨rfl, v, rfl, hnode⟩ ?_
    rw [hphase, hdup]
    rfl
  simp only [iterNumber]
  split_ifs with h1 h2 h2
  · cases hlf : lf t.frame.seen with
    | none => trivial
    | some text =>
      refine hmake (.double text) ?_ (JsonNode.makes_leaf rfl rfl)
      simp only [assigned, hst]
      rw [if_pos h1, if_pos h2, hlf]
      rfl
  · cases hint : sscanfInt t.frame.seen with
    | none => trivial
    | some i =>
      refine hmake (.int i) ?_ (JsonNode.makes_leaf rfl rfl)
      simp only [assigned, hst]
      rw [if_pos h1, if_neg h2, hint]
      rfl
  · refine .keep hfits rfl rfl rfl ?_ hdup
    simp only [assigned, hst]
    exact if_neg h1
  · refine .keep hfits rfl rfl rfl ?_ hdup
    simp only [assigned, hst]
    exact if_neg h1

end

theorem TokenerState.Has.null {s : TokenerState} {ptr : JsonPtr} (h : s.Has ptr)
    (hs : s = .start ∨ s = .null ∨ s = .string ∨ s = .boolean ∨ s = .number) :
    ptr = .obj .null := by
  rcases hs with rfl | rfl | rfl | rfl | rfl <;> exact h

/-- The states in which a pass may do something to memory. -/
def TokenerState.touches (s : TokenerState) : Bool :=
  s = .start ∨ s = .null ∨ s = .string ∨ s = .boolean ∨ s = .number ∨ s = .objectField

variable (lf) in
theorem assigned_of_touches {t : Tokener} (h : t.frame.state.touches = false) (c : Byte) :
    assigned lf t c = none ∧ strdups t c = false := by
  unfold assigned strdups
  cases hst : t.frame.state <;> first | exact ⟨rfl, rfl⟩ | (rw [hst] at h; cases h)

section

variable {t : Tokener} (htouches : t.frame.state.touches = false) (c : Byte)

include htouches

/-- White space and comments. -/
theorem Passes.white {t' : Tokener} (hfits : t.frame.Fits)
    (hphase : t.frame.phase = t.frame.savedState)
    (hcallers : t'.callers = t.callers) (hcurrent : t'.frame.current = t.frame.current)
    (hsaved : t'.frame.savedState = t.frame.savedState)
    (hphase' : t'.frame.phase = t'.frame.savedState) : Passes lf t c t' := by
  obtain ⟨hassigned, hdup⟩ := assigned_of_touches lf htouches c
  exact .keep hfits hcallers hcurrent (by rw [hphase', hsaved, hphase]) hassigned hdup

/-- A bracket, a comma or a colon, with white space after it. -/
theorem Passes.mark {s : TokenerState} (s' : TokenerState) (hphase : t.frame.phase = s)
    (hhas : s'.Has t.frame.current) (hnamed : s'.named = s.named) :
    Passes lf t c ((t.eatws s').advance c) := by
  obtain ⟨hassigned, hdup⟩ := assigned_of_touches lf htouches c
  have hsame : s'.named = (t.frame.phase.named || strdups t c) := by
    rw [hphase, hnamed, hdup, Bool.or_false]
  exact .move rfl rfl rfl hhas hassigned hsame

end

/-- What a pass through the `switch` does. -/
theorem iter_does (lf : List Byte → Option (List Byte)) {t : Tokener} (hfits : t.frame.Fits)
    (c : Byte) : (iter lf t c).Does lf t c := by
  have hhas : t.frame.phase.Has t.frame.current := hfits
  unfold iter
  cases hst : t.frame.state <;> simp only []
  case eatws =>
    have hphase : t.frame.phase = t.frame.savedState := by rw [Activation.phase, hst]
    have htouches : t.frame.state.touches = false := by rw [hst]; rfl
    have hback := (hphase ▸ hhas).phase_eq (f := (t.goto t.frame.savedState).frame) rfl
    split_ifs
    · exact .white htouches c hfits hphase rfl rfl rfl hphase
    · exact .white htouches c hfits hphase rfl rfl rfl rfl
    · exact .white htouches c hfits hphase rfl rfl rfl hback
  case commentStart | comment | commentEol | commentEnd =>
    have hphase : t.frame.phase = t.frame.savedState := by rw [Activation.phase, hst]
    have htouches : t.frame.state.touches = false := by rw [hst]; rfl
    split_ifs
    -- one of the states of a comment, or the same one again
    all_goals first
      | exact .white htouches c hfits hphase rfl rfl rfl rfl
      | exact .white htouches c hfits hphase rfl rfl rfl hphase
      | trivial
  case start =>
    have hphase : t.frame.phase = .start := by rw [Activation.phase, hst]
    rw [hphase] at hhas
    exact iterStart_does c hst hphase hhas
  case null =>
    have hphase : t.frame.phase = .null := by rw [Activation.phase, hst]
    rw [hphase] at hhas
    exact iterNull_does hfits c hhas hst
  case boolean =>
    have hphase : t.frame.phase = .boolean := by rw [Activation.phase, hst]
    rw [hphase] at hhas
    exact iterBoolean_does hfits c hhas hst
  case number =>
    have hphase : t.frame.phase = .number := by rw [Activation.phase, hst]
    rw [hphase] at hhas
    exact iterNumber_does hfits c hhas hst
  case stringEscape => exact iterStringEscape_does hfits c hst
  case escapeUnicode => exact iterEscapeUnicode_does hfits c hst
  case finish => exact ⟨rfl, hst⟩
  case objectValue => exact ⟨rfl, .inr hst⟩
  case string =>
    have hphase : t.frame.phase = .string := by rw [Activation.phase, hst]
    have hdup := strdups_of_ne (t := t) (by rw [hst]; nofun) c
    rw [hphase] at hhas
    have hassigned : assigned lf t c = if c = t.frame.quoteChar then
        some (some (.string (cstr (t.pb ++ t.frame.seen)))) else none := by
      simp only [assigned, hst]
    split_ifs at hassigned ⊢
    · refine .make rfl rfl trivial hhas hassigned
        ⟨rfl, _, rfl, JsonNode.makes_leaf rfl rfl⟩ ?_
      rw [hphase, hdup]
      rfl
    · exact .move rfl rfl rfl hhas hassigned (by rw [hphase, hdup]; rfl)
    · exact .keep hfits rfl rfl rfl hassigned hdup
  case array =>
    have hphase : t.frame.phase = .array := by rw [Activation.phase, hst]
    have htouches : t.frame.state.touches = false := by rw [hst]; rfl
    split_ifs
    · exact .mark htouches c .finish hphase trivial rfl
    · exact ⟨rfl, .inl hst⟩
  case arraySep =>
    have hphase : t.frame.phase = .arraySep := by rw [Activation.phase, hst]
    have htouches : t.frame.state.touches = false := by rw [hst]; rfl
    rw [hphase] at hhas
    split_ifs
    · exact .mark htouches c .finish hphase trivial rfl
    · exact .mark htouches c .array hphase hhas rfl
    · trivial
  case object =>
    have hphase : t.frame.phase = .object := by rw [Activation.phase, hst]
    have htouches : t.frame.state.touches = false := by rw [hst]; rfl
    obtain ⟨hassigned, hdup⟩ := assigned_of_touches lf htouches c
    rw [hphase] at hhas
    exact .move rfl rfl rfl hhas hassigned (by rw [hphase, hdup]; rfl)
  case objectFieldStart =>
    have hphase : t.frame.phase = .objectFieldStart := by rw [Activation.phase, hst]
    have htouches : t.frame.state.touches = false := by rw [hst]; rfl
    obtain ⟨hassigned, hdup⟩ := assigned_of_touches lf htouches c
    rw [hphase] at hhas
    split_ifs
    · exact .mark htouches c .finish hphase trivial rfl
    · exact .move rfl rfl rfl hhas hassigned (by rw [hphase, hdup]; rfl)
    · trivial
  case objectField =>
    have hphase : t.frame.phase = .objectField := by rw [Activation.phase, hst]
    have hassigned : assigned lf t c = none := by simp only [assigned, hst]
    rw [hphase] at hhas
    have hdup : strdups t c = decide (c = t.frame.quoteChar) := by simp [strdups, hst]
    split_ifs with hquote
    · rw [decide_eq_true hquote] at hdup
      exact .move rfl rfl rfl hhas hassigned (by rw [hphase, hdup]; rfl)
    · rw [decide_eq_false hquote] at hdup
      exact .move rfl rfl rfl hhas hassigned (by rw [hphase, hdup]; rfl)
    · rw [decide_eq_false hquote] at hdup
      exact .keep hfits rfl rfl rfl hassigned hdup
  case objectFieldEnd =>
    have hphase : t.frame.phase = .objectFieldEnd := by rw [Activation.phase, hst]
    have htouches : t.frame.state.touches = false := by rw [hst]; rfl
    rw [hphase] at hhas
    split_ifs
    · exact .mark htouches c .objectValue hphase hhas rfl
    · trivial
  case objectSep =>
    have hphase : t.frame.phase = .objectSep := by rw [Activation.phase, hst]
    have htouches : t.frame.state.touches = false := by rw [hst]; rfl
    rw [hphase] at hhas
    split_ifs
    · exact .mark htouches c .finish hphase trivial rfl
    · exact .mark htouches c .object hphase hhas rfl
    · trivial

end PamSmsauth
