import PamSmsauth.Lib.Emitting
import PamSmsauth.Serializer

/-!
# The print buffer of the bundled JSON objects (`json/printbuf.c`)

The text of an object is printed piece by piece into a buffer that grows by `realloc`, and the
buffer is used again by the next call. Which requests for memory fail, and what new memory is filled
with, is the parameter `alloc`, for one request after the other. A write behind the buffer is
`none`, and so is a text that no NUL in the buffer ends. The sizes are those of texts below 1 GiB,
where no `int` overflows.

Nothing is written or read behind the buffer, whatever fails, and if nothing fails, every call
returns the text of the value that the object has then (`toJsonStringRun_spec`). A request that
fails loses its piece of the text, and mostly without a word: the callers look at the last piece
only.
-/

namespace PamSmsauth

open CText Emitting

/-- `struct printbuf`. -/
structure Printbuf where
  buf : List Byte
  bpos : Nat
  size : Nat

/-- The buffer in use, and how many requests there were. -/
abbrev PbM := StateT (Printbuf × Nat) Option

section Model

variable (alloc : Nat → Option (Nat → Byte))

namespace Printbuf

/-- `printbuf_new` for the memory of the buffer; `printbuf_new` has asked once before. -/
def new (fresh : Nat → Byte) : Printbuf := ⟨(List.range 32).map fresh, 0, 32⟩

def realloc (p : Printbuf) (newSize : Nat) (fresh : Nat → Byte) : Printbuf :=
  { p with
    size := newSize
    buf := p.buf ++ (List.range (newSize - p.size)).map fun i => fresh (p.size + i) }

/-- The bytes and a NUL are written at `bpos`. -/
def write (p : Printbuf) (bytes : List Byte) : Option Printbuf :=
  if p.bpos + bytes.length < p.buf.length then
    some { p with
      buf := p.buf.take p.bpos ++ bytes ++ 0 :: p.buf.drop (p.bpos + bytes.length + 1)
      bpos := p.bpos + bytes.length }
  else none

def reset (p : Printbuf) : Printbuf := { p with buf := p.buf.set 0 0, bpos := 0 }

/-- What a caller reads from `buf`, up to a NUL that has to be there. -/
def str (p : Printbuf) : Option (List Byte) := if 0 ∈ p.buf then some (cstr p.buf) else none

end Printbuf

def printbufMemappend (bytes : List Byte) : PbM Int := fun (p, calls) =>
  if p.size - p.bpos ≤ bytes.length then
    match alloc calls with
    | none => some (-1, p, calls + 1)
    | some fresh =>
      ((p.realloc (max (p.size * 2) (p.bpos + bytes.length + 8)) fresh).write bytes).map fun p =>
        (bytes.length, p, calls + 1)
  else (p.write bytes).map fun p => (bytes.length, p, calls)

/-- `sprintbuf`, for what `vsnprintf` makes of the format; a long text needs memory of its own. -/
def sprintbuf (text : List Byte) : PbM Int := fun (p, calls) =>
  if 127 < text.length then
    match alloc calls with
    | none => some (-1, p, calls + 1)
    | some _ => printbufMemappend alloc text (p, calls + 1)
  else printbufMemappend alloc text (p, calls)

/-- The characters from `start_offset` to `pos`. -/
def appendRun (run : List Byte) : PbM Unit := do
  if run.length > 0 then
    let _ ← printbufMemappend alloc run

/-- The characters that are escaped by a letter. -/
def jsonEscapePair (c : Byte) : List Byte :=
  if c = 8 then lit "\\b" else if c = 10 then lit "\\n" else if c = 13 then lit "\\r"
  else if c = 9 then lit "\\t" else lit "\\\""

/-- The loop of `json_escape_str`. -/
def jsonEscapeStrLoop (run : List Byte) : List Byte → PbM Unit
  | [] => appendRun alloc run
  | c :: str => do
    if c = 0 then appendRun alloc run
    else if c = 8 ∨ c = 10 ∨ c = 13 ∨ c = 9 ∨ c = 34 then
      appendRun alloc run
      let _ ← printbufMemappend alloc (jsonEscapePair c)
      jsonEscapeStrLoop [] str
    else if c < 32 then
      appendRun alloc run
      let _ ← sprintbuf alloc (lit "\\u00" ++
        [jsonHexChars.getD (c.toNat / 16) 0, jsonHexChars.getD (c.toNat % 16) 0])
      jsonEscapeStrLoop [] str
    else jsonEscapeStrLoop (run ++ [c]) str

namespace JsonObject

mutual

/-- `_to_json_string` of the types; a NULL is printed by those who hold it. -/
def print : JsonObject → PbM Int
  | .null => sprintbuf alloc (lit "null")
  | .boolean b => if b then sprintbuf alloc (lit "true") else sprintbuf alloc (lit "false")
  | .double lf => sprintbuf alloc lf
  | .int i => sprintbuf alloc (decimal i)
  | .object entries => do
    let _ ← sprintbuf alloc (lit "\x7b")
    printEntries 0 entries
    sprintbuf alloc (lit " \x7d")
  | .array elems => do
    let _ ← sprintbuf alloc (lit "[")
    printElems 0 elems
    sprintbuf alloc (lit " ]")
  | .string s => do
    let _ ← sprintbuf alloc (lit "\"")
    jsonEscapeStrLoop alloc [] s
    let _ ← sprintbuf alloc (lit "\"")
    return 0

def printEntries : Nat → List (List Byte × JsonObject) → PbM Unit
  | _, [] => pure ()
  | i, (key, val) :: entries => do
    if i ≠ 0 then
      let _ ← sprintbuf alloc (lit ",")
    let _ ← sprintbuf alloc (lit " \"")
    jsonEscapeStrLoop alloc [] key
    let _ ← sprintbuf alloc (lit "\": ")
    let _ ← print val
    printEntries (i + 1) entries

def printElems : Nat → List JsonObject → PbM Unit
  | _, [] => pure ()
  | i, val :: elems => do
    let _ ← if i ≠ 0 then sprintbuf alloc (lit ", ") else sprintbuf alloc (lit " ")
    let _ ← print val
    printElems (i + 1) elems

end

end JsonObject

/-- The buffer that an object keeps, if it has one. -/
abbrev Kept := Option Printbuf × Nat

def printbufNew (calls : Nat) : Option Printbuf × Nat :=
  match alloc calls with
  | none => (none, calls + 1)
  | some _ => ((alloc (calls + 1)).map Printbuf.new, calls + 2)

/-- The buffer for the next text: a new one, or the old one again. -/
def bufferFor (kept : Kept) : Option Printbuf × Nat :=
  match kept.1 with
  | none => printbufNew alloc kept.2
  | some p => (some p.reset, kept.2)

/-- `json_object_to_json_string`, whose first result is NULL or the text that it returns. -/
def jsonObjectToJsonString (this : JsonObject) (kept : Kept) :
    Option (Option (List Byte) × Kept) :=
  match this with
  | .null => some (some (lit "null"), kept)
  | this =>
    match bufferFor alloc kept with
    | (none, calls) => some (none, none, calls)
    | (some p, calls) =>
      (this.print alloc (p, calls)).bind fun (ret, p, calls) =>
        if ret < 0 then some (none, some p, calls)
        else p.str.map fun text => (some text, some p, calls)

/-- The calls for one object, whose value changes between them. -/
def toJsonStringRun : List JsonObject → Kept → Option (List (Option (List Byte)))
  | [], _ => some []
  | this :: later, kept =>
    (jsonObjectToJsonString alloc this kept).bind fun (text, kept) =>
      (toJsonStringRun later kept).map (text :: ·)

end Model

variable {alloc : Nat → Option (Nat → Byte)}

/-! ## The buffer -/

namespace Printbuf

variable {p : Printbuf}

structure Wf (p : Printbuf) : Prop where
  length : p.buf.length = p.size
  bpos : p.bpos < p.size
  size : 32 ≤ p.size

def text (p : Printbuf) : List Byte := p.buf.take p.bpos

/-- The text ends with a NUL. -/
def Ended (p : Printbuf) : Prop := p.buf[p.bpos]? = some 0

theorem Wf.new (fresh : Nat → Byte) : (new fresh).Wf :=
  ⟨by simp [Printbuf.new], show 0 < 32 by decide, le_refl 32⟩

theorem Wf.reset (h : p.Wf) : p.reset.Wf :=
  ⟨by simpa [Printbuf.reset] using h.length,
    by simpa [Printbuf.reset] using by have := h.size; omega, h.size⟩

theorem text_reset (p : Printbuf) : p.reset.text = [] := by simp [text, reset]

theorem Wf.length_text (h : p.Wf) : p.text.length = p.bpos := by
  have hlen := h.length
  have hpos := h.bpos
  simp [text, show p.bpos ≤ p.buf.length by omega]

theorem cstr_buf (h : p.Ended) : cstr p.buf = cstr p.text := by
  obtain ⟨hlt, hnul⟩ := List.getElem?_eq_some_iff.mp h
  have hsplit : p.buf = p.text ++ 0 :: p.buf.drop (p.bpos + 1) := by
    rw [text, ← hnul, List.getElem_cons_drop, List.take_append_drop]
  have hnil : cstr (0 :: p.buf.drop (p.bpos + 1)) = [] := List.takeWhile_cons_of_neg (by simp)
  rw [hsplit, cstr, List.takeWhile_append]
  split_ifs with hall
  · show _ ++ cstr _ = _
    rw [hnil, List.append_nil]
    exact (List.IsPrefix.eq_of_length (List.takeWhile_prefix _) hall).symm
  · rfl

theorem str_eq (h : p.Ended) : p.str = some (cstr p.text) := by
  rw [str, if_pos (List.mem_of_getElem? h), cstr_buf h]

/-- The bytes are written where there is room for them and the NUL. -/
theorem Wf.write (h : p.Wf) (bytes : List Byte) (hroom : p.bpos + bytes.length < p.size) :
    ∃ p', p.write bytes = some p' ∧ p'.Wf ∧ p'.text = p.text ++ bytes ∧ p'.Ended := by
  have hlen := h.length
  have hbpos := h.bpos
  refine ⟨_, if_pos (by omega), ⟨?_, hroom, h.size⟩, ?_, ?_⟩
  · simp
    omega
  · have htake : (p.buf.take p.bpos ++ bytes).length = p.bpos + bytes.length := by
      simp
      omega
    exact List.take_left' htake
  · have htake : (p.buf.take p.bpos ++ bytes).length = p.bpos + bytes.length := by
      simp
      omega
    show (_ ++ _ :: _)[p.bpos + bytes.length]? = _
    rw [← htake, List.getElem?_append_right le_rfl]
    simp

theorem Wf.realloc (h : p.Wf) (newSize : Nat) (hle : p.size ≤ newSize) (fresh : Nat → Byte) :
    (p.realloc newSize fresh).Wf ∧ (p.realloc newSize fresh).text = p.text := by
  have hlen := h.length
  have hbpos := h.bpos
  refine ⟨⟨?_, hbpos.trans_le hle, h.size.trans hle⟩, ?_⟩
  · simp [Printbuf.realloc]
    omega
  · exact List.take_append_of_le_length (show p.bpos ≤ p.buf.length by omega)

end Printbuf

open Printbuf

/-- A piece is appended, unless memory is needed for it that there is not. -/
theorem printbufMemappend_spec {p : Printbuf} (h : p.Wf) (bytes : List Byte) (calls : Nat) :
    (∃ p' calls', printbufMemappend alloc bytes (p, calls) = some (↑bytes.length, p', calls') ∧
      p'.Wf ∧ p'.text = p.text ++ bytes ∧ p'.Ended) ∨
    printbufMemappend alloc bytes (p, calls) = some (-1, p, calls + 1) ∧ alloc calls = none ∧
      p.size - p.bpos ≤ bytes.length := by
  unfold printbufMemappend
  dsimp only
  split_ifs with hfull
  · cases halloc : alloc calls with
    | none => exact .inr ⟨rfl, rfl, hfull⟩
    | some fresh =>
      left
      obtain ⟨hwf, htext⟩ := h.realloc (max (p.size * 2) (p.bpos + bytes.length + 8))
        (by omega) fresh
      obtain ⟨p', hwrite, hwf', htext', hended⟩ := hwf.write bytes (by
        show p.bpos + bytes.length < max (p.size * 2) (p.bpos + bytes.length + 8)
        omega)
      rw [htext] at htext'
      exact ⟨p', calls + 1, by simp only [hwrite, Option.map_some], hwf', htext', hended⟩
  · left
    obtain ⟨p', hwrite, hwf', htext', hended⟩ := h.write bytes (by omega)
    exact ⟨p', calls, by rw [hwrite]; rfl, hwf', htext', hended⟩

/-! ## What is printed -/

/-- No request for memory fails. -/
def Granted (alloc : Nat → Option (Nat → Byte)) : Prop := ∀ n, alloc n ≠ none

/-- The buffer holds what is left of a text: all of it, if no request fails. -/
structure Printed (alloc : Nat → Option (Nat → Byte)) (p : Printbuf) (text : List Byte) : Prop where
  wf : p.Wf
  sub : p.text.Sublist text
  exact : Granted alloc → p.text = text

def PrintedEnded (alloc : Nat → Option (Nat → Byte)) (s : Printbuf × Nat) (text : List Byte) :
    Prop :=
  Printed alloc s.1 text ∧ s.1.Ended

/-- Nothing is printed yet, and the buffer may not have a NUL. -/
def Blank (s : Printbuf × Nat) (text : List Byte) : Prop := s.1.Wf ∧ s.1.text = [] ∧ text = []

/-- A negative result tells of a request that failed. -/
def Tells (alloc : Nat → Option (Nat → Byte)) (ret : Int) : Prop := Granted alloc → 0 ≤ ret

theorem Printed.append {p p' : Printbuf} {text bytes : List Byte} (h : Printed alloc p text)
    (hwf : p'.Wf) (htext : p'.text = p.text ++ bytes) : Printed alloc p' (text ++ bytes) :=
  ⟨hwf, htext ▸ h.sub.append_right bytes, fun hall => by rw [htext, h.exact hall]⟩

theorem Printed.lose {p : Printbuf} {text : List Byte} (h : Printed alloc p text) {n : Nat}
    (hfail : alloc n = none) (bytes : List Byte) : Printed alloc p (text ++ bytes) :=
  ⟨h.wf, h.sub.trans (List.sublist_append_left ..), fun hall => absurd hfail (hall n)⟩

variable (alloc)

theorem printbufMemappend_emits (bytes : List Byte) :
    Emits (PrintedEnded alloc) (PrintedEnded alloc) (Tells alloc) (printbufMemappend alloc bytes)
      bytes := by
  rintro ⟨p, calls⟩ text ⟨h, hended⟩
  rcases printbufMemappend_spec h.wf bytes calls with
    ⟨p', calls', hrun, hwf, htext, hended'⟩ | ⟨hrun, hfail, -⟩
  · exact ⟨_, _, hrun, ⟨h.append hwf htext, hended'⟩, fun _ => Int.natCast_nonneg _⟩
  · exact ⟨_, _, hrun, ⟨h.lose hfail bytes, hended⟩, fun hall => absurd hfail (hall calls)⟩

theorem sprintbuf_emits (text : List Byte) :
    Emits (PrintedEnded alloc) (PrintedEnded alloc) (Tells alloc) (sprintbuf alloc text) text := by
  rintro ⟨p, calls⟩ before ⟨h, hended⟩
  unfold sprintbuf
  dsimp only
  split_ifs with hlong
  · cases halloc : alloc calls with
    | none => exact ⟨_, _, rfl, ⟨h.lose halloc text, hended⟩, fun hall => absurd halloc (hall _)⟩
    | some fresh => exact printbufMemappend_emits alloc text _ before ⟨h, hended⟩
  · exact printbufMemappend_emits alloc text _ before ⟨h, hended⟩

/-- The first piece, when it is short: the buffer has room for it from the beginning. -/
theorem sprintbuf_first {text : List Byte} (hshort : text.length < 32) :
    Emits Blank (PrintedEnded alloc) (Tells alloc) (sprintbuf alloc text) text := by
  rintro ⟨p, calls⟩ before ⟨hwf, hnil, rfl⟩
  have hsize := hwf.size
  have hbpos := hwf.length_text
  rw [hnil, List.length_nil] at hbpos
  rw [sprintbuf, if_neg (by omega)]
  rcases printbufMemappend_spec hwf text calls with
    ⟨p', calls', hrun, hwf', htext, hended⟩ | ⟨-, -, hfull⟩
  · rw [hnil, List.nil_append] at htext
    refine ⟨_, _, hrun, ⟨⟨hwf', ?_, fun _ => htext⟩, hended⟩, fun _ => Int.natCast_nonneg _⟩
    exact htext ▸ List.Sublist.refl _
  · dsimp only at hsize hbpos hfull
    omega

theorem appendRun_emits (run : List Byte) :
    Emits (PrintedEnded alloc) (PrintedEnded alloc) (fun _ => True) (appendRun alloc run) run := by
  unfold appendRun
  split_ifs with hpos
  · have h := (printbufMemappend_emits alloc run).seq (P := fun _ : Unit => True)
      (.pure (a := ()) trivial)
    rwa [List.append_nil] at h
  · rw [show run = [] by simpa using hpos]
    exact .pure trivial

theorem jsonEscapeStr_cons (c : Byte) (str : List Byte) : jsonEscapeStr (c :: str) =
    if c = 0 then [] else jsonEscapeChar c ++ jsonEscapeStr str := by
  unfold jsonEscapeStr
  rw [cstr_cons]
  split_ifs with hnul
  · rfl
  · rfl

/-- The characters between two escapes are appended as one piece. -/
theorem jsonEscapeStrLoop_emits (run str : List Byte) :
    Emits (PrintedEnded alloc) (PrintedEnded alloc) (fun _ => True)
      (jsonEscapeStrLoop alloc run str) (run ++ jsonEscapeStr str) := by
  induction str generalizing run with
  | nil =>
    rw [show jsonEscapeStr [] = [] from rfl, List.append_nil]
    exact appendRun_emits alloc run
  | cons c str ih =>
    have hescape : ∀ piece : List Byte, jsonEscapeChar c = piece → c ≠ 0 →
        run ++ jsonEscapeStr (c :: str) = run ++ (piece ++ ([] ++ jsonEscapeStr str)) := by
      rintro piece rfl hnul
      rw [jsonEscapeStr_cons, if_neg hnul, List.nil_append]
    rw [jsonEscapeStrLoop]
    split_ifs with hnul hpair hcontrol
    · rw [jsonEscapeStr_cons, if_pos hnul, List.append_nil]
      exact appendRun_emits alloc run
    · rw [hescape _ ?_ hnul]
      · exact (appendRun_emits alloc run).seq ((printbufMemappend_emits alloc _).seq (ih []))
      · rcases hpair with rfl | rfl | rfl | rfl | rfl <;> rfl
    · rw [hescape _ ?_ hnul]
      · exact (appendRun_emits alloc run).seq ((sprintbuf_emits alloc _).seq (ih []))
      · simp only [not_or] at hpair
        rw [jsonEscapeChar, if_neg hpair.1, if_neg hpair.2.1, if_neg hpair.2.2.1,
          if_neg hpair.2.2.2.1, if_neg hpair.2.2.2.2, if_pos hcontrol]
    · rw [hescape [c] ?_ hnul, List.nil_append, ← List.append_assoc]
      · exact ih _
      · simp only [not_or] at hpair
        exact jsonEscapeChar_of_printable hpair.2.2.2.2 hcontrol

namespace JsonObject

/-- The piece that a value is begun with. -/
def firstPiece : JsonObject → List Byte
  | .null => lit "null"
  | .boolean b => if b then lit "true" else lit "false"
  | .double lf => lf
  | .int i => decimal i
  | .object _ => lit "\x7b"
  | .array _ => lit "["
  | .string _ => lit "\""

mutual

theorem print_emits {pre : Printbuf × Nat → List Byte → Prop} : ∀ v : JsonObject,
    Emits pre (PrintedEnded alloc) (Tells alloc) (sprintbuf alloc v.firstPiece) v.firstPiece →
      Emits pre (PrintedEnded alloc) (Tells alloc) (v.print alloc) v.toJsonString
  | .null, h => h
  | .boolean true, h => h
  | .boolean false, h => h
  | .double _, h => h
  | .int _, h => h
  | .object entries, h => by
    rw [toJsonString, List.append_assoc, print]
    exact h.seq ((printEntries_emits 0 entries).seq (sprintbuf_emits alloc _))
  | .array elems, h => by
    rw [toJsonString, List.append_assoc, print]
    exact h.seq ((printElems_emits 0 elems).seq (sprintbuf_emits alloc _))
  | .string s, h => by
    rw [toJsonString, List.append_assoc, print]
    have hlast : Emits (PrintedEnded alloc) (PrintedEnded alloc) (Tells alloc)
        (sprintbuf alloc (lit "\"") >>= fun _ => pure 0) (lit "\"" ++ []) :=
      (sprintbuf_emits alloc _).seq (.pure fun _ => le_refl 0)
    exact h.seq ((jsonEscapeStrLoop_emits alloc [] s).seq hlast)

theorem printEntries_emits : ∀ (i : Nat) (entries : List (List Byte × JsonObject)),
    Emits (PrintedEnded alloc) (PrintedEnded alloc) (fun _ => True) (printEntries alloc i entries)
      (entriesToJsonString i entries)
  | _, [] => .pure trivial
  | i, (key, val) :: entries => by
    have hentry := (sprintbuf_emits alloc (lit " \"")).seq
      ((jsonEscapeStrLoop_emits alloc [] key).seq ((sprintbuf_emits alloc (lit "\": ")).seq
        ((print_emits val (sprintbuf_emits alloc _)).seq (printEntries_emits (i + 1) entries))))
    rw [entriesToJsonString, printEntries]
    simp only [List.append_assoc]
    split_ifs
    · exact (sprintbuf_emits alloc (lit ",")).seq hentry
    · exact hentry

theorem printElems_emits : ∀ (i : Nat) (elems : List JsonObject),
    Emits (PrintedEnded alloc) (PrintedEnded alloc) (fun _ => True) (printElems alloc i elems)
      (elemsToJsonString i elems)
  | _, [] => .pure trivial
  | i, val :: elems => by
    have helem := (print_emits val (sprintbuf_emits alloc _)).seq
      (printElems_emits (i + 1) elems)
    rw [elemsToJsonString, printElems]
    simp only [List.append_assoc]
    split_ifs
    · exact (sprintbuf_emits alloc (lit ", ")).seq helem
    · exact (sprintbuf_emits alloc (lit " ")).seq helem

end

/-- Only a number can be long, and it is one piece. -/
theorem print_cases (v : JsonObject) :
    v.firstPiece.length < 32 ∨ v.print alloc = sprintbuf alloc v.toJsonString := by
  cases v with
  | null => exact .inl (by decide)
  | boolean b => exact .inl (by cases b <;> decide)
  | double lf => exact .inr rfl
  | int i => exact .inr rfl
  | object entries => exact .inl (show (lit "\x7b").length < 32 by decide)
  | array elems => exact .inl (show (lit "[").length < 32 by decide)
  | string s => exact .inl (show (lit "\"").length < 32 by decide)

end JsonObject

/-! ## The texts that are returned -/

theorem sprintbuf_alone {p : Printbuf} (h : p.Wf) (hnil : p.text = []) (text : List Byte)
    (calls : Nat) : ∃ ret p' calls', sprintbuf alloc text (p, calls) = some (ret, p', calls') ∧
      p'.Wf ∧ (ret < 0 ∧ ¬ Granted alloc ∨ 0 ≤ ret ∧ p'.text = text ∧ p'.Ended) := by
  have happend : ∀ calls, ∃ ret p' calls',
      printbufMemappend alloc text (p, calls) = some (ret, p', calls') ∧ p'.Wf ∧
        (ret < 0 ∧ ¬ Granted alloc ∨ 0 ≤ ret ∧ p'.text = text ∧ p'.Ended) := by
    intro calls
    rcases printbufMemappend_spec h text calls with
      ⟨p', calls', hrun, hwf, htext, hended⟩ | ⟨hrun, hfail, -⟩
    · rw [hnil, List.nil_append] at htext
      exact ⟨_, p', calls', hrun, hwf, .inr ⟨Int.natCast_nonneg _, htext, hended⟩⟩
    · exact ⟨_, p, _, hrun, h, .inl ⟨by decide, fun hall => hall calls hfail⟩⟩
  unfold sprintbuf
  dsimp only
  split_ifs with hlong
  · cases halloc : alloc calls with
    | none => exact ⟨_, p, _, rfl, h, .inl ⟨by decide, fun hall => hall calls halloc⟩⟩
    | some fresh => exact happend _
  · exact happend _

/-- What is printed into an empty buffer. -/
theorem JsonObject.print_spec (v : JsonObject) {p : Printbuf} (h : p.Wf) (hnil : p.text = [])
    (calls : Nat) : ∃ ret p' calls', v.print alloc (p, calls) = some (ret, p', calls') ∧ p'.Wf ∧
      (ret < 0 ∧ ¬ Granted alloc ∨
        p'.text.Sublist v.toJsonString ∧ p'.Ended ∧
          (Granted alloc → 0 ≤ ret ∧ p'.text = v.toJsonString)) := by
  rcases v.print_cases alloc with hshort | hone
  · obtain ⟨ret, ⟨p', calls'⟩, hrun, ⟨hprinted, hended⟩, htells⟩ :=
      print_emits alloc v (sprintbuf_first alloc hshort) (p, calls) [] ⟨h, hnil, rfl⟩
    refine ⟨ret, p', calls', hrun, hprinted.wf, .inr ⟨hprinted.sub, hended, fun hall => ?_⟩⟩
    exact ⟨htells hall, hprinted.exact hall⟩
  · obtain ⟨ret, p', calls', hrun, hwf, hcases⟩ := sprintbuf_alone alloc h hnil v.toJsonString calls
    rw [hone]
    refine ⟨ret, p', calls', hrun, hwf, hcases.imp_right fun ⟨hret, htext, hended⟩ => ?_⟩
    exact ⟨htext ▸ List.Sublist.refl _, hended, fun _ => ⟨hret, htext⟩⟩

theorem cstr_sublist (s : List Byte) : (cstr s).Sublist s := List.takeWhile_sublist _

theorem printbufNew_spec (calls : Nat) :
    (∀ p ∈ (printbufNew alloc calls).1, p.Wf ∧ p.text = []) ∧
      (Granted alloc → (printbufNew alloc calls).1 ≠ none) := by
  unfold printbufNew
  split
  · next hfirst => exact ⟨by simp, fun hall => absurd hfirst (hall calls)⟩
  · refine ⟨fun p hp => ?_, fun hall => by simpa using hall (calls + 1)⟩
    obtain ⟨fresh, -, rfl⟩ := Option.map_eq_some_iff.mp hp
    exact ⟨.new fresh, rfl⟩

theorem bufferFor_spec {kept : Kept} (h : ∀ p ∈ kept.1, p.Wf) :
    (∀ p ∈ (bufferFor alloc kept).1, p.Wf ∧ p.text = []) ∧
      (Granted alloc → (bufferFor alloc kept).1 ≠ none) := by
  obtain ⟨pb, calls⟩ := kept
  cases pb with
  | none => exact printbufNew_spec alloc calls
  | some p =>
    refine ⟨?_, fun _ => Option.some_ne_none _⟩
    rintro p' ⟨⟩
    exact ⟨(h p rfl).reset, text_reset p⟩

/-- One call, with the buffer that earlier ones left behind. -/
theorem jsonObjectToJsonString_spec (this : JsonObject) {kept : Kept}
    (h : ∀ p ∈ kept.1, p.Wf) : ∃ text kept',
      jsonObjectToJsonString alloc this kept = some (text, kept') ∧ (∀ p ∈ kept'.1, p.Wf) ∧
      (∀ s ∈ text, s.Sublist this.toJsonString) ∧
      (Granted alloc → text = some (cstr this.toJsonString)) := by
  by_cases hnull : this = .null
  · subst hnull
    exact ⟨_, _, rfl, h, by rintro s ⟨⟩; exact List.Sublist.refl _, fun _ => rfl⟩
  have hcall : jsonObjectToJsonString alloc this kept =
      match bufferFor alloc kept with
      | (none, calls) => some (none, none, calls)
      | (some p, calls) =>
        (this.print alloc (p, calls)).bind fun (ret, p, calls) =>
          if ret < 0 then some (none, some p, calls)
          else p.str.map fun text => (some text, some p, calls) := by
    cases this <;> first | rfl | exact absurd rfl hnull
  obtain ⟨hbuf, hgranted⟩ := bufferFor_spec alloc h
  rw [hcall]
  generalize bufferFor alloc kept = buffer at hbuf hgranted
  obtain ⟨_ | p, calls⟩ := buffer
  · exact ⟨none, _, rfl, by simp, by simp, fun hall => absurd rfl (hgranted hall)⟩
  · obtain ⟨hwf, hnil⟩ := hbuf p rfl
    obtain ⟨ret, p', calls', hrun, hwf', hcases⟩ := this.print_spec alloc hwf hnil calls
    have hkept : ∀ q ∈ (some p', calls').1, q.Wf := by
      rintro q ⟨⟩
      exact hwf'
    simp only [hrun, Option.bind_some]
    by_cases hneg : ret < 0
    · rw [if_pos hneg]
      refine ⟨none, _, rfl, hkept, by simp, fun hall => ?_⟩
      rcases hcases with ⟨-, hnot⟩ | ⟨-, -, hexact⟩
      · exact absurd hall hnot
      · exact absurd (hexact hall).1 (Int.not_le.mpr hneg)
    · rw [if_neg hneg]
      obtain ⟨hsub, hended, hexact⟩ := hcases.resolve_left fun hfail => hneg hfail.1
      rw [str_eq hended, Option.map_some]
      refine ⟨_, _, rfl, hkept, ?_, fun hall => by rw [(hexact hall).2]⟩
      rintro s ⟨⟩
      exact (cstr_sublist _).trans hsub

/-- Over all calls for an object, nothing is written behind its buffer, and nothing is read there,
since a NUL in it ends every text, whatever requests for memory fail: a text is then what is left of
the text of the value, and if none fails all of it. -/
theorem toJsonStringRun_spec (alloc : Nat → Option (Nat → Byte)) (values : List JsonObject) :
    ∃ texts, toJsonStringRun alloc values (none, 0) = some texts ∧
      List.Forall₂ (fun v text => ∀ s ∈ text, s.Sublist v.toJsonString) values texts ∧
      ((∀ n, alloc n ≠ none) → texts = values.map fun v => some (cstr v.toJsonString)) := by
  have hrun : ∀ kept : Kept, (∀ p ∈ kept.1, p.Wf) → ∃ texts,
      toJsonStringRun alloc values kept = some texts ∧
      List.Forall₂ (fun v text => ∀ s ∈ text, s.Sublist v.toJsonString) values texts ∧
      (Granted alloc → texts = values.map fun v => some (cstr v.toJsonString)) := by
    induction values with
    | nil => exact fun _ _ => ⟨[], rfl, .nil, fun _ => rfl⟩
    | cons this later ih =>
      intro kept hkept
      obtain ⟨text, kept', hcall, hkept', hsub, hexact⟩ :=
        jsonObjectToJsonString_spec alloc this hkept
      obtain ⟨texts, hlater, hsubs, hexacts⟩ := ih kept' hkept'
      refine ⟨text :: texts, ?_, .cons hsub hsubs, fun hall => ?_⟩
      · simp only [toJsonStringRun, hcall, Option.bind_some, hlater, Option.map_some]
      · rw [hexact hall, hexacts hall]
        rfl
  exact hrun (none, 0) (by simp)

end PamSmsauth
