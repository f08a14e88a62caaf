import PamSmsauth.JsonObject

/-!
# The bundled JSON parser (`json/json_tokener.c`)

`json_tokener_do_parse` is a loop over the states of `json_tokener_state` that calls itself for the
values in arrays and objects. An `Activation` holds the variables of one call, a `Tokener` the text
from `pos` on, the print buffer, the running call and the ones that wait for it. `iter` is one pass
through the `switch`; `cycle` adds the `while (c)`, the calls and the returns.

An error is a pointer that points to nothing: a small negative number. Where it is made of the
`enum`, which is unsigned and narrower than a pointer, `is_error` does not know it again, and the
call that waits takes it for an object. `JsonPtr` is what the parser has for an object then. To put
such an object is to follow the marker in it (`followed`).

The buffer is read from its first byte to wherever the states lead, also behind a NUL: a call that
ends in a comment or in a string has taken the NUL for one of its characters. A read behind the
buffer is `overrun`. What `sscanf` reads with `%lf` and `printf` prints with it again is the
parameter `lf`.
-/

namespace PamSmsauth

open CText

inductive JsonTokenerError where
  | parseUnexpected | parseNull | parseBoolean | parseNumber | parseArray | parseObject
  | parseString | parseComment | parseEof
  deriving DecidableEq

/-! ## Error markers -/

/-- The number of the error in `enum json_tokener_error`. -/
def JsonTokenerError.num : JsonTokenerError → UInt32
  | .parseUnexpected => 1
  | .parseNull => 2
  | .parseBoolean => 3
  | .parseNumber => 4
  | .parseArray => 5
  | .parseObject => 6
  | .parseString => 7
  | .parseComment => 8
  | .parseEof => 9

/-- `error_ptr(-err)`; the `enum` is an `unsigned int`. -/
def errorPtr (err : UInt32) : UInt64 := (-err).toUInt64

/-- `error_ptr` of a constant with its sign; the constants are of type `int`. -/
def JsonTokenerError.constPtr (e : JsonTokenerError) : UInt64 := -e.num.toUInt64

/-- `is_error`. -/
def isError (ptr : UInt64) : Bool := ptr > -4000

/-- The marker that `out` returns is none for `is_error`, the constants are. -/
theorem isError_marker (e : JsonTokenerError) :
    isError (errorPtr e.num) = false ∧ isError e.constPtr = true := by
  cases e <;> decide

/-- A `struct json_object *` of the parser. An object or an array with a marker in it, at any depth,
is marred. -/
inductive JsonPtr where
  | obj (v : JsonObject)
  | marker (ptr : UInt64)
  | marredObject (entries : List (List Byte × JsonPtr))
  | marredArray (elems : List JsonPtr)

namespace JsonPtr

/-- `json_object_put` comes to no marker. -/
def clean : JsonPtr → Bool
  | .obj _ => true
  | _ => false

/-- `is_error(obj)`, and then the error in it. -/
def err : JsonPtr → Option UInt32
  | .marker ptr => if isError ptr then some (-ptr.toUInt32) else none
  | _ => none

/-- `json_object_array_add`, on an array. -/
def arrayAdd (this val : JsonPtr) : JsonPtr :=
  match this, val with
  | .obj this, .obj val => .obj (this.arrayAdd val)
  | .obj (.array elems), val => .marredArray (elems.map .obj ++ [val])
  | .marredArray elems, val => .marredArray (elems ++ [val])
  | this, _ => this

/-- `json_object_object_add`, on an object; `none` when the value that is put is marred. -/
def objectAdd (this : JsonPtr) (key : List Byte) (val : JsonPtr) : Option JsonPtr :=
  match this, val with
  | .obj this, .obj val => some (.obj (this.objectAdd key val))
  | .obj (.object entries), val => some (.marredObject
      (JsonObject.addEntry (cstr key) val (entries.map fun e => (e.1, .obj e.2))))
  | .marredObject entries, val =>
    if ∀ e ∈ entries, e.1 = cstr key → e.2.clean then
      some (.marredObject (JsonObject.addEntry (cstr key) val entries))
    else none
  | this, _ => some this

end JsonPtr

/-- What `json_tokener_parse` comes to: it reads behind the buffer, it follows a marker, or it
returns a marker, an object, which may be NULL, or an object with a marker in it. -/
inductive JsonParsed where
  | overrun
  | followed
  | error (ptr : UInt64)
  | value (v : JsonObject)
  | marred (ptr : JsonPtr)

def JsonPtr.parsed : JsonPtr → JsonParsed
  | .obj v => .value v
  | .marker ptr => .error ptr
  | ptr => .marred ptr

/-! ## The machine -/

inductive TokenerState where
  | eatws | start | finish | null | commentStart | comment | commentEol | commentEnd
  | string | stringEscape | escapeUnicode | boolean | number | array | arraySep | object
  | objectFieldStart | objectField | objectFieldEnd | objectValue | objectSep
  deriving DecidableEq

/-- `seen` is the text from `start_offset` to `pos`. -/
structure Activation where
  state : TokenerState
  savedState : TokenerState
  current : JsonPtr
  objFieldName : List Byte
  quoteChar : Byte
  deemedDouble : Bool
  seen : List Byte

def Activation.init : Activation := ⟨.eatws, .start, .obj .null, [], 0, false, []⟩

structure Tokener where
  rest : List Byte
  pb : List Byte
  frame : Activation
  callers : List Activation

def Tokener.init (source : List Byte) : Tokener := ⟨source, [], .init, []⟩

/-- How a pass through the `switch` ends. -/
inductive Action where
  | next (t : Tokener)
  | call (t : Tokener)
  | out (current : JsonPtr)
  | error (e : JsonTokenerError)

def jsonNumberChars : List Byte := lit "0123456789.+-e"

def tolower (b : Byte) : Byte := if 65 ≤ b ∧ b ≤ 90 then b + 32 else b

def strncasecmp (a b : List Byte) (n : Nat) : Int := strncmp (a.map tolower) (b.map tolower) n

/-- `sscanf(s, "%d", &i)`; `none` when it does not return 1. -/
def sscanfInt (s : List Byte) : Option Int :=
  let digits := match s.dropWhile isspace with
    | 45 :: r => r.takeWhile isdigit
    | 43 :: r => r.takeWhile isdigit
    | r => r.takeWhile isdigit
  if digits = [] then none else some (atoi s)

/-- `hexdigit`. -/
def hexdigit (x : Byte) : Nat := if x ≤ 57 then x.toNat - 48 else x.toNat % 8 + 9

/-- The bytes that the four digits of an escape stand for. -/
def utfOut (digits : List Byte) : List Byte :=
  let ucsChar := digits.foldl (fun u d => 16 * u + hexdigit d) 0
  if ucsChar < 0x80 then [ucsChar.toUInt8]
  else if ucsChar < 0x800 then [(0xC0 + ucsChar / 64).toUInt8, (0x80 + ucsChar % 64).toUInt8]
  else [(0xE0 + ucsChar / 4096).toUInt8, (0x80 + ucsChar / 64 % 64).toUInt8,
    (0x80 + ucsChar % 64).toUInt8]

namespace Tokener

/-- `this->pos++`, for the character `c`. -/
def advance (t : Tokener) (c : Byte) : Tokener :=
  { t with rest := t.rest.tail, frame := { t.frame with seen := t.frame.seen ++ [c] } }

/-- `start_offset = this->pos`. -/
def mark (t : Tokener) : Tokener := { t with frame := { t.frame with seen := [] } }

def goto (t : Tokener) (state : TokenerState) : Tokener :=
  { t with frame := { t.frame with state } }

/-- White space and comments, and then `saved`. -/
def eatws (t : Tokener) (saved : TokenerState) : Tokener :=
  { t with frame := { t.frame with state := .eatws, savedState := saved } }

def setCurrent (t : Tokener) (v : JsonObject) : Tokener :=
  { t with frame := { t.frame with current := .obj v } }

def memappend (t : Tokener) (bytes : List Byte) : Tokener := { t with pb := t.pb ++ bytes }

/-- A string or a key begins. -/
def openQuote (t : Tokener) (c : Byte) (state : TokenerState) : Tokener :=
  (({ t with pb := [], frame := { t.frame with quoteChar := c, state } }).advance c).mark

/-- A value is complete. -/
def complete (t : Tokener) (v : JsonObject) : Tokener := (t.setCurrent v).eatws .finish

end Tokener

open Tokener

/-- `case json_tokener_state_start`. -/
def iterStart (t : Tokener) (c : Byte) : Action :=
  if c = 123 then .next (((t.setCurrent .newObject).eatws .object).advance c)
  else if c = 91 then .next (((t.setCurrent .newArray).eatws .array).advance c)
  else if c = 78 ∨ c = 110 then .next ((t.mark.goto .null).advance c)
  else if c = 34 ∨ c = 39 then .next (t.openQuote c .string)
  else if c = 84 ∨ c = 116 ∨ c = 70 ∨ c = 102 then .next ((t.mark.goto .boolean).advance c)
  else if isdigit c ∨ c = 45 then
    .next (({ t with frame := { t.frame with deemedDouble := false } }.mark.goto .number).advance c)
  else .error .parseUnexpected

/-- `case json_tokener_state_string_escape`. -/
def iterStringEscape (t : Tokener) (c : Byte) : Action :=
  let t := t.memappend t.frame.seen.dropLast
  if c = 34 ∨ c = 92 then .next ((t.mark.goto t.frame.savedState).advance c)
  else if c = 98 then .next ((((t.memappend [8]).goto t.frame.savedState).advance c).mark)
  else if c = 110 then .next ((((t.memappend [10]).goto t.frame.savedState).advance c).mark)
  else if c = 114 then .next ((((t.memappend [13]).goto t.frame.savedState).advance c).mark)
  else if c = 116 then .next ((((t.memappend [9]).goto t.frame.savedState).advance c).mark)
  else if c = 117 then .next (((t.goto .escapeUnicode).advance c).mark)
  else .error .parseString

/-- `case json_tokener_state_escape_unicode`; `strchr` also finds the terminator. -/
def iterEscapeUnicode (t : Tokener) (c : Byte) : Action :=
  if c = 0 ∨ c ∈ jsonHexChars then
    let t := t.advance c
    if t.frame.seen.length = 4 then
      .next ((t.memappend (utfOut t.frame.seen)).mark.goto t.frame.savedState)
    else .next t
  else .error .parseString

/-- `case json_tokener_state_null`. -/
def iterNull (t : Tokener) (c : Byte) : Action :=
  if strncasecmp (lit "null") t.frame.seen t.frame.seen.length ≠ 0 then .error .parseNull
  else if t.frame.seen.length = 4 then .next (t.complete .null)
  else .next (t.advance c)

/-- `case json_tokener_state_boolean`. -/
def iterBoolean (t : Tokener) (c : Byte) : Action :=
  if strncasecmp (lit "true") t.frame.seen t.frame.seen.length = 0 then
    if t.frame.seen.length = 4 then .next (t.complete (.boolean true)) else .next (t.advance c)
  else if strncasecmp (lit "false") t.frame.seen t.frame.seen.length = 0 then
    if t.frame.seen.length = 5 then .next (t.complete (.boolean false)) else .next (t.advance c)
  else .error .parseBoolean

/-- `case json_tokener_state_number`. -/
def iterNumber (lf : List Byte → Option (List Byte)) (t : Tokener) (c : Byte) : Action :=
  if c = 0 ∨ c ∉ jsonNumberChars then
    let number := if t.frame.deemedDouble then (lf t.frame.seen).map .double
      else (sscanfInt t.frame.seen).map .int
    match number with
    | some v => .next (t.complete v)
    | none => .error .parseNumber
  else if c = 46 ∨ c = 101 then
    .next ({ t with frame := { t.frame with deemedDouble := true } }.advance c)
  else .next (t.advance c)

/-- One pass through the `switch`. -/
def iter (lf : List Byte → Option (List Byte)) (t : Tokener) (c : Byte) : Action :=
  match t.frame.state with
  | .eatws =>
    if isspace c then .next (t.advance c)
    else if c = 47 then .next ((t.mark.goto .commentStart).advance c)
    else .next (t.goto t.frame.savedState)
  | .start => iterStart t c
  | .finish => .out t.frame.current
  | .null => iterNull t c
  | .commentStart =>
    if c = 42 then .next ((t.goto .comment).advance c)
    else if c = 47 then .next ((t.goto .commentEol).advance c)
    else .error .parseComment
  | .comment => .next ((if c = 42 then t.goto .commentEnd else t).advance c)
  | .commentEol => .next ((if c = 10 then t.goto .eatws else t).advance c)
  | .commentEnd => .next ((if c = 47 then t.goto .eatws else t.goto .comment).advance c)
  | .string =>
    if c = t.frame.quoteChar then
      .next (((t.memappend t.frame.seen).complete (.newString (t.pb ++ t.frame.seen))).advance c)
    else if c = 92 then
      .next (((t.eatws .string).goto .stringEscape).advance c)
    else .next (t.advance c)
  | .stringEscape => iterStringEscape t c
  | .escapeUnicode => iterEscapeUnicode t c
  | .boolean => iterBoolean t c
  | .number => iterNumber lf t c
  | .array => if c = 93 then .next ((t.eatws .finish).advance c) else .call t
  | .arraySep =>
    if c = 93 then .next ((t.eatws .finish).advance c)
    else if c = 44 then .next ((t.eatws .array).advance c)
    else .error .parseArray
  | .object => .next (t.mark.goto .objectFieldStart)
  | .objectFieldStart =>
    if c = 125 then .next ((t.eatws .finish).advance c)
    else if c = 34 ∨ c = 39 then .next (t.openQuote c .objectField)
    else .error .parseObject
  | .objectField =>
    if c = t.frame.quoteChar then
      let t := t.memappend t.frame.seen
      .next ((({ t with frame := { t.frame with objFieldName := cstr t.pb } }).eatws
        .objectFieldEnd).advance c)
    else if c = 92 then
      .next (((t.eatws .objectField).goto .stringEscape).advance c)
    else .next (t.advance c)
  | .objectFieldEnd =>
    if c = 58 then .next ((t.eatws .objectValue).advance c) else .error .parseObject
  | .objectValue => .call t
  | .objectSep =>
    if c = 125 then .next ((t.eatws .finish).advance c)
    else if c = 44 then .next ((t.eatws .object).advance c)
    else .error .parseObject

namespace Activation

/-- What `out` returns with an error; `none` when `current` has a marker in it. -/
def out (f : Activation) (err : UInt32) : Option JsonPtr :=
  if f.current.clean then some (.marker (errorPtr err)) else none

/-- What a call returns after an error. Three states do not go to `out`: they return a constant, and
only one of them puts `current` before. -/
def fail (f : Activation) (e : JsonTokenerError) : Option JsonPtr :=
  match f.state with
  | .null | .objectFieldEnd => some (.marker e.constPtr)
  | .arraySep => if f.current.clean then some (.marker e.constPtr) else none
  | _ => f.out e.num

/-- Where a call has returned `obj`, and `is_error` has not taken it: `json_object_array_add` or
`json_object_object_add`. -/
def resume (f : Activation) (obj : JsonPtr) : Option Activation :=
  match f.state with
  | .array =>
    some { f with state := .eatws, savedState := .arraySep, current := f.current.arrayAdd obj }
  | .objectValue =>
    (f.current.objectAdd f.objFieldName obj).map fun current =>
      { f with state := .eatws, savedState := .objectSep, current, objFieldName := [] }
  | _ => some f

end Activation

namespace Tokener

/-- Return `ptr` to the first of these callers. One that knows the error again goes to `out` with
it. One that goes on is in its loop still: white space was eaten up to its own character, which was
no NUL. -/
def retTo (t : Tokener) : JsonPtr → List Activation → JsonParsed ⊕ Tokener
  | ptr, [] => .inl ptr.parsed
  | ptr, f :: callers =>
    match ptr.err with
    | some err =>
      match f.out err with
      | some ptr => t.retTo ptr callers
      | none => .inl .followed
    | none =>
      match f.resume ptr with
      | some frame => .inr { t with frame, callers }
      | none => .inl .followed

def ret (t : Tokener) (ptr : JsonPtr) : JsonParsed ⊕ Tokener := t.retTo ptr t.callers

/-- Return what a call returns after an error. -/
def leave (t : Tokener) : Option JsonPtr → JsonParsed ⊕ Tokener
  | some ptr => t.ret ptr
  | none => .inl .followed

/-- The end of the loop. -/
def exit (t : Tokener) : JsonParsed ⊕ Tokener :=
  if t.frame.state ≠ .finish ∧ t.frame.savedState ≠ .finish then
    t.leave (t.frame.out JsonTokenerError.parseEof.num)
  else t.ret t.frame.current

end Tokener

/-- One pass through the loop. -/
def cycle (lf : List Byte → Option (List Byte)) (t : Tokener) : JsonParsed ⊕ Tokener :=
  match t.rest with
  | [] => .inl .overrun
  | c :: _ =>
    match iter lf t c with
    | .next t' => if c = 0 then t'.exit else .inr t'
    | .call t' => .inr { t' with frame := .init, callers := t'.frame :: t'.callers }
    | .out ptr => t.ret ptr
    | .error e => t.leave (t.frame.fail e)

def runTokener (lf : List Byte → Option (List Byte)) : Nat → Tokener → Option JsonParsed
  | 0, _ => none
  | n + 1, t =>
    match cycle lf t with
    | .inl p => some p
    | .inr t' => runTokener lf n t'

/-- `json_tokener_parse` on a buffer; the fuel is never used up (`runTokener_isSome`). -/
def jsonTokenerParse (lf : List Byte → Option (List Byte)) (source : List Byte) : JsonParsed :=
  (runTokener lf (6 * source.length + 6) (.init source)).getD .overrun

end PamSmsauth
