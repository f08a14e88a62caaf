import PamSmsauth.Lib.CText

/-!
# The bundled JSON objects (`json/json_object.c`, `json/linkhash.c`)

A `struct json_object *` is a `JsonObject`; the NULL pointer is `null`. A hash table with its
entries linked in insertion order is the list of its entries: adding a key deletes the entry that
has it and appends a new one. Strings and keys are what `strdup` copied, so they end at a NUL. A
double is known by the text that `%lf` prints for it.
-/

namespace PamSmsauth

open CText

inductive JsonObject where
  | null
  | boolean (b : Bool)
  | double (lf : List Byte)
  | int (i : Int)
  | object (entries : List (List Byte × JsonObject))
  | array (elems : List JsonObject)
  | string (s : List Byte)

def jsonHexChars : List Byte := lit "0123456789abcdef"

/-- What `json_escape_str` appends for one character. -/
def jsonEscapeChar (c : Byte) : List Byte :=
  if c = 8 then [92, 98]
  else if c = 10 then [92, 110]
  else if c = 13 then [92, 114]
  else if c = 9 then [92, 116]
  else if c = 34 then [92, 34]
  else if c < 32 then
    lit "\\u00" ++ [jsonHexChars.getD (c.toNat / 16) 0, jsonHexChars.getD (c.toNat % 16) 0]
  else [c]

def jsonEscapeStr (str : List Byte) : List Byte := (cstr str).flatMap jsonEscapeChar

namespace JsonObject

def newString (s : List Byte) : JsonObject := .string (cstr s)

def newObject : JsonObject := .object []

def newArray : JsonObject := .array []

/-- `json_object_get_object`; `none` is NULL. -/
def getObject : JsonObject → Option (List (List Byte × JsonObject))
  | .object entries => some entries
  | _ => none

/-- `lh_table_delete` and `lh_table_insert`. -/
def addEntry {α : Type} (key : List Byte) (val : α) (entries : List (List Byte × α)) :
    List (List Byte × α) :=
  entries.filter (·.1 ≠ key) ++ [(key, val)]

/-- `json_object_object_add`, on an object. -/
def objectAdd (this : JsonObject) (key : List Byte) (val : JsonObject) : JsonObject :=
  match this with
  | .object entries => .object (addEntry (cstr key) val entries)
  | _ => this

/-- `json_object_array_add`, on an array. -/
def arrayAdd (this val : JsonObject) : JsonObject :=
  match this with
  | .array elems => .array (elems ++ [val])
  | _ => this

mutual

def toJsonString : JsonObject → List Byte
  | .null => lit "null"
  | .boolean b => if b then lit "true" else lit "false"
  | .double lf => lf
  | .int i => decimal i
  | .object entries => [123] ++ entriesToJsonString 0 entries ++ [32, 125]
  | .array elems => [91] ++ elemsToJsonString 0 elems ++ [32, 93]
  | .string s => [34] ++ jsonEscapeStr s ++ [34]

def entriesToJsonString : Nat → List (List Byte × JsonObject) → List Byte
  | _, [] => []
  | i, (key, val) :: entries =>
    (if i ≠ 0 then [44] else []) ++ [32, 34] ++ jsonEscapeStr key ++ [34, 58, 32] ++
      toJsonString val ++ entriesToJsonString (i + 1) entries

def elemsToJsonString : Nat → List JsonObject → List Byte
  | _, [] => []
  | i, val :: elems =>
    (if i ≠ 0 then [44, 32] else [32]) ++ toJsonString val ++ elemsToJsonString (i + 1) elems

end

theorem addEntry_of_not_mem {α : Type} {key : List Byte} {val : α}
    {entries : List (List Byte × α)} (h : ∀ e ∈ entries, e.1 ≠ key) :
    addEntry key val entries = entries ++ [(key, val)] := by
  rw [addEntry, List.filter_eq_self.mpr]
  intro e he
  simpa using h e he

end JsonObject

end PamSmsauth
