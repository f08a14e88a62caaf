import PamSmsauth.Lib.Prog
import PamSmsauth.Sms
import PamSmsauth.Table

/-!
# The database helpers (`sqlite_client.c`, `pam_register_var.c`)

The module is a program over the operations `Op`: each database helper opens the database and
executes one or two statements, each of which is one operation, so that other processes' statements
can fall between them. `Site` names the helper call of `pam_sm_authenticate` that an operation
belongs to; no call is made twice in one login, so an operation occurs at most once in it.

The helpers keep the source's conventions: a lookup that fails returns a negative id,
`sqlite_get_next_rowid` folds its error into the id 0, `sqlite_get_col_str` hands back its buffer
whether or not a callback filled it, and `callback_data_int` stores 32 bits into a `long long`.
-/

namespace PamSmsauth

open CText Eff

/-- The helper calls of `pam_sm_authenticate`. -/
inductive Site where
  | isRegisteredTimestamp | unregisterExpirVars | isRegisteredUser | registerInit
  | isRegisteredOtp | registerOtp | getOtp
  deriving DecidableEq, Repr

def varMaxlen : Nat := 32

/-- The bytes that `malloc((VAR_MAXLEN + 1) * sizeof (char))` happens to hold. -/
abbrev Buffer := { b : List Byte // b.length = varMaxlen + 1 }

/-- A 64-bit `time_t`. -/
abbrev TimeT := { t : Int // -2 ^ 63 ≤ t ∧ t < 2 ^ 63 }

inductive Op where
  | time
  | getpwnam (user : CString)
  | openDb (site : Site)
  | malloc (site : Site)
  | exec (site : Site) (stmt : Stmt)
  | urandom (len : Nat)
  | smsRequest (sockPath : List Byte) (req : JsonPacketReq)
  | smsResponse
  | prompt
  deriving DecidableEq

/-- `getpwnam` answers with the GECOS field, `urandom` with the words read, `smsRequest` with the
failure that ends `sms_send` before a response is awaited. -/
abbrev Op.Ans : Op → Type
  | .time => TimeT
  | .getpwnam _ => Option CString
  | .openDb _ => Code
  | .malloc _ => Buffer
  | .exec _ _ => Reply
  | .urandom _ => Option (Nat → UInt64)
  | .smsRequest _ _ => Option SendFailure
  | .smsResponse => Response
  | .prompt => Option CString

abbrev pamIface : Iface := ⟨Op, Op.Ans⟩

abbrev PamProg := Prog pamIface

/-- Ask an operation of the module's interface. -/
abbrev ask (op : Op) : PamProg op.Ans := Prog.perform (I := pamIface) op

/-! ## `sqlite3_exec` and the callbacks -/

/-- Feed the delivered rows to a callback until it returns nonzero. -/
def feed {β : Type} (callback : β → List Cell → β × Bool) (arg : β) : List (List Cell) → β × Bool
  | [] => (arg, false)
  | row :: rows =>
    if (callback arg row).2 then ((callback arg row).1, true)
    else feed callback (callback arg row).1 rows

/-- `sqlite3_exec(db, sql, callback, &arg, ..)`: what is left in `arg`, and the result code. -/
def sqlite3Exec {β : Type} (site : Site) (stmt : Stmt) (callback : β → List Cell → β × Bool)
    (arg : β) : PamProg (β × Code) := do
  let reply ← ask (.exec site stmt)
  return ((feed callback arg reply.rows).1,
    if (feed callback arg reply.rows).2 then .abort else reply.code)

def callbackRowid : Int → List Cell → Int × Bool
  | id, [] => (id, false)
  | id, none :: _ => (id, true)
  | _, some data :: fields => callbackRowid (atoi data) fields

def callbackDataStr : List Byte → List Cell → List Byte × Bool
  | result, [] => (result, false)
  | result, none :: _ => (result, true)
  | result, some data :: fields =>
    let size := min (cstr data).length varMaxlen
    callbackDataStr ((cstr data).take size ++ 0 :: result.drop (size + 1)) fields

/-- `*(int *)result = v` on a `long long`: the upper half keeps its value. -/
def storeInt (result v : Int) : Int := result - result % 2 ^ 32 + v % 2 ^ 32

def callbackDataInt : Int → List Cell → Int × Bool
  | result, [] => (result, false)
  | result, none :: _ => (result, true)
  | result, some data :: fields => callbackDataInt (storeInt result (atol data)) fields

/-! ## `sqlite_client.c` -/

def sqliteGetNextRowid (site : Site) : PamProg Int := do
  let (id, ret) ← sqlite3Exec site .selectNextRowid callbackRowid 0
  return wrap32 ((if ret ≠ .ok ∧ ret ≠ .empty ∧ ret ≠ .abort then -1 else id) + 1)

def sqliteGetRowid (site : Site) (user : CString) : PamProg Int := do
  let (id, ret) ← sqlite3Exec site (.selectRowid user) callbackRowid 0
  return if ret ≠ .ok then -2 else id

def sqliteInsertRow (site : Site) (user : CString) (timestamp : Int) : PamProg Int := do
  if (← ask (.openDb site)) ≠ .ok then return -1
  else
    let rowid ← sqliteGetNextRowid site
    if rowid < 0 then return -2
    else
      let reply ← ask (.exec site (.insertData rowid user timestamp))
      return if reply.code ≠ .ok then -4 else 0

def sqliteGetColStr (site : Site) (user : CString) (col : Column) :
    PamProg (Option (List Byte)) := do
  if (← ask (.openDb site)) ≠ .ok then return none
  else
    let value ← ask (.malloc site)
    let rowid ← sqliteGetRowid site user
    if rowid ≤ 0 then return none
    else
      let (value, result) ← sqlite3Exec site (.selectData col rowid) callbackDataStr value.1
      match result with
      | .abort => return none
      | .busy => return some value
      | .ok | .empty => return some value
      | .error => return none

def sqliteGetColInt (site : Site) (user : CString) (col : Column) : PamProg Int := do
  if (← ask (.openDb site)) ≠ .ok then return -1
  else
    let rowid ← sqliteGetRowid site user
    if rowid ≤ 0 then return -2
    else
      let (ret, result) ← sqlite3Exec site (.selectData col rowid) callbackDataInt 0
      return if result ≠ .ok ∧ result ≠ .empty then -4 else ret

/-- `sqlite_set_col_str(user, "otp", value)`. -/
def sqliteSetColStr (site : Site) (user value : CString) : PamProg Int := do
  if (← ask (.openDb site)) ≠ .ok then return -1
  else
    let rowid ← sqliteGetRowid site user
    if rowid ≤ 0 then return -2
    else
      let reply ← ask (.exec site (.updateStrData value rowid))
      return if reply.code ≠ .ok then -4 else 0

/-- `sqlite_set_col_int(user, "timestamp", value)`. -/
def sqliteSetColInt (site : Site) (user : CString) (value : Int) : PamProg Int := do
  if (← ask (.openDb site)) ≠ .ok then return -1
  else
    let rowid ← sqliteGetRowid site user
    if rowid ≤ 0 then return -2
    else
      let reply ← ask (.exec site (.updateIntData value rowid))
      return if reply.code ≠ .ok then -4 else 0

def sqliteDeleteRow (site : Site) (user : CString) : PamProg Int := do
  if (← ask (.openDb site)) ≠ .ok then return -1
  else
    let rowid ← sqliteGetRowid site user
    if rowid < 0 then return -2
    else
      let reply ← ask (.exec site (.deleteRow rowid))
      return if reply.code ≠ .ok then -4 else 0

inductive DataType where
  | varint | varchar
  deriving DecidableEq

def sqliteIsFieldEmpty (site : Site) (user : CString) (col : Column) (type : DataType) :
    PamProg Bool :=
  match type with
  | .varchar => do return (← sqliteGetColStr site user col).isNone
  | .varint => do return (← sqliteGetColInt site user col) ≤ 0

def sqliteIsRowExpir (site : Site) (user : CString) (timestamp : Int) : PamProg Int := do
  let tstamp ← sqliteGetColInt site user .timestamp
  return if tstamp ≤ 0 then -1 else if timestamp ≥ tstamp then 1 else 0

def sqlitePurgeTable (site : Site) (time : Int) : PamProg Int := do
  if (← ask (.openDb site)) ≠ .ok then return -1
  else
    let reply ← ask (.exec site (.purgeTable time))
    return if reply.code ≠ .ok then -3 else 0

/-! ## `pam_register_var.c` -/

def pamIsRegisteredVar (site : Site) (user : CString) (varName : Column) (type : DataType) :
    PamProg Bool := do
  return !(← sqliteIsFieldEmpty site user varName type)

def pamRegisterInit (user : CString) (timestamp : Int) : PamProg Bool := do
  return (← sqliteInsertRow .registerInit user timestamp) = 0

def pamRegisterOtp (user value : CString) : PamProg Bool := do
  return (← sqliteSetColStr .registerOtp user value) = 0

def pamUnregisterExpirVars (time : Int) : PamProg Bool := do
  return (← sqlitePurgeTable .unregisterExpirVars time) = 0

def pamGetOtp (user : CString) : PamProg (Option (List Byte)) :=
  sqliteGetColStr .getOtp user .otp

end PamSmsauth
