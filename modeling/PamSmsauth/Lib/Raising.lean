import PamSmsauth.Lib.Pool

/-!
# Programs that raise

A program whose operations answer with a value or raise an exception, which ends the program unless
it is caught. The rules are those of `Prog` with the two ways that a part can end told apart.
-/

namespace Eff

/-- Operations that give a value or raise. -/
structure Calls (ε : Type) where
  Op : Type
  Val : Op → Type

abbrev Calls.iface {ε : Type} (C : Calls ε) : Iface := ⟨C.Op, fun op => Except ε (C.Val op)⟩

abbrev Raising {ε : Type} (C : Calls ε) (α : Type) := ExceptT ε (Prog C.iface) α

namespace Raising

variable {ε : Type} {C : Calls ε} {α β σ : Type}

def call (op : C.Op) : Raising C (C.Val op) := ExceptT.mk (.ask op .ret)

/-- A part that asks nothing. -/
def pureExcept (x : Except ε α) : Raising C α := ExceptT.mk (.ret x)

/-- `try: x; except e: raise f(e)`. -/
def mapError (f : ε → ε) (x : Raising C α) : Raising C α :=
  ExceptT.mk (x.run >>= fun r => .ret (r.mapError f))

/-- The result, or what was raised, and the state after it. -/
def exec (x : Raising C α) (h : Handler C.iface σ) (s : σ) : Except ε α × σ := Prog.run h x.run s

/-- The events of the run. -/
def trace (x : Raising C α) (h : Handler C.iface σ) (s : σ) : List (Event C.iface) :=
  Prog.trace h x.run s

/-- What the program does; see `Prog.Traced`. -/
def Traced (V : (op : C.Op) → Except ε (C.Val op) → Prop) (P : List (Event C.iface) → C.Op → Prop)
    (Q : List (Event C.iface) → Except ε α → Prop) (x : Raising C α) (es : List (Event C.iface)) :
    Prop :=
  Prog.Traced (I := C.iface) V P Q x.run es

variable {h : Handler C.iface σ} {x : Raising C α} {f : α → Raising C β} {s : σ}

/-! ## Running -/

@[simp] theorem exec_pure (a : α) : exec (pure a : Raising C α) h s = (.ok a, s) := rfl

@[simp] theorem exec_throw (e : ε) : exec (throw e : Raising C α) h s = (.error e, s) := rfl

@[simp] theorem trace_pure (a : α) : trace (pure a : Raising C α) h s = [] := rfl

@[simp] theorem trace_throw (e : ε) : trace (throw e : Raising C α) h s = [] := rfl

@[simp] theorem exec_call (op : C.Op) : exec (call op) h s = h op s := rfl

@[simp] theorem exec_pureExcept (r : Except ε α) :
    exec (pureExcept r : Raising C α) h s = (r, s) := rfl

theorem exec_mapError (g : ε → ε) :
    exec (mapError g x) h s = ((exec x h s).1.mapError g, (exec x h s).2) :=
  Prog.run_bind h _ _ _

theorem exec_bind : exec (x >>= f) h s =
    match exec x h s with
    | (.ok a, s') => exec (f a) h s'
    | (.error e, s') => (.error e, s') := by
  have hbind := Prog.run_bind h x.run (ExceptT.bindCont f) s
  change Prog.run h (x.run >>= ExceptT.bindCont f) s = _
  rw [hbind, exec]
  rcases Prog.run h x.run s with ⟨a | e, s'⟩ <;> rfl

theorem exec_pureExcept_bind (r : Except ε α) :
    exec (pureExcept r >>= f) h s = match r with
      | .ok a => exec (f a) h s
      | .error e => (.error e, s) := by
  rw [exec_bind]
  cases r <;> rfl

theorem exec_tryCatch (g : ε → Raising C α) :
    exec (tryCatch x g) h s =
      match exec x h s with
      | (.ok a, s') => (.ok a, s')
      | (.error e, s') => exec (g e) h s' := by
  have hbind := Prog.run_bind h x.run (fun r : Except ε α => match r with
    | .ok a => Prog.ret (.ok a)
    | .error e => (g e).run) s
  rw [exec]
  refine Eq.trans ?_ (hbind.trans ?_)
  · rfl
  · rw [exec]
    rcases Prog.run h x.run s with ⟨a | e, s'⟩ <;> rfl

/-- The events of the part that raises are followed by those of the handler. -/
theorem trace_tryCatch (g : ε → Raising C α) :
    trace (tryCatch x g) h s = trace x h s ++
      match exec x h s with
      | (.ok _, _) => []
      | (.error e, s') => trace (g e) h s' := by
  have hbind := Prog.trace_bind h x.run (fun r : Except ε α => match r with
    | .ok a => Prog.ret (.ok a)
    | .error e => (g e).run) s
  refine Eq.trans ?_ (hbind.trans ?_)
  · rfl
  · rw [exec]
    rcases Prog.run h x.run s with ⟨a | e, s'⟩ <;> rfl

/-! ## What a program does -/

variable {V : (op : C.Op) → Except ε (C.Val op) → Prop} {P : List (Event C.iface) → C.Op → Prop}
  {Q : List (Event C.iface) → Except ε α → Prop} {R : List (Event C.iface) → Except ε β → Prop}
  {es : List (Event C.iface)}

/-- A part is followed by what its value leads to, unless it raises. -/
theorem Traced.bind (hx : x.Traced V P
    (fun es r => match r with | .ok a => (f a).Traced V P R es | .error e => R es (.error e)) es) :
    (x >>= f).Traced V P R es := by
  refine Prog.traced_bind.mpr (Prog.Traced.mono hx (fun _ _ h => h) fun es r hr => ?_)
  cases r with
  | ok a => exact hr
  | error e => exact hr

theorem Traced.call {op : C.Op} {Q : List (Event C.iface) → Except ε (C.Val op) → Prop}
    (hP : P es op) (hQ : ∀ r, V op r → Q (es ++ [⟨op, r⟩]) r) : (Raising.call op).Traced V P Q es :=
  ⟨hP, hQ⟩

theorem Traced.pureExcept {r : Except ε α} (hQ : Q es r) :
    (Raising.pureExcept r : Raising C α).Traced V P Q es :=
  hQ

theorem Traced.mapError {g : ε → ε} (hx : x.Traced V P (fun es r => Q es (r.mapError g)) es) :
    (Raising.mapError g x).Traced V P Q es :=
  Prog.traced_bind.mpr hx

/-- A run of the program asks and returns what it says. -/
theorem Traced.exec (hV : ∀ op s, V op (h op s).1) (hx : x.Traced V P Q []) (s : σ) :
    (∀ pre e post, x.trace h s = pre ++ e :: post → P pre e.1) ∧
      Q (x.trace h s) (x.exec h s).1 :=
  Prog.Traced.run hV hx s

theorem Traced.mono {Q' : List (Event C.iface) → Except ε α → Prop} (hx : x.Traced V P Q es)
    (hQ : ∀ es r, Q es r → Q' es r) : x.Traced V P Q' es :=
  Prog.Traced.mono hx (fun _ _ h => h) hQ

end Raising

end Eff
