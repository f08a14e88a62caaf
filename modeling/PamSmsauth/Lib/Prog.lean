import Mathlib.Logic.Basic
import Mathlib.Data.List.Basic

/-!
# Programs over an interface of operations

A program is a tree: it returns, or it asks one operation of its interface and goes on with the
answer. Nothing is said about what an operation does; a `Handler` gives each operation its answer
and its effect on a shared state. The same tree is then run alone to its end (`run`, with the list
of events it caused, `trace`) or one operation at a time among other programs (`Lib.Pool`).

`Asks P p` says that every operation `p` can ask, whatever the answers, satisfies `P`, `Gives Q p`
that every result does.
-/

namespace Eff

/-- Operations and the type of each one's answer. -/
structure Iface where
  Op : Type
  Ans : Op → Type

/-- One operation asked, with its answer. -/
abbrev Event (I : Iface) := (op : I.Op) × I.Ans op

inductive Prog (I : Iface) (α : Type) where
  | ret (a : α)
  | ask (op : I.Op) (k : I.Ans op → Prog I α)

/-- What an operation answers in a state, and the state it leaves. -/
abbrev Handler (I : Iface) (σ : Type) := (op : I.Op) → σ → I.Ans op × σ

namespace Prog

variable {I : Iface} {α β σ : Type}

def bind : Prog I α → (α → Prog I β) → Prog I β
  | .ret a, f => f a
  | .ask op k, f => .ask op fun x => (k x).bind f

instance : Monad (Prog I) where
  pure := .ret
  bind := bind

/-- Ask one operation and return its answer. -/
def perform (op : I.Op) : Prog I (I.Ans op) := .ask op .ret

@[simp] theorem pure_def (a : α) : (pure a : Prog I α) = .ret a := rfl
@[simp] theorem ret_bind (a : α) (f : α → Prog I β) : (.ret a : Prog I α) >>= f = f a := rfl
@[simp] theorem ask_bind (op : I.Op) (k : I.Ans op → Prog I α) (f : α → Prog I β) :
    Prog.ask op k >>= f = .ask op fun x => k x >>= f := rfl
-- The answer type is kept out of the simp index: at a concrete operation it has been reduced.
@[simp] theorem perform_bind (op : I.Op) (f : I.Ans op → Prog I β) :
    @Bind.bind _ _ (no_index _) _ (perform op) f = .ask op f := rfl

theorem bind_assoc {γ : Type} (p : Prog I α) (f : α → Prog I β) (g : β → Prog I γ) :
    p >>= f >>= g = p >>= fun a => f a >>= g := by
  induction p with
  | ret a => rfl
  | ask op k ih => simp only [ask_bind]; exact congrArg _ (funext ih)

/-! ## Running alone -/

/-- Run to the end: the result and the final state. -/
def run (h : Handler I σ) : Prog I α → σ → α × σ
  | .ret a, s => (a, s)
  | .ask op k, s => (k (h op s).1).run h (h op s).2

/-- The events of the run, in order. -/
def trace (h : Handler I σ) : Prog I α → σ → List (Event I)
  | .ret _, _ => []
  | .ask op k, s => ⟨op, (h op s).1⟩ :: (k (h op s).1).trace h (h op s).2

variable (h : Handler I σ)

@[simp] theorem run_ret (a : α) (s : σ) : (ret a : Prog I α).run h s = (a, s) := rfl
@[simp] theorem run_ask (op : I.Op) (k : I.Ans op → Prog I α) (s : σ) :
    (ask op k).run h s = (k (h op s).1).run h (h op s).2 := rfl
@[simp] theorem trace_ret (a : α) (s : σ) : (ret a : Prog I α).trace h s = [] := rfl
@[simp] theorem trace_ask (op : I.Op) (k : I.Ans op → Prog I α) (s : σ) :
    (ask op k).trace h s = ⟨op, (h op s).1⟩ :: (k (h op s).1).trace h (h op s).2 := rfl

theorem run_bind (p : Prog I α) (f : α → Prog I β) (s : σ) :
    (p >>= f).run h s = (f (p.run h s).1).run h (p.run h s).2 := by
  induction p generalizing s with
  | ret a => rfl
  | ask op k ih => exact ih _ _

/-- `run_bind` for a first part whose run is known: the form to rewrite with, since an answer cannot
be rewritten inside an operation that was already asked. -/
theorem run_bind_of {p : Prog I α} {f : α → Prog I β} {s s' : σ} {a : α}
    (hp : p.run h s = (a, s')) : (p >>= f).run h s = (f a).run h s' := by
  rw [run_bind, hp]

theorem trace_bind (p : Prog I α) (f : α → Prog I β) (s : σ) :
    (p >>= f).trace h s = p.trace h s ++ (f (p.run h s).1).trace h (p.run h s).2 := by
  induction p generalizing s with
  | ret a => rfl
  | ask op k ih => exact congrArg (_ :: ·) (ih _ _)

/-- The events of the second part, in a run whose first part is known, are among those of the
whole. -/
theorem sublist_trace_bind {p : Prog I α} {f : α → Prog I β} {s s' : σ} {a : α}
    (hp : p.run h s = (a, s')) {es : List (Event I)} (hes : es.Sublist ((f a).trace h s')) :
    es.Sublist ((p >>= f).trace h s) := by
  rw [trace_bind, hp]
  exact hes.trans (List.sublist_append_right ..)

/-! ## What a program can ask -/

/-- Every operation the program can ask satisfies `P`. -/
def Asks (P : I.Op → Prop) : Prog I α → Prop
  | .ret _ => True
  | .ask op k => P op ∧ ∀ x, (k x).Asks P

variable {P : I.Op → Prop}

@[simp] theorem asks_ret (a : α) : (ret a : Prog I α).Asks P := trivial
@[simp] theorem asks_ask (op : I.Op) (k : I.Ans op → Prog I α) :
    (ask op k).Asks P ↔ P op ∧ ∀ x, (k x).Asks P := Iff.rfl

theorem Asks.bind {p : Prog I α} {f : α → Prog I β} (hp : p.Asks P) (hf : ∀ a, (f a).Asks P) :
    (p >>= f).Asks P := by
  induction p with
  | ret a => exact hf a
  | ask op k ih => exact ⟨hp.1, fun x => ih x (hp.2 x)⟩

theorem Asks.ite {c : Prop} [Decidable c] {p q : Prog I α} (hp : p.Asks P) (hq : q.Asks P) :
    (if c then p else q).Asks P := by
  split
  · exact hp
  · exact hq

theorem Asks.mono {Q : I.Op → Prop} {p : Prog I α} (hp : p.Asks P) (h : ∀ op, P op → Q op) :
    p.Asks Q := by
  induction p with
  | ret a => trivial
  | ask op k ih => exact ⟨h _ hp.1, fun x => ih x (hp.2 x)⟩

/-- What was asked in a run could be asked. -/
theorem Asks.of_mem_trace {p : Prog I α} (hp : p.Asks P) {s : σ} {e : Event I}
    (he : e ∈ p.trace h s) : P e.1 := by
  induction p generalizing s with
  | ret a => cases he
  | ask op k ih =>
    rcases List.mem_cons.mp he with rfl | he
    · exact hp.1
    · exact ih _ (hp.2 _) he

/-- An answer in the events is what the handler gives in some state. -/
theorem ans_of_mem_trace {p : Prog I α} {s : σ} {e : Event I} (he : e ∈ p.trace h s) :
    ∃ s', (h e.1 s').1 = e.2 := by
  induction p generalizing s with
  | ret a => cases he
  | ask op k ih =>
    rcases List.mem_cons.mp he with rfl | he
    · exact ⟨s, rfl⟩
    · exact ih _ he

/-- What the first part of a run cannot ask was asked in the second. -/
theorem Asks.mem_trace_of_bind {p : Prog I α} (hp : p.Asks P) {f : α → Prog I β} {s s' : σ} {a : α}
    (hrun : p.run h s = (a, s')) {e : Event I} (he : e ∈ (p >>= f).trace h s) (hP : ¬ P e.1) :
    e ∈ (f a).trace h s' := by
  rw [trace_bind, hrun] at he
  rcases List.mem_append.mp he with he | he
  · exact absurd (hp.of_mem_trace h he) hP
  · exact he

/-- Two handlers that agree on every operation a program can ask run it alike. -/
theorem run_congr {h' : Handler I σ} {p : Prog I α} (hp : p.Asks fun op => ∀ s, h op s = h' op s)
    (s : σ) : p.run h s = p.run h' s := by
  induction p generalizing s with
  | ret a => rfl
  | ask op k ih =>
    simp only [run_ask]
    rw [hp.1 s]
    exact ih _ (hp.2 _) _

/-! ## What a program can return -/

/-- Every result satisfies `Q`, whatever the answers. -/
def Gives (Q : α → Prop) : Prog I α → Prop
  | .ret a => Q a
  | .ask _ k => ∀ x, (k x).Gives Q

theorem Gives.bind_of {R : α → Prop} {Q : β → Prop} {p : Prog I α} {f : α → Prog I β}
    (hp : p.Gives R) (hf : ∀ a, R a → (f a).Gives Q) : (p >>= f).Gives Q := by
  induction p with
  | ret a => exact hf a hp
  | ask op k ih => exact fun x => ih x (hp x)

theorem Gives.bind {Q : β → Prop} {p : Prog I α} {f : α → Prog I β} (hf : ∀ a, (f a).Gives Q) :
    (p >>= f).Gives Q := by
  induction p with
  | ret a => exact hf a
  | ask op k ih => exact fun x => ih x

theorem Gives.mono {Q R : α → Prop} {p : Prog I α} (hp : p.Gives Q) (h : ∀ a, Q a → R a) :
    p.Gives R := by
  induction p with
  | ret a => exact h a hp
  | ask op k ih => exact fun x => ih x (hp x)

theorem Gives.run {Q : α → Prop} {p : Prog I α} (hp : p.Gives Q) (s : σ) : Q (p.run h s).1 := by
  induction p generalizing s with
  | ret a => exact hp
  | ask op k ih => exact ih _ (hp _) _

end Prog

end Eff
