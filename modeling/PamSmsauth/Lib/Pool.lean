import PamSmsauth.Lib.Prog
import Mathlib.Logic.Function.Basic
import Mathlib.Order.Defs.Unbundled

/-!
# Pools of programs

A pool holds one program for each session, over one shared state. A step lets one session ask its
next operation; the answer and the effect are those of that session's handler, and the event is
appended to a log. `Reach C p₀ p`: `p` is reached from `p₀` by steps that each meet the condition
`C` (a condition on the pool before the step and on the session that moves).

`Traced` is what one program says about itself, whatever the others do: `P es op` when it is about
to ask `op` after its own events `es`, `Q es a` when it has ended. In every reachable pool all
sessions are where their judgements say (`Reach.traced`).
-/

namespace Eff

variable {I : Iface} {α β ι σ : Type}

/-- The shared state and the log of all sessions' events. -/
structure World (I : Iface) (ι σ : Type) where
  state : σ
  log : List (ι × Event I)

/-- Session `i` asks `op`. -/
def World.act (h : ι → Handler I σ) (i : ι) (op : I.Op) (w : World I ι σ) :
    I.Ans op × World I ι σ :=
  ((h i op w.state).1, ⟨(h i op w.state).2, w.log ++ [(i, ⟨op, (h i op w.state).1⟩)]⟩)

@[simp] theorem World.act_ans (h : ι → Handler I σ) (i : ι) (op : I.Op) (w : World I ι σ) :
    (w.act h i op).1 = (h i op w.state).1 := rfl
@[simp] theorem World.act_state (h : ι → Handler I σ) (i : ι) (op : I.Op) (w : World I ι σ) :
    (w.act h i op).2.state = (h i op w.state).2 := rfl
@[simp] theorem World.act_log (h : ι → Handler I σ) (i : ι) (op : I.Op) (w : World I ι σ) :
    (w.act h i op).2.log = w.log ++ [(i, ⟨op, (h i op w.state).1⟩)] := rfl

structure Pool (I : Iface) (α ι σ : Type) where
  world : World I ι σ
  sess : ι → Prog I α

namespace Pool

/-- What session `i` asks when it is scheduled. -/
def next (p : Pool I α ι σ) (i : ι) : Option I.Op :=
  match p.sess i with
  | .ret _ => none
  | .ask op _ => some op

/-- Session `i` waits at `op`. -/
def Waits (p : Pool I α ι σ) (i : ι) (op : I.Op) : Prop := p.next i = some op

instance [DecidableEq I.Op] (p : Pool I α ι σ) (i : ι) (op : I.Op) : Decidable (p.Waits i op) :=
  inferInstanceAs (Decidable (_ = _))

theorem waits_iff {p : Pool I α ι σ} {i : ι} {op : I.Op} :
    p.Waits i op ↔ ∃ k, p.sess i = .ask op k := by
  unfold Waits next
  cases h : p.sess i with
  | ret a => simp
  | ask op' k =>
    constructor
    · intro he
      cases he
      exact ⟨k, rfl⟩
    · rintro ⟨k', hk'⟩
      cases hk'
      rfl

variable [DecidableEq ι] (h : ι → Handler I σ)

/-- Session `i` is scheduled: it asks its next operation, or has ended and nothing happens. -/
def step (p : Pool I α ι σ) (i : ι) : Pool I α ι σ :=
  match p.sess i with
  | .ret _ => p
  | .ask op k => ⟨(p.world.act h i op).2, Function.update p.sess i (k (p.world.act h i op).1)⟩

/-- The sessions are scheduled in the order of the list. -/
def exec (p : Pool I α ι σ) : List ι → Pool I α ι σ
  | [] => p
  | i :: is => (p.step h i).exec is

theorem step_ask {p : Pool I α ι σ} {i : ι} {op : I.Op} {k : I.Ans op → Prog I α}
    (hk : p.sess i = .ask op k) :
    p.step h i = ⟨(p.world.act h i op).2, Function.update p.sess i (k (p.world.act h i op).1)⟩ := by
  rw [step, hk]

theorem step_ret {p : Pool I α ι σ} {i : ι} {a : α} (hk : p.sess i = .ret a) :
    p.step h i = p := by
  rw [step, hk]

theorem exec_append (p : Pool I α ι σ) (is js : List ι) :
    p.exec h (is ++ js) = (p.exec h is).exec h js := by
  induction is generalizing p with
  | nil => rfl
  | cons i is ih => exact ih _

/-- A session scheduled alone until it ends runs as its program does. -/
theorem exec_alone (p : Pool I α ι σ) (i : ι) :
    p.exec h (List.replicate ((p.sess i).trace (h i) p.world.state).length i) =
      ⟨⟨((p.sess i).run (h i) p.world.state).2,
        p.world.log ++ ((p.sess i).trace (h i) p.world.state).map (i, ·)⟩,
        Function.update p.sess i (.ret ((p.sess i).run (h i) p.world.state).1)⟩ := by
  generalize hq : p.sess i = q
  induction q generalizing p with
  | ret a =>
    have : Function.update p.sess i (.ret a) = p.sess := by rw [← hq, Function.update_eq_self]
    simp [exec, this]
  | ask op k ih =>
    simp only [Prog.trace_ask, List.length_cons, List.replicate_succ, exec, step_ask h hq]
    have := ih _ ⟨(p.world.act h i op).2, Function.update p.sess i (k (p.world.act h i op).1)⟩
      (Function.update_self ..)
    simpa using this

/-! ## Reachable pools -/

inductive Reach (C : Pool I α ι σ → ι → Prop) (p₀ : Pool I α ι σ) : Pool I α ι σ → Prop
  | init : Reach C p₀ p₀
  | step {p : Pool I α ι σ} (i : ι) : Reach C p₀ p → C p i → Reach C p₀ (p.step h i)

/-- Every step of the schedule meets the condition. -/
def Along (C : Pool I α ι σ → ι → Prop) (p : Pool I α ι σ) : List ι → Prop
  | [] => True
  | i :: is => C p i ∧ (p.step h i).Along C is

instance Along.decidable (C : Pool I α ι σ → ι → Prop) [∀ p i, Decidable (C p i)] :
    (p : Pool I α ι σ) → (is : List ι) → Decidable (p.Along h C is)
  | _, [] => .isTrue trivial
  | p, i :: is => @instDecidableAnd _ _ _ (Along.decidable C (p.step h i) is)

theorem Reach.exec {C : Pool I α ι σ → ι → Prop} {p₀ p : Pool I α ι σ} (is : List ι)
    (hp : Reach h C p₀ p) (hC : p.Along h C is) : Reach h C p₀ (p.exec h is) := by
  induction is generalizing p with
  | nil => exact hp
  | cons i is ih => exact ih (.step i hp hC.1) hC.2

end Pool

/-! ## What a program says about itself -/

namespace Prog

/-- Whenever the program asks `op` after its own events `es`, `P es op`, and when it ends with `a`,
`Q es a`; `V` limits the answers it can get. -/
def Traced (V : (op : I.Op) → I.Ans op → Prop) (P : List (Event I) → I.Op → Prop)
    (Q : List (Event I) → α → Prop) : Prog I α → List (Event I) → Prop
  | .ret a, es => Q es a
  | .ask op k, es => P es op ∧ ∀ x, V op x → (k x).Traced V P Q (es ++ [⟨op, x⟩])

variable {V : (op : I.Op) → I.Ans op → Prop} {P : List (Event I) → I.Op → Prop}
  {Q Q' : List (Event I) → α → Prop}

@[simp] theorem traced_ret {a : α} {es : List (Event I)} :
    (ret a : Prog I α).Traced V P Q es ↔ Q es a := Iff.rfl

@[simp] theorem traced_ask {op : I.Op} {k : I.Ans op → Prog I α} {es : List (Event I)} :
    (ask op k).Traced V P Q es ↔
      P es op ∧ ∀ x, V op x → (k x).Traced V P Q (es ++ [⟨op, x⟩]) := Iff.rfl

theorem traced_bind {R : List (Event I) → β → Prop} {p : Prog I α} {f : α → Prog I β}
    {es : List (Event I)} :
    (p >>= f).Traced V P R es ↔ p.Traced V P (fun es a => (f a).Traced V P R es) es := by
  induction p generalizing es with
  | ret a => exact Iff.rfl
  | ask op k ih =>
    exact and_congr_right fun _ => forall_congr' fun x => imp_congr_right fun _ => ih x

theorem Traced.mono {P' : List (Event I) → I.Op → Prop} {p : Prog I α} {es : List (Event I)}
    (hp : p.Traced V P Q es) (hP : ∀ es op, P es op → P' es op)
    (hQ : ∀ es a, Q es a → Q' es a) : p.Traced V P' Q' es := by
  induction p generalizing es with
  | ret a => exact hQ _ _ hp
  | ask op k ih => exact ⟨hP _ _ hp.1, fun x hx => ih x (hp.2 x hx)⟩

/-- What a program returns whatever it is answered. -/
theorem Gives.traced {R : α → Prop} {p : Prog I α} (hp : p.Gives R) (es : List (Event I)) :
    p.Traced V (fun _ _ => True) (fun _ a => R a) es := by
  induction p generalizing es with
  | ret a => exact hp
  | ask op k ih => exact ⟨trivial, fun x _ => ih x (hp x) _⟩

/-- A program that only asks what `N` allows keeps a property of the events that such questions
keep. -/
theorem Asks.traced {N : I.Op → Prop} {R : List (Event I) → Prop} {p : Prog I α}
    {es : List (Event I)} (hp : p.Asks N) (hP : ∀ es op, R es → N op → P es op)
    (hR : ∀ es e, R es → N e.1 → R (es ++ [e])) (h : R es) :
    p.Traced V P (fun es _ => R es) es := by
  induction p generalizing es with
  | ret a => exact h
  | ask op k ih => exact ⟨hP es op h hp.1, fun x _ => ih x (hp.2 x) (hR es ⟨op, x⟩ h hp.1)⟩

/-- A program that runs alone asks and returns what it says. -/
theorem Traced.run {h : Handler I σ} (hV : ∀ op s, V op (h op s).1) {p : Prog I α}
    {es : List (Event I)} (hp : p.Traced V P Q es) (s : σ) :
    (∀ pre e post, p.trace h s = pre ++ e :: post → P (es ++ pre) e.1) ∧
      Q (es ++ p.trace h s) (p.run h s).1 := by
  induction p generalizing es s with
  | ret a =>
    refine ⟨fun pre e post h => ?_, ?_⟩
    · simp at h
    · rwa [trace_ret, List.append_nil]
  | ask op k ih =>
    obtain ⟨hasked, hrest⟩ := ih _ (hp.2 _ (hV op s)) (h op s).2
    rw [List.append_assoc, List.singleton_append] at hrest
    refine ⟨fun pre e post hsplit => ?_, hrest⟩
    rw [trace_ask] at hsplit
    cases pre with
    | nil =>
      obtain ⟨rfl, -⟩ := List.cons.inj hsplit
      rw [List.append_nil]
      exact hp.1
    | cons e₀ pre =>
      obtain ⟨rfl, htail⟩ := List.cons.inj hsplit
      have hpre := hasked pre e post htail
      rwa [List.append_assoc, List.singleton_append] at hpre

end Prog

/-- The events of session `i`. -/
def World.own [DecidableEq ι] (w : World I ι σ) (i : ι) : List (Event I) :=
  (w.log.filter (·.1 = i)).map Prod.snd

section Own

variable [DecidableEq ι] (h : ι → Handler I σ)

theorem World.mem_own {w : World I ι σ} {i : ι} {e : Event I} : e ∈ w.own i ↔ (i, e) ∈ w.log := by
  simp [own]

@[simp] theorem World.own_act_self (w : World I ι σ) (i : ι) (op : I.Op) :
    (w.act h i op).2.own i = w.own i ++ [⟨op, (h i op w.state).1⟩] := by
  simp [own]

theorem World.own_act_of_ne (w : World I ι σ) {i j : ι} (hij : j ≠ i) (op : I.Op) :
    (w.act h i op).2.own j = w.own j := by
  simp [own, Ne.symm hij]

end Own

/-! ## The rules -/

variable [DecidableEq ι] {h : ι → Handler I σ} {C : Pool I α ι σ → ι → Prop}
  {p₀ p : Pool I α ι σ} {V : ι → (op : I.Op) → I.Ans op → Prop}

/-- In every reachable pool each session is where its judgement says. -/
theorem Pool.Reach.traced {P : ι → List (Event I) → I.Op → Prop}
    {Q : ι → List (Event I) → α → Prop} (hV : ∀ i op s, V i op (h i op s).1)
    (h₀ : ∀ i, (p₀.sess i).Traced (V i) (P i) (Q i) (p₀.world.own i)) (hp : Reach h C p₀ p) :
    ∀ i, (p.sess i).Traced (V i) (P i) (Q i) (p.world.own i) := by
  induction hp with
  | init => exact h₀
  | @step p i hp hcond ih =>
    cases hk : p.sess i with
    | ret a => rw [step_ret h hk]; exact ih
    | ask op k =>
      have hi := ih i
      rw [hk] at hi
      have hnext := hi.2 _ (hV i op p.world.state)
      intro j
      rw [step_ask h hk]
      by_cases hj : j = i
      · subst hj
        simpa using hnext
      · simpa [Function.update_of_ne hj, World.own_act_of_ne h p.world hj] using ih j

/-- Whatever a session asked, its judgement allowed then. -/
theorem Pool.Reach.asked {P : ι → List (Event I) → I.Op → Prop} {Q : ι → List (Event I) → α → Prop}
    (hV : ∀ i op s, V i op (h i op s).1)
    (h₀ : ∀ i, (p₀.sess i).Traced (V i) (P i) (Q i) (p₀.world.own i)) (hlog : p₀.world.log = [])
    (hp : Reach h C p₀ p) :
    ∀ i es e es', p.world.own i = es ++ e :: es' → P i es e.1 := by
  induction hp with
  | init =>
    intro i es e es' hown
    simp [World.own, hlog] at hown
  | @step p i hp hcond ih =>
    cases hk : p.sess i with
    | ret a => rw [step_ret h hk]; exact ih
    | ask op k =>
      have hi := hp.traced hV h₀ i
      rw [hk] at hi
      rw [step_ask h hk]
      intro j es e es' hown
      by_cases hj : j = i
      · subst hj
        rw [World.own_act_self] at hown
        rcases List.eq_nil_or_concat es' with rfl | ⟨es'', e', rfl⟩
        · obtain ⟨rfl, he⟩ := List.append_inj' hown rfl
          cases he
          exact hi.1
        · have hown' : p.world.own j ++ [⟨op, (h j op p.world.state).1⟩] =
              (es ++ e :: es'') ++ [e'] := by simpa using hown
          exact ih j es e es'' (List.append_inj' hown' rfl).1
      · exact ih j es e es' (by rw [← World.own_act_of_ne h p.world hj]; exact hown)

/-- Every logged answer is one that the session's handler can give. -/
theorem Pool.Reach.answers (hV : ∀ i op s, V i op (h i op s).1)
    (h₀ : ∀ i e, (i, e) ∈ p₀.world.log → V i e.1 e.2) (hp : Reach h C p₀ p) :
    ∀ i e, (i, e) ∈ p.world.log → V i e.1 e.2 := by
  induction hp with
  | init => exact h₀
  | @step p i hp hcond ih =>
    cases hk : p.sess i with
    | ret a => rw [step_ret h hk]; exact ih
    | ask op k =>
      rw [step_ask h hk]
      intro j e he
      rcases List.mem_append.mp he with he | he
      · exact ih j e he
      · cases List.mem_singleton.mp he
        exact hV _ op p.world.state

end Eff
