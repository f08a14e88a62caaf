import Mathlib.Data.List.Basic

/-!
# Programs that emit text

A program over a state emits a text if, started in a state that holds some text, it ends in one that
holds this text with the emitted one behind it (`Emits`). What it means to hold a text is a
parameter, for the state before and for the one after, so that one derivation serves a state with
exactly the text and one that may have lost parts of it.
-/

namespace Emitting

variable {σ α β γ : Type}

/-- The program ends in every state that holds a text, with a result in `Q`, and adds `text`. -/
def Emits (pre post : σ → List γ → Prop) (Q : α → Prop) (m : StateT σ Option α) (text : List γ) :
    Prop :=
  ∀ s before, pre s before → ∃ a s', m s = some (a, s') ∧ post s' (before ++ text) ∧ Q a

variable {pre mid post : σ → List γ → Prop} {Q : α → Prop} {P : β → Prop}
  {m : StateT σ Option α} {text text' : List γ}

theorem Emits.pure {a : α} (h : Q a) : Emits pre pre Q (Pure.pure a) [] :=
  fun s before hs => ⟨a, s, rfl, by rwa [List.append_nil], h⟩

/-- The texts of two programs stand behind each other. -/
theorem Emits.bind {f : α → StateT σ Option β} (hm : Emits pre mid Q m text)
    (hf : ∀ a, Q a → Emits mid post P (f a) text') :
    Emits pre post P (m >>= f) (text ++ text') := by
  intro s before hs
  obtain ⟨a, s₁, hrun, hs₁, ha⟩ := hm s before hs
  obtain ⟨b, s₂, hrun', hs₂, hb⟩ := hf a ha s₁ _ hs₁
  refine ⟨b, s₂, ?_, by rwa [List.append_assoc] at hs₂, hb⟩
  show (m s).bind (fun p => f p.1 p.2) = _
  rw [hrun]
  exact hrun'

/-- The result of the first program is not looked at. -/
theorem Emits.seq {n : StateT σ Option β} (hm : Emits pre mid Q m text)
    (hn : Emits mid post P n text') : Emits pre post P (m >>= fun _ => n) (text ++ text') :=
  hm.bind fun _ _ => hn

end Emitting
