import TxnOpt.Lib.Prog

/-!
# Steady programs

What a steady program returns does not depend on the state it starts from. Whether it raises, and what it
does to the state, still may.
-/

namespace TxnOpt

namespace Prog

variable {σ ε α β : Type}

def Steady (x : Prog σ ε α) : Prop :=
  ∀ s s' a b, (x s).1 = .ok a → (x s').1 = .ok b → a = b

theorem steady_pure {a : α} : Steady (pure a : Prog σ ε α) := by
  intro s s' b c hb hc
  cases hb
  cases hc
  rfl

theorem steady_raise {e : ε} : Steady (raise e : Prog σ ε α) := by
  intro s s' b c hb
  cases hb

theorem returned_of_bind {x : Prog σ ε α} {f : α → Prog σ ε β} {s : σ} {b : β} (h : ((x >>= f) s).1 = .ok b) :
    ∃ a t, x s = (.ok a, t) ∧ (f a t).1 = .ok b := by
  rw [bind_apply] at h
  rcases hx : x s with ⟨e | a, t⟩
  · rw [hx] at h
    cases h
  · rw [hx] at h
    exact ⟨a, t, rfl, h⟩

theorem Steady.bind {x : Prog σ ε α} {f : α → Prog σ ε β} (hx : Steady x) (hf : ∀ a, Steady (f a)) :
    Steady (x >>= f) := by
  intro s s' b b' hb hb'
  obtain ⟨a, t, ha, hb⟩ := returned_of_bind hb
  obtain ⟨a', t', ha', hb'⟩ := returned_of_bind hb'
  obtain rfl := hx s s' a a' (congrArg Prod.fst ha) (congrArg Prod.fst ha')
  exact hf a t t' b b' hb hb'

theorem Steady.ite {c : Prop} [Decidable c] {x y : Prog σ ε α} (hx : Steady x) (hy : Steady y) :
    Steady (if c then x else y) := by
  by_cases h : c
  · rwa [if_pos h]
  · rwa [if_neg h]

theorem steady_collect {body : α → Prog σ ε β} (h : ∀ a, Steady (body a)) (items : List α) :
    Steady (collect body items) := by
  induction items with
  | nil => exact steady_pure
  | cons a rest ih => exact (h a).bind fun _ => ih.bind fun _ => steady_pure

end Prog

end TxnOpt
