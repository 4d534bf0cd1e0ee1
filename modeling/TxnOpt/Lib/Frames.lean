import TxnOpt.Lib.Prog

/-!
# Frames

`Keeps view x`: however the program `x` ends, what `view` shows of the state is as it was. The rules follow
the ways programs are put together.
-/

namespace TxnOpt

namespace Prog

variable {σ ε α β ν : Type} {view : σ → ν}

def Keeps (view : σ → ν) (x : Prog σ ε α) : Prop := ∀ s, wp x (fun _ t => view t = view s) s

theorem keeps_pure {a : α} : Keeps view (pure a : Prog σ ε α) := fun _ => rfl

theorem keeps_raise {e : ε} : Keeps view (raise e : Prog σ ε α) := fun _ => rfl

theorem keeps_read {f : σ → α} : Keeps view (read f : Prog σ ε α) := fun _ => rfl

theorem Keeps.bind {x : Prog σ ε α} {f : α → Prog σ ε β} (hx : Keeps view x) (hf : ∀ a, Keeps view (f a)) :
    Keeps view (x >>= f) := by
  intro s
  apply wp_bind_of (hx s)
  · intro a t ht
    exact wp_mono (hf a t) fun _ _ hu => hu.trans ht
  · intro e t ht
    exact ht

theorem Keeps.attempt {x : Prog σ ε α} (hx : Keeps view x) : Keeps view (attempt x) := hx

theorem Keeps.ite {c : Prop} [Decidable c] {x y : Prog σ ε α} (hx : Keeps view x) (hy : Keeps view y) :
    Keeps view (if c then x else y) := by
  intro s
  exact wp_ite (fun _ => hx s) fun _ => hy s

theorem Keeps.after {x : Prog σ ε α} {t : σ} {shown : ν} (hx : Keeps view x) (ht : view t = shown) :
    wp x (fun _ u => view u = shown) t := wp_mono (hx t) fun _ _ hu => hu.trans ht

end Prog

end TxnOpt
