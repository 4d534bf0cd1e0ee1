import TxnOpt.Lib.Prog
import Mathlib.Order.Defs.Unbundled

/-!
# What a program can do to its state

`Steps R x` says that `R` relates the state before `x` to the state after it, whether `x` returns or raises.
For a preorder it is enough to look at the single requests and updates of a program.
-/

namespace TxnOpt

namespace Prog

variable {σ τ ε α β : Type}

/-! ### Programs that returned -/

theorem bind_ok {x : Prog σ ε α} {f : α → Prog σ ε β} {s u : σ} {b : β} (h : (x >>= f) s = (.ok b, u)) :
    ∃ a t, x s = (.ok a, t) ∧ f a t = (.ok b, u) := by
  rw [bind_apply] at h
  cases hx : x s with
  | mk result t =>
      rw [hx] at h
      cases result with
      | error e => cases h
      | ok a => exact ⟨a, t, rfl, h⟩

theorem resume_ok_inv {r : Except ε α} {s t : σ} {a : α} (h : resume r s = (.ok a, t)) : r = .ok a ∧ t = s := by
  cases r with
  | error e => cases h
  | ok b =>
      cases h
      exact ⟨rfl, rfl⟩

theorem ite_raise_ok {c : Prop} [Decidable c] {e : ε} {x : Prog σ ε α} {s t : σ} {a : α}
    (h : (if c then raise e else x) s = (.ok a, t)) : ¬ c ∧ x s = (.ok a, t) := by
  by_cases hc : c
  · rw [if_pos hc] at h
    cases h
  · rw [if_neg hc] at h
    exact ⟨hc, h⟩

/-- Each value of a `collect` agrees with its item. -/
theorem collect_map_eq {γ : Type} {body : α → Prog σ ε β} {value : β → γ} {spec : α → γ}
    (hbody : ∀ a b s t, body a s = (.ok b, t) → value b = spec a) :
    ∀ {items : List α} {s t : σ} {values : List β}, collect body items s = (.ok values, t) →
      values.map value = items.map spec
  | [], s, t, values, h => by
      cases h
      rfl
  | a :: items, s, t, values, h => by
      obtain ⟨b, first, hfirst, h⟩ := bind_ok h
      obtain ⟨later, second, hlater, h⟩ := bind_ok h
      cases h
      rw [List.map_cons, List.map_cons, hbody a b s first hfirst, collect_map_eq hbody hlater]

/-! ### Related states -/

def Steps (R : σ → σ → Prop) (x : Prog σ ε α) : Prop := ∀ s, R s (x s).2

variable {R : σ → σ → Prop} [IsPreorder σ R]

theorem steps_pure (a : α) : Steps R (pure a : Prog σ ε α) := fun s => refl_of R s

theorem steps_raise (e : ε) : Steps R (raise e : Prog σ ε α) := fun s => refl_of R s

theorem steps_read (f : σ → α) : Steps R (read f : Prog σ ε α) := fun s => refl_of R s

theorem steps_resume (r : Except ε α) : Steps R (resume r) := by
  cases r with
  | error e => exact steps_raise e
  | ok a => exact steps_pure a

theorem steps_bind {x : Prog σ ε α} {f : α → Prog σ ε β} (hx : Steps R x) (hf : ∀ a, Steps R (f a)) :
    Steps R (x >>= f) := by
  intro s
  have hfirst := hx s
  rw [bind_apply]
  cases h : x s with
  | mk result t =>
      rw [h] at hfirst
      cases result with
      | error e => exact hfirst
      | ok a => exact trans_of R hfirst (hf a t)

theorem steps_rescue {x : Prog σ ε α} {handler : ε → Prog σ ε α} (hx : Steps R x)
    (hhandler : ∀ e, Steps R (handler e)) : Steps R (rescue x handler) := by
  intro s
  have hfirst := hx s
  rw [rescue]
  cases h : x s with
  | mk result t =>
      rw [h] at hfirst
      cases result with
      | error e => exact trans_of R hfirst (hhandler e t)
      | ok a => exact hfirst

theorem steps_forEach {body : α → Prog σ ε Unit} (hbody : ∀ a, Steps R (body a)) :
    ∀ items : List α, Steps R (forEach body items)
  | [] => steps_pure ()
  | a :: items => steps_bind (hbody a) fun _ => steps_forEach hbody items

theorem steps_collect {body : α → Prog σ ε β} (hbody : ∀ a, Steps R (body a)) :
    ∀ items : List α, Steps R (collect body items)
  | [] => steps_pure []
  | a :: items => steps_bind (hbody a) fun _ => steps_bind (steps_collect hbody items) fun _ => steps_pure _

omit [IsPreorder σ R] in
theorem Steps.of_run {x : Prog σ ε α} (h : Steps R x) {s t : σ} {result : Except ε α} (hrun : x s = (result, t)) :
    R s t := by
  have hstep := h s
  rwa [hrun] at hstep

/-- What a `collect` says of each value, when a pass of the body says it and later passes keep it. -/
theorem collect_all {fact : α → β → σ → σ → Prop} {body : α → Prog σ ε β} (hsteps : ∀ a, Steps R (body a))
    (hbody : ∀ a b s t, body a s = (.ok b, t) → fact a b s t)
    (hgrow : ∀ a b s' s t t', R s' s → fact a b s t → R t t' → fact a b s' t') :
    ∀ {items : List α} {s t : σ} {values : List β}, collect body items s = (.ok values, t) →
      ∀ b ∈ values, ∃ a ∈ items, fact a b s t
  | [], s, t, values, h => by
      cases h
      intro b hb
      cases hb
  | a :: items, s, t, values, h => by
      obtain ⟨b, first, hfirst, h⟩ := bind_ok h
      obtain ⟨later, second, hlater, h⟩ := bind_ok h
      cases h
      have hrest := (steps_collect hsteps items).of_run hlater
      intro c hc
      rcases List.mem_cons.mp hc with heq | hmem
      · rw [heq]
        exact ⟨a, List.mem_cons_self, hgrow a b s s first t (refl_of R s) (hbody a b s first hfirst) hrest⟩
      · obtain ⟨d, hd, hfact⟩ := collect_all hsteps hbody hgrow hlater c hmem
        exact ⟨d, List.mem_cons_of_mem a hd, hgrow d c s first t t ((hsteps a).of_run hfirst) hfact
          (refl_of R t)⟩

omit [IsPreorder σ R] in
theorem Steps.ite {c : Prop} [Decidable c] {x y : Prog σ ε α} (hx : Steps R x) (hy : Steps R y) :
    Steps R (if c then x else y) := by
  by_cases hc : c
  · rwa [if_pos hc]
  · rwa [if_neg hc]

end Prog

end TxnOpt
