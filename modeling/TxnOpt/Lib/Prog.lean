import Mathlib.Tactic.Common

/-!
# Programs that mutate a state and may raise

A `Prog σ ε α` reads and writes a state `σ` and ends by returning an `α` or raising an `ε`. As in the
languages this models, the writes made before an exception stay. `Prog.wp` is its weakest
precondition; a postcondition sees both kinds of end, so one rule covers the returning and the raising
exits of a program.
-/

namespace TxnOpt

/-- A program over a mutable state: it returns or raises, and keeps the state either way. -/
def Prog (σ ε α : Type) : Type := σ → Except ε α × σ

namespace Prog

variable {σ τ ε α β : Type}

/-- Run `x`, then `f` on its value; an exception of `x` skips `f`. -/
def bind (x : Prog σ ε α) (f : α → Prog σ ε β) : Prog σ ε β := fun s =>
  match x s with
  | (.ok a, t) => f a t
  | (.error e, t) => (.error e, t)

instance : Monad (Prog σ ε) where
  pure a := fun s => (.ok a, s)
  bind := bind

def raise (e : ε) : Prog σ ε α := fun s => (.error e, s)

def read (f : σ → α) : Prog σ ε α := fun s => (.ok (f s), s)

def modify (f : σ → σ) : Prog σ ε Unit := fun s => (.ok (), f s)

/-- Run `x` and return how it ended; `attempt x` itself never raises. -/
def attempt (x : Prog σ ε α) : Prog σ ε (Except ε α) := fun s => (.ok (x s).1, (x s).2)

/-- `try x except e: handler e`. -/
def rescue (x : Prog σ ε α) (handler : ε → Prog σ ε α) : Prog σ ε α := fun s =>
  match x s with
  | (.ok a, t) => (.ok a, t)
  | (.error e, t) => handler e t

/-- Return or raise as recorded. -/
def resume : Except ε α → Prog σ ε α
  | .ok a => pure a
  | .error e => raise e

/-- Run a program of a part of the state. -/
def zoom (get : τ → σ) (set : σ → τ → τ) (x : Prog σ ε α) : Prog τ ε α := fun t =>
  ((x (get t)).1, set (x (get t)).2 t)

/-- Run the body on every element in turn; the first exception stops the loop. -/
def forEach (body : α → Prog σ ε Unit) : List α → Prog σ ε Unit
  | [] => pure ()
  | a :: rest => bind (body a) fun _ => forEach body rest

/-- Collect the values of the body on every element in turn. -/
def collect (body : α → Prog σ ε β) : List α → Prog σ ε (List β)
  | [] => pure []
  | a :: rest => bind (body a) fun b => bind (collect body rest) fun bs => pure (b :: bs)

@[simp] theorem pure_apply (a : α) (s : σ) : (pure a : Prog σ ε α) s = (.ok a, s) := rfl

@[simp] theorem raise_apply (e : ε) (s : σ) : (raise e : Prog σ ε α) s = (.error e, s) := rfl

@[simp] theorem read_apply (f : σ → α) (s : σ) : (read f : Prog σ ε α) s = (.ok (f s), s) := rfl

@[simp] theorem modify_apply (f : σ → σ) (s : σ) :
    (modify f : Prog σ ε Unit) s = (.ok (), f s) := rfl

@[simp] theorem attempt_apply (x : Prog σ ε α) (s : σ) :
    attempt x s = (.ok (x s).1, (x s).2) := rfl

@[simp] theorem resume_ok (a : α) : (resume (.ok a) : Prog σ ε α) = pure a := rfl

@[simp] theorem resume_error (e : ε) : (resume (.error e) : Prog σ ε α) = raise e := rfl

@[simp] theorem zoom_apply (get : τ → σ) (set : σ → τ → τ) (x : Prog σ ε α) (t : τ) :
    zoom get set x t = ((x (get t)).1, set (x (get t)).2 t) := rfl

theorem bind_apply (x : Prog σ ε α) (f : α → Prog σ ε β) (s : σ) :
    (x >>= f) s =
      match x s with
      | (.ok a, t) => f a t
      | (.error e, t) => (.error e, t) := rfl

theorem bind_apply_ok {x : Prog σ ε α} {f : α → Prog σ ε β} {s t : σ} {a : α}
    (h : x s = (.ok a, t)) : (x >>= f) s = f a t := by
  rw [bind_apply, h]

theorem bind_apply_error {x : Prog σ ε α} {f : α → Prog σ ε β} {s t : σ} {e : ε}
    (h : x s = (.error e, t)) : (x >>= f) s = (.error e, t) := by
  rw [bind_apply, h]

/-! ### Weakest preconditions -/

/-- Every end of `x` from `s` satisfies `post`. -/
def wp (x : Prog σ ε α) (post : Except ε α → σ → Prop) (s : σ) : Prop :=
  post (x s).1 (x s).2

theorem wp_mono {x : Prog σ ε α} {post post' : Except ε α → σ → Prop} {s : σ}
    (h : wp x post s) (himp : ∀ r t, post r t → post' r t) : wp x post' s :=
  himp _ _ h

theorem wp_and {x : Prog σ ε α} {post post' : Except ε α → σ → Prop} {s : σ}
    (h : wp x post s) (h' : wp x post' s) : wp x (fun r t => post r t ∧ post' r t) s :=
  ⟨h, h'⟩

theorem wp_of_run {x : Prog σ ε α} {post : Except ε α → σ → Prop} {s t : σ} {r : Except ε α}
    (h : wp x post s) (hrun : x s = (r, t)) : post r t := by
  unfold wp at h
  rwa [hrun] at h

theorem wp_of_eq {x : Prog σ ε α} {post : Except ε α → σ → Prop} {s t : σ} {r : Except ε α}
    (hrun : x s = (r, t)) (hpost : post r t) : wp x post s := by
  unfold wp
  rwa [hrun]

@[simp] theorem wp_pure {a : α} {post : Except ε α → σ → Prop} {s : σ} :
    wp (pure a) post s ↔ post (.ok a) s := Iff.rfl

@[simp] theorem wp_raise {e : ε} {post : Except ε α → σ → Prop} {s : σ} :
    wp (raise e) post s ↔ post (.error e) s := Iff.rfl

@[simp] theorem wp_read {f : σ → α} {post : Except ε α → σ → Prop} {s : σ} :
    wp (read f) post s ↔ post (.ok (f s)) s := Iff.rfl

@[simp] theorem wp_modify {f : σ → σ} {post : Except ε Unit → σ → Prop} {s : σ} :
    wp (modify f) post s ↔ post (.ok ()) (f s) := Iff.rfl

@[simp] theorem wp_attempt {x : Prog σ ε α} {post : Except ε (Except ε α) → σ → Prop} {s : σ} :
    wp (attempt x) post s ↔ wp x (fun r t => post (.ok r) t) s := Iff.rfl

/-- What follows an end of the first half of a sequence. -/
def andThen (f : α → Prog σ ε β) (post : Except ε β → σ → Prop) : Except ε α → σ → Prop
  | .ok a, t => wp (f a) post t
  | .error e, t => post (.error e) t

@[simp] theorem andThen_ok {f : α → Prog σ ε β} {post : Except ε β → σ → Prop} {a : α} {t : σ} :
    andThen f post (.ok a) t ↔ wp (f a) post t := Iff.rfl

@[simp] theorem andThen_error {f : α → Prog σ ε β} {post : Except ε β → σ → Prop} {e : ε} {t : σ} :
    andThen f post (.error e) t ↔ post (.error e) t := Iff.rfl

theorem wp_bind {x : Prog σ ε α} {f : α → Prog σ ε β} {post : Except ε β → σ → Prop} {s : σ} :
    wp (x >>= f) post s ↔ wp x (andThen f post) s := by
  unfold wp
  rw [bind_apply]
  rcases x s with ⟨_ | _, t⟩ <;> rfl

/-- The rule for a sequence: a postcondition of the first half that the second half can start from. -/
theorem wp_bind_of {x : Prog σ ε α} {f : α → Prog σ ε β} {mid : Except ε α → σ → Prop}
    {post : Except ε β → σ → Prop} {s : σ} (hx : wp x mid s)
    (hok : ∀ a t, mid (.ok a) t → wp (f a) post t)
    (herror : ∀ e t, mid (.error e) t → post (.error e) t) : wp (x >>= f) post s := by
  refine wp_bind.mpr (wp_mono hx ?_)
  rintro (e | a) t h
  · exact herror e t h
  · exact hok a t h

theorem wp_bind_assoc {γ : Type} {x : Prog σ ε α} {f : α → Prog σ ε β} {g : β → Prog σ ε γ}
    {post : Except ε γ → σ → Prop} {s : σ} :
    wp (x >>= fun a => f a >>= g) post s ↔ wp ((x >>= f) >>= g) post s := by
  unfold wp
  rw [bind_apply, bind_apply, bind_apply]
  rcases x s with ⟨_ | _, t⟩ <;> rfl

/-- The rule for a handler that looks at how a program ended: nothing skips what follows it. -/
theorem wp_attempt_bind {x : Prog σ ε α} {f : Except ε α → Prog σ ε β}
    {mid : Except ε α → σ → Prop} {post : Except ε β → σ → Prop} {s : σ} (hx : wp x mid s)
    (hf : ∀ r t, mid r t → wp (f r) post t) : wp (attempt x >>= f) post s :=
  wp_bind.mpr (hf _ _ hx)

@[simp] theorem wp_pure_bind {a : α} {f : α → Prog σ ε β} {post : Except ε β → σ → Prop} {s : σ} :
    wp (pure a >>= f) post s ↔ wp (f a) post s := Iff.rfl

@[simp] theorem wp_read_bind {g : σ → α} {f : α → Prog σ ε β} {post : Except ε β → σ → Prop}
    {s : σ} : wp (read g >>= f) post s ↔ wp (f (g s)) post s := Iff.rfl

@[simp] theorem wp_modify_bind {g : σ → σ} {f : Unit → Prog σ ε β} {post : Except ε β → σ → Prop}
    {s : σ} : wp (modify g >>= f) post s ↔ wp (f ()) post (g s) := Iff.rfl

theorem wp_rescue {x : Prog σ ε α} {handler : ε → Prog σ ε α} {post : Except ε α → σ → Prop}
    {s : σ} :
    wp (rescue x handler) post s ↔
      wp x (fun r t => match r with
        | .ok a => post (.ok a) t
        | .error e => wp (handler e) post t) s := by
  unfold wp rescue
  rcases x s with ⟨_ | _, t⟩ <;> rfl

theorem wp_ite {c : Prop} [Decidable c] {x y : Prog σ ε α} {post : Except ε α → σ → Prop} {s : σ}
    (hpos : c → wp x post s) (hneg : ¬c → wp y post s) : wp (if c then x else y) post s := by
  by_cases h : c
  · rw [if_pos h]
    exact hpos h
  · rw [if_neg h]
    exact hneg h

theorem wp_zoom {get : τ → σ} {set : σ → τ → τ} {x : Prog σ ε α}
    {post : Except ε α → τ → Prop} {t : τ} :
    wp (zoom get set x) post t ↔ wp x (fun r s => post r (set s t)) (get t) := Iff.rfl

/-- The loop rule: an invariant that each pass of the body keeps, indexed by what is left to do. -/
theorem wp_forEach (inv : List α → σ → Prop) {body : α → Prog σ ε Unit}
    {post : Except ε Unit → σ → Prop}
    (hstep : ∀ a rest t, inv (a :: rest) t →
      wp (body a) (fun r u => match r with
        | .ok _ => inv rest u
        | .error e => post (.error e) u) t)
    (hdone : ∀ t, inv [] t → post (.ok ()) t) :
    ∀ (items : List α) (s : σ), inv items s → wp (forEach body items) post s := by
  intro items
  induction items with
  | nil =>
      intro s hinv
      exact hdone s hinv
  | cons a rest ih =>
      intro s hinv
      refine wp_bind_of (hstep a rest s hinv) ?_ ?_
      · intro _ t ht
        exact ih t ht
      · intro e t ht
        exact ht

/-- How a `collect` over `items` may end, when `step` says how the body may end on one of them: the
values of all of them, or the exception of the first that raises. -/
inductive Collected (step : α → Except ε β → Prop) : List α → Except ε (List β) → Prop
  | nil : Collected step [] (.ok [])
  | cons {a b items values} : step a (.ok b) → Collected step items (.ok values) →
      Collected step (a :: items) (.ok (b :: values))
  | failed {a e items} : step a (.error e) → Collected step (a :: items) (.error e)
  | later {a b e items} : step a (.ok b) → Collected step items (.error e) →
      Collected step (a :: items) (.error e)

theorem Collected.map {α' β' : Type} {step : α → Except ε β → Prop}
    {step' : α' → Except ε β' → Prop} (f : α → α') (g : β → β')
    (hstep : ∀ a r, step a r → step' (f a) (r.map g)) {items : List α} {r : Except ε (List β)}
    (h : Collected step items r) : Collected step' (items.map f) (r.map (List.map g)) := by
  induction h with
  | nil => exact .nil
  | cons h _ ih => exact .cons (hstep _ _ h) ih
  | failed h => exact .failed (hstep _ _ h)
  | later h _ ih => exact .later (hstep _ _ h) ih

/-- The rule for `collect`: `inv` holds before each pass of the body, and `after` once one raised. -/
theorem wp_collect (inv : List α → σ → Prop) (after : σ → Prop) (step : α → Except ε β → Prop)
    {body : α → Prog σ ε β}
    (hbody : ∀ a rest t, inv (a :: rest) t →
      wp (body a) (fun r u => step a r ∧ match r with
        | .ok _ => inv rest u
        | .error _ => after u) t) :
    ∀ (items : List α) (s : σ), inv items s →
      wp (collect body items) (fun r t => Collected step items r ∧ match r with
        | .ok _ => inv [] t
        | .error _ => after t) s := by
  intro items
  induction items with
  | nil =>
      intro s hinv
      exact ⟨.nil, hinv⟩
  | cons a rest ih =>
      intro s hinv
      refine wp_bind_of (hbody a rest s hinv) ?_ ?_
      · rintro b t ⟨hstep, hrest⟩
        refine wp_bind_of (ih t hrest) ?_ ?_
        · rintro values u ⟨hcollected, hdone⟩
          exact ⟨.cons hstep hcollected, hdone⟩
        · rintro e u ⟨hcollected, hafter⟩
          exact ⟨.later hstep hcollected, hafter⟩
      · rintro e t ⟨hstep, hafter⟩
        exact ⟨.failed hstep, hafter⟩

theorem collect_length {body : α → Prog σ ε β} :
    ∀ {items : List α} {s t : σ} {values : List β},
      collect body items s = (.ok values, t) → values.length = items.length := by
  intro items
  induction items with
  | nil =>
      intro s t values h
      cases h
      rfl
  | cons a rest ih =>
      intro s t values h
      unfold collect bind at h
      rcases hbody : body a s with ⟨e | b, u⟩
      · rw [hbody] at h
        cases h
      · rw [hbody] at h
        dsimp only at h
        rcases hrest : collect body rest u with ⟨e | bs, v⟩
        · rw [hrest] at h
          cases h
        · rw [hrest] at h
          cases h
          rw [List.length_cons, List.length_cons, ih hrest]

theorem collect_forall₂ {body : α → Prog σ ε β} {made : α → β → Prop}
    (hbody : ∀ a s b, (body a s).1 = .ok b → made a b) :
    ∀ {items : List α} {s : σ} {values : List β}, (collect body items s).1 = .ok values →
      List.Forall₂ made items values := by
  intro items
  induction items with
  | nil =>
      intro s values h
      cases h
      exact .nil
  | cons a rest ih =>
      intro s values h
      unfold collect bind at h
      rcases hrun : body a s with ⟨e | b, u⟩
      · rw [hrun] at h
        cases h
      · rw [hrun] at h
        dsimp only at h
        rcases hrest : collect body rest u with ⟨e | bs, v⟩
        · rw [hrest] at h
          cases h
        · rw [hrest] at h
          cases h
          exact .cons (hbody a s b (congrArg Prod.fst hrun)) (ih (congrArg Prod.fst hrest))

end Prog

end TxnOpt
