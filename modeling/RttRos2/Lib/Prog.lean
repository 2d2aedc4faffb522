/-
  RttRos2.Lib.Prog — programs made of calls, run while other threads interfere.

  `Prog C Res α` is a program that makes calls `c : C`, each answering a `Res c`, and
  returns an `α`. A `Setting` says what a call does to the shared state, what other
  threads may do to it between two calls (`rely`, reflexive and transitive), and what
  is taken for granted of the state a call finds (`ok`).

  `wp X p Q s`: whatever the others do before each call of `p` and before its return,
  `p` started in `s` returns in a state satisfying `Q`.
  - `wp_mono`, `wp_and`, `wp_bind`, `wp_perform`: the rules for building such facts.
  - `wp_stable`, `wp_call`, `wp_ret`: what interference, one call and the return leave
    of them; a thread's remaining program keeps its `wp` along any interleaving.
  - `wp_finish`: left alone, a program returns; `Prog.eval` is what.
  - `left_wf`: nobody makes infinitely many calls of a program.
-/

namespace RttRos2.Lib

inductive Prog (C : Type) (Res : C → Type) (α : Type) where
  | ret (a : α)
  | call (c : C) (k : Res c → Prog C Res α)

namespace Prog

variable {C : Type} {Res : C → Type} {α β : Type}

def bind : Prog C Res α → (α → Prog C Res β) → Prog C Res β
  | .ret a, f => f a
  | .call c k, f => .call c fun r => (k r).bind f

instance : Monad (Prog C Res) where
  pure := .ret
  bind := bind

/-- One call, returning its answer. -/
def perform (c : C) : Prog C Res (Res c) := .call c .ret

variable {σ : Type} (sem : (c : C) → σ → Res c × σ)

/-- What a program returns, and the state it leaves, when nobody interferes. -/
def eval : Prog C Res α → σ → α × σ
  | .ret a, s => (a, s)
  | .call c k, s => eval (k (sem c s).1) (sem c s).2

@[simp] theorem eval_pure (a : α) (s : σ) : eval sem (pure a : Prog C Res α) s = (a, s) := rfl

@[simp] theorem eval_perform (c : C) (s : σ) : eval sem (perform c) s = sem c s := rfl

@[simp] theorem eval_bind (p : Prog C Res α) (f : α → Prog C Res β) (s : σ) :
    eval sem (p >>= f) s = eval sem (f (eval sem p s).1) (eval sem p s).2 := by
  induction p generalizing s with
  | ret a => rfl
  | call c k ih => exact ih _ _

end Prog

/-- What a program runs against. -/
structure Setting (C : Type) (Res : C → Type) (σ : Type) where
  sem : (c : C) → σ → Res c × σ
  rely : σ → σ → Prop
  ok : C → σ → Prop
  rely_refl : ∀ s, rely s s
  rely_trans : ∀ {s t u}, rely s t → rely t u → rely s u

variable {C : Type} {Res : C → Type} {σ α β : Type}

def wp (X : Setting C Res σ) : Prog C Res α → (α → σ → Prop) → σ → Prop
  | .ret a, Q, s => ∀ t, X.rely s t → Q a t
  | .call c k, Q, s => ∀ t, X.rely s t → X.ok c t → wp X (k (X.sem c t).1) Q (X.sem c t).2

variable {X : Setting C Res σ} {p : Prog C Res α} {Q Q' : α → σ → Prop} {s t : σ}

/-! ## Building -/

theorem wp_mono (h : wp X p Q s) (hQ : ∀ a t, Q a t → Q' a t) : wp X p Q' s := by
  induction p generalizing s with
  | ret a => exact fun t ht => hQ a t (h t ht)
  | call c k ih => exact fun t ht hok => ih _ (h t ht hok)

theorem wp_trivial (hQ : ∀ a t, Q a t) : wp X p Q s := by
  induction p generalizing s with
  | ret a => exact fun t _ => hQ a t
  | call c k ih => exact fun t _ _ => ih _

theorem wp_and (h : wp X p Q s) (h' : wp X p Q' s) : wp X p (fun a t => Q a t ∧ Q' a t) s := by
  induction p generalizing s with
  | ret a => exact fun t ht => ⟨h t ht, h' t ht⟩
  | call c k ih => exact fun t ht hok => ih _ (h t ht hok) (h' t ht hok)

theorem wp_bind {f : α → Prog C Res β} {Q : β → σ → Prop} (h : wp X p (fun a t => wp X (f a) Q t) s) :
    wp X (p >>= f) Q s := by
  induction p generalizing s with
  | ret a => exact h s (X.rely_refl s)
  | call c k ih => exact fun t ht hok => ih _ (h t ht hok)

theorem wp_perform {c : C} {f : Res c → Prog C Res β} {Q : β → σ → Prop}
    (h : ∀ t, X.rely s t → X.ok c t → wp X (f (X.sem c t).1) Q (X.sem c t).2) :
    wp X (Prog.perform c >>= f) Q s := h

/-! ## Running -/

theorem wp_stable (h : wp X p Q s) (ht : X.rely s t) : wp X p Q t := by
  cases p with
  | ret a => exact fun u hu => h u (X.rely_trans ht hu)
  | call c k => exact fun u hu hok => h u (X.rely_trans ht hu) hok

theorem wp_call {c : C} {k : Res c → Prog C Res α} (h : wp X (.call c k) Q s) (hok : X.ok c s) :
    wp X (k (X.sem c s).1) Q (X.sem c s).2 := h s (X.rely_refl s) hok

theorem wp_ret {a : α} (h : wp X (.ret a) Q s) : Q a s := h s (X.rely_refl s)

/-- Left alone, a program returns, when all that its calls may find is admitted; a preorder
    that every call respects relates the state it was left in to the one it returns in. -/
theorem wp_finish {le : σ → σ → Prop} (refl : ∀ s, le s s) (trans : ∀ {s t u}, le s t → le t u → le s u)
    (hle : ∀ c s, le s (X.sem c s).2) (hok : ∀ c t, le s t → X.ok c t) (h : wp X p Q s) :
    ∃ a t, Q a t ∧ le s t := by
  induction p generalizing s with
  | ret a => exact ⟨a, s, wp_ret h, refl s⟩
  | call c k ih =>
    have hs := hle c s
    obtain ⟨a, t, hQ, hst⟩ := ih _ (fun c' t ht => hok c' t (trans hs ht)) (wp_call h (hok c s (refl s)))
    exact ⟨a, t, hQ, trans hs hst⟩

/-! ## What is left -/

/-- What is left of a program after its next call, `none` when nothing is. -/
inductive Prog.Left : Option (Prog C Res α) → Option (Prog C Res α) → Prop
  | none (p : Prog C Res α) : Left none (some p)
  | call (c : C) (k : Res c → Prog C Res α) (r : Res c) : Left (some (k r)) (some (.call c k))

theorem left_wf : WellFounded (Prog.Left : Option (Prog C Res α) → _ → Prop) := by
  have hnone : Acc (Prog.Left : Option (Prog C Res α) → _ → Prop) none := ⟨_, fun p hp => by cases hp⟩
  refine ⟨fun p => ?_⟩
  cases p with
  | none => exact hnone
  | some p =>
    induction p with
    | ret a =>
      refine ⟨_, fun q hq => ?_⟩
      cases hq
      exact hnone
    | call c k ih =>
      refine ⟨_, fun q hq => ?_⟩
      cases hq with
      | none => exact hnone
      | call => exact ih _

end RttRos2.Lib
