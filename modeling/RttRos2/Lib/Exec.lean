/-
  RttRos2.Lib.Exec — executions of a program among other threads, call by call.

  `Exec X p s l q t`: the program `p`, started in `s`, made the calls `l`, each listed
  with the state it found, and has `q` still to do in `t`. What the other threads did in
  between is `X.rely`. `q = .ret a`: the program is about to return `a`.
  - `exec_ret`, `exec_call`, `exec_perform`, `exec_bind`: what an execution of a return, of
    a call and of two programs in sequence is made of.
  - `wp_exec`: what a `wp` says of every execution whose calls found admitted states.
  - `exec_le`: a preorder that the other threads and the calls made respect.
  - `exec_prefix`: the first calls of an execution are an execution.
  - `exec_complete`: left alone, a program started returns.
  - `Prog.Only P p`: all that `p` can call satisfies `P`, so every call it makes does
    (`only_exec`).
  - `Calls X G p s`: every call `p` makes finds a state with which it satisfies `G`
    (`calls_exec`).
-/

import RttRos2.Lib.Prog

namespace RttRos2.Lib

variable {C : Type} {Res : C → Type} {σ α β : Type}

inductive Exec (X : Setting C Res σ) (p : Prog C Res α) (s : σ) : List (C × σ) → Prog C Res α → σ → Prop
  | start : Exec X p s [] p s
  | rely {l : List (C × σ)} {q : Prog C Res α} {t u : σ} : Exec X p s l q t → X.rely t u → Exec X p s l q u
  | call {l : List (C × σ)} {c : C} {k : Res c → Prog C Res α} {t : σ} : Exec X p s l (.call c k) t →
      Exec X p s (l ++ [(c, t)]) (k (X.sem c t).1) (X.sem c t).2

variable {X : Setting C Res σ} {p q : Prog C Res α} {s t : σ} {l : List (C × σ)}

/-! ## What an execution is made of -/

theorem exec_ret {a : α} (h : Exec X (.ret a) s l q t) : q = .ret a ∧ l = [] ∧ X.rely s t := by
  induction h with
  | start => exact ⟨rfl, rfl, X.rely_refl s⟩
  | rely _ hr ih => exact ⟨ih.1, ih.2.1, X.rely_trans ih.2.2 hr⟩
  | call _ ih => cases ih.1

/-- Nothing was done of the call, or it was made in some state `u`. -/
theorem exec_call {c : C} {k : Res c → Prog C Res α} (h : Exec X (.call c k) s l q t) :
    (q = .call c k ∧ l = [] ∧ X.rely s t) ∨
    ∃ u l', X.rely s u ∧ l = (c, u) :: l' ∧ Exec X (k (X.sem c u).1) (X.sem c u).2 l' q t := by
  induction h with
  | start => exact .inl ⟨rfl, rfl, X.rely_refl s⟩
  | rely _ hr ih =>
    rcases ih with ⟨hq, hl, hs⟩ | ⟨u, l', hu, hl, h⟩
    · exact .inl ⟨hq, hl, X.rely_trans hs hr⟩
    · exact .inr ⟨u, l', hu, hl, h.rely hr⟩
  | call _ ih =>
    rcases ih with ⟨hq, hl, hs⟩ | ⟨u, l', hu, hl, h⟩
    · cases hq
      subst hl
      exact .inr ⟨_, [], hs, rfl, .start⟩
    · subst hl
      exact .inr ⟨u, _, hu, rfl, h.call⟩

theorem exec_perform {c : C} {f : Res c → Prog C Res α} {a : α}
    (h : Exec X (Prog.perform c >>= f) s l (.ret a) t) :
    ∃ u l', X.rely s u ∧ l = (c, u) :: l' ∧ Exec X (f (X.sem c u).1) (X.sem c u).2 l' (.ret a) t := by
  rcases exec_call h with ⟨hq, -, -⟩ | h
  · cases hq
  · exact h

/-- An execution of a sequence is still in its first program, or past it. -/
theorem exec_seq {p : Prog C Res α} {f : α → Prog C Res β} {q : Prog C Res β} (h : Exec X (p >>= f) s l q t) :
    (∃ p', q = p' >>= f ∧ Exec X p s l p' t) ∨
    ∃ l₁ l₂ a u, l = l₁ ++ l₂ ∧ Exec X p s l₁ (.ret a) u ∧ Exec X (f a) u l₂ q t := by
  induction h with
  | start => exact .inl ⟨p, rfl, .start⟩
  | rely _ hr ih =>
    rcases ih with ⟨p', hq, h⟩ | ⟨l₁, l₂, a, u, hl, h₁, h₂⟩
    · exact .inl ⟨p', hq, h.rely hr⟩
    · exact .inr ⟨l₁, l₂, a, u, hl, h₁, h₂.rely hr⟩
  | @call l c k t _ ih =>
    rcases ih with ⟨p', hq, h⟩ | ⟨l₁, l₂, a, u, hl, h₁, h₂⟩
    · cases p' with
      | ret a =>
        -- the call is the first one of `f a`
        have h₂ : Exec X (f a) t [] (.call c k) t := by
          rw [hq]
          exact .start
        exact .inr ⟨l, [(c, t)], a, t, rfl, h, h₂.call⟩
      | call c' k' =>
        cases hq
        exact .inl ⟨k' (X.sem c t).1, rfl, h.call⟩
    · subst hl
      exact .inr ⟨l₁, l₂ ++ [(c, t)], a, u, List.append_assoc .., h₁, h₂.call⟩

theorem exec_bind {p : Prog C Res α} {f : α → Prog C Res β} {b : β} (h : Exec X (p >>= f) s l (.ret b) t) :
    ∃ l₁ l₂ a u, l = l₁ ++ l₂ ∧ Exec X p s l₁ (.ret a) u ∧ Exec X (f a) u l₂ (.ret b) t := by
  rcases exec_seq h with ⟨p', hq, h⟩ | h
  · cases p' with
    | ret a =>
      refine ⟨l, [], a, t, (List.append_nil l).symm, h, ?_⟩
      have hb : f a = .ret b := hq.symm
      rw [hb]
      exact .start
    | call c k => cases hq
  · exact h

/-! ## What holds of it -/

theorem wp_exec {Q : α → σ → Prop} (hw : wp X p Q s) (h : Exec X p s l q t) (hok : ∀ e ∈ l, X.ok e.1 e.2) :
    wp X q Q t := by
  induction h with
  | start => exact hw
  | rely _ hr ih => exact wp_stable (ih hok) hr
  | call _ ih =>
    refine wp_call (ih fun e he => hok e (List.mem_append_left _ he)) ?_
    exact hok _ (List.mem_append_right _ (List.mem_singleton.mpr rfl))

theorem exec_le {le : σ → σ → Prop} (refl : ∀ s, le s s) (trans : ∀ {s t u}, le s t → le t u → le s u)
    (hr : ∀ s t, X.rely s t → le s t) (h : Exec X p s l q t) (hc : ∀ e ∈ l, le e.2 (X.sem e.1 e.2).2) :
    le s t ∧ ∀ e ∈ l, le s e.2 := by
  induction h with
  | start => exact ⟨refl s, nofun⟩
  | rely _ hrely ih => exact ⟨trans (ih hc).1 (hr _ _ hrely), (ih hc).2⟩
  | call _ ih =>
    obtain ⟨ht, hl⟩ := ih fun e he => hc e (List.mem_append_left _ he)
    refine ⟨trans ht (hc _ (List.mem_append_right _ (List.mem_singleton.mpr rfl))), fun e he => ?_⟩
    rcases List.mem_append.mp he with he | he
    · exact hl e he
    · rw [List.mem_singleton.mp he]
      exact ht

theorem exec_prefix {l₁ l₂ : List (C × σ)} (h : Exec X p s l q t) (hl : l = l₁ ++ l₂) :
    ∃ q' u, Exec X p s l₁ q' u := by
  induction h generalizing l₂ with
  | start =>
    obtain ⟨rfl, -⟩ := List.append_eq_nil_iff.mp hl.symm
    exact ⟨_, _, .start⟩
  | rely _ _ ih => exact ih hl
  | call h ih =>
    rcases List.eq_nil_or_concat l₂ with rfl | ⟨l₃, e, rfl⟩
    · rw [List.append_nil] at hl
      subst hl
      exact ⟨_, _, h.call⟩
    · rw [List.concat_eq_append, ← List.append_assoc] at hl
      exact ih (List.append_inj_left' hl rfl)

theorem exec_complete (h : Exec X p s l q t) :
    ∃ l' a u, Exec X p s (l ++ l') (.ret a) u ∧ ∀ c k, q = .call c k → (c, t) ∈ l' := by
  induction q generalizing l t with
  | ret a => exact ⟨[], a, t, by rwa [List.append_nil], nofun⟩
  | call c k ih =>
    obtain ⟨l', a, u, hu, -⟩ := ih _ h.call
    refine ⟨(c, t) :: l', a, u, by simpa using hu, fun c' k' hq => ?_⟩
    cases hq
    exact .head _

/-! ## What a program can call -/

def Prog.Only (P : C → Prop) : Prog C Res α → Prop
  | .ret _ => True
  | .call c k => P c ∧ ∀ r, (k r).Only P

variable {P : C → Prop}

theorem only_bind {p : Prog C Res α} {f : α → Prog C Res β} (h : p.Only P) (hf : ∀ a, (f a).Only P) :
    (p >>= f).Only P := by
  induction p with
  | ret a => exact hf a
  | call c k ih => exact ⟨h.1, fun r => ih r (h.2 r)⟩

theorem only_perform {c : C} {f : Res c → Prog C Res α} (hc : P c) (hf : ∀ r, (f r).Only P) :
    (Prog.perform c >>= f).Only P := ⟨hc, hf⟩

theorem only_mono {Q : C → Prop} {p : Prog C Res α} (h : p.Only P) (hQ : ∀ c, P c → Q c) : p.Only Q := by
  induction p with
  | ret a => trivial
  | call c k ih => exact ⟨hQ c h.1, fun r => ih r (h.2 r)⟩

theorem only_exec (hp : p.Only P) (h : Exec X p s l q t) : (∀ e ∈ l, P e.1) ∧ q.Only P := by
  induction h with
  | start => exact ⟨nofun, hp⟩
  | rely _ _ ih => exact ih
  | call _ ih =>
    obtain ⟨hl, hc, hk⟩ := ih
    refine ⟨fun e he => ?_, hk _⟩
    rcases List.mem_append.mp he with he | he
    · exact hl e he
    · rw [List.mem_singleton.mp he]
      exact hc

/-! ## What its calls find -/

/-- Whatever the others do, each call of `p` satisfies `G` with the state it finds. -/
def Calls (X : Setting C Res σ) (G : C → σ → Prop) : Prog C Res α → σ → Prop
  | .ret _, _ => True
  | .call c k, s => ∀ t, X.rely s t → X.ok c t → G c t ∧ Calls X G (k (X.sem c t).1) (X.sem c t).2

variable {G : C → σ → Prop}

theorem calls_bind {p : Prog C Res α} {f : α → Prog C Res β} (h : Calls X G p s)
    (hf : wp X p (fun a t => Calls X G (f a) t) s) : Calls X G (p >>= f) s := by
  induction p generalizing s with
  | ret a => exact hf s (X.rely_refl s)
  | call c k ih =>
    intro t ht hok
    obtain ⟨hc, hk⟩ := h t ht hok
    exact ⟨hc, ih _ hk (hf t ht hok)⟩

theorem calls_perform {c : C} {f : Res c → Prog C Res β}
    (h : ∀ t, X.rely s t → X.ok c t → G c t ∧ Calls X G (f (X.sem c t).1) (X.sem c t).2) :
    Calls X G (Prog.perform c >>= f) s := h

theorem calls_of_only {p : Prog C Res α} (h : p.Only P) (hP : ∀ c t, P c → G c t) : Calls X G p s := by
  induction p generalizing s with
  | ret a => trivial
  | call c k ih => exact fun t _ _ => ⟨hP c t h.1, ih _ (h.2 _)⟩

/-- With an invariant that the others and the calls of `p` keep. -/
theorem calls_of_kept {I : σ → Prop} {p : Prog C Res α} (hp : p.Only P) (hs : I s)
    (hrely : ∀ {s t}, I s → X.rely s t → I t) (hsem : ∀ {c s}, P c → I s → I (X.sem c s).2)
    (hG : ∀ c t, P c → I t → G c t) : Calls X G p s := by
  induction p generalizing s with
  | ret a => trivial
  | call c k ih =>
    intro t ht _
    have hi := hrely hs ht
    exact ⟨hG c t hp.1 hi, ih _ (hp.2 _) (hsem hp.1 hi)⟩

theorem calls_stable (h : Calls X G p s) (ht : X.rely s t) : Calls X G p t := by
  cases p with
  | ret a => trivial
  | call c k => exact fun u hu hok => h u (X.rely_trans ht hu) hok

theorem calls_exec (hp : Calls X G p s) (h : Exec X p s l q t) (hok : ∀ e ∈ l, X.ok e.1 e.2) : Calls X G q t := by
  induction h with
  | start => exact hp
  | rely _ hr ih => exact calls_stable (ih hok) hr
  | call _ ih =>
    have hc := ih fun e he => hok e (List.mem_append_left _ he)
    exact (hc _ (X.rely_refl _) (hok _ (List.mem_append_right _ (List.mem_singleton.mpr rfl)))).2

end RttRos2.Lib
