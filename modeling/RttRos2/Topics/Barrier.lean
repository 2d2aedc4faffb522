/-
  RttRos2.Topics.Barrier — `Waitable::cancel` is a barrier for the publisher's callback.

  To the threads of a topic stream come calls of `trigger` by anybody, at any time, and
  exceptions: what `func_` or the `trigger` after it throws leaves `execute`, and the lock
  guard releases the mutex.

  `cancel_is_barrier`: when a `cancel` has returned, no executor is in `func_`, and in no
  continuation does one get there again, also one that found the waitable ready before; so
  nothing more is read or published. Executors call `func_` only with the mutex held, and
  only when it is set, and it is cleared under the mutex (`Barred`).
-/

import RttRos2.Topics.Stream

namespace RttRos2.Topics

open RttRos2.Lib

variable {T : Type} {B : Storage T} {s t : St T} {e c : Nat}

/-! ## Calls and exceptions -/

inductive Act (T : Type) where
  | ev (e : Ev T)
  | trigger
  | throw (e : Nat)

def act (B : Storage T) (s : St T) : Act T → Option (St T)
  | .ev ev => step B s ev
  | .trigger => some s.trigger
  | .throw e =>
    match s.executor e with
    | .func _ => some { s.goto e .idle with mutex := none }
    | .returned false => some { (s.goto e .idle).trigger with mutex := none }
    | _ => none

/-- In `func_`. -/
def ExecPc.running : ExecPc T → Bool
  | .func _ => true
  | _ => false

/-- Going to call `func_`, or in it. -/
def ExecPc.calls : ExecPc T → Bool
  | .clear | .func _ => true
  | _ => false

structure Barred (s : St T) : Prop where
  exclusive : Exclusive s.inside s.mutex
  cleared : ∀ c, s.canceler c = .leave ∨ s.canceler c = .returned → s.func = false
  silent : s.func = false → ∀ e, (s.executor e).calls = false

theorem barred_init : Barred (init : St T) := by
  refine ⟨?_, ?_, ?_⟩
  · intro x hx
    cases x <;> cases hx
  · intro c hc
    rcases hc with hc | hc <;> cases hc
  · intro h
    cases h

theorem ExecPc.inside_of_calls {p : ExecPc T} (h : p.calls = true) : p.inside = true := by
  cases p <;> first | rfl | cases h

/-! ## One step -/

/-- A step of an executor that does not go to call a `func_` that was cleared. -/
theorem Barred.executor (hb : Barred s) {p : ExecPc T} (hx : t.executor = Function.update s.executor e p)
    (hc : t.canceler = s.canceler) (hf : t.func = s.func) (hp : p.calls = true → s.func = true)
    (hexcl : Exclusive t.inside t.mutex) : Barred t := by
  refine ⟨hexcl, ?_, ?_⟩
  · intro c
    rw [hc, hf]
    exact hb.cleared c
  · intro hfalse e'
    rw [hf] at hfalse
    by_cases he : e' = e
    · subst he
      rw [hx, Function.update_self]
      by_contra hcalls
      rw [hp (Bool.not_eq_false _ ▸ hcalls)] at hfalse
      cases hfalse
    · rw [hx, Function.update_of_ne he]
      exact hb.silent hfalse e'

/-- What one step inside `execute` does: the executor `e` goes to `p`. -/
structure Executes (s t : St T) (e : Nat) (p : ExecPc T) : Prop where
  inside : (s.executor e).inside = true
  executor : t.executor = Function.update s.executor e p
  canceler : t.canceler = s.canceler
  func : t.func = s.func
  /-- It goes to call `func_` when it finds it set, and stays in it. -/
  calls : p.calls = true → s.func = true ∨ (s.executor e).calls = true
  mutex : (p.inside = true ∧ t.mutex = s.mutex) ∨ (p.inside = false ∧ t.mutex = none)
  quiet : (s.executor e).calls = false → t.reads = s.reads ∧ t.published = s.published

/-- A step from `p` that keeps the mutex, of an executor that is in `func_`. -/
theorem executes_func {p : FuncPc T} (hp : s.executor e = .func p) {q : ExecPc T} (hq : q.inside = true)
    (hx : t.executor = Function.update s.executor e q) (hc : t.canceler = s.canceler) (hf : t.func = s.func)
    (hm : t.mutex = s.mutex) : Executes s t e q := by
  refine ⟨by rw [hp]; rfl, hx, hc, hf, fun _ => Or.inr (by rw [hp]; rfl), Or.inl ⟨hq, hm⟩, fun hcalls => ?_⟩
  rw [hp] at hcalls
  cases hcalls

theorem execute_executes {answer : Bool} (h : s.execute e answer = some t) : ∃ p, Executes s t e p := by
  simp only [St.execute] at h
  split at h
  · cases h
  · cases h
  · -- locked
    rename_i hp
    cases h
    refine ⟨_, by rw [hp]; rfl, rfl, rfl, rfl, ?_, ?_, fun _ => ⟨rfl, rfl⟩⟩
    · cases s.func <;> simp [ExecPc.calls]
    · refine Or.inl ⟨?_, rfl⟩
      cases s.func <;> rfl
  · -- clear
    rename_i hp
    cases h
    exact ⟨_, by rw [hp]; rfl, rfl, rfl, rfl, fun _ => Or.inr (by rw [hp]; rfl), Or.inl ⟨rfl, rfl⟩, fun _ => ⟨rfl, rfl⟩⟩
  · -- enter
    rename_i hp
    cases h
    exact ⟨_, executes_func hp rfl rfl rfl rfl rfl⟩
  · -- borrow
    rename_i hp
    cases h
    exact ⟨_, executes_func hp (by cases answer <;> rfl) rfl rfl rfl rfl⟩
  · -- read
    rename_i loan hp
    split at h
    · cases h
      exact ⟨_, executes_func hp rfl rfl rfl rfl rfl⟩
    · cases h
      exact ⟨_, executes_func hp rfl rfl rfl rfl rfl⟩
  · -- publish
    rename_i loan x hp
    cases h
    exact ⟨_, executes_func hp rfl rfl rfl rfl rfl⟩
  · -- returned
    rename_i done hp
    cases h
    refine ⟨.leave, by rw [hp]; rfl, ?_, ?_, ?_, fun hcalls => ?_, Or.inl ⟨rfl, ?_⟩, fun _ => ?_⟩
    · cases done <;> rfl
    · cases done <;> rfl
    · cases done <;> rfl
    · cases hcalls
    · cases done <;> rfl
    · cases done <;> exact ⟨rfl, rfl⟩
  · -- leave
    rename_i hp
    cases h
    refine ⟨.idle, by rw [hp]; rfl, rfl, rfl, rfl, fun hcalls => ?_, Or.inr ⟨rfl, rfl⟩, fun _ => ⟨rfl, rfl⟩⟩
    cases hcalls

theorem execute_barred (hb : Barred s) {p : ExecPc T} (h : Executes s t e p) : Barred t := by
  have hm : s.mutex = some (.executor e) := hb.exclusive (.executor e) h.inside
  have hothers := inside_of_executor h.executor h.canceler
  have hexcl := hb.exclusive
  rw [hm] at hexcl
  refine hb.executor h.executor h.canceler h.func ?_ ?_
  · intro hcalls
    rcases h.calls hcalls with hf | hs
    · exact hf
    · by_contra hf
      rw [hb.silent (Bool.not_eq_true _ ▸ hf) e] at hs
      cases hs
  · rcases h.mutex with ⟨-, htm⟩ | ⟨hout, htm⟩
    · rw [htm, hm]
      exact hexcl.within hothers
    · rw [htm]
      refine hexcl.release hothers ?_
      simp [St.inside, h.executor, hout]

/-- A step of a canceler that gets the mutex, or has it. -/
theorem Barred.canceling (hb : Barred s) (hm : s.mutex = none ∨ s.mutex = some (.canceler c)) {p : CancelPc}
    (hx : t.executor = s.executor) (hc : t.canceler = Function.update s.canceler c p)
    (hf : t.func = false ∨ (t.func = s.func ∧ p = .locked))
    (htm : t.mutex = some (.canceler c) ∨ (t.mutex = none ∧ p.inside = false)) : Barred t := by
  have hout : ∀ e, (s.executor e).calls = false := by
    intro e
    by_contra hcalls
    have hin := hb.exclusive (.executor e) (ExecPc.inside_of_calls (Bool.not_eq_false _ ▸ hcalls))
    rcases hm with hm | hm <;> rw [hm] at hin <;> cases hin
  have hothers := inside_of_canceler hx hc
  refine ⟨?_, ?_, fun _ e => by rw [hx]; exact hout e⟩
  · have hexcl : Exclusive t.inside (some (.canceler c)) := by
      have := hb.exclusive
      rcases hm with hm | hm <;> rw [hm] at this
      · exact this.acquire hothers
      · exact this.within hothers
    rcases htm with htm | ⟨htm, hp⟩
    · rw [htm]
      exact hexcl
    · rw [htm]
      refine hexcl.release (fun _ _ h => h) ?_
      simp [St.inside, hc, hp]
  · intro c' hc'
    rcases hf with hf | ⟨hf, rfl⟩
    · exact hf
    · rw [hf]
      refine hb.cleared c' ?_
      by_cases hne : c' = c
      · subst hne
        rw [hc, Function.update_self] at hc'
        rcases hc' with hc' | hc' <;> cases hc'
      · rw [hc, Function.update_of_ne hne] at hc'
        exact hc'

/-- A step that moves no executor and no canceler. -/
theorem Barred.same (hb : Barred s) (hx : t.executor = s.executor) (hc : t.canceler = s.canceler)
    (hf : t.func = s.func) (hm : t.mutex = s.mutex) : Barred t := by
  have hin : t.inside = s.inside := by
    funext x
    cases x <;> simp only [St.inside, hx, hc]
  exact ⟨by rw [hin, hm]; exact hb.exclusive, by rw [hc, hf]; exact hb.cleared, by rw [hf, hx]; exact hb.silent⟩

theorem step_barred (hb : Barred s) {ev : Ev T} (h : step B s ev = some t) : Barred t := by
  cases ev with
  | store w x =>
    obtain ⟨-, rfl | ⟨u, -, rfl⟩⟩ := step_store h
    · exact hb
    · exact hb.same rfl rfl rfl rfl
  | signal w =>
    obtain ⟨-, rfl⟩ := step_signal h
    exact hb.same rfl rfl rfl rfl
  | isReady e =>
    obtain ⟨-, -, rfl⟩ := step_isReady h
    have hsub : ∀ x, (s.goto e .ready).inside x → s.inside x := by
      intro x hx
      by_cases hne : x = .executor e
      · subst hne
        simp [St.inside, St.goto, ExecPc.inside] at hx
      · exact inside_of_executor (t := s.goto e .ready) rfl rfl x hne hx
    exact hb.executor rfl rfl rfl (fun hcalls => by cases hcalls) (hb.exclusive.outside hsub)
  | lock e =>
    obtain ⟨-, hm, rfl⟩ := step_lock h
    have hexcl := hb.exclusive
    rw [hm] at hexcl
    exact hb.executor rfl rfl rfl (fun hcalls => by cases hcalls) (hexcl.acquire (inside_of_executor rfl rfl))
  | execute e answer =>
    obtain ⟨p, hp⟩ := execute_executes h
    exact execute_barred hb hp
  | cancel c =>
    obtain ⟨-, hm, rfl⟩ := step_cancel h
    exact hb.canceling (Or.inl hm) rfl rfl (Or.inr ⟨rfl, rfl⟩) (Or.inl rfl)
  | reset c =>
    obtain ⟨hc, rfl⟩ := step_reset h
    have hm := hb.exclusive (.canceler c) (by rw [St.inside, hc]; rfl)
    exact hb.canceling (p := .leave) (Or.inr hm) rfl rfl (Or.inl rfl) (Or.inl hm)
  | cancelReturn c =>
    obtain ⟨hc, rfl⟩ := step_cancelReturn h
    have hm := hb.exclusive (.canceler c) (by rw [St.inside, hc]; rfl)
    exact hb.canceling (Or.inr hm) rfl rfl (Or.inl (hb.cleared c (Or.inl hc))) (Or.inr ⟨rfl, rfl⟩)

/-- An executor inside throws: it leaves, and the mutex is free. -/
theorem throw_barred (hb : Barred s) (hin : (s.executor e).inside = true)
    (hx : t.executor = Function.update s.executor e .idle) (hc : t.canceler = s.canceler) (hf : t.func = s.func) (hm : t.mutex = none) : Barred t := by
  have hexcl := hb.exclusive
  rw [hb.exclusive (.executor e) hin] at hexcl
  refine hb.executor hx hc hf (fun hcalls => by cases hcalls) ?_
  rw [hm]
  refine hexcl.release (inside_of_executor hx hc) ?_
  simp [St.inside, hx, ExecPc.inside]

theorem act_barred (hb : Barred s) {a : Act T} (h : act B s a = some t) : Barred t := by
  cases a with
  | ev ev => exact step_barred hb h
  | trigger =>
    cases h
    exact hb.same rfl rfl rfl rfl
  | throw e =>
    simp only [act] at h
    split at h
    · rename_i hp
      cases h
      exact throw_barred hb (by rw [hp]; rfl) rfl rfl rfl rfl
    · rename_i hp
      cases h
      exact throw_barred hb (by rw [hp]; rfl) rfl rfl rfl rfl
    · cases h

/-! ## After `cancel` -/

/-- `func_` is cleared for good, and nothing has been read or published since `s`. -/
structure Stopped (s t : St T) : Prop where
  func : t.func = false
  reads : t.reads = s.reads
  published : t.published = s.published

theorem step_stopped (hb : Barred s) (hf : s.func = false) {ev : Ev T} (h : step B s ev = some t) : Stopped s t := by
  cases ev with
  | execute e answer =>
    obtain ⟨p, hp⟩ := execute_executes h
    obtain ⟨hr, hpub⟩ := hp.quiet (hb.silent hf e)
    exact ⟨hp.func.trans hf, hr, hpub⟩
  | reset c =>
    obtain ⟨-, rfl⟩ := step_reset h
    exact ⟨rfl, rfl, rfl⟩
  | store w x => obtain ⟨-, rfl | ⟨u, -, rfl⟩⟩ := step_store h <;> exact ⟨hf, rfl, rfl⟩
  | signal w => obtain ⟨-, rfl⟩ := step_signal h; exact ⟨hf, rfl, rfl⟩
  | isReady e => obtain ⟨-, -, rfl⟩ := step_isReady h; exact ⟨hf, rfl, rfl⟩
  | lock e => obtain ⟨-, -, rfl⟩ := step_lock h; exact ⟨hf, rfl, rfl⟩
  | cancel c => obtain ⟨-, -, rfl⟩ := step_cancel h; exact ⟨hf, rfl, rfl⟩
  | cancelReturn c => obtain ⟨-, rfl⟩ := step_cancelReturn h; exact ⟨hf, rfl, rfl⟩

theorem act_stopped (hb : Barred s) (hf : s.func = false) {a : Act T} (h : act B s a = some t) : Stopped s t := by
  cases a with
  | ev ev => exact step_stopped hb hf h
  | trigger =>
    cases h
    exact ⟨hf, rfl, rfl⟩
  | throw e =>
    simp only [act] at h
    split at h <;> cases h <;> exact ⟨hf, rfl, rfl⟩

/-! ## Runs -/

theorem reach_barred (h : Path (act B) Always init s) : Barred s :=
  h.invariant barred_init fun _ _ _ hb _ ha => act_barred hb ha

theorem path_stopped (hb : Barred s) (hf : s.func = false) (h : Path (act B) Always s t) : Barred t ∧ Stopped s t := by
  refine h.invariant (P := fun t => Barred t ∧ Stopped s t) ⟨hb, hf, rfl, rfl⟩ ?_
  intro u v a hu _ ha
  have hv := act_stopped hu.1 hu.2.func ha
  exact ⟨act_barred hu.1 ha, hv.func, hv.reads.trans hu.2.reads, hv.published.trans hu.2.published⟩

/-- Nobody is in `func_`. -/
def NotRunning (s : St T) : Prop := ∀ e, (s.executor e).running = false

theorem ExecPc.calls_of_running {p : ExecPc T} (h : p.running = true) : p.calls = true := by
  cases p <;> first | rfl | cases h

theorem Barred.notRunning (hb : Barred s) (hf : s.func = false) : NotRunning s := by
  intro e
  by_contra hrun
  have hcalls := ExecPc.calls_of_running (Bool.not_eq_false _ ▸ hrun)
  rw [hb.silent hf e] at hcalls
  cases hcalls

theorem cancel_is_barrier (B : Storage T) {s : St T} (h : Path (act B) Always init s) {c : Nat}
    (hc : s.canceler c = .returned) :
    NotRunning s ∧ ∀ t, Path (act B) Always s t → NotRunning t ∧ t.reads = s.reads ∧ t.published = s.published := by
  have hb := reach_barred h
  have hf := hb.cleared c (Or.inr hc)
  refine ⟨hb.notRunning hf, fun t ht => ?_⟩
  obtain ⟨hbt, hstop⟩ := path_stopped hb hf ht
  exact ⟨hbt.notRunning hstop.func, hstop.reads, hstop.published⟩

/-- An executor found a sample to be there, and `cancel` gets the mutex before it. -/
def cancelFirst : List (Act Nat) :=
  [.ev (.store 0 5), .ev (.signal 0), .ev (.isReady 0), .ev (.cancel 0), .ev (.reset 0), .ev (.cancelReturn 0)]

theorem cancel_is_barrier_ready :
    ∃ s, run (act (.buffer 1)) Always init cancelFirst = some s ∧ s.executor 0 = .ready ∧ s.unread = [5] ∧
      NotRunning s ∧
      ∀ t, Path (act (.buffer 1)) Always s t → NotRunning t ∧ t.reads = s.reads ∧ t.published = s.published := by
  refine ⟨_, rfl, rfl, rfl, ?_⟩
  exact cancel_is_barrier (.buffer 1) (run_path cancelFirst rfl) (c := 0) rfl

end RttRos2.Topics
