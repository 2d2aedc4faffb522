/-
  RttRos2.Topics.Drain — what was written is published once the writers are done.

  Of the threads `n` write and `n` execute; none cancels. `executors_drain`: in whatever
  order the executors take their steps from then on,
  - they take no more than `potential`, and `12 n` for each loan that the middleware
    refuses, which ends `publish()` early;
  - when none of them can take a step, every sample that was unread has been published, in
    order.

  An executor can be called again as long as `has_work_` is set, so setting it is what a
  step costs: a signal that is still to come, and an executor that will trigger, weigh as
  much as it takes all executors to find out that nothing is left (`ExecPc.weight`).
-/

import Mathlib.Algebra.BigOperators.Group.Finset.Piecewise
import Mathlib.Algebra.Order.BigOperators.Group.Finset
import RttRos2.Topics.Stream

namespace RttRos2.Topics

open RttRos2.Lib Finset

variable {T : Type} {B : Storage T} {s t : St T} {n e w : Nat} {ev : Ev T} {p : ExecPc T} {b : Bool}

/-! ## Threads -/

/-- One of the first `n` writers or executors takes the step. -/
def Ev.Among (n : Nat) : Ev T → Prop
  | .store w _ | .signal w => w < n
  | .isReady e | .lock e | .execute e _ => e < n
  | .cancel _ | .reset _ | .cancelReturn _ => False

/-- The same, but no sample is written. -/
def Ev.Drains (n : Nat) : Ev T → Prop
  | .store _ _ => False
  | ev => ev.Among n

instance (n : Nat) : (ev : Ev T) → Decidable (ev.Among n)
  | .store w _ | .signal w => inferInstanceAs (Decidable (w < n))
  | .isReady e | .lock e | .execute e _ => inferInstanceAs (Decidable (e < n))
  | .cancel _ | .reset _ | .cancelReturn _ => .isFalse id

instance (n : Nat) : (ev : Ev T) → Decidable (ev.Drains n)
  | .store _ _ | .cancel _ | .reset _ | .cancelReturn _ => .isFalse id
  | .signal w => inferInstanceAs (Decidable (w < n))
  | .isReady e | .lock e | .execute e _ => inferInstanceAs (Decidable (e < n))

theorem Ev.Among.cases (ha : ev.Among n) : ev.Drains n ∨ ∃ w x, w < n ∧ ev = .store w x := by
  cases ev with
  | store w x => exact .inr ⟨w, x, ha, rfl⟩
  | _ => exact .inl ha

/-- The other threads have done nothing, nobody has canceled, and who holds the mutex is
    inside. -/
structure Few (n : Nat) (s : St T) : Prop where
  writer : ∀ w, n ≤ w → s.writer w = .idle
  executor : ∀ e, n ≤ e → s.executor e = .idle
  func : s.func = true
  holder : ∀ x, s.mutex = some x → ∃ e, x = .executor e ∧ (s.executor e).inside = true

theorem few_init : Few n (init : St T) := ⟨fun _ _ => rfl, fun _ _ => rfl, rfl, fun _ h => by cases h⟩

theorem Few.writer_update (hf : Few n s) (hw : w < n) {p : WriterPc} :
    ∀ w', n ≤ w' → Function.update s.writer w p w' = .idle := by
  intro w' hw'
  rw [Function.update_of_ne (by omega)]
  exact hf.writer w' hw'

/-- One of the first `n` executors goes to `p`. -/
theorem Few.goto (hf : Few n s) (he : e < n) (hx : t.executor = Function.update s.executor e p)
    (hw : t.writer = s.writer) (hfn : t.func = s.func)
    (hm : t.mutex = none ∨ t.mutex = some (.executor e) ∧ p.inside = true ∨
      t.mutex = s.mutex ∧ ((s.executor e).inside = true → p.inside = true)) : Few n t := by
  refine ⟨fun w hwn => ?_, fun e' he' => ?_, hfn.trans hf.func, fun x hxm => ?_⟩
  · rw [hw]
    exact hf.writer w hwn
  · rw [hx, Function.update_of_ne (by omega)]
    exact hf.executor e' he'
  · rcases hm with hm | ⟨hm, hp⟩ | ⟨hm, hp⟩
    · cases hm.symm.trans hxm
    · cases hm.symm.trans hxm
      exact ⟨e, rfl, by rwa [hx, Function.update_self]⟩
    · obtain ⟨e', rfl, hin⟩ := hf.holder x (hm.symm.trans hxm)
      refine ⟨e', rfl, ?_⟩
      by_cases hee : e' = e
      · subst hee
        rw [hx, Function.update_self]
        exact hp hin
      · rwa [hx, Function.update_of_ne hee]

/-! ## What is left to do -/

/-- A set `has_work_` will make this executor run `publish()` once more. -/
def ExecPc.again : ExecPc T → Bool
  | .ready | .locked | .clear => false
  | _ => true

/-- Steps to the end of `execute`, if nothing is unread; `n` executors start over when it
    triggers. -/
def ExecPc.rank (n : Nat) : ExecPc T → Nat
  | .idle => 0
  | .ready => 11
  | .locked => 10
  | .clear => 9
  | .func .enter => 8
  | .func (.publish _ _) => 7
  | .func .borrow => 6
  | .func (.read _) => 5
  | .returned false => 3 + 12 * n
  | .returned true => 2
  | .leave => 1

def ExecPc.weight (n : Nat) (hasWork : Bool) (p : ExecPc T) : Nat :=
  p.rank n + if hasWork && p.again then 12 else 0

def weights (n : Nat) (hasWork : Bool) (x : Nat → ExecPc T) : Nat := ∑ e ∈ range n, (x e).weight n hasWork

/-- Every signal that is still to come makes `n` executors start over. -/
def signals (n : Nat) (x : Nat → WriterPc) : Nat := ∑ w ∈ range n, if x w = .stored then 12 * n + 1 else 0

/-- The steps the threads have still to take. -/
def potential (n : Nat) (s : St T) : Nat := signals n s.writer + 3 * s.unread.length + weights n s.hasWork s.executor

/-- A loan that is refused. -/
def refusal (n : Nat) (s : St T) : Ev T → Nat
  | .execute e false =>
    match s.executor e with
    | .func .borrow => 12 * n
    | _ => 0
  | _ => 0

/-- One term of a sum changes. -/
theorem sum_update {α : Type} (f : α → Nat) (x : Nat → α) {i : Nat} (hi : i < n) (a : α) :
    (∑ j ∈ range n, f (Function.update x i a j)) + f (x i) = (∑ j ∈ range n, f (x j)) + f a := by
  have hmem : i ∈ range n := mem_range.mpr hi
  have hsame : ∑ j ∈ (range n).erase i, f (Function.update x i a j) = ∑ j ∈ (range n).erase i, f (x j) :=
    sum_congr rfl fun j hj => by rw [Function.update_of_ne (ne_of_mem_erase hj)]
  rw [← add_sum_erase _ _ hmem, ← add_sum_erase (range n) (fun j => f (x j)) hmem, hsame, Function.update_self]
  omega

theorem weights_update (he : e < n) (x : Nat → ExecPc T) (p : ExecPc T) (b : Bool) :
    weights n b (Function.update x e p) + (x e).weight n b = weights n b x + p.weight n b :=
  sum_update (ExecPc.weight n b) x he p

theorem weight_false_le (p : ExecPc T) : p.weight n false ≤ p.weight n b := Nat.le_add_right _ _

theorem weight_le (p : ExecPc T) : p.weight n b ≤ p.weight n false + 12 := by
  unfold ExecPc.weight
  split <;> simp

theorem weights_false_le (x : Nat → ExecPc T) : weights n false x ≤ weights n b x :=
  sum_le_sum fun e _ => weight_false_le (x e)

theorem weights_le (x : Nat → ExecPc T) : weights n b x ≤ weights n false x + 12 * n := by
  calc weights n b x ≤ ∑ e ∈ range n, ((x e).weight n false + 12) := sum_le_sum fun e _ => weight_le (x e)
    _ = weights n false x + 12 * n := by
      rw [sum_add_distrib, sum_const_nat fun _ _ => rfl, card_range, Nat.mul_comm, weights]

/-- An executor finds `has_work_` set. -/
theorem ready_lowers (he : e < n) (hp : s.executor e = .idle) (hw : s.hasWork = true) :
    potential n (s.goto e .ready) + 1 ≤ potential n s := by
  have hsum := weights_update he s.executor .ready true
  have h12 : (s.executor e).weight n true = 12 := by rw [hp]; rfl
  have h11 : (ExecPc.ready : ExecPc T).weight n true = 11 := rfl
  show signals n s.writer + 3 * s.unread.length + weights n s.hasWork (Function.update s.executor e .ready) + 1 ≤
    signals n s.writer + 3 * s.unread.length + weights n s.hasWork s.executor
  rw [hw]
  omega

theorem signal_lowers (hw : w < n) (hs : s.writer w = .stored) :
    potential n { s.trigger with writer := Function.update s.writer w .idle } + 1 ≤ potential n s := by
  have hsum := sum_update (fun p => if p = WriterPc.stored then 12 * n + 1 else 0) s.writer hw .idle
  rw [hs, if_pos rfl, if_neg (by decide)] at hsum
  have hup : weights n true s.executor ≤ weights n false s.executor + 12 * n := weights_le s.executor
  have hdown : weights n false s.executor ≤ weights n s.hasWork s.executor := weights_false_le s.executor
  show signals n (Function.update s.writer w .idle) + 3 * s.unread.length + weights n true s.executor + 1 ≤
    signals n s.writer + 3 * s.unread.length + weights n s.hasWork s.executor
  unfold signals
  omega

/-- `has_work_` is cleared. -/
theorem clear_lowers (he : e < n) (hp : s.executor e = .clear) :
    potential n { s.goto e (.func .enter) with hasWork := false } + 1 ≤ potential n s := by
  have hsum := weights_update he s.executor (.func .enter) false
  have hdown : weights n false s.executor ≤ weights n s.hasWork s.executor := weights_false_le s.executor
  have h9 : (s.executor e).weight n false = 9 := by rw [hp]; rfl
  have h8 : (ExecPc.func .enter : ExecPc T).weight n false = 8 := rfl
  show signals n s.writer + 3 * s.unread.length + weights n false (Function.update s.executor e (.func .enter)) + 1 ≤
    signals n s.writer + 3 * s.unread.length + weights n s.hasWork s.executor
  omega

/-- `publish()` returned false. -/
theorem trigger_lowers (he : e < n) (hp : s.executor e = .returned false) :
    potential n (s.goto e .leave).trigger + 1 ≤ potential n s := by
  have hsum := weights_update he s.executor .leave false
  have hup : weights n true (Function.update s.executor e .leave) ≤ weights n false _ + 12 * n := weights_le _
  have hdown : weights n false s.executor ≤ weights n s.hasWork s.executor := weights_false_le s.executor
  have h3 : (s.executor e).weight n false = 3 + 12 * n := by rw [hp]; rfl
  have h1 : (ExecPc.leave : ExecPc T).weight n false = 1 := rfl
  show signals n s.writer + 3 * s.unread.length + weights n true (Function.update s.executor e .leave) + 1 ≤
    signals n s.writer + 3 * s.unread.length + weights n s.hasWork s.executor
  omega

/-! ## One step -/

/-- What a step does that stores no sample: the threads stay few, no sample gets lost or
    comes back, and there is less left to do, but for a refused loan. -/
structure Lowers (n k : Nat) (s t : St T) : Prop where
  few : Few n t
  books : t.reads ++ t.unread = s.reads ++ s.unread
  potential : potential n t + 1 ≤ potential n s + k

/-- An executor goes on, and `has_work_` weighs on it as before. -/
theorem lowers_goto (he : e < n) {q : ExecPc T} (hq : s.executor e = q) {k : Nat}
    (hx : t.executor = Function.update s.executor e p) (hf : Few n t) (hw : t.writer = s.writer)
    (hh : t.hasWork = s.hasWork) (hb : t.reads ++ t.unread = s.reads ++ s.unread) (ha : p.again = q.again)
    (hl : 3 * t.unread.length + p.rank n + 1 ≤ 3 * s.unread.length + q.rank n + k) : Lowers n k s t := by
  refine ⟨hf, hb, ?_⟩
  have hsum := weights_update he s.executor p s.hasWork
  rw [hq, ExecPc.weight, ExecPc.weight, ha] at hsum
  unfold potential
  rw [hx, hw, hh]
  omega

theorem execute_lowers (hf : Few n s) (he : e < n) {answer : Bool} (h : s.execute e answer = some t) :
    Lowers n (refusal n s (.execute e answer)) s t := by
  -- it stays inside, but for its last step
  have hgo {p : ExecPc T} (hp : p.inside = true) {t : St T} (hx : t.executor = Function.update s.executor e p)
      (hw : t.writer = s.writer) (hfn : t.func = s.func) (hm : t.mutex = s.mutex) : Few n t :=
    hf.goto he hx hw hfn (.inr (.inr ⟨hm, fun _ => hp⟩))
  simp only [St.execute] at h
  split at h
  · cases h
  · cases h
  · -- locked
    rename_i hp
    cases h
    rw [if_pos hf.func]
    refine lowers_goto he hp rfl (hgo rfl rfl rfl rfl rfl) rfl rfl rfl rfl ?_
    show 3 * s.unread.length + 9 + 1 ≤ 3 * s.unread.length + 10 + _
    omega
  · -- clear
    rename_i hp
    cases h
    exact ⟨hgo rfl rfl rfl rfl rfl, rfl, (clear_lowers he hp).trans (Nat.le_add_right _ _)⟩
  · -- enter
    rename_i hp
    cases h
    cases answer with
    | false =>
      refine lowers_goto he hp rfl (hgo rfl rfl rfl rfl rfl) rfl rfl rfl rfl ?_
      show 3 * s.unread.length + 5 + 1 ≤ 3 * s.unread.length + 8 + _
      omega
    | true =>
      refine lowers_goto he hp rfl (hgo rfl rfl rfl rfl rfl) rfl rfl rfl rfl ?_
      show 3 * s.unread.length + 6 + 1 ≤ 3 * s.unread.length + 8 + _
      omega
  · -- borrow
    rename_i hp
    cases h
    cases answer with
    | false =>
      refine lowers_goto he hp rfl (hgo rfl rfl rfl rfl rfl) rfl rfl rfl rfl ?_
      rw [refusal, hp]
      show 3 * s.unread.length + (3 + 12 * n) + 1 ≤ 3 * s.unread.length + 6 + 12 * n
      omega
    | true =>
      refine lowers_goto he hp rfl (hgo rfl rfl rfl rfl rfl) rfl rfl rfl rfl ?_
      show 3 * s.unread.length + 5 + 1 ≤ 3 * s.unread.length + 6 + _
      omega
  · -- read
    rename_i loan hp
    split at h
    · cases h
      refine lowers_goto he hp rfl (hgo rfl rfl rfl rfl rfl) rfl rfl rfl rfl ?_
      show 3 * s.unread.length + 2 + 1 ≤ 3 * s.unread.length + 5 + _
      omega
    · rename_i x u hu
      cases h
      refine lowers_goto he hp rfl (hgo (p := .func (.publish loan x)) rfl rfl rfl rfl rfl) rfl rfl ?_ rfl ?_
      · show (s.reads ++ [x]) ++ u = s.reads ++ s.unread
        rw [hu, List.append_assoc, List.singleton_append]
      · show 3 * u.length + 7 + 1 ≤ 3 * s.unread.length + 5 + _
        rw [hu, List.length_cons]
        omega
  · -- publish
    rename_i loan x hp
    cases h
    cases loan with
    | false =>
      refine lowers_goto he hp rfl (hgo (p := .func (.read false)) rfl rfl rfl rfl rfl) rfl rfl rfl rfl ?_
      show 3 * s.unread.length + 5 + 1 ≤ 3 * s.unread.length + 7 + _
      omega
    | true =>
      refine lowers_goto he hp rfl (hgo (p := .func .borrow) rfl rfl rfl rfl rfl) rfl rfl rfl rfl ?_
      show 3 * s.unread.length + 6 + 1 ≤ 3 * s.unread.length + 7 + _
      omega
  · -- returned
    rename_i done hp
    cases h
    cases done with
    | false =>
      exact ⟨hgo (p := .leave) rfl rfl rfl rfl rfl, rfl, (trigger_lowers he hp).trans (Nat.le_add_right _ _)⟩
    | true =>
      refine lowers_goto he hp rfl (hgo (p := .leave) rfl rfl rfl rfl rfl) rfl rfl rfl rfl ?_
      show 3 * s.unread.length + 1 + 1 ≤ 3 * s.unread.length + 2 + _
      omega
  · -- leave
    rename_i hp
    cases h
    refine lowers_goto he hp (p := .idle) rfl (hf.goto he rfl rfl rfl (.inl rfl)) rfl rfl rfl rfl ?_
    show 3 * s.unread.length + 0 + 1 ≤ 3 * s.unread.length + 1 + _
    omega

theorem step_lowers (hf : Few n s) (hd : ev.Drains n) (h : step B s ev = some t) :
    Lowers n (refusal n s ev) s t := by
  cases ev with
  | store w x => cases hd
  | signal w =>
    obtain ⟨hw, rfl⟩ := step_signal h
    exact ⟨⟨hf.writer_update hd, hf.executor, hf.func, hf.holder⟩, rfl, signal_lowers hd hw⟩
  | isReady e =>
    obtain ⟨he, hw, rfl⟩ := step_isReady h
    refine ⟨hf.goto hd rfl rfl rfl (.inr (.inr ⟨rfl, fun hin => ?_⟩)), rfl, ?_⟩
    · rw [he] at hin
      cases hin
    · exact ready_lowers hd he hw
  | lock e =>
    obtain ⟨he, -, rfl⟩ := step_lock h
    refine lowers_goto hd he (p := .locked) rfl (hf.goto hd rfl rfl rfl (.inr (.inl ⟨rfl, rfl⟩))) rfl rfl rfl rfl ?_
    show 3 * s.unread.length + 10 + 1 ≤ 3 * s.unread.length + 11 + 0
    exact Nat.le_refl _
  | execute e answer => exact execute_lowers hf hd h
  | cancel c | reset c | cancelReturn c => cases hd

theorem step_few (hf : Few n s) (ha : ev.Among n) (h : step B s ev = some t) : Few n t := by
  rcases ha.cases with hd | ⟨w, x, hw, rfl⟩
  · exact (step_lowers hf hd h).few
  · obtain ⟨-, rfl | ⟨u, -, rfl⟩⟩ := step_store h
    · exact hf
    · exact ⟨hf.writer_update hw, hf.executor, hf.func, hf.holder⟩

/-! ## The end -/

/-- None of the threads can take a step. -/
def Stuck (B : Storage T) (n : Nat) (s : St T) : Prop := ∀ ev : Ev T, ev.Drains n → step B s ev = none

/-- An executor inside can take its next step. -/
theorem execute_some (hin : (s.executor e).inside = true) : ∃ t, s.execute e true = some t := by
  unfold St.execute
  split
  · rename_i hp
    rw [hp] at hin
    cases hin
  · rename_i hp
    rw [hp] at hin
    cases hin
  · exact ⟨_, rfl⟩
  · exact ⟨_, rfl⟩
  · exact ⟨_, rfl⟩
  · exact ⟨_, rfl⟩
  · split <;> exact ⟨_, rfl⟩
  · exact ⟨_, rfl⟩
  · exact ⟨_, rfl⟩
  · exact ⟨_, rfl⟩

theorem stuck_drained (hn : 0 < n) (hi : Inv s) (hf : Few n s) (hs : Stuck B n s) :
    s.unread = [] ∧ s.published = s.reads := by
  have hout : ∀ e, (s.executor e).inside = false := by
    intro e
    by_contra hin
    rw [Bool.not_eq_false] at hin
    have he : e < n := by
      by_contra hge
      rw [hf.executor e (Nat.le_of_not_lt hge)] at hin
      cases hin
    obtain ⟨t, ht⟩ := execute_some hin
    cases (hs (.execute e true) he).symm.trans ht
  have hm : s.mutex = none := by
    cases hm : s.mutex with
    | none => rfl
    | some x =>
      obtain ⟨e, -, hin⟩ := hf.holder x hm
      cases (hout e).symm.trans hin
  have hidle : s.executor 0 = .idle := by
    cases hp : s.executor 0 with
    | idle => rfl
    | ready =>
      have hl := hs (.lock 0) hn
      rw [step, hp, hm] at hl
      cases hl
    | _ =>
      have h0 := hout 0
      rw [hp] at h0
      cases h0
  have hwork : s.hasWork = false := by
    cases hw : s.hasWork with
    | false => rfl
    | true =>
      have hr := hs (.isReady 0) hn
      rw [step, hidle, hw] at hr
      cases hr
  refine ⟨?_, hi.books_idle (by simp [hm])⟩
  by_contra hu
  rcases hi.work hu with h | ⟨w, h⟩ | ⟨e, h⟩
  · cases hwork.symm.trans h
  · have hw : w < n := by
      by_contra hge
      cases (hf.writer w (Nat.le_of_not_lt hge)).symm.trans h
    have hg := hs (.signal w) hw
    rw [step, if_pos h] at hg
    cases hg
  · cases (hout e).symm.trans (ExecPc.inside_of_drains h)

/-! ## Runs -/

/-- The first `n` threads, canceling nothing. -/
abbrev Among (n : Nat) (_ : St T) (ev : Ev T) : Prop := ev.Among n

abbrev Drains (n : Nat) (_ : St T) (ev : Ev T) : Prop := ev.Drains n

theorem reach_few (h : Path (step B) (Among n) init s) : Few n s :=
  h.invariant few_init fun _ _ _ hf ha he => step_few hf ha he

theorem run_books {es : List (Ev T)} (hf : Few n s) (hr : run (step B) (Drains n) s es = some t) :
    Few n t ∧ t.reads ++ t.unread = s.reads ++ s.unread := by
  refine (run_path es hr).invariant (P := fun u => Few n u ∧ u.reads ++ u.unread = s.reads ++ s.unread) ⟨hf, rfl⟩ ?_
  rintro u v ev ⟨hu, hb⟩ hd he
  have hl := step_lowers hu hd he
  exact ⟨hl.few, hl.books.trans hb⟩

theorem executors_drain (B : Storage T) {n : Nat} (hn : 0 < n) {s : St T} (h : Path (step B) (Among n) init s)
    (es : List (Ev T)) {t : St T} (hr : run (step B) (Drains n) s es = some t) :
    es.length ≤ potential n s + spent (step B) (refusal n) s es ∧
    (Stuck B n t → t.unread = [] ∧ t.published = s.reads ++ s.unread) := by
  have hf := reach_few h
  obtain ⟨hft, hb⟩ := run_books hf hr
  refine ⟨?_, fun hs => ?_⟩
  · have hl := run_length_le (I := Few n) (m := potential n) (refusal n)
      (fun u ev v hu hd he => ⟨(step_lowers hu hd he).few, (step_lowers hu hd he).potential⟩) es hf hr
    exact (Nat.le_add_right _ _).trans hl
  · have hs' : Path (step B) Always init s := h.mono fun _ _ _ => trivial
    have ht : Path (step B) Always init t := hs'.trans ((run_path es hr).mono fun _ _ _ => trivial)
    obtain ⟨hu, hp⟩ := stuck_drained hn (reach_inv ht) hft hs
    rw [hu, List.append_nil] at hb
    exact ⟨hu, hp.trans hb⟩

/-- Two samples are buffered; the loan for the second one is refused, and the executor goes
    on without it. -/
def twoBuffered : List (Ev Nat) := [.store 0 5, .store 1 7, .signal 0]

def drained : List (Ev Nat) :=
  [.isReady 0, .lock 0, .signal 1] ++ List.replicate 6 (.execute 0 true) ++ List.replicate 3 (.execute 0 false) ++
    [.isReady 1, .isReady 0, .lock 1] ++ List.replicate 8 (.execute 1 false) ++ [.lock 0] ++
    List.replicate 6 (.execute 0 false)

theorem executors_drain_refused_loan :
    ∃ s t, run (step (.buffer 2)) (Among 2) init twoBuffered = some s ∧
      run (step (.buffer 2)) (Drains 2) s drained = some t ∧ t.published = [5, 7] ∧
      spent (step (.buffer 2)) (refusal 2) s drained = 24 ∧
      (drained.length ≤ potential 2 s + spent (step (.buffer 2)) (refusal 2) s drained ∧
      (Stuck (.buffer 2) 2 t → t.unread = [] ∧ t.published = s.reads ++ s.unread)) :=
  ⟨_, _, rfl, rfl, rfl, rfl,
    executors_drain (.buffer 2) (by decide) (run_path twoBuffered rfl) drained rfl⟩

end RttRos2.Topics
