/-
  RttRos2.Topics.Stream — a topic stream loses, duplicates and reorders nothing.

  `stream_exact`: in every reachable state
  - the published samples are the samples read from the storage so far, in order, but for
    one that an executor has read and is about to publish; with those still unread they
    are a part of what was written, in order;
  - when a sample is unread, no writer is between storing and `signal()` and no `execute`
    is in progress, `has_work_` is true.

  The latter is the invariant `Inv.work`: an unread sample is always covered by `has_work_`,
  by a writer that will trigger, or by an executor that will read again or trigger: it
  cleared `has_work_` before the loop, and leaves the loop when it finds nothing unread or
  to trigger. Two executors are never inside `execute` at once (`Inv.holder`).
-/

import RttRos2.Lib.Mutex
import RttRos2.Topics.Publisher

namespace RttRos2.Topics

open RttRos2.Lib

variable {T : Type} {B : Storage T} {s t : St T} {e c : Nat}

/-! ## Where the executors are -/

/-- Holding `execute_mutex_`. -/
def ExecPc.inside : ExecPc T → Bool
  | .idle | .ready => false
  | _ => true

/-- Will read the storage again, or trigger. -/
def ExecPc.drains : ExecPc T → Bool
  | .func _ | .returned false => true
  | _ => false

/-- The sample read and not yet published. -/
def ExecPc.hand : ExecPc T → List T
  | .func (.publish _ x) => [x]
  | _ => []

def CancelPc.inside : CancelPc → Bool
  | .locked | .leave => true
  | _ => false

/-- Holding `execute_mutex_`. -/
def St.inside (s : St T) : Holder → Prop
  | .executor e => (s.executor e).inside = true
  | .canceler c => (s.canceler c).inside = true

/-- The sample the executor that holds the mutex has in hand. -/
def St.hand (s : St T) : List T :=
  match s.mutex with
  | some (.executor e) => (s.executor e).hand
  | _ => []

/-- An unread sample will not be forgotten. -/
def Covered (s : St T) : Prop :=
  s.hasWork = true ∨ (∃ w, s.writer w = .stored) ∨ ∃ e, (s.executor e).drains = true

structure Inv (s : St T) : Prop where
  holder : ∀ e, (s.executor e).inside = true → s.mutex = some (.executor e)
  canceler : ∀ c, (s.canceler c).inside = true → s.mutex = some (.canceler c)
  books : s.published ++ s.hand = s.reads
  order : (s.reads ++ s.unread).Sublist s.written
  work : s.unread ≠ [] → Covered s

theorem inv_init : Inv (init : St T) := by
  refine ⟨?_, ?_, rfl, List.Sublist.refl _, fun h => absurd rfl h⟩
  · intro e h
    cases h
  · intro c h
    cases h

/-! ## One step -/

/-- Other threads than the executor `e` are inside only if they were. -/
theorem inside_of_executor {p : ExecPc T} (hx : t.executor = Function.update s.executor e p)
    (hc : t.canceler = s.canceler) (x : Holder) (hne : x ≠ .executor e) (h : t.inside x) : s.inside x := by
  cases x with
  | executor e' =>
    have he : e' ≠ e := fun he => hne (he ▸ rfl)
    simpa only [St.inside, hx, Function.update_of_ne he] using h
  | canceler c => simpa only [St.inside, hc] using h

theorem inside_of_canceler {p : CancelPc} (hx : t.executor = s.executor)
    (hc : t.canceler = Function.update s.canceler c p) (x : Holder) (hne : x ≠ .canceler c) (h : t.inside x) :
    s.inside x := by
  cases x with
  | executor e => simpa only [St.inside, hx] using h
  | canceler c' =>
    have he : c' ≠ c := fun he => hne (he ▸ rfl)
    simpa only [St.inside, hc, Function.update_of_ne he] using h

theorem Inv.exclusive (hi : Inv s) : Exclusive s.inside s.mutex := by
  intro x hx
  cases x with
  | executor e => exact hi.holder e hx
  | canceler c => exact hi.canceler c hx

theorem Inv.of_exclusive (hexcl : Exclusive s.inside s.mutex) (hb : s.published ++ s.hand = s.reads)
    (ho : (s.reads ++ s.unread).Sublist s.written) (hw : s.unread ≠ [] → Covered s) : Inv s :=
  ⟨fun e h => hexcl (.executor e) h, fun c h => hexcl (.canceler c) h, hb, ho, hw⟩

/-- The executor in the mutex goes to `p`. -/
theorem Inv.exec (hi : Inv s) (hm : s.mutex = some (.executor e)) {p : ExecPc T}
    (hx : t.executor = Function.update s.executor e p) (htm : t.mutex = s.mutex) (hc : t.canceler = s.canceler)
    (hb : t.published ++ p.hand = t.reads) (ho : (t.reads ++ t.unread).Sublist t.written)
    (hw : t.unread ≠ [] → Covered t) : Inv t := by
  have hexcl := hi.exclusive
  rw [hm] at hexcl
  refine .of_exclusive ?_ ?_ ho hw
  · rw [htm, hm]
    exact hexcl.within (inside_of_executor hx hc)
  · have hh : t.hand = p.hand := by
      unfold St.hand
      rw [htm, hm, hx]
      show (Function.update s.executor e p e).hand = p.hand
      rw [Function.update_self]
    rw [hh]
    exact hb

/-- Draining goes on. -/
theorem covered_of_drains {p : ExecPc T} (hx : t.executor = Function.update s.executor e p) (hp : p.drains = true) :
    Covered t := by
  refine Or.inr (Or.inr ⟨e, ?_⟩)
  rw [hx, Function.update_self]
  exact hp

theorem hand_of (hm : s.mutex = some (.executor e)) : s.hand = (s.executor e).hand := by
  unfold St.hand
  rw [hm]

theorem Inv.books_nil (hi : Inv s) (hm : s.mutex = some (.executor e)) (hh : (s.executor e).hand = []) :
    s.published = s.reads := by
  have := hi.books
  rw [hand_of hm, hh, List.append_nil] at this
  exact this

/-- What covered a sample still does, after a step of an executor that did not. -/
theorem Covered.goto (h : Covered s) (he : (s.executor e).drains = false) {p : ExecPc T}
    (hx : t.executor = Function.update s.executor e p) (hw : t.writer = s.writer)
    (hh : s.hasWork = true → t.hasWork = true) : Covered t := by
  rcases h with h | ⟨w, h⟩ | ⟨e', h⟩
  · exact Or.inl (hh h)
  · exact Or.inr (Or.inl ⟨w, by rw [hw]; exact h⟩)
  · refine Or.inr (Or.inr ⟨e', ?_⟩)
    by_cases hne : e' = e
    · subst hne
      rw [he] at h
      cases h
    · rw [hx, Function.update_of_ne hne]
      exact h

/-- A step that reads and publishes nothing. -/
theorem goto_inv (hi : Inv s) (hm : s.mutex = some (.executor e)) (hh : (s.executor e).hand = []) {p : ExecPc T}
    (hp : p.hand = []) (hw : s.unread ≠ [] → Covered (s.goto e p)) : Inv (s.goto e p) := by
  refine hi.exec hm rfl rfl rfl ?_ hi.order hw
  rw [hp, List.append_nil]
  exact hi.books_nil hm hh

/-- An executor inside holds the mutex. -/
theorem Inv.holds (hi : Inv s) {p : ExecPc T} (hp : s.executor e = p) (hin : p.inside = true) :
    s.mutex = some (.executor e) := by
  apply hi.holder e
  rw [hp]
  exact hin

/-- A sample is read. -/
theorem read_inv (hi : Inv s) {loan : Bool} (hp : s.executor e = .func (.read loan)) {x : T} {u : List T}
    (hu : s.unread = x :: u) :
    Inv { s.goto e (.func (.publish loan x)) with unread := u, reads := s.reads ++ [x] } := by
  have hh := hi.holds hp rfl
  have ho := hi.order
  rw [hu] at ho
  refine hi.exec hh rfl rfl rfl ?_ ?_ fun _ => covered_of_drains rfl rfl
  · show s.published ++ [x] = s.reads ++ [x]
    rw [hi.books_nil hh (by rw [hp]; rfl)]
  · show ((s.reads ++ [x]) ++ u).Sublist s.written
    rw [List.append_assoc]
    exact ho

/-- The sample in hand is published. -/
theorem publish_inv (hi : Inv s) {loan : Bool} {x : T} (hp : s.executor e = .func (.publish loan x)) {p : FuncPc T}
    (hn : p = .borrow ∨ p = .read false) :
    Inv { s.goto e (.func p) with published := s.published ++ [x] } := by
  have hh := hi.holds hp rfl
  have hb := hi.books
  rw [hand_of hh, hp] at hb
  refine hi.exec hh rfl rfl rfl ?_ hi.order fun _ => covered_of_drains rfl rfl
  show (s.published ++ [x]) ++ _ = s.reads
  rw [← hb]
  rcases hn with rfl | rfl <;> exact List.append_nil _

/-- The executor releases the mutex. -/
theorem leave_inv (hi : Inv s) (hp : s.executor e = .leave) : Inv { s.goto e .idle with mutex := none } := by
  have hh := hi.holds hp rfl
  have hexcl := hi.exclusive
  rw [hh] at hexcl
  refine .of_exclusive (hexcl.release (inside_of_executor rfl rfl) ?_) ?_ hi.order ?_
  · simp [St.inside, St.goto, ExecPc.inside]
  · exact (List.append_nil _).trans (hi.books_nil hh (by rw [hp]; rfl))
  · intro hu
    exact (hi.work hu).goto (by rw [hp]; rfl) rfl rfl id

theorem execute_inv (hi : Inv s) {answer : Bool} (h : s.execute e answer = some t) : Inv t := by
  simp only [St.execute] at h
  split at h
  · cases h
  · cases h
  · -- locked
    rename_i hp
    cases h
    refine goto_inv hi (hi.holds hp rfl) (by rw [hp]; rfl) (by split <;> rfl) ?_
    intro hu
    exact (hi.work hu).goto (by rw [hp]; rfl) rfl rfl id
  · -- clear
    rename_i hp
    cases h
    have hh := hi.holds hp rfl
    refine hi.exec hh rfl rfl rfl ?_ hi.order fun _ => covered_of_drains rfl rfl
    exact (List.append_nil _).trans (hi.books_nil hh (by rw [hp]; rfl))
  · -- enter
    rename_i hp
    cases h
    refine goto_inv hi (hi.holds hp rfl) (by rw [hp]; rfl) (by split <;> rfl) ?_
    intro _
    exact covered_of_drains rfl rfl
  · -- borrow
    rename_i hp
    cases h
    refine goto_inv hi (hi.holds hp rfl) (by rw [hp]; rfl) (by split <;> rfl) ?_
    intro _
    exact covered_of_drains rfl (by split <;> rfl)
  · -- read
    rename_i loan hp
    split at h
    · rename_i hu
      cases h
      exact goto_inv hi (hi.holds hp rfl) (by rw [hp]; rfl) rfl fun hne => absurd hu hne
    · rename_i x u hu
      cases h
      exact read_inv hi hp hu
  · -- publish
    rename_i loan x hp
    cases h
    refine publish_inv hi hp ?_
    cases loan
    · exact Or.inr rfl
    · exact Or.inl rfl
  · -- returned
    rename_i done hp
    cases h
    have hh := hi.holds hp rfl
    have hb : (s.executor e).hand = [] := by rw [hp]; rfl
    cases done with
    | true =>
      refine goto_inv hi hh hb rfl ?_
      intro hu
      exact (hi.work hu).goto (by rw [hp]; rfl) rfl rfl id
    | false =>
      refine hi.exec hh rfl rfl rfl ?_ hi.order fun _ => Or.inl rfl
      exact (List.append_nil _).trans (hi.books_nil hh hb)
  · -- leave
    rename_i hp
    cases h
    exact leave_inv hi hp

theorem store_inv (hi : Inv s) {w : Nat} {x : T} {u : List T} (hu : B.retain s.unread x = some u) :
    Inv { s with unread := u, written := s.written ++ [x], writer := Function.update s.writer w .stored } := by
  refine ⟨hi.holder, hi.canceler, hi.books, ?_, fun _ => Or.inr (Or.inl ⟨w, Function.update_self ..⟩)⟩
  have h1 : (s.reads ++ u).Sublist (s.reads ++ (s.unread ++ [x])) := (B.sublist hu).append_left _
  rw [← List.append_assoc] at h1
  exact h1.trans (hi.order.append_right _)

theorem hand_goto {p : ExecPc T} (h : p.hand = (s.executor e).hand) : (s.goto e p).hand = s.hand := by
  unfold St.hand St.goto
  cases s.mutex with
  | none => rfl
  | some c =>
    cases c with
    | canceler c => rfl
    | executor e' =>
      show (Function.update s.executor e p e').hand = (s.executor e').hand
      by_cases he : e' = e
      · subst he
        rw [Function.update_self, h]
      · rw [Function.update_of_ne he]

theorem isReady_inv (hi : Inv s) (he : s.executor e = .idle) : Inv (s.goto e .ready) := by
  have hsub : ∀ x, (s.goto e .ready).inside x → s.inside x := by
    intro x hx
    by_cases hne : x = .executor e
    · subst hne
      simp [St.inside, St.goto, ExecPc.inside] at hx
    · exact inside_of_executor (t := s.goto e .ready) rfl rfl x hne hx
  refine .of_exclusive (hi.exclusive.outside hsub) ?_ hi.order ?_
  · rw [hand_goto (by rw [he]; rfl)]
    exact hi.books
  · intro hu
    exact (hi.work hu).goto (by rw [he]; rfl) rfl rfl id

/-- Nothing is in hand when no executor has the mutex. -/
theorem Inv.books_idle (hi : Inv s) (hm : ∀ e, s.mutex ≠ some (.executor e)) : s.published = s.reads := by
  have hh : s.hand = [] := by
    unfold St.hand
    split
    · rename_i e hmutex
      exact absurd hmutex (hm e)
    · rfl
  have hb := hi.books
  rw [hh, List.append_nil] at hb
  exact hb

theorem lock_inv (hi : Inv s) (he : s.executor e = .ready) (hm : s.mutex = none) :
    Inv { s.goto e .locked with mutex := some (.executor e) } := by
  have hexcl := hi.exclusive
  rw [hm] at hexcl
  refine .of_exclusive (hexcl.acquire (inside_of_executor rfl rfl)) ?_ hi.order ?_
  · show s.published ++ (Function.update s.executor e .locked e).hand = s.reads
    rw [Function.update_self, hi.books_idle (by simp [hm])]
    exact List.append_nil _
  · intro hu
    exact (hi.work hu).goto (by rw [he]; rfl) rfl rfl id

theorem cancel_inv (hi : Inv s) (hm : s.mutex = none) :
    Inv { s.cancelGoto c .locked with mutex := some (.canceler c) } := by
  have hexcl := hi.exclusive
  rw [hm] at hexcl
  refine .of_exclusive (hexcl.acquire (inside_of_canceler (s := s) rfl rfl)) ?_ hi.order hi.work
  exact (List.append_nil _).trans (hi.books_idle (by simp [hm]))

/-- A step of the canceler that holds the mutex, and keeps it (`reset`) or gives it up. -/
theorem canceler_inv (hi : Inv s) (hc : (s.canceler c).inside = true) {p : CancelPc} {f : Bool}
    {m : Option Holder} (hp : (p.inside = true ∧ m = s.mutex) ∨ p.inside = false ∧ m = none) :
    Inv { s.cancelGoto c p with func := f, mutex := m } := by
  have hm := hi.canceler c hc
  have hb := hi.books_idle (by simp [hm])
  have hexcl := hi.exclusive
  rw [hm] at hexcl
  rcases hp with ⟨-, rfl⟩ | ⟨hp, rfl⟩
  · refine .of_exclusive ?_ hi.books hi.order hi.work
    show Exclusive _ s.mutex
    rw [hm]
    exact hexcl.within (inside_of_canceler (s := s) rfl rfl)
  · refine .of_exclusive (hexcl.release (inside_of_canceler (s := s) rfl rfl) ?_) ?_ hi.order hi.work
    · simp [St.inside, St.cancelGoto, hp]
    · exact (List.append_nil _).trans hb

theorem step_inv (hi : Inv s) {ev : Ev T} (h : step B s ev = some t) : Inv t := by
  cases ev with
  | store w x =>
    obtain ⟨-, rfl | ⟨u, hu, rfl⟩⟩ := step_store h
    · exact hi
    · exact store_inv hi hu
  | signal w =>
    obtain ⟨-, rfl⟩ := step_signal h
    exact ⟨hi.holder, hi.canceler, hi.books, hi.order, fun _ => Or.inl rfl⟩
  | isReady e =>
    obtain ⟨he, -, rfl⟩ := step_isReady h
    exact isReady_inv hi he
  | lock e =>
    obtain ⟨he, hm, rfl⟩ := step_lock h
    exact lock_inv hi he hm
  | execute e answer => exact execute_inv hi h
  | cancel c =>
    obtain ⟨-, hm, rfl⟩ := step_cancel h
    exact cancel_inv hi hm
  | reset c =>
    obtain ⟨hc, rfl⟩ := step_reset h
    exact canceler_inv (p := .leave) hi (by rw [hc]; rfl) (Or.inl ⟨rfl, rfl⟩)
  | cancelReturn c =>
    obtain ⟨hc, rfl⟩ := step_cancelReturn h
    exact canceler_inv (p := .returned) hi (by rw [hc]; rfl) (Or.inr ⟨rfl, rfl⟩)

/-! ## Runs -/

theorem reach_inv (h : Path (step B) Always init s) : Inv s :=
  h.invariant inv_init fun _ _ _ hi _ he => step_inv hi he

/-- No `execute` is in progress. -/
def NoExecute (s : St T) : Prop := ∀ e, (s.executor e).inside = false

/-- No writer is between storing a sample and `signal()`. -/
def Signalled (s : St T) : Prop := ∀ w, s.writer w ≠ .stored

structure Exact (s : St T) : Prop where
  /-- The last sample read may still be on its way to `publish`. -/
  published : ∃ hand : List T, hand.length ≤ 1 ∧ s.published ++ hand = s.reads ∧
    ∀ x ∈ hand, ∃ e loan, s.executor e = .func (.publish loan x)
  order : (s.reads ++ s.unread).Sublist s.written
  ready : s.unread ≠ [] → Signalled s → NoExecute s → s.hasWork = true

theorem hand_length (s : St T) : s.hand.length ≤ 1 := by
  unfold St.hand ExecPc.hand
  split
  · split <;> simp
  · simp

theorem mem_hand {x : T} (hx : x ∈ s.hand) : ∃ e loan, s.executor e = .func (.publish loan x) := by
  unfold St.hand at hx
  split at hx
  · rename_i e _
    refine ⟨e, ?_⟩
    cases hp : s.executor e with
    | func p =>
      rw [hp] at hx
      cases p with
      | publish loan y =>
        rw [List.mem_singleton.mp hx]
        exact ⟨loan, rfl⟩
      | _ => cases hx
    | _ => rw [hp] at hx; cases hx
  · cases hx

theorem ExecPc.inside_of_drains {p : ExecPc T} (h : p.drains = true) : p.inside = true := by
  cases p <;> first | rfl | cases h

theorem stream_exact (B : Storage T) {s : St T} (h : Path (step B) Always init s) : Exact s := by
  have hi := reach_inv h
  refine ⟨⟨s.hand, hand_length s, hi.books, fun x hx => mem_hand hx⟩, hi.order, ?_⟩
  intro hu hw hx
  rcases hi.work hu with h | ⟨w, h⟩ | ⟨e, h⟩
  · exact h
  · exact absurd h (hw w)
  · have := hx e
    rw [ExecPc.inside_of_drains h] at this
    cases this

/-- A sample is published as a loaned message; borrowing fails for the next one. -/
def failedBorrow : List (Ev Nat) :=
  [.store 0 5, .signal 0, .isReady 0, .isReady 1, .lock 0] ++ List.replicate 6 (.execute 0 true) ++
    [.store 1 7, .execute 0 false, .execute 0 false, .execute 0 false, .signal 1, .lock 1, .execute 1 true]

theorem stream_exact_failed_borrow :
    ∃ s, run (step (.buffer 1)) Always init failedBorrow = some s ∧ s.published = [5] ∧ s.unread = [7] ∧ Exact s :=
  ⟨_, rfl, rfl, rfl, stream_exact (.buffer 1) (run_path failedBorrow rfl)⟩

end RttRos2.Topics
