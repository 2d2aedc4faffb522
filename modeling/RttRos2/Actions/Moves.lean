/-
  RttRos2.Actions.Moves — the abstract machine of the two slots, and its invariant.

  A goal waits to be stored, is stored in the pending slot, is activated from there, and
  is finished from either slot. `Move` has one case for each of these, one for a pending
  goal that leaves its slot unfinished (`lose`), and one for the other threads. A
  critical section of the code is a sequence of them (`Actions.Sections`).
  - `Inv`: the slots differ, the active goal is EXECUTING or CANCELING, the pending goal
    and every goal still to be stored are ACCEPTED or CANCELING; goals are stored and
    activated in increasing order, and the pending goal is the last one stored.
  - `Move.inv`, `Inv.store`: every move keeps it, a shutdown included.
  - `Move.executing`: without a shutdown, an EXECUTING goal is in the active slot.
-/

import Mathlib.Logic.Relation
import RttRos2.Actions.Rely

namespace RttRos2.Actions

variable {A : ActionT} {ok : Op A → Call A → St A → Prop} {op : Op A} {s t : St A}

structure Inv (s : St A) : Prop where
  distinct : ∀ g, s.active = some g → s.pending ≠ some g
  running : ∀ g, s.active = some g → (s.state g).running = true
  deferred : ∀ g, s.pending = some g → (s.state g).deferred = true
  waiting : ∀ g, g ∉ s.stored → (s.state g).deferred = true
  storedSorted : s.stored.Pairwise (· < ·)
  pendingLast : ∀ g, s.pending = some g → s.stored.getLast? = some g
  activatedSorted : s.activated.Pairwise (· < ·)
  activatedStored : ∀ g ∈ s.activated, g ∈ s.stored ∧ s.pending ≠ some g
  activeLast : ∀ g, s.active = some g → g ∈ s.activated

/-- Evidence that a section dropped the pending goal `p` unfinished: it executed `p` after a
    cancel request had moved it on, or `acceptedCallback` found it CANCELING. -/
def Lost (ok : Op A → Call A → St A → Prop) (op : Op A) (p : Nat) : Prop :=
  (∃ u, ok op (.execute (.handle p)) u ∧ u.state p = .canceling) ∨
    ∃ u g, op = .acceptedCallback g ∧ ok op (.isCanceling .pending) u ∧ u.pending = some p ∧ u.state p = .canceling

/-- How a section that found `finished` as in `s` chose the terminal state of the goal `g`:
    `aborted` by `finishActive`'s test of `is_canceling()`, `rejected` by `execute()` in
    `terminateGoal`. -/
inductive Ends (ok : Op A → Call A → St A → Prop) (op : Op A) (s : St A) (g : Nat) : GoalState → Prop
  | canceled : Ends ok op s g .canceled
  | aborted {u : St A} : ok op (.isCanceling .active) u → u.finished = s.finished → u.active = some g →
      u.state g ≠ .canceling → Ends ok op s g .aborted
  | rejected {u : St A} : ok op (.execute (.handle g)) u → u.finished = s.finished → u.state g = .accepted →
      Ends ok op s g .aborted
  | succeeded (th : Tid) (result : A.Result) : op = .call th (.succeedActive result) → Ends ok op s g .succeeded

theorem Ends.terminal {g : Nat} {st : GoalState} (h : Ends ok op s g st) : st.terminal = true := by cases h <;> rfl

theorem Ends.of_finished {g : Nat} {st : GoalState} (h : Ends ok op t g st) (ht : t.finished = s.finished) :
    Ends ok op s g st := by
  cases h with
  | canceled => exact .canceled
  | aborted hok hu ha hc => exact .aborted hok (hu.trans ht) ha hc
  | rejected hok hu ha => exact .rejected hok (hu.trans ht) ha
  | succeeded th result h => exact .succeeded th result h

/-- Everything the slots depend on is unchanged. -/
structure Frame (s t : St A) : Prop where
  goals : t.goals = s.goals
  active : t.active = s.active
  pending : t.pending = s.pending
  stored : t.stored = s.stored
  activated : t.activated = s.activated
  finished : t.finished = s.finished

inductive Move (ok : Op A → Call A → St A → Prop) (op : Op A) : St A → St A → Prop
  | rely {s t : St A} : Rely s t → Move ok op s t
  | frame {s t : St A} : Frame s t → Move ok op s t
  | finishActive {s : St A} (g : Nat) (st : GoalState) (result : A.Result) : s.active = some g →
      Ends ok op s g st → Move ok op s (s.finish op g st result).dropActive
  | finishPending {s : St A} (g : Nat) (st : GoalState) (result : A.Result) : s.pending = some g →
      Ends ok op s g st → Move ok op s (s.finish op g st result).dropPending
  | activate {s : St A} (g : Nat) : s.active = none → s.pending = some g →
      Move ok op s ((s.move g .executing).activate g).dropPending
  | lose {s : St A} (g : Nat) : s.pending = some g → s.state g = .canceling → Lost ok op g →
      Move ok op s s.dropPending
  | shutdown {s : St A} (th : Tid) : op = .call th .shutdown → Move ok op s s.dropActive.dropPending

/-- The moves of one section. -/
abbrev Moves (ok : Op A → Call A → St A → Prop) (op : Op A) : St A → St A → Prop :=
  Relation.ReflTransGen (Move ok op)

/-! ## The invariant -/

theorem inv_init : Inv (St.init : St A) :=
  ⟨nofun, nofun, nofun, fun _ _ => rfl, .nil, nofun, .nil, nofun, nofun⟩

theorem Inv.rely (hi : Inv s) (h : Rely s t) : Inv t := by
  refine ⟨?_, ?_, ?_, ?_, ?_, ?_, ?_, ?_, ?_⟩
  · rw [h.active, h.pending]; exact hi.distinct
  · rw [h.active]; exact fun g hg => (h.state g).running (hi.running g hg)
  · rw [h.pending]; exact fun g hg => (h.state g).deferred (hi.deferred g hg)
  · rw [h.stored]; exact fun g hg => (h.state g).deferred (hi.waiting g hg)
  · rw [h.stored]; exact hi.storedSorted
  · rw [h.pending, h.stored]; exact hi.pendingLast
  · rw [h.activated]; exact hi.activatedSorted
  · rw [h.activated, h.stored, h.pending]; exact hi.activatedStored
  · rw [h.active, h.activated]; exact hi.activeLast

theorem Inv.frame (hi : Inv s) (h : Frame s t) : Inv t := by
  obtain ⟨h1, h2, h3, h4, h5, h6⟩ := h
  have hst : ∀ g, t.state g = s.state g := fun g => by rw [St.state, St.state, h1]
  refine ⟨?_, ?_, ?_, ?_, ?_, ?_, ?_, ?_, ?_⟩
  · rw [h2, h3]; exact hi.distinct
  · rw [h2]; exact fun g hg => by rw [hst]; exact hi.running g hg
  · rw [h3]; exact fun g hg => by rw [hst]; exact hi.deferred g hg
  · rw [h4]; exact fun g hg => by rw [hst]; exact hi.waiting g hg
  · rw [h4]; exact hi.storedSorted
  · rw [h3, h4]; exact hi.pendingLast
  · rw [h5]; exact hi.activatedSorted
  · rw [h5, h4, h3]; exact hi.activatedStored
  · rw [h2, h5]; exact hi.activeLast

theorem Inv.pending_stored (hi : Inv s) {g : Nat} (hg : s.pending = some g) : g ∈ s.stored :=
  List.mem_of_getLast? (hi.pendingLast g hg)

theorem Inv.active_stored (hi : Inv s) {g : Nat} (hg : s.active = some g) : g ∈ s.stored :=
  (hi.activatedStored g (hi.activeLast g hg)).1

/-- The last of a sorted list is its largest. -/
theorem le_getLast {l : List Nat} (hl : l.Pairwise (· < ·)) {p x : Nat} (hp : l.getLast? = some p) (hx : x ∈ l) :
    x ≤ p := by
  obtain ⟨l', rfl⟩ := List.getLast?_eq_some_iff.mp hp
  rcases List.mem_append.mp hx with hx | hx
  · exact Nat.le_of_lt ((List.pairwise_append.mp hl).2.2 x hx p (List.mem_singleton.mpr rfl))
  · exact Nat.le_of_eq (List.mem_singleton.mp hx)

/-- Goals activated so far are older than the pending one. -/
theorem Inv.activated_lt (hi : Inv s) {p : Nat} (hp : s.pending = some p) : ∀ g ∈ s.activated, g < p := by
  intro g hg
  obtain ⟨hst, hne⟩ := hi.activatedStored g hg
  have hle := le_getLast hi.storedSorted (hi.pendingLast p hp) hst
  have : g ≠ p := by intro e; subst e; exact hne hp
  omega

theorem pairwise_snoc {l : List Nat} {x : Nat} (hl : l.Pairwise (· < ·)) (h : ∀ y ∈ l, y < x) :
    (l ++ [x]).Pairwise (· < ·) :=
  List.pairwise_append.mpr ⟨hl, List.pairwise_singleton _ _, fun y hy z hz => by
    rw [List.mem_singleton.mp hz]; exact h y hy⟩

theorem Inv.dropPending (hi : Inv s) : Inv s.dropPending :=
  { hi with
    distinct := fun _ _ => nofun
    deferred := nofun
    pendingLast := nofun
    activatedStored := fun g hg => ⟨(hi.activatedStored g hg).1, nofun⟩
    running := hi.running
    waiting := hi.waiting }

theorem Inv.dropActive (hi : Inv s) : Inv s.dropActive :=
  { hi with
    distinct := nofun
    running := nofun
    activeLast := nofun
    deferred := hi.deferred
    waiting := hi.waiting }

theorem Inv.finishActive (hi : Inv s) {g : Nat} (hg : s.active = some g) (st : GoalState) (result : A.Result) :
    Inv (s.finish op g st result).dropActive := by
  have hst : ∀ g', g' ≠ g → (s.finish op g st result).dropActive.state g' = s.state g' := fun g' h => by
    rw [state_dropActive, state_finish, if_neg h]
  refine { hi.dropActive with deferred := fun g' hg' => ?_, waiting := fun g' hg' => ?_, running := nofun }
  · rw [hst g' (by intro e; subst e; exact hi.distinct _ hg hg')]
    exact hi.deferred g' hg'
  · rw [hst g' (by intro e; subst e; exact hg' (hi.active_stored hg))]
    exact hi.waiting g' hg'

theorem Inv.finishPending (hi : Inv s) {g : Nat} (hg : s.pending = some g) (st : GoalState) (result : A.Result) :
    Inv (s.finish op g st result).dropPending := by
  have hst : ∀ g', g' ≠ g → (s.finish op g st result).dropPending.state g' = s.state g' := fun g' h => by
    rw [state_dropPending, state_finish, if_neg h]
  refine { hi.dropPending with running := fun g' hg' => ?_, waiting := fun g' hg' => ?_, deferred := nofun }
  · rw [hst g' (by intro e; subst e; exact hi.distinct _ hg' hg)]
    exact hi.running g' hg'
  · rw [hst g' (by intro e; subst e; exact hg' (hi.pending_stored hg))]
    exact hi.waiting g' hg'

theorem Inv.activate (hi : Inv s) {g : Nat} (hg : s.pending = some g) :
    Inv ((s.move g .executing).activate g).dropPending := by
  have hst : ∀ g', ((s.move g .executing).activate g).dropPending.state g' =
      if g' = g then .executing else s.state g' := fun g' => by
    rw [state_dropPending, state_activate, state_move]
  refine ⟨fun _ _ => nofun, fun g' hg' => ?_, nofun, fun g' hg' => ?_, hi.storedSorted, nofun,
    pairwise_snoc hi.activatedSorted (hi.activated_lt hg), fun g' hg' => ⟨?_, nofun⟩, fun g' hg' => ?_⟩
  · cases hg'; rw [hst, if_pos rfl]; rfl
  · rw [hst, if_neg (by intro e; subst e; exact hg' (hi.pending_stored hg))]
    exact hi.waiting g' hg'
  · rcases List.mem_append.mp hg' with h | h
    · exact (hi.activatedStored g' h).1
    · rw [List.mem_singleton.mp h]; exact hi.pending_stored hg
  · cases hg'; exact List.mem_append_right _ (List.mem_singleton.mpr rfl)

theorem Inv.store (hi : Inv s) {g : Nat} (hg : ∀ x ∈ s.stored, x < g) : Inv (s.store g) := by
  have hn : g ∉ s.stored := fun h => Nat.lt_irrefl _ (hg g h)
  refine ⟨fun g' hg' e => ?_, hi.running, fun g' hg' => ?_, fun g' hg' => hi.waiting g' fun h => hg' ?_,
    pairwise_snoc hi.storedSorted hg, fun g' hg' => ?_, hi.activatedSorted, fun g' hg' => ⟨?_, fun e => ?_⟩,
    hi.activeLast⟩
  · cases e; exact hn (hi.active_stored hg')
  · cases hg'; exact hi.waiting _ hn
  · exact List.mem_append_left _ h
  · cases hg'; exact List.getLast?_concat
  · exact List.mem_append_left _ (hi.activatedStored g' hg').1
  · cases e; exact hn (hi.activatedStored _ hg').1

theorem Move.inv (h : Move ok op s t) (hi : Inv s) : Inv t := by
  cases h with
  | rely h => exact hi.rely h
  | frame h => exact hi.frame h
  | finishActive g st result hg _ => exact hi.finishActive hg st result
  | finishPending g st result hg _ => exact hi.finishPending hg st result
  | activate g _ hg => exact hi.activate hg
  | lose g _ _ _ => exact hi.dropPending
  | shutdown th _ => exact hi.dropActive.dropPending

theorem Moves.inv (h : Moves ok op s t) (hi : Inv s) : Inv t := by
  induction h with
  | refl => exact hi
  | tail _ h ih => exact h.inv ih

/-- No move stores a goal: only `acceptedCallback` does. -/
theorem Move.stored (h : Move ok op s t) : t.stored = s.stored := by
  cases h with
  | rely h => exact h.stored
  | frame h => exact h.stored
  | _ => rfl

theorem Moves.stored (h : Moves ok op s t) : t.stored = s.stored := by
  induction h with
  | refl => rfl
  | tail _ h ih => exact h.stored.trans ih

/-! ## EXECUTING goals -/

/-- An EXECUTING goal is the active one. -/
def Executing (s : St A) : Prop := ∀ g, s.state g = .executing → s.active = some g

theorem Executing.rely (he : Executing s) (h : Rely s t) : Executing t := by
  intro g hg
  rw [h.active]
  exact he g (((h.state g).eq_of_ne (by rw [hg]; simp)).trans hg)

theorem Move.executing (h : Move ok op s t) (hop : ∀ th, op ≠ .call th .shutdown) (he : Executing s) :
    Executing t := by
  cases h with
  | rely h => exact he.rely h
  | frame h =>
    intro g hg
    rw [h.active]
    exact he g (by rw [St.state, ← h.goals]; exact hg)
  | finishActive g st result hg hst =>
    intro g' hg'
    rw [state_dropActive, state_finish] at hg'
    split at hg'
    · subst hg'; cases hst.terminal
    · rename_i hne
      have := he g' hg'
      rw [hg] at this; cases this; exact absurd rfl hne
  | finishPending g st result hg hst =>
    intro g' hg'
    rw [state_dropPending, state_finish] at hg'
    split at hg'
    · subst hg'; cases hst.terminal
    · exact he g' hg'
  | activate g hn hg =>
    intro g' hg'
    rw [state_dropPending, state_activate, state_move] at hg'
    split at hg'
    · rename_i e; subst e; rfl
    · have := he g' hg'
      rw [hn] at this; cases this
  | lose g _ _ _ => exact he
  | shutdown th h => exact absurd h (hop th)

end RttRos2.Actions
