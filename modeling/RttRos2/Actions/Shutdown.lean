/-
  RttRos2.Actions.Shutdown — what still happens after `shutdown()` returned.

  `shutdown` empties the slots but not the owner's queue. An `acceptedCallback` that is
  still to come stores its goal and calls the goal hook (`late_goal_is_stored`); so does
  one whose section is over but whose hook is not called yet. When none of these is in
  flight (`Drained`), `shutdown` is final (`shutdown_final`): until another goal is
  accepted the slots stay empty, every method returns what it returns on empty slots,
  and no hook is called.

  A section that finds the slots empty leaves them empty (`Moves.empty`). That they are
  empty at every point of it follows from its end: a goal put in a slot shows in the
  histories for good (`Shown`).
-/

import RttRos2.Actions.Slots

namespace RttRos2.Actions

open RttRos2.Lib

variable {A : ActionT} {s t : Sys A}

/-- No further goal is accepted. -/
def NoAccept (_ : Sys A) : Ev A → Prop
  | .accept => False
  | _ => True

/-- What holds from `t` on, until a goal is accepted. -/
def Final (t : Sys A) : Prop :=
  ∀ u, Path step NoAccept t u → Empty u.st ∧ u.hooks = t.hooks ∧
    ∀ th m v, u.crit = some ⟨.call th m, .ret v⟩ → v = m.idle

/-- `shutdown()` returns in `s`, leaving `t`. -/
def Returned (s t : Sys A) : Prop := (∃ th v, s.crit = some ⟨.call th .shutdown, .ret v⟩) ∧ step s .unlock = some t

/-- A goal is queued, `shutdown` returns. -/
def queuedGoal : List (Ev unitAction) := [.start true] ++ arrival ++ [.call .owner .shutdown] ++ List.replicate 3 .run

instance (s : Sys A) (e : Ev A) : Decidable (NoAccept s e) := by
  cases e <;> first | exact .isTrue trivial | exact .isFalse id

/-- The owner is in `acceptedCallback`, or about to call a hook. -/
def Owner.late : Owner → Bool
  | .accepted _ | .acceptedHook _ | .handlerHook _ => true
  | _ => false

/-- No `acceptedCallback` is to come, and no hook is about to be called. -/
structure Drained (s : Sys A) : Prop where
  accepting : s.accepting = 0
  queue : ∀ g, .acceptedCallback g ∉ s.st.queue
  owner : s.owner.late = false

section
variable {ok : Op A → Call A → St A → Prop} {op : Op A} {s t : St A} {x y : List Nat}

theorem Move.empty (h : Move ok op s t) (he : Empty s) : Empty t ∧ t.activated = s.activated := by
  cases h with
  | rely h => exact ⟨⟨h.active.trans he.1, h.pending.trans he.2⟩, h.activated⟩
  | frame h => exact ⟨⟨h.active.trans he.1, h.pending.trans he.2⟩, h.activated⟩
  | finishActive g _ _ hg _ => rw [he.1] at hg; cases hg
  | finishPending g _ _ hg _ => rw [he.2] at hg; cases hg
  | activate g _ hg => rw [he.2] at hg; cases hg
  | lose g hg _ _ => rw [he.2] at hg; cases hg
  | shutdown th _ => exact ⟨⟨rfl, rfl⟩, rfl⟩

theorem Moves.empty (h : Moves ok op s t) (he : Empty s) : Empty t ∧ t.activated = s.activated := by
  induction h with
  | refl => exact ⟨he, rfl⟩
  | tail _ h ih =>
    obtain ⟨he', ha⟩ := h.empty ih.1
    exact ⟨he', ha.trans ih.2⟩

/-- Empty slots; the goals stored and made active so far. -/
structure Still (x y : List Nat) (s : St A) : Prop where
  inv : Inv s
  empty : Empty s
  stored : s.stored = x
  activated : s.activated = y

theorem Still.rely (h : Still x y s) (ht : Rely s t) : Still x y t :=
  ⟨h.inv.rely ht, ⟨ht.active.trans h.empty.1, ht.pending.trans h.empty.2⟩, ht.stored.trans h.stored,
    ht.activated.trans h.activated⟩

/-- A slot that was filled since shows in the histories. -/
structure Shown (x y : List Nat) (s : St A) : Prop where
  stored : x.length ≤ s.stored.length
  activated : y.length ≤ s.activated.length
  active : s.active ≠ none → y.length < s.activated.length
  pending : s.pending ≠ none → x.length < s.stored.length

theorem Still.shown (h : Still x y s) : Shown x y s where
  stored := Nat.le_of_eq (congrArg List.length h.stored.symm)
  activated := Nat.le_of_eq (congrArg List.length h.activated.symm)
  active ha := absurd h.empty.1 ha
  pending hp := absurd h.empty.2 hp

theorem Shown.of_eq (h : Shown x y s) (h1 : t.active = s.active) (h2 : t.pending = s.pending)
    (h3 : t.stored = s.stored) (h4 : t.activated = s.activated) : Shown x y t := by
  refine ⟨?_, ?_, ?_, ?_⟩
  · rw [h3]; exact h.stored
  · rw [h4]; exact h.activated
  · rw [h1, h4]; exact h.active
  · rw [h2, h3]; exact h.pending

theorem Shown.sem (h : Shown x y s) (op : Op A) (c : Call A) : Shown x y (sem op c s).2 := by
  have he := sem_effect op c s
  generalize (Actions.sem op c s).2 = t at he ⊢
  cases he with
  | quiet hq => exact h.of_eq hq.active hq.pending hq.stored hq.activated
  | finish g st result => exact h.of_eq rfl rfl rfl rfl
  | dropActive => exact ⟨h.stored, h.activated, fun ha => absurd rfl ha, h.pending⟩
  | dropPending => exact ⟨h.stored, h.activated, h.active, fun hp => absurd rfl hp⟩
  | activate g =>
    have hl : y.length < (s.activated ++ [g]).length := by
      have := h.activated
      simp
      omega
    exact ⟨h.stored, Nat.le_of_lt hl, fun _ => hl, h.pending⟩
  | store g =>
    have hl : x.length < (s.stored ++ [g]).length := by
      have := h.stored
      simp
      omega
    exact ⟨Nat.le_of_lt hl, h.activated, h.active, fun _ => hl⟩

/-- The slots were empty all along, as the histories at the end tell. -/
theorem Shown.empty (h : Shown x y s) (hg : Grows s t) (ht : Still x y t) : Empty s := by
  have h1 := hg.activated.length_le
  have h2 := hg.stored.length_le
  rw [ht.activated] at h1
  rw [ht.stored] at h2
  refine ⟨?_, ?_⟩
  · by_contra ha
    have := h.active ha
    omega
  · by_contra hp
    have := h.pending hp
    omega

/-- No section stores a goal; the one that runs ends with empty slots, returning what it
    returns on empty slots. -/
def Resting (x y : List Nat) (crit : Option (Crit A)) (s : St A) : Prop :=
  match crit with
  | none => Still x y s
  | some c => Shown x y s ∧ wp (setting Anything c.op) c.prog (fun v t => v = c.op.idle ∧ Still x y t) s

theorem Resting.rely {crit : Option (Crit A)} (h : Resting x y crit s) (ht : Rely s t) : Resting x y crit t := by
  cases crit with
  | none => exact Still.rely h ht
  | some c => exact ⟨h.1.of_eq ht.active ht.pending ht.stored ht.activated, wp_stable h.2 ht⟩

theorem Resting.free {crit : Option (Crit A)} (h : Resting x y crit s) (hc : crit = none) : Still x y s := by
  rw [hc] at h
  exact h

theorem Resting.enter (h : Still x y s) (hop : ∀ g, op ≠ .acceptedCallback g) :
    Resting x y (some ⟨op, op.body⟩) s := by
  refine ⟨h.shown, wp_mono (section_moves h.inv hop) fun v t ⟨hm, hv⟩ => ⟨hv h.empty, ?_⟩⟩
  obtain ⟨he, ha⟩ := Moves.empty hm h.empty
  exact ⟨Moves.inv hm h.inv, he, (Moves.stored hm).trans h.stored, ha.trans h.activated⟩

end

/-- `Drained`, and empty slots, since a state with the given histories. -/
structure Dead (x y hooks : List Nat) (s : Sys A) : Prop where
  drained : Drained s
  hooks : s.hooks = hooks
  resting : Resting x y s.crit s.st

variable {x y hooks : List Nat} {e : Ev A}

/-- The owner's operations are cancel handlers only. -/
theorem Drained.op (h : Drained s) {op : Op A} (hop : s.owner.op = some op) (g : Nat) : op ≠ .acceptedCallback g := by
  have ho := h.owner
  rintro rfl
  cases hs : s.owner with
  | accepted g' => rw [hs] at ho; cases ho
  | _ => rw [hs] at hop; cases hop

theorem Drained.sem (h : Drained s) (op : Op A) (c : Call A) (p : M A Ret) :
    Drained { s with st := (sem op c s.st).2, crit := some ⟨op, p⟩ } := by
  refine ⟨h.accepting, fun g hg => h.queue g ?_, h.owner⟩
  have hgoal : g ∈ (Actions.sem op c s.st).2.queue.filterMap Work.goal? := List.mem_filterMap.mpr ⟨_, hg, rfl⟩
  rw [(sem_queue op c s.st).1] at hgoal
  obtain ⟨w, hw, he⟩ := List.mem_filterMap.mp hgoal
  cases w with
  | acceptedCallback g' => cases he; exact hw
  | cancelHandler g' => cases he

theorem dead_step (h : Dead x y hooks s) (ha : NoAccept s e) (he : step s e = some t) : Dead x y hooks t := by
  obtain ⟨hd, hh, hr⟩ := h
  cases step_cases he with
  | accept => exact ha.elim
  | handleAccepted hc => exact absurd hd.accepting hc
  | cancelCallback g hc =>
    refine ⟨⟨hd.accepting, hd.queue, hd.owner⟩, hh, .enter (hr.free hc) ?_⟩
    intro g' h
    cases h
  | cancelGoal g =>
    refine ⟨⟨hd.accepting, ?_, hd.owner⟩, hh, hr.rely (rely_cancelGoal _ g)⟩
    rw [(cancelGoal_queue s.st g).1]
    exact hd.queue
  | start created => exact ⟨⟨hd.accepting, hd.queue, hd.owner⟩, hh, hr.rely (rely_connected _ _)⟩
  | call th m hc =>
    refine ⟨⟨hd.accepting, hd.queue, hd.owner⟩, hh, .enter (hr.free hc) ?_⟩
    intro g' h
    cases h
  | dequeue w r _ _ hq =>
    have hqueue := hd.queue
    rw [hq] at hqueue
    refine ⟨⟨hd.accepting, fun g hg => hqueue g (.tail _ hg), ?_⟩, hh, hr.rely (rely_queue _ _)⟩
    cases w with
    | acceptedCallback g => exact absurd (.head _) (hqueue g)
    | cancelHandler g => rfl
  | lock op hc hop => exact ⟨⟨hd.accepting, hd.queue, hd.owner⟩, hh, .enter (hr.free hc) (hd.op hop)⟩
  | run op c k hc =>
    rw [hc] at hr
    exact ⟨hd.sem op c _, hh, hr.1.sem op c, wp_call hr.2 trivial⟩
  | unlock op v hc =>
    rw [hc] at hr
    obtain ⟨hv, hs⟩ := wp_ret hr.2
    change v = op.idle at hv
    subst hv
    cases op with
    | call th m => exact ⟨⟨hd.accepting, hd.queue, hd.owner⟩, hh, hs⟩
    | _ => exact ⟨⟨hd.accepting, hd.queue, by first | rfl | exact hd.owner⟩, hh, hs⟩
  | goalHook g hg =>
    -- excluded: no hook is about to be called
    have ho := hd.owner
    rw [hg] at ho
    cases ho
  | cancelHook g hg =>
    have ho := hd.owner
    rw [hg] at ho
    cases ho
  | goalHookReturn g => exact ⟨⟨hd.accepting, hd.queue, rfl⟩, hh, hr⟩
  | cancelHookReturn g => exact ⟨⟨hd.accepting, hd.queue, rfl⟩, hh, hr⟩

theorem Dead.empty (h : Dead x y hooks s) : Empty s.st := by
  have hr := h.resting
  cases hc : s.crit with
  | none =>
    rw [hc] at hr
    exact Still.empty hr
  | some c =>
    rw [hc] at hr
    obtain ⟨v, t, ⟨-, ht⟩, hg⟩ := wp_finish Grows.refl (fun h1 h2 => h1.trans h2) (sem_grows c.op)
      (fun _ _ _ => trivial) hr.2
    exact hr.1.empty hg ht

/-- A goal is active, its cancel handler queued, when `shutdown` returns. -/
def queuedHandler : List (Ev unitAction) :=
  [.start true] ++ arrival ++ handled 3 ++ called (.other 0) (.acceptPending ()) 8 ++ [.cancelCallback 0] ++ calls 2 ++
    [.call .owner .shutdown] ++ List.replicate 3 .run

end RttRos2.Actions
