/-
  RttRos2.Actions.Runs — what the moves keep holds in every reachable state.

  The induction over runs is made once (`held`). While a section holds `mutex_`, what is
  known of the shared state is that the rest of the section will establish the
  invariant, whatever the other threads do (`wp`); when `mutex_` is free the invariant
  holds. A property `P` of the shared state is covered when every move keeps it, and
  storing a goal does (`Kept`).

  The operations in the owner's queue carry the goals in the order they arrived
  (`Link`), so `acceptedCallback` always stores a goal newer than all stored before.
-/

import RttRos2.Actions.Sections

namespace RttRos2.Actions

open RttRos2.Lib

variable {A : ActionT} {ok : Op A → Call A → St A → Prop} {meth : Method A → Prop} {P : St A → Prop} {s t : Sys A}

/-- Where the owner's thread is while `op` holds `mutex_`. -/
def Op.RunsAt : Op A → Owner → Prop
  | .call .owner _, o => o.user = true
  | .acceptedCallback g, o => o = .accepted g
  | .cancelHandler g, o => o = .handler g
  | .cancelHandlerFinish g, o => o = .handlerFinish g
  | _, _ => True

/-- Goals stored so far, when no section runs: all that were taken from the queue, but for
    one whose section is still to come. -/
def Sys.expected (s : Sys A) : List Nat :=
  match s.owner with
  | .accepted _ => s.taken.dropLast
  | _ => s.taken

/-- Goals stored when the section `op` returns. -/
def Sys.after (s : Sys A) : Op A → List Nat
  | .acceptedCallback _ => s.taken
  | _ => s.expected

/-- `acceptedCallback` tells whether there is a hook, `shutdown` empties the slots. -/
def Op.Returns : Op A → Ret → St A → Prop
  | .acceptedCallback _, v, _ => ∃ b, v = .bool b
  | .call _ .shutdown, _, t => Empty t
  | _, _, _ => True

/-- Goals taken from the queue, then goals in it: all that arrived, in order. -/
structure Link (s : Sys A) : Prop where
  order : s.taken ++ s.st.queue.filterMap Work.goal? = List.range s.st.arrived
  accepted : ∀ g, s.owner = .accepted g → s.taken.getLast? = some g

def Post (P : St A → Prop) (s : Sys A) (op : Op A) (v : Ret) (t : St A) : Prop :=
  Inv t ∧ P t ∧ t.stored = s.after op ∧ op.Returns v t

def Held (ok : Op A → Call A → St A → Prop) (P : St A → Prop) (s : Sys A) : Prop :=
  match s.crit with
  | none => Inv s.st ∧ P s.st ∧ s.st.stored = s.expected
  | some c => c.op.RunsAt s.owner ∧ wp (setting ok c.op) c.prog (Post P s c.op) s.st

theorem Held.free (hh : Held ok P s) (hc : s.crit = none) : Inv s.st ∧ P s.st ∧ s.st.stored = s.expected := by
  unfold Held at hh
  rw [hc] at hh
  exact hh

theorem Held.inside (hh : Held ok P s) {c : Crit A} (hc : s.crit = some c) :
    c.op.RunsAt s.owner ∧ wp (setting ok c.op) c.prog (Post P s c.op) s.st := by
  unfold Held at hh
  rw [hc] at hh
  exact hh

/-- Every move of a section allowed by `meth` keeps `P`, and so does storing a goal. -/
structure Kept (ok : Op A → Call A → St A → Prop) (meth : Method A → Prop) (P : St A → Prop) : Prop where
  move : ∀ op s t, (∀ th m, op = .call th m → meth m) → Inv s → P s → Move ok op s t → P t
  store : ∀ s g, Inv s → P s → s.pending = none → g ∉ s.stored → P (s.store g)

theorem Kept.rely (hk : Kept ok meth P) {s t : St A} (hi : Inv s) (hp : P s) (h : Rely s t) : P t :=
  hk.move (.cancelCallback 0) s t nofun hi hp (.rely h)

theorem Kept.moves (hk : Kept ok meth P) {op : Op A} {s t : St A} (hm : ∀ th m, op = .call th m → meth m)
    (hi : Inv s) (hp : P s) (h : Moves ok op s t) : P t := by
  induction h with
  | refl => exact hp
  | tail h1 h2 ih => exact hk.move op _ _ hm (Moves.inv h1 hi) ih h2

/-! ## The order of arrival -/

theorem Link.arrive (hl : Link s) (n : Nat) : Link { s with accepting := n, st := s.st.arrive } := by
  refine ⟨?_, hl.accepted⟩
  simp only [St.arrive, List.filterMap_append, List.filterMap_cons, List.filterMap_nil, Work.goal?,
    ← List.append_assoc, hl.order, List.range_succ]

theorem Link.dequeue (hl : Link s) {w : Work} {r : List Work} (hq : s.st.queue = w :: r) :
    Link { s with owner := w.owner, taken := s.taken ++ w.goal?.toList, st := { s.st with queue := r } } := by
  have ho := hl.order
  rw [hq] at ho
  cases w with
  | acceptedCallback g =>
    refine ⟨?_, fun g' hg' => ?_⟩
    · simpa [Work.goal?] using ho
    · cases hg'; exact List.getLast?_concat
  | cancelHandler g =>
    rw [List.filterMap_cons] at ho
    exact ⟨by simpa [Work.goal?] using ho, nofun⟩

/-- The goal to be stored is newer than all stored before. -/
theorem Link.newer (hl : Link s) {g : Nat} (ho : s.owner = .accepted g) (hs : s.st.stored = s.expected) :
    (∀ x ∈ s.st.stored, x < g) ∧ s.taken = s.st.stored ++ [g] := by
  obtain ⟨l, hg⟩ := List.getLast?_eq_some_iff.mp (hl.accepted g ho)
  have he : s.st.stored = l := by rw [hs, Sys.expected, ho, hg]; exact List.dropLast_concat
  refine ⟨fun x hx => ?_, by rw [hg, he]⟩
  have hp : (s.taken ++ s.st.queue.filterMap Work.goal?).Pairwise (· < ·) := by
    rw [hl.order]; exact List.pairwise_lt_range
  rw [hg] at hp
  exact (List.pairwise_append.mp (List.pairwise_append.mp hp).1).2.2 x (he ▸ hx) g (List.mem_singleton.mpr rfl)

/-! ## One step -/

theorem Op.Returns.rely {op : Op A} {v : Ret} {t u : St A} (h : op.Returns v t) (ht : Rely t u) : op.Returns v u := by
  cases op with
  | acceptedCallback g => exact h
  | call th m =>
    cases m with
    | shutdown => exact ⟨ht.active.trans h.1, ht.pending.trans h.2⟩
    | _ => trivial
  | _ => trivial

theorem post_rely {op : Op A} {v : Ret} {s' : Sys A} {t u : St A} (hk : Kept ok meth P) (h : Post P s op v t)
    (ht : Rely t u) (ha : s'.after op = s.after op) : Post P s' op v u :=
  ⟨h.1.rely ht, hk.rely h.1 h.2.1 ht, ht.stored.trans (h.2.2.1.trans ha.symm), h.2.2.2.rely ht⟩

/-- A step of the other threads. -/
theorem Held.rely (hk : Kept ok meth P) (hh : Held ok P s) (hc : t.crit = s.crit) (hr : Rely s.st t.st)
    (ha : ∀ op : Op A, op.RunsAt s.owner → t.after op = s.after op) (he : t.expected = s.expected)
    (ho : ∀ c, s.crit = some c → c.op.RunsAt s.owner → c.op.RunsAt t.owner) : Held ok P t := by
  unfold Held
  rw [hc]
  cases hcrit : s.crit with
  | none =>
    obtain ⟨hi, hp, hs⟩ := hh.free hcrit
    exact ⟨hi.rely hr, hk.rely hi hp hr, hr.stored.trans (hs.trans he.symm)⟩
  | some c =>
    obtain ⟨hat, hw⟩ := hh.inside hcrit
    refine ⟨ho c hcrit hat, wp_mono (wp_stable hw hr) ?_⟩
    intro v u hq
    exact post_rely hk hq (.refl _) (ha c.op hat)

theorem wp_top {α : Type} {op : Op A} (p : M A α) (s : St A) : wp (setting ok op) p (fun _ _ => True) s := by
  induction p generalizing s with
  | ret a => exact fun _ _ => trivial
  | call c k ih => exact fun _ _ _ => ih _ _

theorem returns_spec {op : Op A} (hop : ∀ g, op ≠ .acceptedCallback g) {s : St A} :
    wp (setting ok op) op.body op.Returns s := by
  cases op with
  | acceptedCallback g => exact absurd rfl (hop g)
  | call th m =>
    cases m with
    | shutdown =>
      refine wp_bind (wp_mono (shutdown_spec s) ?_)
      intro _ t ht
      apply wp_pure
      intro u hu
      exact ⟨(ht.trans hu).active, (ht.trans hu).pending⟩
    | _ => exact wp_top _ s
  | _ => exact wp_top _ s

/-- A section begins. -/
theorem Held.enter (hk : Kept ok meth P) (hl : Link s) (hh : Held ok P s) (hc : s.crit = none) {op : Op A}
    (ho : op.RunsAt s.owner) (hm : ∀ th m, op = .call th m → meth m) : Held ok P (enter s op) := by
  obtain ⟨hi, hp, hs⟩ := hh.free hc
  refine ⟨ho, ?_⟩
  by_cases hop : ∃ g, op = .acceptedCallback g
  · obtain ⟨g, rfl⟩ := hop
    obtain ⟨hlt, htk⟩ := hl.newer ho hs
    refine wp_mono (acceptedCallback_spec hi g) ?_
    intro v t hvt
    obtain ⟨hv, u, hu, hn, ht⟩ := hvt
    have hus : u.stored = s.st.stored := Moves.stored hu
    have hiu := Moves.inv hu hi
    have hlu : ∀ x ∈ u.stored, x < g := by rw [hus]; exact hlt
    have hpu := hk.store u g hiu (hk.moves hm hi hp hu) hn fun h => Nat.lt_irrefl _ (hlu g h)
    have his := hiu.store hlu
    refine ⟨his.rely ht, hk.rely his hpu ht, ?_, hv⟩
    rw [ht.stored, St.store, hus]
    exact htk.symm
  · have hop' : ∀ g, op ≠ .acceptedCallback g := fun g e => hop ⟨g, e⟩
    refine wp_mono (wp_and (section_moves hi hop') (returns_spec hop')) ?_
    intro v t hvt
    obtain ⟨⟨ht, -⟩, hr⟩ := hvt
    have hst : t.stored = s.expected := (Moves.stored ht).trans hs
    refine ⟨Moves.inv ht hi, hk.moves hm hi hp ht, ?_, hr⟩
    cases op with
    | acceptedCallback g => exact absurd rfl (hop' g)
    | _ => exact hst

/-- The section that held `mutex_` returns. -/
theorem Held.leave (hl : Link s) (hh : Held ok P s) {op : Op A} {v : Ret} (hc : s.crit = some ⟨op, .ret v⟩) :
    Link (leave s op v) ∧ Held ok P (leave s op v) := by
  obtain ⟨ho, hw⟩ := hh.inside hc
  obtain ⟨hi, hp, hs, hv⟩ := wp_ret hw
  have fin : ∀ {s' : Sys A}, s'.crit = none → s'.st = s.st → s'.taken = s.taken →
      (∀ g, s'.owner = .accepted g → s.owner = .accepted g) → s'.expected = s.after op → Link s' ∧ Held ok P s' := by
    intro s' h1 h2 h3 h4 h5
    refine ⟨⟨by rw [h2, h3]; exact hl.order, fun g hg => by rw [h3]; exact hl.accepted g (h4 g hg)⟩, ?_⟩
    unfold Held
    rw [h1, h2]
    exact ⟨hi, hp, hs.trans h5.symm⟩
  cases op with
  | acceptedCallback g =>
    obtain ⟨b, rfl⟩ := hv
    cases b
    · exact fin rfl rfl rfl nofun rfl
    · exact fin rfl rfl rfl nofun rfl
  | call th m => exact fin rfl rfl rfl (fun _ h => h) rfl
  | cancelCallback g => cases v with
    | bool b => cases b <;> exact fin rfl rfl rfl (fun _ h => h) rfl
    | _ => exact fin rfl rfl rfl (fun _ h => h) rfl
  | cancelHandler g =>
    have he : s.after (.cancelHandler g) = s.taken := by
      simp only [Sys.after, Sys.expected, show s.owner = .handler g from ho]
    cases v with
    | hook h =>
      rcases h with _ | _ | _
      · exact fin rfl rfl rfl nofun he.symm
      · exact fin rfl rfl rfl nofun he.symm
      · exact fin rfl rfl rfl nofun he.symm
    | _ => exact fin rfl rfl rfl (fun _ h => h) rfl
  | cancelHandlerFinish g =>
    have he : s.after (.cancelHandlerFinish g) = s.taken := by
      simp only [Sys.after, Sys.expected, show s.owner = .handlerFinish g from ho]
    exact fin rfl rfl rfl nofun he.symm

theorem Link.frame (hl : Link s) (hq : t.st.queue.filterMap Work.goal? = s.st.queue.filterMap Work.goal?)
    (ha : t.st.arrived = s.st.arrived) (ht : t.taken = s.taken)
    (ho : ∀ g, t.owner = .accepted g → s.owner = .accepted g) : Link t :=
  ⟨by rw [hq, ha, ht]; exact hl.order, fun g hg => by rw [ht]; exact hl.accepted g (ho g hg)⟩

/-- Neither the slots, nor the histories, nor the goals in the queue change. -/
structure Quiet (s t : St A) : Prop where
  active : t.active = s.active
  pending : t.pending = s.pending
  stored : t.stored = s.stored
  activated : t.activated = s.activated
  finished : t.finished = s.finished
  queue : t.queue.filterMap Work.goal? = s.queue.filterMap Work.goal?
  arrived : t.arrived = s.arrived

/-- What one call of the section `op` does to them. -/
inductive Effect (op : Op A) (s : St A) : St A → Prop
  | quiet {t : St A} : Quiet s t → Effect op s t
  | finish (g : Nat) (st : GoalState) (result : A.Result) : Effect op s (s.finish op g st result)
  | dropActive : Effect op s s.dropActive
  | dropPending : Effect op s s.dropPending
  | activate (g : Nat) : Effect op s (s.activate g)
  | store (g : Nat) : Effect op s (s.store g)

theorem sem_effect (op : Op A) (c : Call A) (s : St A) : Effect op s (sem op c s).2 := by
  have same : Quiet s s := ⟨rfl, rfl, rfl, rfl, rfl, rfl, rfl⟩
  cases c with
  | setActive g =>
    cases g with
    | none => exact .dropActive
    | some g => exact .activate g
  | setPending g =>
    cases g with
    | none => exact .dropPending
    | some g => exact .store g
  | sendCancelHandler g =>
    refine .quiet { same with queue := ?_ }
    simp [sem, List.filterMap_append, Work.goal?]
  | execute r =>
    simp only [sem, St.execute]
    split
    · exact .quiet same
    · split
      · exact .quiet same
      · exact .quiet ⟨rfl, rfl, rfl, rfl, rfl, rfl, rfl⟩
  | succeed r result | abort r result | canceled r result =>
    simp only [sem, St.terminate]
    split
    · exact .quiet same
    · split
      · exact .quiet same
      · exact .finish _ _ result
  | _ => exact .quiet ⟨rfl, rfl, rfl, rfl, rfl, rfl, rfl⟩

/-- A section sends no goal to the owner's queue. -/
theorem sem_queue (op : Op A) (c : Call A) (s : St A) :
    (sem op c s).2.queue.filterMap Work.goal? = s.queue.filterMap Work.goal? ∧ (sem op c s).2.arrived = s.arrived := by
  have h := sem_effect op c s
  generalize (sem op c s).2 = t at h ⊢
  cases h with
  | quiet h => exact ⟨h.queue, h.arrived⟩
  | _ => exact ⟨rfl, rfl⟩

theorem cancelGoal_queue (s : St A) (g : Nat) :
    (s.cancelGoal g).queue = s.queue ∧ (s.cancelGoal g).arrived = s.arrived := by
  unfold St.cancelGoal
  split <;> exact ⟨rfl, rfl⟩

/-- The owner's thread moves on from a place where it is about to enter no section. -/
theorem Op.RunsAt.move {op : Op A} {o o' : Owner} (h : op.RunsAt o) (ho : (o.op : Option (Op A)) = none)
    (hu : ∀ m, op = .call .owner m → o'.user = true) : op.RunsAt o' := by
  cases op with
  | call th m =>
    cases th with
    | owner => exact hu m rfl
    | other n => trivial
  | cancelCallback g => trivial
  | acceptedCallback g | cancelHandler g | cancelHandlerFinish g => cases h; cases ho

theorem ownerCalls_false {c : Crit A} (h : s.ownerCalls = false) (hc : s.crit = some c) (m : Method A) :
    c.op ≠ .call .owner m := by
  intro e
  obtain ⟨op, prog⟩ := c
  cases e
  simp [Sys.ownerCalls, hc] at h

theorem Owner.op_runsAt {o : Owner} {op : Op A} (h : o.op = some op) : op.RunsAt o ∧ ∀ th m, op ≠ .call th m := by
  cases o <;> cases h <;> exact ⟨rfl, nofun⟩

/-- The owner's thread moves between places where no goal is about to be stored. -/
theorem Held.owner (hk : Kept ok meth P) (hl : Link s) (hh : Held ok P s) {o : Owner} (hooks : List Nat)
    (hs : (s.owner.op : Option (Op A)) = none) (ho : ∀ g, o ≠ .accepted g)
    (hu : ∀ c m, s.crit = some c → c.op = .call .owner m → o.user = true) :
    Link { s with owner := o, hooks := hooks } ∧ Held ok P { s with owner := o, hooks := hooks } := by
  have hexp : ∀ {o : Owner}, (∀ g, o ≠ .accepted g) →
      (match o with | .accepted _ => s.taken.dropLast | _ => s.taken) = s.taken := by
    intro o ho
    cases o <;> first | rfl | exact absurd rfl (ho _)
  have hso : ∀ g, s.owner ≠ .accepted g := by
    intro g e
    rw [e] at hs
    cases hs
  have he : ({ s with owner := o, hooks := hooks } : Sys A).expected = s.expected :=
    (hexp ho).trans (hexp hso).symm
  refine ⟨hl.frame rfl rfl rfl fun g hg => absurd hg (ho g), hh.rely hk rfl (.refl _) (fun op hop => ?_) he
    fun c hc hop => hop.move hs fun m hm => hu c m hc hm⟩
  cases op <;> first | exact he | rfl

/-- Every step of a run keeps the two. -/
theorem held_step (hk : Kept ok meth P) {e : Ev A} (hl : Link s) (hh : Held ok P s) (ha : Allowed meth ok s e)
    (he : step s e = some t) : Link t ∧ Held ok P t := by
  cases step_cases he with
  | accept => exact ⟨hl.frame rfl rfl rfl fun _ h => h, hh.rely hk rfl (.refl _) (fun _ _ => rfl) rfl fun _ _ h => h⟩
  | handleAccepted => exact ⟨hl.arrive _, hh.rely hk rfl (rely_arrive _) (fun _ _ => rfl) rfl fun _ _ h => h⟩
  | cancelCallback g hc =>
    exact ⟨hl.frame rfl rfl rfl fun _ h => h, hh.enter hk hl hc trivial nofun⟩
  | cancelGoal g =>
    obtain ⟨hq, har⟩ := cancelGoal_queue s.st g
    exact ⟨hl.frame (by rw [hq]) har rfl fun _ h => h, hh.rely hk rfl (rely_cancelGoal _ g) (fun _ _ => rfl) rfl
      fun _ _ h => h⟩
  | start created =>
    exact ⟨hl.frame rfl rfl rfl fun _ h => h, hh.rely hk rfl (rely_connected _ _) (fun _ _ => rfl) rfl fun _ _ h => h⟩
  | call th m hc hu =>
    refine ⟨hl.frame rfl rfl rfl fun _ h => h, hh.enter hk hl hc ?_ ?_⟩
    · cases th with
      | owner => exact hu rfl
      | other n => trivial
    · intro th' m' e
      cases e
      exact ha
  | dequeue w r hi hn hq =>
    have he : (match w.owner with
        | .accepted _ => (s.taken ++ w.goal?.toList).dropLast
        | _ => s.taken ++ w.goal?.toList) = s.expected := by
      rw [Sys.expected, hi]
      cases w with
      | acceptedCallback g => exact List.dropLast_concat
      | cancelHandler g => exact List.append_nil _
    refine ⟨hl.dequeue hq, hh.rely hk rfl (rely_queue _ _) ?_ he ?_⟩
    · intro op ho
      rw [hi] at ho
      cases op <;> first | exact he | cases ho
    · intro c hcr ho
      exact ho.move (by rw [hi]; rfl) fun m hm => absurd hm (ownerCalls_false hn hcr m)
  | lock op hc hop =>
    obtain ⟨hr, hne⟩ := Owner.op_runsAt hop
    exact ⟨hl.frame rfl rfl rfl fun _ h => h, hh.enter hk hl hc hr fun th m h => absurd h (hne th m)⟩
  | run op c k hc =>
    obtain ⟨hq, har⟩ := sem_queue op c s.st
    obtain ⟨hat, hw⟩ := hh.inside hc
    exact ⟨hl.frame hq har rfl fun _ h => h, hat, wp_call hw (ha op c k hc)⟩
  | unlock op v hc => exact hh.leave hl hc
  | goalHook g ho => exact hh.owner hk hl _ (by rw [ho]; rfl) nofun fun c m hc hm => rfl
  | cancelHook g ho => exact hh.owner hk hl _ (by rw [ho]; rfl) nofun fun c m hc hm => rfl
  | goalHookReturn g hn ho =>
    exact hh.owner hk hl _ (by rw [ho]; rfl) nofun fun c m hcr hm => absurd hm (ownerCalls_false hn hcr m)
  | cancelHookReturn g hn ho =>
    exact hh.owner hk hl _ (by rw [ho]; rfl) nofun fun c m hcr hm => absurd hm (ownerCalls_false hn hcr m)

/-! ## Runs -/

theorem held (hk : Kept ok meth P) (hp : P St.init) (h : Path step (Allowed meth ok) Sys.init s) :
    Link s ∧ Held ok P s := by
  refine h.invariant ?_ fun t u e ht ha he => held_step hk ht.1 ht.2 ha he
  exact ⟨⟨rfl, nofun⟩, inv_init, hp, rfl⟩

theorem any_kept (meth : Method A → Prop) : Kept ok meth (fun _ : St A => True) :=
  ⟨fun _ _ _ _ _ _ _ => trivial, fun _ _ _ _ _ _ => trivial⟩

theorem reach_allowed (h : Reach Always s) : Reach (Allowed (fun _ => True) Anything) s := by
  apply h.mono
  intro t e _
  cases e with
  | run => exact fun _ _ _ _ => trivial
  | _ => trivial

/-- What holds in every state reached in which `mutex_` is free. -/
theorem held_free (hk : Kept ok meth P) (hp : P St.init) (h : Path step (Allowed meth ok) Sys.init s)
    (hc : s.crit = none) : Link s ∧ Inv s.st ∧ P s.st ∧ s.st.stored = s.expected := by
  obtain ⟨hl, hh⟩ := held hk hp h
  exact ⟨hl, hh.free hc⟩

/-! ## Histories -/

/-- Goals stored, made active and finished so far. -/
structure Grows (s t : St A) : Prop where
  stored : s.stored <+: t.stored
  activated : s.activated <+: t.activated
  finished : s.finished <+: t.finished

theorem Grows.refl (s : St A) : Grows s s := ⟨List.prefix_rfl, List.prefix_rfl, List.prefix_rfl⟩

theorem Grows.trans {s t u : St A} (h1 : Grows s t) (h2 : Grows t u) : Grows s u :=
  ⟨h1.stored.trans h2.stored, h1.activated.trans h2.activated, h1.finished.trans h2.finished⟩

theorem sem_grows (op : Op A) (c : Call A) (s : St A) : Grows s (sem op c s).2 := by
  have h := sem_effect op c s
  generalize (sem op c s).2 = t at h ⊢
  cases h with
  | quiet h => exact ⟨h.stored ▸ List.prefix_rfl, h.activated ▸ List.prefix_rfl, h.finished ▸ List.prefix_rfl⟩
  | finish g st result => exact ⟨List.prefix_rfl, List.prefix_rfl, List.prefix_append _ _⟩
  | activate g => exact ⟨List.prefix_rfl, List.prefix_append _ _, List.prefix_rfl⟩
  | store g => exact ⟨List.prefix_append _ _, List.prefix_rfl, List.prefix_rfl⟩
  | dropActive | dropPending => exact ⟨List.prefix_rfl, List.prefix_rfl, List.prefix_rfl⟩

theorem step_grows {e : Ev A} (h : step s e = some t) : Grows s.st t.st := by
  rcases step_st h with h | ⟨op, c, k, -, h⟩
  · exact ⟨h.stored ▸ List.prefix_rfl, h.activated ▸ List.prefix_rfl, h.finished ▸ List.prefix_rfl⟩
  · rw [h]
    exact sem_grows op c s.st

/-- A section left alone returns, when everything is admitted from where it is on. -/
theorem Held.finish (hh : Held ok P s) {c : Crit A} (hc : s.crit = some c)
    (hok : ∀ x t, Grows s.st t → ok c.op x t) : ∃ t, Inv t ∧ P t ∧ Grows s.st t := by
  obtain ⟨v, t, ⟨hi, hp, -⟩, hg⟩ :=
    wp_finish Grows.refl (fun h1 h2 => h1.trans h2) (sem_grows c.op) hok (hh.inside hc).2
  exact ⟨t, hi, hp, hg⟩

end RttRos2.Actions
