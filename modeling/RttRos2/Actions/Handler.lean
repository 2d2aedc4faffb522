/-
  RttRos2.Actions.Handler — `cancelHandler` minds its own goal only.

  `cancelHandler(g)` looks for `g` in the slots, releases `mutex_` to call the cancel
  hook, and takes it again to finish the goal. The hook and the other threads may replace
  the active goal in between; the second section looks again.
  - `OwnCall`: the calls either section makes go to `g`, and reset a slot that holds `g`;
    whatever holds of another goal is left alone (`OwnCall.untouched`).
  - `Handling`: the callback from its first section on, with whether it has called the
    hook. `Phase` is what is known of it at each place of the owner's thread.
  - `handler_minds_its_goal`: the hook is called exactly when the first section found `g`
    active and a hook set, and `g` is in neither slot on return. No one can have put it
    back: a goal is made active once, and is never pending again (`Inv.activatedStored`).
-/

import RttRos2.Actions.Logs
import RttRos2.Actions.Cancel
import RttRos2.Actions.GoalHook

namespace RttRos2.Actions

open RttRos2.Lib

variable {A : ActionT} {op : Op A} {g g' : Nat}

/-! ## The calls of a section -/

/-- A goal-handle call on `g`, a reset of the slot that holds `g`, or a query. -/
structure OwnCall (g : Nat) (c : Call A) (s : St A) : Prop where
  handle : ∀ r, c.ref? = some r → s.deref r = some g
  active : ∀ o, c = .setActive o → o = none ∧ s.active = some g
  pending : ∀ o, c = .setPending o → o = none ∧ s.pending = some g

/-- The goal is neither moved nor put into a slot nor out of it. -/
structure Untouched (g : Nat) (s t : St A) : Prop where
  goal : t.goals g = s.goals g
  active : t.active = some g ↔ s.active = some g
  pending : t.pending = some g ↔ s.pending = some g

/-- The callback that entered its first section in `s` has come to `x`, having called its
    hook or not. -/
inductive Handling (g : Nat) (s : Sys A) : Bool → Sys A → Prop
  | lock : s.owner = .handler g → step s .lock = some (enter s (.cancelHandler g)) →
      Handling g s false (enter s (.cancelHandler g))
  | hook {b : Bool} {x y : Sys A} : Handling g s b x → step x .hook = some y → Handling g s true y
  | other {b : Bool} {x y : Sys A} {e : Ev A} : Handling g s b x → x.owner ≠ .idle → e ≠ .hook → step x e = some y →
      Handling g s b y

structure Handled (g : Nat) (s : Sys A) (called : Bool) (x : Sys A) : Prop where
  found : called = true → s.st.active = some g ∧ s.st.cancelHook = true
  calls : s.st.active = some g → s.st.cancelHook = true →
    called = true ∨ x.owner = .handler g ∨ x.owner = .handlerHook g
  returned : x.owner = .idle → x.st.active ≠ some g ∧ x.st.pending ≠ some g

section
variable {s t : St A} {c : Call A} {l : Log A} {result : A.Result}

theorem execute_slots (s : St A) (r : Ref) :
    (s.execute r).2.active = s.active ∧ (s.execute r).2.pending = s.pending := by
  unfold St.execute
  split
  · exact ⟨rfl, rfl⟩
  · split <;> exact ⟨rfl, rfl⟩

theorem terminate_slots (s : St A) (op : Op A) (r : Ref) (e : GoalEvent) (result : A.Result) :
    (s.terminate op r e result).2.active = s.active ∧ (s.terminate op r e result).2.pending = s.pending := by
  unfold St.terminate
  split
  · exact ⟨rfl, rfl⟩
  · split <;> exact ⟨rfl, rfl⟩

theorem OwnCall.untouched (h : OwnCall g c s) (op : Op A) (hne : g' ≠ g) : Untouched g' s (sem op c s).2 := by
  have hother : (sem op c s).2.goals g' = s.goals g' :=
    sem_other fun r hr e => hne (Option.some.inj (e.symm.trans (h.handle r hr)))
  cases c with
  | setActive o =>
    obtain ⟨rfl, ha⟩ := h.active o rfl
    refine ⟨hother, ⟨nofun, fun e => ?_⟩, Iff.rfl⟩
    exact absurd (Option.some.inj (e.symm.trans ha)) hne
  | setPending o =>
    obtain ⟨rfl, hp⟩ := h.pending o rfl
    refine ⟨hother, Iff.rfl, nofun, fun e => ?_⟩
    exact absurd (Option.some.inj (e.symm.trans hp)) hne
  | execute r =>
    obtain ⟨ha, hp⟩ := execute_slots s r
    exact ⟨hother, by rw [← ha]; rfl, by rw [← hp]; rfl⟩
  | succeed r result | abort r result | canceled r result =>
    obtain ⟨ha, hp⟩ := terminate_slots s op r _ result
    exact ⟨hother, by rw [← ha]; rfl, by rw [← hp]; rfl⟩
  | _ => exact ⟨hother, Iff.rfl, Iff.rfl⟩

theorem own_of_ref {r : Ref} (hr : c.ref? = some r) (hg : s.deref r = some g) : OwnCall g c s := by
  refine ⟨fun r' hr' => ?_, fun o ho => ?_, fun o ho => ?_⟩
  · cases hr.symm.trans hr'
    exact hg
  · subst ho
    cases hr
  · subst ho
    cases hr

theorem own_of_asks (ha : c.asks = true) (hr : ∀ r, c.ref? = some r → s.deref r = some g) : OwnCall g c s := by
  refine ⟨hr, fun o ho => ?_, fun o ho => ?_⟩
  · subst ho
    cases ha
  · subst ho
    cases ha

theorem own_dropActive (ha : s.active = some g) : OwnCall g (.setActive none) s :=
  ⟨nofun, fun _ ho => ⟨by cases ho; rfl, ha⟩, nofun⟩

theorem own_dropPending (hp : s.pending = some g) : OwnCall g (.setPending none) s :=
  ⟨nofun, nofun, fun _ ho => ⟨by cases ho; rfl, hp⟩⟩

/-- All calls of the log are. -/
def Owns (g : Nat) (l : Log A) : Prop := ∀ e ∈ l, OwnCall g e.1 e.2

theorem Owns.cons {e : Call A × St A} (he : OwnCall g e.1 e.2) (hl : Owns g l) : Owns g (e :: l) :=
  List.forall_mem_cons.mpr ⟨he, hl⟩

theorem Owns.append {l' : Log A} (h : Owns g l) (h' : Owns g l') : Owns g (l ++ l') :=
  List.forall_mem_append.mpr ⟨h, h'⟩

theorem owns_nil : Owns g ([] : Log A) := List.forall_mem_nil _

theorem Asks.owns {r : Ref} (h : Asks (some r) l) (hr : ∀ e ∈ l, e.2.deref r = some g) : Owns g l :=
  fun e he => own_of_asks (h e he).1 (h.concerns hr e he)

theorem terminateGoal_owns (hd : (s.state g).deferred = true) {v : Unit}
    (h : Executed op (terminateGoal g result) s l v t) : Owns g l := by
  obtain ⟨l₁, l₂, rfl, hl₁, hl₂⟩ := terminateGoal_log hd h
  exact (hl₁.owns fun _ _ => rfl).append fun e he => own_of_ref (hl₂.ref e he) rfl

theorem finishActive_owns (hi : Inv s) (ha : s.active = some g) {pc b : Bool}
    (h : Executed op (finishActive result pc) s l b t) : Owns g l := by
  obtain ⟨l₁, v, w, x, -, hl₁, rfl, hv, hw, hx, -⟩ := finishActive_log hi ha h
  have hav : v.active = some g := hv.active.trans ha
  have haw : w.active = some g := hw.active.trans hav
  refine (hl₁.owns fun e he => ((hl₁.found h) e he).active.trans ha).append ?_
  refine .cons (own_of_ref (r := .active) rfl hav) (.cons (own_of_ref (ref_endCall ..) haw) (.cons ?_ owns_nil))
  exact own_dropActive (hx.active.trans haw)

theorem cancelHandler_owns (hi : Inv s) {o : Option Bool} (h : Executed op (cancelHandler g) s l o t) : Owns g l := by
  cases cancelHandler_log h with
  | active | neither => exact .cons (own_of_asks rfl nofun) (.cons (own_of_asks rfl nofun) owns_nil)
  | pending hu _ hv hp hterm hx =>
    have hd := (hi.rely (hu.trans hv)).deferred g hp
    obtain ⟨l₁, l₂, -, -, hl₂⟩ := terminateGoal_log hd hterm
    refine .cons (own_of_asks rfl nofun) (.cons (own_of_asks rfl nofun) ((terminateGoal_owns hd hterm).append ?_))
    exact .cons (own_dropPending (hx.pending.trans (hl₂.pending.trans hp))) owns_nil

theorem cancelHandlerFinish_owns (hi : Inv s) {v : Unit} (h : Executed op (cancelHandlerFinish g) s l v t) :
    Owns g l := by
  obtain ⟨u, l₁, hu, rfl, ⟨-, rfl, -⟩ | ⟨ha, b, hfin⟩⟩ := cancelHandlerFinish_log h
  · exact .cons (own_of_asks rfl nofun) owns_nil
  · exact .cons (own_of_asks rfl nofun) (finishActive_owns (hi.rely hu) ha hfin)

end

theorem section_owns {s x : Sys A} {l : Log A} (hs : Reach Always s) (hop : op.handler? = some g)
    (h : Section op s l x) : Owns g l := by
  have hi := section_inv h hs
  obtain ⟨l', v, t, hex, -⟩ := section_completes h
  have howns : Owns g (l ++ l') := by
    cases op with
    | cancelHandler =>
      cases hop
      obtain ⟨o, -, hbody⟩ := Executed.body hex
      exact cancelHandler_owns hi hbody
    | cancelHandlerFinish =>
      cases hop
      exact cancelHandlerFinish_owns hi (Executed.body_unit hex)
    | _ => cases hop
  exact fun e he => howns e (List.mem_append_left _ he)

/-! ## The callback -/

section
variable {s x y : Sys A} {b : Bool} {e : Ev A} {l : Log A} {v : Ret}

/-- What is known at each place of the owner's thread. -/
inductive Phase (g : Nat) (s : Sys A) : Bool → Sys A → Prop
  | first {l : Log A} {x : Sys A} : x.owner = .handler g → Section (.cancelHandler g) s l x → Phase g s false x
  | called {x : Sys A} : x.owner = .handlerHook g → s.st.active = some g → s.st.cancelHook = true →
      g ∈ x.st.activated → Phase g s false x
  | hook {x : Sys A} : x.owner = .cancelHook g → s.st.active = some g → s.st.cancelHook = true →
      g ∈ x.st.activated → Phase g s true x
  | finish {b : Bool} {x : Sys A} : x.owner = .handlerFinish g → s.st.active = some g → s.st.cancelHook = b →
      g ∈ x.st.activated → Phase g s b x
  | done {b : Bool} {x : Sys A} : x.owner = .idle → (b = true ↔ s.st.active = some g ∧ s.st.cancelHook = true) →
      x.st.active ≠ some g → x.st.pending ≠ some g → Phase g s b x

/-- The owner's thread moves when it takes an operation, at a hook, and when its section returns. -/
theorem step_owner (h : step x e = some y) (hi : x.owner ≠ .idle) (hh : e ≠ .hook) (hr : e ≠ .hookReturn)
    (hu : e ≠ .unlock) : y.owner = x.owner := by
  cases step_cases h with
  | dequeue w r ho => exact absurd ho hi
  | unlock => exact absurd rfl hu
  | goalHook | cancelHook => exact absurd rfl hh
  | goalHookReturn | cancelHookReturn => exact absurd rfl hr
  | _ => rfl

theorem runs_at {c : Crit A} (h : Reach Always x) (hc : x.crit = some c) : c.op.RunsAt x.owner :=
  ((held (any_kept _) trivial (reach_allowed h)).2.inside hc).1

/-- The return of a section that is not the one the owner's thread waits in. -/
theorem leave_foreign (h : op.RunsAt x.owner) (hne : x.owner.op ≠ some op) : (leave x op v).owner = x.owner := by
  cases op with
  | call th m => rfl
  | cancelCallback g' =>
    unfold leave
    split <;> first | rfl | contradiction
  | acceptedCallback g' | cancelHandler g' | cancelHandlerFinish g' =>
    have ho : x.owner = _ := h
    rw [ho] at hne
    exact absurd rfl hne

theorem no_hookReturn (h : step x e = some y) (hg : ∀ g, x.owner ≠ .goalHook g) (hc : ∀ g, x.owner ≠ .cancelHook g) :
    e ≠ .hookReturn := by
  rintro rfl
  cases step_cases h with
  | goalHookReturn g _ ho => exact hg g ho
  | cancelHookReturn g _ ho => exact hc g ho

/-- While the owner's thread is at a hook, steps leave it there. -/
theorem stays_at (hx : Reach Always x) (ho : (x.owner.op : Option (Op A)) = none) (hi : x.owner ≠ .idle)
    (h : step x e = some y) (hh : e ≠ .hook) (hr : e ≠ .hookReturn) : y.owner = x.owner := by
  by_cases hu : e = .unlock
  · subst hu
    cases step_cases h with
    | unlock op v hc =>
      refine leave_foreign (runs_at hx hc) ?_
      rw [ho]
      exact nofun
  · exact step_owner h hi hh hr hu

/-- What the first section leaves. -/
theorem first_returns (hs : Reach Always s) (h : Completed (.cancelHandler g) s l v x) :
    Phase g s false (leave x (.cancelHandler g) v) := by
  have hi := section_inv h.inside hs
  obtain ⟨o, rfl, hbody⟩ := Executed.body h.exec
  cases cancelHandler_log hbody with
  | @active u v _ hu ha hv ht =>
    have has : s.st.active = some g := hu.active.symm.trans ha
    have hhook : v.cancelHook = s.st.cancelHook := hv.cancelHook.trans hu.cancelHook
    have hact : g ∈ x.st.activated := by
      rw [ht.activated, hv.activated, hu.activated]
      exact hi.activeLast g has
    cases hc : v.cancelHook with
    | true => exact .called rfl has (hhook.symm.trans hc) hact
    | false => exact .finish rfl has (hhook.symm.trans hc) hact
  | @pending u v w y _ _ hu ha hv hp hterm hy ht =>
    obtain ⟨l₁, l₂, -, -, hl₂⟩ := terminateGoal_log ((hi.rely (hu.trans hv)).deferred g hp) hterm
    have hne : s.st.active ≠ some g := fun e => ha (hu.active.trans e)
    refine .done rfl ⟨nofun, fun h => absurd h.1 hne⟩ (fun e => ?_) fun e => ?_
    · have hact : x.st.active = u.active :=
        ht.active.trans (hy.active.trans (hl₂.active.trans hv.active))
      exact ha (hact.symm.trans e)
    · cases ht.pending.symm.trans e
  | @neither u v _ hu ha hv hp ht =>
    have hne : s.st.active ≠ some g := fun e => ha (hu.active.trans e)
    refine .done rfl ⟨nofun, fun h => absurd h.1 hne⟩ (fun e => ?_) fun e => ?_
    · exact ha ((hv.active.symm.trans ht.active.symm).trans e)
    · exact hp (ht.pending.symm.trans e)

/-- What the second section leaves. -/
theorem finish_returns (hx : Reach Always x) (hc : x.crit = some ⟨.cancelHandlerFinish g, .ret v⟩)
    (hg : g ∈ x.st.activated) : x.st.active ≠ some g ∧ x.st.pending ≠ some g := by
  obtain ⟨y, l, hy, h⟩ := reach_section hx hc
  have hi := section_inv h hy
  have hdone : Completed (.cancelHandlerFinish g) y l v x := ⟨h, hc⟩
  have hfree : Inv (leave x (.cancelHandlerFinish g) v).st :=
    (held_free (any_kept _) trivial (reach_allowed (.step .unlock hx trivial (by simp only [step, hc]))) rfl).2.1
  refine ⟨fun e => ?_, (hfree.activatedStored g hg).2⟩
  obtain ⟨t, l₁, ht, -, ⟨ha, -, hr⟩ | ⟨ha, b, hfin⟩⟩ := cancelHandlerFinish_log (Executed.body_unit hdone.exec)
  · exact ha (hr.active.symm.trans e)
  · obtain ⟨_, _, _, z, -, -, -, -, -, -, hz⟩ := finishActive_log (hi.rely ht) ha hfin
    cases hz.active.symm.trans e

/-- A step during the first section. -/
theorem first_step (hs : Reach Always s) (ho : x.owner = .handler g) (h : Section (.cancelHandler g) s l x)
    (hh : e ≠ .hook) (he : step x e = some y) : Phase g s false y := by
  obtain ⟨q, hq, -⟩ := section_exec Anything h
  by_cases hu : e = .unlock
  · subst hu
    cases step_cases he with
    | unlock op v hc =>
      cases hc.symm.trans hq
      exact first_returns hs ⟨h, hc⟩
  have hr := no_hookReturn he (by rw [ho]; nofun) (by rw [ho]; nofun)
  have ho' := (step_owner he (by rw [ho]; nofun) hh hr hu).trans ho
  by_cases hrun : e = .run
  · subst hrun
    cases step_cases he with
    | run op c k hc =>
      cases hc.symm.trans hq
      exact .first ho' (h.call hc he)
  · exact .first ho' (h.other hrun hu he)

/-- A step before the second section returns, or its return. -/
theorem finish_step (hx : Reach Always x) (ho : x.owner = .handlerFinish g) (ha : s.st.active = some g)
    (hc : s.st.cancelHook = b) (hg : g ∈ x.st.activated) (hh : e ≠ .hook) (he : step x e = some y) :
    Phase g s b y := by
  by_cases hu : e = .unlock
  · subst hu
    cases step_cases he with
    | unlock op v hcrit =>
      by_cases hop : op = .cancelHandlerFinish g
      · subst hop
        obtain ⟨hact, hpend⟩ := finish_returns hx hcrit hg
        exact .done rfl ⟨fun hb => ⟨ha, hc.trans hb⟩, fun h => hc.symm.trans h.2⟩ hact hpend
      · have hne : x.owner.op ≠ some op := by
          rw [ho]
          exact fun e => hop (Option.some.inj e).symm
        exact .finish ((leave_foreign (runs_at hx hcrit) hne).trans ho) ha hc ((step_grows he).activated.subset hg)
  · have hr := no_hookReturn he (by rw [ho]; nofun) (by rw [ho]; nofun)
    exact .finish ((step_owner he (by rw [ho]; nofun) hh hr hu).trans ho) ha hc ((step_grows he).activated.subset hg)

theorem phase_step (hs : Reach Always s) (hx : Reach Always x) (h : Phase g s b x) (hi : x.owner ≠ .idle)
    (hh : e ≠ .hook) (he : step x e = some y) : Phase g s b y := by
  cases h with
  | first ho hsec => exact first_step hs ho hsec hh he
  | called ho ha hc hg =>
    have hr := no_hookReturn he (by rw [ho]; nofun) (by rw [ho]; nofun)
    exact .called ((stays_at hx (by rw [ho]; rfl) hi he hh hr).trans ho) ha hc ((step_grows he).activated.subset hg)
  | hook ho ha hc hg =>
    by_cases hr : e = .hookReturn
    · subst hr
      cases step_cases he with
      | goalHookReturn _ _ ho' => cases ho.symm.trans ho'
      | cancelHookReturn g' _ ho' =>
        cases ho.symm.trans ho'
        exact .finish rfl ha hc hg
    · exact .hook ((stays_at hx (by rw [ho]; rfl) hi he hh hr).trans ho) ha hc ((step_grows he).activated.subset hg)
  | finish ho ha hc hg => exact finish_step hx ho ha hc hg hh he
  | done ho => exact absurd ho hi

theorem phase_hook (h : Phase g s b x) (he : step x .hook = some y) : Phase g s true y := by
  cases step_cases he with
  | goalHook g' ho' =>
    cases h with
    | first ho | called ho | hook ho | finish ho | done ho => cases ho.symm.trans ho'
  | cancelHook g' ho' =>
    cases h with
    | called ho ha hc hg =>
      cases ho.symm.trans ho'
      exact .hook rfl ha hc hg
    | first ho | hook ho | finish ho | done ho => cases ho.symm.trans ho'

theorem handling_phase (hs : Reach Always s) (h : Handling g s b x) : Reach Always x ∧ Phase g s b x := by
  induction h with
  | lock ho he =>
    cases step_cases he with
    | lock op hc hop => exact ⟨.step _ hs trivial he, .first ho (.enter hc he)⟩
  | hook _ he ih => exact ⟨.step _ ih.1 trivial he, phase_hook ih.2 he⟩
  | other _ hi hh he ih => exact ⟨.step _ ih.1 trivial he, phase_step hs ih.1 ih.2 hi hh he⟩

theorem Phase.handled (h : Phase g s b x) : Handled g s b x := by
  cases h with
  | first ho hsec => exact ⟨nofun, fun _ _ => .inr (.inl ho), fun hi => by cases ho.symm.trans hi⟩
  | called ho => exact ⟨nofun, fun _ _ => .inr (.inr ho), fun hi => by cases ho.symm.trans hi⟩
  | hook ho ha hc => exact ⟨fun _ => ⟨ha, hc⟩, fun _ _ => .inl rfl, fun hi => by cases ho.symm.trans hi⟩
  | finish ho ha hc =>
    exact ⟨fun hb => ⟨ha, hc.trans hb⟩, fun _ h => .inl (hc.symm.trans h), fun hi => by cases ho.symm.trans hi⟩
  | done _ hb hact hpend => exact ⟨hb.mp, fun ha hc => .inl (hb.mpr ⟨ha, hc⟩), fun _ => ⟨hact, hpend⟩⟩

theorem handler_minds_its_goal (hs : Reach Always s) :
    (∀ op l x, op.handler? = some g → Section op s l x →
      ∀ e ∈ l, OwnCall g e.1 e.2 ∧ ∀ g' ≠ g, Untouched g' e.2 (sem op e.1 e.2).2) ∧
    ∀ b x, Handling g s b x → Handled g s b x := by
  refine ⟨fun op l x hop h e he => ?_, fun b x h => (handling_phase hs h).2.handled⟩
  have hown := section_owns hs hop h e he
  exact ⟨hown, fun g' hne => hown.untouched op hne⟩

/-! ## A trace -/

/-- The callback has not returned. -/
def Running (x : Sys A) (_ : Ev A) : Prop := x.owner ≠ .idle

instance (x : Sys A) (e : Ev A) : Decidable (Running x e) := inferInstanceAs (Decidable (x.owner ≠ .idle))

def Ev.isHook : Ev A → Bool
  | .hook => true
  | _ => false

theorem isHook_of_ne (h : e ≠ .hook) : e.isHook = false := by
  cases e with
  | hook => exact absurd rfl h
  | _ => rfl

theorem handling_run (es : List (Ev A)) (h : Handling g s b x) (hr : run step Running x es = some y) :
    Handling g s (b || es.any Ev.isHook) y := by
  induction es generalizing x b with
  | nil =>
    cases hr
    simpa using h
  | cons e es ih =>
    simp only [run] at hr
    split at hr
    · rename_i hi
      obtain ⟨z, hz, hrest⟩ := Option.bind_eq_some_iff.mp hr
      have hstep : Handling g s (b || e.isHook) z := by
        by_cases he : e = .hook
        · subst he
          simpa [Ev.isHook] using h.hook hz
        · simpa [isHook_of_ne he] using h.other hi he hz
      simpa [Bool.or_assoc] using ih hstep hrest
    · cases hr

/-- Goal 0 is active, asked to cancel, and its handler is next; goal 1 is pending. -/
def handlerNext : List (Ev unitAction) :=
  [.start true] ++ called (.other 0) (.setCancelHook true) 1 ++ arrival ++ handled 3 ++
    called (.other 0) (.acceptPending ()) 8 ++ arrival ++ handled 3 ++ [.cancelCallback 0] ++ calls 2 ++
    [.cancelGoal 0, .dequeue]

/-- The hook makes goal 1 active; the handler of goal 0 leaves it there. -/
theorem handler_minds_its_goal_replaced :
    ∃ s x, run step Always Sys.init handlerNext = some s ∧ Handling 0 s true x ∧ x.owner = .idle ∧
      x.st.active = some 1 ∧ Handled 0 s true x := by
  have h : ∃ s x, run step Always Sys.init handlerNext = some s ∧ Handling 0 s true x ∧ x.owner = .idle ∧
      x.st.active = some 1 :=
    ⟨_, _, rfl, handling_run (calls 2 ++ [.hook] ++ called .owner (.acceptPending ()) 13 ++ [.hookReturn, .lock] ++
      calls 1) (.lock rfl rfl) rfl, rfl, rfl⟩
  obtain ⟨s, x, hs, hx, ho, ha⟩ := h
  exact ⟨s, x, hs, hx, ho, ha, (handler_minds_its_goal (run_path handlerNext hs)).2 true x hx⟩

end

end RttRos2.Actions
