/-
  RttRos2.Actions.Accept — `acceptPending`, all or nothing.

  `acceptPending` tests the pending goal, finishes the active one, and executes the
  pending one. `mutex_` does not keep `rclcpp_action` from moving the pending goal to
  CANCELING in between: `execute()` then throws and the call returns false, but the
  active goal is finished already (`canceled_between_loses_active`). The call is all or
  nothing exactly when there was no active goal to finish, or no `execute()` of it found
  its goal CANCELING (`accept_pending_iff`).
-/

import RttRos2.Actions.Logs
import RttRos2.Actions.Slots

namespace RttRos2.Actions

open RttRos2.Lib

variable {A : ActionT} {op : Op A} {th : Tid} {s x : Sys A} {l : Log A} {b : Bool} {result : A.Result}

/-- The goal that was pending is the active one, and the former active goal is finished. -/
structure Promoted (op : Op A) (result : A.Result) (s : St A) (l : Log A) (t : St A) : Prop where
  pending : t.pending = none
  executed : ∃ p u, s.pending = some p ∧ t.active = some p ∧ (t.state p).running = true ∧
    (.execute (.handle p), u) ∈ l ∧ (sem op (.execute (.handle p)) u).1 = true
  former : ∀ g, s.active = some g → (t.state g = .canceled ∨ t.state g = .aborted) ∧ (t.goals g).result = some result

structure AllOrNothing (op : Op A) (result : A.Result) (s : St A) (l : Log A) (b : Bool) (t : St A) : Prop where
  all : b = true → Promoted op result s l t
  nothing : b = false → GoalsKept op l ∧ t.active = s.active

/-- Goal 0 is active, goal 1 pending, and its cancel request is accepted. -/
def cancelAccepted : List (Ev unitAction) :=
  [.start true] ++ arrival ++ handled 3 ++ called (.other 0) (.acceptPending ()) 8 ++ arrival ++ handled 3 ++
    [.cancelCallback 1] ++ calls 3

/-- The pending goal moves to CANCELING after `acceptPending` has tested it. -/
theorem canceled_between_loses_active :
    ∃ s l x, run step Always Sys.init cancelAccepted = some s ∧
      Completed (.call (.other 0) (.acceptPending ())) s l (.bool false) x ∧ s.st.active = some 0 ∧
      x.st.active = none ∧ ¬ AllOrNothing (.call (.other 0) (.acceptPending ())) () s.st l false x.st := by
  refine ⟨_, _, _, rfl, ⟨section_record (List.replicate 4 .run ++ [.cancelGoal 1] ++ List.replicate 7 .run)
    (.enter (e := .call (.other 0) (.acceptPending ())) rfl rfl) rfl, rfl⟩, rfl, rfl, fun h => ?_⟩
  have ha := (h.nothing rfl).2
  cases ha

/-! ## Its calls -/

theorem inTime_endCall (r : Ref) (st : GoalState) (u : St A) :
    (endCall r st result : Call A).executesCanceling u = false := by
  unfold endCall
  split <;> rfl

theorem finishActive_inTime {s t : St A} (hi : Inv s) {pc : Bool} (h : Executed op (finishActive result pc) s l b t) :
    InTime l := by
  cases ha : s.active with
  | none => exact (finishActive_none ha h).2.1.inTime
  | some g =>
    obtain ⟨l₁, v, w, x, -, hl₁, rfl, -⟩ := finishActive_log hi ha h
    refine hl₁.inTime.append (List.forall_mem_cons.mpr ⟨rfl, List.forall_mem_cons.mpr ⟨?_, ?_⟩⟩)
    · exact inTime_endCall _ _ _
    · exact List.forall_mem_singleton.mpr rfl

theorem Promotes.inTime {p : Nat} {s t : St A} (h : Promotes p s true l t) : InTime l := by
  cases h with
  | done _ ha _ _ _ =>
    have hq : Call.executesCanceling _ (.execute (.handle p)) = false :=
      (query_of (r := .handle p) rfl _).trans (by rw [ha]; rfl)
    exact List.forall_mem_cons.mpr ⟨hq, List.forall_mem_cons.mpr ⟨rfl, List.forall_mem_singleton.mpr rfl⟩⟩

theorem Promotes.goalsKept {p : Nat} {s t : St A} (h : Promotes p s false l t) : GoalsKept op l := by
  cases h with
  | threw _ hc _ _ =>
    refine List.forall_mem_cons.mpr ⟨?_, List.forall_mem_singleton.mpr rfl⟩
    simp only [sem, execute_canceling (r := .handle p) rfl hc]

/-- An `execute()` that throws found its goal CANCELING. -/
theorem Promotes.late {p : Nat} {s t : St A} (h : Promotes p s false l t) : ¬ InTime l := by
  cases h with
  | threw _ hc _ _ =>
    intro hl
    have hq := hl _ (.head _)
    simp only [Call.executesCanceling, query_of (r := .handle p) rfl, hc] at hq
    cases hq

theorem Promotes.keeps_active {p : Nat} {s t : St A} (h : Promotes p s false l t) : t.active = s.active := by
  cases h with
  | threw hw _ hx ht => exact ht.active.trans (hx.active.trans hw.active)

theorem Promotes.executed (op : Op A) {p : Nat} {s t : St A} (h : Promotes p s true l t) :
    ∃ u, (.execute (.handle p), u) ∈ l ∧ (sem op (.execute (.handle p)) u).1 = true := by
  cases h with
  | done _ ha _ _ _ => exact ⟨_, .head _, by simp [sem, execute_of (r := .handle p) rfl ha]⟩

/-! ## What it leaves -/

theorem ends_cases {ok : Op A → Call A → St A → Prop} {s : St A} {g : Nat} {st : GoalState} (h : Ends ok op s g st)
    (hop : ∀ th r, op ≠ .call th (.succeedActive r)) : st = .canceled ∨ st = .aborted := by
  cases h with
  | canceled => exact .inl rfl
  | aborted | rejected => exact .inr rfl
  | succeeded th r e => exact absurd e (hop th r)

theorem promoted_of {s t u : St A} {p : Nat} (hi : Inv s) (hp : s.pending = some p)
    (hu : ClearedActive Anything (.call th (.acceptPending result)) result s u)
    (ht : Rely ((u.move p .executing).activate p).dropPending t)
    (hl : ∃ w, (.execute (.handle p), w) ∈ l ∧ (sem op (.execute (.handle p)) w).1 = true) :
    Promoted op result s l t := by
  obtain ⟨w, hw, hex⟩ := hl
  refine ⟨ht.pending, ⟨p, w, hp, ht.active, ?_, hw, hex⟩, fun g hg => ?_⟩
  · refine (ht.state p).running ?_
    rw [state_dropPending, state_activate, state_move, if_pos rfl]
    rfl
  · obtain ⟨hn, -⟩ | ⟨g', st, hg', hst, rfl⟩ := hu
    · rw [hn] at hg
      cases hg
    · cases hg'.symm.trans hg
      have hne : g ≠ p := by
        intro e
        subst e
        exact hi.distinct g hg hp
      have hres : ((((s.finish (.call th (.acceptPending result)) g st result).dropActive.move p .executing).activate
          p).dropPending.goals g).result = some result := by
        simp [St.move, St.activate, St.dropPending, St.dropActive, St.finish, hne]
      have hfin := finished_stays ht
        (by rw [state_dropPending, state_activate, state_move, if_neg hne, state_dropActive, state_finish, if_pos rfl])
        hst.terminal hres
      refine ⟨?_, hfin.2⟩
      rw [hfin.1]
      refine ends_cases hst ?_
      intro th r e
      cases e

theorem accept_pending_iff (hs : Reach Always s)
    (h : Completed (.call th (.acceptPending result)) s l (.bool b) x) :
    AllOrNothing (.call th (.acceptPending result)) result s.st l b x.st ↔ s.st.active = none ∨ InTime l := by
  have hi := section_inv h.inside hs
  obtain ⟨b', hb, hex⟩ := Executed.body h.exec
  cases hb
  have hspec := hex.post (acceptPending_spec hi result)
  rcases acceptPending_log hi hex with ⟨rfl, hl, ht⟩ | ⟨p, l₁, l₂, l₃, u, v, b', hp, rfl, hl₁, hu, hfin, hl₃⟩
  · exact ⟨fun _ => .inr hl.inTime, fun _ => ⟨nofun, fun _ => ⟨hl.goalsKept, ht.active⟩⟩⟩
  · have hiu := hi.rely hu
    cases b with
    | true =>
      refine ⟨fun _ => .inr (hl₁.inTime.append ((finishActive_inTime hiu hfin).append hl₃.inTime)), fun _ => ?_⟩
      refine ⟨fun _ => ?_, nofun⟩
      rcases hspec with ⟨he, -⟩ | ⟨p', w, hp', hw, ⟨-, ht⟩ | ⟨he, -⟩⟩
      · cases he
      · cases hp'.symm.trans hp
        obtain ⟨w', hw', he⟩ := hl₃.executed (.call th (.acceptPending result))
        exact promoted_of hi hp hw ht ⟨w', List.mem_append_right _ (List.mem_append_right _ hw'), he⟩
      · cases he
    | false =>
      obtain ⟨w, hw, hwv⟩ := finishActive_cleared hiu hfin
      constructor
      · -- the active goal was finished
        intro hall
        have ha := (hall.nothing rfl).2
        rw [hl₃.keeps_active, hwv.active, hw.slots.1] at ha
        exact .inl ha.symm
      · rintro (ha | hin)
        · obtain ⟨-, hl₂, hv⟩ := finishActive_none (hu.active.trans ha) hfin
          refine ⟨nofun, fun _ => ⟨hl₁.goalsKept.append (hl₂.goalsKept.append hl₃.goalsKept), ?_⟩⟩
          exact hl₃.keeps_active.trans (hv.active.trans hu.active)
        · exact absurd (fun e he => hin e (List.mem_append_right _ (List.mem_append_right _ he))) hl₃.late

/-- Goal 1 is accepted in time; goal 0 is finished. -/
theorem accept_pending_iff_in_time :
    ∃ s l x, run step Always Sys.init cancelAccepted = some s ∧
      Completed (.call (.other 0) (.acceptPending ())) s l (.bool true) x ∧
      AllOrNothing (.call (.other 0) (.acceptPending ())) () s.st l true x.st := by
  have h : ∃ s l x, run step Always Sys.init cancelAccepted = some s ∧
      Completed (.call (.other 0) (.acceptPending ())) s l (.bool true) x ∧ InTime l :=
    ⟨_, _, _, rfl, ⟨section_record (List.replicate 12 .run)
      (.enter (e := .call (.other 0) (.acceptPending ())) rfl rfl) rfl, rfl⟩, by decide⟩
  obtain ⟨s, l, x, hs, hx, hl⟩ := h
  exact ⟨s, l, x, hs, hx, (accept_pending_iff (run_path cancelAccepted hs) hx).mpr (.inr hl)⟩

end RttRos2.Actions
