/-
  RttRos2.Actions.Reject — what `rejectPending` tells its caller.

  `terminateGoal` asks whether the pending goal is CANCELING or EXECUTING and, when it is
  neither, executes and aborts it. A cancel request that comes after the queries makes
  `execute()` throw; the exception is swallowed, nothing else is tried, and
  `rejectPending` returns true with the goal CANCELING
  (`canceled_between_is_not_rejected`). It tells the truth exactly when no `execute()` of
  the call found its goal CANCELING (`reject_pending_iff`).
-/

import RttRos2.Actions.Logs
import RttRos2.Actions.Slots

namespace RttRos2.Actions

open RttRos2.Lib

variable {A : ActionT} {op : Op A} {th : Tid} {s x : Sys A} {l : Log A} {b : Bool} {result : A.Result} {p : Nat}

/-- The goal is terminal with the result: CANCELED only if it was CANCELING when it was ended. -/
def Ended (result : A.Result) (l : Log A) (p : Nat) (t : St A) : Prop :=
  (t.goals p).result = some result ∧ (t.state p = .aborted ∨
    t.state p = .canceled ∧ ∃ u, (.canceled (.handle p) result, u) ∈ l ∧ u.state p = .canceling)

/-- What `rejectPending` answers is so, and the active goal is not touched. -/
structure Truthful (op : Op A) (result : A.Result) (s : St A) (l : Log A) (b : Bool) (t : St A) : Prop where
  rejected : b = true → ∃ p, s.pending = some p ∧ Ended result l p t
  refused : b = false → GoalsKept op l
  slot : t.active = s.active
  active : ∀ g, s.active = some g → ∀ e ∈ l, (sem op e.1 e.2).2.goals g = e.2.goals g

/-- Goal 0 is pending, and its cancel request is accepted. -/
def pendingCancelAccepted : List (Ev unitAction) :=
  [.start true] ++ arrival ++ handled 3 ++ [.cancelCallback 0] ++ calls 3

/-- The goal moves to CANCELING after `terminateGoal` has asked for its state. -/
theorem canceled_between_is_not_rejected :
    ∃ s l x, run step Always Sys.init pendingCancelAccepted = some s ∧
      Completed (.call (.other 0) (.rejectPending ())) s l (.bool true) x ∧ x.st.state 0 = .canceling ∧
      ¬ Truthful (.call (.other 0) (.rejectPending ())) () s.st l true x.st := by
  refine ⟨_, _, _, rfl, ⟨section_record (List.replicate 6 .run ++ [.cancelGoal 0] ++ List.replicate 2 .run)
    (.enter (e := .call (.other 0) (.rejectPending ())) rfl rfl) rfl, rfl⟩, rfl, fun h => ?_⟩
  obtain ⟨p, hp, hr, -⟩ := h.rejected rfl
  cases hp
  cases hr

/-! ## Its calls -/

theorem Terminates.onlyGoal {s t : St A} (h : Terminates op p result s l t) : OnlyGoal op p l := by
  intro e he g hne
  refine sem_other fun r hr hg => hne ?_
  cases (h.ref e he).symm.trans hr
  exact (Option.some.inj hg).symm

/-- The goal is ended, exactly when `execute()` does not throw. -/
theorem Terminates.ended_iff {s t u : St A} (h : Terminates op p result s l t) (ht : Rely t.dropPending u) (l' : Log A)
    (hl : ∀ e ∈ l, e ∈ l') : Ended result l' p u ↔ InTime l := by
  have hstate : ∀ (v : St A) (st : GoalState), (v.finish op p st result).state p = st := fun v st => by
    rw [state_finish, if_pos rfl]
  have hresult : ∀ (v : St A) (st : GoalState), ((v.finish op p st result).goals p).result = some result :=
    fun v st => by simp [St.finish]
  cases h with
  | @canceled v _ hv hc hf =>
    have hfin := finished_stays (hf.dropPending.trans ht) (hstate v _) rfl (hresult v _)
    exact ⟨fun _ => List.forall_mem_singleton.mpr rfl, fun _ => ⟨hfin.2, .inr ⟨hfin.1, v, hl _ (.head _), hc⟩⟩⟩
  | @aborted v w _ hv ha _ hf =>
    have hfin := finished_stays (hf.dropPending.trans ht) (hstate w _) rfl (hresult w _)
    have hq : Call.executesCanceling v (.execute (.handle p)) = false :=
      (query_of (r := .handle p) rfl _).trans (by rw [ha]; rfl)
    exact ⟨fun _ => List.forall_mem_cons.mpr ⟨hq, List.forall_mem_singleton.mpr rfl⟩, fun _ => ⟨hfin.2, .inl hfin.1⟩⟩
  | @threw v _ hv hc hvt =>
    -- the goal stays CANCELING
    have hu : u.state p = .canceling := (hc ▸ (hvt.dropPending.trans ht).state p).canceling
    constructor
    · rintro ⟨-, h | ⟨h, -⟩⟩
      · rw [hu] at h
        cases h
      · rw [hu] at h
        cases h
    · intro hin
      have hq := hin _ (.head _)
      simp only [Call.executesCanceling, query_of (r := .handle p) rfl, hc] at hq
      cases hq

theorem reject_pending_iff (hs : Reach Always s)
    (h : Completed (.call th (.rejectPending result)) s l (.bool b) x) :
    Truthful (.call th (.rejectPending result)) result s.st l b x.st ↔ InTime l := by
  have hi := section_inv h.inside hs
  obtain ⟨b', hb, hex⟩ := Executed.body h.exec
  cases hb
  rcases rejectPending_log hi hex with ⟨rfl, hl, ht⟩ | ⟨p, l₁, l₂, u, v, y, rfl, hp, rfl, hl₁, hu, hterm, hy, ht⟩
  · refine ⟨fun _ => hl.inTime, fun _ => ⟨nofun, fun _ => hl.goalsKept, ht.active, fun g _ e he => ?_⟩⟩
    rw [hl.goalsKept e he]
  · obtain ⟨l₃, l₄, rfl, hl₃, hl₄⟩ := terminateGoal_log ((hi.rely hu).deferred p (hu.pending.trans hp)) hterm
    have hd : Rely v.dropPending x.st := hy.dropPending.trans ht
    have hlast : GoalsKept (.call th (.rejectPending result)) [(Call.setPending none, y)] :=
      List.forall_mem_singleton.mpr rfl
    have honly : OnlyGoal (.call th (.rejectPending result)) p (l₁ ++ ((l₃ ++ l₄) ++ [(.setPending none, y)])) :=
      hl₁.goalsKept.onlyGoal.append ((hl₃.goalsKept.onlyGoal.append hl₄.onlyGoal).append hlast.onlyGoal)
    have hended := hl₄.ended_iff hd (l₁ ++ ((l₃ ++ l₄) ++ [(.setPending none, y)])) fun e he => by simp [he]
    constructor
    · rintro ⟨hrej, -⟩
      obtain ⟨p', hp', h'⟩ := hrej rfl
      cases hp'.symm.trans hp
      have hlast' : InTime [(Call.setPending none, y)] := List.forall_mem_singleton.mpr rfl
      exact hl₁.inTime.append ((hl₃.inTime.append (hended.mp h')).append hlast')
    · intro hin
      have hin₄ : InTime l₄ := fun e he => hin e (by simp [he])
      refine ⟨fun _ => ⟨p, hp, hended.mpr hin₄⟩, nofun, ?_, fun g hg e he => ?_⟩
      · exact hd.active.trans (hl₄.active.trans hu.active)
      · refine honly e he g fun heq => ?_
        subst heq
        exact hi.distinct g hg hp

/-- No cancel request gets in the way: the goal is ABORTED. -/
theorem reject_pending_iff_in_time :
    ∃ s l x, run step Always Sys.init pendingCancelAccepted = some s ∧
      Completed (.call (.other 0) (.rejectPending ())) s l (.bool true) x ∧ x.st.state 0 = .aborted ∧
      Truthful (.call (.other 0) (.rejectPending ())) () s.st l true x.st := by
  have h : ∃ s l x, run step Always Sys.init pendingCancelAccepted = some s ∧
      Completed (.call (.other 0) (.rejectPending ())) s l (.bool true) x ∧ x.st.state 0 = .aborted ∧ InTime l :=
    ⟨_, _, _, rfl, ⟨section_record (List.replicate 9 .run)
      (.enter (e := .call (.other 0) (.rejectPending ())) rfl rfl) rfl, rfl⟩, rfl, by decide⟩
  obtain ⟨s, l, x, hs, hx, ha, hl⟩ := h
  exact ⟨s, l, x, hs, hx, ha, (reject_pending_iff (run_path pendingCancelAccepted hs) hx).mpr hl⟩

end RttRos2.Actions
