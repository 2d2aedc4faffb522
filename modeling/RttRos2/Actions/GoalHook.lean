/-
  RttRos2.Actions.GoalHook — the goal hook decides about the goal it was shown.

  `acceptPending` and `rejectPending` name no goal, and `acceptedCallback` calls its hook
  after it has released `mutex_`. But no other goal can be stored before the hook
  returns: only `acceptedCallback` stores one, and the owner takes its operations one at
  a time. So from the section of `acceptedCallback(g)` until its hook returns, `g` is the last
  goal stored (`latest`), and the pending slot holds the last goal stored or none at all
  (`pending_latest`). What other threads do meanwhile can only empty the slot.
  `hook_decides`: an `acceptPending` of the hook makes `g` active, and a `rejectPending`
  of the hook calls goal handles of `g` only.
-/

import RttRos2.Actions.Logs
import RttRos2.Actions.Slots

namespace RttRos2.Actions

open RttRos2.Lib

variable {A : ActionT} {s t : Sys A} {e : Ev A} {g : Nat}

/-- The goal that a goal hook is about to be called with, or was. -/
def Owner.shows : Owner → Option Nat
  | .acceptedHook g | .goalHook g => some g
  | _ => none

/-! ## The pending slot -/

def PendingLatest (s : St A) : Prop := ∀ p, s.pending = some p → s.stored.getLast? = some p

theorem PendingLatest.of_eq {s t : St A} (h : PendingLatest s) (hp : t.pending = s.pending)
    (hs : t.stored = s.stored) : PendingLatest t := by
  intro p
  rw [hp, hs]
  exact h p

theorem sem_pendingLatest {s : St A} (h : PendingLatest s) (op : Op A) (c : Call A) : PendingLatest (sem op c s).2 := by
  have he := sem_effect op c s
  generalize (sem op c s).2 = t at he ⊢
  cases he with
  | quiet hq => exact h.of_eq hq.pending hq.stored
  | finish | dropActive | activate => exact h
  | dropPending => exact nofun
  | store g =>
    intro p hp
    cases hp
    exact List.getLast?_concat

theorem step_pendingLatest (hs : PendingLatest s.st) (h : step s e = some t) : PendingLatest t.st := by
  rcases step_st h with h | ⟨op, c, k, -, h⟩
  · exact hs.of_eq h.pending h.stored
  · rw [h]
    exact sem_pendingLatest hs op c

theorem pending_latest (h : Reach Always s) : PendingLatest s.st :=
  h.invariant nofun fun _ _ _ ht _ he => step_pendingLatest ht he

/-! ## The goal shown -/

/-- It is the last one stored, and the last one the owner took from its queue. -/
def Latest (s : Sys A) : Prop := ∀ g, s.owner.shows = some g → s.st.stored = s.taken ∧ s.taken.getLast? = some g

theorem expected_shown (hg : s.owner.shows = some g) : s.expected = s.taken := by
  unfold Sys.expected
  split
  · rename_i ho
    rw [ho] at hg
    cases hg
  · rfl

/-- Whatever section runs, it stores no goal while a goal is shown. -/
theorem stored_prefix (h : Held Anything (fun _ => True) s) (hg : s.owner.shows = some g) :
    s.st.stored <+: s.taken := by
  cases hc : s.crit with
  | none =>
    obtain ⟨-, -, hs⟩ := h.free hc
    have heq : s.st.stored = s.taken := hs.trans (expected_shown hg)
    exact heq ▸ List.prefix_rfl
  | some c =>
    obtain ⟨hat, hw⟩ := h.inside hc
    have hafter : s.after c.op = s.taken := by
      obtain ⟨op, prog⟩ := c
      cases op with
      | acceptedCallback g' =>
        have ho : s.owner = .accepted g' := hat
        rw [ho] at hg
        cases hg
      | _ => exact expected_shown hg
    obtain ⟨v, t, ⟨-, -, hs, -⟩, hgrow⟩ :=
      wp_finish Grows.refl (fun h1 h2 => h1.trans h2) (sem_grows c.op) (fun _ _ _ => trivial) hw
    rw [← hafter, ← hs]
    exact hgrow.stored

/-- Only the section of `acceptedCallback` leads to a goal's being shown. -/
theorem leave_shows {op : Op A} {v : Ret} (hg : (leave s op v).owner.shows = some g) :
    s.owner.shows = some g ∨ op = .acceptedCallback g := by
  unfold leave at hg
  split at hg
  · rename_i g' hook
    cases hook
    · cases hg
    · cases hg
      exact .inr rfl
  · cases hg
  · rename_i g' hook
    cases hook <;> cases hg
  · cases hg
  · exact .inl hg
  · exact .inl hg

theorem step_latest (hl : Link s) (hh : Held Anything (fun _ => True) s) (hn : Held Anything (fun _ => True) t)
    (h : Latest s) (he : step s e = some t) : Latest t := by
  intro g hg
  have hpre := stored_prefix hn hg
  -- a step at which the goal shown stays the same
  have keep : s.owner.shows = some g → t.taken = s.taken → t.st.stored = t.taken ∧ t.taken.getLast? = some g := by
    intro ho htk
    obtain ⟨hs, hlast⟩ := h g ho
    have hgrow := (step_grows he).stored
    rw [htk] at hpre ⊢
    rw [hs] at hgrow
    exact ⟨hpre.eq_of_length_le hgrow.length_le, hlast⟩
  cases step_cases he with
  | dequeue w r => cases w <;> cases hg
  | unlock op v hc =>
    rcases leave_shows hg with ho | rfl
    · exact keep ho (leave_taken ..)
    · obtain ⟨-, -, hs⟩ := hn.free (leave_crit ..)
      rw [expected_shown hg] at hs
      refine ⟨hs, ?_⟩
      rw [leave_taken]
      exact hl.accepted g (hh.inside hc).1
  | goalHook g' ho =>
    refine keep ?_ rfl
    rw [ho]
    exact hg
  | cancelHook | goalHookReturn | cancelHookReturn => cases hg
  | _ => exact keep hg rfl

theorem latest (h : Reach Always s) : Latest s := by
  have hinv : (Link s ∧ Held Anything (fun _ => True) s) ∧ Latest s := by
    refine (reach_allowed h).invariant (P := fun s => (Link s ∧ Held Anything (fun _ => True) s) ∧ Latest s) ?_ ?_
    · exact ⟨⟨⟨rfl, nofun⟩, inv_init, trivial, rfl⟩, nofun⟩
    · rintro t u e ⟨⟨hl, hh⟩, ht⟩ ha he
      have hn := held_step (any_kept _) hl hh ha he
      exact ⟨hn, step_latest hl hh hn.2 ht he⟩
  exact hinv.2

/-! ## What the hook decides -/

theorem Promotes.promotes {p : Nat} {s t : St A} {l : Log A} (h : Promotes p s true l t) :
    t.active = some p ∧ ∃ u, (.setActive (some p), u) ∈ l := by
  cases h with
  | done _ _ _ hy ht => exact ⟨ht.active.trans hy.active, _, .tail _ (.head _)⟩

theorem acceptPending_promotes {op : Op A} {s t : St A} {l : Log A} {result : A.Result} (hi : Inv s)
    (h : Executed op (acceptPending result) s l true t) :
    ∃ p, s.pending = some p ∧ t.active = some p ∧ ∃ u, (.setActive (some p), u) ∈ l := by
  rcases acceptPending_log hi h with ⟨hb, -⟩ | ⟨p, l₁, l₂, l₃, u, v, b, hp, rfl, -, -, -, hl₃⟩
  · cases hb
  · obtain ⟨ha, w, hw⟩ := hl₃.promotes
    exact ⟨p, hp, ha, w, List.mem_append_right _ (List.mem_append_right _ hw)⟩

/-- The queries about the pending goal. -/
theorem Asks.concerns_pending {s t : St A} {l₁ l₂ : Log A} {op : Op A} {α : Type} {prog : M A α} {a : α}
    (hl : Asks (s.pending.map fun _ => .pending) l₁) (h : Executed op prog s (l₁ ++ l₂) a t)
    (hp : s.pending = some g ∨ s.pending = none) : Concerns g l₁ := by
  have hfound := hl.found h
  rcases hp with hp | hp
  · rw [hp] at hl
    exact hl.concerns fun e he => (hfound e he).pending.trans hp
  · intro e he r hr
    rw [hp] at hl
    rcases (hl e he).2 with hn | hn <;> cases hn.symm.trans hr

theorem rejectPending_concerns {op : Op A} {s t : St A} {l : Log A} {result : A.Result} {b : Bool} (hi : Inv s)
    (hp : s.pending = some g ∨ s.pending = none) (h : Executed op (rejectPending result) s l b t) : Concerns g l := by
  rcases rejectPending_log hi h with ⟨-, hl, -⟩ | ⟨p, l₁, l₂, u, v, x, -, hp', rfl, hl₁, hu, hterm, -⟩
  · rw [← List.append_nil l] at h
    exact hl.concerns_pending h hp
  · have hpg : p = g := by
      rcases hp with hp | hp
      · exact Option.some.inj (hp'.symm.trans hp)
      · cases hp.symm.trans hp'
    subst hpg
    have hasks : Asks (s.pending.map fun _ => .pending) l₁ := by rw [hp']; exact hl₁
    refine (hasks.concerns_pending h hp).append ((terminateGoal_concerns ?_ hterm).append ?_)
    · exact (hi.rely hu).deferred p (hu.pending.trans hp')
    · exact List.forall_mem_singleton.mpr nofun

theorem hook_decides (hs : Reach Always s) (ho : s.owner = .goalHook g) :
    (s.st.pending = some g ∨ s.st.pending = none) ∧
    (∀ result l x, Completed (.call .owner (.acceptPending result)) s l (.bool true) x →
      s.st.pending = some g ∧ x.st.active = some g ∧ ∃ u, (.setActive (some g), u) ∈ l) ∧
    (∀ result l x, Section (.call .owner (.rejectPending result)) s l x → Concerns g l) := by
  obtain ⟨hstored, hlast⟩ := latest hs g (by rw [ho]; rfl)
  have hslot : s.st.pending = some g ∨ s.st.pending = none := by
    cases hp : s.st.pending with
    | none => exact .inr rfl
    | some p =>
      have hpl := pending_latest hs p hp
      rw [hstored, hlast] at hpl
      exact .inl hpl.symm
  refine ⟨hslot, fun result l x h => ?_, fun result l x h => ?_⟩
  · obtain ⟨b, hb, hex⟩ := Executed.body h.exec
    cases hb
    obtain ⟨p, hp, ha, hset⟩ := acceptPending_promotes (section_inv h.inside hs) hex
    rcases hslot with hg | hg
    · cases hg.symm.trans hp
      exact ⟨hp, ha, hset⟩
    · cases hg.symm.trans hp
  · obtain ⟨l', v, t, hex, -⟩ := section_completes h
    obtain ⟨b, -, hbody⟩ := Executed.body hex
    exact fun e he => rejectPending_concerns (section_inv h hs) hslot hbody e (List.mem_append_left _ he)

/-- The goal hook is running with goal 0. -/
def hookRuns : List (Ev unitAction) :=
  [.start true] ++ called (.other 0) (.setGoalHook true) 1 ++ arrival ++ handled 3 ++ [.hook]

theorem hook_decides_accepts :
    ∃ s l x, run step Always Sys.init hookRuns = some s ∧ s.owner = .goalHook 0 ∧
      Completed (.call .owner (.acceptPending ())) s l (.bool true) x ∧ s.st.pending = some 0 ∧
      x.st.active = some 0 ∧ ∃ u, (.setActive (some 0), u) ∈ l := by
  have h : ∃ s l x, run step Always Sys.init hookRuns = some s ∧ s.owner = .goalHook 0 ∧
      Completed (.call .owner (.acceptPending ())) s l (.bool true) x :=
    ⟨_, _, _, rfl, rfl, ⟨section_record (List.replicate 8 .run)
      (.enter (e := .call .owner (.acceptPending ())) rfl rfl) rfl, rfl⟩⟩
  obtain ⟨s, l, x, hs, ho, hx⟩ := h
  exact ⟨s, l, x, hs, ho, hx, (hook_decides (run_path hookRuns hs) ho).2.1 () l x hx⟩

end RttRos2.Actions
