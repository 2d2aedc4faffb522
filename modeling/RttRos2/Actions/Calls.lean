/-
  RttRos2.Actions.Calls — one critical section, call by call.

  `Section op s l x`: the section `op` was entered in `s`, made the calls `l`, each listed
  with the state it found, and the system is now in `x`; the other threads took any of
  their steps in between. `Completed op s l v x`: the section is about to return `v`.
  - `section_exec`: such a section is an execution of `op.body` under `Rely`.
  - `reach_section`: whenever a section holds `mutex_` it was entered in a reachable state,
    and it is an execution from one with the invariant (`reach_exec`).
  - `record` runs events and lists the calls, for traces (`section_record`).
-/

import RttRos2.Actions.Runs
import RttRos2.Lib.Exec

namespace RttRos2.Actions

open RttRos2.Lib

variable {A : ActionT} {ok : Op A → Call A → St A → Prop} {op : Op A} {s x y : Sys A} {e : Ev A}

/-- The calls of a section, each with the state it found. -/
abbrev Log (A : ActionT) := List (Call A × St A)

inductive Section (op : Op A) (s : Sys A) : Log A → Sys A → Prop
  | enter {e : Ev A} : s.crit = none → step s e = some (enter s op) → Section op s [] (enter s op)
  /-- A step of another thread. -/
  | other {l : Log A} {x y : Sys A} {e : Ev A} : Section op s l x → e ≠ .run → e ≠ .unlock → step x e = some y →
      Section op s l y
  | call {l : Log A} {x y : Sys A} {c : Call A} {k : c.Res → M A Ret} : Section op s l x →
      x.crit = some ⟨op, .call c k⟩ → step x .run = some y → Section op s (l ++ [(c, x.st)]) y

structure Completed (op : Op A) (s : Sys A) (l : Log A) (v : Ret) (x : Sys A) : Prop where
  inside : Section op s l x
  ret : x.crit = some ⟨op, .ret v⟩

theorem step_other {c : Crit A} (h : step x e = some y) (hc : x.crit = some c) (hr : e ≠ .run) (hu : e ≠ .unlock) :
    y.crit = x.crit ∧ Rely x.st y.st := by
  cases step_cases h with
  | accept | goalHook | cancelHook | goalHookReturn | cancelHookReturn => exact ⟨rfl, .refl _⟩
  | handleAccepted => exact ⟨rfl, rely_arrive _⟩
  | cancelGoal g => exact ⟨rfl, rely_cancelGoal _ g⟩
  | start created => exact ⟨rfl, rely_connected _ _⟩
  | dequeue w r => exact ⟨rfl, rely_queue _ _⟩
  | cancelCallback g hn | call t m hn | lock op hn =>
    rw [hc] at hn
    cases hn
  | run => exact absurd rfl hr
  | unlock => exact absurd rfl hu

theorem section_exec (ok : Op A → Call A → St A → Prop) {l : Log A} (h : Section op s l x) :
    ∃ q, x.crit = some ⟨op, q⟩ ∧ Exec (setting ok op) op.body s.st l q x.st := by
  induction h with
  | enter => exact ⟨_, rfl, .start⟩
  | other _ hr hu he ih =>
    obtain ⟨q, hq, h⟩ := ih
    obtain ⟨hc, hrel⟩ := step_other he hq hr hu
    exact ⟨q, hc.trans hq, h.rely hrel⟩
  | @call l x y c k _ hc he ih =>
    obtain ⟨q, hq, h⟩ := ih
    cases hc.symm.trans hq
    simp only [step, hc] at he
    cases he
    exact ⟨_, rfl, h.call⟩

theorem Completed.exec {l : Log A} {v : Ret} (h : Completed op s l v x) :
    Exec (setting ok op) op.body s.st l (.ret v) x.st := by
  obtain ⟨q, hq, he⟩ := section_exec ok h.inside
  cases h.ret.symm.trans hq
  exact he

theorem section_free {l : Log A} (h : Section op s l x) : s.crit = none := by
  induction h with
  | enter hc => exact hc
  | other _ _ _ _ ih => exact ih
  | call _ _ _ ih => exact ih

/-- In the state a section is entered in the invariant holds. -/
theorem section_inv {l : Log A} (h : Section op s l x) (hs : Reach Always s) : Inv s.st :=
  (held_free (any_kept _) trivial (reach_allowed hs) (section_free h)).2.1

theorem step_enters {q : M A Ret} (h : step x e = some y) (hx : x.crit = none) (hy : y.crit = some ⟨op, q⟩) :
    y = enter x op := by
  cases step_cases h with
  | cancelCallback g | call t m | lock op' =>
    cases hy
    rfl
  | run op' c k hc | unlock op' v hc =>
    rw [hx] at hc
    cases hc
  | _ => cases hx.symm.trans hy

theorem reach_section {q : M A Ret} (h : Reach Always x) (hc : x.crit = some ⟨op, q⟩) :
    ∃ s l, Reach Always s ∧ Section op s l x := by
  induction h generalizing op q with
  | refl => cases hc
  | @step x y e hx _ he ih =>
    cases hxc : x.crit with
    | none =>
      have hy := step_enters he hxc hc
      subst hy
      exact ⟨x, [], hx, .enter hxc he⟩
    | some c =>
      by_cases hr : e = .run
      · subst hr
        cases step_cases he with
        | run op' c k hc' =>
          cases hc
          obtain ⟨s, l, hs, h⟩ := ih hc'
          exact ⟨s, _, hs, h.call hc' he⟩
      by_cases hu : e = .unlock
      · subst hu
        cases step_cases he with
        | unlock op' v =>
          rw [leave_crit] at hc
          cases hc
      obtain ⟨hcrit, -⟩ := step_other he hxc hr hu
      obtain ⟨s, l, hs, h⟩ := ih (hcrit.symm.trans hc)
      exact ⟨s, l, hs, h.other hr hu he⟩

theorem reach_exec {q : M A Ret} (h : Reach Always x) (hc : x.crit = some ⟨op, q⟩) :
    ∃ s l, Inv s ∧ Exec (setting Anything op) op.body s l q x.st := by
  obtain ⟨y, l, hy, hl⟩ := reach_section h hc
  obtain ⟨q', hq, hex⟩ := section_exec Anything hl
  cases hc.symm.trans hq
  exact ⟨y.st, l, section_inv hl hy, hex⟩

/-- What holds of all calls of a section, whatever the state it is entered in, holds of the
    one it is about to make. -/
theorem reach_calls {G : Call A → St A → Prop} {c : Call A} {k : c.Res → M A Ret} (h : Reach Always x)
    (hc : x.crit = some ⟨op, .call c k⟩) (hG : ∀ s, Inv s → Calls (setting Anything op) G op.body s) : G c x.st := by
  obtain ⟨s, l, hs, hex⟩ := reach_exec h hc
  exact (calls_exec (hG s hs) hex (fun _ _ => trivial) x.st (.refl _) trivial).1

/-- Run events inside a section and list its calls. -/
def record (x : Sys A) : List (Ev A) → Option (Log A × Sys A)
  | [] => some ([], x)
  | .unlock :: _ => none
  | .run :: es =>
    match x.crit with
    | some ⟨_, .call c _⟩ => (step x .run).bind fun y => (record y es).map fun r => ((c, x.st) :: r.1, r.2)
    | _ => none
  | e :: es => (step x e).bind (record · es)

theorem section_record {l l' : Log A} (es : List (Ev A)) (h : Section op s l x) (hr : record x es = some (l', y)) :
    Section op s (l ++ l') y := by
  induction es generalizing x l l' with
  | nil =>
    cases hr
    rwa [List.append_nil]
  | cons e es ih =>
    unfold record at hr
    split at hr
    · rename_i he
      cases he
    · cases hr
    · rename_i he
      cases he
      split at hr
      · rename_i op' c k hc
        obtain ⟨q, hq, -⟩ := section_exec Anything h
        cases hc.symm.trans hq
        obtain ⟨y', hy, hr⟩ := Option.bind_eq_some_iff.mp hr
        obtain ⟨r, hrec, he⟩ := Option.map_eq_some_iff.mp hr
        cases he
        simpa using ih (h.call hc hy) hrec
      · cases hr
    · rename_i hu hr' he
      cases he
      obtain ⟨y', hy, hr⟩ := Option.bind_eq_some_iff.mp hr
      exact ih (h.other (fun e => hr' e) (fun e => hu e) hy) hr

end RttRos2.Actions
