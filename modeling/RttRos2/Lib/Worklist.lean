/-
  RttRos2.Lib.Worklist — a walk over a graph with a queue and no record of what was
  visited.

  `drain next n q` takes items from the queue `q` one by one, appending the items next to
  each, until the queue is empty: the items taken, or `none` when `n` do not suffice. An
  item is taken once for every path that leads to it.
  - `drain_follows`: what is next to an item is taken after it, after each time the item is
    taken (`Follows`), and so is what can be reached from it. Read backwards, the first
    occurrence of an item comes after those of all it leads to (`Follows.idxOf_lt`).
  - `mem_drain`: the items taken are those that can be reached.
  - `drain_iff_acc`: the walk ends if and only if the graph is well founded below the
    queue, that is, when it is finite, if no cycle can be reached (`acc_iff_acyclic`).
-/

import Mathlib.Algebra.GroupWithZero.Nat
import Mathlib.Data.Fintype.Card
import Mathlib.Data.Set.Finite.List
import Mathlib.Logic.Relation

namespace RttRos2.Lib

open Relation

variable {α : Type}

/-! ## What follows in a list -/

/-- After each `x` of the list there is a `y`. -/
def Follows (l : List α) (x y : α) : Prop := ∀ xs ys, l = xs ++ x :: ys → y ∈ ys

theorem Follows.trans {l : List α} {x y z : α} (h1 : Follows l x y) (h2 : Follows l y z) : Follows l x z := by
  intro xs ys hl
  obtain ⟨as, bs, rfl⟩ := List.append_of_mem (h1 xs ys hl)
  have hz := h2 (xs ++ x :: as) bs (by rw [hl]; simp)
  exact List.mem_append_right _ (List.mem_cons_of_mem _ hz)

theorem Follows.filter {l : List α} {x y : α} (h : Follows l x y) {p : α → Bool} (hy : p y = true) :
    Follows (l.filter p) x y := by
  intro xs ys hl
  obtain ⟨l1, l2, rfl, -, h2⟩ := List.filter_eq_append_iff.mp hl
  obtain ⟨l3, l4, rfl, -, -, rfl⟩ := List.filter_eq_cons_iff.mp h2
  have := h (l1 ++ l3) l4 (by simp)
  exact List.mem_filter.mpr ⟨this, hy⟩

/-- Read backwards, the first `y` comes before the first `x`. -/
theorem Follows.idxOf_lt [BEq α] [LawfulBEq α] {l : List α} {x y : α} (h : Follows l x y) (hx : x ∈ l) :
    l.reverse.idxOf y < l.reverse.idxOf x := by
  obtain ⟨ys, xs, hr, hn⟩ := List.eq_append_cons_of_mem (List.mem_reverse.mpr hx)
  have hl : l = xs.reverse ++ x :: ys.reverse := by
    rw [← List.reverse_reverse l, hr]
    simp
  have hy : y ∈ ys := List.mem_reverse.mp (h _ _ hl)
  have hlt : ys.idxOf y < ys.length := List.idxOf_lt_length_of_mem hy
  rw [hr, List.idxOf_append, List.idxOf_append, if_pos hy, if_neg hn, List.idxOf_cons_self]
  omega

/-! ## The walk -/

variable {next : α → List α}

/-- The items taken from the queue, at most `n`. -/
def drain (next : α → List α) : Nat → List α → Option (List α)
  | _, [] => some []
  | 0, _ :: _ => none
  | n + 1, x :: q => (drain next n (q ++ next x)).map (x :: ·)

/-- `y` is next to `x`. -/
def Next (next : α → List α) (x y : α) : Prop := y ∈ next x

theorem drain_cons {n : Nat} {x : α} {q l : List α} (h : drain next n (x :: q) = some l) :
    ∃ m r, n = m + 1 ∧ l = x :: r ∧ drain next m (q ++ next x) = some r := by
  cases n with
  | zero => cases h
  | succ m =>
    obtain ⟨r, hr, rfl⟩ := Option.map_eq_some_iff.mp h
    exact ⟨m, r, rfl, rfl, hr⟩

theorem queue_subset {n : Nat} {q l : List α} (h : drain next n q = some l) : q ⊆ l := by
  induction n generalizing q l with
  | zero =>
    cases q with
    | nil => exact List.nil_subset _
    | cons x q => cases h
  | succ n ih =>
    cases q with
    | nil => exact List.nil_subset _
    | cons x q =>
      obtain ⟨m, r, hm, rfl, hr⟩ := drain_cons h
      cases hm
      intro y hy
      rcases List.mem_cons.mp hy with rfl | hy
      · exact List.mem_cons_self
      · exact List.mem_cons_of_mem _ (ih hr (List.mem_append_left _ hy))

theorem drain_follows {n : Nat} {q l : List α} (h : drain next n q = some l) {x y : α} (hxy : Next next x y) :
    Follows l x y := by
  induction n generalizing q l with
  | zero =>
    cases q with
    | nil => cases h; intro xs ys hl; simp at hl
    | cons z q => cases h
  | succ n ih =>
    cases q with
    | nil => cases h; intro xs ys hl; simp at hl
    | cons z q =>
      obtain ⟨m, r, hm, rfl, hr⟩ := drain_cons h
      cases hm
      intro xs ys hl
      cases xs with
      | nil =>
        rw [List.nil_append, List.cons.injEq] at hl
        obtain ⟨rfl, rfl⟩ := hl
        exact queue_subset hr (List.mem_append_right _ hxy)
      | cons w xs =>
        rw [List.cons_append, List.cons.injEq] at hl
        exact ih hr xs ys hl.2

theorem drain_reach_follows {n : Nat} {q l : List α} (h : drain next n q = some l) {x y : α}
    (hxy : TransGen (Next next) x y) : Follows l x y := by
  induction hxy with
  | single hxy => exact drain_follows h hxy
  | tail _ hyz ih => exact ih.trans (drain_follows h hyz)

/-- What is taken can be reached from the queue, and the other way round. -/
theorem mem_drain {n : Nat} {q l : List α} (h : drain next n q = some l) {y : α} :
    y ∈ l ↔ ∃ x ∈ q, ReflTransGen (Next next) x y := by
  constructor
  · intro hy
    induction n generalizing q l with
    | zero =>
      cases q with
      | nil => cases h; cases hy
      | cons z q => cases h
    | succ n ih =>
      cases q with
      | nil => cases h; cases hy
      | cons z q =>
        obtain ⟨m, r, hm, rfl, hr⟩ := drain_cons h
        cases hm
        rcases List.mem_cons.mp hy with rfl | hy
        · exact ⟨y, List.mem_cons_self, .refl⟩
        · obtain ⟨x, hx, hxy⟩ := ih hr hy
          rcases List.mem_append.mp hx with hx | hx
          · exact ⟨x, List.mem_cons_of_mem _ hx, hxy⟩
          · exact ⟨z, List.mem_cons_self, .head hx hxy⟩
  · rintro ⟨x, hx, hxy⟩
    have hxl := queue_subset h hx
    rcases reflTransGen_iff_eq_or_transGen.mp hxy with rfl | hxy
    · exact hxl
    · obtain ⟨xs, ys, rfl⟩ := List.append_of_mem hxl
      exact List.mem_append_right _ (List.mem_cons_of_mem _ (drain_reach_follows h hxy xs ys rfl))

/-! ## Termination -/

/-- `n` items are taken for `x`, itself included: one for each path from it. -/
inductive Paths (next : α → List α) : α → Nat → Prop
  | mk (x : α) (ns : List Nat) : List.Forall₂ (Paths next) (next x) ns → Paths next x (ns.sum + 1)

theorem paths_list {l : List α} (h : ∀ x ∈ l, ∃ n, Paths next x n) : ∃ ns, List.Forall₂ (Paths next) l ns := by
  induction l with
  | nil => exact ⟨[], .nil⟩
  | cons x l ih =>
    obtain ⟨n, hn⟩ := h x List.mem_cons_self
    obtain ⟨ns, hns⟩ := ih fun y hy => h y (List.mem_cons_of_mem _ hy)
    exact ⟨n :: ns, .cons hn hns⟩

theorem paths_of_acc {x : α} (h : Acc (fun y x => Next next x y) x) : ∃ n, Paths next x n := by
  induction h with
  | intro x _ ih =>
    obtain ⟨ns, hns⟩ := paths_list ih
    exact ⟨_, .mk x ns hns⟩

/-- Each item taken is one less to take. -/
theorem drain_of_paths {n : Nat} {q : List α} {ns : List Nat} (h : List.Forall₂ (Paths next) q ns)
    (hn : ns.sum ≤ n) : ∃ l, drain next n q = some l := by
  induction n generalizing q ns with
  | zero =>
    cases h with
    | nil => exact ⟨[], rfl⟩
    | cons hx hq =>
      cases hx
      simp at hn
  | succ n ih =>
    cases h with
    | nil => exact ⟨[], rfl⟩
    | @cons x k q ks hx hq =>
      cases hx with
      | mk _ ms hms =>
        have hsum : (ks ++ ms).sum ≤ n := by
          simp only [List.sum_cons] at hn
          rw [List.sum_append]
          omega
        obtain ⟨l, hl⟩ := ih (List.rel_append hq hms) hsum
        exact ⟨x :: l, by rw [drain, hl]; rfl⟩

/-- What is taken last is next to nothing that is left. -/
theorem acc_of_drain {n : Nat} {q l : List α} (h : drain next n q = some l) :
    ∀ x ∈ l, Acc (fun y x => Next next x y) x := by
  have hsuffix : ∀ xs ys, l = xs ++ ys → ∀ x ∈ ys, Acc (fun y x => Next next x y) x := by
    intro xs ys
    induction ys generalizing xs with
    | nil => exact fun _ _ hx => nomatch hx
    | cons z ys ih =>
      intro hl
      have hys := ih (xs ++ [z]) (by rw [hl]; simp)
      intro x hx
      rcases List.mem_cons.mp hx with rfl | hx
      · exact .intro x fun y hy => hys y (drain_follows h hy xs ys hl)
      · exact hys x hx
  exact hsuffix [] l rfl

theorem drain_iff_acc {q : List α} :
    (∃ n l, drain next n q = some l) ↔ ∀ x ∈ q, Acc (fun y x => Next next x y) x := by
  constructor
  · rintro ⟨n, l, h⟩ x hx
    exact acc_of_drain h x (queue_subset h hx)
  · intro h
    obtain ⟨ns, hns⟩ := paths_list fun x hx => paths_of_acc (h x hx)
    obtain ⟨l, hl⟩ := drain_of_paths hns (Nat.le_refl _)
    exact ⟨_, l, hl⟩

/-- On a finite graph: only the items of `S` have something next to them. -/
theorem acc_iff_acyclic {S : List α} (hS : ∀ x, next x ≠ [] → x ∈ S) {x : α} :
    Acc (fun y x => Next next x y) x ↔ ∀ y, ReflTransGen (Next next) x y → ¬ TransGen (Next next) y y := by
  constructor
  · intro h
    induction h with
    | intro x _ ih =>
      intro y hxy hy
      rcases ReflTransGen.cases_head hxy with rfl | ⟨z, hxz, hzy⟩
      · -- a cycle through `x` passes an item next to it
        obtain ⟨z, hxz, hzx⟩ := TransGen.head'_iff.mp hy
        exact ih z hxz x hzx hy
      · exact ih z hxz y hzy hy
  · intro h
    let T := { y : α // ReflTransGen (Next next) x y }
    have hfin : Finite T := by
      refine ((x :: S.flatMap next).finite_toSet.subset ?_).to_subtype
      intro y hy
      rcases ReflTransGen.cases_tail hy with rfl | ⟨z, -, hzy⟩
      · exact List.mem_cons_self
      · have hz : z ∈ S := hS z (List.ne_nil_of_mem hzy)
        exact List.mem_cons_of_mem _ (List.mem_flatMap.mpr ⟨z, hz, hzy⟩)
    let r : T → T → Prop := fun a b => TransGen (Next next) b.1 a.1
    have : IsTrans T r := ⟨fun a b c h1 h2 => TransGen.trans h2 h1⟩
    have : Std.Irrefl r := ⟨fun a ha => h a.1 a.2 ha⟩
    have hwf := Finite.wellFounded_of_trans_of_irrefl r
    have hacc : ∀ t : T, Acc (fun y x => Next next x y) t.1 := by
      intro t
      induction t using hwf.induction with
      | _ t ih => exact .intro _ fun y hy => ih ⟨y, t.2.tail hy⟩ (.single hy)
    exact hacc ⟨x, .refl⟩

/-- A rank that decreases along the graph excludes cycles. -/
theorem acyclic_of_rank {rank : α → Nat} (h : ∀ x y, Next next x y → rank y < rank x) {x y : α}
    (hxy : TransGen (Next next) x y) : rank y < rank x := by
  induction hxy with
  | single h1 => exact h _ _ h1
  | tail _ h1 ih => exact Nat.lt_trans (h _ _ h1) ih

end RttRos2.Lib
