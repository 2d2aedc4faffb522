/-
  RttRos2.Import.Order — when the walk of `rtt_ros2::import` ends, and the order in which
  it has packages imported.

  - `dependencies_first`: on an acyclic graph the walk ends, and the reverse pass visits a
    package for the first time only after every package found that it depends on. The
    walk appends a package once for every path to it, so its last place in the list comes
    before the last place of what it depends on; without the duplicates this would fail.
  - `walk_ends_iff`: the walk empties its queue if and only if no package that can be
    reached depends on itself or has the empty name. A package that lists itself is
    taken from the queue and appended again for ever (`self_dependent_never_ends`).

  The walk is `drain` of the graph, the packages found filtered from what is taken
  (`walk_of_drain`, `drain_of_walk`).
-/

import RttRos2.Import.Package

namespace RttRos2.Import

open RttRos2.Lib Relation

variable {idx : AmentIndex} {package : String} {w w' : Walk} {n : Nat}

/-! ## The walk as a drain -/

/-- What one turn of the loop does: it throws, or appends the dependencies to the queue and
    the package to the list, or, when it is not found, to the missing ones. -/
theorem visit_spec (idx : AmentIndex) (w : Walk) (depName : String) :
    (depName = "" ∧ w.visit idx depName = none) ∨
    depName ≠ "" ∧ ∃ w', w.visit idx depName = some w' ∧ w'.depNames = w.depNames ++ idx.depends depName ∧
      w'.depsToImport = w.depsToImport ++ [depName].filter idx.found ∧
      w'.missingPackages = if idx.found depName then w.missingPackages else w.missingPackages.insert depName := by
  by_cases he : depName = ""
  · exact Or.inl ⟨he, if_pos he⟩
  · refine Or.inr ⟨he, ?_⟩
    unfold Walk.visit AmentIndex.depends
    rw [if_neg he]
    cases hr : idx.pluginDepends depName with
    | some r =>
      have hf : idx.found depName = true := by simp [AmentIndex.found, hr]
      exact ⟨_, rfl, rfl, by simp [hf], by simp [hf]⟩
    | none =>
      cases hd : idx.packageShareDirectory depName with
      | none =>
        have hf : idx.found depName = false := by simp [AmentIndex.found, hr, hd]
        exact ⟨_, rfl, by simp, by simp [hf], by simp [hf]⟩
      | some dir =>
        simp only
        cases hx : idx.packageXml (join dir "package.xml") with
        | none =>
          have hf : idx.found depName = false := by simp [AmentIndex.found, hr, hd, hx]
          exact ⟨_, rfl, by simp, by simp [hf], by simp [hf]⟩
        | some depends =>
          have hf : idx.found depName = true := by simp [AmentIndex.found, hr, hd, hx]
          exact ⟨_, rfl, rfl, by simp [hf], by simp [hf]⟩

theorem insert_ne_nil {l : List String} {name : String} : l.insert name ≠ [] :=
  List.ne_nil_of_mem (List.mem_insert_self ..)

theorem drain_of_walk (h : walk idx n w = .finished w') :
    ∃ l, drain idx.depends n w.depNames = some l ∧ "" ∉ l ∧
      w'.depsToImport = w.depsToImport ++ l.filter idx.found ∧
      (w'.missingPackages = [] ↔ w.missingPackages = [] ∧ ∀ p ∈ l, idx.found p = true) := by
  induction n generalizing w with
  | zero =>
    simp only [walk] at h
    split at h
    · rename_i he
      cases h
      rw [List.isEmpty_iff.mp he]
      exact ⟨[], rfl, by simp, by simp, by simp⟩
    · cases h
  | succ n ih =>
    simp only [walk] at h
    split at h
    · rename_i hq
      cases h
      rw [hq]
      exact ⟨[], rfl, by simp, by simp, by simp⟩
    · rename_i depName rest hq
      rcases visit_spec idx { w with depNames := rest } depName with ⟨-, hv⟩ | ⟨hne, u, hv, hn, hi, hm⟩
      · rw [hv] at h
        cases h
      · rw [hv] at h
        obtain ⟨l, hl, he, hw, hmiss⟩ := ih h
        rw [hn] at hl
        refine ⟨depName :: l, by rw [hq, drain, hl]; rfl, ?_, ?_, ?_⟩
        · intro hm
          rcases List.mem_cons.mp hm with hm | hm
          · exact hne hm.symm
          · exact he hm
        · rw [hw, hi, List.append_assoc, ← List.filter_append]
          rfl
        · rw [hmiss, hm, List.forall_mem_cons]
          cases hf : idx.found depName with
          | true => simp
          | false => simp [insert_ne_nil]

theorem walk_of_drain {l : List String} (h : drain idx.depends n w.depNames = some l) :
    walk idx n w ≠ .running ∧ ("" ∉ l → ∃ w', walk idx n w = .finished w') := by
  induction n generalizing w l with
  | zero =>
    cases hq : w.depNames with
    | nil => simp [walk, hq]
    | cons depName rest =>
      rw [hq] at h
      cases h
  | succ n ih =>
    cases hq : w.depNames with
    | nil => simp [walk, hq]
    | cons depName rest =>
      rw [hq] at h
      obtain ⟨m, r, hm, rfl, hr⟩ := drain_cons h
      cases hm
      simp only [walk, hq]
      rcases visit_spec idx { w with depNames := rest } depName with ⟨he, hv⟩ | ⟨-, u, hv, hn, -, -⟩
      · rw [hv]
        refine ⟨nofun, fun hl => ?_⟩
        rw [he] at hl
        exact absurd List.mem_cons_self hl
      · rw [hv]
        rw [← hn] at hr
        obtain ⟨h1, h2⟩ := ih hr
        exact ⟨h1, fun hl => h2 fun hm => hl (List.mem_cons_of_mem _ hm)⟩

/-- The walk comes to an end, possibly by throwing, unless a cycle can be reached. -/
theorem acyclic_drains (idx : AmentIndex) (package : String) :
    (∃ n l, drain idx.depends n [package] = some l) ↔ idx.Acyclic package := by
  rw [drain_iff_acc]
  simp only [List.mem_singleton, forall_eq]
  exact acc_iff_acyclic idx.depends_finite

/-- The packages taken are those that can be reached. -/
theorem mem_drain_start {l : List String} (h : drain idx.depends n [package] = some l) (p : String) :
    p ∈ l ↔ idx.Reaches package p := by
  rw [mem_drain h]
  simp only [List.mem_singleton, exists_eq_left]
  exact Iff.rfl

/-! ## Termination -/

/-- The only package depends on itself. -/
def selfDependent : AmentIndex where
  pluginDepends name := if name = "a" then some ⟨"a", "/opt"⟩ else none
  packageShareDirectory _ := none
  packagePrefix _ := ""
  packageXml _ := none
  packages := ["a"]
  finite name h := by
    by_cases hn : name = "a"
    · exact List.mem_singleton.mpr hn
    · simp [hn] at h

theorem self_dependent_never_ends : ¬ ∃ n w, walk selfDependent n (start "a") = .finished w := by
  have hrun : ∀ n w, w.depNames = ["a"] → walk selfDependent n w = .running := by
    intro n
    induction n with
    | zero =>
      intro w hw
      simp [walk, hw]
    | succ n ih =>
      intro w hw
      simp only [walk, hw]
      exact ih _ rfl
  rintro ⟨n, w, h⟩
  rw [hrun n (start "a") rfl] at h
  cases h

/-- On an acyclic graph only an empty name keeps the walk from finishing. -/
theorem walk_finishes_iff (h : idx.Acyclic package) :
    (∃ n w, walk idx n (start package) = .finished w) ↔ ∀ p, idx.Reaches package p → p ≠ "" := by
  constructor
  · rintro ⟨n, w, hw⟩ p hp rfl
    obtain ⟨l, hl, he, -⟩ := drain_of_walk hw
    exact he ((mem_drain_start hl "").mpr hp)
  · intro hne
    obtain ⟨n, l, hl⟩ := (acyclic_drains idx package).mpr h
    obtain ⟨w, hw⟩ := (walk_of_drain (w := start package) hl).2 fun hm => hne "" ((mem_drain_start hl "").mp hm) rfl
    exact ⟨n, w, hw⟩

theorem walk_ends_iff (idx : AmentIndex) (package : String) :
    (∃ n w, walk idx n (start package) = .finished w) ↔
      ∀ p, idx.Reaches package p → p ≠ "" ∧ ¬ idx.DependsOn p p := by
  constructor
  · intro hends
    obtain ⟨n, w, hw⟩ := hends
    obtain ⟨l, hl, -⟩ := drain_of_walk hw
    have hacyclic := (acyclic_drains idx package).mp ⟨n, l, hl⟩
    exact fun p hp => ⟨(walk_finishes_iff hacyclic).mp ⟨n, w, hw⟩ p hp, hacyclic p hp⟩
  · intro h
    exact (walk_finishes_iff fun p hp => (h p hp).2).mpr fun p hp => (h p hp).1

/-! ## The order -/

variable {σ : Type}

/-- The packages the reverse pass visits, in order. -/
def Pass.names (p : Pass σ) : List String := p.visits.map Prod.fst

theorem importOne_names (L : Loader σ) (paths : String) (p : Pass σ) (name : String) :
    (p.importOne L paths name).names = p.names ++ [name] := by
  unfold Pass.importOne Pass.names
  split
  · simp
  · rcases L.importFrom p.loader name paths with ⟨done, loader⟩
    cases done <;> simp

theorem importAll_names (L : Loader σ) (w : Walk) (loader : σ) :
    (importAll L w loader).names = w.depsToImport.reverse := by
  have hfold : ∀ (paths : String) (l : List String) (p : Pass σ),
      (l.foldl (Pass.importOne L paths) p).names = p.names ++ l := by
    intro paths l
    induction l with
    | nil =>
      intro p
      exact (List.append_nil _).symm
    | cons name l ih =>
      intro p
      rw [List.foldl_cons, ih, importOne_names, List.append_assoc]
      rfl
  exact hfold _ _ _

theorem import_finished {L : Loader σ} {loader : σ} {b : Bool} {r : Pass σ} :
    importPackage idx L n loader package = .finished (b, r) ↔
      ∃ w, walk idx n (start package) = .finished w ∧ r = importAll L w loader ∧ b = r.missingPackages.isEmpty := by
  unfold importPackage
  constructor
  · intro h
    split at h
    · cases h
    · cases h
    · rename_i w hw
      cases h
      exact ⟨w, hw, rfl, rfl⟩
  · rintro ⟨w, hw, rfl, rfl⟩
    rw [hw]

/-- Visited are the packages found, each for the first time after all that it depends on. -/
structure DependenciesFirst (idx : AmentIndex) (package : String) (names : List String) : Prop where
  visited : ∀ p, p ∈ names ↔ idx.Reaches package p ∧ idx.found p = true
  first : ∀ p ∈ names, ∀ d, idx.DependsOn p d → idx.found d = true → names.idxOf d < names.idxOf p

theorem dependencies_first (idx : AmentIndex) (L : Loader σ) (loader : σ) (package : String)
    (h : idx.Acyclic package) :
    (∃ n, importPackage idx L n loader package ≠ .running) ∧
      ∀ n b r, importPackage idx L n loader package = .finished (b, r) →
        DependenciesFirst idx package r.names := by
  refine ⟨?_, fun n b r hr => ?_⟩
  · obtain ⟨n, l, hl⟩ := (acyclic_drains idx package).mpr h
    have hw := (walk_of_drain (w := start package) hl).1
    refine ⟨n, ?_⟩
    unfold importPackage
    split
    · rename_i he
      exact absurd he hw
    · exact nofun
    · exact nofun
  · obtain ⟨w, hw, rfl, -⟩ := import_finished.mp hr
    obtain ⟨l, hl, -, hd, -⟩ := drain_of_walk hw
    rw [importAll_names, hd]
    refine ⟨fun p => ?_, fun p hp d hpd hf => ?_⟩
    · rw [List.mem_reverse]
      show p ∈ l.filter idx.found ↔ _
      rw [List.mem_filter, mem_drain_start hl]
    · exact ((drain_reach_follows hl hpd).filter hf).idxOf_lt (List.mem_reverse.mp hp)

/-- "a" depends on "b" and "c", both on "d"; "d" is found by its package.xml, and needs a
    package that is missing. -/
def diamond : AmentIndex where
  pluginDepends name :=
    if name = "a" then some ⟨"b;c", "/opt/a"⟩
    else if name = "b" ∨ name = "c" then some ⟨"d", "/opt/bc"⟩
    else none
  packageShareDirectory name := if name = "d" then some "/opt/d/share/d" else none
  packagePrefix _ := "/opt/d"
  packageXml _ := some ["e"]
  packages := ["a", "b", "c", "d"]
  finite name h := by
    by_cases ha : name = "a"
    · simp [ha]
    · by_cases hbc : name = "b" ∨ name = "c"
      · rcases hbc with rfl | rfl <;> decide
      · by_cases hd : name = "d"
        · simp [hd]
        · simp [ha, hbc, hd] at h

def diamondRank (name : String) : Nat :=
  if name = "a" then 3 else if name = "b" ∨ name = "c" then 2 else if name = "d" then 1 else 0

theorem diamond_acyclic (package : String) : diamond.Acyclic package := by
  intro p _ hp
  have hrank : ∀ x y, Next diamond.depends x y → diamondRank y < diamondRank x := by
    intro x y hxy
    unfold Next AmentIndex.depends diamond at hxy
    by_cases ha : x = "a"
    · subst ha
      have : y ∈ ["b", "c"] := hxy
      simp only [List.mem_cons, List.not_mem_nil, or_false] at this
      rcases this with rfl | rfl <;> decide
    · by_cases hbc : x = "b" ∨ x = "c"
      · have hy : y ∈ ["d"] := by
          rcases hbc with rfl | rfl <;> exact hxy
        rw [List.mem_singleton.mp hy]
        rcases hbc with rfl | rfl <;> decide
      · by_cases hd : x = "d"
        · subst hd
          have hy : y ∈ ["e"] := hxy
          rw [List.mem_singleton.mp hy]
          decide
        · simp [ha, hbc, hd] at hxy
  exact Nat.lt_irrefl _ (acyclic_of_rank hrank hp)

/-- Imports every package but "b". -/
def exceptB : Loader (List String) where
  componentPath _ := ""
  isImported s name := name ∈ s
  importFrom s name _ := if name = "b" then (false, s) else (true, name :: s)

theorem dependencies_first_diamond :
    ∃ b r, importPackage diamond exceptB 7 [] "a" = .finished (b, r) ∧ r.names = ["d", "d", "c", "b", "a"] ∧
      r.missingPackages = ["b", "e"] ∧ DependenciesFirst diamond "a" r.names :=
  ⟨_, _, rfl, rfl, rfl, (dependencies_first diamond exceptB [] "a" (diamond_acyclic "a")).2 7 _ _ rfl⟩

end RttRos2.Import
