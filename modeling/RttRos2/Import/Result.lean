/-
  RttRos2.Import.Result — what `rtt_ros2::import` returns, and what is imported then.

  On an acyclic graph, with a loader that imports the loadable packages and keeps what is
  imported (`Loader.Imports`):
  - `import_exact`: it returns true if and only if every package that can be reached is
    found and is rtt_ros2, already imported, or loadable; then all of them but rtt_ros2 are
    imported. It returns false otherwise, unless the empty name can be reached, for which
    `get_resource` throws.
  - whatever it returns, every package found was visited by the reverse pass, and those
    that can be imported are.

  The walk notes the missing packages (`drain_of_walk`), the reverse pass those that fail
  (`Imported`, from one turn to all of them by induction on the list, duplicates included).
-/

import RttRos2.Import.Order

namespace RttRos2.Import

open RttRos2.Lib

variable {σ : Type} {L : Loader σ} {loadable : Set String} {idx : AmentIndex} {package : String}

/-- The loadable packages are those whose import succeeds. What is imported stays so, and
    nothing else becomes imported. -/
structure Loader.Imports (L : Loader σ) (loadable : Set String) : Prop where
  done : ∀ s name paths, (L.importFrom s name paths).1 = true ↔ name ∈ loadable
  imported : ∀ s name paths, name ∈ loadable → L.isImported (L.importFrom s name paths).2 name = true
  kept : ∀ s name paths p, L.isImported s p = true → L.isImported (L.importFrom s name paths).2 p = true
  only : ∀ s name paths p, L.isImported (L.importFrom s name paths).2 p = true →
    L.isImported s p = true ∨ p ∈ loadable

/-- Nothing keeps the package from being imported. -/
def Importable (L : Loader σ) (loadable : Set String) (s : σ) (name : String) : Prop :=
  name = "rtt_ros2" ∨ L.isImported s name = true ∨ name ∈ loadable

/-! ## The reverse pass -/

/-- What the turns for `names` do. -/
structure Imported (L : Loader σ) (loadable : Set String) (names : List String) (p q : Pass σ) : Prop where
  kept : ∀ x, L.isImported p.loader x = true → L.isImported q.loader x = true
  only : ∀ x, L.isImported q.loader x = true → L.isImported p.loader x = true ∨ x ∈ loadable
  imported : ∀ x ∈ names, x ≠ "rtt_ros2" → Importable L loadable p.loader x → L.isImported q.loader x = true
  missing : q.missingPackages = [] ↔
    p.missingPackages = [] ∧ ∀ x ∈ names, Importable L loadable p.loader x

theorem Imported.importable {names : List String} {p q : Pass σ} (h : Imported L loadable names p q) (x : String) :
    Importable L loadable q.loader x ↔ Importable L loadable p.loader x := by
  constructor
  · rintro (hx | hx | hx)
    · exact Or.inl hx
    · exact Or.inr (h.only x hx)
    · exact Or.inr (Or.inr hx)
  · rintro (hx | hx | hx)
    · exact Or.inl hx
    · exact Or.inr (Or.inl (h.kept x hx))
    · exact Or.inr (Or.inr hx)

theorem Imported.nil (p : Pass σ) : Imported L loadable [] p p where
  kept _ h := h
  only _ h := Or.inl h
  imported x hx := absurd hx List.not_mem_nil
  missing := by simp

theorem Imported.cons {name : String} {names : List String} {p q r : Pass σ} (h1 : Imported L loadable [name] p q)
    (h2 : Imported L loadable names q r) : Imported L loadable (name :: names) p r where
  kept x hx := h2.kept x (h1.kept x hx)
  only x hx := by
    rcases h2.only x hx with hx | hx
    · exact h1.only x hx
    · exact Or.inr hx
  imported x hx hne hi := by
    rcases List.mem_cons.mp hx with rfl | hx
    · exact h2.kept x (h1.imported x (List.mem_singleton.mpr rfl) hne hi)
    · exact h2.imported x hx hne ((h1.importable x).mpr hi)
  missing := by
    rw [h2.missing, h1.missing, List.forall_mem_singleton, List.forall_mem_cons, and_assoc]
    simp only [h1.importable]

/-- One turn: the package is skipped, imported, or noted as missing. -/
theorem importOne_imported (h : L.Imports loadable) (paths : String) (p : Pass σ) (name : String) :
    Imported L loadable [name] p (p.importOne L paths name) := by
  unfold Pass.importOne
  split
  · rename_i hskip
    refine ⟨fun _ hx => hx, fun _ hx => Or.inl hx, ?_, ?_⟩
    · intro x hx hne _
      rw [List.mem_singleton.mp hx] at hne ⊢
      exact hskip.resolve_left hne
    · have hi : Importable L loadable p.loader name := hskip.elim Or.inl fun hs => Or.inr (Or.inl hs)
      simp [hi]
  · rename_i hskip
    rw [not_or] at hskip
    have hdone := h.done p.loader name paths
    have himported := h.imported p.loader name paths
    have hkept := h.kept p.loader name paths
    have honly := h.only p.loader name paths
    rcases hr : L.importFrom p.loader name paths with ⟨done, loader⟩
    simp only [hr] at hdone himported hkept honly
    cases done with
    | true =>
      have hl : name ∈ loadable := hdone.mp rfl
      refine ⟨hkept, honly, ?_, ?_⟩
      · intro x hx _ _
        rw [List.mem_singleton.mp hx]
        exact himported hl
      · have hi : Importable L loadable p.loader name := Or.inr (Or.inr hl)
        simp [hi]
    | false =>
      have hi : ¬ Importable L loadable p.loader name := by
        rintro (hx | hx | hx)
        · exact hskip.1 hx
        · exact hskip.2 hx
        · exact Bool.false_ne_true (hdone.mpr hx)
      refine ⟨hkept, honly, ?_, ?_⟩
      · intro x hx _ hix
        rw [List.mem_singleton.mp hx] at hix
        exact absurd hix hi
      · simp [hi, insert_ne_nil]

theorem importAll_imported (h : L.Imports loadable) (w : Walk) (loader : σ) :
    Imported L loadable w.depsToImport.reverse ⟨loader, w.missingPackages, []⟩ (importAll L w loader) := by
  have hfold : ∀ (paths : String) (names : List String) (p : Pass σ),
      Imported L loadable names p (names.foldl (Pass.importOne L paths) p) := by
    intro paths names
    induction names with
    | nil => exact .nil
    | cons name names ih => exact fun p => (importOne_imported h paths p name).cons (ih _)
  exact hfold _ _ _

/-! ## The result -/

/-- Every package that can be reached is found, and nothing keeps it from being imported. -/
def AllImportable (idx : AmentIndex) (L : Loader σ) (loadable : Set String) (loader : σ) (package : String) : Prop :=
  ∀ p, idx.Reaches package p → p ≠ "" ∧ idx.found p = true ∧ Importable L loadable loader p

/-- What holds when `import` has returned `b`. -/
structure Returned (idx : AmentIndex) (L : Loader σ) (loadable : Set String) (loader : σ) (package : String) (b : Bool)
    (r : Pass σ) : Prop where
  result : b = true ↔ AllImportable idx L loadable loader package
  /-- No package found is left out, whatever failed. -/
  visited : ∀ p, idx.Reaches package p → idx.found p = true → p ∈ r.names
  imported : ∀ p, idx.Reaches package p → idx.found p = true → p ≠ "rtt_ros2" →
    (L.isImported r.loader p = true ↔ Importable L loadable loader p)

theorem returned (h : L.Imports loadable) {loader : σ} {n : Nat} {b : Bool} {r : Pass σ}
    (hr : importPackage idx L n loader package = .finished (b, r)) : Returned idx L loadable loader package b r := by
  obtain ⟨w, hw, rfl, rfl⟩ := import_finished.mp hr
  obtain ⟨l, hl, he, hd, hmiss⟩ := drain_of_walk hw
  have hpass := importAll_imported h w loader
  have hnames : ∀ p, p ∈ w.depsToImport.reverse ↔ idx.Reaches package p ∧ idx.found p = true := by
    intro p
    rw [List.mem_reverse, hd, ← mem_drain_start hl]
    exact List.mem_filter
  refine ⟨?_, ?_, ?_⟩
  · rw [List.isEmpty_iff, hpass.missing, hmiss]
    constructor
    · rintro ⟨⟨-, hfound⟩, hall⟩ p hp
      have hm := (mem_drain_start hl p).mpr hp
      refine ⟨fun hempty => he (hempty ▸ hm), hfound p hm, ?_⟩
      exact hall p ((hnames p).mpr ⟨hp, hfound p hm⟩)
    · intro hall
      refine ⟨⟨rfl, fun p hp => (hall p ((mem_drain_start hl p).mp hp)).2.1⟩, ?_⟩
      intro p hp
      exact (hall p ((hnames p).mp hp).1).2.2
  · intro p hp hf
    rw [importAll_names]
    exact (hnames p).mpr ⟨hp, hf⟩
  · intro p hp hf hne
    constructor
    · exact fun hi => Or.inr (hpass.only p hi)
    · exact hpass.imported p ((hnames p).mpr ⟨hp, hf⟩) hne

/-- The result of `import`, for one request and one state of the loader. -/
structure ImportExact (idx : AmentIndex) (L : Loader σ) (loadable : Set String) (loader : σ) (package : String) :
    Prop where
  /-- It comes to an end. -/
  ends : ∃ n, importPackage idx L n loader package ≠ .running
  /-- Nothing but an empty name keeps it from returning. -/
  returns : (∃ n b r, importPackage idx L n loader package = .finished (b, r)) ↔
    ∀ p, idx.Reaches package p → p ≠ ""
  returnsTrue : (∃ n r, importPackage idx L n loader package = .finished (true, r)) ↔
    AllImportable idx L loadable loader package
  /-- After success everything is imported. -/
  success : ∀ n r, importPackage idx L n loader package = .finished (true, r) →
    ∀ p, idx.Reaches package p → p ≠ "rtt_ros2" → L.isImported r.loader p = true
  returned : ∀ n b r, importPackage idx L n loader package = .finished (b, r) →
    Returned idx L loadable loader package b r

theorem import_exact (idx : AmentIndex) (L : Loader σ) (loadable : Set String) (loader : σ) (package : String)
    (hacyclic : idx.Acyclic package) (hloader : L.Imports loadable) :
    ImportExact idx L loadable loader package := by
  have hends := (dependencies_first idx L loader package hacyclic).1
  have hreturns : (∃ n b r, importPackage idx L n loader package = .finished (b, r)) ↔
      ∀ p, idx.Reaches package p → p ≠ "" := by
    rw [← walk_finishes_iff hacyclic]
    constructor
    · rintro ⟨n, b, r, hr⟩
      obtain ⟨w, hw, -⟩ := import_finished.mp hr
      exact ⟨n, w, hw⟩
    · rintro ⟨n, w, hw⟩
      exact ⟨n, _, _, import_finished.mpr ⟨w, hw, rfl, rfl⟩⟩
  refine ⟨hends, hreturns, ?_, ?_, fun n b r => returned hloader⟩
  · constructor
    · rintro ⟨n, r, hr⟩
      exact (returned hloader hr).result.mp rfl
    · intro hall
      obtain ⟨n, b, r, hr⟩ := hreturns.mpr fun p hp => (hall p hp).1
      have hb := (returned hloader hr).result.mpr hall
      subst hb
      exact ⟨n, r, hr⟩
  · intro n r hr p hp hne
    have hret := returned hloader hr
    have hall := hret.result.mp rfl p hp
    exact (hret.imported p hp hall.2.1 hne).mpr hall.2.2

theorem exceptB_imports : exceptB.Imports {name | name ≠ "b"} where
  done s name paths := by
    by_cases hb : name = "b" <;> simp [exceptB, hb]
  imported s name paths hname := by
    have hb : name ≠ "b" := hname
    simp [exceptB, hb]
  kept s name paths p hp := by
    by_cases hb : name = "b"
    · simpa [exceptB, hb] using hp
    · have hp : p ∈ s := by simpa [exceptB] using hp
      simp [exceptB, hb, hp]
  only s name paths p hp := by
    by_cases hb : name = "b"
    · exact Or.inl (by simpa [exceptB, hb] using hp)
    · have hp : p = name ∨ p ∈ s := by simpa [exceptB, hb] using hp
      rcases hp with rfl | hp
      · exact Or.inr hb
      · exact Or.inl (by simpa [exceptB] using hp)

/-- "b" is not loadable, and "a" and "c" are imported all the same. -/
theorem import_exact_diamond :
    ImportExact diamond exceptB {name | name ≠ "b"} [] "a" ∧
      ∃ r, importPackage diamond exceptB 7 [] "a" = .finished (false, r) ∧ r.loader = ["a", "c", "d"] := by
  refine ⟨import_exact diamond exceptB _ [] "a" (diamond_acyclic "a") exceptB_imports, _, rfl, rfl⟩

end RttRos2.Import
