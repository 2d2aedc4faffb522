/-
  RttRos2.Import.Repeat — imports one after the other.

  The deployer's scripts call `ros.import` many times, for packages that share what they
  depend on. The loader keeps what is imported, so the requests do not disturb each other:
  - `requests_agree`: two sequences of imports that begin alike, whatever their order and
    however often one is repeated, agree on every package that both import: on the result,
    and on what is imported below it in the end. Each request returns what it would return
    on its own (`requests_independent`).
  - `import_again`: once an import has returned true, one of any package below it returns
    true and leaves the loader alone: each package is found to be imported.

  What the requests before it have added is loadable (`Later`), hence was importable all
  along.
-/

import RttRos2.Import.Result

namespace RttRos2.Import

open RttRos2.Lib

variable {σ : Type} {L : Loader σ} {loadable : Set String} {idx : AmentIndex} {s t u : σ} {l : List (String × Bool)}

/-- Imports that returned, each with its result, from one state of the loader to another. -/
inductive Requests (idx : AmentIndex) (L : Loader σ) : σ → List (String × Bool) → σ → Prop
  | nil (s : σ) : Requests idx L s [] s
  | cons {s t : σ} {n : Nat} {package : String} {b : Bool} {r : Pass σ} {l : List (String × Bool)} :
      importPackage idx L n s package = .finished (b, r) → Requests idx L r.loader l t →
      Requests idx L s ((package, b) :: l) t

/-- Nothing is lost between two states of the loader, and what is new is loadable. -/
structure Later (L : Loader σ) (loadable : Set String) (s t : σ) : Prop where
  kept : ∀ x, L.isImported s x = true → L.isImported t x = true
  only : ∀ x, L.isImported t x = true → L.isImported s x = true ∨ x ∈ loadable

theorem Later.refl (s : σ) : Later L loadable s s := ⟨fun _ h => h, fun _ h => Or.inl h⟩

theorem Later.trans (h : Later L loadable s t) (h' : Later L loadable t u) : Later L loadable s u where
  kept x hx := h'.kept x (h.kept x hx)
  only x hx := by
    rcases h'.only x hx with hx | hx
    · exact h.only x hx
    · exact Or.inr hx

theorem Later.importable (h : Later L loadable s t) (x : String) :
    Importable L loadable t x ↔ Importable L loadable s x :=
  have hnone : Imported L loadable [] ⟨s, [], []⟩ ⟨t, [], []⟩ :=
    ⟨h.kept, h.only, fun _ hx => absurd hx List.not_mem_nil, by simp⟩
  hnone.importable x

theorem Later.allImportable (h : Later L loadable s t) (package : String) :
    AllImportable idx L loadable t package ↔ AllImportable idx L loadable s package := by
  unfold AllImportable
  simp only [h.importable]

theorem import_later (hloader : L.Imports loadable) {n : Nat} {package : String} {b : Bool} {r : Pass σ}
    (h : importPackage idx L n s package = .finished (b, r)) : Later L loadable s r.loader := by
  obtain ⟨w, -, rfl, -⟩ := import_finished.mp h
  have hpass := importAll_imported hloader w s
  exact ⟨hpass.kept, hpass.only⟩

/-! ## Any order, any number of times -/

/-- What a sequence of imports has done. -/
structure Independent (idx : AmentIndex) (L : Loader σ) (loadable : Set String) (s t : σ)
    (l : List (String × Bool)) : Prop where
  later : Later L loadable s t
  result : ∀ q ∈ l, q.2 = true ↔ AllImportable idx L loadable s q.1
  imported : ∀ q ∈ l, ∀ x, idx.Reaches q.1 x → idx.found x = true → x ≠ "rtt_ros2" →
    (L.isImported t x = true ↔ Importable L loadable s x)

/-- One request before the others. -/
theorem Independent.cons {n : Nat} {package : String} {b : Bool} {r : Pass σ} (hloader : L.Imports loadable)
    (h : importPackage idx L n s package = .finished (b, r)) (ih : Independent idx L loadable r.loader t l) :
    Independent idx L loadable s t ((package, b) :: l) := by
  have hlater := import_later hloader h
  have hret := returned hloader h
  refine ⟨hlater.trans ih.later, ?_, ?_⟩
  · rw [List.forall_mem_cons]
    refine ⟨hret.result, fun q hq => ?_⟩
    rw [ih.result q hq, hlater.allImportable]
  · rw [List.forall_mem_cons]
    refine ⟨fun x hx hf hne => ?_, fun q hq x hx hf hne => ?_⟩
    · -- what is imported at the end was imported by then, or is loadable
      constructor
      · intro hi
        exact ((hlater.trans ih.later).importable x).mp (Or.inr (Or.inl hi))
      · intro hi
        exact ih.later.kept x ((hret.imported x hx hf hne).mpr hi)
    · rw [ih.imported q hq x hx hf hne, hlater.importable]

theorem requests_independent (hloader : L.Imports loadable) (h : Requests idx L s l t) :
    Independent idx L loadable s t l := by
  induction h with
  | nil s => exact ⟨.refl s, by simp, by simp⟩
  | cons hr _ ih => exact .cons hloader hr ih

/-- What two sequences that begin alike say of a package both have imported. -/
structure Agree (idx : AmentIndex) (L : Loader σ) (t t' : σ) (package : String) (b b' : Bool) : Prop where
  result : b = b'
  imported : ∀ x, idx.Reaches package x → idx.found x = true → x ≠ "rtt_ros2" →
    L.isImported t x = L.isImported t' x

theorem requests_agree (idx : AmentIndex) (L : Loader σ) (loadable : Set String) (hloader : L.Imports loadable)
    (s t t' : σ) (l l' : List (String × Bool)) (h : Requests idx L s l t) (h' : Requests idx L s l' t')
    (package : String) (b b' : Bool) (hb : (package, b) ∈ l) (hb' : (package, b') ∈ l') :
    Agree idx L t t' package b b' := by
  have hl := requests_independent hloader h
  have hl' := requests_independent hloader h'
  constructor
  · have hr : b = true ↔ b' = true := (hl.result _ hb).trans (hl'.result _ hb').symm
    exact Bool.eq_iff_iff.mpr hr
  · intro x hx hf hne
    have hi : L.isImported t x = true ↔ L.isImported t' x = true :=
      (hl.imported _ hb x hx hf hne).trans (hl'.imported _ hb' x hx hf hne).symm
    exact Bool.eq_iff_iff.mpr hi

/-- "a" alone, and after what it has in common with "c". -/
theorem requests_agree_diamond :
    ∃ t t', Requests diamond exceptB [] [("a", false)] t ∧
      Requests diamond exceptB [] [("c", false), ("c", false), ("a", false)] t' ∧
      Agree diamond exceptB t t' "a" false false := by
  have h : Requests diamond exceptB [] [("a", false)] ["a", "c", "d"] := .cons (n := 7) rfl (.nil _)
  have h' : Requests diamond exceptB [] [("c", false), ("c", false), ("a", false)] ["a", "c", "d"] :=
    .cons (n := 3) rfl (.cons (n := 3) rfl (.cons (n := 7) rfl (.nil _)))
  refine ⟨_, _, h, h', ?_⟩
  exact requests_agree diamond exceptB _ exceptB_imports [] _ _ _ _ h h' "a" false false (by simp) (by simp)

/-! ## Once more -/

/-- The reverse pass when nothing is left to do. -/
theorem importAll_skips {w : Walk} (h : ∀ x ∈ w.depsToImport, x = "rtt_ros2" ∨ L.isImported s x = true) :
    (importAll L w s).loader = s ∧ (importAll L w s).missingPackages = w.missingPackages ∧
      ∀ v ∈ (importAll L w s).visits, v.2 = .alreadyImported := by
  have hfold : ∀ (paths : String) (names : List String) (p : Pass σ), p.loader = s →
      (∀ x ∈ names, x = "rtt_ros2" ∨ L.isImported s x = true) → (∀ v ∈ p.visits, v.2 = .alreadyImported) →
      (names.foldl (Pass.importOne L paths) p).loader = s ∧
        (names.foldl (Pass.importOne L paths) p).missingPackages = p.missingPackages ∧
        ∀ v ∈ (names.foldl (Pass.importOne L paths) p).visits, v.2 = .alreadyImported := by
    intro paths names
    induction names with
    | nil => exact fun p hp _ hv => ⟨hp, rfl, hv⟩
    | cons name names ih =>
      intro p hp hnames hv
      rw [List.forall_mem_cons] at hnames
      have hone : p.importOne L paths name = { p with visits := p.visits ++ [(name, .alreadyImported)] } := by
        unfold Pass.importOne
        rw [hp, if_pos hnames.1]
      rw [List.foldl_cons, hone]
      refine ih _ hp hnames.2 ?_
      rw [List.forall_mem_append]
      exact ⟨hv, List.forall_mem_singleton.mpr rfl⟩
  exact hfold _ _ _ rfl (fun x hx => h x (List.mem_reverse.mp hx)) (by simp)

/-- Nothing is to be imported any more, and the walk comes to its end. -/
structure Again (idx : AmentIndex) (L : Loader σ) (t : σ) (package : String) : Prop where
  returns : ∃ n b r, importPackage idx L n t package = .finished (b, r)
  same : ∀ n b r, importPackage idx L n t package = .finished (b, r) →
    b = true ∧ r.loader = t ∧ ∀ v ∈ r.visits, v.2 = .alreadyImported

theorem again {q : String} (hacyclic : idx.Acyclic q)
    (h : ∀ x, idx.Reaches q x → x ≠ "" ∧ idx.found x = true ∧ (x = "rtt_ros2" ∨ L.isImported t x = true)) :
    Again idx L t q := by
  constructor
  · obtain ⟨n, w, hw⟩ := (walk_finishes_iff hacyclic).mpr fun x hx => (h x hx).1
    exact ⟨n, _, _, import_finished.mpr ⟨w, hw, rfl, rfl⟩⟩
  · intro n b r hr
    obtain ⟨w, hw, rfl, rfl⟩ := import_finished.mp hr
    obtain ⟨l, hl, -, hd, hmiss⟩ := drain_of_walk hw
    have hskip : ∀ x ∈ w.depsToImport, x = "rtt_ros2" ∨ L.isImported t x = true := by
      intro x hx
      rw [hd] at hx
      exact (h x ((mem_drain_start hl x).mp (List.mem_of_mem_filter hx))).2.2
    obtain ⟨hloader, hmissing, hvisits⟩ := importAll_skips hskip
    refine ⟨?_, hloader, hvisits⟩
    rw [List.isEmpty_iff, hmissing, hmiss]
    exact ⟨rfl, fun x hx => (h x ((mem_drain_start hl x).mp hx)).2.1⟩

/-- The graph below a package whose import has returned has no cycle. -/
theorem Requests.acyclic (h : Requests idx L s l t) {p : String} {b : Bool} (hp : (p, b) ∈ l) : idx.Acyclic p := by
  induction h with
  | nil s => cases hp
  | cons hr _ ih =>
    rcases List.mem_cons.mp hp with hp | hp
    · cases hp
      obtain ⟨w, hw, -⟩ := import_finished.mp hr
      obtain ⟨l, hl, -⟩ := drain_of_walk hw
      exact (acyclic_drains idx p).mp ⟨_, l, hl⟩
    · exact ih hp

theorem import_again (idx : AmentIndex) (L : Loader σ) (loadable : Set String) (hloader : L.Imports loadable)
    (s t : σ) (l : List (String × Bool)) (h : Requests idx L s l t) (p q : String) (hp : (p, true) ∈ l)
    (hq : idx.Reaches p q) : Again idx L t q := by
  have hall := requests_independent hloader h
  refine again (fun x hx => h.acyclic hp x (hq.trans hx)) fun x hx => ?_
  obtain ⟨hne, hf, hi⟩ := (hall.result (p, true) hp).mp rfl x (hq.trans hx)
  refine ⟨hne, hf, ?_⟩
  by_cases hx2 : x = "rtt_ros2"
  · exact Or.inl hx2
  · exact Or.inr ((hall.imported (p, true) hp x (hq.trans hx) hf hx2).mpr hi)

/-- "c" needs "d", and both can be imported. -/
def twoStacked : AmentIndex where
  pluginDepends name :=
    if name = "c" then some ⟨"d", "/opt/c"⟩ else if name = "d" then some ⟨"", "/opt/d"⟩ else none
  packageShareDirectory _ := none
  packagePrefix _ := ""
  packageXml _ := none
  packages := ["c", "d"]
  finite name h := by
    by_cases hc : name = "c"
    · simp [hc]
    · by_cases hd : name = "d"
      · simp [hd]
      · simp [hc, hd] at h

theorem import_again_two_stacked :
    Requests twoStacked exceptB [] [("c", true)] ["c", "d"] ∧ Again twoStacked exceptB ["c", "d"] "d" := by
  have h : Requests twoStacked exceptB [] [("c", true)] ["c", "d"] := .cons (n := 2) rfl (.nil _)
  have hd : twoStacked.Reaches "c" "d" := by
    refine Relation.ReflTransGen.single ?_
    show "d" ∈ ["d"]
    exact List.mem_singleton.mpr rfl
  exact ⟨h, import_again twoStacked exceptB _ exceptB_imports [] _ _ h "c" "d" (List.mem_singleton.mpr rfl) hd⟩

end RttRos2.Import
