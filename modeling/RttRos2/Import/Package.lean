/-
  RttRos2.Import.Package — `rtt_ros2::import` (rtt_ros2.cpp).

  The plugin dependencies of a package are listed in its `rtt_ros2_plugin_depends`
  resource, or else in its package.xml. A walk with a queue, starting from the requested
  package, appends every package found to `deps_to_import`, once for each path that leads
  to it; then the packages are imported in the reverse of that order, those skipped that
  are already imported.

  The ament index, the XML files and RTT's component loader are parameters. `get_resource`
  throws when the name is empty, and nothing catches that. The walk gets the number of
  packages it may take from the queue; when they do not suffice it is still `running`.
-/

import RttRos2.Lib.Worklist

namespace RttRos2.Import

open RttRos2.Lib Relation

structure Resource where
  content : String
  prefixPath : String

/-- The ament index and the files it leads to: a finite number of packages. -/
structure AmentIndex where
  /-- `get_resource("rtt_ros2_plugin_depends", name)` -/
  pluginDepends : String → Option Resource
  /-- `none` when it throws `PackageNotFoundError`. -/
  packageShareDirectory : String → Option String
  packagePrefix : String → String
  /-- The `<plugin_depend>` texts of an XML file, `none` when there is no such file. -/
  packageXml : String → Option (List String)
  packages : List String
  finite : ∀ name, (pluginDepends name).isSome ∨ (packageShareDirectory name).isSome → name ∈ packages

/-- RTT's component loader. -/
structure Loader (σ : Type) where
  componentPath : σ → String
  isImported : σ → String → Bool
  importFrom : σ → String → String → Bool × σ

inductive Outcome (β : Type) where
  | running
  | threw
  | finished (b : β)

/-! ## The walk -/

/-- `while (std::getline(iss, token, ';'))`: the last token is dropped when it is empty. -/
def getlines (content : String) : List String :=
  let tokens := (content.toList.splitOn ';').map String.ofList
  if tokens.getLast? = some "" then tokens.dropLast else tokens

/-- `fs::path(a) / b` -/
def join (a b : String) : String :=
  if a = "" ∨ a.toList.getLast? = some '/' then a ++ b else a ++ "/" ++ b

structure Walk where
  depNames : List String
  depsToImport : List String
  searchPaths : List String
  missingPackages : List String

/-- The body of the loop, for the name taken from the queue. `none` when it throws. -/
def Walk.visit (idx : AmentIndex) (w : Walk) (depName : String) : Option Walk :=
  if depName = "" then none
  else match idx.pluginDepends depName with
    | some r => some { w with
        depsToImport := w.depsToImport ++ [depName]
        searchPaths := w.searchPaths ++ [join (join r.prefixPath "lib") "orocos"]
        depNames := w.depNames ++ getlines r.content }
    | none =>
      -- DEPRECATED: package.xml
      match idx.packageShareDirectory depName with
      | none => some { w with missingPackages := w.missingPackages.insert depName }
      | some dir =>
        match idx.packageXml (join dir "package.xml") with
        | none => some { w with missingPackages := w.missingPackages.insert depName }
        | some depends => some { w with
            depsToImport := w.depsToImport ++ [depName]
            searchPaths := w.searchPaths ++ [join (join (idx.packagePrefix depName) "lib") "orocos"]
            depNames := w.depNames ++ depends }

def walk (idx : AmentIndex) : Nat → Walk → Outcome Walk
  | 0, w => if w.depNames.isEmpty then .finished w else .running
  | n + 1, w =>
    match w.depNames with
    | [] => .finished w
    | depName :: rest =>
      match Walk.visit idx { w with depNames := rest } depName with
      | none => .threw
      | some w => walk idx n w

def start (package : String) : Walk := ⟨[package], [], [], []⟩

/-! ## The import -/

variable {σ : Type}

/-- The search paths, those found last in front, before the loader's own. -/
def pathList (componentPath : String) (searchPaths : List String) : String :=
  (searchPaths.reverse.foldl
    (fun (l, seen) path => if path ∈ seen then (l, seen) else (path ++ ":" ++ l, path :: seen))
    (componentPath, ([] : List String))).1

inductive Visit where
  | alreadyImported
  | succeeded
  | failed
  deriving DecidableEq, Repr

/-- The loader, the packages missing, and what was done so far, package by package. -/
structure Pass (σ : Type) where
  loader : σ
  missingPackages : List String
  visits : List (String × Visit)

def Pass.importOne (L : Loader σ) (paths : String) (p : Pass σ) (name : String) : Pass σ :=
  if name = "rtt_ros2" ∨ L.isImported p.loader name then { p with visits := p.visits ++ [(name, .alreadyImported)] }
  else
    let (done, loader) := L.importFrom p.loader name paths
    if done then { p with loader := loader, visits := p.visits ++ [(name, .succeeded)] }
    else ⟨loader, p.missingPackages.insert name, p.visits ++ [(name, .failed)]⟩

def importAll (L : Loader σ) (w : Walk) (loader : σ) : Pass σ :=
  w.depsToImport.reverse.foldl (Pass.importOne L (pathList (L.componentPath loader) w.searchPaths))
    ⟨loader, w.missingPackages, []⟩

/-- `rtt_ros2::import`, with `n` packages at most to be taken from the queue. -/
def importPackage (idx : AmentIndex) (L : Loader σ) (n : Nat) (loader : σ) (package : String) :
    Outcome (Bool × Pass σ) :=
  match walk idx n (start package) with
  | .running => .running
  | .threw => .threw
  | .finished w =>
    let p := importAll L w loader
    .finished (p.missingPackages.isEmpty, p)

/-! ## The graph -/

namespace AmentIndex

/-- What the walk appends to the queue for a package. -/
def depends (idx : AmentIndex) (name : String) : List String :=
  match idx.pluginDepends name with
  | some r => getlines r.content
  | none =>
    match idx.packageShareDirectory name with
    | none => []
    | some dir => (idx.packageXml (join dir "package.xml")).getD []

def found (idx : AmentIndex) (name : String) : Bool :=
  match idx.pluginDepends name with
  | some _ => true
  | none =>
    match idx.packageShareDirectory name with
    | none => false
    | some dir => (idx.packageXml (join dir "package.xml")).isSome

/-- Directly or transitively. -/
def DependsOn (idx : AmentIndex) (p d : String) : Prop := TransGen (Next idx.depends) p d

def Reaches (idx : AmentIndex) (p d : String) : Prop := ReflTransGen (Next idx.depends) p d

/-- No package that can be reached depends on itself. -/
def Acyclic (idx : AmentIndex) (package : String) : Prop := ∀ p, idx.Reaches package p → ¬ idx.DependsOn p p

theorem depends_finite (idx : AmentIndex) (name : String) (h : idx.depends name ≠ []) : name ∈ idx.packages := by
  refine idx.finite name ?_
  by_contra hn
  rw [not_or, Option.not_isSome_iff_eq_none, Option.not_isSome_iff_eq_none] at hn
  simp [depends, hn.1, hn.2] at h

end AmentIndex

end RttRos2.Import
