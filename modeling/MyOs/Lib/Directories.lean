/-
  Directories that name each other.

  A catalog gives each directory a list of entries; an entry has a name, is a directory or a file,
  and points to its target.  A path is resolved one name at a time, to the first directory entry of
  that name.

  Two ways to resolve are compared: `resolve` has no result when a directory is missing,
  `resolveSkipping` stays where it is.  They agree when nothing is missing.  What is found is still
  found when the lists of entries get longer.
-/
import Mathlib.Data.List.Basic

namespace MyOs.Lib.Directories

/-- Directories `δ`, entries `ρ` and names `ν`. -/
structure Catalog (δ ρ ν : Type*) where
  entries : δ → List ρ
  directory : ρ → Bool
  name : ρ → ν
  target : ρ → δ

namespace Catalog

variable {δ ρ ν : Type*} [DecidableEq ν] (c : Catalog δ ρ ν)

/-- The first entry of a name, among the directories or among the files. -/
def find (directory : Bool) (d : δ) (n : ν) : Option ρ :=
  (c.entries d).find? fun r => c.directory r = directory ∧ c.name r = n

/-- One directory deeper. -/
def enter (d : δ) (n : ν) : Option δ := (c.find true d n).map c.target

/-- The directory at the end of a path. -/
def resolve : δ → List ν → Option δ
  | d, [] => some d
  | d, n :: path => (c.enter d n).bind fun d => resolve d path

/-- The directory at the end of a path, missing directories passed over. -/
def resolveSkipping : δ → List ν → δ
  | d, [] => d
  | d, n :: path => resolveSkipping ((c.enter d n).getD d) path

/-- The directories that can be reached. -/
inductive Inside (root : δ) : δ → Prop where
  | root : Inside root root
  | enter {d : δ} {r : ρ} (h : Inside root d) (hr : r ∈ c.entries d)
      (hdir : c.directory r = true) : Inside root (c.target r)

variable {c}

theorem find_eq_some {directory : Bool} {d : δ} {n : ν} {r : ρ}
    (h : c.find directory d n = some r) :
    r ∈ c.entries d ∧ c.directory r = directory ∧ c.name r = n := by
  unfold find at h
  have hmatch := List.find?_some h
  rw [decide_eq_true_eq] at hmatch
  exact ⟨List.mem_of_find?_eq_some h, hmatch⟩

/-- The only entry of its kind and name is found. -/
theorem find_of_unique {d : δ} {r : ρ} (hr : r ∈ c.entries d)
    (hunique : ∀ r' ∈ c.entries d, c.directory r' = c.directory r → c.name r' = c.name r → r' = r) :
    c.find (c.directory r) d (c.name r) = some r := by
  have hsome : (c.find (c.directory r) d (c.name r)).isSome :=
    List.find?_isSome.mpr ⟨r, hr, decide_eq_true ⟨rfl, rfl⟩⟩
  obtain ⟨r', hr'⟩ := Option.isSome_iff_exists.mp hsome
  obtain ⟨hmem, hdir, hname⟩ := find_eq_some hr'
  rw [hr', hunique r' hmem hdir hname]

theorem enter_eq_some {d d' : δ} {n : ν} (h : c.enter d n = some d') :
    ∃ r ∈ c.entries d, c.directory r = true ∧ c.name r = n ∧ c.target r = d' := by
  obtain ⟨r, hfind, rfl⟩ := Option.map_eq_some_iff.mp h
  obtain ⟨hr, hdir, hname⟩ := find_eq_some hfind
  exact ⟨r, hr, hdir, hname, rfl⟩

theorem resolve_concat (d : δ) (path : List ν) (n : ν) :
    c.resolve d (path ++ [n]) = (c.resolve d path).bind fun d' => c.enter d' n := by
  induction path generalizing d with
  | nil => exact Option.bind_fun_some _
  | cons m path ih =>
    rw [List.cons_append, resolve, resolve, Option.bind_assoc]
    congr 1
    funext d'
    exact ih d'

theorem Inside.enter_eq_some {root d d' : δ} {n : ν} (h : c.Inside root d)
    (henter : c.enter d n = some d') : c.Inside root d' := by
  obtain ⟨r, hr, hdir, -, rfl⟩ := Catalog.enter_eq_some henter
  exact h.enter hr hdir

theorem Inside.resolve {root : δ} : ∀ {path : List ν} {d d' : δ}, c.Inside root d →
    c.resolve d path = some d' → c.Inside root d'
  | [], _, _, h, hpath => Option.some.inj hpath ▸ h
  | _ :: _, _, _, h, hpath => by
    obtain ⟨d₁, henter, hrest⟩ := Option.bind_eq_some_iff.mp hpath
    exact (h.enter_eq_some henter).resolve hrest

theorem Inside.getD_enter {root d : δ} (h : c.Inside root d) (n : ν) :
    c.Inside root ((c.enter d n).getD d) := by
  cases henter : c.enter d n with
  | none => exact h
  | some d' => exact h.enter_eq_some henter

theorem Inside.resolveSkipping {root : δ} : ∀ (path : List ν) {d : δ}, c.Inside root d →
    c.Inside root (c.resolveSkipping d path)
  | [], _, h => h
  | n :: path, _, h => (h.getD_enter n).resolveSkipping path

omit [DecidableEq ν] in
/-- A list of directories that contains the root and is closed contains all of them. -/
theorem Inside.mem_of_closed {root d : δ} {ds : List δ} (h : c.Inside root d) (hroot : root ∈ ds)
    (hclosed : ∀ d ∈ ds, ∀ r ∈ c.entries d, c.directory r = true → c.target r ∈ ds) : d ∈ ds := by
  induction h with
  | root => exact hroot
  | enter _ hr hdir ih => exact hclosed _ ih _ hr hdir

/-- When no directory is missing, nothing is passed over. -/
theorem resolveSkipping_of_resolve : ∀ {path : List ν} {d d' : δ}, c.resolve d path = some d' →
    c.resolveSkipping d path = d'
  | [], _, _, h => Option.some.inj h
  | n :: path, d, d', h => by
    obtain ⟨d₁, henter, hrest⟩ := Option.bind_eq_some_iff.mp h
    rw [resolveSkipping, henter, Option.getD_some]
    exact resolveSkipping_of_resolve hrest

/-! ## Longer directories -/

/-- The same catalog with other lists of entries. -/
def withEntries (c : Catalog δ ρ ν) (entries : δ → List ρ) : Catalog δ ρ ν := { c with entries }

section Longer

variable {longer : δ → List ρ} (h : ∀ d, c.entries d <+: longer d)

include h

/-- What is found stays the first of its name when the lists go on. -/
theorem find_longer {directory : Bool} {d : δ} {n : ν} {r : ρ}
    (hfind : c.find directory d n = some r) : (c.withEntries longer).find directory d n = some r :=
  (h d).find?_eq_some hfind

theorem resolve_longer : ∀ {path : List ν} {d d' : δ}, c.resolve d path = some d' →
    (c.withEntries longer).resolve d path = some d'
  | [], _, _, hpath => hpath
  | n :: path, d, d', hpath => by
    obtain ⟨d₁, henter, hrest⟩ := Option.bind_eq_some_iff.mp hpath
    obtain ⟨r, hfind, rfl⟩ := Option.map_eq_some_iff.mp henter
    have henter' : (c.withEntries longer).enter d n = some (c.target r) := by
      rw [enter, find_longer h hfind]
      rfl
    rw [resolve, henter', Option.bind_some]
    exact resolve_longer hrest

end Longer

end Catalog

end MyOs.Lib.Directories
