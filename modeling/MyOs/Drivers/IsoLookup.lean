/-
  What `get_lba_file` finds.

  1. **The components of a path** (`components`) are the parts that the walk sees, for a path of at
     most fifteen that does not begin with two slashes.
  2. **Existing directories** (`getLbaFile_resolved`): the result is the first file of the last name
     in the directory that the other components resolve to.
  3. **Missing directories** (`getLbaFile_missing_iff`): `list_items` reports them, `get_lba_file`
     goes on in the directory reached so far.  So a file can be found through a directory that does
     not exist, and the path must not name one for the result to be right.
-/
import MyOs.Drivers.IsoPaths

namespace MyOs.Drivers

open MyOs.Libraries MyOs.Lib.Directories

/-! ## The components of a path -/

/-- The components of a path, in upper case. -/
def components (w : List UInt8) : List (List UInt8) := segments '/'.toUInt8 (w.map upper)

theorem upper_eq_slash {c : UInt8} (h : upper c = '/'.toUInt8) : c = '/'.toUInt8 := by
  rcases upper_eq_or c with hsame | ⟨hge, -⟩
  · exact hsame.symm.trans h
  · rw [h] at hge
    exact absurd hge (by decide)

/-- The walk sees the components. -/
theorem pathParts_eq_components {w : List UInt8} (hw : 0 ∉ w)
    (htwo : ¬ ['/'.toUInt8, '/'.toUInt8] <+: w) (hcount : (components w).length < 16) :
    pathParts w = components w := by
  refine parts_splitString (zero_not_mem_map upper_ne_zero hw) (fun htwo' => htwo ?_) hcount
  obtain ⟨rest, hrest⟩ := htwo'
  match w, hrest with
  | [c₁], hrest => nomatch (List.cons.inj hrest).2
  | c₁ :: c₂ :: w, hrest =>
    obtain ⟨h₁, htail⟩ := List.cons.inj hrest
    obtain ⟨h₂, -⟩ := List.cons.inj htail
    rw [upper_eq_slash h₁.symm, upper_eq_slash h₂.symm]
    exact ⟨w, rfl⟩

/-! ## Existing directories -/

section Lookup

variable {d : Drive} {s : Stack} {w rest : List UInt8}

/-- `get_lba_file` on an image of small directories. -/
theorem getLbaFile_eq_small (s : Stack) (rest : List UInt8) (hserves : ∀ k, d.Serves k 1)
    (hsmall : SmallDirectories d.disc)
    (hw : 0 ∉ w) (hlen : w.length < 255) {comps : List (List UInt8)} {last : List UInt8}
    (hparts : pathParts w = comps ++ [last]) :
    getLbaFile d s (w ++ 0 :: rest) = some (foundFile d.disc
      ((walked d.disc).resolveSkipping (rootDirectory d.disc) comps) last, comps.length + 3) :=
  getLbaFile_eq hw hlen hparts (fun k _ => hserves k)
    fun q _ => hsmall _ (Catalog.Inside.root.resolveSkipping q)

/-- **`get_lba_file`** returns the first file of the last name in the directory that the path
    names, or zeros. -/
theorem getLbaFile_resolved (hserves : ∀ k, d.Serves k 1) (hsmall : SmallDirectories d.disc)
    (hw : 0 ∉ w) (hlen : w.length < 255) (htwo : ¬ ['/'.toUInt8, '/'.toUInt8] <+: w)
    {dirs : List (List UInt8)} {name : List UInt8} (hcomponents : components w = dirs ++ [name])
    (hcount : dirs.length < 15) {e : IsoFile}
    (hresolve : (walked d.disc).resolve (rootDirectory d.disc) dirs = some e) :
    (getLbaFile d s (w ++ 0 :: rest)).map Prod.fst
      = some ((((walked d.disc).find false e name).map Record.extent).getD ⟨0, 0⟩) := by
  have hlength : (components w).length < 16 := by
    rw [hcomponents, List.length_append, List.length_singleton]
    omega
  have hparts := (pathParts_eq_components hw htwo hlength).trans hcomponents
  rw [getLbaFile_eq_small _ _ hserves hsmall hw hlen hparts,
    Catalog.resolveSkipping_of_resolve hresolve]
  rfl

end Lookup

/-- An image with the directory `SUB` in its root, and the file `F` in both. -/
def twoDirectories : Bytes :=
  discOf ⟨20, 2048, true, [0]⟩
    [(20, [⟨20, 2048, true, [0]⟩, ⟨20, 2048, true, [1]⟩, ⟨21, 2048, true, bytes "SUB"⟩,
        ⟨30, 9, false, bytes "F;1"⟩]),
      (21, [⟨21, 2048, true, [0]⟩, ⟨20, 2048, true, [1]⟩, ⟨31, 5, false, bytes "F;1"⟩])]

theorem mem_twoDirectories {e : IsoFile}
    (h : (walked twoDirectories).Inside (rootDirectory twoDirectories) e) :
    e ∈ [⟨20, 2048⟩, ⟨21, 2048⟩] :=
  h.mem_of_closed (by decide +kernel) (by decide +kernel)

theorem twoDirectories_small : SmallDirectories twoDirectories := by
  have hone : ∀ e ∈ [⟨20, 2048⟩, ⟨21, 2048⟩], OneSector twoDirectories e := by decide +kernel
  exact fun e he => hone e (mem_twoDirectories he)

/-- The path `/sub/f` leads to the second one. -/
theorem getLbaFile_resolved_sub :
    (getLbaFile (flawless twoDirectories) clearStack (bytes "/sub/f" ++ [0])).map Prod.fst
      = some ⟨31, 5⟩ := by
  have hcomponents : components (bytes "/sub/f") = [bytes "SUB"] ++ [bytes "F"] := by
    decide +kernel
  have hresolve : (walked twoDirectories).resolve (rootDirectory twoDirectories) [bytes "SUB"]
      = some ⟨21, 2048⟩ := by decide +kernel
  have hfind : (((walked twoDirectories).find false ⟨21, 2048⟩ (bytes "F")).map
      Record.extent).getD ⟨0, 0⟩ = ⟨31, 5⟩ := by decide +kernel
  rw [← hfind]
  exact getLbaFile_resolved (d := flawless twoDirectories) (fun k => flawless_serves _ k 1)
    twoDirectories_small (by decide +kernel) (by decide +kernel) (by decide +kernel) hcomponents
    (by decide) hresolve

/-! ## Missing directories -/

/-- The directory of a path: everything in front of the last component, with or without the slashes
    between them. -/
def DirectoryOf (v w : List UInt8) : Prop :=
  ∃ gap name trailing, w = v ++ gap ++ name ++ trailing ∧
    name ≠ [] ∧ '/'.toUInt8 ∉ name ∧ (∀ c ∈ gap ++ trailing, c = '/'.toUInt8) ∧
    (gap = [] → v = [] ∨ v.getLast? = some '/'.toUInt8)

/-- A path with a component has a part. -/
theorem pathParts_ne_nil {v w : List UInt8} (h : DirectoryOf v w) : pathParts w ≠ [] := by
  obtain ⟨gap, name, trailing, rfl, hne, hname, -, -⟩ := h
  obtain ⟨c, name, rfl⟩ := List.exists_cons_of_ne_nil hne
  intro hnone
  have hoffsets := List.map_eq_nil_iff.mp hnone
  have hc : upper c ∈ (v ++ gap ++ (c :: name) ++ trailing).map upper :=
    List.mem_map_of_mem (List.mem_append_left _ (List.mem_append_right _ List.mem_cons_self))
  -- a string without parts is empty or a single delimiter
  cases hw : (v ++ gap ++ (c :: name) ++ trailing).map upper with
  | nil => exact absurd (hw ▸ hc) List.not_mem_nil
  | cons x rest =>
    rw [hw] at hc hoffsets
    simp only [splitString] at hoffsets
    split_ifs at hoffsets with hslash hrest
    rw [hrest, hslash, List.mem_singleton] at hc
    exact hname (upper_eq_slash hc ▸ List.mem_cons_self)

section Missing

variable {d : Drive} {s : Stack} {v w vrest wrest : List UInt8}

/-- `list_items` reports exactly the paths along which a directory is missing. -/
theorem listItems_missing_iff (hserves : ∀ k, d.Serves k 1) (hsmall : SmallDirectories d.disc)
    (hv : 0 ∉ v) (items : List (List UInt8)) :
    (∃ items', listItems d s (v ++ 0 :: vrest) items = some (-1, items')) ↔
      v.length < 255 ∧ (walked d.disc).resolve (rootDirectory d.disc) (pathParts v) = none := by
  constructor
  · rintro ⟨items', hlist⟩
    obtain ⟨hlen, ⟨-, hresolve⟩ | ⟨e, i, -, hk, -⟩⟩ :=
      listItems_eq_some hv (fun k _ => hserves k) hlist
    · exact ⟨hlen, hresolve⟩
    · exact absurd hk (by omega)
  · rintro ⟨hlen, hresolve⟩
    have hone : ∀ q e, q <+: pathParts v →
        (walked d.disc).resolve (rootDirectory d.disc) q = some e → OneSector d.disc e :=
      fun q e _ hq => hsmall e (Catalog.Inside.root.resolve hq)
    refine ⟨items, ?_⟩
    exact (listItems_eq hv hlen (fun k _ => hserves k) hone items).1 hresolve

/-- **When a missing directory is reported**: `list_items` returns -1 for the directory of a path,
    and `get_lba_file` zeros for the path, exactly when there is no file of the last name in the
    directory that is reached by passing over the missing ones. -/
theorem getLbaFile_missing_iff (hserves : ∀ k, d.Serves k 1) (hsmall : SmallDirectories d.disc)
    (hv : 0 ∉ v) (hw : 0 ∉ w) (hdirectory : DirectoryOf v w) (items : List (List UInt8)) :
    ((∃ items', listItems d s (v ++ 0 :: vrest) items = some (-1, items')) →
      (getLbaFile d s (w ++ 0 :: wrest)).map Prod.fst = some ⟨0, 0⟩) ↔
    255 ≤ v.length ∨
    ((walked d.disc).resolve (rootDirectory d.disc) (pathParts v)).isSome ∨
    (w.length < 255 ∧ ∀ r, (walked d.disc).find false ((walked d.disc).resolveSkipping
      (rootDirectory d.disc) (pathParts w).dropLast) ((pathParts w).getLastD []) = some r →
        r.extent = ⟨0, 0⟩) := by
  rw [listItems_missing_iff hserves hsmall hv]
  obtain ⟨comps, last, hparts⟩ := pathParts_eq_concat (pathParts_ne_nil hdirectory)
  -- the result, and then what the walk has found, without the drive
  have hresult : (getLbaFile d s (w ++ 0 :: wrest)).map Prod.fst = some ⟨0, 0⟩ ↔
      w.length < 255 ∧ foundFile d.disc ((walked d.disc).resolveSkipping
        (rootDirectory d.disc) comps) last = ⟨0, 0⟩ := by
    constructor
    · intro h
      obtain ⟨⟨file, call⟩, hfound, hfile⟩ := Option.map_eq_some_iff.mp h
      obtain ⟨hlen, -⟩ := getLbaFile_eq_some hw (readsRoot_of_serves hserves) hfound
      rw [getLbaFile_eq_small _ _ hserves hsmall hw hlen hparts] at hfound
      obtain ⟨rfl, -⟩ := Prod.mk.inj (Option.some.inj hfound)
      exact ⟨hlen, hfile⟩
    · rintro ⟨hlen, hfile⟩
      rw [getLbaFile_eq_small _ _ hserves hsmall hw hlen hparts, hfile]
      rfl
  have hfound : foundFile d.disc ((walked d.disc).resolveSkipping
        (rootDirectory d.disc) comps) last = ⟨0, 0⟩ ↔
      ∀ r, (walked d.disc).find false ((walked d.disc).resolveSkipping
        (rootDirectory d.disc) comps) last = some r → r.extent = ⟨0, 0⟩ := by
    unfold foundFile
    cases (walked d.disc).find false _ last with
    | none => exact ⟨fun _ r hr => (nomatch hr), fun _ => rfl⟩
    | some r => exact ⟨fun h r' hr' => Option.some.inj hr' ▸ h, fun h => h r rfl⟩
  rw [hresult, hfound, hparts, List.dropLast_concat, List.getLastD_concat,
    Option.isSome_iff_ne_none]
  constructor
  · intro h
    by_cases hlen : v.length < 255
    · by_cases hresolve : (walked d.disc).resolve (rootDirectory d.disc) (pathParts v) = none
      · exact .inr (.inr (h ⟨hlen, hresolve⟩))
      · exact .inr (.inl hresolve)
    · exact .inl (Nat.le_of_not_lt hlen)
  · rintro (hlong | hresolve | h) ⟨hlen, hnone⟩
    · omega
    · exact absurd hnone hresolve
    · exact h

end Missing

/-- A name that is not in the root either is reported. -/
theorem getLbaFile_missing_iff_nope :
    (getLbaFile (flawless twoDirectories) clearStack (bytes "NOPE/G" ++ [0])).map Prod.fst
      = some ⟨0, 0⟩ := by
  have hdirectory : DirectoryOf (bytes "NOPE") (bytes "NOPE/G") := by
    refine ⟨bytes "/", bytes "G", [], ?_⟩
    decide +kernel
  have hlist : listItems (flawless twoDirectories) clearStack (bytes "NOPE" ++ [0]) []
      = some (-1, []) := by decide +kernel
  refine (getLbaFile_missing_iff (d := flawless twoDirectories) (fun k => flawless_serves _ k 1)
    twoDirectories_small (by decide +kernel) (by decide +kernel) hdirectory []).mpr
    (.inr (.inr ⟨by decide +kernel, ?_⟩)) ⟨[], hlist⟩
  have hnone : (walked twoDirectories).find false ((walked twoDirectories).resolveSkipping
      (rootDirectory twoDirectories) (pathParts (bytes "NOPE/G")).dropLast)
      ((pathParts (bytes "NOPE/G")).getLastD []) = none := by decide +kernel
  intro r hr
  nomatch hnone.symm.trans hr

/-- `NOPE/F` is found in the root. -/
theorem getLbaFile_through_missing : ¬ ∀ (d : Drive) (s : Stack) (v w : List UInt8)
    (items : List (List UInt8)), (∀ k, d.Serves k 1) → SmallDirectories d.disc → 0 ∉ v → 0 ∉ w →
    DirectoryOf v w → (∃ items', listItems d s (v ++ [0]) items = some (-1, items')) →
    (getLbaFile d s (w ++ [0])).map Prod.fst = some ⟨0, 0⟩ := by
  intro h
  have hdirectory : DirectoryOf (bytes "NOPE") (bytes "NOPE/F") := by
    refine ⟨bytes "/", bytes "F", [], ?_⟩
    decide +kernel
  have hzeros := h (flawless twoDirectories) clearStack (bytes "NOPE") (bytes "NOPE/F") []
    (fun k => flawless_serves _ k 1) twoDirectories_small (by decide +kernel) (by decide +kernel)
    hdirectory ⟨[], by decide +kernel⟩
  have hfound : (getLbaFile (flawless twoDirectories) clearStack (bytes "NOPE/F" ++ [0])).map
      Prod.fst = some ⟨30, 9⟩ := by decide +kernel
  rw [hfound] at hzeros
  exact absurd hzeros (by decide)

end MyOs.Drivers
