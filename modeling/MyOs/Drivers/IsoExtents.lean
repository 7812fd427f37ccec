/-
  Directories of more than one sector.

  The extent of a directory is as long as its record says, but both functions read its first sector
  only, and read it up to a zero byte.

  1. **Whole directories** (`extentRecords`, `DirAt`): the records of all sectors, and the directories
     that an image has at its paths.
  2. **Paths as text** (`pathText`): the components of the text are the path.
  3. **When everything is found** (`findsEverything_iff`): exactly when no directory of a valid image
     has records behind its first sector, and that one ends with a zero byte; when files of one name
     share their extent; and when paths are shorter than 255 characters.
-/
import MyOs.Drivers.IsoListing

namespace MyOs.Drivers

open MyOs.Libraries MyOs.Lib.Directories

/-! ## Whole directories -/

/-- The number of sectors of a directory, which has at least one. -/
def IsoFile.sectors (e : IsoFile) : Nat := (e.size.toNat - 1) / 2048 + 1

/-- The records of all sectors of a directory. -/
def extentRecords (disc : Bytes) (e : IsoFile) : List Record :=
  (List.range e.sectors).flatMap fun i => records (sectorAt disc (e.lba.toNat + i))

/-- The records behind the first sector. -/
def laterRecords (disc : Bytes) (e : IsoFile) : List Record :=
  (List.range ((e.size.toNat - 1) / 2048)).flatMap fun i =>
    records (sectorAt disc (e.lba.toNat + (i + 1)))

theorem extentRecords_eq (disc : Bytes) (e : IsoFile) :
    extentRecords disc e = records (sectorAt disc e.lba.toNat) ++ laterRecords disc e := by
  rw [extentRecords, IsoFile.sectors, List.range_succ_eq_map, List.flatMap_cons,
    List.flatMap_map]
  rfl

/-- The directories of an image, with their paths. -/
inductive DirAt (disc : Bytes) : List (List UInt8) → IsoFile → Prop where
  | root : DirAt disc [] (rootDirectory disc)
  | enter {p : List (List UInt8)} {e : IsoFile} {r : Record} (h : DirAt disc p e)
      (hr : r ∈ listed (extentRecords disc e)) (hdir : r.directory = true) :
      DirAt disc (p ++ [r.base]) r.extent

theorem DirAt.exists_of_prefix {disc : Bytes} {p q : List (List UInt8)} {e : IsoFile}
    (h : DirAt disc p e) (hq : q <+: p) : ∃ e', DirAt disc q e' := by
  induction h with
  | root =>
    rw [List.prefix_nil.mp hq]
    exact ⟨_, .root⟩
  | enter h hr hdir ih =>
    rcases List.prefix_concat_iff.mp hq with rfl | hq
    · exact ⟨_, h.enter hr hdir⟩
    · exact ih hq

/-- A sector of a directory: well-formed records that do not cross its end, and a zero byte behind
    them when there is room. -/
inductive Fits (sector : Bytes) : Nat → Prop where
  | full : Fits sector 2048
  | zero {entry : Nat} (hin : entry < 2048) (h : sector entry = 0) : Fits sector entry
  | record {entry : Nat} (h : sector entry ≠ 0)
      (hname : 33 + (sector (entry + 32)).toNat ≤ (sector entry).toNat)
      (rest : Fits sector (entry + (sector entry).toNat)) : Fits sector entry

theorem Fits.le {sector : Bytes} {entry : Nat} (h : Fits sector entry) : entry ≤ 2048 := by
  induction h with
  | full => exact Nat.le_refl _
  | zero hin _ => exact Nat.le_of_lt hin
  | record _ _ _ ih => omega

theorem Terminated.fits {sector : Bytes} {entry : Nat} (h : Terminated sector entry) :
    Fits sector entry := by
  induction h with
  | zero hin hend => exact .zero hin hend
  | record hne hname _ ih => exact .record hne hname ih

/-- A listing of a sector ends at a zero byte. -/
theorem Fits.terminated {sector : Bytes} {entry : Nat} (h : Fits sector entry) :
    ∀ {fuel i : Nat} {items : List (List UInt8)}, (listItemsLoop sector fuel entry i items).isSome →
    Terminated sector entry := by
  induction h with
  | full =>
    intro fuel i items h
    cases fuel <;> nomatch h
  | zero hin hend => exact fun _ => .zero hin hend
  | @record entry hne hname rest ih =>
    intro fuel i items h
    have hle := rest.le
    cases fuel with
    | zero => nomatch h
    | succ fuel =>
      rw [listItemsLoop_record fuel i items (by omega) (by omega) hne] at h
      split at h
      · exact .record hne hname (ih h)
      · obtain ⟨listed, h⟩ := Option.isSome_iff_exists.mp h
        obtain ⟨items', -, h⟩ := Option.bind_eq_some_iff.mp h
        exact .record hne hname (ih (Option.isSome_iff_exists.mpr ⟨listed, h⟩))

/-- A directory of a valid image: its records fit in their sectors, the names are printable and in
    upper case, and no two directories have the same. -/
structure ValidDirectory (disc : Bytes) (e : IsoFile) : Prop where
  fits : ∀ i, i < e.sectors → Fits (sectorAt disc (e.lba.toNat + i)) 0
  nonempty : ∀ r ∈ listed (extentRecords disc e), r.base ≠ []
  chars : ∀ r ∈ listed (extentRecords disc e), ∀ c ∈ r.base,
    0x20 ≤ c ∧ c ≠ '/'.toUInt8 ∧ upper c = c
  unique : ∀ r ∈ listed (extentRecords disc e), ∀ r' ∈ listed (extentRecords disc e),
    r.directory = true → r'.directory = true → r.base = r'.base → r = r'

/-- A valid image, whose directories are not too deep. -/
def ValidImage (disc : Bytes) : Prop :=
  ∀ p e, DirAt disc p e → p.length ≤ 14 ∧ ValidDirectory disc e

/-! ## Paths as text -/

/-- The text of a path. -/
def pathText (p : List (List UInt8)) : List UInt8 := ['/'.toUInt8].intercalate p

/-- A component that can be written in a path. -/
def Writable (c : List UInt8) : Prop :=
  c ≠ [] ∧ ∀ x ∈ c, 0x20 ≤ x ∧ x ≠ '/'.toUInt8 ∧ upper x = x

theorem mem_pathText {p : List (List UInt8)} {x : UInt8} (h : x ∈ pathText p) :
    x = '/'.toUInt8 ∨ ∃ c ∈ p, x ∈ c := by
  unfold pathText at h
  induction p with
  | nil => exact absurd h List.not_mem_nil
  | cons c p ih =>
    cases p with
    | nil =>
      rw [List.intercalate_singleton] at h
      exact .inr ⟨c, List.mem_cons_self, h⟩
    | cons c' p =>
      rw [List.intercalate_cons_cons, List.mem_append, List.mem_append, List.mem_singleton] at h
      rcases h with (h | h) | h
      · exact .inr ⟨c, List.mem_cons_self, h⟩
      · exact .inl h
      · rcases ih h with h | ⟨c'', hc'', h⟩
        · exact .inl h
        · exact .inr ⟨c'', List.mem_cons_of_mem c hc'', h⟩

section Text

variable {p : List (List UInt8)} (hp : ∀ c ∈ p, Writable c)

include hp

theorem upper_pathText : (pathText p).map upper = pathText p := by
  have hfixed : ∀ x ∈ pathText p, upper x = x := by
    intro x hx
    rcases mem_pathText hx with rfl | ⟨c, hc, hx⟩
    · decide
    · exact ((hp c hc).2 x hx).2.2
  rw [List.map_congr_left hfixed, List.map_id']

theorem zero_not_mem_pathText : 0 ∉ pathText p := by
  intro hx
  rcases mem_pathText hx with h | ⟨c, hc, hx⟩
  · exact absurd h (by decide)
  · exact absurd ((hp c hc).2 0 hx).1 (by decide)

theorem components_pathText : components (pathText p) = p := by
  have hslash : ∀ c ∈ p, '/'.toUInt8 ∉ c := fun c hc hx => ((hp c hc).2 _ hx).2.1 rfl
  rw [components, upper_pathText hp, segments]
  by_cases hnil : p = []
  · rw [hnil]
    rfl
  · rw [pathText, List.splitOn_intercalate _ hslash hnil]
    exact List.filter_eq_self.mpr fun c hc => decide_eq_true (hp c hc).1

theorem pathParts_pathText (hlength : p.length < 16) : pathParts (pathText p) = p := by
  have htwo : ¬ ['/'.toUInt8, '/'.toUInt8] <+: pathText p := by
    rintro ⟨rest, hrest⟩
    cases p with
    | nil => nomatch hrest
    | cons c p =>
      obtain ⟨hne, hchars⟩ := hp c List.mem_cons_self
      obtain ⟨x, c, rfl⟩ := List.exists_cons_of_ne_nil hne
      have hfirst : ∃ rest', pathText ((x :: c) :: p) = x :: rest' := by
        cases p with
        | nil => exact ⟨_, List.intercalate_singleton⟩
        | cons c' p => exact ⟨_, List.intercalate_cons_cons⟩
      obtain ⟨rest', hrest'⟩ := hfirst
      rw [hrest'] at hrest
      exact (hchars x List.mem_cons_self).2.1 (List.cons.inj hrest).1.symm
  rw [pathParts_eq_components (zero_not_mem_pathText hp) htwo
    (by rw [components_pathText hp]; exact hlength), components_pathText hp]

end Text

/-! ## When everything is found -/

/-- Everything in the directories of a disc is found: files under their paths, and lists of all
    names. -/
def FindsEverything (d : Drive) : Prop :=
  ∀ p e, DirAt d.disc p e →
    (∀ r ∈ listed (extentRecords d.disc e), r.directory = false → ∀ s,
      (getLbaFile d s (pathText (p ++ [r.base]) ++ [0])).map Prod.fst = some r.extent) ∧
    (∀ s items, items.length = 256 → (∀ item ∈ items, item.length = 255) →
      ∃ (k : Nat) (items' : List (List UInt8)),
        listItems d s (pathText p ++ [0]) items = some ((k : Int), items') ∧
        reported items' k = (listed (extentRecords d.disc e)).map Record.base)

/-- A directory that is read as a whole: it ends in its first sector, files of one name share their
    extent, and the paths are short. -/
structure ReadWhole (disc : Bytes) (p : List (List UInt8)) (e : IsoFile) : Prop where
  terminated : OneSector disc e
  later : listed (laterRecords disc e) = []
  files : ∀ r ∈ listed (extentRecords disc e), ∀ r' ∈ listed (extentRecords disc e),
    r.directory = false → r'.directory = false → r.base = r'.base → r.extent = r'.extent
  path : (pathText p).length < 255
  paths : ∀ r ∈ listed (extentRecords disc e), r.directory = false →
    (pathText (p ++ [r.base])).length < 255

theorem listed_append (rs rs' : List Record) : listed (rs ++ rs') = listed rs ++ listed rs' :=
  List.filter_append ..

/-- A name that can be written is not that of a dot entry. -/
theorem isDot_of_writable {r : Record} (h : Writable r.base) : r.isDot = false := by
  refine isDot_eq_false ⟨fun hbase => ?_, fun hbase => ?_⟩
  · rw [hbase] at h
    exact absurd (h.2 0x00 List.mem_cons_self).1 (by decide)
  · rw [hbase] at h
    exact absurd (h.2 0x01 List.mem_cons_self).1 (by decide)

section Valid

variable {disc : Bytes} (hvalid : ValidImage disc) {p : List (List UInt8)} {e : IsoFile}

include hvalid

theorem writable_base (h : DirAt disc p e) {r : Record}
    (hr : r ∈ listed (extentRecords disc e)) : Writable r.base :=
  ⟨(hvalid p e h).2.nonempty r hr, (hvalid p e h).2.chars r hr⟩

theorem writable_path (h : DirAt disc p e) : ∀ c ∈ p, Writable c := by
  induction h with
  | root => exact fun c hc => absurd hc List.not_mem_nil
  | enter h hr _ ih =>
    intro c hc
    rcases List.mem_append.mp hc with hc | hc
    · exact ih c hc
    · rw [List.mem_singleton.mp hc]
      exact writable_base hvalid h hr

/-- In a directory without records behind its first sector, a listed record of either kind leads to
    the first one of its name that is listed there. -/
theorem find_listed_base (hlater : listed (laterRecords disc e) = []) (h : DirAt disc p e)
    {r : Record} (hr : r ∈ listed (extentRecords disc e)) :
    ∃ r' ∈ listed (extentRecords disc e), (walked disc).find r.directory e r.base = some r' ∧
      r'.directory = r.directory ∧ r'.base = r.base := by
  have hfirst : listed (extentRecords disc e) = listing disc e := by
    rw [extentRecords_eq, listed_append, hlater, List.append_nil]
    rfl
  rw [hfirst] at hr ⊢
  have hsome : ((walked disc).find r.directory e r.base).isSome :=
    List.find?_isSome.mpr ⟨r, (mem_listed.mp hr).1, decide_eq_true ⟨rfl, rfl⟩⟩
  obtain ⟨r', hfind⟩ := Option.isSome_iff_exists.mp hsome
  obtain ⟨hr', hkind, hbase⟩ := Catalog.find_eq_some hfind
  have hkind' : r'.directory = r.directory := hkind
  have hbase' : r'.base = r.base := hbase
  have hdot : r'.isDot = false := isDot_of_writable (hbase'.symm ▸
    writable_base hvalid h (hfirst.symm ▸ hr))
  exact ⟨r', mem_listed.mpr ⟨hr', hdot⟩, hfind, hkind', hbase'⟩

/-- A directory record is entered by its name. -/
theorem enter_listed (hlater : listed (laterRecords disc e) = []) (h : DirAt disc p e)
    {r : Record} (hr : r ∈ listed (extentRecords disc e)) (hdir : r.directory = true) :
    (walked disc).enter e r.base = some r.extent := by
  obtain ⟨r', hr', hfind, hkind, hbase⟩ := find_listed_base hvalid hlater h hr
  rw [hdir] at hfind hkind
  obtain rfl := (hvalid p e h).2.unique r' hr' r hr hkind hdir hbase
  rw [Catalog.enter, hfind]
  rfl

/-- As long as nothing is missed on the way, a path resolves to its directory. -/
theorem resolve_dirAt (hlater : ∀ p e, DirAt disc p e →
    (walked disc).resolve (rootDirectory disc) p = some e → listed (laterRecords disc e) = [])
    (h : DirAt disc p e) : (walked disc).resolve (rootDirectory disc) p = some e := by
  induction h with
  | root => rfl
  | @enter p e r h hr hdir ih =>
    rw [Catalog.resolve_concat, ih, Option.bind_some]
    exact enter_listed hvalid (hlater p e h ih) h hr hdir

theorem pathParts_dirAt (h : DirAt disc p e) : pathParts (pathText p) = p :=
  pathParts_pathText (writable_path hvalid h) (Nat.lt_of_le_of_lt (hvalid p e h).1 (by decide))

theorem writable_concat (h : DirAt disc p e) {r : Record} (hr : r ∈ listed (extentRecords disc e)) :
    ∀ c ∈ p ++ [r.base], Writable c := by
  intro c hc
  rcases List.mem_append.mp hc with hc | hc
  · exact writable_path hvalid h c hc
  · rw [List.mem_singleton.mp hc]
    exact writable_base hvalid h hr

theorem pathParts_concat (h : DirAt disc p e) {r : Record}
    (hr : r ∈ listed (extentRecords disc e)) :
    pathParts (pathText (p ++ [r.base])) = p ++ [r.base] := by
  refine pathParts_pathText (writable_concat hvalid h hr) ?_
  rw [List.length_append, List.length_singleton]
  have hdepth := (hvalid p e h).1
  omega

/-- The names in the first sector have no zeros. -/
theorem zero_not_mem_listing (h : DirAt disc p e) : ∀ r ∈ listing disc e, 0 ∉ r.base := by
  intro r hr hzero
  have hmem : r ∈ listed (extentRecords disc e) := by
    rw [extentRecords_eq, listed_append]
    exact List.mem_append_left _ hr
  exact absurd ((writable_base hvalid h hmem).2 0 hzero).1 (by decide)

end Valid

/-- A sector has room for few records. -/
theorem length_recordsFrom_le {sector : Bytes} {entry : Nat} (h : Terminated sector entry) :
    ∀ fuel, entry + 33 * (recordsFrom sector fuel entry).length ≤ 2048 := by
  induction h with
  | zero hin hend =>
    intro fuel
    cases fuel with
    | zero => exact Nat.le_of_lt hin
    | succ fuel =>
      rw [recordsFrom_zero fuel hend]
      exact Nat.le_of_lt hin
  | @record entry hne hname rest ih =>
    intro fuel
    have hlt := rest.lt
    cases fuel with
    | zero =>
      show entry + 33 * 0 ≤ 2048
      omega
    | succ fuel =>
      have hrest := ih fuel
      rw [recordsFrom_record fuel (by omega) hne, List.length_cons]
      omega

section Drives

variable {d : Drive} (hserves : ∀ k, d.Serves k 1) (hvalid : ValidImage d.disc)
  {p : List (List UInt8)} {e : IsoFile}

include hserves hvalid

/-- Where everything is found, nothing is behind the first sector. -/
theorem later_of_findsEverything (hfinds : FindsEverything d) (h : DirAt d.disc p e)
    (hresolve : (walked d.disc).resolve (rootDirectory d.disc) p = some e) :
    OneSector d.disc e ∧ listed (laterRecords d.disc e) = [] ∧ (pathText p).length < 255 := by
  obtain ⟨k, items', hlist, hreported⟩ := (hfinds p e h).2 clearStack
    (List.replicate 256 (List.replicate 255 0)) List.length_replicate fun item hitem => by
      rw [List.eq_of_mem_replicate hitem, List.length_replicate]
  obtain ⟨hlen, ⟨hk, -⟩ | ⟨e', i, hresolve', hk, hloop⟩⟩ := listItems_eq_some
    (zero_not_mem_pathText (writable_path hvalid h)) (fun k _ => hserves k) hlist
  · exact absurd hk (by omega)
  · rw [pathParts_dirAt hvalid h, hresolve] at hresolve'
    obtain rfl := Option.some.inj hresolve'
    obtain rfl : k = i := Int.ofNat.inj hk
    have hfits : Fits (sectorAt d.disc e.lba.toNat) 0 :=
      (hvalid p e h).2.fits 0 (Nat.zero_lt_succ _)
    have hone : OneSector d.disc e :=
      hfits.terminated (Option.isSome_iff_exists.mpr ⟨_, hloop⟩)
    refine ⟨hone, ?_, hlen⟩
    -- the number of items is that of the listed records of the first sector
    obtain ⟨-, hfirst⟩ := listItemsLoop_eq_some hone (zero_not_mem_listing hvalid h) hloop
    have hlength := congrArg List.length (hfirst.symm.trans hreported)
    rw [extentRecords_eq, listed_append, List.length_append, List.length_map, List.length_map,
      List.length_append] at hlength
    refine List.length_eq_zero_iff.mp ?_
    have hnone : (reported (List.replicate 256 (List.replicate 255 0)) 0).length = 0 := rfl
    have hsame : (listed (recordsFrom (sectorAt d.disc e.lba.toNat) 2049 0)).length
        = (listed (records (sectorAt d.disc e.lba.toNat))).length := rfl
    omega

/-- Where everything is found, every directory is read as a whole. -/
theorem readWhole_of_findsEverything (hfinds : FindsEverything d) (h : DirAt d.disc p e) :
    ReadWhole d.disc p e := by
  have hresolve := resolve_dirAt hvalid
    (fun p e h hresolve => (later_of_findsEverything hserves hvalid hfinds h hresolve).2.1) h
  obtain ⟨hone, hlater, hpath⟩ := later_of_findsEverything hserves hvalid hfinds h hresolve
  refine ⟨hone, hlater, fun r hr r' hr' hfile hfile' hbase => ?_, hpath, fun r hr hfile => ?_⟩
  · have hfound := (hfinds p e h).1 r hr hfile clearStack
    have hfound' := (hfinds p e h).1 r' hr' hfile' clearStack
    rw [← hbase, hfound] at hfound'
    exact Option.some.inj hfound'
  · have hfound := (hfinds p e h).1 r hr hfile clearStack
    obtain ⟨⟨file, call⟩, hfound, -⟩ := Option.map_eq_some_iff.mp hfound
    exact (getLbaFile_eq_some (zero_not_mem_pathText (writable_concat hvalid h hr))
      (readsRoot_of_serves hserves) hfound).1

/-- Where every directory is read as a whole, everything is found. -/
theorem findsEverything_of_readWhole (hwhole : ∀ p e, DirAt d.disc p e → ReadWhole d.disc p e) :
    FindsEverything d := by
  intro p e h
  have hresolves : ∀ p e, DirAt d.disc p e →
      (walked d.disc).resolve (rootDirectory d.disc) p = some e :=
    fun p e h => resolve_dirAt hvalid (fun p e h _ => (hwhole p e h).later) h
  -- the files first, then the listing of the directory
  refine ⟨fun r hr hfile s => ?_, fun s items hcount hitems => ?_⟩
  · have hone : ∀ q, q <+: p →
        OneSector d.disc ((walked d.disc).resolveSkipping (rootDirectory d.disc) q) := by
      intro q hq
      obtain ⟨e', he'⟩ := h.exists_of_prefix hq
      rw [Catalog.resolveSkipping_of_resolve (hresolves q e' he')]
      exact (hwhole q e' he').terminated
    obtain ⟨r', hr', hfind, hkind, hbase⟩ := find_listed_base hvalid (hwhole p e h).later h hr
    rw [hfile] at hfind hkind
    rw [getLbaFile_eq (zero_not_mem_pathText (writable_concat hvalid h hr))
      ((hwhole p e h).paths r hr hfile) (pathParts_concat hvalid h hr) (fun k _ => hserves k) hone,
      Catalog.resolveSkipping_of_resolve (hresolves p e h), foundFile, hfind]
    exact congrArg some ((hwhole p e h).files r' hr' r hr hkind hfile hbase)
  · have hone : ∀ q e', q <+: pathParts (pathText p) →
        (walked d.disc).resolve (rootDirectory d.disc) q = some e' → OneSector d.disc e' := by
      intro q e' hq hresolve
      rw [pathParts_dirAt hvalid h] at hq
      obtain ⟨e'', he''⟩ := h.exists_of_prefix hq
      rw [hresolves q e'' he''] at hresolve
      rw [← Option.some.inj hresolve]
      exact (hwhole q e'' he'').terminated
    have hterminated := (hwhole p e h).terminated
    -- a sector has fewer records than the list has slots
    have hcountRecords := length_recordsFrom_le hterminated 2049
    have hcountListed : (listed (recordsFrom (sectorAt d.disc e.lba.toNat) 2049 0)).length ≤
        (recordsFrom (sectorAt d.disc e.lba.toNat) 2049 0).length := List.length_filter_le _ _
    obtain ⟨⟨k, items'⟩, hloop⟩ := Option.isSome_iff_exists.mp
      (listItemsLoop_isSome hterminated 2049 0 items (by omega)
        (zero_not_mem_listing hvalid h) (by omega) fun item hitem => by
          rw [hitems item hitem]
          decide)
    refine ⟨k, items', ?_, ?_⟩
    · have hparts := pathParts_dirAt hvalid h
      rw [(listItems_eq (zero_not_mem_pathText (writable_path hvalid h)) (hwhole p e h).path
        (fun k _ => hserves k) hone items).2 e (hparts.symm ▸ hresolves p e h), hloop]
      rfl
    · rw [extentRecords_eq, listed_append, (hwhole p e h).later, List.append_nil]
      exact (listItemsLoop_eq_some hterminated (zero_not_mem_listing hvalid h) hloop).2

/-- **When everything is found** on a valid image: exactly when every directory is read as a
    whole. -/
theorem findsEverything_iff :
    FindsEverything d ↔ ∀ p e, DirAt d.disc p e → ReadWhole d.disc p e :=
  ⟨fun hfinds _ _ h => readWhole_of_findsEverything hserves hvalid hfinds h,
    findsEverything_of_readWhole hserves hvalid⟩

end Drives

/-! ## Two images -/

theorem mem_twoDirectories_of_dirAt {p : List (List UInt8)} {e : IsoFile}
    (h : DirAt twoDirectories p e) :
    (p, e) ∈ [([], IsoFile.mk 20 2048), ([bytes "SUB"], IsoFile.mk 21 2048)] := by
  have hclosed : ∀ x ∈ [([], IsoFile.mk 20 2048), ([bytes "SUB"], IsoFile.mk 21 2048)],
      ∀ r ∈ listed (extentRecords twoDirectories x.2), r.directory = true →
      (x.1 ++ [r.base], r.extent) ∈
        [([], IsoFile.mk 20 2048), ([bytes "SUB"], IsoFile.mk 21 2048)] := by decide +kernel
  induction h with
  | root => decide +kernel
  | enter _ hr hdir ih => exact hclosed _ ih _ hr hdir

theorem twoDirectories_valid : ValidImage twoDirectories := by
  have hsectors : ∀ x ∈ [([], IsoFile.mk 20 2048), ([bytes "SUB"], IsoFile.mk 21 2048)],
      x.1.length ≤ 14 ∧ ∀ i, i < x.2.sectors →
        Terminated (sectorAt twoDirectories (x.2.lba.toNat + i)) 0 := by decide +kernel
  have hnames : ∀ x ∈ [([], IsoFile.mk 20 2048), ([bytes "SUB"], IsoFile.mk 21 2048)],
      ∀ r ∈ listed (extentRecords twoDirectories x.2), r.base ≠ [] ∧
        (∀ c ∈ r.base, 0x20 ≤ c ∧ c ≠ '/'.toUInt8 ∧ upper c = c) ∧
        ∀ r' ∈ listed (extentRecords twoDirectories x.2), r.directory = true →
          r'.directory = true → r.base = r'.base → r = r' := by decide +kernel
  intro p e h
  have hmem := mem_twoDirectories_of_dirAt h
  exact ⟨(hsectors _ hmem).1, fun i hi => ((hsectors _ hmem).2 i hi).fits,
    fun r hr => (hnames _ hmem r hr).1, fun r hr => (hnames _ hmem r hr).2.1,
    fun r hr => (hnames _ hmem r hr).2.2⟩

/-- Everything in `twoDirectories` is found. -/
theorem findsEverything_iff_two : FindsEverything (flawless twoDirectories) := by
  have hone : ∀ x ∈ [([], IsoFile.mk 20 2048), ([bytes "SUB"], IsoFile.mk 21 2048)],
      OneSector twoDirectories x.2 ∧ listed (laterRecords twoDirectories x.2) = [] ∧
      (pathText x.1).length < 255 := by decide +kernel
  have hfiles : ∀ x ∈ [([], IsoFile.mk 20 2048), ([bytes "SUB"], IsoFile.mk 21 2048)],
      ∀ r ∈ listed (extentRecords twoDirectories x.2),
        (∀ r' ∈ listed (extentRecords twoDirectories x.2), r.directory = false →
          r'.directory = false → r.base = r'.base → r.extent = r'.extent) ∧
        (r.directory = false → (pathText (x.1 ++ [r.base])).length < 255) := by decide +kernel
  refine (findsEverything_iff (fun k => flawless_serves _ k 1) twoDirectories_valid).mpr
    fun p e h => ?_
  have hmem := mem_twoDirectories_of_dirAt h
  obtain ⟨hterminated, hlater, hpath⟩ := hone _ hmem
  exact ⟨hterminated, hlater, fun r hr => (hfiles _ hmem r hr).1, hpath,
    fun r hr => (hfiles _ hmem r hr).2⟩

/-- A root directory of two sectors, with the file `G` in the second one. -/
def longDirectory : Bytes :=
  discOf ⟨20, 4096, true, [0]⟩
    [(20, [⟨20, 4096, true, [0]⟩, ⟨20, 4096, true, [1]⟩, ⟨30, 9, false, bytes "F;1"⟩]),
      (21, [⟨31, 5, false, bytes "G;1"⟩])]

theorem longDirectory_valid : ValidImage longDirectory := by
  have hroot : ∀ i, i < (rootDirectory longDirectory).sectors →
      Terminated (sectorAt longDirectory ((rootDirectory longDirectory).lba.toNat + i)) 0 := by
    decide +kernel
  have hnames : ∀ r ∈ listed (extentRecords longDirectory (rootDirectory longDirectory)),
      r.directory = false ∧ r.base ≠ [] ∧
      ∀ c ∈ r.base, 0x20 ≤ c ∧ c ≠ '/'.toUInt8 ∧ upper c = c := by decide +kernel
  -- there is no directory but the root
  have honly : ∀ {p e}, DirAt longDirectory p e → p = [] ∧ e = rootDirectory longDirectory := by
    intro p e h
    induction h with
    | root => exact ⟨rfl, rfl⟩
    | enter _ hr hdir ih =>
      rw [ih.2] at hr
      rw [(hnames _ hr).1] at hdir
      nomatch hdir
  intro p e h
  obtain ⟨rfl, rfl⟩ := honly h
  refine ⟨by decide, fun i hi => (hroot i hi).fits, fun r hr => (hnames r hr).2.1,
    fun r hr => (hnames r hr).2.2, fun r hr r' _ hdir => ?_⟩
  rw [(hnames r hr).1] at hdir
  nomatch hdir

/-- The file `G` is not found. -/
theorem not_findsEverything : ¬ ∀ d : Drive, (∀ k, d.Serves k 1) → ValidImage d.disc →
    FindsEverything d := by
  intro h
  have hfinds := h (flawless longDirectory) (fun k => flawless_serves _ k 1) longDirectory_valid
  have hfile := (hfinds [] _ .root).1 ⟨31, 5, false, bytes "G;1"⟩ (by decide +kernel) rfl clearStack
  have hzeros : (getLbaFile (flawless longDirectory) clearStack
      (pathText ([] ++ [Record.base ⟨31, 5, false, bytes "G;1"⟩]) ++ [0])).map Prod.fst
      = some ⟨0, 0⟩ := by decide +kernel
  rw [hzeros] at hfile
  exact absurd hfile (by decide)

end MyOs.Drivers
