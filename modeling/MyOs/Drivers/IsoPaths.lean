/-
  Walking along a path.

  1. **The image** (`walked`): the directories of a disc as a catalog, each with the records of its
     first sector, which is all that the walks look at.
  2. **The parts of a path** (`pathParts`): the strings that `strsplit` leaves behind.
  3. **The two walks**: `list_items` resolves a path (`listItems_eq_some`), `get_lba_file` passes
     over what is missing, and over reads that fail (`getLbaFile_eq_some`).  Both have a result when
     the sectors on the way are well formed.
-/
import Mathlib.Data.List.Forall2
import MyOs.Lib.Directories
import MyOs.Drivers.IsoRecords

namespace MyOs.Drivers

open MyOs.Libraries MyOs.Lib.Directories

/-! ## The image -/

/-- A sector of a disc. -/
def sectorAt (disc : Bytes) (lba : Nat) : Bytes := fun j => disc (2048 * lba + j)

/-- The extent of a record. -/
def Record.extent (r : Record) : IsoFile := ⟨r.lba, r.size⟩

/-- The directories of a disc, each with the records of its first sector. -/
def walked (disc : Bytes) : Catalog IsoFile Record (List UInt8) where
  entries e := records (sectorAt disc e.lba.toNat)
  directory := Record.directory
  name := Record.base
  target := Record.extent

/-- The root directory, from the volume descriptor. -/
def rootDirectory (disc : Bytes) : IsoFile :=
  (recordAt (sectorAt disc pvdSector.toNat) rootDirRecord).extent

/-- A directory fits in one sector: well-formed records, and a zero byte behind them. -/
def OneSector (disc : Bytes) (e : IsoFile) : Prop := Terminated (sectorAt disc e.lba.toNat) 0

instance (disc : Bytes) (e : IsoFile) : Decidable (OneSector disc e) :=
  inferInstanceAs (Decidable (Terminated _ 0))

/-- All directories of an image do. -/
def SmallDirectories (disc : Bytes) : Prop :=
  ∀ e, (walked disc).Inside (rootDirectory disc) e → OneSector disc e

/-! ## Images from their records -/

/-- The bytes of a record. -/
def Record.bytes (r : Record) : List UInt8 :=
  let bothEndian (x : UInt32) : List UInt8 :=
    [x.toUInt8, (x >>> 8).toUInt8, (x >>> 16).toUInt8, (x >>> 24).toUInt8,
      (x >>> 24).toUInt8, (x >>> 16).toUInt8, (x >>> 8).toUInt8, x.toUInt8]
  [UInt8.ofNat (33 + r.name.length), 0] ++ bothEndian r.lba ++ bothEndian r.size ++
    List.replicate 7 0 ++ [if r.directory then 2 else 0, 0, 0, 1, 0, 0, 1] ++
    UInt8.ofNat r.name.length :: r.name

/-- A disc with a volume descriptor and some directory sectors. -/
def discOf (root : Record) (sectors : List (Nat × List Record)) : Bytes := fun j =>
  if j / 2048 = pvdSector.toNat then
    (List.replicate rootDirRecord 0 ++ root.bytes)[j % 2048]?.getD 0
  else ((sectors.lookup (j / 2048)).bind fun rs => (rs.flatMap Record.bytes)[j % 2048]?).getD 0

/-- A drive that makes no errors. -/
def flawless (disc : Bytes) : Drive := ⟨disc, fun _ => false, fun _ _ => false⟩

theorem flawless_serves (disc : Bytes) (call n : Nat) : (flawless disc).Serves call n :=
  ⟨rfl, fun _ _ => rfl⟩

/-- A stack of zeros. -/
def clearStack : Stack where
  pvd := fun _ => 0
  buffer := fun _ => 0
  filename := ⟨List.replicate 255 0, List.length_replicate⟩
  last := ⟨List.replicate 255 0, List.length_replicate⟩

/-- The bytes of a text. -/
def bytes (text : String) : List UInt8 := text.toList.map Char.toUInt8

/-! ## Reading a directory -/

/-- A buffer shows a directory: its bytes are those of the first sector. -/
def Shows (disc : Bytes) (buffer : Bytes) (e : IsoFile) : Prop :=
  byteAt buffer = byteAt (sectorAt disc e.lba.toNat)

/-- A read without an error puts a sector of the disc into the buffer. -/
theorem byteAt_atapiRead {d : Drive} {call : Nat} (hserves : d.Serves call 1) (lba : UInt32)
    (buffer : Bytes) :
    byteAt (d.atapiRead call lba 1 buffer).2 = byteAt (sectorAt d.disc lba.toNat) := by
  funext i
  unfold byteAt
  split
  · have hone : d.delivered call 1 = 1 := Drive.delivered_of_serves hserves
    rw [Drive.atapiRead_eq, hone, Drive.received, if_pos (by omega), sectorAt]
  · rfl

section Shown

variable {disc buffer : Bytes} {e : IsoFile} (hshows : Shows disc buffer e) {directory : Bool}
  {a c : List UInt8}

include hshows

/-- A search of a directory that is shown finds what the catalog has. -/
theorem search_shown {found : Option Nat} (ha : Holds a c)
    (h : search directory buffer a = some found) :
    found.map (recordAt (sectorAt disc e.lba.toNat)) = (walked disc).find directory e c := by
  obtain ⟨hc, rest, rfl⟩ := ha
  rw [search, searchLoop_congr hshows] at h
  exact search_eq_some hc h

/-- In a directory that fits in one sector a search has a result, whose fields can be read. -/
theorem search_shown_isSome (directory : Bool) (ha : Holds a c) (hone : OneSector disc e) :
    ∃ found, search directory buffer a = some found ∧
      ∀ entry, found = some entry →
        (entryLba buffer entry).isSome ∧ (entrySize buffer entry).isSome := by
  obtain ⟨hc, rest, rfl⟩ := ha
  obtain ⟨found, hfound, hin⟩ := (hone.searchable directory c).searchLoop rest hc 2049 (by omega)
  refine ⟨found, ?_, fun entry hentry => ?_⟩
  · rw [search, searchLoop_congr hshows]
    exact hfound
  · rw [entryLba_congr hshows, entrySize_congr hshows, entryLba_eq (hin entry hentry),
      entrySize_eq (hin entry hentry)]
    exact ⟨rfl, rfl⟩

/-- One step of a walk: the directory is missing, or the next one is the one entered. -/
theorem search_shown_enter {found : Option Nat} (ha : Holds a c)
    (h : search true buffer a = some found) :
    (found = none ∧ (walked disc).enter e c = none) ∨
    ∃ entry e', found = some entry ∧ (walked disc).enter e c = some e' ∧
      ∀ lba, entryLba buffer entry = some lba → lba = e'.lba := by
  have hfind := search_shown hshows ha h
  rw [Catalog.enter, ← hfind]
  cases found with
  | none => exact .inl ⟨rfl, rfl⟩
  | some entry =>
    refine .inr ⟨entry, _, rfl, rfl, fun lba hlba => ?_⟩
    rw [entryLba_congr hshows] at hlba
    exact entryLba_eq_some hlba

end Shown

/-! ## The parts of a path -/

/-- The parts of a path, as the walks compare them. -/
def pathParts (w : List UInt8) : List (List UInt8) :=
  stringsAt (splitString '/'.toUInt8 16 (w.map upper)).1 0
    (splitString '/'.toUInt8 16 (w.map upper)).2

/-- A path that is short enough is split, and its items hold its parts. -/
theorem splitPath_eq (rest : List UInt8) {filename w : List UInt8} (hfilename : filename.length = 255)
    (hw : 0 ∉ w) (hlen : w.length < 255) : ∃ left offsets,
      splitPath filename (w ++ 0 :: rest) = some (left, offsets) ∧
      ∃ part : Nat → List UInt8, pathParts w = offsets.map part ∧
        ∀ p ∈ offsets, Holds (pathItem left p) (part p) ∧ (part p).length ≤ w.length := by
  have hupper : 0 ∉ w.map upper := zero_not_mem_map upper_ne_zero hw
  have hslash : '/'.toUInt8 ≠ 0 := by decide
  refine ⟨(splitString '/'.toUInt8 16 (w.map upper)).1 ++ 0 :: filename.drop (w.length + 1), _, ?_,
    fun p => cString ((splitString '/'.toUInt8 16 (w.map upper)).1.drop (p - 0)), rfl,
    fun p hp => ?_⟩
  · unfold splitPath
    have hcopy : strncpy filename ((w ++ 0 :: rest)[·]?) 255
        = some (w ++ 0 :: filename.drop (w.length + 1)) := strncpy_eq hw (by omega) (by omega)
    rw [hcopy]
    simp only [Option.bind_eq_bind, Option.bind_some, toUpperCase_eq hw,
      strsplit_eq_splitString hslash 16 hupper]
  · have hlt := mem_splitString hp
    rw [pathItem, List.drop_append_of_le_length (by rw [length_splitString]; omega)]
    refine ⟨holds_cString _ _, Nat.le_trans (List.takeWhile_prefix _).length_le ?_⟩
    rw [List.length_drop, length_splitString, List.length_map]
    exact Nat.sub_le _ _

/-- The last part, and those in front of it. -/
theorem pathParts_eq_concat {w : List UInt8} (h : pathParts w ≠ []) :
    ∃ comps last, pathParts w = comps ++ [last] :=
  ⟨_, _, (List.dropLast_append_getLast h).symm⟩

/-- Items that hold their parts, one by one. -/
theorem forall₂_holds {left : List UInt8} {offsets : List Nat} {part : Nat → List UInt8}
    (h : ∀ p ∈ offsets, Holds (pathItem left p) (part p)) :
    List.Forall₂ Holds (offsets.map (pathItem left)) (offsets.map part) :=
  List.forall₂_map_left_iff.mpr (List.forall₂_map_right_iff.mpr (List.forall₂_same.mpr h))

/-- A longer path does not fit into `filename`. -/
theorem splitPath_eq_none {filename w rest : List UInt8} (hfilename : filename.length = 255)
    (hw : 0 ∉ w) (hlen : 255 ≤ w.length) : splitPath filename (w ++ 0 :: rest) = none := by
  unfold splitPath
  rw [strncpy_terminated hw, List.length_take, if_neg (by omega)]
  rfl

/-! ## The walk of `get_lba_file` -/

/-- Where the walk is: the directory that the buffer shows, and the one that was reached. -/
structure Place where
  shown : IsoFile
  reached : IsoFile

/-- After a read the buffer shows the directory that was reached; after an error, the old one. -/
def Place.read (d : Drive) (call : Nat) (p : Place) : Place :=
  if d.delivered call 1 = 1 then ⟨p.reached, p.reached⟩ else p

/-- The walk, by the directories that it sees. -/
def walkOver (d : Drive) : Nat → Place → List (List UInt8) → Place
  | _, p, [] => p
  | call, p, n :: comps =>
    walkOver d (call + 1)
      ⟨(p.read d call).shown, ((walked d.disc).enter (p.read d call).shown n).getD p.reached⟩ comps

section Places

variable {d : Drive} {call : Nat} {p : Place} {buffer : Bytes}

theorem Place.read_of_serves (h : d.Serves call 1) : p.read d call = ⟨p.reached, p.reached⟩ :=
  if_pos (Drive.delivered_of_serves h)

/-- The buffer after a read. -/
theorem shows_read (h : Shows d.disc buffer p.shown ∨ d.Serves call 1) :
    Shows d.disc (d.atapiRead call p.reached.lba 1 buffer).2 (p.read d call).shown := by
  by_cases hserves : d.Serves call 1
  · rw [Place.read_of_serves hserves]
    exact byteAt_atapiRead hserves p.reached.lba buffer
  · have hzero := Drive.delivered_one_of_not_serves hserves
    rw [Place.read, hzero, if_neg (by decide), Drive.atapiRead_eq, hzero, Drive.received_zero]
    exact h.resolve_right hserves

/-- The reads behind the first one. -/
theorem serves_succ {n : Nat} (h : ∀ k, k < n + 1 → d.Serves (call + k) 1) :
    ∀ k, k < n → d.Serves (call + 1 + k) 1 := by
  intro k hk
  rw [Nat.add_assoc, Nat.add_comm 1]
  exact h (k + 1) (Nat.succ_lt_succ hk)

/-- Without errors the walk passes over what is missing. -/
theorem walkOver_of_serves : ∀ {comps : List (List UInt8)} {call : Nat} {p : Place},
    (∀ k, k < comps.length → d.Serves (call + k) 1) →
    (walkOver d call p comps).reached = (walked d.disc).resolveSkipping p.reached comps
  | [], _, _, _ => rfl
  | n :: comps, call, p, h => by
    have hfirst : d.Serves call 1 := h 0 (Nat.zero_lt_succ _)
    rw [walkOver, walkOver_of_serves (serves_succ h), Place.read_of_serves hfirst,
      Catalog.resolveSkipping]

end Places

section Walks

variable {d : Drive} {items comps : List (List UInt8)}

/-- **The first loop of `get_lba_file`** walks over the directories that the reads show. -/
theorem getLbaFilePath_eq_some (hitems : List.Forall₂ Holds items comps) :
    ∀ {call : Nat} {p : Place} {buffer : Bytes} {found : UInt32 × Nat × Bytes},
    Shows d.disc buffer p.shown ∨ d.Serves call 1 →
    getLbaFilePath d items call p.reached.lba buffer = some found →
    ∃ buffer', found = ((walkOver d call p comps).reached.lba, call + comps.length, buffer') ∧
      (Shows d.disc buffer' (walkOver d call p comps).shown ∨
        d.Serves (call + comps.length) 1) := by
  induction hitems with
  | nil =>
    intro call p buffer found hshows h
    exact ⟨buffer, (Option.some.inj h).symm, hshows⟩
  | cons ha hitems ih =>
    intro call p buffer found hshows h
    have hread := shows_read hshows
    rw [List.length_cons, Nat.add_comm _ 1, ← Nat.add_assoc, walkOver]
    rw [getLbaFilePath] at h
    obtain ⟨here, hhere, h⟩ := Option.bind_eq_some_iff.mp h
    rcases search_shown_enter hread ha hhere with ⟨rfl, henter⟩ | ⟨entry, e', rfl, henter, hlba'⟩
    · rw [henter]
      exact ih (p := ⟨(p.read d call).shown, p.reached⟩) (.inl hread) h
    · obtain ⟨lba, hlba, h⟩ := Option.bind_eq_some_iff.mp h
      obtain rfl := hlba' lba hlba
      rw [henter]
      exact ih (p := ⟨_, e'⟩) (.inl hread) h

/-- It has a result when the directories that are shown fit in one sector. -/
theorem getLbaFilePath_isSome (hitems : List.Forall₂ Holds items comps) :
    ∀ {call : Nat} {p : Place} {buffer : Bytes},
    Shows d.disc buffer p.shown ∨ d.Serves call 1 →
    (∀ q, q <+: comps →
      OneSector d.disc ((walkOver d call p q).read d (call + q.length)).shown) →
    (getLbaFilePath d items call p.reached.lba buffer).isSome := by
  induction hitems with
  | nil =>
    intro call p buffer _ _
    rfl
  | @cons a c items comps ha hitems ih =>
    intro call p buffer hshows hone
    have hread := shows_read hshows
    have hhere : OneSector d.disc (p.read d call).shown := hone [] List.nil_prefix
    have hdeeper : ∀ q, q <+: comps → OneSector d.disc ((walkOver d (call + 1)
        ⟨(p.read d call).shown, ((walked d.disc).enter (p.read d call).shown c).getD p.reached⟩
        q).read d (call + 1 + q.length)).shown := by
      intro q hq
      have h := hone (c :: q) ((List.prefix_cons_inj c).mpr hq)
      rwa [List.length_cons, Nat.add_comm q.length, ← Nat.add_assoc] at h
    obtain ⟨here, hsearch, hfields⟩ := search_shown_isSome hread true ha hhere
    rw [getLbaFilePath]
    simp only [hsearch, Option.bind_eq_bind, Option.bind_some]
    -- a component that is missing leaves the walk where it is
    rcases search_shown_enter hread ha hsearch with ⟨rfl, henter⟩ | ⟨entry, e', rfl, henter, hlba'⟩
    · rw [henter] at hdeeper
      exact ih (p := ⟨(p.read d call).shown, p.reached⟩) (.inl hread) hdeeper
    · obtain ⟨lba, hlba⟩ := Option.isSome_iff_exists.mp (hfields entry rfl).1
      obtain rfl := hlba' lba hlba
      rw [henter] at hdeeper
      simp only [hlba, Option.bind_some]
      exact ih (p := ⟨_, e'⟩) (.inl hread) hdeeper

/-! ## The walk of `list_items` -/

/-- **The first loop of `list_items`** resolves the path. -/
theorem listItemsPath_eq_some (hitems : List.Forall₂ Holds items comps) :
    ∀ {call : Nat} {e : IsoFile} {buffer : Bytes} {found : Option (UInt32 × Nat × Bytes)},
    (∀ k, k < comps.length → d.Serves (call + k) 1) →
    listItemsPath d items call e.lba buffer = some found →
    (found = none ∧ (walked d.disc).resolve e comps = none) ∨
    ∃ e' buffer', (walked d.disc).resolve e comps = some e' ∧
      found = some (e'.lba, call + comps.length, buffer') := by
  induction hitems with
  | nil =>
    intro call e buffer found _ h
    exact .inr ⟨e, buffer, rfl, (Option.some.inj h).symm⟩
  | cons ha hitems ih =>
    intro call e buffer found hserves h
    rw [List.length_cons] at hserves ⊢
    rw [Nat.add_comm _ 1, ← Nat.add_assoc, Catalog.resolve]
    rw [listItemsPath] at h
    obtain ⟨here, hhere, h⟩ := Option.bind_eq_some_iff.mp h
    have hshows : Shows d.disc (d.atapiRead call e.lba 1 buffer).2 e :=
      byteAt_atapiRead (hserves 0 (Nat.zero_lt_succ _)) e.lba buffer
    rcases search_shown_enter hshows ha hhere with ⟨rfl, henter⟩ | ⟨entry, e', rfl, henter, hlba'⟩
    · rw [henter]
      exact .inl ⟨(Option.some.inj h).symm, rfl⟩
    · obtain ⟨lba, hlba, h⟩ := Option.bind_eq_some_iff.mp h
      obtain rfl := hlba' lba hlba
      rw [henter]
      exact ih (serves_succ hserves) h

/-- It has a result when the directories on the way fit in one sector. -/
theorem listItemsPath_isSome (hitems : List.Forall₂ Holds items comps) :
    ∀ {call : Nat} {e : IsoFile} (buffer : Bytes),
    (∀ k, k < comps.length → d.Serves (call + k) 1) →
    (∀ q e', q <+: comps → (walked d.disc).resolve e q = some e' → OneSector d.disc e') →
    (listItemsPath d items call e.lba buffer).isSome := by
  induction hitems with
  | nil =>
    intro call e buffer _ _
    rfl
  | @cons a c items comps ha hitems ih =>
    intro call e buffer hserves hone
    have hshows : Shows d.disc (d.atapiRead call e.lba 1 buffer).2 e :=
      byteAt_atapiRead (hserves 0 (Nat.zero_lt_succ _)) e.lba buffer
    have hhere : OneSector d.disc e := hone [] e List.nil_prefix rfl
    obtain ⟨here, hsearch, hfields⟩ := search_shown_isSome hshows true ha hhere
    rw [listItemsPath]
    simp only [hsearch, Option.bind_eq_bind, Option.bind_some]
    rcases search_shown_enter hshows ha hsearch with ⟨rfl, henter⟩ | ⟨entry, e', rfl, henter, hlba'⟩
    · rfl
    · obtain ⟨lba, hlba⟩ := Option.isSome_iff_exists.mp (hfields entry rfl).1
      obtain rfl := hlba' lba hlba
      simp only [hlba, Option.bind_some]
      refine ih _ (serves_succ hserves) fun q e'' hq hresolve => ?_
      refine hone (c :: q) e'' ((List.prefix_cons_inj c).mpr hq) ?_
      rw [Catalog.resolve, henter]
      exact hresolve

end Walks

/-! ## Finding a file -/

/-- The first file of a name in a directory, as `get_lba_file` returns it. -/
def foundFile (disc : Bytes) (e : IsoFile) (name : List UInt8) : IsoFile :=
  (((walked disc).find false e name).map Record.extent).getD ⟨0, 0⟩

section Files

variable {d : Drive} {s : Stack}

theorem entryLba_pvd (h : d.Serves 0 1) (pvd : Bytes) :
    entryLba (d.atapiRead 0 pvdSector 1 pvd).2 rootDirRecord = some (rootDirectory d.disc).lba := by
  rw [entryLba_congr (byteAt_atapiRead h pvdSector pvd)]
  exact entryLba_eq (by decide)

theorem getLbaFileEntry_eq_some {call : Nat} {lba : UInt32} {e : IsoFile} {buffer : Bytes}
    {a c : List UInt8} {found : IsoFile × Nat}
    (hshows : Shows d.disc (d.atapiRead call lba 1 buffer).2 e) (ha : Holds a c)
    (h : getLbaFileEntry d a call lba buffer = some found) :
    found = (foundFile d.disc e c, call + 1) := by
  unfold getLbaFileEntry at h
  obtain ⟨here, hhere, h⟩ := Option.bind_eq_some_iff.mp h
  rw [foundFile, ← search_shown hshows ha hhere]
  cases here with
  | none => exact (Option.some.inj h).symm
  | some entry =>
    obtain ⟨lba, hlba, h⟩ := Option.bind_eq_some_iff.mp h
    obtain ⟨size, hsize, h⟩ := Option.bind_eq_some_iff.mp h
    rw [entryLba_congr hshows] at hlba
    rw [entrySize_congr hshows] at hsize
    rw [← Option.some.inj h, entryLba_eq_some hlba, entrySize_eq_some hsize]
    rfl

theorem getLbaFileEntry_isSome {call : Nat} {lba : UInt32} {e : IsoFile} {buffer : Bytes}
    {a c : List UInt8} (hshows : Shows d.disc (d.atapiRead call lba 1 buffer).2 e)
    (ha : Holds a c) (hone : OneSector d.disc e) :
    (getLbaFileEntry d a call lba buffer).isSome := by
  obtain ⟨here, hsearch, hfields⟩ := search_shown_isSome hshows false ha hone
  unfold getLbaFileEntry
  simp only [hsearch, Option.bind_eq_bind, Option.bind_some]
  cases here with
  | none => rfl
  | some entry =>
    obtain ⟨lba, hlba⟩ := Option.isSome_iff_exists.mp (hfields entry rfl).1
    obtain ⟨size, hsize⟩ := Option.isSome_iff_exists.mp (hfields entry rfl).2
    simp only [hlba, hsize, Option.bind_some]
    rfl

variable {w rest : List UInt8}

/-- `get_lba_file` without what it does to the path. -/
theorem getLbaFile_eq_path (s : Stack) (rest : List UInt8) (hpvd : d.Serves 0 1) (hw : 0 ∉ w)
    (hlen : w.length < 255)
    {comps : List (List UInt8)} {last : List UInt8} (hparts : pathParts w = comps ++ [last]) :
    ∃ items lastItem buffer, List.Forall₂ Holds items comps ∧ Holds lastItem last ∧
      (d.Serves 1 1 → Shows d.disc buffer (rootDirectory d.disc)) ∧
      getLbaFile d s (w ++ 0 :: rest)
        = (getLbaFilePath d items 2 (rootDirectory d.disc).lba buffer).bind fun found =>
          getLbaFileEntry d lastItem found.2.1 found.1 found.2.2 := by
  obtain ⟨left, offsets, hsplit, part, hoffsets, hitems⟩ :=
    splitPath_eq rest s.filename.2 hw hlen
  rw [hparts] at hoffsets
  obtain ⟨others, p, rfl⟩ : ∃ others p, offsets = others ++ [p] := by
    rcases List.eq_nil_or_concat offsets with rfl | ⟨others, p, hconcat⟩
    · exact absurd hoffsets (List.append_ne_nil_of_right_ne_nil _ (List.cons_ne_nil _ _))
    · exact ⟨others, p, by rw [hconcat, List.concat_eq_append]⟩
  rw [List.map_append, List.map_singleton] at hoffsets
  obtain ⟨rfl, hlast⟩ := List.append_inj' hoffsets rfl
  obtain rfl : last = part p := List.singleton_inj.mp hlast
  obtain ⟨⟨hzero, behind, hp⟩, hplen⟩ := hitems p List.mem_concat_self
  have hcopy : strncpy s.last.1 ((part p ++ 0 :: behind)[·]?) 255
      = some (part p ++ 0 :: s.last.1.drop ((part p).length + 1)) :=
    strncpy_eq hzero (by omega) (by rw [s.last.2]; omega)
  refine ⟨_, part p ++ 0 :: s.last.1.drop ((part p).length + 1),
    (d.atapiRead 1 (rootDirectory d.disc).lba 1 s.buffer).2,
    forall₂_holds fun q hq => (hitems q (List.mem_append_left _ hq)).1, ⟨hzero, _, rfl⟩,
    fun hserves => byteAt_atapiRead hserves _ _, ?_⟩
  unfold getLbaFile
  simp only [hsplit, Option.bind_eq_bind, Option.bind_some, List.getLast?_concat, hp, hcopy,
    entryLba_pvd hpvd, List.dropLast_concat]

/-- The volume descriptor and the root directory are read, the latter at the first or at the second
    attempt. -/
def ReadsRoot (d : Drive) : Prop := d.Serves 0 1 ∧ (d.Serves 1 1 ∨ d.Serves 2 1)

theorem readsRoot_of_serves (h : ∀ k, d.Serves k 1) : ReadsRoot d := ⟨h 0, .inl (h 1)⟩

/-- The directory that is shown at the end of the walk along a path. -/
def shownAtEnd (d : Drive) (comps : List (List UInt8)) : IsoFile :=
  ((walkOver d 2 ⟨rootDirectory d.disc, rootDirectory d.disc⟩ comps).read d (2 + comps.length)).shown

/-- **`get_lba_file`** finds the first file of the name in the directory that is shown at the end of
    the walk. -/
theorem getLbaFile_eq_some {file : IsoFile} {call : Nat} (hw : 0 ∉ w) (hroot : ReadsRoot d)
    (h : getLbaFile d s (w ++ 0 :: rest) = some (file, call)) :
    w.length < 255 ∧ ∃ comps last, pathParts w = comps ++ [last] ∧ call = comps.length + 3 ∧
      file = foundFile d.disc (shownAtEnd d comps) last := by
  by_cases hlen : w.length < 255
  · refine ⟨hlen, ?_⟩
    by_cases hnone : pathParts w = []
    · -- without parts there is no last one to read
      obtain ⟨left, offsets, hsplit, part, hoffsets, -⟩ :=
        splitPath_eq rest s.filename.2 hw hlen
      obtain rfl : offsets = [] := List.map_eq_nil_iff.mp (hoffsets.symm.trans hnone)
      unfold getLbaFile at h
      simp only [hsplit, Option.bind_eq_bind, Option.bind_some, List.getLast?_nil] at h
      nomatch h
    · obtain ⟨comps, last, hparts⟩ := pathParts_eq_concat hnone
      obtain ⟨items, lastItem, buffer, hitems, hlast, hshows, heq⟩ :=
        getLbaFile_eq_path s rest hroot.1 hw hlen hparts
      rw [heq] at h
      obtain ⟨found, hfound, h⟩ := Option.bind_eq_some_iff.mp h
      obtain ⟨buffer', rfl, hshows'⟩ := getLbaFilePath_eq_some
        (p := ⟨rootDirectory d.disc, rootDirectory d.disc⟩) hitems (hroot.2.imp_left hshows) hfound
      obtain ⟨rfl, rfl⟩ := Prod.mk.inj (getLbaFileEntry_eq_some (shows_read hshows') hlast h)
      refine ⟨comps, last, hparts, ?_, rfl⟩
      show 2 + comps.length + 1 = comps.length + 3
      omega
  · unfold getLbaFile at h
    simp only [splitPath_eq_none s.filename.2 hw (Nat.le_of_not_lt hlen)] at h
    nomatch h

/-- It has this result when the directories that are shown fit in one sector. -/
theorem getLbaFile_eq_shown (s : Stack) (rest : List UInt8) (hw : 0 ∉ w) (hlen : w.length < 255)
    {comps : List (List UInt8)} {last : List UInt8} (hparts : pathParts w = comps ++ [last]) (hroot : ReadsRoot d)
    (hone : ∀ q, q <+: comps → OneSector d.disc (shownAtEnd d q)) :
    getLbaFile d s (w ++ 0 :: rest)
      = some (foundFile d.disc (shownAtEnd d comps) last, comps.length + 3) := by
  obtain ⟨items, lastItem, buffer, hitems, hlast, hshows, heq⟩ :=
    getLbaFile_eq_path s rest hroot.1 hw hlen hparts
  have hstart := hroot.2.imp_left hshows
  obtain ⟨found, hfound⟩ := Option.isSome_iff_exists.mp (getLbaFilePath_isSome
    (p := ⟨rootDirectory d.disc, rootDirectory d.disc⟩) hitems hstart hone)
  obtain ⟨buffer', rfl, hshows'⟩ := getLbaFilePath_eq_some
    (p := ⟨rootDirectory d.disc, rootDirectory d.disc⟩) hitems hstart hfound
  have hend := shows_read hshows'
  obtain ⟨file, hfile⟩ := Option.isSome_iff_exists.mp
    (getLbaFileEntry_isSome hend hlast (hone comps (List.prefix_refl comps)))
  have hcall : 2 + comps.length + 1 = comps.length + 3 := by omega
  rw [heq, hfound, Option.bind_some, hfile, getLbaFileEntry_eq_some hend hlast hfile, hcall]
  rfl

/-- Without errors the walk passes over missing directories. -/
theorem shownAtEnd_of_serves {comps : List (List UInt8)}
    (h : ∀ k, k ≤ comps.length + 2 → d.Serves k 1) :
    shownAtEnd d comps = (walked d.disc).resolveSkipping (rootDirectory d.disc) comps := by
  have hpath : ∀ k, k < comps.length → d.Serves (2 + k) 1 := fun k hk => h (2 + k) (by omega)
  rw [shownAtEnd, Place.read_of_serves (h (2 + comps.length) (by omega))]
  exact walkOver_of_serves hpath

theorem getLbaFile_eq (hw : 0 ∉ w) (hlen : w.length < 255) {comps : List (List UInt8)}
    {last : List UInt8} (hparts : pathParts w = comps ++ [last])
    (hserves : ∀ k, k ≤ comps.length + 2 → d.Serves k 1)
    (hone : ∀ q, q <+: comps →
      OneSector d.disc ((walked d.disc).resolveSkipping (rootDirectory d.disc) q)) :
    getLbaFile d s (w ++ 0 :: rest) = some (foundFile d.disc
      ((walked d.disc).resolveSkipping (rootDirectory d.disc) comps) last, comps.length + 3) := by
  have hshown : ∀ q, q <+: comps →
      shownAtEnd d q = (walked d.disc).resolveSkipping (rootDirectory d.disc) q := fun q hq =>
    shownAtEnd_of_serves fun k hk => hserves k (by have := hq.length_le; omega)
  rw [getLbaFile_eq_shown s rest hw hlen hparts ⟨hserves 0 (by omega), .inl (hserves 1 (by omega))⟩
    fun q hq => (hshown q hq).symm ▸ hone q hq, hshown comps (List.prefix_refl comps)]

/-! ## Listing a directory -/

/-- `list_items` without what it does to the path. -/
theorem listItems_eq_path (s : Stack) (rest : List UInt8) (hpvd : d.Serves 0 1) (hw : 0 ∉ w)
    (hlen : w.length < 255)
    (items : List (List UInt8)) : ∃ dirs buffer, List.Forall₂ Holds dirs (pathParts w) ∧
      listItems d s (w ++ 0 :: rest) items
        = (listItemsPath d dirs 2 (rootDirectory d.disc).lba buffer).bind
          (listItemsEntries d items) := by
  obtain ⟨left, offsets, hsplit, part, hoffsets, hitems⟩ :=
    splitPath_eq rest s.filename.2 hw hlen
  refine ⟨_, (d.atapiRead 1 (rootDirectory d.disc).lba 1 s.buffer).2,
    hoffsets ▸ forall₂_holds fun q hq => (hitems q hq).1, ?_⟩
  unfold listItems
  simp only [hsplit, Option.bind_eq_bind, Option.bind_some, entryLba_pvd hpvd]

theorem listItemsLoop_congr {buffer sector : Bytes} (h : byteAt buffer = byteAt sector) :
    ∀ fuel entry i items, listItemsLoop buffer fuel entry i items
      = listItemsLoop sector fuel entry i items
  | 0, _, _, _ => rfl
  | fuel + 1, entry, i, items => by
    have hdot : isDotEntry buffer entry = isDotEntry sector entry := by
      rw [isDotEntry, entryNameLength, h, entryName_congr h]
      rfl
    have hstore : storeItem buffer entry items i = storeItem sector entry items i := by
      rw [storeItem, cmpLen_congr h, entryName_congr h]
      rfl
    rw [listItemsLoop, h, hdot, hstore]
    simp only [listItemsLoop_congr h fuel]
    rfl

/-- **`list_items`** on a missing directory, and on one that the path resolves to. -/
theorem listItems_eq_some {items items' : List (List UInt8)} {k : Int} (hw : 0 ∉ w)
    (hserves : ∀ k, k ≤ (pathParts w).length + 2 → d.Serves k 1)
    (h : listItems d s (w ++ 0 :: rest) items = some (k, items')) :
    w.length < 255 ∧
    ((k = -1 ∧ (walked d.disc).resolve (rootDirectory d.disc) (pathParts w) = none) ∨
    ∃ e i, (walked d.disc).resolve (rootDirectory d.disc) (pathParts w) = some e ∧ k = (i : Nat) ∧
      listItemsLoop (sectorAt d.disc e.lba.toNat) 2049 0 0 items = some (i, items')) := by
  by_cases hlen : w.length < 255
  · refine ⟨hlen, ?_⟩
    obtain ⟨dirs, buffer, hdirs, heq⟩ :=
      listItems_eq_path s rest (hserves 0 (by omega)) hw hlen items
    rw [heq] at h
    obtain ⟨found, hfound, h⟩ := Option.bind_eq_some_iff.mp h
    rcases listItemsPath_eq_some hdirs (fun k hk => hserves (2 + k) (by omega)) hfound with
      ⟨rfl, hresolve⟩ | ⟨e, buffer', hresolve, rfl⟩
    · obtain ⟨rfl, -⟩ := Prod.mk.inj (Option.some.inj h)
      exact .inl ⟨rfl, hresolve⟩
    · obtain ⟨⟨i, listed⟩, hlisted, h⟩ := Option.bind_eq_some_iff.mp h
      obtain ⟨rfl, rfl⟩ := Prod.mk.inj (Option.some.inj h)
      have hhere : d.Serves (2 + (pathParts w).length) 1 := hserves _ (by omega)
      rw [listItemsLoop_congr (byteAt_atapiRead hhere e.lba buffer')] at hlisted
      exact .inr ⟨e, i, hresolve, rfl, hlisted⟩
  · unfold listItems at h
    simp only [splitPath_eq_none s.filename.2 hw (Nat.le_of_not_lt hlen)] at h
    nomatch h

/-- When the directories on the way fit in one sector, it has a result as far as the path goes. -/
theorem listItems_eq (hw : 0 ∉ w) (hlen : w.length < 255)
    (hserves : ∀ k, k ≤ (pathParts w).length + 2 → d.Serves k 1)
    (hone : ∀ q e, q <+: pathParts w →
      (walked d.disc).resolve (rootDirectory d.disc) q = some e → OneSector d.disc e)
    (items : List (List UInt8)) :
    ((walked d.disc).resolve (rootDirectory d.disc) (pathParts w) = none →
      listItems d s (w ++ 0 :: rest) items = some (-1, items)) ∧
    ∀ e, (walked d.disc).resolve (rootDirectory d.disc) (pathParts w) = some e →
      listItems d s (w ++ 0 :: rest) items
        = (listItemsLoop (sectorAt d.disc e.lba.toNat) 2049 0 0 items).map fun listed =>
          ((listed.1 : Int), listed.2) := by
  obtain ⟨dirs, buffer, hdirs, heq⟩ :=
    listItems_eq_path s rest (hserves 0 (by omega)) hw hlen items
  have hpath : ∀ k, k < (pathParts w).length → d.Serves (2 + k) 1 :=
    fun k hk => hserves (2 + k) (by omega)
  obtain ⟨found, hfound⟩ := Option.isSome_iff_exists.mp
    (listItemsPath_isSome hdirs buffer hpath hone)
  rw [heq, hfound, Option.bind_some]
  rcases listItemsPath_eq_some hdirs hpath hfound with
    ⟨rfl, hresolve⟩ | ⟨e, buffer', hresolve, rfl⟩
  · refine ⟨fun _ => rfl, fun e he => ?_⟩
    rw [hresolve] at he
    nomatch he
  · refine ⟨fun hnone => ?_, fun e' he' => ?_⟩
    · rw [hresolve] at hnone
      nomatch hnone
    · obtain rfl := Option.some.inj (hresolve.symm.trans he')
      have hhere : d.Serves (2 + (pathParts w).length) 1 := hserves _ (by omega)
      rw [listItemsEntries, listItemsLoop_congr (byteAt_atapiRead hhere e.lba buffer')]
      exact Option.map_eq_bind.symm

end Files

end MyOs.Drivers
