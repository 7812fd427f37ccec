/-
  What `get_lba_file` and `list_items` touch of the arrays `path`, `filename` and `last`.

  The functions of `Iso` have no result when an access is outside any array.  Here they say which
  one it was, and read `path[i]` by its index, where the source does.

  1. **The same functions** (`toOption_getLbaFileAccess`, `toOption_listItemsAccess`): forgetting
     which array it was gives the functions of `Iso`.
  2. **The loops** (`getLbaFilePathAccess_eq`, `listItemsPathAccess_eq`): the index is always one of a
     part.
  3. **Which paths are safe** (`pathAccess_inside_iff`): those that fit in `filename` with their
     terminator, and for `get_lba_file` have a part.
-/
import MyOs.Drivers.IsoWalks

namespace MyOs.Drivers

open MyOs.Libraries

/-- Where an access outside an array was meant to go.  The sector buffers and the items are
    elsewhere. -/
inductive Outside where
  | path
  | filename
  | last
  | elsewhere
  deriving DecidableEq

section Accesses

variable {α β : Type}

/-- An access that has no result outside. -/
def within (o : Outside) : Option α → Except Outside α
  | some a => .ok a
  | none => .error o

theorem within_some (o : Outside) (a : α) : within o (some a) = .ok a := rfl

theorem ok_bind (a : α) (f : α → Except Outside β) : (.ok a >>= f) = f a := rfl

theorem within_bind (o : Outside) (x : Option α) (f : α → Option β) :
    (within o x >>= fun a => within o (f a)) = within o (x.bind f) := by
  cases x <;> rfl

@[simp] theorem toOption_within (o : Outside) (x : Option α) : (within o x).toOption = x := by
  cases x <;> rfl

/-- `path[i]` behind `strsplit`, which returned the number of the parts. -/
def pathAt (path : List α) (i : Int) : Except Outside α :=
  if 0 ≤ i then within .path path[i.toNat]? else .error .path

theorem pathAt_border (before : List α) (p : α) (after : List α) :
    pathAt (before ++ p :: after) before.length = .ok p := by
  rw [pathAt, if_pos (Int.natCast_nonneg _), Int.toNat_natCast, List.getElem?_append_right
    (Nat.le_refl _), Nat.sub_self]
  rfl

/-- The next index, -/
theorem length_border_succ (before : List α) (p : α) :
    (before.length : Int) + 1 = (before ++ [p]).length := by
  rw [List.length_append, List.length_singleton]
  rfl

/-- and that of the last part, `a - 1`. -/
theorem length_border_pred (before : List α) (p : α) :
    ((before ++ [p]).length : Int) - 1 = before.length := by
  rw [← length_border_succ before p, Int.add_sub_cancel]

end Accesses

/-! ## The functions -/

def splitPathAccess (filename name : List UInt8) : Except Outside (List UInt8 × List Nat) := do
  let filename ← within .filename (strncpy filename (name[·]?) 255)
  let filename ← within .filename (toUpperCase filename)
  within .filename (strsplit filename '/'.toUInt8 16)

/-- The condition of the search loops: `path[i]` is read for an entry of the right kind only. -/
def entryMatchesAccess (directory : Bool) (buffer : Bytes) (name : Except Outside (List UInt8))
    (entry : Nat) : Except Outside Bool := do
  let len ← within .elsewhere (cmpLen buffer entry)
  let flags ← within .elsewhere (entryFlags buffer entry)
  if (flags &&& 2 != 0) = directory then
    let name ← name
    within .elsewhere (stringEqualsLen (entryName buffer entry) name len)
  else .ok false

def searchLoopAccess (directory : Bool) (buffer : Bytes) (name : Except Outside (List UInt8)) :
    Nat → Nat → Except Outside (Option Nat)
  | 0, _ => .error .elsewhere
  | fuel + 1, entry => do
    let length ← within .elsewhere (byteAt buffer entry)
    if length = 0 then .ok none
    else
      let found ← entryMatchesAccess directory buffer name entry
      if found then .ok (some entry)
      else searchLoopAccess directory buffer name fuel (entry + length.toNat)

/-- The search for `path[i]`. -/
def searchAccess (buffer : Bytes) (filename : List UInt8) (path : List Nat) (i : Int) :
    Except Outside (Option Nat) :=
  searchLoopAccess true buffer (pathItem filename <$> pathAt path i) 2049 0

/-- The first loop of `list_items`, with `n` rounds to go at the index `i`. -/
def listItemsPathAccess (d : Drive) (filename : List UInt8) (path : List Nat) :
    Nat → Int → Nat → UInt32 → Bytes → Except Outside (Option (UInt32 × Nat × Bytes))
  | 0, _, call, lba, buffer => .ok (some (lba, call, buffer))
  | n + 1, i, call, lba, buffer => do
    let buffer := (d.atapiRead call lba 1 buffer).2
    let found ← searchAccess buffer filename path i
    match found with
    | none => .ok none
    | some entry => do
      let lba ← within .elsewhere (entryLba buffer entry)
      listItemsPathAccess d filename path n (i + 1) (call + 1) lba buffer

/-- `list_items`. -/
def listItemsAccess (d : Drive) (s : Stack) (dir : List UInt8) (items : List (List UInt8)) :
    Except Outside (Int × List (List UInt8)) := do
  let pvd := (d.atapiRead 0 pvdSector 1 s.pvd).2
  let (filename, path) ← splitPathAccess s.filename.1 dir
  let rootLba ← within .elsewhere (entryLba pvd rootDirRecord)
  let buffer := (d.atapiRead 1 rootLba 1 s.buffer).2
  let found ← listItemsPathAccess d filename path path.length 0 2 rootLba buffer
  within .elsewhere (listItemsEntries d items found)

/-- The first loop of `get_lba_file`. -/
def getLbaFilePathAccess (d : Drive) (filename : List UInt8) (path : List Nat) :
    Nat → Int → Nat → UInt32 → Bytes → Except Outside (UInt32 × Nat × Bytes)
  | 0, _, call, lba, buffer => .ok (lba, call, buffer)
  | n + 1, i, call, lba, buffer => do
    let buffer := (d.atapiRead call lba 1 buffer).2
    let found ← searchAccess buffer filename path i
    match found with
    | none => getLbaFilePathAccess d filename path n (i + 1) (call + 1) lba buffer
    | some entry => do
      let lba ← within .elsewhere (entryLba buffer entry)
      getLbaFilePathAccess d filename path n (i + 1) (call + 1) lba buffer

/-- `get_lba_file`. -/
def getLbaFileAccess (d : Drive) (s : Stack) (name : List UInt8) :
    Except Outside (IsoFile × Nat) := do
  let pvd := (d.atapiRead 0 pvdSector 1 s.pvd).2
  let (filename, path) ← splitPathAccess s.filename.1 name
  let a : Int := path.length
  let lastItem ← pathAt path (a - 1)
  let last ← within .last (strncpy s.last.1 ((pathItem filename lastItem)[·]?) 255)
  let rootLba ← within .elsewhere (entryLba pvd rootDirRecord)
  let buffer := (d.atapiRead 1 rootLba 1 s.buffer).2
  let (lba, call, buffer) ←
    getLbaFilePathAccess d filename path (a - 1).toNat 0 2 rootLba buffer
  within .elsewhere (getLbaFileEntry d last call lba buffer)

/-! ## The loops -/

section Loops

variable (d : Drive) (filename : List UInt8) {path : List Nat}

theorem entryMatchesAccess_eq (directory : Bool) (buffer : Bytes) (name : List UInt8)
    (entry : Nat) : entryMatchesAccess directory buffer (.ok name) entry
      = within .elsewhere (entryMatches directory buffer name entry) := by
  unfold entryMatchesAccess entryMatches
  cases cmpLen buffer entry with
  | none => rfl
  | some len =>
    cases entryFlags buffer entry with
    | none => rfl
    | some flags =>
      by_cases hkind : (flags &&& 2 != 0) = directory
      · show (if _ then _ else _) = within .elsewhere (if _ then _ else _)
        rw [if_pos hkind, if_pos hkind]
        rfl
      · show (if _ then _ else _) = within .elsewhere (if _ then _ else _)
        rw [if_neg hkind, if_neg hkind]
        rfl

theorem searchLoopAccess_eq (directory : Bool) (buffer : Bytes) (name : List UInt8) :
    ∀ fuel entry, searchLoopAccess directory buffer (.ok name) fuel entry
      = within .elsewhere (searchLoop directory buffer name fuel entry)
  | 0, _ => rfl
  | fuel + 1, entry => by
    rw [searchLoopAccess, searchLoop, entryMatchesAccess_eq]
    cases byteAt buffer entry with
    | none => rfl
    | some length =>
      simp only [Option.bind_eq_bind, Option.bind_some]
      show (if _ then _ else _) = _
      split
      · rfl
      · cases entryMatches directory buffer name entry with
        | none => rfl
        | some found =>
          cases found with
          | true => rfl
          | false => exact searchLoopAccess_eq directory buffer name fuel _

/-- At the index of a part. -/
theorem searchAccess_eq (buffer : Bytes) {before after : List Nat} {p : Nat}
    (hpath : path = before ++ p :: after) : searchAccess buffer filename path before.length
      = within .elsewhere (search true buffer (pathItem filename p)) := by
  rw [hpath, searchAccess, pathAt_border]
  exact searchLoopAccess_eq true buffer (pathItem filename p) 2049 0

/-- **The loop of `list_items`** has its index at a part. -/
theorem listItemsPathAccess_eq (after : List Nat) : ∀ (parts before : List Nat) (call : Nat)
    (lba : UInt32) (buffer : Bytes), path = before ++ (parts ++ after) →
    listItemsPathAccess d filename path parts.length before.length call lba buffer
      = within .elsewhere (listItemsPath d (parts.map (pathItem filename)) call lba buffer)
  | [], _, _, _, _, _ => rfl
  | p :: parts, before, call, lba, buffer, hpath => by
    have hnext : path = (before ++ [p]) ++ (parts ++ after) := by
      rw [hpath, List.append_assoc, List.singleton_append, List.cons_append]
    rw [List.length_cons, List.map_cons, listItemsPathAccess, listItemsPath,
      searchAccess_eq filename _ hpath, length_border_succ before p]
    cases search true (d.atapiRead call lba 1 buffer).2 (pathItem filename p) with
    | none => rfl
    | some found =>
      cases found with
      | none => rfl
      | some entry =>
        simp only [Option.bind_eq_bind, Option.bind_some, ← within_bind,
          ← listItemsPathAccess_eq after parts (before ++ [p]) _ _ _ hnext]
        rfl

/-- **The loop of `get_lba_file`** does too. -/
theorem getLbaFilePathAccess_eq (after : List Nat) : ∀ (parts before : List Nat) (call : Nat)
    (lba : UInt32) (buffer : Bytes), path = before ++ (parts ++ after) →
    getLbaFilePathAccess d filename path parts.length before.length call lba buffer
      = within .elsewhere (getLbaFilePath d (parts.map (pathItem filename)) call lba buffer)
  | [], _, _, _, _, _ => rfl
  | p :: parts, before, call, lba, buffer, hpath => by
    have hnext : path = (before ++ [p]) ++ (parts ++ after) := by
      rw [hpath, List.append_assoc, List.singleton_append, List.cons_append]
    rw [List.length_cons, List.map_cons, getLbaFilePathAccess, getLbaFilePath,
      searchAccess_eq filename _ hpath, length_border_succ before p]
    cases search true (d.atapiRead call lba 1 buffer).2 (pathItem filename p) with
    | none => rfl
    | some found =>
      cases found with
      | none => exact getLbaFilePathAccess_eq after parts (before ++ [p]) _ _ _ hnext
      | some entry =>
        simp only [Option.bind_eq_bind, Option.bind_some, ← within_bind,
          ← getLbaFilePathAccess_eq after parts (before ++ [p]) _ _ _ hnext]
        rfl

end Loops

/-! ## The same functions -/

section Functions

variable (d : Drive) (s : Stack) {filename name : List UInt8} {path : List Nat}

theorem splitPathAccess_eq (filename name : List UInt8) :
    splitPathAccess filename name = within .filename (splitPath filename name) := by
  unfold splitPathAccess splitPath
  simp only [within_bind, Option.bind_eq_bind]

/-- `list_items` of a path that is split. -/
theorem listItemsAccess_eq (items : List (List UInt8))
    (h : splitPath s.filename.1 name = some (filename, path)) :
    listItemsAccess d s name items = within .elsewhere (listItems d s name items) := by
  have hloop := fun lba buffer => listItemsPathAccess_eq d filename [] path [] 2 lba buffer
    (List.append_nil path).symm
  unfold listItemsAccess listItems
  rw [splitPathAccess_eq, h]
  simp only [within_some, ok_bind, Option.bind_eq_bind, Option.bind_some]
  cases entryLba (d.atapiRead 0 pvdSector 1 s.pvd).2 rootDirRecord with
  | none => rfl
  | some rootLba =>
    simp only [Option.bind_some, ← within_bind, ← hloop]
    rfl

/-- `get_lba_file` of a path that is split, and has a part that fits in `last`. -/
theorem getLbaFileAccess_eq {before : List Nat} {p : Nat} {last : List UInt8}
    (h : splitPath s.filename.1 name = some (filename, before ++ [p]))
    (hlast : strncpy s.last.1 ((pathItem filename p)[·]?) 255 = some last) :
    getLbaFileAccess d s name = within .elsewhere (getLbaFile d s name) := by
  have hloop := fun lba buffer => getLbaFilePathAccess_eq d filename [p] before [] 2 lba buffer
    rfl
  unfold getLbaFileAccess getLbaFile
  rw [splitPathAccess_eq, h]
  simp only [within_some, ok_bind, Option.bind_eq_bind, Option.bind_some, List.getLast?_concat,
    List.dropLast_concat, length_border_pred, pathAt_border, hlast, Int.toNat_natCast]
  cases entryLba (d.atapiRead 0 pvdSector 1 s.pvd).2 rootDirRecord with
  | none => rfl
  | some rootLba =>
    simp only [Option.bind_some, ← within_bind, ← hloop]
    rfl

/-- **Forgetting where** an access went gives `list_items`, -/
theorem toOption_listItemsAccess (name : List UInt8) (items : List (List UInt8)) :
    (listItemsAccess d s name items).toOption = listItems d s name items := by
  cases h : splitPath s.filename.1 name with
  | none =>
    unfold listItemsAccess listItems
    rw [splitPathAccess_eq, h]
    rfl
  | some split => rw [listItemsAccess_eq d s items h, toOption_within]

/-- and `get_lba_file`. -/
theorem toOption_getLbaFileAccess (name : List UInt8) :
    (getLbaFileAccess d s name).toOption = getLbaFile d s name := by
  cases h : splitPath s.filename.1 name with
  | none =>
    unfold getLbaFileAccess getLbaFile
    rw [splitPathAccess_eq, h]
    rfl
  | some split =>
    obtain ⟨filename, path⟩ := split
    rcases List.eq_nil_or_concat path with rfl | ⟨before, p, rfl⟩
    · unfold getLbaFileAccess getLbaFile
      rw [splitPathAccess_eq, h]
      rfl
    · rw [List.concat_eq_append] at h
      cases hlast : strncpy s.last.1 ((pathItem filename p)[·]?) 255 with
      | none =>
        unfold getLbaFileAccess getLbaFile
        rw [splitPathAccess_eq, h]
        simp only [within_some, ok_bind, Option.bind_eq_bind, Option.bind_some,
          List.getLast?_concat, length_border_pred, pathAt_border, hlast]
        rfl
      | some last => rw [getLbaFileAccess_eq d s h hlast, toOption_within]

end Functions

/-! ## Which paths are safe -/

/-- No access outside `path`, `filename` and `last`: if one was outside, it was elsewhere. -/
def InsidePath {α : Type} (r : Except Outside α) : Prop := ∀ o, r = .error o → o = .elsewhere

theorem insidePath_within {α : Type} (x : Option α) : InsidePath (within .elsewhere x) := by
  intro o h
  cases x with
  | none => exact (Except.error.inj h).symm
  | some a => nomatch h

/-- A path without parts is empty, or a single slash. -/
theorem pathParts_eq_nil_iff {w : List UInt8} : pathParts w = [] ↔ w = [] ∨ w = ['/'.toUInt8] := by
  rw [pathParts, stringsAt, List.map_eq_nil_iff, splitString_eq_nil_iff, List.map_eq_nil_iff]
  refine or_congr_right ⟨fun h => ?_, fun h => ?_⟩
  · obtain ⟨c, rfl, hc⟩ := List.map_eq_singleton_iff.mp h
    rw [upper_eq_slash hc]
  · rw [h]
    rfl

section Paths

variable (d : Drive) (s : Stack) {name w : List UInt8} (h : Holds name w)

include h

/-- For `list_items`, the path must fit in `filename`. -/
theorem listItemsAccess_inside_iff (items : List (List UInt8)) :
    InsidePath (listItemsAccess d s name items) ↔ w.length < 255 := by
  obtain ⟨hw, rest, rfl⟩ := h
  by_cases hlen : w.length < 255
  · obtain ⟨left, offsets, hsplit, -⟩ := splitPath_eq rest s.filename.2 hw hlen
    refine iff_of_true ?_ hlen
    rw [listItemsAccess_eq d s items hsplit]
    exact insidePath_within _
  · refine iff_of_false (fun hinside => ?_) hlen
    have herror : listItemsAccess d s (w ++ 0 :: rest) items = .error .filename := by
      unfold listItemsAccess
      rw [splitPathAccess_eq, splitPath_eq_none s.filename.2 hw (Nat.le_of_not_lt hlen)]
      rfl
    nomatch hinside _ herror

/-- For `get_lba_file`, it must have a part too. -/
theorem getLbaFileAccess_inside_iff :
    InsidePath (getLbaFileAccess d s name) ↔ w.length < 255 ∧ pathParts w ≠ [] := by
  obtain ⟨hw, rest, rfl⟩ := h
  by_cases hlen : w.length < 255
  · obtain ⟨left, offsets, hsplit, part, hparts, hholds⟩ :=
      splitPath_eq rest s.filename.2 hw hlen
    rw [and_iff_right hlen, hparts, Ne, List.map_eq_nil_iff]
    rcases List.eq_nil_or_concat offsets with rfl | ⟨before, p, rfl⟩
    · refine iff_of_false (fun hinside => ?_) fun h => h rfl
      -- `path[-1]`
      have herror : getLbaFileAccess d s (w ++ 0 :: rest) = .error .path := by
        unfold getLbaFileAccess
        rw [splitPathAccess_eq, hsplit]
        rfl
      nomatch hinside _ herror
    · rw [List.concat_eq_append] at hsplit hholds ⊢
      obtain ⟨⟨hpart, tail, htail⟩, hshort⟩ :=
        hholds p (List.mem_append_right before List.mem_cons_self)
      have hlast : strncpy s.last.1 ((pathItem left p)[·]?) 255
          = some (part p ++ 0 :: s.last.1.drop ((part p).length + 1)) := by
        rw [htail]
        exact strncpy_eq hpart (by omega) (by rw [s.last.2]; omega)
      refine iff_of_true ?_ (List.append_ne_nil_of_right_ne_nil before (List.cons_ne_nil p []))
      rw [getLbaFileAccess_eq d s hsplit hlast]
      exact insidePath_within _
  · refine iff_of_false (fun hinside => ?_) fun h => hlen h.1
    have herror : getLbaFileAccess d s (w ++ 0 :: rest) = .error .filename := by
      unfold getLbaFileAccess
      rw [splitPathAccess_eq, splitPath_eq_none s.filename.2 hw (Nat.le_of_not_lt hlen)]
      rfl
    nomatch hinside _ herror

/-- **Which paths are safe**, on every drive and with every content of the arrays: those that fit in
    `filename` with their terminator, and for `get_lba_file` have a part. -/
theorem pathAccess_inside_iff (items : List (List UInt8)) :
    (InsidePath (getLbaFileAccess d s name) ↔ w.length < 255 ∧ w ≠ [] ∧ w ≠ ['/'.toUInt8]) ∧
    (InsidePath (listItemsAccess d s name items) ↔ w.length < 255) := by
  rw [← not_or, ← pathParts_eq_nil_iff]
  exact ⟨getLbaFileAccess_inside_iff d s h, listItemsAccess_inside_iff d s h items⟩

end Paths

/-- The path `/sub/f` is safe. -/
theorem pathAccess_inside_iff_sub :
    InsidePath (getLbaFileAccess (flawless twoDirectories) clearStack (bytes "/sub/f" ++ [0])) ∧
    InsidePath (listItemsAccess (flawless twoDirectories) clearStack (bytes "/sub/f" ++ [0]) []) := by
  obtain ⟨hfile, hlist⟩ := pathAccess_inside_iff (flawless twoDirectories) clearStack
    (w := bytes "/sub/f") ⟨by decide +kernel, [], rfl⟩ []
  exact ⟨hfile.mpr (by decide +kernel), hlist.mpr (by decide +kernel)⟩

/-- **A single slash is not**: `get_lba_file` reads `path[-1]`. -/
theorem not_pathAccess_inside : ¬ ∀ (d : Drive) (s : Stack) (name w : List UInt8)
    (items : List (List UInt8)), Holds name w →
    InsidePath (getLbaFileAccess d s name) ∧ InsidePath (listItemsAccess d s name items) := by
  intro h
  have hinside := h (flawless twoDirectories) clearStack (bytes "/" ++ [0]) (bytes "/") []
    ⟨by decide +kernel, [], rfl⟩
  have herror : getLbaFileAccess (flawless twoDirectories) clearStack (bytes "/" ++ [0])
      = .error .path := by
    unfold getLbaFileAccess
    rw [splitPathAccess_eq]
    have hsplit : (splitPath clearStack.filename.1 (bytes "/" ++ [0])).map Prod.snd = some [] := by
      decide +kernel
    obtain ⟨⟨filename, path⟩, hsplit, rfl⟩ := Option.map_eq_some_iff.mp hsplit
    rw [hsplit]
    rfl
  nomatch hinside.1 _ herror

end MyOs.Drivers
