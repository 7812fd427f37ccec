/-
  The ISO 9660 file system: finding a path and reading a file.

  A directory is a sector of records of variable length, ended by a zero byte.  `list_items` and
  `get_lba_file` walk from the root through the directories of a path, each with its own copy of
  the loops.

  Buffers are 2048 bytes, and a read outside them has no result; neither has a walk that runs out
  of its fuel, which is more than the number of bytes.  The stack holds arbitrary bytes at first.
-/
import MyOs.Libraries.Disc
import MyOs.Libraries.Split

namespace MyOs.Drivers

open MyOs.Libraries

/-! ## Reading fields -/

/-- A byte of a sector buffer. -/
def byteAt (buffer : Bytes) (i : Nat) : Option UInt8 := if i < 2048 then some (buffer i) else none

/-- Four bytes, the lowest first. -/
def le32 (b0 b1 b2 b3 : UInt8) : UInt32 :=
  b0.toUInt32 ||| b1.toUInt32 <<< 8 ||| b2.toUInt32 <<< 16 ||| b3.toUInt32 <<< 24

/-- The first half of a `both_endian_32`. -/
def le32At (buffer : Bytes) (i : Nat) : Option UInt32 := do
  let b0 ← byteAt buffer i
  let b1 ← byteAt buffer (i + 1)
  let b2 ← byteAt buffer (i + 2)
  let b3 ← byteAt buffer (i + 3)
  some (le32 b0 b1 b2 b3)

/-- `PVD_sector`. -/
def pvdSector : UInt32 := 0x10

/-- The offset of `root_dir_record` in a `PVD`. -/
def rootDirRecord : Nat := 156

/-- The fields of an `iso_dirent_t`. -/
def entryLba (buffer : Bytes) (entry : Nat) : Option UInt32 := le32At buffer (entry + 2)
def entrySize (buffer : Bytes) (entry : Nat) : Option UInt32 := le32At buffer (entry + 10)
def entryFlags (buffer : Bytes) (entry : Nat) : Option UInt8 := byteAt buffer (entry + 25)
def entryNameLength (buffer : Bytes) (entry : Nat) : Option UInt8 := byteAt buffer (entry + 32)
def entryName (buffer : Bytes) (entry i : Nat) : Option UInt8 := byteAt buffer (entry + 33 + i)

/-- `cmp_len`: the length of the name without a version suffix. -/
def cmpLen (buffer : Bytes) (entry : Nat) : Option Nat := do
  let nameLength ← entryNameLength buffer entry
  if nameLength ≥ 2 then
    let c ← entryName buffer entry (nameLength.toNat - 2)
    some (if c = ';'.toUInt8 then nameLength.toNat - 2 else nameLength.toNat)
  else some nameLength.toNat

/-! ## Walking through a directory -/

/-- The condition of the search loops, for a directory or for a file. -/
def entryMatches (directory : Bool) (buffer : Bytes) (name : List UInt8) (entry : Nat) :
    Option Bool := do
  let len ← cmpLen buffer entry
  let flags ← entryFlags buffer entry
  if (flags &&& 2 != 0) = directory then stringEqualsLen (entryName buffer entry) name len
  else some false

/-- The search loops: the first entry that matches, or none up to the zero byte. -/
def searchLoop (directory : Bool) (buffer : Bytes) (name : List UInt8) :
    Nat → Nat → Option (Option Nat)
  | 0, _ => none
  | fuel + 1, entry => do
    let length ← byteAt buffer entry
    if length = 0 then some none
    else
      let found ← entryMatches directory buffer name entry
      if found then some (some entry)
      else searchLoop directory buffer name fuel (entry + length.toNat)

/-- A search from the first entry on. -/
def search (directory : Bool) (buffer : Bytes) (name : List UInt8) : Option (Option Nat) :=
  searchLoop directory buffer name 2049 0

/-! ## Paths -/

/-- What is on the stack before a call: the arrays `pvd`, `buffer`, `filename` and `last`. -/
structure Stack where
  pvd : Bytes
  buffer : Bytes
  filename : { a : List UInt8 // a.length = 255 }
  last : { a : List UInt8 // a.length = 255 }

/-- `strncpy`, `to_upper_case` and `strsplit` of a path: the array `filename`, and the parts. -/
def splitPath (filename name : List UInt8) : Option (List UInt8 × List Nat) := do
  let filename ← strncpy filename (name[·]?) 255
  let filename ← toUpperCase filename
  strsplit filename '/'.toUInt8 16

/-- `path[i]`. -/
def pathItem (filename : List UInt8) (offset : Nat) : List UInt8 := filename.drop offset

/-! ## Listing a directory -/

/-- The first loop of `list_items`, from the `call`-th read on: the directory it ends in, with the
    number of the next read and the buffer, or none when a directory is missing. -/
def listItemsPath (d : Drive) :
    List (List UInt8) → Nat → UInt32 → Bytes → Option (Option (UInt32 × Nat × Bytes))
  | [], call, lba, buffer => some (some (lba, call, buffer))
  | name :: path, call, lba, buffer => do
    let buffer := (d.atapiRead call lba 1 buffer).2
    let found ← search true buffer name
    match found with
    | none => some none
    | some entry => do
      let lba ← entryLba buffer entry
      listItemsPath d path (call + 1) lba buffer

/-- The dot entries: a name of the one byte `0x00` or `0x01`. -/
def isDotEntry (buffer : Bytes) (entry : Nat) : Option Bool := do
  let nameLength ← entryNameLength buffer entry
  if nameLength = 1 then
    let c ← entryName buffer entry 0
    some (c = 0x00 || c = 0x01)
  else some false

/-- `strncpy(items[i], entry->name, cmp_len); items[i][cmp_len] = '\0'`. -/
def storeItem (buffer : Bytes) (entry : Nat) (items : List (List UInt8)) (i : Nat) :
    Option (List (List UInt8)) := do
  let len ← cmpLen buffer entry
  let item ← items[i]?
  let item ← strncpy item (entryName buffer entry) len
  let item ← store item len 0
  some (items.set i item)

/-- The second loop of `list_items`. -/
def listItemsLoop (buffer : Bytes) :
    Nat → Nat → Nat → List (List UInt8) → Option (Nat × List (List UInt8))
  | 0, _, _, _ => none
  | fuel + 1, entry, i, items => do
    let length ← byteAt buffer entry
    if length = 0 then some (i, items)
    else
      let dot ← isDotEntry buffer entry
      if dot then listItemsLoop buffer fuel (entry + length.toNat) i items
      else
        let items ← storeItem buffer entry items i
        listItemsLoop buffer fuel (entry + length.toNat) (i + 1) items

/-- The second part of `list_items`: -1 when a directory is missing, else what the one that was
    reached lists. -/
def listItemsEntries (d : Drive) (items : List (List UInt8)) :
    Option (UInt32 × Nat × Bytes) → Option (Int × List (List UInt8))
  | none => some (-1, items)
  | some (lba, call, buffer) => do
    let (i, items) ← listItemsLoop (d.atapiRead call lba 1 buffer).2 2049 0 0 items
    some (i, items)

/-- `list_items`: the number of items, or -1, and the items. -/
def listItems (d : Drive) (s : Stack) (dir : List UInt8) (items : List (List UInt8)) :
    Option (Int × List (List UInt8)) := do
  let pvd := (d.atapiRead 0 pvdSector 1 s.pvd).2
  let (filename, path) ← splitPath s.filename.1 dir
  let rootLba ← entryLba pvd rootDirRecord
  let buffer := (d.atapiRead 1 rootLba 1 s.buffer).2
  let found ← listItemsPath d (path.map (pathItem filename)) 2 rootLba buffer
  listItemsEntries d items found

/-! ## Finding and reading a file -/

/-- `iso_file_t`. -/
structure IsoFile where
  lba : UInt32
  size : UInt32
  deriving DecidableEq

/-- The first loop of `get_lba_file`: a missing directory is passed over. -/
def getLbaFilePath (d : Drive) :
    List (List UInt8) → Nat → UInt32 → Bytes → Option (UInt32 × Nat × Bytes)
  | [], call, lba, buffer => some (lba, call, buffer)
  | name :: path, call, lba, buffer => do
    let buffer := (d.atapiRead call lba 1 buffer).2
    let found ← search true buffer name
    match found with
    | none => getLbaFilePath d path (call + 1) lba buffer
    | some entry => do
      let lba ← entryLba buffer entry
      getLbaFilePath d path (call + 1) lba buffer

/-- The second part of `get_lba_file`: the file of a name in the directory that was reached. -/
def getLbaFileEntry (d : Drive) (last : List UInt8) (call : Nat) (lba : UInt32) (buffer : Bytes) :
    Option (IsoFile × Nat) := do
  let buffer := (d.atapiRead call lba 1 buffer).2
  let found ← search false buffer last
  match found with
  | none => some (⟨0, 0⟩, call + 1)
  | some entry => do
    let lba ← entryLba buffer entry
    let size ← entrySize buffer entry
    some (⟨lba, size⟩, call + 1)

/-- `get_lba_file`: the file, and the number of the next read.  A path without parts reads
    `path[-1]`. -/
def getLbaFile (d : Drive) (s : Stack) (name : List UInt8) : Option (IsoFile × Nat) := do
  let pvd := (d.atapiRead 0 pvdSector 1 s.pvd).2
  let (filename, path) ← splitPath s.filename.1 name
  let lastItem ← path.getLast?
  let last ← strncpy s.last.1 ((pathItem filename lastItem)[·]?) 255
  let rootLba ← entryLba pvd rootDirRecord
  let buffer := (d.atapiRead 1 rootLba 1 s.buffer).2
  let (lba, call, buffer) ← getLbaFilePath d (path.dropLast.map (pathItem filename)) 2 rootLba buffer
  getLbaFileEntry d last call lba buffer

/-- `read_file`. -/
def readFile (d : Drive) (s : Stack) (name : List UInt8) (buffer : Bytes) :
    Option (Bool × Bytes) := do
  let (file, call) ← getLbaFile d s name
  if file.size = 0 ∧ file.lba = 0 then some (false, buffer)
  else
    let sectors := (file.size + 2047) / 2048
    some (true, (d.atapiRead call file.lba sectors buffer).2)

end MyOs.Drivers
