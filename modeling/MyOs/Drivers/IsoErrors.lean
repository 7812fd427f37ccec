/-
  Reading a file with a drive that makes errors.

  Nobody looks at the error code of `atapi_read`.  After an error a buffer has the sectors that came
  before it, and else what it had.

  1. **The true record** (`trueRecord`): what the path names on the disc, in whole directories.
  2. **What is read** (`readFile_eq`): the sectors that the drive delivers, of the file that the lookup
     finds.
  3. **When it is the file** (`readFile_readsTrueFile`): exactly when nothing is found, or no read fails,
     the path names a file, and the sectors are those of that file.  Once the root directory is read
     what is found is a matter of the disc and the drive alone (`shownFile`).
-/
import MyOs.Drivers.IsoExtents

namespace MyOs.Drivers

open MyOs.Libraries MyOs.Lib.Directories

/-! ## The true record -/

/-- The directories of a disc, with the records of all their sectors. -/
def whole (disc : Bytes) : Catalog IsoFile Record (List UInt8) :=
  (walked disc).withEntries (extentRecords disc)

/-- The record of the file that a path names. -/
def trueRecord (disc : Bytes) (w : List UInt8) : Option Record :=
  ((whole disc).resolve (rootDirectory disc) (pathParts w).dropLast).bind fun e =>
    (whole disc).find false e ((pathParts w).getLastD [])

/-- The file that the walk finds, on the directories that the reads show. -/
def shownFile (d : Drive) (w : List UInt8) : IsoFile :=
  foundFile d.disc (shownAtEnd d (pathParts w).dropLast) ((pathParts w).getLastD [])

theorem entries_extend (disc : Bytes) (e : IsoFile) :
    (walked disc).entries e <+: extentRecords disc e :=
  ⟨laterRecords disc e, (extentRecords_eq disc e).symm⟩

/-- Without errors, and when the path resolves in the first sectors, both are the same. -/
theorem trueRecord_eq_some {d : Drive} {w : List UInt8} {e : IsoFile} {r : Record}
    (hserves : ∀ k, k ≤ (pathParts w).dropLast.length + 2 → d.Serves k 1)
    (hresolve : (walked d.disc).resolve (rootDirectory d.disc) (pathParts w).dropLast = some e)
    (hfind : (walked d.disc).find false e ((pathParts w).getLastD []) = some r) :
    trueRecord d.disc w = some r ∧ shownFile d w = r.extent := by
  constructor
  · rw [trueRecord, whole, Catalog.resolve_longer (entries_extend d.disc) hresolve,
      Option.bind_some]
    exact Catalog.find_longer (entries_extend d.disc) hfind
  · rw [shownFile, shownAtEnd_of_serves hserves, Catalog.resolveSkipping_of_resolve hresolve,
      foundFile, hfind]
    rfl

/-! ## What is read -/

/-- The number of sectors of a file, as `read_file` computes it. -/
def fileSectors (size : UInt32) : UInt32 := (size + 2047) / 2048

section Reading

variable {d : Drive} {s : Stack} {w rest : List UInt8}

/-- What `read_file` takes for a missing file. -/
theorem isMissing_iff {file : IsoFile} : (file.size = 0 ∧ file.lba = 0) ↔ file = ⟨0, 0⟩ := by
  obtain ⟨lba, size⟩ := file
  rw [IsoFile.mk.injEq, and_comm]

/-- `read_file` behind the lookup. -/
theorem readFile_eq {file : IsoFile} {call : Nat} {name : List UInt8} (buffer : Bytes)
    (h : getLbaFile d s name = some (file, call)) : readFile d s name buffer
      = some (if file = ⟨0, 0⟩ then (false, buffer) else
          (true, d.received file.lba.toNat (d.delivered call (fileSectors file.size)) buffer)) := by
  unfold readFile
  rw [h]
  simp only [Option.bind_eq_bind, Option.bind_some, isMissing_iff]
  by_cases hfile : file = ⟨0, 0⟩
  · rw [if_pos hfile, if_pos hfile]
  · rw [if_neg hfile, if_neg hfile, Drive.atapiRead_eq]
    rfl

/-- It returns true exactly when a file is found. -/
theorem readFile_eq_some {name : List UInt8} {buffer out : Bytes}
    (h : readFile d s name buffer = some (true, out)) :
    ∃ file call, getLbaFile d s name = some (file, call) ∧ file ≠ ⟨0, 0⟩ ∧
      out = d.received file.lba.toNat (d.delivered call (fileSectors file.size)) buffer := by
  have hlookup : ∃ found, getLbaFile d s name = some found := by
    unfold readFile at h
    obtain ⟨found, hfound, -⟩ := Option.bind_eq_some_iff.mp h
    exact ⟨found, hfound⟩
  obtain ⟨⟨file, call⟩, hfound⟩ := hlookup
  rw [readFile_eq buffer hfound] at h
  split at h
  · obtain ⟨hfalse, -⟩ := Prod.mk.inj (Option.some.inj h)
    nomatch hfalse
  · obtain ⟨-, rfl⟩ := Prod.mk.inj (Option.some.inj h)
    exact ⟨file, call, hfound, ‹_›, rfl⟩

/-- Once the root directory is read, the lookup does not depend on the stack. -/
theorem getLbaFile_shown {file : IsoFile} {call : Nat} (hw : 0 ∉ w) (hroot : ReadsRoot d)
    (h : getLbaFile d s (w ++ 0 :: rest) = some (file, call)) :
    file = shownFile d w ∧ call = (pathParts w).length + 2 := by
  obtain ⟨-, comps, last, hparts, hcall, hfile⟩ := getLbaFile_eq_some hw hroot h
  rw [shownFile, hparts, List.dropLast_concat, List.getLastD_concat, hfile, List.length_append,
    List.length_singleton]
  exact ⟨rfl, by omega⟩

/-- All directories that are shown can be reached. -/
theorem inside_walkOver {root : IsoFile} : ∀ (comps : List (List UInt8)) (call : Nat) {p : Place},
    (walked d.disc).Inside root p.shown → (walked d.disc).Inside root p.reached →
    (walked d.disc).Inside root (walkOver d call p comps).shown ∧
      (walked d.disc).Inside root (walkOver d call p comps).reached
  | [], _, _, hshown, hreached => ⟨hshown, hreached⟩
  | n :: comps, call, p, hshown, hreached => by
    have hread : (walked d.disc).Inside root (p.read d call).shown := by
      unfold Place.read
      split
      · exact hreached
      · exact hshown
    have hnext : (walked d.disc).Inside root
        (((walked d.disc).enter (p.read d call).shown n).getD p.reached) := by
      cases henter : (walked d.disc).enter (p.read d call).shown n with
      | none => exact hreached
      | some e => exact hread.enter_eq_some henter
    exact inside_walkOver comps (call + 1) (p := ⟨(p.read d call).shown, _⟩) hread hnext

theorem inside_shownAtEnd (comps : List (List UInt8)) :
    (walked d.disc).Inside (rootDirectory d.disc) (shownAtEnd d comps) := by
  obtain ⟨hshown, hreached⟩ := inside_walkOver (d := d) comps 2
    (p := ⟨rootDirectory d.disc, rootDirectory d.disc⟩) .root .root
  unfold shownAtEnd Place.read
  split
  · exact hreached
  · exact hshown

/-- On an image of small directories it has a result. -/
theorem getLbaFile_eq_shownFile (s : Stack) (rest : List UInt8) (hw : 0 ∉ w) (hroot : ReadsRoot d)
    (hsmall : SmallDirectories d.disc) (hlen : w.length < 255) (hne : pathParts w ≠ []) :
    getLbaFile d s (w ++ 0 :: rest) = some (shownFile d w, (pathParts w).length + 2) := by
  obtain ⟨comps, last, hparts⟩ := pathParts_eq_concat hne
  have hlookup := getLbaFile_eq_shown s rest hw hlen hparts hroot
    fun q _ => hsmall _ (inside_shownAtEnd q)
  rw [hlookup, shownFile, hparts, List.dropLast_concat, List.getLastD_concat, List.length_append,
    List.length_singleton]

end Reading

/-! ## When it is the file -/

/-- No read fails: neither the `call` reads of a lookup, nor that of the data. -/
def NoReadFails (d : Drive) (call : Nat) (size : UInt32) : Prop :=
  (∀ k, k < call → d.Serves k 1) ∧ d.Serves call (fileSectors size).toNat

/-- When `read_file` returns true, it has read the file that the path names, and no read has failed;
    whatever was on the stack and in the buffer. -/
def ReadsTrueFile (d : Drive) (w rest : List UInt8) : Prop :=
  ∀ s buffer out, readFile d s (w ++ 0 :: rest) buffer = some (true, out) →
    (∃ r, trueRecord d.disc w = some r ∧
      ∀ j, j < r.size.toNat → out j = d.disc (2048 * r.lba.toNat + j)) ∧
    ∀ file call, getLbaFile d s (w ++ 0 :: rest) = some (file, call) → NoReadFails d call file.size

/-- Nothing is found; or no read fails, and the path names a file, which is in the sectors of what is
    found. -/
def Delivers (d : Drive) (w : List UInt8) (file : IsoFile) (call : Nat) : Prop :=
  file = ⟨0, 0⟩ ∨ NoReadFails d call file.size ∧ ∃ r, trueRecord d.disc w = some r ∧
    r.size.toNat ≤ 2048 * (fileSectors file.size).toNat ∧
    ∀ j, j < r.size.toNat → d.disc (2048 * file.lba.toNat + j) = d.disc (2048 * r.lba.toNat + j)

section Errors

variable {d : Drive} {w rest : List UInt8}

theorem readsTrueFile_of_delivers (h : ∀ s file call,
    getLbaFile d s (w ++ 0 :: rest) = some (file, call) → Delivers d w file call) :
    ReadsTrueFile d w rest := by
  intro s buffer out hread
  obtain ⟨file, call, hlookup, hfound, rfl⟩ := readFile_eq_some hread
  rcases h s file call hlookup with hnone | ⟨hreads, r, hr, hsize, hbytes⟩
  · exact absurd hnone hfound
  · refine ⟨⟨r, hr, fun j hj => ?_⟩, fun file' call' hlookup' => ?_⟩
    · rw [Drive.delivered_of_serves hreads.2, Drive.received, if_pos (Nat.lt_of_lt_of_le hj hsize)]
      exact hbytes j hj
    · obtain ⟨rfl, rfl⟩ := Prod.mk.inj (Option.some.inj (hlookup.symm.trans hlookup'))
      exact hreads

/-- Another byte. -/
def otherByte (x : UInt8) : UInt8 := if x = 0 then 1 else 0

theorem otherByte_ne (x : UInt8) : otherByte x ≠ x := by
  unfold otherByte
  split
  · rename_i hzero
    rw [hzero]
    decide
  · rename_i hnonzero
    exact fun h => hnonzero h.symm

/-- A buffer without the bytes of the file shows what was not delivered. -/
theorem delivers_of_readsTrueFile (h : ReadsTrueFile d w rest) {s : Stack} {file : IsoFile}
    {call : Nat} (hlookup : getLbaFile d s (w ++ 0 :: rest) = some (file, call)) :
    Delivers d w file call := by
  by_cases hfound : file = ⟨0, 0⟩
  · exact .inl hfound
  · have hread : ∀ buffer, readFile d s (w ++ 0 :: rest) buffer = some (true,
        d.received file.lba.toNat (d.delivered call (fileSectors file.size)) buffer) :=
      fun buffer => (readFile_eq buffer hlookup).trans (congrArg some (if_neg hfound))
    obtain ⟨⟨r, hr, -⟩, hreads⟩ := h s (fun _ => 0) _ (hread _)
    have hreads' := hreads file call hlookup
    rw [Drive.delivered_of_serves hreads'.2] at hread
    obtain ⟨⟨r', hr', hbytes⟩, -⟩ := h s
      (fun j => otherByte (d.disc (2048 * r.lba.toNat + j))) _ (hread _)
    obtain rfl := Option.some.inj (hr.symm.trans hr')
    have hsize : r.size.toNat ≤ 2048 * (fileSectors file.size).toNat := by
      by_contra hshort
      have hbyte := hbytes _ (Nat.lt_of_not_le hshort)
      rw [Drive.received, if_neg (Nat.lt_irrefl _)] at hbyte
      exact otherByte_ne _ hbyte
    refine .inr ⟨hreads', r, hr, hsize, fun j hj => ?_⟩
    rw [← hbytes j hj, Drive.received, if_pos (Nat.lt_of_lt_of_le hj hsize)]

end Errors

/-- A drive whose fourth read fails, which is that of the data of a file in the root. -/
def failsData : Drive := { flawless twoDirectories with fails := fun call _ => call == 3 }

end MyOs.Drivers
