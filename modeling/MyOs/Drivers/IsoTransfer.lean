/-
  How much of a file `read_file` transfers.

  1. **Program** (`readFilePorts`): `read_file` with the transfer of the data at the ports of the
     drive, and where in the buffer it stores.
  2. **Refinement** (`readFilePorts_eq`): up to `2^20` sectors it is `read_file` on sectors.
  3. **Files of every size** (`readFile_transfers_iff`): the number of sectors wraps around, and the
     offset of a sector overflows, so that files above 2 GiB are not transferred.
-/
import MyOs.Drivers.IsoErrors
import MyOs.Libraries.AtapiDrives

namespace MyOs.Drivers

open MyOs.Libraries

/-! ## The program -/

/-- What `read_file` leaves: its result, the buffer, and where in the buffer it stored. -/
structure FileRead where
  found : Bool
  buffer : Bytes
  stores : List (Nat × Nat)

/-- `read_file` behind the lookup. -/
def readFileAt (P : PortDrive) (file : IsoFile) (call : Nat) (buffer : Bytes) : Option FileRead :=
  if file.size = 0 ∧ file.lba = 0 then some ⟨false, buffer, []⟩
  else do
    let sectors := (file.size + 2047) / 2048
    let r ← (P call file.lba sectors).atapiRead file.lba sectors buffer
    some ⟨true, r.buffer, r.stores⟩

/-- `read_file`.  The lookup reads single sectors. -/
def readFilePorts (P : PortDrive) (d : Drive) (s : Stack) (name : List UInt8) (buffer : Bytes) :
    Option FileRead := do
  let (file, call) ← getLbaFile d s name
  readFileAt P file call buffer

/-! ## Refinement -/

theorem toNat_fileSectors (size : UInt32) :
    (fileSectors size).toNat = (size.toNat + 2047) % 2 ^ 32 / 2048 := by
  rw [fileSectors, UInt32.toNat_div, UInt32.toNat_add]
  rfl

/-- A file of less than 4 GiB - 2 KiB has as many sectors as it needs. -/
theorem toNat_fileSectors_of_le {size : UInt32} (h : size.toNat ≤ 2 ^ 32 - 2048) :
    (fileSectors size).toNat = (size.toNat + 2047) / 2048 := by
  rw [toNat_fileSectors, Nat.mod_eq_of_lt (by omega)]

/-- A larger one has none. -/
theorem toNat_fileSectors_of_gt {size : UInt32} (h : 2 ^ 32 - 2048 < size.toNat) :
    (fileSectors size).toNat = 0 := by
  have hlt : size.toNat < 2 ^ 32 := size.toNat_lt
  rw [toNat_fileSectors]
  omega

section Reading

variable {P : PortDrive} {d : Drive} {s : Stack} {name : List UInt8} {file : IsoFile} {call : Nat}

/-- **Refinement**: `read_file` stores the sectors that the drive delivers, if there are no more than
    `2^20`. -/
theorem readFilePorts_eq (hP : P.Realises d) (h : getLbaFile d s name = some (file, call))
    (buffer : Bytes) : readFilePorts P d s name buffer
      = if file = ⟨0, 0⟩ then some ⟨false, buffer, []⟩
        else if d.delivered call (fileSectors file.size) ≤ 2 ^ 20 then
          some ⟨true, d.received file.lba.toNat (d.delivered call (fileSectors file.size)) buffer,
            (List.range (d.delivered call (fileSectors file.size))).map fun i => (2048 * i, 2048)⟩
        else none := by
  unfold readFilePorts readFileAt
  rw [h]
  simp only [Option.bind_eq_bind, Option.bind_some, isMissing_iff]
  congr 1
  have hcall := hP call file.lba (fileSectors file.size)
  have hbuffer := Drive.atapiRead_eq (d := d) call file.lba (fileSectors file.size) buffer
  by_cases hint : d.delivered call (fileSectors file.size) ≤ 2 ^ 20
  · obtain ⟨sent, hread⟩ := hcall.atapiRead hint buffer
    rw [if_pos hint, ← hbuffer]
    exact congrArg (Option.bind · _) hread
  · rw [if_neg hint]
    exact congrArg (Option.bind · _) (hcall.atapiRead_overflow (Nat.lt_of_not_le hint) buffer)

/-- So it is `read_file` on sectors. -/
theorem readFilePorts_readFile (hP : P.Realises d) (h : getLbaFile d s name = some (file, call))
    (hint : d.delivered call (fileSectors file.size) ≤ 2 ^ 20) (buffer : Bytes) :
    (readFilePorts P d s name buffer).map (fun f => (f.found, f.buffer))
      = readFile d s name buffer := by
  rw [readFilePorts_eq hP h, readFile_eq buffer h, if_pos hint]
  split_ifs <;> rfl

end Reading

/-! ## Files of every size -/

section Sizes

variable {disc : Bytes} {P : PortDrive} {s : Stack} {name : List UInt8} {file : IsoFile}
  {call : Nat}

/-- A drive without errors delivers what it is asked for. -/
theorem delivered_flawless (disc : Bytes) (call : Nat) (sectors : UInt32) :
    (flawless disc).delivered call sectors = sectors.toNat :=
  Drive.delivered_of_serves (flawless_serves disc call sectors.toNat)

/-- **Which files are transferred**: on a drive without errors, for every buffer, `read_file` comes
    back, and if it returns true the buffer has all bytes of the file, exactly for files of at most
    2 GiB. -/
theorem readFile_transfers_iff (hP : P.Realises (flawless disc))
    (h : getLbaFile (flawless disc) s name = some (file, call)) :
    (∀ buffer, ∃ f, readFilePorts P (flawless disc) s name buffer = some f ∧
      (f.found = true →
        ∀ k, k < file.size.toNat → f.buffer k = disc (2048 * file.lba.toNat + k))) ↔
    file.size.toNat ≤ 2 ^ 31 := by
  have hread := readFilePorts_eq hP h
  simp only [delivered_flawless] at hread
  by_cases hzero : file = ⟨0, 0⟩
  · refine iff_of_true (fun buffer => ⟨_, (hread buffer).trans (if_pos hzero), ?_⟩) ?_
    · exact fun hfound => absurd hfound Bool.false_ne_true
    · rw [hzero]
      decide
  · simp only [if_neg hzero] at hread
    constructor
    · intro hall
      by_contra hlarge
      -- a buffer that has another byte wherever the file has one
      obtain ⟨f, hf, hbytes⟩ := hall fun k => otherByte (disc (2048 * file.lba.toNat + k))
      rw [hread] at hf
      split at hf
      · rename_i hint
        have hnone : (fileSectors file.size).toNat = 0 := by
          by_cases hwrap : 2 ^ 32 - 2048 < file.size.toNat
          · exact toNat_fileSectors_of_gt hwrap
          · rw [toNat_fileSectors_of_le (Nat.le_of_not_lt hwrap)] at hint
            omega
        obtain rfl := Option.some.inj hf
        have hbyte := hbytes rfl 0 (by omega)
        simp only [hnone, Drive.received_zero] at hbyte
        exact otherByte_ne _ hbyte
      · nomatch hf
    · intro hsmall buffer
      have hsectors := @toNat_fileSectors_of_le file.size (by omega)
      refine ⟨_, (hread buffer).trans (if_pos (by omega)), fun _ k hk => ?_⟩
      exact if_pos (by omega)

end Sizes

/-- The file `F` in the root of `twoDirectories`, which is 9 bytes long. -/
theorem readFile_transfers_iff_f :
    ∃ f, readFilePorts (flawless twoDirectories).ports (flawless twoDirectories) clearStack
        (bytes "F" ++ [0]) (fun _ => 0) = some f ∧
      (f.found = true → ∀ k, k < (9 : UInt32).toNat →
        f.buffer k = twoDirectories (2048 * (30 : UInt32).toNat + k)) := by
  have hfile : getLbaFile (flawless twoDirectories) clearStack (bytes "F" ++ [0])
      = some (⟨30, 9⟩, 3) := by decide +kernel
  exact (readFile_transfers_iff (Drive.ports_realises _) hfile).mpr (by decide) fun _ => 0

/-- An image with one file, which is one byte shorter than 4 GiB. -/
def hugeFile : Bytes :=
  discOf ⟨20, 2048, true, [0]⟩
    [(20, [⟨20, 2048, true, [0]⟩, ⟨20, 2048, true, [1]⟩, ⟨30, 0xFFFFFFFF, false, bytes "F;1"⟩])]

/-- **A file that is not transferred**: `read_file` returns true, and has read no sector. -/
theorem not_readFile_transfers : ¬ ∀ (disc : Bytes) (P : PortDrive) (s : Stack)
    (name : List UInt8) (file : IsoFile) (call : Nat), P.Realises (flawless disc) →
    getLbaFile (flawless disc) s name = some (file, call) →
    ∀ buffer, ∃ f, readFilePorts P (flawless disc) s name buffer = some f ∧
      (f.found = true →
        ∀ k, k < file.size.toNat → f.buffer k = disc (2048 * file.lba.toNat + k)) := by
  intro h
  have hrealises := Drive.ports_realises (flawless hugeFile)
  have hfile : getLbaFile (flawless hugeFile) clearStack (bytes "F" ++ [0])
      = some (⟨30, 0xFFFFFFFF⟩, 3) := by decide +kernel
  obtain ⟨f, hf, hbytes⟩ := h hugeFile _ clearStack _ _ _ hrealises hfile fun _ => 1
  rw [readFilePorts_eq hrealises hfile, if_neg (by decide), delivered_flawless,
    if_pos (by decide)] at hf
  obtain rfl := Option.some.inj hf
  have hbyte := hbytes rfl 0 (by decide)
  have hnone : (fileSectors 0xFFFFFFFF).toNat = 0 := by decide
  simp only [hnone, Drive.received_zero] at hbyte
  exact absurd hbyte (by decide +kernel)

end MyOs.Drivers
