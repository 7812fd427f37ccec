/-
  `confirm_elf`, which loads a file and looks at its first bytes.

  It does not know how much of the buffer `read_file` has written.

  1. **Files with a sector** (`isElf_received`): the header is in the first one, so what was in the
     buffer before does not matter.
  2. **Files without** (`confirmElf_same_iff`): an empty file, and one of almost 4 GiB whose number of
     sectors wraps around to zero, have the header that was there before.
-/
import MyOs.Drivers.IsoTransfer

namespace MyOs.Libraries

open MyOs.Drivers

/-! ## The program -/

/-- `elf_header->magic[i]`. -/
def elfMagic (buffer : Bytes) (i : Nat) : UInt8 := buffer i

/-- `elf_header->endian`. -/
def elfEndian (buffer : Bytes) : UInt8 := buffer 5

/-- `elf_header->instruct_set`. -/
def elfInstructSet (buffer : Bytes) : UInt16 :=
  (buffer 18).toUInt16 ||| (buffer 19).toUInt16 <<< 8

/-- The checks of `confirm_elf`: the magic number, little endian, and x86. -/
def isElf (buffer : Bytes) : Bool :=
  if elfMagic buffer 0 ≠ 0x7F ∨ elfMagic buffer 1 ≠ 'E'.toUInt8 ∨
      elfMagic buffer 2 ≠ 'L'.toUInt8 ∨ elfMagic buffer 3 ≠ 'F'.toUInt8 then false
  else if elfEndian buffer ≠ 1 then false
  else if elfInstructSet buffer ≠ 0x03 then false
  else true

/-- `confirm_elf`. -/
def confirmElf (P : PortDrive) (d : Drive) (s : Stack) (filename : List UInt8) (buffer : Bytes) :
    Option Bool := do
  let f ← readFilePorts P d s filename buffer
  if !f.found then some false else some (isElf f.buffer)

/-! ## The header -/

/-- A buffer that the checks accept. -/
def elfHeader : Bytes := fun i =>
  [0x7F, 'E'.toUInt8, 'L'.toUInt8, 'F'.toUInt8, 1, 1, 1, 0, 0, 0, 0, 0, 0, 0, 0, 0, 2, 0, 3, 0][i]?.getD 0

theorem isElf_elfHeader : isElf elfHeader = true := by decide

theorem not_isElf_zero : isElf (fun _ => 0) = false := by decide

/-- The checks look at the first twenty bytes. -/
theorem isElf_congr {b₁ b₂ : Bytes} (h : ∀ k, k < 20 → b₁ k = b₂ k) : isElf b₁ = isElf b₂ := by
  unfold isElf elfMagic elfEndian elfInstructSet
  rw [h 0 (by decide), h 1 (by decide), h 2 (by decide), h 3 (by decide), h 5 (by decide),
    h 18 (by decide), h 19 (by decide)]

/-- One sector is enough for the header. -/
theorem isElf_received (d : Drive) (lba : Nat) {n : Nat} (hn : 0 < n) (b₁ b₂ : Bytes) :
    isElf (d.received lba n b₁) = isElf (d.received lba n b₂) := by
  refine isElf_congr fun k hk => ?_
  have hin : k < 2048 * n := by omega
  rw [Drive.received, Drive.received, if_pos hin, if_pos hin]

/-! ## Two runs -/

section TwoRuns

variable {P : PortDrive} {d : Drive} {s : Stack} {filename : List UInt8}

theorem confirmElf_eq (hP : P.Realises d) (hserves : ∀ call n, d.Serves call n) {file : IsoFile}
    {call : Nat} (h : getLbaFile d s filename = some (file, call)) (buffer : Bytes) :
    confirmElf P d s filename buffer
      = if file = ⟨0, 0⟩ then some false
        else if (fileSectors file.size).toNat ≤ 2 ^ 20 then
          some (isElf (d.received file.lba.toNat (fileSectors file.size).toNat buffer))
        else none := by
  have hdelivered := Drive.delivered_of_serves (hserves call (fileSectors file.size).toNat)
  rw [confirmElf, readFilePorts_eq hP h, hdelivered]
  split_ifs <;> rfl

/-- The files of which at least one sector is read, and no sector lies behind 2 GiB. -/
theorem fileSectors_pos_iff {size : UInt32} :
    (0 < (fileSectors size).toNat ∧ (fileSectors size).toNat ≤ 2 ^ 20) ↔
      0 < size.toNat ∧ size.toNat ≤ 2 ^ 31 := by
  by_cases hwrap : 2 ^ 32 - 2048 < size.toNat
  · rw [toNat_fileSectors_of_gt hwrap]
    omega
  · rw [toNat_fileSectors_of_le (Nat.le_of_not_lt hwrap)]
    omega

/-- The two runs, behind the lookup. -/
theorem confirmElf_same_found (hP : P.Realises d) (hserves : ∀ call n, d.Serves call n)
    {file : IsoFile} {call : Nat} (h : getLbaFile d s filename = some (file, call)) :
    (∃ v, ∀ buffer, confirmElf P d s filename buffer = some v) ↔
      file = ⟨0, 0⟩ ∨ (0 < file.size.toNat ∧ file.size.toNat ≤ 2 ^ 31) := by
  have hread := confirmElf_eq hP hserves h
  by_cases hmissing : file = ⟨0, 0⟩
  · simp only [if_pos hmissing] at hread
    exact iff_of_true ⟨false, hread⟩ (.inl hmissing)
  simp only [if_neg hmissing] at hread
  rw [or_iff_right hmissing, ← fileSectors_pos_iff]
  constructor
  · rintro ⟨v, hv⟩
    constructor
    · -- without a sector the header is the old one
      by_contra hnone
      have hzero : (fileSectors file.size).toNat = 0 := Nat.eq_zero_of_not_pos hnone
      rw [hzero] at hread
      simp only [Drive.received_zero, Nat.zero_le, if_true] at hread
      have hold := (hread elfHeader).symm.trans (hv elfHeader)
      have hclear := (hread fun _ => 0).symm.trans (hv fun _ => 0)
      rw [isElf_elfHeader] at hold
      rw [not_isElf_zero] at hclear
      exact Bool.false_ne_true (Option.some.inj (hclear.trans hold.symm))
    · -- an offset that is no `int` has no result
      by_contra hover
      have hnone := hv fun _ => 0
      rw [hread, if_neg hover] at hnone
      nomatch hnone
  · rintro ⟨hpos, hfits⟩
    refine ⟨isElf (d.received file.lba.toNat (fileSectors file.size).toNat fun _ => 0), ?_⟩
    intro buffer
    rw [hread, if_pos hfits, isElf_received d file.lba.toNat hpos]

/-- **`confirm_elf` in two runs**: on a disc that is read without errors it returns one value,
    whatever was in the buffer, exactly when the lookup comes to an end and finds no file, or one
    with at least one byte and at most 2 GiB. -/
theorem confirmElf_same_iff (hP : P.Realises d) (hserves : ∀ call n, d.Serves call n) :
    (∃ v, ∀ buffer, confirmElf P d s filename buffer = some v) ↔
      ∃ file call, getLbaFile d s filename = some (file, call) ∧
        (file = ⟨0, 0⟩ ∨ (0 < file.size.toNat ∧ file.size.toNat ≤ 2 ^ 31)) := by
  cases hlookup : getLbaFile d s filename with
  | none =>
    refine iff_of_false ?_ fun ⟨_, _, h, _⟩ => nomatch h
    rintro ⟨v, hv⟩
    have hnone := hv fun _ => 0
    rw [confirmElf, readFilePorts, hlookup] at hnone
    nomatch hnone
  | some found =>
    obtain ⟨file, call⟩ := found
    rw [confirmElf_same_found hP hserves hlookup]
    constructor
    · exact fun h => ⟨file, call, rfl, h⟩
    · rintro ⟨_, _, heq, h⟩
      obtain ⟨rfl, -⟩ := Prod.mk.inj (Option.some.inj heq)
      exact h

end TwoRuns

/-- The file `F` of 9 bytes has one result for every buffer. -/
theorem confirmElf_same_iff_f : ∃ v, ∀ buffer, confirmElf (flawless twoDirectories).ports
    (flawless twoDirectories) clearStack (bytes "F" ++ [0]) buffer = some v := by
  have hfile : getLbaFile (flawless twoDirectories) clearStack (bytes "F" ++ [0])
      = some (⟨30, 9⟩, 3) := by decide +kernel
  exact (confirmElf_same_iff (Drive.ports_realises _) (flawless_serves _)).mpr
    ⟨_, _, hfile, .inr (by decide)⟩

/-- An image with one file, which is empty and has a place on the disc. -/
def emptyFile : Bytes :=
  discOf ⟨20, 2048, true, [0]⟩
    [(20, [⟨20, 2048, true, [0]⟩, ⟨20, 2048, true, [1]⟩, ⟨30, 0, false, bytes "F;1"⟩])]

/-- **The empty file** is an ELF file when one was loaded before. -/
theorem not_confirmElf_same : ¬ ∀ (d : Drive) (P : PortDrive) (s : Stack) (filename : List UInt8),
    P.Realises d → (∀ call n, d.Serves call n) → ∀ b₁ b₂ : Bytes,
    confirmElf P d s filename b₁ = confirmElf P d s filename b₂ := by
  intro h
  have hrealises := Drive.ports_realises (flawless emptyFile)
  have hserves := flawless_serves emptyFile
  have hfile : getLbaFile (flawless emptyFile) clearStack (bytes "F" ++ [0])
      = some (⟨30, 0⟩, 3) := by decide +kernel
  have hsame := h _ _ clearStack (bytes "F" ++ [0]) hrealises hserves elfHeader fun _ => 0
  have hread := confirmElf_eq hrealises hserves hfile
  have hnone : (fileSectors 0).toNat = 0 := by decide
  simp only [hnone, Drive.received_zero] at hread
  rw [hread, hread] at hsame
  exact absurd hsame (by decide)

end MyOs.Libraries
