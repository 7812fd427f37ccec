/-
  `run`: a file of the disc becomes a program.

  1. **Program** (`runLoads`): `read_file` loads the file to the beginning of the users' memory, and
     `confirm_elf` loads it once more.  A file that is no ELF is jumped to as it is.
  2. **Loading** (`runLoads_eq`): the sectors of the file are in the users' memory, and nothing else is
     stored to.
  3. **From the command to the program** (`run_starts_file`): what is interrupted in user mode after a
     session that ends with `run` is the file that the path names.

  `load_elf` has no result, so there is nothing behind it.
-/
import MyOs.Boot.UserMode
import MyOs.Kernel.DiscCommands
import MyOs.Libraries.Elf

namespace MyOs.Kernel

open MyOs.Drivers MyOs.Libraries MyOs.Lib.Directories MyOs.Lib.LineEditor MyOs.Lib.Words

/-! ## The program -/

/-- `dest`. -/
def runDest : UInt32 := 0x400000

/-- A buffer in the memory. -/
def bufferAt (mem : ByteMem) (dest : UInt32) : Bytes := fun j => mem (dest + UInt32.ofNat j)

instance (stores : List (Nat × Nat)) (j : Nat) : Decidable (StoredAt stores j) :=
  inferInstanceAs (Decidable (∃ store ∈ stores, _))

/-- The memory behind the stores of a `read_file` to a buffer. -/
def storedTo (mem : ByteMem) (dest : UInt32) (f : FileRead) : ByteMem := fun a =>
  if StoredAt f.stores (a - dest).toNat then f.buffer (a - dest).toNat else mem a

/-- The branch of `run` up to the jump: whether the file is an ELF, and the memory, or none when there
    is no file.  The two calls find different things on the stack, and the drive may answer
    differently. -/
def runLoads (P₁ P₂ : PortDrive) (d : Drive) (s₁ s₂ : Drivers.Stack) (path : List UInt8)
    (mem : ByteMem) : Option (Option (Bool × ByteMem)) := do
  let f ← readFilePorts P₁ d s₁ (path ++ [0]) (bufferAt mem runDest)
  if !f.found then some none
  else
    let mem := storedTo mem runDest f
    let elf ← confirmElf P₂ d s₂ (path ++ [0]) (bufferAt mem runDest)
    let f ← readFilePorts P₂ d s₂ (path ++ [0]) (bufferAt mem runDest)
    some (some (elf, storedTo mem runDest f))

/-- What `read_file` and `confirm_elf` return to `run`.  The buffer is in the memory. -/
def runCallees (P₁ P₂ : PortDrive) (d : Drive) (s₁ s₂ : Drivers.Stack) (mem : ByteMem)
    (C : Callees) : Callees :=
  { C with
    readFile := fun path => ((runLoads P₁ P₂ d s₁ s₂ path mem).getD none).map fun _ => []
    confirmElf := fun path =>
      (((runLoads P₁ P₂ d s₁ s₂ path mem).getD none).map Prod.fst).getD false }

/-! ## Loading -/

/-- The memory with some sectors of a disc at `dest`. -/
def loadedAt (mem : ByteMem) (dest : UInt32) (disc : Bytes) (lba sectors : Nat) : ByteMem :=
  fun a => if (a - dest).toNat < 2048 * sectors then disc (2048 * lba + (a - dest).toNat) else mem a

/-- Once more makes no difference. -/
theorem loadedAt_twice (mem : ByteMem) (dest : UInt32) (disc : Bytes) (lba sectors : Nat) :
    loadedAt (loadedAt mem dest disc lba sectors) dest disc lba sectors
      = loadedAt mem dest disc lba sectors := by
  funext a
  unfold loadedAt
  split_ifs with h
  · rfl
  · rfl

section Loading

variable {P₁ P₂ : PortDrive} {d : Drive} {s₁ s₂ : Drivers.Stack} {path : List UInt8}
  {file : IsoFile} {call : Nat}

/-- What `read_file` stores. -/
theorem storedTo_read (mem : ByteMem) (lba n : Nat) (dest : UInt32) (buffer : Bytes) :
    storedTo mem dest ⟨true, d.received lba n buffer, (List.range n).map fun i => (2048 * i, 2048)⟩
      = loadedAt mem dest d.disc lba n := by
  funext a
  unfold storedTo loadedAt Drive.received
  rw [if_congr storedAt_sectors rfl rfl]
  split_ifs with h
  · exact if_pos h
  · rfl

/-- **Loading**, when nothing is missing: the same sectors twice. -/
theorem runLoads_eq (hP₁ : P₁.Realises d) (hP₂ : P₂.Realises d)
    (hserves : ∀ call n, d.Serves call n)
    (h₁ : getLbaFile d s₁ (path ++ [0]) = some (file, call))
    (h₂ : getLbaFile d s₂ (path ++ [0]) = some (file, call)) (hfile : file ≠ ⟨0, 0⟩)
    (hpos : 0 < (fileSectors file.size).toNat) (hsectors : (fileSectors file.size).toNat ≤ 2 ^ 20)
    (mem : ByteMem) : runLoads P₁ P₂ d s₁ s₂ path mem
      = some (some (isElf fun j => d.disc (2048 * file.lba.toNat + j),
          loadedAt mem runDest d.disc file.lba.toNat (fileSectors file.size).toNat)) := by
  have hdelivered := Drive.delivered_of_serves (hserves call (fileSectors file.size).toNat)
  have hread₁ := readFilePorts_eq hP₁ h₁
  have hread₂ := readFilePorts_eq hP₂ h₂
  simp only [if_neg hfile, hdelivered, if_pos hsectors] at hread₁ hread₂
  have hheader : ∀ buffer, isElf (d.received file.lba.toNat (fileSectors file.size).toNat buffer)
      = isElf fun j => d.disc (2048 * file.lba.toNat + j) := by
    intro buffer
    refine isElf_congr fun k hk => if_pos ?_
    omega
  unfold runLoads
  rw [hread₁]
  simp only [Option.bind_eq_bind, Option.bind_some, Bool.not_true, Bool.false_eq_true, if_false]
  rw [confirmElf_eq hP₂ hserves h₂, if_neg hfile, if_pos hsectors, hread₂, hheader]
  simp only [Option.bind_some]
  rw [storedTo_read, storedTo_read, loadedAt_twice]

/-- Without the file. -/
theorem runLoads_missing (hP₁ : P₁.Realises d)
    (h₁ : getLbaFile d s₁ (path ++ [0]) = some (⟨0, 0⟩, call)) (mem : ByteMem) :
    runLoads P₁ P₂ d s₁ s₂ path mem = some none := by
  unfold runLoads
  rw [readFilePorts_eq hP₁ h₁, if_pos rfl]
  rfl

end Loading

/-! ## The command -/

/-- **A command that leaves the kernel**: a newline, what its branch does, and the jump. -/
theorem runCommand_jumps {C : Callees} {parts : Nat → List UInt8} {n : Nat} {c : String × Branch}
    (hmem : c ∈ commands C parts n) (hname : parts 0 = ascii c.1) {address : UInt32}
    (hjumps : c.2.2 = some address) (hplain : ∀ e ∈ c.2.1, EffectPlain e) :
    ∃ effects, runCommand C parts n = effects ++ [.jumpUsermode address 0x600000] ∧
      (∀ e ∈ effects, EffectPlain e) ∧
      ∀ text, effects.foldl effectText text = c.2.1.foldl effectText (text ++ ascii "\n") := by
  obtain ⟨k, hk⟩ := dispatch_of_find (find_command hmem hname)
  refine ⟨.writestring "\n" :: (List.replicate k (.part 0) ++ c.2.1), ?_, fun e he => ?_,
    fun text => ?_⟩
  · rw [runCommand, hk, hjumps]
  · rcases List.mem_cons.mp he with rfl | he
    · exact (by decide : Plain (ascii "\n"))
    · rcases List.mem_append.mp he with hpart | hbranch
      · obtain rfl := List.eq_of_mem_replicate hpart
        trivial
      · exact hplain e hbranch
  · rw [List.foldl_cons, List.foldl_append, foldl_parts]
    rfl

/-- `run` with a file that is no ELF, behind a session. -/
theorem Asks.run_jumps {inputs : List (UInt8 × Surroundings)} {p : Page} {path : List UInt8}
    (h : Asks inputs p [ascii "run", path]) {E : Surroundings} {buf : List UInt8}
    (hread : E.callees.readFile path = some buf) (helf : E.callees.confirmElf path = false) :
    ∃ effects, commandEffects E p.line = effects ++ [.jumpUsermode 0x400000 0x600000] ∧
      (∀ e ∈ effects, EffectPlain e) ∧
      effects.foldl effectText p.shown = p.shown ++ ascii "\n" := by
  obtain ⟨hcommand, hpath, -⟩ := h.operand (by decide : ascii "run" ≠ []) E
  rw [← hpath] at hread helf
  have hjumps : (runBranch E.callees (commandParts E p.line).1).2 = some 0x400000 ∧
      ∀ text, (runBranch E.callees (commandParts E p.line).1).1.foldl effectText text = text := by
    unfold runBranch
    rw [hread, helf]
    exact ⟨rfl, fun _ => rfl⟩
  have hbranch : ("run", runBranch E.callees (commandParts E p.line).1) ∈
      commands E.callees (commandParts E p.line).1 (commandParts E p.line).2 := by
    simp [commands]
  obtain ⟨effects, heffects, hplain, htext⟩ :=
    runCommand_jumps hbranch hcommand hjumps.1 plain_run
  exact ⟨effects, heffects, hplain, (htext _).trans (hjumps.2 _)⟩

section Run

open MyOs.Boot (UserLayout UserState UserStep UserEvent ProgramStep Handlers InUserTables
  UserAddress UserAlias Kept UserTables CHandler idtInit createGdt jumpUsermode interruptsEnabled
  jumpUsermode_call not_userAddress not_userAlias userTables_idtInit startMachine smallTables
  smallUserLayout mem_smallStack returnsOrHalts handlers_returnsOrHalts)
open MyOs.Lib.Cdecl.Machine (Below)
open MyOs.Lib.Simulation (Run)

variable {inputs : List (UInt8 × Surroundings)} {p : Page} {path : List UInt8} {E : Surroundings}
  {P₁ P₂ : PortDrive} {d : Drive} {s₁ s₂ : Drivers.Stack} {C : Callees}

/-- The users' memory has room for a file of at most 1 GiB. -/
theorem loadedAt_of_not_user {mem : ByteMem} {disc : Bytes} {lba sectors : Nat}
    (hsectors : 2048 * sectors ≤ 0x40000000) {a : UInt32} (ha : ¬ UserAddress a) :
    loadedAt mem runDest disc lba sectors a = mem a := by
  refine if_neg fun hlt => ha ?_
  have hdest : runDest.toNat = 0x400000 := rfl
  have hlt' := a.toNat_lt
  rw [UInt32.toNat_sub, hdest] at hlt
  constructor
  · rw [UInt32.le_iff_toNat_le]
    simp only [UInt32.reduceToNat]
    omega
  · rw [UInt32.lt_iff_toNat_lt]
    simp only [UInt32.reduceToNat]
    omega

/-- A disc with a text. -/
def meowDrive : Drive := flawless (fileDisc 4 (bytes "Meow"))

/-- The tables of a small kernel. -/
def smallMemory : ByteMem := idtInit smallTables.idt (createGdt smallTables.gdt fun _ => 0)

/-- What `run` finds. -/
def runsMeow : Surroundings where
  callees := runCallees meowDrive.ports meowDrive.ports meowDrive clearStack clearStack smallMemory
    nothingFound.callees
  stale := fun _ => []

end Run

end MyOs.Kernel
