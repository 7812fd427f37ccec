/-
  `run_command`: what a line does.

  1. **Program**: `runCommand` compares `parts[0]` with one command after the other, and the branch
     of the command looks at its operand.  What it does is a list of effects, in their order; which
     elements of `parts` it reads are among them.
  2. **The parts** (`partsAt`): as many as `strsplit` found.  Behind them the array is not
     initialised.
  3. **Operands** (`runCommand_parts_iff`): only parts that are there are read, except for an empty
     line and for `run` without an operand.  The other commands with an operand count the parts.
-/
import MyOs.Drivers.Iso
import MyOs.Kernel.Shell

namespace MyOs.Kernel

open MyOs.Libraries

/-! ## The program -/

/-- The characters of a string in the source. -/
def ascii (s : String) : List UInt8 := s.toList.map Char.toUInt8

/-- `string_equals`. -/
def stringEquals (string1 string2 : List UInt8) : Bool :=
  if string1.length ≠ string2.length then false
  else (List.range string1.length).all fun i => string1[i]? == string2[i]?

/-- What a command does.  `part i` is the use of `parts[i]` as a string. -/
inductive CommandEffect where
  | part (i : Nat)
  | writestring (text : String)
  | writeChars (chars : List UInt8)
  | terminalInitialize
  | getPvd
  | getLbaFile (path : List UInt8)
  | readFile (path : List UInt8)
  | listItems (path : List UInt8)
  | confirmElf (path : List UInt8)
  | loadElf (path : List UInt8)
  | jumpUsermode (address stackAddress : UInt32)

/-- What the functions that a command calls return, and the variables that it reads. -/
structure Callees where
  vendorId : List UInt8
  discConnected : Bool
  confirmPvd : Bool
  lbaFile : List UInt8 → Drivers.IsoFile
  readFile : List UInt8 → Option (List UInt8)
  listItems : List UInt8 → Int × (Nat → List UInt8)
  confirmElf : List UInt8 → Bool
  loadElf : List UInt8 → UInt32
  itoa : UInt32 → List UInt8
  itoaHex : UInt32 → List UInt8

/-- What a branch does, and the address it jumps to if it does not come back. -/
abbrev Branch := List CommandEffect × Option UInt32

section Program

open CommandEffect

variable (C : Callees) (parts : Nat → List UInt8) (partsLength : Nat)

/-- `discinfo`. -/
def discinfoBranch : Branch :=
  ([writestring "A disc is "] ++ (if !C.discConnected then [writestring "not "] else [])
    ++ [writestring "inserted.\n"]
    ++ (if C.discConnected then
          [getPvd, writestring "The disc's PVD is "]
            ++ (if !C.confirmPvd then [writestring "not "] else []) ++ [writestring "valid"]
        else []), none)

/-- `findfile`. -/
def findfileBranch : Branch :=
  if partsLength = 1 then ([writestring "missing operand!"], none)
  else
    let file := C.lbaFile (parts 1)
    ([part 1, getLbaFile (parts 1), part 1, getLbaFile (parts 1)]
      ++ (if file.lba = 0 then
            [writestring "That file does not exist in the location specified."]
          else
            [writestring "The file exists at LBA: 0x", writeChars (C.itoaHex file.lba),
              writestring "\nThe file is ", writeChars (C.itoa file.size),
              writestring " bytes large!"]), none)

/-- `readfile`. -/
def readfileBranch : Branch :=
  if partsLength = 1 then ([writestring "missing operand!"], none)
  else
    ([part 1, readFile (parts 1)]
      ++ (match C.readFile (parts 1) with
          | none => [writestring "File does not exist!"]
          | some buf => [writestring "\n", writeChars buf, writestring "\n"]), none)

/-- `list`. -/
def listBranch : Branch :=
  if partsLength = 1 then ([writestring "No directory specified!"], none)
  else
    let b := C.listItems (parts 1)
    ([part 1, listItems (parts 1)]
      ++ (if b.1 = -1 then [writestring "No such file or directory."] else [])
      ++ (List.range b.1.toNat).flatMap fun i => [writeChars (b.2 i), writestring "\n"], none)

/-- `run`: it does not look at `parts_length`. -/
def runBranch : Branch :=
  match C.readFile (parts 1) with
  | none => ([part 1, readFile (parts 1), writestring "No program found D:"], none)
  | some _ =>
    if !C.confirmElf (parts 1) then
      ([part 1, readFile (parts 1), part 1, confirmElf (parts 1), part 1, getLbaFile (parts 1)],
        some 0x400000)
    else
      ([part 1, readFile (parts 1), part 1, confirmElf (parts 1), part 1, loadElf (parts 1)],
        some (C.loadElf (parts 1)))

/-- `elftest`. -/
def elftestBranch : Branch :=
  if partsLength = 1 then ([writestring "missing operand!"], none) else ([], none)

/-- What `help` writes. -/
def helpText : String :=
  "Okay so here are the we have lol :\nver - outputs the version number lol"
    ++ "\ninfo - just shows the vendor-id of your cpu"
    ++ "\ndiscinfo - shows if a disc is inserted or not."
    ++ "\nfindfile <filename> - tells you where on the disc a file is located and its size"
    ++ "readfile <filename> - reads the contents of a file to the terminal"
    ++ "\n(Only works with files containing text)"
    ++ "\nlist <directory> - lists all files/directories in a directory"
    ++ "\nrun <path> - runs a flat binary at a specific path on the disc"

/-- What `cat` writes. -/
def catText : String :=
  "Meow :3\n\nWhat you expected this to be like the Linux 'cat'?"
    ++ "\nNah its just a cat command :3"

/-- The commands, in the order of the comparisons. -/
def commands : List (String × Branch) :=
  [("info", [writestring "Your CPU was made by: ", writeChars C.vendorId], none),
   ("ver", [writestring
      "Version 0.0.6 of an unnamed OS lol.\n(maybe if you see this suggest a name for it?)"], none),
   ("help", [writestring helpText], none),
   ("secret", [writestring "OMG YOU FOUND THE SECRET!\n:3"], none),
   ("discinfo", discinfoBranch C),
   (":3", List.replicate 5 (writestring ":3\nUwU\n"), none),
   ("findfile", findfileBranch C parts partsLength),
   ("cat", [writestring catText], none),
   ("readfile", readfileBranch C parts partsLength),
   ("list", listBranch C parts partsLength),
   ("run", runBranch C parts),
   ("elftest", elftestBranch partsLength),
   ("clear", [terminalInitialize], none)]

/-- The comparisons with `parts[0]`, and the branch of the first command that is equal. -/
def dispatch (part0 : List UInt8) : List (String × Branch) → Branch
  | [] => ([writestring "INVALID COMMAND\nUSE 'help' TO SEE THE DAMN COMMAND LIST!"], none)
  | (name, branch) :: rest =>
    if stringEquals part0 (ascii name) then (part 0 :: branch.1, branch.2)
    else (part 0 :: (dispatch part0 rest).1, (dispatch part0 rest).2)

/-- `run_command`. -/
def runCommand : List CommandEffect :=
  let branch := dispatch (parts 0) (commands C parts partsLength)
  writestring "\n" :: branch.1 ++
    match branch.2 with
    | none => [writestring "\n> "]
    | some address => [jumpUsermode address 0x600000]

end Program

/-- The strings that the elements of `parts` point to: what `strsplit` left of the array, from each
    offset on.  Behind the last part, whatever `stale` says. -/
def partsAt (split : List UInt8) (offsets : List Nat) (stale : Nat → List UInt8) (i : Nat) :
    List UInt8 :=
  match offsets[i]? with
  | some p => cString (split.drop p)
  | none => stale i

/-! ## What it reads -/

section Reads

variable {C : Callees} {parts : Nat → List UInt8} {n i : Nat}

theorem stringEquals_iff {a b : List UInt8} : stringEquals a b = true ↔ a = b := by
  unfold stringEquals
  constructor
  · intro h
    split_ifs at h with hlength
    refine List.ext_getElem? fun i => ?_
    rcases Nat.lt_or_ge i a.length with hi | hi
    · exact beq_iff_eq.mp (List.all_eq_true.mp h i (List.mem_range.mpr hi))
    · rw [List.getElem?_eq_none hi, List.getElem?_eq_none (not_not.mp hlength ▸ hi)]
  · rintro rfl
    rw [if_neg (not_not.mpr rfl), List.all_eq_true]
    exact fun i _ => beq_self_eq_true _

/-- The reads of the comparisons, and of one branch. -/
theorem mem_dispatch {part0 : List UInt8} : ∀ {table : List (String × Branch)},
    .part i ∈ (dispatch part0 table).1 ↔ (i = 0 ∧ table ≠ []) ∨
      ∃ c, table.find? (fun c => stringEquals part0 (ascii c.1)) = some c ∧ .part i ∈ c.2.1
  | [] => by simp [dispatch]
  | (name, branch) :: table => by
    have ih : .part i ∈ (dispatch part0 table).1 ↔ _ := mem_dispatch
    unfold dispatch
    by_cases hequal : stringEquals part0 (ascii name) = true
    · have hfind : ((name, branch) :: table).find? (fun c => stringEquals part0 (ascii c.1))
          = some (name, branch) := List.find?_cons_of_pos hequal
      rw [if_pos hequal, hfind]
      simp
    · have hfind : ((name, branch) :: table).find? (fun c => stringEquals part0 (ascii c.1))
          = table.find? (fun c => stringEquals part0 (ascii c.1)) := List.find?_cons_of_neg hequal
      rw [if_neg hequal, hfind, List.mem_cons, ih]
      simp only [CommandEffect.part.injEq, ne_eq, reduceCtorEq, not_false_eq_true, and_true]
      tauto

theorem part_not_mem_discinfo : .part i ∉ (discinfoBranch C).1 := by
  unfold discinfoBranch
  split_ifs <;> simp

theorem part_mem_findfile (h : .part i ∈ (findfileBranch C parts n).1) : i = 1 ∧ n ≠ 1 := by
  unfold findfileBranch at h
  split_ifs at h with hn
  · simp at h
  · dsimp only at h
    split_ifs at h <;> simpa [hn] using h

theorem part_mem_readfile (h : .part i ∈ (readfileBranch C parts n).1) : i = 1 ∧ n ≠ 1 := by
  unfold readfileBranch at h
  split_ifs at h with hn
  · simp at h
  · cases hread : C.readFile (parts 1) <;> simpa [hn, hread] using h

theorem part_mem_list (h : .part i ∈ (listBranch C parts n).1) : i = 1 ∧ n ≠ 1 := by
  unfold listBranch at h
  split_ifs at h with hn
  · simp at h
  · dsimp only at h
    split_ifs at h <;> simpa [hn] using h

theorem part_mem_run : .part i ∈ (runBranch C parts).1 ↔ i = 1 := by
  unfold runBranch
  cases C.readFile (parts 1) with
  | none => simp
  | some _ =>
    dsimp only
    split_ifs <;> simp

theorem part_not_mem_elftest : .part i ∉ (elftestBranch n).1 := by
  unfold elftestBranch
  split_ifs <;> simp

/-- The branches read `parts[1]`, and all but `run` count the parts before. -/
theorem reads_of_mem_commands {c : String × Branch} (hc : c ∈ commands C parts n)
    (hi : .part i ∈ c.2.1) : i = 1 ∧ (n ≠ 1 ∨ c.1 = "run") := by
  simp only [commands, List.mem_cons, List.not_mem_nil, or_false] at hc
  rcases hc with rfl | rfl | rfl | rfl | rfl | rfl | rfl | rfl | rfl | rfl | rfl | rfl | rfl
  case inr.inr.inr.inr.inl => exact absurd hi part_not_mem_discinfo
  case inr.inr.inr.inr.inr.inr.inl => exact (part_mem_findfile hi).imp_right .inl
  case inr.inr.inr.inr.inr.inr.inr.inr.inl => exact (part_mem_readfile hi).imp_right .inl
  case inr.inr.inr.inr.inr.inr.inr.inr.inr.inl => exact (part_mem_list hi).imp_right .inl
  case inr.inr.inr.inr.inr.inr.inr.inr.inr.inr.inl => exact ⟨part_mem_run.mp hi, .inr rfl⟩
  case inr.inr.inr.inr.inr.inr.inr.inr.inr.inr.inr.inl => exact absurd hi part_not_mem_elftest
  -- the others only write texts
  all_goals simp at hi

theorem part_mem_runCommand : .part i ∈ runCommand C parts n ↔
    .part i ∈ (dispatch (parts 0) (commands C parts n)).1 := by
  unfold runCommand
  obtain ⟨effects, address⟩ := dispatch (parts 0) (commands C parts n)
  cases address <;> simp

/-- The names in front of it differ from "run". -/
theorem find_run (hrun : parts 0 = ascii "run") :
    (commands C parts n).find? (fun c => stringEquals (parts 0) (ascii c.1))
      = some ("run", runBranch C parts) := by
  have hother : ∀ name ∈ ["info", "ver", "help", "secret", "discinfo", ":3", "findfile", "cat",
      "readfile", "list"], stringEquals (ascii "run") (ascii name) = false := by decide
  have hself : stringEquals (ascii "run") (ascii "run") = true := stringEquals_iff.mpr rfl
  rw [hrun]
  simp [commands, hother, hself]

/-- `run` reads `parts[1]`. -/
theorem part_one_mem_runCommand (hrun : parts 0 = ascii "run") :
    .part 1 ∈ runCommand C parts n :=
  part_mem_runCommand.mpr (mem_dispatch.mpr (.inr ⟨_, find_run hrun, part_mem_run.mpr rfl⟩))

/-- **What a command reads**: `parts[0]`, and `parts[1]` for an operand. -/
theorem runCommand_parts (C : Callees) (parts : Nat → List UInt8) (n : Nat) :
    (∀ i, .part i ∈ runCommand C parts n → i < n) ↔ 0 < n ∧ (parts 0 = ascii "run" → n ≠ 1) := by
  constructor
  · intro h
    have hzero := h 0 (part_mem_runCommand.mpr (mem_dispatch.mpr (.inl ⟨rfl, List.cons_ne_nil _ _⟩)))
    refine ⟨hzero, fun hrun => ?_⟩
    have hone := h 1 (part_one_mem_runCommand hrun)
    omega
  · rintro ⟨hzero, hrun⟩ i hi
    rcases mem_dispatch.mp (part_mem_runCommand.mp hi) with ⟨rfl, -⟩ | ⟨c, hfind, hi⟩
    · exact hzero
    · obtain ⟨rfl, hone | hname⟩ := reads_of_mem_commands (List.mem_of_find?_eq_some hfind) hi
      · omega
      · have hequal := List.find?_some hfind
        rw [hname, stringEquals_iff] at hequal
        have hne := hrun hequal
        omega

end Reads

/-! ## Lines -/

section Lines

variable {s s' : ShellState} {line split : List UInt8} {offsets : List Nat}

/-- The line that `kernel_main` runs, and its parts. -/
theorem of_kernelMainStep_newline
    (h : kernelMainStep s newline = some (s', [.runCommand line split offsets])) :
    toLowerCase s.inputBuffer = some line ∧ strsplit line space 16 = some (split, offsets) := by
  rw [kernelMainStep, if_neg (by decide), if_neg fun hb => absurd hb.1 (by decide),
    if_neg (by decide), if_pos rfl] at h
  obtain ⟨line', hline, h⟩ := Option.bind_eq_some_iff.mp h
  obtain ⟨⟨split', offsets'⟩, hsplit, h⟩ := Option.bind_eq_some_iff.mp h
  obtain ⟨buffer, -, h⟩ := Option.bind_eq_some_iff.mp h
  obtain ⟨-, hevents⟩ := Prod.mk.inj (Option.some.inj h)
  obtain ⟨rfl, rfl, rfl⟩ := ShellEvent.runCommand.inj (List.cons.inj hevents).1
  exact ⟨hline, hsplit⟩

/-- A line in lower case with as many parts as its command reads: not empty, not one space, and not
    `run` alone, perhaps behind a space, with any number of them behind it. -/
def Complete (line : List UInt8) : Prop :=
  line ≠ [] ∧ line ≠ [space] ∧
    ¬ ∃ k, line = ascii "run" ++ List.replicate k space ∨
      line = space :: (ascii "run" ++ List.replicate k space)

theorem partsAt_zero {left rest : List UInt8} {stale : Nat → List UInt8} {p : Nat}
    {ps : List Nat} (hp : p ≤ left.length) :
    partsAt (left ++ 0 :: rest) (p :: ps) stale 0 = cString (left.drop p) := by
  obtain ⟨hzero, rest', heq⟩ := holds_cString (left.drop p) rest
  show cString ((left ++ 0 :: rest).drop p) = _
  rw [List.drop_append_of_le_length hp, heq, cString_terminated hzero]

/-- **Which elements of `parts` are read**: only those that `strsplit` has stored, exactly when the
    line is complete. -/
theorem runCommand_parts_iff
    (h : kernelMainStep s newline = some (s', [.runCommand line split offsets])) (C : Callees)
    (stale : Nat → List UInt8) :
    (∀ i, .part i ∈ runCommand C (partsAt split offsets stale) offsets.length →
        i < offsets.length) ↔
      Complete ((cString s.inputBuffer).map lower) := by
  obtain ⟨hline, hsplit⟩ := of_kernelMainStep_newline h
  have hmem : 0 ∈ s.inputBuffer := by
    by_contra hmem
    nomatch (toLowerCase_eq_none hmem).symm.trans hline
  -- the line, as the string in front of the first zero of the buffer
  obtain ⟨before, after, hbuffer⟩ := List.append_of_mem hmem
  obtain ⟨hzero, rest, hholds⟩ := holds_cString before after
  rw [hbuffer, hholds, cString_terminated hzero]
  rw [hbuffer, hholds, toLowerCase_eq hzero] at hline
  obtain rfl := Option.some.inj hline
  have hlower := zero_not_mem_map_lower hzero
  generalize (cString before).map lower = w at hsplit hlower ⊢
  rw [strsplit_eq_splitString (by decide) 16 hlower] at hsplit
  obtain ⟨rfl, rfl⟩ := Prod.mk.inj (Option.some.inj hsplit)
  have hlength := length_splitString space 16 w
  have hrun := splitString_one_part_iff (show 1 < 16 by decide) hlower
    (show ascii "run" ≠ [] by decide) (show space ∉ ascii "run" by decide)
  have hnil : (splitString space 16 w).2 = [] ↔ _ := splitString_eq_nil_iff
  have hbound : ∀ p ∈ (splitString space 16 w).2, p < w.length := fun p hp => mem_splitString hp
  -- the two ways to read too far, as properties of the list of parts
  rw [runCommand_parts, Complete, ← and_assoc, ← not_or, ← hnil, ← hrun]
  generalize (splitString space 16 w).1 = left at hlength ⊢
  generalize (splitString space 16 w).2 = offsets at hbound ⊢
  cases offsets with
  | nil => exact iff_of_false (fun h => absurd h.1 (Nat.lt_irrefl 0)) fun h => h.1 rfl
  | cons p ps =>
    have hp := hbound p List.mem_cons_self
    rw [partsAt_zero (by omega), and_iff_right (List.length_pos_of_ne_nil (List.cons_ne_nil p ps)),
      and_iff_right (List.cons_ne_nil p ps)]
    constructor
    · rintro hone ⟨q, hq, hstring⟩
      obtain ⟨rfl, rfl⟩ := List.cons.inj hq
      exact hone hstring rfl
    · intro hone hstring hlength
      obtain rfl := List.length_eq_zero_iff.mp (Nat.succ.inj hlength)
      exact hone ⟨p, rfl, hstring⟩

/-- No disc. -/
def noDisc : Callees where
  vendorId := []
  discConnected := false
  confirmPvd := false
  lbaFile _ := ⟨0, 0⟩
  readFile _ := none
  listItems _ := (-1, fun _ => [])
  confirmElf _ := false
  loadElf _ := 0
  itoa _ := []
  itoaHex _ := []

/-- A line in the buffer, with zeros behind it. -/
def typedLine (text : List UInt8) : ShellState :=
  ⟨text ++ 0 :: List.replicate (255 - text.length) 0, UInt16.ofNat text.length⟩

theorem kernelMainStep_typedLine {text : List UInt8} (htext : 0 ∉ text)
    (hlength : text.length ≤ 255) : kernelMainStep (typedLine text) newline = some
      (⟨List.replicate text.length 0 ++ (splitString space 16 (text.map lower)).1.drop text.length
          ++ 0 :: List.replicate (255 - text.length) 0, 0⟩,
        [.runCommand (text.map lower ++ 0 :: List.replicate (255 - text.length) 0)
          ((splitString space 16 (text.map lower)).1 ++ 0 :: List.replicate (255 - text.length) 0)
          (splitString space 16 (text.map lower)).2]) := by
  have hsize : (typedLine text).inputSize.toNat = text.length :=
    UInt16.toNat_ofNat_of_lt' (by simp only [UInt16.size]; omega)
  have hstep := kernelMainStep_newline htext (show (typedLine text).inputBuffer = _ from rfl)
    (Nat.le_of_eq hsize)
  rwa [hsize] at hstep

/-- What `strsplit` makes of `run a`. -/
def runA : List UInt8 × List Nat := splitString space 16 ((ascii "run a").map lower)

/-- `run a` reads its operand, and nothing behind it. -/
theorem runCommand_parts_iff_run :
    .part 1 ∈ runCommand noDisc (partsAt (runA.1 ++ 0 :: List.replicate 250 0) runA.2 fun _ => []) 2 ∧
    .part 2 ∉ runCommand noDisc (partsAt (runA.1 ++ 0 :: List.replicate 250 0) runA.2 fun _ => []) 2 := by
  have hline : (cString (typedLine (ascii "run a")).inputBuffer).map lower = ascii "run a" := by decide
  have hcomplete : Complete ((cString (typedLine (ascii "run a")).inputBuffer).map lower) := by
    rw [hline]
    refine ⟨by decide, by decide, ?_⟩
    rintro ⟨k, h | h⟩
    · -- the operand would be a space
      have hmem : 0x61 ∈ List.replicate k space := by
        have hdrop := congrArg (List.drop 3) h
        rw [List.drop_left' (show (ascii "run").length = 3 by decide)] at hdrop
        rw [← hdrop]
        decide
      exact absurd (List.eq_of_mem_replicate hmem) (by decide)
    · exact absurd (List.cons.inj h).1 (by decide)
  have hreads := (runCommand_parts_iff (kernelMainStep_typedLine (by decide) (by decide)) noDisc
    fun _ => []).mpr hcomplete
  exact ⟨part_one_mem_runCommand (by decide), fun h => absurd (hreads 2 h) (by decide)⟩

/-- **`run` without an operand** reads an element of `parts` that nobody has stored. -/
theorem not_runCommand_parts : ¬ ∀ (s s' : ShellState) (line split : List UInt8)
    (offsets : List Nat) (C : Callees) (stale : Nat → List UInt8),
    kernelMainStep s newline = some (s', [.runCommand line split offsets]) →
    ∀ i, .part i ∈ runCommand C (partsAt split offsets stale) offsets.length →
      i < offsets.length := by
  intro h
  have hreads := h (typedLine (ascii "run")) _ _ _ _ noDisc (fun _ => [])
    (kernelMainStep_typedLine (by decide) (by decide))
  rw [runCommand_parts] at hreads
  exact hreads.2 (by decide) (by decide)

end Lines

end MyOs.Kernel
