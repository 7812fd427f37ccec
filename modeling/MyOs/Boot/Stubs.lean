/-
  The interrupt stubs of `idt.s`: what the C handlers receive and what the interrupted code gets back.

  The processor pushes a frame (`Frame.words`, the address of the interrupted code on top) and for
  some vectors an error code (`hasErrorCode`); the stub of the vector pushes what its handler is to
  receive, calls it, and removes it again.

  1. **Arguments** (`stubs_pass_iff`): every stub passes what the prototype of its handler means but
     `gpf_stub`, which pushes nothing, so that `gpf_handler` takes the error code for the address of
     the frame.
  2. **Registers** (`stubs_restore_iff`): the stubs that save all of them give all of them back.
     `syscall_stub` pushes four as arguments and drops them, so it relies on the compiled handler for
     `ecx` and `edx`.

  A handler is known by the calling convention only.
-/
import MyOs.Lib.Cdecl

namespace MyOs.Boot

open MyOs.Lib.Words
open MyOs.Lib.Cdecl
open MyOs.Lib.Cdecl.Machine

/-! ## The program -/

/-- The C functions that the stubs call. -/
inductive CHandler
  | divideError
  | keyboardHandler
  | pitHandler
  | irqHandler
  | syscallHandler
  | gpfHandler
  | exceptionHandler
  deriving DecidableEq

/-- The number of their parameters. -/
def argCount : CHandler → Nat
  | .divideError => 0
  | .keyboardHandler => 0
  | .pitHandler => 0
  | .irqHandler => 0
  | .syscallHandler => 4
  | .gpfHandler => 1
  | .exceptionHandler => 1

/-- The stubs that push their number and call `exception_handler`. -/
def vectorStub (v : UInt32) : Stub CHandler := ⟨[.pushImm v], .exceptionHandler, [.addEsp 4]⟩

def isrErrStub (v : UInt32) : Stub CHandler := vectorStub v
def isrNoErrStub (v : UInt32) : Stub CHandler := vectorStub v
def pfStub (v : UInt32) : Stub CHandler := vectorStub v
def divideErrorStub : Stub CHandler := savingStub .divideError
def keyboardHandlerStub : Stub CHandler := savingStub .keyboardHandler
def pitHandlerStub : Stub CHandler := savingStub .pitHandler
def irqHandlerStub : Stub CHandler := savingStub .irqHandler
def syscallStub : Stub CHandler :=
  ⟨[.cld, .push .edx, .push .ecx, .push .ebx, .push .eax, .sti], .syscallHandler, [.addEsp 16]⟩
def gpfStub : Stub CHandler := ⟨[], .gpfHandler, [.addEsp 4]⟩

/-- `isr_stub_table`. -/
def isrStubTable : List (Stub CHandler) :=
  [divideErrorStub, isrNoErrStub 1, isrNoErrStub 2, isrNoErrStub 3, isrNoErrStub 4, isrNoErrStub 5,
    isrNoErrStub 6, isrNoErrStub 7, isrErrStub 8, isrNoErrStub 9, isrErrStub 10, isrErrStub 11,
    isrErrStub 12, gpfStub, pfStub 14, isrNoErrStub 15, isrNoErrStub 16, isrErrStub 17,
    isrNoErrStub 18, isrNoErrStub 19, isrNoErrStub 20, isrNoErrStub 21, isrNoErrStub 22,
    isrNoErrStub 23, isrNoErrStub 24, isrNoErrStub 25, isrNoErrStub 26, isrNoErrStub 27,
    isrNoErrStub 28, isrNoErrStub 29, isrErrStub 30, isrNoErrStub 31, pitHandlerStub,
    keyboardHandlerStub, irqHandlerStub, irqHandlerStub, irqHandlerStub, irqHandlerStub,
    irqHandlerStub, irqHandlerStub, irqHandlerStub, irqHandlerStub, irqHandlerStub, irqHandlerStub,
    irqHandlerStub, irqHandlerStub, irqHandlerStub, irqHandlerStub, syscallStub]

/-! ## The processor -/

/-- What the processor pushes: `interrupt_frame_t`, and above it the stack of the interrupted code
    when that ran in user mode. -/
structure Frame where
  eip : UInt32
  cs : UInt32
  eflags : UInt32
  outer : Option (UInt32 × UInt32)

def Frame.words (f : Frame) : List UInt32 :=
  [f.eip, f.cs, f.eflags] ++ f.outer.elim [] fun o => [o.1, o.2]

theorem Frame.length_words (f : Frame) : f.words.length ≤ 5 := by
  obtain ⟨eip, cs, eflags, outer⟩ := f
  cases outer with
  | none => exact (by decide : 3 ≤ 5)
  | some o => exact Nat.le_refl 5

/-- The vectors with an error code. -/
def hasErrorCode (v : Nat) : Bool := v = 8 || (10 ≤ v && v ≤ 14) || v = 17 || v = 30

/-- The stub is entered through an interrupt gate.  The stack pointer of `u` is that of the kernel
    stack, the other registers are those of the interrupted code. -/
def interrupt (v : Nat) (f : Frame) (code : UInt32) (u : Machine) : Machine :=
  let m := { u.pushAll f.words with interrupts := false }
  if hasErrorCode v then m.push code else m

/-- A stub finds the frame on the stack. -/
theorem stack_pushAll_words (f : Frame) (u : Machine) : (u.pushAll f.words).Stack f.words := by
  have hnil : u.Stack [] := trivial
  have hlen := f.length_words
  have hstack := hnil.pushAll f.words (by rw [List.length_nil]; omega)
  rwa [List.append_nil] at hstack

variable {v : Nat} {f : Frame} {code ret : UInt32} {u : Machine} {s : Stub CHandler}

theorem stack_interrupt (f : Frame) (code : UInt32) (u : Machine) (h : hasErrorCode v = false) :
    (interrupt v f code u).Stack f.words := by
  unfold interrupt
  rw [h]
  exact (stack_pushAll_words f u).setFlags _ false

theorem stack_interrupt_code (f : Frame) (code : UInt32) (u : Machine) (h : hasErrorCode v = true) :
    (interrupt v f code u).Stack (code :: f.words) := by
  have hlen := f.length_words
  unfold interrupt
  rw [h]
  exact ((stack_pushAll_words f u).setFlags _ false).push (by omega) code

theorem sameRegs_interrupt (v : Nat) (f : Frame) (code : UInt32) (u : Machine) :
    SameRegs u (interrupt v f code u) := by
  have hregs : SameRegs u { u.pushAll f.words with interrupts := false } :=
    (sameRegs_pushAll f.words).trans (sameRegs_setFlags _ _ false)
  unfold interrupt
  split
  · exact hregs.trans (sameRegs_push _ code)
  · exact hregs

theorem esp_interrupt (f : Frame) (code : UInt32) (u : Machine) (h : hasErrorCode v = false) :
    (interrupt v f code u).esp = u.esp - 4 * UInt32.ofNat f.words.length := by
  unfold interrupt
  rw [h]
  exact esp_pushAll f.words

/-! ## The table -/

/-- The handler of each vector. -/
def meantHandler (v : Nat) : CHandler :=
  if v = 0 then .divideError
  else if v = 13 then .gpfHandler
  else if v = 32 then .pitHandler
  else if v = 33 then .keyboardHandler
  else if 34 ≤ v ∧ v ≤ 47 then .irqHandler
  else if v = 48 then .syscallHandler
  else .exceptionHandler

/-- The stub around a handler, for each vector. -/
def stubOf (v : Nat) : Stub CHandler :=
  match meantHandler v with
  | .exceptionHandler => vectorStub (UInt32.ofNat v)
  | .syscallHandler => syscallStub
  | .gpfHandler => gpfStub
  | h => savingStub h

theorem isrStubTable_eq : isrStubTable = (List.range 49).map stubOf := by decide

theorem eq_stubOf (hs : isrStubTable[v]? = some s) : v < 49 ∧ s = stubOf v := by
  rw [isrStubTable_eq, List.getElem?_map, Option.map_eq_some_iff] at hs
  obtain ⟨w, hw, rfl⟩ := hs
  obtain ⟨hlt, rfl⟩ := List.getElem?_eq_some_iff.mp hw
  rw [List.length_range] at hlt
  rw [List.getElem_range]
  exact ⟨hlt, rfl⟩

theorem callee_stubOf (v : Nat) : (stubOf v).callee = meantHandler v := by
  unfold stubOf
  cases meantHandler v <;> rfl

theorem meantHandler_eq_gpf_iff : meantHandler v = .gpfHandler ↔ v = 13 := by
  unfold meantHandler
  grind

/-! ## Arguments -/

/-- What the prototype of a handler means: the number of the vector, the registers of the
    interrupted code, the address of the frame. -/
def Passes (v : Nat) (f : Frame) (u n : Machine) : CHandler → Prop
  | .exceptionHandler => n.arg 0 = UInt32.ofNat v
  | .syscallHandler => n.arg 0 = u.eax ∧ n.arg 1 = u.ebx ∧ n.arg 2 = u.ecx ∧ n.arg 3 = u.edx
  | .gpfHandler => WordsAt n.mem (n.arg 0) [f.eip, f.cs, f.eflags]
  | .divideError => True
  | .keyboardHandler => True
  | .pitHandler => True
  | .irqHandler => True

theorem vectorStub_arg (w ret : UInt32) (m : Machine) :
    ((vectorStub w).atEntry ret m).arg 0 = w := by
  have hnil : m.Stack [] := trivial
  have hpushed : (m.push w).Stack [w] := hnil.push (by decide) w
  have hstack := hpushed.push (by rw [List.length_singleton]; decide) ret
  exact hstack.arg rfl

/-- The arguments of `syscall_handler`. -/
def syscallArgs (m : Machine) : List UInt32 := [m.eax, m.ebx, m.ecx, m.edx]

theorem syscallStub_atEntry (ret : UInt32) (m : Machine) : syscallStub.atEntry ret m
    = ({ m.pushAll (syscallArgs m) with direction := false, interrupts := true } : Machine).push
      ret := rfl

/-- `syscall_stub` puts them in front of what is on the stack. -/
theorem syscallStub_entry {m : Machine} {ws : List UInt32} (hm : m.Stack ws)
    (hlen : 4 * (5 + ws.length) ≤ 2 ^ 32) (ret : UInt32) :
    (syscallStub.atEntry ret m).Stack (ret :: syscallArgs m ++ ws) := by
  have hargs : (syscallArgs m).length = 4 := rfl
  have hstack := hm.pushAll (syscallArgs m) (by omega)
  rw [syscallStub_atEntry]
  refine (hstack.setFlags false true).push ?_ ret
  rw [List.length_append]
  omega

theorem syscallStub_arg {m : Machine} {i : Nat} {w : UInt32} (hi : (syscallArgs m)[i]? = some w) :
    (syscallStub.atEntry ret m).arg i = w := by
  have hnil : m.Stack [] := trivial
  have hstack := syscallStub_entry hnil (by decide) ret
  rw [List.append_nil] at hstack
  exact hstack.arg hi

theorem gpfStub_arg (f : Frame) (code ret : UInt32) (u : Machine) :
    (gpfStub.atEntry ret (interrupt 13 f code u)).arg 0 = code := by
  have hlen := f.length_words
  have hstack := (stack_interrupt_code (v := 13) f code u rfl).push
    (by rw [List.length_cons]; omega) ret
  exact hstack.arg rfl

/-- **The arguments.**  Every stub of the table calls the handler of its vector, and it passes what
    the prototype means; but for vector 13, where it does so exactly if the error code happens to be
    the address of the three words `EIP`, `CS` and `EFLAGS` (in the memory as the call leaves it,
    with the return address on the stack). -/
theorem stubs_pass_iff (hs : isrStubTable[v]? = some s) (f : Frame) (code ret : UInt32)
    (u : Machine) :
    s.callee = meantHandler v ∧
    (Passes v f u (s.atEntry ret (interrupt v f code u)) s.callee ↔
      (v = 13 → WordsAt ((interrupt v f code u).push ret).mem code [f.eip, f.cs, f.eflags])) := by
  obtain ⟨-, rfl⟩ := eq_stubOf hs
  refine ⟨callee_stubOf v, ?_⟩
  have hregs := sameRegs_interrupt v f code u
  have hgpf := meantHandler_eq_gpf_iff (v := v)
  rw [callee_stubOf]
  unfold stubOf
  cases hmeant : meantHandler v with
  | gpfHandler =>
    -- nothing is pushed, so the argument is the error code
    obtain rfl := hgpf.mp hmeant
    simp only [Passes, gpfStub_arg, forall_const]
    exact Iff.rfl
  | exceptionHandler =>
    rw [hmeant] at hgpf
    -- the number of the vector is pushed
    refine iff_of_true (vectorStub_arg _ _ _) fun hv => ?_
    exact absurd (hgpf.mpr hv) (by decide)
  | syscallHandler =>
    rw [hmeant] at hgpf
    -- four registers are pushed, the last argument first
    refine iff_of_true ⟨?_, ?_, ?_, ?_⟩ fun hv => absurd (hgpf.mpr hv) (by decide)
    · exact (syscallStub_arg (i := 0) rfl).trans hregs.eax
    · exact (syscallStub_arg (i := 1) rfl).trans hregs.ebx
    · exact (syscallStub_arg (i := 2) rfl).trans hregs.ecx
    · exact (syscallStub_arg (i := 3) rfl).trans hregs.edx
  | divideError | keyboardHandler | pitHandler | irqHandler =>
    rw [hmeant] at hgpf
    exact iff_of_true trivial fun hv => absurd (hgpf.mpr hv) (by decide)

/-- The interrupted program at its start: the kernel stack is empty, the memory is zero. -/
def startMachine : Machine where
  eax := 3
  ecx := 1
  edx := 2
  ebx := 0x8000000
  esp := 0xC0114000
  ebp := 0
  esi := 0
  edi := 0
  direction := false
  interrupts := true
  mem := fun _ => 0

/-- User code, interrupted at 0x8000004. -/
def startFrame : Frame := ⟨0x8000004, 0x1B, 0x202, some (0x9000000, 0x23)⟩

/-- A breakpoint, whose handler receives its number. -/
theorem stubs_pass_iff_breakpoint :
    isrStubTable[3]? = some (isrNoErrStub 3) ∧
    Passes 3 startFrame startMachine
      ((isrNoErrStub 3).atEntry 0xC0101000 (interrupt 3 startFrame 0 startMachine))
      .exceptionHandler :=
  ⟨rfl, (stubs_pass_iff rfl startFrame 0 0xC0101000 startMachine).2.mpr fun h =>
    absurd h (by decide)⟩

/-- A general protection fault with the error code 0, as a privileged instruction of a program
    raises it: `gpf_handler` reads its frame at the address 0. -/
theorem not_stubs_pass :
    ¬ ∀ v s, isrStubTable[v]? = some s → ∀ f code ret u,
      Passes v f u (s.atEntry ret (interrupt v f code u)) s.callee := by
  intro h
  obtain ⟨heip, -⟩ := h 13 gpfStub rfl startFrame 0 0xC0101000 startMachine
  rw [gpfStub_arg] at heip
  exact absurd heip (by decide)

/-! ## Registers -/

/-- The most that a stub has on the stack above the arguments: the registers and a frame. -/
def savedWords : Nat := 8 + 5

/-- What the interrupted code is promised: at `iret` the stack pointer is at the `EIP` of the frame,
    and the registers are as they were; but for `eax` after a system call. -/
structure Restores (v : Nat) (f : Frame) (u m' : Machine) : Prop where
  esp : m'.esp = u.esp - 4 * UInt32.ofNat f.words.length
  frame : m'.Stack f.words
  eax : v ≠ 48 → m'.eax = u.eax
  ecx : m'.ecx = u.ecx
  edx : m'.edx = u.edx
  ebx : m'.ebx = u.ebx
  ebp : m'.ebp = u.ebp
  esi : m'.esi = u.esi
  edi : m'.edi = u.edi

/-- The vectors whose handler returns. -/
theorem returning_cases : ∀ v, v < 49 → (v = 0 ∨ 32 ≤ v) →
    (v = 48 ∧ stubOf v = syscallStub) ∨
      (v ≠ 48 ∧ argCount (meantHandler v) = 0 ∧ stubOf v = savingStub (meantHandler v)) := by
  decide

variable {H : CHandler → Machine → Machine → Prop}

/-- The stubs that save the registers. -/
theorem savingStub_promise {h : CHandler} (hH : ∀ n n', H h n n' → Obeys 0 savedWords n n')
    (hcode : hasErrorCode v = false) {m' : Machine}
    (hrun : (savingStub h).Runs H (interrupt v f code u) m') : Restores v f u m' := by
  have hlen := f.length_words
  have hwords : savedWords = 13 := rfl
  obtain ⟨hregs, hesp, hstack⟩ := savingStub_restores hH (stack_interrupt f code u hcode)
    (by omega) (by omega) hrun
  have hall := (sameRegs_interrupt v f code u).trans hregs
  exact {
    esp := hesp.trans (esp_interrupt f code u hcode)
    frame := hstack
    eax := fun _ => hall.eax
    ecx := hall.ecx
    edx := hall.edx
    ebx := hall.ebx
    ebp := hall.ebp
    esi := hall.esi
    edi := hall.edi }

theorem esp_syscallStub_entry (ret : UInt32) (m : Machine) :
    (syscallStub.atEntry ret m).esp = m.esp - 16 - 4 := by
  have hwords : 4 * UInt32.ofNat 4 = 16 := by decide
  have hlength : (syscallArgs m).length = 4 := rfl
  have hesp := esp_pushAll (m := m) (syscallArgs m)
  rw [hlength, hwords] at hesp
  rw [syscallStub_atEntry, ← hesp]
  rfl

/-- The other registers when `syscall_handler` is entered. -/
theorem syscallStub_entry_regs (ret : UInt32) (m : Machine) :
    SameRegs m (syscallStub.atEntry ret m) := by
  rw [syscallStub_atEntry]
  exact ((sameRegs_pushAll (syscallArgs m)).trans (sameRegs_setFlags _ false true)).trans
    (sameRegs_push _ ret)

/-- `syscall_stub` leaves the caller-saved registers to the compiled handler. -/
theorem syscallStub_promise {n' : Machine}
    (hobeys : Obeys 4 savedWords (syscallStub.atEntry ret (interrupt 48 f code u)) n') :
    Restores 48 f u { n' with esp := n'.esp + 16 } ↔ n'.ecx = u.ecx ∧ n'.edx = u.edx := by
  have hentry := (sameRegs_interrupt 48 f code u).trans (syscallStub_entry_regs ret _)
  have hlen := f.length_words
  have hwords : savedWords = 13 := rfl
  have hargs : 4 * UInt32.ofNat 4 = 16 := by decide
  have hframe := stack_interrupt (v := 48) f code u rfl
  have hstack := hobeys.stack (syscallStub_entry hframe (by omega) ret) rfl (by omega)
  rw [hargs] at hstack
  constructor
  · intro h
    exact ⟨h.ecx, h.edx⟩
  · rintro ⟨hecx, hedx⟩
    refine ⟨?_, hstack, fun h => absurd rfl h, hecx, hedx, ?_, ?_, ?_, ?_⟩
    · -- the arguments and the return address down, and back
      show n'.esp + 16 = _
      rw [hobeys.esp, esp_syscallStub_entry, UInt32.sub_add_cancel, UInt32.sub_add_cancel,
        esp_interrupt f code u rfl]
    · exact hobeys.ebx.trans hentry.ebx
    · exact hobeys.ebp.trans hentry.ebp
    · exact hobeys.esi.trans hentry.esi
    · exact hobeys.edi.trans hentry.edi

/-- **The registers.**  For compiled handlers that obey the calling convention, a stub whose handler
    returns keeps its promise to the interrupted code; the stub of the system calls does so exactly if
    the handler, which may change them, leaves `ecx` and `edx` as they were. -/
theorem stubs_restore_iff (hH : ∀ h n n', H h n n' → Obeys (argCount h) savedWords n n')
    (hs : isrStubTable[v]? = some s) (hv : v = 0 ∨ 32 ≤ v) (f : Frame) (code : UInt32)
    (u : Machine) :
    (∀ m', s.Runs H (interrupt v f code u) m' → Restores v f u m') ↔
      (v = 48 → ∀ ret n', H .syscallHandler (syscallStub.atEntry ret (interrupt v f code u)) n' →
        n'.ecx = u.ecx ∧ n'.edx = u.edx) := by
  obtain ⟨hlt, rfl⟩ := eq_stubOf hs
  rcases returning_cases v hlt hv with ⟨rfl, hstub⟩ | ⟨hne, hargs, hstub⟩
  · rw [hstub]
    constructor
    · intro h _ ret n' hcall
      exact (syscallStub_promise (hH _ _ _ hcall)).mp (h _ ⟨ret, n', hcall, rfl⟩)
    · rintro h m' ⟨ret, n', hcall, rfl⟩
      exact (syscallStub_promise (hH _ _ _ hcall)).mpr (h rfl ret n' hcall)
  · -- `popad` gives back what `pushad` has stored
    rw [hstub]
    refine iff_of_true (fun m' hrun => ?_) fun h => absurd h hne
    have hcode : ∀ v, v < 49 → (v = 0 ∨ 32 ≤ v) → hasErrorCode v = false := by decide
    refine savingStub_promise (fun n n' hcall => ?_) (hcode v hlt hv) hrun
    rw [← hargs]
    exact hH _ n n' hcall

/-- Handlers that only return. -/
def returns (_ : CHandler) (n n' : Machine) : Prop := n' = { n with esp := n.esp + 4 }

/-- A tick of the timer. -/
theorem stubs_restore_iff_tick :
    ∃ m', pitHandlerStub.Runs returns (interrupt 32 startFrame 0 startMachine) m' ∧
      Restores 32 startFrame startMachine m' := by
  have hobeys : ∀ h n n', returns h n n' → Obeys (argCount h) savedWords n n' := by
    rintro h n n' rfl
    exact obeys_return (argCount h) savedWords n
  have hrun : pitHandlerStub.Runs returns (interrupt 32 startFrame 0 startMachine) _ :=
    ⟨0xC0101000, _, rfl, rfl⟩
  exact ⟨_, hrun, (stubs_restore_iff hobeys rfl (Or.inr (Nat.le_refl 32)) startFrame 0
    startMachine).mpr (fun h => absurd h (by decide)) _ hrun⟩

/-- Handlers that use `ecx`, as the calling convention allows. -/
def clobbersEcx (_ : CHandler) (n n' : Machine) : Prop := n' = { n with esp := n.esp + 4, ecx := 0 }

/-- After a system call `ecx` has changed, which `write` and `exit` do not declare. -/
theorem not_stubs_restore :
    ¬ ∀ H : CHandler → Machine → Machine → Prop,
      (∀ h n n', H h n n' → Obeys (argCount h) savedWords n n') →
      ∀ v s, isrStubTable[v]? = some s → (v = 0 ∨ 32 ≤ v) → ∀ f code u m',
        s.Runs H (interrupt v f code u) m' → Restores v f u m' := by
  intro h
  have hobeys : ∀ h n n', clobbersEcx h n n' → Obeys (argCount h) savedWords n n' := by
    rintro h n n' rfl
    exact ⟨rfl, rfl, rfl, rfl, rfl, fun _ _ => rfl⟩
  have hrestores := h clobbersEcx hobeys 48 syscallStub rfl (Or.inr (by decide)) startFrame 0
    startMachine _ ⟨0xC0101000, _, rfl, rfl⟩
  have hecx : (0 : UInt32) = 1 := hrestores.ecx
  exact absurd hecx (by decide)

end MyOs.Boot
