/-
  `kernel_return`: from a program that exits back to `kernel_main`.

  1. **Program**: the instructions of `kernel_return` behind the reload of the segment registers, and
     what `kernel_main` does with `esp`.  It stores the pointer below its own frame, and is entered
     again with that pointer.
  2. **Cycles**: a program runs, exits, and `kernel_main` begins anew.  Each cycle takes a frame.
  3. **The stack** (`savedKernelEsp_inStack_iff`): it has room for exactly as many frames as fit.
-/
import Mathlib.Algebra.Group.Nat.Defs
import Mathlib.Logic.Function.Basic

namespace MyOs.Kernel

/-! ## The program -/

/-- The registers that `kernel_return` works with, the words on the stack by their address, and the
    variable `saved_kernel_esp`. -/
structure Machine where
  esp : UInt32
  eax : UInt32
  eflags : UInt32
  cs : UInt32
  eip : UInt32
  word : UInt32 → UInt32
  savedKernelEsp : UInt32

/-- The instructions of `kernel_return`. -/
inductive Instr where
  | movSavedKernelEsp
  | pushf
  | popEax
  | orEax (v : UInt32)
  | pushEax
  | push (v : UInt32)
  | iret

namespace Machine

variable (m : Machine)

def push (v : UInt32) : Machine :=
  { m with esp := m.esp - 4, word := Function.update m.word (m.esp - 4) v }

/-- One instruction.  Within ring 0, `iret` pops EIP, CS and EFLAGS. -/
def exec : Instr → Machine
  | .movSavedKernelEsp => { m with esp := m.savedKernelEsp }
  | .pushf => m.push m.eflags
  | .popEax => { m with eax := m.word m.esp, esp := m.esp + 4 }
  | .orEax v => { m with eax := m.eax ||| v }
  | .pushEax => m.push m.eax
  | .push v => m.push v
  | .iret => { m with
      eip := m.word m.esp
      cs := m.word (m.esp + 4)
      eflags := m.word (m.esp + 8)
      esp := m.esp + 12 }

/-- `kernel_reload_CS`, behind the segment registers. -/
def kernelReturn (kernelMain : UInt32) : Machine :=
  [.movSavedKernelEsp, .pushf, .popEax, .orEax 0x200, .pushEax, .push 0x08, .push kernelMain,
    .iret].foldl exec m

/-- `kernel_main` up to a command: it lowers `esp` by its frame, and stores it. -/
def enter (frame : UInt32) : Machine :=
  { m with esp := m.esp - frame, savedKernelEsp := m.esp - frame }

/-- **`kernel_return`** enters `kernel_main` with the stored pointer, and interrupts enabled. -/
theorem kernelReturn_eq (kernelMain : UInt32) :
    (m.kernelReturn kernelMain).esp = m.savedKernelEsp ∧
    (m.kernelReturn kernelMain).eip = kernelMain ∧ (m.kernelReturn kernelMain).cs = 0x08 ∧
    (m.kernelReturn kernelMain).eflags = m.eflags ||| 0x200 := by
  -- the words that are pushed, from the highest down
  obtain ⟨a, ha⟩ : ∃ a, a = m.savedKernelEsp - 4 := ⟨_, rfl⟩
  obtain ⟨b, hb⟩ : ∃ b, b = a - 4 := ⟨_, rfl⟩
  obtain ⟨c, hc⟩ : ∃ c, c = b - 4 := ⟨_, rfl⟩
  have hpop : a + 4 = m.savedKernelEsp := by rw [ha, UInt32.sub_add_cancel]
  have hcs : c + 4 = b := by rw [hc, UInt32.sub_add_cancel]
  have heflags : c + 8 = a := by
    rw [show (8 : UInt32) = 4 + 4 from rfl, ← UInt32.add_assoc, hcs, hb, UInt32.sub_add_cancel]
  have hesp : c + 12 = m.savedKernelEsp := by
    rw [show (12 : UInt32) = 8 + 4 from rfl, ← UInt32.add_assoc, heflags, hpop]
  have hne : ∀ (x : UInt32) {k : UInt32}, k ≠ 0 → x + k ≠ x := by
    intro x k hk heq
    rw [UInt32.add_eq_left] at heq
    exact hk heq
  have hbc : b ≠ c := hcs ▸ hne c (by decide)
  have hac : a ≠ c := heflags ▸ hne c (by decide)
  have hab : a ≠ b := by
    rw [← UInt32.sub_add_cancel a 4, ← hb]
    exact hne b (by decide)
  simp only [kernelReturn, List.foldl_cons, List.foldl_nil, exec, push, ← ha, hpop, ← hb, ← hc, hcs,
    heflags, hesp, Function.update_self, Function.update_of_ne hbc, Function.update_of_ne hac,
    Function.update_of_ne hab, and_self]

end Machine

/-! ## Cycles -/

/-- `n` times, `kernel_main` starts a program, which exits: in whatever state that finds the machine,
    `saved_kernel_esp` is as `kernel_main` left it. -/
inductive Cycles (kernelMain frame : UInt32) : Nat → Machine → Machine → Prop where
  | zero (m : Machine) : Cycles kernelMain frame 0 m m
  | succ {n : Nat} {m m' exited : Machine} (h : Cycles kernelMain frame n m m')
      (hexit : exited.savedKernelEsp = (m'.enter frame).savedKernelEsp) :
      Cycles kernelMain frame (n + 1) m (exited.kernelReturn kernelMain)

/-- The kernel stack: 16 KiB from `stack_bottom` up to `stack_top`. -/
structure KernelStack where
  bottom : UInt32
  fits : bottom.toNat + 16384 ≤ 2 ^ 32

/-- A pointer inside the stack. -/
def KernelStack.Contains (S : KernelStack) (p : UInt32) : Prop :=
  S.bottom.toNat ≤ p.toNat ∧ p.toNat < S.bottom.toNat + 16384

section Runs

variable {S : KernelStack} {kernelMain frame : UInt32} {n : Nat} {m m' : Machine}

theorem exists_cycles (kernelMain frame : UInt32) (n : Nat) (m : Machine) :
    ∃ m', Cycles kernelMain frame n m m' := by
  induction n with
  | zero => exact ⟨m, .zero m⟩
  | succ n ih =>
    obtain ⟨m', h⟩ := ih
    exact ⟨_, .succ h (rfl : (m'.enter frame).savedKernelEsp = _)⟩

/-- An activation lowers the pointer by its frame. -/
theorem toNat_savedKernelEsp (h : frame.toNat ≤ m.esp.toNat) :
    (m.enter frame).savedKernelEsp.toNat = m.esp.toNat - frame.toNat :=
  UInt32.toNat_sub_of_le _ _ (UInt32.le_iff_toNat_le.mpr h)

/-- **The drift**: each cycle takes one more frame. -/
theorem Cycles.esp (h : Cycles kernelMain frame n m m') (hfits : n * frame.toNat ≤ m.esp.toNat) :
    m'.esp.toNat = m.esp.toNat - n * frame.toNat := by
  induction h with
  | zero m => rw [Nat.zero_mul, Nat.sub_zero]
  | @succ n m m' exited h hexit ih =>
    rw [Nat.add_one_mul] at hfits ⊢
    have hesp := ih (by omega)
    rw [(exited.kernelReturn_eq kernelMain).1, hexit, toNat_savedKernelEsp (by omega), hesp,
      Nat.sub_sub]

/-- After `n` cycles that fit, one more frame fits or the pointer is below the stack. -/
theorem Cycles.contains_iff (h : Cycles kernelMain frame n m m') (hframe : 256 ≤ frame.toNat)
    (hlower : frame.toNat ≤ S.bottom.toNat) (htop : m.esp.toNat ≤ S.bottom.toNat + 16384)
    (hfits : n * frame.toNat ≤ m.esp.toNat - S.bottom.toNat)
    (hbottom : S.bottom.toNat ≤ m.esp.toNat) :
    S.Contains (m'.enter frame).savedKernelEsp ↔
      (n + 1) * frame.toNat ≤ m.esp.toNat - S.bottom.toNat := by
  have hesp := h.esp (by omega)
  rw [KernelStack.Contains, toNat_savedKernelEsp (by omega), hesp, Nat.add_one_mul]
  omega

/-- **The stored pointer stays inside the stack** for exactly as many cycles as there is room for
    frames. -/
theorem savedKernelEsp_inStack_iff (hframe : 256 ≤ frame.toNat)
    (hlower : frame.toNat ≤ S.bottom.toNat) (hbottom : S.bottom.toNat ≤ m.esp.toNat)
    (htop : m.esp.toNat ≤ S.bottom.toNat + 16384) (kernelMain : UInt32) (n : Nat) :
    (∀ k, k ≤ n → ∀ m', Cycles kernelMain frame k m m' →
        S.Contains (m'.enter frame).savedKernelEsp) ↔
      (n + 1) * frame.toNat ≤ m.esp.toNat - S.bottom.toNat := by
  constructor
  · intro h
    induction n with
    | zero =>
      have hzero : Cycles kernelMain frame 0 m m := .zero m
      exact (hzero.contains_iff hframe hlower htop (by omega) hbottom).mp
        (h 0 (Nat.le_refl 0) m hzero)
    | succ n ih =>
      have hfits := ih fun k hk => h k (Nat.le_succ_of_le hk)
      obtain ⟨m', hcycles⟩ := exists_cycles kernelMain frame (n + 1) m
      exact (hcycles.contains_iff hframe hlower htop hfits hbottom).mp
        (h (n + 1) (Nat.le_refl _) m' hcycles)
  · intro hfits k hk m' hcycles
    have hmul : (k + 1) * frame.toNat ≤ (n + 1) * frame.toNat := Nat.mul_le_mul_right _ (by omega)
    have hbefore : k * frame.toNat ≤ (k + 1) * frame.toNat := Nat.mul_le_mul_right _ (by omega)
    exact (hcycles.contains_iff hframe hlower htop (by omega) hbottom).mpr (by omega)

end Runs

/-- A stack behind the first MiB, and the machine with an empty one. -/
def kernelStack : KernelStack := ⟨0xC0110000, by decide⟩

def emptyStack : Machine := ⟨0xC0114000, 0, 0, 8, 0, fun _ => 0, 0⟩

/-- 63 cycles with the smallest frame. -/
theorem savedKernelEsp_inStack_63 : ∃ m', Cycles 0xC0100000 256 63 emptyStack m' ∧
    kernelStack.Contains (m'.enter 256).savedKernelEsp := by
  obtain ⟨m', hcycles⟩ := exists_cycles 0xC0100000 256 63 emptyStack
  have hinside : ∀ k, k ≤ 63 → ∀ m', Cycles 0xC0100000 256 k emptyStack m' →
      kernelStack.Contains (m'.enter 256).savedKernelEsp :=
    (savedKernelEsp_inStack_iff (by decide) (by decide) (by decide) (by decide) 0xC0100000 63).mpr
      (by decide)
  exact ⟨m', hcycles, hinside 63 (Nat.le_refl 63) m' hcycles⟩

/-- **The stack runs out** with the 64th cycle at the latest. -/
theorem not_savedKernelEsp_inStack : ¬ ∀ (S : KernelStack) (kernelMain frame : UInt32) (n : Nat)
    (m m' : Machine), 256 ≤ frame.toNat → frame.toNat ≤ S.bottom.toNat →
    S.bottom.toNat ≤ m.esp.toNat → m.esp.toNat ≤ S.bottom.toNat + 16384 →
    Cycles kernelMain frame n m m' → S.Contains (m'.enter frame).savedKernelEsp := by
  intro h
  obtain ⟨m', hcycles⟩ := exists_cycles 0xC0100000 256 64 emptyStack
  have hcontains := h kernelStack 0xC0100000 256 64 emptyStack m' (by decide) (by decide)
    (by decide) (by decide) hcycles
  rw [hcycles.contains_iff (by decide) (by decide) (by decide) (by decide) (by decide)]
    at hcontains
  exact absurd hcontains (by decide)

end MyOs.Kernel
