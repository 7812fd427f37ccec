/-
  What `linker.ld` fixes at link time: where the kernel image lies.

  The kernel is linked at `0xC0000000` above the physical address it is loaded at, except for its
  first section: `kernel_start` is defined before the location counter moves to the higher half,
  so its value is the physical `0x00100000`, while `kernel_end` is a higher-half address.
-/
import Mathlib.Tactic.Common

namespace MyOs

/-- `KERNEL_OFFSET`. -/
abbrev kernelOffset : UInt32 := 0xC0000000

/-- `virt_to_phys`. -/
def virtToPhys (virt : UInt32) : UInt32 := virt - 0xC0000000

/-- In the higher half `virt_to_phys` does not wrap. -/
theorem toNat_virtToPhys {virt : UInt32} (h : 0xC0000000 ≤ virt.toNat) :
    (virtToPhys virt).toNat = virt.toNat - 0xC0000000 := by
  have hlt : virt.toNat < 2 ^ 32 := virt.toNat_lt
  rw [virtToPhys, UInt32.toNat_sub]
  simp only [UInt32.reduceToNat]
  omega

/-- `kernel_start`, as `linker.ld` defines it. -/
def kernelStart : UInt32 := 0x00100000

/-- A link-time value of `kernel_end`: an address of the higher half, behind the sections that
    are linked from `0xC0100000` on. -/
structure KernelEnd where
  /-- `kernel_end`. -/
  addr : UInt32
  higherHalf : 0xC0100000 < addr

namespace KernelEnd

/-- The physical end of the kernel image, the address `kernel_end - 0xC0000000`. -/
def phys (k : KernelEnd) : Nat := k.addr.toNat - 0xC0000000

theorem phys_gt (k : KernelEnd) : 0x100000 < k.phys := by
  have h := UInt32.lt_iff_toNat_lt.mp k.higherHalf
  simp only [UInt32.reduceToNat] at h
  unfold phys
  omega

theorem phys_lt (k : KernelEnd) : k.phys < 0x40000000 := by
  have h : k.addr.toNat < 2 ^ 32 := k.addr.toNat_lt
  unfold phys
  omega

theorem addr_toNat (k : KernelEnd) : k.addr.toNat = 0xC0000000 + k.phys := by
  have h := k.phys_gt
  unfold phys at h ⊢
  omega

theorem virtToPhys_addr (k : KernelEnd) : (virtToPhys k.addr).toNat = k.phys := by
  have haddr := k.addr_toNat
  rw [toNat_virtToPhys (by omega)]
  rfl

/-- The 4 KiB frame at the physical address `a` shares a byte with the kernel image
    `[0x100000, kernel_end - 0xC0000000)`. -/
def Overlaps (k : KernelEnd) (a : Nat) : Prop := a < k.phys ∧ 0x100000 < a + 4096

instance (k : KernelEnd) (a : Nat) : Decidable (k.Overlaps a) :=
  inferInstanceAs (Decidable (_ ∧ _))

end KernelEnd

end MyOs
