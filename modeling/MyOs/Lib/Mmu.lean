/-
  Two-level 32-bit paging, as the processor walks it.

  A page directory and each page table are 1024 words in one 4 KiB frame.  `walk` takes the ten
  top bits of an address as the directory index, the next ten as the table index, and stops at an
  entry whose present bit is clear.  4 MiB pages (`CR4.PSE`) are off, and the accessed and dirty
  bits, which the processor sets in the entries it uses, are left out.

  1. **Entries**: a page-aligned address with flag bits; `entryFrame_or`, `present_or`,
     `writable_or`, `user_or` take it apart again.
  2. **Tables**: `entryAddr table i` is the address of entry `i`; entries of page-aligned tables
     coincide only when table and index do (`entryAddr_inj`).
  3. **The walk**: `walk_eq_some`, and its two ways to fail.
-/
import MyOs.Lib.Bits

namespace MyOs.Lib.Mmu

/-- Physical memory by words: the aligned 32-bit word at each physical address. -/
abbrev PhysMem := UInt32 → UInt32

/-! ## Entries -/

/-- The frame an entry points to. -/
def entryFrame (entry : UInt32) : UInt32 := entry &&& 0xFFFFF000

/-- Bit 0: the entry is in use. -/
def present (entry : UInt32) : Bool := (entry &&& 0x1) != 0

/-- Bit 1: writes are allowed. -/
def writable (entry : UInt32) : Bool := (entry &&& 0x2) != 0

/-- Bit 2: user mode is allowed. -/
def user (entry : UInt32) : Bool := (entry &&& 0x4) != 0

/-- The address of a page: its offset is zero. -/
def PageAligned (a : UInt32) : Prop := a.toNat % 4096 = 0

instance (a : UInt32) : Decidable (PageAligned a) := inferInstanceAs (Decidable (_ = _))

theorem toNat_and_0xFFF (a : UInt32) : (a &&& 0xFFF).toNat = a.toNat % 4096 := by
  rw [UInt32.toNat_and]
  exact Nat.and_two_pow_sub_one_eq_mod a.toNat 12

theorem toNat_entryFrame (e : UInt32) : (entryFrame e).toNat = e.toNat / 4096 * 4096 :=
  Bits.toNat_and_high (i := 12) (by decide) rfl

/-- A one-bit mask tests the bit. -/
theorem and_mask_bne_zero {e mask : UInt32} {i : Nat} (hmask : mask.toNat = 2 ^ i) :
    ((e &&& mask) != 0) = e.toNat.testBit i := by
  have hand : (e &&& mask).toNat = (e.toNat.testBit i).toNat * 2 ^ i := by
    rw [UInt32.toNat_and, hmask, Nat.and_two_pow]
  cases hbit : e.toNat.testBit i with
  | true =>
    rw [hbit] at hand
    refine bne_iff_ne.mpr (fun hzero => ?_)
    rw [hzero, UInt32.toNat_zero, Bool.toNat_true, Nat.one_mul] at hand
    exact absurd hand.symm (Nat.ne_of_gt (Nat.two_pow_pos i))
  | false =>
    rw [hbit, Bool.toNat_false, Nat.zero_mul] at hand
    rw [UInt32.toNat_inj.mp (hand.trans UInt32.toNat_zero.symm)]
    rfl

theorem present_eq (e : UInt32) : present e = e.toNat.testBit 0 := and_mask_bne_zero rfl

theorem writable_eq (e : UInt32) : writable e = e.toNat.testBit 1 := and_mask_bne_zero rfl

theorem user_eq (e : UInt32) : user e = e.toNat.testBit 2 := and_mask_bne_zero rfl

section Flags

variable {frame flags : UInt32} (hframe : PageAligned frame) (hflags : flags.toNat < 4096)
include hframe hflags

/-- Flags fill the bits that a page-aligned address leaves free. -/
theorem toNat_or_flags : (frame ||| flags).toNat = frame.toNat + flags.toNat := by
  have hmul : frame.toNat = 2 ^ 12 * (frame.toNat / 4096) := by
    unfold PageAligned at hframe
    omega
  rw [UInt32.toNat_or, hmul]
  exact (Nat.two_pow_add_eq_or_of_lt hflags _).symm

@[simp] theorem entryFrame_or : entryFrame (frame ||| flags) = frame := by
  unfold PageAligned at hframe
  apply UInt32.toNat_inj.mp
  rw [toNat_entryFrame, toNat_or_flags hframe hflags]
  omega

theorem testBit_or_flags {i : Nat} (hi : i < 12) :
    (frame ||| flags).toNat.testBit i = flags.toNat.testBit i := by
  have hmul : frame.toNat = 2 ^ 12 * (frame.toNat / 4096) := by
    unfold PageAligned at hframe
    omega
  rw [toNat_or_flags hframe hflags, hmul, Nat.testBit_two_pow_mul_add _ hflags, if_pos hi]

@[simp] theorem present_or : present (frame ||| flags) = present flags := by
  rw [present_eq, present_eq, testBit_or_flags hframe hflags (by decide)]

@[simp] theorem writable_or : writable (frame ||| flags) = writable flags := by
  rw [writable_eq, writable_eq, testBit_or_flags hframe hflags (by decide)]

@[simp] theorem user_or : user (frame ||| flags) = user flags := by
  rw [user_eq, user_eq, testBit_or_flags hframe hflags (by decide)]

end Flags

/-- Adding flags is or-ing them. -/
theorem add_flags {frame flags : UInt32} (hframe : PageAligned frame)
    (hflags : flags.toNat < 4096) : frame + flags = frame ||| flags := by
  have hlt : frame.toNat < 2 ^ 32 := frame.toNat_lt
  unfold PageAligned at hframe
  apply UInt32.toNat_inj.mp
  rw [toNat_or_flags hframe hflags, UInt32.toNat_add]
  omega

/-! ## Tables -/

/-- The address of entry `i` of a table: `&table[i]`. -/
def entryAddr (table : UInt32) (i : Nat) : UInt32 := table + 4 * UInt32.ofNat i

theorem toNat_entryAddr {table : UInt32} {i : Nat} (htable : PageAligned table) (hi : i < 1024) :
    (entryAddr table i).toNat = table.toNat + 4 * i := by
  have hlt : table.toNat < 2 ^ 32 := table.toNat_lt
  unfold PageAligned at htable
  rw [entryAddr, UInt32.toNat_add, UInt32.toNat_mul, UInt32.toNat_ofNat']
  simp only [UInt32.reduceToNat]
  omega

/-- Entries coincide only when they are the same entry of the same table. -/
theorem entryAddr_inj {table table' : UInt32} {i i' : Nat} (htable : PageAligned table)
    (htable' : PageAligned table') (hi : i < 1024) (hi' : i' < 1024) :
    entryAddr table i = entryAddr table' i' ↔ table = table' ∧ i = i' := by
  constructor
  · intro h
    have hnat := congrArg UInt32.toNat h
    rw [toNat_entryAddr htable hi, toNat_entryAddr htable' hi'] at hnat
    unfold PageAligned at htable htable'
    exact ⟨UInt32.toNat_inj.mp (by omega), by omega⟩
  · rintro ⟨rfl, rfl⟩
    rfl

theorem entryAddr_succ (table : UInt32) (i : Nat) :
    entryAddr table i + 4 = entryAddr table (i + 1) := by
  apply UInt32.toNat_inj.mp
  simp only [entryAddr, UInt32.toNat_add, UInt32.toNat_mul, UInt32.toNat_ofNat',
    UInt32.reduceToNat]
  omega

/-- The address of frame number `i`. -/
def frameAddr (i : Nat) : UInt32 := 4096 * UInt32.ofNat i

theorem toNat_frameAddr {i : Nat} (hi : i < 0x100000) : (frameAddr i).toNat = 4096 * i := by
  rw [frameAddr, UInt32.toNat_mul, UInt32.toNat_ofNat']
  simp only [UInt32.reduceToNat]
  omega

theorem pageAligned_frameAddr {i : Nat} (hi : i < 0x100000) : PageAligned (frameAddr i) := by
  unfold PageAligned
  rw [toNat_frameAddr hi]
  omega

theorem frameAddr_succ (i : Nat) : frameAddr i + 4096 = frameAddr (i + 1) := by
  apply UInt32.toNat_inj.mp
  simp only [frameAddr, UInt32.toNat_add, UInt32.toNat_mul, UInt32.toNat_ofNat',
    UInt32.reduceToNat]
  omega

/-! ## The walk -/

/-- The top ten bits. -/
def pdIndex (virt : UInt32) : Nat := (virt >>> 22).toNat

/-- The next ten bits. -/
def ptIndex (virt : UInt32) : Nat := ((virt >>> 12) &&& 0x3FF).toNat

/-- A translation: the two entries that were used and the physical address. -/
structure Translation where
  pde : UInt32
  pte : UInt32
  phys : UInt32

/-- Writes are allowed when both entries allow them. -/
def Translation.isWritable (t : Translation) : Bool := writable t.pde && writable t.pte

/-- User mode is allowed when both entries allow it. -/
def Translation.isUser (t : Translation) : Bool := user t.pde && user t.pte

/-- The walk of the page directory at the physical address `cr3`. -/
def walk (mem : PhysMem) (cr3 virt : UInt32) : Option Translation :=
  let pde := mem (entryAddr cr3 (pdIndex virt))
  if present pde then
    let pte := mem (entryAddr (entryFrame pde) (ptIndex virt))
    if present pte then some ⟨pde, pte, entryFrame pte + (virt &&& 0xFFF)⟩ else none
  else none

/-- The physical address a virtual one translates to. -/
def translateVirt (mem : PhysMem) (cr3 virt : UInt32) : Option UInt32 :=
  (walk mem cr3 virt).map Translation.phys

theorem pdIndex_eq (virt : UInt32) : pdIndex virt = virt.toNat / 0x400000 := by
  rw [pdIndex, UInt32.toNat_shiftRight]
  exact Nat.shiftRight_eq_div_pow _ _

theorem pdIndex_lt (virt : UInt32) : pdIndex virt < 1024 := by
  have hlt : virt.toNat < 2 ^ 32 := virt.toNat_lt
  rw [pdIndex_eq]
  omega

theorem ptIndex_eq (virt : UInt32) : ptIndex virt = virt.toNat / 4096 % 1024 := by
  rw [ptIndex, UInt32.toNat_and, UInt32.toNat_shiftRight]
  show virt.toNat >>> 12 &&& (2 ^ 10 - 1) = virt.toNat / 4096 % 2 ^ 10
  rw [Nat.and_two_pow_sub_one_eq_mod, Nat.shiftRight_eq_div_pow]

theorem ptIndex_lt (virt : UInt32) : ptIndex virt < 1024 := by
  rw [ptIndex_eq]
  omega

section Walk

variable {mem : PhysMem} {cr3 virt pde pte : UInt32}

theorem walk_eq_some (hpde : mem (entryAddr cr3 (pdIndex virt)) = pde) (hp : present pde = true)
    (hpte : mem (entryAddr (entryFrame pde) (ptIndex virt)) = pte) (hp' : present pte = true) :
    walk mem cr3 virt = some ⟨pde, pte, entryFrame pte + (virt &&& 0xFFF)⟩ := by
  unfold walk
  rw [hpde, if_pos hp, hpte, if_pos hp']

theorem walk_of_not_present_pde (h : present (mem (entryAddr cr3 (pdIndex virt))) = false) :
    walk mem cr3 virt = none := if_neg (Bool.eq_false_iff.mp h)

theorem walk_of_not_present_pte (hpde : mem (entryAddr cr3 (pdIndex virt)) = pde)
    (h : present (mem (entryAddr (entryFrame pde) (ptIndex virt))) = false) :
    walk mem cr3 virt = none := by
  unfold walk
  simp only [hpde, h]
  split <;> rfl

/-- What a walk that succeeds has read. -/
theorem of_walk_eq_some {t : Translation} (h : walk mem cr3 virt = some t) :
    mem (entryAddr cr3 (pdIndex virt)) = t.pde ∧ present t.pde = true ∧
      mem (entryAddr (entryFrame t.pde) (ptIndex virt)) = t.pte ∧ present t.pte = true ∧
      t.phys = entryFrame t.pte + (virt &&& 0xFFF) := by
  simp only [walk] at h
  split at h
  · rename_i hp
    split at h
    · rename_i hp'
      obtain rfl := Option.some.inj h
      exact ⟨rfl, hp, rfl, hp', rfl⟩
    · nomatch h
  · nomatch h

/-- The walk through two entries of the form `address | flags`. -/
theorem walk_of_flags {table page flags flags' : UInt32} (htable : PageAligned table)
    (hpage : PageAligned page) (hflags : flags.toNat < 4096) (hflags' : flags'.toNat < 4096)
    (hpde : mem (entryAddr cr3 (pdIndex virt)) = table ||| flags)
    (hpte : mem (entryAddr table (ptIndex virt)) = page ||| flags')
    (hp : present flags = true) (hp' : present flags' = true) :
    walk mem cr3 virt = some ⟨table ||| flags, page ||| flags', page + (virt &&& 0xFFF)⟩ := by
  have hwalk := walk_eq_some hpde ((present_or htable hflags).trans hp)
    (by rw [entryFrame_or htable hflags]; exact hpte) ((present_or hpage hflags').trans hp')
  rwa [entryFrame_or hpage hflags'] at hwalk

end Walk

/-- The bytes of a page share the page's frame. -/
theorem toNat_page_add {page : UInt32} (hpage : PageAligned page) (virt : UInt32) :
    (page + (virt &&& 0xFFF)).toNat = page.toNat + virt.toNat % 4096 := by
  have hlt : page.toNat < 2 ^ 32 := page.toNat_lt
  unfold PageAligned at hpage
  rw [UInt32.toNat_add, toNat_and_0xFFF]
  omega

end MyOs.Lib.Mmu
