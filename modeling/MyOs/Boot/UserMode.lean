/-
  Programs in user mode.

  `jump_usermode` leaves the kernel with an `iret`.  An interrupt or a system call takes the processor
  back, on the stack that `tss` names, and the stub of the vector ends with another `iret`.

  1. **Processor**: what it checks and loads when it changes the privilege (`enterKernel`, `iret`).
  2. **Tables** (`UserTables`): what it reads for that, as `createGdt` and `idt_init` leave it.
  3. **One interrupt** (`interrupt_returns`): it begins on the empty kernel stack, and gives the
     program back what it had.
  4. **Runs** (`programs_undisturbed`): a program that is interrupted anywhere does what it would do
     alone.

  A handler is known by the calling convention, and by the memory that it may write to.  What a program
  may write to is what `setup_paging` maps for users, and what the kernel sees of that in its own window.
  The processor marks the segments that it loads and, in the page tables, what was used.
-/
import MyOs.Boot.BootMain
import MyOs.Lib.Simulation

namespace MyOs.Boot

open MyOs.Lib.Cdecl
open MyOs.Lib.Cdecl.Machine
open MyOs.Lib.Simulation
open MyOs.Lib.Words

/-! ## The processor -/

/-- What a program sees of the processor. -/
structure User where
  eax : UInt32
  ecx : UInt32
  edx : UInt32
  ebx : UInt32
  esp : UInt32
  ebp : UInt32
  esi : UInt32
  edi : UInt32
  eip : UInt32
  cs : UInt32
  ss : UInt32
  eflags : UInt32

/-- The processor runs a program. -/
structure UserState where
  user : User
  mem : ByteMem

/-- The descriptor of a selector, in the table that `lgdt` has loaded. -/
def segmentIn (mem : ByteMem) (selector : UInt32) : Option GdtEntry :=
  if selector.toNat % 2 ^ 16 / 8 < 6 then some (decodeDescriptor mem (descriptorAt selector)) else none

/-- The privilege that a selector asks for. -/
def rpl (selector : UInt32) : Nat := selector.toNat % 4

/-- A present code segment of a privilege. -/
def GdtEntry.IsCode (e : GdtEntry) (dpl : Nat) : Prop :=
  e.accessByte.toNat / 8 = 16 + 4 * dpl + 3 ∧ e.accessByte.toNat / 4 % 2 = 0

/-- A present data segment of a privilege, which can be written to. -/
def GdtEntry.IsData (e : GdtEntry) (dpl : Nat) : Prop :=
  e.accessByte.toNat / 8 = 16 + 4 * dpl + 2 ∧ e.accessByte.toNat / 2 % 2 = 1

instance (e : GdtEntry) (dpl : Nat) : Decidable (e.IsCode dpl) :=
  inferInstanceAs (Decidable (_ ∧ _))

instance (e : GdtEntry) (dpl : Nat) : Decidable (e.IsData dpl) :=
  inferInstanceAs (Decidable (_ ∧ _))

/-- Bit 9 of the flags. -/
def interruptsEnabled (eflags : UInt32) : Bool := eflags.toNat.testBit 9

/-- Bit 10. -/
def directionFlag (eflags : UInt32) : Bool := eflags.toNat.testBit 10

/-- The frame of an interrupt.  An `INT` has two bytes, and returns behind them. -/
def User.frame (u : User) (c : Cause) : Frame where
  eip := if c = .event then u.eip else u.eip + 2
  cs := u.cs
  eflags := u.eflags
  outer := some (u.esp, u.ss)

/-- The registers of a program on a kernel stack. -/
def UserState.onStack (s : UserState) (esp0 : UInt32) : Machine where
  eax := s.user.eax
  ecx := s.user.ecx
  edx := s.user.edx
  ebx := s.user.ebx
  esp := esp0
  ebp := s.user.ebp
  esi := s.user.esi
  edi := s.user.edi
  direction := directionFlag s.user.eflags
  interrupts := interruptsEnabled s.user.eflags
  mem := s.mem

/-- A program is interrupted: the gate, its code segment, and the stack in the task state at `tss`.
    The processor is at an address in the kernel and has loaded two segments, or it raises a fault. -/
def enterKernel (L : BootMainLayout) (s : UserState) (c : Cause) (v : UInt8) (code : UInt32) :
    Option (UInt32 × Machine) :=
  match enter s.mem L.idt.idtr c v with
  | .handler selector offset true =>
    let esp0 := loadWord s.mem (L.gdt.tss + 4)
    let ss0 := loadWord s.mem (L.gdt.tss + 8)
    if (segmentIn s.mem selector.toUInt32).any (fun e => e.IsCode 0) ∧ rpl ss0 = 0 ∧
        (segmentIn s.mem ss0).any (fun e => e.IsData 0) then
      let s := { s with mem := loadSegment (loadSegment s.mem ss0) selector.toUInt32 }
      some (offset, interrupt v.toNat (s.user.frame c) code (s.onStack esp0))
    else none
  | _ => none

/-- `iret` from the kernel to a program, with the five words on the stack. -/
def iret (m : Machine) : Option UserState :=
  let cs := loadWord m.mem (m.esp + 4)
  let ss := loadWord m.mem (m.esp + 16)
  if rpl cs = 3 ∧ (segmentIn m.mem cs).any (fun e => e.IsCode 3) ∧
      rpl ss = 3 ∧ (segmentIn m.mem ss).any (fun e => e.IsData 3) then
    some {
      user := {
        eax := m.eax, ecx := m.ecx, edx := m.edx, ebx := m.ebx
        esp := loadWord m.mem (m.esp + 12)
        ebp := m.ebp, esi := m.esi, edi := m.edi
        eip := loadWord m.mem m.esp
        cs, ss
        eflags := loadWord m.mem (m.esp + 8) }
      mem := loadSegment (loadSegment m.mem cs) ss }
  else none

/-! ## The program -/

/-- `pushf`, `pop %eax`, `or $0x200, %eax`, `push %eax`: interrupts will be enabled. -/
def pushFlags (eflags : UInt32) (m : Machine) : Machine :=
  let m := m.push eflags
  let m := { m with eax := loadWord m.mem m.esp, esp := m.esp + 4 }
  let m := { m with eax := m.eax ||| 0x200 }
  m.push m.eax

/-- `jump_usermode` up to its `iret`, with the flags of the kernel.  `%ds`, `%es`, `%fs` and `%gs` are
    loaded. -/
def jumpFrame (eflags : UInt32) (m : Machine) : Machine :=
  let m := { m with ebx := loadWord m.mem (m.esp + 4) }
  let m := { m with ecx := loadWord m.mem (m.esp + 8) }
  let m := { m with eax := (m.eax &&& 0xFFFF0000) ||| 0x23 }
  let m := { m with mem := (List.replicate 4 0x23).foldl loadSegment m.mem }
  let m := m.push 0x23
  let m := m.push m.ecx
  let m := pushFlags eflags m
  let m := m.push 0x1B
  m.push m.ebx

/-- `jump_usermode`. -/
def jumpUsermode (eflags : UInt32) (m : Machine) : Option UserState := iret (jumpFrame eflags m)

/-- What `setup_paging` maps for users. -/
def UserAddress (a : UInt32) : Prop := 0x00400000 ≤ a ∧ a < 0x40400000

instance (a : UInt32) : Decidable (UserAddress a) := inferInstanceAs (Decidable (_ ∧ _))

/-- Where the kernel's window has the same memory, up to 512 MiB. -/
def UserAlias (a : UInt32) : Prop := 0xC0400000 ≤ a ∧ a < 0xE0000000

/-- What a program has: the registers, and its memory. -/
structure View where
  user : User
  mem : {a // UserAddress a} → UInt8

def UserState.view (s : UserState) : View := ⟨s.user, fun a => s.mem a⟩

/-- An instruction of a program that is no `INT`.  It can change neither the privilege nor whether
    interrupts are enabled. -/
structure UserInstr where
  run : View → View
  cs : ∀ w, (run w).user.cs = w.user.cs
  ss : ∀ w, (run w).user.ss = w.user.ss
  enabled : ∀ w, interruptsEnabled (run w).user.eflags = interruptsEnabled w.user.eflags

/-- The instruction, in the whole memory. -/
def UserInstr.exec (i : UserInstr) (s : UserState) : UserState where
  user := (i.run s.view).user
  mem a := if h : UserAddress a then (i.run s.view).mem ⟨a, h⟩ else s.mem a

/-- What happens while a program runs. -/
inductive UserEvent where
  | own (i : UserInstr)
  | interrupt (c : Cause) (v : UInt8)

/-! ## The kernel and its programs -/

/-- The part of the memory that the processor reads when the privilege changes. -/
def InUserTables (L : BootMainLayout) (a : UInt32) : Prop :=
  InTables L a ∨ (∃ k : UInt32, k < 0x20 ∧ a = gdtLocation + 0x08 + k) ∨
    ∃ k : UInt32, k < 8 ∧ a = L.gdt.tss + 4 + k

/-- What the linker and `setup_paging` decide: the objects of the kernel are apart from each other and
    from the memory of programs. -/
structure UserLayout extends BootMainLayout where
  /-- The directory and the page tables. -/
  pageTables : Set UInt32
  /-- Those, the stack of the kernel, and the variables that handlers store to. -/
  writable : Set UInt32
  stack : ∀ a, Below gdt.stackTop 16384 a → a ∈ writable
  pageTables_writable : ∀ a ∈ pageTables, a ∈ writable
  writable_apart : ∀ a ∈ writable,
    ¬ InUserTables toBootMainLayout a ∧ ¬ UserAddress a ∧ ¬ UserAlias a
  tss_higherHalf : 0xC0100000 ≤ gdt.tss.toNat
  tss_mapped : gdt.tss.toNat + sizeofTss ≤ 0xC0400000
  idt_mapped : idt.idt.toNat + 8 * 256 ≤ 0xC0400000
  tss_idt : ∀ a, InObject gdt.tss sizeofTss a → ¬ idt.Owns a
  tss_directory : gdt.tss.toNat + sizeofTss ≤ gdt.boot.bootPageDirectory.toNat ∨
    gdt.boot.bootPageDirectory.toNat + 4096 ≤ gdt.tss.toNat

/-- The processor with the handlers `H`.  Exceptions and devices have the vectors below 0x30, and an
    `INT` of the program has its privilege.  What an instruction stores is seen in the kernel's window
    too, and the processor may mark the page tables. -/
inductive UserStep (L : UserLayout) (H : CHandler → Machine → Machine → Prop) :
    UserState → UserEvent → UserState → Prop where
  | own {s : UserState} (i : UserInstr) {mem : ByteMem}
      (hmem : ∀ a, a ∉ L.pageTables → ¬ UserAlias a → mem a = (i.exec s).mem a) :
      UserStep L H s (.own i) ⟨(i.exec s).user, mem⟩
  | interrupt {s s' : UserState} {c : Cause} {v : UInt8} {code offset : UInt32} {m m' : Machine}
      {stub : Stub CHandler} (hcause : (c = .event ∧ v < 0x30) ∨ c = .int 3)
      (henter : enterKernel L.toBootMainLayout s c v code = some (offset, m))
      (hcode : L.idt.code offset = some stub) (hrun : stub.Runs H m m')
      (hiret : iret m' = some s') : UserStep L H s (.interrupt c v) s'

/-! ## What a program would do alone -/

/-- An own instruction, or a system call. -/
inductive ProgramEvent where
  | own (i : UserInstr)
  | syscall

/-- Behind a system call, which goes on after the `INT` and may change three registers. -/
def User.afterSyscall (u : User) (eax ecx edx : UInt32) : User :=
  { u with eip := u.eip + 2, eax, ecx, edx }

inductive ProgramStep : View → ProgramEvent → View → Prop where
  | own {w : View} (i : UserInstr) : ProgramStep w (.own i) (i.run w)
  | syscall {w : View} (eax ecx edx : UInt32) :
      ProgramStep w .syscall { w with user := w.user.afterSyscall eax ecx edx }

/-- What the program knows of. -/
def UserEvent.label : UserEvent → Option ProgramEvent
  | .own i => some (.own i)
  | .interrupt .event _ => none
  | .interrupt (.int _) _ => some .syscall

/-! ## Tables -/

/-- The access bytes of the segments of programs. -/
def UserAccess (a : UInt32) : Prop := a = descriptorAt 0x1B + 5 ∨ a = descriptorAt 0x23 + 5

/-- A byte is as it was, or a segment of programs has been marked. -/
def Kept (m₁ m₂ : ByteMem) (a : UInt32) : Prop :=
  m₂ a = m₁ a ∨ UserAccess a ∧ m₂ a = m₁ a ||| 1

namespace Kept

variable {m₁ m₂ m₃ : ByteMem} {a : UInt32}

theorem of_eq (h : m₂ a = m₁ a) : Kept m₁ m₂ a := .inl h

/-- A second mark makes no difference. -/
theorem trans (h₁ : Kept m₁ m₂ a) (h₂ : Kept m₂ m₃ a) : Kept m₁ m₃ a := by
  rcases h₁ with heq₁ | ⟨haccess, hmark₁⟩
  · rcases h₂ with heq₂ | ⟨haccess, hmark₂⟩
    · exact .inl (heq₂.trans heq₁)
    · exact .inr ⟨haccess, by rw [hmark₂, heq₁]⟩
  · right
    refine ⟨haccess, ?_⟩
    rcases h₂ with heq₂ | ⟨-, hmark₂⟩
    · rw [heq₂, hmark₁]
    · rw [hmark₂, hmark₁, UInt8.or_assoc, UInt8.or_self]

/-- Elsewhere nothing is marked. -/
theorem eq (h : Kept m₁ m₂ a) (hne : ¬ UserAccess a) : m₂ a = m₁ a :=
  h.resolve_right fun hmark => hne hmark.1

/-- Marked, they are the same. -/
theorem or_eq (h : Kept m₁ m₂ a) : m₂ a ||| 1 = m₁ a ||| 1 := by
  rcases h with heq | ⟨-, hmark⟩
  · rw [heq]
  · rw [hmark, UInt8.or_assoc, UInt8.or_self]

end Kept

/-- The segments of programs are loaded. -/
theorem kept_loadSegment {selector : UInt32} (h : selector = 0x1B ∨ selector = 0x23) (mem : ByteMem)
    (a : UInt32) : Kept mem (loadSegment mem selector) a := by
  by_cases ha : a = descriptorAt selector + 5
  · subst ha
    right
    refine ⟨?_, Function.update_self ..⟩
    rcases h with rfl | rfl
    · exact .inl rfl
    · exact .inr rfl
  · exact .of_eq (markDescriptor_of_ne ha 1 mem)

/-- The data segments of `jump_usermode`. -/
theorem kept_loadSegments (mem : ByteMem) (n : Nat) (a : UInt32) :
    Kept mem ((List.replicate n 0x23).foldl loadSegment mem) a := by
  induction n generalizing mem with
  | zero => exact .of_eq rfl
  | succ n ih =>
    rw [List.replicate_succ, List.foldl_cons]
    exact (kept_loadSegment (.inr rfl) mem a).trans (ih _)

/-- The segments, the gates, and the stack in `tss`.  The segments of programs may be marked or not. -/
structure UserTables (L : UserLayout) (mem : ByteMem) : Prop where
  tables : Tables L.toBootMainLayout mem
  kernelData : decodeDescriptor mem (gdtLocation + 0x10) = kernelDataSegment
  userCode : (decodeDescriptor mem (gdtLocation + 0x18)).mark 1 = userCodeSegment.mark 1
  userData : (decodeDescriptor mem (gdtLocation + 0x20)).mark 1 = userDataSegment.mark 1
  esp0 : loadWord mem (L.gdt.tss + 4) = L.gdt.stackTop
  ss0 : loadWord mem (L.gdt.tss + 8) = 0x10

variable {L : UserLayout}

/-- The marks are two bytes of the table. -/
theorem toNat_of_userAccess {a : UInt32} (h : UserAccess a) :
    a.toNat = 0xC005001D ∨ a.toNat = 0xC0050025 := by
  rcases h with rfl | rfl
  · exact .inl rfl
  · exact .inr rfl

/-- A byte of a segment. -/
theorem toNat_segmentByte {j k : UInt32} (hj : j ≤ 0x20) (hk : k < 8) :
    (gdtLocation + j + k).toNat = 0xC0050000 + j.toNat + k.toNat := by
  have hlocation : gdtLocation.toNat = 0xC0050000 := rfl
  rw [UInt32.le_iff_toNat_le] at hj
  rw [UInt32.lt_iff_toNat_lt] at hk
  simp only [UInt32.reduceToNat] at hj hk
  rw [UInt32.toNat_add, UInt32.toNat_add, hlocation]
  omega

/-- The access byte is the only one that is marked. -/
theorem not_userAccess {j k : UInt32} (hj : j = 0x08 ∨ j = 0x10 ∨ (j = 0x18 ∨ j = 0x20) ∧ k ≠ 5)
    (hk : k < 8) : ¬ UserAccess (gdtLocation + j + k) := by
  intro haccess
  have hle : j ≤ 0x20 := by
    rcases hj with rfl | rfl | ⟨rfl | rfl, -⟩
    all_goals decide
  have haddr := toNat_of_userAccess haccess
  rw [toNat_segmentByte hle hk] at haddr
  have hk' : k.toNat < 8 := UInt32.lt_iff_toNat_lt.mp hk
  rcases hj with rfl | rfl | ⟨rfl | rfl, hne⟩
  · simp only [UInt32.reduceToNat] at haddr
    omega
  · simp only [UInt32.reduceToNat] at haddr
    omega
  · have hoffset : k.toNat ≠ 5 := fun h => hne (UInt32.toNat_inj.mp h)
    simp only [UInt32.reduceToNat] at haddr
    omega
  · have hoffset : k.toNat ≠ 5 := fun h => hne (UInt32.toNat_inj.mp h)
    simp only [UInt32.reduceToNat] at haddr
    omega

/-- What the kernel's interrupts are taken by is not marked. -/
theorem not_userAccess_of_inTables {a : UInt32} (ha : InTables L.toBootMainLayout a) :
    ¬ UserAccess a := by
  rcases ha with ⟨k, hk, rfl⟩ | ⟨v, k, -, hk, rfl⟩
  · exact not_userAccess (.inl rfl) hk
  · intro haccess
    have hhigher := L.higherHalf _ (.inl (inObject_slot (v := v) hk))
    have haddr := toNat_of_userAccess haccess
    omega

/-- They stay when nothing but marks is stored in them. -/
theorem UserTables.congr {m₁ m₂ : ByteMem} (h : UserTables L m₁)
    (heq : ∀ a, InUserTables L.toBootMainLayout a → Kept m₁ m₂ a) : UserTables L m₂ := by
  have hsegment : ∀ j : UInt32, 0x08 ≤ j → j ≤ 0x20 → ∀ k : UInt32, k < 8 →
      Kept m₁ m₂ (gdtLocation + j + k) := by
    intro j hlo hhi k hk
    rw [UInt32.le_iff_toNat_le] at hlo hhi
    rw [UInt32.lt_iff_toNat_lt] at hk
    simp only [UInt32.reduceToNat] at hlo hhi hk
    refine heq _ (.inr (.inl ⟨j - 0x08 + k, ?_, ?_⟩))
    · rw [UInt32.lt_iff_toNat_lt, UInt32.toNat_add, UInt32.toNat_sub_of_le _ _ hlo]
      simp only [UInt32.reduceToNat]
      omega
    · grind
  have htss : ∀ j : UInt32, j ≤ 4 → ∀ k : UInt32, k < 4 →
      m₂ (L.gdt.tss + 4 + j + k) = m₁ (L.gdt.tss + 4 + j + k) := by
    intro j hj k hk
    have hend := L.gdt.le_end
    have hhigher := L.tss_higherHalf
    have hsize : sizeofTss = 104 := rfl
    rw [UInt32.le_iff_toNat_le] at hj
    rw [UInt32.lt_iff_toNat_lt] at hk
    simp only [UInt32.reduceToNat] at hj hk
    refine (heq _ (.inr (.inr ⟨j + k, ?_, UInt32.add_assoc ..⟩))).eq fun haccess => ?_
    · rw [UInt32.lt_iff_toNat_lt, UInt32.toNat_add]
      simp only [UInt32.reduceToNat]
      omega
    · have haddr := toNat_of_userAccess haccess
      rw [UInt32.toNat_add, UInt32.toNat_add, UInt32.toNat_add] at haddr
      simp only [UInt32.reduceToNat] at haddr
      omega
  have hss0 : L.gdt.tss + 8 = L.gdt.tss + 4 + 4 := by
    rw [UInt32.add_assoc]
    rfl
  have hmark : ∀ j : UInt32, 0x08 ≤ j → j = 0x18 ∨ j = 0x20 →
      (decodeDescriptor m₂ (gdtLocation + j)).mark 1
        = (decodeDescriptor m₁ (gdtLocation + j)).mark 1 := by
    intro j hlo hj
    have hhi : j ≤ 0x20 := by
      rcases hj with rfl | rfl
      · decide
      · decide
    refine mark_decodeDescriptor_congr (fun k hk hne => ?_) (hsegment j hlo hhi 5 (by decide)).or_eq
    exact (hsegment j hlo hhi k hk).eq (not_userAccess (.inr (.inr ⟨hj, hne⟩)) hk)
  refine ⟨h.tables.congr fun a ha => ?_, ?_, ?_, ?_, ?_, ?_⟩
  · exact (heq a (.inl ha)).eq (not_userAccess_of_inTables ha)
  · rw [← h.kernelData]
    exact decodeDescriptor_congr fun k hk =>
      (hsegment 0x10 (by decide) (by decide) k hk).eq (not_userAccess (.inr (.inl rfl)) hk)
  · rw [← h.userCode]
    exact hmark 0x18 (by decide) (.inl rfl)
  · rw [← h.userData]
    exact hmark 0x20 (by decide) (.inr rfl)
  · rw [← h.esp0]
    refine loadWord_congr fun k hk => ?_
    have hbyte := htss 0 (by decide) k hk
    rwa [UInt32.add_zero] at hbyte
  · rw [← h.ss0, hss0]
    exact loadWord_congr (htss 4 (by decide))

/-- Where the tables are. -/
theorem toNat_of_inUserTables {a : UInt32} (ha : InUserTables L.toBootMainLayout a) :
    0xC0050000 ≤ a.toNat ∧ a.toNat < 0xC0400000 := by
  have htss := L.tss_higherHalf
  have hmapped := L.tss_mapped
  have hidt := L.idt_mapped
  have hsize : sizeofTss = 104 := rfl
  have hbase : (gdtLocation + 0x08).toNat = 0xC0050008 := rfl
  rcases ha with (⟨k, hk, rfl⟩ | ⟨v, k, -, hk, rfl⟩) | ⟨k, hk, rfl⟩ | ⟨k, hk, rfl⟩
  · rw [UInt32.lt_iff_toNat_lt] at hk
    simp only [UInt32.reduceToNat] at hk
    rw [UInt32.toNat_add, hbase]
    omega
  · have hhigher := L.higherHalf _ (.inl (inObject_slot (v := v) hk))
    obtain ⟨-, hlt⟩ := inObject_slot (L := L.idt) (v := v) hk
    omega
  · rw [UInt32.lt_iff_toNat_lt] at hk
    simp only [UInt32.reduceToNat] at hk
    rw [UInt32.toNat_add, hbase]
    omega
  · rw [UInt32.lt_iff_toNat_lt] at hk
    simp only [UInt32.reduceToNat] at hk
    rw [UInt32.add_assoc, UInt32.toNat_add, UInt32.toNat_add]
    simp only [UInt32.reduceToNat]
    omega

/-- Programs do not store in the tables, at neither address. -/
theorem not_userAddress {a : UInt32} (ha : InUserTables L.toBootMainLayout a) : ¬ UserAddress a := by
  obtain ⟨hlo, -⟩ := toNat_of_inUserTables ha
  intro huser
  have hlt := UInt32.lt_iff_toNat_lt.mp huser.2
  simp only [UInt32.reduceToNat] at hlt
  omega

theorem not_userAlias {a : UInt32} (ha : InUserTables L.toBootMainLayout a) : ¬ UserAlias a := by
  obtain ⟨-, hhi⟩ := toNat_of_inUserTables ha
  intro halias
  have hle := UInt32.le_iff_toNat_le.mp halias.1
  simp only [UInt32.reduceToNat] at hle
  omega

/-- The two addresses are different. -/
theorem UserAddress.not_alias {a : UInt32} (h : UserAddress a) : ¬ UserAlias a := by
  intro halias
  have hlt := UInt32.lt_iff_toNat_lt.mp h.2
  have hle := UInt32.le_iff_toNat_le.mp halias.1
  simp only [UInt32.reduceToNat] at hlt hle
  omega

/-- And the marks are not in the memory of programs. -/
theorem UserAddress.not_access {a : UInt32} (h : UserAddress a) : ¬ UserAccess a := by
  intro haccess
  have hlt := UInt32.lt_iff_toNat_lt.mp h.2
  have haddr := toNat_of_userAccess haccess
  simp only [UInt32.reduceToNat] at hlt
  omega

/-- An address in `tss`. -/
theorem toNat_tss {j k : UInt32} (hj : j ≤ 8) (hk : k < 4) :
    (L.gdt.tss + j + k).toNat = L.gdt.tss.toNat + j.toNat + k.toNat := by
  have hend := L.gdt.le_end
  have hsize : sizeofTss = 104 := rfl
  rw [UInt32.le_iff_toNat_le] at hj
  rw [UInt32.lt_iff_toNat_lt] at hk
  simp only [UInt32.reduceToNat] at hj hk
  rw [UInt32.toNat_add, UInt32.toNat_add]
  omega

/-- The stack in `tss`, behind the stores of `createGdt`. -/
theorem loadWord_createGdt (L : UserLayout) (mem : ByteMem) :
    loadWord (createGdt L.gdt mem) (L.gdt.tss + 4) = L.gdt.stackTop ∧
      loadWord (createGdt L.gdt mem) (L.gdt.tss + 8) = 0x10 := by
  have hdirectory := L.tss_directory
  have htop := L.gdt.boot.kernelEnd.addr.toNat_lt
  have hbehind := L.gdt.boot.bitmap_behind
  have hsize : sizeofTss = 104 := rfl
  -- the store into the directory is elsewhere, and so are the marks
  have hbyte : ∀ (m : ByteMem) (j k : UInt32), j ≤ 8 → k < 4 →
      loadTask (setGdtBytes L.gdt m) 0x28 (L.gdt.tss + j + k) = m (L.gdt.tss + j + k) := by
    intro m j k hj hk
    have hhigher := L.tss_higherHalf
    have hlocation : gdtLocation.toNat = 0xC0050000 := rfl
    have haddr := toNat_tss (L := L) hj hk
    rw [UInt32.le_iff_toNat_le] at hj
    rw [UInt32.lt_iff_toNat_lt] at hk
    simp only [UInt32.reduceToNat] at hj hk
    have habove : gdtLocation.toNat + 6 * 8 ≤ (L.gdt.tss + j + k).toNat := by omega
    have htask : loadTask (setGdtBytes L.gdt m) 0x28 (L.gdt.tss + j + k)
        = setGdtBytes L.gdt m (L.gdt.tss + j + k) := markDescriptor_above (by decide) habove 2 _
    have hcode : loadSegment m 0x08 (L.gdt.tss + j + k) = m (L.gdt.tss + j + k) :=
      markDescriptor_above (by decide) habove 1 m
    rw [htask, setGdtBytes_above L.gdt habove, UInt32.add_zero,
      storeWord_elsewhere _ _ (by omega) (by omega), hcode]
  have hfour : L.gdt.tss + 4 = L.gdt.tss + 8 + 0xFFFFFFFC := by
    rw [UInt32.add_assoc]
    rfl
  constructor
  · refine (loadWord_congr fun k hk => hbyte _ 4 k (by decide) hk).trans ?_
    have hapart : Apart (L.gdt.tss + 8) (L.gdt.tss + 4) := by
      rw [hfour]
      exact apart_add (by decide) (by decide)
    rw [loadWord_storeWord_of_apart hapart, loadWord_storeWord]
  · refine (loadWord_congr fun k hk => hbyte _ 8 k (by decide) hk).trans ?_
    rw [loadWord_storeWord]

/-- **The tables behind `idt_init`.** -/
theorem userTables_idtInit (L : UserLayout) (mem : ByteMem) :
    UserTables L (idtInit L.idt (createGdt L.gdt mem)) := by
  have hsegment : ∀ (j : UInt32) (i : Nat) (e : GdtEntry), j ≤ 0x20 →
      gdtLocation + 8 * UInt32.ofNat i = gdtLocation + j → (loadedEntries L.gdt.tss)[i]? = some e →
      decodeDescriptor (idtInit L.idt (createGdt L.gdt mem)) (gdtLocation + j) = e := by
    intro j i e hj heq hi
    rw [← decode_createGdt L.gdt mem hi, heq]
    refine decodeDescriptor_congr fun k hk => idtInit_outside (fun howns => ?_) _
    have hhigher := L.higherHalf _ howns
    have haddr := toNat_segmentByte hj hk
    rw [UInt32.le_iff_toNat_le] at hj
    rw [UInt32.lt_iff_toNat_lt] at hk
    simp only [UInt32.reduceToNat] at hj hk
    omega
  have hword : ∀ j : UInt32, j ≤ 8 → loadWord (idtInit L.idt (createGdt L.gdt mem)) (L.gdt.tss + j)
      = loadWord (createGdt L.gdt mem) (L.gdt.tss + j) := by
    intro j hj
    refine loadWord_congr fun k hk => idtInit_outside (L.tss_idt _ ?_) _
    have hsize : sizeofTss = 104 := rfl
    have haddr := toNat_tss (L := L) hj hk
    rw [UInt32.le_iff_toNat_le] at hj
    rw [UInt32.lt_iff_toNat_lt] at hk
    simp only [UInt32.reduceToNat] at hj hk
    constructor
    · omega
    · omega
  obtain ⟨hesp0, hss0⟩ := loadWord_createGdt L mem
  exact
    { tables := tables_idtInit L.toBootMainLayout mem
      kernelData := hsegment 0x10 2 _ (by decide) (by decide) rfl
      userCode := congrArg (·.mark 1) (hsegment 0x18 3 _ (by decide) (by decide) rfl)
      userData := congrArg (·.mark 1) (hsegment 0x20 4 _ (by decide) (by decide) rfl)
      esp0 := (hword 4 (by decide)).trans hesp0
      ss0 := (hword 8 (by decide)).trans hss0 }

/-- The lowest bit. -/
theorem div_or_one (x : UInt8) {n : Nat} (hn : 0 < n) : (x ||| 1).toNat / 2 ^ n = x.toNat / 2 ^ n := by
  have hone : (1 : UInt8).toNat / 2 ^ n = 0 := Nat.div_eq_of_lt (Nat.one_lt_two_pow (by omega))
  rw [UInt8.toNat_or, Nat.or_div_two_pow, hone, Nat.or_zero]

/-- A mark does not matter for the checks. -/
theorem isCode_mark {e : GdtEntry} {dpl : Nat} : (e.mark 1).IsCode dpl ↔ e.IsCode dpl := by
  have hhigh : (e.accessByte ||| 1).toNat / 8 = e.accessByte.toNat / 8 :=
    div_or_one e.accessByte (n := 3) (by decide)
  have hconforming : (e.accessByte ||| 1).toNat / 4 = e.accessByte.toNat / 4 :=
    div_or_one e.accessByte (n := 2) (by decide)
  unfold GdtEntry.IsCode GdtEntry.mark
  rw [hhigh, hconforming]

theorem isData_mark {e : GdtEntry} {dpl : Nat} : (e.mark 1).IsData dpl ↔ e.IsData dpl := by
  have hhigh : (e.accessByte ||| 1).toNat / 8 = e.accessByte.toNat / 8 :=
    div_or_one e.accessByte (n := 3) (by decide)
  have hwritable : (e.accessByte ||| 1).toNat / 2 = e.accessByte.toNat / 2 :=
    div_or_one e.accessByte (n := 1) (by decide)
  unfold GdtEntry.IsData GdtEntry.mark
  rw [hhigh, hwritable]

/-- The segments of the kernel and of programs. -/
theorem UserTables.segments {mem : ByteMem} (h : UserTables L mem) :
    (segmentIn mem 0x08).any (fun e => e.IsCode 0) = true ∧
    (segmentIn mem 0x10).any (fun e => e.IsData 0) = true ∧
    (segmentIn mem 0x1B).any (fun e => e.IsCode 3) = true ∧
    (segmentIn mem 0x23).any (fun e => e.IsData 3) = true := by
  have hsegment : ∀ selector : UInt32, selector.toNat % 2 ^ 16 / 8 < 6 →
      segmentIn mem selector = some (decodeDescriptor mem (descriptorAt selector)) :=
    fun selector hlt => if_pos hlt
  rw [hsegment 0x08 (by decide), hsegment 0x10 (by decide), hsegment 0x1B (by decide),
    hsegment 0x23 (by decide)]
  have hcode : decodeDescriptor mem (descriptorAt 0x08) = kernelCodeSegment.mark 1 :=
    h.tables.descriptor
  have hdata : decodeDescriptor mem (descriptorAt 0x10) = kernelDataSegment := h.kernelData
  have huserCode : (userCodeSegment.mark 1).IsCode 3 := by decide
  have huserData : (userDataSegment.mark 1).IsData 3 := by decide
  refine ⟨?_, ?_, decide_eq_true (isCode_mark.mp ?_), decide_eq_true (isData_mark.mp ?_)⟩
  · rw [hcode]
    decide
  · rw [hdata]
    decide
  · exact h.userCode ▸ huserCode
  · exact h.userData ▸ huserData

/-- The segments of the kernel are marked already. -/
theorem UserTables.loadSegment_kernel {mem : ByteMem} (h : UserTables L mem) :
    loadSegment mem 0x08 = mem ∧ loadSegment mem 0x10 = mem := by
  have hcode : decodeDescriptor mem (descriptorAt 0x08) = kernelCodeSegment.mark 1 :=
    h.tables.descriptor
  have hdata : decodeDescriptor mem (descriptorAt 0x10) = kernelDataSegment := h.kernelData
  constructor
  · refine markDescriptor_of_marked ?_
    rw [hcode]
    decide
  · refine markDescriptor_of_marked ?_
    rw [hdata]
    decide

/-! ## One interrupt -/

/-- The handlers: they obey the calling convention, two of them end with `hlt`, and they store to the
    stack and the variables of the kernel. -/
structure Handlers (L : UserLayout) (H : CHandler → Machine → Machine → Prop) : Prop where
  obeys : ∀ h n n', H h n n' → Obeys (argCount h) savedWords n n'
  halts : ∀ n n', ¬ H .gpfHandler n n' ∧ ¬ H .exceptionHandler n n'
  stores : ∀ h n n', H h n n' → ∀ a, a ∉ L.writable → n'.mem a = n.mem a

/-- The processor runs a program, and can be interrupted. -/
structure InUserMode (L : UserLayout) (s : UserState) : Prop where
  tables : UserTables L s.mem
  cs : s.user.cs = 0x1B
  ss : s.user.ss = 0x23
  enabled : interruptsEnabled s.user.eflags = true

variable {s s' : UserState} {c : Cause} {v : UInt8} {code : UInt32}
  {H : CHandler → Machine → Machine → Prop}

/-- **Interrupts of a program** enter the stub of the vector on the empty stack of the kernel, if they
    are allowed. -/
theorem enterKernel_eq (h : UserTables L s.mem) (c : Cause) (v : UInt8) (code : UInt32) :
    enterKernel L.toBootMainLayout s c v code
      = if v < 49 ∧ Allowed c v then
          some (L.idt.stub v, interrupt v.toNat (s.user.frame c) code (s.onStack L.gdt.stackTop))
        else none := by
  obtain ⟨hcode, hdata, -, -⟩ := h.segments
  obtain ⟨hcs, hss⟩ := h.loadSegment_kernel
  have hselector : (0x08 : UInt16).toUInt32 = 0x08 := rfl
  unfold enterKernel
  by_cases hv : v < 49
  · rw [enter_of_gate hv (h.tables.gate v hv) c]
    by_cases hallowed : Allowed c v
    · rw [if_pos hallowed, if_pos ⟨hv, hallowed⟩]
      dsimp only
      rw [h.ss0, h.esp0, hselector, if_pos ⟨hcode, rfl, hdata⟩, hss, hcs]
    · rw [if_neg hallowed, if_neg fun h => hallowed h.2]
  · rw [enter_of_not_lt hv, if_neg fun h => hv h.1]

/-- **The way back**, with the frame of a program on the stack. -/
theorem iret_eq {m : Machine} (h : UserTables L m.mem) {eip eflags esp : UInt32}
    (hstack : m.Stack (Frame.words ⟨eip, 0x1B, eflags, some (esp, 0x23)⟩)) :
    iret m = some ⟨⟨m.eax, m.ecx, m.edx, m.ebx, esp, m.ebp, m.esi, m.edi, eip, 0x1B, 0x23, eflags⟩,
      loadSegment (loadSegment m.mem 0x1B) 0x23⟩ := by
  have hword : ∀ i w, (Frame.words ⟨eip, 0x1B, eflags, some (esp, 0x23)⟩)[i]? = some w →
      loadWord m.mem (m.esp + 4 * UInt32.ofNat i) = w := wordsAt_iff.mp hstack
  have heip : loadWord m.mem m.esp = eip := hstack.1
  have hcs : loadWord m.mem (m.esp + 4) = 0x1B := hword 1 _ rfl
  have heflags : loadWord m.mem (m.esp + 8) = eflags := hword 2 _ rfl
  have hesp : loadWord m.mem (m.esp + 12) = esp := hword 3 _ rfl
  have hss : loadWord m.mem (m.esp + 16) = 0x23 := hword 4 _ rfl
  obtain ⟨-, -, hcode, hdata⟩ := h.segments
  unfold iret
  rw [heip, hcs, heflags, hesp, hss]
  exact if_pos ⟨rfl, hcode, rfl, hdata⟩

section Stubs

variable {u m' : Machine} {f : Frame} {n : Nat} {W : Set UInt32}

/-- What an interrupt and its stub push is below the stack pointer. -/
theorem mem_interrupt_pushAll {a : UInt32} (ha : ¬ Below u.esp 256 a)
    (hcode : hasErrorCode n = false) {ws : List UInt32} (hlen : ws.length ≤ savedWords) :
    ((interrupt n f code u).pushAll ws).mem a = u.mem a := by
  have hsaved : savedWords = 13 := rfl
  have hwords := f.length_words
  have hmul : 4 * UInt32.ofNat f.words.length = UInt32.ofNat (4 * f.words.length) := by
    rw [UInt32.ofNat_mul]
    rfl
  have hmem : (interrupt n f code u).mem = (u.pushAll f.words).mem := by
    unfold interrupt
    rw [hcode]
    rfl
  rw [pushAll_of_not_below ws, hmem, pushAll_of_not_below f.words]
  · exact fun h => ha (h.mono (by omega))
  · rw [esp_interrupt f code u hcode, hmul]
    exact fun h => ha (h.sub.mono (by omega))

/-- What a stub pushes before the call. -/
theorem mem_savingStub_atEntry (h : CHandler) (ret : UInt32) (m : Machine) :
    ((savingStub h).atEntry ret m).mem = (m.pushAll (ret :: saved m)).mem := by
  rw [savingStub_atEntry]
  show (Machine.push _ ret).mem = ((m.pushAll (saved m)).push ret).mem
  generalize m.pushAll (saved m) = p
  rfl

theorem mem_syscallStub_atEntry (ret : UInt32) (m : Machine) :
    (syscallStub.atEntry ret m).mem = (m.pushAll (ret :: syscallArgs m)).mem := by
  rw [syscallStub_atEntry]
  show (Machine.push _ ret).mem = ((m.pushAll (syscallArgs m)).push ret).mem
  generalize m.pushAll (syscallArgs m) = p
  rfl

/-- What every stub gives back: the frame, the registers that a function keeps, and the memory outside
    of `W`. -/
structure Returns (W : Set UInt32) (f : Frame) (u m' : Machine) : Prop where
  frame : m'.Stack f.words
  ebx : m'.ebx = u.ebx
  ebp : m'.ebp = u.ebp
  esi : m'.esi = u.esi
  edi : m'.edi = u.edi
  mem : ∀ a, a ∉ W → m'.mem a = u.mem a

/-- The stubs that save the registers give all of them back. -/
theorem savingStub_returns {h : CHandler} (hobeys : ∀ n n', H h n n' → Obeys 0 savedWords n n')
    (hstores : ∀ n n', H h n n' → ∀ a, a ∉ W → n'.mem a = n.mem a)
    (hstack : ∀ a, Below u.esp 256 a → a ∈ W) (hcode : hasErrorCode n = false)
    (hrun : (savingStub h).Runs H (interrupt n f code u) m') :
    Returns W f u m' ∧ SameRegs u m' := by
  have hsaved : savedWords = 13 := rfl
  have hwords := f.length_words
  obtain ⟨hregs, -, hframe⟩ := savingStub_restores hobeys (stack_interrupt f code u hcode)
    (by omega) (by omega) hrun
  have hall := (sameRegs_interrupt n f code u).trans hregs
  obtain ⟨ret, n', hcall, rfl⟩ := hrun
  refine ⟨⟨hframe, hall.ebx, hall.ebp, hall.esi, hall.edi, fun a ha => ?_⟩, hall⟩
  have hmem := hstores _ _ hcall a ha
  rw [mem_savingStub_atEntry, mem_interrupt_pushAll (fun h => ha (hstack a h)) hcode
    (by rw [List.length_cons, length_saved]; omega)] at hmem
  exact hmem

/-- `syscall_stub` gives back what the handler keeps. -/
theorem syscallStub_returns
    (hobeys : ∀ n n', H .syscallHandler n n' → Obeys 4 savedWords n n')
    (hstores : ∀ n n', H .syscallHandler n n' → ∀ a, a ∉ W → n'.mem a = n.mem a)
    (hstack : ∀ a, Below u.esp 256 a → a ∈ W) (hcode : hasErrorCode n = false)
    (hrun : syscallStub.Runs H (interrupt n f code u) m') : Returns W f u m' := by
  have hsaved : savedWords = 13 := rfl
  have hwords := f.length_words
  obtain ⟨ret, n', hcall, rfl⟩ := hrun
  have hobeys' := hobeys _ _ hcall
  have hentry := (sameRegs_interrupt n f code u).trans (syscallStub_entry_regs ret _)
  have hframe := hobeys'.stack (syscallStub_entry (stack_interrupt f code u hcode) (by omega) ret)
    rfl (by omega)
  refine ⟨hframe, hobeys'.ebx.trans hentry.ebx, hobeys'.ebp.trans hentry.ebp,
    hobeys'.esi.trans hentry.esi, hobeys'.edi.trans hentry.edi, fun a ha => ?_⟩
  have hmem := hstores _ _ hcall a ha
  rw [mem_syscallStub_atEntry, mem_interrupt_pushAll (fun h => ha (hstack a h)) hcode
    (by rw [List.length_cons]; exact (show 4 + 1 ≤ savedWords by omega))] at hmem
  exact hmem

end Stubs

/-- The vectors whose handler does not return. -/
theorem halting_cases : ∀ v, v < 49 → v = 0 ∨ 32 ≤ v ∨
    (stubOf v).callee = .gpfHandler ∨ (stubOf v).callee = .exceptionHandler := by decide

/-- **The stub of a program's interrupt** returns with the frame, and but for the one of the system
    calls with all registers. -/
theorem stub_returns (hH : Handlers L H) (s : UserState) (hv : v < 49) {m' : Machine}
    (hrun : (stubOf v.toNat).Runs H
      (interrupt v.toNat (s.user.frame c) code (s.onStack L.gdt.stackTop)) m') :
    Returns L.writable (s.user.frame c) (s.onStack L.gdt.stackTop) m' ∧
      (v ≠ 0x30 → SameRegs (s.onStack L.gdt.stackTop) m') := by
  have hlt : v.toNat < 49 := UInt8.lt_iff_toNat_lt.mp hv
  have hstack : ∀ a, Below (s.onStack L.gdt.stackTop).esp 256 a → a ∈ L.writable :=
    fun a ha => L.stack a (ha.mono (by decide))
  have hcases : v.toNat = 0 ∨ 32 ≤ v.toNat := by
    obtain ⟨ret, n', hcall, -⟩ := hrun
    rcases halting_cases _ hlt with hzero | hdevice | hgpf | hexception
    · exact .inl hzero
    · exact .inr hdevice
    · exact absurd (hgpf ▸ hcall) (hH.halts _ _).1
    · exact absurd (hexception ▸ hcall) (hH.halts _ _).2
  rcases returning_cases _ hlt hcases with ⟨hsyscall, hstub⟩ | ⟨-, hargs, hstub⟩
  · rw [hstub] at hrun
    have hcode : hasErrorCode v.toNat = false := by rw [hsyscall]; rfl
    exact ⟨syscallStub_returns (hH.obeys .syscallHandler) (hH.stores .syscallHandler) hstack hcode hrun,
      fun hne => absurd (UInt8.toNat_inj.mp hsyscall) hne⟩
  · rw [hstub] at hrun
    have hcode : ∀ n, n < 49 → n = 0 ∨ 32 ≤ n → hasErrorCode n = false := by decide
    obtain ⟨hreturns, hregs⟩ := savingStub_returns (fun n n' hcall => hargs ▸ hH.obeys _ n n' hcall)
      (hH.stores (meantHandler v.toNat)) hstack (hcode _ hlt hcases) hrun
    exact ⟨hreturns, fun _ => hregs⟩

/-- **The `iret` of a stub** loads the frame. -/
theorem iret_returns (h : InUserMode L s) {m' : Machine}
    (hreturns : Returns L.writable (s.user.frame c) (s.onStack L.gdt.stackTop) m') :
    iret m' = some ⟨⟨m'.eax, m'.ecx, m'.edx, s.user.ebx, s.user.esp, s.user.ebp, s.user.esi,
      s.user.edi, (s.user.frame c).eip, s.user.cs, s.user.ss, s.user.eflags⟩,
      loadSegment (loadSegment m'.mem 0x1B) 0x23⟩ := by
  have htables : UserTables L m'.mem := h.tables.congr fun a ha =>
    .of_eq (hreturns.mem a fun hmem => (L.writable_apart a hmem).1 ha)
  have hframe := hreturns.frame
  unfold User.frame at hframe
  rw [h.cs, h.ss] at hframe
  rw [iret_eq htables hframe, hreturns.ebx, hreturns.ebp, hreturns.esi, hreturns.edi, h.cs, h.ss]
  rfl

/-- The segments that an `iret` loads. -/
theorem kept_iret (mem : ByteMem) (a : UInt32) :
    Kept mem (loadSegment (loadSegment mem 0x1B) 0x23) a :=
  (kept_loadSegment (.inl rfl) mem a).trans (kept_loadSegment (.inr rfl) _ a)

/-- **One interrupt**, by a device, an exception or a system call, from which the processor returns. -/
theorem interrupt_returns (hH : Handlers L H) (h : InUserMode L s)
    (hstep : UserStep L H s (.interrupt c v) s') :
    (∀ a, a ∉ L.writable → Kept s.mem s'.mem a) ∧
    ((c = .event ∧ s'.user = s.user) ∨
      (c = .int 3 ∧ ∃ eax ecx edx, s'.user = s.user.afterSyscall eax ecx edx)) := by
  cases hstep with
  | @interrupt _ _ _ code offset m m' stub hcause henter hcode hrun hiret =>
  rw [enterKernel_eq h.tables] at henter
  split at henter
  next hentered =>
    obtain ⟨rfl, rfl⟩ := Prod.mk.inj (Option.some.inj henter)
    rw [code_stub_eq hentered.1] at hcode
    obtain rfl := Option.some.inj hcode
    obtain ⟨hreturns, hregs⟩ := stub_returns hH s hentered.1 hrun
    obtain rfl := Option.some.inj (hiret.symm.trans (iret_returns h hreturns))
    refine ⟨fun a ha => (Kept.of_eq (hreturns.mem a ha)).trans (kept_iret m'.mem a), ?_⟩
    rcases hcause with ⟨rfl, hbelow⟩ | rfl
    · have hall := hregs fun heq => absurd (heq ▸ hbelow) (by decide)
      left
      refine ⟨rfl, ?_⟩
      rw [hall.eax, hall.ecx, hall.edx]
      rfl
    · right
      exact ⟨rfl, _, _, _, rfl⟩
  next => cases henter

/-- **The way back exists** whenever the handler returns. -/
theorem exists_userStep (hH : Handlers L H) (h : InUserMode L s)
    (hcause : (c = .event ∧ v < 0x30) ∨ c = .int 3) (hv : v < 49) (hallowed : Allowed c v)
    {m' : Machine} (hrun : (stubOf v.toNat).Runs H
      (interrupt v.toNat (s.user.frame c) code (s.onStack L.gdt.stackTop)) m') :
    ∃ s', UserStep L H s (.interrupt c v) s' := by
  have henter : enterKernel L.toBootMainLayout s c v code = some (L.idt.stub v,
      interrupt v.toNat (s.user.frame c) code (s.onStack L.gdt.stackTop)) := by
    rw [enterKernel_eq h.tables, if_pos ⟨hv, hallowed⟩]
  obtain ⟨hreturns, -⟩ := stub_returns hH s hv hrun
  exact ⟨_, .interrupt hcause henter (code_stub_eq hv) hrun (iret_returns h hreturns)⟩

/-! ## Runs -/

/-- What an own instruction leaves alone. -/
theorem exec_mem {i : UserInstr} {mem : ByteMem}
    (hmem : ∀ a, a ∉ L.pageTables → ¬ UserAlias a → mem a = (i.exec s).mem a) {a : UInt32}
    (ha : a ∉ L.writable) (huser : ¬ UserAddress a) (halias : ¬ UserAlias a) : mem a = s.mem a :=
  (hmem a (fun h => ha (L.pageTables_writable a h)) halias).trans (dif_neg huser)

/-- The mode stays. -/
theorem InUserMode.step (hH : Handlers L H) (h : InUserMode L s) {e : UserEvent}
    (hstep : UserStep L H s e s') : InUserMode L s' ∧
      ∀ a, a ∉ L.writable → ¬ UserAddress a → ¬ UserAlias a → Kept s.mem s'.mem a := by
  cases e with
  | own i =>
    cases hstep with
    | @own _ mem hmem =>
    refine ⟨⟨h.tables.congr fun a ha => ?_, ?_, ?_, ?_⟩, fun a ha huser halias => ?_⟩
    · exact .of_eq (exec_mem hmem (fun hwritable => (L.writable_apart a hwritable).1 ha)
        (not_userAddress ha) (not_userAlias ha))
    · exact (i.cs s.view).trans h.cs
    · exact (i.ss s.view).trans h.ss
    · exact (i.enabled s.view).trans h.enabled
    · exact .of_eq (exec_mem hmem ha huser halias)
  | interrupt c v =>
    obtain ⟨hmem, huser⟩ := interrupt_returns hH h hstep
    have htables : UserTables L s'.mem := h.tables.congr fun a ha =>
      hmem a fun hwritable => (L.writable_apart a hwritable).1 ha
    refine ⟨?_, fun a ha _ _ => hmem a ha⟩
    rcases huser with ⟨-, heq⟩ | ⟨-, eax, ecx, edx, heq⟩
    · exact ⟨htables, heq ▸ h.cs, heq ▸ h.ss, heq ▸ h.enabled⟩
    · exact ⟨htables, by rw [heq]; exact h.cs, by rw [heq]; exact h.ss, by rw [heq]; exact h.enabled⟩

/-- What the program sees of an instruction. -/
theorem view_own (i : UserInstr) {mem : ByteMem}
    (hmem : ∀ a, a ∉ L.pageTables → ¬ UserAlias a → mem a = (i.exec s).mem a) :
    (UserState.mk (i.exec s).user mem).view = i.run s.view := by
  have hview : (UserState.mk (i.exec s).user mem).view.mem = (i.run s.view).mem := by
    funext a
    have htables : a.1 ∉ L.pageTables := fun h =>
      (L.writable_apart a (L.pageTables_writable a h)).2.1 a.2
    exact (hmem a htables a.2.not_alias).trans (dif_pos a.2)
  exact congrArg (View.mk (i.run s.view).user) hview

/-- And of an interrupt. -/
theorem view_mem {m₁ m₂ : ByteMem} (h : ∀ a, a ∉ L.writable → Kept m₁ m₂ a) (u : User) :
    (UserState.mk u m₂).view = ⟨u, fun a => m₁ a⟩ :=
  congrArg (View.mk u) (funext fun a =>
    (h a fun hmem => (L.writable_apart a hmem).2.1 a.2).eq a.2.not_access)

theorem InUserMode.view_silent (hH : Handlers L H) (h : InUserMode L s) {e : UserEvent}
    (hstep : UserStep L H s e s') (hlabel : e.label = none) : s'.view = s.view := by
  cases e with
  | own i => cases hlabel
  | interrupt c v =>
    obtain ⟨hmem, huser⟩ := interrupt_returns hH h hstep
    obtain ⟨u', m'⟩ := s'
    rcases huser with ⟨-, rfl⟩ | ⟨rfl, -⟩
    · exact view_mem hmem _
    · cases hlabel

theorem InUserMode.view_step (hH : Handlers L H) (h : InUserMode L s) {e : UserEvent}
    {p : ProgramEvent} (hstep : UserStep L H s e s') (hlabel : e.label = some p) :
    ProgramStep s.view p s'.view := by
  cases e with
  | own i =>
    cases hstep with
    | @own _ mem hmem =>
    obtain rfl := Option.some.inj hlabel
    rw [view_own i hmem]
    exact .own i
  | interrupt c v =>
    obtain ⟨hmem, huser⟩ := interrupt_returns hH h hstep
    obtain ⟨u', m'⟩ := s'
    rcases huser with ⟨rfl, -⟩ | ⟨rfl, eax, ecx, edx, rfl⟩
    · cases hlabel
    · obtain rfl := Option.some.inj hlabel
      rw [view_mem hmem]
      exact .syscall eax ecx edx

/-- **A run**, as the program sees it, and what it leaves alone. -/
theorem InUserMode.run (hH : Handlers L H) (h : InUserMode L s) {es : List UserEvent}
    (hrun : Run (UserStep L H) s es s') :
    Run ProgramStep s.view (es.filterMap UserEvent.label) s'.view ∧ InUserMode L s' ∧
      ∀ a, a ∉ L.writable → ¬ UserAddress a → ¬ UserAlias a → Kept s.mem s'.mem a := by
  have hinv : ∀ s₁ e s₂, (InUserMode L s₁ ∧ ∀ a, a ∉ L.writable → ¬ UserAddress a →
      ¬ UserAlias a → Kept s.mem s₁.mem a) → UserStep L H s₁ e s₂ →
      InUserMode L s₂ ∧ ∀ a, a ∉ L.writable → ¬ UserAddress a → ¬ UserAlias a →
        Kept s.mem s₂.mem a := by
    rintro s₁ e s₂ ⟨h₁, hmem₁⟩ hstep
    obtain ⟨h₂, hmem₂⟩ := h₁.step hH hstep
    exact ⟨h₂, fun a ha huser halias => (hmem₁ a ha huser halias).trans (hmem₂ a ha huser halias)⟩
  have hafter := hrun.invariant hinv ⟨h, fun _ _ _ _ => .of_eq rfl⟩
  refine ⟨?_, hafter⟩
  exact hrun.simulate (fun _ _ _ h hstep => (h.step hH hstep).1) (fun _ _ _ h => h.view_silent hH)
    (fun _ _ _ _ h => h.view_step hH) h

/-! ## The way out -/

/-- Words that are pushed on a stack. -/
structure Pushed (W : Set UInt32) (m m' : Machine) (ws : List UInt32) : Prop where
  stack : m'.Stack ws
  esp : m'.esp = m.esp - UInt32.ofNat (4 * ws.length)
  mem : ∀ a, a ∉ W → Kept m.mem m'.mem a

theorem Pushed.push {W : Set UInt32} {m m' : Machine} {ws : List UInt32} (h : Pushed W m m' ws)
    (hW : ∀ a, Below m.esp 24 a → a ∈ W) (hlen : ws.length < 6) (w : UInt32) :
    Pushed W m (m'.push w) (w :: ws) := by
  refine ⟨h.stack.push (by omega) w, ?_, fun a ha => ?_⟩
  · have hfour : UInt32.ofNat (4 * (ws.length + 1)) = UInt32.ofNat (4 * ws.length) + 4 := by
      rw [Nat.mul_add, UInt32.ofNat_add]
      rfl
    show m'.esp - 4 = _
    rw [h.esp, List.length_cons, hfour]
    grind
  · refine (h.mem a ha).trans (.of_eq (push_of_not_below (fun hbelow => ha (hW a ?_)) w))
    rw [h.esp] at hbelow
    exact hbelow.sub.mono (by omega)

theorem Pushed.pop {W : Set UInt32} {m m' : Machine} {w : UInt32} {ws : List UInt32}
    (h : Pushed W m m' (w :: ws)) : Pushed W m { m' with esp := m'.esp + 4 } ws := by
  refine ⟨h.stack.2, ?_, h.mem⟩
  have hfour : UInt32.ofNat (4 * (ws.length + 1)) = UInt32.ofNat (4 * ws.length) + 4 := by
    rw [Nat.mul_add, UInt32.ofNat_add]
    rfl
  show m'.esp + 4 = _
  rw [h.esp, List.length_cons, hfour]
  grind

/-- The other registers do not matter. -/
theorem Pushed.congr {W : Set UInt32} {m m' m'' : Machine} {ws : List UInt32} (h : Pushed W m m' ws)
    (hesp : m''.esp = m'.esp) (hmem : m''.mem = m'.mem) : Pushed W m m'' ws := by
  refine ⟨?_, hesp.trans h.esp, fun a ha => (h.mem a ha).trans (.of_eq (congrFun hmem a))⟩
  have hstack := h.stack
  unfold Machine.Stack at hstack ⊢
  rwa [hesp, hmem]

/-- Before anything is pushed, the data segments are loaded. -/
theorem Pushed.load {W : Set UInt32} {m m' : Machine} (h : Pushed W m m' []) (n : Nat) :
    Pushed W m { m' with mem := (List.replicate n 0x23).foldl loadSegment m'.mem } [] :=
  ⟨trivial, h.esp, fun a ha => (h.mem a ha).trans (kept_loadSegments m'.mem n a)⟩

/-- `pushf` and `pop` load the flags. -/
theorem Pushed.pushFlags {W : Set UInt32} {m m' : Machine} {ws : List UInt32} (h : Pushed W m m' ws)
    (hW : ∀ a, Below m.esp 24 a → a ∈ W) (hlen : ws.length < 6) (eflags : UInt32) :
    Pushed W m (pushFlags eflags m') ((eflags ||| 0x200) :: ws) := by
  have hpushed := h.push hW hlen eflags
  have heax : loadWord (m'.push eflags).mem (m'.push eflags).esp = eflags := hpushed.stack.1
  unfold Boot.pushFlags
  dsimp only
  rw [heax]
  have hset : Pushed W m
      { m'.push eflags with eax := eflags ||| 0x200, esp := (m'.push eflags).esp + 4 } ws :=
    hpushed.pop.congr rfl rfl
  exact hset.push hW hlen _

/-- **The frame of `jump_usermode`**: the address, the stack and the selectors of a program, and
    interrupts enabled. -/
theorem pushed_jumpFrame {W : Set UInt32} {m : Machine} (hW : ∀ a, Below m.esp 24 a → a ∈ W)
    (eflags : UInt32) : Pushed W m (jumpFrame eflags m)
      (Frame.words ⟨loadWord m.mem (m.esp + 4), 0x1B, eflags ||| 0x200,
        some (loadWord m.mem (m.esp + 8), 0x23)⟩) := by
  have hstart : Pushed W m m [] := ⟨trivial, (UInt32.sub_zero _).symm, fun _ _ => .of_eq rfl⟩
  have hargs : Pushed W m
      { m with
        ebx := loadWord m.mem (m.esp + 4)
        ecx := loadWord m.mem (m.esp + 8)
        eax := (m.eax &&& 0xFFFF0000) ||| 0x23 } [] := hstart.congr rfl rfl
  exact (((((hargs.load 4).push hW (by decide) _).push hW (by simp) _).pushFlags hW (by simp) eflags).push hW
    (by simp) _).push hW (by simp) _

theorem interruptsEnabled_or (eflags : UInt32) : interruptsEnabled (eflags ||| 0x200) = true := by
  rw [interruptsEnabled, UInt32.toNat_or, Nat.testBit_or]
  exact Bool.or_eq_true_iff.mpr (.inr (by decide))

/-- **`jump_usermode`** starts a program, with interrupts enabled. -/
theorem jumpUsermode_eq {m : Machine} (h : UserTables L m.mem)
    (hstack : ∀ a, Below m.esp 24 a → a ∈ L.writable) (eflags : UInt32) :
    ∃ s, jumpUsermode eflags m = some s ∧ s.user.eip = loadWord m.mem (m.esp + 4) ∧
      s.user.esp = loadWord m.mem (m.esp + 8) ∧ InUserMode L s ∧
      ∀ a, a ∉ L.writable → Kept m.mem s.mem a := by
  have hframe := pushed_jumpFrame hstack eflags
  have htables : UserTables L (jumpFrame eflags m).mem := h.congr fun a ha =>
    hframe.mem a fun hmem => (L.writable_apart a hmem).1 ha
  refine ⟨_, iret_eq htables hframe.stack, rfl, rfl, ⟨?_, rfl, rfl, interruptsEnabled_or eflags⟩,
    fun a ha => (hframe.mem a ha).trans (kept_iret _ a)⟩
  exact htables.congr fun a _ => kept_iret _ a

/-- The call, with the arguments and the return address on the stack. -/
theorem jumpUsermode_call {m : Machine} (h : UserTables L m.mem)
    (hstack : ∀ a, Below m.esp 36 a → a ∈ L.writable) (ret address stackAddress eflags : UInt32) :
    ∃ s, jumpUsermode eflags (m.pushAll [ret, address, stackAddress]) = some s ∧
      s.user.eip = address ∧ s.user.esp = stackAddress ∧ InUserMode L s ∧
      ∀ a, a ∉ L.writable → Kept m.mem s.mem a := by
  have hbelow : ∀ a, Below m.esp 24 a → a ∈ L.writable :=
    fun a ha => hstack a (ha.mono (by decide))
  have hstart : Pushed L.writable m m [] :=
    ⟨trivial, (UInt32.sub_zero _).symm, fun _ _ => .of_eq rfl⟩
  have hargs : Pushed L.writable m (m.pushAll [ret, address, stackAddress])
      [ret, address, stackAddress] :=
    ((hstart.push hbelow (by simp) _).push hbelow (by simp) _).push hbelow (by simp) _
  have hword := wordsAt_iff.mp hargs.stack
  have haddress : loadWord (m.pushAll [ret, address, stackAddress]).mem
      ((m.pushAll [ret, address, stackAddress]).esp + 4) = address := hword 1 _ rfl
  have hstackAddress : loadWord (m.pushAll [ret, address, stackAddress]).mem
      ((m.pushAll [ret, address, stackAddress]).esp + 8) = stackAddress := hword 2 _ rfl
  have htables : UserTables L (m.pushAll [ret, address, stackAddress]).mem := h.congr fun a ha =>
    hargs.mem a fun hmem => (L.writable_apart a hmem).1 ha
  have hframe : ∀ a, Below (m.pushAll [ret, address, stackAddress]).esp 24 a → a ∈ L.writable := by
    intro a ha
    rw [hargs.esp] at ha
    exact hstack a ha.sub
  obtain ⟨s, hjump, heip, hesp, hmode, hkept⟩ := jumpUsermode_eq htables hframe eflags
  exact ⟨s, hjump, heip.trans haddress, hesp.trans hstackAddress, hmode,
    fun a ha => (hargs.mem a ha).trans (hkept a ha)⟩

/-- The tables lie behind the stack of the kernel and the directory. -/
def smallTables : BootMainLayout where
  gdt :=
    { boot := smallLayout
      tss := 0xC0117000
      stackTop := 0xC0114000
      le_end := by decide
      apart := by decide }
  idt :=
    { smallBootMainLayout.idt with
      idt := 0xC0117100
      idtrAddr := 0xC0117900
      vectors := 0xC0117908
      idt_end := by decide
      idtr_end := by decide
      vectors_end := by decide
      idt_idtr := by decide
      idt_vectors := by decide
      idtr_vectors := by decide }
  higherHalf := by
    rintro a (⟨hle, -⟩ | ⟨hle, -⟩ | ⟨hle, -⟩)
    · exact Nat.le_trans (by decide) hle
    · exact Nat.le_trans (by decide) hle
    · exact Nat.le_trans (by decide) hle

theorem smallTables_behind {a : UInt32} (ha : InUserTables smallTables a) :
    a.toNat < 0xC0100000 ∨ 0xC0117000 ≤ a.toNat ∧ a.toNat < 0xC0118000 := by
  have hidt : smallTables.idt.idt.toNat = 0xC0117100 := rfl
  have hbase : (gdtLocation + 0x08).toNat = 0xC0050008 := rfl
  have htss : (smallTables.gdt.tss + 4).toNat = 0xC0117004 := rfl
  rcases ha with (⟨k, hk, rfl⟩ | ⟨v, k, -, hk, rfl⟩) | ⟨k, hk, rfl⟩ | ⟨k, hk, rfl⟩
  · have hlt : k.toNat < 8 := UInt32.lt_iff_toNat_lt.mp hk
    rw [UInt32.toNat_add, hbase]
    omega
  · obtain ⟨hle, hlt⟩ := inObject_slot (L := smallTables.idt) (v := v) hk
    omega
  · have hlt : k.toNat < 0x20 := UInt32.lt_iff_toNat_lt.mp hk
    rw [UInt32.toNat_add, hbase]
    omega
  · have hlt : k.toNat < 8 := UInt32.lt_iff_toNat_lt.mp hk
    rw [UInt32.toNat_add, htss]
    omega

/-- What is below a pointer into that stack. -/
theorem mem_stack_of_below {esp a : UInt32} {n : Nat} (hlo : 0xC0110000 + n ≤ esp.toNat)
    (hhi : esp.toNat ≤ 0xC0114000) (ha : Below esp n a) :
    0xC0110000 ≤ a.toNat ∧ a.toNat < 0xC0114000 := by
  have hlt := a.toNat_lt
  have hone : (1 : UInt32).toNat = 1 := rfl
  unfold Below at ha
  rw [UInt32.toNat_sub, UInt32.toNat_sub, hone] at ha
  omega

/-- The directory is behind the stack, and 384 tables are below 4 MiB.  The stack is the only thing that
    handlers store to. -/
def smallUserLayout : UserLayout where
  toBootMainLayout := smallTables
  pageTables := {a | InObject 0xC0114000 0x1000 a ∨ InObject 0xC0200000 0x180000 a}
  writable := {a | InObject 0xC0110000 0x5000 a ∨ InObject 0xC0200000 0x180000 a}
  stack a ha := by
    obtain ⟨hle, hlt⟩ := mem_stack_of_below (n := 16384) (by decide) (by decide) ha
    exact .inl ⟨hle, Nat.lt_trans hlt (by decide)⟩
  pageTables_writable := by
    rintro a (⟨hle, hlt⟩ | htable)
    · exact .inl ⟨Nat.le_trans (by decide) hle, hlt⟩
    · exact .inr htable
  writable_apart := by
    intro a ha
    have hrange : 0xC0110000 ≤ a.toNat ∧ a.toNat < 0xC0115000 ∨
        0xC0200000 ≤ a.toNat ∧ a.toNat < 0xC0380000 := ha
    refine ⟨fun htables => ?_, fun huser => ?_, fun halias => ?_⟩
    · have hbehind := smallTables_behind htables
      omega
    · have hbelow := UInt32.lt_iff_toNat_lt.mp huser.2
      simp only [UInt32.reduceToNat] at hbelow
      omega
    · have habove := UInt32.le_iff_toNat_le.mp halias.1
      simp only [UInt32.reduceToNat] at habove
      omega
  tss_higherHalf := by decide
  tss_mapped := by decide
  idt_mapped := by decide
  tss_idt := by
    rintro a ⟨hle, hlt⟩ howns
    have hend : (0xC0117000 : UInt32).toNat + sizeofTss ≤ 0xC0117100 := by decide
    have hbehind : 0xC0117100 ≤ a.toNat := by
      rcases howns with ⟨hidt, -⟩ | ⟨hidtr, -⟩ | ⟨hvectors, -⟩
      · exact hidt
      · exact Nat.le_trans (by decide) hidtr
      · exact Nat.le_trans (by decide) hvectors
    exact absurd (Nat.lt_of_lt_of_le hlt hend) (Nat.not_lt.mpr hbehind)
  tss_directory := by decide

/-- The stack may be written to. -/
theorem mem_smallStack {esp a : UInt32} {n : Nat} (hlo : 0xC0110000 + n ≤ esp.toNat)
    (hhi : esp.toNat ≤ 0xC0114000) (ha : Below esp n a) : a ∈ smallUserLayout.writable := by
  obtain ⟨hle, hlt⟩ := mem_stack_of_below hlo hhi ha
  exact .inl ⟨hle, Nat.lt_trans hlt (by decide)⟩

/-- Handlers that only return, or halt. -/
def returnsOrHalts (h : CHandler) (n n' : Machine) : Prop :=
  (h ≠ .gpfHandler ∧ h ≠ .exceptionHandler) ∧ returns h n n'

theorem handlers_returnsOrHalts : Handlers smallUserLayout returnsOrHalts := by
  refine ⟨?_, ?_, ?_⟩
  · rintro h n n' ⟨-, rfl⟩
    exact obeys_return (argCount h) savedWords n
  · exact fun n n' => ⟨fun h => h.1.1 rfl, fun h => h.1.2 rfl⟩
  · rintro h n n' ⟨-, rfl⟩ a -
    rfl

/-- `jump_usermode(0x400000, 0x600000)` is called. -/
def smallCall : Machine :=
  { startMachine with
    esp := 0xC0113000
    mem := storeWord (storeWord (idtInit smallTables.idt (createGdt smallTables.gdt fun _ => 0))
      0xC0113004 0x400000) 0xC0113008 0x600000 }

end MyOs.Boot
