/-
  `boot_main` up to the timer: when interrupts come, everything that takes them is in place.

  1. **Program**: the segments, the controllers, the gates, `lidt`, `sti`, and behind that the timer.
     The messages and `setup_paging` are left out.
  2. **The tables** (`Tables`): what the processor reads from the memory, whatever else is stored.
  3. **Runs** (`boot_interrupts`): in every order of the steps and of what handlers do in between, a
     request that is delivered enters the handler of its line.

  Addresses are those the kernel uses; the tables are in memory that is mapped one to one.
-/
import MyOs.Boot.Gdt
import MyOs.Boot.Idt
import MyOs.Boot.PicRemap
import MyOs.Lib.Startup

namespace MyOs.Boot

open MyOs.Lib.Cdecl
open MyOs.Lib.Pic8259
open MyOs.Lib.Startup
open MyOs.Lib.Words

/-! ## The timer -/

/-- Counter 0. -/
structure Counter where
  control : UInt8
  /-- The first byte of two. -/
  low : Option UInt8
  /-- Where it starts over from. -/
  reload : Option UInt16
  deriving DecidableEq

/-- `out`, at the ports of the timer. -/
def pitOutb (c : Counter) (port : UInt16) (val : UInt8) : Counter :=
  if port = 0x43 then
    -- another counter, or a latch command
    if val / 64 ≠ 0 ∨ val / 16 % 4 = 0 then c else ⟨val, none, none⟩
  else if port = 0x40 then
    if c.control / 16 % 4 = 1 then { c with reload := some val.toUInt16 }
    else if c.control / 16 % 4 = 2 then { c with reload := some (val.toUInt16 <<< 8) }
    else match c.low with
      | none => { c with low := some val }
      | some low => { c with low := none, reload := some (low.toUInt16 ||| val.toUInt16 <<< 8) }
  else c

/-- The writes of `pit_init`. -/
def pitInitOutbs : List (UInt16 × UInt8) := [(0x43, 0x36), (0x40, 0xA9), (0x40, 0x04)]

/-! ## The program -/

/-- What the linker decides: what `idt_init` stores to is in the image of the kernel. -/
structure BootMainLayout where
  gdt : GdtLayout
  idt : IdtLayout
  higherHalf : ∀ a, idt.Owns a → 0xC0100000 ≤ a.toNat

structure BootState where
  mem : ByteMem
  pics : Pair
  counter : Counter
  gdtr : UInt16 × UInt32
  idtr : Idtr
  interrupts : Bool

/-- `createGdt` loads the table, the segments of the kernel and the task, and has `ltr` as its last
    step; an `outb` is one to the controllers or the timer. -/
inductive BootStep where
  | createGdt
  | outb (w : UInt16 × UInt8)
  | setIdtr
  | setDescriptor (vector flags : UInt8)
  | setVector (vector : UInt8)
  | lidt
  | sti
  deriving DecidableEq

def bootStep (L : BootMainLayout) (s : BootState) : BootStep → BootState
  | .createGdt => { s with mem := createGdt L.gdt s.mem, gdtr := (47, gdtLocation) }
  | .outb w =>
    { s with pics := picOutb s.pics w.1 w.2, counter := pitOutb s.counter w.1 w.2 }
  | .setIdtr => { s with mem := setIdtr L.idt s.mem }
  | .setDescriptor vector flags =>
    { s with mem := idtSetDescriptor L.idt s.mem vector (L.idt.stub vector) flags }
  | .setVector vector => { s with mem := setVector L.idt s.mem vector }
  | .lidt => { s with idtr := loadIdtr s.mem L.idt.idtrAddr }
  | .sti => { s with interrupts := true }

/-- `idt_init` up to `lidt`. -/
def descriptorSteps : List BootStep :=
  [.setIdtr] ++ (List.range idtMaxDescriptors).flatMap (fun vector =>
    [.setDescriptor (UInt8.ofNat vector) 0x8E, .setVector (UInt8.ofNat vector)])
    ++ [.setDescriptor 0x30 0xEE]

/-- `createGdt`, `PIC_remap` and `idt_init`. -/
def bootFirst : List BootStep :=
  [.createGdt] ++ (picRemapOutbs 0x20 0x28).map .outb ++ descriptorSteps ++ [.lidt, .sti]

/-- `pit_init`. -/
def bootSecond : List BootStep := pitInitOutbs.map .outb

/-- The part of the memory that the processor reads when an interrupt comes. -/
def InTables (L : BootMainLayout) (a : UInt32) : Prop :=
  (∃ k : UInt32, k < 8 ∧ a = gdtLocation + 0x08 + k) ∨
    ∃ v k, v < 49 ∧ k < 8 ∧ a = L.idt.slot v + k

/-- What happens in between when interrupts are enabled: handlers and the functions of the
    controllers, and stores elsewhere. -/
inductive Other (L : BootMainLayout) where
  | pic (e : PicOp × Registers × Registers) (defined : e.1.Defined)
  | store (a : UInt32) (v : UInt8) (elsewhere : ¬ InTables L a)

def bootOther {L : BootMainLayout} (s : BootState) : Other L → BootState
  | .pic e _ => { s with pics := picStep s.pics e }
  | .store a v _ => { s with mem := Function.update s.mem a v }

/-- `boot_main`, with what happens in between. -/
def bootRun (L : BootMainLayout) (s : BootState) (es : List (Event (Other L))) :
    BootState × List BootStep :=
  run (bootStep L) bootOther BootState.interrupts (s, bootFirst ++ bootSecond) es

/-! ## Interrupts -/

/-- The segment of a selector. -/
def segmentOf (s : BootState) (selector : UInt16) : Option GdtEntry :=
  if selector ||| 7 ≤ s.gdtr.1 then
    some (decodeDescriptor s.mem (s.gdtr.2 + (selector / 8 * 8).toUInt32))
  else none

/-- The handler of a line. -/
def lineHandler (line : Fin 16) : CHandler :=
  if line.val = 0 then .pitHandler else if line.val = 1 then .keyboardHandler else .irqHandler

/-- A request of a line is taken with this vector: by the stub that calls the handler of the line, in
    the code segment of the kernel, which has been accessed, and with interrupts disabled. -/
structure Handled (L : BootMainLayout) (s : BootState) (line : Fin 16) (v : UInt8) : Prop where
  vector : v.toNat = vectorOf line
  entered : enter s.mem s.idtr .event v = .handler 0x08 (L.idt.stub v) true
  segment : segmentOf s 0x08 = some (kernelCodeSegment.mark 1)
  callee : (L.idt.code (L.idt.stub v)).map Stub.callee = some (lineHandler line)

/-! ## The tables -/

variable {L : BootMainLayout} {s : BootState}

/-- The descriptor and the gates are there. -/
structure Tables (L : BootMainLayout) (mem : ByteMem) : Prop where
  descriptor : decodeDescriptor mem (gdtLocation + 0x08) = kernelCodeSegment.mark 1
  gate : ∀ v, v < 49 → decodeGate mem (L.idt.slot v) = gateOf L.idt v

/-- The tables stay when nothing is stored in them. -/
theorem Tables.congr {m₁ m₂ : ByteMem} (h : Tables L m₁) (heq : ∀ a, InTables L a → m₂ a = m₁ a) :
    Tables L m₂ := by
  refine ⟨?_, fun v hv => ?_⟩
  · rw [← h.descriptor]
    exact decodeDescriptor_congr fun k hk => heq _ (.inl ⟨k, hk, rfl⟩)
  · rw [← h.gate v hv]
    exact decodeGate_congr fun k hk => heq _ (.inr ⟨v, k, hv, hk, rfl⟩)

/-- What `idt_init` stores to is not in the other table. -/
theorem not_owns_descriptor {j : UInt32} (hj : j < 8) : ¬ L.idt.Owns (gdtLocation + 0x08 + j) := by
  intro howns
  have hhigher := L.higherHalf _ howns
  have hj' : j.toNat < 8 := UInt32.lt_iff_toNat_lt.mp hj
  have hbase : (gdtLocation + 0x08).toNat = 0xC0050008 := rfl
  rw [UInt32.toNat_add, hbase] at hhigher
  omega

/-- The tables behind `idt_init`. -/
theorem tables_idtInit (L : BootMainLayout) (mem : ByteMem) :
    Tables L (idtInit L.idt (createGdt L.gdt mem)) := by
  refine ⟨?_, fun v hv => decodeGate_idtInit _ hv⟩
  have hdescriptor : decodeDescriptor (createGdt L.gdt mem) (gdtLocation + 0x08)
      = kernelCodeSegment.mark 1 := decode_createGdt (i := 1) L.gdt mem rfl
  rw [← hdescriptor]
  exact decodeDescriptor_congr fun j hj => idtInit_outside (not_owns_descriptor hj) _

/-- A gate or a descriptor is where the processor looks for it. -/
theorem Tables.handled (h : Tables L s.mem) (hgdtr : s.gdtr = (47, gdtLocation))
    (hidtr : s.idtr = L.idt.idtr) (line : Fin 16) :
    Handled L s line (remappedVector 0x20 0x28 line) := by
  have hvector : ∀ line, (remappedVector 0x20 0x28 line).toNat = vectorOf line := by decide
  have hlt : ∀ line, remappedVector 0x20 0x28 line < 49 := by decide
  have hmeant : ∀ line, meantHandler (vectorOf line) = lineHandler line := by decide
  refine ⟨hvector line, ?_, ?_, ?_⟩
  · have hallowed : Allowed .event (remappedVector 0x20 0x28 line) := fun _ h => by cases h
    rw [hidtr, enter_of_gate (hlt line) (h.gate _ (hlt line)), if_pos hallowed]
  · unfold segmentOf
    rw [hgdtr]
    exact congrArg some h.descriptor
  · rw [code_stub_eq (hlt line), Option.map_some, callee_stubOf, hvector, hmeant]

/-! ## Runs -/

/-- What holds behind `sti`. -/
structure Open (L : BootMainLayout) (s : BootState) : Prop where
  tables : Tables L s.mem
  programmed : Programmed 0x20 0x28 s.pics
  gdtr : s.gdtr = (47, gdtLocation)
  idtr : s.idtr = L.idt.idtr
  interrupts : s.interrupts = true

theorem Open.handled (h : Open L s) {line : Fin 16} {v : UInt8}
    (hv : s.pics.vector 2 line = some v) : Handled L s line v := by
  rw [h.programmed.vector] at hv
  split at hv
  · cases hv
  · obtain rfl := Option.some.inj hv
    exact h.tables.handled h.gdtr h.idtr line

/-- Others do not disturb it. -/
theorem Open.other (h : Open L s) (b : Other L) : Open L (bootOther s b) := by
  cases b with
  | pic e hdef => exact { h with programmed := h.programmed.step hdef }
  | store a v helsewhere =>
    refine { h with tables := h.tables.congr fun b hb => Function.update_of_ne ?_ _ _ }
    rintro rfl
    exact helsewhere hb

/-- Nor does `pit_init`. -/
theorem Open.second (h : Open L s) {a : BootStep} (ha : a ∈ bootSecond) :
    Open L (bootStep L s a) := by
  obtain ⟨w, hw, rfl⟩ := List.mem_map.mp ha
  have hpics : ∀ w ∈ pitInitOutbs, ∀ p, picOutb p w.1 w.2 = p := by
    simp [pitInitOutbs, picOutb, pic1Command, pic1Data, pic2Command, pic2Data]
  refine { h with programmed := ?_ }
  show Programmed 0x20 0x28 (picOutb s.pics w.1 w.2)
  rw [hpics w hw]
  exact h.programmed

/-- The writes of `PIC_remap`. -/
theorem foldl_outb (ws : List (UInt16 × UInt8)) (s : BootState) :
    (ws.map .outb).foldl (bootStep L) s
      = { s with
          pics := picOutbs s.pics ws
          counter := ws.foldl (fun c w => pitOutb c w.1 w.2) s.counter } := by
  induction ws generalizing s with
  | nil => rfl
  | cons w ws ih =>
    rw [List.map_cons, List.foldl_cons, ih]
    rfl

/-- The loop of `idt_init`. -/
theorem foldl_setDescriptor (s : BootState) (n : Nat) :
    ((List.range n).flatMap fun vector =>
      [.setDescriptor (UInt8.ofNat vector) 0x8E, .setVector (UInt8.ofNat vector)]).foldl (bootStep L) s
      = { s with mem := idtLoop L.idt s.mem n } := by
  induction n with
  | zero => rfl
  | succ n ih =>
    rw [List.range_succ, List.flatMap_append, List.foldl_append, ih]
    rfl

theorem foldl_descriptorSteps (s : BootState) :
    descriptorSteps.foldl (bootStep L) s = { s with mem := idtInit L.idt s.mem } := by
  unfold descriptorSteps
  rw [List.foldl_append, List.foldl_append, foldl_setDescriptor]
  rfl

/-- The state behind `sti`. -/
theorem foldl_bootFirst (s : BootState) : bootFirst.foldl (bootStep L) s
    = { s with
        mem := idtInit L.idt (createGdt L.gdt s.mem)
        pics := picRemap s.pics 0x20 0x28
        counter := (picRemapOutbs 0x20 0x28).foldl (fun c w => pitOutb c w.1 w.2) s.counter
        gdtr := (47, gdtLocation)
        idtr := L.idt.idtr
        interrupts := true } := by
  unfold bootFirst
  rw [List.foldl_append, List.foldl_append, List.foldl_append, foldl_outb, foldl_descriptorSteps]
  simp only [List.foldl_cons, List.foldl_nil, bootStep, picRemap, loadIdtr_idtInit]

theorem open_bootFirst (s : BootState) : Open L (bootFirst.foldl (bootStep L) s) := by
  have hprogrammed : Programmed 0x20 0x28 (picRemap s.pics 0x20 0x28) :=
    programmed_picRemap s.pics 0x20 0x28
  rw [foldl_bootFirst]
  exact ⟨tables_idtInit L s.mem, hprogrammed, rfl, rfl, rfl⟩

/-- Only `sti` enables interrupts. -/
theorem interrupts_bootStep {a : BootStep} (h : a ≠ .sti) (s : BootState) :
    (bootStep L s a).interrupts = s.interrupts := by
  obtain ⟨mem, pics, counter, gdtr, idtr, interrupts⟩ := s
  show (bootStep L _ a).interrupts = interrupts
  cases a with
  | sti => exact absurd rfl h
  | createGdt => rfl
  | outb w => rfl
  | setIdtr => rfl
  | setDescriptor vector flags => rfl
  | setVector vector => rfl
  | lidt => rfl

theorem interrupts_foldl {steps : List BootStep} (h : .sti ∉ steps) (s : BootState) :
    (steps.foldl (bootStep L) s).interrupts = s.interrupts := by
  induction steps generalizing s with
  | nil => rfl
  | cons a steps ih =>
    rw [List.mem_cons, not_or] at h
    rw [List.foldl_cons, ih h.2, interrupts_bootStep (Ne.symm h.1)]

/-- Interrupts are disabled up to the last step of the first part. -/
theorem bootFirst_closed {done rest : List BootStep} (h : done ++ rest = bootFirst)
    (hrest : rest ≠ []) (hs : s.interrupts = false) :
    (done.foldl (bootStep L) s).interrupts = false := by
  have hsti : BootStep.sti ∉ bootFirst.dropLast := by decide
  rw [interrupts_foldl (fun hmem => hsti ?_), hs]
  rw [← h, List.dropLast_append_of_ne_nil hrest]
  exact List.mem_append_left _ hmem

/-- The timer alone. -/
def counterStep (c : Counter) : BootStep → Counter
  | .outb w => pitOutb c w.1 w.2
  | _ => c

theorem counter_bootStep (s : BootState) (a : BootStep) :
    (bootStep L s a).counter = counterStep s.counter a := by
  cases a
  all_goals rfl

theorem foldl_counterStep {as : List BootStep} (h : ∀ a ∈ as, ∀ c, counterStep c a = c)
    (c : Counter) : as.foldl counterStep c = c := by
  induction as with
  | nil => rfl
  | cons a as ih =>
    rw [List.foldl_cons, h a List.mem_cons_self]
    exact ih fun a' ha' => h a' (List.mem_cons_of_mem a ha')

/-- The other steps are not about the timer. -/
theorem counter_bootFirst (c : Counter) : bootFirst.foldl counterStep c = c := by
  have hstep : ∀ a ∈ bootFirst, ∀ c, counterStep c a = c := by
    have houtb : ∀ w ∈ picRemapOutbs 0x20 0x28, w.1 ≠ 0x43 ∧ w.1 ≠ 0x40 := by
      simp [picRemapOutbs, pic1Command, pic1Data, pic2Command, pic2Data, ioWait]
    intro a ha c
    cases a with
    | outb w =>
      have hw : w ∈ picRemapOutbs 0x20 0x28 := by
        simpa [bootFirst, descriptorSteps] using ha
      obtain ⟨hcontrol, hdata⟩ := houtb w hw
      show pitOutb c w.1 w.2 = c
      rw [pitOutb, if_neg hcontrol, if_neg hdata]
    | createGdt => rfl
    | setIdtr => rfl
    | setDescriptor vector flags => rfl
    | setVector vector => rfl
    | lidt => rfl
    | sti => rfl
  exact foldl_counterStep hstep c

/-- `pit_init`: counter 0 in mode 3, both bytes. -/
theorem counter_bootSecond (c : Counter) :
    bootSecond.foldl counterStep c = ⟨0x36, none, some 1193⟩ := by
  have hcontrol : pitOutb c 0x43 0x36 = ⟨0x36, none, none⟩ := rfl
  show pitOutb (pitOutb (pitOutb c 0x43 0x36) 0x40 0xA9) 0x40 0x04 = _
  rw [hcontrol]
  decide

/-- **`boot_main` and the interrupts.**  It is entered with interrupts disabled, and the memory, the
    controllers and the timer are in any state.  In every order of its steps and of what handlers and
    others do in between, once interrupts are enabled, every request that the controllers deliver
    enters the handler of its line.  In the end they are enabled, and the timer counts to 1193. -/
theorem boot_interrupts (L : BootMainLayout) (mem : ByteMem) (pics : Pair) (counter : Counter)
    (gdtr : UInt16 × UInt32) (idtr : Idtr) (es : List (Event (Other L))) :
    let c := bootRun L ⟨mem, pics, counter, gdtr, idtr, false⟩ es
    (c.1.interrupts = true → ∀ line v, c.1.pics.vector 2 line = some v → Handled L c.1 line v) ∧
    (c.2 = [] → c.1.interrupts = true ∧ c.1.counter = ⟨0x36, none, some 1193⟩) := by
  intro c
  have hne : bootFirst ≠ [] := by decide
  have hopen : (c.1.interrupts = true ∨ c.2 = []) → Open L c.1 :=
    run_safe (fun done rest h hrest => bootFirst_closed h hrest rfl) (open_bootFirst _)
      (fun _ _ ha h => h.second ha) (fun _ b h => h.other b) hne es
  refine ⟨fun henabled line v hv => (hopen (.inl henabled)).handled hv, fun hdone => ?_⟩
  have hother : ∀ (s : BootState) (b : Other L), (bootOther s b).counter = s.counter := by
    intro s b
    cases b
    all_goals rfl
  have hcounter : c.2.foldl counterStep c.1.counter
      = (bootFirst ++ bootSecond).foldl counterStep counter :=
    run_finished counter_bootStep hother es _
  rw [hdone, List.foldl_append, counter_bootFirst, counter_bootSecond] at hcounter
  exact ⟨(hopen (.inr hdone)).interrupts, hcounter⟩

/-- The gates behind the TSS, and the stubs at the numbers of their vectors. -/
def smallBootMainLayout : BootMainLayout where
  gdt := smallGdtLayout
  idt :=
    { idt := 0xC0110100
      idtrAddr := 0xC0110900
      vectors := 0xC0110908
      stub := UInt8.toUInt32
      code := fun a => isrStubTable[a.toNat]?
      code_stub := fun v _ => by rw [UInt8.toNat_toUInt32]
      idt_end := by decide
      idtr_end := by decide
      vectors_end := by decide
      idt_idtr := by decide
      idt_vectors := by decide
      idtr_vectors := by decide }
  higherHalf := by
    rintro a (⟨hle, -⟩ | ⟨hle, -⟩ | ⟨hle, -⟩)
    · exact Nat.le_trans (by decide) hle
    · exact Nat.le_trans (by decide) hle
    · exact Nat.le_trans (by decide) hle

-- the steps are taken one by one
set_option maxRecDepth 2048 in
/-- Controllers in the middle of an initialization, a timer that waits for a second byte, and nothing
    happens in between: at the end the keyboard has its handler. -/
theorem boot_interrupts_small :
    let c := bootRun smallBootMainLayout
      ⟨fun _ => 0, ⟨⟨.wiring, false, true, 8, 0, 0, 0xFF, true⟩, ⟨.mask, true, false, 8, 0, 0, 0, true⟩⟩,
        ⟨0x30, some 7, none⟩, (0, 0), ⟨0, 0⟩, false⟩ (List.replicate 124 .next)
    c.1.counter = ⟨0x36, none, some 1193⟩ ∧ Handled smallBootMainLayout c.1 1 0x21 := by
  intro c
  have hrun := boot_interrupts smallBootMainLayout (fun _ => 0)
    ⟨⟨.wiring, false, true, 8, 0, 0, 0xFF, true⟩, ⟨.mask, true, false, 8, 0, 0, 0, true⟩⟩
    ⟨0x30, some 7, none⟩ (0, 0) ⟨0, 0⟩ (List.replicate 124 .next)
  have hdone : c.2 = [] := by decide
  obtain ⟨hinterrupts, hcounter⟩ := hrun.2 hdone
  have hkeyboard : c.1.pics.vector 2 1 = some 0x21 := by decide
  exact ⟨hcounter, hrun.1 hinterrupts 1 0x21 hkeyboard⟩

end MyOs.Boot
