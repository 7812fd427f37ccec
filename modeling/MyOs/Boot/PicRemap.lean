/-
  The programming of the interrupt controllers: `PIC_remap`, the masks and the status registers.

  1. **Program**: every function is a few reads and writes of ports; `__pic_get_irq_reg` reads what
     its two commands selected.
  2. **One operation** (`PicOp.step_masked`): a mask is changed as a set of lines; a line behind the
     last one is none.
  3. **Runs** (`picRun_refines`): whatever the controllers were doing, `PIC_remap` programs them, and
     every run of the other functions keeps the vectors and the cascade.
-/
import MyOs.Lib.Pic8259
import MyOs.Boot.Pic

namespace MyOs.Boot

open MyOs.Lib.Pic8259
open MyOs.Lib.Bits

/-! ## The program -/

/-- `PIC1_DATA`. -/
def pic1Data : UInt16 := pic1Command + 1

/-- `PIC2_DATA`. -/
def pic2Data : UInt16 := pic2Command + 1

/-- `outb`, at the ports of the controllers.  The writes of `io_wait` go elsewhere. -/
def picOutb (p : Pair) (port : UInt16) (val : UInt8) : Pair :=
  if port = pic1Command then { p with master := p.master.command val }
  else if port = pic1Data then { p with master := p.master.data val }
  else if port = pic2Command then { p with slave := p.slave.command val }
  else if port = pic2Data then { p with slave := p.slave.data val }
  else p

/-- `inb`, at the ports of the controllers, whose registers are `m` and `s` at that time. -/
def picInb (p : Pair) (m s : Registers) (port : UInt16) : UInt8 :=
  if port = pic1Command then p.master.status m
  else if port = pic1Data then p.master.mask
  else if port = pic2Command then p.slave.status s
  else p.slave.mask

/-- `io_wait`. -/
def ioWait : UInt16 × UInt8 := (0x80, 0)

/-- `ICW1_INIT | ICW1_ICW4`. -/
def icw1 : UInt8 := 0x10 ||| 0x01

/-- The writes of `PIC_remap`. -/
def picRemapOutbs (offset1 offset2 : Int32) : List (UInt16 × UInt8) :=
  [(pic1Command, icw1), ioWait, (pic2Command, icw1), ioWait,
    (pic1Data, offset1.toUInt32.toUInt8), ioWait, (pic2Data, offset2.toUInt32.toUInt8), ioWait,
    (pic1Data, (1 : UInt8) <<< 2), ioWait, (pic2Data, 2), ioWait,
    (pic1Data, 0x01), ioWait, (pic2Data, 0x01), ioWait,
    (pic1Data, 0), (pic2Data, 0)]

def picOutbs (p : Pair) (ws : List (UInt16 × UInt8)) : Pair :=
  ws.foldl (fun p w => picOutb p w.1 w.2) p

/-- `PIC_remap`. -/
def picRemap (p : Pair) (offset1 offset2 : Int32) : Pair :=
  picOutbs p (picRemapOutbs offset1 offset2)

/-- `PIC_disable`. -/
def picDisable (p : Pair) : Pair := picOutbs p [(pic1Data, 0xff), (pic2Data, 0xff)]

/-- The port and the number of a line, as `IRQ_set_mask` and `IRQ_clear_mask` choose them. -/
def irqPort (irqLine : UInt8) : UInt16 × UInt8 :=
  if irqLine < 8 then (pic1Data, irqLine) else (pic2Data, irqLine - 8)

/-- The body that the two functions share: `1 << IRQline` is an `int`, the value a byte again. -/
def irqUpdateMask (f : UInt32 → UInt32 → UInt32) (p : Pair) (m s : Registers) (irqLine : UInt8) :
    Pair :=
  let (port, irqLine) := irqPort irqLine
  let value := (f (picInb p m s port).toUInt32 (1 <<< irqLine.toUInt32)).toUInt8
  picOutb p port value

/-- `IRQ_set_mask`. -/
def irqSetMask : Pair → Registers → Registers → UInt8 → Pair :=
  irqUpdateMask fun value bit => value ||| bit

/-- `IRQ_clear_mask`. -/
def irqClearMask : Pair → Registers → Registers → UInt8 → Pair :=
  irqUpdateMask fun value bit => value &&& ~~~bit

/-- `PIC_READ_IRR`. -/
def picReadIrr : UInt8 := 0x0a

/-- `PIC_READ_ISR`. -/
def picReadIsr : UInt8 := 0x0b

/-- `__pic_get_irq_reg`. -/
def picGetIrqReg (p : Pair) (m s : Registers) (ocw3 : UInt8) : Pair × UInt16 :=
  let p := picOutbs p [(pic1Command, ocw3), (pic2Command, ocw3)]
  (p, ((picInb p m s pic2Command).toUInt16 <<< 8) ||| (picInb p m s pic1Command).toUInt16)

/-- `pic_get_irr`. -/
def picGetIrr (p : Pair) (m s : Registers) : Pair × UInt16 := picGetIrqReg p m s picReadIrr

/-- `pic_get_isr`. -/
def picGetIsr (p : Pair) (m s : Registers) : Pair × UInt16 := picGetIrqReg p m s picReadIsr

/-! ## Runs -/

/-- What is done to the controllers behind `PIC_remap`: calls of the functions, and the end of
    interrupt of a handler. -/
inductive PicOp where
  | setMask (irqLine : UInt8)
  | clearMask (irqLine : UInt8)
  | disable
  | sendEOI (irq : Fin 16)
  | handler (h : CHandler)
  | getIrr
  | getIsr
  deriving DecidableEq

/-- `1 << IRQline` is defined. -/
def PicOp.Defined : PicOp → Prop
  | .setMask irqLine => irqLine.toNat < 8 + 31
  | .clearMask irqLine => irqLine.toNat < 8 + 31
  | _ => True

/-- An operation, with the registers of the controllers at that time. -/
def picStep (p : Pair) (e : PicOp × Registers × Registers) : Pair :=
  match e with
  | (.setMask irqLine, m, s) => irqSetMask p m s irqLine
  | (.clearMask irqLine, m, s) => irqClearMask p m s irqLine
  | (.disable, _, _) => picDisable p
  | (.sendEOI irq, _, _) => picOutbs p (picSendEOI irq)
  | (.handler h, _, _) => picOutbs p (controllerOutbs h)
  | (.getIrr, m, s) => (picGetIrr p m s).1
  | (.getIsr, m, s) => (picGetIsr p m s).1

def picRun (p : Pair) (ops : List (PicOp × Registers × Registers)) : Pair := ops.foldl picStep p

/-- What an operation means for the set of masked lines. -/
def PicOp.maskStep (M : Finset (Fin 16)) : PicOp → Finset (Fin 16)
  | .setMask irqLine => if h : irqLine.toNat < 16 then insert ⟨irqLine.toNat, h⟩ M else M
  | .clearMask irqLine => if h : irqLine.toNat < 16 then M.erase ⟨irqLine.toNat, h⟩ else M
  | .disable => Finset.univ
  | _ => M

def maskRun (M : Finset (Fin 16)) (ops : List (PicOp × Registers × Registers)) :
    Finset (Fin 16) := ops.foldl (fun M e => PicOp.maskStep M e.1) M

/-! ## One operation -/

variable {p : Pair} {m s : Registers} {M : Finset (Fin 16)} {offset1 offset2 : UInt8}

/-- Programmed by `PIC_remap`. -/
structure Programmed (offset1 offset2 : UInt8) (p : Pair) : Prop where
  cascaded : p.Cascaded 2
  master : p.master.offset = offset1
  slave : p.slave.offset = offset2

theorem picRemap_eq (p : Pair) (offset1 offset2 : Int32) :
    picRemap p offset1 offset2
      = ⟨⟨.mask, true, false, offset1.toUInt32.toUInt8, 4, 1, 0, false⟩,
        ⟨.mask, true, false, offset2.toUInt32.toUInt8, 2, 1, 0, false⟩⟩ := rfl

theorem programmed_picRemap (p : Pair) (offset1 offset2 : Int32) :
    Programmed offset1.toUInt32.toUInt8 offset2.toUInt32.toUInt8 (picRemap p offset1 offset2) := by
  have hmode : (1 : UInt8).toNat.testBit 0 = true := by decide
  rw [picRemap_eq]
  exact ⟨⟨⟨rfl, hmode, rfl⟩, ⟨rfl, hmode, rfl⟩, rfl, rfl⟩, rfl, rfl⟩

theorem masked_picRemap (p : Pair) (offset1 offset2 : Int32) :
    (picRemap p offset1 offset2).masked = ∅ := by
  have hmask : ∀ line, ((picRemap p offset1 offset2).controller line).mask = 0 := by
    intro line
    unfold Pair.controller
    split
    · rfl
    · rfl
  ext line
  simp [hmask]

/-- A change of the masks keeps the rest. -/
theorem Programmed.modify (h : Programmed offset1 offset2 p) (line : Fin 16)
    (f : Controller → UInt8) :
    Programmed offset1 offset2 (p.modify line fun c => { c with mask := f c }) := by
  obtain ⟨⟨hmaster, hslave, hwiring⟩, hoffset1, hoffset2⟩ := h
  unfold Pair.modify
  split
  · exact ⟨⟨hmaster, hslave, hwiring⟩, hoffset1, hoffset2⟩
  · exact ⟨⟨hmaster, hslave, hwiring⟩, hoffset1, hoffset2⟩

/-- A line of the controllers. -/
theorem irqUpdateMask_of_lt (h : p.Cascaded 2) (f : UInt32 → UInt32 → UInt32) {irqLine : UInt8}
    (hline : irqLine.toNat < 16) :
    irqUpdateMask f p m s irqLine = p.modify ⟨irqLine.toNat, hline⟩ fun c =>
      { c with mask := (f c.mask.toUInt32
        (1 <<< (UInt8.ofNat (Pair.input ⟨irqLine.toNat, hline⟩)).toUInt32)).toUInt8 } := by
  obtain ⟨hmaster, hslave, -⟩ := h
  unfold irqUpdateMask irqPort Pair.modify Pair.input
  by_cases hlt : irqLine < 8
  · have hnat : irqLine.toNat < 8 := UInt8.lt_iff_toNat_lt.mp hlt
    have hinput : UInt8.ofNat (irqLine.toNat % 8) = irqLine := by
      rw [Nat.mod_eq_of_lt hnat, UInt8.ofNat_toNat]
    rw [if_pos hlt, if_pos hnat, hinput]
    show { p with master := p.master.data _ } = _
    rw [data_of_ready hmaster]
    rfl
  · have hnat : 8 ≤ irqLine.toNat := by
      rw [UInt8.lt_iff_toNat_lt, Nat.not_lt] at hlt
      exact hlt
    have hinput : UInt8.ofNat (irqLine.toNat % 8) = irqLine - 8 := by
      apply UInt8.toNat_inj.mp
      rw [UInt8.toNat_ofNat', UInt8.toNat_sub_of_le _ _ (UInt8.not_lt.mp hlt)]
      simp only [UInt8.reduceToNat]
      omega
    rw [if_neg hlt, if_neg (Nat.not_lt.mpr hnat), hinput]
    show { p with slave := p.slave.data _ } = _
    rw [data_of_ready hslave]
    rfl

/-- A line behind the last one: its bit is not in the byte. -/
theorem irqUpdateMask_of_le (h : p.Cascaded 2) {f : UInt32 → UInt32 → UInt32}
    (hf : ∀ (v : UInt8) b, b.toUInt8 = 0 → (f v.toUInt32 b).toUInt8 = v) {irqLine : UInt8}
    (hle : 16 ≤ irqLine.toNat) (hlt : irqLine.toNat < 8 + 31) :
    irqUpdateMask f p m s irqLine = p := by
  have hslave : ¬ irqLine < 8 := by
    rw [UInt8.lt_iff_toNat_lt, Nat.not_lt]
    exact Nat.le_trans (by decide) hle
  have hsub : (irqLine - 8).toNat = irqLine.toNat - 8 :=
    UInt8.toNat_sub_of_le _ _ (UInt8.not_lt.mp hslave)
  have hbit : ((1 : UInt32) <<< (irqLine - 8).toUInt32).toUInt8 = 0 :=
    toUInt8_one_shl_eq_zero (by omega) (by omega)
  unfold irqUpdateMask irqPort
  rw [if_neg hslave]
  show { p with slave := p.slave.data (f p.slave.mask.toUInt32 _).toUInt8 } = p
  rw [hf _ _ hbit, data_of_ready h.2.1]

/-- An end of interrupt is not about the programming. -/
theorem picOutbs_sendEOI (p : Pair) (irq : Fin 16) : picOutbs p (picSendEOI irq) = p := by
  unfold picSendEOI
  split
  · rfl
  · rfl

theorem picOutbs_handler (p : Pair) (h : CHandler) : picOutbs p (controllerOutbs h) = p := by
  cases h
  all_goals rfl

theorem masked_disable (h : p.Cascaded 2) : (picDisable p).masked = Finset.univ := by
  have hdisable : picDisable p = ⟨p.master.data 0xff, p.slave.data 0xff⟩ := rfl
  rw [hdisable, data_of_ready h.1, data_of_ready h.2.1]
  ext line
  have hbit := testBit_ff (Pair.input line).isLt
  rw [mem_masked_pair, mem_masked]
  unfold Pair.controller
  split
  · simpa using hbit
  · simpa using hbit

theorem Programmed.disable (h : Programmed offset1 offset2 p) :
    Programmed offset1 offset2 (picDisable p) := by
  obtain ⟨⟨hmaster, hslave, hwiring⟩, hoffset1, hoffset2⟩ := h
  have hdisable : picDisable p = ⟨p.master.data 0xff, p.slave.data 0xff⟩ := rfl
  rw [hdisable, data_of_ready hmaster, data_of_ready hslave]
  exact ⟨⟨hmaster, hslave, hwiring⟩, hoffset1, hoffset2⟩

/-- The number of a line at its controller fits into the byte. -/
theorem toNat_input_lt (line : Fin 16) : (UInt8.ofNat (Pair.input line).val).toNat < 8 := by
  rw [UInt8.toNat_ofNat', Nat.mod_eq_of_lt (Nat.lt_trans (Pair.input line).isLt (by decide))]
  exact (Pair.input line).isLt

theorem or_outside (v : UInt8) (b : UInt32) (hb : b.toUInt8 = 0) :
    (v.toUInt32 ||| b).toUInt8 = v := by
  rw [UInt32.toUInt8_or, hb, UInt8.toUInt8_toUInt32, UInt8.or_zero]

theorem and_not_outside (v : UInt8) (b : UInt32) (hb : b.toUInt8 = 0) :
    (v.toUInt32 &&& ~~~b).toUInt8 = v := by
  rw [UInt32.toUInt8_and, UInt32.toUInt8_not, hb, UInt8.toUInt8_toUInt32]
  simp

/-- **`IRQ_set_mask`** of a line. -/
theorem masked_irqSetMask (h : p.Cascaded 2) {irqLine : UInt8} (hlt : irqLine.toNat < 16) :
    (irqSetMask p m s irqLine).masked = insert ⟨irqLine.toNat, hlt⟩ p.masked := by
  unfold irqSetMask
  rw [irqUpdateMask_of_lt h _ hlt, ← masked_modify_set]
  simp only [UInt32.toUInt8_or, UInt8.toUInt8_toUInt32, toUInt8_one_shl (toNat_input_lt _)]

/-- **`IRQ_clear_mask`** of a line. -/
theorem masked_irqClearMask (h : p.Cascaded 2) {irqLine : UInt8} (hlt : irqLine.toNat < 16) :
    (irqClearMask p m s irqLine).masked = p.masked.erase ⟨irqLine.toNat, hlt⟩ := by
  unfold irqClearMask
  rw [irqUpdateMask_of_lt h _ hlt, ← masked_modify_clear]
  simp only [UInt32.toUInt8_and, UInt32.toUInt8_not, UInt8.toUInt8_toUInt32,
    toUInt8_one_shl (toNat_input_lt _)]

theorem Programmed.updateMask (h : Programmed offset1 offset2 p) {f : UInt32 → UInt32 → UInt32}
    (hf : ∀ (v : UInt8) b, b.toUInt8 = 0 → (f v.toUInt32 b).toUInt8 = v) {irqLine : UInt8}
    (hdef : irqLine.toNat < 8 + 31) :
    Programmed offset1 offset2 (irqUpdateMask f p m s irqLine) := by
  rcases Nat.lt_or_ge irqLine.toNat 16 with hlt | hge
  · rw [irqUpdateMask_of_lt h.cascaded f hlt]
    exact h.modify _ _
  · rwa [irqUpdateMask_of_le h.cascaded hf hge hdef]

variable {e : PicOp × Registers × Registers}

/-- **One operation** keeps the programming. -/
theorem Programmed.step (h : Programmed offset1 offset2 p) (hdef : e.1.Defined) :
    Programmed offset1 offset2 (picStep p e) := by
  obtain ⟨op, m, s⟩ := e
  cases op with
  | setMask irqLine =>
    show Programmed _ _ (irqSetMask p m s irqLine)
    unfold irqSetMask
    exact h.updateMask or_outside hdef
  | clearMask irqLine =>
    show Programmed _ _ (irqClearMask p m s irqLine)
    unfold irqClearMask
    exact h.updateMask and_not_outside hdef
  | disable => exact h.disable
  | sendEOI irq =>
    show Programmed _ _ (picOutbs p (picSendEOI irq))
    rwa [picOutbs_sendEOI]
  | handler c =>
    show Programmed _ _ (picOutbs p (controllerOutbs c))
    rwa [picOutbs_handler]
  | getIrr => exact ⟨h.cascaded, h.master, h.slave⟩
  | getIsr => exact ⟨h.cascaded, h.master, h.slave⟩

/-- **One operation** on the set of masked lines. -/
theorem PicOp.step_masked (h : p.Cascaded 2) (hdef : e.1.Defined) :
    (picStep p e).masked = e.1.maskStep p.masked := by
  obtain ⟨op, m, s⟩ := e
  cases op with
  | setMask irqLine =>
    show (irqSetMask p m s irqLine).masked = dite _ _ _
    rcases Nat.lt_or_ge irqLine.toNat 16 with hlt | hge
    · rw [dif_pos hlt, masked_irqSetMask h hlt]
    · rw [dif_neg (Nat.not_lt.mpr hge)]
      exact congrArg Pair.masked (irqUpdateMask_of_le h or_outside hge hdef)
  | clearMask irqLine =>
    show (irqClearMask p m s irqLine).masked = dite _ _ _
    rcases Nat.lt_or_ge irqLine.toNat 16 with hlt | hge
    · rw [dif_pos hlt, masked_irqClearMask h hlt]
    · rw [dif_neg (Nat.not_lt.mpr hge)]
      exact congrArg Pair.masked (irqUpdateMask_of_le h and_not_outside hge hdef)
  | disable => exact masked_disable h
  | sendEOI irq => exact congrArg Pair.masked (picOutbs_sendEOI p irq)
  | handler c => exact congrArg Pair.masked (picOutbs_handler p c)
  | getIrr => rfl
  | getIsr => rfl

/-! ## Runs of the functions -/

variable {ops : List (PicOp × Registers × Registers)}

/-- A run keeps the programming, and the masks are those of the run on sets. -/
theorem Programmed.run (h : Programmed offset1 offset2 p) (hdef : ∀ e ∈ ops, e.1.Defined) :
    Programmed offset1 offset2 (picRun p ops) ∧ (picRun p ops).masked = maskRun p.masked ops := by
  induction ops generalizing p with
  | nil => exact ⟨h, rfl⟩
  | cons e ops ih =>
    have hfirst := hdef e List.mem_cons_self
    have hrest := ih (h.step hfirst) fun e' he' => hdef e' (List.mem_cons_of_mem e he')
    rw [PicOp.step_masked h.cascaded hfirst] at hrest
    exact hrest

/-- The vector of a line, with these offsets. -/
def remappedVector (offset1 offset2 : UInt8) (line : Fin 16) : UInt8 :=
  (if line.val < 8 then offset1 else offset2) / 8 * 8 + UInt8.ofNat (line.val % 8)

theorem Programmed.vector (h : Programmed offset1 offset2 p) (line : Fin 16) :
    p.vector 2 line = if line = 2 ∨ line ∈ p.masked ∨ 8 ≤ line ∧ 2 ∈ p.masked then none
      else some (remappedVector offset1 offset2 line) := by
  have hcascade : Fin.castAdd 8 (2 : Fin 8) = 2 := rfl
  unfold Pair.vector
  rw [hcascade]
  by_cases hdelivered : line = 2 ∨ line ∈ p.masked ∨ 8 ≤ line ∧ 2 ∈ p.masked
  · rw [if_pos hdelivered, if_neg]
    rintro ⟨-, hne, hline, hsecond⟩
    rcases hdelivered with rfl | hmasked | ⟨hle, hmasked⟩
    · exact hne rfl
    · exact hline hmasked
    · exact hsecond hle hmasked
  · rw [if_neg hdelivered, if_pos]
    · rw [remappedVector, Controller.vector, Pair.controller]
      split
      · rw [h.master]
        rfl
      · rw [h.slave]
        rfl
    · simp only [not_or, not_and] at hdelivered
      exact ⟨h.cascaded, hdelivered⟩

/-- **The controllers behind `PIC_remap`.**  Whatever they were doing before, also in the middle of an
    initialization, in every run of the functions and of ends of interrupt a line is delivered with
    the vector that the offsets give it, and not at all exactly when it was masked, or the cascade
    when the line is behind it.  `pic_get_irr` and `pic_get_isr` read the requests and what is in
    service, whichever was read before. -/
theorem picRun_refines (p : Pair) (offset1 offset2 : Int32)
    (ops : List (PicOp × Registers × Registers)) (hdef : ∀ e ∈ ops, e.1.Defined) :
    let p' := picRun (picRemap p offset1 offset2) ops
    let M := maskRun ∅ ops
    (∀ line, p'.vector 2 line = if line = 2 ∨ line ∈ M ∨ 8 ≤ line ∧ 2 ∈ M then none
      else some (remappedVector offset1.toUInt32.toUInt8 offset2.toUInt32.toUInt8 line)) ∧
    ∀ m s : Registers,
      (picGetIrr p' m s).2 = (s.request.toUInt16 <<< 8) ||| m.request.toUInt16 ∧
      (picGetIsr p' m s).2 = (s.inService.toUInt16 <<< 8) ||| m.inService.toUInt16 := by
  have hrun := (programmed_picRemap p offset1 offset2).run hdef
  rw [masked_picRemap] at hrun
  refine ⟨fun line => ?_, fun m s => ⟨rfl, rfl⟩⟩
  rw [hrun.1.vector, hrun.2]

/-- A controller that waits for the second word of an initialization. -/
theorem picRun_refines_mouse :
    (picRun (picRemap ⟨⟨.offset, true, true, 0, 0, 0, 0xFF, true⟩, ⟨.mask, false, true, 8, 9, 0, 0, true⟩⟩
      0x20 0x28) [(.disable, ⟨0, 0⟩, ⟨0, 0⟩), (.clearMask 12, ⟨0, 0⟩, ⟨0, 0⟩),
        (.clearMask 2, ⟨0, 0⟩, ⟨0, 0⟩)]).vector 2 12 = some 0x2C :=
  ((picRun_refines _ _ _ _ (by simp [PicOp.Defined])).1 12).trans (by decide)

end MyOs.Boot
