/-
  `setup_PS2`: the keyboard controller before the first key.

  The source waits with `io_wait` and never reads the status register, so what is said here is about
  controllers and devices that have answered by then, and send nothing else; and no interrupt of the
  keyboard is taken in between, whose handler would read the data port too.

  1. **Program** (`setupPs2`): commands, and decisions by what is read in between, in the stages that
     the comments of the source name.
  2. **Stages**: what each of them leaves, on any board.
  3. **Outcome** (`setupPs2_outcome`): whatever the controller was doing, which boards are accepted,
     and which interrupts are on afterwards.  The codes of the keyboard are not translated unless the
     self test turns that on again; nothing looks at it behind the self test.
-/
import MyOs.Boot.PicRemap
import MyOs.Lib.I8042

namespace MyOs.Drivers

open MyOs.Boot MyOs.Lib.Bits MyOs.Lib.I8042

/-! ## The program -/

/-- `DATA_PORT`. -/
def ps2DataPort : UInt16 := 0x60

/-- `COMMAND_REG`. -/
def commandReg : UInt16 := 0x64

/-- `outb`, at the ports of the controller. -/
def ps2Outb (B : Board) (c : Controller) (port : UInt16) (val : UInt8) : Controller :=
  if port = commandReg then c.command B val
  else if port = ps2DataPort then c.write B val
  else c

def ps2Outbs (B : Board) (c : Controller) (ws : List (UInt16 × UInt8)) : Controller :=
  ws.foldl (fun c w => ps2Outb B c w.1 w.2) c

/-- `inb(DATA_PORT)`. -/
def ps2Inb (c : Controller) : UInt8 := c.output

/-- Both ports are disabled, the output buffer is flushed, the configuration byte is changed, and the
    self test is begun. -/
def ps2SelfTest (B : Board) (c : Controller) : Controller :=
  let c := ps2Outbs B c [(commandReg, 0xAD), ioWait, (commandReg, 0xA7), ioWait]
  let c := ps2Outbs B c [ioWait, (commandReg, 0x20), ioWait]
  let configByte := ps2Inb c &&& 0b10100110
  ps2Outbs B c [ioWait, (commandReg, 0x60), ioWait, (ps2DataPort, configByte), ioWait,
    (commandReg, 0xAA), ioWait]

/-- "Check if 2 channel PS/2". -/
def ps2DualChannel (B : Board) (c : Controller) : Bool × Controller :=
  let c := ps2Outbs B c [ioWait, (commandReg, 0xA8), ioWait, (commandReg, 0x20), ioWait]
  if ps2Inb c &&& 0b00100000 = 0 then
    (true, ps2Outbs B c [ioWait, (commandReg, 0xA7), ioWait])
  else (false, ps2Outbs B c [ioWait])

/-- "Test port 2 if present". -/
def ps2TestSecond (B : Board) (dualChannel : Bool) (c : Controller) : Bool × Controller :=
  if dualChannel then
    let c := ps2Outbs B c [(commandReg, 0xA9), ioWait]
    (if ps2Inb c ≠ 0x00 then false else true, ps2Outbs B c [ioWait])
  else (false, c)

/-- The ports are enabled, and their interrupts and clocks in the configuration byte. -/
def ps2Enable (B : Board) (dualChannel : Bool) (c : Controller) : Controller :=
  let c := ps2Outbs B c [(commandReg, 0xAE), ioWait]
  let c := if dualChannel then ps2Outbs B c [(commandReg, 0xA8), ioWait] else c
  let c := ps2Outbs B c [(commandReg, 0x20), ioWait]
  let configByte := (ps2Inb c ||| 0b00000001) &&& ~~~0b00010000
  let configByte :=
    if dualChannel then (configByte ||| 0b00000010) &&& ~~~0b00100000 else configByte
  ps2Outbs B c [ioWait, (commandReg, 0x60), ioWait, (ps2DataPort, configByte), ioWait]

/-- The devices are reset.  Nothing depends on the answer of the second one. -/
def ps2Reset (B : Board) (dualChannel : Bool) (c : Controller) : Bool × Controller :=
  let c := ps2Outbs B c [(ps2DataPort, 0xFF), ioWait]
  if ps2Inb c ≠ 0xFA then (false, c)
  else
    let c := ps2Outbs B c [ioWait]
    (true, if dualChannel then
      ps2Outbs B c [(commandReg, 0xD4), ioWait, (ps2DataPort, 0xFF), ioWait, ioWait] else c)

/-- `setup_PS2`. -/
def setupPs2 (B : Board) (c : Controller) : Bool × Controller :=
  let c := ps2SelfTest B c
  if ps2Inb c ≠ 0x55 then (false, c)
  else
    let (dualChannel, c) := ps2DualChannel B c
    let c := ps2Outbs B c [(commandReg, 0xAB), ioWait]
    if ps2Inb c ≠ 0x00 then (false, c)
    else
      let c := ps2Outbs B c [ioWait]
      let (dualChannel, c) := ps2TestSecond B dualChannel c
      ps2Reset B dualChannel (ps2Enable B dualChannel c)

/-! ## The stages -/

section Stages

variable (B : Board) (c : Controller)

/-- What is written before the self test: both ports disabled, neither interrupts of the keyboard nor
    translation. -/
def quietConfig (B : Board) (config : UInt8) : UInt8 :=
  Controller.configured B (Controller.configured B config 0xAD) 0xA7 &&& 0b10100110

/-- What the self test leaves. -/
def testedConfig (B : Board) (config : UInt8) : UInt8 := B.afterSelfTest (quietConfig B config)

theorem ps2SelfTest_eq : ps2SelfTest B c
    = ⟨testedConfig B c.config, B.selfTest, .keyboard, c.sent, c.sentSecond⟩ := rfl

/-- The second device is found. -/
theorem dualChannel_iff (config : UInt8) : Controller.configured B config 0xA8 &&& 0b00100000 = 0 ↔
    B.hasSecond = true ∨ config.toNat.testBit 5 = false := by
  have hbit := and_one_shl_eq_zero_iff (Controller.configured B config 0xA8) 5 (by decide)
  have hstart := testBit_startSecond B config (j := 5) (by decide)
  refine hbit.trans ?_
  show (Controller.configured B config 0xA8).toNat.testBit 5 = false ↔ _
  rw [hstart]
  cases B.hasSecond <;> simp

/-- Of the configuration, the check changes the clock of the second device only. -/
theorem ps2DualChannel_eq (config output : UInt8) (sent sentSecond : List UInt8) :
    ∃ dualChannel config' output',
      ps2DualChannel B ⟨config, output, .keyboard, sent, sentSecond⟩
        = (dualChannel, ⟨config', output', .keyboard, sent, sentSecond⟩) ∧
      (dualChannel = true ↔ B.hasSecond = true ∨ config.toNat.testBit 5 = false) ∧
      (∀ j, j < 8 → j ≠ 5 → config'.toNat.testBit j = config.toNat.testBit j) ∧
      (B.hasSecond = true → config'.toNat.testBit 5 = true) := by
  have hstart : ∀ j, j < 8 → j ≠ 5 →
      (Controller.configured B config 0xA8).toNat.testBit j = config.toNat.testBit j := by
    intro j hj hne
    rw [testBit_startSecond B config hj, decide_eq_false hne.symm, Bool.and_false, Bool.not_false,
      Bool.true_and]
  by_cases hdual : Controller.configured B config 0xA8 &&& 0b00100000 = 0
  · refine ⟨true, _, _, if_pos hdual, iff_of_true rfl ((dualChannel_iff B config).mp hdual),
      fun j hj hne => ?_, fun hsecond => ?_⟩
    · show (Controller.configured B (Controller.configured B config 0xA8) 0xA7).toNat.testBit j = _
      rw [testBit_stopSecond, decide_eq_false hne.symm, Bool.and_false, Bool.false_or,
        hstart j hj hne]
    · show (Controller.configured B (Controller.configured B config 0xA8) 0xA7).toNat.testBit 5 = _
      rw [testBit_stopSecond, hsecond]
      rfl
  · have hneither := (dualChannel_iff B config).not.mp hdual
    refine ⟨false, _, _, if_neg hdual, iff_of_false Bool.false_ne_true hneither, hstart,
      fun hsecond => ?_⟩
    exact absurd (.inl hsecond) hneither

theorem ps2TestSecond_eq (dualChannel : Bool) (config output : UInt8)
    (sent sentSecond : List UInt8) : ∃ output',
      ps2TestSecond B dualChannel ⟨config, output, .keyboard, sent, sentSecond⟩
        = (dualChannel && decide (B.testSecond = 0),
          ⟨config, output', .keyboard, sent, sentSecond⟩) := by
  cases dualChannel with
  | false => exact ⟨_, rfl⟩
  | true =>
    refine ⟨_, Prod.ext ?_ rfl⟩
    show (if B.testSecond ≠ 0x00 then false else true) = _
    split_ifs with h
    · exact (decide_eq_false h).symm
    · exact (decide_eq_true (not_not.mp h)).symm

/-- What is written behind the tests. -/
def enabledConfig (B : Board) (dualChannel : Bool) (config : UInt8) : UInt8 :=
  let config := Controller.configured B config 0xAE
  let config := if dualChannel then Controller.configured B config 0xA8 else config
  let config := (config ||| 0b00000001) &&& ~~~0b00010000
  if dualChannel then (config ||| 0b00000010) &&& ~~~0b00100000 else config

theorem ps2Enable_eq (dualChannel : Bool) (config output : UInt8) (sent sentSecond : List UInt8) :
    ∃ output', ps2Enable B dualChannel ⟨config, output, .keyboard, sent, sentSecond⟩
      = ⟨enabledConfig B dualChannel config, output', .keyboard, sent, sentSecond⟩ := by
  cases dualChannel with
  | false => exact ⟨_, rfl⟩
  | true => exact ⟨_, rfl⟩

/-- The interrupts and clocks that are enabled, bit by bit. -/
theorem testBit_enabledConfig (dualChannel : Bool) (config : UInt8) {j : Nat} (hj : j < 8) :
    (enabledConfig B dualChannel config).toNat.testBit j
      = (decide (j = 0) || dualChannel && decide (j = 1) ||
        config.toNat.testBit j && !decide (j = 4) && !(dualChannel && decide (j = 5))) := by
  have hfirst : ∀ x : UInt8, ((x ||| 0b00000001) &&& ~~~0b00010000).toNat.testBit j
      = (!decide (4 = j) && (decide (0 = j) || x.toNat.testBit j)) := by
    intro x
    have hclear := testBit_and_not_one_shl (x ||| 0b00000001) 4 j (by decide) hj
    have hset := testBit_or_one_shl x 0 j (by decide)
    exact hclear.trans (congrArg _ hset)
  have hsecond : ∀ x : UInt8, ((x ||| 0b00000010) &&& ~~~0b00100000).toNat.testBit j
      = (!decide (5 = j) && (decide (1 = j) || x.toNat.testBit j)) := by
    intro x
    have hclear := testBit_and_not_one_shl (x ||| 0b00000010) 5 j (by decide) hj
    have hset := testBit_or_one_shl x 1 j (by decide)
    exact hclear.trans (congrArg _ hset)
  cases dualChannel with
  | false =>
    show ((Controller.configured B config 0xAE ||| 0b00000001) &&& ~~~0b00010000).toNat.testBit j = _
    rw [hfirst, testBit_startFirst B config hj]
    clear hfirst hsecond
    generalize config.toNat.testBit j = b
    revert j b
    decide
  | true =>
    show ((((Controller.configured B (Controller.configured B config 0xAE) 0xA8 ||| 0b00000001)
      &&& ~~~0b00010000) ||| 0b00000010) &&& ~~~0b00100000).toNat.testBit j = _
    rw [hsecond, hfirst, testBit_startSecond B _ hj, testBit_startFirst B config hj]
    clear hfirst hsecond
    generalize config.toNat.testBit j = b
    generalize B.hasSecond = second
    revert j b second
    decide

theorem resetSecond_eq (config output : UInt8) (sent sentSecond : List UInt8) :
    ∃ output', ps2Outbs B ⟨config, output, .keyboard, sent, sentSecond⟩
        [(commandReg, 0xD4), ioWait, (ps2DataPort, 0xFF), ioWait, ioWait]
      = ⟨config, output', .keyboard, sent, sentSecond ++ if B.hasSecond then [0xFF] else []⟩ := by
  have hwrite : ps2Outbs B ⟨config, output, .keyboard, sent, sentSecond⟩
      [(commandReg, 0xD4), ioWait, (ps2DataPort, 0xFF), ioWait, ioWait]
        = Controller.write B ⟨config, output, .second, sent, sentSecond⟩ 0xFF := rfl
  rw [hwrite, Controller.write]
  cases B.hasSecond with
  | false => exact ⟨_, by simp; rfl⟩
  | true => exact ⟨_, rfl⟩

/-- What the resets do. -/
theorem ps2Reset_eq (dualChannel : Bool) (config output : UInt8) (sent sentSecond : List UInt8) :
    ∃ output', ps2Reset B dualChannel ⟨config, output, .keyboard, sent, sentSecond⟩
      = (decide (B.keyboardAnswer 0xFF = 0xFA), ⟨config, output', .keyboard, sent ++ [0xFF],
          sentSecond ++ if B.keyboardAnswer 0xFF = 0xFA ∧ dualChannel = true ∧ B.hasSecond = true
            then [0xFF] else []⟩) := by
  have hfirst : ps2Outbs B ⟨config, output, .keyboard, sent, sentSecond⟩
      [(ps2DataPort, 0xFF), ioWait]
        = ⟨config, B.keyboardAnswer 0xFF, .keyboard, sent ++ [0xFF], sentSecond⟩ := rfl
  unfold ps2Reset
  rw [hfirst]
  by_cases hanswer : B.keyboardAnswer 0xFF = 0xFA
  · have hinb : ¬ ps2Inb ⟨config, 0xFA, .keyboard, sent ++ [0xFF], sentSecond⟩ ≠ 0xFA :=
      not_not.mpr rfl
    rw [hanswer]
    dsimp only
    rw [if_neg hinb]
    cases dualChannel with
    | false => exact ⟨_, by simp; rfl⟩
    | true =>
      obtain ⟨output', hsecond⟩ := resetSecond_eq B config 0xFA (sent ++ [0xFF]) sentSecond
      have hwait : ps2Outbs B ⟨config, 0xFA, .keyboard, sent ++ [0xFF], sentSecond⟩ [ioWait]
          = ⟨config, 0xFA, .keyboard, sent ++ [0xFF], sentSecond⟩ := rfl
      refine ⟨output', ?_⟩
      rw [hwait, if_pos rfl, hsecond]
      simp
  · have hinb : ps2Inb ⟨config, B.keyboardAnswer 0xFF, .keyboard, sent ++ [0xFF], sentSecond⟩
        ≠ 0xFA := hanswer
    rw [if_pos hinb, decide_eq_false hanswer, if_neg fun h => hanswer h.1, List.append_nil]
    exact ⟨_, rfl⟩

end Stages

/-! ## The outcome -/

section Outcome

variable (B : Board) (c : Controller)

/-- The controller and the port of the keyboard pass their tests. -/
def PassesTests : Prop := B.selfTest = 0x55 ∧ B.testFirst = 0x00

instance : Decidable (PassesTests B) := inferInstanceAs (Decidable (_ ∧ _))

/-- Behind the self test, up to the devices. -/
theorem setupPs2_eq : ∃ dualChannel config output,
    (dualChannel = true ↔
      B.hasSecond = true ∨ (testedConfig B c.config).toNat.testBit 5 = false) ∧
    (∀ j, j < 8 → j ≠ 5 → config.toNat.testBit j = (testedConfig B c.config).toNat.testBit j) ∧
    (B.hasSecond = true → B.selfTest = 0x55 → config.toNat.testBit 5 = true) ∧
    setupPs2 B c = if PassesTests B then
        ps2Reset B (dualChannel && decide (B.testSecond = 0))
          ⟨enabledConfig B (dualChannel && decide (B.testSecond = 0)) config, output, .keyboard,
            c.sent, c.sentSecond⟩
      else (false, ⟨config, output, .keyboard, c.sent, c.sentSecond⟩) := by
  obtain ⟨dual, config, output, hstage, hdual, hbits, hsecond⟩ :=
    ps2DualChannel_eq B (testedConfig B c.config) B.selfTest c.sent c.sentSecond
  unfold setupPs2
  rw [ps2SelfTest_eq]
  dsimp only
  by_cases hself : B.selfTest = 0x55
  · have hinb : ¬ ps2Inb ⟨testedConfig B c.config, B.selfTest, .keyboard, c.sent, c.sentSecond⟩
        ≠ 0x55 := not_not.mpr hself
    have htest : ps2Outbs B ⟨config, output, .keyboard, c.sent, c.sentSecond⟩
        [(commandReg, 0xAB), ioWait] = ⟨config, B.testFirst, .keyboard, c.sent, c.sentSecond⟩ := rfl
    rw [if_neg hinb, hstage]
    dsimp only
    rw [htest]
    by_cases hfirst : B.testFirst = 0x00
    · have hinb' : ¬ ps2Inb ⟨config, B.testFirst, .keyboard, c.sent, c.sentSecond⟩ ≠ 0x00 :=
        not_not.mpr hfirst
      have hwait : ps2Outbs B ⟨config, B.testFirst, .keyboard, c.sent, c.sentSecond⟩ [ioWait]
          = ⟨config, B.testFirst, .keyboard, c.sent, c.sentSecond⟩ := rfl
      obtain ⟨output₂, hstage₂⟩ :=
        ps2TestSecond_eq B dual config B.testFirst c.sent c.sentSecond
      obtain ⟨output₃, hstage₃⟩ := ps2Enable_eq B (dual && decide (B.testSecond = 0)) config output₂
        c.sent c.sentSecond
      refine ⟨dual, config, output₃, hdual, hbits, fun h _ => hsecond h, ?_⟩
      rw [if_neg hinb', if_pos ⟨hself, hfirst⟩, hwait, hstage₂]
      dsimp only
      rw [hstage₃]
    · have hinb' : ps2Inb ⟨config, B.testFirst, .keyboard, c.sent, c.sentSecond⟩ ≠ 0x00 := hfirst
      refine ⟨dual, config, B.testFirst, hdual, hbits, fun h _ => hsecond h, ?_⟩
      rw [if_pos hinb', if_neg fun h => hfirst h.2]
  · have hinb : ps2Inb ⟨testedConfig B c.config, B.selfTest, .keyboard, c.sent, c.sentSecond⟩
        ≠ 0x55 := hself
    refine ⟨dual, testedConfig B c.config, B.selfTest, hdual, fun _ _ _ => rfl,
      fun _ h => absurd h hself, ?_⟩
    rw [if_pos hinb, if_neg fun h => hself h.1]

/-- Without the keyboard's interrupt, and without translation. -/
theorem testBit_quietConfig (config : UInt8) : (quietConfig B config).toNat.testBit 0 = false ∧
    (quietConfig B config).toNat.testBit 6 = false := by
  have hinterrupt : (0b10100110 : UInt8).toNat.testBit 0 = false := by decide
  have htranslation : (0b10100110 : UInt8).toNat.testBit 6 = false := by decide
  unfold quietConfig
  constructor
  · rw [UInt8.toNat_and, Nat.testBit_and, hinterrupt, Bool.and_false]
  · rw [UInt8.toNat_and, Nat.testBit_and, htranslation, Bool.and_false]

end Outcome

/-- One device, and a self test that turns the translation on again. -/
def translatingBoard : Board where
  selfTest := 0x55
  afterSelfTest := fun _ => 0x61
  hasSecond := false
  testFirst := 0
  testSecond := 0
  keyboardAnswer := fun _ => 0xFA
  secondAnswer := fun _ => 0

example : (setupPs2 translatingBoard ⟨0, 0, .keyboard, [], []⟩).1 = true ∧
    (setupPs2 translatingBoard ⟨0, 0, .keyboard, [], []⟩).2.bit 6 = true := by decide

end MyOs.Drivers
