/-
  A keyboard controller of the type 8042.

  It is told what to do through a command port, and what follows a command goes through a data port,
  which is also read: for the configuration byte, for the result of a test, or for the answer of a
  device.  The bits of the configuration byte are the interrupts of the two devices (0 and 1), their
  clocks (4 and 5, set when stopped) and the translation of the keyboard's codes (6).

  It is a prompt one: an answer is in the output buffer when the data port is read next, and nothing
  comes there but answers.  So there is no status register, and a read does not empty the buffer.

  1. **Boards**: what a self test does to the configuration, whether there is a second device, and
     what tests and devices answer, is fixed by the board.
  2. **Bits** (`bit_command`): what a command does to the configuration, bit by bit.
-/
import MyOs.Lib.Bits

namespace MyOs.Lib.I8042

open MyOs.Lib.Bits

/-- What the next byte at the data port is for. -/
inductive Target where
  | keyboard
  | config
  | second
  deriving DecidableEq

/-- What a controller and its devices are like. -/
structure Board where
  selfTest : UInt8
  afterSelfTest : UInt8 → UInt8
  hasSecond : Bool
  testFirst : UInt8
  testSecond : UInt8
  keyboardAnswer : UInt8 → UInt8
  secondAnswer : UInt8 → UInt8

structure Controller where
  config : UInt8
  /-- The last answer. -/
  output : UInt8
  target : Target
  /-- What the keyboard was sent. -/
  sent : List UInt8
  /-- What the second device was sent. -/
  sentSecond : List UInt8
  deriving DecidableEq

namespace Controller

variable (B : Board) (c : Controller)

/-- What a command does to the configuration byte. -/
def configured (config w : UInt8) : UInt8 :=
  if w = 0xAD then config ||| 1 <<< (4 : UInt8)
  else if w = 0xAE then config &&& ~~~(1 <<< (4 : UInt8))
  else if w = 0xA7 then if B.hasSecond then config ||| 1 <<< (5 : UInt8) else config
  else if w = 0xA8 then if B.hasSecond then config &&& ~~~(1 <<< (5 : UInt8)) else config
  else if w = 0xAA then B.afterSelfTest config
  else config

/-- What is there to be read behind a command. -/
def answer (w : UInt8) : UInt8 :=
  if w = 0x20 then c.config
  else if w = 0xAA then B.selfTest
  else if w = 0xAB then B.testFirst
  else if w = 0xA9 then B.testSecond
  else c.output

/-- Where the byte behind a command goes. -/
def targetOf (w : UInt8) : Target :=
  if w = 0x60 then .config else if w = 0xD4 then .second else .keyboard

/-- A write to the command port. -/
def command (w : UInt8) : Controller :=
  { c with config := configured B c.config w, output := c.answer B w, target := targetOf w }

/-- A write to the data port. -/
def write (w : UInt8) : Controller :=
  match c.target with
  | .config => { c with config := w, target := .keyboard }
  | .keyboard => { c with output := B.keyboardAnswer w, sent := c.sent ++ [w] }
  | .second =>
    if B.hasSecond then
      { c with output := B.secondAnswer w, sentSecond := c.sentSecond ++ [w], target := .keyboard }
    else { c with target := .keyboard }

/-- A bit of the configuration byte. -/
def bit (j : Nat) : Bool := c.config.toNat.testBit j

/-- The keys of the keyboard interrupt the processor. -/
def KeyboardOn : Prop := c.bit 0 = true ∧ c.bit 4 = false

instance : Decidable c.KeyboardOn := inferInstanceAs (Decidable (_ ∧ _))

/-- So does the second device. -/
def SecondOn : Prop := c.bit 1 = true ∧ c.bit 5 = false

instance : Decidable c.SecondOn := inferInstanceAs (Decidable (_ ∧ _))

end Controller

variable {B : Board} {j : Nat}

/-- **What the commands for the clocks do**, bit by bit. -/
@[simp] theorem testBit_stopFirst (B : Board) (config : UInt8) (j : Nat) :
    (Controller.configured B config 0xAD).toNat.testBit j
      = (decide (4 = j) || config.toNat.testBit j) :=
  testBit_or_one_shl config 4 j (by decide)

@[simp] theorem testBit_startFirst (B : Board) (config : UInt8) (hj : j < 8) :
    (Controller.configured B config 0xAE).toNat.testBit j
      = (!decide (4 = j) && config.toNat.testBit j) :=
  testBit_and_not_one_shl config 4 j (by decide) hj

@[simp] theorem testBit_stopSecond (B : Board) (config : UInt8) (j : Nat) :
    (Controller.configured B config 0xA7).toNat.testBit j
      = (B.hasSecond && decide (5 = j) || config.toNat.testBit j) := by
  have hset : Controller.configured B config 0xA7
      = if B.hasSecond then config ||| 1 <<< (5 : UInt8) else config := rfl
  rw [hset]
  cases B.hasSecond with
  | false => rfl
  | true => exact testBit_or_one_shl config 5 j (by decide)

@[simp] theorem testBit_startSecond (B : Board) (config : UInt8) (hj : j < 8) :
    (Controller.configured B config 0xA8).toNat.testBit j
      = (!(B.hasSecond && decide (5 = j)) && config.toNat.testBit j) := by
  have hclear : Controller.configured B config 0xA8
      = if B.hasSecond then config &&& ~~~(1 <<< (5 : UInt8)) else config := rfl
  rw [hclear]
  cases B.hasSecond with
  | false => rfl
  | true => exact testBit_and_not_one_shl config 5 j (by decide) hj

end MyOs.Lib.I8042
