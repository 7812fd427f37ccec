/-
  Two cascaded interrupt controllers of the type 8259.

  A controller is programmed through two ports.  A command with bit 4 begins its initialization: the
  words that follow at the data port are its vector offset, its wiring and its mode, as many of them
  as the command announces; afterwards the data port is its mask.  The mode has no effect here but for
  bit 0, without which a controller does not talk to the processor of the PC.

  1. **Initialization** (`initialize_eq`): four words program a controller, whatever it was doing.
  2. **Masks** (`masked_set`, `masked_clear`): a mask is a set of inputs.
  3. **A pair** (`Pair.vector_eq`): the vector that a line is delivered with.
-/
import Mathlib.Data.Fintype.Basic
import Mathlib.Order.Fin.Basic
import MyOs.Lib.Bits

namespace MyOs.Lib.Pic8259

open MyOs.Lib.Bits

/-! ## A controller -/

/-- What the next word at the data port is. -/
inductive Expect where
  | offset
  | wiring
  | mode
  | mask
  deriving DecidableEq

structure Controller where
  expect : Expect
  /-- The first word announced the mode. -/
  withMode : Bool
  /-- The first word said that there is one controller only. -/
  single : Bool
  offset : UInt8
  wiring : UInt8
  mode : UInt8
  mask : UInt8
  /-- The command port is read as the requests in service, not as those that wait. -/
  readsInService : Bool
  deriving DecidableEq

/-- The two registers of a controller that its inputs change. -/
structure Registers where
  request : UInt8
  inService : UInt8

namespace Controller

/-- A write to the command port.  An end of interrupt changes only the register in service. -/
def command (c : Controller) (w : UInt8) : Controller :=
  if w.toNat.testBit 4 then
    { c with
      expect := .offset
      withMode := w.toNat.testBit 0
      single := w.toNat.testBit 1
      mode := if w.toNat.testBit 0 then c.mode else 0
      mask := 0
      readsInService := false }
  else if w.toNat.testBit 3 then
    if w.toNat.testBit 1 then { c with readsInService := w.toNat.testBit 0 } else c
  else c

/-- Behind the wiring, or behind the offset of a single controller. -/
def expectMode (withMode : Bool) : Expect := if withMode then .mode else .mask

/-- A write to the data port. -/
def data (c : Controller) (w : UInt8) : Controller :=
  match c.expect with
  | .offset => { c with
      offset := w, expect := if c.single then expectMode c.withMode else .wiring }
  | .wiring => { c with wiring := w, expect := expectMode c.withMode }
  | .mode => { c with mode := w, expect := .mask }
  | .mask => { c with mask := w }

/-- What the command port is read as. -/
def status (c : Controller) (r : Registers) : UInt8 :=
  if c.readsInService then r.inService else r.request

/-- Initialized, in the mode of the PC, and not the only one. -/
def Ready (c : Controller) : Prop :=
  c.expect = .mask ∧ c.mode.toNat.testBit 0 = true ∧ c.single = false

instance (c : Controller) : Decidable c.Ready := inferInstanceAs (Decidable (_ ∧ _ ∧ _))

/-- The inputs that are not delivered. -/
def masked (c : Controller) : Finset (Fin 8) := {i | c.mask.toNat.testBit i}

/-- The vector of an input: its number in the low bits, the offset in the others. -/
def vector (c : Controller) (i : Fin 8) : UInt8 := c.offset / 8 * 8 + UInt8.ofNat i

end Controller

variable {c : Controller} {i : Fin 8}

/-- **The four words of an initialization**, in whatever state the controller is. -/
theorem initialize_eq (c : Controller) (offset wiring mode : UInt8) :
    (((c.command 0x11).data offset).data wiring).data mode
      = ⟨.mask, true, false, offset, wiring, mode, 0, false⟩ := rfl

/-- An end of interrupt. -/
theorem command_endOfInterrupt (c : Controller) : c.command 0x20 = c := rfl

@[simp] theorem mem_masked : i ∈ c.masked ↔ c.mask.toNat.testBit i = true := by
  simp [Controller.masked]

/-- A ready controller takes a word at its data port for a mask. -/
theorem data_of_ready (h : c.Ready) (w : UInt8) : c.data w = { c with mask := w } := by
  obtain ⟨hexpect, -, -⟩ := h
  unfold Controller.data
  rw [hexpect]

/-- **Setting a bit of the mask.** -/
theorem masked_set (c : Controller) (i : Fin 8) :
    Controller.masked { c with mask := c.mask ||| 1 <<< UInt8.ofNat i } = insert i c.masked := by
  have hi : (UInt8.ofNat i.val).toNat = i.val := by
    rw [UInt8.toNat_ofNat', Nat.mod_eq_of_lt (by omega)]
  ext j
  rw [mem_masked, Finset.mem_insert, mem_masked, testBit_or_one_shl _ _ _ (by rw [hi]; exact i.isLt),
    hi, Bool.or_eq_true, decide_eq_true_eq, Fin.val_inj]
  exact or_congr_left eq_comm

/-- **Clearing a bit of the mask.** -/
theorem masked_clear (c : Controller) (i : Fin 8) :
    Controller.masked { c with mask := c.mask &&& ~~~(1 <<< UInt8.ofNat i) } = c.masked.erase i := by
  have hi : (UInt8.ofNat i.val).toNat = i.val := by
    rw [UInt8.toNat_ofNat', Nat.mod_eq_of_lt (by omega)]
  ext j
  rw [mem_masked, Finset.mem_erase, mem_masked,
    testBit_and_not_one_shl _ _ _ (by rw [hi]; exact i.isLt) j.isLt, hi, Bool.and_eq_true,
    Bool.not_eq_true', decide_eq_false_iff_not, Fin.val_inj]
  exact and_congr_left fun _ => ⟨Ne.symm, Ne.symm⟩

/-! ## A pair -/

structure Pair where
  master : Controller
  slave : Controller
  deriving DecidableEq

namespace Pair

/-- The input of a line, at its controller. -/
def input (line : Fin 16) : Fin 8 := ⟨line.val % 8, Nat.mod_lt _ (by decide)⟩

/-- The controller of a line. -/
def controller (p : Pair) (line : Fin 16) : Controller := if line.val < 8 then p.master else p.slave

/-- Something is done to the controller of a line. -/
def modify (p : Pair) (line : Fin 16) (f : Controller → Controller) : Pair :=
  if line.val < 8 then { p with master := f p.master } else { p with slave := f p.slave }

/-- The lines that are masked at their controller. -/
def masked (p : Pair) : Finset (Fin 16) := {line | input line ∈ (p.controller line).masked}

/-- The second controller is behind input `k` of the first one. -/
def Cascaded (p : Pair) (k : Fin 8) : Prop :=
  p.master.Ready ∧ p.slave.Ready ∧ p.master.wiring.toNat = 2 ^ k.val ∧ p.slave.wiring.toNat = k.val

instance (p : Pair) (k : Fin 8) : Decidable (p.Cascaded k) :=
  inferInstanceAs (Decidable (_ ∧ _ ∧ _ ∧ _))

/-- The vector of a request, or none if it is not delivered: the input of the cascade has none of its
    own, and a request of the second controller comes through it. -/
def vector (p : Pair) (k : Fin 8) (line : Fin 16) : Option UInt8 :=
  if p.Cascaded k ∧ line ≠ Fin.castAdd 8 k ∧ line ∉ p.masked ∧
      (8 ≤ line.val → Fin.castAdd 8 k ∉ p.masked)
    then some ((p.controller line).vector (input line))
  else none

end Pair

open Pair

variable {p : Pair} {line l : Fin 16}

@[simp] theorem mem_masked_pair : line ∈ p.masked ↔ input line ∈ (p.controller line).masked := by
  simp [Pair.masked]

theorem input_inj (h : line.val < 8 ↔ l.val < 8) : input line = input l ↔ line = l := by
  simp only [Fin.ext_iff, input]
  omega

/-- The line's own controller. -/
theorem controller_modify (h : line.val < 8 ↔ l.val < 8) (p : Pair) (f : Controller → Controller) :
    (p.modify line f).controller l = f (p.controller l) := by
  by_cases hl : l.val < 8
  · simp [Pair.modify, controller, h.mpr hl, hl]
  · simp [Pair.modify, controller, h.not.mpr hl, hl]

/-- The other one. -/
theorem controller_modify_of_ne (h : ¬ (line.val < 8 ↔ l.val < 8)) (p : Pair)
    (f : Controller → Controller) : (p.modify line f).controller l = p.controller l := by
  by_cases hl : l.val < 8 <;> by_cases hline : line.val < 8
  · exact absurd (iff_of_true hline hl) h
  · simp [Pair.modify, controller, hline, hl]
  · simp [Pair.modify, controller, hline, hl]
  · exact absurd (iff_of_false hline hl) h

/-- **A line is masked.** -/
theorem masked_modify_set (p : Pair) (line : Fin 16) :
    (p.modify line fun c => { c with mask := c.mask ||| 1 <<< UInt8.ofNat (input line) }).masked
      = insert line p.masked := by
  ext l
  rw [mem_masked_pair, Finset.mem_insert, mem_masked_pair]
  by_cases h : line.val < 8 ↔ l.val < 8
  · rw [controller_modify h, masked_set, Finset.mem_insert, eq_comm, input_inj h, eq_comm]
  · have hne : l ≠ line := fun heq => h (by rw [heq])
    rw [controller_modify_of_ne h]
    simp only [hne, false_or]

/-- **A line is not masked any longer.** -/
theorem masked_modify_clear (p : Pair) (line : Fin 16) :
    (p.modify line fun c => { c with mask := c.mask &&& ~~~(1 <<< UInt8.ofNat (input line)) }).masked
      = p.masked.erase line := by
  ext l
  rw [mem_masked_pair, Finset.mem_erase, mem_masked_pair]
  by_cases h : line.val < 8 ↔ l.val < 8
  · rw [controller_modify h, masked_clear, Finset.mem_erase, ne_comm, ne_eq, input_inj h, eq_comm]
  · have hne : l ≠ line := fun heq => h (by rw [heq])
    rw [controller_modify_of_ne h]
    simp only [ne_eq, hne, not_false_eq_true, true_and]

end MyOs.Lib.Pic8259
