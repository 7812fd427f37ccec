/-
  `input_buffer` is on the stack, and `kernel_main` does not initialise it.

  1. **Program**: `act` is one turn of the loop in some activation of `kernel_main`.  The first is
     entered by `kernel_startup`, the others by `kernel_return`, when the program that a command
     started has exited; each finds in its buffer what happens to be in the `Stack`.
  2. **What is typed** (`Extent`): the length of the line, and how far into the buffer this
     activation has stored.
  3. **One character** (`Fixes.char`, `Fixes.newline_front`): in front of the reach, what it does to
     the buffer does not depend on what is behind it.
-/
import MyOs.Kernel.Shell

namespace MyOs.Kernel

open MyOs.Lib.LineEditor MyOs.Libraries

/-! ## Activations -/

/-- A character from `poll_char`; or a `'\n'` whose command starts a program, which exits. -/
inductive Input where
  | char (b : UInt8)
  | program

/-- What `poll_char` returns. -/
def Input.byte : Input → UInt8
  | char b => b
  | program => newline

/-- What the stack holds where each activation of `kernel_main` has its `input_buffer`. -/
structure Stack where
  contents : Nat → List UInt8
  length_eq : ∀ k, (contents k).length = 256

/-- Each time, there is a NUL somewhere. -/
def Stack.Terminated (st : Stack) : Prop := ∀ k, 0 ∈ st.contents k

/-- An activation of `kernel_main`, and which one it is. -/
structure Activation where
  number : Nat
  shell : ShellState

/-- The `k`-th entry to `kernel_main`. -/
def Stack.enter (st : Stack) (k : Nat) : Activation := ⟨k, ⟨st.contents k, 0⟩⟩

/-- One turn of the loop.  Behind a program comes the next activation. -/
def act (st : Stack) (a : Activation) : Input → Option (Activation × List ShellEvent)
  | .char b => (kernelMainStep a.shell b).map fun r => (⟨a.number, r.1⟩, r.2)
  | .program => (kernelMainStep a.shell newline).map fun r => (st.enter (a.number + 1), r.2)

/-- The strings handed to `strsplit`. -/
def commandLines (st : Stack) (a : Activation) (inputs : List Input) :
    Option (List (List UInt8)) :=
  (feed (act st) a inputs).map fun r => r.2.filterMap ShellEvent.commandLine?

/-! ## How far the buffer has been stored to -/

/-- The number of the activation, `input_size`, and one more than the highest index at which this
    activation has stored a character or a terminator. -/
structure Extent where
  entry : Nat
  size : Nat
  reach : Nat
deriving DecidableEq

namespace Extent

variable (e : Extent)

/-- A store at `input_size`. -/
def stored (size : Nat) : Extent := ⟨e.entry, size, max e.reach (e.size + 1)⟩

/-- What a character does to it. -/
def char (b : UInt8) : Extent :=
  if b = 0 then e
  else if b = backspace then if e.size = 0 then e else e.stored (e.size - 1)
  else if b = newline then ⟨e.entry, 0, e.reach⟩
  else e.stored (e.size + 1)

def next : Input → Extent
  | .char b => e.char b
  | .program => ⟨e.entry + 1, 0, 0⟩

theorem reach_le_char (b : UInt8) : e.reach ≤ (e.char b).reach := by
  unfold char stored
  split_ifs
  · exact Nat.le_refl _
  · exact Nat.le_refl _
  · exact Nat.le_max_left _ _
  · exact Nat.le_refl _
  · exact Nat.le_max_left _ _

theorem entry_char (b : UInt8) : (e.char b).entry = e.entry := by
  unfold char stored
  split_ifs
  all_goals rfl

/-- In front of the reach the buffer is `front`: no terminator in the line, and one at the end, unless
    the line ends there. -/
structure Fixes (front : List UInt8) : Prop where
  length_eq : front.length = e.reach
  reach_le : e.reach ≤ 256
  size_le : e.size ≤ e.reach
  typed : ∀ i, i < e.size → front[i]? ≠ some 0
  terminated : e.size < e.reach → front[e.reach - 1]? = some 0

/-- The shell with that front, and `tail` behind it. -/
def shell (front tail : List UInt8) : ShellState := ⟨front ++ tail, UInt16.ofNat e.size⟩

end Extent

/-! ## Stores -/

/-- The front behind a store into it or at its end. -/
def write (front : List UInt8) (n : Nat) (x : UInt8) : List UInt8 :=
  front.take n ++ x :: front.drop (n + 1)

section Stores

variable {front tail : List UInt8} {n : Nat} {x : UInt8}

theorem store_write (hn : n ≤ front.length) (hlt : n < front.length + tail.length) :
    store (front ++ tail) n x = some (write front n x ++ tail.drop (n + 1 - front.length)) := by
  rw [← List.length_append] at hlt
  rw [store, if_pos hlt, List.set_eq_take_append_cons_drop, if_pos hlt,
    List.take_append_of_le_length hn, List.drop_append, write, List.append_assoc, List.cons_append]

theorem length_write (hn : n ≤ front.length) :
    (write front n x).length = max front.length (n + 1) := by
  rw [write, List.length_append, List.length_take, List.length_cons, List.length_drop]
  omega

theorem getElem?_write (hn : n ≤ front.length) (i : Nat) :
    (write front n x)[i]? = if i = n then some x else front[i]? := by
  have htake : (front.take n).length = n := List.length_take_of_le hn
  unfold write
  rcases Nat.lt_trichotomy i n with hi | rfl | hi
  · rw [if_neg (Nat.ne_of_lt hi), List.getElem?_append_left (htake.symm ▸ hi),
      List.getElem?_take_of_lt hi]
  · rw [if_pos rfl, List.getElem?_append_right (Nat.le_of_eq htake), htake, Nat.sub_self]
    rfl
  · rw [if_neg (Nat.ne_of_gt hi), List.getElem?_append_right (htake.symm ▸ Nat.le_of_lt hi), htake,
      show i - n = i - (n + 1) + 1 by omega, List.getElem?_cons_succ, List.getElem?_drop]
    congr 1
    omega

end Stores

/-! ## One character -/

/-- Without a terminator a `'\n'` reads on behind the array. -/
theorem kernelMainStep_newline_none {s : ShellState} (h : 0 ∉ s.inputBuffer) :
    kernelMainStep s newline = none := by
  rw [kernelMainStep, if_neg (by decide), if_neg fun hb => absurd hb.1 (by decide),
    if_neg (by decide), if_pos rfl, toLowerCase_eq_none h]
  rfl

/-- What a `'\n'` leaves of a buffer with a string: as much of it as was not typed, without its
    delimiters. -/
def leftover (size : Nat) (text rest : List UInt8) : List UInt8 :=
  List.replicate size 0 ++ (splitString space 16 (text.map lower)).1.drop size ++ 0 :: rest

theorem length_leftover {size : Nat} {text rest : List UInt8} (hsize : size ≤ text.length) :
    (leftover size text rest).length = (text ++ 0 :: rest).length := by
  rw [leftover, List.length_append, List.length_append, List.length_append, List.length_replicate,
    List.length_drop, length_splitString, List.length_map]
  omega

/-- Behind the string nothing changes. -/
theorem getElem?_leftover {size : Nat} {text rest : List UInt8} (hsize : size ≤ text.length) {i : Nat}
    (hi : text.length ≤ i) : (leftover size text rest)[i]? = (text ++ 0 :: rest)[i]? := by
  have hlength : (List.replicate size 0
      ++ (splitString space 16 (text.map lower)).1.drop size).length = text.length := by
    rw [List.length_append, List.length_replicate, List.length_drop, length_splitString,
      List.length_map]
    omega
  rw [leftover, List.getElem?_append_right (hlength.symm ▸ hi), hlength,
    List.getElem?_append_right hi]

/-- In front of `input_size` everything is cleared. -/
theorem getElem?_leftover_cleared {size : Nat} (text rest : List UInt8) {i : Nat} (hi : i < size) :
    (leftover size text rest)[i]? = some 0 := by
  have hreplicate : i < (List.replicate size (0 : UInt8)).length :=
    List.length_replicate.symm ▸ hi
  rw [leftover, List.append_assoc, List.getElem?_append_left hreplicate,
    List.getElem?_replicate_of_lt hi]

namespace Extent

variable {e : Extent} {front tail : List UInt8} {b : UInt8}

theorem Fixes.toNat_size (h : e.Fixes front) : (UInt16.ofNat e.size).toNat = e.size := by
  have hle := h.size_le
  have hreach := h.reach_le
  rw [UInt16.toNat_ofNat_of_lt']
  simp only [UInt16.size]
  omega

theorem Fixes.size_le_length (h : e.Fixes front) : e.size ≤ front.length :=
  h.length_eq.symm ▸ h.size_le

/-- A store at `input_size`, of a character or of a terminator. -/
theorem Fixes.stored (h : e.Fixes front) (hlt : e.size < 256) {size : Nat} {x : UInt8}
    (hsize : size ≤ e.size + 1) (hx : size ≤ e.size ↔ x = 0) :
    (e.stored size).Fixes (write front e.size x) where
  length_eq := by
    rw [length_write h.size_le_length, h.length_eq]
    rfl
  reach_le := Nat.max_le.mpr ⟨h.reach_le, hlt⟩
  size_le := Nat.le_trans hsize (Nat.le_max_right _ _)
  typed := fun i (hi : i < size) => by
    rw [getElem?_write h.size_le_length]
    split_ifs with heq
    · exact fun hzero => absurd (hx.mpr (Option.some.inj hzero)) (by omega)
    · exact h.typed i (by omega)
  terminated := fun (hreach : size < max e.reach (e.size + 1)) => by
    show (write front e.size x)[max e.reach (e.size + 1) - 1]? = some 0
    rw [getElem?_write h.size_le_length]
    split_ifs with heq
    · rw [hx.mp (by omega)]
    · have hle := h.size_le
      rw [show max e.reach (e.size + 1) = e.reach by omega]
      exact h.terminated (by omega)

/-- A character of the line: what it does does not depend on the tail. -/
theorem Fixes.char (h : e.Fixes front) (hlt : b ≠ 0 → e.size < 256) (hb : b ≠ newline) :
    ∃ front' events, (e.char b).Fixes front' ∧
      events.filterMap ShellEvent.commandLine? = [] ∧
      ∀ tail, e.reach + tail.length = 256 → kernelMainStep (e.shell front tail) b
        = some ((e.char b).shell front' (tail.drop ((e.char b).reach - e.reach)), events) := by
  have hstore : ∀ (tail : List UInt8) size x, b ≠ 0 → e.reach + tail.length = 256 →
      store (e.shell front tail).inputBuffer (e.shell front tail).inputSize.toNat x
        = some (write front e.size x ++ tail.drop ((e.stored size).reach - e.reach)) := by
    intro tail size x hzero htail
    show store (front ++ tail) (UInt16.ofNat e.size).toNat x = _
    rw [h.toNat_size, store_write h.size_le_length (by rw [h.length_eq, htail]; exact hlt hzero),
      h.length_eq]
    congr 3
    show e.size + 1 - e.reach = max e.reach (e.size + 1) - e.reach
    omega
  have hsame : ∀ tail : List UInt8, tail.drop (e.reach - e.reach) = tail := by
    intro tail
    rw [Nat.sub_self, List.drop_zero]
  have hsize : e.size = 0 ↔ UInt16.ofNat e.size = 0 := by
    rw [← UInt16.toNat_inj, h.toNat_size]
    rfl
  unfold Extent.char
  -- no key, a backspace in an empty line, a backspace, a character
  by_cases hzero : b = 0
  · rw [if_pos hzero]
    refine ⟨front, [], h, rfl, fun tail _ => ?_⟩
    rw [kernelMainStep, if_pos hzero, hsame]
  · rw [if_neg hzero]
    by_cases hback : b = backspace
    · rw [if_pos hback]
      by_cases hempty : e.size = 0
      · rw [if_pos hempty]
        refine ⟨front, [], h, rfl, fun tail _ => ?_⟩
        rw [kernelMainStep, if_neg hzero, if_neg (fun hb => hb.2 (hsize.mp hempty)), if_pos hback,
          hsame]
      · rw [if_neg hempty]
        refine ⟨_, [.deleteLastChar], h.stored (hlt hzero) (x := 0) (by omega)
          ⟨fun _ => rfl, fun _ => by omega⟩, rfl, fun tail htail => ?_⟩
        have hone : UInt16.ofNat (e.size - 1) = UInt16.ofNat e.size - 1 :=
          UInt16.ofNat_sub (show 1 ≤ e.size by omega)
        rw [kernelMainStep, if_neg hzero, if_pos ⟨hback, mt hsize.mpr hempty⟩,
          hstore tail (e.size - 1) 0 hzero htail]
        exact congrArg (fun size => some (ShellState.mk _ size, [ShellEvent.deleteLastChar])) hone.symm
    · rw [if_neg hback, if_neg hb]
      refine ⟨_, [.writestring b], h.stored (hlt hzero) (x := b) (Nat.le_refl _)
        ⟨fun hle => absurd hle (by omega), fun hb => absurd hb hzero⟩, rfl, fun tail htail => ?_⟩
      have hone : UInt16.ofNat (e.size + 1) = UInt16.ofNat e.size + 1 := UInt16.ofNat_add e.size 1
      rw [kernelMainStep, if_neg hzero, if_neg (fun hb => hback hb.1), if_neg hback, if_neg hb,
        hstore tail (e.size + 1) b hzero htail]
      exact congrArg (fun size => some (ShellState.mk _ size, [ShellEvent.writestring b])) hone.symm

/-- The array from the line on, when there is a terminator somewhere. -/
theorem Fixes.text (h : e.Fixes front) (hzero : 0 ∈ front ++ tail) :
    ∃ text rest, front ++ tail = text ++ 0 :: rest ∧ 0 ∉ text ∧ e.size ≤ text.length := by
  obtain ⟨before, after, hsplit⟩ := List.append_of_mem hzero
  obtain ⟨htext, rest, hholds⟩ := holds_cString before after
  rw [← hsplit] at hholds
  refine ⟨_, rest, hholds, htext, ?_⟩
  by_contra hlt
  refine h.typed _ (Nat.lt_of_not_le hlt) ?_
  have hborder : (front ++ tail)[(cString before).length]? = some 0 := by
    rw [hholds, getElem?_border]
  have hsize := h.size_le_length
  rwa [List.getElem?_append_left (by omega)] at hborder

/-- A `'\n'` in front of a terminator somewhere in the array. -/
theorem Fixes.newline_text (h : e.Fixes front) {text rest : List UInt8}
    (hbuffer : front ++ tail = text ++ 0 :: rest) (htext : 0 ∉ text) (hsize : e.size ≤ text.length) :
    ∃ events, kernelMainStep (e.shell front tail) newline
        = some (⟨leftover e.size text rest, 0⟩, events) ∧
      events.filterMap ShellEvent.commandLine? = [text.map lower] := by
  have hinputSize : (e.shell front tail).inputSize.toNat = e.size := h.toNat_size
  have hstep := kernelMainStep_newline htext (show (e.shell front tail).inputBuffer = _ from hbuffer)
    (hinputSize.symm ▸ hsize)
  rw [hinputSize] at hstep
  refine ⟨_, hstep, ?_⟩
  show [cString (text.map lower ++ 0 :: rest)] = _
  rw [cString_terminated (zero_not_mem_map_lower htext)]

/-- A `'\n'` in front of a terminator in the front. -/
theorem Fixes.newline_front (h : e.Fixes front) (hlt : e.size < e.reach) :
    ∃ front' line, (e.char newline).Fixes front' ∧ ∀ tail, ∃ events,
      kernelMainStep (e.shell front tail) newline
        = some ((e.char newline).shell front' tail, events) ∧
      events.filterMap ShellEvent.commandLine? = [line] := by
  have hlast := h.terminated hlt
  have hzero : 0 ∈ front ++ [] := by
    rw [List.append_nil]
    exact List.mem_of_getElem? hlast
  obtain ⟨text, rest, hfront, htext, hsize⟩ := h.text hzero
  rw [List.append_nil] at hfront
  refine ⟨leftover e.size text rest, text.map lower, ?_, fun tail => ?_⟩
  · have hlength := h.length_eq
    rw [hfront] at hlength hlast
    refine ⟨(length_leftover hsize).trans hlength, h.reach_le, Nat.zero_le _,
      fun i hi => absurd hi (Nat.not_lt_zero i), fun _ => ?_⟩
    rw [List.length_append, List.length_cons] at hlength
    exact (getElem?_leftover hsize (show text.length ≤ e.reach - 1 by omega)).trans hlast
  · have hbuffer : front ++ tail = text ++ 0 :: (rest ++ tail) := by
      rw [hfront, List.append_assoc, List.cons_append]
    obtain ⟨events, hstep, hline⟩ := h.newline_text hbuffer htext hsize
    refine ⟨events, hstep.trans ?_, hline⟩
    rw [leftover, ← List.cons_append, ← List.append_assoc]
    rfl

/-- A line that fills the array: the next character is stored behind it, and a `'\n'` looks for a
    terminator there. -/
theorem Fixes.full (h : e.Fixes front) (hsize : e.size = 256) (hb : b ≠ 0) :
    kernelMainStep (e.shell front []) b = none := by
  have hlength : front.length = 256 := by
    have hle := h.size_le
    have hreach := h.reach_le
    rw [h.length_eq]
    omega
  have hinputSize : (e.shell front []).inputSize.toNat = 256 := h.toNat_size.trans hsize
  -- there is no cell behind the last one
  have hstore : ∀ x, store (e.shell front []).inputBuffer (e.shell front []).inputSize.toNat x
      = none := by
    intro x
    rw [hinputSize]
    exact if_neg (by rw [show (e.shell front []).inputBuffer = front ++ [] from rfl,
      List.append_nil, hlength]; decide)
  by_cases hnewline : b = newline
  · rw [hnewline]
    refine kernelMainStep_newline_none fun hmem => ?_
    rw [show (e.shell front []).inputBuffer = front ++ [] from rfl, List.append_nil] at hmem
    obtain ⟨i, hi, hzero⟩ := List.getElem_of_mem hmem
    exact h.typed i (by omega) (List.getElem?_eq_some_iff.mpr ⟨hi, hzero⟩)
  · unfold kernelMainStep
    rw [if_neg hb, hstore, hstore]
    by_cases hback : b = backspace
    · have hne : (e.shell front []).inputSize ≠ 0 := by
        intro hzero
        rw [hzero] at hinputSize
        exact absurd hinputSize (by decide)
      rw [if_pos ⟨hback, hne⟩]
      rfl
    · rw [if_neg fun hb => hback hb.1, if_neg hback, if_neg hnewline]
      rfl

end Extent

end MyOs.Kernel
