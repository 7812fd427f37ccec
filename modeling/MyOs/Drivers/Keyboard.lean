/-
  The keyboard queue: `keyboard_handler` puts scancodes in, `poll_char` takes them out.

  1. **Program**: `keyboardHandler` writes at `key_buffer_read + key_buffer_length`, a sum in `int`;
     `dequeue` reads at `key_buffer_read`, an 8-bit counter that wraps at 256; `pollChar` decodes
     what it dequeues.
  2. **Invariant** (`KeyQueue.Holds`): the pending scancodes lie in a row from the read index on,
     none of them at or behind index 256.
  3. **Runs** (`keyboard_fifo`): as long as no scancode is delivered behind index 255 the queue is
     first in, first out.  A scancode behind it is never read: at the wrap the reader continues at
     index 0 (`not_keyboard_fifo_wrap`).
-/
import Mathlib.Logic.Function.Basic
import MyOs.Lib.Fifo

namespace MyOs.Drivers

open MyOs.Lib.Fifo

/-! ## The program -/

/-- `key_buffer` from `0xC0100000` on, `key_buffer_length` and `key_buffer_read`. -/
structure KeyQueue where
  buffer : Nat → UInt8
  length : UInt8
  read : UInt8

/-- `keyboard_handler`, for the scancode it gets from port `0x60`. -/
def KeyQueue.keyboardHandler (k : KeyQueue) (scancode : UInt8) : KeyQueue :=
  { k with
    buffer := Function.update k.buffer (k.read.toNat + k.length.toNat) scancode
    length := k.length + 1 }

/-- The first lines of `poll_char`: the scancode it takes from the queue. -/
def KeyQueue.dequeue (k : KeyQueue) : Option (UInt8 × KeyQueue) :=
  if k.length > 0 then
    some (k.buffer k.read.toNat, { k with read := k.read + 1, length := k.length - 1 })
  else none

/-- The queue and the state of the decoder. -/
structure Keyboard where
  queue : KeyQueue
  lastF0 : Bool
  shift : Bool

/-- The keys `poll_char` knows: the scancode, the character, and the one with shift. -/
def keys : List (UInt8 × Char × Char) :=
  [(0x1C, 'a', 'A'), (0x32, 'b', 'B'), (0x21, 'c', 'C'), (0x23, 'd', 'D'), (0x24, 'e', 'E'),
   (0x2B, 'f', 'F'), (0x34, 'g', 'G'), (0x33, 'h', 'H'), (0x43, 'i', 'I'), (0x3B, 'j', 'J'),
   (0x42, 'k', 'K'), (0x4B, 'l', 'L'), (0x3A, 'm', 'M'), (0x31, 'n', 'N'), (0x44, 'o', 'O'),
   (0x4D, 'p', 'P'), (0x15, 'q', 'Q'), (0x2D, 'r', 'R'), (0x1B, 's', 'S'), (0x2C, 't', 'T'),
   (0x3C, 'u', 'U'), (0x2A, 'v', 'V'), (0x1D, 'w', 'W'), (0x22, 'x', 'X'), (0x35, 'y', 'Y'),
   (0x1A, 'z', 'Z'), (0x29, ' ', ' '), (0x66, '\x08', '\x08'), (0x5A, '\n', '\n'),
   (0x49, '.', '>'), (0x41, ',', '<'), (0x0D, '\t', '\t'), (0x4C, ';', ':'), (0x16, '1', '!'),
   (0x1E, '2', '@'), (0x26, '3', '#'), (0x25, '4', '$'), (0x2E, '5', '%'), (0x36, '6', '^'),
   (0x3D, '7', '&'), (0x3E, '8', '*'), (0x46, '9', '('), (0x45, '0', ')'), (0x4E, '-', '_'),
   (0x55, '=', '+'), (0x4A, '/', '?')]

/-- The chain of comparisons at the end of `poll_char`. -/
def keyChar (shift : Bool) (scancode : UInt8) : UInt8 :=
  match keys.find? (·.1 == scancode) with
  | some (_, plain, shifted) => (if shift then shifted else plain).toUInt8
  | none => 0

/-- `poll_char` behind the queue: release prefix, release, shift, key. -/
def Keyboard.decode (k : Keyboard) (scancode : UInt8) : UInt8 × Keyboard :=
  if scancode == 0xF0 then (0, { k with lastF0 := true })
  else if k.lastF0 then
    (0, { k with lastF0 := false, shift := if scancode == 0x12 then false else k.shift })
  else if scancode == 0x12 then (0, { k with shift := true })
  else (keyChar k.shift scancode, k)

/-- `poll_char`: the character, zero when there is none, and the state it leaves. -/
def Keyboard.pollChar (k : Keyboard) : UInt8 × Keyboard :=
  match k.queue.dequeue with
  | some (scancode, queue) => { k with queue }.decode scancode
  | none => (0, k)

/-- The decoder does not touch the queue. -/
theorem Keyboard.decode_queue (k : Keyboard) (scancode : UInt8) :
    (k.decode scancode).2.queue = k.queue := by
  unfold Keyboard.decode
  split_ifs <;> rfl

/-! ## Runs -/

/-- One delivery, or one complete call of `poll_char`. -/
inductive KeyStep : Keyboard → Label UInt8 → Keyboard → Prop where
  | deliver (k : Keyboard) (scancode : UInt8) :
      KeyStep k (.push scancode) { k with queue := k.queue.keyboardHandler scancode }
  | poll {k : Keyboard} {scancode : UInt8} {queue : KeyQueue}
      (h : k.queue.dequeue = some (scancode, queue)) : KeyStep k (.pop scancode) k.pollChar.2
  | pollEmpty {k : Keyboard} (h : k.queue.dequeue = none) : KeyStep k .silent k.pollChar.2

/-- A delivery writes inside the 256 bytes that the 8-bit read index can reach. -/
def InReach (k : Keyboard) : Label UInt8 → Prop
  | .push _ => k.queue.read.toNat + k.queue.length.toNat < 256
  | _ => True

theorem Keyboard.pollChar_of_some {k : Keyboard} {scancode : UInt8} {queue : KeyQueue}
    (h : k.queue.dequeue = some (scancode, queue)) : k.pollChar.2.queue = queue := by
  unfold Keyboard.pollChar
  rw [h]
  exact Keyboard.decode_queue _ scancode

theorem Keyboard.pollChar_of_none {k : Keyboard} (h : k.queue.dequeue = none) :
    k.pollChar = (0, k) := by
  unfold Keyboard.pollChar
  rw [h]

/-! ## The invariant -/

/-- The pending scancodes `q` lie in a row from the read index on, and end before index 256. -/
structure KeyQueue.Holds (k : KeyQueue) (q : List UInt8) : Prop where
  length_eq : k.length.toNat = q.length
  reach : k.read.toNat + q.length ≤ 256
  slot : ∀ i (h : i < q.length), k.buffer (k.read.toNat + i) = q[i]

namespace KeyQueue

variable {k : KeyQueue}

theorem holds_nil (hlength : k.length = 0) : k.Holds [] where
  length_eq := by rw [hlength]; rfl
  reach := by have hlt : k.read.toNat < 2 ^ 8 := k.read.toNat_lt; show k.read.toNat ≤ 256; omega
  slot := fun i h => absurd h (Nat.not_lt_zero i)

theorem dequeue_eq_none_iff : k.dequeue = none ↔ k.length = 0 := by
  unfold dequeue
  split
  · rename_i hpos
    refine ⟨fun h => (nomatch h), fun hzero => ?_⟩
    rw [hzero] at hpos
    exact absurd hpos (by decide)
  · rename_i hpos
    refine ⟨fun _ => ?_, fun _ => rfl⟩
    apply UInt8.toNat_inj.mp
    rw [gt_iff_lt, UInt8.lt_iff_toNat_lt] at hpos
    simp only [UInt8.toNat_zero] at hpos ⊢
    omega

/-- A delivery in reach appends the scancode. -/
theorem Holds.keyboardHandler {q : List UInt8} (h : k.Holds q) (scancode : UInt8)
    (hreach : k.read.toNat + k.length.toNat < 256) (hroom : q.length < 255) :
    (k.keyboardHandler scancode).Holds (q ++ [scancode]) where
  length_eq := by
    have hlength := h.length_eq
    show (k.length + 1).toNat = _
    rw [UInt8.toNat_add, List.length_append, List.length_singleton, UInt8.toNat_one]
    omega
  reach := by
    have hlength := h.length_eq
    rw [List.length_append, List.length_singleton]
    show k.read.toNat + _ ≤ 256
    omega
  slot := by
    intro i hi
    have hlength := h.length_eq
    rw [List.length_append, List.length_singleton] at hi
    show Function.update k.buffer _ scancode (k.read.toNat + i) = _
    rcases Nat.lt_or_eq_of_le (Nat.le_of_lt_succ hi) with hold | rfl
    · rw [Function.update_of_ne (by omega), h.slot i hold, List.getElem_append_left hold]
    · rw [hlength, Function.update_self, List.getElem_concat_length rfl]

/-- What is dequeued is the first pending scancode. -/
theorem Holds.dequeue {q : List UInt8} (h : k.Holds q) {scancode : UInt8} {k' : KeyQueue}
    (hdequeue : k.dequeue = some (scancode, k')) : ∃ q', q = scancode :: q' ∧ k'.Holds q' := by
  unfold KeyQueue.dequeue at hdequeue
  split at hdequeue
  · rename_i hpos
    obtain ⟨rfl, rfl⟩ := Prod.mk.inj (Option.some.inj hdequeue)
    rw [gt_iff_lt, UInt8.lt_iff_toNat_lt, UInt8.toNat_zero, h.length_eq] at hpos
    cases q with
    | nil => exact absurd hpos (Nat.lt_irrefl 0)
    | cons x q =>
      have hfirst : k.buffer k.read.toNat = x := h.slot 0 hpos
      have hlength := h.length_eq
      have hreach := h.reach
      rw [List.length_cons] at hlength hreach
      have hlt : k.read.toNat < 2 ^ 8 := k.read.toNat_lt
      refine ⟨q, by rw [hfirst], ?_, ?_, ?_⟩
      · show (k.length - 1).toNat = _
        rw [UInt8.toNat_sub, UInt8.toNat_one]
        omega
      · show (k.read + 1).toNat + _ ≤ 256
        rw [UInt8.toNat_add, UInt8.toNat_one]
        omega
      · intro i hi
        show k.buffer ((k.read + 1).toNat + i) = _
        have hslot := h.slot (i + 1) (Nat.succ_lt_succ hi)
        -- another scancode is pending, so the read index does not wrap
        have hread : (k.read + 1).toNat = k.read.toNat + 1 := by
          rw [UInt8.toNat_add, UInt8.toNat_one]
          omega
        rw [hread, Nat.add_assoc, Nat.add_comm 1 i, hslot, List.getElem_cons_succ]
  · nomatch hdequeue

theorem Holds.eq_nil {q : List UInt8} (h : k.Holds q) (hdequeue : k.dequeue = none) : q = [] := by
  have hlength := h.length_eq
  rw [dequeue_eq_none_iff.mp hdequeue, UInt8.toNat_zero] at hlength
  exact List.eq_nil_of_length_eq_zero hlength.symm

/-- The next scancode to be dequeued. -/
theorem Holds.next {q : List UInt8} (h : k.Holds q) : k.dequeue.map Prod.fst = q.head? := by
  cases hdequeue : k.dequeue with
  | none => rw [h.eq_nil hdequeue]; rfl
  | some r =>
    obtain ⟨q', rfl, -⟩ := h.dequeue hdequeue
    rfl

end KeyQueue

/-! ## The queue is first in, first out in reach -/

/-- One step in reach keeps the invariant, with a step of the queue. -/
theorem KeyStep.holds {k k' : Keyboard} {l : Label UInt8} {q : List UInt8} (h : KeyStep k l k')
    (hreach : InReach k l) (hq : k.queue.Holds q) (hroom : ∀ a, l = .push a → q.length < 255) :
    ∃ q', Step q l q' ∧ k'.queue.Holds q' := by
  cases h with
  | deliver scancode =>
    exact ⟨_, .push q scancode, hq.keyboardHandler scancode hreach (hroom scancode rfl)⟩
  | @poll scancode queue h =>
    obtain ⟨q', rfl, hq'⟩ := hq.dequeue h
    exact ⟨q', .pop q' scancode, by rwa [Keyboard.pollChar_of_some h]⟩
  | pollEmpty h => exact ⟨q, .silent q, by rwa [Keyboard.pollChar_of_none h]⟩

/-- **The keyboard queue is first in, first out** in every run that starts empty, never has more
    than 255 scancodes pending and never delivers one behind index 255: what `poll_char` dequeued
    is what was delivered, up to the pending scancodes, and the next one is the first of these. -/
theorem keyboard_fifo {k k' : Keyboard} {ls : List (Label UInt8)} (hlength : k.queue.length = 0)
    (hrun : Run (fun k l k' => KeyStep k l k' ∧ InReach k l) k ls k')
    (hpending : ∀ pre, pre <+: ls → (pushed pre).length ≤ (popped pre).length + 255) :
    ∃ pending, pushed ls = popped ls ++ pending ∧
      k'.queue.length.toNat = pending.length ∧
      k'.queue.dequeue.map Prod.fst = pending.head? := by
  have hbound : Bounded 255 0 ls := fun pre hpre => by
    rw [Nat.zero_add]
    exact hpending pre hpre
  obtain ⟨pending, hfifo, hholds⟩ := hrun.simulate
    (fun s l s' q hstep hq hroom => hstep.1.holds hstep.2 hq hroom) []
    (KeyQueue.holds_nil hlength) hbound
  exact ⟨pending, hfifo.conservation, hholds.length_eq, hholds.next⟩

/-- The state the kernel starts in: `.bss` is zero. -/
def emptyKeyboard : Keyboard := ⟨⟨fun _ => 0, 0, 0⟩, false, false⟩

/-- Two keys, a turn, a third key and another turn. -/
def fiveSteps : List (Label UInt8) := [.push 0x1C, .push 0x32, .pop 0x1C, .push 0x21, .pop 0x32]

/-- The third key is left, and comes next. -/
theorem keyboard_fifo_threeKeys : ∃ k', Run KeyStep emptyKeyboard fiveSteps k' ∧
    k'.queue.length.toNat = 1 ∧ k'.queue.dequeue.map Prod.fst = some 0x21 := by
  have hrun : ∃ k', Run (fun k l k' => KeyStep k l k' ∧ InReach k l) emptyKeyboard fiveSteps k' :=
    ⟨_, .cons ⟨.deliver _ 0x1C, show 0 + 0 < 256 by decide⟩
      (.cons ⟨.deliver _ 0x32, show 0 + 1 < 256 by decide⟩ (.cons ⟨.poll rfl, trivial⟩
        (.cons ⟨.deliver _ 0x21, show 1 + 1 < 256 by decide⟩ (.cons ⟨.poll rfl, trivial⟩ (.nil _)))))⟩
  have hbound : Bounded 255 0 fiveSteps :=
    bounded_push.mpr ⟨by decide, bounded_push.mpr ⟨by decide, bounded_pop.mpr ⟨by decide,
      bounded_push.mpr ⟨by decide, bounded_pop.mpr ⟨by decide, .nil (by decide)⟩⟩⟩⟩⟩
  obtain ⟨k', hrun⟩ := hrun
  obtain ⟨pending, hfifo, hlength, hnext⟩ := keyboard_fifo rfl hrun fun pre hpre => by
    have hle := hbound pre hpre
    rwa [Nat.zero_add] at hle
  have hsplit : [0x1C, 0x32] ++ [0x21] = [0x1C, 0x32] ++ pending := hfifo
  obtain rfl := List.append_cancel_left hsplit
  exact ⟨k', hrun.mono (fun _ _ _ h => h.1), hlength, hnext⟩

/-! ## At the wrap it is not -/

/-- An empty queue returns the scancode it is given, and moves its read index. -/
theorem KeyQueue.dequeue_keyboardHandler {k : KeyQueue} (hlength : k.length = 0)
    (scancode : UInt8) : (k.keyboardHandler scancode).dequeue
      = some (scancode, ⟨Function.update k.buffer k.read.toNat scancode, 0, k.read + 1⟩) := by
  unfold keyboardHandler dequeue
  rw [hlength]
  simp [Function.update_self]

/-- One key: delivered and dequeued. -/
def deliverPoll (k : Keyboard) (scancode : UInt8) : Keyboard :=
  ({ k with queue := k.queue.keyboardHandler scancode } : Keyboard).pollChar.2

theorem run_deliverPoll {k : Keyboard} (hlength : k.queue.length = 0) (scancode : UInt8) :
    Run KeyStep k [.push scancode, .pop scancode] (deliverPoll k scancode) :=
  .cons (.deliver k scancode) (.cons (.poll (KeyQueue.dequeue_keyboardHandler hlength scancode))
    (.nil _))

theorem deliverPoll_queue {k : Keyboard} (hlength : k.queue.length = 0) (scancode : UInt8) :
    (deliverPoll k scancode).queue
      = ⟨Function.update k.queue.buffer k.queue.read.toNat scancode, 0, k.queue.read + 1⟩ :=
  Keyboard.pollChar_of_some (KeyQueue.dequeue_keyboardHandler hlength scancode)

/-- `n` times: the key `a` is delivered and dequeued. -/
def aKeys : Nat → List (Label UInt8)
  | 0 => []
  | n + 1 => aKeys n ++ [.push 0x1C, .pop 0x1C]

/-- They move the read index to `n`, and leave `a` in the first byte of the buffer. -/
theorem run_aKeys : ∀ n, n < 256 → ∃ k, Run KeyStep emptyKeyboard (aKeys n) k ∧
    k.queue.length = 0 ∧ k.queue.read.toNat = n ∧ (0 < n → k.queue.buffer 0 = 0x1C)
  | 0, _ => ⟨emptyKeyboard, .nil _, rfl, rfl, fun h => absurd h (Nat.lt_irrefl 0)⟩
  | n + 1, hn => by
    obtain ⟨k, hrun, hlength, hread, hfirst⟩ := run_aKeys n (by omega)
    have hqueue := deliverPoll_queue hlength 0x1C
    refine ⟨deliverPoll k 0x1C, hrun.append (run_deliverPoll hlength 0x1C), ?_, ?_, fun _ => ?_⟩
    · rw [hqueue]
    · rw [hqueue, UInt8.toNat_add, UInt8.toNat_one, hread]
      omega
    · rw [hqueue, hread]
      show Function.update k.queue.buffer n 0x1C 0 = 0x1C
      cases n with
      | zero => exact Function.update_self ..
      | succ n =>
        rw [Function.update_of_ne (Nat.succ_ne_zero n).symm]
        exact hfirst (Nat.succ_pos n)

theorem pushed_aKeys (n : Nat) : pushed (aKeys n) = popped (aKeys n) := by
  induction n with
  | zero => rfl
  | succ n ih =>
    rw [aKeys, pushed_append, popped_append, ih]
    rfl

theorem bounded_aKeys (n : Nat) : ∀ {ls : List (Label UInt8)}, Bounded 255 0 ls →
    Bounded 255 0 (aKeys n ++ ls) := by
  induction n with
  | zero => intro ls h; exact h
  | succ n ih =>
    intro ls h
    rw [aKeys, List.append_assoc]
    exact ih (bounded_push.mpr ⟨by decide, bounded_pop.mpr ⟨by decide, h⟩⟩)

/-- Two scancodes delivered at read index 255: the second one is written at index 256, and after
    the first one `poll_char` reads index 0. -/
theorem run_wrap {k : Keyboard} (hlength : k.queue.length = 0) (hread : k.queue.read = 255)
    (x y : UInt8) : ∃ k', Run KeyStep k [.push x, .push y, .pop x, .pop (k.queue.buffer 0)] k' := by
  have hfirst : ((k.queue.keyboardHandler x).keyboardHandler y).dequeue = some (x,
      ⟨Function.update (Function.update k.queue.buffer 255 x) 256 y, 1, 0⟩) := by
    unfold KeyQueue.keyboardHandler KeyQueue.dequeue
    rw [hlength, hread]
    simp [Function.update_of_ne]
  have hsecond : (⟨Function.update (Function.update k.queue.buffer 255 x) 256 y, 1, 0⟩ :
      KeyQueue).dequeue = some (k.queue.buffer 0,
        ⟨Function.update (Function.update k.queue.buffer 255 x) 256 y, 0, 1⟩) := by
    unfold KeyQueue.dequeue
    simp [Function.update_of_ne]
  let k₁ : Keyboard := { k with queue := k.queue.keyboardHandler x }
  let k₂ : Keyboard := { k₁ with queue := k₁.queue.keyboardHandler y }
  have hpoll : k₂.pollChar.2.queue.dequeue = _ :=
    (congrArg KeyQueue.dequeue (Keyboard.pollChar_of_some (k := k₂) hfirst)).trans hsecond
  exact ⟨_, .cons (.deliver k x) (.cons (.deliver k₁ y) (.cons (.poll (k := k₂) hfirst)
    (.cons (.poll hpoll) (.nil _))))⟩

/-- **The queue is not first in, first out at the wrap**: after 255 keys one by one, the second of
    two pending scancodes comes out as the first of all. -/
theorem not_keyboard_fifo_wrap :
    ¬ ∀ (k k' : Keyboard) (ls : List (Label UInt8)), k.queue.read = 0 → k.queue.length = 0 →
      Run KeyStep k ls k' →
      (∀ pre, pre <+: ls → (pushed pre).length ≤ (popped pre).length + 255) →
      popped ls <+: pushed ls := by
  intro h
  obtain ⟨k, hrun, hlength, hread, hfirst⟩ := run_aKeys 255 (by decide)
  obtain ⟨k', hwrap⟩ := run_wrap hlength (UInt8.toNat_inj.mp hread) 0x32 0x21
  rw [hfirst (by decide)] at hwrap
  have hbound : Bounded 255 0
      (aKeys 255 ++ [.push 0x32, .push 0x21, .pop 0x32, .pop 0x1C] : List (Label UInt8)) :=
    bounded_aKeys 255 (bounded_push.mpr ⟨by decide, bounded_push.mpr ⟨by decide,
      bounded_pop.mpr ⟨by decide, bounded_pop.mpr ⟨by decide, .nil (by decide)⟩⟩⟩⟩)
  have hprefix := h emptyKeyboard k' _ rfl rfl (hrun.append hwrap) (fun pre hpre => by
    have hle := hbound pre hpre
    rwa [Nat.zero_add] at hle)
  rw [pushed_append, popped_append, pushed_aKeys, List.prefix_append_right_inj] at hprefix
  exact absurd hprefix (by decide)

end MyOs.Drivers
