/-
  The two interrupt controllers and the ends of interrupt that the handlers send.

  `PIC_remap` leaves the controllers cascaded, fully nested and unmasked, with the vectors of the
  requests from 0x20 on.  Acknowledging a request sets its bit in service, and for the second
  controller also that of the cascade; only a handler can clear them again.

  1. **What the handlers send** (`irqOutbs_eq`): `pit_handler` and `keyboard_handler` end the
     interrupt of the first controller; `irq_handler`, which has all other lines, sends nothing.
  2. **Which runs leave nothing in service** (`pics_clear_iff`): those of the timer and the keyboard.
  3. **The other lines** (`blocks_forever`): the first interrupt of such a line blocks it for good.
     With `PIC_sendEOI`, which nobody calls, nothing would stay in service (`run_sendEOI`).
-/
import Mathlib.Order.Fin.Basic
import MyOs.Lib.InService
import MyOs.Boot.Stubs

namespace MyOs.Boot

open MyOs.Lib.InService
open MyOs.Lib.Cdecl

/-! ## The program -/

/-- `PIC1_COMMAND`. -/
def pic1Command : UInt16 := 0x20

/-- `PIC2_COMMAND`. -/
def pic2Command : UInt16 := 0xA0

/-- `PIC_EOI`. -/
def picEOI : UInt8 := 0x20

/-- What the C handlers write to the controllers. -/
def controllerOutbs : CHandler → List (UInt16 × UInt8)
  | .keyboardHandler => [(0x20, 0x20)]
  | .pitHandler => [(0x20, 0x20)]
  | .irqHandler => []
  | .divideError => []
  | .syscallHandler => []
  | .gpfHandler => []
  | .exceptionHandler => []

/-- `PIC_sendEOI`. -/
def picSendEOI (irq : Fin 16) : List (UInt16 × UInt8) :=
  (if 8 ≤ irq then [(pic2Command, picEOI)] else []) ++ [(pic1Command, picEOI)]

/-- The vector of a request, with the offsets that `PIC_remap` is called with. -/
def vectorOf (irq : Fin 16) : Nat := if irq < 8 then 0x20 + irq else 0x28 + (irq - 8)

/-- What the stub of a request and its handler write to the controllers. -/
def irqOutbs (irq : Fin 16) : List (UInt16 × UInt8) :=
  (isrStubTable[vectorOf irq]?).elim [] fun s => controllerOutbs s.callee

/-! ## The controllers -/

/-- The requests in service. -/
@[ext] structure Pics where
  master : Finset (Fin 8)
  slave : Finset (Fin 8)
  deriving DecidableEq

namespace Pics

/-- Nothing is in service. -/
def idle : Pics := ⟨∅, ∅⟩

/-- The input of the first controller to which the second one is connected. -/
def cascade : Fin 8 := 2

/-- The input of a request, at its controller. -/
def input (irq : Fin 16) : Fin 8 := Fin.ofNat 8 irq

/-- The processor acknowledges a request. -/
def acknowledge (p : Pics) (irq : Fin 16) : Pics :=
  if irq < 8 then { p with master := accept p.master (input irq) }
  else ⟨accept p.master cascade, accept p.slave (input irq)⟩

/-- A write to a command port. -/
def outb (p : Pics) (w : UInt16 × UInt8) : Pics :=
  if w = (pic1Command, picEOI) then { p with master := endOfInterrupt p.master }
  else if w = (pic2Command, picEOI) then { p with slave := endOfInterrupt p.slave }
  else p

/-- A request is not delivered. -/
def Blocks (p : Pics) (irq : Fin 16) : Prop :=
  if irq < 8 then Blocked p.master (input irq)
  else Blocked p.master cascade ∨ Blocked p.slave (input irq)

/-- A request is acknowledged, and these writes are made. -/
def serve (outbs : List (UInt16 × UInt8)) (p : Pics) (irq : Fin 16) : Pics :=
  outbs.foldl outb (p.acknowledge irq)

/-- A request is handled to completion. -/
def handle (p : Pics) (irq : Fin 16) : Pics := serve (irqOutbs irq) p irq

/-- Requests one after the other. -/
def run (p : Pics) (irqs : List (Fin 16)) : Pics := irqs.foldl handle p

end Pics

open Pics

variable {p : Pics} {irq n : Fin 16} {irqs : List (Fin 16)}

/-! ## What the handlers send -/

theorem irqOutbs_eq (irq : Fin 16) :
    irqOutbs irq = if irq < 2 then [(pic1Command, picEOI)] else [] := by
  revert irq
  decide

/-- A request that was delivered is out of service again after an end of interrupt at each
    controller that it went through. -/
theorem serve_sendEOI (h : ¬ p.Blocks irq) : serve (picSendEOI irq) p irq = p := by
  unfold Blocks at h
  unfold serve picSendEOI Pics.acknowledge
  by_cases hirq : irq < 8
  · rw [if_pos hirq] at h ⊢
    rw [if_neg (not_le.mpr hirq)]
    show { p with master := endOfInterrupt (accept p.master (input irq)) } = p
    rw [endOfInterrupt_accept h]
  · rw [if_neg hirq] at h ⊢
    rw [if_pos (not_lt.mp hirq)]
    -- the second controller first, then the input of the first one that it is connected to
    show Pics.mk (endOfInterrupt (accept p.master cascade))
      (endOfInterrupt (accept p.slave (input irq))) = p
    rw [endOfInterrupt_accept fun hm => h (Or.inl hm),
      endOfInterrupt_accept fun hs => h (Or.inr hs)]

theorem not_blocks_idle (irq : Fin 16) : ¬ idle.Blocks irq := by
  revert irq
  simp [Blocks, Blocked, idle]

/-- With `PIC_sendEOI` in every handler nothing would stay in service. -/
theorem run_sendEOI : ∀ irqs : List (Fin 16),
    irqs.foldl (fun p irq => serve (picSendEOI irq) p irq) idle = idle
  | [] => rfl
  | irq :: irqs => by
    rw [List.foldl_cons, serve_sendEOI (not_blocks_idle irq)]
    exact run_sendEOI irqs

/-! ## Runs -/

/-- **The timer and the keyboard** leave the controllers as they were. -/
theorem handle_of_lt (h : irq < 2) (hfree : ¬ p.Blocks irq) : p.handle irq = p := by
  have houtbs : irqOutbs irq = picSendEOI irq := by
    have hall : ∀ irq : Fin 16, irq < 2 → irqOutbs irq = picSendEOI irq := by decide
    exact hall irq h
  rw [handle, houtbs, serve_sendEOI hfree]

/-- **The other lines** stay in service. -/
theorem handle_of_le (h : 2 ≤ irq) : p.handle irq = p.acknowledge irq := by
  rw [handle, irqOutbs_eq, if_neg (not_lt.mpr h)]
  rfl

theorem blocks_acknowledge (p : Pics) (irq : Fin 16) : (p.acknowledge irq).Blocks irq := by
  unfold Blocks Pics.acknowledge
  by_cases hirq : irq < 8
  · rw [if_pos hirq, if_pos hirq]
    exact blocked_accept _ _
  · rw [if_neg hirq, if_neg hirq]
    exact Or.inl (blocked_accept _ _)

/-- What is blocked stays blocked while requests are acknowledged. -/
theorem Pics.Blocks.acknowledge (h : p.Blocks n) (irq : Fin 16) : (p.acknowledge irq).Blocks n := by
  have hmaster : ∀ k, Blocked p.master k → Blocked (p.acknowledge irq).master k := by
    intro k hk
    unfold Pics.acknowledge
    split
    · exact hk.accept _
    · exact hk.accept _
  have hslave : ∀ k, Blocked p.slave k → Blocked (p.acknowledge irq).slave k := by
    intro k hk
    unfold Pics.acknowledge
    split
    · exact hk
    · exact hk.accept _
  unfold Blocks at h ⊢
  split at h
  · rename_i hn
    rw [if_pos hn]
    exact hmaster _ h
  · rename_i hn
    rw [if_neg hn]
    exact h.imp (hmaster _) (hslave _)

/-- Requests that are all delivered. -/
def Delivered : Pics → List (Fin 16) → Prop
  | _, [] => True
  | p, irq :: irqs => ¬ p.Blocks irq ∧ Delivered (p.handle irq) irqs

/-- One handler does not unblock a line. -/
theorem Pics.Blocks.handle (h : p.Blocks n) (hfree : ¬ p.Blocks irq) : (p.handle irq).Blocks n := by
  rcases lt_or_ge irq 2 with hlt | hle
  · rwa [handle_of_lt hlt hfree]
  · rw [handle_of_le hle]
    exact h.acknowledge irq

/-- **A blocked line is blocked for good.** -/
theorem Pics.Blocks.run : ∀ {irqs : List (Fin 16)} {p : Pics}, p.Blocks n → Delivered p irqs →
    (p.run irqs).Blocks n
  | [], _, h, _ => h
  | _ :: _, _, h, hdelivered => (h.handle hdelivered.1).run hdelivered.2

/-- A request of another line than the timer's or the keyboard's is not delivered a second time. -/
theorem blocks_forever (h : 2 ≤ irq) (p : Pics) (hirqs : Delivered (p.handle irq) irqs) :
    ((p.handle irq).run irqs).Blocks irq := by
  have hblocks : (p.handle irq).Blocks irq := by
    rw [handle_of_le h]
    exact blocks_acknowledge p irq
  exact hblocks.run hirqs

/-- No line is blocked for good. -/
def Live (p : Pics) : Prop := ∀ n, ∃ irqs, Delivered p irqs ∧ ¬ (p.run irqs).Blocks n

theorem live_idle : Live idle := fun n => ⟨[], trivial, not_blocks_idle n⟩

/-- A run of the timer and the keyboard. -/
theorem run_idle : ∀ {irqs : List (Fin 16)}, (∀ irq ∈ irqs, irq < 2) → idle.run irqs = idle
  | [], _ => rfl
  | irq :: irqs, h => by
    show (idle.handle irq).run irqs = idle
    rw [handle_of_lt (h irq List.mem_cons_self) (not_blocks_idle irq)]
    exact run_idle fun n hn => h n (List.mem_cons_of_mem irq hn)

/-- The first other line leaves a bit behind. -/
theorem exists_not_idle : ∀ {irqs : List (Fin 16)}, (∃ irq ∈ irqs, 2 ≤ irq) →
    ∃ done, done <+: irqs ∧ idle.run done ≠ idle
  | irq :: irqs, h => by
    rcases lt_or_ge irq 2 with hlt | hle
    · -- this one leaves nothing behind, so a later one does
      have hrest : ∃ n ∈ irqs, 2 ≤ n := by
        obtain ⟨n, hn, hle⟩ := h
        rcases List.mem_cons.mp hn with rfl | hn
        · exact absurd hlt (not_lt.mpr hle)
        · exact ⟨n, hn, hle⟩
      obtain ⟨done, hfirst, hne⟩ := exists_not_idle hrest
      refine ⟨irq :: done, List.cons_prefix_cons.mpr ⟨rfl, hfirst⟩, ?_⟩
      show (idle.handle irq).run done ≠ idle
      rwa [handle_of_lt hlt (not_blocks_idle irq)]
    · refine ⟨[irq], List.cons_prefix_cons.mpr ⟨rfl, List.nil_prefix⟩, fun heq => ?_⟩
      have hblocks := blocks_acknowledge idle irq
      rw [← handle_of_le hle] at hblocks
      exact not_blocks_idle irq (heq ▸ hblocks)

/-- **Which runs leave nothing in service.**  After every handler of a run all bits of both
    controllers are clear and no line is blocked for good, if and only if all requests of the run are
    those of the timer and the keyboard. -/
theorem pics_clear_iff (irqs : List (Fin 16)) :
    (∀ done, done <+: irqs → (idle.run done).master = ∅ ∧ (idle.run done).slave = ∅ ∧
      Live (idle.run done)) ↔ ∀ irq ∈ irqs, irq = 0 ∨ irq = 1 := by
  have hlt : ∀ irq : Fin 16, (irq = 0 ∨ irq = 1) ↔ irq < 2 := by decide
  simp only [hlt]
  constructor
  · intro h irq hirq
    by_contra hnot
    obtain ⟨done, hfirst, hne⟩ := exists_not_idle ⟨irq, hirq, not_lt.mp hnot⟩
    obtain ⟨hmaster, hslave, -⟩ := h done hfirst
    exact hne (Pics.ext hmaster hslave)
  · intro h done hfirst
    rw [run_idle fun irq hirq => h irq (hfirst.subset hirq)]
    exact ⟨rfl, rfl, live_idle⟩

/-- The mouse, whose port `setup_PS2` enables: its bit and that of the cascade stay. -/
theorem not_pics_clear :
    ¬ ∀ irqs : List (Fin 16), ∀ done, done <+: irqs →
      (idle.run done).master = ∅ ∧ (idle.run done).slave = ∅ ∧ Live (idle.run done) := by
  intro h
  obtain ⟨hmaster, -, -⟩ := h [12] [12] (List.prefix_refl _)
  have hcascade : cascade ∈ (idle.run [12]).master := by decide
  rw [hmaster] at hcascade
  exact absurd hcascade (Finset.notMem_empty cascade)

end MyOs.Boot
