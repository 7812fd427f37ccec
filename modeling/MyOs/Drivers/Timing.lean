/-
  The sleep functions, which wait until the timer interrupt has counted far enough.

  While a function waits, interrupts strike between any two of its checks.  A run is the order in
  which the interrupts and the checks come; `occurred` counts the timer interrupts since the
  function has read `pit_ticks`.

  1. **Invariant** (`WaitState.Counts`): `pit_ticks` is where it started plus what has occurred,
     modulo 2^32.
  2. **When it may return** (`waitFor_returns_iff`): after any number of ticks for which the check
     fails, and no other.
  3. **The bound** (`sleep_waits_iff`): the check compares without regard for the overflow, so the
     function waits long enough exactly when neither the sum nor the product overflows.
-/
import Mathlib.Algebra.Group.Nat.Defs
import Mathlib.Data.List.Basic

namespace MyOs.Drivers

/-! ## The program -/

/-- `pit_handler`, as far as the count is concerned. -/
def pitHandler (pitTicks : UInt32) : UInt32 := pitTicks + 1

/-- What can happen next: the timer interrupt, another one, or the check of the loop. -/
inductive WaitEvent where
  | timer
  | interrupt
  | check
  deriving DecidableEq

/-- A waiting function.  When the processor is halted it does not go on before an interrupt. -/
structure WaitState where
  pitTicks : UInt32
  occurred : Nat
  halted : Bool
  returned : Bool

/-- `while (pit_ticks < target)`, with `HLT` in its body or without. -/
def waitStep (hlt : Bool) (target : UInt32) (s : WaitState) (e : WaitEvent) : WaitState :=
  if s.returned then s
  else match e with
    | .timer =>
      { s with pitTicks := pitHandler s.pitTicks, occurred := s.occurred + 1, halted := false }
    | .interrupt => { s with halted := false }
    | .check =>
      if s.halted then s
      else if s.pitTicks < target then { s with halted := hlt }
      else { s with returned := true }

/-- The function from the moment it has read `pit_ticks`. -/
def waitFor (hlt : Bool) (target pitTicks : UInt32) (events : List WaitEvent) : WaitState :=
  events.foldl (waitStep hlt target) ⟨pitTicks, 0, false, false⟩

/-- `kernel_sleep`. -/
def kernelSleep (pitTicks ms : UInt32) : List WaitEvent → WaitState :=
  waitFor true (pitTicks + ms) pitTicks

/-- `kernel_sleep_seconds`. -/
def kernelSleepSeconds (pitTicks seconds : UInt32) : List WaitEvent → WaitState :=
  waitFor true (pitTicks + seconds * 1000) pitTicks

/-- `sleep`. -/
def sleep (pitTicks ms : UInt32) : List WaitEvent → WaitState :=
  waitFor false (pitTicks + ms) pitTicks

/-- `sleep_seconds`. -/
def sleepSeconds (pitTicks seconds : UInt32) : List WaitEvent → WaitState :=
  waitFor false (pitTicks + seconds * 1000) pitTicks

/-- It never returns before so many ticks have occurred, whatever the order of events. -/
def WaitsAtLeast (duration : Nat) (run : List WaitEvent → WaitState) : Prop :=
  ∀ events, (run events).returned = true → duration ≤ (run events).occurred

/-! ## The count -/

variable {hlt : Bool} {target pitTicks : UInt32}

/-- The count goes on from `pitTicks`, and a function that has returned has seen the target. -/
structure WaitState.Counts (pitTicks target : UInt32) (s : WaitState) : Prop where
  count : s.pitTicks = pitTicks + UInt32.ofNat s.occurred
  passed : s.returned = true → ¬ s.pitTicks < target

theorem counts_waitStep {s : WaitState} (h : s.Counts pitTicks target) (e : WaitEvent) :
    (waitStep hlt target s e).Counts pitTicks target := by
  unfold waitStep
  split
  · exact h
  · rename_i hreturned
    cases e with
    | timer =>
      refine ⟨?_, fun hreturned' => absurd hreturned' hreturned⟩
      show s.pitTicks + 1 = pitTicks + UInt32.ofNat (s.occurred + 1)
      rw [h.count, UInt32.ofNat_add, UInt32.add_assoc]
      rfl
    | interrupt => exact ⟨h.count, h.passed⟩
    | check =>
      show WaitState.Counts pitTicks target (if s.halted then s else _)
      split_ifs with hhalted hless
      · exact h
      · exact ⟨h.count, h.passed⟩
      · exact ⟨h.count, fun _ => hless⟩

theorem counts_foldl {s : WaitState} (h : s.Counts pitTicks target) (events : List WaitEvent) :
    (events.foldl (waitStep hlt target) s).Counts pitTicks target := by
  induction events generalizing s with
  | nil => exact h
  | cons e events ih => exact ih (counts_waitStep h e)

theorem counts_waitFor (hlt : Bool) (target pitTicks : UInt32) (events : List WaitEvent) :
    (waitFor hlt target pitTicks events).Counts pitTicks target :=
  counts_foldl ⟨(UInt32.add_zero pitTicks).symm, fun h => absurd h Bool.false_ne_true⟩ events

/-- Nothing but timer interrupts. -/
theorem waitFor_timers (hlt : Bool) (target pitTicks : UInt32) : ∀ (n k : Nat),
    (List.replicate n .timer).foldl (waitStep hlt target)
        ⟨pitTicks + UInt32.ofNat k, k, false, false⟩
      = ⟨pitTicks + UInt32.ofNat (k + n), k + n, false, false⟩
  | 0, _ => rfl
  | n + 1, k => by
    -- one tick, before the first check
    have hstep : waitStep hlt target ⟨pitTicks + UInt32.ofNat k, k, false, false⟩ .timer
        = ⟨pitTicks + UInt32.ofNat (k + 1), k + 1, false, false⟩ := by
      have hcount : pitHandler (pitTicks + UInt32.ofNat k) = pitTicks + UInt32.ofNat (k + 1) := by
        rw [pitHandler, UInt32.ofNat_add, UInt32.add_assoc]
        rfl
      rw [← hcount]
      rfl
    rw [List.replicate_succ, List.foldl_cons, hstep, waitFor_timers hlt target pitTicks n (k + 1)]
    have hsum : k + 1 + n = k + (n + 1) := by omega
    rw [hsum]

/-- **When it may return**: after the ticks for which the check fails, and after no others. -/
theorem waitFor_returns_iff (hlt : Bool) (target pitTicks : UInt32) {n : Nat} :
    (∃ events, (waitFor hlt target pitTicks events).returned = true ∧
        (waitFor hlt target pitTicks events).occurred = n) ↔
      ¬ pitTicks + UInt32.ofNat n < target := by
  constructor
  · rintro ⟨events, hreturned, rfl⟩
    have hcounts := counts_waitFor hlt target pitTicks events
    rw [← hcounts.count]
    exact hcounts.passed hreturned
  · intro hpassed
    -- so many ticks, and then a check
    have htimers := waitFor_timers hlt target pitTicks n 0
    rw [show UInt32.ofNat 0 = 0 from rfl, UInt32.add_zero, Nat.zero_add] at htimers
    have hrun : waitFor hlt target pitTicks (List.replicate n .timer ++ [.check])
        = ⟨pitTicks + UInt32.ofNat n, n, false, true⟩ := by
      rw [waitFor, List.foldl_append, htimers, List.foldl_cons, List.foldl_nil]
      show (if pitTicks + UInt32.ofNat n < target then _ else _) = _
      rw [if_neg hpassed]
    refine ⟨List.replicate n .timer ++ [.check], ?_, ?_⟩
    · rw [hrun]
    · rw [hrun]

/-- So the bound is a property of the numbers alone. -/
theorem waitsAtLeast_iff {duration : Nat} : WaitsAtLeast duration (waitFor hlt target pitTicks) ↔
    ∀ n, ¬ pitTicks + UInt32.ofNat n < target → duration ≤ n := by
  constructor
  · intro h n hpassed
    obtain ⟨events, hreturned, rfl⟩ := (waitFor_returns_iff hlt target pitTicks).mpr hpassed
    exact h events hreturned
  · intro h events hreturned
    exact h _ ((waitFor_returns_iff hlt target pitTicks).mp ⟨events, hreturned, rfl⟩)

/-! ## The bound -/

/-- A wait until `pit_ticks` plus a duration, with an overflow in either, ends too early. -/
theorem waitsAtLeast_add_iff (hlt : Bool) (pitTicks : UInt32) (duration : Nat) :
    WaitsAtLeast duration (waitFor hlt (pitTicks + UInt32.ofNat duration) pitTicks) ↔
      pitTicks.toNat + duration < 2 ^ 32 := by
  have hstart := pitTicks.toNat_lt
  have hcount : ∀ n, (pitTicks + UInt32.ofNat n).toNat = (pitTicks.toNat + n) % 2 ^ 32 := by
    intro n
    rw [UInt32.toNat_add, UInt32.toNat_ofNat', Nat.add_mod_mod]
  rw [waitsAtLeast_iff]
  constructor
  · intro h
    by_contra hover
    rcases Nat.lt_or_ge (pitTicks.toNat + duration % 2 ^ 32) (2 ^ 32) with hlt | hge
    · -- the duration itself is too large: the target is reached after what is left of it
      have hpassed : ¬ pitTicks + UInt32.ofNat (duration % 2 ^ 32)
          < pitTicks + UInt32.ofNat duration := by
        rw [UInt32.lt_iff_toNat_lt, hcount, hcount, Nat.add_mod_mod]
        exact Nat.lt_irrefl _
      have hle := h _ hpassed
      omega
    · -- the target lies behind `pit_ticks`: the first check fails
      have hpassed : ¬ pitTicks + UInt32.ofNat 0 < pitTicks + UInt32.ofNat duration := by
        rw [UInt32.lt_iff_toNat_lt, hcount, hcount]
        omega
      have hle := h _ hpassed
      omega
  · intro hfits n hpassed
    -- without an overflow the check fails from the target on
    rw [UInt32.lt_iff_toNat_lt, hcount, hcount] at hpassed
    by_contra hearly
    omega

theorem seconds_mul_eq (seconds : UInt32) : seconds * 1000 = UInt32.ofNat (1000 * seconds.toNat) := by
  rw [UInt32.ofNat_mul, UInt32.ofNat_toNat, UInt32.mul_comm]
  rfl

/-- **The sleep functions** wait as long as they should exactly when the end of the wait, counted
    without overflow, is below 2^32. -/
theorem sleep_waits_iff (pitTicks : UInt32) :
    (∀ ms : UInt32, WaitsAtLeast ms.toNat (kernelSleep pitTicks ms) ↔
      pitTicks.toNat + ms.toNat < 2 ^ 32) ∧
    (∀ ms : UInt32, WaitsAtLeast ms.toNat (sleep pitTicks ms) ↔
      pitTicks.toNat + ms.toNat < 2 ^ 32) ∧
    (∀ seconds : UInt32,
      WaitsAtLeast (1000 * seconds.toNat) (kernelSleepSeconds pitTicks seconds) ↔
        pitTicks.toNat + 1000 * seconds.toNat < 2 ^ 32) ∧
    (∀ seconds : UInt32, WaitsAtLeast (1000 * seconds.toNat) (sleepSeconds pitTicks seconds) ↔
      pitTicks.toNat + 1000 * seconds.toNat < 2 ^ 32) := by
  refine ⟨fun ms => ?_, fun ms => ?_, fun seconds => ?_, fun seconds => ?_⟩
  · have h := waitsAtLeast_add_iff true pitTicks ms.toNat
    rwa [UInt32.ofNat_toNat] at h
  · have h := waitsAtLeast_add_iff false pitTicks ms.toNat
    rwa [UInt32.ofNat_toNat] at h
  · have h := waitsAtLeast_add_iff true pitTicks (1000 * seconds.toNat)
    rwa [← seconds_mul_eq] at h
  · have h := waitsAtLeast_add_iff false pitTicks (1000 * seconds.toNat)
    rwa [← seconds_mul_eq] at h

/-- One tick before the overflow a wait of two ticks ends at its first check; and so does, at any
    time, a wait of 2^29 seconds. -/
theorem not_sleep_waits :
    (¬ ∀ pitTicks ms : UInt32,
      WaitsAtLeast ms.toNat (kernelSleep pitTicks ms) ∧ WaitsAtLeast ms.toNat (sleep pitTicks ms)) ∧
    (¬ ∀ pitTicks seconds : UInt32,
      WaitsAtLeast (1000 * seconds.toNat) (kernelSleepSeconds pitTicks seconds) ∧
      WaitsAtLeast (1000 * seconds.toNat) (sleepSeconds pitTicks seconds)) := by
  constructor
  · intro h
    have hearly := (h 4294967295 2).1 [.check] (by decide)
    exact absurd hearly (by decide)
  · intro h
    have hearly := (h 0 536870912).1 [.check] (by decide)
    exact absurd hearly (by decide)

end MyOs.Drivers
