/-
  `poll_char` against the keyboard interrupt.

  The interrupt is enabled while `poll_char` runs, and it can strike between the two updates of the
  dequeue: `fetch` reads `key_buffer[key_buffer_read++]`, `commit` decrements
  `key_buffer_length`.  The handler computes its slot from both counters.

  1. **Program**: `fetch` and `commit`; one after the other they are the `dequeue` of a complete
     call (`dequeue_eq`).
  2. **Invariant** (`PollState.Holds`): in between, the queue is the one that `commit` will leave.
  3. **Runs** (`poll_fifo`): with at most 255 deliveries, none of them in between, the queue is
     first in, first out and every slot is written before it is read.  One delivery in between
     skips a slot (`not_poll_fifo_between`).
-/
import MyOs.Drivers.Keyboard

namespace MyOs.Drivers

open MyOs.Lib.Fifo

/-! ## The program -/

/-- `scancode = key_buffer[key_buffer_read++]`. -/
def KeyQueue.fetch (k : KeyQueue) : UInt8 × KeyQueue :=
  (k.buffer k.read.toNat, { k with read := k.read + 1 })

/-- `key_buffer_length--`. -/
def KeyQueue.commit (k : KeyQueue) : KeyQueue := { k with length := k.length - 1 }

/-- A complete call does both. -/
theorem KeyQueue.dequeue_eq (k : KeyQueue) : k.dequeue =
    if k.length > 0 then some (k.fetch.1, k.fetch.2.commit) else none := rfl

/-- The queue, with `poll_char` before the dequeue or in the middle of it.  The two lists record
    the slots the handler has written, and those that were read before. -/
structure PollState where
  queue : KeyQueue
  fetched : Bool
  written : List Nat
  unwritten : List Nat

/-- The slot `keyboard_handler` writes. -/
def KeyQueue.slot (k : KeyQueue) : Nat := k.read.toNat + k.length.toNat

/-- One interrupt, or one half of the dequeue. -/
inductive PollStep : PollState → Label UInt8 → PollState → Prop where
  | interrupt (s : PollState) (scancode : UInt8) :
      PollStep s (.push scancode)
        { s with
          queue := s.queue.keyboardHandler scancode
          written := s.queue.slot :: s.written }
  | fetch {s : PollState} (h : s.fetched = false) (hlength : s.queue.length > 0) :
      PollStep s (.pop s.queue.fetch.1)
        { s with
          queue := s.queue.fetch.2
          fetched := true
          unwritten := if s.queue.read.toNat ∈ s.written then s.unwritten
            else s.queue.read.toNat :: s.unwritten }
  | commit {s : PollState} (h : s.fetched = true) :
      PollStep s .silent { s with queue := s.queue.commit, fetched := false }

/-- An empty queue, whatever the buffer holds. -/
def PollState.start (buffer : Nat → UInt8) : PollState := ⟨⟨buffer, 0, 0⟩, false, [], []⟩

/-- No interrupt strikes between the two halves of the dequeue. -/
def NotBetween (s : PollState) : Label UInt8 → Prop
  | .push _ => s.fetched = false
  | _ => True

/-! ## The invariant -/

/-- The queue as a complete call leaves it. -/
def PollState.settled (s : PollState) : KeyQueue := if s.fetched then s.queue.commit else s.queue

/-- The settled queue holds the pending scancodes `q`, its slots are counted by the deliveries, all
    of these are written, and none was read before. -/
structure PollState.Holds (s : PollState) (q : List UInt8) : Prop where
  queue : s.settled.Holds q
  count : s.settled.read.toNat + q.length = s.written.length
  total : s.written.length ≤ 255
  written : ∀ i, i < s.written.length → i ∈ s.written
  unwritten : s.unwritten = []

theorem PollState.holds_start (buffer : Nat → UInt8) : (PollState.start buffer).Holds [] where
  queue := KeyQueue.holds_nil rfl
  count := rfl
  total := Nat.zero_le _
  written := fun i h => absurd h (Nat.not_lt_zero i)
  unwritten := rfl

/-- An interrupt outside the dequeue writes the next slot. -/
theorem PollState.Holds.interrupt {s : PollState} {q : List UInt8} (h : s.Holds q)
    (hfetched : s.fetched = false) (htotal : s.written.length < 255) (scancode : UInt8) :
    PollState.Holds { s with
      queue := s.queue.keyboardHandler scancode
      written := s.queue.slot :: s.written } (q ++ [scancode]) := by
  have hsettled : s.settled = s.queue := by rw [settled, hfetched]; rfl
  have hqueue := h.queue
  have hcount := h.count
  rw [hsettled] at hqueue hcount
  have hslot : s.queue.slot = s.written.length := by
    rw [KeyQueue.slot, hqueue.length_eq, hcount]
  -- the new scancode goes behind the pending ones, as long as no index overflows
  have hsettled' : PollState.settled { s with
      queue := s.queue.keyboardHandler scancode
      written := s.queue.slot :: s.written } = s.queue.keyboardHandler scancode := by
    rw [settled, hfetched]
    rfl
  refine ⟨?_, ?_, ?_, ?_, h.unwritten⟩
  · rw [hsettled']
    refine hqueue.keyboardHandler scancode ?_ (by omega)
    rw [hqueue.length_eq]
    omega
  · rw [hsettled', List.length_append, List.length_singleton]
    show s.queue.read.toNat + _ = s.written.length + 1
    omega
  · exact htotal
  · intro i hi
    show i ∈ s.queue.slot :: s.written
    rw [hslot]
    rcases Nat.lt_or_eq_of_le (Nat.le_of_lt_succ hi) with hold | rfl
    · exact List.mem_cons_of_mem _ (h.written i hold)
    · exact List.mem_cons_self

/-- The first half of the dequeue takes the first pending scancode, from a slot that was written. -/
theorem PollState.Holds.fetch {s : PollState} {q : List UInt8} (h : s.Holds q)
    (hfetched : s.fetched = false) (hlength : s.queue.length > 0) :
    ∃ q', q = s.queue.fetch.1 :: q' ∧ PollState.Holds { s with
      queue := s.queue.fetch.2
      fetched := true
      unwritten := if s.queue.read.toNat ∈ s.written then s.unwritten
        else s.queue.read.toNat :: s.unwritten } q' := by
  have hsettled : s.settled = s.queue := by rw [settled, hfetched]; rfl
  have hqueue := h.queue
  have hcount := h.count
  rw [hsettled] at hqueue hcount
  obtain ⟨q', rfl, hq'⟩ := hqueue.dequeue ((KeyQueue.dequeue_eq s.queue).trans (if_pos hlength))
  have htotal := h.total
  rw [List.length_cons] at hcount
  refine ⟨q', rfl, hq', ?_, htotal, h.written, ?_⟩
  · show (s.queue.read + 1).toNat + q'.length = s.written.length
    rw [UInt8.toNat_add, UInt8.toNat_one]
    omega
  · show (if s.queue.read.toNat ∈ s.written then _ else _) = []
    rw [if_pos (h.written _ (by omega)), h.unwritten]

/-- One step that does not strike in between keeps the invariant, with a step of the queue. -/
theorem PollStep.holds {s s' : PollState} {l : Label UInt8} {q : List UInt8}
    (h : PollStep s l s') (hbetween : NotBetween s l) (hq : s.Holds q)
    (htotal : ∀ a, l = .push a → s.written.length < 255) : ∃ q', Step q l q' ∧ s'.Holds q' := by
  cases h with
  | interrupt scancode =>
    exact ⟨_, .push q scancode, hq.interrupt hbetween (htotal scancode rfl) scancode⟩
  | fetch hfetched hlength =>
    obtain ⟨q', rfl, hq'⟩ := hq.fetch hfetched hlength
    exact ⟨q', .pop q' _, hq'⟩
  | commit hfetched =>
    refine ⟨q, .silent q, ?_, ?_, hq.total, hq.written, hq.unwritten⟩
    · have hqueue := hq.queue
      rwa [PollState.settled, hfetched] at hqueue
    · have hcount := hq.count
      rwa [PollState.settled, hfetched] at hcount

/-! ## Runs -/

/-- **The dequeue is safe outside its middle**: in every run with at most 255 deliveries, none of
    them between the two halves of the dequeue, what was dequeued is what was delivered, in order
    and up to the pending scancodes, and no slot was read before it was written. -/
theorem poll_fifo {buffer : Nat → UInt8} {s : PollState} {ls : List (Label UInt8)}
    (hrun : Run (fun s l s' => PollStep s l s' ∧ NotBetween s l) (.start buffer) ls s)
    (htotal : (pushed ls).length ≤ 255) :
    ∃ pending, pushed ls = popped ls ++ pending ∧ s.unwritten = [] ∧
      (s.fetched = false → s.queue.dequeue.map Prod.fst = pending.head?) := by
  have hguarded := hrun.guard_total (fun s => s.written.length) 255
    (fun s a s' h => by cases h.1; rfl) (fun s a s' h => by cases h.1; rfl)
    (fun s s' h => by cases h.1; rfl) (by rw [Nat.add_comm]; exact htotal)
  obtain ⟨pending, hfifo, hholds⟩ := hguarded.simulate
    (fun s l s' q hstep hq _ => hstep.1.1.holds hstep.1.2 hq hstep.2) []
    (PollState.holds_start buffer) (bounded_of_total htotal)
  refine ⟨pending, hfifo.conservation, hholds.unwritten, fun hfetched => ?_⟩
  have hqueue := hholds.queue
  rw [PollState.settled, hfetched] at hqueue
  exact KeyQueue.Holds.next hqueue

/-- Two keys, a third one behind the first dequeue, and a second dequeue: the third is next. -/
theorem poll_fifo_threeKeys : ∃ s,
    Run PollStep (.start fun _ => 0) [.push 0x1C, .push 0x32, .pop 0x1C, .silent, .push 0x21,
      .pop 0x32, .silent] s ∧
    s.unwritten = [] ∧ s.queue.dequeue.map Prod.fst = some 0x21 := by
  have hrun : ∃ s, s.fetched = false ∧ Run (fun s l s' => PollStep s l s' ∧ NotBetween s l)
      (.start fun _ => 0) [.push 0x1C, .push 0x32, .pop 0x1C, .silent, .push 0x21, .pop 0x32,
        .silent] s :=
    ⟨_, rfl, .cons ⟨.interrupt _ 0x1C, rfl⟩ (.cons ⟨.interrupt _ 0x32, rfl⟩
      (.cons ⟨.fetch rfl (by decide), trivial⟩ (.cons ⟨.commit rfl, trivial⟩
        (.cons ⟨.interrupt _ 0x21, rfl⟩ (.cons ⟨.fetch rfl (by decide), trivial⟩
          (.cons ⟨.commit rfl, trivial⟩ (.nil _)))))))⟩
  obtain ⟨s, hfetched, hrun⟩ := hrun
  obtain ⟨pending, hfifo, hunwritten, hnext⟩ := poll_fifo hrun (by decide)
  have hsplit : [0x1C, 0x32] ++ [0x21] = [0x1C, 0x32] ++ pending := hfifo
  obtain rfl := List.append_cancel_left hsplit
  exact ⟨s, hrun.mono fun _ _ _ h => h.1, hunwritten, hnext hfetched⟩

/-- **An interrupt between the two halves** moves the handler one slot too far: the scancode it
    delivers goes to slot 2, and the next dequeue reads slot 1, which nothing has written. -/
theorem not_poll_fifo_between :
    ¬ ∀ (buffer : Nat → UInt8) (s : PollState) (ls : List (Label UInt8)),
      Run PollStep (.start buffer) ls s → (pushed ls).length ≤ 255 →
      popped ls <+: pushed ls ∧ s.unwritten = [] := by
  intro h
  have hrun : ∃ s, Run PollStep (.start fun _ => 0)
      [.push 0x1C, .pop 0x1C, .push 0x32, .silent, .pop 0] s :=
    ⟨_, .cons (.interrupt _ 0x1C) (.cons (.fetch rfl (by decide)) (.cons (.interrupt _ 0x32)
      (.cons (.commit rfl) (.cons (.fetch rfl (by decide)) (.nil _)))))⟩
  obtain ⟨s, hrun⟩ := hrun
  have hprefix := (h _ s _ hrun (by decide)).1
  exact absurd hprefix (by decide)

end MyOs.Drivers
