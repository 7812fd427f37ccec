/-
  The keyboard when a user program exits.

  `syscall_handler` empties the queue with two assignments and leaves `last_f0` and `shift` alone.
  The scancodes it throws away may be the first half of a release, or the release of shift.

  1. **Program**: deliveries, polls and exits in any order (`Session.act`).  Beside the keyboard a
     session keeps the scancodes to come, those that are pending and those delivered so far, each
     with the event it belongs to.
  2. **Invariant** (`Session.Tracks`): against the decoder that sees every scancode, `last_f0` may
     be set too often and `shift` too rarely.  Polls keep this; an exit keeps it when `ExitOk`.
  3. **Runs** (`exit_keeps_step`): then no release types a character, and shift is released.
     An exit in the middle of a release breaks it (`not_exit_keeps_step`).
-/
import MyOs.Drivers.KeyEvents
import MyOs.Lib.GuardedRuns

namespace MyOs.Drivers

open MyOs.Lib.GuardedRuns

/-! ## The program -/

/-- A scancode, with the event it belongs to. -/
abbrev Sent := UInt8 × KeyEvent

/-- The scancodes of an event. -/
def KeyEvent.sent (e : KeyEvent) : List Sent := e.scancodes.map (·, e)

/-- `syscall_handler` for `eax = 1`: `key_buffer_read = 0`, `key_buffer_length = 0`. -/
def KeyQueue.exit (k : KeyQueue) : KeyQueue := { k with read := 0, length := 0 }

/-- The keyboard, the scancodes still to come, the pending ones, and all that were delivered. -/
structure Session where
  keyboard : Keyboard
  stream : List Sent
  pending : List Sent
  delivered : List Sent

/-- An interrupt, a call of `poll_char`, or the exit of a program. -/
inductive KeyAction where
  | deliver
  | poll
  | exit

/-- One action.  Where there is nothing to deliver or to poll it changes nothing. -/
def Session.act (s : Session) : KeyAction → Session
  | .deliver =>
    match s.stream with
    | [] => s
    | x :: stream =>
      { keyboard := { s.keyboard with queue := s.keyboard.queue.keyboardHandler x.1 }
        stream
        pending := s.pending ++ [x]
        delivered := s.delivered ++ [x] }
  | .poll =>
    { s with
      keyboard := s.keyboard.pollChar.2
      pending := if s.keyboard.queue.dequeue.isSome then s.pending.tail else s.pending }
  | .exit =>
    { s with
      keyboard := { s.keyboard with queue := s.keyboard.queue.exit }
      pending := [] }

/-- The keyboard before the first of the events. -/
def Session.start (k : Keyboard) (events : List KeyEvent) : Session :=
  ⟨k, events.flatMap KeyEvent.sent, [], []⟩

/-! ## What it should do -/

/-- The events whose last scancode is among these. -/
def completed (l : List Sent) : List KeyEvent :=
  (l.filter fun x => x.1 == x.2.key).map Prod.snd

/-- They end in the middle of a release. -/
def unfinished (l : List Sent) : Bool := l.getLast?.any fun x => x.1 == 0xF0

/-- A release that is polled types nothing, and with nothing pending shift is not set behind its
    release. -/
structure Session.InStep (s : Session) : Prop where
  release_nul : ∀ x rest, s.pending = x :: rest → x.2.pressed = false →
    s.keyboard.pollChar.1 = 0
  shift_clear : s.pending = [] → shiftHeld (completed s.delivered) = false →
    s.keyboard.shift = false

/-- A delivery finds room in the queue; an exit finds no half of a release that was not polled, and
    no shift that is set behind its release. -/
def ExitOk (s : Session) : KeyAction → Prop
  | .deliver => s.keyboard.queue.read.toNat + s.keyboard.queue.length.toNat < 256 ∧
      s.keyboard.queue.length.toNat < 255
  | .poll => True
  | .exit => (unfinished s.delivered = true → s.keyboard.lastF0 = true) ∧
      (s.keyboard.shift = true → shiftHeld (completed s.delivered) = true)

instance (s : Session) : ∀ a, Decidable (ExitOk s a)
  | .deliver => inferInstanceAs (Decidable (_ ∧ _))
  | .poll => inferInstanceAs (Decidable True)
  | .exit => inferInstanceAs (Decidable (_ ∧ _))

/-! ## One scancode more -/

theorem unfinished_concat (l : List Sent) (x : Sent) :
    unfinished (l ++ [x]) = (x.1 == 0xF0) := by
  rw [unfinished, List.getLast?_concat]
  rfl

/-- Only the last scancode counts. -/
theorem unfinished_append {l : List Sent} (l' : List Sent) (h : unfinished l' = false) :
    unfinished (l' ++ l) = unfinished l := by
  rcases List.eq_nil_or_concat' l with rfl | ⟨l, x, rfl⟩
  · rw [List.append_nil, h]
    rfl
  · rw [← List.append_assoc, unfinished_concat, unfinished_concat]

theorem completed_concat (l : List Sent) (x : Sent) :
    completed (l ++ [x]) = completed l ++ if x.1 = x.2.key then [x.2] else [] := by
  rw [completed, List.filter_append, List.map_append]
  refine congrArg (completed l ++ ·) ?_
  by_cases hkey : x.1 = x.2.key
  · rw [if_pos hkey, List.filter_cons_of_pos (by rwa [beq_iff_eq])]
    rfl
  · rw [if_neg hkey, List.filter_cons_of_neg (by rwa [beq_iff_eq])]
    rfl

/-- The next scancode of a stream of events is the prefix of a release, or a key: behind the prefix
    if it is released, and not if it is pressed. -/
theorem next_of_stream {events : List KeyEvent}
    (hvalid : ∀ e ∈ events, e.extended = false ∧ e.Valid) {l : List Sent} {x : Sent}
    (h : l ++ [x] <+: events.flatMap KeyEvent.sent) :
    x.2.Valid ∧ ((x.1 = 0xF0 ∧ x.2.pressed = false) ∨
      (x.1 = x.2.key ∧ unfinished l = !x.2.pressed)) := by
  induction events generalizing l with
  | nil => exact absurd (List.prefix_nil.mp h) (by simp)
  | cons e events ih =>
    obtain ⟨hplain, he⟩ := hvalid e List.mem_cons_self
    have hrest := fun l hl => ih (fun e' he' => hvalid e' (List.mem_cons_of_mem e he')) (l := l) hl
    -- a scancode without 0xF0 ends its event
    have hkey : unfinished [(e.key, e)] = false := beq_false_of_ne he.2.2
    rw [List.flatMap_cons] at h
    cases hpressed : e.pressed with
    | true =>
      -- a press is one scancode
      have hsent : e.sent = [(e.key, e)] := by
        rw [KeyEvent.sent, KeyEvent.scancodes, hplain, hpressed]
        rfl
      rw [hsent, List.singleton_append] at h
      cases l with
      | nil =>
        obtain ⟨rfl, -⟩ := List.cons_prefix_cons.mp h
        exact ⟨he, .inr ⟨rfl, by rw [hpressed]; rfl⟩⟩
      | cons y l =>
        obtain ⟨rfl, hl⟩ := List.cons_prefix_cons.mp h
        rw [← List.singleton_append, unfinished_append _ hkey]
        exact hrest l hl
    | false =>
      -- a release is two, and the stream may end between them
      have hsent : e.sent = [(0xF0, e), (e.key, e)] := by
        rw [KeyEvent.sent, KeyEvent.scancodes, hplain, hpressed]
        rfl
      rw [hsent] at h
      rcases l with _ | ⟨y, _ | ⟨z, l⟩⟩
      · obtain ⟨rfl, -⟩ := List.cons_prefix_cons.mp h
        exact ⟨he, .inl ⟨rfl, hpressed⟩⟩
      · obtain ⟨rfl, hl⟩ := List.cons_prefix_cons.mp h
        obtain ⟨rfl, -⟩ := List.cons_prefix_cons.mp hl
        exact ⟨he, .inr ⟨rfl, by rw [hpressed]; rfl⟩⟩
      · obtain ⟨rfl, hl⟩ := List.cons_prefix_cons.mp h
        obtain ⟨rfl, hl'⟩ := List.cons_prefix_cons.mp hl
        have hboth : unfinished [(0xF0, e), (e.key, e)] = false := hkey
        have hsplit : (0xF0, e) :: (e.key, e) :: l = [(0xF0, e), (e.key, e)] ++ l := rfl
        rw [hsplit, unfinished_append _ hboth]
        exact hrest l hl'

/-! ## The invariant -/

/-- The decoder after the scancodes `seen`: `last_f0` is set if they end in the middle of a release,
    and shift is set only if the last event of key `0x12` was a press. -/
def Keyboard.Follows (k : Keyboard) (seen : List Sent) : Prop :=
  (unfinished seen = true → k.lastF0 = true) ∧
    (k.shift = true → shiftHeld (completed seen) = true)

/-- The queue holds the pending scancodes, and the decoder follows the others. -/
structure Session.Tracks (events : List KeyEvent) (s : Session) : Prop where
  queue : s.keyboard.queue.Holds (s.pending.map Prod.fst)
  stream : s.delivered ++ s.stream = events.flatMap KeyEvent.sent
  follows : ∃ seen, s.delivered = seen ++ s.pending ∧ s.keyboard.Follows seen

/-- A scancode that may come next keeps the decoder following, and types nothing if it belongs to a
    release. -/
theorem Keyboard.Follows.decode {k : Keyboard} {seen : List Sent} (h : k.Follows seen)
    {x : Sent} (hvalid : x.2.Valid) (hnext : (x.1 = 0xF0 ∧ x.2.pressed = false) ∨
      (x.1 = x.2.key ∧ unfinished seen = !x.2.pressed)) :
    (k.decode x.1).2.Follows (seen ++ [x]) ∧ (x.2.pressed = false → (k.decode x.1).1 = 0) := by
  obtain ⟨hlastF0, hshift⟩ := h
  obtain ⟨scancode, e⟩ := x
  unfold Keyboard.Follows
  rw [unfinished_concat, completed_concat]
  rcases hnext with ⟨rfl, hpressed⟩ | ⟨hx, hunfinished⟩
  · -- the prefix of a release
    have hkey : ¬ 0xF0 = e.key := hvalid.2.2.symm
    rw [if_neg hkey, List.append_nil]
    exact ⟨⟨fun _ => rfl, hshift⟩, fun _ => rfl⟩
  · obtain rfl : scancode = e.key := hx
    have hkey : (e.key == 0xF0) = false := beq_false_of_ne hvalid.2.2
    rw [if_pos rfl, shiftHeld_concat, hkey]
    unfold Keyboard.decode
    rw [hkey, if_neg Bool.false_ne_true]
    dsimp only at hunfinished ⊢
    cases hset : k.lastF0 with
    | true =>
      -- the key is taken for a release
      rw [if_pos rfl]
      refine ⟨⟨fun h => absurd h Bool.false_ne_true, ?_⟩, fun _ => rfl⟩
      by_cases hx : e.key = 0x12
      · rw [hx]
        exact fun h => absurd h Bool.false_ne_true
      · rw [if_neg hx, beq_false_of_ne hx]
        exact hshift
    | false =>
      -- it is a press, for `last_f0` is set in the middle of a release
      have hpressed : e.pressed = true := by
        cases hp : e.pressed with
        | true => rfl
        | false =>
          rw [hp] at hunfinished
          exact absurd (hlastF0 hunfinished) (by rw [hset]; exact Bool.false_ne_true)
      rw [if_neg Bool.false_ne_true, hpressed]
      refine ⟨⟨fun h => absurd h Bool.false_ne_true, ?_⟩, fun h => absurd h.symm Bool.false_ne_true⟩
      by_cases hx : e.key = 0x12
      · rw [if_pos hx]
        exact fun _ => rfl
      · rw [if_neg hx, beq_false_of_ne hx]
        exact hshift

section Steps

variable {events : List KeyEvent} {s : Session}

/-- What the next poll decodes. -/
theorem Session.Tracks.poll_cons (hvalid : ∀ e ∈ events, e.extended = false ∧ e.Valid)
    (h : s.Tracks events) {x : Sent} {rest : List Sent} (hpending : s.pending = x :: rest) :
    (s.act .poll).Tracks events ∧ (x.2.pressed = false → s.keyboard.pollChar.1 = 0) := by
  obtain ⟨hqueue, hstream, seen, hseen, hfollows⟩ := h
  rw [hpending, List.map_cons] at hqueue
  have hsome : s.keyboard.queue.dequeue.map Prod.fst = some x.1 := hqueue.next
  obtain ⟨⟨scancode, queue⟩, hdequeue, rfl⟩ := Option.map_eq_some_iff.mp hsome
  obtain ⟨q, hq, hrest⟩ := hqueue.dequeue hdequeue
  obtain rfl := (List.cons.inj hq).2
  -- `x` is the next scancode of the stream
  rw [hpending] at hseen
  have hprefix : seen ++ [x] <+: events.flatMap KeyEvent.sent :=
    ⟨rest ++ s.stream, by
      rw [← hstream, hseen]
      simp only [List.append_assoc, List.cons_append, List.nil_append]⟩
  obtain ⟨hx, hnext⟩ := next_of_stream hvalid hprefix
  obtain ⟨hfollows', hnul⟩ :=
    Keyboard.Follows.decode (k := { s.keyboard with queue }) hfollows hx hnext
  have hpoll : s.keyboard.pollChar = ({ s.keyboard with queue } : Keyboard).decode x.1 := by
    unfold Keyboard.pollChar
    rw [hdequeue]
  refine ⟨⟨?_, hstream, seen ++ [x], ?_, ?_⟩, ?_⟩
  · show s.keyboard.pollChar.2.queue.Holds _
    rw [hpoll, Keyboard.decode_queue]
    simpa [Session.act, hdequeue, hpending] using hrest
  · show s.delivered = _
    rw [hseen, List.append_assoc]
    simp only [Session.act, hdequeue, hpending, Option.isSome_some, if_true, List.tail_cons,
      List.singleton_append]
  · show s.keyboard.pollChar.2.Follows _
    rwa [hpoll]
  · rwa [hpoll]

/-- A poll of an empty queue changes nothing. -/
theorem Session.Tracks.poll_nil (h : s.Tracks events) (hpending : s.pending = []) :
    s.act .poll = s := by
  have hqueue := h.queue
  rw [hpending, List.map_nil] at hqueue
  have hnone : s.keyboard.queue.dequeue.map Prod.fst = none := hqueue.next
  have hdequeue := Option.map_eq_none_iff.mp hnone
  obtain ⟨keyboard, stream, pending, delivered⟩ := s
  simp only [Session.act, Keyboard.pollChar_of_none hdequeue, hdequeue]
  rfl

/-- An action in step keeps the invariant. -/
theorem Session.Tracks.act (hvalid : ∀ e ∈ events, e.extended = false ∧ e.Valid)
    (h : s.Tracks events) {a : KeyAction} (hok : ExitOk s a) : (s.act a).Tracks events := by
  cases a with
  | deliver =>
    obtain ⟨hqueue, hstream, seen, hseen, hfollows⟩ := h
    unfold Session.act
    cases hnext : s.stream with
    | nil => exact ⟨hqueue, hstream, seen, hseen, hfollows⟩
    | cons x stream =>
      have hlength := hqueue.length_eq
      refine ⟨?_, ?_, seen, ?_, hfollows⟩
      · have happend := hqueue.keyboardHandler x.1 hok.1 (by have hroom := hok.2; omega)
        rwa [List.map_append]
      · dsimp only
        rw [← hstream, hnext, List.append_assoc, List.singleton_append]
      · dsimp only
        rw [hseen, List.append_assoc]
  | poll =>
    cases hpending : s.pending with
    | nil => rwa [h.poll_nil hpending]
    | cons x rest => exact (h.poll_cons hvalid hpending).1
  | exit =>
    -- everything delivered has now been seen
    exact ⟨KeyQueue.holds_nil rfl, h.stream, s.delivered, (List.append_nil _).symm, hok⟩

/-- In a state of the invariant the decoder is in step. -/
theorem Session.Tracks.inStep (hvalid : ∀ e ∈ events, e.extended = false ∧ e.Valid)
    (h : s.Tracks events) : s.InStep where
  release_nul := fun _ _ hpending => (h.poll_cons hvalid hpending).2
  shift_clear := by
    intro hpending hheld
    obtain ⟨-, -, seen, hseen, hfollows⟩ := h
    rw [hpending, List.append_nil] at hseen
    rw [hseen] at hheld
    cases hshift : s.keyboard.shift with
    | false => rfl
    | true => exact absurd (hfollows.2 hshift) (by rw [hheld]; exact Bool.false_ne_true)

end Steps

/-! ## Runs -/

/-- **Exits keep the decoder in step** in every run in which no exit finds a half release that was
    not polled or a shift that is set behind its release, and every delivery finds room. -/
theorem exit_keeps_step {k : Keyboard} (hlength : k.queue.length = 0) (hshift : k.shift = false)
    {events : List KeyEvent} (hevents : ∀ e ∈ events, e.extended = false ∧ e.Valid)
    {actions : List KeyAction}
    (hok : Guarded (fun s a => some (Session.act s a)) ExitOk (.start k events) actions) :
    (actions.foldl Session.act (.start k events)).InStep := by
  have hstart : (Session.start k events).Tracks events :=
    ⟨KeyQueue.holds_nil hlength, rfl, [], rfl, fun h => absurd h Bool.false_ne_true,
      fun h => absurd (hshift.symm.trans h) Bool.false_ne_true⟩
  obtain ⟨s, hrun, hs⟩ := hok.run (Session.Tracks events)
    (fun s a hs ha => ⟨s.act a, rfl, hs.act hevents ha⟩) hstart
  have hfold : actions.foldlM (m := Option) (fun s a => some (Session.act s a)) (.start k events)
      = some (actions.foldl Session.act (.start k events)) := List.foldlM_pure
  rw [← Option.some.inj (hfold.symm.trans hrun)] at hs
  exact hs.inStep hevents

/-- A program exits while shift is held and nothing is pending. -/
theorem exit_keeps_step_shift : Session.InStep
    ([.deliver, .poll, .exit, .deliver, .deliver, .poll, .poll].foldl Session.act
      (.start emptyKeyboard [⟨false, true, 0x12⟩, ⟨false, false, 0x12⟩])) := by
  refine exit_keeps_step rfl rfl (by unfold KeyEvent.Valid; decide) ?_
  simp only [guarded_total]
  exact ⟨by decide, trivial, by decide, by decide, by decide, trivial, trivial, trivial⟩

/-- **An exit in the middle of a release**: the key `a` goes up, a program exits between its two
    scancodes, and the second one types an `a`. -/
theorem not_exit_keeps_step :
    ¬ ∀ (events : List KeyEvent) (actions : List KeyAction),
      (∀ e ∈ events, e.extended = false ∧ e.Valid) →
      (actions.foldl Session.act (.start emptyKeyboard events)).InStep := by
  intro h
  have hinStep := h [⟨false, true, 0x1C⟩, ⟨false, false, 0x1C⟩]
    [.deliver, .poll, .deliver, .exit, .deliver] (by unfold KeyEvent.Valid; decide)
  exact absurd (hinStep.release_nul _ [] rfl rfl) (by decide)

end MyOs.Drivers
