/-
  `poll_char` against key events.

  A keyboard sends an event as one to three scancodes: `0xE0` before an extended key, `0xF0` before
  a release, the key.  `poll_char` remembers the `0xF0` and the state of shift, and knows nothing
  of `0xE0`.

  1. **Program**: `Keyboard.feed` delivers one scancode and polls it.  What it does to `last_f0`
     and `shift` is `decodeFlags` (`run_feed`).
  2. **Specification**: `shiftHeld` and `typed` speak about the events alone.
  3. **Typing** (`pollChar_types`): the characters that are not NUL are those of the presses.
  4. **Shift** (`shift_of_events`): the flag is the last event of key `0x12`, extended or not; so
     the fake shifts of extended keys do change it (`not_extended_ignored`).
-/
import MyOs.Drivers.Keyboard
import MyOs.Lib.Mealy

namespace MyOs.Drivers

open MyOs.Lib.Mealy

/-! ## Events and their scancodes -/

/-- A key goes down or up. -/
structure KeyEvent where
  extended : Bool
  pressed : Bool
  key : UInt8
  deriving DecidableEq

/-- What the keyboard sends, in scan code set 2. -/
def KeyEvent.scancodes (e : KeyEvent) : List UInt8 :=
  (if e.extended then [0xE0] else []) ++ (if e.pressed then [] else [0xF0]) ++ [e.key]

/-- The scancode of a key is none of the prefixes. -/
def KeyEvent.Valid (e : KeyEvent) : Prop := e.key ≠ 0xE0 ∧ e.key ≠ 0xE1 ∧ e.key ≠ 0xF0

/-- One scancode, delivered and polled. -/
def Keyboard.feed (k : Keyboard) (scancode : UInt8) : UInt8 × Keyboard :=
  Keyboard.pollChar { k with queue := k.queue.keyboardHandler scancode }

/-! ## The specification -/

/-- The last event of key `0x12` was a press. -/
def shiftHeld (events : List KeyEvent) : Bool :=
  ((events.filter (·.key == 0x12)).getLast?.map KeyEvent.pressed).getD false

/-- What an event types: a press of a key of the table types its character, shifted or not. -/
def typed (before : List KeyEvent) (e : KeyEvent) : List UInt8 :=
  if e.pressed then
    match keys.find? (·.1 == e.key) with
    | some (_, plain, shifted) => [(if shiftHeld before then shifted else plain).toUInt8]
    | none => []
  else []

theorem shiftHeld_concat (events : List KeyEvent) (e : KeyEvent) :
    shiftHeld (events ++ [e]) = if e.key = 0x12 then e.pressed else shiftHeld events := by
  unfold shiftHeld
  rw [List.filter_append]
  by_cases hkey : e.key = 0x12
  · rw [if_pos hkey, List.filter_cons_of_pos (by rw [hkey]; rfl), List.filter_nil,
      List.getLast?_concat]
    rfl
  · rw [if_neg hkey, List.filter_cons_of_neg (by rwa [beq_iff_eq]), List.filter_nil,
      List.append_nil]

/-! ## The two flags -/

/-- `poll_char` on `last_f0` and `shift` alone. -/
def decodeFlags (flags : Bool × Bool) (scancode : UInt8) : UInt8 × Bool × Bool :=
  if scancode = 0xF0 then (0, true, flags.2)
  else if flags.1 then (0, false, if scancode = 0x12 then false else flags.2)
  else if scancode = 0x12 then (0, false, true)
  else (keyChar flags.2 scancode, false, flags.2)

theorem Keyboard.decode_eq (k : Keyboard) (scancode : UInt8) : k.decode scancode
    = ((decodeFlags (k.lastF0, k.shift) scancode).1,
      { k with
        lastF0 := (decodeFlags (k.lastF0, k.shift) scancode).2.1
        shift := (decodeFlags (k.lastF0, k.shift) scancode).2.2 }) := by
  obtain ⟨queue, lastF0, shift⟩ := k
  unfold Keyboard.decode decodeFlags
  cases lastF0 <;> simp only [beq_iff_eq, if_true, if_false, Bool.false_eq_true] <;>
    split_ifs <;> rfl

/-- From an empty queue `feed` decodes the scancode it delivers, and leaves the queue empty. -/
theorem Keyboard.feed_eq {k : Keyboard} (hlength : k.queue.length = 0) (scancode : UInt8) :
    (k.feed scancode).1 = (decodeFlags (k.lastF0, k.shift) scancode).1 ∧
    (k.feed scancode).2.queue.length = 0 ∧
    ((k.feed scancode).2.lastF0, (k.feed scancode).2.shift)
      = (decodeFlags (k.lastF0, k.shift) scancode).2 := by
  unfold Keyboard.feed Keyboard.pollChar
  rw [KeyQueue.dequeue_keyboardHandler hlength]
  dsimp only
  rw [Keyboard.decode_eq]
  exact ⟨rfl, rfl, rfl⟩

theorem run_feed : ∀ (scancodes : List UInt8) {k : Keyboard}, k.queue.length = 0 →
    (run Keyboard.feed k scancodes).1 = (run decodeFlags (k.lastF0, k.shift) scancodes).1 ∧
    (run Keyboard.feed k scancodes).2.queue.length = 0 ∧
    ((run Keyboard.feed k scancodes).2.lastF0, (run Keyboard.feed k scancodes).2.shift)
      = (run decodeFlags (k.lastF0, k.shift) scancodes).2
  | [], _, hlength => ⟨rfl, hlength, rfl⟩
  | scancode :: scancodes, k, hlength => by
    obtain ⟨hchar, hlength', hflags⟩ := Keyboard.feed_eq hlength scancode
    obtain ⟨hchars, hlength'', hflags'⟩ := run_feed scancodes hlength'
    rw [hflags] at hchars hflags'
    refine ⟨?_, hlength'', hflags'⟩
    rw [run, run, hchar, hchars]

/-- One event from a state without a pending `0xF0`. -/
theorem run_decodeFlags_event {e : KeyEvent} (hvalid : e.Valid) (shift : Bool) :
    run decodeFlags (false, shift) e.scancodes
      = ((if e.extended then [0] else []) ++ (if e.pressed then
          [if e.key = 0x12 then 0 else keyChar shift e.key] else [0, 0]),
        (false, if e.key = 0x12 then e.pressed else shift)) := by
  obtain ⟨extended, pressed, key⟩ := e
  obtain ⟨-, -, hkey⟩ := hvalid
  have hE0 : keyChar shift 0xE0 = 0 := by cases shift <;> rfl
  have hstep : decodeFlags (false, shift) 0xE0 = (0, false, shift) := by
    rw [← hE0]
    rfl
  have hpress : decodeFlags (false, shift) key
      = (if key = 0x12 then 0 else keyChar shift key, false,
        if key = 0x12 then true else shift) := by
    unfold decodeFlags
    rw [if_neg hkey, if_neg Bool.false_ne_true]
    split_ifs <;> rfl
  have hrelease : decodeFlags (true, shift) key
      = (0, false, if key = 0x12 then false else shift) := by
    unfold decodeFlags
    rw [if_neg hkey, if_pos rfl]
  have hF0 : decodeFlags (false, shift) 0xF0 = (0, true, shift) := rfl
  cases extended <;> cases pressed <;>
    simp only [KeyEvent.scancodes, run, List.nil_append, List.cons_append, if_true, if_false,
      Bool.false_eq_true, hstep, hF0, hpress, hrelease]

/-! ## Every stream of events -/

/-- The queue is empty, no `0xF0` is pending, and the shift flag is that of the history. -/
structure Keyboard.Stands (k : Keyboard) (before : List KeyEvent) : Prop where
  length_eq : k.queue.length = 0
  lastF0_eq : k.lastF0 = false
  shift_eq : k.shift = shiftHeld before

theorem Keyboard.stands_nil {k : Keyboard} (hlength : k.queue.length = 0)
    (hlastF0 : k.lastF0 = false) (hshift : k.shift = false) : k.Stands [] :=
  ⟨hlength, hlastF0, hshift⟩

/-- No character of the table is NUL. -/
theorem keys_ne_nul : ∀ key ∈ keys, key.2.1.toUInt8 ≠ 0 ∧ key.2.2.toUInt8 ≠ 0 := by
  decide

/-- Key `0x12` and the prefix `0xE0` are not in the table. -/
theorem keyChar_visible (before : List KeyEvent) {e : KeyEvent} (hpressed : e.pressed = true) :
    [if e.key = 0x12 then 0 else keyChar (shiftHeld before) e.key].filter (· ≠ 0)
      = typed before e := by
  have hchar : (if e.key = 0x12 then 0 else keyChar (shiftHeld before) e.key)
      = keyChar (shiftHeld before) e.key := by
    split_ifs with hkey
    · rw [hkey]
      cases shiftHeld before <;> rfl
    · rfl
  rw [hchar, typed, if_pos hpressed, keyChar]
  cases hfind : keys.find? (·.1 == e.key) with
  | none => rfl
  | some key =>
    obtain ⟨hplain, hshifted⟩ := keys_ne_nul key (List.mem_of_find?_eq_some hfind)
    refine List.filter_cons_of_pos (decide_eq_true ?_)
    cases shiftHeld before
    · exact hplain
    · exact hshifted

/-- One event types what the law says, and leads to the longer history. -/
theorem Keyboard.Stands.event {k : Keyboard} {before : List KeyEvent} {e : KeyEvent}
    (h : k.Stands before) (hvalid : e.Valid) :
    (run Keyboard.feed k e.scancodes).1.filter (· ≠ 0) = typed before e ∧
      (run Keyboard.feed k e.scancodes).2.Stands (before ++ [e]) := by
  obtain ⟨hchars, hlength, hflags⟩ := run_feed e.scancodes h.length_eq
  rw [h.lastF0_eq, h.shift_eq, run_decodeFlags_event hvalid] at hchars hflags
  obtain ⟨hlastF0, hshift⟩ := Prod.mk.inj hflags
  refine ⟨?_, hlength, hlastF0, hshift.trans (shiftHeld_concat before e).symm⟩
  have hprefix : (if e.extended then [0] else [] : List UInt8).filter (· ≠ 0) = [] := by
    split_ifs <;> rfl
  rw [hchars, List.filter_append, hprefix, List.nil_append]
  by_cases hpressed : e.pressed = true
  · rw [if_pos hpressed, keyChar_visible before hpressed]
  · rw [if_neg hpressed, typed, if_neg hpressed]
    rfl

/-- Any list of events, from a state that stands for a history. -/
theorem Keyboard.Stands.events {k : Keyboard} {before : List KeyEvent} (h : k.Stands before)
    (events : List KeyEvent) (hvalid : ∀ e ∈ events, e.Valid) :
    (run Keyboard.feed k (events.flatMap KeyEvent.scancodes)).1.filter (· ≠ 0)
      = answers typed before events ∧
      (run Keyboard.feed k (events.flatMap KeyEvent.scancodes)).2.Stands (before ++ events) :=
  run_answers (fun _ _ _ hv hs => hs.event hv) events before k hvalid h

/-- **Typing**: a stream of events on one-byte keys types one character for each press of a key of
    the table, shifted if the last event of key `0x12` before it was a press, and a release types
    nothing. -/
theorem pollChar_types {k : Keyboard} (hlength : k.queue.length = 0) (hlastF0 : k.lastF0 = false)
    (hshift : k.shift = false) (events : List KeyEvent)
    (hevents : ∀ e ∈ events, e.extended = false ∧ e.Valid) :
    (run Keyboard.feed k (events.flatMap KeyEvent.scancodes)).1.filter (· ≠ 0)
      = answers typed [] events ∧
    ∀ before e after, events = before ++ e :: after →
      (run Keyboard.feed (run Keyboard.feed k (before.flatMap KeyEvent.scancodes)).2
        e.scancodes).1.filter (· ≠ 0) = typed before e := by
  have hstart := Keyboard.stands_nil hlength hlastF0 hshift
  refine ⟨(hstart.events events fun e he => (hevents e he).2).1, ?_⟩
  rintro before e after rfl
  have hbefore := (hstart.events before
    fun e' he' => (hevents e' (List.mem_append_left _ he')).2).2
  exact (hbefore.event
    (hevents e (List.mem_append_right before List.mem_cons_self)).2).1

/-- Shift and `1`, overlapping: `!`, then `1`. -/
theorem pollChar_types_overlap :
    (run Keyboard.feed emptyKeyboard [0x12, 0x16, 0xF0, 0x12, 0xF0, 0x16, 0x16]).1.filter (· ≠ 0)
      = ['!'.toUInt8, '1'.toUInt8] :=
  (pollChar_types (k := emptyKeyboard) rfl rfl rfl
    [⟨false, true, 0x12⟩, ⟨false, true, 0x16⟩, ⟨false, false, 0x12⟩, ⟨false, false, 0x16⟩,
      ⟨false, true, 0x16⟩] (by unfold KeyEvent.Valid; decide)).1

/-! ## Shift -/

/-- **Shift is the last event of key `0x12`**, whether or not it came with the prefix of an
    extended key.  An extended event of another key leaves the flag as it was. -/
theorem shift_of_events {k : Keyboard} (hlength : k.queue.length = 0)
    (hlastF0 : k.lastF0 = false) (hshift : k.shift = false) (events : List KeyEvent)
    (hevents : ∀ e ∈ events, e.Valid) :
    (run Keyboard.feed k (events.flatMap KeyEvent.scancodes)).2.shift = shiftHeld events ∧
    ∀ before e after, events = before ++ e :: after → e.extended = true → e.key ≠ 0x12 →
      (run Keyboard.feed k ((before ++ [e]).flatMap KeyEvent.scancodes)).2.shift
        = (run Keyboard.feed k (before.flatMap KeyEvent.scancodes)).2.shift := by
  have hstart := Keyboard.stands_nil hlength hlastF0 hshift
  refine ⟨(hstart.events events hevents).2.shift_eq, ?_⟩
  rintro before e after rfl - hkey
  have hbefore : ∀ e' ∈ before ++ [e], e'.Valid := fun e' he' => hevents e' (by
    rw [← List.singleton_append, ← List.append_assoc]
    exact List.mem_append_left after he')
  rw [(hstart.events _ hbefore).2.shift_eq,
    (hstart.events before fun e' he' => hbefore e' (List.mem_append_left _ he')).2.shift_eq,
    List.nil_append, List.nil_append, shiftHeld_concat, if_neg hkey]

/-- An arrow key while shift is held. -/
theorem shift_of_events_arrow :
    (run Keyboard.feed emptyKeyboard [0x12, 0xE0, 0x75, 0xE0, 0xF0, 0x75]).2.shift = true :=
  (shift_of_events (k := emptyKeyboard) rfl rfl rfl
    [⟨false, true, 0x12⟩, ⟨true, true, 0x75⟩, ⟨true, false, 0x75⟩]
    (by unfold KeyEvent.Valid; decide)).1

/-- **Extended keys are not ignored**: the fake shift that PrintScreen sends sets the flag. -/
theorem not_extended_ignored :
    ¬ ∀ (k : Keyboard) (events : List KeyEvent), k.queue.length = 0 → k.lastF0 = false →
      k.shift = false → (∀ e ∈ events, e.Valid) →
      (run Keyboard.feed k (events.flatMap KeyEvent.scancodes)).2.shift
        = shiftHeld (events.filter fun e => !e.extended) := by
  intro h
  have hfake := h emptyKeyboard [⟨true, true, 0x12⟩] rfl rfl rfl
    (by unfold KeyEvent.Valid; decide)
  exact absurd hfake (by decide)

end MyOs.Drivers
