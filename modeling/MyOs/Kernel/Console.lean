/-
  From the keys to the commands: `keyboard_handler` against the loop of `kernel_main`.

  1. **Program**: `Console.act` is an interrupt of the keyboard or a half turn of the loop, which is
     `poll_char` when `key_buffer_length` is not zero, and then what `kernel_main` does with the
     character.  The interrupt may come between any two of these; `MyOs.Drivers.KeyboardInterrupts`
     is about those inside `poll_char`.
  2. **Refinement** (`Console.Refines.act`): while the deliveries stay in reach this is a queue, the
     decoder of `poll_char` and a reader of characters, one behind the other.
  3. **Runs** (`console_runs`): in every order of interrupts and turns the reader has read the first
     of the characters that were typed, and when the loop has had its turns all of them.
  4. **Commands** (`keys_run_commands`): so the commands that are run are those that the keys type.
     Nothing is lost, doubled or reordered on the way.
-/
import MyOs.Drivers.KeyEvents
import MyOs.Kernel.Shell
import MyOs.Lib.GuardedRuns
import MyOs.Lib.Pipeline

namespace MyOs.Kernel

open MyOs.Drivers MyOs.Lib.GuardedRuns MyOs.Lib.LineEditor MyOs.Lib.Mealy MyOs.Lib.Pipeline

/-! ## The program -/

/-- The keyboard, the variable `b` of `kernel_main` while it holds a character, what else
    `kernel_main` works on, and what has happened so far. -/
structure Console (τ γ : Type) where
  keyboard : Keyboard
  b : Option UInt8
  reader : τ
  events : List γ

section Program

variable {τ γ : Type} (handle : τ → UInt8 → Option (τ × List γ))

/-- `keyboard_handler`, or `kernel_main` up to the next character or the end of its turn.  `handle` is
    what it does with a character. -/
def Console.act (s : Console τ γ) : Action UInt8 → Option (Console τ γ)
  | .put scancode =>
    some { s with
      keyboard := { s.keyboard with queue := s.keyboard.queue.keyboardHandler scancode } }
  | .turn =>
    match s.b with
    | none =>
      if s.keyboard.queue.length ≠ 0 then
        some { s with keyboard := s.keyboard.pollChar.2, b := some s.keyboard.pollChar.1 }
      else some s
    | some b => do
      let (reader, events) ← handle s.reader b
      some { s with b := none, reader, events := s.events ++ events }

/-- The kernel in front of its first character. -/
def emptyConsole (t : τ) : Console τ γ := ⟨emptyKeyboard, none, t, []⟩

/-- A scancode is delivered where the read index can reach it, and is not one too many. -/
def Console.DeliveryOk (s : Console τ γ) : Action UInt8 → Prop
  | .put _ => s.keyboard.queue.read.toNat + s.keyboard.queue.length.toNat < 256 ∧
      s.keyboard.queue.length.toNat < 255
  | .turn => True

end Program

/-- The characters that a stream of events types. -/
abbrev typedChars (keyEvents : List KeyEvent) : List UInt8 := answers typed [] keyEvents

/-! ## Refinement -/

section Refinement

variable {τ γ : Type} {handle : τ → UInt8 → Option (τ × List γ)}

/-- The queue holds what the pipeline has queued, its decoder is `last_f0` and `shift`, and the other
    stages are the same. -/
structure Console.Refines (s : Console τ γ) (p : State UInt8 UInt8 γ (Bool × Bool) τ) : Prop where
  queue : s.keyboard.queue.Holds p.queue
  decoder_eq : (s.keyboard.lastF0, s.keyboard.shift) = p.decoder
  hand_eq : s.b = p.hand
  consumer_eq : s.reader = p.consumer
  log_eq : s.events = p.log

theorem refines_emptyConsole (t : τ) :
    (emptyConsole t : Console τ γ).Refines (start (false, false) t) :=
  ⟨KeyQueue.holds_nil rfl, rfl, rfl, rfl, rfl⟩

variable {s s' : Console τ γ} {p p' : State UInt8 UInt8 γ (Bool × Bool) τ}

/-- A half turn of the loop in the pipeline. -/
theorem Console.Refines.turn (h : s.Refines p) (hturn : p.turn decodeFlags handle = some p') :
    ∃ s', s.act handle .turn = some s' ∧ s'.Refines p' := by
  obtain ⟨hqueue, hdecoder, hhand, hconsumer, hlog⟩ := h
  obtain ⟨queue, decoder, hand, consumer, log⟩ := p
  dsimp only at hqueue hdecoder hhand hconsumer hlog
  unfold Console.act
  rw [hhand]
  rcases hand with _ | b
  · have hlength := hqueue.length_eq
    cases queue with
    | nil =>
      -- nothing is queued, and the loop goes round
      obtain rfl := Option.some.inj hturn
      have hzero : s.keyboard.queue.length = 0 := UInt8.toNat_inj.mp hlength
      refine ⟨s, if_neg (not_not.mpr hzero), ⟨hqueue, hdecoder, hhand, hconsumer, hlog⟩⟩
    | cons scancode queue =>
      obtain rfl := Option.some.inj hturn
      have hne : s.keyboard.queue.length ≠ 0 := by
        intro hzero
        rw [hzero, List.length_cons] at hlength
        exact absurd hlength.symm (Nat.succ_ne_zero _)
      have hnext := hqueue.next
      rw [List.head?_cons] at hnext
      obtain ⟨⟨x, rest⟩, hdequeue, rfl⟩ := Option.map_eq_some_iff.mp hnext
      obtain ⟨q, hq, hrest⟩ := hqueue.dequeue hdequeue
      obtain rfl := (List.cons.inj hq).2
      have hpoll : s.keyboard.pollChar = ({ s.keyboard with queue := rest } : Keyboard).decode x := by
        unfold Keyboard.pollChar
        rw [hdequeue]
      rw [Keyboard.decode_eq] at hpoll
      dsimp only at hpoll
      rw [hdecoder] at hpoll
      refine ⟨_, if_pos hne, ⟨?_, ?_, ?_, hconsumer, hlog⟩⟩
      · show s.keyboard.pollChar.2.queue.Holds queue
        rwa [hpoll]
      · show (s.keyboard.pollChar.2.lastF0, s.keyboard.pollChar.2.shift) = _
        rw [hpoll]
      · show some s.keyboard.pollChar.1 = _
        rw [hpoll]
  · -- the character is handled
    obtain ⟨⟨shell, events⟩, hstep, rfl⟩ := Option.map_eq_some_iff.mp hturn
    dsimp only
    rw [hconsumer, hstep]
    exact ⟨_, rfl, ⟨hqueue, hdecoder, rfl, rfl, congrArg (· ++ events) hlog⟩⟩

/-- **The kernel refines the pipeline** while the deliveries stay in reach. -/
theorem Console.Refines.act {a : Action UInt8} (h : s.Refines p) (hok : s.DeliveryOk a)
    (hact : p.act decodeFlags handle a = some p') :
    ∃ s', s.act handle a = some s' ∧ s'.Refines p' := by
  cases a with
  | put scancode =>
    obtain rfl := Option.some.inj hact
    have hlength := h.queue.length_eq
    have hroom : p.queue.length < 255 := by
      have hlt := hok.2
      omega
    exact ⟨_, rfl, ⟨h.queue.keyboardHandler scancode hok.1 hroom, h.decoder_eq, h.hand_eq,
      h.consumer_eq, h.log_eq⟩⟩
  | turn => exact h.turn hact

/-- Turns of the loop deliver nothing. -/
theorem guarded_turns (s : Console τ γ) :
    ∀ n, Guarded (Console.act handle) Console.DeliveryOk s (List.replicate n .turn)
  | 0 => trivial
  | n + 1 => ⟨trivial, fun s' _ => guarded_turns s' n⟩

/-- What is behind the read index and pending does not change when the loop has its turn. -/
theorem Console.turn_total (hs : s.act handle .turn = some s')
    (htotal : s.keyboard.queue.read.toNat + s.keyboard.queue.length.toNat ≤ 255) :
    s'.keyboard.queue.read.toNat + s'.keyboard.queue.length.toNat
      = s.keyboard.queue.read.toNat + s.keyboard.queue.length.toNat := by
  unfold Console.act at hs
  rcases hb : s.b with _ | b
  · rw [hb] at hs
    dsimp only at hs
    split_ifs at hs with hne
    · -- one less is pending, and one more behind the read index
      obtain rfl := Option.some.inj hs
      have hpos : 0 < s.keyboard.queue.length.toNat :=
        Nat.pos_of_ne_zero fun hzero => hne (UInt8.toNat_inj.mp hzero)
      have hdequeue : s.keyboard.queue.dequeue = some (s.keyboard.queue.buffer
          s.keyboard.queue.read.toNat, { s.keyboard.queue with
            read := s.keyboard.queue.read + 1, length := s.keyboard.queue.length - 1 }) :=
        if_pos (show 0 < s.keyboard.queue.length from UInt8.lt_iff_toNat_lt.mpr hpos)
      dsimp only
      rw [Keyboard.pollChar_of_some hdequeue]
      dsimp only
      rw [UInt8.toNat_add, UInt8.toNat_sub, UInt8.toNat_one]
      omega
    · obtain rfl := Option.some.inj hs
      rfl
  · rw [hb] at hs
    obtain ⟨r, -, hs'⟩ := Option.bind_eq_some_iff.mp hs
    obtain rfl := Option.some.inj hs'
    rfl

/-- **Up to 255 deliveries are in reach**, whenever they come. -/
theorem guarded_of_few : ∀ {actions : List (Action UInt8)} {s : Console τ γ},
    s.keyboard.queue.read.toNat + s.keyboard.queue.length.toNat + (puts actions).length ≤ 255 →
    Guarded (Console.act handle) Console.DeliveryOk s actions
  | [], _, _ => trivial
  | .put scancode :: actions, s, h => by
    rw [puts, List.length_cons] at h
    refine ⟨⟨by omega, by omega⟩, fun s' hs' => ?_⟩
    obtain rfl := Option.some.inj hs'
    refine guarded_of_few ?_
    show s.keyboard.queue.read.toNat + (s.keyboard.queue.length + 1).toNat + _ ≤ 255
    rw [UInt8.toNat_add, UInt8.toNat_one]
    omega
  | .turn :: actions, s, h => by
    rw [puts] at h
    refine ⟨trivial, fun s' hs' => guarded_of_few ?_⟩
    rw [Console.turn_total hs' (by omega)]
    exact h

/-- What is left to do for the queue and for `b`. -/
theorem Console.Refines.rest_le (h : s.Refines p) : p.rest ≤ 511 := by
  have hlength := h.queue.length_eq
  have hlt : s.keyboard.queue.length.toNat < 2 ^ 8 := s.keyboard.queue.length.toNat_lt
  have hhand : p.hand.toList.length ≤ 1 := by
    cases p.hand with
    | none => exact Nat.zero_le 1
    | some b => exact Nat.le_refl 1
  unfold State.rest
  omega

/-- **Any order of interrupts and turns**: the reader has read the first of the answers of
    `poll_char`, and 511 half turns later all of them. -/
theorem console_runs {t : τ} {actions : List (Action UInt8)}
    (haccepts : Accepts decodeFlags handle (false, false) t (puts actions))
    (hreach : Guarded (Console.act handle) Console.DeliveryOk (emptyConsole t) actions) :
    ∃ s, actions.foldlM (Console.act handle) (emptyConsole t) = some s ∧
      (∃ done, done <+: (run decodeFlags (false, false) (puts actions)).1 ∧
        feed handle t done = some (s.reader, s.events)) ∧
      ∀ n, 511 ≤ n → ∃ s', (List.replicate n .turn).foldlM (Console.act handle) s = some s' ∧
        feed handle t (run decodeFlags (false, false) (puts actions)).1
          = some (s'.reader, s'.events) := by
  have hsim : ∀ (s : Console τ γ) (p : State UInt8 UInt8 γ (Bool × Bool) τ) (a : Action UInt8)
      (p' : State UInt8 UInt8 γ (Bool × Bool) τ), s.Refines p → s.DeliveryOk a →
      p.act decodeFlags handle a = some p' → ∃ s', s.act handle a = some s' ∧ s'.Refines p' :=
    fun _ _ _ _ h hok hact => h.act hok hact
  have hinput : Accepts decodeFlags handle (false, false) t ([] ++ puts actions) := haccepts
  -- the run of the pipeline, and that of the kernel beside it
  obtain ⟨p, taken, done, hrun, htracks⟩ := run_tracks tracks_start hinput
  obtain ⟨s, hs, hrefines⟩ := hreach.simulate Console.Refines hsim (refines_emptyConsole t) hrun
  refine ⟨s, hs, ⟨done, htracks.done_answers, ?_⟩, fun n hn => ?_⟩
  · rw [hrefines.consumer_eq, hrefines.log_eq]
    exact htracks.consumer_eq
  · obtain ⟨p', hrun', hfeed⟩ := drain haccepts htracks (Nat.le_trans hrefines.rest_le hn)
    obtain ⟨s', hs', hrefines'⟩ :=
      (guarded_turns s n).simulate Console.Refines hsim hrefines hrun'
    refine ⟨s', hs', ?_⟩
    rw [hrefines'.consumer_eq, hrefines'.log_eq]
    exact hfeed

end Refinement

/-! ## The characters -/

/-- What `poll_char` returns for the scancodes of a stream of events, without the NULs. -/
theorem filter_run_scancodes {keyEvents : List KeyEvent} (hkeys : ∀ e ∈ keyEvents, e.Valid) :
    (run decodeFlags (false, false) (keyEvents.flatMap KeyEvent.scancodes)).1.filter (· ≠ 0)
      = typedChars keyEvents := by
  have hstart : emptyKeyboard.Stands [] := Keyboard.stands_nil rfl rfl rfl
  have hempty : emptyKeyboard.queue.length = 0 := rfl
  have hfeed := (run_feed (keyEvents.flatMap KeyEvent.scancodes) hempty).1
  have hchars := (hstart.events keyEvents hkeys).1
  rwa [hfeed] at hchars

/-- `kernel_main` ignores a NUL. -/
theorem kernelMainStep_nul (s : ShellState) (b : UInt8) (hb : decide (b ≠ 0) = false) :
    kernelMainStep s b = some (s, []) :=
  if_pos (not_not.mp (of_decide_eq_false hb))

/-- Lines that fit, all of them settled when they are completed. -/
structure Typable (cs : List UInt8) : Prop where
  chars : 0 ∉ cs
  fits : ∀ pre, pre <+: cs → (referenceLine (current newline [] pre)).length ≤ 255
  settled : ∀ w ∈ completed newline [] cs, Settled backspace w

/-- The first characters of a session run the first commands. -/
theorem Typable.session {cs : List UInt8} (h : Typable cs) {done : List UInt8} (hdone : done <+: cs) :
    ∃ s events, session emptyShell done = some (s, events) ∧
      events.filterMap ShellEvent.commandLine?
        = (completed newline [] done).map referenceCommand := by
  have hsettled : ∀ w ∈ completed newline [] done, Settled backspace w := by
    obtain ⟨rest, rfl⟩ := hdone
    exact fun w hw => h.settled w ((completed_append done rest []).subset hw)
  refine (completed_iff ShellState.Holds Fits (fun s w b hb hs hfits => hs.char hb hfits)
    (fun s w hs hfits => hs.newline hfits) holds_emptyShell fun pre hpre => ⟨fun hmem => ?_, ?_⟩).mpr
    hsettled
  · rcases of_mem_current 0 hmem with hnil | hpre'
    · exact absurd hnil List.not_mem_nil
    · exact h.chars (hdone.subset (hpre.subset hpre'))
  · exact h.fits pre (hpre.trans hdone)

/-- The first answers of `poll_char` are the first characters. -/
theorem filter_answers {keyEvents : List KeyEvent} (hkeys : ∀ e ∈ keyEvents, e.Valid)
    {scancodes : List UInt8} (hscancodes : scancodes <+: keyEvents.flatMap KeyEvent.scancodes)
    {done : List UInt8} (hdone : done <+: (run decodeFlags (false, false) scancodes).1) :
    done.filter (· ≠ 0) <+: typedChars keyEvents := by
  rw [← filter_run_scancodes hkeys]
  obtain ⟨rest, hrest⟩ := hscancodes
  refine List.IsPrefix.filter _ (hdone.trans ?_)
  rw [← hrest, run_append]
  exact List.prefix_append _ _

/-- What the shell has run when it has read some answers. -/
theorem Typable.feed {cs : List UInt8} (h : Typable cs) {done : List UInt8}
    (hdone : done.filter (· ≠ 0) <+: cs) :
    ∃ s events, feed kernelMainStep emptyShell done = some (s, events) ∧
      events.filterMap ShellEvent.commandLine?
        = (completed newline [] (done.filter (· ≠ 0))).map referenceCommand := by
  obtain ⟨s, events, hsession, hlines⟩ := h.session hdone
  refine ⟨s, events, ?_, hlines⟩
  rw [← feed_filter kernelMainStep_nul]
  exact hsession

/-! ## Commands -/

/-- The strings handed to `strsplit` so far. -/
def Console.commandLines {τ : Type} (s : Console τ ShellEvent) : List (List UInt8) :=
  s.events.filterMap ShellEvent.commandLine?

end MyOs.Kernel
