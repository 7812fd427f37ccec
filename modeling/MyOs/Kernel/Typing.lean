/-
  From the keys to the screen.

  `kernel_main` with its screen is a reader of characters (`readChar`), so the runs of `Console` say
  what it has read in any order of interrupts and turns, and the simulation of `Screen` what is then
  to be seen (`keys_show_page`).
-/
import MyOs.Kernel.Console
import MyOs.Kernel.Screen

namespace MyOs.Kernel

open MyOs.Drivers MyOs.Lib.GuardedRuns MyOs.Lib.LineEditor MyOs.Lib.Mealy MyOs.Lib.Pipeline

/-- What `kernel_main` does with a character. -/
def readChar (E : Surroundings) (s : Screen) (b : UInt8) : Option (Screen × List Empty) :=
  (s.turn (b, E)).map (·, [])

/-- The page behind the characters `cs`. -/
def pageOf (E : Surroundings) (cs : List UInt8) : Page :=
  (cs.map (·, E)).foldl Page.turn firstPage

/-- The characters can be typed one after the other. -/
def PageTypable (E : Surroundings) (cs : List UInt8) : Prop :=
  Guarded (fun p input => some (Page.turn p input)) PageOk firstPage (cs.map (·, E))

variable {E : Surroundings}

/-- `kernel_main` ignores a NUL. -/
theorem readChar_nul (s : Screen) (b : UInt8) (hb : decide (b ≠ 0) = false) :
    readChar E s b = some (s, []) := by
  have hzero := kernelMainStep_nul s.shell b hb
  unfold readChar Screen.turn
  rw [hzero]
  rfl

theorem feed_readChar : ∀ (cs : List UInt8) (s : Screen),
    feed (readChar E) s cs = ((cs.map (·, E)).foldlM Screen.turn s).map (·, [])
  | [], _ => rfl
  | c :: cs, s => by
    rw [List.map_cons, List.foldlM_cons]
    cases hturn : s.turn (c, E) with
    | none => simp only [feed, readChar, hturn, Option.map_none, Option.bind_eq_bind,
        Option.bind_none]
    | some s' =>
      have hread : readChar E s c = some (s', []) := by
        rw [readChar, hturn]
        rfl
      rw [feed_cons hread, feed_readChar cs s', Option.map_map]
      rfl

/-- What is to be seen when some answers of `poll_char` have been read. -/
theorem PageTypable.feed {cs : List UInt8} (h : PageTypable E cs) {s₀ : Screen}
    (h₀ : s₀.Holds firstPage) {done : List UInt8} (hdone : done.filter (· ≠ 0) <+: cs) :
    ∃ s, feed (readChar E) s₀ done = some (s, []) ∧
      ShowsText s.terminal (pageOf E (done.filter (· ≠ 0))).shown := by
  obtain ⟨rest, rfl⟩ := hdone
  rw [PageTypable, List.map_append] at h
  obtain ⟨s, hs, hholds⟩ := h₀.run (guarded_append.mp h).1
  refine ⟨s, ?_, hholds.displays.showsText⟩
  rw [← feed_filter readChar_nul, feed_readChar, hs]
  rfl

/-- The runs of the keyboard, the loop and the screen. -/
theorem PageTypable.runs {keyEvents : List KeyEvent} (hkeys : ∀ e ∈ keyEvents, e.Valid)
    (htypable : PageTypable E (typedChars keyEvents)) {s₀ : Screen} (h₀ : s₀.Holds firstPage)
    {actions : List (Action UInt8)}
    (hscancodes : puts actions <+: keyEvents.flatMap KeyEvent.scancodes)
    (hreach : Guarded (Console.act (readChar E)) Console.DeliveryOk (emptyConsole s₀) actions) :
    ∃ s, actions.foldlM (Console.act (readChar E)) (emptyConsole s₀) = some s ∧
      (∃ cs, cs <+: typedChars keyEvents ∧ ShowsText s.reader.terminal (pageOf E cs).shown) ∧
      (puts actions = keyEvents.flatMap KeyEvent.scancodes → ∀ n, 511 ≤ n →
        ∃ s', (List.replicate n .turn).foldlM (Console.act (readChar E)) s = some s' ∧
          ShowsText s'.reader.terminal (pageOf E (typedChars keyEvents)).shown) := by
  have haccepts : Accepts decodeFlags (readChar E) (false, false) s₀ (puts actions) := by
    intro done hdone
    obtain ⟨s, hsome, -⟩ := htypable.feed h₀ (filter_answers hkeys hscancodes hdone)
    rw [hsome]
    rfl
  obtain ⟨s, hs, ⟨done, hdone, hfeed⟩, hdrain⟩ := console_runs haccepts hreach
  refine ⟨s, hs, ⟨_, filter_answers hkeys hscancodes hdone, ?_⟩, fun hall n hn => ?_⟩
  · obtain ⟨s', hsome, hshows⟩ := htypable.feed h₀ (filter_answers hkeys hscancodes hdone)
    obtain ⟨hreader, -⟩ := Prod.mk.inj (Option.some.inj (hfeed.symm.trans hsome))
    rwa [hreader]
  · obtain ⟨s', hs', hfeed'⟩ := hdrain n hn
    obtain ⟨s'', hsome, hshows⟩ :=
      htypable.feed h₀ (filter_answers hkeys hscancodes (List.prefix_refl _))
    obtain ⟨hreader, -⟩ := Prod.mk.inj (Option.some.inj (hfeed'.symm.trans hsome))
    rw [hall, filter_run_scancodes hkeys] at hshows
    refine ⟨s', hs', ?_⟩
    rwa [hreader]

end MyOs.Kernel
