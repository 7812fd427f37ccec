/-
  The text terminal: a cursor over the 80 x 25 cells of the VGA text buffer.

  1. **Program**: the functions of `vga.c`.  A store behind the last cell has no result.
  2. **One call**: what the loops of `terminal_initialize`, `scroll` and `delete_last_char` come to,
     and when a character keeps the cursor on the screen (`terminalPutchar_onScreen`).
  3. **Runs** (`terminal_onScreen`): the cursor leaves the screen in two ways only, a tab near the
     right border and a backspace behind a full row.  The wrap tests for equality and never brings
     it back (`not_terminal_onScreen`).
-/
import Mathlib.Logic.Function.Basic
import MyOs.Lib.GuardedRuns
import MyOs.Lib.Loops
import MyOs.Libraries.Strings

namespace MyOs.Drivers

open MyOs.Lib.GuardedRuns MyOs.Lib.Loops MyOs.Libraries

/-! ## The program -/

abbrev vgaWidth : Nat := 80
abbrev vgaHeight : Nat := 25

/-- `terminal_row`, `terminal_column`, `terminal_color`, `terminal_buffer`, and the position of the
    hardware cursor. -/
structure Terminal where
  row : Nat
  column : Nat
  color : UInt8
  buffer : Nat → UInt16
  cursor : UInt16

/-- `vga_entry_color`. -/
def vgaEntryColor (fg bg : UInt8) : UInt8 := fg ||| bg <<< 4

/-- `vga_entry`. -/
def vgaEntry (uc color : UInt8) : UInt16 := uc.toUInt16 ||| color.toUInt16 <<< 8

/-- The cell `scroll` fills the last row with: `' ' | (0x07 << 8)`. -/
def blankCell : UInt16 := UInt16.ofNat (' '.toNat ||| 0x07 <<< 8)

namespace Terminal

/-- `terminal_buffer[index] = entry`. -/
def store (t : Terminal) (index : Nat) (entry : UInt16) : Option Terminal :=
  if index < vgaWidth * vgaHeight then
    some { t with buffer := Function.update t.buffer index entry }
  else none

/-- The inner loop of `terminal_initialize`. -/
def blankRow (t : Terminal) (y : Nat) : Option Terminal :=
  (List.range vgaWidth).foldlM
    (fun t x => t.store (y * vgaWidth + x) (vgaEntry ' '.toUInt8 t.color)) t

/-- `terminal_initialize`: light grey on black, every cell blank. -/
def terminalInitialize (t : Terminal) : Option Terminal :=
  (List.range vgaHeight).foldlM blankRow
    { t with row := 0, column := 0, color := vgaEntryColor 7 0 }

/-- The bound of the loop in `scroll`: `(uint8_t) (((uint8_t) VGA_HEIGHT) - 257)`. -/
def scrollBound : Nat := (UInt8.ofInt ((UInt8.ofNat vgaHeight).toNat - 257)).toNat

/-- The inner loop of `scroll`: row `i` from the one below it. -/
def copyRow (t : Terminal) (i : Nat) : Option Terminal :=
  (List.range vgaWidth).foldlM
    (fun t j => t.store (i * vgaWidth + j) (t.buffer ((i + 1) * vgaWidth + j))) t

/-- The body of the last loop of `scroll`. -/
def blankLast (t : Terminal) (i : Nat) : Option Terminal :=
  t.store ((vgaHeight - 1) * vgaWidth + i) blankCell

/-- `scroll`: the rows are copied in order, and the last one is blanked. -/
def scroll (t : Terminal) : Option Terminal := do
  let t ← (List.range scrollBound).foldlM copyRow t
  (List.range vgaWidth).foldlM blankLast t

/-- `update_cursor`. -/
def updateCursor (t : Terminal) (x y : Nat) : Terminal :=
  { t with cursor := UInt16.ofNat (y * vgaWidth + x) }

/-- `terminal_putentryat`. -/
def terminalPutentryat (t : Terminal) (c color : UInt8) (x y : Nat) : Option Terminal := do
  let t ← t.store (y * vgaWidth + x) (vgaEntry c color)
  some (t.updateCursor x y)

/-- A new row: `terminal_column = 0`, and `scroll` when there is none left. -/
def newRow (t : Terminal) : Option Terminal :=
  if t.row + 1 = vgaHeight then { t with column := 0 }.scroll
  else some { t with row := t.row + 1, column := 0 }

/-- `terminal_putchar`. -/
def terminalPutchar (t : Terminal) (c : UInt8) : Option Terminal :=
  if c = '\n'.toUInt8 then t.newRow
  else if c = '\t'.toUInt8 then
    if t.column + 4 > vgaWidth then some { t with column := vgaWidth }
    else some { t with column := t.column + 4 }
  else do
    let t ← t.terminalPutentryat c t.color t.column t.row
    if t.column + 1 = vgaWidth then t.newRow
    else some { t with column := t.column + 1 }

/-- `terminal_write`. -/
def terminalWrite (t : Terminal) (data : List UInt8) (size : Nat) : Option Terminal :=
  (List.range size).foldlM (fun t i => (data[i]?).bind t.terminalPutchar) t

/-- `terminal_writestring`. -/
def terminalWritestring (t : Terminal) (data : List UInt8) : Option Terminal := do
  let size ← strlen data
  t.terminalWrite data size

/-- The scan of `delete_last_char` in a row, from column `i - 1` to the left: the column behind the
    first character that is not blank. -/
def scanBack (t : Terminal) (row : Nat) : Nat → Option Nat
  | 0 => none
  | i + 1 =>
    if t.buffer (row * vgaWidth + i) &&& 0xFF ≠ ' '.toUInt8.toUInt16 then some (i + 1)
    else t.scanBack row i

/-- The cursor, one character back. -/
def stepBack (t : Terminal) : Terminal :=
  if t.column = 0 then
    if t.row > 0 then
      { t with
        row := t.row - 1
        column := (t.scanBack (t.row - 1) vgaWidth).getD (vgaWidth - 1) }
    else t
  else { t with column := t.column - 1 }

/-- `delete_last_char`. -/
def deleteLastChar (t : Terminal) : Option Terminal :=
  let t := t.stepBack
  t.terminalPutentryat ' '.toUInt8 t.color t.column t.row

end Terminal

/-- A string with its terminator. -/
abbrev CString := { w : List UInt8 // 0 ∉ w }

/-- A call from outside. -/
inductive TerminalCall where
  | terminalInitialize
  | terminalPutchar (c : UInt8)
  | terminalWritestring (data : CString)
  | deleteLastChar

def TerminalCall.run (t : Terminal) : TerminalCall → Option Terminal
  | .terminalInitialize => t.terminalInitialize
  | .terminalPutchar c => t.terminalPutchar c
  | .terminalWritestring data => t.terminalWritestring (data.1 ++ [0])
  | .deleteLastChar => t.deleteLastChar

/-! ## The loops -/

namespace Terminal

theorem index_lt {y x : Nat} (hy : y < vgaHeight) (hx : x < vgaWidth) :
    y * vgaWidth + x < vgaWidth * vgaHeight := by
  have hrow : (y + 1) * vgaWidth ≤ vgaHeight * vgaWidth := Nat.mul_le_mul_right _ hy
  rw [Nat.succ_mul, Nat.mul_comm vgaHeight] at hrow
  omega

theorem store_eq {t : Terminal} {index : Nat} (h : index < vgaWidth * vgaHeight) (entry : UInt16) :
    t.store index entry = some { t with buffer := Function.update t.buffer index entry } :=
  if_pos h

/-- The first `n` cells hold `entry`. -/
def filled (t : Terminal) (entry : UInt16) (n : Nat) : Terminal :=
  { t with buffer := fun k => if k < n then entry else t.buffer k }

theorem store_filled (t : Terminal) (entry : UInt16) {n : Nat} (h : n < vgaWidth * vgaHeight) :
    (t.filled entry n).store n entry = some (t.filled entry (n + 1)) := by
  rw [store_eq h]
  refine congrArg (fun buffer => some { t with buffer }) (funext fun k => ?_)
  simp only [filled, Function.update_apply]
  split_ifs <;> first | rfl | omega

/-- **`terminal_initialize`** blanks the screen. -/
theorem terminalInitialize_eq (t : Terminal) : t.terminalInitialize
    = some (filled { t with row := 0, column := 0, color := 7 } blankCell
        (vgaHeight * vgaWidth)) := by
  let start : Terminal := { t with row := 0, column := 0, color := vgaEntryColor 7 0 }
  have hrow : ∀ y, y < vgaHeight → (start.filled blankCell (y * vgaWidth)).blankRow y
      = some (start.filled blankCell ((y + 1) * vgaWidth)) := by
    intro y hy
    rw [Nat.succ_mul]
    refine foldlM_range (fun x => start.filled blankCell (y * vgaWidth + x)) vgaWidth fun x hx => ?_
    have hentry : vgaEntry ' '.toUInt8 (vgaEntryColor 7 0) = blankCell := by decide
    show Terminal.store _ _ (vgaEntry ' '.toUInt8 (vgaEntryColor 7 0)) = _
    rw [hentry]
    exact store_filled start blankCell (index_lt hy hx)
  have hloop := foldlM_range (fun y => start.filled blankCell (y * vgaWidth)) vgaHeight hrow
  have hzero : start.filled blankCell (0 * vgaWidth) = start := rfl
  rw [hzero] at hloop
  exact hloop

/-- The first `n` cells hold what was one row below them. -/
def shifted (t : Terminal) (n : Nat) : Terminal :=
  { t with buffer := fun k => if k < n then t.buffer (k + vgaWidth) else t.buffer k }

theorem store_shifted (t : Terminal) {n : Nat} (h : n < vgaWidth * vgaHeight) :
    (t.shifted n).store n ((t.shifted n).buffer (n + vgaWidth)) = some (t.shifted (n + 1)) := by
  have hread : (t.shifted n).buffer (n + vgaWidth) = t.buffer (n + vgaWidth) :=
    if_neg (by omega)
  rw [store_eq h, hread]
  refine congrArg (fun buffer => some { t with buffer }) (funext fun k => ?_)
  simp only [shifted, Function.update_apply]
  split_ifs with h1 h2 h3 <;> first | rfl | omega | rw [h1]

/-- Behind the first 24 rows `n` cells are blank. -/
def lastBlanked (t : Terminal) (n : Nat) : Terminal :=
  { t with
    buffer := fun k =>
      if k < (vgaHeight - 1) * vgaWidth then t.buffer k
      else if k < (vgaHeight - 1) * vgaWidth + n then blankCell
      else t.buffer k }

theorem lastBlanked_zero (t : Terminal) : t.lastBlanked 0 = t := by
  refine congrArg (fun buffer => { t with buffer }) (funext fun k => ?_)
  rw [Nat.add_zero]
  split_ifs <;> rfl

theorem blankLast_lastBlanked (t : Terminal) {n : Nat} (h : n < vgaWidth) :
    (t.lastBlanked n).blankLast n = some (t.lastBlanked (n + 1)) := by
  have hrow : vgaHeight - 1 < vgaHeight := Nat.lt_succ_self 24
  rw [blankLast, store_eq (index_lt hrow h)]
  refine congrArg (fun buffer => some { t with buffer }) (funext fun k => ?_)
  simp only [lastBlanked, Function.update_apply]
  split_ifs <;> first | rfl | omega

/-- **`scroll`** moves every row up by one, and blanks the last one. -/
theorem scroll_eq (t : Terminal) :
    t.scroll = some ((t.shifted ((vgaHeight - 1) * vgaWidth)).lastBlanked vgaWidth) := by
  have hrow : ∀ i, i < vgaHeight - 1 → (t.shifted (i * vgaWidth)).copyRow i
      = some (t.shifted ((i + 1) * vgaWidth)) := by
    intro i hi
    rw [Nat.succ_mul]
    refine foldlM_range (fun j => t.shifted (i * vgaWidth + j)) vgaWidth fun j hj => ?_
    rw [Nat.succ_mul, Nat.add_right_comm]
    exact store_shifted t (index_lt (Nat.lt_of_lt_pred hi) hj)
  have hcopy := foldlM_range (fun i => t.shifted (i * vgaWidth)) (vgaHeight - 1) hrow
  have hzero : t.shifted (0 * vgaWidth) = t := rfl
  have hbound : scrollBound = vgaHeight - 1 := rfl
  rw [hzero] at hcopy
  have hlast := foldlM_range (fun i => (t.shifted ((vgaHeight - 1) * vgaWidth)).lastBlanked i)
    vgaWidth fun i hi => blankLast_lastBlanked _ hi
  rw [lastBlanked_zero] at hlast
  rw [scroll, hbound, hcopy, Option.bind_eq_bind, Option.bind_some, hlast]

/-! ## One call -/

/-- The cursor is on the screen. -/
def OnScreen (t : Terminal) : Prop := t.column < vgaWidth ∧ t.row < vgaHeight

theorem terminalPutentryat_eq (t : Terminal) (c color : UInt8) {x y : Nat}
    (h : y * vgaWidth + x < vgaWidth * vgaHeight) : t.terminalPutentryat c color x y
      = some (updateCursor { t with
          buffer := Function.update t.buffer (y * vgaWidth + x) (vgaEntry c color) } x y) := by
  rw [terminalPutentryat, store_eq h]
  rfl

/-- A new row: the next one, or the last one again. -/
theorem newRow_onScreen {t : Terminal} (h : t.row < vgaHeight) :
    ∃ t', t.newRow = some t' ∧ t'.OnScreen := by
  unfold newRow
  split_ifs with hrow
  · rw [scroll_eq]
    exact ⟨_, rfl, Nat.zero_lt_succ 79, h⟩
  · exact ⟨_, rfl, Nat.zero_lt_succ 79, Nat.lt_of_le_of_ne h hrow⟩

/-- A tab ends before the right border. -/
def CharOk (t : Terminal) (c : UInt8) : Prop := c = '\t'.toUInt8 → t.column + 4 < vgaWidth

/-- **One character** keeps the cursor on the screen exactly when it is not a tab near the right
    border. -/
theorem terminalPutchar_onScreen {t : Terminal} (h : t.OnScreen) (c : UInt8) :
    (∃ t', t.terminalPutchar c = some t' ∧ t'.OnScreen) ↔ t.CharOk c := by
  obtain ⟨hcolumn, hrow⟩ := h
  unfold terminalPutchar CharOk
  by_cases hnewline : c = '\n'.toUInt8
  · rw [if_pos hnewline]
    refine ⟨fun _ htab => ?_, fun _ => newRow_onScreen hrow⟩
    rw [hnewline] at htab
    exact absurd htab (by decide)
  rw [if_neg hnewline]
  by_cases htab : c = '\t'.toUInt8
  · rw [if_pos htab]
    split_ifs with hborder
    · refine ⟨?_, fun hok => absurd (hok htab) (by omega)⟩
      rintro ⟨t', ht', hlt, -⟩
      obtain rfl := Option.some.inj ht'
      exact absurd hlt (Nat.lt_irrefl vgaWidth)
    · constructor
      · rintro ⟨t', ht', hlt, -⟩ -
        obtain rfl := Option.some.inj ht'
        exact hlt
      · exact fun hok => ⟨_, rfl, hok htab, hrow⟩
  · rw [if_neg htab, terminalPutentryat_eq _ _ _ (index_lt hrow hcolumn)]
    simp only [Option.bind_eq_bind, Option.bind_some]
    refine ⟨fun _ h => absurd h htab, fun _ => ?_⟩
    split_ifs with hwrap
    · exact newRow_onScreen hrow
    · exact ⟨_, rfl, Nat.lt_of_le_of_ne hcolumn hwrap, hrow⟩

theorem scanBack_le {t : Terminal} {row : Nat} : ∀ {n m : Nat},
    t.scanBack row n = some m → m ≤ n
  | 0, _, h => nomatch h
  | n + 1, m, h => by
    unfold scanBack at h
    split_ifs at h
    · exact Nat.le_of_eq (Option.some.inj h).symm
    · exact Nat.le_succ_of_le (scanBack_le h)

/-- The row above is not full when the cursor is at the left border. -/
def DeleteOk (t : Terminal) : Prop := t.column = 0 → 0 < t.row →
  t.buffer ((t.row - 1) * vgaWidth + (vgaWidth - 1)) &&& 0xFF = ' '.toUInt8.toUInt16

/-- The scan of a row ends in front of its last column exactly when that is blank. -/
theorem scanBack_lt_iff (t : Terminal) (row : Nat) :
    (t.scanBack row vgaWidth).getD (vgaWidth - 1) < vgaWidth ↔
      t.buffer (row * vgaWidth + (vgaWidth - 1)) &&& 0xFF = ' '.toUInt8.toUInt16 := by
  have hscan : t.scanBack row vgaWidth
      = if t.buffer (row * vgaWidth + (vgaWidth - 1)) &&& 0xFF ≠ ' '.toUInt8.toUInt16
        then some vgaWidth else t.scanBack row (vgaWidth - 1) := rfl
  rw [hscan]
  split_ifs with hblank
  · exact ⟨fun hlt => absurd hlt (Nat.lt_irrefl vgaWidth), fun h => absurd h hblank⟩
  · refine ⟨fun _ => not_not.mp hblank, fun _ => ?_⟩
    cases hfound : t.scanBack row (vgaWidth - 1) with
    | none => exact Nat.lt_succ_self 79
    | some m => exact Nat.lt_succ_of_le (scanBack_le hfound)

/-- A backspace leaves the cursor where it steps back to. -/
theorem deleteLastChar_iff {t : Terminal}
    (h : t.stepBack.row * vgaWidth + t.stepBack.column < vgaWidth * vgaHeight) :
    (∃ t', t.deleteLastChar = some t' ∧ t'.OnScreen) ↔ t.stepBack.OnScreen := by
  rw [deleteLastChar, terminalPutentryat_eq _ _ _ h]
  constructor
  · rintro ⟨t', ht', hscreen⟩
    obtain rfl := Option.some.inj ht'
    exact hscreen
  · exact fun hscreen => ⟨_, rfl, hscreen⟩

/-- **A backspace** keeps the cursor on the screen exactly when it does not go back to a full
    row. -/
theorem deleteLastChar_onScreen {t : Terminal} (h : t.OnScreen) :
    (∃ t', t.deleteLastChar = some t' ∧ t'.OnScreen) ↔ t.DeleteOk := by
  obtain ⟨hcolumn, hrow⟩ := h
  unfold DeleteOk
  by_cases hzero : t.column = 0
  · by_cases hfirst : t.row > 0
    · have hstep : t.stepBack = { t with
          row := t.row - 1
          column := (t.scanBack (t.row - 1) vgaWidth).getD (vgaWidth - 1) } := by
        rw [stepBack, if_pos hzero, if_pos hfirst]
      -- the cell behind a full row is the first one of the row the cursor comes from
      have hle : (t.scanBack (t.row - 1) vgaWidth).getD (vgaWidth - 1) ≤ vgaWidth := by
        cases hfound : t.scanBack (t.row - 1) vgaWidth with
        | none => exact Nat.le_succ 79
        | some m => exact scanBack_le hfound
      have hindex : (t.row - 1) * vgaWidth + vgaWidth < vgaWidth * vgaHeight := by
        have hnext := index_lt hrow (Nat.zero_lt_succ 79)
        rwa [← Nat.succ_mul, Nat.succ_eq_add_one, Nat.sub_add_cancel hfirst]
      have hcell : t.stepBack.row * vgaWidth + t.stepBack.column < vgaWidth * vgaHeight := by
        rw [hstep]
        exact Nat.lt_of_le_of_lt (Nat.add_le_add_left hle _) hindex
      rw [deleteLastChar_iff hcell, hstep]
      refine ⟨fun hscreen _ _ => (scanBack_lt_iff t _).mp hscreen.1, fun hok => ?_⟩
      have hup : t.row - 1 < vgaHeight := Nat.lt_of_le_of_lt (Nat.sub_le _ 1) hrow
      exact ⟨(scanBack_lt_iff t _).mpr (hok hzero hfirst), hup⟩
    · have hstep : t.stepBack = t := by rw [stepBack, if_pos hzero, if_neg hfirst]
      have hcell : t.stepBack.row * vgaWidth + t.stepBack.column < vgaWidth * vgaHeight := by
        rw [hstep]
        exact index_lt hrow hcolumn
      rw [deleteLastChar_iff hcell, hstep]
      exact ⟨fun _ _ hpos => absurd hpos hfirst, fun _ => ⟨hcolumn, hrow⟩⟩
  · have hstep : t.stepBack = { t with column := t.column - 1 } := by
      rw [stepBack, if_neg hzero]
    have hleft : t.column - 1 < vgaWidth := Nat.lt_of_le_of_lt (Nat.sub_le _ 1) hcolumn
    have hcell : t.stepBack.row * vgaWidth + t.stepBack.column < vgaWidth * vgaHeight := by
      rw [hstep]
      exact index_lt hrow hleft
    rw [deleteLastChar_iff hcell, hstep]
    exact ⟨fun _ h => absurd h hzero, fun _ => ⟨hleft, hrow⟩⟩

/-- `terminal_write` puts the characters one by one. -/
theorem terminalWrite_eq (t : Terminal) (data rest : List UInt8) :
    t.terminalWrite (data ++ rest) data.length = data.foldlM terminalPutchar t := by
  induction data using List.reverseRecOn generalizing rest with
  | nil => rfl
  | append_singleton data c ih =>
    have hinit := ih (c :: rest)
    unfold terminalWrite at hinit ⊢
    rw [List.append_assoc, List.singleton_append, List.length_append, List.length_singleton,
      List.range_succ, List.foldlM_append, List.foldlM_append, hinit]
    simp only [List.foldlM_cons, List.foldlM_nil, getElem?_border, Option.bind_some]

/-- So does `terminal_writestring`, up to the terminator. -/
theorem terminalWritestring_eq (t : Terminal) {data : List UInt8} (h : 0 ∉ data) :
    t.terminalWritestring (data ++ [0]) = data.foldlM terminalPutchar t := by
  rw [terminalWritestring, strlen_terminated h]
  exact terminalWrite_eq t data [0]

end Terminal

/-! ## Runs -/

open Terminal

/-- A call that keeps the cursor on the screen: no tab near the right border, at any character of a
    string, and no backspace to a full row. -/
def CallOk (t : Terminal) : TerminalCall → Prop
  | .terminalInitialize => True
  | .terminalPutchar c => t.CharOk c
  | .terminalWritestring data => Guarded terminalPutchar CharOk t data.1
  | .deleteLastChar => t.DeleteOk

/-- The screen after `terminal_initialize`. -/
theorem terminalInitialize_onScreen (t : Terminal) :
    ∃ t', t.terminalInitialize = some t' ∧ t'.OnScreen :=
  ⟨_, terminalInitialize_eq t, Nat.zero_lt_succ 79, Nat.zero_lt_succ 24⟩

/-- One call keeps the cursor on the screen, and stores inside the buffer. -/
theorem TerminalCall.run_onScreen {t : Terminal} (h : t.OnScreen) {call : TerminalCall}
    (hok : CallOk t call) : ∃ t', call.run t = some t' ∧ t'.OnScreen := by
  cases call with
  | terminalInitialize => exact terminalInitialize_onScreen t
  | terminalPutchar c => exact (terminalPutchar_onScreen h c).mpr hok
  | terminalWritestring data =>
    have hwrite : TerminalCall.run t (.terminalWritestring data)
        = data.1.foldlM Terminal.terminalPutchar t := terminalWritestring_eq t data.2
    rw [hwrite]
    exact Guarded.run OnScreen (fun t c ht hc => (terminalPutchar_onScreen ht c).mpr hc) hok h
  | deleteLastChar => exact (deleteLastChar_onScreen h).mpr hok

/-- **The cursor stays on the screen** in every run that begins with `terminal_initialize`, writes
    no tab near the right border and does not delete back to a full row: every store is inside the
    buffer, and after each call the cursor is on the screen. -/
theorem terminal_onScreen (t : Terminal) (calls : List TerminalCall)
    (hok : Guarded TerminalCall.run CallOk t (.terminalInitialize :: calls))
    {pre : List TerminalCall} (hpre : pre <+: calls) :
    ∃ t', (.terminalInitialize :: pre).foldlM TerminalCall.run t = some t' ∧ t'.OnScreen := by
  obtain ⟨post, rfl⟩ := hpre
  obtain ⟨start, hstart, hscreen⟩ := terminalInitialize_onScreen t
  rw [← List.cons_append] at hok
  obtain ⟨-, hrest⟩ := (guarded_append.mp hok).1
  obtain ⟨t', hrun, ht'⟩ := (hrest start hstart).run OnScreen
    (fun t call ht hcall => TerminalCall.run_onScreen ht hcall) hscreen
  refine ⟨t', ?_, ht'⟩
  rw [List.foldlM_cons]
  exact (congrArg (· >>= _) hstart).trans hrun

/-- The terminal before the kernel has touched it. -/
def zeroTerminal : Terminal := ⟨0, 0, 0, fun _ => 0, 0⟩

/-- A tab in the first row, and a backspace behind it. -/
theorem terminal_onScreen_tab :
    ∃ t', [.terminalInitialize, .terminalPutchar '\t'.toUInt8, .deleteLastChar].foldlM
      TerminalCall.run zeroTerminal = some t' ∧ t'.OnScreen := by
  refine terminal_onScreen zeroTerminal [.terminalPutchar '\t'.toUInt8, .deleteLastChar]
    ⟨trivial, fun t' h => ?_⟩ (List.prefix_refl _)
  obtain rfl := Option.some.inj ((terminalInitialize_eq zeroTerminal).symm.trans h)
  refine ⟨fun _ => show 0 + 4 < vgaWidth by decide, fun t' h => ?_⟩
  obtain rfl := Option.some.inj h
  exact ⟨fun hzero => absurd hzero (Nat.succ_ne_zero 3), fun _ _ => trivial⟩

/-- **The cursor can leave the screen**: in the last row, 20 tabs move it to column 80, and the next
    character is stored behind the buffer. -/
theorem not_terminal_onScreen :
    ¬ ∀ (t : Terminal) (calls : List TerminalCall),
      ∃ t', (.terminalInitialize :: calls).foldlM TerminalCall.run t = some t' ∧ t'.OnScreen := by
  intro h
  obtain ⟨t', hrun, -⟩ := h zeroTerminal
    (List.replicate 24 (.terminalPutchar '\n'.toUInt8)
      ++ List.replicate 20 (.terminalPutchar '\t'.toUInt8) ++ [.terminalPutchar 'x'.toUInt8])
  rw [List.foldlM_cons] at hrun
  rw [TerminalCall.run, terminalInitialize_eq] at hrun
  nomatch hrun

end MyOs.Drivers
