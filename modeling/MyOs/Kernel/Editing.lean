/-
  The line on the screen: `kernel_main` and the terminal, between two `'\n'`.

  1. **Program**: `editStep` is one turn of the loop of `kernel_main` with what it draws.  How far a
     `'\b'` may go is counted in `input_size`, and where it goes is found by `delete_last_char`.
  2. **One character**: a character moves the cursor on by one cell, over the right border too
     (`terminalPutchar_moves`); a `'\b'` moves it back by at most one, unless the row above ends in
     blanks (`deleteLastChar_moves`).
  3. **Runs** (`editing_keeps`): without such a row the cursor stays as many cells behind the prompt
     as characters have been typed, so that what is in front of it stays.  Behind it there must not be
     any output when the line begins, since characters are written over it.
-/
import MyOs.Drivers.Vga
import MyOs.Kernel.Shell

namespace MyOs.Kernel

open MyOs.Lib.GuardedRuns MyOs.Libraries MyOs.Drivers

/-! ## The program -/

/-- Where the next character goes. -/
def position (t : Terminal) : Nat := t.row * vgaWidth + t.column

/-- The number of rows that go when a character of a line is written. -/
def scrolls (t : Terminal) : Nat :=
  if t.column + 1 = vgaWidth ∧ t.row + 1 = vgaHeight then 1 else 0

/-- `kernel_main`, the terminal, and the number of rows scrolled since the line began. -/
structure Editing where
  shell : ShellState
  terminal : Terminal
  scrolled : Nat

/-- What a call of `kernel_main` draws.  Commands draw too, but end the line. -/
def draw (s : Editing) : ShellEvent → Option Editing
  | .deleteLastChar => s.terminal.deleteLastChar.map fun t => { s with terminal := t }
  | .writestring b => (s.terminal.terminalWritestring [b, 0]).map fun t =>
      { s with terminal := t, scrolled := s.scrolled + scrolls s.terminal }
  | .runCommand _ _ _ => none

/-- One turn of the loop. -/
def editStep (s : Editing) (b : UInt8) : Option Editing := do
  let (shell, events) ← kernelMainStep s.shell b
  events.foldlM draw { s with shell := shell }

/-! ## One character -/

section Screen

variable {t : Terminal}

/-- A character moves the cursor on by one cell, and leaves those in front of it. -/
theorem terminalPutchar_moves (hrow : t.row < vgaHeight)
    (hposition : position t < vgaWidth * vgaHeight) {b : UInt8} (hnewline : b ≠ '\n'.toUInt8)
    (htab : b ≠ '\t'.toUInt8) : ∃ t', t.terminalPutchar b = some t' ∧ t'.row < vgaHeight ∧
      vgaWidth * scrolls t + position t' = position t + 1 ∧
      ∀ k, k < position t → vgaWidth * scrolls t ≤ k →
        t'.buffer (k - vgaWidth * scrolls t) = t.buffer k := by
  obtain ⟨t₁, hput, hrow₁, hcolumn₁, hbuffer₁⟩ : ∃ t₁,
      t.terminalPutentryat b t.color t.column t.row = some t₁ ∧ t₁.row = t.row ∧
      t₁.column = t.column ∧ ∀ k, k < position t → t₁.buffer k = t.buffer k :=
    ⟨_, Terminal.terminalPutentryat_eq _ _ _ hposition, rfl, rfl,
      fun k hk => Function.update_of_ne (Nat.ne_of_lt hk) _ _⟩
  rw [Terminal.terminalPutchar, if_neg hnewline, if_neg htab, hput, Option.bind_eq_bind,
    Option.bind_some, Terminal.newRow, hcolumn₁, hrow₁]
  unfold scrolls
  -- the screen scrolls only from the last column of the last row
  by_cases hwrap : t.column + 1 = vgaWidth
  · rw [if_pos hwrap]
    by_cases hlast : t.row + 1 = vgaHeight
    · rw [if_pos hlast, if_pos ⟨hwrap, hlast⟩, Terminal.scroll_eq]
      refine ⟨_, rfl, hrow, ?_, fun k hk hle => ?_⟩
      · show vgaWidth * 1 + (t.row * vgaWidth + 0) = t.row * vgaWidth + t.column + 1
        omega
      · have hcopied : k - vgaWidth * 1 < (vgaHeight - 1) * vgaWidth := by
          unfold vgaWidth vgaHeight at *
          omega
        refine (if_pos hcopied).trans ((if_pos hcopied).trans ?_)
        rw [Nat.mul_one, Nat.sub_add_cancel (by omega)]
        exact hbuffer₁ k hk
    · rw [if_neg hlast, if_neg fun h => hlast h.2]
      refine ⟨_, rfl, Nat.lt_of_le_of_ne hrow hlast, ?_, fun k hk _ => hbuffer₁ k hk⟩
      show vgaWidth * 0 + ((t.row + 1) * vgaWidth + 0) = t.row * vgaWidth + t.column + 1
      rw [Nat.succ_mul t.row]
      omega
  · rw [if_neg hwrap, if_neg fun h => hwrap h.1]
    refine ⟨_, rfl, hrow, ?_, fun k hk _ => hbuffer₁ k hk⟩
    show vgaWidth * 0 + (t.row * vgaWidth + (t.column + 1)) = t.row * vgaWidth + t.column + 1
    omega

/-- A blank cell, whatever its colour. -/
abbrev Blank (t : Terminal) (k : Nat) : Prop := t.buffer k &&& 0xFF = ' '.toUInt8.toUInt16

/-- At the left border, the row above is blank, or not blank in one of its last two columns. -/
def RowEnds (t : Terminal) : Prop := t.column = 0 → 0 < t.row →
  (∀ x, x < vgaWidth → Blank t ((t.row - 1) * vgaWidth + x)) ∨
  ¬ Blank t ((t.row - 1) * vgaWidth + 78) ∨ ¬ Blank t ((t.row - 1) * vgaWidth + 79)

theorem scanBack_eq_none {row : Nat} : ∀ {n}, (∀ x, x < n → Blank t (row * vgaWidth + x)) →
    t.scanBack row n = none
  | 0, _ => rfl
  | n + 1, h => by
    rw [Terminal.scanBack, if_neg (not_not.mpr (h n (Nat.lt_succ_self n)))]
    exact scanBack_eq_none fun x hx => h x (Nat.lt_succ_of_lt hx)

/-- Where `delete_last_char` finds the end of the row above. -/
theorem RowEnds.scanBack (h : RowEnds t) (hcolumn : t.column = 0) (hrow : 0 < t.row) :
    79 ≤ (t.scanBack (t.row - 1) vgaWidth).getD (vgaWidth - 1) := by
  rcases h hcolumn hrow with hblank | hend | hend
  · rw [scanBack_eq_none hblank]
    exact Nat.le_refl 79
  · rw [Terminal.scanBack]
    split_ifs
    · exact Nat.le_succ 79
    · rw [Terminal.scanBack, if_pos hend]
      exact Nat.le_refl 79
  · rw [Terminal.scanBack, if_pos hend]
    exact Nat.le_succ 79

/-- A `'\b'` moves the cursor back by at most one cell, and leaves those in front of it. -/
theorem deleteLastChar_moves (hrow : t.row < vgaHeight)
    (hposition : position t ≤ vgaWidth * vgaHeight) (hends : RowEnds t) :
    ∃ t', t.deleteLastChar = some t' ∧ t'.row < vgaHeight ∧ position t' ≤ position t ∧
      position t ≤ position t' + 1 ∧ ∀ k, k < position t' → t'.buffer k = t.buffer k := by
  -- the cursor goes one cell back, or to the 79th column or behind in the row above
  have hstep : t.stepBack.row < vgaHeight ∧ position t.stepBack < vgaWidth * vgaHeight ∧
      position t.stepBack ≤ position t ∧ position t ≤ position t.stepBack + 1 ∧
      t.stepBack.buffer = t.buffer := by
    unfold position at hposition ⊢
    unfold Terminal.stepBack vgaWidth vgaHeight at *
    by_cases hcolumn : t.column = 0
    · by_cases hfirst : t.row > 0
      · have hge : 79 ≤ (t.scanBack (t.row - 1) 80).getD (80 - 1) := hends.scanBack hcolumn hfirst
        have hle : (t.scanBack (t.row - 1) 80).getD (80 - 1) ≤ 80 := by
          cases hfound : t.scanBack (t.row - 1) 80 with
          | none => exact Nat.le_succ 79
          | some m => exact Terminal.scanBack_le hfound
        rw [if_pos hcolumn, if_pos hfirst]
        refine ⟨?_, ?_, ?_, ?_, rfl⟩
        all_goals dsimp only
        all_goals omega
      · rw [if_pos hcolumn, if_neg hfirst]
        refine ⟨hrow, ?_, Nat.le_refl _, Nat.le_succ _, rfl⟩
        omega
    · rw [if_neg hcolumn]
      refine ⟨hrow, ?_, ?_, ?_, rfl⟩
      all_goals dsimp only
      all_goals omega
  obtain ⟨hrow', hlt, hle, hge, hbuffer⟩ := hstep
  rw [Terminal.deleteLastChar, Terminal.terminalPutentryat_eq _ _ _ hlt]
  refine ⟨_, rfl, hrow', hle, hge, fun k hk => ?_⟩
  show Function.update t.stepBack.buffer (position t.stepBack) _ k = _
  rw [hbuffer]
  exact Function.update_of_ne (Nat.ne_of_lt hk) _ _

/-- A character that does not reach the right border. -/
theorem terminalPutchar_eq {b : UInt8} (hwrap : t.column + 1 < vgaWidth) (hrow : t.row < vgaHeight)
    (hnewline : b ≠ '\n'.toUInt8) (htab : b ≠ '\t'.toUInt8) : ∃ t', t.terminalPutchar b = some t' ∧
      t'.row = t.row ∧ t'.column = t.column + 1 := by
  have hlt : t.row * vgaWidth + t.column < vgaWidth * vgaHeight :=
    Terminal.index_lt hrow (Nat.lt_of_succ_lt hwrap)
  rw [Terminal.terminalPutchar, if_neg hnewline, if_neg htab,
    Terminal.terminalPutentryat_eq _ _ _ hlt, Option.bind_eq_bind, Option.bind_some]
  exact ⟨_, if_neg (Nat.ne_of_lt hwrap), rfl, rfl⟩

end Screen

/-! ## The line -/

section Line

variable {s : ShellState} {b : UInt8}

/-- Characters that can be typed into a line and seen. -/
def Printable (b : UInt8) : Prop := 0x20 ≤ b ∧ b ≤ 0x7E

instance : Decidable (Printable b) := inferInstanceAs (Decidable (_ ∧ _))

theorem Printable.ne (h : Printable b) {c : UInt8} (hc : c < 0x20) : b ≠ c := by
  rintro rfl
  exact absurd h.1 (UInt8.not_le.mpr hc)

theorem kernelMainStep_printable (hlength : s.inputBuffer.length = 256) (hb : Printable b)
    (hlt : s.inputSize.toNat < 256) : ∃ inputBuffer, inputBuffer.length = 256 ∧
      kernelMainStep s b = some (⟨inputBuffer, s.inputSize + 1⟩, [.writestring b]) := by
  refine ⟨s.inputBuffer.set s.inputSize.toNat b, (List.length_set ..).trans hlength, ?_⟩
  rw [kernelMainStep, if_neg (hb.ne (by decide)), if_neg fun h => hb.ne (by decide) h.1,
    if_neg (hb.ne (by decide)), if_neg (hb.ne (by decide)), store, if_pos (hlength.symm ▸ hlt)]
  rfl

theorem kernelMainStep_remove (hlength : s.inputBuffer.length = 256) (hne : s.inputSize ≠ 0)
    (hlt : s.inputSize.toNat < 256) : ∃ inputBuffer, inputBuffer.length = 256 ∧
      kernelMainStep s backspace = some (⟨inputBuffer, s.inputSize - 1⟩, [.deleteLastChar]) := by
  refine ⟨s.inputBuffer.set s.inputSize.toNat 0, (List.length_set ..).trans hlength, ?_⟩
  rw [kernelMainStep, if_neg (by decide), if_pos ⟨rfl, hne⟩, store, if_pos (hlength.symm ▸ hlt)]
  rfl

theorem kernelMainStep_ignore (hzero : s.inputSize = 0) :
    kernelMainStep s backspace = some (s, []) := by
  rw [kernelMainStep, if_neg (by decide), if_neg fun h => h.2 hzero, if_pos rfl]

end Line

/-! ## Runs -/

namespace Editing

/-- An empty line behind `"> "` (`atPrompt_writestring`). -/
structure AtPrompt (s : Editing) : Prop where
  length_eq : s.shell.inputBuffer.length = 256
  size_eq : s.shell.inputSize = 0
  row_lt : s.terminal.row < vgaHeight
  column_eq : s.terminal.column = 2
  scrolled_eq : s.scrolled = 0

/-- A cell with output: it is in front of the cursor, or not blank. -/
def HasOutput (t : Terminal) (k : Nat) : Prop := k < position t ∨ ¬ Blank t k

/-- The screen is blank from the cursor on. -/
def BlankBehind (t : Terminal) : Prop :=
  ∀ k, position t ≤ k → k < vgaWidth * vgaHeight → Blank t k

/-- All output that was on the screen is still there, as far as it has not been scrolled away, and the
    cursor is not in front of its place. -/
structure Keeps (start s : Editing) : Prop where
  cells : ∀ k, k < vgaWidth * vgaHeight → HasOutput start.terminal k → vgaWidth * s.scrolled ≤ k →
    s.terminal.buffer (k - vgaWidth * s.scrolled) = start.terminal.buffer k
  cursor : position start.terminal ≤ vgaWidth * s.scrolled + position s.terminal

/-- There is room in the array and on the screen for the character; and a `'\b'` that removes one
    does not find blanks at the end of the row above. -/
structure EditOk (s : Editing) (b : UInt8) : Prop where
  array : b ≠ backspace ∨ s.shell.inputSize ≠ 0 → s.shell.inputSize.toNat < 256
  screen : b ≠ backspace → position s.terminal < vgaWidth * vgaHeight
  ends : b = backspace → s.shell.inputSize ≠ 0 → RowEnds s.terminal

/-- The invariant: the cursor is at least as far behind the prompt as the line is long. -/
structure Behind (start s : Editing) : Prop where
  length_eq : s.shell.inputBuffer.length = 256
  size_le : s.shell.inputSize.toNat ≤ 256
  row_lt : s.terminal.row < vgaHeight
  position_le : position s.terminal ≤ vgaWidth * vgaHeight
  cells : ∀ k, k < position start.terminal → vgaWidth * s.scrolled ≤ k →
    s.terminal.buffer (k - vgaWidth * s.scrolled) = start.terminal.buffer k
  cursor : position start.terminal + s.shell.inputSize.toNat
    ≤ vgaWidth * s.scrolled + position s.terminal

variable {start s : Editing} {b : UInt8}

/-- `terminal_writestring("> ")` at the left border, and an empty line. -/
theorem atPrompt_writestring {t : Terminal} (hrow : t.row < vgaHeight) (hcolumn : t.column = 0)
    {inputBuffer : List UInt8} (hlength : inputBuffer.length = 256) :
    ∃ t', t.terminalWritestring ['>'.toUInt8, ' '.toUInt8, 0] = some t' ∧
      AtPrompt ⟨⟨inputBuffer, 0⟩, t', 0⟩ := by
  have hwrite : t.terminalWritestring (['>'.toUInt8, ' '.toUInt8] ++ [0])
      = ['>'.toUInt8, ' '.toUInt8].foldlM Terminal.terminalPutchar t :=
    Terminal.terminalWritestring_eq t (by decide)
  obtain ⟨t₁, hput₁, hrow₁, hcolumn₁⟩ := terminalPutchar_eq (t := t) (b := '>'.toUInt8)
    (by rw [hcolumn]; decide) hrow (by decide) (by decide)
  obtain ⟨t₂, hput₂, hrow₂, hcolumn₂⟩ := terminalPutchar_eq (t := t₁) (b := ' '.toUInt8)
    (by rw [hcolumn₁, hcolumn]; decide) (hrow₁ ▸ hrow) (by decide) (by decide)
  refine ⟨t₂, hwrite.trans ?_, hlength, rfl, ?_, ?_, rfl⟩
  · rw [List.foldlM_cons, hput₁]
    show [' '.toUInt8].foldlM Terminal.terminalPutchar t₁ = some t₂
    rw [List.foldlM_cons, hput₂]
    rfl
  · show t₂.row < vgaHeight
    rw [hrow₂, hrow₁]
    exact hrow
  · show t₂.column = 2
    rw [hcolumn₂, hcolumn₁, hcolumn]

theorem AtPrompt.behind (h : start.AtPrompt) : Behind start start where
  length_eq := h.length_eq
  size_le := by
    rw [h.size_eq]
    exact Nat.zero_le _
  row_lt := h.row_lt
  position_le := by
    refine Nat.le_of_lt (Terminal.index_lt h.row_lt ?_)
    rw [h.column_eq]
    decide
  cells k _ _ := by rw [h.scrolled_eq, Nat.mul_zero, Nat.sub_zero]
  cursor := by
    rw [h.size_eq, h.scrolled_eq]
    exact Nat.le_of_eq (Nat.zero_add _).symm

theorem Behind.keeps (h : Behind start s) (hblank : BlankBehind start.terminal) : Keeps start s where
  cells k hk houtput hle := by
    refine h.cells k ?_ hle
    rcases houtput with hfront | hoccupied
    · exact hfront
    · by_contra hbehind
      exact hoccupied (hblank k (Nat.le_of_not_lt hbehind) hk)
  cursor := Nat.le_trans (Nat.le_add_right _ _) h.cursor

/-- A character. -/
theorem Behind.printable (h : Behind start s) (hb : Printable b) (hok : s.EditOk b) :
    ∃ s', editStep s b = some s' ∧ Behind start s' := by
  have hback : b ≠ backspace := hb.ne (by decide)
  have hsize := hok.array (.inl hback)
  -- one more in the buffer, and the cursor one further, scrolling or not
  obtain ⟨inputBuffer, hlength, hstep⟩ := kernelMainStep_printable h.length_eq hb hsize
  obtain ⟨t', hput, hrow, hposition, hcells⟩ := terminalPutchar_moves h.row_lt (hok.screen hback)
    (hb.ne (by decide)) (hb.ne (by decide))
  have hwrite : s.terminal.terminalWritestring [b, 0] = some t' := by
    have hzero : 0 ∉ [b] := fun hmem => hb.ne (by decide) (List.mem_singleton.mp hmem).symm
    have hone := Terminal.terminalWritestring_eq s.terminal hzero
    rw [List.foldlM_cons, hput] at hone
    exact hone
  have hinputSize : (s.shell.inputSize + 1).toNat = s.shell.inputSize.toNat + 1 := by
    rw [UInt16.toNat_add, UInt16.toNat_one]
    omega
  have hcursor := h.cursor
  refine ⟨⟨⟨inputBuffer, s.shell.inputSize + 1⟩, t', s.scrolled + scrolls s.terminal⟩, ?_,
    hlength, ?_, hrow, ?_, fun k hk hle => ?_, ?_⟩
  · rw [editStep, hstep]
    show List.foldlM draw _ [.writestring b] = _
    rw [List.foldlM_cons, draw, hwrite]
    rfl
  · exact hinputSize.symm ▸ hsize
  · have hlt := hok.screen hback
    show position t' ≤ vgaWidth * vgaHeight
    omega
  · rw [Nat.mul_add] at hle ⊢
    rw [← h.cells k hk (by omega), ← Nat.sub_sub]
    exact hcells _ (by omega) (by omega)
  · show position start.terminal + (s.shell.inputSize + 1).toNat
      ≤ vgaWidth * (s.scrolled + scrolls s.terminal) + position t'
    rw [hinputSize, Nat.mul_add]
    omega

/-- A `'\b'`. -/
theorem Behind.backspace (h : Behind start s) (hok : s.EditOk backspace) :
    ∃ s', editStep s backspace = some s' ∧ Behind start s' := by
  by_cases hzero : s.shell.inputSize = 0
  · refine ⟨s, ?_, h⟩
    rw [editStep, kernelMainStep_ignore hzero]
    rfl
  · obtain ⟨inputBuffer, hlength, hstep⟩ :=
      kernelMainStep_remove h.length_eq hzero (hok.array (.inr hzero))
    obtain ⟨t', hdelete, hrow, hle, hge, hcells⟩ :=
      deleteLastChar_moves h.row_lt h.position_le (hok.ends rfl hzero)
    -- one less in the buffer, and the cursor at most one back
    have hinputSize : (s.shell.inputSize - 1).toNat + 1 = s.shell.inputSize.toNat := by
      have hne : s.shell.inputSize.toNat ≠ 0 := fun heq => hzero (UInt16.toNat_inj.mp heq)
      have hone : (1 : UInt16) ≤ s.shell.inputSize := by
        rw [UInt16.le_iff_toNat_le, UInt16.toNat_one]
        omega
      rw [UInt16.toNat_sub_of_le _ _ hone, UInt16.toNat_one]
      omega
    have hcursor := h.cursor
    have hsize := h.size_le
    have hposition := h.position_le
    refine ⟨⟨⟨inputBuffer, s.shell.inputSize - 1⟩, t', s.scrolled⟩, ?_, hlength, ?_, hrow, ?_,
      fun k hk (hle : vgaWidth * s.scrolled ≤ k) => ?_, ?_⟩
    · rw [editStep, hstep]
      show List.foldlM draw _ [.deleteLastChar] = _
      rw [List.foldlM_cons, draw, hdelete]
      rfl
    · show (s.shell.inputSize - 1).toNat ≤ 256
      omega
    · exact Nat.le_trans hle hposition
    · rw [← h.cells k hk hle]
      exact hcells _ (show k - vgaWidth * s.scrolled < position t' by omega)
    · show position start.terminal + (s.shell.inputSize - 1).toNat
        ≤ vgaWidth * s.scrolled + position t'
      omega

/-- **What is on the screen stays**, and so does the cursor behind the prompt, in every run that begins
    with a screen that is blank behind the prompt, and in which each character finds room and no `'\b'`
    goes back to a row that ends in blanks. -/
theorem editing_keeps (start : Editing) (h : start.AtPrompt)
    (hblank : BlankBehind start.terminal) (typed : List UInt8)
    (htyped : ∀ b ∈ typed, Printable b ∨ b = Kernel.backspace)
    (hok : Guarded editStep EditOk start typed) {pre : List UInt8} (hpre : pre <+: typed) :
    ∃ s, pre.foldlM editStep start = some s ∧ Keeps start s := by
  obtain ⟨post, rfl⟩ := hpre
  have hguarded := ((guarded_append.mp hok).1).and_mem
    fun b hb => htyped b (List.mem_append_left post hb)
  have hstep : ∀ s b, Behind start s → s.EditOk b ∧ (Printable b ∨ b = Kernel.backspace) →
      ∃ s', editStep s b = some s' ∧ Behind start s' := by
    rintro s b hs ⟨hb, hprintable | rfl⟩
    · exact hs.printable hprintable hb
    · exact hs.backspace hb
  obtain ⟨s, hrun, hs⟩ := hguarded.run (Behind start) hstep h.behind
  exact ⟨s, hrun, hs.keeps hblank⟩

/-- The first prompt, behind `terminal_initialize`. -/
def first : Editing where
  shell := emptyShell
  terminal := ⟨0, 2, 7, fun k => if k = 0 then vgaEntry '>'.toUInt8 7 else blankCell, 1⟩
  scrolled := 0

theorem atPrompt_first : first.AtPrompt :=
  ⟨List.length_replicate, rfl, Nat.zero_lt_succ 24, rfl, rfl⟩

theorem blankBehind_first : BlankBehind first.terminal := by
  intro k hk _
  have hne : k ≠ 0 := by
    rintro rfl
    exact absurd hk (by decide)
  show (if k = 0 then vgaEntry '>'.toUInt8 7 else blankCell) &&& 0xFF = _
  rw [if_neg hne]
  decide

/-- `a`, and a `'\b'` that removes it. -/
theorem editing_keeps_a :
    ∃ s, [0x61, Kernel.backspace].foldlM editStep first = some s ∧ Keeps first s := by
  have htyped : ∀ b ∈ [0x61, Kernel.backspace], Printable b ∨ b = Kernel.backspace :=
    List.forall_mem_cons.mpr ⟨.inl (by decide), List.forall_mem_singleton.mpr (.inr rfl)⟩
  refine editing_keeps first atPrompt_first blankBehind_first [0x61, Kernel.backspace] htyped ?_
    (List.prefix_refl _)
  refine ⟨⟨fun _ => by decide, fun _ => by decide, fun hb => absurd hb (by decide)⟩,
    fun s hs => ⟨?_, fun _ _ => trivial⟩⟩
  have hstate : (editStep first 0x61).map (fun s => (s.shell.inputSize, s.terminal.column))
      = some (1, 3) := by decide +kernel
  rw [hs, Option.map_some] at hstate
  obtain ⟨hsize, hcolumn⟩ := Prod.mk.inj (Option.some.inj hstate)
  refine ⟨fun _ => hsize ▸ by decide, fun hb => absurd rfl hb, fun _ _ hzero => ?_⟩
  rw [hcolumn] at hzero
  exact absurd hzero (by decide)

/-- **The prompt can be deleted**: behind 78 blanks, the first `'\b'` goes back to `">"`. -/
theorem not_editing_keeps : ¬ ∀ (start : Editing) (typed : List UInt8), start.AtPrompt →
    (∀ b ∈ typed, Printable b ∨ b = Kernel.backspace) →
    ∃ s, typed.foldlM editStep start = some s ∧ Keeps start s := by
  intro h
  obtain ⟨s, hrun, hkeeps⟩ := h first (List.replicate 78 space ++ [Kernel.backspace])
    atPrompt_first (by
      intro b hb
      rcases List.mem_append.mp hb with hb | hb
      · exact .inl ((List.eq_of_mem_replicate hb) ▸ by decide)
      · exact .inr (List.mem_singleton.mp hb))
  have hposition : ((List.replicate 78 space ++ [Kernel.backspace]).foldlM editStep first).map
      (fun s => (s.scrolled, position s.terminal)) = some (0, 1) := by decide +kernel
  rw [hrun, Option.map_some] at hposition
  obtain ⟨hscrolled, hcursor⟩ := Prod.mk.inj (Option.some.inj hposition)
  have hle := hkeeps.cursor
  rw [hscrolled, hcursor] at hle
  exact absurd hle (by decide)

end Editing

end MyOs.Kernel
