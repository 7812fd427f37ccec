/-
  `delete_last_char` behind `terminal_putchar`.

  A character in the last column moves the cursor to the next row at once.  `delete_last_char` looks
  for it in the row above, and takes the column behind it.

  1. **Undoing** (`Terminal.Undoes`): the cursor and all cells are as before.
  2. **The last column** (`terminalPutchar_undoes_iff`): everywhere else, and only there, a character
     can be taken back.
-/
import MyOs.Drivers.VgaRender

namespace MyOs.Drivers

open MyOs.Lib.Rows

namespace Terminal

/-! ## Undoing -/

/-- The cursor and the cells of the screen are the same. -/
def Restored (t t' : Terminal) : Prop :=
  t'.row = t.row ∧ t'.column = t.column ∧
    ∀ k, k < vgaWidth * vgaHeight → t'.buffer k = t.buffer k

/-- `delete_last_char` takes a character back. -/
def Undoes (t : Terminal) (c : UInt8) : Prop :=
  ∃ t', (t.terminalPutchar c).bind deleteLastChar = some t' ∧ t.Restored t'

/-- A character that is shown, and can be told from a blank cell. -/
structure Visible (c : UInt8) : Prop where
  ne_newline : c ≠ '\n'.toUInt8
  ne_tab : c ≠ '\t'.toUInt8
  ne_space : c ≠ ' '.toUInt8

/-- There is nothing behind the last row. -/
theorem shown_behind {done : List (List UInt8)} {cur : List UInt8} {r : Nat}
    (hr : r = min (done ++ [cur]).length vgaHeight - 1) :
    shown (done ++ [cur]) r cur.length = ' '.toUInt8 := by
  have hlast : (done ++ [cur]).length - vgaHeight + r = done.length := by
    rw [List.length_append, List.length_singleton] at hr ⊢
    unfold vgaHeight at hr ⊢
    omega
  rw [shown, cell_eq, hlast, List.getElem?_concat_length, Option.getD_some,
    List.getElem?_eq_none (Nat.le_refl _)]
  rfl

/-- The low byte of a cell is its character. -/
theorem vgaEntry_and_0xFF (c : UInt8) : vgaEntry c 7 &&& 0xFF = c.toUInt16 := by
  have hall : ∀ n : Fin 256, vgaEntry (UInt8.ofNat n) 7 &&& 0xFF = (UInt8.ofNat n).toUInt16 := by
    decide +kernel
  have h := hall ⟨c.toNat, c.toNat_lt⟩
  rwa [UInt8.ofNat_toNat] at h

/-- A character that does not complete a row. -/
theorem terminalPutchar_visible {t : Terminal} {c : UInt8} (hc : Visible c)
    (hindex : t.row * vgaWidth + t.column < vgaWidth * vgaHeight) (hcol : t.column + 1 ≠ vgaWidth) :
    ∃ t', t.terminalPutchar c = some t' ∧ t'.row = t.row ∧ t'.column = t.column + 1 ∧
      t'.color = t.color ∧ t'.buffer
        = Function.update t.buffer (t.row * vgaWidth + t.column) (vgaEntry c t.color) := by
  rw [terminalPutchar, if_neg hc.ne_newline, if_neg hc.ne_tab, terminalPutentryat_eq _ _ _ hindex]
  exact ⟨_, if_neg hcol, rfl, rfl, rfl, rfl⟩

/-- A backspace inside a row. -/
theorem deleteLastChar_succ {t : Terminal} {x : Nat} (hcolumn : t.column = x + 1)
    (hindex : t.row * vgaWidth + x < vgaWidth * vgaHeight) :
    ∃ t', t.deleteLastChar = some t' ∧ t'.row = t.row ∧ t'.column = x ∧ t'.buffer
      = Function.update t.buffer (t.row * vgaWidth + x) (vgaEntry ' '.toUInt8 t.color) := by
  have hstep : t.stepBack = { t with column := x } := by
    rw [stepBack, if_neg (by omega), hcolumn, Nat.add_sub_cancel]
  rw [deleteLastChar, hstep, terminalPutentryat_eq _ _ _ hindex]
  exact ⟨_, rfl, rfl, rfl, rfl⟩

/-- A backspace leaves the cursor where it steps back to. -/
theorem column_deleteLastChar {t t' : Terminal} (h : t.deleteLastChar = some t') :
    t'.column = t.stepBack.column := by
  obtain ⟨t₁, hstore, ht'⟩ := Option.bind_eq_some_iff.mp h
  unfold store at hstore
  split at hstore
  · obtain rfl := Option.some.inj hstore
    obtain rfl := Option.some.inj ht'
    rfl
  · nomatch hstore

/-- At the left border, and behind a row that is full, that is behind the row. -/
theorem stepBack_full {t : Terminal} (hcolumn : t.column = 0) (hrow : 0 < t.row)
    (hfull : t.buffer ((t.row - 1) * vgaWidth + (vgaWidth - 1)) &&& 0xFF ≠ ' '.toUInt8.toUInt16) :
    t.stepBack.column = vgaWidth := by
  have hscan : t.scanBack (t.row - 1) vgaWidth = some vgaWidth := if_pos hfull
  rw [stepBack, if_pos hcolumn, if_pos hrow, hscan]
  rfl

section Undo

variable {t : Terminal} {done : List (List UInt8)} {cur : List UInt8}
  (h : t.Shows (done ++ [cur])) (hcolumn : t.column = cur.length) (hfits : cur.length < vgaWidth)
  {c : UInt8} (hc : Visible c)

include h hcolumn hfits hc

/-- **In front of the last column** a character is taken back. -/
theorem Shows.undoes (hcol : t.column + 1 ≠ vgaWidth) : t.Undoes c := by
  have hindex := index_lt h.row_lt (hcolumn ▸ hfits)
  obtain ⟨t₁, hput, hrow₁, hcolumn₁, hcolor₁, hbuffer₁⟩ := terminalPutchar_visible hc hindex hcol
  obtain ⟨t₂, hdelete, hrow₂, hcolumn₂, hbuffer₂⟩ := deleteLastChar_succ hcolumn₁ (hrow₁ ▸ hindex)
  rw [hrow₁] at hrow₂ hbuffer₂
  refine ⟨t₂, by rw [hput, Option.bind_some, hdelete], hrow₂, hcolumn₂, fun k _ => ?_⟩
  -- the cell under the cursor was blank
  have hblank : t.buffer (t.row * vgaWidth + t.column) = vgaEntry ' '.toUInt8 t.color := by
    rw [h.color_eq, h.cell_eq _ _ h.row_lt (hcolumn ▸ hfits), hcolumn, shown_behind h.row_eq]
  rw [hbuffer₂, hbuffer₁, Function.update_idem, hcolor₁, ← hblank, Function.update_eq_self]

/-- **In the last column** it is not: the row is full, and the cursor goes behind it. -/
theorem Shows.not_undoes (hcol : t.column + 1 = vgaWidth) : ¬ t.Undoes c := by
  rintro ⟨t₂, hrun, -, hcolumn₂, -⟩
  obtain ⟨t₁, hput, hdelete⟩ := Option.bind_eq_some_iff.mp hrun
  obtain ⟨t₀, hput₀, hshows₀, hcolumn₀⟩ := h.putentryat hcolumn hfits c
  rw [terminalPutchar, if_neg hc.ne_newline, if_neg hc.ne_tab, hput₀, Option.bind_eq_bind,
    Option.bind_some, hcolumn₀, if_pos (hcolumn ▸ hcol)] at hput
  obtain ⟨t₁', hput', hshows₁, hcolumn₁⟩ :=
    hshows₀.newRow (List.append_ne_nil_of_right_ne_nil _ (List.cons_ne_nil _ _))
  obtain rfl := Option.some.inj (hput.symm.trans hput')
  have hrows : (done ++ [cur ++ [c]]).length = done.length + 1 := by
    rw [List.length_append, List.length_singleton]
  have hrow₁ := hshows₁.row_eq
  rw [List.length_append, hrows, List.length_singleton] at hrow₁
  unfold vgaHeight at hrow₁
  -- the row above ends with the character
  have hcell : shown (done ++ [cur ++ [c]] ++ [[]]) (t₁.row - 1) (vgaWidth - 1) = c := by
    rw [shown, cell_newRow, hrows, cell_concat (Nat.zero_lt_succ 24)]
    unfold vgaHeight
    refine if_pos ⟨?_, by omega⟩
    split <;> omega
  have hfull : t₁.buffer ((t₁.row - 1) * vgaWidth + (vgaWidth - 1)) &&& 0xFF
      ≠ ' '.toUInt8.toUInt16 := by
    rw [hshows₁.cell_eq _ _ (Nat.lt_of_le_of_lt (Nat.sub_le _ 1) hshows₁.row_lt)
      (show vgaWidth - 1 < vgaWidth by decide), hcell, vgaEntry_and_0xFF]
    exact fun heq => hc.ne_space (UInt8.toUInt16_inj.mp heq)
  rw [column_deleteLastChar hdelete, stepBack_full hcolumn₁ (by omega) hfull] at hcolumn₂
  omega

end Undo

end Terminal

/-! ## The last column -/

open Terminal

/-- A printable character. -/
def Printable (c : UInt8) : Prop := 0x20 ≤ c ∧ c < 0x7F

instance : DecidablePred Printable := fun _ => inferInstanceAs (Decidable (_ ∧ _))

theorem Printable.ne {c d : UInt8} (hc : Printable c) (hd : ¬ Printable d) : c ≠ d := by
  rintro rfl
  exact hd hc

/-- One that is not a space is visible. -/
theorem Printable.visible {c : UInt8} (hc : Printable c) (hspace : c ≠ ' '.toUInt8) : Visible c where
  ne_newline := hc.ne (by decide)
  ne_tab := hc.ne (by decide)
  ne_space := hspace

/-- A screen after `terminal_initialize`, on which printable characters and newlines were written. -/
def Written (t : Terminal) : Prop :=
  ∃ (start : Terminal) (text : List UInt8), (∀ c ∈ text, Printable c ∨ c = '\n'.toUInt8) ∧
    (start.terminalInitialize.bind fun t => text.foldlM terminalPutchar t) = some t

/-- It shows some rows, and the cursor is behind the last of them. -/
theorem Written.shows {t : Terminal} (h : Written t) : ∃ done cur, t.Shows (done ++ [cur]) ∧
    t.column = cur.length ∧ cur.length < vgaWidth := by
  obtain ⟨start, text, htext, hrun⟩ := h
  have htab : '\t'.toUInt8 ∉ text := by
    intro hmem
    rcases htext _ hmem with htab | htab
    all_goals exact absurd htab (by decide)
  obtain ⟨t₀, hstart, hshows₀, hcolumn₀⟩ := shows_terminalInitialize start
  obtain ⟨t', done, cur, ht', hshows, hcolumn, hfits, -⟩ :=
    Shows.write htab [] [] hshows₀ hcolumn₀ (Nat.zero_lt_succ 79)
  rw [hstart, Option.bind_some, ht'] at hrun
  obtain rfl := Option.some.inj hrun
  exact ⟨done, cur, hshows, hcolumn, hfits⟩

/-- **Where a character can be taken back**: in front of the last column only. -/
theorem terminalPutchar_undoes_iff {t : Terminal} (ht : Written t) {c : UInt8} (hc : Printable c)
    (hspace : c ≠ ' '.toUInt8) : t.Undoes c ↔ t.column ≠ vgaWidth - 1 := by
  obtain ⟨done, cur, hshows, hcolumn, hfits⟩ := ht.shows
  have hvisible := hc.visible hspace
  constructor
  · intro hundoes hcol
    exact hshows.not_undoes hcolumn hfits hvisible (by rw [hcol]; rfl) hundoes
  · intro hcol
    refine hshows.undoes hcolumn hfits hvisible fun hlast => hcol ?_
    rw [← hlast]
    rfl

/-- A command and the next prompt. -/
def secondPrompt : List UInt8 := "> ver\n> ".toList.map Char.toUInt8

-- the characters of the prompt are evaluated one by one
set_option maxRecDepth 2048 in
/-- The first character behind it. -/
theorem terminalPutchar_undoes_iff_prompt : ∃ t,
    (zeroTerminal.terminalInitialize.bind fun t => secondPrompt.foldlM terminalPutchar t) = some t ∧
    t.row = 1 ∧ t.column = 2 ∧ t.Undoes 'x'.toUInt8 := by
  have htext : ∀ c ∈ secondPrompt, Printable c ∨ c = '\n'.toUInt8 := by decide
  have htab : '\t'.toUInt8 ∉ secondPrompt := by decide
  obtain ⟨t₀, hstart, hshows₀, hcolumn₀⟩ := shows_terminalInitialize zeroTerminal
  obtain ⟨t, done, cur, ht, hshows, hcolumn, hfits, hlayout⟩ :=
    Shows.write htab [] [] hshows₀ hcolumn₀ (Nat.zero_lt_succ 79)
  -- the rows are the command and the prompt
  have hrows : done ++ [cur] = [secondPrompt.take 5] ++ [secondPrompt.drop 6] := by
    rw [← hlayout]
    decide
  obtain ⟨rfl, hcur⟩ := List.append_inj' hrows rfl
  obtain rfl := (List.cons.inj hcur).1
  have hrun : (zeroTerminal.terminalInitialize.bind fun t => secondPrompt.foldlM terminalPutchar t)
      = some t := by rw [hstart, Option.bind_some, ht]
  have hcolumn' : t.column = 2 := hcolumn
  refine ⟨t, hrun, hshows.row_eq, hcolumn',
    (terminalPutchar_undoes_iff ⟨zeroTerminal, _, htext, hrun⟩ (by decide) (by decide)).mpr ?_⟩
  rw [hcolumn']
  decide

/-- **The last character of a row**: it stays on the screen, and the cursor is in column 80. -/
theorem not_terminalPutchar_undoes : ¬ ∀ (t : Terminal) (c : UInt8), Written t → Printable c →
    c ≠ ' '.toUInt8 → t.buffer (t.row * vgaWidth + t.column) &&& 0xFF = ' '.toUInt8.toUInt16 →
    ¬ (t.column + 1 = vgaWidth ∧ t.row + 1 = vgaHeight) → t.Undoes c := by
  intro h
  have htext : ∀ c ∈ List.replicate 79 'x'.toUInt8, Printable c ∨ c = '\n'.toUInt8 := by
    decide +kernel
  have htab : '\t'.toUInt8 ∉ List.replicate 79 'x'.toUInt8 := by decide
  obtain ⟨t₀, hstart, hshows₀, hcolumn₀⟩ := shows_terminalInitialize zeroTerminal
  obtain ⟨t, done, cur, ht, hshows, hcolumn, hfits, hlayout⟩ :=
    Shows.write htab [] [] hshows₀ hcolumn₀ (Nat.zero_lt_succ 79)
  -- all of it is in the first row
  have hrows : done ++ [cur] = [] ++ [List.replicate 79 'x'.toUInt8] := by
    rw [← hlayout]
    decide +kernel
  obtain ⟨rfl, hcur⟩ := List.append_inj' hrows rfl
  obtain rfl := (List.cons.inj hcur).1
  have hrow : t.row = 0 := hshows.row_eq
  have hwritten : Written t := ⟨zeroTerminal, _, htext, by rw [hstart, Option.bind_some, ht]⟩
  refine hshows.not_undoes hcolumn hfits (c := 'x'.toUInt8) ⟨by decide, by decide, by decide⟩
    (by rw [hcolumn]; rfl) (h t _ hwritten (by decide) (by decide) ?_ ?_)
  · rw [hshows.cell_eq _ _ hshows.row_lt (hcolumn ▸ hfits), hcolumn, shown_behind hshows.row_eq,
      vgaEntry_and_0xFF]
  · rw [hrow]
    exact fun hlast => absurd hlast.2 (by decide)

end MyOs.Drivers
