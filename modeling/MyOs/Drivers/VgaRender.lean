/-
  What the terminal shows.

  The screen is an in-place buffer that scrolls; what it should show is a list of rows of any
  length, of which the last 25 are visible.

  1. **Specification**: `textRows` lays a text out in rows.
  2. **Simulation** (`Terminal.Shows`): the buffer is the window over the rows so far.  A character
     and a new row keep it.
  3. **Rendering** (`terminalWrite_renders`), for every text without tabs.
-/
import MyOs.Drivers.Vga
import MyOs.Lib.Rows

namespace MyOs.Drivers

open MyOs.Lib.Rows MyOs.Lib.GuardedRuns

/-! ## The specification -/

/-- The rows of a text on this screen. -/
def textRows (text : List UInt8) : List (List UInt8) :=
  layout vgaWidth (· == '\n'.toUInt8) [] text

/-- What the window over the rows shows. -/
abbrev shown (rows : List (List UInt8)) (r x : Nat) : UInt8 := cell ' '.toUInt8 vgaHeight rows r x

/-! ## The simulation -/

namespace Terminal

/-- The cursor is in the last of the rows, and the buffer shows them in attribute `0x07`. -/
structure Shows (t : Terminal) (rows : List (List UInt8)) : Prop where
  row_eq : t.row = min rows.length vgaHeight - 1
  color_eq : t.color = 7
  cell_eq : ∀ r x, r < vgaHeight → x < vgaWidth →
    t.buffer (r * vgaWidth + x) = vgaEntry (shown rows r x) 0x07

theorem Shows.row_lt {t : Terminal} {rows : List (List UInt8)} (h : t.Shows rows) :
    t.row < vgaHeight := by
  have hrow := h.row_eq
  unfold vgaHeight at hrow ⊢
  omega

/-- The blank screen shows one empty row. -/
theorem shows_terminalInitialize (t : Terminal) :
    ∃ t', t.terminalInitialize = some t' ∧ t'.Shows [[]] ∧ t'.column = 0 := by
  refine ⟨_, terminalInitialize_eq t, ⟨rfl, rfl, fun r x hr hx => ?_⟩, rfl⟩
  have hblank : shown [[]] r x = ' '.toUInt8 := by
    cases r <;> rfl
  rw [hblank]
  have hlt := index_lt hr hx
  rw [Nat.mul_comm vgaWidth] at hlt
  exact (if_pos hlt).trans (by decide)

/-- Scrolling, place by place. -/
theorem scroll_cells (t : Terminal) : ∃ t', t.scroll = some t' ∧ t'.row = t.row ∧
    t'.column = t.column ∧ t'.color = t.color ∧
    ∀ r x, r < vgaHeight → x < vgaWidth → t'.buffer (r * vgaWidth + x)
      = if r + 1 < vgaHeight then t.buffer ((r + 1) * vgaWidth + x) else blankCell := by
  refine ⟨_, scroll_eq t, rfl, rfl, rfl, fun r x hr hx => ?_⟩
  unfold lastBlanked shifted
  unfold vgaHeight vgaWidth at *
  have hbelow : (r + 1) * 80 + x = r * 80 + x + 80 := by omega
  rw [hbelow]
  by_cases hlast : r + 1 < 25
  · have hcopied : r * 80 + x < (25 - 1) * 80 := by omega
    rw [if_pos hlast]
    dsimp only
    rw [if_pos hcopied, if_pos hcopied]
  · have hcopied : ¬ r * 80 + x < (25 - 1) * 80 := by omega
    have hblank : r * 80 + x < (25 - 1) * 80 + 80 := by omega
    rw [if_neg hlast]
    dsimp only
    rw [if_neg hcopied, if_pos hblank]

/-- A new row. -/
theorem Shows.newRow {t : Terminal} {rows : List (List UInt8)} (h : t.Shows rows)
    (hrows : rows ≠ []) :
    ∃ t', t.newRow = some t' ∧ t'.Shows (rows ++ [[]]) ∧ t'.column = 0 := by
  obtain ⟨hrow, hcolor, hcell⟩ := h
  have hpos := List.length_pos_of_ne_nil hrows
  have hheight : 0 < vgaHeight := Nat.zero_lt_succ 24
  have hlength : (rows ++ [[]]).length = rows.length + 1 := by
    rw [List.length_append, List.length_singleton]
  unfold Terminal.newRow
  by_cases hlast : t.row + 1 = vgaHeight
  · -- the window is full, and scrolls
    have hfull : ¬ rows.length < vgaHeight := by omega
    rw [if_pos hlast]
    obtain ⟨t', hscroll, hrow', hcolumn', hcolor', hcell'⟩ := scroll_cells { t with column := 0 }
    refine ⟨t', hscroll, ⟨?_, hcolor'.trans hcolor, fun r x hr hx => ?_⟩, hcolumn'⟩
    · rw [hrow', hlength]
      dsimp only
      omega
    · rw [hcell' r x hr hx, shown, cell_newRow, if_neg hfull]
      by_cases hbelow : r + 1 < vgaHeight
      · rw [if_pos hbelow]
        exact hcell (r + 1) x hbelow hx
      · rw [if_neg hbelow, cell_of_le (Nat.le_of_not_lt hbelow)]
        decide
  · have hroom : rows.length < vgaHeight := by omega
    rw [if_neg hlast]
    refine ⟨_, rfl, ⟨?_, hcolor, fun r x hr hx => ?_⟩, rfl⟩
    · rw [hlength]
      dsimp only
      omega
    · rw [shown, cell_newRow, if_pos hroom]
      exact hcell r x hr hx

/-- A character behind the last row. -/
theorem Shows.putentryat {t : Terminal} {done : List (List UInt8)} {cur : List UInt8}
    (h : t.Shows (done ++ [cur])) (hcolumn : t.column = cur.length) (hfits : cur.length < vgaWidth)
    (c : UInt8) : ∃ t', t.terminalPutentryat c t.color t.column t.row = some t' ∧
      t'.Shows (done ++ [cur ++ [c]]) ∧ t'.column = cur.length := by
  have hrowlt := h.row_lt
  obtain ⟨hrow, hcolor, hcell⟩ := h
  rw [List.length_append, List.length_singleton] at hrow
  rw [hcolumn]
  refine ⟨_, terminalPutentryat_eq t c _ (index_lt hrowlt hfits), ⟨?_, hcolor, ?_⟩, hcolumn⟩
  · rw [List.length_append, List.length_singleton]
    exact hrow
  · intro r x hr hx
    rw [shown, cell_concat (Nat.zero_lt_succ 24), ← hrow]
    show Function.update t.buffer _ _ _ = _
    by_cases hhere : r = t.row ∧ x = cur.length
    · rw [if_pos hhere, hhere.1, hhere.2, Function.update_self, hcolor]
    · have hne : r * vgaWidth + x ≠ t.row * vgaWidth + cur.length := by
        unfold vgaWidth at hx hfits ⊢
        omega
      rw [if_neg hhere, Function.update_of_ne hne, hcell r x hr hx]

/-- One character that is not a tab. -/
theorem Shows.putchar {t : Terminal} {done : List (List UInt8)} {cur : List UInt8}
    (h : t.Shows (done ++ [cur])) (hcolumn : t.column = cur.length) (hfits : cur.length < vgaWidth)
    {c : UInt8} (htab : c ≠ '\t'.toUInt8) : ∃ t' done' cur',
      t.terminalPutchar c = some t' ∧ t'.Shows (done' ++ [cur']) ∧ t'.column = cur'.length ∧
      cur'.length < vgaWidth ∧ ∀ text,
        done ++ layout vgaWidth (· == '\n'.toUInt8) cur (c :: text)
          = done' ++ layout vgaWidth (· == '\n'.toUInt8) cur' text := by
  have hwidth : 0 < vgaWidth := Nat.zero_lt_succ 79
  unfold terminalPutchar
  by_cases hnewline : c = '\n'.toUInt8
  · obtain ⟨t', ht', hshows, hcolumn'⟩ := h.newRow (List.append_ne_nil_of_right_ne_nil _ (by simp))
    refine ⟨t', done ++ [cur], [], by rw [if_pos hnewline, ht'], hshows, hcolumn', hwidth, ?_⟩
    intro text
    rw [layout, if_pos (beq_iff_eq.mpr hnewline), List.append_assoc, List.singleton_append]
  · obtain ⟨t', ht', hshows, hcolumn'⟩ := h.putentryat hcolumn hfits c
    have hnewline' : ¬ (c == '\n'.toUInt8) = true := fun h => hnewline (beq_iff_eq.mp h)
    rw [if_neg hnewline, if_neg htab, ht', Option.bind_eq_bind, Option.bind_some, hcolumn']
    -- a row that is full is closed at once
    by_cases hwrap : cur.length + 1 = vgaWidth
    · obtain ⟨t'', ht'', hshows', hcolumn''⟩ :=
        hshows.newRow (List.append_ne_nil_of_right_ne_nil _ (by simp))
      refine ⟨t'', done ++ [cur ++ [c]], [], by rw [if_pos hwrap, ht''], hshows', hcolumn'',
        hwidth, ?_⟩
      intro text
      rw [layout, if_neg hnewline', if_pos hwrap, List.append_assoc, List.singleton_append]
    · have hlength : (cur ++ [c]).length = cur.length + 1 := by
        rw [List.length_append, List.length_singleton]
      refine ⟨{ t' with column := cur.length + 1 }, done, cur ++ [c], if_neg hwrap,
        ⟨hshows.row_eq, hshows.color_eq, hshows.cell_eq⟩, hlength.symm, by rw [hlength]; omega, ?_⟩
      intro text
      rw [layout, if_neg hnewline', if_neg hwrap]

/-- A text without tabs, from a screen that shows some rows. -/
theorem Shows.write {text : List UInt8} (htab : '\t'.toUInt8 ∉ text) : ∀ {t : Terminal}
    (done : List (List UInt8)) (cur : List UInt8), t.Shows (done ++ [cur]) →
    t.column = cur.length → cur.length < vgaWidth →
    ∃ t' done' cur', text.foldlM terminalPutchar t = some t' ∧ t'.Shows (done' ++ [cur']) ∧
      t'.column = cur'.length ∧ cur'.length < vgaWidth ∧
      done ++ layout vgaWidth (· == '\n'.toUInt8) cur text = done' ++ [cur'] := by
  induction text with
  | nil =>
    intro t done cur h hcolumn hfits
    exact ⟨t, done, cur, rfl, h, hcolumn, hfits, rfl⟩
  | cons c text ih =>
    intro t done cur h hcolumn hfits
    obtain ⟨hc, htext⟩ := List.ne_and_not_mem_of_not_mem_cons htab
    obtain ⟨t₁, done₁, cur₁, ht₁, hshows₁, hcolumn₁, hfits₁, hlayout₁⟩ :=
      h.putchar hcolumn hfits hc.symm
    obtain ⟨t₂, done₂, cur₂, ht₂, hshows₂, hcolumn₂, hfits₂, hlayout₂⟩ :=
      ih htext done₁ cur₁ hshows₁ hcolumn₁ hfits₁
    refine ⟨t₂, done₂, cur₂, ?_, hshows₂, hcolumn₂, hfits₂, (hlayout₁ text).trans hlayout₂⟩
    rw [List.foldlM_cons, ht₁]
    exact ht₂

end Terminal

/-! ## Rendering -/

open Terminal

/-- **The screen shows the last rows of the text**: after `terminal_initialize` and `terminal_write`
    of a text without tabs each cell is that of the window over its rows, and the cursor is behind
    the last character. -/
theorem terminalWrite_renders (t : Terminal) (text : List UInt8) (htab : '\t'.toUInt8 ∉ text) :
    ∃ t', (t.terminalInitialize.bind fun t => t.terminalWrite text text.length) = some t' ∧
      (∀ r x, r < vgaHeight → x < vgaWidth →
        t'.buffer (r * vgaWidth + x) = vgaEntry (shown (textRows text) r x) 0x07) ∧
      t'.row = min (textRows text).length vgaHeight - 1 ∧
      (textRows text).getLast?.map List.length = some t'.column := by
  obtain ⟨start, hstart, hshows, hcolumn⟩ := shows_terminalInitialize t
  obtain ⟨t', done, cur, ht', hshows', hcolumn', -, hlayout⟩ :=
    Shows.write htab [] [] hshows hcolumn (Nat.zero_lt_succ 79)
  have hrows : textRows text = done ++ [cur] := hlayout
  have hwrite := terminalWrite_eq start text []
  rw [List.append_nil] at hwrite
  rw [hrows]
  refine ⟨t', ?_, hshows'.cell_eq, hshows'.row_eq, ?_⟩
  · rw [hstart, Option.bind_some, hwrite, ht']
  · rw [List.getLast?_concat, Option.map_some, hcolumn']

/-- 80 characters, a newline and one more: the last one is in the third row. -/
theorem terminalWrite_renders_wrap :
    ∃ t', (zeroTerminal.terminalInitialize.bind fun t => t.terminalWrite
        (List.replicate 80 'x'.toUInt8 ++ ['\n'.toUInt8, 'y'.toUInt8]) 82) = some t' ∧
      t'.buffer 79 = vgaEntry 'x'.toUInt8 0x07 ∧ t'.buffer 80 = vgaEntry ' '.toUInt8 0x07 ∧
      t'.buffer 160 = vgaEntry 'y'.toUInt8 0x07 ∧ t'.row = 2 ∧ t'.column = 1 := by
  obtain ⟨t', hwrite, hcell, hrow, hcolumn⟩ := terminalWrite_renders zeroTerminal
    (List.replicate 80 'x'.toUInt8 ++ ['\n'.toUInt8, 'y'.toUInt8]) (by decide)
  refine ⟨t', hwrite, (hcell 0 79 (by decide) (by decide)).trans ?_,
    (hcell 1 0 (by decide) (by decide)).trans ?_, (hcell 2 0 (by decide) (by decide)).trans ?_,
    hrow.trans ?_, Option.some.inj (hcolumn.symm.trans ?_)⟩
  all_goals decide +kernel

end MyOs.Drivers
