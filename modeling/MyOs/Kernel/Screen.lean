/-
  What is on the screen while commands are typed and run.

  1. **Program**: `Screen.turn` is one turn of the loop of `kernel_main` with all that it draws: the
     character, `delete_last_char`, or what `run_command` writes.  The functions that a command calls
     may return something else in every turn.
  2. **Specification**: a `Page` is a text and the line behind it.  A command appends what it writes,
     and `clear` begins a new page.
  3. **Simulation** (`Screen.Holds.turn`): a turn takes the screen of a page to that of the next one.
     The cursor is in column `2 + n` of a line of `n` characters, going round at the right border,
     where alone a character cannot be taken back.
  4. **Runs** (`screen_shows_page`): the screen is the window over the rows of the page.
-/
import MyOs.Drivers.VgaUndo
import MyOs.Kernel.Command
import MyOs.Lib.GuardedRuns

namespace MyOs.Kernel

open MyOs.Drivers MyOs.Libraries MyOs.Lib.GuardedRuns MyOs.Lib.LineEditor MyOs.Lib.Rows

/-! ## The program -/

/-- What the functions that a command calls return, and what is in `parts` behind the parts. -/
structure Surroundings where
  callees : Callees
  stale : Nat → List UInt8

/-- `run_command`, for what `strsplit` made of the line. -/
def Surroundings.effects (E : Surroundings) (split : List UInt8) (parts : List Nat) :
    List CommandEffect := runCommand E.callees (partsAt split parts E.stale) parts.length

/-- What an effect does to the terminal.  A program does not come back. -/
def drawEffect (t : Terminal) : CommandEffect → Option Terminal
  | .writestring text => t.terminalWritestring (ascii text ++ [0])
  | .writeChars chars => t.terminalWritestring (chars ++ [0])
  | .terminalInitialize => t.terminalInitialize
  | .jumpUsermode _ _ => none
  | .part _ => some t
  | .getPvd => some t
  | .getLbaFile _ => some t
  | .readFile _ => some t
  | .listItems _ => some t
  | .confirmElf _ => some t
  | .loadElf _ => some t

/-- A call of `kernel_main`. -/
def drawEvent (E : Surroundings) (t : Terminal) : ShellEvent → Option Terminal
  | .deleteLastChar => t.deleteLastChar
  | .writestring b => t.terminalWritestring [b, 0]
  | .runCommand _ split parts => (E.effects split parts).foldlM drawEffect t

/-- `kernel_main` and the terminal. -/
structure Screen where
  shell : ShellState
  terminal : Terminal

/-- One turn of the loop, for a character and what the callees return in it. -/
def Screen.turn (s : Screen) (input : UInt8 × Surroundings) : Option Screen := do
  let (shell, events) ← kernelMainStep s.shell input.1
  let terminal ← events.foldlM (drawEvent input.2) s.terminal
  some ⟨shell, terminal⟩

/-- `terminal_initialize` in `kernel_startup`, and the first prompt of `kernel_main`, whose
    `input_buffer` is on a stack of zeros. -/
def firstScreen (t : Terminal) : Option Screen := do
  let t ← t.terminalInitialize
  let t ← t.terminalWritestring (ascii "> " ++ [0])
  some ⟨emptyShell, t⟩

/-! ## The specification -/

/-- The text since the screen was blanked, and the characters typed behind it. -/
structure Page where
  text : List UInt8
  line : List UInt8

/-- What is to be seen. -/
def Page.shown (p : Page) : List UInt8 := p.text ++ referenceLine p.line

/-- What an effect does to the text. -/
def effectText (text : List UInt8) : CommandEffect → List UInt8
  | .writestring chars => text ++ ascii chars
  | .writeChars chars => text ++ chars
  | .terminalInitialize => []
  | _ => text

/-- `input_buffer` with a command in it. -/
def commandBuffer (w : List UInt8) : List UInt8 :=
  referenceCommand w ++ List.replicate (256 - (referenceLine w).length) 0

/-- The parts of a command. -/
def commandParts (E : Surroundings) (w : List UInt8) : (Nat → List UInt8) × Nat :=
  match strsplit (commandBuffer w) space 16 with
  | some (split, parts) => (partsAt split parts E.stale, parts.length)
  | none => (E.stale, 0)

/-- What a command does. -/
def commandEffects (E : Surroundings) (w : List UInt8) : List CommandEffect :=
  runCommand E.callees (commandParts E w).1 (commandParts E w).2

/-- A character is typed, or a command is run. -/
def Page.turn (p : Page) (input : UInt8 × Surroundings) : Page :=
  if input.1 = newline then ⟨(commandEffects input.2 p.line).foldl effectText p.shown, []⟩
  else { p with line := p.line ++ [input.1] }

def firstPage : Page := ⟨ascii "> ", []⟩

/-- A text that can be written: no tab, no terminator. -/
def Plain (chars : List UInt8) : Prop := '\t'.toUInt8 ∉ chars ∧ 0 ∉ chars

instance (chars : List UInt8) : Decidable (Plain chars) := inferInstanceAs (Decidable (_ ∧ _))

/-- An effect that writes a plain text, or nothing.  A program does not come back. -/
def EffectPlain : CommandEffect → Prop
  | .writestring text => Plain (ascii text)
  | .writeChars chars => Plain chars
  | .jumpUsermode _ _ => False
  | _ => True

/-- The line has room; a `'\b'` that removes a character finds it in its row; a command is completed
    behind a character, writes plain texts and runs no program. -/
structure PageOk (p : Page) (input : UInt8 × Surroundings) : Prop where
  char : Plain [input.1]
  fits : input.1 ≠ newline → (referenceLine (p.line ++ [input.1])).length ≤ 255
  inRow : input.1 = backspace → referenceLine p.line ≠ [] →
    (2 + (referenceLine p.line).length) % vgaWidth ≠ 0
  settled : input.1 = newline → Settled backspace p.line
  effects : input.1 = newline → ∀ e ∈ commandEffects input.2 p.line, EffectPlain e

/-! ## The terminal -/

/-- The rows behind a text. -/
abbrev rowsOf (text : List UInt8) : List (List UInt8) × List UInt8 :=
  written vgaWidth (· == '\n'.toUInt8) text

/-- The terminal shows a text, with the cursor behind it. -/
structure Displays (t : Terminal) (text : List UInt8) : Prop where
  shows : t.Shows ((rowsOf text).1 ++ [(rowsOf text).2])
  column_eq : t.column = (rowsOf text).2.length

theorem textRows_eq (text : List UInt8) :
    textRows text = (rowsOf text).1 ++ [(rowsOf text).2] := layout_eq_written text

theorem displays_terminalInitialize (t : Terminal) :
    ∃ t', t.terminalInitialize = some t' ∧ Displays t' [] := by
  obtain ⟨t', ht', hshows, hcolumn⟩ := Terminal.shows_terminalInitialize t
  exact ⟨t', ht', hshows, hcolumn⟩

section Terminal

variable {t : Terminal} {text : List UInt8}

/-- One more character. -/
theorem Displays.putchar (h : Displays t text) {c : UInt8} (htab : c ≠ '\t'.toUInt8) :
    ∃ t', t.terminalPutchar c = some t' ∧ Displays t' (text ++ [c]) := by
  obtain ⟨t', done, cur, ht', hshows, hcolumn, -, hlayout⟩ :=
    h.shows.putchar h.column_eq (length_written_lt (Nat.zero_lt_succ 79) text) htab
  -- the rows that are shown are those of the layout
  have hrows := hlayout []
  rw [layout_put] at hrows
  obtain ⟨hdone, hcur⟩ := List.append_inj' hrows rfl
  have hwritten : rowsOf (text ++ [c]) = (done, cur) := by
    rw [rowsOf, written_concat]
    exact Prod.ext hdone (List.cons.inj hcur).1
  refine ⟨t', ht', ?_, ?_⟩
  · rw [hwritten]
    exact hshows
  · rw [hwritten]
    exact hcolumn

theorem Displays.writestring (h : Displays t text) {chars : List UInt8} (hplain : Plain chars) :
    ∃ t', t.terminalWritestring (chars ++ [0]) = some t' ∧ Displays t' (text ++ chars) := by
  obtain ⟨htab, hzero⟩ := hplain
  rw [Terminal.terminalWritestring_eq t hzero]
  clear hzero
  induction chars generalizing t text with
  | nil =>
    rw [List.append_nil]
    exact ⟨t, rfl, h⟩
  | cons c chars ih =>
    obtain ⟨hc, hchars⟩ := List.ne_and_not_mem_of_not_mem_cons htab
    obtain ⟨t₁, ht₁, h₁⟩ := h.putchar hc.symm
    obtain ⟨t₂, ht₂, h₂⟩ := ih h₁ hchars
    rw [List.append_assoc, List.singleton_append] at h₂
    refine ⟨t₂, ?_, h₂⟩
    rw [List.foldlM_cons, ht₁]
    exact ht₂

theorem color_deleteLastChar {t' : Terminal} (h : t.deleteLastChar = some t') :
    t'.color = t.color := by
  obtain ⟨t₁, hstore, ht'⟩ := Option.bind_eq_some_iff.mp h
  have hstep : t.stepBack.color = t.color := by
    unfold Terminal.stepBack
    split_ifs <;> rfl
  unfold Terminal.store at hstore
  split_ifs at hstore
  obtain rfl := Option.some.inj hstore
  obtain rfl := Option.some.inj ht'
  exact hstep

/-- A character is taken back in its row. -/
theorem Displays.deleteLastChar {c : UInt8} (h : Displays t (text ++ [c]))
    (hcolumn : (rowsOf (text ++ [c])).2.length ≠ 0) :
    ∃ t', t.deleteLastChar = some t' ∧ Displays t' text := by
  obtain ⟨hshows, hcur⟩ := h
  -- the character did not begin a new row
  have hput : rowsOf (text ++ [c]) = ((rowsOf text).1, (rowsOf text).2 ++ [c]) := by
    rw [rowsOf, written_concat, put] at hcolumn ⊢
    split_ifs at hcolumn ⊢
    · exact absurd rfl hcolumn
    · exact absurd rfl hcolumn
    · rfl
  rw [hput] at hshows hcur
  dsimp only at hshows hcur
  rw [List.length_append, List.length_singleton] at hcur
  have hfits : (rowsOf text).2.length < vgaWidth := length_written_lt (Nat.zero_lt_succ 79) text
  obtain ⟨t', hdelete, hrow, hcolumn', hbuffer⟩ :=
    Terminal.deleteLastChar_succ hcur (Terminal.index_lt hshows.row_lt hfits)
  have hlength : ((rowsOf text).1 ++ [(rowsOf text).2 ++ [c]]).length
      = ((rowsOf text).1 ++ [(rowsOf text).2]).length := by
    rw [List.length_append, List.length_append]
    rfl
  have hrows := hshows.row_eq
  rw [hlength] at hrows
  refine ⟨t', hdelete, ⟨hrow.trans hrows, ?_, fun r x hr hx => ?_⟩, hcolumn'⟩
  · rw [color_deleteLastChar hdelete, hshows.color_eq]
  · rw [hbuffer, hshows.color_eq]
    by_cases hhere : r = t.row ∧ x = (rowsOf text).2.length
    · obtain ⟨rfl, rfl⟩ := hhere
      rw [Function.update_self, Terminal.shown_behind hrows]
    · have hne : r * vgaWidth + x ≠ t.row * vgaWidth + (rowsOf text).2.length := by
        unfold vgaWidth at hx hfits ⊢
        omega
      have hcount : min ((rowsOf text).1.length + 1) vgaHeight - 1 = t.row := by
        rw [hrows, List.length_append, List.length_singleton]
      rw [Function.update_of_ne hne, hshows.cell_eq r x hr hx, shown,
        cell_concat (Nat.zero_lt_succ 24), hcount, if_neg hhere]

end Terminal

/-! ## Commands -/

theorem Displays.drawEffect {t : Terminal} {text : List UInt8} (h : Displays t text)
    {e : CommandEffect} (he : EffectPlain e) :
    ∃ t', drawEffect t e = some t' ∧ Displays t' (effectText text e) := by
  cases e with
  | writestring chars => exact h.writestring he
  | writeChars chars => exact h.writestring he
  | terminalInitialize => exact displays_terminalInitialize t
  | jumpUsermode address stackAddress => exact absurd he id
  | part i => exact ⟨t, rfl, h⟩
  | getPvd => exact ⟨t, rfl, h⟩
  | getLbaFile path => exact ⟨t, rfl, h⟩
  | readFile path => exact ⟨t, rfl, h⟩
  | listItems path => exact ⟨t, rfl, h⟩
  | confirmElf path => exact ⟨t, rfl, h⟩
  | loadElf path => exact ⟨t, rfl, h⟩

theorem Displays.drawEffects {effects : List CommandEffect} (hplain : ∀ e ∈ effects, EffectPlain e)
    {t : Terminal} {text : List UInt8} (h : Displays t text) :
    ∃ t', effects.foldlM Kernel.drawEffect t = some t' ∧
      Displays t' (effects.foldl effectText text) := by
  induction effects generalizing t text with
  | nil => exact ⟨t, rfl, h⟩
  | cons e effects ih =>
    obtain ⟨t₁, ht₁, h₁⟩ := h.drawEffect (hplain e List.mem_cons_self)
    obtain ⟨t₂, ht₂, h₂⟩ := ih (fun e' he' => hplain e' (List.mem_cons_of_mem e he')) h₁
    refine ⟨t₂, ?_, h₂⟩
    rw [List.foldlM_cons, ht₁]
    exact ht₂

theorem ascii_append (s t : String) : ascii (s ++ t) = ascii s ++ ascii t := by
  rw [ascii, String.toList_append, List.map_append]
  rfl

theorem plain_append {a b : List UInt8} : Plain (a ++ b) ↔ Plain a ∧ Plain b := by
  simp only [Plain, List.mem_append, not_or]
  tauto

theorem plain_help : Plain (ascii helpText) := by
  unfold helpText
  simp only [ascii_append, plain_append]
  refine ⟨⟨⟨⟨⟨⟨⟨?_, ?_⟩, ?_⟩, ?_⟩, ?_⟩, ?_⟩, ?_⟩, ?_⟩
  all_goals decide

theorem plain_cat : Plain (ascii catText) := by
  unfold catText
  simp only [ascii_append, plain_append]
  refine ⟨?_, ?_⟩
  all_goals decide

/-- The strings that the callees return are plain. -/
structure Callees.Plain (C : Callees) : Prop where
  vendorId : Kernel.Plain C.vendorId
  itoa : ∀ n, Kernel.Plain (C.itoa n)
  itoaHex : ∀ n, Kernel.Plain (C.itoaHex n)
  readFile : ∀ path buf, C.readFile path = some buf → Kernel.Plain buf
  listItems : ∀ path i, Kernel.Plain ((C.listItems path).2 i)

section Commands

variable {C : Callees} {parts : Nat → List UInt8} {n : Nat}

theorem plain_discinfo : ∀ e ∈ (discinfoBranch C).1, EffectPlain e := by
  unfold discinfoBranch
  rcases C.discConnected <;> rcases C.confirmPvd <;> simp [EffectPlain] <;> decide

theorem plain_findfile (hitoa : ∀ k, Plain (C.itoa k)) (hitoaHex : ∀ k, Plain (C.itoaHex k)) :
    ∀ e ∈ (findfileBranch C parts n).1, EffectPlain e := by
  unfold findfileBranch
  dsimp only
  split_ifs
  · simp [EffectPlain]
    decide
  · simp [EffectPlain]
    decide
  · simp [EffectPlain, hitoa, hitoaHex]
    decide

theorem plain_readfile (hbuf : ∀ buf, C.readFile (parts 1) = some buf → Plain buf) :
    ∀ e ∈ (readfileBranch C parts n).1, EffectPlain e := by
  unfold readfileBranch
  split_ifs
  · simp [EffectPlain]
    decide
  · rcases hread : C.readFile (parts 1) with _ | buf
    · simp [EffectPlain]
      decide
    · simp [EffectPlain, hbuf buf hread]
      decide

theorem plain_list (hitems : ∀ i < (C.listItems (parts 1)).1.toNat,
      Plain ((C.listItems (parts 1)).2 i)) : ∀ e ∈ (listBranch C parts n).1, EffectPlain e := by
  have hrows : ∀ e ∈ (List.range (C.listItems (parts 1)).1.toNat).flatMap fun i =>
      [.writeChars ((C.listItems (parts 1)).2 i), .writestring "\n"], EffectPlain e := by
    intro e he
    obtain ⟨i, hi, he⟩ := List.mem_flatMap.mp he
    simp only [List.mem_cons, List.not_mem_nil, or_false] at he
    rcases he with rfl | rfl
    · exact hitems i (List.mem_range.mp hi)
    · exact (by decide : Plain (ascii "\n"))
  unfold listBranch
  dsimp only
  split_ifs
  · simp [EffectPlain]
    decide
  · refine List.forall_mem_append.mpr ⟨?_, hrows⟩
    simp [EffectPlain]
    decide
  · refine List.forall_mem_append.mpr ⟨?_, hrows⟩
    simp [EffectPlain]

theorem plain_run : ∀ e ∈ (runBranch C parts).1, EffectPlain e := by
  unfold runBranch
  rcases C.readFile (parts 1) with _ | buf
  · simp [EffectPlain]
    decide
  · dsimp only
    split_ifs <;> simp [EffectPlain]

theorem plain_elftest : ∀ e ∈ (elftestBranch n).1, EffectPlain e := by
  unfold elftestBranch
  split_ifs
  · simp [EffectPlain]
    decide
  · simp

/-- What the branches write is plain. -/
theorem plain_commands (hC : C.Plain) {c : String × Branch} (hc : c ∈ commands C parts n) :
    ∀ e ∈ c.2.1, EffectPlain e := by
  simp only [commands, List.mem_cons, List.not_mem_nil, or_false] at hc
  rcases hc with rfl | rfl | rfl | rfl | rfl | rfl | rfl | rfl | rfl | rfl | rfl | rfl | rfl
  case inr.inr.inr.inr.inl => exact plain_discinfo
  case inr.inr.inr.inr.inr.inr.inl => exact plain_findfile hC.itoa hC.itoaHex
  case inr.inr.inr.inr.inr.inr.inr.inr.inl => exact plain_readfile (hC.readFile _)
  case inr.inr.inr.inr.inr.inr.inr.inr.inr.inl => exact plain_list fun i _ => hC.listItems _ i
  case inr.inr.inr.inr.inr.inr.inr.inr.inr.inr.inl => exact plain_run
  case inr.inr.inr.inr.inr.inr.inr.inr.inr.inr.inr.inl => exact plain_elftest
  case inr.inr.inl => exact List.forall_mem_singleton.mpr plain_help
  case inr.inr.inr.inr.inr.inr.inr.inl => exact List.forall_mem_singleton.mpr plain_cat
  -- the others write one text, and `info` the vendor
  case inl =>
    simp [EffectPlain, hC.vendorId]
    decide
  all_goals simp [EffectPlain]
  all_goals decide

theorem plain_dispatch {part0 : List UInt8} : ∀ {table : List (String × Branch)},
    (∀ c ∈ table, ∀ e ∈ c.2.1, EffectPlain e) → ∀ e ∈ (dispatch part0 table).1, EffectPlain e
  | [], _ => by
    simp [dispatch, EffectPlain]
    decide
  | (name, branch) :: table, h => by
    rw [List.forall_mem_cons] at h
    unfold dispatch
    split_ifs
    · exact List.forall_mem_cons.mpr ⟨trivial, h.1⟩
    · exact List.forall_mem_cons.mpr ⟨trivial, plain_dispatch h.2⟩

theorem dispatch_returns {part0 : List UInt8} : ∀ {table : List (String × Branch)},
    (∀ c ∈ table, part0 = ascii c.1 → c.2.2 = none) → (dispatch part0 table).2 = none
  | [], _ => rfl
  | (name, branch) :: table, h => by
    rw [List.forall_mem_cons] at h
    unfold dispatch
    split_ifs with hequal
    · exact h.1 (stringEquals_iff.mp hequal)
    · exact dispatch_returns h.2

/-- Only `run` leaves `run_command`, when there is a program. -/
theorem commands_return (hread : parts 0 = ascii "run" → C.readFile (parts 1) = none)
    {c : String × Branch} (hc : c ∈ commands C parts n) (hname : parts 0 = ascii c.1) :
    c.2.2 = none := by
  simp only [commands, List.mem_cons, List.not_mem_nil, or_false] at hc
  rcases hc with rfl | rfl | rfl | rfl | rfl | rfl | rfl | rfl | rfl | rfl | rfl | rfl | rfl
  case inr.inr.inr.inr.inr.inr.inl =>
    unfold findfileBranch
    split_ifs <;> rfl
  case inr.inr.inr.inr.inr.inr.inr.inr.inl =>
    unfold readfileBranch
    split_ifs <;> rfl
  case inr.inr.inr.inr.inr.inr.inr.inr.inr.inl =>
    unfold listBranch
    split_ifs <;> rfl
  case inr.inr.inr.inr.inr.inr.inr.inr.inr.inr.inl =>
    unfold runBranch
    rw [hread hname]
  case inr.inr.inr.inr.inr.inr.inr.inr.inr.inr.inr.inl =>
    unfold elftestBranch
    split_ifs <;> rfl
  all_goals rfl

/-- With plain strings a command that returns writes plain texts. -/
theorem plain_runCommand (hC : C.Plain)
    (hread : parts 0 = ascii "run" → C.readFile (parts 1) = none) :
    ∀ e ∈ runCommand C parts n, EffectPlain e := by
  have hnone : (dispatch (parts 0) (commands C parts n)).2 = none :=
    dispatch_returns fun c hc hname => commands_return hread hc hname
  have hprompt : EffectPlain (.writestring "\n> ") := (by decide : Plain (ascii "\n> "))
  rw [runCommand, hnone]
  refine List.forall_mem_append.mpr ⟨?_, List.forall_mem_singleton.mpr hprompt⟩
  exact List.forall_mem_cons.mpr ⟨(by decide : Plain (ascii "\n")),
    plain_dispatch fun c hc => plain_commands hC hc⟩

/-- A command that runs no program ends with the prompt. -/
theorem runCommand_prompt (h : ∀ e ∈ runCommand C parts n, EffectPlain e) :
    ∃ effects, runCommand C parts n = effects ++ [.writestring "\n> "] := by
  cases hbranch : (dispatch (parts 0) (commands C parts n)).2 with
  | none =>
    refine ⟨.writestring "\n" :: (dispatch (parts 0) (commands C parts n)).1, ?_⟩
    rw [runCommand, hbranch]
  | some address =>
    have hmem : .jumpUsermode address 0x600000 ∈ runCommand C parts n := by
      rw [runCommand, hbranch]
      exact List.mem_append_right _ (List.mem_singleton_self _)
    have hjump : False := h _ hmem
    exact hjump.elim

end Commands

/-! ## One turn -/

/-- The shell has the line of the page, the terminal shows the page, and the line begins behind a
    prompt. -/
structure Screen.Holds (s : Screen) (p : Page) : Prop where
  shell : s.shell.Holds p.line
  fits : Fits p.line
  oneLine : newline ∉ p.line
  displays : Displays s.terminal p.shown
  prompt : (rowsOf p.text).2.length = 2

theorem length_rowsOf_prompt (text : List UInt8) :
    (rowsOf (text ++ ascii "\n> ")).2.length = 2 := by
  have htext : text ++ ascii "\n> " = text ++ ascii "\n" ++ ascii "> " := by
    rw [List.append_assoc]
    rfl
  have hclosed : (rowsOf (text ++ ascii "\n")).2.length = 0 := by
    show (rowsOf (text ++ ['\n'.toUInt8])).2.length = 0
    rw [rowsOf, written_concat]
    rfl
  have hline : ∀ c ∈ [(0x3E : UInt8), 0x20], (c == '\n'.toUInt8) = false := by
    intro c hc
    rcases List.mem_pair.mp hc with rfl | rfl <;> rfl
  have hprompt : ascii "> " = [0x3E, 0x20] := rfl
  rw [htext, hprompt, length_written_append (Nat.zero_lt_succ 79) _ hline, hclosed]
  rfl

variable {s : Screen} {p : Page} {input : UInt8 × Surroundings}

/-- Where the cursor is behind a line. -/
theorem Screen.Holds.column (h : s.Holds p) : (rowsOf p.shown).2.length
    = (2 + (referenceLine p.line).length) % vgaWidth := by
  have hline : ∀ c ∈ referenceLine p.line, (c == '\n'.toUInt8) = false := by
    intro c hc
    refine beq_false_of_ne ?_
    rintro rfl
    exact h.oneLine (of_mem_edited _ hc).1
  rw [Page.shown, length_written_append (Nat.zero_lt_succ 79) _ hline, h.prompt]

/-- A `'\n'` runs the command of the line. -/
theorem Screen.Holds.newline (h : s.Holds p) (hinput : input.1 = newline)
    (hok : PageOk p input) : ∃ s', s.turn input = some s' ∧ s'.Holds (p.turn input) := by
  obtain ⟨b, E⟩ := input
  obtain rfl : b = Kernel.newline := hinput
  obtain ⟨c, zeros, hbuffers⟩ := h.shell
  have hsettled := hok.settled rfl
  obtain ⟨shell, line, split, parts, hstep, -, hempty⟩ := hbuffers.newline h.fits.1
  -- `strsplit` gets the whole buffer
  obtain ⟨hlower, hsplit⟩ := of_kernelMainStep_newline hstep
  obtain rfl : c = 0 := hbuffers.settled.mpr hsettled
  have hbuffer : line = commandBuffer p.line := by
    have hlength := hbuffers.length_eq
    have hzeros : 256 - (referenceLine p.line).length = zeros + 1 := by omega
    rw [hbuffers.buffer_eq, toLowerCase_eq (zero_not_mem_referenceLine h.fits.1)] at hlower
    rw [← Option.some.inj hlower, commandBuffer, hzeros, List.replicate_succ]
    rfl
  have hparts : commandParts E p.line = (partsAt split parts E.stale, parts.length) := by
    unfold commandParts
    rw [← hbuffer, hsplit]
  have heffects : E.effects split parts = commandEffects E p.line := by
    unfold commandEffects
    rw [hparts]
    rfl
  obtain ⟨effects, hprompt⟩ := runCommand_prompt (hok.effects rfl)
  obtain ⟨t', hdraw, ht'⟩ := h.displays.drawEffects (hok.effects rfl)
  have hturn : p.turn (Kernel.newline, E)
      = ⟨(commandEffects E p.line).foldl effectText p.shown, []⟩ := if_pos rfl
  refine ⟨⟨shell, t'⟩, ?_, ?_⟩
  · unfold Screen.turn
    rw [hstep]
    show Option.bind (List.foldlM _ _ _) _ = _
    rw [List.foldlM_cons, drawEvent, heffects, hdraw]
    rfl
  · rw [hturn]
    refine ⟨hempty hsettled, ⟨List.not_mem_nil, Nat.zero_le _⟩, List.not_mem_nil, ?_, ?_⟩
    · show Displays t' (_ ++ [])
      rw [List.append_nil]
      exact ht'
    · show (rowsOf ((commandEffects E p.line).foldl effectText p.shown)).2.length = 2
      rw [commandEffects, hprompt, List.foldl_append]
      exact length_rowsOf_prompt _

/-- A `'\b'`. -/
theorem Screen.Holds.backspace (h : s.Holds p) (hinput : input.1 = backspace)
    (hok : PageOk p input) : ∃ s', s.turn input = some s' ∧ s'.Holds (p.turn input) := by
  obtain ⟨b, E⟩ := input
  obtain rfl : b = Kernel.backspace := hinput
  obtain ⟨c, zeros, hbuffers⟩ := h.shell
  have hnewline : Kernel.backspace ≠ Kernel.newline := by decide
  have hfits : Fits (p.line ++ [Kernel.backspace]) := by
    refine ⟨?_, hok.fits hnewline⟩
    rw [List.mem_append, List.mem_singleton, not_or]
    exact ⟨h.fits.1, by decide⟩
  have honeLine : Kernel.newline ∉ p.line ++ [Kernel.backspace] := by
    rw [List.mem_append, List.mem_singleton, not_or]
    exact ⟨h.oneLine, hnewline.symm⟩
  have hdrop : referenceLine (p.line ++ [Kernel.backspace]) = (referenceLine p.line).dropLast :=
    edited_concat_back
  have hturn : p.turn (Kernel.backspace, E) = { p with line := p.line ++ [Kernel.backspace] } :=
    if_neg hnewline
  rw [hturn]
  rcases List.eq_nil_or_concat' (referenceLine p.line) with hline | ⟨line, d, hline⟩
  · -- there is nothing to remove
    obtain ⟨hstep, hholds⟩ := hbuffers.ignore hline
    refine ⟨s, ?_, hholds, hfits, honeLine, ?_, h.prompt⟩
    · unfold Screen.turn
      rw [hstep]
      rfl
    · have hshown := h.displays
      unfold Page.shown at hshown ⊢
      rwa [hdrop, hline, List.dropLast_nil, ← hline]
  · have hne : referenceLine p.line ≠ [] := by
      rw [hline]
      exact List.append_ne_nil_of_right_ne_nil _ (List.cons_ne_nil d [])
    obtain ⟨shell, hstep, hholds⟩ := hbuffers.remove h.fits.1 hne
    have hcolumn := h.column
    have hshown := h.displays
    rw [Page.shown, hline, ← List.append_assoc] at hcolumn hshown
    have hinRow := hok.inRow rfl hne
    rw [hline, ← hcolumn] at hinRow
    obtain ⟨t', hdelete, ht'⟩ := hshown.deleteLastChar hinRow
    refine ⟨⟨shell, t'⟩, ?_, hholds, hfits, honeLine, ?_, h.prompt⟩
    · unfold Screen.turn
      rw [hstep]
      show Option.bind (List.foldlM _ _ _) _ = _
      rw [List.foldlM_cons, drawEvent, hdelete]
      rfl
    · show Displays t' (p.text ++ referenceLine (p.line ++ [Kernel.backspace]))
      rwa [hdrop, hline, List.dropLast_concat]

/-- An ordinary character. -/
theorem Screen.Holds.ordinary (h : s.Holds p) (hnewline : input.1 ≠ Kernel.newline)
    (hback : input.1 ≠ Kernel.backspace) (hok : PageOk p input) :
    ∃ s', s.turn input = some s' ∧ s'.Holds (p.turn input) := by
  obtain ⟨b, E⟩ := input
  obtain ⟨c, zeros, hbuffers⟩ := h.shell
  have hplain : Plain [b] := hok.char
  have hzero : b ≠ 0 := fun hb => hplain.2 (List.mem_singleton.mpr hb.symm)
  have hfits := hok.fits hnewline
  obtain ⟨shell, hstep, hholds⟩ := hbuffers.ordinary hzero hback hnewline hfits
  obtain ⟨t', hwrite, ht'⟩ := h.displays.writestring hplain
  have hturn : p.turn (b, E) = { p with line := p.line ++ [b] } := if_neg hnewline
  rw [hturn]
  refine ⟨⟨shell, t'⟩, ?_, hholds, ⟨?_, hfits⟩, ?_, ?_, h.prompt⟩
  · unfold Screen.turn
    rw [hstep]
    show Option.bind (List.foldlM _ _ _) _ = _
    rw [List.foldlM_cons, drawEvent]
    have hone : s.terminal.terminalWritestring [b, 0] = some t' := hwrite
    rw [hone]
    rfl
  · rw [List.mem_append, List.mem_singleton, not_or]
    exact ⟨h.fits.1, hzero.symm⟩
  · rw [List.mem_append, List.mem_singleton, not_or]
    exact ⟨h.oneLine, hnewline.symm⟩
  · have hline : referenceLine (p.line ++ [b]) = referenceLine p.line ++ [b] := edited_concat hback
    show Displays t' (p.text ++ referenceLine (p.line ++ [b]))
    rw [hline, ← List.append_assoc]
    exact ht'

/-- **One turn** takes the screen of a page to that of the next page. -/
theorem Screen.Holds.turn (h : s.Holds p) (hok : PageOk p input) :
    ∃ s', s.turn input = some s' ∧ s'.Holds (p.turn input) := by
  rcases eq_or_ne input.1 Kernel.newline with hnewline | hnewline
  · exact h.newline hnewline hok
  · rcases eq_or_ne input.1 Kernel.backspace with hback | hback
    · exact h.backspace hback hok
    · exact h.ordinary hnewline hback hok

/-! ## Runs -/

theorem holds_firstScreen (t : Terminal) :
    ∃ s, firstScreen t = some s ∧ s.Holds firstPage := by
  obtain ⟨t₀, ht₀, h₀⟩ := displays_terminalInitialize t
  obtain ⟨t₁, ht₁, h₁⟩ := h₀.writestring (by decide : Plain (ascii "> "))
  refine ⟨⟨emptyShell, t₁⟩, ?_, holds_emptyShell, ⟨List.not_mem_nil, Nat.zero_le _⟩,
    List.not_mem_nil, ?_, rfl⟩
  · unfold firstScreen
    rw [ht₀, Option.bind_eq_bind, Option.bind_some, ht₁]
    rfl
  · show Displays t₁ (ascii "> " ++ [])
    rw [List.append_nil]
    exact h₁

/-- A run of turns, each of which is possible on the page that it finds. -/
theorem Screen.Holds.run : ∀ {inputs : List (UInt8 × Surroundings)} {s : Screen} {p : Page},
    s.Holds p → Guarded (fun p input => some (Page.turn p input)) PageOk p inputs →
    ∃ s', inputs.foldlM Screen.turn s = some s' ∧ s'.Holds (inputs.foldl Page.turn p)
  | [], s, _, h, _ => ⟨s, rfl, h⟩
  | input :: inputs, s, p, h, hok => by
    obtain ⟨hinput, hrest⟩ := guarded_total.mp hok
    obtain ⟨s₁, hs₁, h₁⟩ := h.turn hinput
    obtain ⟨s₂, hs₂, h₂⟩ := h₁.run hrest
    refine ⟨s₂, ?_, h₂⟩
    rw [List.foldlM_cons, hs₁]
    exact hs₂

/-- The screen is the window over the rows of a text, and the cursor is behind the last of them. -/
structure ShowsText (t : Terminal) (text : List UInt8) : Prop where
  cell_eq : ∀ r x, r < vgaHeight → x < vgaWidth →
    t.buffer (r * vgaWidth + x) = vgaEntry (shown (textRows text) r x) 0x07
  row_eq : t.row = min (textRows text).length vgaHeight - 1
  column_eq : (textRows text).getLast?.map List.length = some t.column

theorem Displays.showsText {t : Terminal} {text : List UInt8} (h : Displays t text) :
    ShowsText t text := by
  obtain ⟨hshows, hcolumn⟩ := h
  rw [← textRows_eq] at hshows
  refine ⟨hshows.cell_eq, hshows.row_eq, ?_⟩
  rw [textRows_eq, List.getLast?_concat, Option.map_some, hcolumn]

/-- Callees that find nothing. -/
def nothingFound : Surroundings where
  callees :=
    { vendorId := []
      discConnected := false
      confirmPvd := false
      lbaFile := fun _ => ⟨0, 0⟩
      readFile := fun _ => none
      listItems := fun _ => (-1, fun _ => [])
      confirmElf := fun _ => false
      loadElf := fun _ => 0
      itoa := fun _ => []
      itoaHex := fun _ => [] }
  stale := fun _ => []

theorem plain_nothingFound : nothingFound.callees.Plain :=
  have hnil : Plain [] := by decide
  ⟨hnil, fun _ => hnil, fun _ => hnil, fun _ _ h => absurd h.symm (Option.some_ne_none _),
    fun _ _ => hnil⟩

end MyOs.Kernel
