/-
  The prompt: `kernel_main` collects characters in `input_buffer` and runs a command at `'\n'`.

  1. **Program**: `kernelMainStep` is one turn of the loop, for the character `poll_char` returned;
     `session` is a whole list of characters.  `run_command` reads the line and leaves it alone.
  2. **Reference**: `referenceLine` appends each ordinary character and removes the last one at
     each `'\b'`.
  3. **Invariant** (`Holds`): behind the reference line comes one byte `c`, behind it zeros.  `c` is
     the terminator, unless the last character typed was a `'\b'` that removed something: the store
     of the terminator comes before the decrement, so the removed character stays in the buffer.
  4. **Sessions** (`commandLines_iff`): the lines handed to `strsplit` are the reference lines if
     and only if none of them was completed right behind such a `'\b'`.
-/
import MyOs.Lib.LineEditor
import MyOs.Libraries.Split

namespace MyOs.Kernel

open MyOs.Lib.LineEditor MyOs.Libraries

/-! ## The program -/

/-- `'\b'`. -/
abbrev backspace : UInt8 := 8

/-- `'\n'`. -/
abbrev newline : UInt8 := 10

/-- `' '`. -/
abbrev space : UInt8 := 32

/-- `input_buffer` and `input_size`. -/
structure ShellState where
  inputBuffer : List UInt8
  inputSize : UInt16

/-- What `kernel_main` calls: `delete_last_char`, `terminal_writestring` of one character, and
    `run_command` on what `strsplit` makes of a line. -/
inductive ShellEvent where
  | deleteLastChar
  | writestring (b : UInt8)
  | runCommand (line split : List UInt8) (parts : List Nat)

/-- `for (int i = 0; i < input_size; i++) input_buffer[i] = '\0';` -/
def clear : Nat → List UInt8 → Option (List UInt8)
  | 0, buffer => some buffer
  | i + 1, buffer => do
    let buffer ← clear i buffer
    store buffer i 0

/-- One turn of the loop of `kernel_main`, for the character `b` from `poll_char`. -/
def kernelMainStep (s : ShellState) (b : UInt8) : Option (ShellState × List ShellEvent) :=
  if b = 0 then some (s, [])
  else if b = backspace ∧ s.inputSize ≠ 0 then do
    let inputBuffer ← store s.inputBuffer s.inputSize.toNat 0
    some (⟨inputBuffer, s.inputSize - 1⟩, [.deleteLastChar])
  else if b = backspace then some (s, [])
  else if b = newline then do
    let line ← toLowerCase s.inputBuffer
    let (split, parts) ← strsplit line space 16
    let inputBuffer ← clear s.inputSize.toNat split
    some (⟨inputBuffer, 0⟩, [.runCommand line split parts])
  else do
    let inputBuffer ← store s.inputBuffer s.inputSize.toNat b
    some (⟨inputBuffer, s.inputSize + 1⟩, [.writestring b])

/-- An empty line in a buffer that is all zero.  `kernel_main` does not initialise `input_buffer`: this
    is where a session begins on a stack of zeros, and `InputBuffer` is about all stacks. -/
def emptyShell : ShellState := ⟨List.replicate 256 0, 0⟩

/-- The characters of a whole session, one by one. -/
def session : ShellState → List UInt8 → Option (ShellState × List ShellEvent) := feed kernelMainStep

/-- The string handed to `strsplit`. -/
def ShellEvent.commandLine? : ShellEvent → Option (List UInt8)
  | runCommand line _ _ => some (cString line)
  | _ => none

/-! ## The reference -/

/-- What `w` types: each `'\b'` removes the last character, if there is one. -/
def referenceLine (w : List UInt8) : List UInt8 := edited backspace w

/-- The line in lower case, as a command. -/
def referenceCommand (w : List UInt8) : List UInt8 := (referenceLine w).map lower

/-- A line in the buffer: characters, and not more than 255 of them. -/
def Fits (w : List UInt8) : Prop := 0 ∉ w ∧ (referenceLine w).length ≤ 255

/-! ## The invariant -/

/-- The buffer while `w` is typed: the reference line, the byte behind it, and `zeros` zeros. -/
structure ShellState.Buffers (s : ShellState) (w : List UInt8) (c : UInt8) (zeros : Nat) :
    Prop where
  buffer_eq : s.inputBuffer = referenceLine w ++ c :: List.replicate zeros 0
  size_eq : s.inputSize.toNat = (referenceLine w).length
  length_eq : (referenceLine w).length + 1 + zeros = 256
  terminated : zeros = 0 → c = 0
  settled : c = 0 ↔ Settled backspace w

/-- The state after `w`, the characters since the last `'\n'`. -/
def ShellState.Holds (s : ShellState) (w : List UInt8) : Prop := ∃ c zeros, s.Buffers w c zeros

theorem holds_emptyShell : emptyShell.Holds [] := ⟨0, 255,
  { buffer_eq := rfl
    size_eq := rfl
    length_eq := rfl
    terminated := fun _ => rfl
    settled := ⟨fun _ => settled_nil, fun _ => rfl⟩ }⟩

variable {s : ShellState} {w : List UInt8} {b c : UInt8} {zeros : Nat}

theorem zero_not_mem_referenceLine (h : 0 ∉ w) : 0 ∉ referenceLine w :=
  fun hmem => h (of_mem_edited 0 hmem).1

/-- The clear loop zeroes what comes first, and leaves the rest. -/
theorem clear_eq {buffer : List UInt8} : ∀ {n}, n ≤ buffer.length →
    clear n buffer = some (List.replicate n 0 ++ buffer.drop n)
  | 0, _ => rfl
  | n + 1, h => by
    rw [clear, clear_eq (Nat.le_of_succ_le h), List.drop_eq_getElem_cons h]
    have hstore := store_border (List.replicate n 0) (buffer.drop (n + 1)) buffer[n] 0
    rw [List.length_replicate] at hstore
    simp only [Option.bind_eq_bind, Option.bind_some, hstore, List.replicate_succ',
      List.append_assoc, List.singleton_append]

/-! ## One character -/

/-- An ordinary character overwrites the byte behind the line. -/
theorem ShellState.Buffers.ordinary (h : s.Buffers w c zeros) (hzero : b ≠ 0)
    (hback : b ≠ backspace) (hnewline : b ≠ newline)
    (hfits : (referenceLine (w ++ [b])).length ≤ 255) :
    ∃ s', kernelMainStep s b = some (s', [.writestring b]) ∧ s'.Holds (w ++ [b]) := by
  have hline : referenceLine (w ++ [b]) = referenceLine w ++ [b] := edited_concat hback
  have hlength := h.length_eq
  rw [hline, List.length_append, List.length_singleton] at hfits
  obtain ⟨zeros', rfl⟩ : ∃ n, zeros = n + 1 := ⟨zeros - 1, by omega⟩
  refine ⟨⟨referenceLine w ++ b :: List.replicate (zeros' + 1) 0, s.inputSize + 1⟩, ?_, 0, zeros',
    ⟨?_, ?_, ?_, fun _ => rfl, fun _ => settled_concat hback, fun _ => rfl⟩⟩
  · rw [kernelMainStep, if_neg hzero, if_neg fun hb => hback hb.1, if_neg hback, if_neg hnewline,
      h.buffer_eq, h.size_eq, store_border]
    rfl
  · rw [hline, List.append_assoc, List.replicate_succ]
    rfl
  · show (s.inputSize + 1).toNat = _
    rw [hline, List.length_append, List.length_singleton, UInt16.toNat_add, h.size_eq,
      UInt16.toNat_one]
    omega
  · rw [hline, List.length_append, List.length_singleton]
    omega

/-- A `'\b'` that removes a character leaves it in the buffer. -/
theorem ShellState.Buffers.remove (h : s.Buffers w c zeros) (hw : 0 ∉ w)
    (hline : referenceLine w ≠ []) :
    ∃ s', kernelMainStep s backspace = some (s', [.deleteLastChar]) ∧
      s'.Holds (w ++ [backspace]) := by
  have hunsettled := not_settled_concat_back hline
  have hdrop : referenceLine (w ++ [backspace]) = (referenceLine w).dropLast := edited_concat_back
  -- the buffer holds the line with its last character, which becomes the next mark
  obtain ⟨line, d, hconcat⟩ := (List.eq_nil_or_concat' (referenceLine w)).resolve_left hline
  have hd : d ≠ 0 := by
    rintro rfl
    refine zero_not_mem_referenceLine hw ?_
    rw [hconcat]
    exact List.mem_append_right line List.mem_cons_self
  have hsize := h.size_eq
  have hlength := h.length_eq
  rw [hconcat, List.length_append, List.length_singleton] at hsize hlength
  rw [hconcat, List.dropLast_concat] at hdrop
  have hne : s.inputSize ≠ 0 := by
    intro heq
    rw [heq, UInt16.toNat_zero] at hsize
    omega
  refine ⟨⟨referenceLine w ++ 0 :: List.replicate zeros 0, s.inputSize - 1⟩, ?_, d, zeros + 1,
    ⟨?_, ?_, ?_, fun hz => absurd hz (Nat.succ_ne_zero zeros), fun hz => absurd hz hd,
      fun hs => absurd hs hunsettled⟩⟩
  · rw [kernelMainStep, if_neg (by decide), if_pos ⟨rfl, hne⟩, h.buffer_eq, h.size_eq,
      store_border]
    rfl
  · rw [hdrop, hconcat, List.append_assoc, List.replicate_succ]
    rfl
  · show (s.inputSize - 1).toNat = _
    have hone : (1 : UInt16) ≤ s.inputSize := by
      rw [UInt16.le_iff_toNat_le, UInt16.toNat_one, hsize]
      omega
    rw [hdrop, UInt16.toNat_sub_of_le _ _ hone, hsize, UInt16.toNat_one]
    omega
  · rw [hdrop]
    omega

/-- A `'\b'` on an empty line changes nothing. -/
theorem ShellState.Buffers.ignore (h : s.Buffers w c zeros) (hline : referenceLine w = []) :
    kernelMainStep s backspace = some (s, []) ∧ s.Holds (w ++ [backspace]) := by
  have hdrop : referenceLine (w ++ [backspace]) = referenceLine w := by
    rw [hline]
    refine edited_concat_back.trans ?_
    rw [show edited backspace w = [] from hline]
    rfl
  have hzero : s.inputSize = 0 := by
    refine UInt16.toNat_inj.mp (h.size_eq.trans ?_)
    rw [hline]
    rfl
  refine ⟨?_, c, zeros, ?_⟩
  · rw [kernelMainStep, if_neg (by decide), if_neg fun hb => hb.2 hzero, if_pos rfl]
  · exact
      { buffer_eq := by rw [hdrop]; exact h.buffer_eq
        size_eq := by rw [hdrop]; exact h.size_eq
        length_eq := by rw [hdrop]; exact h.length_eq
        terminated := h.terminated
        settled := h.settled.trans (settled_concat_back_iff hline).symm }

/-- A `'\n'` runs the string in the buffer, and clears what comes first in it. -/
theorem kernelMainStep_newline {text rest : List UInt8} (htext : 0 ∉ text)
    (hbuffer : s.inputBuffer = text ++ 0 :: rest) (hsize : s.inputSize.toNat ≤ text.length) :
    kernelMainStep s newline = some
      (⟨List.replicate s.inputSize.toNat 0
          ++ (splitString space 16 (text.map lower)).1.drop s.inputSize.toNat ++ 0 :: rest, 0⟩,
        [.runCommand (text.map lower ++ 0 :: rest)
          ((splitString space 16 (text.map lower)).1 ++ 0 :: rest)
          (splitString space 16 (text.map lower)).2]) := by
  have hsplit : strsplit (text.map lower ++ 0 :: rest) space 16 = _ :=
    strsplit_eq_splitString (by decide) 16 (zero_not_mem_map_lower htext)
  have hlength := length_splitString space 16 (text.map lower)
  rw [List.length_map] at hlength
  have hclear : s.inputSize.toNat ≤
      ((splitString space 16 (text.map lower)).1 ++ 0 :: rest).length := by
    rw [List.length_append]
    omega
  rw [kernelMainStep, if_neg (by decide), if_neg fun hb => absurd hb.1 (by decide),
    if_neg (by decide), if_pos rfl, hbuffer, toLowerCase_eq htext]
  simp only [Option.bind_eq_bind, Option.bind_some, hsplit, clear_eq hclear]
  rw [List.drop_append_of_le_length (by omega), List.append_assoc]

/-- The string in the buffer is the reference line when the last `'\b'` removed nothing. -/
theorem ShellState.Buffers.newline (h : s.Buffers w c zeros) (hw : 0 ∉ w) :
    ∃ s' line split parts, kernelMainStep s newline = some (s', [.runCommand line split parts]) ∧
      (cString line = referenceCommand w ↔ Settled backspace w) ∧
      (Settled backspace w → s'.Holds []) := by
  have hline := zero_not_mem_referenceLine hw
  rcases eq_or_ne c 0 with rfl | hc
  · have hstep := kernelMainStep_newline hline h.buffer_eq (Nat.le_of_eq h.size_eq)
    have hlength := length_splitString space 16 ((referenceLine w).map lower)
    rw [List.length_map] at hlength
    refine ⟨_, _, _, _, hstep, ⟨fun _ => h.settled.mp rfl, fun _ => ?_⟩, fun _ => ⟨0, 255, ?_⟩⟩
    · exact cString_terminated (zero_not_mem_map_lower hline)
    · refine ⟨?_, rfl, rfl, fun _ => rfl, fun _ => settled_nil, fun _ => rfl⟩
      show List.replicate _ 0 ++ List.drop _ _ ++ 0 :: List.replicate zeros 0
        = List.replicate 256 0
      rw [h.size_eq, List.drop_eq_nil_of_le (Nat.le_of_eq hlength), List.append_nil,
        ← List.replicate_succ, List.replicate_append_replicate, ← h.length_eq]
      congr 1
      omega
  · obtain ⟨zeros', rfl⟩ := Nat.exists_eq_succ_of_ne_zero fun hz => hc (h.terminated hz)
    have htext : 0 ∉ referenceLine w ++ [c] := by
      rw [List.mem_append, List.mem_singleton]
      exact fun hmem => hmem.elim hline hc.symm
    have hbuffer := h.buffer_eq
    rw [Nat.succ_eq_add_one, List.replicate_succ, ← List.singleton_append,
      ← List.append_assoc] at hbuffer
    have hstep := kernelMainStep_newline htext hbuffer (by
      rw [h.size_eq, List.length_append]
      omega)
    have hunsettled : ¬ Settled backspace w := fun hs => hc (h.settled.mpr hs)
    refine ⟨_, _, _, _, hstep, ⟨fun heq => ?_, fun hs => absurd hs hunsettled⟩,
      fun hs => absurd hs hunsettled⟩
    -- one character too many
    rw [cString_terminated (zero_not_mem_map_lower htext)] at heq
    have hlen := congrArg List.length heq
    rw [referenceCommand, List.length_map, List.length_map, List.length_append,
      List.length_singleton] at hlen
    omega

/-! ## Sessions -/

/-- One character of a line keeps the invariant, and runs no command. -/
theorem ShellState.Holds.char (h : s.Holds w) (hb : b ≠ newline) (hfits : Fits (w ++ [b])) :
    ∃ s' events, kernelMainStep s b = some (s', events) ∧
      events.filterMap ShellEvent.commandLine? = [] ∧ s'.Holds (w ++ [b]) := by
  obtain ⟨c, zeros, hbuffers⟩ := h
  obtain ⟨hchars, hlength⟩ := hfits
  rw [List.mem_append, List.mem_singleton, not_or] at hchars
  obtain ⟨hw, hzero⟩ := hchars
  rcases eq_or_ne b backspace with rfl | hback
  · rcases eq_or_ne (referenceLine w) [] with hline | hline
    · obtain ⟨hstep, hholds⟩ := hbuffers.ignore hline
      exact ⟨s, [], hstep, rfl, hholds⟩
    · obtain ⟨s', hstep, hholds⟩ := hbuffers.remove hw hline
      exact ⟨s', _, hstep, rfl, hholds⟩
  · obtain ⟨s', hstep, hholds⟩ := hbuffers.ordinary (Ne.symm hzero) hback hb hlength
    exact ⟨s', _, hstep, rfl, hholds⟩

/-- A `'\n'` hands one line to `strsplit`, the reference line if `w` is settled. -/
theorem ShellState.Holds.newline (h : s.Holds w) (hfits : Fits w) :
    ∃ s' events line, kernelMainStep s newline = some (s', events) ∧
      events.filterMap ShellEvent.commandLine? = [line] ∧
      (line = referenceCommand w ↔ Settled backspace w) ∧ (Settled backspace w → s'.Holds []) := by
  obtain ⟨c, zeros, hbuffers⟩ := h
  obtain ⟨s', line, split, parts, hstep, hcommand, hnext⟩ := hbuffers.newline hfits.1
  exact ⟨s', _, cString line, hstep, rfl, hcommand, hnext⟩

/-- **Sessions**: as long as no line holds more than 255 characters, `strsplit` gets the reference
    lines, in lower case, if and only if no line is completed behind a `'\b'` while it has had an
    ordinary character. -/
theorem commandLines_iff {cs : List UInt8} (hchars : 0 ∉ cs)
    (hlength : ∀ pre, pre <+: cs → (referenceLine (current newline [] pre)).length ≤ 255) :
    (∃ s events, session emptyShell cs = some (s, events) ∧
      events.filterMap ShellEvent.commandLine? = (completed newline [] cs).map referenceCommand) ↔
    ∀ w ∈ completed newline [] cs, Settled backspace w := by
  refine completed_iff ShellState.Holds Fits
    (fun s w b hb h hfits => h.char hb hfits) (fun s w h hfits => h.newline hfits)
    holds_emptyShell fun pre hpre => ⟨fun hmem => ?_, hlength pre hpre⟩
  rcases of_mem_current 0 hmem with hnil | hpre'
  · nomatch hnil
  · exact hchars (hpre.subset hpre')

/-- `Ab`, `'\b'`, `c`, `'\n'`. -/
theorem commandLines_iff_ac :
    ∃ s events, session emptyShell [0x41, 0x62, backspace, 0x63, newline] = some (s, events) ∧
      events.filterMap ShellEvent.commandLine? = [[0x61, 0x63]] := by
  have hlength : ∀ pre ∈ [0x41, 0x62, backspace, 0x63, newline].inits,
      (referenceLine (current newline [] pre)).length ≤ 255 := by decide
  have hlines : (completed newline [] [0x41, 0x62, backspace, 0x63, newline]).map referenceCommand
      = [[0x61, 0x63]] := by decide
  rw [← hlines]
  refine (commandLines_iff (by decide) fun pre hpre =>
    hlength pre ((List.mem_inits _ _).mpr hpre)).mpr fun w hw => ?_
  obtain rfl := List.mem_singleton.mp (show w ∈ [[0x41, 0x62, backspace, 0x63]] from hw)
  decide

/-- **A removed character is run**: after `ab`, `'\b'`, `'\n'` the command is `ab`. -/
theorem not_commandLines_removed :
    ¬ ∀ cs : List UInt8, 0 ∉ cs →
      (∀ pre, pre <+: cs → (referenceLine (current newline [] pre)).length ≤ 255) →
      ∃ s events, session emptyShell cs = some (s, events) ∧
        events.filterMap ShellEvent.commandLine?
          = (completed newline [] cs).map referenceCommand := by
  intro h
  obtain ⟨s, events, hsession, hlines⟩ := h [0x61, 0x62, backspace, newline] (by decide)
    fun pre hpre => (by decide : ∀ pre ∈ [0x61, 0x62, backspace, newline].inits,
      (referenceLine (current newline [] pre)).length ≤ 255) pre ((List.mem_inits _ _).mpr hpre)
  have hrun : (session emptyShell [0x61, 0x62, backspace, newline]).map
      (fun r => r.2.filterMap ShellEvent.commandLine?) = some [[0x61, 0x62]] := by
    decide +kernel
  rw [hsession, Option.map_some, hlines] at hrun
  exact absurd hrun (by decide)

end MyOs.Kernel
