/-
  Whole runs of `kernel_main` on a buffer that nobody initialised.

  1. **Commands** (`commandLines_same_iff`): they are what was typed exactly when no line becomes too
     long for the array, and every line is completed in front of a cell that has been stored to.
     Otherwise it goes on with what the stack held: no terminator is stored behind a line.
  2. **The array** (`staysInside_iff`): it is large enough for exactly those lines that have less than
     256 characters when the next one comes, and are followed by a terminator.
-/
import MyOs.Lib.GuardedRuns
import MyOs.Kernel.InputBuffer

namespace MyOs.Kernel

open MyOs.Lib.GuardedRuns MyOs.Lib.LineEditor MyOs.Libraries

/-! ## What is executed -/

/-- The activation whose buffer has been stored to as far as `e` says. -/
def Stack.shown (st : Stack) (e : Extent) (front : List UInt8) : Activation :=
  ⟨e.entry, e.shell front ((st.contents e.entry).drop e.reach)⟩

theorem Stack.length_drop_contents (st : Stack) (e : Extent) (h : e.reach ≤ 256) :
    e.reach + ((st.contents e.entry).drop e.reach).length = 256 := by
  rw [List.length_drop, st.length_eq]
  omega

/-- There is room for the character, and a `'\n'` comes when this activation has stored to the cell
    behind the line, or to one behind that. -/
def Extent.Covers (e : Extent) (x : Input) : Prop :=
  (x.byte ≠ 0 → e.size < 256) ∧ (x.byte = newline → e.size < e.reach)

/-- Every character is covered when it comes. -/
abbrev Covered (e : Extent) (inputs : List Input) : Prop :=
  Guarded (fun e x => some (Extent.next e x)) Extent.Covers e inputs

/-- Behind every prefix both runs have handed the same strings to `strsplit`, and have not left their
    arrays. -/
def SameCommands (inputs : List Input) (st st' : Stack) (a a' : Activation) : Prop :=
  ∀ pre, pre <+: inputs → ∃ lines, commandLines st a pre = some lines ∧
    commandLines st' a' pre = some lines

section Commands

variable {e : Extent} {front : List UInt8} {x : Input}

theorem fixes_entry (k : Nat) : (⟨k, 0, 0⟩ : Extent).Fixes [] :=
  ⟨rfl, Nat.zero_le _, Nat.le_refl _, fun i hi => absurd hi (Nat.not_lt_zero i),
    fun hlt => absurd hlt (Nat.lt_irrefl 0)⟩

/-- **One turn does not depend on the stack**, up to the cells that have not been stored to. -/
theorem Extent.Fixes.turn (h : e.Fixes front) (hcovers : e.Covers x) :
    ∃ front' lines, (e.next x).Fixes front' ∧ ∀ st, ∃ events,
      act st (st.shown e front) x = some (st.shown (e.next x) front', events) ∧
      events.filterMap ShellEvent.commandLine? = lines := by
  obtain ⟨hlt, hnewline⟩ := hcovers
  cases x with
  | char b =>
    by_cases hb : b = newline
    · subst hb
      obtain ⟨front', line, hfixes, hstep⟩ := h.newline_front (hnewline rfl)
      refine ⟨front', [line], hfixes, fun st => ?_⟩
      obtain ⟨events, hrun, hline⟩ := hstep ((st.contents e.entry).drop e.reach)
      refine ⟨events, ?_, hline⟩
      show (kernelMainStep (e.shell front _) newline).map _ = _
      rw [hrun]
      rfl
    · obtain ⟨front', events, hfixes, hlines, hstep⟩ := h.char (b := b) hlt hb
      refine ⟨front', _, hfixes, fun st => ⟨events, ?_, hlines⟩⟩
      have htail := st.length_drop_contents e h.reach_le
      have hle := e.reach_le_char b
      show (kernelMainStep (e.shell front _) b).map _ = some (st.shown (e.char b) front', events)
      rw [hstep _ htail, List.drop_drop, Nat.add_sub_cancel' hle]
      show _ = some (Activation.mk (e.char b).entry ((e.char b).shell front'
        ((st.contents (e.char b).entry).drop _)), events)
      rw [e.entry_char b]
      rfl
  | program =>
    obtain ⟨_, line, -, hstep⟩ := h.newline_front (hnewline rfl)
    refine ⟨[], [line], fixes_entry (e.entry + 1), fun st => ?_⟩
    obtain ⟨events, hrun, hline⟩ := hstep ((st.contents e.entry).drop e.reach)
    refine ⟨events, ?_, hline⟩
    show (kernelMainStep (e.shell front _) newline).map _ = _
    rw [hrun]
    rfl

theorem commandLines_cons {st : Stack} {a a' : Activation} {events : List ShellEvent}
    (h : act st a x = some (a', events)) (xs : List Input) :
    commandLines st a (x :: xs) = (commandLines st a' xs).map fun lines =>
      events.filterMap ShellEvent.commandLine? ++ lines := by
  rw [commandLines, feed_cons h, commandLines, Option.map_map, Option.map_map]
  congr 1
  funext r
  exact List.filterMap_append

theorem commandLines_cons_none {st : Stack} {a : Activation} (h : act st a x = none)
    (xs : List Input) : commandLines st a (x :: xs) = none := by
  rw [commandLines, feed, h]
  rfl

theorem commandLines_singleton (st : Stack) (a : Activation) (x : Input) :
    commandLines st a [x] = (kernelMainStep a.shell x.byte).map fun r =>
      r.2.filterMap ShellEvent.commandLine? := by
  have hact : ∀ (r : Option (ShellState × List ShellEvent)) (f : ShellState → Activation),
      act st a x = r.map (fun r => (f r.1, r.2)) → commandLines st a [x]
        = r.map fun r => r.2.filterMap ShellEvent.commandLine? := by
    intro r f h
    cases r with
    | none => exact commandLines_cons_none h []
    | some r => exact (commandLines_cons h []).trans (congrArg some (List.append_nil _))
  cases x with
  | char b => exact hact _ (fun shell => ⟨a.number, shell⟩) rfl
  | program => exact hact _ (fun _ => st.enter (a.number + 1)) rfl

/-- A full line is left by no character: the next one is stored behind the array, or read there. -/
theorem Extent.Fixes.commandLines_full (h : e.Fixes front) (hsize : e.size = 256) (hx : x.byte ≠ 0)
    (st : Stack) : commandLines st (st.shown e front) [x] = none := by
  have hreach : 256 ≤ e.reach := hsize ▸ h.size_le
  have hshown : st.shown e front = ⟨e.entry, e.shell front []⟩ := by
    rw [Stack.shown, List.drop_eq_nil_of_le (by rw [st.length_eq]; exact hreach)]
  rw [hshown, commandLines_singleton, h.full hsize hx]
  rfl

theorem Extent.Fixes.sameCommands (h : e.Fixes front) {inputs : List Input}
    (hcovered : Covered e inputs) (st st' : Stack) :
    SameCommands inputs st st' (st.shown e front) (st'.shown e front) := by
  induction inputs generalizing e front with
  | nil =>
    intro pre hpre
    obtain rfl := List.prefix_nil.mp hpre
    exact ⟨[], rfl, rfl⟩
  | cons x xs ih =>
    intro pre hpre
    cases pre with
    | nil => exact ⟨[], rfl, rfl⟩
    | cons y pre =>
      obtain ⟨rfl, hrest⟩ := List.cons_prefix_cons.mp hpre
      obtain ⟨hcovers, hcovered⟩ := guarded_total.mp hcovered
      obtain ⟨front', lines, hfixes, hact⟩ := h.turn hcovers
      obtain ⟨events, hstep, rfl⟩ := hact st
      obtain ⟨events', hstep', hlines'⟩ := hact st'
      obtain ⟨lines', hrun, hrun'⟩ := ih hfixes hcovered pre hrest
      rw [commandLines_cons hstep, commandLines_cons hstep', hlines', hrun, hrun']
      exact ⟨_, rfl, rfl⟩

/-- A stack that is zero except for one cell of each buffer. -/
def Stack.marked (n : Nat) (hn : n ≤ 255) (mark : UInt8) : Stack where
  contents _ := List.replicate n 0 ++ mark :: List.replicate (255 - n) 0
  length_eq k := by
    rw [List.length_append, List.length_cons, List.length_replicate, List.length_replicate]
    omega

theorem Stack.terminated_marked (n : Nat) (hn : n ≤ 255) (mark : UInt8) :
    (Stack.marked n hn mark).Terminated := by
  intro k
  refine List.mem_append.mpr ?_
  rcases Nat.eq_zero_or_pos n with hzero | hpos
  · exact .inr (List.mem_cons_of_mem _ (List.mem_replicate.mpr ⟨by omega, rfl⟩))
  · exact .inl (List.mem_replicate.mpr ⟨Nat.ne_of_gt hpos, rfl⟩)

/-- A line completed in front of a cell that has not been stored to: the command shows what is
    there. -/
theorem Extent.Fixes.commandLines_marked (h : e.Fixes front) (hreach : e.size = e.reach)
    (hn : e.size ≤ 255) (hnewline : x.byte = newline) :
    commandLines (.marked e.size hn 0) ((Stack.marked e.size hn 0).shown e front) [x]
      ≠ commandLines (.marked e.size hn 0x78) ((Stack.marked e.size hn 0x78).shown e front) [x] := by
  have hdrop : ∀ mark, ((Stack.marked e.size hn mark).contents e.entry).drop e.reach
      = mark :: List.replicate (255 - e.size) 0 := by
    intro mark
    rw [← hreach]
    exact List.drop_left' List.length_replicate
  have htyped : 0 ∉ front := by
    intro hmem
    obtain ⟨i, hi, hzero⟩ := List.getElem_of_mem hmem
    refine h.typed i ?_ (List.getElem?_eq_some_iff.mpr ⟨hi, hzero⟩)
    rw [hreach, ← h.length_eq]
    exact hi
  have hsize := h.size_le_length
  obtain ⟨events, hstep, hline⟩ := h.newline_text
    (rfl : front ++ 0 :: List.replicate (255 - e.size) 0 = _) htyped hsize
  rw [commandLines_singleton, commandLines_singleton, hnewline, Stack.shown, hdrop, Stack.shown,
    hdrop, hstep, Option.map_some, hline]
  have htyped' : 0 ∉ front ++ [0x78] := by
    rw [List.mem_append, List.mem_singleton]
    exact fun hmem => hmem.elim htyped (by decide)
  -- with the mark the line is longer by one character, or has no end in the buffer
  rcases Nat.eq_zero_or_pos (255 - e.size) with hfull | hpos
  · have hnone : kernelMainStep (e.shell front [0x78]) newline = none :=
      kernelMainStep_newline_none htyped'
    rw [hfull, List.replicate_zero, hnone]
    exact Option.some_ne_none _
  · obtain ⟨k, hk⟩ := Nat.exists_eq_add_of_lt hpos
    have hbuffer' : front ++ 0x78 :: 0 :: List.replicate k 0
        = front ++ [0x78] ++ 0 :: List.replicate k 0 := (List.append_assoc front [0x78] _).symm
    obtain ⟨events', hstep', hline'⟩ := h.newline_text hbuffer' htyped'
      (by rw [List.length_append]; omega)
    rw [show 255 - e.size = k + 1 by omega, List.replicate_succ, hstep', Option.map_some, hline']
    intro heq
    have hlength := congrArg List.length (List.cons.inj (Option.some.inj heq)).1
    rw [List.length_map, List.length_map, List.length_append, List.length_singleton] at hlength
    omega

theorem Extent.Fixes.covered (h : e.Fixes front) {inputs : List Input}
    (hsame : ∀ st st' : Stack, st.Terminated → st'.Terminated →
      SameCommands inputs st st' (st.shown e front) (st'.shown e front)) : Covered e inputs := by
  induction inputs generalizing e front with
  | nil => trivial
  | cons x xs ih =>
    have hroom : x.byte ≠ 0 → e.size < 256 := by
      intro hx
      by_contra hfull
      have hsize : e.size = 256 :=
        Nat.le_antisymm (Nat.le_trans h.size_le h.reach_le) (Nat.le_of_not_lt hfull)
      have hzero := Stack.terminated_marked 0 (Nat.zero_le 255) 0
      obtain ⟨lines, hrun, -⟩ := hsame _ _ hzero hzero [x] ⟨xs, rfl⟩
      exact Option.some_ne_none _ (hrun.symm.trans (h.commandLines_full hsize hx _))
    have hnewline : x.byte = newline → e.size < e.reach := by
      intro hx
      have hne : x.byte ≠ 0 := by rw [hx]; decide
      have hn : e.size ≤ 255 := Nat.le_of_lt_succ (hroom hne)
      by_contra hreach
      obtain ⟨lines, hrun, hrun'⟩ := hsame _ _ (Stack.terminated_marked _ hn 0)
        (Stack.terminated_marked _ hn 0x78) [x] ⟨xs, rfl⟩
      exact h.commandLines_marked (Nat.le_antisymm h.size_le (Nat.le_of_not_lt hreach)) hn hx
        (hrun.trans hrun'.symm)
    obtain ⟨front', lines, hfixes, hact⟩ := h.turn ⟨hroom, hnewline⟩
    refine guarded_total.mpr ⟨⟨hroom, hnewline⟩, ih hfixes fun st st' hst hst' pre hpre => ?_⟩
    obtain ⟨events, hstep, hlines⟩ := hact st
    obtain ⟨events', hstep', hlines'⟩ := hact st'
    obtain ⟨lines', hrun, hrun'⟩ :=
      hsame st st' hst hst' (x :: pre) (List.cons_prefix_cons.mpr ⟨rfl, hpre⟩)
    rw [commandLines_cons hstep, hlines] at hrun
    rw [commandLines_cons hstep', hlines'] at hrun'
    obtain ⟨rest, hrest, rfl⟩ := Option.map_eq_some_iff.mp hrun
    obtain ⟨rest', hrest', heq⟩ := Option.map_eq_some_iff.mp hrun'
    obtain rfl := List.append_cancel_left heq
    exact ⟨rest', hrest, hrest'⟩

end Commands

/-- **What is executed** depends on what was typed alone, whatever the stack held, and is inside of the
    arrays, if and only if every character but a NUL comes when the line has less than 256
    characters, and each line is completed in front of a cell that this activation has stored to. -/
theorem commandLines_same_iff (inputs : List Input) :
    (∀ st st' : Stack, st.Terminated → st'.Terminated →
      SameCommands inputs st st' (st.enter 0) (st'.enter 0)) ↔ Covered ⟨0, 0, 0⟩ inputs :=
  ⟨(fixes_entry 0).covered, fun hcovered st st' _ _ => (fixes_entry 0).sameCommands hcovered st st'⟩

/-- **The first command goes on** with what the stack holds behind it. -/
theorem not_commandLines_same : ¬ ∀ (inputs : List Input) (st st' : Stack), st.Terminated →
    st'.Terminated → commandLines st (st.enter 0) inputs = commandLines st' (st'.enter 0) inputs := by
  intro h
  have hsame := h [.char 0x61, .char newline] (.marked 1 (by decide) 0) (.marked 1 (by decide) 0x78)
    (Stack.terminated_marked 1 _ 0) (Stack.terminated_marked 1 _ 0x78)
  have hne : commandLines (.marked 1 (by decide) 0) ((Stack.marked 1 (by decide) 0).enter 0)
      [.char 0x61, .char newline] = some [[0x61]] := by decide +kernel
  have hne' : commandLines (.marked 1 (by decide) 0x78) ((Stack.marked 1 (by decide) 0x78).enter 0)
      [.char 0x61, .char newline] = some [[0x61, 0x78]] := by decide +kernel
  rw [hne, hne'] at hsame
  exact absurd hsame (by decide)

/-! ## The array -/

/-- The indices at which one turn of the loop stores to `input_buffer`, for the character `b`. -/
def ShellState.writes (s : ShellState) (b : UInt8) : List Nat :=
  if b = 0 then []
  else if b = backspace then if s.inputSize = 0 then [] else [s.inputSize.toNat]
  else if b = newline then List.range s.inputSize.toNat
  else [s.inputSize.toNat]

/-- It stores inside the array, and what it runs has a terminator there. -/
def ShellState.Inside (s : ShellState) (b : UInt8) : Prop :=
  (∀ i ∈ s.writes b, i < 256) ∧ (b = newline → 0 ∈ s.inputBuffer)

/-- The activation behind one turn of the loop. -/
def turn (st : Stack) (a : Activation) (x : Input) : Option Activation := (act st a x).map Prod.fst

/-- Every turn of the loop stays inside the array. -/
def StaysInside (st : Stack) (inputs : List Input) : Prop :=
  Guarded (turn st) (fun a x => a.shell.Inside x.byte) (st.enter 0) inputs

/-- The line has less than 256 characters when one more comes, or one is removed; and when it is
    completed, there is a terminator behind it, stored or in the stack. -/
def Extent.Room (st : Stack) (e : Extent) (b : UInt8) : Prop :=
  (b ≠ 0 → b ≠ newline → (b = backspace → e.size ≠ 0) → e.size < 256) ∧
  (b = newline → e.size < e.reach ∨ ∃ i, e.size ≤ i ∧ (st.contents e.entry)[i]? = some 0)

/-- A tail that has been through some commands: no terminator is lost, and none comes from nowhere. -/
structure Stale (tail contents : List UInt8) : Prop where
  length_eq : tail.length = contents.length
  keeps : ∀ i : Nat, contents[i]? = some 0 → tail[i]? = some 0
  ends : ∀ i : Nat, tail[i]? = some 0 → ∃ j : Nat, i ≤ j ∧ contents[j]? = some 0

section Array

variable {st : Stack} {a : Activation} {e : Extent} {front tail contents : List UInt8} {x : Input}

theorem stale_refl (contents : List UInt8) : Stale contents contents :=
  ⟨rfl, fun _ h => h, fun i h => ⟨i, Nat.le_refl i, h⟩⟩

theorem Stale.drop (h : Stale tail contents) (n : Nat) : Stale (tail.drop n) (contents.drop n) where
  length_eq := by rw [List.length_drop, List.length_drop, h.length_eq]
  keeps i hi := by
    rw [List.getElem?_drop] at hi ⊢
    exact h.keeps _ hi
  ends i hi := by
    rw [List.getElem?_drop] at hi
    obtain ⟨j, hj, hzero⟩ := h.ends _ hi
    refine ⟨j - n, by omega, ?_⟩
    rw [List.getElem?_drop, show n + (j - n) = j by omega]
    exact hzero

/-- The buffer of an activation, its front stored to and the tail stale. -/
structure Tracks (st : Stack) (a : Activation) (e : Extent) (front tail : List UInt8) : Prop where
  eq : a = ⟨e.entry, e.shell front tail⟩
  fixes : e.Fixes front
  stale : Stale tail ((st.contents e.entry).drop e.reach)

theorem Tracks.length_eq (h : Tracks st a e front tail) : e.reach + tail.length = 256 :=
  h.stale.length_eq ▸ st.length_drop_contents e h.fixes.reach_le

theorem tracks_enter (st : Stack) (k : Nat) : Tracks st (st.enter k) ⟨k, 0, 0⟩ [] (st.contents k) :=
  ⟨rfl, fixes_entry k, stale_refl _⟩

/-- Where there is a terminator. -/
theorem Tracks.zero_mem_iff (h : Tracks st a e front tail) : 0 ∈ front ++ tail ↔
    e.size < e.reach ∨ ∃ i, e.size ≤ i ∧ (st.contents e.entry)[i]? = some 0 := by
  rcases Nat.lt_or_ge e.size e.reach with hlt | hge
  · exact iff_of_true (List.mem_append_left _ (List.mem_of_getElem? (h.fixes.terminated hlt)))
      (.inl hlt)
  have hsize : e.size = e.reach := Nat.le_antisymm h.fixes.size_le hge
  rw [or_iff_right (Nat.not_lt.mpr hge), List.mem_append, List.mem_iff_getElem?,
    List.mem_iff_getElem?]
  constructor
  · rintro (⟨i, hi⟩ | ⟨i, hi⟩)
    · have hlt : i < front.length := (List.getElem?_eq_some_iff.mp hi).1
      exact absurd hi (h.fixes.typed i (by rw [hsize, ← h.fixes.length_eq]; exact hlt))
    · obtain ⟨j, -, hj⟩ := h.stale.ends i hi
      rw [List.getElem?_drop] at hj
      exact ⟨e.reach + j, by omega, hj⟩
  · rintro ⟨i, hle, hi⟩
    refine .inr ⟨i - e.reach, h.stale.keeps _ ?_⟩
    rw [List.getElem?_drop, show e.reach + (i - e.reach) = i by omega]
    exact hi

/-- A turn stays inside exactly when there is room. -/
theorem Tracks.inside_iff (h : Tracks st a e front tail) (b : UInt8) :
    a.shell.Inside b ↔ e.Room st b := by
  have hbuffer : a.shell.inputBuffer = front ++ tail := by rw [h.eq]; rfl
  have hsize : a.shell.inputSize.toNat = e.size := by rw [h.eq]; exact h.fixes.toNat_size
  have hzero : a.shell.inputSize = 0 ↔ e.size = 0 := by
    rw [← UInt16.toNat_inj, hsize]
    rfl
  have hle : e.size ≤ 256 := Nat.le_trans h.fixes.size_le h.fixes.reach_le
  refine and_congr ?_ (by rw [hbuffer, h.zero_mem_iff])
  unfold ShellState.writes
  rw [hsize]
  simp only [hzero]
  by_cases hb : b = 0
  · rw [if_pos hb]
    exact iff_of_true (fun _ hi => absurd hi List.not_mem_nil) fun hne => absurd hb hne
  · rw [if_neg hb]
    by_cases hback : b = backspace
    · rw [if_pos hback]
      by_cases hempty : e.size = 0
      · rw [if_pos hempty]
        exact iff_of_true (fun _ hi => absurd hi List.not_mem_nil)
          fun _ _ hne => absurd hempty (hne hback)
      · rw [if_neg hempty, List.forall_mem_singleton]
        have hnewline : b ≠ newline := by rw [hback]; decide
        exact ⟨fun hlt _ _ _ => hlt, fun hlt => hlt hb hnewline fun _ => hempty⟩
    · rw [if_neg hback]
      by_cases hnewline : b = newline
      · rw [if_pos hnewline]
        -- the loop that clears the line stays in front of its end
        exact iff_of_true (fun i hi => Nat.lt_of_lt_of_le (List.mem_range.mp hi) hle)
          fun _ hne => absurd hnewline hne
      · rw [if_neg hnewline, List.forall_mem_singleton]
        exact ⟨fun hlt _ _ _ => hlt, fun hlt => hlt hb hnewline fun h => absurd h hback⟩

/-- A `'\n'` that runs a string which goes on behind what has been stored. -/
theorem Tracks.newline_behind (h : Tracks st a e front tail) (hsize : e.size = e.reach)
    (hzero : 0 ∈ front ++ tail) : ∃ front' tail' events,
      kernelMainStep a.shell newline = some ((e.char newline).shell front' tail', events) ∧
      (e.char newline).Fixes front' ∧ Stale tail' ((st.contents e.entry).drop e.reach) := by
  obtain ⟨text, rest, hbuffer, htext, hle⟩ := h.fixes.text hzero
  obtain ⟨events, hstep, -⟩ := h.fixes.newline_text hbuffer htext hle
  have hlength : (leftover e.size text rest).length = 256 := by
    rw [length_leftover hle, ← hbuffer, List.length_append, h.fixes.length_eq, h.length_eq]
  have hreach := h.fixes.reach_le
  -- the cells behind the reach, before and afterwards
  have hbefore : ∀ i, tail[i]? = (text ++ 0 :: rest)[e.reach + i]? := by
    intro i
    rw [← hbuffer, List.getElem?_append_right (by rw [h.fixes.length_eq]; omega),
      h.fixes.length_eq, Nat.add_sub_cancel_left]
  have hafter : ∀ i, ((leftover e.size text rest).drop e.reach)[i]?
      = (leftover e.size text rest)[e.reach + i]? := fun i => List.getElem?_drop
  have hbehind : ∀ {i : Nat}, (text ++ 0 :: rest)[i]? = some 0 → text.length ≤ i := by
    intro i hi
    by_contra hlt
    rw [List.getElem?_append_left (Nat.lt_of_not_le hlt)] at hi
    exact htext (List.mem_of_getElem? hi)
  refine ⟨(leftover e.size text rest).take e.reach, (leftover e.size text rest).drop e.reach, events,
    ?_, ?_, ?_, fun i hi => ?_, fun i hi => ?_⟩
  · rw [h.eq, hstep]
    show _ = some (ShellState.mk (_ ++ _) _, events)
    rw [List.take_append_drop]
    rfl
  · refine ⟨List.length_take_of_le (hlength ▸ hreach), hreach, Nat.zero_le _,
      fun i hi => absurd hi (Nat.not_lt_zero i), fun (hpos : 0 < e.reach) => ?_⟩
    show ((leftover e.size text rest).take e.reach)[e.reach - 1]? = some 0
    rw [List.getElem?_take_of_lt (by omega), getElem?_leftover_cleared text rest (by omega)]
  · rw [List.length_drop, List.length_drop, hlength, st.length_eq]
  · have hi' := h.stale.keeps i hi
    rw [hbefore] at hi'
    rw [hafter, getElem?_leftover hle (hbehind hi'), hi']
  · rw [hafter] at hi
    rcases Nat.lt_or_ge (e.reach + i) text.length with hlt | hge
    · obtain ⟨j, hj, hend⟩ := h.stale.ends (text.length - e.reach) (by
        rw [hbefore, show e.reach + (text.length - e.reach) = text.length by omega,
          getElem?_border])
      exact ⟨j, by omega, hend⟩
    · rw [getElem?_leftover hle hge, ← hbefore] at hi
      exact h.stale.ends i hi

/-- A `'\n'`, in front of a terminator somewhere. -/
theorem Tracks.newline_text (h : Tracks st a e front tail) (hzero : 0 ∈ front ++ tail) :
    ∃ front' tail' events,
      kernelMainStep a.shell newline = some ((e.char newline).shell front' tail', events) ∧
      (e.char newline).Fixes front' ∧ Stale tail' ((st.contents e.entry).drop e.reach) := by
  rcases Nat.lt_or_ge e.size e.reach with hlt | hge
  · obtain ⟨front', line, hfixes, hstep⟩ := h.fixes.newline_front hlt
    obtain ⟨events, hrun, -⟩ := hstep tail
    rw [h.eq]
    exact ⟨front', tail, events, hrun, hfixes, h.stale⟩
  · exact h.newline_behind (Nat.le_antisymm h.fixes.size_le hge) hzero

/-- A turn that stays inside has a result. -/
theorem Tracks.turn (h : Tracks st a e front tail) (hroom : e.Room st x.byte) :
    ∃ a' front' tail', turn st a x = some a' ∧ Tracks st a' (e.next x) front' tail' := by
  by_cases hx : x.byte = newline
  · obtain ⟨front', tail', events, hstep, hfixes, hstale⟩ :=
      h.newline_text (h.zero_mem_iff.mpr (hroom.2 hx))
    obtain ⟨b⟩ | _ := x
    · obtain rfl : b = newline := hx
      refine ⟨_, front', tail', ?_, rfl, hfixes, hstale⟩
      show ((kernelMainStep a.shell newline).map _).map Prod.fst = _
      rw [hstep, h.eq]
      rfl
    · refine ⟨st.enter (e.entry + 1), [], st.contents (e.entry + 1), ?_, tracks_enter st _⟩
      show ((kernelMainStep a.shell newline).map _).map Prod.fst = _
      rw [hstep, h.eq]
      rfl
  · obtain ⟨b⟩ | _ := x
    · -- the room is in the buffer for the character
      have hlt : b ≠ 0 → e.size < 256 := by
        intro hb
        by_cases hempty : e.size = 0
        · omega
        · exact hroom.1 hb hx fun _ => hempty
      obtain ⟨front', events, hfixes, -, hstep⟩ := h.fixes.char hlt hx
      have hle := e.reach_le_char b
      refine ⟨_, front', tail.drop ((e.char b).reach - e.reach), ?_, rfl, hfixes, ?_⟩
      · show ((kernelMainStep a.shell b).map _).map Prod.fst = _
        rw [h.eq, hstep tail h.length_eq]
        show _ = some (Activation.mk (e.char b).entry _)
        rw [e.entry_char b]
        rfl
      · show Stale _ ((st.contents (e.char b).entry).drop (e.char b).reach)
        rw [e.entry_char b, ← Nat.add_sub_cancel' hle, ← List.drop_drop, Nat.add_sub_cancel_left]
        exact h.stale.drop _
    · exact absurd rfl hx

/-- The turns stay inside as long as there is room. -/
theorem Tracks.guarded_iff (h : Tracks st a e front tail) (inputs : List Input) :
    Guarded (Kernel.turn st) (fun a x => a.shell.Inside x.byte) a inputs ↔
      Guarded (fun e x => some (Extent.next e x)) (fun e x => e.Room st x.byte) e inputs := by
  refine Lib.GuardedRuns.guarded_iff (fun a e => ∃ front tail, Tracks st a e front tail) ?_ ?_
    ⟨front, tail, h⟩
  · rintro a e x ⟨front, tail, h⟩
    exact h.inside_iff x.byte
  · rintro a e x ⟨front, tail, h⟩ hinside
    obtain ⟨a', front', tail', hturn, h'⟩ := h.turn ((h.inside_iff x.byte).mp hinside)
    exact ⟨a', e.next x, hturn, rfl, front', tail', h'⟩

end Array

/-- **Where the array is large enough**: exactly as long as there is room. -/
theorem staysInside_iff (st : Stack) (inputs : List Input) :
    StaysInside st inputs ↔
      Guarded (fun e x => some (Extent.next e x)) (fun e x => e.Room st x.byte) ⟨0, 0, 0⟩ inputs :=
  (tracks_enter st 0).guarded_iff inputs

/-- **The 257th character of a line** is stored behind the array. -/
theorem not_staysInside : ¬ ∀ (st : Stack) (inputs : List Input), StaysInside st inputs := by
  intro h
  have hinside := h (.marked 0 (by decide) 0)
    (List.replicate 256 (.char 0x61) ++ [.char 0x61])
  rw [StaysInside, (tracks_enter _ 0).guarded_iff, guarded_append] at hinside
  have hrun : (List.replicate 256 (Input.char 0x61)).foldlM (fun e x => some (Extent.next e x))
      ⟨0, 0, 0⟩ = some ⟨0, 256, 256⟩ := by decide +kernel
  have hroom := (hinside.2 _ hrun).1.1 (by decide) (by decide) (by decide)
  exact absurd hroom (by decide)

end MyOs.Kernel
