/-
  Text in rows of a fixed width, seen through a window of a fixed height.

  `layout` breaks a text into rows: at each newline, and behind a row that is full.  The window
  shows the last rows; `cell` is what it shows at a place, a blank where there is nothing.

  A screen that is written character by character needs two facts: what a new row does to the
  window (`cell_newRow`), and what one more character in the last row does (`cell_concat`).
  `written` is the layout as it grows: the rows that are closed, and the one being written.
-/
import Mathlib.Data.List.Induction

namespace MyOs.Lib.Rows

variable {α : Type*}

/-- The rows of a text, when the first of them begins with `cur`. -/
def layout (width : Nat) (newline : α → Bool) : List α → List α → List (List α)
  | cur, [] => [cur]
  | cur, c :: text =>
    if newline c then cur :: layout width newline [] text
    else if cur.length + 1 = width then (cur ++ [c]) :: layout width newline [] text
    else layout width newline (cur ++ [c]) text

/-- The last `height` rows, or all if there are fewer. -/
def visible (height : Nat) (rows : List (List α)) : List (List α) :=
  rows.drop (rows.length - height)

/-- Row `r` and column `x` of the window. -/
def cell (blank : α) (height : Nat) (rows : List (List α)) (r x : Nat) : α :=
  (((visible height rows)[r]?).getD [])[x]?.getD blank

variable {blank : α} {height : Nat}

theorem cell_eq (blank : α) (height : Nat) (rows : List (List α)) (r x : Nat) :
    cell blank height rows r x
      = ((rows[rows.length - height + r]?).getD [])[x]?.getD blank := by
  rw [cell, visible, List.getElem?_drop]

/-- There is nothing below the window. -/
theorem cell_of_le {r : Nat} (h : height ≤ r) (rows : List (List α)) (x : Nat) :
    cell blank height rows r x = blank := by
  have hbelow : rows.length ≤ rows.length - height + r := by omega
  rw [cell_eq, List.getElem?_eq_none hbelow]
  rfl

theorem getElem?_concat_of_gt {β : Type*} {l : List β} {i : Nat} (h : l.length < i) (b : β) :
    (l ++ [b])[i]? = none := by
  refine List.getElem?_eq_none ?_
  rw [List.length_append, List.length_singleton]
  exact h

/-- An empty row shows the same as no row. -/
theorem getElem?_concat_nil (rows : List (List α)) (i : Nat) :
    ((rows ++ [[]])[i]?).getD [] = (rows[i]?).getD [] := by
  rcases Nat.lt_trichotomy i rows.length with hlt | rfl | hgt
  · rw [List.getElem?_append_left hlt]
  · rw [List.getElem?_concat_length, List.getElem?_eq_none (Nat.le_refl _)]
    rfl
  · rw [getElem?_concat_of_gt hgt, List.getElem?_eq_none (Nat.le_of_lt hgt)]

/-- A new row scrolls the window if it is full, and is not seen otherwise. -/
theorem cell_newRow (rows : List (List α)) (r x : Nat) :
    cell blank height (rows ++ [[]]) r x
      = cell blank height rows (if rows.length < height then r else r + 1) x := by
  rw [cell_eq, cell_eq, getElem?_concat_nil, List.length_append, List.length_singleton]
  split_ifs with hlt
  · have hall : rows.length + 1 - height + r = rows.length - height + r := by omega
    rw [hall]
  · have hlast : rows.length + 1 - height + r = rows.length - height + (r + 1) := by omega
    rw [hlast]

/-- A character at the end of the last row. -/
theorem cell_concat (hheight : 0 < height) (done : List (List α)) (cur : List α) (c : α)
    (r x : Nat) : cell blank height (done ++ [cur ++ [c]]) r x
      = if r = min (done.length + 1) height - 1 ∧ x = cur.length then c
        else cell blank height (done ++ [cur]) r x := by
  rw [cell_eq, cell_eq, List.length_append, List.length_append, List.length_singleton,
    List.length_singleton]
  rcases Nat.lt_trichotomy (done.length + 1 - height + r) done.length with hlt | heq | hgt
  · have hr : ¬ (r = min (done.length + 1) height - 1 ∧ x = cur.length) := by omega
    rw [if_neg hr, List.getElem?_append_left hlt, List.getElem?_append_left hlt]
  · have hr : r = min (done.length + 1) height - 1 := by omega
    rw [heq, List.getElem?_concat_length, List.getElem?_concat_length, Option.getD_some,
      Option.getD_some]
    rcases Nat.lt_trichotomy x cur.length with hx | rfl | hx
    · rw [if_neg (fun h => Nat.ne_of_lt hx h.2), List.getElem?_append_left hx]
    · rw [if_pos ⟨hr, rfl⟩, List.getElem?_concat_length, Option.getD_some]
    · rw [if_neg (fun h => Nat.ne_of_gt hx h.2), List.getElem?_eq_none (Nat.le_of_lt hx),
        getElem?_concat_of_gt hx]
  · have hr : ¬ (r = min (done.length + 1) height - 1 ∧ x = cur.length) := by omega
    rw [if_neg hr, getElem?_concat_of_gt hgt, getElem?_concat_of_gt hgt]

/-! ## Row by row -/

section Written

variable {width : Nat} {newline : α → Bool}

/-- The closed rows and the one being written, after one more character. -/
def put (width : Nat) (newline : α → Bool) (s : List (List α) × List α) (c : α) :
    List (List α) × List α :=
  if newline c then (s.1 ++ [s.2], [])
  else if s.2.length + 1 = width then (s.1 ++ [s.2 ++ [c]], [])
  else (s.1, s.2 ++ [c])

/-- The rows of a text as they stand behind its last character. -/
def written (width : Nat) (newline : α → Bool) (text : List α) : List (List α) × List α :=
  text.foldl (put width newline) ([], [])

theorem written_concat (text : List α) (c : α) : written width newline (text ++ [c])
    = put width newline (written width newline text) c := by
  rw [written, List.foldl_append]
  rfl

theorem layout_put (done : List (List α)) (cur : List α) (c : α) (text : List α) :
    done ++ layout width newline cur (c :: text)
      = (put width newline (done, cur) c).1
        ++ layout width newline (put width newline (done, cur) c).2 text := by
  rw [layout, put]
  split_ifs
  · rw [List.append_assoc, List.singleton_append]
  · rw [List.append_assoc, List.singleton_append]
  · rfl

theorem layout_eq_foldl : ∀ (text : List α) (s : List (List α) × List α),
    s.1 ++ layout width newline s.2 text
      = (text.foldl (put width newline) s).1 ++ [(text.foldl (put width newline) s).2]
  | [], _ => rfl
  | c :: text, s => by
    rw [layout_put, List.foldl_cons]
    exact layout_eq_foldl text _

theorem layout_eq_written (text : List α) : layout width newline [] text
    = (written width newline text).1 ++ [(written width newline text).2] :=
  layout_eq_foldl text ([], [])

/-- The row being written has room. -/
theorem length_put_lt (hwidth : 0 < width) {s : List (List α) × List α} (h : s.2.length < width)
    (c : α) : (put width newline s c).2.length < width := by
  unfold put
  split_ifs with hnewline hfull
  · exact hwidth
  · exact hwidth
  · rw [List.length_append, List.length_singleton]
    omega

theorem length_written_lt (hwidth : 0 < width) (text : List α) :
    (written width newline text).2.length < width := by
  induction text using List.reverseRecOn with
  | nil => exact hwidth
  | append_singleton text c ih =>
    rw [written_concat]
    exact length_put_lt hwidth ih c

/-- **The column behind a line**: it goes round at the right border. -/
theorem length_written_append (hwidth : 0 < width) (text : List α) {line : List α}
    (hline : ∀ c ∈ line, newline c = false) : (written width newline (text ++ line)).2.length
      = ((written width newline text).2.length + line.length) % width := by
  induction line using List.reverseRecOn with
  | nil =>
    rw [List.append_nil, List.length_nil, Nat.add_zero,
      Nat.mod_eq_of_lt (length_written_lt hwidth text)]
  | append_singleton line c ih =>
    have hc := hline c (List.mem_append_right line List.mem_cons_self)
    have hlength := ih fun d hd => hline d (List.mem_append_left [c] hd)
    have hlt : (written width newline (text ++ line)).2.length < width :=
      length_written_lt hwidth _
    rw [← List.append_assoc, written_concat, put, if_neg (by rw [hc]; exact Bool.false_ne_true),
      List.length_append, List.length_singleton, ← Nat.add_assoc, ← Nat.mod_add_mod, ← hlength]
    split_ifs with hfull
    · rw [hfull, Nat.mod_self]
      rfl
    · rw [List.length_append, List.length_singleton, Nat.mod_eq_of_lt (by omega)]

end Written

end MyOs.Lib.Rows
