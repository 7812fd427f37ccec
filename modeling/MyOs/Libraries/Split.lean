/-
  What `strsplit` makes of a string.

  1. **As a function of the string** (`splitText`, `strsplit_eq_splitString`): the array behind the
     terminator and the fuel have no influence.
  2. **The parts** (`parts_splitString_of_le`): read as C strings they are the segments of the string,
     the nonempty pieces between delimiters, when the string does not begin with two delimiters and
     there are fewer than `max_parts`, or as many and no delimiter behind them.
-/
import MyOs.Libraries.Strings

namespace MyOs.Libraries

variable {rest : List UInt8}

/-! ## The parts as a function of the string -/

/-- A character behind a delimiter begins a part, unless it is one itself or the terminator. -/
def startsPart (delim : UInt8) : List UInt8 → Bool
  | [] => false
  | c :: _ => c ≠ delim

/-- The loop of `strsplit` from offset `i` on, behind `n` parts: what is left of the text, and the
    parts that begin in it. -/
def splitText (delim : UInt8) (maxParts : Nat) : Nat → Nat → List UInt8 → List UInt8 × List Nat
  | _, _, [] => ([], [])
  | n, i, c :: todo =>
    if n < maxParts then
      if c = delim then
        if startsPart delim todo then
          (0 :: (splitText delim maxParts (n + 1) (i + 1) todo).1,
            (i + 1) :: (splitText delim maxParts (n + 1) (i + 1) todo).2)
        else
          (0 :: (splitText delim maxParts n (i + 1) todo).1,
            (splitText delim maxParts n (i + 1) todo).2)
      else
        (c :: (splitText delim maxParts n (i + 1) todo).1,
          (splitText delim maxParts n (i + 1) todo).2)
    else (c :: todo, [])

/-- `strsplit` of a string: what is left of it, and the offsets of the parts. -/
def splitString (delim : UInt8) (maxParts : Nat) : List UInt8 → List UInt8 × List Nat
  | [] => ([], [])
  | c :: w =>
    if c = delim then
      if w = [] then ([c], [])
      else (c :: (splitText delim maxParts 1 1 w).1, 1 :: (splitText delim maxParts 1 1 w).2)
    else
      ((splitText delim maxParts 1 0 (c :: w)).1, 0 :: (splitText delim maxParts 1 0 (c :: w)).2)

theorem length_splitText (delim : UInt8) (maxParts : Nat) : ∀ (todo : List UInt8) (n i : Nat),
    (splitText delim maxParts n i todo).1.length = todo.length
  | [], _, _ => rfl
  | c :: todo, n, i => by
    unfold splitText
    split_ifs <;> simp only [List.length_cons, length_splitText delim maxParts todo]

theorem strsplitLoop_eq_splitText {delim : UInt8} {maxParts : Nat}
    {todo : List UInt8} : ∀ (fuel : Nat) (done : List UInt8) (parts : List Nat), 0 ∉ todo →
    todo.length < fuel →
    strsplitLoop delim maxParts fuel (done ++ (todo ++ 0 :: rest)) done.length parts
      = some (done ++ ((splitText delim maxParts parts.length done.length todo).1 ++ 0 :: rest),
          parts ++ (splitText delim maxParts parts.length done.length todo).2) := by
  induction todo with
  | nil =>
    intro fuel done parts _ hfuel
    obtain ⟨fuel, rfl⟩ := Nat.exists_eq_add_of_lt hfuel
    rw [strsplitLoop, List.nil_append, getElem?_border]
    simp only [Option.bind_eq_bind, Option.bind_some]
    rw [if_neg fun hgo => hgo.1 rfl, splitText, List.append_nil, List.nil_append]
  | cons c todo ih =>
    intro fuel done parts htodo hfuel
    obtain ⟨hc, htodo'⟩ := List.ne_and_not_mem_of_not_mem_cons htodo
    rw [List.length_cons] at hfuel
    obtain ⟨fuel, rfl⟩ : ∃ n, fuel = n + 1 := ⟨fuel - 1, by omega⟩
    -- the rest of the loop, behind whatever is left at `str[i]`
    have hnext : ∀ x parts', strsplitLoop delim maxParts fuel (done ++ x :: (todo ++ 0 :: rest))
        (done.length + 1) parts' = some (done ++ x ::
          ((splitText delim maxParts parts'.length (done.length + 1) todo).1 ++ 0 :: rest),
          parts' ++ (splitText delim maxParts parts'.length (done.length + 1) todo).2) := by
      intro x parts'
      have h := ih fuel (done ++ [x]) parts' htodo' (by omega)
      simpa only [List.length_append, List.length_singleton, List.append_assoc,
        List.singleton_append] using h
    rw [strsplitLoop, List.cons_append, getElem?_border]
    simp only [Option.bind_eq_bind, Option.bind_some]
    unfold splitText
    by_cases hmax : parts.length < maxParts
    · rw [if_pos ⟨hc.symm, hmax⟩, if_pos hmax]
      by_cases hdelim : c = delim
      · rw [if_pos hdelim, if_pos hdelim, store_border, Option.bind_some]
        -- the character behind the delimiter
        have hread : ∃ next, (done ++ 0 :: (todo ++ 0 :: rest))[done.length + 1]? = some next ∧
            ((next ≠ 0 ∧ next ≠ delim) ↔ startsPart delim todo = true) := by
          have hborder : (done ++ [0] ++ 0 :: rest)[(done ++ [0]).length]? = some 0 :=
            getElem?_border
          cases todo with
          | nil =>
            refine ⟨0, ?_, fun h => absurd rfl h.1, fun h => absurd h Bool.false_ne_true⟩
            rw [List.length_append, List.length_singleton, List.append_assoc,
              List.singleton_append] at hborder
            exact hborder
          | cons next todo =>
            have hnextne := (List.ne_and_not_mem_of_not_mem_cons htodo').1
            have hborder' : (done ++ [0] ++ next :: (todo ++ 0 :: rest))[(done ++ [0]).length]?
                = some next := getElem?_border
            rw [List.length_append, List.length_singleton, List.append_assoc,
              List.singleton_append] at hborder'
            refine ⟨next, hborder', ?_⟩
            rw [startsPart, decide_eq_true_eq]
            exact ⟨fun h => h.2, fun h => ⟨hnextne.symm, h⟩⟩
        obtain ⟨next, hread, hstarts⟩ := hread
        rw [hread, Option.bind_some, hnext]
        by_cases hpart : startsPart delim todo = true
        · rw [if_pos (hstarts.mpr hpart), if_pos hpart, List.length_append, List.length_singleton,
            List.append_assoc, List.singleton_append, List.cons_append]
        · rw [if_neg fun h => hpart (hstarts.mp h), if_neg hpart, List.cons_append]
      · rw [if_neg hdelim, if_neg hdelim, hnext, List.cons_append]
    · rw [if_neg fun hgo => hmax hgo.2, if_neg hmax, List.append_nil, List.cons_append]

/-- **`strsplit`** of an array that holds a string. -/
theorem strsplit_eq_splitString {delim : UInt8} (hdelim : delim ≠ 0) (maxParts : Nat)
    {w : List UInt8} (h : 0 ∉ w) : strsplit (w ++ 0 :: rest) delim maxParts
      = some ((splitString delim maxParts w).1 ++ 0 :: rest, (splitString delim maxParts w).2) := by
  have hloop : ∀ (done todo : List UInt8) (parts : List Nat), 0 ∉ todo →
      strsplitLoop delim maxParts (done ++ (todo ++ 0 :: rest)).length (done ++ (todo ++ 0 :: rest))
        done.length parts
      = some (done ++ ((splitText delim maxParts parts.length done.length todo).1 ++ 0 :: rest),
          parts ++ (splitText delim maxParts parts.length done.length todo).2) :=
    fun done todo parts htodo =>
      strsplitLoop_eq_splitText _ done parts htodo (length_lt_border done todo rest)
  cases w with
  | nil =>
    have hfirst : (([] : List UInt8) ++ 0 :: rest)[0]? = some 0 := rfl
    simp only [strsplit, hfirst, Option.bind_eq_bind, Option.bind_some, if_neg hdelim.symm]
    exact hloop [] [] [] List.not_mem_nil
  | cons c w =>
    obtain ⟨hc, hw⟩ := List.ne_and_not_mem_of_not_mem_cons h
    have hfirst : ((c :: w) ++ 0 :: rest)[0]? = some c := rfl
    simp only [strsplit, hfirst, Option.bind_eq_bind, Option.bind_some, splitString]
    by_cases hslash : c = delim
    · rw [if_pos hslash, if_pos hslash]
      cases w with
      | nil => exact hloop [c] [] [] List.not_mem_nil
      | cons x w =>
        have hx := (List.ne_and_not_mem_of_not_mem_cons hw).1
        have hsecond : ((c :: x :: w) ++ 0 :: rest)[1]? = some x := rfl
        rw [hsecond, Option.bind_some, if_pos hx.symm, if_neg (List.cons_ne_nil x w)]
        -- the first part begins behind the delimiter
        exact hloop [c] (x :: w) [1] hw
    · -- it begins with the string
      rw [if_neg hslash, if_neg hslash, hfirst, Option.bind_some, if_pos hc.symm]
      exact hloop [] (c :: w) [0] h

theorem length_splitString (delim : UInt8) (maxParts : Nat) (w : List UInt8) :
    (splitString delim maxParts w).1.length = w.length := by
  cases w with
  | nil => rfl
  | cons c w =>
    simp only [splitString]
    split_ifs with hslash hw
    · rw [hw]
    · rw [List.length_cons, List.length_cons, length_splitText]
    · rw [length_splitText]

/-- How `strsplit` begins: it has no part, or one that begins behind at most one delimiter, and the
    loop goes on from there. -/
theorem splitString_form (delim : UInt8) (maxParts : Nat) (w : List UInt8) :
    ((w = [] ∨ w = [delim]) ∧ splitString delim maxParts w = (w, [])) ∨
    ∃ done todo, w = done ++ todo ∧ ((done = [] ∧ startsPart delim todo = true) ∨ done = [delim]) ∧
      todo ≠ [] ∧ splitString delim maxParts w
        = (done ++ (splitText delim maxParts 1 done.length todo).1,
            done.length :: (splitText delim maxParts 1 done.length todo).2) := by
  cases w with
  | nil => exact .inl ⟨.inl rfl, rfl⟩
  | cons c w =>
    by_cases hslash : c = delim
    · by_cases hnil : w = []
      · refine .inl ⟨.inr (by rw [hslash, hnil]), ?_⟩
        rw [splitString, if_pos hslash, if_pos hnil, hnil]
      · refine .inr ⟨[c], w, rfl, .inr (by rw [hslash]), hnil, ?_⟩
        rw [splitString, if_pos hslash, if_neg hnil]
        rfl
    · refine .inr ⟨[], c :: w, rfl, .inl ⟨rfl, decide_eq_true hslash⟩, List.cons_ne_nil c w, ?_⟩
      rw [splitString, if_neg hslash]
      rfl

/-- Reading behind the beginning of the text. -/
theorem drop_behind {done left : List UInt8} {p : Nat} (h : done.length ≤ p) :
    (done ++ left).drop p = left.drop (p - done.length) := by
  rw [List.drop_append, List.drop_eq_nil_of_le h, List.nil_append]

/-! ## The parts as segments -/

/-- The nonempty pieces between delimiters. -/
def segments (delim : UInt8) (w : List UInt8) : List (List UInt8) :=
  (w.splitOn delim).filter (· ≠ [])

/-- The strings that begin at some offsets of a text which itself begins at offset `i`. -/
def stringsAt (left : List UInt8) (i : Nat) (parts : List Nat) : List (List UInt8) :=
  parts.map fun p => cString (left.drop (p - i))

/-- The parts begin inside the text. -/
theorem mem_splitText {delim : UInt8} {maxParts : Nat} : ∀ {todo : List UInt8} {n i p : Nat},
    p ∈ (splitText delim maxParts n i todo).2 → i < p ∧ p < i + todo.length
  | [], _, _, _, h => absurd h List.not_mem_nil
  | c :: todo, n, i, p, h => by
    have hstarts : startsPart delim todo = true → 0 < todo.length := by
      cases todo with
      | nil => exact fun hfalse => absurd hfalse Bool.false_ne_true
      | cons => exact fun _ => Nat.zero_lt_succ _
    unfold splitText at h
    rw [List.length_cons]
    split_ifs at h with hmax hdelim hpart
    · rcases List.mem_cons.mp h with rfl | h
      · have hpos := hstarts hpart
        omega
      · have hrest := mem_splitText h
        omega
    · have hrest := mem_splitText h
      omega
    · have hrest := mem_splitText h
      omega
    · exact absurd h List.not_mem_nil

theorem mem_splitString {delim : UInt8} {maxParts : Nat} {w : List UInt8} {p : Nat}
    (h : p ∈ (splitString delim maxParts w).2) : p < w.length := by
  cases w with
  | nil => exact absurd h List.not_mem_nil
  | cons c w =>
    simp only [splitString] at h
    rw [List.length_cons]
    split_ifs at h with hslash hw
    · exact absurd h List.not_mem_nil
    · have hpos := List.length_pos_of_ne_nil hw
      rcases List.mem_cons.mp h with rfl | h
      · omega
      · have hlt := (mem_splitText h).2
        omega
    · rcases List.mem_cons.mp h with rfl | h
      · omega
      · have hlt := (mem_splitText h).2
        rw [List.length_cons] at hlt
        omega

/-- The same strings, seen from further behind. -/
theorem stringsAt_append {done left : List UInt8} {i : Nat} {parts : List Nat}
    (h : ∀ p ∈ parts, i + done.length ≤ p) :
    stringsAt (done ++ left) i parts = stringsAt left (i + done.length) parts := by
  refine List.map_congr_left fun p hp => ?_
  have hle := h p hp
  rw [drop_behind (by omega), Nat.sub_sub]

/-- The parts of the text behind a character, seen from that character. -/
theorem stringsAt_cons (delim : UInt8) (maxParts n i : Nat) (todo : List UInt8) (c : UInt8) :
    stringsAt (c :: (splitText delim maxParts n (i + 1) todo).1) i
        (splitText delim maxParts n (i + 1) todo).2
      = stringsAt (splitText delim maxParts n (i + 1) todo).1 (i + 1)
        (splitText delim maxParts n (i + 1) todo).2 := by
  show stringsAt ([c] ++ _) i _ = _
  exact stringsAt_append fun p hp => Nat.le_of_lt (mem_splitText hp).1

section Pieces

variable {delim c : UInt8} {todo first : List UInt8} {others : List (List UInt8)}

theorem splitOn_cons_self (delim : UInt8) (todo : List UInt8) :
    (delim :: todo).splitOn delim = [] :: todo.splitOn delim := by
  rw [List.splitOn_cons_eq_if_modifyHead, if_pos (beq_self_eq_true delim)]

theorem splitOn_cons_of_ne (hc : c ≠ delim) (h : todo.splitOn delim = first :: others) :
    (c :: todo).splitOn delim = (c :: first) :: others := by
  rw [List.splitOn_cons_eq_if_modifyHead, if_neg (fun heq => hc (beq_iff_eq.mp heq)), h,
    List.modifyHead_cons]

/-- The pieces, one behind the other, are the text without its delimiters. -/
theorem flatten_splitOn : ∀ todo : List UInt8,
    (todo.splitOn delim).flatten = todo.filter (· ≠ delim)
  | [] => rfl
  | c :: todo => by
    have ih := flatten_splitOn todo
    obtain ⟨first, others, hsplit⟩ := List.exists_cons_of_ne_nil (List.splitOn_ne_nil delim todo)
    by_cases hc : c = delim
    · have hdrop : (c :: todo).filter (· ≠ delim) = todo.filter (· ≠ delim) :=
        List.filter_cons_of_neg fun h => of_decide_eq_true h hc
      rw [hdrop, hc, splitOn_cons_self, List.flatten_cons, List.nil_append, ih]
    · have hkeep : (c :: todo).filter (· ≠ delim) = c :: todo.filter (· ≠ delim) :=
        List.filter_cons_of_pos (decide_eq_true hc)
      rw [hkeep, splitOn_cons_of_ne hc hsplit, List.flatten_cons, List.cons_append,
        ← List.flatten_cons, ← hsplit, ih]

/-- The segments lie in the text. -/
theorem flatten_segments_sublist (todo : List UInt8) :
    List.Sublist (segments delim todo).flatten todo := by
  rw [segments, List.flatten_filter_ne_nil, flatten_splitOn]
  exact List.filter_sublist

theorem filter_cons_of_ne_nil (h : first ≠ []) :
    (first :: others).filter (· ≠ []) = first :: others.filter (· ≠ []) :=
  List.filter_cons_of_pos (decide_eq_true h)

/-- A text that does not end in a delimiter, without its first character. -/
theorem getLast?_ne_of_cons (h : (c :: todo).getLast? ≠ some delim) :
    todo.getLast? ≠ some delim := by
  intro hend
  rw [List.getLast?_cons, hend] at h
  exact h rfl

/-- A part begins exactly in front of a nonempty piece. -/
theorem startsPart_iff (h : todo.splitOn delim = first :: others) :
    startsPart delim todo = true ↔ first ≠ [] := by
  cases todo with
  | nil =>
    rw [List.splitOn_nil] at h
    obtain ⟨rfl, -⟩ := List.cons.inj h
    exact ⟨fun hfalse => absurd hfalse Bool.false_ne_true, fun hne => absurd rfl hne⟩
  | cons c todo =>
    rw [startsPart, decide_eq_true_eq]
    by_cases hslash : c = delim
    · rw [hslash, splitOn_cons_self] at h
      obtain ⟨rfl, -⟩ := List.cons.inj h
      exact ⟨fun hne => absurd hslash hne, fun hne => absurd rfl hne⟩
    · obtain ⟨x, xs, hx⟩ := List.exists_cons_of_ne_nil (List.splitOn_ne_nil delim todo)
      rw [splitOn_cons_of_ne hslash hx] at h
      obtain ⟨rfl, -⟩ := List.cons.inj h
      exact ⟨fun _ => List.cons_ne_nil c x, fun _ => hslash⟩

/-- A text without segments is made of delimiters. -/
theorem eq_of_segments_eq_nil (h : segments delim todo = []) : ∀ c ∈ todo, c = delim := by
  induction todo with
  | nil => exact fun _ hc => absurd hc List.not_mem_nil
  | cons c todo ih =>
    obtain ⟨first, others, hsplit⟩ := List.exists_cons_of_ne_nil (List.splitOn_ne_nil delim todo)
    by_cases hslash : c = delim
    · rw [hslash, segments, splitOn_cons_self] at h
      exact List.forall_mem_cons.mpr ⟨hslash, ih h⟩
    · rw [segments, splitOn_cons_of_ne hslash hsplit,
        filter_cons_of_ne_nil (List.cons_ne_nil c first)] at h
      nomatch h

/-- A text with no segment behind its first delimiter has no delimiter, unless it ends in one. -/
theorem delim_not_mem (h : (todo.splitOn delim).tail.filter (· ≠ []) = [])
    (hlast : todo.getLast? ≠ some delim) : delim ∉ todo := by
  induction todo with
  | nil => exact List.not_mem_nil
  | cons c todo ih =>
    obtain ⟨first, others, hsplit⟩ := List.exists_cons_of_ne_nil (List.splitOn_ne_nil delim todo)
    by_cases hslash : c = delim
    · rw [hslash, splitOn_cons_self, List.tail_cons] at h
      have hall : ∀ x ∈ c :: todo, x = delim :=
        List.forall_mem_cons.mpr ⟨hslash, eq_of_segments_eq_nil h⟩
      have hne : c :: todo ≠ [] := List.cons_ne_nil c todo
      rw [List.getLast?_eq_some_getLast hne, hall _ (List.getLast_mem hne)] at hlast
      exact absurd rfl hlast
    · rw [splitOn_cons_of_ne hslash hsplit, List.tail_cons] at h
      rw [hsplit] at ih
      exact List.not_mem_cons_of_ne_of_not_mem (Ne.symm hslash) (ih h (getLast?_ne_of_cons hlast))

end Pieces

/-- The text up to the first delimiter, and the segments behind it, when there is room for all of
    them.  The last part that fits keeps the delimiters behind it. -/
theorem splitText_segments_of_le {delim : UInt8} {maxParts : Nat} :
    ∀ {todo : List UInt8} {n i : Nat}, 0 ∉ todo →
    n + ((todo.splitOn delim).tail.filter (· ≠ [])).length ≤ maxParts →
    n + ((todo.splitOn delim).tail.filter (· ≠ [])).length < maxParts ∨
      todo.getLast? ≠ some delim →
    cString (splitText delim maxParts n i todo).1 = (todo.splitOn delim).headD [] ∧
    stringsAt (splitText delim maxParts n i todo).1 i (splitText delim maxParts n i todo).2
      = (todo.splitOn delim).tail.filter (· ≠ []) := by
  intro todo
  induction todo with
  | nil =>
    intro n i _ _ _
    rw [List.splitOn_nil]
    exact ⟨rfl, rfl⟩
  | cons c todo ih =>
    intro n i htodo hroom hlast
    by_cases hn : n < maxParts
    swap
    · -- the table is full, and no delimiter is left
      have hnil : ((c :: todo).splitOn delim).tail.filter (· ≠ []) = [] :=
        List.eq_nil_of_length_eq_zero (by omega)
      rw [hnil] at hlast
      have hend := hlast.resolve_left (by rw [List.length_nil]; omega)
      have hwhole := List.splitOn_eq_singleton (delim_not_mem hnil hend)
      rw [hwhole, splitText, if_neg hn, cString_of_not_mem htodo]
      exact ⟨rfl, rfl⟩
    obtain ⟨hc, htodo'⟩ := List.ne_and_not_mem_of_not_mem_cons htodo
    obtain ⟨first, others, hsplit⟩ := List.exists_cons_of_ne_nil (List.splitOn_ne_nil delim todo)
    unfold splitText
    rw [if_pos hn]
    by_cases hslash : c = delim
    · rw [hslash, splitOn_cons_self, List.tail_cons, hsplit] at hroom hlast
      rw [hsplit] at ih
      rw [if_pos hslash, hslash, splitOn_cons_self, List.tail_cons, hsplit]
      by_cases hpart : startsPart delim todo = true
      · -- a part begins behind the delimiter: the first piece is a segment
        have hfilter : (first :: others).filter (· ≠ []) = first :: others.filter (· ≠ []) :=
          filter_cons_of_ne_nil ((startsPart_iff hsplit).mp hpart)
        rw [hfilter, List.length_cons] at hroom hlast
        obtain ⟨hhead, htail⟩ := ih (n := n + 1) (i := i + 1) htodo'
          (by rw [List.tail_cons]; omega)
          (hlast.imp (fun h => by rw [List.tail_cons]; omega) getLast?_ne_of_cons)
        rw [if_pos hpart, hfilter]
        refine ⟨rfl, ?_⟩
        have hoffset : i + 1 - i = 1 := Nat.add_sub_cancel_left i 1
        rw [stringsAt, List.map_cons, hoffset, List.drop_succ_cons, List.drop_zero, hhead]
        exact congrArg (first :: ·) ((stringsAt_cons delim maxParts (n + 1) i todo 0).trans htail)
      · -- another delimiter follows, or the end: the first piece is empty
        have hfirst : first = [] := not_not.mp fun h => hpart ((startsPart_iff hsplit).mpr h)
        have hfilter : (first :: others).filter (· ≠ []) = others.filter (· ≠ []) := by
          rw [hfirst]
          rfl
        rw [hfilter] at hroom hlast
        obtain ⟨-, htail⟩ := ih (n := n) (i := i + 1) htodo' hroom
          (hlast.imp_right getLast?_ne_of_cons)
        rw [if_neg hpart, hfilter]
        refine ⟨rfl, ?_⟩
        rw [stringsAt_cons]
        exact htail
    · -- the character belongs to the first piece
      rw [hsplit] at ih
      rw [splitOn_cons_of_ne hslash hsplit, List.tail_cons] at hroom hlast
      rw [if_neg hslash, splitOn_cons_of_ne hslash hsplit, List.tail_cons]
      obtain ⟨hhead, htail⟩ := ih (n := n) (i := i + 1) htodo' hroom
        (hlast.imp_right getLast?_ne_of_cons)
      refine ⟨?_, ?_⟩
      · rw [cString_cons hc.symm]
        exact congrArg (c :: ·) hhead
      · rw [stringsAt_cons]
        exact htail

/-- **The parts are the segments** of the string, when it has no more than `max_parts` of them, does
    not begin with two delimiters, and does not end in one unless there is room for one part more. -/
theorem parts_splitString_of_le {delim : UInt8} {maxParts : Nat} {w : List UInt8} (h : 0 ∉ w)
    (htwo : ¬ [delim, delim] <+: w) (hroom : (segments delim w).length ≤ maxParts)
    (hlast : (segments delim w).length < maxParts ∨ w.getLast? ≠ some delim) :
    stringsAt (splitString delim maxParts w).1 0 (splitString delim maxParts w).2
      = segments delim w := by
  rcases splitString_form delim maxParts w with
    ⟨hshort, hform⟩ | ⟨done, todo, rfl, hdone, hne, hform⟩
  · rcases hshort with rfl | rfl
    · rfl
    · rw [hform, segments, splitOn_cons_self, List.splitOn_nil]
      rfl
  · have htodo : 0 ∉ todo := fun hmem => h (List.mem_append_right done hmem)
    -- the text of the loop begins with a segment, and that is the first one
    have hstarts : startsPart delim todo = true := by
      rcases hdone with ⟨-, hstarts⟩ | rfl
      · exact hstarts
      · cases todo with
        | nil => exact absurd rfl hne
        | cons x todo =>
          refine decide_eq_true fun hx => htwo ⟨todo, ?_⟩
          rw [hx]
          rfl
    have hskip : segments delim (done ++ todo) = segments delim todo := by
      rcases hdone with ⟨rfl, -⟩ | rfl
      · rfl
      · rw [segments, List.singleton_append, splitOn_cons_self]
        rfl
    obtain ⟨first, others, hsplit⟩ := List.exists_cons_of_ne_nil (List.splitOn_ne_nil delim todo)
    have hsegments : segments delim todo = first :: others.filter (· ≠ []) := by
      rw [segments, hsplit, filter_cons_of_ne_nil ((startsPart_iff hsplit).mp hstarts)]
    have htails : (segments delim todo).length
        = 1 + ((todo.splitOn delim).tail.filter (· ≠ [])).length := by
      rw [hsegments, hsplit, List.length_cons, List.tail_cons, Nat.add_comm]
    rw [hskip, htails] at hroom hlast
    rw [List.getLast?_append_of_ne_nil done hne] at hlast
    obtain ⟨hhead, htail⟩ := splitText_segments_of_le (n := 1) (i := done.length) htodo hroom hlast
    rw [hsplit] at hhead htail
    rw [hform, hskip, hsegments]
    show cString (_ : List UInt8) :: stringsAt (done ++ _) 0 _ = _
    rw [stringsAt_append fun p hp => ?_, Nat.zero_add, htail, Nat.sub_zero, List.drop_left, hhead]
    · rfl
    · rw [Nat.zero_add]
      exact Nat.le_of_lt (mem_splitText hp).1

/-- In particular, when it has fewer of them. -/
theorem parts_splitString {delim : UInt8} {maxParts : Nat} {w : List UInt8} (h : 0 ∉ w)
    (htwo : ¬ [delim, delim] <+: w) (hroom : (segments delim w).length < maxParts) :
    stringsAt (splitString delim maxParts w).1 0 (splitString delim maxParts w).2
      = segments delim w :=
  parts_splitString_of_le h htwo (Nat.le_of_lt hroom) (.inl hroom)

/-! ## The first part -/

/-- What is left of a text, as a string: up to the first delimiter. -/
theorem cString_splitText {delim : UInt8} {maxParts : Nat} : ∀ {todo : List UInt8} {n i : Nat},
    0 ∉ todo → n < maxParts →
    cString (splitText delim maxParts n i todo).1 = todo.takeWhile (· ≠ delim)
  | [], _, _, _, _ => rfl
  | c :: todo, n, i, htodo, hn => by
    obtain ⟨hc, htodo'⟩ := List.ne_and_not_mem_of_not_mem_cons htodo
    unfold splitText
    rw [if_pos hn]
    by_cases hdelim : c = delim
    · rw [if_pos hdelim, List.takeWhile_cons, if_neg (fun h => (of_decide_eq_true h : c ≠ _) hdelim)]
      split_ifs
      · rfl
      · rfl
    · rw [if_neg hdelim, List.takeWhile_cons, if_pos (decide_eq_true hdelim), cString_cons hc.symm,
        cString_splitText htodo' hn]

/-- No part begins behind the first delimiter when all that follows are delimiters. -/
theorem splitText_eq_nil_iff {delim : UInt8} {maxParts : Nat} :
    ∀ {todo : List UInt8} {n i : Nat}, n < maxParts →
    ((splitText delim maxParts n i todo).2 = [] ↔ ∀ c ∈ todo.dropWhile (· ≠ delim), c = delim)
  | [], _, _, _ => ⟨fun _ _ hc => absurd hc List.not_mem_nil, fun _ => rfl⟩
  | c :: todo, n, i, hn => by
    have ih : (splitText delim maxParts n (i + 1) todo).2 = [] ↔ _ := splitText_eq_nil_iff hn
    unfold splitText
    rw [if_pos hn]
    by_cases hdelim : c = delim
    · rw [if_pos hdelim, List.dropWhile_cons,
        if_neg (fun h => (of_decide_eq_true h : c ≠ _) hdelim),
        List.forall_mem_cons]
      cases todo with
      | nil =>
        rw [startsPart, if_neg Bool.false_ne_true]
        exact ⟨fun _ => ⟨hdelim, fun _ hc => absurd hc List.not_mem_nil⟩, fun _ => rfl⟩
      | cons x todo =>
        rw [startsPart]
        by_cases hx : x = delim
        · rw [if_neg (fun h => (of_decide_eq_true h : x ≠ _) hx), ih,
            List.dropWhile_cons, if_neg (fun h => (of_decide_eq_true h : x ≠ _) hx)]
          exact ⟨fun h => ⟨hdelim, h⟩, fun h => h.2⟩
        · rw [if_pos (decide_eq_true hx)]
          exact ⟨fun h => absurd h (List.cons_ne_nil _ _),
            fun h => absurd (h.2 x List.mem_cons_self) hx⟩
    · rw [if_neg hdelim, ih, List.dropWhile_cons, if_pos (decide_eq_true hdelim)]

/-- A word, and nothing but delimiters behind it. -/
theorem takeWhile_eq_iff {delim : UInt8} {w word : List UInt8} (hword : delim ∉ word) :
    (w.takeWhile (· ≠ delim) = word ∧ ∀ c ∈ w.dropWhile (· ≠ delim), c = delim) ↔
      ∃ k, w = word ++ List.replicate k delim := by
  constructor
  · rintro ⟨htake, hdrop⟩
    refine ⟨(w.dropWhile (· ≠ delim)).length, ?_⟩
    rw [← List.eq_replicate_of_mem hdrop, ← htake, List.takeWhile_append_dropWhile]
  · rintro ⟨k, rfl⟩
    have hpos : ∀ c ∈ word, decide (c ≠ delim) = true := by
      intro c hc
      refine decide_eq_true ?_
      rintro rfl
      exact hword hc
    have hall : ∀ c ∈ List.replicate k delim, c = delim := fun c hc => List.eq_of_mem_replicate hc
    rw [List.takeWhile_append_of_pos hpos, List.dropWhile_append_of_pos hpos]
    refine ⟨?_, fun c hc => hall c ((List.dropWhile_sublist _).subset hc)⟩
    cases k with
    | zero => exact List.append_nil word
    | succ k =>
      rw [List.replicate_succ, List.takeWhile_cons,
        if_neg (fun h => (of_decide_eq_true h : delim ≠ _) rfl), List.append_nil]

/-- A list of parts that begins with `i` has no other part when nothing is behind it. -/
theorem exists_eq_singleton_iff {i : Nat} {parts : List Nat} {P : Nat → Prop} :
    (∃ p, i :: parts = [p] ∧ P p) ↔ parts = [] ∧ P i := by
  constructor
  · rintro ⟨p, hp, hP⟩
    obtain ⟨rfl, hnil⟩ := List.cons.inj hp
    exact ⟨hnil, hP⟩
  · rintro ⟨hnil, hP⟩
    exact ⟨i, congrArg (i :: ·) hnil, hP⟩

/-- **One part** that is a given word: the string is that word, perhaps behind a delimiter, and in
    front of any number of them. -/
theorem splitString_one_part_iff {delim : UInt8} {maxParts : Nat} (hmax : 1 < maxParts)
    {w word : List UInt8} (hw : 0 ∉ w) (hne : word ≠ []) (hword : delim ∉ word) :
    (∃ p, (splitString delim maxParts w).2 = [p] ∧
        cString ((splitString delim maxParts w).1.drop p) = word) ↔
      ∃ k, w = word ++ List.replicate k delim ∨ w = delim :: (word ++ List.replicate k delim) := by
  have hhead : ∀ {k w}, delim :: w ≠ word ++ List.replicate k delim := by
    intro k w heq
    cases word with
    | nil => exact hne rfl
    | cons x word => exact hword ((List.cons.inj heq).1 ▸ List.mem_cons_self)
  -- the part, when it begins at `i`
  have hpart : ∀ {todo : List UInt8} (i : Nat), 0 ∉ todo →
      ((splitText delim maxParts 1 i todo).2 = [] ∧
          cString (splitText delim maxParts 1 i todo).1 = word ↔
        ∃ k, todo = word ++ List.replicate k delim) := by
    intro todo i htodo
    rw [splitText_eq_nil_iff hmax, cString_splitText htodo hmax, and_comm, takeWhile_eq_iff hword]
  cases w with
  | nil =>
    refine ⟨fun ⟨p, hp, _⟩ => (nomatch hp), ?_⟩
    rintro ⟨k, heq | heq⟩
    · exact absurd (List.append_eq_nil_iff.mp heq.symm).1 hne
    · nomatch heq
  | cons c w =>
    obtain ⟨hc, hw'⟩ := List.ne_and_not_mem_of_not_mem_cons hw
    by_cases hdelim : c = delim
    · subst hdelim
      simp only [hhead, false_or, List.cons.injEq, true_and]
      cases w with
      | nil =>
        simp only [splitString, if_pos]
        refine ⟨fun ⟨p, hp, _⟩ => (nomatch hp), ?_⟩
        rintro ⟨k, heq⟩
        exact absurd (List.append_eq_nil_iff.mp heq.symm).1 hne
      | cons x w =>
        rw [← hpart 1 hw', splitString, if_pos rfl, if_neg (List.cons_ne_nil x w)]
        exact exists_eq_singleton_iff
    · have hsecond : ∀ k, c :: w ≠ delim :: (word ++ List.replicate k delim) :=
        fun k heq => hdelim (List.cons.inj heq).1
      simp only [hsecond, or_false]
      rw [← hpart 0 hw, splitString, if_neg hdelim]
      exact exists_eq_singleton_iff

/-- **No part**: the empty string, or one delimiter. -/
theorem splitString_eq_nil_iff {delim : UInt8} {maxParts : Nat} {w : List UInt8} :
    (splitString delim maxParts w).2 = [] ↔ w = [] ∨ w = [delim] := by
  cases w with
  | nil => exact ⟨fun _ => .inl rfl, fun _ => rfl⟩
  | cons c w =>
    rw [splitString]
    by_cases hdelim : c = delim
    · rw [if_pos hdelim, hdelim]
      by_cases hw : w = []
      · rw [if_pos hw, hw]
        exact ⟨fun _ => .inr rfl, fun _ => rfl⟩
      · rw [if_neg hw]
        refine ⟨fun h => absurd h (List.cons_ne_nil _ _), ?_⟩
        rintro (heq | heq)
        · nomatch heq
        · exact absurd (List.cons.inj heq).2 hw
    · rw [if_neg hdelim]
      refine ⟨fun h => absurd h (List.cons_ne_nil _ _), ?_⟩
      rintro (heq | heq)
      · nomatch heq
      · exact absurd (List.cons.inj heq).1 hdelim

end MyOs.Libraries
