/-
  What `strsplit` promises for any string, and when its parts are the segments.

  1. **The frame** (`strsplit_frame`): it only turns delimiters into terminators, and the parts are
     growing offsets into the string.  A part that fills the table keeps the rest of the string,
     delimiters and all.
  2. **The segments** (`strsplit_segments_iff`): one delimiter in front of the first part is skipped,
     a second one makes an empty part; and delimiters at the end stay in a last part that fills the
     table.
-/
import MyOs.Libraries.Split

namespace MyOs.Libraries

variable {delim : UInt8} {maxParts : Nat} {rest : List UInt8}

/-! ## The frame -/

/-- A full table takes no part more. -/
theorem splitText_of_le {n : Nat} (h : maxParts ≤ n) (i : Nat) (todo : List UInt8) :
    splitText delim maxParts n i todo = (todo, []) := by
  cases todo with
  | nil => rfl
  | cons c todo => rw [splitText, if_neg (Nat.not_lt.mpr h)]

theorem length_parts_splitText : ∀ {todo : List UInt8} {n i : Nat}, n ≤ maxParts →
    n + (splitText delim maxParts n i todo).2.length ≤ maxParts
  | [], _, _, h => h
  | c :: todo, n, i, h => by
    unfold splitText
    split_ifs with hn
    · rw [List.length_cons, Nat.add_comm _ 1, ← Nat.add_assoc]
      exact length_parts_splitText hn
    · exact length_parts_splitText h
    · exact length_parts_splitText h
    · exact h

/-- The parts come in the order of the text. -/
theorem pairwise_splitText : ∀ (todo : List UInt8) (n i : Nat),
    (splitText delim maxParts n i todo).2.Pairwise (· < ·)
  | [], _, _ => List.Pairwise.nil
  | c :: todo, n, i => by
    unfold splitText
    split_ifs
    · exact List.Pairwise.cons (fun p hp => (mem_splitText hp).1) (pairwise_splitText todo _ _)
    · exact pairwise_splitText todo _ _
    · exact pairwise_splitText todo _ _
    · exact List.Pairwise.nil

/-- The text, with its terminators turned back into delimiters. -/
def restoreDelims (delim : UInt8) (left : List UInt8) : List UInt8 :=
  left.map fun c => if c = 0 then delim else c

theorem restoreDelims_of_not_mem {w : List UInt8} (h : 0 ∉ w) : restoreDelims delim w = w := by
  refine (List.map_congr_left fun c hc => if_neg ?_).trans (List.map_id w)
  rintro rfl
  exact h hc

/-- Nothing but delimiters has been overwritten. -/
theorem restoreDelims_splitText : ∀ {todo : List UInt8} (n i : Nat), 0 ∉ todo →
    restoreDelims delim (splitText delim maxParts n i todo).1 = todo
  | [], _, _, _ => rfl
  | c :: todo, n, i, htodo => by
    obtain ⟨hc, htodo'⟩ := List.ne_and_not_mem_of_not_mem_cons htodo
    have hcons : ∀ x n, (if x = 0 then delim else x) = c →
        restoreDelims delim (x :: (splitText delim maxParts n (i + 1) todo).1) = c :: todo := by
      intro x n hx
      rw [restoreDelims, List.map_cons, hx]
      exact congrArg (c :: ·) (restoreDelims_splitText n (i + 1) htodo')
    unfold splitText
    split_ifs with hn hdelim
    · exact hcons 0 _ hdelim.symm
    · exact hcons 0 _ hdelim.symm
    · exact hcons c _ (if_neg hc.symm)
    · exact restoreDelims_of_not_mem htodo

/-- The last part, or the beginning of the text when there is none. -/
theorem le_last_part (delim : UInt8) (maxParts n i : Nat) (todo : List UInt8) :
    i ≤ (splitText delim maxParts n i todo).2.getLast?.getD i := by
  cases hlast : (splitText delim maxParts n i todo).2.getLast? with
  | none => exact Nat.le_refl i
  | some p => exact Nat.le_of_lt (mem_splitText (List.mem_of_getLast? hlast)).1

/-- Reading behind the first character. -/
theorem drop_behind_cons {i p : Nat} (h : i + 1 ≤ p) (c : UInt8) (text : List UInt8) :
    (c :: text).drop (p - i) = text.drop (p - (i + 1)) := by
  have hoffset : p - i = p - (i + 1) + 1 := by omega
  rw [hoffset, List.drop_succ_cons]

/-- A part with another one behind it ends at a delimiter. -/
theorem delim_not_mem_part : ∀ {todo : List UInt8} {n i p : Nat}, 0 ∉ todo →
    p ∈ (i :: (splitText delim maxParts n i todo).2).dropLast →
    delim ∉ cString ((splitText delim maxParts n i todo).1.drop (p - i))
  | [], _, _, _, _, h => absurd h List.not_mem_nil
  | c :: todo, n, i, p, htodo, h => by
    obtain ⟨-, htodo'⟩ := List.ne_and_not_mem_of_not_mem_cons htodo
    by_cases hn : n < maxParts
    swap
    · rw [splitText_of_le (Nat.not_lt.mp hn)] at h
      exact absurd h List.not_mem_nil
    by_cases hnil : (splitText delim maxParts n i (c :: todo)).2 = []
    · rw [hnil] at h
      exact absurd h List.not_mem_nil
    rw [List.dropLast_cons_of_ne_nil hnil] at h
    rcases List.mem_cons.mp h with rfl | h
    · rw [Nat.sub_self, List.drop_zero, cString_splitText htodo hn]
      exact fun hmem => of_decide_eq_true (List.all_eq_true.mp List.all_takeWhile delim hmem) rfl
    · -- the part begins behind the first character
      have hlater : ∀ x n', p ∈ ((i + 1) :: (splitText delim maxParts n' (i + 1) todo).2).dropLast →
          delim ∉ cString ((x :: (splitText delim maxParts n' (i + 1) todo).1).drop (p - i)) := by
        intro x n' hp
        have hle : i + 1 ≤ p := by
          rcases List.mem_cons.mp (List.dropLast_subset _ hp) with rfl | hmem
          · exact Nat.le_refl _
          · exact Nat.le_of_lt (mem_splitText hmem).1
        rw [drop_behind_cons hle]
        exact delim_not_mem_part htodo' hp
      have hbehind : ∀ {q : List Nat}, p ∈ q.dropLast → p ∈ ((i + 1) :: q).dropLast := by
        intro q hp
        cases q with
        | nil => exact absurd hp List.not_mem_nil
        | cons a q => exact List.mem_cons_of_mem _ hp
      unfold splitText at h ⊢
      rw [if_pos hn] at h ⊢
      split_ifs at h ⊢ with hdelim hpart
      · exact hlater 0 _ h
      · exact hlater 0 _ (hbehind h)
      · exact hlater c _ (hbehind h)

/-- The part that fills the table keeps what follows it. -/
theorem drop_last_splitText : ∀ {todo : List UInt8} {n i : Nat},
    n + (splitText delim maxParts n i todo).2.length = maxParts →
    (splitText delim maxParts n i todo).1.drop
        ((splitText delim maxParts n i todo).2.getLast?.getD i - i)
      = todo.drop ((splitText delim maxParts n i todo).2.getLast?.getD i - i)
  | [], _, _, _ => rfl
  | c :: todo, n, i, h => by
    by_cases hn : n < maxParts
    swap
    · rw [splitText_of_le (Nat.not_lt.mp hn)]
    -- a part behind the first character
    have hlater : ∀ x n' p, i + 1 ≤ p →
        (splitText delim maxParts n' (i + 1) todo).1.drop (p - (i + 1)) = todo.drop (p - (i + 1)) →
        (x :: (splitText delim maxParts n' (i + 1) todo).1).drop (p - i)
          = (c :: todo).drop (p - i) := by
      intro x n' p hle heq
      rw [drop_behind_cons hle, drop_behind_cons hle, heq]
    -- no part begins here, and there is one
    have hsame : ∀ x, n + (splitText delim maxParts n (i + 1) todo).2.length = maxParts →
        (x :: (splitText delim maxParts n (i + 1) todo).1).drop
            ((splitText delim maxParts n (i + 1) todo).2.getLast?.getD i - i)
          = (c :: todo).drop
            ((splitText delim maxParts n (i + 1) todo).2.getLast?.getD i - i) := by
      intro x h
      obtain ⟨p, hp⟩ : ∃ p, (splitText delim maxParts n (i + 1) todo).2.getLast? = some p := by
        have hne : (splitText delim maxParts n (i + 1) todo).2 ≠ [] := by
          intro hnil
          rw [hnil, List.length_nil] at h
          omega
        exact ⟨_, List.getLast?_eq_some_getLast hne⟩
      have hrest := hlater x n _ (le_last_part delim maxParts n (i + 1) todo) (drop_last_splitText h)
      rw [hp, Option.getD_some] at hrest ⊢
      exact hrest
    unfold splitText at h ⊢
    rw [if_pos hn] at h ⊢
    split_ifs at h ⊢ with hdelim hpart
    · rw [List.length_cons, Nat.add_comm _ 1, ← Nat.add_assoc] at h
      rw [List.getLast?_cons, Option.getD_some]
      exact hlater 0 _ _ (le_last_part delim maxParts _ (i + 1) todo) (drop_last_splitText h)
    · exact hsame 0 h
    · exact hsame c h

/-- A string inside the text ends in front of the terminator of the text. -/
theorem cString_drop_terminated {left : List UInt8} {p : Nat} (h : p ≤ left.length) :
    cString ((left ++ 0 :: rest).drop p) = cString (left.drop p) := by
  rw [List.drop_append_of_le_length h]
  generalize left.drop p = text
  induction text with
  | nil => rfl
  | cons c text ih =>
    by_cases hc : c = 0
    · rw [hc]
      rfl
    · rw [List.cons_append, cString_cons hc, cString_cons hc, ih]

/-- The last part of a full table is the rest of the string as it was. -/
theorem last_part_splitString (hmax : 1 ≤ maxParts) (w : List UInt8)
    (hfull : (splitString delim maxParts w).2.length = maxParts) :
    ∃ p, (splitString delim maxParts w).2.getLast? = some p ∧
      (splitString delim maxParts w).1.drop p = w.drop p := by
  rcases splitString_form delim maxParts w with ⟨-, hform⟩ | ⟨done, todo, rfl, -, -, hform⟩
  · rw [hform] at hfull
    exact absurd hmax (Nat.not_le.mpr (hfull ▸ Nat.zero_lt_one))
  · rw [hform] at hfull ⊢
    rw [List.length_cons, Nat.add_comm] at hfull
    refine ⟨_, List.getLast?_cons, ?_⟩
    have hle := le_last_part delim maxParts 1 done.length todo
    rw [drop_behind hle, drop_behind hle, drop_last_splitText hfull]

/-- **The frame of `strsplit`.**  For every string, every delimiter and every table that is not empty
    it comes to an end, with no more parts than fit; they are growing offsets into the string.  It
    has only turned delimiters into terminators.  Every part but the last ends at a delimiter, and
    one that fills the table is the rest of the string as it was. -/
theorem strsplit_frame (delim : UInt8) (hdelim : delim ≠ 0) (maxParts : Nat)
    (hmax : 1 ≤ maxParts) (w rest : List UInt8) (hw : 0 ∉ w) :
    ∃ left parts, strsplit (w ++ 0 :: rest) delim maxParts = some (left ++ 0 :: rest, parts) ∧
      parts.length ≤ maxParts ∧ parts.Pairwise (· < ·) ∧ (∀ p ∈ parts, p < w.length) ∧
      restoreDelims delim left = w ∧
      (∀ p ∈ parts.dropLast, delim ∉ cString ((left ++ 0 :: rest).drop p)) ∧
      (parts.length = maxParts → ∀ p, parts.getLast? = some p → left.drop p = w.drop p) := by
  refine ⟨_, _, strsplit_eq_splitString hdelim maxParts hw, ?_⟩
  have hinside : ∀ p ∈ (splitString delim maxParts w).2, p < w.length := fun p => mem_splitString
  have hlength := length_splitString delim maxParts w
  have hstring : ∀ p ∈ (splitString delim maxParts w).2.dropLast,
      cString (((splitString delim maxParts w).1 ++ 0 :: rest).drop p)
        = cString ((splitString delim maxParts w).1.drop p) := by
    intro p hp
    have hlt := hinside p (List.dropLast_subset _ hp)
    exact cString_drop_terminated (by omega)
  rcases splitString_form delim maxParts w with ⟨-, hform⟩ | ⟨done, todo, rfl, -, -, hform⟩
  · rw [hform]
    exact ⟨Nat.zero_le _, List.Pairwise.nil, fun _ hp => absurd hp List.not_mem_nil,
      restoreDelims_of_not_mem hw, fun _ hp => absurd hp List.not_mem_nil, fun _ _ _ => rfl⟩
  · have hmem : ∀ {p}, p ∈ done.length :: (splitText delim maxParts 1 done.length todo).2 →
        done.length ≤ p := by
      intro p hp
      rcases List.mem_cons.mp hp with rfl | hp
      · exact Nat.le_refl _
      · exact Nat.le_of_lt (mem_splitText hp).1
    obtain ⟨hdonezero, htodo⟩ : 0 ∉ done ∧ 0 ∉ todo :=
      ⟨fun h => hw (List.mem_append_left _ h), fun h => hw (List.mem_append_right _ h)⟩
    refine ⟨?_, ?_, hinside, ?_, ?_, ?_⟩
    · rw [hform, List.length_cons, Nat.add_comm]
      exact length_parts_splitText hmax
    · rw [hform]
      exact List.Pairwise.cons (fun p hp => (mem_splitText hp).1) (pairwise_splitText todo _ _)
    · rw [hform, restoreDelims, List.map_append]
      exact congrArg₂ (· ++ ·) (restoreDelims_of_not_mem hdonezero)
        (restoreDelims_splitText 1 done.length htodo)
    · intro p hp
      rw [hstring p hp]
      rw [hform] at hp ⊢
      rw [drop_behind (hmem (List.dropLast_subset _ hp))]
      exact delim_not_mem_part htodo hp
    · intro hfull p hp
      obtain ⟨q, hq, hdrop⟩ := last_part_splitString hmax _ hfull
      rw [hq] at hp
      rwa [Option.some.inj hp] at hdrop

/-- A path with a delimiter in front, one in the middle and two at the end, in a table for two. -/
theorem strsplit_frame_path : ∃ left parts,
    strsplit [47, 97, 47, 98, 47, 47, 0] 47 2 = some (left ++ [0], parts) ∧ parts.length ≤ 2 ∧
      restoreDelims 47 left = [47, 97, 47, 98, 47, 47] := by
  obtain ⟨left, parts, heq, hcount, -, -, hrestore, -⟩ :=
    strsplit_frame 47 (by decide) 2 (by decide) [47, 97, 47, 98, 47, 47] [] (by decide)
  exact ⟨left, parts, heq, hcount, hrestore⟩

/-! ## The segments -/

/-- No piece contains the delimiter. -/
theorem delim_not_mem_of_mem_splitOn : ∀ {w piece : List UInt8}, piece ∈ w.splitOn delim →
    delim ∉ piece
  | [], piece, h => by
    rw [List.splitOn_nil, List.mem_singleton] at h
    rw [h]
    exact List.not_mem_nil
  | c :: w, piece, h => by
    obtain ⟨first, others, hsplit⟩ := List.exists_cons_of_ne_nil (List.splitOn_ne_nil delim w)
    have hrest : ∀ x ∈ first :: others, delim ∉ x := by
      rw [← hsplit]
      exact fun x => delim_not_mem_of_mem_splitOn
    by_cases hslash : c = delim
    · rw [hslash, splitOn_cons_self, hsplit] at h
      rcases List.mem_cons.mp h with rfl | h
      · exact List.not_mem_nil
      · exact hrest piece h
    · rw [splitOn_cons_of_ne hslash hsplit] at h
      rcases List.mem_cons.mp h with rfl | h
      · exact List.not_mem_cons_of_ne_of_not_mem (Ne.symm hslash) (hrest first List.mem_cons_self)
      · exact hrest piece (List.mem_cons_of_mem first h)

theorem mem_segments {w segment : List UInt8} (h : segment ∈ segments delim w) :
    segment ≠ [] ∧ delim ∉ segment := by
  obtain ⟨hmem, hne⟩ := List.mem_filter.mp h
  exact ⟨of_decide_eq_true hne, delim_not_mem_of_mem_splitOn hmem⟩

/-- Behind two delimiters the first part is empty, or begins with a delimiter. -/
theorem first_part_two_delims (maxParts : Nat) (w : List UInt8) (hw : 0 ∉ delim :: delim :: w) :
    ∃ parts, (splitString delim maxParts (delim :: delim :: w)).2 = 1 :: parts ∧
      (cString ((splitString delim maxParts (delim :: delim :: w)).1.drop 1) = [] ∨
        delim ∈ cString ((splitString delim maxParts (delim :: delim :: w)).1.drop 1)) := by
  obtain ⟨hzero, hw'⟩ := List.ne_and_not_mem_of_not_mem_cons hw
  have hform : splitString delim maxParts (delim :: delim :: w)
      = (delim :: (splitText delim maxParts 1 1 (delim :: w)).1,
          1 :: (splitText delim maxParts 1 1 (delim :: w)).2) := by
    rw [splitString, if_pos rfl, if_neg (List.cons_ne_nil delim w)]
  refine ⟨_, congrArg Prod.snd hform, ?_⟩
  rw [hform, List.drop_succ_cons, List.drop_zero]
  by_cases hroom : 1 < maxParts
  · left
    rw [cString_splitText hw' hroom, List.takeWhile_cons,
      if_neg fun h => (of_decide_eq_true h : delim ≠ delim) rfl]
  · right
    rw [splitText_of_le (Nat.not_lt.mp hroom), cString_cons hzero.symm]
    exact List.mem_cons_self

/-- **The parts are the segments** exactly when the string does not begin with two delimiters, and
    does not end in one behind a last segment that fills the table. -/
theorem strsplit_segments_iff (delim : UInt8) (hdelim : delim ≠ 0) (maxParts : Nat)
    (hmax : 1 ≤ maxParts) (w rest : List UInt8) (hw : 0 ∉ w)
    (hcount : (segments delim w).length ≤ maxParts) :
    (∃ array parts, strsplit (w ++ 0 :: rest) delim maxParts = some (array, parts) ∧
        parts.map (fun p => cString (array.drop p)) = segments delim w) ↔
      ¬ [delim, delim] <+: w ∧
        ((segments delim w).length < maxParts ∨ w.getLast? ≠ some delim) := by
  have hstrings : ∀ p ∈ (splitString delim maxParts w).2,
      cString (((splitString delim maxParts w).1 ++ 0 :: rest).drop p)
        = cString ((splitString delim maxParts w).1.drop p) := by
    intro p hp
    have hlt := mem_splitString hp
    have hlength := length_splitString delim maxParts w
    exact cString_drop_terminated (by omega)
  have hmap : (splitString delim maxParts w).2.map
        (fun p => cString (((splitString delim maxParts w).1 ++ 0 :: rest).drop p))
      = stringsAt (splitString delim maxParts w).1 0 (splitString delim maxParts w).2 :=
    List.map_congr_left hstrings
  constructor
  · rintro ⟨array, parts, heq, hparts⟩
    rw [strsplit_eq_splitString hdelim maxParts hw, Option.some.injEq, Prod.mk.injEq] at heq
    obtain ⟨rfl, rfl⟩ := heq
    rw [hmap] at hparts
    have hsegment : ∀ p ∈ (splitString delim maxParts w).2,
        cString ((splitString delim maxParts w).1.drop p) ≠ [] ∧
          delim ∉ cString ((splitString delim maxParts w).1.drop p) := by
      intro p hp
      refine mem_segments (w := w) ?_
      rw [← hparts]
      exact List.mem_map_of_mem hp
    constructor
    · rintro ⟨w', rfl⟩
      obtain ⟨parts, hfirst, hstring⟩ := first_part_two_delims maxParts w' hw
      obtain ⟨hne, hfree⟩ := hsegment 1 (by
        rw [show (splitString delim maxParts ([delim, delim] ++ w')).2 = 1 :: parts from hfirst]
        exact List.mem_cons_self)
      exact hstring.elim hne hfree
    · by_contra hboth
      obtain ⟨hfull, hend⟩ := not_or.mp hboth
      rw [not_not] at hend
      have hlen : (splitString delim maxParts w).2.length = (segments delim w).length := by
        rw [← hparts, stringsAt, List.length_map]
      have hcountfull : (splitString delim maxParts w).2.length = maxParts := by omega
      obtain ⟨p, hlast, hdrop⟩ := last_part_splitString hmax w hcountfull
      obtain ⟨-, hfree⟩ := hsegment p (List.mem_of_getLast? hlast)
      -- the last part runs up to the last delimiter
      have hrun : cString (w.drop p) = w.drop p :=
        cString_of_not_mem fun hmem => hw (List.mem_of_mem_drop hmem)
      have hlt := mem_splitString (List.mem_of_getLast? hlast)
      rw [hdrop, hrun] at hfree
      refine hfree (List.mem_of_getLast? ?_)
      rw [List.getLast?_drop, if_neg (Nat.not_le.mpr hlt)]
      exact hend
  · rintro ⟨htwo, hlast⟩
    refine ⟨_, _, strsplit_eq_splitString hdelim maxParts hw, ?_⟩
    rw [hmap]
    exact parts_splitString_of_le hw htwo hcount hlast

/-- The segments of "/iso/doom" in a table for two parts. -/
theorem strsplit_segments_iff_path :
    ∃ array parts, strsplit [47, 105, 115, 111, 47, 100, 111, 111, 109, 0] 47 2 = some (array, parts)
      ∧ parts.map (fun p => cString (array.drop p)) = [[105, 115, 111], [100, 111, 111, 109]] :=
  (strsplit_segments_iff 47 (by decide) 2 (by decide)
    [47, 105, 115, 111, 47, 100, 111, 111, 109] [] (by decide) (by decide)).mpr
    ⟨by decide, .inr (by decide)⟩

/-- The first of the two parts of "//a" is empty. -/
theorem not_strsplit_segments :
    ¬ ∀ (delim : UInt8) (maxParts : Nat) (w rest : List UInt8), delim ≠ 0 → 1 ≤ maxParts → 0 ∉ w →
      (segments delim w).length ≤ maxParts →
      ∃ array parts, strsplit (w ++ 0 :: rest) delim maxParts = some (array, parts) ∧
        parts.map (fun p => cString (array.drop p)) = segments delim w := by
  intro h
  obtain ⟨array, parts, heq, hparts⟩ := h 47 20 [47, 47, 97] [] (by decide) (by decide) (by decide)
    (by decide)
  have hsplit : strsplit [47, 47, 97, 0] 47 20 = some ([47, 0, 97, 0], [1, 2]) := by decide
  obtain ⟨rfl, rfl⟩ := Prod.mk.inj (Option.some.inj (hsplit.symm.trans heq))
  exact absurd hparts (by decide)

end MyOs.Libraries
