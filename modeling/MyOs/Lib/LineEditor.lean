/-
  A line editor: characters come one by one, `back` takes the last one of the line away, `enter`
  completes the line and begins the next.

  * `edited`        : the line that a list of characters types;
  * `Settled`       : whether its last character took something away;
  * `completed`     : the lists of characters between one `enter` and the next;
  * `completed_iff` : a machine that reads characters one by one and reports something about each
    completed line reports what it should about all of them, if and only if all of them are of the
    kind it gets right.  The hypotheses are about one character at a time.
-/
import Mathlib.Data.List.Induction
import Mathlib.Data.List.Infix

namespace MyOs.Lib.LineEditor

variable {α : Type*}

/-! ## Editing one line -/

section Editing

variable (back : α)

/-- One character: `back` takes the last one away, every other one is appended. -/
def edit [DecidableEq α] (line : List α) (c : α) : List α :=
  if c = back then line.dropLast else line ++ [c]

/-- The line that `w` types. -/
def edited [DecidableEq α] (w : List α) : List α := w.foldl (edit back) []

/-- `w` ends with a character of the line, or there never was one. -/
def Settled (w : List α) : Prop := (∀ c ∈ w, c = back) ∨ w.getLast? ≠ some back

instance [DecidableEq α] (w : List α) : Decidable (Settled back w) :=
  inferInstanceAs (Decidable (_ ∨ _))

variable {back} {w : List α} {c : α}

theorem settled_nil : Settled back ([] : List α) := .inl fun _ h => (nomatch h)

theorem settled_concat (h : c ≠ back) : Settled back (w ++ [c]) := by
  refine .inr ?_
  rw [List.getLast?_concat]
  exact fun heq => h (Option.some.inj heq)

theorem settled_concat_back : Settled back (w ++ [back]) ↔ ∀ c ∈ w, c = back := by
  constructor
  · rintro (hall | hlast)
    · exact fun c hc => hall c (List.mem_append_left _ hc)
    · exact absurd List.getLast?_concat hlast
  · intro hall
    refine .inl fun c hc => ?_
    rw [List.mem_append, List.mem_singleton] at hc
    exact hc.elim (hall c) id

variable [DecidableEq α]

theorem edited_concat_back : edited back (w ++ [back]) = (edited back w).dropLast := by
  rw [edited, List.foldl_concat, edit, if_pos rfl]
  rfl

theorem edited_concat (h : c ≠ back) : edited back (w ++ [c]) = edited back w ++ [c] := by
  rw [edited, List.foldl_concat, edit, if_neg h]
  rfl

/-- The line consists of ordinary characters that were typed. -/
theorem of_mem_edited : ∀ c ∈ edited back w, c ∈ w ∧ c ≠ back := by
  induction w using List.reverseRecOn with
  | nil => intro c hc; exact (nomatch hc)
  | append_singleton w b ih =>
    intro c hc
    rcases eq_or_ne b back with rfl | hb
    · rw [edited_concat_back] at hc
      obtain ⟨hmem, hne⟩ := ih c (List.mem_of_mem_dropLast hc)
      exact ⟨List.mem_append_left _ hmem, hne⟩
    · rw [edited_concat hb, List.mem_append, List.mem_singleton] at hc
      rcases hc with hold | rfl
      · obtain ⟨hmem, hne⟩ := ih c hold
        exact ⟨List.mem_append_left _ hmem, hne⟩
      · exact ⟨List.mem_append_right _ List.mem_cons_self, hb⟩

/-- Taking away a character unsettles the line. -/
theorem not_settled_concat_back (h : edited back w ≠ []) : ¬ Settled back (w ++ [back]) := by
  intro hsettled
  obtain ⟨c, hc⟩ := List.exists_mem_of_ne_nil _ h
  obtain ⟨hmem, hne⟩ := of_mem_edited c hc
  exact hne (settled_concat_back.mp hsettled c hmem)

/-- Taking nothing away leaves it as it is. -/
theorem settled_concat_back_iff (h : edited back w = []) :
    Settled back (w ++ [back]) ↔ Settled back w := by
  rw [settled_concat_back]
  refine ⟨.inl, ?_⟩
  rintro (hall | hlast)
  · exact hall
  · rcases List.eq_nil_or_concat' w with rfl | ⟨w', b, rfl⟩
    · exact fun _ hc => (nomatch hc)
    · have hb : b ≠ back := by
        rintro rfl
        exact hlast List.getLast?_concat
      rw [edited_concat hb] at h
      exact absurd h (List.append_ne_nil_of_right_ne_nil _ (List.cons_ne_nil b []))

end Editing

/-! ## Lines -/

section Lines

variable [DecidableEq α] (enter : α)

/-- The unfinished line after one more character. -/
def advance (w : List α) (c : α) : List α := if c = enter then [] else w ++ [c]

/-- The characters since the last `enter`, when `w` came before `cs`. -/
def current (w cs : List α) : List α := cs.foldl (advance enter) w

/-- The lines that `cs` completes, the first of them begun with `w`. -/
def completed : List α → List α → List (List α)
  | _, [] => []
  | w, c :: cs => if c = enter then w :: completed [] cs else completed (w ++ [c]) cs

variable {enter} {w cs : List α} {c : α}

theorem completed_enter : completed enter w (enter :: cs) = w :: completed enter [] cs := by
  rw [completed, if_pos rfl]

theorem completed_cons (h : c ≠ enter) :
    completed enter w (c :: cs) = completed enter (w ++ [c]) cs := by
  rw [completed, if_neg h]

/-- More characters complete more lines. -/
theorem completed_append (cs cs' : List α) (w : List α) :
    completed enter w cs <+: completed enter w (cs ++ cs') := by
  induction cs generalizing w with
  | nil => exact List.nil_prefix
  | cons c cs ih =>
    rw [List.cons_append]
    rcases eq_or_ne c enter with rfl | hc
    · rw [completed_enter, completed_enter]
      exact List.cons_prefix_cons.mpr ⟨rfl, ih []⟩
    · rw [completed_cons hc, completed_cons hc]
      exact ih (w ++ [c])

theorem of_mem_current : ∀ c ∈ current enter w cs, c ∈ w ∨ c ∈ cs := by
  induction cs generalizing w with
  | nil => exact fun c hc => .inl hc
  | cons b cs ih =>
    intro c hc
    rcases ih c hc with hadvance | hcs
    · unfold advance at hadvance
      split at hadvance
      · exact (nomatch hadvance)
      · rw [List.mem_append, List.mem_singleton] at hadvance
        rcases hadvance with hw | rfl
        · exact .inl hw
        · exact .inr List.mem_cons_self
    · exact .inr (List.mem_cons_of_mem b hcs)

/-- What holds of the unfinished line at any time holds of it from the next character on. -/
theorem current_prefix_cons {P : List α → Prop}
    (h : ∀ pre, pre <+: c :: cs → P (current enter w pre)) :
    ∀ pre, pre <+: cs → P (current enter (advance enter w c) pre) :=
  fun pre hpre => h (c :: pre) (List.cons_prefix_cons.mpr ⟨rfl, hpre⟩)

end Lines

/-! ## Machines that read characters -/

section Machines

variable {σ β γ : Type*}

/-- All the characters of `cs`, with the events of each, oldest first. -/
def feed (step : σ → α → Option (σ × List β)) : σ → List α → Option (σ × List β)
  | s, [] => some (s, [])
  | s, c :: cs => do
    let (s', out) ← step s c
    let (s'', outs) ← feed step s' cs
    some (s'', out ++ outs)

variable {step : σ → α → Option (σ × List β)} {s s' : σ} {c : α} {cs : List α} {out : List β}

theorem feed_cons (h : step s c = some (s', out)) :
    feed step s (c :: cs) = (feed step s' cs).map fun r => (r.1, out ++ r.2) := by
  simp only [feed, h, Option.bind_eq_bind, Option.bind_some, Option.map_eq_bind]
  rfl

/-- **Completed lines**: `report` is what the machine says about a completed line, `expected` what
    it should say.  When each character keeps `Inv`, and each `enter` reports the expected value if
    and only if the line is `Good`, then the reports are the expected ones if and only if all
    completed lines are `Good`. -/
theorem completed_iff [DecidableEq α] {enter : α} (Inv : σ → List α → Prop)
    (Fits : List α → Prop) {Good : List α → Prop} {report : β → Option γ} {expected : List α → γ}
    (hchar : ∀ s w c, c ≠ enter → Inv s w → Fits (w ++ [c]) →
      ∃ s' out, step s c = some (s', out) ∧ out.filterMap report = [] ∧ Inv s' (w ++ [c]))
    (henter : ∀ s w, Inv s w → Fits w →
      ∃ s' out x, step s enter = some (s', out) ∧ out.filterMap report = [x] ∧
        (x = expected w ↔ Good w) ∧ (Good w → Inv s' []))
    {s : σ} {w cs : List α} (hinv : Inv s w)
    (hfits : ∀ pre, pre <+: cs → Fits (current enter w pre)) :
    (∃ s' outs, feed step s cs = some (s', outs) ∧
      outs.filterMap report = (completed enter w cs).map expected) ↔
    ∀ l ∈ completed enter w cs, Good l := by
  induction cs generalizing s w with
  | nil => exact ⟨fun _ _ hl => (nomatch hl), fun _ => ⟨s, [], rfl, rfl⟩⟩
  | cons c cs ih =>
    have hrest := current_prefix_cons hfits
    rcases eq_or_ne c enter with rfl | hc
    · -- a line is reported; it is the expected one exactly when it is good, and then the
      -- machine stands in front of an empty line
      obtain ⟨s', out, x, hstep, hreport, hgood, hnext⟩ :=
        henter s w hinv (hfits [] List.nil_prefix)
      rw [advance, if_pos rfl] at hrest
      rw [feed_cons hstep, completed_enter, List.map_cons, List.forall_mem_cons]
      constructor
      · rintro ⟨s'', outs, hfeed, houts⟩
        obtain ⟨⟨t, outs'⟩, hfeed', heq⟩ := Option.map_eq_some_iff.mp hfeed
        obtain ⟨rfl, rfl⟩ := Prod.mk.inj heq
        rw [List.filterMap_append, hreport, List.singleton_append] at houts
        obtain ⟨hx, houts'⟩ := List.cons.inj houts
        have hw := hgood.mp hx
        exact ⟨hw, (ih (hnext hw) hrest).mp ⟨t, outs', hfeed', houts'⟩⟩
      · rintro ⟨hw, hall⟩
        obtain ⟨t, outs', hfeed', houts'⟩ := (ih (hnext hw) hrest).mpr hall
        refine ⟨t, out ++ outs', by rw [hfeed']; rfl, ?_⟩
        rw [List.filterMap_append, hreport, houts', hgood.mpr hw, List.singleton_append]
    · -- nothing is reported, and the line is longer by one character
      have hfit : Fits (w ++ [c]) := by
        have hone := hfits [c] (List.cons_prefix_cons.mpr ⟨rfl, List.nil_prefix⟩)
        rwa [current, List.foldl_cons, advance, if_neg hc] at hone
      obtain ⟨s', out, hstep, hreport, hinv'⟩ := hchar s w c hc hinv hfit
      rw [advance, if_neg hc] at hrest
      rw [feed_cons hstep, completed_cons hc, ← ih hinv' hrest]
      constructor
      · rintro ⟨s'', outs, hfeed, houts⟩
        obtain ⟨⟨t, outs'⟩, hfeed', heq⟩ := Option.map_eq_some_iff.mp hfeed
        obtain ⟨rfl, rfl⟩ := Prod.mk.inj heq
        rw [List.filterMap_append, hreport, List.nil_append] at houts
        exact ⟨t, outs', hfeed', houts⟩
      · rintro ⟨t, outs', hfeed', houts'⟩
        refine ⟨t, out ++ outs', by rw [hfeed']; rfl, ?_⟩
        rw [List.filterMap_append, hreport, houts', List.nil_append]

end Machines

end MyOs.Lib.LineEditor
