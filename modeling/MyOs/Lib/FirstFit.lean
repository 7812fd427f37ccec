/-
  First-fit allocation, as a transition system over the set of free cells.

  An allocator owns a set of cells, ordered by their address.  A request for a cell takes the
  LEAST free cell at or above a fixed floor `lo`; cells are released and reserved one at a time.
  Nothing here says how the set is stored: a bitmap, a free list or a tree refines `Step` once
  and gets the theorems about whole runs.

  * `Run.released_between`   : a cell handed out twice was released in between;
  * `Run.handed_increasing`  : with no release in between the handed-out cells increase;
  * `Run.handed_mem`, `Run.handed_or_reserved` : and they are exactly the cells that were free;
  * `Allocs.all_below_iff`   : `n` requests are all served below a bound exactly when at least
    `n` free cells lie between the floor and the bound.
-/
import Mathlib.Order.Bounds.Basic
import Mathlib.Data.Finset.Card
import Mathlib.Order.Interval.Set.Defs

namespace MyOs.Lib.FirstFit

/-! ## The transition system -/

/-- What a client asks of the allocator. -/
inductive Op (α : Type*) where
  /-- One cell, whichever is first. -/
  | alloc
  /-- Give the cell back. -/
  | release (a : α)
  /-- Take this very cell. -/
  | reserve (a : α)

section Events

variable {α : Type*}

/-- The cells a run handed out, in order. -/
def handed (evs : List (Op α × Option α)) : List α := evs.filterMap Prod.snd

/-- No request of the run gives a cell back. -/
def NoRelease (evs : List (Op α × Option α)) : Prop := ∀ a out, (Op.release a, out) ∉ evs

theorem NoRelease.tail {e : Op α × Option α} {evs : List (Op α × Option α)}
    (h : NoRelease (e :: evs)) : NoRelease evs :=
  fun a out hm => h a out (List.mem_cons_of_mem e hm)

theorem mem_handed {evs : List (Op α × Option α)} {a : α} :
    a ∈ handed evs ↔ ∃ op, (op, some a) ∈ evs := by
  simp [handed]

theorem noRelease_allocs (outs : List (Option α)) :
    NoRelease (outs.map fun o => (Op.alloc, o)) := by
  intro a out hm
  obtain ⟨o, -, ho⟩ := List.mem_map.mp hm
  nomatch ho

theorem handed_allocs (outs : List (Option α)) :
    handed (outs.map fun o => (Op.alloc, o)) = outs.filterMap id := by
  rw [handed, List.filterMap_map]
  rfl

/-- The served cells are as many as the answers when every answer is a cell. -/
theorem length_filterMap_of_all_some {outs : List (Option α)} (h : none ∉ outs) :
    (outs.filterMap id).length = outs.length := by
  induction outs with
  | nil => rfl
  | cons o outs ih =>
    cases o with
    | none => exact absurd List.mem_cons_self h
    | some a =>
      show (outs.filterMap id).length + 1 = outs.length + 1
      rw [ih (fun hm => h (List.mem_cons_of_mem _ hm))]

end Events

variable {α : Type*} [LinearOrder α]

/-- `Step lo free op out free'`: the request `op` on the free cells `free` answers `out` (a cell,
    for a served `alloc`) and leaves the free cells `free'`. -/
inductive Step (lo : α) : Set α → Op α → Option α → Set α → Prop where
  | take {free : Set α} {a : α} (h : IsLeast (free ∩ Set.Ici lo) a) :
      Step lo free .alloc (some a) (free \ {a})
  | fail {free : Set α} (h : free ∩ Set.Ici lo = ∅) : Step lo free .alloc none free
  | release {free : Set α} (a : α) : Step lo free (.release a) none (insert a free)
  | reserve {free : Set α} (a : α) : Step lo free (.reserve a) none (free \ {a})

/-- A run: requests with their answers, oldest first. -/
inductive Run (lo : α) : Set α → List (Op α × Option α) → Set α → Prop where
  | nil {free : Set α} : Run lo free [] free
  | cons {free mid free' : Set α} {op : Op α} {out : Option α} {evs : List (Op α × Option α)}
      (h : Step lo free op out mid) (t : Run lo mid evs free') :
      Run lo free ((op, out) :: evs) free'

theorem Run.split {lo : α} {pre post : List (Op α × Option α)} :
    ∀ {free free' : Set α}, Run lo free (pre ++ post) free' →
      ∃ mid, Run lo free pre mid ∧ Run lo mid post free' := by
  induction pre with
  | nil => intro free free' h; exact ⟨free, .nil, h⟩
  | cons e pre ih =>
    intro free free' h
    cases h with
    | cons hstep ht =>
      obtain ⟨mid, h1, h2⟩ := ih ht
      exact ⟨mid, .cons hstep h1, h2⟩

/-! ## What one step can do -/

/-- A served cell was free, is at or above the floor, was the least such, and is free no more. -/
theorem Step.of_some {lo : α} {free free' : Set α} {op : Op α} {a : α}
    (h : Step lo free op (some a) free') :
    IsLeast (free ∩ Set.Ici lo) a ∧ free' = free \ {a} := by
  cases h with
  | take h => exact ⟨h, rfl⟩

/-- A cell becomes free only by its release. -/
theorem Step.mem_of_mem_after {lo : α} {free free' : Set α} {op : Op α} {out : Option α} {a : α}
    (h : Step lo free op out free') (ha : a ∈ free') : a ∈ free ∨ op = .release a := by
  cases h with
  | take h => exact Or.inl ha.1
  | fail h => exact Or.inl ha
  | release b =>
    rcases ha with rfl | ha
    · exact Or.inr rfl
    · exact Or.inl ha
  | reserve b => exact Or.inl ha.1

/-- A cell stops being free only by being served or reserved. -/
theorem Step.not_mem_after {lo : α} {free free' : Set α} {op : Op α} {out : Option α} {a : α}
    (h : Step lo free op out free') (ha : a ∈ free) (ha' : a ∉ free') :
    out = some a ∨ op = .reserve a := by
  cases h with
  | @take b h =>
    by_cases hab : a = b
    · exact Or.inl (by rw [hab])
    · exact absurd ⟨ha, hab⟩ ha'
  | fail h => exact absurd ha ha'
  | release b => exact absurd (Or.inr ha) ha'
  | reserve b =>
    by_cases hab : a = b
    · exact Or.inr (by rw [hab])
    · exact absurd ⟨ha, hab⟩ ha'

/-- What an answer says about the cells that are left: none below it. -/
theorem blocked_of_step {lo a : α} {mid mid' : Set α} (h : Step lo mid .alloc (some a) mid') :
    ∀ x ∈ mid, lo ≤ x → a ≤ x :=
  fun _ hx hlo => h.of_some.1.2 ⟨hx, hlo⟩

theorem not_mem_of_refused {lo : α} {mid mid' : Set α} (h : Step lo mid .alloc none mid') :
    ∀ x ∈ mid, ¬ lo ≤ x := by
  intro x hx hlo
  cases h with
  | fail hempty =>
    have hmem : x ∈ mid ∩ Set.Ici lo := ⟨hx, hlo⟩
    rw [hempty] at hmem
    exact hmem

/-! ## What a run can do -/

theorem Run.mem_of_mem_after {lo : α} {free free' : Set α} {evs : List (Op α × Option α)} {a : α}
    (h : Run lo free evs free') (ha : a ∈ free') :
    a ∈ free ∨ ∃ out, (Op.release a, out) ∈ evs := by
  induction h with
  | nil => exact Or.inl ha
  | @cons _ _ _ op out evs hstep _ ih =>
    rcases ih ha with hmid | ⟨o, ho⟩
    · rcases hstep.mem_of_mem_after hmid with h0 | rfl
      · exact Or.inl h0
      · exact Or.inr ⟨out, List.mem_cons_self⟩
    · exact Or.inr ⟨o, List.mem_cons_of_mem _ ho⟩

/-- **No cell is handed out twice** unless it was released in between. -/
theorem Run.released_between {lo : α} {free free' : Set α} {op op' : Op α} {a : α}
    {mid post : List (Op α × Option α)}
    (h : Run lo free ((op, some a) :: mid ++ (op', some a) :: post) free') :
    ∃ out, (Op.release a, out) ∈ mid := by
  cases h with
  | cons hfirst ht =>
    obtain ⟨s, hmid, hrest⟩ := ht.split
    cases hrest with
    | cons hsecond _ =>
      obtain ⟨-, rfl⟩ := hfirst.of_some
      have hfree : a ∈ s := hsecond.of_some.1.1.1
      rcases hmid.mem_of_mem_after hfree with hback | hrel
      · exact absurd rfl hback.2
      · exact hrel

/-- With no release, a served cell was free when the run began. -/
theorem Run.handed_mem {lo : α} {free free' : Set α} {evs : List (Op α × Option α)}
    (h : Run lo free evs free') (hno : NoRelease evs) :
    ∀ a ∈ handed evs, a ∈ free ∧ lo ≤ a := by
  induction h with
  | nil => intro a ha; nomatch ha
  | @cons free mid free' op out evs hstep ht ih =>
    intro a ha
    obtain ⟨op', hmem⟩ := mem_handed.mp ha
    rcases List.mem_cons.mp hmem with heq | hmem
    · obtain ⟨rfl, rfl⟩ := Prod.mk.inj heq
      exact ⟨hstep.of_some.1.1.1, hstep.of_some.1.1.2⟩
    · obtain ⟨hamid, hlo⟩ := ih hno.tail a (mem_handed.mpr ⟨op', hmem⟩)
      rcases hstep.mem_of_mem_after hamid with h0 | rfl
      · exact ⟨h0, hlo⟩
      · exact absurd List.mem_cons_self (hno a out)

/-- **With no release the served cells strictly increase**: each is the least free one, and the
    later ones were free all along. -/
theorem Run.handed_increasing {lo : α} {free free' : Set α} {evs : List (Op α × Option α)}
    (h : Run lo free evs free') (hno : NoRelease evs) : (handed evs).Pairwise (· < ·) := by
  induction h with
  | nil => exact .nil
  | @cons free mid free' op out evs hstep ht ih =>
    cases out with
    | none => exact ih hno.tail
    | some a =>
      obtain ⟨hleast, rfl⟩ := hstep.of_some
      refine List.pairwise_cons.mpr ⟨fun b hb => ?_, ih hno.tail⟩
      obtain ⟨⟨hbfree, hba⟩, hblo⟩ := ht.handed_mem hno.tail b hb
      exact lt_of_le_of_ne (hleast.2 ⟨hbfree, hblo⟩) (fun hab => hba hab.symm)

/-- A cell that was free and is free no more was served or reserved. -/
theorem Run.handed_or_reserved {lo : α} {free free' : Set α} {evs : List (Op α × Option α)} {a : α}
    (h : Run lo free evs free') (ha : a ∈ free) (ha' : a ∉ free') :
    a ∈ handed evs ∨ ∃ out, (Op.reserve a, out) ∈ evs := by
  induction h with
  | nil => exact absurd ha ha'
  | @cons free mid free' op out evs hstep ht ih =>
    by_cases hmid : a ∈ mid
    · rcases ih hmid ha' with hh | ⟨o, ho⟩
      · obtain ⟨op', hmem⟩ := mem_handed.mp hh
        exact Or.inl (mem_handed.mpr ⟨op', List.mem_cons_of_mem _ hmem⟩)
      · exact Or.inr ⟨o, List.mem_cons_of_mem _ ho⟩
    · rcases hstep.not_mem_after ha hmid with rfl | rfl
      · exact Or.inl (mem_handed.mpr ⟨op, List.mem_cons_self⟩)
      · exact Or.inr ⟨out, List.mem_cons_self⟩

/-- **The first refusal**: when a request is refused after a run with no release, every cell that
    was free at or above the floor was served or reserved before it. -/
theorem Run.exhausted {lo : α} {free free' free'' : Set α} {evs : List (Op α × Option α)}
    (h : Run lo free evs free') (hfail : Step lo free' .alloc none free'') :
    ∀ a ∈ free, lo ≤ a → a ∈ handed evs ∨ ∃ out, (Op.reserve a, out) ∈ evs := by
  intro a ha hlo
  refine h.handed_or_reserved ha (fun ha' => ?_)
  cases hfail with
  | fail hempty =>
    have hmem : a ∈ free' ∩ Set.Ici lo := ⟨ha', hlo⟩
    rw [hempty] at hmem
    exact hmem

/-! ## Requests for cells only -/

/-- `outs` answers that many `alloc` requests in a row. -/
def Allocs (lo : α) (free : Set α) (outs : List (Option α)) (free' : Set α) : Prop :=
  Run lo free (outs.map fun o => (Op.alloc, o)) free'

/-- The run of allocations up to one chosen answer. -/
theorem Allocs.split {lo : α} {free free' : Set α} {pre post : List (Option α)} {o : Option α}
    (h : Allocs lo free (pre ++ o :: post) free') :
    ∃ mid mid', Allocs lo free pre mid ∧ Step lo mid .alloc o mid' ∧ Allocs lo mid' post free' := by
  rw [Allocs, List.map_append, List.map_cons] at h
  obtain ⟨mid, hpre, hrest⟩ := h.split
  cases hrest with
  | cons hstep hpost => exact ⟨mid, _, hpre, hstep, hpost⟩

/-- A free cell at or above the floor stays free until it is served. -/
theorem Allocs.mem_of_not_served {lo : α} {free free' : Set α} {outs : List (Option α)} {a : α}
    (h : Allocs lo free outs free') (ha : a ∈ free) (hout : some a ∉ outs) : a ∈ free' := by
  by_contra ha'
  rcases Run.handed_or_reserved h ha ha' with hh | ⟨o, ho⟩
  · rw [handed_allocs] at hh
    obtain ⟨o, ho, heq⟩ := List.mem_filterMap.mp hh
    exact hout (heq ▸ ho)
  · obtain ⟨o', -, ho'⟩ := List.mem_map.mp ho
    nomatch ho'

/-- Allocations free nothing. -/
theorem Allocs.mem_of_mem_after {lo : α} {free free' : Set α} {outs : List (Option α)} {a : α}
    (h : Allocs lo free outs free') (ha : a ∈ free') : a ∈ free := by
  rcases Run.mem_of_mem_after h ha with hfree | ⟨out, hrel⟩
  · exact hfree
  · exact absurd hrel (noRelease_allocs outs a out)

/-- A cell that was served is free no more. -/
theorem Allocs.not_mem_of_served {lo : α} {free free' : Set α} {outs : List (Option α)} {a : α}
    (h : Allocs lo free outs free') (hout : some a ∈ outs) : a ∉ free' := by
  obtain ⟨pre, post, rfl⟩ := List.append_of_mem hout
  obtain ⟨mid, mid', -, hstep, hpost⟩ := h.split
  intro hmem
  have hmid' := hpost.mem_of_mem_after hmem
  rw [hstep.of_some.2] at hmid'
  exact hmid'.2 rfl

/-- The answers that are cells lie among the eligible free cells. -/
theorem Allocs.served_mem {lo : α} {free free' : Set α} {outs : List (Option α)} {a : α}
    (h : Allocs lo free outs free') (ha : some a ∈ outs) : a ∈ free ∧ lo ≤ a := by
  refine Run.handed_mem h (noRelease_allocs outs) a ?_
  rw [handed_allocs]
  exact List.mem_filterMap.mpr ⟨some a, ha, rfl⟩

/-- The served cells, in the order of the answers, strictly increase. -/
theorem Allocs.increasing {lo : α} {free free' : Set α} {outs : List (Option α)}
    (h : Allocs lo free outs free') : (outs.filterMap id).Pairwise (· < ·) := by
  rw [← handed_allocs]
  exact Run.handed_increasing h (noRelease_allocs outs)

/-- A served request follows only served ones, with smaller cells: after a refusal all requests
    are refused. -/
theorem Allocs.pairwise {lo : α} : ∀ {outs : List (Option α)} {free free' : Set α},
    Allocs lo free outs free' →
      outs.Pairwise fun o o' => ∀ b, o' = some b → ∃ a, o = some a ∧ a < b
  | [], _, _, _ => .nil
  | o :: outs, free, free', .cons hstep hrest => by
    have hrest : Allocs lo _ outs free' := hrest
    refine List.pairwise_cons.mpr ⟨?_, hrest.pairwise⟩
    rintro o' ho' b rfl
    obtain ⟨hb, hlo⟩ := hrest.served_mem ho'
    cases hstep with
    | fail hempty => exact absurd hlo (not_mem_of_refused (.fail hempty) b hb)
    | @take a hleast =>
      exact ⟨a, rfl, lt_of_le_of_ne (hleast.2 ⟨hb.1, hlo⟩) (fun hab => hb.2 hab.symm)⟩

/-- Cells that were free and are left no more were served, one answer each. -/
theorem Allocs.card_le_of_gone {lo : α} {free mid : Set α} {outs : List (Option α)}
    {cells : Finset α} (h : Allocs lo free outs mid) (hfree : ∀ a ∈ cells, a ∈ free)
    (hgone : ∀ a ∈ cells, a ∉ mid) : cells.card ≤ outs.length := by
  have hsub : cells ⊆ (outs.filterMap id).toFinset := by
    intro a ha
    rw [List.mem_toFinset]
    by_contra hout
    exact hgone a ha (h.mem_of_not_served (hfree a ha)
      (fun hs => hout (List.mem_filterMap.mpr ⟨some a, hs, rfl⟩)))
  calc cells.card ≤ (outs.filterMap id).toFinset.card := Finset.card_le_card hsub
    _ ≤ (outs.filterMap id).length := List.toFinset_card_le _
    _ ≤ outs.length := List.length_filterMap_le _ _

/-- When every answer is a cell below `B`, there were as many cells below `B` as requests. -/
theorem Allocs.length_le_card {lo : α} {free free' : Set α} {outs : List (Option α)}
    {cells : Finset α} (h : Allocs lo free outs free') (hnone : none ∉ outs)
    (hcells : ∀ a, some a ∈ outs → a ∈ cells) : outs.length ≤ cells.card := by
  have hnodup : (outs.filterMap id).Nodup := h.increasing.imp (fun hab => ne_of_lt hab)
  rw [← length_filterMap_of_all_some hnone, ← List.toFinset_card_of_nodup hnodup]
  apply Finset.card_le_card
  intro a ha
  rw [List.mem_toFinset] at ha
  obtain ⟨o, ho, rfl⟩ := List.mem_filterMap.mp ha
  exact hcells a ho

/-- **Counting**: all requests are served with cells below `B` exactly when there were at least
    that many eligible cells below `B`. -/
theorem Allocs.all_below_iff {lo B : α} {free free' : Set α} {outs : List (Option α)}
    {cells : Finset α} (hcells : ∀ a, a ∈ cells ↔ a ∈ free ∧ lo ≤ a ∧ a < B)
    (h : Allocs lo free outs free') :
    (∀ o ∈ outs, ∃ a, o = some a ∧ a < B) ↔ outs.length ≤ cells.card := by
  constructor
  · intro hall
    refine h.length_le_card (fun hn => ?_) (fun a ha => ?_)
    · obtain ⟨a, hc, -⟩ := hall none hn
      nomatch hc
    · obtain ⟨b, hb, hlt⟩ := hall (some a) ha
      obtain rfl := Option.some.inj hb
      obtain ⟨hfree, hlo⟩ := h.served_mem ha
      exact (hcells a).mpr ⟨hfree, hlo, hlt⟩
  · intro hcard o ho
    obtain ⟨pre, post, rfl⟩ := List.append_of_mem ho
    obtain ⟨mid, mid', hpre, hstep, -⟩ := h.split
    by_contra hbad
    have hblocked : ∀ a ∈ mid, lo ≤ a → B ≤ a := by
      intro x hx hlo
      cases o with
      | none => exact absurd hlo (not_mem_of_refused hstep x hx)
      | some a =>
        have haB : B ≤ a := not_lt.mp (fun hlt => hbad ⟨a, rfl, hlt⟩)
        exact le_trans haB (blocked_of_step hstep x hx hlo)
    have hle := hpre.card_le_of_gone (fun a ha => ((hcells a).mp ha).1) (fun a ha hmid =>
      absurd (hblocked a hmid ((hcells a).mp ha).2.1) (not_le.mpr ((hcells a).mp ha).2.2))
    simp only [List.length_append, List.length_cons] at hcard
    omega

/-- The cells below the next answer have all been served. -/
theorem Allocs.card_le_of_lt_next {lo a : α} {free mid mid' : Set α} {pre : List (Option α)}
    {cells : Finset α} (hcells : ∀ x, x ∈ cells ↔ x ∈ free ∧ lo ≤ x ∧ x < a)
    (h : Allocs lo free pre mid) (hstep : Step lo mid .alloc (some a) mid') :
    cells.card ≤ pre.length :=
  h.card_le_of_gone (fun x hx => ((hcells x).mp hx).1) (fun x hx hmid =>
    absurd (blocked_of_step hstep x hmid ((hcells x).mp hx).2.1)
      (not_le.mpr ((hcells x).mp hx).2.2))

/-- While an eligible cell is passed over no request is refused. -/
theorem Allocs.none_not_mem {lo a : α} {free free' : Set α} {outs : List (Option α)}
    (h : Allocs lo free outs free') (ha : a ∈ free) (hlo : lo ≤ a) (hout : some a ∉ outs) :
    none ∉ outs := by
  intro hn
  obtain ⟨pre, post, rfl⟩ := List.append_of_mem hn
  obtain ⟨mid, mid', hpre, hstep, -⟩ := h.split
  have hmid : a ∈ mid :=
    hpre.mem_of_not_served ha (fun hs => hout (List.mem_append_left _ hs))
  exact not_mem_of_refused hstep a hmid hlo

/-- **Rank**: a cell is served exactly when it was eligible and fewer eligible cells than there
    are requests lie below it; it then answers the request of that rank. -/
theorem Allocs.some_mem_iff {lo a : α} {free free' : Set α} {outs : List (Option α)}
    {cells : Finset α} (hcells : ∀ x, x ∈ cells ↔ x ∈ free ∧ lo ≤ x ∧ x < a)
    (h : Allocs lo free outs free') :
    some a ∈ outs ↔ a ∈ free ∧ lo ≤ a ∧ cells.card < outs.length := by
  constructor
  · intro ha
    obtain ⟨hfree, hlo⟩ := h.served_mem ha
    obtain ⟨pre, post, rfl⟩ := List.append_of_mem ha
    obtain ⟨mid, mid', hpre, hstep, -⟩ := h.split
    have hle := hpre.card_le_of_lt_next hcells hstep
    refine ⟨hfree, hlo, ?_⟩
    simp only [List.length_append, List.length_cons]
    omega
  · rintro ⟨hfree, hlo, hlt⟩
    by_contra hout
    -- while `a` is passed over every answer is a cell below `a`, and there are too few of these
    have hall : ∀ o ∈ outs, ∃ b, o = some b ∧ b < a := by
      intro o ho
      obtain ⟨pre, post, rfl⟩ := List.append_of_mem ho
      obtain ⟨mid, mid', hpre, hstep, -⟩ := h.split
      have hmid : a ∈ mid := hpre.mem_of_not_served hfree
        (fun hs => hout (List.mem_append_left _ hs))
      cases o with
      | none => exact absurd hlo (not_mem_of_refused hstep a hmid)
      | some b =>
        refine ⟨b, rfl, lt_of_le_of_ne (blocked_of_step hstep a hmid hlo) ?_⟩
        rintro rfl
        exact hout ho
    have hle := (h.all_below_iff hcells).mp hall
    omega

/-- The answer number `pre.length` is the eligible cell with that many eligible cells below. -/
theorem Allocs.rank_eq {lo a : α} {free free' : Set α} {pre post : List (Option α)}
    {cells : Finset α} (hcells : ∀ x, x ∈ cells ↔ x ∈ free ∧ lo ≤ x ∧ x < a)
    (h : Allocs lo free (pre ++ some a :: post) free') : cells.card = pre.length := by
  obtain ⟨mid, mid', hpre, hstep, -⟩ := h.split
  apply Nat.le_antisymm (hpre.card_le_of_lt_next hcells hstep)
  refine (hpre.all_below_iff hcells).mp (fun o ho => ?_)
  cases o with
  | none =>
    -- a refusal before `a` would have left nothing to serve
    obtain ⟨p, q, rfl⟩ := List.append_of_mem ho
    obtain ⟨m, m', -, hfail, hq⟩ := hpre.split
    cases hfail with
    | fail hempty =>
      have hmem : a ∈ m ∩ Set.Ici lo := by
        refine ⟨?_, hstep.of_some.1.1.2⟩
        rcases Run.mem_of_mem_after hq hstep.of_some.1.1.1 with hm | ⟨o, hrel⟩
        · exact hm
        · exact absurd hrel (noRelease_allocs q a o)
      rw [hempty] at hmem
      exact hmem.elim
  | some b =>
    refine ⟨b, rfl, ?_⟩
    have hinc := h.increasing
    rw [List.filterMap_append, List.pairwise_append] at hinc
    exact hinc.2.2 b (List.mem_filterMap.mpr ⟨some b, ho, rfl⟩) a
      (List.mem_filterMap.mpr ⟨some a, List.mem_cons_self, rfl⟩)

end MyOs.Lib.FirstFit
