/-
  Changing an address space.

  A directory and its tables are words of one memory, so a store to one of them could change the
  walk of any address.  It does not when the tables are `Apart`: then a store to an entry of one
  table decides the pages of that entry (`Apart.walk_store`), and a table that is entered empty in a
  free slot decides nothing (`Apart.walk_enter`).

  The slots that are looked after are a set: a directory that maps itself in some slot, as a table
  of its own entries, is apart in the others.
-/
import Mathlib.Data.Set.Basic
import Mathlib.Logic.Function.Basic
import MyOs.Lib.Mmu

namespace MyOs.Lib.Mmu

/-- Entry `i` of a table. -/
def entryAt (mem : PhysMem) (table : UInt32) (i : Nat) : UInt32 := mem (entryAddr table i)

/-- The tables of the slots in `S` are in frames of their own: not that of the directory, and no two
    in one. -/
structure Apart (S : Set Nat) (mem : PhysMem) (cr3 : UInt32) : Prop where
  aligned : PageAligned cr3
  lt : ∀ i ∈ S, i < 1024
  ne_directory : ∀ i ∈ S, present (entryAt mem cr3 i) = true →
    entryFrame (entryAt mem cr3 i) ≠ cr3
  distinct : ∀ i ∈ S, ∀ j ∈ S, present (entryAt mem cr3 i) = true →
    present (entryAt mem cr3 j) = true →
    entryFrame (entryAt mem cr3 i) = entryFrame (entryAt mem cr3 j) → i = j

/-- A frame that is not in use: neither the directory nor a table. -/
structure Unused (S : Set Nat) (mem : PhysMem) (cr3 frame : UInt32) : Prop where
  ne_directory : frame ≠ cr3
  ne_table : ∀ i ∈ S, present (entryAt mem cr3 i) = true → entryFrame (entryAt mem cr3 i) ≠ frame

theorem pageAligned_entryFrame (e : UInt32) : PageAligned (entryFrame e) := by
  unfold PageAligned
  rw [toNat_entryFrame]
  exact Nat.mul_mod_left _ _

theorem entryAt_update {mem : PhysMem} {table table' : UInt32} {i i' : Nat} {e : UInt32}
    (htable : PageAligned table) (htable' : PageAligned table') (hi : i < 1024) (hi' : i' < 1024) :
    entryAt (Function.update mem (entryAddr table i) e) table' i'
      = if table' = table ∧ i' = i then e else entryAt mem table' i' := by
  have hinj := entryAddr_inj htable' htable hi' hi
  unfold entryAt
  by_cases hhere : table' = table ∧ i' = i
  · rw [if_pos hhere, hinj.mpr hhere]
    exact Function.update_self ..
  · rw [if_neg hhere]
    exact Function.update_of_ne (fun heq => hhere (hinj.mp heq)) _ _

/-- The walk reads one entry of the directory and one of a table. -/
theorem walk_congr {mem mem' : PhysMem} {cr3 virt : UInt32}
    (hpde : entryAt mem' cr3 (pdIndex virt) = entryAt mem cr3 (pdIndex virt))
    (hpte : present (entryAt mem cr3 (pdIndex virt)) = true →
      entryAt mem' (entryFrame (entryAt mem cr3 (pdIndex virt))) (ptIndex virt)
        = entryAt mem (entryFrame (entryAt mem cr3 (pdIndex virt))) (ptIndex virt)) :
    walk mem' cr3 virt = walk mem cr3 virt := by
  unfold entryAt at hpde hpte
  unfold walk
  rw [hpde]
  by_cases hp : present (mem (entryAddr cr3 (pdIndex virt))) = true
  · rw [if_pos hp, if_pos hp, hpte hp]
  · rw [if_neg hp, if_neg hp]

section Apart

variable {S : Set Nat} {mem mem' : PhysMem} {cr3 : UInt32}

/-- The directory decides whether its tables are apart. -/
theorem Apart.congr (h : Apart S mem cr3)
    (hdir : ∀ i ∈ S, entryAt mem' cr3 i = entryAt mem cr3 i) : Apart S mem' cr3 where
  aligned := h.aligned
  lt := h.lt
  ne_directory i hi hp := by
    rw [hdir i hi] at hp ⊢
    exact h.ne_directory i hi hp
  distinct i hi j hj hp hp' hframe := by
    rw [hdir i hi] at hp hframe
    rw [hdir j hj] at hp' hframe
    exact h.distinct i hi j hj hp hp' hframe

/-- **A store to an entry of a table** decides the pages of that entry, and no others. -/
theorem Apart.walk_store (h : Apart S mem cr3) {slot i : Nat} (hslot : slot ∈ S) (hi : i < 1024)
    (hp : present (entryAt mem cr3 slot) = true) {e : UInt32} (he : present e = true)
    {virt : UInt32} (hvirt : pdIndex virt ∈ S) :
    walk (Function.update mem (entryAddr (entryFrame (entryAt mem cr3 slot)) i) e) cr3 virt
      = if pdIndex virt = slot ∧ ptIndex virt = i
        then some ⟨entryAt mem cr3 slot, e, entryFrame e + (virt &&& 0xFFF)⟩
        else walk mem cr3 virt := by
  have haligned := pageAligned_entryFrame (entryAt mem cr3 slot)
  have hpde : entryAt (Function.update mem
      (entryAddr (entryFrame (entryAt mem cr3 slot)) i) e) cr3 (pdIndex virt)
        = entryAt mem cr3 (pdIndex virt) := by
    rw [entryAt_update haligned h.aligned hi (pdIndex_lt virt)]
    exact if_neg fun heq => h.ne_directory slot hslot hp heq.1.symm
  by_cases hhere : pdIndex virt = slot ∧ ptIndex virt = i
  · obtain ⟨rfl, rfl⟩ := hhere
    rw [if_pos ⟨rfl, rfl⟩]
    refine walk_eq_some hpde hp ?_ he
    exact Function.update_self ..
  · rw [if_neg hhere]
    refine walk_congr hpde fun hp' => ?_
    rw [entryAt_update haligned (pageAligned_entryFrame _) hi (ptIndex_lt virt)]
    -- the same table is the same slot
    exact if_neg fun heq =>
      hhere ⟨h.distinct _ hvirt slot hslot hp' hp heq.1, heq.2⟩

/-- Stores to an unused frame change no walk. -/
theorem Apart.walk_clear (h : Apart S mem cr3) {frame : UInt32} (hframe : PageAligned frame)
    (hunused : Unused S mem cr3 frame)
    (hmem : ∀ a, (∀ i < 1024, a ≠ entryAddr frame i) → mem' a = mem a) :
    Apart S mem' cr3 ∧ Unused S mem' cr3 frame ∧
      (∀ i < 1024, entryAt mem' cr3 i = entryAt mem cr3 i) ∧
      ∀ virt, pdIndex virt ∈ S → walk mem' cr3 virt = walk mem cr3 virt := by
  have hkept : ∀ table, PageAligned table → table ≠ frame → ∀ i < 1024,
      entryAt mem' table i = entryAt mem table i := by
    intro table htable hne i hi
    refine hmem _ fun i' hi' heq => hne ?_
    exact ((entryAddr_inj htable hframe hi hi').mp heq).1
  have hdir := hkept cr3 h.aligned hunused.ne_directory.symm
  refine ⟨h.congr fun i hi => hdir i (h.lt i hi), ⟨hunused.ne_directory, fun i hi hp => ?_⟩, hdir,
    fun virt hvirt => walk_congr (hdir _ (pdIndex_lt virt)) fun hp => ?_⟩
  · rw [hdir i (h.lt i hi)] at hp ⊢
    exact hunused.ne_table i hi hp
  · exact hkept _ (pageAligned_entryFrame _) (hunused.ne_table _ hvirt hp) _ (ptIndex_lt virt)

/-- **An empty table in a free slot** changes no walk. -/
theorem Apart.walk_enter (h : Apart S mem cr3) {slot : Nat} (hslot : slot ∈ S)
    (hfree : present (entryAt mem cr3 slot) = false) {e : UInt32}
    (hunused : Unused S mem cr3 (entryFrame e))
    (hempty : ∀ i < 1024, present (entryAt mem (entryFrame e) i) = false) :
    Apart S (Function.update mem (entryAddr cr3 slot) e) cr3 ∧
      ∀ virt, pdIndex virt ∈ S →
        walk (Function.update mem (entryAddr cr3 slot) e) cr3 virt = walk mem cr3 virt := by
  -- the store changes one entry of the directory and none of a table
  have hdir : ∀ i < 1024, entryAt (Function.update mem (entryAddr cr3 slot) e) cr3 i
      = if i = slot then e else entryAt mem cr3 i := by
    intro i hi
    rw [entryAt_update h.aligned h.aligned (h.lt slot hslot) hi]
    simp only [true_and]
  have hkept : ∀ table, PageAligned table → table ≠ cr3 → ∀ i < 1024,
      entryAt (Function.update mem (entryAddr cr3 slot) e) table i = entryAt mem table i := by
    intro table htable hne i hi
    rw [entryAt_update h.aligned htable (h.lt slot hslot) hi]
    exact if_neg fun heq => hne heq.1
  refine ⟨⟨h.aligned, h.lt, fun i hi hp => ?_, fun i hi j hj hp hp' hframe => ?_⟩,
    fun virt hvirt => ?_⟩
  · rw [hdir i (h.lt i hi)] at hp ⊢
    split_ifs at hp ⊢
    · exact hunused.ne_directory
    · exact h.ne_directory i hi hp
  · rw [hdir i (h.lt i hi)] at hp hframe
    rw [hdir j (h.lt j hj)] at hp' hframe
    -- the new table is none of the others
    split_ifs at hp hp' hframe with hi' hj' hj'
    · exact hi'.trans hj'.symm
    · exact absurd hframe.symm (hunused.ne_table j hj hp')
    · exact absurd hframe (hunused.ne_table i hi hp)
    · exact h.distinct i hi j hj hp hp' hframe
  · by_cases hhere : pdIndex virt = slot
    · -- the new table maps nothing, as the free slot did
      have hbefore : walk mem cr3 virt = none := by
        refine walk_of_not_present_pde ?_
        rw [hhere]
        exact hfree
      rw [hbefore]
      have hpde := hdir (pdIndex virt) (pdIndex_lt virt)
      rw [if_pos hhere] at hpde
      refine walk_of_not_present_pte hpde ?_
      · have hentry := hkept (entryFrame e) (pageAligned_entryFrame e) hunused.ne_directory
          (ptIndex virt) (ptIndex_lt virt)
        exact (congrArg present hentry).trans (hempty _ (ptIndex_lt virt))
    · have hentry := hdir (pdIndex virt) (pdIndex_lt virt)
      rw [if_neg hhere] at hentry
      refine walk_congr hentry fun hp => ?_
      exact hkept _ (pageAligned_entryFrame _) (h.ne_directory _ hvirt hp) _ (ptIndex_lt virt)

end Apart

end MyOs.Lib.Mmu
