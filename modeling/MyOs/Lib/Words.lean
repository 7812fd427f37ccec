/-
  Words in a memory of bytes, the least significant byte first.

  A store writes four bytes and a load reads four.  A load gives back what was stored last
  (`loadWord_storeWord`), and does not see a store that is at least four bytes away
  (`loadWord_storeWord_of_apart`); addresses wrap around.  Words behind each other
  (`WordsAt`) stay when a word is stored in front of them.
-/
import Mathlib.Algebra.Group.Nat.Defs
import MyOs.Lib.Stores

namespace MyOs.Lib.Words

open MyOs.Lib.Stores

/-- A memory of bytes. -/
abbrev ByteMem := UInt32 → UInt8

/-- The four stores of a word. -/
def wordStores (a v : UInt32) : List (UInt32 × UInt8) :=
  [(a, v.toUInt8), (a + 1, (v >>> 8).toUInt8), (a + 2, (v >>> 16).toUInt8),
    (a + 3, (v >>> 24).toUInt8)]

def storeWord (mem : ByteMem) (a v : UInt32) : ByteMem := storeAll mem (wordStores a v)

def loadWord (mem : ByteMem) (a : UInt32) : UInt32 :=
  UInt32.ofNat ((mem a).toNat + 2 ^ 8 * (mem (a + 1)).toNat + 2 ^ 16 * (mem (a + 2)).toNat
    + 2 ^ 24 * (mem (a + 3)).toNat)

theorem wordStores_addresses (a v : UInt32) :
    (wordStores a v).map Prod.fst = [0, 1, 2, 3].map (a + ·) := by
  rw [List.map_cons, UInt32.add_zero]
  rfl

theorem nodup_wordStores (a v : UInt32) : ((wordStores a v).map Prod.fst).Nodup := by
  rw [wordStores_addresses]
  exact List.Nodup.map (fun _ _ => (UInt32.add_right_inj a).mp) (by decide)

/-- A byte outside the word stays. -/
theorem storeWord_of_ne {a b : UInt32} (h : ∀ k : UInt32, k < 4 → b ≠ a + k) (mem : ByteMem)
    (v : UInt32) : storeWord mem a v b = mem b := by
  refine storeAll_of_ne fun w hw => ?_
  simp only [wordStores, List.mem_cons, List.not_mem_nil, or_false] at hw
  rcases hw with rfl | rfl | rfl | rfl
  · have hfirst := h 0 (by decide)
    rw [UInt32.add_zero] at hfirst
    exact hfirst.symm
  · exact (h 1 (by decide)).symm
  · exact (h 2 (by decide)).symm
  · exact (h 3 (by decide)).symm

theorem toNat_byte (x k : UInt32) (hk : k.toNat < 32) :
    (x >>> k).toUInt8.toNat = x.toNat / 2 ^ k.toNat % 2 ^ 8 := by
  rw [UInt32.toNat_toUInt8, UInt32.toNat_shiftRight, Nat.mod_eq_of_lt hk,
    Nat.shiftRight_eq_div_pow]

/-- A load of what was stored. -/
theorem loadWord_storeWord (mem : ByteMem) (a v : UInt32) : loadWord (storeWord mem a v) a = v := by
  have hbyte : ∀ i b x, (wordStores a v)[i]? = some (b, x) → storeWord mem a v b = x :=
    fun i b x hi => storeAll_of_nodup (nodup_wordStores a v) mem (List.mem_of_getElem? hi)
  rw [loadWord, hbyte 0 a _ rfl, hbyte 1 (a + 1) _ rfl, hbyte 2 (a + 2) _ rfl,
    hbyte 3 (a + 3) _ rfl, UInt32.toNat_toUInt8, toNat_byte v 8 (by decide),
    toNat_byte v 16 (by decide), toNat_byte v 24 (by decide)]
  -- four bytes make up the word
  have hlt := v.toNat_lt
  apply UInt32.toNat_inj.mp
  rw [UInt32.toNat_ofNat']
  simp only [UInt32.reduceToNat]
  omega

/-- A load depends on four bytes. -/
theorem loadWord_congr {m₁ m₂ : ByteMem} {a : UInt32}
    (h : ∀ k : UInt32, k < 4 → m₁ (a + k) = m₂ (a + k)) : loadWord m₁ a = loadWord m₂ a := by
  have hzero := h 0 (by decide)
  rw [UInt32.add_zero] at hzero
  unfold loadWord
  rw [hzero, h 1 (by decide), h 2 (by decide), h 3 (by decide)]

/-- Two words that do not overlap. -/
def Apart (a b : UInt32) : Prop := ∀ i j : UInt32, i < 4 → j < 4 → a + i ≠ b + j

theorem loadWord_storeWord_of_apart {a b : UInt32} (h : Apart a b) (mem : ByteMem) (v : UInt32) :
    loadWord (storeWord mem a v) b = loadWord mem b :=
  loadWord_congr fun j hj => storeWord_of_ne (fun i hi heq => h i j hi hj heq.symm) mem v

/-- A word is apart from one that begins a few words higher. -/
theorem apart_add {a k : UInt32} (hlo : 4 ≤ k.toNat) (hhi : k.toNat ≤ 2 ^ 32 - 4) :
    Apart a (a + k) := by
  intro i j hi hj heq
  rw [UInt32.add_assoc, UInt32.add_right_inj] at heq
  rw [UInt32.lt_iff_toNat_lt] at hi hj
  have hsum := congrArg UInt32.toNat heq
  rw [UInt32.toNat_add] at hsum
  simp only [UInt32.reduceToNat] at hi hj
  omega

/-! ## Words behind each other -/

/-- The words from an address on. -/
def WordsAt (mem : ByteMem) : UInt32 → List UInt32 → Prop
  | _, [] => True
  | a, w :: ws => loadWord mem a = w ∧ WordsAt mem (a + 4) ws

variable {mem mem' : ByteMem} {a : UInt32} {w : UInt32} {ws vs : List UInt32}

@[simp] theorem wordsAt_nil : WordsAt mem a [] := trivial

@[simp] theorem wordsAt_cons :
    WordsAt mem a (w :: ws) ↔ loadWord mem a = w ∧ WordsAt mem (a + 4) ws := Iff.rfl

/-- The address of a word, one word further. -/
theorem word_address_succ (a : UInt32) (i : Nat) :
    a + 4 * UInt32.ofNat (i + 1) = a + 4 + 4 * UInt32.ofNat i := by
  have hone : 4 * UInt32.ofNat 1 = 4 := by decide
  rw [UInt32.ofNat_add, UInt32.mul_add, hone, UInt32.add_comm (4 * UInt32.ofNat i),
    ← UInt32.add_assoc]

/-- The words one by one. -/
theorem wordsAt_iff : ∀ {ws : List UInt32} {a : UInt32}, WordsAt mem a ws ↔
    ∀ i w, ws[i]? = some w → loadWord mem (a + 4 * UInt32.ofNat i) = w
  | [], _ => by simp
  | w :: ws, a => by
    rw [wordsAt_cons, wordsAt_iff]
    have hzero : a + 4 * UInt32.ofNat 0 = a := UInt32.add_zero a
    constructor
    · rintro ⟨hw, hws⟩ (_ | i) v hi
      · rw [hzero, hw]
        exact Option.some.inj hi
      · rw [word_address_succ]
        exact hws i v hi
    · intro h
      refine ⟨?_, fun i v hi => ?_⟩
      · have hfirst := h 0 w rfl
        rwa [hzero] at hfirst
      · rw [← word_address_succ]
        exact h (i + 1) v hi

theorem wordsAt_append : ∀ {ws : List UInt32} {a : UInt32}, WordsAt mem a (ws ++ vs) ↔
    WordsAt mem a ws ∧ WordsAt mem (a + 4 * UInt32.ofNat ws.length) vs
  | [], a => by simp
  | w :: ws, a => by
    rw [List.cons_append, wordsAt_cons, wordsAt_cons, wordsAt_append, and_assoc,
      List.length_cons, word_address_succ]

/-- Words stay when a word is stored just in front of them. -/
theorem WordsAt.store (h : WordsAt mem a ws) (hlen : 4 * (ws.length + 1) ≤ 2 ^ 32) (v : UInt32) :
    WordsAt (storeWord mem (a - 4) v) a ws := by
  refine wordsAt_iff.mpr fun i w hi => ?_
  have hlt : i < ws.length := (List.getElem?_eq_some_iff.mp hi).1
  have haddr : a + 4 * UInt32.ofNat i = a - 4 + (4 + 4 * UInt32.ofNat i) := by
    rw [← UInt32.add_assoc, UInt32.sub_add_cancel]
  -- each of the words begins behind the one that is stored
  have hoffset : (4 + 4 * UInt32.ofNat i).toNat = 4 + 4 * i := by
    rw [UInt32.toNat_add, UInt32.toNat_mul, UInt32.toNat_ofNat']
    simp only [UInt32.reduceToNat]
    omega
  have hload := wordsAt_iff.mp h i w hi
  rw [haddr] at hload ⊢
  rw [loadWord_storeWord_of_apart (apart_add (by omega) (by omega)), hload]

end MyOs.Lib.Words
