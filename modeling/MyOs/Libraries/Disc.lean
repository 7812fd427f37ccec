/-
  Reading sectors from the disc.

  `atapi_read` waits for the drive before each sector; the drive answers with data, or sets the
  error bit, which ends the call with the sectors already read left in the buffer.  What the drive
  does is a parameter: a call can be refused before the first sector, or fail at any of them.

  `atapiRead_eq` says what is in the buffer after a call, whatever the drive did.
-/
import Mathlib.Logic.Basic

namespace MyOs.Libraries

/-! ## The program -/

/-- A memory area, by offset. -/
abbrev Bytes := Nat → UInt8

/-- A disc in a drive: the bytes of its sectors, 2048 each, one sector behind the other; whether the
    drive refuses the command of a call, and at which sectors it sets the error bit. -/
structure Drive where
  disc : Bytes
  refuses : Nat → Bool
  fails : Nat → Nat → Bool

namespace Drive

variable (d : Drive)

/-- The loop of `atapi_read`, over `n` more sectors from the `i`-th on. -/
def transfer (call lba : Nat) : Nat → Nat → Bytes → Nat × Bytes
  | 0, _, buffer => (0, buffer)
  | n + 1, i, buffer =>
    if d.fails call i then (1, buffer)
    else transfer call lba n (i + 1) fun j =>
      if 2048 * i ≤ j ∧ j < 2048 * (i + 1) then d.disc (2048 * (lba + i) + (j - 2048 * i))
      else buffer j

/-- `atapi_read`, when it is called for the `call`-th time: the error code, and the buffer. -/
def atapiRead (call : Nat) (lba sectors : UInt32) (buffer : Bytes) : Nat × Bytes :=
  if d.refuses call then (1, buffer)
  else d.transfer call lba.toNat sectors.toNat 0 buffer

/-! ## What is in the buffer -/

/-- How many of `n` sectors, from the `i`-th on, come before the first error. -/
def sectorsBefore (call : Nat) : Nat → Nat → Nat
  | 0, _ => 0
  | n + 1, i => if d.fails call i then 0 else sectorsBefore call n (i + 1) + 1

/-- How many sectors a call delivers. -/
def delivered (call : Nat) (sectors : UInt32) : Nat :=
  if d.refuses call then 0 else d.sectorsBefore call sectors.toNat 0

/-- A buffer with the first `n` sectors from `lba` on. -/
def received (lba n : Nat) (buffer : Bytes) : Bytes := fun j =>
  if j < 2048 * n then d.disc (2048 * lba + j) else buffer j

/-- No error in a call for `n` sectors. -/
def Serves (call n : Nat) : Prop := d.refuses call = false ∧ ∀ i, i < n → d.fails call i = false

variable {d}

theorem transfer_eq (call lba : Nat) (buffer : Bytes) : ∀ n i,
    (d.transfer call lba n i (d.received lba i buffer)).2
      = d.received lba (i + d.sectorsBefore call n i) buffer
  | 0, _ => rfl
  | n + 1, i => by
    rw [transfer, sectorsBefore]
    split
    · rfl
    · have hnext : (fun j => if 2048 * i ≤ j ∧ j < 2048 * (i + 1) then
          d.disc (2048 * (lba + i) + (j - 2048 * i)) else d.received lba i buffer j)
          = d.received lba (i + 1) buffer := by
        funext j
        unfold received
        by_cases hold : j < 2048 * i
        · rw [if_neg (by omega), if_pos hold, if_pos (by omega)]
        · rw [if_neg hold]
          by_cases hnew : j < 2048 * (i + 1)
          · have hoffset : 2048 * (lba + i) + (j - 2048 * i) = 2048 * lba + j := by omega
            rw [if_pos ⟨by omega, hnew⟩, if_pos hnew, hoffset]
          · rw [if_neg fun h => hnew h.2, if_neg hnew]
      rw [hnext, transfer_eq call lba buffer n (i + 1), Nat.add_assoc, Nat.add_comm 1]

theorem received_zero (lba : Nat) (buffer : Bytes) : d.received lba 0 buffer = buffer := by
  funext j
  exact if_neg (Nat.not_lt_zero j)

/-- **After a call** the buffer holds the sectors that were delivered, and is otherwise as it
    was. -/
theorem atapiRead_eq (call : Nat) (lba sectors : UInt32) (buffer : Bytes) :
    (d.atapiRead call lba sectors buffer).2
      = d.received lba.toNat (d.delivered call sectors) buffer := by
  unfold atapiRead delivered
  split
  · exact (received_zero lba.toNat buffer).symm
  · have h := transfer_eq (d := d) call lba.toNat buffer sectors.toNat 0
    rwa [received_zero, Nat.zero_add] at h

theorem sectorsBefore_of_serves {call : Nat} : ∀ n i,
    (∀ j, j < i + n → d.fails call j = false) → d.sectorsBefore call n i = n
  | 0, _, _ => rfl
  | n + 1, i, h => by
    rw [sectorsBefore, h i (by omega), if_neg Bool.false_ne_true,
      sectorsBefore_of_serves n (i + 1) fun j hj => h j (by omega)]

/-- A call without an error delivers all sectors. -/
theorem delivered_of_serves {call : Nat} {sectors : UInt32} (h : d.Serves call sectors.toNat) :
    d.delivered call sectors = sectors.toNat := by
  rw [delivered, h.1, if_neg Bool.false_ne_true,
    sectorsBefore_of_serves _ _ fun j hj => h.2 j (by omega)]

/-- A call for one sector with an error delivers nothing. -/
theorem delivered_one_of_not_serves {call : Nat} (h : ¬ d.Serves call 1) :
    d.delivered call 1 = 0 := by
  unfold delivered
  split
  · rfl
  · rename_i hrefuses
    have hone : (1 : UInt32).toNat = 0 + 1 := rfl
    rw [hone, sectorsBefore]
    split
    · rfl
    · rename_i hfails
      refine absurd ⟨Bool.eq_false_iff.mpr hrefuses, fun i hi => ?_⟩ h
      rw [Nat.lt_one_iff.mp hi]
      exact Bool.eq_false_iff.mpr hfails

end Drive

end MyOs.Libraries
