/-
  `atapi_read` at the ports of the drive.

  1. **Program**: what the drive answers during one call is a trace: status bytes in each wait, and
     the blocks of data, each with the byte count that the drive announces.  A trace that ends in
     the middle of a wait has no result, and neither has a product of `int`s that overflows.
  2. **Waiting** (`waitReady_eq_some`): a wait ends without an error exactly when no status that it
     meets has bit 0 set.
  3. **The transfer** (`atapiRead_eq_some`): the blocks in front of the first error are stored, each
     at its multiple of 2048.
  4. **Any trace of full blocks** (`atapiRead_trace`): the packet, the error code and every byte of
     the buffer.
-/
import Mathlib.Algebra.Group.Nat.Defs
import MyOs.Lib.Blocks
import MyOs.Libraries.Disc

namespace MyOs.Libraries

open MyOs.Lib.Blocks

/-! ## The program -/

/-- What the control port answers to the sixteen reads of `get_status`. -/
abbrev Poll := Vector UInt8 16

/-- `get_status`: the first fifteen reads are a delay. -/
def getStatus (poll : Poll) : UInt8 := poll[15]

/-- A block of data: the registers with its byte count, and the words at the data port. -/
structure Block where
  countLow : UInt8
  countHigh : UInt8
  words : Nat → UInt16

/-- `inb(secondary_io_base+5) << 8 | inb(secondary_io_base+4)`. -/
def Block.size (b : Block) : Nat := b.countHigh.toNat <<< 8 ||| b.countLow.toNat

/-- The words of a block in memory, the low byte first. -/
def Block.byte (b : Block) (j : Nat) : UInt8 :=
  if j % 2 = 0 then (b.words (j / 2)).toUInt8 else (b.words (j / 2) >>> 8).toUInt8

/-- `insw`: `count` words to the place at `offset`. -/
def insw (b : Block) (offset count : Nat) (buffer : Bytes) : Bytes :=
  blit offset (2 * count) b.byte buffer

/-- What the drive answers during one call: in the wait before the packet and in that before each
    block, and the blocks. -/
structure DeviceTrace where
  polls : Nat → List Poll
  block : Nat → Block

/-- What is written to a port. -/
inductive PortWrite where
  | outb (port : UInt16) (value : UInt8)
  | outsw (port : UInt16) (bytes : List UInt8)
  deriving DecidableEq

/-- What a call leaves: the error code, the buffer, what was written to the ports, and where in the
    buffer each block was stored, as an offset and a number of bytes. -/
structure AtapiResult where
  code : Nat
  buffer : Bytes
  sent : List PortWrite
  stores : List (Nat × Nat)

/-- One turn of the waiting loops: an error, the drive is ready, or neither. -/
def waitEnds (poll : Poll) : Option Bool :=
  let status := getStatus poll
  if status &&& 0x01 = 1 then some false
  else if status &&& 0x80 = 0 ∧ status &&& 0x08 ≠ 0 then some true
  else none

/-- A waiting loop: whether the drive is ready. -/
def waitReady (polls : List Poll) : Option Bool := polls.findSome? waitEnds

/-- `read_cmd`. -/
def readCmd (lba sectors : UInt32) : List UInt8 :=
  [0xA8, 0, (lba >>> 0x18).toUInt8, (lba >>> 0x10).toUInt8, (lba >>> 0x08).toUInt8,
    (lba >>> 0x00).toUInt8, (sectors >>> 0x18).toUInt8, (sectors >>> 0x10).toUInt8,
    (sectors >>> 0x08).toUInt8, (sectors >>> 0x00).toUInt8, 0, 0]

/-- The writes in front of the first wait. -/
def setup : List PortWrite :=
  [.outb 0x176 0xA0, .outb 0x376 0x02, .outb 0x171 0x00, .outb 0x174 (UInt8.ofNat (2048 &&& 0xFF)),
    .outb 0x175 (UInt8.ofNat (2048 >>> 8)), .outb 0x177 0xA0]

/-- A product of `int`s. -/
def mulInt (a b : Nat) : Option Nat := if a * b < 2 ^ 31 then some (a * b) else none

namespace DeviceTrace

variable (t : DeviceTrace)

/-- The loop of `atapi_read`, over `n` more sectors from the `i`-th on. -/
def transferLoop : Nat → Nat → Bytes → Option (Nat × Bytes × List (Nat × Nat))
  | 0, _, buffer => some (0, buffer, [])
  | n + 1, i, buffer => do
    let ready ← waitReady (t.polls (i + 1))
    if !ready then some (1, buffer, [])
    else
      let size := (t.block i).size
      let offset ← mulInt i 2048
      let (code, buffer, stores) ←
        transferLoop n (i + 1) (insw (t.block i) offset (size / 2) buffer)
      some (code, buffer, (offset, 2 * (size / 2)) :: stores)

/-- `atapi_read`. -/
def atapiRead (lba sectors : UInt32) (buffer : Bytes) : Option AtapiResult := do
  let ready ← waitReady (t.polls 0)
  if !ready then some ⟨1, buffer, setup, []⟩
  else
    let (code, buffer, stores) ← t.transferLoop sectors.toNat 0 buffer
    some ⟨code, buffer, setup ++ [.outsw 0x170 (readCmd lba sectors)], stores⟩

end DeviceTrace

/-! ## Waiting -/

/-- The statuses that a wait meets: those up to the one that ends it. -/
def met : List Poll → List UInt8
  | [] => []
  | poll :: polls => getStatus poll :: if (waitEnds poll).isSome then [] else met polls

/-- No status that the wait meets has bit 0 set. -/
def ErrorFree (polls : List Poll) : Prop := ∀ status ∈ met polls, status &&& 0x01 ≠ 1

instance (polls : List Poll) : Decidable (ErrorFree polls) :=
  inferInstanceAs (Decidable (∀ status ∈ met polls, _))

theorem waitEnds_eq_some {poll : Poll} {b : Bool} (h : waitEnds poll = some b) :
    b = true ↔ getStatus poll &&& 0x01 ≠ 1 := by
  unfold waitEnds at h
  dsimp only at h
  split_ifs at h with herror hready
  · obtain rfl := Option.some.inj h
    exact iff_of_false Bool.false_ne_true fun hne => hne herror
  · obtain rfl := Option.some.inj h
    exact iff_of_true rfl herror

theorem waitEnds_eq_none {poll : Poll} (h : waitEnds poll = none) :
    getStatus poll &&& 0x01 ≠ 1 := by
  unfold waitEnds at h
  dsimp only at h
  split_ifs at h with herror
  exact herror

/-- **A wait** that ends finds the drive ready exactly when it meets no error. -/
theorem waitReady_eq_some {polls : List Poll} {b : Bool} (h : waitReady polls = some b) :
    b = true ↔ ErrorFree polls := by
  unfold ErrorFree
  induction polls with
  | nil => nomatch h
  | cons poll polls ih =>
    unfold waitReady at h ih
    rw [List.findSome?_cons] at h
    rw [met, List.forall_mem_cons]
    cases hends : waitEnds poll with
    | some b' =>
      rw [hends] at h
      obtain rfl : b' = b := Option.some.inj h
      rw [Option.isSome_some, if_pos rfl, and_iff_left fun _ hmem => absurd hmem List.not_mem_nil]
      exact waitEnds_eq_some hends
    | none =>
      rw [hends] at h
      rw [Option.isSome_none, if_neg Bool.false_ne_true, and_iff_right (waitEnds_eq_none hends)]
      exact ih h

/-! ## The transfer -/

section Transfer

variable {t : DeviceTrace} {buffer : Bytes}

/-- The number of bytes that are stored of a block. -/
def DeviceTrace.stored (t : DeviceTrace) (i : Nat) : Nat := 2 * ((t.block i).size / 2)

/-- The buffer with the first `k` blocks, each at its multiple of 2048. -/
def DeviceTrace.filled (t : DeviceTrace) (buffer : Bytes) (k : Nat) : Bytes :=
  blitAll 2048 t.stored (fun i => (t.block i).byte) buffer k

/-- The stores of `k` blocks from the `i`-th on. -/
def DeviceTrace.storesFrom (t : DeviceTrace) (i k : Nat) : List (Nat × Nat) :=
  (List.range' i k).map fun m => (m * 2048, t.stored m)

/-- The waits in front of the blocks `i, ..., i + k - 1` end without an error, and their offsets do
    not overflow. -/
def DeviceTrace.Passes (t : DeviceTrace) (i k : Nat) : Prop :=
  ∀ m, i ≤ m → m < i + k → waitReady (t.polls (m + 1)) = some true ∧ m * 2048 < 2 ^ 31

theorem storesFrom_succ (i k : Nat) :
    t.storesFrom i (k + 1) = (i * 2048, t.stored i) :: t.storesFrom (i + 1) k := by
  rw [DeviceTrace.storesFrom, List.range'_succ]
  rfl

theorem filled_succ (i : Nat) : t.filled buffer (i + 1)
    = insw (t.block i) (i * 2048) ((t.block i).size / 2) (t.filled buffer i) :=
  blitAll_succ _ _ _ _ _

/-- One turn of the loop. -/
theorem transferLoop_ready {n i : Nat} (hready : waitReady (t.polls (i + 1)) = some true)
    (hoffset : i * 2048 < 2 ^ 31) : t.transferLoop (n + 1) i (t.filled buffer i)
      = (t.transferLoop n (i + 1) (t.filled buffer (i + 1))).map fun r =>
          (r.1, r.2.1, (i * 2048, t.stored i) :: r.2.2) := by
  rw [DeviceTrace.transferLoop, hready, mulInt, if_pos hoffset]
  simp only [Option.bind_eq_bind, Option.bind_some, Bool.not_true, Bool.false_eq_true, if_false]
  rw [filled_succ, Option.map_eq_bind]
  rfl

theorem transferLoop_error {n i : Nat} (herror : waitReady (t.polls (i + 1)) = some false)
    (b : Bytes) : t.transferLoop (n + 1) i b = some (1, b, []) := by
  rw [DeviceTrace.transferLoop, herror]
  rfl

/-- The loop behind blocks that are transferred. -/
theorem transferLoop_passes {n : Nat} : ∀ {k i : Nat}, t.Passes i k →
    t.transferLoop (k + n) i (t.filled buffer i)
      = (t.transferLoop n (i + k) (t.filled buffer (i + k))).map fun r =>
          (r.1, r.2.1, t.storesFrom i k ++ r.2.2)
  | 0, i, _ => by
    rw [Nat.zero_add]
    exact Option.map_id'.symm
  | k + 1, i, h => by
    obtain ⟨hready, hoffset⟩ := h i (Nat.le_refl i) (by omega)
    have hrest : t.Passes (i + 1) k := fun m h₁ h₂ => h m (by omega) (by omega)
    have hindex : i + 1 + k = i + (k + 1) := by omega
    rw [Nat.succ_add, transferLoop_ready hready hoffset, transferLoop_passes hrest, hindex,
      Option.map_map, storesFrom_succ]
    rfl

/-- **The loop**: it transfers some blocks, all of them or those in front of the first error. -/
theorem transferLoop_eq_some : ∀ {n i : Nat} {code : Nat} {out : Bytes} {stores : List (Nat × Nat)},
    t.transferLoop n i (t.filled buffer i) = some (code, out, stores) →
    ∃ k, t.Passes i k ∧ out = t.filled buffer (i + k) ∧ stores = t.storesFrom i k ∧
      ((code = 0 ∧ k = n) ∨ (code = 1 ∧ k < n ∧ waitReady (t.polls (i + k + 1)) = some false))
  | 0, i, code, out, stores, h => by
    obtain ⟨rfl, hrest⟩ := Prod.mk.inj (Option.some.inj h)
    obtain ⟨rfl, rfl⟩ := Prod.mk.inj hrest
    exact ⟨0, fun m h₁ h₂ => absurd h₂ (by omega), rfl, rfl, .inl ⟨rfl, rfl⟩⟩
  | n + 1, i, code, out, stores, h => by
    cases hready : waitReady (t.polls (i + 1)) with
    | none =>
      rw [DeviceTrace.transferLoop, hready] at h
      nomatch h
    | some ready =>
      cases ready with
      | false =>
        rw [transferLoop_error hready] at h
        obtain ⟨rfl, hrest⟩ := Prod.mk.inj (Option.some.inj h)
        obtain ⟨rfl, rfl⟩ := Prod.mk.inj hrest
        exact ⟨0, fun m h₁ h₂ => absurd h₂ (by omega), rfl, rfl,
          .inr ⟨rfl, Nat.zero_lt_succ n, hready⟩⟩
      | true =>
        by_cases hoffset : i * 2048 < 2 ^ 31
        · rw [transferLoop_ready hready hoffset] at h
          obtain ⟨⟨code', out', stores'⟩, hrun, hresult⟩ := Option.map_eq_some_iff.mp h
          simp only [Prod.mk.injEq] at hresult
          obtain ⟨rfl, rfl, rfl⟩ := hresult
          obtain ⟨k, hpasses, rfl, rfl, hend⟩ := transferLoop_eq_some hrun
          have hindex : i + 1 + k = i + (k + 1) := by omega
          rw [hindex] at hend ⊢
          refine ⟨k + 1, fun m h₁ h₂ => ?_, rfl, (storesFrom_succ i k).symm, ?_⟩
          · rcases Nat.eq_or_lt_of_le h₁ with rfl | hlt
            · exact ⟨hready, hoffset⟩
            · exact hpasses m hlt (by omega)
          · rcases hend with ⟨hcode, rfl⟩ | ⟨hcode, hlt, herror⟩
            · exact .inl ⟨hcode, rfl⟩
            · exact .inr ⟨hcode, by omega, herror⟩
        · -- the offset is no `int`
          rw [DeviceTrace.transferLoop, hready, mulInt, if_neg hoffset] at h
          nomatch h

/-- Full blocks fill the buffer from its beginning on. -/
theorem filled_full {k : Nat} (hfull : ∀ i, i < k → (t.block i).size = 2048) (j : Nat) :
    t.filled buffer k j
      = if j < k * 2048 then (t.block (j / 2048)).byte (j % 2048) else buffer j := by
  refine blitAll_full (by decide) _ _ (fun i hi => ?_) j
  rw [DeviceTrace.stored, hfull i hi]

theorem storesFrom_full {k : Nat} (hfull : ∀ i, i < k → (t.block i).size = 2048) :
    t.storesFrom 0 k = (List.range k).map fun i => (2048 * i, 2048) := by
  rw [DeviceTrace.storesFrom, List.range_eq_range']
  refine List.map_congr_left fun m hm => ?_
  have hlt := (List.mem_range'_1.mp hm).2
  rw [DeviceTrace.stored, hfull m (by omega), Nat.mul_comm]

/-- **A call**: the blocks that are transferred, and what ends it. -/
theorem atapiRead_eq_some {lba sectors : UInt32} {r : AtapiResult}
    (h : t.atapiRead lba sectors buffer = some r) :
    ∃ k, t.Passes 0 k ∧ r.buffer = t.filled buffer k ∧ r.stores = t.storesFrom 0 k ∧
      ((waitReady (t.polls 0) = some false ∧ k = 0 ∧ r.code = 1 ∧ r.sent = setup) ∨
        (waitReady (t.polls 0) = some true ∧
          r.sent = setup ++ [.outsw 0x170 (readCmd lba sectors)] ∧
          ((r.code = 0 ∧ k = sectors.toNat) ∨
            (r.code = 1 ∧ k < sectors.toNat ∧ waitReady (t.polls (k + 1)) = some false)))) := by
  unfold DeviceTrace.atapiRead at h
  obtain ⟨ready, hready, h⟩ := Option.bind_eq_some_iff.mp h
  cases ready with
  | false =>
    obtain rfl := Option.some.inj h
    exact ⟨0, fun m h₁ h₂ => absurd h₂ (by omega), rfl, rfl, .inl ⟨hready, rfl, rfl, rfl⟩⟩
  | true =>
    obtain ⟨⟨code, out, stores⟩, hrun, h⟩ := Option.bind_eq_some_iff.mp h
    obtain rfl := Option.some.inj h
    obtain ⟨k, hpasses, hout, hstores, hend⟩ := transferLoop_eq_some hrun
    rw [Nat.zero_add] at hout hend
    exact ⟨k, hpasses, hout, hstores, .inr ⟨hready, rfl, hend⟩⟩

/-- A call whose waits end without errors, up to the `k`-th block. -/
theorem atapiRead_passes {lba sectors : UInt32} {k n : Nat} (hsectors : sectors.toNat = k + n)
    (hready : waitReady (t.polls 0) = some true) (h : t.Passes 0 k) :
    t.atapiRead lba sectors buffer
      = (t.transferLoop n k (t.filled buffer k)).map fun r =>
          ⟨r.1, r.2.1, setup ++ [.outsw 0x170 (readCmd lba sectors)],
            t.storesFrom 0 k ++ r.2.2⟩ := by
  have hloop := @transferLoop_passes t buffer n _ _ h
  rw [Nat.zero_add] at hloop
  have hstart : t.filled buffer 0 = buffer := rfl
  rw [hstart] at hloop
  rw [DeviceTrace.atapiRead, hready, hsectors]
  simp only [Option.bind_eq_bind, Option.bind_some, Bool.not_true, Bool.false_eq_true, if_false]
  rw [hloop, Option.map_eq_bind, Option.map_eq_bind, Option.bind_assoc]
  rfl

end Transfer

/-! ## Any trace of full blocks -/

/-- The four bytes of a word, the highest first. -/
def bigEndian (x : UInt32) : List UInt8 :=
  (List.range 4).map fun i => UInt8.ofNat (x.toNat / 256 ^ (3 - i))

/-- The packet of a READ command, as the drive expects it. -/
def readPacket (lba sectors : UInt32) : List UInt8 :=
  [0xA8, 0] ++ bigEndian lba ++ bigEndian sectors ++ [0, 0]

theorem shiftRight_toUInt8 (x : UInt32) {s : UInt32} {i : Nat} (hs : s.toNat = 8 * i)
    (hi : i < 4) : (x >>> s).toUInt8 = UInt8.ofNat (x.toNat / 256 ^ i) := by
  have hshift : s.toNat % 32 = 8 * i := by omega
  apply UInt8.toNat_inj.mp
  rw [UInt32.toNat_toUInt8, UInt32.toNat_shiftRight, hshift, Nat.shiftRight_eq_div_pow,
    UInt8.toNat_ofNat', Nat.pow_mul]

theorem readCmd_eq (lba sectors : UInt32) : readCmd lba sectors = readPacket lba sectors := by
  have hbytes : ∀ x : UInt32, bigEndian x
      = [(x >>> 0x18).toUInt8, (x >>> 0x10).toUInt8, (x >>> 0x08).toUInt8,
          (x >>> 0x00).toUInt8] := by
    intro x
    rw [shiftRight_toUInt8 x (s := 0x18) (i := 3) rfl (by decide),
      shiftRight_toUInt8 x (s := 0x10) (i := 2) rfl (by decide),
      shiftRight_toUInt8 x (s := 0x08) (i := 1) rfl (by decide),
      shiftRight_toUInt8 x (s := 0x00) (i := 0) rfl (by decide)]
    rfl
  rw [readPacket, hbytes, hbytes]
  rfl

section FullBlocks

variable {t : DeviceTrace}

/-- **Any trace of full blocks**: when the call ends, the packet is that of the sectors, the result
    is zero exactly when all waits end without an error, and of the buffer exactly the blocks that
    came before the first error are overwritten, one behind the other: all of them, or those up to
    the wait that fails. -/
theorem atapiRead_trace {lba sectors : UInt32} (hfull : ∀ i, (t.block i).size = 2048)
    {buffer : Bytes} {r : AtapiResult}
    (h : t.atapiRead lba sectors buffer = some r) :
    (∀ port bytes, .outsw port bytes ∈ r.sent → bytes = readPacket lba sectors) ∧
    (r.code = 0 ↔ ∀ w, w ≤ sectors.toNat →
      (waitReady (t.polls w)).isSome ∧ ErrorFree (t.polls w)) ∧
    ∃ k, (∀ i, i < k → waitReady (t.polls (i + 1)) = some true) ∧
      ((r.code = 0 ∧ k = sectors.toNat) ∨ (r.code = 1 ∧
        ((waitReady (t.polls 0) = some false ∧ k = 0) ∨
          (waitReady (t.polls 0) = some true ∧ k < sectors.toNat ∧
            waitReady (t.polls (k + 1)) = some false)))) ∧
      r.stores = (List.range k).map (fun i => (2048 * i, 2048)) ∧
      ∀ j, r.buffer j
        = if j < 2048 * k then (t.block (j / 2048)).byte (j % 2048) else buffer j := by
  obtain ⟨k, hpasses, hbuffer, hstores, hend⟩ := atapiRead_eq_some h
  refine ⟨fun port bytes hmem => ?_, ?_, k, fun i hi => ?_, ?_, ?_, fun j => ?_⟩
  · rw [← readCmd_eq]
    -- the only string of words that is written is the packet
    have hsetup : ∀ port bytes, PortWrite.outsw port bytes ∉ setup := by
      intro port bytes hmem
      simp [setup] at hmem
    rcases hend with ⟨-, -, -, hsent⟩ | ⟨-, hsent, -⟩
    · rw [hsent] at hmem
      exact absurd hmem (hsetup port bytes)
    · rw [hsent, List.mem_append, List.mem_singleton] at hmem
      rcases hmem with hmem | hmem
      · exact absurd hmem (hsetup port bytes)
      · exact (PortWrite.outsw.inj hmem).2
  · -- a wait that ends in an error has seen the error bit
    have hfails : ∀ w, w ≤ sectors.toNat → waitReady (t.polls w) = some false →
        ¬ ∀ w, w ≤ sectors.toNat → (waitReady (t.polls w)).isSome ∧ ErrorFree (t.polls w) :=
      fun w hw herror hall =>
        absurd ((waitReady_eq_some herror).mpr (hall w hw).2) Bool.false_ne_true
    rcases hend with ⟨herror, -, hcode, -⟩ | ⟨hready, -, ⟨hcode, rfl⟩ | ⟨hcode, hlt, herror⟩⟩
    · exact iff_of_false (by omega) (hfails 0 (Nat.zero_le _) herror)
    · refine iff_of_true hcode fun w hw => ?_
      have hwait : waitReady (t.polls w) = some true := by
        cases w with
        | zero => exact hready
        | succ m => exact (hpasses m (Nat.zero_le m) (by omega)).1
      exact ⟨Option.isSome_iff_exists.mpr ⟨true, hwait⟩, (waitReady_eq_some hwait).mp rfl⟩
    · exact iff_of_false (by omega) (hfails (k + 1) hlt herror)
  · exact (hpasses i (Nat.zero_le i) (by omega)).1
  · rcases hend with ⟨herror, hk, hcode, -⟩ | ⟨hready, -, hend | ⟨hcode, hlt, herror⟩⟩
    · exact .inr ⟨hcode, .inl ⟨herror, hk⟩⟩
    · exact .inl hend
    · exact .inr ⟨hcode, .inr ⟨hready, hlt, herror⟩⟩
  · rw [hstores, storesFrom_full fun i _ => hfull i]
  · rw [hbuffer, filled_full (fun i _ => hfull i), Nat.mul_comm k]

/-- A call ends when all its waits do, and the offsets are `int`s. -/
theorem atapiRead_isSome {lba sectors : UInt32} (hsectors : sectors.toNat ≤ 2 ^ 20)
    (hwaits : ∀ w, w ≤ sectors.toNat → (waitReady (t.polls w)).isSome) (buffer : Bytes) :
    (t.atapiRead lba sectors buffer).isSome := by
  have hloop : ∀ n i b, i + n = sectors.toNat → (t.transferLoop n i b).isSome := by
    intro n
    induction n with
    | zero => exact fun _ _ _ => rfl
    | succ n ih =>
      intro i b hi
      obtain ⟨ready, hready⟩ := Option.isSome_iff_exists.mp (hwaits (i + 1) (by omega))
      cases ready with
      | false =>
        rw [transferLoop_error hready]
        rfl
      | true =>
        obtain ⟨out, hout⟩ := Option.isSome_iff_exists.mp
          (ih (i + 1) (insw (t.block i) (i * 2048) ((t.block i).size / 2) b) (by omega))
        rw [DeviceTrace.transferLoop, hready, mulInt, if_pos (by omega)]
        simp only [Option.bind_eq_bind, Option.bind_some, Bool.not_true, Bool.false_eq_true,
          if_false, hout, Option.isSome_some]
  obtain ⟨ready, hready⟩ := Option.isSome_iff_exists.mp (hwaits 0 (Nat.zero_le _))
  obtain ⟨out, hout⟩ := Option.isSome_iff_exists.mp (hloop sectors.toNat 0 buffer (Nat.zero_add _))
  rw [DeviceTrace.atapiRead, hready]
  cases ready with
  | false => rfl
  | true =>
    simp only [Option.bind_eq_bind, Option.bind_some, Bool.not_true, Bool.false_eq_true, if_false,
      hout, Option.isSome_some]

end FullBlocks

/-- A poll in which every read answers the same. -/
def steady (status : UInt8) : Poll := Vector.replicate 16 status

/-- A drive that is busy once before each block, and delivers blocks of 2048 bytes, up to the wait
    in which it reports an error. -/
def busyOnce (words : Nat → UInt16) (failing : Nat) : DeviceTrace where
  polls w := [steady 0x80, steady (if w = failing then 0x01 else 0x08)]
  block i := ⟨0x00, 0x08, fun w => words (1024 * i + w)⟩

theorem size_busyOnce (words : Nat → UInt16) (failing i : Nat) :
    ((busyOnce words failing).block i).size = 2048 := by
  show (0x08 : UInt8).toNat <<< 8 ||| (0x00 : UInt8).toNat = 2048
  decide

theorem waitReady_busyOnce {words : Nat → UInt16} {failing w : Nat} :
    waitReady ((busyOnce words failing).polls w) = some (decide (w ≠ failing)) := by
  show waitReady [steady 0x80, steady (if w = failing then 0x01 else 0x08)] = _
  by_cases hw : w = failing
  · rw [if_pos hw, decide_eq_false (not_not.mpr hw)]
    rfl
  · rw [if_neg hw, decide_eq_true hw]
    rfl

/-- Three blocks, with an error in the wait for the second: one block is there. -/
theorem atapiRead_trace_busyOnce :
    ∃ r, (busyOnce (fun w => UInt16.ofNat w) 2).atapiRead 5 3 (fun _ => 0xEE) = some r ∧
      r.code = 1 ∧ r.stores = [(0, 2048)] ∧
      (∀ port bytes, .outsw port bytes ∈ r.sent → bytes = [0xA8, 0, 0, 0, 0, 5, 0, 0, 0, 3, 0, 0]) ∧
      r.buffer 2 = 1 ∧ r.buffer 2048 = 0xEE := by
  have hrun : ∃ r, (busyOnce (fun w => UInt16.ofNat w) 2).atapiRead 5 3 (fun _ => 0xEE) = some r :=
    ⟨_, rfl⟩
  obtain ⟨r, hr⟩ := hrun
  obtain ⟨hsent, -, k, hpasses, hend, hstores, hbuffer⟩ := atapiRead_trace (size_busyOnce _ 2) hr
  have hk : k = 1 ∧ r.code = 1 := by
    simp only [waitReady_busyOnce, Option.some.injEq, decide_eq_true_eq, decide_eq_false_iff_not,
      not_not] at hpasses hend
    have hshort : ¬ 1 < k := fun hlt => hpasses 1 hlt rfl
    rw [show (3 : UInt32).toNat = 3 from rfl] at hend
    omega
  obtain ⟨rfl, hcode⟩ := hk
  refine ⟨r, hr, hcode, hstores, hsent, (hbuffer 2).trans ?_, (hbuffer 2048).trans ?_⟩ <;> decide

end MyOs.Libraries
