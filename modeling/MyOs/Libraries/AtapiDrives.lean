/-
  Drives at their ports.

  1. **Blocks of any length** (`atapiRead_delivery_iff`): a drive may deliver the data of a call in
     more and shorter blocks than there are sectors.  `atapi_read` counts blocks as sectors, and
     needs all of them to be full.
  2. **Refinement** (`Realises.atapiRead`): at the ports of a drive that delivers sector by sector,
     the loop does what `Drive.atapiRead` says, up to the `2^20`-th sector, where the offset
     overflows.
-/
import Mathlib.Algebra.Order.BigOperators.Group.List
import Mathlib.Algebra.Order.Group.Nat
import Mathlib.Algebra.Ring.Nat
import MyOs.Libraries.Atapi

namespace MyOs.Libraries

/-! ## Blocks of any length -/

/-- A drive that makes no error and delivers `data` in blocks of some even sizes, none of them above
    the limit that `atapi_read` sets. -/
structure Delivery (t : DeviceTrace) (data : Bytes) (sizes : List Nat) : Prop where
  ready : ∀ w, w ≤ sizes.length → waitReady (t.polls w) = some true
  limit : ∀ c ∈ sizes, c % 2 = 0 ∧ c ≤ 2048
  size : ∀ i c, sizes[i]? = some c → (t.block i).size = c
  byte : ∀ i c, sizes[i]? = some c → ∀ j, j < c →
    (t.block i).byte j = data ((sizes.take i).sum + j)

/-- Sizes below a limit that sum up to as much as possible. -/
theorem eq_of_sum_eq {b : Nat} : ∀ {sizes : List Nat}, (∀ c ∈ sizes, c ≤ b) →
    sizes.sum = b * sizes.length → ∀ c ∈ sizes, c = b
  | [], _, _, c, hc => absurd hc List.not_mem_nil
  | x :: sizes, hle, hsum, c, hc => by
    have hx := hle x List.mem_cons_self
    have hrest : sizes.sum ≤ b * sizes.length := by
      rw [Nat.mul_comm]
      exact List.sum_le_card_nsmul sizes b fun c hc => hle c (List.mem_cons_of_mem x hc)
    rw [List.sum_cons, List.length_cons, Nat.mul_succ] at hsum
    rcases List.mem_cons.mp hc with rfl | hc
    · omega
    · exact eq_of_sum_eq (fun c hc => hle c (List.mem_cons_of_mem x hc)) (by omega) c hc

section Deliveries

variable {t : DeviceTrace} {data : Bytes} {sizes : List Nat} {lba sectors : UInt32}

/-- **When all data arrives**: it is stored one behind the other, and no block is left, exactly when
    every block is full and the offsets are `int`s. -/
theorem atapiRead_delivery_iff (h : Delivery t data sizes)
    (htotal : sizes.sum = 2048 * sectors.toNat) (buffer : Bytes) :
    (∃ r, t.atapiRead lba sectors buffer = some r ∧ r.code = 0 ∧
      (∀ j, j < 2048 * sectors.toNat → r.buffer j = data j) ∧
      r.stores.length = sizes.length) ↔
    (∀ c ∈ sizes, c = 2048) ∧ sectors.toNat ≤ 2 ^ 20 := by
  constructor
  · rintro ⟨r, hr, hcode, -, hlength⟩
    obtain ⟨k, hpasses, -, hstores, hend⟩ := atapiRead_eq_some hr
    -- as many passes as sectors, so as many blocks, each of at most one sector
    have hk : k = sectors.toNat := by
      rcases hend with ⟨-, -, hone, -⟩ | ⟨-, -, ⟨-, hk⟩ | ⟨hone, -⟩⟩
      · omega
      · exact hk
      · omega
    rw [hstores, DeviceTrace.storesFrom, List.length_map, List.length_range', hk] at hlength
    refine ⟨eq_of_sum_eq (fun c hc => (h.limit c hc).2) (by rw [htotal, hlength]), ?_⟩
    rcases Nat.eq_zero_or_pos sectors.toNat with hzero | hpos
    · omega
    · have hlast := (hpasses (sectors.toNat - 1) (Nat.zero_le _) (by omega)).2
      omega
  · rintro ⟨hfull, hsectors⟩
    obtain ⟨n, rfl⟩ : ∃ n, sizes = List.replicate n 2048 := ⟨_, List.eq_replicate_of_mem hfull⟩
    rw [List.sum_replicate_nat, Nat.mul_comm] at htotal
    obtain rfl : n = sectors.toNat := by omega
    -- blocks of one sector are what the loop expects
    have hget : ∀ i, i < sectors.toNat → (List.replicate sectors.toNat 2048)[i]? = some 2048 :=
      fun i hi => by rw [List.getElem?_replicate, if_pos hi]
    have hready : ∀ w, w ≤ sectors.toNat → waitReady (t.polls w) = some true := fun w hw =>
      h.ready w (by rwa [List.length_replicate])
    have hpasses : t.Passes 0 sectors.toNat := fun m _ hm =>
      ⟨hready (m + 1) (by omega), by omega⟩
    have hrun := @atapiRead_passes t buffer lba sectors sectors.toNat 0 rfl
      (hready 0 (Nat.zero_le _)) hpasses
    refine ⟨_, hrun, rfl, fun j hj => ?_, ?_⟩
    · have hblock : j / 2048 < sectors.toNat := by omega
      show t.filled buffer sectors.toNat j = data j
      rw [filled_full fun i hi => h.size i 2048 (hget i hi), if_pos (by omega),
        h.byte _ _ (hget _ hblock) _ (Nat.mod_lt j (by decide)), List.take_replicate,
        List.sum_replicate_nat]
      congr 1
      omega
    · show (t.storesFrom 0 sectors.toNat ++ []).length = _
      rw [List.append_nil, DeviceTrace.storesFrom, List.length_map, List.length_range',
        List.length_replicate]

end Deliveries

/-- The bytes of some words, the low byte first. -/
def wordBytes (words : Nat → UInt16) : Bytes := fun j =>
  if j % 2 = 0 then (words (j / 2)).toUInt8 else (words (j / 2) >>> 8).toUInt8

/-- `n` blocks of `2 * size` bytes each. -/
def halfBlocks (size : Nat) (words : Nat → UInt16) : DeviceTrace where
  polls _ := [steady 0x80, steady 0x08]
  block i := ⟨UInt8.ofNat (2 * size), UInt8.ofNat (2 * size / 256), fun w => words (size * i + w)⟩

theorem delivery_halfBlocks {size n : Nat} (hsize : size ≤ 1024) (words : Nat → UInt16) :
    Delivery (halfBlocks size words) (wordBytes words) (List.replicate n (2 * size)) := by
  have hblock : ∀ i, ((halfBlocks size words).block i).size = 2 * size := by
    intro i
    show (UInt8.ofNat (2 * size / 256)).toNat <<< 8 ||| (UInt8.ofNat (2 * size)).toNat = 2 * size
    rw [UInt8.toNat_ofNat', UInt8.toNat_ofNat', Nat.shiftLeft_eq, Nat.mul_comm _ (2 ^ 8),
      ← Nat.two_pow_add_eq_or_of_lt (Nat.mod_lt _ (by decide))]
    omega
  have hready : waitReady [steady 0x80, steady 0x08] = some true := by decide
  refine ⟨fun _ _ => hready, fun c hc => ?_, fun i c hc => ?_, fun i c hc j hj => ?_⟩
  · obtain rfl := List.eq_of_mem_replicate hc
    omega
  · obtain rfl := List.eq_of_mem_replicate (List.mem_of_getElem? hc)
    exact hblock i
  · obtain rfl := List.eq_of_mem_replicate (List.mem_of_getElem? hc)
    have hi : i < n := by
      have hlt := (List.getElem?_eq_some_iff.mp hc).1
      rwa [List.length_replicate] at hlt
    rw [List.take_replicate, List.sum_replicate_nat, Nat.min_eq_left (Nat.le_of_lt hi)]
    have hmod : (i * (2 * size) + j) % 2 = j % 2 := by
      rw [Nat.mul_left_comm, Nat.mul_add_mod]
    have hdiv : (i * (2 * size) + j) / 2 = size * i + j / 2 := by
      rw [Nat.mul_left_comm, Nat.mul_add_div (by decide), Nat.mul_comm]
    rw [wordBytes, hmod, hdiv]
    rfl

/-- Two sectors in two full blocks. -/
theorem atapiRead_delivery_iff_full :
    ∃ r, (halfBlocks 1024 UInt16.ofNat).atapiRead 5 2 (fun _ => 0) = some r ∧ r.code = 0 ∧
      (∀ j, j < 2048 * (2 : UInt32).toNat → r.buffer j = wordBytes UInt16.ofNat j) ∧
      r.stores.length = [2048, 2048].length :=
  (atapiRead_delivery_iff (delivery_halfBlocks (n := 2) (Nat.le_refl 1024) UInt16.ofNat) rfl
    fun _ => 0).mpr (by decide)

/-- **A sector in two blocks** is not read as a whole: the second block is left at the drive. -/
theorem not_atapiRead_delivery : ¬ ∀ (t : DeviceTrace) (data : Bytes) (sizes : List Nat)
    (lba sectors : UInt32) (buffer : Bytes), Delivery t data sizes →
    sizes.sum = 2048 * sectors.toNat →
    ∃ r, t.atapiRead lba sectors buffer = some r ∧ r.code = 0 ∧
      (∀ j, j < 2048 * sectors.toNat → r.buffer j = data j) ∧
      r.stores.length = sizes.length := by
  intro h
  have hdelivery : Delivery (halfBlocks 512 UInt16.ofNat) (wordBytes UInt16.ofNat) [1024, 1024] :=
    delivery_halfBlocks (n := 2) (by decide) UInt16.ofNat
  obtain ⟨r, hr, hcode, -, hlength⟩ := h _ _ _ 5 1 (fun _ => 0) hdelivery rfl
  obtain ⟨k, -, -, hstores, hend⟩ := atapiRead_eq_some hr
  rw [hstores, DeviceTrace.storesFrom, List.length_map, List.length_range'] at hlength
  obtain rfl : k = 2 := hlength
  rcases hend with ⟨-, hk, -⟩ | ⟨-, -, ⟨-, hk⟩ | ⟨-, hlt, -⟩⟩
  · cases hk
  · cases hk
  · exact absurd hlt (by decide)

/-! ## Refinement -/

namespace Drive

variable {d : Drive} {call lba : Nat}

/-- Where the first error is. -/
theorem sectorsBefore_spec : ∀ n i, d.sectorsBefore call n i ≤ n ∧
    (∀ m, i ≤ m → m < i + d.sectorsBefore call n i → d.fails call m = false) ∧
    (d.sectorsBefore call n i < n → d.fails call (i + d.sectorsBefore call n i) = true)
  | 0, i => ⟨Nat.le_refl 0, fun m h₁ h₂ => absurd h₂ (Nat.not_lt.mpr h₁),
      fun hlt => absurd hlt (Nat.lt_irrefl 0)⟩
  | n + 1, i => by
    rw [sectorsBefore]
    split
    · rename_i hfails
      exact ⟨Nat.zero_le _, fun m h₁ h₂ => absurd h₂ (Nat.not_lt.mpr h₁), fun _ => hfails⟩
    · rename_i hfails
      obtain ⟨hle, hbefore, hat⟩ := sectorsBefore_spec n (i + 1)
      have hindex : i + 1 + d.sectorsBefore call n (i + 1)
          = i + (d.sectorsBefore call n (i + 1) + 1) := by omega
      rw [hindex] at hbefore hat
      refine ⟨Nat.succ_le_succ hle, fun m h₁ h₂ => ?_, fun hlt => hat (Nat.lt_of_succ_lt_succ hlt)⟩
      rcases Nat.eq_or_lt_of_le h₁ with rfl | hlt
      · exact Bool.eq_false_iff.mpr hfails
      · exact hbefore m hlt h₂

/-- The error code of the loop. -/
theorem transfer_code : ∀ n i b, (d.transfer call lba n i b).1
    = if d.sectorsBefore call n i < n then 1 else 0
  | 0, _, _ => rfl
  | n + 1, i, b => by
    rw [transfer, sectorsBefore]
    split
    · exact (if_pos (Nat.zero_lt_succ n)).symm
    · rw [transfer_code n (i + 1)]
      simp only [Nat.succ_lt_succ_iff]

end Drive

/-- The trace of a call on a drive that delivers sector by sector: all waits end, with an error where
    the drive makes one. -/
structure DeviceTrace.Realises (t : DeviceTrace) (d : Drive) (call lba : Nat) : Prop where
  start : waitReady (t.polls 0) = some !d.refuses call
  wait : ∀ i, waitReady (t.polls (i + 1)) = some !d.fails call i
  size : ∀ i, (t.block i).size = 2048
  byte : ∀ i j, j < 2048 → (t.block i).byte j = d.disc (2048 * (lba + i) + j)

section Refinement

variable {t : DeviceTrace} {d : Drive} {call : Nat} {lba sectors : UInt32}

theorem DeviceTrace.Realises.filled {lba : Nat} (h : t.Realises d call lba) (buffer : Bytes)
    (k : Nat) : t.filled buffer k = d.received lba k buffer := by
  funext j
  rw [filled_full fun i _ => h.size i, Drive.received, Nat.mul_comm k]
  split
  · rw [h.byte _ _ (Nat.mod_lt j (by decide))]
    congr 1
    omega
  · rfl

/-- The waits in front of the sectors that are delivered. -/
theorem DeviceTrace.Realises.passes {lba : Nat} (h : t.Realises d call lba) {k : Nat}
    (hk : k ≤ d.sectorsBefore call sectors.toNat 0) (hint : k ≤ 2 ^ 20) : t.Passes 0 k := by
  obtain ⟨-, hbefore, -⟩ := @d.sectorsBefore_spec call sectors.toNat 0
  intro m h₁ h₂
  refine ⟨?_, by omega⟩
  rw [h.wait m, hbefore m h₁ (by omega)]
  rfl

/-- **Refinement**: at the ports the loop does what `Drive.atapiRead` says, and stores to the sectors
    that are delivered. -/
theorem DeviceTrace.Realises.atapiRead (h : t.Realises d call lba.toNat)
    (hint : d.delivered call sectors ≤ 2 ^ 20) (buffer : Bytes) :
    ∃ sent, t.atapiRead lba sectors buffer
      = some ⟨(d.atapiRead call lba sectors buffer).1, (d.atapiRead call lba sectors buffer).2, sent,
          (List.range (d.delivered call sectors)).map fun i => (2048 * i, 2048)⟩ := by
  have hready := h.start
  cases hrefuses : d.refuses call with
  | true =>
    rw [hrefuses] at hready
    refine ⟨setup, ?_⟩
    rw [DeviceTrace.atapiRead, hready, Drive.delivered, Drive.atapiRead, if_pos hrefuses,
      if_pos hrefuses]
    rfl
  | false =>
    have hne : ¬ d.refuses call = true := Bool.eq_false_iff.mp hrefuses
    have hbuffer := Drive.atapiRead_eq (d := d) call lba sectors buffer
    rw [hrefuses] at hready
    rw [Drive.delivered, if_neg hne] at hint hbuffer ⊢
    obtain ⟨hle, -, hat⟩ := @d.sectorsBefore_spec call sectors.toNat 0
    have hpasses := @Realises.passes t d call sectors lba.toNat h _ (Nat.le_refl _) hint
    have hcode : (d.atapiRead call lba sectors buffer).1
        = if d.sectorsBefore call sectors.toNat 0 < sectors.toNat then 1 else 0 := by
      rw [Drive.atapiRead, if_neg hne, Drive.transfer_code]
    have hstores := storesFrom_full (t := t)
      (k := d.sectorsBefore call sectors.toNat 0) fun i _ => h.size i
    refine ⟨setup ++ [.outsw 0x170 (readCmd lba sectors)], ?_⟩
    rw [hcode, hbuffer, ← hstores, ← h.filled]
    generalize d.sectorsBefore call sectors.toNat 0 = k at *
    rw [Nat.zero_add] at hat
    obtain ⟨n, hn⟩ := Nat.exists_eq_add_of_le hle
    rw [atapiRead_passes hn hready hpasses]
    -- the run ends behind the last sector, or in the wait for one that is not delivered
    cases n with
    | zero =>
      rw [if_neg (by omega), DeviceTrace.transferLoop, Option.map_some, List.append_nil]
    | succ n =>
      have hwait := h.wait k
      rw [hat (by omega)] at hwait
      rw [if_pos (by omega), transferLoop_error hwait, Option.map_some, List.append_nil]

/-- The offset of the `2^20`-th sector is not an `int`. -/
theorem DeviceTrace.Realises.atapiRead_overflow (h : t.Realises d call lba.toNat)
    (hint : 2 ^ 20 < d.delivered call sectors) (buffer : Bytes) :
    t.atapiRead lba sectors buffer = none := by
  unfold Drive.delivered at hint
  split at hint
  · exact absurd hint (Nat.not_lt_zero _)
  · rename_i hrefuses
    have hready := h.start
    rw [Bool.eq_false_iff.mpr hrefuses] at hready
    obtain ⟨hle, hbefore, -⟩ := @d.sectorsBefore_spec call sectors.toNat 0
    obtain ⟨n, hn⟩ := Nat.exists_eq_add_of_lt (Nat.lt_of_lt_of_le hint hle)
    have hwait := h.wait (2 ^ 20)
    rw [hbefore (2 ^ 20) (Nat.zero_le _) (by omega)] at hwait
    rw [atapiRead_passes (n := n + 1) (by omega) hready
      (@Realises.passes t d call sectors lba.toNat h _ (Nat.le_of_lt hint) (Nat.le_refl _)),
      DeviceTrace.transferLoop, hwait, mulInt, if_neg (by decide)]
    rfl

end Refinement

/-! ## Drives at their ports -/

/-- What a drive answers in each call, by the sectors that it is asked for. -/
abbrev PortDrive := Nat → UInt32 → UInt32 → DeviceTrace

/-- At its ports the drive is `d`. -/
def PortDrive.Realises (P : PortDrive) (d : Drive) : Prop :=
  ∀ call lba sectors, (P call lba sectors).Realises d call lba.toNat

/-- A drive that answers at once. -/
def Drive.ports (d : Drive) : PortDrive := fun call lba _ =>
  { polls := fun w => match w with
      | 0 => [steady (if d.refuses call then 0x01 else 0x08)]
      | i + 1 => [steady (if d.fails call i then 0x01 else 0x08)]
    block := fun i => ⟨0x00, 0x08, fun w =>
      (d.disc (2048 * (lba.toNat + i) + 2 * w)).toUInt16 |||
        (d.disc (2048 * (lba.toNat + i) + 2 * w + 1)).toUInt16 <<< 8⟩ }

theorem toUInt8_word (low high : UInt8) :
    (low.toUInt16 ||| high.toUInt16 <<< 8).toUInt8 = low ∧
      ((low.toUInt16 ||| high.toUInt16 <<< 8) >>> 8).toUInt8 = high := by
  have hlow : low.toNat < 2 ^ 8 := low.toNat_lt
  have hhigh : high.toNat < 2 ^ 8 := high.toNat_lt
  have hword : (low.toUInt16 ||| high.toUInt16 <<< 8).toNat = 2 ^ 8 * high.toNat + low.toNat := by
    have hshift : (high.toUInt16 <<< 8).toNat = 2 ^ 8 * high.toNat := by
      rw [UInt16.toNat_shiftLeft, UInt8.toNat_toUInt16]
      show high.toNat <<< 8 % 2 ^ 16 = _
      rw [Nat.shiftLeft_eq, Nat.mul_comm]
      omega
    rw [UInt16.toNat_or, hshift, UInt8.toNat_toUInt16, Nat.or_comm]
    exact (Nat.two_pow_add_eq_or_of_lt hlow _).symm
  constructor
  · apply UInt8.toNat_inj.mp
    rw [UInt16.toNat_toUInt8, hword]
    omega
  · apply UInt8.toNat_inj.mp
    rw [UInt16.toNat_toUInt8, UInt16.toNat_shiftRight, hword]
    show (2 ^ 8 * high.toNat + low.toNat) >>> 8 % 2 ^ 8 = _
    rw [Nat.shiftRight_eq_div_pow]
    omega

theorem Drive.ports_realises (d : Drive) : d.ports.Realises d := by
  intro call lba sectors
  have hsteady : ∀ error : Bool,
      waitReady [steady (if error then 0x01 else 0x08)] = some !error := by decide
  refine ⟨hsteady _, fun i => hsteady _, fun i => ?_, fun i j hj => ?_⟩
  · show (0x08 : UInt8).toNat <<< 8 ||| (0x00 : UInt8).toNat = 2048
    decide
  · obtain ⟨hlow, hhigh⟩ := toUInt8_word (d.disc (2048 * (lba.toNat + i) + 2 * (j / 2)))
      (d.disc (2048 * (lba.toNat + i) + 2 * (j / 2) + 1))
    show (if j % 2 = 0 then _ else _) = _
    split
    · refine hlow.trans (congrArg d.disc ?_)
      omega
    · refine hhigh.trans (congrArg d.disc ?_)
      omega

end MyOs.Libraries
