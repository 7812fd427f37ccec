/-
  `idt_init` and what the processor finds in the table.

  1. **One descriptor** (`decodeGate_idtSetDescriptor`): the address of a stub is split over the eight
     bytes of a gate and comes back from them; nothing else is written.
  2. **The table** (`decodeGate_idtInit`): the loop leaves a gate for each of the 49 vectors, and the
     last call lets user code use the one of the system calls.  What `lidt` loads is `idtr`
     (`loadIdtr_idtInit`), which the stores to the gates and to `vectors` do not reach.
  3. **Interrupts** (`idtInit_enters`): for every vector and every cause the processor enters the stub
     of the vector with interrupts disabled, or raises a protection fault where it should.
-/
import MyOs.Boot.Stubs
import MyOs.Lib.Words

namespace MyOs.Boot

open MyOs.Lib.Cdecl
open MyOs.Lib.Stores
open MyOs.Lib.Words

/-! ## The program -/

/-- `IDT_MAX_DESCRIPTORS`. -/
def idtMaxDescriptors : Nat := 49

/-- The address is one of `n` from `start` on. -/
def InObject (start : UInt32) (n : Nat) (a : UInt32) : Prop :=
  start.toNat ≤ a.toNat ∧ a.toNat < start.toNat + n

/-- Two objects of these sizes do not overlap. -/
def Separate (a : UInt32) (m : Nat) (b : UInt32) (n : Nat) : Prop :=
  a.toNat + m ≤ b.toNat ∨ b.toNat + n ≤ a.toNat

instance (a : UInt32) (m : Nat) (b : UInt32) (n : Nat) : Decidable (Separate a m b n) :=
  inferInstanceAs (Decidable (_ ∨ _))

/-- What the linker decides: where `idt`, `idtr` and `vectors` are, three objects, and the addresses in
    `isr_stub_table`, at which the stubs of `idt.s` are. -/
structure IdtLayout where
  idt : UInt32
  idtrAddr : UInt32
  vectors : UInt32
  stub : UInt8 → UInt32
  code : UInt32 → Option (Stub CHandler)
  code_stub : ∀ v, v < 49 → code (stub v) = isrStubTable[v.toNat]?
  idt_end : idt.toNat + 8 * 256 ≤ 2 ^ 32
  idtr_end : idtrAddr.toNat + 6 ≤ 2 ^ 32
  vectors_end : vectors.toNat + idtMaxDescriptors ≤ 2 ^ 32
  idt_idtr : Separate idt (8 * 256) idtrAddr 6
  idt_vectors : Separate idt (8 * 256) vectors idtMaxDescriptors
  idtr_vectors : Separate idtrAddr 6 vectors idtMaxDescriptors

/-- The three objects. -/
def IdtLayout.Owns (L : IdtLayout) (a : UInt32) : Prop :=
  InObject L.idt (8 * 256) a ∨ InObject L.idtrAddr 6 a ∨ InObject L.vectors idtMaxDescriptors a

/-- `&idt[vector]`. -/
def IdtLayout.slot (L : IdtLayout) (vector : UInt8) : UInt32 := L.idt + 8 * vector.toUInt32

/-- The stores of `idt_set_descriptor`, a `uint16_t` as two bytes: `isr_low`, `kernel_cs`,
    `attributes`, `isr_high`, `reserved`. -/
def descriptorStores (descriptor isr : UInt32) (flags : UInt8) : List (UInt32 × UInt8) :=
  let isrLow := (isr &&& 0xFFFF).toUInt16
  let kernelCs : UInt16 := 0x08
  let isrHigh := (isr >>> 16).toUInt16
  [(descriptor + 0, isrLow.toUInt8), (descriptor + 1, (isrLow >>> 8).toUInt8),
    (descriptor + 2, kernelCs.toUInt8), (descriptor + 3, (kernelCs >>> 8).toUInt8),
    (descriptor + 5, flags),
    (descriptor + 6, isrHigh.toUInt8), (descriptor + 7, (isrHigh >>> 8).toUInt8),
    (descriptor + 4, 0)]

/-- `idt_set_descriptor`. -/
def idtSetDescriptor (L : IdtLayout) (mem : ByteMem) (vector : UInt8) (isr : UInt32)
    (flags : UInt8) : ByteMem := storeAll mem (descriptorStores (L.slot vector) isr flags)

/-- `idtr_t`. -/
structure Idtr where
  limit : UInt16
  base : UInt32

/-- What `idt_init` stores in `idtr`. -/
def IdtLayout.idtr (L : IdtLayout) : Idtr := ⟨8 * UInt16.ofNat idtMaxDescriptors - 1, L.idt⟩

/-- The stores to `idtr.base` and `idtr.limit`, which is in front of it. -/
def setIdtr (L : IdtLayout) (mem : ByteMem) : ByteMem :=
  let mem := storeWord mem (L.idtrAddr + 2) L.idtr.base
  storeAll mem [(L.idtrAddr + 0, L.idtr.limit.toUInt8), (L.idtrAddr + 1, (L.idtr.limit >>> 8).toUInt8)]

/-- `vectors[vector] = true`. -/
def setVector (L : IdtLayout) (mem : ByteMem) (vector : UInt8) : ByteMem :=
  Function.update mem (L.vectors + vector.toUInt32) 1

/-- The loop of `idt_init`, `n` times. -/
def idtLoop (L : IdtLayout) (mem : ByteMem) : Nat → ByteMem
  | 0 => mem
  | n + 1 =>
    let mem := idtSetDescriptor L (idtLoop L mem n) (UInt8.ofNat n) (L.stub (UInt8.ofNat n)) 0x8E
    setVector L mem (UInt8.ofNat n)

/-- `idt_init` up to `lidt`: `idtr`, the loop, and the descriptor of the system calls. -/
def idtInit (L : IdtLayout) (mem : ByteMem) : ByteMem :=
  idtSetDescriptor L (idtLoop L (setIdtr L mem) idtMaxDescriptors) 0x30 (L.stub 0x30) 0xEE

/-- What `lidt` loads from an address. -/
def loadIdtr (mem : ByteMem) (a : UInt32) : Idtr where
  limit := UInt16.ofNat ((mem (a + 0)).toNat + 2 ^ 8 * (mem (a + 1)).toNat)
  base := loadWord mem (a + 2)

/-! ## The processor -/

/-- A gate. -/
structure Gate where
  offset : UInt32
  selector : UInt16
  reserved : UInt8
  attributes : UInt8
  deriving DecidableEq

/-- What the processor reads from the eight bytes at an address. -/
def decodeGate (mem : ByteMem) (a : UInt32) : Gate where
  offset := UInt32.ofNat ((mem (a + 0)).toNat + 2 ^ 8 * (mem (a + 1)).toNat
    + 2 ^ 16 * ((mem (a + 6)).toNat + 2 ^ 8 * (mem (a + 7)).toNat))
  selector := UInt16.ofNat ((mem (a + 2)).toNat + 2 ^ 8 * (mem (a + 3)).toNat)
  reserved := mem (a + 4)
  attributes := mem (a + 5)

/-- Why an interrupt happens: a device or an exception, or an `INT` of code of some privilege. -/
inductive Cause where
  | event
  | int (cpl : Fin 4)
  deriving DecidableEq

/-- What the processor does: it enters a handler, with interrupts disabled or not; or it raises a
    fault with an error code. -/
inductive Entered where
  | handler (selector : UInt16) (offset : UInt32) (disabled : Bool)
  | generalProtection (code : Nat)
  | notPresent (code : Nat)
  | otherGate
  deriving DecidableEq

/-- The error code of a fault that an interrupt raises. -/
def errorCode (c : Cause) (v : UInt8) : Nat := 8 * v.toNat + 2 + if c = .event then 1 else 0

/-- The privilege that an `INT` needs. -/
def Gate.dpl (g : Gate) : Nat := g.attributes.toNat / 2 ^ 5 % 2 ^ 2

/-- The processor takes an interrupt: the limit, the type, the privilege of an `INT`, the present bit.
    Gates for 16-bit code and tasks are of other types. -/
def enter (mem : ByteMem) (r : Idtr) (c : Cause) (v : UInt8) : Entered :=
  if r.limit.toNat < 8 * v.toNat + 7 then .generalProtection (errorCode c v)
  else
    let g := decodeGate mem (r.base + 8 * v.toUInt32)
    let type := g.attributes.toNat % 2 ^ 5
    if type ≠ 0xE ∧ type ≠ 0xF then .otherGate
    else if (match c with | .event => false | .int cpl => g.dpl < cpl.val) then
      .generalProtection (errorCode c v)
    else if g.attributes.toNat / 2 ^ 7 = 0 then .notPresent (errorCode c v)
    else .handler g.selector g.offset (type = 0xE)

/-! ## One descriptor -/

variable {L : IdtLayout}

theorem descriptorStores_addresses (a isr : UInt32) (flags : UInt8) :
    (descriptorStores a isr flags).map Prod.fst = [0, 1, 2, 3, 5, 6, 7, 4].map (a + ·) := rfl

theorem nodup_descriptorStores (a isr : UInt32) (flags : UInt8) :
    ((descriptorStores a isr flags).map Prod.fst).Nodup := by
  rw [descriptorStores_addresses]
  exact List.Nodup.map (fun _ _ => (UInt32.add_right_inj a).mp) (by decide)

/-- A gate that is put together from two halves of an address. -/
theorem halves (isr : UInt32) : UInt32.ofNat ((isr &&& 0xFFFF).toUInt16.toUInt8.toNat
      + 2 ^ 8 * ((isr &&& 0xFFFF).toUInt16 >>> 8).toUInt8.toNat
      + 2 ^ 16 * ((isr >>> 16).toUInt16.toUInt8.toNat
        + 2 ^ 8 * ((isr >>> 16).toUInt16 >>> 8).toUInt8.toNat)) = isr := by
  have hlt := isr.toNat_lt
  have hmask : isr.toNat &&& 65535 = isr.toNat % 2 ^ 16 := Nat.and_two_pow_sub_one_eq_mod _ 16
  apply UInt32.toNat_inj.mp
  simp only [UInt32.toNat_ofNat', UInt16.toNat_toUInt8, UInt16.toNat_shiftRight,
    UInt32.toNat_toUInt16, UInt32.toNat_and, UInt32.toNat_shiftRight, UInt32.reduceToNat,
    UInt16.reduceToNat, Nat.reduceMod, Nat.shiftRight_eq_div_pow, hmask]
  omega

/-- **A descriptor** can be read back. -/
theorem decodeGate_idtSetDescriptor (mem : ByteMem) (vector : UInt8) (isr : UInt32)
    (flags : UInt8) :
    decodeGate (idtSetDescriptor L mem vector isr flags) (L.slot vector)
      = ⟨isr, 0x08, 0, flags⟩ := by
  have hbyte : ∀ i k v,
      (descriptorStores (L.slot vector) isr flags)[i]? = some (L.slot vector + k, v) →
      idtSetDescriptor L mem vector isr flags (L.slot vector + k) = v :=
    fun i k v hi => storeAll_of_nodup (nodup_descriptorStores _ isr flags) mem
      (List.mem_of_getElem? hi)
  unfold decodeGate
  rw [hbyte 0 0 _ rfl, hbyte 1 1 _ rfl, hbyte 2 2 _ rfl, hbyte 3 3 _ rfl, hbyte 4 5 _ rfl,
    hbyte 5 6 _ rfl, hbyte 6 7 _ rfl, hbyte 7 4 _ rfl, halves]
  rfl

/-- **Nothing outside the eight bytes** is written. -/
theorem idtSetDescriptor_of_ne {b : UInt32} {vector : UInt8}
    (h : ∀ k : UInt32, k < 8 → b ≠ L.slot vector + k) (mem : ByteMem) (isr : UInt32)
    (flags : UInt8) : idtSetDescriptor L mem vector isr flags b = mem b := by
  refine storeAll_of_ne fun w hw => ?_
  have hmem := List.mem_map_of_mem (f := Prod.fst) hw
  rw [descriptorStores_addresses] at hmem
  obtain ⟨k, hk, heq⟩ := List.mem_map.mp hmem
  have hlt : ∀ k ∈ ([0, 1, 2, 3, 5, 6, 7, 4] : List UInt32), k < 8 := by simp
  rw [← heq]
  exact (h k (hlt k hk)).symm

/-- A gate is read from eight bytes. -/
theorem decodeGate_congr {m₁ m₂ : ByteMem} {a : UInt32}
    (h : ∀ k : UInt32, k < 8 → m₁ (a + k) = m₂ (a + k)) : decodeGate m₁ a = decodeGate m₂ a := by
  unfold decodeGate
  rw [h 0 (by decide), h 1 (by decide), h 2 (by decide), h 3 (by decide), h 4 (by decide),
    h 5 (by decide), h 6 (by decide), h 7 (by decide)]

/-! ## The table -/

/-- The slots of different vectors are apart. -/
theorem slot_apart {v w : UInt8} (hne : v ≠ w) {i j : UInt32} (hi : i < 8) (hj : j < 8) :
    L.slot v + i ≠ L.slot w + j := by
  intro heq
  rw [IdtLayout.slot, IdtLayout.slot, UInt32.add_assoc, UInt32.add_assoc,
    UInt32.add_right_inj] at heq
  rw [UInt32.lt_iff_toNat_lt] at hi hj
  have hsum := congrArg UInt32.toNat heq
  have hv : v.toNat < 2 ^ 8 := v.toNat_lt
  have hw : w.toNat < 2 ^ 8 := w.toNat_lt
  rw [UInt32.toNat_add, UInt32.toNat_add, UInt32.toNat_mul, UInt32.toNat_mul,
    UInt8.toNat_toUInt32, UInt8.toNat_toUInt32] at hsum
  simp only [UInt32.reduceToNat] at hi hj hsum
  exact hne (UInt8.toNat_inj.mp (by omega))

/-- The gates of the others stay. -/
theorem decodeGate_of_ne {v w : UInt8} (hne : v ≠ w) (mem : ByteMem) (isr : UInt32)
    (flags : UInt8) :
    decodeGate (idtSetDescriptor L mem w isr flags) (L.slot v) = decodeGate mem (L.slot v) :=
  decodeGate_congr fun _ hk => idtSetDescriptor_of_ne (fun _ hj => slot_apart hne hk hj) mem isr flags

/-- A byte of a gate. -/
theorem toNat_slot {v : UInt8} {k : UInt32} (hk : k < 8) :
    (L.slot v + k).toNat = L.idt.toNat + 8 * v.toNat + k.toNat := by
  have hend := L.idt_end
  have hv : v.toNat < 2 ^ 8 := v.toNat_lt
  have hk' : k.toNat < 8 := UInt32.lt_iff_toNat_lt.mp hk
  rw [IdtLayout.slot, UInt32.toNat_add, UInt32.toNat_add, UInt32.toNat_mul, UInt8.toNat_toUInt32]
  simp only [UInt32.reduceToNat]
  omega

/-- It is in the object. -/
theorem inObject_slot {v : UInt8} {k : UInt32} (hk : k < 8) :
    InObject L.idt (8 * 256) (L.slot v + k) := by
  have haddr := toNat_slot (L := L) (v := v) hk
  have hv : v.toNat < 2 ^ 8 := v.toNat_lt
  have hk' : k.toNat < 8 := UInt32.lt_iff_toNat_lt.mp hk
  constructor
  · omega
  · omega

theorem idtSetDescriptor_outside {b : UInt32} (hb : ¬ InObject L.idt (8 * 256) b) (mem : ByteMem)
    (vector : UInt8) (isr : UInt32) (flags : UInt8) :
    idtSetDescriptor L mem vector isr flags b = mem b := by
  refine idtSetDescriptor_of_ne (fun k hk => ?_) mem isr flags
  rintro rfl
  exact hb (inObject_slot hk)

/-- One of the `vectors`. -/
theorem inObject_vector {v : UInt8} (hv : v < 49) :
    InObject L.vectors idtMaxDescriptors (L.vectors + v.toUInt32) := by
  have hend := L.vectors_end
  have hsize : idtMaxDescriptors = 49 := rfl
  have hv' : v.toNat < 49 := UInt8.lt_iff_toNat_lt.mp hv
  unfold InObject
  rw [UInt32.toNat_add, UInt8.toNat_toUInt32]
  omega

theorem setVector_outside {b : UInt32} (hb : ¬ InObject L.vectors idtMaxDescriptors b)
    (mem : ByteMem) {vector : UInt8} (hv : vector < 49) : setVector L mem vector b = mem b := by
  refine Function.update_of_ne ?_ _ _
  rintro rfl
  exact hb (inObject_vector hv)

theorem setIdtr_outside {b : UInt32} (hb : ¬ InObject L.idtrAddr 6 b) (mem : ByteMem) :
    setIdtr L mem b = mem b := by
  have hend := L.idtr_end
  have hne : ∀ k : UInt32, k < 6 → b ≠ L.idtrAddr + k := by
    rintro k hk rfl
    have hk' : k.toNat < 6 := UInt32.lt_iff_toNat_lt.mp hk
    refine hb ⟨?_, ?_⟩
    · rw [UInt32.toNat_add]
      omega
    · rw [UInt32.toNat_add]
      omega
  have hlimit : ∀ w ∈ [(L.idtrAddr + 0, L.idtr.limit.toUInt8),
      (L.idtrAddr + 1, (L.idtr.limit >>> 8).toUInt8)], w.1 ≠ b := by
    intro w hw
    simp only [List.mem_cons, List.not_mem_nil, or_false] at hw
    rcases hw with rfl | rfl
    · exact (hne 0 (by decide)).symm
    · exact (hne 1 (by decide)).symm
  refine (storeAll_of_ne hlimit).trans (storeWord_of_ne (fun k hk => ?_) mem _)
  rw [UInt32.add_assoc]
  refine hne (2 + k) ?_
  rw [UInt32.lt_iff_toNat_lt] at hk ⊢
  rw [UInt32.toNat_add]
  simp only [UInt32.reduceToNat] at hk ⊢
  omega

/-- The objects are apart. -/
theorem not_vectors_slot {v : UInt8} {k : UInt32} (hk : k < 8) :
    ¬ InObject L.vectors idtMaxDescriptors (L.slot v + k) := by
  rintro ⟨hle, hlt⟩
  obtain ⟨hfirst, hlast⟩ := inObject_slot (L := L) (v := v) hk
  rcases L.idt_vectors with hbelow | habove
  · omega
  · omega

theorem setVector_gate (mem : ByteMem) {vector : UInt8} (hv : vector < 49) (v : UInt8) :
    decodeGate (setVector L mem vector) (L.slot v) = decodeGate mem (L.slot v) :=
  decodeGate_congr fun _ hk => setVector_outside (not_vectors_slot hk) mem hv

/-- A number of the loop. -/
theorem ofNat_lt_max {n : Nat} (hn : n < 49) : UInt8.ofNat n < 49 := by
  rw [UInt8.lt_iff_toNat_lt, UInt8.toNat_ofNat', Nat.mod_eq_of_lt (by omega)]
  exact hn

/-- The gates behind `n` turns of the loop. -/
theorem decodeGate_idtLoop (mem : ByteMem) : ∀ {n : Nat} {v : UInt8}, n ≤ 49 → v.toNat < n →
    decodeGate (idtLoop L mem n) (L.slot v) = ⟨L.stub v, 0x08, 0, 0x8E⟩
  | n + 1, v, hn, hv => by
    have hnat : (UInt8.ofNat n).toNat = n := by
      rw [UInt8.toNat_ofNat', Nat.mod_eq_of_lt (by omega)]
    unfold idtLoop
    rw [setVector_gate _ (ofNat_lt_max (by omega))]
    rcases eq_or_ne v (UInt8.ofNat n) with rfl | hne
    · exact decodeGate_idtSetDescriptor ..
    · have hlt : v.toNat < n := by
        refine Nat.lt_of_le_of_ne (Nat.le_of_lt_succ hv) fun heq => hne (UInt8.toNat_inj.mp ?_)
        rw [hnat, heq]
      rw [decodeGate_of_ne hne]
      exact decodeGate_idtLoop mem (by omega) hlt

/-- The gate of a vector: only the one of the system calls is open to user code. -/
def gateOf (L : IdtLayout) (v : UInt8) : Gate :=
  ⟨L.stub v, 0x08, 0, if v = 0x30 then 0xEE else 0x8E⟩

theorem decodeGate_idtInit (mem : ByteMem) {v : UInt8} (hv : v < 49) :
    decodeGate (idtInit L mem) (L.slot v) = gateOf L v := by
  unfold idtInit gateOf
  rcases eq_or_ne v 0x30 with rfl | hne
  · rw [if_pos rfl]
    exact decodeGate_idtSetDescriptor ..
  · rw [decodeGate_of_ne hne, if_neg hne]
    exact decodeGate_idtLoop _ (Nat.le_refl 49) (UInt8.lt_iff_toNat_lt.mp hv)

theorem idtLoop_of_ne {b : UInt32} (hb : ∀ v k, v < 49 → k < 8 → b ≠ L.slot v + k)
    (hvectors : ¬ InObject L.vectors idtMaxDescriptors b) (mem : ByteMem) :
    ∀ {n : Nat}, n ≤ 49 → idtLoop L mem n b = mem b
  | 0, _ => rfl
  | n + 1, hn => by
    have hlt : UInt8.ofNat n < 49 := ofNat_lt_max hn
    unfold idtLoop
    rw [setVector_outside hvectors _ hlt, idtSetDescriptor_of_ne (fun k hk => hb _ k hlt hk)]
    exact idtLoop_of_ne hb hvectors mem (by omega)

/-- **Nothing but the gates, `vectors` and `idtr`** is written. -/
theorem idtInit_of_ne {b : UInt32} (hb : ∀ v k, v < 49 → k < 8 → b ≠ L.slot v + k)
    (hvectors : ¬ InObject L.vectors idtMaxDescriptors b) (hidtr : ¬ InObject L.idtrAddr 6 b)
    (mem : ByteMem) : idtInit L mem b = mem b := by
  have hloop : ∀ m, idtLoop L m idtMaxDescriptors b = m b :=
    fun m => idtLoop_of_ne hb hvectors m (Nat.le_refl 49)
  unfold idtInit
  rw [idtSetDescriptor_of_ne (fun k hk => hb _ k (by decide) hk), hloop, setIdtr_outside hidtr]

theorem idtInit_outside {b : UInt32} (hb : ¬ L.Owns b) (mem : ByteMem) : idtInit L mem b = mem b := by
  refine idtInit_of_ne (fun v k _ hk => ?_) (fun h => hb (.inr (.inr h))) (fun h => hb (.inr (.inl h)))
    mem
  rintro rfl
  exact hb (.inl (inObject_slot hk))

/-- What is in `idtr` behind its stores. -/
theorem loadIdtr_setIdtr (mem : ByteMem) : loadIdtr (setIdtr L mem) L.idtrAddr = L.idtr := by
  have hlimit : ∀ m : ByteMem, ∀ k : UInt32, k < 4 → storeAll m
      [(L.idtrAddr + 0, L.idtr.limit.toUInt8), (L.idtrAddr + 1, (L.idtr.limit >>> 8).toUInt8)]
      (L.idtrAddr + 2 + k) = m (L.idtrAddr + 2 + k) := by
    intro m k hk
    refine storeAll_of_ne fun w hw heq => ?_
    have hk' : k.toNat < 4 := UInt32.lt_iff_toNat_lt.mp hk
    simp only [List.mem_cons, List.not_mem_nil, or_false] at hw
    rw [UInt32.add_assoc] at heq
    rcases hw with rfl | rfl
    · have hoffset := congrArg UInt32.toNat ((UInt32.add_right_inj _).mp heq)
      rw [UInt32.toNat_add] at hoffset
      simp only [UInt32.reduceToNat] at hoffset
      omega
    · have hoffset := congrArg UInt32.toNat ((UInt32.add_right_inj _).mp heq)
      rw [UInt32.toNat_add] at hoffset
      simp only [UInt32.reduceToNat] at hoffset
      omega
  have hbase : loadWord (setIdtr L mem) (L.idtrAddr + 2) = L.idtr.base :=
    (loadWord_congr (hlimit _)).trans (loadWord_storeWord mem _ _)
  have hne : L.idtrAddr + 0 ≠ L.idtrAddr + 1 :=
    fun heq => absurd ((UInt32.add_right_inj _).mp heq) (by decide)
  have hfirst : setIdtr L mem (L.idtrAddr + 0) = L.idtr.limit.toUInt8 :=
    (Function.update_of_ne hne _ _).trans (Function.update_self ..)
  have hsecond : setIdtr L mem (L.idtrAddr + 1) = (L.idtr.limit >>> 8).toUInt8 :=
    Function.update_self ..
  have hword : UInt16.ofNat (L.idtr.limit.toUInt8.toNat
      + 2 ^ 8 * (L.idtr.limit >>> 8).toUInt8.toNat) = L.idtr.limit := by
    have hvalue : L.idtr.limit = 391 := rfl
    rw [hvalue]
    decide
  unfold loadIdtr
  rw [hbase, hfirst, hsecond, hword]

/-- **`lidt` loads the table**: `idtr` stays while the gates are filled. -/
theorem loadIdtr_idtInit (mem : ByteMem) : loadIdtr (idtInit L mem) L.idtrAddr = L.idtr := by
  have hend := L.idtr_end
  have hgates := L.idt_idtr
  have hvectors := L.idtr_vectors
  have hkept : ∀ k : UInt32, k < 6 →
      idtInit L mem (L.idtrAddr + k) = setIdtr L mem (L.idtrAddr + k) := by
    intro k hk
    have hk' : k.toNat < 6 := UInt32.lt_iff_toNat_lt.mp hk
    have haddr : (L.idtrAddr + k).toNat = L.idtrAddr.toNat + k.toNat := by
      rw [UInt32.toNat_add]
      omega
    have hidt : ¬ InObject L.idt (8 * 256) (L.idtrAddr + k) := by
      rintro ⟨hle, hlt⟩
      rcases hgates with hbelow | habove
      · omega
      · omega
    have hvector : ¬ InObject L.vectors idtMaxDescriptors (L.idtrAddr + k) := by
      rintro ⟨hle, hlt⟩
      rcases hvectors with hbelow | habove
      · omega
      · omega
    unfold idtInit
    rw [idtSetDescriptor_outside hidt]
    refine idtLoop_of_ne (fun v j _ hj heq => hidt ?_) hvector _ (Nat.le_refl 49)
    rw [heq]
    exact inObject_slot hj
  rw [← loadIdtr_setIdtr mem]
  unfold loadIdtr
  rw [hkept 0 (by decide), hkept 1 (by decide), loadWord_congr fun k hk => ?_]
  rw [UInt32.add_assoc]
  refine hkept (2 + k) ?_
  rw [UInt32.lt_iff_toNat_lt] at hk ⊢
  rw [UInt32.toNat_add]
  simp only [UInt32.reduceToNat] at hk ⊢
  omega

/-! ## Interrupts -/

/-- Who may raise an interrupt: a device or an exception any, the kernel any, user code only the
    system call. -/
def Allowed (c : Cause) (v : UInt8) : Prop := ∀ cpl, c = .int cpl → cpl = 0 ∨ v = 0x30

instance (c : Cause) (v : UInt8) : Decidable (Allowed c v) :=
  match c with
  | .event => .isTrue fun _ h => nomatch h
  | .int cpl => decidable_of_iff (cpl = 0 ∨ v = 0x30)
      ⟨fun h _ hc => (Cause.int.inj hc) ▸ h, fun h => h cpl rfl⟩

/-- The stub of a vector. -/
theorem code_stub_eq {v : UInt8} (hv : v < 49) : L.code (L.stub v) = some (stubOf v.toNat) := by
  have hlt : v.toNat < 49 := UInt8.lt_iff_toNat_lt.mp hv
  rw [L.code_stub v hv, isrStubTable_eq, List.getElem?_map, List.getElem?_range hlt]
  rfl

theorem idtr_limit : L.idtr.limit.toNat = 8 * 48 + 7 := rfl

/-- The processor with a gate of `idt_init`. -/
theorem enter_of_gate {mem : ByteMem} {v : UInt8} (hv : v < 49)
    (hgate : decodeGate mem (L.slot v) = gateOf L v) (c : Cause) :
    enter mem L.idtr c v = if Allowed c v then .handler 0x08 (L.stub v) true
      else .generalProtection (errorCode c v) := by
  have hlt : v.toNat < 49 := UInt8.lt_iff_toNat_lt.mp hv
  replace hgate : decodeGate mem (L.idtr.base + 8 * v.toUInt32) = gateOf L v := hgate
  have hinside : ¬ L.idtr.limit.toNat < 8 * v.toNat + 7 := by
    rw [idtr_limit]
    omega
  unfold enter
  rw [if_neg hinside, hgate]
  by_cases hsyscall : v = 0x30
  · -- the attributes are 0xEE: no `INT` is refused
    have hallowed : Allowed c v := fun _ _ => .inr hsyscall
    rw [if_pos hallowed, hsyscall]
    simp only [gateOf, Gate.dpl, if_true]
    cases c with
    | event => rfl
    | int cpl =>
      have hcpl : ¬ (3 : Nat) < cpl.val := by omega
      simp [hcpl]
  · -- the attributes are 0x8E: the kernel alone
    simp only [gateOf, Gate.dpl, if_neg hsyscall]
    cases c with
    | event =>
      have hallowed : Allowed .event v := fun _ h => absurd h (by simp)
      rw [if_pos hallowed]
      rfl
    | int cpl =>
      have hallowed : Allowed (.int cpl) v ↔ cpl = 0 := by
        refine ⟨fun h => (h cpl rfl).resolve_right hsyscall, fun h cpl' hcpl' => .inl ?_⟩
        rw [← Cause.int.inj hcpl', h]
      simp only [hallowed]
      rcases Fin.eq_zero_or_eq_succ cpl with rfl | ⟨k, rfl⟩
      · rfl
      · have hne : Fin.succ k ≠ 0 := Fin.succ_ne_zero k
        rw [if_neg hne]
        simp

/-- The processor without a gate. -/
theorem enter_of_not_lt {mem : ByteMem} {v : UInt8} (hv : ¬ v < 49) (c : Cause) :
    enter mem L.idtr c v = .generalProtection (errorCode c v) := by
  refine if_pos ?_
  have hge : ¬ v.toNat < 49 := fun h => hv (UInt8.lt_iff_toNat_lt.mpr h)
  rw [idtr_limit]
  omega

/-- **Interrupts behind `idt_init`**, whatever was in the memory before: with the table that `lidt` has
    loaded from `idtr`, a vector below 49 enters its stub in the kernel's code segment with interrupts
    disabled; but an `INT` of user code does so only for the system call, and raises a protection fault
    for every other vector, as do the vectors behind the table.  Nothing but the 49 gates, `vectors`
    and `idtr` is written. -/
theorem idtInit_enters (L : IdtLayout) (mem : ByteMem) :
    (∀ c v, enter (idtInit L mem) (loadIdtr (idtInit L mem) L.idtrAddr) c v
      = if v < 49 ∧ Allowed c v then .handler 0x08 (L.stub v) true
        else .generalProtection (errorCode c v)) ∧
    (∀ v, v < 49 → L.code (L.stub v) = some (stubOf v.toNat) ∧
      (stubOf v.toNat).callee = meantHandler v.toNat) ∧
    ∀ b, (∀ v k, v < 49 → k < 8 → b ≠ L.slot v + k) → ¬ InObject L.vectors idtMaxDescriptors b →
      ¬ InObject L.idtrAddr 6 b → idtInit L mem b = mem b := by
  refine ⟨fun c v => ?_, fun v hv => ⟨?_, callee_stubOf _⟩, fun b hb hvectors hidtr => ?_⟩
  · rw [loadIdtr_idtInit]
    by_cases hv : v < 49
    · rw [enter_of_gate hv (decodeGate_idtInit mem hv) c]
      simp only [hv, true_and]
    · rw [enter_of_not_lt hv, if_neg fun h => hv h.1]
  · exact code_stub_eq hv
  · exact idtInit_of_ne hb hvectors hidtr mem

end MyOs.Boot
