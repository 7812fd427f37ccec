/-
  Stubs around a call of compiled code, on a 32-bit machine.

  A stub is a few instructions, the call of a function, and a few more.  The function is known by
  the calling convention only (`Obeys`): it returns, keeps `ebx`, `ebp`, `esi`, `edi` and what its
  caller has on the stack above its arguments, and may change everything else.

  Everything here is said about the words on the stack (`Machine.Stack`), the top first, so that the
  users of a stub compute no addresses.
-/
import MyOs.Lib.Words

namespace MyOs.Lib.Cdecl

open MyOs.Lib.Words

/-! ## The machine -/

/-- The general registers, two flags, and the memory. -/
structure Machine where
  eax : UInt32
  ecx : UInt32
  edx : UInt32
  ebx : UInt32
  esp : UInt32
  ebp : UInt32
  esi : UInt32
  edi : UInt32
  direction : Bool
  interrupts : Bool
  mem : ByteMem

namespace Machine

def push (m : Machine) (v : UInt32) : Machine :=
  { m with esp := m.esp - 4, mem := storeWord m.mem (m.esp - 4) v }

/-- Pushes a list, its head last. -/
def pushAll (m : Machine) (ws : List UInt32) : Machine := ws.foldr (fun w m => m.push w) m

/-- The registers as `pushad` stores them. -/
def saved (m : Machine) : List UInt32 :=
  [m.edi, m.esi, m.ebp, m.esp, m.ebx, m.edx, m.ecx, m.eax]

/-- `pushad`. -/
def pushad (m : Machine) : Machine := m.pushAll m.saved

/-- `popad`, which skips the stack pointer that `pushad` has stored. -/
def popad (m : Machine) : Machine :=
  { m with
    edi := loadWord m.mem m.esp
    esi := loadWord m.mem (m.esp + 4)
    ebp := loadWord m.mem (m.esp + 8)
    ebx := loadWord m.mem (m.esp + 16)
    edx := loadWord m.mem (m.esp + 20)
    ecx := loadWord m.mem (m.esp + 24)
    eax := loadWord m.mem (m.esp + 28)
    esp := m.esp + 32 }

/-- The words on the stack, the top first. -/
def Stack (m : Machine) (ws : List UInt32) : Prop := WordsAt m.mem m.esp ws

/-- An argument, where a function finds it when it is entered. -/
def arg (n : Machine) (i : Nat) : UInt32 := loadWord n.mem (n.esp + 4 * UInt32.ofNat (i + 1))

/-- Two machines with the same registers but for the stack pointer. -/
structure SameRegs (m m' : Machine) : Prop where
  eax : m'.eax = m.eax
  ecx : m'.ecx = m.ecx
  edx : m'.edx = m.edx
  ebx : m'.ebx = m.ebx
  ebp : m'.ebp = m.ebp
  esi : m'.esi = m.esi
  edi : m'.edi = m.edi

end Machine

/-- The general registers. -/
inductive Reg
  | eax | ecx | edx | ebx | esp | ebp | esi | edi
  deriving DecidableEq

def Machine.reg (m : Machine) : Reg → UInt32
  | .eax => m.eax
  | .ecx => m.ecx
  | .edx => m.edx
  | .ebx => m.ebx
  | .esp => m.esp
  | .ebp => m.ebp
  | .esi => m.esi
  | .edi => m.edi

/-- The instructions of a stub. -/
inductive Instr
  | push (r : Reg)
  | pushImm (v : UInt32)
  | pushad
  | popad
  | cld
  | sti
  | addEsp (n : UInt32)
  deriving DecidableEq

def Instr.exec (m : Machine) : Instr → Machine
  | .push r => m.push (m.reg r)
  | .pushImm v => m.push v
  | .pushad => m.pushad
  | .popad => m.popad
  | .cld => { m with direction := false }
  | .sti => { m with interrupts := true }
  | .addEsp n => { m with esp := m.esp + n }

/-! ## Stubs -/

/-- A stub around the call of one of the functions `F`. -/
structure Stub (F : Type) where
  before : List Instr
  callee : F
  after : List Instr
  deriving DecidableEq

variable {F : Type}

/-- The function is entered: the call has pushed the return address. -/
def Stub.atEntry (s : Stub F) (ret : UInt32) (m : Machine) : Machine :=
  (s.before.foldl Instr.exec m).push ret

/-- The stub is run, with a function that may leave the machine in several states. -/
def Stub.Runs (H : F → Machine → Machine → Prop) (s : Stub F) (m m' : Machine) : Prop :=
  ∃ ret n', H s.callee (s.atEntry ret m) n' ∧ m' = s.after.foldl Instr.exec n'

/-- The calling convention, for a function with `args` arguments whose caller has at most `above`
    words above them. -/
structure Obeys (args above : Nat) (n n' : Machine) : Prop where
  esp : n'.esp = n.esp + 4
  ebx : n'.ebx = n.ebx
  ebp : n'.ebp = n.ebp
  esi : n'.esi = n.esi
  edi : n'.edi = n.edi
  above : ∀ i, i < above →
    loadWord n'.mem (n.esp + 4 * UInt32.ofNat (1 + args + i))
      = loadWord n.mem (n.esp + 4 * UInt32.ofNat (1 + args + i))

/-! ## The stack -/

namespace Machine

variable {m m' : Machine} {w : UInt32} {ws vs : List UInt32}

@[simp] theorem pushAll_nil (m : Machine) : m.pushAll [] = m := rfl

theorem esp_pushAll : ∀ ws : List UInt32, (m.pushAll ws).esp = m.esp - 4 * UInt32.ofNat ws.length
  | [] => by simp
  | w :: ws => by
    show (m.pushAll ws).esp - 4 = _
    have hone : 4 * UInt32.ofNat 1 = 4 := by decide
    rw [esp_pushAll ws, List.length_cons, UInt32.ofNat_add, UInt32.mul_add, hone]
    grind

theorem SameRegs.refl (m : Machine) : SameRegs m m := ⟨rfl, rfl, rfl, rfl, rfl, rfl, rfl⟩

theorem SameRegs.trans {m₁ m₂ m₃ : Machine} (h : SameRegs m₁ m₂) (h' : SameRegs m₂ m₃) :
    SameRegs m₁ m₃ where
  eax := h'.eax.trans h.eax
  ecx := h'.ecx.trans h.ecx
  edx := h'.edx.trans h.edx
  ebx := h'.ebx.trans h.ebx
  ebp := h'.ebp.trans h.ebp
  esi := h'.esi.trans h.esi
  edi := h'.edi.trans h.edi

/-- Neither a push nor the flags touch the other registers. -/
theorem sameRegs_push (m : Machine) (v : UInt32) : SameRegs m (m.push v) :=
  ⟨rfl, rfl, rfl, rfl, rfl, rfl, rfl⟩

theorem sameRegs_setFlags (m : Machine) (d i : Bool) :
    SameRegs m { m with direction := d, interrupts := i } := ⟨rfl, rfl, rfl, rfl, rfl, rfl, rfl⟩

theorem sameRegs_pushAll : ∀ ws : List UInt32, SameRegs m (m.pushAll ws)
  | [] => SameRegs.refl m
  | w :: ws => (sameRegs_pushAll ws).trans (sameRegs_push (m.pushAll ws) w)

/-- An address among the `n` bytes below a stack pointer. -/
def Below (esp : UInt32) (n : Nat) (a : UInt32) : Prop := (esp - 1 - a).toNat < n

theorem Below.mono {esp a : UInt32} {n k : Nat} (h : Below esp n a) (hle : n ≤ k) : Below esp k a :=
  Nat.lt_of_lt_of_le h hle

/-- What is below a lower pointer. -/
theorem Below.sub {esp a : UInt32} {n k : Nat} (h : Below (esp - UInt32.ofNat k) n a) :
    Below esp (n + k) a := by
  unfold Below at h ⊢
  have hsum : esp - 1 - a = (esp - UInt32.ofNat k - 1 - a) + UInt32.ofNat k := by grind
  have hle : (UInt32.ofNat k).toNat ≤ k := by
    rw [UInt32.toNat_ofNat']
    exact Nat.mod_le _ _
  rw [hsum, UInt32.toNat_add]
  have hmod := Nat.mod_le ((esp - UInt32.ofNat k - 1 - a).toNat + (UInt32.ofNat k).toNat) (2 ^ 32)
  omega

/-- **Pushes write below the stack pointer**, and nowhere else. -/
theorem push_of_not_below {a : UInt32} (h : ¬ Below m.esp 4 a) (v : UInt32) :
    (m.push v).mem a = m.mem a := by
  refine storeWord_of_ne (fun k hk heq => h ?_) m.mem v
  have hk' : k.toNat < 4 := UInt32.lt_iff_toNat_lt.mp hk
  have hdiff : m.esp - 1 - a = 3 - k := by grind
  unfold Below
  have hle : k ≤ 3 := UInt32.le_iff_toNat_le.mpr (Nat.le_of_lt_succ hk')
  rw [hdiff, UInt32.toNat_sub_of_le _ _ hle]
  simp only [UInt32.reduceToNat]
  omega

theorem pushAll_of_not_below {a : UInt32} : ∀ ws : List UInt32, ¬ Below m.esp (4 * ws.length) a →
    (m.pushAll ws).mem a = m.mem a
  | [], _ => rfl
  | w :: ws, h => by
    rw [List.length_cons] at h
    refine (push_of_not_below (fun hbelow => h ?_) w).trans
      (pushAll_of_not_below ws fun hbelow => h (hbelow.mono (by omega)))
    replace hbelow : Below (m.pushAll ws).esp 4 a := hbelow
    rw [esp_pushAll] at hbelow
    have hmul : 4 * UInt32.ofNat ws.length = UInt32.ofNat (4 * ws.length) := by
      rw [UInt32.ofNat_mul]
      rfl
    rw [hmul] at hbelow
    exact hbelow.sub.mono (by omega)

/-- A push puts a word in front of those on the stack. -/
theorem Stack.push (h : m.Stack ws) (hlen : 4 * (ws.length + 1) ≤ 2 ^ 32) (v : UInt32) :
    (m.push v).Stack (v :: ws) := by
  refine ⟨loadWord_storeWord _ _ _, ?_⟩
  show WordsAt (storeWord m.mem (m.esp - 4) v) (m.esp - 4 + 4) ws
  rw [UInt32.sub_add_cancel]
  exact WordsAt.store h hlen v

theorem Stack.pushAll (h : m.Stack vs) : ∀ ws : List UInt32,
    4 * (ws.length + vs.length) ≤ 2 ^ 32 → (m.pushAll ws).Stack (ws ++ vs)
  | [], _ => h
  | w :: ws, hlen => by
    rw [List.length_cons] at hlen
    refine (h.pushAll ws (by omega)).push ?_ w
    rw [List.length_append]
    omega

/-- The flags do not touch it. -/
theorem Stack.setFlags (h : m.Stack ws) (d i : Bool) :
    ({ m with direction := d, interrupts := i } : Machine).Stack ws := h

/-- Words are removed from the stack. -/
theorem Stack.addEsp (h : m.Stack (ws ++ vs)) :
    ({ m with esp := m.esp + 4 * UInt32.ofNat ws.length } : Machine).Stack vs :=
  (wordsAt_append.mp h).2

/-- What the stack says about an argument. -/
theorem Stack.arg {i : Nat} {ret : UInt32} (h : m.Stack (ret :: ws)) (hi : ws[i]? = some w) :
    m.arg i = w :=
  wordsAt_iff.mp h (i + 1) w hi

/-- **`popad` after `pushad`.** -/
theorem Stack.popad {u : Machine} (h : m.Stack (u.saved ++ vs)) :
    SameRegs u m.popad ∧ m.popad.Stack vs := by
  have hword : ∀ i w, (u.saved ++ vs)[i]? = some w →
      loadWord m.mem (m.esp + 4 * UInt32.ofNat i) = w := wordsAt_iff.mp h
  have hzero : m.esp + 4 * UInt32.ofNat 0 = m.esp := UInt32.add_zero m.esp
  have hedi := hword 0 _ rfl
  rw [hzero] at hedi
  exact ⟨⟨hword 7 _ rfl, hword 6 _ rfl, hword 5 _ rfl, hword 4 _ rfl, hword 2 _ rfl,
    hword 1 _ rfl, hedi⟩, h.addEsp⟩

end Machine

open Machine

/-! ## Calls -/

variable {args above : Nat} {n n' : Machine} {ret : UInt32} {as ws : List UInt32}

/-- **What the caller has on the stack** above the arguments is still there when the function
    returns, behind the slots of the arguments. -/
theorem Obeys.stack (h : Obeys args above n n') (hn : n.Stack (ret :: as ++ ws))
    (has : as.length = args) (hws : ws.length ≤ above) :
    ({ n' with esp := n'.esp + 4 * UInt32.ofNat args } : Machine).Stack ws := by
  refine wordsAt_iff.mpr fun i w hi => ?_
  have hlt : i < ws.length := (List.getElem?_eq_some_iff.mp hi).1
  -- the words are counted from the stack pointer at entry: return address, arguments, caller
  have haddr : n'.esp + 4 * UInt32.ofNat args + 4 * UInt32.ofNat i
      = n.esp + 4 * UInt32.ofNat (1 + args + i) := by
    have hone : 4 * UInt32.ofNat 1 = 4 := by decide
    rw [h.esp, UInt32.ofNat_add, UInt32.ofNat_add, UInt32.mul_add, UInt32.mul_add, hone,
      UInt32.add_assoc, UInt32.add_assoc, UInt32.add_assoc]
  rw [haddr, h.above i (by omega)]
  refine wordsAt_iff.mp hn (1 + args + i) w ?_
  have hlen : (ret :: as).length = 1 + args := by
    rw [List.length_cons, has, Nat.add_comm]
  rw [List.getElem?_append_right (by omega), hlen, Nat.add_sub_cancel_left]
  exact hi

/-- A function that does nothing but return. -/
theorem obeys_return (args above : Nat) (n : Machine) :
    Obeys args above n { n with esp := n.esp + 4 } :=
  ⟨rfl, rfl, rfl, rfl, rfl, fun _ _ => rfl⟩

/-- A stub that saves the registers around the call of a function without arguments. -/
def savingStub (f : F) : Stub F := ⟨[.pushad, .cld], f, [.popad]⟩

theorem savingStub_atEntry (f : F) (ret : UInt32) (m : Machine) : (savingStub f).atEntry ret m
    = ({ m.pushAll (saved m) with direction := false } : Machine).push ret := rfl

theorem length_saved (m : Machine) : (saved m).length = 8 := rfl

theorem savingStub_entry {f : F} {m : Machine} (hm : m.Stack ws)
    (hlen : 4 * (9 + ws.length) ≤ 2 ^ 32) (ret : UInt32) :
    ((savingStub f).atEntry ret m).Stack (ret :: (saved m ++ ws)) := by
  have hsaved : (m.pushAll (saved m)).Stack (saved m ++ ws) :=
    hm.pushAll (saved m) (by rw [length_saved]; omega)
  rw [savingStub_atEntry]
  refine (hsaved.setFlags false _).push ?_ ret
  rw [List.length_append, length_saved]
  omega

theorem esp_savingStub_entry (f : F) (ret : UInt32) (m : Machine) :
    ((savingStub f).atEntry ret m).esp = m.esp - 32 - 4 := by
  have hwords : 4 * UInt32.ofNat 8 = 32 := by decide
  have hesp := esp_pushAll (m := m) (saved m)
  rw [length_saved, hwords] at hesp
  rw [savingStub_atEntry, ← hesp]
  rfl

/-- **A stub that saves the registers** gives every one of them back, and the stack is as it was. -/
theorem savingStub_restores {H : F → Machine → Machine → Prop} {f : F} {m m' : Machine}
    (hH : ∀ n n', H f n n' → Obeys 0 above n n') (hm : m.Stack ws) (hws : 8 + ws.length ≤ above)
    (hlen : 4 * (9 + ws.length) ≤ 2 ^ 32) (hrun : (savingStub f).Runs H m m') :
    SameRegs m m' ∧ m'.esp = m.esp ∧ m'.Stack ws := by
  obtain ⟨ret, n', hcall, rfl⟩ := hrun
  have hobeys := hH _ n' hcall
  have hentry : ((savingStub f).atEntry ret m).Stack (ret :: [] ++ (saved m ++ ws)) :=
    savingStub_entry hm hlen ret
  have hreturn := hobeys.stack hentry rfl
    (by rw [List.length_append, length_saved]; exact hws)
  have hzero : n'.esp + 4 * UInt32.ofNat 0 = n'.esp := UInt32.add_zero n'.esp
  rw [hzero] at hreturn
  obtain ⟨hregs, hstack⟩ := Stack.popad hreturn
  refine ⟨hregs, ?_, hstack⟩
  -- eight words and the return address down, and back
  show n'.esp + 32 = m.esp
  rw [hobeys.esp, esp_savingStub_entry, UInt32.sub_add_cancel, UInt32.sub_add_cancel]

end MyOs.Lib.Cdecl
