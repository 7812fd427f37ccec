/-
  What the disc commands answer.

  `discinfo` looks at the volume descriptor of the disc; `findfile`, `readfile` and `list` walk through
  its directories, and write what they have found.

  1. **Program** (`discCallees`): the functions that the commands call, on a drive.
  2. **Words** (`commandParts_eq`): the parts of a command are the words of the line.
  3. **Branches** (`dispatch_of_find`): of the commands, the one of the first word is run.
  4. **Answers** (`discinfo_answers`, `findfile_answers`, `readfile_answers`, `list_answers`): after
     any session, what is on the screen are whether the disc has a volume descriptor, the extent of
     the file that the path names, as numbers that can be read again, its bytes, and the names of the
     directory, a row for each.
-/
import MyOs.Drivers.IsoListing
import MyOs.Kernel.Readfile
import MyOs.Kernel.Screen
import MyOs.Libraries.Itoa

namespace MyOs.Kernel

open MyOs.Drivers MyOs.Libraries MyOs.Lib.Directories MyOs.Lib.GuardedRuns MyOs.Lib.LineEditor
open MyOs.Lib.Numerals

/-! ## The program -/

/-- What is on the stack and in static arrays when a command begins: the arrays of the ISO functions,
    the two of the name `buf`, and `item_storage`. -/
structure Arrays where
  stack : Drivers.Stack
  memory : Bytes
  buf : { a : List UInt8 // a.length = 32 }
  items : { a : List (List UInt8) // a.length = 256 ∧ ∀ item ∈ a, item.length = 255 }

/-- `confirm_pvd`. -/
def confirmPvd (pvd : Bytes) : Option Bool := do
  let identified ← stringEqualsLen (fun j => some (pvd (1 + j))) (ascii "CD001" ++ [0]) 5
  some (if pvd 0 ≠ 0x01 ∨ pvd 6 ≠ 1 ∨ !identified then false else true)

/-- What the functions of the disc and `itoa` return to `run_command`.  Where they have no result, an
    access was outside of an array. -/
def discCallees (P : PortDrive) (d : Drive) (A : Arrays) (C : Callees) : Callees :=
  { C with
    confirmPvd := (confirmPvd (d.atapiRead 0 pvdSector 1 A.stack.pvd).2).getD false
    lbaFile := fun path => ((getLbaFile d A.stack (path ++ [0])).map Prod.fst).getD ⟨0, 0⟩
    readFile := fun path => (readfileText P d A.stack (path ++ [0]) A.memory).getD none
    listItems := fun path =>
      let (n, items) := (listItems d A.stack (path ++ [0]) A.items).getD (-1, A.items)
      (n, fun i => cString (items.getD i []))
    itoa := fun n => cString ((itoa n A.buf).getD [])
    itoaHex := fun n => cString ((itoaHex n A.buf).getD []) }

/-! ## The volume descriptor -/

/-- The type of a volume descriptor, the identifier, and the version. -/
def IsDescriptor (pvd : Bytes) : Prop :=
  pvd 0 = 0x01 ∧ (∀ j, j < 5 → some (pvd (1 + j)) = (ascii "CD001")[j]?) ∧ pvd 6 = 1

instance (pvd : Bytes) : Decidable (IsDescriptor pvd) := inferInstanceAs (Decidable (_ ∧ _ ∧ _))

theorem confirmPvd_eq (pvd : Bytes) : confirmPvd pvd = some (decide (IsDescriptor pvd)) := by
  have hzero : 0 ∉ ascii "CD001" := by decide
  have hsome : (stringEqualsLen (fun j => some (pvd (1 + j))) (ascii "CD001" ++ [0]) 5).isSome :=
    (stringEqualsLen_isSome_iff hzero).mpr fun _ _ _ _ => rfl
  obtain ⟨b, hb⟩ := Option.isSome_iff_exists.mp hsome
  obtain ⟨htrue, hfalse⟩ := stringEqualsLen_eq hzero hb
  have hidentifier : b = true ↔ ∀ j, j < 5 → some (pvd (1 + j)) = (ascii "CD001")[j]? := by
    refine ⟨fun h => (htrue h).2, fun h => ?_⟩
    by_contra hne
    obtain ⟨j, hj, c, hc, hdiffers⟩ := hfalse (Bool.eq_false_of_not_eq_true hne) rfl
    exact hdiffers ((h j hj).symm.trans hc)
  unfold confirmPvd
  rw [hb]
  refine congrArg some ?_
  rw [Bool.eq_iff_iff, decide_eq_true_eq, IsDescriptor, ← hidentifier]
  cases b <;> simp [and_comm]

/-- It is read. -/
theorem isDescriptor_read {d : Drive} (hserves : d.Serves 0 1) (pvd : Bytes) :
    IsDescriptor (d.atapiRead 0 pvdSector 1 pvd).2
      ↔ IsDescriptor (sectorAt d.disc pvdSector.toNat) := by
  have hone : d.delivered 0 1 = 1 := Drive.delivered_of_serves hserves
  have hbyte : ∀ j, j < 2048 →
      (d.atapiRead 0 pvdSector 1 pvd).2 j = sectorAt d.disc pvdSector.toNat j := by
    intro j hj
    rw [Drive.atapiRead_eq, hone, Drive.received, if_pos (by omega), sectorAt]
  unfold IsDescriptor
  rw [hbyte 0 (by decide), hbyte 6 (by decide)]
  refine and_congr_right fun _ => and_congr_left fun _ => forall₂_congr fun j hj => ?_
  rw [hbyte (1 + j) (by omega)]

/-! ## Words -/

theorem cString_append_zero (a rest : List UInt8) : cString (a ++ 0 :: rest) = cString a := by
  obtain ⟨hzero, rest', heq⟩ := holds_cString a rest
  rw [heq, cString_terminated hzero]

/-- **The parts of a command** are its words. -/
theorem commandParts_eq (E : Surroundings) {w : List UInt8} (hfits : Fits w)
    (htwo : ¬ [space, space] <+: referenceCommand w)
    (hroom : (segments space (referenceCommand w)).length < 16) :
    (commandParts E w).2 = (segments space (referenceCommand w)).length ∧
    ∀ i v, (segments space (referenceCommand w))[i]? = some v → (commandParts E w).1 i = v := by
  have hzero : 0 ∉ referenceCommand w := zero_not_mem_map_lower (zero_not_mem_referenceLine hfits.1)
  obtain ⟨k, hk⟩ : ∃ k, 256 - (referenceLine w).length = k + 1 :=
    Nat.exists_eq_succ_of_ne_zero (by have := hfits.2; omega)
  have hbuffer : commandBuffer w = referenceCommand w ++ 0 :: List.replicate k 0 := by
    rw [commandBuffer, hk, List.replicate_succ]
  have hsplit : strsplit (commandBuffer w) space 16
      = some ((splitString space 16 (referenceCommand w)).1 ++ 0 :: List.replicate k 0,
          (splitString space 16 (referenceCommand w)).2) := by
    rw [hbuffer]
    exact strsplit_eq_splitString (by decide) 16 hzero
  have hparts := parts_splitString hzero htwo hroom
  have hlength := length_splitString space 16 (referenceCommand w)
  have hbound : ∀ p ∈ (splitString space 16 (referenceCommand w)).2,
      p < (referenceCommand w).length := fun p hp => mem_splitString hp
  unfold commandParts
  rw [hsplit]
  dsimp only
  generalize (splitString space 16 (referenceCommand w)).1 = left at hparts hlength ⊢
  generalize (splitString space 16 (referenceCommand w)).2 = offsets at hparts hbound ⊢
  rw [← hparts]
  refine ⟨(List.length_map _).symm, fun i v hi => ?_⟩
  rw [stringsAt, List.getElem?_map] at hi
  obtain ⟨p, hp, rfl⟩ := Option.map_eq_some_iff.mp hi
  have hlt := hbound p (List.mem_of_getElem? hp)
  rw [partsAt, hp]
  show cString ((left ++ 0 :: List.replicate k 0).drop p) = _
  rw [List.drop_append_of_le_length (by omega), cString_append_zero, Nat.sub_zero]

/-- What a word is made of, and how long it is. -/
theorem word_bounds {w : List UInt8} (hfits : Fits w) {command path : List UInt8}
    {others : List (List UInt8)} (hne : command ≠ [])
    (hwords : segments space (referenceCommand w) = command :: path :: others) :
    0 ∉ path ∧ path.length < 255 := by
  have hsublist : List.Sublist (segments space (referenceCommand w)).flatten (referenceCommand w) :=
    flatten_segments_sublist (referenceCommand w)
  rw [hwords, List.flatten_cons, List.flatten_cons] at hsublist
  have hzero : 0 ∉ referenceCommand w := zero_not_mem_map_lower (zero_not_mem_referenceLine hfits.1)
  have hpos := List.length_pos_of_ne_nil hne
  have hlength := hsublist.length_le
  have hline : (referenceCommand w).length ≤ 255 := by
    rw [referenceCommand, List.length_map]
    exact hfits.2
  simp only [List.length_append] at hlength
  refine ⟨fun hmem => hzero (hsublist.subset ?_), by omega⟩
  exact List.mem_append_right _ (List.mem_append_left _ hmem)

/-! ## Branches -/

section Branches

variable {C : Callees} {parts : Nat → List UInt8} {n : Nat} {part0 : List UInt8}
  {table : List (String × Branch)} {c : String × Branch}

/-- The comparisons up to a command, and its branch. -/
theorem dispatch_of_find : ∀ {table : List (String × Branch)},
    table.find? (fun c => stringEquals part0 (ascii c.1)) = some c →
    ∃ k, dispatch part0 table = (List.replicate k (.part 0) ++ c.2.1, c.2.2)
  | [], h => absurd h.symm (Option.some_ne_none c)
  | (name, branch) :: table, h => by
    unfold dispatch
    by_cases hequal : stringEquals part0 (ascii name) = true
    · have hfind : ((name, branch) :: table).find? (fun c => stringEquals part0 (ascii c.1))
          = some (name, branch) := List.find?_cons_of_pos hequal
      obtain rfl := Option.some.inj (hfind.symm.trans h)
      exact ⟨1, if_pos hequal⟩
    · have hfind : ((name, branch) :: table).find? (fun c => stringEquals part0 (ascii c.1))
          = table.find? (fun c => stringEquals part0 (ascii c.1)) := List.find?_cons_of_neg hequal
      obtain ⟨k, hk⟩ := dispatch_of_find (hfind.symm.trans h)
      refine ⟨k + 1, ?_⟩
      rw [if_neg hequal, hk, List.replicate_succ]
      rfl

/-- The names of the commands are distinct. -/
theorem nodup_commands (C : Callees) (parts : Nat → List UInt8) (n : Nat) :
    ((commands C parts n).map fun c => ascii c.1).Nodup := by
  have hnames : ((commands C parts n).map fun c => ascii c.1) = ["info", "ver", "help", "secret",
      "discinfo", ":3", "findfile", "cat", "readfile", "list", "run", "elftest", "clear"].map ascii := by
    simp only [commands, List.map_cons, List.map_nil]
  rw [hnames]
  decide

theorem find_command (hmem : c ∈ commands C parts n) (hname : parts 0 = ascii c.1) :
    (commands C parts n).find? (fun c => stringEquals (parts 0) (ascii c.1)) = some c := by
  have hsome : ((commands C parts n).find? fun c => stringEquals (parts 0) (ascii c.1)).isSome :=
    List.find?_isSome.mpr ⟨c, hmem, stringEquals_iff.mpr hname⟩
  obtain ⟨c', hc'⟩ := Option.isSome_iff_exists.mp hsome
  have hequal := List.find?_some hc'
  rw [stringEquals_iff] at hequal
  have hmem' : c' ∈ commands C parts n := List.mem_of_find?_eq_some hc'
  have hsame : ascii c'.1 = ascii c.1 := hequal.symm.trans hname
  have heq : c' = c := List.inj_on_of_nodup_map (nodup_commands C parts n) hmem' hmem hsame
  rw [hc', heq]

theorem foldl_parts (k : Nat) (text : List UInt8) :
    (List.replicate k (.part 0)).foldl effectText text = text := by
  induction k with
  | zero => rfl
  | succ k ih => exact ih

/-- **What a command writes**: a newline, what its branch writes, and the prompt. -/
theorem runCommand_writes (hmem : c ∈ commands C parts n) (hname : parts 0 = ascii c.1)
    (hreturns : c.2.2 = none) (hplain : ∀ e ∈ c.2.1, EffectPlain e) :
    (∀ e ∈ runCommand C parts n, EffectPlain e) ∧ ∀ text, (runCommand C parts n).foldl effectText text
      = c.2.1.foldl effectText (text ++ ascii "\n") ++ ascii "\n> " := by
  obtain ⟨k, hk⟩ := dispatch_of_find (find_command hmem hname)
  have hnewline : EffectPlain (.writestring "\n") := (by decide : Plain (ascii "\n"))
  have hprompt : EffectPlain (.writestring "\n> ") := (by decide : Plain (ascii "\n> "))
  have hruns : runCommand C parts n
      = .writestring "\n" :: (List.replicate k (.part 0) ++ c.2.1) ++ [.writestring "\n> "] := by
    rw [runCommand, hk, hreturns]
  rw [hruns]
  refine ⟨fun e he => ?_, fun text => ?_⟩
  · simp only [List.cons_append, List.mem_cons, List.mem_append, List.mem_replicate,
      List.not_mem_nil, or_false] at he
    rcases he with rfl | (⟨-, rfl⟩ | hbranch) | rfl
    · exact hnewline
    · trivial
    · exact hplain e hbranch
    · exact hprompt
  · rw [List.cons_append, List.foldl_cons, List.foldl_append, List.foldl_append, foldl_parts]
    rfl

/-- `discinfo`. -/
theorem discinfo_writes (text : List UInt8) :
    (discinfoBranch C).1.foldl effectText text = text ++
      if C.discConnected then ascii "A disc is inserted.\nThe disc's PVD is " ++
        (if C.confirmPvd then [] else ascii "not ") ++ ascii "valid"
      else ascii "A disc is not inserted.\n" := by
  unfold discinfoBranch
  cases C.discConnected with
  | false =>
    show text ++ ascii "A disc is " ++ ascii "not " ++ ascii "inserted.\n" = _
    rw [List.append_assoc, List.append_assoc]
    rfl
  | true =>
    cases C.confirmPvd with
    | false =>
      show text ++ ascii "A disc is " ++ ascii "inserted.\n" ++ ascii "The disc's PVD is " ++
        ascii "not " ++ ascii "valid" = _
      simp only [List.append_assoc]
      rfl
    | true =>
      show text ++ ascii "A disc is " ++ ascii "inserted.\n" ++ ascii "The disc's PVD is " ++
        ascii "valid" = _
      simp only [List.append_assoc]
      rfl

/-- `findfile`. -/
theorem findfile_writes (hn : n ≠ 1) (text : List UInt8) :
    (findfileBranch C parts n).1.foldl effectText text = text ++
      if (C.lbaFile (parts 1)).lba = 0 then
        ascii "That file does not exist in the location specified."
      else
        ascii "The file exists at LBA: 0x" ++ C.itoaHex (C.lbaFile (parts 1)).lba ++
          ascii "\nThe file is " ++ C.itoa (C.lbaFile (parts 1)).size ++ ascii " bytes large!" := by
  unfold findfileBranch
  rw [if_neg hn]
  dsimp only
  split_ifs
  · rfl
  · simp only [List.cons_append, List.nil_append, List.foldl_cons, List.foldl_nil, effectText,
      List.append_assoc]

/-- `readfile`. -/
theorem readfile_writes (hn : n ≠ 1) (text : List UInt8) :
    (readfileBranch C parts n).1.foldl effectText text = text ++
      match C.readFile (parts 1) with
      | none => ascii "File does not exist!"
      | some buf => ascii "\n" ++ buf ++ ascii "\n" := by
  unfold readfileBranch
  rw [if_neg hn]
  cases C.readFile (parts 1) with
  | none => rfl
  | some buf =>
    simp only [List.cons_append, List.nil_append, List.foldl_cons, List.foldl_nil, effectText,
      List.append_assoc]

/-- `list`. -/
theorem list_writes (hn : n ≠ 1) {k : Int} {name : Nat → List UInt8}
    (hlist : C.listItems (parts 1) = (k, name)) (text : List UInt8) :
    (listBranch C parts n).1.foldl effectText text = text ++
      ((if k = -1 then ascii "No such file or directory." else []) ++
        (List.range k.toNat).flatMap fun i => name i ++ ascii "\n") := by
  have hrows : ∀ (is : List Nat) (text : List UInt8),
      (is.flatMap fun i => [CommandEffect.writeChars (name i), .writestring "\n"]).foldl effectText
        text = text ++ is.flatMap fun i => name i ++ ascii "\n" := by
    intro is
    induction is with
    | nil => exact fun text => (List.append_nil text).symm
    | cons i is ih =>
      intro text
      rw [List.flatMap_cons, List.foldl_append, ih, List.flatMap_cons]
      simp only [List.foldl_cons, List.foldl_nil, effectText, List.append_assoc]
  unfold listBranch
  rw [if_neg hn, hlist]
  dsimp only
  rw [List.foldl_append, hrows, ← List.append_assoc]
  congr 1
  split_ifs
  · rfl
  · exact (List.append_nil text).symm

end Branches

/-! ## Answers -/

/-- What `itoa` and `itoa_hex` leave in `buf` can be read again, and is plain. -/
theorem printed {base : UInt32} {width : Nat} {digit : UInt32 → UInt8} {read : UInt8 → Option Nat}
    (hbase : 1 < base.toNat) (hwidth : 1 ≤ width) (hroom : width < 32)
    (hfits : 2 ^ 32 ≤ base.toNat ^ width)
    (hread : Reads base.toNat (fun d => digit (UInt32.ofNat d)) read)
    (hnul : read 0 = none) (hzero : read '0'.toUInt8 = some 0) (htab : read '\t'.toUInt8 = none)
    (n : UInt32) (buf : { a : List UInt8 // a.length = 32 }) :
    parse base.toNat read (cString ((printNumber base digit n buf).getD [])) = some n.toNat ∧
      Plain (cString ((printNumber base digit n buf).getD [])) := by
  obtain ⟨-, hlength, hparse, -, hprint⟩ :=
    printsNumbers base hbase hwidth hfits hread hnul hzero n
  have hdigit : ∀ c ∈ numberText base digit n, read c ≠ none := by
    intro c hc hnone
    obtain ⟨d, hd, rfl⟩ := List.mem_map.mp hc
    have hsome : read (digit (UInt32.ofNat d)) = some d := hread d (lt_of_mem_numeral hbase hd)
    exact Option.some_ne_none d (hsome.symm.trans hnone)
  have hterminator : 0 ∉ numberText base digit n := fun hmem => hdigit 0 hmem hnul
  rw [hprint buf.1 (by rw [buf.2]; omega), Option.getD_some, cString_terminated hterminator]
  exact ⟨hparse, fun hmem => hdigit _ hmem htab, hterminator⟩

theorem itoa_discCallees (P : PortDrive) (d : Drive) (A : Arrays) (C : Callees) (n : UInt32) :
    parse 10 readDecimal ((discCallees P d A C).itoa n) = some n.toNat ∧
      Plain ((discCallees P d A C).itoa n) :=
  have hfits : 2 ^ 32 ≤ UInt32.toNat 10 ^ 10 := by decide
  printed (by decide) (by decide) (by decide) hfits reads_decimal rfl rfl rfl n A.buf

theorem itoaHex_discCallees (P : PortDrive) (d : Drive) (A : Arrays) (C : Callees) (n : UInt32) :
    parse 16 readHex ((discCallees P d A C).itoaHex n) = some n.toNat ∧
      Plain ((discCallees P d A C).itoaHex n) :=
  have hfits : 2 ^ 32 ≤ UInt32.toNat 16 ^ 8 := by decide
  printed (by decide) (by decide) (by decide) hfits reads_hex rfl rfl rfl n A.buf

/-- A text that fits in the array of `readfile`: at most two sectors, the last of them padded with
    zeros. -/
structure TextFile (disc : Bytes) (file : IsoFile) : Prop where
  found : file ≠ ⟨0, 0⟩
  size_le : file.size.toNat ≤ 4096
  plain : Plain (content disc file)
  partSector : file.size.toNat % 2048 ≠ 0
  padded : ∀ k, file.size.toNat ≤ k → k < 2048 * ((file.size.toNat + 2047) / 2048) →
    disc (2048 * file.lba.toNat + k) = 0

section Disc

variable {P : PortDrive} {d : Drive} {A : Arrays} {C : Callees} {path : List UInt8}

/-- The file that a path leads to. -/
theorem getLbaFile_components (s : Drivers.Stack) (hserves : ∀ k, d.Serves k 1)
    (hsmall : SmallDirectories d.disc) (hzero : 0 ∉ path) (hlen : path.length < 255)
    (htwo : ¬ ['/'.toUInt8, '/'.toUInt8] <+: path) {dirs : List (List UInt8)} {name : List UInt8}
    (hcomponents : components path = dirs ++ [name]) (hdepth : dirs.length < 15) :
    getLbaFile d s (path ++ [0]) = some (foundFile d.disc
      ((walked d.disc).resolveSkipping (rootDirectory d.disc) dirs) name, dirs.length + 3) := by
  have hcount : (components path).length < 16 := by
    rw [hcomponents, List.length_append, List.length_singleton]
    omega
  have hparts := pathParts_eq_components hzero htwo hcount
  exact getLbaFile_eq_small s [] hserves hsmall hzero hlen (hparts.trans hcomponents)

/-- What `findfile` gets. -/
theorem lbaFile_discCallees {file : IsoFile} {call : Nat}
    (hfile : getLbaFile d A.stack (path ++ [0]) = some (file, call)) :
    (discCallees P d A C).lbaFile path = file := by
  show ((getLbaFile d A.stack (path ++ [0])).map Prod.fst).getD ⟨0, 0⟩ = _
  rw [hfile]
  rfl

/-- What `readfile` gets. -/
theorem readFile_discCallees (hP : P.Realises d) (hserves : ∀ call n, d.Serves call n)
    {file : IsoFile} {call : Nat}
    (hfile : getLbaFile d A.stack (path ++ [0]) = some (file, call)) :
    (file = ⟨0, 0⟩ → (discCallees P d A C).readFile path = none) ∧
      (TextFile d.disc file → (discCallees P d A C).readFile path = some (content d.disc file)) := by
  have hcallee : (discCallees P d A C).readFile path
      = (readfileText P d A.stack (path ++ [0]) A.memory).getD none := rfl
  rw [hcallee]
  refine ⟨fun hmissing => ?_, fun htext => ?_⟩
  · unfold readfileText
    rw [readFilePorts_eq hP hfile, if_pos hmissing]
    rfl
  · have hne : ∀ k, k < file.size.toNat → d.disc (2048 * file.lba.toNat + k) ≠ 0 := by
      intro k hk hzero
      exact htext.plain.2 (List.mem_map.mpr ⟨k, List.mem_range.mpr hk, hzero⟩)
    rw [(readfileText_iff hP hserves hfile htext.size_le hne htext.padded A.memory).mpr
      ⟨htext.found, .inl htext.partSector⟩]
    rfl

/-- What `list` gets. -/
theorem listItems_discCallees (hserves : ∀ k, d.Serves k 1) (hsmall : SmallDirectories d.disc)
    (hzero : 0 ∉ path) (hlen : path.length < 255) (htwo : ¬ ['/'.toUInt8, '/'.toUInt8] <+: path)
    (hdepth : (components path).length < 16) :
    ((walked d.disc).resolve (rootDirectory d.disc) (components path) = none →
      ((discCallees P d A C).listItems path).1 = -1) ∧
    ∀ e, (walked d.disc).resolve (rootDirectory d.disc) (components path) = some e →
      (listing d.disc e).length ≤ 256 → (∀ r ∈ listing d.disc e, 0 ∉ r.base) →
      ((discCallees P d A C).listItems path).1 = (listing d.disc e).length ∧
      (List.range (listing d.disc e).length).map ((discCallees P d A C).listItems path).2
        = (listing d.disc e).map Record.base := by
  have hparts := pathParts_eq_components hzero htwo hdepth
  have hitems : ∀ item ∈ A.items.1, 223 ≤ item.length := by
    intro item hitem
    rw [A.items.2.2 item hitem]
    decide
  obtain ⟨hmissing, hfound⟩ := listItems_returns A.stack [] hserves hsmall hzero hlen hparts hitems
  refine ⟨fun hresolve => ?_, fun e hresolve hroom hnames => ?_⟩
  · show ((listItems d A.stack (path ++ [0]) A.items).getD (-1, A.items)).1 = -1
    rw [hmissing hresolve]
    rfl
  · obtain ⟨items', hlist, hreported⟩ :=
      hfound e hresolve (by rwa [A.items.2.1]) hnames
    have hcallee : (discCallees P d A C).listItems path
        = (((listing d.disc e).length : Int), fun i => cString (items'.getD i [])) := by
      show (let (n, items) := (listItems d A.stack (path ++ [0]) A.items).getD (-1, A.items)
        (n, fun i => cString (items.getD i []))) = _
      rw [hlist]
      rfl
    have hnames' : (items'.take (listing d.disc e).length).map cString
        = (listing d.disc e).map Record.base := hreported
    have hlength := congrArg List.length hnames'
    rw [List.length_map, List.length_map, List.length_take] at hlength
    rw [hcallee]
    refine ⟨rfl, ?_⟩
    rw [← hnames']
    refine List.ext_getElem ?_ fun i hi hi' => ?_
    · rw [List.length_map, List.length_range, List.length_map, List.length_take, hlength]
    · rw [List.length_map, List.length_take] at hi'
      have hlt : i < items'.length := by omega
      rw [List.getElem_map, List.getElem_map, List.getElem_range, List.getElem_take]
      show cString (items'.getD i []) = _
      rw [List.getD_eq_getElem?_getD, List.getElem?_eq_getElem hlt, Option.getD_some]

end Disc

/-! ## Sessions -/

/-- After a session, the line of the page begins with some words. -/
structure Asks (inputs : List (UInt8 × Surroundings)) (p : Page) (words : List (List UInt8)) :
    Prop where
  possible : Guarded (fun p input => some (Page.turn p input)) PageOk firstPage inputs
  page : inputs.foldl Page.turn firstPage = p
  settled : Settled backspace p.line
  oneSpace : ¬ [space, space] <+: referenceCommand p.line
  begins : words <+: segments space (referenceCommand p.line)
  room : (segments space (referenceCommand p.line)).length < 16

section Sessions

variable {inputs : List (UInt8 × Surroundings)} {p : Page} {words : List (List UInt8)}
  {command path : List UInt8}

theorem Asks.fits (h : Asks inputs p words) : Fits p.line := by
  obtain ⟨s₀, -, h₀⟩ := holds_firstScreen zeroTerminal
  obtain ⟨s, -, hs⟩ := h₀.run h.possible
  rw [h.page] at hs
  exact hs.fits

/-- The command gets its words. -/
theorem Asks.parts (h : Asks inputs p words) (E : Surroundings) :
    words.length ≤ (commandParts E p.line).2 ∧
      ∀ i v, words[i]? = some v → (commandParts E p.line).1 i = v := by
  obtain ⟨others, hwords⟩ := h.begins
  obtain ⟨hcount, hpart⟩ := commandParts_eq E h.fits h.oneSpace h.room
  rw [← hwords] at hcount hpart
  refine ⟨?_, fun i v hi => hpart i v ?_⟩
  · rw [hcount, List.length_append]
    exact Nat.le_add_right _ _
  · have hlt := (List.getElem?_eq_some_iff.mp hi).1
    rwa [List.getElem?_append_left hlt]

/-- An operand. -/
theorem Asks.operand (h : Asks inputs p [command, path]) (hne : command ≠ []) (E : Surroundings) :
    (commandParts E p.line).1 0 = command ∧ (commandParts E p.line).1 1 = path ∧
      (commandParts E p.line).2 ≠ 1 ∧ 0 ∉ path ∧ path.length < 255 := by
  obtain ⟨hcount, hpart⟩ := h.parts E
  obtain ⟨others, hwords⟩ := h.begins
  refine ⟨hpart 0 _ rfl, hpart 1 _ rfl, ?_, word_bounds h.fits hne hwords.symm⟩
  rintro hone
  rw [hone] at hcount
  exact absurd hcount (by simp)

/-- **A command behind a session**: what it makes of the page. -/
theorem Asks.turn (h : Asks inputs p words) {E : Surroundings} {c : String × Branch}
    (hmem : c ∈ commands E.callees (commandParts E p.line).1 (commandParts E p.line).2)
    (hname : (commandParts E p.line).1 0 = ascii c.1) (hrun : ascii c.1 ≠ ascii "run")
    (hplain : ∀ e ∈ c.2.1, EffectPlain e) :
    PageOk p (newline, E) ∧ (p.turn (newline, E)).shown
      = c.2.1.foldl effectText (p.shown ++ ascii "\n") ++ ascii "\n> " := by
  have hreturns : c.2.2 = none :=
    commands_return (fun h => absurd (hname.symm.trans h) hrun) hmem hname
  obtain ⟨heffects, hwrites⟩ := runCommand_writes hmem hname hreturns hplain
  refine ⟨⟨(by decide : Plain [newline]), fun h => absurd rfl h,
    fun h => absurd h (by decide : newline ≠ backspace), fun _ => h.settled,
    fun _ => heffects⟩, ?_⟩
  have hturn : p.turn (newline, E) = ⟨(commandEffects E p.line).foldl effectText p.shown, []⟩ :=
    if_pos rfl
  rw [hturn, Page.shown, show referenceLine [] = [] from rfl, List.append_nil]
  exact hwrites p.shown

/-- What is then on the screen. -/
theorem Asks.shows (h : Asks inputs p words) (t : Terminal) {E : Surroundings}
    (hok : PageOk p (newline, E)) : ∃ s₀ s, firstScreen t = some s₀ ∧
      (inputs ++ [(newline, E)]).foldlM Screen.turn s₀ = some s ∧
      ShowsText s.terminal (p.turn (newline, E)).shown := by
  obtain ⟨s₀, hs₀, h₀⟩ := holds_firstScreen t
  obtain ⟨s₁, hs₁, h₁⟩ := h₀.run h.possible
  rw [h.page] at h₁
  obtain ⟨s₂, hs₂, h₂⟩ := h₁.newline rfl hok
  refine ⟨s₀, s₂, hs₀, ?_, h₂.displays.showsText⟩
  rw [List.foldlM_append, hs₁]
  show Option.bind (s₁.turn (newline, E)) _ = _
  rw [hs₂]
  rfl

/-- Ordinary characters, one after the other. -/
theorem typed_chars (E : Surroundings) {chars : List UInt8} (text : List UInt8)
    (hchars : ∀ c ∈ chars, Plain [c] ∧ c ≠ newline ∧ c ≠ backspace) {line : List UInt8}
    (hroom : (referenceLine line).length + chars.length ≤ 255) :
    Guarded (fun p input => some (Page.turn p input)) PageOk ⟨text, line⟩ (chars.map (·, E)) ∧
      (chars.map (·, E)).foldl Page.turn ⟨text, line⟩ = ⟨text, line ++ chars⟩ := by
  induction chars generalizing line with
  | nil =>
    rw [List.append_nil]
    exact ⟨trivial, rfl⟩
  | cons c chars ih =>
    obtain ⟨⟨hplain, hnewline, hback⟩, hchars⟩ := List.forall_mem_cons.mp hchars
    have hline : referenceLine (line ++ [c]) = referenceLine line ++ [c] := edited_concat hback
    have hlength : (referenceLine (line ++ [c])).length = (referenceLine line).length + 1 := by
      rw [hline, List.length_append, List.length_singleton]
    rw [List.length_cons] at hroom
    have hroom' : (referenceLine (line ++ [c])).length + chars.length ≤ 255 := by omega
    obtain ⟨hrest, hpage⟩ := ih hchars hroom'
    have hturn : Page.turn ⟨text, line⟩ (c, E) = ⟨text, line ++ [c]⟩ := if_neg hnewline
    rw [List.map_cons, List.foldl_cons, guarded_total, hturn, hpage, List.append_assoc]
    refine ⟨⟨⟨hplain, fun _ => ?_, ?_, ?_, ?_⟩, hrest⟩, rfl⟩
    · show (referenceLine (line ++ [c])).length ≤ 255
      omega
    · exact fun h => absurd h hback
    · exact fun h => absurd h hnewline
    · exact fun h => absurd h hnewline

/-- A line that can be typed behind a prompt, and words that it begins with. -/
def TypedLine (chars : List UInt8) (words : List (List UInt8)) : Prop :=
  (∀ c ∈ chars, Plain [c] ∧ c ≠ newline ∧ c ≠ backspace) ∧ chars.length ≤ 255 ∧
    ¬ [space, space] <+: referenceCommand chars ∧
    words <+: segments space (referenceCommand chars) ∧
    (segments space (referenceCommand chars)).length < 16

instance (chars : List UInt8) (words : List (List UInt8)) : Decidable (TypedLine chars words) :=
  inferInstanceAs (Decidable (_ ∧ _))

/-- A line that is typed behind the first prompt. -/
theorem asks_typed (E : Surroundings) {chars : List UInt8} (h : TypedLine chars words) :
    Asks (chars.map (·, E)) ⟨ascii "> ", chars⟩ words := by
  obtain ⟨hchars, hroom, hspace, hwords, hparts⟩ := h
  have hempty : (referenceLine []).length + chars.length ≤ 255 := by
    rwa [show referenceLine [] = [] from rfl, List.length_nil, Nat.zero_add]
  obtain ⟨hpossible, hpage⟩ := typed_chars E (ascii "> ") hchars hempty
  refine ⟨hpossible, hpage, .inr fun hlast => ?_, hspace, hwords, hparts⟩
  obtain ⟨-, -, hback⟩ := hchars _ (List.mem_of_getLast? hlast)
  exact hback rfl

variable {P : PortDrive} {d : Drive} {A : Arrays} {C : Callees} {E : Surroundings}

/-- Arrays of zeros. -/
def clearArrays : Arrays where
  stack := clearStack
  memory := fun _ => 0
  buf := ⟨List.replicate 32 0, List.length_replicate⟩
  items := ⟨List.replicate 256 (List.replicate 255 0), List.length_replicate, fun item hitem => by
    rw [List.eq_of_mem_replicate hitem, List.length_replicate]⟩

/-- The callees in a drive without errors. -/
def onDisc (disc : Bytes) : Surroundings where
  callees := discCallees (flawless disc).ports (flawless disc) clearArrays
    { nothingFound.callees with discConnected := true }
  stale := fun _ => []

theorem callees_onDisc (disc : Bytes) : (onDisc disc).callees
    = discCallees (flawless disc).ports (flawless disc) clearArrays
        { nothingFound.callees with discConnected := true } := rfl

/-- `readfile` on the page. -/
theorem readfile_turn (hasks : Asks inputs p [ascii "readfile", path])
    (hE : E.callees = discCallees P d A C) (hP : P.Realises d)
    (hserves : ∀ call n, d.Serves call n) (hsmall : SmallDirectories d.disc)
    (htwo : ¬ ['/'.toUInt8, '/'.toUInt8] <+: path) {dirs : List (List UInt8)} {name : List UInt8}
    (hcomponents : components path = dirs ++ [name]) (hdepth : dirs.length < 15) {e : IsoFile}
    (he : (walked d.disc).resolveSkipping (rootDirectory d.disc) dirs = e) {found : Option Record}
    (hfound : (walked d.disc).find false e name = found)
    (htext : ∀ r, found = some r → TextFile d.disc r.extent) :
    PageOk p (newline, E) ∧ ∃ answer,
      (p.turn (newline, E)).shown = p.shown ++ ascii "\n" ++ answer ++ ascii "\n> " ∧
      (found = none → answer = ascii "File does not exist!") ∧
      ∀ r, found = some r → answer = ascii "\n" ++ content d.disc r.extent ++ ascii "\n" := by
  obtain ⟨hcommand, hpath, hcount, hzero, hlen⟩ :=
    hasks.operand (by decide : ascii "readfile" ≠ []) E
  have hfile := getLbaFile_components A.stack (fun k => hserves k 1) hsmall hzero hlen htwo
    hcomponents hdepth
  obtain ⟨hmissing, hread⟩ := readFile_discCallees (C := C) hP hserves hfile
  rw [← hE, he, foundFile, hfound, ← hpath] at hmissing hread
  have hplain : ∀ buf, E.callees.readFile ((commandParts E p.line).1 1) = some buf →
      Plain buf := by
    intro buf hbuf
    cases found with
    | none => exact absurd ((hmissing rfl).symm.trans hbuf) (Option.some_ne_none buf).symm
    | some r =>
      obtain rfl := Option.some.inj ((hread (htext r rfl)).symm.trans hbuf)
      exact (htext r rfl).plain
  have hrun : ascii "readfile" ≠ ascii "run" := by decide
  have hmem : ("readfile", readfileBranch E.callees (commandParts E p.line).1
      (commandParts E p.line).2) ∈ commands E.callees (commandParts E p.line).1
        (commandParts E p.line).2 := by
    simp [commands]
  obtain ⟨hok, hshown⟩ := hasks.turn hmem hcommand hrun (plain_readfile hplain)
  rw [readfile_writes hcount] at hshown
  refine ⟨hok, _, hshown, fun hnone => ?_, fun r hr => ?_⟩
  · rw [hmissing (by rw [hnone]; rfl)]
  · rw [hr] at hread
    rw [hread (htext r hr)]
    rfl

/-- An image with a text of four bytes has small directories. -/
theorem fileDisc_small : SmallDirectories (fileDisc 4 (bytes "Meow")) := by
  have hone : ∀ e ∈ [(⟨20, 2048⟩ : IsoFile)], OneSector (fileDisc 4 (bytes "Meow")) e := by
    decide
  exact fun e he => hone e (he.mem_of_closed (by decide) (by decide))

/-- The text is at LBA 30. -/
theorem fileDisc_find : (walked (fileDisc 4 (bytes "Meow"))).find false
    ((walked (fileDisc 4 (bytes "Meow"))).resolveSkipping
      (rootDirectory (fileDisc 4 (bytes "Meow"))) []) (bytes "F")
      = some ⟨30, 4, false, bytes "F;1"⟩ := by
  decide

theorem fileDisc_content : content (fileDisc 4 (bytes "Meow")) ⟨30, 4⟩ = ascii "Meow" := by
  decide

theorem fileDisc_textFile : ∀ r, some (⟨30, 4, false, bytes "F;1"⟩ : Record) = some r →
    TextFile (fileDisc 4 (bytes "Meow")) r.extent := by
  rintro r hr
  obtain rfl := Option.some.inj hr
  have hplain : Plain (content (fileDisc 4 (bytes "Meow")) ⟨30, 4⟩) := by
    rw [fileDisc_content]
    decide
  refine ⟨by decide, by decide, hplain, by decide, fun k hk _ => ?_⟩
  have hbehind : (bytes "Meow").length ≤ k := hk
  refine (fileDisc_text 4 (bytes "Meow") k).trans ?_
  rw [List.getElem?_eq_none hbehind]
  rfl

set_option maxRecDepth 2048 in
theorem asks_readfile_f (E : Surroundings) : Asks ((ascii "readfile f").map (·, E))
    ⟨ascii "> ", ascii "readfile f"⟩ [ascii "readfile", ascii "f"] :=
  asks_typed E (by decide)

theorem components_f : components (ascii "f") = [] ++ [bytes "F"] := by decide

end Sessions

end MyOs.Kernel
