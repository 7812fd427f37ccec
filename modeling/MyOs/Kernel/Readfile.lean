/-
  `readfile`: a file in an array of 4096 bytes.

  1. **Program** (`readfileOn`): the branch of `run_command` with `read_file` on a drive.  The array
     is not initialised, and is the beginning of a memory that goes on behind it.
  2. **Stores** (`readfile_inside_iff`): nothing in the chain of calls knows how long the array is,
     so a file with more than two sectors is stored behind it too.
  3. **The text** (`readfile_shows_iff`): neither does the size of the file reach the terminal.  The
     text ends with the file when a zero follows, from the padding of its last sector or by chance.
-/
import MyOs.Drivers.IsoTransfer
import MyOs.Kernel.Command

namespace MyOs.Kernel

open MyOs.Libraries MyOs.Drivers

/-! ## The program -/

/-- The length of the array `buf`. -/
abbrev readfileSize : Nat := 4096

/-- The array, as the terminal reads it. -/
def readfileArray (memory : Bytes) : List UInt8 := (List.range readfileSize).map memory

/-- What is in the array behind `read_file`, as a string, or none when that returns false.  The text
    of an array without a zero has no result. -/
def readfileText (P : PortDrive) (d : Drive) (s : Drivers.Stack) (operand : List UInt8)
    (memory : Bytes) : Option (Option (List UInt8)) := do
  let f ← readFilePorts P d s operand memory
  if !f.found then some none
  else
    let length ← strlen (readfileArray f.buffer)
    some (some ((readfileArray f.buffer).take length))

/-- The branch of `readfile` on a drive. -/
def readfileOn (P : PortDrive) (d : Drive) (s : Drivers.Stack) (memory : Bytes) (C : Callees)
    (parts : Nat → List UInt8) (partsLength : Nat) : Option (List CommandEffect) :=
  (readfileText P d s (parts 1 ++ [0]) memory).map fun text =>
    (readfileBranch { C with readFile := fun _ => text } parts partsLength).1

section Readfile

variable {P : PortDrive} {d : Drive} {s : Drivers.Stack} {name : List UInt8} {file : IsoFile}
  {call : Nat}

/-! ## Stores -/

/-- A byte is stored to. -/
def StoredAt (stores : List (Nat × Nat)) (j : Nat) : Prop :=
  ∃ store ∈ stores, store.1 ≤ j ∧ j < store.1 + store.2

/-- Stores to some sectors. -/
theorem storedAt_sectors {k j : Nat} :
    StoredAt ((List.range k).map fun i => (2048 * i, 2048)) j ↔ j < 2048 * k := by
  constructor
  · rintro ⟨store, hmem, hle, hlt⟩
    obtain ⟨i, hi, rfl⟩ := List.mem_map.mp hmem
    have hik := List.mem_range.mp hi
    dsimp only at hle hlt
    omega
  · intro hj
    refine ⟨_, List.mem_map.mpr ⟨j / 2048, List.mem_range.mpr (by omega), rfl⟩, ?_⟩
    dsimp only
    omega

/-- How many sectors a drive delivers is at most `n`. -/
theorem delivered_le_iff {sectors : UInt32} {n : Nat} : d.delivered call sectors ≤ n ↔
    sectors.toNat ≤ n ∨ d.refuses call = true ∨ ∃ i, i < n + 1 ∧ d.fails call i = true := by
  unfold Drive.delivered
  split
  · exact iff_of_true (Nat.zero_le n) (.inr (.inl ‹_›))
  · rename_i hrefuses
    obtain ⟨hle, hbefore, hat⟩ := @d.sectorsBefore_spec call sectors.toNat 0
    rw [Nat.zero_add] at hbefore hat
    constructor
    · intro hn
      rcases Nat.eq_or_lt_of_le hle with hall | hlt
      · exact .inl (hall ▸ hn)
      · exact .inr (.inr ⟨_, Nat.lt_succ_of_le hn, hat hlt⟩)
    · rintro (hsectors | hrefuses' | ⟨i, hi, hfails⟩)
      · exact Nat.le_trans hle hsectors
      · exact absurd hrefuses' hrefuses
      · by_contra hn
        rw [hbefore i (Nat.zero_le i) (by omega)] at hfails
        nomatch hfails

/-- **Which files stay inside the array**: those of at most two sectors, as they are counted, and
    those that the drive does not read further. -/
theorem readfile_inside_iff (hP : P.Realises d) (h : getLbaFile d s name = some (file, call))
    (memory : Bytes) :
    (∃ f, readFilePorts P d s name memory = some f ∧
      ∀ j, StoredAt f.stores j → j < readfileSize) ↔
    file.size.toNat ≤ 4096 ∨ 2 ^ 32 - 2048 < file.size.toNat ∨ d.refuses call = true ∨
      ∃ i, i < 3 ∧ d.fails call i = true := by
  have hsize : (fileSectors file.size).toNat ≤ 2 ↔
      file.size.toNat ≤ 4096 ∨ 2 ^ 32 - 2048 < file.size.toNat := by
    by_cases hwrap : 2 ^ 32 - 2048 < file.size.toNat
    · rw [toNat_fileSectors_of_gt hwrap]
      omega
    · rw [toNat_fileSectors_of_le (Nat.le_of_not_lt hwrap)]
      omega
  have htwo := @delivered_le_iff d call (fileSectors file.size) 2
  rw [hsize, or_assoc] at htwo
  rw [readFilePorts_eq hP h]
  by_cases hzero : file = ⟨0, 0⟩
  · rw [if_pos hzero]
    refine iff_of_true ⟨_, rfl, fun j hj => ?_⟩ (.inl ?_)
    · obtain ⟨store, hmem, -⟩ := hj
      exact absurd hmem List.not_mem_nil
    · rw [hzero]
      decide
  · rw [if_neg hzero, ← htwo]
    constructor
    · rintro ⟨f, hf, hinside⟩
      split at hf
      · obtain rfl := Option.some.inj hf
        by_contra hmore
        -- the first byte behind the array
        have hbehind := hinside 4096 (storedAt_sectors.mpr (by omega))
        exact absurd hbehind (Nat.lt_irrefl 4096)
      · nomatch hf
    · intro hdelivered
      refine ⟨_, if_pos (by omega), fun j hj => ?_⟩
      have hlt := storedAt_sectors.mp hj
      show j < 4096
      omega

end Readfile

/-- An image with the file `F` in its root, and a text in the first sector of that. -/
def fileDisc (size : UInt32) (text : List UInt8) : Bytes := fun j =>
  if j < 2048 * 30 then
    discOf ⟨20, 2048, true, [0]⟩
      [(20, [⟨20, 2048, true, [0]⟩, ⟨20, 2048, true, [1]⟩, ⟨30, size, false, bytes "F;1"⟩])] j
  else text[j - 2048 * 30]?.getD 0

theorem fileDisc_text (size : UInt32) (text : List UInt8) (k : Nat) :
    fileDisc size text (2048 * 30 + k) = text[k]?.getD 0 := by
  rw [fileDisc, if_neg (by omega), Nat.add_sub_cancel_left]

/-- Two sectors fit. -/
theorem readfile_inside_iff_twoSectors :
    ∃ f, readFilePorts (flawless (fileDisc 4096 [])).ports (flawless (fileDisc 4096 [])) clearStack
        (bytes "f" ++ [0]) (fun _ => 0) = some f ∧
      ∀ j, StoredAt f.stores j → j < readfileSize := by
  have hfile : getLbaFile (flawless (fileDisc 4096 [])) clearStack (bytes "f" ++ [0])
      = some (⟨30, 4096⟩, 3) := by decide +kernel
  exact (readfile_inside_iff (Drive.ports_realises _) hfile fun _ => 0).mpr (.inl (by decide))

/-- **A file that is one byte too long** is stored behind the array. -/
theorem not_readfile_inside : ¬ ∀ (d : Drive) (P : PortDrive) (s : Drivers.Stack)
    (name : List UInt8) (file : IsoFile) (call : Nat) (memory : Bytes), P.Realises d →
    getLbaFile d s name = some (file, call) →
    ∃ f, readFilePorts P d s name memory = some f ∧
      ∀ j, StoredAt f.stores j → j < readfileSize := by
  intro h
  have hrealises := Drive.ports_realises (flawless (fileDisc 4097 []))
  have hfile : getLbaFile (flawless (fileDisc 4097 [])) clearStack (bytes "f" ++ [0])
      = some (⟨30, 4097⟩, 3) := by decide +kernel
  obtain ⟨f, hf, hinside⟩ := h _ _ clearStack _ _ _ (fun _ => 0) hrealises hfile
  rw [readFilePorts_eq hrealises hfile, if_neg (by decide), delivered_flawless,
    if_pos (by decide)] at hf
  obtain rfl := Option.some.inj hf
  have hbehind := hinside 4096 (storedAt_sectors.mpr (by decide))
  exact absurd hbehind (by decide)

/-! ## The text -/

section Text

variable {P : PortDrive} {d : Drive} {s : Drivers.Stack} {name : List UInt8} {file : IsoFile}
  {call : Nat}

/-- The bytes of a file. -/
def content (disc : Bytes) (file : IsoFile) : List UInt8 :=
  (List.range file.size.toNat).map fun k => disc (2048 * file.lba.toNat + k)

theorem getElem?_readfileArray {memory : Bytes} {j : Nat} (h : j < readfileSize) :
    (readfileArray memory)[j]? = some (memory j) := by
  rw [readfileArray, List.getElem?_map, List.getElem?_range h]
  rfl

/-- The text in the array is the beginning of it up to a zero. -/
theorem strlen_readfileArray {memory : Bytes} {n : Nat} :
    strlen (readfileArray memory) = some n ↔
      n < readfileSize ∧ memory n = 0 ∧ ∀ k, k < n → memory k ≠ 0 := by
  have hlength : (readfileArray memory).length = readfileSize := by
    rw [readfileArray, List.length_map, List.length_range]
  rw [strlen_eq_some_iff]
  constructor
  · rintro ⟨hzero, hbefore⟩
    have hn : n < readfileSize := by
      rw [← hlength]
      exact (List.getElem?_eq_some_iff.mp hzero).1
    rw [getElem?_readfileArray hn] at hzero
    refine ⟨hn, Option.some.inj hzero, fun k hk hk0 => hbefore k hk ?_⟩
    rw [getElem?_readfileArray (Nat.lt_trans hk hn), hk0]
  · rintro ⟨hn, hzero, hbefore⟩
    refine ⟨by rw [getElem?_readfileArray hn, hzero], fun k hk hk0 => hbefore k hk ?_⟩
    rw [getElem?_readfileArray (Nat.lt_trans hk hn)] at hk0
    exact Option.some.inj hk0

/-- In an array that begins with a file without zeros, the text is the file exactly when a zero is
    behind it. -/
theorem textOf_iff {disc out : Bytes}
    (hfile : ∀ k, k < file.size.toNat → out k = disc (2048 * file.lba.toNat + k))
    (hne : ∀ k, k < file.size.toNat → disc (2048 * file.lba.toNat + k) ≠ 0) :
    ((strlen (readfileArray out)).bind fun length =>
        some (some ((readfileArray out).take length))) = some (some (content disc file)) ↔
      file.size.toNat < readfileSize ∧ out file.size.toNat = 0 := by
  constructor
  · intro heq
    obtain ⟨length, hlength, heq⟩ := Option.bind_eq_some_iff.mp heq
    have htext := Option.some.inj (Option.some.inj heq)
    obtain ⟨hlt, hend, -⟩ := strlen_readfileArray.mp hlength
    have hcount := congrArg List.length htext
    rw [content, readfileArray, List.length_take, List.length_map, List.length_map,
      List.length_range, List.length_range, Nat.min_eq_left (Nat.le_of_lt hlt)] at hcount
    rw [hcount] at hlt hend
    exact ⟨hlt, hend⟩
  · rintro ⟨hlt, hend⟩
    have hlength : strlen (readfileArray out) = some file.size.toNat :=
      strlen_readfileArray.mpr ⟨hlt, hend, fun k hk => hfile k hk ▸ hne k hk⟩
    rw [hlength, Option.bind_some, readfileArray, ← List.map_take, List.take_range,
      Nat.min_eq_left (Nat.le_of_lt hlt)]
    refine congrArg (fun text => some (some text)) (List.map_congr_left fun k hk => ?_)
    exact hfile k (List.mem_range.mp hk)

/-- **When the text is the file**: the array holds a file without zeros and, unless a whole number of
    sectors is read, a zero behind it. -/
theorem readfileText_iff (hP : P.Realises d) (hserves : ∀ call n, d.Serves call n)
    (h : getLbaFile d s name = some (file, call)) (hsize : file.size.toNat ≤ 4096)
    (hne : ∀ k, k < file.size.toNat → d.disc (2048 * file.lba.toNat + k) ≠ 0)
    (hpadded : ∀ k, file.size.toNat ≤ k → k < 2048 * ((file.size.toNat + 2047) / 2048) →
      d.disc (2048 * file.lba.toNat + k) = 0) (memory : Bytes) :
    readfileText P d s name memory = some (some (content d.disc file)) ↔
      file ≠ ⟨0, 0⟩ ∧ (file.size.toNat % 2048 ≠ 0 ∨
        file.size.toNat < 4096 ∧ memory file.size.toNat = 0) := by
  have hsectors := @toNat_fileSectors_of_le file.size (by omega)
  have hdelivered := Drive.delivered_of_serves (hserves call (fileSectors file.size).toNat)
  rw [hsectors] at hdelivered
  unfold readfileText
  rw [readFilePorts_eq hP h]
  by_cases hzero : file = ⟨0, 0⟩
  · rw [if_pos hzero]
    refine iff_of_false (fun heq => ?_) fun h => h.1 hzero
    nomatch Option.some.inj heq
  · rw [if_neg hzero, if_pos (by omega), hdelivered, and_iff_right hzero]
    simp only [Option.bind_eq_bind, Option.bind_some, Bool.not_true, Bool.false_eq_true, if_false]
    generalize hout : d.received file.lba.toNat ((file.size.toNat + 2047) / 2048) memory = out
    have hfile : ∀ k, k < file.size.toNat → out k = d.disc (2048 * file.lba.toNat + k) := by
      intro k hk
      rw [← hout]
      exact if_pos (by omega)
    -- the byte behind the file is padding, or one that was there before
    have hbehind : file.size.toNat < 4096 ∧ out file.size.toNat = 0 ↔
        (file.size.toNat % 2048 ≠ 0 ∨ file.size.toNat < 4096 ∧ memory file.size.toNat = 0) := by
      by_cases hwhole : file.size.toNat % 2048 = 0
      · have hkept : out file.size.toNat = memory file.size.toNat := by
          rw [← hout]
          exact if_neg (by omega)
        rw [hkept, or_iff_right (not_not.mpr hwhole)]
      · have hpad : out file.size.toNat = 0 := by
          rw [← hpadded file.size.toNat (Nat.le_refl _) (by omega), ← hout]
          exact if_pos (by omega)
        exact iff_of_true ⟨by omega, hpad⟩ (.inl hwhole)
    rw [← hbehind]
    exact textOf_iff hfile hne

/-- What `readfile` shows is what its text is. -/
theorem readfileOn_eq_some {memory : Bytes} {C : Callees} {parts : Nat → List UInt8}
    {partsLength : Nat} (hoperand : partsLength ≠ 1) (text : List UInt8) :
    readfileOn P d s memory C parts partsLength = some [.part 1, .readFile (parts 1),
        .writestring "\n", .writeChars text, .writestring "\n"] ↔
      readfileText P d s (parts 1 ++ [0]) memory = some (some text) := by
  unfold readfileOn
  rw [Option.map_eq_some_iff]
  constructor
  · rintro ⟨found, hfound, hshown⟩
    rw [hfound]
    simp only [readfileBranch, if_neg hoperand] at hshown
    cases found with
    | none => simp at hshown
    | some shown =>
      obtain rfl : shown = text := by simpa using hshown
      rfl
  · intro htext
    refine ⟨_, htext, ?_⟩
    simp only [readfileBranch, if_neg hoperand]
    rfl

/-- **When `readfile` shows the file** between its two line ends. -/
theorem readfile_shows_iff {C : Callees} {parts : Nat → List UInt8} {partsLength : Nat}
    (hP : P.Realises d) (hserves : ∀ call n, d.Serves call n) (hoperand : partsLength ≠ 1)
    (h : getLbaFile d s (parts 1 ++ [0]) = some (file, call)) (hsize : file.size.toNat ≤ 4096)
    (hne : ∀ k, k < file.size.toNat → d.disc (2048 * file.lba.toNat + k) ≠ 0)
    (hpadded : ∀ k, file.size.toNat ≤ k → k < 2048 * ((file.size.toNat + 2047) / 2048) →
      d.disc (2048 * file.lba.toNat + k) = 0) (memory : Bytes) :
    readfileOn P d s memory C parts partsLength = some [.part 1, .readFile (parts 1),
        .writestring "\n", .writeChars (content d.disc file), .writestring "\n"] ↔
      file ≠ ⟨0, 0⟩ ∧ (file.size.toNat % 2048 ≠ 0 ∨
        file.size.toNat < 4096 ∧ memory file.size.toNat = 0) := by
  rw [readfileOn_eq_some hoperand]
  exact readfileText_iff hP hserves h hsize hne hpadded memory

end Text

/-- A text behind `readfile f`. -/
def readfileParts (i : Nat) : List UInt8 := if i = 0 then ascii "readfile" else ascii "f"

/-- A short text, in a memory of ones. -/
theorem readfile_shows_iff_meow :
    readfileOn (flawless (fileDisc 4 (bytes "Meow"))).ports (flawless (fileDisc 4 (bytes "Meow")))
        clearStack (fun _ => 1) noDisc readfileParts 2 = some [.part 1, .readFile (readfileParts 1),
        .writestring "\n", .writeChars (content (fileDisc 4 (bytes "Meow")) ⟨30, 4⟩),
        .writestring "\n"] := by
  have hfile : getLbaFile (flawless (fileDisc 4 (bytes "Meow"))) clearStack (readfileParts 1 ++ [0])
      = some (⟨30, 4⟩, 3) := by decide +kernel
  refine (readfile_shows_iff (Drive.ports_realises _) (flawless_serves _) (by decide) hfile
    (by decide) (by decide +kernel) (fun k hk _ => ?_) fun _ => 1).mpr ⟨by decide, .inl (by decide)⟩
  have hbehind : (bytes "Meow").length ≤ k := hk
  refine (fileDisc_text 4 (bytes "Meow") k).trans ?_
  rw [List.getElem?_eq_none hbehind]
  rfl

/-- **The empty file** in a memory of ones: the text is not empty. -/
theorem not_readfile_shows : ¬ ∀ (d : Drive) (P : PortDrive) (s : Drivers.Stack) (file : IsoFile)
    (call : Nat) (memory : Bytes) (C : Callees) (parts : Nat → List UInt8) (partsLength : Nat),
    P.Realises d → (∀ call n, d.Serves call n) → partsLength ≠ 1 →
    getLbaFile d s (parts 1 ++ [0]) = some (file, call) → file ≠ ⟨0, 0⟩ →
    file.size.toNat ≤ 4096 →
    (∀ k, k < file.size.toNat → d.disc (2048 * file.lba.toNat + k) ≠ 0) →
    (∀ k, file.size.toNat ≤ k → k < 2048 * ((file.size.toNat + 2047) / 2048) →
      d.disc (2048 * file.lba.toNat + k) = 0) →
    readfileOn P d s memory C parts partsLength = some [.part 1, .readFile (parts 1),
      .writestring "\n", .writeChars (content d.disc file), .writestring "\n"] := by
  intro h
  have hrealises := Drive.ports_realises (flawless (fileDisc 0 []))
  have hserves := flawless_serves (fileDisc 0 [])
  have hfile : getLbaFile (flawless (fileDisc 0 [])) clearStack (readfileParts 1 ++ [0])
      = some (⟨30, 0⟩, 3) := by decide +kernel
  have hshows := h _ _ clearStack _ _ (fun _ => 1) noDisc readfileParts 2 hrealises hserves
    (by decide) hfile (by decide) (by decide) (fun k hk => absurd hk (Nat.not_lt_zero k))
    fun k _ hk => absurd hk (Nat.not_lt_zero k)
  rw [readfileOn_eq_some (by decide), readfileText_iff hrealises hserves hfile (by decide)
    (fun k hk => absurd hk (Nat.not_lt_zero k)) fun k _ hk => absurd hk (Nat.not_lt_zero k)]
    at hshows
  exact absurd hshows.2 (by decide)

end MyOs.Kernel
