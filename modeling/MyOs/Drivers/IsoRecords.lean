/-
  What is in a directory sector.

  1. **Records** (`records`): the entries of a sector up to the first zero byte, decoded.
  2. **Well-formed sectors** (`Terminated`): each record is long enough for its name, and a zero
     byte follows inside the sector.
  3. **Searching** (`search_eq_some`, `search_isSome_iff`): a search that has a result finds the first
     record that matches. It stays inside the sector exactly when the records do that it looks at, as
     far as it looks, and a zero byte follows inside if none of them matches; on a well-formed sector
     it always does (`Terminated.searchable`).
-/
import MyOs.Drivers.Iso

namespace MyOs.Drivers

open MyOs.Libraries

/-! ## Records -/

/-- A directory record: where its extent is, and its name. -/
structure Record where
  lba : UInt32
  size : UInt32
  directory : Bool
  name : List UInt8
  deriving DecidableEq

/-- The name without a version suffix. -/
def Record.base (r : Record) : List UInt8 :=
  if r.name.length ≥ 2 ∧ r.name[r.name.length - 2]? = some ';'.toUInt8
  then r.name.take (r.name.length - 2) else r.name

/-- A dot entry: the directory itself, or the one above. -/
def Record.isDot (r : Record) : Bool := r.name = [0x00] || r.name = [0x01]

/-- The record at an offset. -/
def recordAt (sector : Bytes) (entry : Nat) : Record where
  lba := le32 (sector (entry + 2)) (sector (entry + 3)) (sector (entry + 4)) (sector (entry + 5))
  size := le32 (sector (entry + 10)) (sector (entry + 11)) (sector (entry + 12))
    (sector (entry + 13))
  directory := sector (entry + 25) &&& 2 != 0
  name := (List.range (sector (entry + 32)).toNat).map fun i => sector (entry + 33 + i)

/-- The offsets of the records from an offset on, up to a zero byte or the end of the sector. -/
def entriesFrom (sector : Bytes) : Nat → Nat → List Nat
  | 0, _ => []
  | fuel + 1, entry =>
    if entry < 2048 ∧ sector entry ≠ 0 then
      entry :: entriesFrom sector fuel (entry + (sector entry).toNat)
    else []

/-- The records of a sector. -/
def records (sector : Bytes) : List Record := (entriesFrom sector 2049 0).map (recordAt sector)

/-- From an offset on: records that are long enough for their names, then a zero byte. -/
inductive Terminated (sector : Bytes) : Nat → Prop where
  | zero {entry : Nat} (hin : entry < 2048) (h : sector entry = 0) : Terminated sector entry
  | record {entry : Nat} (h : sector entry ≠ 0)
      (hname : 33 + (sector (entry + 32)).toNat ≤ (sector entry).toNat)
      (rest : Terminated sector (entry + (sector entry).toNat)) : Terminated sector entry

theorem Terminated.lt {sector : Bytes} {entry : Nat} (h : Terminated sector entry) :
    entry < 2048 := by
  induction h with
  | zero hin _ => exact hin
  | record _ _ _ ih => omega

/-- The test of a sector. -/
def isTerminated (sector : Bytes) : Nat → Nat → Bool
  | 0, _ => false
  | fuel + 1, entry =>
    if entry < 2048 then
      if sector entry = 0 then true
      else
        33 + (sector (entry + 32)).toNat ≤ (sector entry).toNat &&
          isTerminated sector fuel (entry + (sector entry).toNat)
    else false

theorem terminated_of_isTerminated {sector : Bytes} : ∀ {fuel entry : Nat},
    isTerminated sector fuel entry = true → Terminated sector entry
  | fuel + 1, entry, h => by
    rw [isTerminated] at h
    split_ifs at h with hin hend
    · exact .zero hin hend
    · rw [Bool.and_eq_true, decide_eq_true_eq] at h
      exact .record hend h.1 (terminated_of_isTerminated h.2)

theorem toNat_pos {x : UInt8} (h : x ≠ 0) : 0 < x.toNat :=
  Nat.pos_of_ne_zero fun hzero => h (UInt8.toNat_inj.mp hzero)

theorem isTerminated_of_terminated {sector : Bytes} {entry : Nat} (h : Terminated sector entry) :
    ∀ {fuel : Nat}, 2048 < entry + fuel → isTerminated sector fuel entry = true := by
  induction h with
  | zero hin hend =>
    intro fuel hfuel
    obtain ⟨fuel, rfl⟩ : ∃ n, fuel = n + 1 := ⟨fuel - 1, by omega⟩
    rw [isTerminated, if_pos hin, if_pos hend]
  | record hne hname rest ih =>
    intro fuel hfuel
    have hlt := rest.lt
    have hpos := toNat_pos hne
    obtain ⟨fuel, rfl⟩ : ∃ n, fuel = n + 1 := ⟨fuel - 1, by omega⟩
    rw [isTerminated, if_pos (by omega), if_neg hne, ih (by omega), decide_eq_true hname]
    rfl

instance (sector : Bytes) : Decidable (Terminated sector 0) :=
  decidable_of_iff (isTerminated sector 2049 0 = true)
    ⟨terminated_of_isTerminated, fun h => isTerminated_of_terminated h (by omega)⟩

/-! ## One record -/

theorem byteAt_eq {buffer : Bytes} {i : Nat} (h : i < 2048) : byteAt buffer i = some (buffer i) :=
  if_pos h

theorem byteAt_eq_some {buffer : Bytes} {i : Nat} {x : UInt8} (h : byteAt buffer i = some x) :
    i < 2048 ∧ buffer i = x := by
  unfold byteAt at h
  split at h
  · exact ⟨‹_›, Option.some.inj h⟩
  · nomatch h

theorem byteAt_isSome_iff {buffer : Bytes} {i : Nat} : (byteAt buffer i).isSome ↔ i < 2048 := by
  unfold byteAt
  split
  · exact iff_of_true rfl ‹_›
  · exact iff_of_false Bool.false_ne_true ‹_›

section Fields

variable {sector : Bytes} {entry : Nat}

theorem length_name : (recordAt sector entry).name.length = (sector (entry + 32)).toNat := by
  rw [recordAt, List.length_map, List.length_range]

theorem getElem?_name {i : Nat} (h : i < (sector (entry + 32)).toNat) :
    (recordAt sector entry).name[i]? = some (sector (entry + 33 + i)) := by
  rw [recordAt, List.getElem?_map, List.getElem?_range h]
  rfl

theorem le32At_eq {i : Nat} (h : i + 4 ≤ 2048) : le32At sector i
    = some (le32 (sector i) (sector (i + 1)) (sector (i + 2)) (sector (i + 3))) := by
  unfold le32At
  rw [byteAt_eq (by omega), byteAt_eq (by omega), byteAt_eq (by omega), byteAt_eq (by omega)]
  rfl

theorem le32At_eq_some {i : Nat} {x : UInt32} (h : le32At sector i = some x) :
    x = le32 (sector i) (sector (i + 1)) (sector (i + 2)) (sector (i + 3)) := by
  unfold le32At at h
  obtain ⟨b0, h0, h⟩ := Option.bind_eq_some_iff.mp h
  obtain ⟨b1, h1, h⟩ := Option.bind_eq_some_iff.mp h
  obtain ⟨b2, h2, h⟩ := Option.bind_eq_some_iff.mp h
  obtain ⟨b3, h3, h⟩ := Option.bind_eq_some_iff.mp h
  rw [← Option.some.inj h, ← (byteAt_eq_some h0).2, ← (byteAt_eq_some h1).2,
    ← (byteAt_eq_some h2).2, ← (byteAt_eq_some h3).2]

/-- The fields of a record inside the sector. -/
theorem entryLba_eq (h : entry + 33 ≤ 2048) :
    entryLba sector entry = some (recordAt sector entry).lba := le32At_eq (by omega)

theorem entrySize_eq (h : entry + 33 ≤ 2048) :
    entrySize sector entry = some (recordAt sector entry).size := le32At_eq (by omega)

theorem entryLba_eq_some {lba : UInt32} (h : entryLba sector entry = some lba) :
    lba = (recordAt sector entry).lba := le32At_eq_some h

theorem entrySize_eq_some {size : UInt32} (h : entrySize sector entry = some size) :
    size = (recordAt sector entry).size := le32At_eq_some h

/-- `cmp_len` is the length of the base name, which is a beginning of the name. -/
theorem cmpLen_eq_some {len : Nat} (h : cmpLen sector entry = some len) :
    len ≤ (sector (entry + 32)).toNat ∧
      (recordAt sector entry).base = (recordAt sector entry).name.take len := by
  unfold cmpLen at h
  obtain ⟨nameLength, hnameLength, h⟩ := Option.bind_eq_some_iff.mp h
  obtain ⟨-, rfl⟩ := byteAt_eq_some hnameLength
  unfold Record.base
  rw [length_name]
  have hall : (recordAt sector entry).name.take (sector (entry + 32)).toNat
      = (recordAt sector entry).name := List.take_of_length_le (Nat.le_of_eq length_name)
  have htwo : sector (entry + 32) ≥ 2 ↔ (sector (entry + 32)).toNat ≥ 2 := UInt8.le_iff_toNat_le
  by_cases hge : sector (entry + 32) ≥ 2
  · have hge' := htwo.mp hge
    rw [if_pos hge] at h
    obtain ⟨c, hc, h⟩ := Option.bind_eq_some_iff.mp h
    obtain ⟨-, rfl⟩ := byteAt_eq_some hc
    obtain rfl := Option.some.inj h
    rw [getElem?_name (by omega)]
    by_cases hsuffix : sector (entry + 33 + ((sector (entry + 32)).toNat - 2)) = ';'.toUInt8
    · rw [if_pos hsuffix, if_pos ⟨hge', congrArg some hsuffix⟩]
      exact ⟨Nat.sub_le _ 2, rfl⟩
    · rw [if_neg hsuffix, if_neg fun h => hsuffix (Option.some.inj h.2), hall]
      exact ⟨Nat.le_refl _, rfl⟩
  · rw [if_neg hge] at h
    obtain rfl := Option.some.inj h
    rw [if_neg fun h => hge (htwo.mpr h.1), hall]
    exact ⟨Nat.le_refl _, rfl⟩

/-- What `cmp_len` looks at: the length of the name, and the place of the version suffix. -/
structure HeaderInside (sector : Bytes) (entry : Nat) : Prop where
  length : entry + 32 < 2048
  suffix : 2 ≤ (sector (entry + 32)).toNat → entry + 31 + (sector (entry + 32)).toNat < 2048

theorem cmpLen_isSome_iff : (cmpLen sector entry).isSome ↔ HeaderInside sector entry := by
  have htwo : sector (entry + 32) ≥ 2 ↔ 2 ≤ (sector (entry + 32)).toNat := UInt8.le_iff_toNat_le
  unfold cmpLen entryNameLength
  by_cases hin : entry + 32 < 2048
  · rw [byteAt_eq hin]
    simp only [Option.bind_eq_bind, Option.bind_some]
    by_cases hge : sector (entry + 32) ≥ 2
    · have hge' := htwo.mp hge
      have hplace : entry + 33 + ((sector (entry + 32)).toNat - 2)
          = entry + 31 + (sector (entry + 32)).toNat := by omega
      rw [if_pos hge, entryName, hplace]
      by_cases hsuffix : entry + 31 + (sector (entry + 32)).toNat < 2048
      · rw [byteAt_eq hsuffix]
        exact iff_of_true rfl ⟨hin, fun _ => hsuffix⟩
      · rw [byteAt, if_neg hsuffix]
        exact iff_of_false Bool.false_ne_true fun h => hsuffix (h.suffix hge')
    · rw [if_neg hge]
      exact iff_of_true rfl ⟨hin, fun h => absurd (htwo.mpr h) hge⟩
  · rw [byteAt, if_neg hin]
    exact iff_of_false Bool.false_ne_true fun h => hin h.length

/-- Then it is the length of the base name. -/
theorem HeaderInside.cmpLen (h : HeaderInside sector entry) :
    cmpLen sector entry = some (recordAt sector entry).base.length := by
  obtain ⟨len, hlen⟩ := Option.isSome_iff_exists.mp (cmpLen_isSome_iff.mpr h)
  obtain ⟨hle, hbase⟩ := cmpLen_eq_some hlen
  rw [hlen, hbase, List.length_take, length_name, Nat.min_eq_left hle]

/-- In a record that is long enough for its name, all of it is inside. -/
theorem headerInside (h : entry + 33 + (sector (entry + 32)).toNat ≤ 2048) :
    HeaderInside sector entry := ⟨by omega, fun htwo => by omega⟩

end Fields

/-! ## Searching -/

section Search

variable {directory : Bool} {sector : Bytes} {c rest : List UInt8} {r : Record}

/-- What a search looks for. -/
def Record.isMatch (directory : Bool) (c : List UInt8) (r : Record) : Bool :=
  r.directory = directory ∧ r.base = c

theorem isMatch_iff : r.isMatch directory c = true ↔ r.directory = directory ∧ r.base = c :=
  decide_eq_true_iff

/-- The condition of the loops compares the kind and the whole base name. -/
theorem entryMatches_eq_some {entry : Nat} {b : Bool} (hc : 0 ∉ c)
    (h : entryMatches directory sector (c ++ 0 :: rest) entry = some b) :
    b = (recordAt sector entry).isMatch directory c := by
  rw [Bool.eq_iff_iff, isMatch_iff]
  unfold entryMatches at h
  obtain ⟨len, hlen, h⟩ := Option.bind_eq_some_iff.mp h
  obtain ⟨flags, hflags, h⟩ := Option.bind_eq_some_iff.mp h
  obtain ⟨-, rfl⟩ := byteAt_eq_some hflags
  obtain ⟨hle, hbase⟩ := cmpLen_eq_some hlen
  by_cases hkind : (sector (entry + 25) &&& 2 != 0) = directory
  · rw [if_pos hkind] at h
    obtain ⟨htrue, hfalse⟩ := stringEqualsLen_eq hc h
    constructor
    · intro hb
      obtain ⟨hlength, heq⟩ := htrue hb
      refine ⟨hkind, ?_⟩
      rw [hbase]
      refine List.ext_getElem? fun i => ?_
      rcases Nat.lt_or_ge i len with hi | hi
      · have hread := heq i hi
        rw [List.getElem?_eq_getElem (by omega)] at hread
        obtain ⟨-, hname⟩ := byteAt_eq_some hread
        rw [List.getElem?_take_of_lt hi, getElem?_name (by omega), hname,
          List.getElem?_eq_getElem (by omega)]
      · rw [List.getElem?_eq_none (by rw [List.length_take]; omega),
          List.getElem?_eq_none (by omega)]
    · rintro ⟨-, hsame⟩
      by_contra hb
      rw [hbase] at hsame
      have hlength : c.length = len := by
        rw [← hsame, List.length_take, length_name]
        omega
      -- a difference below `len` contradicts the equal names
      obtain ⟨j, hj, x, hread, hdiffer⟩ := hfalse (Bool.eq_false_iff.mpr hb) hlength
      obtain ⟨-, rfl⟩ := byteAt_eq_some hread
      apply hdiffer
      rw [← hsame, List.getElem?_take_of_lt hj, getElem?_name (by omega)]
  · rw [if_neg hkind] at h
    obtain rfl := Option.some.inj h
    exact ⟨fun hfalse => absurd hfalse Bool.false_ne_true, fun hmatch => absurd hmatch.1 hkind⟩

/-- What a comparison with a name looks at: characters up to the first difference, if the kind and
    the length are right. -/
structure ComparedInside (directory : Bool) (sector : Bytes) (text : List UInt8) (entry : Nat) :
    Prop where
  header : HeaderInside sector entry
  name : (recordAt sector entry).directory = directory →
    (recordAt sector entry).base.length = text.length → ∀ j, j < text.length →
    (∀ k, k < j → text[k]? = some (sector (entry + 33 + k))) → entry + 33 + j < 2048

theorem entryMatches_isSome_iff (rest : List UInt8) {entry : Nat} (hc : 0 ∉ c) :
    (entryMatches directory sector (c ++ 0 :: rest) entry).isSome ↔
      ComparedInside directory sector c entry := by
  by_cases hheader : HeaderInside sector entry
  · have hflags : entryFlags sector entry = some (sector (entry + 25)) :=
      byteAt_eq (by have := hheader.length; omega)
    unfold entryMatches
    rw [hheader.cmpLen, hflags]
    simp only [Option.bind_eq_bind, Option.bind_some]
    by_cases hkind : (sector (entry + 25) &&& 2 != 0) = directory
    · rw [if_pos hkind, stringEqualsLen_isSome_iff hc]
      constructor
      · refine fun hread => ⟨hheader, fun _ hlen j => ?_⟩
        -- the comparison goes on as long as the characters agree
        induction j using Nat.strongRecOn with
        | _ j ih =>
          intro hj hsame
          refine byteAt_isSome_iff.mp (hread hlen.symm j (by omega) fun k hk => ?_)
          have hin := ih k hk (Nat.lt_trans hk hj) fun i hi => hsame i (Nat.lt_trans hi hk)
          rw [hsame k hk]
          exact byteAt_eq hin
      · intro h hlen j hj hsame
        refine byteAt_isSome_iff.mpr (h.name hkind hlen.symm j (by omega) fun k hk => ?_)
        have hread := hsame k hk
        rw [List.getElem?_eq_getElem (by omega)] at hread ⊢
        rw [(byteAt_eq_some hread).2]
    · rw [if_neg hkind]
      exact iff_of_true rfl ⟨hheader, fun hkind' => absurd hkind' hkind⟩
  · refine iff_of_false (fun hsome => hheader ?_) fun h => hheader h.header
    obtain ⟨b, hb⟩ := Option.isSome_iff_exists.mp hsome
    unfold entryMatches at hb
    obtain ⟨len, hlen, -⟩ := Option.bind_eq_some_iff.mp hb
    exact cmpLen_isSome_iff.mp (Option.isSome_iff_exists.mpr ⟨len, hlen⟩)

/-- In a record that is long enough for its name, all of it is inside. -/
theorem comparedInside (directory : Bool) (c : List UInt8) {entry : Nat}
    (h : entry + 33 + (sector (entry + 32)).toNat ≤ 2048) :
    ComparedInside directory sector c entry := by
  refine ⟨headerInside h, fun _ hlen j hj _ => ?_⟩
  have hbase := (cmpLen_eq_some (headerInside h).cmpLen).1
  omega

/-- A search that has a result finds the first entry that matches. -/
theorem searchLoop_eq_some (hc : 0 ∉ c) : ∀ {fuel entry : Nat} {found : Option Nat},
    searchLoop directory sector (c ++ 0 :: rest) fuel entry = some found →
    found = (entriesFrom sector fuel entry).find?
      (Record.isMatch directory c ∘ recordAt sector)
  | fuel + 1, entry, found, h => by
    rw [searchLoop] at h
    obtain ⟨length, hlength, h⟩ := Option.bind_eq_some_iff.mp h
    obtain ⟨hin, rfl⟩ := byteAt_eq_some hlength
    by_cases hend : sector entry = 0
    · rw [if_pos hend] at h
      rw [entriesFrom, if_neg fun hgo => hgo.2 hend, ← Option.some.inj h]
      rfl
    · rw [if_neg hend] at h
      obtain ⟨b, hb, h⟩ := Option.bind_eq_some_iff.mp h
      have hmatch := entryMatches_eq_some hc hb
      rw [entriesFrom, if_pos ⟨hin, hend⟩, List.find?_cons, Function.comp, ← hmatch]
      by_cases hfound : b = true
      · rw [if_pos hfound] at h
        rw [hfound, ← Option.some.inj h]
      · rw [if_neg hfound] at h
        rw [Bool.eq_false_iff.mpr hfound]
        exact searchLoop_eq_some hc h

/-- From an offset on: records that a search for a name can look at, up to the first that matches or
    to a zero byte. -/
inductive Searchable (directory : Bool) (sector : Bytes) (c : List UInt8) : Nat → Prop where
  | zero {entry : Nat} (hin : entry < 2048) (h : sector entry = 0) :
    Searchable directory sector c entry
  | found {entry : Nat} (h : sector entry ≠ 0) (hin : ComparedInside directory sector c entry)
      (hmatch : (recordAt sector entry).isMatch directory c = true) :
    Searchable directory sector c entry
  | next {entry : Nat} (h : sector entry ≠ 0) (hin : ComparedInside directory sector c entry)
      (hmatch : (recordAt sector entry).isMatch directory c = false)
      (rest : Searchable directory sector c (entry + (sector entry).toNat)) :
    Searchable directory sector c entry

theorem Searchable.lt {entry : Nat} (h : Searchable directory sector c entry) : entry < 2048 := by
  cases h with
  | zero hin _ => exact hin
  | found _ hin _ => exact Nat.lt_of_le_of_lt (Nat.le_add_right _ 32) hin.header.length
  | next _ hin _ _ => exact Nat.lt_of_le_of_lt (Nat.le_add_right _ 32) hin.header.length

/-- A well-formed sector can be searched for every name. -/
theorem Terminated.searchable (directory : Bool) (c : List UInt8) {entry : Nat}
    (h : Terminated sector entry) : Searchable directory sector c entry := by
  induction h with
  | zero hin hend => exact .zero hin hend
  | @record entry hne hname rest ih =>
    have hlt := rest.lt
    have hin := comparedInside directory c
      (show entry + 33 + (sector (entry + 32)).toNat ≤ 2048 by omega)
    cases hmatch : (recordAt sector entry).isMatch directory c with
    | true => exact .found hne hin hmatch
    | false => exact .next hne hin hmatch ih

/-- **The search** of a sector finds the first record that matches. -/
theorem search_eq_some {found : Option Nat} (hc : 0 ∉ c)
    (h : search directory sector (c ++ 0 :: rest) = some found) :
    found.map (recordAt sector) = (records sector).find? (Record.isMatch directory c) := by
  rw [records, List.find?_map, searchLoop_eq_some hc h]

section Inside

variable (rest : List UInt8) (hc : 0 ∉ c)

include hc

/-- The loop at a record. -/
theorem searchLoop_record (fuel : Nat) {entry : Nat} (hin : ComparedInside directory sector c entry)
    (h : sector entry ≠ 0) : searchLoop directory sector (c ++ 0 :: rest) (fuel + 1) entry
      = if (recordAt sector entry).isMatch directory c then some (some entry)
        else searchLoop directory sector (c ++ 0 :: rest) fuel (entry + (sector entry).toNat) := by
  obtain ⟨b, hb⟩ := Option.isSome_iff_exists.mp ((entryMatches_isSome_iff rest hc).mpr hin)
  have hlt := hin.header.length
  rw [searchLoop, byteAt_eq (by omega), ← entryMatches_eq_some hc hb]
  simp only [Option.bind_eq_bind, Option.bind_some, if_neg h, hb]

theorem searchable_of_searchLoop : ∀ {fuel entry : Nat},
    (searchLoop directory sector (c ++ 0 :: rest) fuel entry).isSome →
    Searchable directory sector c entry
  | fuel + 1, entry, h => by
    obtain ⟨found, hfound⟩ := Option.isSome_iff_exists.mp h
    rw [searchLoop] at hfound
    obtain ⟨length, hlength, hfound⟩ := Option.bind_eq_some_iff.mp hfound
    obtain ⟨hin, rfl⟩ := byteAt_eq_some hlength
    by_cases hend : sector entry = 0
    · exact .zero hin hend
    · rw [if_neg hend] at hfound
      obtain ⟨b, hb, -⟩ := Option.bind_eq_some_iff.mp hfound
      have hinside := (entryMatches_isSome_iff rest hc).mp (Option.isSome_iff_exists.mpr ⟨b, hb⟩)
      rw [searchLoop_record rest hc fuel hinside hend] at h
      cases hmatch : (recordAt sector entry).isMatch directory c with
      | true => exact .found hend hinside hmatch
      | false =>
        rw [hmatch, if_neg Bool.false_ne_true] at h
        exact .next hend hinside hmatch (searchable_of_searchLoop h)

/-- A search that can look at the records has a result, and what it finds can be read. -/
theorem Searchable.searchLoop {entry : Nat} (h : Searchable directory sector c entry) :
    ∀ fuel : Nat, 2048 < entry + fuel → ∃ found,
      searchLoop directory sector (c ++ 0 :: rest) fuel entry = some found ∧
      ∀ e, found = some e → e + 33 ≤ 2048 := by
  induction h with
  | zero hin hend =>
    intro fuel hfuel
    obtain ⟨fuel, rfl⟩ : ∃ n, fuel = n + 1 := ⟨fuel - 1, by omega⟩
    refine ⟨none, ?_, fun e hfound => nomatch hfound⟩
    rw [Drivers.searchLoop, byteAt_eq hin]
    exact if_pos hend
  | found hne hin hmatch =>
    intro fuel hfuel
    have hlt := hin.header.length
    obtain ⟨fuel, rfl⟩ : ∃ n, fuel = n + 1 := ⟨fuel - 1, by omega⟩
    rw [searchLoop_record rest hc fuel hin hne, hmatch]
    refine ⟨_, rfl, fun e he => ?_⟩
    obtain rfl := Option.some.inj he
    omega
  | next hne hin hmatch rest' ih =>
    intro fuel hfuel
    have hlt := hin.header.length
    have hpos := toNat_pos hne
    obtain ⟨fuel, rfl⟩ : ∃ n, fuel = n + 1 := ⟨fuel - 1, by omega⟩
    rw [searchLoop_record rest hc fuel hin hne, hmatch]
    exact ih fuel (by omega)

/-- **When a search stays inside the sector**. -/
theorem search_isSome_iff : (search directory sector (c ++ 0 :: rest)).isSome ↔
    Searchable directory sector c 0 := by
  refine ⟨searchable_of_searchLoop rest hc, fun h => ?_⟩
  obtain ⟨found, hfound, -⟩ := h.searchLoop rest hc 2049 (by decide)
  rw [search, hfound]
  rfl

end Inside

end Search

/-! ## The bytes that count -/

section Congruence

variable {buffer sector : Bytes} (h : byteAt buffer = byteAt sector)

include h

theorem le32At_congr (i : Nat) : le32At buffer i = le32At sector i := by
  rw [le32At, h]
  rfl

theorem entryLba_congr (entry : Nat) : entryLba buffer entry = entryLba sector entry :=
  le32At_congr h _

theorem entrySize_congr (entry : Nat) : entrySize buffer entry = entrySize sector entry :=
  le32At_congr h _

theorem entryName_congr (entry : Nat) : entryName buffer entry = entryName sector entry := by
  funext i
  rw [entryName, h]
  rfl

theorem cmpLen_congr (entry : Nat) : cmpLen buffer entry = cmpLen sector entry := by
  rw [cmpLen, entryNameLength, h, entryName_congr h]
  rfl

theorem entryMatches_congr (directory : Bool) (name : List UInt8) (entry : Nat) :
    entryMatches directory buffer name entry = entryMatches directory sector name entry := by
  rw [entryMatches, cmpLen_congr h, entryFlags, h, entryName_congr h]
  rfl

theorem searchLoop_congr (directory : Bool) (name : List UInt8) : ∀ fuel entry,
    searchLoop directory buffer name fuel entry = searchLoop directory sector name fuel entry
  | 0, _ => rfl
  | fuel + 1, entry => by
    rw [searchLoop, h, entryMatches_congr h]
    simp only [searchLoop_congr directory name fuel]
    rfl

end Congruence

end MyOs.Drivers
