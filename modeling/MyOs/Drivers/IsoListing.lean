/-
  What `list_items` reports.

  1. **One directory** (`listItemsLoop_eq_some`): the items are the base names of the records that
     are no dot entries, in their order; there is a result when there is room for them
     (`listItemsLoop_isSome`).
  2. **Agreement** (`listItems_agrees`): `list_items` returns, and in a directory with distinct names
     that it lists, a name is that of a listed file exactly when `get_lba_file` finds a file of that
     name, and it finds that one.
-/
import Mathlib.Data.List.Nodup
import MyOs.Drivers.IsoLookup

namespace MyOs.Drivers

open MyOs.Libraries MyOs.Lib.Directories

/-! ## One record -/

/-- The records that are listed. -/
def listed (rs : List Record) : List Record := rs.filter fun r => !r.isDot

/-- The listed records of a directory. -/
def listing (disc : Bytes) (e : IsoFile) : List Record := listed (records (sectorAt disc e.lba.toNat))

section Records

variable {sector : Bytes} {entry : Nat}

theorem isDotEntry_eq (hlength : entry + 32 < 2048)
    (hfirst : (sector (entry + 32)).toNat = 1 → entry + 33 < 2048) :
    isDotEntry sector entry = some (recordAt sector entry).isDot := by
  have hname : (recordAt sector entry).name.length = (sector (entry + 32)).toNat := length_name
  unfold isDotEntry
  rw [entryNameLength, byteAt_eq hlength]
  simp only [Option.bind_eq_bind, Option.bind_some]
  by_cases hone : sector (entry + 32) = 1
  · have hread : entryName sector entry 0 = some (sector (entry + 33)) :=
      byteAt_eq (hfirst (by rw [hone]; rfl))
    have hsingle : (recordAt sector entry).name = [sector (entry + 33)] := by
      rw [recordAt, hone]
      rfl
    rw [if_pos hone, hread, Option.bind_some, Record.isDot, hsingle]
    simp only [List.cons.injEq, and_true]
  · have hne : ∀ c, (recordAt sector entry).name ≠ [c] := by
      intro c hc
      rw [hc, List.length_singleton] at hname
      exact hone (UInt8.toNat_inj.mp hname.symm)
    rw [if_neg hone, Record.isDot, decide_eq_false (hne _), decide_eq_false (hne _)]
    rfl

variable (hin : entry + 33 + (sector (entry + 32)).toNat ≤ 2048)

include hin

/-- A base name without a zero is stored with a terminator, in an array that is longer. -/
theorem storeItem_eq (hbase : 0 ∉ (recordAt sector entry).base) (items : List (List UInt8))
    (i : Nat) : storeItem sector entry items i
      = (items[i]?).bind fun item =>
        if (recordAt sector entry).base.length < item.length then
          some (items.set i ((recordAt sector entry).base ++
            0 :: item.drop ((recordAt sector entry).base.length + 1)))
        else none := by
  have hlen := (headerInside hin).cmpLen
  obtain ⟨hle, htake⟩ := cmpLen_eq_some hlen
  have hread : ∀ j, j < (recordAt sector entry).base.length →
      entryName sector entry j = (recordAt sector entry).base[j]? := by
    intro j hj
    rw [htake, List.getElem?_take_of_lt (by omega), getElem?_name (by omega)]
    exact byteAt_eq (by omega)
  unfold storeItem
  simp only [hlen, Option.bind_eq_bind, Option.bind_some]
  congr 1
  funext item
  rw [strncpy_chars hbase hread]
  split
  · rw [Option.bind_some, store_border]
    rfl
  · rfl

end Records

/-! ## One directory -/

/-- The items that are reported, as strings. -/
def reported (items : List (List UInt8)) (k : Nat) : List (List UInt8) := (items.take k).map cString

theorem reported_set {items : List (List UInt8)} {i : Nat} {item : List UInt8}
    (h : items[i]? = some item) (x : List UInt8) :
    reported (items.set i x) (i + 1) = reported items i ++ [cString x] := by
  have hlength : (items.take i).length = i := by
    rw [List.length_take]
    have hlt := (List.getElem?_eq_some_iff.mp h).1
    omega
  rw [reported, List.take_set, List.take_add_one, h, Option.toList_some,
    List.set_append_right _ _ (Nat.le_of_eq hlength), hlength, Nat.sub_self, List.map_append]
  rfl

section Listing

variable {sector : Bytes} {entry : Nat}

theorem listed_cons_of_dot {r : Record} (h : r.isDot = true) (rs : List Record) :
    listed (r :: rs) = listed rs := by
  refine List.filter_cons_of_neg ?_
  rw [h]
  exact Bool.false_ne_true

theorem listed_cons {r : Record} (h : r.isDot = false) (rs : List Record) :
    listed (r :: rs) = r :: listed rs := by
  refine List.filter_cons_of_pos ?_
  rw [h]
  rfl

/-- The records from an entry on. -/
def recordsFrom (sector : Bytes) (fuel entry : Nat) : List Record :=
  (entriesFrom sector fuel entry).map (recordAt sector)

theorem recordsFrom_zero (fuel : Nat) (h : sector entry = 0) :
    recordsFrom sector (fuel + 1) entry = [] := by
  rw [recordsFrom, entriesFrom, if_neg fun hgo => hgo.2 h]
  rfl

theorem recordsFrom_record (fuel : Nat) (hin : entry < 2048) (hne : sector entry ≠ 0) :
    recordsFrom sector (fuel + 1) entry
      = recordAt sector entry :: recordsFrom sector fuel (entry + (sector entry).toNat) := by
  rw [recordsFrom, entriesFrom, if_pos ⟨hin, hne⟩, List.map_cons]
  rfl

/-- The loop at a record whose first bytes can be read. -/
theorem listItemsLoop_record (fuel i : Nat) (items : List (List UInt8))
    (hlength : entry + 32 < 2048)
    (hfirst : (sector (entry + 32)).toNat = 1 → entry + 33 < 2048) (hne : sector entry ≠ 0) :
    listItemsLoop sector (fuel + 1) entry i items
      = if (recordAt sector entry).isDot then
          listItemsLoop sector fuel (entry + (sector entry).toNat) i items
        else (storeItem sector entry items i).bind fun items =>
          listItemsLoop sector fuel (entry + (sector entry).toNat) (i + 1) items := by
  rw [listItemsLoop, byteAt_eq (by omega), isDotEntry_eq hlength hfirst]
  simp only [Option.bind_eq_bind, Option.bind_some, if_neg hne]

/-- **The second loop of `list_items`** reports the base names of the listed records. -/
theorem listItemsLoop_eq_some (h : Terminated sector entry) :
    ∀ {fuel i : Nat} {items : List (List UInt8)} {k : Nat} {items' : List (List UInt8)},
    (∀ r ∈ listed (recordsFrom sector fuel entry), 0 ∉ r.base) →
    listItemsLoop sector fuel entry i items = some (k, items') →
    k = i + (listed (recordsFrom sector fuel entry)).length ∧
    reported items' k
      = reported items i ++ (listed (recordsFrom sector fuel entry)).map Record.base := by
  induction h with
  | zero hin hend =>
    intro fuel i items k items' _ h
    cases fuel with
    | zero => nomatch h
    | succ fuel =>
      rw [listItemsLoop, byteAt_eq hin] at h
      simp only [Option.bind_eq_bind, Option.bind_some, if_pos hend] at h
      obtain ⟨rfl, rfl⟩ := Prod.mk.inj (Option.some.inj h)
      rw [recordsFrom_zero fuel hend]
      exact ⟨rfl, (List.append_nil _).symm⟩
  | @record entry hne hname rest ih =>
    intro fuel i items k items' hzero h
    have hlt := rest.lt
    cases fuel with
    | zero => nomatch h
    | succ fuel =>
      have hin : entry + 33 + (sector (entry + 32)).toNat ≤ 2048 := by omega
      rw [recordsFrom_record fuel (by omega) hne] at hzero ⊢
      rw [listItemsLoop_record fuel i items (by omega) (by omega) hne] at h
      -- `.` and `..` are passed over; any other record fills the next slot
      by_cases hdot : (recordAt sector entry).isDot = true
      · rw [if_pos hdot] at h
        rw [listed_cons_of_dot hdot] at hzero ⊢
        exact ih hzero h
      · rw [if_neg hdot] at h
        rw [listed_cons (Bool.eq_false_iff.mpr hdot)] at hzero ⊢
        have hbase := hzero _ List.mem_cons_self
        obtain ⟨items'', hstore, h⟩ := Option.bind_eq_some_iff.mp h
        rw [storeItem_eq hin hbase] at hstore
        obtain ⟨item, hitem, hstore⟩ := Option.bind_eq_some_iff.mp hstore
        split at hstore
        · obtain rfl := Option.some.inj hstore
          obtain ⟨hk, hreported⟩ := ih (fun r hr => hzero r (List.mem_cons_of_mem _ hr)) h
          refine ⟨by rw [hk, List.length_cons]; omega, ?_⟩
          rw [hreported, reported_set hitem, cString_terminated hbase, List.append_assoc]
          rfl
        · cases hstore

/-- It has a result when there is room for the items. -/
theorem listItemsLoop_isSome (h : Terminated sector entry) :
    ∀ (fuel i : Nat) (items : List (List UInt8)), 2048 < entry + fuel →
    (∀ r ∈ listed (recordsFrom sector fuel entry), 0 ∉ r.base) →
    i + (listed (recordsFrom sector fuel entry)).length ≤ items.length →
    (∀ item ∈ items, 223 ≤ item.length) →
    (listItemsLoop sector fuel entry i items).isSome := by
  induction h with
  | zero hin hend =>
    intro fuel i items hfuel _ _ _
    obtain ⟨fuel, rfl⟩ : ∃ n, fuel = n + 1 := ⟨fuel - 1, by omega⟩
    rw [listItemsLoop, byteAt_eq hin]
    simp only [Option.bind_eq_bind, Option.bind_some, if_pos hend]
    rfl
  | @record entry hne hname rest ih =>
    intro fuel i items hfuel hzero hroom hitems
    have hlt := rest.lt
    have hpos := toNat_pos hne
    obtain ⟨fuel, rfl⟩ : ∃ n, fuel = n + 1 := ⟨fuel - 1, by omega⟩
    have hin : entry + 33 + (sector (entry + 32)).toNat ≤ 2048 := by omega
    rw [recordsFrom_record fuel (by omega) hne] at hzero hroom
    rw [listItemsLoop_record fuel i items (by omega) (by omega) hne]
    by_cases hdot : (recordAt sector entry).isDot = true
    · rw [listed_cons_of_dot hdot] at hzero hroom
      rw [if_pos hdot]
      exact ih fuel i items (by omega) hzero hroom hitems
    · rw [listed_cons (Bool.eq_false_iff.mpr hdot)] at hzero hroom
      rw [List.length_cons] at hroom
      rw [if_neg hdot, storeItem_eq hin (hzero _ List.mem_cons_self)]
      have hi : i < items.length := by omega
      -- a record is at most 255 bytes long, so its name is shorter than an item
      have hbase : (recordAt sector entry).base.length < items[i].length := by
        have hitem := hitems _ (List.getElem_mem hi)
        have hshort := (cmpLen_eq_some (headerInside hin).cmpLen).1
        have hbyte := (sector entry).toNat_lt
        omega
      rw [List.getElem?_eq_getElem hi, Option.bind_some, if_pos hbase, Option.bind_some]
      refine ih fuel (i + 1) _ (by omega) (fun r hr => hzero r (List.mem_cons_of_mem _ hr))
        (by rw [List.length_set]; omega) fun item hitem => ?_
      rcases List.mem_or_eq_of_mem_set hitem with hold | rfl
      · exact hitems item hold
      · have hitem := hitems _ (List.getElem_mem hi)
        rw [List.length_append, List.length_cons, List.length_drop]
        omega

end Listing

/-! ## Agreement -/

/-- What is asked of listed records: no zeros, no two records with the same name, and a
    file has an extent. -/
structure WellNamed (rs : List Record) : Prop where
  zero : ∀ r ∈ rs, 0 ∉ r.base
  nodup : (rs.map Record.base).Nodup
  lba : ∀ r ∈ rs, r.directory = false → r.lba ≠ 0

/-- A name is the one that is reported for a record. -/
def ReportedAs (rs : List Record) (names : List (List UInt8)) (r : Record) (n : List UInt8) : Prop :=
  ∃ j : Nat, rs[j]? = some r ∧ names[j]? = some n

/-- When the names are those of the records. -/
theorem reportedAs_iff {rs : List Record} {r : Record} {n : List UInt8} :
    ReportedAs rs (rs.map Record.base) r n ↔ r ∈ rs ∧ r.base = n := by
  have hname : ∀ j : Nat, rs[j]? = some r → (rs.map Record.base)[j]? = some r.base := by
    intro j hj
    rw [List.getElem?_map, hj]
    rfl
  constructor
  · rintro ⟨j, hr, hn⟩
    rw [hname j hr] at hn
    exact ⟨List.mem_of_getElem? hr, Option.some.inj hn⟩
  · rintro ⟨hr, rfl⟩
    obtain ⟨j, hj⟩ := List.getElem?_of_mem hr
    exact ⟨j, hj, hname j hj⟩

theorem mem_listed {rs : List Record} {r : Record} : r ∈ listed rs ↔ r ∈ rs ∧ r.isDot = false := by
  rw [listed, List.mem_filter, Bool.not_eq_true']

/-- The base name of a dot entry. -/
theorem base_of_isDot {r : Record} (h : r.isDot = true) : r.base = [0x00] ∨ r.base = [0x01] := by
  rw [Record.isDot, Bool.or_eq_true, decide_eq_true_eq, decide_eq_true_eq] at h
  unfold Record.base
  rcases h with h | h <;> rw [h, if_neg fun hlong => absurd hlong.1 (by decide)]
  · exact .inl rfl
  · exact .inr rfl

theorem isDot_eq_false {r : Record} (h : r.base ≠ [0x00] ∧ r.base ≠ [0x01]) : r.isDot = false :=
  Bool.eq_false_iff.mpr fun hdot => (base_of_isDot hdot).elim h.1 h.2

/-- In a directory with distinct names a listed file is the one that is found. -/
theorem find_listed {disc : Bytes} {e : IsoFile} (h : WellNamed (listing disc e))
    {r : Record} (hr : r ∈ listing disc e) (hfile : r.directory = false)
    (hname : r.base ≠ [0x00] ∧ r.base ≠ [0x01]) : (walked disc).find false e r.base = some r := by
  have hfind := Catalog.find_of_unique (c := walked disc) (mem_listed.mp hr).1
    fun r' hr' _ hsame => ?_
  · have hfile' : (walked disc).directory r = false := hfile
    rw [hfile'] at hfind
    exact hfind
  · have hsame' : r'.base = r.base := hsame
    have hdot : r'.isDot = false := isDot_eq_false (hsame'.symm ▸ hname)
    exact List.inj_on_of_nodup_map h.nodup (mem_listed.mpr ⟨hr', hdot⟩) hr hsame'

section Agreement

variable {d : Drive} {s s' : Stack} {path w rest wrest : List UInt8}

/-- `list_items` returns, with the names of the directory that the path leads to. -/
theorem listItems_returns (s : Stack) (rest : List UInt8) (hserves : ∀ k, d.Serves k 1)
    (hsmall : SmallDirectories d.disc) (hpath : 0 ∉ path) (hlen : path.length < 255)
    (hparts : pathParts path = components path) {items : List (List UInt8)}
    (hitems : ∀ item ∈ items, 223 ≤ item.length) :
    ((walked d.disc).resolve (rootDirectory d.disc) (components path) = none →
      listItems d s (path ++ 0 :: rest) items = some (-1, items)) ∧
    ∀ e, (walked d.disc).resolve (rootDirectory d.disc) (components path) = some e →
      (listing d.disc e).length ≤ items.length → (∀ r ∈ listing d.disc e, 0 ∉ r.base) →
      ∃ items', listItems d s (path ++ 0 :: rest) items
          = some (((listing d.disc e).length : Int), items') ∧
        reported items' (listing d.disc e).length = (listing d.disc e).map Record.base := by
  have hone : ∀ q e, q <+: pathParts path →
      (walked d.disc).resolve (rootDirectory d.disc) q = some e → OneSector d.disc e :=
    fun q e _ hq => hsmall e (Catalog.Inside.root.resolve hq)
  obtain ⟨hmissing, hfound⟩ :=
    @listItems_eq d s path rest hpath hlen (fun k _ => hserves k) hone items
  rw [hparts] at hmissing hfound
  refine ⟨hmissing, fun e hresolve hroom hnames => ?_⟩
  have hterminated := hsmall e (Catalog.Inside.root.resolve hresolve)
  have hroom' : 0 + (listing d.disc e).length ≤ items.length := by
    rwa [Nat.zero_add]
  obtain ⟨⟨i, items'⟩, hloop⟩ := Option.isSome_iff_exists.mp
    (listItemsLoop_isSome hterminated 2049 0 items (by omega) hnames hroom' hitems)
  obtain ⟨hi, hreported⟩ := listItemsLoop_eq_some hterminated hnames hloop
  rw [Nat.zero_add] at hi
  obtain rfl : i = (listing d.disc e).length := hi
  refine ⟨items', ?_, hreported⟩
  rw [hfound e hresolve, hloop]
  rfl

/-- **`list_items` and `get_lba_file` agree**: with room for the items `list_items` returns, with -1
    exactly when there is no such directory; otherwise a name is that of a listed file exactly when it
    is found, and then the extent is that of the record. -/
theorem listItems_agrees (hserves : ∀ k, d.Serves k 1) (hsmall : SmallDirectories d.disc)
    (hnames : ∀ e, (walked d.disc).Inside (rootDirectory d.disc) e →
      WellNamed (listing d.disc e))
    (hpath : 0 ∉ path) (hpathLen : path.length < 255)
    (htwo : ¬ ['/'.toUInt8, '/'.toUInt8] <+: path) (hcount : (components path).length ≤ 14)
    (hw : 0 ∉ w) (hlen : w.length < 255) (htwo' : ¬ ['/'.toUInt8, '/'.toUInt8] <+: w)
    {n : List UInt8} (hcomponents : components w = components path ++ [n])
    (hn : n ≠ [0x00] ∧ n ≠ [0x01]) {items : List (List UInt8)}
    (hitems : ∀ item ∈ items, 223 ≤ item.length)
    (hroom : ∀ e, (walked d.disc).Inside (rootDirectory d.disc) e →
      (listing d.disc e).length ≤ items.length) :
    ∃ k items', listItems d s (path ++ 0 :: rest) items = some (k, items') ∧
      (k = -1 ↔ (walked d.disc).resolve (rootDirectory d.disc) (components path) = none) ∧
      (k ≠ -1 →
        ∃ e file, (walked d.disc).resolve (rootDirectory d.disc) (components path) = some e ∧
          k = (listing d.disc e).length ∧
          (getLbaFile d s' (w ++ 0 :: wrest)).map Prod.fst = some file ∧
          ((∃ r, r.directory = false ∧
              ReportedAs (listing d.disc e) (reported items' k.toNat) r n) ↔ file.lba ≠ 0) ∧
          ∀ r, r.directory = false → ReportedAs (listing d.disc e) (reported items' k.toNat) r n →
            file = r.extent) := by
  have hparts := pathParts_eq_components hpath htwo (by omega)
  have hparts' := pathParts_eq_components hw htwo'
    (by rw [hcomponents, List.length_append, List.length_singleton]; omega)
  rw [hcomponents] at hparts'
  obtain ⟨hmissing, hlisted⟩ :=
    listItems_returns s rest hserves hsmall hpath hpathLen hparts hitems
  rcases hresolve : (walked d.disc).resolve (rootDirectory d.disc) (components path) with _ | e
  · exact ⟨-1, items, hmissing hresolve, iff_of_true rfl rfl, fun hk => absurd rfl hk⟩
  have hinside := Catalog.Inside.root.resolve hresolve
  obtain ⟨items', hlist, hreported⟩ :=
    hlisted e hresolve (hroom e hinside) (hnames e hinside).zero
  have hne : ((listing d.disc e).length : Int) ≠ -1 := by omega
  refine ⟨_, items', hlist, iff_of_false hne (Option.some_ne_none e), fun _ => ?_⟩
  -- the items are the names of the listed records
  have hnamed : ∀ r, ReportedAs (listing d.disc e)
      (reported items' ((listing d.disc e).length : Int).toNat) r n ↔
        r ∈ listing d.disc e ∧ r.base = n := by
    intro r
    rw [Int.toNat_natCast, hreported]
    exact reportedAs_iff
  have hfound := getLbaFile_eq_small s' wrest hserves hsmall hw hlen hparts'
  rw [Catalog.resolveSkipping_of_resolve hresolve] at hfound
  have hextent : ∀ r, r.directory = false → ReportedAs (listing d.disc e)
      (reported items' ((listing d.disc e).length : Int).toNat) r n →
        foundFile d.disc e n = r.extent := by
    intro r hfile hreport
    obtain ⟨hr, rfl⟩ := (hnamed r).mp hreport
    rw [foundFile, find_listed (hnames e hinside) hr hfile hn]
    rfl
  refine ⟨e, foundFile d.disc e n, rfl, rfl, ?_, ⟨?_, ?_⟩, hextent⟩
  · rw [hfound]
    rfl
  · rintro ⟨r, hfile, hreport⟩
    rw [hextent r hfile hreport]
    exact (hnames e hinside).lba r ((hnamed r).mp hreport).1 hfile
  · intro hlba
    unfold foundFile at hlba
    cases hfind : (walked d.disc).find false e n with
    | none =>
      rw [hfind] at hlba
      exact absurd rfl hlba
    | some r =>
      obtain ⟨hr, hfile, hbase⟩ := Catalog.find_eq_some hfind
      have hbase' : r.base = n := hbase
      have hdot : r.isDot = false := isDot_eq_false (hbase'.symm ▸ hn)
      exact ⟨r, hfile, (hnamed r).mpr ⟨mem_listed.mpr ⟨hr, hdot⟩, hbase'⟩⟩

end Agreement

theorem twoDirectories_names (e : IsoFile)
    (h : (walked twoDirectories).Inside (rootDirectory twoDirectories) e) :
    WellNamed (listing twoDirectories e) := by
  have hzero : ∀ e ∈ [⟨20, 2048⟩, ⟨21, 2048⟩], ∀ r ∈ listing twoDirectories e, 0 ∉ r.base := by
    decide +kernel
  have hnodup : ∀ e ∈ [⟨20, 2048⟩, ⟨21, 2048⟩],
      ((listing twoDirectories e).map Record.base).Nodup := by decide +kernel
  have hlba : ∀ e ∈ [⟨20, 2048⟩, ⟨21, 2048⟩], ∀ r ∈ listing twoDirectories e,
      r.directory = false → r.lba ≠ 0 := by decide +kernel
  have he := mem_twoDirectories h
  exact ⟨hzero e he, hnodup e he, hlba e he⟩

/-- `SUB` is listed, with one file, and that file is found there. -/
theorem listItems_agrees_sub : ∃ items' file, listItems (flawless twoDirectories) clearStack
      (bytes "SUB" ++ [0]) (List.replicate 2 (List.replicate 255 0)) = some (1, items') ∧
    (getLbaFile (flawless twoDirectories) clearStack (bytes "SUB/F" ++ [0])).map Prod.fst
      = some file ∧ file.lba ≠ 0 ∧
    ∃ r, r.directory = false ∧
      ReportedAs (listing twoDirectories ⟨21, 2048⟩) (reported items' 1) r (bytes "F") ∧
      file = r.extent := by
  have hcomponents : components (bytes "SUB/F") = components (bytes "SUB") ++ [bytes "F"] := by
    decide +kernel
  have hitems : ∀ item ∈ List.replicate 2 (List.replicate 255 (0 : UInt8)), 223 ≤ item.length := by
    intro item hitem
    rw [List.eq_of_mem_replicate hitem, List.length_replicate]
    decide
  have hroom : ∀ e ∈ [⟨20, 2048⟩, ⟨21, 2048⟩], (listing twoDirectories e).length ≤ 2 := by
    decide +kernel
  have hdirectory : (walked twoDirectories).resolve (rootDirectory twoDirectories)
      (components (bytes "SUB")) = some ⟨21, 2048⟩ := by decide +kernel
  obtain ⟨k, items', hlist, hmissing, hagree⟩ :=
    @listItems_agrees (flawless twoDirectories) clearStack clearStack (bytes "SUB") (bytes "SUB/F") []
      [] (fun k => flawless_serves _ k 1) twoDirectories_small twoDirectories_names
      (by decide +kernel) (by decide) (by decide +kernel) (by decide +kernel) (by decide +kernel)
      (by decide) (by decide +kernel) (bytes "F") hcomponents (by decide +kernel) _ hitems
      fun e he => hroom e (mem_twoDirectories he)
  have hk : k ≠ -1 := fun hk => Option.some_ne_none _ (hdirectory.symm.trans (hmissing.mp hk))
  obtain ⟨e, file, hresolve, rfl, hfile, hfound, hextent⟩ := hagree hk
  obtain rfl := Option.some.inj (hdirectory.symm.trans hresolve)
  have hone : (listing twoDirectories ⟨21, 2048⟩).length = 1 := by decide +kernel
  have hlba : file.lba ≠ 0 := by
    have hread : (getLbaFile (flawless twoDirectories) clearStack (bytes "SUB/F" ++ [0])).map
        Prod.fst = some ⟨31, 5⟩ := by decide +kernel
    obtain rfl := Option.some.inj (hread.symm.trans hfile)
    decide
  obtain ⟨r, hr, hreport⟩ := hfound.mpr hlba
  have hsame := hextent r hr hreport
  have hdisc : (flawless twoDirectories).disc = twoDirectories := rfl
  rw [hdisc, hone] at hlist hreport
  exact ⟨items', file, hlist, hfile, hlba, r, hr, hreport, hsame⟩

end MyOs.Drivers
