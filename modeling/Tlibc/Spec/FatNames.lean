import Tlibc.Spec.FatServed

/-!
# Names in the root directory

`FAT32Copyin` copies a name up to its first dot to byte 0 of the directory entry,
and the rest, with the dot, to byte 8.

* `readField_shortField`: the name field that a name in 8.3 form should have decodes
  back to the name
* `copyin_names_iff`: the entries of a run are what the names ask for exactly when
  no name in 8.3 form has an extension, and the other names have something before
  their first dot and run over neither 11 bytes there nor 3 behind
-/

namespace Tlibc.Fat

variable {g : Geometry} {m m' : Mem} {buf w : Nat} {config : FATConfig} {name : CString}

/-! ## 8.3 form -/

/-- The characters in front of the first dot. -/
def baseOf (name : CString) : List UInt8 := name.chars.takeWhile (· != dot)

/-- The characters from the first dot on. -/
def suffixOf (name : CString) : List UInt8 := name.chars.dropWhile (· != dot)

/-- A name in 8.3 form: a base of 1 to 8 characters, and maybe a dot and an extension
    of 1 to 3 characters. -/
structure ShortName (name : CString) : Prop where
  base_pos : 1 ≤ (baseOf name).length
  base_le : (baseOf name).length ≤ 8
  suffix : suffixOf name = [] ∨
    ∃ ext, suffixOf name = dot :: ext ∧ 1 ≤ ext.length ∧ ext.length ≤ 3 ∧ dot ∉ ext

/-- Zeros behind the characters, up to `n` bytes. -/
def padTo (n : Nat) (cs : List UInt8) : List UInt8 := cs ++ List.replicate (n - cs.length) 0

/-- The name field of a name in 8.3 form: the base, then the extension without its dot. -/
def shortField (name : CString) : List UInt8 :=
  padTo 8 (baseOf name) ++ padTo 3 ((suffixOf name).drop 1)

/-- The name that a name field stands for. -/
def readField (field : List UInt8) : List UInt8 :=
  let base := (field.take 8).takeWhile (· != 0)
  let ext := (field.drop 8).takeWhile (· != 0)
  if ext = [] then base else base ++ dot :: ext

/-- A name is its base and its suffix. -/
private theorem base_append_suffix (name : CString) : baseOf name ++ suffixOf name = name.chars :=
  List.takeWhile_append_dropWhile

/-- What is padded has the length of the field. -/
private theorem length_padTo {n : Nat} {cs : List UInt8} (h : cs.length ≤ n) :
    (padTo n cs).length = n := by
  rw [padTo, List.length_append, List.length_replicate]
  omega

/-- Characters other than NUL are what stands in front of the padding. -/
private theorem takeWhile_padTo {n : Nat} {cs : List UInt8} (h : (0 : UInt8) ∉ cs) :
    (padTo n cs).takeWhile (· != 0) = cs := by
  have hall : ∀ c ∈ cs, (c != 0) = true := fun c hc => bne_iff_ne.mpr fun h0 => h (h0 ▸ hc)
  rw [padTo, List.takeWhile_append_of_pos hall]
  cases n - cs.length with
  | zero => rw [List.replicate_zero, List.takeWhile_nil, List.append_nil]
  | succ k => rw [List.replicate_succ, List.takeWhile_cons_of_neg (by decide), List.append_nil]

/-- The base has no NUL. -/
private theorem base_nul_free (name : CString) : (0 : UInt8) ∉ baseOf name := fun h =>
  name.nul_free ((List.takeWhile_sublist _).subset h)

/-- Nor has the suffix. -/
private theorem suffix_nul_free (name : CString) : (0 : UInt8) ∉ suffixOf name := fun h =>
  name.nul_free ((List.dropWhile_sublist _).subset h)

/-- Nor has what is behind its dot. -/
private theorem ext_nul_free (name : CString) : (0 : UInt8) ∉ (suffixOf name).drop 1 := fun h =>
  suffix_nul_free name ((List.drop_sublist _ _).subset h)

/-- The field of a name in 8.3 form decodes back to the name. -/
theorem readField_shortField (hs : ShortName name) : readField (shortField name) = name.chars := by
  have hlen := length_padTo hs.base_le
  -- up to the first NUL the two parts of the field are the base and the suffix without its dot
  have hbase : ((shortField name).take 8).takeWhile (· != 0) = baseOf name := by
    rw [shortField, List.take_append_of_le_length (Nat.le_of_eq hlen.symm),
      List.take_of_length_le (Nat.le_of_eq hlen), takeWhile_padTo (base_nul_free name)]
  have hext : ((shortField name).drop 8).takeWhile (· != 0) = (suffixOf name).drop 1 := by
    rw [shortField, List.drop_append_of_le_length (Nat.le_of_eq hlen.symm),
      List.drop_of_length_le (Nat.le_of_eq hlen), List.nil_append,
      takeWhile_padTo (ext_nul_free name)]
  have happ := base_append_suffix name
  rw [readField]
  simp only [hbase, hext]
  -- a name without a suffix has no dot either
  rcases hs.suffix with hnil | ⟨ext, hcons, hpos, -, -⟩
  · rw [hnil, List.drop_nil, if_pos rfl, ← happ, hnil, List.append_nil]
  · have hne : ext ≠ [] := List.length_pos_iff.mp hpos
    rw [hcons, List.drop_one, List.tail_cons, if_neg hne, ← happ, hcons]

/-- Names in 8.3 form that differ have different fields. -/
private theorem shortField_inj {a b : CString} (ha : ShortName a) (hb : ShortName b)
    (h : shortField a = shortField b) : a.chars = b.chars := by
  rw [← readField_shortField ha, ← readField_shortField hb, h]

/-- The field of a short name has 11 bytes. -/
private theorem length_shortField (hs : ShortName name) : (shortField name).length = 11 := by
  have hext : ((suffixOf name).drop 1).length ≤ 3 := by
    rcases hs.suffix with hnil | ⟨ext, hcons, -, hle, -⟩
    · rw [hnil]
      decide
    · rw [hcons, List.drop_one, List.tail_cons]
      exact hle
  rw [shortField, List.length_append, length_padTo hs.base_le, length_padTo hext]

/-! ## The two copies of a name -/

/-- The copy loops of `storeDirEntry`. -/
def nameCopy (m : Mem) (entry : Nat) (name : CString) : Mem :=
  (m.write (entry + FATDirEntry.name) (baseOf name)).write (entry + FATDirEntry.suffix)
    (suffixOf name)

/-- The stores of `storeDirEntry` behind the name. -/
def fieldStores (h : Host) (attr nextFree fobjSize : Nat) : List (Nat × List UInt8) :=
  (entryStores h ⟨[], List.not_mem_nil⟩ attr nextFree fobjSize).drop 2

/-- An entry is stored as its name and then the other fields. -/
private theorem storeDirEntry_nameCopy (h : Host) (m : Mem) (entry : Nat) (name : CString)
    (attr nextFree fobjSize : Nat) : storeDirEntry h m entry name attr nextFree fobjSize =
      (nameCopy (m.fill entry 32 0) entry name).writeAll entry
        (fieldStores h attr nextFree fobjSize) :=
  storeDirEntry_stores h m entry name attr nextFree fobjSize

/-- The other fields do not overlap each other or the name. -/
private theorem fieldStores_ascending (h : Host) (attr nextFree fobjSize : Nat) :
    Mem.Ascending 32 11 (fieldStores h attr nextFree fobjSize) := by
  simp [Mem.Ascending, fieldStores, entryStores]

/-- The copies reach the addresses of the two pieces only. -/
private theorem nameCopy_out {entry a : Nat} (hbase : a < entry ∨ entry + (baseOf name).length ≤ a)
    (hsuffix : a < entry + 8 ∨ entry + 8 + (suffixOf name).length ≤ a) :
    nameCopy m entry name a = m a := by
  rw [nameCopy, Mem.write_apply_out (by simp only [FATDirEntry.suffix]; omega),
    Mem.write_apply_out (by simp only [FATDirEntry.name]; omega)]

/-- The suffix is copied to the last bytes of the name, its dot included. -/
private theorem nameCopy_suffix {entry j : Nat} (hj : j < (suffixOf name).length) :
    nameCopy m entry name (entry + (8 + j)) = (suffixOf name)[j] := by
  rw [nameCopy, ← Nat.add_assoc]
  exact Mem.write_apply_in hj

/-- Of the base the bytes are left that the suffix does not cover. -/
private theorem nameCopy_base {entry i : Nat} (hi : i < (baseOf name).length)
    (hout : i < 8 ∨ 8 + (suffixOf name).length ≤ i) :
    nameCopy m entry name (entry + i) = (baseOf name)[i] := by
  rw [nameCopy, Mem.write_apply_out (by simp only [FATDirEntry.suffix]; omega)]
  exact Mem.write_apply_in hi

/-- The copy stays in the name field exactly when the pieces are short enough. -/
private theorem nameCopy_frame_iff {entry : Nat} :
    (∀ m, Mem.Frame (Set.Ico entry (entry + 11)) m (nameCopy m entry name)) ↔
      (baseOf name).length ≤ 11 ∧ (suffixOf name).length ≤ 3 := by
  constructor
  · intro hall
    -- on a memory of zeros every character stored shows
    have hzero : ∀ i, 11 ≤ i → nameCopy (fun _ => 0) entry name (entry + i) = 0 := by
      intro i hi
      refine (hall fun _ => 0).apply fun hin => ?_
      have hin : entry + i < entry + 11 := hin.2
      omega
    have hsuffix : (suffixOf name).length ≤ 3 := by
      by_contra hlong
      have h3 := hzero 11 (Nat.le_refl _)
      rw [show 11 = 8 + 3 from rfl, nameCopy_suffix (by omega)] at h3
      exact suffix_nul_free name (h3 ▸ List.getElem_mem _)
    refine ⟨?_, hsuffix⟩
    by_contra hlong
    have h11 := hzero 11 (Nat.le_refl _)
    rw [nameCopy_base (by omega) (by omega)] at h11
    exact base_nul_free name (h11 ▸ List.getElem_mem _)
  · rintro ⟨hbase, hsuffix⟩ m a ha
    have ha : ¬ (entry ≤ a ∧ a < entry + 11) := ha
    exact nameCopy_out (by omega) (by omega)

section

variable (h : Host) (m : Mem) (entry attr nextFree fobjSize : Nat)

/-- The fields leave the name field alone. -/
private theorem storeDirEntry_name {i : Nat} (hi : i < 11) :
    storeDirEntry h m entry name attr nextFree fobjSize (entry + i) =
      nameCopy (m.fill entry 32 0) entry name (entry + i) := by
  rw [storeDirEntry_nameCopy]
  refine Mem.writeAll_apply_out fun s hs => ?_
  have hb := (fieldStores_ascending h attr nextFree fobjSize).bounds hs
  omega

/-- A name that does not run over leaves everything outside its entry alone. -/
private theorem storeDirEntry_out (hbase : (baseOf name).length ≤ 32)
    (hsuffix : (suffixOf name).length ≤ 24)
    {a : Nat} (ha : a < entry ∨ entry + 32 ≤ a) :
    storeDirEntry h m entry name attr nextFree fobjSize a = m a := by
  rw [storeDirEntry_nameCopy, Mem.writeAll_apply_out fun s hs => by
    have hb := (fieldStores_ascending h attr nextFree fobjSize).bounds hs
    omega, nameCopy_out (by omega) (by omega), Mem.fill_apply_out ha]

/-- The entry is in use unless the name has nothing in front of its first dot. -/
private theorem storeDirEntry_used :
    storeDirEntry h m entry name attr nextFree fobjSize entry ≠ 0 ↔ baseOf name ≠ [] := by
  have hfirst := @storeDirEntry_name name h m entry attr nextFree fobjSize 0 (by decide)
  rw [Nat.add_zero] at hfirst
  rw [hfirst]
  by_cases hnil : baseOf name = []
  · have hzero : nameCopy (m.fill entry 32 0) entry name entry = 0 := by
      rw [nameCopy, hnil, Mem.write_nil, Mem.write_apply_out (.inl (by simp)),
        Mem.fill_apply_in (Nat.le_refl _) (by omega)]
    exact iff_of_false (fun hne => hne hzero) (fun hne => hne hnil)
  · have hlen := List.length_pos_iff.mpr hnil
    have hget := @nameCopy_base (m.fill entry 32 0) name entry 0 hlen (.inl (by decide))
    rw [Nat.add_zero] at hget
    rw [hget]
    exact iff_of_true (fun h0 => base_nul_free name (h0 ▸ List.getElem_mem _)) hnil

/-- A name without a dot is stored as its padded field. -/
private theorem storeDirEntry_field (hs : ShortName name) (hnil : suffixOf name = []) :
    (storeDirEntry h m entry name attr nextFree fobjSize).read entry 11 = shortField name := by
  have hle := hs.base_le
  have hfield : shortField name = padTo 8 (baseOf name) ++ List.replicate 3 0 := by
    rw [shortField, hnil]
    rfl
  refine List.ext_getElem (by rw [Mem.length_read, length_shortField hs]) fun i h₁ h₂ => ?_
  rw [Mem.length_read] at h₁
  rw [Mem.getElem_read, storeDirEntry_name h m entry attr nextFree fobjSize h₁]
  simp only [hfield, padTo, List.append_assoc]
  by_cases hi : i < (baseOf name).length
  · rw [nameCopy_base hi (by omega), List.getElem_append_left hi]
  · rw [nameCopy_out (by omega) (by rw [hnil, List.length_nil]; omega),
      Mem.fill_apply_in (by omega) (by omega), List.getElem_append_right (by omega)]
    simp only [List.replicate_append_replicate, List.getElem_replicate]

/-- A name in 8.3 form with an extension keeps its dot in the field. -/
private theorem storeDirEntry_dot (hs : ShortName name) (hne : suffixOf name ≠ []) :
    (storeDirEntry h m entry name attr nextFree fobjSize).read entry 11 ≠ shortField name := by
  intro heq
  rcases hs.suffix with hnil | ⟨ext, hcons, hpos, -, hdot⟩
  · exact hne hnil
  have hlen := length_padTo hs.base_le
  -- byte 8 of the field should be the first character of the extension
  have hwant : ∃ c ∈ ext, (shortField name)[8]? = some c := by
    refine ⟨ext[0], List.getElem_mem hpos, ?_⟩
    rw [shortField, List.getElem?_append_right (Nat.le_of_eq hlen), hlen, hcons, List.drop_one,
      List.tail_cons, padTo, List.getElem?_append_left hpos, List.getElem?_eq_getElem hpos]
  have hgot : (shortField name)[8]? = some dot := by
    have h8 : 8 < ((storeDirEntry h m entry name attr nextFree fobjSize).read entry 11).length := by
      rw [Mem.length_read]
      decide
    have hsuffix := @nameCopy_suffix (m.fill entry 32 0) name entry 0 (by rw [hcons]; simp)
    rw [Nat.add_zero] at hsuffix
    rw [← heq, List.getElem?_eq_getElem h8, Mem.getElem_read,
      storeDirEntry_name h m entry attr nextFree fobjSize (by decide), hsuffix]
    simp only [hcons, List.getElem_cons_zero]
  obtain ⟨c, hc, hc8⟩ := hwant
  rw [hgot] at hc8
  exact hdot (Option.some.inj hc8 ▸ hc)

end

/-! ## One call -/

/-- Between `m` and `m'` root entry `i` came into use, with this name field, and no
    other root entry changed. -/
structure EntryAdded (config : FATConfig) (buf : Nat) (m m' : Mem) (i : Nat)
    (field : List UInt8) : Prop where
  slot : i < config.rootEntries
  unused : m (config.rootEntry buf i) = 0
  used : m' (config.rootEntry buf i) ≠ 0
  field : m'.read (config.rootEntry buf i) 11 = field
  others : ∀ j, j < config.rootEntries → j ≠ i → ∀ k, k < 32 →
    m' (config.rootEntry buf j + k) = m (config.rootEntry buf j + k)

/-- What a name asks for. A name in 8.3 form adds an entry with its field; the copy of
    any other name stays in the name field, and the next call passes the entry over. -/
structure NameStored (h : Host) (config : FATConfig) (buf : Nat) (m : Mem) (name : CString)
    (m' : Mem) : Prop where
  short : ShortName name → ∃ i, EntryAdded config buf m m' i (shortField name)
  inField : ¬ ShortName name → ∀ m₀, Mem.Frame (Set.Ico (config.newEntry buf m)
    (config.newEntry buf m + 11)) m₀ (nameCopy m₀ (config.newEntry buf m) name)
  seen : ¬ ShortName name →
    ∃ sb, fat32SuperInit h m' buf = .ok sb ∧ config.newIndex buf m < sb.nextRootEntry

/-- A name in 8.3 form has no extension. Any other name has a character in front of
    its first dot, 11 at most, and from its first dot on 3 at most. -/
def NameFits (name : CString) : Prop :=
  (ShortName name → suffixOf name = []) ∧
    (¬ ShortName name →
      baseOf name ≠ [] ∧ (baseOf name).length ≤ 11 ∧ (suffixOf name).length ≤ 3)

/-- A name that fits has a base of 1 to 11 characters and a suffix of up to 3. -/
private theorem NameFits.bounds (hfits : NameFits name) :
    baseOf name ≠ [] ∧ (baseOf name).length ≤ 11 ∧ (suffixOf name).length ≤ 3 := by
  by_cases hs : ShortName name
  · have hpos := hs.base_pos
    have hle := hs.base_le
    rw [hfits.1 hs, List.length_nil]
    exact ⟨List.length_pos_iff.mp hpos, by omega, by decide⟩
  · exact hfits.2 hs

/-- A name in 8.3 form does not run over its entry. -/
private theorem ShortName.suffix_le (hs : ShortName name) : (suffixOf name).length ≤ 4 := by
  rcases hs.suffix with hnil | ⟨ext, hcons, -, hle, -⟩
  · rw [hnil]
    decide
  · rw [hcons, List.length_cons]
    omega

section

variable (hg : config.Laid g)
include hg

/-- Where an entry of the root directory is. -/
private theorem rootEntry_eq (i : Nat) : config.rootEntry buf i = buf + g.root + 32 * i := by
  rw [FATConfig.rootEntry, hg.root, Nat.mul_comm 2]
  rfl

/-- How many there are. -/
private theorem rootEntries_eq : config.rootEntries = g.numRootEntry := by
  rw [FATConfig.rootEntries, FATConfig.clusterBytes, Geometry.numRootEntry, hg.bytesPerCluster]
  rfl

/-- The new entry is the first unused one. -/
theorem newIndex_eq {n : Nat} (hused : g.RootUsed m buf n) : config.newIndex buf m = n := by
  rw [FATConfig.newIndex, rootEntry_eq hg, rootEntries_eq hg]
  exact g.firstUnused_eq hused

variable {h : Host} {c : RawCall} {size n : Nat} (hs : Served h g m buf w c size n m')
include hs

/-- The entry of the call. -/
theorem Served.entry {k : Nat} (hk : k < 32) : m' (config.rootEntry buf n + k) =
    storeDirEntry h m (config.rootEntry buf n) c.name c.attr w size
      (config.rootEntry buf n + k) := by
  have hbpc := g.bytesPerCluster_eq
  have hn := hs.slot
  have hroot := hs.root (32 * n + k) (by omega)
  rw [rootEntry_eq hg, Nat.add_assoc]
  exact hroot

/-- The name of the entry is the one that was stored. -/
private theorem Served.read_entry : m'.read (config.rootEntry buf n) 11 =
    (storeDirEntry h m (config.rootEntry buf n) c.name c.attr w size).read
      (config.rootEntry buf n) 11 :=
  Mem.read_congr fun _ hk => hs.entry hg (Nat.lt_trans hk (by decide))

/-- A name that does not run over leaves the other entries alone. -/
private theorem Served.other_entries (hbase : (baseOf c.name).length ≤ 32)
    (hsuffix : (suffixOf c.name).length ≤ 24) {j : Nat} (hj : j < config.rootEntries) (hne : j ≠ n)
    {k : Nat} (hk : k < 32) :
    m' (config.rootEntry buf j + k) = m (config.rootEntry buf j + k) := by
  have hbpc := g.bytesPerCluster_eq
  rw [rootEntries_eq hg] at hj
  rw [rootEntry_eq hg, Nat.add_assoc, hs.root _ (by omega)]
  exact storeDirEntry_out h m _ _ _ _ hbase hsuffix (by omega)

/-- An entry that came into use is the call's, unless the name ran over. -/
private theorem Served.added_index (hbase : (baseOf c.name).length ≤ 32)
    (hsuffix : (suffixOf c.name).length ≤ 24) {i : Nat} {field : List UInt8}
    (hadd : EntryAdded config buf m m' i field) : i = n := by
  by_contra hne
  have hsame := hs.other_entries hg hbase hsuffix hadd.slot hne (show 0 < 32 by decide)
  exact hadd.used (hsame.trans hadd.unused)

/-- A name that fits adds its entry. -/
private theorem Served.added (hbase : (baseOf c.name).length ≤ 32)
    (hsuffix : (suffixOf c.name).length ≤ 24) (hne : baseOf c.name ≠ []) {field : List UInt8}
    (hfield : (storeDirEntry h m (config.rootEntry buf n) c.name c.attr w size).read
      (config.rootEntry buf n) 11 = field) : EntryAdded config buf m m' n field := by
  have hslot : n < config.rootEntries := by
    rw [rootEntries_eq hg]
    exact hs.slot
  refine ⟨hslot, ?_, ?_, ?_, fun j hj hjn k hk => hs.other_entries hg hbase hsuffix hj hjn hk⟩
  · rw [rootEntry_eq hg]
    exact hs.used.2.2 hs.slot
  · have hfirst := hs.entry hg (show 0 < 32 by decide)
    rw [Nat.add_zero] at hfirst
    rw [hfirst]
    exact (storeDirEntry_used h m _ _ _ _).mpr hne
  · rw [hs.read_entry hg, hfield]

/-- The next call passes the entry over exactly when something stands in front of the
    first dot. -/
private theorem Served.seen_iff :
    (∃ sb, fat32SuperInit h m' buf = .ok sb ∧ config.newIndex buf m < sb.nextRootEntry) ↔
      baseOf c.name ≠ [] := by
  rw [newIndex_eq hg hs.used, ← storeDirEntry_used h m (config.rootEntry buf n) c.attr w size]
  have hentry := hs.entry hg (show 0 < 32 by decide)
  rw [Nat.add_zero, rootEntry_eq hg] at hentry
  rw [rootEntry_eq hg, ← hentry]
  obtain ⟨k, hused, hinit⟩ := hs.ledger.superInit h
  constructor
  · rintro ⟨sb, hsb, hlt⟩
    rw [hinit] at hsb
    cases hsb
    exact hused.2.1 n hlt
  · intro hne
    refine ⟨_, hinit, ?_⟩
    show n < k
    by_contra hle
    have hbpc := g.bytesPerCluster_eq
    have hn := hs.slot
    -- the entries in front of the call's are in use as before
    have hzero := hused.2.2 (by omega)
    by_cases hkn : k = n
    · exact hne (hkn ▸ hzero)
    · have hbelow := hs.root (32 * k) (by omega)
      rw [storeDirEntry_below h m c.name c.attr w size (by omega)] at hbelow
      exact hs.used.2.1 k (by omega) (hbelow.symm.trans hzero)

/-- A call stores its name as it should exactly when the name fits. -/
private theorem Served.nameStored_iff : NameStored h config buf m c.name m' ↔ NameFits c.name := by
  constructor
  · intro hstored
    refine ⟨fun hshort => ?_, fun hother => ?_⟩
    · by_contra hne
      obtain ⟨i, hadd⟩ := hstored.short hshort
      have hle := hshort.base_le
      have hsuf := hshort.suffix_le
      obtain rfl := hs.added_index hg (by omega) (by omega) hadd
      have hread := hs.read_entry hg
      rw [hadd.field] at hread
      exact storeDirEntry_dot h m _ _ _ _ hshort hne hread.symm
    · obtain ⟨hbase, hsuffix⟩ := nameCopy_frame_iff.mp (hstored.inField hother)
      exact ⟨(hs.seen_iff hg).mp (hstored.seen hother), hbase, hsuffix⟩
  · intro hfits
    obtain ⟨hne, hbase, hsuffix⟩ := hfits.bounds
    refine ⟨fun hshort => ⟨n, ?_⟩, fun _ => ?_, fun _ => (hs.seen_iff hg).mpr hne⟩
    · exact hs.added hg (by omega) (by omega) hne
        (storeDirEntry_field h m _ _ _ _ hshort (hfits.1 hshort))
    · exact nameCopy_frame_iff.mpr ⟨hbase, hsuffix⟩

end

/-! ## Runs -/

/-- The root directory holds the names, in 8.3 form, and nothing else. -/
structure HoldsNames (config : FATConfig) (buf : Nat) (m : Mem) (names : List CString) : Prop where
  length_le : names.length ≤ config.rootEntries
  used : ∀ i, i < config.rootEntries →
    (m (config.rootEntry buf i) ≠ 0 ↔ i < names.length)
  field : ∀ i name, names[i]? = some name →
    m.read (config.rootEntry buf i) 11 = shortField name

/-- The first entry that is not in use is the one behind the names. -/
private theorem HoldsNames.index (hg : config.Laid g) {names : List CString} {n : Nat}
    (hm : HoldsNames config buf m names) (hused : g.RootUsed m buf n) (hn : n < g.numRootEntry) :
    n = names.length := by
  have hzero := hused.2.2 hn
  rw [← rootEntry_eq hg] at hzero
  rw [← rootEntries_eq hg] at hn
  have hge : ¬ n < names.length := fun hlt => (hm.used n hn).mpr hlt hzero
  by_contra hne
  have hin := hused.2.1 names.length (by omega)
  rw [← rootEntry_eq hg] at hin
  exact absurd ((hm.used names.length (by omega)).mp hin) (Nat.lt_irrefl _)

/-- A name that is added goes behind the names that are there. -/
private theorem HoldsNames.add {names : List CString} (hm : HoldsNames config buf m names)
    (hadd : EntryAdded config buf m m' names.length (shortField name)) :
    HoldsNames config buf m' (names ++ [name]) := by
  -- the new name is in the first unused entry, and the others are as they were
  have hslot := hadd.slot
  have hlen : (names ++ [name]).length = names.length + 1 := by simp
  have hsame : ∀ i, i < config.rootEntries → i ≠ names.length →
      m' (config.rootEntry buf i) = m (config.rootEntry buf i) := fun i hi hne =>
    hadd.others i hi hne 0 (by decide)
  refine ⟨by omega, fun i hi => ?_, fun i name' hget => ?_⟩
  · -- the entries in use are one more
    by_cases heq : i = names.length
    · rw [heq]
      exact iff_of_true hadd.used (by omega)
    · rw [hsame i hi heq, hm.used i hi]
      omega
  · -- a name from before is in its own entry
    by_cases hlt : i < names.length
    · rw [List.getElem?_append_left hlt] at hget
      rw [← hm.field i name' hget]
      refine Mem.read_congr fun k hk => hadd.others i ?_ (by omega) k (by omega)
      have hle := hm.length_le
      omega
    · -- and the new one in the entry behind them
      have hi : i = names.length := by
        have hbound := (List.getElem?_eq_some_iff.mp hget).1
        omega
      subst hi
      rw [List.getElem?_append_right (Nat.le_refl _), Nat.sub_self] at hget
      obtain rfl := Option.some.inj hget
      exact hadd.field

/-- Every call of the run stores its name as it should. -/
def StoresNames (h : Host) (config : FATConfig) (buf : Nat) (m : Mem) (calls : List RawCall) :
    Prop :=
  Run.Steps (rawStep h buf) (fun m c ret => ∀ m', rawStep h buf m c = .ok (ret, m') →
    NameStored h config buf m c.name m') m calls

/-- The run from `m₁` to `m` stores its names as it should. When they are all in 8.3
    form and differ, the name fields of the root directory differ and decode back. -/
structure NamesKept (h : Host) (config : FATConfig) (buf : Nat) (m₁ : Mem) (calls : List RawCall)
    (m : Mem) : Prop where
  steps : StoresNames h config buf m₁ calls
  fields : (∀ c ∈ calls, ShortName c.name) → (calls.map fun c => c.name.chars).Nodup →
    HoldsNames config buf m (calls.map fun c => c.name) ∧
      ((List.range calls.length).map fun i => m.read (config.rootEntry buf i) 11).Nodup ∧
      ∀ i c, calls[i]? = some c → readField (m.read (config.rootEntry buf i) 11) = c.name.chars

/-- The next file begins below byte `2 ^ 32`, as all files do on a smaller volume. -/
def FATConfig.StartsAddressable (config : FATConfig) (buf : Nat) (m : Mem) (_ : RawCall) : Prop :=
  (8 + 2 * config.fatSizeInSector) * config.bytesPerSector.toNat +
    (config.nextFree buf m - 2) * config.clusterBytes < 2 ^ 32

section

variable (hg : config.Laid g) {h : Host}
include hg

/-- A file that starts at an address below 4 GiB. -/
theorem startsBelow_of_addressable {c : RawCall} (hm : Ledger g m buf w)
    (hstart : config.StartsAddressable buf m c) (size : Nat) : StartsBelow g m buf w size := by
  intro _ _ _
  have hstart : (8 + 2 * config.fatSizeInSector) * config.bytesPerSector.toNat +
    (config.nextFree buf m - 2) * config.clusterBytes < 2 ^ 32 := hstart
  rw [nextFree_eq hg, hm.nextFree, FATConfig.clusterBytes, ← hg.bytesPerCluster, Nat.mul_comm 2,
    ← hg.root] at hstart
  exact hstart

/-- A call of the run that succeeds, and the rest of the run behind it. -/
private theorem Ledger.run_served {c : RawCall} {cs : List RawCall} {rets : List Nat}
    (hm : Ledger g m buf w) (hrun : Run.run (rawStep h buf) m (c :: cs) = .ok (rets, m'))
    (hrets : ∀ ret ∈ rets, ret ≠ 0)
    (hmeets : Run.Meets (rawStep h buf) (config.StartsAddressable buf) m (c :: cs)) :
    ∃ ret rets' m₂ size n, rawStep h buf m c = .ok (ret, m₂) ∧ Served h g m buf w c size n m₂ ∧
      Run.run (rawStep h buf) m₂ cs = .ok (rets', m') ∧ (∀ ret ∈ rets', ret ≠ 0) ∧
      Run.Meets (rawStep h buf) (config.StartsAddressable buf) m₂ cs := by
  obtain ⟨ret, m₂, rets', hstep, htail, rfl⟩ := Run.run_cons.mp hrun
  obtain ⟨stSize, n, -, hserved⟩ := hm.served
    (fun _ _ => startsBelow_of_addressable hg hm hmeets.1 _) hstep (hrets ret List.mem_cons_self)
  exact ⟨ret, rets', m₂, _, n, hstep, hserved, htail,
    fun r hr => hrets r (List.mem_cons_of_mem _ hr), hmeets.2 ret m₂ hstep⟩

/-- From any volume with a ledger. -/
private theorem storesNames_iff {calls : List RawCall} {rets : List Nat} (hm : Ledger g m buf w)
    (hrun : Run.run (rawStep h buf) m calls = .ok (rets, m')) (hrets : ∀ ret ∈ rets, ret ≠ 0)
    (hmeets : Run.Meets (rawStep h buf) (config.StartsAddressable buf) m calls) :
    StoresNames h config buf m calls ↔ ∀ c ∈ calls, NameFits c.name := by
  unfold StoresNames
  -- induction on the calls, one of which is served at each step
  induction calls generalizing m w rets with
  | nil => exact iff_of_true trivial (fun c hc => absurd hc List.not_mem_nil)
  | cons c cs ih =>
    obtain ⟨ret, rets', m₂, size, n, hstep, hserved, htail, hrets', hmeets'⟩ :=
      hm.run_served hg hrun hrets hmeets
    have hiff := hserved.nameStored_iff hg
    have hrest := ih hserved.ledger htail hrets' hmeets'
    rw [List.forall_mem_cons, ← hrest, ← hiff]
    constructor
    · -- there is one result of a step
      rintro ⟨b, s, hstep', hstored, hsteps⟩
      rw [hstep] at hstep'
      cases hstep'
      exact ⟨hstored m₂ hstep, hsteps⟩
    · rintro ⟨hstored, hsteps⟩
      refine ⟨ret, m₂, hstep, fun m₃ hm₃ => ?_, hsteps⟩
      rw [hstep] at hm₃
      cases hm₃
      exact hstored

/-- Names in 8.3 form that fit are entered one behind the other. -/
theorem HoldsNames.run {calls : List RawCall} {rets : List Nat} {names : List CString}
    (hm : Ledger g m buf w) (hnames : HoldsNames config buf m names)
    (hrun : Run.run (rawStep h buf) m calls = .ok (rets, m')) (hrets : ∀ ret ∈ rets, ret ≠ 0)
    (hmeets : Run.Meets (rawStep h buf) (config.StartsAddressable buf) m calls)
    (hshort : ∀ c ∈ calls, ShortName c.name) (hfits : ∀ c ∈ calls, NameFits c.name) :
    HoldsNames config buf m' (names ++ calls.map fun c => c.name) := by
  -- induction on the calls, with the names that are there already
  induction calls generalizing m w rets names with
  | nil =>
    cases hrun
    rw [List.map_nil, List.append_nil]
    exact hnames
  | cons c cs ih =>
    obtain ⟨ret, rets', m₂, size, n, hstep, hserved, htail, hrets', hmeets'⟩ :=
      hm.run_served hg hrun hrets hmeets
    have hfit := hfits c List.mem_cons_self
    have hc := hshort c List.mem_cons_self
    obtain ⟨hne, hbase, hsuffix⟩ := hfit.bounds
    -- a short name is stored as its field
    have hadd := hserved.added hg (by omega) (by omega) hne
      (storeDirEntry_field h m _ _ _ _ hc (hfit.1 hc))
    rw [hnames.index hg hserved.used hserved.slot] at hadd
    have hrest := ih hserved.ledger (hnames.add hadd) htail hrets' hmeets'
      (fun d hd => hshort d (List.mem_cons_of_mem _ hd))
      (fun d hd => hfits d (List.mem_cons_of_mem _ hd))
    rwa [List.append_assoc] at hrest

end

/-- From a formatted volume, in every run of calls that succeed on clusters that can be
    addressed, names are kept exactly when all of them fit. -/
theorem copyin_names_iff (h : Host) (m₀ m₁ m : Mem) (buf : Nat) (config : FATConfig)
    (hcreate : createFAT32 h m₀ buf config = .ok (0, m₁)) (hs : config.Addressable)
    (calls : List RawCall) (rets : List Nat)
    (hrun : Run.run (rawStep h buf) m₁ calls = .ok (rets, m)) (hrets : ∀ ret ∈ rets, ret ≠ 0)
    (hmeets : Run.Meets (rawStep h buf) (config.StartsAddressable buf) m₁ calls) :
    NamesKept h config buf m₁ calls m ↔ ∀ c ∈ calls, NameFits c.name := by
  have ha := createFAT32_accepted hcreate
  have hg := config.geometry_laid ha hs
  have himage := createFAT32_image hcreate ha hs
  obtain ⟨g, hgEq⟩ : ∃ g, g = config.geometry ha hs := ⟨_, rfl⟩
  rw [← hgEq] at hg himage
  have hiff := storesNames_iff hg himage.ledger hrun hrets hmeets
  refine ⟨fun hkept => hiff.mp hkept.steps, fun hfits => ⟨hiff.mpr hfits, fun hshort hdiff => ?_⟩⟩
  -- the root directory of the formatted volume is empty
  have hempty : HoldsNames config buf m₁ [] := by
    refine ⟨Nat.zero_le _, fun i hi => ?_, fun i name hget => absurd hget (by simp)⟩
    rw [rootEntry_eq hg]
    rw [rootEntries_eq hg] at hi
    exact iff_of_false (fun hne => hne (himage.unused i (Nat.zero_le _) hi)) (Nat.not_lt_zero i)
  have hnames := hempty.run hg himage.ledger hrun hrets hmeets hshort hfits
  rw [List.nil_append] at hnames
  have hfield : ∀ i c, calls[i]? = some c →
      m.read (config.rootEntry buf i) 11 = shortField c.name := fun i c hget =>
    hnames.field i c.name (by rw [List.getElem?_map, hget]; rfl)
  refine ⟨hnames, ?_, fun i c hget => ?_⟩
  · have hmap : ((List.range calls.length).map fun i => m.read (config.rootEntry buf i) 11) =
        calls.map fun c => shortField c.name := by
      refine List.ext_getElem (by simp) fun i h₁ h₂ => ?_
      rw [List.length_map] at h₂
      simp only [List.getElem_map, List.getElem_range]
      exact hfield i _ (List.getElem?_eq_getElem h₂)
    rw [hmap]
    unfold List.Nodup at hdiff ⊢
    rw [List.pairwise_map] at hdiff ⊢
    refine hdiff.imp_of_mem fun ha hb hne heq => hne ?_
    exact shortField_inj (hshort _ ha) (hshort _ hb) heq
  · rw [hfield i c hget]
    exact readField_shortField (hshort c (List.mem_of_getElem? hget))

/-- The name of the example is a short one. -/
private theorem smallCall_short : ShortName smallCall.raw.name :=
  ⟨by decide, by decide, .inl (by decide)⟩

/-- The first file on the smallest volume starts on a cluster that can be addressed. -/
theorem smallVolume_starts {m : Mem} {c : RawCall} (hnext : smallVolume.nextFree 0 m = 3) :
    smallVolume.StartsAddressable 0 m c := by
  show _ + (smallVolume.nextFree 0 m - 2) * _ < _
  rw [hnext]
  decide

theorem copyin_names_iff_small :
    ∃ m₁ m, createFAT32 .little (fun _ => 0xFF) 0 smallVolume = .ok (0, m₁) ∧
      Run.run (rawStep .little 0) m₁ [smallCall.raw] = .ok ([11], m) ∧
      NamesKept .little smallVolume 0 m₁ [smallCall.raw] m := by
  obtain ⟨m₁, m, hcreate, hrun⟩ := smallVolume_run
  have hraw := (run_raw .little 0 m₁ [smallCall]).trans hrun
  have himage := createFAT32_image hcreate smallVolume_accepted smallVolume_addressable
  have hnext : smallVolume.nextFree 0 m₁ = 3 := himage.nextFree
  have hmeets : Run.Meets (rawStep .little 0) (smallVolume.StartsAddressable 0) m₁
      [smallCall.raw] := ⟨smallVolume_starts hnext, fun _ _ _ => trivial⟩
  refine ⟨m₁, m, hcreate, hraw, (copyin_names_iff .little (fun _ => 0xFF) m₁ m 0 smallVolume
    hcreate smallVolume_addressable [smallCall.raw] [11] hraw (by decide) hmeets).mpr ?_⟩
  intro c hc
  obtain rfl := List.mem_singleton.mp hc
  exact ⟨fun _ => by decide, fun hnot => absurd smallCall_short hnot⟩

/-- `"A.TXT"`. -/
def dottedCall : RawCall where
  fd := Fd.ofBytes [7]
  name := { chars := [0x41, 0x2e, 0x54, 0x58, 0x54], nul_free := by decide }
  attr := 0

/-- So is this one. -/
private theorem dottedCall_short : ShortName dottedCall.name :=
  ⟨by decide, by decide, .inr ⟨[0x54, 0x58, 0x54], by decide, by decide, by decide, by decide⟩⟩

/-- On the smallest volume `A.TXT` gets the name field of `A` with the extension `.TX`,
    so no entry with its field is added. -/
theorem smallVolume_dotted :
    ∃ m₁ m, createFAT32 .little (fun _ => 0xFF) 0 smallVolume = .ok (0, m₁) ∧
      Run.run (rawStep .little 0) m₁ [dottedCall] = .ok ([11], m) ∧ ShortName dottedCall.name ∧
      ¬ ∃ i, EntryAdded smallVolume 0 m₁ m i (shortField dottedCall.name) := by
  have hcreate := createFAT32_eq .little (fun _ => 0xFF) 0 smallVolume_accepted
    smallVolume_addressable
  have himage := createFAT32_image hcreate smallVolume_accepted smallVolume_addressable
  have hg := smallVolume.geometry_laid smallVolume_accepted smallVolume_addressable
  have hgsize : (smallVolume.geometry smallVolume_accepted smallVolume_addressable).size < 2 ^ 32 :=
    by decide
  have hm := himage.ledger
  have hslot := himage.rootHasRoom_iff.mpr (by decide)
  -- the call is served
  obtain ⟨m, hcall, -⟩ := hm.copyin_places .little dottedCall.name dottedCall.attr
    (show dottedCall.fd.fstat = .ok 1 from rfl) (startsBelow_of_size hgsize hm.three_le _) (by decide)
    hslot rfl rfl (by decide)
  have hstep : rawStep .little 0 _ dottedCall = .ok (11, m) := rawStep_ok.mpr ⟨_, hcall, rfl, rfl⟩
  refine ⟨_, m, hcreate, Run.run_cons.mpr ⟨11, m, [], hstep, rfl, rfl⟩, dottedCall_short, ?_⟩
  -- its name would have to be read from the entry, where the dot is
  rintro ⟨i, hadd⟩
  obtain ⟨stSize, n, -, hserved⟩ := hm.served
    (fun _ _ => startsBelow_of_size hgsize hm.three_le _) hstep (by decide)
  obtain rfl := hserved.added_index hg (by decide) (by decide) hadd
  have hread := hserved.read_entry hg
  rw [hadd.field] at hread
  exact storeDirEntry_dot _ _ _ _ _ _ dottedCall_short (by decide) hread.symm

end Tlibc.Fat
