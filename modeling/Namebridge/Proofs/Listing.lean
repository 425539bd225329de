import Mathlib.Data.List.Infix
import Namebridge.Mappings.Listing
import Namebridge.Proofs.Cut
import Namebridge.Proofs.Line
import Namebridge.Proofs.OrderedMap

/-!
# What a listing says

The lines of a table have one order only in which the bytes of the keys increase, so that it does
not matter how, and from which order, the entries were sorted (`isListing_iff`). Nothing is escaped
in a line. Still it is cut again where it was joined, at its first arrow, unless the key has an
arrow itself (`Text.cutArrow?_eq_some_iff`). So listings tell plain tables apart
(`listing_isCanonical`).
-/

namespace Namebridge

/-! ## The order of bytes -/

namespace Utf8

theorem encode_injective : Function.Injective encode := by
  intro a b hab
  have hdecode : decode? (encode a) = decode? (encode b) := congrArg decode? hab
  rwa [decode_encode, decode_encode, Option.some.injEq] at hdecode

theorem le_iff (a b : String) : le a b = true ↔ encode a ≤ encode b := by
  rw [le, Bool.not_eq_true', List.lex_eq_false_iff_ge]

theorem lt_of_le_of_ne {a b : String} (hle : le a b = true) (hne : a ≠ b) :
    encode a < encode b := by
  refine Classical.byContradiction fun hnot => hne ?_
  exact encode_injective (List.le_antisymm ((le_iff a b).mp hle) (List.not_lt.mp hnot))

end Utf8

/-! ## The first arrow -/

namespace Text

/-- What stands between a key and its value in a line of a listing. -/
def arrow : List Char := ['-', '>']

/-- The characters before and after the first arrow. -/
def cutArrow : List Char → Option (List Char × List Char)
  | [] => none
  | '-' :: '>' :: rest => some ([], rest)
  | c :: rest => (cutArrow rest).map fun cut => (c :: cut.1, cut.2)

/-- The texts before and after the first arrow. -/
def cutArrow? (s : String) : Option (String × String) :=
  (cutArrow s.toList).map fun cut => (String.ofList cut.1, String.ofList cut.2)

variable {a b cs : List Char}

theorem not_arrow_infix_nil : ¬ arrow <:+: [] := by decide

theorem eq_of_cutArrow (h : cutArrow cs = some (a, b)) :
    cs = a ++ arrow ++ b ∧ ¬ arrow <:+: a := by
  induction cs using cutArrow.induct generalizing a with
  | case1 => cases h
  | case2 rest =>
      cases h
      exact ⟨rfl, not_arrow_infix_nil⟩
  | case3 c rest hno ih =>
      rw [cutArrow, Option.map_eq_some_iff] at h
      · obtain ⟨⟨a', b'⟩, hcut, hpair⟩ := h
        cases hpair
        obtain ⟨rfl, hnot⟩ := ih hcut
        refine ⟨rfl, ?_⟩
        rw [List.infix_cons_iff]
        rintro (hstart | hinner)
        · -- an arrow at the start would have been the first one
          obtain ⟨tail, htail⟩ := hstart
          obtain ⟨rfl, rfl⟩ := List.cons_eq_cons.mp htail
          exact hno _ rfl rfl
        · exact hnot hinner
      · exact hno

theorem cutArrow_append (h : ¬ arrow <:+: a) : cutArrow (a ++ arrow ++ b) = some (a, b) := by
  induction a with
  | nil => rfl
  | cons c rest ih =>
      rw [List.infix_cons_iff, not_or] at h
      obtain ⟨hstart, hinner⟩ := h
      rw [List.cons_append, List.cons_append, cutArrow, ih hinner, Option.map_some]
      -- the arrow that follows does not make one with the last character of the key
      rintro tail rfl hrest
      cases rest with
      | nil => cases hrest
      | cons c' rest' =>
          obtain ⟨rfl, -⟩ := List.cons_eq_cons.mp hrest
          exact hstart ⟨rest', rfl⟩

/-- A text is cut where it has an arrow with none before it. -/
theorem cutArrow?_eq_some_iff (s key value : String) :
    cutArrow? s = some (key, value) ↔ s = key ++ "->" ++ value ∧ ¬ arrow <:+: key.toList := by
  have harrow : "->".toList = arrow := rfl
  rw [cutArrow?, Option.map_eq_some_iff]
  constructor
  · rintro ⟨⟨a, b⟩, hcut, hpair⟩
    cases hpair
    obtain ⟨hs, hnot⟩ := eq_of_cutArrow hcut
    rw [String.toList_ofList]
    refine ⟨String.ext ?_, hnot⟩
    rw [String.toList_append, String.toList_append, harrow, String.toList_ofList,
      String.toList_ofList, hs]
  · rintro ⟨rfl, hnot⟩
    refine ⟨(key.toList, value.toList), ?_, ?_⟩
    · rw [String.toList_append, String.toList_append, harrow, cutArrow_append hnot]
    · rw [String.ofList_toList, String.ofList_toList]

/-- Lines without line feeds of their own are the fields of their text, with nothing behind. -/
theorem fields_unlines {texts : List String} (h : ∀ text ∈ texts, '\n' ∉ text.toList) :
    fields '\n' (Line.unlines texts) = texts ++ [""] := by
  induction texts with
  | nil => rfl
  | cons text rest ih =>
      have hcons : Line.unlines (text :: rest)
          = text ++ String.singleton '\n' ++ Line.unlines rest := by
        rw [Line.unlines, List.map_cons, String.join_cons]
        rfl
      rw [hcons, fields_append, fields_of_not_mem (h text (by simp)),
        ih fun text htext => h text (by simp [htext])]
      rfl

end Text

/-! ## Sorting -/

namespace NameTable

variable {s t : NameTable} {text : String}

/-- The keys of all entries come in strictly increasing order of their bytes. -/
def Increasing (entries : List (String × String)) : Prop :=
  entries.Pairwise fun a b => Utf8.encode a.1 < Utf8.encode b.1

/-- A text consists of the lines of all entries of a table, each once, with the keys in strictly
increasing order of their bytes. -/
def IsListing (t : NameTable) (text : String) : Prop :=
  ∃ entries, entries.Perm t.entries ∧ Increasing entries ∧
    text = String.join (entries.map fun entry => entry.1 ++ "->" ++ entry.2 ++ "\n")

theorem perm_sortedEntries (t : NameTable) : t.sortedEntries.Perm t.entries :=
  List.mergeSort_perm t.entries _

theorem nodup_keys_sortedEntries (t : NameTable) : (t.sortedEntries.map Prod.fst).Nodup :=
  (t.perm_sortedEntries.map Prod.fst).nodup_iff.mpr t.nodup

theorem increasing_sortedEntries (t : NameTable) : Increasing t.sortedEntries := by
  have hsorted : t.sortedEntries.Pairwise fun a b => Utf8.le a.1 b.1 = true := by
    refine List.pairwise_mergeSort ?trans ?total t.entries
    case trans =>
      intro a b c
      simp only [Utf8.le_iff]
      exact List.le_trans
    case total =>
      intro a b
      rw [Bool.or_eq_true, Utf8.le_iff, Utf8.le_iff]
      exact List.le_total _ _
  have hne : t.sortedEntries.Pairwise fun a b => a.1 ≠ b.1 :=
    List.pairwise_map.mp t.nodup_keys_sortedEntries
  exact (hsorted.and hne).imp fun h => Utf8.lt_of_le_of_ne h.1 h.2

/-- Entries have one increasing order only. -/
theorem Increasing.eq_of_perm {es fs : List (String × String)} (hes : Increasing es)
    (hfs : Increasing fs) (hperm : es.Perm fs) : es = fs := by
  refine List.Perm.eq_of_pairwise ?_ hes hfs hperm
  intro a b _ _ hab hba
  exact absurd hba (List.lt_asymm hab)

/-- The listing is the only text that has what listings have. -/
theorem isListing_iff (t : NameTable) (text : String) : t.IsListing text ↔ text = t.listing := by
  constructor
  · rintro ⟨entries, hperm, hincreasing, rfl⟩
    obtain rfl : entries = t.sortedEntries :=
      hincreasing.eq_of_perm t.increasing_sortedEntries (hperm.trans t.perm_sortedEntries.symm)
    rfl
  · rintro rfl
    exact ⟨t.sortedEntries, t.perm_sortedEntries, t.increasing_sortedEntries, rfl⟩

theorem sortedEntries_eq_iff (s t : NameTable) :
    s.sortedEntries = t.sortedEntries ↔ s.Agrees t := by
  rw [← OrderedMap.perm_entries_iff]
  constructor
  · intro h
    exact s.perm_sortedEntries.symm.trans (h ▸ t.perm_sortedEntries)
  · intro h
    exact s.increasing_sortedEntries.eq_of_perm t.increasing_sortedEntries
      ((s.perm_sortedEntries.trans h).trans t.perm_sortedEntries.symm)

theorem listing_eq_of_agrees (h : s.Agrees t) : s.listing = t.listing := by
  rw [listing, listing, (sortedEntries_eq_iff s t).mpr h]

/-! ## Reading a listing -/

/-- No line feed breaks the line of an entry, and no arrow comes before the one that is put between
the key and the value. -/
structure Plain (t : NameTable) : Prop where
  key_no_arrow : ∀ key ∈ t.keys, ¬ Text.arrow <:+: key.toList
  key_no_feed : ∀ key ∈ t.keys, '\n' ∉ key.toList
  value_no_feed : ∀ value ∈ t.values, '\n' ∉ value.toList

instance (t : NameTable) : Decidable t.Plain :=
  decidable_of_iff ((∀ key ∈ t.keys, ¬ Text.arrow <:+: key.toList) ∧
      (∀ key ∈ t.keys, '\n' ∉ key.toList) ∧ ∀ value ∈ t.values, '\n' ∉ value.toList)
    ⟨fun h => ⟨h.1, h.2.1, h.2.2⟩, fun h => ⟨h.key_no_arrow, h.key_no_feed, h.value_no_feed⟩⟩

/-- The table of the lines that have an arrow, each cut at its first one. -/
def ofListing (text : String) : NameTable :=
  .ofPairs ((Text.fields '\n' text).filterMap Text.cutArrow?)

/-- The line of an entry without its end. -/
def arrowLine (entry : String × String) : String := entry.1 ++ "->" ++ entry.2

theorem listing_eq_unlines (t : NameTable) :
    t.listing = Line.unlines (t.sortedEntries.map arrowLine) := by
  rw [listing, Line.unlines, List.map_map]
  rfl

theorem Plain.of_mem {entry : String × String} (h : t.Plain) (hentry : entry ∈ t.sortedEntries) :
    '\n' ∉ (arrowLine entry).toList ∧ Text.cutArrow? (arrowLine entry) = some entry := by
  have hmem : entry ∈ t.entries := t.perm_sortedEntries.mem_iff.mp hentry
  have hkey : entry.1 ∈ t.keys := List.mem_map_of_mem hmem
  have hvalue : entry.2 ∈ t.values := List.mem_map_of_mem hmem
  constructor
  · simp [arrowLine, h.key_no_feed _ hkey, h.value_no_feed _ hvalue]
  · exact (Text.cutArrow?_eq_some_iff _ _ _).mpr ⟨rfl, h.key_no_arrow _ hkey⟩

/-- A plain table is read back with its entries in the order of the listing. -/
theorem entries_ofListing (h : t.Plain) : (ofListing t.listing).entries = t.sortedEntries := by
  have hlines : ∀ line ∈ t.sortedEntries.map arrowLine, '\n' ∉ line.toList := by
    intro line hline
    obtain ⟨entry, hentry, rfl⟩ := List.mem_map.mp hline
    exact (h.of_mem hentry).1
  have hcut : ∀ entry ∈ t.sortedEntries, (Text.cutArrow? ∘ arrowLine) entry = some entry :=
    fun entry hentry => (h.of_mem hentry).2
  -- nothing is behind the last line feed, and nothing has no arrow
  have hlast : [""].filterMap Text.cutArrow? = [] := rfl
  have hread : (Text.fields '\n' t.listing).filterMap Text.cutArrow? = t.sortedEntries := by
    rw [listing_eq_unlines, Text.fields_unlines hlines, List.filterMap_append, hlast,
      List.append_nil, List.filterMap_map, List.filterMap_congr hcut, List.filterMap_some]
  rw [ofListing, hread, OrderedMap.entries_ofPairs t.nodup_keys_sortedEntries]

theorem agrees_ofListing (h : t.Plain) : (ofListing t.listing).Agrees t := by
  rw [← OrderedMap.perm_entries_iff, entries_ofListing h]
  exact t.perm_sortedEntries

/-- **Listings are canonical**: the listing of a table is the one text that consists of the lines of
its entries in the order of their keys. Tables that agree have the same listing, and plain tables
agree if they have the same, because they are read back from it. -/
theorem listing_isCanonical (s t : NameTable) :
    (∀ text, s.IsListing text ↔ text = s.listing) ∧
      (s.Agrees t → s.listing = t.listing) ∧
      (s.Plain → (ofListing s.listing).Agrees s) ∧
      (s.Plain → t.Plain → s.listing = t.listing → s.Agrees t) := by
  refine ⟨s.isListing_iff, listing_eq_of_agrees, agrees_ofListing, ?_⟩
  intro hs ht hsame
  rw [← sortedEntries_eq_iff, ← entries_ofListing hs, ← entries_ofListing ht, hsame]

/-- It cannot be told whether an arrow is one of the key. -/
example : listing (.ofPairs [("a->b", "c")]) = listing (.ofPairs [("a", "b->c")]) := by
  decide +kernel

/-- Keys and values next to whose arrow stand the characters of another one. -/
def arrowheads : NameTable :=
  .ofPairs [("é", "e"), ("a-", ">b"), ("", "->"), ("a", "->c"), (">", "")]

/-- The same entries in the opposite order. -/
def arrowheadsReversed : NameTable := .ofPairs arrowheads.entries.reverse

theorem listing_isCanonical_arrowheads :
    arrowheads.Plain ∧ arrowheadsReversed.Plain ∧
      arrowheads.listing = "->->\n>->\na->->c\na-->>b\né->e\n" ∧
      arrowheads.Agrees arrowheadsReversed ∧ (ofListing arrowheads.listing).Agrees arrowheads := by
  have hplain : arrowheads.Plain := by decide
  have hreversed : arrowheadsReversed.Plain := by decide
  have hincreasing : Increasing [("", "->"), (">", ""), ("a", "->c"), ("a-", ">b"), ("é", "e")] := by
    unfold Increasing
    decide +kernel
  have hlisting : arrowheads.listing = "->->\n>->\na->->c\na-->>b\né->e\n" :=
    ((isListing_iff _ _).mp ⟨_, by decide, hincreasing, by decide⟩).symm
  have hlisting' : arrowheadsReversed.listing = "->->\n>->\na->->c\na-->>b\né->e\n" :=
    ((isListing_iff _ _).mp ⟨_, by decide, hincreasing, by decide⟩).symm
  obtain ⟨-, -, hread, hagrees⟩ := listing_isCanonical arrowheads arrowheadsReversed
  exact ⟨hplain, hreversed, hlisting, hagrees hplain hreversed (hlisting.trans hlisting'.symm),
    hread hplain⟩

end NameTable

end Namebridge
