import Namebridge.Proofs.Bridge
import Namebridge.Proofs.ClassIndex
import Namebridge.Proofs.Declaration
import Namebridge.Proofs.Descriptor
import Namebridge.Proofs.TinyGrammar
import Namebridge.Proofs.TsrgGrammar

/-!
# Members across the whole bridge

Two files that declare members for the same obfuscated names are read, bridged and made into an
index. A member is found under its MCP name exactly if a record and a row meet at one obfuscated
member, and it gets the yarn name of that row.
-/

namespace Namebridge

/-! ## Declarations that can be taken apart -/

/-- A member whose keys in the tables can be taken apart again. -/
def Declaration.Plain : Declaration → Prop
  | .classNamed _ => True
  | .field owner _ _ => ':' ∉ owner.source.toList ∧ ':' ∉ owner.target.toList
  | .method owner source descriptor target =>
      ':' ∉ owner.source.toList ∧ ':' ∉ owner.target.toList ∧ '(' ∉ source.toList ∧
        '(' ∉ target.toList ∧ MemberKey.Opens descriptor

instance : DecidablePred Declaration.Plain
  | .classNamed _ => inferInstanceAs (Decidable True)
  | .field _ _ _ => inferInstanceAs (Decidable (_ ∧ _))
  | .method _ _ _ _ => inferInstanceAs (Decidable (_ ∧ _))

/-- Declarations of members that can be told apart by their keys. -/
structure Declaration.Apart (ds : List Declaration) : Prop where
  plain : ∀ d ∈ ds, d.Plain
  fields : ((ofKind .fields ds).map key).Nodup
  methods : ((ofKind .methods ds).map key).Nodup

/-- A row whose declaration can be taken apart again, whichever rows are before it. -/
def Tiny.Row.Plain : Tiny.Row → Prop
  | .classNamed _ target => ':' ∉ target.toList
  | .field owner _ _ => ':' ∉ owner.toList
  | .method owner descriptor source target =>
      ':' ∉ owner.toList ∧ '(' ∉ source.toList ∧ '(' ∉ target.toList ∧ MemberKey.Opens descriptor
  | .other => True

instance : DecidablePred Tiny.Row.Plain
  | .classNamed _ _ => inferInstanceAs (Decidable (_ ∉ _))
  | .field _ _ _ => inferInstanceAs (Decidable (_ ∉ _))
  | .method _ _ _ _ => inferInstanceAs (Decidable (_ ∧ _))
  | .other => inferInstanceAs (Decidable True)

/-- The counterpart of an owner is one that a class row gives, or the owner itself. -/
theorem Tiny.plain_declarations {rows : List Tiny.Row} (h : ∀ row ∈ rows, row.Plain) :
    ∀ d ∈ Tiny.declarations rows, d.Plain := by
  intro d hd
  obtain ⟨before, row, after, rfl, hrow⟩ := (mem_declarations_iff rows d).mp hd
  have htargets : ∀ source target, .classNamed source target ∈ before → ':' ∉ target.toList :=
    fun source target hmem => h (.classNamed source target) (by simp [hmem])
  have hplain := h row (by simp)
  cases row with
  | classNamed source target =>
      cases hrow
      trivial
  | field owner source target =>
      cases hrow
      exact ⟨hplain, not_mem_rename_classTable htargets hplain⟩
  | method owner descriptor source target =>
      cases hrow
      obtain ⟨howner, hsource, htarget, hopens⟩ := hplain
      exact ⟨howner, not_mem_rename_classTable htargets howner, hsource, htarget, hopens⟩
  | other => cases hrow

/-- Rows whose members can be told apart by their keys. -/
structure Tiny.Apart (rows : List Tiny.Row) : Prop where
  plain : ∀ row ∈ rows, row.Plain
  fields : (rows.filterMap (Row.key? .fields)).Nodup
  methods : (rows.filterMap (Row.key? .methods)).Nodup

theorem Tiny.Apart.declarations {rows : List Tiny.Row} (h : Tiny.Apart rows) :
    Declaration.Apart (Tiny.declarations rows) :=
  ⟨plain_declarations h.plain, map_key_declarations .fields rows ▸ h.fields,
    map_key_declarations .methods rows ▸ h.methods⟩

namespace Mappings

open Declaration MemberKey

variable {ds es : List Declaration} {m mcp yarn : Mappings} {index : ClassIndex}

/-! ## Entries of the tables -/

/-- A declared field stands in the table, if no field is declared twice. -/
theorem get?_field (h : ofDeclarations ds = .ok m) (hkeys : ((ofKind .fields ds).map key).Nodup)
    {owner : ClassPair} {name target : String}
    (hd : Declaration.field owner name target ∈ ds) :
    m.fields.get? (field owner.source name) = some (field owner.target target) :=
  (get?_table_iff h .fields hkeys _ _).mpr ⟨_, hd, rfl, rfl, rfl⟩

/-- A declared method stands in the table, if no method is declared twice. -/
theorem exists_get?_method (h : ofDeclarations ds = .ok m)
    (hkeys : ((ofKind .methods ds).map key).Nodup) {owner : ClassPair}
    {name descriptor target : String} (hd : Declaration.method owner name descriptor target ∈ ds) :
    ∃ renamed, Descriptor.rename m.classes.rename descriptor = .ok renamed ∧
      m.methods.get? (method owner.source name descriptor)
        = some (method owner.target target renamed) := by
  obtain ⟨entries, hentries, -⟩ := exists_entries h .methods
  obtain ⟨entry, -, hmakes⟩ :=
    Traversal.exists_of_mem_left hentries ((mem_ofKind .methods ds _).mpr ⟨hd, rfl⟩)
  obtain ⟨renamed, hrenamed, hvalue⟩ := (Traversal.map_eq_ok_iff _ _ _).mp hmakes.2
  refine ⟨renamed, hrenamed, (get?_table_iff h .methods hkeys _ _).mpr ⟨_, hd, rfl, rfl, ?_⟩⟩
  rw [hmakes.2, hvalue]

/-! ## The index of a bridge -/

/-- What a table of a bridge leads to, both files have. -/
theorem exists_get?_of_bridge {k v : String} {s t : NameTable}
    (h : (s.inverse.chain t .drop).get? k = some v) :
    ∃ o, s.get? o = some k ∧ t.get? o = some v := by
  obtain ⟨o, hlast, ho⟩ := (NameTable.get?_bridge_eq_some_iff s t k v).mp h
  exact ⟨o, hlast.get?, ho⟩

/-- The bridge of two files of plain declarations has an index. -/
theorem exists_index_bridgeTo (hmcp : ofDeclarations ds = .ok mcp)
    (hyarn : ofDeclarations es = .ok yarn) (hds : ∀ d ∈ ds, d.Plain) (hes : ∀ e ∈ es, e.Plain) :
    ∃ index, ClassIndex.ofMappings (mcp.bridgeTo yarn .mcpToYarn) = .ok index := by
  refine ClassIndex.exists_ofMappings ?fields ?methods
  case fields =>
    rintro ⟨k, v⟩ hmem
    obtain ⟨o, hm, hy⟩ := exists_get?_of_bridge ((OrderedMap.mem_entries_iff _ _ _).mp hmem)
    obtain ⟨owner, name, target, hd, -, rfl⟩ := exists_field hmcp hm
    obtain ⟨owner', name', target', he, -, rfl⟩ := exists_field hyarn hy
    exact ⟨_, (ClassIndex.fieldCell_eq_ok_iff _ _ _ _ _).mpr
      ⟨rfl, (hds _ hd).2, _, split_field (hes _ he).2 target'⟩⟩
  case methods =>
    rintro ⟨k, v⟩ hmem
    obtain ⟨o, hm, hy⟩ := exists_get?_of_bridge ((OrderedMap.mem_entries_iff _ _ _).mp hmem)
    obtain ⟨owner, name, descriptor, target, renamed, hd, hrenamed, -, rfl⟩ :=
      exists_method hmcp hm
    obtain ⟨owner', name', descriptor', target', renamed', he, -, -, rfl⟩ :=
      exists_method hyarn hy
    obtain ⟨-, hcls, -, htarget, hopens⟩ := hds _ hd
    -- renaming classes leaves the parenthesis at which the descriptor is found again
    have hrenamedOpens : Opens renamed := Descriptor.head?_rename hopens hrenamed
    exact ⟨_, (ClassIndex.methodCell_eq_ok_iff _ _ _ _ _ _).mpr
      ⟨rfl, hcls, htarget, hrenamedOpens, _, _, split_method (hes _ he).2.1 target' renamed', rfl⟩⟩

/-- A field is found in the index of a bridge exactly if both files declare it. -/
theorem field?_bridgeTo_iff (hmcp : ofDeclarations ds = .ok mcp)
    (hyarn : ofDeclarations es = .ok yarn) (hds : Apart ds) (hes : Apart es)
    (hvalues : ((ofKind .fields ds).map (value mcp.classes)).Nodup)
    (hindex : ClassIndex.ofMappings (mcp.bridgeTo yarn .mcpToYarn) = .ok index)
    (cls name newName : String) :
    index.field? cls name = some newName ↔ ∃ o n owner, .field ⟨o, cls⟩ n name ∈ ds ∧
      Declaration.field owner n newName ∈ es ∧ owner.source = o := by
  rw [ClassIndex.field?_eq_some_iff hindex]
  constructor
  · intro h
    obtain ⟨hcls, value, _, hget, hvalue⟩ := h
    obtain ⟨o, hm, hy⟩ := exists_get?_of_bridge hget
    obtain ⟨owner, n, target, hd, rfl, hkey⟩ := exists_field hmcp hm
    obtain ⟨owner', n', target', he, hkey', rfl⟩ := exists_field hyarn hy
    -- the MCP key is the one that was asked for, and both files have one obfuscated key
    obtain ⟨rfl, rfl⟩ := field_inj hcls (hds.plain _ hd).2 hkey
    obtain ⟨howner, rfl⟩ := field_inj (hds.plain _ hd).1 (hes.plain _ he).1 hkey'
    rw [split_field (hes.plain _ he).2] at hvalue
    cases hvalue
    exact ⟨owner.source, n, owner', hd, he, howner.symm⟩
  · intro h
    obtain ⟨o, n, owner, hd, he, rfl⟩ := h
    have hm := get?_field hmcp hds.fields hd
    have hy := get?_field hyarn hes.fields he
    have hbridge := NameTable.get?_bridge_of_get?
      (nodup_values_table hmcp .fields hds.fields hvalues) yarn.fields hm
    exact ⟨(hds.plain _ hd).2, _, _, hbridge.trans hy, split_field (hes.plain _ he).2 newName⟩

/-- A method is found in the index of a bridge exactly if both files declare it. -/
theorem method?_bridgeTo_iff (hmcp : ofDeclarations ds = .ok mcp)
    (hyarn : ofDeclarations es = .ok yarn) (hds : Apart ds) (hes : Apart es)
    (hvalues : ((ofKind .methods ds).map (value mcp.classes)).Nodup)
    (hindex : ClassIndex.ofMappings (mcp.bridgeTo yarn .mcpToYarn) = .ok index)
    (cls name descriptor newName : String) :
    index.method? cls name descriptor = some newName ↔ ∃ o n d owner,
      .method ⟨o, cls⟩ n d name ∈ ds ∧ Declaration.method owner n d newName ∈ es ∧
      owner.source = o ∧ Descriptor.rename mcp.classes.rename d = .ok descriptor := by
  rw [ClassIndex.method?_eq_some_iff hindex]
  constructor
  · intro h
    obtain ⟨hcls, hname, hopens, value, _, _, hget, hvalue, hnewName⟩ := h
    obtain ⟨o, hm, hy⟩ := exists_get?_of_bridge hget
    obtain ⟨owner, n, d, target, renamed, hd, hrenamed, rfl, hkey⟩ := exists_method hmcp hm
    obtain ⟨owner', n', d', target', renamed', he, hrenamed', hkey', rfl⟩ :=
      exists_method hyarn hy
    obtain ⟨hsource, htarget, hn, hmcpName, hmcpOpens⟩ := hds.plain _ hd
    obtain ⟨hsource', htarget', hn', hyarnName, hyarnOpens⟩ := hes.plain _ he
    have hrenamedOpens : Opens renamed := Descriptor.head?_rename hmcpOpens hrenamed
    have hrenamedOpens' : Opens renamed' := Descriptor.head?_rename hyarnOpens hrenamed'
    -- the MCP key is the one that was asked for
    obtain ⟨rfl, rfl, rfl⟩ := method_inj hcls htarget hname hmcpName hopens.opensOrEmpty
      hrenamedOpens.opensOrEmpty hkey
    -- both files have the method under one obfuscated key
    obtain ⟨howner, rfl, rfl⟩ := method_inj hsource hsource' hn hn' hmcpOpens.opensOrEmpty
      hyarnOpens.opensOrEmpty hkey'
    rw [split_method htarget'] at hvalue
    cases hvalue
    rw [namePart_append hyarnName hrenamedOpens'.opensOrEmpty] at hnewName
    subst hnewName
    exact ⟨owner.source, n, d, owner', hd, he, howner.symm, hrenamed⟩
  · intro h
    obtain ⟨o, n, d, owner, hd, he, rfl, hdescriptor⟩ := h
    obtain ⟨renamed, hrenamed, hm⟩ := exists_get?_method hmcp hds.methods hd
    obtain ⟨renamed', hrenamed', hy⟩ := exists_get?_method hyarn hes.methods he
    rw [hdescriptor] at hrenamed
    cases hrenamed
    have hbridge := NameTable.get?_bridge_of_get?
      (nodup_values_table hmcp .methods hds.methods hvalues) yarn.methods hm
    obtain ⟨-, hcls, -, hname, hmcpOpens⟩ := hds.plain _ hd
    obtain ⟨-, htarget', -, hyarnName, hyarnOpens⟩ := hes.plain _ he
    have hrenamedOpens' : Opens renamed' := Descriptor.head?_rename hyarnOpens hrenamed'
    refine ⟨hcls, hname, Descriptor.head?_rename hmcpOpens hdescriptor, _, _, _,
      hbridge.trans hy, split_method htarget' newName renamed', ?_⟩
    exact namePart_append hyarnName hrenamedOpens'.opensOrEmpty

end Mappings

/-! ## Two files -/

/-- A renamer answers for the members that records and rows of two files name together, in the MCP
names of the records and with the yarn names of the rows, and for no others. -/
structure PortsMembers (names : Tsrg.MemberNames) (classes : NameTable)
    (records : List Declaration) (rows : List Tiny.Row) (renamer : Renamer) : Prop where
  field_of_record : ∀ o cls n r newName, .field ⟨o, cls⟩ n r ∈ records →
    .field o n newName ∈ rows → renamer.field? cls (names.fields.rename r) = some newName
  /-- A method is looked for under its descriptor with the MCP names of the classes. -/
  method_of_record : ∀ o cls n d r newName, .method ⟨o, cls⟩ n d r ∈ records →
    .method o d n newName ∈ rows → ∃ descriptor,
      Descriptor.rename classes.rename d = .ok descriptor ∧
      renamer.method? cls (names.methods.rename r) descriptor = some newName
  record_of_field : ∀ cls name newName, renamer.field? cls name = some newName →
    ∃ o n r, .field ⟨o, cls⟩ n r ∈ records ∧ .field o n newName ∈ rows ∧
      names.fields.rename r = name
  record_of_method : ∀ cls name descriptor newName,
    renamer.method? cls name descriptor = some newName →
    ∃ o n d r, .method ⟨o, cls⟩ n d r ∈ records ∧ .method o d n newName ∈ rows ∧
      names.methods.rename r = name ∧ Descriptor.rename classes.rename d = .ok descriptor

/-- **Members across the bridge**: where a file of MCP names and a file of yarn names are read, name
members that can be told apart, and no two fields or methods get one MCP name, their bridge has an
index that ports exactly the members that both files name. -/
theorem Mappings.bridgeTo_portsMembers {names : Tsrg.MemberNames} {source target : String}
    {mcpFile yarnFile : Bytes} {mcp yarn : Mappings} {records : List Declaration}
    {rows : List Tiny.Row} (hmcp : Tsrg.read names mcpFile = .ok mcp)
    (hyarn : Tiny.read source target yarnFile = .ok yarn)
    (hrecords : Tsrg.Spells none (Line.ofBytes mcpFile) records)
    (hrows : Tiny.Spells source target (Line.ofBytes yarnFile) rows)
    (hds : Declaration.Apart (records.map names.readable)) (hapart : Tiny.Apart rows)
    (hfields : ((Declaration.ofKind .fields (records.map names.readable)).map
      (Declaration.value mcp.classes)).Nodup)
    (hmethods : ((Declaration.ofKind .methods (records.map names.readable)).map
      (Declaration.value mcp.classes)).Nodup) :
    ∃ index, ClassIndex.ofMappings (mcp.bridgeTo yarn .mcpToYarn) = .ok index ∧
      PortsMembers names mcp.classes records rows ⟨index, .flat⟩ := by
  have hreadDs := Tsrg.ofDeclarations_of_read hmcp hrecords
  have hreadEs := Tiny.ofDeclarations_of_read hyarn hrows
  have hes := hapart.declarations
  obtain ⟨index, hindex⟩ := exists_index_bridgeTo hreadDs hreadEs hds.plain hes.plain
  have hfield := field?_bridgeTo_iff hreadDs hreadEs hds hes hfields hindex
  have hmethod := method?_bridgeTo_iff hreadDs hreadEs hds hes hmethods hindex
  refine ⟨index, hindex, ?field_of_record, ?method_of_record, ?record_of_field, ?record_of_method⟩
  case field_of_record =>
    intro o cls n r newName hrecord hrow
    obtain ⟨owner, he, howner⟩ := (Tiny.field_mem_declarations_iff rows o n newName).mpr hrow
    rw [Renamer.field?_flat, hfield]
    exact ⟨o, n, owner, (Tsrg.field_mem_readable_iff _ _ _).mpr ⟨r, hrecord, rfl⟩, he, howner⟩
  case method_of_record =>
    intro o cls n d r newName hrecord hrow
    obtain ⟨owner, he, howner⟩ := (Tiny.method_mem_declarations_iff rows o d n newName).mpr hrow
    have hd : .method ⟨o, cls⟩ n d (names.methods.rename r) ∈ records.map names.readable :=
      (Tsrg.method_mem_readable_iff _ _ _ _).mpr ⟨r, hrecord, rfl⟩
    obtain ⟨descriptor, hdescriptor, -⟩ := exists_get?_method hreadDs hds.methods hd
    refine ⟨descriptor, hdescriptor, ?_⟩
    rw [Renamer.method?_flat, hmethod]
    exact ⟨o, n, d, owner, hd, he, howner, hdescriptor⟩
  case record_of_field =>
    intro cls name newName hfound
    rw [Renamer.field?_flat, hfield] at hfound
    obtain ⟨o, n, owner, hd, he, howner⟩ := hfound
    obtain ⟨r, hrecord, hname⟩ := (Tsrg.field_mem_readable_iff _ _ _).mp hd
    have hrow := (Tiny.field_mem_declarations_iff rows o n newName).mp ⟨owner, he, howner⟩
    exact ⟨o, n, r, hrecord, hrow, hname⟩
  case record_of_method =>
    intro cls name descriptor newName hfound
    rw [Renamer.method?_flat, hmethod] at hfound
    obtain ⟨o, n, d, owner, hd, he, howner, hdescriptor⟩ := hfound
    obtain ⟨r, hrecord, hname⟩ := (Tsrg.method_mem_readable_iff _ _ _ _).mp hd
    have hrow := (Tiny.method_mem_declarations_iff rows o d n newName).mp ⟨owner, he, howner⟩
    exact ⟨o, n, d, r, hrecord, hrow, hname, hdescriptor⟩

namespace Mappings

/-- Two classes, one of which mentions the other before it is declared. -/
def counterMcpFile : Bytes :=
  Utf8.encode "a net/A\n\tf field_1\n\tm (Lc;I)La; func_1\nc net/C\n\tm (I)V func_2\n"

/-- Readable names of one field and of one of the methods. -/
def counterNames : Tsrg.MemberNames :=
  ⟨.ofPairs [("field_1", "count")], .ofPairs [("func_1", "getCount")]⟩

/-- The same two classes, with one method only. -/
def counterYarnFile : Bytes :=
  Utf8.encode ("v1\tofficial\tintermediary\tnamed\nCLASS\ta\tclass_1\ty/Alpha\n"
    ++ "FIELD\ta\tI\tf\tfield_9\tamount\nMETHOD\ta\t(Lc;I)La;\tm\tmethod_1\tfetch\n")

/-- What the MCP file spells. -/
def counterRecords : List Declaration :=
  [.classNamed ⟨"a", "net/A"⟩, .field ⟨"a", "net/A"⟩ "f" "field_1",
    .method ⟨"a", "net/A"⟩ "m" "(Lc;I)La;" "func_1", .classNamed ⟨"c", "net/C"⟩,
    .method ⟨"c", "net/C"⟩ "m" "(I)V" "func_2"]

/-- What the yarn file spells. -/
def counterRows : List Tiny.Row :=
  [.classNamed "a" "y/Alpha", .field "a" "f" "amount", .method "a" "(Lc;I)La;" "m" "fetch"]

theorem bridgeTo_portsMembers_counter :
    ∃ mcp yarn index, Tsrg.read counterNames counterMcpFile = .ok mcp ∧
      Tiny.read "official" "named" counterYarnFile = .ok yarn ∧
      Tsrg.Spells none (Line.ofBytes counterMcpFile) counterRecords ∧
      Tiny.Spells "official" "named" (Line.ofBytes counterYarnFile) counterRows ∧
      ClassIndex.ofMappings (mcp.bridgeTo yarn .mcpToYarn) = .ok index ∧
      PortsMembers counterNames mcp.classes counterRecords counterRows ⟨index, .flat⟩ ∧
      (Renamer.mk index .flat).method? "net/A" "getCount" "(Lnet/C;I)Lnet/A;" = some "fetch" ∧
      (Renamer.mk index .flat).field? "net/A" "count" = some "amount" := by
  let mcp : Mappings :=
    { classes := .ofPairs [("a", "net/A"), ("c", "net/C")]
      fields := .ofPairs [("a:f", "net/A:count")]
      methods := .ofPairs [("a:m(Lc;I)La;", "net/A:getCount(Lnet/C;I)Lnet/A;"),
        ("c:m(I)V", "net/C:func_2(I)V")] }
  let yarn : Mappings :=
    { classes := .ofPairs [("a", "y/Alpha")], fields := .ofPairs [("a:f", "y/Alpha:amount")],
      methods := .ofPairs [("a:m(Lc;I)La;", "y/Alpha:fetch(Lc;I)Ly/Alpha;")] }
  have hmcp : Tsrg.read counterNames counterMcpFile = .ok mcp := by decide
  have hyarn : Tiny.read "official" "named" counterYarnFile = .ok yarn := by decide
  have hrecords : Tsrg.Spells none (Line.ofBytes counterMcpFile) counterRecords :=
    (Tsrg.spells_iff _ _).mpr (by decide)
  have hrows : Tiny.Spells "official" "named" (Line.ofBytes counterYarnFile) counterRows :=
    (Tiny.spells_iff _ _ _ _).mpr (by decide)
  obtain ⟨index, hindex, hports⟩ := bridgeTo_portsMembers hmcp hyarn hrecords hrows
    ⟨by decide, by decide, by decide⟩ ⟨by decide, by decide, by decide⟩ (by decide) (by decide)
  refine ⟨mcp, yarn, index, hmcp, hyarn, hrecords, hrows, hindex, hports, ?method, ?field⟩
  case method =>
    obtain ⟨descriptor, hdescriptor, hfound⟩ := hports.method_of_record "a" "net/A" "m"
      "(Lc;I)La;" "func_1" "fetch" (by decide) (by decide)
    have hrenamed : Descriptor.rename mcp.classes.rename "(Lc;I)La;"
        = .ok "(Lnet/C;I)Lnet/A;" := by decide
    rw [hrenamed] at hdescriptor
    cases hdescriptor
    exact hfound
  case field =>
    exact hports.field_of_record "a" "net/A" "f" "field_1" "amount" (by decide) (by decide)

end Mappings

end Namebridge
