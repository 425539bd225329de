import Namebridge.Proofs.Bridge
import Namebridge.Proofs.TinyGrammar
import Namebridge.Proofs.TsrgGrammar

/-!
# Members move with their classes

A table of members has a counterpart for the owner of each member. The readers take it from
different places: a TSRG line from the line of the class above it, a tiny row from the class rows
before it. In both cases it is what the table of classes says in the end, if no TSRG class is given
two targets, and if in the tiny file classes come before their members. A bridge then moves a member
to the class that it moves the owner to: `read_membersFollow`.
-/

namespace Namebridge

open MemberKey

/-! ## Names that keys keep apart -/

/-- The classes that are named have no colon, and the methods no parenthesis. -/
def Declaration.Unpunctuated : Declaration → Prop
  | .classNamed pair => ':' ∉ pair.source.toList ∧ ':' ∉ pair.target.toList
  | .field owner _ _ => ':' ∉ owner.source.toList ∧ ':' ∉ owner.target.toList
  | .method owner source _ target =>
      ':' ∉ owner.source.toList ∧ ':' ∉ owner.target.toList ∧ '(' ∉ source.toList ∧
        '(' ∉ target.toList

instance : DecidablePred Declaration.Unpunctuated
  | .classNamed _ => inferInstanceAs (Decidable (_ ∧ _))
  | .field _ _ _ => inferInstanceAs (Decidable (_ ∧ _))
  | .method _ _ _ _ => inferInstanceAs (Decidable (_ ∧ _))

/-- The classes that a row names have no colon, and its method no parenthesis. -/
def Tiny.Row.Unpunctuated : Tiny.Row → Prop
  | .classNamed source target => ':' ∉ source.toList ∧ ':' ∉ target.toList
  | .field owner _ _ => ':' ∉ owner.toList
  | .method owner _ source target =>
      ':' ∉ owner.toList ∧ '(' ∉ source.toList ∧ '(' ∉ target.toList
  | .other => True

instance : DecidablePred Tiny.Row.Unpunctuated
  | .classNamed _ _ => inferInstanceAs (Decidable (_ ∧ _))
  | .field _ _ _ => inferInstanceAs (Decidable (_ ∉ _))
  | .method _ _ _ _ => inferInstanceAs (Decidable (_ ∧ _))
  | .other => inferInstanceAs (Decidable True)

/-! ## Tables whose members follow their classes -/

namespace Mappings

variable {m mcp yarn : Mappings} {ds : List Declaration} {counterpart : String → String → Prop}

/-- An entry for a member names two classes that belong together. -/
inductive OwnersPaired (counterpart : String → String → Prop) (key value : String) : Prop
  | mk {owner owner' member member' : String} (hkey : split key = .ok (owner, member))
      (hvalue : split value = .ok (owner', member')) (howner : counterpart owner owner')

/-- In all entries for members the owners belong together, and in those for methods also the
descriptors, under the table of classes as a whole. -/
structure MembersFollow (m : Mappings) (counterpart : String → String → Prop) : Prop where
  owners : ∀ kind, kind ≠ .classes → ∀ k v, (m.table kind).get? k = some v →
    OwnersPaired counterpart k v
  descriptors : ∀ k v, m.methods.get? k = some v → ∀ owner owner' member member',
    split k = .ok (owner, member) → split v = .ok (owner', member') →
    Descriptor.rename m.classes.rename (descriptorPart member) = .ok (descriptorPart member')

/-- Members follow their classes where each declared owner has its counterpart. -/
theorem membersFollow_of_declarations (h : ofDeclarations ds = .ok m)
    (hplain : ∀ d ∈ ds, d.Unpunctuated)
    (howner : ∀ d ∈ ds, d.kind ≠ .classes → counterpart d.owner.source d.owner.target) :
    m.MembersFollow counterpart := by
  refine ⟨?owners, ?descriptors⟩
  case owners =>
    intro kind hkind k v hget
    cases kind with
    | classes => exact absurd rfl hkind
    | fields =>
        obtain ⟨owner, name, target, hd, rfl, rfl⟩ := exists_field h hget
        obtain ⟨hsource, htarget⟩ := hplain _ hd
        exact .mk (split_field hsource name) (split_field htarget target)
          (howner _ hd nofun)
    | methods =>
        obtain ⟨owner, name, descriptor, target, renamed, hd, -, rfl, rfl⟩ := exists_method h hget
        obtain ⟨hsource, htarget, -, -⟩ := hplain _ hd
        exact .mk (split_method hsource name descriptor) (split_method htarget target renamed)
          (howner _ hd nofun)
  case descriptors =>
    intro k v hget o o' member member' hk hv
    obtain ⟨owner, name, descriptor, target, renamed, hd, hrenamed, rfl, rfl⟩ :=
      exists_method h hget
    obtain ⟨hsource, htarget, hname, htargetName⟩ := hplain _ hd
    rw [split_method hsource] at hk
    rw [split_method htarget] at hv
    cases hk
    cases hv
    rw [descriptorPart, descriptorPart, Text.since_append_of_not_mem hname,
      Text.since_append_of_not_mem htargetName]
    exact Descriptor.rename_since hrenamed

/-! ## Across a bridge -/

/-- An entry of a bridge for a member comes from a member of one obfuscated class. If there is a
yarn name for that class, the bridge moves the class as it moves the member. -/
inductive MovesWithClass (mcp yarn : Mappings) (kind : SymbolKind) (k v : String) : Prop
  | mk {key owner cls cls' member name name' : String} (hmcp : (mcp.table kind).LastKey k key)
      (hyarn : (yarn.table kind).get? key = some v) (hkey : split key = .ok (owner, member))
      (hk : split k = .ok (cls, name)) (hv : split v = .ok (cls', name'))
      (hclass : owner ∈ yarn.classes.keys →
        (mcp.bridgeTo yarn .mcpToYarn).classes.get? cls = some cls')

theorem movesWithClass_of_bridge
    (hmcp : mcp.MembersFollow fun o c => mcp.classes.get? o = some c)
    (hyarn : yarn.MembersFollow fun o c => yarn.classes.rename o = c)
    (hdistinct : mcp.classes.values.Nodup) {kind : SymbolKind} (hkind : kind ≠ .classes)
    {k v : String} (hget : ((mcp.bridgeTo yarn .mcpToYarn).table kind).get? k = some v) :
    MovesWithClass mcp yarn kind k v := by
  simp only [bridgeTo, bridge, table_chain, table_inverse] at hget
  obtain ⟨key, hlast, hnew⟩ := (NameTable.get?_bridge_eq_some_iff _ _ k v).mp hget
  obtain ⟨hkey, hk, hcls⟩ := hmcp.owners kind hkind key k hlast.get?
  obtain ⟨hkey', hv, hcls'⟩ := hyarn.owners kind hkind key v hnew
  -- both tables have the member under one obfuscated key
  rw [hkey] at hkey'
  cases hkey'
  refine .mk hlast hnew hkey hk hv fun hknown => ?_
  obtain ⟨y, hy⟩ := (OrderedMap.mem_keys_iff _ _).mp hknown
  rw [← hcls', NameTable.rename_of_get? hy, ← hy]
  exact NameTable.get?_bridge_of_get? hdistinct yarn.classes hcls

end Mappings

/-! ## TSRG files -/

/-- No class is given two targets. -/
def Declaration.OneTarget (ds : List Declaration) : Prop :=
  ∀ source target target', .classNamed ⟨source, target⟩ ∈ ds →
    .classNamed ⟨source, target'⟩ ∈ ds → target = target'

/-- A class that is given one target has it in the table. -/
theorem Mappings.get?_class {m : Mappings} {ds : List Declaration} (h : ofDeclarations ds = .ok m)
    (hone : Declaration.OneTarget ds) {pair : ClassPair} (hd : .classNamed pair ∈ ds) :
    m.classes.get? pair.source = some pair.target := by
  obtain ⟨v, hv⟩ := exists_get?_of_mem h hd
  rw [hone pair.source pair.target v hd (mem_of_get?_class h hv)]
  exact hv

theorem Tsrg.classNamed_mem_readable_iff (names : Tsrg.MemberNames) (ds : List Declaration)
    (pair : ClassPair) : .classNamed pair ∈ ds.map names.readable ↔ .classNamed pair ∈ ds := by
  rw [List.mem_map]
  constructor
  · intro h
    obtain ⟨d, hd, hread⟩ := h
    cases d with
    | field owner source target => cases hread
    | method owner source descriptor target => cases hread
    | classNamed pair =>
        cases hread
        exact hd
  · intro h
    exact ⟨_, h, rfl⟩

/-- In the tables of a TSRG file members follow their classes. -/
theorem Tsrg.membersFollow_of_read {names : Tsrg.MemberNames} {file : Bytes} {m : Mappings}
    {ds : List Declaration} (h : Tsrg.read names file = .ok m)
    (hspells : Tsrg.Spells none (Line.ofBytes file) ds) (hone : Declaration.OneTarget ds)
    (hplain : ∀ d ∈ ds.map names.readable, d.Unpunctuated) :
    m.MembersFollow fun o c => m.classes.get? o = some c := by
  have hm := ofDeclarations_of_read h hspells
  have honeReadable : Declaration.OneTarget (ds.map names.readable) := by
    intro source target target' hmem hmem'
    rw [classNamed_mem_readable_iff] at hmem hmem'
    exact hone source target target' hmem hmem'
  refine Mappings.membersFollow_of_declarations hm hplain fun _ hmem _ => ?_
  obtain ⟨d, hd, rfl⟩ := List.mem_map.mp hmem
  rw [owner_readable]
  rcases hspells.classNamed_owner hd with hnone | hclass
  · cases hnone
  · exact Mappings.get?_class hm honeReadable ((classNamed_mem_readable_iff _ _ _).mpr hclass)

/-! ## Tiny files -/

namespace Tiny

/-- The class whose member a row names. -/
def Row.owner? : Row → Option String
  | field owner _ _ => some owner
  | method owner _ _ _ => some owner
  | _ => none

/-- No class is named below one of its members. -/
def ClassesFirst (rows : List Row) : Prop :=
  rows.Pairwise fun row later =>
    ∀ owner ∈ row.owner?, later.classPair?.map Prod.fst ≠ some owner

instance (rows : List Row) : Decidable (ClassesFirst rows) :=
  inferInstanceAs (Decidable (rows.Pairwise _))

theorem unpunctuated_declarations {rows : List Row} (h : ∀ row ∈ rows, row.Unpunctuated) :
    ∀ d ∈ declarations rows, d.Unpunctuated := by
  intro d hd
  obtain ⟨before, row, after, rfl, hrow⟩ := (mem_declarations_iff rows d).mp hd
  have htargets : ∀ source target, .classNamed source target ∈ before → ':' ∉ target.toList :=
    fun source target hmem => (h (.classNamed source target) (by simp [hmem])).2
  have hplain := h row (by simp)
  cases row with
  | classNamed source target =>
      cases hrow
      exact hplain
  | field owner source target =>
      cases hrow
      exact ⟨hplain, not_mem_rename_classTable htargets hplain⟩
  | method owner descriptor source target =>
      cases hrow
      obtain ⟨howner, hsource, htarget⟩ := hplain
      exact ⟨howner, not_mem_rename_classTable htargets howner, hsource, htarget⟩
  | other => cases hrow

/-- The class rows before a member decide about its owner, if there are none below. -/
theorem rename_owner_of_classesFirst {rows : List Row} (h : ClassesFirst rows) {d : Declaration}
    (hd : d ∈ declarations rows) (hkind : d.kind ≠ .classes) :
    (classTable rows).rename d.owner.source = d.owner.target := by
  obtain ⟨before, row, after, rfl, hrow⟩ := (mem_declarations_iff rows d).mp hd
  -- what the rows below say about classes, they do not say about this owner
  obtain ⟨-, hbelow, -⟩ := List.pairwise_append.mp h
  have hafter := (List.pairwise_cons.mp hbelow).1
  cases row with
  | classNamed source target =>
      cases hrow
      exact absurd rfl hkind
  | field owner source target =>
      cases hrow
      refine rename_classTable_append before fun later hlater => ?_
      rcases List.mem_cons.mp hlater with rfl | hlater
      · exact nofun
      · exact hafter later hlater owner rfl
  | method owner descriptor source target =>
      cases hrow
      refine rename_classTable_append before fun later hlater => ?_
      rcases List.mem_cons.mp hlater with rfl | hlater
      · exact nofun
      · exact hafter later hlater owner rfl
  | other => cases hrow

/-- In the tables of a tiny file members follow their classes. -/
theorem membersFollow_of_read {source target : String} {file : Bytes} {m : Mappings}
    {rows : List Row} (h : read source target file = .ok m)
    (hspells : Spells source target (Line.ofBytes file) rows) (hfirst : ClassesFirst rows)
    (hplain : ∀ row ∈ rows, row.Unpunctuated) :
    m.MembersFollow fun o c => m.classes.rename o = c := by
  have hm := ofDeclarations_of_read h hspells
  refine Mappings.membersFollow_of_declarations hm (unpunctuated_declarations hplain)
    fun d hd hkind => ?_
  rw [classes_eq_classTable hm]
  exact rename_owner_of_classesFirst hfirst hd hkind

end Tiny

/-! ## Both files -/

namespace Mappings

/-- **Members move with their classes**: in the tables of both files the owner of a member goes
where its class goes, and the classes of a descriptor go where the table of all classes sends them.
So a bridge moves a member to the class to which it moves the owner, if the file of MCP names gives
no two classes one name. -/
theorem read_membersFollow {names : Tsrg.MemberNames} {source target : String}
    {mcpFile yarnFile : Bytes} {mcp yarn : Mappings} {records : List Declaration}
    {rows : List Tiny.Row} (hmcp : Tsrg.read names mcpFile = .ok mcp)
    (hyarn : Tiny.read source target yarnFile = .ok yarn)
    (hrecords : Tsrg.Spells none (Line.ofBytes mcpFile) records)
    (hrows : Tiny.Spells source target (Line.ofBytes yarnFile) rows)
    (hone : Declaration.OneTarget records)
    (hds : ∀ d ∈ records.map names.readable, d.Unpunctuated)
    (hfirst : Tiny.ClassesFirst rows) (hes : ∀ row ∈ rows, row.Unpunctuated) :
    (mcp.MembersFollow fun o c => mcp.classes.get? o = some c) ∧
      (yarn.MembersFollow fun o c => yarn.classes.rename o = c) ∧
      (mcp.classes.values.Nodup → ∀ kind, kind ≠ .classes → ∀ k v,
        ((mcp.bridgeTo yarn .mcpToYarn).table kind).get? k = some v →
          MovesWithClass mcp yarn kind k v) := by
  have hmcpFollow := Tsrg.membersFollow_of_read hmcp hrecords hone hds
  have hyarnFollow := Tiny.membersFollow_of_read hyarn hrows hfirst hes
  refine ⟨hmcpFollow, hyarnFollow, fun hdistinct kind hkind k v hget => ?_⟩
  exact movesWithClass_of_bridge hmcpFollow hyarnFollow hdistinct hkind hget

/-- A method that mentions a class which is declared below it. -/
def laterClassMcpFile : Bytes := Utf8.encode "a net/A\n\tm (Lc;)V func_1\nc net/C\n\tf field_2\n"

/-- The same members, where one of the classes has no yarn name, and a class row stands below a
member of another class. -/
def laterClassYarnFile : Bytes :=
  Utf8.encode ("v1\tofficial\tnamed\nMETHOD\ta\t(Lc;)V\tm\tfetch\nCLASS\tc\ty/Charlie\n"
    ++ "FIELD\tc\tI\tf\tsize\n")

theorem read_membersFollow_later_class :
    ∃ mcp yarn, Tsrg.read {} laterClassMcpFile = .ok mcp ∧
      Tiny.read "official" "named" laterClassYarnFile = .ok yarn ∧
      (mcp.MembersFollow fun o c => mcp.classes.get? o = some c) ∧
      (yarn.MembersFollow fun o c => yarn.classes.rename o = c) ∧
      MovesWithClass mcp yarn .fields "net/C:field_2" "y/Charlie:size" ∧
      MovesWithClass mcp yarn .methods "net/A:func_1(Lnet/C;)V" "a:fetch(Ly/Charlie;)V" := by
  let mcp : Mappings :=
    { classes := .ofPairs [("a", "net/A"), ("c", "net/C")]
      fields := .ofPairs [("c:f", "net/C:field_2")]
      methods := .ofPairs [("a:m(Lc;)V", "net/A:func_1(Lnet/C;)V")] }
  let yarn : Mappings :=
    { classes := .ofPairs [("c", "y/Charlie")], fields := .ofPairs [("c:f", "y/Charlie:size")]
      methods := .ofPairs [("a:m(Lc;)V", "a:fetch(Ly/Charlie;)V")] }
  have hmcp : Tsrg.read {} laterClassMcpFile = .ok mcp := by decide
  have hyarn : Tiny.read "official" "named" laterClassYarnFile = .ok yarn := by decide
  have hrecords : Tsrg.Spells none (Line.ofBytes laterClassMcpFile)
      [.classNamed ⟨"a", "net/A"⟩, .method ⟨"a", "net/A"⟩ "m" "(Lc;)V" "func_1",
        .classNamed ⟨"c", "net/C"⟩, .field ⟨"c", "net/C"⟩ "f" "field_2"] :=
    (Tsrg.spells_iff _ _).mpr (by decide)
  have hrows : Tiny.Spells "official" "named" (Line.ofBytes laterClassYarnFile)
      [.method "a" "(Lc;)V" "m" "fetch", .classNamed "c" "y/Charlie",
        .field "c" "f" "size"] := (Tiny.spells_iff _ _ _ _).mpr (by decide)
  have hone : Declaration.OneTarget
      [.classNamed ⟨"a", "net/A"⟩, .method ⟨"a", "net/A"⟩ "m" "(Lc;)V" "func_1",
        .classNamed ⟨"c", "net/C"⟩, .field ⟨"c", "net/C"⟩ "f" "field_2"] := by
    intro source target target' hmem hmem'
    simp at hmem hmem'
    grind
  obtain ⟨hmcpFollow, hyarnFollow, hbridge⟩ :=
    read_membersFollow hmcp hyarn hrecords hrows hone (by decide) (by decide) (by decide)
  have hmoves := hbridge (by decide)
  exact ⟨mcp, yarn, hmcp, hyarn, hmcpFollow, hyarnFollow,
    hmoves .fields (by decide) _ _ (by decide), hmoves .methods (by decide) _ _ (by decide)⟩

end Mappings

end Namebridge
