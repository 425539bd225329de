import Namebridge.Proofs.IndexedFiles
import Namebridge.Proofs.TableAlgebra

/-!
# Insertion order and ties

Mappings can have the same entries in different orders. A chain does not show the order of either
mapping (`agrees_chain`). A table that is turned around shows it only where two names have one
counterpart (`agrees_inverse`). So without such ties the bridges of reordered mappings have the
same entries, and renamers find the same with them: `reordered_answerAlike`.

The order shows elsewhere: the method that is taken for one of the same name is the first of them.
-/

namespace Namebridge

namespace NameTable

variable {s s' t t' : NameTable}

/-- Whatever becomes of entries without a continuation, it becomes of them in any order. -/
theorem agrees_chain (hs : s.Agrees s') (ht : t.Agrees t') (unmatched : Unmatched) :
    (s.chain t unmatched).Agrees (s'.chain t' unmatched) := by
  intro name
  cases unmatched with
  | keep => rw [get?_chain_keep, get?_chain_keep, hs name, rename_of_agrees ht]
  | drop =>
      rw [get?_chain_drop, get?_chain_drop, hs name]
      exact congrArg (s'.get? name).bind (funext ht)

/-- Without ties there is no last name to choose. -/
theorem agrees_inverse (h : s.Agrees s') (hs : s.values.Nodup) : s.inverse.Agrees s'.inverse := by
  intro value
  refine Option.ext fun name => ?_
  rw [get?_inverse_eq_some_iff, get?_inverse_eq_some_iff, lastKey_iff_get? hs,
    lastKey_iff_get? (nodup_values_of_agrees h hs), h name]

theorem agrees_bridge (hs : s.Agrees s') (ht : t.Agrees t') (hnodup : s.values.Nodup) :
    (s.inverse.chain t .drop).Agrees (s'.inverse.chain t' .drop) :=
  agrees_chain (agrees_inverse hs hnodup) ht .drop

end NameTable

/-! ## Indexes of mappings that agree -/

namespace ClassIndex

open OrderedMap

variable {m m' : Mappings} {index index' : ClassIndex}

theorem groupable_of_agrees (h : ∀ kind, (m.table kind).Agrees (m'.table kind))
    (hm : m.Groupable) : m'.Groupable := by
  have hfields : m.fields.entries.Perm m'.fields.entries := (perm_entries_iff _ _).mpr (h .fields)
  have hmethods : m.methods.entries.Perm m'.methods.entries :=
    (perm_entries_iff _ _).mpr (h .methods)
  exact ⟨fun e he => hm.fields e (hfields.mem_iff.mpr he),
    fun e he => hm.methods e (hmethods.mem_iff.mpr he)⟩

/-- Members in another order have the same owners in another order. -/
theorem owners_perm (h : ∀ kind, (m.table kind).Agrees (m'.table kind)) :
    (owners m).Perm (owners m') := by
  have hfields : m.fields.keys.Perm m'.fields.keys :=
    ((perm_entries_iff _ _).mpr (h .fields)).map Prod.fst
  have hmethods : m.methods.keys.Perm m'.methods.keys :=
    ((perm_entries_iff _ _).mpr (h .methods)).map Prod.fst
  exact (hfields.append hmethods).map MemberKey.ownerPart

theorem class?_of_agrees (h : ∀ kind, (m.table kind).Agrees (m'.table kind))
    (hindex : ofMappings m = .ok index) (hindex' : ofMappings m' = .ok index') (cls : String) :
    index.class? cls = index'.class? cls := by
  have hclass : m.classes.get? cls = m'.classes.get? cls := h .classes cls
  simp only [class?_ofMappings hindex, class?_ofMappings hindex', hclass, (owners_perm h).mem_iff]

theorem field?_of_agrees (h : ∀ kind, (m.table kind).Agrees (m'.table kind))
    (hindex : ofMappings m = .ok index) (hindex' : ofMappings m' = .ok index')
    (cls name : String) : index.field? cls name = index'.field? cls name := by
  have hfield : m.fields.get? (MemberKey.field cls name)
      = m'.fields.get? (MemberKey.field cls name) := h .fields _
  refine Option.ext fun target => ?_
  rw [field?_eq_some_iff hindex, field?_eq_some_iff hindex', hfield]

theorem method?_of_agrees (h : ∀ kind, (m.table kind).Agrees (m'.table kind))
    (hindex : ofMappings m = .ok index) (hindex' : ofMappings m' = .ok index')
    (cls name descriptor : String) :
    index.method? cls name descriptor = index'.method? cls name descriptor := by
  have hmethod : m.methods.get? (MemberKey.method cls name descriptor)
      = m'.methods.get? (MemberKey.method cls name descriptor) := h .methods _
  refine Option.ext fun target => ?_
  rw [method?_eq_some_iff hindex, method?_eq_some_iff hindex', hmethod]

end ClassIndex

/-! ## Answers -/

/-- Both renamers find the same new names of classes, of fields, and of methods by descriptor. -/
structure Renamer.FindAlike (r r' : Renamer) : Prop where
  class?_eq : ∀ name, r.class? name = r'.class? name
  field?_eq : ∀ cls name, r.field? cls name = r'.field? cls name
  method?_eq : ∀ cls name descriptor, r.method? cls name descriptor = r'.method? cls name descriptor

namespace Mappings

variable {m m' mcp mcp' yarn yarn' : Mappings}

/-- Nothing that is looked up in one mapping or in its index is found otherwise in the other. -/
structure AnswerAlike (m m' : Mappings) : Prop where
  agrees : m.agrees m' = true
  class?_eq : ∀ name, m.class? name = m'.class? name
  className_eq : ∀ name, m.className name = m'.className name
  indexed_iff : m.Indexed ↔ m'.Indexed
  /-- Both indexes are searched alike, with any super classes or none. -/
  renamers : ∀ index index', ClassIndex.ofMappings m = .ok index →
    ClassIndex.ofMappings m' = .ok index' →
      ∀ hierarchy, Renamer.FindAlike ⟨index, hierarchy⟩ ⟨index', hierarchy⟩

theorem answerAlike_of_agrees (h : ∀ kind, (m.table kind).Agrees (m'.table kind)) :
    m.AnswerAlike m' := by
  have hback : ∀ kind, (m'.table kind).Agrees (m.table kind) := fun kind name => (h kind name).symm
  refine ⟨(agrees_iff m m').mpr h, h .classes, ?className, ?indexed, ?renamers⟩
  case className => exact congrFun (NameTable.rename_of_agrees (h .classes))
  case indexed =>
    rw [Indexed, Indexed, ClassIndex.exists_ofMappings_iff, ClassIndex.exists_ofMappings_iff]
    exact ⟨ClassIndex.groupable_of_agrees h, ClassIndex.groupable_of_agrees hback⟩
  case renamers =>
    intro index index' hindex hindex' hierarchy
    refine ⟨ClassIndex.class?_of_agrees h hindex hindex', fun cls name => ?_,
      fun cls name descriptor => ?_⟩
    · -- each class above the first one is asked the same too
      have hask := funext fun c => ClassIndex.field?_of_agrees h hindex hindex' c name
      exact congrArg (hierarchy.find? · cls) hask
    · have hask := funext fun c => ClassIndex.method?_of_agrees h hindex hindex' c name descriptor
      exact congrArg (hierarchy.find? · cls) hask

/-- **Insertion order**: chains of reordered mappings have the same entries, whatever becomes of
those without a continuation. So have inverses and bridges, if no two names have one counterpart in
a table that is turned around, and then nothing that is looked up is found otherwise. -/
theorem reordered_answerAlike (hmcp : mcp.agrees mcp' = true) (hyarn : yarn.agrees yarn' = true) :
    (∀ unmatched, (mcp.chain yarn unmatched).agrees (mcp'.chain yarn' unmatched) = true) ∧
    (mcp.OneToOne → mcp.inverse.agrees mcp'.inverse = true ∧
      (mcp.bridgeTo yarn .mcpToYarn).AnswerAlike (mcp'.bridgeTo yarn' .mcpToYarn) ∧
      (yarn.OneToOne →
        (mcp.bridgeTo yarn .yarnToMcp).AnswerAlike (mcp'.bridgeTo yarn' .yarnToMcp))) := by
  rw [agrees_iff] at hmcp hyarn
  refine ⟨fun unmatched => (agrees_iff _ _).mpr fun kind => ?chain, fun hone =>
    ⟨(agrees_iff _ _).mpr fun kind => ?inverse, answerAlike_of_agrees fun kind => ?forward,
      fun hyarnOne => answerAlike_of_agrees fun kind => ?backward⟩⟩
  case chain =>
    rw [table_chain, table_chain]
    exact NameTable.agrees_chain (hmcp kind) (hyarn kind) unmatched
  case inverse =>
    rw [table_inverse, table_inverse]
    exact NameTable.agrees_inverse (hmcp kind) (hone kind)
  case forward =>
    simp only [bridgeTo, bridge, table_inverse, table_chain]
    exact NameTable.agrees_bridge (hmcp kind) (hyarn kind) (hone kind)
  case backward =>
    simp only [bridgeTo, bridge, table_inverse, table_chain]
    exact NameTable.agrees_inverse (NameTable.agrees_bridge (hmcp kind) (hyarn kind) (hone kind))
      (NameTable.nodup_values_bridge (mcp.table kind) (hyarnOne kind))

/-- The same entries, from the last to the first. -/
def backwards (m : Mappings) : Mappings := m.mapTables fun t => .ofPairs t.entries.reverse

/-- MCP names of two classes and of their members. -/
def mcpMembers : Mappings :=
  { classes := .ofPairs [("a", "mcp/Entity"), ("b", "mcp/Item")]
    fields := .ofPairs [("a:f", "mcp/Entity:posX"), ("b:f", "mcp/Item:damage")]
    methods := .ofPairs
      [("a:m()V", "mcp/Entity:tick()V"), ("a:m(Lb;)V", "mcp/Entity:drop(Lmcp/Item;)V")] }

/-- Yarn names of the same classes and members. -/
def yarnMembers : Mappings :=
  { classes := .ofPairs [("b", "yarn/Thing"), ("a", "yarn/Mob")]
    fields := .ofPairs [("a:f", "yarn/Mob:x"), ("b:f", "yarn/Thing:wear")]
    methods := .ofPairs
      [("a:m(Lb;)V", "yarn/Mob:put(Lyarn/Thing;)V"), ("a:m()V", "yarn/Mob:step()V")] }

theorem reordered_answerAlike_backwards :
    mcpMembers.OneToOne ∧ yarnMembers.OneToOne ∧ mcpMembers.backwards ≠ mcpMembers ∧
    mcpMembers.agrees mcpMembers.backwards = true ∧
    yarnMembers.agrees yarnMembers.backwards = true ∧
    (mcpMembers.chain yarnMembers .keep).agrees
      (mcpMembers.backwards.chain yarnMembers.backwards .keep) = true ∧
    mcpMembers.inverse.agrees mcpMembers.backwards.inverse = true ∧
    (mcpMembers.bridgeTo yarnMembers .mcpToYarn).AnswerAlike
      (mcpMembers.backwards.bridgeTo yarnMembers.backwards .mcpToYarn) ∧
    (mcpMembers.bridgeTo yarnMembers .yarnToMcp).AnswerAlike
      (mcpMembers.backwards.bridgeTo yarnMembers.backwards .yarnToMcp) ∧
    ∃ index, ClassIndex.ofMappings
        (mcpMembers.backwards.bridgeTo yarnMembers.backwards .mcpToYarn) = .ok index ∧
      (Renamer.mk index .flat).method? "mcp/Entity" "drop" "(Lmcp/Item;)V" = some "put" := by
  have hmcpOne : mcpMembers.OneToOne := by
    intro kind
    cases kind <;> decide
  have hyarnOne : yarnMembers.OneToOne := by
    intro kind
    cases kind <;> decide
  have hmcp : mcpMembers.agrees mcpMembers.backwards = true := by decide
  have hyarn : yarnMembers.agrees yarnMembers.backwards = true := by decide
  obtain ⟨hchain, hinverse⟩ := reordered_answerAlike hmcp hyarn
  obtain ⟨hagrees, hforward, hbackward⟩ := hinverse hmcpOne
  refine ⟨hmcpOne, hyarnOne, by decide, hmcp, hyarn, hchain .keep, hagrees, hforward,
    hbackward hyarnOne, ?_⟩
  obtain ⟨index, hindex⟩ :
      (mcpMembers.backwards.bridgeTo yarnMembers.backwards .mcpToYarn).Indexed :=
    (ClassIndex.exists_ofMappings_iff _).mpr (by decide)
  refine ⟨index, hindex, ?_⟩
  rw [Renamer.method?_flat, ClassIndex.method?_eq_some_iff hindex]
  exact ⟨by decide, by decide, by decide, "yarn/Mob:put(Lyarn/Thing;)V", "yarn/Mob",
    "put(Lyarn/Thing;)V", by decide, by decide, by decide⟩

/-- Where two names have one counterpart, the later of them has it. -/
example :
    tiedNames.inverse.classes.get? "a" = some "q" ∧
      tiedNames.backwards.inverse.classes.get? "a" = some "p" := by decide

end Mappings

end Namebridge
