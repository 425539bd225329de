import Namebridge.Mappings.ClassPatch
import Namebridge.Proofs.Bridge
import Namebridge.Proofs.Descriptor
import Namebridge.Proofs.Regrouping
import Namebridge.Proofs.TinyGrammar
import Namebridge.Proofs.TsrgGrammar

/-!
# Mappings from files have an index

A mapping whose keys cannot be taken apart has no index. No file leads to one: what the readers put
in the tables can be taken apart, and patches of classes, `inverse` and `bridge` keep it so. The
tiny format allows methods without a descriptor, so there the rows have to have one
(`exists_index_of_files`).
-/

namespace Namebridge

open MemberKey

/-! ## Properties of keys and counterparts -/

namespace NameTable

variable {s t : NameTable} {p q r p' q' : String → Prop}

/-- All keys of a table have one property and all counterparts another. -/
def Pairs (p q : String → Prop) (t : NameTable) : Prop := ∀ e ∈ t.entries, p e.1 ∧ q e.2

theorem pairs_iff : t.Pairs p q ↔ ∀ k v, t.get? k = some v → p k ∧ q v := by
  simp only [← OrderedMap.mem_entries_iff]
  exact ⟨fun h k v hmem => h (k, v) hmem, fun h e he => h e.1 e.2 he⟩

theorem Pairs.mono (h : t.Pairs p q) (hp : ∀ k, p k → p' k) (hq : ∀ v, q v → q' v) :
    t.Pairs p' q' :=
  fun e he => ⟨hp e.1 (h e he).1, hq e.2 (h e he).2⟩

theorem Pairs.inverse (h : t.Pairs p q) : t.inverse.Pairs q p := by
  rw [pairs_iff] at h ⊢
  intro value key hget
  exact (h key value ((get?_inverse_eq_some_iff t value key).mp hget).get?).symm

theorem Pairs.chain_drop (hs : s.Pairs p q) (ht : t.Pairs p' r) :
    (s.chain t .drop).Pairs p r := by
  rw [pairs_iff] at hs ht ⊢
  intro name target hget
  rw [get?_chain_drop, Option.bind_eq_some_iff] at hget
  obtain ⟨middle, hfirst, hsecond⟩ := hget
  exact ⟨(hs name middle hfirst).1, (ht middle target hsecond).2⟩

end NameTable

namespace Mappings

variable {m mcp yarn : Mappings} {ds : List Declaration}

/-- Keys and counterparts of members name a class, and those of methods have a descriptor. -/
structure Separable (m : Mappings) : Prop where
  fields : m.fields.Pairs HasOwner HasOwner
  methods : m.methods.Pairs HasDescriptor HasDescriptor

theorem Separable.inverse (h : m.Separable) : m.inverse.Separable :=
  ⟨h.fields.inverse, h.methods.inverse⟩

theorem Separable.groupable (h : m.Separable) : m.Groupable :=
  ⟨h.fields, h.methods.mono (fun _ => id) fun _ => HasDescriptor.hasOwner⟩

theorem Separable.bridge (hmcp : mcp.Separable) (hyarn : yarn.Separable) :
    (bridge mcp yarn).Separable :=
  ⟨hmcp.fields.inverse.chain_drop hyarn.fields, hmcp.methods.inverse.chain_drop hyarn.methods⟩

/-! ## What files declare -/

/-- Members that are declared have keys and counterparts that name a class. -/
theorem pairs_hasOwner (h : ofDeclarations ds = .ok m) :
    m.fields.Pairs HasOwner HasOwner ∧ m.methods.Pairs HasOwner HasOwner := by
  simp only [NameTable.pairs_iff]
  constructor
  · intro k v hget
    obtain ⟨owner, name, target, -, rfl, rfl⟩ := exists_field h hget
    exact ⟨hasOwner_field _ _, hasOwner_field _ _⟩
  · intro k v hget
    obtain ⟨owner, name, descriptor, target, renamed, -, -, rfl, rfl⟩ := exists_method h hget
    rw [method_eq_field, method_eq_field]
    exact ⟨hasOwner_field _ _, hasOwner_field _ _⟩

/-- Methods that are declared with a descriptor have it in the key and, renamed, in the
counterpart. -/
theorem separable_of_opens (h : ofDeclarations ds = .ok m)
    (hopens : ∀ owner source descriptor target,
      Declaration.method owner source descriptor target ∈ ds → Opens descriptor) :
    m.Separable := by
  refine ⟨(pairs_hasOwner h).1, NameTable.pairs_iff.mpr fun k v hget => ?_⟩
  obtain ⟨owner, name, descriptor, target, renamed, hd, hrenamed, rfl, rfl⟩ := exists_method h hget
  have hdescriptor := hopens owner name descriptor target hd
  have hrenamedOpens : Opens renamed := Descriptor.head?_rename hdescriptor hrenamed
  exact ⟨hasDescriptor_method _ _ hdescriptor, hasDescriptor_method _ _ hrenamedOpens⟩

end Mappings

theorem Tsrg.separable_of_read {names : Tsrg.MemberNames} {file : Bytes} {m : Mappings}
    (h : Tsrg.read names file = .ok m) : m.Separable := by
  obtain ⟨ds, hspells, hm⟩ := (Tsrg.ofLines_eq_ok_iff names _ m).mp h
  refine Mappings.separable_of_opens hm fun owner source descriptor target hd => ?_
  obtain ⟨name, hd, -⟩ := (Tsrg.method_mem_readable_iff owner source descriptor target).mp hd
  exact (hspells.opens_method hd).1

/-! ## Patches -/

/-- A mapping with patches applied one after the other. -/
def Mappings.patched (m : Mappings) (patches : List ClassPatch) : Mappings :=
  patches.foldl (fun m patch => (patch.apply m).value) m

theorem ClassPatch.members_apply (patch : ClassPatch) (m : Mappings) :
    (patch.apply m).value.fields = m.fields ∧ (patch.apply m).value.methods = m.methods :=
  ⟨rfl, rfl⟩

/-- Patches leave members alone. -/
theorem Mappings.members_patched (m : Mappings) (patches : List ClassPatch) :
    (m.patched patches).fields = m.fields ∧ (m.patched patches).methods = m.methods :=
  ⟨Traversal.look_foldl_eq fields (fun m patch => (patch.members_apply m).1) m patches,
    Traversal.look_foldl_eq methods (fun m patch => (patch.members_apply m).2) m patches⟩

theorem Mappings.Separable.patched {m : Mappings} (h : m.Separable) (patches : List ClassPatch) :
    (m.patched patches).Separable := by
  obtain ⟨hfields, hmethods⟩ := m.members_patched patches
  exact ⟨hfields ▸ h.fields, hmethods ▸ h.methods⟩

/-! ## Indexes -/

namespace Mappings

/-- Whether a mapping has an index. -/
def Indexed (m : Mappings) : Prop := ∃ index, ClassIndex.ofMappings m = .ok index

theorem Separable.indexed {m : Mappings} (h : m.Separable) : m.Indexed :=
  (ClassIndex.exists_ofMappings_iff m).mpr h.groupable

/-- **Files have an index**: what is read from a TSRG file, its other direction and its bridge to
what is read from a tiny file can be grouped by class, whatever patches of classes are applied. The
tiny table and the bridge back can be, if the methods of the tiny file have descriptors. -/
theorem exists_index_of_files {names : Tsrg.MemberNames} {source target : String}
    {mcpFile yarnFile : Bytes} {mcp yarn : Mappings} (hmcp : Tsrg.read names mcpFile = .ok mcp)
    (hyarn : Tiny.read source target yarnFile = .ok yarn)
    (mcpPatches yarnPatches : List ClassPatch) :
    let patchedMcp := mcp.patched mcpPatches
    let patchedYarn := yarn.patched yarnPatches
    patchedMcp.Indexed ∧ patchedMcp.inverse.Indexed ∧
      (patchedMcp.bridgeTo patchedYarn .mcpToYarn).Indexed ∧
      ((∀ rows, Tiny.Spells source target (Line.ofBytes yarnFile) rows →
          ∀ owner descriptor name newName,
            Tiny.Row.method owner descriptor name newName ∈ rows → Opens descriptor) →
        patchedYarn.Indexed ∧ (patchedMcp.bridgeTo patchedYarn .yarnToMcp).Indexed) := by
  intro patchedMcp patchedYarn
  have hpatchedMcp : patchedMcp.Separable := (Tsrg.separable_of_read hmcp).patched mcpPatches
  obtain ⟨rows, hrows, hdeclared⟩ := (Tiny.ofLines_eq_ok_iff source target _ yarn).mp hyarn
  obtain ⟨hfields, hmethods⟩ := yarn.members_patched yarnPatches
  refine ⟨hpatchedMcp.indexed, hpatchedMcp.inverse.indexed, ?bridge, ?described⟩
  case bridge =>
    -- the keys are counterparts of the first table, so they have descriptors whatever the rows have
    obtain ⟨hyarnFields, hyarnMethods⟩ := pairs_hasOwner hdeclared
    rw [← hfields] at hyarnFields
    rw [← hmethods] at hyarnMethods
    exact (ClassIndex.exists_ofMappings_iff _).mpr
      ⟨hpatchedMcp.fields.inverse.chain_drop hyarnFields,
        hpatchedMcp.methods.inverse.chain_drop hyarnMethods⟩
  case described =>
    intro hopens
    have hyarnSeparable : yarn.Separable := by
      refine separable_of_opens hdeclared fun owner name descriptor newName hd => ?_
      have hrow := (Tiny.method_mem_declarations_iff rows owner.source descriptor name
        newName).mp ⟨owner, hd, rfl⟩
      exact hopens rows hrows _ _ _ _ hrow
    have hpatchedYarn : patchedYarn.Separable := hyarnSeparable.patched yarnPatches
    exact ⟨hpatchedYarn.indexed, (hpatchedMcp.bridge hpatchedYarn).inverse.indexed⟩

/-- Names that have colons and parentheses of their own. -/
def punctuatedMcpFile : Bytes := Utf8.encode "a:( net/A:\n\tm:( (La:(;)V ((\n\tf :\n"

/-- The same class, field and method. -/
def punctuatedYarnFile : Bytes :=
  Utf8.encode ("v1\tofficial\tnamed\nCLASS\ta:(\ty/(B\n"
    ++ "METHOD\ta:(\t(La:(;)V\tm:(\t:\nFIELD\ta:(\tI\tf\t(\n")

theorem exists_index_of_punctuated_files :
    ∃ mcp yarn, Tsrg.read {} punctuatedMcpFile = .ok mcp ∧
      Tiny.read "official" "named" punctuatedYarnFile = .ok yarn ∧
      (mcp.patched [.forgeSideMarkers]).inverse.Indexed ∧
      ((mcp.patched [.forgeSideMarkers]).bridgeTo (yarn.patched [.fabricSideMarkers])
        .yarnToMcp).Indexed ∧
      (mcp.bridgeTo yarn .mcpToYarn).methods.entries
        = [("net/A::(((Lnet/A:;)V", "y/(B::(Ly/(B;)V")] := by
  let mcp : Mappings :=
    { classes := .ofPairs [("a:(", "net/A:")], fields := .ofPairs [("a:(:f", "net/A:::")]
      methods := .ofPairs [("a:(:m:((La:(;)V", "net/A::(((Lnet/A:;)V")] }
  let yarn : Mappings :=
    { classes := .ofPairs [("a:(", "y/(B")], fields := .ofPairs [("a:(:f", "y/(B:(")]
      methods := .ofPairs [("a:(:m:((La:(;)V", "y/(B::(Ly/(B;)V")] }
  have hmcp : Tsrg.read {} punctuatedMcpFile = .ok mcp := by decide
  have hyarn : Tiny.read "official" "named" punctuatedYarnFile = .ok yarn := by decide
  have hrows : Tiny.Spells "official" "named" (Line.ofBytes punctuatedYarnFile)
      [.classNamed "a:(" "y/(B", .method "a:(" "(La:(;)V" "m:(" ":", .field "a:(" "f" "("] :=
    (Tiny.spells_iff _ _ _ _).mpr (by decide)
  obtain ⟨-, hinverse, -, hdescribed⟩ :=
    exists_index_of_files hmcp hyarn [.forgeSideMarkers] [.fabricSideMarkers]
  refine ⟨mcp, yarn, hmcp, hyarn, hinverse, (hdescribed ?_).2, by decide⟩
  intro rows hspells owner descriptor name newName hrow
  obtain rfl := hspells.unique hrows
  simp only [List.mem_cons, List.not_mem_nil, or_false, false_or, reduceCtorEq,
    Tiny.Row.method.injEq] at hrow
  obtain ⟨-, rfl, -⟩ := hrow
  decide

/-- A row without a descriptor is accepted, but there is no index for it. -/
example : Tiny.read "official" "named" (Utf8.encode "v1\tofficial\tnamed\nMETHOD\ta\tV\tm\tn\n")
    = .ok { methods := .ofPairs [("a:mV", "a:nV")] } ∧
    ClassIndex.ofMappings { methods := .ofPairs [("a:mV", "a:nV")] }
      = .error (.noDescriptor "a:mV") := by decide

end Mappings

end Namebridge
