import Mathlib.Data.List.Perm.Basic
import Namebridge.Proofs.Line
import Namebridge.Proofs.TsrgGrammar

/-!
# The order of blocks in a TSRG file

A class and its members stand in a `Block`, which says the same below any other block
(`spells_blocks_iff`). So blocks can change places, and members can inside of their block, as far as
no name is declared twice: `read_rearranged`. This holds for descriptors too, although they mention
classes of other blocks, since these are renamed when all blocks are known.
-/

namespace Namebridge.Tsrg

/-! ## Blocks -/

/-- The line starts with a tab, as those of members do. -/
def Indented (text : String) : Prop := text.toList.head? = some '\t'

instance (text : String) : Decidable (Indented text) := inferInstanceAs (Decidable (_ = _))

/-- A line without indentation, and the indented lines down to the next one without. A line that
cannot be read may stand for either. -/
structure Block where
  heading : Except Line.Fault String
  members : List (Except Line.Fault String)
  heading_flush : ∀ text ∈ heading.toOption, ¬ Indented text := by decide
  members_indented : ∀ line ∈ members, ∀ text ∈ line.toOption, Indented text := by decide

namespace Block

/-- The lines of a block. -/
def lines (b : Block) : List (Except Line.Fault String) := b.heading :: b.members

/-- The same block with its members in another order. -/
structure Shuffled (b b' : Block) : Prop where
  heading : b.heading = b'.heading
  members : b.members.Perm b'.members

theorem Shuffled.symm {b b' : Block} (h : b.Shuffled b') : b'.Shuffled b :=
  ⟨h.heading.symm, h.members.symm⟩

end Block

/-- The same blocks in another order, each with its members in another order. -/
def Rearranged (blocks blocks' : List Block) : Prop :=
  ∃ middle, List.Forall₂ Block.Shuffled blocks middle ∧ middle.Perm blocks'

theorem Rearranged.symm {blocks blocks' : List Block} (h : Rearranged blocks blocks') :
    Rearranged blocks' blocks := by
  obtain ⟨middle, hshuffled, hperm⟩ := h
  have hback : List.Forall₂ Block.Shuffled middle blocks :=
    hshuffled.flip.imp fun _ _ h => h.symm
  exact List.perm_comp_forall₂ hperm.symm hback

/-! ## What blocks declare -/

/-- What a line says below the heading of this class, or below members of it. -/
def SaysUnder (pair : ClassPair) (line : Except Line.Fault String) (d : Declaration) : Prop :=
  ∃ text, line = .ok text ∧ Says (some pair) text d

/-- What a block declares: a class, and each member by what its own line says. -/
inductive Block.Declares (b : Block) : List Declaration → Prop
  | mk {text : String} {pair : ClassPair} {members : List Declaration}
      (hheading : b.heading = .ok text) (hclass : Says none text (.classNamed pair))
      (hmembers : List.Forall₂ (SaysUnder pair) b.members members) :
      Declares b (.classNamed pair :: members)

/-- An indented line is that of a member. -/
theorem Says.owner_eq {pair : ClassPair} {text : String} {d : Declaration}
    (h : Says (some pair) text d) (htab : Indented text) : d.owner = pair := by
  cases h with
  | @classLine _ source target hsource htarget =>
      rw [Indented, String.append_assoc] at htab
      exact absurd htab (hsource.head?_append _)
  | memberLine hmember => cases hmember <;> rfl

/-- A line without indentation names a class, whatever stands above it. -/
theorem Says.exists_pair {above : Option ClassPair} {text : String} {d : Declaration}
    (h : Says above text d) (htab : ¬ Indented text) :
    ∃ pair, d = .classNamed pair ∧ Says none text (.classNamed pair) := by
  cases h with
  | classLine hsource htarget => exact ⟨_, rfl, .classLine hsource htarget⟩
  | @memberLine owner text d hmember => exact absurd (by simp [Indented]) htab

theorem Says.of_none {text : String} {d : Declaration} (h : Says none text d)
    (above : Option ClassPair) : Says above text d := by
  cases h with
  | classLine hsource htarget => exact .classLine hsource htarget

/-- Members belong to the class above them, up to the last of them. -/
theorem spells_members_iff (pair : ClassPair) {members : List Line}
    (hmembers : ∀ line ∈ members, ∀ text, line.text = .ok text → Indented text)
    (below : List Line) (ds : List Declaration) :
    Spells (some pair) (members ++ below) ds ↔
      ∃ here there, List.Forall₂ (SaysUnder pair) (members.map Line.text) here ∧
        Spells (some pair) below there ∧ ds = here ++ there := by
  -- by induction on the members: none of them changes the class that the next one is below
  induction members generalizing ds with
  | nil => simp
  | cons line rest ih =>
      rw [List.forall_mem_cons] at hmembers
      obtain ⟨hline, hrest⟩ := hmembers
      constructor
      · intro h
        cases h with
        | @cons _ _ text d _ ds htext hsaid hspells =>
            rw [hsaid.owner_eq (hline text htext)] at hspells
            obtain ⟨here, there, hhere, hthere, rfl⟩ := (ih hrest ds).mp hspells
            exact ⟨d :: here, there, .cons ⟨text, htext, hsaid⟩ hhere, hthere, rfl⟩
      · intro h
        obtain ⟨_, there, hparts, hthere, rfl⟩ := h
        obtain ⟨d, here, hd, hhere, rfl⟩ := List.forall₂_cons_left_iff.mp hparts
        obtain ⟨text, htext, hsaid⟩ := hd
        refine .cons htext hsaid ?_
        rw [hsaid.owner_eq (hline text htext)]
        exact (ih hrest _).mpr ⟨here, there, hhere, hthere, rfl⟩

/-- A block says the same below whatever class, and the block after it stands below its class. -/
theorem spells_block_iff {b : Block} {heading : Line} {members : List Line}
    (hheading : heading.text = b.heading) (hmembers : members.map Line.text = b.members)
    (above : Option ClassPair) (below : List Line) (ds : List Declaration) :
    Spells above (heading :: (members ++ below)) ds ↔
      ∃ pair here there, b.Declares (.classNamed pair :: here) ∧ Spells (some pair) below there ∧
        ds = .classNamed pair :: here ++ there := by
  have hindented : ∀ line ∈ members, ∀ text, line.text = .ok text → Indented text := by
    intro line hline text htext
    have hmem : line.text ∈ b.members := hmembers ▸ List.mem_map_of_mem hline
    exact b.members_indented line.text hmem text (by rw [htext]; rfl)
  constructor
  · intro h
    cases h with
    | @cons _ _ text d _ ds htext hsaid hspells =>
        have hflush : ¬ Indented text :=
          b.heading_flush text (by rw [← hheading, htext]; rfl)
        obtain ⟨pair, rfl, hclass⟩ := hsaid.exists_pair hflush
        obtain ⟨here, there, hhere, hthere, rfl⟩ :=
          (spells_members_iff pair hindented below ds).mp hspells
        exact ⟨pair, here, there, .mk (hheading ▸ htext) hclass (hmembers ▸ hhere), hthere, rfl⟩
  · intro h
    obtain ⟨pair, here, there, hblock, hthere, rfl⟩ := h
    cases hblock with
    | mk htext hclass hhere =>
        refine .cons (hheading.trans htext) (hclass.of_none above) ?_
        exact (spells_members_iff pair hindented below _).mpr
          ⟨here, there, hmembers ▸ hhere, hthere, rfl⟩

/-- The blocks of a file say one after the other what each of them says. -/
theorem spells_blocks_iff {blocks : List Block} {lines : List Line}
    (hlines : lines.map Line.text = blocks.flatMap Block.lines) (above : Option ClassPair)
    (ds : List Declaration) :
    Spells above lines ds ↔
      ∃ parts, List.Forall₂ Block.Declares blocks parts ∧ parts.flatten = ds := by
  induction blocks generalizing lines above ds with
  | nil =>
      obtain rfl := List.map_eq_nil_iff.mp hlines
      simp only [List.forall₂_nil_left_iff, exists_eq_left, List.flatten_nil]
      constructor
      · intro h
        cases h
        rfl
      · rintro rfl
        exact .nil
  | cons b rest ih =>
      rw [List.flatMap_cons, Block.lines, List.cons_append] at hlines
      obtain ⟨heading, others, rfl, hheading, hothers⟩ := List.map_eq_cons_iff.mp hlines
      obtain ⟨members, below, rfl, hmembers, hbelow⟩ := List.map_eq_append_iff.mp hothers
      rw [spells_block_iff hheading hmembers]
      constructor
      · intro h
        obtain ⟨pair, here, there, hblock, hthere, rfl⟩ := h
        obtain ⟨parts, hparts, rfl⟩ := (ih hbelow _ _).mp hthere
        exact ⟨_, .cons hblock hparts, rfl⟩
      · intro h
        obtain ⟨_, hall, rfl⟩ := h
        obtain ⟨part, parts, hblock, hparts, rfl⟩ := List.forall₂_cons_left_iff.mp hall
        cases hblock with
        | @mk text pair members htext hclass hmembers =>
            exact ⟨pair, members, parts.flatten, .mk htext hclass hmembers,
              (ih hbelow _ _).mpr ⟨parts, hparts, rfl⟩, rfl⟩

/-! ## Blocks in another order -/

/-- Members in another order are declared in that order. -/
theorem Block.Shuffled.exists_declares {b b' : Block} (h : b.Shuffled b') {ds : List Declaration}
    (hds : b.Declares ds) : ∃ ds', b'.Declares ds' ∧ ds.Perm ds' := by
  cases hds with
  | mk hheading hclass hmembers =>
      obtain ⟨members', hmembers', hperm⟩ := List.perm_comp_forall₂ h.members.symm hmembers
      exact ⟨_, .mk (h.heading ▸ hheading) hclass hmembers', hperm.symm.cons _⟩

/-- Blocks that are shuffled one by one declare the same, each in another order. -/
theorem exists_declares_of_shuffled {blocks middle : List Block}
    (h : List.Forall₂ Block.Shuffled blocks middle) {parts : List (List Declaration)}
    (hparts : List.Forall₂ Block.Declares blocks parts) :
    ∃ parts', List.Forall₂ Block.Declares middle parts' ∧
      parts.flatten.Perm parts'.flatten := by
  induction h generalizing parts with
  | nil => exact ⟨parts, hparts, .refl _⟩
  | cons hb _ ih =>
      obtain ⟨part, rest, hpart, hrest, rfl⟩ := List.forall₂_cons_left_iff.mp hparts
      obtain ⟨part', hpart', hsame⟩ := hb.exists_declares hpart
      obtain ⟨rest', hrest', hsames⟩ := ih hrest
      exact ⟨part' :: rest', .cons hpart' hrest', hsame.append hsames⟩

/-- Rearranged blocks declare the same in another order. -/
theorem Rearranged.exists_declares {blocks blocks' : List Block} (h : Rearranged blocks blocks')
    {parts : List (List Declaration)} (hparts : List.Forall₂ Block.Declares blocks parts) :
    ∃ parts', List.Forall₂ Block.Declares blocks' parts' ∧
      parts.flatten.Perm parts'.flatten := by
  obtain ⟨middle, hshuffled, hperm⟩ := h
  obtain ⟨parts', hparts', hinside⟩ := exists_declares_of_shuffled hshuffled hparts
  obtain ⟨parts'', hparts'', hmoved⟩ := List.perm_comp_forall₂ hperm.symm hparts'
  exact ⟨parts'', hparts'', hinside.trans hmoved.symm.flatten⟩

/-- Whatever lines spell is spelled in another order by rearranged lines. -/
theorem Rearranged.exists_spells {blocks blocks' : List Block} (h : Rearranged blocks blocks')
    {lines lines' : List Line} (hlines : lines.map Line.text = blocks.flatMap Block.lines)
    (hlines' : lines'.map Line.text = blocks'.flatMap Block.lines) {ds : List Declaration}
    (hspells : Spells none lines ds) : ∃ ds', Spells none lines' ds' ∧ ds.Perm ds' := by
  obtain ⟨parts, hparts, rfl⟩ := (spells_blocks_iff hlines none ds).mp hspells
  obtain ⟨parts', hparts', hperm⟩ := h.exists_declares hparts
  exact ⟨_, (spells_blocks_iff hlines' none _).mpr ⟨parts', hparts', rfl⟩, hperm⟩

/-! ## Files in another order -/

/-- Readable names are counterparts, and declare nothing twice. -/
theorem distinct_readable (names : MemberNames) {ds : List Declaration}
    (h : Declaration.Distinct ds) : Declaration.Distinct (ds.map names.readable) := by
  intro kind
  rw [map_key_readable]
  exact h kind

/-- **Blocks can stand in any order**: where no class, no field and no method is declared twice, the
blocks of a TSRG file can be rearranged, and the members in each of them. All orders are refused, or
all are read into the same entries. -/
theorem read_rearranged (names : MemberNames) {file file' : Bytes} {blocks blocks' : List Block}
    (hfile : Line.texts file = blocks.flatMap Block.lines)
    (hfile' : Line.texts file' = blocks'.flatMap Block.lines) (h : Rearranged blocks blocks')
    (hdistinct : ∀ ds, Spells none (Line.ofBytes file) ds → Declaration.Distinct ds) :
    Mappings.SameOutcome (read names file) (read names file') := by
  have hread (file : Bytes) (m : Mappings) : read names file = .ok m ↔
      ∃ ds, declarations names (Line.ofBytes file) = .ok ds ∧
        Mappings.ofDeclarations ds = .ok m := by
    simp only [read, ofLines, Traversal.bind_eq_ok_iff, Traversal.mapError_eq_ok_iff]
  refine Mappings.sameOutcome_of_perm (hread file) (hread file') ?there ?back ?distinct
  all_goals simp only [declarations_eq_ok_iff]
  case there =>
    rintro _ ⟨ds, hspells, rfl⟩
    obtain ⟨ds', hspells', hperm⟩ := h.exists_spells hfile hfile' hspells
    exact ⟨_, ⟨ds', hspells', rfl⟩, hperm.map _⟩
  case back =>
    rintro _ ⟨ds', hspells', rfl⟩
    obtain ⟨ds, hspells, hperm⟩ := h.symm.exists_spells hfile' hfile hspells'
    exact ⟨_, ⟨ds, hspells, rfl⟩, hperm.symm.map _⟩
  case distinct =>
    rintro _ ⟨ds, hspells, rfl⟩
    exact distinct_readable names (hdistinct ds hspells)

/-- A class with a method that mentions another class. -/
def mentioning : Block where
  heading := .ok "a A"
  members := [.ok "\tm (Lc;)La; n", .ok "\tf x", .ok "\tg y"]

/-- The same class with the method after the fields. -/
def mentioningLast : Block where
  heading := .ok "a A"
  members := [.ok "\tf x", .ok "\tg y", .ok "\tm (Lc;)La; n"]

/-- The class that is mentioned. -/
def mentioned : Block where
  heading := .ok "c C"
  members := [.ok "\tf z"]

/-- A class may be declared before or after the descriptors that mention it. -/
theorem read_rearranged_mentioned :
    Mappings.SameOutcome
      (read { fields := .ofPairs [("x", "ticks")] }
        (Utf8.encode "a A\n\tm (Lc;)La; n\n\tf x\n\tg y\nc C\n\tf z\n"))
      (read { fields := .ofPairs [("x", "ticks")] }
        (Utf8.encode "c C\n\tf z\na A\n\tf x\n\tg y\n\tm (Lc;)La; n")) := by
  have hmembers : mentioning.Shuffled mentioningLast := ⟨rfl, by decide⟩
  have hblocks : Rearranged [mentioning, mentioned] [mentioned, mentioningLast] :=
    ⟨_, .cons hmembers (.cons ⟨rfl, .refl _⟩ .nil), .swap ..⟩
  refine read_rearranged _ (by decide) (by decide) hblocks fun ds hspells => ?_
  rw [spells_iff] at hspells
  have hdeclared : ds = [.classNamed ⟨"a", "A"⟩, .method ⟨"a", "A"⟩ "m" "(Lc;)La;" "n",
      .field ⟨"a", "A"⟩ "f" "x", .field ⟨"a", "A"⟩ "g" "y", .classNamed ⟨"c", "C"⟩,
      .field ⟨"c", "C"⟩ "f" "z"] := Except.ok.inj (hspells.symm.trans (by decide))
  subst hdeclared
  intro kind
  cases kind <;> decide

/-- Of a field that is declared twice, the later counterpart counts. -/
example : (read {} (Utf8.encode "a A\n\tf x\n\tf y\n")).map (fun m => m.fields.get? "a:f")
    = .ok (some "A:y") := by decide

end Namebridge.Tsrg
