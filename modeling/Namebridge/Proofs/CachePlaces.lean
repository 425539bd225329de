import Namebridge.Config
import Namebridge.Proofs.Cut
import Namebridge.Run.Cache

/-!
# Where downloaded files are kept

A downloaded file is kept under the last part of its URL, and a file that is there is not downloaded
again. So two URLs share a file exactly if they end alike (`Cache.place?_eq_iff`). The URLs of a
configuration end in a name that tells what was filled in, if nothing of that has a slash and the MCP
channel not the word that ends it (`Config.Resource.url_eq_of_name_eq`).
-/

namespace Namebridge

/-! ## Texts and paths -/

namespace Text

variable {b : String}

theorem getLast?_append_of (a : String) {c : Char} (h : b.toList.getLast? = some c) :
    (a ++ b).toList.getLast? = some c := by
  rw [String.toList_append, List.getLast?_append, h, Option.some_or]

end Text

theorem Path.join_inj {directory : Path} {a b : String} (ha : '/' ∉ a.toList)
    (hb : '/' ∉ b.toList) : directory.join a = directory.join b ↔ a = b := by
  have hheadA : a.toList.head? ≠ some '/' := fun h => ha (List.mem_of_head? h)
  have hheadB : b.toList.head? ≠ some '/' := fun h => hb (List.mem_of_head? h)
  rw [join, join, if_neg hheadA, if_neg hheadB]
  split <;> simp

namespace Cache

variable {directory : Path} {url name : String}

/-! ## The name of a file -/

/-- The name of a file is what follows the last slash of its URL. -/
theorem fileName?_eq_some_iff (url name : String) :
    fileName? url = some name ↔
      name ≠ "" ∧ '/' ∉ name.toList ∧ ∃ start, url = start ++ "/" ++ name := by
  rw [fileName?]
  constructor
  · intro h
    split at h
    · cases h
    · cases h
    · rename_i start last hne hcut
      cases h
      obtain ⟨hurl, hslash⟩ := (Text.cutLast?_eq_some_iff url).mp hcut
      refine ⟨?_, hslash, start, hurl⟩
      rintro rfl
      exact hne rfl
  · intro h
    obtain ⟨hne, hslash, start, rfl⟩ := h
    have hcut : Text.cutLast? '/' (start ++ "/" ++ name) = some (start, name) :=
      Text.cutLast?_append start hslash
    rw [hcut]
    split
    · rename_i h
      cases h
    · rename_i h
      cases h
      exact absurd rfl hne
    · rename_i h
      cases h
      rfl

theorem fileName?_of_eq {start : String} (h : url = start ++ "/" ++ name) (hne : name ≠ "")
    (hslash : '/' ∉ name.toList) : fileName? url = some name :=
  (fileName?_eq_some_iff url name).mpr ⟨hne, hslash, start, h⟩

/-- A URL that does not end in a slash gives its file a name with the same end. -/
theorem exists_fileName? (start : String) {c : Char} (hlast : name.toList.getLast? = some c)
    (hc : c ≠ '/') :
    ∃ last, fileName? (start ++ "/" ++ name) = some last ∧ last.toList.getLast? = some c := by
  by_cases hslash : '/' ∈ name.toList
  · obtain ⟨middle, last, rfl, hnone⟩ := Text.exists_last hslash
    have hsplit : start ++ "/" ++ (middle ++ String.singleton '/' ++ last)
        = start ++ "/" ++ middle ++ "/" ++ last := by
      rw [← String.append_assoc, ← String.append_assoc]
      rfl
    rw [String.toList_append, List.getLast?_append] at hlast
    cases hend : last.toList.getLast? with
    | none =>
        -- with nothing after the last slash the text would end in it
        rw [hend, Option.none_or, String.toList_append, String.toList_singleton,
          List.getLast?_concat, Option.some.injEq] at hlast
        exact absurd hlast.symm hc
    | some d =>
        rw [hend, Option.some_or] at hlast
        have hne : last ≠ "" := by
          rintro rfl
          cases hend
        exact ⟨last, fileName?_of_eq hsplit hne hnone, hend.trans hlast⟩
  · have hne : name ≠ "" := by
      rintro rfl
      cases hlast
    exact ⟨name, fileName?_of_eq rfl hne hslash, hlast⟩

/-- Two URLs share a place exactly if they give their files one name. -/
theorem place?_eq_iff (directory : Path) (url url' : String) :
    place? directory url = place? directory url' ↔ fileName? url = fileName? url' := by
  rw [place?, place?]
  cases hname : fileName? url with
  | none => cases fileName? url' <;> simp
  | some name =>
      cases hname' : fileName? url' with
      | none => simp
      | some name' =>
          obtain ⟨-, hslash, -⟩ := (fileName?_eq_some_iff url name).mp hname
          obtain ⟨-, hslash', -⟩ := (fileName?_eq_some_iff url' name').mp hname'
          simpa using Path.join_inj hslash hslash'

end Cache

/-! ## The files of a configuration -/

namespace Config

/-- The files that a configuration asks for. -/
inductive Resource where
  | mcpNames
  | tsrg
  | yarn
deriving DecidableEq

namespace Resource

def url (c : Config) : Resource → String
  | mcpNames => c.mcpNamesUrl
  | tsrg => c.tsrgUrl
  | yarn => c.yarnUrl

/-- What is before the last slash of the URL, if nothing that is filled in has one. -/
def start (c : Config) : Resource → String
  | mcpNames => "http://export.mcpbot.bspk.rs/mcp_" ++ c.mcpChannel ++ "_nodoc/"
      ++ (c.mcpBuild ++ "-" ++ c.mcpGameVersion)
  | tsrg => "https://raw.githubusercontent.com/MinecraftForge/MCPConfig/master/versions/"
      ++ c.yarnGameVersion
  | yarn => "http://maven.modmuss50.me/net/fabricmc/yarn/"
      ++ (c.yarnGameVersion ++ "+build." ++ c.yarnBuild)

/-- What is after the last slash of the URL, if nothing that is filled in has one. -/
def name (c : Config) : Resource → String
  | mcpNames => "mcp_" ++ c.mcpChannel ++ "_nodoc-" ++ (c.mcpBuild ++ "-" ++ c.mcpGameVersion)
      ++ ".zip"
  | tsrg => "joined.tsrg"
  | yarn => "yarn-" ++ (c.yarnGameVersion ++ "+build." ++ c.yarnBuild) ++ ".jar"

/-- The last letter of the URL. -/
def ending : Resource → Char
  | mcpNames => 'p'
  | tsrg => 'g'
  | yarn => 'r'

/-- The word after the MCP channel. -/
def channelEnd : String := "_nodoc-"

/-- What is filled in has no slash, and an MCP channel not the word that ends it. -/
def Plain (c : Config) : Resource → Prop
  | mcpNames => '/' ∉ c.mcpChannel.toList ∧ ¬ channelEnd.toList <:+: c.mcpChannel.toList ∧
      '/' ∉ c.mcpBuild.toList ∧ '/' ∉ c.mcpGameVersion.toList
  | tsrg => True
  | yarn => '/' ∉ c.yarnGameVersion.toList ∧ '/' ∉ c.yarnBuild.toList

variable {c c' : Config} {r : Resource}

theorem url_eq (c : Config) (r : Resource) : r.url c = r.start c ++ "/" ++ r.name c := by
  cases r with
  | mcpNames =>
      unfold url start name mcpNamesUrl
      simp only [String.append_assoc]
      rfl
  | tsrg =>
      have hfile : "/joined.tsrg" = "/" ++ "joined.tsrg" := by decide
      unfold url start name tsrgUrl
      rw [hfile]
      simp only [String.append_assoc]
      rfl
  | yarn =>
      unfold url start name yarnUrl
      simp only [String.append_assoc]
      rfl

theorem getLast?_name (c : Config) (r : Resource) :
    (r.name c).toList.getLast? = some r.ending := by
  cases r with
  | mcpNames => exact Text.getLast?_append_of _ (by decide)
  | tsrg =>
      show "joined.tsrg".toList.getLast? = some 'g'
      decide
  | yarn => exact Text.getLast?_append_of _ (by decide)

theorem no_slash_name (h : r.Plain c) : '/' ∉ (r.name c).toList := by
  cases r with
  | mcpNames =>
      obtain ⟨hchannel, -, hbuild, hversion⟩ := h
      unfold name
      simp only [String.toList_append, List.mem_append, not_or]
      exact ⟨⟨⟨⟨by decide, hchannel⟩, by decide⟩, ⟨hbuild, by decide⟩, hversion⟩, by decide⟩
  | tsrg =>
      show '/' ∉ "joined.tsrg".toList
      decide
  | yarn =>
      obtain ⟨hversion, hbuild⟩ := h
      unfold name
      simp only [String.toList_append, List.mem_append, not_or]
      exact ⟨⟨by decide, ⟨hversion, by decide⟩, hbuild⟩, by decide⟩

/-- The channel in the name of the MCP archive goes up to the first word that can end it. -/
theorem channel_and_build_of_name (h : mcpNames.Plain c) (h' : mcpNames.Plain c')
    (hname : mcpNames.name c = mcpNames.name c') :
    c.mcpChannel = c'.mcpChannel ∧
      c.mcpBuild ++ "-" ++ c.mcpGameVersion = c'.mcpBuild ++ "-" ++ c'.mcpGameVersion := by
  have hword : channelEnd.toList = '_' :: ['n', 'o', 'd', 'o', 'c', '-'] := by decide
  have hparts (c : Config) : mcpNames.name c
      = "mcp_" ++ (c.mcpChannel ++ channelEnd ++ (c.mcpBuild ++ "-" ++ c.mcpGameVersion ++ ".zip")) := by
    unfold name channelEnd
    simp only [String.append_assoc]
  rw [hparts c, hparts c', String.append_right_inj] at hname
  obtain ⟨hchannel, hbuild⟩ := Text.append_word_inj hword (by decide) h.2.1 h'.2.1 hname
  rw [String.append_left_inj] at hbuild
  exact ⟨hchannel, hbuild⟩

theorem url_eq_of_name_eq (hr : r ≠ .tsrg) (h : r.Plain c) (h' : r.Plain c')
    (hname : r.name c = r.name c') : r.url c = r.url c' := by
  rw [url_eq, url_eq, hname]
  cases r with
  | mcpNames =>
      obtain ⟨hchannel, hbuild⟩ := channel_and_build_of_name h h' hname
      unfold start
      rw [hchannel, hbuild]
  | tsrg => exact absurd rfl hr
  | yarn =>
      unfold name at hname
      rw [String.append_left_inj, String.append_right_inj] at hname
      unfold start
      rw [hname]

/-- The file of a configuration has a name, which ends as the URL does. -/
theorem exists_fileName? (c : Config) (r : Resource) :
    ∃ last, Cache.fileName? (r.url c) = some last ∧ last.toList.getLast? = some r.ending := by
  rw [url_eq]
  exact Cache.exists_fileName? (r.start c) (getLast?_name c r) (by cases r <;> decide)

theorem fileName?_of_no_slash (h : '/' ∉ (r.name c).toList) :
    Cache.fileName? (r.url c) = some (r.name c) := by
  refine Cache.fileName?_of_eq (url_eq c r) (fun hempty => ?_) h
  have hlast := getLast?_name c r
  rw [hempty] at hlast
  cases hlast

theorem fileName?_of_plain (h : r.Plain c) : Cache.fileName? (r.url c) = some (r.name c) :=
  fileName?_of_no_slash (no_slash_name h)

end Resource

end Config

/-- A configuration for one game version. -/
def Cache.someConfig : Config :=
  { mcpGameVersion := "1.14.3", mcpChannel := "snapshot", mcpBuild := "20190719"
    yarnGameVersion := "1.14.4", yarnBuild := "9", mcpSourceCode := ⟨"a"⟩, yarnSourceCode := ⟨"b"⟩ }

end Namebridge
