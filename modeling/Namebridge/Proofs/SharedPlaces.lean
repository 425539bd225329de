import Namebridge.Proofs.CachedFiles

/-!
# Files of two configurations in one cache

Whatever is downloaded for one configuration can be found by another one, because a cache knows
nothing of configurations but the last parts of URLs. What that means for two of them is
`SharedPlaces`: the file of a URL is kept whole at the place that its last part gives, and so are
those of all URLs that end alike. Files of different kinds are always kept apart, and archives are
kept apart if nothing in what a configuration says hides where they are from.
-/

namespace Namebridge.Cache

open Config

variable {directory path : Path} {url name other : String} {w w' : World}

/-! ## What stays apart -/

/-- Files of different kinds end in different letters. -/
theorem place?_ne_of_ne (directory : Path) (c c' : Config) {r r' : Resource} (hr : r ≠ r') :
    place? directory (r.url c) ≠ place? directory (r'.url c') := by
  rw [Ne, place?_eq_iff]
  obtain ⟨last, hname, hend⟩ := Resource.exists_fileName? c r
  obtain ⟨last', hname', hend'⟩ := Resource.exists_fileName? c' r'
  rw [hname, hname', Option.some.injEq]
  rintro rfl
  rw [hend, Option.some.injEq] at hend'
  cases r <;> cases r' <;> first | exact hr rfl | exact absurd hend' (by decide)

/-- What is fetched changes nothing at another place: nothing is lost there, and no file is found
there that was not there before. -/
structure LeavesPlace (path : Path) (w w' : World) : Prop where
  kept : ∀ s, w.files.standingAt? path = some s → w'.files.standingAt? path = some s
  found : ∀ place content, w'.files.resolve path = .ok place →
    w'.files.standing? place = some (.file content) →
      w.files.standing? place = some (.file content)

theorem leavesPlace_of_fetch (hname : Path.Plain name) (hother : Path.Plain other)
    (hne : name ≠ other) (hplace : place? directory url = some (directory.join name))
    (h : Runs (fetch directory url : ExceptT Error InWorld Path) w path w') :
    LeavesPlace (directory.join other) w w' := by
  have hfetched := fetched_of_runs h
  refine ⟨fun s hs => hfetched.keepsEntries other s hother hs, fun place content hres hfile => ?_⟩
  have hwritten : ¬ Unwritten (.ok path) := by
    rintro ⟨_, _, _, _, herror⟩
    cases herror
  rcases hfetched.file hwritten hfile with hold | ⟨path', hplace', -, -, hres'⟩
  · exact hold
  · -- it would be the file of this URL, but that is at its own place
    rw [hplace, Option.some.injEq] at hplace'
    subst hplace'
    rw [← Path.below_singleton] at hres hres'
    exact absurd rfl (FileSystem.ne_of_resolve_below (Path.inner_singleton hother)
      (Path.inner_singleton hname) (by simpa using hne.symm) hres hres')

/-! ## Two configurations -/

/-- Where the files of two configurations are kept in one cache directory. -/
structure SharedPlaces (directory : Path) (c c' : Config) : Prop where
  /-- A file is named after the last part of its URL. -/
  placed : ∀ r : Resource, ∃ start name, r.url c = start ++ "/" ++ name ∧ name ≠ "" ∧
    '/' ∉ name.toList ∧ place? directory (r.url c) = some (directory.join name)
  /-- Fetching a file ends at one of the steps that it is made of. If a body could not be written,
  nothing is said of what is left of it. -/
  steps : ∀ (r : Resource) w,
    ¬ Unwritten (outcome (fetch directory (r.url c) : ExceptT Error InWorld Path) w).1 →
      Fetched directory (r.url c) w
        (outcome (fetch directory (r.url c) : ExceptT Error InWorld Path) w)
  /-- No other file is returned for a URL than the one in its place. -/
  fetched : ∀ (r : Resource) w path w',
    Runs (fetch directory (r.url c) : ExceptT Error InWorld Path) w path w' →
      place? directory (r.url c) = some path
  /-- A file that was not there is the whole body of a successful answer to its URL. -/
  stored : ∀ (r : Resource) w path w',
    Runs (fetch directory (r.url c) : ExceptT Error InWorld Path) w path w' →
      w.files.pathExists path = false → w'.requests = w.requests ++ [r.url c] ∧
        ∃ status content, w.network w.requests (r.url c) = .answered status (some content) ∧
          200 ≤ status ∧ status < 300 ∧ w'.files.standingAt? path = some (.file content)
  /-- A file in its place is returned, for whatever configuration it was put there, and nothing is
  requested or changed. -/
  cached : ∀ (r : Resource) w path, place? directory (r.url c) = some path →
    w.files.pathExists path = true →
      Runs (fetch directory (r.url c) : ExceptT Error InWorld Path) w path
        (w.reported [.cacheHit path.text (r.url c)])
  /-- Files of different kinds are kept apart, whatever the configurations say. -/
  kinds_apart : ∀ r r' : Resource, r ≠ r' →
    place? directory (r.url c) ≠ place? directory (r'.url c')
  /-- Archives with different URLs are kept apart, if what is filled in is plain. -/
  urls_apart : ∀ r : Resource, r ≠ .tsrg → r.Plain c → r.Plain c' → r.url c ≠ r.url c' →
    place? directory (r.url c) ≠ place? directory (r.url c')
  /-- Files that are kept apart are never taken for each other: to fetch one of them changes nothing
  at the place of the other. -/
  untouched : ∀ (r r' : Resource) path', place? directory (r'.url c') = some path' →
    place? directory (r.url c) ≠ place? directory (r'.url c') → ∀ w path w',
      Runs (fetch directory (r.url c) : ExceptT Error InWorld Path) w path w' →
        LeavesPlace path' w w'

/-- **Places in the cache**: a file is kept whole under the last part of its URL, and is found there
for every configuration that asks for it. Files of different kinds never share a place. Archives with
different URLs share none, unless a slash or the end of an MCP channel within one hides where they
are from. -/
theorem sharedPlaces (directory : Path) (c c' : Config) : SharedPlaces directory c c' := by
  refine ⟨?placed, fun r w _ => Cache.fetched directory (r.url c) w,
    fun r w path w' h => place?_of_fetch h, ?stored, ?cached,
    fun r r' hr => place?_ne_of_ne directory c c' hr, ?urls_apart, ?untouched⟩
  case placed =>
    intro r
    obtain ⟨name, hname, -⟩ := Resource.exists_fileName? c r
    obtain ⟨hne, hslash, start, hurl⟩ := (fileName?_eq_some_iff _ _).mp hname
    exact ⟨start, name, hurl, hne, hslash, congrArg (Option.map directory.join) hname⟩
  case stored =>
    intro r w path w' h hnew
    obtain ⟨-, hrequests, content, hbody, hstands⟩ := body_of_runs h hnew
    obtain ⟨status, hanswer, hsuccess⟩ := (body_eq_ok_iff _ _ _).mp hbody
    exact ⟨hrequests, status, content, hanswer, hsuccess.1, hsuccess.2, hstands⟩
  case cached =>
    intro r w path hplace hexists
    rw [Runs, outcome_fetch hplace, if_pos hexists]
  case urls_apart =>
    intro r hr hplain hplain' hurl hplace
    rw [place?_eq_iff, Resource.fileName?_of_plain hplain, Resource.fileName?_of_plain hplain',
      Option.some.injEq] at hplace
    exact hurl (Resource.url_eq_of_name_eq hr hplain hplain' hplace)
  case untouched =>
    intro r r' path' hpath' hne w path w' h
    obtain ⟨name, hname, hplace⟩ := Bridging.exists_entry directory c r
    obtain ⟨name', hname', hplace'⟩ := Bridging.exists_entry directory c' r'
    rw [hplace', Option.some.injEq] at hpath'
    subst hpath'
    refine leavesPlace_of_fetch hname hname' (fun heq => hne ?_) hplace h
    rw [hplace, hplace', heq]

/-- The same for other MCP names. -/
def withMcpNames (channel build : String) : Config :=
  { someConfig with mcpChannel := channel, mcpBuild := build }

/-- The same for another game version of yarn. -/
def withYarn (version : String) : Config := { someConfig with yarnGameVersion := version }

/-- A network that answers the first request with a zero, the next one with a one, and so on. -/
def counting : Network := fun earlier _ => .answered 200 (some [UInt8.ofNat earlier.length])

/-- The archive of one version is returned for another one that ends alike. -/
theorem fetch_of_other_version : ∃ w w',
    Runs (fetch ⟨"cache"⟩ (withYarn "a/1").yarnUrl : ExceptT Error InWorld Path)
      { network := counting } ⟨"cache/1+build.9.jar"⟩ w ∧
    Runs (fetch ⟨"cache"⟩ (withYarn "b/1").yarnUrl : ExceptT Error InWorld Path) w
      ⟨"cache/1+build.9.jar"⟩ w' ∧
    w'.requests = [(withYarn "a/1").yarnUrl] ∧
    w'.files.openFile ⟨"cache/1+build.9.jar"⟩ = .ok (.ok [0]) := by
  have hb : (withYarn "b/1").yarnUrl
      = "http://maven.modmuss50.me/net/fabricmc/yarn/b/1+build.9/yarn-b" ++ "/"
        ++ "1+build.9.jar" := by decide
  have hplace : place? ⟨"cache"⟩ (withYarn "b/1").yarnUrl = some ⟨"cache/1+build.9.jar"⟩ := by
    rw [place?, fileName?_of_eq hb (by decide) (by decide)]
    decide
  let ended := outcome (fetch ⟨"cache"⟩ (withYarn "a/1").yarnUrl : ExceptT Error InWorld Path)
    { network := counting }
  have hfirst : ended.1.toOption = some ⟨"cache/1+build.9.jar"⟩ := by decide +kernel
  have hrequests : ended.2.requests = [(withYarn "a/1").yarnUrl] := by decide +kernel
  have hfile : ended.2.files.openFile ⟨"cache/1+build.9.jar"⟩ = .ok (.ok [0]) := by
    decide +kernel
  have hexists : ended.2.files.pathExists ⟨"cache/1+build.9.jar"⟩ = true := by decide +kernel
  exact ⟨ended.2, _, runs_of_toOption hfirst, (outcome_fetch hplace _).trans (if_pos hexists),
    hrequests, hfile⟩

/-- Different URLs share a place if slashes in a configuration, or the end of an MCP channel within
one, hide where archives are from. What was downloaded for one of them is returned for the other. -/
theorem places_not_injective :
    ((withYarn "a/1").yarnUrl ≠ (withYarn "b/1").yarnUrl ∧ ∃ w w',
        Runs (fetch ⟨"cache"⟩ (withYarn "a/1").yarnUrl : ExceptT Error InWorld Path)
          { network := counting } ⟨"cache/1+build.9.jar"⟩ w ∧
        Runs (fetch ⟨"cache"⟩ (withYarn "b/1").yarnUrl : ExceptT Error InWorld Path) w
          ⟨"cache/1+build.9.jar"⟩ w' ∧
        w'.requests = [(withYarn "a/1").yarnUrl] ∧
        w'.files.openFile ⟨"cache/1+build.9.jar"⟩ = .ok (.ok [0])) ∧
    ((withMcpNames "a" "b_nodoc-c").mcpNamesUrl ≠ (withMcpNames "a_nodoc-b" "c").mcpNamesUrl ∧
      place? ⟨"cache"⟩ (withMcpNames "a" "b_nodoc-c").mcpNamesUrl
        = place? ⟨"cache"⟩ (withMcpNames "a_nodoc-b" "c").mcpNamesUrl) ∧
    ((withMcpNames "a" "x/1").mcpNamesUrl ≠ (withMcpNames "b" "x/1").mcpNamesUrl ∧
      place? ⟨"cache"⟩ (withMcpNames "a" "x/1").mcpNamesUrl
        = place? ⟨"cache"⟩ (withMcpNames "b" "x/1").mcpNamesUrl) := by
  refine ⟨⟨by decide, ?yarn⟩, ⟨by decide, ?word⟩, ⟨by decide, ?slash⟩⟩
  case yarn => exact fetch_of_other_version
  case word =>
    have hname (channel build : String)
        (h : '/' ∉ (Resource.mcpNames.name (withMcpNames channel build)).toList) :
        fileName? (withMcpNames channel build).mcpNamesUrl
          = some (Resource.mcpNames.name (withMcpNames channel build)) := by
      have hfile := Resource.fileName?_of_no_slash h
      exact hfile
    rw [place?_eq_iff, hname _ _ (by decide), hname _ _ (by decide), Option.some.injEq]
    decide
  case slash =>
    have ha : (withMcpNames "a" "x/1").mcpNamesUrl
        = "http://export.mcpbot.bspk.rs/mcp_a_nodoc/x/1-1.14.3/mcp_a_nodoc-x" ++ "/"
          ++ "1-1.14.3.zip" := by decide
    have hb : (withMcpNames "b" "x/1").mcpNamesUrl
        = "http://export.mcpbot.bspk.rs/mcp_b_nodoc/x/1-1.14.3/mcp_b_nodoc-x" ++ "/"
          ++ "1-1.14.3.zip" := by decide
    rw [place?_eq_iff, fileName?_of_eq ha (by decide) (by decide),
      fileName?_of_eq hb (by decide) (by decide)]

end Namebridge.Cache
