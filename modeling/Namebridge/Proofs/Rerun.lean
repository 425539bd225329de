import Namebridge.Proofs.CachePlaces
import Namebridge.Proofs.Download
import Namebridge.Proofs.ListingFile

/-!
# Running again

After a successful run all that it needs is in its cache directory, under names of which no listing
is written, so that the same run succeeds again with the same result, and without any network.

What carries this is that a run loses no entry of the cache directory (`KeepsEntries`) and, as soon
as it has succeeded once, depends on nothing but these entries and the readers that there are
(`Repeatable`). A download is made only where no entry is, so that it cannot replace one. The
listings are two steps below the cache directory, and writing them again finds each with the content
that it is to have.
-/

namespace Namebridge

/-! ## Entries that stay -/

/-- What stands in a directory under a name of its own also stands there in other files. -/
def KeepsEntries (directory : Path) (fs fs' : FileSystem) : Prop :=
  ∀ name s, Path.Plain name → fs.standingAt? (directory.join name) = some s →
    fs'.standingAt? (directory.join name) = some s

namespace KeepsEntries

variable {directory : Path} {fs fs' fs'' : FileSystem} {name dir file : String} {content : Bytes}

theorem refl (directory : Path) (fs : FileSystem) : KeepsEntries directory fs fs :=
  fun _ _ _ h => h

theorem trans (h : KeepsEntries directory fs fs') (h' : KeepsEntries directory fs' fs'') :
    KeepsEntries directory fs fs'' :=
  fun name s hname hs => h' name s hname (h name s hname hs)

theorem of_keeps (h : FileSystem.Keeps fs fs') : KeepsEntries directory fs fs' :=
  fun _ _ _ hs => h.standingAt? hs

/-- A file in a directory below is no entry. -/
theorem of_writeFile_below (hdir : Path.Plain dir) (hfile : Path.Plain file)
    (h : fs.writeFile ((directory.join dir).join file) content = .ok fs') :
    KeepsEntries directory fs fs' := by
  intro name s hname hs
  rw [← Path.below_pair] at h
  rw [← Path.below_singleton] at hs ⊢
  exact FileSystem.standingAt?_writeFile_of_ne (Path.inner_pair hdir hfile)
    (Path.inner_singleton hname) (by simp) h hs

end KeepsEntries

/-! ## Runs that can be repeated -/

section

variable {ε ε' α β : Type} {directory : Path} {name : String} {x : ExceptT ε InWorld α}

/-- A run loses no entry of a directory and no reader, and once it has succeeded, it does so again,
with nothing but reports, as long as the entries and the readers are there. -/
def Repeatable (directory : Path) (x : ExceptT ε InWorld α) : Prop :=
  ∀ w a w', Runs x w a w' → KeepsEntries directory w.files w'.files ∧ w'.readers = w.readers ∧
    ∀ fs, KeepsEntries directory w'.files fs → OnlyReports x w.readers fs a

theorem repeatable_ofExcept (r : Except ε α) :
    Repeatable directory (MonadExcept.ofExcept r : ExceptT ε InWorld α) := by
  intro w a w' h
  obtain ⟨hr, rfl⟩ := (runs_ofExcept_iff _ _ _ _).mp h
  exact ⟨.refl _ _, rfl, fun fs _ =>
    onlyReports_of_runs fun w _ _ => (runs_ofExcept_iff _ _ _ _).mpr ⟨hr, rfl⟩⟩

theorem repeatable_pure (a : α) : Repeatable directory (pure a : ExceptT ε InWorld α) :=
  repeatable_ofExcept (.ok a)

theorem repeatable_readers : Repeatable directory (Host.readers : ExceptT ε InWorld Readers) := by
  intro w a w' h
  obtain ⟨rfl, rfl⟩ := (runs_readers_iff _ _ _).mp h
  exact ⟨.refl _ _, rfl, fun fs _ =>
    onlyReports_of_runs fun again hreaders _ => (runs_readers_iff _ _ _).mpr ⟨hreaders, rfl⟩⟩

theorem repeatable_announce (r : Reporting α) :
    Repeatable directory (Host.announce r : ExceptT ε InWorld α) := by
  intro w a w' h
  obtain ⟨ha, rfl⟩ := (runs_announce_iff _ _ _ _).mp h
  exact ⟨.refl _ _, rfl, fun fs _ w _ _ => ⟨r.events, (runs_announce_iff _ _ _ _).mpr ⟨ha, rfl⟩⟩⟩

theorem Repeatable.adapt (hx : Repeatable directory x) (f : ε → ε') :
    Repeatable directory (ExceptT.adapt f x) := by
  intro w a w' h
  obtain ⟨hkeeps, hreaders, hagain⟩ := hx w a w' ((runs_adapt_iff _ _ _ _ _).mp h)
  exact ⟨hkeeps, hreaders, fun fs hfs => (hagain fs hfs).adapt f⟩

theorem Repeatable.bind {f : α → ExceptT ε InWorld β} (hx : Repeatable directory x)
    (hf : ∀ w a w', Runs x w a w' → Repeatable directory (f a)) :
    Repeatable directory (x >>= f) := by
  intro w b w'' h
  obtain ⟨a, w', ha, hb⟩ := (runs_bind_iff _ _ _ _ _).mp h
  obtain ⟨hkeeps, hreaders, hagain⟩ := hx w a w' ha
  obtain ⟨hkeeps', hreaders', hagain'⟩ := hf w a w' ha w' b w'' hb
  refine ⟨hkeeps.trans hkeeps', hreaders'.trans hreaders, fun fs hfs => ?_⟩
  exact (hagain fs (hkeeps'.trans hfs)).bind (hreaders ▸ hagain' fs hfs)

/-- What was read from an entry can be read again. -/
theorem repeatable_openFile_bind (hname : Path.Plain name)
    {f : Except OsError (Except OsError Bytes) → ExceptT ε InWorld β}
    (herror : ∀ error w b w', ¬ Runs (f (.error error)) w b w')
    (hok : ∀ contents, Repeatable directory (f (.ok contents))) :
    Repeatable directory (Host.openFile (directory.join name) >>= f) := by
  intro w b w' h
  obtain ⟨r, _, hr, hb⟩ := (runs_bind_iff _ _ _ _ _).mp h
  obtain ⟨hopen, rfl⟩ := (runs_openFile_iff _ _ _ _).mp hr
  cases r with
  | error error => exact absurd hb (herror error w b w')
  | ok contents =>
      obtain ⟨hkeeps, hreaders, hagain⟩ := hok contents w b w' hb
      refine ⟨hkeeps, hreaders, fun fs hfs => OnlyReports.bind
        (onlyReports_of_runs fun again _ hagain => ?_) (hagain fs hfs)⟩
      obtain ⟨s, hs, hcontents⟩ := (FileSystem.openFile_eq_ok_iff _ _ _).mp hopen
      refine (runs_openFile_iff _ _ _ _).mpr ⟨?_, rfl⟩
      rw [hagain]
      exact (FileSystem.openFile_eq_ok_iff _ _ _).mpr
        ⟨s, hfs name s hname (hkeeps name s hname hs), hcontents⟩

end

/-! ## Files of the cache -/

namespace Cache

open FileSystem

variable {directory path : Path} {url name : String} {w w' : World} {result : Except Error Path}

/-- A file is only written where its name leads one step down from the directory. -/
theorem plain_of_writeFile {fs fs' : FileSystem} {content : Bytes}
    (hplace : place? directory url = some path) (h : fs.writeFile path content = .ok fs') :
    ∃ name, Path.Plain name ∧ path = directory.join name := by
  obtain ⟨name, hname, rfl⟩ := Option.map_eq_some_iff.mp hplace
  obtain ⟨-, hslash, -⟩ := (fileName?_eq_some_iff url name).mp hname
  obtain ⟨names, last, hnames, hlast⟩ := exists_names_of_writeFile h
  have hfields := eq_of_namesOf hnames
  rw [Path.fields_join directory hslash] at hfields
  obtain ⟨-, hsame⟩ := List.append_inj' hfields rfl
  obtain rfl : last = name := by simpa using hsame
  exact ⟨last, hlast, rfl⟩

/-- What a path of the cache leads to stays what it is. -/
theorem Fetched.keepsEntries (h : Fetched directory url w (result, w')) :
    KeepsEntries directory w.files w'.files := by
  have hmade : KeepsEntries directory w.files (w.files.createDirectories directory).2 :=
    .of_keeps (keeps_createDirectories w.files directory)
  cases h with
  | unnamed => exact .refl _ _
  | cached => exact .refl _ _
  | unplaced => exact hmade
  | unanswered => exact hmade
  | unwritten => exact hmade
  | written path hplace hnew _ content _ fs hwrite =>
      obtain ⟨name, hname, rfl⟩ := plain_of_writeFile hplace hwrite
      intro other s hother hs
      have hne : other ≠ name := by
        rintro rfl
        rw [(pathExists_iff _ _).mpr ⟨s, hs⟩] at hnew
        cases hnew
      exact standingAt?_writeFile_join_of_ne hname hother hne hwrite (hmade other s hother hs)

/-- What is fetched is an entry from then on, and is not fetched again. -/
theorem repeatable_fetch (hplace : place? directory url = some (directory.join name))
    (hname : Path.Plain name) :
    Repeatable directory (fetch directory url : ExceptT Error InWorld Path) := by
  intro w path w' h
  obtain rfl : directory.join name = path := Option.some.inj (hplace.symm.trans (place?_of_fetch h))
  have hcached : ∀ fs : FileSystem, fs.pathExists (directory.join name) = true →
      OnlyReports (fetch directory url : ExceptT Error InWorld Path) w.readers fs
        (directory.join name) := by
    intro fs hfs again _ hagain
    refine ⟨[.cacheHit (directory.join name).text url], ?_⟩
    rw [Runs, outcome_fetch hplace, hagain, if_pos hfs]
  obtain ⟨hreaders, s, hs⟩ : w'.readers = w.readers ∧
      ∃ s, w'.files.standingAt? (directory.join name) = some s := by
    cases fetched_of_runs h with
    | cached _ _ hexists => exact ⟨rfl, (pathExists_iff _ _).mp hexists⟩
    | written _ _ _ _ content _ fs hwrite => exact ⟨rfl, _, standingAt?_writeFile hwrite⟩
  exact ⟨(fetched_of_runs h).keepsEntries, hreaders,
    fun fs hfs => hcached fs ((pathExists_iff _ _).mpr ⟨s, hfs name s hname hs⟩)⟩

end Cache

/-! ## Reading both mappings -/

namespace Bridging

variable {directory : Path} {name : String} {config : Config}

theorem repeatable_extract (hname : Path.Plain name) (entry : String) :
    Repeatable directory
      (ArchiveFile.extract (directory.join name) entry : ExceptT _ InWorld Bytes) := by
  refine repeatable_openFile_bind hname (fun _ _ _ _ => not_runs_throw _ _ _ _) fun contents => ?_
  refine repeatable_readers.bind fun _ readers _ _ => ?_
  refine (repeatable_ofExcept _).bind fun _ opened _ _ => ?_
  exact (repeatable_ofExcept _).bind fun _ _ _ _ => repeatable_ofExcept _

theorem repeatable_readNames (hname : Path.Plain name) (entry : String) :
    Repeatable directory
      (readNames (directory.join name) entry : ExceptT Failure InWorld NameTable) :=
  ((repeatable_extract hname entry).adapt _).bind fun _ _ _ _ => repeatable_ofExcept _

theorem repeatable_readTsrg (hname : Path.Plain name) (memberNames : Tsrg.MemberNames) :
    Repeatable directory
      (MappingFile.readTsrg memberNames (directory.join name) : ExceptT _ InWorld Mappings) := by
  have hlines : Repeatable directory
      (MappingFile.lines (directory.join name) : ExceptT MappingFile.Error InWorld _) :=
    repeatable_openFile_bind hname (fun _ _ _ _ => not_runs_throw _ _ _ _)
      fun contents => repeatable_pure _
  exact hlines.bind fun _ _ _ _ => repeatable_ofExcept _

/-- The file of a configuration is kept as an entry of the cache. -/
theorem exists_entry (cache : Path) (config : Config) (r : Config.Resource) :
    ∃ name, Path.Plain name ∧ Cache.place? cache (r.url config) = some (cache.join name) := by
  obtain ⟨name, hname, hlast⟩ := Config.Resource.exists_fileName? config r
  obtain ⟨hempty, hslash, -⟩ := (Cache.fileName?_eq_some_iff _ _).mp hname
  refine ⟨name, ⟨(Path.descends_iff name).mpr ⟨hempty, ?_, ?_⟩, hslash⟩, ?_⟩
  · rintro rfl
    cases r <;> cases hlast
  · rintro rfl
    cases r <;> cases hlast
  · rw [Cache.place?, hname]
    rfl

/-- A file of the configuration that was fetched is an entry of the cache. -/
theorem repeatable_fetch_bind {β : Type} (cache : Path) (config : Config) (r : Config.Resource)
    {f : Path → ExceptT Failure InWorld β}
    (hf : ∀ name, Path.Plain name → Repeatable cache (f (cache.join name))) :
    Repeatable cache (fetch cache (r.url config) >>= f) := by
  obtain ⟨name, hname, hplace⟩ := exists_entry cache config r
  refine ((Cache.repeatable_fetch hplace hname).adapt _).bind fun w path w' h => ?_
  have hpath := Cache.place?_of_fetch ((runs_adapt_iff _ _ _ _ _).mp h)
  rw [hplace, Option.some.injEq] at hpath
  exact hpath ▸ hf name hname

theorem repeatable_readMcp (config : Config) (cache : Path) :
    Repeatable cache (readMcp config cache : ExceptT Failure InWorld Mappings) := by
  refine repeatable_fetch_bind cache config .mcpNames fun names hnames => ?_
  refine repeatable_fetch_bind cache config .tsrg fun tsrg htsrg => ?_
  refine (repeatable_readNames hnames fieldNames).bind fun _ fields _ _ => ?_
  refine (repeatable_readNames hnames methodNames).bind fun _ methods _ _ => ?_
  exact (repeatable_readTsrg htsrg { fields, methods }).adapt _

theorem repeatable_readYarn (config : Config) (cache : Path) :
    Repeatable cache (readYarn config cache : ExceptT Failure InWorld Mappings) := by
  refine repeatable_fetch_bind cache config .yarn fun archive hyarn => ?_
  refine ((repeatable_extract hyarn tinyEntry).adapt _).bind fun _ content _ _ => ?_
  exact (repeatable_announce _).bind fun _ _ _ _ => repeatable_ofExcept _

/-- Bridging needs nothing but entries of the cache, once they are there. -/
theorem repeatable_ofConfig (config : Config) (cache : Path) :
    Repeatable cache (ofConfig config cache : ExceptT Failure InWorld Bridging) := by
  refine (repeatable_readMcp config cache).bind fun _ mcp _ _ => ?_
  refine (repeatable_readYarn config cache).bind fun _ yarn _ _ => ?_
  exact repeatable_announce _

end Bridging

/-! ## The whole run -/

namespace Bridging

variable {b : Bridging} {cache : Path} {w w' : World} {u : Unit}

/-- Listings are written below the entries of the cache. -/
theorem keepsEntries_writeListings
    (h : Runs (b.writeListings cache : ExceptT Failure InWorld Unit) w u w') :
    KeepsEntries cache w.files w'.files := by
  refine preserves_of_forM (P := KeepsEntries cache w.files)
    (fun entry hentry w₁ w₂ hkept hstep => ?_) h (.refl _ _)
  exact ListingFile.preserves_of_writeAll
    (fun fs fs' hkeeps hfs => hfs.trans (.of_keeps hkeeps))
    (fun fs fs' name table content hname hwrite hfs => hfs.trans <|
      .of_writeFile_below (plain_directory hentry) (ListingFile.plain_name hname) hwrite)
    ((runs_adapt_iff _ _ _ _ _).mp hstep) hkept

/-- Bridges the mappings that a configuration asks for, and writes their listings. -/
def ofConfigListed (config : Config) (cache : Path) : ExceptT Failure InWorld Bridging := do
  let b ← ofConfig config cache
  b.writeListings cache
  return b

/-- **Running again**: after a success, the same run succeeds with the same result on the files that
were left, whatever network there is, if any. It makes no request, and all files stay as they are,
the listings of the result among them. How archives are read makes no difference, as long as they
are read alike in both runs. -/
theorem ofConfigListed_again {config : Config} {cache : Path} {w w' : World} {b : Bridging}
    (h : Runs (ofConfigListed config cache) w b w') :
    b.Listed cache w'.files ∧
      ∀ again : World, again.readers = w.readers → again.files = w'.files →
        ∃ events, Runs (ofConfigListed config cache) again b (again.reported events) := by
  obtain ⟨_, w₁, hb, h⟩ := (runs_bind_iff _ _ _ _ _).mp h
  obtain ⟨_, _, hlistings, h⟩ := (runs_bind_iff _ _ _ _ _).mp h
  obtain ⟨rfl, rfl⟩ := (runs_pure_iff _ _ _ _).mp h
  have hlisted := listed_of_writeListings hlistings
  obtain ⟨-, -, hagain⟩ := repeatable_ofConfig config cache w _ w₁ hb
  refine ⟨hlisted, OnlyReports.bind (hagain _ (keepsEntries_writeListings hlistings)) ?_⟩
  exact (onlyReports_writeListings hlisted w.readers).bind
    (onlyReports_of_runs fun w _ _ => (runs_pure_iff _ _ _ _).mpr ⟨rfl, rfl⟩)

/-- A network with a file of each kind, one after the other. -/
def smallFiles : Network := fun earlier _ =>
  match earlier with
  | [] => .answered 200 <| some <| Archive.pack
      [(fieldNames, Utf8.encode "i,n\nf,x\n"), (methodNames, Utf8.encode "\n")]
  | [_] => .answered 200 <| some <| Utf8.encode "a A\n\tb f\n"
  | _ => .answered 200 <| some <| Archive.pack
      [(tinyEntry, Utf8.encode "v\tofficial\tnamed\nCLASS\ta\tB\nFIELD\ta\tI\tb\ty\n")]

/-- What was downloaded once is bridged again without a network. -/
theorem ofConfigListed_again_offline :
    ∃ b w', Runs (ofConfigListed Cache.someConfig ⟨"c"⟩) { network := smallFiles } b w' ∧
      b.mappings.fields.entries = [("A:x", "B:y")] ∧
      ∃ events, Runs (ofConfigListed Cache.someConfig ⟨"c"⟩) { files := w'.files } b
        (World.reported { files := w'.files } events) := by
  have hfields : (outcome (ofConfigListed Cache.someConfig ⟨"c"⟩)
      { network := smallFiles }).1.toOption.map (·.mappings.fields.entries)
        = some [("A:x", "B:y")] := by decide +kernel
  obtain ⟨b, hb, hentries⟩ := Option.map_eq_some_iff.mp hfields
  obtain ⟨w', hrun⟩ : ∃ w', Runs (ofConfigListed Cache.someConfig ⟨"c"⟩)
      { network := smallFiles } b w' := ⟨_, runs_of_toOption hb⟩
  exact ⟨b, w', hrun, hentries, (ofConfigListed_again hrun).2 { files := w'.files } rfl rfl⟩

end Bridging

end Namebridge
