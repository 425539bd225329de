import Mathlib.Data.List.Nodup
import Namebridge.Proofs.InnerPath
import Namebridge.Proofs.Running
import Namebridge.Run.Bridging

/-!
# The files of listings

After listings were written, each table has its own in a file of its own (`Listed`): no file takes
the place of another one. Where they are all there, writing them again changes nothing.
-/

namespace Namebridge

/-! ## The listings of one mapping -/

namespace ListingFile

variable {directory path : Path} {mappings : Mappings} {table : NameTable} {fs : FileSystem}
  {w w' : World} {u : Unit}

/-- The listing of each table of a mapping is in a file of a directory. -/
structure Listed (directory : Path) (mappings : Mappings) (fs : FileSystem) : Prop where
  folder : fs.standingAt? directory = some .folder
  file : ∀ name table, (name, table) ∈ tables mappings →
    fs.standingAt? (directory.join name) = some (.file (Utf8.encode table.listing))

theorem nodup_names (mappings : Mappings) : ((tables mappings).map Prod.fst).Nodup := by
  show ["classes.txt", "fields.txt", "methods.txt"].Nodup
  decide

theorem plain_name {name : String} (h : (name, table) ∈ tables mappings) : Path.Plain name := by
  have hall : ∀ name ∈ (tables mappings).map Prod.fst, Path.Plain name := by
    show ∀ name ∈ ["classes.txt", "fields.txt", "methods.txt"], Path.Plain name
    decide
  exact hall name (List.mem_map_of_mem h)

theorem runs_writeTable_iff (path : Path) (table : NameTable) (w : World) (u : Unit) (w' : World) :
    Runs (writeTable path table : ExceptT Error InWorld Unit) w u w' ↔
      ∃ fs, w.files.writeFile path (Utf8.encode table.listing) = .ok fs ∧
        (w.setFiles fs).reported [.listed table.size path.text] = w' := by
  rw [writeTable, runs_bind_iff]
  constructor
  · intro hparts
    obtain ⟨written, _, hwritten, h⟩ := hparts
    cases written with
    | error error => exact absurd h (not_runs_throw_bind _ _ _ _ _)
    | ok _ =>
        obtain ⟨fs, hfs, rfl⟩ := (runs_writeFile_iff _ _ _ _).mp hwritten
        exact ⟨fs, hfs, (runs_report_iff _ _ _ _).mp h⟩
  · intro hparts
    obtain ⟨fs, hfs, rfl⟩ := hparts
    exact ⟨.ok (), _, (runs_writeFile_iff _ _ _ _).mpr ⟨fs, hfs, rfl⟩,
      (runs_report_iff _ _ _ _).mpr rfl⟩

theorem runs_writeAll_iff (directory : Path) (mappings : Mappings) (w : World) (u : Unit)
    (w' : World) : Runs (writeAll directory mappings : ExceptT Error InWorld Unit) w u w' ↔
      (w.files.createDirectories directory).1 = .ok () ∧
        Runs ((tables mappings).forM fun entry => writeTable (directory.join entry.1) entry.2 :
            ExceptT Error InWorld Unit)
          (w.setFiles (w.files.createDirectories directory).2) u w' := by
  rw [writeAll, runs_bind_iff]
  constructor
  · intro hparts
    obtain ⟨made, _, hmade, h⟩ := hparts
    obtain ⟨hok, rfl⟩ := (runs_createDirectories_iff _ _ _ _).mp hmade
    cases made with
    | error error => exact absurd h (not_runs_throw_bind _ _ _ _ _)
    | ok _ => exact ⟨hok, h⟩
  · intro hparts
    obtain ⟨hok, h⟩ := hparts
    exact ⟨.ok (), _, (runs_createDirectories_iff _ _ _ _).mpr ⟨hok, rfl⟩, h⟩

/-- What making the directory and writing each file preserve is preserved. -/
theorem preserves_of_writeAll {P : FileSystem → Prop}
    (hkeeps : ∀ fs fs', FileSystem.Keeps fs fs' → P fs → P fs')
    (hwrite : ∀ fs fs' name table content, (name, table) ∈ tables mappings →
      fs.writeFile (directory.join name) content = .ok fs' → P fs → P fs')
    (h : Runs (writeAll directory mappings : ExceptT Error InWorld Unit) w u w')
    (hw : P w.files) : P w'.files := by
  obtain ⟨-, hloop⟩ := (runs_writeAll_iff _ _ _ _ _).mp h
  refine preserves_of_forM (fun entry hentry w w' hw hstep => ?_) hloop
    (hkeeps _ _ (FileSystem.keeps_createDirectories w.files directory) hw)
  obtain ⟨fs, hfs, rfl⟩ := (runs_writeTable_iff _ _ _ _ _).mp hstep
  exact hwrite _ _ entry.1 entry.2 _ hentry hfs hw

theorem listed_of_writeAll (hdirectory : directory.text ≠ "")
    (h : Runs (writeAll directory mappings : ExceptT Error InWorld Unit) w u w') :
    Listed directory mappings w'.files := by
  obtain ⟨hmade, hloop⟩ := (runs_writeAll_iff _ _ _ _ _).mp h
  have hfolder := FileSystem.standingAt?_createDirectories hdirectory hmade
  refine ⟨?folder, fun name table hentry => ?file⟩
  case folder =>
    refine preserves_of_forM (P := fun fs => fs.standingAt? directory = some .folder)
      (fun entry _ w w' hw hstep => ?_) hloop hfolder
    obtain ⟨fs, hfs, rfl⟩ := (runs_writeTable_iff _ _ _ _ _).mp hstep
    exact (FileSystem.grows_writeFile hfs).standingAt?_folder hw
  case file =>
    refine holds_of_forM
      (P := fun (entry : String × NameTable) (fs : FileSystem) =>
        fs.standingAt? (directory.join entry.1) = some (.file (Utf8.encode entry.2.listing)))
      (fun entry _ w w' hstep => ?_) (fun entry hentry other hother hne w w' hw hstep => ?_) hloop
      (name, table) hentry
    · obtain ⟨fs, hfs, rfl⟩ := (runs_writeTable_iff _ _ _ _ _).mp hstep
      exact FileSystem.standingAt?_writeFile hfs
    · obtain ⟨fs, hfs, rfl⟩ := (runs_writeTable_iff _ _ _ _ _).mp hstep
      have hnames : entry.1 ≠ other.1 := fun heq =>
        hne (List.inj_on_of_nodup_map (nodup_names mappings) hentry hother heq)
      exact FileSystem.standingAt?_writeFile_join_of_ne (plain_name hother) (plain_name hentry)
        hnames hfs hw

/-- Listings that are there are not changed by writing them again. -/
theorem onlyReports_writeAll (h : Listed directory mappings fs) (readers : Readers) :
    OnlyReports (writeAll directory mappings : ExceptT Error InWorld Unit) readers fs () := by
  have hloop : OnlyReports ((tables mappings).forM fun entry =>
      writeTable (directory.join entry.1) entry.2 : ExceptT Error InWorld Unit) readers fs () := by
    refine onlyReports_forM fun entry hentry w _ hw => ?_
    have hsame := FileSystem.writeFile_eq_self (h.file entry.1 entry.2 hentry)
    rw [← hw] at hsame
    exact ⟨_, (runs_writeTable_iff _ _ _ _ _).mpr ⟨w.files, hsame, rfl⟩⟩
  intro w hreaders hw
  obtain ⟨events, hevents⟩ := hloop w hreaders hw
  have hmade := FileSystem.createDirectories_eq_self h.folder
  rw [← hw] at hmade
  refine ⟨events, (runs_writeAll_iff _ _ _ _ _).mpr ⟨by rw [hmade], ?_⟩⟩
  rw [hmade]
  exact hevents

end ListingFile

/-! ## The listings of all mappings -/

namespace Bridging

variable {b : Bridging} {cache : Path} {fs : FileSystem} {w w' : World} {u : Unit}

/-- The listings of all mappings are in the cache. -/
def Listed (b : Bridging) (cache : Path) (fs : FileSystem) : Prop :=
  ∀ name mappings, (name, mappings) ∈ b.listed →
    ListingFile.Listed (cache.join name) mappings fs

theorem nodup_directories (b : Bridging) : (b.listed.map Prod.fst).Nodup := by
  show ["chained_mapping", "mcp", "yarn"].Nodup
  decide

theorem plain_directory {name : String} {mappings : Mappings} (h : (name, mappings) ∈ b.listed) :
    Path.Plain name := by
  have hall : ∀ name ∈ b.listed.map Prod.fst, Path.Plain name := by
    show ∀ name ∈ ["chained_mapping", "mcp", "yarn"], Path.Plain name
    decide
  exact hall name (List.mem_map_of_mem h)

/-- The listings of one mapping are not changed by those of another. -/
theorem listed_of_writeAll_other {entry other : String × Mappings} (hentry : entry ∈ b.listed)
    (hother : other ∈ b.listed) (hne : entry.1 ≠ other.1)
    (hlisted : ListingFile.Listed (cache.join entry.1) entry.2 w.files)
    (h : Runs (ListingFile.writeAll (cache.join other.1) other.2 :
      ExceptT ListingFile.Error InWorld Unit) w u w') :
    ListingFile.Listed (cache.join entry.1) entry.2 w'.files := by
  refine ListingFile.preserves_of_writeAll
    (P := ListingFile.Listed (cache.join entry.1) entry.2) (fun fs fs' hkeeps hfs => ?_)
    (fun fs fs' name table content hname hwrite hfs => ?_) h hlisted
  · exact ⟨hkeeps.standingAt? hfs.folder, fun name table hname =>
      hkeeps.standingAt? (hfs.file name table hname)⟩
  · refine ⟨(FileSystem.grows_writeFile hwrite).standingAt?_folder hfs.folder,
      fun name' table' hname' => ?_⟩
    have hfile := hfs.file name' table' hname'
    rw [← Path.below_pair] at hwrite hfile ⊢
    exact FileSystem.standingAt?_writeFile_of_ne
      (Path.inner_pair (plain_directory hother) (ListingFile.plain_name hname))
      (Path.inner_pair (plain_directory hentry) (ListingFile.plain_name hname'))
      (by simp [hne]) hwrite hfile

theorem listed_of_writeListings
    (h : Runs (b.writeListings cache : ExceptT Failure InWorld Unit) w u w') :
    Listed b cache w'.files := by
  intro name mappings hentry
  refine holds_of_forM (P := fun (entry : String × Mappings) (fs : FileSystem) =>
      ListingFile.Listed (cache.join entry.1) entry.2 fs)
    (fun entry hentry w w' hstep => ?_) (fun entry hentry other hother hne w w' hw hstep => ?_) h
    (name, mappings) hentry
  · exact ListingFile.listed_of_writeAll (Path.text_join_ne_empty cache (plain_directory hentry))
      ((runs_adapt_iff _ _ _ _ _).mp hstep)
  · exact listed_of_writeAll_other hentry hother
      (fun heq => hne (List.inj_on_of_nodup_map (nodup_directories b) hentry hother heq)) hw
      ((runs_adapt_iff _ _ _ _ _).mp hstep)

theorem onlyReports_writeListings (h : Listed b cache fs) (readers : Readers) :
    OnlyReports (b.writeListings cache : ExceptT Failure InWorld Unit) readers fs () :=
  onlyReports_forM fun entry hentry =>
    (ListingFile.onlyReports_writeAll (h entry.1 entry.2 hentry) readers).adapt _

end Bridging

end Namebridge
