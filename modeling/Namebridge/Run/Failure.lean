import Namebridge.Name.MemberKey
import Namebridge.Run.ArchiveFile
import Namebridge.Run.Cache
import Namebridge.Run.ListingFile
import Namebridge.Run.MappingFile
import Namebridge.Run.Sources

/-!
# Failures of a run

All that can end a run before its time, with the remarks that explain it, and the report that is
printed for it.
-/

namespace Namebridge

/-- Why a run ended before its time. -/
inductive Failure where
  | noConfig (file : Path) (error : OsError)
  | badConfig (file : Path) (fault : Json.Fault)
  | cache (error : Cache.Error)
  | archiveFile (error : ArchiveFile.Error)
  | mappingFile (error : MappingFile.Error)
  /-- An entry of an archive is no table of readable names. -/
  | names (entry : String) (error : ReadableNames.Error)
  /-- An entry of an archive is no file in tiny format. -/
  | tiny (entry : String) (archive : Path) (error : Tiny.Error)
  | listingFile (error : ListingFile.Error)
  | sources (error : Sources.Error)
  | memberKey (fault : MemberKey.Fault)
deriving DecidableEq, Repr

namespace Failure

/-- What explains a failure, the most general first and the cause last. -/
def remarks : Failure → List Remark
  | noConfig file error =>
      Remark.sentences [s!"cannot find config file {file.quoted}", error.message]
  | badConfig file fault =>
      [.sentence s!"failed to parse config file {file.quoted}", .json fault]
  | cache error => error.remarks
  | archiveFile error => error.remarks
  | mappingFile error => error.remarks
  | names entry error => Remark.sentences (s!"failed to read {entry}" :: error.trail)
  | tiny entry archive error =>
      Remark.sentences (s!"failed to read {entry} of {archive.quoted}" :: error.trail)
  | listingFile error => error.remarks
  | sources error => error.remarks
  | memberKey fault => [.sentence fault.message]

/-- The lines that list causes, with their numbers if there are several. -/
def causeLines : List String → List String
  | [] => []
  | [cause] => ["", "Caused by:", "    " ++ cause]
  | causes => "" :: "Caused by:" :: causes.mapIdx fun i cause => s!"    {i}: {cause}"

/-- The lines that report explained failures. -/
def reportLines : List String → List String
  | [] => []
  | headline :: causes => ("Error: " ++ headline) :: causeLines causes

/-- The lines that are printed for a failure. -/
def report (failure : Failure) : List String := reportLines (failure.remarks.map Remark.text)

example : reportLines ["a", "b"] = ["Error: a", "", "Caused by:", "    b"] := by decide

end Failure

end Namebridge
