import Namebridge.Archive
import Namebridge.CommandLine.Arguments
import Namebridge.Config.Reader

/-!
# Readers

Archives, configuration files and command lines are written in formats that others define and read.
A run takes the readers that its host has, and nothing is used of them but that each is a function
of what it reads.
-/

namespace Namebridge

/-- How archives, configuration files and command lines are read. A file can be unreadable although
it was opened. -/
structure Readers where
  archive : Except OsError Bytes → Except Archive.Fault Archive.Opened
  config : Except OsError Bytes → Except Json.Fault Config
  arguments : List String → Except CommandLine.Halt CommandLine.Job

/-- The readers of this library. -/
def Readers.standard : Readers where
  archive := Archive.ofContent
  config := Config.ofContent
  arguments := CommandLine.readArguments

end Namebridge
