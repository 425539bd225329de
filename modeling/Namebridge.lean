import Namebridge.Archive
import Namebridge.Archive.Checksum
import Namebridge.Archive.Inflate
import Namebridge.CommandLine.Arguments
import Namebridge.CommandLine.Program
import Namebridge.Config
import Namebridge.Config.Reader
import Namebridge.Decimal.Shortest
import Namebridge.Event
import Namebridge.Format.ReadableNames
import Namebridge.Format.Tiny
import Namebridge.Format.Tsrg
import Namebridge.Host
import Namebridge.Host.Directory
import Namebridge.Host.FileSystem
import Namebridge.Host.Network
import Namebridge.Host.OsError
import Namebridge.Host.Path
import Namebridge.Host.Readers
import Namebridge.Host.Walk
import Namebridge.Json.Expect
import Namebridge.Json.Fault
import Namebridge.Json.Scanner
import Namebridge.Lookup.ClassIndex
import Namebridge.Lookup.Hierarchy
import Namebridge.Lookup.Renamer
import Namebridge.Lookup.Splice
import Namebridge.Main
import Namebridge.Mappings
import Namebridge.Mappings.Bridge
import Namebridge.Mappings.ClassPatch
import Namebridge.Mappings.Declaration
import Namebridge.Mappings.Listing
import Namebridge.Name.ClassName
import Namebridge.Name.Descriptor
import Namebridge.Name.MemberKey
import Namebridge.OrderedMap
import Namebridge.Proofs.Bridge
import Namebridge.Proofs.BridgedDescriptor
import Namebridge.Proofs.ClassIndex
import Namebridge.Proofs.Cut
import Namebridge.Proofs.Declaration
import Namebridge.Proofs.Descriptor
import Namebridge.Proofs.MemberKey
import Namebridge.Proofs.NameTable
import Namebridge.Proofs.OrderedMap
import Namebridge.Proofs.Porting
import Namebridge.Proofs.Splice
import Namebridge.Proofs.TinyGrammar
import Namebridge.Proofs.Traversal
import Namebridge.Proofs.TsrgGrammar
import Namebridge.Run.ArchiveFile
import Namebridge.Run.Bridging
import Namebridge.Run.Cache
import Namebridge.Run.Failure
import Namebridge.Run.ListingFile
import Namebridge.Run.MappingFile
import Namebridge.Run.Remark
import Namebridge.Run.Sources
import Namebridge.Text.Cut
import Namebridge.Text.Line
import Namebridge.Text.Quoted
import Namebridge.Text.Unprintable
import Namebridge.Text.Utf8
import Namebridge.Proofs.Regrouping
import Namebridge.Proofs.IndexedFiles
import Namebridge.Proofs.Line
import Namebridge.Proofs.TsrgVerdict
import Namebridge.Proofs.TinyVerdict
import Namebridge.Proofs.Ownership
import Namebridge.Proofs.PatchedBridge
import Namebridge.Proofs.CachePlaces
import Namebridge.Proofs.Document
import Namebridge.Proofs.Inheritance
import Namebridge.Proofs.LineEnding
import Namebridge.Proofs.Recovery
import Namebridge.Proofs.FileSystem
import Namebridge.Proofs.Running
import Namebridge.Proofs.Rerun
import Namebridge.Proofs.TableAlgebra
import Namebridge.Proofs.InsertionOrder
import Namebridge.Proofs.DescriptorLayout
import Namebridge.Proofs.ChainedDescriptor
import Namebridge.Proofs.TsrgOrder
import Namebridge.Proofs.TinyOrder
import Namebridge.Proofs.SchemeView
import Namebridge.Proofs.SchemeComposition
import Namebridge.Proofs.TsrgNames
import Namebridge.Proofs.ReadableNames
import Namebridge.Proofs.NamedMembers
import Namebridge.Proofs.OccurrenceOrder
import Namebridge.Proofs.Listing
import Namebridge.Proofs.MadeDirectories
import Namebridge.Proofs.CachedFiles
import Namebridge.Proofs.SharedPlaces
import Namebridge.Proofs.Namesakes
import Namebridge.Proofs.LookedUp
import Namebridge.Proofs.KeyParts
import Namebridge.Proofs.ReadableNamesVerdict
import Namebridge.Proofs.Walk
import Namebridge.Proofs.SourceFiles
