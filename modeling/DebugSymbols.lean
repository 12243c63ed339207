import DebugSymbols.AddressRange
import DebugSymbols.Bytes.Cursor
import DebugSymbols.Bytes.Leb128
import DebugSymbols.Bytes.Order
import DebugSymbols.Compression.Decompressed
import DebugSymbols.Compression.Inflate
import DebugSymbols.Compression.Zlib
import DebugSymbols.Compression.Zstd.BackwardBits
import DebugSymbols.Compression.Zstd.Block
import DebugSymbols.Compression.Zstd.ByteCode
import DebugSymbols.Compression.Zstd.ByteStream
import DebugSymbols.Compression.Zstd.Checksum
import DebugSymbols.Compression.Zstd.Earlier.Block
import DebugSymbols.Compression.Zstd.Earlier.Copying
import DebugSymbols.Compression.Zstd.Earlier.Literals
import DebugSymbols.Compression.Zstd.Earlier.LongLengths
import DebugSymbols.Compression.Zstd.Earlier.Sequences
import DebugSymbols.Compression.Zstd.Earlier.Version
import DebugSymbols.Compression.Zstd.FourStreams
import DebugSymbols.Compression.Zstd.Frame
import DebugSymbols.Compression.Zstd.FrameHeader
import DebugSymbols.Compression.Zstd.Literals
import DebugSymbols.Compression.Zstd.Sequences
import DebugSymbols.Compression.Zstd.StateTable
import DebugSymbols.Compression.Zstd.Stream
import DebugSymbols.Compression.Zstd.WholeFrame
import DebugSymbols.Compression.Zstd.Window
import DebugSymbols.Database.Basic
import DebugSymbols.Database.Handle
import DebugSymbols.Database.Host
import DebugSymbols.Database.Program
import DebugSymbols.Database.Types
import DebugSymbols.Database.Width
import DebugSymbols.Dwarf.Abbreviation
import DebugSymbols.Dwarf.Attribute
import DebugSymbols.Dwarf.AttributeName
import DebugSymbols.Dwarf.CompilationUnit
import DebugSymbols.Dwarf.DebugInfo
import DebugSymbols.Dwarf.Die
import DebugSymbols.Dwarf.DieTree
import DebugSymbols.Dwarf.Encoding
import DebugSymbols.Dwarf.Entry
import DebugSymbols.Dwarf.Error
import DebugSymbols.Dwarf.Expression
import DebugSymbols.Dwarf.Form
import DebugSymbols.Dwarf.LineTable
import DebugSymbols.Dwarf.Location
import DebugSymbols.Dwarf.LocationList
import DebugSymbols.Dwarf.ObjectFile
import DebugSymbols.Dwarf.Sections
import DebugSymbols.Dwarf.Tag
import DebugSymbols.Dwarf.UnitHeader
import DebugSymbols.Import.Comparison
import DebugSymbols.Import.Config
import DebugSymbols.Import.Error
import DebugSymbols.Import.FrameBase
import DebugSymbols.Import.Frames
import DebugSymbols.Import.Layout
import DebugSymbols.Import.Locals
import DebugSymbols.Import.Naming
import DebugSymbols.Import.Outcome
import DebugSymbols.Import.Repair
import DebugSymbols.Import.Resolution
import DebugSymbols.Import.Run
import DebugSymbols.Import.Session
import DebugSymbols.Import.Stats
import DebugSymbols.Import.Types
import DebugSymbols.Machine
import DebugSymbols.ObjectFile.Basic
import DebugSymbols.ObjectFile.Decode
import DebugSymbols.ObjectFile.Elf.CompactRelocations
import DebugSymbols.ObjectFile.Elf.File
import DebugSymbols.ObjectFile.Elf.Header
import DebugSymbols.ObjectFile.Elf.Relocations
import DebugSymbols.ObjectFile.Elf.StoredRelocation
import DebugSymbols.ObjectFile.Error
import DebugSymbols.ObjectFile.MachO.File
import DebugSymbols.ObjectFile.MachO.Header
import DebugSymbols.ObjectFile.MachO.Relocations
import DebugSymbols.ObjectFile.Packed
import DebugSymbols.ObjectFile.Relocation
import DebugSymbols.OffsetCache.Basic
import DebugSymbols.OffsetCache.Blob
import DebugSymbols.Proofs.Accounting
import DebugSymbols.Proofs.Agreement
import DebugSymbols.Proofs.Atomicity
import DebugSymbols.Proofs.Bytes.Forward
import DebugSymbols.Proofs.CacheHistory
import DebugSymbols.Proofs.CachePersistence
import DebugSymbols.Proofs.Containment
import DebugSymbols.Proofs.Database.Calls
import DebugSymbols.Proofs.Database.Effects
import DebugSymbols.Proofs.Database.Enumerations
import DebugSymbols.Proofs.Database.Growth
import DebugSymbols.Proofs.Database.Lasting
import DebugSymbols.Proofs.Database.MemberOrder
import DebugSymbols.Proofs.Database.Sizes
import DebugSymbols.Proofs.Database.Steady
import DebugSymbols.Proofs.Database.Tables
import DebugSymbols.Proofs.Declarations
import DebugSymbols.Proofs.Deduplication
import DebugSymbols.Proofs.Deferral
import DebugSymbols.Proofs.Dwarf.Construction
import DebugSymbols.Proofs.Dwarf.Descent
import DebugSymbols.Proofs.Dwarf.Headers
import DebugSymbols.Proofs.Dwarf.Levels
import DebugSymbols.Proofs.Dwarf.Lookup
import DebugSymbols.Proofs.Dwarf.Placement
import DebugSymbols.Proofs.EntryLookup
import DebugSymbols.Proofs.Enumerations
import DebugSymbols.Proofs.FrameBase
import DebugSymbols.Proofs.FunctionLookup
import DebugSymbols.Proofs.Import.Aliases
import DebugSymbols.Proofs.Import.Asking
import DebugSymbols.Proofs.Import.Careful
import DebugSymbols.Proofs.Import.Commands
import DebugSymbols.Proofs.Import.Comparisons
import DebugSymbols.Proofs.Import.Denotation
import DebugSymbols.Proofs.Import.Echoes
import DebugSymbols.Proofs.Import.Enumerations
import DebugSymbols.Proofs.Import.Exhaustion
import DebugSymbols.Proofs.Import.Exploration
import DebugSymbols.Proofs.Import.Handlers
import DebugSymbols.Proofs.Import.History
import DebugSymbols.Proofs.Import.Invocations
import DebugSymbols.Proofs.Import.Keeping
import DebugSymbols.Proofs.Import.Locals
import DebugSymbols.Proofs.Import.Makers
import DebugSymbols.Proofs.Import.Naming
import DebugSymbols.Proofs.Import.Oblivious
import DebugSymbols.Proofs.Import.Origins
import DebugSymbols.Proofs.Import.Passes
import DebugSymbols.Proofs.Import.Past
import DebugSymbols.Proofs.Import.Placing
import DebugSymbols.Proofs.Import.Precedence
import DebugSymbols.Proofs.Import.Records
import DebugSymbols.Proofs.Import.Reliance
import DebugSymbols.Proofs.Import.Resolving
import DebugSymbols.Proofs.Import.Runs
import DebugSymbols.Proofs.Import.Soundness
import DebugSymbols.Proofs.Import.Verdicts
import DebugSymbols.Proofs.Import.Visits
import DebugSymbols.Proofs.LocalPlacement
import DebugSymbols.Proofs.LocalVariables
import DebugSymbols.Proofs.MemberSizes
import DebugSymbols.Proofs.OffsetCache
import DebugSymbols.Proofs.PendingRecords
import DebugSymbols.Proofs.Preservation
import DebugSymbols.Proofs.Registration
import DebugSymbols.Proofs.Relocation
import DebugSymbols.Proofs.Repetition
import DebugSymbols.Proofs.ResolutionStack
import DebugSymbols.Proofs.Restoration
import DebugSymbols.Proofs.Resumption
import DebugSymbols.Proofs.Search
import DebugSymbols.Proofs.SecondPass
import DebugSymbols.Proofs.SkippedMembers
import DebugSymbols.Proofs.SortedMap
import DebugSymbols.Proofs.Traversal
import DebugSymbols.Proofs.TypeGraph
import DebugSymbols.Proofs.TypeSizes
import DebugSymbols.Proofs.Typedefs
import DebugSymbols.Proofs.Wire
import DebugSymbols.Search
import DebugSymbols.SortedMap
import DebugSymbols.Text.Hex
import DebugSymbols.Text.Utf8
import DebugSymbols.Wire.Field
import DebugSymbols.Wire.Varint
