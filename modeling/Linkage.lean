import Linkage.Abi.Basic
import Linkage.Abi.Candidate
import Linkage.Abi.Dump
import Linkage.Abi.Extraction
import Linkage.Abi.Report
import Linkage.Abi.Surface
import Linkage.Archive.Basic
import Linkage.Archive.Crc32
import Linkage.Archive.Deflate
import Linkage.Artifact
import Linkage.ArtifactsReport
import Linkage.Bytes.Cursor
import Linkage.Bytes.Hex
import Linkage.Bytes.LittleEndian
import Linkage.Bytes.Utf8
import Linkage.ClassFile.Attribute
import Linkage.ClassFile.Basic
import Linkage.ClassFile.Flags
import Linkage.ClassFile.Pool
import Linkage.ClassFile.References
import Linkage.ClassUnit
import Linkage.Classpath
import Linkage.Command.Basic
import Linkage.Command.Execution
import Linkage.Command.Line
import Linkage.Config
import Linkage.Data.Basic
import Linkage.Data.Shape
import Linkage.DependencyGraph
import Linkage.Descriptor
import Linkage.Digest.Sha256
import Linkage.Event
import Linkage.Failure
import Linkage.Fault
import Linkage.FileSystem.Basic
import Linkage.FileSystem.Writing
import Linkage.FileTree
import Linkage.Index
import Linkage.Json.Printer
import Linkage.Json.Reader
import Linkage.Json.Token
import Linkage.Limits
import Linkage.Logging
import Linkage.Main
import Linkage.Misuse.Basic
import Linkage.Misuse.Summary
import Linkage.Module.Analysis
import Linkage.Module.Manifest
import Linkage.Module.Outcome
import Linkage.Module.ReportFiles
import Linkage.Module.RootReport
import Linkage.Path
import Linkage.Proofs.Analysis
import Linkage.Proofs.Ancestors
import Linkage.Proofs.AnnotationDepth
import Linkage.Proofs.AnnotationFormat
import Linkage.Proofs.ArchiveDirectory
import Linkage.Proofs.ArchiveFormat
import Linkage.Proofs.ArchiveReading
import Linkage.Proofs.Arrangements
import Linkage.Proofs.AttributeFormat
import Linkage.Proofs.Bounds
import Linkage.Proofs.ClassFormat
import Linkage.Proofs.ClassUnits
import Linkage.Proofs.Classification
import Linkage.Proofs.Classpath
import Linkage.Proofs.ClasspathOrder
import Linkage.Proofs.Comments
import Linkage.Proofs.CursorRequests
import Linkage.Proofs.Declarations
import Linkage.Proofs.Decoding
import Linkage.Proofs.Descriptors
import Linkage.Proofs.Displays
import Linkage.Proofs.DumpReading
import Linkage.Proofs.EndRecords
import Linkage.Proofs.ExcludedPackages
import Linkage.Proofs.ExposedDependencies
import Linkage.Proofs.Exposure
import Linkage.Proofs.FilePaths
import Linkage.Proofs.FileTrees
import Linkage.Proofs.FileWriting
import Linkage.Proofs.GenericSignatures
import Linkage.Proofs.GraphFacts
import Linkage.Proofs.Identities
import Linkage.Proofs.IdentityTexts
import Linkage.Proofs.ImportDeclarations
import Linkage.Proofs.ImportForms
import Linkage.Proofs.Inflation
import Linkage.Proofs.JsonReading
import Linkage.Proofs.Judging
import Linkage.Proofs.Listing
import Linkage.Proofs.LittleEndian
import Linkage.Proofs.Misuse
import Linkage.Proofs.NameBoundaries
import Linkage.Proofs.NamePattern
import Linkage.Proofs.Ordering
import Linkage.Proofs.OutcomeOrder
import Linkage.Proofs.OutcomeReading
import Linkage.Proofs.Ownership
import Linkage.Proofs.Pieces
import Linkage.Proofs.PoolFormat
import Linkage.Proofs.PoolNumbering
import Linkage.Proofs.Provenance
import Linkage.Proofs.QualifiedNames
import Linkage.Proofs.References
import Linkage.Proofs.ReportDirectories
import Linkage.Proofs.RootReports
import Linkage.Proofs.Runs
import Linkage.Proofs.ShortestChains
import Linkage.Proofs.SignatureBytes
import Linkage.Proofs.SignatureGrammar
import Linkage.Proofs.SignatureReading
import Linkage.Proofs.Signatures
import Linkage.Proofs.Surface
import Linkage.Proofs.Truncation
import Linkage.Proofs.Usage
import Linkage.Proofs.Utf8
import Linkage.Proofs.Visibility
import Linkage.Proofs.Visits
import Linkage.Run
import Linkage.Scan.ImportDeclaration
import Linkage.Scan.QualifiedName
import Linkage.Scan.TextFiles
import Linkage.Signature
import Linkage.Symbol
import Linkage.SymbolSet
import Linkage.Text.Lines
import Linkage.Text.Parts
import Linkage.Text.WordChar
import Linkage.Toml.Document
import Linkage.Toml.Scalar
import Linkage.Toml.Token
import Linkage.Toml.Value
import Linkage.Usage
