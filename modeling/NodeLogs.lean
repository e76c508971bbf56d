import NodeLogs.Action
import NodeLogs.Archive.Error
import NodeLogs.Archive.Header
import NodeLogs.Archive.Member
import NodeLogs.Archive.Number
import NodeLogs.Archive.Reader
import NodeLogs.Archive.Records
import NodeLogs.Archive.Sparse
import NodeLogs.ByteSource
import NodeLogs.Capture
import NodeLogs.Child
import NodeLogs.Collection
import NodeLogs.Command
import NodeLogs.Config.Basic
import NodeLogs.Config.Error
import NodeLogs.Config.File
import NodeLogs.Config.Text
import NodeLogs.Decimal.Binary64
import NodeLogs.Decimal.Shortest
import NodeLogs.ExitStatus
import NodeLogs.Export
import NodeLogs.Failure
import NodeLogs.FileTree.Access
import NodeLogs.FileTree.Basic
import NodeLogs.FileTree.Layout
import NodeLogs.FileTree.Walk
import NodeLogs.HostPath
import NodeLogs.OsError
import NodeLogs.Log
import NodeLogs.Main
import NodeLogs.Moment
import NodeLogs.Node
import NodeLogs.NodePath
import NodeLogs.Options
import NodeLogs.Options.Help
import NodeLogs.Proofs.Action.Forest
import NodeLogs.Proofs.Action.Histories
import NodeLogs.Proofs.Action.Steps
import NodeLogs.Proofs.Action.Views
import NodeLogs.Proofs.Archive.Cuts
import NodeLogs.Proofs.Archive.Items
import NodeLogs.Proofs.Archive.Numerals
import NodeLogs.Proofs.Archive.Paths
import NodeLogs.Proofs.Archive.Pieces
import NodeLogs.Proofs.Archive.Positions
import NodeLogs.Proofs.Archive.ReadBack
import NodeLogs.Proofs.Archive.Sizes
import NodeLogs.Proofs.Archive.Spans
import NodeLogs.Proofs.Archive.Writing
import NodeLogs.Proofs.Capture
import NodeLogs.Proofs.Collection
import NodeLogs.Proofs.Collection.Calls
import NodeLogs.Proofs.Collection.Extent
import NodeLogs.Proofs.Collection.Midway
import NodeLogs.Proofs.Collection.Places
import NodeLogs.Proofs.Collection.Scene
import NodeLogs.Proofs.Collection.Schedules
import NodeLogs.Proofs.Collection.Settling
import NodeLogs.Proofs.Collection.Turns
import NodeLogs.Proofs.Config.Fields
import NodeLogs.Proofs.Config.RoundTrip
import NodeLogs.Proofs.Failure
import NodeLogs.Proofs.Failure.Joining
import NodeLogs.Proofs.FileTree.Access
import NodeLogs.Proofs.FileTree.Below
import NodeLogs.Proofs.FileTree.Changes
import NodeLogs.Proofs.FileTree.Leading
import NodeLogs.Proofs.FileTree.Making
import NodeLogs.Proofs.FileTree.Reaching
import NodeLogs.Proofs.FileTree.Sound
import NodeLogs.Proofs.FileTree.Ways
import NodeLogs.Proofs.FileTree.Writing
import NodeLogs.Proofs.HostPath
import NodeLogs.Proofs.Runner
import NodeLogs.Proofs.Staging
import NodeLogs.Proofs.Streaming.Outcomes
import NodeLogs.Proofs.Streaming.Parties
import NodeLogs.Proofs.Text.Split
import NodeLogs.Proofs.Text.Utf8
import NodeLogs.Proofs.Unpack.Containment
import NodeLogs.Proofs.Unpack.Contents
import NodeLogs.Proofs.Unpack.Cuts
import NodeLogs.Proofs.Unpack.Layout
import NodeLogs.Proofs.Unpack.Member
import NodeLogs.Proofs.Unpack.Pieces
import NodeLogs.Proofs.Unpack.RoundTrip
import NodeLogs.Proofs.Unpack.Settled
import NodeLogs.Proofs.Unpack.Sizes
import NodeLogs.Proofs.Yaml.Characters
import NodeLogs.Proofs.Yaml.Document
import NodeLogs.Proofs.Yaml.Entries
import NodeLogs.Proofs.Yaml.Printing
import NodeLogs.Proofs.Yaml.Scalar.Block
import NodeLogs.Proofs.Yaml.Scalar.Plain
import NodeLogs.Proofs.Yaml.Scalar.Quoted
import NodeLogs.Proofs.Yaml.Scalars
import NodeLogs.Runner
import NodeLogs.Runner.Local
import NodeLogs.Runner.Script
import NodeLogs.Shell.Arithmetic
import NodeLogs.Shell.Builtin
import NodeLogs.Shell.Condition
import NodeLogs.Shell.Expansion
import NodeLogs.Shell.Flow
import NodeLogs.Shell.Input
import NodeLogs.Shell.Lookup
import NodeLogs.Shell.Pattern
import NodeLogs.Shell.Printf
import NodeLogs.Shell.Reading
import NodeLogs.Shell.Redirecting
import NodeLogs.Shell.Run
import NodeLogs.Shell.Session
import NodeLogs.Shell.Statement
import NodeLogs.Shell.Tools
import NodeLogs.Shell.WordReading
import NodeLogs.Staging
import NodeLogs.Streaming
import NodeLogs.Text.Lines
import NodeLogs.Text.Printable
import NodeLogs.Text.Quoted
import NodeLogs.Text.Utf8
import NodeLogs.Unpack
import NodeLogs.Yaml.Character
import NodeLogs.Yaml.Cursor
import NodeLogs.Yaml.Directive
import NodeLogs.Yaml.Document
import NodeLogs.Yaml.Lexer
import NodeLogs.Yaml.Meaning
import NodeLogs.Yaml.Node
import NodeLogs.Yaml.Scalar.Block
import NodeLogs.Yaml.Scalar.Gap
import NodeLogs.Yaml.Scalar.Plain
import NodeLogs.Yaml.Scalar.Quoted
import NodeLogs.Yaml.Tag
import NodeLogs.Yaml.Token
import NodeLogs.Yaml.Token.Reading
import NodeLogs.Yaml.Writing
import NodeLogs.Proofs.Unpack.Failing
import NodeLogs.Proofs.Archive.Parcels
import NodeLogs.Proofs.Unpack.Skipped
import NodeLogs.Proofs.Text.Decoding
import NodeLogs.Proofs.Unpack.Names
import NodeLogs.Proofs.NodePath
import NodeLogs.Proofs.Text.Lines
import NodeLogs.Proofs.Unpack.Again
import NodeLogs.Proofs.Unpack.MemberNames
import NodeLogs.Proofs.Archive.Visits
import NodeLogs.Proofs.Failure.Telling
import NodeLogs.Proofs.Unpack.Visits
import NodeLogs.Proofs.Config.Overlay
