import V120.Common.BitFields
import V120.Common.FirstMatch
import V120.Common.HighestBit
import V120.Common.Runs
import V120.Common.TerminatedArray
import V120.Common.Tally
import V120.Common.Memory
import V120.Common.Spans
import V120.Common.Stretches
import V120.Common.BlockReads
import V120.Common.Texts
import V120.Irqd.Selector
import V120.Irqd.VectorTable
import V120.Irqd.Registry
import V120.Irqd.TableRefinement
import V120.Irqd.TableRuns
import V120.Irqd.PackedSelectors
import V120.Irqd.RoundTrip
import V120.Irqd.Coverage
import V120.Irqd.Messages
import V120.Irqd.PollList
import V120.Irqd.Daemon
import V120.Irqd.SocketIo
import V120.Irqd.VmeSearch
import V120.Irqd.Handlers
import V120.Irqd.DaemonRuns
import V120.Irqd.Connections
import V120.Irqd.Dispatch
import V120.Irqd.EnableMasks
import V120.Irqd.FatalBranches
import V120.Irqd.ExactMasks
import V120.Irqd.Termination
import V120.Irqd.StatusReports
import V120.Irqd.StaleBuffers
import V120.Irqd.Refusals
import V120.Irqd.ServerSteps
import V120.Irqd.BlockingReads
import V120.Irqd.PollPass
import V120.Irqd.PollMemory
import V120.Irqd.SharedLines
import V120.Irqd.PendingInterrupters
import V120.Irqd.ClientCalls
import V120.Irqd.Network
import V120.Irqd.Pairing
import V120.Irqd.Accounts
import V120.Irqd.Crossings
import V120.Irqd.Agreement
import V120.Irqd.BitIndex
import V120.Vme.Handle
import V120.Vme.Mapping
import V120.Vme.Translation
import V120.Vme.DescriptorBounds
import V120.Vme.PageCounts
import V120.Vme.Releases
import V120.Vme.Crates
import V120.Vme.Renumbering
import V120.Tool.Arguments
import V120.Tool.Flash
import V120.Tool.ReadWrite
import V120.Tool.WriteStdin
import V120.Tool.StdinRegion
import V120.Tool.UnitBounds
import V120.Tool.StdinReports
import V120.Tool.TokenBounds
import V120.Tool.CrateNumbers
import V120.Tool.Scan
import V120.Common.Lines
import V120.Common.Numerals
import V120.Common.LinkedLists
import V120.Common.Horner
import V120.Common.Cells
import V120.Common.TextCursor
import V120.Tui.Files
import V120.Tui.Tokens
import V120.Tui.ScriptWords
import V120.Tui.ScriptLines
import V120.Tui.LoadFile
import V120.Tui.Rnm
import V120.Tui.RnmPasses
import V120.Tui.RnmOwnership
import V120.Tui.RnmCache
import V120.Tui.HashStrings
import V120.Tui.RnmText
import V120.Tui.StripInPlace
import V120.Tui.RnmRoundTrip
import V120.Tui.RnmNames
import V120.Tui.Buffers
import V120.Tui.BufferRuns
import V120.Tui.Browser
import V120.Tui.Navigation
import V120.Tui.EditLine
import V120.Tui.Prompts
import V120.Tui.RegisterNames
import V120.Tui.BufferList
import V120.Tui.Cards
import V120.Tui.ScriptInvariants
import V120.Tui.Session
import V120.Tui.SessionBuffers
import V120.Tui.SessionCommands
import V120.Tui.SessionRuns
import V120.Tui.SessionKeys
import V120.Common.HostOrder
import V120.Tool.ReadOutput
import V120.Vme.RegionLinks
import V120.Vme.Resources
import V120.Tool.ForEachCrate
import V120.Tool.Requester
import V120.Vme.Pages
import V120.Tool.ScanCrates
