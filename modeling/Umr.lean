import Umr.Lib.Bytes
import Umr.Lib.Codec
import Umr.Rumr.Buffer
import Umr.Rumr.Tcp
import Umr.Rumr.Protocol
import Umr.Rumr.Server
import Umr.Rumr.Packet
import Umr.Rumr.Client
import Umr.Rumr.Connection
import Umr.Rumr.Agreement
import Umr.Rumr.Dispatch
import Umr.Rumr.Banking
import Umr.Rumr.Bounds
import Umr.Rumr.RemoteMemory
import Umr.Waves.ReadGprwave
import Umr.Waves.WaveOps
import Umr.Waves.ScanWaves
import Umr.Lib.Tally
import Umr.Waves.Profile
import Umr.Rumr.RemoteGpr
import Umr.Rumr.SerialAsic
import Umr.Rumr.SerialAsicRoundTrip
import Umr.Lib.Run
import Umr.Lib.Records
import Umr.Rumr.BufferRuns
import Umr.Lib.Circular
import Umr.Lib.Fault
import Umr.Packet.Ring
import Umr.Lib.Nesting
import Umr.Lib.Framing
import Umr.Packet.Pm4
import Umr.Packet.Pm4Framing
import Umr.Packet.Sdma
import Umr.Packet.SdmaFraming
import Umr.Packet.Vpe
import Umr.Packet.VpeOpcodes
import Umr.Packet.Parsed
import Umr.Packet.IbNesting
import Umr.Packet.UvdIb
import Umr.Lib.Slices
import Umr.Packet.MesVcn
import Umr.Packet.Disassemble
import Umr.Packet.FindShader
import Umr.Packet.Resume
import Umr.Packet.Hsa
import Umr.Packet.MesOpcodes
import Umr.Lib.Fetching
import Umr.Packet.Pm4Opcodes
import Umr.Packet.Pm4History
import Umr.Packet.VcnUnified
import Umr.Gui.RingAnswer
import Umr.Gui.RingSlices
import Umr.Gui.RingComplete
import Umr.Packet.Stored
import Umr.Packet.SdmaOpcodes
import Umr.Packet.SdmaPayloads
import Umr.Packet.SdmaAnnounced
import Umr.Packet.Umsch
import Umr.Gui.RingFormats
import Umr.Lib.Word64
import Umr.Lib.ByteStore
import Umr.Vm.Entry
import Umr.Vm.Device
import Umr.Vm.Walk
import Umr.Vm.Access
import Umr.Vm.Tables
import Umr.Vm.Further
import Umr.Vm.Levels
import Umr.Vm.Leaf
import Umr.Vm.Moves
import Umr.Vm.Bulk
import Umr.Vm.ViWalk
import Umr.Vm.ViBulk
import Umr.Lib.Loop
import Umr.Lib.LowerBound
import Umr.Registers.Accel
import Umr.Registers.Names
import Umr.Registers.FindReg
import Umr.Registers.NamedIp
import Umr.Lib.Glob
import Umr.Registers.Expression
import Umr.Registers.Wild
import Umr.Registers.Bitslice
import Umr.Registers.SetBit
import Umr.Lib.Markers
import Umr.Lib.Traverse
import Umr.Registers.ScanLog
import Umr.Registers.RegAccess
import Umr.Vm.Hive
import Umr.Vm.RangeCheck
import Umr.Vm.Path
import Umr.Vm.Termination
import Umr.Vm.Report
import Umr.Gui.VmRequests
import Umr.Gui.Accumulate
import Umr.Gui.TraceEvents
import Umr.Lib.Interning
import Umr.Gui.StringTable
import Umr.Gui.TraceHandOver
import Umr.Gui.FenceInfo
import Umr.Gui.VmInfo
import Umr.Gui.VmInfoRead
import Umr.Gui.VmInfoSections
import Umr.Gui.VmInfoPids
import Umr.Gui.PpFeatures
import Umr.Gui.PpFeaturesRead
import Umr.Gui.GemInfo
import Umr.Gui.GemInfoRead
import Umr.Gui.EventFields
import Umr.Gui.EventFieldsRead
import Umr.Gui.TraceReader
import Umr.Gui.TraceLines
import Umr.Gui.AsicLookup
import Umr.Vm.Capture
import Umr.Vm.CapturedCall
import Umr.Lib.Hex
import Umr.Harness.Tokens
import Umr.Harness.Script
import Umr.Harness.ScriptEnds
import Umr.Harness.Lists
import Umr.Harness.Log
import Umr.Lib.KeyedQueue
import Umr.Harness.Replay
import Umr.Harness.MmioRuns
import Umr.Harness.VramMmio
import Umr.Harness.Recorder
import Umr.Harness.RecordReplay
import Umr.Harness.RegClasses
import Umr.Harness.Trace
import Umr.Harness.Sgprs
import Umr.Harness.SgprReplay
import Umr.Lib.BigEndian
import Umr.Lib.Scan
import Umr.Lib.Linked
import Umr.Lib.Ranks
import Umr.Database.Match
import Umr.Database.Scan
import Umr.Database.Soc15
import Umr.Database.Soc15File
import Umr.Database.RegFile
import Umr.Database.Discover
import Umr.Database.DiscoveryTable
import Umr.Harness.Discovery
import Umr.Database.IpInstances
import Umr.Database.ExportModel
import Umr.Database.ExportedOffsets
import Umr.Database.PlacedRegisters
import Umr.Database.ModelReadBack
import Umr.Lib.Keyed
import Umr.Compiler.Header
import Umr.Compiler.Offsets
import Umr.Compiler.Registers
import Umr.Compiler.RegisterTables
import Umr.Compiler.RegistersRead
import Umr.Compiler.RegistersFound
import Umr.Lib.Truncation
import Umr.Rumr.TruncatedAsic
import Umr.Rumr.AsicOverread
import Umr.Rumr.AsicCuts
import Umr.App.RingPresent
import Umr.App.RingPm4
import Umr.Lib.Placed
import Umr.Vm.Flat
import Umr.Packet.ShaderSize
import Umr.Registers.NamedStore
