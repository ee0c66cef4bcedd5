import EtherApe.Conversations.Flows
import EtherApe.Conversations.Deletion
import EtherApe.Datastructs.Compact
import EtherApe.Datastructs.Vectors
import EtherApe.Preferences
import EtherApe.IpCache.Runs
import EtherApe.IpCache.Retries
import EtherApe.Resolver.Lifetimes
import EtherApe.Resolver.Fifo
import EtherApe.Resolver.SlowLookup
import EtherApe.DecodeProto.Reads
import EtherApe.DecodeProto.Stack
import EtherApe.DecodeProto.NodeTypes
import EtherApe.DecodeProto.Snap
import EtherApe.DecodeProto.Framings
import EtherApe.DecodeProto.Addresses
import EtherApe.DecodeProto.Replies
import EtherApe.DecodeProto.FtpReplies
import EtherApe.DecodeProto.Passive
import EtherApe.DecodeProto.Services
import EtherApe.DecodeProto.Fragments
import EtherApe.TrafficStats.Accounting
import EtherApe.TrafficStats.Refresh
import EtherApe.TrafficStats.Subtraction
import EtherApe.Capture.References
import EtherApe.Capture.Directions
import EtherApe.Capture.Conservation
import EtherApe.Capture.Orphans
import EtherApe.Diagram.NewNodes
import EtherApe.Replay.Timers
import EtherApe.Replay.Packets
import EtherApe.Export.RoundTrip
import EtherApe.Names.Reads
import EtherApe.Names.Filled
import EtherApe.Names.Netbios
import EtherApe.Names.Levels
import EtherApe.Names.IpHeaders
import EtherApe.Names.Endpoints
import EtherApe.Names.LinkAddresses
import EtherApe.NamesNetbios.Writes
import EtherApe.NodeWindows
import EtherApe.Diagram.LimitNodes
import EtherApe.Datastructs.ServicesLoaded
import EtherApe.Datastructs.Colors
import EtherApe.Datastructs.ColorCycle
import EtherApe.Lib.Chains
import EtherApe.Resolv
import EtherApe.Resolv.Cache
import EtherApe.InfoWindows
import EtherApe.InfoWindows.Synchronise
import EtherApe.Lib.Grouping
import EtherApe.NodeNames
import EtherApe.NodeNames.Labels
import EtherApe.NodeNames.Runs
import EtherApe.NodeNames.Texts
import EtherApe.Diagram.CanvasLinks
import EtherApe.Diagram.Legend
import EtherApe.Diagram.Emptied
import EtherApe.Resolver.Answers
import EtherApe.Lib.Numerals
import EtherApe.Util.AddressTexts
import EtherApe.NodeNames.IdTexts
import EtherApe.Capture.NodeIds
import EtherApe.PrefDialog
import EtherApe.PrefDialog.Rows
import EtherApe.PrefDialog.Runs
import EtherApe.Lib.MainLoop
import EtherApe.Menus
import EtherApe.Menus.Refresh
import EtherApe.DecodeProto.Payloads
