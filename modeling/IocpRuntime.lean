import IocpRuntime.Proofs.ArgumentScans
import IocpRuntime.Proofs.ConnectReports
import IocpRuntime.Proofs.FrameBursts
import IocpRuntime.Proofs.FrameSafety
import IocpRuntime.Proofs.HpackAgreement
import IocpRuntime.Proofs.HpackRuns
import IocpRuntime.Proofs.HpackSafety
import IocpRuntime.Proofs.HpackSession
import IocpRuntime.Proofs.HuffmanCoding
import IocpRuntime.Proofs.LengthPrefixedRuns
import IocpRuntime.Proofs.LinearBuffer
import IocpRuntime.Proofs.OutboundCredit
import IocpRuntime.Proofs.OwedResponses
import IocpRuntime.Proofs.PageText
import IocpRuntime.Proofs.PostedForms
import IocpRuntime.Proofs.ParserLimits
import IocpRuntime.Proofs.ProtocolDetection
import IocpRuntime.Proofs.ReceiveCapacity
import IocpRuntime.Proofs.ReceiveCredit
import IocpRuntime.Proofs.ResponseKept
import IocpRuntime.Proofs.ResponseLines
import IocpRuntime.Proofs.ResponseOrder
import IocpRuntime.Proofs.RouteTable
import IocpRuntime.Proofs.SameRequests
import IocpRuntime.Proofs.SessionMemory
import IocpRuntime.Proofs.ShutdownBarrier
import IocpRuntime.Proofs.StreamLimit
import IocpRuntime.Proofs.TaskPackets
import IocpRuntime.Proofs.TemplateText
import IocpRuntime.Proofs.WindowOverflow
import IocpRuntime.Proofs.WireOrder
import IocpRuntime.Proofs.TimerRuns
