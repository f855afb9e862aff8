import MmHashChainSigs.Foundation.Chain
import MmHashChainSigs.Foundation.Segments
import MmHashChainSigs.Common.RoundTrip
import MmHashChainSigs.Verify.Verifier
import MmHashChainSigs.Verify.Steps
import MmHashChainSigs.Verify.Main
import MmHashChainSigs.Verify.FailClosed
import MmHashChainSigs.Verify.Grammar
import MmHashChainSigs.Verify.Acceptance
import MmHashChainSigs.Verify.TrustStore
import MmHashChainSigs.Module.Worker
import MmHashChainSigs.Module.Action
import MmHashChainSigs.Module.State
import MmHashChainSigs.Module.Calls
import MmHashChainSigs.System.Life
import MmHashChainSigs.System.Tamper
import MmHashChainSigs.System.Simulation
import MmHashChainSigs.System.LockStep
import MmHashChainSigs.Common.CertElement
import MmHashChainSigs.System.Payload
import MmHashChainSigs.Module.Retry
import MmHashChainSigs.Module.Coverage
import MmHashChainSigs.Verify.Capacity
import MmHashChainSigs.Common.Scan
import MmHashChainSigs.Common.StripAll
import MmHashChainSigs.Module.Collision
import MmHashChainSigs.Verify.Independence
import MmHashChainSigs.System.Restart
import MmHashChainSigs.System.Suspend
import MmHashChainSigs.Verify.Pinned
import MmHashChainSigs.System.Edits
import MmHashChainSigs.Common.Header
import MmHashChainSigs.Common.HexText
import MmHashChainSigs.Common.Lookup
import MmHashChainSigs.Common.Numerals
import MmHashChainSigs.Module.Headers
import MmHashChainSigs.Common.InPlace
import MmHashChainSigs.Module.LoadedState
import MmHashChainSigs.Verify.UnsignedTail
import MmHashChainSigs.Verify.ExitCode
import MmHashChainSigs.Foundation.Files
import MmHashChainSigs.Module.StateDir
import MmHashChainSigs.System.Plugin
import MmHashChainSigs.System.PluginLife
import MmHashChainSigs.System.Instances
import MmHashChainSigs.Verify.ErrorList
import MmHashChainSigs.Verify.Strictness
import MmHashChainSigs.Verify.Bundle
import MmHashChainSigs.Verify.LogFile
import MmHashChainSigs.Verify.Rotation
import MmHashChainSigs.System.EndToEnd
import MmHashChainSigs.Verify.CommandLine
import MmHashChainSigs.Verify.Window
import MmHashChainSigs.System.KeyChange
import MmHashChainSigs.System.Certified
