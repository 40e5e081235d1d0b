import DartSdk.Loops.VisitLoop
import DartSdk.Ranges.IntConverter
import DartSdk.Streams.RoundTrip
import DartSdk.CompactHash.Views
import DartSdk.Splay.Iterator
import DartSdk.Queue.Refinement
import DartSdk.Convert.EncoderSinks
import DartSdk.Convert.Base64RoundTrip
import DartSdk.WebSocket.Outgoing
import DartSdk.BigInt.TruncatingDivision
import DartSdk.Uri.NormalForm
import DartSdk.Uri.Package
import DartSdk.Uri.IPv6Correct
import DartSdk.Dependencies.WalkerCorrect
import DartSdk.Exhaustiveness.Genuine
import DartSdk.LoadOptimizer.LazyInitializationSound
import DartSdk.LoadOptimizer.IndexedPlacesSound
import DartSdk.Http.Buffers
import DartSdk.Heap.FreeListCorrect
import DartSdk.Heap.CompactorCorrect
import DartSdk.Liveness.Exact
import DartSdk.Moves.Scratch
import DartSdk.Async.BroadcastLifecycle
import DartSdk.FlowAnalysis.Write
import DartSdk.FlowGraph.Receivers
