import Rolp.Annotation.Lookup
import Rolp.Bitmap.ExactSearch
import Rolp.Bitmap.Refinement
import Rolp.C1.LiveRanges
import Rolp.CSet.MixedCollections
import Rolp.CSet.ParFilling
import Rolp.ClassFile.FieldLayoutSound
import Rolp.ClassFile.LocalVariableTables
import Rolp.Code.CriticalReserve
import Rolp.Code.PcDescLookup
import Rolp.Context.CallTree
import Rolp.Context.TextHash
import Rolp.Dictionary.Refinement
import Rolp.Heap.Accounting
import Rolp.Heap.CardPublication
import Rolp.Heap.Generations
import Rolp.Heap.RegionExhaustion
import Rolp.Heap.RegionListShape
import Rolp.Heap.RegionSearch
import Rolp.Heap.SplitExactness
import Rolp.Heap.Tlab
import Rolp.Mark.Theorems
import Rolp.Memory.ChunkManager
import Rolp.Mmu.Scheduling
import Rolp.Opto.Modulo
import Rolp.Profiler.AllocatedSurvivors
import Rolp.Profiler.Theorems
import Rolp.Profiler.Schedule
import Rolp.Profiler.TableOps
import Rolp.RemSet.HotCardCache
import Rolp.RemSet.Iteration
import Rolp.Satb.Enqueue
import Rolp.Stream.RoundTrip
import Rolp.TaskQueue.TagWrap
import Rolp.Utf8.QuotedAscii
import Rolp.Utilities.QuickSort
import Rolp.Utilities.Rehashing
import Rolp.Utilities.Stack
import Rolp.Libadt.DictMap
import Rolp.Verifier.VerificationType
