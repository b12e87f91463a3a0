import Acheron.Backend
import Acheron.RegisterFile
import Acheron.DecoderOperands
import Acheron.TableBase
import Acheron.LeafRange
import Acheron.Shifts
import Acheron.CallResults
import Acheron.AccessRights
import Acheron.TlbInvalidation
import Acheron.AddressFields
import Acheron.RegisterNames
import Acheron.LoadElf
import Acheron.MemorySize
import Acheron.TlbCapacity
import Acheron.UncachedMMU
import Acheron.TlbStaleness
import Acheron.TableBuilding
import Acheron.ReportedRegions
import Acheron.BackendRuns
import Acheron.AccessLog
import Acheron.MainProgram
import Acheron.ConfigText
