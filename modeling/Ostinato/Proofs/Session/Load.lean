import Ostinato.Command.Outcome
import Ostinato.Proofs.Record.RecordType
import Ostinato.Proofs.Session.Arrival

/-!
# Faults of session files

Which files lead to a session or to a message on it, and which faults come through from below.
-/

namespace Ostinato

open Success

namespace Session

section Stages

variable {path : Path} {bytes : List UInt8} {objection : String} {fault : Fault}

end Stages

/-! ### Files -/

section Files

variable {written : String} {reader : Reader} {bytes : List UInt8}

/-- A session that says nothing but its seed. -/
def seven : List UInt8 := "seed: 7".toList.flatMap String.utf8EncodeChar

end Files

end Session

end Ostinato
