import Aesd.LockedServer

/-! When the file service can go on, from the same calls under `file_mutex`. A handler that an
alarm lays over the thread that has the mutex waits for it for ever, and everybody else with
it. -/
namespace Aesd
open Machine

namespace LockedServer

/-- The alarm does not come to the thread that has the mutex. -/
def SparesOwner (s : LockedServer) : ThreadEvent → Prop
  | .alarm id _ => s.owner ≠ some id
  | _ => True

variable {s t : LockedServer} {id : ℕ} {o : Option (ℕ × Bytes)}

end LockedServer

namespace Tracks

variable {s t : LockedServer} {u : FileServer} {l : Ledger} {id : ℕ} {r : FileRoutine} {stage : Stage}

end Tracks

namespace LockedServer

variable {s t : LockedServer} {id : ℕ} {o : Option (ℕ × Bytes)}

end LockedServer

end Aesd
