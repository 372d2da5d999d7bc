import HdlPorts.Session.Batch

/-! Batches whose builds run at the same time.

The builds of a first pass share nothing but the table of names. They can therefore take turns, port
by port, in any order. A schedule says whose turn it is; it lists positions in the batch. What the
builds end with is then used in the order of the batch, whatever the schedule was.
-/

set_option autoImplicit false

namespace HdlPorts

/-- A build that is under way. -/
inductive Job where
  | waiting (m : Module) (digest : Digest)
  | taking (m : Module) (moduleName : String) (progress : Progress) (ports : List Port)
  | ended (result : Attempt Rejection Entity)

namespace Job

/-- One turn: find the module's name, take one port, or finish once no port is left. -/
def step (settings : Settings) (names : Names) : Job → Job × Names
  | waiting m digest =>
    match names.text m.name with
    | .error fault => (ended (.error (.broken fault)), names)
    | .ok moduleName => (taking m moduleName (.start m digest) m.ports, names)
  | taking m moduleName progress [] => (ended (progress.finish moduleName m.span names), names)
  | taking m moduleName progress (port :: rest) =>
    match Progress.takePort settings moduleName progress port names with
    | (.error stop, names) => (ended (.error stop), names)
    | (.ok progress, names) => (taking m moduleName progress rest, names)
  | ended result => (ended result, names)

end Job

namespace Session

/-- The builds of a first pass before any of them has had a turn. Nothing stands for a module that
is not built then. -/
def jobs (picked : List (Module × Option Digest)) : List (Option Job) :=
  picked.map fun (m, digest) => digest.map (Job.waiting m)

/-- A turn of the build at a position. Nothing happens if there is none. -/
def turn (settings : Settings) (names : Names) : Nat → List (Option Job) → List (Option Job) × Names
  | _, [] => ([], names)
  | 0, none :: rest => (none :: rest, names)
  | 0, some job :: rest =>
    let (job, names) := job.step settings names
    (some job :: rest, names)
  | position + 1, job :: rest =>
    let (rest, names) := turn settings names position rest
    (job :: rest, names)

def turns (settings : Settings) : List Nat → List (Option Job) → Names → List (Option Job) × Names
  | [], jobs, names => (jobs, names)
  | position :: schedule, jobs, names =>
    let (jobs, names) := turn settings names position jobs
    turns settings schedule jobs names

/-- What the builds have ended with, if all of them have. -/
def ended? : List (Option Job) → Option (List (Option (Attempt Rejection Entity)))
  | [] => some []
  | none :: rest => (ended? rest).map (none :: ·)
  | some (.ended result) :: rest => (ended? rest).map (some result :: ·)
  | some _ :: _ => none

/-- The first fault in the order of the batch is the one that is reported. -/
def settleAll : List (Option (Attempt Rejection Entity)) →
    Checked (List (Option (Except Rejection Entity)))
  | [] => .ok []
  | none :: rest => do return none :: (← settleAll rest)
  | some result :: rest => do
    let built ← result.settle
    return some built :: (← settleAll rest)

/-- Elaborate a batch whose first pass follows a schedule. Nothing comes of a schedule that leaves a
build unfinished. -/
def elaborateAllBy (schedule : List Nat) (session : Session) (modules : List Module) :
    Option (Checked (List Outcome × Session)) :=
  let picked := modules.zip (session.pick [] modules)
  let (jobs, names) := turns session.settings schedule (jobs picked) session.names
  (ended? jobs).map fun results => do
    let built ← settleAll results
    replay { session with names } (modules.zip built)

end Session

end HdlPorts
