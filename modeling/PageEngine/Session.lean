import PageEngine.Call

/-!
# `Session.lean` — running calls until they wait

A session is a pool with the calls that were begun and have not ended. After every request it runs on
until each of them has ended or sleeps: first the new call as far as it gets, then, as long as one can
run, the earliest call that can. A **job** is a list of requests of one transaction that are made one
after another, up to the first failure.

> **nothing is left to run**: after a request every unfinished call sleeps for a lock, unless the bound
> on the number of sections is used up.
-/

set_option autoImplicit false

namespace PageEngine

/-- Requests of a transaction that are made one after another. -/
structure Job where
  /-- The number under which the job was begun. -/
  number : Nat
  call : Call
  /-- The requests to make after it. -/
  rest : List Request := []
  /-- The number of requests that were served before. -/
  served : Nat := 0

/-- How a job ended. -/
structure Ending where
  result : Except Error Answer
  /-- The tuple of its last request, with the record id that it got. -/
  tuple : Tuple
  /-- The number of requests that were served before the last one. -/
  served : Nat

/-- Where a job stands. -/
inductive Status where
  | ended (e : Ending)
  /-- It sleeps for a lock. -/
  | waits (p : PageId) (m : Mode)
  /-- It could go on. -/
  | ready

namespace Job

/-- The job that makes a list of requests. -/
def start (number : Nat) (t : TxnId) : List Request → Job
  | [] => { number, call := { txn := t, activity := .finished (.ok .done) } }
  | r :: rest => { number, call := Call.ofRequest t r, rest }

/-- Where a job stands. -/
def status (j : Job) (P : Pool Tables) : Status :=
  match j.call.result? with
  | some (.error e) => .ended ⟨.error e, j.call.tuple, j.served⟩
  | some (.ok a) => if j.rest.isEmpty then .ended ⟨.ok a, j.call.tuple, j.served⟩ else .ready
  | none =>
    match j.call.sleepsFor P with
    | some (p, m) => .waits p m
    | none => .ready

/-- Whether the job can go on. -/
def isReady (j : Job) (P : Pool Tables) : Bool :=
  match j.status P with
  | .ready => true
  | _ => false

/-- Runs the next section, or begins the next request. -/
def step (j : Job) (P : Pool Tables) : Pool Tables × Job :=
  match j.call.result?, j.rest with
  | some (.ok _), r :: rest =>
    (P, { j with call := Call.ofRequest j.call.txn r, rest, served := j.served + 1 })
  | _, _ =>
    let (P, call) := j.call.step P
    (P, { j with call })

/-- Runs a job until it ends or sleeps, for at most the given number of sections. -/
def run : Nat → Job → Pool Tables → Pool Tables × Job
  | 0, j, P => (P, j)
  | n + 1, j, P =>
    if j.isReady P then
      let (P, j) := j.step P
      run n j P
    else (P, j)

end Job

/-- A pool and the jobs that have not ended, in the order of their numbers. -/
structure Session where
  pool : Pool Tables
  jobs : List Job := []

namespace Session

/-- A bound on the number of sections between two requests that no finite answer reaches. -/
def sectionLimit : Nat := 1000000000000

/-- Runs the first of the listed jobs that can go on. -/
def runFirst (P : Pool Tables) : List Job → Option (Pool Tables × List Job)
  | [] => none
  | j :: js =>
    if j.isReady P then
      let (P, j) := j.run sectionLimit P
      some (P, j :: js)
    else (runFirst P js).map fun (P, js) => (P, j :: js)

/-- Runs jobs as long as one can go on. -/
def settleJobs : Nat → Session → Session
  | 0, S => S
  | n + 1, S =>
    match runFirst S.pool S.jobs with
    | none => S
    | some (pool, jobs) => settleJobs n { pool, jobs }

/-- Whether a job has got anywhere since it asked for a lock, or for none. -/
def moved (before : Option (PageId × Mode)) (now : Status) : Bool :=
  match before, now with
  | some (p, m), .waits q n => !(decide (p = q) && decide (m = n))
  | _, _ => true

/-- Runs on until no job can, and gives the jobs that ended or that sleep for another lock than the one
they asked for before, each with where it stands now. Jobs that ended leave the session. -/
def settleFrom (S : Session) (before : List (Option (PageId × Mode))) :
    Session × List (Nat × Status) :=
  let S := settleJobs sectionLimit S
  let report := (before.zip S.jobs).filterMap fun (b, j) =>
    let now := j.status S.pool
    if moved b now then some (j.number, now) else none
  let going := S.jobs.filter fun j =>
    match j.status S.pool with
    | .ended _ => false
    | _ => true
  ({ S with jobs := going }, report)

def wants (S : Session) : List (Option (PageId × Mode)) := S.jobs.map fun j => j.call.wants

/-- Runs on after the pool was changed. -/
def settle (S : Session) (P : Pool Tables) : Session × List (Nat × Status) :=
  { S with pool := P }.settleFrom S.wants

/-- Begins a job and runs on; the new job is always in the report. -/
def submit (S : Session) (number : Nat) (t : TxnId) (requests : List Request) :
    Session × List (Nat × Status) :=
  -- The new job goes first, before those that it wakes.
  let (pool, job) := (Job.start number t requests).run sectionLimit S.pool
  settleFrom { pool, jobs := S.jobs ++ [job] } (S.wants ++ [none])

end Session

end PageEngine
