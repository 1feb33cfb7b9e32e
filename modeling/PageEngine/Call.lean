import PageEngine.Pool.Completion

/-!
# `Call.lean` — a request to the pool, cut into atomic sections

Transactions call the pool at the same time. What one of them does between two points at which others
may come in is a **section**, and a `Call` says which section comes next. `Call.step` runs it. The
sections are: one attempt to lock a page, fetching a locked page into the cache, reading or changing the
bytes of a fetched page, releasing a page, counting the pages of a file, growing it, installing one
changed frame, and the three parts of the end of a transaction.

A call that has to wait for a lock **sleeps** until the lock table wakes it, and then the attempt is made
again. The calls of one transaction sleep and wake each for itself.

> **an insert takes the first free slot** in the order of pages and slots. The lock of a full page is
> dropped again if this call was the one that took it, and the file grows only when every page is full.
-/

set_option autoImplicit false

namespace PageEngine

/-- What a client asks of the pool or of a store. -/
inductive Request where
  | lock (p : PageId) (m : Mode)
  | get (p : PageId) (a : Access)
  /-- To read every tuple of a heap file. -/
  | scan (h : HeapFile)
  | insert (table : TableId) (tuple : Tuple)
  | delete (tuple : Tuple)
  /-- To insert a tuple into a store without marking or caching the changed pages. -/
  | insertInto (s : Store) (tuple : Tuple)
  /-- To delete a stored tuple from a store without marking or caching the changed page. -/
  | deleteFrom (s : Store) (tuple : Tuple)
  | complete (commit : Bool)

/-- What a request leads to. -/
inductive Answer where
  | done
  | frame (f : FrameId)
  | rows (ts : List Tuple)
  /-- The frames that a store has changed. -/
  | frames (fs : List FrameId)

/-- An insert into a heap file on its way through the pages. -/
structure Insertion where
  heap : HeapFile
  /-- The number of pages when they were last counted. -/
  pages : Nat := 0
  /-- The position of the page to try. -/
  next : Nat := 0
  /-- Whether the transaction held that page before this call asked for it. -/
  heldBefore : Bool := false

namespace Insertion

def page (i : Insertion) : PageId := ⟨i.heap.table, i.next⟩

end Insertion

/-- What a call wants a page for. -/
inductive Use where
  | holdLock
  /-- To hand it to the client. -/
  | deliver
  /-- To collect its tuples, after the rows of the pages before it. -/
  | collect (h : HeapFile) (pages next : Nat) (rows : List Tuple)
  /-- To put the tuple of the call into it. -/
  | place (i : Insertion)
  /-- To free a slot of it. -/
  | remove (h : HeapFile) (slot : Nat)

/-- The section that a call runs next. -/
inductive Activity where
  /-- The first one of a request. -/
  | start (r : Request)
  /-- An attempt to lock a page. -/
  | locking (p : PageId) (m : Mode) (use : Use)
  /-- The next attempt, once the call is woken. -/
  | sleeping (ticket : Nat) (p : PageId) (m : Mode) (use : Use)
  /-- To fetch a page that is locked. -/
  | fetching (p : PageId) (use : Use)
  /-- To read or change a page that is fetched. -/
  | working (p : PageId) (f : FrameId) (use : Use)
  /-- To release a full page. -/
  | dropping (i : Insertion)
  /-- To count the pages of the heap file. -/
  | counting (i : Insertion)
  /-- To append a page to the heap file. -/
  | growing (i : Insertion)
  /-- To install the first of the changed frames. -/
  | installing (fs : List FrameId)
  /-- To release the locks of the transaction that ends. -/
  | releasing (commit : Bool) (pages : Except Error Unit)
  /-- To count the end of the transaction. -/
  | ending (commit : Bool) (result : Except Error Unit)
  /-- There is none. -/
  | finished (result : Except Error Answer)

/-- A request of a transaction that is being served. -/
structure Call where
  txn : TxnId
  activity : Activity
  /-- The tuple of an insert; it gets its record id as soon as its bytes are placed. -/
  tuple : Tuple := ⟨none, #[]⟩
  /-- Whether changed frames are marked and cached. -/
  installs : Bool := true

namespace Call

/-- The call that serves a request. -/
def ofRequest (t : TxnId) (r : Request) : Call :=
  let c : Call := { txn := t, activity := .start r }
  match r with
  | .insert _ tuple => { c with tuple }
  | .insertInto _ tuple => { c with tuple, installs := false }
  | .deleteFrom _ _ => { c with installs := false }
  | _ => c

def goOn (c : Call) (a : Activity) : Call := { c with activity := a }

def finish (c : Call) (r : Except Error Answer) : Call := c.goOn (.finished r)

def fail (c : Call) (e : Error) : Call := c.finish (.error e)

/-- The call after a store has changed the listed frames. -/
def changed (c : Call) (fs : List FrameId) : Call :=
  if c.installs then c.goOn (.installing fs) else c.finish (.ok (.frames fs))

/-- The result of a call, once it has one. -/
def result? (c : Call) : Option (Except Error Answer) :=
  match c.activity with
  | .finished r => some r
  | _ => none

/-- The lock that a call asks for. -/
def wants (c : Call) : Option (PageId × Mode) :=
  match c.activity with
  | .locking p m _ => some (p, m)
  | .sleeping _ p m _ => some (p, m)
  | _ => none

/-- The lock that a call sleeps for. -/
def sleepsFor (c : Call) (P : Pool Tables) : Option (PageId × Mode) :=
  match c.activity with
  | .sleeping ticket p m _ => if P.locks.sleeps ticket then some (p, m) else none
  | _ => none

/-- Whether there is a section to run. -/
def isReady (c : Call) (P : Pool Tables) : Bool := c.result?.isNone && (c.sleepsFor P).isNone

/-! ## The sections -/

/-- Goes to the page that an insert tries next, or to growing the file when there is none. -/
def tryNext (c : Call) (P : Pool Tables) (i : Insertion) : Call :=
  if i.next < i.pages then
    c.goOn (.locking i.page .exclusive
      (.place { i with heldBefore := P.locks.holds i.page c.txn }))
  else c.goOn (.growing i)

/-- Goes to the page from which a scan collects next, or gives the rows when there is none. -/
def collectNext (c : Call) (h : HeapFile) (pages next : Nat) (rows : List Tuple) : Call :=
  if next < pages then
    c.goOn (.locking ⟨h.table, next⟩ .shared (.collect h pages next rows))
  else c.finish (.ok (.rows rows))

/-- Reads fresh images of the pages at the given positions and counts one up in their last byte. -/
def touchFresh (P : Pool Tables) (h : HeapFile) :
    List Nat → List FrameId → Pool Tables × Except Error (List FrameId)
  | [], fs => (P, .ok fs)
  | n :: ns, fs =>
    match h.readPage P.storage.disk ⟨h.table, n⟩ with
    | .error e => (P, .error e)
    | .ok page =>
      let last := pageSize - 1
      let page := page.withData (page.data.setByte last (page.data.byte last + 1))
      touchFresh (P.addFrame page) h ns (fs ++ [P.nextFrame])

/-- Lets a detached store change the pages at the given positions. -/
def touch (c : Call) (P : Pool Tables) (h : HeapFile) (positions : List Nat) : Pool Tables × Call :=
  match touchFresh P h positions [] with
  | (P, .error e) => (P, c.fail e)
  | (P, .ok fs) => (P, c.changed fs)

/-- Starts to insert the tuple of the call into a store. -/
def startInsert (c : Call) (P : Pool Tables) : Store → Pool Tables × Call
  | .heap h =>
    if c.tuple.data.size = h.layout.width then (P, c.goOn (.counting { heap := h }))
    else (P, c.fail .wrongTupleWidth)
  | .detached h => c.touch P h (c.tuple.data.toList.map UInt8.toNat)

/-- Starts to delete the tuple with a record id from a store. -/
def startDelete (c : Call) (P : Pool Tables) (r : RecordId) : Store → Pool Tables × Call
  | .heap h =>
    if r.page.table ≠ h.table then (P, c.fail .foreignTuple)
    else if h.layout.slots ≤ r.slot then (P, c.fail .slotOutOfRange)
    else (P, c.goOn (.locking r.page .exclusive (.remove h r.slot)))
  | .detached h => c.touch P h [r.page.pageNo]

/-- The first section of a request. -/
def start (c : Call) (P : Pool Tables) : Request → Pool Tables × Call
  | .lock p m => (P, c.goOn (.locking p m .holdLock))
  | .get p a => (P, c.goOn (.locking p a.mode .deliver))
  | .scan h =>
    match h.numPages P.storage.disk with
    | .error e => (P, c.fail e)
    | .ok pages => (P, c.collectNext h pages 0 [])
  | .insert table _ =>
    match P.storage.store table with
    | .error e => (P, c.fail e)
    | .ok s => c.startInsert P s
  | .delete tuple =>
    match tuple.recordId with
    | none => (P, c.fail .noRecordId)
    | some r =>
      match P.storage.store r.page.table with
      | .error e => (P, c.fail e)
      | .ok s => c.startDelete P r s
  | .insertInto s _ => c.startInsert P s
  | .deleteFrom s tuple =>
    match tuple.recordId, s with
    | some r, s => c.startDelete P r s
    | none, .heap _ => (P, c.fail .noRecordId)
    | none, .detached h => c.touch P h []
  | .complete commit =>
    let (P, r) := P.settlePages c.txn commit
    (P, c.goOn (.releasing commit r))

/-- One attempt to lock a page. -/
def attemptLock (c : Call) (P : Pool Tables) (p : PageId) (m : Mode) (use : Use) :
    Pool Tables × Call :=
  match P.locks.attempt p c.txn m with
  | (L, .granted) =>
    (P.withLocks L, match use with
      | .holdLock => c.finish (.ok .done)
      | _ => c.goOn (.fetching p use))
  | (L, .sleeps ticket) => (P.withLocks L, c.goOn (.sleeping ticket p m use))
  | (L, .deadlock) => (P.withLocks L, c.fail (.aborted c.txn))

/-- Puts the tuple of the call into the first free slot of a fetched page. -/
def place (c : Call) (P : Pool Tables) (f : FrameId) (i : Insertion) : Pool Tables × Call :=
  let page := P.page f
  match i.heap.layout.freeSlot page.data with
  | some slot =>
    (P.setPage f (page.withData (i.heap.layout.place page.data slot c.tuple.data)),
      { c with tuple := { c.tuple with recordId := some ⟨i.page, slot⟩ } }.changed [f])
  | none =>
    -- Nothing was read from the page on which the outcome depends, so its lock may go again.
    if i.heldBefore then (P, c.tryNext P { i with next := i.next + 1 })
    else (P, c.goOn (.dropping i))

/-- Frees a slot of a fetched page. -/
def remove (c : Call) (P : Pool Tables) (f : FrameId) (slot : Nat) : Pool Tables × Call :=
  let page := P.page f
  if SlotLayout.isUsed page.data slot then
    (P.setPage f (page.withData (SlotLayout.setUsed page.data slot false)), c.changed [f])
  else (P, c.fail .noTuple)

/-- Does with a fetched page what the call wants it for. -/
def useFrame (c : Call) (P : Pool Tables) (p : PageId) (f : FrameId) : Use → Pool Tables × Call
  | .holdLock => (P, c.finish (.ok .done))
  | .deliver => (P, c.finish (.ok (.frame f)))
  | .collect h pages next rows =>
    (P, c.collectNext h pages (next + 1) (rows ++ h.layout.tuples p (P.page f).data))
  | .place i => c.place P f i
  | .remove _ slot => c.remove P f slot

/-- Runs the next section of a call. Nothing happens while it sleeps. -/
def step (c : Call) (P : Pool Tables) : Pool Tables × Call :=
  match c.activity with
  | .start r => c.start P r
  | .locking p m use => c.attemptLock P p m use
  | .sleeping ticket p m use =>
    if P.locks.sleeps ticket then (P, c) else c.attemptLock P p m use
  | .fetching p use =>
    match P.fetch p with
    | (P, .error e) => (P, c.fail e)
    | (P, .ok f) => (P, c.goOn (.working p f use))
  | .working p f use => c.useFrame P p f use
  | .dropping i =>
    match P.releasePage i.page c.txn with
    | (P, .error e) => (P, c.fail e)
    | (P, .ok ()) => (P, c.tryNext P { i with next := i.next + 1 })
  | .counting i =>
    match i.heap.numPages P.storage.disk with
    | .error e => (P, c.fail e)
    | .ok pages => (P, c.tryNext P { i with pages })
  | .growing i =>
    match i.heap.append P.storage.disk i.pages with
    | (disk, .error e) => ({ P with storage := { P.storage with disk } }, c.fail e)
    | (disk, .ok ()) => ({ P with storage := { P.storage with disk } }, c.goOn (.counting i))
  | .installing [] => (P, c.finish (.ok .done))
  | .installing (f :: fs) =>
    match P.install c.txn f with
    | (P, .error e) => (P, c.fail e)
    | (P, .ok ()) => (P, c.goOn (.installing fs))
  | .releasing commit pages =>
    let (P, released) := P.releaseAll c.txn
    (P, c.goOn (.ending commit (Pool.bothOk pages released)))
  | .ending commit r => (P.countEnd commit, c.finish (r.map fun _ => .done))
  | .finished _ => (P, c)

end Call

end PageEngine
