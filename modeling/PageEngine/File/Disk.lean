import Std.Data.ExtTreeMap
import PageEngine.File.Memory
import PageEngine.File.System

/-!
# `File/Disk.lean` — the files that stores lie on, and their faults

A disk is a set of named files, each in memory or of the operating system. A file can be told to fail:
reads, syncs and the length fail while they are marked, and writes fail once the allowed number is used
up. **A failing call has no effect.** The length can also be misreported. A file of the operating system
can also be opened a second time by itself, and then nothing of this shows; a file in memory cannot.
-/

set_option autoImplicit false

namespace PageEngine

open Std

/-- A file of either kind. -/
inductive File where
  | memory (f : MemoryFile)
  | system (f : SystemFile)
deriving DecidableEq

namespace File

/-- Every call moves all that remains. -/
def wholeTransfers : Transfers := fun _ => systemOffsetLimit

def isSystem : File → Bool
  | memory _ => false
  | system _ => true

def bytes : File → Bytes
  | memory f => f.bytes
  | system f => f.bytes

def len (f : File) : Nat := f.bytes.size

def readAt : File → Nat → Nat → Except Error Bytes
  | memory f, off, len => f.readAt off len
  | system f, off, len => f.readAt wholeTransfers off len

def writeAt : File → Nat → Bytes → File × Except Error Unit
  | memory f, off, src =>
    let (f, r) := f.writeAt off src
    (memory f, r)
  | system f, off, src =>
    let (f, r) := f.writeAt wholeTransfers off src
    (system f, r)

def sync : File → File
  | memory f => memory f.sync
  | system f => system f

end File

/-- Which calls on a file fail. -/
structure Faults where
  read : Bool := false
  /-- The number of writes that still succeed, if it is limited. -/
  writesLeft : Option Nat := none
  sync : Bool := false
  /-- Asking for the length fails. -/
  len : Bool := false
  /-- The length that is reported in place of the real one. -/
  fakeLen : Option Nat := none
deriving DecidableEq

/-- The failure of a call that is told to fail. -/
def diskUnavailable : Error := .io (some "disk unavailable")

/-- A file with its faults. -/
structure FaultyFile where
  file : File := .memory {}
  faults : Faults := {}
deriving DecidableEq

namespace FaultyFile

def len (f : FaultyFile) : Except Error Nat :=
  if f.faults.len then .error diskUnavailable else .ok (f.faults.fakeLen.getD f.file.len)

def isEmpty (f : FaultyFile) : Except Error Bool := f.len.map (· == 0)

def readAt (f : FaultyFile) (off len : Nat) : Except Error Bytes :=
  if f.faults.read then .error diskUnavailable else f.file.readAt off len

/-- Writes bytes at an offset, if a write is left. -/
def writeAt (f : FaultyFile) (off : Nat) (src : Bytes) : FaultyFile × Except Error Unit :=
  if f.faults.writesLeft = some 0 then (f, .error diskUnavailable)
  else
    let (file, r) := f.file.writeAt off src
    ({ file, faults := { f.faults with writesLeft := f.faults.writesLeft.map (· - 1) } }, r)

def sync (f : FaultyFile) : FaultyFile × Except Error Unit :=
  if f.faults.sync then (f, .error diskUnavailable) else ({ f with file := f.file.sync }, .ok ())

end FaultyFile

/-- How a store reaches its file. -/
structure FileRef where
  name : String
  /-- The file is opened by itself, so that its faults do not show. -/
  direct : Bool := false
deriving DecidableEq

/-- The named files. -/
structure Disk where
  files : ExtTreeMap String FaultyFile := ∅

namespace Disk

/-- The file of a name. A name that was never used is an empty file in memory. -/
def file (d : Disk) (name : String) : FaultyFile := d.files[name]?.getD {}

/-- A reference to the file of a name. Only a file of the operating system can be opened by itself. -/
def ref (d : Disk) (name : String) (direct : Bool) : FileRef :=
  { name, direct := direct && (d.file name).file.isSystem }

def put (d : Disk) (name : String) (f : FaultyFile) : Disk := { d with files := d.files.insert name f }

/-- The file as a reference sees it. -/
def view (d : Disk) (r : FileRef) : FaultyFile :=
  if r.direct then { d.file r.name with faults := {} } else d.file r.name

/-- Stores what a call through a reference left of the file. -/
def store (d : Disk) (r : FileRef) (f : FaultyFile) : Disk :=
  if r.direct then d.put r.name { d.file r.name with file := f.file } else d.put r.name f

def len (d : Disk) (r : FileRef) : Except Error Nat := (d.view r).len

def readAt (d : Disk) (r : FileRef) (off len : Nat) : Except Error Bytes := (d.view r).readAt off len

def writeAt (d : Disk) (r : FileRef) (off : Nat) (src : Bytes) : Disk × Except Error Unit :=
  let (f, result) := (d.view r).writeAt off src
  (d.store r f, result)

def sync (d : Disk) (r : FileRef) : Disk × Except Error Unit :=
  let (f, result) := (d.view r).sync
  (d.store r f, result)

def setFaults (d : Disk) (name : String) (faults : Faults) : Disk :=
  d.put name { d.file name with faults }

end Disk

end PageEngine
