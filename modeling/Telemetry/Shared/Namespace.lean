import Telemetry.FileTree
import Telemetry.View

namespace Telemetry.Shared

/-- Everything in a region from an offset on becomes zero. -/
structure Cut where
  region : Nat
  offset : Nat
  deriving DecidableEq, Repr

/-- A segment mapped with the size that it had then. -/
structure Mapping where
  region : Nat
  size : Nat
  deriving DecidableEq, Repr

def Mapping.view (p : Mapping) : View := ⟨p.region, 0, p.size⟩

def viewOf (p : Option Mapping) : View := p.elim View.empty Mapping.view

class Platform where
  /-- What a segment is found under by a name, or why the name leads to no segment. -/
  segmentName : Text → Except OsError Text
  /-- Why a size cannot be mapped, if it cannot. -/
  mapRefusal? : Nat → Option OsError
  /-- Assumption of systems: no address space has room for 2 ^ 61 bytes. -/
  size_lt : ∀ size, mapRefusal? size = none → size < 0x2000000000000000

export Platform (segmentName mapRefusal?)

namespace Platform

/-- A name has to be one component of a path. The room is 47 bits less what is mapped already. -/
scoped instance usual : Platform where
  segmentName name :=
    let n := name.beforeNul.dropWhile (· == 47)
    -- the buffer that the path is put together in holds a name of 259 bytes
    if n.isEmpty ∨ 47 ∈ n ∨ 259 < n.length then .error .invalid
    -- a directory is no segment
    else if n = [46] ∨ n = [46, 46] then .error .invalid
    else if FileTree.maxNameLength < n.length then .error .nameTooLong
    else .ok n
  mapRefusal? size := if 0x555555544000 < size then some .noMemory else none
  size_lt size h := by
    split at h
    · nomatch h
    · next hle => exact Nat.lt_of_le_of_lt (Nat.le_of_not_lt hle) (by decide)

end Platform

/-- A segment lives on in its mappings when its name is removed or given to another segment, so
segments are numbered by memory regions that are never used twice. -/
structure Namespace where
  names : List (Text × Nat)
  sizes : List Nat
  deriving Repr

structure Grant where
  space : Namespace
  cuts : List Cut
  result : Except OsError Mapping

namespace Namespace

def empty : Namespace := ⟨[], []⟩

def sizeLimit : Nat := 0x8000000000000000

def find? (s : Namespace) (segment : Text) : Option Nat := s.names.lookup segment

def forget (s : Namespace) (segment : Text) : Namespace :=
  { s with names := s.names.filter fun x => x.1 != segment }

def size (s : Namespace) (region : Nat) : Nat := s.sizes.getD region 0

variable [Platform]

def unlink (s : Namespace) (name : Text) : Namespace :=
  match segmentName name with
  | .ok n => s.forget n
  | .error _ => s

/-- Gives the segment of a name a size and maps it. Unless the segment grows, what an older and
larger mapping holds behind that size is cut off. A name that cannot be given the size is
removed. -/
def resize (s : Namespace) (name : Text) (region size : Nat) : Grant :=
  if sizeLimit ≤ size then ⟨s.forget name, [], .error .invalid⟩
  else
    let cuts := if size ≤ s.size region then [⟨region, size⟩] else []
    let s' := { s with sizes := s.sizes.set region size }
    match mapRefusal? size with
    | some e => ⟨s'.forget name, cuts, .error e⟩
    | none => ⟨s', cuts, .ok ⟨region, size⟩⟩

/-- Opens the segment of a name or creates it, gives it a size and maps it. An exclusive creation is
refused where the name is in use; on demand the name is removed first. -/
def create (s : Namespace) (name : Text) (size : Nat) (exclusive unlinkFirst : Bool) : Grant :=
  if size = 0 then ⟨s, [], .error .none⟩
  else
    match segmentName name with
    | .error e => ⟨s, [], .error e⟩
    | .ok n =>
      let s' := if unlinkFirst then s.forget n else s
      match s'.find? n with
      | some region => if exclusive then ⟨s', [], .error .exists⟩ else s'.resize n region size
      | none =>
        let region := s'.sizes.length
        resize ⟨(n, region) :: s'.names, s'.sizes ++ [0]⟩ n region size

def attach (s : Namespace) (name : Text) : Except OsError Mapping := do
  match s.find? (← segmentName name) with
  | none => throw .noEntry
  | some region => if s.size region = 0 then throw .none else return ⟨region, s.size region⟩

end Namespace

end Telemetry.Shared
