import IconPainter.Disk.Basic
import IconPainter.Log.Event

/-! # Scripts

A script is work on files written down as data: the requests it makes of the
system, each with what it does next for every answer, and the events it logs
in between. It can be run on a disk in memory, where every state on the way can
be looked at.
-/

namespace IconPainter

abbrev FileId := Nat

inductive Request where
  | makeDirectory (p : Path)
  | isDirectory (p : Path)
  | isThere (p : Path)
  | create (p : Path)
  | append (file : FileId) (bytes : Bytes)
  | sync (file : FileId)
  | rename (old new : Path)
  | remove (p : Path)
deriving DecidableEq, Repr

def Request.Answer : Request → Type
  | isDirectory _ => Bool
  | isThere _ => Bool
  | create _ => Except OsError FileId
  | makeDirectory _ | append .. | sync _ | rename .. | remove _ => Except OsError Unit

/-- Work that ends in a value. -/
inductive Script (α : Type) where
  | done (value : α)
  | note (e : Event) (next : Script α)
  | ask (r : Request) (next : r.Answer → Script α)

namespace Script

variable {α β : Type}

def bind : Script α → (α → Script β) → Script β
  | done a, f => f a
  | note e next, f => note e (next.bind f)
  | ask r next, f => ask r fun answer => (next answer).bind f

/-- The script with all its events inside one more span. -/
def within (s : Span) : Script α → Script α
  | done a => done a
  | note e next => note (e.within s) (next.within s)
  | ask r next => ask r fun answer => (next answer).within s

end Script

end IconPainter
