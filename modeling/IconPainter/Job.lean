import IconPainter.Path.Basic

/-! # Jobs

A job says how large the icon is to be and where it is to go.
-/

namespace IconPainter

structure Job where
  size : UInt32
  directory : Path
  fileName : String
deriving DecidableEq

namespace Job

def standard : Job := ⟨256, .ofString "icons", "icon.png"⟩

/-- The same job, however its directory is spelt. -/
def Same (a b : Job) : Prop :=
  a.size = b.size ∧ a.directory.Same b.directory ∧ a.fileName = b.fileName

instance (a b : Job) : Decidable (a.Same b) :=
  inferInstanceAs (Decidable (_ ∧ _ ∧ _))

def destination (j : Job) : Path :=
  j.directory.join (.ofString j.fileName)

def dropSlashes (text : List Char) : List Char :=
  (text.reverse.dropWhile (· == '/')).reverse

/-- Where the icon goes, to be read by a person: with slashes of one kind. -/
def destinationText (j : Job) : String :=
  let directory := (Utf8.lossyChars j.directory.bytes).map fun c => if c = '\\' then '/' else c
  .ofList (dropSlashes directory ++ '/' :: j.fileName.toList)

theorem Same.refl (a : Job) : a.Same a := ⟨rfl, rfl, rfl⟩

theorem Same.symm {a b : Job} (h : a.Same b) : b.Same a :=
  ⟨h.1.symm, h.2.1.symm, h.2.2.symm⟩

theorem Same.trans {a b c : Job} (h : a.Same b) (h' : b.Same c) : a.Same c :=
  ⟨h.1.trans h'.1, h.2.1.trans h'.2.1, h.2.2.trans h'.2.2⟩

end Job

end IconPainter
