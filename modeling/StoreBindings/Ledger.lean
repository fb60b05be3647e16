import StoreBindings.Digest
import StoreBindings.Files.Tree

/-!
# What is known of the content of files

A ledger keeps the digest of the last known content of each file. It is asked before a generated
file is written, so that a file is only written if it changes, and when a source is said to have
changed, so that nothing is done if it did not.

Two spellings of a path are the same file for the ledger. What is on disk is not looked at unless
an operation says so.
-/

namespace StoreBindings

/-- The digests of the last known contents of files. -/
structure Ledger where
  digests : OrderedMap (List Component) String
deriving Inhabited

namespace Ledger

def empty : Ledger := ⟨∅⟩

/-- The digest of a content. -/
def digest (content : ByteArray) : String := Digest.ofBytes content.data.toList

/-- The digest that is known of a file. -/
def get? (l : Ledger) (p : Path) : Option String := l.digests.get? p.components

def size (l : Ledger) : Nat := l.digests.size

def isEmpty (l : Ledger) : Bool := l.digests.isEmpty

/-- Take a content for the last known one. -/
def record (l : Ledger) (p : Path) (content : ByteArray) : Ledger :=
  ⟨l.digests.insert p.components (digest content)⟩

/-- Know nothing of a file any more. -/
def forget (l : Ledger) (p : Path) : Ledger := ⟨l.digests.erase p.components⟩

/-- Whether a content is another one than the last known. -/
def isChanged (l : Ledger) (p : Path) (content : ByteArray) : Bool :=
  l.get? p != some (digest content)

/-- Take the content that a file has for the last known one; `none` if there is no file. -/
def recordExisting (l : Ledger) (files : Files.Tree) (p : Path) :
    Except Files.Trouble (Option Ledger) :=
  match files.read p with
  | .ok content => .ok (some (l.record p content))
  | .error .missing => .ok none
  | .error e => .error e

/-- What came of writing a file. -/
inductive Written
  /-- The content was the last known one, and nothing was written. -/
  | unchanged
  | written
deriving DecidableEq, Repr

/-- Write a content into a file, unless it is the last known one. The directories above the file
are made if need be, and stay if the file cannot be written. -/
def write (l : Ledger) (files : Files.Tree) (p : Path) (content : ByteArray) :
    Except Files.Trouble Written × Ledger × Files.Tree :=
  if l.isChanged p content then
    let (made, files) := match p.parent? with
      | some above => files.makeDirectories above
      | none => (.ok (), files)
    match made with
    | .error e => (.error e, l, files)
    | .ok _ =>
      match files.write p content with
      | .error e => (.error e, l, files)
      | .ok files => (.ok .written, l.record p content, files)
  else (.ok .unchanged, l, files)

/-- Whether two ledgers know the same. -/
def same (l m : Ledger) : Bool :=
  l.size == m.size && l.digests.entries.all fun (p, d) => m.digests.get? p == some d

end Ledger

end StoreBindings
