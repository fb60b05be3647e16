import StoreBindings.Path.Relative
import StoreBindings.Syntax.Dialect
import StoreBindings.Text.WordCharacter

/-!
# The boot call

An application boots its stores by `StoreManager.boot()`. Where that call has no arguments, it is
given the loader as one, addressed from the module of the call. Other modules' files, and modules
in which the call cannot be, are left alone.

* `isEligible` — which modules are looked at.
* `mentionsBoot` — a test on the text alone that comes before the text is parsed.
* `bareCalls` — the places of the calls, outer ones before inner ones.
* `addressLoader` — the text with all of them replaced, the last one first.
-/

namespace StoreBindings.Boot

open Syntax (Node Span)

/-! ## Which modules are looked at -/

/-- The directory that installed packages are in. -/
def packagesDirectory : List Char := "node_modules/".toList

/-- The directory inside it in which a development server keeps what it has built itself. -/
def cacheDirectory : List Char := ".vite/".toList

/-- Whether a module belongs to an installed package. -/
def isDependency : List Char → Bool
  | [] => false
  | c :: cs =>
    (packagesDirectory.isPrefixOf (c :: cs) &&
      !cacheDirectory.isPrefixOf ((c :: cs).drop packagesDirectory.length)) ||
      isDependency cs

/-- Whether the boot call is looked for in a module. -/
def isEligible (id : List Char) : Bool := !isDependency id && ".ts".toList.isSuffixOf id

/-- The text after a word and the blanks behind it, if it starts with that word. -/
def afterWord? (word cs : List Char) : Option (List Char) :=
  if word.isPrefixOf cs then some (Text.trimStart (cs.drop word.length)) else none

/-- Whether a text starts with the call, blanks between its words aside. -/
def startsCall (cs : List Char) : Bool :=
  ((((afterWord? "StoreManager".toList cs).bind (afterWord? ['.'])).bind
    (afterWord? "boot".toList)).bind (afterWord? ['('])).isSome

/-- Whether the call is somewhere in a text that stands behind a character, and not in the middle of
a word. -/
def mentionsAfter (previous : Option Char) : List Char → Bool
  | [] => false
  | c :: cs =>
    (startsCall (c :: cs) && !previous.any Text.isWordCharacter) || mentionsAfter (some c) cs

/-- Whether the text of a module has anything like the boot call in it. -/
def mentionsBoot (cs : List Char) : Bool := mentionsAfter none cs

/-! ## The calls -/

/-- Whether a node is the boot call without arguments. -/
def isBareCall (n : Node) : Bool :=
  n.kind == .call &&
    (match n.tree.part? .function with
      | some f =>
        f.kind == .member &&
          (f.part? .object).any (fun o => o.kind == .identifier && o.text == "StoreManager") &&
          (f.part? .property).any fun p => p.text == "boot"
      | none => false) &&
    (n.tree.part? .arguments).any fun a => a.children.isEmpty

/-- The places of the boot calls without arguments, outer ones before inner ones. -/
def bareCalls (root : Node) : List Span := root.places isBareCall

/-! ## The new text -/

/-- A text with a stretch of it replaced. A stretch that reaches beyond the end of the text, or into a
character, cannot be replaced: a program that tries to is stopped there, and here the text stays as it
is. Stretches that are apart in a text never come to that, but of two that lie in each other the outer
one can, since its end is out of date when its turn comes. -/
def splice (cs : List Char) (span : Span) (new : List Char) : List Char :=
  match Text.splitAt? cs span.stop with
  | some (before, after) =>
    match Text.splitAt? before span.start with
    | some (front, _) => front ++ new ++ after
    | none => cs
  | none => cs

/-- A text with several stretches replaced by the same text, the last stretch first. -/
def spliceAll (cs : List Char) (spans : List Span) (new : List Char) : List Char :=
  spans.foldr (fun span out => splice out span new) cs

/-- The call with the loader as its argument, in a module of a given path. -/
def callWithLoader (module loader : Path) : List Char :=
  let dir := module.parent?.getD ⟨[]⟩
  "StoreManager.boot(import.meta.glob('".toList ++
    Path.specifier (Path.relativePath dir loader) ++ "', \x7beager:true\x7d))".toList

/-- The text of a module in which every boot call without arguments addresses the loader, if that
is another text. -/
def addressLoader (code id : List Char) (loader : Path) : Option (List Char) :=
  if isEligible id && mentionsBoot code then
    let module := Syntax.Module.read ⟨id⟩ code
    let calls := bareCalls module.root
    let output := spliceAll code calls (callWithLoader module.path loader)
    if calls.isEmpty || output == code then none else some output
  else none

end StoreBindings.Boot
