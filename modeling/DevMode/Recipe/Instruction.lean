/-
# DevMode.Recipe.Instruction -- the lines of a recipe

A recipe says line by line how an image is built.  Of its instructions four kinds
matter here: on which image to build, what to set in the environment, in which
directory to work, and what to copy where.  A line is cut into words, the first of
which names the instruction in any case (`Instruction.ofLine?`).
-/
import DevMode.Text.Cut

namespace DevMode.Recipe

set_option autoImplicit false

/-- A run of characters that are not White_Space. -/
abbrev Word := List Char

/-- An instruction of a recipe.  Values and paths are as they are written, without
any reference replaced. -/
inductive Instruction where
  | from_ (image : Word)
  | env (settings : List (Word × Word))
  | workdir (dir : Word)
  | copy (sources : List Word) (target : Word)
  deriving DecidableEq, Repr

namespace Instruction

/-! ## Words -/

/-- The name of an option: the letters and dashes behind two dashes, at least one. -/
def optionName? (w : Word) : Option Word :=
  match w with
  | '-' :: '-' :: rest =>
    match rest.takeWhile fun c => c.isAlpha || c = '-' with
    | [] => none
    | name => some name
  | _ => none

/-- Whether a word is the option to copy from another stage. -/
def isStageOption (w : Word) : Bool :=
  match optionName? w with
  | some name => Text.asciiLower name = ['f', 'r', 'o', 'm']
  | none => false

def isUrl (w : Word) : Bool :=
  let lower := Text.asciiLower w
  "http://".toList.isPrefixOf lower || "https://".toList.isPrefixOf lower

/-- A value without the quotes around it, if there are two. -/
def unquote (value : Word) : Word :=
  match value with
  | '"' :: rest => if rest.getLast? = some '"' then rest.dropLast else value
  | value => value

/-! ## Arguments -/

/-- An instruction to build on an image: the first argument that is no option. -/
def ofFrom (args : List Word) : Option Instruction :=
  (args.find? fun w => !(['-', '-'].isPrefixOf w)).map .from_

/-- Settings of the environment: words with `=`, those without it counting for
nothing, or a name and the rest of the line. -/
def ofEnv (args : List Word) : Option Instruction :=
  match args with
  | [] => none
  | first :: rest =>
    if '=' ∈ first then
      some (.env ((args.filterMap (Text.splitOnce? '=')).map fun (k, v) => (k, unquote v)))
    else if rest = [] then none
    else some (.env [(first, unquote (Text.glue ' ' rest))])

def ofWorkdir (args : List Word) : Option Instruction := args.head?.map .workdir

/-- A copy of all arguments but the last, options aside; not from another stage, and
not without a source. -/
def ofCopy (args : List Word) : Option Instruction :=
  if args.any isStageOption then none
  else
    let operands := args.filter fun w => (optionName? w).isNone
    match operands.getLast? with
    | none => none
    | some target =>
      if operands.dropLast = [] then none else some (.copy operands.dropLast target)

/-- The instruction of a line, if it is of a kind that matters. -/
def ofLine? (line : List Char) : Option Instruction :=
  match Text.words line with
  | [] => none
  | w :: args =>
    let kind := String.ofList (Text.asciiUpper w)
    if kind = "ADD" ∨ kind = "COPY" then ofCopy args
    else if kind = "ENV" then ofEnv args
    else if kind = "FROM" then ofFrom args
    else if kind = "WORKDIR" then ofWorkdir args
    else none

end Instruction

def instructions (text : String) : List Instruction :=
  (Text.lines text.toList).filterMap Instruction.ofLine?

end DevMode.Recipe
