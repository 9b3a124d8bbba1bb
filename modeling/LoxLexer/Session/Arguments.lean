/-!
# Arguments of the command

The command takes one optional script and a few flags.  Arguments are read
from left to right, and the first that settles the run, by asking for help or
the version or by being wrong, settles it whatever follows.

* A flag is written as one letter or as a word.  Letters may be bundled behind
  one dash; words can neither be shortened nor be given a value.
* Two dashes by themselves end the flags; a single dash is a script.
* Asking for more output may be repeated, switching colours off may not. How
  often it was repeated is kept in a byte.
-/

namespace LoxLexer

namespace Session

/-- What the arguments ask for. -/
structure Options where
  script : Option (List Char) := none
  verbosity : Nat := 0
  color : Bool := true
deriving DecidableEq, Repr

/-- Why a run ends before it has begun. -/
inductive Stop where
  | usage
  | help
  | version
deriving DecidableEq, Repr

namespace Stop

/-- The exit code of a run that ends before it has begun. -/
def code : Stop → Nat
  | usage => 64
  | help => 0
  | version => 0

end Stop

namespace Options

/-- Asks for more output once more. The count stays at the highest number that
fits in a byte. -/
def askMore (o : Options) : Options := { o with verbosity := min (o.verbosity + 1) 255 }

/-- Names the script. There can be only one, and its name cannot be empty. -/
def nameScript (o : Options) (name : List Char) : Except Stop Options :=
  if name = [] ∨ o.script.isSome then .error .usage else .ok { o with script := some name }

/-- Takes in a flag that is written as a word. -/
def takeWord (o : Options) (word : List Char) : Except Stop Options :=
  if word = "verbose".toList then .ok o.askMore
  else if word = "no-color".toList then
    if o.color then .ok { o with color := false } else .error .usage
  else if word = "help".toList then .error .help
  else if word = "version".toList then .error .version
  else .error .usage

/-- Takes in a flag that is written as a letter. -/
def takeLetter (o : Options) : Char → Except Stop Options
  | 'v' => .ok o.askMore
  | 'h' => .error .help
  | 'V' => .error .version
  | _ => .error .usage

/-- Takes in the arguments one after the other. -/
def takeAll (o : Options) : List (List Char) → Except Stop Options
  | [] => .ok o
  | ['-', '-'] :: names => names.foldlM nameScript o
  | ('-' :: '-' :: word) :: rest => do (← o.takeWord word).takeAll rest
  | ('-' :: c :: cs) :: rest => do (← (c :: cs).foldlM takeLetter o).takeAll rest
  | name :: rest => do (← o.nameScript name).takeAll rest

/-- What the arguments ask for, or why there is nothing to run. -/
def parse (arguments : List (List Char)) : Except Stop Options :=
  ({} : Options).takeAll arguments

end Options

end Session

end LoxLexer
