import LoxCalc.Text.DecimalDigit
import LoxCalc.Text.Quoted

/-!
# The command line

The program takes at most one file and two flags.  A flag may be shortened as long as it stays
unique, flags and the file may come in any order, and after a lone `--` every argument is a plain
word.  A lone dash, a negative number and anything with a space in it are plain words as well.

`Request.ofArguments` decides what is asked for.  The first plain word is the file; everything
that cannot be placed is listed in the rejection, in the order of the arguments.  A lone `--` is
listed with the rest when a file was named before it and other arguments stand between the two.
-/

namespace LoxCalc

/-- The flags of the program. -/
inductive Flag
  | help
  | tokens
  deriving DecidableEq

namespace Flag

/-- Every spelling of a flag. -/
def spellings : List (String × Flag) :=
  [("-h", help), ("--help", help), ("--tokens", tokens)]

/-- The flag that is spelled exactly like this. -/
def ofSpelling? (s : String) : Option Flag :=
  spellings.lookup s

/-- A flag with all its spellings. -/
def title : Flag → String
  | help => "-h/--help"
  | tokens => "--tokens"

/-- The spellings of two dashes that begin like this, with their flags. -/
def completions (cs : List Char) : List (String × Flag) :=
  spellings.filter fun (s, _) => cs.isPrefixOf s.toList

end Flag

/-- What a single argument is. -/
inductive Argument
  | plain (s : String)
  | unknown (s : String)
  | flag (f : Flag)
  /-- A long flag with a value, which no flag takes. -/
  | valued (f : Flag) (value : String)
  /-- The short flag for help with letters after it, or after it and an equals sign. -/
  | cluster (letters : List Char)
  /-- The beginning of several flags. -/
  | ambiguous (s : String) (spellings : List String)

namespace Argument

/-- The name of a flag, and the value after an equals sign. -/
def splitValue (cs : List Char) : List Char × Option (List Char) :=
  match cs.dropWhile (· != '=') with
  | [] => (cs, none)
  | _ :: value => (cs.takeWhile (· != '='), some value)

/-- A decimal digit of any script. -/
def isAnyDigit (c : Char) : Bool :=
  (Text.digitValue? c).isSome

/-- Does the text after a dash make a negative number?  A final line feed does not count. -/
def isNumber (cs : List Char) : Bool :=
  let ds := if cs.getLast? = some '\n' then cs.dropLast else cs
  match ds.dropWhile isAnyDigit with
  | [] => !ds.isEmpty
  | '.' :: fraction => !fraction.isEmpty && fraction.all isAnyDigit
  | _ => false

/-- An argument that begins with a dash and is no flag. -/
def unflagged (cs : List Char) : Argument :=
  if isNumber (cs.drop 1) || cs.contains ' ' then .plain (String.ofList cs)
  else .unknown (String.ofList cs)

/-- A long flag, with the value that may have been given to it. -/
def withValue (f : Flag) : Option (List Char) → Argument
  | none => .flag f
  | some value => .valued f (String.ofList value)

/-- An argument of two dashes, which may shorten a flag. -/
def abbreviated (cs : List Char) : Argument :=
  let (name, value) := splitValue cs
  match Flag.completions name with
  | [] => unflagged cs
  | [(_, f)] => withValue f value
  | several => .ambiguous (String.ofList cs) (several.map Prod.fst)

/-- An argument that begins with a dash and has more to it. -/
def dashed (cs : List Char) : Argument :=
  match Flag.ofSpelling? (String.ofList cs) with
  | some f => .flag f
  | none =>
    match cs with
    | '-' :: '-' :: _ => abbreviated cs
    | '-' :: 'h' :: '=' :: letters => .cluster letters
    | '-' :: 'h' :: letters => .cluster letters
    | _ => unflagged cs

/-- What an argument is. -/
def ofText (s : String) : Argument :=
  match s.toList with
  | '-' :: c :: cs => dashed ('-' :: c :: cs)
  | _ => .plain s

end Argument

/-- What the program is asked to do. -/
inductive Request
  /-- Run a file, or the shell if there is none. -/
  | run (file : Option String) (showTokens : Bool)
  | help
  | reject (reason : String)
  deriving DecidableEq

namespace Request

/-- The rejection of a value. -/
def rejectValue (f : Flag) (value : String) : Request :=
  .reject ("argument " ++ f.title ++ ": ignored explicit argument " ++ Text.quoted value)

/-- What the letters after the short flag for help ask for.  Each of them has to be that flag again;
the rest from the first other one on, or a lack of letters, is a value that the flag does not
take. -/
def ofCluster (letters : List Char) : Request :=
  match letters, letters.dropWhile (· == 'h') with
  | _ :: _, [] => .help
  | _, rest => rejectValue .help (String.ofList rest)

/-- What has been found among the arguments so far. -/
structure Findings where
  file : Option String := none
  /-- Was the file the latest argument? -/
  fileIsLatest : Bool := false
  showTokens : Bool := false
  /-- The arguments that could not be placed. -/
  extras : List String := []

namespace Findings

/-- Takes a plain word: the first one is the file. -/
def addPlain (f : Findings) (s : String) : Findings :=
  match f.file with
  | none => { f with file := some s, fileIsLatest := true }
  | some _ => { f with fileIsLatest := false, extras := f.extras ++ [s] }

/-- Takes the arguments before a lone `--`; some of them settle the request at once. -/
def addAll (f : Findings) : List Argument → Except Request Findings
  | [] => .ok f
  | .plain s :: rest => (f.addPlain s).addAll rest
  | .unknown s :: rest => { f with fileIsLatest := false, extras := f.extras ++ [s] }.addAll rest
  | .flag .tokens :: rest => { f with fileIsLatest := false, showTokens := true }.addAll rest
  | .flag .help :: _ => .error .help
  | .valued flag value :: _ => .error (rejectValue flag value)
  | .cluster letters :: _ => .error (ofCluster letters)
  | .ambiguous s _ :: rest => { f with fileIsLatest := false, extras := f.extras ++ [s] }.addAll rest

/-- Takes a lone `--` and the words after it, if there is one. -/
def addMarked (f : Findings) : List String → Findings
  | [] => f
  | mark :: rest =>
    match f.file with
    | none => { f with file := rest.head?, extras := f.extras ++ rest.drop 1 }
    | some _ =>
      { f with extras := f.extras ++ (if f.fileIsLatest then rest else mark :: rest) }

/-- The request that the findings amount to. -/
def request (f : Findings) : Request :=
  if f.extras.isEmpty then .run f.file f.showTokens
  else .reject ("unrecognized arguments: " ++ String.intercalate " " f.extras)

end Findings

/-- The rejection of the first argument that could be several flags. -/
def ambiguity? (as : List Argument) : Option Request :=
  as.findSome? fun
    | .ambiguous s spellings =>
      some (.reject ("ambiguous option: " ++ s ++ " could match "
        ++ String.intercalate ", " spellings))
    | _ => none

/-- What the arguments of the program ask for. -/
def ofArguments (args : List String) : Request :=
  let arguments := (args.takeWhile (· != "--")).map Argument.ofText
  match ambiguity? arguments with
  | some r => r
  | none =>
    match Findings.addAll {} arguments with
    | .error r => r
    | .ok found => (found.addMarked (args.dropWhile (· != "--"))).request

end Request

end LoxCalc
