import JsonShape.Regex.CharSet
import JsonShape.Unicode.Age
import JsonShape.Unicode.Binary
import JsonShape.Unicode.Break

/-!
# Sets by name

The sets that a Unicode class can call by name: a property, a general category or a script by its
name alone, and the values of the properties that have values.

* `plainName` is the form in which names are compared.
* `namedSet?` is the set of a name, `valuedSet?` that of a property and a value.
* `bracedSet?` reads what stands between the braces of a Unicode class.
-/

namespace JsonShape

namespace Regex

/-- The form in which names are compared: in lower case, without blanks, hyphens, low lines and
characters outside ASCII, and without a leading `is`, which is kept in `isc` only. -/
def plainName (name : List Char) : String :=
  let plain (cs : List Char) : List Char :=
    (cs.filter fun c => c.toNat < 128 && !(c = ' ' || c = '-' || c = '_')).map Char.toLower
  match name with
  | i :: s :: rest =>
    if i.toLower = 'i' ∧ s.toLower = 's' then
      if plain rest = ['c'] then "isc" else String.ofList (plain rest)
    else String.ofList (plain name)
  | _ => String.ofList (plain name)

/-- The general categories and their groups, by name. -/
def categoryNames : List (String × List String) := [
  ("l", Unicode.letters), ("letter", Unicode.letters),
  ("lc", ["Lu", "Ll", "Lt"]), ("casedletter", ["Lu", "Ll", "Lt"]),
  ("lu", ["Lu"]), ("uppercaseletter", ["Lu"]), ("ll", ["Ll"]), ("lowercaseletter", ["Ll"]),
  ("lt", ["Lt"]), ("titlecaseletter", ["Lt"]), ("lm", ["Lm"]), ("modifierletter", ["Lm"]),
  ("lo", ["Lo"]), ("otherletter", ["Lo"]),
  ("m", ["Mn", "Mc", "Me"]), ("mark", ["Mn", "Mc", "Me"]),
  ("combiningmark", ["Mn", "Mc", "Me"]),
  ("mn", ["Mn"]), ("nonspacingmark", ["Mn"]), ("mc", ["Mc"]), ("spacingmark", ["Mc"]),
  ("me", ["Me"]), ("enclosingmark", ["Me"]),
  ("n", ["Nd", "Nl", "No"]), ("number", ["Nd", "Nl", "No"]),
  ("nd", ["Nd"]), ("decimalnumber", ["Nd"]), ("digit", ["Nd"]),
  ("nl", ["Nl"]), ("letternumber", ["Nl"]), ("no", ["No"]), ("othernumber", ["No"]),
  ("p", ["Pc", "Pd", "Ps", "Pe", "Pi", "Pf", "Po"]),
  ("punctuation", ["Pc", "Pd", "Ps", "Pe", "Pi", "Pf", "Po"]),
  ("punct", ["Pc", "Pd", "Ps", "Pe", "Pi", "Pf", "Po"]),
  ("pc", ["Pc"]), ("connectorpunctuation", ["Pc"]), ("pd", ["Pd"]), ("dashpunctuation", ["Pd"]),
  ("ps", ["Ps"]), ("openpunctuation", ["Ps"]), ("pe", ["Pe"]), ("closepunctuation", ["Pe"]),
  ("pi", ["Pi"]), ("initialpunctuation", ["Pi"]), ("pf", ["Pf"]), ("finalpunctuation", ["Pf"]),
  ("po", ["Po"]), ("otherpunctuation", ["Po"]),
  ("s", ["Sm", "Sc", "Sk", "So"]), ("symbol", ["Sm", "Sc", "Sk", "So"]),
  ("sm", ["Sm"]), ("mathsymbol", ["Sm"]), ("sc", ["Sc"]), ("currencysymbol", ["Sc"]),
  ("sk", ["Sk"]), ("modifiersymbol", ["Sk"]), ("so", ["So"]), ("othersymbol", ["So"]),
  ("z", ["Zs", "Zl", "Zp"]), ("separator", ["Zs", "Zl", "Zp"]),
  ("zs", ["Zs"]), ("spaceseparator", ["Zs"]), ("zl", ["Zl"]), ("lineseparator", ["Zl"]),
  ("zp", ["Zp"]), ("paragraphseparator", ["Zp"]),
  ("c", ["Cc", "Cf", "Cs", "Co", "Cn"]), ("other", ["Cc", "Cf", "Cs", "Co", "Cn"]),
  ("cc", ["Cc"]), ("control", ["Cc"]), ("cntrl", ["Cc"]), ("cf", ["Cf"]), ("format", ["Cf"]),
  ("co", ["Co"]), ("privateuse", ["Co"]),
  ("cn", ["Cn"]), ("unassigned", ["Cn"])]

/-- The general category, or group of them, of this name. -/
def categorySet? (name : String) : Option CharSet := do
  match name with
  | "any" => some .any
  | "assigned" => some (.compl (.categories ["Cn"]))
  | "ascii" => some (.range 0 127)
  | _ =>
    let names ← categoryNames.lookup name
    some (.categories names)

/-- The code of the script of this name. -/
def scriptCode? (name : String) : Option String := do
  let names ← Unicode.scriptNames.find? fun names => names.contains name
  let code ← names.head?
  some code.capitalize

/-- The set of this name in a table of listed sets. -/
def listedSet? (table : List Unicode.Listed) (name : String) : Option CharSet :=
  (Unicode.Listed.find? table name).map fun l => .listed l.categories (.decode l.exceptions)

/-- The property of this name, one that a character has or has not. -/
def propertySet? (name : String) : Option CharSet :=
  match name with
  | "alphabetic" | "alpha" => some .alphabetic
  | "lowercase" | "lower" => some .lowercase
  | "uppercase" | "upper" => some .uppercase
  | "whitespace" | "wspace" | "space" => some .whiteSpace
  | "asciihexdigit" | "ahex" => some (.union [.asciiDigit, .range 97 102, .range 65 70])
  | _ => listedSet? Unicode.binaryProperties name

/-- The set called by a name alone: a property, a category or a script. Three names are short both
for a category and for a property that has values, and call the category. -/
def namedSet? (name : String) : Option CharSet :=
  let other := categorySet? name <|> (scriptCode? name).map .script
  if name = "cf" ∨ name = "sc" ∨ name = "lc" then other else propertySet? name <|> other

/-- The set of a named property with a value. -/
def valuedSet? (name value : String) : Option CharSet :=
  match name with
  | "generalcategory" | "gc" => categorySet? value
  | "script" | "sc" => (scriptCode? value).map .script
  | "scriptextensions" | "scx" => (scriptCode? value).map .scriptExtension
  | "age" => (Unicode.assignedBy? value).map fun rs => .union (rs.map (.listed []))
  | "graphemeclusterbreak" | "gcb" => listedSet? Unicode.graphemeBreaks value
  | "wordbreak" | "wb" => listedSet? Unicode.wordBreaks value
  | "sentencebreak" | "sb" => listedSet? Unicode.sentenceBreaks value
  | _ => none

/-- Cuts a text at the first place where another one stands. -/
def cut? (at_ : List Char) : List Char → Option (List Char × List Char)
  | [] => none
  | c :: rest =>
    if at_.isPrefixOf (c :: rest) then some ([], (c :: rest).drop at_.length)
    else (cut? at_ rest).map fun p => (c :: p.1, p.2)

/-- The set between the braces of a class such as `{Greek}`, `{script=Greek}` or `{script:Greek}`.
An exclamation mark before the sign of equality has no effect. -/
def bracedSet? (text : List Char) : Option CharSet :=
  match cut? ['!', '='] text <|> cut? [':'] text <|> cut? ['='] text with
  | some (name, value) => valuedSet? (plainName name) (plainName value)
  | none => namedSet? (plainName text)

end Regex

end JsonShape
