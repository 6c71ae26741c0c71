import Mustache.Error
import Mustache.Text.Digit

/-!
# The options of the page command

Options are words that start with a dash; all but the one for help take a value, which is the next
word or stands behind an equals sign in the same one. A long option may be cut short as long as only
one option starts that way. Words that look like options but are values: a single dash, negative
numbers, and words with a space. Two dashes are never a value, and not even behind an equals sign,
where newer readers of options take them for one. The last value of an option counts. There is
nothing else that the command takes, so any word left over is an error, found after all options have
been read.
-/

namespace Mustache.Page

/-- The options. -/
inductive Flag
  | help
  | template
  | data
  | output
  | tags
  | dataOut
  deriving DecidableEq, Repr

/-- What the help says of an option. -/
def Flag.helpText : Flag → String
  | help => "show this help message and exit"
  | template => "Path to Mustache HTML template"
  | data => "Optional JSON file with the app data"
  | output => "Path to write rendered HTML (stdout if omitted)"
  | tags => "Delimiter pair for the template, e.g. \"<% %>\""
  | dataOut => "Optional path to write the effective view data as JSON"

/-- The words for the options. -/
def spellings : List (List Char × Flag) :=
  [("-h".toList, .help), ("--help".toList, .help), ("--template".toList, .template),
    ("--data".toList, .data), ("--output".toList, .output), ("--tags".toList, .tags),
    ("--data-out".toList, .dataOut)]

/-- What an option was given. -/
inductive Given
  | nothing
  /-- A value that was taken away, since two dashes are none. -/
  | empty
  | text (s : String)
  deriving DecidableEq, Repr

/-- What the options were given. -/
structure Options where
  template : Given
  data : Given
  output : Given
  tags : Given
  dataOut : Given
  deriving DecidableEq, Repr

/-- The values that hold where none are given. -/
def Options.default : Options :=
  ⟨.text "tpl/splash-tpl.html", .nothing, .nothing, .nothing, .nothing⟩

instance : Inhabited Options := ⟨Options.default⟩

/-- The options with something given for one of them. -/
def Options.give (o : Options) (g : Given) : Flag → Options
  | .help => o
  | .template => { o with template := g }
  | .data => { o with data := g }
  | .output => { o with output := g }
  | .tags => { o with tags := g }
  | .dataOut => { o with dataOut := g }

/-! ## Words -/

/-- What stands behind an option in the same word. -/
inductive Attached
  | nothing
  /-- The text after an equals sign. -/
  | value (s : List Char)
  /-- The text after an option of one letter, an equals sign in front of it left out. -/
  | letters (s : List Char)
  deriving DecidableEq, Repr

/-- What a word is. -/
inductive Word
  | value (s : String)
  | option (flag : Flag) (attached : Attached)
  | unknown
  /-- Two dashes: all words after them are values. -/
  | separator
  deriving DecidableEq, Repr

/-- The parts of a word before and after its first equals sign. -/
def splitEquals (s : List Char) : List Char × Option (List Char) :=
  match s.dropWhile (· ≠ '=') with
  | [] => (s, none)
  | _ :: r => (s.takeWhile (· ≠ '='), some r)

/-- Some text behind an equals sign, if there is one. -/
def Attached.ofEquals : Option (List Char) → Attached
  | none => nothing
  | some v => value v

/-- The options that a word which is none as it stands can be meant for. -/
def meanings (s : List Char) : List Word :=
  match s with
  | '-' :: '-' :: _ =>
    let (start, v) := splitEquals s
    (spellings.filter fun o => start.isPrefixOf o.1).map fun o => .option o.2 (Attached.ofEquals v)
  | _ =>
    spellings.filterMap fun o =>
      if o.1 = s.take 2 then some (.option o.2 (.letters (s.drop 2)))
      else if s.isPrefixOf o.1 then some (.option o.2 .nothing)
      else none

/-- Whether a word is a negative number: digits of any script after a dash, a point being allowed in
front of the last ones, and a line feed after them. -/
def isNegativeNumber (s : List Char) : Bool :=
  let s := if s.getLast? = some '\n' then s.dropLast else s
  match s with
  | '-' :: r =>
    match r.dropWhile Text.isDigit with
    | [] => r ≠ []
    | '.' :: f => f ≠ [] && f.all Text.isDigit
    | _ => false
  | _ => false

/-- Tells what a word is; one that can be meant for several options is an error. -/
def Word.ofText (text : String) : Except Error Word :=
  let s := text.toList
  if s.head? ≠ some '-' then .ok (.value text)
  else match spellings.lookup s with
    | some flag => .ok (.option flag .nothing)
    | none =>
      if s = ['-'] then .ok (.value text)
      else
        let (start, v) := splitEquals s
        match spellings.lookup start, v with
        | some flag, some v =>
          .ok (.option flag (if start.length = 2 then .letters v else .value v))
        | _, _ =>
          match meanings s with
          | [] =>
            .ok (if isNegativeNumber s || s.contains ' ' then .value text else .unknown)
          | [word] => .ok word
          | _ => .error (.exit 2)

/-- Tells what some words are. -/
def Word.ofTexts : List String → Except Error (List Word)
  | [] => .ok []
  | text :: texts =>
    if text = "--" then .ok (.separator :: texts.map .value)
    else do
      let word ← Word.ofText text
      return word :: (← Word.ofTexts texts)

/-! ## Help -/

/-- The characters that may stand between a percent sign and the letter of a placeholder. -/
def placeholderFlags : List Char := [' ', '#', '0', '-', '+']

/-- The first percent sign of a text that is no placeholder: what stands where a letter should, and
at which index. Two percent signs are fine. -/
def badPlaceholder? (index : Nat) : List Char → Option (Char × Nat)
  | [] => none
  | '%' :: '%' :: r => badPlaceholder? (index + 2) r
  | '%' :: r =>
    match r.dropWhile placeholderFlags.contains with
    | [] => none
    | c :: rest => some (c, index + r.length - rest.length)
  | _ :: r => badPlaceholder? (index + 1) r

/-- How asking for help ends: the program ends well, unless the text for an option cannot be
shown. -/
def helpOutcome : Error :=
  match [Flag.help, .template, .data, .output, .tags, .dataOut].findSome? fun f =>
    badPlaceholder? 0 f.helpText.toList with
  | some (c, index) => .placeholder c index
  | none => .exit 0

/-- How a word ends the program that asks for help, given what stands behind the option. In one word
with other letters it may only be repeated. -/
def helpWith : Attached → Error
  | .nothing => helpOutcome
  | .value _ => .exit 2
  | .letters s => if s ≠ [] && s.all (· = 'h') then helpOutcome else .exit 2

/-! ## Reading options -/

/-- What an option is given by a value in its own word. Two dashes are taken away, as readers of
options of the older kind have it; newer ones leave them there. -/
def Given.ofAttached (v : List Char) : Given :=
  if v = ['-', '-'] then .empty else .text (String.ofList v)

/-- Reads words from left to right, given the options read so far and whether a word was left
over. -/
def readWords (o : Options) (leftOver : Bool) : List Word → Except Error Options
  | [] => if leftOver then .error (.exit 2) else .ok o
  | .option .help attached :: _ => .error (helpWith attached)
  | .option flag (.value v) :: ws => readWords (o.give (Given.ofAttached v) flag) leftOver ws
  | .option flag (.letters v) :: ws => readWords (o.give (Given.ofAttached v) flag) leftOver ws
  | .option flag .nothing :: .value v :: ws => readWords (o.give (.text v) flag) leftOver ws
  | .option _ .nothing :: _ => .error (.exit 2)
  | _ :: ws => readWords o true ws

/-- Reads the words of a command line. -/
def Options.read (arguments : List String) : Except Error Options := do
  readWords Options.default false (← Word.ofTexts arguments)

end Mustache.Page
