import SourceBook.Log.Event
import SourceBook.Text.Cut
import SourceBook.Text.Utf8

set_option autoImplicit false

namespace SourceBook

structure Directive where
  target : List Char
  threshold : Threshold
  deriving DecidableEq

namespace Threshold

def isNamed (threshold : Threshold) (word : List Char) : Bool :=
  word.map Char.toLower = threshold.name.toList

-- A number may have a plus sign and zeros in front.
def isNumbered (threshold : Threshold) (word : List Char) : Bool :=
  let digits := (dropStart? ['+'] word).getD word
  digits.getLast? = some threshold.digit && digits.dropLast.all (· = '0')

def read? (word : List Char) : Option Threshold :=
  all.find? fun threshold => threshold.isNamed word || threshold.isNumbered word

end Threshold

namespace Directive

-- Beyond ASCII, letters are not told from other characters.
def canStart (c : Char) : Bool :=
  c.isAlphanum || c ∈ ['-', ':', '_', '['] || decide (0x80 ≤ c.toNat)

def read? (word : List Char) : Option Directive :=
  match word with
  | [] => none
  | first :: rest =>
    if canStart first then
      let target := (first :: rest).takeWhile (· ≠ '=')
      match (first :: rest).dropWhile (· ≠ '=') with
      | [] =>
        match Threshold.read? target with
        | some threshold => some ⟨[], threshold⟩
        | none => some ⟨target, .upTo .trace⟩
      | [_] => some ⟨target, .upTo .trace⟩
      | _ :: level => (Threshold.read? level).map (⟨target, ·⟩)
    else none

end Directive

structure Filter where
  directives : List Directive
  deriving DecidableEq

namespace Filter

def upTo (level : Level) : Filter := ⟨[⟨[], .upTo level⟩]⟩

def readDirectives (words : String) : List Directive :=
  (splitAtEach ',' words.toList).filterMap Directive.read?

def choose (origin : Origin) (chosen : Option Directive) (directive : Directive) :
    Option Directive :=
  if directive.target.isPrefixOf origin.path.toList then
    match chosen with
    | none => some directive
    | some best =>
      if best.target.length ≤ directive.target.length then some directive else some best
  else chosen

def threshold? (filter : Filter) (origin : Origin) : Option Threshold :=
  (filter.directives.foldl (choose origin) none).map Directive.threshold

def shows (filter : Filter) (event : Event) : Bool :=
  match filter.threshold? event.origin with
  | none => false
  | some threshold => threshold.covers event.level

def ofSetting (setting : Option Bytes) (level : Level) : Filter :=
  match setting.bind Utf8.decode? with
  | none => upTo level
  | some words =>
    match readDirectives words with
    | [] => upTo level
    -- Directives leave nothing to the flags, not even for origins of which they do not speak.
    | directives => ⟨directives⟩

end Filter

end SourceBook
