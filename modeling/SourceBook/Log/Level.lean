set_option autoImplicit false

namespace SourceBook

inductive Level where
  | error
  | warn
  | info
  | debug
  | trace
  deriving DecidableEq

namespace Level

def rank : Level → Nat
  | error => 1
  | warn => 2
  | info => 3
  | debug => 4
  | trace => 5

def name : Level → String
  | error => "error"
  | warn => "warn"
  | info => "info"
  | debug => "debug"
  | trace => "trace"

def label : Level → String
  | error => "ERROR"
  | warn => "WARN"
  | info => "INFO"
  | debug => "DEBUG"
  | trace => "TRACE"

def ofFlags (quiet : Bool) (verbose : Nat) : Level :=
  match quiet, verbose with
  | true, _ => error
  | false, 0 => warn
  | false, 1 => info
  | false, 2 => debug
  | false, _ => trace

end Level

inductive Threshold where
  | off
  | upTo (level : Level)
  deriving DecidableEq

namespace Threshold

def all : List Threshold :=
  [off, upTo .error, upTo .warn, upTo .info, upTo .debug, upTo .trace]

def name : Threshold → String
  | off => "off"
  | upTo level => level.name

def digit : Threshold → Char
  | off => '0'
  | upTo level => Nat.digitChar level.rank

def covers : Threshold → Level → Bool
  | off, _ => false
  | upTo bound, level => level.rank ≤ bound.rank

end Threshold

end SourceBook
