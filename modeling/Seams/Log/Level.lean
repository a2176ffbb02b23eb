/-!
# Log levels

The five levels of log records, from the least urgent up, and how they are named in requests.

## Main definitions

* `Level`, `Level.rank`, `Level.name` — the levels, their order and their names
* `Level.ofName?` — reading a name, in whatever case
-/

namespace Seams

/-- The urgency of a log record. -/
inductive Level where
  | debug
  | info
  | warning
  | error
  | critical
  deriving DecidableEq, Repr

namespace Level

/-- All levels, from the least urgent up. -/
def all : List Level :=
  [.debug, .info, .warning, .error, .critical]

/-- The place of a level in the order of urgency. -/
def rank : Level → Nat
  | .debug => 10
  | .info => 20
  | .warning => 30
  | .error => 40
  | .critical => 50

/-- The name of a level. -/
def name : Level → String
  | .debug => "DEBUG"
  | .info => "INFO"
  | .warning => "WARNING"
  | .error => "ERROR"
  | .critical => "CRITICAL"

/-- The capital of a letter, as far as it is an ASCII letter: that of a small ASCII letter, and `I`
for the dotless `ı`. No other single letter has an ASCII capital that occurs in a level's name. -/
def capital (c : Char) : Char :=
  if c = 'ı' then 'I' else c.toUpper

/-- The level with a given name, in whatever case it is written. -/
def ofName? (name : String) : Option Level :=
  all.find? fun level => level.name.toList == name.toList.map capital

end Level

end Seams
