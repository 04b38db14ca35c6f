/-!
# Notes of a run

Indexing succeeds or fails with a value; what is worth telling the user besides is a note.  Notes
are values too, in the order in which they arise, and only the command line prints them.

* `Level`: how much a note matters.
* `Note`: a level and a text.
-/

namespace PropertyIndex

/-- How much a note matters. -/
inductive Level where
  | debug
  | info
  | warning
  deriving DecidableEq, Repr

/-- The word by which a level is shown. -/
def Level.label : Level → String
  | .debug => "DEBUG"
  | .info => "INFO"
  | .warning => "WARN"

/-- Something to tell the user about a run. -/
structure Note where
  level : Level
  text : String
  deriving DecidableEq, Repr

end PropertyIndex
