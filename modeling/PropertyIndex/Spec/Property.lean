import PropertyIndex.Source.Block
import PropertyIndex.Text.Identifier
import PropertyIndex.Text.Occurrence

/-!
# Properties of a spec

A property is a rule or an invariant.  A rule has a body in braces; an invariant is a statement
that may carry brace groups.  Both kinds are found separately and then put in the order of the
file, and of several properties with one name only the first counts.

* `Kind`: rule or invariant.
* `Property`: a property with its lines and the methods that it speaks of.
* `candidates`: the named blocks of both kinds in file order.
* `firstOfEachName`, `repeated`: the candidates that count and those that do not.
* `properties`: the properties of a spec, which have distinct names.
-/

namespace PropertyIndex.Spec

open Text Source

/-- The kinds of property. -/
inductive Kind where
  | rule
  | invariant
  deriving DecidableEq, Repr

namespace Kind

/-- The word by which a kind is shown. -/
def label : Kind → String
  | .rule => "RULE"
  | .invariant => "INVARIANT"

/-- The keyword that introduces a property of a kind. -/
def keyword : Kind → String
  | .rule => "rule"
  | .invariant => "invariant"

/-- How a property of a kind ends. -/
def extent : Kind → Extent
  | .rule => .body
  | .invariant => .statement

end Kind

/-- A rule or an invariant of a spec. -/
structure Property where
  kind : Kind
  name : String
  /-- The path of the spec that the property comes from. -/
  file : String
  startLine : Nat
  endLine : Nat
  /-- The lines of the property, and after expansion those of the properties it refers to. -/
  lines : List String
  /-- The declared methods whose bare name occurs in the property as a whole name. -/
  methods : List String
  deriving DecidableEq, Repr

/-- The text of a property. -/
def Property.body (property : Property) : String :=
  joinLines property.lines

/-- A block that may count as a property. -/
structure Candidate where
  kind : Kind
  block : Block
  deriving DecidableEq, Repr

/-- The blocks of one kind in a spec, with and without a name. -/
def blocksOfKind (kind : Kind) (spec : String) : List Block :=
  scan kind.extent kind.keyword spec

/-- The named blocks of one kind in a spec. -/
def candidatesOfKind (kind : Kind) (spec : String) : List Candidate :=
  ((blocksOfKind kind spec).filter fun block => block.name != "").map fun block => ⟨kind, block⟩

/-- The named blocks of both kinds, in the order of the file.  A rule comes first where both begin
at one place. -/
def candidates (spec : String) : List Candidate :=
  (candidatesOfKind .rule spec).merge (candidatesOfKind .invariant spec)
    fun a b => a.block.start ≤ b.block.start

/-- The candidates whose name is not among `seen` and has not come up before. -/
def firstOfEachName (seen : List String) : List Candidate → List Candidate
  | [] => []
  | candidate :: rest =>
    if seen.contains candidate.block.name then firstOfEachName seen rest
    else candidate :: firstOfEachName (candidate.block.name :: seen) rest

/-- The candidates whose name is among `seen` or has come up before. -/
def repeated (seen : List String) : List Candidate → List Candidate
  | [] => []
  | candidate :: rest =>
    if seen.contains candidate.block.name then candidate :: repeated seen rest
    else repeated (candidate.block.name :: seen) rest

/-- The candidates that count are among the candidates. -/
theorem mem_of_mem_firstOfEachName {seen : List String} {candidates : List Candidate}
    {candidate : Candidate} (h : candidate ∈ firstOfEachName seen candidates) :
    candidate ∈ candidates := by
  induction candidates generalizing seen with
  | nil => exact absurd h List.not_mem_nil
  | cons first rest ih =>
    rw [firstOfEachName] at h
    split at h
    · exact List.mem_cons_of_mem _ (ih h)
    · rcases List.mem_cons.1 h with rfl | hrest
      · exact List.mem_cons_self
      · exact List.mem_cons_of_mem _ (ih hrest)

/-- A name among `seen` does not come up again. -/
theorem name_notMem_of_mem_firstOfEachName {seen : List String} {candidates : List Candidate}
    {candidate : Candidate} (h : candidate ∈ firstOfEachName seen candidates) :
    candidate.block.name ∉ seen := by
  induction candidates generalizing seen with
  | nil => exact absurd h List.not_mem_nil
  | cons first rest ih =>
    rw [firstOfEachName] at h
    split at h
    · exact ih h
    · next hfirst =>
      rcases List.mem_cons.1 h with rfl | hrest
      · exact fun hseen => hfirst (List.contains_iff_mem.2 hseen)
      · exact fun hseen => ih hrest (List.mem_cons_of_mem _ hseen)

/-- The candidates that count have distinct names. -/
theorem nodup_names_firstOfEachName (seen : List String) (candidates : List Candidate) :
    ((firstOfEachName seen candidates).map fun candidate => candidate.block.name).Nodup := by
  induction candidates generalizing seen with
  | nil => exact List.nodup_nil
  | cons first rest ih =>
    rw [firstOfEachName]
    split
    · exact ih seen
    · rw [List.map_cons, List.nodup_cons]
      refine ⟨fun h => ?_, ih _⟩
      obtain ⟨later, hlater, hname⟩ := List.mem_map.1 h
      exact name_notMem_of_mem_firstOfEachName hlater (hname ▸ List.mem_cons_self)

/-- The property that a candidate stands for. -/
def Candidate.property (candidate : Candidate) (file : String) (methods : List String) :
    Property :=
  let text := candidate.block.text.toList
  { kind := candidate.kind
    name := candidate.block.name
    file
    startLine := candidate.block.startLine
    endLine := candidate.block.endLine
    lines := candidate.block.lines
    methods := methods.filter fun method => containsWord text (bareName method).toList }

/-- The properties of a spec, given the methods that it declares. -/
def properties (spec file : String) (methods : List String) : List Property :=
  (firstOfEachName [] (candidates spec)).map fun candidate => candidate.property file methods

/-- The properties of a spec have distinct names. -/
theorem nodup_names_properties (spec file : String) (methods : List String) :
    ((properties spec file methods).map Property.name).Nodup := by
  rw [properties, List.map_map]
  exact nodup_names_firstOfEachName [] (candidates spec)

end PropertyIndex.Spec
