import Mathlib.Data.Finmap
import Mathlib.Data.List.Induction
import PropertyIndex.Proofs.BlockPosition
import PropertyIndex.Proofs.FunctionTable

/-!
# What a function table lists

A contract may define a name again and again.  The first definition settles where the table lists
the name, and the last one settles what the table holds for it.

* `FunctionTable.names_insert`, `FunctionTable.pairwise_names_ofList`: the order of the names.
* `FunctionTable.Tabulates`, `FunctionTable.tabulates_ofList`: what a table says about a sequence of
  functions.
* `FunctionRegister`, `FunctionRegister.mirrors_ofList`: a map from names to functions, with a list
  of the names beside it, says the same, however often names are overwritten.
* `IsFirstBlock`, `IsLastBlock`: the first and the last block of a name by their places in a text.
* `FunctionTable.Reflects`, `FunctionTable.reflects_ofSource`: what a table says about a source.
* `functionTable_exact`: what every table says.
-/

namespace PropertyIndex.Contract

open Source

/-! ## The order of the names -/

namespace FunctionTable

theorem nodup_names (table : FunctionTable) : table.names.Nodup :=
  table.distinct

theorem length_names (table : FunctionTable) : table.names.length = table.size :=
  List.length_map _

/-- A function that is put into a table is listed at the end unless its name is listed already. -/
theorem names_insert (table : FunctionTable) (function : SourceFunction) :
    (table.insert function).names =
      if function.name ∈ table.names then table.names else table.names ++ [function.name] :=
  map_putByKey SourceFunction.name function table.functions

theorem ofList_concat (functions : List SourceFunction) (function : SourceFunction) :
    ofList (functions ++ [function]) = (ofList functions).insert function :=
  List.foldl_concat insert empty function functions

/-- Names are listed in the order in which the sequence has them first. -/
theorem pairwise_names_ofList (functions : List SourceFunction) :
    (ofList functions).names.Pairwise fun earlier later =>
      (functions.map SourceFunction.name).idxOf earlier <
        (functions.map SourceFunction.name).idxOf later := by
  induction functions using List.reverseRecOn with
  | nil => exact List.Pairwise.nil
  | append_singleton functions function ih =>
    -- One more function at the end leaves the first places of all earlier names as they are.
    have hold : ∀ name ∈ (ofList functions).names,
        (functions.map SourceFunction.name ++ [function.name]).idxOf name =
          (functions.map SourceFunction.name).idxOf name := fun name hname =>
      List.idxOf_append_of_mem (mem_names_ofList.1 hname)
    have hkept : (ofList functions).names.Pairwise fun earlier later =>
        (functions.map SourceFunction.name ++ [function.name]).idxOf earlier <
          (functions.map SourceFunction.name ++ [function.name]).idxOf later := by
      refine ih.imp_of_mem fun hearlier hlater hlt => ?_
      rw [hold _ hearlier, hold _ hlater]
      exact hlt
    rw [ofList_concat, names_insert, List.map_append, List.map_singleton]
    split
    · exact hkept
    · next hnew =>
      refine List.pairwise_append.2 ⟨hkept, List.pairwise_singleton _ _, ?_⟩
      intro name hname other hother
      rw [List.mem_singleton.1 hother, hold name hname,
        List.idxOf_append_of_notMem fun hmem => hnew (mem_names_ofList.2 hmem)]
      exact Nat.lt_add_right _ (List.idxOf_lt_length_of_mem (mem_names_ofList.1 hname))

/-- What a table says about a sequence of functions. -/
structure Tabulates (table : FunctionTable) (functions : List SourceFunction) : Prop where
  nodup_names : table.names.Nodup
  mem_names : ∀ name, name ∈ table.names ↔ ∃ function ∈ functions, function.name = name
  /-- The names stand in the order of their first appearances. -/
  names_ordered : table.names.Pairwise fun earlier later =>
    (functions.map SourceFunction.name).idxOf earlier <
      (functions.map SourceFunction.name).idxOf later
  get?_eq_some : ∀ name function,
    table.get? name = some function ↔ IsLastNamed functions name function
  get?_eq_none : ∀ name, table.get? name = none ↔ ∀ function ∈ functions, function.name ≠ name
  contains_eq : ∀ name, table.contains name = decide (name ∈ table.names)
  size_eq : table.size = table.names.length
  isEmpty_eq : table.isEmpty = true ↔ table.names = []

theorem tabulates_ofList (functions : List SourceFunction) :
    (ofList functions).Tabulates functions where
  nodup_names := (ofList functions).nodup_names
  mem_names := fun _ => mem_names_ofList.trans List.mem_map
  names_ordered := pairwise_names_ofList functions
  get?_eq_some := fun _ _ => get?_ofList_eq_some
  get?_eq_none := fun name => by
    rw [get?_ofList, List.find?_eq_none]
    simp only [List.mem_reverse, beq_iff_eq, ne_eq]
  contains_eq := fun name => by
    rw [Bool.eq_iff_iff, contains_iff, decide_eq_true_iff]
  size_eq := (ofList functions).length_names.symm
  isEmpty_eq := List.isEmpty_iff.trans List.map_eq_nil_iff.symm

/-- A name that comes up again keeps its place and gives up its function. -/
example : (ofList [⟨"pay", 1, 1, []⟩, ⟨"burn", 2, 2, []⟩, ⟨"pay", 3, 4, []⟩]).functions =
    [⟨"pay", 3, 4, []⟩, ⟨"burn", 2, 2, []⟩] := by
  decide

end FunctionTable

/-! ## A map with a list of names beside it -/

/-- Functions that are kept in a map without order, with their names in a list beside it. -/
structure FunctionRegister where
  byName : Finmap fun _ : String => SourceFunction
  order : List String

namespace FunctionRegister

/-- A function overwrites its namesake in the map.  Its name is listed when it is new there. -/
def insert (register : FunctionRegister) (function : SourceFunction) : FunctionRegister :=
  { byName := register.byName.insert function.name function
    order :=
      if function.name ∈ register.byName then register.order
      else register.order ++ [function.name] }

/-- The register of a sequence of functions. -/
def ofList (functions : List SourceFunction) : FunctionRegister :=
  functions.foldl insert ⟨∅, []⟩

/-- A register gives the answers of a table: its map and its list have the same names, and nothing
else is in the map. -/
structure Mirrors (register : FunctionRegister) (table : FunctionTable) : Prop where
  order_eq : register.order = table.names
  lookup_eq : ∀ name, register.byName.lookup name = table.get? name
  keys_eq : register.byName.keys = register.order.toFinset
  card_keys : register.byName.keys.card = table.size

variable {register : FunctionRegister} {table : FunctionTable}

theorem mem_byName_iff (hlookup : ∀ name, register.byName.lookup name = table.get? name)
    {name : String} : name ∈ register.byName ↔ name ∈ table.names := by
  rw [← Finmap.lookup_isSome, hlookup, ← FunctionTable.contains_iff, FunctionTable.contains]

/-- It is enough that the list and the lookups agree: no name of the map can be missing in the list,
and none is listed twice. -/
theorem mirrors_of_lookup_eq (horder : register.order = table.names)
    (hlookup : ∀ name, register.byName.lookup name = table.get? name) :
    register.Mirrors table := by
  have hkeys : register.byName.keys = table.names.toFinset := by
    ext name
    rw [Finmap.mem_keys, mem_byName_iff hlookup, List.mem_toFinset]
  refine ⟨horder, hlookup, by rw [hkeys, horder], ?_⟩
  rw [hkeys, List.toFinset_card_of_nodup table.nodup_names, table.length_names]

/-- A register and a table go on alike with one more function. -/
theorem Mirrors.insert (h : register.Mirrors table) (function : SourceFunction) :
    (register.insert function).Mirrors (table.insert function) := by
  refine mirrors_of_lookup_eq ?_ fun name => ?_
  · rw [FunctionTable.names_insert]
    simp only [FunctionRegister.insert, mem_byName_iff h.lookup_eq, h.order_eq]
  · rw [FunctionTable.get?_insert]
    show (register.byName.insert function.name function).lookup name = _
    by_cases hname : function.name = name
    · rw [if_pos hname, ← hname, Finmap.lookup_insert]
    · rw [if_neg hname, Finmap.lookup_insert_of_ne _ (Ne.symm hname), h.lookup_eq]

theorem Mirrors.foldl_insert (h : register.Mirrors table) (functions : List SourceFunction) :
    (functions.foldl FunctionRegister.insert register).Mirrors
      (functions.foldl FunctionTable.insert table) := by
  induction functions generalizing register table with
  | nil => exact h
  | cons function functions ih => exact ih (h.insert function)

theorem mirrors_ofList (functions : List SourceFunction) :
    (ofList functions).Mirrors (FunctionTable.ofList functions) :=
  Mirrors.foldl_insert (mirrors_of_lookup_eq rfl fun _ => rfl) functions

end FunctionRegister

/-! ## The places of the definitions -/

/-- Of the blocks with a name, the one that starts first. -/
structure IsFirstBlock (blocks : List Block) (name : String) (block : Block) : Prop where
  mem : block ∈ blocks
  name_eq : block.name = name
  start_le : ∀ other ∈ blocks, other.name = name → block.start ≤ other.start

/-- Of the blocks with a name, the one that starts last. -/
structure IsLastBlock (blocks : List Block) (name : String) (block : Block) : Prop where
  mem : block ∈ blocks
  name_eq : block.name = name
  le_start : ∀ other ∈ blocks, other.name = name → other.start ≤ block.start

section Blocks

variable {blocks : List Block} {name : String} {function : SourceFunction}

/-- In the order of the starts, a name is found first at its first block. -/
theorem exists_isFirstBlock
    (hstarts : blocks.Pairwise fun first second => first.start < second.start)
    (hname : name ∈ blocks.map Block.name) :
    ∃ block, blocks[(blocks.map Block.name).idxOf name]? = some block ∧
      IsFirstBlock blocks name block := by
  induction blocks with
  | nil => exact absurd hname List.not_mem_nil
  | cons block blocks ih =>
    obtain ⟨hbehind, hstarts'⟩ := List.pairwise_cons.1 hstarts
    by_cases hblock : block.name = name
    · subst hblock
      refine ⟨block, ?_, List.mem_cons_self, rfl, List.forall_mem_cons.2 ⟨fun _ => le_rfl, ?_⟩⟩
      · rw [List.map_cons, List.idxOf_cons_self, List.getElem?_cons_zero]
      · exact fun other hother _ => Nat.le_of_lt (hbehind other hother)
    · have hmem : name ∈ blocks.map Block.name :=
        (List.mem_cons.1 hname).resolve_left fun h => hblock h.symm
      obtain ⟨first, hfirst, hisFirst⟩ := ih hstarts' hmem
      refine ⟨first, ?_, List.mem_cons_of_mem _ hisFirst.mem, hisFirst.name_eq,
        List.forall_mem_cons.2 ⟨fun h => absurd h hblock, hisFirst.start_le⟩⟩
      rw [List.map_cons, List.idxOf_cons_ne _ hblock, List.getElem?_cons_succ]
      exact hfirst

/-- In the order of the starts, the last function of a name is that of its last block. -/
theorem isLastNamed_map_iff
    (hstarts : blocks.Pairwise fun first second => first.start < second.start) :
    IsLastNamed (blocks.map SourceFunction.ofBlock) name function ↔
      ∃ block, IsLastBlock blocks name block ∧ function = SourceFunction.ofBlock block := by
  constructor
  · rintro ⟨rfl, before, after, hsplit, hafter⟩
    obtain ⟨front, back, rfl, -, hback⟩ := List.map_eq_append_iff.1 hsplit
    obtain ⟨block, back, rfl, rfl, rfl⟩ := List.map_eq_cons_iff.1 hback
    obtain ⟨-, -, hfront⟩ := List.pairwise_append.1 hstarts
    refine ⟨block, ⟨List.mem_append_right _ List.mem_cons_self, rfl, fun other hother hname => ?_⟩,
      rfl⟩
    rcases List.mem_append.1 hother with hbefore | hrest
    · exact Nat.le_of_lt (hfront other hbefore block List.mem_cons_self)
    · rcases List.mem_cons.1 hrest with rfl | hbehind
      · exact le_rfl
      · exact absurd hname (hafter _ (List.mem_map_of_mem hbehind))
  · rintro ⟨block, h, rfl⟩
    obtain ⟨front, back, rfl⟩ := List.append_of_mem h.mem
    obtain ⟨-, hback, -⟩ := List.pairwise_append.1 hstarts
    refine ⟨h.name_eq, front.map SourceFunction.ofBlock, back.map SourceFunction.ofBlock, ?_, ?_⟩
    · rw [List.map_append, List.map_cons]
    · refine List.forall_mem_map.2 fun other hother hname => ?_
      have hle := h.le_start other (List.mem_append_right _ (List.mem_cons_of_mem _ hother)) hname
      have hlt := (List.pairwise_cons.1 hback).1 other hother
      exact absurd hle (Nat.not_le_of_lt hlt)

end Blocks

namespace FunctionTable

/-- The blocks of a contract source that define a function of some name. -/
def namedBlocks (source : String) : List Block :=
  (blocks source).filter fun block => block.name != ""

theorem pairwise_start_namedBlocks (source : String) :
    (namedBlocks source).Pairwise fun first second => first.start < second.start :=
  (pairwise_start_scan .body source isKeyword_function).filter _

/-- What a table says about a contract source: it holds the last function of each name in the file
and lists the names by their first functions in the file. -/
structure Reflects (table : FunctionTable) (source : String) : Prop where
  tabulates : table.Tabulates ((namedBlocks source).map SourceFunction.ofBlock)
  file_order : (namedBlocks source).Pairwise fun first second => first.start < second.start
  get?_eq_some : ∀ name function, table.get? name = some function ↔
    ∃ block, IsLastBlock (namedBlocks source) name block ∧
      function = SourceFunction.ofBlock block
  names_ordered : table.names.Pairwise fun earlier later => ∃ first second,
    IsFirstBlock (namedBlocks source) earlier first ∧
      IsFirstBlock (namedBlocks source) later second ∧ first.start < second.start

/-- The names of a contract source are listed in the order of their first definitions. -/
theorem pairwise_names_ofSource (source : String) :
    (ofSource source).names.Pairwise fun earlier later => ∃ first second,
      IsFirstBlock (namedBlocks source) earlier first ∧
        IsFirstBlock (namedBlocks source) later second ∧ first.start < second.start := by
  have hstarts := pairwise_start_namedBlocks source
  have hnames : (definitions source).map SourceFunction.name =
      (namedBlocks source).map Block.name := List.map_map
  refine (pairwise_names_ofList (definitions source)).imp_of_mem ?_
  intro earlier later hearlier hlater hlt
  rw [hnames] at hlt
  obtain ⟨first, hfirst, hisFirst⟩ :=
    exists_isFirstBlock hstarts (hnames ▸ mem_names_ofList.1 hearlier)
  obtain ⟨second, hsecond, hisFirst'⟩ :=
    exists_isFirstBlock hstarts (hnames ▸ mem_names_ofList.1 hlater)
  obtain ⟨hbound, rfl⟩ := List.getElem?_eq_some_iff.1 hfirst
  obtain ⟨hbound', rfl⟩ := List.getElem?_eq_some_iff.1 hsecond
  exact ⟨_, _, hisFirst, hisFirst', List.pairwise_iff_getElem.1 hstarts _ _ hbound hbound' hlt⟩

theorem reflects_ofSource (source : String) : (ofSource source).Reflects source where
  tabulates := tabulates_ofList (definitions source)
  file_order := pairwise_start_namedBlocks source
  get?_eq_some := fun _ _ =>
    get?_ofList_eq_some.trans (isLastNamed_map_iff (pairwise_start_namedBlocks source))
  names_ordered := pairwise_names_ofSource source

end FunctionTable

/-- A table of functions lists each name once, at the place of its first definition, and holds the
last definition under it; a register does the same with a map and a list side by side.  In a source
the places of the definitions tell which one is the first and which one the last. -/
theorem functionTable_exact :
    (∀ functions : List SourceFunction,
      (FunctionTable.ofList functions).Tabulates functions ∧
        (FunctionRegister.ofList functions).Mirrors (FunctionTable.ofList functions)) ∧
      ∀ source : String, (FunctionTable.ofSource source).Reflects source :=
  ⟨fun functions =>
    ⟨FunctionTable.tabulates_ofList functions, FunctionRegister.mirrors_ofList functions⟩,
    FunctionTable.reflects_ofSource⟩

end PropertyIndex.Contract
