import PropertyIndex.Proofs.BlockCells
import PropertyIndex.Proofs.DeclaringLine
import PropertyIndex.Proofs.LineEndIndependence

/-!
# Where a spec declares its methods

The first `methods` block of a spec is found on the masked copy, but its lines are read in the text
itself.  A name on such a line is in a comment exactly when the whole line begins in one, since the
signs that open and close comments cannot stand in front of it.

* `SameComment`, `readsComments_maskFrom`: neighbours between which no comment begins or ends.
* `mem_filterMap_declaredMethod?_iff`: the names that the lines of a text declare.
* `DeclarationSite`: a name on a line of the first block.
* `mem_methods_iff`: the methods of a spec are the names at such sites.
* `DeclarationSite.IsIn.outside_iff`: which of these names are in comments.
* `methods_declared`: both together.
-/

namespace PropertyIndex.Source

open Text

/-! ## Neighbours in a comment -/

/-- Neither of two neighbours begins or ends a comment, or else both are in one or none is. -/
def SameComment (a b : Cell) : Prop :=
  a.char ≠ '/' → b.char ≠ '/' → b.char ≠ '\n' → (a.part = .comment ↔ b.part = .comment)

/-- A comment of either kind. -/
def Region.IsComment (region : Region) : Prop :=
  region = .lineComment ∨ region = .blockComment

instance (region : Region) : Decidable region.IsComment :=
  inferInstanceAs (Decidable (_ ∨ _))

/-- A cell at the front of a text is in a comment if the text begins in one. -/
def StartsLike (region : Region) (cell : Cell) : Prop :=
  cell.char ≠ '/' → cell.char ≠ '\n' → (cell.part = .comment ↔ region.IsComment)

/-- Cells that begin inside a region and in which comments begin and end at slashes and line feeds
only. -/
def ReadsComments (region : Region) (cells : List Cell) : Prop :=
  cells.IsChain SameComment ∧ ∀ cell ∈ cells.head?, StartsLike region cell

section Comments

variable {region behind : Region} {cell : Cell} {cells : List Cell}

/-- A cell that belongs to a comment exactly when the text goes on in one. -/
theorem ReadsComments.cons (h : ReadsComments behind cells)
    (hcell : cell.part = .comment ↔ behind.IsComment) (hstart : StartsLike region cell) :
    ReadsComments region (cell :: cells) := by
  refine ⟨List.isChain_cons.2 ⟨fun next hnext _ hslash hfeed => ?_, h.1⟩, ?_⟩
  · exact hcell.trans (h.2 next hnext hslash hfeed).symm
  · rintro first ⟨⟩
    exact hstart

/-- A slash may begin or end a comment. -/
theorem ReadsComments.slash (h : ReadsComments behind cells) (hslash : cell.char = '/') :
    ReadsComments region (cell :: cells) := by
  refine ⟨List.isChain_cons.2 ⟨fun next _ hne => absurd hslash hne, h.1⟩, ?_⟩
  rintro first ⟨⟩ hne
  exact absurd hslash hne

theorem not_isComment_opened (p : Bool) (quote : Char) :
    ¬ (if p then Region.literal quote else .code).IsComment := by
  cases p with
  | true => exact of_decide_eq_false rfl
  | false => exact of_decide_eq_false rfl

theorem not_isComment_escaping (p : Bool) (quote : Char) :
    ¬ (if p then Region.escaped quote else .literal quote).IsComment := by
  cases p with
  | true => exact of_decide_eq_false rfl
  | false => exact of_decide_eq_false rfl

/-- Comments begin and end at slashes and line feeds only. -/
theorem readsComments_maskFrom (region : Region) (text : List Char) :
    ReadsComments region (maskFrom region text) := by
  have hcode : ¬ Region.code.IsComment := by decide
  have hline : Region.lineComment.IsComment := Or.inl rfl
  have hblock : Region.blockComment.IsComment := Or.inr rfl
  have hliteral (quote : Char) : ¬ (Region.literal quote).IsComment := of_decide_eq_false rfl
  have hescaped (quote : Char) : ¬ (Region.escaped quote).IsComment := of_decide_eq_false rfl
  fun_induction maskFrom region text with
  | case1 region => exact ⟨List.isChain_nil, fun _ h => absurd h.symm (Option.some_ne_none _)⟩
  | case2 text ih => exact (ih.slash rfl : ReadsComments .lineComment _).slash rfl
  | case3 text ih =>
    have hstar : ReadsComments .blockComment (⟨'*', .comment⟩ :: maskFrom .blockComment text) :=
      ih.cons (iff_of_true rfl hblock) fun _ _ => iff_of_true rfl hblock
    exact hstar.slash rfl
  | case4 c text _ _ ih =>
    exact ih.cons (iff_of_false Part.noConfusion (not_isComment_opened _ c)) fun _ _ =>
      iff_of_false Part.noConfusion hcode
  | case5 quote c text h ih =>
    exact ih.cons (iff_of_false Part.noConfusion hcode) fun _ _ =>
      iff_of_false Part.noConfusion (hliteral quote)
  | case6 quote c text h ih =>
    exact ih.cons (iff_of_false Part.noConfusion (not_isComment_escaping _ quote)) fun _ _ =>
      iff_of_false Part.noConfusion (hliteral quote)
  | case7 quote c text ih =>
    exact ih.cons (iff_of_false Part.noConfusion (hliteral quote)) fun _ _ =>
      iff_of_false Part.noConfusion (hescaped quote)
  | case8 c text h ih =>
    exact ih.cons (iff_of_false Part.noConfusion hcode) fun _ hfeed =>
      absurd (beq_iff_eq.1 h) hfeed
  | case9 c text h ih =>
    exact ih.cons (iff_of_true rfl hline) fun _ _ => iff_of_true rfl hline
  | case10 text ih =>
    have hslash : ReadsComments .blockComment (⟨'/', .comment⟩ :: maskFrom .code text) :=
      ih.slash rfl
    exact hslash.cons (iff_of_true rfl hblock) fun _ _ => iff_of_true rfl hblock
  | case11 c text hend ih =>
    exact ih.cons (iff_of_true rfl hblock) fun _ _ => iff_of_true rfl hblock

/-- Behind a cell that is no slash, the cells up to the next slash or line feed are in a comment
exactly when it is. -/
theorem part_eq_comment_iff {text : List Char} {front rest : List Cell}
    (htext : mask text = front ++ (cell :: cells ++ rest)) (hcell : cell.char ≠ '/')
    (hcells : ∀ c ∈ source cells, c ≠ '/' ∧ c ≠ '\n') :
    ∀ other ∈ cells, (cell.part = .comment ↔ other.part = .comment) := by
  have hchain : (cell :: cells).IsChain SameComment := by
    refine List.IsChain.infix (readsComments_maskFrom .code text).1 ⟨front, rest, ?_⟩
    rw [List.append_assoc]
    exact htext.symm
  clear htext
  induction cells generalizing cell with
  | nil => exact fun _ h => absurd h List.not_mem_nil
  | cons next cells ih =>
    obtain ⟨hsame, hlater⟩ := List.isChain_cons_cons.1 hchain
    obtain ⟨⟨hslash, hfeed⟩, hcells'⟩ := List.forall_mem_cons.1 hcells
    have hnext := hsame hcell hslash hfeed
    refine List.forall_mem_cons.2 ⟨hnext, fun other hother => ?_⟩
    exact hnext.trans (ih hslash hcells' hlater other hother)

end Comments

end PropertyIndex.Source

namespace PropertyIndex.Spec

open Text Source

/-! ## Names on the lines of a text -/

/-- A name that the lines of a text declare stands on a line behind a lead. -/
theorem mem_filterMap_declaredMethod?_iff {text name : List Char} :
    name ∈ (lines text).filterMap declaredMethod? ↔
      ∃ above lead rest, text = above ++ (lead ++ (name ++ '(' :: rest)) ∧
        (above = [] ∨ above.getLast? = some '\n') ∧ IsLead lead ∧ '\n' ∉ lead ∧
        isQualifiedName name = true := by
  rw [filterMap_declaredMethod?_lines, List.mem_filterMap]
  constructor
  · rintro ⟨piece, hpiece, hdeclared⟩
    obtain ⟨hfeed, before, after, rfl, hbefore, -⟩ := mem_pieces_iff.1 hpiece
    obtain ⟨lead, rest, rfl, hlead, hname⟩ := declaredMethod?_eq_some_iff.1 hdeclared
    refine ⟨before, lead, rest ++ after, by simp, hbefore, hlead, fun hmem => ?_, hname⟩
    exact hfeed (List.mem_append_left _ hmem)
  · rintro ⟨above, lead, rest, rfl, habove, hlead, hfeed, hname⟩
    have hdotted := isDottedChar_of_isQualifiedName hname
    refine ⟨lead ++ (name ++ '(' :: rest.takeWhile (· != '\n')), mem_pieces_iff.2 ⟨?_, above,
      rest.dropWhile (· != '\n'), ?_, habove, ?_⟩,
      declaredMethod?_eq_some_iff.2 ⟨lead, _, rfl, hlead, hname⟩⟩
    · simp only [List.mem_append, List.mem_cons, not_or]
      refine ⟨hfeed, fun hmem => Bool.noConfusion (hdotted _ hmem), by decide, fun hmem => ?_⟩
      exact Bool.noConfusion (List.mem_takeWhile_imp hmem)
    · simp
    · have hhead := List.head?_dropWhile_not (· != '\n') rest
      rcases hdrop : rest.dropWhile (· != '\n') with _ | ⟨c, more⟩
      · exact Or.inl rfl
      · rw [hdrop] at hhead
        simpa using hhead

/-! ## Sites -/

/-- A name on a line of a block: the cells in front of the block and behind it, and those of the
block itself, with the lines above, what stands in front of the name on its line, the name, and what
is left of the block. -/
structure DeclarationSite where
  front : List Cell
  above : List Cell
  lead : List Cell
  word : List Cell
  below : List Cell
  back : List Cell

namespace DeclarationSite

/-- The cells of the block. -/
def cells (site : DeclarationSite) : List Cell :=
  site.above ++ (site.lead ++ (site.word ++ site.below))

/-- A site lies in the first `methods` block of a spec, and its line declares the name. -/
structure IsIn (site : DeclarationSite) (spec : String) : Prop where
  block : ∃ block ∈ (methodBlocks spec).head?,
    block.HasCells spec site.front site.cells site.back
  line_start : site.above = [] ∨ (source site.above).getLast? = some '\n'
  lead : IsLead (source site.lead)
  lead_line : '\n' ∉ source site.lead
  qualified : isQualifiedName (source site.word) = true
  called : (source site.below).head? = some '('

end DeclarationSite

section Sites

variable {spec name : String} {site : DeclarationSite}

/-- The methods of a spec are the names at the sites of its first block. -/
theorem mem_methods_iff : name ∈ methods spec ↔ name ∉ builtinPredicates ∧
    ∃ site : DeclarationSite, site.IsIn spec ∧ source site.word = name.toList := by
  rcases hblocks : methodBlocks spec with _ | ⟨block, more⟩
  · rw [methods, hblocks]
    refine iff_of_false List.not_mem_nil ?_
    rintro ⟨-, site, hsite, -⟩
    obtain ⟨block, hblock, -⟩ := hsite.block
    rw [hblocks] at hblock
    exact absurd hblock.symm (Option.some_ne_none _)
  · have hmethods : methods spec = methodsOfLines (lines block.text.toList) := by
      rw [methods, hblocks]
    rw [hmethods, mem_methodsOfLines_iff, mem_filterMap_declaredMethod?_iff]
    refine and_congr_right fun _ => ⟨?_, ?_⟩
    · rintro ⟨above, lead, rest, htext, habove, hlead, hfeed, hname⟩
      have hscan : block ∈ scan .body "methods" spec := by
        show block ∈ methodBlocks spec
        rw [hblocks]
        exact List.mem_cons_self
      obtain ⟨front, word, later, back, hcells, -, -⟩ := exists_hasCells isKeyword_methods hscan
      rw [hcells.text_eq, String.toList_ofList] at htext
      obtain ⟨aboveCells, onLine, hsplit, rfl, hline⟩ := List.map_eq_append_iff.1 htext
      obtain ⟨leadCells, behind, rfl, rfl, hbehind⟩ := List.map_eq_append_iff.1 hline
      obtain ⟨wordCells, belowCells, rfl, hword, hbelow⟩ := List.map_eq_append_iff.1 hbehind
      have hword' : source wordCells = name.toList := hword
      refine ⟨⟨front, aboveCells, leadCells, wordCells, belowCells, back⟩, ⟨⟨block, ?_, ?_⟩,
        habove.imp_left List.map_eq_nil_iff.1, hlead, hfeed, ?_, ?_⟩, hword'⟩
      · rw [hblocks]
        rfl
      · show block.HasCells spec front (aboveCells ++ (leadCells ++ (wordCells ++ belowCells))) back
        rw [← hsplit]
        exact hcells
      · rw [hword']
        exact hname
      · show (belowCells.map Cell.char).head? = some '('
        rw [hbelow]
        rfl
    · rintro ⟨site, hsite, hword⟩
      obtain ⟨block', hblock', hcells⟩ := hsite.block
      rw [hblocks] at hblock'
      obtain rfl : block = block' := Option.some_inj.1 hblock'
      obtain ⟨rest, hrest⟩ := List.head?_eq_some_iff.1 hsite.called
      refine ⟨source site.above, source site.lead, rest, ?_,
        hsite.line_start.imp_left fun hnil => by rw [hnil]; rfl, hsite.lead, hsite.lead_line,
        hword ▸ hsite.qualified⟩
      rw [hcells.text_eq, String.toList_ofList, DeclarationSite.cells, source_append, source_append,
        source_append, hword, hrest]

theorem slash_notMem_of_isLead {lead : List Char} (h : IsLead lead) : '/' ∉ lead := by
  cases h with
  | blanks hblank => exact fun hmem => Bool.noConfusion (hblank '/' hmem)
  | introduced hblank hgap hne =>
    rw [List.mem_append, List.mem_append]
    rintro (hmem | hmem | hmem)
    · exact Bool.noConfusion (hblank '/' hmem)
    · exact absurd hmem (by decide)
    · exact Bool.noConfusion (hgap '/' hmem)

namespace DeclarationSite.IsIn

variable (h : site.IsIn spec)

include h

/-- No comment begins or ends between the start of a line and the end of the name on it. -/
theorem plain : ∀ c ∈ source (site.lead ++ site.word), c ≠ '/' ∧ c ≠ '\n' := by
  have hdotted := isDottedChar_of_isQualifiedName h.qualified
  intro c hc
  rw [source_append] at hc
  rcases List.mem_append.1 hc with hlead | hword
  · exact ⟨fun heq => slash_notMem_of_isLead h.lead (heq ▸ hlead),
      fun heq => h.lead_line (heq ▸ hlead)⟩
  · constructor
    · rintro rfl
      exact Bool.noConfusion (hdotted _ hword)
    · rintro rfl
      exact Bool.noConfusion (hdotted _ hword)

theorem word_ne_nil : site.word ≠ [] := by
  obtain ⟨c, rest, hword, -⟩ := exists_cons_of_isQualifiedName h.qualified
  intro hnil
  rw [hnil] at hword
  exact absurd hword.symm (List.cons_ne_nil _ _)

/-- The first line of the block begins with its keyword, which is in no comment. -/
theorem outside_of_first (habove : site.above = []) :
    ∀ cell ∈ site.word, cell.part ≠ .comment := by
  obtain ⟨block, hblock, hcells⟩ := h.block
  obtain ⟨front, word, more, back, hother, hvisible, -⟩ :=
    exists_hasCells isKeyword_methods (List.mem_of_mem_head? hblock)
  obtain ⟨first, rest, hline⟩ := List.exists_cons_of_ne_nil
    (List.append_ne_nil_of_right_ne_nil site.lead h.word_ne_nil)
  have hsame : first :: rest ++ site.below = word ++ more := by
    rw [← (hcells.unique hother).2, cells, habove, ← hline, List.nil_append, List.append_assoc]
  have hshown : first.shown = 'm' := by
    have hhead := congrArg (fun cells => (visible cells).head?) hsame
    simp only [visible_append, hvisible] at hhead
    exact Option.some_inj.1 hhead
  have hfirst : first.part ≠ .comment := by
    intro hpart
    have hhidden : first.shows = false := by
      rw [Cell.shows, hpart, char_of_shown hshown (by decide)]
      rfl
    rw [Cell.shown, hhidden, if_neg Bool.false_ne_true] at hshown
    exact absurd hshown (by decide)
  have hplain := h.plain
  rw [hline, source, List.map_cons, List.forall_mem_cons] at hplain
  have htext : mask spec.toList = site.front ++ (first :: rest ++ (site.below ++ site.back)) := by
    rw [hcells.eq, cells, habove, ← hline]
    simp
  have hrest := part_eq_comment_iff htext hplain.1.1 hplain.2
  intro cell hcell
  have hmem : cell ∈ first :: rest := by
    rw [← hline]
    exact List.mem_append_right _ hcell
  rcases List.mem_cons.1 hmem with rfl | hlater
  · exact hfirst
  · exact fun hpart => hfirst ((hrest cell hlater).2 hpart)

/-- The name on a later line is in a comment exactly when the line feed in front of that line is. -/
theorem part_eq_comment_of_later {init : List Cell} {feed : Cell}
    (habove : site.above = init ++ [feed]) (hfeed : feed.char = '\n') :
    ∀ cell ∈ site.word, (feed.part = .comment ↔ cell.part = .comment) := by
  obtain ⟨block, -, hcells⟩ := h.block
  have htext : mask spec.toList = (site.front ++ init) ++
      (feed :: (site.lead ++ site.word) ++ (site.below ++ site.back)) := by
    rw [hcells.eq, cells, habove]
    simp
  have hslash : feed.char ≠ '/' := by
    rw [hfeed]
    decide
  intro cell hcell
  exact part_eq_comment_iff htext hslash h.plain cell (List.mem_append_right _ hcell)

/-- A name is outside of all comments exactly when its line does not begin in one. -/
theorem outside_iff : (∀ cell ∈ site.word, cell.part ≠ .comment) ↔
    site.above.getLast? ≠ some ⟨'\n', .comment⟩ := by
  rcases site.above.eq_nil_or_concat with habove | ⟨init, feed, habove⟩
  · rw [habove]
    exact iff_of_true (h.outside_of_first habove) (Option.some_ne_none _).symm
  · rw [List.concat_eq_append] at habove
    have hfeed : feed.char = '\n' := by
      have hlast := h.line_start.resolve_left (by simp [habove])
      rw [habove, source_append, source, source, List.map_singleton, List.getLast?_concat] at hlast
      exact Option.some_inj.1 hlast
    have hpart := h.part_eq_comment_of_later habove hfeed
    rw [habove, List.getLast?_concat]
    constructor
    · intro houtside hin
      obtain ⟨cell, rest, hword⟩ := List.exists_cons_of_ne_nil h.word_ne_nil
      have hcell : cell ∈ site.word := by
        rw [hword]
        exact List.mem_cons_self
      refine houtside cell hcell ((hpart cell hcell).1 ?_)
      rw [Option.some_inj.1 hin]
    · intro hout cell hcell hcomment
      have hin := (hpart cell hcell).2 hcomment
      exact hout (congrArg some (by rw [← hfeed, ← hin]))

end DeclarationSite.IsIn

end Sites

/-- The methods of a spec are the names that lines of its first block declare, but for the words of
the spec language.  A name on such a line is outside of every comment exactly when the line feed in
front of the line is: the lines of a comment over several lines are read like any others. -/
theorem methods_declared (spec name : String) :
    (name ∈ methods spec ↔ name ∉ builtinPredicates ∧
      ∃ site : DeclarationSite, site.IsIn spec ∧ source site.word = name.toList) ∧
      ∀ site : DeclarationSite, site.IsIn spec →
        ((∀ cell ∈ site.word, cell.part ≠ .comment) ↔
          site.above.getLast? ≠ some ⟨'\n', .comment⟩) :=
  ⟨mem_methods_iff, fun _ h => h.outside_iff⟩

/-- A block with a comment over several lines, on one of which a declaration stands. -/
def commentedSpec : String :=
  "methods \x7b\n/*\nold()\n*/\nnew()\n\x7d"

/-- The name behind the comment. -/
def newSite : DeclarationSite :=
  let cells := mask commentedSpec.toList
  ⟨[], cells.take 22, [], (cells.drop 22).take 3, cells.drop 25, []⟩

theorem methods_declared_commentedSpec :
    methods commentedSpec = ["old", "new"] ∧ newSite.IsIn commentedSpec ∧
      ∀ cell ∈ newSite.word, cell.part ≠ .comment := by
  have hsite : newSite.IsIn commentedSpec :=
    { block := ⟨⟨"", 0, 29, 1, 6, commentedSpec, true⟩, by decide +kernel,
        ⟨by decide +kernel, by decide +kernel, by decide +kernel, by decide +kernel⟩⟩
      line_start := by decide +kernel
      lead := IsLead.blanks fun _ h => absurd h List.not_mem_nil
      lead_line := by decide
      qualified := by decide +kernel
      called := by decide +kernel }
  exact ⟨by decide +kernel, hsite,
    ((methods_declared commentedSpec "new").2 newSite hsite).2 (by decide +kernel)⟩

/-- A name on a line of a comment is a method. -/
theorem not_forall_outside_comments :
    ¬ ∀ spec name : String, name ∈ methods spec → ∃ site : DeclarationSite, site.IsIn spec ∧
      source site.word = name.toList ∧ ∀ cell ∈ site.word, cell.part ≠ .comment := by
  intro h
  obtain ⟨site, hsite, hword, houtside⟩ := h commentedSpec "old" (by decide +kernel)
  obtain ⟨block, -, hcells⟩ := hsite.block
  have hcommented : ∀ n < (mask commentedSpec.toList).length,
      source (((mask commentedSpec.toList).drop n).take 3) = "old".toList →
        ∃ cell ∈ ((mask commentedSpec.toList).drop n).take 3, cell.part = .comment := by
    decide +kernel
  have hmask : mask commentedSpec.toList = (site.front ++ site.above ++ site.lead) ++
      (site.word ++ (site.below ++ site.back)) := by
    rw [hcells.eq, DeclarationSite.cells]
    simp
  have hlength : site.word.length = 3 := by
    rw [← List.length_map (f := Cell.char)]
    exact congrArg List.length hword
  have hlt : (site.front ++ site.above ++ site.lead).length < (mask commentedSpec.toList).length := by
    have htotal := congrArg List.length hmask
    simp only [List.length_append] at htotal ⊢
    omega
  obtain ⟨cell, hcell, hpart⟩ := hcommented _ hlt (by
    rw [hmask, List.drop_left, ← hlength, List.take_left]
    exact hword)
  rw [hmask, List.drop_left, ← hlength, List.take_left] at hcell
  exact houtside cell hcell hpart

end PropertyIndex.Spec
