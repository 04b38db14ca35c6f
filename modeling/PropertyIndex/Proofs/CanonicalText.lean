import PropertyIndex.Proofs.Artifact
import PropertyIndex.Record.Fingerprint

/-!
# Canonical texts

The fingerprint of a property is the digest of a text without white space.  Such a text is spelled
with the same tokens as the indented one, whatever signs its string literals hold, so it is read
back as the value that it was printed from.  Two properties with one canonical text therefore agree
in everything that the text is made of.

* `tokens_compact`: the tokens of the compact layout.
* `read?_compact`, `eq_of_compact_eq`: a plain value is read back from its compact layout, which no
  other plain value has.
* `Property.SameDefinition`: properties that agree in all but the file that they come from.
* `compact_canonical_eq_iff`: the properties that have one canonical text.
-/

namespace PropertyIndex

open Spec

namespace Json

/-! ## The compact layout -/

mutual

/-- The compact layout of a value has the tokens of the value. -/
theorem tokens_compact : ∀ (value : Json) {rest : List Char}, IsPlain value → EndsScalar rest →
    tokens (compact value ++ rest) = (tokens rest).map (tokensOf value ++ ·)
  | null, rest, _, hrest => tokens_word rfl rfl hrest
  | bool true, rest, _, hrest => tokens_word rfl rfl hrest
  | bool false, rest, _, hrest => tokens_word rfl rfl hrest
  | number spelling, rest, hplain, hrest => by
    obtain ⟨n, rfl⟩ := hplain
    exact tokens_number n hrest
  | string literal, rest, hplain, hrest => by
    obtain ⟨text, rfl⟩ := Option.isSome_iff_exists.1 hplain
    exact tokens_quoted text rest
  | array items, rest, hplain, _ => by
    have hopen : compact (array items) ++ rest = '[' :: (compactItems items ++ (']' :: rest)) := by
      simp [compact]
    have htokens : tokensOf (array items) =
        .openArray :: ((tokensOfItems items).tail ++ [.closeArray]) := by
      cases items with
      | nil => rfl
      | cons item items => simp [tokensOf, tokensOfItems]
    have hends : EndsScalar (']' :: rest) := rfl
    rw [hopen, tokens_sign rfl (by decide) rfl, tokens_compactItems items hplain hends,
      tokens_sign rfl (by decide) rfl, htokens]
    simp only [Option.map_map]
    congr 1
    funext behind
    simp
  | object members, rest, hplain, _ => by
    have hopen : compact (object members) ++ rest =
        '\x7b' :: (compactMembers members ++ ('\x7d' :: rest)) := by
      simp [compact]
    have htokens : tokensOf (object members) =
        .openObject :: ((tokensOfMembers members).tail ++ [.closeObject]) := by
      rcases members with _ | ⟨⟨key, value⟩, members⟩
      · rfl
      · simp [tokensOf, tokensOfMembers]
    have hends : EndsScalar ('\x7d' :: rest) := rfl
    rw [hopen, tokens_sign rfl (by decide) rfl, tokens_compactMembers members hplain hends,
      tokens_sign rfl (by decide) rfl, htokens]
    simp only [Option.map_map]
    congr 1
    funext behind
    simp

/-- The items of an array have their tokens, with a comma between neighbours only. -/
theorem tokens_compactItems : ∀ (items : List Json) {rest : List Char}, ArePlainItems items →
    EndsScalar rest →
    tokens (compactItems items ++ rest) = (tokens rest).map ((tokensOfItems items).tail ++ ·)
  | [], rest, _, _ => Option.map_id'.symm
  | [item], rest, hplain, hrest => by
    have hitem := tokens_compact item hplain.1 hrest
    simpa [compactItems, tokensOfItems] using hitem
  | item :: next :: items, rest, hplain, hrest => by
    have hcomma : compactItems (item :: next :: items) ++ rest =
        compact item ++ (',' :: (compactItems (next :: items) ++ rest)) := by
      simp [compactItems]
    have hends : EndsScalar (',' :: (compactItems (next :: items) ++ rest)) := rfl
    rw [hcomma, tokens_compact item hplain.1 hends, tokens_comma,
      tokens_compactItems (next :: items) hplain.2 hrest]
    simp only [Option.map_map]
    congr 1
    funext behind
    simp [tokensOfItems]

/-- The members of an object have their tokens, with a comma between neighbours only. -/
theorem tokens_compactMembers : ∀ (members : List (Literal × Json)) {rest : List Char},
    ArePlainMembers members → EndsScalar rest →
    tokens (compactMembers members ++ rest) =
      (tokens rest).map ((tokensOfMembers members).tail ++ ·)
  | [], rest, _, _ => Option.map_id'.symm
  | [(key, value)], rest, hplain, hrest => by
    obtain ⟨name, rfl⟩ := Option.isSome_iff_exists.1 hplain.1
    have hmember : compactMembers [(some name, value)] ++ rest =
        quoted (some name) ++ (':' :: (compact value ++ rest)) := by
      simp [compactMembers]
    rw [hmember, tokens_quoted, tokens_sign rfl (by decide) rfl,
      tokens_compact value hplain.2.1 hrest]
    simp only [Option.map_map]
    congr 1
    funext behind
    simp [tokensOfMembers]
  | (key, value) :: next :: members, rest, hplain, hrest => by
    obtain ⟨name, rfl⟩ := Option.isSome_iff_exists.1 hplain.1
    have hmember : compactMembers ((some name, value) :: next :: members) ++ rest =
        quoted (some name) ++
          (':' :: (compact value ++ (',' :: (compactMembers (next :: members) ++ rest)))) := by
      simp [compactMembers]
    have hends : EndsScalar (',' :: (compactMembers (next :: members) ++ rest)) := rfl
    rw [hmember, tokens_quoted, tokens_sign rfl (by decide) rfl,
      tokens_compact value hplain.2.1 hends, tokens_comma,
      tokens_compactMembers (next :: members) hplain.2.2 hrest]
    simp only [Option.map_map]
    congr 1
    funext behind
    simp [tokensOfMembers]

end

/-- A plain value is read back from its compact layout. -/
theorem read?_compact {value : Json} (h : IsPlain value) : read? value.compact = some value := by
  have htokens := @tokens_compact value [] h rfl
  rw [List.append_nil, tokens, Option.map_some, List.append_nil] at htokens
  rw [read?, htokens, Option.bind_some, ofTokens?_tokensOf]

/-- No two plain values have one compact layout. -/
theorem eq_of_compact_eq {value other : Json} (hvalue : IsPlain value) (hother : IsPlain other)
    (h : value.compact = other.compact) : value = other := by
  have hread := read?_compact hvalue
  rw [h, read?_compact hother] at hread
  exact (Option.some_inj.1 hread).symm

theorem natural_inj {m n : Nat} : natural m = natural n ↔ m = n := by
  constructor
  · intro h
    have hdigits := congrArg String.toList (number.inj h)
    rw [toList_toString, toList_toString] at hdigits
    rw [← @Nat.ofDigitChars_ten_toDigits m, hdigits, Nat.ofDigitChars_ten_toDigits]
  · exact congrArg natural

theorem texts_inj {list others : List String} : texts list = texts others ↔ list = others := by
  constructor
  · intro h
    have hread := texts?_texts list
    rw [h, texts?_texts] at hread
    exact (Option.some_inj.1 hread).symm
  · exact congrArg texts

end Json

/-! ## Properties -/

namespace Spec.Property

/-- Two properties agree in all that defines them, which leaves out the file that they come
from. -/
structure SameDefinition (property other : Property) : Prop where
  name : property.name = other.name
  kind : property.kind = other.kind
  startLine : property.startLine = other.startLine
  endLine : property.endLine = other.endLine
  lines : property.lines = other.lines
  methods : property.methods = other.methods

theorem isPlain_canonical (property : Property) : property.canonical.IsPlain :=
  ⟨rfl, rfl, rfl, rfl, rfl, Json.isPlain_natural _, rfl, Json.isPlain_natural _, rfl,
    Json.isPlain_texts _, rfl, Json.isPlain_texts _, trivial⟩

/-- The canonical value of a property holds all that defines the property and nothing else. -/
theorem canonical_eq_iff {property other : Property} :
    property.canonical = other.canonical ↔ property.SameDefinition other := by
  constructor
  · intro h
    simp only [canonical, Json.record, Json.text, List.map_cons, List.map_nil, Json.object.injEq,
      List.cons.injEq, Prod.mk.injEq, Json.string.injEq, Option.some.injEq, Json.natural_inj,
      Json.texts_inj, and_true, true_and] at h
    obtain ⟨hname, hlabel, hstart, hend, hlines, hmethods⟩ := h
    have hkind := Kind.ofLabel?_label property.kind
    rw [hlabel, Kind.ofLabel?_label] at hkind
    exact ⟨hname, (Option.some_inj.1 hkind).symm, hstart, hend, hlines, hmethods⟩
  · rintro ⟨hname, hkind, hstart, hend, hlines, hmethods⟩
    rw [canonical, canonical, hname, hkind, hstart, hend, hlines, hmethods]

end Spec.Property

/-- Two properties have one canonical text, the text of which their fingerprints are digests,
exactly when they agree in all but the file that they come from. -/
theorem compact_canonical_eq_iff (property other : Property) :
    property.canonical.compact = other.canonical.compact ↔ property.SameDefinition other := by
  rw [← Property.canonical_eq_iff]
  constructor
  · intro h
    exact Json.eq_of_compact_eq property.isPlain_canonical other.isPlain_canonical h
  · intro h
    rw [h]

end PropertyIndex
