import PropertyIndex.Contract.Mutation
import PropertyIndex.Proofs.Identifier
import PropertyIndex.Proofs.Run
import PropertyIndex.Proofs.Utf8

/-!
# The test for state changes by byte offsets

The text of a function may also be read by the offsets of its bytes: the signs of an assignment and
the characters of a member name are looked for byte by byte, and the text is then cut at the offsets
that come out.  A cut inside a character would be no text.  All signs that are looked for are single
bytes that no longer character has, so every cut lies between two characters, and the reading comes
to the same answer.

* `cutAt?`, `cutAt?_eq_some_iff`: cutting a text at a byte offset.
* `targetEnd?`, `targetEnd?_encoded`: the offset of an assignment.
* `takeWhile_encoded`: the length of a member name.
* `modifiesStateByOffset?`, `modifiesStateByOffset?_eq`: the test, which never cuts through a
  character.
-/

namespace PropertyIndex.Contract

open Text

/-! ## Cuts -/

/-- The two parts of a text at a byte offset, unless the offset lies inside a character or behind
the end of the text. -/
def cutAt? : Nat → List Char → Option (List Char × List Char)
  | 0, text => some ([], text)
  | _ + 1, [] => none
  | offset + 1, c :: text =>
    if c.utf8Size ≤ offset + 1 then
      (cutAt? (offset + 1 - c.utf8Size) text).map fun (front, back) => (c :: front, back)
    else none

theorem cutAt?_width (front back : List Char) :
    cutAt? (width front) (front ++ back) = some (front, back) := by
  induction front with
  | nil => exact cutAt?.eq_1 back
  | cons c front ih =>
    obtain ⟨offset, hoffset⟩ := Nat.exists_eq_add_one.2 (width_pos (List.cons_ne_nil c front))
    have hwidth : c.utf8Size + width front = offset + 1 := hoffset
    have hrest : offset + 1 - c.utf8Size = width front := by omega
    rw [hoffset, List.cons_append, cutAt?, if_pos (by omega), hrest, ih]
    rfl

/-- A text is cut exactly at the offsets that lie between two of its parts. -/
theorem cutAt?_eq_some_iff {offset : Nat} {text front back : List Char} :
    cutAt? offset text = some (front, back) ↔ text = front ++ back ∧ offset = width front := by
  constructor
  · intro h
    induction text generalizing offset front with
    | nil =>
      cases offset with
      | zero =>
        obtain ⟨rfl, rfl⟩ := Prod.mk.inj (Option.some_inj.1 h)
        exact ⟨rfl, rfl⟩
      | succ offset => exact absurd h.symm (Option.some_ne_none _)
    | cons c text ih =>
      cases offset with
      | zero =>
        obtain ⟨rfl, rfl⟩ := Prod.mk.inj (Option.some_inj.1 h)
        exact ⟨rfl, rfl⟩
      | succ offset =>
        rw [cutAt?] at h
        split_ifs at h with hfits
        obtain ⟨⟨init, rest⟩, hcut, heq⟩ := Option.map_eq_some_iff.1 h
        obtain ⟨rfl, rfl⟩ := Prod.mk.inj heq
        obtain ⟨rfl, hoffset⟩ := ih hcut
        refine ⟨rfl, ?_⟩
        rw [width, ← hoffset]
        omega
  · rintro ⟨rfl, rfl⟩
    exact cutAt?_width front back

/-! ## The offset of an assignment -/

/-- The offset at which the target of an assignment ends, where `left` holds the bytes before the
equality sign, nearest first.  A shift that assigns has its sign doubled; a single one compares. -/
def endBefore? (left : List UInt8) : Option Nat :=
  if left.head? = some 0x3D ∨ left.head? = some 0x21 then none
  else if left.head? = some 0x3C ∨ left.head? = some 0x3E then
    if left.tail.head? = left.head? then some (left.length - 2) else none
  else some left.length

/-- The offset at which the target of the first assignment ends in the bytes of a statement, of
which those that follow `left` are still to be read. -/
def targetEndFrom? (left : List UInt8) : List UInt8 → Option Nat
  | [] => none
  | b :: bytes =>
    let later := targetEndFrom? (b :: left) bytes
    if b = 0x3D ∧ bytes.head? ≠ some 0x3D ∧ bytes.head? ≠ some 0x3E then (endBefore? left).or later
    else later

/-- The offset at which the target of the first assignment of a statement ends. -/
def targetEnd? (statement : List Char) : Option Nat :=
  targetEndFrom? [] (encoded statement)

/-- The target in front of an equality sign, in the form in which the bytes are read. -/
theorem targetBefore?_eq (left : List Char) : targetBefore? left =
    if left.head? = some '=' ∨ left.head? = some '!' then none
    else if left.head? = some '<' ∨ left.head? = some '>' then
      if left.tail.head? = left.head? then some left.tail.tail.reverse else none
    else some left.reverse := by
  rw [targetBefore?.eq_def]
  split
  · rfl
  · rfl
  · rfl
  · rfl
  · next rest hsingle =>
    have hne : rest.head? ≠ some '<' := by
      intro h
      obtain ⟨more, rfl⟩ := List.head?_eq_some_iff.1 h
      exact hsingle more rfl
    simp [hne]
  · next rest hsingle =>
    have hne : rest.head? ≠ some '>' := by
      intro h
      obtain ⟨more, rfl⟩ := List.head?_eq_some_iff.1 h
      exact hsingle more rfl
    simp [hne]
  · next hequal hbang _ _ hless hgreater =>
    have hne : ∀ sign, (∀ rest, left = sign :: rest → False) → left.head? ≠ some sign := by
      intro sign hsign h
      obtain ⟨rest, hrest⟩ := List.head?_eq_some_iff.1 h
      exact hsign rest hrest
    rw [if_neg (not_or.2 ⟨hne _ hequal, hne _ hbang⟩),
      if_neg (not_or.2 ⟨hne _ hless, hne _ hgreater⟩)]

/-- The bytes of a text that is given with the nearest character first, in the same order. -/
def bytesBefore (left : List Char) : List UInt8 :=
  (encoded left.reverse).reverse

theorem bytesBefore_cons (c : Char) (left : List Char) :
    bytesBefore (c :: left) = (String.utf8EncodeChar c).reverse ++ bytesBefore left := by
  rw [bytesBefore, List.reverse_cons, encoded_append, List.reverse_append, bytesBefore]
  simp [encoded]

theorem bytesBefore_cons_of_lt {c : Char} (h : c.toNat < 128) (left : List Char) :
    bytesBefore (c :: left) = c.toUInt8 :: bytesBefore left := by
  rw [bytesBefore_cons, utf8EncodeChar_of_lt h]
  rfl

theorem length_bytesBefore (left : List Char) :
    (bytesBefore left).length = width left.reverse := by
  rw [bytesBefore, List.length_reverse, length_encoded]

/-- The nearest byte is the byte of a sign exactly when the nearest character is the sign. -/
theorem head?_bytesBefore_iff {sign : Char} (hsign : sign.toNat < 128) (left : List Char) :
    (bytesBefore left).head? = some sign.toUInt8 ↔ left.head? = some sign := by
  cases left with
  | nil => exact iff_of_false (Option.some_ne_none _).symm (Option.some_ne_none _).symm
  | cons c left =>
    rw [List.head?_cons, Option.some_inj, ← mem_utf8EncodeChar_iff hsign]
    constructor
    · intro h
      rw [bytesBefore_cons, List.head?_append, List.head?_reverse] at h
      rcases hlast : (String.utf8EncodeChar c).getLast? with _ | b
      · exact absurd (List.getLast?_eq_none_iff.1 hlast) String.utf8EncodeChar_ne_nil
      · rw [hlast, Option.some_or, Option.some_inj] at h
        exact h ▸ List.mem_of_getLast? hlast
    · intro h
      obtain rfl := (mem_utf8EncodeChar_iff hsign).1 h
      rw [bytesBefore_cons_of_lt hsign]
      rfl

theorem head?_encoded_iff {sign : Char} (hsign : sign.toNat < 128) (text : List Char) :
    (encoded text).head? = some sign.toUInt8 ↔ text.head? = some sign := by
  rw [List.head?_eq_some_iff, List.head?_eq_some_iff]
  constructor
  · rintro ⟨bytes, hbytes⟩
    exact exists_of_encoded_eq_cons sign hsign hbytes
  · rintro ⟨behind, rfl⟩
    exact ⟨encoded behind, by rw [encoded_cons, utf8EncodeChar_of_lt hsign]; rfl⟩

/-- A doubled sign of a shift takes up two bytes. -/
theorem endBefore?_shift {sign : Char} (hsign : sign.toNat < 128) (left : List Char) :
    (if (bytesBefore (sign :: left)).tail.head? = (bytesBefore (sign :: left)).head? then
        some ((bytesBefore (sign :: left)).length - 2) else none) =
      (if left.head? = some sign then some left.tail.reverse else none).map width := by
  rw [bytesBefore_cons_of_lt hsign, List.tail_cons, List.head?_cons]
  by_cases hhead : left.head? = some sign
  · rw [if_pos ((head?_bytesBefore_iff hsign left).2 hhead), if_pos hhead]
    obtain ⟨left, rfl⟩ := List.head?_eq_some_iff.1 hhead
    rw [bytesBefore_cons_of_lt hsign, List.length_cons, List.length_cons, length_bytesBefore]
    rfl
  · rw [if_neg (fun h => hhead ((head?_bytesBefore_iff hsign left).1 h)), if_neg hhead]
    rfl

theorem endBefore?_bytesBefore (left : List Char) :
    endBefore? (bytesBefore left) = (targetBefore? left).map width := by
  have hequal : (bytesBefore left).head? = some 0x3D ↔ left.head? = some '=' :=
    @head?_bytesBefore_iff '=' (by decide) left
  have hbang : (bytesBefore left).head? = some 0x21 ↔ left.head? = some '!' :=
    @head?_bytesBefore_iff '!' (by decide) left
  have hless : (bytesBefore left).head? = some 0x3C ↔ left.head? = some '<' :=
    @head?_bytesBefore_iff '<' (by decide) left
  have hgreater : (bytesBefore left).head? = some 0x3E ↔ left.head? = some '>' :=
    @head?_bytesBefore_iff '>' (by decide) left
  rw [endBefore?, targetBefore?_eq]
  by_cases hcompares : left.head? = some '=' ∨ left.head? = some '!'
  · rw [if_pos (hcompares.imp hequal.2 hbang.2), if_pos hcompares]
    rfl
  · rw [if_neg (fun h => hcompares (h.imp hequal.1 hbang.1)), if_neg hcompares]
    by_cases hshift : left.head? = some '<' ∨ left.head? = some '>'
    · rw [if_pos (hshift.imp hless.2 hgreater.2), if_pos hshift]
      rcases hshift with hhead | hhead
      · obtain ⟨left, rfl⟩ := List.head?_eq_some_iff.1 hhead
        exact endBefore?_shift (by decide) left
      · obtain ⟨left, rfl⟩ := List.head?_eq_some_iff.1 hhead
        exact endBefore?_shift (by decide) left
    · rw [if_neg (fun h => hshift (h.imp hless.1 hgreater.1)), if_neg hshift, length_bytesBefore]
      rfl

/-- Bytes other than that of an equality sign are passed over. -/
theorem targetEndFrom?_append {bytes : List UInt8} (h : ∀ b ∈ bytes, b ≠ 0x3D)
    (left rest : List UInt8) :
    targetEndFrom? left (bytes ++ rest) = targetEndFrom? (bytes.reverse ++ left) rest := by
  induction bytes generalizing left with
  | nil => rfl
  | cons b bytes ih =>
    obtain ⟨hb, hbytes⟩ := List.forall_mem_cons.1 h
    rw [List.cons_append, targetEndFrom?, if_neg (fun hsign => hb hsign.1), ih hbytes,
      List.reverse_cons, List.append_assoc, List.singleton_append]

theorem targetEndFrom?_encoded (left text : List Char) :
    targetEndFrom? (bytesBefore left) (encoded text) =
      (assignmentTargetFrom? left text).map width := by
  induction text generalizing left with
  | nil => rfl
  | cons c text ih =>
    by_cases hc : c = '='
    · subst hc
      have hequal := @head?_encoded_iff '=' (by decide) text
      have hgreater := @head?_encoded_iff '>' (by decide) text
      have hlater := ih ('=' :: left)
      rw [bytesBefore_cons_of_lt (by decide)] at hlater
      rw [encoded_cons, utf8EncodeChar_of_lt (by decide), List.singleton_append, targetEndFrom?,
        assignmentTargetFrom?, hlater, endBefore?_bytesBefore, ← Option.map_or]
      by_cases hopens : opensComparison text = true
      · have hopens' : text.head? = some '=' ∨ text.head? = some '>' := by
          simpa [opensComparison] using hopens
        rw [hopens, if_neg, if_neg (by decide)]
        rintro ⟨-, hne, hne'⟩
        exact hopens'.elim (fun h => hne (hequal.2 h)) (fun h => hne' (hgreater.2 h))
      · have hopens' : text.head? ≠ some '=' ∧ text.head? ≠ some '>' := by
          simpa [opensComparison] using hopens
        rw [Bool.not_eq_true] at hopens
        rw [hopens, if_pos, if_pos (by decide)]
        exact ⟨rfl, fun h => hopens'.1 (hequal.1 h), fun h => hopens'.2 (hgreater.1 h)⟩
    · have hbytes : ∀ b ∈ String.utf8EncodeChar c, b ≠ 0x3D := by
        rintro b hb rfl
        exact hc ((@mem_utf8EncodeChar_iff c '=' (by decide)).1 hb)
      have hskip : ¬ (c == '=' && !opensComparison text) = true := by
        rw [Bool.and_eq_true, beq_iff_eq]
        exact fun h => hc h.1
      rw [encoded_cons, targetEndFrom?_append hbytes, ← bytesBefore_cons, ih,
        assignmentTargetFrom?, if_neg hskip]

/-- The offset that the bytes of a statement give is the one at which the target ends. -/
theorem targetEnd?_eq (statement : List Char) :
    targetEnd? statement = (assignmentTarget? statement).map width :=
  targetEndFrom?_encoded [] statement

theorem prefix_of_targetBefore? {left target : List Char} (h : targetBefore? left = some target) :
    target <+: left.reverse := by
  rw [targetBefore?_eq] at h
  split_ifs at h
  · obtain rfl := Option.some_inj.1 h
    exact List.reverse_prefix.2 ((List.tail_suffix _).trans (List.tail_suffix _))
  · obtain rfl := Option.some_inj.1 h
    exact List.prefix_refl _

theorem prefix_of_assignmentTargetFrom? {left text target : List Char}
    (h : assignmentTargetFrom? left text = some target) : target <+: left.reverse ++ text := by
  induction text generalizing left with
  | nil => exact absurd h.symm (Option.some_ne_none _)
  | cons c text ih =>
    have hlater : assignmentTargetFrom? (c :: left) text = some target →
        target <+: left.reverse ++ c :: text := by
      intro h'
      have hprefix := ih h'
      rwa [List.reverse_cons, List.append_assoc, List.singleton_append] at hprefix
    rw [assignmentTargetFrom?] at h
    split at h
    · rcases Option.or_eq_some_iff.1 h with hhere | ⟨-, h'⟩
      · exact (prefix_of_targetBefore? hhere).trans (List.prefix_append _ _)
      · exact hlater h'
    · exact hlater h

/-! ## The length of a member name -/

/-- The byte of an identifier character. -/
def isIdentByte (b : UInt8) : Bool :=
  (0x30 ≤ b && b ≤ 0x39) || (0x41 ≤ b && b ≤ 0x5A) || (0x61 ≤ b && b ≤ 0x7A) || b == 0x5F

theorem isIdentByte_toUInt8 {c : Char} (h : c.toNat < 128) :
    isIdentByte c.toUInt8 = isIdentChar c := by
  have hall : ∀ n < 128, isIdentByte (Char.ofNat n).toUInt8 = isIdentChar (Char.ofNat n) := by
    decide
  have hc := hall c.toNat h
  rwa [Char.ofNat_toNat] at hc

theorem isIdentByte_of_le {b : UInt8} (h : 128 ≤ b.toNat) : isIdentByte b = false := by
  rw [← Bool.not_eq_true]
  simp only [isIdentByte, Bool.or_eq_true, Bool.and_eq_true, decide_eq_true_eq, beq_iff_eq,
    UInt8.le_iff_toNat_le]
  rintro (((⟨-, hhigh⟩ | ⟨-, hhigh⟩) | ⟨-, hhigh⟩) | rfl)
  · exact absurd (Nat.le_trans h hhigh) (by decide)
  · exact absurd (Nat.le_trans h hhigh) (by decide)
  · exact absurd (Nat.le_trans h hhigh) (by decide)
  · exact absurd h (by decide)

/-- The bytes of identifier characters at the front of a text are those of its identifier characters
there. -/
theorem takeWhile_encoded (text : List Char) :
    (encoded text).takeWhile isIdentByte = encoded (text.takeWhile isIdentChar) := by
  induction text with
  | nil => rfl
  | cons c text ih =>
    rw [encoded_cons]
    by_cases hascii : c.toNat < 128
    · rw [utf8EncodeChar_of_lt hascii, List.singleton_append, List.takeWhile_cons,
        List.takeWhile_cons, isIdentByte_toUInt8 hascii]
      split_ifs
      · rw [encoded_cons, utf8EncodeChar_of_lt hascii, ih]
        rfl
      · rfl
    · have hident : isIdentChar c = false := by
        rw [← Bool.not_eq_true]
        intro h
        exact hascii (Nat.lt_trans (toNat_of_isIdentChar h).2 (by decide))
      obtain ⟨b, more, hbytes⟩ := List.exists_cons_of_ne_nil (@String.utf8EncodeChar_ne_nil c)
      have hb : 128 ≤ b.toNat := by
        refine le_toNat_of_mem (c := c) (Or.inl ⟨Nat.le_of_not_lt hascii, ?_⟩)
        rw [hbytes]
        exact List.mem_cons_self
      rw [hbytes, List.cons_append, List.takeWhile_cons, isIdentByte_of_le hb, List.takeWhile_cons,
        hident]
      rfl

/-! ## The test -/

/-- Whether a word occurs in a text as a whole name, by the offsets of its occurrences. -/
def containsWordByOffset? (text word : List Char) : Option Bool :=
  (sitesOf word text).anyM fun site => do
    let offset := width site.left.reverse
    let (before, _) ← cutAt? offset text
    let (_, after) ← cutAt? (offset + width word) text
    return !before.getLast?.any isNameChar && !after.head?.any isNameChar

/-- Whether a text assigns to one of a set of variables, by the offsets of its assignments. -/
def assignsToByOffset? (state : NameSet) (body : List Char) : Option Bool :=
  (pieces ';' body).anyM fun statement =>
    match targetEnd? statement with
    | none => some false
    | some offset => do
      let (target, _) ← cutAt? offset statement
      state.toList.anyM fun name => containsWordByOffset? target name.toList

/-- Whether a text, which is not that of a view, calls a member that may change state, by the
offsets of its dots and of the names behind them. -/
def callsMutatingMemberByOffset? (body : List Char) : Option Bool :=
  if contains "view".toList (lowercase body) then some false
  else
    (sitesOf ['.'] body).anyM fun site => do
      let (_, rest) ← cutAt? (width site.left.reverse + 1) body
      let (name, behind) ← cutAt? ((encoded rest).takeWhile isIdentByte).length rest
      return name.head?.any isIdentStart && behind.head? == some '(' &&
        !readOnlyMembers.contains (String.ofList name)

/-- Whether the text of a function suggests that it changes state, by offsets.  There is no answer
when a cut does not lie between two characters. -/
def modifiesStateByOffset? (body : String) (state : NameSet) : Option Bool := do
  if ← assignsToByOffset? state body.toList then return true
  callsMutatingMemberByOffset? body.toList

/-- A search in which every test has an answer has one itself. -/
theorem anyM_eq_some {α : Type} {p : α → Option Bool} {q : α → Bool} {l : List α}
    (h : ∀ x ∈ l, p x = some (q x)) : l.anyM p = some (l.any q) := by
  induction l with
  | nil => rfl
  | cons x l ih =>
    obtain ⟨hx, hl⟩ := List.forall_mem_cons.1 h
    rw [List.anyM, hx, ih hl, List.any_cons]
    cases q x with
    | true => rfl
    | false => rfl

theorem sitesFrom_nil (left text : List Char) : sitesFrom [] left 0 text = [] := by
  induction text generalizing left with
  | nil => rfl
  | cons c text ih => exact ih (c :: left)

/-- An occurrence lies between two offsets at which the text can be cut. -/
theorem cutAt?_of_mem_sitesOf {word text : List Char} {site : Site} (h : site ∈ sitesOf word text) :
    cutAt? (width site.left.reverse) text = some (site.left.reverse, word ++ site.right) ∧
      cutAt? (width site.left.reverse + width word) text =
        some (site.left.reverse ++ word, site.right) := by
  cases word with
  | nil =>
    rw [sitesOf, sitesFrom_nil] at h
    exact absurd h List.not_mem_nil
  | cons w tail =>
    have htext : text = site.left.reverse ++ (w :: tail) ++ site.right := eq_of_mem_sitesFrom h
    rw [cutAt?_eq_some_iff, cutAt?_eq_some_iff, ← width_append]
    exact ⟨⟨by rw [htext, List.append_assoc], rfl⟩, htext, rfl⟩

theorem containsWordByOffset?_eq (text word : List Char) :
    containsWordByOffset? text word = some (containsWord text word) := by
  refine anyM_eq_some fun site hsite => ?_
  obtain ⟨hbefore, hafter⟩ := cutAt?_of_mem_sitesOf hsite
  simp only [hbefore, hafter, Option.bind_eq_bind, Option.bind_some, Option.pure_def]
  rw [List.getLast?_reverse, Site.isWholeName]

theorem assignsToByOffset?_eq (state : NameSet) (body : List Char) :
    assignsToByOffset? state body = some (assignsTo state body) := by
  refine anyM_eq_some fun statement _ => ?_
  rw [targetEnd?_eq]
  rcases htarget : assignmentTarget? statement with _ | target
  · rfl
  · obtain ⟨rest, hrest⟩ := prefix_of_assignmentTargetFrom? htarget
    have hcut : cutAt? (width target) statement = some (target, rest) :=
      cutAt?_eq_some_iff.2 ⟨hrest.symm, rfl⟩
    simp only [Option.map_some, hcut, Option.bind_eq_bind, Option.bind_some, Option.any_some]
    exact anyM_eq_some fun name _ => containsWordByOffset?_eq target name.toList

theorem isIdentifier_takeWhile (text : List Char) :
    isIdentifier (text.takeWhile isIdentChar) =
      (text.takeWhile isIdentChar).head?.any isIdentStart := by
  rcases hname : text.takeWhile isIdentChar with _ | ⟨c, name⟩
  · rfl
  · have hall : name.all isIdentChar = true := by
      refine List.all_eq_true.2 fun d hd => List.mem_takeWhile_imp (l := text) ?_
      rw [hname]
      exact List.mem_cons_of_mem c hd
    rw [isIdentifier, hall, Bool.and_true]
    rfl

theorem callsMutatingMemberByOffset?_eq (body : List Char) :
    callsMutatingMemberByOffset? body = some (callsMutatingMember body) := by
  rw [callsMutatingMemberByOffset?, callsMutatingMember]
  cases contains "view".toList (lowercase body) with
  | true => rfl
  | false =>
    rw [if_neg Bool.false_ne_true, Bool.not_false, Bool.true_and, memberCalls, List.any_filterMap]
    refine anyM_eq_some fun site hsite => ?_
    have hdot : cutAt? (width site.left.reverse + 1) body =
        some (site.left.reverse ++ ['.'], site.right) := (cutAt?_of_mem_sitesOf hsite).2
    have hname : cutAt? ((encoded site.right).takeWhile isIdentByte).length site.right =
        some (site.right.takeWhile isIdentChar, site.right.dropWhile isIdentChar) := by
      rw [takeWhile_encoded, length_encoded, cutAt?_eq_some_iff]
      exact ⟨List.takeWhile_append_dropWhile.symm, rfl⟩
    simp only [hdot, hname, Option.bind_eq_bind, Option.bind_some, Option.pure_def]
    rw [calledMember?, isIdentifier_takeWhile]
    split_ifs with hcall
    · rw [hcall]
      rfl
    · rw [Bool.not_eq_true] at hcall
      rw [hcall]
      rfl

/-- By offsets the test comes to the same answer; above all it has one for every text, so no cut
goes through a character. -/
theorem modifiesStateByOffset?_eq (body : String) (state : NameSet) :
    modifiesStateByOffset? body state = some (modifiesState body state) := by
  rw [modifiesStateByOffset?, assignsToByOffset?_eq, callsMutatingMemberByOffset?_eq, modifiesState]
  cases assignsTo state body.toList with
  | true => rfl
  | false => rfl

end PropertyIndex.Contract
