import PropertyIndex.Proofs.IndexedRecords

/-!
# Identifiers of records

The identifier of a record is put together with underscores from pieces that may have underscores
themselves, so it cannot be cut at them.  It is read from its end instead: the last eight
characters of a property's identifier are digits of a digest, and in front of them stands the name
after pieces that all records of a contract share.  Names alone keep the identifiers of properties
apart, and the identifier of the contract does not end in a digit.

* `IsDigest`, `isDigest_fingerprint`: digests in hexadecimal form.
* `ContractContext.name_eq_of_id_eq`, `ContractContext.contextRecord_id_ne`: what an identifier
  tells.
* `nodup_ids`: the records of a contract have distinct identifiers.
-/

namespace PropertyIndex

open Text Spec Contract

/-! ## Digests -/

/-- The digits of digests, in lower case. -/
def hexDigits : List Char :=
  "0123456789abcdef".toList

/-- A digest as it is stored: 64 hexadecimal digits in lower case. -/
structure IsDigest (digest : String) : Prop where
  length : digest.toList.length = 64
  digits : ∀ c ∈ digest.toList, c ∈ hexDigits

instance (digest : String) : Decidable (IsDigest digest) :=
  have := List.decidableBAll (· ∈ hexDigits) digest.toList
  decidable_of_iff (digest.toList.length = 64 ∧ ∀ c ∈ digest.toList, c ∈ hexDigits)
    ⟨fun h => ⟨h.1, h.2⟩, fun h => ⟨h.length, h.digits⟩⟩

namespace Digest

theorem hexDigit_mem : ∀ n < 16, hexDigit n ∈ hexDigits := by
  decide

/-- Each byte gives two digits. -/
theorem length_hex (bytes : List UInt8) : (hex bytes).length = 2 * bytes.length := by
  induction bytes with
  | nil => rfl
  | cons byte bytes ih =>
    rw [hex, List.flatMap_cons, List.length_append, ← hex, ih, List.length_cons]
    show 2 + 2 * bytes.length = 2 * (bytes.length + 1)
    omega

theorem mem_hex {bytes : List UInt8} {c : Char} (h : c ∈ hex bytes) :
    c ∈ hexDigits := by
  obtain ⟨byte, -, hc⟩ := List.mem_flatMap.1 h
  have hbyte : byte.toNat < 256 := byte.toNat_lt
  rcases List.mem_cons.1 hc with rfl | hc
  · exact hexDigit_mem _ (by omega)
  · rw [List.mem_singleton.1 hc]
    exact hexDigit_mem _ (by omega)

theorem length_bigEndian (width n : Nat) : (bigEndian width n).length = width := by
  induction width generalizing n with
  | zero => rfl
  | succ width ih => rw [bigEndian, List.length_append, ih, List.length_singleton]

/-- The digest of a message has eight words of four bytes. -/
theorem length_sha256 (message : List UInt8) : (sha256 message).length = 32 := by
  rw [sha256, State.words]
  simp only [List.flatMap_cons, List.flatMap_nil, List.length_append, length_bigEndian,
    List.length_nil]

end Digest

/-- The fingerprint of a property is a digest. -/
theorem isDigest_fingerprint (property : Property) : IsDigest property.fingerprint where
  length := by
    rw [Property.fingerprint, String.toList_ofList, Digest.length_hex, Digest.length_sha256]
  digits := by
    rw [Property.fingerprint, String.toList_ofList]
    exact fun c hc => Digest.mem_hex hc

section ShortDigest

variable {digest : String}

theorem IsDigest.length_shortDigest (h : IsDigest digest) :
    (shortDigest digest).toList.length = 8 := by
  rw [shortDigest, String.toList_ofList, List.length_take, h.length]
  rfl

theorem IsDigest.mem_shortDigest (h : IsDigest digest) {c : Char}
    (hc : c ∈ (shortDigest digest).toList) : c ∈ hexDigits := by
  rw [shortDigest, String.toList_ofList] at hc
  exact h.digits c (List.mem_of_mem_take hc)

end ShortDigest

/-! ## What an identifier tells -/

namespace ContractContext

variable {context : ContractContext} {digest : Property → String}

theorem toList_propertyRecord_id (linked : LinkedProperty) :
    (context.propertyRecord digest linked).id.toList =
      context.baseName.toList ++ '_' :: linked.property.name.toList ++
        '_' :: (shortDigest (digest linked.property)).toList := by
  have hsign : "_".toList = ['_'] := rfl
  simp only [propertyRecord, String.toList_append, hsign, List.append_assoc, List.cons_append,
    List.nil_append]

/-- Two properties with one identifier have one name. -/
theorem name_eq_of_id_eq {linked other : LinkedProperty}
    (hlinked : IsDigest (digest linked.property)) (hother : IsDigest (digest other.property))
    (h : (context.propertyRecord digest linked).id = (context.propertyRecord digest other).id) :
    linked.property.name = other.property.name := by
  have hlist := congrArg String.toList h
  rw [toList_propertyRecord_id, toList_propertyRecord_id] at hlist
  have hlength : ('_' :: (shortDigest (digest linked.property)).toList).length =
      ('_' :: (shortDigest (digest other.property)).toList).length := by
    rw [List.length_cons, List.length_cons, hlinked.length_shortDigest, hother.length_shortDigest]
  have hfront := (List.append_inj' hlist hlength).1
  exact String.toList_inj.1 (List.cons.inj (List.append_cancel_left hfront)).2

/-- No property has the identifier of the contract. -/
theorem contextRecord_id_ne {linked : LinkedProperty}
    (hlinked : IsDigest (digest linked.property)) :
    context.contextRecord.id ≠ (context.propertyRecord digest linked).id := by
  intro h
  have hlast := congrArg (fun id => id.toList.getLast?) h
  have hcontext : context.contextRecord.id.toList.getLast? = some 't' := by
    rw [contextRecord, String.toList_append, List.getLast?_append]
    rfl
  have hne : (shortDigest (digest linked.property)).toList ≠ [] := by
    rw [← List.length_pos_iff, hlinked.length_shortDigest]
    decide
  have hproperty : (context.propertyRecord digest linked).id.toList.getLast? =
      (shortDigest (digest linked.property)).toList.getLast? := by
    rw [toList_propertyRecord_id, List.getLast?_append_of_ne_nil _ (List.cons_ne_nil _ _),
      List.getLast?_cons_of_ne_nil hne]
  rw [hcontext, hproperty] at hlast
  have hdigit := hlinked.mem_shortDigest (List.mem_of_getLast? hlast.symm)
  exact absurd hdigit (by decide)

/-- Properties with distinct names give distinct identifiers, whatever their digests are. -/
theorem nodup_ids_recordsBy {properties : List LinkedProperty}
    (hdigest : ∀ linked ∈ properties, IsDigest (digest linked.property))
    (hnames : (properties.map fun linked => linked.property.name).Nodup) :
    ((context.recordsBy digest properties).map Record.id).Nodup := by
  rw [recordsBy, List.map_cons, List.map_map, List.nodup_cons]
  constructor
  · intro hmem
    obtain ⟨linked, hlinked, hid⟩ := List.mem_map.1 hmem
    exact contextRecord_id_ne (hdigest linked hlinked) hid.symm
  · rw [List.Nodup, List.pairwise_map] at hnames ⊢
    refine hnames.imp_of_mem fun hlinked hother hne hid => ?_
    exact hne (name_eq_of_id_eq (hdigest _ hlinked) (hdigest _ hother) hid)

end ContractContext

/-! ## The records of a contract -/

theorem Inputs.names_linkedProperties (inputs : Inputs) :
    (inputs.linkedProperties.map fun linked => linked.property.name) =
      inputs.properties.map Property.name := by
  rw [linkedProperties_eq, List.map_map]
  rfl

/-- Records have distinct identifiers when the properties have distinct names and every digest has
its form, even if two digests are the same.  So have the records of every contract with its
spec. -/
theorem nodup_ids :
    (∀ (context : ContractContext) (digest : Property → String)
      (properties : List LinkedProperty),
      (∀ linked ∈ properties, IsDigest (digest linked.property)) →
      (properties.map fun linked => linked.property.name).Nodup →
      ((context.recordsBy digest properties).map Record.id).Nodup) ∧
    ∀ inputs : Inputs, (inputs.records.map Record.id).Nodup := by
  constructor
  · intro context digest properties hdigest hnames
    exact ContractContext.nodup_ids_recordsBy hdigest hnames
  · intro inputs
    refine ContractContext.nodup_ids_recordsBy (fun linked _ => isDigest_fingerprint _) ?_
    rw [inputs.names_linkedProperties]
    exact nodup_names_properties _ _ _

/-- A contract without functions. -/
def emptyVault : ContractContext where
  fileName := "Vault.sol"
  source := "contract Vault \x7b\x7d"
  functions := FunctionTable.ofList []
  stateVariables := NameSet.ofList []
  specFile := "Vault.spec"

/-- Rules whose names look like parts of identifiers: the second one like the first with its
digest, and the third one like the beginning of the contract's own ending. -/
def mimics : List LinkedProperty :=
  ["pay", "pay_01234567", "contract"].map fun name =>
    ⟨⟨.rule, name, "Vault.spec", 1, 1, [], []⟩, .unknown⟩

/-- A digest that all of them may share. -/
def sharedDigest : String :=
  "0123456789abcdef0123456789abcdef0123456789abcdef0123456789abcdef"

theorem nodup_ids_mimics :
    (∀ linked ∈ mimics, IsDigest sharedDigest) ∧
      (mimics.map fun linked => linked.property.name).Nodup ∧
      (emptyVault.recordsBy (fun _ => sharedDigest) mimics).map Record.id =
        ["Vault_contract_context", "Vault_pay_01234567", "Vault_pay_01234567_01234567",
         "Vault_contract_01234567"] ∧
      ((emptyVault.recordsBy (fun _ => sharedDigest) mimics).map Record.id).Nodup := by
  have hdigest : ∀ linked ∈ mimics, IsDigest sharedDigest := fun _ _ => by decide
  have hnames : (mimics.map fun linked => linked.property.name).Nodup := by decide
  exact ⟨hdigest, hnames, by decide +kernel,
    nodup_ids.1 emptyVault (fun _ => sharedDigest) mimics hdigest hnames⟩

end PropertyIndex
