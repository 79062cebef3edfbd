import FleetLabels.Classifier
import FleetLabels.Proofs.JsonText

/-!
    What the hash of a classifier covers.

    The hashed text of a classifier is the compact text of its spec, and such a text tells its document
    apart (`Json.ordered_eq_of_compact_eq`). The document holds every part of the spec under a key of
    its own: absent counts have no member, and present ones are numbers. So two classifiers have one
    hashed text exactly when they have the same constraints, requirements and labels in the same order
    (`Classifier.SameSpec`), and one hash only then or when two byte messages collide. -/

namespace FleetLabels

/-! ### Digests of visible text -/

namespace Digest

/-- The bytes of an ASCII text. -/
def asciiBytes (cs : List Char) : List UInt8 := cs.map fun c => UInt8.ofNat c.toNat

/-- Two messages with one digest. -/
def Collision (m n : List UInt8) : Prop := m ≠ n ∧ sha256 m = sha256 n

theorem hexDigits_byte {a b : UInt8} (h : Text.hexDigits 2 a.toNat = Text.hexDigits 2 b.toNat) :
    a = b := by
  have hnumber := congrArg Text.hexNumber h
  have ha := a.toNat_lt
  have hb := b.toNat_lt
  rw [Text.hexNumber_hexDigits, Text.hexNumber_hexDigits] at hnumber
  exact UInt8.toNat_inj.mp (by omega)

/-- Bytes are read off their hexadecimal digits two at a time. -/
theorem flatMap_hexDigits {as bs : List UInt8}
    (h : (as.flatMap fun a => Text.hexDigits 2 a.toNat) = bs.flatMap fun b => Text.hexDigits 2 b.toNat) :
    as = bs := by
  induction as generalizing bs with
  | nil =>
    cases bs with
    | nil => rfl
    | cons b bs => simp [Text.hexDigits] at h
  | cons a as ih =>
    cases bs with
    | nil => simp [Text.hexDigits] at h
    | cons b bs =>
      rw [List.flatMap_cons, List.flatMap_cons] at h
      obtain ⟨hfirst, hrest⟩ := List.append_inj h
        ((Text.length_hexDigits 2 a.toNat).trans (Text.length_hexDigits 2 b.toNat).symm)
      rw [hexDigits_byte hfirst, ih hrest]

theorem hexOfText_eq_iff {cs ds : List Char} :
    hexOfText cs = hexOfText ds ↔ sha256 (asciiBytes cs) = sha256 (asciiBytes ds) := by
  constructor
  · intro h
    exact flatMap_hexDigits (String.ofList_injective h)
  · intro h
    rw [hexOfText, hexOfText]
    exact congrArg (fun bytes => String.ofList (bytes.flatMap fun b => Text.hexDigits 2 b.toNat)) h

/-- Visible text is read back from its bytes. -/
theorem map_asciiBytes {cs : List Char} (h : ∀ c ∈ cs, Json.Visible c) :
    (asciiBytes cs).map (fun b => Char.ofNat b.toNat) = cs := by
  have hchar : ∀ c ∈ cs, Char.ofNat (UInt8.ofNat c.toNat).toNat = c := by
    intro c hc
    have hsmall : c.toNat % 2 ^ 8 = c.toNat := Nat.mod_eq_of_lt (Nat.lt_trans (h c hc).2 (by decide))
    rw [UInt8.toNat_ofNat', hsmall, Char.ofNat_toNat]
  rw [asciiBytes, List.map_map]
  exact (List.map_congr_left hchar).trans (List.map_id' cs)

theorem asciiBytes_inj {cs ds : List Char} (hcs : ∀ c ∈ cs, Json.Visible c)
    (hds : ∀ d ∈ ds, Json.Visible d) (h : asciiBytes cs = asciiBytes ds) : cs = ds := by
  rw [← map_asciiBytes hcs, h, map_asciiBytes hds]

end Digest

/-! ### Documents of the parts of a spec -/

theorem Operation.name_injective : ∀ o p : Operation, o.name = p.name → o = p := by
  intro o p
  cases o <;> cases p <;> decide

theorem Comparison.name_injective : ∀ c d : Comparison, c.name = d.name → c = d := by
  intro c d
  cases c <;> cases d <;> decide

namespace Label

theorem keyed (l : Label) : l.toJson.Keyed :=
  show ["key", "value"].Nodup by decide

theorem eq_of_ordered (l m : Label) (h : l.toJson.ordered = m.toJson.ordered) : l = m := by
  have hkey : l.key = m.key := Json.text_eq h m.keyed (k := "key") rfl rfl
  have hvalue : l.value = m.value := Json.text_eq h m.keyed (k := "value") rfl rfl
  rw [Label.mk.injEq]
  exact ⟨hkey, hvalue⟩

end Label

namespace LabelFilter

theorem keyed (f : LabelFilter) : f.toJson.Keyed :=
  show ["key", "operation", "value"].Nodup by decide

theorem eq_of_ordered (f g : LabelFilter) (h : f.toJson.ordered = g.toJson.ordered) : f = g := by
  have hkey : f.key = g.key := Json.text_eq h g.keyed (k := "key") rfl rfl
  have hname : f.operation.name = g.operation.name :=
    Json.text_eq h g.keyed (k := "operation") rfl rfl
  have hvalue : f.value = g.value := Json.text_eq h g.keyed (k := "value") rfl rfl
  rw [LabelFilter.mk.injEq]
  exact ⟨hkey, Operation.name_injective _ _ hname, hvalue⟩

end LabelFilter

namespace FieldFilter

theorem keyed (f : FieldFilter) : f.toJson.Keyed :=
  show ["field", "operation", "value"].Nodup by decide

theorem eq_of_ordered (f g : FieldFilter) (h : f.toJson.ordered = g.toJson.ordered) : f = g := by
  have hfield : f.field = g.field := Json.text_eq h g.keyed (k := "field") rfl rfl
  have hname : f.operation.name = g.operation.name :=
    Json.text_eq h g.keyed (k := "operation") rfl rfl
  have hvalue : f.value = g.value := Json.text_eq h g.keyed (k := "value") rfl rfl
  rw [FieldFilter.mk.injEq]
  exact ⟨hfield, Operation.name_injective _ _ hname, hvalue⟩

end FieldFilter

namespace Requirement

theorem keyed (r : Requirement) : r.toJson.Keyed :=
  show ["version", "comparison"].Nodup by decide

theorem eq_of_ordered (r q : Requirement) (h : r.toJson.ordered = q.toJson.ordered) : r = q := by
  have hversion : r.version = q.version := Json.text_eq h q.keyed (k := "version") rfl rfl
  have hname : r.comparison.name = q.comparison.name :=
    Json.text_eq h q.keyed (k := "comparison") rfl rfl
  rw [Requirement.mk.injEq]
  exact ⟨hversion, Comparison.name_injective _ _ hname⟩

end Requirement

namespace Constraint

theorem keyed (c : Constraint) : c.toJson.Keyed := by
  obtain ⟨scope, labels, fields, low, high, script⟩ := c
  cases low with
  | none =>
    cases high with
    | none => exact show ["group", "version", "kind", "namespace", "labelFilters", "fieldFilters",
        "script"].Nodup by decide
    | some n => exact show ["group", "version", "kind", "namespace", "labelFilters", "fieldFilters",
        "script", "maxCount"].Nodup by decide
  | some m =>
    cases high with
    | none => exact show ["group", "version", "kind", "namespace", "labelFilters", "fieldFilters",
        "script", "minCount"].Nodup by decide
    | some n => exact show ["group", "version", "kind", "namespace", "labelFilters", "fieldFilters",
        "script", "minCount", "maxCount"].Nodup by decide

theorem get?_minCount (c : Constraint) :
    c.toJson.get? "minCount" = c.minCount.map fun n => .int n := by
  obtain ⟨scope, labels, fields, low, high, script⟩ := c
  cases low <;> cases high <;> rfl

theorem get?_maxCount (c : Constraint) :
    c.toJson.get? "maxCount" = c.maxCount.map fun n => .int n := by
  obtain ⟨scope, labels, fields, low, high, script⟩ := c
  cases low <;> cases high <;> rfl

theorem eq_of_ordered (c d : Constraint) (h : c.toJson.ordered = d.toJson.ordered) : c = d := by
  have hgroup : c.scope.group = d.scope.group := Json.text_eq h d.keyed (k := "group") rfl rfl
  have hversion : c.scope.version = d.scope.version :=
    Json.text_eq h d.keyed (k := "version") rfl rfl
  have hkind : c.scope.kind = d.scope.kind := Json.text_eq h d.keyed (k := "kind") rfl rfl
  have hspace : c.scope.space = d.scope.space := Json.text_eq h d.keyed (k := "namespace") rfl rfl
  have hlabels : c.labelFilters = d.labelFilters :=
    Json.list_eq h d.keyed LabelFilter.eq_of_ordered (k := "labelFilters") rfl rfl
  have hfields : c.fieldFilters = d.fieldFilters :=
    Json.list_eq h d.keyed FieldFilter.eq_of_ordered (k := "fieldFilters") rfl rfl
  have hscript : c.script = d.script := Json.text_eq h d.keyed (k := "script") rfl rfl
  have hlow := Json.count_eq h c.keyed d.keyed c.get?_minCount d.get?_minCount
  have hhigh := Json.count_eq h c.keyed d.keyed c.get?_maxCount d.get?_maxCount
  have hscope : c.scope = d.scope := by
    rw [Scope.mk.injEq]
    exact ⟨hgroup, hversion, hkind, hspace⟩
  rw [Constraint.mk.injEq]
  exact ⟨hscope, hlabels, hfields, hlow, hhigh, hscript⟩

end Constraint

/-! ### Hashes of classifiers -/

namespace Classifier

/-- Two classifiers with the same constraints, requirements and labels, in the same order. -/
def SameSpec (a b : Classifier) : Prop :=
  a.constraints = b.constraints ∧ a.requirements = b.requirements ∧ a.labels = b.labels

/-- The message that the hash of a classifier is the digest of. -/
def hashedBytes (c : Classifier) : List UInt8 := Digest.asciiBytes c.hashedText

theorem keyed_specJson (c : Classifier) : c.specJson.Keyed :=
  show ["deployedResourceConstraints", "kubernetesVersionConstraints", "classifierLabels"].Nodup by
    decide

theorem sameSpec_of_hashedText {a b : Classifier} (h : a.hashedText = b.hashedText) :
    a.SameSpec b := by
  have hspec := Json.ordered_eq_of_compact_eq h
  refine ⟨?_, ?_, ?_⟩
  · exact Json.list_eq hspec b.keyed_specJson Constraint.eq_of_ordered
      (k := "deployedResourceConstraints") rfl rfl
  · exact Json.list_eq hspec b.keyed_specJson Requirement.eq_of_ordered
      (k := "kubernetesVersionConstraints") rfl rfl
  · exact Json.list_eq hspec b.keyed_specJson Label.eq_of_ordered (k := "classifierLabels") rfl rfl

theorem SameSpec.hashedText_eq {a b : Classifier} (h : a.SameSpec b) :
    a.hashedText = b.hashedText := by
  obtain ⟨hconstraints, hrequirements, hlabels⟩ := h
  rw [hashedText, hashedText, specJson, specJson, hconstraints, hrequirements, hlabels]

theorem hash_eq_iff {a b : Classifier} :
    a.hash = b.hash ↔ Digest.sha256 a.hashedBytes = Digest.sha256 b.hashedBytes :=
  Digest.hexOfText_eq_iff

/-- The hashed text of a classifier tells its constraints, requirements and labels, all of them and
    nothing else, so that different specs share a hash only where two messages collide. -/
theorem hash_covers_spec (a b : Classifier) :
    (a.hashedText = b.hashedText ↔ a.SameSpec b) ∧
      (a.hash = b.hash ↔ a.SameSpec b ∨ Digest.Collision a.hashedBytes b.hashedBytes) ∧
      (∀ name created deleted, a.hashedText =
        ({ a with name := name, created := created, deleted := deleted } : Classifier).hashedText) ∧
      ∀ c ∈ a.hashedText, Json.Visible c := by
  refine ⟨⟨sameSpec_of_hashedText, SameSpec.hashedText_eq⟩, ⟨fun hhash => ?_, ?_⟩,
    fun _ _ _ => rfl, Json.visible_compact _⟩
  · by_cases hbytes : a.hashedBytes = b.hashedBytes
    · refine .inl (sameSpec_of_hashedText ?_)
      exact Digest.asciiBytes_inj (Json.visible_compact _) (Json.visible_compact _) hbytes
    · exact .inr ⟨hbytes, hash_eq_iff.mp hhash⟩
  · rintro (hspec | hcollision)
    · rw [hash, hash, hspec.hashedText_eq]
    · exact hash_eq_iff.mpr hcollision.2

end Classifier

end FleetLabels
