import FleetLabels.Proofs.RoundTrip

/-!
    Filters and the value that they state.

    A filter is written with a value and compares texts: the one that its value has in a filter, and
    the one that a field or a label of the resource has. Null has no text in a filter, and fields read
    it the same way; labels spell it out. Truth values are capitalised in filters and labels, and
    fields read them in lower case. So a resource that holds the very value is recognised by its
    fields unless that is a truth value, and by its labels unless it is null
    (`Resource.recognised_unless_bool_or_null`). -/

namespace FleetLabels

/-! ### What a manifest holds -/

namespace Datum

/-- A value stands at the end of a path of keys. -/
inductive Holds : Datum → List String → Datum → Prop where
  | here (d : Datum) : Holds d [] d
  | inside {d e v : Datum} {key : String} {rest : List String} (hkey : d.get? key = some e)
      (hrest : Holds e rest v) : Holds d (key :: rest) v

/-- Going down a path leads to the value at its end. -/
theorem Holds.walk_eq {d v : Datum} {path : List String} (h : d.Holds path v) : walk path d = v := by
  induction h with
  | here d => rfl
  | inside hkey _ ih => rw [walk, hkey]; exact ih

/-- Only mappings hold something at a key. -/
theorem isMapping_of_valueAt {d e : Datum} {key : String} (h : d.valueAt key = e) (he : e ≠ .null) :
    d.IsMapping := by
  cases d with
  | mapping entries => exact .mapping entries
  | scalar s => exact absurd h.symm he
  | list items => exact absurd h.symm he

/-- The labels of a manifest give a key a value: an entry whose key has that text says so, and no later
    entry has a key of the same text. -/
def Labels (d : Datum) (key : String) (v : Datum) : Prop :=
  ∃ before k after, (d.valueAt "metadata").valueAt "labels" = .mapping (before ++ (k, v) :: after) ∧
    k.plain = key ∧ ∀ e ∈ after, e.1.plain ≠ key

end Datum

namespace Resource

variable {d v : Datum} {r : Resource} {path key : String}

/-- The manifest of a resource, and the table of its labels. -/
theorem parts_of_ofManifest (h : ofManifest d = .ok r) :
    r.manifest = d ∧ ∃ metadata, Manifest.part "metadata" d = .ok metadata ∧
      Manifest.labels (metadata.valueAt "labels") = .ok r.labels := by
  obtain ⟨metadata, hmetadata, h⟩ := Attempt.of_bind_eq_ok h
  iterate 8 obtain ⟨_, -, h⟩ := Attempt.of_bind_eq_ok h
  obtain ⟨member, hmember, h⟩ := Attempt.of_bind_eq_ok h
  obtain ⟨labels, hlabels, h⟩ := Attempt.of_bind_eq_ok h
  cases h
  rw [Manifest.member_eq_ok hmember] at hlabels
  exact ⟨rfl, metadata, hmetadata, hlabels⟩

theorem field_of_holds (h : ofManifest d = .ok r) (hname : path ≠ "metadata.name")
    (hspace : path ≠ "metadata.namespace")
    (hv : d.Holds ((Text.split '.' path.toList).map String.ofList) v) : r.field path = v := by
  rw [field, if_neg hname, if_neg hspace, (parts_of_ofManifest h).1]
  exact hv.walk_eq

/-- A label of the manifest is a label of the resource, with the text of its value. -/
theorem label_of_labels (h : ofManifest d = .ok r) (hv : d.Labels key v) :
    r.labels.get? key = some v.plain := by
  obtain ⟨before, k, after, hlabels, hk, hafter⟩ := hv
  obtain ⟨-, metadata, hpart, hread⟩ := parts_of_ofManifest h
  have hmetadata : (d.valueAt "metadata").IsMapping := Datum.isMapping_of_valueAt hlabels nofun
  have hd : d.IsMapping := by
    obtain ⟨entries, hentries⟩ := hmetadata
    exact Datum.isMapping_of_valueAt hentries nofun
  obtain ⟨s, hs, -, hmembers⟩ := Manifest.part_eq hd fun _ => hmetadata
  obtain rfl : s = metadata := Except.ok.inj (hs.symm.trans hpart)
  have hgiven : (Datum.mapping (before ++ (k, v) :: after)).isGiven = true := by
    simp [Datum.isGiven]
  rw [hmembers, hlabels, Manifest.labels, if_pos hgiven] at hread
  rw [← Except.ok.inj hread, Table.get?_ofList, List.map_append, List.map_cons, List.filter_append,
    List.filter_cons, if_pos (decide_eq_true hk)]
  -- what comes after the entry has other keys, so the entry is the last one with its key
  have hnone : (after.map fun e => (e.1.plain, e.2.plain)).filter (fun p => p.1 = key) = [] := by
    rw [List.filter_eq_nil_iff]
    intro p hp
    obtain ⟨e, he, rfl⟩ := List.mem_map.mp hp
    simpa using hafter e he
  rw [hnone, List.getLast?_concat]
  rfl

end Resource

/-! ### The texts of a value -/

theorem valueText_of_ne_null {v : Datum} (h : v ≠ .null) : Manifest.valueText v = v.plain := by
  unfold Manifest.valueText
  split
  · exact absurd rfl h
  · rfl

/-- A label has the text that its value has in a filter, unless that is null. -/
theorem plain_eq_valueText_iff (v : Datum) : v.plain = Manifest.valueText v ↔ v ≠ .null := by
  by_cases hnull : v = .null
  · subst hnull
    exact iff_of_false (by decide) fun h => h rfl
  · exact iff_of_true (valueText_of_ne_null hnull).symm hnull

/-- A field has the text that its value has in a filter, unless that is a truth value. -/
theorem selectorText_eq_valueText_iff (v : Datum) :
    selectorText v = Manifest.valueText v ↔ ∀ b, v ≠ .bool b := by
  unfold selectorText
  split
  · exact iff_of_true rfl nofun
  · rename_i b
    refine iff_of_false ?_ fun h => h b rfl
    cases b <;> decide
  · rename_i hnull hbool
    exact iff_of_true (valueText_of_ne_null hnull).symm fun b hb => hbool b hb

/-! ### Filters that state a value -/

/-- A filter as it is written: what it looks at stands at `member`. -/
def statement (member name : String) (o : Operation) (v : Datum) : Datum :=
  .mapping [(.text member, .text name), (.text "operation", .text o.name), (.text "value", v)]

theorem FieldFilter.ofManifest_statement {path : String} (h : path ≠ "") (o : Operation) (v : Datum) :
    ofManifest (statement "field" path o v) = .ok ⟨path, o, Manifest.valueText v⟩ := by
  rw [ofManifest_eq]
  exact Operation.reading_written (.mapping _) h rfl rfl rfl

theorem LabelFilter.ofManifest_statement {key : String} (h : key ≠ "") (o : Operation) (v : Datum) :
    ofManifest (statement "key" key o v) = .ok ⟨key, o, Manifest.valueText v⟩ := by
  rw [ofManifest_eq]
  exact Operation.reading_written (.mapping _) h rfl rfl rfl

/-- A resource is recognised by a text when it passes the filter for it and not the one against it. -/
theorem Operation.accepts_iff {actual stated : String} :
    ((equal.accepts actual stated = true ∧ different.accepts actual stated = false) ↔
      actual = stated) ∧
    ((equal.accepts actual stated = false ∧ different.accepts actual stated = true) ↔
      actual ≠ stated) := by
  simp [accepts]

/-- A resource that holds a value at a path or as a label, and the filters that state this value. It
    passes `Equal` and not `Different` for its field unless the value is a truth value, and for its
    label unless the value is null; with these it is the other way round. -/
theorem Resource.recognised_unless_bool_or_null {d : Datum} {r : Resource} (h : ofManifest d = .ok r) :
    (∀ path v, path ≠ "" → path ≠ "metadata.name" → path ≠ "metadata.namespace" →
      d.Holds ((Text.split '.' path.toList).map String.ofList) v →
      ∃ same other, FieldFilter.ofManifest (statement "field" path .equal v) = .ok same ∧
        FieldFilter.ofManifest (statement "field" path .different v) = .ok other ∧
        (same.accepts r = true ∧ other.accepts r = false ↔ ∀ b, v ≠ .bool b) ∧
        (same.accepts r = false ∧ other.accepts r = true ↔ ∃ b, v = .bool b)) ∧
    ∀ key v, key ≠ "" → d.Labels key v →
      ∃ same other, LabelFilter.ofManifest (statement "key" key .equal v) = .ok same ∧
        LabelFilter.ofManifest (statement "key" key .different v) = .ok other ∧
        (same.accepts r = true ∧ other.accepts r = false ↔ v ≠ .null) ∧
        (same.accepts r = false ∧ other.accepts r = true ↔ v = .null) := by
  constructor
  · intro path v hpath hname hspace hv
    refine ⟨_, _, FieldFilter.ofManifest_statement hpath .equal v,
      FieldFilter.ofManifest_statement hpath .different v, ?_, ?_⟩
    · rw [FieldFilter.accepts, FieldFilter.accepts, field_of_holds h hname hspace hv,
        Operation.accepts_iff.1, selectorText_eq_valueText_iff]
    · rw [FieldFilter.accepts, FieldFilter.accepts, field_of_holds h hname hspace hv,
        Operation.accepts_iff.2, ne_eq, selectorText_eq_valueText_iff]
      simp only [not_forall, not_not]
  · intro key v hkey hv
    have hlabel := label_of_labels h hv
    refine ⟨_, _, LabelFilter.ofManifest_statement hkey .equal v,
      LabelFilter.ofManifest_statement hkey .different v, ?_, ?_⟩
    · simp only [LabelFilter.accepts, hlabel]
      rw [Operation.accepts_iff.1, plain_eq_valueText_iff]
    · simp only [LabelFilter.accepts, hlabel]
      rw [Operation.accepts_iff.2, ne_eq, plain_eq_valueText_iff, not_not]

namespace Sample

/-- A pod with one label, and with one field that says whether it uses the network of its host. -/
def hosted (label network : Datum) : Datum :=
  .mapping [(.text "metadata", .mapping [(.text "name", .text "p"),
      (.text "labels", .mapping [(.text "app", label)])]),
    (.text "spec", .mapping [(.text "hostNetwork", network)])]

theorem hosted_holds (label network : Datum) :
    (hosted label network).Holds ((Text.split '.' "spec.hostNetwork".toList).map String.ofList)
      network :=
  .inside rfl (.inside rfl (.here network))

theorem hosted_labels (label network : Datum) : (hosted label network).Labels "app" label :=
  ⟨[], .text "app", [], rfl, rfl, nofun⟩

end Sample

open Sample in
/-- A number in the field and a truth value as the label are both recognised. -/
theorem zero_and_yes_recognised :
    ∃ r, Resource.ofManifest (hosted (.bool true) (.int 0)) = .ok r ∧
      (∃ same other,
        FieldFilter.ofManifest (statement "field" "spec.hostNetwork" .equal (.int 0)) = .ok same ∧
        FieldFilter.ofManifest (statement "field" "spec.hostNetwork" .different (.int 0)) =
          .ok other ∧ same.accepts r = true ∧ other.accepts r = false) ∧
      ∃ same other, LabelFilter.ofManifest (statement "key" "app" .equal (.bool true)) = .ok same ∧
        LabelFilter.ofManifest (statement "key" "app" .different (.bool true)) = .ok other ∧
        same.accepts r = true ∧ other.accepts r = false := by
  obtain ⟨r, hr⟩ : ∃ r, Resource.ofManifest (hosted (.bool true) (.int 0)) = .ok r := ⟨_, rfl⟩
  obtain ⟨hfields, hlabels⟩ := Resource.recognised_unless_bool_or_null hr
  refine ⟨r, hr, ?_, ?_⟩
  · obtain ⟨same, other, hsame, hother, hfield, -⟩ := hfields "spec.hostNetwork" (.int 0) (by decide)
      (by decide) (by decide) (hosted_holds _ _)
    exact ⟨same, other, hsame, hother, hfield.mpr nofun⟩
  · obtain ⟨same, other, hsame, hother, hlabel, -⟩ := hlabels "app" (.bool true) (by decide)
      (hosted_labels _ _)
    exact ⟨same, other, hsame, hother, hlabel.mpr nofun⟩

open Sample in
/-- A pod that uses the network of its host passes the filter against that and not the one for it, and
    so it is with a label that is null. -/
theorem host_network_and_null_label_unrecognised :
    ∃ r f g, Resource.ofManifest (hosted .null (.bool true)) = .ok r ∧
      (hosted .null (.bool true)).Holds
        ((Text.split '.' "spec.hostNetwork".toList).map String.ofList) (.bool true) ∧
      (hosted .null (.bool true)).Labels "app" .null ∧
      FieldFilter.ofManifest (statement "field" "spec.hostNetwork" .equal (.bool true)) = .ok f ∧
      LabelFilter.ofManifest (statement "key" "app" .equal .null) = .ok g ∧
      f.accepts r = false ∧ g.accepts r = false := by
  refine ⟨_, _, _, rfl, hosted_holds _ _, hosted_labels _ _, rfl, rfl, ?_, ?_⟩
  · decide
  · decide

end FleetLabels
