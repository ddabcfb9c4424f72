import ManifestAssist.Editor.Settings
import ManifestAssist.Proofs.Json.Writer
import ManifestAssist.Proofs.Metrics.Registry

/-! # Context documents

A scrape that is written as JSON is the same when it is read again. So a document that holds one
hands it over as it is, and adds to it just those families of an exposition that it does not have.
Nothing else matters of how JSON is written and read than that a text is read as the document.
-/

namespace ManifestAssist

open Text

theorem Json.mapM_string?_map_string (strings : List String) :
    (strings.map Json.string).mapM Json.string? = some strings := by
  induction strings with
  | nil => rfl
  | cons s strings ih =>
    rw [List.map_cons, List.mapM_cons, ih]
    rfl

namespace Family

variable (family : Family)

theorem ofJson?_toJson : ofJson? family.toJson = some family := by
  obtain ⟨kind, help, labels⟩ := family
  have hrecord : (toJson ⟨kind, help, labels⟩).record? ["type", "help", "labels"] =
      some [some (.string kind.name), help.map .string, some (.array (labels.map .string))] := by
    cases help <;> rfl
  have hkind : Json.fieldOr .untyped MetricKind.ofJson? (some (.string kind.name)) = some kind :=
    kind.ofName?_name
  have hhelp : Json.fieldOptional Json.string? (help.map .string) = some help := by
    cases help <;> rfl
  have hlabels : Json.fieldOr [] (fun v => do (← v.array?).mapM Json.string?)
      (some (.array (labels.map .string))) = some labels :=
    Json.mapM_string?_map_string labels
  simp only [Option.bind_eq_bind] at hlabels
  simp only [ofJson?, hrecord, Option.bind_eq_bind, Option.bind_some, hkind, hhelp, hlabels]
  rfl

theorem numberFree_toJson : family.toJson.NumberFree := by
  obtain ⟨kind, help, labels⟩ := family
  have hlabels : (Json.array (labels.map .string)).NumberFree := by
    refine .array fun item hmem => ?_
    obtain ⟨label, -, rfl⟩ := List.mem_map.mp hmem
    exact .string label
  refine .object fun member hmem => ?_
  cases help <;>
    simp only [Option.map_none, Option.map_some, Option.toList_none, Option.toList_some,
      List.append_nil, List.cons_append, List.nil_append, List.mem_cons, List.not_mem_nil,
      or_false] at hmem
  case none =>
    rcases hmem with rfl | rfl
    · exact .string _
    · exact hlabels
  case some help =>
    rcases hmem with rfl | rfl | rfl
    · exact .string _
    · exact .string _
    · exact hlabels

end Family

namespace Scrape

variable (scrape : Scrape)

theorem ofJson?_toJson : ofJson? scrape.toJson = some scrape := by
  have hentries (entries : List (String × Family)) :
      (entries.map fun entry => (entry.1, entry.2.toJson)).mapM
        (fun member => do return (member.1, ← Family.ofJson? member.2)) = some entries := by
    induction entries with
    | nil => rfl
    | cons entry entries ih =>
      rw [List.map_cons, List.mapM_cons, ih]
      simp [Family.ofJson?_toJson]
  calc ofJson? scrape.toJson
    _ = ((scrape.entries.map fun entry : String × Family => (entry.1, entry.2.toJson)).mapM
          fun member : String × Json => do return (member.1, ← Family.ofJson? member.2)).bind
            fun entries => some (.ofList entries) := rfl
    _ = some (.ofList scrape.entries) := by rw [hentries, Option.bind_some]
    _ = some scrape := by rw [Registry.ofList_entries]

theorem numberFree_toJson : scrape.toJson.NumberFree := by
  refine .object fun member hmem => ?_
  obtain rfl := List.mem_singleton.mp hmem
  refine .object fun member hmem => ?_
  obtain ⟨⟨name, family⟩, -, rfl⟩ := List.mem_map.mp hmem
  exact family.numberFree_toJson

end Scrape

namespace Context

/-- The document with a scrape and, if there is one, an exposition. -/
def document (scrape : Scrape) (exposition : Option String) : Json :=
  .object (("prometheus", scrape.toJson) ::
    (exposition.map fun text => ("prometheus_exposition", Json.string text)).toList)

variable (scrape : Scrape) (exposition : Option String)

theorem numberFree_document : (document scrape exposition).NumberFree := by
  refine .object fun member hmem => ?_
  rcases List.mem_cons.mp hmem with rfl | hmem
  · exact scrape.numberFree_toJson
  · obtain ⟨text, -, rfl⟩ := Option.map_eq_some_iff.mp (Option.mem_toList.mp hmem)
    exact .string text

theorem ofJson?_document :
    ofJson? (document scrape exposition) =
      some ⟨.default, mergeScrapes (some scrape) exposition⟩ := by
  have hrecord : (document scrape exposition).record?
      ["completion", "prometheus", "prometheus_exposition"] =
        some [none, some scrape.toJson, exposition.map .string] := by
    cases exposition <;> rfl
  have hscrape : Json.fieldOptional Scrape.ofJson? (some scrape.toJson) = some (some scrape) :=
    congrArg (Option.map some) scrape.ofJson?_toJson
  have hexposition : Json.fieldOptional Json.string? (exposition.map .string) =
      some exposition := by
    cases exposition <;> rfl
  simp only [ofJson?, hrecord, Option.bind_eq_bind, Option.bind_some, hscrape, hexposition]
  rfl

theorem exists_mergeScrapes :
    ∃ merged, mergeScrapes (some scrape) exposition = some merged ∧
      ∀ name, merged.find? name = (scrape.find? name).or
        (exposition.bind fun text => (Scrape.ofExposition text.toList).find? name) := by
  refine ⟨_, rfl, fun name => ?_⟩
  rw [Registry.find?_union]
  cases exposition <;> rfl

theorem parseWith_of_eq_some {read : Text → Option Json} (hnil : read [] = none) {text : Text}
    {document : Json} {context : Context} (htext : read (trim text) = some document)
    (hdocument : ofJson? document = some context) :
    parseWith read (String.ofList text) = .ok context := by
  have hne : (trim text).isEmpty = false := by
    cases hempty : trim text with
    | nil =>
      rw [hempty, hnil] at htext
      cases htext
    | cons c rest => rfl
  simp only [parseWith, Option.map_some, Option.getD_some, String.toList_ofList, hne, htext,
    Option.bind_some, hdocument, Bool.false_eq_true, if_false]

/-- A scrape survives being written and read, and has the last word on the families that are in an
exposition, too. -/
theorem parse_document :
    ∃ merged : Scrape,
      (∀ read text, read [] = none → read (trim text) = some (document scrape exposition) →
        parseWith read (String.ofList text) = .ok ⟨.default, merged⟩) ∧
      parse (String.ofList (document scrape exposition).write) = .ok ⟨.default, merged⟩ ∧
      (∀ text, Json.parse? (trim text) = some (document scrape exposition) →
        parse (String.ofList text) = .ok ⟨.default, merged⟩) ∧
      (∀ name, merged.find? name = (scrape.find? name).or
        (exposition.bind fun text => (Scrape.ofExposition text.toList).find? name)) ∧
      Scrape.ofJson? scrape.toJson = some scrape ∧
      (Json.parse? scrape.toJson.write).bind Scrape.ofJson? = some scrape := by
  obtain ⟨merged, hmerged, hfind⟩ := exists_mergeScrapes scrape exposition
  have hdocument : ofJson? (document scrape exposition) = some ⟨.default, merged⟩ := by
    rw [ofJson?_document, hmerged]
  have hnil : Json.parse? [] = none := rfl
  have hwritten : Json.parse? (trim (document scrape exposition).write) =
      some (document scrape exposition) := by
    rw [document, Json.trim_write_object]
    exact Json.parse?_write (numberFree_document scrape exposition)
  refine ⟨merged, fun read text hread htext => parseWith_of_eq_some hread htext hdocument,
    parseWith_of_eq_some hnil hwritten hdocument,
    fun text htext => parseWith_of_eq_some hnil htext hdocument, hfind, scrape.ofJson?_toJson, ?_⟩
  rw [Json.parse?_write scrape.numberFree_toJson, Option.bind_some, scrape.ofJson?_toJson]

end Context

end ManifestAssist
