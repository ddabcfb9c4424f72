import ManifestAssist.Proofs.Completion.Offers
import ManifestAssist.Proofs.Completion.Settings
import ManifestAssist.Proofs.Completion.Slots
import ManifestAssist.Proofs.Outline.Below

/-! # Cards

Only layouts are offered cards. Accepting one fills in its key and writes the type of the card on a
line of its own below. The column of that line is read off the margin of the slot, which is that of
the line in the outline, so the type belongs to the entry of the key.
-/

namespace ManifestAssist

open Text Outline

section Kinds

/-- Is none of the suggestions a card? -/
def LacksCards (suggestions : List Suggestion) : Prop :=
  ∀ suggestion ∈ suggestions, suggestion.kind ≠ .card

namespace LacksCards

theorem map {α : Type} {f : α → Suggestion} (h : ∀ a, (f a).kind ≠ .card) (l : List α) :
    LacksCards (l.map f) := by
  intro suggestion hmem
  obtain ⟨a, -, rfl⟩ := List.mem_map.mp hmem
  exact h a

theorem plain {kind : SuggestionKind} (h : kind ≠ .card) (labels : List String) :
    LacksCards (Suggestion.plain kind labels) :=
  .map (fun _ => h) labels

theorem append {a b : List Suggestion} (ha : LacksCards a) (hb : LacksCards b) :
    LacksCards (a ++ b) :=
  fun suggestion hmem => (List.mem_append.mp hmem).elim (ha suggestion) (hb suggestion)

theorem unused {suggestions : List Suggestion} (h : LacksCards suggestions) (used : List String) :
    LacksCards (Suggestion.unused used suggestions) :=
  fun suggestion hmem => h suggestion (Suggestion.mem_unused.mp hmem).1

theorem flatMap {α : Type} {f : α → List Suggestion} (h : ∀ a, LacksCards (f a)) (l : List α) :
    LacksCards (l.flatMap f) := by
  intro suggestion hmem
  obtain ⟨a, -, hmem⟩ := List.mem_flatMap.mp hmem
  exact h a suggestion hmem

end LacksCards

variable {request : Request} {draft : Draft}

theorem lacksCards_entityTypes (closing : String) : LacksCards (request.entityTypes closing) :=
  (LacksCards.map (by simp) _).append (.map (by simp) _)

theorem Topology.lacksCards_of_draft? (h : Topology.draft? request = some draft) :
    LacksCards draft.suggestions := by
  have hplaceholders (h : placeholders? request = some draft) : LacksCards draft.suggestions := by
    simp only [placeholders?, Option.bind_eq_bind, Option.bind_eq_some_iff, Option.pure_def,
      Option.some.injEq] at h
    obtain ⟨rule, -, rfl⟩ := h
    exact .map (by simp [placeholder]) _
  simp only [draft?, Option.bind_eq_bind, Option.bind_eq_some_iff] at h
  obtain ⟨-, -, parent, -, h⟩ := h
  split at h
  case h_5 | h_6 => exact hplaceholders h
  case h_7 =>
    split at h
    · obtain rfl := Option.some.inj h
      exact (LacksCards.map (by simp) _).unused _
    · cases h
  case h_8 => cases h
  all_goals obtain rfl := Option.some.inj h
  · exact lacksCards_entityTypes ""
  · exact lacksCards_entityTypes ""
  · exact .plain (by decide) _
  · exact .plain (by decide) _

theorem Selector.lacksCards_of_draft? (h : Selector.draft? request = some draft) :
    LacksCards draft.suggestions := by
  simp only [draft?, Option.bind_eq_bind, Option.bind_eq_some_iff, Option.pure_def,
    Option.some.injEq] at h
  obtain ⟨-, -, tail, -, rfl⟩ := h
  unfold suggestions
  dsimp only
  split
  · exact lacksCards_entityTypes _
  · intro suggestion hmem
    obtain ⟨relationship, -, hsuggest⟩ := List.mem_filterMap.mp (mem_of_mem_firstByLabel hmem)
    obtain ⟨name, -, hname⟩ := Option.bind_eq_some_iff.mp hsuggest
    obtain rfl := Option.some.inj hname
    simp
  · exact .map (by simp) _
  · exact (LacksCards.map (by simp) _).append (.plain (by decide) _)

theorem Prometheus.lacksCards_of_draft? (h : Prometheus.draft? request = some draft) :
    LacksCards draft.suggestions := by
  simp only [draft?, Option.bind_eq_bind, Option.bind_eq_some_iff] at h
  obtain ⟨-, -, scrape, -, group, -, parent, -, h⟩ := h
  split at h
  case h_6 => cases h
  all_goals obtain rfl := Option.some.inj h
  · exact (LacksCards.flatMap (fun _ => .map (by simp) _) _).unused _
  · exact (LacksCards.flatMap (fun _ => .map (by simp) _) _).unused _
  · exact .plain (by decide) _
  · exact (LacksCards.plain (by decide) _).unused _
  · exact (LacksCards.plain (by decide) _).unused _

theorem Screens.card_of_kind (h : Screens.draft? request = some draft) {suggestion : Suggestion}
    (hmem : suggestion ∈ draft.suggestions) (hkind : suggestion.kind = .card) :
    request.cursor.endsWith ["layout", "cards"] ∧ request.cursor.slot.key = "key" ∧
      draft.replace = request.cursor.valueSpan ∧
      ∃ collection ∈ collections, ∃ key,
        suggestion = card request.cursor.slot.keyColumn collection key := by
  simp only [draft?, Option.bind_eq_bind, Option.bind_eq_some_iff] at h
  obtain ⟨-, -, h⟩ := h
  split at h
  case h_5 => cases h
  all_goals
    split at h
    case isFalse => cases h
    obtain rfl := Option.some.inj h
  · exact absurd hkind ((LacksCards.plain (by decide) _).unused _ suggestion hmem)
  case h_2.isTrue hkey hends =>
    refine ⟨hends, hkey, rfl, ?_⟩
    simp only [freeCards] at hmem
    split at hmem
    · obtain ⟨collection, hcollection, hmem⟩ :=
        List.mem_flatMap.mp (Suggestion.mem_unused.mp hmem).1
      obtain ⟨key, -, rfl⟩ := List.mem_map.mp hmem
      exact ⟨collection, hcollection, key, rfl⟩
    · cases hmem
  · exact absurd hkind (LacksCards.plain (by decide) _ suggestion hmem)
  · exact absurd hkind (LacksCards.plain (by decide) _ suggestion hmem)

theorem card_of_mem_vocabularies {vocabulary : Request → Option Draft}
    (hvocabulary : vocabulary ∈ Completion.vocabularies) (h : vocabulary request = some draft)
    {suggestion : Suggestion} (hmem : suggestion ∈ draft.suggestions)
    (hkind : suggestion.kind = .card) :
    request.cursor.endsWith ["layout", "cards"] ∧ request.cursor.slot.key = "key" ∧
      draft.replace = request.cursor.valueSpan ∧
      ∃ collection ∈ Screens.collections, ∃ key,
        suggestion = Screens.card request.cursor.slot.keyColumn collection key := by
  simp only [Completion.vocabularies, List.mem_cons, List.not_mem_nil, or_false] at hvocabulary
  rcases hvocabulary with rfl | rfl | rfl | rfl
  · exact absurd hkind (Topology.lacksCards_of_draft? h suggestion hmem)
  · exact absurd hkind (Selector.lacksCards_of_draft? h suggestion hmem)
  · exact Screens.card_of_kind h hmem hkind
  · exact absurd hkind (Prometheus.lacksCards_of_draft? h suggestion hmem)

end Kinds

theorem isEntry_of_trimWhile_eq {front : Text} (h : trimWhile Slot.isQuote front = "key".toList)
    (rest : Text) : IsEntry (front ++ rest) ∧ ':' ∉ front := by
  obtain ⟨a, b, happend, ha, hb⟩ := exists_append_trimWhile Slot.isQuote front
  have hquote (c : Char) (hc : Slot.isQuote c) : c ∈ '"' :: '\'' :: "key".toList := by
    simp only [Slot.isQuote, Bool.or_eq_true, beq_iff_eq] at hc
    rcases hc with rfl | rfl
    · exact List.mem_cons_self
    · exact List.mem_cons_of_mem _ List.mem_cons_self
  have hchars : ∀ c ∈ '"' :: '\'' :: "key".toList,
      ¬ isBlank c ∧ c ≠ '#' ∧ c ≠ '-' ∧ c ≠ ':' := by
    simp [isBlank]
  have hfront : ∀ c ∈ front, ¬ isBlank c ∧ c ≠ '#' ∧ c ≠ '-' ∧ c ≠ ':' := by
    intro c hc
    rw [happend, h, List.mem_append, List.mem_append] at hc
    rcases hc with (hc | hc) | hc
    · exact hchars c (hquote c (ha c hc))
    · exact hchars c (List.mem_cons_of_mem _ (List.mem_cons_of_mem _ hc))
    · exact hchars c (hquote c (hb c hc))
  refine ⟨?_, fun hmem => (hfront ':' hmem).2.2.2 rfl⟩
  cases front with
  | nil => cases h
  | cons c cs =>
    obtain ⟨hblank, hhash, hhyphen, -⟩ := hfront c List.mem_cons_self
    exact .of_cons hblank hhash hhyphen _

/-- The line that a card writes below its key, ahead of the rest of the line. -/
def typeLine (column : Nat) (collection : Screens.Collection) (rest : Text) : Text :=
  keyLine column [] "type".toList (' ' :: (collection.cardType.toList ++ rest))

section TypeLine

variable (column : Nat) (collection : Screens.Collection) (rest : Text)

theorem isEntry_type (rest : Text) : IsEntry ("type".toList ++ rest) :=
  .of_cons (c := 't') (by decide) (by decide) (by decide) _

theorem label?_typeLine : label? (typeLine column collection rest) = some "type" := by
  rw [typeLine, label?_keyLine .nil (isEntry_type _) (by decide)]
  decide

theorem declares_typeLine (label : String) :
    declares (typeLine column collection rest) label = ("type" == label) := by
  have hname : String.ofList (unquote (trimEnd "type".toList)) = "type" := by decide
  rw [typeLine, declares_keyLine .nil (isEntry_type _) (by decide), hname]

theorem marker?_typeLine : marker? (typeLine column collection rest) = none :=
  marker?_keyLine .nil (isEntry_type _)

theorem contentColumn?_typeLine :
    contentColumn? (typeLine column collection rest) = some column :=
  contentColumn?_keyLine .nil (isEntry_type _)

theorem indent?_typeLine : indent? (typeLine column collection rest) = some column :=
  indent?_keyLine .nil (isEntry_type _)

theorem newline_notMem_typeLine (h : collection ∈ Screens.collections) (hrest : '\n' ∉ rest) :
    '\n' ∉ typeLine column collection rest := by
  have hall : ∀ collection ∈ Screens.collections, '\n' ∉ collection.cardType.toList := by
    decide
  simp [typeLine, keyLine, hall collection h, hrest]

end TypeLine

theorem splitAll_insertText {front rest : Text} {column : Nat} {collection : Screens.Collection}
    {key : String} (hcollection : collection ∈ Screens.collections)
    (hfront : '\n' ∉ front) (hkey : '\n' ∉ key.toList) (hrest : '\n' ∉ rest) :
    (front ++ (Screens.card column collection key).insertText.toList ++ rest).splitAll '\n' =
      [front ++ key.toList, typeLine column collection rest] := by
  have htext : front ++ (Screens.card column collection key).insertText.toList ++ rest =
      (front ++ key.toList) ++ '\n' :: typeLine column collection rest := by
    simp [Screens.card, typeLine, keyLine]
  rw [htext, splitAll_append_cons, splitAll_of_not_mem (by simp [hfront, hkey]),
    splitAll_of_not_mem (newline_notMem_typeLine column collection rest hcollection hrest)]
  rfl

/-- The edit of a card leaves the line with the key, up to the value, and puts the line with the type
below it. -/
theorem exists_lines_of_card {text : Text} {position : Position} {cursor : Cursor}
    {collection : Screens.Collection} {key : String} (hbytes : text.bytes < 2 ^ 32)
    (hcursor : Cursor.at? text position = some cursor) (hkey : cursor.slot.key = "key")
    (hcollection : collection ∈ Screens.collections) (hnewline : '\n' ∉ key.toList) :
    ∃ edited line line' added indent bullets front back back',
      (Edit.mk cursor.valueSpan
          (Screens.card cursor.slot.keyColumn collection key).insertText.toList).applied? text =
        some edited ∧
      text.lines[position.line]? = some line ∧ edited.lines[position.line]? = some line' ∧
      edited.lines[position.line + 1]? = some added ∧
      edited.splitAll '\n' = (text.splitAll '\n').take position.line ++ [line'.text, added.text] ++
        (text.splitAll '\n').drop (position.line + 1) ∧
      (IsBullets bullets ∧ trimWhile Slot.isQuote front = "key".toList) ∧
      line.text = keyLine indent bullets front back ∧
      line'.text = keyLine indent bullets front back' ∧
      cursor.rest <:+ line.text ∧
      added.text = typeLine (indent + bullets.bytes) collection cursor.rest := by
  obtain ⟨line, typed, hget, hline, hslot, hoffset⟩ := Cursor.exists_line_of_at? hcursor
  obtain ⟨indent, bullets, front, gap, hbullets, rfl, hcolumn, hfront⟩ := Slot.exists_margin hslot
  have htext : line.text =
      keyLine indent bullets front (' ' :: gap) ++ cursor.slot.value ++ cursor.rest := by
    rw [hline]
    simp [keyLine]
  obtain ⟨edited, happlied, hlines⟩ := Cursor.exists_applied?_spanOf hget htext
    (by simpa [keyLine] using hoffset) (Cursor.offset_le_maxOffset hbytes hcursor)
    (Screens.card cursor.slot.keyColumn collection key).insertText.toList
  have hold := not_mem_of_mem_splitAll (List.mem_of_getElem? (splitAll_getElem? hget))
  rw [htext, List.mem_append, List.mem_append, not_or, not_or] at hold
  rw [splitAll_insertText hcollection hold.1.1 hnewline hold.2] at hlines
  obtain ⟨line', hget', hline'⟩ :=
    exists_line_of_splitAll (getElem?_of_splitAll_replaced hget hlines (j := 0) (by simp))
  obtain ⟨added, hadded, htype⟩ :=
    exists_line_of_splitAll (getElem?_of_splitAll_replaced hget hlines (j := 1) (by simp))
  refine ⟨edited, line, line', added, indent, bullets, front,
    ' ' :: (gap ++ cursor.slot.value) ++ cursor.rest, ' ' :: gap ++ key.toList, happlied, hget, hget',
    hadded, ?_, ⟨hbullets, ?_⟩, ?_, ?_, ⟨_, hline.symm⟩, ?_⟩
  · rw [hlines, hline', htype]
  · rw [← hkey, hfront, String.toList_ofList]
  · rw [hline, keyLine_append]
  · rw [hline', keyLine_append]
  · rw [htype, hcolumn]

/-- Accepting a card fills in its key, and writes the type of the card on the line below, at the
column of the entry of the key. That line is in the same blocks and in the same items as the line of
the key was before. -/
theorem type_line_of_card {text : Text} {position : Position} {manifest : Manifest}
    {context : Context} {offer : Offer} (hbytes : text.bytes < 2 ^ 32)
    (hoffer : offer ∈ (complete text position manifest context).offers)
    (hkind : offer.suggestion.kind = .card) (hlabel : '\n' ∉ offer.suggestion.label.toList) :
    ∃ edited line line' added column, offer.edit.applied? text = some edited ∧
      text.lines[position.line]? = some line ∧ edited.lines[position.line]? = some line' ∧
      edited.lines[position.line + 1]? = some added ∧
      edited.splitAll '\n' = (text.splitAll '\n').take position.line ++ [line'.text, added.text] ++
        (text.splitAll '\n').drop (position.line + 1) ∧
      (∃ collection ∈ Screens.collections, offer.suggestion.detail = some collection.name ∧
        ∃ rest, rest <:+ line.text ∧
          added.text = List.replicate column ' ' ++ "type: ".toList ++
            collection.cardType.toList ++ rest) ∧
      added.label? = some "type" ∧
      (line.contentColumn? = some column ∧ line'.contentColumn? = some column ∧
        added.contentColumn? = some column) ∧
      chain edited (position.line + 1) = chain text position.line ∧
      ∀ label, label ≠ "type" →
        itemIndex label (position.line + 1) edited = itemIndex label position.line text := by
  obtain ⟨cursor, hcursor, vocabulary, hvocabulary, draft, hdraft, suggestion, hsuggestion,
    retriggers, rfl⟩ := exists_vocabulary_of_mem_offers hoffer
  obtain ⟨hends, hkey, hreplace, collection, hcollection, key, rfl⟩ :=
    card_of_mem_vocabularies hvocabulary hdraft hsuggestion hkind
  obtain ⟨edited, line, line', added, indent, bullets, front, back, back', happlied, hget, hget',
    hadded, hlines, ⟨hbullets, hfront⟩, hline, hline', hrest, htype⟩ :=
    exists_lines_of_card hbytes hcursor hkey hcollection hlabel
  have hentry (rest : Text) : IsEntry (front ++ ':' :: rest) := (isEntry_of_trimWhile_eq hfront _).1
  have hcolon : ':' ∉ front := (isEntry_of_trimWhile_eq hfront []).2
  have hahead := take_of_splitAll_replaced hget hlines
  -- Both lines with the key read their columns off the same margin.
  have hindent : line.indent? = some indent := by
    rw [Line.indent?, hline, indent?_keyLine hbullets (hentry _)]
  have hindent' : line'.indent? = some indent := by
    rw [Line.indent?, hline', indent?_keyLine hbullets (hentry _)]
  have hcolumn : line.contentColumn? = some (indent + bullets.bytes) := by
    rw [Line.contentColumn?, hline, contentColumn?_keyLine hbullets (hentry _)]
  have hcolumn' : line'.contentColumn? = some (indent + bullets.bytes) := by
    rw [Line.contentColumn?, hline', contentColumn?_keyLine hbullets (hentry _)]
  have hbelow : added.contentColumn? = some (indent + bullets.bytes) := by
    rw [Line.contentColumn?, htype, contentColumn?_typeLine]
  refine ⟨edited, line, line', added, indent + bullets.bytes, ?_, hget, hget', hadded, hlines,
    ⟨collection, hcollection, rfl, cursor.rest, hrest, ?_⟩, ?_, ⟨hcolumn, hcolumn', hbelow⟩, ?_, ?_⟩
  · rw [hreplace]
    exact happlied
  · rw [htype]
    simp [typeLine, keyLine]
  · rw [Line.label?, htype, label?_typeLine]
  · have hzero := Cursor.indent?_ne_zero_of_endsWith hcursor hget hends (by simp)
    refine chain_below hget hget' hahead hadded hcolumn hcolumn' hbelow hzero ?_
    rw [Line.indent?, htype, indent?_typeLine]
    rw [hindent] at hzero
    simp only [ne_eq, Option.some.injEq] at hzero ⊢
    omega
  · intro label hlabel
    refine itemIndex_below hget hget' hahead hadded ?_
      (hindent'.trans hindent.symm) ?_ (hcolumn'.trans hcolumn.symm) ?_ ?_
    · rw [Line.declares, Line.declares, hline, hline', declares_keyLine hbullets (hentry _) hcolon,
        declares_keyLine hbullets (hentry _) hcolon]
    · rw [Line.marker?, Line.marker?, hline, hline', marker?_keyLine hbullets (hentry _),
        marker?_keyLine hbullets (hentry _)]
    · rw [Line.declares, htype, declares_typeLine]
      simpa using hlabel.symm
    · rw [Line.marker?, htype, marker?_typeLine]

/-- A layout with a card whose key is in quotes, and a value with a quote behind the cursor. -/
def quotedKey : Text :=
  ("screens:\n- messageCards:\n  - key: news\n  listSettings:\n    layout:\n      cards:\n" ++
    "      -  'key': n'").toList

theorem type_line_of_card_quotedKey :
    let manifest := (Manifest.parse quotedKey).toOption.getD .empty
    quotedKey.bytes < 2 ^ 32 ∧
      ∃ offer ∈ (complete quotedKey ⟨6, 17⟩ manifest .default).offers,
        offer.suggestion.kind = .card ∧ '\n' ∉ offer.suggestion.label.toList ∧
        ∃ edited, offer.edit.applied? quotedKey = some edited ∧
          chain edited 7 = ["screens", "listSettings", "layout", "cards"] ∧
          itemIndex "cards" 7 edited = .item 0 := by
  intro manifest
  have hbytes : quotedKey.bytes < 2 ^ 32 := by cbv
  obtain ⟨hoffers, hplace⟩ : (complete quotedKey ⟨6, 17⟩ manifest .default).offers.map
        (fun offer => (offer.suggestion.label, offer.suggestion.kind)) = [("news", .card)] ∧
      chain quotedKey 6 = ["screens", "listSettings", "layout", "cards"] ∧
        itemIndex "cards" 6 quotedKey = .item 0 := by
    decide +kernel
  obtain ⟨offer, hoffer, hnews⟩ := List.mem_map.mp (hoffers ▸ List.mem_singleton_self _)
  obtain ⟨hlabel, hkind⟩ := Prod.mk.inj hnews
  have hnewline : '\n' ∉ offer.suggestion.label.toList := by
    rw [hlabel]
    decide
  obtain ⟨edited, line, line', added, column, happlied, -, -, -, -, -, -, -, hchain, hitem⟩ :=
    type_line_of_card hbytes hoffer hkind hnewline
  exact ⟨hbytes, offer, hoffer, hkind, hnewline, edited, happlied, hchain.trans hplace.1,
    (hitem "cards" (by decide)).trans hplace.2⟩

end ManifestAssist
