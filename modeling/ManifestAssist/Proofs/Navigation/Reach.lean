import ManifestAssist.Proofs.Navigation.Growth
import ManifestAssist.Proofs.Outline.Within

/-! # Blocks that a selection reaches

A selection looks up the labels of the chain one after another, so it grows to the block of each
declaration around the line only if that is the innermost block of its label there, and covers those
of the labels that are looked up ahead of it. A label that is declared again further inside hides
its outer block.
-/

namespace ManifestAssist

open Text Outline

variable {text : Text} {target line opening : Line} {first last span a b : Span}
  {spans grown : List Span} {label : String} {labels : List String} {d : Declaration}
  {column i j t : Nat}

namespace Selection

/-- The last span after one more was tried. -/
def widen (last span : Span) : Span :=
  if span.covers last then span else last

theorem widen_of_covers (h : span.covers last) : widen last span = span := if_pos h

theorem widen_of_not_covers (h : ¬ span.covers last) : widen last span = last := if_neg h

theorem covers_widen (last span : Span) : (widen last span).covers last := by
  by_cases h : span.covers last
  · rwa [widen_of_covers h]
  · rw [widen_of_not_covers h]
    exact Span.covers_refl last

theorem getLast?_grow (h : grown.getLast? = some last) (span : Span) :
    (grow grown span).getLast? = some (widen last span) := by
  rw [grow, h]
  by_cases hc : span.covers last
  · rw [widen_of_covers hc]
    by_cases heq : span = last
    · simp [heq, h]
    · simp [hc, heq]
  · simp [widen_of_not_covers hc, hc, h]

theorem mem_grow_iff (h : grown.getLast? = some last) :
    a ∈ grow grown span ↔ a ∈ grown ∨ (a = span ∧ span.covers last) := by
  rw [grow, h]
  by_cases hc : span.covers last
  · by_cases heq : span = last
    · have hmem : last ∈ grown := List.mem_of_getLast? h
      simp only [heq, ne_eq, not_true_eq_false, and_false, ↓reduceIte, iff_self_or, and_imp]
      rintro rfl -
      exact hmem
    · simp [hc, heq]
  · simp [hc]

theorem mem_foldl_grow_iff (h : grown.getLast? = some last) :
    span ∈ spans.foldl grow grown ↔
      span ∈ grown ∨ ∃ before after, spans = before ++ span :: after ∧
        span.covers (before.foldl widen last) := by
  induction spans generalizing grown last with
  | nil => simp
  | cons next spans ih =>
    rw [List.foldl_cons, ih (getLast?_grow h next), mem_grow_iff h, or_assoc]
    refine or_congr_right ?_
    constructor
    · rintro (⟨rfl, hc⟩ | ⟨before, after, rfl, hc⟩)
      · exact ⟨[], spans, rfl, hc⟩
      · exact ⟨next :: before, after, rfl, hc⟩
    · rintro ⟨_ | ⟨next', before⟩, after, heq, hc⟩
      · obtain ⟨rfl, rfl⟩ := List.cons.inj heq
        exact .inl ⟨rfl, hc⟩
      · obtain ⟨rfl, rfl⟩ := List.cons.inj heq
        exact .inr ⟨before, after, rfl, hc⟩

theorem covers_foldl_widen (last : Span) (spans : List Span) :
    (spans.foldl widen last).covers last := by
  induction spans generalizing last with
  | nil => exact Span.covers_refl last
  | cons span spans ih => exact Span.covers_trans (ih _) (covers_widen last span)

theorem foldl_widen_mem (last : Span) (spans : List Span) :
    spans.foldl widen last = last ∨ spans.foldl widen last ∈ spans := by
  induction spans generalizing last with
  | nil => exact .inl rfl
  | cons span spans ih =>
    rw [List.foldl_cons]
    rcases ih (widen last span) with heq | hmem
    · rw [heq]
      by_cases hc : span.covers last
      · exact .inr (by simp [widen_of_covers hc])
      · exact .inl (widen_of_not_covers hc)
    · exact .inr (List.mem_cons_of_mem _ hmem)

theorem foldl_widen_covers (htotal : ∀ a ∈ spans, ∀ b ∈ spans, a.covers b ∨ b.covers a)
    (ha : a ∈ spans) (hfirst : a.covers first) : (spans.foldl widen first).covers a := by
  -- From the right: the last span is kept unless the one kept so far covers it already.
  induction spans using List.reverseRecOn generalizing a with
  | nil => cases ha
  | append_singleton spans span ih =>
    have ih {a : Span} (ha : a ∈ spans) (hfirst : a.covers first) :
        (spans.foldl widen first).covers a :=
      ih (fun a ha b hb => htotal a (List.mem_append_left _ ha) b (List.mem_append_left _ hb))
        ha hfirst
    rw [List.foldl_append, List.foldl_cons, List.foldl_nil]
    rcases List.mem_append.mp ha with ha | ha
    · exact Span.covers_trans (covers_widen ..) (ih ha hfirst)
    · obtain rfl := List.mem_singleton.mp ha
      by_cases hc : a.covers (spans.foldl widen first)
      · rw [widen_of_covers hc]
        exact Span.covers_refl a
      · rw [widen_of_not_covers hc]
        rcases foldl_widen_mem first spans with heq | hmem
        · exact absurd (by rwa [heq]) hc
        · rcases htotal _ (List.mem_append_left _ hmem) a (by simp) with hcovers | hcovers
          · exact hcovers
          · exact absurd hcovers hc

end Selection

namespace Outline

/-- Is the span that of the block of a line that counts, and does the block reach line `t`? -/
def IsBlockAround (text : Text) (t : Nat) (span : Span) : Prop :=
  ∃ i ≤ t, ∃ opening ∈ text.lines[i]?, (∃ column, opening.contentColumn? = some column) ∧
    (∃ label, opening.declares label) ∧ Reaches text.lines i t ∧ span = blockOf text opening

theorem IsBlockAround.covers_total (hbytes : text.bytes < 2 ^ 32) (ha : IsBlockAround text t a)
    (hb : IsBlockAround text t b) : a.covers b ∨ b.covers a := by
  obtain ⟨i, hi, outer, houter, ⟨column, hcolumn⟩, ⟨label, hdeclares⟩, hreach, rfl⟩ := ha
  obtain ⟨j, hj, inner, hinner, ⟨column', hcolumn'⟩, ⟨label', hdeclares'⟩, hreach', rfl⟩ := hb
  rcases Nat.lt_trichotomy i j with hlt | rfl | hlt
  · exact .inl (covers_of_reaches hbytes hlt houter hinner hdeclares hdeclares' hcolumn'
      (reaches_of_le hreach hj))
  · obtain rfl : outer = inner := Option.some.inj (houter.symm.trans hinner)
    exact .inl (Span.covers_refl _)
  · exact .inr (covers_of_reaches hbytes hlt hinner houter hdeclares' hdeclares hcolumn
      (reaches_of_le hreach' hi))

theorem isBlockAround_of_blockSpanAt? (hbytes : text.bytes < 2 ^ 32)
    (htarget : text.lines[t]? = some target) (h : blockSpanAt? label t text = some span)
    (hlabel : label.toList.head? ≠ some '#') : IsBlockAround text t span := by
  obtain ⟨i, hi, opening, hopening, hdeclares, hreach, rfl⟩ :=
    exists_of_blockSpanAt? hbytes htarget h
  have hs : opening.isSignificant := by
    by_contra hs
    exact not_declares_of_not_isSignificant hs hlabel hdeclares
  exact ⟨i, hi, opening, hopening, ⟨_, contentColumn?_eq_nestingColumn hs⟩, ⟨label, hdeclares⟩,
    hreach, rfl⟩

theorem stop_le_of_reaches (hbytes : text.bytes < 2 ^ 32)
    (hopening : text.lines[i]? = some opening) (htarget : text.lines[t]? = some target)
    (h : Reaches text.lines i t) : target.stop ≤ (blockOf text opening).stop := by
  obtain ⟨opening', hopening', hreach⟩ := h
  obtain rfl : opening = opening' := Option.some.inj (hopening.symm.trans hopening')
  refine le_of_forall_lt fun offset hlt => (lt_stop_blockOf_iff_forall hbytes hopening).mpr
    ⟨hlt.trans_le (stop_le_bytes (List.mem_of_getElem? htarget)), fun k hk line hline hle => ?_⟩
  refine hreach k ?_ hk line hline
  by_contra hgt
  have := stop_lt_start htarget hline (Nat.lt_of_not_le hgt)
  omega

end Outline

namespace Selection

theorem exists_content? (hbytes : text.bytes < 2 ^ 32) (htarget : text.lines[t]? = some target)
    (hs : target.isSignificant) :
    ∃ first, content? target.start target.text = some first ∧ target.start ≤ first.start ∧
      first.stop ≤ target.stop := by
  obtain ⟨hfirst, hstop⟩ := content?_eq hbytes htarget (trim_ne_nil_of_isSignificant hs)
  exact ⟨_, hfirst, Nat.le_add_right .., hstop⟩

section Around

variable (hbytes : text.bytes < 2 ^ 32) (htarget : text.lines[t]? = some target)

include hbytes htarget

theorem min_start_maxOffset : min target.start maxOffset = target.start :=
  Nat.min_eq_left ((start_le_bytes (List.mem_of_getElem? htarget)).trans (Nat.le_of_lt_succ hbytes))

theorem around_cases (label : String) :
    around text t target.start label = (blockSpanAt? label t text).toList ∨
      ∃ item ∈ itemRangesAt label t text, ∃ block, blockSpanAt? label t text = some block ∧
        block.covers item.span ∧ around text t target.start label = [item.span, block] := by
  unfold around
  simp only [min_start_maxOffset hbytes htarget]
  cases hfind : (itemRangesAt label t text).find? fun item => item.span.contains target.start with
  | none => exact .inl rfl
  | some item =>
    right
    have hitem := List.mem_of_find?_eq_some hfind
    have hcontains : item.span.contains target.start := by simpa using List.find?_some hfind
    obtain ⟨block, hblock, hcovers⟩ := exists_blockSpanAt?_covers hbytes htarget hitem hcontains
    exact ⟨item, hitem, block, hblock, hcovers, by simp [hblock]⟩

theorem foldl_widen_flatMap_around (labels : List String) (last : Span) :
    (labels.flatMap (around text t target.start)).foldl widen last =
      (labels.filterMap (blockSpanAt? · t text)).foldl widen last := by
  induction labels generalizing last with
  | nil => rfl
  | cons label labels ih =>
    rw [List.flatMap_cons, List.foldl_append, ih]
    rcases around_cases hbytes htarget label with heq | ⟨item, -, block, hblock, hcovers, heq⟩
    · rw [heq]
      cases hblock : blockSpanAt? label t text <;> simp [hblock]
    · have hwiden : widen (widen last item.span) block = widen last block := by
        by_cases hc : item.span.covers last
        · rw [widen_of_covers hc, widen_of_covers hcovers,
            widen_of_covers (Span.covers_trans hcovers hc)]
        · rw [widen_of_not_covers hc]
      simp [heq, hblock, hwiden]

theorem eq_of_blockOf_mem_around {label' : String} (hopening : text.lines[j]? = some opening)
    (hdeclares : opening.declares label) (hcolumn : opening.contentColumn? = some column)
    (h : blockOf text opening ∈ around text t target.start label') :
    label' = label ∧ blockSpanAt? label t text = some (blockOf text opening) := by
  obtain ⟨hstart, hle⟩ := start_blockOf hbytes (List.mem_of_getElem? hopening) hdeclares
  have hblock : blockSpanAt? label' t text = some (blockOf text opening) := by
    rcases around_cases hbytes htarget label' with heq | ⟨item, hitem, block, hblock, -, heq⟩
    · rwa [heq, Option.mem_toList] at h
    · rw [heq, List.mem_pair] at h
      rcases h with heq | rfl
      · -- The item would start at the label, but its marker is left of the content of its line.
        obtain ⟨line, hline, hm, hitem⟩ := exists_line_of_mem_itemRangesAt hbytes hitem
        obtain ⟨i, hi⟩ := List.getElem?_of_mem hline
        rw [← heq, hstart] at hitem
        obtain rfl : j = i := LineMap.eq_of_getElem? hopening hi
          ⟨Nat.le_add_right .., hle⟩ ⟨hitem.ge, hitem.trans_le (Nat.le_add_right ..)⟩
        obtain rfl : opening = line := Option.some.inj (hopening.symm.trans hi)
        obtain ⟨marker, hm⟩ := Option.isSome_iff_exists.mp hm
        have hlt := marker?_lt_contentColumn? hm hcolumn
        rw [Line.labelColumn, hcolumn, Option.getD_some] at hitem
        omega
      · exact hblock
  obtain ⟨i, -, opening', hopening', hdeclares', -, heq⟩ :=
    exists_of_blockSpanAt? hbytes htarget hblock
  obtain ⟨hstart', hle'⟩ := start_blockOf hbytes (List.mem_of_getElem? hopening') hdeclares'
  rw [← heq] at hstart'
  obtain rfl : j = i := LineMap.eq_of_getElem? hopening hopening'
    ⟨Nat.le_add_right .., hle⟩ ⟨by omega, by omega⟩
  obtain rfl : opening = opening' := Option.some.inj (hopening.symm.trans hopening')
  rw [Line.declares_iff] at hdeclares hdeclares'
  obtain rfl : label = label' := Option.some.inj (hdeclares.symm.trans hdeclares')
  exact ⟨rfl, hblock⟩

section Lists

variable {ahead : List String}

theorem covers_foldl_widen_of_flatMap_around_eq {behind : List String} {before after : List Span}
    (hopening : text.lines[j]? = some opening) (hdeclares : opening.declares label)
    (hcolumn : opening.contentColumn? = some column) (hnot : label ∉ ahead)
    (heq : (ahead ++ label :: behind).flatMap (around text t target.start) =
      before ++ blockOf text opening :: after)
    (hcovers : (blockOf text opening).covers (before.foldl widen first)) :
    blockSpanAt? label t text = some (blockOf text opening) ∧
      (blockOf text opening).covers
        ((ahead.filterMap (blockSpanAt? · t text)).foldl widen first) := by
  have hlabel : ∀ labels : List String,
      blockOf text opening ∈ labels.flatMap (around text t target.start) →
      label ∈ labels ∧ blockSpanAt? label t text = some (blockOf text opening) := by
    intro labels hlabels
    obtain ⟨label', hlabel', haround⟩ := List.mem_flatMap.mp hlabels
    obtain ⟨rfl, hblock⟩ :=
      eq_of_blockOf_mem_around hbytes htarget hopening hdeclares hcolumn haround
    exact ⟨hlabel', hblock⟩
  refine ⟨(hlabel (ahead ++ label :: behind) (by simp [heq])).2, ?_⟩
  rw [← foldl_widen_flatMap_around hbytes htarget]
  rw [List.flatMap_append] at heq
  -- The block stands behind all that the labels ahead lead to, for none of them leads to it.
  rcases List.append_eq_append_iff.mp heq with ⟨more, rfl, -⟩ | ⟨more, hahead, hmore⟩
  · rw [List.foldl_append] at hcovers
    exact Span.covers_trans hcovers (covers_foldl_widen ..)
  · cases more with
    | nil => rwa [hahead, List.append_nil]
    | cons next more =>
      obtain ⟨rfl, -⟩ := List.cons.inj hmore
      exact absurd (hlabel ahead (by simp [hahead])).1 hnot

theorem exists_flatMap_around_eq {block : Span} (hblock : blockSpanAt? label t text = some block)
    (hcovers : block.covers ((ahead.filterMap (blockSpanAt? · t text)).foldl widen first))
    (behind : List String) :
    ∃ before after, (ahead ++ label :: behind).flatMap (around text t target.start) =
      before ++ block :: after ∧ block.covers (before.foldl widen first) := by
  rw [← foldl_widen_flatMap_around hbytes htarget] at hcovers
  rw [List.flatMap_append, List.flatMap_cons]
  rcases around_cases hbytes htarget label with heq | ⟨item, -, block', hblock', hitem, heq⟩
  · refine ⟨_, behind.flatMap (around text t target.start), ?_, hcovers⟩
    simp [heq, hblock]
  · obtain rfl : block = block' := Option.some.inj (hblock.symm.trans hblock')
    refine ⟨ahead.flatMap (around text t target.start) ++ [item.span],
      behind.flatMap (around text t target.start), by simp [heq], ?_⟩
    rw [List.foldl_append, List.foldl_cons, List.foldl_nil]
    by_cases hc : item.span.covers
        ((ahead.flatMap (around text t target.start)).foldl widen first)
    · rwa [widen_of_covers hc]
    · rwa [widen_of_not_covers hc]

end Lists

end Around

theorem spansAt_eq (htarget : text.lines[t]? = some target)
    (hfirst : content? target.start target.text = some first) :
    spansAt text t =
      ((chain text t).reverse.flatMap (around text t target.start)).foldl grow [first] := by
  simp [spansAt, htarget, hfirst, grow]

section Enclosing

variable (hbytes : text.bytes < 2 ^ 32) (htarget : text.lines[t]? = some target)
  (hs : target.isSignificant) (h0 : target.indent? ≠ some 0) (h : Encloses text target label d)
  (hspan : blockSpanAt? label d.line text = some span)

include hbytes htarget hs h0 h hspan

/-- The block of a declaration around a line is kept if and only if its label leads to it and it
covers the last block kept of the labels that are looked up ahead. -/
theorem mem_spansAt_iff (hfirst : content? target.start target.text = some first)
    (hstart : target.start ≤ first.start) :
    span ∈ spansAt text t ↔
      blockSpanAt? label t text = some span ∧
        span.covers ((((chain text t).reverse.takeWhile (· ≠ label)).filterMap
          (blockSpanAt? · t text)).foldl widen first) := by
  obtain ⟨opening, hopening, hdeclares, hown, hlt, -⟩ :=
    exists_opening_of_encloses hbytes htarget h
  rw [blockSpanAt?_of_declares hopening hdeclares] at hspan
  obtain rfl := Option.some.inj hspan
  have hne : blockOf text opening ∉ [first] := by
    rw [List.mem_singleton]
    rintro rfl
    obtain ⟨hlabel, hle⟩ := start_blockOf hbytes (List.mem_of_getElem? hopening) hdeclares
    have := stop_lt_start hopening htarget hlt
    omega
  obtain ⟨hopen, hlabel⟩ :=
    mem_openings_of_encloses hbytes htarget (contentColumn?_eq_nestingColumn hs) h
  have hmem : label ∈ (chain text t).reverse := by
    rw [List.mem_reverse, chain_eq_filterMap_openings htarget h0]
    exact List.mem_filterMap.mpr ⟨d.line, hopen, hlabel⟩
  obtain ⟨ahead, behind, hsplit, hnot⟩ := List.eq_append_cons_of_mem hmem
  have htake : (ahead ++ label :: behind).takeWhile (· ≠ label) = ahead := by
    rw [List.takeWhile_append_of_pos]
    · simp
    · intro label' hlabel'
      simpa using ne_of_mem_of_not_mem hlabel' hnot
  rw [spansAt_eq htarget hfirst, mem_foldl_grow_iff (List.getLast?_singleton ..),
    or_iff_right hne, hsplit, htake]
  constructor
  · rintro ⟨before, after, heq, hcovers⟩
    exact covers_foldl_widen_of_flatMap_around_eq hbytes htarget hopening hdeclares hown hnot heq
      hcovers
  · rintro ⟨hblock, hcovers⟩
    exact exists_flatMap_around_eq hbytes htarget hblock hcovers behind

/-- A selection grows to the block of a declaration around a line only if that is the innermost
block of its label there, and it does so if the block also covers the innermost blocks of the labels
that are looked up ahead. It has to cover them unless a comment declares a label of the chain. -/
theorem mem_spansAt_of_encloses :
    (blockSpanAt? label t text = some span →
      (∀ label' ∈ (chain text t).reverse.takeWhile (· ≠ label),
        ∀ inner ∈ blockSpanAt? label' t text, span.covers inner) →
      span ∈ Selection.spansAt text t) ∧
    (span ∈ Selection.spansAt text t →
      blockSpanAt? label t text = some span ∧
      ((∀ label' ∈ chain text t, label'.toList.head? ≠ some '#') →
        ∀ label' ∈ (chain text t).reverse.takeWhile (· ≠ label),
          ∀ inner ∈ blockSpanAt? label' t text, span.covers inner)) := by
  obtain ⟨first, hfirst, hstart, hstop⟩ := exists_content? hbytes htarget hs
  obtain ⟨opening, hopening, hdeclares, hown, hlt, hreach⟩ :=
    exists_opening_of_encloses hbytes htarget h
  have hblockOf := blockSpanAt?_of_declares hopening hdeclares
  obtain rfl : blockOf text opening = span := Option.some.inj (hblockOf.symm.trans hspan)
  obtain ⟨hlabel, hle⟩ := start_blockOf hbytes (List.mem_of_getElem? hopening) hdeclares
  have hcontent : (blockOf text opening).covers first := by
    have hbehind := stop_lt_start hopening htarget hlt
    have hend := stop_le_of_reaches hbytes hopening htarget hreach
    exact Span.covers_iff.mpr ⟨by omega, by omega⟩
  rw [mem_spansAt_iff hbytes htarget hs h0 h hspan hfirst hstart]
  constructor
  · intro hblock hinner
    refine ⟨hblock, ?_⟩
    rcases foldl_widen_mem first (((chain text t).reverse.takeWhile (· ≠ label)).filterMap
      (blockSpanAt? · t text)) with heq | hmem
    · rwa [heq]
    · obtain ⟨label', hlabel', hinner'⟩ := List.mem_filterMap.mp hmem
      exact hinner label' hlabel' _ hinner'
  · rintro ⟨hblock, hcovers⟩
    refine ⟨hblock, fun hcomment label' hlabel' inner hinner => ?_⟩
    -- Blocks around a line lie one within the other, so the last one kept covers those ahead.
    have haround {label' : String} (hlabel' : label' ∈ (chain text t).reverse.takeWhile (· ≠ label))
        {inner : Span} (hinner : blockSpanAt? label' t text = some inner) :
        IsBlockAround text t inner := by
      have hmem := List.mem_reverse.mp ((List.takeWhile_sublist _).subset hlabel')
      exact isBlockAround_of_blockSpanAt? hbytes htarget hinner (hcomment label' hmem)
    have hself : IsBlockAround text t (blockOf text opening) :=
      ⟨d.line, hlt.le, opening, hopening, ⟨_, hown⟩, ⟨label, hdeclares⟩, hreach, rfl⟩
    rcases hself.covers_total hbytes (haround hlabel' hinner) with hcase | hcase
    · exact hcase
    · refine Span.covers_trans hcovers (foldl_widen_covers ?_ ?_ (Span.covers_trans hcase hcontent))
      · intro a ha b hb
        obtain ⟨labela, hlabela, ha⟩ := List.mem_filterMap.mp ha
        obtain ⟨labelb, hlabelb, hb⟩ := List.mem_filterMap.mp hb
        exact (haround hlabela ha).covers_total hbytes (haround hlabelb hb)
      · exact List.mem_filterMap.mpr ⟨label', hlabel', hinner⟩

end Enclosing

theorem mem_spansAt_of_encloses_secondItem :
    (secondItem.bytes < 2 ^ 32 ∧ secondItem.lines[5]? = some ⟨5, 28, "      f: y".toList⟩ ∧
        Line.isSignificant ⟨5, 28, "      f: y".toList⟩ ∧
        Line.indent? ⟨5, 28, "      f: y".toList⟩ ≠ some 0 ∧
        Encloses secondItem ⟨5, 28, "      f: y".toList⟩ "a" ⟨0, 0, 0⟩ ∧
        blockSpanAt? "a" 0 secondItem = some ⟨0, 38⟩) ∧
      ⟨0, 38⟩ ∈ Selection.spansAt secondItem 5 := by
  have hbytes : secondItem.bytes < 2 ^ 32 := by cbv
  have htarget : secondItem.lines[5]? = some ⟨5, 28, "      f: y".toList⟩ := by cbv
  have hs : Line.isSignificant ⟨5, 28, "      f: y".toList⟩ := by cbv
  have h0 : Line.indent? ⟨5, 28, "      f: y".toList⟩ ≠ some 0 := by decide +kernel
  have h : Encloses secondItem ⟨5, 28, "      f: y".toList⟩ "a" ⟨0, 0, 0⟩ := by decide +kernel
  have hspan : blockSpanAt? "a" 0 secondItem = some ⟨0, 38⟩ := by cbv
  refine ⟨⟨hbytes, htarget, hs, h0, h, hspan⟩, ?_⟩
  exact (mem_spansAt_of_encloses hbytes htarget hs h0 h hspan).1 (by cbv) (by decide +kernel)

/-- A label that is declared again within its block. -/
def sameLabel : Text := "a:\n  a:\n    b: x".toList

theorem not_mem_spansAt_of_encloses :
    ¬ ∀ (text : Text) (t : Nat) (target : Line) (label : String) (d : Declaration),
      text.bytes < 2 ^ 32 → text.lines[t]? = some target → target.isSignificant →
      target.indent? ≠ some 0 → Encloses text target label d →
      ∃ span, blockSpanAt? label d.line text = some span ∧ span ∈ Selection.spansAt text t := by
  intro h
  obtain ⟨span, hspan, hmem⟩ := h sameLabel 2 ⟨2, 8, "    b: x".toList⟩ "a" ⟨0, 0, 0⟩ (by cbv)
    (by cbv) (by cbv) (by decide +kernel) (by decide +kernel)
  have houter : blockSpanAt? "a" 0 sameLabel = some ⟨0, 16⟩ := by cbv
  obtain rfl : ⟨0, 16⟩ = span := Option.some.inj (houter.symm.trans hspan)
  revert hmem
  decide +kernel

end Selection

end ManifestAssist
