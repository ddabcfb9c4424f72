import ManifestAssist.Proofs.Outline.Laminar

/-! # The innermost block

Of the declarations of a label whose blocks hold a line, the last one has the innermost block: each
earlier block that holds the line also holds the line of that declaration, so it covers its block.
This is the block that is found around the line, and there is one if and only if there is such a
declaration.
-/

namespace ManifestAssist

open Text Outline

variable {text : Text} {target opening : Line} {label : String} {d d' : Declaration} {j t : Nat}

/-- The span of the block of a declaration, from its label to the first line behind it that ends the
block or else to the end of the text. -/
def Declaration.span (text : Text) (d : Declaration) : Span :=
  ⟨d.offset, stopAmong d.column text.bytes (text.lines.drop (d.line + 1))⟩

namespace Outline

/-- Does a declaration of the label hold line `t`? It holds its own line, and the later lines that
its block reaches and that start ahead of the end of the text. -/
def Holds (text : Text) (label : String) (t : Nat) (d : Declaration) : Prop :=
  d ∈ declarations label text ∧ d.line ≤ t ∧
    (d.line = t ∨ Reaches text.lines d.line t ∧
      ∃ target ∈ text.lines[t]?, target.start < text.bytes)

theorem exists_mem_declarations (hlabel : label.toList.head? ≠ some '#')
    (hopening : text.lines[j]? = some opening) (h : opening.declares label) :
    ∃ d ∈ declarations label text, d.line = j := by
  have hs : opening.isSignificant := by
    by_contra hs
    exact not_declares_of_not_isSignificant hs hlabel h
  refine ⟨_, mem_declarations_iff.mpr ⟨opening, List.mem_of_getElem? hopening,
    Line.declaration?_eq_some_iff.mpr ⟨h, _, contentColumn?_eq_nestingColumn hs, rfl⟩⟩, ?_⟩
  exact number_of_getElem? hopening

theorem blockOf_eq_span (hbytes : text.bytes < 2 ^ 32) (hd : d ∈ declarations label text)
    (hopening : text.lines[d.line]? = some opening) : blockOf text opening = d.span text := by
  obtain ⟨opening', hopening', hdeclares, hcolumn, hoffset⟩ := exists_of_mem_declarations hd
  obtain rfl : opening = opening' := Option.some.inj (hopening.symm.trans hopening')
  obtain ⟨hstart, -⟩ := start_blockOf hbytes (List.mem_of_getElem? hopening) hdeclares
  have hlabel : opening.labelColumn = d.column := by
    rw [Line.labelColumn, hcolumn, Option.getD_some]
  have hstop := stop_blockOf hbytes opening
  rw [hlabel, number_of_getElem? hopening] at hstop
  rw [hlabel, ← hoffset] at hstart
  exact congrArg₂ Span.mk hstart hstop

theorem declares_and_holds_iff (hbytes : text.bytes < 2 ^ 32)
    (hlabel : label.toList.head? ≠ some '#') (htarget : text.lines[t]? = some target) (hj : j ≤ t)
    (hopening : text.lines[j]? = some opening) :
    (opening.declares label && (opening.number == t ||
        target.start < (blockOf text opening).stop)) = true ↔
      ∃ d, d.line = j ∧ Holds text label t d := by
  simp only [Bool.and_eq_true, Bool.or_eq_true, beq_iff_eq, decide_eq_true_eq,
    number_of_getElem? hopening, lt_stop_blockOf_iff hbytes hopening htarget]
  constructor
  · rintro ⟨hdeclares, hholds⟩
    obtain ⟨d, hd, rfl⟩ := exists_mem_declarations hlabel hopening hdeclares
    exact ⟨d, rfl, hd, hj, hholds.imp_right fun h => ⟨h.2, target, htarget, h.1⟩⟩
  · rintro ⟨d, rfl, hd, -, hholds⟩
    obtain ⟨opening', hopening', hdeclares, -⟩ := exists_of_mem_declarations hd
    obtain rfl : opening = opening' := Option.some.inj (hopening.symm.trans hopening')
    refine ⟨hdeclares, hholds.imp_right ?_⟩
    rintro ⟨hreach, target', htarget', hlt⟩
    obtain rfl : target = target' := Option.some.inj (htarget.symm.trans htarget')
    exact ⟨hlt, hreach⟩

theorem isSome_blockSpanAt?_iff (hbytes : text.bytes < 2 ^ 32)
    (hlabel : label.toList.head? ≠ some '#') (htarget : text.lines[t]? = some target) :
    (blockSpanAt? label t text).isSome ↔ ∃ d, Holds text label t d := by
  simp only [blockSpanAt?, htarget, Option.bind_eq_bind, Option.bind_some, Option.pure_def,
    Option.isSome_bind, Option.isSome_some, Option.any_true, List.find?_isSome, List.mem_reverse]
  constructor
  · rintro ⟨opening, hmem, hfound⟩
    obtain ⟨j, hj, hopening⟩ := exists_of_mem_take_succ hmem
    obtain ⟨d, -, hd⟩ := (declares_and_holds_iff hbytes hlabel htarget hj hopening).mp hfound
    exact ⟨d, hd⟩
  · rintro ⟨d, hd⟩
    obtain ⟨opening, hopening, -⟩ := exists_of_mem_declarations hd.1
    refine ⟨opening, List.mem_of_getElem? (i := d.line) ?_,
      (declares_and_holds_iff hbytes hlabel htarget hd.2.1 hopening).mpr ⟨d, rfl, hd⟩⟩
    rw [List.getElem?_take_of_lt (Nat.lt_succ_of_le hd.2.1), hopening]

/-- The block that is found around a line is that of the last declaration that holds the line. -/
theorem exists_last_of_blockSpanAt? {span : Span} (hbytes : text.bytes < 2 ^ 32)
    (hlabel : label.toList.head? ≠ some '#') (htarget : text.lines[t]? = some target)
    (h : blockSpanAt? label t text = some span) :
    ∃ d, Holds text label t d ∧ span = d.span text ∧
      ∀ d', Holds text label t d' → d'.line ≤ d.line := by
  simp only [blockSpanAt?, htarget, Option.bind_eq_bind, Option.bind_some, Option.pure_def,
    Option.bind_eq_some_iff, Option.some.injEq] at h
  obtain ⟨opening, hfind, rfl⟩ := h
  obtain ⟨j, hj, hopening, hfound, hlater⟩ := exists_of_find?_reverse_take hfind
  obtain ⟨d, rfl, hd⟩ := (declares_and_holds_iff hbytes hlabel htarget hj hopening).mp hfound
  refine ⟨d, hd, blockOf_eq_span hbytes hd.1 hopening, fun d' hd' => ?_⟩
  by_contra hlt
  obtain ⟨opening', hopening', -⟩ := exists_of_mem_declarations hd'.1
  exact hlater d'.line hd'.2.1 (Nat.lt_of_not_le hlt) opening' hopening'
    ((declares_and_holds_iff hbytes hlabel htarget hd'.2.1 hopening').mpr ⟨d', rfl, hd'⟩)

theorem covers_of_holds (hbytes : text.bytes < 2 ^ 32) (hd : Holds text label t d)
    (hd' : Holds text label t d') (hle : d'.line ≤ d.line) :
    (d'.span text).covers (d.span text) := by
  obtain ⟨outer, houter, hdeclares', -⟩ := exists_of_mem_declarations hd'.1
  obtain ⟨inner, hinner, hdeclares, hcolumn, -⟩ := exists_of_mem_declarations hd.1
  rw [← blockOf_eq_span hbytes hd.1 hinner, ← blockOf_eq_span hbytes hd'.1 houter]
  rcases Nat.lt_or_eq_of_le hle with hlt | heq
  -- The block of `d'` goes on up to line `t`, and so past the line of `d`.
  · have hreach : Reaches text.lines d'.line t := by
      rcases hd'.2.2 with rfl | ⟨hreach, -⟩
      · exact absurd hd.2.1 (Nat.not_le_of_lt hlt)
      · exact hreach
    exact covers_of_reaches hbytes hlt houter hinner hdeclares' hdeclares hcolumn
      (reaches_of_le hreach hd.2.1)
  · rw [heq, hinner] at houter
    obtain rfl : inner = outer := Option.some.inj houter
    exact Span.covers_refl _

/-- There is a block of a label around a line if and only if a declaration of the label holds the
line. It is that of the last such declaration, and all others cover it. -/
theorem blockSpanAt?_innermost (hbytes : text.bytes < 2 ^ 32)
    (hlabel : label.toList.head? ≠ some '#') (ht : t < text.lines.length) :
    ((blockSpanAt? label t text).isSome ↔ ∃ d, Holds text label t d) ∧
      ∀ span, blockSpanAt? label t text = some span →
        ∃ d, Holds text label t d ∧ span = d.span text ∧
          ∀ d', Holds text label t d' → d'.line ≤ d.line ∧ (d'.span text).covers span := by
  have htarget : text.lines[t]? = some text.lines[t] := List.getElem?_eq_getElem ht
  refine ⟨isSome_blockSpanAt?_iff hbytes hlabel htarget, fun span hspan => ?_⟩
  obtain ⟨d, hd, rfl, hlast⟩ := exists_last_of_blockSpanAt? hbytes hlabel htarget hspan
  exact ⟨d, hd, rfl, fun d' hd' => ⟨hlast d' hd', covers_of_holds hbytes hd hd' (hlast d' hd')⟩⟩

/-- A label that is declared three times, each within the block ahead, and an empty line at the end
of the text. -/
def redeclared : Text := "a:\n  a:\n  - a: 1\n  b:\n\n".toList

theorem blockSpanAt?_innermost_redeclared :
    (redeclared.bytes < 2 ^ 32 ∧ "a".toList.head? ≠ some '#' ∧ 5 < redeclared.lines.length) ∧
      blockSpanAt? "a" 2 redeclared = some ⟨12, 17⟩ ∧
      (∃ d, Holds redeclared "a" 2 d ∧ ⟨12, 17⟩ = d.span redeclared ∧
        ∀ d', Holds redeclared "a" 2 d' →
          d'.line ≤ d.line ∧ (d'.span redeclared).covers ⟨12, 17⟩) ∧
      ¬ ∃ d, Holds redeclared "a" 5 d := by
  have hbytes : redeclared.bytes < 2 ^ 32 := by cbv
  have hlabel : "a".toList.head? ≠ some '#' := by decide
  have hlength : 5 < redeclared.lines.length := by cbv
  have hspan : blockSpanAt? "a" 2 redeclared = some ⟨12, 17⟩ := by cbv
  have hnone : blockSpanAt? "a" 5 redeclared = none := by cbv
  have ht : 2 < redeclared.lines.length := by omega
  obtain ⟨-, hlast⟩ := blockSpanAt?_innermost hbytes hlabel ht
  refine ⟨⟨hbytes, hlabel, hlength⟩, hspan, hlast _ hspan, fun hd => ?_⟩
  have hsome := (blockSpanAt?_innermost hbytes hlabel hlength).1.mpr hd
  simp [hnone] at hsome

end Outline

end ManifestAssist
