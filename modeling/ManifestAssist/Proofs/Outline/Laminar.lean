import ManifestAssist.Proofs.Outline.Label

/-! # Nesting of blocks

A line that a block reaches has its own label right of the label of the block, so what ends the
outer block ends the inner one, too. Hence the blocks of two declarations lie one within the other
or one behind the other, whatever the columns of the lines are.
-/

namespace ManifestAssist.Outline

open Text

variable {text : Text} {line inner outer : Line} {label label₁ label₂ : String}
  {d d₁ d₂ : Declaration} {column column' i j : Nat}

theorem exits_of_lt (h : exits column line) (hlt : column < column') : exits column' line := by
  unfold exits at h ⊢
  cases hi : line.indent? with
  | none => simp [hi] at h
  | some indent =>
    simp only [hi, Bool.or_eq_true, Bool.and_eq_true, decide_eq_true_eq, beq_iff_eq] at h ⊢
    omega

theorem labelColumn_lt_of_reaches (hlt : i < j) (houter : text.lines[i]? = some outer)
    (hinner : text.lines[j]? = some inner) (hcolumn : inner.contentColumn? = some column)
    (h : Reaches text.lines i j) : outer.labelColumn < inner.labelColumn := by
  obtain ⟨outer', houter', hreach⟩ := h
  obtain rfl : outer = outer' := Option.some.inj (houter.symm.trans houter')
  have hexits := hreach j (Nat.le_refl j) hlt inner hinner
  simpa [Line.labelColumn, hcolumn] using lt_contentColumn?_of_not_exits hexits hcolumn

theorem stop_blockOf_le_of_reaches (hbytes : text.bytes < 2 ^ 32) (hlt : i < j)
    (houter : text.lines[i]? = some outer) (hinner : text.lines[j]? = some inner)
    (hcolumn : inner.contentColumn? = some column) (h : Reaches text.lines i j) :
    (blockOf text inner).stop ≤ (blockOf text outer).stop := by
  have hlabels := labelColumn_lt_of_reaches hlt houter hinner hcolumn h
  obtain ⟨outer', houter', hreach⟩ := h
  obtain rfl : outer = outer' := Option.some.inj (houter.symm.trans houter')
  -- If the inner block went on behind the end of the outer one, then no line would end the outer
  -- one there: none up to the inner label, and behind it none that does not end both.
  by_contra hgt
  obtain ⟨hstop, hreach'⟩ :=
    (lt_stop_blockOf_iff_forall hbytes hinner).mp (Nat.lt_of_not_le hgt)
  refine absurd ((lt_stop_blockOf_iff_forall hbytes houter).mpr ⟨hstop, ?_⟩) (Nat.lt_irrefl _)
  intro k hk later hlater hle hexits
  rcases Nat.lt_or_ge j k with hjk | hkj
  · exact hreach' k hjk later hlater hle (exits_of_lt hexits hlabels)
  · exact hreach k hkj hk later hlater hexits

theorem start_blockOf (hbytes : text.bytes < 2 ^ 32) (hline : line ∈ text.lines)
    (h : line.declares label) :
    (blockOf text line).start = line.start + line.labelColumn ∧
      line.start + line.labelColumn ≤ line.stop := by
  have hcolumn := labelColumn_le_bytes h
  have hstop := stop_le_bytes hline
  have hmax : maxOffset = 2 ^ 32 - 1 := rfl
  unfold Line.stop at hstop ⊢
  refine ⟨?_, by omega⟩
  change min (line.start + line.labelColumn) maxOffset = _
  omega

theorem covers_of_reaches (hbytes : text.bytes < 2 ^ 32) (hlt : i < j)
    (houter : text.lines[i]? = some outer) (hinner : text.lines[j]? = some inner)
    (hdeclares₁ : outer.declares label₁) (hdeclares₂ : inner.declares label₂)
    (hcolumn : inner.contentColumn? = some column) (h : Reaches text.lines i j) :
    (blockOf text outer).covers (blockOf text inner) := by
  obtain ⟨hstart₁, hle₁⟩ := start_blockOf hbytes (List.mem_of_getElem? houter) hdeclares₁
  obtain ⟨hstart₂, -⟩ := start_blockOf hbytes (List.mem_of_getElem? hinner) hdeclares₂
  have hlines := stop_lt_start houter hinner hlt
  have hstop := stop_blockOf_le_of_reaches hbytes hlt houter hinner hcolumn h
  exact Span.covers_iff.mpr ⟨by omega, hstop⟩

/-- A later block lies within an earlier one or behind it. -/
theorem covers_or_stop_le_start (hbytes : text.bytes < 2 ^ 32) (hlt : i < j)
    (houter : text.lines[i]? = some outer) (hinner : text.lines[j]? = some inner)
    (hdeclares₁ : outer.declares label₁) (hdeclares₂ : inner.declares label₂)
    (hcolumn : inner.contentColumn? = some column) :
    (blockOf text outer).covers (blockOf text inner) ∨
      (blockOf text outer).stop ≤ (blockOf text inner).start := by
  by_cases hreach : Reaches text.lines i j
  · exact .inl (covers_of_reaches hbytes hlt houter hinner hdeclares₁ hdeclares₂ hcolumn hreach)
  · right
    obtain ⟨hstart₂, -⟩ := start_blockOf hbytes (List.mem_of_getElem? hinner) hdeclares₂
    have hstop : ¬ inner.start < (blockOf text outer).stop := fun h =>
      hreach ((lt_stop_blockOf_iff hbytes houter hinner).mp h).2
    omega

/-- The block at a declaration starts there, and the blocks at any two declarations lie one within
the other or apart. -/
theorem blockSpanAt?_laminar (hbytes : text.bytes < 2 ^ 32) (h₁ : d₁ ∈ declarations label₁ text)
    (h₂ : d₂ ∈ declarations label₂ text) :
    ∃ span₁ span₂, blockSpanAt? label₁ d₁.line text = some span₁ ∧ span₁.start = d₁.offset ∧
      blockSpanAt? label₂ d₂.line text = some span₂ ∧ span₂.start = d₂.offset ∧
      (span₁.covers span₂ ∨ span₂.covers span₁ ∨
        span₁.stop ≤ span₂.start ∨ span₂.stop ≤ span₁.start) := by
  obtain ⟨line₁, hline₁, hdeclares₁, hcolumn₁, hoffset₁⟩ := exists_of_mem_declarations h₁
  obtain ⟨line₂, hline₂, hdeclares₂, hcolumn₂, hoffset₂⟩ := exists_of_mem_declarations h₂
  obtain ⟨hstart₁, -⟩ := start_blockOf hbytes (List.mem_of_getElem? hline₁) hdeclares₁
  obtain ⟨hstart₂, -⟩ := start_blockOf hbytes (List.mem_of_getElem? hline₂) hdeclares₂
  refine ⟨blockOf text line₁, blockOf text line₂, blockSpanAt?_of_declares hline₁ hdeclares₁, ?_,
    blockSpanAt?_of_declares hline₂ hdeclares₂, ?_, ?_⟩
  · rw [hstart₁, hoffset₁, Line.labelColumn, hcolumn₁, Option.getD_some]
  · rw [hstart₂, hoffset₂, Line.labelColumn, hcolumn₂, Option.getD_some]
  · rcases Nat.lt_trichotomy d₁.line d₂.line with hlt | heq | hgt
    · have := covers_or_stop_le_start hbytes hlt hline₁ hline₂ hdeclares₁ hdeclares₂ hcolumn₂
      tauto
    · rw [heq, hline₂] at hline₁
      obtain rfl : line₂ = line₁ := Option.some.inj hline₁
      exact .inl (Span.covers_refl _)
    · have := covers_or_stop_le_start hbytes hgt hline₂ hline₁ hdeclares₂ hdeclares₁ hcolumn₁
      tauto

/-- An item at the column of the label ahead of it, and a line between that column and the next. -/
def ragged : Text := "  a:\n  - b: x\n   c: y\n - d:".toList

theorem blockSpanAt?_laminar_ragged :
    (ragged.bytes < 2 ^ 32 ∧ ⟨0, 2, 2⟩ ∈ declarations "a" ragged ∧
        ⟨1, 4, 9⟩ ∈ declarations "b" ragged) ∧
      ∃ span₁ span₂, blockSpanAt? "a" 0 ragged = some span₁ ∧ span₁.start = 2 ∧
        blockSpanAt? "b" 1 ragged = some span₂ ∧ span₂.start = 9 ∧
        (span₁.covers span₂ ∨ span₂.covers span₁ ∨
          span₁.stop ≤ span₂.start ∨ span₂.stop ≤ span₁.start) := by
  have hbytes : ragged.bytes < 2 ^ 32 := by cbv
  have h₁ : ⟨0, 2, 2⟩ ∈ declarations "a" ragged := by decide +kernel
  have h₂ : ⟨1, 4, 9⟩ ∈ declarations "b" ragged := by decide +kernel
  exact ⟨⟨hbytes, h₁, h₂⟩, blockSpanAt?_laminar hbytes h₁ h₂⟩

end ManifestAssist.Outline
