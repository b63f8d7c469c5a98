import XPath.Proofs.Token.Words

/-!
# Places of one text

* `Cursor.Leads`: a later place in the same text;
* `Cursor.Leads.unique`: places are told apart by their offsets;
* `Lexer.leads_of_literal?`: a literal is read from one place up to a later one.
-/

namespace XPath

theorem Cursor.skipBlank_skipBlank (c : Cursor) : c.skipBlank.skipBlank = c.skipBlank := by
  have hnone : (Text.trimStart c.rest).takeWhile Text.isBlank = [] :=
    Lexer.takeWhile_eq_nil (Lexer.startsWith_isBlank_trimStart c.rest)
  have hrest : Text.trimStart (Text.trimStart c.rest) = Text.trimStart c.rest :=
    Lexer.trimStart_trimStart c.rest
  show (⟨Text.trimStart (Text.trimStart c.rest), c.skipBlank.offset
    + utf8Length ((Text.trimStart c.rest).takeWhile Text.isBlank)⟩ : Cursor) = c.skipBlank
  rw [hnone, hrest]
  rfl

theorem Cursor.advance_advance (c : Cursor) (m n : Nat) :
    (c.advance m).advance n = c.advance (m + n) := by
  simp only [advance, List.drop_drop, List.take_add, utf8Length_append, Nat.add_assoc]

theorem Cursor.skipBlank_cons {c : Cursor} {x : Char} {cs : List Char} (h : c.rest = x :: cs) :
    c.skipBlank = if Text.isBlank x then (c.advance 1).skipBlank else c := by
  obtain ⟨rest, o⟩ := c
  simp only at h
  subst h
  simp only [Cursor.skipBlank, Cursor.skipWhile, Cursor.advance, List.takeWhile_cons,
    List.dropWhile_cons]
  split
  · simp [Nat.add_assoc]
  · simp

theorem Cursor.offset_advance_one {c : Cursor} {x : Char} {cs : List Char} (h : c.rest = x :: cs) :
    (c.advance 1).offset = c.offset + x.utf8Size := by
  rw [Cursor.advance, h]
  rfl

/-- The second place is the first one or lies behind it in the same text. -/
def Cursor.Leads (c d : Cursor) : Prop :=
  ∃ w, c.rest = w ++ d.rest ∧ d.offset = c.offset + utf8Length w

theorem eq_nil_of_utf8Length {cs : List Char} (h : utf8Length cs = 0) : cs = [] := by
  cases cs with
  | nil => rfl
  | cons c cs =>
    have hpos := c.utf8Size_pos
    rw [utf8Length_cons] at h
    omega

theorem utf8Length_pos {cs : List Char} (h : cs ≠ []) : 0 < utf8Length cs :=
  Nat.pos_of_ne_zero fun hnone => h (eq_nil_of_utf8Length hnone)

namespace Cursor.Leads

variable {c d e : Cursor}

theorem refl (c : Cursor) : c.Leads c :=
  ⟨[], rfl, rfl⟩

theorem trans (h : c.Leads d) (h' : d.Leads e) : c.Leads e := by
  obtain ⟨w, hrest, hoffset⟩ := h
  obtain ⟨w', hrest', hoffset'⟩ := h'
  refine ⟨w ++ w', ?_, ?_⟩
  · rw [hrest, hrest', List.append_assoc]
  · rw [hoffset', hoffset, utf8Length_append, Nat.add_assoc]

theorem length_le (h : c.Leads d) : d.rest.length ≤ c.rest.length := by
  obtain ⟨w, hrest, -⟩ := h
  rw [hrest, List.length_append]
  omega

/-- In front of a character there is one. -/
theorem ne_nil (h : c.Leads d) (hd : d.rest ≠ []) : c.rest ≠ [] := by
  have hpos := List.length_pos_iff.2 hd
  have hle := h.length_le
  exact List.length_pos_iff.1 (by omega)

theorem offset_le (h : c.Leads d) : c.offset ≤ d.offset := by
  obtain ⟨w, -, hoffset⟩ := h
  omega

theorem advance (h : c.Leads d) (n : Nat) : c.Leads (d.advance n) :=
  h.trans ⟨d.rest.take n, (List.take_append_drop n d.rest).symm, rfl⟩

theorem skipBlank (h : c.Leads d) : c.Leads d.skipBlank :=
  h.trans ⟨d.rest.takeWhile Text.isBlank, List.takeWhile_append_dropWhile.symm, rfl⟩

end Cursor.Leads

/-- Places of one text are told apart by their offsets. -/
theorem Cursor.Leads.unique {c d d' : Cursor} (h : c.Leads d) (h' : c.Leads d')
    (hoffset : d.offset = d'.offset) : d = d' := by
  obtain ⟨w, hrest, hd⟩ := h
  obtain ⟨w', hrest', hd'⟩ := h'
  have hlength : utf8Length w = utf8Length w' := by omega
  have hnone {v v' ws : List Char} (hv : v' = v ++ ws) (hl : utf8Length v = utf8Length v') :
      ws = [] := by
    rw [hv, utf8Length_append] at hl
    exact eq_nil_of_utf8Length (by omega)
  have heq : d.rest = d'.rest := by
    rcases List.append_eq_append_iff.1 (hrest.symm.trans hrest') with ⟨ws, hw, hws⟩ | ⟨ws, hw, hws⟩
    · rw [hws, hnone hw hlength, List.nil_append]
    · rw [hws, hnone hw hlength.symm, List.nil_append]
  cases d
  cases d'
  simp only at heq hoffset
  rw [heq, hoffset]

namespace Lexer

theorem leads_of_literal? {c next : Cursor} {kind : Token.Kind} {t : Token}
    (h : literal? c kind = some (t, next)) : t.kind = kind ∧ c.Leads next := by
  obtain ⟨q, w, cs, -, -, rfl, rfl⟩ := exists_of_literal? h
  exact ⟨rfl, (Cursor.Leads.refl c).advance _⟩

end Lexer
end XPath
