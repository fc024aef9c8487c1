import SqlSignature.Proofs.BoundOffsets
/-!
# SqlSignature.Proofs.QuotedText

Any text can be written in quotes. With its quotes and its backslashes doubled it stands between
quotes as it is: binding finds no bound value in it, and scanning finds one string that says it
(`quoted_opaque`). To binding a doubled quote ends one quoted text and starts another, and to
scanning it is a part of the string.
-/

namespace SqlSignature

/-- The characters of a text with every quote and every backslash doubled. -/
def doubled (quote : Char) (cs : List Char) : List Char :=
  cs.flatMap fun c => if c = quote ∨ c = '\\' then [c, c] else [c]

/-- A text in quotes. -/
def quoted (quote : Char) (s : String) : String :=
  String.ofList (quote :: (doubled quote s.toList ++ [quote]))

section

variable {quote : Char} (hslash : quote ≠ '\\')
include hslash

open Lexer

theorem stringBody_doubled (cs : List Char) :
    stringBody quote (doubled quote cs ++ [quote]) =
      some (cs, doubled quote cs ++ [quote], []) := by
  induction cs with
  | nil => simp [doubled, stringBody]
  | cons c cs ih =>
    rw [doubled, List.flatMap_cons, ← doubled]
    by_cases hquote : c = quote
    · simp [hquote, stringBody, ih]
    by_cases hescape : c = '\\'
    · simp [hescape, stringBody, hslash.symm, ih, unescape]
    · rw [if_neg (by simp [hquote, hescape]), List.append_assoc, List.singleton_append,
        stringBody_plain hquote hescape, ih]
      rfl

/-- A doubled backslash escapes itself, and not what follows. -/
theorem escapesNewline_doubled (cs : List Char) :
    escapesNewline (doubled quote cs ++ [quote]) = false := by
  induction cs with
  | nil => exact escapesNewline_cons hslash []
  | cons c cs ih =>
    rw [doubled, List.flatMap_cons, ← doubled]
    by_cases hescape : c = '\\'
    · simp [hescape, escapesNewline, ih]
    by_cases hquote : c = quote
    · simp [hquote, escapesNewline_cons hslash, ih]
    · simp [hquote, hescape, escapesNewline_cons hescape, ih]

end

theorem Lexed.front_quote {quote : Char} (hquote : quote = '\'' ∨ quote = '"')
    {rest said covered left : List Char}
    (h : Lexer.stringBody quote rest = some (said, covered, left)) :
    Lexed.front quote rest = .token .string said (quote :: covered) left := by
  have hblank : Text.isBlank quote = false := by rcases hquote with rfl | rfl <;> decide
  rcases hquote with rfl | rfl <;>
    simp [Lexed.front, hblank, Lexer.startsLineComment, List.isPrefixOf, h]

/-- A text that binding keeps to its end is bound as it is. -/
theorem BoundText.Keeps.ofText {text : String} (h : Keeps text.toList text.toList []) :
    (ofText text).text = text ∧ (ofText text).parameters = [] := by
  obtain ⟨pieces, hparts, hcovered⟩ := h
  replace hparts : stretches text.toList.length text.toList = pieces.map .kept := by
    simpa [parts, stretches] using hparts
  refine ⟨?_, ?_⟩
  · simp only [BoundText.ofText, hparts, List.flatMap_map]
    rw [show (fun a => (Stretch.kept a).bound) = id from rfl, List.flatMap_id, hcovered,
      String.ofList_toList]
  · simp [BoundText.ofText, hparts, List.filterMap_map, Function.comp_def, Stretch.parameter?]

/-- What is written in quotes has no bound value, and is a single string that says it. -/
theorem quoted_opaque {quote : Char} (hquote : quote = '\'' ∨ quote = '"') (s : String) :
    (BoundText.ofText (quoted quote s)).text = quoted quote s ∧
      (BoundText.ofText (quoted quote s)).parameters = [] ∧
      Token.scan (quoted quote s) = .ok [⟨.string, s, 0, Text.size (quoted quote s)⟩] := by
  have hslash : quote ≠ '\\' := by rcases hquote with rfl | rfl <;> decide
  have hbody := stringBody_doubled hslash s.toList
  have hkept : BoundText.Keeps (quoted quote s).toList (quoted quote s).toList [] := by
    rw [quoted, String.toList_ofList]
    exact BoundText.keeps_string hquote hbody (escapesNewline_doubled hslash _)
  obtain ⟨htext, hparameters⟩ := hkept.ofText
  refine ⟨htext, hparameters, Token.scan_eq_ok_iff.2 ?_⟩
  rw [quoted, Text.size, String.toList_ofList]
  have hscanned : Token.Scanned 0 _ _ := .token (Lexed.front_quote hquote hbody) (.done _)
  rwa [Nat.zero_add, String.ofList_toList] at hscanned

theorem quoted_opaque_single :
    (BoundText.ofText "'it''s \\\\ :a -- ?'").text = "'it''s \\\\ :a -- ?'" ∧
      (BoundText.ofText "'it''s \\\\ :a -- ?'").parameters = [] ∧
      Token.scan "'it''s \\\\ :a -- ?'" = .ok [⟨.string, "it's \\ :a -- ?", 0, 18⟩] :=
  quoted_opaque (.inl rfl) "it's \\ :a -- ?"

end SqlSignature
