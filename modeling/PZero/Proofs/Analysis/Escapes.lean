import Mathlib
import PZero.Analysis.Literal

/-! # Escapes in string literals

The text between the quotes of a string literal is read in pieces: a character that stands for
itself, or a backslash with the character that it takes with it. Any string can be written
like that and is read back, whatever follows the closing quote; and behind a backslash all
characters but the backslash mean the same.
-/
namespace PZero.Analysis

/-! ## Writing a string -/

/-- A character in a string literal; backslashes and quotes are escaped. -/
def escapeChar (c : Char) : List Char :=
  if c = '\\' then ['\\', '\\'] else if c = '"' then ['\\', '"'] else [c]

def escape (s : String) : String := String.ofList (s.toList.flatMap escapeChar)

/-! ## Reading a string -/

/-- Pieces of a literal and what they stand for. No quote that closes the literal is among them,
and no backslash is left without the character that it takes with it. -/
inductive Spells : List Char → List Char → Prop
  | nil : Spells [] []
  | plain {c text contents} : c ≠ '"' → c ≠ '\\' → Spells text contents →
      Spells (c :: text) (c :: contents)
  | backslash {text contents} : Spells text contents →
      Spells ('\\' :: '\\' :: text) ('\\' :: contents)
  | quote {c text contents} : c ≠ '\\' → Spells text contents →
      Spells ('\\' :: c :: text) ('"' :: contents)

theorem unescapeChars_plain {c : Char} (hquote : c ≠ '"') (hbackslash : c ≠ '\\')
    (rest : List Char) : unescapeChars (c :: rest) = c :: unescapeChars rest := by
  rw [unescapeChars]
  · exact hquote
  · exact fun _ h _ => hbackslash h
  · exact fun _ _ h _ => hbackslash h
  · exact fun h _ => hbackslash h

theorem unescapeChars_quote {c : Char} (h : c ≠ '\\') (rest : List Char) :
    unescapeChars ('\\' :: c :: rest) = '"' :: unescapeChars rest := by
  rw [unescapeChars]
  exact h

/-- What pieces stand for comes in front of what the rest of the literal does. -/
theorem Spells.unescapeChars_append {text contents : List Char} (h : Spells text contents)
    (rest : List Char) : unescapeChars (text ++ rest) = contents ++ unescapeChars rest := by
  induction h with
  | nil => rfl
  | plain hquote hbackslash _ ih =>
    rw [List.cons_append, unescapeChars_plain hquote hbackslash, ih, List.cons_append]
  | backslash _ ih =>
    rw [List.cons_append, List.cons_append, unescapeChars, ih, List.cons_append]
  | quote hc _ ih =>
    rw [List.cons_append, List.cons_append, unescapeChars_quote hc, ih, List.cons_append]

theorem spells_escape (cs : List Char) : Spells (cs.flatMap escapeChar) cs := by
  induction cs with
  | nil => exact .nil
  | cons c cs ih =>
    rw [List.flatMap_cons]
    by_cases hbackslash : c = '\\'
    · subst hbackslash
      exact .backslash ih
    · by_cases hquote : c = '"'
      · subst hquote
        exact .quote hbackslash ih
      · have hplain : escapeChar c = [c] := by rw [escapeChar, if_neg hbackslash, if_neg hquote]
        rw [hplain]
        exact .plain hquote hbackslash ih

theorem unescape_ofList (cs : List Char) :
    unescape (String.ofList ('"' :: cs)) = String.ofList (unescapeChars cs) := by
  simp only [unescape, String.toList_ofList]

/-- A string that was written with escapes is read back, and what stands behind the backslash of
an escape only matters if it is a backslash. -/
theorem unescape_escape :
    (∀ s trailing : String, unescape ("\"" ++ escape s ++ "\"" ++ trailing) = s) ∧
    ∀ before contents after : List Char, Spells before contents →
      ∀ c c', c ≠ '\\' → c' ≠ '\\' →
        unescape (String.ofList ('"' :: before ++ '\\' :: c' :: after)) =
          unescape (String.ofList ('"' :: before ++ '\\' :: c :: after)) := by
  refine ⟨fun s trailing => ?_, fun before contents after hbefore c c' hc hc' => ?_⟩
  · have htext : "\"" ++ escape s ++ "\"" ++ trailing =
        String.ofList ('"' :: (s.toList.flatMap escapeChar ++ '"' :: trailing.toList)) := by
      rw [← String.toList_inj]
      simp [escape]
    rw [htext, unescape_ofList, (spells_escape s.toList).unescapeChars_append, unescapeChars,
      List.append_nil, String.ofList_toList]
  · rw [List.cons_append, unescape_ofList, List.cons_append, unescape_ofList,
      hbefore.unescapeChars_append, hbefore.unescapeChars_append, unescapeChars_quote hc,
      unescapeChars_quote hc']

/-- Behind two backslashes that are one, the third one escapes. -/
theorem unescape_escape_run :
    Spells ['a', '\\', '\\'] ['a', '\\'] ∧
      unescape "\"a\\\\\\n\"rest" = unescape "\"a\\\\\\\"\"rest" ∧
      unescape "\"a\\\\\\n\"rest" = "a\\\"" := by
  have hbefore : Spells ['a', '\\', '\\'] ['a', '\\'] :=
    .plain (by decide) (by decide) (.backslash .nil)
  have hsame := unescape_escape.2 _ _ ('"' :: "rest".toList) hbefore '"' 'n' (by decide) (by decide)
  have hleft : String.ofList ('"' :: ['a', '\\', '\\'] ++ '\\' :: 'n' :: ('"' :: "rest".toList)) =
      "\"a\\\\\\n\"rest" := by decide
  have hright : String.ofList ('"' :: ['a', '\\', '\\'] ++ '\\' :: '"' :: ('"' :: "rest".toList)) =
      "\"a\\\\\\\"\"rest" := by decide
  exact ⟨hbefore, by rw [← hleft, ← hright]; exact hsame, by decide⟩

end PZero.Analysis
