import PyAtlas.Proofs.Token.Steps

/-!
# Identifiers and the words of the lexer

Whether a text is an identifier is said by `Text.isIdentifier`, which looks at all of it. The lexer
finds names in another way: numbers and literals come first, then as many letters as there are make
a word, which may be reserved. Both have the same words. A token of letters has an identifier for
its text, wherever it stands, and an identifier on its own is read as one token of letters.

## Key definitions
- `TokenKind.isLetters`: the kinds of identifiers and reserved words.
- `Lexer.Front.TakesLetters`: a word takes all the letters that there are.

## Key results
- `Lexer.front_takesLetters`: nothing but letters is read as an identifier or a reserved word.
- `isIdentifier_of_mem_tokenize`: the texts of these tokens are identifiers.
- `tokenize_of_isIdentifier`: the tokens of an identifier.
- `isIdentifier_iff_tokenize`: a text is an identifier if it is one token of letters.
-/

namespace PyAtlas

/-- The tokens that are made of letters are identifiers and reserved words. -/
def TokenKind.isLetters : TokenKind → Bool
  | .identifier | .keyword _ => true
  | _ => false

theorem TokenKind.isLetters_iff {kind : TokenKind} :
    kind.isLetters = true ↔ kind = .identifier ∨ ∃ word, kind = .keyword word := by
  cases kind <;> simp [isLetters]

theorem TokenKind.isWord_of_isLetters {kind : TokenKind} (h : kind.isLetters = true) :
    kind.isWord = true := by
  rcases isLetters_iff.1 h with rfl | ⟨word, rfl⟩ <;> rfl

namespace Lexer

/-! ### Letters at the front of a text -/

/-- Where a token of letters is read, it has all the letters that stand there. -/
def Front.TakesLetters (first : Char) (cs : List Char) : Front → Prop
  | .token kind more => kind.isLetters = true →
      Text.isIdentStart first = true ∧ more = countWhile Text.isIdentPart cs
  | .skipped _ => True

theorem isLetters_wordKind (v : Version) (word : String) : (wordKind v word).isLetters = true := by
  rcases wordKind_cases v word with hkind | ⟨_, hkind⟩ <;> rw [hkind] <;> rfl

/-- Nothing but letters is read as an identifier or a reserved word. -/
theorem front_takesLetters (v : Version) (depth : Nat) (first : Char) (cs : List Char) :
    (front v depth first cs).TakesLetters first cs := by
  have hoperators : ∀ entry ∈ operators, entry.2.isLetters = false := by decide
  cases hfront : front v depth first cs with
  | skipped more => trivial
  | token kind more =>
    intro hletters
    cases frontToken_of_front hfront with
    | identifier hfirst => exact ⟨hfirst, rfl⟩
    | keyword _ hfirst => exact ⟨hfirst, rfl⟩
    | operator hentry _ =>
      rw [hoperators _ hentry] at hletters
      cases hletters
    | _ => cases hletters

end Lexer

/-! ### The tokens of identifiers -/

/-- The text of a token of letters is an identifier. -/
theorem isIdentifier_of_mem_tokenize {v : Version} {source : String} {t : Token}
    (h : t ∈ tokenize v source) (hletters : t.kind.isLetters = true) :
    Text.isIdentifier t.text = true := by
  obtain ⟨-, first, cs, depth, more, -, -, hfront, htext⟩ :=
    Lexer.exists_front_of_mem_tokenize h (TokenKind.isWord_of_isLetters hletters)
  have htakes := Lexer.front_takesLetters v depth first cs
  rw [hfront] at htakes
  obtain ⟨hfirst, rfl⟩ := htakes hletters
  rw [List.take_succ_cons] at htext
  exact Text.isIdentifier_iff.2 ⟨first, _, htext, hfirst, fun _ => Lexer.of_mem_take_countWhile⟩

open Lexer in
/-- An identifier is one token, which is followed by the end of the line and that of the text. -/
theorem tokenize_of_isIdentifier (v : Version) {name : String} (h : Text.isIdentifier name = true) :
    let size := name.utf8ByteSize
    tokenize v name
      = [⟨wordKind v name, ⟨0, size⟩, name⟩, ⟨.newline, ⟨size, size⟩, ""⟩, .endOfInput size] := by
  have hstands : StandsBefore v ⟨wordKind v name, name⟩ [] := standsBefore_ofText v h rfl
  obtain ⟨⟨first, cs, htext, hstarts, hfront⟩, hplain⟩ := hstands
  simp only [List.append_nil] at hfront hplain
  have hnewline : (wordKind v name == .newline) = false :=
    beq_false_of_ne fun heq => by rw [heq] at hplain; cases hplain
  have hsize : Text.byteSize (first :: cs) = name.utf8ByteSize := by
    rw [← htext, Text.byteSize_toList]
  have hword : Input.token ⟨0, first :: cs⟩ (wordKind v name) (cs.length + 1)
      = ⟨wordKind v name, ⟨0, name.utf8ByteSize⟩, name⟩ := by
    have hname : String.ofList (first :: cs) = name := by rw [← htext, String.ofList_toList]
    simp [Input.token, Input.advance, hsize, hname]
  rw [tokenize, Input.ofChars, htext,
    run_flush v (flush_of_startsWord hstarts cs) (List.forall_mem_nil _) rfl rfl,
    run_cons v .initial rfl, hfront]
  simp only [hnewline, hword]
  -- Behind the word nothing is left but to end its line, in which no bracket and no block is open.
  rw [run_nil v _ (by simp [Input.advance]), finish]
  have hopen : (Layout.initial.after (wordKind v name)).lineOpen = true := by
    simp [Layout.after, show (wordKind v name).isLayout = false from hplain]
  rw [hopen]
  simp [Layout.after, Layout.initial, Input.advance, hsize]

/-- A text is an identifier if and only if it is read as one token of letters. -/
theorem isIdentifier_iff_tokenize (v : Version) (name : String) :
    let size := name.utf8ByteSize
    Text.isIdentifier name = true ↔
      ∃ kind, (kind = .identifier ∨ ∃ word, kind = .keyword word) ∧ tokenize v name
        = [⟨kind, ⟨0, size⟩, name⟩, ⟨.newline, ⟨size, size⟩, ""⟩, .endOfInput size] := by
  refine ⟨fun h => ?_, fun ⟨kind, hkind, htokens⟩ => ?_⟩
  · exact ⟨_, TokenKind.isLetters_iff.1 (Lexer.isLetters_wordKind v name),
      tokenize_of_isIdentifier v h⟩
  · have hmem : ⟨kind, ⟨0, name.utf8ByteSize⟩, name⟩ ∈ tokenize v name := by
      rw [htokens]
      exact List.mem_cons_self
    exact isIdentifier_of_mem_tokenize hmem (TokenKind.isLetters_iff.2 hkind)

end PyAtlas
