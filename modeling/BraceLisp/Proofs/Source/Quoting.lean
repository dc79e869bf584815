import BraceLisp.Proofs.Positional.Read
import BraceLisp.Proofs.Positional.Scan
import BraceLisp.Proofs.Text.Stray

/-!
# Text in quotes

Whatever bytes are escaped and put in quotes, the token that is read there is the whole of what was written, and
resolving its escapes gives the bytes again, but for those that were part of no character.
-/

namespace BraceLisp.Escape

open Source Utf8

def quoted (s : Bytes) : Bytes := Bytes.of "\"" ++ escape s ++ Bytes.of "\""

def quotedChars (s : Bytes) : List Char := '"' :: ((decode s).flatMap escapeChar ++ ['"'])

theorem encode_quotedChars (s : Bytes) : encode (quotedChars s) = quoted s := by
  rw [quoted, escape, Bytes.of, quotedChars]
  simp only [encode, List.flatMap_cons, List.flatMap_append]
  rfl

/-- Escapes are resolved to the characters that were escaped. -/
theorem unescape_escape (s : Bytes) : unescape (escape s) = encode (decode s) := by
  rw [escape, unescape_encode, unescapeChars_escape]

/-- A cursor in front of a text in quotes gives all of it as one token. -/
theorem nextToken_quoted (source s : Bytes) (following : List Char) :
    (Cursor.ofText (quotedChars s ++ following)).nextToken source =
      (Token.ofLexeme source .start .string (quotedChars s), ⟨following, Position.start.after (quotedChars s)⟩) := by
  have hskip : (Cursor.ofText (quotedChars s ++ following)).skip (quotedChars s).length =
      ⟨following, Position.start.after (quotedChars s)⟩ := Cursor.skip_eq rfl
  rw [← hskip]
  exact Cursor.nextToken_of_lexeme rfl (Piece.front_string (decode s) following)

/--
What is escaped is read back, with U+FFFD for each byte that is part of no character and every other byte as it was;
text that is UTF-8 is read back as it was. And escaped bytes between quotes are one token, which ends at the second
of the quotes whatever follows. All of this holds as well when texts are taken by position, which does not break down.
-/
theorem undone_and_safe_in_quotes (source s t : Bytes) :
    (∃ parts : List Bytes, parts.length = s.length ∧ unescape (escape s) = parts.flatten ∧
        ∀ i : Fin s.length, InChar s i ∧ parts[i]? = some [s[i]] ∨
          ¬ InChar s i ∧ parts[i]? = some (encodeChar '\uFFFD')) ∧
      (∀ text, unescape (escape (encode text)) = encode text) ∧
      Positional.escapeAll (decode s) = .ok (escape s) ∧
      Positional.unescapeFrom (escape s) 0 = .ok (unescape (escape s)) ∧
      ∃ token after, (Positional.Supplier.ofText (decode (quoted s ++ t))).nextToken source = .ok (token, after) ∧
        (Token.scan source (decode (quoted s ++ t))).head? = some token ∧
        token.kind = .string ∧ encode token.literal = quoted s ∧ token.line = 1 ∧ token.startColumn = 0 ∧
        after.cursor.rest = decode t := by
  refine ⟨⟨rewritten s, length_rewritten s, ?_, ?_⟩, ?_, Positional.escapeAll_eq (decode s),
    Positional.unescapeFrom_eq [] (escape s), ?_⟩
  · rw [unescape_escape, flatten_rewritten]
  · exact fun i => rewritten_getElem? (List.getElem?_eq_getElem i.isLt)
  · intro text
    rw [unescape_escape, decode_encode]
  · have hdecode : decode (quoted s ++ t) = quotedChars s ++ decode t := by
      rw [← encode_quotedChars, decode_encode_append]
    have hnext := nextToken_quoted source s (decode t)
    obtain ⟨after, hafter, hcursor⟩ :=
      Positional.Supplier.nextToken_eq source (.ofText (quotedChars s ++ decode t))
    have hscan : (Token.scan source (quotedChars s ++ decode t)).head? =
        some (Token.ofLexeme source .start .string (quotedChars s)) := by
      rw [Token.scan, quotedChars, Piece.cut_string]
      rfl
    rw [hdecode]
    have htoken := congrArg Prod.fst hnext
    have hrest := congrArg (fun found => found.2.rest) hnext
    refine ⟨_, after, hafter, hscan.trans (congrArg some htoken.symm), ?_, ?_, ?_, ?_, ?_⟩
    · exact congrArg Token.kind htoken
    · exact (congrArg (fun token => encode token.literal) htoken).trans (encode_quotedChars s)
    · exact congrArg Token.line htoken
    · exact congrArg Token.startColumn htoken
    · exact (congrArg Cursor.rest hcursor).trans hrest

/-- A stray byte between a quote and a NUL is the only one that is not read back. -/
example : unescape (escape [0x22, 0xFF, 0x00]) = [0x22, 0xEF, 0xBF, 0xBD, 0x00] := by decide +kernel

end BraceLisp.Escape
