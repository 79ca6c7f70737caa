import Offside.Token.Lexer

/-! The tokens of a whole source, in the order in which the lexer delivers them, up to the end of the
source or to the first failure. -/

namespace Offside

structure Lexeme where
  token : Token
  line : Nat
  event : Option Event

structure LexFailure where
  error : LexError
  event : Option Event

structure TokenStream where
  lexemes : List Lexeme
  failure : Option LexFailure

namespace TokenStream

def drain : Nat → Lexer → TokenStream
  | 0, _ => ⟨[], none⟩
  | calls + 1, lexer =>
    match lexer.next with
    | (.error error, _) => ⟨[], some ⟨error, lexer.upcoming?⟩⟩
    | (.ok token, after) =>
      let lexeme : Lexeme := ⟨token, after.lineNumber, lexer.upcoming?⟩
      if token = .eof then ⟨[lexeme], none⟩
      else
        let more := drain calls after
        ⟨lexeme :: more.lexemes, more.failure⟩

def ofSource (source : Source) : TokenStream := drain (source.weight + 1) (Lexer.ofSource source)

def tokens (stream : TokenStream) : List Token := stream.lexemes.map (·.token)

end TokenStream

def Source.tokens (source : Source) : Except LexError (List Token) :=
  let stream := TokenStream.ofSource source
  match stream.failure with
  | some failure => .error failure.error
  | none => .ok stream.tokens

end Offside
