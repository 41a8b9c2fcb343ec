import EcmaLex.Proofs.Run

/-!
# The context as a memory of the tokens

What the context knows of the tokens so far can be read off them: the kind of the nearest token that is
not trivia, and whether it can end an expression. Whitespace, line ends and comments leave no trace in
either. `Recalls` says so for a context, and every call keeps it.
-/

namespace EcmaLex

/-- The kind of the last token that is not trivia. -/
def Token.lastSignificant (tokens : List Token) : Option TokenKind :=
  (tokens.filter fun token => !token.isTrivia).getLast?.map Token.kind

theorem Token.lastSignificant_concat (tokens : List Token) (token : Token) :
    lastSignificant (tokens ++ [token]) =
      if token.isTrivia then lastSignificant tokens else some token.kind := by
  unfold lastSignificant
  rw [List.filter_append]
  cases h : token.isTrivia <;> simp [h]

namespace Context

/-- The context holds of the tokens so far what decides on a slash or a word. -/
structure Recalls (context : Context) (tokens : List Token) : Prop where
  lastSignificant_eq : context.lastSignificant = Token.lastSignificant tokens
  expression_eq : context.expression = (Token.lastSignificant tokens).any TokenKind.endsExpression

theorem recalls_initial : Recalls .initial [] := ⟨rfl, rfl⟩

theorem observe_of_isTrivia {kind : TokenKind} (h : kind.isTrivia = true) (context : Context) :
    (context.observe kind).lastSignificant = context.lastSignificant ∧
      (context.observe kind).expression = context.expression := by
  cases kind <;> first | exact ⟨rfl, rfl⟩ | cases h

theorem observe_of_not_isTrivia {kind : TokenKind} (h : kind.isTrivia = false) (context : Context) :
    (context.observe kind).lastSignificant = some kind ∧
      (context.observe kind).expression = kind.endsExpression := by
  cases kind <;> first | exact ⟨rfl, rfl⟩ | cases h

theorem Recalls.observe {context : Context} {tokens : List Token} (h : context.Recalls tokens)
    (token : Token) : (context.observe token.kind).Recalls (tokens ++ [token]) := by
  cases htrivia : token.isTrivia with
  | true =>
    obtain ⟨hlast, hexpression⟩ := observe_of_isTrivia htrivia context
    constructor
    · rw [Token.lastSignificant_concat, if_pos htrivia, hlast, h.lastSignificant_eq]
    · rw [Token.lastSignificant_concat, if_pos htrivia, hexpression, h.expression_eq]
  | false =>
    obtain ⟨hlast, hexpression⟩ := observe_of_not_isTrivia htrivia context
    have hnow : Token.lastSignificant (tokens ++ [token]) = some token.kind := by
      rw [Token.lastSignificant_concat, htrivia]
      rfl
    constructor
    · rw [hnow, hlast]
    · rw [hnow, hexpression, Option.any_some]

end Context

/-- After every row of tokens the context recalls them. -/
theorem Lexer.Emits.recalls {source : Text} {settings : Settings} {tokens : List Token}
    {after : Lexer} (h : Emits (ofText source settings) tokens after) :
    after.context.Recalls tokens :=
  h.induction (P := fun tokens _ context => context.Recalls tokens) Context.recalls_initial
    fun {_ now kind lexeme _} h _ _ => h.observe (now.tokenOf kind lexeme)

end EcmaLex
