import EcmaLex.Proofs.Embedding

/-!
# Interpolations that the end of the source leaves open

A lexer that has come to the end of its source says nothing of what is still open there. The depth of the
nesting says how much it is, `depth_calls`: one more than the templates that have been begun and not ended. Any
source that is read to its end is read to its end behind the opening of an interpolation as well, in a template
that is never closed, `tokenize_unclosed`.
-/

namespace EcmaLex

open Template

/-- A token that the nesting admits changes the depth by the interpolation that it opens or ends. -/
theorem Nesting.depth_nestingAfter {nesting : Nesting} {kind : TokenKind} (h : nesting.Admits kind) :
    (Context.nestingAfter nesting kind).depth + [kind].count .templateEnd =
      nesting.depth + [kind].count .templateStart := by
  cases kind with
  | templateEnd =>
    obtain ⟨hopen, -⟩ := Nesting.atInterpolationEnd_iff.1 h
    obtain ⟨top, outer, hcons⟩ := List.exists_cons_of_ne_nil hopen
    show nesting.leave.depth + 1 = nesting.depth
    rw [depth, depth, leave, hcons]
    rfl
  | rightBrace =>
    show nesting.closeBrace.depth = nesting.depth
    rw [closeBrace, closeBrace?]
    split <;> rfl
  | _ => rfl

/-- Whatever is called how often, the depth counts the templates begun and not ended. -/
theorem depth_calls (source : Text) (settings : Settings) (n : Nat) :
    let kinds := ((Lexer.ofText source settings).calls n).1.map Token.kind
    ((Lexer.ofText source settings).calls n).2.context.nesting.depth + kinds.count .templateEnd =
      1 + kinds.count .templateStart := by
  refine Lexer.calls_induction
    (P := fun tokens _ context =>
      context.nesting.depth + (tokens.map Token.kind).count .templateEnd =
        1 + (tokens.map Token.kind).count .templateStart) rfl ?_ n
  intro tokens now kind lexeme rest h _ hselect
  obtain ⟨rule, hmem, -, hguard, haction, -⟩ := exists_of_select hselect
  have hdepth := Nesting.depth_nestingAfter (admits_of_guard _ rule hmem hguard kind haction)
  have hkinds : (tokens ++ [now.tokenOf kind lexeme]).map Token.kind =
      tokens.map Token.kind ++ [kind] := List.map_append
  rw [hkinds, List.count_append, List.count_append, Context.nesting_observe]
  omega

/-- A source on its own lines behind the opening of an interpolation, in a template that is not closed. -/
def unclosed (chunk source : Text) : Text :=
  backquote :: (chunk ++ (Stop.interpolation.mark ++ '\n' :: source))

/-- Behind the opening of an interpolation a source is read as it is by itself, up to its end. -/
theorem Lexer.Emits.unclosed {source : Text} {settings : Settings} {tokens : List Token} {last : Lexer}
    (h : Emits (ofText source settings) tokens last) {chunk : Text} (hplain : Plain chunk = true)
    (hes2015 : settings.edition.includes .es2015 = true)
    (hlimit : tokens.length + 2 ≤ settings.iterationLimit.toNat) :
    ∃ after, Gives (ofText (EcmaLex.unclosed chunk source) settings)
        ((.templateStart, backquote :: (chunk ++ ['$', '{'])) :: (.lineEnd, ['\n']) ::
          tokens.map Token.form) after ∧
      after.cursor.rest = last.cursor.rest ∧ after.context.Inside last.context [0] := by
  have hes5 : settings.edition.includes .es5 = true := Edition.includes_of_le hes2015 (by decide)
  have hallows : (ofText (EcmaLex.unclosed chunk source) settings).Allows (tokens.length + 1 + 1) := by
    refine ⟨rfl, ?_⟩
    show 0 + (tokens.length + 1 + 1) ≤ settings.iterationLimit.toNat
    omega
  -- the opening of the interpolation
  have hopening : (ofText (EcmaLex.unclosed chunk source) settings).selection = some
      { action := .emit .templateStart
        lexeme := backquote :: (chunk ++ ['$', '{'])
        rest := '\n' :: source } :=
    select_embed hes2015 _ hplain .interpolation _
  obtain ⟨first, hgives₁, hrest₁, hcontext₁, hsettings₁, hallows₁⟩ :=
    exists_gives_of_selection hallows hopening
  -- the line feed after it
  obtain ⟨second, hgives₂, hrest₂, hcontext₂, hsettings₂, hallows₂⟩ :=
    exists_gives_of_selection hallows₁
      (selection_lineFeed hes5 (congrArg Settings.edition hsettings₁) hrest₁)
  have hinside : second.context.Inside Context.initial [0] := by
    rw [hcontext₂, hcontext₁]
    exact (stoppedAt_firstKind .interpolation).inside
  -- the source
  obtain ⟨after, hgives₃, hrest₃, hinside₃, -, -⟩ :=
    @Emits.inside _ _ _ _ h hes5 (congrArg Settings.edition (hsettings₂.trans hsettings₁)) _ hinside
      hrest₂ 0 hallows₂
  exact ⟨after, hgives₁.append (hgives₂.append hgives₃), hrest₃, hinside₃⟩

/-- A source that is read to its end has as many interpolations open there as templates have been begun in it
and not ended. However many these are, the end is no fault: behind the opening of one more the source is read
to its end in the same tokens, and leaves one more open. -/
theorem tokenize_unclosed {source : Text} {settings : Settings} {tokens : List Token}
    (h : tokenize source settings = .ok tokens) :
    let depthAtEnd (source : Text) :=
      (Lexer.ofText source settings).run.final.context.nesting.depth
    depthAtEnd source + (tokens.map Token.kind).count .templateEnd =
      1 + (tokens.map Token.kind).count .templateStart ∧
    ∀ chunk, Plain chunk = true → settings.edition.includes .es2015 = true →
      tokens.length + 2 ≤ settings.iterationLimit.toNat →
      ∃ more, tokenize (unclosed chunk source) settings = .ok more ∧
        more.map Token.form =
          (.templateStart, backquote :: (chunk ++ ['$', '{'])) :: (.lineEnd, ['\n']) ::
            tokens.map Token.form ∧
        depthAtEnd (unclosed chunk source) = depthAtEnd source + 1 := by
  intro depthAtEnd
  obtain ⟨last, hemits, hrest⟩ := Lexer.tokenize_eq_ok_iff.1 h
  have hdepth : depthAtEnd source = last.context.nesting.depth :=
    congrArg (·.nesting.depth) (hemits.context_final hrest)
  constructor
  · have hcalls := depth_calls source settings tokens.length
    rw [hemits.calls_length] at hcalls
    rw [hdepth]
    exact hcalls
  · intro chunk hplain hes2015 hlimit
    obtain ⟨after, ⟨more, hmore, hforms⟩, hend, hinside⟩ := hemits.unclosed hplain hes2015 hlimit
    rw [hrest] at hend
    refine ⟨more, Lexer.tokenize_eq_ok_iff.2 ⟨after, hmore, hend⟩, hforms, ?_⟩
    have hafter : depthAtEnd (unclosed chunk source) = after.context.nesting.depth :=
      congrArg (·.nesting.depth) (hmore.context_final hend)
    rw [hafter, hdepth, Nesting.depth, Nesting.depth, hinside.outer, List.length_append]
    rfl

/-- A name is accepted as the code of an interpolation that is not ended. -/
theorem tokenize_unclosed_name :
    ∃ tokens more,
      tokenize ['b'] { edition := .es2015 } = .ok tokens ∧
      tokenize (unclosed ['a'] ['b']) { edition := .es2015 } = .ok more ∧
      more.map Token.form =
        [(.templateStart, [backquote, 'a', '$', '{']), (.lineEnd, ['\n']), (.identifier, ['b'])] ∧
      (Lexer.ofText (unclosed ['a'] ['b']) { edition := .es2015 }).run.final.context.nesting.depth =
        2 := by
  have h : tokenize ['b'] { edition := .es2015 } = .ok [⟨.identifier, ['b'], ⟨0, 1, ⟨1, 1⟩⟩⟩] :=
    Lexer.Run.result_eq_ok_iff.2 ⟨by decide +kernel, by decide +kernel⟩
  obtain ⟨-, hopened⟩ := tokenize_unclosed h
  obtain ⟨more, hmore, hforms, hdepth⟩ := hopened ['a'] (by decide) (by decide) (by decide)
  exact ⟨_, more, h, hmore, hforms, hdepth.trans (by decide +kernel)⟩

/-- A source that ends right behind the opening of an interpolation is accepted, with the interpolation open and
no end of the template among its tokens. -/
theorem tokenize_ok_unclosed :
    let source : Text := [backquote, 'a', '$', '{']
    tokenize source { edition := .es2015 } = .ok [⟨.templateStart, source, ⟨0, 4, ⟨1, 1⟩⟩⟩] ∧
    (Lexer.ofText source { edition := .es2015 }).run.final.context.nesting.depth = 2 :=
  ⟨Lexer.Run.result_eq_ok_iff.2 ⟨by decide +kernel, by decide +kernel⟩, by decide +kernel⟩

end EcmaLex
