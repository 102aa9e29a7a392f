import ExtendedJson.Proofs.OutsideLiterals

/-!
# The readable style is the compact one with lines

A text is a row of tokens: brackets that have something between them, commas, keys with their colon,
and whatever is written in one piece, which includes empty containers and the wrappers of extended
entries. A token stands at a level, the number of containers with brackets of their own that are open
around it, and the readable style begins a line before some tokens. The tokens are the same in both
styles, and so are the complaints, since the limits of a writer do not look at its style.

No token has a line break in it. So a line break in a readable text always stands in front of a
token, and what stands between them is the indent of the token's level.
-/

namespace ExtendedJson

open Grammar

/-- A token of a written text. -/
structure Token where
  /-- How many arrays and objects that are not empty are open around it. -/
  level : Nat
  /-- Whether the readable style begins a line with it. -/
  ownLine : Bool
  text : List Char

namespace Token

/-- A token with the line break and the indent in front of it, if it has a line of its own. -/
def laidOut (indent : Nat) (token : Token) : List Char :=
  if token.ownLine then '\n' :: (List.replicate (indent * token.level) ' ' ++ token.text)
  else token.text

def render (options : WriterOptions) (token : Token) : List Char :=
  (if token.ownLine then Piece.render options (.lineBreak token.level) else []) ++ token.text

theorem render_readable (indent maxDepth : Nat) :
    render ⟨.readable, indent, maxDepth⟩ = laidOut indent := by
  funext token
  rw [render, laidOut, Piece.render, Nat.mul_comm]
  cases token.ownLine <;> rfl

theorem render_compact (indent maxDepth : Nat) : render ⟨.compact, indent, maxDepth⟩ = text := by
  funext token
  rw [render, Piece.render, ite_self, List.nil_append]

/-- Rows of tokens with a comma between them. -/
def joined (level : Nat) : List (List Token) → List Token
  | [] => []
  | [row] => row
  | row :: rows => row ++ ⟨level, false, [',']⟩ :: joined level rows

def bracketed (level : Nat) (ownLine : Bool) (opening closing : Char) (rows : List (List Token)) :
    List Token :=
  ⟨level, ownLine, [opening]⟩ :: (joined (level + 1) rows ++ [⟨level, true, [closing]⟩])

theorem render_joined (options : WriterOptions) (level : Nat) (rows : List (List Token)) :
    (joined level rows).flatMap (render options) =
      listed (rows.map fun row => row.flatMap (render options)) := by
  induction rows with
  | nil => rfl
  | cons row rows ih =>
      cases rows with
      | nil => rfl
      | cons second rows =>
          rw [joined, List.map_cons, listed_cons _ (by simp), List.flatMap_append,
            List.flatMap_cons, ih]
          · rfl
          · simp

theorem render_bracketed {α : Type} {options : WriterOptions} {parts : List α} (hne : parts ≠ [])
    {row : α → List Token} {pieces : α → List Piece}
    (hrow : ∀ part ∈ parts, (row part).flatMap (render options) = renderPieces options (pieces part))
    (level : Nat) (ownLine : Bool) (opening closing : Char) (marker : Option String) :
    (bracketed level ownLine opening closing (parts.map row)).flatMap (render options) =
      (if ownLine then (lineGap options level).text else []) ++
        renderPieces options (WriteRules.bracketed level opening closing marker
          (WriteRules.separated [] (parts.map pieces))) := by
  have hrows : (parts.map row).map (fun row => row.flatMap (render options)) =
      (parts.map pieces).map (renderPieces options) := by
    rw [List.map_map, List.map_map]
    exact List.map_congr_left hrow
  rw [renderPieces_bracketed options (by simpa using hne), bracketed, List.flatMap_cons,
    List.flatMap_append, render_joined, hrows]
  simp [render, lineGap]

theorem mem_joined {level : Nat} {rows : List (List Token)} {token : Token}
    (h : token ∈ joined level rows) : token.text = [','] ∨ ∃ row ∈ rows, token ∈ row := by
  induction rows with
  | nil => simp [joined] at h
  | cons row rows ih =>
      cases rows with
      | nil => exact .inr ⟨row, by simp, h⟩
      | cons second rows =>
          rw [joined, List.mem_append, List.mem_cons] at h
          · rcases h with h | rfl | h
            · exact .inr ⟨row, by simp, h⟩
            · exact .inl rfl
            · refine (ih h).imp_right ?_
              rintro ⟨row, hrow, htoken⟩
              exact ⟨row, List.mem_cons_of_mem _ hrow, htoken⟩
          · simp

end Token

namespace Entry

mutual

/-- The tokens of an entry around which a number of containers are open. -/
def tokens (level : Nat) (ownLine : Bool) : Entry → List Token
  | .array items =>
    if items.isEmpty then [⟨level, ownLine, ['[', ']']⟩]
    else Token.bracketed level ownLine '[' ']' (itemTokens (level + 1) items)
  | .object ⟨pairs⟩ =>
    if pairs.isEmpty then [⟨level, ownLine, ['\x7b', '\x7d']⟩]
    else Token.bracketed level ownLine '\x7b' '\x7d' (memberTokens (level + 1) pairs)
  | e => [⟨level, ownLine, e.compactText⟩]

def itemTokens (level : Nat) : List Entry → List (List Token)
  | [] => []
  | item :: items => item.tokens level true :: itemTokens level items

def memberTokens (level : Nat) : List (String × Entry) → List (List Token)
  | [] => []
  | (key, value) :: pairs =>
    (⟨level, true, JsonString.quote key.toList ++ [':']⟩ :: value.tokens level false) ::
      memberTokens level pairs

end

def memberRowTokens (level : Nat) (pair : String × Entry) : List Token :=
  ⟨level, true, JsonString.quote pair.1.toList ++ [':']⟩ :: pair.2.tokens level false

variable {level : Nat}

theorem tokens_array {items : List Entry} (h : items ≠ []) (ownLine : Bool) :
    (array items).tokens level ownLine =
      Token.bracketed level ownLine '[' ']' (items.map (tokens (level + 1) true)) := by
  have hitems : itemTokens (level + 1) items = items.map (tokens (level + 1) true) := by
    clear h
    induction items with
    | nil => rfl
    | cons item items ih => rw [itemTokens, ih, List.map_cons]
  rw [tokens, if_neg (by simpa using h), hitems]

theorem tokens_object {pairs : List (String × Entry)} (h : pairs ≠ []) (ownLine : Bool) :
    (object ⟨pairs⟩).tokens level ownLine =
      Token.bracketed level ownLine '\x7b' '\x7d' (pairs.map (memberRowTokens (level + 1))) := by
  have hpairs : memberTokens (level + 1) pairs = pairs.map (memberRowTokens (level + 1)) := by
    clear h
    induction pairs with
    | nil => rfl
    | cons pair pairs ih => rw [memberTokens, ih]; rfl
  rw [tokens, if_neg (by simpa using h), hpairs]

/-- The pieces of an entry are rendered as its tokens, with a line break in front where the entry
stands on a line of its own. -/
theorem render_tokens (options : WriterOptions) (e : Entry) : ∀ level ownLine,
    (e.tokens level ownLine).flatMap (Token.render options) =
      (if ownLine then (lineGap options level).text else []) ++
        renderPieces options (e.layout level) := by
  induction e using byShape with
  | array items ih =>
      intro level ownLine
      by_cases hitems : items = []
      · subst hitems
        exact List.append_assoc _ _ []
      · rw [tokens_array hitems, layout_array hitems]
        refine Token.render_bracketed hitems (fun item hitem => ?_) _ _ _ _ _
        exact ih item hitem (level + 1) true
  | object pairs ih =>
      intro level ownLine
      by_cases hpairs : pairs = []
      · subst hpairs
        exact List.append_assoc _ _ []
      · rw [tokens_object hpairs, layout_object hpairs]
        refine Token.render_bracketed hpairs (fun pair hpair => ?_) _ _ _ _ _
        rw [memberRowTokens, List.flatMap_cons, ih pair hpair, renderPieces_memberRow]
        simp [Token.render, lineGap]
  | null | boolean | number | string | binary | date | time | timestamp =>
      intro level ownLine
      exact List.append_assoc _ _ []

/-! ## Tokens in a text -/

end Entry

namespace Token

/-- A token does not begin with a space, has no line break in it and nothing to be dropped, and ends
outside of literals. -/
structure Proper (token : Token) : Prop where
  whole : Whole token.text
  solid : stripped token.text = token.text
  oneLine : '\n' ∉ token.text
  begins : ∃ first tail, token.text = first :: tail ∧ first ≠ ' '

theorem Proper.of_scanned {token : Token} {opens closes : Nat}
    (h : Scanned token.text token.text opens closes) (honeLine : '\n' ∉ token.text)
    (hbegins : ∃ first tail, token.text = first :: tail ∧ first ≠ ' ') : token.Proper :=
  ⟨h.whole, h.left, honeLine, hbegins⟩

theorem Proper.of_lexeme {token : Token} (h : Lexeme token.text)
    (hbegins : ∃ first tail, token.text = first :: tail ∧ first ≠ ' ') : token.Proper :=
  .of_scanned h.scanned h.oneLine hbegins

theorem Proper.of_bracket {level opens closes : Nat} {ownLine : Bool} {bracket : Char}
    (h : bracket ∈ openingBrackets ++ closingBrackets)
    (hscanned : Scanned [bracket] [bracket] opens closes) :
    Proper ⟨level, ownLine, [bracket]⟩ := by
  obtain ⟨hbreak, hblank⟩ := not_blank_of_bracket h
  exact .of_scanned hscanned (by simpa using hbreak.symm) ⟨bracket, [], rfl, hblank⟩

theorem proper_bracketed {level : Nat} {ownLine : Bool} {opening closing : Char}
    {rows : List (List Token)} (hopening : opening ∈ openingBrackets)
    (hclosing : closing ∈ closingBrackets) (hrows : ∀ row ∈ rows, ∀ token ∈ row, Proper token) :
    ∀ token ∈ bracketed level ownLine opening closing rows, Proper token := by
  rw [bracketed, List.forall_mem_cons, List.forall_mem_append, List.forall_mem_singleton]
  refine ⟨.of_bracket (List.mem_append_left _ hopening) (scanned_opening hopening), ?_,
    .of_bracket (List.mem_append_right _ hclosing) (scanned_closing hclosing)⟩
  intro token htoken
  rcases mem_joined htoken with hcomma | ⟨row, hrow, htoken⟩
  · exact .of_lexeme (hcomma ▸ lexeme_comma) ⟨',', [], hcomma, by decide⟩
  · exact hrows row hrow token htoken

theorem Proper.laidOut {token : Token} (h : token.Proper) (indent : Nat) :
    Whole (token.laidOut indent) ∧ stripped (token.laidOut indent) = token.text := by
  have hindent := scanned_indent (indent * token.level)
  rw [Token.laidOut]
  split
  · rw [← List.cons_append, hindent.whole.stripped_append, hindent.left, h.solid]
    exact ⟨hindent.whole.append h.whole, rfl⟩
  · exact ⟨h.whole, h.solid⟩

theorem stripped_flatMap_laidOut {tokens : List Token} (h : ∀ token ∈ tokens, Proper token)
    (indent : Nat) : stripped (tokens.flatMap (laidOut indent)) = tokens.flatMap text := by
  induction tokens with
  | nil => rfl
  | cons token tokens ih =>
      rw [List.forall_mem_cons] at h
      obtain ⟨hwhole, hstripped⟩ := h.1.laidOut indent
      rw [List.flatMap_cons, List.flatMap_cons, hwhole.stripped_append, hstripped, ih h.2]

theorem exists_of_append_eq {first second before after : List Char} (h : '\n' ∉ first)
    (hsplit : first ++ second = before ++ '\n' :: after) :
    ∃ between, before = first ++ between ∧ second = between ++ '\n' :: after := by
  rcases List.append_eq_append_iff.mp hsplit with ⟨between, hbefore, hsecond⟩ |
    ⟨between, hfirst, hafter⟩
  · exact ⟨between, hbefore, hsecond⟩
  · cases between with
    | nil => exact ⟨[], by simpa using hfirst.symm, by simpa using hafter.symm⟩
    | cons c between =>
        refine absurd ?_ h
        rw [hfirst, (List.cons.inj hafter).1]
        simp

/-- A line break in a readable text stands in front of a token on a line of its own. -/
theorem exists_of_line_break {indent : Nat} {after : List Char} {tokens : List Token}
    (h : ∀ token ∈ tokens, Proper token) : ∀ {before : List Char},
    tokens.flatMap (laidOut indent) = before ++ '\n' :: after →
    ∃ done token todo, tokens = done ++ token :: todo ∧
      before = done.flatMap (laidOut indent) ∧
      after = List.replicate (indent * token.level) ' ' ++ token.text ++
        todo.flatMap (laidOut indent) := by
  induction tokens with
  | nil =>
      intro before hsplit
      simp at hsplit
  | cons token tokens ih =>
      intro before hsplit
      rw [List.forall_mem_cons] at h
      -- unless it is the one in front of this token, it stands behind the token
      have hbehind {gap : List Char} {before : List Char} (hgap : '\n' ∉ gap)
          (hsplit : gap ++ tokens.flatMap (laidOut indent) = before ++ '\n' :: after) :
          ∃ done token todo, tokens = done ++ token :: todo ∧
            before = gap ++ done.flatMap (laidOut indent) ∧
            after = List.replicate (indent * token.level) ' ' ++ token.text ++
              todo.flatMap (laidOut indent) := by
        obtain ⟨between, rfl, hrest⟩ := exists_of_append_eq hgap hsplit
        obtain ⟨done, next, todo, htokens, rfl, hafter⟩ := ih h.2 hrest
        exact ⟨done, next, todo, htokens, rfl, hafter⟩
      rw [List.flatMap_cons] at hsplit
      by_cases howns : token.ownLine
      · have hlaid : token.laidOut indent =
            '\n' :: (List.replicate (indent * token.level) ' ' ++ token.text) := if_pos howns
        rw [hlaid, List.cons_append] at hsplit
        cases before with
        | nil => exact ⟨[], token, tokens, rfl, rfl, (List.cons.inj hsplit).2.symm⟩
        | cons c before =>
            obtain ⟨rfl, hrest⟩ := List.cons.inj hsplit
            obtain ⟨done, next, todo, htokens, rfl, hafter⟩ :=
              hbehind (by simpa using h.1.oneLine) hrest
            refine ⟨token :: done, next, todo, by rw [htokens, List.cons_append], ?_, hafter⟩
            rw [List.flatMap_cons, hlaid, List.cons_append]
      · have hlaid : token.laidOut indent = token.text := if_neg howns
        obtain ⟨done, next, todo, htokens, rfl, hafter⟩ := hbehind (hlaid ▸ h.1.oneLine) hsplit
        exact ⟨token :: done, next, todo, by rw [htokens, List.cons_append], rfl, hafter⟩

end Token

namespace Entry

theorem proper_tokens (e : Entry) : ∀ {level : Nat} {ownLine : Bool},
    ∀ token ∈ e.tokens level ownLine, token.Proper := by
  have hleaf {level : Nat} {ownLine : Bool} (e : Entry) :
      ∀ token ∈ [(⟨level, ownLine, e.compactText⟩ : Token)], token.Proper := by
    rw [List.forall_mem_singleton]
    obtain ⟨first, tail, htext, hsort⟩ := exists_cons_compactText e
    refine .of_lexeme e.lexeme_compactText ⟨first, tail, htext, ?_⟩
    rintro rfl
    cases e with
    | boolean value => cases value <;> exact absurd hsort (by decide)
    | _ => exact absurd hsort (by simp [opening, sortOf])
  induction e using byShape with
  | array items ih =>
      intro level ownLine
      by_cases hitems : items = []
      · subst hitems
        exact hleaf (.array [])
      · rw [tokens_array hitems]
        exact Token.proper_bracketed (by simp) (by simp)
          (List.forall_mem_map.mpr fun item hitem => ih item hitem)
  | object pairs ih =>
      intro level ownLine
      by_cases hpairs : pairs = []
      · subst hpairs
        exact hleaf (.object ⟨[]⟩)
      · rw [tokens_object hpairs]
        refine Token.proper_bracketed (by simp) (by simp)
          (List.forall_mem_map.mpr fun pair hpair => ?_)
        rw [memberRowTokens, List.forall_mem_cons]
        exact ⟨.of_lexeme (lexeme_key _) ⟨'"', _, rfl, by decide⟩, ih pair hpair⟩
  | null | boolean | number | string | binary | date | time | timestamp =>
      exact fun {level ownLine} => hleaf _

/-- Both styles fail with one complaint, or both succeed with texts of the same tokens. The compact
text is what is left of the readable one without its blanks outside of literals. Line breaks stand in
front of tokens and never within one, and the spaces behind a line break are the indent of the token
that follows: once for each array or object that is not empty and open around it. -/
theorem readable_is_compact_with_lines (e : Entry) (indent other maxDepth : Nat) :
    (∃ error, e.write ⟨.readable, indent, maxDepth⟩ = .error error ∧
      e.write ⟨.compact, other, maxDepth⟩ = .error error) ∨
    ∃ readable compact, e.write ⟨.readable, indent, maxDepth⟩ = .ok readable ∧
      e.write ⟨.compact, other, maxDepth⟩ = .ok compact ∧
      stripped readable.toList = compact.toList ∧
      compact.toList = (e.tokens 0 false).flatMap Token.text ∧
      readable.toList = (e.tokens 0 false).flatMap (Token.laidOut indent) ∧
      (∀ token ∈ e.tokens 0 false, token.Proper) ∧
      ∀ before after, readable.toList = before ++ '\n' :: after →
        ∃ done token todo, e.tokens 0 false = done ++ token :: todo ∧
          before = done.flatMap (Token.laidOut indent) ∧
          after = List.replicate (indent * token.level) ' ' ++ token.text ++
            todo.flatMap (Token.laidOut indent) := by
  have hrender (options : WriterOptions) :
      renderPieces options (e.layout 0) = (e.tokens 0 false).flatMap (Token.render options) :=
    (render_tokens options e 0 false).symm
  have hproper : ∀ token ∈ e.tokens 0 false, token.Proper := e.proper_tokens
  cases hreadable : e.write ⟨.readable, indent, maxDepth⟩ with
  | error error =>
      have hrefused := write_eq_error_iff.mp hreadable
      exact .inl ⟨error, rfl, write_eq_error_iff.mpr hrefused⟩
  | ok readable =>
      obtain ⟨hplain, hdepth, rfl⟩ := write_eq_ok_iff.mp hreadable
      refine .inr ⟨_, _, rfl, write_eq_ok_iff.mpr ⟨hplain, hdepth, rfl⟩, ?_⟩
      simp only [String.toList_ofList, hrender, Token.render_readable, Token.render_compact]
      exact ⟨Token.stripped_flatMap_laidOut hproper indent, trivial, trivial, hproper,
        fun before after => Token.exists_of_line_break hproper⟩

example : ((array [.array [], .object ⟨[("a", .null)]⟩]).tokens 0 false).flatMap
    (Token.laidOut 2) = "[\n  [],\n  \x7b\n    \"a\":null\n  \x7d\n]".toList := by
  decide

end Entry

end ExtendedJson
