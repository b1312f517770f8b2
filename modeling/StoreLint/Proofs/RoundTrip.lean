import StoreLint.Proofs.Flattening

/-!
# Printing and reading again

The printer puts no brackets where the tree has none, and in the short layout it leaves out every
blank that it can.  This file shows that nothing runs together all the same: in every layout, a
printed program is cut into the tokens of its tree.  So reading it again gives the same tree.

* `Expr.scans_print`, `Block.scans_print`: a printed tree, with a text behind it that continues no
  lexeme, gives the tokens of the tree and then those of the text.
* `parse_print_roundtrip`: reading a printed program gives the program up to places, and formatting
  twice is formatting once.
-/

namespace StoreLint

/-! ## Blanks and signs -/

namespace Layout

variable {l : Layout} {rest : Bytes} {ts : List Token}

theorem apart_newline (depth : Nat) (rest : Bytes) : Apart (l.newline depth ++ rest) := by
  unfold newline
  split
  · exact .cons _ (by decide)
  · exact .cons _ (by decide)

theorem scans_spaces (n : Nat) (h : Scans rest ts) : Scans (List.replicate n 0x20 ++ rest) ts := by
  induction n with
  | zero => exact h
  | succ n ih => exact ih.space

theorem scans_newline (depth : Nat) (h : Scans rest ts) : Scans (l.newline depth ++ rest) ts := by
  unfold newline
  split
  · exact h.space
  · rw [unit, List.flatten_replicate_replicate]
    exact (scans_spaces _ h).lineFeed

theorem apart_sign {text : String} {b : UInt8} {kind : Token.Kind} (htext : utf8 text = [b])
    (known : signKind? b = some kind) (rest : Bytes) : Apart (l.sign text ++ rest) := by
  unfold sign
  rw [htext]
  split
  · exact .cons _ (not_word_of_sign known)
  · exact .cons _ (by decide)

/-- A sign is a token with and without blanks around it. -/
theorem scans_sign {text : String} {b : UInt8} {kind : Token.Kind} (htext : utf8 text = [b])
    (known : signKind? b = some kind) (h : Scans rest ts) :
    Scans (l.sign text ++ rest) (.ofKind kind :: ts) := by
  unfold sign
  rw [htext, Token.ofKind, ← (signKind?_eq_some known).2]
  split
  · exact h.sign known
  · exact (h.space.sign known).space

end Layout

/-! ## Trees -/

/-- The sign of an operator is the text of its kind. -/
theorem Operator.exists_sign {op : Operator} (h : op.kind.isRead = true) :
    ∃ b, utf8 op.sign = [b] ∧ signKind? b = some op.kind := by
  cases op with
  | unknown => cases h
  | _ => exact ⟨_, rfl, rfl⟩

/-- A printed expression is cut into its tokens. -/
theorem Expr.scans_print (l : Layout) {e : Expr}
    (lexical : ∀ t ∈ e.tokens, Lexical t.kind t.value) {rest : Bytes} {ts : List Token}
    (apart : Apart rest) (h : Scans rest ts) : Scans (e.print l ++ rest) (e.tokens ++ ts) := by
  induction e generalizing rest ts with
  | missing => exact h
  | number text value =>
      by_cases hminus : text.head? = some 0x2D
      · -- nothing can continue a sign, so the digits are cut off from the minus
        obtain ⟨digits, rfl⟩ := List.head?_eq_some_iff.1 hminus
        have hdigits : Lexical .number digits := lexical (.ofNumeral digits) (.tail _ (.head _))
        exact (h.lexeme hdigits apart).sign rfl
      · rw [tokens, literalTokens, if_neg hminus] at lexical ⊢
        exact h.lexeme (lexical _ (.head _)) apart
  | «variable» name => exact h.lexeme (lexical _ (.head _)) apart
  | bracket inner ih =>
      have hinner : ∀ t ∈ inner.tokens, Lexical t.kind t.value :=
        fun t ht => lexical t (by simp [tokens, ht])
      have hclose : Scans (utf8 ")" ++ rest) (.ofKind .closeBracket :: ts) := h.sign rfl
      have hprint := ih hinner (.cons _ (by decide)) hclose
      simp only [print, tokens, List.append_assoc, List.cons_append]
      exact hprint.sign rfl
  | binary left op right ihleft ihright =>
      have hleft : ∀ t ∈ left.tokens, Lexical t.kind t.value :=
        fun t ht => lexical t (by simp [tokens, ht])
      have hright : ∀ t ∈ right.tokens, Lexical t.kind t.value :=
        fun t ht => lexical t (by simp [tokens, ht])
      have hop : Lexical op.kind _ := lexical (.ofKind op.kind) (by simp [tokens])
      obtain ⟨b, hsign, known⟩ := Operator.exists_sign hop.isRead
      have hrest := l.scans_sign hsign known (ihright hright apart h)
      have hprint := ihleft hleft (l.apart_sign hsign known _) hrest
      simpa [print, tokens] using hprint

namespace Block

variable {l : Layout} {depth : Nat} {text : Bytes} {ts : List Token}

/-- What stands behind a statement continues no lexeme. -/
theorem apart_after (rest : Block) (apart : Apart text) :
    Apart (rest.separator l depth ++ (rest.print l depth ++ text)) := by
  cases rest with
  | empty => exact apart
  | _ => exact l.apart_newline depth _

theorem scans_separator (rest : Block) (h : Scans text ts) :
    Scans (rest.separator l depth ++ text) ts := by
  unfold separator
  split
  · exact h
  · exact l.scans_newline depth h

/-- The second branch of an `if`, if it has one. -/
theorem scans_otherwise {no : Block} (h : Scans text ts)
    (hno : no.isEmpty = false →
      Scans (no.print l (depth + 1) ++ (l.newline depth ++ text)) (no.tokens ++ ts)) :
    Scans ((if no.isEmpty then []
        else utf8 "else" ++ l.newline (depth + 1) ++ no.print l (depth + 1) ++
          l.newline depth) ++ text)
      ((if no.isEmpty then [] else .ofKind .elseWord :: no.tokens) ++ ts) := by
  cases hempty : no.isEmpty with
  | true => exact h
  | false =>
      have helse : Scans (utf8 "else" ++ _) (.ofKind .elseWord :: _) :=
        (l.scans_newline (depth + 1) (hno hempty)).lexeme (.keyword rfl)
          (l.apart_newline (depth + 1) _)
      simpa using helse

/-- A printed program is cut into its tokens. -/
theorem scans_print {b : Block} (lexical : ∀ t ∈ b.tokens, Lexical t.kind t.value) (depth : Nat)
    {text : Bytes} {ts : List Token} (apart : Apart text) (h : Scans text ts) :
    Scans (b.print l depth ++ text) (b.tokens ++ ts) := by
  -- each case puts the text together from its end, since a lexeme ends where the text behind it
  -- does not continue it
  induction b generalizing depth text ts with
  | empty => exact h
  | assign write rest ih =>
      have htarget : Lexical .variable [write.target] := lexical _ (.head _)
      have hvalue : ∀ t ∈ write.value.tokens, Lexical t.kind t.value :=
        fun t ht => lexical t (by simp [tokens, ht])
      have hrest : ∀ t ∈ rest.tokens, Lexical t.kind t.value :=
        fun t ht => lexical t (by simp [tokens, ht])
      have hafter : Scans (rest.separator l depth ++ (rest.print l depth ++ text))
          (rest.tokens ++ ts) := scans_separator rest (ih hrest depth apart h)
      have hprint := Expr.scans_print l hvalue (apart_after rest apart) hafter
      have hassign : Scans (l.sign "=" ++ _) (.ofKind .assign :: _) :=
        l.scans_sign (b := 0x3D) rfl rfl hprint
      simp only [print, Assign.print, tokens, List.append_assoc, List.cons_append]
      exact hassign.lexeme htarget (l.apart_sign (b := 0x3D) rfl rfl _)
  | branch line cond yes no rest ihyes ihno ih =>
      have hcond : ∀ t ∈ cond.tokens, Lexical t.kind t.value :=
        fun t ht => lexical t (by simp [tokens, ht])
      have hyes : ∀ t ∈ yes.tokens, Lexical t.kind t.value :=
        fun t ht => lexical t (by simp [tokens, ht])
      have hno (hsome : no.isEmpty = false) : ∀ t ∈ no.tokens, Lexical t.kind t.value :=
        fun t ht => lexical t (by simp [tokens, hsome, ht])
      have hrest : ∀ t ∈ rest.tokens, Lexical t.kind t.value :=
        fun t ht => lexical t (by simp [tokens, ht])
      have hafter : Scans (rest.separator l depth ++ (rest.print l depth ++ text))
          (rest.tokens ++ ts) := scans_separator rest (ih hrest depth apart h)
      have hend : Scans (utf8 "end" ++ _) (.ofKind .endWord :: _) :=
        hafter.lexeme (.keyword rfl) (apart_after rest apart)
      have hotherwise := scans_otherwise hend fun hsome =>
        ihno (hno hsome) (depth + 1) (l.apart_newline depth _) (l.scans_newline depth hend)
      have hbody := ihyes hyes (depth + 1) (l.apart_newline depth _)
        (l.scans_newline depth hotherwise)
      have hprint := Expr.scans_print l hcond (l.apart_newline (depth + 1) _)
        (l.scans_newline (depth + 1) hbody)
      have hif : Scans (utf8 "if" ++ 0x20 :: _) (.ofKind .ifWord :: _) :=
        hprint.space.lexeme (.keyword rfl) (.cons _ (by decide))
      simp only [print, tokens, List.append_assoc, List.cons_append] at hif ⊢
      exact hif
  | loop line cond body rest ihbody ih =>
      have hcond : ∀ t ∈ cond.tokens, Lexical t.kind t.value :=
        fun t ht => lexical t (by simp [tokens, ht])
      have hbody : ∀ t ∈ body.tokens, Lexical t.kind t.value :=
        fun t ht => lexical t (by simp [tokens, ht])
      have hrest : ∀ t ∈ rest.tokens, Lexical t.kind t.value :=
        fun t ht => lexical t (by simp [tokens, ht])
      have hafter : Scans (rest.separator l depth ++ (rest.print l depth ++ text))
          (rest.tokens ++ ts) := scans_separator rest (ih hrest depth apart h)
      have hend : Scans (utf8 "end" ++ _) (.ofKind .endWord :: _) :=
        hafter.lexeme (.keyword rfl) (apart_after rest apart)
      have hinside := ihbody hbody (depth + 1) (l.apart_newline depth _)
        (l.scans_newline depth hend)
      have hprint := Expr.scans_print l hcond (l.apart_newline (depth + 1) _)
        (l.scans_newline (depth + 1) hinside)
      have hwhile : Scans (utf8 "while" ++ 0x20 :: _) (.ofKind .whileWord :: _) :=
        hprint.space.lexeme (.keyword rfl) (.cons _ (by decide))
      simp only [print, tokens, List.append_assoc, List.cons_append]
      exact hwhile
  | missing rest ih =>
      simp only [print, tokens, List.append_assoc]
      exact scans_separator rest (ih lexical depth apart h)

end Block

/-- A printed program is cut into its tokens, with the end of its last line. -/
theorem Layout.scans_program (l : Layout) {b : Block}
    (lexical : ∀ t ∈ b.tokens, Lexical t.kind t.value) : Scans (l.program b) b.tokens := by
  unfold program
  split
  · simpa using b.scans_print lexical 0 .nil .nil
  · simpa using b.scans_print lexical 0 (.cons _ (by decide)) Scans.nil.lineFeed

/-! ## Reading again -/

theorem Layout.format_of_parse {source : Bytes} {p : Block} (h : parseSource source = .ok p)
    (l : Layout) : l.format source = .ok (l.program p) := by
  rw [format, h]
  rfl

/-- A printed program is read as the same program, up to places.  So it prints in any layout as
before, and formatting in one layout and then in another is formatting in the other. -/
theorem parse_print_roundtrip {source : Bytes} {p : Block} (h : parseSource source = .ok p)
    (l : Layout) :
    ∃ q, parseSource (l.program p) = .ok q ∧ q.unplaced = p.unplaced ∧
      ∀ m : Layout, m.program q = m.program p ∧
        (l.format source >>= m.format) = m.format source := by
  obtain ⟨ts, htokenize, hparse⟩ := parseSource_ok_iff.1 h
  have hlexical := (tokenize_ok_iff.1 htokenize).lexical
  have htokens := (writtenAs_of_tokenize htokenize hparse).tokens_eq hlexical
  have hprinted : ∀ t ∈ p.tokens, Lexical t.kind t.value := by
    rw [htokens]
    intro t ht
    obtain ⟨u, hu, rfl⟩ := List.mem_map.1 ht
    exact hlexical u hu
  obtain ⟨us, hus, hsame⟩ := (l.scans_program hprinted).tokenize
  obtain ⟨q, hq, hqp⟩ := parse_ok_congr (htokens.symm.trans hsame.symm) hparse
  have hread : parseSource (l.program p) = .ok q := parseSource_ok_iff.2 ⟨us, hus, hq⟩
  refine ⟨q, hread, hqp, fun m => ?_⟩
  have hprint : m.program q = m.program p := by
    rw [← m.program_unplaced q, hqp, m.program_unplaced]
  refine ⟨hprint, ?_⟩
  calc (l.format source >>= m.format)
      = m.format (l.program p) := by rw [Layout.format_of_parse h l]; rfl
    _ = .ok (m.program q) := Layout.format_of_parse hread m
    _ = .ok (m.program p) := by rw [hprint]
    _ = m.format source := (Layout.format_of_parse h m).symm

/-- On one line, a minus may stand in front of a negative number. -/
theorem parse_print_roundtrip_minus :
    ∃ p, parseSource (utf8 "x = 5 - -3 if (x) y = x else while y < 2.5 y = y + x end end") = .ok p ∧
      ∃ q, parseSource (Layout.program ⟨true, 0⟩ p) = .ok q ∧ q.unplaced = p.unplaced ∧
        ∀ m : Layout, m.program q = m.program p ∧
          (Layout.format ⟨true, 0⟩
              (utf8 "x = 5 - -3 if (x) y = x else while y < 2.5 y = y + x end end") >>= m.format) =
            m.format (utf8 "x = 5 - -3 if (x) y = x else while y < 2.5 y = y + x end end") := by
  obtain ⟨p, hp⟩ := Option.isSome_iff_exists.1 (show (parseSource
    (utf8 "x = 5 - -3 if (x) y = x else while y < 2.5 y = y + x end end")).toOption.isSome = true
    by decide +kernel)
  have h := eq_ok_of_toOption hp
  exact ⟨p, h, parse_print_roundtrip h ⟨true, 0⟩⟩

end StoreLint
