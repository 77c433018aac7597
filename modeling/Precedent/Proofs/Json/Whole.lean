import Precedent.Proofs.Json.Lexemes

/-!
# Precedent.Proofs.Json.Whole

**A token that is not broken is that of a lexeme,** spelled as it stands in the text. So a text
without broken tokens is made of lexemes with white space around them, and of nothing else.
-/

namespace Precedent.Json

theorem exists_of_bind_eq_ok {ε α β : Type} {x : Except ε α} {f : α → Except ε β} {b : β}
    (h : x >>= f = .ok b) : ∃ a, x = .ok a ∧ f a = .ok b := by
  cases x with
  | error e => cases h
  | ok a => exact ⟨a, rfl, h⟩

/-- A token that is not broken. -/
def Token.IsWhole (t : Token) : Prop := ∀ inText fault, t ≠ .broken inText fault

theorem Token.not_isWhole_broken {inText : Bool} {fault : Fault} :
    ¬ (Token.broken inText fault).IsWhole :=
  fun h => h inText fault rfl

/-! ### Texts -/

theorem exists_hexDigit {c : Char} {n : Nat} (h : hexDigit? c = some n) :
    ∃ d : HexDigit, d.char = c := by
  have hdigit : ∀ k : Fin 16, (k : Nat) < 10 →
      (HexDigit.mk k false).char = Char.ofNat (k + 48) := by decide
  have hlower : ∀ k : Fin 16, 10 ≤ (k : Nat) →
      (HexDigit.mk k false).char = Char.ofNat (k + 87) := by decide
  have hupper : ∀ k : Fin 16, 10 ≤ (k : Nat) →
      (HexDigit.mk k true).char = Char.ofNat (k + 55) := by decide
  rw [← Char.ofNat_toNat c]
  unfold hexDigit? at h
  split at h
  · next hc =>
      obtain ⟨hle, hge⟩ := Text.toNat_of_isDigit hc
      have hchar := hdigit ⟨c.toNat - 48, by omega⟩ (by dsimp only; omega)
      exact ⟨_, hchar.trans (congrArg Char.ofNat (Nat.sub_add_cancel hle))⟩
  · split at h
    · next hc =>
        have hrange : 97 ≤ c.toNat ∧ c.toNat ≤ 102 := by
          simpa [Char.le_def, UInt32.le_iff_toNat_le] using hc
        have hchar := hlower ⟨c.toNat - 87, by omega⟩ (by dsimp only; omega)
        exact ⟨_, hchar.trans (congrArg Char.ofNat (Nat.sub_add_cancel (by omega)))⟩
    · split at h
      · next hc =>
          have hrange : 65 ≤ c.toNat ∧ c.toNat ≤ 70 := by
            simpa [Char.le_def, UInt32.le_iff_toNat_le] using hc
          have hchar := hupper ⟨c.toNat - 55, by omega⟩ (by dsimp only; omega)
          exact ⟨_, hchar.trans (congrArg Char.ofNat (Nat.sub_add_cancel (by omega)))⟩
      · cases h

theorem exists_hexUnit {a b c d : Char} {n : Nat} (h : unit? a b c d = some n) :
    ∃ u : HexUnit, u.chars = [a, b, c, d] := by
  simp only [unit?, Option.bind_eq_bind, Option.bind_eq_some_iff] at h
  obtain ⟨_, ha, _, hb, _, hc, _, hd, -⟩ := h
  obtain ⟨a, rfl⟩ := exists_hexDigit ha
  obtain ⟨b, rfl⟩ := exists_hexDigit hb
  obtain ⟨c, rfl⟩ := exists_hexDigit hc
  obtain ⟨d, rfl⟩ := exists_hexDigit hd
  exact ⟨⟨a, b, c, d⟩, rfl⟩

theorem exists_escape {c e : Char} (h : escaped? c = some e) : ∃ e : Escape, e.letter = c := by
  unfold escaped? at h
  split at h
  · exact ⟨.quote, rfl⟩
  · exact ⟨.backslash, rfl⟩
  · exact ⟨.slash, rfl⟩
  · exact ⟨.backspace, rfl⟩
  · exact ⟨.formFeed, rfl⟩
  · exact ⟨.lineFeed, rfl⟩
  · exact ⟨.carriageReturn, rfl⟩
  · exact ⟨.tab, rfl⟩
  · cases h

/-- A text that is not broken consists of pieces up to its closing quote. -/
theorem exists_pieces {p : Gathered} {cs : List Char} (h : (textToken p cs).1.IsWhole) :
    ∃ (pieces : List Piece) (rest : List Char),
      cs = pieces.flatMap Piece.chars ++ '"' :: rest := by
  induction p, cs using textToken.induct with
  | case1 p => exact absurd h Token.not_isWhole_broken
  | case2 p rest => exact ⟨[], rest, rfl⟩
  | case3 p a b c d rest n hn ih =>
      rw [textToken, hn] at h
      obtain ⟨pieces, rest, rfl⟩ := ih h
      obtain ⟨u, hu⟩ := exists_hexUnit hn
      refine ⟨.unit u :: pieces, rest, ?_⟩
      rw [List.flatMap_cons, Piece.chars, hu]
      rfl
  | case4 p a b c d rest hn =>
      rw [textToken, hn] at h
      exact absurd h Token.not_isWhole_broken
  | case5 p rest hrest =>
      rw [textToken] at h
      · exact absurd h Token.not_isWhole_broken
      · exact hrest
  | case6 p c rest hunit hc e he ih =>
      rw [textToken, he] at h
      · obtain ⟨pieces, rest, rfl⟩ := ih h
        obtain ⟨e, rfl⟩ := exists_escape he
        exact ⟨.short e :: pieces, rest, rfl⟩
      · exact hunit
      · exact hc
  | case7 p c rest hunit hc he =>
      rw [textToken, he] at h
      · exact absurd h Token.not_isWhole_broken
      · exact hunit
      · exact hc
  | case8 p => exact absurd h Token.not_isWhole_broken
  | case9 p c rest hquote h1 h2 h3 h4 hcontrol =>
      rw [textToken, if_pos hcontrol] at h
      · exact absurd h Token.not_isWhole_broken
      all_goals assumption
  | case10 p c rest hquote h1 h2 h3 h4 hcontrol ih =>
      have hslash : c ≠ '\\' := by
        intro hslash
        cases rest with
        | nil => exact h4 hslash rfl
        | cons c' rest => exact h3 c' rest hslash rfl
      rw [textToken_plain p hquote hslash hcontrol] at h
      obtain ⟨pieces, rest, rfl⟩ := ih h
      exact ⟨.plain c ⟨Nat.le_of_not_lt hcontrol, hquote, hslash⟩ :: pieces, rest, rfl⟩

/-! ### Numbers -/

section Numbers

variable {cs ds rest : List Char}

/-- Digits in front of a text. -/
theorem exists_digits (h : spanDigits cs = (ds, rest)) (hne : ds ≠ []) :
    ∃ D : Digits, D.chars = ds ∧ cs = D.chars ++ rest := by
  obtain ⟨rfl, rfl⟩ := Prod.mk.inj h
  exact ⟨⟨_, hne, fun c hc => List.mem_takeWhile_imp hc⟩, rfl, List.takeWhile_append_dropWhile.symm⟩

theorem exists_whole (h : wholePart cs = .ok (ds, rest)) :
    ∃ D : Digits, D.chars = ds ∧ (D.chars.head? = some '0' → D.chars = ['0']) ∧
      cs = D.chars ++ rest := by
  unfold wholePart at h
  split at h
  · cases h
  · cases h
  · next ds' rest' hnil hzeros heq =>
      obtain ⟨rfl, rfl⟩ := Prod.mk.inj (Except.ok.inj h)
      obtain ⟨D, rfl, hcs⟩ := exists_digits heq hnil
      refine ⟨D, rfl, fun hzero => ?_, hcs⟩
      cases hchars : D.chars with
      | nil => exact absurd hchars D.ne_nil
      | cons c ds =>
          rw [hchars] at hzero
          obtain rfl := Option.some.inj hzero
          cases ds with
          | nil => rfl
          | cons c' ds => exact absurd hchars (hzeros c' ds)

theorem exists_fraction {f : Option (List Char)} (h : fractionPart cs = .ok (f, rest)) :
    ∃ F : Option Digits, F.map Digits.chars = f ∧
      cs = F.elim [] (fun ds => '.' :: ds.chars) ++ rest := by
  unfold fractionPart at h
  split at h
  · split at h
    · cases h
    · next ds' rest' hnil heq =>
        obtain ⟨rfl, rfl⟩ := Prod.mk.inj (Except.ok.inj h)
        obtain ⟨D, rfl, hcs⟩ := exists_digits heq hnil
        exact ⟨some D, rfl, congrArg ('.' :: ·) hcs⟩
  · obtain ⟨rfl, rfl⟩ := Prod.mk.inj (Except.ok.inj h)
    exact ⟨none, rfl, rfl⟩

theorem exists_exponentDigits {isNegative : Bool} {e : Option Int}
    (h : exponentDigits isNegative cs = .ok (e, rest)) :
    ∃ D : Digits, cs = D.chars ++ rest ∧
      e = some (if isNegative then -(Nat.ofDigitChars 10 D.chars 0 : Int)
        else Nat.ofDigitChars 10 D.chars 0) := by
  unfold exponentDigits at h
  split at h
  · cases h
  · next ds' rest' hnil heq =>
      obtain ⟨rfl, rfl⟩ := Prod.mk.inj (Except.ok.inj h)
      obtain ⟨D, rfl, hcs⟩ := exists_digits heq hnil
      exact ⟨D, hcs, rfl⟩

theorem exists_exponent {e : Option Int} (h : exponentPart cs = .ok (e, rest)) :
    ∃ E : Option Exponent, E.map Exponent.value = e ∧ cs = E.elim [] Exponent.chars ++ rest := by
  unfold exponentPart at h
  split at h
  · split at h
    · next c rest' hletter =>
        -- The letter is that of the upper case or not.
        have hc : (if c == 'E' then 'E' else 'e') = c := by
          rw [Bool.or_eq_true, beq_iff_eq, beq_iff_eq] at hletter
          rcases hletter with rfl | rfl <;> rfl
        have hexponent : ∀ (isNegative : Option Bool) (cs : List Char),
            exponentDigits (isNegative.getD false) cs = .ok (e, rest) →
            ∃ E : Option Exponent, E.map Exponent.value = e ∧
              c :: (isNegative.elim [] (fun b => [if b then '-' else '+']) ++ cs) =
                E.elim [] Exponent.chars ++ rest := by
          intro isNegative cs h
          obtain ⟨D, rfl, rfl⟩ := exists_exponentDigits h
          refine ⟨some ⟨c == 'E', isNegative, D⟩, ?_, ?_⟩
          · rcases isNegative with _ | _ | _ <;> rfl
          · rw [Option.elim_some, Exponent.chars, hc]
            rcases isNegative with _ | _ | _ <;> rfl
        split at h
        · exact hexponent (some true) _ h
        · exact hexponent (some false) _ h
        · exact hexponent none _ h
    · obtain ⟨rfl, rfl⟩ := Prod.mk.inj (Except.ok.inj h)
      exact ⟨none, rfl, rfl⟩
  · obtain ⟨rfl, rfl⟩ := Prod.mk.inj (Except.ok.inj h)
    exact ⟨none, rfl, rfl⟩

/-- A numeral is that of a number in front of a text. -/
theorem exists_figure {isNegative : Bool} {m : Numeral}
    (h : numeral isNegative cs = .ok (m, rest)) :
    ∃ n : Figure, n.isNegative = isNegative ∧ n.numeral = m ∧ cs = n.magnitude ++ rest := by
  obtain ⟨whole, hwhole, h⟩ := exists_of_bind_eq_ok h
  obtain ⟨fraction, hfraction, h⟩ := exists_of_bind_eq_ok h
  obtain ⟨exponent, hexponent, h⟩ := exists_of_bind_eq_ok h
  obtain ⟨W, hW, hzero, hcs⟩ := exists_whole hwhole
  obtain ⟨F, hF, hcs'⟩ := exists_fraction hfraction
  obtain ⟨E, hE, hcs''⟩ := exists_exponent hexponent
  obtain ⟨rfl, rfl⟩ := Prod.mk.inj (Except.ok.inj h)
  refine ⟨⟨isNegative, W, hzero, F, E⟩, rfl, ?_, ?_⟩
  · rw [Figure.numeral, hW, hF, hE]
  · rw [hcs, hcs', hcs'', Figure.magnitude, List.append_assoc, List.append_assoc]

end Numbers

/-! ### One token after the other -/

theorem exists_literal {v : Json} {expected cs : List Char}
    (h : (literal v expected cs).1.IsWhole) :
    ∃ rest, cs = expected ++ rest ∧ literal v expected cs = (.scalar v true, rest) := by
  induction expected generalizing cs with
  | nil => exact ⟨cs, rfl, by rw [literal]⟩
  | cons e expected ih =>
      cases cs with
      | nil => exact absurd h Token.not_isWhole_broken
      | cons c cs =>
          rw [literal] at h ⊢
          split at h
          · next hce =>
              obtain rfl := beq_iff_eq.mp hce
              obtain ⟨rest, rfl, hrest⟩ := ih h
              exact ⟨rest, rfl, (if_pos hce).trans hrest⟩
          · exact absurd h Token.not_isWhole_broken

theorem exists_number {isNegative : Bool} {cs : List Char}
    (h : (numberToken isNegative cs).1.IsWhole) :
    ∃ (n : Figure) (rest : List Char), n.isNegative = isNegative ∧ cs = n.magnitude ++ rest ∧
      numberToken isNegative cs = ((Lexeme.number n).token, rest) := by
  cases hnumeral : numeral isNegative cs with
  | error fault =>
      rw [numberToken, hnumeral] at h
      exact absurd h Token.not_isWhole_broken
  | ok read =>
      obtain ⟨m, rest⟩ := read
      obtain ⟨n, rfl, rfl, hcs⟩ := exists_figure hnumeral
      exact ⟨n, rest, rfl, hcs, numberToken_of_numeral hnumeral⟩

/-- A token that is not broken is that of a lexeme. -/
theorem exists_lexeme {c : Char} {cs : List Char} (h : (nextToken c cs).1.IsWhole) :
    ∃ (l : Lexeme) (rest : List Char), c :: cs = l.chars ++ rest ∧
      nextToken c cs = (l.token, rest) := by
  unfold nextToken at h ⊢
  split at h
  · exact ⟨.listOpen, cs, rfl, rfl⟩
  · exact ⟨.listClose, cs, rfl, rfl⟩
  · exact ⟨.objectOpen, cs, rfl, rfl⟩
  · exact ⟨.objectClose, cs, rfl, rfl⟩
  · exact ⟨.comma, cs, rfl, rfl⟩
  · exact ⟨.colon, cs, rfl, rfl⟩
  · obtain ⟨pieces, rest, rfl⟩ := exists_pieces h
    refine ⟨.text pieces, rest, ?_, textToken_pieces .start pieces rest⟩
    rw [Lexeme.chars, List.append_assoc, List.cons_append]
    rfl
  · obtain ⟨rest, rfl, hrest⟩ := exists_literal h
    exact ⟨.null, rest, rfl, hrest⟩
  · obtain ⟨rest, rfl, hrest⟩ := exists_literal h
    exact ⟨.bool true, rest, rfl, hrest⟩
  · obtain ⟨rest, rfl, hrest⟩ := exists_literal h
    exact ⟨.bool false, rest, rfl, hrest⟩
  · obtain ⟨n, rest, hn, rfl, hrest⟩ := exists_number h
    refine ⟨.number n, rest, ?_, hrest⟩
    rw [Lexeme.chars, Figure.chars, if_pos hn, List.cons_append]
  · split at h
    · next hdigit =>
        obtain ⟨n, rest, hn, hcs, hrest⟩ := exists_number h
        refine ⟨.number n, rest, ?_, ?_⟩
        · rw [hcs, Lexeme.chars, Figure.chars, hn, if_neg Bool.false_ne_true]
        · exact (if_pos hdigit).trans hrest
    · exact absurd h Token.not_isWhole_broken

theorem mem_whiteSpace_iff_isSpace {c : Char} : c ∈ whiteSpace ↔ isSpace c = true := by
  rw [mem_whiteSpace]
  simp [isSpace, or_assoc]

theorem Lexeme.chars_ne_nil (l : Lexeme) : l.chars ≠ [] := by
  cases l with
  | bool b => cases b <;> simp [chars]
  | number n =>
      obtain ⟨c, cs, -, hmagnitude⟩ := n.exists_magnitude_eq_cons
      rw [chars, Figure.chars]
      split <;> simp [hmagnitude]
  | _ => simp [chars]

theorem fst_nextToken_mem_tokens {c : Char} {cs rest : List Char}
    (h : cs.dropWhile isSpace = c :: rest) : (nextToken c rest).1 ∈ tokens cs := by
  rw [tokens_eq, h]
  dsimp only
  split
  · exact List.mem_cons_self
  · exact List.mem_cons_self

/-- A text without broken tokens has lexemes, with white space around them. -/
theorem exists_spacedOut (cs : List Char) (h : ∀ t ∈ tokens cs, t.IsWhole) :
    ∃ ls, SpacedOut ls cs ∧ tokens cs = ls.map Lexeme.token := by
  have hblanks : cs.takeWhile isSpace ⊆ whiteSpace := fun c hc =>
    mem_whiteSpace_iff_isSpace.mpr (List.mem_takeWhile_imp hc)
  have hcs : cs.takeWhile isSpace ++ cs.dropWhile isSpace = cs := List.takeWhile_append_dropWhile
  cases hdrop : cs.dropWhile isSpace with
  | nil =>
      rw [hdrop, List.append_nil] at hcs
      exact ⟨[], hcs ▸ .nil hblanks, by rw [tokens_eq, hdrop]; rfl⟩
  | cons c rest =>
      obtain ⟨l, rest', hl, hnext⟩ := exists_lexeme (h _ (fst_nextToken_mem_tokens hdrop))
      have hspace : isSpace c = false := by
        have hhead := List.head?_dropWhile_not isSpace cs
        rw [hdrop] at hhead
        exact hhead
      have hle : rest'.length ≤ rest.length := by
        have hlength := congrArg List.length hl
        have hpos := List.length_pos_iff.mpr l.chars_ne_nil
        rw [List.length_cons, List.length_append] at hlength
        omega
      rw [hdrop] at hcs
      have htokens : tokens cs = l.token :: tokens rest' :=
        calc
          tokens cs = tokens (cs.takeWhile isSpace ++ c :: rest) := by rw [hcs]
          _ = tokens (c :: rest) := tokens_blanks hblanks
          _ = l.token :: tokens rest' := tokens_of_nextToken hspace hnext hle
      obtain ⟨ls, hls, hrest⟩ := exists_spacedOut rest' fun t ht =>
        h t (htokens ▸ List.mem_cons_of_mem _ ht)
      refine ⟨l :: ls, ?_, by rw [htokens, hrest, List.map_cons]⟩
      rw [← hcs, hl, ← List.append_assoc]
      exact .cons hblanks hls
termination_by cs.length
decreasing_by
  have hlength := congrArg List.length hcs
  rw [hdrop, List.length_append, List.length_cons] at hlength
  omega

end Precedent.Json
