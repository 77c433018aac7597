import Mathlib.Data.List.Chain
import Precedent.Proofs.Json.Script
import Precedent.Proofs.Json.Tokens

/-!
# Precedent.Proofs.Json.Lexemes

**A text is cut into the tokens of its lexemes.** Every lexeme is one token, in whichever way it is
spelled and whatever white space stands around it. Numbers are the only lexemes that do not tell
where they end; in a script each of them stands at the end of its text, in front of a comma, or in
front of the end of a container, and none of these could continue it.
-/

namespace Precedent.Json

/-! ### Texts -/

theorem hexDigit?_char (d : HexDigit) : hexDigit? d.char = some d.value := by
  obtain ⟨value, isUpper⟩ := d
  revert value isUpper
  decide

theorem unit?_hexUnit (u : HexUnit) :
    unit? u.first.char u.second.char u.third.char u.fourth.char = some u.value := by
  simp only [unit?, hexDigit?_char, Option.bind_eq_bind, Option.bind_some, Option.pure_def,
    HexUnit.value]

namespace Gathered

/-- What has been read of a text after one more piece. -/
def take (p : Gathered) : Piece → Gathered
  | .plain c _ => p.push c
  | .short e => p.push e.char
  | .unit u => p.pushUnit u.value

end Gathered

theorem textToken_piece (p : Gathered) (piece : Piece) (rest : List Char) :
    textToken p (piece.chars ++ rest) = textToken (p.take piece) rest := by
  cases piece with
  | plain c h => exact textToken_plain p h.2.1 h.2.2 (by omega) rest
  | short e => cases e <;> rfl
  | unit u =>
      show textToken p ('\\' :: 'u' :: u.first.char :: u.second.char :: u.third.char ::
        u.fourth.char :: rest) = _
      rw [textToken, unit?_hexUnit]
      rfl

/-- A text is gathered piece by piece up to its closing quote. -/
theorem textToken_pieces (p : Gathered) (pieces : List Piece) (rest : List Char) :
    textToken p (pieces.flatMap Piece.chars ++ '"' :: rest) =
      ((pieces.foldl Gathered.take p).finish, rest) := by
  induction pieces generalizing p with
  | nil => rfl
  | cons piece pieces ih =>
      rw [List.flatMap_cons, List.append_assoc, textToken_piece, ih, List.foldl_cons]

namespace Gathered

theorem faithful_settle {p : Gathered} (h : p.faithful = false) : p.settle.faithful = false := by
  unfold settle
  split
  · exact h
  · rfl

/-- A half of a pair that has stayed alone cannot be made good. -/
theorem faithful_take {p : Gathered} (h : p.faithful = false) (piece : Piece) :
    (p.take piece).faithful = false := by
  cases piece with
  | plain c _ => exact faithful_settle h
  | short e => exact faithful_settle h
  | unit u =>
      show (p.pushUnit u.value).faithful = false
      unfold pushUnit
      split
      · split
        · exact h
        · rfl
      · split
        · exact faithful_settle h
        · exact faithful_settle h

theorem faithful_foldl {p : Gathered} (h : p.faithful = false) (pieces : List Piece) :
    (pieces.foldl take p).faithful = false := by
  induction pieces generalizing p with
  | nil => exact h
  | cons piece pieces ih => exact ih (faithful_take h piece)

section Units

variable {u : HexUnit} (chars : List Char)

theorem take_high (hu : u.isHigh = true) :
    take ⟨chars, none, true⟩ (.unit u) = ⟨chars, some u.value, true⟩ := by
  simp only [HexUnit.isHigh, Bool.and_eq_true, decide_eq_true_eq] at hu
  show pushUnit _ u.value = _
  rw [pushUnit, if_neg (by simp; omega), if_pos (by simp; omega)]
  rfl

theorem take_low (hu : u.isLow = true) (waiting : Option Nat) :
    take ⟨chars, waiting, true⟩ (.unit u) =
      match waiting with
      | some high =>
        ⟨Char.ofNat (0x10000 + (high - 0xD800) * 0x400 + (u.value - 0xDC00)) :: chars, none, true⟩
      | none => ⟨'\ufffd' :: chars, none, false⟩ :=
  if_pos hu

theorem take_unit (hhigh : ¬ u.isHigh = true) (hlow : ¬ u.isLow = true) (waiting : Option Nat) :
    take ⟨chars, waiting, true⟩ (.unit u) = push ⟨chars, waiting, true⟩ (Char.ofNat u.value) :=
  (if_neg hlow).trans (if_neg hhigh)

/-- A first half of a pair has to be followed by a second one. -/
theorem faithful_take_waiting (n : Nat) {piece : Piece}
    (h : ∀ u, piece = .unit u → ¬ u.isLow = true) :
    (take ⟨chars, some n, true⟩ piece).faithful = false := by
  cases piece with
  | plain c _ => rfl
  | short e => rfl
  | unit u =>
      by_cases hhigh : u.isHigh = true
      · have hnext : take ⟨chars, some n, true⟩ (.unit u) =
            { settle ⟨chars, some n, true⟩ with waiting := some u.value } :=
          (if_neg (h u rfl)).trans (if_pos hhigh)
        rw [hnext]
        rfl
      · rw [take_unit chars hhigh (h u rfl)]
        rfl

end Units

end Gathered

section Units

variable {u : HexUnit}

theorem meaning?_unit (hhigh : ¬ u.isHigh = true) (rest : List Piece) :
    meaning? (.unit u :: rest) =
      if u.isLow then none else (meaning? rest).map (Char.ofNat u.value :: ·) := by
  rcases rest with _ | ⟨_ | _ | _, rest⟩
  all_goals exact if_neg hhigh

/-- The first half of a pair means nothing if the second one does not follow. -/
theorem meaning?_high (hhigh : u.isHigh = true) {rest : List Piece}
    (hrest : ∀ u' rest', rest = .unit u' :: rest' → ¬ u'.isLow = true) :
    meaning? (.unit u :: rest) = none := by
  rcases rest with _ | ⟨c | e | u', rest⟩
  · exact if_pos hhigh
  · exact if_pos hhigh
  · exact if_pos hhigh
  · exact (if_pos hhigh).trans (if_neg (hrest u' rest rfl))

end Units

/-- The token of a text that begins with the given characters and goes on with what is meant; if
nothing is meant, it is not faithful. -/
inductive TokenOfText (front : List Char) : Option (List Char) → Token → Prop where
  | faithful (cs : List Char) :
      TokenOfText front (some cs) (.scalar (.text (String.ofList (front ++ cs))) true)
  | unfaithful (s : String) : TokenOfText front none (.scalar (.text s) false)

theorem TokenOfText.map_cons {front : List Char} {c : Char} {cs? : Option (List Char)} {t : Token}
    (h : TokenOfText (front ++ [c]) cs? t) : TokenOfText front (cs?.map (c :: ·)) t := by
  cases h with
  | faithful cs =>
      rw [List.append_assoc, List.singleton_append]
      exact .faithful (c :: cs)
  | unfaithful s => exact .unfaithful s

namespace Gathered

theorem tokenOfText_of_not_faithful {p : Gathered} (h : p.faithful = false) (front : List Char) :
    TokenOfText front none p.finish := by
  rw [finish, faithful_settle h]
  exact .unfaithful _

/-- What is gathered is what the pieces mean. -/
theorem tokenOfText_finish (pieces : List Piece) (chars : List Char) :
    TokenOfText chars.reverse (meaning? pieces)
      (pieces.foldl take ⟨chars, none, true⟩).finish := by
  -- A character that has been gathered stands behind the ones in front.
  have hcons : ∀ {c : Char} {chars : List Char} {rest : List Piece},
      TokenOfText (c :: chars).reverse (meaning? rest)
        (rest.foldl take ⟨c :: chars, none, true⟩).finish →
      TokenOfText chars.reverse ((meaning? rest).map (c :: ·))
        (rest.foldl take ⟨c :: chars, none, true⟩).finish := by
    intro c chars rest h
    rw [List.reverse_cons] at h
    exact h.map_cons
  induction pieces using meaning?.induct generalizing chars with
  | case1 =>
      have h : TokenOfText chars.reverse (some [])
          (.scalar (.text (String.ofList (chars.reverse ++ []))) true) := .faithful []
      rw [List.append_nil] at h
      exact h
  | case2 c hc rest ih =>
      rw [meaning?]
      exact hcons (ih (c :: chars))
  | case3 e rest ih =>
      rw [meaning?]
      exact hcons (ih (e.char :: chars))
  | case4 u hhigh u' rest hlow ih =>
      rw [meaning?, if_pos hhigh, if_pos hlow, List.foldl_cons, List.foldl_cons,
        take_high chars hhigh, take_low chars hlow]
      exact hcons (ih (u.pair u' :: chars))
  | case5 u hhigh u' rest hlow =>
      rw [meaning?, if_pos hhigh, if_neg hlow, List.foldl_cons, List.foldl_cons,
        take_high chars hhigh]
      refine tokenOfText_of_not_faithful (faithful_foldl (faithful_take_waiting chars _ ?_) rest) _
      rintro u'' ⟨⟩
      exact hlow
  | case6 u rest hhigh hrest =>
      rw [meaning?_high hhigh fun u' rest' heq => (hrest u' rest' heq).elim, List.foldl_cons,
        take_high chars hhigh]
      cases rest with
      | nil => exact .unfaithful _
      | cons piece rest =>
          refine tokenOfText_of_not_faithful
            (faithful_foldl (faithful_take_waiting chars _ ?_) rest) _
          rintro u' rfl
          exact (hrest u' rest rfl).elim
  | case7 u rest hhigh hlow =>
      rw [meaning?_unit hhigh, if_pos hlow, List.foldl_cons, take_low chars hlow]
      exact tokenOfText_of_not_faithful (faithful_foldl rfl rest) _
  | case8 u rest hhigh hlow ih =>
      rw [meaning?_unit hhigh, if_neg hlow, List.foldl_cons, take_unit chars hhigh hlow]
      exact hcons (ih (Char.ofNat u.value :: chars))

end Gathered

/-! ### Numbers -/

section Numbers

variable {rest : List Char}

theorem Digits.spanDigits_append (ds : Digits) (hrest : EndsDigits rest) :
    spanDigits (ds.chars ++ rest) = (ds.chars, rest) :=
  Json.spanDigits_append ds.isDigit hrest

theorem endsDigits_exponent (e : Option Exponent) (hrest : EndsNumber rest) :
    EndsDigits (e.elim [] Exponent.chars ++ rest) := by
  cases e with
  | none => exact hrest.endsDigits
  | some e =>
      refine endsDigits_cons ?_ _
      split <;> rfl

theorem endsDigits_fraction (f : Option Digits) (e : Option Exponent) (hrest : EndsNumber rest) :
    EndsDigits (f.elim [] (fun ds => '.' :: ds.chars) ++ (e.elim [] Exponent.chars ++ rest)) := by
  cases f with
  | none => exact endsDigits_exponent e hrest
  | some ds => exact endsDigits_cons rfl _

theorem exponentDigits_append (isNegative : Bool) (ds : Digits) (hrest : EndsNumber rest) :
    exponentDigits isNegative (ds.chars ++ rest) =
      .ok (some (if isNegative then -(Nat.ofDigitChars 10 ds.chars 0 : Int)
        else Nat.ofDigitChars 10 ds.chars 0), rest) := by
  rw [exponentDigits, ds.spanDigits_append hrest.endsDigits]
  split
  · next heq => exact absurd (Prod.mk.inj heq).1 ds.ne_nil
  · next heq =>
      obtain ⟨rfl, rfl⟩ := Prod.mk.inj heq
      rfl

theorem fractionPart_append (f : Option Digits) (e : Option Exponent) (hrest : EndsNumber rest) :
    fractionPart (f.elim [] (fun ds => '.' :: ds.chars) ++ (e.elim [] Exponent.chars ++ rest)) =
      .ok (f.map Digits.chars, e.elim [] Exponent.chars ++ rest) := by
  cases f with
  | none =>
      cases e with
      | none => exact fractionPart_of_endsNumber hrest
      | some e =>
          obtain ⟨isUpper, isNegative, ds⟩ := e
          cases isUpper <;> rfl
  | some ds =>
      rw [Option.elim_some, List.cons_append, fractionPart,
        ds.spanDigits_append (endsDigits_exponent e hrest)]
      split
      · next heq => exact absurd (Prod.mk.inj heq).1 ds.ne_nil
      · next heq =>
          obtain ⟨rfl, rfl⟩ := Prod.mk.inj heq
          rfl

/-- An exponent without a sign. -/
theorem exponentPart_digit (isUpper : Bool) {c : Char} (hc : c.isDigit = true) (cs : List Char) :
    exponentPart ((if isUpper then 'E' else 'e') :: c :: cs) = exponentDigits false (c :: cs) := by
  have hletter : ((if isUpper then 'E' else 'e') == 'e' || (if isUpper then 'E' else 'e') == 'E') =
      true := by
    cases isUpper <;> rfl
  rw [exponentPart, if_pos hletter]
  all_goals
    intro rest heq
    rw [(List.cons.inj heq).1] at hc
    cases hc

theorem exponentPart_append (e : Option Exponent) (hrest : EndsNumber rest) :
    exponentPart (e.elim [] Exponent.chars ++ rest) = .ok (e.map Exponent.value, rest) := by
  cases e with
  | none => exact exponentPart_of_endsNumber hrest
  | some e =>
      obtain ⟨isUpper, isNegative, ds⟩ := e
      cases isNegative with
      | some isNegative =>
          cases isUpper <;> cases isNegative <;> exact exponentDigits_append _ ds hrest
      | none =>
          obtain ⟨c, cs, hchars⟩ := List.exists_cons_of_ne_nil ds.ne_nil
          have hc : c.isDigit = true := ds.isDigit c (hchars ▸ List.mem_cons_self)
          refine Eq.trans ?_ (exponentDigits_append false ds hrest)
          rw [Option.elim_some, Exponent.chars, List.cons_append]
          dsimp only
          rw [hchars, List.cons_append]
          exact exponentPart_digit isUpper hc (cs ++ rest)

/-- A number is read to its end. -/
theorem numeral_magnitude (n : Figure) (hrest : EndsNumber rest) :
    numeral n.isNegative (n.magnitude ++ rest) = .ok (n.numeral, rest) := by
  have hwhole := wholePart_append n.whole.isDigit
    (endsDigits_fraction n.fraction n.exponent hrest) n.whole.ne_nil n.no_needless_zero
  rw [Figure.magnitude, List.append_assoc, List.append_assoc]
  simp only [numeral, hwhole, fractionPart_append n.fraction n.exponent hrest,
    exponentPart_append n.exponent hrest, bind, Except.bind, pure, Except.pure]
  rfl

end Numbers

/-! ### One lexeme after the other -/

namespace Lexeme

/-- The token of a lexeme. -/
def token : Lexeme → Token
  | listOpen => .listOpen
  | listClose => .listClose
  | objectOpen => .objectOpen
  | objectClose => .objectClose
  | comma => .comma
  | colon => .colon
  | null => .scalar .null true
  | bool b => .scalar (.bool b) true
  | number n =>
    match n.numeral.value? with
    | some v => .scalar v true
    | none => .scalar (.double (.infinite n.isNegative)) false
  | text pieces => (pieces.foldl Gathered.take .start).finish

/-- Numbers, which do not tell where they end. -/
def isNumber : Lexeme → Bool
  | number _ => true
  | _ => false

/-- Commas and the ends of containers, none of which could continue a number. -/
def isSeparator : Lexeme → Bool
  | comma | listClose | objectClose => true
  | _ => false

end Lexeme

/-- The token of a text is faithful if the text means something, and gives what it means then. -/
theorem Lexeme.exists_token_text (pieces : List Piece) :
    ∃ s, (text pieces).token = .scalar (.text s) (meaning? pieces).isSome ∧
      ((meaning? pieces).isSome = true → s = meaning pieces) := by
  have htoken : TokenOfText [] (meaning? pieces) (text pieces).token :=
    Gathered.tokenOfText_finish pieces []
  rw [meaning]
  generalize (text pieces).token = t at htoken ⊢
  generalize meaning? pieces = cs? at htoken ⊢
  cases htoken with
  | faithful cs => exact ⟨_, rfl, fun _ => rfl⟩
  | unfaithful s => exact ⟨s, rfl, nofun⟩

/-- A number without its sign starts with a digit. -/
theorem Figure.exists_magnitude_eq_cons (n : Figure) :
    ∃ c cs, c.isDigit = true ∧ n.magnitude = c :: cs := by
  obtain ⟨c, cs, hwhole⟩ := List.exists_cons_of_ne_nil n.whole.ne_nil
  have hc := n.whole.isDigit c (hwhole ▸ List.mem_cons_self)
  rw [magnitude, hwhole, List.cons_append, List.cons_append]
  exact ⟨c, _, hc, rfl⟩

theorem numberToken_of_numeral {n : Figure} {cs rest : List Char}
    (h : numeral n.isNegative cs = .ok (n.numeral, rest)) :
    numberToken n.isNegative cs = ((Lexeme.number n).token, rest) := by
  rw [numberToken, h, Lexeme.token]
  dsimp only
  cases n.numeral.value? <;> rfl

/-- A lexeme is cut off as its token. -/
theorem Lexeme.tokens_chars_append (l : Lexeme) {rest : List Char}
    (hrest : l.isNumber = true → EndsNumber rest) :
    tokens (l.chars ++ rest) = l.token :: tokens rest := by
  cases l with
  | listOpen => exact tokens_of_nextToken (c := '[') rfl rfl le_rfl
  | listClose => exact tokens_of_nextToken (c := ']') rfl rfl le_rfl
  | objectOpen => exact tokens_of_nextToken (c := '{') rfl rfl le_rfl
  | objectClose => exact tokens_of_nextToken (c := '}') rfl rfl le_rfl
  | comma => exact tokens_of_nextToken (c := ',') rfl rfl le_rfl
  | colon => exact tokens_of_nextToken (c := ':') rfl rfl le_rfl
  | null => exact tokens_of_nextToken (c := 'n') rfl rfl (by simp; omega)
  | bool b =>
      cases b with
      | true => exact tokens_of_nextToken (c := 't') rfl rfl (by simp; omega)
      | false => exact tokens_of_nextToken (c := 'f') rfl rfl (by simp; omega)
  | number n =>
      have hnumber := numberToken_of_numeral (numeral_magnitude n (hrest rfl))
      show tokens (n.chars ++ rest) = _
      rw [Figure.chars]
      cases hsign : n.isNegative with
      | true =>
          rw [hsign] at hnumber
          exact tokens_of_nextToken (c := '-') rfl hnumber (by simp)
      | false =>
          rw [hsign] at hnumber
          rw [if_neg Bool.false_ne_true]
          obtain ⟨c, cs, hc, hmagnitude⟩ := n.exists_magnitude_eq_cons
          rw [hmagnitude] at hnumber ⊢
          exact tokens_of_nextToken (isSpace_of_isDigit hc)
            ((nextToken_of_isDigit hc _).trans hnumber) (by simp)
  | text pieces =>
      have htext := textToken_pieces .start pieces rest
      rw [Lexeme.chars, List.append_assoc, List.cons_append, List.singleton_append]
      exact tokens_of_nextToken rfl htext (by simp; omega)

/-! ### White space -/

theorem mem_whiteSpace {c : Char} :
    c ∈ whiteSpace ↔ c = ' ' ∨ c = '\n' ∨ c = '\t' ∨ c = '\r' := by
  simp [whiteSpace]

section Blanks

variable {blanks cs : List Char} (hblanks : blanks ⊆ whiteSpace)
include hblanks

theorem tokens_blanks : tokens (blanks ++ cs) = tokens cs := by
  induction blanks with
  | nil => rfl
  | cons c blanks ih =>
      obtain ⟨hc, hblanks⟩ := List.cons_subset.mp hblanks
      have hspace : isSpace c = true := by
        rcases mem_whiteSpace.mp hc with rfl | rfl | rfl | rfl <;> rfl
      rw [List.cons_append, tokens_of_isSpace hspace, ih hblanks]

theorem endsNumber_blanks (hcs : EndsNumber cs) : EndsNumber (blanks ++ cs) := by
  cases blanks with
  | nil => exact hcs
  | cons c blanks =>
      obtain ⟨hc, -⟩ := List.cons_subset.mp hblanks
      rintro c' ⟨⟩
      rcases mem_whiteSpace.mp hc with rfl | rfl | rfl | rfl <;> decide

end Blanks

/-- Lexemes that start with a separator, or none. -/
def SeparatorFirst (ls : List Lexeme) : Prop := ∀ l ∈ ls.head?, l.isSeparator = true

theorem SeparatorFirst.cons {l : Lexeme} (hl : l.isSeparator = true) (ls : List Lexeme) :
    SeparatorFirst (l :: ls) := by
  rintro l' ⟨⟩
  exact hl

/-- Every number stands in front of a separator or at the end. -/
def Legible (ls : List Lexeme) : Prop :=
  ls.IsChain fun l l' => l.isNumber = true → l'.isSeparator = true

theorem Legible.cons {l : Lexeme} {ls : List Lexeme} (h : Legible ls)
    (hl : l.isNumber = false) : Legible (l :: ls) :=
  List.isChain_cons.mpr ⟨fun _ _ hl' => absurd hl' (Bool.eq_false_iff.mp hl), h⟩

theorem Legible.number {n : Figure} {ls : List Lexeme} (h : Legible ls) (hls : SeparatorFirst ls) :
    Legible (.number n :: ls) :=
  List.isChain_cons.mpr ⟨fun l hl _ => hls l hl, h⟩

theorem endsNumber_of_spacedOut {ls : List Lexeme} {cs : List Char} (h : SpacedOut ls cs)
    (hls : SeparatorFirst ls) : EndsNumber cs := by
  cases h with
  | nil hblanks => simpa using endsNumber_blanks hblanks endsNumber_nil
  | @cons blanks cs l ls hblanks h =>
      rw [List.append_assoc]
      refine endsNumber_blanks hblanks ?_
      have hl := hls l rfl
      cases l with
      | comma | listClose | objectClose =>
          rintro c ⟨⟩
          decide
      | _ => cases hl

/-- **A text is cut into the tokens of its lexemes,** whatever white space stands around them. -/
theorem SpacedOut.tokens_eq {ls : List Lexeme} {cs : List Char} (h : SpacedOut ls cs)
    (hls : Legible ls) : tokens cs = ls.map Lexeme.token := by
  induction h with
  | @nil blanks hblanks =>
      rw [← List.append_nil blanks, tokens_blanks hblanks, tokens_nil]
      rfl
  | @cons blanks cs l ls hblanks h ih =>
      obtain ⟨hnext, hrest⟩ := List.isChain_cons.mp hls
      have hends : l.isNumber = true → EndsNumber cs := fun hl =>
        endsNumber_of_spacedOut h fun l' hl' => hnext l' hl' hl
      rw [List.append_assoc, tokens_blanks hblanks, l.tokens_chars_append hends, ih hrest,
        List.map_cons]

/-! ### Scripts -/

namespace Script

theorem separatorFirst_lexemesOfItems (items : List Script) {ls : List Lexeme}
    (hls : SeparatorFirst ls) : SeparatorFirst (lexemesOfItems items ++ ls) := by
  cases items with
  | nil => exact hls
  | cons t rest => exact .cons rfl _

theorem separatorFirst_lexemesOfMembers (members : List (List Piece × Script)) {ls : List Lexeme}
    (hls : SeparatorFirst ls) : SeparatorFirst (lexemesOfMembers members ++ ls) := by
  cases members with
  | nil => exact hls
  | cons m rest => exact .cons rfl _

mutual
/-- Lexemes can follow a script if they start with a separator. -/
theorem legible_lexemes (t : Script) {ls : List Lexeme} (h : Legible ls) (hls : SeparatorFirst ls) :
    Legible (t.lexemes ++ ls) := by
  match t with
  | .null => exact h.cons rfl
  | .bool b => exact h.cons rfl
  | .number n => exact h.number hls
  | .text pieces => exact h.cons rfl
  | .list [] => exact (h.cons (l := .listClose) rfl).cons rfl
  | .list (t :: rest) =>
      have hclose : SeparatorFirst (.listClose :: ls) := .cons rfl ls
      have hrest := legible_lexemesOfItems rest (h.cons rfl) hclose
      have ht := legible_lexemes t hrest (separatorFirst_lexemesOfItems rest hclose)
      rw [lexemes, List.cons_append, List.append_assoc, List.append_assoc, List.singleton_append]
      exact ht.cons rfl
  | .object [] => exact (h.cons (l := .objectClose) rfl).cons rfl
  | .object ((name, t) :: rest) =>
      have hclose : SeparatorFirst (.objectClose :: ls) := .cons rfl ls
      have hrest := legible_lexemesOfMembers rest (h.cons rfl) hclose
      have ht := legible_lexemes t hrest (separatorFirst_lexemesOfMembers rest hclose)
      rw [lexemes, List.cons_append, List.cons_append, List.cons_append, List.append_assoc,
        List.append_assoc, List.singleton_append]
      exact ((ht.cons rfl).cons rfl).cons rfl
theorem legible_lexemesOfItems (items : List Script) {ls : List Lexeme} (h : Legible ls)
    (hls : SeparatorFirst ls) : Legible (lexemesOfItems items ++ ls) := by
  match items with
  | [] => exact h
  | t :: rest =>
      have ht := legible_lexemes t (legible_lexemesOfItems rest h hls)
        (separatorFirst_lexemesOfItems rest hls)
      rw [lexemesOfItems, List.cons_append, List.append_assoc]
      exact ht.cons rfl
theorem legible_lexemesOfMembers (members : List (List Piece × Script)) {ls : List Lexeme}
    (h : Legible ls) (hls : SeparatorFirst ls) : Legible (lexemesOfMembers members ++ ls) := by
  match members with
  | [] => exact h
  | (name, t) :: rest =>
      have ht := legible_lexemes t (legible_lexemesOfMembers rest h hls)
        (separatorFirst_lexemesOfMembers rest hls)
      rw [lexemesOfMembers, List.cons_append, List.cons_append, List.cons_append,
        List.append_assoc]
      exact ((ht.cons rfl).cons rfl).cons rfl
end

/-- A text that is written from a script is cut into the tokens of its lexemes. -/
theorem IsWritten.tokens_eq {t : Script} {text : String} (h : t.IsWritten text) :
    tokens text.toList = t.lexemes.map Lexeme.token := by
  have hlegible : Legible (t.lexemes ++ []) := legible_lexemes t List.isChain_nil nofun
  rw [List.append_nil] at hlegible
  exact SpacedOut.tokens_eq h hlegible

end Script

end Precedent.Json
