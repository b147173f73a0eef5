import CodeQuality.Json.Printer
import CodeQuality.Json.Reader
import CodeQuality.Proofs.Decimal.Text

/-!
# Reading what was written

A value that is written in a layout of blanks is read as the same value, except that of a numeral
with more digits than fit some are lost (`Json.read?_write`). The scan turns the characters of a
value into its tokens, whatever stands in front of it and behind it; the builder puts the value of
these tokens in its place.
-/

namespace CodeQuality.Json

open Token

/-! ### The value that is read -/

mutual

/-- The value that is read where a value was written. -/
def reread : Json → Json
  | null => null
  | bool b => bool b
  | number n => number n.reread
  | string s => string s
  | array items => array (rereadItems items)
  | object members => object (rereadMembers members)

def rereadItems : List Json → List Json
  | [] => []
  | item :: items => item.reread :: rereadItems items

def rereadMembers : List (Option String × Json) → List (Option String × Json)
  | [] => []
  | (name, value) :: members => (name, value.reread) :: rereadMembers members

end

theorem rereadItems_eq (items : List Json) : rereadItems items = items.map reread := by
  induction items with
  | nil => rfl
  | cons item items ih => rw [rereadItems, ih, List.map_cons]

theorem rereadMembers_eq (members : List (Option String × Json)) :
    rereadMembers members = members.map fun m => (m.1, m.2.reread) := by
  induction members with
  | nil => rfl
  | cons m members ih => rw [rereadMembers, ih, List.map_cons]

/-! ### The tokens of a value -/

mutual

/-- The tokens of a value. -/
def tokens : Json → List Token
  | null => [.word .null]
  | bool b => [.word (.bool b)]
  | number n => [.word (.number n.reread)]
  | string s => [.text s]
  | array [] => [.openBracket, .closeBracket]
  | array (item :: items) => .openBracket :: tokens item ++ itemTokens items ++ [.closeBracket]
  | object [] => [.openBrace, .closeBrace]
  | object ((name, value) :: members) =>
    .openBrace :: .text name :: .colon :: tokens value ++ memberTokens members ++ [.closeBrace]

/-- The tokens of the further items of an array. -/
def itemTokens : List Json → List Token
  | [] => []
  | item :: items => .comma :: tokens item ++ itemTokens items

/-- The tokens of the further members of an object. -/
def memberTokens : List (Option String × Json) → List Token
  | [] => []
  | (name, value) :: members =>
    .comma :: .text name :: .colon :: tokens value ++ memberTokens members

end

/-! ### Words and gaps -/

/-- Whether a word goes on with a character. -/
def inWord (c : Char) : Bool := !(isGap c || c == '"' || (punctuation? c).isSome)

/-- The characters end a word that stands in front of them. -/
def Delimited (cs : List Char) : Prop := ∀ c, cs.head? = some c → inWord c = false

theorem delimited_nil : Delimited [] := fun _ h => nomatch h

theorem delimited_cons {c : Char} (h : inWord c = false) (cs : List Char) : Delimited (c :: cs) := by
  rintro _ ⟨⟩
  exact h

theorem delimited_gap {gap cs : List Char} (hgap : ∀ c ∈ gap, isGap c = true) (h : Delimited cs) :
    Delimited (gap ++ cs) := by
  cases gap with
  | nil => exact h
  | cons c gap => exact delimited_cons (by simp [inWord, hgap c List.mem_cons_self]) _

theorem scanFrom?_cons {ts ts' : List Token} {place place' : Place} {c : Char}
    (h : step ts place c = some (ts', place')) (cs : List Char) :
    scanFrom? ts place (c :: cs) = scanFrom? ts' place' cs := by
  rw [scanFrom?, h]

theorem scanFrom?_gap (ts : List Token) {gap : List Char} (hgap : ∀ c ∈ gap, isGap c = true)
    (rest : List Char) :
    scanFrom? ts .between (gap ++ rest) = scanFrom? ts .between rest := by
  induction gap with
  | nil => rfl
  | cons c gap ih =>
    have hstep : step ts .between c = some (ts, .between) := by
      simp [step, start, hgap c List.mem_cons_self]
    rw [List.cons_append, scanFrom?_cons hstep]
    exact ih fun d hd => hgap d (List.mem_cons_of_mem _ hd)

theorem scanFrom?_inWord (ts : List Token) (seen : List Char) {cs : List Char}
    (hcs : ∀ c ∈ cs, inWord c = true) (rest : List Char) :
    scanFrom? ts (.word seen) (cs ++ rest) = scanFrom? ts (.word (cs.reverse ++ seen)) rest := by
  induction cs generalizing seen with
  | nil => rfl
  | cons c cs ih =>
    have hc : ¬ (isGap c = true ∨ c = '"' ∨ (punctuation? c).isSome = true) := by
      have := hcs c List.mem_cons_self
      simpa [inWord, not_or, and_assoc] using this
    have hstep : step ts (.word seen) c = some (ts, .word (c :: seen)) := by
      rw [step, if_neg hc]
    rw [List.cons_append, scanFrom?_cons hstep, ih _ fun d hd => hcs d (List.mem_cons_of_mem _ hd)]
    simp

theorem scanFrom?_word (ts : List Token) {cs rest : List Char} {j : Json} (hne : cs ≠ [])
    (hcs : ∀ c ∈ cs, inWord c = true) (hword : word? cs = some j) (hrest : Delimited rest) :
    scanFrom? ts .between (cs ++ rest) = scanFrom? (.word j :: ts) .between rest := by
  obtain ⟨c, cs, rfl⟩ := List.exists_cons_of_ne_nil hne
  have hc : isGap c = false ∧ c ≠ '"' ∧ punctuation? c = none := by
    have := hcs c List.mem_cons_self
    simpa [inWord, and_assoc] using this
  have hstep : step ts .between c = some (ts, .word [c]) := by
    simp [step, start, hc]
  rw [List.cons_append, scanFrom?_cons hstep,
    scanFrom?_inWord ts [c] fun d hd => hcs d (List.mem_cons_of_mem _ hd)]
  have hseen : (cs.reverse ++ [c]).reverse = c :: cs := by simp
  cases rest with
  | nil => simp only [scanFrom?, finish?, hseen, hword, Option.map_some]
  | cons d rest =>
    have hd : isGap d = true ∨ d = '"' ∨ (punctuation? d).isSome = true := by
      have := hrest d rfl
      simp only [inWord, Bool.not_eq_false', Bool.or_eq_true, beq_iff_eq, or_assoc] at this
      exact this
    have hend : step ts (.word (cs.reverse ++ [c])) d = some (start (.word j :: ts) d) := by
      rw [step, if_pos hd, hseen, hword]
      rfl
    rw [scanFrom?_cons hend]
    rfl

theorem scanFrom?_punctuation (ts : List Token) {c : Char} {token : Token}
    (h : punctuation? c = some token) (rest : List Char) :
    scanFrom? ts .between (c :: rest) = scanFrom? (token :: ts) .between rest := by
  have hgap : isGap c = false ∧ c ≠ '"' := by
    unfold punctuation? at h
    split at h <;> first | exact ⟨rfl, by decide⟩ | exact nomatch h
  have hstep : step ts .between c = some (token :: ts, .between) := by
    simp [step, start, hgap, h]
  exact scanFrom?_cons hstep rest

/-! ### String literals -/

theorem hexValue?_hexDigit {n : Nat} (h : n < 16) : Text.hexValue? (Text.hexDigit n) = some n := by
  revert n
  decide

theorem scanFrom?_escape (ts : List Token) (seen : List Piece) (c : Char) (rest : List Char) :
    scanFrom? ts (.text seen) (escape c ++ rest) = scanFrom? ts (.text (.char c :: seen)) rest := by
  unfold escape
  split
  all_goals try rfl
  next hquote hbackslash _ _ _ _ _ =>
    split
    next hcontrol =>
      have hlt : c.toNat < 32 := hcontrol
      have hhigh := hexValue?_hexDigit (n := c.toNat / 16) (by omega)
      have hlow := hexValue?_hexDigit (n := c.toNat % 16) (by omega)
      have hvalue : 16 * (16 * 0 + c.toNat / 16) + c.toNat % 16 = c.toNat := by omega
      have hunit : Piece.ofUnit c.toNat = .char c := by
        rw [Piece.ofUnit, if_neg (by omega), if_neg (by omega), Char.ofNat_toNat]
      have hfirst : step ts (.unit seen 2 0) (Text.hexDigit (c.toNat / 16)) =
          some (ts, .unit seen 1 (16 * 0 + c.toNat / 16)) := by
        rw [step, hhigh]
        rfl
      have hsecond : step ts (.unit seen 1 (16 * 0 + c.toNat / 16)) (Text.hexDigit (c.toNat % 16)) =
          some (ts, .text (.char c :: seen)) := by
        rw [step, hlow, Option.map_some, hvalue, ← hunit]
        rfl
      show scanFrom? ts (.unit seen 2 0)
        (Text.hexDigit (c.toNat / 16) :: Text.hexDigit (c.toNat % 16) :: rest) = _
      rw [scanFrom?_cons hfirst, scanFrom?_cons hsecond]
    next hcontrol =>
      have hstep : step ts (.text seen) c = some (ts, .text (.char c :: seen)) := by
        rw [step, if_neg hquote, if_neg hbackslash, if_neg hcontrol]
      exact scanFrom?_cons hstep rest

theorem join?_chars (cs : List Char) : Piece.join? (cs.map .char) = some cs := by
  induction cs with
  | nil => rfl
  | cons c cs ih => rw [List.map_cons, Piece.join?, ih, Option.map_some]

theorem scanFrom?_escapes (ts : List Token) (seen : List Piece) (cs rest : List Char) :
    scanFrom? ts (.text seen) (cs.flatMap escape ++ rest) =
      scanFrom? ts (.text ((cs.map Piece.char).reverse ++ seen)) rest := by
  induction cs generalizing seen with
  | nil => rfl
  | cons c cs ih =>
    rw [List.flatMap_cons, List.append_assoc, scanFrom?_escape, ih]
    simp

theorem scanFrom?_literal (ts : List Token) (s : Option String) (rest : List Char) :
    scanFrom? ts .between (literal s ++ rest) = scanFrom? (.text s :: ts) .between rest := by
  cases s with
  | none => rfl
  | some s =>
    have hopen : step ts .between '"' = some (ts, .text []) := by simp [step, start, isGap]
    have hclose : step ts (.text (s.toList.map Piece.char).reverse) '"' =
        some (.text (some s) :: ts, .between) := by
      have htext : Piece.text (s.toList.map Piece.char).reverse = some s := by
        rw [Piece.text, List.reverse_reverse, join?_chars, Option.map_some, String.ofList_toList]
      rw [step, if_pos rfl, htext]
    have hchars : literal (some s) = '"' :: (s.toList.flatMap escape ++ ['"']) := by
      unfold literal
      rfl
    rw [hchars, List.cons_append, scanFrom?_cons hopen, List.append_assoc, scanFrom?_escapes,
      List.append_nil, List.singleton_append, scanFrom?_cons hclose]

/-! ### Whole values -/

/-- Layouts of blanks only. -/
structure Layout.Blank (layout : Layout) : Prop where
  line : ∀ depth, ∀ c ∈ layout.line depth, isGap c = true
  afterColon : ∀ c ∈ layout.afterColon, isGap c = true

theorem compact_blank : compact.Blank := by
  constructor
  · intro depth c h
    exact absurd h List.not_mem_nil
  · intro c h
    exact absurd h List.not_mem_nil

theorem pretty_blank : pretty.Blank := by
  constructor
  · intro depth c h
    rcases List.mem_cons.1 h with rfl | h
    · rfl
    · rw [List.eq_of_mem_replicate h]
      rfl
  · intro c h
    rw [List.mem_singleton.1 h]
    rfl

theorem inWord_of_isMark {c : Char} (h : Numeral.isMark c = true) : inWord c = true := by
  have hnot : isGap c = false ∧ c ≠ '"' ∧ punctuation? c = none := by
    refine ⟨?_, ?_, ?_⟩
    · cases hc : isGap c with
      | false => rfl
      | true =>
        simp only [isGap, Bool.or_eq_true, beq_iff_eq, or_assoc] at hc
        rcases hc with rfl | rfl | rfl | rfl <;> revert h <;> decide
    · rintro rfl
      exact absurd h (by decide)
    · unfold punctuation?
      split <;> first | rfl | exact absurd h (by decide)
  simp [inWord, hnot]

theorem word?_number (n : Numeral) : word? n.chars = some (.number n.reread) := by
  have hread := n.read?_chars
  have hname : ∀ name : List Char, Numeral.read? name = none → n.chars ≠ name := by
    rintro name hnone rfl
    rw [hread] at hnone
    exact nomatch hnone
  rw [word?, if_neg (hname _ (by decide)), if_neg (hname _ (by decide)),
    if_neg (hname _ (by decide)), hread, Option.map_some]

theorem delimited_itemChars (layout : Layout) (depth : Nat) (items : List Json)
    {rest : List Char} (h : Delimited rest) : Delimited (itemChars layout depth items ++ rest) := by
  cases items with
  | nil => exact h
  | cons item items => exact delimited_cons (by decide) _

theorem delimited_memberChars (layout : Layout) (depth : Nat)
    (members : List (Option String × Json)) {rest : List Char} (h : Delimited rest) :
    Delimited (memberChars layout depth members ++ rest) := by
  cases members with
  | nil => exact h
  | cons m members => exact delimited_cons (by decide) _

variable {layout : Layout}

mutual

theorem scanFrom?_chars (hl : layout.Blank) (depth : Nat) (ts : List Token) {rest : List Char}
    (hrest : Delimited rest) : ∀ j : Json,
    scanFrom? ts .between (chars layout depth j ++ rest) =
      scanFrom? ((tokens j).reverse ++ ts) .between rest
  | null => by
    have hname : ∀ c ∈ "null".toList, inWord c = true := List.all_eq_true.1 rfl
    exact scanFrom?_word ts (List.cons_ne_nil _ _) hname rfl hrest
  | bool true => by
    have hname : ∀ c ∈ "true".toList, inWord c = true := List.all_eq_true.1 rfl
    exact scanFrom?_word ts (List.cons_ne_nil _ _) hname rfl hrest
  | bool false => by
    have hname : ∀ c ∈ "false".toList, inWord c = true := List.all_eq_true.1 rfl
    exact scanFrom?_word ts (List.cons_ne_nil _ _) hname rfl hrest
  | number n =>
    scanFrom?_word ts n.chars_ne_nil (fun _ hc => inWord_of_isMark (Numeral.isMark_of_mem_chars hc))
      (word?_number n) hrest
  | string s => scanFrom?_literal ts s rest
  | array [] => by
    simp [chars, tokens, scanFrom?_punctuation ts (c := '[') rfl,
      scanFrom?_punctuation (.openBracket :: ts) (c := ']') rfl]
  | array (item :: items) => by
    have hend : Delimited (layout.line depth ++ ']' :: rest) :=
      delimited_gap (hl.line depth) (delimited_cons (by decide) _)
    have hnext := delimited_itemChars layout (depth + 1) items hend
    simp only [chars, tokens, List.cons_append, List.append_assoc, List.nil_append]
    rw [scanFrom?_punctuation ts (c := '[') rfl, scanFrom?_gap _ (hl.line (depth + 1)),
      scanFrom?_chars hl (depth + 1) _ hnext item, scanFrom?_itemChars hl (depth + 1) _ hend items,
      scanFrom?_gap _ (hl.line depth), scanFrom?_punctuation _ (c := ']') rfl]
    simp
  | object [] => by
    simp [chars, tokens, scanFrom?_punctuation ts (c := '{') rfl,
      scanFrom?_punctuation (.openBrace :: ts) (c := '}') rfl]
  | object ((name, value) :: members) => by
    have hend : Delimited (layout.line depth ++ '}' :: rest) :=
      delimited_gap (hl.line depth) (delimited_cons (by decide) _)
    have hnext := delimited_memberChars layout (depth + 1) members hend
    simp only [chars, tokens, List.cons_append, List.append_assoc, List.nil_append]
    rw [scanFrom?_punctuation ts (c := '{') rfl, scanFrom?_gap _ (hl.line (depth + 1)),
      scanFrom?_literal, scanFrom?_punctuation _ (c := ':') rfl, scanFrom?_gap _ hl.afterColon,
      scanFrom?_chars hl (depth + 1) _ hnext value, scanFrom?_memberChars hl (depth + 1) _ hend members,
      scanFrom?_gap _ (hl.line depth), scanFrom?_punctuation _ (c := '}') rfl]
    simp

theorem scanFrom?_itemChars (hl : layout.Blank) (depth : Nat) (ts : List Token) {rest : List Char}
    (hrest : Delimited rest) : ∀ items : List Json,
    scanFrom? ts .between (itemChars layout depth items ++ rest) =
      scanFrom? ((itemTokens items).reverse ++ ts) .between rest
  | [] => rfl
  | item :: items => by
    have hnext := delimited_itemChars layout depth items hrest
    simp only [itemChars, itemTokens, List.cons_append, List.append_assoc]
    rw [scanFrom?_punctuation ts (c := ',') rfl, scanFrom?_gap _ (hl.line depth),
      scanFrom?_chars hl depth _ hnext item, scanFrom?_itemChars hl depth _ hrest items]
    simp

theorem scanFrom?_memberChars (hl : layout.Blank) (depth : Nat) (ts : List Token)
    {rest : List Char} (hrest : Delimited rest) : ∀ members : List (Option String × Json),
    scanFrom? ts .between (memberChars layout depth members ++ rest) =
      scanFrom? ((memberTokens members).reverse ++ ts) .between rest
  | [] => rfl
  | (name, value) :: members => by
    have hnext := delimited_memberChars layout depth members hrest
    simp only [memberChars, memberTokens, List.cons_append, List.append_assoc]
    rw [scanFrom?_punctuation ts (c := ',') rfl, scanFrom?_gap _ (hl.line depth),
      scanFrom?_literal, scanFrom?_punctuation _ (c := ':') rfl, scanFrom?_gap _ hl.afterColon,
      scanFrom?_chars hl depth _ hnext value, scanFrom?_memberChars hl depth _ hrest members]
    simp

end

theorem scan?_write (hl : layout.Blank) (j : Json) :
    scan? (chars layout 0 j) = some (tokens j) := by
  have h := scanFrom?_chars hl 0 [] delimited_nil j
  rw [List.append_nil, List.append_nil] at h
  rw [scan?, h, scanFrom?, finish?, List.reverse_reverse]

/-! ### Building the value -/

theorem build?_cons (frames : List Frame) (need : Need) (token : Token) (ts : List Token) :
    build? frames need (token :: ts) =
      (advance frames need token).bind fun p => build? p.1 p.2 ts := by
  rw [build?]
  split <;> rename_i h <;> rw [h] <;> rfl

theorem close?_head_tokens (frames : List Frame) {j : Json} {token : Token}
    (h : (tokens j).head? = some token) : close? frames token = none := by
  have hne : token ≠ .closeBracket ∧ token ≠ .closeBrace := by
    cases j with
    | array items => cases items <;> (obtain rfl := Option.some.inj h; exact ⟨nofun, nofun⟩)
    | object members => cases members <;> (obtain rfl := Option.some.inj h; exact ⟨nofun, nofun⟩)
    | _ => obtain rfl := Option.some.inj h; exact ⟨nofun, nofun⟩
  unfold close?
  split
  next => exact absurd rfl hne.1
  next => exact absurd rfl hne.2
  next => rfl

theorem build?_first (frames : List Frame) (j : Json) (rest : List Token) :
    build? frames .item (tokens j ++ rest) = build? frames .value (tokens j ++ rest) := by
  obtain ⟨token, ts, hts⟩ : ∃ token ts, tokens j = token :: ts := by
    cases j with
    | array items => cases items <;> exact ⟨_, _, rfl⟩
    | object members => cases members <;> exact ⟨_, _, rfl⟩
    | _ => exact ⟨_, _, rfl⟩
  have hhead : (tokens j).head? = some token := by
    rw [hts]
    rfl
  have hclose := close?_head_tokens frames hhead
  rw [hts, List.cons_append, build?_cons, build?_cons, advance, advance, hclose, Option.none_or]

mutual

theorem build?_tokens (frames : List Frame) (rest : List Token) : ∀ j : Json,
    build? frames .value (tokens j ++ rest) =
      (put j.reread frames).bind fun p => build? p.1 p.2 rest
  | null => build?_cons frames .value _ rest
  | bool _ => build?_cons frames .value _ rest
  | number _ => build?_cons frames .value _ rest
  | string _ => build?_cons frames .value _ rest
  | array [] => by
    have hopen : advance frames .value .openBracket = some (.array [] :: frames, .item) := rfl
    have hclose : advance (.array [] :: frames) .item .closeBracket = put (array []) frames :=
      Option.or_none
    simp only [tokens, List.cons_append, List.nil_append]
    rw [build?_cons, hopen, Option.bind_some, build?_cons, hclose]
    rfl
  | array (item :: items) => by
    have hopen : advance frames .value .openBracket = some (.array [] :: frames, .item) := rfl
    have hput : put item.reread (.array [] :: frames) =
        some (.array [item.reread] :: frames, .next) := rfl
    have hclose : ∀ done, advance (.array done :: frames) .next .closeBracket =
        put (array done.reverse) frames := fun _ => rfl
    simp only [tokens, List.cons_append, List.append_assoc, List.nil_append]
    rw [build?_cons, hopen, Option.bind_some, build?_first, build?_tokens _ _ item, hput,
      Option.bind_some, build?_itemTokens _ _ _ items, build?_cons, hclose]
    simp [reread, rereadItems]
  | object [] => by
    have hopen : advance frames .value .openBrace = some (.object [] :: frames, .member) := rfl
    have hclose : advance (.object [] :: frames) .member .closeBrace = put (object []) frames :=
      Option.or_none
    simp only [tokens, List.cons_append, List.nil_append]
    rw [build?_cons, hopen, Option.bind_some, build?_cons, hclose]
    rfl
  | object ((name, value) :: members) => by
    have hopen : advance frames .value .openBrace = some (.object [] :: frames, .member) := rfl
    have hname : advance (.object [] :: frames) .member (.text name) =
        some (.member name :: .object [] :: frames, .colon) := rfl
    have hcolon : advance (.member name :: .object [] :: frames) .colon .colon =
        some (.member name :: .object [] :: frames, .value) := rfl
    have hput : put value.reread (.member name :: .object [] :: frames) =
        some (.object [(name, value.reread)] :: frames, .next) := rfl
    have hclose : ∀ done, advance (.object done :: frames) .next .closeBrace =
        put (object done.reverse) frames := fun _ => rfl
    simp only [tokens, List.cons_append, List.append_assoc, List.nil_append]
    rw [build?_cons, hopen, Option.bind_some, build?_cons, hname, Option.bind_some, build?_cons,
      hcolon, Option.bind_some, build?_tokens _ _ value, hput, Option.bind_some,
      build?_memberTokens _ _ _ members, build?_cons, hclose]
    simp [reread, rereadMembers]

theorem build?_itemTokens (frames : List Frame) (done : List Json) (rest : List Token) :
    ∀ items : List Json,
    build? (.array done :: frames) .next (itemTokens items ++ rest) =
      build? (.array ((rereadItems items).reverse ++ done) :: frames) .next rest
  | [] => rfl
  | item :: items => by
    have hcomma : advance (.array done :: frames) .next .comma =
        some (.array done :: frames, .value) := rfl
    have hput : put item.reread (.array done :: frames) =
        some (.array (item.reread :: done) :: frames, .next) := rfl
    simp only [itemTokens, List.cons_append, List.append_assoc]
    rw [build?_cons, hcomma, Option.bind_some, build?_tokens _ _ item, hput, Option.bind_some,
      build?_itemTokens _ _ _ items]
    simp [rereadItems]

theorem build?_memberTokens (frames : List Frame) (done : List (Option String × Json))
    (rest : List Token) : ∀ members : List (Option String × Json),
    build? (.object done :: frames) .next (memberTokens members ++ rest) =
      build? (.object ((rereadMembers members).reverse ++ done) :: frames) .next rest
  | [] => rfl
  | (name, value) :: members => by
    have hcomma : advance (.object done :: frames) .next .comma =
        some (.object done :: frames, .name) := rfl
    have hname : advance (.object done :: frames) .name (.text name) =
        some (.member name :: .object done :: frames, .colon) := rfl
    have hcolon : advance (.member name :: .object done :: frames) .colon .colon =
        some (.member name :: .object done :: frames, .value) := rfl
    have hput : put value.reread (.member name :: .object done :: frames) =
        some (.object ((name, value.reread) :: done) :: frames, .next) := rfl
    simp only [memberTokens, List.cons_append, List.append_assoc]
    rw [build?_cons, hcomma, Option.bind_some, build?_cons, hname, Option.bind_some, build?_cons,
      hcolon, Option.bind_some, build?_tokens _ _ value, hput, Option.bind_some,
      build?_memberTokens _ _ _ members]
    simp [rereadMembers]

end

/-- **What was written is read.** Of a value written in a layout of blanks the same value is read,
with every numeral as it is read on its own. -/
theorem read?_write (hl : layout.Blank) (j : Json) : read? (write layout j) = some j.reread := by
  have hbuild := build?_tokens [] [] j
  rw [List.append_nil] at hbuild
  rw [read?, write, String.toList_ofList, readChars?, scan?_write hl, Option.bind_eq_bind,
    Option.bind_some, hbuild]
  rfl

end CodeQuality.Json
