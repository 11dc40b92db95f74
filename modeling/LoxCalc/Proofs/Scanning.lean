import LoxCalc.Proofs.Lexical
import LoxCalc.Source.Cursor
import Mathlib.Data.List.Forall2

/-!
# Scanning is longest-match tokenization

The tokens and problems of a source text are the images of its segments, in
order: `Gives` and `Reports` say which token or problem belongs to a segment.

The same tokens come out of the loop that reads one segment after the other
from a cursor.

* `Cursor.skipWhile_eq`, `Cursor.skipBody_eq`, `Cursor.skipNumber_eq`: going on
  character by character passes the text that a segment is made of;
* `Cursor.scanSegment_mark`: a round of the loop passes the first segment;
* `Cursor.rounds_keep`: what a cursor comes to by reading everything is the same
  after every round, and no round leaves the text;
* `Cursor.scanRest_eq_rounds`: enough rounds, from wherever the cursor stands,
  read everything.
-/

namespace LoxCalc

/-! ## Images of segments -/

/-- Is the segment a token? -/
def Segment.isToken (s : Segment) : Bool :=
  match s.cls with
  | .string | .number | .word | .symbol _ => true
  | _ => false

/-- Is the segment a problem? -/
def Segment.isProblem (s : Segment) : Bool :=
  match s.cls with
  | .openString | .stray => true
  | _ => false

/-- The token that belongs to a segment, on whatever line it stands. -/
inductive Gives : Segment → Token → Prop
  | string {body : List Char} {line : Int} :
      Gives ⟨.string, '\x22' :: body ++ ['\x22']⟩
        ⟨.string, String.ofList ('\x22' :: body ++ ['\x22']), line, some (String.ofList body)⟩
  | number {text : List Char} {line : Int} :
      Gives ⟨.number, text⟩ ⟨.number, String.ofList text, line, some (String.ofList text)⟩
  | keyword (k : Keyword) {line : Int} :
      Gives ⟨.word, k.text.toList⟩ ⟨.keyword k, k.text, line, none⟩
  | identifier {text : List Char} {line : Int} (h : ∀ k : Keyword, k.text.toList ≠ text) :
      Gives ⟨.word, text⟩ ⟨.identifier, String.ofList text, line, none⟩
  | symbol {s : Symbol} {text : List Char} {line : Int} :
      Gives ⟨.symbol s, text⟩ ⟨.symbol s, String.ofList text, line, none⟩

/-- The problem that belongs to a segment, on whatever line it stands. -/
inductive Reports : Segment → Diagnostic → Prop
  | stray {text : List Char} {line : Int} :
      Reports ⟨.stray, text⟩ ⟨"Unexpected character.", none, some line⟩
  | openString {text : List Char} {line : Int} :
      Reports ⟨.openString, text⟩ ⟨"Unterminated string.", none, some line⟩

/-- Keywords are found under their spelling and under nothing else. -/
theorem Keyword.ofText?_eq_some_iff {s : String} {k : Keyword} :
    ofText? s = some k ↔ k.text = s := by
  constructor
  · intro h
    have hfound := List.find?_some h
    exact eq_of_beq hfound
  · rintro rfl
    exact ofText?_text k

namespace Segment

/-- A segment that fits as a token gives that token. -/
theorem token?_spec {s : Segment} {rest : List Char} (hs : Lexical s.cls s.text rest)
    (line : Int) :
    (s.isToken = true ∧ ∃ t, s.token? line = some t ∧ Gives s t) ∨
      (s.isToken = false ∧ s.token? line = none) := by
  obtain ⟨cls, text⟩ := s
  cases hs with
  | @string body _ hbody =>
      have hgives : Gives ⟨.string, '\x22' :: body ++ ['\x22']⟩
          ⟨.string, String.ofList ('\x22' :: body ++ ['\x22']), line,
            some (String.ofList body)⟩ := .string
      refine .inl ⟨rfl, _, ?_, hgives⟩
      simp [token?]
  | whole hne hds => exact .inl ⟨rfl, _, rfl, .number⟩
  | fraction hne hds hfne hfs => exact .inl ⟨rfl, _, rfl, .number⟩
  | @word c cs _ hc hcs =>
      refine .inl ⟨rfl, _, rfl, ?_⟩
      cases hk : Keyword.ofText? (String.ofList (c :: cs)) with
      | some k =>
          have htext : k.text = String.ofList (c :: cs) := Keyword.ofText?_eq_some_iff.mp hk
          have hlist : k.text.toList = c :: cs := by rw [htext, String.toList_ofList]
          have hgives : Gives ⟨.word, k.text.toList⟩ ⟨.keyword k, k.text, line, none⟩ :=
            .keyword k
          rw [hlist, htext] at hgives
          exact hgives
      | none =>
          refine .identifier ?_
          intro k htext
          have hfound : Keyword.ofText? (String.ofList (c :: cs)) = some k :=
            Keyword.ofText?_eq_some_iff.mpr (by rw [← htext, String.ofList_toList])
          rw [hk] at hfound
          cases hfound
  | symbol s => exact .inl ⟨rfl, _, rfl, .symbol⟩
  | _ => exact .inr ⟨rfl, rfl⟩

/-- A segment that fits as a problem reports it. -/
theorem diagnostic?_spec (s : Segment) (line : Int) :
    (s.isProblem = true ∧ ∃ d, s.diagnostic? line = some d ∧ Reports s d) ∨
      (s.isProblem = false ∧ s.diagnostic? line = none) := by
  obtain ⟨cls, text⟩ := s
  cases cls with
  | openString => exact .inl ⟨rfl, _, rfl, .openString⟩
  | stray => exact .inl ⟨rfl, _, rfl, .stray⟩
  | _ => exact .inr ⟨rfl, rfl⟩

end Segment

namespace Scan

/-- The tokens read off segments are their images, and then comes the end mark. -/
theorem tokens_ofSegments {pieces : List Segment}
    (hpieces : ∀ s ∈ pieces, ∃ rest, Lexical s.cls s.text rest) (line : Int) :
    ∃ tokens, (ofSegments line pieces).tokens
        = tokens ++ [Token.endOfSource (ofSegments line pieces).line] ∧
      List.Forall₂ Gives (pieces.filter Segment.isToken) tokens := by
  induction pieces generalizing line with
  | nil => exact ⟨[], rfl, .nil⟩
  | cons s pieces ih =>
      obtain ⟨tokens, htokens, hgives⟩ :=
        ih (fun x hx => hpieces x (List.mem_cons_of_mem _ hx)) (s.lineAfter line)
      obtain ⟨rest, hs⟩ := hpieces s List.mem_cons_self
      rcases Segment.token?_spec hs (s.lineAfter line) with ⟨hcls, t, ht, hgive⟩ | ⟨hcls, hnone⟩
      · refine ⟨t :: tokens, ?_, ?_⟩
        · simp [ofSegments, ht, htokens]
        · rw [List.filter_cons_of_pos hcls]
          exact .cons hgive hgives
      · refine ⟨tokens, ?_, ?_⟩
        · simp [ofSegments, hnone, htokens]
        · rwa [List.filter_cons_of_neg (by simp [hcls])]

/-- The problems read off segments are their images. -/
theorem errors_ofSegments (pieces : List Segment) (line : Int) :
    List.Forall₂ Reports (pieces.filter Segment.isProblem)
      (ofSegments line pieces).errors := by
  induction pieces generalizing line with
  | nil => exact .nil
  | cons s pieces ih =>
      rcases s.diagnostic?_spec (s.lineAfter line) with ⟨hcls, d, hd, hreport⟩ | ⟨hcls, hnone⟩
      · rw [List.filter_cons_of_pos hcls]
        simp only [ofSegments, hd, Option.toList_some, List.singleton_append]
        exact .cons hreport (ih _)
      · rw [List.filter_cons_of_neg (by simp [hcls])]
        simpa [ofSegments, hnone] using ih (s.lineAfter line)

end Scan

/-! ## Reading from a cursor -/

namespace Cursor

/-- The cursor after a segment. -/
def pass (c : Cursor) (s : Segment) : Cursor :=
  { c with
    start := c.current
    current := c.current + s.text.length
    line := s.lineAfter c.line
    tokens := c.tokens ++ (s.token? (s.lineAfter c.line)).toList
    errors := c.errors ++ (s.diagnostic? (s.lineAfter c.line)).toList }

/-- The first `n` rounds of the loop that reads a segment from a mark of its own
as long as there is text. -/
def rounds : Nat → Cursor → Except Defect Cursor
  | 0, c => .ok c
  | n + 1, c =>
    if c.atEnd then .ok c
    else match c.mark.scanSegment with
      | (.ok (), c') => rounds n c'
      | (.error d, _) => .error d

/-- The lexeme between the mark and the cursor. -/
theorem lexeme_eq {c : Cursor} {text more : List Char}
    (hdrop : c.source.drop c.start = text ++ more)
    (hcurrent : c.current = c.start + text.length) : c.lexeme = text := by
  simp [lexeme, hdrop, hcurrent]

/-- A cursor that is not at the end has a next character. -/
theorem rest_ne_nil {c : Cursor} (h : c.atEnd = false) : ∃ ch cs, c.rest = ch :: cs := by
  cases hrest : c.rest with
  | nil =>
      have hlength : c.source.length ≤ c.current := List.drop_eq_nil_iff.mp hrest
      simp [atEnd, hlength] at h
  | cons ch cs => exact ⟨ch, cs, rfl⟩

/-! ### Character by character -/

/-- The cursor after a text and its lines. -/
def skipText (c : Cursor) (cs : List Char) : Cursor :=
  { c with current := c.current + cs.length, line := c.line + cs.count '\n' }

/-- A text within a line is passed without counting. -/
theorem skipText_of_notMem (c : Cursor) {cs : List Char} (h : '\n' ∉ cs) :
    c.skipText cs = c.move cs.length := by
  simp [skipText, move, List.count_eq_zero_of_not_mem h]

theorem skipText_cons (c : Cursor) (ch : Char) (cs : List Char) :
    c.skipText (ch :: cs) = (c.skipText [ch]).skipText cs := by
  simp only [skipText, List.length_cons, List.length_nil, List.count_cons, List.count_nil]
  congr 1 <;> push_cast <;> omega

/-- The next character of a cursor is the first of the rest. -/
theorem peek_eq {c : Cursor} {ch : Char} {cs : List Char} (hrest : c.rest = ch :: cs) :
    c.peek = some ch := by
  rw [peek, hrest, List.head?_cons]

theorem peek_eq_none {c : Cursor} (hrest : c.rest = []) : c.peek = none := by
  rw [peek, hrest, List.head?_nil]

/-- Past the next character the rest goes on. -/
theorem rest_move_one {c : Cursor} {ch : Char} {cs : List Char} (hrest : c.rest = ch :: cs) :
    (c.move 1).rest = cs := by
  rw [rest_move, hrest, List.drop_one, List.tail_cons]

/-- A character is accepted where it comes next. -/
theorem accept_fst_iff {c : Cursor} {ch : Char} :
    (c.accept [ch]).1 = true ↔ c.peek = some ch := by
  rw [accept, apply_ite Prod.fst, ← Option.toList_eq_singleton_iff]
  simp

/-- What is accepted is passed. -/
theorem accept_snd_of_peek {c : Cursor} {ch : Char} (h : c.peek = some ch) :
    (c.accept [ch]).2 = c.move 1 := by
  simp [accept, h]

/-- **Moving on while the next character is of a class** passes the longest run of such
characters. -/
theorem skipWhile_eq (p : Char → Bool) (c : Cursor) :
    c.skipWhile p = c.move (c.rest.takeWhile p).length := by
  induction hrest : c.rest generalizing c with
  | nil =>
      rw [skipWhile, peek_eq_none hrest]
      rfl
  | cons ch cs ih =>
      rw [skipWhile, peek_eq hrest, Option.any_some, List.takeWhile_cons]
      by_cases hch : p ch = true
      · rw [if_pos hch, if_pos hch, ih (c.move 1) (rest_move_one hrest)]
        simp only [move, List.length_cons]
        congr 1
        omega
      · rw [if_neg hch, if_neg hch]
        rfl

/-- **Moving on to the next quote** passes the body of a string and counts its lines. -/
theorem skipBody_eq (c : Cursor) : c.skipBody = c.skipText (stringBody c.rest) := by
  induction hrest : c.rest generalizing c with
  | nil =>
      rw [skipBody, peek_eq_none hrest]
      simp [stringBody, skipText]
  | cons ch cs ih =>
      have hcs : (c.skipText [ch]).rest = cs := rest_move_one hrest
      have hline : ({ c.move 1 with line := if some ch = some '\n' then c.line + 1 else c.line } :
          Cursor) = c.skipText [ch] := by
        by_cases hch : ch = '\n' <;> simp [skipText, move, hch]
      rw [skipBody, peek_eq hrest, Option.any_some, hline, stringBody, List.takeWhile_cons]
      by_cases hquote : (!isQuote ch) = true
      · rw [if_pos hquote, if_pos hquote, ih (c.skipText [ch]) hcs, ← stringBody, ← skipText_cons]
      · rw [if_neg hquote, if_neg hquote]
        simp [skipText]

/-- Behind a run of characters comes the first one that is not of the class. -/
theorem rest_skipWhile (p : Char → Bool) (c : Cursor) :
    (c.skipWhile p).rest = c.rest.dropWhile p := by
  have hdrop : (c.rest.takeWhile p ++ c.rest.dropWhile p).drop (c.rest.takeWhile p).length
      = c.rest.dropWhile p := List.drop_left
  rw [List.takeWhile_append_dropWhile] at hdrop
  rw [skipWhile_eq, rest_move, hdrop]

/-- **Moving past digits and a fraction** passes the rest of a number. -/
theorem skipNumber_eq (c : Cursor) : c.skipNumber = c.move (numberRest c.rest).length := by
  have hwhole := skipWhile_eq Char.isDigit c
  have hbehind := rest_skipWhile Char.isDigit c
  simp only [skipNumber, numberRest, peek, peekNext, hbehind]
  split
  · next hpoint =>
    obtain ⟨d, more, hd, hdigit⟩ : ∃ d more, c.rest.dropWhile Char.isDigit = '.' :: d :: more ∧
        d.isDigit = true := by
      obtain ⟨hhead, hnext⟩ := hpoint
      obtain ⟨tail, htail⟩ := List.head?_eq_some_iff.mp hhead
      rw [htail, List.drop_one, List.tail_cons] at hnext
      cases tail with
      | nil => cases hnext
      | cons d more => exact ⟨d, more, htail, hnext⟩
    have hmore : ((c.skipWhile Char.isDigit).move 1).rest = d :: more :=
      rest_move_one (hbehind.trans hd)
    rw [skipWhile_eq, hmore, hd, hwhole]
    simp only [move, hdigit, List.takeWhile_cons, if_true, List.length_append, List.length_cons]
    congr 1
    omega
  · next hpoint =>
    rw [hwhole]
    split
    · next d more hd =>
      have hdigit : ¬ d.isDigit = true := by
        intro h
        exact hpoint (by simp [hd, h])
      rw [if_neg hdigit]
    · rfl

/-- No line feed stands in a run of characters of a class without it. -/
theorem newline_notMem_takeWhile {p : Char → Bool} (hp : p '\n' = false) (cs : List Char) :
    '\n' ∉ cs.takeWhile p := by
  intro hmem
  have hclass := List.all_eq_true.mp List.all_takeWhile _ hmem
  rw [hp] at hclass
  cases hclass

/-- No line feed stands in a number. -/
theorem newline_notMem_numberRest (cs : List Char) : '\n' ∉ numberRest cs := by
  have hdigit : Char.isDigit '\n' = false := by decide
  have hwhole := newline_notMem_takeWhile hdigit cs
  unfold numberRest
  split
  · next d more hd =>
    split
    · next hd' =>
      have hfraction := newline_notMem_takeWhile hdigit (d :: more)
      rw [List.takeWhile_cons_of_pos hd'] at hfraction
      simp only [List.mem_append, List.mem_cons, not_or] at hfraction ⊢
      exact ⟨hwhole, by decide, hfraction⟩
    · exact hwhole
  · exact hwhole

section Round

variable {c : Cursor} {ch : Char} {cs : List Char}

/-- After the first character of a segment the rest of the text follows. -/
theorem rest_move_mark (hrest : c.rest = ch :: cs) : (c.mark.move 1).rest = cs :=
  rest_move_one (c := c.mark) hrest

/-- The lexeme after the first character and some more. -/
theorem lexeme_skipText (hrest : c.rest = ch :: cs) {u : List Char} (hu : u <+: cs) :
    ((c.mark.move 1).skipText u).lexeme = ch :: u := by
  obtain ⟨more, hmore⟩ := hu
  have hdrop : c.source.drop c.current = ch :: u ++ more := by
    rw [List.cons_append, hmore]
    exact hrest
  refine lexeme_eq hdrop ?_
  simp only [skipText, move, mark, List.length_cons]
  omega

/-- A number is passed. -/
theorem number_mark (hrest : c.rest = ch :: cs) (hch : ch ≠ '\n') :
    (c.mark.move 1).number = c.pass ⟨.number, ch :: numberRest cs⟩ := by
  have hlexeme := lexeme_skipText hrest (numberRest_isPrefix cs)
  unfold number
  rw [skipNumber_eq, rest_move_mark hrest, ← skipText_of_notMem _ (newline_notMem_numberRest cs)]
  simp only [addToken, hlexeme]
  simp [pass, skipText, move, mark, Segment.token?, Segment.diagnostic?, Segment.lineAfter,
    List.count_cons_of_ne hch]
  omega

/-- A word is passed. -/
theorem word_mark (hrest : c.rest = ch :: cs) (hch : ch ≠ '\n') :
    (c.mark.move 1).word = c.pass ⟨.word, ch :: cs.takeWhile isWordChar⟩ := by
  have hlexeme := lexeme_skipText hrest (List.takeWhile_prefix isWordChar)
  have hline := newline_notMem_takeWhile (p := isWordChar) (by decide) cs
  unfold word
  rw [skipWhile_eq, rest_move_mark hrest, ← skipText_of_notMem _ hline]
  simp only [addToken, hlexeme]
  simp [pass, skipText, move, mark, Segment.token?, Segment.diagnostic?, Segment.lineAfter,
    List.count_cons_of_ne hch]
  omega

/-- A string is passed, whether it is closed or not. -/
theorem string_mark (hrest : c.rest = '\x22' :: cs) :
    (c.mark.move 1).string = c.pass (Segment.first '\x22' cs) := by
  have hlength : c.source.length = c.current + cs.length + 1 := by
    have hdrop := congrArg List.length hrest
    simp only [rest, List.length_drop, List.length_cons] at hdrop
    omega
  have hbody : (c.mark.move 1).rest = cs := rest_move_mark hrest
  unfold string
  rw [skipBody_eq, hbody, Segment.first_quote]
  by_cases hany : cs.any isQuote = true
  · obtain ⟨more, hmore⟩ := stringBody_append_quote cs hany
    have hlt : (stringBody cs).length < cs.length := by
      have hsplit := congrArg List.length hmore
      simp only [List.length_append, List.length_singleton] at hsplit
      omega
    have hend : ((c.mark.move 1).skipText (stringBody cs)).atEnd = false := by
      apply decide_eq_false
      simp only [skipText, move, mark]
      omega
    have hlexeme : (((c.mark.move 1).skipText (stringBody cs)).move 1).lexeme
        = '\x22' :: stringBody cs ++ ['\x22'] := by
      have hdrop : c.source.drop c.current = ('\x22' :: stringBody cs ++ ['\x22']) ++ more := by
        rw [List.cons_append, List.cons_append, hmore]
        exact hrest
      refine lexeme_eq hdrop ?_
      simp only [skipText, move, mark, List.length_cons, List.length_append, List.length_nil]
      omega
    rw [if_pos hany]
    simp only [hend, addToken, hlexeme]
    simp [pass, skipText, move, mark, Segment.token?, Segment.diagnostic?, Segment.lineAfter]
    omega
  · have hnone : stringBody cs = cs := by
      have hall : ∀ d ∈ cs, (!isQuote d) = true := by simpa using hany
      exact takeWhile_eq_self hall
    have hend : ((c.mark.move 1).skipText cs).atEnd = true := by
      apply decide_eq_true
      simp only [skipText, move, mark]
      omega
    rw [if_neg hany, hnone]
    simp only [hend, complain]
    simp [pass, skipText, move, mark, Segment.token?, Segment.diagnostic?, Segment.lineAfter,
      Diagnostic.onLine]
    omega

/-- A comment is passed. -/
theorem comment_mark (hrest : c.rest = '/' :: '/' :: cs) :
    ((c.mark.move 1).move 1).skipWhile (· != '\n')
      = c.pass ⟨.comment, '/' :: commentRest ('/' :: cs)⟩ := by
  have hbody : ((c.mark.move 1).move 1).rest = cs := rest_move_one (rest_move_mark hrest)
  have hline := newline_notMem_takeWhile (p := (· != '\n')) (by decide) cs
  rw [skipWhile_eq, hbody, ← skipText_of_notMem _ hline]
  simp [pass, commentRest, skipText, move, mark, Segment.token?, Segment.diagnostic?,
    Segment.lineAfter]
  omega

/-- A symbol or a stray character is passed. -/
theorem symbol_mark (hrest : c.rest = ch :: cs) (hch : ch ≠ '\n') :
    (c.mark.move 1).symbol ch = (.ok (), c.pass (Segment.symbolOrStray ch cs)) := by
  unfold symbol Segment.symbolOrStray
  rw [rest_move_mark hrest]
  cases hpair : pairSymbol? ch cs with
  | some s =>
      obtain ⟨d, v, rfl, hs⟩ := pairSymbol?_eq_some_iff.mp hpair
      have hlexeme : ((c.mark.move 1).move 1).lexeme = [ch, d] := by
        refine lexeme_eq (show c.source.drop c.current = [ch, d] ++ v from hrest) ?_
        simp [move, mark]
      have hd : d ≠ '\n' := by
        rintro rfl
        cases s <;> simp [Symbol.text] at hs
      simp only [hlexeme, Symbol.ofChars?_eq_some_iff.mpr hs, addToken]
      simp [pass, move, mark, Segment.token?, Segment.diagnostic?, Segment.lineAfter,
        List.count_cons_of_ne hch, List.count_cons_of_ne hd]
  | none =>
      have hlexeme : (c.mark.move 1).lexeme = [ch] := by
        refine lexeme_eq (show c.source.drop c.current = [ch] ++ cs from hrest) ?_
        simp [move, mark]
      cases hs : Symbol.ofChars? [ch] with
      | some s =>
          simp only [addToken, hlexeme]
          simp [pass, move, mark, Segment.token?, Segment.diagnostic?, Segment.lineAfter,
            List.count_cons_of_ne hch]
      | none =>
          simp only [complain]
          simp [pass, move, mark, Segment.token?, Segment.diagnostic?, Segment.lineAfter,
            Diagnostic.onLine, List.count_cons_of_ne hch]

/-- **One round of the loop passes the first segment of the rest**, without a
defect. -/
theorem scanSegment_mark (hrest : c.rest = ch :: cs) :
    c.mark.scanSegment = (.ok (), c.pass (Segment.first ch cs)) := by
  have hadvance : c.mark.advance = (.ok ch, c.mark.move 1) := by
    have hpeek : c.mark.peek = some ch := peek_eq hrest
    simp [advance, hpeek]
  have hcs : (c.mark.move 1).rest = cs := rest_move_mark hrest
  have hpeek : (c.mark.move 1).peek = cs.head? := by rw [peek, hcs]
  unfold scanSegment Segment.first
  rw [hadvance]
  simp only [accept_fst_iff, hpeek]
  split
  · next hblank =>
    have hch : ch ≠ '\n' := by
      rintro rfl
      cases hblank
    simp [pass, move, mark, Segment.token?, Segment.diagnostic?, Segment.lineAfter,
      List.count_cons_of_ne hch]
  split
  · next hnewline =>
    subst hnewline
    simp [pass, move, mark, Segment.token?, Segment.diagnostic?, Segment.lineAfter]
  next hnewline =>
  split
  · next hslashes =>
    obtain ⟨rfl, hhead⟩ := hslashes
    obtain ⟨more, rfl⟩ := List.head?_eq_some_iff.mp hhead
    rw [accept_snd_of_peek hpeek, comment_mark hrest]
  split
  · next hquote =>
    obtain rfl : ch = '\x22' := by simpa [isQuote] using hquote
    rw [string_mark hrest, Segment.first_quote]
  split
  · rw [number_mark hrest hnewline]
  split
  · rw [word_mark hrest hnewline]
  · exact symbol_mark hrest hnewline

end Round

/-- After the first segment the rest of the text follows. -/
theorem rest_pass {c : Cursor} {ch : Char} {cs : List Char} (hrest : c.rest = ch :: cs) :
    (c.pass (Segment.first ch cs)).rest = cs.drop ((Segment.first ch cs).text.length - 1) := by
  obtain ⟨n, hn⟩ : ∃ n, (Segment.first ch cs).text.length = n + 1 :=
    ⟨_, (Nat.succ_pred_eq_of_pos (Segment.length_first_pos ch cs)).symm⟩
  have hdrop := rest_move c (n + 1)
  rw [hrest, List.drop_succ_cons] at hdrop
  rw [hn, Nat.add_sub_cancel, ← hdrop, ← hn]
  rfl

/-- The first segment ends in the text. -/
theorem current_pass_le {c : Cursor} {ch : Char} {cs : List Char} (hrest : c.rest = ch :: cs) :
    (c.pass (Segment.first ch cs)).current ≤ c.source.length := by
  have hlength := (Segment.first_isPrefix ch cs).length_le
  have hpos := Segment.length_first_pos ch cs
  rw [← hrest, rest, List.length_drop] at hlength
  simp only [pass]
  omega

/-- **Passing the first segment changes nothing about what is read in all.** -/
theorem scanRest_pass {c : Cursor} {ch : Char} {cs : List Char} (hrest : c.rest = ch :: cs) :
    (c.pass (Segment.first ch cs)).scanRest = c.scanRest := by
  have hcs := rest_pass hrest
  have hpieces : segments c.rest
      = Segment.first ch cs :: segments (c.pass (Segment.first ch cs)).rest := by
    rw [hcs, hrest, segments_cons]
  have hpass := current_pass_le hrest
  -- The last segment is the first one only if nothing comes after it.
  have hlast : (((segments (c.pass (Segment.first ch cs)).rest).getLast?.map
        fun s => c.source.length - s.text.length).getD c.current)
      = (((segments c.rest).getLast?.map fun s => c.source.length - s.text.length).getD
        c.start) := by
    rw [hpieces]
    cases hmore : segments (c.pass (Segment.first ch cs)).rest with
    | nil =>
        have hnil : (c.pass (Segment.first ch cs)).rest = [] := by
          rw [← flatMap_segments (c.pass (Segment.first ch cs)).rest, hmore, List.flatMap_nil]
        have hlength := List.drop_eq_nil_iff.mp hnil
        simp only [pass] at hlength hpass
        simp only [List.getLast?_nil, List.getLast?_singleton, Option.map_none, Option.map_some,
          Option.getD_none, Option.getD_some]
        omega
    | cons s more =>
        rw [List.getLast?_cons_cons, List.getLast?_cons]
        rfl
  have hcurrent : max (c.pass (Segment.first ch cs)).current c.source.length
      = max c.current c.source.length := by
    simp only [pass] at hpass ⊢
    omega
  simp only [scanRest]
  rw [← hlast, ← hcurrent, hpieces]
  simp [pass, Scan.ofSegments]

/-- **What a cursor comes to is the same after every round**, and no round leaves
the text: after any number of rounds there was no defect, and after as many as
there are characters the loop has ended. -/
theorem rounds_keep (n : Nat) (c : Cursor) :
    ∃ c', c.rounds n = .ok c' ∧ c'.source = c.source ∧
      c'.current ≤ max c.current c.source.length ∧ c'.scanRest = c.scanRest ∧
      (c.source.length ≤ c.current + n → c'.atEnd = true) := by
  induction n generalizing c with
  | zero => exact ⟨c, rfl, rfl, Nat.le_max_left _ _, rfl, fun h => decide_eq_true h⟩
  | succ n ih =>
      rw [rounds]
      cases hend : c.atEnd with
      | true => exact ⟨c, rfl, rfl, Nat.le_max_left _ _, rfl, fun _ => hend⟩
      | false =>
          obtain ⟨ch, cs, hrest⟩ := rest_ne_nil hend
          have hpass := current_pass_le hrest
          have hpos := Segment.length_first_pos ch cs
          obtain ⟨c', hrounds, hsource, hcurrent, hscan, hdone⟩ := ih (c.pass (Segment.first ch cs))
          rw [scanSegment_mark hrest]
          refine ⟨c', hrounds, hsource, ?_, hscan.trans (scanRest_pass hrest), ?_⟩
          · simp only [pass] at hpass hcurrent
            omega
          · intro hn
            apply hdone
            simp only [pass]
            omega

/-- From the beginning of a text the loop meets no defect and stays in the text. -/
theorem rounds_ofSource (n : Nat) (source : String) :
    ∃ c, (ofSource source).rounds n = .ok c ∧ c.source.length = source.length ∧
      c.current ≤ source.length := by
  obtain ⟨c, hrounds, hsource, hcurrent, -, -⟩ := rounds_keep n (ofSource source)
  have hlength : (ofSource source).source.length = source.length := String.length_toList
  refine ⟨c, hrounds, by rw [hsource, hlength], ?_⟩
  rw [hlength] at hcurrent
  exact Nat.le_trans hcurrent (Nat.max_le.mpr ⟨Nat.zero_le _, Nat.le_refl _⟩)

/-- At the end only the end mark is left to read. -/
theorem scanRest_of_atEnd {c : Cursor} (h : c.atEnd = true) :
    c.scanRest = { c with tokens := c.tokens ++ [Token.endOfSource c.line] } := by
  have hlength : c.source.length ≤ c.current := of_decide_eq_true h
  have hrest : c.rest = [] := List.drop_eq_nil_iff.mpr hlength
  simp [scanRest, hrest, segments, segmentsFrom, Scan.ofSegments, Nat.max_eq_left hlength]

/-- **Reading everything is the loop over segments**, from wherever the cursor
stands: enough rounds come to the end of the text without a defect, and what is
missing then is the end mark. -/
theorem scanRest_eq_rounds {n : Nat} {c : Cursor} (hn : c.source.length ≤ c.current + n) :
    ∃ c', c.rounds n = .ok c' ∧ c'.atEnd = true ∧
      c.scanRest = { c' with tokens := c'.tokens ++ [Token.endOfSource c'.line] } := by
  obtain ⟨c', hrounds, -, -, hscan, hdone⟩ := rounds_keep n c
  have hend := hdone hn
  exact ⟨c', hrounds, hend, by rw [← hscan, scanRest_of_atEnd hend]⟩

/-- Inside the text there is always a next character. -/
theorem advance_of_lt {c : Cursor} (h : c.current < c.source.length) :
    ∃ ch, c.advance.1 = .ok ch := by
  obtain ⟨ch, cs, hrest⟩ := rest_ne_nil (c := c) (decide_eq_false (Nat.not_le.mpr h))
  exact ⟨ch, by simp [advance, peek, hrest]⟩

end Cursor

/-! ## The whole scan -/

/-- The segments of a text are nonempty and fit the lexical grammar. -/
theorem Cut.lexical {cs : List Char} {pieces : List Segment} (h : Cut cs pieces) :
    ∀ s ∈ pieces, ∃ rest, Lexical s.cls s.text rest := by
  induction h with
  | nil => simp
  | @cons s rest pieces hs hrest ih =>
      intro x hx
      rcases List.mem_cons.mp hx with rfl | hx
      · exact ⟨rest, hs.lexical⟩
      · exact ih x hx

/-- Nonempty segments are at most as many as the characters they cover. -/
theorem Cut.length_le {cs : List Char} {pieces : List Segment} (h : Cut cs pieces) :
    pieces.length ≤ cs.length := by
  induction h with
  | nil => exact Nat.le_refl 0
  | @cons s rest pieces hs hrest ih =>
      have hpos := List.length_pos_iff.mpr hs.lexical.ne_nil
      rw [List.length_cons, List.length_append]
      omega

/-- No segment is both a token and a problem. -/
theorem length_filter_add_length_filter_le (pieces : List Segment) :
    (pieces.filter Segment.isToken).length + (pieces.filter Segment.isProblem).length
      ≤ pieces.length := by
  induction pieces with
  | nil => exact Nat.le_refl 0
  | cons s pieces ih =>
      obtain ⟨cls, text⟩ := s
      cases cls <;>
        simp only [List.filter_cons, Segment.isToken, Segment.isProblem, Bool.false_eq_true,
          if_true, if_false, List.length_cons] <;> omega

/-- **Scanning is longest-match tokenization.**  A source text is cut into
longest segments of the lexical grammar in exactly one way.  Its tokens are the
images of the string, number, word and symbol segments, in order, followed by
one end mark; its problems are the images of the stray characters and of the
string that is not closed.  The loop over a cursor gives the same and never
advances past the end of the text. -/
theorem scan_longest_match (source : String) :
    ∃ pieces : List Segment,
      (∀ pieces', Cut source.toList pieces' ↔ pieces' = pieces) ∧
      pieces.flatMap Segment.text = source.toList ∧
      (∀ s ∈ pieces, s.text ≠ []) ∧
      (∃ tokens, (scan source).tokens = tokens ++ [⟨.eof, "", (scan source).line, none⟩] ∧
        List.Forall₂ Gives (pieces.filter Segment.isToken) tokens) ∧
      List.Forall₂ Reports (pieces.filter Segment.isProblem) (scan source).errors ∧
      (Symbol.all.countP (fun s => s.text.length == 2) = 4 ∧
        Symbol.all.countP (fun s => s.text.length == 1) = 15) ∧
      (∀ n, ∃ c, (Cursor.ofSource source).rounds n = .ok c ∧ c.current ≤ source.length ∧
        ∀ i, i < c.current → ∃ ch, ({ c with current := i } : Cursor).advance.1 = .ok ch) ∧
      (∃ n c, (Cursor.ofSource source).rounds n = .ok c ∧ c.atEnd = true ∧
        scan source = ⟨c.tokens ++ [Token.endOfSource c.line], c.errors, c.line⟩) ∧
      (scan source).tokens.length + (scan source).errors.length ≤ source.length + 1 := by
  have hcut : Cut source.toList (segments source.toList) := cut_segments source.toList
  have hpieces := hcut.lexical
  obtain ⟨tokens, htokens, hgives⟩ := Scan.tokens_ofSegments hpieces 1
  have hreports := Scan.errors_ofSegments (segments source.toList) 1
  refine ⟨segments source.toList, fun _ => cut_iff, flatMap_segments _, ?_,
    ⟨tokens, htokens, hgives⟩, hreports, by decide, ?_, ?_, ?_⟩
  · intro s hs
    obtain ⟨rest, hlexical⟩ := hpieces s hs
    exact hlexical.ne_nil
  · intro n
    obtain ⟨c, hrounds, hlength, hcurrent⟩ := Cursor.rounds_ofSource n source
    refine ⟨c, hrounds, hcurrent, ?_⟩
    intro i hi
    apply Cursor.advance_of_lt
    rw [hlength]
    exact Nat.lt_of_lt_of_le hi hcurrent
  · have hn : (Cursor.ofSource source).source.length
        ≤ (Cursor.ofSource source).current + source.length := by
      simp [Cursor.ofSource, String.length_toList]
    obtain ⟨c, hrounds, hend, hscan⟩ := Cursor.scanRest_eq_rounds hn
    refine ⟨source.length, c, hrounds, hend, ?_⟩
    have hwhole : scan source = ⟨(Cursor.ofSource source).scanRest.tokens,
        (Cursor.ofSource source).scanRest.errors, (Cursor.ofSource source).scanRest.line⟩ := rfl
    rw [hwhole, hscan]
  · have hcount := length_filter_add_length_filter_le (segments source.toList)
    have hle := hcut.length_le
    have htoken := hgives.length_eq
    have hreport := hreports.length_eq
    rw [String.length_toList] at hle
    have hscan : (scan source).tokens.length = tokens.length + 1 := by
      simp [scan, Scan.ofChars, htokens]
    have herrors : (scan source).errors.length
        = ((segments source.toList).filter Segment.isProblem).length := hreport.symm
    omega

end LoxCalc
